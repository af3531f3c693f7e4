import FlatExports.Text.Utf8

/-!
Slices and lines of a byte source.

A slice out of range is cut short and a reversed one is empty.  Blank means
ASCII blank: space, tab, line feed, carriage return, vertical tab, form feed.
-/

namespace FlatExports.Text

def slice (source : Bytes) (start stop : Nat) : Bytes :=
  (source.take stop).drop start

def newline : UInt8 := 10

def isBlankByte (byte : UInt8) : Bool :=
  byte == 32 || (9 ≤ byte && byte ≤ 13)

def isBlank (bytes : Bytes) : Bool := bytes.all isBlankByte

def lineStart (source : Bytes) (position : Nat) : Nat :=
  let before := source.take position
  before.length - (before.reverse.takeWhile (· != newline)).length

def lineEnd (source : Bytes) (position : Nat) : Nat :=
  let tail := (source.drop position).takeWhile (· != newline)
  if position + tail.length < source.length then position + tail.length + 1
  else source.length

end FlatExports.Text
