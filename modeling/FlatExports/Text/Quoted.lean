/-!
Text in quotation marks.

`literal` writes a string literal of the module language: a backslash before
each backslash and before the quotation mark in use.  `shown` writes a name the
way messages show it: between apostrophes, or between double quotes when it
holds an apostrophe and no double quote, with control characters escaped.
-/

namespace FlatExports.Text

def escaped (mark : Char) : List Char → List Char
  | [] => []
  | c :: rest =>
      if c = '\\' ∨ c = mark then '\\' :: c :: escaped mark rest
      else c :: escaped mark rest

def literal (mark : Char) (text : String) : String :=
  String.ofList (mark :: escaped mark text.toList ++ [mark])

def hexDigits (width n : Nat) : List Char :=
  let digits := Nat.toDigits 16 n
  List.replicate (width - digits.length) '0' ++ digits

/-- The ranges of characters that a message escapes: controls, blanks and unassigned marks. -/
def hiddenRanges : List (Nat × Nat) :=
  [(0, 0x1F), (0x7F, 0xA0), (0xAD, 0xAD), (0x600, 0x605), (0x61C, 0x61C), (0x6DD, 0x6DD),
   (0x70F, 0x70F), (0x1680, 0x1680), (0x180E, 0x180E), (0x2000, 0x200F), (0x2028, 0x202F),
   (0x205F, 0x206F), (0x3000, 0x3000), (0xE000, 0xF8FF), (0xFEFF, 0xFEFF), (0xFFF0, 0xFFFB),
   (0xFFFE, 0xFFFF), (0xE0000, 0xE00FF), (0xE01F0, 0xE0FFF), (0xF0000, 0x10FFFF)]

def isHidden (c : Char) : Bool :=
  hiddenRanges.any fun (first, last) => first ≤ c.toNat && c.toNat ≤ last

def escapedCode (c : Char) : List Char :=
  if c.toNat < 0x100 then '\\' :: 'x' :: hexDigits 2 c.toNat
  else if c.toNat < 0x10000 then '\\' :: 'u' :: hexDigits 4 c.toNat
  else '\\' :: 'U' :: hexDigits 8 c.toNat

def shownChar (mark c : Char) : List Char :=
  if c = '\\' ∨ c = mark then ['\\', c]
  else if c = '\n' then ['\\', 'n']
  else if c = '\r' then ['\\', 'r']
  else if c = '\t' then ['\\', 't']
  else if isHidden c then escapedCode c
  else [c]

def shown (text : String) : String :=
  let cs := text.toList
  let mark := if cs.contains '\'' && !cs.contains '"' then '"' else '\''
  String.ofList (mark :: cs.flatMap (shownChar mark) ++ [mark])

/-- Bytes the way messages show them; only visible ASCII stands for itself. -/
def shownBytes (bytes : List UInt8) : String :=
  let cs := bytes.map fun byte => Char.ofNat byte.toNat
  let mark := if cs.contains '\'' && !cs.contains '"' then '"' else '\''
  let shownByte (c : Char) : List Char :=
    if 127 ≤ c.toNat then '\\' :: 'x' :: hexDigits 2 c.toNat else shownChar mark c
  String.ofList ('b' :: mark :: cs.flatMap shownByte ++ [mark])

end FlatExports.Text
