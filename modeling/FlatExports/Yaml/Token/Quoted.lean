import FlatExports.Yaml.Fault
import FlatExports.Yaml.Token

/-!
Quoted scalars.

Between apostrophes two of them stand for one; between double quotes a
backslash starts an escape.  Blanks around a line break are dropped, and a
single break counts as a space.
-/

namespace FlatExports.Yaml

inductive Escape where
  /-- The character that is meant, and how many characters spell it. -/
  | char (c : Char) (length : Nat)
  | lineBreak
  | fault (fault : Fault)

namespace Escape

def named? (c : Char) : Option Char :=
  match c with
  | '0' => some '\x00'
  | 'a' => some '\x07'
  | 'b' => some '\x08'
  | 't' => some '\t'
  | '\t' => some '\t'
  | 'n' => some '\n'
  | 'v' => some '\x0b'
  | 'f' => some '\x0c'
  | 'r' => some '\r'
  | 'e' => some '\x1b'
  | ' ' => some ' '
  | '"' => some '"'
  | '\\' => some '\\'
  | '/' => some '/'
  | 'N' => some '\x85'
  | '_' => some '\xa0'
  | 'L' => some '\u2028'
  | 'P' => some '\u2029'
  | _ => none

def codeLength? (c : Char) : Option Nat :=
  match c with
  | 'x' => some 2
  | 'u' => some 4
  | 'U' => some 8
  | _ => none

def hexValue? (c : Char) : Option Nat :=
  if '0' ≤ c ∧ c ≤ '9' then some (c.toNat - '0'.toNat)
  else if 'a' ≤ c ∧ c ≤ 'f' then some (c.toNat - 'a'.toNat + 10)
  else if 'A' ≤ c ∧ c ≤ 'F' then some (c.toNat - 'A'.toNat + 10)
  else none

def hexNumber? (text : List Char) : Option Nat :=
  text.foldl (fun n c => do return 16 * (← n) + (← hexValue? c)) (some 0)

def charOf? (code : Nat) : Option Char :=
  if h : code.isValidChar then some (Char.ofNatAux code h)
  else if code < 0x110000 then some '\ufffd'
  else none

def ofCode (length : Nat) (rest : List Char) : Escape :=
  let digits := rest.take length
  if digits.length < length then .fault .badEscape
  else match hexNumber? digits with
    | none => .fault .badEscape
    | some code =>
        match charOf? code with
        | some c => .char c (length + 1)
        | none => .fault (.scalar .codePoint)

def read : List Char → Escape
  | [] => .fault .badEscape
  | c :: rest =>
      if isBreak c then .lineBreak
      else match named? c, codeLength? c with
        | some meant, _ => .char meant 1
        | none, some length => ofCode length rest
        | none, none => .fault .badEscape

end Escape

def prepend (text : List Char) (length : Nat)
    (result : Except Fault (List Char × Nat)) : Except Fault (List Char × Nat) := do
  let (others, count) ← result
  return (text ++ others, count + length)

/--
The text of a scalar up to its closing mark, and the number of characters with
the mark.  `skip` characters have been read already.
-/
def quoted (mark : Char) : List Char → Nat → Blanks → Except Fault (List Char × Nat)
  | [], _, _ => throw .unclosedQuote
  | _ :: rest, skip + 1, blanks => prepend [] 1 (quoted mark rest skip blanks)
  | c :: rest, 0, blanks =>
      if isGap c then prepend [] 1 (quoted mark rest 0 (blanks.addGap c))
      else if isBreak c then
        if isSeparatorLine rest then throw .unclosedQuote
        else prepend [] 1 (quoted mark rest 0 (blanks.addBreak c))
      else if c = mark then
        if mark = '\'' ∧ rest.head? = some '\'' then
          prepend (blanks.text ++ ['\'']) 1 (quoted mark rest 1 .none)
        else return (blanks.text, 1)
      else if c = '\\' ∧ mark = '"' then
        match Escape.read rest with
        | .char meant length =>
            prepend (blanks.text ++ [meant]) 1 (quoted mark rest length .none)
        | .lineBreak =>
            if isSeparatorLine (rest.drop 1) then throw .unclosedQuote
            else prepend blanks.text 1 (quoted mark rest 1 (.breaks none []))
        | .fault fault => throw fault
      else prepend (blanks.text ++ [c]) 1 (quoted mark rest 0 .none)

end FlatExports.Yaml
