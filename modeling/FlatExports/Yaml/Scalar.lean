import FlatExports.Text.Base64
import FlatExports.Text.Blank
import FlatExports.Yaml.Tag
import FlatExports.Yaml.Value

/-!
The values of scalars.

A tag says how the characters of a scalar are read.  A scalar whose tag was
given, and not found from its spelling, need not fit the tag.
-/

namespace FlatExports.Yaml.Scalar

/-! ## Numbers -/

def digitOf? (base : Nat) (c : Char) : Option Nat :=
  let n :=
    if '0' ≤ c ∧ c ≤ '9' then c.toNat - '0'.toNat
    else if 'a' ≤ c ∧ c ≤ 'z' then c.toNat - 'a'.toNat + 10
    else if 'A' ≤ c ∧ c ≤ 'Z' then c.toNat - 'A'.toNat + 10
    else base
  if n < base then some n else none

def digits? (base : Nat) (text : List Char) : Option Nat :=
  if text.isEmpty then none
  else text.foldl (fun n c => do return (← n) * base + (← digitOf? base c)) (some 0)

def signed : List Char → Bool × List Char
  | '-' :: rest => (true, rest)
  | '+' :: rest => (false, rest)
  | text => (false, text)

def withSign (negative : Bool) (n : Int) : Int := if negative then -n else n

/-- The text behind the mark of a base. -/
def withoutBase (base : Nat) (text : List Char) : List Char :=
  match text with
  | '0' :: mark :: rest =>
      let mark := mark.toLower
      if (base = 2 ∧ mark = 'b') ∨ (base = 8 ∧ mark = 'o') ∨ (base = 16 ∧ mark = 'x') then rest
      else text
  | _ => text

def digitLimit : Nat := 4300

def whole (base : Nat) (text : List Char) : Except ScalarFault Int :=
  let (negative, body) := signed (Text.trim text)
  let body := withoutBase base body
  if base = 10 ∧ digitLimit < body.length ∧ body.all Tag.isDigit then
    throw (.tooManyDigits body.length)
  else match digits? base body with
    | some n => return withSign negative n
    | none => throw (.notInteger base (String.ofList text))

def colonPieces : List Char → List (List Char)
  | [] => [[]]
  | c :: rest =>
      if c = ':' then [] :: colonPieces rest
      else match colonPieces rest with
        | [] => [[c]]
        | piece :: pieces => (c :: piece) :: pieces

def integer (text : List Char) : Except ScalarFault Int :=
  let text := text.filter (· ≠ '_')
  let (negative, body) := signed text
  match body with
  | [] => throw .emptyNumber
  | ['0'] => return 0
  | '0' :: 'b' :: rest => do return withSign negative (← whole 2 rest)
  | '0' :: 'x' :: rest => do return withSign negative (← whole 16 rest)
  | '0' :: _ => do return withSign negative (← whole 8 body)
  | _ => do
      let parts ← (colonPieces body).mapM (whole 10)
      return withSign negative (parts.foldl (fun n part => 60 * n + part) 0)

def fraction? (negative : Bool) (text : List Char) : Option Binary64 := do
  let whole := text.takeWhile Tag.isDigit
  let rest := text.drop whole.length
  let (places, rest) :=
    match rest with
    | '.' :: tail =>
        let places := tail.takeWhile Tag.isDigit
        (places, tail.drop places.length)
    | _ => ([], rest)
  let digits ← digits? 10 (whole ++ places)
  let exponent ←
    match rest with
    | [] => some 0
    | e :: rest =>
        if e.toLower = 'e' then
          let (below, rest) := signed rest
          (digits? 10 rest).map fun n => withSign below n
        else none
  return .ofDecimal negative digits (exponent - places.length)

def realPart (text : List Char) : Except ScalarFault Binary64 :=
  let (negative, body) := signed (Text.trim text)
  if body = "inf".toList ∨ body = "infinity".toList then return .infinite negative
  else if body = "nan".toList then return .notNumber
  else match fraction? negative body with
    | some number => return number
    | none => throw (.notReal (String.ofList text))

def real (text : List Char) : Except ScalarFault Binary64 := do
  let text := (text.filter (· ≠ '_')).map Char.toLower
  let (negative, body) := signed text
  let withSign (number : Binary64) : Binary64 := if negative then number.negate else number
  if body.isEmpty then throw .emptyNumber
  else if body = ".inf".toList then return .infinite negative
  else if body = ".nan".toList then return .notNumber
  else if body.contains ':' then
    let parts ← (colonPieces body).mapM realPart
    let weighted := parts.reverse.zipIdx
    let add (total : Binary64) (part : Binary64 × Nat) : Binary64 :=
      part.1.addScaled (Nat.pow 60 part.2) total
    return withSign (weighted.foldl add (.finite false 0 Binary64.leastExponent))
  else return withSign (← realPart body)

/-! ## All scalars -/

def boolean (text : String) : Except ScalarFault Bool :=
  let text := text.toList.map Char.toLower
  if Tag.trueWords.any (·.toList = text) then return true
  else if Tag.falseWords.any (·.toList = text) then return false
  else throw .notBoolean

def inScalar {α : Type} (result : Except ScalarFault α) : Except Fault α :=
  result.mapError .scalar

def value (tag : Tag) (text : String) : Except Fault Value :=
  match tag with
  | .null => return .null
  | .boolean => do return .flag (← inScalar (boolean text))
  | .integer => do return .whole (← inScalar (integer text.toList))
  | .real => do return .real (← inScalar (real text.toList))
  | .moment => do return .moment (← inScalar (Moment.read text.toList))
  | .text => return .text text
  | .binary =>
      match if text.toList.all (·.toNat < 128) then Text.base64? text.toList else none with
      | some bytes => return .binary bytes
      | none => throw .badBinary
  | .list | .map | .set | .orderedMap | .pairs => throw .wrongKind
  | .merge => throw (.unknownTag (Tag.coreHandle ++ "merge"))
  | .value => throw (.unknownTag (Tag.coreHandle ++ "value"))
  | .other name => throw (.unknownTag name)

end FlatExports.Yaml.Scalar
