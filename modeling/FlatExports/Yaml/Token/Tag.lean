import FlatExports.Text.Utf8
import FlatExports.Yaml.Token.Quoted

/-!
Tags and directives.

A tag is written in full between angle brackets, or as a handle and a suffix.
A directive fills a line of its own at the start of a document.
-/

namespace FlatExports.Yaml

def isTagChar (c : Char) : Bool :=
  isNameChar c || "-;/?:@&=+$,_.!~*'()[]".toList.contains c

def escapedBytes? : List Char → Option (Text.Bytes × Nat)
  | '%' :: a :: b :: rest => do
      let high ← Escape.hexValue? a
      let low ← Escape.hexValue? b
      let (bytes, length) ← escapedBytes? rest
      return (UInt8.ofNat (16 * high + low) :: bytes, length + 3)
  | '%' :: _ => none
  | _ => some ([], 0)

/-- The characters of a tag, and how many spell them; `skip` are read already. -/
def tagText? : List Char → Nat → Option (List Char × Nat)
  | [], _ => some ([], 0)
  | _ :: rest, skip + 1 => do
      let (text, length) ← tagText? rest skip
      return (text, length + 1)
  | c :: rest, 0 =>
      if isTagChar c then do
        let (text, length) ← tagText? rest 0
        return (c :: text, length + 1)
      else if c = '%' then do
        let (bytes, skipped) ← escapedBytes? (c :: rest)
        let chars ← Text.decode? bytes
        let (text, length) ← tagText? rest (skipped - 1)
        return (chars ++ text, length + 1)
      else some ([], 0)

/-- As `tagText?`, but a tag has at least one character. -/
def tagSuffix? (text : List Char) : Option (String × Nat) := do
  let (suffix, length) ← tagText? text 0
  if length = 0 then none else some (String.ofList suffix, length)

def tagHandle? (text : List Char) : Option (List Char) :=
  match text with
  | '!' :: rest =>
      if rest.head? = some ' ' then some ['!']
      else
        let name := rest.takeWhile isNameChar
        if (rest.drop name.length).head? = some '!' then some ('!' :: name ++ ['!']) else none
  | _ => none

def tagBehindMark? (rest : List Char) : Option (WrittenTag × Nat) := do
  let (tag, length) ←
    if rest.head? = some '<' then do
      let (name, length) ← tagSuffix? (rest.drop 1)
      if (rest.drop (length + 1)).head? = some '>' then some (.full name, length + 2) else none
    else if endsWord rest then some (.full "!", 0)
    else if (rest.takeWhile fun c => c ≠ ' ' && !isBreak c).contains '!' then do
      let handle ← tagHandle? ('!' :: rest)
      let (suffix, length) ← tagSuffix? (rest.drop (handle.length - 1))
      some (.short (String.ofList handle) suffix, handle.length - 1 + length)
    else do
      let (suffix, length) ← tagSuffix? rest
      some (.short "!" suffix, length)
  if endsField (rest.drop length) then some (tag, length) else none

/-! ## Directives -/

def dropSpaces (text : List Char) : List Char := text.dropWhile (· = ' ')

def isDigit (c : Char) : Bool := '0' ≤ c && c ≤ '9'

def numberAt? (text : List Char) : Option (Nat × List Char) :=
  let digits := text.takeWhile isDigit
  if digits.isEmpty then none
  else some ((String.ofList digits).toNat?.getD 0, text.drop digits.length)

/-- Whether a line holds nothing more than a comment. -/
def isRemark (text : List Char) : Bool :=
  let rest := dropSpaces text
  rest.isEmpty || rest.head? = some '#'

def versionOf? (text : List Char) : Option Directive := do
  let (major, rest) ← numberAt? (dropSpaces text)
  guard (rest.head? = some '.')
  let (minor, rest) ← numberAt? (rest.drop 1)
  guard (endsField rest ∧ isRemark rest)
  return .version major minor

def tagHandleOf? (text : List Char) : Option Directive := do
  let rest := dropSpaces text
  let handle ← tagHandle? rest
  let rest := rest.drop handle.length
  guard (rest.head? = some ' ')
  let (start, length) ← tagSuffix? (dropSpaces rest)
  let rest := (dropSpaces rest).drop length
  guard (endsField rest ∧ isRemark rest)
  return .tagHandle (String.ofList handle) start

def directive? (line : List Char) : Option Directive := do
  let name := line.takeWhile isNameChar
  let rest := line.drop name.length
  guard (!name.isEmpty ∧ endsField rest)
  if name = "YAML".toList then versionOf? rest
  else if name = "TAG".toList then tagHandleOf? rest
  else return .unknown (String.ofList name)

end FlatExports.Yaml
