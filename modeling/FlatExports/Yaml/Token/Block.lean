import FlatExports.Yaml.Fault
import FlatExports.Yaml.Token

/-!
Block scalars.

The header of a block scalar tells whether its line breaks are kept or folded,
what becomes of the breaks at its end, and how far its lines are indented; if
it does not tell the indentation, the blank lines at the start and the first
line of text do.  A folded scalar joins two lines by a space unless one of them
starts with a blank.
-/

namespace FlatExports.Yaml

/-- What becomes of the line breaks at the end of a block scalar. -/
inductive Chomping where
  | strip
  | clip
  | keep
  deriving DecidableEq, Repr

structure BlockHeader where
  chomping : Chomping
  /-- The indentation relative to the collection around the scalar. -/
  increment : Option Nat
  deriving DecidableEq, Repr

/-- A line of text and the break that ends it, unless the text ends with it. -/
structure TextLine where
  content : List Char
  ending : Option Char
  deriving DecidableEq, Repr

namespace TextLine

def length (line : TextLine) : Nat :=
  line.content.length + (if line.ending.isSome then 1 else 0)

def ofText : List Char → List TextLine
  | [] => [⟨[], none⟩]
  | c :: rest =>
      if isBreak c then ⟨[], some c⟩ :: ofText rest
      else match ofText rest with
        | [] => [⟨[c], none⟩]
        | line :: lines => { line with content := c :: line.content } :: lines

def spaces (line : TextLine) : Nat := (line.content.takeWhile (· = ' ')).length

def isBlank (line : TextLine) : Bool := line.spaces = line.content.length

def breakText (line : TextLine) : List Char := (line.ending.map Yaml.breakText).toList

/-- Whether a line belongs to a scalar with an indentation. -/
def belongs (indent : Nat) (line : TextLine) : Bool :=
  if line.spaces < indent then line.isBlank && line.ending.isSome
  else indent < line.content.length || line.ending.isSome

end TextLine

namespace BlockHeader

def chomping? (c : Char) : Option Chomping :=
  if c = '+' then some .keep else if c = '-' then some .strip else none

def increment? (c : Char) : Option Nat :=
  if '1' ≤ c ∧ c ≤ '9' then some (c.toNat - '0'.toNat) else none

def read : List Char → BlockHeader × Nat
  | a :: rest =>
      match chomping? a, increment? a with
      | some chomping, _ =>
          match rest.head?.bind increment? with
          | some increment => (⟨chomping, some increment⟩, 2)
          | none => (⟨chomping, none⟩, 1)
      | none, some increment =>
          match rest.head?.bind chomping? with
          | some chomping => (⟨chomping, some increment⟩, 2)
          | none => (⟨.clip, some increment⟩, 1)
      | none, none => (⟨.clip, none⟩, 0)
  | [] => (⟨.clip, none⟩, 0)

end BlockHeader

namespace Block

/-- The indentation that the first lines tell. -/
def deepest : List TextLine → Nat
  | [] => 0
  | line :: rest =>
      if line.isBlank ∧ line.ending.isSome then max line.spaces (deepest rest)
      else line.spaces

def startsBlank (text : List Char) : Bool := (text.head?.map isGap).getD false

/-- What stands between two lines of text, the blank lines included. -/
def joint (folds : Bool) (ending blanks before after : List Char) : List Char :=
  if folds ∧ ending = ['\n'] ∧ !startsBlank before ∧ !startsBlank after then
    if blanks.isEmpty then [' '] else blanks
  else ending ++ blanks

def textAfter (folds : Bool) (chomping : Chomping) (indent : Nat) (before ending : List Char) :
    List Char → List TextLine → List Char
  | blanks, [] =>
      (if chomping = .strip then [] else ending) ++ (if chomping = .keep then blanks else [])
  | blanks, line :: rest =>
      let content := line.content.drop indent
      if content.isEmpty then
        textAfter folds chomping indent before ending (blanks ++ line.breakText) rest
      else
        joint folds ending blanks before content ++ content ++
          textAfter folds chomping indent content line.breakText [] rest

def text (folds : Bool) (chomping : Chomping) (indent : Nat) :
    List Char → List TextLine → List Char
  | blanks, [] => if chomping = .keep then blanks else []
  | blanks, line :: rest =>
      let content := line.content.drop indent
      if content.isEmpty then text folds chomping indent (blanks ++ line.breakText) rest
      else
        blanks ++ content ++ textAfter folds chomping indent content line.breakText [] rest

end Block

/--
The text of a block scalar behind its first mark, and the number of characters
to the end of its last line.  `least` is the column its lines need at least.
-/
def blockScalar (folds : Bool) (least : Nat) (rest : List Char) :
    Except Fault (List Char × Nat) := do
  let (header, marks) := BlockHeader.read rest
  let tail := rest.drop marks
  unless endsField tail do throw .badHeader
  let gap := (tail.takeWhile (· = ' ')).length
  let comment := tail.drop gap
  let remark :=
    if comment.head? = some '#' then (comment.takeWhile (!isBreak ·)).length else 0
  let behind := comment.drop remark
  unless endsLine behind do throw .badHeader
  let lines := TextLine.ofText (behind.drop 1)
  let indent :=
    match header.increment with
    | some increment => least + increment - 1
    | none => max least (Block.deepest lines)
  let taken := lines.takeWhile (·.belongs indent)
  let length := taken.foldl (fun total line => total + line.length) 0
  let headLength := marks + gap + remark + (if behind.isEmpty then 0 else 1)
  return (Block.text folds header.chomping indent [] taken, headLength + length)

end FlatExports.Yaml
