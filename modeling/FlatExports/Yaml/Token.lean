/-!
The tokens of a YAML text.

Block collections are told by indentation: a start token stands before the
first entry and an end token where the indentation falls back.  A `key` token
stands before every key, written with a question mark or not.
-/

namespace FlatExports.Yaml

/-- The tag of a node as written: with a handle to look up, or in full. -/
inductive WrittenTag where
  | full (name : String)
  | short (handle suffix : String)
  deriving DecidableEq, Repr

inductive Directive where
  | version (major minor : Nat)
  | tagHandle (handle start : String)
  | unknown (name : String)
  deriving DecidableEq, Repr

inductive Token where
  | directive (directive : Directive)
  | documentStart
  | documentEnd
  | listStart
  | mapStart
  | blockEnd
  | openList
  | closeList
  | openMap
  | closeMap
  | separator
  | entry
  | key
  | value
  | alias (name : String)
  | anchor (name : String)
  | tag (tag : WrittenTag)
  | scalar (plain : Bool) (text : String)
  deriving DecidableEq, Repr

/-! ## Characters -/

/-- The line breaks of a text whose carriage returns have been replaced. -/
def isBreak (c : Char) : Bool :=
  c = '\n' || c = '\x85' || c = '\u2028' || c = '\u2029'

def isGap (c : Char) : Bool := c = ' ' || c = '\t'

/-- Whether a text is at its end, at a blank or at a line break. -/
def endsWord : List Char → Bool
  | [] => true
  | c :: _ => isGap c || isBreak c

def endsField : List Char → Bool
  | [] => true
  | c :: _ => c = ' ' || isBreak c

def endsLine : List Char → Bool
  | [] => true
  | c :: _ => isBreak c

def isSeparatorLine : List Char → Bool
  | '-' :: '-' :: '-' :: rest => endsWord rest
  | '.' :: '.' :: '.' :: rest => endsWord rest
  | _ => false

def isNameChar (c : Char) : Bool :=
  ('0' ≤ c && c ≤ '9') || ('a' ≤ c && c ≤ 'z') || ('A' ≤ c && c ≤ 'Z') || c = '-' || c = '_'

/-- A break as it counts in a scalar. -/
def breakText (c : Char) : Char := if c = '\x85' then '\n' else c

/-! ## Blanks within scalars -/

/-- The blanks and breaks that wait for more text of a scalar. -/
inductive Blanks where
  | none
  | line (blanks : List Char)
  /-- The first break, unless it was escaped, and the breaks after it. -/
  | breaks (first : Option Char) (others : List Char)
  deriving DecidableEq, Repr

namespace Blanks

def addGap (blanks : Blanks) (c : Char) : Blanks :=
  match blanks with
  | .none => .line [c]
  | .line cs => .line (cs ++ [c])
  | breaks first others => .breaks first others

def addBreak (blanks : Blanks) (c : Char) : Blanks :=
  match blanks with
  | breaks first others => .breaks first (others ++ [breakText c])
  | _ => .breaks (breakText c) []

/-- What stands for the blanks once more text follows: a single break is a space. -/
def text : Blanks → List Char
  | .none => []
  | .line cs => cs
  | breaks Option.none others => others
  | breaks (some first) others =>
      if first ≠ '\n' then first :: others
      else if others.isEmpty then [' ']
      else others

end Blanks

end FlatExports.Yaml
