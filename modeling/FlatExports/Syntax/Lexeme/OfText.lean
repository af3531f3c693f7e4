import FlatExports.Syntax.Lexeme
import FlatExports.Syntax.Lexeme.Spelling

/-!
Reading a source into lexemes.

The reader goes over the characters once and keeps a stack of *frames*, one for
each bracket, template or markup element that is open.  A step looks at the
characters ahead, takes one token and tells how many more characters belong to
it.  Whether a slash starts a regular expression and whether an angle bracket
starts markup is decided by the lexeme before it.
-/

namespace FlatExports.Syntax

/-- What is open around the place that is read. -/
inductive Mode where
  | program
  | brackets (bracket : Bracket)
  | template
  /-- Between `$`, `{` and `}` of a template. -/
  | substitution
  /-- Inside the opening tag of a markup element. -/
  | tag
  /-- Between the opening and the closing tag. -/
  | children
  /-- Between braces in markup. -/
  | container
  deriving DecidableEq, Repr

structure Frame where
  mode : Mode
  start : Nat
  gap : Option Nat
  before : List Lexeme

structure Reading where
  frame : Frame
  outer : List Frame
  /-- Where the last lexeme or comment ends. -/
  lastStop : Nat
  gap : Option Nat

namespace Reading

def start : Reading := ⟨⟨.program, 0, none, []⟩, [], 0, none⟩

def inCode (reading : Reading) : Bool :=
  match reading.frame.mode with
  | .template | .tag | .children => false
  | _ => true

def enter (reading : Reading) (mode : Mode) (start stop : Nat) : Reading :=
  ⟨⟨mode, start, reading.gap, []⟩, reading.frame :: reading.outer, stop, none⟩

def add (reading : Reading) (lexeme : Lexeme) : Reading :=
  { reading with
    frame := { reading.frame with before := lexeme :: reading.frame.before }
    lastStop := lexeme.stop
    gap := none }

/-- Leaves the innermost frame without a trace. -/
def leave (reading : Reading) (stop : Nat) : Option Reading :=
  match reading.outer with
  | [] => none
  | frame :: outer => some ⟨frame, outer, stop, none⟩

/-- Leaves the innermost frame; in code it becomes a lexeme. -/
def close (reading : Reading) (stop : Nat) (lexeme : Place → Lexeme) : Option Reading := do
  let left ← reading.leave stop
  let place := ⟨reading.frame.start, stop, reading.frame.gap⟩
  return if left.inCode then left.add (lexeme place) else left

def closeGroup (reading : Reading) (bracket : Bracket) (stop : Nat) : Option Reading :=
  reading.close stop fun place => .group bracket reading.frame.before.reverse place

def closeToken (reading : Reading) (kind : TokenKind) (stop : Nat) : Option Reading :=
  reading.close stop fun place => .token kind "" place

def setMode (reading : Reading) (mode : Mode) : Reading :=
  { reading with frame := { reading.frame with mode } }

/-! ## What the lexeme before decides -/

def operandWords : List String :=
  ["return", "typeof", "instanceof", "in", "of", "new", "delete", "void", "throw", "case",
   "do", "else", "yield", "await", "default", "extends"]

def controlWords : List String := ["if", "while", "for", "with", "await"]

def objectMarks : List String := ["=", ",", "+", "-", "*", "?", "&&", "||", "??"]

/-- Whether an operand is expected, so that no binary operator can stand here. -/
def wantsOperand (before : List Lexeme) : Bool :=
  match before with
  | [] => true
  | .token .word text _ :: earlier =>
      operandWords.contains text && !(earlier.head?.map (·.isMark ".")).getD false
  | .token .mark text _ :: earlier =>
      match text with
      | "++" | "--" => false
      | "!" => wantsOperand earlier
      | _ => true
  | .token .. :: _ => false
  | .group .round _ _ :: earlier =>
      (earlier.head?.map fun word => controlWords.contains word.wordText).getD false
  | .group .square _ _ :: _ => false
  | .group .curly _ _ :: earlier =>
      !(earlier.head?.map fun mark => objectMarks.contains mark.markText).getD false

def skipBlanks (text : List Char) : List Char := text.dropWhile isBlankChar

def contains (part : List Char) : List Char → Bool
  | [] => part.isEmpty
  | c :: rest => part.isPrefixOf (c :: rest) || contains part rest

def isTagChar (c : Char) : Bool :=
  isWordChar c || c = '.' || c = '-' || c = ':'

/--
Whether an angle bracket before an operand starts markup, and not the type
parameters of a function.
-/
def startsMarkup (rest : List Char) : Bool :=
  let name := rest.takeWhile isTagChar
  let after := skipBlanks (rest.drop name.length)
  if name.isEmpty then rest.head? = some '>'
  else if name = "const".toList then false
  else match after with
    | '>' :: tail =>
        (skipBlanks tail).head? ≠ some '(' || contains ('<' :: '/' :: name) tail
    | ',' :: _ => false
    | '=' :: _ => false
    | _ => !("extends".toList.isPrefixOf after && !((after.drop 7).head?.map isTagChar).getD false)

/-! ## Steps -/

abbrev Step := Option (Reading × Nat)

def takeToken (reading : Reading) (kind : TokenKind) (text : List Char) (offset length : Nat) :
    Step :=
  let taken := text.take length
  let spelled := if kind = .word ∨ kind = .mark then String.ofList taken else ""
  some (reading.add (.token kind spelled ⟨offset, offset + width taken, reading.gap⟩),
    length - 1)

/-- Passes over a comment; a gap that is already open stays where it is. -/
def passComment (reading : Reading) (stop : Nat) : Reading :=
  { reading with lastStop := stop }

def passBlank (reading : Reading) (c : Char) : Reading :=
  if isLineEnd c ∧ reading.gap = none then { reading with gap := some reading.lastStop }
  else reading

def openBracket? (c : Char) : Option Bracket :=
  match c with
  | '(' => some .round
  | '[' => some .square
  | '\x7b' => some .curly
  | _ => none

def closeBracket? (c : Char) : Option Bracket :=
  match c with
  | ')' => some .round
  | ']' => some .square
  | '\x7d' => some .curly
  | _ => none

def closeCode (reading : Reading) (bracket : Bracket) (stop : Nat) : Option Reading :=
  match reading.frame.mode with
  | .brackets opened => if opened = bracket then reading.closeGroup bracket stop else none
  | .substitution | .container => if bracket = .curly then reading.leave stop else none
  | _ => none

def stepSlash (reading : Reading) (offset : Nat) (rest : List Char) : Step :=
  if wantsOperand reading.frame.before then do
    let length ← regex? rest
    takeToken reading .regex ('/' :: rest) offset (length + 1)
  else if rest.head? = some '>' then none
  else takeToken reading .mark ('/' :: rest) offset (markAt ('/' :: rest)).length

def stepCode (markup : Bool) (reading : Reading) (offset : Nat) (c : Char) (rest : List Char) :
    Step :=
  let text := c :: rest
  let next := offset + c.utf8Size
  if isBlankChar c then some (reading.passBlank c, 0)
  else match commentAt text with
  | .unclosed => none
  | .length n => some (reading.passComment (offset + width (text.take n)), n - 1)
  | .absent =>
      if let some bracket := openBracket? c then
        some (reading.enter (.brackets bracket) offset next, 0)
      else if let some bracket := closeBracket? c then do
        let closed ← closeCode reading bracket next
        some (closed, 0)
      else if c = '\'' ∨ c = '"' then do
        let length ← stringRest? c 0 rest
        takeToken reading .string text offset (length + 1)
      else if c = '`' then some (reading.enter .template offset next, 0)
      else if isWordStart c ∨ (c = '\\' ∧ 0 < wordLength 0 text) then
        takeToken reading .word text offset (wordLength 0 text)
      else if c = '#' ∧ 0 < wordLength 0 rest then
        takeToken reading .word text offset (wordLength 0 rest + 1)
      else if c.isDigit ∨ (c = '.' ∧ (rest.head?.map Char.isDigit).getD false) then
        takeToken reading .number text offset (numberLength text)
      else if c = '/' then stepSlash reading offset rest
      else if c = '<' ∧ markup ∧ wantsOperand reading.frame.before ∧ startsMarkup rest then
        some (reading.enter .tag offset next, 0)
      else if markChars.contains c ∧ c ≠ '\\' ∧ c ≠ '#' then
        takeToken reading .mark text offset (markAt text).length
      else none

def stepTemplate (reading : Reading) (offset : Nat) (text : List Char) : Step := do
  let (length, ended) ← templatePiece? 0 text
  let stop := offset + width (text.take length)
  match ended with
  | .closed =>
      let closed ← reading.closeToken .template stop
      return (closed, length - 1)
  | .substitution => return (reading.enter .substitution offset stop, length - 1)

def attributeRest? (mark : Char) (rest : List Char) : Option Nat :=
  let length := lengthWhile (· ≠ mark) rest
  if length < rest.length then some (length + 1) else none

def anglesRest? : Nat → List Char → Option Nat
  | _, [] => none
  | depth, c :: rest =>
      if c = '>' then
        match depth with
        | 0 => some 1
        | depth + 1 => (anglesRest? depth rest).map (· + 1)
      else (anglesRest? (if c = '<' then depth + 1 else depth) rest).map (· + 1)

def stepTag (reading : Reading) (offset : Nat) (c : Char) (rest : List Char) : Step :=
  let text := c :: rest
  let next := offset + c.utf8Size
  match commentAt text with
  | .unclosed => none
  | .length n => some (reading, n - 1)
  | .absent =>
      if isBlankChar c ∨ isTagChar c then some (reading, 0)
      else if c = '>' then some (reading.setMode .children, 0)
      else if c = '/' ∧ rest.head? = some '>' then do
        let closed ← reading.closeToken .markup (next + 1)
        return (closed, 1)
      else if c = '\x7b' then some (reading.enter .container offset next, 0)
      else if c = '\'' ∨ c = '"' then do
        let length ← attributeRest? c rest
        return (reading, length)
      else if c = '=' then
        let blanks := lengthWhile isBlankChar rest
        let value := rest.drop blanks
        if value.head? = some '<' then
          let start := next + width (rest.take blanks)
          some (reading.enter .tag start (start + 1), blanks + 1)
        else some (reading, 0)
      else if c = '<' then do
        let length ← anglesRest? 0 rest
        return (reading, length)
      else none

/-- A closing tag, or the opening tag of an element within. -/
def stepChildTag (reading : Reading) (offset : Nat) (rest : List Char) : Step :=
  let blanks := lengthWhile isBlankChar rest
  if (rest.drop blanks).head? = some '/' then do
    let length := lengthWhile (· ≠ '>') rest
    if length < rest.length then
      let stop := offset + 1 + width (rest.take (length + 1))
      let closed ← reading.closeToken .markup stop
      return (closed, length + 1)
    else none
  else some (reading.enter .tag offset (offset + 1), 0)

def stepChildren (reading : Reading) (offset : Nat) (c : Char) (rest : List Char) : Step :=
  if c = '\x7b' then some (reading.enter .container offset (offset + 1), 0)
  else if c = '<' then stepChildTag reading offset rest
  else if c = '>' ∨ c = '\x7d' then none
  else some (reading, 0)

def step (markup : Bool) (reading : Reading) (offset : Nat) (c : Char) (rest : List Char) :
    Step :=
  match reading.frame.mode with
  | .template => stepTemplate reading offset (c :: rest)
  | .tag => stepTag reading offset c rest
  | .children => stepChildren reading offset c rest
  | _ => stepCode markup reading offset c rest

/-- Reads on, after `skip` characters of the token that was taken last. -/
def run (markup : Bool) : List Char → Nat → Nat → Reading → Option (Reading × Nat)
  | [], offset, _, reading => some (reading, offset)
  | c :: rest, offset, skip + 1, reading => run markup rest (offset + c.utf8Size) skip reading
  | c :: rest, offset, 0, reading => do
      let (reading, skip) ← step markup reading offset c rest
      run markup rest (offset + c.utf8Size) skip reading

def finish (reading : Reading) (offset : Nat) : Option (List Lexeme) :=
  if reading.frame.mode = .program then
    let place := ⟨offset, offset, some (reading.gap.getD reading.lastStop)⟩
    some (Lexeme.token .finish "" place :: reading.frame.before).reverse
  else none

end Reading

/-- The length of a first line that names an interpreter, behind a byte order mark. -/
def interpreterLine (text : List Char) : Nat :=
  let mark := lengthWhile (fun c => c.toNat = 0xFEFF) text
  match text.drop mark with
  | '#' :: '!' :: rest => mark + 2 + lengthWhile (fun c => !isLineEnd c) rest
  | _ => 0

/-- The lexemes of a source, closed by a `finish`, or `none` if it has none. -/
def lexemes? (markup : Bool) (text : List Char) : Option (List Lexeme) := do
  let (reading, offset) ← Reading.run markup text 0 (interpreterLine text) .start
  reading.finish offset

end FlatExports.Syntax
