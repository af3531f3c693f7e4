import FlatExports.Syntax.Lexeme

/-!
How far types and expressions reach.

What a type or an expression says decides nothing about the exports of a
module, so it is only measured: `typeExtent?` and `expressionExtent?` give the
number of lexemes it takes, or `none` if it is incomplete.  Both are automata
over lexemes, run by `extent?`; a move may take further lexemes that another
measure found, such as the type arguments of a call.
-/

namespace FlatExports.Syntax

/-- What a lexeme does to the construct that is being measured. -/
inductive Move (σ : Type) where
  /-- It belongs to the construct, with this many lexemes behind it. -/
  | take (more : Nat) (state : σ)
  | stop

/-- The number of lexemes an automaton takes; `skip` of them have been decided on. -/
def extent? {σ : Type} (move : σ → Lexeme → List Lexeme → Move σ) (complete : σ → Bool) :
    List Lexeme → Nat → σ → Option Nat
  | [], 0, state => if complete state then some 0 else none
  | [], _ + 1, _ => none
  | _ :: rest, skip + 1, state => (extent? move complete rest skip state).map (· + 1)
  | lexeme :: rest, 0, state =>
      match move state lexeme rest with
      | .take more next => (extent? move complete rest more next).map (· + 1)
      | .stop => if complete state then some 0 else none

/-- Words that open or continue a statement and stand for no value. -/
def statementWords : List String :=
  ["break", "case", "catch", "const", "continue", "debugger", "default", "do", "else", "enum",
   "export", "extends", "finally", "for", "if", "in", "instanceof", "return", "switch",
   "throw", "try", "var", "while", "with"]

def isStatementWord (lexeme : Lexeme) : Bool := statementWords.contains lexeme.wordText

def headIs (test : Lexeme → Bool) (lexemes : List Lexeme) : Bool :=
  (lexemes.head?.map test).getD false

/-! ## Types -/

inductive TypePhase where
  | operand
  | member
  | afterImport
  | parameters
  | done
  deriving DecidableEq, Repr

inductive AngleKind where
  | parameters
  | arguments
  deriving DecidableEq, Repr

structure TypeState where
  phase : TypePhase
  /-- The angle brackets that are open, innermost first. -/
  angles : List AngleKind
  /-- Conditional types whose question mark is still to come. -/
  tests : Nat
  /-- Conditional types whose colon is still to come. -/
  branches : Nat

namespace TypeState

def start : TypeState := ⟨.operand, [], 0, 0⟩

def inAngles (kind : AngleKind) : TypeState := ⟨.operand, [kind], 0, 0⟩

def isDone (state : TypeState) : Bool :=
  state.phase ≠ .operand && state.phase ≠ .member

def isComplete (state : TypeState) : Bool :=
  state.isDone && state.angles.isEmpty && state.branches = 0

def modifiers : List String :=
  ["keyof", "typeof", "new", "unique", "readonly", "infer", "abstract", "asserts"]

def parameterModifiers : List String := ["in", "out", "const"]

def startsOperand (lexeme : Lexeme) : Bool :=
  !lexeme.startsLine &&
    ((lexeme.isAnyWord && lexeme.wordText ≠ "is" && lexeme.wordText ≠ "extends") ||
      lexeme.isAnyString || lexeme.isRound || lexeme.isCurly || lexeme.isSquare ||
      lexeme.isMark "<")

def closeAngle (state : TypeState) : Option TypeState :=
  match state.angles with
  | [] => none
  | .parameters :: angles => some { state with phase := .operand, angles }
  | .arguments :: angles => some { state with phase := .done, angles }

def moveOrStop (state : Option TypeState) : Move TypeState :=
  match state with
  | some next => .take 0 next
  | none => .stop

def moveWord (state : TypeState) (lexeme : Lexeme) (rest : List Lexeme) : Move TypeState :=
  let word := lexeme.wordText
  if word = "import" then .take 0 { state with phase := .afterImport }
  else if modifiers.contains word ∧ headIs startsOperand rest then .take 0 state
  else if parameterModifiers.contains word ∧ ¬state.angles.isEmpty ∧
      headIs (·.isAnyWord) rest then .take 0 state
  else if isStatementWord lexeme ∧ word ≠ "const" then .stop
  else .take 0 { state with phase := .done }

def moveOperand (state : TypeState) (lexeme : Lexeme) (rest : List Lexeme) : Move TypeState :=
  match lexeme with
  | .token .word .. => moveWord state lexeme rest
  | .token .string .. | .token .number .. | .token .template .. =>
      .take 0 { state with phase := .done }
  | .token .mark "-" _ | .token .mark "|" _ | .token .mark "&" _ => .take 0 state
  | .token .mark "<" _ => .take 0 { state with angles := .parameters :: state.angles }
  | .token .mark ">" _ => moveOrStop state.closeAngle
  | .token .. => .stop
  | .group .round .. => .take 0 { state with phase := .parameters }
  | .group .. => .take 0 { state with phase := .done }

def moveDone (state : TypeState) (lexeme : Lexeme) : Move TypeState :=
  let operand : Move TypeState := .take 0 { state with phase := .operand }
  let inside := !state.angles.isEmpty
  match lexeme with
  | .token .word "extends" _ =>
      if lexeme.startsLine ∧ ¬inside then .stop
      else .take 0 { state with phase := .operand, tests := state.tests + 1 }
  | .token .word "is" _ => if lexeme.startsLine then .stop else operand
  | .token .mark "|" _ | .token .mark "&" _ => operand
  | .token .mark "." _ => .take 0 { state with phase := .member }
  | .token .mark "<" _ =>
      .take 0 { state with phase := .operand, angles := .arguments :: state.angles }
  | .token .mark ">" _ => moveOrStop state.closeAngle
  | .token .mark "," _ | .token .mark "=" _ => if inside then operand else .stop
  | .token .mark "=>" _ => if state.phase = .parameters then operand else .stop
  | .token .mark "?" _ =>
      if 0 < state.tests then
        .take 0 { state with
          phase := .operand, tests := state.tests - 1, branches := state.branches + 1 }
      else .stop
  | .token .mark ":" _ =>
      if 0 < state.branches then
        .take 0 { state with phase := .operand, branches := state.branches - 1 }
      else .stop
  | .group .square .. =>
      if lexeme.startsLine ∧ ¬inside then .stop else .take 0 { state with phase := .done }
  | .group .round .. =>
      if state.phase = .afterImport then .take 0 { state with phase := .done } else .stop
  | _ => .stop

def move (state : TypeState) (lexeme : Lexeme) (rest : List Lexeme) : Move TypeState :=
  match state.phase with
  | .operand => moveOperand state lexeme rest
  | .member =>
      if lexeme.isAnyWord then .take 0 { state with phase := .done } else .stop
  | _ => moveDone state lexeme

/-- As `move`, but nothing follows the bracket that closes the outermost angles. -/
def moveInAngles (state : TypeState) (lexeme : Lexeme) (rest : List Lexeme) :
    Move TypeState :=
  if state.angles.isEmpty then .stop else state.move lexeme rest

/-- As `move`, but an arrow outside of angle brackets is no part of the type. -/
def moveBeforeArrow (state : TypeState) (lexeme : Lexeme) (rest : List Lexeme) :
    Move TypeState :=
  if state.angles.isEmpty ∧ lexeme.isMark "=>" then .stop else state.move lexeme rest

end TypeState

def typeExtent? (lexemes : List Lexeme) : Option Nat :=
  extent? TypeState.move TypeState.isComplete lexemes 0 .start

/--
The extent of the result type of an arrow function, which the arrow follows.
In `(A) => b` the type may be a function or the name in brackets.
-/
def resultExtent? (lexemes : List Lexeme) : Option Nat :=
  let beforeArrow (length : Nat) : Bool := headIs (·.isMark "=>") (lexemes.drop length)
  ((typeExtent? lexemes).filter beforeArrow).or
    ((extent? TypeState.moveBeforeArrow TypeState.isComplete lexemes 0 .start).filter beforeArrow)

def anglesExtent? (lexemes : List Lexeme) : Option Nat :=
  match lexemes with
  | first :: rest =>
      if first.isMark "<" then
        (extent? TypeState.moveInAngles (·.angles.isEmpty) rest 0
          (.inAngles .arguments)).map (· + 1)
      else none
  | [] => none

def optionalAngles? (lexemes : List Lexeme) : Option Nat :=
  if headIs (·.isMark "<") lexemes then anglesExtent? lexemes else some 0

def annotation? (lexemes : List Lexeme) : Option Nat :=
  match lexemes with
  | first :: rest =>
      if first.isMark ":" then (typeExtent? rest).map (· + 1) else some 0
  | [] => some 0

/-! ## Functions and classes -/

structure FunctionShape where
  isGenerator : Bool
  name : Option Lexeme
  hasBody : Bool
  length : Nat

def functionShape? (lexemes : List Lexeme) : Option FunctionShape := do
  let isGenerator := headIs (·.isMark "*") lexemes
  let starLength := if isGenerator then 1 else 0
  let afterStar := lexemes.drop starLength
  let name := afterStar.head?.filter (·.isAnyWord)
  let nameLength := if name.isSome then 1 else 0
  let afterName := afterStar.drop nameLength
  let angles ← optionalAngles? afterName
  let atParameters := afterName.drop angles
  guard (headIs (·.isRound) atParameters)
  let afterParameters := atParameters.drop 1
  let result ← annotation? afterParameters
  let hasBody := headIs (·.isCurly) (afterParameters.drop result)
  let bodyLength := if hasBody then 1 else 0
  return ⟨isGenerator, name, hasBody, starLength + nameLength + angles + 1 + result + bodyLength⟩

def headerMarks : List String :=
  ["<", ">", ",", ".", "?.", "...", "|", "&", "?", "=", ":", "=>", "-"]

def isHeaderPart (afterDot : Bool) (lexeme : Lexeme) : Bool :=
  match lexeme with
  | .group .. => true
  | .token .mark text _ => headerMarks.contains text
  | .token .word text _ => afterDot || text = "extends" || !statementWords.contains text
  | .token .string .. | .token .template .. | .token .number .. => true
  | .token .. => false

/--
The number of lexemes up to and with the first braces outside of `angles` open
angle brackets, in front of which only names, types and calls stand.
-/
def bodyExtent? (angles : Nat) (afterDot : Bool) : List Lexeme → Option Nat
  | [] => none
  | lexeme :: rest =>
      if lexeme.isCurly ∧ angles = 0 then some 1
      else if isHeaderPart afterDot lexeme then
        let inside :=
          if lexeme.isMark "<" then angles + 1
          else if lexeme.isMark ">" then angles - 1
          else angles
        (bodyExtent? inside (lexeme.isMark ".") rest).map (· + 1)
      else none

structure ClassShape where
  name : Option Lexeme
  length : Nat

def isHeritageWord (lexeme : Lexeme) : Bool :=
  lexeme.isWord "extends" || lexeme.isWord "implements"

def classShape? (lexemes : List Lexeme) : Option ClassShape := do
  let name := lexemes.head?.filter fun first => first.isAnyWord && !isHeritageWord first
  let length ← bodyExtent? 0 false lexemes
  return ⟨name, length⟩

/-- The extent of `@`, a name or an expression in brackets, and its arguments. -/
def decoratorNameExtent : List Lexeme → Nat
  | dot :: name :: rest =>
      if dot.isMark "." ∧ name.isAnyWord then decoratorNameExtent rest + 2 else 0
  | _ => 0

def decoratorExtent? (lexemes : List Lexeme) : Option Nat :=
  match lexemes with
  | first :: rest => do
      guard (first.isMark "@")
      let name ←
        if headIs (·.isAnyWord) rest then some (1 + decoratorNameExtent (rest.drop 1))
        else if headIs (·.isRound) rest then some 1
        else none
      let angles ← optionalAngles? (rest.drop name)
      let called := headIs (·.isRound) (rest.drop (name + angles))
      return 1 + name + angles + (if called then 1 else 0)
  | [] => none

/-! ## Expressions -/

inductive ExpressionPhase where
  | operand
  | member
  | done
  deriving DecidableEq, Repr

structure ExpressionState where
  phase : ExpressionPhase
  /-- Conditionals whose colon is still to come. -/
  branches : Nat
  last : Option Lexeme

namespace ExpressionState

def start : ExpressionState := ⟨.operand, 0, none⟩

def isComplete (state : ExpressionState) : Bool :=
  state.phase = .done && state.branches = 0

def lastIs (state : ExpressionState) (test : Lexeme → Bool) : Bool :=
  (state.last.map test).getD false

def operators : List String := ["new", "delete", "void", "typeof"]

/-- Words that stand before an operand or for themselves. -/
def optionalOperators : List String := ["await", "yield"]

def prefixMarks : List String := ["!", "~", "+", "-", "++", "--"]

def binaryMarks : List String :=
  ["=", "+=", "-=", "*=", "/=", "%=", "**=", "&&=", "||=", "??=", "&=", "|=", "^=",
   "==", "===", "!=", "!==", "+", "-", "*", "/", "%", "**", "&", "|", "^", "&&", "||", "??",
   ">"]

def startsOperand (lexeme : Lexeme) : Bool :=
  match lexeme with
  | .token .word text _ => text ≠ "as" && text ≠ "satisfies" && !isStatementWord lexeme
  | .token .mark text _ => prefixMarks.contains text && !lexeme.startsLine
  | .token .finish .. => false
  | _ => true

/-- The state behind this lexeme. -/
def moved (state : ExpressionState) (phase : ExpressionPhase) (lexeme : Lexeme) (more : Nat) :
    Move ExpressionState :=
  .take more { state with phase, last := some lexeme }

def movedOrStop (state : ExpressionState) (phase : ExpressionPhase) (lexeme : Lexeme)
    (more : Option Nat) : Move ExpressionState :=
  match more with
  | some more => state.moved phase lexeme more
  | none => .stop

def continuesAsync (rest : List Lexeme) : Bool :=
  match rest with
  | word :: after =>
      word.isAnyWord && !word.startsLine &&
        (word.isWord "function" || headIs (·.isMark "=>") after)
  | [] => false

def moveWord (state : ExpressionState) (lexeme : Lexeme) (rest : List Lexeme) :
    Move ExpressionState :=
  match lexeme.wordText with
  | "function" =>
      state.movedOrStop .done lexeme
        ((functionShape? rest).bind fun shape => if shape.hasBody then some shape.length else none)
  | "class" => state.movedOrStop .done lexeme ((classShape? rest).map (·.length))
  | "async" =>
      if continuesAsync rest then state.moved .operand lexeme 0 else state.moved .done lexeme 0
  | word =>
      if operators.contains word then
        if headIs (·.isMark ".") rest then state.moved .done lexeme 0
        else state.moved .operand lexeme 0
      else if optionalOperators.contains word then
        if headIs startsOperand rest then state.moved .operand lexeme 0
        else state.moved .done lexeme 0
      else if isStatementWord lexeme then .stop
      else state.moved .done lexeme 0

def moveOperand (state : ExpressionState) (lexeme : Lexeme) (rest : List Lexeme) :
    Move ExpressionState :=
  match lexeme with
  | .group .. => state.moved .done lexeme 0
  | .token .word .. => moveWord state lexeme rest
  | .token .finish .. => .stop
  | .token .mark "@" _ =>
      state.movedOrStop .operand lexeme ((decoratorExtent? (lexeme :: rest)).map (· - 1))
  | .token .mark text _ =>
      if prefixMarks.contains text then state.moved .operand lexeme 0
      else if state.lastIs (fun last =>
          (last.isMark "<" || last.isMark ">") && last.touches lexeme) then
        if text = "<" ∨ text = ">" ∨ text = "=" then state.moved .operand lexeme 0 else .stop
      else if text = "<" then
        state.movedOrStop .operand lexeme ((anglesExtent? (lexeme :: rest)).map (· - 1))
      else .stop
  | .token .. => state.moved .done lexeme 0

/-- Whether angle brackets in front of these lexemes hold type arguments. -/
def followsTypeArguments (rest : List Lexeme) : Bool :=
  match rest with
  | [] => true
  | lexeme :: _ =>
      lexeme.isRound || lexeme.isKind .template || lexeme.startsLine || !startsOperand lexeme

def moveAngle (state : ExpressionState) (lexeme : Lexeme) (rest : List Lexeme) :
    Move ExpressionState :=
  match anglesExtent? (lexeme :: rest) with
  | some length =>
      if followsTypeArguments (rest.drop (length - 1)) then state.moved .done lexeme (length - 1)
      else state.moved .operand lexeme 0
  | none => state.moved .operand lexeme 0

/-- The colons up to the end of an expression that no question mark there asks for. -/
def freeColons (afterMark : Bool) : List Lexeme → Int
  | [] => 0
  | lexeme :: rest =>
      if lexeme.isMark ";" ∨ lexeme.isMark "," ∨
          (lexeme.isAnyWord ∧ lexeme.startsLine ∧ ¬afterMark) then 0
      else
        let others := freeColons (lexeme.isKind .mark) rest
        if lexeme.isMark ":" then others + 1
        else if lexeme.isMark "?" then others - 1
        else others

/--
The colon of a conditional, or of the result type of a function.  Inside a
conditional it is the second only if enough colons are left for the first.
-/
def moveColon (state : ExpressionState) (lexeme : Lexeme) (rest : List Lexeme) :
    Move ExpressionState :=
  let result? := if state.lastIs (·.isRound) then resultExtent? rest else none
  let other : Move ExpressionState :=
    if 0 < state.branches then
      .take 0 { phase := .operand, branches := state.branches - 1, last := some lexeme }
    else .stop
  match result? with
  | some length =>
      if state.branches = 0 ∨ state.branches ≤ freeColons true (rest.drop (length + 1)) then
        state.moved .done lexeme length
      else other
  | none => other

def moveDone (comma : Bool) (state : ExpressionState) (lexeme : Lexeme) (rest : List Lexeme) :
    Move ExpressionState :=
  match lexeme with
  | .group .curly .. => .stop
  | .group .. => state.moved .done lexeme 0
  | .token .template .. => state.moved .done lexeme 0
  | .token .word "in" _ | .token .word "instanceof" _ => state.moved .operand lexeme 0
  | .token .word "as" _ | .token .word "satisfies" _ =>
      if lexeme.startsLine then .stop
      else state.movedOrStop .done lexeme (typeExtent? rest)
  | .token .mark "." _ | .token .mark "?." _ => state.moved .member lexeme 0
  | .token .mark "++" _ | .token .mark "--" _ | .token .mark "!" _ =>
      if lexeme.startsLine then .stop else state.moved .done lexeme 0
  | .token .mark "=>" _ =>
      if headIs (·.isCurly) rest then state.moved .done lexeme 1 else state.moved .operand lexeme 0
  | .token .mark "<" _ => moveAngle state lexeme rest
  | .token .mark "?" _ =>
      .take 0 { phase := .operand, branches := state.branches + 1, last := some lexeme }
  | .token .mark ":" _ => moveColon state lexeme rest
  | .token .mark "," _ => if comma then state.moved .operand lexeme 0 else .stop
  | .token .mark text _ =>
      if binaryMarks.contains text then state.moved .operand lexeme 0 else .stop
  | .token .. => .stop

def moveMember (state : ExpressionState) (lexeme : Lexeme) : Move ExpressionState :=
  match lexeme with
  | .token .word .. => state.moved .done lexeme 0
  | .token .template .. | .group .round .. | .group .square .. =>
      if state.lastIs (·.isMark "?.") then state.moved .done lexeme 0 else .stop
  | _ => .stop

def move (comma : Bool) (state : ExpressionState) (lexeme : Lexeme) (rest : List Lexeme) :
    Move ExpressionState :=
  match state.phase with
  | .operand => moveOperand state lexeme rest
  | .member => moveMember state lexeme
  | .done => moveDone comma state lexeme rest

end ExpressionState

/-- The extent of an expression; with `comma` it may be a sequence of several. -/
def expressionExtent? (comma : Bool) (lexemes : List Lexeme) : Option Nat :=
  extent? (ExpressionState.move comma) ExpressionState.isComplete lexemes 0 .start

/-! ## Ends of statements -/

/-- Whether no semicolon may be left out in front of this lexeme. -/
def isContinuation (lexeme : Lexeme) : Bool :=
  match lexeme with
  | .token .template .. | .token .regex .. | .token .markup .. => true
  | .token .word text _ => text = "in" || text = "instanceof"
  | .token .mark text _ =>
      match text with
      | "++" | "--" | "!" | "~" | "@" => false
      | _ => true
  | _ => false

structure Terminator where
  /-- One for a semicolon and zero for an omitted one. -/
  length : Nat
  stop : Nat

def terminator? (lexemes : List Lexeme) : Option Terminator := do
  let first ← lexemes.head?
  if first.isMark ";" then return ⟨1, first.stop⟩
  else
    let gap ← first.place.gap
    if isContinuation first then none else return ⟨0, gap⟩

end FlatExports.Syntax
