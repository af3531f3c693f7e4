import FlatExports.Syntax.Extent
import FlatExports.Syntax.Node

/-!
The nodes of destructuring patterns.

`pattern?` reads what a declarator binds: a name, an object pattern or an array
pattern.  The parts between the brackets of a pattern are read by an automaton
that goes over them once; default values are only measured.
-/

namespace FlatExports.Syntax

def Lexeme.asName (lexeme : Lexeme) : Node :=
  .made .identifier lexeme.start lexeme.stop []

def Lexeme.asString (lexeme : Lexeme) : Node :=
  .made .string lexeme.start lexeme.stop []

inductive PatternPhase where
  | entry
  | key (word : Lexeme)
  | value
  | bound (node : Node)
  | spread
  | ended

namespace PatternPhase

def shorthand (word : Lexeme) : Node := .made .shorthandPattern word.start word.stop []

/-- A property of an object pattern, or an element of an array pattern. -/
def part (inObject : Bool) (node : Node) : Node :=
  if inObject then .made .pairPattern node.start node.stop [node.heldAs "value"] else node

def withDefault (kind : Kind) (left : Node) : Node :=
  .made kind left.start left.stop [left.heldAs "left"]

/-- The node that is complete if the part ends here, or `none` if it cannot. -/
def finish? (inObject : Bool) : PatternPhase → Option (List Node)
  | .entry | .ended => some []
  | .key word => if word.isAnyWord then some [shorthand word] else none
  | .bound node => some [part inObject node]
  | .value | .spread => none

def isKey (lexeme : Lexeme) : Bool :=
  lexeme.isAnyWord || lexeme.isAnyString || lexeme.isKind .number || lexeme.isSquare

/-- What a lexeme other than a pattern does, with the number of lexemes behind it. -/
def mark? (inObject : Bool) (phase : PatternPhase) (lexeme : Lexeme) (rest : List Lexeme) :
    Option (List Node × PatternPhase × Nat) :=
  if lexeme.isMark "," then do
    let nodes ← phase.finish? inObject
    return (nodes, .entry, 0)
  else if lexeme.isMark "=" then do
    let length ← expressionExtent? false rest
    match phase with
    | .key word =>
        guard word.isAnyWord
        return ([withDefault .objectAssignmentPattern (shorthand word)], .ended, length)
    | .bound node =>
        return ([part inObject (withDefault .assignmentPattern node)], .ended, length)
    | _ => none
  else
    match phase with
    | .entry =>
        if lexeme.isMark "..." then some ([], .spread, 0)
        else if inObject ∧ isKey lexeme then some ([], .key lexeme, 0)
        else none
    | .key _ => if lexeme.isMark ":" then some ([], .value, 0) else none
    | _ => none

/-- Whether the phase is followed by a pattern. -/
def wantsPattern (inObject : Bool) : PatternPhase → Bool
  | .entry => !inObject
  | .value | .spread => true
  | _ => false

/-- The part and the phase behind a pattern. -/
def takePattern (phase : PatternPhase) (node : Node) : List Node × PatternPhase :=
  match phase with
  | .spread => ([.made .restPattern node.start node.stop [node]], .ended)
  | _ => ([], .bound node)

end PatternPhase

mutual

def pattern? : Lexeme → Option Node
  | .token kind _ place =>
      if kind = .word then some (.made .identifier place.start place.stop []) else none
  | .group bracket content place =>
      match bracket with
      | .curly => do
          let parts ← patternParts? true content 0 .entry
          return .made .objectPattern place.start place.stop parts
      | .square => do
          let parts ← patternParts? false content 0 .entry
          return .made .arrayPattern place.start place.stop parts
      | .round => none

def patternParts? (inObject : Bool) :
    List Lexeme → Nat → PatternPhase → Option (List Node)
  | [], _, phase => phase.finish? inObject
  | _ :: rest, skip + 1, phase => patternParts? inObject rest skip phase
  | lexeme :: rest, 0, phase =>
      match if phase.wantsPattern inObject then pattern? lexeme else none with
      | some node => do
          let (nodes, next) := phase.takePattern node
          let others ← patternParts? inObject rest 0 next
          return nodes ++ others
      | none => do
          let (nodes, next, skip) ← phase.mark? inObject lexeme rest
          let others ← patternParts? inObject rest skip next
          return nodes ++ others

end

end FlatExports.Syntax
