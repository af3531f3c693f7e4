import FlatExports.Syntax.Node.Declaration

/-!
The node of a whole module.

Imports and exports are read in full, and of other statements only the
declarations they make at the top of the module.  `program?` answers `none` if
some lexemes form no statement.
-/

namespace FlatExports.Syntax

/-! ## Names, clauses and sources -/

def Lexeme.isName (lexeme : Lexeme) : Bool := lexeme.isAnyWord || lexeme.isAnyString

def Lexeme.nameNode (lexeme : Lexeme) : Node :=
  if lexeme.isAnyString then lexeme.asString else lexeme.asName

def Lexeme.markNode (kind : Kind) (lexeme : Lexeme) : Node :=
  .mark kind lexeme.start lexeme.stop

def isModifier (lexeme : Lexeme) : Bool := lexeme.isWord "type" || lexeme.isWord "typeof"

def modifierNode (lexeme : Lexeme) : Node :=
  lexeme.markNode (if lexeme.isWord "type" then .typeWord else .typeofWord)

def commaParts : List Lexeme → List (List Lexeme)
  | [] => [[]]
  | lexeme :: rest =>
      if lexeme.isMark "," then [] :: commaParts rest
      else match commaParts rest with
        | [] => [[lexeme]]
        | part :: parts => (lexeme :: part) :: parts

/-- The specifiers between braces; a comma may stand behind the last. -/
def specifiers? (specifier? : List Lexeme → Option Node) (content : List Lexeme) :
    Option (List Node) :=
  let parts := commaParts content
  let parts := if (parts.getLast?.map List.isEmpty).getD false then parts.dropLast else parts
  parts.mapM specifier?

def specifierNode (kind : Kind) (parts : List Lexeme) (children : List Node) : Node :=
  .made kind (startOf parts) (stopAfter parts parts.length) children

def heldName (lexeme : Lexeme) : Node := lexeme.nameNode.heldAs "name"

def heldAlias (lexeme : Lexeme) : Node := lexeme.nameNode.heldAs "alias"

def exportSpecifier? (parts : List Lexeme) : Option Node :=
  match parts with
  | [name] => do
      guard (name.isName && !isModifier name)
      return specifierNode .exportSpecifier parts [heldName name]
  | [modifier, name] => do
      guard (isModifier modifier && name.isName)
      return specifierNode .exportSpecifier parts [modifierNode modifier, heldName name]
  | [name, word, renamed] => do
      guard (name.isName && !isModifier name && word.isWord "as" && renamed.isName)
      return specifierNode .exportSpecifier parts
        [heldName name, word.markNode .asWord, heldAlias renamed]
  | [modifier, name, word, renamed] => do
      guard (isModifier modifier && name.isName && word.isWord "as" && renamed.isName)
      return specifierNode .exportSpecifier parts
        [modifierNode modifier, heldName name, word.markNode .asWord, heldAlias renamed]
  | _ => none

/-- A specifier of an import binds an identifier, so a default needs an alias. -/
def importSpecifier? (parts : List Lexeme) : Option Node :=
  let isBinding (lexeme : Lexeme) : Bool := lexeme.isAnyWord && !lexeme.isWord "default"
  match parts with
  | [name] => do
      guard (isBinding name && !isModifier name)
      return specifierNode .importSpecifier parts [heldName name]
  | [modifier, name] => do
      guard (isModifier modifier && isBinding name)
      return specifierNode .importSpecifier parts [modifierNode modifier, heldName name]
  | [name, word, renamed] => do
      guard (name.isName && !name.isWord "typeof" && word.isWord "as" && isBinding renamed)
      return specifierNode .importSpecifier parts
        [heldName name, word.markNode .asWord, heldAlias renamed]
  | [modifier, name, word, renamed] => do
      guard (isModifier modifier && name.isName && word.isWord "as" && isBinding renamed)
      return specifierNode .importSpecifier parts
        [modifierNode modifier, heldName name, word.markNode .asWord, heldAlias renamed]
  | _ => none

def bracedNode? (kind : Kind) (specifier? : List Lexeme → Option Node) (lexeme : Lexeme) :
    Option Node :=
  match lexeme with
  | .group .curly content place => do
      let specifiers ← specifiers? specifier? content
      return .made kind place.start place.stop specifiers
  | _ => none

/-- The end of a statement: nodes, the lexemes they take and the last byte. -/
structure Ending where
  nodes : List Node
  length : Nat
  stop : Nat

def justEnd? (lexemes : List Lexeme) : Option Ending := do
  let ended ← terminator? lexemes
  return ⟨[], ended.length, ended.stop⟩

/-- `from` and a string.  Only an import may go on to its attributes. -/
def sourceEnd? (attributes : Bool) (lexemes : List Lexeme) : Option Ending :=
  match lexemes with
  | word :: source :: rest => do
      guard (word.isWord "from" && source.isAnyString)
      let hasAttributes := attributes && headIs (fun l => l.isWord "with" || l.isWord "assert") rest
        && headIs (·.isCurly) (rest.drop 1)
      let more := if hasAttributes then 2 else 0
      let ended ← terminator? (rest.drop more)
      return ⟨[source.asString.heldAs "source"], 2 + more + ended.length, ended.stop⟩
  | _ => none

/-- A source, or the end of the statement without one. -/
def optionalSourceEnd? (lexemes : List Lexeme) : Option Ending :=
  if headIs (fun l => l.isWord "from" && !l.startsLine) lexemes then sourceEnd? false lexemes
  else justEnd? lexemes

/-! ## Exports -/

/-- An export statement of `length` lexemes behind its keyword, before its ending. -/
def exported (start : Nat) (children : List Node) (length : Nat) (ending : Ending) : Found :=
  ⟨.made .exportStatement start ending.stop (children ++ ending.nodes),
    1 + length + ending.length⟩

def exportedDeclaration (start : Nat) (before : List Node) (found : Found) : Found :=
  ⟨.made .exportStatement start found.node.stop (before ++ [found.node.heldAs "declaration"]),
    1 + before.length + found.length⟩

def exportDefault? (start : Nat) (word : Lexeme) (rest : List Lexeme) : Option Found :=
  let mark := word.markNode .defaultWord
  match declaration? rest with
  | some found => some (exportedDeclaration start [mark] found)
  | none => do
      let length ← expressionExtent? false rest
      let ending ← justEnd? (rest.drop length)
      let value := Node.made (.other "expression") (startOf rest) (stopAfter rest length) []
      return exported start [mark, value.heldAs "value"] (1 + length) ending

def exportStar? (start : Nat) (star : Lexeme) (rest : List Lexeme) : Option Found :=
  if headIs (·.isWord "as") rest then do
    let name ← (rest.drop 1).head?
    guard name.isName
    let ending ← sourceEnd? false (rest.drop 2)
    let node := Node.made .namespaceExport star.start name.stop [name.nameNode]
    return exported start [node] 3 ending
  else do
    let ending ← sourceEnd? false rest
    return exported start [star.markNode .star] 1 ending

def exportClause? (start : Nat) (before : List Node) (clause : Lexeme) (rest : List Lexeme) :
    Option Found := do
  let node ← bracedNode? .exportClause exportSpecifier? clause
  let ending ← optionalSourceEnd? rest
  return exported start (before ++ [node]) (before.length + 1) ending

/-- An export statement that starts at some byte; `rest` follows its keyword. -/
def exportStatement? (start : Nat) (rest : List Lexeme) : Option Found :=
  match rest with
  | [] => none
  | first :: after =>
      if first.isMark "*" then exportStar? start first after
      else if first.isCurly then exportClause? start [] first after
      else if first.isMark "=" then do
        let length ← expressionExtent? false after
        let ending ← justEnd? (after.drop length)
        return exported start [first.markNode .equals] (1 + length) ending
      else match first.wordText, after with
      | "default", _ => exportDefault? start first after
      | "as", word :: name :: others => do
          guard (word.isWord "namespace" && name.isAnyWord)
          let ending ← justEnd? others
          return exported start [word.markNode .namespaceWord] 3 ending
      | "import", _ => (importAlias? rest).map (exportedDeclaration start [])
      | "type", clause :: others =>
          if clause.isCurly then exportClause? start [first.markNode .typeWord] clause others
          else (declaration? rest).map (exportedDeclaration start [])
      | _, _ => (declaration? rest).map (exportedDeclaration start [])

/-! ## Imports -/

structure ImportNames where
  nodes : List Node
  length : Nat

/-- `* as x` or specifiers between braces. -/
def importGroup? (lexemes : List Lexeme) : Option ImportNames :=
  match lexemes with
  | [] => none
  | first :: rest =>
      if first.isMark "*" then do
        guard (headIs (·.isWord "as") rest)
        let name ← headName? (rest.drop 1)
        return ⟨[.made .namespaceImport first.start name.stop [name.asName]], 3⟩
      else do
        let node ← bracedNode? .namedImports importSpecifier? first
        return ⟨[node], 1⟩

def importNames? (lexemes : List Lexeme) : Option ImportNames :=
  match headName? lexemes with
  | none => importGroup? lexemes
  | some name =>
      if headIs (·.isMark ",") (lexemes.drop 1) then do
        let group ← importGroup? (lexemes.drop 2)
        return ⟨name.asName :: group.nodes, group.length + 2⟩
      else some ⟨[name.asName], 1⟩

/-- Whether a word behind `import` modifies the import, rather than naming it. -/
def modifiesImport (first : Lexeme) (rest : List Lexeme) : Bool :=
  isModifier first &&
    match rest with
    | next :: after =>
        next.isCurly || next.isMark "*" ||
          (next.isAnyWord && (!next.isWord "from" || headIs (·.isWord "from") after))
    | [] => false

def importStatement? (start : Nat) (rest : List Lexeme) : Option Found := do
  let first ← rest.head?
  if first.isAnyString then
    let hasAttributes := headIs (fun l => l.isWord "with" || l.isWord "assert") (rest.drop 1)
      && headIs (·.isCurly) (rest.drop 2)
    let length := if hasAttributes then 3 else 1
    let ended ← terminator? (rest.drop length)
    return ⟨.made .importStatement start ended.stop [first.asString.heldAs "source"],
      1 + length + ended.length⟩
  else
    let typed := modifiesImport first (rest.drop 1)
    let before := if typed then [modifierNode first] else []
    let body := rest.drop before.length
    if headIs (·.isAnyWord) body && headIs (·.isMark "=") (body.drop 1) then
      let length ← expressionExtent? false (body.drop 2)
      let ended ← terminator? (body.drop (length + 2))
      return ⟨.made .importAlias start ended.stop [], 1 + before.length + 2 + length + ended.length⟩
    else
      let names ← importNames? body
      let ending ← sourceEnd? true (body.drop names.length)
      let clause := Node.made .importClause (startOf body) (stopAfter body names.length) names.nodes
      return ⟨.made .importStatement start ending.stop (before ++ [clause] ++ ending.nodes),
        1 + before.length + names.length + ending.length⟩

/-! ## Statements -/

structure StatementFound where
  nodes : List Node
  length : Nat

def StatementFound.ofFound (found : Found) : StatementFound := ⟨[found.node], found.length⟩

def StatementFound.silent (length : Nat) : StatementFound := ⟨[], length⟩

def expressionStatement? (lexemes : List Lexeme) : Option StatementFound := do
  let length ← expressionExtent? true lexemes
  let ended ← terminator? (lexemes.drop length)
  return .silent (length + ended.length)

/-- A word that ends a statement or goes on with an optional operand. -/
def jump? (operand? : List Lexeme → Option Nat) (rest : List Lexeme) : Option StatementFound :=
  match terminator? rest with
  | some ended => some (.silent (1 + ended.length))
  | none => do
      let length ← operand? rest
      let ended ← terminator? (rest.drop length)
      return .silent (1 + length + ended.length)

def labelOperand? (lexemes : List Lexeme) : Option Nat :=
  if headIs (·.isAnyWord) lexemes then some 1 else none

def handlers? (lexemes : List Lexeme) : Option Nat := do
  let caught ←
    if headIs (·.isWord "catch") lexemes then
      let bound := if headIs (·.isRound) (lexemes.drop 1) then 1 else 0
      if headIs (·.isCurly) (lexemes.drop (bound + 1)) then some (bound + 2) else none
    else some 0
  let after := lexemes.drop caught
  let ended ←
    if headIs (·.isWord "finally") after then
      if headIs (·.isCurly) (after.drop 1) then some 2 else none
    else some 0
  guard (0 < caught + ended)
  return caught + ended

def simpleStatement? (first : Lexeme) (rest : List Lexeme) : Option StatementFound :=
  let lexemes := first :: rest
  if first.isMark ";" ∨ first.isCurly then some (.silent 1)
  else if first.isMark "@" then do
    let before ← decorators? lexemes 0
    if headIs (·.isWord "export") (lexemes.drop before) then
      let found ← exportStatement? first.start (lexemes.drop (before + 1))
      return ⟨[found.node], before + found.length⟩
    else (decoratedClass? lexemes before).map .ofFound
  else match first.wordText with
  | "export" => (exportStatement? first.start rest).map .ofFound
  | "import" =>
      if headIs (fun next => next.isRound || next.isMark ".") rest then
        expressionStatement? lexemes
      else (importStatement? first.start rest).map .ofFound
  | "return" => jump? (expressionExtent? true) rest
  | "throw" => do
      let length ← expressionExtent? true rest
      let ended ← terminator? (rest.drop length)
      return .silent (1 + length + ended.length)
  | "break" | "continue" => jump? labelOperand? rest
  | "debugger" => jump? (fun _ => none) rest
  | "try" => do
      guard (headIs (·.isCurly) rest)
      let length ← handlers? (rest.drop 1)
      return .silent (2 + length)
  | "switch" => do
      guard (headIs (·.isRound) rest && headIs (·.isCurly) (rest.drop 1))
      return .silent 3
  | _ =>
      match declaration? lexemes with
      | some found => some (.ofFound found)
      | none => expressionStatement? lexemes

def holdingLength? (first : Lexeme) (rest : List Lexeme) : Option Nat :=
  match first.wordText with
  | "if" | "while" | "with" => if headIs (·.isRound) rest then some 1 else none
  | "for" =>
      if headIs (·.isRound) rest then some 1
      else if headIs (·.isWord "await") rest ∧ headIs (·.isRound) (rest.drop 1) then some 2
      else none
  | "do" => some 0
  | _ => if first.isAnyWord ∧ headIs (·.isMark ":") rest then some 1 else none

def loopEnd? (lexemes : List Lexeme) : Option Nat := do
  guard (headIs (·.isWord "while") lexemes && headIs (·.isRound) (lexemes.drop 1))
  return if headIs (·.isMark ";") (lexemes.drop 2) then 3 else 2

/-- Declarations in a statement that another one holds are none of the module's. -/
def statement? (lexemes : List Lexeme) : Option StatementFound :=
  match lexemes with
  | [] => none
  | first :: rest =>
      match holdingLength? first rest with
      | none => simpleStatement? first rest
      | some before => do
          let held ← statement? (rest.drop before)
          let length := before + held.length
          if first.isWord "do" then
            let more ← loopEnd? (rest.drop length)
            return .silent (1 + length + more)
          else if first.isWord "if" ∧ headIs (·.isWord "else") (rest.drop length) then
            let other ← statement? (rest.drop (length + 1))
            return .silent (1 + length + 1 + other.length)
          else return .silent (1 + length)
termination_by lexemes.length
decreasing_by all_goals simp only [List.length_drop, List.length_cons]; omega

def statements? (lexemes : List Lexeme) : Option (List Node) :=
  match lexemes with
  | [] => none
  | first :: rest =>
      if first.isFinish then some []
      else do
        let found ← statement? (first :: rest)
        let others ← statements? (rest.drop (found.length - 1))
        return found.nodes ++ others
termination_by lexemes.length
decreasing_by simp only [List.length_drop, List.length_cons]; omega

def program? (lexemes : List Lexeme) : Option Node := do
  let nodes ← statements? lexemes
  return .made .program 0 (stopAfter lexemes lexemes.length) nodes

end FlatExports.Syntax
