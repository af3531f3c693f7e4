import FlatExports.Syntax.Node.Pattern

/-!
The nodes of declarations.

`declaration?` reads a declaration at the head of some lexemes, with the
semicolon it ends in, and tells how many lexemes it takes.  It answers `none`
for anything else, also where a word such as `type` only looks like one.
-/

namespace FlatExports.Syntax

structure Found where
  node : Node
  length : Nat

def stopAfter (lexemes : List Lexeme) (length : Nat) : Nat :=
  ((lexemes.take length).getLast?.map (·.stop)).getD 0

def startOf (lexemes : List Lexeme) : Nat := (lexemes.head?.map (·.start)).getD 0

def Lexeme.asHeldName (lexeme : Lexeme) : Node := lexeme.asName.heldAs "name"

/-- A declaration of one name that takes some lexemes. -/
def declared (kind : Kind) (lexemes : List Lexeme) (name : Lexeme) (length : Nat) : Found :=
  ⟨.made kind (startOf lexemes) (stopAfter lexemes length) [name.asHeldName], length⟩

/-- As `declared`, with a terminator behind the lexemes. -/
def terminated? (kind : Kind) (lexemes : List Lexeme) (name : Lexeme) (length : Nat) :
    Option Found := do
  let ended ← terminator? (lexemes.drop length)
  return ⟨.made kind (startOf lexemes) ended.stop [name.asHeldName], length + ended.length⟩

def headName? (lexemes : List Lexeme) : Option Lexeme :=
  lexemes.head?.filter fun first => first.isAnyWord && !isHeritageWord first

/-! ## Variables -/

def declarator? (lexemes : List Lexeme) : Option Found := do
  let pattern ← pattern? (← lexemes.head?)
  let afterName := lexemes.drop 1
  let sure := if headIs (·.isMark "!") afterName then 1 else 0
  let typed ← annotation? (afterName.drop sure)
  let afterType := afterName.drop (sure + typed)
  let value ←
    if headIs (·.isMark "=") afterType then
      (expressionExtent? false (afterType.drop 1)).map (· + 1)
    else some 0
  return ⟨.made .variableDeclarator pattern.start pattern.stop [pattern.heldAs "name"],
    1 + sure + typed + value⟩

def declarators? (lexemes : List Lexeme) : Option (List Node × Nat) :=
  match lexemes with
  | [] => none
  | first :: rest => do
      let found ← declarator? (first :: rest)
      if headIs (·.isMark ",") ((first :: rest).drop found.length) then
        let (nodes, length) ← declarators? (rest.drop found.length)
        return (found.node :: nodes, found.length + 1 + length)
      else return ([found.node], found.length)
termination_by lexemes.length
decreasing_by simp only [List.length_drop, List.length_cons]; omega

def variables? (kind : Kind) (lexemes : List Lexeme) : Option Found := do
  let (nodes, length) ← declarators? (lexemes.drop 1)
  let ended ← terminator? (lexemes.drop (length + 1))
  return ⟨.made kind (startOf lexemes) ended.stop nodes, length + 1 + ended.length⟩

/-! ## Functions and classes -/

def function? (lexemes : List Lexeme) (before : Nat) : Option Found := do
  let shape ← functionShape? (lexemes.drop (before + 1))
  let name ← shape.name
  let length := before + 1 + shape.length
  if shape.hasBody then
    let kind := if shape.isGenerator then .generatorDeclaration else .functionDeclaration
    return declared kind lexemes name length
  else terminated? .functionSignature lexemes name length

def classLike? (kind : Kind) (lexemes : List Lexeme) (before : Nat) : Option Found := do
  let shape ← classShape? (lexemes.drop (before + 1))
  let name ← shape.name
  return declared kind lexemes name (before + 1 + shape.length)

def enum? (lexemes : List Lexeme) (before : Nat) : Option Found := do
  let name ← headName? (lexemes.drop (before + 1))
  guard (headIs (·.isCurly) (lexemes.drop (before + 2)))
  return declared .enumDeclaration lexemes name (before + 3)

def typeAlias? (lexemes : List Lexeme) : Option Found := do
  let name ← headName? (lexemes.drop 1)
  guard (!name.startsLine)
  let angles ← optionalAngles? (lexemes.drop 2)
  guard (headIs (·.isMark "=") (lexemes.drop (angles + 2)))
  let length ← typeExtent? (lexemes.drop (angles + 3))
  terminated? .typeAliasDeclaration lexemes name (angles + 3 + length)

/-! ## Modules -/

def modulePath? (lexemes : List Lexeme) : Option Found := do
  let first ← lexemes.head?
  guard (!first.startsLine)
  if first.isAnyString then return ⟨first.asString, 1⟩
  else
    guard first.isAnyWord
    let length := 1 + decoratorNameExtent (lexemes.drop 1)
    return ⟨.made .identifier first.start (stopAfter lexemes length) [], length⟩

def module? (lexemes : List Lexeme) : Option Found := do
  let path ← modulePath? (lexemes.drop 1)
  let isNamespace := headIs (·.isWord "namespace") lexemes
  guard !(isNamespace && path.node.kind = .string)
  let hasBody := headIs (·.isCurly) (lexemes.drop (path.length + 1))
  let length := path.length + 1 + (if hasBody then 1 else 0)
  let kind := if isNamespace then .internalModule else .moduleDeclaration
  return ⟨.made kind (startOf lexemes) (stopAfter lexemes length) [path.node.heldAs "name"],
    length⟩

/-- `import A = B.C`, which only an export makes a declaration. -/
def importAlias? (lexemes : List Lexeme) : Option Found := do
  let name ← headName? (lexemes.drop 1)
  guard (headIs (·.isMark "=") (lexemes.drop 2))
  let path ← modulePath? (lexemes.drop 3)
  guard (path.node.kind = .identifier)
  terminated? .importAlias lexemes name (path.length + 3)

/-! ## All declarations -/

def decorators? : List Lexeme → Nat → Option Nat
  | [], _ => some 0
  | _ :: rest, skip + 1 => (decorators? rest skip).map (· + 1)
  | first :: rest, 0 =>
      if first.isMark "@" then do
        let length ← decoratorExtent? (first :: rest)
        (decorators? rest (length - 1)).map (· + 1)
      else some 0

def decoratedClass? (lexemes : List Lexeme) (before : Nat) : Option Found :=
  let rest := lexemes.drop before
  if headIs (·.isWord "class") rest then classLike? .classDeclaration lexemes before
  else if headIs (·.isWord "abstract") rest ∧ headIs (·.isWord "class") (rest.drop 1) then
    classLike? .abstractClassDeclaration lexemes (before + 1)
  else none

def plainDeclaration? (lexemes : List Lexeme) : Option Found :=
  match lexemes with
  | [] => none
  | first :: rest =>
      match first.wordText with
      | "function" => function? lexemes 0
      | "async" =>
          if headIs (fun next => next.isWord "function" && !next.startsLine) rest then
            function? lexemes 1
          else none
      | "class" | "abstract" => decoratedClass? lexemes 0
      | "interface" => classLike? .interfaceDeclaration lexemes 0
      | "type" => typeAlias? lexemes
      | "enum" => enum? lexemes 0
      | "const" =>
          if headIs (·.isWord "enum") rest then enum? lexemes 1
          else variables? .lexicalDeclaration lexemes
      | "let" => variables? .lexicalDeclaration lexemes
      | "var" => variables? .variableDeclaration lexemes
      | "namespace" | "module" => module? lexemes
      | _ =>
          if first.isMark "@" then (decorators? lexemes 0).bind (decoratedClass? lexemes)
          else none

/-- What follows `declare`: a declaration, or a block that adds to the global scope. -/
def ambientBody? (lexemes : List Lexeme) : Option Found :=
  if headIs (·.isWord "global") lexemes ∧ headIs (·.isCurly) (lexemes.drop 1) then
    some ⟨.made (.other "statement_block") (startOf lexemes) (stopAfter lexemes 2) [], 2⟩
  else plainDeclaration? lexemes

def declaration? (lexemes : List Lexeme) : Option Found :=
  if headIs (·.isWord "declare") lexemes then do
    let body ← ambientBody? (lexemes.drop 1)
    return ⟨.made .ambientDeclaration (startOf lexemes) body.node.stop [body.node],
      body.length + 1⟩
  else plainDeclaration? lexemes

end FlatExports.Syntax
