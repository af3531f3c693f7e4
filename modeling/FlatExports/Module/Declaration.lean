import FlatExports.Syntax.Node

/-!
The names a declaration introduces.

Only type aliases and interfaces are types; every other name is a value.  A
destructuring pattern binds the identifiers in binding position: the value of a
pair, the left side of a default, and every part of an object, array or rest
pattern.  In strict mode, which exported declarations are read in, a
declaration without a usable name is unsupported.
-/

namespace FlatExports.Module

open FlatExports.Syntax

mutual

/-- The identifiers a pattern binds, in source order. -/
def boundIdentifiers : Node → List Node
  | ⟨info, children⟩ =>
      match info.kind with
      | .identifier | .shorthandPattern => [⟨info, children⟩]
      | .pairPattern => boundInField "value" children
      | .assignmentPattern | .objectAssignmentPattern => boundInField "left" children
      | .objectPattern | .arrayPattern | .restPattern => boundInNamed children
      | _ => []

def boundInField (field : String) : List Node → List Node
  | [] => []
  | child :: rest =>
      if child.info.field = some field then boundIdentifiers child
      else boundInField field rest

def boundInNamed : List Node → List Node
  | [] => []
  | child :: rest =>
      (if child.info.named then boundIdentifiers child else []) ++ boundInNamed rest

end

structure DeclaredName where
  name : String
  typeOnly : Bool
  position : Nat
  deriving DecidableEq, Repr

def variableIdentifiers (declaration : Node) : List Node :=
  (declaration.namedChildren.filter (·.kind = .variableDeclarator)).flatMap fun declarator =>
    match declarator.child? "name" with
    | none => []
    | some pattern => boundIdentifiers pattern

/-- The text before the first dot: `A.B` declares `A`. -/
def headOfPath (text : String) : String :=
  String.ofList (text.toList.takeWhile (· ≠ '.'))

/-- The names of a declaration that is not an ambient one. -/
def plainDeclaredNames (tree : ModuleTree) (strict : Bool) (node : Node) :
    Except Failure (List DeclaredName) :=
  let kind := node.kind
  let refuse (construct : Construct) : Except Failure (List DeclaredName) :=
    if strict then .error (.unsupported tree.file construct) else .ok []
  if kind.isTypeDeclaration || kind.isNamedDeclaration then
    match node.child? "name" with
    | none => refuse (.nameless kind.name)
    | some name => do
        let text ← tree.text name
        return [⟨text, kind.isTypeDeclaration, node.start⟩]
  else if kind.isNamedExpression then
    match node.child? "name" with
    | none => .ok []
    | some name => do
        let text ← tree.text name
        return [⟨text, false, node.start⟩]
  else if kind.isVariableDeclaration then
    (variableIdentifiers node).mapM fun identifier => do
      let text ← tree.text identifier
      return ⟨text, false, identifier.start⟩
  else if kind.isModuleDeclaration then
    match (node.child? "name").filter (·.kind ≠ .string) with
    | none => if strict then do refuse (.ambientModule (← tree.text node)) else .ok []
    | some name => do
        let text ← tree.text name
        return [⟨headOfPath text, false, node.start⟩]
  else refuse (.exported kind.name)

mutual

def declaredNames (tree : ModuleTree) (strict : Bool) :
    Node → Except Failure (List DeclaredName)
  | ⟨info, children⟩ =>
      if info.kind = .ambientDeclaration then ambientNames tree strict children
      else plainDeclaredNames tree strict ⟨info, children⟩

/-- An ambient declaration introduces what the declarations in it introduce. -/
def ambientNames (tree : ModuleTree) (strict : Bool) :
    List Node → Except Failure (List DeclaredName)
  | [] => .ok []
  | child :: rest => do
      let first ←
        if child.info.named && child.info.kind.isLocalDeclaration then
          declaredNames tree strict child
        else .ok []
      let others ← ambientNames tree strict rest
      return first ++ others

end

end FlatExports.Module
