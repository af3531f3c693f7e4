import FlatExports.Module.Declaration
import FlatExports.Module.Surface

/-!
The local bindings of a module.

Imports bind first and a later import of a name replaces an earlier one.  A
declaration binds a name only when no import does, and a name declared both as
a type and as a value is a value.
-/

namespace FlatExports.Module

open FlatExports.Syntax

inductive Binding where
  | importDefault (specifier : String) (typeOnly : Bool)
  | importNamed (specifier imported : String) (typeOnly : Bool)
  | importNamespace (specifier : String) (typeOnly : Bool)
  | declared (typeOnly : Bool)
  deriving DecidableEq, Repr

abbrev Bindings := List (String × Binding)

namespace Bindings

def put (bindings : Bindings) (name : String) (binding : Binding) : Bindings :=
  (name, binding) :: bindings.filter (·.1 ≠ name)

def find? (bindings : Bindings) (name : String) : Option Binding :=
  bindings.lookup name

def declare (bindings : Bindings) (name : String) (typeOnly : Bool) : Bindings :=
  match bindings.find? name with
  | none => bindings.put name (.declared typeOnly)
  | some (.declared before) => bindings.put name (.declared (before && typeOnly))
  | some _ => bindings

end Bindings

/-- The string that names the module of an import or export statement. -/
def sourceNode? (statement : Node) : Option Node :=
  (statement.child? "source").or (statement.children.find? (·.kind = .string))

def hasTypeModifier (node : Node) : Bool := node.hasWord .typeWord

def isSpecifierMark (kind : Kind) : Bool :=
  kind = .typeWord || kind = .typeofWord || kind = .asWord || kind = .comma

def specifierNames (tree : ModuleTree) (specifier : Node) :
    Except Failure (String × String) := do
  let (name, alias?) ←
    match specifier.child? "name" with
    | some name => pure (name, specifier.child? "alias")
    | none =>
        match specifier.children.filter fun child => !isSpecifierMark child.kind with
        | [] => throw .missingChild
        | name :: others => pure (name, others.head?)
  let first ← tree.moduleName name
  match alias? with
  | none => return (first, first)
  | some node => return (first, ← tree.moduleName node)

def clauseBindings (tree : ModuleTree) (specifier : String) (typeOnly : Bool) (part : Node) :
    Except Failure Bindings :=
  match part.kind with
  | .identifier => do
      return [(← tree.text part, .importDefault specifier typeOnly)]
  | .namespaceImport =>
      match part.namedChild? .identifier with
      | none => .ok []
      | some name => do return [(← tree.text name, .importNamespace specifier typeOnly)]
  | .namedImports =>
      (part.namedChildren.filter (·.kind = .importSpecifier)).mapM fun node => do
        let (imported, name) ← specifierNames tree node
        return (name, .importNamed specifier imported (typeOnly || hasTypeModifier node))
  | _ => .ok []

def importBindings (tree : ModuleTree) (statement : Node) : Except Failure Bindings :=
  match sourceNode? statement, statement.namedChild? .importClause with
  | some source, some clause => do
      let specifier ← tree.moduleName source
      let typeOnly := hasTypeModifier statement
      let parts ← clause.namedChildren.mapM (clauseBindings tree specifier typeOnly)
      return parts.flatten
  | _, _ => .ok []

def collectBindings (tree : ModuleTree) (imports declarations : List Node) :
    Except Failure Bindings := do
  let imported ← imports.mapM (importBindings tree)
  let declared ← declarations.mapM (declaredNames tree false)
  let afterImports : Bindings :=
    imported.flatten.foldl (fun bindings (name, binding) => bindings.put name binding) []
  return declared.flatten.foldl
    (fun bindings entry => bindings.declare entry.name entry.typeOnly) afterImports

end FlatExports.Module
