import FlatExports.Module.Binding

/-!
Reading the export surface off a syntax tree.

Every top-level export statement contributes definitions, re-exports and
*pending* exports: specifiers without a source, which stand for a local
binding.  When all statements have been read, each pending export becomes a
re-export if its binding is imported and a definition if it is declared.
-/

namespace FlatExports.Module

open FlatExports.Syntax

structure PendingExport where
  localName : String
  exportedName : String
  typeOnly : Bool
  position : Nat
  deriving DecidableEq, Repr

structure StatementSpan where
  start : Nat
  stop : Nat
  isReExport : Bool
  deriving DecidableEq, Repr

structure Scan where
  file : String
  surface : Surface
  source : Text.Bytes
  statements : List StatementSpan

def Scan.reExportSpans (scan : Scan) : List StatementSpan :=
  scan.statements.filter (·.isReExport)

structure Contribution where
  definitions : List Definition
  reExports : List ReExport
  pending : List PendingExport
  isReExport : Bool
  deriving Repr

def Contribution.ofDefinitions (definitions : List Definition) : Contribution :=
  ⟨definitions, [], [], false⟩

def Contribution.ofReExport (edge : ReExport) : Contribution := ⟨[], [edge], [], true⟩

/-- A re-export is of the default kind exactly if it imports the default slot. -/
def edgeKind (imported : String) : ExportKind :=
  if imported = defaultName then .default else .named

def namedEdge (specifier imported exported : String) (typeOnly : Bool) (position : Nat) :
    ReExport :=
  ⟨edgeKind imported, specifier, some imported, some exported, typeOnly, position⟩

def namespaceEdge (specifier exported : String) (typeOnly : Bool) (position : Nat) : ReExport :=
  ⟨.namespaced, specifier, none, some exported, typeOnly, position⟩

def wildcardEdge (specifier : String) (typeOnly : Bool) (position : Nat) : ReExport :=
  ⟨.wildcard, specifier, none, none, typeOnly, position⟩

/-- The declaration or the value an export statement holds. -/
def exportedNode? (statement : Node) : Option Node :=
  (statement.child? "declaration").or (statement.child? "value")

def readDefault (statement : Node) : Contribution :=
  let typeOnly := (exportedNode? statement).any (·.kind = .interfaceDeclaration)
  .ofDefinitions [⟨.default, none, typeOnly, statement.start, none⟩]

def readDeclaration (tree : ModuleTree) (statement declaration : Node) :
    Except Failure Contribution := do
  if declaration.kind = .importAlias then
    throw (.unsupported tree.file (.importAlias (← tree.text statement)))
  let names ← declaredNames tree true declaration
  return .ofDefinitions (names.map fun entry =>
    ⟨.named, some entry.name, entry.typeOnly, entry.position, none⟩)

def readClause (tree : ModuleTree) (clause : Node) (specifier? : Option String)
    (typeOnly : Bool) : Except Failure Contribution := do
  let specifiers := clause.namedChildren.filter (·.kind = .exportSpecifier)
  let entries ← specifiers.mapM fun node => do
    let (imported, exported) ← specifierNames tree node
    return (imported, exported, typeOnly || hasTypeModifier node, node.start)
  let isReExport := !specifiers.isEmpty
  match specifier? with
  | some specifier =>
      return ⟨[], entries.map fun (imported, exported, typed, position) =>
        namedEdge specifier imported exported typed position, [], isReExport⟩
  | none =>
      return ⟨[], [], entries.map fun (imported, exported, typed, position) =>
        ⟨imported, exported, typed, position⟩, isReExport⟩

/-- An export statement with neither a default nor a declaration. -/
def readReExport (tree : ModuleTree) (statement : Node) : Except Failure Contribution := do
  if statement.hasWord .equals then
    throw (.unsupported tree.file (.assignment (← tree.text statement)))
  if statement.hasWord .namespaceWord then
    throw (.unsupported tree.file (.globalName (← tree.text statement)))
  let specifier? ← (sourceNode? statement).mapM tree.moduleName
  let typeOnly := statement.hasWord .typeWord
  match specifier?, statement.namedChild? .namespaceExport with
  | some specifier, some namespaceNode =>
      let some name := namespaceNode.namedChildren.getLast? | throw .missingChild
      let exported ← tree.moduleName name
      return .ofReExport (namespaceEdge specifier exported typeOnly statement.start)
  | _, _ =>
      match statement.namedChild? .exportClause with
      | some clause => readClause tree clause specifier? typeOnly
      | none =>
          match specifier? with
          | some specifier =>
              if statement.hasWord .star then
                return .ofReExport (wildcardEdge specifier typeOnly statement.start)
              else throw (.unsupported tree.file (.other (← tree.text statement)))
          | none => throw (.unsupported tree.file (.other (← tree.text statement)))

def readExport (tree : ModuleTree) (statement : Node) : Except Failure Contribution :=
  if statement.hasWord .defaultWord then .ok (readDefault statement)
  else match statement.child? "declaration" with
    | some declaration => readDeclaration tree statement declaration
    | none => readReExport tree statement

def declarationsOf (node : Node) : List Node :=
  match node.kind with
  | .exportStatement => (exportedNode? node).toList
  | .expressionStatement => node.namedChildren.filter (·.kind.isModuleDeclaration)
  | kind => if kind.isLocalDeclaration then [node] else []

inductive BoundExport where
  | definition (definition : Definition)
  | reExport (edge : ReExport)
  deriving DecidableEq, Repr

def bind (binding : Binding) (entry : PendingExport) : BoundExport :=
  match binding with
  | .importDefault specifier typeOnly =>
      .reExport (namedEdge specifier defaultName entry.exportedName
        (typeOnly || entry.typeOnly) entry.position)
  | .importNamed specifier imported typeOnly =>
      .reExport (namedEdge specifier imported entry.exportedName
        (typeOnly || entry.typeOnly) entry.position)
  | .importNamespace specifier typeOnly =>
      .reExport (namespaceEdge specifier entry.exportedName
        (typeOnly || entry.typeOnly) entry.position)
  | .declared typeOnly =>
      if entry.exportedName = defaultName then
        .definition ⟨.default, none, typeOnly || entry.typeOnly, entry.position,
          some entry.localName⟩
      else
        .definition ⟨.named, some entry.exportedName, typeOnly || entry.typeOnly,
          entry.position, some entry.localName⟩

def bindPending (tree : ModuleTree) (bindings : Bindings) (pending : List PendingExport) :
    Except Failure (List BoundExport) :=
  match pending.filter fun entry => (bindings.find? entry.localName).isNone with
  | [] => .ok (pending.filterMap fun entry =>
      (bindings.find? entry.localName).map fun binding => bind binding entry)
  | unbound => .error (.exportsNotFound tree.file (unbound.map (·.localName)))

def boundDefinitions (bound : List BoundExport) : List Definition :=
  bound.filterMap fun | .definition d => some d | .reExport _ => none

def boundReExports (bound : List BoundExport) : List ReExport :=
  bound.filterMap fun | .reExport e => some e | .definition _ => none

def scan (tree : ModuleTree) : Except Failure Scan := do
  let nodes := tree.root.namedChildren
  let statements := nodes.filter (·.kind = .exportStatement)
  let contributions ← statements.mapM (readExport tree)
  let pending := contributions.flatMap (·.pending)
  let bound ←
    if pending.isEmpty then pure []
    else do
      let imports := nodes.filter (·.kind = .importStatement)
      let bindings ← collectBindings tree imports (nodes.flatMap declarationsOf)
      bindPending tree bindings pending
  return {
    file := tree.file
    surface :=
      { definitions := contributions.flatMap (·.definitions) ++ boundDefinitions bound
        reExports := contributions.flatMap (·.reExports) ++ boundReExports bound }
    source := tree.source
    statements := List.zipWith
      (fun node contribution => ⟨node.start, node.stop, contribution.isReExport⟩)
      statements contributions }

end FlatExports.Module
