import FlatExports.Module.Scan
import FlatExports.Proofs.Survey

/-!
The two phases of a scan.

The statements of a module are read one after the other.  What they leave
pending is bound when all of them have been read: each pending export becomes a
definition with a local name or a re-export, by what the module binds the name
to.
-/

namespace FlatExports.Module

open FlatExports.Syntax

variable {tree : ModuleTree} {scanned : Scan} {definition : Definition}
  {edge : ReExport} {binding : Binding} {entry : PendingExport}

def bindingsOf (tree : ModuleTree) : Except Failure Bindings :=
  let nodes := tree.root.namedChildren
  collectBindings tree (nodes.filter (·.kind = .importStatement)) (nodes.flatMap declarationsOf)

def isTypeLocal (tree : ModuleTree) (name : String) : Bool :=
  match bindingsOf tree with
  | .ok bindings => bindings.find? name = some (.declared true)
  | .error _ => false

/-! ## Bindings -/

theorem kind_namedEdge {specifier imported exported : String} {typeOnly : Bool} {position : Nat} :
    (namedEdge specifier imported exported typeOnly position).kind ≠ .wildcard := by
  unfold namedEdge edgeKind
  split
  · rintro ⟨⟩
  · rintro ⟨⟩

theorem typeOnly_of_bind (h : bind binding entry = .definition definition) :
    definition.localName = some entry.localName ∧
      (binding = .declared true → definition.typeOnly = true) := by
  cases binding with
  | importDefault => cases h
  | importNamed => cases h
  | importNamespace => cases h
  | declared typeOnly =>
      rw [bind] at h
      split at h
      · cases h
        refine ⟨rfl, ?_⟩
        rintro ⟨⟩
        rfl
      · cases h
        refine ⟨rfl, ?_⟩
        rintro ⟨⟩
        rfl

theorem kind_of_bind (h : bind binding entry = .reExport edge) : edge.kind ≠ .wildcard := by
  cases binding with
  | importDefault =>
      cases h
      exact kind_namedEdge
  | importNamed =>
      cases h
      exact kind_namedEdge
  | importNamespace =>
      cases h
      rintro ⟨⟩
  | declared =>
      rw [bind] at h
      split at h
      · cases h
      · cases h

def BoundExport.item : BoundExport → Item
  | .definition d => .definition d
  | .reExport edge => .reExport edge

theorem position_item_bind : (bind binding entry).item.position = entry.position := by
  cases binding with
  | declared typeOnly =>
      rw [bind]
      split <;> rfl
  | _ => rfl

theorem mem_boundReExports {bound : List BoundExport} :
    edge ∈ boundReExports bound ↔ .reExport edge ∈ bound := by
  rw [boundReExports, List.mem_filterMap]
  constructor
  · rintro ⟨entry, hentry, heq⟩
    cases entry with
    | definition definition => cases heq
    | reExport other =>
        cases heq
        exact hentry
  · exact fun h => ⟨_, h, rfl⟩

def BindsPending (tree : ModuleTree) (entry : PendingExport) (bound : BoundExport) : Prop :=
  ∃ bindings binding, bindingsOf tree = .ok bindings ∧
    bindings.find? entry.localName = some binding ∧ bound = bind binding entry

theorem bindPending_binds {bindings : Bindings} {pending : List PendingExport}
    {bound : List BoundExport} (hbindings : bindingsOf tree = .ok bindings)
    (h : bindPending tree bindings pending = .ok bound) :
    List.Forall₂ (BindsPending tree) pending bound := by
  unfold bindPending at h
  split at h
  · rename_i hall
    cases h
    rw [List.filter_eq_nil_iff] at hall
    induction pending with
    | nil => exact .nil
    | cons entry rest ih =>
        rw [List.forall_mem_cons] at hall
        obtain ⟨binding, hfind⟩ : ∃ binding, bindings.find? entry.localName = some binding := by
          simpa [Option.ne_none_iff_exists'] using hall.1
        rw [List.filterMap_cons_some (by rw [hfind]; rfl)]
        exact .cons ⟨bindings, binding, hbindings, hfind, rfl⟩ (ih hall.2)
  · cases h

/-! ## Scans -/

def exportStatements (tree : ModuleTree) : List Node :=
  tree.root.namedChildren.filter (·.kind = .exportStatement)

def spanOf (statement : Node) (contribution : Contribution) : StatementSpan :=
  ⟨statement.start, statement.stop, contribution.isReExport⟩

/-- The first phase of a scan reads the statements, the second one binds what they leave pending. -/
theorem scan_eq_ok (h : scan tree = .ok scanned) :
    ∃ contributions bound,
      List.Forall₂ (fun statement contribution => readExport tree statement = .ok contribution)
        (exportStatements tree) contributions ∧
      List.Forall₂ (BindsPending tree) (contributions.flatMap (·.pending)) bound ∧
      scanned.source = tree.source ∧
      scanned.surface =
        ⟨contributions.flatMap (·.definitions) ++ boundDefinitions bound,
          contributions.flatMap (·.reExports) ++ boundReExports bound⟩ ∧
      scanned.statements = List.zipWith spanOf (exportStatements tree) contributions := by
  obtain ⟨contributions, hcontributions, h⟩ := bind_eq_ok.mp h
  dsimp only at h
  split at h
  · rename_i hnone
    obtain ⟨bound, hbound, h⟩ := bind_eq_ok.mp h
    cases h
    cases hbound
    rw [List.isEmpty_iff] at hnone
    exact ⟨contributions, [], mapM_eq_ok.mp hcontributions, hnone ▸ .nil, rfl, rfl, rfl⟩
  · obtain ⟨bindings, hbindings, h⟩ := bind_eq_ok.mp h
    obtain ⟨bound, hbound, h⟩ := bind_eq_ok.mp h
    cases h
    exact ⟨contributions, bound, mapM_eq_ok.mp hcontributions,
      bindPending_binds hbindings hbound, rfl, rfl, rfl⟩

theorem source_of_scan (h : scan tree = .ok scanned) : scanned.source = tree.source := by
  obtain ⟨_, _, -, -, hsource, -, -⟩ := scan_eq_ok h
  exact hsource

end FlatExports.Module
