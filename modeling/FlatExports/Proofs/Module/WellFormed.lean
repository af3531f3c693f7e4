import FlatExports.Module.Load
import FlatExports.Proofs.Module.Recording

/-!
What the records of a scanned module look like.

A definition lacks a name exactly if it is the default, and a re-export has the
names its kind calls for: a wildcard has none, a namespace the one it is
published under, and any other re-export both.  This holds of every record, no
matter which part of the reader made it.
-/

namespace FlatExports

structure Definition.WellFormed (definition : Definition) : Prop where
  kind : definition.kind = .named ∨ definition.kind = .default
  nameless : definition.name = none ↔ definition.kind = .default

theorem Definition.WellFormed.exportName? {definition : Definition} (h : definition.WellFormed) :
    definition.exportName?.isSome := by
  unfold Definition.exportName?
  split
  · rfl
  · rename_i hkind
    exact Option.isSome_iff_ne_none.mpr fun hname => hkind (h.nameless.mp hname)

/-- The names of a re-export are those that its kind calls for. -/
structure ReExport.WellFormed (edge : ReExport) : Prop where
  wildcard : edge.kind = .wildcard → edge.importedName = none ∧ edge.exportedName = none
  namespaced : edge.kind = .namespaced → edge.importedName = none ∧ edge.exportedName.isSome
  explicit : edge.kind = .named ∨ edge.kind = .default →
    edge.importedName.isSome ∧ edge.exportedName.isSome
  default : edge.kind = .default ↔
    edge.kind ≠ .wildcard ∧ edge.kind ≠ .namespaced ∧ edge.importedName = some defaultName

theorem ReExport.WellFormed.names {edge : ReExport} (h : edge.WellFormed)
    (hwildcard : edge.kind ≠ .wildcard) (hnamespaced : edge.kind ≠ .namespaced) :
    edge.importedName.isSome ∧ edge.exportedName.isSome := by
  cases hkind : edge.kind with
  | wildcard => exact absurd hkind hwildcard
  | namespaced => exact absurd hkind hnamespaced
  | named => exact h.explicit (.inl hkind)
  | default => exact h.explicit (.inr hkind)

structure Surface.WellFormed (surface : Surface) : Prop where
  definitions : ∀ definition ∈ surface.definitions, definition.WellFormed
  reExports : ∀ edge ∈ surface.reExports, edge.WellFormed

namespace Module

open FlatExports.Syntax

variable {tree : ModuleTree} {specifier imported exported : String}
  {typeOnly : Bool} {position : Nat}

theorem wellFormed_namedEdge :
    (namedEdge specifier imported exported typeOnly position).WellFormed := by
  unfold namedEdge edgeKind
  split
  · rename_i hdefault
    exact ⟨by simp, by simp, by simp, by simp [hdefault]⟩
  · rename_i hnamed
    exact ⟨by simp, by simp, by simp, by simp [hnamed]⟩

theorem wellFormed_namespaceEdge :
    (namespaceEdge specifier exported typeOnly position).WellFormed :=
  ⟨by simp [namespaceEdge], by simp [namespaceEdge], by simp [namespaceEdge],
    by simp [namespaceEdge]⟩

theorem wellFormed_wildcardEdge : (wildcardEdge specifier typeOnly position).WellFormed :=
  ⟨by simp [wildcardEdge], by simp [wildcardEdge], by simp [wildcardEdge], by simp [wildcardEdge]⟩

/-! ## Scans -/

def WellFormedItem : Item → Prop
  | .definition d => d.WellFormed
  | .reExport edge => edge.WellFormed

theorem wellFormed_bind (binding : Binding) (entry : PendingExport) :
    WellFormedItem (bind binding entry).item := by
  cases binding with
  | importDefault => exact wellFormed_namedEdge
  | importNamed => exact wellFormed_namedEdge
  | importNamespace => exact wellFormed_namespaceEdge
  | declared typeOnly =>
      unfold bind
      dsimp only
      split
      · exact ⟨.inr rfl, by simp⟩
      · exact ⟨.inl rfl, by simp⟩

theorem Records.wellFormed {site : Site} {item : Item} (h : Records tree site item) :
    WellFormedItem item := by
  cases h with
  | default => exact ⟨.inr rfl, by simp⟩
  | introduced => exact ⟨.inl rfl, by simp⟩
  | sourced => exact wellFormed_namedEdge
  | bound _ _ hbound =>
      obtain ⟨bindings, binding, -, -, rfl⟩ := hbound
      exact wellFormed_bind binding _
  | namespaced => exact wellFormed_namespaceEdge
  | wildcard => exact wellFormed_wildcardEdge

theorem wellFormed_of_scan {scanned : Scan} (h : scan tree = .ok scanned) :
    scanned.surface.WellFormed := by
  have hitems (item : Item) (hitem : item ∈ scanned.surface.items) : WellFormedItem item := by
    obtain ⟨_, -, _, -, hrecord⟩ := exists_site_of_scan h hitem
    exact hrecord.wellFormed
  exact ⟨fun definition hmem => hitems _ (Surface.mem_items_definition.mpr hmem),
    fun edge hmem => hitems _ (Surface.mem_items_reExport.mpr hmem)⟩

theorem wellFormed_of_loadSurface [Grammar] {volume : Volume} {file : Location}
    {surface : Surface} (h : loadSurface volume file = .ok surface) : surface.WellFormed := by
  obtain ⟨scanned, hscanned, hsurface⟩ := bind_eq_ok.mp h
  obtain ⟨tree, -, hscan⟩ := bind_eq_ok.mp hscanned
  cases hsurface
  exact wellFormed_of_scan hscan

end Module

end FlatExports
