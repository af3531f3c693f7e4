import FlatExports.Module.Surface
import FlatExports.Specifier
import Mathlib.Data.List.Basic

/-!
The items of a surface.

An item is *explicit* when it publishes a name of its own; only wildcards are
not.  Both explicit items and wildcards are looked at in source order.
-/

namespace FlatExports

namespace Item

def name? : Item → Option String
  | .definition d => d.exportName?
  | .reExport edge => if edge.kind = .wildcard then none else edge.exportedName

def wildcard? : Item → Option ReExport
  | .definition _ => none
  | .reExport edge => if edge.kind = .wildcard then some edge else none

theorem wildcard?_eq_some {item : Item} {edge : ReExport} :
    item.wildcard? = some edge ↔ item = .reExport edge ∧ edge.kind = .wildcard := by
  cases item with
  | definition d => simp [wildcard?]
  | reExport other =>
      simp only [wildcard?, reExport.injEq]
      split
      · rename_i hkind
        simp only [Option.some.injEq]
        constructor
        · rintro rfl
          exact ⟨rfl, hkind⟩
        · exact fun h => h.1
      · rename_i hkind
        simp only [reduceCtorEq, false_iff, not_and]
        rintro rfl
        exact hkind

def isInline : Item → Bool
  | .definition d => d.localName.isNone
  | .reExport _ => false

theorem eq_of_name? {items : List Item} {item other : Item} {name : String}
    (hnames : (items.filterMap name?).Nodup) (hitem : item ∈ items) (hother : other ∈ items)
    (hname : item.name? = some name) (hname' : other.name? = some name) : item = other := by
  have hpairwise := List.pairwise_filterMap.mp hnames
  have hall : ∀ ⦃item⦄, item ∈ items → ∀ ⦃other⦄, other ∈ items →
      item.name? = some name → other.name? = some name → item = other := by
    refine List.Pairwise.forall_of_forall_of_flip (fun _ _ _ _ => rfl) ?_ ?_
    · exact hpairwise.imp fun hne hfirst hsecond => absurd rfl (hne name hfirst name hsecond)
    · exact hpairwise.imp fun hne hsecond hfirst => absurd rfl (hne name hfirst name hsecond)
  exact hall hitem hother hname hname'

theorem find?_of_name {items : List Item} {item : Item} {name : String}
    (hnames : (items.filterMap name?).Nodup) (hitem : item ∈ items)
    (hname : item.name? = some name) : items.find? (·.name? = some name) = some item := by
  cases hfind : items.find? (·.name? = some name) with
  | none =>
      rw [List.find?_eq_none] at hfind
      exact absurd (by simpa using hname) (hfind item hitem)
  | some other =>
      have hother := List.find?_some hfind
      exact congrArg some (eq_of_name? hnames (List.mem_of_find?_eq_some hfind) hitem
        (by simpa using hother) hname)

def internalWildcard? (item : Item) : Option ReExport :=
  item.wildcard?.filter fun edge => Specifier.isInternal edge.specifier

theorem internalWildcard?_eq_some {item : Item} {edge : ReExport} :
    item.internalWildcard? = some edge ↔ item = .reExport edge ∧ edge.kind = .wildcard ∧
      Specifier.isInternal edge.specifier = true := by
  simp [internalWildcard?, Option.filter_eq_some_iff, wildcard?_eq_some, and_assoc]

end Item

namespace Surface

variable {surface : Surface} {name : String}

def explicitItem? (surface : Surface) (name : String) : Option Item :=
  surface.items.find? (·.name? = some name)

theorem items_perm (surface : Surface) :
    surface.items.Perm
      (surface.definitions.map Item.definition ++ surface.reExports.map Item.reExport) :=
  List.mergeSort_perm _ _

theorem items_of_pairwise {items : List Item}
    (hitems : surface.definitions.map Item.definition ++ surface.reExports.map Item.reExport =
      items)
    (horder : items.Pairwise fun first second => first.position ≤ second.position) :
    surface.items = items := by
  rw [Surface.items, hitems]
  exact List.mergeSort_of_pairwise (horder.imp fun h => by simpa using h)

theorem items_of_perm {items : List Item}
    (horder : items.Pairwise fun first second => first.position < second.position)
    (hperm : items.Perm
      (surface.definitions.map Item.definition ++ surface.reExports.map Item.reExport)) :
    surface.items = items := by
  have hsame := surface.items_perm.trans hperm.symm
  have hplace : ∀ ⦃first⦄, first ∈ items → ∀ ⦃second⦄, second ∈ items →
      first.position = second.position → first = second := by
    refine List.Pairwise.forall_of_forall_of_flip (fun _ _ _ => rfl) ?_ ?_
    · exact horder.imp fun hlt heq => absurd heq (Int.ne_of_lt hlt)
    · exact horder.imp fun hlt heq => absurd heq.symm (Int.ne_of_lt hlt)
  refine List.Perm.eq_of_pairwise ?_ (List.pairwise_mergeSort ?_ ?_ _)
    (horder.imp fun h => by simpa using Int.le_of_lt h) hsame
  · intro first second hfirst hsecond hle hge
    exact hplace (hsame.subset hfirst) hsecond
      (Int.le_antisymm (by simpa using hle) (by simpa using hge))
  · simpa using fun (a b c : Item) hab hbc =>
      Int.le_trans (a := a.position) (b := b.position) (c := c.position) hab hbc
  · simpa using fun a b : Item => Int.le_total a.position b.position

@[simp] theorem mem_items_definition {definition : Definition} :
    Item.definition definition ∈ surface.items ↔ definition ∈ surface.definitions := by
  simp [surface.items_perm.mem_iff]

@[simp] theorem mem_items_reExport {edge : ReExport} :
    Item.reExport edge ∈ surface.items ↔ edge ∈ surface.reExports := by
  simp [surface.items_perm.mem_iff]

theorem mem_wildcards {edge : ReExport} :
    edge ∈ surface.wildcards ↔ edge ∈ surface.reExports ∧ edge.kind = .wildcard := by
  simp [wildcards]

theorem filterMap_wildcard?_items
    (horder : surface.wildcards.Pairwise fun first second => first.position ≤ second.position) :
    surface.items.filterMap Item.wildcard? = surface.wildcards := by
  have hall (edges : List ReExport) : (edges.map Item.reExport).filterMap Item.wildcard? =
      edges.filter (·.kind = .wildcard) := by
    rw [List.filterMap_map, ← List.filterMap_eq_filter]
    refine List.filterMap_congr fun edge _ => ?_
    simp [Item.wildcard?, Option.guard]
  have hnone (definitions : List Definition) :
      (definitions.map Item.definition).filterMap Item.wildcard? = [] := by
    simp [List.filterMap_map, Function.comp_def, Item.wildcard?]
  -- Sorting is stable, so wildcards in order remain a sublist of the items.
  have hsub : (surface.wildcards.map Item.reExport).Sublist surface.items := by
    refine List.sublist_mergeSort (fun a b c => ?_) (fun a b => ?_) ?_ ?_
    · simpa using fun hab hbc => Int.le_trans hab hbc
    · simpa using Int.le_total a.position b.position
    · exact List.pairwise_map.mpr (horder.imp fun h => decide_eq_true h)
    · exact (List.filter_sublist.map _).trans (List.sublist_append_right _ _)
  have hwildcards : (surface.wildcards.map Item.reExport).filterMap Item.wildcard? =
      surface.wildcards := by
    simp [hall, wildcards]
  have hlength : (surface.items.filterMap Item.wildcard?).length = surface.wildcards.length := by
    rw [(surface.items_perm.filterMap _).length_eq, List.filterMap_append, hnone, hall,
      List.nil_append, wildcards]
  have hkept := hsub.filterMap Item.wildcard?
  rw [hwildcards] at hkept
  exact (hkept.eq_of_length hlength.symm).symm

theorem filterMap_internalWildcard?_items
    (horder : surface.wildcards.Pairwise fun first second => first.position ≤ second.position) :
    surface.items.filterMap Item.internalWildcard? =
      surface.wildcards.filter fun edge => Specifier.isInternal edge.specifier := by
  rw [← filterMap_wildcard?_items horder, List.filter_filterMap]
  rfl

theorem explicitItem?_isSome_iff :
    (surface.explicitItem? name).isSome ↔
      ∃ item ∈ surface.items, item.name? = some name := by
  simp [explicitItem?]

theorem explicitItem?_eq_none_iff :
    surface.explicitItem? name = none ↔
      ∀ item ∈ surface.items, item.name? ≠ some name := by
  simp [explicitItem?]

theorem mem_items_of_explicitItem? {item : Item}
    (h : surface.explicitItem? name = some item) : item ∈ surface.items :=
  List.mem_of_find?_eq_some h

theorem name?_of_explicitItem? {item : Item}
    (h : surface.explicitItem? name = some item) : item.name? = some name := by
  simpa using List.find?_some h

/-! ## The lookups of a trace -/

theorem definitionsOf_eq_nil_of_no_item
    (h : surface.explicitItem? name = none) : surface.definitionsOf name = [] := by
  rw [explicitItem?_eq_none_iff] at h
  simp only [definitionsOf, List.filter_eq_nil_iff, Definition.isCalled, decide_eq_true_eq]
  intro definition hdefinition
  exact h (.definition definition) (mem_items_definition.mpr hdefinition)

theorem reExportOf?_eq_none_of_no_item
    (h : surface.explicitItem? name = none) : surface.reExportOf? name = none := by
  rw [explicitItem?_eq_none_iff] at h
  simp only [reExportOf?, List.find?_eq_none, decide_eq_true_eq, not_and]
  intro edge hedge hkind
  simpa [Item.name?, hkind] using h (.reExport edge) (mem_items_reExport.mpr hedge)

theorem explicitItem?_eq_none_of_lookups (hundefined : surface.definitionsOf name = [])
    (hunnamed : surface.reExportOf? name = none) : surface.explicitItem? name = none := by
  simp only [definitionsOf, List.filter_eq_nil_iff, Definition.isCalled,
    decide_eq_true_eq] at hundefined
  simp only [reExportOf?, List.find?_eq_none, decide_eq_true_eq, not_and] at hunnamed
  rw [explicitItem?_eq_none_iff]
  intro item hitem
  cases item with
  | definition d => exact hundefined d (mem_items_definition.mp hitem)
  | reExport edge =>
      rw [Item.name?]
      split
      · simp
      · rename_i hkind
        exact hunnamed edge (mem_items_reExport.mp hitem) hkind

theorem mem_of_reExportOf? {edge : ReExport} (h : surface.reExportOf? name = some edge) :
    edge ∈ surface.reExports ∧ edge.kind ≠ .wildcard ∧ edge.exportedName = some name := by
  have hedge := List.find?_some h
  simp only [decide_eq_true_eq] at hedge
  exact ⟨List.mem_of_find?_eq_some h, hedge⟩

end Surface

/-! ## Places of items -/

namespace Item

variable {items : List Item} {start : Int}

def unplaced : Item → Item
  | .definition d => .definition { d with position := 0 }
  | .reExport edge => .reExport { edge with position := 0 }

def placedAt (place : Int) : Item → Item
  | .definition d => .definition { d with position := place }
  | .reExport edge => .reExport { edge with position := place }

@[simp] theorem position_placedAt (place : Int) (item : Item) :
    (item.placedAt place).position = place := by
  cases item <;> rfl

@[simp] theorem unplaced_placedAt (place : Int) (item : Item) :
    (item.placedAt place).unplaced = item.unplaced := by
  cases item <;> rfl

def placedFrom (start : Int) : List Item → List Item
  | [] => []
  | item :: rest => item.placedAt start :: placedFrom (start + 1) rest

theorem map_unplaced_placedFrom : (placedFrom start items).map unplaced = items.map unplaced := by
  induction items generalizing start with
  | nil => rfl
  | cons item rest ih => rw [placedFrom, List.map_cons, List.map_cons, ih, unplaced_placedAt]

theorem le_position_of_mem_placedFrom {item : Item} (h : item ∈ placedFrom start items) :
    start ≤ item.position := by
  induction items generalizing start with
  | nil => cases h
  | cons first rest ih =>
      rcases List.mem_cons.mp h with rfl | hrest
      · simp
      · have hle := ih hrest
        omega

theorem pairwise_placedFrom :
    (placedFrom start items).Pairwise fun first second => first.position < second.position := by
  induction items generalizing start with
  | nil => exact .nil
  | cons first rest ih =>
      refine .cons (fun item hitem => ?_) ih
      have hle := le_position_of_mem_placedFrom hitem
      rw [position_placedAt]
      omega

def definition? : Item → Option Definition
  | .definition d => some d
  | .reExport _ => none

def reExport? : Item → Option ReExport
  | .definition _ => none
  | .reExport edge => some edge

theorem perm_split (items : List Item) :
    ((items.filterMap definition?).map definition ++
      (items.filterMap reExport?).map reExport).Perm items := by
  induction items with
  | nil => exact .nil
  | cons item rest ih =>
      cases item with
      | definition d => exact ih.cons _
      | reExport edge => exact List.perm_middle.trans (ih.cons _)

theorem exists_surface (items : List Item) :
    ∃ surface : Surface, surface.items.map unplaced = items.map unplaced := by
  refine ⟨⟨(placedFrom 0 items).filterMap definition?,
    (placedFrom 0 items).filterMap reExport?⟩, ?_⟩
  rw [Surface.items_of_perm pairwise_placedFrom (perm_split (placedFrom 0 items)).symm,
    map_unplaced_placedFrom]

end Item

end FlatExports
