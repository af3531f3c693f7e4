import FlatExports.Proofs.Resolution.Origin

/-!
The definitions of a root among its exports.

A definition of the root is exported as the root publishes it, or under its
binding after other modules have led back to it.  A declaration that carries
its export itself hides everything else of its name.
-/

namespace FlatExports.Resolution

open Resolved Collected
open Lookup (StandingFile)

variable {lookup : Lookup} {read : Survey.Reader} {root : Location} {surface : Surface}
  {entry found : Resolved} {exports : List Resolved} {lists : List (List Collected)} {left : Nat}

structure Home (root : Location) (surface : Surface) (entry : Resolved) : Prop where
  kind : entry.kind = .named
  origin : entry.origin = root.written
  internal : entry.external = false
  defined : ∃ definition ∈ surface.definitions, definition.exportName? = some entry.originName ∧
    (entry.exportedName = entry.originName ∧ entry.localName = definition.localName ∧
        entry.inline = definition.localName.isNone ∨
      entry.inline = false ∧ entry.localName = bindingOf definition)

theorem Home.groupKey (h : Home root surface entry) : entry.groupKey = .named root.written :=
  groupKey_eq_named.mpr ⟨h.kind, h.origin⟩

theorem Home.inline (h : Home root surface entry) (hinline : entry.inline = true) :
    ∃ definition ∈ surface.definitions, definition.exportName? = some entry.exportedName ∧
      definition.localName = none := by
  obtain ⟨definition, hmem, hname, ⟨hexported, -, hflag⟩ | ⟨hmoved, -⟩⟩ := h.defined
  · refine ⟨definition, hmem, hexported ▸ hname, ?_⟩
    rw [hinline] at hflag
    exact Option.isNone_iff_eq_none.mp hflag.symm
  · rw [hinline] at hmoved
    cases hmoved

theorem home_of_localExport {definition : Definition} (hmem : definition ∈ surface.definitions)
    (h : localExport root definition = .ok entry) : Home root surface entry := by
  obtain ⟨name, hname, rfl⟩ := localExport_eq_ok.mp h
  exact ⟨rfl, rfl, rfl, definition, hmem, hname, .inl ⟨rfl, rfl, rfl⟩⟩

theorem Returned.home {hop : Hop} (h : Returned (.ofLookup lookup) read root hop entry)
    (hread : read root = .ok surface) : Home root surface entry := by
  obtain ⟨surface', hread', definition, hmem, hname, hlocal⟩ := h.defined
  obtain rfl := ok_inj hread hread'
  exact ⟨h.kind, h.origin, h.internal, definition, hmem, hname, .inr ⟨h.moved, hlocal⟩⟩

theorem Home.of_asValue_eq (h : Home root surface found) (hvalue : found.asValue = entry.asValue) :
    Home root surface entry := by
  obtain ⟨typeOnly, rfl⟩ := exists_typeOnly_of_asValue_eq hvalue
  exact ⟨h.kind, h.origin, h.internal, h.defined⟩

/-- An export of the root is a definition of its own or has a source. -/
theorem home_or_sourced (hpackages : PlainPackages read) (hread : read root = .ok surface)
    (hstands : StandingFile lookup.volume root) (hleft : lookup.settings.maxDepth = left + 1)
    (hcollects : List.Forall₂ (Collects (.ofLookup lookup) read
      (expand (.ofLookup lookup) left [root] false) [root] root true) surface.items lists)
    (hmem : entry ∈ merge lists.flatten) :
    Home root surface entry ∨ Sourced lookup read root entry := by
  obtain ⟨found, hfound, hvalue⟩ := exists_of_merge hmem
  rcases collected_stems_of_root hpackages hread hstands hleft hcollects hfound with
    ⟨definition, hdefinition, hlocal⟩ | ⟨name, hreturned⟩ | hsourced
  · exact .inl ((home_of_localExport hdefinition hlocal).of_asValue_eq hvalue)
  · exact .inl ((hreturned.home hread).of_asValue_eq hvalue)
  · exact .inr (hsourced.of_asValue_eq hvalue)

/-! ## Names that stay in place -/

/-- No name is published both by an inline declaration and otherwise. -/
def Unmixed (surface : Surface) : Prop :=
  ∀ item ∈ surface.items, ∀ other ∈ surface.items, ∀ name, item.name? = some name →
    other.name? = some name → item.isInline = other.isInline

theorem inline_of_item {resolver : Resolver} {expand : Expansion} {visiting : List Location}
    {item : Item} {name : String} (hunmixed : Unmixed surface)
    (hcollects : List.Forall₂ (Collects resolver read expand visiting root true) surface.items
      lists)
    (hitem : item ∈ surface.items) (hinline : item.isInline = true) (hname : item.name? = some name)
    (hmem : entry ∈ merge lists.flatten) (hkey : entry.mergeKey = .name name) :
    entry.groupKey = .named root.written ∧ entry.inline = true := by
  have hsome : (surface.explicitItem? name).isSome :=
    Surface.explicitItem?_isSome_iff.mpr ⟨item, hitem, hname⟩
  obtain ⟨first, hfirst⟩ := Option.isSome_iff_exists.mp hsome
  have hinline' : first.isInline = true := by
    rw [← hinline]
    exact hunmixed _ (Surface.mem_items_of_explicitItem? hfirst) _ hitem name
      (Surface.name?_of_explicitItem? hfirst) hname
  have hexplicit : Option.Rel (fun item found => (itemExport resolver root item).run read =
      .ok found) (surface.explicitItem? name) (explicit? lists.flatten name) :=
    explicit?_of_collects (.inr rfl) hcollects
  rw [hfirst] at hexplicit
  generalize hshadow : explicit? lists.flatten name = shadow at hexplicit
  cases hexplicit with
  | @some _ shadow hrun =>
      have hvalue := merge_explicit hshadow hmem hkey
      cases first with
      | reExport edge => cases hinline'
      | definition definition =>
          obtain ⟨called, -, rfl⟩ := localExport_eq_ok.mp hrun
          have hkind : entry.asValue.kind = .named := by rw [hvalue]; rfl
          have horigin : entry.asValue.origin = root.written := by rw [hvalue]; rfl
          have hflag : entry.asValue.inline = definition.localName.isNone := by rw [hvalue]; rfl
          exact ⟨groupKey_eq_named.mpr ⟨hkind, horigin⟩, hflag.trans hinline'⟩

end FlatExports.Resolution
