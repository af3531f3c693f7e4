import FlatExports.Proofs.Resolution.Entries

/-!
What an expansion provides.

An expansion works from the bottom up and merges at every level.  Still it
gives each name the provider that a search from the top finds, and passes on
each package that wildcards lead to once.
-/

namespace FlatExports.Resolution

open Relation Resolved Collected

variable {resolver : Resolver} {read : Survey.Reader} {name package : String}
  {expand : Expansion} {path : List Location} {module : Location} {includeDefault : Bool}
  {items : List Item} {lists : List (List Collected)} {exports : List Resolved}

def Supplies (resolver : Resolver) (read : Survey.Reader) (provider : Provider)
    (symbol : Resolved) : Prop :=
  ∃ found, (itemExport resolver provider.module provider.item).run read = .ok found ∧
    found.asValue = symbol

def PassesOn (read : Survey.Reader) (package : String) (module : Location) : Prop :=
  ∃ surface, read module = .ok surface ∧
    ∃ edge ∈ surface.wildcards, Specifier.isInternal edge.specifier = false ∧
      edge.specifier = package

/-! ## Wildcards -/

theorem targetsOf_cons {item : Item} {targets : List Location}
    (hitem : item.internalWildcard? = none)
    (hrest : targetsOf resolver module items = .ok targets) :
    targetsOf resolver module (item :: items) = .ok targets := by
  rw [targetsOf, List.filterMap_cons_none hitem]
  exact hrest

theorem targetsOf_cons_internal {edge : ReExport} {target : Location} {targets : List Location}
    (hkind : edge.kind = .wildcard) (hinternal : Specifier.isInternal edge.specifier = true)
    (hlocate : resolver.locate edge.specifier module = .ok target)
    (hrest : targetsOf resolver module items = .ok targets) :
    targetsOf resolver module (.reExport edge :: items) = .ok (target :: targets) := by
  have hitem : (Item.reExport edge).internalWildcard? = some edge :=
    Item.internalWildcard?_eq_some.mpr ⟨rfl, hkind, hinternal⟩
  rw [targetsOf, List.filterMap_cons_some hitem, mapM_eq_ok]
  exact .cons hlocate (mapM_eq_ok.mp hrest)

theorem finds_of_wildcard {edge : ReExport} {targets : List Location} {found : Option Provider}
    {behind : Option Resolved}
    (hexpand : ∀ target inner, target ∉ path → (expand target).run read = .ok inner →
      ∃ found, Finds resolver read name path target found ∧
        Option.Rel (Supplies resolver read) found (symbolOf inner (.name name)))
    (hkind : edge.kind = .wildcard)
    (hrun : (expandWildcard resolver expand path module edge).run read = .ok exports)
    (htargets : targetsOf resolver module items = .ok targets)
    (hfinds : FindsAmong resolver read name path targets found)
    (hsupplies : Option.Rel (Supplies resolver read) found behind) :
    ∃ targets found, targetsOf resolver module (.reExport edge :: items) = .ok targets ∧
      FindsAmong resolver read name path targets found ∧
      Option.Rel (Supplies resolver read) found ((symbolOf exports (.name name)).or behind) := by
  have hexpansion := expandWildcard_eq_ok.mp hrun
  split at hexpansion
  · rename_i hinternal
    obtain ⟨target, hlocate, hexports⟩ := hexpansion
    have hmore := targetsOf_cons_internal hkind hinternal hlocate htargets
    split at hexports
    · rename_i hpath
      subst hexports
      exact ⟨_, found, hmore, .pass (fun hfresh => absurd hpath hfresh) hfinds, hsupplies⟩
    · rename_i hfresh
      obtain ⟨inner, hinner, hexports⟩ := hexports
      have hsymbol : symbolOf exports (.name name) = symbolOf inner (.name name) := by
        rw [hexports]
        split
        · exact symbolOf_map_asType
        · rfl
      rw [hsymbol]
      obtain ⟨first, hfirst, hrel⟩ := hexpand target inner hfresh hinner
      generalize symbolOf inner (.name name) = symbol at hrel ⊢
      cases hrel with
      | none => exact ⟨_, found, hmore, .pass (fun _ => hfirst) hfinds, hsupplies⟩
      | some hsome => exact ⟨_, _, hmore, .first hfresh hfirst, .some hsome⟩
  · rename_i hexternal
    subst hexpansion
    refine ⟨targets, found, targetsOf_cons ?_ htargets, hfinds, ?_⟩
    · simp [Item.internalWildcard?, Item.wildcard?, hkind, hexternal]
    · simpa [symbolOf_cons, packageWildcard, mergeKey] using hsupplies

theorem finds_of_collects (hnone : ∀ item ∈ items, item.name? ≠ some name)
    (hexpand : ∀ target inner, target ∉ path → (expand target).run read = .ok inner →
      ∃ found, Finds resolver read name path target found ∧
        Option.Rel (Supplies resolver read) found (symbolOf inner (.name name)))
    (hcollects : List.Forall₂ (Collects resolver read expand path module includeDefault)
      items lists) :
    ∃ targets found, targetsOf resolver module items = .ok targets ∧
      FindsAmong resolver read name path targets found ∧
      Option.Rel (Supplies resolver read) found
        (symbolOf (exportsOfAll lists.flatten) (.name name)) := by
  induction hcollects with
  | nil => exact ⟨[], none, rfl, .nil, .none⟩
  | @cons item entries items lists hfirst _ ih =>
      rw [List.forall_mem_cons] at hnone
      obtain ⟨targets, found, htargets, hfinds, hsupplies⟩ := ih hnone.2
      rw [List.flatten_cons, exportsOfAll, List.map_append, symbolOf_append]
      cases hfirst with
      | @explicit _ export_ hitem _ hrun =>
          obtain ⟨hpublished, hkey⟩ := mergeKey_of_itemExport hitem hrun
          have hother : export_.exportedName ≠ name := fun h => hnone.1 (h ▸ hpublished)
          refine ⟨targets, found, targetsOf_cons (by simp [Item.internalWildcard?, hitem]) htargets,
            hfinds, ?_⟩
          simpa [symbolOf_cons, hkey, hother] using hsupplies
      | excluded hitem =>
          refine ⟨targets, found, targetsOf_cons (by simp [Item.internalWildcard?, hitem]) htargets,
            hfinds, ?_⟩
          simpa using hsupplies
      | wildcard hkind hrun =>
          rw [← exportsOfAll, exportsOfAll_viaWildcard]
          exact finds_of_wildcard hexpand hkind hrun htargets hfinds hsupplies

/-! ## Expansions -/

/-- The symbol of a name in an expansion comes from the provider that the search finds. -/
theorem expand_finds {left : Nat} (hname : name ≠ defaultName)
    (hrun : (Resolution.expand resolver left path includeDefault module).run read =
      .ok exports) :
    ∃ found, Finds resolver read name path module found ∧
      Option.Rel (Supplies resolver read) found (symbolOf exports (.name name)) := by
  induction left generalizing path module includeDefault exports with
  | zero => cases hrun
  | succ left ih =>
      obtain ⟨further, surface, lists, hleft, hread, hcollects, rfl⟩ := expand_eq_ok.mp hrun
      cases hleft
      rw [symbolOf_merge, symbolOf_visible_name]
      have hexplicit := explicit?_of_collects (.inl hname) hcollects
      rw [← Surface.explicitItem?] at hexplicit
      cases hitem : surface.explicitItem? name with
      | some item =>
          rw [hitem] at hexplicit
          generalize explicit? lists.flatten name = shadow at hexplicit
          cases hexplicit with
          | some hrun => exact ⟨_, .here hread hitem, .some ⟨_, hrun, rfl⟩⟩
      | none =>
          rw [hitem] at hexplicit
          generalize explicit? lists.flatten name = shadow at hexplicit
          cases hexplicit
          rw [Option.map_none, Option.none_or]
          obtain ⟨targets, found, htargets, hfinds, hsupplies⟩ := finds_of_collects
            (Surface.explicitItem?_eq_none_iff.mp hitem) (fun _ _ _ hinner => ih hinner) hcollects
          exact ⟨found, .of_targets hread hitem htargets hfinds, hsupplies⟩

/-! ## Packages -/

theorem offers_package_iff :
    Offers read (.package package) includeDefault module ↔ PassesOn read package module := by
  have hkey (item : Item) : offeredKey? includeDefault item = some (.package package) ↔
      ∃ edge, item = .reExport edge ∧ edge.kind = .wildcard ∧
        Specifier.isInternal edge.specifier = false ∧ edge.specifier = package := by
    unfold offeredKey?
    split
    · rename_i edge hwildcard
      obtain ⟨rfl, hkind⟩ := Item.wildcard?_eq_some.mp hwildcard
      simp [hkind]
    · rename_i hexplicit
      constructor
      · intro hkey
        split at hkey
        · simp at hkey
        · cases hkey
      · rintro ⟨edge, rfl, hkind, -⟩
        simp [Item.wildcard?, hkind] at hexplicit
  simp only [Offers, PassesOn, hkey, Surface.mem_wildcards]
  refine exists_congr fun surface => and_congr_right fun _ => ?_
  constructor
  · rintro ⟨_, hitem, edge, rfl, hkind, hexternal, hpackage⟩
    exact ⟨edge, ⟨Surface.mem_items_reExport.mp hitem, hkind⟩, hexternal, hpackage⟩
  · rintro ⟨edge, ⟨hmem, hkind⟩, hexternal, hpackage⟩
    exact ⟨_, Surface.mem_items_reExport.mpr hmem, edge, rfl, hkind, hexternal, hpackage⟩

theorem expand_package {left : Nat} (package : String)
    (hrun : (Resolution.expand resolver left path includeDefault module).run read =
      .ok exports) :
    (symbolOf exports (.package package)).isSome ↔
      ∃ other, ReflTransGen (Around (Forwards resolver read) path) module other ∧
        PassesOn read package other := by
  rw [symbolOf_isSome_iff, expand_offers hrun]
  simp only [Within, offers_package_iff]
  exact or_iff_right_of_imp fun hpasses => ⟨module, .refl, hpasses⟩

/-! ## The exports of a root -/

theorem nodup_mergeKey_of_expand {left : Nat}
    (hrun : (Resolution.expand resolver left path includeDefault module).run read =
      .ok exports) : (exports.map mergeKey).Nodup := by
  obtain ⟨further, surface, lists, -, -, -, rfl⟩ := expand_eq_ok.mp hrun
  exact nodup_mergeKey_merge

/--
The exports of a root are exactly the names that its internal wildcards lead
to, each once and as the search provides it, and exactly the packages that they
pass on, each once.
-/
theorem exportsOf_provides {lookup : Lookup} {root : Location}
    (hrun : (exportsOf lookup root).run read = .ok exports) :
    (∀ name, name ≠ defaultName →
      ((∃ entry ∈ exports, entry.kind ≠ .wildcard ∧ entry.exportedName = name) ↔
        ∃ module, ReflTransGen (Forwards (.ofLookup lookup) read)
            (lookup.volume.resolve root) module ∧ ExportsName read name module) ∧
      (∃! found, Finds (.ofLookup lookup) read name [] (lookup.volume.resolve root) found) ∧
      (∀ entry ∈ exports, entry.kind ≠ .wildcard → entry.exportedName = name →
        ∃ provider export_,
          Finds (.ofLookup lookup) read name [] (lookup.volume.resolve root) (some provider) ∧
          (itemExport (.ofLookup lookup) provider.module provider.item).run read = .ok export_ ∧
          entry.provenance = export_.provenance) ∧
      exports.countP (fun entry => entry.kind ≠ .wildcard ∧ entry.exportedName = name) ≤ 1) ∧
    ∀ package,
      ((∃ module, ReflTransGen (Forwards (.ofLookup lookup) read)
            (lookup.volume.resolve root) module ∧ PassesOn read package module) →
        exports.countP (fun entry => entry.kind = .wildcard ∧ entry.origin = package) = 1) ∧
      ((¬∃ module, ReflTransGen (Forwards (.ofLookup lookup) read)
            (lookup.volume.resolve root) module ∧ PassesOn read package module) →
        exports.countP (fun entry => entry.kind = .wildcard ∧ entry.origin = package) = 0) := by
  have hkeys := nodup_mergeKey_of_expand hrun
  constructor
  · intro name hname
    obtain ⟨found, hfinds, hsupplies⟩ := expand_finds hname hrun
    have hreach := hfinds.isSome_iff
    rw [around_nil] at hreach
    have hentries : (∃ entry ∈ exports, entry.kind ≠ .wildcard ∧ entry.exportedName = name) ↔
        found.isSome := by
      simp only [← mergeKey_eq_name, ← symbolOf_isSome_iff]
      generalize symbolOf exports (.name name) = symbol at hsupplies ⊢
      cases hsupplies <;> simp
    refine ⟨hentries.trans hreach, ⟨found, hfinds, fun other hother => hother.unique hfinds⟩, ?_, ?_⟩
    · intro entry hentry hkind hexported
      have hsymbol := symbolOf_of_mem hkeys hentry
      rw [mergeKey_eq_name.mpr ⟨hkind, hexported⟩] at hsymbol
      rw [hsymbol] at hsupplies
      generalize hvalue : entry.asValue = symbol at hsupplies
      cases hsupplies with
      | @some provider _ hsome =>
          obtain ⟨export_, hitem, rfl⟩ := hsome
          exact ⟨provider, export_, hfinds, hitem, by simpa using congrArg provenance hvalue⟩
    · simp only [← mergeKey_eq_name]
      rw [countP_mergeKey hkeys]
      split <;> simp
  · intro package
    have hpackage := expand_package package hrun
    rw [around_nil] at hpackage
    simp only [← mergeKey_eq_package]
    rw [countP_mergeKey hkeys, ← hpackage]
    exact ⟨fun h => if_pos h, fun h => if_neg h⟩

theorem exportsOf_crossedBarrels :
    (exportsOf crossedBarrels (.ofPath "/proj/barrel.ts")).run
        (Module.loadSurface crossedBarrels.volume) =
      .ok [⟨"n", "/proj/origin.ts", "n", false, .named, false, some "n", false⟩] := by
  have hread : Module.loadSurface crossedBarrels.volume (.ofPath "/proj/barrel.ts") = .ok
      ⟨[], [Module.wildcardEdge "./crossing" false 0, Module.wildcardEdge "./origin" false 28]⟩ := by
    decide +kernel
  have hroot : crossedBarrels.volume.resolve (.ofPath "/proj/barrel.ts") =
      .ofPath "/proj/barrel.ts" := by decide +kernel
  have hcrossing : (collectItem (.ofLookup crossedBarrels)
      (Resolution.expand (.ofLookup crossedBarrels) 255 [.ofPath "/proj/barrel.ts"] false)
      [.ofPath "/proj/barrel.ts"] (.ofPath "/proj/barrel.ts") true
      (.reExport (Module.wildcardEdge "./crossing" false 0))).run
        (Module.loadSurface crossedBarrels.volume) =
      .ok [⟨⟨"n", "/proj/origin.ts", "n", true, .named, false, some "n", false⟩, true⟩] := by
    decide +kernel
  have horigin : (collectItem (.ofLookup crossedBarrels)
      (Resolution.expand (.ofLookup crossedBarrels) 255 [.ofPath "/proj/barrel.ts"] false)
      [.ofPath "/proj/barrel.ts"] (.ofPath "/proj/barrel.ts") true
      (.reExport (Module.wildcardEdge "./origin" false 28))).run
        (Module.loadSurface crossedBarrels.volume) =
      .ok [⟨⟨"n", "/proj/origin.ts", "n", false, .named, false, none, true⟩, true⟩] := by
    decide +kernel
  rw [exportsOf, hroot]
  exact expand_of_items hread (Surface.items_of_pairwise rfl (by decide))
    (.cons hcrossing (.cons horigin .nil))

/-- A name is provided by a module that leads back to the root. -/
theorem exportsOf_provides_crossedBarrels :
    ∃ module, ReflTransGen (Forwards (.ofLookup crossedBarrels)
        (Module.loadSurface crossedBarrels.volume))
        (crossedBarrels.volume.resolve (.ofPath "/proj/barrel.ts")) module ∧
      ExportsName (Module.loadSurface crossedBarrels.volume) "n" module := by
  obtain ⟨hnames, -⟩ := exportsOf_provides exportsOf_crossedBarrels
  exact (hnames "n" (by decide)).1.mp ⟨_, List.mem_cons_self, by decide, rfl⟩

end FlatExports.Resolution
