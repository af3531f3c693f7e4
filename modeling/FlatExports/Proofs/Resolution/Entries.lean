import FlatExports.Proofs.Resolution.Collection
import FlatExports.Proofs.Resolution.Search

/-!
What the entries of an expansion go back to.

Every export of a module is one that an item of the module itself stands for,
or an item of a module that wildcards lead to and that is not of its default
slot.  The other way round, each such item leaves an export of its key.
-/

namespace FlatExports.Resolution

open Relation Resolved Collected

variable {resolver : Resolver} {read : Survey.Reader} {path : List Location}
  {module target : Location} {includeDefault : Bool} {left : Nat} {surface : Surface}
  {lists : List (List Collected)} {exports : List Resolved} {entry : Resolved}

/-! ## Modules around a path -/

def Within (resolver : Resolver) (read : Survey.Reader) (path : List Location)
    (includeDefault : Bool) (module : Location) (holds : Bool → Location → Prop) : Prop :=
  holds includeDefault module ∨
    ∃ other, ReflTransGen (Around (Forwards resolver read) path) module other ∧ holds false other

namespace Within

variable {holds holds' : Bool → Location → Prop}

theorem imp (himp : ∀ includeDefault module, holds includeDefault module →
      holds' includeDefault module)
    (h : Within resolver read path includeDefault module holds) :
    Within resolver read path includeDefault module holds' :=
  Or.imp (himp _ _) (fun ⟨other, hpath, hholds⟩ => ⟨other, hpath, himp _ _ hholds⟩) h

theorem exists_path (h : Within resolver read path false module holds) :
    ∃ other, ReflTransGen (Around (Forwards resolver read) path) module other ∧
      holds false other :=
  h.elim (fun hholds => ⟨module, .refl, hholds⟩) id

theorem forwards (hstep : Forwards resolver read module target) (hfresh : target ∉ module :: path)
    (h : Within resolver read (module :: path) false target holds) :
    Within resolver read path includeDefault module holds := by
  refine .inr ?_
  rcases h with hholds | ⟨other, hpath, hholds⟩
  · exact ⟨target, reflTransGen_around_iff.mpr (.inr ⟨target, hstep, hfresh, .refl⟩), hholds⟩
  · exact ⟨other, reflTransGen_around_iff.mpr (.inr ⟨target, hstep, hfresh, hpath⟩), hholds⟩

theorem here_or_forwards (hmono : holds false module → holds includeDefault module)
    (h : Within resolver read path includeDefault module holds) :
    holds includeDefault module ∨ ∃ target, Forwards resolver read module target ∧
      target ∉ module :: path ∧ Within resolver read (module :: path) false target holds := by
  rcases h with hholds | ⟨other, hpath, hholds⟩
  · exact .inl hholds
  · rcases reflTransGen_around_iff.mp hpath with rfl | ⟨target, hstep, hfresh, hrest⟩
    · exact .inl (hmono hholds)
    · exact .inr ⟨target, hstep, hfresh, .inr ⟨other, hrest, hholds⟩⟩

end Within

/-! ## From the entries to the items -/

/-- What a module adds by an item of its own: the export of an explicit item that is passed on, or
the wildcard of a package. -/
inductive Contributes (resolver : Resolver) (read : Survey.Reader) (entry : Resolved)
    (includeDefault : Bool) (module : Location) : Prop
  | explicit {surface : Surface} {item : Item}
      (hread : read module = .ok surface)
      (hitem : item ∈ surface.items)
      (hexplicit : item.wildcard? = none)
      (hpassed : includeDefault ∨ ¬isDefault item)
      (hrun : (itemExport resolver module item).run read = .ok entry)
  | package {surface : Surface} {edge : ReExport}
      (hread : read module = .ok surface)
      (hedge : edge ∈ surface.wildcards)
      (hexternal : Specifier.isInternal edge.specifier = false)
      (hentry : entry = packageWildcard edge.specifier edge.typeOnly)

theorem mem_of_expandWildcard {expand : Expansion} {edge : ReExport}
    (hrun : (expandWildcard resolver expand path module edge).run read = .ok exports)
    (hentry : entry ∈ exports) :
    (Specifier.isInternal edge.specifier = true ∧ ∃ target inner,
      resolver.locate edge.specifier module = .ok target ∧ target ∉ path ∧
        (expand target).run read = .ok inner ∧ ∃ found ∈ inner, found.asValue = entry.asValue) ∨
    (Specifier.isInternal edge.specifier = false ∧
      entry = packageWildcard edge.specifier edge.typeOnly) := by
  have hexpansion := expandWildcard_eq_ok.mp hrun
  split at hexpansion
  · rename_i hinternal
    obtain ⟨target, hlocate, hexports⟩ := hexpansion
    split at hexports
    · rw [hexports] at hentry
      cases hentry
    · rename_i hfresh
      obtain ⟨inner, hinner, hexports⟩ := hexports
      refine .inl ⟨hinternal, target, inner, hlocate, hfresh, hinner, ?_⟩
      rw [hexports] at hentry
      split at hentry
      · obtain ⟨found, hfound, rfl⟩ := List.mem_map.mp hentry
        exact ⟨found, hfound, rfl⟩
      · exact ⟨entry, hentry, rfl⟩
  · rename_i hexternal
    rw [hexpansion, List.mem_singleton] at hentry
    exact .inr ⟨by simpa using hexternal, hentry⟩

theorem collected_stems {expand : Expansion}
    (hexpand : ∀ target inner, (expand target).run read = .ok inner → ∀ entry ∈ inner,
      ∃ source, source.asValue = entry.asValue ∧
        Within resolver read (module :: path) false target (Contributes resolver read source))
    (hread : read module = .ok surface)
    (hcollects : List.Forall₂ (Collects resolver read expand (module :: path) module
      includeDefault) surface.items lists)
    (hentry : entry ∈ exportsOfAll lists.flatten) :
    ∃ source, source.asValue = entry.asValue ∧
      Within resolver read path includeDefault module (Contributes resolver read source) := by
  obtain ⟨entries, hentries, hmem⟩ := mem_collected.mp hentry
  obtain ⟨item, hitem, hfirst⟩ := exists_left_of_forall₂ hcollects hentries
  cases hfirst with
  | explicit hexplicit hpassed hrun =>
      rw [exportsOfAll, List.map_singleton, List.mem_singleton] at hmem
      subst hmem
      exact ⟨entry, rfl, .inl (.explicit hread hitem hexplicit hpassed hrun)⟩
  | excluded => cases hmem
  | @wildcard edge inner hkind hrun =>
      rw [exportsOfAll_viaWildcard] at hmem
      have hedge := Surface.mem_wildcards.mpr ⟨Surface.mem_items_reExport.mp hitem, hkind⟩
      rcases mem_of_expandWildcard hrun hmem with
        ⟨hinternal, target, inner, hlocate, hfresh, hinner, found, hfound, hvalue⟩ |
          ⟨hexternal, hentry⟩
      · obtain ⟨source, hsource, hwithin⟩ := hexpand target inner hinner found hfound
        have hstep : Forwards resolver read module target :=
          ⟨surface, hread, edge, hedge, hinternal, hlocate⟩
        exact ⟨source, hsource.trans hvalue, hwithin.forwards hstep hfresh⟩
      · exact ⟨entry, rfl, .inl (.package hread hedge hexternal hentry)⟩

theorem expand_stems
    (hrun : (Resolution.expand resolver left path includeDefault module).run read = .ok exports)
    (hentry : entry ∈ exports) :
    ∃ source, source.asValue = entry.asValue ∧
      Within resolver read path includeDefault module (Contributes resolver read source) := by
  induction left generalizing path module includeDefault exports entry with
  | zero => cases hrun
  | succ left ih =>
      obtain ⟨further, surface, lists, hleft, hread, hcollects, rfl⟩ := expand_eq_ok.mp hrun
      cases hleft
      obtain ⟨found, hfound, hvalue⟩ := exists_of_merge hentry
      obtain ⟨source, hsource, hwithin⟩ := collected_stems
        (fun _ _ hinner _ hentry => ih hinner hentry) hread hcollects hfound
      exact ⟨source, hsource.trans hvalue, hwithin⟩

/-! ## From the items to the entries -/

def offeredKey? (includeDefault : Bool) (item : Item) : Option MergeKey :=
  match item.wildcard? with
  | some edge => if Specifier.isInternal edge.specifier then none else some (.package edge.specifier)
  | none => if includeDefault ∨ ¬isDefault item then item.name?.map .name else none

theorem offeredKey?_explicit {item : Item} (hexplicit : item.wildcard? = none)
    (hpassed : includeDefault ∨ ¬isDefault item) :
    offeredKey? includeDefault item = item.name?.map .name := by
  simp only [offeredKey?, hexplicit]
  exact if_pos hpassed

def Offers (read : Survey.Reader) (key : MergeKey) (includeDefault : Bool) (module : Location) :
    Prop :=
  ∃ surface, read module = .ok surface ∧
    ∃ item ∈ surface.items, offeredKey? includeDefault item = some key

theorem Contributes.offers (h : Contributes resolver read entry includeDefault module) :
    Offers read entry.mergeKey includeDefault module := by
  cases h with
  | @explicit surface item hread hitem hexplicit hpassed hrun =>
      obtain ⟨hname, hkey⟩ := mergeKey_of_itemExport hexplicit hrun
      refine ⟨surface, hread, item, hitem, ?_⟩
      rw [offeredKey?_explicit hexplicit hpassed, hname, hkey]
      rfl
  | @package surface edge hread hedge hexternal hentry =>
      obtain ⟨hmem, hkind⟩ := Surface.mem_wildcards.mp hedge
      refine ⟨surface, hread, _, Surface.mem_items_reExport.mpr hmem, ?_⟩
      simp [offeredKey?, Item.wildcard?, hkind, hexternal, hentry, packageWildcard, mergeKey]

theorem Offers.mono {key : MergeKey} (h : Offers read key false module) :
    Offers read key includeDefault module := by
  obtain ⟨surface, hread, item, hitem, hkey⟩ := h
  refine ⟨surface, hread, item, hitem, ?_⟩
  unfold offeredKey? at hkey ⊢
  split at hkey
  · exact hkey
  · split at hkey
    · rename_i hpassed
      rw [if_pos (.inr (by simpa using hpassed))]
      exact hkey
    · cases hkey

theorem mergeKey_mem_of_merge {collected : List Collected} {found : Resolved}
    (hfound : found ∈ exportsOfAll collected) :
    ∃ entry ∈ merge collected, entry.mergeKey = found.mergeKey := by
  have hsome : (symbolOf (exportsOfAll collected) found.mergeKey).isSome :=
    symbolOf_isSome_iff.mpr ⟨found, hfound, rfl⟩
  rw [← symbolOf_isSome_iff, symbolOf_merge]
  cases hkey : found.mergeKey with
  | name name =>
      rw [hkey] at hsome
      rw [symbolOf_visible_name, Option.isSome_or, hsome, Bool.or_true]
  | package package =>
      rw [hkey] at hsome
      rw [symbolOf_visible_package, hsome]

section

variable {expand : Expansion} {key : MergeKey} {entries : List Collected}

theorem collects_offered {item : Item}
    (hcollects : Collects resolver read expand path module includeDefault item entries)
    (hkey : offeredKey? includeDefault item = some key) :
    ∃ found ∈ exportsOfAll entries, found.mergeKey = key := by
  cases hcollects with
  | @explicit _ found hexplicit hpassed hrun =>
      obtain ⟨hname, hfound⟩ := mergeKey_of_itemExport hexplicit hrun
      rw [offeredKey?_explicit hexplicit hpassed, hname] at hkey
      exact ⟨found, by simp [exportsOfAll], hfound.trans (Option.some.inj hkey)⟩
  | excluded hexplicit hdefault hexcluded =>
      simp [offeredKey?, hexplicit, hdefault, hexcluded] at hkey
  | @wildcard edge inner hkind hrun =>
      have hexpansion := expandWildcard_eq_ok.mp hrun
      simp only [offeredKey?, Item.wildcard?, hkind, if_true] at hkey
      split at hkey
      · cases hkey
      · rename_i hexternal
        rw [if_neg hexternal] at hexpansion
        refine ⟨packageWildcard edge.specifier edge.typeOnly, ?_, ?_⟩
        · rw [exportsOfAll_viaWildcard, hexpansion]
          exact List.mem_singleton_self _
        · simpa [packageWildcard, mergeKey] using hkey

theorem collects_below {edge : ReExport} (hkind : edge.kind = .wildcard)
    (hinternal : Specifier.isInternal edge.specifier = true)
    (hlocate : resolver.locate edge.specifier module = .ok target) (hfresh : target ∉ path)
    (hbelow : ∀ inner, (expand target).run read = .ok inner →
      ∃ found ∈ inner, found.mergeKey = key)
    (hcollects : Collects resolver read expand path module includeDefault (.reExport edge)
      entries) :
    ∃ found ∈ exportsOfAll entries, found.mergeKey = key := by
  cases hcollects with
  | explicit hexplicit | excluded hexplicit => simp [Item.wildcard?, hkind] at hexplicit
  | wildcard _ hrun =>
      have hexpansion := expandWildcard_eq_ok.mp hrun
      rw [if_pos hinternal] at hexpansion
      obtain ⟨target', hlocate', hexports⟩ := hexpansion
      obtain rfl := ok_inj hlocate hlocate'
      rw [if_neg hfresh] at hexports
      obtain ⟨inner, hinner, hexports⟩ := hexports
      obtain ⟨found, hfound, hkey⟩ := hbelow inner hinner
      rw [exportsOfAll_viaWildcard, hexports]
      split
      · exact ⟨found.asType, List.mem_map_of_mem hfound, hkey⟩
      · exact ⟨found, hfound, hkey⟩

end

theorem expand_covers {key : MergeKey}
    (hrun : (Resolution.expand resolver left path includeDefault module).run read = .ok exports)
    (hwithin : Within resolver read path includeDefault module (Offers read key)) :
    ∃ entry ∈ exports, entry.mergeKey = key := by
  induction left generalizing path module includeDefault exports with
  | zero => cases hrun
  | succ left ih =>
      obtain ⟨further, surface, lists, hleft, hread, hcollects, rfl⟩ := expand_eq_ok.mp hrun
      cases hleft
      have hcollected : ∃ entries ∈ lists,
          ∃ found ∈ exportsOfAll entries, found.mergeKey = key := by
        -- The rest of a path that leaves the module keeps clear of it, as the expansion below does.
        rcases hwithin.here_or_forwards Offers.mono with
          ⟨surface', hread', item, hitem, hkey⟩ | ⟨target, hstep, hfresh, hbelow⟩
        · obtain rfl := ok_inj hread hread'
          obtain ⟨entries, hentries, hfirst⟩ := exists_right_of_forall₂ hcollects hitem
          exact ⟨entries, hentries, collects_offered hfirst hkey⟩
        · obtain ⟨surface', hread', edge, hedge, hinternal, hlocate⟩ := hstep
          obtain rfl := ok_inj hread hread'
          obtain ⟨hmem, hkind⟩ := Surface.mem_wildcards.mp hedge
          obtain ⟨entries, hentries, hfirst⟩ :=
            exists_right_of_forall₂ hcollects (Surface.mem_items_reExport.mpr hmem)
          exact ⟨entries, hentries, collects_below hkind hinternal hlocate hfresh
            (fun inner hinner => ih hinner hbelow) hfirst⟩
      obtain ⟨entries, hentries, found, hfound, rfl⟩ := hcollected
      exact mergeKey_mem_of_merge (mem_collected.mpr ⟨entries, hentries, hfound⟩)

/-- The keys of an expansion are those that its items and those of its wildcards offer. -/
theorem expand_offers {key : MergeKey}
    (hrun : (Resolution.expand resolver left path includeDefault module).run read = .ok exports) :
    (∃ entry ∈ exports, entry.mergeKey = key) ↔
      Within resolver read path includeDefault module (Offers read key) := by
  constructor
  · rintro ⟨entry, hentry, rfl⟩
    obtain ⟨source, hsource, hwithin⟩ := expand_stems hrun hentry
    rw [← mergeKey_eq_of_asValue_eq hsource]
    exact hwithin.imp fun _ _ => Contributes.offers
  · exact expand_covers hrun

/-! ## The default slot -/

theorem mergeKey_of_expand {name : String} (hname : name ≠ wildcardName)
    (hrun : (Resolution.expand resolver left path includeDefault module).run read = .ok exports)
    (hentry : entry ∈ exports) :
    entry.exportedName = name ↔ entry.mergeKey = .name name := by
  obtain ⟨source, hvalue, hwithin⟩ := expand_stems hrun hentry
  have hexported : source.asValue.exportedName = entry.asValue.exportedName := by rw [hvalue]
  change source.exportedName = entry.exportedName at hexported
  have hkey : source.mergeKey = .name source.exportedName ∨
      source.exportedName = wildcardName := by
    have hcontributes : ∃ includeDefault module,
        Contributes resolver read source includeDefault module :=
      hwithin.elim (fun h => ⟨_, _, h⟩) fun ⟨_, _, h⟩ => ⟨_, _, h⟩
    obtain ⟨_, _, hcontributes⟩ := hcontributes
    cases hcontributes with
    | explicit _ _ hexplicit _ hrun => exact .inl (mergeKey_of_itemExport hexplicit hrun).2
    | package _ _ _ hsource => exact .inr (by rw [hsource, packageWildcard])
  rw [← mergeKey_eq_of_asValue_eq hvalue, ← hexported]
  rcases hkey with hkey | hkey
  · rw [hkey, MergeKey.name.injEq]
  · constructor
    · intro hsource
      exact absurd (hsource.symm.trans hkey) hname
    · exact fun h => (mergeKey_eq_name.mp h).2

/-- A module publishes the default name by an item that is not of its default slot: a namespace,
or a declaration of that name. -/
def PassesDefaultOn (read : Survey.Reader) (module : Location) : Prop :=
  ∃ surface, read module = .ok surface ∧
    ∃ item ∈ surface.items, item.name? = some defaultName ∧ ¬isDefault item

theorem offers_default_iff : Offers read (.name defaultName) includeDefault module ↔
    if includeDefault then ExportsName read defaultName module else PassesDefaultOn read module := by
  have hkey (item : Item) : offeredKey? includeDefault item = some (.name defaultName) ↔
      item.name? = some defaultName ∧ (includeDefault ∨ ¬isDefault item) := by
    unfold offeredKey?
    split
    · rename_i edge hwildcard
      obtain ⟨rfl, hkind⟩ := Item.wildcard?_eq_some.mp hwildcard
      split <;> simp [Item.name?, hkind]
    · split
      · rename_i hpassed
        rw [and_iff_left hpassed]
        simp
      · rename_i hexcluded
        simp only [hexcluded, and_false, reduceCtorEq]
  cases includeDefault with
  | true => simp [Offers, ExportsName, hkey]
  | false => simp [Offers, PassesDefaultOn, hkey]

/--
A root exports a default exactly if one of its own items publishes it, or if a
module that internal wildcards lead to publishes it outside its default slot.
No default definition and no re-export as the default gets through a wildcard,
but namespaces do.
-/
theorem default_exported_iff {lookup : Lookup} {root : Location}
    (hrun : (exportsOf lookup root).run read = .ok exports) :
    (∃ entry ∈ exports, entry.exportedName = defaultName) ↔
      ExportsName read defaultName (lookup.volume.resolve root) ∨
        ∃ module, ReflTransGen (Forwards (.ofLookup lookup) read)
          (lookup.volume.resolve root) module ∧ PassesDefaultOn read module := by
  have hnamed : (∃ entry ∈ exports, entry.exportedName = defaultName) ↔
      ∃ entry ∈ exports, entry.mergeKey = .name defaultName :=
    exists_congr fun _ => and_congr_right fun hentry =>
      mergeKey_of_expand (by decide) hrun hentry
  rw [hnamed, expand_offers hrun, Within, around_nil]
  simp only [offers_default_iff, if_true, Bool.false_eq_true, if_false]

def namespaceBarrel : Lookup where
  settings := .default
  volume := .ofTexts
    [("/proj/barrel.ts", "export * from './inner';"),
      ("/proj/inner.ts", "export * as default from './origin';"),
      ("/proj/origin.ts", "export const x = 1;")]

theorem barrel_namespaceBarrel :
    Module.loadSurface namespaceBarrel.volume (.ofPath "/proj/barrel.ts") =
      .ok ⟨[], [Module.wildcardEdge "./inner" false 0]⟩ := by
  decide +kernel

theorem exportsOf_namespaceBarrel :
    (exportsOf namespaceBarrel (.ofPath "/proj/barrel.ts")).run
        (Module.loadSurface namespaceBarrel.volume) =
      .ok [⟨"default", "/proj/origin.ts", "*", false, .namespaced, false, none, false⟩] := by
  have hroot : namespaceBarrel.volume.resolve (.ofPath "/proj/barrel.ts") =
      .ofPath "/proj/barrel.ts" := by decide +kernel
  have hinner : (collectItem (.ofLookup namespaceBarrel)
      (Resolution.expand (.ofLookup namespaceBarrel) 255 [.ofPath "/proj/barrel.ts"] false)
      [.ofPath "/proj/barrel.ts"] (.ofPath "/proj/barrel.ts") true
      (.reExport (Module.wildcardEdge "./inner" false 0))).run
        (Module.loadSurface namespaceBarrel.volume) =
      .ok [⟨⟨"default", "/proj/origin.ts", "*", false, .namespaced, false, none, false⟩, true⟩] := by
    decide +kernel
  rw [exportsOf, hroot]
  exact expand_of_items barrel_namespaceBarrel (Surface.items_of_pairwise rfl (by decide))
    (.cons hinner .nil)

theorem default_exported_iff_namespaceBarrel :
    ExportsName (Module.loadSurface namespaceBarrel.volume) defaultName
        (namespaceBarrel.volume.resolve (.ofPath "/proj/barrel.ts")) ∨
      ∃ module, ReflTransGen (Forwards (.ofLookup namespaceBarrel)
          (Module.loadSurface namespaceBarrel.volume))
          (namespaceBarrel.volume.resolve (.ofPath "/proj/barrel.ts")) module ∧
        PassesDefaultOn (Module.loadSurface namespaceBarrel.volume) module :=
  (default_exported_iff exportsOf_namespaceBarrel).mp ⟨_, List.mem_cons_self, rfl⟩

/-- A root can export a default that none of its own items publishes. -/
theorem default_through_wildcard :
    ∃ lookup root exports,
      (exportsOf lookup root).run (Module.loadSurface lookup.volume) = .ok exports ∧
        (∃ entry ∈ exports, entry.exportedName = defaultName) ∧
        ¬ExportsName (Module.loadSurface lookup.volume) defaultName
          (lookup.volume.resolve root) := by
  refine ⟨namespaceBarrel, .ofPath "/proj/barrel.ts", _, exportsOf_namespaceBarrel,
    ⟨_, List.mem_cons_self, rfl⟩, ?_⟩
  have hroot : namespaceBarrel.volume.resolve (.ofPath "/proj/barrel.ts") =
      .ofPath "/proj/barrel.ts" := by decide +kernel
  rw [hroot]
  rintro ⟨surface, hread, item, hitem, hname⟩
  obtain rfl := ok_inj barrel_namespaceBarrel hread
  have hitems : Surface.items ⟨[], [Module.wildcardEdge "./inner" false 0]⟩ =
      [.reExport (Module.wildcardEdge "./inner" false 0)] :=
    Surface.items_of_pairwise rfl (by decide)
  rw [hitems, List.mem_singleton] at hitem
  subst hitem
  cases hname

end FlatExports.Resolution
