import FlatExports.Proofs.Resolution.Trail
import FlatExports.Proofs.Resolved.Merge
import FlatExports.Resolution.Expand

/-!
What a surface collects.

Every explicit item that is passed on collects one export, which has the item's
name and is never a wildcard; a wildcard collects what it stands for.  These
are the inversions of an expansion from which its laws follow.
-/

namespace FlatExports.Resolution

variable {resolver : Resolver} {read : Survey.Reader} {expand : Expansion}
  {visiting : List Location} {module : Location} {includeDefault : Bool} {item : Item}
  {edge : ReExport} {found : Resolved} {exports : List Resolved}

/-- The export an explicit item stands for. -/
def itemExport (resolver : Resolver) (module : Location) : Item → Survey Resolved
  | .definition d => .ofExcept (localExport module d)
  | .reExport edge =>
      if edge.kind = .namespaced then .ofExcept (namespaceOf resolver module edge false)
      else follow resolver module edge

/-! ## Explicit items -/

theorem localExport_eq_ok {d : Definition} :
    localExport module d = .ok found ↔ ∃ name, d.exportName? = some name ∧
      found = ⟨name, module.written, name, d.typeOnly, .named, false, d.localName,
        d.localName.isNone⟩ := by
  unfold localExport
  cases d.exportName? with
  | none => simp
  | some name => simp [eq_comm]

theorem Ends.kind_ne_wildcard {hop : Hop} {typed : Bool} {provenance : Provenance}
    (hends : Ends resolver read hop typed provenance) : provenance.kind ≠ .wildcard := by
  cases hends <;> simp

theorem Trail.kind_ne_wildcard {hops : List Hop} {typed : Bool} {provenance : Provenance}
    (htrail : Trail resolver read hops typed provenance) : provenance.kind ≠ .wildcard := by
  induction htrail with
  | ends hends => exact hends.kind_ne_wildcard
  | step _ _ ih => exact ih

theorem follow_name_and_kind (hrun : (follow resolver module edge).run read = .ok found) :
    edge.exportedName = some found.exportedName ∧ found.kind ≠ .wildcard := by
  obtain ⟨exported, imported, hexported, -, hfound⟩ := follow_eq_ok hrun
  split at hfound
  · obtain ⟨target, whole, -, htrace, rfl⟩ := hfound
    obtain ⟨hops, typed, -, htrail, -⟩ := trace_trail (List.nodup_singleton _) htrace
    exact ⟨hexported, htrail.kind_ne_wildcard⟩
  · subst hfound
    exact ⟨hexported, by simp [fromPackage]⟩

theorem mergeKey_of_itemExport (hitem : item.wildcard? = none)
    (hrun : (itemExport resolver module item).run read = .ok found) :
    item.name? = some found.exportedName ∧ found.mergeKey = .name found.exportedName := by
  rw [Resolved.mergeKey_eq_name]
  cases item with
  | definition d =>
      obtain ⟨name, hname, rfl⟩ := localExport_eq_ok.mp hrun
      exact ⟨hname, by simp, rfl⟩
  | reExport edge =>
      have hkind : edge.kind ≠ .wildcard := by
        intro hkind
        simp [Item.wildcard?, hkind] at hitem
      simp only [Item.name?, if_neg hkind]
      rw [itemExport] at hrun
      split at hrun
      · obtain ⟨exported, origin, hexported, rfl, -⟩ := namespaceOf_eq_ok.mp hrun
        exact ⟨hexported, by simp, trivial⟩
      · obtain ⟨hexported, hfound⟩ := follow_name_and_kind hrun
        exact ⟨hexported, hfound, trivial⟩

/-! ## What the items collect -/

def isDefault : Item → Bool
  | .definition d => d.kind = .default
  | .reExport edge => edge.kind ≠ .namespaced ∧ edge.exportedName = some defaultName

theorem name?_of_isDefault (hitem : item.wildcard? = none) (hdefault : isDefault item) :
    item.name? = some defaultName := by
  cases item with
  | definition d => simp_all [isDefault, Item.name?, Definition.exportName?]
  | reExport edge => simp_all [isDefault, Item.name?, Item.wildcard?]

theorem collectItem_passed (hitem : item.wildcard? = none)
    (hpassed : includeDefault ∨ ¬isDefault item) :
    collectItem resolver expand visiting module includeDefault item = (do
      return explicitly (← itemExport resolver module item)) := by
  cases item with
  | definition d =>
      have hpassed : includeDefault ∨ d.kind ≠ .default := by simpa [isDefault] using hpassed
      rw [collectItem, if_pos hpassed]
      rfl
  | reExport edge =>
      cases hkind : edge.kind with
      | wildcard => simp [Item.wildcard?, hkind] at hitem
      | namespaced => simp [collectItem, itemExport, hkind]
      | named | default =>
          have hpassed : includeDefault ∨ edge.exportedName ≠ some defaultName := by
            simpa [isDefault, hkind] using hpassed
          simp [collectItem, itemExport, hkind, hpassed]

theorem collectItem_excluded (hitem : item.wildcard? = none) (hdefault : isDefault item) :
    collectItem resolver expand visiting module false item = pure [] := by
  cases item with
  | definition d =>
      have hkind : d.kind = .default := by simpa [isDefault] using hdefault
      simp [collectItem, hkind]
  | reExport edge =>
      have hslot : edge.kind ≠ .namespaced ∧ edge.exportedName = some defaultName := by
        simpa [isDefault] using hdefault
      cases hkind : edge.kind with
      | wildcard => simp [Item.wildcard?, hkind] at hitem
      | namespaced => exact absurd hkind hslot.1
      | named | default => simp [collectItem, hkind, hslot.2]

theorem collectItem_wildcard (hkind : edge.kind = .wildcard) :
    collectItem resolver expand visiting module includeDefault (.reExport edge) = (do
      let exports ← expandWildcard resolver expand visiting module edge
      return exports.map fun export_ => ⟨export_, true⟩) := by
  simp [collectItem, hkind]

/-- The three ways in which an item collects exports. -/
inductive Collects (resolver : Resolver) (read : Survey.Reader) (expand : Expansion)
    (visiting : List Location) (module : Location) (includeDefault : Bool) :
    Item → List Collected → Prop
  | explicit {item : Item} {found : Resolved}
      (hitem : item.wildcard? = none)
      (hpassed : includeDefault ∨ ¬isDefault item)
      (hrun : (itemExport resolver module item).run read = .ok found) :
      Collects resolver read expand visiting module includeDefault item [⟨found, false⟩]
  | excluded {item : Item}
      (hitem : item.wildcard? = none)
      (hdefault : isDefault item)
      (hexcluded : includeDefault = false) :
      Collects resolver read expand visiting module includeDefault item []
  | wildcard {edge : ReExport} {exports : List Resolved}
      (hkind : edge.kind = .wildcard)
      (hrun : (expandWildcard resolver expand visiting module edge).run read = .ok exports) :
      Collects resolver read expand visiting module includeDefault (.reExport edge)
        (exports.map fun export_ => ⟨export_, true⟩)

theorem collectItem_eq_ok {entries : List Collected} :
    (collectItem resolver expand visiting module includeDefault item).run read = .ok entries ↔
      Collects resolver read expand visiting module includeDefault item entries := by
  constructor
  · intro hrun
    cases hitem : item.wildcard? with
    | some edge =>
        obtain ⟨rfl, hkind⟩ := Item.wildcard?_eq_some.mp hitem
        rw [collectItem_wildcard hkind] at hrun
        obtain ⟨exports, hexports, hentries⟩ := Survey.run_bind_eq_ok.mp hrun
        cases hentries
        exact .wildcard hkind hexports
    | none =>
        by_cases hpassed : includeDefault ∨ ¬isDefault item
        · rw [collectItem_passed hitem hpassed] at hrun
          obtain ⟨found, hfound, hentries⟩ := Survey.run_bind_eq_ok.mp hrun
          cases hentries
          exact .explicit hitem hpassed hfound
        · simp only [not_or, Bool.not_eq_true, Bool.not_eq_false] at hpassed
          obtain ⟨rfl, hdefault⟩ := hpassed
          rw [collectItem_excluded hitem hdefault] at hrun
          cases hrun
          exact .excluded hitem hdefault rfl
  · intro hcollects
    cases hcollects with
    | explicit hitem hpassed hrun =>
        rw [collectItem_passed hitem hpassed]
        exact Survey.run_bind_eq_ok.mpr ⟨_, hrun, rfl⟩
    | excluded hitem hdefault hexcluded =>
        rw [hexcluded, collectItem_excluded hitem hdefault]
        rfl
    | wildcard hkind hrun =>
        rw [collectItem_wildcard hkind]
        exact Survey.run_bind_eq_ok.mpr ⟨_, hrun, rfl⟩

theorem explicit?_of_collects {name : String} {items : List Item} {lists : List (List Collected)}
    (hname : name ≠ defaultName ∨ includeDefault = true)
    (hcollects : List.Forall₂ (Collects resolver read expand visiting module includeDefault)
      items lists) :
    Option.Rel (fun item found => (itemExport resolver module item).run read = .ok found)
      (items.find? (·.name? = some name)) (Collected.explicit? lists.flatten name) := by
  induction hcollects with
  | nil => exact .none
  | @cons item entries items lists hfirst _ ih =>
      rw [List.flatten_cons, Collected.explicit?_append, List.find?_cons]
      cases hfirst with
      | @explicit _ found hitem _ hrun =>
          obtain ⟨hpublished, hkey⟩ := mergeKey_of_itemExport hitem hrun
          rw [Collected.explicit?_singleton, hkey, hpublished]
          by_cases hsame : found.exportedName = name
          · simpa [hsame] using Option.Rel.some hrun
          · simpa [hsame] using ih
      | excluded hitem hdefault hexcluded =>
          have hother : defaultName ≠ name := by
            rcases hname with hname | hincluded
            · exact Ne.symm hname
            · rw [hexcluded] at hincluded
              cases hincluded
          simpa [name?_of_isDefault hitem hdefault, hother, Collected.explicit?] using ih
      | wildcard hkind hrun =>
          rw [Collected.explicit?_viaWildcard]
          simpa [Item.name?, hkind] using ih

theorem collectAll_eq_ok {collect : Item → Survey (List Collected)} {items : List Item}
    {collected : List Collected} :
    (collectAll collect items).run read = .ok collected ↔
      ∃ lists, List.Forall₂ (fun item entries => (collect item).run read = .ok entries)
        items lists ∧ collected = lists.flatten := by
  induction items generalizing collected with
  | nil =>
      constructor
      · rintro ⟨⟩
        exact ⟨[], .nil, rfl⟩
      · rintro ⟨lists, hlists, rfl⟩
        cases hlists
        rfl
  | cons item rest ih =>
      simp only [collectAll, Survey.run_bind_eq_ok, ih]
      constructor
      · rintro ⟨first, hfirst, others, ⟨lists, hlists, rfl⟩, hcollected⟩
        cases hcollected
        exact ⟨first :: lists, .cons hfirst hlists, rfl⟩
      · rintro ⟨lists, hlists, rfl⟩
        cases hlists with
        | cons hfirst hrest => exact ⟨_, hfirst, _, ⟨_, hrest, rfl⟩, rfl⟩

theorem expandWildcard_eq_ok :
    (expandWildcard resolver expand visiting module edge).run read = .ok exports ↔
      if Specifier.isInternal edge.specifier then
        ∃ target, resolver.locate edge.specifier module = .ok target ∧
          if target ∈ visiting then exports = []
          else ∃ inner, (expand target).run read = .ok inner ∧
            exports = if edge.typeOnly then inner.map Resolved.asType else inner
      else exports = [packageWildcard edge.specifier edge.typeOnly] := by
  unfold expandWildcard
  split
  · simp only [Survey.run_bind_eq_ok, Survey.run_ofExcept]
    refine exists_congr fun target => and_congr_right fun _ => ?_
    split
    · simp [eq_comm]
    · rw [Survey.run_bind_eq_ok]
      refine exists_congr fun inner => and_congr_right fun _ => ?_
      rw [Survey.run_pure, Except.ok.injEq, eq_comm]
  · simp [eq_comm]

/-- An expansion reads its module, collects from every item and merges. -/
theorem expand_eq_ok {left : Nat} :
    (Resolution.expand resolver left visiting includeDefault module).run read = .ok exports ↔
      ∃ further surface lists, left = further + 1 ∧ read module = .ok surface ∧
        List.Forall₂ (Collects resolver read
          (Resolution.expand resolver further (module :: visiting) false) (module :: visiting)
          module includeDefault) surface.items lists ∧
        exports = Collected.merge lists.flatten := by
  constructor
  · intro hrun
    cases left with
    | zero => cases hrun
    | succ further =>
        obtain ⟨surface, hread, hrun⟩ := Survey.run_bind_eq_ok.mp hrun
        rw [Survey.run_look] at hread
        obtain ⟨collected, hcollected, hexports⟩ := Survey.run_bind_eq_ok.mp hrun
        cases hexports
        obtain ⟨lists, hlists, rfl⟩ := collectAll_eq_ok.mp hcollected
        exact ⟨further, surface, lists, rfl, hread,
          hlists.imp fun _ _ hitem => collectItem_eq_ok.mp hitem, rfl⟩
  · rintro ⟨further, surface, lists, rfl, hread, hcollects, rfl⟩
    refine Survey.run_bind_eq_ok.mpr ⟨surface, by rwa [Survey.run_look], ?_⟩
    refine Survey.run_bind_eq_ok.mpr ⟨lists.flatten, ?_, rfl⟩
    exact collectAll_eq_ok.mpr
      ⟨lists, hcollects.imp fun _ _ hitem => collectItem_eq_ok.mpr hitem, rfl⟩

theorem expand_of_items {left : Nat} {surface : Surface} {items : List Item}
    {lists : List (List Collected)} (hread : read module = .ok surface)
    (hitems : surface.items = items)
    (hlists : List.Forall₂ (fun item entries =>
      (collectItem resolver (Resolution.expand resolver left (module :: visiting) false)
        (module :: visiting) module includeDefault item).run read = .ok entries) items lists) :
    (Resolution.expand resolver (left + 1) visiting includeDefault module).run read =
      .ok (Collected.merge lists.flatten) :=
  expand_eq_ok.mpr ⟨left, surface, lists, rfl, hread,
    hitems ▸ hlists.imp fun _ _ hitem => collectItem_eq_ok.mp hitem, rfl⟩

end FlatExports.Resolution
