import FlatExports.Proofs.Module.Recording
import FlatExports.Proofs.Statement.Stability
import FlatExports.Proofs.Volume.Resolve

/-!
Flattening twice.

A root whose re-exports have given way to the statements rendered for them is
rendered to the same statements again.  What the statements stand for resolves
at once, since each of them names the module that holds the definition.
-/

namespace FlatExports.Statement

open Resolution Collected
open ExportGroup (keysOf membersOf ofExports)
open Lookup (StandingFile)

variable {lookup : Lookup} {resolver : Resolver} {read : Survey.Reader} {root : Location}
  {surface : Surface} {entry found : Resolved} {exports : List Resolved} {edge : ReExport}
  {below : Expansion} {visiting : List Location} {item : Item} {isType : String → Bool}

/-! ## Items read back -/

theorem collectItem_unplaced (item : Item) :
    collectItem resolver below visiting root true item.unplaced =
      collectItem resolver below visiting root true item := by
  cases item with
  | definition d => rfl
  | reExport edge => rfl

theorem follow_to_definition (edge : ReExport) {exported imported : String} {target : Location}
    (hdepth : 2 ≤ resolver.maxDepth) (hexported : edge.exportedName = some exported)
    (himported : edge.importedName = some imported)
    (hinternal : Specifier.isInternal edge.specifier = true)
    (hlocate : resolver.locate edge.specifier root = .ok target) (hne : target ≠ root)
    (hread : read target = .ok surface) (hdefined : surface.definitionsOf imported ≠ []) :
    ∃ localName, (follow resolver root edge).run read =
      .ok ⟨exported, target.written, imported, edge.typeOnly, .named, false, localName, false⟩ := by
  obtain ⟨first, others, hdefinitions⟩ := List.exists_cons_of_ne_nil hdefined
  obtain ⟨left, hleft⟩ : ∃ left, resolver.maxDepth - 1 = left + 1 := ⟨resolver.maxDepth - 2, by omega⟩
  have htrace : (trace resolver (resolver.maxDepth - 1) [⟨root, exported⟩] target imported
      edge.typeOnly).run read =
      .ok (some (definedIn target imported edge.typeOnly (preferred first others))) := by
    rw [hleft, trace, if_neg (by simp [hne])]
    refine Survey.run_bind_eq_ok.mpr ⟨surface, by rwa [Survey.run_look], ?_⟩
    simp only [searchSurface, hdefinitions]
    rfl
  refine ⟨bindingOf (preferred first others), ?_⟩
  refine Survey.run_bind_eq_ok.mpr ⟨(exported, imported), edgeNames_eq_ok.mpr ⟨hexported, himported⟩, ?_⟩
  dsimp only
  rw [if_pos hinternal]
  refine Survey.run_bind_eq_ok.mpr ⟨_, searchTarget_eq_ok.mpr ⟨target, hlocate, htrace⟩, rfl⟩

theorem edgeKind_named (imported : String) :
    Module.edgeKind imported ≠ .wildcard ∧ Module.edgeKind imported ≠ .namespaced := by
  unfold Module.edgeKind
  split <;> simp

section

variable {specifier exported imported : String} {typeOnly : Bool} {position : Nat}
  {target : Location}

theorem collects_wildcardEdge (hexternal : Specifier.isInternal specifier = false) :
    Collects resolver read below visiting root true
      (.reExport (Module.wildcardEdge specifier typeOnly position))
      [⟨packageWildcard specifier typeOnly, true⟩] := by
  have hrun : (expandWildcard resolver below visiting root
      (Module.wildcardEdge specifier typeOnly position)).run read =
      .ok [packageWildcard specifier typeOnly] := by
    refine expandWildcard_eq_ok.mpr ?_
    rw [if_neg (by simp [Module.wildcardEdge, hexternal])]
    rfl
  exact .wildcard rfl hrun

theorem collects_namedEdge
    (hrun : (follow resolver root
      (Module.namedEdge specifier imported exported typeOnly position)).run read = .ok found) :
    Collects resolver read below visiting root true
      (.reExport (Module.namedEdge specifier imported exported typeOnly position))
      [⟨found, false⟩] := by
  obtain ⟨hwildcard, hnamespaced⟩ := edgeKind_named imported
  refine .explicit ?_ (.inl rfl) ?_
  · simp [Item.wildcard?, Module.namedEdge, hwildcard]
  · rw [itemExport, if_neg (by simpa [Module.namedEdge] using hnamespaced)]
    exact hrun

theorem follow_package (hexternal : Specifier.isInternal specifier = false) :
    (follow resolver root (Module.namedEdge specifier imported exported typeOnly position)).run
      read = .ok (fromPackage specifier exported imported typeOnly) := by
  refine Survey.run_bind_eq_ok.mpr ⟨(exported, imported), rfl, ?_⟩
  dsimp only
  rw [if_neg (by simp [Module.namedEdge, hexternal])]
  rfl

theorem collects_namespaceEdge
    (hrun : Resolution.namespaceOf resolver root
      (Module.namespaceEdge specifier exported typeOnly position) false = .ok found) :
    Collects resolver read below visiting root true
      (.reExport (Module.namespaceEdge specifier exported typeOnly position))
      [⟨found, false⟩] :=
  .explicit rfl (.inl rfl) hrun

end

theorem boundItem_eq (isType : String → Bool) (specifier : ExportSpecifier) :
    ∃ definition, boundItem isType specifier = .definition definition ∧
      definition.exportName? = some specifier.exportedName ∧
      definition.typeOnly = (isType specifier.localName || specifier.typeOnly) ∧
      definition.localName = some specifier.localName := by
  by_cases hdefault : specifier.exportedName = defaultName
  · simp [boundItem, Module.bind, hdefault, Definition.exportName?]
  · simp [boundItem, Module.bind, hdefault, Definition.exportName?]

theorem collects_own {definition : Definition} {name : String}
    (hown : Own root surface definition entry) (hlocal : definition.localName = some name)
    (htype : isType name = true → entry.typeOnly = true) :
    Collects resolver read below visiting root true (itemOf isType lookup root entry)
      [⟨entry, false⟩] := by
  have hkind : entry.kind = .named := by rw [hown.eq]
  have horigin : entry.origin = root.written := by rw [hown.eq]
  have hentryLocal : entry.localName = some name := by rw [hown.eq, hlocal]
  have htyped : (isType name || entry.typeOnly) = entry.typeOnly := by
    cases hname : isType name with
    | true => rw [htype hname]; rfl
    | false => rfl
  obtain ⟨bound, hbound, hexported, hboundType, hboundLocal⟩ :=
    boundItem_eq isType ⟨name, entry.exportedName, entry.typeOnly⟩
  have hitem : itemOf isType lookup root entry = .definition bound := by
    rw [← hbound, itemOf, hkind]
    simp [horigin, hentryLocal]
  have hentry : localExport root bound = .ok entry := by
    refine localExport_eq_ok.mpr ⟨entry.exportedName, hexported, ?_⟩
    rw [hboundType, hboundLocal, htyped, ← hlocal]
    exact hown.eq
  rw [hitem]
  exact .explicit rfl (.inl rfl) hentry

theorem alike_of_sourced {other : Resolved} (hsteps : ∀ name ∈ root.names, IsStep name)
    (hsourced : Sourced lookup read root entry) (hunbound : unbound other = unbound entry) :
    Alike root entry other where
  unbound_eq := hunbound
  own := fun hkey => absurd hkey (hsourced.groupKey_ne hsteps)

section

variable {kind : ExportKind} {exported origin imported : String} {typeOnly inline : Bool}
  {localName : Option String} {target : Location}

theorem collects_fromPackage (hkind : kind ≠ .default)
    (hwildcard : kind = .wildcard → exported = wildcardName)
    (hname : kind ≠ .named → imported = wildcardName)
    (hforeign : kind = .named → origin ≠ root.written)
    (hexternal : Specifier.isInternal origin = false)
    (htext : sourceText lookup root origin = origin) :
    ∃ passed, Collects resolver read below visiting root true
      (itemOf isType lookup root ⟨exported, origin, imported, typeOnly, kind, true, localName, inline⟩)
      [⟨⟨exported, origin, imported, typeOnly, kind, true, none, false⟩, passed⟩] := by
  cases kind with
  | default => exact absurd rfl hkind
  | wildcard =>
      obtain rfl : exported = wildcardName := hwildcard rfl
      obtain rfl : imported = wildcardName := hname (by simp)
      refine ⟨true, ?_⟩
      simp only [itemOf, htext]
      exact collects_wildcardEdge hexternal
  | named =>
      refine ⟨false, ?_⟩
      simp only [itemOf, if_neg (hforeign rfl), htext]
      exact collects_namedEdge (follow_package hexternal)
  | namespaced =>
      obtain rfl : imported = wildcardName := hname (by simp)
      refine ⟨false, ?_⟩
      simp only [itemOf, htext]
      refine collects_namespaceEdge (namespaceOf_eq_ok.mpr ⟨exported, origin, rfl, ?_, ?_⟩)
      · simp [Module.namespaceEdge, hexternal]
      · rw [if_neg (by simp [Module.namespaceEdge, hexternal])]
        rfl

theorem collects_ofNamespace (hwritten : target.written = origin)
    (hinternal : Specifier.isInternal (sourceText lookup root origin) = true)
    (hlocate : resolver.locate (sourceText lookup root origin) root = .ok target) :
    Collects resolver read below visiting root true
      (itemOf isType lookup root
        ⟨exported, origin, wildcardName, typeOnly, .namespaced, false, localName, inline⟩)
      [⟨⟨exported, origin, wildcardName, typeOnly, .namespaced, false, none, false⟩, false⟩] := by
  simp only [itemOf]
  refine collects_namespaceEdge (namespaceOf_eq_ok.mpr ⟨exported, origin, rfl, ?_, ?_⟩)
  · simp [Module.namespaceEdge, hinternal]
  · rw [if_pos (by simp [Module.namespaceEdge, hinternal])]
    exact ⟨target, hlocate, hwritten.symm⟩

theorem collects_ofDefinition (hdepth : 2 ≤ resolver.maxDepth) (hne : target ≠ root)
    (hforeign : target.written ≠ root.written)
    (hinternal : Specifier.isInternal (sourceText lookup root target.written) = true)
    (hlocate : resolver.locate (sourceText lookup root target.written) root = .ok target)
    (hread : read target = .ok surface) (hdefined : surface.definitionsOf imported ≠ []) :
    ∃ binding, Collects resolver read below visiting root true
      (itemOf isType lookup root
        ⟨exported, target.written, imported, typeOnly, .named, false, localName, inline⟩)
      [⟨⟨exported, target.written, imported, typeOnly, .named, false, binding, false⟩, false⟩] := by
  obtain ⟨binding, hfollow⟩ := follow_to_definition
    (Module.namedEdge (sourceText lookup root target.written) imported exported typeOnly 0)
    hdepth rfl rfl hinternal hlocate hne hread hdefined
  refine ⟨binding, ?_⟩
  simp only [itemOf, if_neg hforeign]
  exact collects_namedEdge hfollow

end

theorem collects_sourced (hextensions : lookup.PlainExtensions)
    (hstands : StandingFile lookup.volume root) {flat : Surface}
    (hsourced : Sourced lookup read root entry) :
    ∃ again : Collected, Alike root entry again.export_ ∧
      Collects (.ofLookup lookup) (Function.update read root (.ok flat)) below visiting root true
        (itemOf isType lookup root entry) [again] := by
  have htext := sourceText_of_sourced hextensions hstands hsourced
  have halike {other : Resolved} (hunbound : unbound other = unbound entry) :
      Alike root entry other := alike_of_sourced hstands.isStep hsourced hunbound
  have hforeign := hsourced.groupKey_ne hstands.isStep
  obtain ⟨hsource, hunnamed⟩ := hsourced
  obtain ⟨exportedName, origin, originName, typeOnly, kind, external, localName, inline⟩ := entry
  generalize hprovenance : Resolved.provenance _ = provenance at hsource
  cases hsource with
  | package hkind hname hexternal hrelative =>
      simp only [Resolved.provenance, Provenance.mk.injEq] at hprovenance
      obtain ⟨rfl, rfl, rfl, rfl⟩ := hprovenance
      have hnotOwn : kind = .named → origin ≠ root.written := by
        rintro rfl rfl
        exact hforeign rfl
      obtain ⟨passed, hcollects⟩ :=
        collects_fromPackage hkind hunnamed hname hnotOwn hexternal htext.1
      exact ⟨_, halike rfl, hcollects⟩
  | namespaceOf htarget =>
      simp only [Resolved.provenance, Provenance.mk.injEq] at hprovenance
      obtain ⟨rfl, rfl, rfl, rfl⟩ := hprovenance
      obtain ⟨found, hwritten, -, -, hinternal, hlocate⟩ := htext
      exact ⟨_, halike rfl, collects_ofNamespace hwritten hinternal hlocate⟩
  | @definition target surface name hne htarget hread hdefined hdepth =>
      simp only [Resolved.provenance, Provenance.mk.injEq] at hprovenance
      obtain ⟨rfl, rfl, rfl, rfl⟩ := hprovenance
      obtain ⟨found, -, hpath, -, hinternal, hlocate⟩ := htext
      obtain rfl : found = target := hpath.symm.trans htarget.ofPath_written
      have hnotOwn : found.written ≠ root.written := fun heq => hforeign (by rw [heq]; rfl)
      have hreread : Function.update read root (.ok flat) found = .ok surface := by
        rw [Function.update_of_ne hne, hread]
      obtain ⟨binding, hcollects⟩ :=
        collects_ofDefinition hdepth hne hnotOwn hinternal hlocate hreread hdefined
      exact ⟨_, halike rfl, hcollects⟩

/-! ## The root read back -/

theorem isOwn_of_own {definition : Definition} (hown : Own root surface definition entry) :
    IsOwn root entry := by
  rw [hown.eq]
  exact ⟨rfl, rfl, rfl, rfl⟩

theorem collects_published {tree : Syntax.ModuleTree} {scanned : Module.Scan} {flat : Surface}
    (hextensions : lookup.PlainExtensions) (hstands : StandingFile lookup.volume root)
    (hscan : Module.scan tree = .ok scanned)
    (hentry : (∃ definition, Own root scanned.surface definition entry) ∨
      Sourced lookup read root entry)
    (hpublished : isPublished root entry = true) :
    ∃ again : Collected, Alike root entry again.export_ ∧
      Collects (.ofLookup lookup) (Function.update read root (.ok flat)) below visiting root true
        (itemOf (Module.isTypeLocal tree) lookup root entry) [again] := by
  rcases hentry with ⟨definition, hown⟩ | hsourced
  · rw [isPublished_of_own (isOwn_of_own hown)] at hpublished
    obtain ⟨name, hname⟩ := Option.isSome_iff_exists.mp hpublished
    have hlocal : definition.localName = some name := by
      rw [hown.eq] at hname
      exact hname
    refine ⟨⟨entry, false⟩, ⟨rfl, fun _ => rfl⟩, collects_own hown hlocal fun htype => ?_⟩
    by_contra hvalue
    have hdefinition := hown.value (by simpa using hvalue)
    rw [Module.typeOnly_of_isTypeLocal hscan hown.mem hlocal htype] at hdefinition
    cases hdefinition
  · exact collects_sourced hextensions hstands hsourced

structure InPlace (root : Location) (exports : List Resolved) (item : Item)
    (found : Resolved) : Prop where
  own : IsOwn root found
  inline : found.inline = true
  name : item.name? = some found.exportedName
  mergeKey : found.mergeKey = .name found.exportedName
  kept : ∀ entry ∈ exports, entry.mergeKey = found.mergeKey → entry.asValue = found.asValue
  collects : ∀ (resolver : Resolver) (read : Survey.Reader) (below : Expansion)
    (visiting : List Location),
    Collects resolver read below visiting root true item [⟨found, false⟩]

theorem inPlace_of_collects {lists : List (List Collected)}
    (hcollects : List.Forall₂ (Collects resolver read below visiting root true) surface.items
      lists)
    (hnames : (surface.items.filterMap Item.name?).Nodup) (hitem : item ∈ surface.items)
    (hinline : item.isInline = true) :
    ∃ found, InPlace root (merge lists.flatten) item found := by
  cases item with
  | reExport edge => cases hinline
  | definition definition =>
      have hlocal : definition.localName = none := by
        simpa [Item.isInline] using hinline
      obtain ⟨entries, -, hfirst⟩ := exists_right_of_forall₂ hcollects hitem
      cases hfirst with
      | @explicit _ found hexplicit hpassed hrun =>
          obtain ⟨hname, hkey⟩ := mergeKey_of_itemExport hexplicit hrun
          have hfound := localExport_eq_ok.mp hrun
          refine ⟨found, ?_, ?_, hname, hkey, ?_, fun _ _ _ _ => .explicit hexplicit hpassed hrun⟩
          · obtain ⟨name, -, rfl⟩ := hfound
            exact ⟨rfl, rfl, rfl, rfl⟩
          · obtain ⟨name, -, rfl⟩ := hfound
            simp [hlocal]
          · intro entry hentry hsame
            have hshadow : Option.Rel
                (fun item found => (itemExport resolver root item).run read = .ok found)
                (surface.items.find? (·.name? = some found.exportedName))
                (explicit? lists.flatten found.exportedName) :=
              explicit?_of_collects (.inr rfl) hcollects
            rw [Item.find?_of_name hnames hitem hname] at hshadow
            generalize hexplicitOf : explicit? lists.flatten found.exportedName = shadow at hshadow
            cases hshadow with
            | some hagain =>
                obtain rfl := ok_inj hrun hagain
                exact merge_explicit hexplicitOf hentry (hsame.trans hkey)
      | excluded _ _ hexcluded => cases hexcluded

theorem head?_keysOf_merge {items : List Item} {lists : List (List Collected)}
    (hcollects : List.Forall₂ (Collects resolver read below visiting root true) items lists)
    (hfront : items.takeWhile Item.isInline ≠ []) :
    (keysOf (merge lists.flatten)).head? = some (.named root.written) := by
  cases hcollects with
  | nil => exact absurd rfl hfront
  | @cons item entries items lists hfirst hrest =>
      cases item with
      | reExport edge => exact absurd rfl hfront
      | definition definition =>
          cases hfirst with
          | @explicit _ found _ _ hrun =>
              obtain ⟨first, others, hmerge, hvalue⟩ := merge_head found lists.flatten
              have hkey : first.asValue.groupKey = found.asValue.groupKey := by rw [hvalue]
              change first.groupKey = found.groupKey at hkey
              obtain ⟨name, -, rfl⟩ := localExport_eq_ok.mp hrun
              rw [List.flatten_cons, List.singleton_append, hmerge, ExportGroup.keysOf_cons, hkey]
              rfl
          | excluded _ _ hexcluded => cases hexcluded

/-! ## Keys of the exports read back -/

section

variable {items : List Item} {before restated after inPlace : List Resolved}

theorem map_mergeKey_inPlace (hinPlace : List.Forall₂ (InPlace root exports) items inPlace) :
    inPlace.map Resolved.mergeKey = (items.filterMap Item.name?).map MergeKey.name := by
  induction hinPlace with
  | nil => rfl
  | cons hfirst _ ih =>
      rw [List.map_cons, List.filterMap_cons_some hfirst.name, List.map_cons, hfirst.mergeKey, ih]

theorem InPlace.mergeKey_ne (hinPlace : InPlace root exports item found)
    (hentry : entry ∈ published root exports) : entry.mergeKey ≠ found.mergeKey := by
  intro hsame
  obtain ⟨hmem, hpublished⟩ := mem_published.mp hentry
  have hvalue := hinPlace.kept entry hmem hsame
  have hkey : entry.asValue.groupKey = found.asValue.groupKey := by rw [hvalue]
  have hinline : entry.asValue.inline = found.asValue.inline := by rw [hvalue]
  change entry.groupKey = found.groupKey at hkey
  change entry.inline = found.inline at hinline
  simp [isPublished, hkey, hinline, hinPlace.own.groupKey, hinPlace.inline] at hpublished

theorem nodup_mergeKey_restated
    (hkeys : (exports.map Resolved.mergeKey).Nodup)
    (hnames : (items.filterMap Item.name?).Nodup)
    (hbefore : List.Forall₂ (InPlace root exports) (items.takeWhile Item.isInline) before)
    (hrestated : List.Forall₂ (Alike root) (published root exports) restated)
    (hafter : List.Forall₂ (InPlace root exports)
      ((items.dropWhile Item.isInline).filter Item.isInline) after) :
    ((before ++ restated ++ after).map Resolved.mergeKey).Nodup := by
  have hinPlace : List.Forall₂ (InPlace root exports)
      (items.takeWhile Item.isInline ++ (items.dropWhile Item.isInline).filter Item.isInline)
      (before ++ after) := List.rel_append hbefore hafter
  have hsublist : (items.takeWhile Item.isInline ++
      (items.dropWhile Item.isInline).filter Item.isInline).Sublist items := by
    have hwhole := List.Sublist.append (List.Sublist.refl (items.takeWhile Item.isInline))
      (List.filter_sublist (p := Item.isInline) (l := items.dropWhile Item.isInline))
    rwa [List.takeWhile_append_dropWhile] at hwhole
  have hfirst : ((before ++ after).map Resolved.mergeKey).Nodup := by
    rw [map_mergeKey_inPlace hinPlace]
    exact ((hsublist.filterMap Item.name?).nodup hnames).map fun _ _ h => MergeKey.name.inj h
  have hsecond : (restated.map Resolved.mergeKey).Nodup := by
    rw [map_eq_of_alike hrestated fun _ _ h => h.mergeKey]
    exact nodup_mergeKey_published hkeys
  have hapart : ∀ key ∈ (before ++ after).map Resolved.mergeKey,
      ∀ key' ∈ restated.map Resolved.mergeKey, key ≠ key' := by
    intro key hkey key' hkey' hsame
    obtain ⟨found, hfound, rfl⟩ := List.mem_map.mp hkey
    rw [map_eq_of_alike hrestated fun _ _ h => h.mergeKey] at hkey'
    obtain ⟨entry, hentry, rfl⟩ := List.mem_map.mp hkey'
    obtain ⟨item, -, hitem⟩ := exists_left_of_forall₂ hinPlace hfound
    exact hitem.mergeKey_ne hentry hsame.symm
  have hperm : (before ++ restated ++ after).Perm ((before ++ after) ++ restated) := by
    rw [List.append_assoc, List.append_assoc]
    exact List.perm_append_comm.append_left before
  rw [(hperm.map Resolved.mergeKey).nodup_iff, List.map_append, List.nodup_append]
  exact ⟨hfirst, hsecond, hapart⟩

end

/-! ## Flattening -/

def flatItems (isType : String → Bool) (surface : Surface) (statements : List Statement) :
    List Item :=
  surface.items.takeWhile Item.isInline ++ statements.flatMap (items isType) ++
    (surface.items.dropWhile Item.isInline).filter Item.isInline

/-- A surface whose re-exports have given way to statements. -/
def IsFlat (isType : String → Bool) (surface : Surface) (statements : List Statement)
    (flat : Surface) : Prop :=
  flat.items.map Item.unplaced = (flatItems isType surface statements).map Item.unplaced

def explicitlyAll (exports : List Resolved) : List Collected :=
  exports.map fun export_ => ⟨export_, false⟩

theorem expand_of_unplaced {left : Nat} {flat : Surface} {flatItems : List Item}
    {collected : List Collected} (hread : read root = .ok flat)
    (hflat : flat.items.map Item.unplaced = flatItems.map Item.unplaced)
    (hcollects : List.Forall₂ (fun item entry => Collects resolver read
      (expand resolver left (root :: visiting) false) (root :: visiting) root true item [entry])
      flatItems collected) :
    (expand resolver (left + 1) visiting true root).run read = .ok (merge collected) := by
  have hunplaced : List.Forall₂ (Collects resolver read
      (expand resolver left (root :: visiting) false) (root :: visiting) root true)
      (flatItems.map Item.unplaced) (collected.map fun entry => [entry]) := by
    rw [List.forall₂_map_left_iff, List.forall₂_map_right_iff]
    refine hcollects.imp fun item entry hitem => ?_
    rw [← collectItem_eq_ok, collectItem_unplaced, collectItem_eq_ok]
    exact hitem
  rw [← hflat, List.forall₂_map_left_iff] at hunplaced
  have hlists : collected = (collected.map fun entry => [entry]).flatten := by
    rw [← List.flatMap_def, List.flatMap_singleton']
  refine expand_eq_ok.mpr ⟨left, flat, _, rfl, hread, hunplaced.imp fun item entries hitem => ?_,
    congrArg merge hlists⟩
  rw [← collectItem_eq_ok, collectItem_unplaced, collectItem_eq_ok] at hitem
  exact hitem

structure ReadBack (root : Location) (surface : Surface) (exports before restated after :
    List Resolved) : Prop where
  before : List.Forall₂ (InPlace root exports) (surface.items.takeWhile Item.isInline) before
  restated : List.Forall₂ (Alike root) (published root exports) restated
  after : List.Forall₂ (InPlace root exports)
    ((surface.items.dropWhile Item.isInline).filter Item.isInline) after

section

variable {before restated after : List Resolved}

theorem ReadBack.inPlace (h : ReadBack root surface exports before restated after) :
    ∀ found, found ∈ before ∨ found ∈ after → IsOwn root found ∧ found.inline = true := by
  rintro found (hfound | hfound)
  · obtain ⟨item, -, hitem⟩ := exists_left_of_forall₂ h.before hfound
    exact ⟨hitem.own, hitem.inline⟩
  · obtain ⟨item, -, hitem⟩ := exists_left_of_forall₂ h.after hfound
    exact ⟨hitem.own, hitem.inline⟩

theorem ReadBack.publishable (h : ReadBack root surface exports before restated after)
    (hexports : ∀ entry ∈ exports, Publishable lookup read root entry) :
    ∀ entry ∈ before ++ restated ++ after, Publishable lookup read root entry := by
  intro entry hentry
  rcases List.mem_append.mp hentry with hentry | hentry
  · rcases List.mem_append.mp hentry with hentry | hentry
    · exact .inl (h.inPlace entry (.inl hentry)).1
    · obtain ⟨first, hfirst, halike⟩ := exists_left_of_forall₂ h.restated hentry
      exact halike.publishable (hexports first (mem_published.mp hfirst).1)
  · exact .inl (h.inPlace entry (.inr hentry)).1

theorem ReadBack.render_eq (h : ReadBack root surface exports before restated after)
    (hextensions : lookup.PlainExtensions) (hstands : StandingFile lookup.volume root)
    (hexports : ∀ entry ∈ exports, Publishable lookup read root entry)
    (hfirst : surface.items.takeWhile Item.isInline ≠ [] →
      (keysOf exports).head? = some (.named root.written)) :
    render lookup root (ofExports (before ++ restated ++ after)) =
      render lookup root (ofExports exports) := by
  rw [render_ofExports hextensions hstands (h.publishable hexports),
    render_ofExports hextensions hstands hexports]
  refine congrArg Except.ok (statements_restated h.restated ?_ ?_ fun hne => hfirst ?_)
  · intro entry hentry
    obtain ⟨hown, hinline⟩ := h.inPlace entry (.inl hentry)
    exact ⟨hown.groupKey, hinline⟩
  · intro entry hentry
    obtain ⟨hown, hinline⟩ := h.inPlace entry (.inr hentry)
    exact ⟨hown.groupKey, hinline⟩
  · intro hnone
    have hbefore := h.before
    rw [hnone] at hbefore
    exact hne (List.forall₂_nil_left_iff.mp hbefore)

end

/-- A flat root reads back the exports it was made from. -/
theorem expand_flat {tree : Syntax.ModuleTree} {scanned : Module.Scan} {flat : Surface}
    {left : Nat} {lists : List (List Collected)}
    (hextensions : lookup.PlainExtensions) (hstands : StandingFile lookup.volume root)
    (hscan : Module.scan tree = .ok scanned)
    (hnames : (scanned.surface.items.filterMap Item.name?).Nodup)
    (hcollects : List.Forall₂ (Collects (.ofLookup lookup) read
      (expand (.ofLookup lookup) left [root] false) [root] root true) scanned.surface.items lists)
    (horigins : ∀ entry ∈ merge lists.flatten,
      (∃ definition, Own root scanned.surface definition entry) ∨
        Sourced lookup read root entry)
    (hflat : flat.items.map Item.unplaced =
      (scanned.surface.items.takeWhile Item.isInline ++
        (published root (merge lists.flatten)).map
          (itemOf (Module.isTypeLocal tree) lookup root) ++
        (scanned.surface.items.dropWhile Item.isInline).filter Item.isInline).map Item.unplaced) :
    ∃ before restated after,
      ReadBack root scanned.surface (merge lists.flatten) before restated after ∧
        (expand (.ofLookup lookup) (left + 1) [] true root).run
          (Function.update read root (.ok flat)) = .ok (before ++ restated ++ after) := by
  obtain ⟨before, hbefore⟩ : ∃ before, List.Forall₂ (InPlace root (merge lists.flatten))
      (scanned.surface.items.takeWhile Item.isInline) before :=
    exists_forall₂ fun item hitem => inPlace_of_collects hcollects hnames
      (List.takeWhile_subset _ hitem) (List.mem_takeWhile_imp hitem)
  obtain ⟨after, hafter⟩ : ∃ after, List.Forall₂ (InPlace root (merge lists.flatten))
      ((scanned.surface.items.dropWhile Item.isInline).filter Item.isInline) after :=
    exists_forall₂ fun item hitem => inPlace_of_collects hcollects hnames
      (List.dropWhile_subset _ (List.mem_of_mem_filter hitem)) (List.of_mem_filter hitem)
  obtain ⟨again, hagain⟩ : ∃ again : List Collected,
      List.Forall₂ (fun entry again => Alike root entry again.export_ ∧
        Collects (.ofLookup lookup) (Function.update read root (.ok flat))
          (expand (.ofLookup lookup) left [root] false) [root] root true
          (itemOf (Module.isTypeLocal tree) lookup root entry) [again])
        (published root (merge lists.flatten)) again :=
    exists_forall₂ fun entry hentry => collects_published hextensions hstands hscan
      (horigins entry (mem_published.mp hentry).1) (mem_published.mp hentry).2
  have hreadBack : ReadBack root scanned.surface (merge lists.flatten) before
      (exportsOfAll again) after :=
    ⟨hbefore, List.forall₂_map_right_iff.mpr (hagain.imp fun _ _ h => h.1), hafter⟩
  have hcollected : List.Forall₂ (fun item entry => Collects (.ofLookup lookup)
      (Function.update read root (.ok flat)) (expand (.ofLookup lookup) left [root] false) [root]
      root true item [entry])
      (scanned.surface.items.takeWhile Item.isInline ++
        (published root (merge lists.flatten)).map
          (itemOf (Module.isTypeLocal tree) lookup root) ++
        (scanned.surface.items.dropWhile Item.isInline).filter Item.isInline)
      (explicitlyAll before ++ again ++ explicitlyAll after) := by
    refine List.rel_append (List.rel_append ?_ ?_) ?_
    · exact List.forall₂_map_right_iff.mpr (hbefore.imp fun _ _ h => h.collects _ _ _ _)
    · exact List.forall₂_map_left_iff.mpr (hagain.imp fun _ _ h => h.2)
    · exact List.forall₂_map_right_iff.mpr (hafter.imp fun _ _ h => h.collects _ _ _ _)
  have hexports : exportsOfAll (explicitlyAll before ++ again ++ explicitlyAll after) =
      before ++ exportsOfAll again ++ after := by
    simp [exportsOfAll, explicitlyAll, Function.comp_def]
  have hdistinct : ((explicitlyAll before ++ again ++ explicitlyAll after).map
      (·.export_.mergeKey)).Nodup := by
    have hnodup := nodup_mergeKey_restated nodup_mergeKey_merge hnames hreadBack.before
      hreadBack.restated hreadBack.after
    rwa [← hexports, exportsOfAll, List.map_map] at hnodup
  have hrun := expand_of_unplaced (Function.update_self root (.ok flat) read) hflat hcollected
  rw [merge_of_nodup hdistinct, hexports] at hrun
  exact ⟨before, exportsOfAll again, after, hreadBack, hrun⟩

/--
Rendering is stable: when the re-exports of a root give way to the statements
rendered for them, the root resolves again and renders to the same statements.
-/
theorem flattening_stable {tree : Syntax.ModuleTree} {scanned : Module.Scan}
    (hextensions : lookup.PlainExtensions) (hstands : StandingFile lookup.volume root)
    (hscan : Module.scan tree = .ok scanned) (hread : read root = .ok scanned.surface)
    (hnames : (scanned.surface.items.filterMap Item.name?).Nodup)
    (hreturn : Returnless (.ofLookup lookup) read root) (hpackages : PlainPackages read)
    (hrun : (exportsOf lookup root).run read = .ok exports) :
    ∃ statements, render lookup root (ofExports exports) = .ok statements ∧
      (∃ flat, IsFlat (Module.isTypeLocal tree) scanned.surface statements flat) ∧
      ∀ flat, IsFlat (Module.isTypeLocal tree) scanned.surface statements flat →
        ∃ exports', (exportsOf lookup root).run (Function.update read root (.ok flat)) =
            .ok exports' ∧
          render lookup root (ofExports exports') = .ok statements := by
  have hroot : lookup.volume.resolve root = root :=
    Volume.resolve_of_stands hstands.choose_spec
  have hsteps : ∀ name ∈ root.names, IsStep name :=
    fun name hname => (hstands.choose_spec.plain name hname).1
  rw [exportsOf, hroot] at hrun
  obtain ⟨left, surface, lists, hleft, hsurface, hcollects, rfl⟩ := expand_eq_ok.mp hrun
  obtain rfl := ok_inj hread hsurface
  have horigins (entry : Resolved) (hentry : entry ∈ merge lists.flatten) :
      (∃ definition, Own root scanned.surface definition entry) ∨
        Sourced lookup read root entry :=
    own_or_sourced (fun found hfound => collected_of_root hpackages hread hstands
      hreturn hleft hcollects hfound) hsteps hnames hentry
  have hpublishable (entry : Resolved) (hentry : entry ∈ merge lists.flatten) :
      Publishable lookup read root entry :=
    (horigins entry hentry).imp_left fun hown => isOwn_of_own hown.choose_spec
  have hrender := render_ofExports hextensions hstands hpublishable
  refine ⟨_, hrender, Item.exists_surface _, fun flat hflat => ?_⟩
  rw [IsFlat, flatItems, items_of_statements hsteps hpublishable nodup_mergeKey_merge] at hflat
  obtain ⟨before, restated, after, hreadBack, hrerun⟩ :=
    expand_flat hextensions hstands hscan hnames hcollects horigins hflat
  refine ⟨before ++ restated ++ after, ?_, ?_⟩
  · rw [exportsOf, hroot, ← hrerun, ← hleft]
  · rw [hreadBack.render_eq hextensions hstands hpublishable fun hfront =>
      head?_keysOf_merge hcollects hfront]
    exact hrender

def mixedBarrel : Lookup where
  settings := .default
  volume := .ofTexts
    [("/proj/index.ts", "export const a = 1; export * from './origin';"),
      ("/proj/origin.ts", "export const n = 1;")]

def mixedSurface : Surface :=
  ⟨[⟨.named, some "a", false, 13, none⟩], [Module.wildcardEdge "./origin" false 20]⟩

def mixedReader : Survey.Reader :=
  Survey.readerOf [(.ofPath "/proj/index.ts", mixedSurface),
    (.ofPath "/proj/origin.ts", ⟨[⟨.named, some "n", false, 13, none⟩], []⟩)]

theorem items_mixedSurface : mixedSurface.items =
    [.definition ⟨.named, some "a", false, 13, none⟩,
      .reExport (Module.wildcardEdge "./origin" false 20)] :=
  Surface.items_of_pairwise rfl (by decide)

theorem exportsOf_mixedBarrel :
    (exportsOf mixedBarrel (.ofPath "/proj/index.ts")).run mixedReader =
      .ok [⟨"a", "/proj/index.ts", "a", false, .named, false, none, true⟩,
        ⟨"n", "/proj/origin.ts", "n", false, .named, false, none, true⟩] := by
  have hroot : mixedBarrel.volume.resolve (.ofPath "/proj/index.ts") =
      .ofPath "/proj/index.ts" := by decide +kernel
  have hread : mixedReader (.ofPath "/proj/index.ts") = .ok mixedSurface := by decide +kernel
  have horigin : (collectItem (.ofLookup mixedBarrel)
      (Resolution.expand (.ofLookup mixedBarrel) 255 [.ofPath "/proj/index.ts"] false)
      [.ofPath "/proj/index.ts"] (.ofPath "/proj/index.ts") true
      (.reExport (Module.wildcardEdge "./origin" false 20))).run mixedReader =
      .ok [⟨⟨"n", "/proj/origin.ts", "n", false, .named, false, none, true⟩, true⟩] := by
    decide +kernel
  rw [exportsOf, hroot]
  exact expand_of_items hread items_mixedSurface (.cons rfl (.cons horigin .nil))

theorem passes_mixedBarrel {hop next : Hop}
    (hpass : Passes (.ofLookup mixedBarrel) mixedReader hop next) :
    next.module = .ofPath "/proj/origin.ts" := by
  have hall : ∀ entry ∈ [(Location.ofPath "/proj/index.ts", mixedSurface),
      (.ofPath "/proj/origin.ts", ⟨[⟨.named, some "n", false, 13, none⟩], []⟩)],
      ∀ edge ∈ entry.2.reExports, (Resolver.ofLookup mixedBarrel).locate edge.specifier entry.1 =
        .ok (.ofPath "/proj/origin.ts") := by
    decide +kernel
  cases hpass with
  | edge hread hedge _ _ _ _ hlocate =>
      exact ok_inj hlocate (hall _ (Survey.mem_of_readerOf hread) _ hedge)
  | wildcard hread hedge _ _ hlocate =>
      exact ok_inj hlocate
        (hall _ (Survey.mem_of_readerOf hread) _ (Surface.mem_wildcards.mp hedge).1)

theorem flattening_stable_mixedBarrel :
    ∃ exports, (exportsOf mixedBarrel (.ofPath "/proj/index.ts")).run
        (Function.update mixedReader (.ofPath "/proj/index.ts")
          (.ok ⟨[⟨.named, some "a", false, 13, none⟩],
            [Module.namedEdge "./origin" "n" "n" false 29]⟩)) = .ok exports ∧
      render mixedBarrel (.ofPath "/proj/index.ts") (ofExports exports) =
        .ok [named (some "./origin") [⟨"n", "n", false⟩]] := by
  have hextensions : mixedBarrel.PlainExtensions := by decide
  have hstands : StandingFile mixedBarrel.volume (.ofPath "/proj/index.ts") :=
    Lookup.standingFile_of_resolveFile (.ofPath "/proj/index") (by decide) (by decide +kernel)
  have hsurface : Module.loadSurface mixedBarrel.volume (.ofPath "/proj/index.ts") =
      .ok mixedSurface := by decide +kernel
  obtain ⟨scanned, hscanned, hmixed⟩ := bind_eq_ok.mp hsurface
  obtain ⟨tree, -, hscan⟩ := bind_eq_ok.mp hscanned
  have hmixed : scanned.surface = mixedSurface := Except.ok.inj hmixed
  have hread : mixedReader (.ofPath "/proj/index.ts") = .ok scanned.surface := by
    rw [hmixed]
    decide +kernel
  have hnames : (scanned.surface.items.filterMap Item.name?).Nodup := by
    rw [hmixed, items_mixedSurface]
    decide
  have hreturn : Returnless (.ofLookup mixedBarrel) mixedReader (.ofPath "/proj/index.ts") := by
    have hne : Location.ofPath "/proj/index.ts" ≠ .ofPath "/proj/origin.ts" := by decide
    intro name name' hpath
    cases hpath with
    | single hpass | tail _ hpass => exact hne (passes_mixedBarrel hpass)
  have hpackages : PlainPackages mixedReader := by
    intro module surface hread edge hedge
    have hall : ∀ entry ∈ [(Location.ofPath "/proj/index.ts", mixedSurface),
        (.ofPath "/proj/origin.ts", ⟨[⟨.named, some "n", false, 13, none⟩], []⟩)],
        ∀ edge ∈ entry.2.reExports, Specifier.isInternal edge.specifier = false →
          edge.specifier.toList.head? ≠ some '/' := by
      decide
    exact hall _ (Survey.mem_of_readerOf hread) edge hedge
  obtain ⟨statements, hrender, -, hstable⟩ := flattening_stable hextensions hstands hscan hread
    hnames hreturn hpackages exportsOf_mixedBarrel
  have hstatements : render mixedBarrel (.ofPath "/proj/index.ts")
      (ofExports [⟨"a", "/proj/index.ts", "a", false, .named, false, none, true⟩,
        ⟨"n", "/proj/origin.ts", "n", false, .named, false, none, true⟩]) =
      .ok [named (some "./origin") [⟨"n", "n", false⟩]] := by
    decide +kernel
  obtain rfl := ok_inj hrender hstatements
  refine hstable _ ?_
  rw [IsFlat, flatItems, hmixed, items_mixedSurface, Surface.items_of_pairwise rfl (by decide)]
  rfl

end FlatExports.Statement
