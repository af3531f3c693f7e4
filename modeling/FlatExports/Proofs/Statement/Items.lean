import FlatExports.Proofs.Statement.Render

/-!
The items that statements stand for.

Reading rendered statements back gives one item for each export that is not
left in place, in the order of the statements.
-/

namespace FlatExports.Statement

open Resolution
open ExportGroup (keysOf membersOf)

variable {lookup : Lookup} {read : Survey.Reader} {root : Location} {isType : String → Bool}
  {entry other : Resolved} {members members' exports : List Resolved} {key : GroupKey}

def boundItem (isType : String → Bool) (specifier : ExportSpecifier) : Item :=
  match Module.bind (.declared (isType specifier.localName))
      ⟨specifier.localName, specifier.exportedName, specifier.typeOnly, 0⟩ with
  | .definition d => .definition d
  | .reExport edge => .reExport edge

/-- The items of a statement; `isType` tells which local names are declared as types. -/
def items (isType : String → Bool) (statement : Statement) : List Item :=
  match statement.kind, statement.source with
  | .named, none => statement.specifiers.map fun specifier =>
      boundItem isType { specifier with typeOnly := statement.typeOnly || specifier.typeOnly }
  | .named, some source => statement.specifiers.map fun specifier =>
      .reExport (Module.namedEdge source specifier.localName specifier.exportedName
        (statement.typeOnly || specifier.typeOnly) 0)
  | .wildcard, some source => [.reExport (Module.wildcardEdge source statement.typeOnly 0)]
  | .namespaced, some source =>
      [.reExport (Module.namespaceEdge source (statement.publishedAs.getD "")
        statement.typeOnly 0)]
  | _, none => []

/-! ## Published exports -/

def isPublished (root : Location) (entry : Resolved) : Bool :=
  !(decide (entry.groupKey = .named root.written) && entry.inline)

def itemOf (isType : String → Bool) (lookup : Lookup) (root : Location)
    (entry : Resolved) : Item :=
  match entry.kind with
  | .wildcard =>
      .reExport (Module.wildcardEdge (sourceText lookup root entry.origin) entry.typeOnly 0)
  | .namespaced =>
      .reExport (Module.namespaceEdge (sourceText lookup root entry.origin) entry.exportedName
        entry.typeOnly 0)
  | _ =>
      if entry.origin = root.written then
        boundItem isType ⟨entry.localName.getD "", entry.exportedName, entry.typeOnly⟩
      else
        .reExport (Module.namedEdge (sourceText lookup root entry.origin) entry.originName
          entry.exportedName entry.typeOnly 0)

theorem isPublished_of_own (hown : IsOwn root entry) :
    isPublished root entry = entry.localName.isSome := by
  rw [isPublished, hown.groupKey, hown.2.2.2]
  cases entry.localName <;> simp

theorem isPublished_of_ne (h : entry.groupKey ≠ .named root.written) :
    isPublished root entry = true := by
  simp [isPublished, h]

theorem map_boundItem_localSpecifiers (hown : ∀ entry ∈ members, IsOwn root entry) :
    (localSpecifiers members).map (boundItem isType) =
      (members.filter (isPublished root)).map (itemOf isType lookup root) := by
  induction members with
  | nil => rfl
  | cons first rest ih =>
      rw [List.forall_mem_cons] at hown
      obtain ⟨hfirst, hrest⟩ := hown
      rw [localSpecifiers, List.filterMap_cons, ← localSpecifiers, List.filter_cons,
        isPublished_of_own hfirst, hfirst.2.2.2]
      cases hlocal : first.localName with
      | none => simpa using ih hrest
      | some name =>
          have hitem : itemOf isType lookup root first =
              boundItem isType ⟨name, first.exportedName, first.typeOnly⟩ := by
            rw [itemOf, hfirst.1]
            simp [hfirst.2.1, hlocal]
          simp [ih hrest, hitem]

theorem items_statementsOf (hsteps : ∀ name ∈ root.names, IsStep name)
    (hmembers : ∀ entry ∈ members, Publishable lookup read root entry ∧ entry.groupKey = key)
    (hsingle : ∀ kind origin name, key = .single kind origin name → ∃ entry, members = [entry]) :
    (statementsOf lookup root key members).flatMap (items isType) =
      (members.filter (isPublished root)).map (itemOf isType lookup root) := by
  by_cases hkey : key = .named root.written
  · subst hkey
    have hown (entry : Resolved) (hentry : entry ∈ members) : IsOwn root entry :=
      ((hmembers entry hentry).1.own_iff hsteps).mpr (hmembers entry hentry).2
    rw [← map_boundItem_localSpecifiers hown, statementsOf, if_pos rfl]
    split
    · rename_i hempty
      rw [List.isEmpty_iff.mp hempty]
      rfl
    · simp [items, named]
  · have hpublished : members.filter (isPublished root) = members := by
      rw [List.filter_eq_self]
      exact fun entry hentry => isPublished_of_ne ((hmembers entry hentry).2 ▸ hkey)
    rw [hpublished]
    cases key with
    | named origin =>
        have horigin : origin ≠ root.written := fun heq => hkey (heq ▸ rfl)
        rw [statementsOf, if_neg horigin]
        simp only [List.flatMap_singleton, items, named, List.map_map]
        refine List.map_congr_left fun entry hentry => ?_
        obtain ⟨hkind, rfl⟩ := Resolved.groupKey_eq_named.mp (hmembers entry hentry).2
        rw [itemOf, hkind]
        dsimp only
        rw [if_neg horigin]
        rfl
    | single kind origin name =>
        obtain ⟨entry, rfl⟩ := hsingle kind origin name rfl
        obtain ⟨hpublishable, hentry⟩ := hmembers entry (List.mem_singleton_self entry)
        obtain ⟨hkind, rfl, rfl, rfl⟩ := Resolved.groupKey_eq_single.mp hentry
        rcases hpublishable with hown | hsourced
        · exact absurd hown.1 hkind
        · cases hwhich : entry.kind with
          | named => exact absurd hwhich hkind
          | default => exact absurd hwhich hsourced.kind_ne_default
          | wildcard => simp [statementsOf, itemOf, items, hwhich, wildcard]
          | namespaced => simp [statementsOf, itemOf, items, hwhich, namespaceOf]

/-! ## All statements of a root -/

def published (root : Location) (exports : List Resolved) : List Resolved :=
  (keysOf exports).flatMap fun key => (membersOf exports key).filter (isPublished root)

theorem mem_published :
    entry ∈ published root exports ↔ entry ∈ exports ∧ isPublished root entry = true := by
  simp only [published, List.mem_flatMap, List.mem_filter, ExportGroup.mem_membersOf]
  constructor
  · rintro ⟨key, -, ⟨hmem, -⟩, hpublished⟩
    exact ⟨hmem, hpublished⟩
  · rintro ⟨hmem, hpublished⟩
    exact ⟨entry.groupKey, ExportGroup.mem_keysOf.mpr ⟨entry, hmem, rfl⟩, ⟨hmem, rfl⟩, hpublished⟩

theorem nodup_mergeKey_published (hkeys : (exports.map Resolved.mergeKey).Nodup) :
    ((published root exports).map Resolved.mergeKey).Nodup := by
  rw [published, List.map_flatMap, List.nodup_flatMap]
  constructor
  · intro key _
    have hsublist : ((membersOf exports key).filter (isPublished root)).Sublist exports :=
      List.filter_sublist.trans List.filter_sublist
    exact (hsublist.map Resolved.mergeKey).nodup hkeys
  · refine (ExportGroup.nodup_keysOf exports).imp fun {key key'} hne => ?_
    intro mergeKey hmem hmem'
    obtain ⟨entry, hentry, rfl⟩ := List.mem_map.mp hmem
    obtain ⟨entry', hentry', hsame⟩ := List.mem_map.mp hmem'
    obtain ⟨hmem, hkey⟩ := ExportGroup.mem_membersOf.mp (List.mem_filter.mp hentry).1
    obtain ⟨hmem', hkey'⟩ := ExportGroup.mem_membersOf.mp (List.mem_filter.mp hentry').1
    obtain rfl := List.inj_on_of_nodup_map hkeys hmem' hmem hsame
    exact hne (hkey.symm.trans hkey')

theorem published_perm (hkeys : (exports.map Resolved.mergeKey).Nodup) :
    (published root exports).Perm (exports.filter (isPublished root)) := by
  have hpublished : (published root exports).Nodup := (nodup_mergeKey_published hkeys).of_map
  have hfiltered := hkeys.of_map.filter (isPublished root)
  refine (List.perm_ext_iff_of_nodup hpublished hfiltered).mpr fun entry => ?_
  rw [mem_published, List.mem_filter]

theorem membersOf_single {kind : ExportKind} {origin name : String}
    (hkeys : (exports.map Resolved.mergeKey).Nodup)
    (hkey : .single kind origin name ∈ keysOf exports) :
    ∃ entry, membersOf exports (.single kind origin name) = [entry] := by
  cases hmembers : membersOf exports (.single kind origin name) with
  | nil => exact absurd hmembers (ExportGroup.membersOf_ne_nil hkey)
  | cons first rest =>
      cases rest with
      | nil => exact ⟨first, rfl⟩
      | cons second others =>
          have hmember (entry : Resolved) (hentry : entry ∈ first :: second :: others) :
              entry.kind = kind ∧ entry.origin = origin ∧ entry.exportedName = name := by
            rw [← hmembers] at hentry
            exact (Resolved.groupKey_eq_single.mp (ExportGroup.mem_membersOf.mp hentry).2).2
          have hsublist : (membersOf exports (.single kind origin name)).Sublist exports :=
            List.filter_sublist
          have hnodup := (hsublist.map Resolved.mergeKey).nodup hkeys
          obtain ⟨hkind, horigin, hname⟩ := hmember first List.mem_cons_self
          obtain ⟨hkind', horigin', hname'⟩ := hmember second (by simp)
          have hsame : first.mergeKey = second.mergeKey := by
            rw [Resolved.mergeKey, Resolved.mergeKey, hkind, hkind', horigin, horigin', hname,
              hname']
          rw [hmembers, List.map_cons, List.map_cons, hsame] at hnodup
          simp at hnodup

/-- The statements of a root are read back as the items of its published exports. -/
theorem items_of_statements (hsteps : ∀ name ∈ root.names, IsStep name)
    (hexports : ∀ entry ∈ exports, Publishable lookup read root entry)
    (hkeys : (exports.map Resolved.mergeKey).Nodup) :
    ((keysOf exports).flatMap fun key =>
        statementsOf lookup root key (membersOf exports key)).flatMap (items isType) =
      (published root exports).map (itemOf isType lookup root) := by
  rw [List.flatMap_assoc, published, List.map_flatMap]
  refine List.flatMap_congr fun key hkey => ?_
  have hmembers : ∀ entry ∈ membersOf exports key,
      Publishable lookup read root entry ∧ entry.groupKey = key := by
    intro entry hentry
    obtain ⟨hmem, hentryKey⟩ := ExportGroup.mem_membersOf.mp hentry
    exact ⟨hexports entry hmem, hentryKey⟩
  refine items_statementsOf hsteps hmembers ?_
  rintro kind origin name rfl
  exact membersOf_single hkeys hkey

end FlatExports.Statement
