import FlatExports.Proofs.Statement.Items

/-!
Exports that render alike.

The statements of a root do not depend on the local bindings of what other
modules define, nor on where the exports that are left in place stand between
the others, unless they come first.
-/

namespace FlatExports.Statement

open ExportGroup (keysOf membersOf)

variable {lookup : Lookup} {read : Survey.Reader} {root : Location}
  {entry other : Resolved} {members members' exports restated before after : List Resolved}
  {key : GroupKey}

/-! ## Exports that differ in local bindings -/

def unbound (entry : Resolved) : Resolved := { entry with localName := none, inline := false }

structure Alike (root : Location) (entry other : Resolved) : Prop where
  unbound_eq : unbound other = unbound entry
  own : entry.groupKey = .named root.written → other = entry

theorem Alike.congr {α : Type} {f : Resolved → α} (h : Alike root entry other)
    (hf : ∀ entry, f (unbound entry) = f entry) : f other = f entry := by
  rw [← hf other, h.unbound_eq, hf]

theorem Alike.groupKey (h : Alike root entry other) : other.groupKey = entry.groupKey :=
  h.congr fun _ => rfl

theorem Alike.mergeKey (h : Alike root entry other) : other.mergeKey = entry.mergeKey :=
  h.congr fun _ => rfl

theorem Alike.typeOnly (h : Alike root entry other) : other.typeOnly = entry.typeOnly :=
  h.congr fun _ => rfl

theorem Alike.originSpecifier (h : Alike root entry other) :
    originSpecifier other = originSpecifier entry :=
  h.congr fun _ => rfl

theorem Alike.isPublished (h : Alike root entry other) :
    isPublished root other = isPublished root entry := by
  by_cases hkey : entry.groupKey = .named root.written
  · rw [h.own hkey]
  · rw [isPublished_of_ne hkey, isPublished_of_ne (h.groupKey ▸ hkey)]

theorem Alike.publishable (h : Alike root entry other)
    (hentry : Publishable lookup read root entry) : Publishable lookup read root other := by
  rcases hentry with hown | ⟨hsource, hunnamed⟩
  · rw [h.own hown.groupKey]
    exact .inl hown
  · have hprovenance : other.provenance = entry.provenance := h.congr fun _ => rfl
    have hkind : other.kind = entry.kind := h.congr fun _ => rfl
    have hname : other.exportedName = entry.exportedName := h.congr fun _ => rfl
    exact .inr ⟨hprovenance ▸ hsource, hkind ▸ hname ▸ hunnamed⟩

theorem map_eq_of_alike {α : Type} {f : Resolved → α}
    (halike : List.Forall₂ (Alike root) members members')
    (h : ∀ entry other, Alike root entry other → f other = f entry) :
    members'.map f = members.map f := by
  induction halike with
  | nil => rfl
  | cons hfirst _ ih => rw [List.map_cons, List.map_cons, h _ _ hfirst, ih]

theorem filter_alike {keeps : Resolved → Bool}
    (halike : List.Forall₂ (Alike root) members members')
    (h : ∀ entry other, Alike root entry other → keeps other = keeps entry) :
    List.Forall₂ (Alike root) (members.filter keeps) (members'.filter keeps) := by
  induction halike with
  | nil => exact .nil
  | cons hfirst _ ih =>
      rw [List.filter_cons, List.filter_cons, h _ _ hfirst]
      split
      · exact .cons hfirst ih
      · exact ih

theorem keysOf_alike (halike : List.Forall₂ (Alike root) members members') :
    keysOf members' = keysOf members := by
  rw [keysOf, keysOf, map_eq_of_alike halike fun _ _ h => h.groupKey]

theorem membersOf_alike (halike : List.Forall₂ (Alike root) members members')
    (key : GroupKey) : List.Forall₂ (Alike root) (membersOf members key) (membersOf members' key) :=
  filter_alike halike fun _ _ h => by rw [h.groupKey]

theorem eq_of_alike_own (halike : List.Forall₂ (Alike root) members members')
    (hown : ∀ entry ∈ members, entry.groupKey = .named root.written) : members' = members := by
  induction halike with
  | nil => rfl
  | cons hfirst _ ih =>
      rw [List.forall_mem_cons] at hown
      rw [hfirst.own hown.1, ih hown.2]

theorem statementsOf_alike (halike : List.Forall₂ (Alike root) members members')
    (hkey : ∀ entry ∈ members, entry.groupKey = key) :
    statementsOf lookup root key members' = statementsOf lookup root key members := by
  by_cases hown : key = .named root.written
  · rw [eq_of_alike_own halike fun entry hentry => (hkey entry hentry).trans hown]
  · cases key with
    | named origin =>
        have horigin : origin ≠ root.written := fun heq => hown (heq ▸ rfl)
        rw [statementsOf, statementsOf, if_neg horigin, if_neg horigin,
          map_eq_of_alike halike fun _ _ h => h.originSpecifier]
    | single kind origin name =>
        have htypes := map_eq_of_alike halike fun _ _ h => h.typeOnly
        have hall : members'.all (·.typeOnly) = members.all (·.typeOnly) := by
          have hmap := congrArg (List.all · id) htypes
          simpa using hmap
        have hhead : (members'.headD default).typeOnly = (members.headD default).typeOnly := by
          cases halike with
          | nil => rfl
          | cons hfirst _ => exact hfirst.typeOnly
        cases kind with
        | wildcard => rw [statementsOf, statementsOf, hall]
        | named | default | namespaced => simp only [statementsOf, hhead]

/-! ## Exports that are left in place -/

theorem statementsOf_filter (hkey : ∀ entry ∈ members, entry.groupKey = key) :
    statementsOf lookup root key (members.filter (isPublished root)) =
      statementsOf lookup root key members := by
  by_cases hown : key = .named root.written
  · have hlocal : localSpecifiers (members.filter (isPublished root)) =
        localSpecifiers members := by
      rw [localSpecifiers, List.filterMap_filter]
      refine List.filterMap_congr fun entry hentry => ?_
      split
      · rfl
      · rename_i hunpublished
        have hinline : entry.inline = true := by
          simpa [isPublished, (hkey entry hentry).trans hown] using hunpublished
        rw [if_pos hinline]
    rw [hown, statementsOf, if_pos rfl, hlocal, statementsOf, if_pos rfl]
  · rw [List.filter_eq_self.mpr fun entry hentry =>
      isPublished_of_ne (hkey entry hentry ▸ hown)]

theorem filter_ne_of_notMem {own : GroupKey} {keys : List GroupKey} (h : own ∉ keys) :
    keys.filter (fun key => key ≠ own) = keys :=
  List.filter_eq_self.mpr fun _ hkey => by simpa using ne_of_mem_of_not_mem hkey h

theorem keysOf_around {own : GroupKey} (hne : before ≠ [])
    (hbefore : ∀ entry ∈ before, entry.groupKey = own)
    (hafter : ∀ entry ∈ after, entry.groupKey = own) :
    keysOf (before ++ restated ++ after) =
      own :: (keysOf restated).filter fun key => key ≠ own := by
  obtain ⟨first, rest, rfl⟩ := List.exists_cons_of_ne_nil hne
  have hrest : rest.filter (fun entry => entry.groupKey ≠ own) = [] := by
    rw [List.filter_eq_nil_iff]
    exact fun entry hentry => by simp [hbefore entry (List.mem_cons_of_mem _ hentry)]
  have hbehind : after.filter (fun entry => entry.groupKey ≠ own) = [] := by
    rw [List.filter_eq_nil_iff]
    exact fun entry hentry => by simp [hafter entry hentry]
  rw [List.cons_append, List.cons_append, ExportGroup.keysOf_cons,
    hbefore first List.mem_cons_self, List.filter_append, List.filter_append, hrest, hbehind,
    List.nil_append, List.append_nil, ← ExportGroup.keysOf_filter]

theorem flatMap_keysOf_around {α : Type} {own : GroupKey} {list : GroupKey → List α}
    (hbefore : ∀ entry ∈ before, entry.groupKey = own)
    (hafter : ∀ entry ∈ after, entry.groupKey = own)
    (hlist : own ∉ keysOf restated → list own = [])
    (hfirst : before ≠ [] → own ∈ keysOf restated → (keysOf restated).head? = some own) :
    (keysOf (before ++ restated ++ after)).flatMap list = (keysOf restated).flatMap list := by
  by_cases hnone : before = []
  · have hbehind : (keysOf (after.filter fun entry => entry.groupKey ∉ keysOf restated)).flatMap
        list = [] := by
      rw [List.flatMap_eq_nil_iff]
      intro key hkey
      obtain ⟨entry, hentry, rfl⟩ := ExportGroup.mem_keysOf.mp hkey
      obtain ⟨hmem, hfresh⟩ := List.mem_filter.mp hentry
      rw [hafter entry hmem] at hfresh ⊢
      exact hlist (by simpa using hfresh)
    rw [hnone, List.nil_append, ExportGroup.keysOf_append, List.flatMap_append, hbehind,
      List.append_nil]
  · rw [keysOf_around hnone hbefore hafter, List.flatMap_cons]
    by_cases hmem : own ∈ keysOf restated
    · obtain ⟨others, hothers⟩ : ∃ others, keysOf restated = own :: others :=
        List.head?_eq_some_iff.mp (hfirst hnone hmem)
      have hnodup := ExportGroup.nodup_keysOf restated
      rw [hothers, List.nodup_cons] at hnodup
      rw [hothers, List.filter_cons_of_neg (by simp), filter_ne_of_notMem hnodup.1,
        List.flatMap_cons]
    · rw [hlist hmem, List.nil_append, filter_ne_of_notMem hmem]

/-! ## Stating the exports again -/

def ownStatements (lookup : Lookup) (root : Location) (exports : List Resolved)
    (key : GroupKey) : List Statement :=
  statementsOf lookup root key ((membersOf exports key).filter (isPublished root))

theorem groupKey_of_mem_members (hentry : entry ∈ membersOf exports key) :
    entry.groupKey = key :=
  (ExportGroup.mem_membersOf.mp hentry).2

theorem ownStatements_eq (exports : List Resolved) (key : GroupKey) :
    statementsOf lookup root key (membersOf exports key) =
      ownStatements lookup root exports key :=
  (statementsOf_filter fun _ hentry => groupKey_of_mem_members hentry).symm

theorem groupKey_of_mem_block (key : GroupKey) :
    ∀ entry ∈ (membersOf exports key).filter (isPublished root), entry.groupKey = key :=
  fun _ hentry => groupKey_of_mem_members (List.mem_filter.mp hentry).1

theorem keysOf_published : keysOf (published root exports) =
    (keysOf exports).filter fun key =>
      !((membersOf exports key).filter (isPublished root)).isEmpty :=
  ExportGroup.keysOf_flatMap (ExportGroup.nodup_keysOf exports) groupKey_of_mem_block

theorem membersOf_published (key : GroupKey) : membersOf (published root exports) key =
    (membersOf exports key).filter (isPublished root) := by
  rw [published, ExportGroup.membersOf_flatMap (ExportGroup.nodup_keysOf exports)
    groupKey_of_mem_block]
  split
  · rfl
  · rename_i hkey
    rw [ExportGroup.membersOf_eq_nil hkey, List.filter_nil]

theorem ownStatements_of_unpublished
    (hnone : (membersOf exports key).filter (isPublished root) = [])
    (hkey : key ∈ keysOf exports ∨ key = .named root.written) :
    ownStatements lookup root exports key = [] := by
  have hown : key = .named root.written := by
    rcases hkey with hkey | hown
    · by_contra hne
      rw [List.filter_eq_self.mpr fun entry hentry =>
        isPublished_of_ne (groupKey_of_mem_members hentry ▸ hne)] at hnone
      exact ExportGroup.membersOf_ne_nil hkey hnone
    · exact hown
  rw [ownStatements, hnone, hown, statementsOf, if_pos rfl]
  rfl

theorem flatMap_filter_of_nil {α β : Type} {list : α → List β} {keeps : α → Bool}
    {entries : List α} (h : ∀ entry ∈ entries, keeps entry = false → list entry = []) :
    (entries.filter keeps).flatMap list = entries.flatMap list := by
  induction entries with
  | nil => rfl
  | cons first rest ih =>
      rw [List.forall_mem_cons] at h
      rw [List.filter_cons, List.flatMap_cons]
      split
      · rw [List.flatMap_cons, ih h.2]
      · rename_i hdropped
        rw [h.1 (by simpa using hdropped), List.nil_append, ih h.2]

theorem flatMap_keysOf_published :
    (keysOf (published root exports)).flatMap (ownStatements lookup root exports) =
      (keysOf exports).flatMap (ownStatements lookup root exports) := by
  rw [keysOf_published]
  refine flatMap_filter_of_nil fun key hkey hnone => ?_
  refine ownStatements_of_unpublished ?_ (.inl hkey)
  simpa using hnone

theorem statementsOf_restated
    (hrestated : List.Forall₂ (Alike root) (published root exports) restated)
    (hbefore : ∀ entry ∈ before, isPublished root entry = false)
    (hafter : ∀ entry ∈ after, isPublished root entry = false) (key : GroupKey) :
    statementsOf lookup root key (membersOf (before ++ restated ++ after) key) =
      ownStatements lookup root exports key := by
  have hinPlace (others : List Resolved)
      (hothers : ∀ entry ∈ others, isPublished root entry = false) :
      (membersOf others key).filter (isPublished root) = [] := by
    rw [List.filter_eq_nil_iff]
    intro entry hentry
    simp [hothers entry (ExportGroup.mem_membersOf.mp hentry).1]
  have hmembers := filter_alike (membersOf_alike hrestated key)
    fun _ _ h => h.isPublished
  rw [membersOf_published, List.filter_filter] at hmembers
  simp only [Bool.and_self] at hmembers
  rw [← statementsOf_filter fun _ hentry => groupKey_of_mem_members hentry,
    ExportGroup.membersOf_append, ExportGroup.membersOf_append, List.filter_append,
    List.filter_append, hinPlace before hbefore, hinPlace after hafter, List.nil_append,
    List.append_nil, ownStatements]
  exact statementsOf_alike hmembers (groupKey_of_mem_block key)

/-- Whatever is left in place may only stand in front if the root's own key is the first. -/
theorem statements_restated
    (hrestated : List.Forall₂ (Alike root) (published root exports) restated)
    (hbefore : ∀ entry ∈ before, entry.groupKey = .named root.written ∧ entry.inline = true)
    (hafter : ∀ entry ∈ after, entry.groupKey = .named root.written ∧ entry.inline = true)
    (hfirst : before ≠ [] → (keysOf exports).head? = some (.named root.written)) :
    ((keysOf (before ++ restated ++ after)).flatMap fun key =>
        statementsOf lookup root key (membersOf (before ++ restated ++ after) key)) =
      (keysOf exports).flatMap fun key =>
        statementsOf lookup root key (membersOf exports key) := by
  have hinPlace (others : List Resolved)
      (hothers : ∀ entry ∈ others, entry.groupKey = .named root.written ∧ entry.inline = true) :
      ∀ entry ∈ others, isPublished root entry = false := by
    intro entry hentry
    simp [isPublished, hothers entry hentry]
  simp only [statementsOf_restated hrestated (hinPlace before hbefore) (hinPlace after hafter),
    ownStatements_eq]
  have hkeys : keysOf restated = keysOf (published root exports) := keysOf_alike hrestated
  rw [← flatMap_keysOf_published, ← hkeys]
  refine flatMap_keysOf_around (fun entry hentry => (hbefore entry hentry).1)
    (fun entry hentry => (hafter entry hentry).1) ?_ ?_
  · intro hmissing
    refine ownStatements_of_unpublished ?_ (.inr rfl)
    rw [hkeys] at hmissing
    have hnone := ExportGroup.membersOf_eq_nil hmissing
    rwa [membersOf_published] at hnone
  · intro hne hmem
    obtain ⟨others, hothers⟩ := List.head?_eq_some_iff.mp (hfirst hne)
    rw [hkeys, keysOf_published] at hmem ⊢
    obtain ⟨-, hsome⟩ := List.mem_filter.mp hmem
    rw [hothers, List.filter_cons]
    split
    · rfl
    · rename_i hnone
      exact absurd hsome hnone

end FlatExports.Statement
