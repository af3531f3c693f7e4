import FlatExports.Proofs.Repetition
import FlatExports.Resolved.Group
import Mathlib.Data.List.Induction
import Mathlib.Data.List.Nodup

/-!
Groups of exports.

Grouping is a stable partition: one group for each key, in the order in which
the keys first occur, and in each group the exports of its key in their order.
-/

namespace FlatExports

theorem Resolved.groupKey_eq_named {export_ : Resolved} {origin : String} :
    export_.groupKey = .named origin ↔ export_.kind = .named ∧ export_.origin = origin := by
  unfold groupKey
  split
  · rename_i hkind
    simp [hkind]
  · rename_i hkind
    simp [hkind]

theorem Resolved.groupKey_eq_single {export_ : Resolved} {kind : ExportKind}
    {origin name : String} : export_.groupKey = .single kind origin name ↔
      export_.kind ≠ .named ∧ export_.kind = kind ∧ export_.origin = origin ∧
        export_.exportedName = name := by
  unfold groupKey
  split
  · rename_i hkind
    simp [hkind]
  · rename_i hkind
    simp [hkind]

theorem Resolved.eq_of_groupKey_eq {first second : Resolved}
    (h : first.groupKey = second.groupKey) :
    first.origin = second.origin ∧ first.kind = second.kind := by
  cases hkey : second.groupKey with
  | named origin =>
      obtain ⟨hkind, horigin⟩ := groupKey_eq_named.mp hkey
      obtain ⟨hkind', horigin'⟩ := groupKey_eq_named.mp (h.trans hkey)
      exact ⟨horigin'.trans horigin.symm, hkind'.trans hkind.symm⟩
  | single kind origin name =>
      obtain ⟨-, hkind, horigin, -⟩ := groupKey_eq_single.mp hkey
      obtain ⟨-, hkind', horigin', -⟩ := groupKey_eq_single.mp (h.trans hkey)
      exact ⟨horigin'.trans horigin.symm, hkind'.trans hkind.symm⟩

namespace ExportGroup

open Resolved

variable {exports first rest : List Resolved} {export_ : Resolved} {key : GroupKey}

def keysOf (exports : List Resolved) : List GroupKey :=
  (exports.map groupKey).eraseDups

def membersOf (exports : List Resolved) (key : GroupKey) : List Resolved :=
  exports.filter (·.groupKey = key)

def gather (members : List Resolved) : ExportGroup :=
  { start (members.headD default) with exports := members }

/-! ## Keys -/

@[simp] theorem keysOf_nil : keysOf [] = [] := rfl

theorem keysOf_append (first rest : List Resolved) :
    keysOf (first ++ rest) =
      keysOf first ++ keysOf (rest.filter fun entry => entry.groupKey ∉ keysOf first) := by
  rw [keysOf, List.map_append, List.eraseDups_append, keysOf]
  congr 1
  rw [keysOf, List.removeAll, List.filter_map]
  congr 2
  refine List.filter_congr fun entry _ => ?_
  rw [Bool.eq_iff_iff]
  simp

theorem mem_keysOf : key ∈ keysOf exports ↔ ∃ entry ∈ exports, entry.groupKey = key := by
  simp [keysOf]

theorem keysOf_cons : keysOf (export_ :: rest) =
    export_.groupKey :: keysOf (rest.filter fun entry => entry.groupKey ≠ export_.groupKey) := by
  rw [keysOf, List.map_cons, List.eraseDups_cons, keysOf, List.filter_map]
  congr 3
  refine List.filter_congr fun entry _ => ?_
  rw [Bool.eq_iff_iff]
  simp

theorem keysOf_concat : keysOf (exports ++ [export_]) =
    keysOf exports ++ if export_.groupKey ∈ keysOf exports then [] else [export_.groupKey] := by
  rw [keysOf, List.map_append, List.map_singleton, eraseDups_concat]
  simp only [keysOf, List.mem_eraseDups]

theorem nodup_keysOf (exports : List Resolved) : (keysOf exports).Nodup :=
  nodup_eraseDups _

theorem keysOf_filter (keeps : GroupKey → Bool) (exports : List Resolved) :
    keysOf (exports.filter fun entry => keeps entry.groupKey) = (keysOf exports).filter keeps := by
  induction exports using List.reverseRecOn with
  | nil => rfl
  | append_singleton exports export_ ih =>
      rw [List.filter_append, keysOf_concat, List.filter_append, ← ih]
      by_cases hkeeps : keeps export_.groupKey
      · rw [List.filter_cons_of_pos (by simpa using hkeeps), List.filter_nil, keysOf_concat, ih]
        by_cases hmem : export_.groupKey ∈ keysOf exports
        · simp [hmem, hkeeps]
        · simp [hmem, hkeeps]
      · rw [List.filter_cons_of_neg (by simpa using hkeeps), List.filter_nil, List.append_nil]
        split
        · simp
        · simp [hkeeps]

/-! ## Members -/

theorem membersOf_append (first rest : List Resolved) (key : GroupKey) :
    membersOf (first ++ rest) key = membersOf first key ++ membersOf rest key :=
  List.filter_append _ _

theorem mem_membersOf : export_ ∈ membersOf exports key ↔
    export_ ∈ exports ∧ export_.groupKey = key := by
  simp [membersOf]

theorem membersOf_singleton :
    membersOf [export_] key = if export_.groupKey = key then [export_] else [] := by
  simp [membersOf, List.filter_cons]

theorem membersOf_ne_nil (h : key ∈ keysOf exports) : membersOf exports key ≠ [] := by
  obtain ⟨entry, hentry, hkey⟩ := mem_keysOf.mp h
  exact List.ne_nil_of_mem (mem_membersOf.mpr ⟨hentry, hkey⟩)

theorem membersOf_eq_nil (h : key ∉ keysOf exports) : membersOf exports key = [] := by
  rw [membersOf, List.filter_eq_nil_iff]
  intro entry hentry hkey
  exact h (mem_keysOf.mpr ⟨entry, hentry, by simpa using hkey⟩)

/-! ## Groups -/

theorem add_map {keys : List GroupKey} {groupOf : GroupKey → ExportGroup} (hkeys : keys.Nodup) :
    add (keys.map fun key => (key, groupOf key)) export_ =
      if export_.groupKey ∈ keys then
        keys.map fun key =>
          (key, if key = export_.groupKey then
            { groupOf key with exports := (groupOf key).exports ++ [export_] }
          else groupOf key)
      else keys.map (fun key => (key, groupOf key)) ++ [(export_.groupKey, start export_)] := by
  induction keys with
  | nil => rfl
  | cons key rest ih =>
      rw [List.nodup_cons] at hkeys
      rw [List.map_cons, add]
      by_cases hkey : key = export_.groupKey
      · subst hkey
        rw [if_pos rfl, if_pos List.mem_cons_self, List.map_cons, if_pos rfl]
        congr 1
        refine List.map_congr_left fun other hother => ?_
        have hne : other ≠ export_.groupKey := fun heq => hkeys.1 (heq ▸ hother)
        rw [if_neg hne]
      · rw [if_neg hkey, ih hkeys.2]
        by_cases hmem : export_.groupKey ∈ rest
        · rw [if_pos hmem, if_pos (List.mem_cons_of_mem _ hmem), List.map_cons, if_neg hkey]
        · have hfresh : export_.groupKey ∉ key :: rest := by simp [Ne.symm hkey, hmem]
          rw [if_neg hmem, if_neg hfresh, List.cons_append]

theorem foldl_add_eq (exports : List Resolved) :
    exports.foldl add [] = (keysOf exports).map fun key => (key, gather (membersOf exports key)) := by
  induction exports using List.reverseRecOn with
  | nil => rfl
  | append_singleton exports export_ ih =>
      rw [List.foldl_append, List.foldl_cons, List.foldl_nil, ih, add_map (nodup_keysOf exports),
        keysOf_concat]
      have hother {key : GroupKey} (hkey : key ≠ export_.groupKey) :
          membersOf (exports ++ [export_]) key = membersOf exports key := by
        rw [membersOf_append, membersOf_singleton, if_neg (Ne.symm hkey), List.append_nil]
      split
      · rename_i hmem
        rw [List.append_nil]
        refine List.map_congr_left fun key hkey => ?_
        split
        · rename_i heq
          subst heq
          obtain ⟨first, rest, hmembers⟩ := List.exists_cons_of_ne_nil (membersOf_ne_nil hmem)
          rw [membersOf_append, membersOf_singleton, if_pos rfl, hmembers]
          rfl
        · rename_i hne
          rw [hother hne]
      · rename_i hfresh
        rw [List.map_append]
        congr 1
        · refine List.map_congr_left fun key hkey => ?_
          rw [hother fun heq => hfresh (heq ▸ hkey)]
        · rw [List.map_singleton, membersOf_append, membersOf_eq_nil hfresh, membersOf_singleton,
            if_pos rfl]
          rfl

/-- There is one group for each key, and it holds the exports of the key. -/
theorem ofExports_eq (exports : List Resolved) :
    ofExports exports = (keysOf exports).map fun key => gather (membersOf exports key) := by
  rw [ofExports, foldl_add_eq, List.map_map]
  rfl

section

variable {group : ExportGroup}

theorem mem_ofExports (h : group ∈ ofExports exports) :
    ∃ first rest, group = gather (first :: rest) ∧
      ∀ entry ∈ first :: rest, entry ∈ exports ∧ entry.groupKey = first.groupKey := by
  rw [ofExports_eq] at h
  obtain ⟨key, hkey, rfl⟩ := List.mem_map.mp h
  obtain ⟨first, rest, hmembers⟩ := List.exists_cons_of_ne_nil (membersOf_ne_nil hkey)
  have hmember (entry : Resolved) (hentry : entry ∈ first :: rest) :
      entry ∈ exports ∧ entry.groupKey = key :=
    mem_membersOf.mp (hmembers ▸ hentry)
  obtain ⟨-, rfl⟩ := hmember first List.mem_cons_self
  exact ⟨first, rest, by rw [hmembers], hmember⟩

theorem exists_first (h : group ∈ ofExports exports) :
    ∃ first ∈ exports, first.origin = group.origin ∧ first.external = group.external := by
  obtain ⟨first, rest, rfl, hmember⟩ := mem_ofExports h
  exact ⟨first, (hmember first List.mem_cons_self).1, rfl, rfl⟩

theorem mem_group (h : group ∈ ofExports exports) (hmem : export_ ∈ group.exports) :
    export_ ∈ exports ∧ export_.origin = group.origin ∧ export_.kind = group.kind := by
  obtain ⟨first, rest, rfl, hmember⟩ := mem_ofExports h
  obtain ⟨hexport, hkey⟩ := hmember export_ hmem
  exact ⟨hexport, eq_of_groupKey_eq hkey⟩

end

/-! ## Exports listed key by key -/

theorem keysOf_of_forall (h : ∀ entry ∈ exports, entry.groupKey = key) :
    keysOf exports = if exports.isEmpty then [] else [key] := by
  cases exports with
  | nil => rfl
  | cons first rest =>
      have hnone : rest.filter (fun entry => entry.groupKey ≠ first.groupKey) = [] := by
        rw [List.filter_eq_nil_iff]
        intro entry hentry
        rw [h entry (List.mem_cons_of_mem _ hentry), h first List.mem_cons_self]
        simp
      rw [keysOf_cons, hnone, h first List.mem_cons_self]
      rfl

section

variable {keys : List GroupKey} {block : GroupKey → List Resolved}

theorem keysOf_flatMap (hkeys : keys.Nodup)
    (hblock : ∀ key, ∀ entry ∈ block key, entry.groupKey = key) :
    keysOf (keys.flatMap block) = keys.filter fun key => !(block key).isEmpty := by
  induction keys with
  | nil => rfl
  | cons key rest ih =>
      rw [List.nodup_cons] at hkeys
      have hfresh : (rest.flatMap block).filter (fun entry => entry.groupKey ∉ keysOf (block key)) =
          rest.flatMap block := by
        rw [List.filter_eq_self]
        intro entry hentry
        obtain ⟨other, hother, hmem⟩ := List.mem_flatMap.mp hentry
        have hne : entry.groupKey ≠ key := by
          rw [hblock other entry hmem]
          exact fun heq => hkeys.1 (heq ▸ hother)
        rw [keysOf_of_forall (hblock key)]
        split <;> simp [hne]
      rw [List.flatMap_cons, keysOf_append, hfresh, ih hkeys.2, keysOf_of_forall (hblock key),
        List.filter_cons]
      cases (block key).isEmpty <;> rfl

theorem membersOf_flatMap (hkeys : keys.Nodup)
    (hblock : ∀ key, ∀ entry ∈ block key, entry.groupKey = key) :
    membersOf (keys.flatMap block) key = if key ∈ keys then block key else [] := by
  induction keys with
  | nil => rfl
  | cons first rest ih =>
      rw [List.nodup_cons] at hkeys
      rw [List.flatMap_cons, membersOf_append, ih hkeys.2]
      by_cases hkey : key = first
      · subst hkey
        rw [if_neg hkeys.1, if_pos List.mem_cons_self, List.append_nil, membersOf,
          List.filter_eq_self]
        exact fun entry hentry => by simpa using hblock key entry hentry
      · have hnone : membersOf (block first) key = [] := by
          rw [membersOf, List.filter_eq_nil_iff]
          intro entry hentry
          rw [hblock first entry hentry]
          simpa using Ne.symm hkey
        rw [hnone, List.nil_append]
        simp [hkey]

end

end ExportGroup

end FlatExports
