import FlatExports.Proofs.Resolved.Group
import FlatExports.Proofs.Resolved.Survivors

/-!
Groups as a partition.

No export gets lost, none is doubled, and neither the exports of a group nor the
groups change their order.  Merged exports that need a statement each are in a
group each, because the merge leaves no two of one key.
-/

namespace FlatExports

namespace Resolved

variable {first second : Resolved}

def Joins (first second : Resolved) : Prop :=
  first.kind = second.kind ∧ first.origin = second.origin ∧
    (first.kind ≠ .named → first.exportedName = second.exportedName)

theorem groupKey_eq_iff : first.groupKey = second.groupKey ↔ first.Joins second := by
  by_cases hkind : second.kind = .named
  · have hkey : second.groupKey = .named second.origin := groupKey_eq_named.mpr ⟨hkind, rfl⟩
    rw [hkey, groupKey_eq_named, Joins, hkind]
    constructor
    · exact fun ⟨hnamed, horigin⟩ => ⟨hnamed, horigin, fun hne => absurd hnamed hne⟩
    · exact fun ⟨hnamed, horigin, _⟩ => ⟨hnamed, horigin⟩
  · have hkey : second.groupKey = .single second.kind second.origin second.exportedName :=
      groupKey_eq_single.mpr ⟨hkind, rfl, rfl, rfl⟩
    rw [hkey, groupKey_eq_single, Joins]
    constructor
    · exact fun ⟨_, hsame, horigin, hname⟩ => ⟨hsame, horigin, fun _ => hname⟩
    · exact fun ⟨hsame, horigin, hname⟩ =>
        ⟨hsame ▸ hkind, hsame, horigin, hname (hsame ▸ hkind)⟩

theorem Joins.mergeKey_eq (h : first.Joins second) (hkind : first.kind ≠ .named) :
    first.mergeKey = second.mergeKey := by
  obtain ⟨hsame, horigin, hname⟩ := h
  rw [mergeKey, mergeKey, ← hsame, horigin, hname hkind]

end Resolved

namespace ExportGroup

open Resolved Collected

variable {exports : List Resolved} {first second entry : Resolved} {key : GroupKey}
  {group : ExportGroup} {collected : List Collected}

/-! ## Where an export goes -/

theorem exists_group (hentry : entry ∈ exports) :
    ∃ before group after, ofExports exports = before ++ group :: after ∧
      group.exports.count entry = exports.count entry ∧
      ∀ other ∈ before ++ after, entry ∉ other.exports := by
  obtain ⟨before, after, hkeys⟩ :=
    List.append_of_mem (mem_keysOf.mpr ⟨entry, hentry, rfl⟩ : entry.groupKey ∈ keysOf exports)
  have hnodup := nodup_keysOf exports
  rw [hkeys, List.nodup_middle, List.nodup_cons] at hnodup
  refine ⟨_, _, _, by rw [ofExports_eq, hkeys, List.map_append, List.map_cons], ?_, ?_⟩
  · exact List.count_filter (by simp)
  · rw [← List.map_append]
    intro other hother hmem
    obtain ⟨key, hkey, rfl⟩ := List.mem_map.mp hother
    obtain ⟨-, rfl⟩ := mem_membersOf.mp hmem
    exact hnodup.1 hkey

theorem share_iff (hfirst : first ∈ exports) (hsecond : second ∈ exports) :
    (∃ group ∈ ofExports exports, first ∈ group.exports ∧ second ∈ group.exports) ↔
      first.Joins second := by
  rw [← groupKey_eq_iff, ofExports_eq]
  constructor
  · rintro ⟨group, hgroup, hfirst, hsecond⟩
    obtain ⟨key, -, rfl⟩ := List.mem_map.mp hgroup
    exact (mem_membersOf.mp hfirst).2.trans (mem_membersOf.mp hsecond).2.symm
  · intro hkey
    refine ⟨_, List.mem_map_of_mem (mem_keysOf.mpr ⟨first, hfirst, rfl⟩), ?_, ?_⟩
    · exact mem_membersOf.mpr ⟨hfirst, rfl⟩
    · exact mem_membersOf.mpr ⟨hsecond, hkey.symm⟩

/-! ## Orders -/

theorem sublist_of_mem (h : group ∈ ofExports exports) : group.exports.Sublist exports := by
  rw [ofExports_eq] at h
  obtain ⟨key, -, rfl⟩ := List.mem_map.mp h
  exact List.filter_sublist

def firstPlace (exports : List Resolved) (group : ExportGroup) : Nat :=
  exports.findIdx (· ∈ group.exports)

theorem firstPlace_gather :
    firstPlace exports (gather (membersOf exports key)) = (exports.map groupKey).idxOf key := by
  have hmem (entry : Resolved) (hentry : entry ∈ exports) :
      decide (entry ∈ membersOf exports key) = true ↔ (entry.groupKey == key) = true := by
    simp [mem_membersOf, hentry]
  rw [firstPlace, List.idxOf, List.findIdx_map]
  exact Nat.le_antisymm (List.findIdx_le_findIdx fun entry hentry => (hmem entry hentry).mpr)
    (List.findIdx_le_findIdx fun entry hentry => (hmem entry hentry).mp)

theorem pairwise_firstPlace (exports : List Resolved) :
    (ofExports exports).Pairwise fun before behind =>
      firstPlace exports before < firstPlace exports behind := by
  rw [ofExports_eq, List.pairwise_map]
  refine (pairwise_idxOf_eraseDups (exports.map groupKey)).imp fun hlt => ?_
  rwa [firstPlace_gather, firstPlace_gather]

/-! ## Merged exports -/

theorem single_of_merge (h : group ∈ ofExports (merge collected)) (hkind : group.kind ≠ .named) :
    ∃ entry, group.exports = [entry] := by
  have hkeys : (group.exports.map mergeKey).Nodup :=
    nodup_mergeKey_merge.sublist ((sublist_of_mem h).map mergeKey)
  obtain ⟨first, rest, rfl, hmember⟩ := mem_ofExports h
  cases rest with
  | nil => exact ⟨first, rfl⟩
  | cons second rest =>
      have hjoins : first.Joins second :=
        groupKey_eq_iff.mp (hmember second (.tail _ (.head _))).2.symm
      have hsame := hjoins.mergeKey_eq hkind
      exact absurd (hsame ▸ List.mem_cons_self) (List.nodup_cons.mp hkeys).1

/--
Grouping is a stable partition: every export is in one group as often as it is
given, exports keep their order in a group, groups stand in the order of their
first exports, and two exports share a group exactly if they may share a
statement.  Each group is of the kind and the origin of all its exports, and
none is empty.  Where merged exports are grouped, only named ones share.
-/
theorem ofExports_partitions (exports : List Resolved) :
    (∀ entry ∈ exports, ∃ before group after, ofExports exports = before ++ group :: after ∧
      group.exports.count entry = exports.count entry ∧
      ∀ other ∈ before ++ after, entry ∉ other.exports) ∧
    (∀ group ∈ ofExports exports, group.exports.Sublist exports) ∧
    ((ofExports exports).Pairwise fun before behind =>
      firstPlace exports before < firstPlace exports behind) ∧
    (∀ first ∈ exports, ∀ second ∈ exports,
      (∃ group ∈ ofExports exports, first ∈ group.exports ∧ second ∈ group.exports) ↔
        first.Joins second) ∧
    (∀ group ∈ ofExports exports, group.exports ≠ [] ∧
      ∀ entry ∈ group.exports, entry.kind = group.kind ∧ entry.origin = group.origin) ∧
    ∀ collected, ∀ group ∈ ofExports (merge collected), group.kind ≠ .named →
      ∃ entry, group.exports = [entry] := by
  refine ⟨fun entry => exists_group, fun group => sublist_of_mem, pairwise_firstPlace exports,
    fun first hfirst second hsecond => share_iff hfirst hsecond, fun group hgroup => ⟨?_, ?_⟩,
    fun collected group => single_of_merge⟩
  · obtain ⟨first, rest, rfl, -⟩ := mem_ofExports hgroup
    exact List.cons_ne_nil _ _
  · intro entry hentry
    obtain ⟨-, horigin, hkind⟩ := mem_group hgroup hentry
    exact ⟨hkind, horigin⟩

def interleaved : List Resolved :=
  [⟨"a", "/proj/a.ts", "a", false, .named, false, some "a", false⟩,
    ⟨"*", "react", "*", false, .wildcard, true, none, false⟩,
    ⟨"b", "/proj/a.ts", "b", false, .named, false, some "b", false⟩]

theorem ofExports_partitions_interleaved :
    (ofExports interleaved).map (·.exports.map (·.exportedName)) = [["a", "b"], ["*"]] ∧
      (∀ first ∈ interleaved, ∀ second ∈ interleaved, first.kind ≠ second.kind →
        ¬∃ group ∈ ofExports interleaved, first ∈ group.exports ∧ second ∈ group.exports) ∧
      ∀ group ∈ ofExports (merge (interleaved.map fun export_ => ⟨export_, true⟩)),
        group.kind ≠ .named → ∃ entry, group.exports = [entry] := by
  obtain ⟨-, -, -, hshare, -, hsingle⟩ := ofExports_partitions interleaved
  refine ⟨by decide +kernel, fun first hfirst second hsecond hkind => ?_, hsingle _⟩
  rw [hshare first hfirst second hsecond]
  exact fun hjoins => hkind hjoins.1

end ExportGroup

end FlatExports
