import FlatExports.Proofs.Repetition
import FlatExports.Proofs.Resolved.Merge
import Mathlib.Data.List.Induction

/-!
Which exports a merge keeps, and in which order.

A collected export survives unless it came through a wildcard under a name that
another one carries explicitly.  A merge keeps the first survivor of every key,
in the order in which the keys first survive, and changes nothing about it but
that a type may become a value.
-/

namespace FlatExports.Collected

open Resolved

variable {collected : List Collected} {entry : Collected} {kept exports : List Resolved}
  {export_ other : Resolved} {key : MergeKey} {name : String}

def IsExplicit (entry : Collected) : Prop :=
  entry.viaWildcard = false ∧ entry.export_.kind ≠ .wildcard

def Survives (collected : List Collected) (entry : Collected) : Prop :=
  entry.viaWildcard = true → entry.export_.kind ≠ .wildcard →
    ∀ other ∈ collected, other.IsExplicit →
      other.export_.exportedName ≠ entry.export_.exportedName

instance decidableIsExplicit (entry : Collected) : Decidable entry.IsExplicit :=
  inferInstanceAs (Decidable (_ ∧ _))

instance decidableSurvives (collected : List Collected) (entry : Collected) :
    Decidable (Survives collected entry) :=
  inferInstanceAs (Decidable (_ → _))

def survivors (collected : List Collected) : List Resolved :=
  (collected.filter fun entry => Survives collected entry).map (·.export_)

theorem explicit?_eq_none : explicit? collected name = none ↔
    ∀ other ∈ collected, other.IsExplicit → other.export_.exportedName ≠ name := by
  simp [explicit?, IsExplicit]

theorem survives_iff : Survives collected entry ↔ hiddenBy? collected entry = none := by
  unfold Survives hiddenBy?
  split
  · rename_i hvia
    simp [hvia, explicit?_eq_none]
  · rename_i hvia
    simp only [iff_true]
    intro htrue hkind
    exact absurd ⟨htrue, hkind⟩ hvia

theorem visible_eq_survivors : visible collected = survivors collected := by
  rw [visible, survivors]
  congr 1
  refine List.filter_congr fun entry _ => ?_
  rw [Bool.eq_iff_iff]
  simp [survives_iff]

theorem IsExplicit.survives (h : entry.IsExplicit) : Survives collected entry := by
  intro hvia
  rw [h.1] at hvia
  cases hvia

/-! ## Keys in order -/

theorem map_mergeKey_foldl_add (exports : List Resolved) :
    (exports.foldl add []).map mergeKey = (exports.map mergeKey).eraseDups := by
  induction exports using List.reverseRecOn with
  | nil => rfl
  | append_singleton exports last ih =>
      rw [List.foldl_concat, map_mergeKey_add, ih, List.map_append, List.map_singleton,
        eraseDups_concat]
      simp only [List.mem_eraseDups]

theorem mem_map_mergeKey_foldl_add :
    key ∈ (exports.foldl add []).map mergeKey ↔ key ∈ exports.map mergeKey := by
  rw [map_mergeKey_foldl_add, List.mem_eraseDups]

/-- Keys stand in the order in which they first occur among some others. -/
def InOrderOf (first : List MergeKey) (keys : List MergeKey) : Prop :=
  keys.Pairwise fun before behind => first.idxOf before < first.idxOf behind

theorem inOrderOf_foldl_add (exports : List Resolved) :
    InOrderOf (exports.map mergeKey) ((exports.foldl add []).map mergeKey) := by
  rw [map_mergeKey_foldl_add]
  exact pairwise_idxOf_eraseDups _

/-! ## First survivors -/

/-- An export is another one, as it is or as a value. -/
def Retains (export_ first : Resolved) : Prop := export_ = first ∨ export_ = first.asValue

theorem Retains.asValue (h : Retains export_ other) : Retains export_.asValue other := by
  rcases h with rfl | rfl
  · exact .inr rfl
  · exact .inr rfl

theorem Retains.mergeKey_eq (h : Retains export_ other) : export_.mergeKey = other.mergeKey := by
  rcases h with rfl | rfl <;> rfl

theorem mem_add (h : other ∈ add kept export_) :
    (∃ before ∈ kept, Retains other before) ∨
      other = export_ ∧ export_.mergeKey ∉ kept.map mergeKey := by
  induction kept with
  | nil =>
      rw [add, List.mem_singleton] at h
      exact .inr ⟨h, by simp⟩
  | cons first rest ih =>
      rw [add] at h
      split at h
      · rcases List.mem_cons.mp h with rfl | hrest
        · refine .inl ⟨first, List.mem_cons_self, ?_⟩
          split
          · exact .inr rfl
          · exact .inl rfl
        · exact .inl ⟨other, List.mem_cons_of_mem _ hrest, .inl rfl⟩
      · rename_i hkey
        rcases List.mem_cons.mp h with rfl | hrest
        · exact .inl ⟨other, List.mem_cons_self, .inl rfl⟩
        · rcases ih hrest with ⟨before, hbefore, hretains⟩ | ⟨rfl, hfresh⟩
          · exact .inl ⟨before, List.mem_cons_of_mem _ hbefore, hretains⟩
          · refine .inr ⟨rfl, ?_⟩
            rw [List.map_cons, List.mem_cons, not_or]
            exact ⟨fun heq => hkey heq.symm, hfresh⟩

def first? (exports : List Resolved) (key : MergeKey) : Option Resolved :=
  exports.find? fun export_ => export_.mergeKey = key

theorem retains_foldl_add (exports : List Resolved) :
    ∀ export_ ∈ exports.foldl add [],
      ∃ first, first? exports export_.mergeKey = some first ∧ Retains export_ first := by
  induction exports using List.reverseRecOn with
  | nil => simp
  | append_singleton exports last ih =>
      intro export_ hmem
      rw [List.foldl_concat] at hmem
      rcases mem_add hmem with ⟨before, hbefore, hretains⟩ | ⟨rfl, hfresh⟩
      · obtain ⟨first, hfirst, hbefore⟩ := ih before hbefore
        refine ⟨first, ?_, ?_⟩
        · rw [first?, List.find?_append, hretains.mergeKey_eq]
          exact Option.or_eq_some_iff.mpr (.inl hfirst)
        · rcases hretains with rfl | rfl
          · exact hbefore
          · exact hbefore.asValue
      · refine ⟨export_, ?_, .inl rfl⟩
        have hnone : exports.find? (fun other => other.mergeKey = export_.mergeKey) = none := by
          rw [List.find?_eq_none]
          intro other hother heq
          refine hfresh (mem_map_mergeKey_foldl_add.mpr (List.mem_map.mpr ⟨other, hother, ?_⟩))
          simpa using heq
        rw [first?, List.find?_append, hnone, Option.none_or]
        simp

theorem retains_promote (names : List String) (h : Retains export_ other) :
    Retains (promote names export_) other := by
  unfold promote
  split
  · exact h.asValue
  · exact h

theorem retains_merge (h : export_ ∈ merge collected) :
    ∃ first, first? (survivors collected) export_.mergeKey = some first ∧
      Retains export_ first := by
  rw [merge, visible_eq_survivors] at h
  obtain ⟨before, hbefore, rfl⟩ := List.mem_map.mp h
  obtain ⟨first, hfirst, hretains⟩ := retains_foldl_add _ before hbefore
  rw [mergeKey_promote]
  exact ⟨first, hfirst, retains_promote _ hretains⟩

/-! ## Merging -/

theorem map_mergeKey_merge :
    (merge collected).map mergeKey = ((survivors collected).foldl add []).map mergeKey := by
  simp [merge, visible_eq_survivors, mergeKey_promote]

theorem exists_survivor (hmem : entry ∈ collected) (hkind : entry.export_.kind ≠ .wildcard) :
    .name entry.export_.exportedName ∈ (survivors collected).map mergeKey := by
  have hsurvivor (other : Collected) (hother : other ∈ collected)
      (hsurvives : Survives collected other) : other.export_ ∈ survivors collected :=
    List.mem_map_of_mem (List.mem_filter.mpr ⟨hother, by simpa using hsurvives⟩)
  by_cases hsurvives : Survives collected entry
  · exact List.mem_map.mpr
      ⟨_, hsurvivor entry hmem hsurvives, mergeKey_eq_name.mpr ⟨hkind, rfl⟩⟩
  · simp only [Survives, not_forall, not_not] at hsurvives
    obtain ⟨-, -, other, hother, hexplicit, hname⟩ := hsurvives
    exact List.mem_map.mpr ⟨_, hsurvivor other hother hexplicit.survives,
      mergeKey_eq_name.mpr ⟨hexplicit.2, hname⟩⟩

/--
A merge keeps one export for the key of each survivor, in the order in which
the keys first survive.  It is the first survivor of its key but for a type
that may have become a value, no name gets lost, and merging once more changes
nothing, whatever is taken for a wildcard's.
-/
theorem merge_keeps_first_survivors (collected : List Collected) :
    let keys := (survivors collected).map mergeKey
    (∀ key, (merge collected).countP (·.mergeKey = key) = if key ∈ keys then 1 else 0) ∧
      InOrderOf keys ((merge collected).map mergeKey) ∧
      (∀ export_ ∈ merge collected,
        ∃ first, first? (survivors collected) export_.mergeKey = some first ∧
          Retains export_ first) ∧
      (∀ entry ∈ collected, entry.export_.kind ≠ .wildcard →
        ∃ export_ ∈ merge collected, export_.kind ≠ .wildcard ∧
          export_.exportedName = entry.export_.exportedName) ∧
      ∀ again, exportsOfAll again = merge collected → merge again = merge collected := by
  intro keys
  have hmem (key : MergeKey) : key ∈ (merge collected).map mergeKey ↔ key ∈ keys := by
    rw [map_mergeKey_merge, mem_map_mergeKey_foldl_add]
  refine ⟨fun key => ?_, ?_, fun export_ => retains_merge, ?_, ?_⟩
  · rw [countP_mergeKey nodup_mergeKey_merge]
    refine if_congr ?_ rfl rfl
    rw [symbolOf_isSome_iff, ← hmem, List.mem_map]
  · rw [map_mergeKey_merge]
    exact inOrderOf_foldl_add _
  · intro entry hentry hkind
    obtain ⟨export_, hexport, hkey⟩ := List.mem_map.mp ((hmem _).mpr (exists_survivor hentry hkind))
    exact ⟨export_, hexport, mergeKey_eq_name.mp hkey⟩
  · intro again hagain
    have hkeys : (again.map (·.export_.mergeKey)).Nodup := by
      have hnodup : ((merge collected).map mergeKey).Nodup := nodup_mergeKey_merge
      rw [← hagain, exportsOfAll, List.map_map] at hnodup
      exact hnodup
    rw [merge_of_nodup hkeys, hagain]

def twiceNamed : List Collected :=
  [⟨⟨"a", "/proj/a.ts", "a", false, .named, false, none, false⟩, true⟩,
    ⟨⟨"*", "react", "*", false, .wildcard, true, none, false⟩, true⟩,
    ⟨⟨"a", "/proj/a.ts", "a", true, .named, false, some "a", false⟩, false⟩]

theorem merge_keeps_first_survivors_twiceNamed :
    survivors twiceNamed =
        [⟨"*", "react", "*", false, .wildcard, true, none, false⟩,
          ⟨"a", "/proj/a.ts", "a", true, .named, false, some "a", false⟩] ∧
      (merge twiceNamed).countP (·.mergeKey = .name "a") = 1 ∧
      merge ((merge twiceNamed).map fun export_ => ⟨export_, true⟩) =
        [⟨"*", "react", "*", false, .wildcard, true, none, false⟩,
          ⟨"a", "/proj/a.ts", "a", false, .named, false, some "a", false⟩] := by
  obtain ⟨hcount, -, -, -, hagain⟩ := merge_keeps_first_survivors twiceNamed
  refine ⟨by decide +kernel, ?_, ?_⟩
  · rw [hcount]
    decide +kernel
  · rw [hagain _ exportsOfAll_viaWildcard]
    decide +kernel

end FlatExports.Collected
