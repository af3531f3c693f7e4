import FlatExports.Proofs.Resolved.Survivors

/-!
Which merged exports are values.

A merged export is a value if one of the collected exports of its symbol is.
For a name or the wildcard of a package every collected export counts, hidden
or not; for a namespace only those count that survive.
-/

namespace FlatExports.Collected

open Resolved

variable {collected : List Collected} {entry : Collected} {kept : List Resolved}
  {export_ other source shadow : Resolved} {name : String}

/-! ## Survivors that are values -/

theorem mem_add_of_nodup (hkeys : (kept.map mergeKey).Nodup) (hmem : other ∈ add kept export_) :
    other.typeOnly = false ∨
      (other ∈ kept ∧ (Same other export_ → other.typeOnly = export_.typeOnly)) ∨
      (other = export_ ∧ export_.mergeKey ∉ kept.map mergeKey) := by
  induction kept with
  | nil => exact .inr (.inr ⟨List.mem_singleton.mp hmem, by simp⟩)
  | cons first rest ih =>
      rw [List.map_cons, List.nodup_cons] at hkeys
      rw [add] at hmem
      by_cases hkey : first.mergeKey = export_.mergeKey
      · rw [if_pos hkey] at hmem
        rcases List.mem_cons.mp hmem with hfirst | hrest
        · by_cases hdiffers : first.differsOnlyInType export_ = true
          · rw [if_pos hdiffers] at hfirst
            exact .inl (hfirst ▸ rfl)
          · rw [if_neg hdiffers] at hfirst
            subst hfirst
            refine .inr (.inl ⟨List.mem_cons_self, fun hsame => ?_⟩)
            by_contra hne
            exact hdiffers (differsOnlyInType_iff.mpr ⟨hsame.2.1, hsame.2.2.1, hsame.2.2.2, hne⟩)
        · refine .inr (.inl ⟨List.mem_cons_of_mem _ hrest, fun hsame => ?_⟩)
          have hhead : first.mergeKey = other.mergeKey := hkey.trans hsame.1.symm
          exact absurd (hhead ▸ List.mem_map_of_mem hrest) hkeys.1
      · rw [if_neg hkey] at hmem
        rcases List.mem_cons.mp hmem with rfl | hrest
        · exact .inr (.inl ⟨List.mem_cons_self, fun hsame => absurd hsame.1 hkey⟩)
        · rcases ih hkeys.2 hrest with hvalue | ⟨hkept, hflag⟩ | ⟨rfl, hfresh⟩
          · exact .inl hvalue
          · exact .inr (.inl ⟨List.mem_cons_of_mem _ hkept, hflag⟩)
          · refine .inr (.inr ⟨rfl, ?_⟩)
            rw [List.map_cons, List.mem_cons, not_or]
            exact ⟨Ne.symm hkey, hfresh⟩

theorem value_of_foldl_add (exports : List Resolved) :
    ∀ other ∈ exports.foldl add [], ∀ source ∈ exports, source.typeOnly = false →
      Same other source → other.typeOnly = false := by
  induction exports using List.reverseRecOn with
  | nil => simp
  | append_singleton exports last ih =>
      intro other hmem source hsource hvalue hsame
      rw [List.foldl_concat] at hmem
      have hkeys : ((exports.foldl add []).map mergeKey).Nodup := nodup_mergeKey_foldl_add (by simp)
      rcases mem_add_of_nodup hkeys hmem with hother | ⟨hkept, hflag⟩ | ⟨rfl, hfresh⟩
      · exact hother
      · rcases List.mem_append.mp hsource with hearlier | hlast
        · exact ih other hkept source hearlier hvalue hsame
        · obtain rfl := List.mem_singleton.mp hlast
          rw [hflag hsame, hvalue]
      · rcases List.mem_append.mp hsource with hearlier | hlast
        · rw [mem_map_mergeKey_foldl_add, hsame.1] at hfresh
          exact absurd (List.mem_map_of_mem hearlier) hfresh
        · rwa [← List.mem_singleton.mp hlast]

theorem same_promote {names : List String} (h : Same (promote names export_) source) :
    Same export_ source :=
  (same_of_asValue_eq (asValue_promote names).symm).trans h

theorem typeOnly_promote {names : List String} (h : export_.typeOnly = false) :
    (promote names export_).typeOnly = false := by
  unfold promote
  split
  · rfl
  · exact h

theorem value_of_survivor (hmem : export_ ∈ merge collected)
    (hsource : source ∈ survivors collected) (hvalue : source.typeOnly = false)
    (hsame : Same export_ source) : export_.typeOnly = false := by
  rw [merge, visible_eq_survivors] at hmem
  obtain ⟨before, hbefore, rfl⟩ := List.mem_map.mp hmem
  exact typeOnly_promote
    (value_of_foldl_add _ before hbefore source hsource hvalue (same_promote hsame))

/-! ## Hidden values -/

theorem mem_survivors (hmem : entry ∈ collected) (h : Survives collected entry) :
    entry.export_ ∈ survivors collected :=
  List.mem_map_of_mem (List.mem_filter.mpr ⟨hmem, by simpa using h⟩)

theorem exists_hiddenBy? (h : ¬Survives collected entry) :
    ∃ shadow, hiddenBy? collected entry = some shadow := by
  rw [survives_iff] at h
  exact Option.ne_none_iff_exists'.mp h

theorem value_of_hidden (hmem : export_ ∈ merge collected) (hkind : export_.kind = .named)
    (hentry : entry ∈ collected) (hhidden : ¬Survives collected entry)
    (hvalue : entry.export_.typeOnly = false) (hsame : Same export_ entry.export_) :
    export_.typeOnly = false := by
  obtain ⟨shadow, hshadow⟩ := exists_hiddenBy? hhidden
  obtain ⟨-, hwildcard, hexplicit⟩ := hiddenBy?_eq_some.mp hshadow
  have hkey : export_.mergeKey = .name entry.export_.exportedName :=
    hsame.1.trans (mergeKey_eq_name.mpr ⟨hwildcard, rfl⟩)
  have htwin : Same export_ shadow := same_of_asValue_eq (merge_explicit hexplicit hmem hkey)
  cases htyped : shadow.typeOnly with
  | false =>
      obtain ⟨other, hother, hdirect, hotherKey, rfl⟩ := explicit?_eq_some hexplicit
      have hsurvives : Survives collected other :=
        IsExplicit.survives ⟨hdirect, (mergeKey_eq_name.mp hotherKey).1⟩
      exact value_of_survivor hmem (mem_survivors hother hsurvives) htyped htwin
  | true =>
      have hdiffers : shadow.differsOnlyInType entry.export_ = true :=
        differsOnlyInType_iff.mpr ⟨htwin.2.1.symm.trans hsame.2.1,
          htwin.2.2.1.symm.trans hsame.2.2.1, htwin.2.2.2.symm.trans hsame.2.2.2,
          by simp [htyped, hvalue]⟩
      have hpromoted : entry.export_.exportedName ∈ promoted collected :=
        mem_promoted.mpr ⟨entry, hentry, shadow, hshadow, hvalue, hdiffers, rfl⟩
      obtain ⟨before, -, rfl⟩ := List.mem_map.mp hmem
      have hbefore : Same (promote (promoted collected) before) before :=
        same_of_asValue_eq (asValue_promote _)
      rw [mergeKey_promote, mergeKey_eq_name] at hkey
      have hnamed : before.kind = .named := hbefore.2.1.symm.trans hkind
      cases hflag : before.typeOnly with
      | false => exact typeOnly_promote hflag
      | true =>
          rw [promote, if_pos ⟨hflag, hkey.2 ▸ hpromoted, hnamed⟩]
          rfl

/-! ## Merging -/

theorem exists_surviving_value (hmem : export_ ∈ merge collected) (hkind : export_.kind ≠ .named)
    (hvalue : export_.typeOnly = false) :
    ∃ source ∈ survivors collected, source.typeOnly = false ∧ Same export_ source := by
  rw [merge, visible_eq_survivors] at hmem
  obtain ⟨before, hbefore, rfl⟩ := List.mem_map.mp hmem
  have hsame : Same (promote (promoted collected) before) before :=
    same_of_asValue_eq (asValue_promote _)
  have hkept : promote (promoted collected) before = before :=
    if_neg fun h => hkind (hsame.2.1.trans h.2.2)
  rw [hkept] at hvalue ⊢
  obtain ⟨source, hsource, hsourceValue, hsource'⟩ := exists_value_of_foldl_add hbefore hvalue
  exact ⟨source, by simpa using hsource, hsourceValue, hsource'⟩

/--
A merged name or package wildcard is a value exactly if some collected export
of the same symbol is, hidden or not and wherever it stands.  For a namespace
only the collected exports count that survive.
-/
theorem merged_value_iff (collected : List Collected) :
    ∀ export_ ∈ merge collected,
      export_.typeOnly = false ↔
        ∃ entry ∈ collected, entry.export_.typeOnly = false ∧ Same export_ entry.export_ ∧
          (export_.kind = .named ∨ export_.kind = .wildcard ∨ Survives collected entry) := by
  intro export_ hmem
  constructor
  · intro hvalue
    by_cases hkind : export_.kind = .named
    · obtain ⟨source, hsource, hsourceValue, hsame⟩ := exists_value_of_merge hmem hvalue
      obtain ⟨entry, hentry, rfl⟩ := List.mem_map.mp hsource
      exact ⟨entry, hentry, hsourceValue, hsame, .inl hkind⟩
    · obtain ⟨source, hsource, hsourceValue, hsame⟩ := exists_surviving_value hmem hkind hvalue
      obtain ⟨entry, hentry, rfl⟩ := List.mem_map.mp hsource
      obtain ⟨hentry, hsurvives⟩ := List.mem_filter.mp hentry
      exact ⟨entry, hentry, hsourceValue, hsame, .inr (.inr (by simpa using hsurvives))⟩
  · rintro ⟨entry, hentry, hvalue, hsame, hcounts⟩
    by_cases hsurvives : Survives collected entry
    · exact value_of_survivor hmem (mem_survivors hentry hsurvives) hvalue hsame
    · rcases hcounts with hnamed | hwildcard | hcounts
      · exact value_of_hidden hmem hnamed hentry hsurvives hvalue hsame
      · obtain ⟨shadow, hshadow⟩ := exists_hiddenBy? hsurvives
        obtain ⟨-, hkind, -⟩ := hiddenBy?_eq_some.mp hshadow
        exact absurd (hsame.2.1.symm.trans hwildcard) hkind
      · exact absurd hcounts hsurvives

theorem merged_value_iff_twiceNamed :
    ∃ export_ ∈ merge twiceNamed, export_.exportedName = "a" ∧ export_.typeOnly = false := by
  refine ⟨⟨"a", "/proj/a.ts", "a", false, .named, false, some "a", false⟩, by decide +kernel, rfl,
    ?_⟩
  refine (merged_value_iff twiceNamed _ (by decide +kernel)).mpr ⟨_, List.mem_cons_self, rfl, ?_⟩
  exact ⟨⟨rfl, rfl, rfl, rfl⟩, .inl rfl⟩

def hiddenNamespace : List Collected :=
  [⟨⟨"shapes", "/proj/shapes.ts", "*", true, .namespaced, false, none, false⟩, false⟩,
    ⟨⟨"shapes", "/proj/shapes.ts", "*", false, .namespaced, false, none, false⟩, true⟩]

/-- A hidden value leaves a namespace a type. -/
theorem merged_value_ne_hiddenNamespace :
    ∃ export_ ∈ merge hiddenNamespace, export_.typeOnly = true ∧
      ∃ entry ∈ hiddenNamespace, entry.export_.typeOnly = false ∧ Same export_ entry.export_ :=
  ⟨⟨"shapes", "/proj/shapes.ts", "*", true, .namespaced, false, none, false⟩, by decide +kernel,
    rfl, ⟨⟨"shapes", "/proj/shapes.ts", "*", false, .namespaced, false, none, false⟩, true⟩,
    by decide, rfl, ⟨rfl, rfl, rfl, rfl⟩⟩

end FlatExports.Collected
