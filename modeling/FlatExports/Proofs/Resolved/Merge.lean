import FlatExports.Resolved.Merge
import Mathlib.Data.List.Nodup

/-!
What a merge keeps.

The *symbol* of a key is the first export of that key, type or value alike.  A
merge keeps one export of each key, and its symbols are those of the exports
that no explicit one hides.
-/

namespace FlatExports

namespace Resolved

variable {export_ other : Resolved} {exports : List Resolved} {key : MergeKey}

@[simp] theorem mergeKey_asValue : export_.asValue.mergeKey = export_.mergeKey := rfl

@[simp] theorem mergeKey_asType : export_.asType.mergeKey = export_.mergeKey := rfl

@[simp] theorem asValue_asValue : export_.asValue.asValue = export_.asValue := rfl

@[simp] theorem asValue_asType : export_.asType.asValue = export_.asValue := rfl

theorem exists_typeOnly_of_asValue_eq (h : export_.asValue = other.asValue) :
    ∃ typeOnly, other = { export_ with typeOnly := typeOnly } := by
  obtain ⟨exported, origin, originName, typeOnly, kind, external, localName, inline⟩ := other
  simp only [asValue, Resolved.mk.injEq] at h
  obtain ⟨rfl, rfl, rfl, -, rfl, rfl, rfl, rfl⟩ := h
  exact ⟨typeOnly, rfl⟩

theorem mergeKey_eq_of_asValue_eq (h : export_.asValue = other.asValue) :
    export_.mergeKey = other.mergeKey := by
  obtain ⟨typeOnly, rfl⟩ := exists_typeOnly_of_asValue_eq h
  rfl

theorem mergeKey_eq_name {name : String} :
    export_.mergeKey = .name name ↔ export_.kind ≠ .wildcard ∧ export_.exportedName = name := by
  unfold mergeKey
  split
  · rename_i hkind
    simp [hkind]
  · rename_i hkind
    simp [hkind]

theorem mergeKey_eq_package {package : String} :
    export_.mergeKey = .package package ↔
      export_.kind = .wildcard ∧ export_.origin = package := by
  unfold mergeKey
  split
  · rename_i hkind
    simp [hkind]
  · rename_i hkind
    simp [hkind]

/-! ## Symbols -/

def symbolOf (exports : List Resolved) (key : MergeKey) : Option Resolved :=
  (exports.map asValue).find? (·.mergeKey == key)

@[simp] theorem symbolOf_nil : symbolOf [] key = none := rfl

theorem symbolOf_append (first second : List Resolved) :
    symbolOf (first ++ second) key = (symbolOf first key).or (symbolOf second key) := by
  simp [symbolOf]

theorem symbolOf_cons : symbolOf (export_ :: exports) key =
    if export_.mergeKey = key then some export_.asValue else symbolOf exports key := by
  simp only [symbolOf, List.map_cons, List.find?_cons, mergeKey_asValue]
  split
  · rename_i h
    rw [if_pos (by simpa using h)]
  · rename_i h
    rw [if_neg (by simpa using h)]

theorem symbolOf_map_asType : symbolOf (exports.map asType) key = symbolOf exports key := by
  simp [symbolOf, Function.comp_def]

theorem mem_of_symbolOf {symbol : Resolved} (h : symbolOf exports key = some symbol) :
    ∃ entry ∈ exports, entry.asValue = symbol :=
  List.mem_map.mp (List.mem_of_find?_eq_some h)

theorem symbolOf_isSome_iff :
    (symbolOf exports key).isSome ↔ ∃ entry ∈ exports, entry.mergeKey = key := by
  simp [symbolOf]

theorem symbolOf_of_mem (hkeys : (exports.map mergeKey).Nodup) (hmem : export_ ∈ exports) :
    symbolOf exports export_.mergeKey = some export_.asValue := by
  induction exports with
  | nil => cases hmem
  | cons first rest ih =>
      rw [List.map_cons, List.nodup_cons] at hkeys
      rw [symbolOf_cons]
      rcases List.mem_cons.mp hmem with rfl | hrest
      · rw [if_pos rfl]
      · have hne : first.mergeKey ≠ export_.mergeKey := fun heq =>
          hkeys.1 (heq ▸ List.mem_map_of_mem hrest)
        rw [if_neg hne]
        exact ih hkeys.2 hrest

theorem countP_mergeKey (hkeys : (exports.map mergeKey).Nodup) :
    exports.countP (·.mergeKey = key) = if (symbolOf exports key).isSome then 1 else 0 := by
  have hcount : exports.countP (·.mergeKey = key) = (exports.map mergeKey).count key := by
    rw [List.count, List.countP_map]
    refine List.countP_congr fun entry _ => ?_
    simp
  have hmem : key ∈ exports.map mergeKey ↔ (symbolOf exports key).isSome := by
    rw [symbolOf_isSome_iff, List.mem_map]
  rw [hcount]
  split
  · rename_i hsome
    exact List.count_eq_one_of_mem hkeys (hmem.mpr hsome)
  · rename_i hnone
    exact List.count_eq_zero_of_not_mem fun h => hnone (hmem.mp h)

end Resolved

namespace Collected

open Resolved

variable {collected : List Collected} {kept exports : List Resolved} {export_ : Resolved}
  {key : MergeKey} {name package : String}

abbrev exportsOfAll (collected : List Collected) : List Resolved :=
  collected.map (·.export_)

theorem exportsOfAll_viaWildcard :
    exportsOfAll (exports.map fun export_ => ⟨export_, true⟩) = exports := by
  simp [exportsOfAll, Function.comp_def]

theorem mem_collected {lists : List (List Collected)} :
    export_ ∈ exportsOfAll lists.flatten ↔
      ∃ entries ∈ lists, export_ ∈ exportsOfAll entries := by
  simp only [exportsOfAll, List.map_flatten, List.mem_flatten, List.mem_map,
    exists_exists_and_eq_and]

/-! ## Adding exports by key -/

theorem map_asValue_add : (add kept export_).map asValue =
    kept.map asValue ++
      if export_.mergeKey ∈ kept.map mergeKey then [] else [export_.asValue] := by
  induction kept with
  | nil => simp [add]
  | cons first rest ih =>
      rw [add]
      by_cases hkey : first.mergeKey = export_.mergeKey
      · have hfirst : (if first.differsOnlyInType export_ then first.asValue else first).asValue =
            first.asValue := by
          split <;> rfl
        simp [hkey, hfirst]
      · have hne : export_.mergeKey ≠ first.mergeKey := fun h => hkey h.symm
        simp [hkey, hne, ih]

theorem map_mergeKey_eq (exports : List Resolved) :
    exports.map mergeKey = (exports.map asValue).map mergeKey := by
  simp [Function.comp_def]

theorem map_mergeKey_add : (add kept export_).map mergeKey =
    kept.map mergeKey ++
      if export_.mergeKey ∈ kept.map mergeKey then [] else [export_.mergeKey] := by
  rw [map_mergeKey_eq (add kept export_), map_asValue_add, List.map_append,
    ← map_mergeKey_eq kept]
  split <;> rfl

theorem nodup_mergeKey_add (hkept : (kept.map mergeKey).Nodup) :
    ((add kept export_).map mergeKey).Nodup := by
  rw [map_mergeKey_add]
  split
  · simpa using hkept
  · rename_i hfresh
    exact hkept.append (List.nodup_singleton _) (by simpa using hfresh)

theorem nodup_mergeKey_foldl_add (hkept : (kept.map mergeKey).Nodup) :
    ((exports.foldl add kept).map mergeKey).Nodup := by
  induction exports generalizing kept with
  | nil => exact hkept
  | cons first rest ih => exact ih (nodup_mergeKey_add hkept)

theorem symbolOf_add :
    symbolOf (add kept export_) key = (symbolOf kept key).or (symbolOf [export_] key) := by
  by_cases hkey : export_.mergeKey ∈ kept.map mergeKey
  · have hsame : symbolOf (add kept export_) key = symbolOf kept key := by
      simp only [symbolOf, map_asValue_add, if_pos hkey, List.append_nil]
    rw [hsame, symbolOf_cons, symbolOf_nil]
    by_cases hname : export_.mergeKey = key
    · have hsome : (symbolOf kept key).isSome := by
        rw [symbolOf_isSome_iff, ← hname]
        simpa using hkey
      obtain ⟨symbol, hsymbol⟩ := Option.isSome_iff_exists.mp hsome
      simp [hsymbol]
    · simp [hname]
  · rw [← symbolOf_append]
    simp only [symbolOf, map_asValue_add, if_neg hkey, List.map_append, List.map_cons,
      List.map_nil]

theorem symbolOf_foldl_add :
    symbolOf (exports.foldl add kept) key = (symbolOf kept key).or (symbolOf exports key) := by
  induction exports generalizing kept with
  | nil => simp
  | cons first rest ih =>
      rw [List.foldl_cons, ih, symbolOf_add, Option.or_assoc, ← symbolOf_append]
      rfl

/-! ## Promotion -/

theorem asValue_promote (names : List String) :
    (promote names export_).asValue = export_.asValue := by
  unfold promote
  split <;> rfl

theorem mergeKey_promote (names : List String) :
    (promote names export_).mergeKey = export_.mergeKey :=
  mergeKey_eq_of_asValue_eq (asValue_promote names)

/-! ## Merging -/

theorem nodup_mergeKey_merge : ((merge collected).map mergeKey).Nodup := by
  have hkeys : (merge collected).map mergeKey =
      ((visible collected).foldl add []).map mergeKey := by
    simp [merge, mergeKey_promote]
  rw [hkeys]
  exact nodup_mergeKey_foldl_add (by simp)

theorem symbolOf_merge : symbolOf (merge collected) key = symbolOf (visible collected) key := by
  have hvalues : (merge collected).map asValue =
      ((visible collected).foldl add []).map asValue := by
    simp [merge, asValue_promote]
  have hfold : symbolOf ((visible collected).foldl add []) key =
      symbolOf (visible collected) key := by
    rw [symbolOf_foldl_add, symbolOf_nil, Option.none_or]
  rw [← hfold, symbolOf, hvalues]
  rfl

/-! ## Visible exports -/

theorem explicit?_eq_symbolOf : (explicit? collected name).map asValue =
    symbolOf ((collected.filter fun entry => !entry.viaWildcard).map (·.export_))
      (.name name) := by
  induction collected with
  | nil => rfl
  | cons entry rest ih =>
      cases hvia : entry.viaWildcard with
      | true => simpa [explicit?, hvia] using ih
      | false =>
          simp only [hvia, Bool.not_false, List.filter_cons_of_pos, List.map_cons, symbolOf_cons,
            mergeKey_eq_name]
          by_cases hname : entry.export_.kind ≠ .wildcard ∧ entry.export_.exportedName = name
          · simp [explicit?, hvia, hname]
          · rw [if_neg hname, ← ih]
            have hmiss : (!entry.viaWildcard && decide (entry.export_.kind ≠ .wildcard) &&
                decide (entry.export_.exportedName = name)) = false := by
              simpa [hvia] using hname
            simp only [explicit?, List.find?_cons, hmiss]

theorem explicit?_append (first second : List Collected) :
    explicit? (first ++ second) name =
      (explicit? first name).or (explicit? second name) := by
  simp only [explicit?, List.find?_append]
  cases first.find? _ with
  | none => simp
  | some entry => simp

theorem explicit?_viaWildcard :
    explicit? (exports.map fun export_ => ⟨export_, true⟩) name = none := by
  simp [explicit?]

theorem explicit?_singleton {found : Resolved} :
    explicit? [⟨found, false⟩] name = if found.mergeKey = .name name then some found else none := by
  rw [explicit?, List.find?_singleton]
  simp only [Bool.not_false, Bool.true_and, Bool.and_eq_true, decide_eq_true_eq,
    mergeKey_eq_name]
  split <;> rfl

theorem symbolOf_filter_congr {keeps keeps' : Collected → Bool}
    (h : ∀ entry ∈ collected, entry.export_.mergeKey = key → keeps entry = keeps' entry) :
    symbolOf ((collected.filter keeps).map (·.export_)) key =
      symbolOf ((collected.filter keeps').map (·.export_)) key := by
  induction collected with
  | nil => rfl
  | cons entry rest ih =>
      have hrest := ih fun other hother => h other (List.mem_cons_of_mem _ hother)
      by_cases hkey : entry.export_.mergeKey = key
      · have hsame := h entry List.mem_cons_self hkey
        rw [List.filter_cons, List.filter_cons, hsame]
        split
        · simp [symbolOf_cons, hkey]
        · exact hrest
      · have hskip (keeps : Collected → Bool) :
            symbolOf (((entry :: rest).filter keeps).map (·.export_)) key =
              symbolOf ((rest.filter keeps).map (·.export_)) key := by
          rw [List.filter_cons]
          split
          · simp [symbolOf_cons, hkey]
          · rfl
        rw [hskip, hskip, hrest]

theorem explicit?_eq_some {shadow : Resolved} (h : explicit? collected name = some shadow) :
    ∃ entry ∈ collected, entry.viaWildcard = false ∧ entry.export_.mergeKey = .name name ∧
      entry.export_ = shadow := by
  rw [explicit?, Option.map_eq_some_iff] at h
  obtain ⟨entry, hfind, rfl⟩ := h
  have hentry := List.find?_some hfind
  simp only [Bool.and_eq_true, Bool.not_eq_true', decide_eq_true_eq] at hentry
  exact ⟨entry, List.mem_of_find?_eq_some hfind, hentry.1.1,
    mergeKey_eq_name.mpr ⟨hentry.1.2, hentry.2⟩, rfl⟩

theorem hiddenBy?_eq_some {entry : Collected} {shadow : Resolved} :
    hiddenBy? collected entry = some shadow ↔ entry.viaWildcard = true ∧
      entry.export_.kind ≠ .wildcard ∧
        explicit? collected entry.export_.exportedName = some shadow := by
  unfold hiddenBy?
  split
  · rename_i hvia
    simp [hvia]
  · rename_i hplain
    simp only [reduceCtorEq, false_iff]
    exact fun h => hplain ⟨h.1, h.2.1⟩

theorem mem_promoted : name ∈ promoted collected ↔ ∃ twin ∈ collected, ∃ shadow,
    hiddenBy? collected twin = some shadow ∧ twin.export_.typeOnly = false ∧
      shadow.differsOnlyInType twin.export_ = true ∧ twin.export_.exportedName = name := by
  simp only [promoted, List.mem_map, List.mem_filter]
  constructor
  · rintro ⟨twin, ⟨htwin, hhidden⟩, hname⟩
    cases hshadow : hiddenBy? collected twin with
    | none => simp [hshadow] at hhidden
    | some shadow =>
        simp only [hshadow, Bool.and_eq_true, Bool.not_eq_true'] at hhidden
        exact ⟨twin, htwin, shadow, hshadow, hhidden.1, hhidden.2, hname⟩
  · rintro ⟨twin, htwin, shadow, hshadow, hvalue, hdiffers, hname⟩
    exact ⟨twin, ⟨htwin, by simp [hshadow, hvalue, hdiffers]⟩, hname⟩

theorem hiddenBy?_of_name {entry : Collected} (hkey : entry.export_.mergeKey = .name name) :
    hiddenBy? collected entry =
      if entry.viaWildcard then explicit? collected name else none := by
  obtain ⟨hkind, hname⟩ := mergeKey_eq_name.mp hkey
  simp [hiddenBy?, hkind, hname]

/-- The explicit export of a name stays visible, and without one the first from a wildcard. -/
theorem symbolOf_visible_name : symbolOf (visible collected) (.name name) =
    ((explicit? collected name).map asValue).or
      (symbolOf (exportsOfAll collected) (.name name)) := by
  cases hexplicit : explicit? collected name with
  | some shadow =>
      have hfilter : symbolOf (visible collected) (.name name) =
          (explicit? collected name).map asValue := by
        rw [explicit?_eq_symbolOf]
        refine symbolOf_filter_congr fun entry _ hkey => ?_
        rw [hiddenBy?_of_name hkey, hexplicit]
        cases entry.viaWildcard <;> rfl
      rw [hfilter, hexplicit]
      rfl
  | none =>
      have hall : exportsOfAll collected =
          (collected.filter fun _ => true).map (·.export_) := by simp
      rw [Option.map_none, Option.none_or, hall]
      refine symbolOf_filter_congr fun entry _ hkey => ?_
      rw [hiddenBy?_of_name hkey, hexplicit]
      simp

theorem symbolOf_visible_package : symbolOf (visible collected) (.package package) =
    symbolOf (exportsOfAll collected) (.package package) := by
  have hall : exportsOfAll collected =
      (collected.filter fun _ => true).map (·.export_) := by simp
  rw [hall]
  refine symbolOf_filter_congr fun entry _ hkey => ?_
  simp [hiddenBy?, (mergeKey_eq_package.mp hkey).1]

/-! ## Where a value comes from -/

def Same (export_ other : Resolved) : Prop :=
  export_.mergeKey = other.mergeKey ∧ export_.kind = other.kind ∧
    export_.origin = other.origin ∧ export_.originName = other.originName

theorem Same.refl (export_ : Resolved) : Same export_ export_ := ⟨rfl, rfl, rfl, rfl⟩

theorem Same.trans {first second third : Resolved} (h : Same first second)
    (h' : Same second third) : Same first third := by
  obtain ⟨hkey, hkind, horigin, hname⟩ := h
  obtain ⟨hkey', hkind', horigin', hname'⟩ := h'
  exact ⟨hkey.trans hkey', hkind.trans hkind', horigin.trans horigin', hname.trans hname'⟩

theorem same_of_asValue_eq {other : Resolved} (h : export_.asValue = other.asValue) :
    Same export_ other := by
  obtain ⟨typeOnly, rfl⟩ := exists_typeOnly_of_asValue_eq h
  exact ⟨rfl, rfl, rfl, rfl⟩

theorem differsOnlyInType_iff {other : Resolved} : export_.differsOnlyInType other = true ↔
    export_.kind = other.kind ∧ export_.origin = other.origin ∧
      export_.originName = other.originName ∧ export_.typeOnly ≠ other.typeOnly := by
  simp [differsOnlyInType]

theorem exists_value_of_add {other : Resolved} (hmem : other ∈ add kept export_)
    (hvalue : other.typeOnly = false) :
    ∃ source, (source ∈ kept ∨ source = export_) ∧ source.typeOnly = false ∧
      Same other source := by
  induction kept with
  | nil =>
      rw [add, List.mem_singleton] at hmem
      subst hmem
      exact ⟨other, .inr rfl, hvalue, Same.refl other⟩
  | cons first rest ih =>
      rw [add] at hmem
      by_cases hkey : first.mergeKey = export_.mergeKey
      · rw [if_pos hkey] at hmem
        rcases List.mem_cons.mp hmem with hother | hrest
        · cases htyped : first.typeOnly with
          | false =>
              refine ⟨first, .inl List.mem_cons_self, htyped, same_of_asValue_eq ?_⟩
              rw [hother]
              split <;> rfl
          | true =>
              by_cases hdiffers : first.differsOnlyInType export_ = true
              · obtain ⟨hkind, horigin, hname, hne⟩ := differsOnlyInType_iff.mp hdiffers
                rw [if_pos hdiffers] at hother
                refine ⟨export_, .inr rfl, by simpa [htyped] using hne, ?_⟩
                rw [hother]
                exact ⟨hkey, hkind, horigin, hname⟩
              · rw [if_neg hdiffers] at hother
                rw [hother, htyped] at hvalue
                cases hvalue
        · exact ⟨other, .inl (List.mem_cons_of_mem _ hrest), hvalue, Same.refl other⟩
      · rw [if_neg hkey] at hmem
        rcases List.mem_cons.mp hmem with rfl | hrest
        · exact ⟨other, .inl List.mem_cons_self, hvalue, Same.refl other⟩
        · obtain ⟨source, hsource, hsourceValue, hsame⟩ := ih hrest
          refine ⟨source, ?_, hsourceValue, hsame⟩
          exact hsource.imp_left (List.mem_cons_of_mem _)

theorem exists_value_of_foldl_add {other : Resolved} (hmem : other ∈ exports.foldl add kept)
    (hvalue : other.typeOnly = false) :
    ∃ source, (source ∈ kept ∨ source ∈ exports) ∧ source.typeOnly = false ∧
      Same other source := by
  induction exports generalizing kept with
  | nil => exact ⟨other, .inl hmem, hvalue, Same.refl other⟩
  | cons first rest ih =>
      obtain ⟨source, hsource, hsourceValue, hsame⟩ := ih hmem
      rcases hsource with hadd | hrest
      · obtain ⟨earlier, hearlier, hearlierValue, hsame'⟩ := exists_value_of_add hadd hsourceValue
        refine ⟨earlier, ?_, hearlierValue, hsame.trans hsame'⟩
        rcases hearlier with hkept | rfl
        · exact .inl hkept
        · exact .inr List.mem_cons_self
      · exact ⟨source, .inr (List.mem_cons_of_mem _ hrest), hsourceValue, hsame⟩

theorem mem_of_visible (h : export_ ∈ visible collected) :
    export_ ∈ exportsOfAll collected :=
  (List.filter_sublist.map _).subset h

theorem exists_of_merge (hmem : export_ ∈ merge collected) :
    ∃ source ∈ exportsOfAll collected, source.asValue = export_.asValue := by
  have hsymbol := symbolOf_of_mem nodup_mergeKey_merge hmem
  rw [symbolOf_merge] at hsymbol
  obtain ⟨source, hsource, hvalue⟩ := mem_of_symbolOf hsymbol
  exact ⟨source, mem_of_visible hsource, hvalue⟩

/-- The explicit export of a name is the one that a merge keeps. -/
theorem merge_explicit {shadow : Resolved} (hexplicit : explicit? collected name = some shadow)
    (hmem : export_ ∈ merge collected) (hkey : export_.mergeKey = .name name) :
    export_.asValue = shadow.asValue := by
  have hsymbol := symbolOf_of_mem nodup_mergeKey_merge hmem
  rw [hkey, symbolOf_merge, symbolOf_visible_name, hexplicit] at hsymbol
  exact (Option.some.inj hsymbol).symm

theorem exists_value_of_promoted (hmem : export_ ∈ merge collected)
    (hkey : export_.mergeKey = .name name) (hname : name ∈ promoted collected) :
    ∃ source ∈ exportsOfAll collected, source.typeOnly = false ∧ Same export_ source := by
  obtain ⟨twin, htwin, shadow, hshadow, htwinValue, hdiffers, rfl⟩ := mem_promoted.mp hname
  obtain ⟨-, hexplicitKind, hexplicit⟩ := hiddenBy?_eq_some.mp hshadow
  obtain ⟨hkind, horigin, horiginName, -⟩ := differsOnlyInType_iff.mp hdiffers
  have hsame := same_of_asValue_eq (merge_explicit hexplicit hmem hkey)
  have htwinKey : twin.export_.mergeKey = .name twin.export_.exportedName :=
    mergeKey_eq_name.mpr ⟨hexplicitKind, rfl⟩
  exact ⟨twin.export_, List.mem_map_of_mem htwin, htwinValue, hkey.trans htwinKey.symm,
    hsame.2.1.trans hkind, hsame.2.2.1.trans horigin, hsame.2.2.2.trans horiginName⟩

theorem exists_value_of_merge (hmem : export_ ∈ merge collected)
    (hvalue : export_.typeOnly = false) :
    ∃ source ∈ exportsOfAll collected, source.typeOnly = false ∧ Same export_ source := by
  have hwhole := hmem
  rw [merge, List.mem_map] at hmem
  obtain ⟨before, hbefore, hpromote⟩ := hmem
  rw [promote] at hpromote
  split at hpromote
  · rename_i hpromoted
    obtain ⟨-, hname, hkind⟩ := hpromoted
    have hkey : export_.mergeKey = .name before.exportedName := by
      rw [← hpromote, mergeKey_asValue, mergeKey_eq_name]
      exact ⟨by simp [hkind], rfl⟩
    exact exists_value_of_promoted hwhole hkey hname
  · subst hpromote
    obtain ⟨source, hsource, hsourceValue, hsame⟩ := exists_value_of_foldl_add hbefore hvalue
    have hvisible : source ∈ visible collected := by simpa using hsource
    exact ⟨source, mem_of_visible hvisible, hsourceValue, hsame⟩

/-! ## Exports that stay as they are -/

theorem map_asValue_foldl_add (kept exports : List Resolved) :
    ∃ more, (exports.foldl add kept).map asValue = kept.map asValue ++ more := by
  induction exports generalizing kept with
  | nil => exact ⟨[], by simp⟩
  | cons first rest ih =>
      obtain ⟨more, hmore⟩ := ih (add kept first)
      rw [map_asValue_add, List.append_assoc] at hmore
      exact ⟨_, hmore⟩

theorem merge_head (export_ : Resolved) (more : List Collected) :
    ∃ first rest, merge (⟨export_, false⟩ :: more) = first :: rest ∧
      first.asValue = export_.asValue := by
  have hvisible : ∃ others, visible (⟨export_, false⟩ :: more) = export_ :: others := by
    rw [visible, List.filter_cons_of_pos (by simp [hiddenBy?])]
    exact ⟨_, rfl⟩
  obtain ⟨others, hothers⟩ := hvisible
  obtain ⟨rest, hrest⟩ := map_asValue_foldl_add [export_] others
  have hmap : (merge (⟨export_, false⟩ :: more)).map asValue = export_.asValue :: rest := by
    have hfold : (merge (⟨export_, false⟩ :: more)).map asValue =
        (others.foldl add [export_]).map asValue := by
      simp [merge, hothers, asValue_promote, add]
    rw [hfold, hrest]
    rfl
  obtain ⟨first, others, hmerge, hfirst, -⟩ := List.map_eq_cons_iff.mp hmap
  exact ⟨first, others, hmerge, hfirst⟩

theorem add_of_fresh (hfresh : export_.mergeKey ∉ kept.map mergeKey) :
    add kept export_ = kept ++ [export_] := by
  induction kept with
  | nil => rfl
  | cons first rest ih =>
      rw [List.map_cons, List.mem_cons, not_or] at hfresh
      rw [add, if_neg (Ne.symm hfresh.1), ih hfresh.2, List.cons_append]

theorem foldl_add_of_nodup (hkeys : ((kept ++ exports).map mergeKey).Nodup) :
    exports.foldl add kept = kept ++ exports := by
  induction exports generalizing kept with
  | nil => simp
  | cons first rest ih =>
      have hfresh : first.mergeKey ∉ kept.map mergeKey := by
        rw [List.map_append, List.map_cons, List.nodup_append] at hkeys
        exact fun hmem => hkeys.2.2 _ hmem _ List.mem_cons_self rfl
      rw [List.foldl_cons, add_of_fresh hfresh, ih (by simpa using hkeys)]
      simp

theorem merge_of_nodup (hkeys : (collected.map (·.export_.mergeKey)).Nodup) :
    merge collected = exportsOfAll collected := by
  have hunhidden : ∀ entry ∈ collected, hiddenBy? collected entry = none := by
    intro entry hentry
    refine Option.eq_none_iff_forall_ne_some.mpr fun shadow hshadow => ?_
    obtain ⟨hvia, hkind, hexplicit⟩ := hiddenBy?_eq_some.mp hshadow
    obtain ⟨other, hother, hdirect, hkey, -⟩ := explicit?_eq_some hexplicit
    obtain rfl := List.inj_on_of_nodup_map hkeys hother hentry
      (hkey.trans (mergeKey_eq_name.mpr ⟨hkind, rfl⟩).symm)
    rw [hvia] at hdirect
    cases hdirect
  have hvisible : visible collected = exportsOfAll collected := by
    rw [visible, List.filter_eq_self.mpr fun entry hentry => by rw [hunhidden entry hentry]; rfl]
  have hpromoted : promoted collected = [] := by
    rw [promoted, List.map_eq_nil_iff, List.filter_eq_nil_iff]
    intro entry hentry
    simp [hunhidden entry hentry]
  have hpromote : promote [] = id := by
    funext export_
    simp [promote]
  have hfold : ((([] : List Resolved) ++ exportsOfAll collected).map mergeKey).Nodup := by
    rwa [List.nil_append, List.map_map]
  rw [merge, hvisible, hpromoted, hpromote, foldl_add_of_nodup hfold]
  simp

end Collected

end FlatExports
