import Mathlib.Data.List.Basic

/-!
Lists of values by key, where an entry in front replaces all others of its key.
-/

namespace FlatExports

variable {κ ν : Type} [BEq κ] [LawfulBEq κ] [DecidableEq κ] {entries : List (κ × ν)}
  {key other : κ}

theorem lookup_filter_ne (hne : other ≠ key) :
    (entries.filter (·.1 ≠ key)).lookup other = entries.lookup other := by
  induction entries with
  | nil => rfl
  | cons first rest ih =>
      obtain ⟨here, value⟩ := first
      by_cases hkey : here = key
      · subst hkey
        simpa [List.lookup_cons, beq_false_of_ne hne] using ih
      · rw [List.filter_cons_of_pos (by simpa using hkey), List.lookup_cons, List.lookup_cons, ih]

theorem lookup_replaced (value : ν) :
    ((key, value) :: entries.filter (·.1 ≠ key)).lookup other =
      if other = key then some value else entries.lookup other := by
  rw [List.lookup_cons]
  split
  · rename_i heq
    rw [if_pos (by simpa using heq)]
  · rename_i hne
    have hne : other ≠ key := by simpa using hne
    rw [if_neg hne, lookup_filter_ne hne]

end FlatExports
