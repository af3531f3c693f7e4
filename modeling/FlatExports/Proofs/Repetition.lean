import Mathlib.Data.List.Induction
import Mathlib.Data.List.Nodup

/-!
Lists without their repetitions, where the first of equal elements stays.
-/

namespace FlatExports

variable {α : Type} [DecidableEq α]

theorem eraseDups_concat (keys : List α) (last : α) :
    (keys ++ [last]).eraseDups = keys.eraseDups ++ if last ∈ keys then [] else [last] := by
  rw [List.eraseDups_append, List.removeAll]
  congr 1
  split
  · rename_i hmem
    simp [hmem]
  · rename_i hfresh
    simp [hfresh, List.eraseDups_cons]

theorem pairwise_idxOf_eraseDups (keys : List α) :
    keys.eraseDups.Pairwise fun before behind => keys.idxOf before < keys.idxOf behind := by
  induction keys using List.reverseRecOn with
  | nil => exact .nil
  | append_singleton keys last ih =>
      have hindex (key : α) (hkey : key ∈ keys.eraseDups) :
          (keys ++ [last]).idxOf key = keys.idxOf key :=
        List.idxOf_append_of_mem (List.mem_eraseDups.mp hkey)
      have hearlier : keys.eraseDups.Pairwise fun before behind =>
          (keys ++ [last]).idxOf before < (keys ++ [last]).idxOf behind := by
        refine List.Pairwise.imp_of_mem ?_ ih
        intro before behind hbefore hbehind hlt
        rwa [hindex before hbefore, hindex behind hbehind]
      rw [eraseDups_concat]
      split
      · rwa [List.append_nil]
      · rename_i hfresh
        refine List.pairwise_append.mpr ⟨hearlier, List.pairwise_singleton _ _, ?_⟩
        intro before hbefore behind hbehind
        obtain rfl := List.mem_singleton.mp hbehind
        have hlt := List.idxOf_lt_length_of_mem (List.mem_eraseDups.mp hbefore)
        rw [hindex before hbefore, List.idxOf_append_of_notMem hfresh]
        omega

theorem nodup_eraseDups (keys : List α) : keys.eraseDups.Nodup :=
  (pairwise_idxOf_eraseDups keys).imp fun hlt heq => by
    rw [heq] at hlt
    exact Nat.lt_irrefl _ hlt

end FlatExports
