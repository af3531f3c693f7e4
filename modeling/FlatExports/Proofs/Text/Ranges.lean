import FlatExports.Proofs.Text.Lines

/-!
Bytes inside and outside ranges of places.

A range goes from its first place to the place behind its last.
-/

namespace FlatExports.Text

def covered (ranges : List (Nat × Nat)) (place : Nat) : Bool :=
  ranges.any fun range => decide (range.1 ≤ place) && decide (place < range.2)

/-- The bytes from a place on that no range covers, with their places. -/
def remaining (ranges : List (Nat × Nat)) (place : Nat) (bytes : Bytes) : List (UInt8 × Nat) :=
  (bytes.zipIdx place).filter fun entry => !covered ranges entry.2

def uncovered (ranges : List (Nat × Nat)) (place : Nat) (bytes : Bytes) : Bytes :=
  (remaining ranges place bytes).map Prod.fst

def uncoveredLines (ranges : List (Nat × Nat)) (source : Bytes) : List Bytes :=
  (untouchedLines (inLine ∘ Prod.fst) (covered ranges ∘ Prod.snd) source.zipIdx).map
    (List.map Prod.fst)

def InOrder (ranges : List (Nat × Nat)) : Prop :=
  ranges.Pairwise fun earlier later => earlier.2 ≤ later.1

instance (ranges : List (Nat × Nat)) : Decidable (InOrder ranges) :=
  inferInstanceAs (Decidable (List.Pairwise _ ranges))

variable {ranges : List (Nat × Nat)} {place start stop : Nat} {bytes gap cut : Bytes}

theorem covered_eq_true : covered ranges place = true ↔
    ∃ range ∈ ranges, range.1 ≤ place ∧ place < range.2 := by
  simp [covered]

theorem covered_eq_false_of_lt (h : ∀ range ∈ ranges, place < range.1) :
    covered ranges place = false := by
  rw [Bool.eq_false_iff, ne_eq, covered_eq_true]
  rintro ⟨range, hrange, hle, -⟩
  have := h range hrange
  omega

theorem covered_cons_of_le (h : stop ≤ place) :
    covered ((start, stop) :: ranges) place = covered ranges place := by
  have hnot : ¬place < stop := by omega
  simp [covered, hnot]

theorem snd_mem_zipIdx {entry : UInt8 × Nat} (h : entry ∈ bytes.zipIdx place) :
    place ≤ entry.2 ∧ entry.2 < place + bytes.length :=
  ⟨List.le_snd_of_mem_zipIdx h, by have := List.snd_lt_add_of_mem_zipIdx h; omega⟩

theorem remaining_append (ranges : List (Nat × Nat)) (place : Nat) (x y : Bytes) :
    remaining ranges place (x ++ y) =
      remaining ranges place x ++ remaining ranges (place + x.length) y := by
  rw [remaining, List.zipIdx_append, List.filter_append]
  rfl

theorem remaining_cons (hgap : start = place + gap.length) (hcut : stop = start + cut.length)
    (hranges : ∀ range ∈ ranges, stop ≤ range.1) (behind : Bytes) :
    remaining ((start, stop) :: ranges) place (gap ++ (cut ++ behind)) =
      gap.zipIdx place ++ remaining ranges stop behind := by
  have hgone : remaining ((start, stop) :: ranges) start cut = [] := by
    refine List.filter_eq_nil_iff.mpr fun entry hentry => ?_
    obtain ⟨hle, hlt⟩ := snd_mem_zipIdx hentry
    have hcovered : covered ((start, stop) :: ranges) entry.2 = true :=
      covered_eq_true.mpr ⟨_, List.mem_cons_self, hle, by omega⟩
    simp [hcovered]
  have hkept : remaining ((start, stop) :: ranges) place gap = gap.zipIdx place := by
    refine List.filter_eq_self.mpr fun entry hentry => ?_
    obtain ⟨hle, hlt⟩ := snd_mem_zipIdx hentry
    have huncovered : covered ((start, stop) :: ranges) entry.2 = false := by
      refine covered_eq_false_of_lt fun range hrange => ?_
      rcases List.mem_cons.mp hrange with rfl | hrange
      · omega
      · have := hranges range hrange
        omega
    simp [huncovered]
  have hbehind : remaining ((start, stop) :: ranges) stop behind =
      remaining ranges stop behind := by
    refine List.filter_congr fun entry hentry => ?_
    rw [covered_cons_of_le (snd_mem_zipIdx hentry).1]
  rw [remaining_append, remaining_append, hkept, ← hgap, hgone, ← hcut, hbehind,
    List.nil_append]

theorem endsLine_zipIdx : EndsLine (inLine ∘ Prod.fst) (bytes.zipIdx place) ↔
    EndsLine inLine bytes := by
  rw [← endsLine_map, List.zipIdx_map_fst]

theorem oneLine_zipIdx : OneLine (inLine ∘ Prod.fst) (bytes.zipIdx place) ↔
    OneLine inLine bytes := by
  rw [← oneLine_map, List.zipIdx_map_fst]

theorem stays_zipIdx (h : ∀ byte ∈ bytes, inLine byte = true) :
    ∀ entry ∈ bytes.zipIdx place, (inLine ∘ Prod.fst) entry = true :=
  fun _ hentry => h _ (List.fst_mem_of_mem_zipIdx hentry)

theorem uncovered_nil (place : Nat) (bytes : Bytes) : uncovered [] place bytes = bytes := by
  simp [uncovered, remaining, covered]

end FlatExports.Text
