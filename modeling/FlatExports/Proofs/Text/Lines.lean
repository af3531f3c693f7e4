import FlatExports.Text.Slice
import Mathlib.Data.List.DropRight
import Mathlib.Data.List.SplitBy
import Mathlib.Data.List.TakeDrop

/-!
Lines, each with the byte that ends it.

What holds of lines holds of any list whose elements are told apart into those
that stay in a line and those that end it, so it is stated for such a list: the
bytes of a source are also looked at together with their places.
-/

namespace FlatExports.Text

section

variable {α β : Type} (stays : α → Bool)

def linesBy (l : List α) : List (List α) := l.splitBy fun a _ => stays a

def lineBreak (l : List α) : List α := (l.dropWhile stays).take 1

def firstLine (l : List α) : List α := l.takeWhile stays ++ lineBreak stays l

def behindLine (l : List α) : List α := (l.dropWhile stays).drop 1

def lastLine (l : List α) : List α := l.rtakeWhile stays

def beforeLine (l : List α) : List α := l.rdropWhile stays

def EndsLine (l : List α) : Prop := ∀ a ∈ l.getLast?, stays a = false

def OneLine (l : List α) : Prop := ∀ a ∈ l.dropLast, stays a = true

end

section

variable {α β : Type} {stays touched : α → Bool} {l m m' cut front behind : List α}

@[simp]
theorem firstLine_append_behindLine (l : List α) :
    firstLine stays l ++ behindLine stays l = l := by
  rw [firstLine, lineBreak, behindLine, List.append_assoc, List.take_append_drop,
    List.takeWhile_append_dropWhile]

@[simp]
theorem beforeLine_append_lastLine (l : List α) :
    beforeLine stays l ++ lastLine stays l = l :=
  List.rdropWhile_append_rtakeWhile

theorem drop_length_beforeLine (l : List α) :
    l.drop (beforeLine stays l).length = lastLine stays l := by
  conv_lhs => arg 2; rw [← @beforeLine_append_lastLine _ stays l]
  exact List.drop_left

theorem take_length_beforeLine (l : List α) :
    l.take (beforeLine stays l).length = beforeLine stays l := by
  conv_lhs => arg 2; rw [← @beforeLine_append_lastLine _ stays l]
  exact List.take_left

theorem drop_length_firstLine (l : List α) :
    l.drop (firstLine stays l).length = behindLine stays l := by
  conv_lhs => arg 2; rw [← @firstLine_append_behindLine _ stays l]
  exact List.drop_left

theorem take_length_firstLine (l : List α) :
    l.take (firstLine stays l).length = firstLine stays l := by
  conv_lhs => arg 2; rw [← @firstLine_append_behindLine _ stays l]
  exact List.take_left

theorem stays_of_mem_lastLine {a : α} (h : a ∈ lastLine stays l) : stays a = true :=
  List.mem_rtakeWhile_imp h

@[simp]
theorem endsLine_nil : EndsLine stays ([] : List α) := by
  simp [EndsLine]

theorem endsLine_append_of_ne_nil (h : m ≠ []) : EndsLine stays (l ++ m) ↔ EndsLine stays m := by
  rw [EndsLine, EndsLine, List.getLast?_append_of_ne_nil l h]

theorem EndsLine.append (hl : EndsLine stays l) (hm : EndsLine stays m) :
    EndsLine stays (l ++ m) := by
  by_cases h : m = []
  · simpa [h] using hl
  · exact (endsLine_append_of_ne_nil h).mpr hm

theorem endsLine_map (f : β → α) (l : List β) :
    EndsLine stays (l.map f) ↔ EndsLine (stays ∘ f) l := by
  simp [EndsLine]

theorem endsLine_beforeLine (l : List α) : EndsLine stays (beforeLine stays l) := by
  intro a ha
  obtain ⟨hne, rfl⟩ := List.mem_getLast?_eq_getLast ha
  exact Bool.eq_false_iff.mpr (List.rdropWhile_last_not stays l hne)

theorem lastLine_of_endsLine (h : EndsLine stays l) : lastLine stays l = [] := by
  rw [lastLine, List.rtakeWhile_eq_nil_iff]
  intro hne
  simpa using h _ (List.getLast?_eq_some_getLast hne)

theorem beforeLine_of_endsLine (h : EndsLine stays l) : beforeLine stays l = l := by
  have hsplit := @beforeLine_append_lastLine _ stays l
  rwa [lastLine_of_endsLine h, List.append_nil] at hsplit

theorem take_beforeLine_append (l m : List α) :
    (l ++ m).take (beforeLine stays l).length = beforeLine stays l := by
  have hle : (beforeLine stays l).length ≤ l.length := (List.rdropWhile_prefix stays l).length_le
  rw [List.take_append_of_le_length hle, take_length_beforeLine]

theorem endsLine_firstLine (h : behindLine stays l ≠ []) :
    firstLine stays l ≠ [] ∧ EndsLine stays (firstLine stays l) := by
  unfold behindLine at h
  cases hrest : l.dropWhile stays with
  | nil => simp [hrest] at h
  | cons a rest =>
      have ha : stays a = false := by
        have h := List.head_dropWhile_not stays (l := l) (by simp [hrest])
        simpa [hrest] using h
      simp [firstLine, lineBreak, hrest, EndsLine, ha]

theorem oneLine_map (f : β → α) (l : List β) :
    OneLine stays (l.map f) ↔ OneLine (stays ∘ f) l := by
  simp [OneLine, ← List.map_dropLast]

theorem OneLine.append (hl : ∀ a ∈ l, stays a = true) (hm : OneLine stays m) :
    OneLine stays (l ++ m) := by
  intro a ha
  rw [List.dropLast_append] at ha
  split at ha
  · exact hl a (List.dropLast_subset l ha)
  · rcases List.mem_append.mp ha with ha | ha
    · exact hl a ha
    · exact hm a ha

theorem oneLine_firstLine (l : List α) : OneLine stays (firstLine stays l) := by
  refine .append (fun a ha => List.mem_takeWhile_imp ha) ?_
  have hlength : (lineBreak stays l).length ≤ 1 := List.length_take_le _ _
  simp [OneLine, List.dropLast_eq_take, show (lineBreak stays l).length - 1 = 0 by omega]

theorem OneLine.isChain (h : OneLine stays l) : l.IsChain fun a _ => stays a := by
  induction l with
  | nil => simp
  | cons a rest ih =>
      cases rest with
      | nil => simp
      | cons b more =>
          simp only [OneLine, List.dropLast_cons_cons, List.forall_mem_cons] at h
          exact List.isChain_cons_cons.mpr ⟨h.1, ih h.2⟩

/-! ## The lines of a list put together -/

theorem linesBy_append (h : EndsLine stays l) :
    linesBy stays (l ++ m) = linesBy stays l ++ linesBy stays m :=
  List.splitBy_append fun a ha _ _ => h a ha

theorem linesBy_map (f : β → α) (l : List β) :
    linesBy stays (l.map f) = (linesBy (stays ∘ f) l).map (List.map f) := by
  refine List.splitBy_eq_iff.mpr ⟨?_, ?_, ?_, ?_⟩
  · rw [← List.map_flatten, linesBy, List.flatten_splitBy]
  · simp [linesBy]
  · simp only [List.forall_mem_map, List.isChain_map]
    exact fun line hline => List.isChain_of_mem_splitBy hline
  · rw [List.isChain_map]
    refine (List.isChain_getLast_head_splitBy _ l).imp fun a b hab => ?_
    obtain ⟨ha, hb, hends⟩ := hab
    exact ⟨by simpa using ha, by simpa using hb, by simpa using hends⟩

theorem linesBy_eq_singleton (h : OneLine stays l) (hne : l ≠ []) : linesBy stays l = [l] :=
  List.splitBy_of_isChain hne h.isChain

/-! ## Lines that are touched -/

variable (stays touched)

/-- The lines that hold nothing touched. -/
def untouchedLines (l : List α) : List (List α) :=
  (linesBy stays l).filter fun line => line.all fun a => !touched a

variable {stays touched}

theorem untouchedLines_sublist : (untouchedLines stays touched l).Sublist (linesBy stays l) :=
  List.filter_sublist

theorem untouchedLines_append (h : EndsLine stays l) :
    untouchedLines stays touched (l ++ m) =
      untouchedLines stays touched l ++ untouchedLines stays touched m := by
  rw [untouchedLines, linesBy_append h, List.filter_append]
  rfl

theorem untouchedLines_of_oneLine (h : OneLine stays l) (htouched : ∃ a ∈ l, touched a = true) :
    untouchedLines stays touched l = [] := by
  obtain ⟨a, hmem, ha⟩ := htouched
  rw [untouchedLines, linesBy_eq_singleton h (List.ne_nil_of_mem hmem)]
  simpa using ⟨a, hmem, ha⟩

theorem untouchedLines_of_touched (hfront : ∀ a ∈ front, stays a = true) (hne : cut ≠ [])
    (hcut : ∀ a ∈ cut, touched a = true) (hlast : ∀ a ∈ cut.getLast?, stays a = true)
    (hbehind : OneLine stays behind) :
    untouchedLines stays touched (front ++ (cut ++ behind)) = [] := by
  induction cut generalizing front with
  | nil => exact absurd rfl hne
  | cons c rest ih =>
      rw [List.forall_mem_cons] at hcut
      by_cases hrest : rest = []
      · subst hrest
        have hc : OneLine stays ([c] ++ behind) := .append (by simpa using hlast) hbehind
        exact untouchedLines_of_oneLine (.append hfront hc) ⟨c, by simp, hcut.1⟩
      · rw [List.getLast?_cons_of_ne_nil hrest] at hlast
        by_cases hc : stays c = true
        · have hfront' : ∀ a ∈ front ++ [c], stays a = true := by
            simpa [or_imp, forall_and] using ⟨hfront, hc⟩
          simpa using ih hfront' hrest hcut.2 hlast
        · have hended : EndsLine stays (front ++ [c]) := by simpa [EndsLine] using hc
          have hline : OneLine stays (front ++ [c]) := .append hfront (by simp [OneLine])
          rw [List.cons_append, List.append_cons, untouchedLines_append hended,
            untouchedLines_of_oneLine hline ⟨c, by simp, hcut.1⟩]
          have hnothing : ∀ a ∈ ([] : List α), stays a = true := by simp
          simpa using ih hnothing hrest hcut.2 hlast

/-- Untouched lines stay when touched ones before and behind ends of lines give way. -/
theorem untouchedLines_replaced (hl : EndsLine stays l)
    (hm : untouchedLines stays touched m = [])
    (hbehind : behind ≠ [] → EndsLine stays m ∧ EndsLine stays m') :
    (untouchedLines stays touched (l ++ (m ++ behind))).Sublist
      (untouchedLines stays touched (l ++ (m' ++ behind))) := by
  rw [untouchedLines_append hl, untouchedLines_append hl]
  refine List.Sublist.append_left ?_ _
  by_cases h : behind = []
  · simp [h, hm]
  · obtain ⟨hends, hends'⟩ := hbehind h
    rw [untouchedLines_append hends, untouchedLines_append hends', hm]
    exact List.sublist_append_right _ _

theorem split_around (l m behind : List α) :
    beforeLine stays l ++ (lastLine stays l ++ (m ++ firstLine stays behind) ++
      behindLine stays behind) = l ++ (m ++ behind) := by
  conv_rhs => rw [← @beforeLine_append_lastLine _ stays l,
    ← @firstLine_append_behindLine _ stays behind]
  simp only [List.append_assoc]

theorem untouchedLines_replaced_inside (hne : cut ≠ []) (hcut : ∀ a ∈ cut, touched a = true)
    (hlast : ∀ a ∈ cut.getLast?, stays a = true) (l m behind : List α) :
    (untouchedLines stays touched (l ++ (cut ++ behind))).Sublist
      (untouchedLines stays touched (l ++ (m ++ behind))) := by
  have hgone : untouchedLines stays touched
      (lastLine stays l ++ (cut ++ firstLine stays behind)) = [] :=
    untouchedLines_of_touched (fun _ => stays_of_mem_lastLine) hne hcut hlast
      (oneLine_firstLine behind)
  rw [← split_around l cut, ← split_around l m]
  refine untouchedLines_replaced (endsLine_beforeLine l) hgone fun hbehind => ?_
  obtain ⟨hfirst, hends⟩ := endsLine_firstLine hbehind
  simp only [← List.append_assoc]
  exact ⟨(endsLine_append_of_ne_nil hfirst).mpr hends, (endsLine_append_of_ne_nil hfirst).mpr hends⟩

end

/-! ## Lines of bytes -/

def inLine (byte : UInt8) : Bool := byte != newline

def lines (bytes : Bytes) : List Bytes := linesBy inLine bytes

theorem firstLine_newline (bytes : Bytes) : firstLine inLine (newline :: bytes) = [newline] := by
  simp [firstLine, lineBreak, inLine]

theorem lineBreak_newline (bytes : Bytes) : lineBreak inLine (newline :: bytes) = [newline] := by
  simp [lineBreak, inLine]

theorem behindLine_newline (bytes : Bytes) : behindLine inLine (newline :: bytes) = bytes := by
  simp [behindLine, inLine]

theorem endsLine_newline (bytes : Bytes) : EndsLine inLine (bytes ++ [newline]) := by
  rw [endsLine_append_of_ne_nil (by simp)]
  simp [EndsLine, inLine]

theorem lineStart_eq (source : Bytes) (position : Nat) :
    lineStart source position = (beforeLine inLine (source.take position)).length := by
  have h := congrArg List.length (@beforeLine_append_lastLine _ inLine (source.take position))
  have hlast : (lastLine inLine (source.take position)).length =
      ((source.take position).reverse.takeWhile (· != newline)).length := List.length_reverse
  rw [List.length_append] at h
  simp only [lineStart]
  omega

theorem lineEnd_eq {source : Bytes} {position : Nat} (h : position ≤ source.length) :
    lineEnd source position = position + (firstLine inLine (source.drop position)).length := by
  have hsplit := congrArg List.length
    (List.takeWhile_append_dropWhile (p := inLine) (l := source.drop position))
  rw [List.length_append, List.length_drop] at hsplit
  simp only [lineEnd, firstLine, lineBreak, List.length_append, List.length_take]
  change (if position + ((source.drop position).takeWhile inLine).length < _ then
    position + ((source.drop position).takeWhile inLine).length + 1 else _) = _
  split <;> omega

/-! ## Slices of bytes -/

theorem slice_zero (source : Bytes) (stop : Nat) : slice source 0 stop = source.take stop := by
  simp [slice]

theorem slice_self (source : Bytes) (position : Nat) : slice source position position = [] := by
  simp [slice]

theorem slice_middle (x y z : Bytes) :
    slice (x ++ (y ++ z)) x.length (x.length + y.length) = y := by
  rw [slice, ← List.append_assoc, ← List.length_append, List.take_left, List.drop_left]

theorem head?_slice {source : Bytes} {start stop : Nat} (h : start < stop) :
    (slice source start stop).head? = source[start]? := by
  rw [slice, List.head?_drop, List.getElem?_take_of_lt h]

theorem slice_newline (before text behind : Bytes) :
    slice (before ++ (text ++ newline :: behind)) (before.length + text.length)
      (before.length + text.length + 1) = [newline] := by
  rw [slice, List.drop_take, ← List.append_assoc, ← List.length_append, List.drop_left]
  simp

theorem slice_last {source : Bytes} {position : Nat} (h : 0 < position)
    (hinside : position ≤ source.length) :
    slice source (position - 1) position = (source.take position).getLast?.toList := by
  have hlength : (source.take position).length = position := by
    rw [List.length_take]
    omega
  have hne : source.take position ≠ [] := List.ne_nil_of_length_pos (by omega)
  have hlast := List.drop_length_sub_one hne
  rw [hlength] at hlast
  rw [slice, hlast, List.getLast?_eq_some_getLast hne]
  rfl

theorem slice_beforeLine (source : Bytes) (position : Nat) :
    slice source (beforeLine inLine (source.take position)).length position =
      lastLine inLine (source.take position) := by
  rw [slice, drop_length_beforeLine]

theorem slice_firstLine (source : Bytes) (position : Nat) :
    slice source position (position + (firstLine inLine (source.drop position)).length) =
      firstLine inLine (source.drop position) := by
  rw [slice, List.drop_take, Nat.add_sub_cancel_left, take_length_firstLine]

theorem take_beforeLine {source : Bytes} {position : Nat} (h : position ≤ source.length) :
    source.take (beforeLine inLine (source.take position)).length =
      beforeLine inLine (source.take position) := by
  have hsplit := congrArg List.length (@beforeLine_append_lastLine _ inLine (source.take position))
  rw [List.length_append, List.length_take] at hsplit
  conv_rhs => rw [← take_length_beforeLine, List.take_take]
  congr 1
  omega

theorem take_firstLine (source : Bytes) (position : Nat) :
    source.take (position + (firstLine inLine (source.drop position)).length) =
      source.take position ++ firstLine inLine (source.drop position) := by
  rw [List.take_add, take_length_firstLine]

end FlatExports.Text
