import FlatExports.Proofs.Module.Splice

/-!
The printed block in a source.

Printed statements stand one behind the other, a line feed between them.  Here is
how they are cut out of a source again, and where the block of a rewritten module
stands in its bytes.
-/

namespace FlatExports

open FlatExports.Text

/-! ## The printed block -/

theorem Text.bytesOf_lines (texts : List String) :
    bytesOf ("\n".intercalate texts) = [newline].intercalate (texts.map bytesOf) := by
  induction texts with
  | nil => rfl
  | cons text rest ih =>
      cases rest with
      | nil => simp
      | cons next more =>
          simp only [List.map_cons] at ih ⊢
          rw [String.intercalate_cons_cons, bytesOf_append, bytesOf_append, ih,
            List.intercalate_cons_cons]
          rfl

namespace Statement

theorem exists_body {style : QuoteStyle} {statement : Statement} {printed : String}
    (h : statement.text style = .ok printed) : ∃ body, printed = "export " ++ body ++ ";" := by
  unfold Statement.text at h
  cases hkind : statement.kind <;> simp only [hkind] at h
  case named =>
    cases h
    exact ⟨_, by rw [← String.append_assoc]⟩
  case wildcard =>
    cases hsource : statement.source with
    | none =>
        rw [hsource] at h
        cases h
    | some source =>
        rw [hsource] at h
        cases h
        exact ⟨typePrefix statement.typeOnly ++ "*" ++ fromText style.mark (some source),
          by simp only [String.append_assoc]⟩
  case namespaced =>
    cases hname : statement.publishedAs with
    | none =>
        rw [hname] at h
        cases h
    | some name =>
        cases hsource : statement.source with
        | none =>
            rw [hname, hsource] at h
            cases h
        | some source =>
            rw [hname, hsource] at h
            cases h
            exact ⟨typePrefix statement.typeOnly ++ "* as " ++ nameText style.mark name ++
              fromText style.mark (some source), by simp only [String.append_assoc]⟩

end Statement

namespace Module

variable {before behind text : Bytes} {texts : List Bytes} {others : List StatementSpan}
  {place : Nat} {flag : Bool}

def IsPrinted (text : Bytes) : Prop := ∃ body, text = 101 :: (body ++ [59])

theorem isPrinted_text {style : QuoteStyle} {statement : Statement} {printed : String}
    (h : statement.text style = .ok printed) : IsPrinted (bytesOf printed) := by
  obtain ⟨body, rfl⟩ := Statement.exists_body h
  have hhead : bytesOf "export " = 101 :: bytesOf "xport " := by decide
  have hlast : bytesOf ";" = [59] := by decide
  exact ⟨bytesOf "xport " ++ bytesOf body, by simp [bytesOf_append, hhead, hlast]⟩

namespace IsPrinted

theorem solid (h : IsPrinted text) : IsSolid text := by
  obtain ⟨body, rfl⟩ := h
  constructor
  · simp
  · simp [isBlankByte]
  · intro byte hbyte
    rw [← List.cons_append, List.getLast?_concat] at hbyte
    cases hbyte
    decide

theorem append (htext : IsPrinted text) (hbehind : IsPrinted behind) (between : Bytes) :
    IsPrinted (text ++ (between ++ behind)) := by
  obtain ⟨body, rfl⟩ := htext
  obtain ⟨more, rfl⟩ := hbehind
  exact ⟨body ++ [59] ++ between ++ 101 :: more, by simp⟩

theorem around (h : IsPrinted text) (htext : IsText (before ++ (text ++ behind))) :
    IsText before ∧ IsText behind := by
  obtain ⟨body, rfl⟩ := h
  rw [List.cons_append, List.append_assoc] at htext
  obtain ⟨hbefore, hrest⟩ := htext.around_ascii (by decide)
  exact ⟨hbefore, (hrest.around_ascii (by decide)).2⟩

end IsPrinted

/-! ## Printed statements, a line feed between them -/

def spanAt (isReExport : Bool) (place : Nat) (text : Bytes) : StatementSpan :=
  ⟨place, place + text.length, isReExport⟩

def printedSpans : Nat → List Bytes → List StatementSpan
  | _, [] => []
  | place, text :: rest => spanAt true place text :: printedSpans (place + text.length + 1) rest

def joined (texts : List Bytes) : Bytes := [newline].intercalate texts

theorem joined_singleton (text : Bytes) : joined [text] = text := by
  simp [joined]

theorem joined_cons_cons (text next : Bytes) (more : List Bytes) :
    joined (text :: next :: more) = text ++ newline :: joined (next :: more) := by
  simp [joined]

theorem isPrinted_joined (h : ∀ text ∈ texts, IsPrinted text) (hne : texts ≠ []) :
    IsPrinted (joined texts) := by
  induction texts with
  | nil => exact absurd rfl hne
  | cons text rest ih =>
      rw [List.forall_mem_cons] at h
      cases rest with
      | nil =>
          rw [joined_singleton]
          exact h.1
      | cons next more =>
          rw [joined_cons_cons]
          exact h.1.append (ih h.2 (by simp)) [newline]

theorem printed_cons (before text next : Bytes) (more : List Bytes) (behind : Bytes) :
    before ++ (joined (text :: next :: more) ++ behind) =
      before ++ (text ++ newline :: (joined (next :: more) ++ behind)) := by
  rw [joined_cons_cons, List.append_assoc, List.cons_append]

theorem printed_behind (before text behind : Bytes) :
    before ++ (text ++ newline :: behind) = (before ++ text ++ [newline]) ++ behind ∧
      before.length + text.length + 1 = (before ++ text ++ [newline]).length := by
  simp [Nat.add_assoc]

theorem isBlank_firstLine_newline (behind : Bytes) :
    isBlank (firstLine inLine (newline :: behind)) = true := by
  rw [firstLine_newline]
  decide

/-! ### One text, with what stands before it and behind it -/

theorem take_spanAt (flag : Bool) (before text behind : Bytes) :
    (before ++ (text ++ behind)).take (spanAt flag before.length text).start = before :=
  List.take_left

theorem drop_spanAt (flag : Bool) (before text behind : Bytes) :
    (before ++ (text ++ behind)).drop (spanAt flag before.length text).stop = behind := by
  rw [spanAt, ← List.append_assoc, ← List.length_append, List.drop_left]

theorem spanAt_inside (flag : Bool) (before text behind : Bytes) :
    (spanAt flag before.length text).stop ≤ (before ++ (text ++ behind)).length := by
  simp only [spanAt, List.length_append]
  omega

theorem standsAlone_spanAt :
    StandsAlone (before ++ (text ++ behind)) (spanAt flag before.length text) ↔
      isBlank (lastLine inLine before) = true ∧ isBlank (firstLine inLine behind) = true := by
  rw [StandsAlone, take_spanAt, drop_spanAt]

theorem removal_spanAt_alone (hbefore : isBlank (lastLine inLine before) = true)
    (hbehind : isBlank (firstLine inLine behind) = true) :
    removal (before ++ (text ++ behind)) (spanAt flag before.length text) =
      ⟨(beforeLine inLine before).length,
        before.length + text.length + (firstLine inLine behind).length, true⟩ := by
  rw [removal_of_alone (spanAt_inside flag before text behind)
    (standsAlone_spanAt.mpr ⟨hbefore, hbehind⟩), take_spanAt, drop_spanAt]
  rfl

theorem removal_spanAt_beside (h : ¬(isBlank (lastLine inLine before) = true ∧
    isBlank (firstLine inLine behind) = true)) :
    removal (before ++ (text ++ behind)) (spanAt flag before.length text) =
      ⟨before.length, before.length + text.length, false⟩ :=
  removal_of_not_alone (spanAt_inside flag before text behind) fun halone =>
    h (standsAlone_spanAt.mp halone)

theorem drop_behind (before text behind : Bytes) (n : Nat) :
    (before ++ (text ++ behind)).drop (before.length + text.length + n) = behind.drop n := by
  rw [← List.append_assoc, ← List.length_append, List.drop_length_add_append]

/-! ### All of them -/

def keptBehind (behind : Bytes) : Bytes :=
  if isBlank (firstLine inLine behind) then behindLine inLine behind else behind

theorem keptFrom_printed (hbefore : EndsLine inLine before) (hne : texts ≠ []) :
    keptFrom (before ++ (joined texts ++ behind)) place (printedSpans before.length texts) =
      slice (before ++ (joined texts ++ behind)) place before.length ++ keptBehind behind := by
  induction texts generalizing before place with
  | nil => exact absurd rfl hne
  | cons text rest ih =>
      have hbegin : isBlank (lastLine inLine before) = true := by
        rw [lastLine_of_endsLine hbefore]
        rfl
      cases rest with
      | nil =>
          rw [joined_singleton, printedSpans, printedSpans, keptFrom, keptFrom, keptBehind]
          split
          · rename_i hbehind
            rw [removal_spanAt_alone hbegin hbehind, beforeLine_of_endsLine hbefore, drop_behind,
              drop_length_firstLine]
          · rename_i hbehind
            rw [removal_spanAt_beside fun h => hbehind h.2]
            exact congrArg _ (drop_behind before text behind 0)
      | cons next more =>
          obtain ⟨hnext, hlength⟩ := printed_behind before text (joined (next :: more) ++ behind)
          have hbreak := isBlank_firstLine_newline (joined (next :: more) ++ behind)
          rw [printed_cons, printedSpans, keptFrom, removal_spanAt_alone hbegin hbreak,
            beforeLine_of_endsLine hbefore, firstLine_newline, hnext]
          dsimp only [List.length_singleton]
          rw [hlength, ih (endsLine_newline _) (by simp), slice_self, List.nil_append]

theorem onlyReExports_printed (hne : texts ≠ []) :
    onlyReExports (before ++ (joined texts ++ behind)) place (printedSpans before.length texts) =
      (isBlank (slice (before ++ (joined texts ++ behind)) place before.length) &&
        isBlank behind) := by
  induction texts generalizing before place with
  | nil => exact absurd rfl hne
  | cons text rest ih =>
      cases rest with
      | nil =>
          rw [joined_singleton, printedSpans, printedSpans, onlyReExports, onlyReExports,
            drop_spanAt]
          rfl
      | cons next more =>
          obtain ⟨hnext, hlength⟩ := printed_behind before text (joined (next :: more) ++ behind)
          have hbetween := slice_newline before text (joined (next :: more) ++ behind)
          rw [printed_cons, printedSpans, onlyReExports, hlength, hnext, ih (by simp), ← hnext,
            ← hlength, spanAt, hbetween]
          rfl

theorem onlyReExports_block (hne : texts ≠ []) :
    onlyReExports (before ++ (joined texts ++ behind)) 0 (printedSpans before.length texts) =
      (isBlank before && isBlank behind) := by
  rw [onlyReExports_printed hne, slice_zero, List.take_left]

theorem spliced_first {block : Bytes} (hsolid : IsSolid text) (hblock : block ≠ [])
    (honly : onlyReExports (before ++ (text ++ behind)) 0
      (spanAt flag before.length text :: others) = false) :
    spliced (before ++ (text ++ behind)) block (spanAt flag before.length text) others =
      before ++ (block ++ ((if isBlank (lastLine inLine before) &&
          isBlank (firstLine inLine behind) then lineBreak inLine behind else []) ++
        keptFrom (before ++ (text ++ behind))
          (removal (before ++ (text ++ behind)) (spanAt flag before.length text)).stop
          others)) := by
  have hslice : IsSolid (slice (before ++ (text ++ behind)) (spanAt flag before.length text).start
      (spanAt flag before.length text).stop) := by
    rw [spanAt, slice_middle]
    exact hsolid
  rw [spliced, if_neg (by simp [honly])]
  dsimp only
  rw [placedBlock_eq (spanAt_inside flag before text behind) hslice, placement, if_neg hblock]
  by_cases halone : isBlank (lastLine inLine before) = true ∧
      isBlank (firstLine inLine behind) = true
  · rw [removal_spanAt_alone halone.1 halone.2, if_pos (standsAlone_spanAt.mpr halone), take_spanAt,
      drop_spanAt, if_pos (by simpa using halone), take_beforeLine_append]
    simp only [List.append_assoc]
    rw [← List.append_assoc, beforeLine_append_lastLine]
  · rw [removal_spanAt_beside halone, if_neg fun h => halone (standsAlone_spanAt.mp h),
      if_neg (by simpa using halone)]
    simp only [List.take_left, List.append_assoc, List.nil_append]

/-! ## The block in the rewritten bytes -/

theorem Cutting.onlyReExports_of_blank {front back : Bytes} {spans : List StatementSpan}
    (h : Cutting front back spans) (hplace : place ≤ front.length)
    (hfront : isBlank (front.drop place) = true)
    (hkept : isBlank (keptFrom (front ++ back) front.length spans) = true) :
    onlyReExports (front ++ back) place spans = true := by
  induction h generalizing place with
  | nil =>
      rw [keptFrom, List.drop_left] at hkept
      rw [onlyReExports, List.drop_append_of_le_length hplace, isBlank_append, hfront, hkept]
      rfl
  | @cons front back span rest cut cutting ih =>
      rw [keptFrom_cons, isBlank_append, Bool.and_eq_true] at hkept
      have hbefore : isBlank (slice (front ++ back) place span.start) = true := by
        rw [slice, cut.take_start, List.drop_append_of_le_length hplace, isBlank_append,
          isBlank_append, hfront, hkept.1, cut.indent_blank]
        rfl
      have hending : isBlank (cut.passed.drop span.stop) = true := by
        rw [cut.drop_passed]
        exact cut.ending_blank
      have hrest := ih cut.stop_le_passed hending hkept.2
      rw [cut.passed_append] at hrest
      rw [onlyReExports, hbefore, hrest]
      rfl

theorem onlyReExports_of_kept {source : Bytes} {first : StatementSpan}
    (h : StatementsOf source (first :: others))
    (hbefore : isBlank (source.take first.start) = true)
    (hkept : isBlank (keptFrom source (removal source first).stop others) = true) :
    onlyReExports source 0 (first :: others) = true := by
  cases h.cutting_source with
  | cons cut cutting =>
      have hsource : cut.passed ++ cut.behind = source := cut.passed_append
      have hrange := cut.removal_eq
      simp only [Removal.range, Prod.mk.injEq, List.nil_append] at hrange
      have hending : isBlank (cut.passed.drop first.stop) = true := by
        rw [cut.drop_passed]
        exact cut.ending_blank
      have hothers := cutting.onlyReExports_of_blank cut.stop_le_passed hending (by
        rw [hsource, cut.length_passed, ← hrange.2]
        exact hkept)
      rw [hsource] at hothers
      rw [onlyReExports, slice_zero, hbefore, hothers]
      rfl

theorem exists_block {source block : Bytes} {first : StatementSpan}
    (h : StatementsOf source (first :: others)) (hblock : block ≠ [])
    (honly : onlyReExports source 0 (first :: others) = false) :
    ∃ before behind, before.length = first.start ∧ (isBlank before && isBlank behind) = false ∧
      spliced source block first others = before ++ (block ++ behind) := by
  have hsolid := h.solid first List.mem_cons_self
  have hinside := h.inside first List.mem_cons_self
  obtain ⟨before, text, remainder, rfl, hstart, hstop⟩ := @exists_pieces [] source _ _
    (Nat.zero_le _) (Nat.le_of_lt (start_lt_stop hsolid)) hinside
  have hfirst : first = spanAt first.isReExport before.length text := by
    cases first
    simp_all [spanAt]
  generalize first.isReExport = flag at hfirst
  subst hfirst
  rw [spanAt, slice_middle] at hsolid
  refine ⟨before, _, rfl, ?_, spliced_first hsolid hblock honly⟩
  rw [Bool.and_eq_false_iff, ← Bool.not_eq_true, ← Bool.not_eq_true, ← not_and_or]
  rintro ⟨hbefore, hbehind⟩
  rw [isBlank_append, Bool.and_eq_true] at hbehind
  have htrue := onlyReExports_of_kept h (by rw [take_spanAt]; exact hbefore) hbehind.2
  rw [honly] at htrue
  cases htrue

def Shows (bytes : Bytes) (spans : List StatementSpan) (texts : List Bytes) : Prop :=
  spans.map (fun span => slice bytes span.start span.stop) = texts

theorem shows_printed (before : Bytes) (texts : List Bytes) (behind : Bytes) :
    Shows (before ++ (joined texts ++ behind)) (printedSpans before.length texts) texts := by
  unfold Shows
  induction texts generalizing before with
  | nil => rfl
  | cons text rest ih =>
      cases rest with
      | nil =>
          rw [joined_singleton, printedSpans, printedSpans, List.map_singleton, spanAt,
            slice_middle]
      | cons next more =>
          obtain ⟨hnext, hlength⟩ := printed_behind before text (joined (next :: more) ++ behind)
          rw [printed_cons, printedSpans, List.map_cons, hlength, spanAt, slice_middle, hnext, ih]

end Module

end FlatExports
