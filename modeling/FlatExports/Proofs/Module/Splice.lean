import FlatExports.Proofs.Module.Cutting
import FlatExports.Proofs.Survey
import FlatExports.Proofs.Text.Utf8

/-!
What the rewriting of a module leaves of it.

Everything no removal covers is kept, with the printed block in the place of the
first removal, and the lines no statement stands on are among those that come
out.  Removals begin and end at characters where the statements do, so the
rewritten bytes are a text.
-/

namespace FlatExports.Module

open FlatExports.Text

variable {source front back block : Bytes} {span first : StatementSpan}
  {spans others : List StatementSpan}

theorem isBlank_append (x y : Bytes) : isBlank (x ++ y) = (isBlank x && isBlank y) :=
  List.all_append

theorem isAscii_of_isBlank {bytes : Bytes} (h : isBlank bytes = true) :
    ∀ byte ∈ bytes, byte.toNat < 0x80 := by
  intro byte hbyte
  have hblank := isBlank_iff.mp h byte hbyte
  simp only [isBlankByte, Bool.or_eq_true, beq_iff_eq, Bool.and_eq_true, decide_eq_true_eq,
    UInt8.le_iff_toNat_le] at hblank
  rcases hblank with rfl | ⟨-, hle⟩
  · decide
  · have h13 : (13 : UInt8).toNat = 13 := rfl
    omega

theorem isText_newline : IsText [newline] := .ascii (isAscii_of_isBlank (by decide))

theorem isText_of_append_blank {x y : Bytes} (h : IsText (x ++ y)) (hy : isBlank y = true) :
    IsText x := by
  cases y with
  | nil => simpa using h
  | cons byte rest => exact (h.around_ascii (isAscii_of_isBlank hy byte List.mem_cons_self)).1

/-! ## One removal -/

structure Removal.Holds (source : Bytes) (removed : Removal) (span : StatementSpan) : Prop where
  start_le : removed.start ≤ span.start
  le_stop : span.stop ≤ removed.stop
  inside : removed.stop ≤ source.length
  blankBefore : isBlank (slice source removed.start span.start) = true
  blankBehind : isBlank (slice source span.stop removed.stop) = true

theorem removal_holds (hinside : span.stop ≤ source.length) (hle : span.start ≤ span.stop) :
    (removal source span).Holds source span := by
  by_cases halone : StandsAlone source span
  · have hbefore := congrArg List.length
      (@beforeLine_append_lastLine _ inLine (source.take span.start))
    have hbehind := congrArg List.length
      (@firstLine_append_behindLine _ inLine (source.drop span.stop))
    rw [List.length_append, List.length_take] at hbefore
    rw [List.length_append, List.length_drop] at hbehind
    rw [removal_of_alone hinside halone]
    constructor
    · dsimp only
      omega
    · dsimp only
      omega
    · dsimp only
      omega
    · rw [slice_beforeLine]
      exact halone.1
    · rw [slice_firstLine]
      exact halone.2
  · rw [removal_of_not_alone hinside halone]
    constructor <;> simp [slice_self, isBlank, hinside]

theorem removal_bounds (hinside : span.stop ≤ source.length) (hle : span.start ≤ span.stop)
    (hstart : IsText (source.take span.start)) (hstop : IsText (source.take span.stop)) :
    IsText (source.take (removal source span).start) ∧
      IsText (source.take (removal source span).stop) := by
  by_cases halone : StandsAlone source span
  · rw [removal_of_alone hinside halone, take_firstLine, take_beforeLine (by omega)]
    rw [← @beforeLine_append_lastLine _ inLine (source.take span.start)] at hstart
    exact ⟨isText_of_append_blank hstart halone.1,
      hstop.append (.ascii (isAscii_of_isBlank halone.2))⟩
  · rw [removal_of_not_alone hinside halone]
    exact ⟨hstart, hstop⟩

/-! ## The placed block -/

def placement (source block : Bytes) (span : StatementSpan) : Bytes :=
  if block = [] then []
  else if StandsAlone source span then
    lastLine inLine (source.take span.start) ++ block ++
      lineBreak inLine (source.drop span.stop)
  else block

theorem lineBreak_cases (bytes : Bytes) :
    lineBreak inLine bytes = [] ∨ lineBreak inLine bytes = [newline] := by
  cases hrest : bytes.dropWhile inLine with
  | nil => simp [lineBreak, hrest]
  | cons byte rest =>
      have h := List.head_dropWhile_not inLine (l := bytes) (by simp [hrest])
      have hbyte : byte = newline := by simpa [hrest, inLine] using h
      simp [lineBreak, hrest, hbyte]

theorem isBlank_lineBreak (bytes : Bytes) : isBlank (lineBreak inLine bytes) = true := by
  rcases lineBreak_cases bytes with h | h <;> rw [h] <;> decide

theorem lineBreak_of_last {before : Bytes} (h : ∀ byte ∈ before.getLast?, inLine byte = true)
    (behind : Bytes) :
    (if (before ++ firstLine inLine behind).getLast?.toList = [newline] then
      (before ++ firstLine inLine behind).getLast?.toList else []) =
        lineBreak inLine behind := by
  rcases lineBreak_cases behind with hbreak | hbreak
  · have hstays : ∀ byte ∈ (before ++ behind.takeWhile inLine).getLast?, inLine byte = true := by
      intro byte hbyte
      rw [List.getLast?_append, Option.mem_def, Option.or_eq_some_iff] at hbyte
      rcases hbyte with hbyte | ⟨-, hbyte⟩
      · exact List.mem_takeWhile_imp (List.mem_of_getLast? hbyte)
      · exact h byte hbyte
    have hlast : (before ++ firstLine inLine behind).getLast?.toList ≠ [newline] := by
      rw [firstLine, hbreak, List.append_nil]
      intro hnewline
      have hin := hstays newline <|
        Option.mem_toList.mp (by simp only [hnewline, List.mem_singleton])
      simp [inLine] at hin
    rw [if_neg hlast, hbreak]
  · have hlast : (before ++ firstLine inLine behind).getLast?.toList = [newline] := by
      rw [firstLine, hbreak, ← List.append_assoc, List.getLast?_concat]
      rfl
    rw [if_pos hlast, hlast, hbreak]

theorem placedBlock_eq (hinside : span.stop ≤ source.length)
    (hsolid : IsSolid (slice source span.start span.stop)) :
    placedBlock source block span = placement source block span := by
  have hlt := start_lt_stop hsolid
  rw [placedBlock, placement]
  by_cases hblock : block = []
  · simp [hblock]
  rw [if_neg (by simpa using hblock), if_neg hblock]
  by_cases halone : StandsAlone source span
  · have hin := (removal_holds hinside (Nat.le_of_lt hlt)).inside
    have hlast : ∀ byte ∈ (source.take span.stop).getLast?, inLine byte = true := by
      intro byte hbyte
      refine inLine_of_solid (hsolid.last byte ?_)
      rwa [slice, List.getLast?_drop, if_neg (by rw [List.length_take]; omega)]
    rw [removal_of_alone hinside halone] at hin ⊢
    dsimp only at hin ⊢
    rw [if_pos rfl, if_pos halone, slice_beforeLine, slice_last (by omega) hin, take_firstLine,
      lineBreak_of_last hlast]
  · rw [removal_of_not_alone hinside halone, if_neg (by simp), if_neg halone]

/-! ## All of the source -/

theorem uncovered_ranges_cons {gap text : Bytes} (hstart : span.start = (front ++ gap).length)
    (hstop : span.stop = span.start + text.length)
    (hlater : ∀ later ∈ others, span.stop ≤ later.start) (behind : Bytes) :
    uncovered (ranges (span :: others)) front.length (gap ++ (text ++ behind)) =
      gap ++ uncovered (ranges others) span.stop behind := by
  rw [List.length_append] at hstart
  rw [uncovered, ranges, List.map_cons, StatementSpan.range,
    remaining_cons hstart hstop (by simpa [StatementSpan.range] using hlater), List.map_append,
    List.zipIdx_map_fst]
  rfl

theorem onlyReExports_eq (h : StatementsOf (front ++ back) spans)
    (hstart : ∀ span ∈ spans, front.length ≤ span.start) :
    onlyReExports (front ++ back) front.length spans =
      isBlank (uncovered (ranges spans) front.length back) := by
  induction spans generalizing front back with
  | nil => rw [onlyReExports, ranges, List.map_nil, uncovered_nil, List.drop_left]
  | cons span rest ih =>
      have hlt := start_lt_stop (h.solid span List.mem_cons_self)
      obtain ⟨gap, text, behind, hback, hat, hto⟩ := exists_pieces
        (hstart span List.mem_cons_self) (Nat.le_of_lt hlt) (h.inside span List.mem_cons_self)
      subst hback
      have hsource : front ++ (gap ++ (text ++ behind)) = (front ++ (gap ++ text)) ++ behind := by
        simp only [List.append_assoc]
      have hpassed : (front ++ (gap ++ text)).length = span.stop := by
        simp only [hto, hat, List.length_append]
        omega
      have hlater := h.stop_le
      have hgap : slice (front ++ (gap ++ (text ++ behind))) front.length span.start = gap := by
        rw [hat, List.length_append, slice_middle]
      have hranges := uncovered_ranges_cons hat hto hlater behind
      have hrest := h.tail
      rw [hsource] at hrest
      rw [← hpassed] at hlater
      rw [onlyReExports, hgap, hranges, isBlank_append, hsource, ← hpassed, ih hrest hlater]

theorem onlyReExports_source (h : StatementsOf source spans) :
    onlyReExports source 0 spans = isBlank (uncovered (ranges spans) 0 source) := by
  rw [← List.nil_append source] at h
  exact onlyReExports_eq h (by simp)

theorem Cut.bounds (cut : Cut front back span)
    (h : ∀ range ∈ removals (front ++ back) (span :: others),
      IsText ((front ++ back).take range.1) ∧ IsText ((front ++ back).take range.2)) :
    IsText (front ++ cut.gap) ∧ IsText cut.passed ∧
      ∀ range ∈ removals (cut.passed ++ cut.behind) others,
        IsText ((cut.passed ++ cut.behind).take range.1) ∧
          IsText ((cut.passed ++ cut.behind).take range.2) := by
  have hpassed : (front ++ back).take (span.stop + cut.ending.length) = cut.passed := by
    rw [← cut.length_passed, ← cut.passed_append, List.take_left]
  rw [removals_cons cut, List.forall_mem_cons, cut.take_gap, hpassed] at h
  obtain ⟨⟨hgap, hstop⟩, hrest⟩ := h
  rw [← cut.passed_append] at hrest
  exact ⟨hgap, hstop, hrest⟩

theorem Cutting.isText (h : Cutting front back spans) (hsource : IsText (front ++ back))
    (hfront : IsText front)
    (hbounds : ∀ range ∈ removals (front ++ back) spans,
      IsText ((front ++ back).take range.1) ∧ IsText ((front ++ back).take range.2)) :
    IsText (uncovered (removals (front ++ back) spans) front.length back) := by
  induction h with
  | nil =>
      rw [removals, List.map_nil, uncovered_nil]
      exact hfront.of_append hsource
  | cons cut behind ih =>
      obtain ⟨hgap, hpassed, hrest⟩ := cut.bounds hbounds
      rw [← cut.passed_append] at hsource
      rw [uncovered_cons cut behind]
      exact (hfront.of_append hgap).append (ih hsource hpassed hrest)

/-- How the bytes of a rewritten module come from those before. -/
structure IsSpliced (source block output : Bytes) (first : StatementSpan)
    (spans : List StatementSpan) : Prop where
  removed : ∀ span ∈ spans, (removal source span).Holds source span
  inOrder : InOrder (removals source spans)
  mixed : isBlank (uncovered (ranges spans) 0 source) = false →
    (∃ before behind, uncovered (removals source spans) 0 source = before ++ behind ∧
      before.length = (removal source first).start ∧
      output = before ++ placement source block first ++ behind) ∧
    (uncoveredLines (ranges spans) source).Sublist (lines output)
  only : isBlank (uncovered (ranges spans) 0 source) = true →
    output = block ++ if block ≠ [] ∧ source.getLast? = some newline then [newline] else []

theorem removals_bounds (h : StatementsOf source spans)
    (hbounds : ∀ span ∈ spans,
      IsText (source.take span.start) ∧ IsText (source.take span.stop)) :
    ∀ range ∈ removals source spans,
      IsText (source.take range.1) ∧ IsText (source.take range.2) := by
  simp only [removals, List.forall_mem_map]
  intro span hspan
  have hlt := start_lt_stop (h.solid span hspan)
  obtain ⟨hstart, hstop⟩ := hbounds span hspan
  exact removal_bounds (h.inside span hspan) (Nat.le_of_lt hlt) hstart hstop

theorem isText_placement (hblock : IsText block) : IsText (placement source block span) := by
  unfold placement
  split
  · exact .nil
  split
  · rename_i halone
    exact ((IsText.ascii (isAscii_of_isBlank halone.1)).append hblock).append
      (.ascii (isAscii_of_isBlank (isBlank_lineBreak _)))
  · exact hblock

theorem lineBreak_of_mem {bytes : Bytes} (h : newline ∈ bytes) :
    lineBreak inLine bytes = [newline] := by
  refine (lineBreak_cases bytes).resolve_left fun hnone => ?_
  rw [lineBreak, List.take_eq_nil_iff, List.dropWhile_eq_nil_iff] at hnone
  have hin := hnone.resolve_left (by decide) newline h
  simp [inLine] at hin

theorem endsLine_placement (cut : Cut [] source first) (h : EndsLine inLine cut.passed) :
    EndsLine inLine (placement source block first) := by
  have halone := cut.standsAlone_of_endsLine h
  have hmem : newline ∈ source.drop first.stop := by
    have hdrop := cut.drop_stop
    rw [List.nil_append] at hdrop
    rw [hdrop]
    exact List.mem_append_left _ (cut.newline_mem_ending h)
  rw [List.nil_append] at halone
  rw [placement, if_pos halone, lineBreak_of_mem hmem]
  split
  · exact endsLine_nil
  · exact (endsLine_append_of_ne_nil (by simp)).mpr (by simp [EndsLine, inLine])

/-- The other lines stay with the block in the place of the first statement. -/
theorem lines_spliced {source : Bytes} (cut : Cut [] source first)
    (behind : Cutting cut.passed cut.behind others) (block : Bytes) :
    (uncoveredLines (ranges (first :: others)) source).Sublist
      (lines (cut.gap ++ placement source block first ++
        uncovered (removals (cut.passed ++ cut.behind) others) cut.passed.length cut.behind)) := by
  have htouched : ∀ span ∈ first :: others, ∀ i, span.start ≤ i → i < span.stop →
      covered (ranges (first :: others)) i = true := by
    intro span hspan i hle hlt
    exact covered_eq_true.mpr ⟨span.range, List.mem_map_of_mem hspan, hle, hlt⟩
  rw [List.forall_mem_cons] at htouched
  have hnothing (_ : EndsLine inLine ([] : Bytes)) :
      EndsLine (inLine ∘ Prod.fst) ([] : List (UInt8 × Nat)) := endsLine_nil
  have hplaced (h : EndsLine inLine cut.passed) :
      EndsLine (inLine ∘ Prod.fst) ((placement source block first).zipIdx) :=
    endsLine_zipIdx.mpr (endsLine_placement cut h)
  have hfirst := cut.otherLines_replaced htouched.1 hnothing hplaced
  have hothers := behind.otherLines_kept htouched.2 (cut.endsLine_kept hnothing hplaced)
  rw [List.append_assoc] at hothers
  have hlines := ((hfirst.trans hothers).trans untouchedLines_sublist).map (List.map Prod.fst)
  rw [← linesBy_map] at hlines
  simpa [uncoveredLines, otherLines, lines, uncovered] using hlines

theorem spliced_eq (cut : Cut [] source first) (behind : Cutting cut.passed cut.behind others)
    (hinside : first.stop ≤ source.length)
    (hsolid : IsSolid (slice source first.start first.stop))
    (honly : onlyReExports source 0 (first :: others) = false) :
    spliced source block first others = cut.gap ++ placement source block first ++
      uncovered (removals (cut.passed ++ cut.behind) others) cut.passed.length cut.behind := by
  have hrange := cut.removal_eq
  have hgap := cut.take_gap
  have hpassed := cut.passed_append
  simp only [Removal.range, Prod.mk.injEq, List.nil_append, List.length_nil, Nat.zero_add]
    at hrange hgap hpassed
  rw [spliced, if_neg (by simp [honly])]
  dsimp only
  rw [hrange.1, hrange.2, hgap, ← cut.length_passed, placedBlock_eq hinside hsolid,
    ← behind.keptFrom_eq, hpassed]

theorem spliced_only (honly : onlyReExports source 0 (first :: others) = true) :
    spliced source block first others =
      block ++ if block ≠ [] ∧ source.getLast? = some newline then [newline] else [] := by
  rw [spliced, if_pos honly]
  exact congrArg (block ++ ·) (if_congr and_comm rfl rfl)

theorem isSpliced_spliced (h : StatementsOf source (first :: others)) :
    IsSpliced source block (spliced source block first others) first (first :: others) := by
  have hcutting := h.cutting_source
  have honly := onlyReExports_source h
  constructor
  · intro span hspan
    exact removal_holds (h.inside span hspan) (Nat.le_of_lt (start_lt_stop (h.solid span hspan)))
  · exact hcutting.inOrder
  · intro hmixed
    rw [← honly] at hmixed
    cases hcutting with
    | cons cut behind =>
        have hrange := cut.removal_eq
        simp only [Removal.range, Prod.mk.injEq, List.nil_append, List.length_nil, Nat.zero_add]
          at hrange
        rw [spliced_eq cut behind (h.inside first List.mem_cons_self)
          (h.solid first List.mem_cons_self) hmixed]
        exact ⟨⟨cut.gap, _, Cutting.uncovered_cons cut behind, hrange.1.symm, rfl⟩,
          lines_spliced cut behind block⟩
  · intro hblank
    rw [← honly] at hblank
    exact spliced_only hblank

theorem isText_spliced (h : StatementsOf source (first :: others)) (hsource : IsText source)
    (hbounds : ∀ span ∈ first :: others,
      IsText (source.take span.start) ∧ IsText (source.take span.stop))
    (hblock : IsText block) : IsText (spliced source block first others) := by
  cases honly : onlyReExports source 0 (first :: others) with
  | true =>
      rw [spliced_only honly]
      split
      · exact hblock.append isText_newline
      · exact hblock.append .nil
  | false =>
      cases h.cutting_source with
      | cons cut behind =>
          obtain ⟨hgap, hpassed, hrest⟩ := cut.bounds (removals_bounds h hbounds)
          have hwhole : IsText (cut.passed ++ cut.behind) := by
            rwa [cut.passed_append]
          rw [spliced_eq cut behind (h.inside first List.mem_cons_self)
            (h.solid first List.mem_cons_self) honly]
          exact (hgap.append (isText_placement hblock)).append
            (behind.isText hwhole hpassed hrest)

theorem withStatements_eq_ok {style : QuoteStyle} {statements : List Statement}
    {block output : String} (hblock : Statement.textOfAll style statements = .ok block) :
    withStatements style source (first :: others) statements = .ok output ↔
      spliced source (bytesOf block) first others = bytesOf output := by
  rw [← text?_eq_some_iff, withStatements, hblock]
  simp only [bind_eq_ok, pure, Except.pure, Except.ok.injEq, exists_eq_left']
  cases text? (spliced source (bytesOf block) first others) <;> simp

/--
Rewriting never fails on statements that can be printed, and cuts out the
statements with blanks beside them and nothing else.
-/
theorem withStatements_keeps_other_code (style : QuoteStyle) {source : Bytes} {text : String}
    {first : StatementSpan} {others : List StatementSpan} {statements : List Statement}
    {block : String} (hsource : text? source = some text)
    (hspans : StatementsOf source (first :: others))
    (hbounds : ∀ span ∈ first :: others,
      IsText (source.take span.start) ∧ IsText (source.take span.stop))
    (hblock : Statement.textOfAll style statements = .ok block) :
    ∃ output, withStatements style source (first :: others) statements = .ok output ∧
      IsSpliced source (bytesOf block) (bytesOf output) first (first :: others) := by
  have htext : IsText source := text?_eq_some_iff.mp hsource ▸ isText_bytesOf text
  obtain ⟨output, houtput⟩ :=
    (isText_spliced hspans htext hbounds (isText_bytesOf block)).exists_string
  exact ⟨output, (withStatements_eq_ok hblock).mpr houtput, houtput ▸ isSpliced_spliced hspans⟩

def mixedSource : Bytes :=
  bytesOf "// é\n  export * from './a';\nconst x = 1; export * from './b'; // x"

theorem withStatements_keeps_other_code_mixedSource :
    text? mixedSource = some "// é\n  export * from './a';\nconst x = 1; export * from './b'; // x" ∧
    StatementsOf mixedSource [⟨8, 28, true⟩, ⟨42, 62, true⟩] ∧
    ∃ output, withStatements .single mixedSource [⟨8, 28, true⟩, ⟨42, 62, true⟩]
        [.wildcard "./c" false] = .ok output ∧
      IsSpliced mixedSource (bytesOf "export * from './c';") (bytesOf output) ⟨8, 28, true⟩
        [⟨8, 28, true⟩, ⟨42, 62, true⟩] := by
  have hsource := text?_bytesOf
    "// é\n  export * from './a';\nconst x = 1; export * from './b'; // x"
  have hspans : StatementsOf mixedSource [⟨8, 28, true⟩, ⟨42, 62, true⟩] := by decide +kernel
  refine ⟨hsource, hspans, ?_⟩
  exact withStatements_keeps_other_code .single hsource hspans (by decide +kernel) rfl

end FlatExports.Module
