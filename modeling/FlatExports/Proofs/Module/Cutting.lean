import FlatExports.Module.Splice
import FlatExports.Proofs.Text.Ranges

/-!
Cutting the statements of a module out of its bytes.

What is cut out for one statement is said once, in `Cut`.  That the removals are
in order, what is kept, and that the other lines stay are then inductions on the
statements, each of them cut out behind what the ones before have passed.
-/

namespace FlatExports.Module

open FlatExports.Text

/-! ## Statements in a source -/

structure IsSolid (text : Bytes) : Prop where
  ne_nil : text ≠ []
  head : ∀ byte ∈ text.head?, isBlankByte byte = false
  last : ∀ byte ∈ text.getLast?, isBlankByte byte = false

instance (text : Bytes) : Decidable (IsSolid text) :=
  decidable_of_iff (text ≠ [] ∧ text.head?.any isBlankByte = false ∧
      text.getLast?.any isBlankByte = false) <| by
    rw [Option.any_eq_false, Option.any_eq_false]
    exact ⟨fun h => ⟨h.1, h.2.1, h.2.2⟩, fun h => ⟨h.ne_nil, h.head, h.last⟩⟩

def StatementSpan.range (span : StatementSpan) : Nat × Nat := (span.start, span.stop)

def ranges (spans : List StatementSpan) : List (Nat × Nat) := spans.map StatementSpan.range

def Removal.range (removed : Removal) : Nat × Nat := (removed.start, removed.stop)

/-- Sorted and disjoint, in the source, and with no blank at either end. -/
structure StatementsOf (source : Bytes) (spans : List StatementSpan) : Prop where
  inside : ∀ span ∈ spans, span.stop ≤ source.length
  solid : ∀ span ∈ spans, IsSolid (slice source span.start span.stop)
  ordered : InOrder (ranges spans)

instance (source : Bytes) (spans : List StatementSpan) : Decidable (StatementsOf source spans) :=
  decidable_of_iff ((∀ span ∈ spans, span.stop ≤ source.length) ∧
      (∀ span ∈ spans, IsSolid (slice source span.start span.stop)) ∧ InOrder (ranges spans))
    ⟨fun h => ⟨h.1, h.2.1, h.2.2⟩, fun h => ⟨h.inside, h.solid, h.ordered⟩⟩

/-- Nothing but blanks stands beside the statement on its lines. -/
def StandsAlone (source : Bytes) (span : StatementSpan) : Prop :=
  isBlank (lastLine inLine (source.take span.start)) = true ∧
    isBlank (firstLine inLine (source.drop span.stop)) = true

instance (source : Bytes) (span : StatementSpan) : Decidable (StandsAlone source span) :=
  inferInstanceAs (Decidable (_ ∧ _))

variable {source front back : Bytes} {span : StatementSpan}
  {spans others : List StatementSpan}

theorem isBlank_iff {bytes : Bytes} :
    isBlank bytes = true ↔ ∀ byte ∈ bytes, isBlankByte byte = true := by
  simp [isBlank]

theorem inLine_of_solid {byte : UInt8} (h : isBlankByte byte = false) : inLine byte = true := by
  have hne : byte ≠ newline := by
    rintro rfl
    exact absurd h (by decide)
  simpa [inLine] using hne

theorem start_lt_stop (h : IsSolid (slice source span.start span.stop)) :
    span.start < span.stop := by
  by_contra hle
  refine h.ne_nil (List.drop_eq_nil_of_le ?_)
  rw [List.length_take]
  omega

/-! ## The removal of one statement -/

theorem slice_lineStart (source : Bytes) (position : Nat) :
    slice source (lineStart source position) position =
      lastLine inLine (source.take position) := by
  rw [lineStart_eq, slice_beforeLine]

theorem slice_lineEnd {position : Nat} (h : position ≤ source.length) :
    slice source position (lineEnd source position) =
      firstLine inLine (source.drop position) := by
  rw [lineEnd_eq h, slice_firstLine]

theorem removal_of_alone (hinside : span.stop ≤ source.length) (h : StandsAlone source span) :
    removal source span =
      ⟨(beforeLine inLine (source.take span.start)).length,
        span.stop + (firstLine inLine (source.drop span.stop)).length, true⟩ := by
  rw [removal, slice_lineStart, slice_lineEnd hinside, h.1, h.2, lineStart_eq,
    lineEnd_eq hinside]
  rfl

theorem removal_of_not_alone (hinside : span.stop ≤ source.length) (h : ¬StandsAlone source span) :
    removal source span = ⟨span.start, span.stop, false⟩ := by
  rw [removal, slice_lineStart, slice_lineEnd hinside]
  exact if_neg (by simpa [StandsAlone] using h)

/-- How one statement is cut out of the bytes behind a place. -/
structure Cut (front back : Bytes) (span : StatementSpan) where
  gap : Bytes
  indent : Bytes
  text : Bytes
  ending : Bytes
  behind : Bytes
  back_eq : back = gap ++ ((indent ++ (text ++ ending)) ++ behind)
  start_eq : span.start = front.length + gap.length + indent.length
  stop_eq : span.stop = span.start + text.length
  solid : IsSolid text
  indent_blank : isBlank indent = true
  ending_blank : isBlank ending = true
  whole : StandsAlone (front ++ back) span → EndsLine inLine (front ++ gap) ∧
    (∀ byte ∈ indent, inLine byte = true) ∧ OneLine inLine ending ∧
    (behind ≠ [] → ending ≠ [] ∧ EndsLine inLine ending)
  part : ¬StandsAlone (front ++ back) span → indent = [] ∧ ending = []
  removal_eq : (removal (front ++ back) span).range =
    (front.length + gap.length, span.stop + ending.length)

def Settled (front : Bytes) : Prop :=
  ∀ byte ∈ front.getLast?, byte = newline ∨ isBlankByte byte = false

theorem Settled.exists_gap {bytes : Bytes} (h : Settled front)
    (hblank : isBlank (lastLine inLine (front ++ bytes)) = true) :
    ∃ gap, bytes = gap ++ lastLine inLine (front ++ bytes) ∧
      beforeLine inLine (front ++ bytes) = front ++ gap := by
  have hsplit := @beforeLine_append_lastLine _ inLine (front ++ bytes)
  rcases List.append_eq_append_iff.mp hsplit with ⟨more, hfront, hline⟩ | ⟨gap, hbefore, hbytes⟩
  · cases hmore : more.getLast? with
    | none =>
        rw [List.getLast?_eq_none_iff] at hmore
        subst hmore
        exact ⟨[], by simpa using hline.symm, by simpa using hfront.symm⟩
    | some byte =>
        have hmem : byte ∈ lastLine inLine (front ++ bytes) := by
          rw [hline]
          exact List.mem_append_left _ (List.mem_of_getLast? hmore)
        have hlast : front.getLast? = some byte := by
          rw [hfront, List.getLast?_append, hmore, Option.some_or]
        have hstays := stays_of_mem_lastLine hmem
        rcases h byte hlast with rfl | hsolid
        · simp [inLine] at hstays
        · rw [isBlank_iff.mp hblank byte hmem] at hsolid
          cases hsolid
  · exact ⟨gap, hbytes, hbefore⟩

theorem exists_pieces {start stop : Nat} (hstart : front.length ≤ start) (hle : start ≤ stop)
    (hinside : stop ≤ (front ++ back).length) :
    ∃ gap text behind, back = gap ++ (text ++ behind) ∧ start = (front ++ gap).length ∧
      stop = start + text.length := by
  rw [List.length_append] at hinside
  have hsplit := (List.take_append_drop (start - front.length) back).symm
  rw [← List.take_append_drop (stop - start) (back.drop _)] at hsplit
  refine ⟨_, _, _, hsplit, ?_, ?_⟩
  · rw [List.length_append, List.length_take]
    omega
  · rw [List.length_take, List.length_drop]
    omega

theorem exists_cut {gap text behind : Bytes} (hsettled : Settled front)
    (hback : back = gap ++ (text ++ behind)) (hstart : span.start = (front ++ gap).length)
    (hstop : span.stop = span.start + text.length) (hsolid : IsSolid text) :
    Nonempty (Cut front back span) := by
  have hsource : front ++ back = (front ++ gap) ++ (text ++ behind) := by
    rw [hback, List.append_assoc]
  have hbefore : (front ++ back).take span.start = front ++ gap := by
    rw [hsource, hstart, List.take_left]
  have hafter : (front ++ back).drop span.stop = behind := by
    rw [hsource, hstop, hstart, ← List.append_assoc, ← List.length_append, List.drop_left]
  have hinside : span.stop ≤ (front ++ back).length := by
    simp only [hsource, hstop, hstart, List.length_append]
    omega
  rw [List.length_append] at hstart
  by_cases halone : StandsAlone (front ++ back) span
  · have hremoval := removal_of_alone hinside halone
    have hindent := halone.1
    have hending := halone.2
    rw [hbefore] at hindent hremoval
    rw [hafter] at hending hremoval
    obtain ⟨before, hgap, hline⟩ := hsettled.exists_gap hindent
    have hlength := congrArg List.length hgap
    rw [List.length_append] at hlength
    refine ⟨⟨before, lastLine inLine (front ++ gap), text, firstLine inLine behind,
      behindLine inLine behind, ?_, by omega, hstop, hsolid, hindent, hending, fun _ => ⟨?_, ?_,
        oneLine_firstLine _, endsLine_firstLine⟩, fun h => absurd halone h, ?_⟩⟩
    · rw [hback, List.append_assoc, List.append_assoc, firstLine_append_behindLine,
        ← List.append_assoc before, ← hgap]
    · rw [← hline]
      exact endsLine_beforeLine _
    · exact fun _ => stays_of_mem_lastLine
    · rw [hremoval, hline, List.length_append]
      rfl
  · refine ⟨⟨gap, [], text, [], behind, by simpa using hback, by simpa using hstart, hstop, hsolid,
      rfl, rfl, fun h => absurd h halone, fun _ => ⟨rfl, rfl⟩, ?_⟩⟩
    rw [removal_of_not_alone hinside halone, ← hstart]
    rfl

namespace Cut

def taken (cut : Cut front back span) : Bytes := cut.indent ++ (cut.text ++ cut.ending)

def passed (cut : Cut front back span) : Bytes := front ++ (cut.gap ++ cut.taken)

theorem back_eq_taken (cut : Cut front back span) :
    back = cut.gap ++ (cut.taken ++ cut.behind) := cut.back_eq

theorem passed_append (cut : Cut front back span) : cut.passed ++ cut.behind = front ++ back := by
  have h := congrArg (front ++ ·) cut.back_eq_taken
  simpa [passed] using h.symm

theorem length_passed (cut : Cut front back span) :
    cut.passed.length = span.stop + cut.ending.length := by
  have hstart := cut.start_eq
  have hstop := cut.stop_eq
  simp only [passed, taken, List.length_append]
  omega

theorem take_gap (cut : Cut front back span) :
    (front ++ back).take (front.length + cut.gap.length) = front ++ cut.gap := by
  rw [← cut.passed_append, passed, ← List.append_assoc, List.append_assoc (front ++ cut.gap),
    ← List.length_append, List.take_left]

theorem stop_le_passed (cut : Cut front back span) : span.stop ≤ cut.passed.length := by
  rw [cut.length_passed]
  exact Nat.le_add_right _ _

theorem length_taken (cut : Cut front back span) :
    span.stop + cut.ending.length = front.length + cut.gap.length + cut.taken.length := by
  rw [← cut.length_passed, passed, List.length_append, List.length_append, Nat.add_assoc]

theorem ne_alone_or (cut : Cut front back span) : cut.ending = [] ∨ cut.behind = [] ∨
    cut.ending ≠ [] ∧ EndsLine inLine cut.ending := by
  by_cases halone : StandsAlone (front ++ back) span
  · by_cases hbehind : cut.behind = []
    · exact .inr (.inl hbehind)
    · exact .inr (.inr ((cut.whole halone).2.2.2 hbehind))
  · exact .inl (cut.part halone).2

theorem settled_passed (cut : Cut front back span) (hbehind : cut.behind ≠ []) :
    Settled cut.passed := by
  have hne := cut.solid.ne_nil
  intro byte hlast
  rw [passed, taken] at hlast
  rcases cut.ne_alone_or with hending | hnil | ⟨hending, hends⟩
  · rw [hending, List.append_nil, ← List.append_assoc, ← List.append_assoc,
      List.getLast?_append_of_ne_nil _ hne] at hlast
    exact .inr (cut.solid.last byte hlast)
  · exact absurd hnil hbehind
  · rw [← List.append_assoc, ← List.append_assoc, ← List.append_assoc,
      List.getLast?_append_of_ne_nil _ hending] at hlast
    have hends := hends byte hlast
    exact .inl (by simpa [inLine] using hends)

theorem passed_eq (cut : Cut front back span) :
    ∃ before, before.length = span.stop ∧ cut.passed = before ++ cut.ending := by
  have hstart := cut.start_eq
  have hstop := cut.stop_eq
  refine ⟨front ++ (cut.gap ++ (cut.indent ++ cut.text)), ?_, ?_⟩
  · simp only [List.length_append]
    omega
  · rw [passed, taken]
    simp only [List.append_assoc]

theorem drop_passed (cut : Cut front back span) : cut.passed.drop span.stop = cut.ending := by
  obtain ⟨before, hbefore, hpassed⟩ := cut.passed_eq
  rw [hpassed, ← hbefore, List.drop_left]

theorem drop_stop (cut : Cut front back span) :
    (front ++ back).drop span.stop = cut.ending ++ cut.behind := by
  obtain ⟨before, hbefore, hpassed⟩ := cut.passed_eq
  rw [← cut.passed_append, hpassed, List.append_assoc, ← hbefore, List.drop_left]

theorem take_start (cut : Cut front back span) :
    (front ++ back).take span.start = front ++ (cut.gap ++ cut.indent) := by
  have hlength : span.start = (front ++ (cut.gap ++ cut.indent)).length := by
    rw [cut.start_eq, List.length_append, List.length_append, Nat.add_assoc]
  have hsource : front ++ back = (front ++ (cut.gap ++ cut.indent)) ++
      ((cut.text ++ cut.ending) ++ cut.behind) := by
    rw [← cut.passed_append, passed, taken]
    simp only [List.append_assoc]
  rw [hsource, hlength, List.take_left]

theorem passed_le (cut : Cut front back span) {later : StatementSpan}
    (hlater : span.stop ≤ later.start) (hinside : later.stop ≤ (front ++ back).length)
    (hsolid : IsSolid (slice (front ++ back) later.start later.stop)) :
    cut.behind ≠ [] ∧ cut.passed.length ≤ later.start := by
  have hlt := start_lt_stop hsolid
  have hle : cut.passed.length ≤ later.start := by
    by_contra hinto
    rw [cut.length_passed] at hinto
    have hbyte : (slice (front ++ back) later.start later.stop).head? =
        cut.ending[later.start - span.stop]? := by
      rw [head?_slice hlt, ← Nat.add_sub_of_le hlater, ← List.getElem?_drop, cut.drop_stop,
        Nat.add_sub_cancel_left, List.getElem?_append_left (by omega)]
    have hhead := List.head?_eq_some_head hsolid.ne_nil
    have hblank := isBlank_iff.mp cut.ending_blank _
      (List.mem_of_getElem? (hbyte.symm.trans hhead))
    rw [hsolid.head _ hhead] at hblank
    cases hblank
  refine ⟨fun hnil => ?_, hle⟩
  have hpassed := cut.passed_append
  rw [hnil, List.append_nil] at hpassed
  rw [← hpassed] at hinside
  omega

end Cut

/-! ## All statements -/

inductive Cutting : Bytes → Bytes → List StatementSpan → Prop
  | nil {front back : Bytes} : Cutting front back []
  | cons {front back : Bytes} {span : StatementSpan} {rest : List StatementSpan}
      (cut : Cut front back span) (behind : Cutting cut.passed cut.behind rest) :
      Cutting front back (span :: rest)

theorem StatementsOf.tail (h : StatementsOf source (span :: others)) :
    StatementsOf source others where
  inside later hlater := h.inside later (List.mem_cons_of_mem _ hlater)
  solid later hlater := h.solid later (List.mem_cons_of_mem _ hlater)
  ordered := List.Pairwise.of_cons h.ordered

theorem StatementsOf.stop_le (h : StatementsOf source (span :: others)) :
    ∀ later ∈ others, span.stop ≤ later.start := by
  intro later hlater
  exact (List.pairwise_cons.mp h.ordered).1 later.range (List.mem_map_of_mem hlater)

theorem StatementsOf.cutting (h : StatementsOf (front ++ back) spans)
    (hstart : ∀ span ∈ spans, front.length ≤ span.start) (hsettled : spans ≠ [] → Settled front) :
    Cutting front back spans := by
  induction spans generalizing front back with
  | nil => exact .nil
  | cons span rest ih =>
      have hinside := h.inside span List.mem_cons_self
      have hsolid := h.solid span List.mem_cons_self
      have hlt := start_lt_stop hsolid
      obtain ⟨gap, text, behind, hback, hat, hto⟩ :=
        exists_pieces (hstart span List.mem_cons_self) (Nat.le_of_lt hlt) hinside
      have htext : slice (front ++ back) span.start span.stop = text := by
        rw [hback, ← List.append_assoc, hto, hat, slice_middle]
      rw [htext] at hsolid
      obtain ⟨cut⟩ := exists_cut (hsettled (by simp)) hback hat hto hsolid
      have hlater (later : StatementSpan) (hlater : later ∈ rest) :=
        cut.passed_le (h.stop_le later hlater) (h.tail.inside later hlater)
          (h.tail.solid later hlater)
      refine .cons cut (ih ?_ (fun later hmem => (hlater later hmem).2) fun hne => ?_)
      · rw [cut.passed_append]
        exact h.tail
      · obtain ⟨later, hmem⟩ := List.exists_mem_of_ne_nil rest hne
        exact cut.settled_passed (hlater later hmem).1

theorem StatementsOf.cutting_source (h : StatementsOf source spans) : Cutting [] source spans := by
  rw [← List.nil_append source] at h
  exact h.cutting (by simp) (by simp [Settled])

def removals (source : Bytes) (spans : List StatementSpan) : List (Nat × Nat) :=
  spans.map fun span => (removal source span).range

theorem removals_cons (cut : Cut front back span) :
    removals (front ++ back) (span :: others) =
      (front.length + cut.gap.length, span.stop + cut.ending.length) ::
        removals (cut.passed ++ cut.behind) others := by
  rw [removals, List.map_cons, cut.removal_eq, cut.passed_append]
  rfl

namespace Cutting

theorem le_start (h : Cutting front back spans) :
    ∀ range ∈ removals (front ++ back) spans, front.length ≤ range.1 := by
  induction h with
  | nil => simp [removals]
  | cons cut _ ih =>
      rw [removals_cons cut, List.forall_mem_cons]
      refine ⟨Nat.le_add_right _ _, fun range hrange => ?_⟩
      have hle := ih range hrange
      rw [Cut.passed, List.length_append] at hle
      omega

theorem stop_le (cut : Cut front back span) (h : Cutting cut.passed cut.behind others) :
    ∀ range ∈ removals (cut.passed ++ cut.behind) others,
      span.stop + cut.ending.length ≤ range.1 := by
  rw [← cut.length_passed]
  exact h.le_start

theorem inOrder (h : Cutting front back spans) : InOrder (removals (front ++ back) spans) := by
  induction h with
  | nil => exact .nil
  | cons cut behind ih =>
      rw [removals_cons cut]
      exact .cons (stop_le cut behind) ih

theorem remaining_cons (cut : Cut front back span) (h : Cutting cut.passed cut.behind others) :
    remaining (removals (front ++ back) (span :: others)) front.length back =
      cut.gap.zipIdx front.length ++
        remaining (removals (cut.passed ++ cut.behind) others) cut.passed.length cut.behind := by
  have hcons := Text.remaining_cons rfl cut.length_taken (stop_le cut h) cut.behind
  rw [← cut.back_eq_taken] at hcons
  rw [removals_cons cut, hcons, cut.length_passed]

theorem uncovered_cons (cut : Cut front back span) (h : Cutting cut.passed cut.behind others) :
    uncovered (removals (front ++ back) (span :: others)) front.length back =
      cut.gap ++
        uncovered (removals (cut.passed ++ cut.behind) others) cut.passed.length cut.behind := by
  rw [uncovered, remaining_cons cut h, List.map_append, List.zipIdx_map_fst]
  rfl

theorem slice_gap (cut : Cut front back span) :
    slice (front ++ back) front.length (front.length + cut.gap.length) = cut.gap := by
  have h := slice_middle front cut.gap (cut.taken ++ cut.behind)
  rwa [← cut.back_eq_taken] at h

theorem keptFrom_cons (cut : Cut front back span) (others : List StatementSpan) :
    keptFrom (front ++ back) front.length (span :: others) =
      cut.gap ++ keptFrom (cut.passed ++ cut.behind) cut.passed.length others := by
  have hrange := cut.removal_eq
  simp only [Removal.range, Prod.mk.injEq] at hrange
  rw [keptFrom, hrange.1, hrange.2, slice_gap, cut.length_passed, cut.passed_append]

theorem keptFrom_eq (h : Cutting front back spans) :
    keptFrom (front ++ back) front.length spans =
      uncovered (removals (front ++ back) spans) front.length back := by
  induction h with
  | nil => rw [keptFrom, removals, List.map_nil, uncovered_nil, List.drop_left]
  | cons cut behind ih => rw [keptFrom_cons, ih, uncovered_cons cut behind]

end Cutting

/-! ## The other lines -/

section

variable {touched : Nat → Bool} {x y : List (UInt8 × Nat)} {place : Nat}

def otherLines (touched : Nat → Bool) (entries : List (UInt8 × Nat)) : List (List (UInt8 × Nat)) :=
  untouchedLines (inLine ∘ Prod.fst) (touched ∘ Prod.snd) entries

theorem touched_text {text : Bytes} (hsolid : IsSolid text)
    (htouched : ∀ i, place ≤ i → i < place + text.length → touched i = true) :
    text.zipIdx place ≠ [] ∧
      (∀ entry ∈ text.zipIdx place, (touched ∘ Prod.snd) entry = true) ∧
      ∀ entry ∈ (text.zipIdx place).getLast?, (inLine ∘ Prod.fst) entry = true := by
  refine ⟨by simpa using hsolid.ne_nil, fun entry hentry => ?_, fun entry hentry => ?_⟩
  · obtain ⟨hle, hlt⟩ := snd_mem_zipIdx hentry
    exact htouched entry.2 hle hlt
  · have hlast : entry.1 ∈ text.getLast? := by
      rw [← List.zipIdx_map_fst place text, List.getLast?_map]
      exact Option.mem_map_of_mem _ hentry
    exact inLine_of_solid (hsolid.last _ hlast)

namespace Cut

theorem zipIdx_taken (cut : Cut front back span) :
    cut.taken.zipIdx (front.length + cut.gap.length) =
      cut.indent.zipIdx (front.length + cut.gap.length) ++
        (cut.text.zipIdx span.start ++ cut.ending.zipIdx span.stop) := by
  rw [taken, List.zipIdx_append, List.zipIdx_append, ← cut.start_eq, ← cut.stop_eq]

theorem zipIdx_back (cut : Cut front back span) :
    back.zipIdx front.length = cut.gap.zipIdx front.length ++
      (cut.taken.zipIdx (front.length + cut.gap.length) ++
        cut.behind.zipIdx cut.passed.length) := by
  conv_lhs => rw [cut.back_eq_taken]
  rw [List.zipIdx_append, List.zipIdx_append, cut.length_passed, cut.length_taken]

theorem endsLine_gap (cut : Cut front back span) (halone : StandsAlone (front ++ back) span)
    (hx : EndsLine inLine front → EndsLine (inLine ∘ Prod.fst) x) :
    EndsLine (inLine ∘ Prod.fst) (x ++ cut.gap.zipIdx front.length) := by
  have hfront := (cut.whole halone).1
  by_cases hgap : cut.gap = []
  · rw [hgap, List.append_nil] at hfront
    simpa [hgap] using hx hfront
  · rw [endsLine_append_of_ne_nil hgap] at hfront
    rwa [endsLine_append_of_ne_nil (by simpa using hgap), endsLine_zipIdx]

theorem newline_mem_ending (cut : Cut front back span) (h : EndsLine inLine cut.passed) :
    newline ∈ cut.ending := by
  rw [passed, taken, ← List.append_assoc, ← List.append_assoc, ← List.append_assoc] at h
  by_cases hending : cut.ending = []
  · rw [hending, List.append_nil, endsLine_append_of_ne_nil cut.solid.ne_nil] at h
    have hlast := List.getLast?_eq_some_getLast cut.solid.ne_nil
    have hstays := inLine_of_solid (cut.solid.last _ hlast)
    rw [h _ hlast] at hstays
    cases hstays
  · rw [endsLine_append_of_ne_nil hending] at h
    have hnewline := h _ (List.getLast?_eq_some_getLast hending)
    have heq : cut.ending.getLast hending = newline := by simpa [inLine] using hnewline
    exact heq ▸ List.getLast_mem hending

theorem standsAlone_of_endsLine (cut : Cut front back span) (h : EndsLine inLine cut.passed) :
    StandsAlone (front ++ back) span := by
  by_contra halone
  have hmem := cut.newline_mem_ending h
  rw [(cut.part halone).2] at hmem
  cases hmem

theorem endsLine_taken (cut : Cut front back span) (halone : StandsAlone (front ++ back) span)
    (hbehind : cut.behind ≠ []) : EndsLine inLine cut.taken ∧ EndsLine inLine cut.passed := by
  obtain ⟨hne, hends⟩ := (cut.whole halone).2.2.2 hbehind
  have htaken : cut.taken ≠ [] := by simp [taken, hne]
  have hends : EndsLine inLine cut.taken := by
    rwa [taken, ← List.append_assoc, endsLine_append_of_ne_nil hne]
  refine ⟨hends, ?_⟩
  rwa [passed, ← List.append_assoc, endsLine_append_of_ne_nil htaken]

theorem endsLine_kept (cut : Cut front back span)
    (hx : EndsLine inLine front → EndsLine (inLine ∘ Prod.fst) x)
    (hy : EndsLine inLine cut.passed → EndsLine (inLine ∘ Prod.fst) y)
    (h : EndsLine inLine cut.passed) :
    EndsLine (inLine ∘ Prod.fst) (x ++ cut.gap.zipIdx front.length ++ y) :=
  (cut.endsLine_gap (cut.standsAlone_of_endsLine h) hx).append (hy h)

theorem otherLines_replaced (cut : Cut front back span)
    (htouched : ∀ i, span.start ≤ i → i < span.stop → touched i = true)
    (hx : EndsLine inLine front → EndsLine (inLine ∘ Prod.fst) x)
    (hy : EndsLine inLine cut.passed → EndsLine (inLine ∘ Prod.fst) y) :
    (otherLines touched (x ++ back.zipIdx front.length)).Sublist
      (otherLines touched
        (x ++ cut.gap.zipIdx front.length ++ (y ++ cut.behind.zipIdx cut.passed.length))) := by
  rw [cut.stop_eq] at htouched
  obtain ⟨hne, hall, hlast⟩ := touched_text cut.solid htouched
  rw [cut.zipIdx_back, ← List.append_assoc x]
  by_cases halone : StandsAlone (front ++ back) span
  · obtain ⟨-, hindent, hline, -⟩ := cut.whole halone
    have hgone : untouchedLines (inLine ∘ Prod.fst) (touched ∘ Prod.snd)
        (cut.taken.zipIdx (front.length + cut.gap.length)) = [] := by
      rw [cut.zipIdx_taken]
      exact untouchedLines_of_touched (stays_zipIdx hindent) hne hall hlast
        (oneLine_zipIdx.mpr hline)
    refine untouchedLines_replaced (cut.endsLine_gap halone hx) hgone fun hbehind => ?_
    obtain ⟨hends, hpassed⟩ := cut.endsLine_taken halone (by simpa using hbehind)
    exact ⟨endsLine_zipIdx.mpr hends, hy hpassed⟩
  · obtain ⟨hindent, hending⟩ := cut.part halone
    rw [cut.zipIdx_taken, hindent, hending, List.zipIdx_nil, List.zipIdx_nil, List.nil_append,
      List.append_nil]
    exact untouchedLines_replaced_inside hne hall hlast _ _ _

end Cut

theorem Cutting.otherLines_kept (h : Cutting front back spans)
    (htouched : ∀ span ∈ spans, ∀ i, span.start ≤ i → i < span.stop → touched i = true)
    (hx : EndsLine inLine front → EndsLine (inLine ∘ Prod.fst) x) :
    (otherLines touched (x ++ back.zipIdx front.length)).Sublist
      (otherLines touched
        (x ++ remaining (removals (front ++ back) spans) front.length back)) := by
  induction h generalizing x with
  | nil => simp [remaining, removals, covered]
  | cons cut behind ih =>
      rw [List.forall_mem_cons] at htouched
      have hnothing (_ : EndsLine inLine cut.passed) :
          EndsLine (inLine ∘ Prod.fst) ([] : List (UInt8 × Nat)) := endsLine_nil
      have hcut := cut.otherLines_replaced htouched.1 hx hnothing
      have hrest := ih htouched.2 (cut.endsLine_kept hx hnothing)
      rw [List.append_nil] at hrest
      rw [remaining_cons cut behind, ← List.append_assoc]
      exact hcut.trans hrest

end

end FlatExports.Module
