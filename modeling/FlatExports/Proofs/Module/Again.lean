import FlatExports.Proofs.Module.Block

/-!
Rewriting a module that has been rewritten.

The same statements are printed in the place of the ones that stand there now.
What changes is what stands right behind the block, and after that nothing does.
-/

namespace FlatExports.Module

open FlatExports.Text

variable {before behind text : Bytes} {texts : List Bytes} {others : List StatementSpan}

/-! ## What stands behind the block -/

def tailAgain (before behind : Bytes) (texts : List Bytes) : Bytes :=
  if texts.length = 1 then
    if isBlank (lastLine inLine before) && isBlank (firstLine inLine behind) then
      lineBreak inLine behind ++ behindLine inLine behind
    else behind
  else newline :: keptBehind behind

theorem tailAgain_singleton (before behind text : Bytes) : tailAgain before behind [text] =
    if isBlank (lastLine inLine before) && isBlank (firstLine inLine behind) then
      lineBreak inLine behind ++ behindLine inLine behind
    else behind :=
  if_pos rfl

theorem tailAgain_cons_cons (before behind text next : Bytes) (more : List Bytes) :
    tailAgain before behind (text :: next :: more) = newline :: keptBehind behind :=
  if_neg (by simp)

theorem lineBreak_append_eq_iff :
    lineBreak inLine behind ++ behindLine inLine behind = behind ↔
      behind = [] ∨ behind.head? = some newline := by
  cases behind with
  | nil => simp [lineBreak, behindLine]
  | cons byte rest =>
      by_cases hbyte : byte = newline
      · subst hbyte
        simp [lineBreak, behindLine, inLine]
      · have hline : inLine byte = true := by simpa [inLine] using hbyte
        have hlt : (rest.dropWhile inLine).length ≤ rest.length :=
          (List.dropWhile_sublist inLine).length_le
        simp only [lineBreak, behindLine, List.dropWhile_cons_of_pos hline, List.take_append_drop,
          reduceCtorEq, List.head?_cons, Option.some.injEq, hbyte, or_self, iff_false]
        intro heq
        rw [heq, List.length_cons] at hlt
        omega

theorem cons_keptBehind_eq_iff :
    newline :: keptBehind behind = behind ↔ behind.head? = some newline := by
  constructor
  · intro h
    rw [← h]
    rfl
  · intro h
    obtain ⟨rest, rfl⟩ := List.head?_eq_some_iff.mp h
    rw [keptBehind, if_pos (isBlank_firstLine_newline rest), behindLine_newline]

theorem tailAgain_eq_iff : tailAgain before behind texts = behind ↔
    behind.head? = some newline ∨ texts.length = 1 ∧ (behind = [] ∨
      ¬(isBlank (lastLine inLine before) = true ∧ isBlank (firstLine inLine behind) = true)) := by
  unfold tailAgain
  split
  · rename_i hone
    split
    · rename_i halone
      rw [Bool.and_eq_true] at halone
      rw [lineBreak_append_eq_iff]
      simp [hone, halone, or_comm]
    · rename_i halone
      rw [Bool.and_eq_true] at halone
      simp [hone, halone]
  · rename_i hone
    rw [cons_keptBehind_eq_iff]
    simp [hone]

theorem lineBreak_append_settled (behind : Bytes) :
    lineBreak inLine behind ++ behindLine inLine behind = [] ∨
      (lineBreak inLine behind ++ behindLine inLine behind).head? = some newline := by
  rcases lineBreak_cases behind with hbreak | hbreak
  · have hnone := hbreak
    rw [lineBreak, List.take_eq_nil_iff] at hnone
    left
    simp [hbreak, behindLine, hnone.resolve_left (by decide)]
  · right
    simp [hbreak]

theorem tailAgain_tailAgain (before behind : Bytes) (texts : List Bytes) :
    tailAgain before (tailAgain before behind texts) texts = tailAgain before behind texts := by
  rw [tailAgain_eq_iff]
  unfold tailAgain
  split
  · rename_i hone
    split
    · rcases lineBreak_append_settled behind with h | h
      · exact .inr ⟨hone, .inl h⟩
      · exact .inl h
    · rename_i halone
      rw [Bool.and_eq_true] at halone
      exact .inr ⟨hone, .inr halone⟩
  · exact .inl rfl

theorem isBlank_behindLine (h : isBlank (firstLine inLine behind) = true) :
    isBlank (behindLine inLine behind) = isBlank behind := by
  conv_rhs => rw [← @firstLine_append_behindLine _ inLine behind]
  rw [isBlank_append, h, Bool.true_and]

theorem isText_behindLine (h : isBlank (firstLine inLine behind) = true) (htext : IsText behind) :
    IsText (behindLine inLine behind) := by
  rw [← @firstLine_append_behindLine _ inLine behind] at htext
  exact IsText.of_append (.ascii (isAscii_of_isBlank h)) htext

theorem isBlank_tailAgain (before behind : Bytes) (texts : List Bytes) :
    isBlank (tailAgain before behind texts) = isBlank behind := by
  unfold tailAgain
  split
  · split
    · rename_i halone
      rw [Bool.and_eq_true] at halone
      rw [isBlank_append, isBlank_lineBreak, isBlank_behindLine halone.2, Bool.true_and]
    · rfl
  · have hcons : isBlank (newline :: keptBehind behind) = isBlank (keptBehind behind) := rfl
    rw [hcons, keptBehind]
    split
    · rename_i hfirst
      exact isBlank_behindLine hfirst
    · rfl

theorem isText_tailAgain (h : IsText behind) : IsText (tailAgain before behind texts) := by
  unfold tailAgain
  split
  · split
    · rename_i halone
      rw [Bool.and_eq_true] at halone
      exact IsText.append (.ascii (isAscii_of_isBlank (isBlank_lineBreak behind)))
        (isText_behindLine halone.2 h)
    · exact h
  · unfold keptBehind
    split
    · rename_i hfirst
      exact isText_newline.append (isText_behindLine hfirst h)
    · exact isText_newline.append h

theorem spliced_block {text : Bytes} {rest : List Bytes} (hsolid : IsSolid text)
    (hmixed : (isBlank before && isBlank behind) = false) :
    spliced (before ++ (joined (text :: rest) ++ behind)) (joined (text :: rest))
        (spanAt true before.length text) (printedSpans (before.length + text.length + 1) rest) =
      before ++ (joined (text :: rest) ++ tailAgain before behind (text :: rest)) := by
  have honly := (@onlyReExports_block before behind _ (List.cons_ne_nil text rest)).trans hmixed
  rw [printedSpans] at honly
  cases rest with
  | nil =>
      rw [joined_singleton] at honly ⊢
      rw [spliced_first hsolid hsolid.ne_nil honly, tailAgain_singleton, printedSpans, keptFrom]
      by_cases halone : isBlank (lastLine inLine before) = true ∧
          isBlank (firstLine inLine behind) = true
      · rw [removal_spanAt_alone halone.1 halone.2, drop_behind, drop_length_firstLine]
        simp [halone]
      · have hdrop : (before ++ (text ++ behind)).drop (before.length + text.length) = behind :=
          drop_spanAt true before text behind
        have hbeside : (isBlank (lastLine inLine before) &&
            isBlank (firstLine inLine behind)) = false := by
          simpa using halone
        rw [removal_spanAt_beside halone, hdrop]
        simp [hbeside]
  | cons next more =>
      have hblock : joined (text :: next :: more) ≠ [] := by simp [joined_cons_cons]
      have hbreak := isBlank_firstLine_newline (joined (next :: more) ++ behind)
      obtain ⟨hnext, hlength⟩ := printed_behind before text (joined (next :: more) ++ behind)
      have hkept (place : Nat) := @keptFrom_printed _ behind _ place
        (endsLine_newline (before ++ text)) (List.cons_ne_nil next more)
      rw [← hnext, ← hlength] at hkept
      rw [printed_cons] at honly ⊢
      rw [spliced_first hsolid hblock honly, tailAgain_cons_cons, hbreak, lineBreak_newline, hkept]
      by_cases halone : isBlank (lastLine inLine before) = true
      · rw [removal_spanAt_alone halone hbreak, firstLine_newline]
        dsimp only [List.length_singleton]
        rw [slice_self, halone]
        rfl
      · rw [removal_spanAt_beside fun h => halone h.1]
        dsimp only
        rw [slice_newline, Bool.eq_false_iff.mpr halone]
        rfl

/-! ## Rewriting again -/

def blockStart (source : Bytes) : List StatementSpan → Nat
  | [] => 0
  | first :: others => if onlyReExports source 0 (first :: others) then 0 else first.start

def written (spans : List StatementSpan) (texts : List String) : List Bytes :=
  if spans = [] then [] else texts.map bytesOf

def writtenSpans (source : Bytes) (spans : List StatementSpan) (texts : List String) :
    List StatementSpan :=
  printedSpans (blockStart source spans) (written spans texts)

/--
When rewriting again leaves the rewritten bytes: the module holds nothing but
re-exports, a line feed follows the block, or the block is one statement that
has something else on its line or ends the bytes.
-/
def IsSettled (source out : Bytes) (spans : List StatementSpan) (texts : List String) : Prop :=
  spans = [] ∨ onlyReExports source 0 spans = true ∨
    let behind := out.drop (blockStart source spans + (joined (written spans texts)).length)
    behind.head? = some newline ∨ texts.length = 1 ∧
      (behind = [] ∨ ∀ span ∈ writtenSpans source spans texts, ¬StandsAlone out span)

section

variable {style : QuoteStyle} {statements : List Statement} {block : String} {rest : List Bytes}

/-- The rewritten module once more, where other code stands around the block. -/
theorem exists_again (hblock : Statement.textOfAll style statements = .ok block)
    (hjoined : bytesOf block = joined (text :: rest))
    (hprinted : ∀ printed ∈ text :: rest, IsPrinted printed)
    (hmixed : (isBlank before && isBlank behind) = false)
    (htext : IsText (before ++ (joined (text :: rest) ++ behind))) :
    ∃ again, withStatements style (before ++ (joined (text :: rest) ++ behind))
        (printedSpans before.length (text :: rest)) statements = .ok again ∧
      bytesOf again =
        before ++ (joined (text :: rest) ++ tailAgain before behind (text :: rest)) := by
  obtain ⟨hbefore, hbehind⟩ := (isPrinted_joined hprinted (by simp)).around htext
  have hbytes : IsText
      (before ++ (joined (text :: rest) ++ tailAgain before behind (text :: rest))) :=
    hbefore.append ((hjoined ▸ isText_bytesOf block).append (isText_tailAgain hbehind))
  obtain ⟨again, hagain⟩ := hbytes.exists_string
  refine ⟨again, ?_, hagain.symm⟩
  rw [printedSpans, withStatements_eq_ok hblock, hjoined, ← hagain]
  exact spliced_block (hprinted text List.mem_cons_self).solid hmixed

theorem withStatements_block (hblock : Statement.textOfAll style statements = .ok block)
    (hjoined : bytesOf block = joined (text :: rest))
    (hprinted : ∀ printed ∈ text :: rest, IsPrinted printed)
    {output : String} (hbehind : behind = [] ∨ behind = [newline])
    (houtput : bytesOf output = joined (text :: rest) ++ behind) :
    withStatements style (bytesOf output) (printedSpans 0 (text :: rest)) statements =
      .ok output := by
  have honly : onlyReExports ([] ++ (joined (text :: rest) ++ behind)) 0
      (printedSpans ([] : Bytes).length (text :: rest)) = true := by
    rw [onlyReExports_block (by simp)]
    rcases hbehind with rfl | rfl <;> decide
  rw [printedSpans] at honly ⊢
  have hsolid := (isPrinted_joined hprinted (by simp)).solid
  rw [withStatements_eq_ok hblock, hjoined, houtput]
  refine (spliced_only honly).trans ?_
  rcases hbehind with rfl | rfl
  · have hlast : ([] ++ (joined (text :: rest) ++ [])).getLast? ≠ some newline := by
      rw [List.nil_append, List.append_nil]
      intro hnewline
      exact absurd (hsolid.last newline hnewline) (by decide)
    rw [if_neg fun h => hlast h.2]
  · simp [hsolid.ne_nil]

end

theorem withStatements_nil {style : QuoteStyle} {statements : List Statement} (output : String) :
    withStatements style (bytesOf output) [] statements = .ok output := by
  simp only [withStatements, pure_bind, text?_bytesOf]
  rfl

theorem isPrinted_of_mapM {style : QuoteStyle} {statements : List Statement} {texts : List String}
    (h : statements.mapM (Statement.text style) = .ok texts) :
    ∀ text ∈ texts.map bytesOf, IsPrinted text := by
  rw [mapM_eq_ok] at h
  intro text htext
  obtain ⟨printed, hprinted, rfl⟩ := List.mem_map.mp htext
  obtain ⟨statement, -, hstatement⟩ := exists_left_of_forall₂ h hprinted
  exact isPrinted_text hstatement

theorem exists_first {style : QuoteStyle} {statements : List Statement} {texts : List String}
    (hne : statements ≠ []) (h : statements.mapM (Statement.text style) = .ok texts) :
    ∃ text rest, texts.map bytesOf = text :: rest := by
  rw [mapM_eq_ok] at h
  cases h with
  | nil => exact absurd rfl hne
  | cons _ _ => exact ⟨_, _, rfl⟩

theorem isSettled_iff {source : Bytes} {first : StatementSpan} {texts : List String}
    (hwritten : texts.map bytesOf = text :: rest)
    (honly : onlyReExports source 0 (first :: others) = false)
    (hbefore : before.length = first.start) :
    IsSettled source (before ++ (joined (text :: rest) ++ behind)) (first :: others) texts ↔
      tailAgain before behind (text :: rest) = behind := by
  have hstart : blockStart source (first :: others) = before.length := by
    simp [blockStart, honly, hbefore]
  have htexts : written (first :: others) texts = text :: rest := by
    rw [written, if_neg (by simp), hwritten]
  have hlength : texts.length = (text :: rest).length := by
    rw [← hwritten, List.length_map]
  have hdrop : (before ++ (joined (text :: rest) ++ behind)).drop
      (before.length + (joined (text :: rest)).length) = behind :=
    drop_spanAt true before _ behind
  rw [IsSettled, writtenSpans, hstart, htexts, hdrop, tailAgain_eq_iff, hlength, honly]
  simp only [reduceCtorEq, false_or]
  refine or_congr_right (and_congr_right fun hone => or_congr_right ?_)
  obtain rfl : rest = [] := by simpa using hone
  rw [joined_singleton, printedSpans, printedSpans, List.forall_mem_singleton, standsAlone_spanAt]

/-- Rewriting turns some text into another, which it leaves as it is. -/
structure SettlesAs (style : QuoteStyle) (statements : List Statement)
    (spans : List StatementSpan) (texts : List Bytes) (out again : String) : Prop where
  shows : Shows (bytesOf out) spans texts
  rewrites : withStatements style (bytesOf out) spans statements = .ok again
  showsAgain : Shows (bytesOf again) spans texts
  settled : withStatements style (bytesOf again) spans statements = .ok again

section

variable {style : QuoteStyle} {statements : List Statement} {block out : String}
  {rest : List Bytes}

theorem settlesAs_self {spans : List StatementSpan} (hshows : Shows (bytesOf out) spans texts)
    (hrewrites : withStatements style (bytesOf out) spans statements = .ok out) :
    SettlesAs style statements spans texts out out :=
  ⟨hshows, hrewrites, hshows, hrewrites⟩

theorem settlesAs_block (hblock : Statement.textOfAll style statements = .ok block)
    (hjoined : bytesOf block = joined (text :: rest))
    (hprinted : ∀ printed ∈ text :: rest, IsPrinted printed)
    (hbehind : behind = [] ∨ behind = [newline])
    (hout : bytesOf out = joined (text :: rest) ++ behind) :
    SettlesAs style statements (printedSpans 0 (text :: rest)) (text :: rest) out out := by
  refine settlesAs_self ?_ (withStatements_block hblock hjoined hprinted hbehind hout)
  rw [hout]
  exact shows_printed [] (text :: rest) behind

theorem exists_settlesAs (hblock : Statement.textOfAll style statements = .ok block)
    (hjoined : bytesOf block = joined (text :: rest))
    (hprinted : ∀ printed ∈ text :: rest, IsPrinted printed)
    (hmixed : (isBlank before && isBlank behind) = false)
    (hout : bytesOf out = before ++ (joined (text :: rest) ++ behind)) :
    ∃ again, SettlesAs style statements (printedSpans before.length (text :: rest))
        (text :: rest) out again ∧
      (again = out ↔ tailAgain before behind (text :: rest) = behind) := by
  obtain ⟨again, hrewrites, hagain⟩ :=
    exists_again hblock hjoined hprinted hmixed (hout ▸ isText_bytesOf out)
  have hmixedAgain :
      (isBlank before && isBlank (tailAgain before behind (text :: rest))) = false := by
    rwa [isBlank_tailAgain]
  obtain ⟨third, hsettled, hthird⟩ :=
    exists_again hblock hjoined hprinted hmixedAgain (hagain ▸ isText_bytesOf again)
  rw [tailAgain_tailAgain, ← hagain, bytesOf_inj] at hthird
  rw [← hagain, hthird] at hsettled
  rw [← hout] at hrewrites
  refine ⟨again, ⟨?_, hrewrites, ?_, hsettled⟩, ?_⟩
  · rw [hout]
    exact shows_printed before (text :: rest) behind
  · rw [hagain]
    exact shows_printed before (text :: rest) _
  · rw [← bytesOf_inj, hagain, hout, List.append_cancel_left_eq, List.append_cancel_left_eq]

end

/--
Rewriting a rewritten module with the same statements never fails.  It changes
nothing exactly if the bytes are settled, and from then on nothing ever changes.
-/
theorem withStatements_again (style : QuoteStyle) {source : Bytes} {spans : List StatementSpan}
    {statements : List Statement} {texts : List String} {out : String}
    (hspans : StatementsOf source spans) (hne : statements ≠ [])
    (htexts : statements.mapM (Statement.text style) = .ok texts)
    (hout : withStatements style source spans statements = .ok out) :
    ∃ again, SettlesAs style statements (writtenSpans source spans texts)
        (written spans texts) out again ∧
      (again = out ↔ IsSettled source (bytesOf out) spans texts) := by
  cases spans with
  | nil =>
      exact ⟨out, settlesAs_self rfl (withStatements_nil out), fun _ => .inl rfl, fun _ => rfl⟩
  | cons first others =>
      have hprinted := isPrinted_of_mapM htexts
      have hblock : Statement.textOfAll style statements = .ok ("\n".intercalate texts) := by
        rw [Statement.textOfAll, htexts]
        rfl
      have hjoined : bytesOf ("\n".intercalate texts) = joined (texts.map bytesOf) :=
        bytesOf_lines texts
      obtain ⟨text, rest, hfirst⟩ := exists_first hne htexts
      rw [hfirst] at hprinted hjoined
      have hbytes := (withStatements_eq_ok hblock).mp hout
      rw [hjoined] at hbytes
      have hwritten : written (first :: others) texts = text :: rest := by
        rw [written, if_neg (by simp), hfirst]
      rw [writtenSpans, hwritten]
      cases honly : onlyReExports source 0 (first :: others) with
      | true =>
          have hstart : blockStart source (first :: others) = 0 := if_pos honly
          obtain ⟨behind, hbehind, houtput⟩ : ∃ behind, (behind = [] ∨ behind = [newline]) ∧
              bytesOf out = joined (text :: rest) ++ behind := by
            refine ⟨_, ?_, hbytes.symm.trans (spliced_only honly)⟩
            split <;> simp
          rw [hstart]
          exact ⟨out, settlesAs_block hblock hjoined hprinted hbehind houtput,
            fun _ => .inr (.inl honly), fun _ => rfl⟩
      | false =>
          have hne := (isPrinted_joined hprinted (by simp)).solid.ne_nil
          obtain ⟨before, behind, hbefore, hmixed, hsplit⟩ := exists_block hspans hne honly
          have hstart : blockStart source (first :: others) = before.length := by
            simp [blockStart, honly, hbefore]
          rw [hsplit] at hbytes
          obtain ⟨again, hsettles, hsame⟩ :=
            exists_settlesAs hblock hjoined hprinted hmixed hbytes.symm
          refine ⟨again, hstart ▸ hsettles, hsame.trans ?_⟩
          rw [← hbytes]
          exact (isSettled_iff hfirst honly hbefore).symm

def openSource : Bytes := bytesOf "const x = 1;\nexport * from './a';"

def twoWildcards : List Statement := [.wildcard "./b" false, .wildcard "./c" false]

def twoTexts : List String := ["export * from './b';", "export * from './c';"]

theorem mapM_twoWildcards : twoWildcards.mapM (Statement.text .single) = .ok twoTexts := rfl

theorem textOfAll_twoWildcards : Statement.textOfAll .single twoWildcards =
    .ok "export * from './b';\nexport * from './c';" := rfl

theorem withStatements_openSource :
    withStatements .single openSource [⟨13, 33, true⟩] twoWildcards =
      .ok "const x = 1;\nexport * from './b';\nexport * from './c';" :=
  (withStatements_eq_ok textOfAll_twoWildcards).mpr (by decide +kernel)

theorem withStatements_again_openSource :
    StatementsOf openSource [⟨13, 33, true⟩] ∧ twoWildcards ≠ [] ∧
    twoWildcards.mapM (Statement.text .single) = .ok twoTexts ∧
    withStatements .single openSource [⟨13, 33, true⟩] twoWildcards =
      .ok "const x = 1;\nexport * from './b';\nexport * from './c';" ∧
    ∃ again, SettlesAs .single twoWildcards (writtenSpans openSource [⟨13, 33, true⟩] twoTexts)
        (written [⟨13, 33, true⟩] twoTexts)
        "const x = 1;\nexport * from './b';\nexport * from './c';" again := by
  have hspans : StatementsOf openSource [⟨13, 33, true⟩] := by decide +kernel
  obtain ⟨again, hsettles, -⟩ := withStatements_again .single hspans (by decide)
    mapM_twoWildcards withStatements_openSource
  exact ⟨hspans, by decide, mapM_twoWildcards, withStatements_openSource, again, hsettles⟩

/-- A block of two statements at the end of the bytes gets a line feed when it is printed again. -/
theorem withStatements_again_ne :
    StatementsOf openSource [⟨13, 33, true⟩] ∧
    withStatements .single openSource [⟨13, 33, true⟩] twoWildcards =
      .ok "const x = 1;\nexport * from './b';\nexport * from './c';" ∧
    withStatements .single
        (bytesOf "const x = 1;\nexport * from './b';\nexport * from './c';")
        (writtenSpans openSource [⟨13, 33, true⟩] twoTexts) twoWildcards ≠
      .ok "const x = 1;\nexport * from './b';\nexport * from './c';" := by
  have hwritten : writtenSpans openSource [⟨13, 33, true⟩] twoTexts =
      [⟨13, 33, true⟩, ⟨34, 54, true⟩] := by decide +kernel
  refine ⟨by decide +kernel, withStatements_openSource, ?_⟩
  rw [hwritten, ne_eq, withStatements_eq_ok textOfAll_twoWildcards]
  decide +kernel

end FlatExports.Module
