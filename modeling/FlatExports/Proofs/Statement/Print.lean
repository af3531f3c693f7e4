import FlatExports.Proofs.Survey
import FlatExports.Statement.Print
import Mathlib.Data.List.TakeWhile

/-!
Printed statements are told apart by their text.

Every piece of a statement marks its own end: a literal by its quotation mark, a
bare name by the blank or the comma behind it, a list by the brace that closes
it.  So a text that begins with a printed piece begins with no other one, and
the text of a list of statements leaves no doubt about what has been printed.
-/

namespace FlatExports

open FlatExports.Text

variable {style : QuoteStyle} {cs ds x y : List Char}

/-! ## Names that stand bare -/

theorem isIdentifierPart_of_mem {c : Char} (h : isIdentifier cs = true) (hc : c ∈ cs) :
    isIdentifierPart c = true := by
  cases cs with
  | nil => cases hc
  | cons first rest =>
      simp only [isIdentifier, Bool.and_eq_true, List.all_eq_true] at h
      rcases List.mem_cons.mp hc with rfl | hrest
      · simp [isIdentifierPart, h.1]
      · exact h.2 c hrest

theorem standsBare_iff : standsBare cs = true ↔
    isIdentifier cs = true ∨ ∃ stem, isIdentifier stem = true ∧ cs = stem ++ ['\n'] := by
  simp only [standsBare, Bool.or_eq_true, Bool.and_eq_true, decide_eq_true_eq]
  refine or_congr_right ⟨?_, ?_⟩
  · rintro ⟨hlast, hstem⟩
    exact ⟨cs.dropLast, hstem, (List.dropLast_append_getLast? '\n' hlast).symm⟩
  · rintro ⟨stem, hstem, rfl⟩
    simpa using hstem

theorem exists_start_of_standsBare (h : standsBare cs = true) :
    ∃ c rest, cs = c :: rest ∧ isIdentifierStart c = true := by
  have hstart (stem : List Char) (hstem : isIdentifier stem = true) :
      ∃ c rest, stem = c :: rest ∧ isIdentifierStart c = true := by
    cases stem with
    | nil => simp [isIdentifier] at hstem
    | cons c rest =>
        simp only [isIdentifier, Bool.and_eq_true] at hstem
        exact ⟨c, rest, rfl, hstem.1⟩
  obtain hname | ⟨stem, hstem, rfl⟩ := standsBare_iff.mp h
  · exact hstart cs hname
  · obtain ⟨c, rest, rfl, hc⟩ := hstart stem hstem
    exact ⟨c, rest ++ ['\n'], by simp, hc⟩

def inBareName (c : Char) : Bool := isIdentifierPart c || c = '\n'

theorem inBareName_of_mem {c : Char} (h : standsBare cs = true) (hc : c ∈ cs) :
    inBareName c = true := by
  obtain hname | ⟨stem, hstem, rfl⟩ := standsBare_iff.mp h
  · simp [inBareName, isIdentifierPart_of_mem hname hc]
  · rcases List.mem_append.mp hc with hc | hc
    · simp [inBareName, isIdentifierPart_of_mem hstem hc]
    · simp [inBareName, List.mem_singleton.mp hc]

theorem QuoteStyle.isIdentifierStart_mark (style : QuoteStyle) :
    isIdentifierStart style.mark = false := by
  cases style <;> decide

theorem QuoteStyle.mark_ne_backslash (style : QuoteStyle) : style.mark ≠ '\\' := by
  cases style <;> decide

/-! ## Literals -/

def Text.escapedChar (mark c : Char) : List Char :=
  if c = '\\' ∨ c = mark then ['\\', c] else [c]

theorem Text.escaped_cons (mark c : Char) (cs : List Char) :
    escaped mark (c :: cs) = escapedChar mark c ++ escaped mark cs := by
  rw [escaped, escapedChar]
  split <;> rfl

theorem Text.escapedChar_append_ne {mark c : Char} (hmark : mark ≠ '\\') :
    escapedChar mark c ++ x ≠ mark :: y := by
  unfold escapedChar
  split <;> simp_all [eq_comm]

theorem Text.escapedChar_append_inj {mark c d : Char}
    (h : escapedChar mark c ++ x = escapedChar mark d ++ y) : c = d ∧ x = y := by
  unfold escapedChar at h
  split at h <;> split at h <;> grind

theorem Text.escaped_append_inj {mark : Char} (hmark : mark ≠ '\\')
    (h : escaped mark cs ++ mark :: x = escaped mark ds ++ mark :: y) :
    cs = ds ∧ x = y := by
  induction cs generalizing ds with
  | nil =>
      cases ds with
      | nil => simpa [escaped] using h
      | cons d more =>
          rw [escaped_cons, List.append_assoc] at h
          exact absurd h.symm (escapedChar_append_ne hmark)
  | cons c rest ih =>
      rw [escaped_cons, List.append_assoc] at h
      cases ds with
      | nil => exact absurd h (escapedChar_append_ne hmark)
      | cons d more =>
          rw [escaped_cons, List.append_assoc] at h
          obtain ⟨rfl, hrest⟩ := escapedChar_append_inj h
          obtain ⟨rfl, hbehind⟩ := ih hrest
          exact ⟨rfl, hbehind⟩

theorem Text.toList_literal (mark : Char) (name : String) :
    (literal mark name).toList = mark :: (escaped mark name.toList ++ [mark]) := by
  simp [literal]

theorem Text.literal_append_inj {name name' : String}
    (h : (literal style.mark name).toList ++ x = (literal style.mark name').toList ++ y) :
    name = name' ∧ x = y := by
  simp only [toList_literal, List.cons_append, List.append_assoc, List.cons.injEq, true_and,
    List.nil_append] at h
  obtain ⟨hname, hrest⟩ := escaped_append_inj style.mark_ne_backslash h
  exact ⟨String.toList_inj.mp hname, hrest⟩

namespace Statement

/-! ## Names -/

def EndsName (rest : List Char) : Prop := ∃ c more, rest = c :: more ∧ inBareName c = false

theorem exists_start_of_nameText (style : QuoteStyle) (name : String) :
    ∃ c rest, (nameText style.mark name).toList = c :: rest ∧
      (c = style.mark ∧ standsBare name.toList = false ∨
        isIdentifierStart c = true ∧ standsBare name.toList = true) := by
  unfold nameText
  split
  · rename_i hbare
    obtain ⟨c, rest, hname, hc⟩ := exists_start_of_standsBare hbare
    exact ⟨c, rest, hname, .inr ⟨hc, hbare⟩⟩
  · rename_i hquoted
    exact ⟨style.mark, _, toList_literal _ _, .inl ⟨rfl, by simpa using hquoted⟩⟩

theorem bare_append_inj (hcs : standsBare cs = true) (hds : standsBare ds = true)
    (hx : EndsName x) (hy : EndsName y) (h : cs ++ x = ds ++ y) : cs = ds ∧ x = y := by
  obtain ⟨c, more, rfl, hc⟩ := hx
  obtain ⟨d, more', rfl, hd⟩ := hy
  have htake := congrArg (List.takeWhile inBareName) h
  rw [List.takeWhile_append_of_pos fun c hc => inBareName_of_mem hcs hc,
    List.takeWhile_append_of_pos fun c hc => inBareName_of_mem hds hc] at htake
  have hsame : cs = ds := by simpa [hc, hd] using htake
  exact ⟨hsame, by simpa [hsame] using h⟩

theorem nameText_append_inj {name name' : String} (hx : EndsName x) (hy : EndsName y)
    (h : (nameText style.mark name).toList ++ x = (nameText style.mark name').toList ++ y) :
    name = name' ∧ x = y := by
  have hstyle : standsBare name.toList = standsBare name'.toList := by
    obtain ⟨c, rest, hname, hc⟩ := exists_start_of_nameText style name
    obtain ⟨d, rest', hname', hd⟩ := exists_start_of_nameText style name'
    have hmark := style.isIdentifierStart_mark
    have hsame : c = d := by
      rw [hname, hname'] at h
      exact (List.cons.inj h).1
    subst hsame
    rcases hc with ⟨rfl, hbare⟩ | ⟨hc, hbare⟩ <;> rcases hd with ⟨hd, hbare'⟩ | ⟨hd, hbare'⟩ <;>
      simp_all
  unfold nameText at h
  rw [← hstyle] at h
  split at h
  · rename_i hbare
    obtain ⟨hname, hrest⟩ := bare_append_inj hbare (hstyle ▸ hbare) hx hy h
    exact ⟨String.toList_inj.mp hname, hrest⟩
  · exact literal_append_inj h

/-! ## Separated lists -/

section

variable {α : Type} {print : α → List Char} {sep : List Char} {same : α → α → Prop}
  {Follows Ends : List Char → Prop} {first second : List α}

def further (print : α → List Char) (sep : List Char) (members : List α) (behind : List Char) :
    List Char :=
  members.foldr (fun member rest => sep ++ (print member ++ rest)) behind

theorem intercalate_append (member : α) (members : List α) (behind : List Char) :
    sep.intercalate ((member :: members).map print) ++ behind =
      print member ++ further print sep members behind := by
  induction members generalizing member with
  | nil => simp [further]
  | cons next rest ih =>
      rw [List.map_cons, List.map_cons, List.intercalate_cons_cons, ← List.map_cons,
        List.append_assoc, List.append_assoc, ih next]
      rfl

section

variable (same Follows Ends)
  (hmember : ∀ a ∈ first, ∀ b ∈ second, ∀ x y, Follows x → Follows y →
    print a ++ x = print b ++ y → same a b ∧ x = y)
  (hsep : ∀ a x, Follows (sep ++ (print a ++ x))) (hends : ∀ x, Ends x → Follows x)
  (hapart : ∀ a x, ¬Ends (sep ++ (print a ++ x))) (hx : Ends x) (hy : Ends y)

include hsep hends in
theorem follows_further (members : List α) (hx : Ends x) :
    Follows (further print sep members x) := by
  cases members with
  | nil => exact hends x hx
  | cons member rest => exact hsep member _

include hmember hsep hends hapart hx hy

theorem further_inj (h : further print sep first x = further print sep second y) :
    List.Forall₂ same first second ∧ x = y := by
  induction first generalizing second with
  | nil =>
      cases second with
      | nil => exact ⟨.nil, h⟩
      | cons b bs =>
          obtain rfl : x = sep ++ (print b ++ further print sep bs y) := h
          exact absurd hx (hapart b _)
  | cons a as ih =>
      cases second with
      | nil =>
          obtain rfl : sep ++ (print a ++ further print sep as x) = y := h
          exact absurd hy (hapart a _)
      | cons b bs =>
          obtain ⟨hsame, hrest⟩ := hmember a List.mem_cons_self b List.mem_cons_self _ _
            (follows_further Follows Ends hsep hends as hx)
            (follows_further Follows Ends hsep hends bs hy) (List.append_cancel_left h)
          obtain ⟨hall, hbehind⟩ := ih (fun a ha b hb =>
            hmember a (List.mem_cons_of_mem _ ha) b (List.mem_cons_of_mem _ hb)) hrest
          exact ⟨.cons hsame hall, hbehind⟩

theorem intercalate_append_inj (hfirst : first ≠ []) (hsecond : second ≠ [])
    (h : sep.intercalate (first.map print) ++ x = sep.intercalate (second.map print) ++ y) :
    List.Forall₂ same first second ∧ x = y := by
  obtain ⟨a, as, rfl⟩ := List.exists_cons_of_ne_nil hfirst
  obtain ⟨b, bs, rfl⟩ := List.exists_cons_of_ne_nil hsecond
  rw [intercalate_append, intercalate_append] at h
  obtain ⟨hsame, hrest⟩ := hmember a List.mem_cons_self b List.mem_cons_self _ _
    (follows_further Follows Ends hsep hends as hx)
    (follows_further Follows Ends hsep hends bs hy) h
  obtain ⟨hall, hbehind⟩ := further_inj same Follows Ends (fun a ha b hb =>
    hmember a (List.mem_cons_of_mem _ ha) b (List.mem_cons_of_mem _ hb)) hsep hends hapart hx hy
    hrest
  exact ⟨.cons hsame hall, hbehind⟩

end

end

/-! ## Specifiers -/

def wordsOf (specifier : ExportSpecifier) : List String :=
  (if specifier.typeOnly then ["type"] else []) ++ specifier.localName ::
    if specifier.localName = specifier.exportedName then [] else ["as", specifier.exportedName]

theorem wordsOf_injective : Function.Injective wordsOf := by
  rintro ⟨name, exported, typed⟩ ⟨name', exported', typed'⟩ h
  by_cases hshort : name = exported <;> by_cases hshort' : name' = exported' <;>
    cases typed <;> cases typed' <;> simp_all [wordsOf]

theorem nameText_word {mark : Char} {word : String} (h : standsBare word.toList = true) :
    nameText mark word = word := by
  rw [nameText, if_pos h]

theorem toList_specifierText (mark : Char) (specifier : ExportSpecifier) :
    (specifierText mark specifier).toList =
      [' '].intercalate ((wordsOf specifier).map fun word => (nameText mark word).toList) := by
  have htype : nameText mark "type" = "type" := nameText_word (by decide)
  have has : nameText mark "as" = "as" := nameText_word (by decide)
  obtain ⟨name, exported, typed⟩ := specifier
  rw [specifierText, wordsOf, typePrefix]
  cases typed <;> split <;> simp_all

def EndsSpecifier (rest : List Char) : Prop :=
  ∃ more, rest = ',' :: ' ' :: more ∨ rest = ' ' :: '\x7d' :: more

theorem EndsSpecifier.endsName (h : EndsSpecifier x) : EndsName x := by
  obtain ⟨more, rfl | rfl⟩ := h
  · exact ⟨_, _, rfl, by decide⟩
  · exact ⟨_, _, rfl, by decide⟩

theorem not_endsSpecifier (style : QuoteStyle) (word : String) :
    ¬EndsSpecifier ([' '] ++ ((nameText style.mark word).toList ++ x)) := by
  obtain ⟨c, rest, hword, hc⟩ := exists_start_of_nameText style word
  have hbrace : c ≠ '\x7d' := by
    rcases hc with ⟨rfl, -⟩ | ⟨hc, -⟩
    · cases style <;> decide
    · rintro rfl
      revert hc
      decide
  rintro ⟨more, h | h⟩ <;> simp_all

theorem specifierText_append_inj {first second : ExportSpecifier} (hx : EndsSpecifier x)
    (hy : EndsSpecifier y)
    (h : (specifierText style.mark first).toList ++ x =
      (specifierText style.mark second).toList ++ y) : first = second ∧ x = y := by
  rw [toList_specifierText, toList_specifierText] at h
  obtain ⟨hwords, hrest⟩ := intercalate_append_inj Eq EndsName EndsSpecifier
    (fun a _ b _ x y hx hy h => nameText_append_inj hx hy h)
    (fun a x => ⟨' ', _, rfl, by decide⟩) (fun x hx => hx.endsName)
    (fun word x => not_endsSpecifier style word) hx hy (by simp [wordsOf]) (by simp [wordsOf]) h
  exact ⟨wordsOf_injective (List.forall₂_eq_eq_eq ▸ hwords), hrest⟩

/-! ## Clauses -/

theorem specifierText_ne_empty (style : QuoteStyle) (specifier : ExportSpecifier) :
    specifierText style.mark specifier ≠ "" := by
  obtain ⟨c, rest, hname, -⟩ := exists_start_of_nameText style specifier.localName
  intro hempty
  have hlength := congrArg (fun text => text.toList.length) hempty
  rw [specifierText] at hlength
  split at hlength <;> simp [hname] at hlength

theorem clauseText_nil (mark : Char) : clauseText mark [] = "\x7b\x7d" := rfl

theorem toList_clauseText (style : QuoteStyle) {specifiers : List ExportSpecifier}
    (hsome : specifiers ≠ []) :
    (clauseText style.mark specifiers).toList = ['\x7b', ' '] ++
      [',', ' '].intercalate (specifiers.map fun s => (specifierText style.mark s).toList) ++
        [' ', '\x7d'] := by
  obtain ⟨first, rest, rfl⟩ := List.exists_cons_of_ne_nil hsome
  have hbody : ", ".intercalate ((first :: rest).map (specifierText style.mark)) ≠ "" := by
    intro hempty
    have htext := congrArg String.toList hempty
    have hfirst := specifierText_ne_empty style first
    rw [String.toList_intercalate] at htext
    cases rest with
    | nil => simp_all
    | cons next more => simp_all
  rw [clauseText]
  split
  · contradiction
  · simp [String.toList_intercalate, Function.comp_def]

theorem clauseText_append_inj {first second : List ExportSpecifier}
    (h : (clauseText style.mark first).toList ++ x = (clauseText style.mark second).toList ++ y) :
    first = second ∧ x = y := by
  by_cases hfirst : first = [] <;> by_cases hsecond : second = []
  · simp_all [clauseText_nil]
  · rw [hfirst, clauseText_nil, toList_clauseText style hsecond] at h
    simp at h
  · rw [hsecond, clauseText_nil, toList_clauseText style hfirst] at h
    simp at h
  · rw [toList_clauseText style hfirst, toList_clauseText style hsecond] at h
    simp only [List.append_assoc] at h
    obtain ⟨hsame, hrest⟩ := intercalate_append_inj Eq EndsSpecifier
      (fun x => ∃ more, x = ' ' :: '\x7d' :: more)
      (fun a _ b _ x y hx hy h => specifierText_append_inj hx hy h)
      (fun a x => ⟨_, .inl rfl⟩) (fun x ⟨more, hx⟩ => ⟨more, .inr hx⟩)
      (fun a x ⟨more, h⟩ => by simp at h)
      ⟨x, rfl⟩ ⟨y, rfl⟩ hfirst hsecond (List.append_cancel_left h)
    exact ⟨List.forall₂_eq_eq_eq ▸ hsame, by simpa using hrest⟩

theorem fromText_append_inj {source source' : Option String}
    (h : (fromText style.mark source).toList ++ ';' :: x =
      (fromText style.mark source').toList ++ ';' :: y) : source = source' ∧ x = y := by
  cases source with
  | none => cases source' <;> simp_all [fromText]
  | some name =>
      cases source' with
      | none => simp [fromText] at h
      | some name' =>
          simp only [fromText, String.toList_append, List.append_assoc] at h
          obtain ⟨rfl, hrest⟩ := literal_append_inj (List.append_cancel_left h)
          exact ⟨rfl, by simpa using hrest⟩

/-! ## Statements -/

/-- A statement that can be printed: all but named ones have a source, a namespace has a name. -/
structure Printable (statement : Statement) : Prop where
  source : statement.kind ≠ .named → statement.source.isSome = true
  publishedAs : statement.kind = .namespaced → statement.publishedAs.isSome = true

/-- Statements that agree in all that is printed of their kind. -/
structure SamePrint (first second : Statement) : Prop where
  kind : first.kind = second.kind
  source : first.source = second.source
  specifiers : first.kind = .named → first.specifiers = second.specifiers
  publishedAs : first.kind = .namespaced → first.publishedAs = second.publishedAs
  typeOnly : first.kind ≠ .named → first.typeOnly = second.typeOnly

def aliasText (mark : Char) (statement : Statement) : String :=
  if statement.kind = .namespaced then
    " as " ++ nameText mark (statement.publishedAs.getD "")
  else ""

def bodyText (mark : Char) (statement : Statement) : String :=
  if statement.kind = .named then clauseText mark statement.specifiers
  else typePrefix statement.typeOnly ++ "*" ++ aliasText mark statement

theorem text_of_printable (style : QuoteStyle) {statement : Statement} (h : statement.Printable) :
    statement.text style = .ok ("export " ++ bodyText style.mark statement ++
      fromText style.mark statement.source ++ ";") := by
  obtain ⟨kind, source, publishedAs, typeOnly, specifiers⟩ := statement
  obtain ⟨hsource, hname⟩ := h
  cases kind with
  | named => rfl
  | wildcard =>
      obtain ⟨source, rfl⟩ := Option.isSome_iff_exists.mp (hsource (by simp))
      simp [text, bodyText, aliasText, String.append_assoc]
      rfl
  | namespaced =>
      obtain ⟨source, rfl⟩ := Option.isSome_iff_exists.mp (hsource (by simp))
      obtain ⟨name, rfl⟩ := Option.isSome_iff_exists.mp (hname rfl)
      simp [text, bodyText, aliasText, String.append_assoc]
      rfl

theorem typePrefix_append_inj {typed typed' : Bool}
    (h : (typePrefix typed).toList ++ '*' :: x = (typePrefix typed').toList ++ '*' :: y) :
    typed = typed' ∧ x = y := by
  cases typed <;> cases typed' <;> simp_all [typePrefix]

theorem exists_brace_of_clauseText (style : QuoteStyle) (specifiers : List ExportSpecifier) :
    ∃ rest, (clauseText style.mark specifiers).toList = '\x7b' :: rest := by
  by_cases hnone : specifiers = []
  · exact ⟨['\x7d'], by simp [hnone, clauseText_nil]⟩
  · exact ⟨_, toList_clauseText style hnone⟩

theorem clauseText_ne_starred {typed : Bool} {specifiers : List ExportSpecifier} :
    (clauseText style.mark specifiers).toList ++ x ≠ (typePrefix typed).toList ++ '*' :: y := by
  obtain ⟨rest, hclause⟩ := exists_brace_of_clauseText style specifiers
  rw [hclause]
  cases typed <;> simp [typePrefix]

theorem endsName_fromText {source : Option String} (h : source.isSome = true) :
    EndsName ((fromText style.mark source).toList ++ x) := by
  obtain ⟨name, rfl⟩ := Option.isSome_iff_exists.mp h
  exact ⟨' ', _, by simp [fromText]; rfl, by decide⟩

theorem aliasText_append_inj {first second : Statement} (hfirst : first.Printable)
    (hsecond : second.Printable) (hstar : first.kind ≠ .named) (hstar' : second.kind ≠ .named)
    (h : (aliasText style.mark first).toList ++ ((fromText style.mark first.source).toList ++ x) =
      (aliasText style.mark second).toList ++ ((fromText style.mark second.source).toList ++ y)) :
    first.kind = second.kind ∧ (first.kind = .namespaced → first.publishedAs = second.publishedAs) ∧
      (fromText style.mark first.source).toList ++ x =
        (fromText style.mark second.source).toList ++ y := by
  obtain ⟨source, hsource⟩ := Option.isSome_iff_exists.mp (hfirst.source hstar)
  obtain ⟨source', hsource'⟩ := Option.isSome_iff_exists.mp (hsecond.source hstar')
  unfold aliasText at h
  split at h <;> split at h
  · rename_i hkind hkind'
    obtain ⟨name, hname⟩ := Option.isSome_iff_exists.mp (hfirst.publishedAs hkind)
    obtain ⟨name', hname'⟩ := Option.isSome_iff_exists.mp (hsecond.publishedAs hkind')
    simp only [hname, hname', Option.getD_some, String.toList_append, List.append_assoc] at h
    obtain ⟨rfl, hrest⟩ := nameText_append_inj (endsName_fromText (hfirst.source hstar))
      (endsName_fromText (hsecond.source hstar')) (List.append_cancel_left h)
    exact ⟨hkind.trans hkind'.symm, fun _ => hname.trans hname'.symm, hrest⟩
  · simp [hsource', fromText] at h
  · simp [hsource, fromText] at h
  · rename_i hkind hkind'
    refine ⟨?_, fun hnamespaced => absurd hnamespaced hkind, by simpa using h⟩
    cases hfirst : first.kind <;> cases hsecond : second.kind <;> simp_all

/-- A printed statement is told apart from every other one, whatever stands behind it. -/
theorem text_append_inj {first second : Statement} {printed printed' : String}
    (hfirst : first.Printable) (hsecond : second.Printable)
    (htext : first.text style = .ok printed) (htext' : second.text style = .ok printed')
    (h : printed.toList ++ x = printed'.toList ++ y) : SamePrint first second ∧ x = y := by
  have hmark : "*".toList = ['*'] := rfl
  have hends : ";".toList = [';'] := rfl
  rw [text_of_printable style hfirst, Except.ok.injEq] at htext
  rw [text_of_printable style hsecond, Except.ok.injEq] at htext'
  simp only [← htext, ← htext', String.toList_append, hends, List.append_assoc] at h
  replace h := List.append_cancel_left h
  unfold bodyText at h
  -- A clause opens with a brace, which no other statement does.
  split at h <;> split at h
  · rename_i hkind hkind'
    obtain ⟨hspecifiers, hfrom⟩ := clauseText_append_inj h
    obtain ⟨hsource, hrest⟩ := fromText_append_inj hfrom
    exact ⟨⟨hkind.trans hkind'.symm, hsource, fun _ => hspecifiers, by simp [hkind],
      fun hstar => absurd hkind hstar⟩, hrest⟩
  · simp only [String.toList_append, hmark, List.append_assoc] at h
    exact absurd h clauseText_ne_starred
  · simp only [String.toList_append, hmark, List.append_assoc] at h
    exact absurd h.symm clauseText_ne_starred
  · rename_i hstar hstar'
    simp only [String.toList_append, hmark, List.append_assoc] at h
    obtain ⟨htyped, halias⟩ := typePrefix_append_inj h
    obtain ⟨hkind, hname, hfrom⟩ := aliasText_append_inj hfirst hsecond hstar hstar' halias
    obtain ⟨hsource, hrest⟩ := fromText_append_inj hfrom
    exact ⟨⟨hkind, hsource, fun hnamed => absurd hnamed hstar, hname, fun _ => htyped⟩, hrest⟩

/-! ## Lists of statements -/

def printed (style : QuoteStyle) (statement : Statement) : List Char :=
  ((statement.text style).toOption.getD "").toList

theorem textOfAll_of_printable (style : QuoteStyle) {statements : List Statement}
    (h : ∀ statement ∈ statements, statement.Printable) :
    ∃ text, textOfAll style statements = .ok text ∧
      text.toList = ['\n'].intercalate (statements.map (printed style)) := by
  have hlines : statements.mapM (text style) = .ok (statements.map fun statement =>
      "export " ++ bodyText style.mark statement ++
        fromText style.mark statement.source ++ ";") := by
    rw [mapM_eq_ok, List.forall₂_map_right_iff, List.forall₂_same]
    exact fun statement hmem => text_of_printable style (h statement hmem)
  have hprinted : statements.map (printed style) = (statements.map fun statement =>
      "export " ++ bodyText style.mark statement ++ fromText style.mark statement.source ++ ";").map
        String.toList := by
    rw [List.map_map]
    refine List.map_congr_left fun statement hmem => ?_
    rw [printed, text_of_printable style (h statement hmem)]
    rfl
  refine ⟨_, bind_eq_ok.mpr ⟨_, hlines, rfl⟩, ?_⟩
  rw [hprinted, String.toList_intercalate]
  rfl

theorem printed_append_inj {first second : Statement} (hfirst : first.Printable)
    (hsecond : second.Printable) (h : printed style first ++ x = printed style second ++ y) :
    SamePrint first second ∧ x = y := by
  have htext := text_of_printable style hfirst
  have htext' := text_of_printable style hsecond
  rw [printed, printed, htext, htext'] at h
  exact text_append_inj hfirst hsecond htext htext' h

theorem printed_ne_nil {statement : Statement} (h : statement.Printable) :
    printed style statement ≠ [] := by
  simp [printed, text_of_printable style h, Except.toOption]

theorem SamePrint.text_eq {first second : Statement} (h : SamePrint first second) :
    first.text style = second.text style := by
  obtain ⟨kind, source, publishedAs, typeOnly, specifiers⟩ := first
  obtain ⟨kind', source', publishedAs', typeOnly', specifiers'⟩ := second
  obtain ⟨rfl, rfl, hspecifiers, hname, htyped⟩ := h
  cases kind <;> simp_all [text]

theorem textOfAll_of_samePrint {first second : List Statement}
    (h : List.Forall₂ SamePrint first second) : textOfAll style first = textOfAll style second := by
  have hlines : first.mapM (text style) = second.mapM (text style) := by
    induction h with
    | nil => rfl
    | cons hhead _ ih => rw [List.mapM_cons, List.mapM_cons, hhead.text_eq, ih]
  rw [textOfAll, textOfAll, hlines]

theorem eq_nil_of_printed {statements : List Statement}
    (h : ∀ statement ∈ statements, statement.Printable)
    (hempty : ['\n'].intercalate (statements.map (printed style)) = []) : statements = [] := by
  cases statements with
  | nil => rfl
  | cons statement rest =>
      rw [← List.append_nil (List.intercalate _ _), intercalate_append] at hempty
      exact absurd (List.append_eq_nil_iff.mp hempty).1
        (printed_ne_nil (h statement List.mem_cons_self))

/--
Printing printable statements does not fail, and the text tells all that is
printed of them: lists with one text have the same length and agree, place by
place, in the kind, the source and whatever else their kind prints.
-/
theorem textOfAll_eq_iff {first second : List Statement}
    (hfirst : ∀ statement ∈ first, statement.Printable)
    (hsecond : ∀ statement ∈ second, statement.Printable) :
    (∃ text, textOfAll style first = .ok text) ∧
      (textOfAll style first = textOfAll style second ↔ List.Forall₂ SamePrint first second) := by
  obtain ⟨output, houtput, hlines⟩ := textOfAll_of_printable style hfirst
  obtain ⟨output', houtput', hlines'⟩ := textOfAll_of_printable style hsecond
  refine ⟨⟨output, houtput⟩, ?_, textOfAll_of_samePrint⟩
  intro hsame
  rw [houtput, houtput', Except.ok.injEq] at hsame
  rw [← hsame, hlines] at hlines'
  by_cases hnone : first = []
  · subst hnone
    rw [eq_nil_of_printed hsecond hlines'.symm]
    exact .nil
  · have hsome : second ≠ [] := by
      rintro rfl
      exact hnone (eq_nil_of_printed hfirst hlines')
    exact (intercalate_append_inj SamePrint (fun _ => True) (· = [])
      (fun a ha b hb _ _ _ _ h => printed_append_inj (hfirst a ha) (hsecond b hb) h)
      (fun _ _ => trivial) (fun _ _ => trivial) (by simp) rfl rfl hnone hsome
      (congrArg (· ++ []) hlines')).1

/-- A source that spells the end of its statement and a second one is still one source. -/
theorem textOfAll_eq_iff_spelledStatement :
    textOfAll .single [wildcard "./a';\nexport * from './b" false] ≠
      textOfAll .single [wildcard "./a" false, wildcard "./b" false] := by
  have hprintable (source : String) : (wildcard source false).Printable :=
    ⟨fun _ => rfl, by simp [wildcard]⟩
  intro hsame
  have hlists := (textOfAll_eq_iff (by simp [hprintable]) (by simp [hprintable])).2.mp hsame
  simpa using hlists.length_eq

end Statement

end FlatExports
