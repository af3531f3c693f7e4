import FlatExports.Proofs.Survey
import FlatExports.Proofs.Text.Utf8
import FlatExports.Statement.Basic
import FlatExports.Syntax.Node
import FlatExports.Text.Quoted
import Mathlib.Algebra.Group.Nat.Defs
import Mathlib.Logic.Function.Iterate

/-!
Literals that are read back.

A literal is written with escapes, and a name is read from the raw text between
the quotation marks.  So a text comes back as it was only if it needs no escape,
and any other grows with every round of writing and reading.
-/

namespace FlatExports

open FlatExports.Syntax

namespace Text

variable {mark : Char} {text : List Char}

/-- What the literal of a text is read back as. -/
def readBack (mark : Char) (text : String) : String :=
  String.ofList (escaped mark text.toList)

def escapeCount (mark : Char) (text : List Char) : Nat :=
  text.countP fun c => c = '\\' ∨ c = mark

theorem escapeCount_eq_zero : escapeCount mark text = 0 ↔ '\\' ∉ text ∧ mark ∉ text := by
  rw [escapeCount, List.countP_eq_zero]
  constructor
  · intro h
    exact ⟨fun hmem => by simpa using h _ hmem, fun hmem => by simpa using h _ hmem⟩
  · rintro ⟨hslash, hmark⟩ c hc hspecial
    rcases of_decide_eq_true hspecial with rfl | rfl
    · exact hslash hc
    · exact hmark hc

theorem escapeCount_special {c : Char} (h : c = '\\' ∨ c = mark) :
    escapeCount mark (c :: text) = escapeCount mark text + 1 := by
  rw [escapeCount, List.countP_cons_of_pos (by simpa using h)]
  rfl

theorem escapeCount_other {c : Char} (h : ¬(c = '\\' ∨ c = mark)) :
    escapeCount mark (c :: text) = escapeCount mark text := by
  rw [escapeCount, List.countP_cons_of_neg (by simpa using h)]
  rfl

theorem length_escaped : (escaped mark text).length = text.length + escapeCount mark text := by
  induction text with
  | nil => rfl
  | cons c rest ih =>
      rw [escaped]
      split
      · rename_i hspecial
        rw [escapeCount_special hspecial, List.length_cons, List.length_cons, List.length_cons, ih]
        omega
      · rename_i hother
        rw [escapeCount_other hother, List.length_cons, List.length_cons, ih]
        omega

theorem escapeCount_escaped :
    escapeCount mark (escaped mark text) = 2 * escapeCount mark text := by
  induction text with
  | nil => rfl
  | cons c rest ih =>
      rw [escaped]
      split
      · rename_i hspecial
        rw [escapeCount_special (.inl rfl), escapeCount_special hspecial,
          escapeCount_special hspecial, ih]
        omega
      · rename_i hother
        rw [escapeCount_other hother, escapeCount_other hother, ih]

theorem escaped_of_plain (h : escapeCount mark text = 0) : escaped mark text = text := by
  induction text with
  | nil => rfl
  | cons c rest ih =>
      rw [escaped]
      split
      · rename_i hspecial
        rw [escapeCount_special hspecial] at h
        omega
      · rename_i hother
        rw [escapeCount_other hother] at h
        rw [ih h]

/-! ## Rounds of writing and reading -/

theorem escapeCount_rounds (mark : Char) (text : String) (rounds : Nat) :
    escapeCount mark ((readBack mark)^[rounds] text).toList =
      2 ^ rounds * escapeCount mark text.toList := by
  induction rounds with
  | zero => simp
  | succ rounds ih =>
      rw [Function.iterate_succ_apply', readBack, String.toList_ofList, escapeCount_escaped, ih,
        Nat.pow_succ', Nat.mul_assoc]

theorem length_rounds (mark : Char) (text : String) (rounds : Nat) :
    ((readBack mark)^[rounds] text).length =
      text.length + (2 ^ rounds - 1) * escapeCount mark text.toList := by
  induction rounds with
  | zero => simp
  | succ rounds ih =>
      have hgrown := Nat.one_le_two_pow (n := rounds)
      rw [Function.iterate_succ_apply', readBack, String.length_ofList, length_escaped,
        String.length_toList, ih, escapeCount_rounds, Nat.add_assoc, ← Nat.add_mul, Nat.pow_succ]
      congr 2
      omega

theorem readBack_of_plain {text : String} (h : escapeCount mark text.toList = 0) :
    readBack mark text = text := by
  rw [readBack, escaped_of_plain h, String.ofList_toList]

theorem rounds_eq_self_iff {text : String} (rounds : Nat) :
    (readBack mark)^[rounds + 1] text = text ↔
      '\\' ∉ text.toList ∧ mark ∉ text.toList := by
  rw [← escapeCount_eq_zero]
  constructor
  · intro h
    have hlength := length_rounds mark text (rounds + 1)
    have hgrown := Nat.one_lt_two_pow (Nat.succ_ne_zero rounds)
    rw [h, Nat.left_eq_add, Nat.mul_eq_zero] at hlength
    exact hlength.resolve_left (by omega)
  · intro h
    exact Function.iterate_fixed (readBack_of_plain h) _

end Text

open Text

theorem withoutEnds_literal (mark : Char) (text : String) :
    ModuleTree.withoutEnds (literal mark text) = readBack mark text := by
  simp [ModuleTree.withoutEnds, literal, readBack]

/--
A string node over the literal of a text spells the text with its escapes; this
is the text itself, in every further round as in the first, exactly if nothing
in it needs an escape.
-/
theorem moduleName_literal {tree : ModuleTree} {node : Node} {style : QuoteStyle}
    {text : String} (hkind : node.kind = .string)
    (hspan : slice tree.source node.start node.stop = bytesOf (literal style.mark text)) :
    tree.moduleName node = .ok (readBack style.mark text) ∧
      ∀ rounds, (readBack style.mark)^[rounds + 1] text = text ↔
        '\\' ∉ text.toList ∧ style.mark ∉ text.toList := by
  refine ⟨bind_eq_ok.mpr ⟨literal style.mark text, ?_, ?_⟩, rounds_eq_self_iff⟩
  · rw [ModuleTree.text, hspan, text?_bytesOf]
  · rw [if_pos hkind, withoutEnds_literal]
    rfl

def apostrophe : ModuleTree :=
  ⟨"/proj/index.ts", bytesOf "'it\\'s'", Node.made .program 0 7 [Node.made .string 0 7 []]⟩

theorem moduleName_literal_apostrophe :
    apostrophe.moduleName (Node.made .string 0 7 []) = .ok "it\\'s" ∧
      ∀ rounds, (readBack '\'')^[rounds + 1] "it's" ≠ "it's" := by
  have hspan : slice apostrophe.source (Node.made .string 0 7 []).start
      (Node.made .string 0 7 []).stop = bytesOf (literal QuoteStyle.single.mark "it's") := by
    decide +kernel
  obtain ⟨hname, hrounds⟩ := moduleName_literal rfl hspan
  have hread : readBack QuoteStyle.single.mark "it's" = "it\\'s" := by decide +kernel
  refine ⟨hread ▸ hname, fun rounds heq => ?_⟩
  exact ((hrounds rounds).mp heq).2 (by decide)

/-- The literal of a text need not be read back as the text. -/
theorem moduleName_literal_ne :
    ∃ (tree : ModuleTree) (node : Node) (style : QuoteStyle) (text : String),
      node.kind = .string ∧ '\n' ∉ text.toList ∧ '\r' ∉ text.toList ∧
        slice tree.source node.start node.stop = bytesOf (literal style.mark text) ∧
        tree.moduleName node ≠ .ok text :=
  ⟨apostrophe, Node.made .string 0 7 [], .single, "it's", by decide +kernel⟩

end FlatExports
