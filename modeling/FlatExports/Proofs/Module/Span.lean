import FlatExports.Proofs.Module.Recording
import Mathlib.Data.List.Pairwise

/-!
Where the items of a module are written.

In a tree whose nodes lie inside their parents, one behind the other, whatever
is recorded for a site of a statement is written inside the statement.  So an
item is written in a re-export statement exactly if it is no declaration that
carries its export itself.
-/

namespace FlatExports

namespace Module

open FlatExports.Syntax

variable {tree : ModuleTree} {statement : Node} {contribution : Contribution} {scanned : Scan}
  {site : Site} {item : Item}

/-! ## Inline sites -/

def Site.isInline : Site → Bool
  | .default _ | .declared _ _ | .identifier _ => true
  | .specifier _ _ | .namespaced _ | .wildcard _ => false

theorem Introduces.isInline {entry : DeclaredName} (h : Introduces tree site entry) :
    site.isInline = true := by
  cases h <;> rfl

theorem Contributes.isReExport {sites : List Site}
    (h : Contributes tree statement sites contribution) (hsite : site ∈ sites) :
    contribution.isReExport = !site.isInline := by
  cases h with
  | default | namespaced | wildcard =>
      rw [List.mem_singleton.mp hsite]
      rfl
  | declared hnames =>
      obtain ⟨entry, -, hentry⟩ := exists_right_of_forall₂ hnames hsite
      rw [hentry.isInline]
      rfl
  | sourced | pending =>
      obtain ⟨specifier, hspecifier, rfl⟩ := List.mem_map.mp hsite
      simp [List.ne_nil_of_mem hspecifier, Site.isInline]

theorem isInline_item_bind {binding : Binding} {entry : PendingExport} :
    (bind binding entry).item.isInline = false := by
  cases binding with
  | declared typeOnly =>
      rw [bind]
      split <;> rfl
  | _ => rfl

theorem Records.isInline_eq (h : Records tree site item) : item.isInline = site.isInline := by
  cases h with
  | introduced hentry =>
      rw [hentry.isInline]
      rfl
  | bound _ _ hbound =>
      obtain ⟨bindings, binding, -, -, rfl⟩ := hbound
      exact isInline_item_bind
  | _ => rfl

/-! ## Spans -/

def StatementSpan.Holds (span : StatementSpan) (position : Int) : Prop :=
  (span.start : Int) ≤ position ∧ position < span.stop

theorem holds_spanOf {position : Nat} (h : statement.Holds position) :
    (spanOf statement contribution).Holds position :=
  ⟨Int.ofNat_le.mpr h.1, Int.ofNat_lt.mpr h.2⟩

theorem mem_zipWith_of_forall₂ {α β γ : Type} {related : α → β → Prop} (combine : α → β → γ)
    {inputs : List α} {values : List β} (h : List.Forall₂ related inputs values) {input : α}
    (hinput : input ∈ inputs) :
    ∃ value, related input value ∧ combine input value ∈ List.zipWith combine inputs values := by
  induction h with
  | nil => cases hinput
  | cons hfirst _ ih =>
      rw [List.zipWith_cons_cons]
      rcases List.mem_cons.mp hinput with rfl | hinput
      · exact ⟨_, hfirst, List.mem_cons_self⟩
      · obtain ⟨value, hrelated, hmem⟩ := ih hinput
        exact ⟨value, hrelated, List.mem_cons_of_mem _ hmem⟩

theorem pairwise_statements (hlaid : laidOut tree.root = true) (hscan : scan tree = .ok scanned) :
    scanned.statements.Pairwise fun first second => first.stop ≤ second.start := by
  obtain ⟨contributions, bound, -, -, -, -, hstatements⟩ := scan_eq_ok hscan
  have hnodes : (exportStatements tree).Pairwise fun first second => first.stop ≤ second.start :=
    (Node.pairwise_children hlaid).sublist exportStatements_sublist
  rw [hstatements]
  clear hstatements
  generalize exportStatements tree = statements at hnodes
  induction hnodes generalizing contributions with
  | nil => simp
  | cons hfirst _ ih =>
      cases contributions with
      | nil => simp
      | cons contribution contributions =>
          rw [List.zipWith_cons_cons]
          refine .cons (fun span hspan => ?_) (ih contributions)
          obtain ⟨index, hindex, rfl⟩ := List.mem_iff_getElem.mp hspan
          rw [List.getElem_zipWith]
          exact hfirst _ (List.getElem_mem _)

theorem eq_of_holds (hlaid : laidOut tree.root = true) (hscan : scan tree = .ok scanned)
    {span other : StatementSpan} (hspan : span ∈ scanned.statements)
    (hother : other ∈ scanned.statements) {position : Int} (hholds : span.Holds position)
    (hholds' : other.Holds position) : span = other := by
  have hall : ∀ ⦃span⦄, span ∈ scanned.statements → ∀ ⦃other⦄, other ∈ scanned.statements →
      span.Holds position → other.Holds position → span = other := by
    refine List.Pairwise.forall_of_forall_of_flip (fun _ _ _ _ => rfl) ?_ ?_
    · refine (pairwise_statements hlaid hscan).imp fun {first second} hapart hfirst hsecond => ?_
      have := hfirst.2
      have := hsecond.1
      omega
    · refine (pairwise_statements hlaid hscan).imp fun {first second} hapart hsecond hfirst => ?_
      have := hfirst.2
      have := hsecond.1
      omega
  exact hall hspan hother hholds hholds'

theorem statement_of_item (hlaid : laidOut tree.root = true) (hscan : scan tree = .ok scanned)
    (hitem : item ∈ scanned.surface.items) :
    ∃ span ∈ scanned.statements, span.Holds item.position ∧ span.isReExport = !item.isInline := by
  obtain ⟨contributions, bound, hreads, -, -, -, hstatements⟩ := scan_eq_ok hscan
  obtain ⟨statement, hstatement, site, hsite, hrecord⟩ := exists_site_of_scan hscan hitem
  obtain ⟨contribution, hread, hspan⟩ := mem_zipWith_of_forall₂ spanOf hreads hstatement
  have hchild := exportStatements_sublist.subset hstatement
  have hholds : statement.Holds site.node.start :=
    Node.holds_of_below (below_sitesOf hsite) (Node.laidOut_child hlaid hchild)
      (Node.holds_start_child hlaid hchild)
  refine ⟨spanOf statement contribution, hstatements ▸ hspan, ?_, ?_⟩
  · rw [hrecord.position_eq, site.start_eq]
    exact holds_spanOf hholds
  · rw [hrecord.isInline_eq, ← (readExport_contributes hread).isReExport hsite]
    rfl

theorem mem_reExportSpans_iff (hlaid : laidOut tree.root = true) (hscan : scan tree = .ok scanned)
    (hitem : item ∈ scanned.surface.items) :
    (∃ span ∈ scanned.reExportSpans, span.Holds item.position) ↔ item.isInline = false := by
  obtain ⟨home, hhome, hholds, hkind⟩ := statement_of_item hlaid hscan hitem
  constructor
  · rintro ⟨span, hspan, hholds'⟩
    obtain ⟨hspan, hreExport⟩ := List.mem_filter.mp hspan
    obtain rfl := eq_of_holds hlaid hscan hhome hspan hholds hholds'
    simpa [hkind] using hreExport
  · intro hinline
    exact ⟨home, List.mem_filter.mpr ⟨hhome, by simp [hkind, hinline]⟩, hholds⟩

end Module

end FlatExports
