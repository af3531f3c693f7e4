import FlatExports.Module.Declaration
import FlatExports.Proofs.Syntax.Tree
import Mathlib.Data.List.Basic

/-!
The identifiers that a pattern binds.

A node of a pattern is a name, holds one of its children as a pattern, or is
made of patterns.  What it binds is found below it, and where nodes are laid out
one behind the other it is found in the order of the source.
-/

namespace FlatExports.Module

open FlatExports.Syntax
open FlatExports.Syntax.Node (Below)

variable {pattern declarator declaration identifier : Node}

/-! ## Patterns -/

/-- What a node is to the pattern it is part of. -/
inductive Role where
  | name
  /-- Binds what it holds under the first field name, beside an expression under the second. -/
  | holds (bound beside : String)
  | compound
  | outside
  deriving DecidableEq

def roleOf : Kind → Role
  | .identifier | .shorthandPattern => .name
  | .pairPattern => .holds "value" "key"
  | .assignmentPattern | .objectAssignmentPattern => .holds "left" "right"
  | .objectPattern | .arrayPattern | .restPattern => .compound
  | _ => .outside

theorem boundInField_eq (field : String) (children : List Node) :
    boundInField field children =
      (children.find? (·.info.field = some field)).elim [] boundIdentifiers := by
  induction children with
  | nil => rfl
  | cons child rest ih =>
      rw [boundInField, List.find?_cons, ih]
      split <;> simp_all

theorem boundInNamed_eq (children : List Node) : boundInNamed children =
    children.flatMap fun child => if child.info.named then boundIdentifiers child else [] := by
  induction children with
  | nil => rfl
  | cons child rest ih => rw [boundInNamed, ih, List.flatMap_cons]

theorem boundIdentifiers_eq (pattern : Node) : boundIdentifiers pattern =
    match roleOf pattern.kind with
    | .name => [pattern]
    | .holds bound _ => (pattern.child? bound).elim [] boundIdentifiers
    | .compound => pattern.children.flatMap fun child =>
        if child.info.named then boundIdentifiers child else []
    | .outside => [] := by
  obtain ⟨info, children⟩ := pattern
  rw [boundIdentifiers, boundInNamed_eq, boundInField_eq, boundInField_eq]
  simp only [Node.kind]
  cases info.kind <;> rfl

theorem below_boundIdentifiers (pattern : Node) :
    ∀ identifier ∈ boundIdentifiers pattern, Below pattern identifier := by
  induction pattern using Node.children_induction with
  | node pattern ih =>
      intro identifier hmem
      rw [boundIdentifiers_eq] at hmem
      split at hmem
      · rw [List.mem_singleton.mp hmem]
        exact .refl
      · cases hheld : pattern.child? _ with
        | none =>
            rw [hheld] at hmem
            cases hmem
        | some held =>
            rw [hheld] at hmem
            exact (Below.held .refl hheld).trans
              (ih held (Node.mem_children_of_child? hheld) identifier hmem)
      · obtain ⟨child, hchild, hmem⟩ := List.mem_flatMap.mp hmem
        split at hmem
        · exact (Below.child .refl hchild).trans (ih child hchild identifier hmem)
        · cases hmem
      · cases hmem

theorem pairwise_boundIdentifiers (pattern : Node) (hlaid : laidOut pattern = true) :
    (boundIdentifiers pattern).Pairwise fun first second => first.start < second.start := by
  induction pattern using Node.children_induction with
  | node pattern ih =>
      rw [boundIdentifiers_eq]
      split
      · exact List.pairwise_singleton _ _
      · cases hheld : pattern.child? _ with
        | none => exact .nil
        | some held =>
            have hchild := Node.mem_children_of_child? hheld
            exact ih held hchild (Node.laidOut_child hlaid hchild)
      · refine Node.pairwise_flatMap (fun identifier => identifier) hlaid (List.Sublist.refl _)
          (fun child hchild identifier hmem => ?_) fun child hchild hlaid' => ?_
        · split at hmem
          · exact below_boundIdentifiers child identifier hmem
          · cases hmem
        · split
          · exact ih child hchild hlaid'
          · exact .nil
      · exact .nil

/-! ## Variable declarations -/

def declarators (declaration : Node) : List Node :=
  declaration.namedChildren.filter (·.kind = .variableDeclarator)

def boundBy (declarator : Node) : List Node :=
  (declarator.child? "name").elim [] boundIdentifiers

theorem declarators_sublist : (declarators declaration).Sublist declaration.children :=
  List.filter_sublist.trans List.filter_sublist

theorem below_boundBy (hmem : identifier ∈ boundBy declarator) : Below declarator identifier := by
  unfold boundBy at hmem
  cases hname : declarator.child? "name" with
  | none =>
      rw [hname] at hmem
      cases hmem
  | some pattern =>
      rw [hname] at hmem
      exact (Below.held .refl hname).trans (below_boundIdentifiers pattern identifier hmem)

theorem pairwise_boundBy (hlaid : laidOut declarator = true) :
    (boundBy declarator).Pairwise fun first second => first.start < second.start := by
  unfold boundBy
  cases hname : declarator.child? "name" with
  | none => exact .nil
  | some pattern =>
      exact pairwise_boundIdentifiers pattern
        (Node.laidOut_child hlaid (Node.mem_children_of_child? hname))

theorem variableIdentifiers_eq (declaration : Node) :
    variableIdentifiers declaration = (declarators declaration).flatMap boundBy := by
  refine List.flatMap_congr fun declarator _ => ?_
  rw [boundBy]
  cases declarator.child? "name" <;> rfl

theorem below_variableIdentifiers (hmem : identifier ∈ variableIdentifiers declaration) :
    Below declaration identifier := by
  rw [variableIdentifiers_eq] at hmem
  obtain ⟨declarator, hdeclarator, hmem⟩ := List.mem_flatMap.mp hmem
  exact (Below.child .refl (declarators_sublist.subset hdeclarator)).trans (below_boundBy hmem)

theorem pairwise_variableIdentifiers (hlaid : laidOut declaration = true) :
    (variableIdentifiers declaration).Pairwise fun first second => first.start < second.start := by
  rw [variableIdentifiers_eq]
  exact Node.pairwise_flatMap (fun identifier => identifier) hlaid declarators_sublist
    (fun _ _ _ hmem => below_boundBy hmem) fun _ _ hlaid' => pairwise_boundBy hlaid'

end FlatExports.Module
