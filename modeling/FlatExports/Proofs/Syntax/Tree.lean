import FlatExports.Syntax.Node
import Mathlib.Data.List.Pairwise
import Mathlib.Logic.Relation

/-!
The nodes of a tree.

Every node of a tree is reached from the root by going from parents to children.
A tree is *laid out* if the nodes below its root take up some place and lie
inside their parents, one behind the other.  Then whatever is listed child by
child is listed in the order in which it is written.
-/

namespace FlatExports.Syntax

variable {node part leaf ancestor : Node} {kind : Kind} {field : String}

namespace Node

/-! ## Nodes below a node -/

def Below (ancestor node : Node) : Prop :=
  Relation.ReflTransGen (fun parent child => child ∈ parent.children) ancestor node

theorem mem_children_of_child? (h : node.child? field = some part) : part ∈ node.children :=
  List.mem_of_find?_eq_some h

theorem mem_children_of_named (h : part ∈ node.namedChildren) : part ∈ node.children :=
  (List.mem_filter.mp h).1

theorem mem_children_of_namedChild? (h : node.namedChild? kind = some part) :
    part ∈ node.children :=
  mem_children_of_named (List.mem_of_find?_eq_some h)

theorem Below.child (h : Below ancestor node) (hpart : part ∈ node.children) :
    Below ancestor part :=
  h.tail hpart

theorem Below.named (h : Below ancestor node) (hpart : part ∈ node.namedChildren) :
    Below ancestor part :=
  h.child (mem_children_of_named hpart)

theorem Below.held (h : Below ancestor node) (hpart : node.child? field = some part) :
    Below ancestor part :=
  h.child (mem_children_of_child? hpart)

theorem Below.namedChild (h : Below ancestor node) (hpart : node.namedChild? kind = some part) :
    Below ancestor part :=
  h.child (mem_children_of_namedChild? hpart)

theorem kind_of_namedChild? (h : node.namedChild? kind = some part) : part.kind = kind := by
  simpa using List.find?_some h

mutual

theorem children_induction {motive : Node → Prop}
    (node : ∀ node : Node, (∀ child ∈ node.children, motive child) → motive node) :
    ∀ root, motive root
  | ⟨_, children⟩ => node _ (children_induction_among node children)

theorem children_induction_among {motive : Node → Prop}
    (node : ∀ node : Node, (∀ child ∈ node.children, motive child) → motive node) :
    ∀ children : List Node, ∀ child ∈ children, motive child
  | [] => List.forall_mem_nil _
  | first :: rest => List.forall_mem_cons.mpr
      ⟨children_induction node first, children_induction_among node rest⟩

end

mutual

def everyNode (test : Node → Bool) : Node → Bool
  | ⟨info, children⟩ => test ⟨info, children⟩ && everyNodeAmong test children

def everyNodeAmong (test : Node → Bool) : List Node → Bool
  | [] => true
  | child :: rest => everyNode test child && everyNodeAmong test rest

end

theorem everyNode_child {test : Node → Bool} (h : node.everyNode test = true)
    (hpart : part ∈ node.children) : part.everyNode test = true := by
  have hamong (children : List Node) (h : everyNodeAmong test children = true)
      (hpart : part ∈ children) : part.everyNode test = true := by
    induction children with
    | nil => cases hpart
    | cons child rest ih =>
        rw [everyNodeAmong, Bool.and_eq_true] at h
        rcases List.mem_cons.mp hpart with rfl | hpart
        · exact h.1
        · exact ih h.2 hpart
  cases node
  rw [everyNode, Bool.and_eq_true] at h
  exact hamong _ h.2 hpart

theorem Below.of_everyNode {test : Node → Bool} (h : ancestor.everyNode test = true)
    (hbelow : Below ancestor node) : test node = true := by
  have hnode : node.everyNode test = true := by
    induction hbelow with
    | refl => exact h
    | tail _ hpart ih => exact everyNode_child ih hpart
  cases node
  rw [everyNode, Bool.and_eq_true] at hnode
  exact hnode.1

end Node

/-! ## Layout -/

mutual

/-- The nodes below a node take up some place, as all but missing ones do, and those of one node lie
inside it, in order and apart from each other. -/
def laidOut : Node → Bool
  | ⟨info, children⟩ => laidOutFrom info.start info.stop children

def laidOutFrom (start stop : Nat) : List Node → Bool
  | [] => start ≤ stop
  | child :: rest =>
      start ≤ child.start && child.start < child.stop && laidOut child &&
        laidOutFrom child.stop stop rest

end

namespace Node

def Holds (node : Node) (position : Nat) : Prop := node.start ≤ position ∧ position < node.stop

variable {child : Node} {children nodes : List Node} {start stop position : Nat}

theorem laidOutFrom_cons : laidOutFrom start stop (child :: children) = true ↔
    start ≤ child.start ∧ child.start < child.stop ∧ laidOut child = true ∧
      laidOutFrom child.stop stop children = true := by
  simp [laidOutFrom, and_assoc]

theorem le_of_laidOutFrom (h : laidOutFrom start stop children = true) : start ≤ stop := by
  induction children generalizing start with
  | nil => simpa [laidOutFrom] using h
  | cons child rest ih =>
      obtain ⟨hstart, hsome, -, hrest⟩ := laidOutFrom_cons.mp h
      have hstop := ih hrest
      omega

theorem laidOutFrom_mem (h : laidOutFrom start stop children = true) (hchild : child ∈ children) :
    start ≤ child.start ∧ child.start < child.stop ∧ child.stop ≤ stop ∧
      laidOut child = true := by
  induction children generalizing start with
  | nil => cases hchild
  | cons first rest ih =>
      obtain ⟨hstart, hsome, hfirst, hrest⟩ := laidOutFrom_cons.mp h
      rcases List.mem_cons.mp hchild with rfl | hchild
      · exact ⟨hstart, hsome, le_of_laidOutFrom hrest, hfirst⟩
      · obtain ⟨hbefore, hsome', hstop, hlaid⟩ := ih hrest hchild
        exact ⟨by omega, hsome', hstop, hlaid⟩

theorem pairwise_of_laidOutFrom (h : laidOutFrom start stop children = true) :
    children.Pairwise fun first second => first.stop ≤ second.start := by
  induction children generalizing start with
  | nil => exact .nil
  | cons first rest ih =>
      obtain ⟨-, -, -, hrest⟩ := laidOutFrom_cons.mp h
      exact .cons (fun second hsecond => (laidOutFrom_mem hrest hsecond).1) (ih hrest)

theorem laidOut_iff : laidOut node = true ↔
    laidOutFrom node.start node.stop node.children = true := by
  cases node
  rw [laidOut]
  rfl

theorem laidOut_child (h : laidOut node = true) (hchild : child ∈ node.children) :
    laidOut child = true :=
  (laidOutFrom_mem (laidOut_iff.mp h) hchild).2.2.2

theorem holds_start_child (h : laidOut node = true) (hchild : child ∈ node.children) :
    child.Holds child.start :=
  ⟨Nat.le_refl _, (laidOutFrom_mem (laidOut_iff.mp h) hchild).2.1⟩

theorem holds_of_child (h : laidOut node = true) (hchild : child ∈ node.children)
    (hholds : child.Holds position) : node.Holds position := by
  obtain ⟨hstart, -, hstop, -⟩ := laidOutFrom_mem (laidOut_iff.mp h) hchild
  exact ⟨Nat.le_trans hstart hholds.1, Nat.lt_of_lt_of_le hholds.2 hstop⟩

theorem pairwise_children (h : laidOut node = true) :
    node.children.Pairwise fun first second => first.stop ≤ second.start :=
  pairwise_of_laidOutFrom (laidOut_iff.mp h)

theorem pairwise_start_children (h : laidOut node = true) :
    node.children.Pairwise fun first second => first.start < second.start :=
  (pairwise_children h).imp_of_mem fun hfirst _ hapart =>
    Nat.lt_of_lt_of_le (holds_start_child h hfirst).2 hapart

theorem holds_of_below (hbelow : Below node leaf) (hlaid : laidOut node = true)
    (hsome : node.Holds node.start) : node.Holds leaf.start := by
  induction hbelow using Relation.ReflTransGen.head_induction_on with
  | refl => exact hsome
  | head hchild _ ih =>
      exact holds_of_child hlaid hchild
        (ih (laidOut_child hlaid hchild) (holds_start_child hlaid hchild))

theorem pairwise_flatMap {α : Type} {listed : Node → List α} (nodeOf : α → Node)
    (hlaid : laidOut node = true) (hnodes : nodes.Sublist node.children)
    (hbelow : ∀ child ∈ nodes, ∀ entry ∈ listed child, Below child (nodeOf entry))
    (hpairs : ∀ child ∈ nodes, laidOut child = true →
      (listed child).Pairwise fun first second => (nodeOf first).start < (nodeOf second).start) :
    (nodes.flatMap listed).Pairwise fun first second =>
      (nodeOf first).start < (nodeOf second).start := by
  have hholds (child : Node) (hchild : child ∈ nodes) (entry : α) (hentry : entry ∈ listed child) :
      child.Holds (nodeOf entry).start :=
    holds_of_below (hbelow child hchild entry hentry) (laidOut_child hlaid (hnodes.subset hchild))
      (holds_start_child hlaid (hnodes.subset hchild))
  refine List.pairwise_flatMap.mpr ⟨fun child hchild => ?_, ?_⟩
  · exact hpairs child hchild (laidOut_child hlaid (hnodes.subset hchild))
  · refine ((pairwise_children hlaid).sublist hnodes).imp_of_mem
      fun {first second} hfirst hsecond hapart entry hentry other hother => ?_
    have hbefore := (hholds first hfirst entry hentry).2
    have hbehind := (hholds second hsecond other hother).1
    omega

end Node

end FlatExports.Syntax
