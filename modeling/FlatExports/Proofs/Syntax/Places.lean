import FlatExports.Proofs.Survey
import FlatExports.Proofs.Syntax.Tree

/-!
Places in a tree.

A place is the way from the root of a tree to a node: at each node the number
of the child it goes on to.  Places are in the order in which a tree is read: a
node comes before what is below it, and a child with all below it before the
next one.  Equal nodes can stand at several places, so `Lists` tells by places
what a reader finds: the nodes at some places, each place once and in order.
-/

namespace FlatExports.Syntax.Node

variable {node child leaf : Node} {children found : List Node} {place rest : List Nat}
  {step : Nat} {field : String} {holds holds' : List Nat → Prop}
  {placesOf : Node → List (List Nat)} {inside : Node → List Nat → Prop}
  {listed : Node → List Node}

/-! ## Nodes at places -/

def at? (node : Node) : List Nat → Option Node
  | [] => some node
  | step :: rest => (node.children[step]?).bind fun child => child.at? rest

@[simp] theorem at?_nil (node : Node) : node.at? [] = some node := rfl

theorem at?_cons : node.at? (step :: rest) = some leaf ↔
    ∃ child, node.children[step]? = some child ∧ child.at? rest = some leaf :=
  Option.bind_eq_some_iff

def step? (node : Node) (field : String) : Option Nat :=
  node.children.findIdx? (·.info.field = some field)

theorem child?_of_step? (hstep : node.step? field = some step)
    (hchild : node.children[step]? = some child) : node.child? field = some child := by
  obtain ⟨hlt, hfield, hbefore⟩ := List.findIdx?_eq_some_iff_getElem.mp hstep
  obtain ⟨-, rfl⟩ := List.getElem?_eq_some_iff.mp hchild
  refine List.find?_eq_some_iff_getElem.mpr ⟨hfield, step, hlt, rfl, fun other hother => ?_⟩
  simpa using hbefore other hother

theorem exists_step (h : node.child? field = some child) :
    ∃ step, node.step? field = some step ∧ node.children[step]? = some child := by
  obtain ⟨hfield, step, hlt, rfl, hbefore⟩ := List.find?_eq_some_iff_getElem.mp h
  refine ⟨step, List.findIdx?_eq_some_iff_getElem.mpr ⟨hlt, hfield, fun other hother => ?_⟩,
    List.getElem?_eq_getElem hlt⟩
  simpa using hbefore other hother

theorem field_of_child? (h : node.child? field = some child) : child.info.field = some field := by
  simpa using List.find?_some h

/-! ## Lists of what stands at places -/

/-- The nodes at the places that a condition holds of, each place once and in order. -/
def Lists (node : Node) (holds : List Nat → Prop) (found : List Node) : Prop :=
  ∃ places : List (List Nat), places.Pairwise (· < ·) ∧ (∀ place, place ∈ places ↔ holds place) ∧
    List.Forall₂ (fun place leaf => node.at? place = some leaf) places found

namespace Lists

theorem congr (h : node.Lists holds found) (hiff : ∀ place, holds place ↔ holds' place) :
    node.Lists holds' found := by
  obtain ⟨places, hpairs, hmem, hfound⟩ := h
  exact ⟨places, hpairs, fun place => (hmem place).trans (hiff place), hfound⟩

theorem none (h : ∀ place, ¬holds place) : node.Lists holds [] :=
  ⟨[], .nil, by simpa using h, .nil⟩

theorem mem (h : node.Lists holds found) :
    leaf ∈ found ↔ ∃ place, holds place ∧ node.at? place = some leaf := by
  obtain ⟨places, -, hmem, hfound⟩ := h
  constructor
  · intro hleaf
    obtain ⟨place, hplace, hat⟩ := exists_left_of_forall₂ hfound hleaf
    exact ⟨place, (hmem place).mp hplace, hat⟩
  · rintro ⟨place, hplace, hat⟩
    obtain ⟨other, hother, hat'⟩ := exists_right_of_forall₂ hfound ((hmem place).mpr hplace)
    cases hat.symm.trans hat'
    exact hother

theorem self (h : node.Lists holds found) (hbelow : ∀ place, holds place → place ≠ []) :
    node.Lists (fun place => place = [] ∨ holds place) (node :: found) := by
  obtain ⟨places, hpairs, hmem, hfound⟩ := h
  refine ⟨[] :: places, .cons (fun place hplace => ?_) hpairs, by simp [hmem], .cons rfl hfound⟩
  cases place with
  | nil => exact absurd rfl (hbelow _ ((hmem _).mp hplace))
  | cons step rest => exact List.nil_lt_cons step rest

theorem below (hchild : node.children[step]? = some child) (h : child.Lists holds found) :
    node.Lists (fun place => ∃ rest, place = step :: rest ∧ holds rest) found := by
  obtain ⟨places, hpairs, hmem, hfound⟩ := h
  refine ⟨places.map (step :: ·), List.pairwise_map.mpr (hpairs.imp List.cons_lt_cons_self.mpr),
    fun place => ?_, List.forall₂_map_left_iff.mpr (hfound.imp fun rest leaf hat => ?_)⟩
  · simp [hmem, and_comm, eq_comm]
  · exact at?_cons.mpr ⟨child, hchild, hat⟩

end Lists

def InChildren (inside : Node → List Nat → Prop) (node : Node) : List Nat → Prop
  | [] => False
  | step :: rest => ∃ child, node.children[step]? = some child ∧ inside child rest

def placesBelow (children : List Node) (placesOf : Node → List (List Nat)) : List (List Nat) :=
  children.zipIdx.flatMap fun entry => (placesOf entry.1).map (entry.2 :: ·)

theorem pairwise_placesBelow (h : ∀ child ∈ children, (placesOf child).Pairwise (· < ·)) :
    (placesBelow children placesOf).Pairwise (· < ·) := by
  have hsteps : children.zipIdx.Pairwise fun first second => first.2 < second.2 := by
    rw [← List.pairwise_map, List.zipIdx_map_snd]
    exact List.pairwise_lt_range'
  refine List.pairwise_flatMap.mpr ⟨fun entry hentry => ?_, hsteps.imp fun hlt => ?_⟩
  · have hchild := List.mem_of_getElem? (List.mem_zipIdx_iff_getElem?.mp hentry)
    exact List.pairwise_map.mpr ((h _ hchild).imp List.cons_lt_cons_self.mpr)
  · intro place hplace other hother
    obtain ⟨rest, -, rfl⟩ := List.mem_map.mp hplace
    obtain ⟨rest', -, rfl⟩ := List.mem_map.mp hother
    exact List.cons_lt_cons_iff.mpr (.inl hlt)

theorem mem_placesBelow : place ∈ placesBelow children placesOf ↔
    ∃ step child rest, children[step]? = some child ∧ rest ∈ placesOf child ∧
      place = step :: rest := by
  rw [placesBelow, List.mem_flatMap]
  constructor
  · rintro ⟨entry, hentry, hplace⟩
    obtain ⟨rest, hrest, rfl⟩ := List.mem_map.mp hplace
    exact ⟨entry.2, entry.1, rest, List.mem_zipIdx_iff_getElem?.mp hentry, hrest, rfl⟩
  · rintro ⟨step, child, rest, hchild, hrest, rfl⟩
    exact ⟨(child, step), List.mem_zipIdx_iff_getElem?.mpr hchild, List.mem_map_of_mem hrest⟩

theorem at?_placesBelow (h : ∀ child ∈ node.children,
    List.Forall₂ (fun place leaf => child.at? place = some leaf) (placesOf child) (listed child)) :
    List.Forall₂ (fun place leaf => node.at? place = some leaf)
      (placesBelow node.children placesOf) (node.children.flatMap listed) := by
  have hlisted : node.children.flatMap listed =
      node.children.zipIdx.flatMap fun entry => listed entry.1 := by
    conv_lhs => rw [← List.zipIdx_map_fst 0 node.children, List.flatMap_map]
  rw [hlisted, placesBelow, List.flatMap_def, List.flatMap_def]
  refine List.rel_flatten (List.forall₂_map_left_iff.mpr (List.forall₂_map_right_iff.mpr
    (List.forall₂_same.mpr fun entry hentry => List.forall₂_map_left_iff.mpr ?_)))
  have hchild := List.mem_zipIdx_iff_getElem?.mp hentry
  exact (h _ (List.mem_of_getElem? hchild)).imp fun rest leaf hat =>
    at?_cons.mpr ⟨entry.1, hchild, hat⟩

theorem Lists.inChildren (h : ∀ child ∈ node.children, child.Lists (inside child) (listed child)) :
    node.Lists (InChildren inside node) (node.children.flatMap listed) := by
  choose! placesOf hpairs hmem hfound using h
  refine ⟨placesBelow node.children placesOf, pairwise_placesBelow hpairs, fun place => ?_,
    at?_placesBelow hfound⟩
  rw [mem_placesBelow]
  constructor
  · rintro ⟨step, child, rest, hchild, hrest, rfl⟩
    exact ⟨child, hchild, (hmem child (List.mem_of_getElem? hchild) rest).mp hrest⟩
  · intro hplace
    cases place with
    | nil => exact hplace.elim
    | cons step rest =>
        obtain ⟨child, hchild, hinside⟩ := hplace
        exact ⟨step, child, rest, hchild,
          (hmem child (List.mem_of_getElem? hchild) rest).mpr hinside, rfl⟩

def InHeld (field : String) (inside : Node → List Nat → Prop) (node : Node) : List Nat → Prop
  | [] => False
  | step :: rest => node.step? field = some step ∧
      ∃ child, node.children[step]? = some child ∧ inside child rest

theorem Lists.inHeld (h : ∀ child ∈ node.children, child.Lists (inside child) (listed child)) :
    node.Lists (InHeld field inside node) ((node.child? field).elim [] listed) := by
  cases hheld : node.child? field with
  | none =>
      refine .none fun place hplace => ?_
      cases place with
      | nil => exact hplace
      | cons step rest =>
          obtain ⟨hstep, child, hchild, -⟩ := hplace
          cases hheld.symm.trans (child?_of_step? hstep hchild)
  | some held =>
      obtain ⟨step, hstep, hchild⟩ := exists_step hheld
      refine ((h held (List.mem_of_getElem? hchild)).below hchild).congr fun place => ?_
      cases place with
      | nil => simp [InHeld]
      | cons other rest =>
          constructor
          · rintro ⟨rest', heq, hinside⟩
            cases heq
            exact ⟨hstep, held, hchild, hinside⟩
          · rintro ⟨hother, child, hchild', hinside⟩
            cases hstep.symm.trans hother
            cases hchild.symm.trans hchild'
            exact ⟨rest, rfl, hinside⟩

/-! ## The order of reading -/

mutual

def preorder : Node → List Node
  | ⟨info, children⟩ => ⟨info, children⟩ :: preorderAmong children

def preorderAmong : List Node → List Node
  | [] => []
  | child :: rest => preorder child ++ preorderAmong rest

end

theorem preorderAmong_eq (children : List Node) :
    preorderAmong children = children.flatMap preorder := by
  induction children with
  | nil => rfl
  | cons child rest ih => rw [preorderAmong, ih, List.flatMap_cons]

theorem preorder_eq (node : Node) : node.preorder = node :: node.children.flatMap preorder := by
  obtain ⟨info, children⟩ := node
  rw [preorder, preorderAmong_eq]

/-- The order of reading has every node of a tree once, in the order of the places. -/
theorem lists_preorder (root : Node) :
    root.Lists (fun place => (root.at? place).isSome = true) root.preorder := by
  induction root using children_induction with
  | node node ih =>
      have hbelow := Lists.inChildren ih
      rw [preorder_eq]
      refine (hbelow.self fun place hplace hnil => ?_).congr fun place => ?_
      · subst hnil
        exact hplace
      · cases place with
        | nil => simp
        | cons step rest => cases hchild : node.children[step]? <;> simp [InChildren, at?, hchild]

theorem below_iff_at? : Below node leaf ↔ ∃ place, node.at? place = some leaf := by
  constructor
  · intro hbelow
    induction hbelow using Relation.ReflTransGen.head_induction_on with
    | refl => exact ⟨[], rfl⟩
    | head hchild _ ih =>
        obtain ⟨step, hstep⟩ := List.getElem?_of_mem hchild
        obtain ⟨rest, hat⟩ := ih
        exact ⟨step :: rest, at?_cons.mpr ⟨_, hstep, hat⟩⟩
  · rintro ⟨place, hat⟩
    induction place generalizing node with
    | nil =>
        cases hat
        exact .refl
    | cons step rest ih =>
        obtain ⟨child, hchild, hat⟩ := at?_cons.mp hat
        exact .head (List.mem_of_getElem? hchild) (ih hat)

theorem mem_preorder : leaf ∈ node.preorder ↔ Below node leaf := by
  rw [(lists_preorder node).mem, below_iff_at?]
  exact exists_congr fun place => and_iff_right_of_imp fun hat => by simp [hat]

end FlatExports.Syntax.Node
