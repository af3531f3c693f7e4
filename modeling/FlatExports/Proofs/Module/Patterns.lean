import FlatExports.Proofs.Module.Recording
import FlatExports.Proofs.Syntax.Places

/-!
What destructuring patterns bind.

A pattern is a name, holds a pattern beside an expression, or is made of
patterns.  It binds the names that are reached without going into an expression,
be it a default or a key, each of them once and in the order of reading.  A
variable declaration introduces what its declarators bind, one after the other.
-/

namespace FlatExports.Module

open FlatExports.Syntax
open FlatExports.Syntax.Node (made mark)

variable {tree : ModuleTree} {pattern child declaration : Node} {place rest : List Nat}
  {step : Nat} {bound beside : String} {strict : Bool}

/-! ## Binding places -/

/-- The places at which a pattern binds a name. -/
inductive Binds : Node → List Nat → Prop where
  | name {node : Node} (hrole : roleOf node.kind = .name) : Binds node []
  | held {pattern child : Node} {bound beside : String} {step : Nat} {rest : List Nat}
      (hrole : roleOf pattern.kind = .holds bound beside)
      (hstep : pattern.step? bound = some step) (hchild : pattern.children[step]? = some child)
      (hbinds : Binds child rest) : Binds pattern (step :: rest)
  | part {pattern child : Node} {step : Nat} {rest : List Nat}
      (hrole : roleOf pattern.kind = .compound) (hchild : pattern.children[step]? = some child)
      (hnamed : child.info.named = true) (hbinds : Binds child rest) : Binds pattern (step :: rest)

theorem binds_name_iff (hrole : roleOf pattern.kind = .name) :
    Binds pattern place ↔ place = [] := by
  constructor
  · rintro (- | ⟨hother, -, -, -⟩ | ⟨hother, -, -, -⟩)
    · rfl
    · cases hrole.symm.trans hother
    · cases hrole.symm.trans hother
  · rintro rfl
    exact .name hrole

theorem binds_held_iff (hrole : roleOf pattern.kind = .holds bound beside) :
    Binds pattern place ↔ Node.InHeld bound Binds pattern place := by
  constructor
  · rintro (hother | ⟨hother, hstep, hchild, hbinds⟩ | ⟨hother, -, -, -⟩)
    · cases hrole.symm.trans hother
    · cases hrole.symm.trans hother
      exact ⟨hstep, _, hchild, hbinds⟩
    · cases hrole.symm.trans hother
  · intro hplace
    cases place with
    | nil => exact hplace.elim
    | cons step rest =>
        obtain ⟨hstep, child, hchild, hbinds⟩ := hplace
        exact .held hrole hstep hchild hbinds

theorem binds_part_iff (hrole : roleOf pattern.kind = .compound) :
    Binds pattern place ↔ Node.InChildren
      (fun child place => child.info.named = true ∧ Binds child place) pattern place := by
  constructor
  · rintro (hother | ⟨hother, -, -, -⟩ | ⟨-, hchild, hnamed, hbinds⟩)
    · cases hrole.symm.trans hother
    · cases hrole.symm.trans hother
    · exact ⟨_, hchild, hnamed, hbinds⟩
  · intro hplace
    cases place with
    | nil => exact hplace.elim
    | cons step rest =>
        obtain ⟨child, hchild, hnamed, hbinds⟩ := hplace
        exact .part hrole hchild hnamed hbinds

theorem not_binds (hrole : roleOf pattern.kind = .outside) : ¬Binds pattern place := by
  rintro (hother | ⟨hother, -, -, -⟩ | ⟨hother, -, -, -⟩) <;> cases hrole.symm.trans hother

/-! ## Identifiers -/

theorem lists_boundIdentifiers (pattern : Node) :
    pattern.Lists (Binds pattern) (boundIdentifiers pattern) := by
  induction pattern using Node.children_induction with
  | node pattern ih =>
      rw [boundIdentifiers_eq]
      split
      · rename_i hrole
        have hbelow : pattern.Lists (fun _ => False) [] := .none fun _ => id
        refine (hbelow.self fun _ => False.elim).congr fun place => ?_
        rw [binds_name_iff hrole, or_false]
      · rename_i hrole
        exact (Node.Lists.inHeld ih).congr fun place => (binds_held_iff hrole).symm
      · rename_i hrole
        refine (Node.Lists.inChildren fun child hchild => ?_).congr fun place =>
          (binds_part_iff hrole).symm
        split
        · rename_i hnamed
          exact (ih child hchild).congr fun place => (and_iff_right hnamed).symm
        · rename_i hnamed
          exact .none fun place hplace => hnamed hplace.1
      · rename_i hrole
        exact .none fun place => not_binds hrole

/-! ## Defaults and keys -/

def isExpression (pattern child : Node) : Bool :=
  match roleOf pattern.kind with
  | .holds _ beside => child.info.field = some beside
  | _ => false

/-- Whether a place is in the default or the key of some part of a pattern. -/
def inExpression (pattern : Node) : List Nat → Bool
  | [] => false
  | step :: rest => (pattern.children[step]?).any fun child =>
      isExpression pattern child || inExpression child rest

theorem inExpression_cons (hchild : pattern.children[step]? = some child) :
    inExpression pattern (step :: rest) =
      (isExpression pattern child || inExpression child rest) := by
  simp [inExpression, hchild]

def NameAt (pattern : Node) (place : List Nat) : Prop :=
  ∃ node, pattern.at? place = some node ∧ roleOf node.kind = .name

theorem bound_ne_beside {kind : Kind} (hrole : roleOf kind = .holds bound beside) :
    bound ≠ beside := by
  unfold roleOf at hrole
  split at hrole <;> cases hrole <;> decide

theorem Binds.nameAt (h : Binds pattern place) : NameAt pattern place := by
  induction h with
  | name hrole => exact ⟨_, rfl, hrole⟩
  | held _ _ hchild _ ih | part _ hchild _ _ ih =>
      obtain ⟨node, hat, hrole⟩ := ih
      exact ⟨node, Node.at?_cons.mpr ⟨_, hchild, hat⟩, hrole⟩

theorem Binds.outside (h : Binds pattern place) : inExpression pattern place = false := by
  induction h with
  | name hrole => rfl
  | held hrole hstep hchild _ ih =>
      have hbound := Node.field_of_child? (Node.child?_of_step? hstep hchild)
      simp [inExpression_cons hchild, ih, isExpression, hrole, hbound, bound_ne_beside hrole]
  | part hrole hchild _ _ ih => simp [inExpression_cons hchild, ih, isExpression, hrole]

structure IsMark (node : Node) : Prop where
  role : roleOf node.kind = .outside
  field : node.info.field = none
  children : node.children = []

instance (node : Node) : Decidable (IsMark node) :=
  decidable_of_iff
    (roleOf node.kind = .outside ∧ node.info.field = none ∧ node.children.isEmpty = true)
    ⟨fun h => ⟨h.1, h.2.1, List.isEmpty_iff.mp h.2.2⟩,
      fun h => ⟨h.role, h.field, List.isEmpty_iff.mpr h.children⟩⟩

/-- The trees of patterns, in which any expression can be a default or a key. -/
inductive IsPattern : Node → Prop where
  | name {node : Node} (hrole : roleOf node.kind = .name) (hleaf : node.children = []) :
      IsPattern node
  | held {node child : Node} {bound beside : String} (front back : List Node)
      (hrole : roleOf node.kind = .holds bound beside)
      (hchildren : node.children = front ++ child :: back) (hfield : child.info.field = some bound)
      (hothers : ∀ other ∈ front ++ back, other.info.field = some beside ∨ IsMark other)
      (hpattern : IsPattern child) : IsPattern node
  | parts {node : Node} (hrole : roleOf node.kind = .compound)
      (hnamed : ∀ child ∈ node.children, IsMark child ∨ child.info.named = true)
      (hpatterns : ∀ child ∈ node.children, ¬IsMark child → IsPattern child) : IsPattern node

theorem IsPattern.of_parts {node : Node} (hrole : roleOf node.kind = .compound)
    (hparts : ∀ child ∈ node.children,
      IsMark child ∨ child.info.named = true ∧ IsPattern child) : IsPattern node :=
  .parts hrole (fun child hchild => (hparts child hchild).imp_right And.left)
    fun child hchild hmark => ((hparts child hchild).resolve_left hmark).2

theorem IsMark.not_nameAt (h : IsMark pattern) : ¬NameAt pattern place := by
  rintro ⟨node, hat, hrole⟩
  cases place with
  | nil =>
      cases hat
      cases h.role.symm.trans hrole
  | cons step rest =>
      obtain ⟨child, hchild, -⟩ := Node.at?_cons.mp hat
      simp [h.children] at hchild

theorem eq_or_mem_around {front back : List Node} {middle other : Node}
    (h : (front ++ middle :: back)[step]? = some other) :
    step = front.length ∧ other = middle ∨ other ∈ front ++ back := by
  rcases Nat.lt_or_ge step front.length with hlt | hge
  · rw [List.getElem?_append_left hlt] at h
    exact .inr (List.mem_append_left _ (List.mem_of_getElem? h))
  · rw [List.getElem?_append_right hge] at h
    cases hrest : step - front.length with
    | zero =>
        rw [hrest, List.getElem?_cons_zero] at h
        exact .inl ⟨by omega, (Option.some.inj h).symm⟩
    | succ rest =>
        rw [hrest, List.getElem?_cons_succ] at h
        exact .inr (List.mem_append_right _ (List.mem_of_getElem? h))

theorem step?_held {held : Node} {front back : List Node}
    (hrole : roleOf pattern.kind = .holds bound beside)
    (hchildren : pattern.children = front ++ held :: back)
    (hfield : held.info.field = some bound)
    (hothers : ∀ other ∈ front ++ back, other.info.field = some beside ∨ IsMark other) :
    pattern.step? bound = some front.length := by
  have hfree (other : Node) (hother : other ∈ front) : other.info.field ≠ some bound := by
    intro hbound
    rcases hothers other (List.mem_append_left _ hother) with hbeside | hmark
    · exact bound_ne_beside hrole (Option.some.inj (hbound.symm.trans hbeside))
    · cases hbound.symm.trans hmark.field
  have hnone : front.findIdx? (·.info.field = some bound) = none := by
    simpa [List.findIdx?_eq_none_iff] using hfree
  rw [Node.step?, hchildren, List.findIdx?_append, hnone]
  simp [List.findIdx?_cons, hfield]

theorem IsPattern.binds (h : IsPattern pattern) {node : Node} (hat : pattern.at? place = some node)
    (hnode : roleOf node.kind = .name) (houtside : inExpression pattern place = false) :
    Binds pattern place := by
  induction h generalizing place with
  | name hrole hleaf =>
      cases place with
      | nil => exact .name hrole
      | cons step rest =>
          obtain ⟨child, hchild, -⟩ := Node.at?_cons.mp hat
          simp [hleaf] at hchild
  | held front back hrole hchildren hfield hothers _ ih =>
      cases place with
      | nil =>
          cases hat
          cases hrole.symm.trans hnode
      | cons step rest =>
          obtain ⟨child, hchild, hbelow⟩ := Node.at?_cons.mp hat
          rw [inExpression_cons hchild, Bool.or_eq_false_iff] at houtside
          rcases eq_or_mem_around (hchildren ▸ hchild) with ⟨rfl, rfl⟩ | hother
          · exact .held hrole (step?_held hrole hchildren hfield hothers) hchild
              (ih hbelow houtside.2)
          · rcases hothers child hother with hbeside | hmark
            · simp [isExpression, hrole, hbeside] at houtside
            · exact absurd ⟨node, hbelow, hnode⟩ hmark.not_nameAt
  | parts hrole hnamed _ ih =>
      cases place with
      | nil =>
          cases hat
          cases hrole.symm.trans hnode
      | cons step rest =>
          obtain ⟨child, hchild, hbelow⟩ := Node.at?_cons.mp hat
          rw [inExpression_cons hchild, Bool.or_eq_false_iff] at houtside
          have hmem := List.mem_of_getElem? hchild
          have hmark : ¬IsMark child := fun hmark => hmark.not_nameAt ⟨node, hbelow, hnode⟩
          exact .part hrole hchild ((hnamed child hmem).resolve_left hmark)
            (ih child hmem hmark hbelow houtside.2)

/-! ## Variable declarations -/

theorem eq_of_isVariableDeclaration {kind : Kind} (h : kind.isVariableDeclaration = true) :
    kind = .lexicalDeclaration ∨ kind = .variableDeclaration := by
  unfold Kind.isVariableDeclaration at h
  split at h
  · exact .inl rfl
  · exact .inr rfl
  · cases h

theorem declaredNames_variables (hkind : declaration.kind.isVariableDeclaration = true)
    {names : List DeclaredName} : declaredNames tree strict declaration = .ok names ↔
      List.Forall₂ (fun identifier => Introduces tree (.identifier identifier))
        ((declarators declaration).flatMap boundBy) names := by
  have hread : declaredNames tree strict declaration =
      (variableIdentifiers declaration).mapM fun identifier => do
        let text ← tree.text identifier
        return ⟨text, false, identifier.start⟩ := by
    obtain ⟨info, children⟩ := declaration
    rcases @eq_of_isVariableDeclaration info.kind hkind with hkind | hkind <;>
      simp only [declaredNames, plainDeclaredNames, Node.kind, hkind] <;> rfl
  rw [hread, mapM_eq_ok, variableIdentifiers_eq]
  refine ⟨fun h => h.imp fun identifier entry hentry => ?_,
    fun h => h.imp fun identifier entry hentry => ?_⟩
  · obtain ⟨text, htext, hentry⟩ := bind_eq_ok.mp hentry
    cases hentry
    exact .identifier htext
  · cases hentry with
    | identifier htext => exact bind_eq_ok.mpr ⟨_, htext, rfl⟩

/--
A pattern binds the names at its binding places, each of them once and in the
order of reading, which is that of the source where nodes are laid out one
behind the other.  No binding place is in a default or a key, and in the tree of
a pattern all other places of names are.  A variable declaration introduces what
its declarators bind, one after the other.
-/
theorem pattern_binds_names (tree : ModuleTree) (strict : Bool) (pattern declaration : Node) :
    pattern.Lists (Binds pattern) (boundIdentifiers pattern) ∧
      (laidOut pattern = true →
        (boundIdentifiers pattern).Pairwise fun first second => first.start < second.start) ∧
      (∀ place, Binds pattern place → NameAt pattern place ∧ inExpression pattern place = false) ∧
      (IsPattern pattern → ∀ place, NameAt pattern place →
        inExpression pattern place = false → Binds pattern place) ∧
      (declaration.kind.isVariableDeclaration = true → ∀ names,
        declaredNames tree strict declaration = .ok names ↔
          List.Forall₂ (fun identifier => Introduces tree (.identifier identifier))
            ((declarators declaration).flatMap boundBy) names) := by
  refine ⟨lists_boundIdentifiers pattern, pairwise_boundIdentifiers pattern, fun place h => ?_,
    fun hpattern place hname houtside => ?_, fun hkind names => declaredNames_variables hkind⟩
  · exact ⟨h.nameAt, h.outside⟩
  · obtain ⟨node, hat, hnode⟩ := hname
    exact hpattern.binds hat hnode houtside

def innerPattern : Node :=
  made .objectPattern 16 31
    [mark (.other "\x7b") 16 17,
    made .objectAssignmentPattern 18 23 [(made .shorthandPattern 18 19 []).heldAs "left",
      mark .equals 20 21, (made .identifier 22 23 []).heldAs "right"],
    mark .comma 23 24,
    made .restPattern 25 29 [mark (.other "...") 25 28, made .identifier 28 29 []],
    mark (.other "\x7d") 30 31]

def outerPattern : Node :=
  made .objectPattern 6 37
    [mark (.other "\x7b") 6 7, made .shorthandPattern 8 9 [], mark .comma 9 10,
    made .pairPattern 11 35
      [(made (.other "computed_property_name") 11 14 [mark (.other "[") 11 12,
        made .identifier 12 13 [], mark (.other "]") 13 14]).heldAs "key",
      mark (.other ":") 14 15,
      (made .assignmentPattern 16 35 [innerPattern.heldAs "left", mark .equals 32 33,
        (made .identifier 34 35 []).heldAs "right"]).heldAs "value"],
    mark (.other "\x7d") 36 37]

def nestedDeclaration : Node :=
  made .lexicalDeclaration 0 49
    [(mark (.other "const") 0 5).heldAs "kind",
    made .variableDeclarator 6 41 [outerPattern.heldAs "name", mark .equals 38 39,
      (made .identifier 40 41 []).heldAs "value"],
    mark .comma 41 42,
    made .variableDeclarator 43 48 [(made .identifier 43 44 []).heldAs "name",
      mark .equals 45 46, (made .identifier 47 48 []).heldAs "value"],
    mark (.other ";") 48 49]

def nestedModule : ModuleTree :=
  ⟨"/proj/index.ts",
    Text.bytesOf "const \x7b a, [k]: \x7b b = c, ...d \x7d = e \x7d = f, g = h;",
    made .program 0 49 [nestedDeclaration]⟩

theorem isPattern_innerPattern : IsPattern (innerPattern.heldAs "left") := by
  refine .of_parts rfl (List.forall_mem_cons.mpr ⟨.inl (by decide),
    List.forall_mem_cons.mpr ⟨.inr ⟨rfl, ?withDefault⟩, List.forall_mem_cons.mpr ⟨.inl (by decide),
      List.forall_mem_cons.mpr ⟨.inr ⟨rfl, ?withRest⟩,
        List.forall_mem_singleton.mpr (.inl (by decide))⟩⟩⟩⟩)
  case withDefault => exact .held [] _ rfl rfl rfl (by decide) (.name rfl rfl)
  case withRest =>
    exact .of_parts rfl (List.forall_mem_cons.mpr ⟨.inl (by decide),
      List.forall_mem_singleton.mpr (.inr ⟨rfl, .name rfl rfl⟩)⟩)

theorem isPattern_outerPattern : IsPattern outerPattern := by
  refine .of_parts rfl (List.forall_mem_cons.mpr ⟨.inl (by decide),
    List.forall_mem_cons.mpr ⟨.inr ⟨rfl, ?name⟩, List.forall_mem_cons.mpr ⟨.inl (by decide),
      List.forall_mem_cons.mpr ⟨.inr ⟨rfl, ?pair⟩,
        List.forall_mem_singleton.mpr (.inl (by decide))⟩⟩⟩⟩)
  case name => exact .name rfl rfl
  case pair =>
    refine .held [_, _] _ rfl rfl rfl (by decide) ?_
    exact .held [] _ rfl rfl rfl (by decide) isPattern_innerPattern

/-- The rest of the inner pattern is bound, and the names in keys and defaults are not. -/
theorem pattern_binds_names_nestedDeclaration :
    IsPattern outerPattern ∧ laidOut outerPattern = true ∧ Binds outerPattern [3, 2, 0, 3, 1] ∧
      (boundIdentifiers outerPattern).Pairwise (fun first second => first.start < second.start) ∧
      nestedDeclaration.kind.isVariableDeclaration = true ∧
      declaredNames nestedModule true nestedDeclaration =
        .ok [⟨"a", false, 8⟩, ⟨"b", false, 18⟩, ⟨"d", false, 28⟩, ⟨"g", false, 43⟩] := by
  have hlaid : laidOut outerPattern = true := by decide +kernel
  have hkind : nestedDeclaration.kind.isVariableDeclaration = true := rfl
  obtain ⟨-, hordered, -, hbinds, hnames⟩ :=
    pattern_binds_names nestedModule true outerPattern nestedDeclaration
  refine ⟨isPattern_outerPattern, hlaid, ?_, hordered hlaid, hkind, (hnames hkind _).mpr ?_⟩
  · exact hbinds isPattern_outerPattern _ ⟨_, rfl, rfl⟩ (by decide +kernel)
  · have hbound : (declarators nestedDeclaration).flatMap boundBy =
        [made .shorthandPattern 8 9 [], (made .shorthandPattern 18 19 []).heldAs "left",
          made .identifier 28 29 [], (made .identifier 43 44 []).heldAs "name"] := rfl
    rw [hbound]
    exact .cons (.identifier (by decide +kernel)) (.cons (.identifier (by decide +kernel))
      (.cons (.identifier (by decide +kernel)) (.cons (.identifier (by decide +kernel)) .nil)))

end FlatExports.Module
