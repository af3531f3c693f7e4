import FlatExports.Proofs.Module.Unbound
import Mathlib.Data.List.Perm.Basic

/-!
Hoisting.

A name is bound wherever its import or its declarations stand.  Imports replace
each other in their order, but declarations are taken together, so a module
exports the same when its declarations move, before or behind what exports them.
-/

namespace FlatExports

/-! ## Outcomes in another order -/

section

variable {α β : Type} {related : α → α → Prop} {related' : β → β → Prop} {failure : Failure}
  {first second third : Except Failure α}

inductive Matches (related : α → α → Prop) : Except Failure α → Except Failure α → Prop
  | ok {value other : α} (h : related value other) : Matches related (.ok value) (.ok other)
  | error (failure : Failure) : Matches related (.error failure) (.error failure)

theorem Matches.trans (htrans : ∀ {a b c}, related a b → related b c → related a c)
    (h : Matches related first second) (h' : Matches related second third) :
    Matches related first third := by
  cases h with
  | error => exact h'
  | ok hfirst =>
      cases h' with
      | ok hsecond => exact .ok (htrans hfirst hsecond)

theorem Matches.bind {next next' : α → Except Failure β} (h : Matches related first second)
    (hnext : ∀ value other, related value other → Matches related' (next value) (next' other)) :
    Matches related' (first >>= next) (second >>= next') := by
  cases h with
  | ok h => exact hnext _ _ h
  | error failure => exact .error failure

theorem Matches.bind_same {outcome : Except Failure β} {next next' : β → Except Failure α}
    (hnext : ∀ value, Matches related (next value) (next' value)) :
    Matches related (outcome >>= next) (outcome >>= next') := by
  cases outcome with
  | ok value => exact hnext value
  | error failure => exact .error failure

theorem Matches.bind_eq {next next' : α → Except Failure β} (h : Matches related first second)
    (hnext : ∀ value other, related value other → next value = next' other) :
    (first >>= next) = (second >>= next') := by
  cases h with
  | ok h => exact hnext _ _ h
  | error failure => rfl

theorem Matches.mapM {change : β → Except Failure α} {inputs others : List β}
    (hfails : ∀ input, OnlyFails (· = failure) (change input)) (hperm : inputs.Perm others) :
    Matches List.Perm (inputs.mapM change) (others.mapM change) := by
  induction hperm with
  | nil => exact .ok .nil
  | cons input _ ih =>
      rw [List.mapM_cons, List.mapM_cons]
      exact .bind_same fun value => ih.bind fun _ _ hrest => .ok (hrest.cons value)
  | swap first second rest =>
      simp only [List.mapM_cons]
      cases hfirst : change first with
      | error failure =>
          obtain rfl := hfails first failure hfirst
          cases hsecond : change second with
          | error failure =>
              obtain rfl := hfails second failure hsecond
              exact .error _
          | ok => exact .error _
      | ok value =>
          cases hsecond : change second with
          | error => exact .error _
          | ok other =>
              cases rest.mapM change with
              | error failure => exact .error failure
              | ok values => exact .ok (.swap value other values)
  | trans _ _ ih ih' => exact ih.trans List.Perm.trans ih'

end

namespace Module

open FlatExports.Syntax

variable {tree other : ModuleTree} {bindings bindings' : Bindings} {name called : String}
  {typeOnly : Bool} {names names' : List DeclaredName} {strict : Bool}

/-! ## Declarations taken together -/

def declaredOver : Option Binding → Bool → Option Binding
  | none, typeOnly => some (.declared typeOnly)
  | some (.declared before), typeOnly => some (.declared (before && typeOnly))
  | some binding, _ => some binding

instance : RightCommutative declaredOver where
  right_comm before first second := by
    cases before with
    | none => simp [declaredOver, Bool.and_comm]
    | some binding => cases binding <;> simp [declaredOver, Bool.and_right_comm]

namespace Bindings

theorem find?_declare : (bindings.declare name typeOnly).find? called =
    if called = name then declaredOver (bindings.find? called) typeOnly
    else bindings.find? called := by
  unfold declare
  by_cases hname : called = name
  · subst hname
    rw [if_pos rfl]
    split <;> simp_all [find?_put, declaredOver]
  · rw [if_neg hname]
    split <;> simp [find?_put, hname]

theorem find?_foldl_declare :
    (names.foldl (fun bindings entry => bindings.declare entry.name entry.typeOnly)
      bindings).find? called =
      ((names.filter (·.name = called)).map (·.typeOnly)).foldl declaredOver
        (bindings.find? called) := by
  induction names generalizing bindings with
  | nil => rfl
  | cons entry rest ih =>
      rw [List.foldl_cons, ih, find?_declare]
      by_cases hname : called = entry.name
      · simp [hname]
      · have hother : ¬ entry.name = called := fun h => hname h.symm
        simp [hname, hother]

theorem find?_foldl_declare_perm (hperm : names.Perm names') :
    (names.foldl (fun bindings entry => bindings.declare entry.name entry.typeOnly)
      bindings).find? called =
    (names'.foldl (fun bindings entry => bindings.declare entry.name entry.typeOnly)
      bindings).find? called := by
  rw [find?_foldl_declare, find?_foldl_declare]
  exact ((hperm.filter _).map _).foldl_eq _

end Bindings

theorem bindPending_congr {pending : List PendingExport}
    (hbindings : ∀ name, bindings.find? name = bindings'.find? name) :
    bindPending tree bindings pending = bindPending tree bindings' pending := by
  simp only [bindPending, hbindings]

theorem collectBindings_perm {imports declarations declarations' : List Node}
    (hperm : declarations.Perm declarations') :
    Matches (fun first second => ∀ name, first.find? name = second.find? name)
      (collectBindings tree imports declarations)
      (collectBindings tree imports declarations') := by
  have hfails (node : Node) : OnlyFails (· = .brokenText) (declaredNames tree false node) :=
    declaredNames_fails (fun _ _ => text_fails) (by simp) node .refl
  unfold collectBindings
  refine .bind_same fun imported => ?_
  refine (Matches.mapM hfails hperm).bind fun declared declared' hdeclared => ?_
  exact .ok fun name => Bindings.find?_foldl_declare_perm hdeclared.flatten

/-! ## Trees with the same nodes -/

section

variable {root : Node}

mutual

theorem declaredNames_withRoot (strict : Bool) : ∀ (node : Node),
    declaredNames { tree with root := root } strict node = declaredNames tree strict node
  | ⟨info, children⟩ => by
      rw [declaredNames, declaredNames, ambientNames_withRoot strict children]
      rfl

theorem ambientNames_withRoot (strict : Bool) : ∀ (children : List Node),
    ambientNames { tree with root := root } strict children = ambientNames tree strict children
  | [] => by rw [ambientNames, ambientNames]
  | child :: rest => by
      rw [ambientNames, ambientNames, declaredNames_withRoot strict child,
        ambientNames_withRoot strict rest]

end

theorem readExport_withRoot (statement : Node) :
    readExport { tree with root := root } statement = readExport tree statement := by
  unfold readExport readDeclaration
  simp only [declaredNames_withRoot]
  rfl

theorem collectBindings_withRoot (imports declarations : List Node) :
    collectBindings { tree with root := root } imports declarations =
      collectBindings tree imports declarations := by
  have hnames : declaredNames { tree with root := root } false = declaredNames tree false :=
    funext (declaredNames_withRoot false)
  rw [collectBindings, collectBindings, hnames]
  rfl

end

/-! ## Reordered modules -/

/-- Export statements among themselves and imports among themselves stand in one order, the other
nodes on the top level in any. -/
structure Reordered (tree other : ModuleTree) : Prop where
  file : other.file = tree.file
  source : other.source = tree.source
  nodes : other.root.namedChildren.Perm tree.root.namedChildren
  exports : exportStatements other = exportStatements tree
  imports : other.root.namedChildren.filter (·.kind = .importStatement) =
    tree.root.namedChildren.filter (·.kind = .importStatement)

namespace Reordered

variable (h : Reordered tree other)

include h

theorem eq_withRoot : other = { tree with root := other.root } := by
  obtain ⟨file, source, root⟩ := other
  obtain ⟨rfl, rfl, -, -, -⟩ := h
  rfl

theorem bindingsOf : Matches (fun first second => ∀ name, first.find? name = second.find? name)
    (bindingsOf other) (bindingsOf tree) := by
  rw [Module.bindingsOf, Module.bindingsOf, h.imports, h.eq_withRoot, collectBindings_withRoot]
  exact collectBindings_perm (h.nodes.flatMap_right _)

theorem bindPending_eq : bindPending other = bindPending tree := by
  rw [h.eq_withRoot]
  rfl

theorem readExport_eq : readExport other = readExport tree := by
  rw [h.eq_withRoot]
  exact funext readExport_withRoot

omit h in
theorem of_rotated {count : Nat}
    (hfront : ∀ node ∈ tree.root.children.take count, node.kind ≠ .importStatement)
    (hrest : ∀ node ∈ tree.root.children.drop count, node.kind ≠ .exportStatement) :
    Reordered tree { tree with root :=
      ⟨tree.root.info, tree.root.children.drop count ++ tree.root.children.take count⟩ } := by
  have hchildren := List.take_append_drop count tree.root.children
  have hnone {nodes : List Node} {kind : Kind} (h : ∀ node ∈ nodes, node.kind ≠ kind) :
      (nodes.filter (·.info.named)).filter (·.kind = kind) = [] := by
    rw [List.filter_eq_nil_iff]
    exact fun node hnode => by simpa using h node (List.mem_filter.mp hnode).1
  refine ⟨rfl, rfl, ?_, ?_, ?_⟩
  · exact (List.perm_append_comm.trans (.of_eq hchildren)).filter _
  · simp only [exportStatements, Node.namedChildren]
    rw [List.filter_append, List.filter_append, hnone hrest, List.nil_append]
    conv_rhs => rw [← hchildren, List.filter_append, List.filter_append, hnone hrest,
      List.append_nil]
  · simp only [Node.namedChildren]
    rw [List.filter_append, List.filter_append, hnone hfront, List.append_nil]
    conv_rhs => rw [← hchildren, List.filter_append, List.filter_append, hnone hfront,
      List.nil_append]

end Reordered

/--
A scan gives the same exports, or fails in the same way, in whatever order the
declarations of a module stand, before or behind what exports or imports them.
-/
theorem scan_of_reordered (h : Reordered tree other) : scan other = scan tree := by
  have hexports : other.root.namedChildren.filter (·.kind = .exportStatement) =
      tree.root.namedChildren.filter (·.kind = .exportStatement) := h.exports
  unfold scan
  dsimp only
  rw [hexports, h.readExport_eq, h.bindPending_eq, h.file, h.source]
  refine bind_congr fun contributions => ?_
  split
  · rfl
  · exact h.bindingsOf.bind_eq fun bindings bindings' hbindings => by
      rw [bindPending_congr hbindings]

def lateBindings : ModuleTree :=
  moduleOf ("export { T, a, b as c }; interface T {} function b() {} " ++
    "import { a } from './x'; import a from './y'; const T = 1;")

def earlyBindings : ModuleTree :=
  { lateBindings with root := ⟨lateBindings.root.info,
    lateBindings.root.children.drop 3 ++ lateBindings.root.children.take 3⟩ }

theorem scan_of_reordered_lateBindings :
    Reordered lateBindings earlyBindings ∧ scan earlyBindings = scan lateBindings ∧
      (scan lateBindings).toOption.map (·.surface) = some
        ⟨[⟨.named, some "T", false, 9, some "T"⟩, ⟨.named, some "c", false, 15, some "b"⟩],
          [namedEdge "./y" "default" "a" false 12]⟩ := by
  have hkinds : (∀ node ∈ lateBindings.root.children.take 3, node.kind ≠ .importStatement) ∧
      ∀ node ∈ lateBindings.root.children.drop 3, node.kind ≠ .exportStatement := by
    decide +kernel
  have hreordered : Reordered lateBindings earlyBindings := .of_rotated hkinds.1 hkinds.2
  exact ⟨hreordered, scan_of_reordered hreordered, by decide +kernel⟩

end Module

end FlatExports
