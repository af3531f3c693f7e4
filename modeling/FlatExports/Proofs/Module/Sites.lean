import FlatExports.Proofs.Module.BoundIdentifiers
import FlatExports.Proofs.Module.Scan

/-!
The sites of a module: its places that export something.

A site is a default statement, a name that an inline declaration introduces, a
specifier of an export clause, a namespace or a wildcard.  In a tree whose nodes
lie inside their parents, one behind the other, no two sites start at the same
place, and they start in the order in which the tree has them.
-/

namespace FlatExports

namespace Module

open FlatExports.Syntax
open FlatExports.Syntax.Node (Below)

/-! ## Sites -/

inductive Site where
  | default (statement : Node)
  | declared (declaration name : Node)
  | identifier (node : Node)
  | specifier (statement node : Node)
  | namespaced (statement : Node)
  | wildcard (statement : Node)

namespace Site

def start : Site → Nat
  | default statement => statement.start
  | declared declaration _ => declaration.start
  | identifier node => node.start
  | specifier _ node => node.start
  | namespaced statement => statement.start
  | wildcard statement => statement.start

def node : Site → Node
  | default statement => statement
  | declared declaration _ => declaration
  | identifier node => node
  | specifier _ node => node
  | namespaced statement => statement
  | wildcard statement => statement

theorem start_eq (site : Site) : site.start = site.node.start := by
  cases site <;> rfl

end Site

def plainIntroduced (node : Node) : List Site :=
  if node.kind.isTypeDeclaration || node.kind.isNamedDeclaration || node.kind.isNamedExpression then
    (node.child? "name").toList.map (.declared node)
  else if node.kind.isVariableDeclaration then (variableIdentifiers node).map .identifier
  else if node.kind.isModuleDeclaration then
    ((node.child? "name").filter (·.kind ≠ .string)).toList.map (.declared node)
  else []

mutual

def introduced : Node → List Site
  | ⟨info, children⟩ =>
      if info.kind = .ambientDeclaration then introducedAmong children
      else plainIntroduced ⟨info, children⟩

def introducedAmong : List Node → List Site
  | [] => []
  | child :: rest =>
      (if child.info.named && child.info.kind.isLocalDeclaration then introduced child else []) ++
        introducedAmong rest

end

def clauseSpecifiers (clause : Node) : List Node :=
  clause.namedChildren.filter (·.kind = .exportSpecifier)

/-- The sites of an export statement, by the first form that it has. -/
def sitesOf (statement : Node) : List Site :=
  if statement.hasWord .defaultWord then [.default statement]
  else
    match statement.child? "declaration" with
    | some declaration => introduced declaration
    | none =>
        if (sourceNode? statement).isSome && (statement.namedChild? .namespaceExport).isSome then
          [.namespaced statement]
        else
          match statement.namedChild? .exportClause with
          | some clause => (clauseSpecifiers clause).map (.specifier statement)
          | none =>
              if (sourceNode? statement).isSome && statement.hasWord .star then
                [.wildcard statement]
              else []

def sites (tree : ModuleTree) : List Site := (exportStatements tree).flatMap sitesOf

/-! ## Nodes of sites -/

variable {tree : ModuleTree} {statement declaration node clause : Node} {site : Site}

theorem introducedAmong_eq (children : List Node) : introducedAmong children =
    children.flatMap fun child =>
      if child.info.named && child.info.kind.isLocalDeclaration then introduced child else [] := by
  induction children with
  | nil => rfl
  | cons child rest ih => rw [introducedAmong, ih, List.flatMap_cons]

theorem introduced_eq (node : Node) : introduced node =
    if node.kind = .ambientDeclaration then node.children.flatMap fun child =>
      if child.info.named && child.info.kind.isLocalDeclaration then introduced child else []
    else plainIntroduced node := by
  obtain ⟨info, children⟩ := node
  rw [introduced, introducedAmong_eq]
  rfl

theorem below_plainIntroduced (hsite : site ∈ plainIntroduced node) : Below node site.node := by
  have hnamed (name? : Option Node) (hsite : site ∈ name?.toList.map (.declared node)) :
      Below node site.node := by
    obtain ⟨name, -, rfl⟩ := List.mem_map.mp hsite
    exact .refl
  unfold plainIntroduced at hsite
  split at hsite
  · exact hnamed _ hsite
  split at hsite
  · obtain ⟨identifier, hidentifier, rfl⟩ := List.mem_map.mp hsite
    exact below_variableIdentifiers hidentifier
  split at hsite
  · exact hnamed _ hsite
  · cases hsite

theorem below_introduced (node : Node) : ∀ site ∈ introduced node, Below node site.node := by
  induction node using Node.children_induction with
  | node node ih =>
      intro site hsite
      rw [introduced_eq] at hsite
      split at hsite
      · obtain ⟨child, hchild, hsite⟩ := List.mem_flatMap.mp hsite
        split at hsite
        · exact (Below.child .refl hchild).trans (ih child hchild site hsite)
        · cases hsite
      · exact below_plainIntroduced hsite

theorem clauseSpecifiers_sublist : (clauseSpecifiers clause).Sublist clause.children :=
  List.filter_sublist.trans List.filter_sublist

theorem below_sitesOf (hsite : site ∈ sitesOf statement) : Below statement site.node := by
  have hhere (other : Site) (hother : other.node = statement) (hsite : site ∈ [other]) :
      Below statement site.node := by
    rw [List.mem_singleton.mp hsite, hother]
    exact .refl
  unfold sitesOf at hsite
  split at hsite
  · exact hhere _ rfl hsite
  split at hsite
  · rename_i declaration hdeclaration
    exact (Below.held .refl hdeclaration).trans (below_introduced declaration site hsite)
  split at hsite
  · exact hhere _ rfl hsite
  split at hsite
  · rename_i clause hclause
    obtain ⟨specifier, hspecifier, rfl⟩ := List.mem_map.mp hsite
    exact (Below.namedChild .refl hclause).child (clauseSpecifiers_sublist.subset hspecifier)
  split at hsite
  · exact hhere _ rfl hsite
  · cases hsite

/-! ## The order of sites -/

theorem pairwise_plainIntroduced (hlaid : laidOut node = true) :
    (plainIntroduced node).Pairwise fun first second => first.node.start < second.node.start := by
  have hnamed (name? : Option Node) : (name?.toList.map (Site.declared node)).Pairwise
      fun first second => first.node.start < second.node.start := by
    cases name? with
    | none => exact .nil
    | some name => exact List.pairwise_singleton _ _
  unfold plainIntroduced
  split
  · exact hnamed _
  split
  · exact List.pairwise_map.mpr (pairwise_variableIdentifiers hlaid)
  split
  · exact hnamed _
  · exact .nil

theorem pairwise_introduced (node : Node) (hlaid : laidOut node = true) :
    (introduced node).Pairwise fun first second => first.node.start < second.node.start := by
  induction node using Node.children_induction with
  | node node ih =>
      rw [introduced_eq]
      split
      · refine Node.pairwise_flatMap Site.node hlaid (List.Sublist.refl _)
          (fun child _ site hsite => ?_) fun child hchild hlaid' => ?_
        · split at hsite
          · exact below_introduced child site hsite
          · cases hsite
        · split
          · exact ih child hchild hlaid'
          · exact .nil
      · exact pairwise_plainIntroduced hlaid

theorem pairwise_sitesOf (hlaid : laidOut statement = true) :
    (sitesOf statement).Pairwise fun first second => first.node.start < second.node.start := by
  unfold sitesOf
  split
  · exact List.pairwise_singleton _ _
  split
  · rename_i declaration hdeclaration
    exact pairwise_introduced declaration
      (Node.laidOut_child hlaid (Node.mem_children_of_child? hdeclaration))
  split
  · exact List.pairwise_singleton _ _
  split
  · rename_i clause hclause
    have hlaid' := Node.laidOut_child hlaid (Node.mem_children_of_namedChild? hclause)
    exact List.pairwise_map.mpr
      ((Node.pairwise_start_children hlaid').sublist clauseSpecifiers_sublist)
  split
  · exact List.pairwise_singleton _ _
  · exact .nil

theorem exportStatements_sublist : (exportStatements tree).Sublist tree.root.children :=
  List.filter_sublist.trans List.filter_sublist

theorem pairwise_start_sites (hlaid : laidOut tree.root = true) :
    (sites tree).Pairwise fun first second => first.start < second.start := by
  simp only [Site.start_eq]
  exact Node.pairwise_flatMap Site.node hlaid exportStatements_sublist
    (fun _ _ _ hsite => below_sitesOf hsite) fun _ _ hlaid' => pairwise_sitesOf hlaid'

end Module

end FlatExports
