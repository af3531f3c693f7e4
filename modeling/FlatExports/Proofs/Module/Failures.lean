import FlatExports.Proofs.Module.BoundIdentifiers
import FlatExports.Proofs.Module.Scan

/-!
How reading a tree can fail.

Whatever goes wrong with a statement is a text that cannot be read, a child
that is missing or a construct that is not supported; none of these depends on
another module.  So where texts can be read and names stand where they are
expected, only unsupported constructs are left, and bindings never fail.
-/

namespace FlatExports

/-! ## Outcomes that fail in expected ways -/

section

variable {α β : Type} {allowed allowed' : Failure → Prop} {outcome : Except Failure α}
  {next : α → Except Failure β} {failure : Failure} {value : α}

/-- If an outcome is a failure, then an allowed one. -/
def OnlyFails (allowed : Failure → Prop) (outcome : Except Failure α) : Prop :=
  ∀ failure, outcome = .error failure → allowed failure

@[simp] theorem onlyFails_ok : OnlyFails allowed (.ok value) := by
  simp [OnlyFails]

@[simp] theorem onlyFails_error :
    OnlyFails allowed (.error failure : Except Failure α) ↔ allowed failure := by
  simp [OnlyFails]

theorem OnlyFails.bind (h : OnlyFails allowed outcome)
    (hnext : ∀ value, outcome = .ok value → OnlyFails allowed (next value)) :
    OnlyFails allowed (outcome >>= next) := by
  cases outcome with
  | ok value => exact hnext value rfl
  | error failure => exact onlyFails_error.mpr (onlyFails_error.mp h)

theorem OnlyFails.mono (h : OnlyFails allowed outcome)
    (himp : ∀ failure, allowed failure → allowed' failure) : OnlyFails allowed' outcome :=
  fun failure hfailure => himp failure (h failure hfailure)

theorem exists_ok_of_onlyFails (h : OnlyFails (fun _ => False) outcome) :
    ∃ value, outcome = .ok value := by
  cases outcome with
  | ok value => exact ⟨value, rfl⟩
  | error failure => simp at h

theorem OnlyFails.mapM {inputs : List β} {change : β → Except Failure α}
    (h : ∀ input ∈ inputs, OnlyFails allowed (change input)) :
    OnlyFails allowed (inputs.mapM change) := by
  induction inputs with
  | nil => simp [pure, Except.pure]
  | cons input rest ih =>
      rw [List.forall_mem_cons] at h
      rw [List.mapM_cons]
      exact h.1.bind fun _ _ => (ih h.2).bind fun _ _ => onlyFails_ok

end

namespace Module

open FlatExports.Syntax
open FlatExports.Syntax.Node (Below)

variable {tree : ModuleTree} {allowed : Failure → Prop} {node statement declaration : Node}

theorem below_sourceNode? {ancestor source : Node} (h : Below ancestor statement)
    (hsource : sourceNode? statement = some source) : Below ancestor source := by
  rcases Option.or_eq_some_iff.mp hsource with hfield | ⟨-, hstring⟩
  · exact h.held hfield
  · exact h.child (List.mem_of_find?_eq_some hstring)

def HasName (specifier : Node) : Prop :=
  (specifier.child? "name").isSome = true ∨
    ∃ part ∈ specifier.children, isSpecifierMark part.kind = false

instance (specifier : Node) : Decidable (HasName specifier) :=
  inferInstanceAs (Decidable (_ ∨ _))

theorem text_fails : OnlyFails (· = .brokenText) (tree.text node) := by
  unfold ModuleTree.text
  split <;> simp

/-- Reading the nodes of a tree fails in allowed ways only. -/
structure Readable (tree : ModuleTree) (allowed : Failure → Prop) : Prop where
  text : ∀ node, Below tree.root node → OnlyFails allowed (tree.text node)
  specifier : ∀ node, Below tree.root node →
    node.kind = .exportSpecifier ∨ node.kind = .importSpecifier →
      HasName node ∨ allowed .missingChild
  namespaceExport : ∀ node, Below tree.root node → node.kind = .namespaceExport →
    node.namedChildren ≠ [] ∨ allowed .missingChild

def isReadable (tree : ModuleTree) (node : Node) : Bool :=
  (tree.text node).toOption.isSome &&
    decide (node.kind = .exportSpecifier ∨ node.kind = .importSpecifier → HasName node) &&
    decide (node.kind = .namespaceExport → node.namedChildren.isEmpty = false)

theorem Readable.of_everyNode (h : tree.root.everyNode (isReadable tree) = true) :
    Readable tree allowed := by
  have hnode (node : Node) (hbelow : Below tree.root node) := hbelow.of_everyNode h
  simp only [isReadable, Bool.and_eq_true, decide_eq_true_eq] at hnode
  refine ⟨fun node hbelow => ?_, fun node hbelow hkind => .inl ((hnode node hbelow).1.2 hkind),
    fun node hbelow hkind => .inl ?_⟩
  · obtain ⟨text, htext⟩ := Option.isSome_iff_exists.mp (hnode node hbelow).1.1
    rw [eq_ok_of_toOption htext]
    exact onlyFails_ok
  · exact List.isEmpty_eq_false_iff.mp ((hnode node hbelow).2 hkind)

theorem Readable.mono {allowed' : Failure → Prop} (h : Readable tree allowed)
    (himp : ∀ failure, allowed failure → allowed' failure) : Readable tree allowed' where
  text node hnode := (h.text node hnode).mono himp
  specifier node hnode hkind := (h.specifier node hnode hkind).imp_right (himp _)
  namespaceExport node hnode hkind := (h.namespaceExport node hnode hkind).imp_right (himp _)

section

variable (hreadable : Readable tree allowed)

include hreadable

theorem moduleName_fails (hnode : Below tree.root node) :
    OnlyFails allowed (tree.moduleName node) :=
  (hreadable.text node hnode).bind fun _ _ => onlyFails_ok

theorem specifierNames_fails (hnode : Below tree.root node)
    (hkind : node.kind = .exportSpecifier ∨ node.kind = .importSpecifier) :
    OnlyFails allowed (specifierNames tree node) := by
  unfold specifierNames
  extract_lets namesOf
  have hnames (name : Node) (other? : Option Node) (hname : Below tree.root name)
      (hother : ∀ other ∈ other?, Below tree.root other) :
      OnlyFails allowed (namesOf (name, other?)) := by
    refine (moduleName_fails hreadable hname).bind fun first _ => ?_
    cases other? with
    | none => exact onlyFails_ok
    | some other =>
        exact (moduleName_fails hreadable (hother other rfl)).bind fun _ _ => onlyFails_ok
  split
  · rename_i hfield
    exact hnames _ _ (hnode.held hfield) fun other hother => hnode.held hother
  · rename_i hfield
    split
    · rename_i hmarks
      refine onlyFails_error.mpr ((hreadable.specifier node hnode hkind).resolve_left ?_)
      rintro (hname | ⟨part, hpart, hmark⟩)
      · simp [hfield] at hname
      · simpa [hmark] using List.filter_eq_nil_iff.mp hmarks part hpart
    · rename_i name others hmarks
      have hall (part : Node) (hpart : part ∈ name :: others) : Below tree.root part :=
        hnode.child (List.mem_filter.mp (hmarks ▸ hpart)).1
      exact hnames _ _ (hall name List.mem_cons_self) fun other hother =>
        hall other (List.mem_cons_of_mem _ (List.mem_of_mem_head? hother))

/-! ## Imports -/

theorem clauseBindings_fails {specifier : String} {typeOnly : Bool}
    (hnode : Below tree.root node) :
    OnlyFails allowed (clauseBindings tree specifier typeOnly node) := by
  unfold clauseBindings
  split
  · exact (hreadable.text node hnode).bind fun _ _ => onlyFails_ok
  · split
    · exact onlyFails_ok
    · rename_i name hname
      exact (hreadable.text name (hnode.namedChild hname)).bind fun _ _ => onlyFails_ok
  · refine OnlyFails.mapM fun part hpart => ?_
    obtain ⟨hpart, hkind⟩ := List.mem_filter.mp hpart
    exact (specifierNames_fails hreadable (hnode.named hpart) (.inr (by simpa using hkind))).bind
      fun _ _ => onlyFails_ok
  · exact onlyFails_ok

theorem importBindings_fails (hstatement : Below tree.root statement) :
    OnlyFails allowed (importBindings tree statement) := by
  unfold importBindings
  split
  · rename_i source clause hsource hclause
    refine (moduleName_fails hreadable (below_sourceNode? hstatement hsource)).bind
      fun specifier _ => OnlyFails.bind (OnlyFails.mapM fun part hpart => ?_)
        fun _ _ => onlyFails_ok
    exact clauseBindings_fails hreadable ((hstatement.namedChild hclause).named hpart)
  · exact onlyFails_ok

end

/-! ## Declarations -/

theorem plainDeclaredNames_fails {strict : Bool} {ancestor : Node}
    (htext : ∀ node, Below ancestor node → OnlyFails allowed (tree.text node))
    (hstrict : strict = true → ∀ construct, allowed (.unsupported tree.file construct))
    (hnode : Below ancestor node) :
    OnlyFails allowed (plainDeclaredNames tree strict node) := by
  have hrefused (construct : Construct) : OnlyFails allowed
      (if strict then .error (.unsupported tree.file construct) else .ok [] :
        Except Failure (List DeclaredName)) := by
    split
    · rename_i h
      exact onlyFails_error.mpr (hstrict h construct)
    · exact onlyFails_ok
  have hone (name : Node) (hname : Below ancestor name) (entryOf : String → DeclaredName) :
      OnlyFails allowed (do let text ← tree.text name; return [entryOf text]) :=
    (htext name hname).bind fun _ _ => onlyFails_ok
  unfold plainDeclaredNames
  dsimp only
  split
  · split
    · exact hrefused _
    · rename_i hname
      exact hone _ (hnode.held hname) _
  split
  · split
    · exact onlyFails_ok
    · rename_i hname
      exact hone _ (hnode.held hname) _
  split
  · exact OnlyFails.mapM fun identifier hidentifier =>
      (htext identifier (hnode.trans (below_variableIdentifiers hidentifier))).bind
        fun _ _ => onlyFails_ok
  split
  · split
    · split
      · rename_i h
        exact (htext node hnode).bind fun _ _ => onlyFails_error.mpr (hstrict h _)
      · exact onlyFails_ok
    · rename_i hname
      exact hone _ (hnode.held (Option.filter_eq_some_iff.mp hname).1) _
  · exact hrefused _

mutual

theorem declaredNames_fails {strict : Bool} {ancestor : Node}
    (htext : ∀ node, Below ancestor node → OnlyFails allowed (tree.text node))
    (hstrict : strict = true → ∀ construct, allowed (.unsupported tree.file construct)) :
    ∀ (node : Node), Below ancestor node → OnlyFails allowed (declaredNames tree strict node)
  | ⟨info, children⟩, hnode => by
      rw [declaredNames]
      split
      · exact ambientNames_fails htext hstrict children fun child hchild => hnode.child hchild
      · exact plainDeclaredNames_fails htext hstrict hnode

theorem ambientNames_fails {strict : Bool} {ancestor : Node}
    (htext : ∀ node, Below ancestor node → OnlyFails allowed (tree.text node))
    (hstrict : strict = true → ∀ construct, allowed (.unsupported tree.file construct)) :
    ∀ (children : List Node), (∀ child ∈ children, Below ancestor child) →
      OnlyFails allowed (ambientNames tree strict children)
  | [], _ => by
      rw [ambientNames]
      exact onlyFails_ok
  | child :: rest, hall => by
      rw [List.forall_mem_cons] at hall
      rw [ambientNames]
      have hrest := ambientNames_fails htext hstrict rest hall.2
      split
      · exact (declaredNames_fails htext hstrict child hall.1).bind fun _ _ => hrest.bind
          fun _ _ => onlyFails_ok
      · exact onlyFails_ok.bind fun _ _ => hrest.bind fun _ _ => onlyFails_ok

end

theorem below_exportedNode? {ancestor : Node} (h : Below ancestor statement)
    (hdeclaration : exportedNode? statement = some declaration) : Below ancestor declaration := by
  rcases Option.or_eq_some_iff.mp hdeclaration with hfield | ⟨-, hfield⟩
  · exact h.held hfield
  · exact h.held hfield

theorem below_declarationsOf {ancestor : Node} (h : Below ancestor node)
    (hdeclaration : declaration ∈ declarationsOf node) : Below ancestor declaration := by
  unfold declarationsOf at hdeclaration
  split at hdeclaration
  · exact below_exportedNode? h (by simpa using hdeclaration)
  · exact h.named (List.mem_filter.mp hdeclaration).1
  · split at hdeclaration
    · rwa [List.mem_singleton.mp hdeclaration]
    · cases hdeclaration

theorem bindingsOf_fails (hreadable : Readable tree allowed) :
    OnlyFails allowed (bindingsOf tree) := by
  have hroot : Below tree.root tree.root := .refl
  refine OnlyFails.bind (OnlyFails.mapM fun statement hstatement => ?_) fun _ _ =>
    OnlyFails.bind (OnlyFails.mapM fun declaration hdeclaration => ?_) fun _ _ => onlyFails_ok
  · exact importBindings_fails hreadable (hroot.named (List.mem_filter.mp hstatement).1)
  · obtain ⟨node, hnode, hdeclaration⟩ := List.mem_flatMap.mp hdeclaration
    exact declaredNames_fails hreadable.text (by simp) declaration
      (below_declarationsOf (hroot.named hnode) hdeclaration)

/-! ## Export statements -/

section

variable (hreadable : Readable tree allowed)
  (hunsupported : ∀ construct, allowed (.unsupported tree.file construct))

include hreadable

theorem readClause_fails {clause : Node} {specifier? : Option String} {typeOnly : Bool}
    (hclause : Below tree.root clause) :
    OnlyFails allowed (readClause tree clause specifier? typeOnly) := by
  unfold readClause
  refine OnlyFails.bind (OnlyFails.mapM fun specifier hspecifier => ?_) fun _ _ => ?_
  · obtain ⟨hspecifier, hkind⟩ := List.mem_filter.mp hspecifier
    exact (specifierNames_fails hreadable (hclause.named hspecifier)
      (.inl (by simpa using hkind))).bind fun _ _ => onlyFails_ok
  · split <;> exact onlyFails_ok

include hunsupported

theorem readDeclaration_fails (hstatement : Below tree.root statement)
    (hdeclaration : Below tree.root declaration) :
    OnlyFails allowed (readDeclaration tree statement declaration) := by
  unfold readDeclaration
  split
  · exact (hreadable.text statement hstatement).bind fun _ _ =>
      onlyFails_error.mpr (hunsupported _)
  · exact (declaredNames_fails hreadable.text (fun _ => hunsupported) declaration hdeclaration).bind
      fun _ _ => onlyFails_ok

theorem readReExport_fails (hstatement : Below tree.root statement) :
    OnlyFails allowed (readReExport tree statement) := by
  have hrefused (construct : String → Construct) : OnlyFails allowed (do
      throw (.unsupported tree.file (construct (← tree.text statement))) :
        Except Failure Contribution) :=
    (hreadable.text statement hstatement).bind fun _ _ => onlyFails_error.mpr (hunsupported _)
  have hspecifier : OnlyFails allowed ((sourceNode? statement).mapM tree.moduleName) := by
    cases hsource : sourceNode? statement with
    | none => exact onlyFails_ok
    | some source =>
        exact (moduleName_fails hreadable (below_sourceNode? hstatement hsource)).bind
          fun _ _ => onlyFails_ok
  unfold readReExport
  dsimp only
  split
  · exact hrefused _
  split
  · exact hrefused _
  refine hspecifier.bind fun specifier? hread => ?_
  split
  · rename_i hnamespace
    have hnode := hstatement.namedChild hnamespace
    split
    · rename_i name hname
      exact (moduleName_fails hreadable (hnode.named (List.mem_of_getLast? hname))).bind
        fun _ _ => onlyFails_ok
    · rename_i hnone
      have hkind := Node.kind_of_namedChild? hnamespace
      exact onlyFails_error.mpr ((hreadable.namespaceExport _ hnode hkind).resolve_left
        fun hne => hnone _ (List.getLast?_eq_some_getLast hne))
  split
  · rename_i clause hclause
    exact readClause_fails hreadable (hstatement.namedChild hclause)
  split
  · split
    · exact onlyFails_ok
    · exact hrefused _
  · exact hrefused _

theorem readExport_fails (hstatement : Below tree.root statement) :
    OnlyFails allowed (readExport tree statement) := by
  unfold readExport
  split
  · exact onlyFails_ok
  split
  · rename_i declaration hdeclaration
    exact readDeclaration_fails hreadable hunsupported hstatement (hstatement.held hdeclaration)
  · exact readReExport_fails hreadable hunsupported hstatement

/-- A scan fails where a statement does, or where a local name is bound to nothing. -/
theorem scan_fails (hunbound : ∀ names, allowed (.exportsNotFound tree.file names)) :
    OnlyFails allowed (scan tree) := by
  have hroot : Below tree.root tree.root := .refl
  have hpending (bindings : Bindings) (pending : List PendingExport) :
      OnlyFails allowed (bindPending tree bindings pending) := by
    unfold bindPending
    split
    · exact onlyFails_ok
    · exact onlyFails_error.mpr (hunbound _)
  refine OnlyFails.bind (OnlyFails.mapM fun statement hstatement => ?_) fun contributions _ => ?_
  · exact readExport_fails hreadable hunsupported (hroot.named (List.mem_filter.mp hstatement).1)
  · dsimp only
    split
    · exact onlyFails_ok.bind fun _ _ => onlyFails_ok
    · exact (bindingsOf_fails hreadable).bind fun bindings _ =>
        (hpending bindings _).bind fun _ _ => onlyFails_ok

end

end Module

end FlatExports
