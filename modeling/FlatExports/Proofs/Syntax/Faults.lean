import FlatExports.Proofs.Syntax.Places

/-!
Faults of a tree.

The search for a fault leaves out a child whose flag says that nothing below it
is one.  Where the flags of a tree are right, the search finds the fault that
is read first, and finds none only if there is none.  So a module is refused
exactly if its tree has a fault, and the failure names where the first one is.
-/

namespace FlatExports.Syntax

namespace Node

variable {root node child : Node} {children : List Node}

/-- The flag of a node says exactly whether the node or one below it is a fault. -/
def FlagsFaults (root : Node) : Prop :=
  ∀ node, Below root node →
    (node.info.hasError = true ↔ ∃ fault, Below node fault ∧ isFault fault.info = true)

def earliestFault? (root : Node) : Option Node := root.preorder.find? fun node => isFault node.info

theorem earliestFault?_eq_none :
    root.earliestFault? = none ↔ ∀ node, Below root node → isFault node.info = false := by
  simp [earliestFault?, mem_preorder]

theorem exists_earliestFault :
    (∃ fault, root.earliestFault? = some fault) ↔
      ∃ fault, Below root fault ∧ isFault fault.info = true := by
  simp [earliestFault?, ← Option.isSome_iff_exists, mem_preorder]

theorem FlagsFaults.inChild (h : FlagsFaults root) (hchild : child ∈ root.children) :
    FlagsFaults child :=
  fun node hbelow => h node (.head hchild hbelow)

theorem FlagsFaults.hasError (h : FlagsFaults root) :
    root.info.hasError = true ↔ ∃ fault, root.earliestFault? = some fault := by
  rw [exists_earliestFault]
  exact h root .refl

theorem FlagsFaults.of_everyNode (h : root.everyNode (fun node =>
    decide (node.info.hasError = node.preorder.any fun fault => isFault fault.info)) = true) :
    FlagsFaults root := by
  intro node hbelow
  have hflag := of_decide_eq_true (hbelow.of_everyNode h)
  simp [hflag, mem_preorder]

theorem firstFaultAmong?_eq
    (h : ∀ child ∈ children, (if child.info.hasError then child.firstFault? else none) =
      child.earliestFault?.map (·.info)) :
    firstFaultAmong? children =
      ((children.flatMap preorder).find? fun node => isFault node.info).map (·.info) := by
  induction children with
  | nil => rfl
  | cons child rest ih =>
      rw [List.forall_mem_cons] at h
      rw [firstFaultAmong?, h.1, ih h.2, List.flatMap_cons, List.find?_append]
      change _ = (child.earliestFault?.or _).map _
      cases child.earliestFault? <;> rfl

theorem firstFault?_eq (hflags : FlagsFaults root) :
    root.firstFault? = root.earliestFault?.map (·.info) := by
  induction root using children_induction with
  | node node ih =>
      have hsearched (child : Node) (hchild : child ∈ node.children) :
          (if child.info.hasError then child.firstFault? else none) =
            child.earliestFault?.map (·.info) := by
        have hflags := hflags.inChild hchild
        split
        · exact ih child hchild hflags
        · rename_i hclear
          rw [hflags.hasError, ← Option.isSome_iff_exists, Option.not_isSome_iff_eq_none] at hclear
          rw [hclear, Option.map_none]
      rw [earliestFault?, preorder_eq, List.find?_cons]
      obtain ⟨info, children⟩ := node
      rw [firstFault?, firstFaultAmong?_eq hsearched]
      cases isFault info <;> rfl

/-- The search tells why a tree is no module by the fault that is read first. -/
theorem fault?_eq (hflags : FlagsFaults root) :
    root.fault? = root.earliestFault?.map fun fault =>
      .syntaxErrorAt (fault.info.line + 1) (fault.info.column + 1) := by
  have herror := hflags.hasError
  rw [fault?, firstFault?_eq hflags]
  cases hfault : root.earliestFault? with
  | none =>
      rw [if_neg (by simp [herror, hfault])]
      rfl
  | some fault =>
      rw [if_pos (herror.mpr ⟨fault, hfault⟩)]
      rfl

end Node

open Node (Below isFault)

variable {root : Node}

/--
Where the flags of a tree are right, the search gives the first fault in the
order of reading and nothing only if there is none.  The tree is refused
exactly if it has a fault, by the line and the column of the first one.
-/
theorem first_fault_refuses (hflags : root.FlagsFaults) (file : String) (source : Text.Bytes) :
    root.firstFault? = root.earliestFault?.map (·.info) ∧
      (root.firstFault? = none ↔ ∀ node, Below root node → isFault node.info = false) ∧
      (ModuleTree.ofNode file source root = .ok ⟨file, source, root⟩ ↔
        ∀ node, Below root node → isFault node.info = false) ∧
      ∀ failure, ModuleTree.ofNode file source root = .error failure ↔
        ∃ fault cause, root.earliestFault? = some fault ∧ failure = .unreadable file cause ∧
          cause = .syntaxErrorAt (fault.info.line + 1) (fault.info.column + 1) ∧
          cause.detail = "syntax error at line " ++ toString (fault.info.line + 1) ++
            ", column " ++ toString (fault.info.column + 1) := by
  have hfirst := Node.firstFault?_eq hflags
  refine ⟨hfirst, ?_, ?_, fun failure => ?_⟩
  · rw [hfirst, Option.map_eq_none_iff, Node.earliestFault?_eq_none]
  · rw [← Node.earliestFault?_eq_none, ModuleTree.ofNode, Node.fault?_eq hflags]
    cases root.earliestFault? <;> simp
  · rw [ModuleTree.ofNode, Node.fault?_eq hflags]
    cases hfault : root.earliestFault? with
    | none => simp
    | some fault =>
        constructor
        · intro h
          cases h
          exact ⟨fault, _, rfl, rfl, rfl, rfl⟩
        · rintro ⟨other, cause, hother, rfl, rfl, -⟩
          cases hother
          rfl

def unclosedBlock : Node :=
  ⟨⟨.program, 0, 6, true, false, true, 0, 0, none⟩,
    [.made .identifier 0 1 [],
    ⟨⟨.other "statement_block", 2, 4, true, false, true, 0, 2, none⟩,
      [.mark (.other "\x7b") 2 3, .made .identifier 3 4 [],
      ⟨⟨.other "\x7d", 4, 4, false, true, true, 0, 4, none⟩, []⟩]⟩,
    ⟨⟨.fault, 5, 6, true, false, true, 1, 0, none⟩, [.mark (.other ")") 5 6]⟩]⟩

theorem first_fault_refuses_unclosedBlock : unclosedBlock.FlagsFaults ∧
    ModuleTree.ofNode "/proj/index.ts" (Text.bytesOf "a \x7bb\n)") unclosedBlock =
      .error (.unreadable "/proj/index.ts" (.syntaxErrorAt 1 5)) := by
  have hflags : unclosedBlock.FlagsFaults := .of_everyNode (by decide +kernel)
  exact ⟨hflags, ((first_fault_refuses hflags _ _).2.2.2 _).mpr ⟨_, _, rfl, rfl, rfl, rfl⟩⟩

end FlatExports.Syntax
