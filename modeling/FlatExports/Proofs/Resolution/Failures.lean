import FlatExports.Proofs.Module.Failures
import FlatExports.Proofs.Module.WellFormed
import FlatExports.Proofs.Resolution.Exhaustion

/-!
How a survey can fail.

Apart from the limit, the steps of a survey fail where a specifier leads to no
file, where a module does not export what is sought, where several packages
may, or where a record lacks a name.  A step that goes on in other modules adds
nothing to the failures it meets there.
-/

namespace FlatExports

/-! ## Modules and specifiers -/

def Failure.IsOfReading : Failure → Prop
  | .unreadable .. | .brokenText | .missingChild | .unsupported .. | .exportsNotFound .. => True
  | _ => False

namespace Module

open FlatExports.Syntax

theorem readable_isOfReading {tree : ModuleTree} : Readable tree Failure.IsOfReading where
  text _ _ := text_fails.mono (by simp [Failure.IsOfReading])
  specifier _ _ _ := .inr trivial
  namespaceExport _ _ _ := .inr trivial

theorem scan_isOfReading {tree : ModuleTree} : OnlyFails Failure.IsOfReading (scan tree) :=
  scan_fails readable_isOfReading (fun _ => trivial) fun _ => trivial

theorem loadTree_fails [Syntax.Grammar] {encoding : Encoding} {volume : Volume} {file : Location} :
    OnlyFails Failure.IsOfReading (loadTree encoding volume file) := by
  unfold loadTree
  split
  · simp [Failure.IsOfReading]
  · unfold ModuleTree.ofSource
    split
    · simp [Failure.IsOfReading]
    · unfold ModuleTree.ofNode
      split <;> simp [Failure.IsOfReading]

theorem loadSurface_fails [Syntax.Grammar] {volume : Volume} {file : Location} :
    OnlyFails Failure.IsOfReading (loadSurface volume file) :=
  (loadTree_fails.bind fun _ _ => scan_isOfReading).bind fun _ _ => onlyFails_ok

end Module

def Failure.IsOfLookup : Failure → Prop
  | .moduleNotFound .. | .invalidName _ | .namelessLocation => True
  | _ => False

theorem Lookup.firstFile_fails {allowed : Failure → Prop} {volume : Volume}
    {candidates : List (Except Failure Location)}
    (h : ∀ candidate ∈ candidates, OnlyFails allowed candidate) :
    OnlyFails allowed (firstFile volume candidates) := by
  induction candidates with
  | nil => exact onlyFails_ok
  | cons candidate rest ih =>
      rw [List.forall_mem_cons] at h
      cases candidate with
      | error failure => exact onlyFails_error.mpr (onlyFails_error.mp h.1)
      | ok location =>
          rw [firstFile]
          split
          · exact onlyFails_ok
          · exact ih h.2

theorem Location.withName_fails {location : Location} {name : String} :
    OnlyFails Failure.IsOfLookup (location.withName name) := by
  unfold withName
  split
  · simp [Failure.IsOfLookup]
  · split <;> simp [Failure.IsOfLookup]

theorem Lookup.resolve_fails {lookup : Lookup} {specifier : String} {directory : Location} :
    OnlyFails Failure.IsOfLookup (lookup.resolve specifier directory) := by
  have hcandidates : ∀ candidate ∈ lookup.candidates specifier directory,
      OnlyFails Failure.IsOfLookup candidate := by
    intro candidate hcandidate
    simp only [candidates, List.mem_cons, List.mem_append] at hcandidate
    rcases hcandidate with rfl | hextended | hindex
    · exact onlyFails_ok
    · split at hextended
      · cases hextended
      · obtain ⟨extension, -, rfl⟩ := List.mem_map.mp hextended
        exact Location.withName_fails
    · split at hindex
      · obtain ⟨file, -, rfl⟩ := List.mem_map.mp hindex
        exact onlyFails_ok
      · cases hindex
  refine (firstFile_fails hcandidates).bind fun found _ => ?_
  cases found with
  | none => simp [notFound, throw, throwThe, MonadExceptOf.throw, Failure.IsOfLookup]
  | some file => exact onlyFails_ok

namespace Resolution

variable {allowed : Failure → Prop} {resolver : Resolver} {read : Survey.Reader} {search : Search}
  {module : Location} {edge : ReExport} {name imported : String} {typed : Bool} {chain : List Hop}
  {surface : Surface} {visiting : List Location} {includeDefault : Bool}

theorem orElse_fails {first second : Except Failure (Option Resolved)}
    (hfirst : OnlyFails allowed first) (hsecond : OnlyFails allowed second) :
    OnlyFails allowed (orElse first second) := by
  rcases first with failure | _ | found
  · exact hfirst
  · exact hsecond
  · exact onlyFails_ok

/-! ## Runs of the recursions -/

theorem run_trace {left : Nat} :
    (trace resolver left chain module name typed).run read =
      if ⟨module, name⟩ ∈ chain then .error (ambiguous module name chain .cycle)
      else match left with
        | 0 => .error (ambiguous module name chain .chainTooDeep)
        | left + 1 => read module >>= fun surface =>
            (searchSurface resolver (trace resolver left (chain ++ [⟨module, name⟩])) module name
              typed (chain ++ [⟨module, name⟩]) surface).run read := by
  unfold trace
  split
  · rfl
  · cases left with
    | zero => rfl
    | succ left =>
        dsimp only
        rw [Survey.run_bind, Survey.run_look]

theorem run_expand_succ {left : Nat} :
    (expand resolver (left + 1) visiting includeDefault module).run read = do
      let surface ← read module
      let collected ← (collectAll
        (collectItem resolver (expand resolver left (module :: visiting) false)
          (module :: visiting) module includeDefault) surface.items).run read
      return Collected.merge collected := by
  rw [expand, Survey.run_bind, Survey.run_look]
  simp only [Survey.run_bind]
  rfl

/-! ## Steps of a survey -/

structure Allows (allowed : Failure → Prop) (resolver : Resolver) : Prop where
  locate : ∀ specifier module, OnlyFails allowed (resolver.locate specifier module)
  notFound : ∀ module names, allowed (.exportsNotFound module names)
  severalPackages : ∀ module name chain, allowed (.ambiguous module name chain .severalPackages)

theorem nameOf_fails {field : String} {name? : Option String}
    (hname : name?.isSome ∨ ∀ fields, allowed (.missingName fields)) :
    OnlyFails allowed (nameOf field name?) := by
  cases name? with
  | none => exact onlyFails_error.mpr (hname.resolve_left (by simp) _)
  | some name => exact onlyFails_ok

theorem edgeNames_fails (hnames : (edge.importedName.isSome ∧ edge.exportedName.isSome) ∨
      ∀ fields, allowed (.missingName fields)) :
    OnlyFails allowed (edgeNames edge) := by
  rcases hnames with ⟨himported, hexported⟩ | hmissing
  · obtain ⟨imported, himported⟩ := Option.isSome_iff_exists.mp himported
    obtain ⟨exported, hexported⟩ := Option.isSome_iff_exists.mp hexported
    rw [edgeNames_eq_ok.mpr ⟨hexported, himported⟩]
    exact onlyFails_ok
  · unfold edgeNames
    split <;> simp [hmissing]

theorem localExport_fails {definition : Definition}
    (hname : definition.WellFormed ∨ ∀ fields, allowed (.missingName fields)) :
    OnlyFails allowed (localExport module definition) := by
  unfold localExport
  split
  · exact onlyFails_ok
  · rename_i hnone
    refine onlyFails_error.mpr (hname.resolve_left (fun h => ?_) _)
    simpa [hnone] using h.exportName?

section

variable (hallows : Allows allowed resolver)

include hallows

theorem throughPackages_fails {wildcards : List ReExport} :
    OnlyFails allowed (throughPackages module name typed chain wildcards) := by
  unfold throughPackages
  split
  · exact onlyFails_ok
  · exact onlyFails_ok
  · exact onlyFails_error.mpr (hallows.severalPackages _ _ _)

theorem namespaceOf_fails (hkind : edge.kind = .namespaced)
    (hnames : edge.WellFormed ∨ ∀ fields, allowed (.missingName fields)) :
    OnlyFails allowed (namespaceOf resolver module edge typed) := by
  have hname : OnlyFails allowed (nameOf "exported_name" edge.exportedName) :=
    nameOf_fails (hnames.imp_left fun h => (h.namespaced hkind).2)
  unfold namespaceOf
  dsimp only
  split
  · exact onlyFails_ok.bind fun _ _ => hname.bind fun _ _ => onlyFails_ok
  · exact (hallows.locate _ _).bind fun _ _ => onlyFails_ok.bind fun _ _ =>
      hname.bind fun _ _ => onlyFails_ok

theorem searchTarget_fails
    (hsearch : ∀ target, resolver.locate edge.specifier module = .ok target →
      OnlyFails allowed ((search target imported typed).run read)) :
    OnlyFails allowed ((searchTarget resolver search module edge imported typed).run read) := by
  rw [searchTarget, Survey.run_bind]
  refine (hallows.locate _ _).bind fun target htarget => ?_
  rw [Survey.run_bind]
  refine (hsearch target htarget).bind fun result _ => ?_
  cases result with
  | none => exact onlyFails_error.mpr (hallows.notFound _ _)
  | some found => exact onlyFails_ok

theorem throughEdge_fails (hkind : edge.kind ≠ .wildcard)
    (hnames : edge.WellFormed ∨ ∀ fields, allowed (.missingName fields))
    (hsearch : ∀ target imported typed, resolver.locate edge.specifier module = .ok target →
      Specifier.isInternal edge.specifier = true → edge.importedName = some imported →
        OnlyFails allowed ((search target imported typed).run read)) :
    OnlyFails allowed ((throughEdge resolver search module edge name typed).run read) := by
  unfold throughEdge
  split
  · rename_i hnamespaced
    rw [Survey.run_bind]
    exact (namespaceOf_fails hallows hnamespaced hnames).bind fun _ _ => onlyFails_ok
  · rename_i hnamespaced
    rw [Survey.run_bind]
    refine (nameOf_fails (hnames.imp_left fun h => (h.names hkind hnamespaced).1)).bind
      fun imported himported => ?_
    split
    · rename_i hinternal
      exact searchTarget_fails hallows fun target htarget =>
        hsearch target imported _ htarget hinternal (nameOf_eq_ok.mp himported)
    · exact onlyFails_ok

theorem throughWildcards_fails {wildcards : List ReExport}
    (hsearch : ∀ edge ∈ wildcards, ∀ target typed,
      resolver.locate edge.specifier module = .ok target →
        Specifier.isInternal edge.specifier = true →
          OnlyFails allowed ((search target name typed).run read)) :
    OnlyFails allowed
      ((throughWildcards resolver search module name typed chain wildcards).run read) := by
  induction wildcards with
  | nil => exact onlyFails_ok
  | cons edge rest ih =>
      rw [List.forall_mem_cons] at hsearch
      rw [run_throughWildcards_cons]
      split
      · rename_i hinternal
        split
        · rename_i failure hfailure
          exact onlyFails_error.mpr (hallows.locate _ _ _ hfailure)
        · rename_i target htarget
          split
          · exact ih hsearch.2
          · exact orElse_fails (hsearch.1 target _ htarget hinternal) (ih hsearch.2)
      · exact ih hsearch.2

theorem searchSurface_fails
    (hnames : surface.WellFormed ∨ ∀ fields, allowed (.missingName fields))
    (hsearch : ∀ edge ∈ surface.reExports, ∀ target imported typed,
      resolver.locate edge.specifier module = .ok target →
        Specifier.isInternal edge.specifier = true →
          imported = name ∨ edge.importedName = some imported →
            OnlyFails allowed ((search target imported typed).run read)) :
    OnlyFails allowed
      ((searchSurface resolver search module name typed chain surface).run read) := by
  unfold searchSurface
  split
  · exact onlyFails_ok
  split
  · rename_i edge hedge
    obtain ⟨hmem, hkind, -⟩ := Surface.mem_of_reExportOf? hedge
    rw [Survey.run_bind]
    refine (throughEdge_fails hallows hkind (hnames.imp_left fun h => h.reExports edge hmem)
      fun target imported typed htarget hinternal himported => ?_).bind fun _ _ => onlyFails_ok
    exact hsearch edge hmem target imported typed htarget hinternal (.inr himported)
  split
  · exact onlyFails_ok
  · rw [Survey.run_bind]
    refine (throughWildcards_fails hallows fun edge hedge target typed htarget hinternal =>
      hsearch edge (Surface.mem_wildcards.mp hedge).1 target name typed htarget hinternal
        (.inl rfl)).bind fun result _ => ?_
    cases result with
    | none => exact throughPackages_fails hallows
    | some found => exact onlyFails_ok

theorem follow_fails (hnames : (edge.importedName.isSome ∧ edge.exportedName.isSome) ∨
      ∀ fields, allowed (.missingName fields))
    (htrace : ∀ exported imported target, edge.exportedName = some exported →
      edge.importedName = some imported → Specifier.isInternal edge.specifier = true →
        resolver.locate edge.specifier module = .ok target →
          OnlyFails allowed ((trace resolver (resolver.maxDepth - 1) [⟨module, exported⟩] target
            imported edge.typeOnly).run read)) :
    OnlyFails allowed ((follow resolver module edge).run read) := by
  rw [follow, Survey.run_bind]
  refine (edgeNames_fails hnames).bind fun names hread => ?_
  obtain ⟨exported, imported⟩ := names
  obtain ⟨hexported, himported⟩ := edgeNames_eq_ok.mp hread
  dsimp only
  split
  · rename_i hinternal
    rw [Survey.run_bind]
    refine (searchTarget_fails hallows fun target htarget => ?_).bind fun _ _ => onlyFails_ok
    exact htrace exported imported target hexported himported hinternal htarget
  · exact onlyFails_ok

theorem expandWildcard_fails {expand : Expansion}
    (hexpand : ∀ target, Specifier.isInternal edge.specifier = true →
      resolver.locate edge.specifier module = .ok target → target ∉ visiting →
        OnlyFails allowed ((expand target).run read)) :
    OnlyFails allowed ((expandWildcard resolver expand visiting module edge).run read) := by
  unfold expandWildcard
  split
  · rename_i hinternal
    rw [Survey.run_bind]
    refine (hallows.locate _ _).bind fun target htarget => ?_
    split
    · exact onlyFails_ok
    · rename_i hfresh
      rw [Survey.run_bind]
      exact (hexpand target hinternal htarget hfresh).bind fun _ _ => onlyFails_ok
  · exact onlyFails_ok

theorem collectItem_fails {expand : Expansion} {item : Item} (hitem : item ∈ surface.items)
    (hnames : surface.WellFormed ∨ ∀ fields, allowed (.missingName fields))
    (hfollow : ∀ edge ∈ surface.reExports, edge.kind ≠ .wildcard → edge.kind ≠ .namespaced →
      OnlyFails allowed ((follow resolver module edge).run read))
    (hexpand : ∀ edge ∈ surface.reExports, ∀ target, Specifier.isInternal edge.specifier = true →
      resolver.locate edge.specifier module = .ok target → target ∉ visiting →
        OnlyFails allowed ((expand target).run read)) :
    OnlyFails allowed
      ((collectItem resolver expand visiting module includeDefault item).run read) := by
  unfold collectItem
  split
  · have hmem := Surface.mem_items_definition.mp hitem
    split
    · rw [Survey.run_bind]
      exact (localExport_fails (hnames.imp_left fun h => h.definitions _ hmem)).bind
        fun _ _ => onlyFails_ok
    · exact onlyFails_ok
  have hmem := Surface.mem_items_reExport.mp hitem
  split
  · rw [Survey.run_bind]
    exact (expandWildcard_fails hallows (hexpand _ hmem)).bind fun _ _ => onlyFails_ok
  · rename_i hkind
    rw [Survey.run_bind]
    exact (namespaceOf_fails hallows hkind (hnames.imp_left fun h => h.reExports _ hmem)).bind
      fun _ _ => onlyFails_ok
  · rename_i hwildcard hnamespaced
    split
    · rw [Survey.run_bind]
      exact (hfollow _ hmem hwildcard hnamespaced).bind fun _ _ => onlyFails_ok
    · exact onlyFails_ok

end

theorem collectAll_fails {collect : Item → Survey (List Collected)} {items : List Item}
    (hcollect : ∀ item ∈ items, OnlyFails allowed ((collect item).run read)) :
    OnlyFails allowed ((collectAll collect items).run read) := by
  induction items with
  | nil => exact onlyFails_ok
  | cons item rest ih =>
      rw [List.forall_mem_cons] at hcollect
      rw [collectAll, Survey.run_bind]
      refine hcollect.1.bind fun _ _ => ?_
      rw [Survey.run_bind]
      exact (ih hcollect.2).bind fun _ _ => onlyFails_ok

theorem expand_succ_fails {left : Nat} (hread : OnlyFails allowed (read module))
    (hitems : ∀ surface, read module = .ok surface → ∀ item ∈ surface.items,
      OnlyFails allowed ((collectItem resolver (expand resolver left (module :: visiting) false)
        (module :: visiting) module includeDefault item).run read)) :
    OnlyFails allowed ((expand resolver (left + 1) visiting includeDefault module).run read) := by
  rw [run_expand_succ]
  exact hread.bind fun surface hsurface =>
    (collectAll_fails (hitems surface hsurface)).bind fun _ _ => onlyFails_ok

end Resolution

end FlatExports
