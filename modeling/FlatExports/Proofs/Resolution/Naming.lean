import FlatExports.Proofs.Resolution.Failures
import FlatExports.Proofs.Resolution.Supply

/-!
Surveys that never miss a name.

A survey asks a record only for the names that the kind of the record calls for,
so over scanned modules it fails for other reasons if at all.  Whatever it makes
is named, the namespace of a module, or a wildcard that belongs to a package.
-/

namespace FlatExports

def Failure.IsMissingName : Failure → Prop
  | .missingName _ => True
  | _ => False

theorem Failure.IsOfReading.not_missingName {failure : Failure} (h : failure.IsOfReading) :
    ¬failure.IsMissingName := by
  cases failure with
  | missingName => cases h
  | _ => exact id

theorem Failure.IsOfLookup.not_missingName {failure : Failure} (h : failure.IsOfLookup) :
    ¬failure.IsMissingName := by
  cases failure with
  | missingName => cases h
  | _ => exact id

/-- The kinds of exports that a survey makes; a wildcard stays one only if it is a package's. -/
structure Resolved.WellFormed (entry : Resolved) : Prop where
  kind : entry.kind = .named ∨ entry.kind = .namespaced ∨ entry.kind = .wildcard
  external : entry.kind = .wildcard → entry.external = true

namespace Resolved.WellFormed

variable {entry : Resolved}

theorem of_named (h : entry.kind = .named) : entry.WellFormed :=
  ⟨.inl h, fun hwildcard => by simp [h] at hwildcard⟩

theorem of_namespaced (h : entry.kind = .namespaced) : entry.WellFormed :=
  ⟨.inr (.inl h), fun hwildcard => by simp [h] at hwildcard⟩

theorem of_external (hkind : entry.kind ≠ .default) (hexternal : entry.external = true) :
    entry.WellFormed := by
  refine ⟨?_, fun _ => hexternal⟩
  cases h : entry.kind with
  | named => exact .inl rfl
  | default => exact absurd h hkind
  | namespaced => exact .inr (.inl rfl)
  | wildcard => exact .inr (.inr rfl)

theorem of_asValue_eq {found : Resolved} (h : found.WellFormed)
    (hvalue : found.asValue = entry.asValue) : entry.WellFormed := by
  obtain ⟨typeOnly, rfl⟩ := exists_typeOnly_of_asValue_eq hvalue
  exact ⟨h.kind, h.external⟩

end Resolved.WellFormed

namespace Resolution

open FlatExports.Module FlatExports.Syntax

/-- Nothing fails for a missing name, and what is made is accepted. -/
structure Makes {α : Type} (accepts : α → Prop) (outcome : Except Failure α) : Prop where
  fails : OnlyFails (fun failure => ¬failure.IsMissingName) outcome
  accepted : ∀ made, outcome = .ok made → accepts made

/-- The surfaces of modules whose trees are given. -/
def surfaceOf (trees : Location → Except Failure ModuleTree) : Survey.Reader := fun module => do
  return (← trees module >>= scan).surface

theorem surfaceOf_loadTree [Syntax.Grammar] (volume : Volume) :
    surfaceOf (loadTree .utf8 volume) = loadSurface volume := rfl

theorem exists_tree_of_surfaceOf {trees : Location → Except Failure ModuleTree} {module : Location}
    {surface : Surface} (h : surfaceOf trees module = .ok surface) :
    ∃ tree scanned, trees module = .ok tree ∧ scan tree = .ok scanned ∧
      scanned.surface = surface := by
  obtain ⟨scanned, hscanned, hsurface⟩ := bind_eq_ok.mp h
  obtain ⟨tree, htree, hscan⟩ := bind_eq_ok.mp hscanned
  exact ⟨tree, scanned, htree, hscan, Except.ok.inj hsurface⟩

theorem wellFormed_of_surfaceOf {trees : Location → Except Failure ModuleTree} {module : Location}
    {surface : Surface} (h : surfaceOf trees module = .ok surface) : surface.WellFormed := by
  obtain ⟨tree, scanned, -, hscan, rfl⟩ := exists_tree_of_surfaceOf h
  exact wellFormed_of_scan hscan

/-! ## Surveys of well-formed records -/

variable {resolver : Resolver} {read : Survey.Reader} {module : Location} {edge : ReExport}
  {name : String} {typed : Bool} {chain : List Hop} {surface : Surface} {left : Nat}
  {visiting : List Location} {includeDefault : Bool} {entry : Resolved}

theorem Supplied.wellFormed (h : Supplied resolver read module entry) : entry.WellFormed := by
  cases h with
  | definition _ _ hhome => exact .of_named hhome.kind
  | namespaceOf _ hkind => exact .of_namespaced hkind
  | package _ _ hkind hexternal => exact .of_external hkind hexternal

structure Complete (resolver : Resolver) (read : Survey.Reader) : Prop where
  locate : ∀ specifier module,
    OnlyFails (fun failure => ¬failure.IsMissingName) (resolver.locate specifier module)
  reads : ∀ module, OnlyFails (fun failure => ¬failure.IsMissingName) (read module)
  wellFormed : ∀ module surface, read module = .ok surface → surface.WellFormed

section

variable (h : Complete resolver read)

include h

theorem Complete.allows : Allows (fun failure => ¬failure.IsMissingName) resolver :=
  ⟨h.locate, fun _ _ => id, fun _ _ _ => id⟩

theorem Complete.trace_fails :
    OnlyFails (fun failure => ¬failure.IsMissingName)
      ((trace resolver left chain module name typed).run read) := by
  induction left generalizing chain module name typed with
  | zero =>
      rw [run_trace]
      split
      · exact onlyFails_error.mpr id
      · exact onlyFails_error.mpr id
  | succ left ih =>
      rw [run_trace]
      split
      · exact onlyFails_error.mpr id
      · exact (h.reads module).bind fun surface hread =>
          searchSurface_fails h.allows (.inl (h.wellFormed module surface hread))
            fun _ _ _ _ _ _ _ _ => ih

theorem Complete.follow_fails
    (hnames : edge.importedName.isSome ∧ edge.exportedName.isSome) :
    OnlyFails (fun failure => ¬failure.IsMissingName) ((follow resolver module edge).run read) :=
  Resolution.follow_fails h.allows (.inl hnames) fun _ _ _ _ _ _ _ => h.trace_fails

theorem Complete.expand_fails :
    OnlyFails (fun failure => ¬failure.IsMissingName)
      ((expand resolver left visiting includeDefault module).run read) := by
  induction left generalizing visiting includeDefault module with
  | zero => exact onlyFails_error.mpr id
  | succ left ih =>
      refine expand_succ_fails (h.reads module) fun surface hread item hitem => ?_
      have hformed := h.wellFormed module surface hread
      refine collectItem_fails h.allows hitem (.inl hformed) ?_ fun _ _ _ _ _ _ => ih
      intro edge hedge hwildcard hnamespaced
      exact h.follow_fails ((hformed.reExports edge hedge).names hwildcard hnamespaced)

theorem Complete.expandWildcard_makes :
    Makes (fun exports => ∀ entry ∈ exports, entry.WellFormed)
      ((expandWildcard resolver (expand resolver left visiting false) visiting module edge).run
        read) := by
  refine ⟨expandWildcard_fails h.allows fun _ _ _ _ => h.expand_fails,
    fun exports hrun entry hentry => ?_⟩
  rcases mem_of_expandWildcard hrun hentry with
    ⟨-, target, inner, -, -, hinner, found, hfound, hvalue⟩ | ⟨-, rfl⟩
  · exact (supplied_of_expand hinner hfound).wellFormed.of_asValue_eq hvalue
  · exact .of_external (by simp [packageWildcard]) rfl

end

/-- Over scanned modules, whatever project they make up, no record lacks a name that a survey asks
for, and every export is named, a namespace, or a wildcard of a package. -/
theorem no_name_missing (lookup : Lookup) (trees : Location → Except Failure ModuleTree)
    (htrees : ∀ module, OnlyFails (fun failure => ¬failure.IsMissingName) (trees module)) :
    (∀ tree scanned, scan tree = .ok scanned → scanned.surface.WellFormed) ∧
    (∀ module surface, surfaceOf trees module = .ok surface →
      (∀ definition ∈ surface.definitions,
        Makes Resolved.WellFormed (localExport module definition)) ∧
      ∀ edge ∈ surface.reExports,
        (edge.kind = .namespaced → ∀ typed,
          Makes Resolved.WellFormed (namespaceOf (.ofLookup lookup) module edge typed)) ∧
        (edge.kind = .wildcard → ∀ left visiting,
          Makes (fun exports => ∀ entry ∈ exports, entry.WellFormed)
            ((expandWildcard (.ofLookup lookup) (expand (.ofLookup lookup) left visiting false)
              visiting module edge).run (surfaceOf trees))) ∧
        (edge.kind = .named ∨ edge.kind = .default →
          Makes Resolved.WellFormed
            ((follow (.ofLookup lookup) module edge).run (surfaceOf trees)))) ∧
    (∀ left chain module name typed,
      Makes (fun found => ∀ entry ∈ found, entry.WellFormed)
        ((trace (.ofLookup lookup) left chain module name typed).run (surfaceOf trees))) ∧
    ∀ root, Makes (fun exports => ∀ entry ∈ exports, entry.WellFormed)
      ((exportsOf lookup root).run (surfaceOf trees)) := by
  have hcomplete : Complete (.ofLookup lookup) (surfaceOf trees) := by
    refine ⟨fun _ _ => Lookup.resolve_fails.mono fun _ => Failure.IsOfLookup.not_missingName,
      fun module => ?_, fun _ _ => wellFormed_of_surfaceOf⟩
    have hscan (tree : ModuleTree) : OnlyFails (fun failure => ¬failure.IsMissingName) (scan tree) :=
      scan_isOfReading.mono fun _ => Failure.IsOfReading.not_missingName
    exact ((htrees module).bind fun tree _ => hscan tree).bind fun _ _ => onlyFails_ok
  refine ⟨fun _ _ => wellFormed_of_scan, fun module surface hread => ⟨?_, ?_⟩, ?_, ?_⟩
  · intro definition hdefinition
    have hformed := (wellFormed_of_surfaceOf hread).definitions definition hdefinition
    refine ⟨localExport_fails (.inl hformed), fun entry hrun => ?_⟩
    exact .of_named (home_of_localExport hdefinition hrun).kind
  · intro edge hedge
    have hformed := (wellFormed_of_surfaceOf hread).reExports edge hedge
    refine ⟨fun hkind typed => ?_, fun _ _ _ => hcomplete.expandWildcard_makes, fun hkind => ?_⟩
    · refine ⟨namespaceOf_fails hcomplete.allows hkind (.inl hformed), fun entry hrun => ?_⟩
      exact (namespaceOf_supplied hread hedge hrun entry.exportedName).wellFormed
    · refine ⟨hcomplete.follow_fails (hformed.explicit hkind), fun entry hrun => ?_⟩
      exact (follow_supplied hread hedge hrun).wellFormed
  · intro left chain module name typed
    refine ⟨hcomplete.trace_fails, fun found hrun entry hentry => ?_⟩
    rw [hentry] at hrun
    exact (trace_supplied hrun entry.exportedName).wellFormed
  · intro root
    exact ⟨hcomplete.expand_fails, fun exports hrun entry hentry =>
      (supplied_of_expand hrun hentry).wellFormed⟩

def everyForm : Lookup where
  settings := .default
  volume := .ofTexts
    [("/proj/index.ts", "export default 1; export { x, default as d } from './a'; " ++
        "export * as ns from './a'; export * from './a'; export * from 'pkg';"),
      ("/proj/a.ts", "export const x = 1; export default x;")]

theorem no_name_missing_everyForm :
    (∃ surface, loadSurface everyForm.volume (.ofPath "/proj/index.ts") = .ok surface ∧
      surface.WellFormed ∧ surface.reExports = [namedEdge "./a" "x" "x" false 27,
        namedEdge "./a" "default" "d" false 30, namespaceEdge "./a" "ns" false 57,
        wildcardEdge "./a" false 84, wildcardEdge "pkg" false 105]) ∧
    (∀ edge ∈ [namedEdge "./a" "x" "x" false 27, namedEdge "./a" "default" "d" false 30],
      Makes Resolved.WellFormed ((follow (.ofLookup everyForm) (.ofPath "/proj/index.ts") edge).run
        (loadSurface everyForm.volume))) ∧
    ∀ visiting edge, edge ∈ [wildcardEdge "./a" false 84, wildcardEdge "pkg" false 105] →
      Makes (fun exports => ∀ entry ∈ exports, entry.WellFormed)
        ((expandWildcard (.ofLookup everyForm) (expand (.ofLookup everyForm) 255 visiting false)
          visiting (.ofPath "/proj/index.ts") edge).run (loadSurface everyForm.volume)) := by
  have htrees (module : Location) : OnlyFails (fun failure => ¬failure.IsMissingName)
      (loadTree .utf8 everyForm.volume module) :=
    loadTree_fails.mono fun _ => Failure.IsOfReading.not_missingName
  have hread : loadSurface everyForm.volume (.ofPath "/proj/index.ts") =
      .ok ⟨[⟨.default, none, false, 0, none⟩], [namedEdge "./a" "x" "x" false 27,
        namedEdge "./a" "default" "d" false 30, namespaceEdge "./a" "ns" false 57,
        wildcardEdge "./a" false 84, wildcardEdge "pkg" false 105]⟩ := by
    decide +kernel
  obtain ⟨hrecords, hmakes, -⟩ :=
    no_name_missing everyForm (loadTree .utf8 everyForm.volume) htrees
  have hscanned := hread
  rw [← surfaceOf_loadTree] at hscanned
  obtain ⟨tree, scanned, -, hscan, hsurface⟩ := exists_tree_of_surfaceOf hscanned
  have hformed := hrecords tree scanned hscan
  rw [hsurface] at hformed
  rw [surfaceOf_loadTree] at hmakes
  obtain ⟨-, hedges⟩ := hmakes _ _ hread
  refine ⟨⟨_, hread, hformed, rfl⟩, fun edge hedge => ?_, fun visiting edge hedge => ?_⟩
  · rcases List.mem_pair.mp hedge with rfl | rfl
    · exact (hedges _ (.head _)).2.2 (.inl rfl)
    · exact (hedges _ (.tail _ (.head _))).2.2 (.inr rfl)
  · rcases List.mem_pair.mp hedge with rfl | rfl
    · exact (hedges _ (.tail _ (.tail _ (.tail _ (.head _))))).2.1 rfl 255 visiting
    · exact (hedges _ (.tail _ (.tail _ (.tail _ (.tail _ (.head _)))))).2.1 rfl 255 visiting

end Resolution

end FlatExports
