import FlatExports.Proofs.Diagnostics.Packages
import FlatExports.Proofs.Repetition

/-!
References and issues.

The references of a module are the distinct barrels among the targets of its
internal re-exports, in the order of their first mention.  A target that an
issue names passes a name on from another internal module, so it is one of them.
Targets are canonical, and the specifiers of different canonical locations
differ, so no two references read the same.
-/

namespace FlatExports.Diagnostics

variable {lookup : Lookup} {read : Survey.Reader} {path file target : Location}
  {surface passed : Surface} {edge : ReExport} {name barrel : String} {edges : List ReExport}
  {seen targets : List Location} {reports : List Issue} {barrels : List String}

/-! ## Barrels -/

def barrelAt (read : Survey.Reader) (module : Location) : Bool :=
  (read module).toOption.any isBarrel

theorem barrelAt_eq (hread : read target = .ok surface) :
    barrelAt read target = isBarrel surface := by
  rw [barrelAt, hread]
  rfl

theorem isBarrel_of_passesOn (h : passesOn surface name = true) : isBarrel surface = true := by
  unfold passesOn at h
  split at h
  · rename_i edge hedge
    exact List.any_eq_true.mpr ⟨edge, (Surface.mem_of_reExportOf? hedge).1, h⟩
  · obtain ⟨edge, hedge, hinternal⟩ := List.any_eq_true.mp h
    exact List.any_eq_true.mpr ⟨edge, (Surface.mem_wildcards.mp hedge).1, hinternal⟩

theorem issueOf_throughBarrel
    (h : (issueOf lookup path file edge).run read = .ok (some (.throughBarrel name barrel))) :
    Specifier.isInternal edge.specifier = true ∧
      ∃ target, lookup.resolve edge.specifier file.parent = .ok target ∧
        barrelAt read target = true ∧ barrel = specifierOf file target := by
  unfold issueOf at h
  split at h
  · cases h
  split at h
  · cases h
  rename_i hother
  obtain ⟨target, hresolve, h⟩ := Survey.run_bind_eq_ok.mp h
  obtain ⟨surface, hread, h⟩ := Survey.run_bind_eq_ok.mp h
  rw [Survey.run_look] at hread
  dsimp only at h
  split at h
  · rename_i hpasses
    cases h
    rw [Bool.and_eq_true] at hpasses
    refine ⟨?_, target, hresolve, ?_, rfl⟩
    · simp only [Bool.or_eq_true, Bool.not_eq_true', not_or, Bool.not_eq_false] at hother
      exact hother.1
    · rw [barrelAt_eq hread, isBarrel_of_passesOn hpasses.2]
  · cases h

/-! ## Targets -/

def Targets (lookup : Lookup) (file : Location) (edges : List ReExport)
    (targets : List Location) : Prop :=
  List.Forall₂ (fun edge target => lookup.resolve edge.specifier file.parent = .ok target)
    (edges.filter fun edge => Specifier.isInternal edge.specifier) targets

theorem Targets.cons (hinternal : Specifier.isInternal edge.specifier = true)
    (hresolve : lookup.resolve edge.specifier file.parent = .ok target)
    (h : Targets lookup file edges targets) :
    Targets lookup file (edge :: edges) (target :: targets) := by
  have hfilter : ((edge :: edges).filter fun edge => Specifier.isInternal edge.specifier) =
      edge :: edges.filter fun edge => Specifier.isInternal edge.specifier :=
    List.filter_cons_of_pos hinternal
  rw [Targets, hfilter]
  exact .cons hresolve h

theorem Targets.skip (hexternal : Specifier.isInternal edge.specifier = false)
    (h : Targets lookup file edges targets) : Targets lookup file (edge :: edges) targets := by
  have hfilter : ((edge :: edges).filter fun edge => Specifier.isInternal edge.specifier) =
      edges.filter fun edge => Specifier.isInternal edge.specifier :=
    List.filter_cons_of_neg (by simp [hexternal])
  rwa [Targets, hfilter]

theorem Targets.mem (h : Targets lookup file edges targets) (hedge : edge ∈ edges)
    (hinternal : Specifier.isInternal edge.specifier = true)
    (hresolve : lookup.resolve edge.specifier file.parent = .ok target) : target ∈ targets := by
  obtain ⟨found, hmem, hfound⟩ :=
    exists_right_of_forall₂ h (List.mem_filter.mpr ⟨hedge, hinternal⟩)
  rwa [ok_inj hresolve hfound]

theorem eraseDups_unseen (hfresh : target ∉ seen) :
    ((target :: targets).filter (· ∉ seen)).eraseDups =
      target :: (targets.filter (· ∉ target :: seen)).eraseDups := by
  rw [List.filter_cons_of_pos (by simpa using hfresh), List.eraseDups_cons, List.filter_filter]
  congr 2
  refine List.filter_congr fun other _ => ?_
  rw [Bool.eq_iff_iff]
  simp

theorem referencesAmong_eq_ok
    (hrun : (referencesAmong lookup file seen edges).run read = .ok barrels) :
    ∃ targets, Targets lookup file edges targets ∧
      (∀ target ∈ targets, target ∉ seen → ∃ surface, read target = .ok surface) ∧
      barrels = ((targets.filter (· ∉ seen)).eraseDups.filter (barrelAt read)).map
        (specifierOf file) := by
  induction edges generalizing seen barrels with
  | nil =>
      cases hrun
      exact ⟨[], .nil, List.forall_mem_nil _, rfl⟩
  | cons edge rest ih =>
      rw [referencesAmong] at hrun
      by_cases hinternal : Specifier.isInternal edge.specifier = true
      · rw [if_pos hinternal] at hrun
        obtain ⟨target, hresolve, hrun⟩ := Survey.run_bind_eq_ok.mp hrun
        rw [Survey.run_ofExcept] at hresolve
        by_cases hseen : target ∈ seen
        · rw [if_pos hseen] at hrun
          obtain ⟨targets, htargets, hreadable, rfl⟩ := ih hrun
          refine ⟨target :: targets, htargets.cons hinternal hresolve, ?_, ?_⟩
          · exact List.forall_mem_cons.mpr ⟨fun hfresh => absurd hseen hfresh, hreadable⟩
          · rw [List.filter_cons_of_neg (by simpa using hseen)]
        · rw [if_neg hseen] at hrun
          obtain ⟨surface, hread, hrun⟩ := Survey.run_bind_eq_ok.mp hrun
          obtain ⟨others, hothers, hrun⟩ := Survey.run_bind_eq_ok.mp hrun
          rw [Survey.run_look] at hread
          obtain ⟨targets, htargets, hreadable, rfl⟩ := ih hothers
          refine ⟨target :: targets, htargets.cons hinternal hresolve, ?_, ?_⟩
          · refine List.forall_mem_cons.mpr
              ⟨fun _ => ⟨surface, hread⟩, fun other hother hfresh => ?_⟩
            by_cases heq : other = target
            · exact ⟨surface, heq ▸ hread⟩
            · exact hreadable other hother (by simp [heq, hfresh])
          · rw [eraseDups_unseen hseen, List.filter_cons, barrelAt_eq hread]
            cases hrun
            split <;> rfl
      · rw [if_neg hinternal] at hrun
        obtain ⟨targets, htargets, hreadable, rfl⟩ := ih hrun
        exact ⟨targets, htargets.skip (by simpa using hinternal), hreadable, rfl⟩

theorem Targets.plain (h : Targets lookup file edges targets)
    (hfile : Lookup.StandingFile lookup.volume file) (htarget : target ∈ targets) :
    Volume.Plain target.names := by
  obtain ⟨edge, -, hresolve⟩ := exists_left_of_forall₂ h htarget
  have hsteps : ∀ name ∈ file.parent.names, IsStep name :=
    fun name hname => hfile.isStep name (List.dropLast_subset _ hname)
  obtain ⟨content, hstands⟩ := Lookup.standingFile_of_resolve hsteps hresolve
  exact hstands.plain

/-! ## References -/

theorem references_eq_ok (hrun : (references lookup path).run read = .ok barrels) :
    ∃ file surface, lookup.resolveFile path = .ok file ∧ read file = .ok surface ∧
      (referencesAmong lookup file [] surface.reExports).run read = .ok barrels := by
  obtain ⟨file, hpath, hrun⟩ := Survey.run_bind_eq_ok.mp hrun
  obtain ⟨surface, hread, hrun⟩ := Survey.run_bind_eq_ok.mp hrun
  rw [Survey.run_look] at hread
  exact ⟨file, surface, hpath, hread, hrun⟩

theorem throughBarrel_mem (hpath : lookup.resolveFile path = .ok file)
    (hread : read file = .ok surface) (hrun : (issues lookup path).run read = .ok reports)
    (hreport : .throughBarrel name barrel ∈ reports) :
    ∃ edge ∈ surface.reExports, Specifier.isInternal edge.specifier = true ∧
      ∃ target, lookup.resolve edge.specifier file.parent = .ok target ∧
        barrelAt read target = true ∧ barrel = specifierOf file target := by
  obtain ⟨file', hpath', hrun⟩ := Survey.run_bind_eq_ok.mp hrun
  obtain ⟨surface', hread', hrun⟩ := Survey.run_bind_eq_ok.mp hrun
  rw [Survey.run_look] at hread'
  obtain rfl := ok_inj hpath hpath'
  obtain rfl := ok_inj hread hread'
  rw [issuesAmong_eq_filterMap hrun, List.mem_filterMap] at hreport
  obtain ⟨edge, hedge, hreport⟩ := hreport
  have hissue := issueOf_of_issuesAmong hrun edge hedge
  rw [hreport] at hissue
  exact ⟨edge, hedge, issueOf_throughBarrel hissue⟩

theorem nodup_specifiersOf {modules : List Location} (hfile : Volume.Plain file.names)
    (hplain : ∀ module ∈ modules, Volume.Plain module.names) (hmodules : modules.Nodup) :
    (modules.map (specifierOf file)).Nodup :=
  hmodules.map_on fun _ hfirst _ hsecond heq =>
    Specifier.relative_injective (hplain _ hfirst) hfile.dropLast (hplain _ hsecond) heq

/--
Whenever the references of a module can be listed, they are the barrels among
the modules that its internal re-exports lead to, each once, in the order of
first mention and no two alike.  The barrel of every issue is among them.
-/
theorem references_cover_issues {path : String}
    (hreferences : (references lookup (.ofPath path)).run read = .ok barrels)
    (hissues : (issues lookup (.ofPath path)).run read = .ok reports) :
    ∃ file surface targets, lookup.resolveFile (.ofPath path) = .ok file ∧
      read file = .ok surface ∧ Targets lookup file surface.reExports targets ∧
      (∀ target ∈ targets, ∃ passed, read target = .ok passed) ∧
      barrels = (targets.eraseDups.filter (barrelAt read)).map (specifierOf file) ∧
      barrels.Nodup ∧
      ∀ name barrel, .throughBarrel name barrel ∈ reports → barrel ∈ barrels := by
  obtain ⟨file, surface, hpath, hread, hreferences⟩ := references_eq_ok hreferences
  obtain ⟨targets, htargets, hreadable, hbarrels⟩ := referencesAmong_eq_ok hreferences
  have hunseen : targets.filter (· ∉ ([] : List Location)) = targets := by simp
  rw [hunseen] at hbarrels
  have hfile := Lookup.standingFile_of_resolveFile _ (Location.isStep_of_mem_ofPath path) hpath
  refine ⟨file, surface, targets, hpath, hread, htargets,
    fun target htarget => hreadable target htarget List.not_mem_nil, hbarrels, ?_, ?_⟩
  · have hplain : ∀ module ∈ targets.eraseDups.filter (barrelAt read),
        Volume.Plain module.names := fun module hmodule =>
      htargets.plain hfile (List.mem_eraseDups.mp (List.mem_of_mem_filter hmodule))
    obtain ⟨content, hstands⟩ := hfile
    rw [hbarrels]
    exact nodup_specifiersOf hstands.plain hplain ((nodup_eraseDups targets).filter _)
  · intro name barrel hreport
    obtain ⟨edge, hedge, hinternal, target, hresolve, hbarrel, rfl⟩ :=
      throughBarrel_mem hpath hread hissues hreport
    have htarget := htargets.mem hedge hinternal hresolve
    rw [hbarrels]
    exact List.mem_map_of_mem (List.mem_filter.mpr ⟨List.mem_eraseDups.mpr htarget, hbarrel⟩)

def twiceNamedBarrel : Lookup where
  settings := .default
  volume := .ofTexts
    [("/proj/index.ts", "export { a } from './lib';\nexport { x } from './x';\n" ++
        "export * as all from './all';\nexport { b } from './lib/index.ts';"),
      ("/proj/lib/index.ts", "export * from '../x';"),
      ("/proj/all.ts", "export { x } from './x';"),
      ("/proj/x.ts", "export const x = 1;")]

theorem references_cover_issues_twiceNamedBarrel :
    (references twiceNamedBarrel (.ofPath "/proj/index.ts")).run
        (Module.loadSurface twiceNamedBarrel.volume) = .ok ["./lib/index.ts", "./all.ts"] ∧
      (issues twiceNamedBarrel (.ofPath "/proj/index.ts")).run
        (Module.loadSurface twiceNamedBarrel.volume) =
          .ok [.throughBarrel "a" "./lib/index.ts", .throughBarrel "b" "./lib/index.ts"] ∧
      ∀ name barrel, .throughBarrel name barrel ∈
          [Issue.throughBarrel "a" "./lib/index.ts", .throughBarrel "b" "./lib/index.ts"] →
        barrel ∈ ["./lib/index.ts", "./all.ts"] := by
  have hreferences : (references twiceNamedBarrel (.ofPath "/proj/index.ts")).run
      (Module.loadSurface twiceNamedBarrel.volume) = .ok ["./lib/index.ts", "./all.ts"] := by
    decide +kernel
  have hissues : (issues twiceNamedBarrel (.ofPath "/proj/index.ts")).run
      (Module.loadSurface twiceNamedBarrel.volume) =
        .ok [.throughBarrel "a" "./lib/index.ts", .throughBarrel "b" "./lib/index.ts"] := by
    decide +kernel
  obtain ⟨-, -, -, -, -, -, -, -, -, hcovered⟩ := references_cover_issues hreferences hissues
  exact ⟨hreferences, hissues, hcovered⟩

end FlatExports.Diagnostics
