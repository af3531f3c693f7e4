import FlatExports.Proofs.Diagnostics

/-!
Issues and traces.

The issue of a re-export is decided by the module it names alone, while a trace
looks for the name behind that module.  A re-export without an issue always gets
its name there and then.  The converse fails for names of packages: an internal
wildcard makes the re-export an issue even if it provides nothing and the name
comes from a package that the same module passes on.
-/

namespace FlatExports.Diagnostics

open Resolution

variable {lookup : Lookup} {read : Survey.Reader} {path file target : Location}
  {surface passed : Surface} {edge : ReExport} {name : String} {edges : List ReExport}
  {reports : List Issue} {resolver : Resolver}

/-! ## The issue of each re-export -/

/-- What is reported for a re-export, as far as it can be checked. -/
def reportOf (lookup : Lookup) (read : Survey.Reader) (path file : Location) (edge : ReExport) :
    Option Issue :=
  ((issueOf lookup path file edge).run read).toOption.join

theorem reportOf_eq {issue? : Option Issue}
    (h : (issueOf lookup path file edge).run read = .ok issue?) :
    reportOf lookup read path file edge = issue? := by
  rw [reportOf, h]
  rfl

theorem issueOf_of_issuesAmong (hrun : (issuesAmong lookup path file edges).run read = .ok reports) :
    ∀ edge ∈ edges,
      (issueOf lookup path file edge).run read = .ok (reportOf lookup read path file edge) := by
  induction edges generalizing reports with
  | nil => exact List.forall_mem_nil _
  | cons edge rest ih =>
      obtain ⟨issue?, hissue, hrun⟩ := Survey.run_bind_eq_ok.mp hrun
      obtain ⟨others, hothers, -⟩ := Survey.run_bind_eq_ok.mp hrun
      exact List.forall_mem_cons.mpr ⟨by rw [hissue, reportOf_eq hissue], ih hothers⟩

theorem issuesAmong_eq_filterMap
    (hrun : (issuesAmong lookup path file edges).run read = .ok reports) :
    reports = edges.filterMap (reportOf lookup read path file) :=
  ok_inj hrun (issuesAmong_run (issueOf_of_issuesAmong hrun))

/-! ## Modules that pass a name on -/

theorem not_step {next : Hop} {typed : Bool} (hread : read target = .ok surface)
    (h : ¬(surface.definitionsOf name = [] ∧ passesOn surface name = true)) :
    ¬Step resolver read ⟨target, name⟩ typed next := by
  intro hstep
  cases hstep with
  | edge hread' hundefined hedge _ _ hinternal =>
      obtain rfl := ok_inj hread hread'
      refine h ⟨hundefined, ?_⟩
      rw [passesOn, hedge]
      exact hinternal
  | wildcard hread' hundefined hunnamed _ hwildcard hinternal =>
      obtain rfl := ok_inj hread hread'
      refine h ⟨hundefined, ?_⟩
      rw [passesOn, hunnamed, List.any_eq_true]
      exact ⟨_, hwildcard, hinternal⟩

theorem not_trail {hops : List Hop} {typed : Bool} {provenance : Provenance}
    (hread : read target = .ok surface) (hundefined : surface.definitionsOf name = [])
    (hunnamed : surface.reExportOf? name = none) (hwildcards : surface.wildcards = []) :
    ¬Trail resolver read (⟨target, name⟩ :: hops) typed provenance := by
  intro htrail
  cases htrail with
  | step hstep => exact not_step hread (by simp [passesOn, hunnamed, hwildcards]) hstep
  | ends hends =>
      cases hends with
      | definition hread' hdefined =>
          obtain rfl := ok_inj hread hread'
          exact hdefined hundefined
      | packageWildcard hread' _ _ _ honly =>
          obtain rfl := ok_inj hread hread'
          simp [hwildcards] at honly
      | packageEdge hread' _ hedge | packageNamespace hread' _ hedge
      | moduleNamespace hread' _ hedge =>
          obtain rfl := ok_inj hread hread'
          simp [hunnamed] at hedge

theorem passesOn_of_ends {typed : Bool} {provenance : Provenance}
    (hread : read target = .ok surface)
    (hends : Ends resolver read ⟨target, name⟩ typed provenance)
    (hexternal : provenance.external = true) :
    (surface.definitionsOf name = [] ∧ passesOn surface name = true) ↔
      surface.reExportOf? name = none ∧
        ∃ wildcard ∈ surface.wildcards, Specifier.isInternal wildcard.specifier = true := by
  have hrenamed {other : ReExport} (hother : surface.reExportOf? name = some other)
      (hpackage : Specifier.isInternal other.specifier = false) :
      (surface.definitionsOf name = [] ∧ passesOn surface name = true) ↔
        surface.reExportOf? name = none ∧
          ∃ wildcard ∈ surface.wildcards, Specifier.isInternal wildcard.specifier = true := by
    simp [passesOn, hother, hpackage]
  cases hends with
  | definition => cases hexternal
  | moduleNamespace => cases hexternal
  | packageEdge hread' _ hedge _ _ hpackage =>
      obtain rfl := ok_inj hread hread'
      exact hrenamed hedge hpackage
  | packageNamespace hread' _ hedge _ hpackage =>
      obtain rfl := ok_inj hread hread'
      exact hrenamed hedge hpackage
  | packageWildcard hread' hundefined hunnamed =>
      obtain rfl := ok_inj hread hread'
      simp [passesOn, hundefined, hunnamed]

/--
Issues are reported re-export by re-export, in their order.  A re-export that
can be followed and has no issue is provided by the module it names, with no
further module on the way.  One whose name that module gets from a package has
an issue exactly if the module does not re-export the name but has an internal
wildcard.
-/
theorem issues_agree_with_follow (hrun : (issues lookup path).run read = .ok reports) :
    ∃ file surface, lookup.resolveFile path = .ok file ∧ read file = .ok surface ∧
      reports = surface.reExports.filterMap (reportOf lookup read path file) ∧
      ∀ edge ∈ surface.reExports, edge.kind = .named ∨ edge.kind = .default →
        Specifier.isInternal edge.specifier = true →
          ∀ found, (follow (.ofLookup lookup) file edge).run read = .ok found →
            ∃ exported imported target passed,
              edge.exportedName = some exported ∧ edge.importedName = some imported ∧
              lookup.resolve edge.specifier file.parent = .ok target ∧
              read target = .ok passed ∧
              (reportOf lookup read path file edge = none →
                (∀ typed next, ¬Step (.ofLookup lookup) read ⟨target, imported⟩ typed next) ∧
                ∃ typed, Ends (.ofLookup lookup) read ⟨target, imported⟩ typed
                  found.provenance) ∧
              ∀ typed, Ends (.ofLookup lookup) read ⟨target, imported⟩ typed found.provenance →
                found.external = true →
                  reportOf lookup read path file edge =
                    if passed.reExportOf? imported = none ∧ ∃ wildcard ∈ passed.wildcards,
                        Specifier.isInternal wildcard.specifier = true then
                      some (.throughBarrel exported (specifierOf file target))
                    else none := by
  obtain ⟨file, hpath, hrun⟩ := Survey.run_bind_eq_ok.mp hrun
  obtain ⟨surface, hread, hrun⟩ := Survey.run_bind_eq_ok.mp hrun
  rw [Survey.run_look] at hread
  refine ⟨file, surface, hpath, hread, issuesAmong_eq_filterMap hrun, ?_⟩
  intro edge _ hkind hinternal found hfollow
  obtain ⟨exported, imported, hexported, himported, hfound⟩ := follow_eq_ok hfollow
  rw [if_pos hinternal] at hfound
  obtain ⟨target, whole, hlocate, htrace, rfl⟩ := hfound
  obtain ⟨-, _, passed, -, hpassed, -⟩ := trace_eq_ok htrace
  obtain ⟨hops, typed, -, htrail, -⟩ := trace_trail (List.nodup_singleton _) htrace
  have hreport : reportOf lookup read path file edge =
      if passed.definitionsOf imported = [] ∧ passesOn passed imported = true then
        some (.throughBarrel exported (specifierOf file target))
      else none := by
    have hissue : (issueOf lookup path file edge).run read = _ :=
      issueOf_module (by rcases hkind with h | h <;> simp [h])
        (by rcases hkind with h | h <;> simp [h]) hinternal himported hlocate hpassed
    rw [reportOf_eq hissue, hexported, Option.getD_some]
  refine ⟨exported, imported, target, passed, hexported, himported, hlocate, hpassed, ?_, ?_⟩
  · intro hnone
    have hkept : ¬(passed.definitionsOf imported = [] ∧ passesOn passed imported = true) := by
      intro hpasses
      rw [hreport, if_pos hpasses] at hnone
      cases hnone
    refine ⟨fun _ _ => not_step hpassed hkept, ?_⟩
    cases htrail with
    | ends hends => exact ⟨_, hends⟩
    | step hstep => exact absurd hstep (not_step hpassed hkept)
  · intro typed hends hexternal
    rw [hreport]
    exact if_congr (passesOn_of_ends hpassed hends hexternal) rfl rfl

def packageBehindWildcard : Lookup where
  settings := .default
  volume := .ofTexts
    [("/proj/index.ts", "export { n } from './m';"),
      ("/proj/m.ts", "export * from './a';\nexport * from 'pkg';"),
      ("/proj/a.ts", "export const b = 1;")]

theorem read_packageBehindWildcard :
    Module.loadSurface packageBehindWildcard.volume (.ofPath "/proj/index.ts") =
        .ok ⟨[], [Module.namedEdge "./m" "n" "n" false 9]⟩ ∧
      Module.loadSurface packageBehindWildcard.volume (.ofPath "/proj/m.ts") =
        .ok ⟨[], [Module.wildcardEdge "./a" false 0, Module.wildcardEdge "pkg" false 21]⟩ ∧
      Module.loadSurface packageBehindWildcard.volume (.ofPath "/proj/a.ts") =
        .ok ⟨[⟨.named, some "b", false, 13, none⟩], []⟩ := by
  decide +kernel

theorem ends_packageBehindWildcard :
    Ends (.ofLookup packageBehindWildcard) (Module.loadSurface packageBehindWildcard.volume)
      ⟨.ofPath "/proj/m.ts", "n"⟩ false ⟨.named, "pkg", "n", true⟩ :=
  .packageWildcard read_packageBehindWildcard.2.1 rfl rfl (by decide) rfl

theorem answers_packageBehindWildcard :
    (follow (.ofLookup packageBehindWildcard) (.ofPath "/proj/index.ts")
        (Module.namedEdge "./m" "n" "n" false 9)).run
          (Module.loadSurface packageBehindWildcard.volume) =
        .ok (fromPackage "pkg" "n" "n" false) ∧
      (issues packageBehindWildcard (.ofPath "/proj/index.ts")).run
          (Module.loadSurface packageBehindWildcard.volume) =
        .ok [.throughBarrel "n" "./m.ts"] := by
  decide +kernel

theorem issues_agree_with_follow_packageBehindWildcard :
    (issues packageBehindWildcard (.ofPath "/proj/index.ts")).run
        (Module.loadSurface packageBehindWildcard.volume) =
      .ok [.throughBarrel "n" "./m.ts"] ∧
    reportOf packageBehindWildcard (Module.loadSurface packageBehindWildcard.volume)
        (.ofPath "/proj/index.ts") (.ofPath "/proj/index.ts")
        (Module.namedEdge "./m" "n" "n" false 9) =
      some (.throughBarrel "n" "./m.ts") := by
  have hfile : packageBehindWildcard.resolveFile (.ofPath "/proj/index.ts") =
      .ok (.ofPath "/proj/index.ts") := by decide +kernel
  have htarget : packageBehindWildcard.resolve "./m" (Location.ofPath "/proj/index.ts").parent =
      .ok (.ofPath "/proj/m.ts") := by decide +kernel
  obtain ⟨hindex, hm, -⟩ := read_packageBehindWildcard
  obtain ⟨hfollow, hissues⟩ := answers_packageBehindWildcard
  obtain ⟨file, surface, hpath, hread, -, hall⟩ := issues_agree_with_follow hissues
  obtain rfl := ok_inj hfile hpath
  obtain rfl := ok_inj hindex hread
  obtain ⟨exported, imported, target, passed, hexported, himported, hlocate, hpassed, -, hpackage⟩ :=
    hall _ List.mem_cons_self (.inl rfl) (by decide) _ hfollow
  cases hexported
  cases himported
  obtain rfl := ok_inj htarget hlocate
  obtain rfl := ok_inj hm hpassed
  refine ⟨hissues, ?_⟩
  rw [hpackage false ends_packageBehindWildcard rfl]
  decide +kernel

/-- A name is an issue although its trail goes no further than the module that gets it from a
package. -/
theorem package_name_is_issue :
    ∃ found, (follow (.ofLookup packageBehindWildcard) (.ofPath "/proj/index.ts")
        (Module.namedEdge "./m" "n" "n" false 9)).run
          (Module.loadSurface packageBehindWildcard.volume) = .ok found ∧
      found.external = true ∧
      (∀ hops typed provenance,
        Trail (.ofLookup packageBehindWildcard) (Module.loadSurface packageBehindWildcard.volume)
          (⟨.ofPath "/proj/m.ts", "n"⟩ :: hops) typed provenance → hops = []) ∧
      (issues packageBehindWildcard (.ofPath "/proj/index.ts")).run
          (Module.loadSurface packageBehindWildcard.volume) =
        .ok [.throughBarrel "n" "./m.ts"] := by
  obtain ⟨-, hm, ha⟩ := read_packageBehindWildcard
  obtain ⟨hfollow, hissues⟩ := answers_packageBehindWildcard
  have htarget : (Resolver.ofLookup packageBehindWildcard).locate "./a" (.ofPath "/proj/m.ts") =
      .ok (.ofPath "/proj/a.ts") := by decide +kernel
  refine ⟨_, hfollow, rfl, ?_, hissues⟩
  intro hops typed provenance htrail
  cases htrail with
  | ends => rfl
  | step hstep hrest =>
      cases hstep with
      | edge hread _ hedge =>
          obtain rfl := ok_inj hm hread
          cases hedge
      | wildcard hread _ _ _ hedge hinternal hlocate =>
          obtain rfl := ok_inj hm hread
          rcases List.mem_pair.mp hedge with rfl | rfl
          · obtain rfl := ok_inj htarget hlocate
            exact absurd hrest (not_trail ha rfl rfl rfl)
          · exact absurd hinternal (by decide)

end FlatExports.Diagnostics
