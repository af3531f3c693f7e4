import FlatExports.Diagnostics
import FlatExports.Proofs.Statement.Fixpoint
import FlatExports.Proofs.Statement.Publication

/-!
Diagnostics of a flat root.

Every re-export that a rendered statement stands for names a package or the
module that holds the definition.  So nothing goes through a barrel any more
once the re-exports of a root have given way to its statements, and all that is
left to report are the packages that it passes on whole.
-/

namespace FlatExports

open Resolution
open ExportGroup (ofExports)
open Lookup (StandingFile)

variable {lookup : Lookup} {read : Survey.Reader} {root path file target : Location}
  {surface flat : Surface} {edge : ReExport} {entry : Resolved} {exports : List Resolved}
  {name : String}

/-! ## Issues of re-exports -/

namespace Diagnostics

def exportAll? (path : Location) (edge : ReExport) : Option Issue :=
  if edge.kind = .wildcard then some (.exportAll path.written) else none

theorem issueOf_wildcard (hkind : edge.kind = .wildcard) :
    (issueOf lookup path file edge).run read = .ok (exportAll? path edge) := by
  rw [issueOf, exportAll?, if_pos hkind, if_pos hkind]
  rfl

theorem issueOf_namespaced (hkind : edge.kind = .namespaced) :
    (issueOf lookup path file edge).run read = .ok (exportAll? path edge) := by
  have hother : edge.kind ≠ .wildcard := by simp [hkind]
  rw [issueOf, exportAll?, if_neg hother, if_neg hother, if_pos (by simp [hkind])]
  rfl

theorem issueOf_package (hkind : edge.kind ≠ .wildcard)
    (hexternal : Specifier.isInternal edge.specifier = false) :
    (issueOf lookup path file edge).run read = .ok (exportAll? path edge) := by
  rw [issueOf, exportAll?, if_neg hkind, if_neg hkind, if_pos (by simp [hexternal])]
  rfl

theorem issueOf_module (hwildcard : edge.kind ≠ .wildcard) (hnamespaced : edge.kind ≠ .namespaced)
    (hinternal : Specifier.isInternal edge.specifier = true)
    (himported : edge.importedName = some name)
    (hresolve : lookup.resolve edge.specifier file.parent = .ok target)
    (hread : read target = .ok surface) :
    (issueOf lookup path file edge).run read =
      .ok (if surface.definitionsOf name = [] ∧ passesOn surface name = true then
        some (.throughBarrel (edge.exportedName.getD "") (specifierOf file target))
      else none) := by
  rw [issueOf, if_neg hwildcard, if_neg (by simp [hinternal, hnamespaced])]
  refine Survey.run_bind_eq_ok.mpr ⟨target, hresolve, ?_⟩
  refine Survey.run_bind_eq_ok.mpr ⟨surface, by rwa [Survey.run_look], ?_⟩
  simp only [himported, Option.getD_some, Bool.and_eq_true, List.isEmpty_iff]
  split <;> rfl

theorem issueOf_defined (hkind : edge.kind ≠ .wildcard) (himported : edge.importedName = some name)
    (hresolve : lookup.resolve edge.specifier file.parent = .ok target)
    (hread : read target = .ok surface) (hdefined : surface.definitionsOf name ≠ []) :
    (issueOf lookup path file edge).run read = .ok (exportAll? path edge) := by
  by_cases hnamespaced : edge.kind = .namespaced
  · exact issueOf_namespaced hnamespaced
  by_cases hinternal : Specifier.isInternal edge.specifier = true
  · rw [issueOf_module hkind hnamespaced hinternal himported hresolve hread,
      if_neg fun h => hdefined h.1, exportAll?, if_neg hkind]
  · exact issueOf_package hkind (by simpa using hinternal)

theorem issuesAmong_run {edges : List ReExport} {issue? : ReExport → Option Issue}
    (h : ∀ edge ∈ edges, (issueOf lookup path file edge).run read = .ok (issue? edge)) :
    (issuesAmong lookup path file edges).run read = .ok (edges.filterMap issue?) := by
  induction edges with
  | nil => rfl
  | cons edge rest ih =>
      rw [List.forall_mem_cons] at h
      refine Survey.run_bind_eq_ok.mpr ⟨issue? edge, h.1, ?_⟩
      refine Survey.run_bind_eq_ok.mpr ⟨rest.filterMap issue?, ih h.2, ?_⟩
      rw [List.filterMap_cons]
      cases issue? edge <;> rfl

theorem filterMap_exportAll? (path : Location) (edges : List ReExport) :
    edges.filterMap (exportAll? path) =
      List.replicate (edges.countP (·.kind = .wildcard)) (.exportAll path.written) := by
  induction edges with
  | nil => rfl
  | cons edge rest ih =>
      rw [List.filterMap_cons, exportAll?, List.countP_cons]
      by_cases hkind : edge.kind = .wildcard
      · simp [hkind, ih, List.replicate_succ]
      · simp [hkind, ih]

end Diagnostics

open Diagnostics

/-! ## Re-exports of statements -/

def ReExport.unplaced (edge : ReExport) : ReExport := { edge with position := 0 }

namespace Statement

def Publication.edge? (publication : Publication) : Option ReExport :=
  publication.source.map fun source =>
    match publication.kind with
    | .wildcard => Module.wildcardEdge source publication.typeOnly 0
    | .namespaced => Module.namespaceEdge source publication.exportedName publication.typeOnly 0
    | _ => Module.namedEdge source publication.name publication.exportedName
        publication.typeOnly 0

def edges (statements : List Statement) : List ReExport :=
  (statements.flatMap publications).filterMap Publication.edge?

/-- A root whose re-exports have given way to those of some statements; its definitions are still
there. -/
structure Relinked (surface : Surface) (statements : List Statement) (flat : Surface) :
    Prop where
  definitions : surface.definitions ⊆ flat.definitions
  reExports : flat.reExports.map ReExport.unplaced = edges statements

theorem edge?_of_unbound (hbinding : bindingAt root entry = none) :
    (publicationOf lookup root entry).edge? =
      some (match entry.kind with
        | .wildcard =>
            Module.wildcardEdge (sourceText lookup root entry.origin) entry.typeOnly 0
        | .namespaced =>
            Module.namespaceEdge (sourceText lookup root entry.origin) entry.exportedName
              entry.typeOnly 0
        | _ =>
            Module.namedEdge (sourceText lookup root entry.origin) entry.originName
              entry.exportedName entry.typeOnly 0) := by
  rw [publicationOf, hbinding]
  rfl

theorem edge?_of_home (h : Home root surface entry)
    (hedge : (publicationOf lookup root entry).edge? = some edge) :
    edge = Module.namedEdge (sourceText lookup root root.written) entry.originName
      entry.exportedName entry.typeOnly 0 := by
  have hbinding := bindingAt_of_home h
  cases hlocal : entry.localName with
  | some name =>
      rw [publicationOf, hbinding, hlocal] at hedge
      cases hedge
  | none =>
      rw [edge?_of_unbound (hbinding.trans hlocal), h.kind, h.origin] at hedge
      exact (Option.some.inj hedge).symm

theorem wildcard_edge?_iff (hsteps : ∀ name ∈ root.names, IsStep name)
    (h : Home root surface entry ∨ Sourced lookup read root entry) :
    (∃ edge, (publicationOf lookup root entry).edge? = some edge ∧ edge.kind = .wildcard) ↔
      entry.kind = .wildcard := by
  rcases h with hhome | hsourced
  · constructor
    · rintro ⟨edge, hedge, hkind⟩
      rw [edge?_of_home hhome hedge] at hkind
      exact absurd hkind (edgeKind_named _).1
    · intro hkind
      cases hhome.kind.symm.trans hkind
  · rw [edge?_of_unbound (bindingAt_of_sourced hsourced hsteps)]
    cases hkind : entry.kind with
    | wildcard | namespaced => simp [Module.wildcardEdge, Module.namespaceEdge]
    | named | default => simp [Module.namedEdge, (edgeKind_named _).1]

end Statement

open Statement

theorem Lookup.resolve_default (hdefault : lookup.settings.extensions = Settings.sourceExtensions)
    (specifier : String) (directory : Location) :
    (⟨.default, lookup.volume⟩ : Lookup).resolve specifier directory =
      lookup.resolve specifier directory := by
  have hextensions : Settings.default.extensions = lookup.settings.extensions := hdefault.symm
  simp only [resolve, probe, candidates, Settings.indexFiles, hextensions]

/-! ## A flat root -/

section

variable {statements : List Statement}
  (hdefault : lookup.settings.extensions = Settings.sourceExtensions)
  (hextensions : lookup.PlainExtensions) (hstands : StandingFile lookup.volume root)

include hdefault hextensions hstands

theorem issueOf_home (hdefinitions : surface.definitions ⊆ flat.definitions)
    (h : Home root surface entry) (hedge : (publicationOf lookup root entry).edge? = some edge) :
    (issueOf ⟨.default, lookup.volume⟩ path root edge).run
      (Function.update read root (.ok flat)) = .ok (exportAll? path edge) := by
  obtain ⟨-, -, hlocate⟩ := sourceText_of_standingFile hextensions hstands hstands
  obtain ⟨definition, hmem, hname, -⟩ := h.defined
  have hdefined : flat.definitionsOf entry.originName ≠ [] :=
    List.ne_nil_of_mem (List.mem_filter.mpr
      ⟨hdefinitions hmem, by simpa [Definition.isCalled] using hname⟩)
  rw [edge?_of_home h hedge]
  exact issueOf_defined (edgeKind_named _).1 rfl
    ((Lookup.resolve_default hdefault _ _).trans hlocate) (Function.update_self ..) hdefined

theorem issueOf_sourced (h : Sourced lookup read root entry)
    (hedge : (publicationOf lookup root entry).edge? = some edge) :
    (issueOf ⟨.default, lookup.volume⟩ path root edge).run
      (Function.update read root (.ok flat)) = .ok (exportAll? path edge) := by
  rw [edge?_of_unbound (bindingAt_of_sourced h hstands.isStep), Option.some.injEq] at hedge
  subst hedge
  cases hkind : entry.kind with
  | wildcard => exact issueOf_wildcard rfl
  | namespaced => exact issueOf_namespaced rfl
  | default => exact absurd hkind h.kind_ne_default
  | named =>
      have hwildcard := (edgeKind_named entry.originName).1
      have htext := sourceText_of_sourced hextensions hstands h
      split at htext
      · have hspecifier : Specifier.isInternal (sourceText lookup root entry.origin) = false := by
          rw [htext.1]
          exact htext.2
        exact issueOf_package hwildcard hspecifier
      · rename_i hexternal
        obtain ⟨target, surface, hne, htarget, horigin, hread, hdefined⟩ :=
          h.source.defined hkind (Bool.eq_false_iff.mpr hexternal)
        obtain ⟨-, -, hlocate⟩ := sourceText_of_standingFile hextensions hstands htarget
        have horigin : entry.origin = target.written := horigin
        rw [← horigin] at hlocate
        exact issueOf_defined hwildcard rfl ((Lookup.resolve_default hdefault _ _).trans hlocate)
          ((Function.update_of_ne hne ..).trans hread) hdefined

theorem issueOf_edges
    (hexports : ∀ entry ∈ exports, Home root surface entry ∨ Sourced lookup read root entry)
    (hkeys : (exports.map Resolved.mergeKey).Nodup)
    (hdefinitions : surface.definitions ⊆ flat.definitions)
    (hedge : edge ∈ edges (rootStatements lookup root exports)) :
    (issueOf ⟨.default, lookup.volume⟩ path root edge).run
      (Function.update read root (.ok flat)) = .ok (exportAll? path edge) := by
  obtain ⟨publication, hpublication, hedge⟩ := List.mem_filterMap.mp hedge
  have hperm := publications_rootStatements hstands.isStep hexports hkeys
  obtain ⟨entry, hentry, rfl⟩ := List.mem_map.mp (hperm.mem_iff.mp hpublication)
  rcases hexports entry (mem_published.mp hentry).1 with hhome | hsourced
  · exact issueOf_home hdefault hextensions hstands hdefinitions hhome hedge
  · exact issueOf_sourced hdefault hextensions hstands hsourced hedge

end

theorem countP_edges (hsteps : ∀ name ∈ root.names, IsStep name)
    (hexports : ∀ entry ∈ exports, Home root surface entry ∨ Sourced lookup read root entry)
    (hkeys : (exports.map Resolved.mergeKey).Nodup) :
    (edges (rootStatements lookup root exports)).countP (·.kind = .wildcard) =
      exports.countP (·.kind = .wildcard) := by
  have hread (entry : Resolved) (hentry : entry ∈ exports) :
      (((publicationOf lookup root entry).edge?.map fun edge =>
        decide (edge.kind = .wildcard)).getD false = true) ↔
          decide (entry.kind = .wildcard) = true := by
    rw [decide_eq_true_iff, ← wildcard_edge?_iff hsteps (hexports entry hentry)]
    cases (publicationOf lookup root entry).edge? <;> simp
  have hplace (entry : Resolved) : (decide (entry.kind = .wildcard) && isPublished root entry) =
      decide (entry.kind = .wildcard) := by
    by_cases hkind : entry.kind = .wildcard
    · simp [hkind, isPublished, Resolved.groupKey]
    · simp [hkind]
  rw [edges, List.countP_filterMap,
    (publications_rootStatements hsteps hexports hkeys).countP_eq, List.countP_map]
  refine (List.countP_congr fun entry hentry => hread entry (mem_published.mp hentry).1).trans ?_
  rw [(published_perm hkeys).countP_eq, List.countP_filter]
  simp only [hplace]

theorem issuesAmong_unplaced (edges : List ReExport) :
    issuesAmong lookup path file (edges.map ReExport.unplaced) =
      issuesAmong lookup path file edges := by
  induction edges with
  | nil => rfl
  | cons edge rest ih =>
      rw [List.map_cons, issuesAmong, issuesAmong, ih]
      rfl

/--
A flat root is free of barrels: when its re-exports have given way to those of
the rendered statements, all that is reported of it are the packages that it
still passes on whole, once each.
-/
theorem issues_of_flat (hdefault : lookup.settings.extensions = Settings.sourceExtensions)
    (hstands : StandingFile lookup.volume root) (hread : read root = .ok surface)
    (hpackages : PlainPackages read)
    (hpath : (⟨.default, lookup.volume⟩ : Lookup).resolveFile path = .ok root)
    (hrun : (exportsOf lookup root).run read = .ok exports) :
    ∃ statements, render lookup root (ofExports exports) = .ok statements ∧
      ∀ flat, Relinked surface statements flat →
        (Diagnostics.issues ⟨.default, lookup.volume⟩ path).run
            (Function.update read root (.ok flat)) =
          .ok ((exports.filter fun entry => entry.kind = .wildcard ∧ entry.external).map fun _ =>
            .exportAll path.written) := by
  have hextensions : lookup.PlainExtensions := by
    rw [Lookup.PlainExtensions, hdefault]
    decide
  have hroot : lookup.volume.resolve root = root :=
    Volume.resolve_of_stands hstands.choose_spec
  rw [exportsOf, hroot] at hrun
  obtain ⟨left, surface', lists, hleft, hsurface, hcollects, rfl⟩ := expand_eq_ok.mp hrun
  obtain rfl := ok_inj hread hsurface
  have hexports (entry : Resolved) (hentry : entry ∈ Collected.merge lists.flatten) :
      Home root surface entry ∨ Sourced lookup read root entry :=
    home_or_sourced hpackages hread hstands hleft hcollects hentry
  have hkeys : ((Collected.merge lists.flatten).map Resolved.mergeKey).Nodup :=
    Collected.nodup_mergeKey_merge
  refine ⟨_, render_eq_rootStatements hextensions hstands hexports, fun flat hflat => ?_⟩
  refine Survey.run_bind_eq_ok.mpr ⟨root, hpath, ?_⟩
  refine Survey.run_bind_eq_ok.mpr ⟨flat, ?_, ?_⟩
  · rw [Survey.run_look, Function.update_self]
  rw [← issuesAmong_unplaced, hflat.reExports, issuesAmong_run fun edge hedge =>
    issueOf_edges hdefault hextensions hstands hexports hkeys hflat.definitions hedge]
  have hexternal : (Collected.merge lists.flatten).filter
      (fun entry => entry.kind = .wildcard ∧ entry.external) =
        (Collected.merge lists.flatten).filter (·.kind = .wildcard) := by
    refine List.filter_congr fun entry hentry => ?_
    have hwildcard (hkind : entry.kind = .wildcard) : entry.external = true := by
      rcases hexports entry hentry with hhome | hsourced
      · cases hhome.kind.symm.trans hkind
      · exact hsourced.source.external_of_wildcard hkind
    simpa using hwildcard
  rw [filterMap_exportAll?, countP_edges hstands.isStep hexports hkeys, hexternal,
    List.map_const', List.countP_eq_length_filter]

def returningBarrel : Lookup where
  settings := .default
  volume := .ofTexts
    [("/proj/index.ts", "export default 1; export { n } from './barrel'; export * from './loop';" ++
        " export * from 'pkg';"),
      ("/proj/barrel.ts", "export * from './origin';"),
      ("/proj/loop.ts", "export { default as b } from './index';"),
      ("/proj/origin.ts", "export const n = 1;")]

def returningSurface : Surface :=
  ⟨[⟨.default, none, false, 0, none⟩], [Module.namedEdge "./barrel" "n" "n" false 27,
    Module.wildcardEdge "./loop" false 48, Module.wildcardEdge "pkg" false 72]⟩

def returningSurfaces : List (Location × Surface) :=
  [(.ofPath "/proj/index.ts", returningSurface),
    (.ofPath "/proj/barrel.ts", ⟨[], [Module.wildcardEdge "./origin" false 0]⟩),
    (.ofPath "/proj/loop.ts", ⟨[], [Module.namedEdge "./index" "default" "b" false 9]⟩),
    (.ofPath "/proj/origin.ts", ⟨[⟨.named, some "n", false, 13, none⟩], []⟩)]

theorem exportsOf_returningBarrel :
    (exportsOf returningBarrel (.ofPath "/proj/index.ts")).run
        (Survey.readerOf returningSurfaces) =
      .ok [⟨"default", "/proj/index.ts", "default", false, .named, false, none, true⟩,
        ⟨"n", "/proj/origin.ts", "n", false, .named, false, some "n", false⟩,
        ⟨"b", "/proj/index.ts", "default", false, .named, false, none, false⟩,
        packageWildcard "pkg" false] := by
  have hroot : returningBarrel.volume.resolve (.ofPath "/proj/index.ts") =
      .ofPath "/proj/index.ts" := by decide +kernel
  have hread : Survey.readerOf returningSurfaces (.ofPath "/proj/index.ts") =
      .ok returningSurface := by decide +kernel
  have hitems : returningSurface.items = returningSurface.definitions.map .definition ++
      returningSurface.reExports.map .reExport :=
    Surface.items_of_pairwise rfl (by decide)
  have hnamed : (collectItem (.ofLookup returningBarrel)
      (Resolution.expand (.ofLookup returningBarrel) 255 [.ofPath "/proj/index.ts"] false)
      [.ofPath "/proj/index.ts"] (.ofPath "/proj/index.ts") true
      (.reExport (Module.namedEdge "./barrel" "n" "n" false 27))).run
        (Survey.readerOf returningSurfaces) =
      .ok [⟨⟨"n", "/proj/origin.ts", "n", false, .named, false, some "n", false⟩, false⟩] := by
    decide +kernel
  have hloop : (collectItem (.ofLookup returningBarrel)
      (Resolution.expand (.ofLookup returningBarrel) 255 [.ofPath "/proj/index.ts"] false)
      [.ofPath "/proj/index.ts"] (.ofPath "/proj/index.ts") true
      (.reExport (Module.wildcardEdge "./loop" false 48))).run
        (Survey.readerOf returningSurfaces) =
      .ok [⟨⟨"b", "/proj/index.ts", "default", false, .named, false, none, false⟩, true⟩] := by
    decide +kernel
  rw [exportsOf, hroot]
  exact expand_of_items hread hitems
    (.cons rfl (.cons hnamed (.cons hloop (.cons rfl .nil))))

theorem issues_of_flat_returningBarrel :
    (Diagnostics.issues returningBarrel (.ofPath "/proj/index.ts")).run
        (Survey.readerOf returningSurfaces) =
      .ok [.throughBarrel "n" "./barrel.ts", .exportAll "/proj/index.ts",
        .exportAll "/proj/index.ts"] ∧
      ∃ statements, edges statements = [Module.namedEdge "." "default" "b" false 0,
          Module.namedEdge "./origin" "n" "n" false 0, Module.wildcardEdge "pkg" false 0] ∧
        (Diagnostics.issues returningBarrel (.ofPath "/proj/index.ts")).run
            (Function.update (Survey.readerOf returningSurfaces) (.ofPath "/proj/index.ts")
              (.ok ⟨returningSurface.definitions, edges statements⟩)) =
          .ok [.exportAll "/proj/index.ts"] := by
  have hstands : StandingFile returningBarrel.volume (.ofPath "/proj/index.ts") :=
    Lookup.standingFile_of_resolveFile (.ofPath "/proj/index") (by decide) (by decide +kernel)
  have hread : Survey.readerOf returningSurfaces (.ofPath "/proj/index.ts") =
      .ok returningSurface := by decide +kernel
  have hpackages : PlainPackages (Survey.readerOf returningSurfaces) := by
    intro module surface hread edge hedge
    have hall : ∀ entry ∈ returningSurfaces, ∀ edge ∈ entry.2.reExports,
        Specifier.isInternal edge.specifier = false →
          edge.specifier.toList.head? ≠ some '/' := by
      decide
    exact hall _ (Survey.mem_of_readerOf hread) edge hedge
  have hpath : (⟨.default, returningBarrel.volume⟩ : Lookup).resolveFile
      (.ofPath "/proj/index.ts") = .ok (.ofPath "/proj/index.ts") := by decide +kernel
  obtain ⟨statements, hrender, hissues⟩ := issues_of_flat rfl hstands hread hpackages hpath
    exportsOf_returningBarrel
  have hstatements : (render returningBarrel (.ofPath "/proj/index.ts") (ofExports
      [⟨"default", "/proj/index.ts", "default", false, .named, false, none, true⟩,
        ⟨"n", "/proj/origin.ts", "n", false, .named, false, some "n", false⟩,
        ⟨"b", "/proj/index.ts", "default", false, .named, false, none, false⟩,
        packageWildcard "pkg" false])).map edges =
      .ok [Module.namedEdge "." "default" "b" false 0,
        Module.namedEdge "./origin" "n" "n" false 0, Module.wildcardEdge "pkg" false 0] := by
    decide +kernel
  rw [hrender] at hstatements
  have hedges : edges statements = [Module.namedEdge "." "default" "b" false 0,
      Module.namedEdge "./origin" "n" "n" false 0, Module.wildcardEdge "pkg" false 0] :=
    Except.ok.inj hstatements
  have hflat : Relinked returningSurface statements
      ⟨returningSurface.definitions, edges statements⟩ :=
    ⟨List.Subset.refl _, by rw [hedges]; rfl⟩
  exact ⟨by decide +kernel, statements, hedges, hissues _ hflat⟩

end FlatExports
