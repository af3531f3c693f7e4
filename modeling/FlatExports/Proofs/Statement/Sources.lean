import FlatExports.Proofs.Resolution.Supply
import FlatExports.Statement.Render

/-!
Whom the source of a group speaks for.

A group has one origin and one flag, those of its first export, and one source
for all its exports.  The exports of a group agree on the origin, but a module
and a package have one origin where the package is named by the very path of
the module.
-/

namespace FlatExports.Statement

open Relation Resolution
open ExportGroup (gather ofExports start)

variable {lookup : Lookup} {resolver : Resolver} {read : Survey.Reader} {root : Location}
  {module : Location} {entry : Resolved} {exports : List Resolved} {group : ExportGroup}
  {origin : String}

/-- A text that is the path of a module and also what a module names a package by, where the
re-exports of one module link to both. -/
def Contested (resolver : Resolver) (read : Survey.Reader) (module : Location)
    (origin : String) : Prop :=
  (∃ target, ReflTransGen (Links resolver read) module target ∧ origin = target.written) ∧
    ∃ target, ReflTransGen (Links resolver read) module target ∧ NamesPackage read target origin

theorem contested_of_ne {other : Resolved} (hentry : Supplied resolver read module entry)
    (hother : Supplied resolver read module other) (horigin : other.origin = entry.origin)
    (hflag : other.external ≠ entry.external) :
    Contested resolver read module entry.origin := by
  cases hexternal : entry.external with
  | true =>
      rw [hexternal, ne_eq, Bool.not_eq_true] at hflag
      exact ⟨horigin ▸ hother.path_of_internal hflag, hentry.package_of_external hexternal⟩
  | false =>
      rw [hexternal, ne_eq, Bool.not_eq_false] at hflag
      exact ⟨hentry.path_of_internal hexternal, horigin ▸ hother.package_of_external hflag⟩

theorem not_contested (hpackages : PlainPackages read) :
    ¬Contested resolver read module origin := by
  rintro ⟨⟨target, -, rfl⟩, module, -, surface, hread, edge, hedge, hexternal, hspecifier⟩
  have hrelative := hpackages module surface hread edge hedge hexternal
  rw [hspecifier] at hrelative
  exact hrelative (Location.written_head target)

theorem flag_of_group (hrun : (exportsOf lookup root).run read = .ok exports)
    (hgroup : group ∈ ofExports exports) (hentry : entry ∈ group.exports) :
    entry.origin = group.origin ∧
      (entry.external = group.external ∨
        Contested (.ofLookup lookup) read (lookup.volume.resolve root) group.origin) := by
  obtain ⟨first, hfirst, horigin, hflag⟩ := ExportGroup.exists_first hgroup
  obtain ⟨hmem, horigin', -⟩ := ExportGroup.mem_group hgroup hentry
  refine ⟨horigin', ?_⟩
  by_cases hsame : entry.external = first.external
  · exact .inl (hsame.trans hflag)
  · have hcontested := contested_of_ne (supplied_of_expand hrun hfirst)
      (supplied_of_expand hrun hmem) (horigin'.trans horigin.symm) hsame
    exact .inr (horigin ▸ hcontested)

/-- Where no package is named by an absolute path, the flag of a group is that of its exports. -/
theorem external_of_group (hpackages : PlainPackages read)
    (hrun : (exportsOf lookup root).run read = .ok exports) (hgroup : group ∈ ofExports exports)
    (hentry : entry ∈ group.exports) : entry.external = group.external :=
  (flag_of_group hrun hgroup hentry).2.resolve_right (not_contested hpackages)

/--
The exports of a group share its origin.  Each of them has the flag and the
source of the group as well, unless the root links to a module of that path and
to one that names a package by it.
-/
theorem source_of_group (hrun : (exportsOf lookup root).run read = .ok exports)
    (hgroup : group ∈ ofExports exports) (hentry : entry ∈ group.exports) :
    entry.origin = group.origin ∧
      (entry.external = group.external ∧
          sourceOf lookup root (start entry) = sourceOf lookup root group ∨
        Contested (.ofLookup lookup) read (lookup.volume.resolve root) group.origin) := by
  obtain ⟨horigin, hflag | hcontested⟩ := flag_of_group hrun hgroup hentry
  · refine ⟨horigin, .inl ⟨hflag, ?_⟩⟩
    simp [sourceOf, start, horigin, hflag]
  · exact ⟨horigin, .inr hcontested⟩

def absoluteBarrel : Lookup where
  settings := .default
  volume := .ofTexts
    [("/proj/index.ts", "export const a = 1; export { a as c } from '/proj/index.ts';")]

def absoluteExports : List Resolved :=
  [⟨"a", "/proj/index.ts", "a", false, .named, false, none, true⟩,
    ⟨"c", "/proj/index.ts", "a", false, .named, true, none, false⟩]

theorem exportsOf_absoluteBarrel :
    (exportsOf absoluteBarrel (.ofPath "/proj/index.ts")).run
        (Module.loadSurface absoluteBarrel.volume) = .ok absoluteExports := by
  have hroot : absoluteBarrel.volume.resolve (.ofPath "/proj/index.ts") =
      .ofPath "/proj/index.ts" := by decide +kernel
  have hread : Module.loadSurface absoluteBarrel.volume (.ofPath "/proj/index.ts") =
      .ok ⟨[⟨.named, some "a", false, 13, none⟩],
        [Module.namedEdge "/proj/index.ts" "a" "c" false 29]⟩ := by decide +kernel
  have hpackage : (collectItem (.ofLookup absoluteBarrel)
      (Resolution.expand (.ofLookup absoluteBarrel) 255 [.ofPath "/proj/index.ts"] false)
      [.ofPath "/proj/index.ts"] (.ofPath "/proj/index.ts") true
      (.reExport (Module.namedEdge "/proj/index.ts" "a" "c" false 29))).run
        (Module.loadSurface absoluteBarrel.volume) =
      .ok [⟨⟨"c", "/proj/index.ts", "a", false, .named, true, none, false⟩, false⟩] := by
    decide +kernel
  rw [exportsOf, hroot]
  exact expand_of_items hread (Surface.items_of_pairwise rfl (by decide))
    (.cons rfl (.cons hpackage .nil))

theorem source_of_group_absoluteBarrel :
    Contested (.ofLookup absoluteBarrel) (Module.loadSurface absoluteBarrel.volume)
      (absoluteBarrel.volume.resolve (.ofPath "/proj/index.ts")) "/proj/index.ts" := by
  have hgroup : ⟨"/proj/index.ts", false, .named, absoluteExports⟩ ∈ ofExports absoluteExports := by
    decide +kernel
  have hentry : ⟨"c", "/proj/index.ts", "a", false, .named, true, none, false⟩ ∈
      absoluteExports := by decide
  obtain ⟨-, ⟨hflag, -⟩ | hcontested⟩ :=
    source_of_group exportsOf_absoluteBarrel hgroup hentry
  · cases hflag
  · exact hcontested

/-- A group can hold what a module defines next to what a package exports, which no one source is
right for. -/
theorem group_of_module_and_package :
    ∃ lookup root exports,
      (exportsOf lookup root).run (Module.loadSurface lookup.volume) = .ok exports ∧
        ∃ group ∈ ofExports exports, ∃ entry ∈ group.exports,
          entry.external ≠ group.external ∧
            sourceOf lookup root (start entry) ≠ sourceOf lookup root group :=
  ⟨absoluteBarrel, .ofPath "/proj/index.ts", absoluteExports, exportsOf_absoluteBarrel,
    ⟨"/proj/index.ts", false, .named, absoluteExports⟩, by decide +kernel,
    ⟨"c", "/proj/index.ts", "a", false, .named, true, none, false⟩, by decide, by decide,
    by decide +kernel⟩

end FlatExports.Statement
