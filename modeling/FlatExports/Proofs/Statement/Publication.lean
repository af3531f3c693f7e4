import FlatExports.Proofs.Module.Span
import FlatExports.Proofs.Resolution.Home
import FlatExports.Proofs.Statement.Items
import FlatExports.Proofs.Volume.Resolve
import Mathlib.Data.List.Perm.Basic

/-!
What statements publish.

A statement publishes its specifiers one by one, or a package or a namespace.
The statements of a root publish each of its exports once, apart from those
that stay in place, and what stays in place is written outside the statements
that they replace.
-/

namespace FlatExports.Statement

open Resolution
open ExportGroup (keysOf membersOf ofExports gather)
open Lookup (StandingFile)

variable {lookup : Lookup} {read : Survey.Reader} {root : Location} {surface : Surface}
  {entry : Resolved} {members exports : List Resolved} {key : GroupKey}

/-- One name that a statement publishes, and what it is called at its source. -/
structure Publication where
  kind : ExportKind
  source : Option String
  name : String
  exportedName : String
  typeOnly : Bool
  deriving DecidableEq, Repr

def Publication.mergeKey (publication : Publication) : MergeKey :=
  if publication.kind = .wildcard then .package (publication.source.getD "")
  else .name publication.exportedName

def publications (statement : Statement) : List Publication :=
  match statement.kind with
  | .named => statement.specifiers.map fun specifier =>
      ⟨.named, statement.source, specifier.localName, specifier.exportedName,
        statement.typeOnly || specifier.typeOnly⟩
  | .wildcard =>
      [⟨.wildcard, statement.source, wildcardName, wildcardName, statement.typeOnly⟩]
  | .namespaced =>
      [⟨.namespaced, statement.source, wildcardName, statement.publishedAs.getD "",
        statement.typeOnly⟩]

/-! ## The publication of an export -/

def bindingAt (root : Location) (entry : Resolved) : Option String :=
  if entry.groupKey = .named root.written then entry.localName else none

def publicationOf (lookup : Lookup) (root : Location) (entry : Resolved) : Publication :=
  match bindingAt root entry with
  | some name => ⟨.named, none, name, entry.exportedName, entry.typeOnly⟩
  | none => ⟨entry.kind, some (sourceText lookup root entry.origin), entry.originName,
      entry.exportedName, entry.typeOnly⟩

/-- A publication stands for an export: it has its name, its modifier and its origin, which is a
package, the module its source leads to, or a definition of the root under its binding. -/
structure Publishes (lookup : Lookup) (root : Location) (surface : Surface) (entry : Resolved)
    (publication : Publication) : Prop where
  kind : publication.kind = entry.kind
  exportedName : publication.exportedName = entry.exportedName
  typeOnly : publication.typeOnly = entry.typeOnly
  origin : match publication.source with
    | none => entry.origin = root.written ∧ ∃ definition ∈ surface.definitions,
        definition.exportName? = some entry.originName ∧
          (definition.localName = some publication.name ∨
            bindingOf definition = some publication.name)
    | some source => publication.name = entry.originName ∧
        if entry.external then source = entry.origin
        else Specifier.isInternal source = true ∧ ∃ target, target.written = entry.origin ∧
          (Resolver.ofLookup lookup).locate source root = .ok target

theorem bindingAt_of_sourced (h : Sourced lookup read root entry)
    (hsteps : ∀ name ∈ root.names, IsStep name) : bindingAt root entry = none := by
  rw [bindingAt, if_neg (h.groupKey_ne hsteps)]

theorem bindingAt_of_home (h : Home root surface entry) :
    bindingAt root entry = entry.localName := by
  rw [bindingAt, if_pos h.groupKey]

section

variable (hextensions : lookup.PlainExtensions) (hstands : StandingFile lookup.volume root)

include hextensions hstands

theorem publishes_home (h : Home root surface entry) :
    Publishes lookup root surface entry (publicationOf lookup root entry) := by
  rw [publicationOf, bindingAt_of_home h]
  cases hlocal : entry.localName with
  | some name =>
      obtain ⟨definition, hmem, hname, hbound⟩ := h.defined
      refine ⟨h.kind.symm, rfl, rfl, h.origin, definition, hmem, hname, ?_⟩
      rcases hbound with ⟨-, hdefined, -⟩ | ⟨-, hdefined⟩
      · exact .inl (hdefined.symm.trans hlocal)
      · exact .inr (hdefined.symm.trans hlocal)
  | none =>
      obtain ⟨-, hinternal, hlocate⟩ := sourceText_of_standingFile hextensions hstands hstands
      refine ⟨rfl, rfl, rfl, rfl, ?_⟩
      rw [if_neg (by simp [h.internal]), h.origin]
      exact ⟨hinternal, root, rfl, hlocate⟩

theorem publishes_sourced (h : Sourced lookup read root entry) :
    Publishes lookup root surface entry (publicationOf lookup root entry) := by
  have hsteps := hstands.isStep
  rw [publicationOf, bindingAt_of_sourced h hsteps]
  refine ⟨rfl, rfl, rfl, rfl, ?_⟩
  have htext := sourceText_of_sourced hextensions hstands h
  split at htext
  · rename_i hexternal
    rw [if_pos hexternal]
    exact htext.1
  · rename_i hinternal
    obtain ⟨target, hwritten, -, -, hsource, hlocate⟩ := htext
    rw [if_neg hinternal]
    exact ⟨hsource, target, hwritten, hlocate⟩

theorem publishes (h : Home root surface entry ∨ Sourced lookup read root entry) :
    Publishes lookup root surface entry (publicationOf lookup root entry) :=
  h.elim (publishes_home hextensions hstands) (publishes_sourced hextensions hstands)

end

theorem mergeKey_publicationOf (hsteps : ∀ name ∈ root.names, IsStep name)
    (h : Home root surface entry ∨ Sourced lookup read root entry) :
    (publicationOf lookup root entry).mergeKey = entry.mergeKey := by
  rcases h with hhome | hsourced
  · have hkey : entry.mergeKey = .name entry.exportedName :=
      Resolved.mergeKey_eq_name.mpr ⟨by simp [hhome.kind], rfl⟩
    rw [hkey, publicationOf]
    cases bindingAt root entry <;> simp [Publication.mergeKey, hhome.kind]
  · rw [publicationOf, bindingAt_of_sourced hsourced hsteps]
    by_cases hkind : entry.kind = .wildcard
    · have horigin : sourceText lookup root entry.origin = entry.origin :=
        if_neg (hsourced.source.relative_of_wildcard hkind)
      simp [Publication.mergeKey, Resolved.mergeKey, hkind, horigin]
    · simp [Publication.mergeKey, Resolved.mergeKey, hkind]

/-! ## The statements of one key -/

def keyStatements (lookup : Lookup) (root : Location) (key : GroupKey) (members : List Resolved) :
    List Statement :=
  if key = .named root.written then homeStatements lookup root members
  else statementsOf lookup root key members

theorem isPublished_of_home (h : Home root surface entry) :
    isPublished root entry = !entry.inline := by
  simp [isPublished, h.groupKey]

theorem map_localSpecifiers (hhome : ∀ entry ∈ members, Home root surface entry) :
    (localSpecifiers members).map (fun specifier => (⟨.named, none, specifier.localName,
        specifier.exportedName, specifier.typeOnly⟩ : Publication)) =
      ((members.filter (isPublished root)).filter (·.localName.isSome)).map
        (publicationOf lookup root) := by
  induction members with
  | nil => rfl
  | cons first rest ih =>
      rw [List.forall_mem_cons] at hhome
      have hrest := ih hhome.2
      rw [localSpecifiers, List.filterMap_cons, ← localSpecifiers, List.filter_cons,
        isPublished_of_home hhome.1]
      cases hinline : first.inline with
      | true => simpa using hrest
      | false =>
          cases hlocal : first.localName with
          | none => simpa [hlocal] using hrest
          | some name =>
              simp [hlocal, hrest, publicationOf, bindingAt_of_home hhome.1]

theorem map_selfSpecifiers (hhome : ∀ entry ∈ members, Home root surface entry) :
    (selfSpecifiers members).map (fun specifier => (⟨.named,
        some (sourceText lookup root root.written), specifier.localName, specifier.exportedName,
        specifier.typeOnly⟩ : Publication)) =
      ((members.filter (isPublished root)).filter (fun entry => !entry.localName.isSome)).map
        (publicationOf lookup root) := by
  rw [selfSpecifiers, List.map_map, List.filter_filter]
  have hfilter : members.filter (fun entry => !entry.inline && entry.localName.isNone) =
      members.filter fun entry => !entry.localName.isSome && isPublished root entry := by
    refine List.filter_congr fun entry hentry => ?_
    rw [isPublished_of_home (hhome entry hentry), Bool.and_comm]
    simp
  rw [hfilter]
  refine List.map_congr_left fun entry hentry => ?_
  obtain ⟨hmem, hflags⟩ := List.mem_filter.mp hentry
  have hlocal : entry.localName = none := by
    simp only [Bool.and_eq_true, Bool.not_eq_true', Option.isSome_eq_false_iff] at hflags
    exact Option.isNone_iff_eq_none.mp hflags.1
  have hentry := hhome entry hmem
  simp [publicationOf, bindingAt_of_home hentry, hlocal, originSpecifier, hentry.kind,
    hentry.origin]

theorem publications_homeStatements (hhome : ∀ entry ∈ members, Home root surface entry) :
    ((homeStatements lookup root members).flatMap publications).Perm
      ((members.filter (isPublished root)).map (publicationOf lookup root)) := by
  have hall : (homeStatements lookup root members).flatMap publications =
      (localSpecifiers members).map (fun specifier => (⟨.named, none, specifier.localName,
        specifier.exportedName, specifier.typeOnly⟩ : Publication)) ++
      (selfSpecifiers members).map (fun specifier => (⟨.named,
        some (sourceText lookup root root.written), specifier.localName, specifier.exportedName,
        specifier.typeOnly⟩ : Publication)) := by
    rw [homeStatements, List.flatMap_append]
    congr 1
    · cases localSpecifiers members <;> simp [publications, named]
    · cases selfSpecifiers members <;> simp [publications, named]
  rw [hall, map_localSpecifiers hhome, map_selfSpecifiers hhome, ← List.map_append]
  exact (List.filter_append_perm _ _).map _

theorem publications_statementsOf (hsteps : ∀ name ∈ root.names, IsStep name)
    (hforeign : key ≠ .named root.written)
    (hmembers : ∀ entry ∈ members, Sourced lookup read root entry ∧ entry.groupKey = key)
    (hsingle : ∀ kind origin name, key = .single kind origin name → ∃ entry, members = [entry]) :
    (statementsOf lookup root key members).flatMap publications =
      members.map (publicationOf lookup root) := by
  cases key with
  | named origin =>
      have horigin : origin ≠ root.written := fun heq => hforeign (heq ▸ rfl)
      rw [statementsOf, if_neg horigin]
      simp only [List.flatMap_singleton, publications, named, List.map_map]
      refine List.map_congr_left fun entry hentry => ?_
      obtain ⟨hsourced, hkey⟩ := hmembers entry hentry
      obtain ⟨hkind, rfl⟩ := Resolved.groupKey_eq_named.mp hkey
      simp [publicationOf, bindingAt_of_sourced hsourced hsteps, originSpecifier, hkind]
  | single kind origin name =>
      obtain ⟨entry, rfl⟩ := hsingle kind origin name rfl
      obtain ⟨hsourced, hkey⟩ := hmembers entry (List.mem_singleton_self entry)
      obtain ⟨hkind, rfl, rfl, rfl⟩ := Resolved.groupKey_eq_single.mp hkey
      have hbinding := bindingAt_of_sourced hsourced hsteps
      have hname : entry.originName = wildcardName := hsourced.source.originName_eq hkind
      cases hwhich : entry.kind with
      | named => exact absurd hwhich hkind
      | default => exact absurd hwhich hsourced.kind_ne_default
      | wildcard =>
          simp [statementsOf, publications, wildcard, publicationOf, hbinding, hwhich, hname,
            hsourced.unnamed hwhich]
      | namespaced =>
          simp [statementsOf, publications, namespaceOf, publicationOf, hbinding, hwhich, hname]

/-! ## All statements of a root -/

def rootStatements (lookup : Lookup) (root : Location) (exports : List Resolved) :
    List Statement :=
  (keysOf exports).flatMap fun key => keyStatements lookup root key (membersOf exports key)

theorem render_eq_rootStatements (hextensions : lookup.PlainExtensions)
    (hstands : StandingFile lookup.volume root)
    (hexports : ∀ entry ∈ exports, Home root surface entry ∨ Sourced lookup read root entry) :
    render lookup root (ofExports exports) = .ok (rootStatements lookup root exports) := by
  have hsteps := hstands.isStep
  refine render_of_keys fun first rest hmember => ?_
  rcases hexports first (hmember first List.mem_cons_self).1 with hhome | hsourced
  · rw [keyStatements, if_pos hhome.groupKey]
    exact renderGroup_home hsteps hhome.kind hhome.origin hhome.internal
      fun _ => (sourceText_of_standingFile hextensions hstands hstands).1
  · rw [keyStatements, if_neg (hsourced.groupKey_ne hsteps)]
    exact renderGroup_sourced hextensions hstands hsourced

/-- The statements of a root publish its exports, those apart that stay in place. -/
theorem publications_rootStatements (hsteps : ∀ name ∈ root.names, IsStep name)
    (hexports : ∀ entry ∈ exports, Home root surface entry ∨ Sourced lookup read root entry)
    (hkeys : (exports.map Resolved.mergeKey).Nodup) :
    ((rootStatements lookup root exports).flatMap publications).Perm
      ((published root exports).map (publicationOf lookup root)) := by
  rw [rootStatements, List.flatMap_assoc, published, List.map_flatMap]
  refine List.Perm.flatMap_left _ fun key hkey => ?_
  have hmember (entry : Resolved) (hentry : entry ∈ membersOf exports key) :
      (Home root surface entry ∨ Sourced lookup read root entry) ∧ entry.groupKey = key := by
    obtain ⟨hmem, hentryKey⟩ := ExportGroup.mem_membersOf.mp hentry
    exact ⟨hexports entry hmem, hentryKey⟩
  by_cases hown : key = .named root.written
  · rw [keyStatements, if_pos hown]
    have hhome (entry : Resolved) (hentry : entry ∈ membersOf exports key) :
        Home root surface entry := by
      obtain ⟨hhome | hsourced, hentryKey⟩ := hmember entry hentry
      · exact hhome
      · exact absurd (hentryKey.trans hown) (hsourced.groupKey_ne hsteps)
    exact publications_homeStatements hhome
  · have hpublished :
        (membersOf exports key).filter (isPublished root) = membersOf exports key := by
      rw [List.filter_eq_self]
      exact fun entry hentry => isPublished_of_ne ((hmember entry hentry).2 ▸ hown)
    have hsourced (entry : Resolved) (hentry : entry ∈ membersOf exports key) :
        Sourced lookup read root entry ∧ entry.groupKey = key := by
      obtain ⟨hhome | hsourced, hentryKey⟩ := hmember entry hentry
      · exact absurd (hentryKey.symm.trans hhome.groupKey) hown
      · exact ⟨hsourced, hentryKey⟩
    rw [keyStatements, if_neg hown, hpublished, publications_statementsOf hsteps hown hsourced]
    rintro kind origin name rfl
    exact membersOf_single hkeys hkey

theorem filter_eq_singleton {α β : Type} [DecidableEq β] {keyOf : α → β} {entries : List α}
    {entry : α} (hkeys : (entries.map keyOf).Nodup) (hmem : entry ∈ entries) :
    entries.filter (keyOf · = keyOf entry) = [entry] := by
  induction entries with
  | nil => cases hmem
  | cons first rest ih =>
      rw [List.map_cons, List.nodup_cons] at hkeys
      rcases List.mem_cons.mp hmem with rfl | hrest
      · have hnone : rest.filter (keyOf · = keyOf entry) = [] := by
          rw [List.filter_eq_nil_iff]
          intro other hother hsame
          exact hkeys.1 (of_decide_eq_true hsame ▸ List.mem_map_of_mem hother)
        rw [List.filter_cons_of_pos (by simp), hnone]
      · have hne : keyOf first ≠ keyOf entry :=
          fun heq => hkeys.1 (heq ▸ List.mem_map_of_mem hrest)
        rw [List.filter_cons_of_neg (by simpa using hne), ih hkeys.2 hrest]

theorem publications_of_mem (hsteps : ∀ name ∈ root.names, IsStep name)
    (hexports : ∀ entry ∈ exports, Home root surface entry ∨ Sourced lookup read root entry)
    (hkeys : (exports.map Resolved.mergeKey).Nodup) (hmem : entry ∈ exports) :
    ((rootStatements lookup root exports).flatMap publications).filter
        (·.mergeKey = entry.mergeKey) =
      if isPublished root entry then [publicationOf lookup root entry] else [] := by
  have hsame : ((published root exports).map (publicationOf lookup root)).filter
      (·.mergeKey = entry.mergeKey) =
        ((published root exports).filter (·.mergeKey = entry.mergeKey)).map
          (publicationOf lookup root) := by
    rw [List.filter_map]
    congr 1
    refine List.filter_congr fun other hother => ?_
    rw [Function.comp_apply,
      mergeKey_publicationOf hsteps (hexports other (mem_published.mp hother).1)]
  have hperm := (publications_rootStatements hsteps hexports hkeys).filter
    (·.mergeKey = entry.mergeKey)
  rw [hsame] at hperm
  split
  · rename_i hpublished
    rw [filter_eq_singleton (nodup_mergeKey_published hkeys)
      (mem_published.mpr ⟨hmem, hpublished⟩)] at hperm
    exact List.perm_singleton.mp hperm
  · rename_i hunpublished
    have hnone : (published root exports).filter (·.mergeKey = entry.mergeKey) = [] := by
      rw [List.filter_eq_nil_iff]
      intro other hother hkey
      obtain ⟨hother, hpublished⟩ := mem_published.mp hother
      obtain rfl := List.inj_on_of_nodup_map hkeys hother hmem (of_decide_eq_true hkey)
      exact hunpublished hpublished
    rw [hnone] at hperm
    exact List.perm_nil.mp hperm

/-! ## The rewrite of a root -/

/-- An export that stays in place: it is declared inline, outside the statements that give way,
and nothing publishes its name. -/
structure StaysInPlace (root : Location) (scanned : Module.Scan) (statements : List Statement)
    (entry : Resolved) : Prop where
  inline : entry.inline = true
  origin : entry.origin = root.written
  declared : ∃ definition ∈ scanned.surface.definitions,
    definition.exportName? = some entry.exportedName ∧ definition.localName = none ∧
      ∀ span ∈ scanned.reExportSpans, ¬span.Holds definition.position
  unpublished : ∀ publication ∈ statements.flatMap publications,
    publication.mergeKey ≠ entry.mergeKey

/-- An export that the statements publish once, and that no inline declaration publishes. -/
structure PublishedOnce (lookup : Lookup) (root : Location) (scanned : Module.Scan)
    (statements : List Statement) (entry : Resolved) : Prop where
  once : ∃ publication,
    (statements.flatMap publications).filter (·.mergeKey = entry.mergeKey) = [publication] ∧
      Publishes lookup root scanned.surface entry publication
  alone : ∀ item ∈ scanned.surface.items, item.isInline = true →
    item.name?.map .name ≠ some entry.mergeKey

/--
A rewrite loses no export and doubles none.  The statements that give way hold
the re-exports and the specifiers of the root and no inline declaration; and
every export of the root either stays in place or is published once, under its
name, with its modifier and from where it comes.
-/
theorem rewrite_keeps_exports {tree : Syntax.ModuleTree} {scanned : Module.Scan}
    (hextensions : lookup.PlainExtensions) (hstands : StandingFile lookup.volume root)
    (hlaid : Syntax.laidOut tree.root = true) (hscan : Module.scan tree = .ok scanned)
    (hread : read root = .ok scanned.surface) (hunmixed : Unmixed scanned.surface)
    (hpackages : PlainPackages read) (hrun : (exportsOf lookup root).run read = .ok exports) :
    (∀ item ∈ scanned.surface.items,
      (∃ span ∈ scanned.reExportSpans, span.Holds item.position) ↔ item.isInline = false) ∧
    ∃ statements, render lookup root (ofExports exports) = .ok statements ∧
      ∀ entry ∈ exports, StaysInPlace root scanned statements entry ∨
        PublishedOnce lookup root scanned statements entry := by
  have hroot : lookup.volume.resolve root = root :=
    Volume.resolve_of_stands hstands.choose_spec
  have hsteps := hstands.isStep
  have hspans (item : Item) (hitem : item ∈ scanned.surface.items) :
      (∃ span ∈ scanned.reExportSpans, span.Holds item.position) ↔ item.isInline = false :=
    Module.mem_reExportSpans_iff hlaid hscan hitem
  rw [exportsOf, hroot] at hrun
  obtain ⟨left, surface, lists, hleft, hsurface, hcollects, rfl⟩ := expand_eq_ok.mp hrun
  obtain rfl := ok_inj hread hsurface
  have horigins (entry : Resolved) (hentry : entry ∈ Collected.merge lists.flatten) :
      Home root scanned.surface entry ∨ Sourced lookup read root entry :=
    home_or_sourced hpackages hread hstands hleft hcollects hentry
  refine ⟨hspans, _, render_eq_rootStatements hextensions hstands horigins, fun entry hentry => ?_⟩
  have hpublications :=
    publications_of_mem hsteps horigins Collected.nodup_mergeKey_merge hentry
  split at hpublications
  · rename_i hpublished
    refine .inr ⟨⟨_, hpublications, publishes hextensions hstands (horigins entry hentry)⟩, ?_⟩
    intro item hitem hinline hname
    obtain ⟨name, hname, hkey⟩ := Option.map_eq_some_iff.mp hname
    have hinPlace := inline_of_item hunmixed hcollects hitem hinline hname hentry hkey.symm
    simp [isPublished, hinPlace] at hpublished
  · rename_i hunpublished
    have hown : entry.groupKey = .named root.written ∧ entry.inline = true := by
      simpa [isPublished] using hunpublished
    have hhome : Home root scanned.surface entry :=
      (horigins entry hentry).resolve_right fun hsourced => hsourced.groupKey_ne hsteps hown.1
    obtain ⟨definition, hmem, hname, hlocal⟩ := hhome.inline hown.2
    refine .inl ⟨hown.2, hhome.origin, ⟨definition, hmem, hname, hlocal, ?_⟩, ?_⟩
    · intro span hspan hholds
      have hitem := (hspans (.definition definition) (Surface.mem_items_definition.mpr hmem)).mp
        ⟨span, hspan, hholds⟩
      simp [Item.isInline, hlocal] at hitem
    · intro publication hmem hkey
      exact List.filter_eq_nil_iff.mp hpublications publication hmem (decide_eq_true hkey)

def loopedBarrel : Lookup where
  settings := .default
  volume := .ofTexts
    [("/proj/index.ts", "export const a = 1; export * from './loop';"),
      ("/proj/loop.ts", "export { a as c } from './index';")]

def loopedSurface : Surface :=
  ⟨[⟨.named, some "a", false, 13, none⟩], [Module.wildcardEdge "./loop" false 20]⟩

def loopedReader : Survey.Reader :=
  Survey.readerOf [(.ofPath "/proj/index.ts", loopedSurface),
    (.ofPath "/proj/loop.ts", ⟨[], [Module.namedEdge "./index" "a" "c" false 9]⟩)]

theorem items_loopedSurface : loopedSurface.items =
    [.definition ⟨.named, some "a", false, 13, none⟩,
      .reExport (Module.wildcardEdge "./loop" false 20)] :=
  Surface.items_of_pairwise rfl (by decide)

theorem exportsOf_loopedBarrel :
    (exportsOf loopedBarrel (.ofPath "/proj/index.ts")).run loopedReader =
      .ok [⟨"a", "/proj/index.ts", "a", false, .named, false, none, true⟩,
        ⟨"c", "/proj/index.ts", "a", false, .named, false, some "a", false⟩] := by
  have hroot : loopedBarrel.volume.resolve (.ofPath "/proj/index.ts") =
      .ofPath "/proj/index.ts" := by decide +kernel
  have hread : loopedReader (.ofPath "/proj/index.ts") = .ok loopedSurface := by decide +kernel
  have hloop : (collectItem (.ofLookup loopedBarrel)
      (Resolution.expand (.ofLookup loopedBarrel) 255 [.ofPath "/proj/index.ts"] false)
      [.ofPath "/proj/index.ts"] (.ofPath "/proj/index.ts") true
      (.reExport (Module.wildcardEdge "./loop" false 20))).run loopedReader =
      .ok [⟨⟨"c", "/proj/index.ts", "a", false, .named, false, some "a", false⟩, true⟩] := by
    decide +kernel
  rw [exportsOf, hroot]
  exact expand_of_items hread items_loopedSurface (.cons rfl (.cons hloop .nil))

theorem rewrite_keeps_exports_loopedBarrel :
    ∃ scanned, Module.loadScan loopedBarrel.volume (.ofPath "/proj/index.ts") = .ok scanned ∧
      scanned.surface = loopedSurface ∧
      render loopedBarrel (.ofPath "/proj/index.ts")
          (ofExports [⟨"a", "/proj/index.ts", "a", false, .named, false, none, true⟩,
            ⟨"c", "/proj/index.ts", "a", false, .named, false, some "a", false⟩]) =
        .ok [named none [⟨"a", "c", false⟩]] ∧
      PublishedOnce loopedBarrel (.ofPath "/proj/index.ts") scanned
        [named none [⟨"a", "c", false⟩]]
        ⟨"c", "/proj/index.ts", "a", false, .named, false, some "a", false⟩ := by
  have hextensions : loopedBarrel.PlainExtensions := by decide
  have hstands : StandingFile loopedBarrel.volume (.ofPath "/proj/index.ts") :=
    Lookup.standingFile_of_resolveFile (.ofPath "/proj/index") (by decide) (by decide +kernel)
  have hsurface : Module.loadSurface loopedBarrel.volume (.ofPath "/proj/index.ts") =
      .ok loopedSurface := by decide +kernel
  obtain ⟨scanned, hscanned, hlooped⟩ := bind_eq_ok.mp hsurface
  obtain ⟨tree, htree, hscan⟩ := bind_eq_ok.mp hscanned
  have hlooped : scanned.surface = loopedSurface := Except.ok.inj hlooped
  have hlaid : Syntax.laidOut tree.root = true := by
    have hall : (Module.loadTree .utf8 loopedBarrel.volume (.ofPath "/proj/index.ts")).toOption.any
        (fun tree => Syntax.laidOut tree.root) = true := by decide +kernel
    rwa [htree] at hall
  have hread : loopedReader (.ofPath "/proj/index.ts") = .ok scanned.surface := by
    rw [hlooped]
    decide +kernel
  have hunmixed : Unmixed scanned.surface := by
    rw [hlooped, Unmixed, items_loopedSurface]
    simp [Item.name?, Item.isInline, Module.wildcardEdge, Definition.exportName?]
  have hpackages : PlainPackages loopedReader := by
    intro module surface hread edge hedge
    have hall : ∀ entry ∈ [(Location.ofPath "/proj/index.ts", loopedSurface),
        (.ofPath "/proj/loop.ts", ⟨[], [Module.namedEdge "./index" "a" "c" false 9]⟩)],
        ∀ edge ∈ entry.2.reExports, Specifier.isInternal edge.specifier = false →
          edge.specifier.toList.head? ≠ some '/' := by
      decide
    exact hall _ (Survey.mem_of_readerOf hread) edge hedge
  obtain ⟨-, statements, hrender, hentries⟩ := rewrite_keeps_exports hextensions hstands hlaid
    hscan hread hunmixed hpackages exportsOf_loopedBarrel
  have hstatements : render loopedBarrel (.ofPath "/proj/index.ts")
      (ofExports [⟨"a", "/proj/index.ts", "a", false, .named, false, none, true⟩,
        ⟨"c", "/proj/index.ts", "a", false, .named, false, some "a", false⟩]) =
      .ok [named none [⟨"a", "c", false⟩]] := by
    decide +kernel
  obtain rfl := ok_inj hrender hstatements
  refine ⟨scanned, hscanned, hlooped, hstatements, ?_⟩
  refine (hentries _ (by simp)).resolve_left fun hinPlace => ?_
  cases hinPlace.inline

end FlatExports.Statement
