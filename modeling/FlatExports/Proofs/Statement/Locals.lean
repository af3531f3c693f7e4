import FlatExports.Proofs.Module.Bindings
import FlatExports.Proofs.Statement.Sources
import FlatExports.Proofs.Volume.Resolve

/-!
The local names that statements go by.

A specifier without a source exports a local binding of the root, and one that
the root imports from itself its default.  Both come from the definitions that
chains of re-exports have led back to; only a package that is named by the path
of the root gets in between.
-/

namespace FlatExports.Statement

open Resolution
open ExportGroup (gather ofExports start)
open Lookup (StandingFile)

variable {lookup : Lookup} {read : Survey.Reader} {root : Location} {surface : Surface}
  {entry : Resolved} {exports : List Resolved} {group : ExportGroup}
  {statements : List Statement} {statement : Statement} {specifier : ExportSpecifier}
  {name source : String}

/-! ## Specifiers of a group -/

theorem mem_localSpecifiers :
    specifier ∈ localSpecifiers exports ↔ ∃ entry ∈ exports, entry.inline = false ∧
      ∃ name, entry.localName = some name ∧
        specifier = ⟨name, entry.exportedName, entry.typeOnly⟩ := by
  rw [localSpecifiers, List.mem_filterMap]
  refine exists_congr fun entry => and_congr_right fun _ => ?_
  cases entry.inline <;> cases entry.localName <;> simp [eq_comm]

theorem mem_selfSpecifiers :
    specifier ∈ selfSpecifiers exports ↔ ∃ entry ∈ exports, entry.inline = false ∧
      entry.localName = none ∧ specifier = originSpecifier entry := by
  simp only [selfSpecifiers, List.mem_map, List.mem_filter, Bool.and_eq_true, Bool.not_eq_true',
    Option.isNone_iff_eq_none, and_assoc]
  simp only [eq_comm]

inductive Specifies (lookup : Lookup) (root : Location) (group : ExportGroup)
    (statement : Statement) (specifier : ExportSpecifier) : Prop
  | bound {entry : Resolved}
      (hown : isOwn root group = true)
      (hkind : group.kind ≠ .namespaced)
      (hsource : statement.source = none)
      (hentry : entry ∈ group.exports)
      (hlocal : entry.localName = some specifier.localName)
      (hmoved : entry.inline = false)
  | free {entry : Resolved} {source : String}
      (hown : isOwn root group = true)
      (hkind : group.kind ≠ .namespaced)
      (hsource : statement.source = some source)
      (hentry : entry ∈ group.exports)
      (hlocal : entry.localName = none)
      (hmoved : entry.inline = false)
      (hspecifier : specifier = originSpecifier entry)
  | foreign {source : String}
      (hother : isOwn root group = false)
      (hsource : statement.source = some source)
      (hgroup : sourceOf lookup root group = .ok source)

theorem specifies_of_renderRoot {rendered : List Statement} (hown : isOwn root group = true)
    (hkind : group.kind ≠ .namespaced) (hrender : renderRoot lookup root group = .ok rendered)
    (hstatement : statement ∈ rendered) (hspecifier : specifier ∈ statement.specifiers) :
    Specifies lookup root group statement specifier := by
  have hbound (hmem : statement ∈ if (localSpecifiers group.exports).isEmpty then []
      else [named none (localSpecifiers group.exports)]) :
      Specifies lookup root group statement specifier := by
    split at hmem
    · cases hmem
    · obtain rfl := List.mem_singleton.mp hmem
      obtain ⟨entry, hentry, hmoved, name, hlocal, rfl⟩ := mem_localSpecifiers.mp hspecifier
      exact .bound hown hkind rfl hentry hlocal hmoved
  unfold renderRoot at hrender
  dsimp only at hrender
  split at hrender
  · cases hrender
    exact hbound (by simpa using hstatement)
  · obtain ⟨source, -, hrender⟩ := bind_eq_ok.mp hrender
    cases hrender
    rcases List.mem_append.mp hstatement with hmem | hmem
    · exact hbound hmem
    · obtain rfl := List.mem_singleton.mp hmem
      obtain ⟨entry, hentry, hmoved, hlocal, rfl⟩ := mem_selfSpecifiers.mp hspecifier
      exact .free hown hkind rfl hentry hlocal hmoved rfl

theorem specifies_of_renderGroup {rendered : List Statement}
    (hrender : renderGroup lookup root group = .ok rendered) (hstatement : statement ∈ rendered)
    (hspecifier : specifier ∈ statement.specifiers) :
    Specifies lookup root group statement specifier := by
  unfold renderGroup at hrender
  split at hrender
  · obtain ⟨source, -, hrendered⟩ := bind_eq_ok.mp hrender
    cases hrendered
    obtain rfl := List.mem_singleton.mp hstatement
    cases hspecifier
  · split at hrender
    · cases hrender
    · obtain ⟨source, -, hrendered⟩ := bind_eq_ok.mp hrender
      cases hrendered
      obtain rfl := List.mem_singleton.mp hstatement
      cases hspecifier
  · rename_i hkind
    split at hrender
    · rename_i hown
      exact specifies_of_renderRoot hown hkind hrender hstatement hspecifier
    · rename_i hother
      obtain ⟨source, hsource, hrendered⟩ := bind_eq_ok.mp hrender
      cases hrendered
      obtain rfl := List.mem_singleton.mp hstatement
      exact .foreign (by simpa using hother) rfl hsource

theorem specifies_of_render {groups : List ExportGroup}
    (hrender : render lookup root groups = .ok statements) (hstatement : statement ∈ statements)
    (hspecifier : specifier ∈ statement.specifiers) :
    ∃ group ∈ groups, Specifies lookup root group statement specifier := by
  obtain ⟨rendered, hgroups, hstatements⟩ := bind_eq_ok.mp hrender
  cases hstatements
  obtain ⟨lists, hlists, hmem⟩ := List.mem_flatten.mp hstatement
  obtain ⟨group, hgroup, hrendered⟩ := exists_left_of_forall₂ (mapM_eq_ok.mp hgroups) hlists
  exact ⟨group, hgroup, specifies_of_renderGroup hrendered hmem hspecifier⟩

/-! ## Exports under the path of the root -/

/-- A package that is named by the path of the root. -/
structure UnderPath (root : Location) (entry : Resolved) : Prop where
  external : entry.external = true
  origin : Location.ofPath entry.origin = root
  unbound : entry.localName = none

theorem home_or_underPath (hstands : StandingFile lookup.volume root)
    (hread : read root = .ok surface)
    (hsupplied : Supplied (.ofLookup lookup) read root entry) (hkind : entry.kind ≠ .namespaced)
    (horigin : Location.ofPath entry.origin = root) :
    Home root surface entry ∨ UnderPath root entry := by
  cases hsupplied with
  | @definition target surface' hpath hread' hhome =>
      have htarget : target = root := by
        rw [← (standingFile_of_links hpath hstands).ofPath_written, ← hhome.origin, horigin]
      subst htarget
      obtain rfl := ok_inj hread hread'
      exact .inl hhome
  | namespaceOf _ hnamespaced => exact absurd hnamespaced hkind
  | package _ _ _ hexternal hunbound => exact .inr ⟨hexternal, horigin, hunbound⟩

theorem supplied_of_exportsOf (hstands : StandingFile lookup.volume root)
    (hrun : (exportsOf lookup root).run read = .ok exports) :
    ∀ entry ∈ exports, Supplied (.ofLookup lookup) read root entry := by
  intro entry hentry
  rw [exportsOf, Volume.resolve_of_stands hstands.choose_spec] at hrun
  exact supplied_of_expand hrun hentry

theorem home_or_underPath_of_group (hstands : StandingFile lookup.volume root)
    (hread : read root = .ok surface)
    (hexports : ∀ entry ∈ exports, Supplied (.ofLookup lookup) read root entry)
    (hgroup : group ∈ ofExports exports) (hentry : entry ∈ group.exports)
    (hown : isOwn root group = true) (hkind : group.kind ≠ .namespaced) :
    entry ∈ exports ∧ (Home root surface entry ∨ UnderPath root entry) := by
  obtain ⟨hmem, horigin, hsame⟩ := ExportGroup.mem_group hgroup hentry
  have hpath : Location.ofPath entry.origin = root := by
    simp only [isOwn, Bool.and_eq_true, decide_eq_true_eq] at hown
    rw [horigin, hown.2]
  exact ⟨hmem, home_or_underPath hstands hread (hexports entry hmem) (hsame ▸ hkind) hpath⟩

theorem locate_ne_root (hstands : StandingFile lookup.volume root)
    (hexports : ∀ entry ∈ exports, Supplied (.ofLookup lookup) read root entry)
    (hgroup : group ∈ ofExports exports) (hother : isOwn root group = false)
    (hsource : sourceOf lookup root group = .ok source)
    (hinternal : Specifier.isInternal source = true) :
    (Resolver.ofLookup lookup).locate source root ≠ .ok root := by
  intro hlocate
  obtain ⟨first, hfirst, horigin, hflag⟩ := ExportGroup.exists_first hgroup
  rw [sourceOf] at hsource
  cases hexternal : group.external with
  | true =>
      rw [hexternal, if_pos rfl] at hsource
      cases hsource
      obtain ⟨module, -, surface, -, edge, -, hforeign, hspecifier⟩ :=
        (hexports first hfirst).package_of_external (hflag.trans hexternal)
      rw [hspecifier, horigin, hinternal] at hforeign
      cases hforeign
  | false =>
      obtain ⟨target, hlinks, hwritten⟩ :=
        (hexports first hfirst).path_of_internal (hflag.trans hexternal)
      have htarget : StandingFile lookup.volume target := standingFile_of_links hlinks hstands
      have hpath : Location.ofPath group.origin = target := by
        rw [← horigin, hwritten, htarget.ofPath_written]
      rw [hexternal, if_neg Bool.false_ne_true, hpath] at hsource
      obtain ⟨content, hroot⟩ := hstands
      have hleads : (Resolver.ofLookup lookup).locate source root = .ok target :=
        Lookup.resolve_of_relativeSpecifier htarget hroot.plain.dropLast hroot.directories hsource
      obtain rfl := ok_inj hleads hlocate
      simp [isOwn, hexternal, hpath] at hother

/-! ## The names of the root -/

section

variable {definition : Definition}

theorem bindingOf_local (hlocal : definition.localName = some name) (hne : name ≠ "") :
    bindingOf definition = some name := by
  simp [bindingOf, hlocal, hne]

theorem bindingOf_nameless (hlocal : definition.localName = none ∨ definition.localName = some "") :
    bindingOf definition = definition.name := by
  rcases hlocal with hlocal | hlocal <;> simp [bindingOf, hlocal, Option.filter]

end

theorem Home.isDeclared {tree : Syntax.ModuleTree} {scanned : Module.Scan}
    (hscan : Module.scan tree = .ok scanned) (h : Home root scanned.surface entry)
    (hmoved : entry.inline = false) (hlocal : entry.localName = some name) :
    Module.IsDeclared tree name ∨ ∃ definition ∈ scanned.surface.definitions,
      definition.localName = some "" ∧ definition.name = some name := by
  obtain ⟨definition, hmem, -, hdefined⟩ := h.defined
  have hdeclared := Module.isDeclared_of_definition hscan hmem
  cases hdefinition : definition.localName with
  | some bound =>
      rw [hdefinition] at hdeclared hdefined
      rcases hdefined with ⟨-, hname, -⟩ | ⟨-, hname⟩
      · rw [hlocal, Option.some.injEq] at hname
        exact .inl (hname ▸ hdeclared)
      · by_cases hempty : bound = ""
        · subst hempty
          rw [bindingOf_nameless (.inr hdefinition), hlocal] at hname
          exact .inr ⟨definition, hmem, hdefinition, hname.symm⟩
        · rw [bindingOf_local hdefinition hempty, hlocal, Option.some.injEq] at hname
          exact .inl (hname ▸ hdeclared)
  | none =>
      rw [hdefinition] at hdeclared hdefined
      rcases hdefined with ⟨-, -, hinline⟩ | ⟨-, hname⟩
      · cases hmoved.symm.trans hinline
      · rw [bindingOf_nameless (.inl hdefinition), hlocal] at hname
        rcases hdeclared with ⟨-, hnone⟩ | ⟨-, declared, hsame, hdeclared⟩
        · cases hname.trans hnone
        · rw [← hname, Option.some.injEq] at hsame
          exact .inl (hsame ▸ hdeclared)

theorem Home.binds {tree : Syntax.ModuleTree} {scanned : Module.Scan} {bindings : Module.Bindings}
    (hscan : Module.scan tree = .ok scanned) (hbindings : Module.bindingsOf tree = .ok bindings)
    (h : Home root scanned.surface entry) (hmoved : entry.inline = false)
    (hlocal : entry.localName = some name) :
    bindings.Binds name ∨ ∃ definition ∈ scanned.surface.definitions,
      definition.localName = some "" ∧ definition.name = some name :=
  (Home.isDeclared hscan h hmoved hlocal).imp_left fun hdeclared =>
    (Module.binds_iff hbindings).mpr (.inr hdeclared)

theorem Home.default (h : Home root surface entry) (hmoved : entry.inline = false)
    (hlocal : entry.localName = none) :
    entry.originName = defaultName ∧
      ∃ definition ∈ surface.definitions, definition.exportName? = some defaultName := by
  obtain ⟨definition, hmem, hname, ⟨-, hdefined, hinline⟩ | ⟨-, hdefined⟩⟩ := h.defined
  · rw [← hdefined, hlocal] at hinline
    cases hmoved.symm.trans hinline
  · have hnameless : definition.name = none := by
      by_cases hbound : definition.localName = none ∨ definition.localName = some ""
      · rw [← bindingOf_nameless hbound, ← hdefined, hlocal]
      · obtain ⟨hsome, hne⟩ := not_or.mp hbound
        obtain ⟨bound, hbound⟩ := Option.ne_none_iff_exists'.mp hsome
        rw [bindingOf_local hbound fun hempty => hne (hempty ▸ hbound), hlocal] at hdefined
        cases hdefined
    have hdefault : entry.originName = defaultName := by
      rw [Definition.exportName?, hnameless] at hname
      split at hname
      · exact (Option.some.inj hname).symm
      · cases hname
    exact ⟨hdefault, definition, hmem, hdefault ▸ hname⟩

/--
A specifier without a source names a binding of the root, and one that the root
imports from itself names its default.  The names of packages that are named by
the path of the root are the only others that it imports from itself.
-/
theorem local_names_bound {tree : Syntax.ModuleTree} {scanned : Module.Scan}
    (hstands : StandingFile lookup.volume root) (hscan : Module.scan tree = .ok scanned)
    (hread : read root = .ok scanned.surface)
    (hrun : (exportsOf lookup root).run read = .ok exports)
    (hrender : render lookup root (ofExports exports) = .ok statements)
    (hstatement : statement ∈ statements) (hspecifier : specifier ∈ statement.specifiers) :
    match statement.source with
    | none => ∀ bindings, Module.bindingsOf tree = .ok bindings →
        bindings.Binds specifier.localName ∨ ∃ definition ∈ scanned.surface.definitions,
          definition.localName = some "" ∧ definition.name = some specifier.localName
    | some source => Specifier.isInternal source = true →
        (Resolver.ofLookup lookup).locate source root = .ok root →
        (specifier.localName = defaultName ∧ ∃ definition ∈ scanned.surface.definitions,
          definition.exportName? = some defaultName) ∨
        ∃ entry ∈ exports, UnderPath root entry ∧ specifier = originSpecifier entry := by
  have hexports := supplied_of_exportsOf hstands hrun
  obtain ⟨group, hgroup, hspecifies⟩ := specifies_of_render hrender hstatement hspecifier
  have hown (entry : Resolved) (hentry : entry ∈ group.exports) (hown : isOwn root group = true)
      (hkind : group.kind ≠ .namespaced) :
      entry ∈ exports ∧ (Home root scanned.surface entry ∨ UnderPath root entry) :=
    home_or_underPath_of_group hstands hread hexports hgroup hentry hown hkind
  cases hspecifies with
  | @bound entry howned hkind hsource hentry hlocal hmoved =>
      rw [hsource]
      intro bindings hbindings
      obtain ⟨-, hhome | hpackage⟩ := hown entry hentry howned hkind
      · exact Home.binds hscan hbindings hhome hmoved hlocal
      · cases hpackage.unbound.symm.trans hlocal
  | @free entry source howned hkind hsource hentry hlocal hmoved hname =>
      rw [hsource]
      intro _ _
      obtain ⟨hmem, hhome | hpackage⟩ := hown entry hentry howned hkind
      · rw [hname]
        exact .inl (Home.default hhome hmoved hlocal)
      · exact .inr ⟨entry, hmem, hpackage, hname⟩
  | @foreign source hother hsource hrendered =>
      rw [hsource]
      intro hinternal hlocate
      exact absurd hlocate (locate_ne_root hstands hexports hgroup hother hrendered hinternal)

def comebackBarrel : Lookup where
  settings := .default
  volume := .ofTexts
    [("/proj/index.ts", "export const a = 1; export default 2; export { c, d } from './loop';"),
      ("/proj/loop.ts", "export { a as c, default as d } from './index';")]

def comebackSurface : Surface :=
  ⟨[⟨.named, some "a", false, 13, none⟩, ⟨.default, none, false, 20, none⟩],
    [Module.namedEdge "./loop" "c" "c" false 47, Module.namedEdge "./loop" "d" "d" false 50]⟩

def comebackReader : Survey.Reader :=
  Survey.readerOf [(.ofPath "/proj/index.ts", comebackSurface),
    (.ofPath "/proj/loop.ts", ⟨[], [Module.namedEdge "./index" "a" "c" false 9,
      Module.namedEdge "./index" "default" "d" false 17]⟩)]

def comebackExports : List Resolved :=
  [⟨"a", "/proj/index.ts", "a", false, .named, false, none, true⟩,
    ⟨"default", "/proj/index.ts", "default", false, .named, false, none, true⟩,
    ⟨"c", "/proj/index.ts", "a", false, .named, false, some "a", false⟩,
    ⟨"d", "/proj/index.ts", "default", false, .named, false, none, false⟩]

theorem exportsOf_comebackBarrel :
    (exportsOf comebackBarrel (.ofPath "/proj/index.ts")).run comebackReader =
      .ok comebackExports := by
  have hroot : comebackBarrel.volume.resolve (.ofPath "/proj/index.ts") =
      .ofPath "/proj/index.ts" := by decide +kernel
  have hread : comebackReader (.ofPath "/proj/index.ts") = .ok comebackSurface := by
    decide +kernel
  have hitems : comebackSurface.items = comebackSurface.definitions.map .definition ++
      comebackSurface.reExports.map .reExport :=
    Surface.items_of_pairwise rfl (by decide)
  have hbinding : (collectItem (.ofLookup comebackBarrel)
      (Resolution.expand (.ofLookup comebackBarrel) 255 [.ofPath "/proj/index.ts"] false)
      [.ofPath "/proj/index.ts"] (.ofPath "/proj/index.ts") true
      (.reExport (Module.namedEdge "./loop" "c" "c" false 47))).run comebackReader =
      .ok [⟨⟨"c", "/proj/index.ts", "a", false, .named, false, some "a", false⟩, false⟩] := by
    decide +kernel
  have hdefault : (collectItem (.ofLookup comebackBarrel)
      (Resolution.expand (.ofLookup comebackBarrel) 255 [.ofPath "/proj/index.ts"] false)
      [.ofPath "/proj/index.ts"] (.ofPath "/proj/index.ts") true
      (.reExport (Module.namedEdge "./loop" "d" "d" false 50))).run comebackReader =
      .ok [⟨⟨"d", "/proj/index.ts", "default", false, .named, false, none, false⟩, false⟩] := by
    decide +kernel
  rw [exportsOf, hroot]
  exact expand_of_items hread hitems
    (.cons rfl (.cons rfl (.cons hbinding (.cons hdefault .nil))))

theorem local_names_bound_comebackBarrel :
    ∃ tree bindings,
      Module.loadTree .utf8 comebackBarrel.volume (.ofPath "/proj/index.ts") = .ok tree ∧
      Module.bindingsOf tree = .ok bindings ∧
      render comebackBarrel (.ofPath "/proj/index.ts") (ofExports comebackExports) =
        .ok [named none [⟨"a", "c", false⟩], named (some ".") [⟨"default", "d", false⟩]] ∧
      bindings.Binds "a" ∧
      ∃ definition ∈ comebackSurface.definitions, definition.exportName? = some defaultName := by
  have hstands : StandingFile comebackBarrel.volume (.ofPath "/proj/index.ts") :=
    Lookup.standingFile_of_resolveFile (.ofPath "/proj/index") (by decide) (by decide +kernel)
  have hsurface : Module.loadSurface comebackBarrel.volume (.ofPath "/proj/index.ts") =
      .ok comebackSurface := by decide +kernel
  obtain ⟨scanned, hscanned, hcomeback⟩ := bind_eq_ok.mp hsurface
  obtain ⟨tree, htree, hscan⟩ := bind_eq_ok.mp hscanned
  have hcomeback : scanned.surface = comebackSurface := Except.ok.inj hcomeback
  obtain ⟨bindings, hbindings⟩ : ∃ bindings, Module.bindingsOf tree = .ok bindings := by
    have hall : (Module.loadTree .utf8 comebackBarrel.volume (.ofPath "/proj/index.ts") >>=
        Module.bindingsOf) = .ok [("a", .declared false)] := by decide +kernel
    rw [htree] at hall
    exact ⟨_, hall⟩
  have hread : comebackReader (.ofPath "/proj/index.ts") = .ok scanned.surface := by
    rw [hcomeback]
    decide +kernel
  have hrender : render comebackBarrel (.ofPath "/proj/index.ts") (ofExports comebackExports) =
      .ok [named none [⟨"a", "c", false⟩], named (some ".") [⟨"default", "d", false⟩]] := by
    decide +kernel
  refine ⟨tree, bindings, htree, hbindings, hrender, ?_⟩
  rw [← hcomeback]
  constructor
  · have hspecifier : ⟨"a", "c", false⟩ ∈ (named none [⟨"a", "c", false⟩]).specifiers := .head _
    have hbound := local_names_bound hstands hscan hread exportsOf_comebackBarrel hrender
      (.head _) hspecifier bindings hbindings
    refine hbound.resolve_right ?_
    rw [hcomeback]
    decide
  · have hspecifier : ⟨"default", "d", false⟩ ∈
        (named (some ".") [⟨"default", "d", false⟩]).specifiers := .head _
    have himport := local_names_bound hstands hscan hread exportsOf_comebackBarrel hrender
      (.tail _ (.head _)) hspecifier (by decide) (by decide +kernel)
    refine (himport.resolve_right ?_).2
    rintro ⟨entry, hentry, hpackage, -⟩
    have hall : ∀ entry ∈ comebackExports, entry.external = false := by decide
    cases (hall entry hentry).symm.trans hpackage.external

/-- What a package named by the path of the root exports is imported from the root itself, whether
or not it is a default. -/
theorem self_import_of_package :
    ∃ lookup root scanned exports statements,
      Module.loadScan lookup.volume root = .ok scanned ∧
      (exportsOf lookup root).run (Module.loadSurface lookup.volume) = .ok exports ∧
      render lookup root (ofExports exports) = .ok statements ∧
      ∃ statement ∈ statements, ∃ source, statement.source = some source ∧
        Specifier.isInternal source = true ∧
        (Resolver.ofLookup lookup).locate source root = .ok root ∧
        ∃ specifier ∈ statement.specifiers, specifier.localName ≠ defaultName := by
  have hsurface : Module.loadSurface absoluteBarrel.volume (.ofPath "/proj/index.ts") =
      .ok ⟨[⟨.named, some "a", false, 13, none⟩],
        [Module.namedEdge "/proj/index.ts" "a" "c" false 29]⟩ := by decide +kernel
  obtain ⟨scanned, hscanned, -⟩ := bind_eq_ok.mp hsurface
  exact ⟨absoluteBarrel, .ofPath "/proj/index.ts", scanned, absoluteExports,
    [named (some ".") [⟨"a", "c", false⟩]], hscanned, exportsOf_absoluteBarrel,
    by decide +kernel, _, .head _, ".", rfl, by decide, by decide +kernel, _, .head _, by decide⟩

end FlatExports.Statement
