import FlatExports.Proofs.Probe
import FlatExports.Proofs.Resolution.Entries
import FlatExports.Proofs.Resolved.Group

/-!
Where the exports of a root come from.

Every export of a root is a definition of its own, a definition in another
standing file, a namespace or something of a package.  A definition of the root
can also come back to it, but only where a chain of re-exports leads back into
the root.
-/

namespace FlatExports.Resolution

open Relation Resolved Collected
open Lookup (StandingFile)

variable {lookup : Lookup} {read : Survey.Reader} {root module : Location} {hop next : Hop}
  {provenance : Provenance} {entry found : Resolved} {exports : List Resolved} {item : Item}
  {edge : ReExport} {surface : Surface}

/-! ## Chains of re-exports -/

inductive Passes (resolver : Resolver) (read : Survey.Reader) : Hop → Hop → Prop
  | edge {module surface edge exported imported target}
      (hread : read module = .ok surface)
      (hedge : edge ∈ surface.reExports)
      (hnamed : edge.kind ≠ .wildcard ∧ edge.kind ≠ .namespaced)
      (hexported : edge.exportedName = some exported)
      (himported : edge.importedName = some imported)
      (hinternal : Specifier.isInternal edge.specifier = true)
      (hlocate : resolver.locate edge.specifier module = .ok target) :
      Passes resolver read ⟨module, exported⟩ ⟨target, imported⟩
  | wildcard {module surface edge name target}
      (hread : read module = .ok surface)
      (hedge : edge ∈ surface.wildcards)
      (hname : name ≠ defaultName)
      (hinternal : Specifier.isInternal edge.specifier = true)
      (hlocate : resolver.locate edge.specifier module = .ok target) :
      Passes resolver read ⟨module, name⟩ ⟨target, name⟩

/-- No chain of re-exports leads from the root back into it. -/
def Returnless (resolver : Resolver) (read : Survey.Reader) (root : Location) : Prop :=
  ∀ name name', ¬TransGen (Passes resolver read) ⟨root, name⟩ ⟨root, name'⟩

/-- No module names a package by an absolute path. -/
def PlainPackages (read : Survey.Reader) : Prop :=
  ∀ module surface, read module = .ok surface → ∀ edge ∈ surface.reExports,
    Specifier.isInternal edge.specifier = false → edge.specifier.toList.head? ≠ some '/'

theorem Step.passes {resolver : Resolver} {typed : Bool}
    (hstep : Step resolver read hop typed next) : Passes resolver read hop next := by
  cases hstep with
  | edge hread _ hedge hkind himported hinternal hlocate =>
      obtain ⟨hmem, hwildcard, hexported⟩ := Surface.mem_of_reExportOf? hedge
      exact .edge hread hmem ⟨hwildcard, hkind⟩ hexported himported hinternal hlocate
  | wildcard hread _ _ hname hedge hinternal hlocate =>
      exact .wildcard hread hedge hname hinternal hlocate

theorem isStep_of_mem_parent (hstands : StandingFile lookup.volume module) {name : String}
    (hname : name ∈ module.parent.names) : IsStep name := by
  obtain ⟨content, hstands⟩ := hstands
  exact (hstands.plain.dropLast name hname).1

theorem standingFile_of_locate (hstands : StandingFile lookup.volume module) {specifier : String}
    {target : Location}
    (hlocate : (Resolver.ofLookup lookup).locate specifier module = .ok target) :
    StandingFile lookup.volume target :=
  Lookup.standingFile_of_resolve (fun _ hname => isStep_of_mem_parent hstands hname) hlocate

theorem Passes.standingFile (hpass : Passes (.ofLookup lookup) read hop next)
    (hstands : StandingFile lookup.volume hop.module) : StandingFile lookup.volume next.module := by
  cases hpass with
  | edge _ _ _ _ _ _ hlocate => exact standingFile_of_locate hstands hlocate
  | wildcard _ _ _ _ hlocate => exact standingFile_of_locate hstands hlocate

theorem standingFile_of_passes (hpath : ReflTransGen (Passes (.ofLookup lookup) read) hop next)
    (hstands : StandingFile lookup.volume hop.module) : StandingFile lookup.volume next.module := by
  induction hpath with
  | refl => exact hstands
  | tail _ hpass ih => exact hpass.standingFile ih

theorem standingFile_of_forwards {path : List Location} {other : Location}
    (hpath : ReflTransGen (Around (Forwards (.ofLookup lookup) read) path) module other)
    (hstands : StandingFile lookup.volume module) : StandingFile lookup.volume other := by
  induction hpath with
  | refl => exact hstands
  | tail _ hstep ih =>
      obtain ⟨⟨_, _, _, _, _, hlocate⟩, -⟩ := hstep
      exact standingFile_of_locate ih hlocate

theorem passes_of_forwards {resolver : Resolver} {path : List Location} {other : Location}
    {name : String}
    (hpath : ReflTransGen (Around (Forwards resolver read) path) module other)
    (hname : name ≠ defaultName) :
    ReflTransGen (Passes resolver read) ⟨module, name⟩ ⟨other, name⟩ := by
  induction hpath with
  | refl => exact .refl
  | tail _ hstep ih =>
      obtain ⟨⟨_, hread, edge, hedge, hinternal, hlocate⟩, -⟩ := hstep
      exact ih.tail (.wildcard hread hedge hname hinternal hlocate)

theorem trace_ends {resolver : Resolver} {left : Nat} {chain : List Hop} {name : String}
    {typeOnly : Bool}
    (hrun : (trace resolver left chain module name typeOnly).run read = .ok (some found)) :
    ∃ last typed, ReflTransGen (Passes resolver read) ⟨module, name⟩ last ∧
      Ends resolver read last typed found.provenance ∧
      (∀ surface first others, read last.module = .ok surface →
        surface.definitionsOf last.name = first :: others →
          found = definedIn last.module last.name found.typeOnly (preferred first others)) ∧
      found.inline = false ∧
      ∀ surface, read last.module = .ok surface → surface.definitionsOf last.name = [] →
        found.localName = none := by
  induction left generalizing chain module name typeOnly with
  | zero =>
      obtain ⟨_, further, _, hleft, _⟩ := trace_eq_ok hrun
      cases hleft
  | succ left ih =>
      obtain ⟨-, further, surface, hleft, hread, hsearch⟩ := trace_eq_ok hrun
      cases hleft
      rcases searchSurface_some hread hsearch with
        ⟨typed, hends, -, hmoved, hunbound⟩ | ⟨next, typed, hstep, hnext⟩
      · refine ⟨⟨module, name⟩, typed, .refl, hends, ?_, hmoved, ?_⟩
        · intro surface' first others hread' hdefinitions
          obtain rfl := ok_inj hread hread'
          rw [searchSurface, hdefinitions] at hsearch
          cases hsearch
          rfl
        · intro surface' hread' hundefined
          obtain rfl := ok_inj hread hread'
          exact hunbound hundefined
      · obtain ⟨last, typed, hpath, hends⟩ := ih hnext
        exact ⟨last, typed, .head hstep.passes hpath, hends⟩

/-! ## Definitions that come back -/

theorem mem_of_preferred {name : String} {first : Definition} {others : List Definition}
    (h : surface.definitionsOf name = first :: others) :
    preferred first others ∈ surface.definitions ∧
      (preferred first others).exportName? = some name := by
  have hmem : preferred first others ∈ surface.definitionsOf name := by
    rw [h, preferred]
    cases hfind : (first :: others).find? fun d => !d.typeOnly with
    | none => exact List.mem_cons_self
    | some definition => exact List.mem_of_find?_eq_some hfind
  obtain ⟨hmem, hcalled⟩ := List.mem_filter.mp hmem
  exact ⟨hmem, by simpa [Definition.isCalled] using hcalled⟩

structure Returned (resolver : Resolver) (read : Survey.Reader) (root : Location) (start : Hop)
    (entry : Resolved) : Prop where
  path : TransGen (Passes resolver read) start ⟨root, entry.originName⟩
  kind : entry.kind = .named
  origin : entry.origin = root.written
  internal : entry.external = false
  moved : entry.inline = false
  defined : ∃ surface, read root = .ok surface ∧ ∃ definition ∈ surface.definitions,
    definition.exportName? = some entry.originName ∧ entry.localName = bindingOf definition

theorem Returned.of_path {resolver : Resolver} (h : Returned resolver read root next entry)
    (hpath : ReflTransGen (Passes resolver read) hop next) :
    Returned resolver read root hop entry :=
  { h with path := TransGen.trans_right hpath h.path }

theorem Returned.of_asValue_eq {resolver : Resolver} (h : Returned resolver read root hop found)
    (hvalue : found.asValue = entry.asValue) : Returned resolver read root hop entry := by
  obtain ⟨typeOnly, rfl⟩ := exists_typeOnly_of_asValue_eq hvalue
  exact ⟨h.path, h.kind, h.origin, h.internal, h.moved, h.defined⟩

/-! ## Sources -/

inductive Source (lookup : Lookup) (read : Survey.Reader) (root : Location) : Provenance → Prop
  | package {kind package name}
      (hkind : kind ≠ .default)
      (hname : kind ≠ .named → name = wildcardName)
      (hexternal : Specifier.isInternal package = false)
      (hrelative : package.toList.head? ≠ some '/') :
      Source lookup read root ⟨kind, package, name, true⟩
  | namespaceOf {target}
      (hstands : StandingFile lookup.volume target) :
      Source lookup read root ⟨.namespaced, target.written, wildcardName, false⟩
  | definition {target surface name}
      (hne : target ≠ root)
      (hstands : StandingFile lookup.volume target)
      (hread : read target = .ok surface)
      (hdefined : surface.definitionsOf name ≠ [])
      (hdepth : 2 ≤ lookup.settings.maxDepth) :
      Source lookup read root ⟨.named, target.written, name, false⟩

namespace Source

theorem kind_ne_default (h : Source lookup read root provenance) :
    provenance.kind ≠ .default := by
  cases h with
  | package hkind => exact hkind
  | namespaceOf => simp
  | definition => simp

theorem originName_eq (h : Source lookup read root provenance) (hkind : provenance.kind ≠ .named) :
    provenance.originName = wildcardName := by
  cases h with
  | package _ hname => exact hname hkind
  | namespaceOf => rfl
  | definition => exact absurd rfl hkind

theorem relative_of_wildcard (h : Source lookup read root provenance)
    (hkind : provenance.kind = .wildcard) : provenance.origin.toList.head? ≠ some '/' := by
  cases h with
  | package _ _ _ hrelative => exact hrelative
  | namespaceOf => cases hkind
  | definition => cases hkind

theorem external_of_wildcard (h : Source lookup read root provenance)
    (hkind : provenance.kind = .wildcard) : provenance.external = true := by
  cases h with
  | package => rfl
  | namespaceOf => cases hkind
  | definition => cases hkind

theorem origin_ne (h : Source lookup read root provenance) (hkind : provenance.kind = .named)
    (hsteps : ∀ name ∈ root.names, IsStep name) : provenance.origin ≠ root.written := by
  cases h with
  | package _ _ _ hrelative =>
      intro horigin
      dsimp only at horigin
      rw [horigin] at hrelative
      exact hrelative (Location.written_head root)
  | namespaceOf => cases hkind
  | @definition target _ _ hne hstands =>
      have htarget := hstands.ofPath_written
      intro horigin
      dsimp only at horigin
      rw [horigin, Location.ofPath_written hsteps] at htarget
      exact hne htarget.symm

theorem defined (h : Source lookup read root provenance) (hkind : provenance.kind = .named)
    (hinternal : provenance.external = false) :
    ∃ target surface, target ≠ root ∧ StandingFile lookup.volume target ∧
      provenance.origin = target.written ∧ read target = .ok surface ∧
        surface.definitionsOf provenance.originName ≠ [] := by
  cases h with
  | package => cases hinternal
  | namespaceOf => cases hkind
  | definition hne hstands hread hdefined => exact ⟨_, _, hne, hstands, rfl, hread, hdefined⟩

end Source

structure Sourced (lookup : Lookup) (read : Survey.Reader) (root : Location)
    (entry : Resolved) : Prop where
  source : Source lookup read root entry.provenance
  unnamed : entry.kind = .wildcard → entry.exportedName = wildcardName

theorem Sourced.of_asValue_eq (h : Sourced lookup read root found)
    (hvalue : found.asValue = entry.asValue) : Sourced lookup read root entry where
  source := by
    rw [← provenance_asValue, ← hvalue]
    exact h.source
  unnamed := by
    have hkind : found.asValue.kind = entry.asValue.kind := by rw [hvalue]
    have hname : found.asValue.exportedName = entry.asValue.exportedName := by rw [hvalue]
    exact fun hwildcard => hname.symm.trans (h.unnamed (hkind.trans hwildcard))

theorem definition_sourced {definition : Definition} (hmem : definition ∈ surface.definitions)
    (hread : read module = .ok surface) (hstands : StandingFile lookup.volume module)
    (hne : module ≠ root) (hdepth : 2 ≤ lookup.settings.maxDepth)
    (hrun : localExport module definition = .ok found) : Sourced lookup read root found := by
  obtain ⟨name, hname, rfl⟩ := localExport_eq_ok.mp hrun
  refine ⟨.definition hne hstands hread ?_ hdepth, by simp⟩
  refine List.ne_nil_of_mem (List.mem_filter.mpr ⟨hmem, ?_⟩)
  simpa [Definition.isCalled] using hname

theorem Sourced.kind_ne_default (h : Sourced lookup read root entry) : entry.kind ≠ .default :=
  h.source.kind_ne_default

section

variable (hpackages : PlainPackages read)

include hpackages

theorem Ends.source {typed : Bool} (hdepth : 2 ≤ lookup.settings.maxDepth)
    (hends : Ends (.ofLookup lookup) read hop typed provenance)
    (hstands : StandingFile lookup.volume hop.module)
    (hne : ∀ surface, read hop.module = .ok surface → surface.definitionsOf hop.name ≠ [] →
      hop.module ≠ root) : Source lookup read root provenance := by
  cases hends with
  | definition hread hdefined =>
      exact .definition (hne _ hread hdefined) hstands hread hdefined hdepth
  | packageEdge hread _ hedge _ _ hexternal =>
      obtain ⟨hmem, -, -⟩ := Surface.mem_of_reExportOf? hedge
      exact .package (by simp) (by simp) hexternal (hpackages _ _ hread _ hmem hexternal)
  | packageNamespace hread _ hedge _ hexternal =>
      obtain ⟨hmem, -, -⟩ := Surface.mem_of_reExportOf? hedge
      exact .package (by simp) (by simp) hexternal (hpackages _ _ hread _ hmem hexternal)
  | moduleNamespace _ _ _ _ _ hlocate =>
      exact .namespaceOf (standingFile_of_locate hstands hlocate)
  | @packageWildcard _ _ _ edge hread _ _ _ honly =>
      have hedge : edge ∈ _ := honly.symm ▸ List.mem_singleton_self edge
      obtain ⟨hwildcard, hexternal⟩ := List.mem_filter.mp hedge
      obtain ⟨hmem, -⟩ := Surface.mem_wildcards.mp hwildcard
      rw [Bool.not_eq_true'] at hexternal
      exact .package (by simp) (by simp) hexternal (hpackages _ _ hread _ hmem hexternal)

theorem trace_stems {hop next : Hop} {left : Nat} {chain : List Hop} {typed : Bool}
    (hdepth : 2 ≤ lookup.settings.maxDepth)
    (hpass : Passes (.ofLookup lookup) read hop next)
    (hstands : StandingFile lookup.volume hop.module)
    (htrace : (trace (.ofLookup lookup) left chain next.module next.name typed).run read =
      .ok (some found)) :
    Returned (.ofLookup lookup) read root hop found ∨
      Source lookup read root found.provenance := by
  obtain ⟨last, typed, hpath, hends, hdefined, -⟩ := trace_ends htrace
  have hlast : StandingFile lookup.volume last.module :=
    standingFile_of_passes hpath (hpass.standingFile hstands)
  by_cases hback : last.module = root ∧ ∃ surface, read root = .ok surface ∧
      surface.definitionsOf last.name ≠ []
  · obtain ⟨hroot, surface', hread', hne⟩ := hback
    obtain ⟨first, others, hdefinitions⟩ := List.exists_cons_of_ne_nil hne
    have hfound := hdefined surface' first others (hroot ▸ hread') hdefinitions
    obtain ⟨hmem, hname⟩ := mem_of_preferred hdefinitions
    obtain ⟨last, called⟩ := last
    subst hroot
    rw [hfound]
    exact .inl ⟨.head' hpass hpath, rfl, rfl, rfl, rfl, surface', hread', _, hmem, hname, rfl⟩
  · refine .inr (hends.source hpackages hdepth hlast ?_)
    intro surface' hread' hne hroot
    exact hback ⟨hroot, surface', hroot ▸ hread', hne⟩

theorem follow_stems (hedge : edge ∈ surface.reExports) (hread : read module = .ok surface)
    (hnamed : edge.kind ≠ .wildcard ∧ edge.kind ≠ .namespaced)
    (hstands : StandingFile lookup.volume module)
    (hrun : (follow (.ofLookup lookup) module edge).run read = .ok found) :
    (∃ name, edge.exportedName = some name ∧
      Returned (.ofLookup lookup) read root ⟨module, name⟩ found) ∨
        Sourced lookup read root found := by
  obtain ⟨-, hkind⟩ := follow_name_and_kind hrun
  have hsourced (hsource : Source lookup read root found.provenance) :
      Sourced lookup read root found :=
    ⟨hsource, fun hwildcard => absurd hwildcard hkind⟩
  obtain ⟨exported, imported, hexported, himported, hfound⟩ := follow_eq_ok hrun
  split at hfound
  · rename_i hinternal
    obtain ⟨target, whole, hlocate, htrace, rfl⟩ := hfound
    have hpass : Passes (.ofLookup lookup) read ⟨module, exported⟩ ⟨target, imported⟩ :=
      .edge hread hedge hnamed hexported himported hinternal hlocate
    obtain ⟨-, further, _, hleft, -⟩ := trace_eq_ok htrace
    have hdepth : 2 ≤ lookup.settings.maxDepth := by
      change lookup.settings.maxDepth - 1 = further + 1 at hleft
      omega
    rcases trace_stems hpackages hdepth hpass hstands htrace with hreturned | hsource
    · exact .inl ⟨exported, hexported, { hreturned with }⟩
    · exact .inr (hsourced hsource)
  · rename_i hexternal
    rw [Bool.not_eq_true] at hexternal
    subst hfound
    have hsource : Source lookup read root ⟨.named, edge.specifier, imported, true⟩ :=
      .package (by simp) (by simp) hexternal (hpackages _ _ hread _ hedge hexternal)
    exact .inr (hsourced hsource)

theorem namespaceOf_sourced (hedge : edge ∈ surface.reExports) (hread : read module = .ok surface)
    (hstands : StandingFile lookup.volume module)
    (hrun : namespaceOf (.ofLookup lookup) module edge false = .ok found) :
    Sourced lookup read root found := by
  obtain ⟨exported, origin, -, rfl, horigin⟩ := namespaceOf_eq_ok.mp hrun
  refine ⟨?_, by simp⟩
  cases hinternal : Specifier.isInternal edge.specifier with
  | false =>
      rw [if_neg (by simp [hinternal])] at horigin
      subst horigin
      exact .package (by simp) (by simp) hinternal (hpackages _ _ hread _ hedge hinternal)
  | true =>
      rw [if_pos hinternal] at horigin
      obtain ⟨target, hlocate, rfl⟩ := horigin
      exact .namespaceOf (standingFile_of_locate hstands hlocate)

/-! ## Items -/

theorem contributes_stems {includeDefault : Bool} (hstands : StandingFile lookup.volume module)
    (hcontributes : Contributes (.ofLookup lookup) read found includeDefault module) :
    (∃ surface, read module = .ok surface ∧ ∃ definition ∈ surface.definitions,
        localExport module definition = .ok found) ∨
      (∃ name, (includeDefault = false → name ≠ defaultName) ∧
        Returned (.ofLookup lookup) read root ⟨module, name⟩ found) ∨
      Sourced lookup read root found := by
  cases hcontributes with
  | @explicit surface item hread hitem hexplicit hpassed hrun =>
      cases item with
      | definition definition =>
          exact .inl ⟨surface, hread, definition, Surface.mem_items_definition.mp hitem, hrun⟩
      | reExport edge =>
          have hedge := Surface.mem_items_reExport.mp hitem
          have hkind : edge.kind ≠ .wildcard := by
            intro hkind
            simp [Item.wildcard?, hkind] at hexplicit
          rw [itemExport] at hrun
          split at hrun
          · exact .inr (.inr (namespaceOf_sourced hpackages hedge hread hstands hrun))
          · rename_i hnamed
            rcases follow_stems hpackages hedge hread ⟨hkind, hnamed⟩ hstands hrun with
              ⟨name, hexported, hreturned⟩ | hsourced
            · refine .inr (.inl ⟨name, ?_, hreturned⟩)
              rintro hexcluded rfl
              simp [hexcluded, isDefault, hnamed, hexported] at hpassed
            · exact .inr (.inr hsourced)
  | @package surface edge hread hedge hexternal hentry =>
      subst hentry
      have hsource : Source lookup read root ⟨.wildcard, edge.specifier, wildcardName, true⟩ :=
        .package (by simp) (by simp) hexternal
          (hpackages _ _ hread _ (Surface.mem_wildcards.mp hedge).1 hexternal)
      exact .inr (.inr ⟨hsource, fun _ => rfl⟩)

/-! ## The root -/

structure Own (root : Location) (surface : Surface) (definition : Definition)
    (entry : Resolved) : Prop where
  mem : definition ∈ surface.definitions
  exported : definition.exportName? = some entry.exportedName
  eq : entry = ⟨entry.exportedName, root.written, entry.exportedName, entry.typeOnly, .named,
    false, definition.localName, definition.localName.isNone⟩
  value : entry.typeOnly = false → definition.typeOnly = false

theorem stems_behind_wildcards (hdepth : 2 ≤ lookup.settings.maxDepth)
    (hstands : StandingFile lookup.volume module) (hne : module ≠ root)
    (hpath : ∀ name, name ≠ defaultName →
      ReflTransGen (Passes (.ofLookup lookup) read) ⟨root, name⟩ ⟨module, name⟩)
    (hcontributes : Contributes (.ofLookup lookup) read found false module) :
    (∃ name, Returned (.ofLookup lookup) read root ⟨root, name⟩ found) ∨
      Sourced lookup read root found := by
  rcases contributes_stems hpackages hstands hcontributes with
    ⟨surface, hread, definition, hmem, hlocal⟩ | ⟨name, hname, hreturned⟩ | hsourced
  · exact .inr (definition_sourced hmem hread hstands hne hdepth hlocal)
  · exact .inl ⟨name, hreturned.of_path (hpath name (hname rfl))⟩
  · exact .inr hsourced

theorem expanded_stems {left : Nat} {edge : ReExport} {inner : List Resolved}
    (hread : read root = .ok surface) (hstands : StandingFile lookup.volume root)
    (hleft : lookup.settings.maxDepth = left + 1) (hedge : edge ∈ surface.wildcards)
    (hinternal : Specifier.isInternal edge.specifier = true)
    (hlocate : (Resolver.ofLookup lookup).locate edge.specifier root = .ok module)
    (hfresh : module ∉ [root])
    (hinner : (expand (.ofLookup lookup) left [root] false module).run read = .ok inner)
    (hmem : entry ∈ inner) :
    (∃ name, Returned (.ofLookup lookup) read root ⟨root, name⟩ entry) ∨
      Sourced lookup read root entry := by
  have hdepth : 2 ≤ lookup.settings.maxDepth := by
    cases left with
    | zero => cases hinner
    | succ left => omega
  obtain ⟨source, hsource, hwithin⟩ := expand_stems hinner hmem
  obtain ⟨other, hpath, hcontributes⟩ := hwithin.exists_path
  have hstands' := standingFile_of_forwards hpath (standingFile_of_locate hstands hlocate)
  have hne : other ≠ root := by
    simpa using not_mem_of_around hpath hfresh
  have hpasses (name : String) (hname : name ≠ defaultName) :
      ReflTransGen (Passes (.ofLookup lookup) read) ⟨root, name⟩ ⟨other, name⟩ :=
    .head (.wildcard hread hedge hname hinternal hlocate) (passes_of_forwards hpath hname)
  rcases stems_behind_wildcards hpackages hdepth hstands' hne hpasses hcontributes with
    ⟨name, hreturned⟩ | hsourced
  · exact .inl ⟨name, hreturned.of_asValue_eq hsource⟩
  · exact .inr (hsourced.of_asValue_eq hsource)

theorem collected_stems_of_root {left : Nat} {lists : List (List Collected)}
    (hread : read root = .ok surface) (hstands : StandingFile lookup.volume root)
    (hleft : lookup.settings.maxDepth = left + 1)
    (hcollects : List.Forall₂ (Collects (.ofLookup lookup) read
      (expand (.ofLookup lookup) left [root] false) [root] root true) surface.items lists)
    (hmem : entry ∈ exportsOfAll lists.flatten) :
    (∃ definition ∈ surface.definitions, localExport root definition = .ok entry) ∨
      (∃ name, Returned (.ofLookup lookup) read root ⟨root, name⟩ entry) ∨
        Sourced lookup read root entry := by
  have hhere (hcontributes : Contributes (.ofLookup lookup) read entry true root) :
      (∃ definition ∈ surface.definitions, localExport root definition = .ok entry) ∨
        (∃ name, Returned (.ofLookup lookup) read root ⟨root, name⟩ entry) ∨
          Sourced lookup read root entry := by
    rcases contributes_stems hpackages hstands hcontributes with
      ⟨surface', hread', hdefined⟩ | ⟨name, -, hreturned⟩ | hsourced
    · obtain rfl := ok_inj hread hread'
      exact .inl hdefined
    · exact .inr (.inl ⟨name, hreturned⟩)
    · exact .inr (.inr hsourced)
  obtain ⟨entries, hentries, hmem⟩ := mem_collected.mp hmem
  obtain ⟨item, hitem, hfirst⟩ := exists_left_of_forall₂ hcollects hentries
  cases hfirst with
  | @explicit _ found hexplicit hpassed hrun =>
      rw [exportsOfAll, List.map_singleton, List.mem_singleton] at hmem
      subst hmem
      exact hhere (.explicit hread hitem hexplicit hpassed hrun)
  | excluded => cases hmem
  | @wildcard edge exports hkind hrun =>
      rw [exportsOfAll_viaWildcard] at hmem
      have hedge := Surface.mem_wildcards.mpr ⟨Surface.mem_items_reExport.mp hitem, hkind⟩
      rcases mem_of_expandWildcard hrun hmem with
        ⟨hinternal, target, inner, hlocate, hfresh, hinner, found, hfound, hvalue⟩ |
          ⟨hexternal, hentry⟩
      · refine .inr ?_
        rcases expanded_stems hpackages hread hstands hleft hedge hinternal hlocate hfresh hinner
          hfound with ⟨name, hreturned⟩ | hsourced
        · exact .inl ⟨name, hreturned.of_asValue_eq hvalue⟩
        · exact .inr (hsourced.of_asValue_eq hvalue)
      · exact hhere (.package hread hedge hexternal hentry)

theorem collected_of_root {left : Nat} {lists : List (List Collected)}
    (hread : read root = .ok surface) (hstands : StandingFile lookup.volume root)
    (hreturn : Returnless (.ofLookup lookup) read root)
    (hleft : lookup.settings.maxDepth = left + 1)
    (hcollects : List.Forall₂ (Collects (.ofLookup lookup) read
      (expand (.ofLookup lookup) left [root] false) [root] root true) surface.items lists)
    (hmem : entry ∈ exportsOfAll lists.flatten) :
    (∃ definition ∈ surface.definitions, localExport root definition = .ok entry) ∨
      Sourced lookup read root entry := by
  rcases collected_stems_of_root hpackages hread hstands hleft hcollects hmem with
    hown | ⟨name, hreturned⟩ | hsourced
  · exact .inl hown
  · exact absurd hreturned.path (hreturn name entry.originName)
  · exact .inr hsourced

end

theorem Sourced.groupKey_ne (hsourced : Sourced lookup read root entry)
    (hsteps : ∀ name ∈ root.names, IsStep name) : entry.groupKey ≠ .named root.written := by
  intro hkey
  rw [groupKey] at hkey
  split at hkey
  · rename_i hkind
    exact hsourced.source.origin_ne hkind hsteps (GroupKey.named.inj hkey)
  · cases hkey

theorem own_or_sourced {lists : List (List Collected)}
    (hcollected : ∀ found ∈ exportsOfAll lists.flatten,
      (∃ definition ∈ surface.definitions, localExport root definition = .ok found) ∨
        Sourced lookup read root found)
    (hsteps : ∀ name ∈ root.names, IsStep name)
    (hnames : (surface.items.filterMap Item.name?).Nodup)
    (hmem : entry ∈ merge lists.flatten) :
    (∃ definition, Own root surface definition entry) ∨ Sourced lookup read root entry := by
  obtain ⟨found, hfound, hvalue⟩ := exists_of_merge hmem
  rcases hcollected found hfound with ⟨definition, hdefinition, hlocal⟩ | hsourced
  · left
    obtain ⟨name, hname, rfl⟩ := localExport_eq_ok.mp hlocal
    obtain ⟨typeOnly, rfl⟩ := exists_typeOnly_of_asValue_eq hvalue
    refine ⟨definition, hdefinition, hname, rfl, fun hvalued => ?_⟩
    obtain ⟨source, hsource, hsourceValue, hsame⟩ := exists_value_of_merge hmem hvalued
    rcases hcollected source hsource with ⟨other, hother, hlocal'⟩ | hsourced
    · obtain ⟨name', hname', rfl⟩ := localExport_eq_ok.mp hlocal'
      have hkey := (mergeKey_eq_name.mp (hsame.1.symm.trans
        (mergeKey_eq_name.mpr ⟨by simp, rfl⟩))).2
      dsimp only at hkey
      subst hkey
      have hitem := Item.eq_of_name? hnames (Surface.mem_items_definition.mpr hdefinition)
        (Surface.mem_items_definition.mpr hother) hname hname'
      cases hitem
      exact hsourceValue
    · refine absurd ?_ (hsourced.groupKey_ne hsteps)
      rw [groupKey, if_pos hsame.2.1.symm, ← hsame.2.2.1]
  · exact .inr (hsourced.of_asValue_eq hvalue)

end FlatExports.Resolution
