import FlatExports.Proofs.Resolution.Home

/-!
What supplies the exports of a module.

Whatever its project looks like, every export of a module is a definition of a
module that its re-exports link to, the namespace of one, or something of a
package that such a module names.  Only definitions have local bindings.
-/

namespace FlatExports.Resolution

open Relation Resolved
open Lookup (StandingFile)

variable {resolver : Resolver} {read : Survey.Reader} {path : List Location}
  {module next target : Location} {edge : ReExport} {surface : Surface} {entry found : Resolved}
  {exports : List Resolved} {name : String} {typeOnly includeDefault : Bool} {chain : List Hop}
  {left : Nat}

def Links (resolver : Resolver) (read : Survey.Reader) (module target : Location) : Prop :=
  ∃ surface, read module = .ok surface ∧ ∃ edge ∈ surface.reExports,
    Specifier.isInternal edge.specifier = true ∧
      resolver.locate edge.specifier module = .ok target

theorem standingFile_of_links {lookup : Lookup}
    (hpath : ReflTransGen (Links (.ofLookup lookup) read) module target)
    (hstands : StandingFile lookup.volume module) : StandingFile lookup.volume target := by
  induction hpath with
  | refl => exact hstands
  | tail _ hlinks ih =>
      obtain ⟨_, _, _, _, _, hlocate⟩ := hlinks
      exact standingFile_of_locate ih hlocate

def NamesPackage (read : Survey.Reader) (module : Location) (package : String) : Prop :=
  ∃ surface, read module = .ok surface ∧ ∃ edge ∈ surface.reExports,
    Specifier.isInternal edge.specifier = false ∧ edge.specifier = package

inductive Supplied (resolver : Resolver) (read : Survey.Reader) (module : Location)
    (entry : Resolved) : Prop
  | definition {target : Location} {surface : Surface}
      (hpath : ReflTransGen (Links resolver read) module target)
      (hread : read target = .ok surface)
      (hhome : Home target surface entry)
  | namespaceOf {target : Location}
      (hpath : ReflTransGen (Links resolver read) module target)
      (hkind : entry.kind = .namespaced)
      (horigin : entry.origin = target.written)
      (hinternal : entry.external = false)
  | package {target : Location}
      (hpath : ReflTransGen (Links resolver read) module target)
      (hnames : NamesPackage read target entry.origin)
      (hkind : entry.kind ≠ .default)
      (hexternal : entry.external = true)
      (hunbound : entry.localName = none)
      (hmoved : entry.inline = false)

namespace Supplied

theorem of_path (hpath : ReflTransGen (Links resolver read) module next)
    (h : Supplied resolver read next entry) : Supplied resolver read module entry := by
  cases h with
  | definition hrest hread hhome => exact .definition (hpath.trans hrest) hread hhome
  | namespaceOf hrest hkind horigin hinternal =>
      exact .namespaceOf (hpath.trans hrest) hkind horigin hinternal
  | package hrest hnames hkind hexternal hunbound hmoved =>
      exact .package (hpath.trans hrest) hnames hkind hexternal hunbound hmoved

theorem of_asValue_eq (h : Supplied resolver read module found)
    (hvalue : found.asValue = entry.asValue) : Supplied resolver read module entry := by
  have hhomes {target surface} (hhome : Home target surface found) : Home target surface entry :=
    hhome.of_asValue_eq hvalue
  obtain ⟨typeOnly, rfl⟩ := exists_typeOnly_of_asValue_eq hvalue
  cases h with
  | definition hpath hread hhome => exact .definition hpath hread (hhomes hhome)
  | namespaceOf hpath hkind horigin hinternal =>
      exact .namespaceOf hpath hkind horigin hinternal
  | package hpath hnames hkind hexternal hunbound hmoved =>
      exact .package hpath hnames hkind hexternal hunbound hmoved

theorem package_of_external (h : Supplied resolver read module entry)
    (hexternal : entry.external = true) :
    ∃ target, ReflTransGen (Links resolver read) module target ∧
      NamesPackage read target entry.origin := by
  cases h with
  | definition _ _ hhome => cases hhome.internal.symm.trans hexternal
  | namespaceOf _ _ _ hinternal => cases hinternal.symm.trans hexternal
  | package hpath hnames => exact ⟨_, hpath, hnames⟩

theorem path_of_internal (h : Supplied resolver read module entry)
    (hinternal : entry.external = false) :
    ∃ target, ReflTransGen (Links resolver read) module target ∧
      entry.origin = target.written := by
  cases h with
  | definition hpath _ hhome => exact ⟨_, hpath, hhome.origin⟩
  | namespaceOf hpath _ horigin => exact ⟨_, hpath, horigin⟩
  | package _ _ _ hexternal => cases hinternal.symm.trans hexternal

end Supplied

/-! ## What a trace finds -/

def SuppliedAs (resolver : Resolver) (read : Survey.Reader) (module : Location)
    (found : Resolved) : Prop :=
  ∀ name, Supplied resolver read module { found with exportedName := name }

theorem definedIn_supplied {first : Definition} {others : List Definition}
    (hread : read module = .ok surface) (hdefinitions : surface.definitionsOf name = first :: others) :
    SuppliedAs resolver read module (definedIn module name typeOnly (preferred first others)) := by
  obtain ⟨hmem, hname⟩ := mem_of_preferred hdefinitions
  intro exported
  exact .definition .refl hread ⟨rfl, rfl, rfl, preferred first others, hmem, hname, .inr ⟨rfl, rfl⟩⟩

theorem fromPackage_supplied {exported imported : String} (hread : read module = .ok surface)
    (hedge : edge ∈ surface.reExports) (hexternal : Specifier.isInternal edge.specifier = false) :
    SuppliedAs resolver read module (fromPackage edge.specifier exported imported typeOnly) := by
  intro name
  exact .package .refl ⟨surface, hread, edge, hedge, hexternal, rfl⟩ (by simp [fromPackage]) rfl rfl rfl

theorem namespaceOf_supplied (hread : read module = .ok surface)
    (hedge : edge ∈ surface.reExports)
    (hrun : namespaceOf resolver module edge typeOnly = .ok found) :
    SuppliedAs resolver read module found := by
  obtain ⟨exported, origin, -, rfl, horigin⟩ := namespaceOf_eq_ok.mp hrun
  intro name
  split at horigin
  · rename_i hinternal
    obtain ⟨target, hlocate, rfl⟩ := horigin
    exact .namespaceOf (.single ⟨surface, hread, edge, hedge, hinternal, hlocate⟩) rfl rfl
      (by simp [hinternal])
  · rename_i hexternal
    rw [Bool.not_eq_true] at hexternal
    subst horigin
    exact .package .refl ⟨surface, hread, edge, hedge, hexternal, rfl⟩ (by simp)
      (by simp [hexternal]) rfl rfl

theorem Ends.supplied {last : Hop} {typed : Bool}
    (hends : Ends resolver read last typed found.provenance)
    (hdefined : ∀ surface first others, read last.module = .ok surface →
      surface.definitionsOf last.name = first :: others →
        found = definedIn last.module last.name found.typeOnly (preferred first others))
    (hmoved : found.inline = false)
    (hunbound : ∀ surface, read last.module = .ok surface →
      surface.definitionsOf last.name = [] → found.localName = none) :
    SuppliedAs resolver read last.module found := by
  obtain ⟨exported, origin, originName, foundType, kind, external, localName, inline⟩ := found
  simp only [provenance] at hends hmoved hunbound
  intro exported
  cases hends with
  | definition hread hne =>
      obtain ⟨first, others, hdefinitions⟩ := List.exists_cons_of_ne_nil hne
      rw [hdefined _ first others hread hdefinitions]
      exact definedIn_supplied hread hdefinitions exported
  | packageEdge hread hundefined hedge _ _ hexternal =>
      obtain ⟨hmem, -, -⟩ := Surface.mem_of_reExportOf? hedge
      exact .package .refl ⟨_, hread, _, hmem, hexternal, rfl⟩ (by simp) rfl
        (hunbound _ hread hundefined) hmoved
  | packageNamespace hread hundefined hedge _ hexternal =>
      obtain ⟨hmem, -, -⟩ := Surface.mem_of_reExportOf? hedge
      exact .package .refl ⟨_, hread, _, hmem, hexternal, rfl⟩ (by simp) rfl
        (hunbound _ hread hundefined) hmoved
  | moduleNamespace hread _ hedge _ hinternal hlocate =>
      obtain ⟨hmem, -, -⟩ := Surface.mem_of_reExportOf? hedge
      exact .namespaceOf (.single ⟨_, hread, _, hmem, hinternal, hlocate⟩) rfl rfl rfl
  | @packageWildcard _ _ _ edge hread hundefined _ _ honly =>
      have hedge : edge ∈ _ := honly.symm ▸ List.mem_singleton_self edge
      obtain ⟨hwildcard, hexternal⟩ := List.mem_filter.mp hedge
      obtain ⟨hmem, -⟩ := Surface.mem_wildcards.mp hwildcard
      exact .package .refl ⟨_, hread, _, hmem, by simpa using hexternal, rfl⟩ (by simp) rfl
        (hunbound _ hread hundefined) hmoved

theorem links_of_passes {hop last : Hop} (hpath : ReflTransGen (Passes resolver read) hop last) :
    ReflTransGen (Links resolver read) hop.module last.module := by
  refine ReflTransGen.lift Hop.module (fun hop last hpass => ?_) _ _ hpath
  cases hpass with
  | edge hread hedge _ _ _ hinternal hlocate => exact ⟨_, hread, _, hedge, hinternal, hlocate⟩
  | wildcard hread hedge _ hinternal hlocate =>
      exact ⟨_, hread, _, (Surface.mem_wildcards.mp hedge).1, hinternal, hlocate⟩

theorem trace_supplied
    (hrun : (trace resolver left chain module name typeOnly).run read = .ok (some found)) :
    SuppliedAs resolver read module found := by
  obtain ⟨last, typed, hpath, hends, hdefined, hmoved, hunbound⟩ := trace_ends hrun
  intro exported
  exact (hends.supplied hdefined hmoved hunbound exported).of_path (links_of_passes hpath)

/-! ## What an expansion collects -/

theorem follow_supplied (hread : read module = .ok surface) (hedge : edge ∈ surface.reExports)
    (hrun : (follow resolver module edge).run read = .ok found) :
    Supplied resolver read module found := by
  obtain ⟨exported, imported, -, -, hfound⟩ := follow_eq_ok hrun
  split at hfound
  · rename_i hinternal
    obtain ⟨target, whole, hlocate, htrace, rfl⟩ := hfound
    exact (trace_supplied htrace exported).of_path
      (.single ⟨surface, hread, edge, hedge, hinternal, hlocate⟩)
  · rename_i hexternal
    subst hfound
    have hsupplied : SuppliedAs resolver read module
        (fromPackage edge.specifier exported imported edge.typeOnly) :=
      fromPackage_supplied hread hedge (by simpa using hexternal)
    exact hsupplied exported

theorem Contributes.supplied (h : Contributes resolver read entry includeDefault module) :
    Supplied resolver read module entry := by
  cases h with
  | @explicit surface item hread hitem _ _ hrun =>
      cases item with
      | definition definition =>
          exact .definition .refl hread
            (home_of_localExport (Surface.mem_items_definition.mp hitem) hrun)
      | reExport edge =>
          have hedge := Surface.mem_items_reExport.mp hitem
          rw [itemExport] at hrun
          split at hrun
          · exact namespaceOf_supplied hread hedge hrun entry.exportedName
          · exact follow_supplied hread hedge hrun
  | @package surface edge hread hedge hexternal hentry =>
      subst hentry
      exact .package .refl
        ⟨surface, hread, edge, (Surface.mem_wildcards.mp hedge).1, hexternal, rfl⟩
        (by simp [packageWildcard]) rfl rfl rfl

theorem links_of_forwards
    (hpath : ReflTransGen (Around (Forwards resolver read) path) module target) :
    ReflTransGen (Links resolver read) module target := by
  refine ReflTransGen.mono ?_ _ _ hpath
  intro module target hstep
  obtain ⟨⟨surface, hread, edge, hedge, hinternal, hlocate⟩, -⟩ := hstep
  exact ⟨surface, hread, edge, (Surface.mem_wildcards.mp hedge).1, hinternal, hlocate⟩

/-- Every export of a module is supplied by a module or a package that its re-exports link to. -/
theorem supplied_of_expand
    (hrun : (Resolution.expand resolver left path includeDefault module).run read = .ok exports)
    (hentry : entry ∈ exports) : Supplied resolver read module entry := by
  obtain ⟨source, hvalue, hwithin⟩ := expand_stems hrun hentry
  refine Supplied.of_asValue_eq ?_ hvalue
  rcases hwithin with hcontributes | ⟨other, hpath, hcontributes⟩
  · exact hcontributes.supplied
  · exact hcontributes.supplied.of_path (links_of_forwards hpath)

end FlatExports.Resolution
