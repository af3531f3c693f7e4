import FlatExports.Proofs.Resolution.Exhaustion

/-!
Names that only packages can provide.

Where no module publishes a name, a trace falls back on the packages that the
wildcards of one module pass on.  That module is found by going into the first
internal wildcard behind which there still is a package, until there is none.
It is an ambiguity if this one module has several external wildcards, even of
one package; what other modules pass on does not count.
-/

namespace FlatExports.Resolution

open Relation

/-! ## The module that decides -/

def packagesOf (surface : Surface) : List ReExport :=
  surface.wildcards.filter fun edge => !Specifier.isInternal edge.specifier

/-- Wildcards lead, around a path, to a module that passes a package on. -/
def PackagesBehind (resolver : Resolver) (read : Survey.Reader) (path : List Location)
    (module : Location) : Prop :=
  ∃ other package, ReflTransGen (Around (Forwards resolver read) path) module other ∧
    PassesOn read package other

def Continues (resolver : Resolver) (path : List Location) (module : Location) (edge : ReExport)
    (target : Location) : Prop :=
  Specifier.isInternal edge.specifier = true ∧
    resolver.locate edge.specifier module = .ok target ∧ target ∉ path

def Barren (resolver : Resolver) (read : Survey.Reader) (path : List Location)
    (module : Location) (edge : ReExport) : Prop :=
  ∀ target, Continues resolver (module :: path) module edge target →
    ¬PackagesBehind resolver read (module :: path) target

/-- The module whose packages a search falls back on, on a path of modules above it. -/
inductive Decides (resolver : Resolver) (read : Survey.Reader) :
    List Location → Location → Location → Prop
  | here {path module surface}
      (hread : read module = .ok surface)
      (hpackages : packagesOf surface ≠ [])
      (hlast : ∀ edge ∈ surface.wildcards, Barren resolver read path module edge) :
      Decides resolver read path module module
  | through {path module surface before edge after target decisive}
      (hread : read module = .ok surface)
      (hwildcards : surface.wildcards = before ++ edge :: after)
      (hbefore : ∀ passed ∈ before, Barren resolver read path module passed)
      (hcontinues : Continues resolver (module :: path) module edge target)
      (hdecides : Decides resolver read (module :: path) target decisive) :
      Decides resolver read path module decisive

variable {resolver : Resolver} {read : Survey.Reader} {search : Search} {name : String}
  {module other target decisive : Location} {surface : Surface} {edge : ReExport} {typed : Bool}
  {chain : List Hop} {path : List Location} {outcome : Except Failure (Option Resolved)}

theorem passesOn_iff (hread : read module = .ok surface) :
    (∃ package, PassesOn read package module) ↔ packagesOf surface ≠ [] := by
  constructor
  · rintro ⟨package, whole, hwhole, edge, hedge, hexternal, -⟩
    obtain rfl := ok_inj hread hwhole
    exact List.ne_nil_of_mem (List.mem_filter.mpr ⟨hedge, by simp [hexternal]⟩)
  · intro hpackages
    obtain ⟨edge, hedge⟩ := List.exists_mem_of_ne_nil _ hpackages
    obtain ⟨hwildcard, hexternal⟩ := List.mem_filter.mp hedge
    exact ⟨edge.specifier, surface, hread, edge, hwildcard, by simpa using hexternal, rfl⟩

theorem Continues.forwards (h : Continues resolver path module edge target)
    (hread : read module = .ok surface) (hedge : edge ∈ surface.wildcards) :
    Forwards resolver read module target :=
  ⟨surface, hread, edge, hedge, h.1, h.2.1⟩

/-- There are packages behind a module if it passes one on or a wildcard of it leads to some. -/
theorem packagesBehind_iff (hread : read module = .ok surface) :
    PackagesBehind resolver read path module ↔
      packagesOf surface ≠ [] ∨ ∃ edge ∈ surface.wildcards, ∃ target,
        Continues resolver (module :: path) module edge target ∧
          PackagesBehind resolver read (module :: path) target := by
  constructor
  · rintro ⟨other, package, hpath, hpasses⟩
    rcases reflTransGen_around_iff.mp hpath with rfl | ⟨target, hstep, hfresh, hrest⟩
    · exact .inl ((passesOn_iff hread).mp ⟨package, hpasses⟩)
    · obtain ⟨whole, hwhole, edge, hedge, hinternal, hlocate⟩ := hstep
      obtain rfl := ok_inj hread hwhole
      exact .inr ⟨edge, hedge, target, ⟨hinternal, hlocate, hfresh⟩, other, package, hrest, hpasses⟩
  · rintro (hpackages | ⟨edge, hedge, target, hcontinues, other, package, hpath, hpasses⟩)
    · obtain ⟨package, hpasses⟩ := (passesOn_iff hread).mpr hpackages
      exact ⟨module, package, .refl, hpasses⟩
    · exact ⟨other, package, reflTransGen_around_iff.mpr
        (.inr ⟨target, hcontinues.forwards hread hedge, hcontinues.2.2, hpath⟩), hpasses⟩

namespace Decides

theorem packagesBehind (h : Decides resolver read path module decisive) :
    PackagesBehind resolver read path module := by
  induction h with
  | here hread hpackages _ => exact (packagesBehind_iff hread).mpr (.inl hpackages)
  | through hread hwildcards _ hcontinues _ ih =>
      exact (packagesBehind_iff hread).mpr
        (.inr ⟨_, hwildcards ▸ List.mem_append_cons_self, _, hcontinues, ih⟩)

theorem decisive_eq (h : Decides resolver read path module decisive)
    (h' : Decides resolver read path module other) : decisive = other := by
  induction h with
  | here hread _ hlast =>
      cases h' with
      | here => rfl
      | through hread' hwildcards' _ hcontinues' hdecides' =>
          obtain rfl := ok_inj hread hread'
          exact absurd hdecides'.packagesBehind
            (hlast _ (hwildcards' ▸ List.mem_append_cons_self) _ hcontinues')
  | through hread hwildcards hbefore hcontinues hdecides ih =>
      cases h' with
      | here hread' _ hlast' =>
          obtain rfl := ok_inj hread hread'
          exact absurd hdecides.packagesBehind
            (hlast' _ (hwildcards ▸ List.mem_append_cons_self) _ hcontinues)
      | through hread' hwildcards' hbefore' hcontinues' hdecides' =>
          obtain rfl := ok_inj hread hread'
          rcases Finds.first_of_split (hwildcards.symm.trans hwildcards') with
            rfl | hpassed | hpassed
          · obtain rfl := ok_inj hcontinues.2.1 hcontinues'.2.1
            exact ih hdecides'
          · exact absurd hdecides.packagesBehind (hbefore' _ hpassed _ hcontinues)
          · exact absurd hdecides'.packagesBehind (hbefore _ hpassed _ hcontinues')

theorem surface_eq {whole : Surface} (h : Decides resolver read path module decisive)
    (h' : Decides resolver read path module other) (hread : read decisive = .ok surface)
    (hother : read other = .ok whole) : whole = surface := by
  obtain rfl := h.decisive_eq h'
  exact ok_inj hother hread

end Decides

/-! ## What a trace settles on -/

def Unpublished (resolver : Resolver) (read : Survey.Reader) (name : String)
    (module : Location) : Prop :=
  ∀ other, ReflTransGen (Forwards resolver read) module other → ¬ExportsName read name other

/-- A module cannot be read, or an internal wildcard of it leads nowhere. -/
def Breaks (resolver : Resolver) (read : Survey.Reader) (module : Location) (failure : Failure) :
    Prop :=
  read module = .error failure ∨ ∃ surface, read module = .ok surface ∧
    ∃ edge ∈ surface.wildcards, Specifier.isInternal edge.specifier = true ∧
      resolver.locate edge.specifier module = .error failure

inductive Settles (resolver : Resolver) (read : Survey.Reader) (name : String)
    (path : List Location) (module : Location) : Except Failure (Option Resolved) → Prop
  | nothing (hnothing : ¬PackagesBehind resolver read path module) :
      Settles resolver read name path module (.ok none)
  | package {decisive : Location} {surface : Surface} {edge : ReExport} (typed : Bool)
      (hdecides : Decides resolver read path module decisive)
      (hread : read decisive = .ok surface)
      (honly : packagesOf surface = [edge]) :
      Settles resolver read name path module
        (.ok (some (fromPackage edge.specifier name name typed)))
  | several {decisive : Location} {surface : Surface} (chain : List Hop)
      (hdecides : Decides resolver read path module decisive)
      (hread : read decisive = .ok surface)
      (hseveral : 2 ≤ (packagesOf surface).length) :
      Settles resolver read name path module
        (.error (ambiguous decisive name chain .severalPackages))
  | broken {other : Location} {failure : Failure}
      (hpath : ReflTransGen (Forwards resolver read) module other)
      (hbreaks : Breaks resolver read other failure) :
      Settles resolver read name path module (.error failure)

theorem Settles.lift {before after : List ReExport} (hread : read module = .ok surface)
    (hwildcards : surface.wildcards = before ++ edge :: after)
    (hbefore : ∀ passed ∈ before, Barren resolver read path module passed)
    (hcontinues : Continues resolver (module :: path) module edge target)
    (hsettles : Settles resolver read name (module :: path) target outcome) :
    (outcome = .ok none ∧ ¬PackagesBehind resolver read (module :: path) target) ∨
      (outcome ≠ .ok none ∧ Settles resolver read name path module outcome) := by
  cases hsettles with
  | nothing hnothing => exact .inl ⟨rfl, hnothing⟩
  | package typed hdecides hother honly =>
      exact .inr ⟨by simp,
        .package typed (.through hread hwildcards hbefore hcontinues hdecides) hother honly⟩
  | several chain hdecides hother hseveral =>
      exact .inr ⟨by simp,
        .several chain (.through hread hwildcards hbefore hcontinues hdecides) hother hseveral⟩
  | broken hpath hbreaks =>
      exact .inr ⟨by simp, .broken
        (hpath.head (hcontinues.forwards hread (hwildcards ▸ List.mem_append_cons_self))) hbreaks⟩

theorem throughWildcards_settles {before rest : List ReExport}
    (hread : read module = .ok surface)
    (hwildcards : surface.wildcards = before ++ rest)
    (hchain : ∀ target, Forwards resolver read module target →
      ((⟨target, name⟩ : Hop) ∈ chain ↔ target ∈ module :: path))
    (hsearch : ∀ target, Forwards resolver read module target → target ∉ module :: path →
      ∀ typed, Settles resolver read name (module :: path) target
        ((search target name typed).run read))
    (hbefore : ∀ passed ∈ before, Barren resolver read path module passed) :
    ((throughWildcards resolver search module name typed chain rest).run read = .ok none ∧
      ∀ edge ∈ surface.wildcards, Barren resolver read path module edge) ∨
    ((throughWildcards resolver search module name typed chain rest).run read ≠ .ok none ∧
      Settles resolver read name path module
        ((throughWildcards resolver search module name typed chain rest).run read)) := by
  induction rest generalizing before with
  | nil => exact .inl ⟨rfl, by simpa [hwildcards] using hbefore⟩
  | cons edge rest ih =>
      have hedge : edge ∈ surface.wildcards := hwildcards ▸ List.mem_append_cons_self
      have hsplit : surface.wildcards = (before ++ [edge]) ++ rest := by simp [hwildcards]
      have hpass (hpassed : Barren resolver read path module edge) :=
        ih hsplit (List.forall_mem_append.mpr ⟨hbefore, by simpa using hpassed⟩)
      rw [run_throughWildcards_cons]
      by_cases hinternal : Specifier.isInternal edge.specifier = true
      · rw [if_pos hinternal]
        cases hlocate : resolver.locate edge.specifier module with
        | error failure =>
            exact .inr ⟨by simp,
              .broken .refl (.inr ⟨surface, hread, edge, hedge, hinternal, hlocate⟩)⟩
        | ok target =>
            have hforwards : Forwards resolver read module target :=
              ⟨surface, hread, edge, hedge, hinternal, hlocate⟩
            have hone (other : Location)
                (h : Continues resolver (module :: path) module edge other) : other = target :=
              ok_inj h.2.1 hlocate
            dsimp only
            by_cases hmem : target ∈ module :: path
            · rw [if_pos ((hchain target hforwards).mpr hmem)]
              exact hpass fun other h => absurd (hone other h ▸ hmem) h.2.2
            · rw [if_neg fun h => hmem ((hchain target hforwards).mp h)]
              rcases (hsearch target hforwards hmem (typed || edge.typeOnly)).lift hread
                hwildcards hbefore ⟨hinternal, hlocate, hmem⟩ with
                ⟨hrun, hnothing⟩ | ⟨hne, hsettles⟩
              · rw [hrun, orElse_none]
                exact hpass fun other h => hone other h ▸ hnothing
              · rw [orElse_of_ne hne]
                exact .inr ⟨hne, hsettles⟩
      · rw [if_neg hinternal]
        exact hpass fun other h => absurd h.1 hinternal

theorem throughPackages_settles (hread : read module = .ok surface)
    (hlast : ∀ edge ∈ surface.wildcards, Barren resolver read path module edge) :
    Settles resolver read name path module
      (throughPackages module name typed chain surface.wildcards) := by
  have hhere (hpackages : packagesOf surface ≠ []) : Decides resolver read path module module :=
    .here hread hpackages hlast
  unfold throughPackages
  split
  · rename_i hnone
    refine .nothing fun h => ?_
    rcases (packagesBehind_iff hread).mp h with hpackages | ⟨edge, hedge, target, hcontinues, hmore⟩
    · exact hpackages hnone
    · exact hlast edge hedge target hcontinues hmore
  · rename_i edge honly
    exact .package _ (hhere (by simp [packagesOf, honly])) hread honly
  · rename_i hnone hone
    have hlength : 2 ≤ (packagesOf surface).length := by
      rcases hpackages : packagesOf surface with _ | ⟨first, _ | ⟨second, rest⟩⟩
      · exact absurd hpackages hnone
      · exact absurd hpackages (hone first)
      · simp
    exact .several chain (hhere fun h => hnone h) hread hlength

theorem length_filter_lt {modules : List Location} (hmem : module ∈ modules)
    (hfresh : module ∉ path) :
    (modules.filter (· ∉ module :: path)).length < (modules.filter (· ∉ path)).length := by
  have hfilter : modules.filter (· ∉ module :: path) =
      (modules.filter (· ∉ path)).filter (· ≠ module) := by
    rw [List.filter_filter]
    exact List.filter_congr fun other _ => by simp
  rw [hfilter, List.length_filter_lt_length_iff_exists]
  exact ⟨module, List.mem_filter.mpr ⟨hmem, by simpa using hfresh⟩, by simp⟩

/-- A trace of a name that no module publishes, with room for every module once. -/
theorem trace_settles {left : Nat} {modules : List Location} (hname : name ≠ defaultName)
    (hsilent : Unpublished resolver read name module)
    (hchain : ∀ other, ReflTransGen (Forwards resolver read) module other →
      ((⟨other, name⟩ : Hop) ∈ chain ↔ other ∈ path))
    (hmodules : ∀ other, ReflTransGen (Forwards resolver read) module other → other ∈ modules)
    (hfresh : module ∉ path) (hroom : (modules.filter (· ∉ path)).length ≤ left) :
    Settles resolver read name path module
      ((trace resolver left chain module name typed).run read) := by
  -- Every hop leaves one module fewer to go to, so the trace never runs out of hops.
  induction left generalizing chain path module typed with
  | zero =>
      have hmem : module ∈ modules.filter (· ∉ path) :=
        List.mem_filter.mpr ⟨hmodules module .refl, by simpa using hfresh⟩
      rw [List.length_eq_zero_iff.mp (Nat.le_zero.mp hroom)] at hmem
      cases hmem
  | succ left ih =>
      unfold trace
      rw [if_neg fun h => hfresh ((hchain module .refl).mp h)]
      dsimp only
      rw [Survey.run_bind, Survey.run_look]
      cases hread : read module with
      | error failure => exact .broken .refl (.inl hread)
      | ok surface =>
          change Settles resolver read name path module (Survey.run read (searchSurface ..))
          rw [run_searchSurface_of_no_item hname ((silent_iff hread).mp (hsilent module .refl))]
          have hlonger (other : Location)
              (hpath : ReflTransGen (Forwards resolver read) module other) :
              (⟨other, name⟩ : Hop) ∈ chain ++ [⟨module, name⟩] ↔ other ∈ module :: path := by
            simp [hchain other hpath, or_comm]
          have hsearch (target : Location) (hstep : Forwards resolver read module target)
              (hnew : target ∉ module :: path) (typed : Bool) :
              Settles resolver read name (module :: path) target ((trace resolver left
                (chain ++ [⟨module, name⟩]) target name typed).run read) := by
            refine ih (fun other hpath => hsilent other (hpath.head hstep))
              (fun other hpath => hlonger other (hpath.head hstep))
              (fun other hpath => hmodules other (hpath.head hstep)) hnew ?_
            have hless := length_filter_lt (hmodules module .refl) hfresh
            omega
          have hall : surface.wildcards = [] ++ surface.wildcards := rfl
          rcases throughWildcards_settles hread hall
            (fun target hstep => hlonger target (.single hstep)) hsearch (by simp) with
            ⟨hrun, hlast⟩ | ⟨hne, hsettles⟩
          · rw [hrun, orElse_none]
            exact throughPackages_settles hread hlast
          · rwa [orElse_of_ne hne]

/-! ## Modules whose wildcards stay among them -/

def Enclosed (resolver : Resolver) (read : Survey.Reader) (modules : List Location) : Prop :=
  ∀ module ∈ modules, ∃ surface, read module = .ok surface ∧
    ∀ edge ∈ surface.wildcards, Specifier.isInternal edge.specifier = true →
      ∃ target ∈ modules, resolver.locate edge.specifier module = .ok target

namespace Enclosed

variable {modules : List Location}

theorem stays (h : Enclosed resolver read modules) (hmodule : module ∈ modules)
    (hstep : Forwards resolver read module target) : target ∈ modules := by
  obtain ⟨whole, hwhole, edge, hedge, hinternal, hlocate⟩ := hstep
  obtain ⟨surface, hread, htargets⟩ := h _ hmodule
  obtain rfl := ok_inj hwhole hread
  obtain ⟨found, hfound, hfoundAt⟩ := htargets edge hedge hinternal
  rwa [ok_inj hlocate hfoundAt]

theorem mem_of_reached (h : Enclosed resolver read modules) (hmodule : module ∈ modules)
    (hpath : ReflTransGen (Forwards resolver read) module other) : other ∈ modules := by
  induction hpath with
  | refl => exact hmodule
  | tail _ hstep ih => exact h.stays ih hstep

theorem not_breaks (h : Enclosed resolver read modules) (hmodule : module ∈ modules)
    (failure : Failure) : ¬Breaks resolver read module failure := by
  obtain ⟨surface, hread, htargets⟩ := h _ hmodule
  rintro (hfailed | ⟨whole, hwhole, edge, hedge, hinternal, hfailed⟩)
  · rw [hread] at hfailed
    cases hfailed
  · obtain rfl := ok_inj hread hwhole
    obtain ⟨target, -, hlocate⟩ := htargets edge hedge hinternal
    rw [hlocate] at hfailed
    cases hfailed

end Enclosed

/-! ## Re-exports of a name that only packages can provide -/

def Candidate (resolver : Resolver) (read : Survey.Reader) (module : Location)
    (package : String) : Prop :=
  ∃ other, ReflTransGen (Forwards resolver read) module other ∧ PassesOn read package other

theorem Candidate.here (hread : read module = .ok surface) (hedge : edge ∈ surface.wildcards)
    (hexternal : Specifier.isInternal edge.specifier = false) :
    Candidate resolver read module edge.specifier :=
  ⟨module, .refl, surface, hread, edge, hedge, hexternal, rfl⟩

theorem Candidate.behind {package : String} (hstep : Forwards resolver read module target)
    (h : Candidate resolver read target package) : Candidate resolver read module package := by
  obtain ⟨other, hpath, hpasses⟩ := h
  exact ⟨other, hpath.head hstep, hpasses⟩

theorem packagesBehind_nil :
    PackagesBehind resolver read [] module ↔ ∃ package, Candidate resolver read module package := by
  rw [PackagesBehind, around_nil]
  exact exists_comm

def LeadsNowhere (resolver : Resolver) (module : Location) (surface : Surface) : Prop :=
  ∀ edge ∈ surface.wildcards, Specifier.isInternal edge.specifier = true →
    ∀ target, resolver.locate edge.specifier module ≠ .ok target

section LeadsNowhere

variable (hread : read module = .ok surface) (hnowhere : LeadsNowhere resolver module surface)

include hread hnowhere

theorem reached_of_leadsNowhere (hpath : ReflTransGen (Forwards resolver read) module other) :
    other = module := by
  rcases hpath.cases_head with rfl | ⟨target, ⟨whole, hwhole, edge, hedge, hinternal, hlocate⟩, -⟩
  · rfl
  · obtain rfl := ok_inj hread hwhole
    exact absurd hlocate (hnowhere edge hedge hinternal target)

theorem unpublished_of_leadsNowhere (hnone : surface.explicitItem? name = none) :
    Unpublished resolver read name module := by
  intro other hpath
  rw [reached_of_leadsNowhere hread hnowhere hpath]
  exact (silent_iff hread).mpr hnone

theorem candidate_of_leadsNowhere {package : String} (h : Candidate resolver read module package) :
    ∃ edge ∈ surface.wildcards, edge.specifier = package := by
  obtain ⟨other, hpath, whole, hwhole, edge, hedge, -, hpackage⟩ := h
  rw [reached_of_leadsNowhere hread hnowhere hpath] at hwhole
  obtain rfl := ok_inj hread hwhole
  exact ⟨edge, hedge, hpackage⟩

end LeadsNowhere

/--
Re-exporting a name that neither the target publishes nor any module behind its
wildcards goes by the one module that decides, which there is if wildcards lead
to a package at all.  It is ambiguous exactly if this module has two external
wildcards or more, and with a single one it is the package's.  Before that it
can only fail on a module that is not readable or a wildcard that leads nowhere.
-/
theorem follow_falls_back {exported : String} {modules : List Location}
    (hname : name ≠ defaultName) (hread : read module = .ok surface)
    (hedge : edge ∈ surface.reExports) (hkind : edge.kind ≠ .wildcard)
    (hexported : edge.exportedName = some exported) (himported : edge.importedName = some name)
    (hinternal : Specifier.isInternal edge.specifier = true)
    (hlocate : resolver.locate edge.specifier module = .ok target)
    (hsilent : Unpublished resolver read name target)
    (hmodules : ∀ other, ReflTransGen (Forwards resolver read) target other → other ∈ modules)
    (hdepth : modules.length < resolver.maxDepth) :
    (∃ other failure, ReflTransGen (Forwards resolver read) target other ∧
      Breaks resolver read other failure ∧
      (follow resolver module edge).run read = .error failure) ∨
    ((∃ decisive, Decides resolver read [] target decisive) ↔
      ∃ package, Candidate resolver read target package) ∧
    ((∃ culprit sought hops why, (follow resolver module edge).run read =
        .error (.ambiguous culprit sought hops why)) ↔
      ∃ decisive surface, Decides resolver read [] target decisive ∧
        read decisive = .ok surface ∧ 2 ≤ (packagesOf surface).length) ∧
    ∀ decisive surface package, Decides resolver read [] target decisive →
      read decisive = .ok surface → packagesOf surface = [package] →
        ∃ typed, (follow resolver module edge).run read =
          .ok (fromPackage package.specifier exported name typed) := by
  have hchain (other : Location) (hpath : ReflTransGen (Forwards resolver read) target other) :
      (⟨other, name⟩ : Hop) ∈ [(⟨module, exported⟩ : Hop)] ↔ other ∈ ([] : List Location) := by
    simp only [List.mem_singleton, Hop.mk.injEq, List.not_mem_nil, iff_false, not_and]
    rintro rfl rfl
    exact hsilent other hpath ⟨surface, hread, .reExport edge,
      Surface.mem_items_reExport.mpr hedge, by simp [Item.name?, hkind, hexported]⟩
  have hroom : (modules.filter (· ∉ ([] : List Location))).length ≤ resolver.maxDepth - 1 := by
    have hle := List.length_filter_le (fun other => decide (other ∉ ([] : List Location))) modules
    omega
  have hsettles : Settles resolver read name [] target ((trace resolver (resolver.maxDepth - 1)
      [⟨module, exported⟩] target name edge.typeOnly).run read) :=
    trace_settles hname hsilent hchain hmodules (by simp) hroom
  rw [follow_eq hexported himported hinternal hlocate, ← packagesBehind_nil]
  generalize (trace resolver (resolver.maxDepth - 1) [⟨module, exported⟩] target name
    edge.typeOnly).run read = outcome at hsettles
  cases hsettles with
  | nothing hnothing =>
      have hnone (decisive : Location) : ¬Decides resolver read [] target decisive :=
        fun hdecides => hnothing hdecides.packagesBehind
      refine .inr ⟨by simp [hnone, hnothing], by simp [hnone], ?_⟩
      exact fun decisive surface package hdecides => absurd hdecides (hnone decisive)
  | @package decisive whole only typed hdecides hdecisive honly =>
      refine .inr ⟨iff_of_true ⟨decisive, hdecides⟩ hdecides.packagesBehind, ?_, ?_⟩
      · refine iff_of_false (by simp) ?_
        rintro ⟨other, surface, hother, hsurface, hseveral⟩
        rw [hdecides.surface_eq hother hdecisive hsurface, honly] at hseveral
        simp at hseveral
      · intro other surface package hother hsurface hpackage
        rw [hdecides.surface_eq hother hdecisive hsurface, honly] at hpackage
        cases hpackage
        exact ⟨typed, rfl⟩
  | @several decisive whole chain hdecides hdecisive hseveral =>
      refine .inr ⟨iff_of_true ⟨decisive, hdecides⟩ hdecides.packagesBehind,
        iff_of_true ⟨_, _, _, _, rfl⟩ ⟨decisive, whole, hdecides, hdecisive, hseveral⟩, ?_⟩
      intro other surface package hother hsurface hpackage
      rw [← hdecides.surface_eq hother hdecisive hsurface, hpackage] at hseveral
      simp at hseveral
  | broken hpath hbreaks => exact .inl ⟨_, _, hpath, hbreaks, rfl⟩

def scatteredPackages : Lookup where
  settings := .default
  volume := .ofTexts
    [("/proj/index.ts", "export { n } from './barrel';"),
      ("/proj/barrel.ts", "export * from './first'; export * from './second';"),
      ("/proj/first.ts", "export * from 'one';"),
      ("/proj/second.ts", "export * from 'two';")]

def scatteredModules : List Location :=
  [.ofPath "/proj/barrel.ts", .ofPath "/proj/first.ts", .ofPath "/proj/second.ts"]

theorem read_scatteredPackages :
    Module.loadSurface scatteredPackages.volume (.ofPath "/proj/index.ts") =
        .ok ⟨[], [Module.namedEdge "./barrel" "n" "n" false 9]⟩ ∧
      Module.loadSurface scatteredPackages.volume (.ofPath "/proj/barrel.ts") =
        .ok ⟨[], [Module.wildcardEdge "./first" false 0,
          Module.wildcardEdge "./second" false 25]⟩ ∧
      Module.loadSurface scatteredPackages.volume (.ofPath "/proj/first.ts") =
        .ok ⟨[], [Module.wildcardEdge "one" false 0]⟩ ∧
      Module.loadSurface scatteredPackages.volume (.ofPath "/proj/second.ts") =
        .ok ⟨[], [Module.wildcardEdge "two" false 0]⟩ := by
  refine ⟨?_, ?_, ?_, ?_⟩ <;> decide +kernel

theorem locate_scatteredPackages :
    (Resolver.ofLookup scatteredPackages).locate "./barrel" (.ofPath "/proj/index.ts") =
        .ok (.ofPath "/proj/barrel.ts") ∧
      (Resolver.ofLookup scatteredPackages).locate "./first" (.ofPath "/proj/barrel.ts") =
        .ok (.ofPath "/proj/first.ts") ∧
      (Resolver.ofLookup scatteredPackages).locate "./second" (.ofPath "/proj/barrel.ts") =
        .ok (.ofPath "/proj/second.ts") := by
  decide +kernel

theorem enclosed_scatteredPackages : Enclosed (.ofLookup scatteredPackages)
    (Module.loadSurface scatteredPackages.volume) scatteredModules := by
  obtain ⟨-, hbarrel, hfirst, hsecond⟩ := read_scatteredPackages
  obtain ⟨-, htoFirst, htoSecond⟩ := locate_scatteredPackages
  have htargets : ∀ edge ∈ [Module.wildcardEdge "./first" false 0,
      Module.wildcardEdge "./second" false 25], Specifier.isInternal edge.specifier = true →
      ∃ target ∈ scatteredModules, (Resolver.ofLookup scatteredPackages).locate edge.specifier
        (.ofPath "/proj/barrel.ts") = .ok target := by
    refine List.forall_mem_cons.mpr ⟨fun _ => ⟨_, by decide, htoFirst⟩, ?_⟩
    exact List.forall_mem_singleton.mpr fun _ => ⟨_, by decide, htoSecond⟩
  refine List.forall_mem_cons.mpr ⟨⟨_, hbarrel, htargets⟩, ?_⟩
  refine List.forall_mem_cons.mpr ⟨⟨_, hfirst, by decide⟩, ?_⟩
  exact List.forall_mem_singleton.mpr ⟨_, hsecond, by decide⟩

theorem reached_scatteredPackages (hpath : ReflTransGen (Forwards (.ofLookup scatteredPackages)
    (Module.loadSurface scatteredPackages.volume)) (.ofPath "/proj/barrel.ts") other) :
    other ∈ scatteredModules :=
  enclosed_scatteredPackages.mem_of_reached List.mem_cons_self hpath

theorem unpublished_scatteredPackages : Unpublished (.ofLookup scatteredPackages)
    (Module.loadSurface scatteredPackages.volume) "n" (.ofPath "/proj/barrel.ts") := by
  intro other hpath
  have hother := reached_scatteredPackages hpath
  obtain ⟨-, hbarrel, hfirst, hsecond⟩ := read_scatteredPackages
  simp only [scatteredModules, List.mem_cons, List.not_mem_nil, or_false] at hother
  rcases hother with rfl | rfl | rfl
  · exact (silent_iff hbarrel).mpr (Surface.explicitItem?_eq_none_of_lookups rfl rfl)
  · exact (silent_iff hfirst).mpr (Surface.explicitItem?_eq_none_of_lookups rfl rfl)
  · exact (silent_iff hsecond).mpr (Surface.explicitItem?_eq_none_of_lookups rfl rfl)

theorem follow_falls_back_scatteredPackages :
    ∃ typed, (follow (.ofLookup scatteredPackages) (.ofPath "/proj/index.ts")
        (Module.namedEdge "./barrel" "n" "n" false 9)).run
        (Module.loadSurface scatteredPackages.volume) =
      .ok (fromPackage "one" "n" "n" typed) := by
  obtain ⟨hindex, hbarrel, hfirst, -⟩ := read_scatteredPackages
  obtain ⟨htoBarrel, htoFirst, -⟩ := locate_scatteredPackages
  have hdecides : Decides (.ofLookup scatteredPackages)
      (Module.loadSurface scatteredPackages.volume) [] (.ofPath "/proj/barrel.ts")
      (.ofPath "/proj/first.ts") := by
    have hexternal : ∀ edge ∈ Surface.wildcards ⟨[], [Module.wildcardEdge "one" false 0]⟩,
        Specifier.isInternal edge.specifier = false := by decide
    have hcontinues : Continues (.ofLookup scatteredPackages) [.ofPath "/proj/barrel.ts"]
        (.ofPath "/proj/barrel.ts") (Module.wildcardEdge "./first" false 0)
        (.ofPath "/proj/first.ts") := ⟨by decide, htoFirst, by decide⟩
    have hnone : ∀ passed ∈ ([] : List ReExport), Barren (.ofLookup scatteredPackages)
        (Module.loadSurface scatteredPackages.volume) [] (.ofPath "/proj/barrel.ts") passed := by
      simp
    refine .through hbarrel rfl hnone hcontinues (.here hfirst (by decide) ?_)
    intro edge hedge target hcontinues
    rw [Continues, hexternal edge hedge] at hcontinues
    cases hcontinues.1
  rcases follow_falls_back (by decide) hindex List.mem_cons_self (by decide) rfl rfl (by decide)
    htoBarrel unpublished_scatteredPackages (fun _ => reached_scatteredPackages)
    (by decide) with
    ⟨other, failure, hpath, hbreaks, -⟩ | ⟨-, -, honly⟩
  · exact absurd hbreaks
      (enclosed_scatteredPackages.not_breaks (reached_scatteredPackages hpath) failure)
  · exact honly _ _ (Module.wildcardEdge "one" false 0) hdecides hfirst rfl

def barrelOf (text : String) : Lookup where
  settings := .default
  volume := .ofTexts
    [("/proj/index.ts", "export { n } from './barrel';"), ("/proj/barrel.ts", text)]

def repeatedPackage : Lookup :=
  barrelOf "export * from 'one'; export * from 'one';"

def repeatedSurface : Surface :=
  ⟨[], [Module.wildcardEdge "one" false 0, Module.wildcardEdge "one" false 21]⟩

def danglingWildcard : Lookup :=
  barrelOf "export * from 'one'; export * from 'two'; export * from './missing';"

def danglingSurface : Surface :=
  ⟨[], [Module.wildcardEdge "one" false 0, Module.wildcardEdge "two" false 21,
    Module.wildcardEdge "./missing" false 42]⟩

theorem read_barrelOf :
    Module.loadSurface repeatedPackage.volume (.ofPath "/proj/barrel.ts") = .ok repeatedSurface ∧
      Module.loadSurface danglingWildcard.volume (.ofPath "/proj/barrel.ts") =
        .ok danglingSurface ∧
      (Resolver.ofLookup danglingWildcard).locate "./missing" (.ofPath "/proj/barrel.ts") =
        .error (.moduleNotFound "./missing" "/proj") := by
  decide +kernel

theorem candidates_scatteredPackages :
    Candidate (.ofLookup scatteredPackages) (Module.loadSurface scatteredPackages.volume)
        (.ofPath "/proj/barrel.ts") "one" ∧
      Candidate (.ofLookup scatteredPackages) (Module.loadSurface scatteredPackages.volume)
        (.ofPath "/proj/barrel.ts") "two" := by
  obtain ⟨-, hbarrel, hfirst, hsecond⟩ := read_scatteredPackages
  obtain ⟨-, hlocateFirst, hlocateSecond⟩ := locate_scatteredPackages
  have htoFirst : Forwards (.ofLookup scatteredPackages)
      (Module.loadSurface scatteredPackages.volume) (.ofPath "/proj/barrel.ts")
      (.ofPath "/proj/first.ts") :=
    ⟨_, hbarrel, Module.wildcardEdge "./first" false 0, by decide, by decide, hlocateFirst⟩
  have htoSecond : Forwards (.ofLookup scatteredPackages)
      (Module.loadSurface scatteredPackages.volume) (.ofPath "/proj/barrel.ts")
      (.ofPath "/proj/second.ts") :=
    ⟨_, hbarrel, Module.wildcardEdge "./second" false 25, by decide, by decide, hlocateSecond⟩
  have hone : Candidate (.ofLookup scatteredPackages)
      (Module.loadSurface scatteredPackages.volume) (.ofPath "/proj/first.ts") "one" :=
    .here hfirst List.mem_cons_self (by decide)
  have htwo : Candidate (.ofLookup scatteredPackages)
      (Module.loadSurface scatteredPackages.volume) (.ofPath "/proj/second.ts") "two" :=
    .here hsecond List.mem_cons_self (by decide)
  exact ⟨hone.behind htoFirst, htwo.behind htoSecond⟩

theorem leadsNowhere_repeatedPackage :
    LeadsNowhere (.ofLookup repeatedPackage) (.ofPath "/proj/barrel.ts") repeatedSurface := by
  have hexternal : ∀ edge ∈ repeatedSurface.wildcards,
      Specifier.isInternal edge.specifier = false := by decide
  intro edge hedge hinternal
  rw [hexternal edge hedge] at hinternal
  cases hinternal

theorem leadsNowhere_danglingWildcard :
    LeadsNowhere (.ofLookup danglingWildcard) (.ofPath "/proj/barrel.ts") danglingSurface := by
  have hmissing : ∀ edge ∈ danglingSurface.wildcards, Specifier.isInternal edge.specifier = true →
      edge.specifier = "./missing" := by decide
  intro edge hedge hinternal target hlocate
  rw [hmissing edge hedge hinternal, read_barrelOf.2.2] at hlocate
  cases hlocate

theorem candidate_repeatedPackage_iff {package : String} :
    Candidate (.ofLookup repeatedPackage) (Module.loadSurface repeatedPackage.volume)
      (.ofPath "/proj/barrel.ts") package ↔ package = "one" := by
  constructor
  · intro hpackage
    obtain ⟨edge, hedge, rfl⟩ :=
      candidate_of_leadsNowhere read_barrelOf.1 leadsNowhere_repeatedPackage hpackage
    have hone : ∀ edge ∈ repeatedSurface.wildcards, edge.specifier = "one" := by decide
    exact hone edge hedge
  · rintro rfl
    exact .here read_barrelOf.1 List.mem_cons_self (by decide)

def followRoot (lookup : Lookup) : Except Failure Resolved :=
  (follow (.ofLookup lookup) (.ofPath "/proj/index.ts")
    (Module.namedEdge "./barrel" "n" "n" false 9)).run (Module.loadSurface lookup.volume)

/--
How many packages wildcards pass on does not decide on its own: two that
different modules pass on are no ambiguity, one that a module passes on twice
is, and a wildcard that leads nowhere fails first.
-/
theorem candidates_do_not_decide :
    (Unpublished (.ofLookup scatteredPackages) (Module.loadSurface scatteredPackages.volume) "n"
        (.ofPath "/proj/barrel.ts") ∧
      Candidate (.ofLookup scatteredPackages) (Module.loadSurface scatteredPackages.volume)
        (.ofPath "/proj/barrel.ts") "one" ∧
      Candidate (.ofLookup scatteredPackages) (Module.loadSurface scatteredPackages.volume)
        (.ofPath "/proj/barrel.ts") "two" ∧
      followRoot scatteredPackages = .ok (fromPackage "one" "n" "n" false)) ∧
    (Unpublished (.ofLookup repeatedPackage) (Module.loadSurface repeatedPackage.volume) "n"
        (.ofPath "/proj/barrel.ts") ∧
      (∀ package, Candidate (.ofLookup repeatedPackage) (Module.loadSurface repeatedPackage.volume)
        (.ofPath "/proj/barrel.ts") package ↔ package = "one") ∧
      followRoot repeatedPackage = .error (.ambiguous "/proj/barrel.ts" "n"
        [("/proj/index.ts", "n"), ("/proj/barrel.ts", "n")] .severalPackages)) ∧
    (Unpublished (.ofLookup danglingWildcard) (Module.loadSurface danglingWildcard.volume) "n"
        (.ofPath "/proj/barrel.ts") ∧
      Candidate (.ofLookup danglingWildcard) (Module.loadSurface danglingWildcard.volume)
        (.ofPath "/proj/barrel.ts") "one" ∧
      Candidate (.ofLookup danglingWildcard) (Module.loadSurface danglingWildcard.volume)
        (.ofPath "/proj/barrel.ts") "two" ∧
      followRoot danglingWildcard = .error (.moduleNotFound "./missing" "/proj")) := by
  refine ⟨⟨unpublished_scatteredPackages, candidates_scatteredPackages.1,
    candidates_scatteredPackages.2, by decide +kernel⟩,
    ⟨?_, fun package => candidate_repeatedPackage_iff, by decide +kernel⟩,
    ⟨?_, ?_, ?_, by decide +kernel⟩⟩
  · exact unpublished_of_leadsNowhere read_barrelOf.1 leadsNowhere_repeatedPackage
      (Surface.explicitItem?_eq_none_of_lookups rfl rfl)
  · exact unpublished_of_leadsNowhere read_barrelOf.2.1 leadsNowhere_danglingWildcard
      (Surface.explicitItem?_eq_none_of_lookups rfl rfl)
  · exact .here read_barrelOf.2.1 List.mem_cons_self (by decide)
  · exact .here read_barrelOf.2.1 (List.mem_cons_of_mem _ List.mem_cons_self) (by decide)

end FlatExports.Resolution
