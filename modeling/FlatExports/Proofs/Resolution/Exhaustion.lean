import FlatExports.Proofs.Resolution.Provision

/-!
Traces that find nothing.

A trace passes by every module in which its chain has sought the name already.
Still it comes to nothing only if nothing is there: whatever such a module
provides is found behind another wildcard, because a path that avoids the chain
can be shortened to one that the trace goes.
-/

namespace FlatExports.Resolution

open Relation

variable {resolver : Resolver} {read : Survey.Reader} {search : Search} {name : String}
  {module other target : Location} {surface : Surface} {edge : ReExport} {typed : Bool}
  {chain : List Hop} {outcome : Except Failure (Option Resolved)}

/-! ## Modules without a name -/

theorem silent_iff (hread : read module = .ok surface) :
    ¬ExportsName read name module ↔ surface.explicitItem? name = none := by
  rw [← Option.not_isSome_iff_eq_none, Surface.explicitItem?_isSome_iff, not_iff_not]
  constructor
  · rintro ⟨other, hother, hitem⟩
    rwa [ok_inj hread hother]
  · exact fun hitem => ⟨surface, hread, hitem⟩

/-! ## Searches that go on -/

def orElse (first second : Except Failure (Option Resolved)) : Except Failure (Option Resolved) :=
  match first with
  | .ok none => second
  | outcome => outcome

theorem orElse_none : orElse (.ok none) outcome = outcome := rfl

theorem orElse_of_ne {first : Except Failure (Option Resolved)} (h : first ≠ .ok none) :
    orElse first outcome = first := by
  rcases first with failure | _ | found
  · rfl
  · exact absurd rfl h
  · rfl

theorem orElse_eq_none {first : Except Failure (Option Resolved)}
    (h : orElse first outcome = .ok none) : first = .ok none ∧ outcome = .ok none := by
  rcases first with failure | _ | found
  · cases h
  · exact ⟨rfl, h⟩
  · cases h

theorem run_throughWildcards_cons {rest : List ReExport} :
    (throughWildcards resolver search module name typed chain (edge :: rest)).run read =
      if Specifier.isInternal edge.specifier then
        match resolver.locate edge.specifier module with
        | .error failure => .error failure
        | .ok target =>
            if ⟨target, name⟩ ∈ chain then
              (throughWildcards resolver search module name typed chain rest).run read
            else
              orElse ((search target name (typed || edge.typeOnly)).run read)
                ((throughWildcards resolver search module name typed chain rest).run read)
      else (throughWildcards resolver search module name typed chain rest).run read := by
  rw [throughWildcards]
  split
  · rw [Survey.run_bind, Survey.run_ofExcept]
    cases resolver.locate edge.specifier module with
    | error failure => rfl
    | ok target =>
        change Survey.run read (if _ then _ else _) = if _ then _ else _
        split
        · rfl
        · rw [Survey.run_bind]
          rcases (search target name (typed || edge.typeOnly)).run read with
            failure | _ | found <;> rfl
  · rfl

theorem searchSurface_of_no_item (hname : name ≠ defaultName)
    (hnone : surface.explicitItem? name = none) :
    searchSurface resolver search module name typed chain surface = (do
      match ← throughWildcards resolver search module name typed chain surface.wildcards with
      | some found => return some found
      | none => .ofExcept (throughPackages module name typed chain surface.wildcards)) := by
  rw [searchSurface, Surface.definitionsOf_eq_nil_of_no_item hnone,
    Surface.reExportOf?_eq_none_of_no_item hnone]
  exact if_neg hname

theorem run_searchSurface_of_no_item (hname : name ≠ defaultName)
    (hnone : surface.explicitItem? name = none) :
    (searchSurface resolver search module name typed chain surface).run read =
      orElse ((throughWildcards resolver search module name typed chain
        surface.wildcards).run read) (throughPackages module name typed chain surface.wildcards) := by
  rw [searchSurface_of_no_item hname hnone, Survey.run_bind]
  rcases (throughWildcards resolver search module name typed chain surface.wildcards).run read with
    failure | _ | found <;> rfl

/-! ## Searches that find nothing -/

theorem throughWildcards_none {wildcards : List ReExport}
    (hrun : (throughWildcards resolver search module name typed chain wildcards).run read =
      .ok none) :
    ∀ edge ∈ wildcards, Specifier.isInternal edge.specifier = true →
      ∀ target, resolver.locate edge.specifier module = .ok target →
        (⟨target, name⟩ : Hop) ∉ chain →
          (search target name (typed || edge.typeOnly)).run read = .ok none := by
  induction wildcards with
  | nil => simp
  | cons first rest ih =>
      rw [run_throughWildcards_cons] at hrun
      by_cases hfirst : Specifier.isInternal first.specifier
      · rw [if_pos hfirst] at hrun
        cases hfound : resolver.locate first.specifier module with
        | error failure =>
            rw [hfound] at hrun
            cases hrun
        | ok found =>
            rw [hfound] at hrun
            dsimp only at hrun
            by_cases hpassed : (⟨found, name⟩ : Hop) ∈ chain
            · rw [if_pos hpassed] at hrun
              refine List.forall_mem_cons.mpr ⟨fun _ target hlocate hfresh => ?_, ih hrun⟩
              rw [ok_inj hlocate hfound] at hfresh
              exact absurd hpassed hfresh
            · rw [if_neg hpassed] at hrun
              obtain ⟨hsearch, hrest⟩ := orElse_eq_none hrun
              refine List.forall_mem_cons.mpr ⟨fun _ target hlocate _ => ?_, ih hrest⟩
              rwa [ok_inj hlocate hfound]
      · rw [if_neg hfirst] at hrun
        exact List.forall_mem_cons.mpr ⟨fun hinternal => absurd hinternal hfirst, ih hrun⟩

theorem throughPackages_none {wildcards : List ReExport}
    (h : throughPackages module name typed chain wildcards = .ok none) :
    ∀ edge ∈ wildcards, Specifier.isInternal edge.specifier = true := by
  unfold throughPackages at h
  split at h
  · rename_i hnone
    simpa using hnone
  · cases h
  · cases h

theorem searchSurface_none (hread : read module = .ok surface)
    (hrun : (searchSurface resolver search module name typed chain surface).run read =
      .ok none) :
    ¬ExportsName read name module ∧
      (name ≠ defaultName →
        (throughWildcards resolver search module name typed chain surface.wildcards).run read =
          .ok none ∧
        ∀ edge ∈ surface.wildcards, Specifier.isInternal edge.specifier = true) := by
  unfold searchSurface at hrun
  split at hrun
  case h_1 => cases hrun
  case h_2 hundefined =>
    split at hrun
    case h_1 edge hedge =>
      obtain ⟨found, -, hfound⟩ := Survey.run_bind_eq_ok.mp hrun
      cases hfound
    case h_2 hunnamed =>
      refine ⟨(silent_iff hread).mpr
        (Surface.explicitItem?_eq_none_of_lookups hundefined hunnamed), fun hname => ?_⟩
      rw [if_neg hname] at hrun
      obtain ⟨result, hwildcards, hrun⟩ := Survey.run_bind_eq_ok.mp hrun
      cases result with
      | some found => cases hrun
      | none => exact ⟨hwildcards, throughPackages_none hrun⟩

theorem searchTarget_none {caller : Location} {imported : String}
    (hlocate : resolver.locate edge.specifier caller = .ok target)
    (hrun : (search target imported typed).run read = .ok none) :
    (searchTarget resolver search caller edge imported typed).run read =
      .error (.exportsNotFound target.written [imported]) := by
  rw [searchTarget, Survey.run_bind, Survey.run_ofExcept, hlocate]
  change Survey.run read (_ >>= _) = _
  rw [Survey.run_bind, hrun]
  rfl

/-! ## Traces that find nothing -/

def soughtIn (chain : List Hop) (name : String) : List Location :=
  (chain.filter (·.name = name)).map (·.module)

theorem mem_soughtIn : module ∈ soughtIn chain name ↔ (⟨module, name⟩ : Hop) ∈ chain := by
  simp only [soughtIn, List.mem_map, List.mem_filter, decide_eq_true_eq]
  constructor
  · rintro ⟨hop, ⟨hhop, rfl⟩, rfl⟩
    exact hhop
  · exact fun h => ⟨_, ⟨h, rfl⟩, rfl⟩

theorem around_congr {α : Type} {step : α → α → Prop} {avoid avoid' : List α}
    (h : ∀ a, a ∈ avoid ↔ a ∈ avoid') : Around step avoid = Around step avoid' := by
  funext a b
  rw [Around, Around, h b]

theorem mem_soughtIn_concat :
    other ∈ soughtIn (chain ++ [⟨module, name⟩]) name ↔ other ∈ module :: soughtIn chain name := by
  rw [mem_soughtIn, List.mem_append, List.mem_singleton, List.mem_cons, mem_soughtIn,
    Hop.mk.injEq, and_iff_left rfl, or_comm]

theorem nothing_behind {left : Nat} (hname : name ≠ defaultName)
    (hrun : (trace resolver left chain module name typed).run read = .ok none)
    (hpath : ReflTransGen (Around (Forwards resolver read) (soughtIn chain name)) module other) :
    ¬ExportsName read name other ∧ ∀ package, ¬PassesOn read package other := by
  -- With each hop the chain grows by the module left, as does the set a shortened path avoids.
  induction left generalizing chain module typed with
  | zero =>
      obtain ⟨-, further, -, hleft, -⟩ := trace_eq_ok hrun
      cases hleft
  | succ left ih =>
      obtain ⟨-, further, surface, hleft, hread, hsearch⟩ := trace_eq_ok hrun
      cases hleft
      obtain ⟨hsilent, hopen⟩ := searchSurface_none hread hsearch
      obtain ⟨hwildcards, hinternal⟩ := hopen hname
      rcases reflTransGen_around_iff.mp hpath with rfl | ⟨target, hstep, hfresh, hrest⟩
      · refine ⟨hsilent, fun package => ?_⟩
        rintro ⟨whole, hwhole, edge, hedge, hexternal, -⟩
        obtain rfl := ok_inj hread hwhole
        rw [hinternal edge hedge] at hexternal
        cases hexternal
      · obtain ⟨whole, hwhole, edge, hedge, hedgeInternal, hlocate⟩ := hstep
        obtain rfl := ok_inj hread hwhole
        refine ih (throughWildcards_none hwildcards edge hedge hedgeInternal target hlocate ?_) ?_
        · rwa [← mem_soughtIn, mem_soughtIn_concat]
        · rwa [around_congr fun other => mem_soughtIn_concat]

/--
A trace that comes to nothing has missed nothing: the module has no export of
the name and, the default aside, no module has one that wildcards lead to past
those on the chain, nor does any of them pass a package on.  Whoever asked for
the name reports it as missing.
-/
theorem trace_misses_nothing {left : Nat}
    (hrun : (trace resolver left chain module name typed).run read = .ok none) :
    ¬ExportsName read name module ∧
      (name ≠ defaultName → ∀ other,
        ReflTransGen (Around (Forwards resolver read) (soughtIn chain name)) module other →
          ¬ExportsName read name other ∧ ∀ package, ¬PassesOn read package other) ∧
      ∀ caller edge, resolver.locate edge.specifier caller = .ok module →
        (searchTarget resolver (trace resolver left chain) caller edge name typed).run read =
          .error (.exportsNotFound module.written [name]) := by
  obtain ⟨-, further, surface, -, hread, hsearch⟩ := trace_eq_ok hrun
  exact ⟨(searchSurface_none hread hsearch).1,
    fun hname other hpath => nothing_behind hname hrun hpath,
    fun caller edge hlocate => searchTarget_none hlocate hrun⟩

def mutualWildcards : Lookup where
  settings := .default
  volume := .ofTexts
    [("/proj/index.ts", "export { k } from './barrel';"),
      ("/proj/barrel.ts", "export * from './left'; export * from './right';"),
      ("/proj/left.ts", "export * from './right';"),
      ("/proj/right.ts", "export * from './left'; export const n = 1;")]

theorem trace_misses_nothing_mutualWildcards :
    (trace (.ofLookup mutualWildcards) 255 [⟨.ofPath "/proj/index.ts", "k"⟩]
        (.ofPath "/proj/barrel.ts") "k" false).run
        (Module.loadSurface mutualWildcards.volume) = .ok none ∧
      ¬ExportsName (Module.loadSurface mutualWildcards.volume) "k" (.ofPath "/proj/right.ts") ∧
      (searchTarget (.ofLookup mutualWildcards)
        (trace (.ofLookup mutualWildcards) 255 [⟨.ofPath "/proj/index.ts", "k"⟩])
        (.ofPath "/proj/index.ts") (Module.namedEdge "./barrel" "k" "k" false 9) "k" false).run
        (Module.loadSurface mutualWildcards.volume) =
        .error (.exportsNotFound (Location.ofPath "/proj/barrel.ts").written ["k"]) := by
  have hrun : (trace (.ofLookup mutualWildcards) 255 [⟨.ofPath "/proj/index.ts", "k"⟩]
      (.ofPath "/proj/barrel.ts") "k" false).run
      (Module.loadSurface mutualWildcards.volume) = .ok none := by decide +kernel
  have hbarrel : Module.loadSurface mutualWildcards.volume (.ofPath "/proj/barrel.ts") =
      .ok ⟨[], [Module.wildcardEdge "./left" false 0, Module.wildcardEdge "./right" false 24]⟩ := by
    decide +kernel
  have hleft : Module.loadSurface mutualWildcards.volume (.ofPath "/proj/left.ts") =
      .ok ⟨[], [Module.wildcardEdge "./right" false 0]⟩ := by decide +kernel
  have htoLeft : Forwards (.ofLookup mutualWildcards)
      (Module.loadSurface mutualWildcards.volume) (.ofPath "/proj/barrel.ts")
      (.ofPath "/proj/left.ts") :=
    ⟨_, hbarrel, Module.wildcardEdge "./left" false 0, by decide, by decide, by decide +kernel⟩
  have htoRight : Forwards (.ofLookup mutualWildcards)
      (Module.loadSurface mutualWildcards.volume) (.ofPath "/proj/left.ts")
      (.ofPath "/proj/right.ts") :=
    ⟨_, hleft, Module.wildcardEdge "./right" false 0, by decide, by decide, by decide +kernel⟩
  obtain ⟨-, hnothing, hcallers⟩ := trace_misses_nothing hrun
  have hright := hnothing (by decide) (.ofPath "/proj/right.ts")
    (.head ⟨htoLeft, by decide +kernel⟩ (.single ⟨htoRight, by decide +kernel⟩))
  exact ⟨hrun, hright.1, hcallers _ _ (by decide +kernel)⟩

end FlatExports.Resolution
