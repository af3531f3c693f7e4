import Mathlib.Logic.Relation
import FlatExports.Proofs.Resolution.Trail

/-!
Traces with different chains.

A trace tries hops one after the other, and of wildcards no more than it needs.
Another trace that counts further hops as visited ends at the same origin,
unless it gets too deep, if no edge that the first one takes leads to one of
them and no wildcard that it tries finds anything there.
-/

namespace FlatExports.Resolution

open Relation Resolved

/-! ## Outcomes up to the length of chains -/

section

variable {α β : Type} {outcome : Except Failure α} {next : α → Except Failure β}
  {accepts : α → Prop} {accepts' : β → Prop}

def TooDeep (outcome : Except Failure α) : Prop :=
  ∃ module name hops, outcome = .error (.ambiguous module name hops .chainTooDeep)

/-- Short of a chain that gets too deep, there is an outcome and it is accepted. -/
def Yields (outcome : Except Failure α) (accepts : α → Prop) : Prop :=
  TooDeep outcome ∨ ∃ value, outcome = .ok value ∧ accepts value

theorem Yields.of_ok {value : α} (h : accepts value) : Yields (.ok value) accepts :=
  .inr ⟨value, rfl, h⟩

theorem Yields.bind (h : Yields outcome accepts)
    (hnext : ∀ value, accepts value → Yields (next value) accepts') :
    Yields (outcome >>= next) accepts' := by
  rcases h with ⟨module, name, hops, rfl⟩ | ⟨value, rfl, hvalue⟩
  · exact .inl ⟨module, name, hops, rfl⟩
  · exact hnext value hvalue

end

/-! ## Where a trace stands -/

variable {resolver : Resolver} {read read' : Survey.Reader} {surface : Surface}
  {module : Location} {name : String}

/-- A hop of a trace, with the chain and the modifiers on the way to it. -/
structure Stand where
  chain : List Hop
  hop : Hop
  typed : Bool

namespace Stand

def start (hop : Hop) : Stand := ⟨[], hop, false⟩

def next (stand : Stand) (edge : ReExport) (hop : Hop) : Stand :=
  ⟨stand.chain ++ [stand.hop], hop, stand.typed || edge.typeOnly⟩

def search (resolver : Resolver) (stand : Stand) : Search :=
  trace resolver (resolver.maxDepth - (stand.chain.length + 1)) (stand.chain ++ [stand.hop])

def outcome (resolver : Resolver) (read : Survey.Reader) (stand : Stand) :
    Except Failure (Option Resolved) :=
  (trace resolver (resolver.maxDepth - stand.chain.length) stand.chain stand.hop.module
    stand.hop.name stand.typed).run read

/-- Nothing comes of a wildcard: it names a package, leads to the chain or finds nothing. -/
def PassesBy (resolver : Resolver) (read : Survey.Reader) (stand : Stand) (edge : ReExport) :
    Prop :=
  Specifier.isInternal edge.specifier = true →
    ∃ target, resolver.locate edge.specifier stand.hop.module = .ok target ∧
      (⟨target, stand.hop.name⟩ ∉ stand.chain ++ [stand.hop] →
        (stand.next edge ⟨target, stand.hop.name⟩).outcome resolver read = .ok none)

variable {stand : Stand} {edge : ReExport} {hop : Hop} {result : Option Resolved}

theorem outcome_next : (stand.next edge hop).outcome resolver read =
    (stand.search resolver hop.module hop.name (stand.typed || edge.typeOnly)).run read := by
  simp [outcome, next, search]

theorem outcome_eq_ok (h : stand.outcome resolver read = .ok result) :
    stand.hop ∉ stand.chain ∧ stand.chain.length < resolver.maxDepth ∧
      ∃ surface, read stand.hop.module = .ok surface ∧
        (searchSurface resolver (stand.search resolver) stand.hop.module stand.hop.name
          stand.typed (stand.chain ++ [stand.hop]) surface).run read = .ok result := by
  obtain ⟨hfresh, further, surface, hleft, hread, hrun⟩ := trace_eq_ok h
  have hfurther : resolver.maxDepth - (stand.chain.length + 1) = further := by omega
  refine ⟨hfresh, by omega, surface, hread, ?_⟩
  rw [search, hfurther]
  exact hrun

end Stand

/-- The re-export of its name takes a trace to the next module. -/
inductive TakesEdge (resolver : Resolver) (read : Survey.Reader) : Stand → Stand → Prop
  | mk {stand surface edge imported target}
      (hread : read stand.hop.module = .ok surface)
      (hundefined : surface.definitionsOf stand.hop.name = [])
      (hedge : surface.reExportOf? stand.hop.name = some edge)
      (hkind : edge.kind ≠ .namespaced)
      (himported : edge.importedName = some imported)
      (hinternal : Specifier.isInternal edge.specifier = true)
      (hlocate : resolver.locate edge.specifier stand.hop.module = .ok target) :
      TakesEdge resolver read stand (stand.next edge ⟨target, imported⟩)

/-- A trace tries a wildcard, as nothing has come of those before it. -/
inductive TriesWildcard (resolver : Resolver) (read : Survey.Reader) : Stand → Stand → Prop
  | mk {stand surface passed edge rest target}
      (hread : read stand.hop.module = .ok surface)
      (hundefined : surface.definitionsOf stand.hop.name = [])
      (hunnamed : surface.reExportOf? stand.hop.name = none)
      (hname : stand.hop.name ≠ defaultName)
      (hwildcards : surface.wildcards = passed ++ edge :: rest)
      (hpassed : ∀ other ∈ passed, stand.PassesBy resolver read other)
      (hinternal : Specifier.isInternal edge.specifier = true)
      (hlocate : resolver.locate edge.specifier stand.hop.module = .ok target)
      (hfresh : ⟨target, stand.hop.name⟩ ∉ stand.chain ++ [stand.hop]) :
      TriesWildcard resolver read stand (stand.next edge ⟨target, stand.hop.name⟩)

def Tries (resolver : Resolver) (read : Survey.Reader) (stand next : Stand) : Prop :=
  TakesEdge resolver read stand next ∨ TriesWildcard resolver read stand next

theorem Tries.chain {stand next : Stand} (h : Tries resolver read stand next) :
    next.chain = stand.chain ++ [stand.hop] := by
  rcases h with h | h <;> cases h <;> rfl

theorem TriesWildcard.fresh {stand next : Stand} (h : TriesWildcard resolver read stand next) :
    next.hop ∉ stand.chain ++ [stand.hop] := by
  cases h with
  | mk _ _ _ _ _ _ _ _ hfresh => exact hfresh

/-- A trace comes from one stand to another without going through some hops. -/
def Meets (resolver : Resolver) (read : Survey.Reader) (avoid : List Hop) : Stand → Stand → Prop :=
  ReflTransGen fun stand next => Tries resolver read stand next ∧ next.hop ∉ avoid

/-! ## Traces with different chains -/

def SameOrigin (result result' : Option Resolved) : Prop :=
  result'.map provenance = result.map provenance

theorem sameOrigin_none_iff {result : Option Resolved} : SameOrigin none result ↔ result = none :=
  Option.map_eq_none_iff

theorem sameOrigin_some_iff {found : Resolved} {result : Option Resolved} :
    SameOrigin (some found) result ↔
      ∃ found', result = some found' ∧ found'.provenance = found.provenance :=
  Option.map_eq_some_iff

theorem sameOrigin_some {found found' : Resolved} (h : found'.provenance = found.provenance) :
    SameOrigin (some found) (some found') :=
  congrArg some h

/-- What a trace comes to at a stand, another search answers as well, modifiers apart. -/
def Agrees (resolver : Resolver) (read read' : Survey.Reader) (search' : Search)
    (stand : Stand) : Prop :=
  ∀ typed' result, stand.outcome resolver read = .ok result →
    Yields ((search' stand.hop.module stand.hop.name typed').run read') (SameOrigin result)

section

variable {search' : Search} {stand : Stand} {chain chain' : List Hop} {typed typed' : Bool}
  {edge : ReExport} {result : Option Resolved}

theorem namespaceOf_agrees {found : Resolved} (typed' : Bool)
    (hrun : namespaceOf resolver module edge typed = .ok found) :
    ∃ found', namespaceOf resolver module edge typed' = .ok found' ∧
      found'.provenance = found.provenance := by
  obtain ⟨exported, origin, hexported, rfl, horigin⟩ := namespaceOf_eq_ok.mp hrun
  exact ⟨_, namespaceOf_eq_ok.mpr ⟨exported, origin, hexported, rfl, horigin⟩, rfl⟩

theorem throughEdge_agrees {found : Resolved} (hread : read stand.hop.module = .ok surface)
    (hundefined : surface.definitionsOf stand.hop.name = [])
    (hedge : surface.reExportOf? stand.hop.name = some edge)
    (hnext : ∀ next, TakesEdge resolver read stand next → Agrees resolver read read' search' next)
    (hrun : (throughEdge resolver (stand.search resolver) stand.hop.module edge stand.hop.name
      stand.typed).run read = .ok found) :
    Yields ((throughEdge resolver search' stand.hop.module edge stand.hop.name typed').run read')
      fun found' => found'.provenance = found.provenance := by
  unfold throughEdge at hrun ⊢
  split at hrun
  · rename_i hkind
    obtain ⟨whole, hwhole, hfound⟩ := Survey.run_bind_eq_ok.mp hrun
    cases hfound
    obtain ⟨whole', hwhole', hsame⟩ := namespaceOf_agrees typed' hwhole
    rw [if_pos hkind, Survey.run_bind, Survey.run_ofExcept, hwhole']
    exact .of_ok hsame
  · rename_i hkind
    obtain ⟨imported, himported, hrun⟩ := Survey.run_bind_eq_ok.mp hrun
    rw [if_neg hkind, Survey.run_bind, Survey.run_ofExcept]
    rw [Survey.run_ofExcept] at himported
    rw [himported]
    have himported := nameOf_eq_ok.mp himported
    change Yields (Survey.run read' (if _ then _ else _)) _
    split at hrun
    · rename_i hinternal
      obtain ⟨target, hlocate, hsearch⟩ := searchTarget_eq_ok.mp hrun
      rw [if_pos hinternal, searchTarget, Survey.run_bind, Survey.run_ofExcept, hlocate]
      change Yields (Survey.run read' (_ >>= _)) _
      rw [Survey.run_bind]
      have hagrees := hnext _ (.mk hread hundefined hedge hkind himported hinternal hlocate)
      refine (hagrees _ _ (Stand.outcome_next.trans hsearch)).bind ?_
      intro result' hresult
      obtain ⟨found', rfl, hsame⟩ := sameOrigin_some_iff.mp hresult
      exact .of_ok hsame
    · rename_i hexternal
      cases hrun
      rw [if_neg hexternal]
      exact .of_ok rfl

theorem throughWildcards_agrees {wildcards : List ReExport}
    (hlonger : ∀ hop ∈ stand.chain ++ [stand.hop], hop ∈ chain')
    (hnext : ∀ passed edge rest target, wildcards = passed ++ edge :: rest →
      (∀ other ∈ passed, stand.PassesBy resolver read other) →
      Specifier.isInternal edge.specifier = true →
      resolver.locate edge.specifier stand.hop.module = .ok target →
      (⟨target, stand.hop.name⟩ : Hop) ∉ stand.chain ++ [stand.hop] →
      if ⟨target, stand.hop.name⟩ ∈ chain' then
        (stand.next edge ⟨target, stand.hop.name⟩).outcome resolver read = .ok none
      else Agrees resolver read read' search' (stand.next edge ⟨target, stand.hop.name⟩))
    (hrun : (throughWildcards resolver (stand.search resolver) stand.hop.module stand.hop.name
      stand.typed (stand.chain ++ [stand.hop]) wildcards).run read = .ok result) :
    Yields ((throughWildcards resolver search' stand.hop.module stand.hop.name typed' chain'
      wildcards).run read') (SameOrigin result) := by
  induction wildcards with
  | nil =>
      cases hrun
      exact .of_ok rfl
  | cons edge rest ih =>
      have hrest (hpassed : stand.PassesBy resolver read edge) :=
        ih fun passed other others target hsplit hall =>
          hnext (edge :: passed) other others target (congrArg (edge :: ·) hsplit)
            (List.forall_mem_cons.mpr ⟨hpassed, hall⟩)
      rw [throughWildcards] at hrun ⊢
      by_cases hinternal : Specifier.isInternal edge.specifier
      · rw [if_pos hinternal] at hrun ⊢
        obtain ⟨target, hlocate, hrun⟩ := Survey.run_bind_eq_ok.mp hrun
        rw [Survey.run_ofExcept] at hlocate
        rw [Survey.run_bind, Survey.run_ofExcept, hlocate]
        change Yields (Survey.run read' (if _ then _ else _)) _
        by_cases hmem : (⟨target, stand.hop.name⟩ : Hop) ∈ stand.chain ++ [stand.hop]
        · rw [if_pos hmem] at hrun
          rw [if_pos (hlonger _ hmem)]
          exact hrest (fun _ => ⟨target, hlocate, fun hfresh => absurd hmem hfresh⟩) hrun
        · rw [if_neg hmem] at hrun
          obtain ⟨first, hfirst, hrun⟩ := Survey.run_bind_eq_ok.mp hrun
          have houtcome : (stand.next edge ⟨target, stand.hop.name⟩).outcome resolver read =
              .ok first := Stand.outcome_next.trans hfirst
          have hhere := hnext [] edge rest target rfl (List.forall_mem_nil _) hinternal hlocate hmem
          have hpassed (hnone : first = none) : stand.PassesBy resolver read edge :=
            fun _ => ⟨target, hlocate, fun _ => hnone ▸ houtcome⟩
          by_cases hmem' : (⟨target, stand.hop.name⟩ : Hop) ∈ chain'
          · rw [if_pos hmem'] at hhere ⊢
            obtain rfl := ok_inj houtcome hhere
            exact hrest (hpassed rfl) hrun
          · rw [if_neg hmem'] at hhere ⊢
            rw [Survey.run_bind]
            refine (hhere _ _ houtcome).bind fun first' hfirst' => ?_
            cases first with
            | none =>
                obtain rfl := sameOrigin_none_iff.mp hfirst'
                exact hrest (hpassed rfl) hrun
            | some found =>
                cases hrun
                obtain ⟨found', rfl, hsame⟩ := sameOrigin_some_iff.mp hfirst'
                exact .of_ok (sameOrigin_some hsame)
      · rw [if_neg hinternal] at hrun ⊢
        exact hrest (fun h => absurd h hinternal) hrun

theorem throughPackages_agrees {wildcards : List ReExport}
    (hrun : throughPackages module name typed chain wildcards = .ok result) :
    Yields (throughPackages module name typed' chain' wildcards) (SameOrigin result) := by
  unfold throughPackages at hrun ⊢
  split at hrun <;> cases hrun
  · exact .of_ok rfl
  · exact .of_ok rfl

theorem searchSurface_agrees (hread : read stand.hop.module = .ok surface)
    (hlonger : ∀ hop ∈ stand.chain ++ [stand.hop], hop ∈ chain')
    (hedges : ∀ next, TakesEdge resolver read stand next → Agrees resolver read read' search' next)
    (hwildcards : ∀ next, TriesWildcard resolver read stand next →
      if next.hop ∈ chain' then next.outcome resolver read = .ok none
      else Agrees resolver read read' search' next)
    (hrun : (searchSurface resolver (stand.search resolver) stand.hop.module stand.hop.name
      stand.typed (stand.chain ++ [stand.hop]) surface).run read = .ok result) :
    Yields ((searchSurface resolver search' stand.hop.module stand.hop.name typed' chain'
      surface).run read') (SameOrigin result) := by
  unfold searchSurface at hrun ⊢
  cases hdefinitions : surface.definitionsOf stand.hop.name with
  | cons first others =>
      rw [hdefinitions] at hrun
      cases hrun
      exact .of_ok rfl
  | nil =>
      rw [hdefinitions] at hrun
      cases hedge : surface.reExportOf? stand.hop.name with
      | some edge =>
          rw [hedge] at hrun
          obtain ⟨found, hfound, hrun⟩ := Survey.run_bind_eq_ok.mp hrun
          cases hrun
          dsimp only
          rw [Survey.run_bind]
          exact (throughEdge_agrees hread hdefinitions hedge hedges hfound).bind
            fun found' hsame => .of_ok (sameOrigin_some hsame)
      | none =>
          rw [hedge] at hrun
          dsimp only at hrun ⊢
          by_cases hname : stand.hop.name = defaultName
          · rw [if_pos hname] at hrun ⊢
            cases hrun
            exact .of_ok rfl
          · rw [if_neg hname] at hrun ⊢
            obtain ⟨through, hthrough, hrun⟩ := Survey.run_bind_eq_ok.mp hrun
            rw [Survey.run_bind]
            refine Yields.bind (throughWildcards_agrees hlonger
              (fun passed edge rest target hsplit hpassed hinternal hlocate hfresh =>
                hwildcards _ (.mk hread hdefinitions hedge hname hsplit hpassed hinternal hlocate
                  hfresh)) hthrough) fun through' hthrough' => ?_
            cases through with
            | some found =>
                cases hrun
                obtain ⟨found', rfl, hsame⟩ := sameOrigin_some_iff.mp hthrough'
                exact .of_ok (sameOrigin_some hsame)
            | none =>
                obtain rfl := sameOrigin_none_iff.mp hthrough'
                exact throughPackages_agrees hrun

end

/--
A trace ends as another one does whose chain is longer by some hops, if it takes
no edge to one of them and finds nothing behind a wildcard to one of them.
-/
theorem trace_agrees {avoid chain' : List Hop} {stand : Stand} {left' : Nat}
    (hchain : ∀ hop, hop ∈ chain' ↔ hop ∈ stand.chain ∨ hop ∈ avoid)
    (hstand : stand.hop ∉ avoid) (hread : read' stand.hop.module = read stand.hop.module)
    (hclear : ∀ met next, Meets resolver read avoid stand met → next.hop ∈ avoid →
      ¬TakesEdge resolver read met next ∧
        (TriesWildcard resolver read met next → next.outcome resolver read = .ok none))
    (hreads : ∀ met next, Tries resolver read met next →
      read' next.hop.module = read next.hop.module) :
    Agrees resolver read read' (trace resolver left' chain') stand := by
  intro typed' result hrun
  induction hdepth : resolver.maxDepth - stand.chain.length
    generalizing left' chain' stand typed' result with
  | zero =>
      obtain ⟨-, hleft, -⟩ := Stand.outcome_eq_ok hrun
      omega
  | succ left ih =>
      obtain ⟨hfresh, -, surface, hsurface, hsearch⟩ := Stand.outcome_eq_ok hrun
      unfold trace
      rw [if_neg fun h => ((hchain stand.hop).mp h).elim hfresh hstand]
      cases left' with
      | zero => exact .inl ⟨_, _, _, rfl⟩
      | succ left' =>
          dsimp only
          rw [Survey.run_bind, Survey.run_look, hread, hsurface]
          have hlonger (hop : Hop) : hop ∈ chain' ++ [stand.hop] ↔
              hop ∈ stand.chain ++ [stand.hop] ∨ hop ∈ avoid := by
            simp only [List.mem_append, hchain]
            tauto
          have hagrees (next : Stand) (htries : Tries resolver read stand next)
              (havoid : next.hop ∉ avoid) :
              Agrees resolver read read' (trace resolver left' (chain' ++ [stand.hop])) next := by
            have hnext := htries.chain
            intro typed' result hrun
            refine ih (fun hop => hnext ▸ hlonger hop) havoid (hreads _ _ htries) ?_ _ _ hrun ?_
            · exact fun met further hmet => hclear met further (.head ⟨htries, havoid⟩ hmet)
            · rw [hnext, List.length_append, List.length_singleton]
              omega
          refine searchSurface_agrees hsurface (fun hop hmem => (hlonger hop).mpr (.inl hmem))
            (fun next hnext => ?_) (fun next hnext => ?_) hsearch
          · exact hagrees next (.inl hnext) fun hmem => (hclear stand next .refl hmem).1 hnext
          · split
            · rename_i hmem
              have havoid := ((hlonger next.hop).mp hmem).resolve_left hnext.fresh
              exact (hclear stand next .refl havoid).2 hnext
            · rename_i hmem
              exact hagrees next (.inr hnext) fun havoid =>
                hmem ((hlonger next.hop).mpr (.inr havoid))

end FlatExports.Resolution
