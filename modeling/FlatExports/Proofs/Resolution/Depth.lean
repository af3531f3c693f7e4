import FlatExports.Proofs.Resolution.Failures
import FlatExports.Proofs.Resolution.Supply
import Mathlib.Data.List.Perm.Subperm
import Mathlib.Data.List.ProdSigma

/-!
The limit on chains.

A survey under a higher limit answers what it answers under a lower one, unless
the lower one is exceeded.  The modules an expansion is in and the hops of a
trace never repeat, so a limit that is as large as the number of modules and
the number of hops they allow is never exceeded, whatever cycles there are.
-/

namespace FlatExports

def Failure.IsTooDeep : Failure → Prop
  | .ambiguous _ _ _ why => why = .wildcardsTooDeep ∨ why = .chainTooDeep
  | _ => False

def Lookup.withDepth (lookup : Lookup) (depth : Nat) : Lookup :=
  { lookup with settings := { lookup.settings with maxDepth := depth } }

namespace Resolution

open Relation

/-! ## Outcomes up to the limit -/

section

variable {α β : Type} {outcome outcome' : Except Failure α} {next next' : α → Except Failure β}

def Exhausted (outcome : Except Failure α) : Prop :=
  ∃ failure, outcome = .error failure ∧ failure.IsTooDeep

def Refines (outcome outcome' : Except Failure α) : Prop :=
  Exhausted outcome ∨ outcome' = outcome

theorem Refines.refl (outcome : Except Failure α) : Refines outcome outcome := .inr rfl

theorem Exhausted.bind (h : Exhausted outcome) : Exhausted (outcome >>= next) := by
  obtain ⟨failure, rfl, hdeep⟩ := h
  exact ⟨failure, rfl, hdeep⟩

theorem Refines.bind (h : Refines outcome outcome')
    (hnext : ∀ value, outcome = .ok value → Refines (next value) (next' value)) :
    Refines (outcome >>= next) (outcome' >>= next') := by
  rcases h with hdeep | rfl
  · exact .inl hdeep.bind
  · cases outcome' with
    | ok value => exact hnext value rfl
    | error failure => exact .refl _

theorem Refines.eq_ok {value : α} (h : Refines outcome outcome') (hok : outcome = .ok value) :
    outcome' = .ok value := by
  rcases h with ⟨failure, hfailure, -⟩ | heq
  · cases hok.symm.trans hfailure
  · exact heq.trans hok

end

theorem Refines.orElse {first first' second second' : Except Failure (Option Resolved)}
    (hfirst : Refines first first') (hsecond : Refines second second') :
    Refines (orElse first second) (orElse first' second') := by
  rcases hfirst with ⟨failure, rfl, hdeep⟩ | rfl
  · exact .inl ⟨failure, rfl, hdeep⟩
  · rcases first' with failure | _ | found
    · exact .refl _
    · exact hsecond
    · exact .refl _

/-! ## Surveys under two limits -/

variable {resolver resolver' : Resolver} {read : Survey.Reader} {search search' : Search}
  {module : Location} {name : String} {edge : ReExport} {typed : Bool} {chain : List Hop}
  {surface : Surface} {visiting : List Location} {includeDefault : Bool}

section

variable (hlocate : resolver'.locate = resolver.locate)

include hlocate

theorem namespaceOf_congr :
    namespaceOf resolver' module edge typed = namespaceOf resolver module edge typed := by
  rw [namespaceOf, namespaceOf, hlocate]

section

variable (hsearch : ∀ target imported typed,
  Refines ((search target imported typed).run read) ((search' target imported typed).run read))

include hsearch

theorem searchTarget_refines {imported : String} :
    Refines ((searchTarget resolver search module edge imported typed).run read)
      ((searchTarget resolver' search' module edge imported typed).run read) := by
  rw [searchTarget, searchTarget, Survey.run_bind, Survey.run_bind, hlocate]
  refine (Refines.refl _).bind fun target _ => ?_
  rw [Survey.run_bind, Survey.run_bind]
  exact (hsearch target imported typed).bind fun _ _ => .refl _

theorem throughEdge_refines :
    Refines ((throughEdge resolver search module edge name typed).run read)
      ((throughEdge resolver' search' module edge name typed).run read) := by
  unfold throughEdge
  split
  · rw [namespaceOf_congr hlocate]
    exact .refl _
  · rw [Survey.run_bind, Survey.run_bind]
    refine (Refines.refl _).bind fun imported _ => ?_
    split
    · exact searchTarget_refines hlocate hsearch
    · exact .refl _

theorem throughWildcards_refines {wildcards : List ReExport} :
    Refines ((throughWildcards resolver search module name typed chain wildcards).run read)
      ((throughWildcards resolver' search' module name typed chain wildcards).run read) := by
  induction wildcards with
  | nil => exact .refl _
  | cons edge rest ih =>
      rw [run_throughWildcards_cons, run_throughWildcards_cons, hlocate]
      split
      · split
        · exact .refl _
        · split
          · exact ih
          · exact (hsearch _ _ _).orElse ih
      · exact ih

theorem searchSurface_refines :
    Refines ((searchSurface resolver search module name typed chain surface).run read)
      ((searchSurface resolver' search' module name typed chain surface).run read) := by
  unfold searchSurface
  split
  · exact .refl _
  split
  · rw [Survey.run_bind, Survey.run_bind]
    exact (throughEdge_refines hlocate hsearch).bind fun _ _ => .refl _
  split
  · exact .refl _
  · rw [Survey.run_bind, Survey.run_bind]
    exact (throughWildcards_refines hlocate hsearch).bind fun _ _ => .refl _

end

theorem trace_refines {left left' : Nat} (hle : left ≤ left') :
    Refines ((trace resolver left chain module name typed).run read)
      ((trace resolver' left' chain module name typed).run read) := by
  induction left generalizing left' chain module name typed with
  | zero =>
      rw [run_trace, run_trace]
      split
      · exact .refl _
      · exact .inl ⟨_, rfl, .inr rfl⟩
  | succ left ih =>
      obtain ⟨left', rfl⟩ : ∃ further, left' = further + 1 := ⟨left' - 1, by omega⟩
      rw [run_trace, run_trace]
      split
      · exact .refl _
      · exact (Refines.refl _).bind fun _ _ =>
          searchSurface_refines hlocate fun _ _ _ => ih (Nat.le_of_succ_le_succ hle)

variable (hdepth : resolver.maxDepth ≤ resolver'.maxDepth)

include hdepth

theorem follow_refines : Refines ((follow resolver module edge).run read)
    ((follow resolver' module edge).run read) := by
  rw [follow, follow, Survey.run_bind, Survey.run_bind]
  refine (Refines.refl _).bind fun names _ => ?_
  obtain ⟨exported, imported⟩ := names
  dsimp only
  split
  · rw [Survey.run_bind, Survey.run_bind]
    refine (searchTarget_refines hlocate fun _ _ _ => ?_).bind fun _ _ => .refl _
    exact trace_refines hlocate (by omega)
  · exact .refl _

section

variable {expand expand' : Expansion}
  (hexpand : ∀ target, Refines ((expand target).run read) ((expand' target).run read))

include hexpand

omit hdepth in
theorem expandWildcard_refines :
    Refines ((expandWildcard resolver expand visiting module edge).run read)
      ((expandWildcard resolver' expand' visiting module edge).run read) := by
  unfold expandWildcard
  split
  · rw [Survey.run_bind, Survey.run_bind, hlocate]
    refine (Refines.refl _).bind fun target _ => ?_
    split
    · exact .refl _
    · rw [Survey.run_bind, Survey.run_bind]
      exact (hexpand target).bind fun _ _ => .refl _
  · exact .refl _

theorem collectItem_refines {item : Item} :
    Refines ((collectItem resolver expand visiting module includeDefault item).run read)
      ((collectItem resolver' expand' visiting module includeDefault item).run read) := by
  unfold collectItem
  split
  · exact .refl _
  split
  · rw [Survey.run_bind, Survey.run_bind]
    exact (expandWildcard_refines hlocate hexpand).bind fun _ _ => .refl _
  · rw [namespaceOf_congr hlocate]
    exact .refl _
  · split
    · rw [Survey.run_bind, Survey.run_bind]
      exact (follow_refines hlocate hdepth).bind fun _ _ => .refl _
    · exact .refl _

end

omit hlocate hdepth in
theorem collectAll_refines {collect collect' : Item → Survey (List Collected)}
    (hcollect : ∀ item, Refines ((collect item).run read) ((collect' item).run read))
    {items : List Item} :
    Refines ((collectAll collect items).run read) ((collectAll collect' items).run read) := by
  induction items with
  | nil => exact .refl _
  | cons item rest ih =>
      rw [collectAll, collectAll, Survey.run_bind, Survey.run_bind]
      refine (hcollect item).bind fun _ _ => ?_
      rw [Survey.run_bind, Survey.run_bind]
      exact ih.bind fun _ _ => .refl _

theorem expand_refines {left left' : Nat} (hle : left ≤ left') :
    Refines ((expand resolver left visiting includeDefault module).run read)
      ((expand resolver' left' visiting includeDefault module).run read) := by
  induction left generalizing left' visiting includeDefault module with
  | zero => exact .inl ⟨_, rfl, .inl rfl⟩
  | succ left ih =>
      obtain ⟨left', rfl⟩ : ∃ further, left' = further + 1 := ⟨left' - 1, by omega⟩
      rw [run_expand_succ, run_expand_succ]
      refine (Refines.refl _).bind fun _ _ =>
        (collectAll_refines fun item => ?_).bind fun _ _ => .refl _
      exact collectItem_refines hlocate hdepth fun target => ih (by omega)

end

theorem exportsOf_refines {lookup : Lookup} {root : Location} {depth depth' : Nat}
    (hle : depth ≤ depth') :
    Refines ((exportsOf (lookup.withDepth depth) root).run read)
      ((exportsOf (lookup.withDepth depth') root).run read) :=
  have hlocate : (Resolver.ofLookup (lookup.withDepth depth')).locate =
      (Resolver.ofLookup (lookup.withDepth depth)).locate := rfl
  expand_refines hlocate hle hle

/-! ## Limits that are large enough -/

abbrev InDepth {α : Type} (outcome : Except Failure α) : Prop :=
  OnlyFails (fun failure => ¬failure.IsTooDeep) outcome

theorem allows_inDepth (hlocate : ∀ specifier module, InDepth (resolver.locate specifier module)) :
    Allows (fun failure => ¬failure.IsTooDeep) resolver :=
  ⟨hlocate, fun _ _ => id, fun _ _ _ => by simp [Failure.IsTooDeep]⟩

/-- The modules that re-exports lead to from a root, and the names these re-exports import or
export, are among some. -/
structure Counts (resolver : Resolver) (read : Survey.Reader) (root : Location)
    (modules : List Location) (names : List String) : Prop where
  modules : ∀ module, ReflTransGen (Links resolver read) root module → module ∈ modules
  names : ∀ module surface, ReflTransGen (Links resolver read) root module →
    read module = .ok surface → ∀ edge ∈ surface.reExports, ∀ name,
      edge.importedName = some name ∨ edge.exportedName = some name → name ∈ names

theorem Counts.of_closed {root : Location} {modules : List Location} {names : List String}
    (hroot : root ∈ modules)
    (hclosed : ∀ module ∈ modules, ∃ surface, read module = .ok surface ∧
      ∀ edge ∈ surface.reExports,
        (∃ target ∈ modules, resolver.locate edge.specifier module = .ok target) ∧
        ∀ name, edge.importedName = some name ∨ edge.exportedName = some name → name ∈ names) :
    Counts resolver read root modules names := by
  have hmodules : ∀ module, ReflTransGen (Links resolver read) root module → module ∈ modules := by
    intro module hpath
    induction hpath with
    | refl => exact hroot
    | tail _ hlinks ih =>
        obtain ⟨surface, hread, edge, hedge, -, hlocate⟩ := hlinks
        obtain ⟨surface', hread', hedges⟩ := hclosed _ ih
        obtain rfl := ok_inj hread hread'
        obtain ⟨target, htarget, hlocate'⟩ := (hedges edge hedge).1
        exact ok_inj hlocate hlocate' ▸ htarget
  refine ⟨hmodules, fun module surface hpath hread edge hedge => ?_⟩
  obtain ⟨surface', hread', hedges⟩ := hclosed module (hmodules module hpath)
  obtain rfl := ok_inj hread hread'
  exact (hedges edge hedge).2

structure Confined (modules : List Location) (names : List String) (chain : List Hop) : Prop where
  nodup : chain.Nodup
  hops : ∀ hop ∈ chain, hop.module ∈ modules ∧ hop.name ∈ names

namespace Confined

variable {modules : List Location} {names : List String}

theorem length_le (h : Confined modules names chain) :
    chain.length ≤ modules.length * names.length := by
  have hpairs : (chain.map fun hop => (hop.module, hop.name)).Nodup := by
    refine h.nodup.map fun ⟨module, name⟩ ⟨other, name'⟩ hsame => ?_
    simpa using hsame
  have hsub : (chain.map fun hop => (hop.module, hop.name)) ⊆ modules ×ˢ names := by
    intro pair hpair
    obtain ⟨hop, hhop, rfl⟩ := List.mem_map.mp hpair
    exact List.mem_product.mpr (h.hops hop hhop)
  have hle := (hpairs.subperm hsub).length_le
  rwa [List.length_map, List.length_product] at hle

theorem concat (h : Confined modules names chain) (hfresh : (⟨module, name⟩ : Hop) ∉ chain)
    (hmodule : module ∈ modules) (hname : name ∈ names) :
    Confined modules names (chain ++ [⟨module, name⟩]) where
  nodup := h.nodup.append (List.nodup_singleton _) (by simpa using hfresh)
  hops := by
    rw [List.forall_mem_append, List.forall_mem_singleton]
    exact ⟨h.hops, hmodule, hname⟩

end Confined

section

variable {root : Location} {modules : List Location} {names : List String}
  (hcounts : Counts resolver read root modules names)
  (hlocate : ∀ specifier module, InDepth (resolver.locate specifier module))
  (hreads : ∀ module, InDepth (read module))

include hcounts hlocate

theorem searchSurface_inDepth (hpath : ReflTransGen (Links resolver read) root module)
    (hread : read module = .ok surface) (hname : name ∈ names)
    (hsearch : ∀ target imported typed, ReflTransGen (Links resolver read) root target →
      imported ∈ names → InDepth ((search target imported typed).run read)) :
    InDepth ((searchSurface resolver search module name typed chain surface).run read) := by
  refine searchSurface_fails (allows_inDepth hlocate) (.inr fun _ => id)
    fun edge hedge target imported typed htarget hinternal himported => ?_
  refine hsearch target imported typed
    (hpath.tail ⟨surface, hread, edge, hedge, hinternal, htarget⟩) ?_
  rcases himported with rfl | himported
  · exact hname
  · exact hcounts.names module surface hpath hread edge hedge imported (.inl himported)

include hreads

/-- Every hop of a trace is new, so the chain ends before the limit does. -/
theorem trace_inDepth {left : Nat} (hbound : modules.length * names.length ≤ left + chain.length)
    (hchain : Confined modules names chain)
    (hpath : ReflTransGen (Links resolver read) root module) (hname : name ∈ names) :
    InDepth ((trace resolver left chain module name typed).run read) := by
  induction left generalizing chain module name typed with
  | zero =>
      rw [run_trace]
      split
      · simp [Failure.IsTooDeep, ambiguous]
      · rename_i hfresh
        -- The chain has all the hops there are, so this one cannot be new.
        have hlonger := (hchain.concat hfresh (hcounts.modules module hpath) hname).length_le
        rw [List.length_append, List.length_singleton] at hlonger
        omega
  | succ left ih =>
      rw [run_trace]
      split
      · simp [Failure.IsTooDeep, ambiguous]
      · rename_i hfresh
        refine (hreads module).bind fun surface hread =>
          searchSurface_inDepth hcounts hlocate hpath hread hname
            fun target imported typed htarget himported => ?_
        refine ih ?_ (hchain.concat hfresh (hcounts.modules module hpath) hname) htarget himported
        rw [List.length_append, List.length_singleton]
        omega

theorem follow_inDepth (hbound : modules.length * names.length ≤ resolver.maxDepth)
    (hpath : ReflTransGen (Links resolver read) root module) (hread : read module = .ok surface)
    (hedge : edge ∈ surface.reExports) : InDepth ((follow resolver module edge).run read) := by
  have hcounted (name : String)
      (hname : edge.importedName = some name ∨ edge.exportedName = some name) : name ∈ names :=
    hcounts.names module surface hpath hread edge hedge name hname
  refine follow_fails (allows_inDepth hlocate) (.inr fun _ => id)
    fun exported imported target hexported himported hinternal htarget => ?_
  have hchain : Confined modules names [⟨module, exported⟩] :=
    ⟨List.nodup_singleton _,
      by simp [hcounts.modules module hpath, hcounted exported (.inr hexported)]⟩
  refine trace_inDepth hcounts hlocate hreads ?_ hchain
    (hpath.tail ⟨surface, hread, edge, hedge, hinternal, htarget⟩)
    (hcounted imported (.inl himported))
  rw [List.length_singleton]
  omega

theorem expand_inDepth {left : Nat} (hdepth : modules.length * names.length ≤ resolver.maxDepth)
    (hbound : modules.length ≤ left + visiting.length) (hvisiting : (module :: visiting).Nodup)
    (hwithin : ∀ other ∈ visiting, other ∈ modules)
    (hpath : ReflTransGen (Links resolver read) root module) :
    InDepth ((expand resolver left visiting includeDefault module).run read) := by
  have hall : module :: visiting ⊆ modules :=
    List.cons_subset.mpr ⟨hcounts.modules module hpath, hwithin⟩
  induction left generalizing visiting includeDefault module with
  | zero =>
      have hlength := (hvisiting.subperm hall).length_le
      rw [List.length_cons] at hlength
      omega
  | succ left ih =>
      refine expand_succ_fails (hreads module) fun surface hread item hitem => ?_
      refine collectItem_fails (allows_inDepth hlocate) hitem (.inr fun _ => id) ?_ ?_
      · intro edge hedge _ _
        exact follow_inDepth hcounts hlocate hreads hdepth hpath hread hedge
      · intro edge hedge target hinternal htarget hfresh
        have hlinked := hpath.tail ⟨surface, hread, edge, hedge, hinternal, htarget⟩
        refine ih ?_ (List.nodup_cons.mpr ⟨hfresh, hvisiting⟩) hall hlinked
          (List.cons_subset.mpr ⟨hcounts.modules target hlinked, hall⟩)
        rw [List.length_cons]
        omega

end

/-! ## Failures that lookups and readers report -/

theorem resolve_inDepth {lookup : Lookup} {specifier : String} {directory : Location} :
    InDepth (lookup.resolve specifier directory) :=
  Lookup.resolve_fails.mono fun failure h => by
    cases failure <;> first | exact id | cases h

theorem loadSurface_inDepth [Syntax.Grammar] {volume : Volume} :
    InDepth (Module.loadSurface volume module) :=
  Module.loadSurface_fails.mono fun failure h => by
    cases failure <;> first | exact id | cases h

theorem exportsOf_inDepth {lookup : Lookup} {root : Location} {depth : Nat}
    {modules : List Location} {names : List String}
    (hcounts : Counts (.ofLookup lookup) read (lookup.volume.resolve root) modules names)
    (hreads : ∀ module, InDepth (read module)) (hmodules : modules.length ≤ depth)
    (hhops : modules.length * names.length ≤ depth) :
    InDepth ((exportsOf (lookup.withDepth depth) root).run read) :=
  have hcounts : Counts (.ofLookup (lookup.withDepth depth)) read (lookup.volume.resolve root)
      modules names := ⟨hcounts.modules, hcounts.names⟩
  expand_inDepth hcounts (fun _ _ => resolve_inDepth) hreads hhops (Nat.le_add_right_of_le hmodules)
    (List.nodup_singleton _) (by simp) .refl

end Resolution

end FlatExports
