import FlatExports.Proofs.Module.Recording
import FlatExports.Proofs.Resolution.Chains
import FlatExports.Proofs.Resolution.Exhaustion
import FlatExports.Proofs.Resolution.Naming

/-!
Where a named re-export and a wildcard agree.

A trace follows the path of the search for its name as long as nothing on the
way can tell the two apart: a hop that the one counts as visited and the other
does not, a package behind a module that the search leaves again, a second
item of the same name.  `Unhindered` names these conditions.
-/

namespace FlatExports.Resolution

open Relation Resolved Collected

variable {resolver : Resolver} {read read' : Survey.Reader} {name : String}
  {module start : Location} {surface : Surface}

/-! ## What a search enters -/

/-- The modules that a search enters, each with the modules on the path to it. -/
inductive Enters (resolver : Resolver) (read : Survey.Reader) (name : String)
    (start : Location) : List Location → Location → Prop
  | start : Enters resolver read name start [] start
  | through {path module surface before target after}
      (henters : Enters resolver read name start path module)
      (hread : read module = .ok surface)
      (hnone : surface.explicitItem? name = none)
      (htargets : targetsOf resolver module surface.items = .ok (before ++ target :: after))
      (hbefore : ∀ passed ∈ before, passed ∉ module :: path →
        Finds resolver read name (module :: path) passed none)
      (hfresh : target ∉ module :: path) :
      Enters resolver read name start (module :: path) target

theorem Enters.fresh {path : List Location} (henters : Enters resolver read name start path module) :
    module ∉ path := by
  cases henters with
  | start => simp
  | through _ _ _ _ _ hfresh => exact hfresh

def chainOf (name : String) (path : List Location) : List Hop :=
  path.reverse.map fun module => ⟨module, name⟩

theorem chainOf_cons (path : List Location) :
    chainOf name (module :: path) = chainOf name path ++ [⟨module, name⟩] := by
  simp [chainOf]

theorem mem_chainOf {path : List Location} : (⟨module, name⟩ : Hop) ∈ chainOf name path ↔
    module ∈ path := by
  simp [chainOf]

/-- Nothing on the way of a search can tell a trace from it. -/
structure Unhindered (resolver : Resolver) (read : Survey.Reader) (name : String)
    (start : Location) : Prop where
  /-- A name whose first item is a re-export is not defined there, and the re-export that a trace
  takes goes to the same origin. -/
  same : ∀ {path module surface edge found}, Enters resolver read name start path module →
    read module = .ok surface → surface.explicitItem? name = some (.reExport edge) →
    (itemExport resolver module (.reExport edge)).run read = .ok found →
    surface.definitionsOf name = [] ∧ ∃ taken found', surface.reExportOf? name = some taken ∧
      (itemExport resolver module (.reExport taken)).run read = .ok found' ∧
      found'.provenance = found.provenance
  /-- On the way of that trace no edge is taken back to where the search came through, and a
  wildcard that is tried there finds nothing. -/
  onward : ∀ {path module surface edge stand next}, Enters resolver read name start path module →
    read module = .ok surface → surface.explicitItem? name = some (.reExport edge) →
    Meets resolver read (chainOf name path) (.start ⟨module, name⟩) stand →
    next.hop ∈ chainOf name path →
    ¬TakesEdge resolver read stand next ∧
      (TriesWildcard resolver read stand next → next.outcome resolver read = .ok none)
  /-- A module that the search leaves again passes no package on. -/
  unpackaged : ∀ {path module surface edge}, Enters resolver read name start path module →
    Finds resolver read name path module none → read module = .ok surface →
    edge ∈ surface.wildcards → Specifier.isInternal edge.specifier = true

/-! ## Searches without a result -/

section

variable {search : Search} {chain : List Hop} {typed : Bool} {edge : ReExport}
  {accepts : Option Resolved → Prop}

theorem throughWildcards_internal (wildcards : List ReExport) :
    throughWildcards resolver search module name typed chain wildcards =
      throughWildcards resolver search module name typed chain
        (wildcards.filter fun edge => Specifier.isInternal edge.specifier) := by
  induction wildcards with
  | nil => rfl
  | cons edge rest ih =>
      by_cases hinternal : Specifier.isInternal edge.specifier
      · rw [List.filter_cons, if_pos hinternal, throughWildcards, throughWildcards, ih]
      · rw [List.filter_cons, if_neg hinternal, throughWildcards, if_neg hinternal, ih]

theorem throughPackages_internal {wildcards : List ReExport}
    (hinternal : ∀ edge ∈ wildcards, Specifier.isInternal edge.specifier = true) :
    throughPackages module name typed chain wildcards = .ok none := by
  have hnone : wildcards.filter (fun edge => !Specifier.isInternal edge.specifier) = [] := by
    simpa using hinternal
  rw [throughPackages, hnone]

theorem throughWildcards_pass {edges rest : List ReExport} {targets : List Location}
    (hedges : ∀ edge ∈ edges, Specifier.isInternal edge.specifier = true)
    (htargets : List.Forall₂ (fun edge target =>
      resolver.locate edge.specifier module = .ok target) edges targets)
    (hmiss : ∀ target ∈ targets, (⟨target, name⟩ : Hop) ∉ chain →
      ∀ typed, Yields ((search target name typed).run read) (· = none))
    (hrest : Yields
      ((throughWildcards resolver search module name typed chain rest).run read) accepts) :
    Yields ((throughWildcards resolver search module name typed chain (edges ++ rest)).run read)
      accepts := by
  induction htargets with
  | nil => exact hrest
  | @cons edge target edges targets hlocate _ ih =>
      rw [List.forall_mem_cons] at hedges hmiss
      have hrest := ih hedges.2 hmiss.2
      rw [List.cons_append, throughWildcards, if_pos hedges.1, Survey.run_bind,
        Survey.run_ofExcept, hlocate]
      change Yields (Survey.run read (if _ then _ else _)) _
      split
      · exact hrest
      · rename_i hfresh
        rw [Survey.run_bind]
        refine (hmiss.1 hfresh _).bind ?_
        rintro _ rfl
        exact hrest

theorem throughWildcards_reach {edges : List ReExport} {before after : List Location}
    {target : Location} {found : Resolved}
    (hedges : ∀ edge ∈ edges, Specifier.isInternal edge.specifier = true)
    (htargets : List.Forall₂ (fun edge target =>
      resolver.locate edge.specifier module = .ok target) edges (before ++ target :: after))
    (hmiss : ∀ passed ∈ before, (⟨passed, name⟩ : Hop) ∉ chain →
      ∀ typed, Yields ((search passed name typed).run read) (· = none))
    (hfresh : (⟨target, name⟩ : Hop) ∉ chain)
    (hfound : ∀ typed, Yields ((search target name typed).run read) (SameOrigin (some found))) :
    Yields ((throughWildcards resolver search module name typed chain edges).run read)
      (SameOrigin (some found)) := by
  have hfirst := List.forall₂_take_append _ _ _ htargets
  have hlast := List.forall₂_drop_append _ _ _ htargets
  rw [← List.take_append_drop before.length edges] at hedges ⊢
  rw [List.forall_mem_append] at hedges
  refine throughWildcards_pass hedges.1 hfirst hmiss ?_
  generalize edges.drop before.length = rest at hlast hedges ⊢
  cases hlast with
  | @cons edge _ rest _ hlocate _ =>
      rw [throughWildcards, if_pos (hedges.2 edge List.mem_cons_self), Survey.run_bind,
        Survey.run_ofExcept, hlocate]
      change Yields (Survey.run read (if _ then _ else _)) _
      rw [if_neg hfresh, Survey.run_bind]
      refine (hfound _).bind ?_
      intro result hresult
      obtain ⟨found', rfl, hsame⟩ := sameOrigin_some_iff.mp hresult
      exact .of_ok (sameOrigin_some hsame)

end

def Ordered (read : Survey.Reader) : Prop :=
  ∀ module surface, read module = .ok surface →
    surface.wildcards.Pairwise fun first second => first.position ≤ second.position

/-- The statements of every module stand in its tree as they do in its source. -/
def InSourceOrder (trees : Location → Except Failure Syntax.ModuleTree) : Prop :=
  ∀ module tree, trees module = .ok tree →
    tree.root.children.Pairwise fun first second => first.start ≤ second.start

theorem InSourceOrder.ordered {trees : Location → Except Failure Syntax.ModuleTree}
    (h : InSourceOrder trees) : Ordered (surfaceOf trees) := by
  intro module surface hread
  obtain ⟨tree, scanned, htree, hscan, rfl⟩ := exists_tree_of_surfaceOf hread
  exact Module.pairwise_position_wildcards hscan (h module tree htree)

theorem located_of_targets {targets : List Location} (horder : Ordered read)
    (hread : read module = .ok surface)
    (htargets : targetsOf resolver module surface.items = .ok targets) :
    List.Forall₂ (fun edge target => resolver.locate edge.specifier module = .ok target)
      (surface.wildcards.filter fun edge => Specifier.isInternal edge.specifier) targets := by
  rw [← Surface.filterMap_internalWildcard?_items (horder module surface hread)]
  exact mapM_eq_ok.mp htargets

theorem trace_of_read {left : Nat} {path : List Location} {typed : Bool}
    {accepts : Option Resolved → Prop} (hfresh : module ∉ path) (hread : read module = .ok surface)
    (hsearch : ∀ left, Yields ((searchSurface resolver
      (trace resolver left (chainOf name (module :: path))) module name typed
      (chainOf name (module :: path)) surface).run read) accepts) :
    Yields ((trace resolver left (chainOf name path) module name typed).run read) accepts := by
  unfold trace
  rw [if_neg fun h => hfresh (mem_chainOf.mp h)]
  cases left with
  | zero => exact .inl ⟨_, _, _, rfl⟩
  | succ left =>
      dsimp only
      rw [Survey.run_bind, Survey.run_look, hread, ← chainOf_cons]
      exact hsearch left

theorem trace_of_missed {path : List Location} (hname : name ≠ defaultName)
    (horder : Ordered read) (hclear : Unhindered resolver read name start)
    (hreads : ∀ other, other ≠ start → read' other = read other)
    (hfinds : Finds resolver read name path module none)
    (henters : Enters resolver read name start path module) (hstart : start ∈ path)
    (left : Nat) (typed : Bool) :
    Yields ((trace resolver left (chainOf name path) module name typed).run read') (· = none) := by
  generalize hmissed : none = found at hfinds
  induction hfinds generalizing left typed with
  | here => cases hmissed
  | through => cases hmissed
  | @nowhere path module surface targets hread hnone htargets hall ih =>
      have hother : module ≠ start := fun h => henters.fresh (h ▸ hstart)
      refine trace_of_read henters.fresh ((hreads module hother).trans hread) fun left => ?_
      rw [searchSurface_of_no_item hname hnone, Survey.run_bind, throughWildcards_internal]
      have hinternal : ∀ edge ∈ surface.wildcards, Specifier.isInternal edge.specifier = true :=
        fun edge => hclear.unpackaged henters (.nowhere hread hnone htargets hall) hread
      have hpass : Yields ((throughWildcards resolver
          (trace resolver left (chainOf name (module :: path))) module name typed
          (chainOf name (module :: path)) ((surface.wildcards.filter fun edge =>
            Specifier.isInternal edge.specifier) ++ [])).run read') (· = none) := by
        refine throughWildcards_pass (fun edge hedge => (List.mem_filter.mp hedge).2)
          (located_of_targets horder hread htargets) (fun target htarget hchain typed => ?_)
          (.of_ok rfl)
        rw [mem_chainOf] at hchain
        obtain ⟨before, after, rfl⟩ := List.append_of_mem htarget
        refine ih target htarget hchain ?_ (List.mem_cons_of_mem _ hstart) left typed rfl
        exact .through henters hread hnone htargets
          (fun passed hpassed => hall passed (List.mem_append_left _ hpassed)) hchain
      rw [List.append_nil] at hpass
      refine hpass.bind ?_
      rintro _ rfl
      rw [Survey.run_ofExcept, throughPackages_internal hinternal]
      exact .of_ok rfl

/-! ## Searches with a result -/

theorem throughEdge_of_itemExport {edge : ReExport} {found : Resolved}
    (hexported : edge.exportedName = some name)
    (hrun : (itemExport resolver module (.reExport edge)).run read = .ok found) :
    ∃ found', (throughEdge resolver ((Stand.start ⟨module, name⟩).search resolver) module edge name
        false).run read = .ok found' ∧
      found'.provenance = found.provenance := by
  rw [itemExport] at hrun
  unfold throughEdge
  by_cases hnamespaced : edge.kind = .namespaced
  · rw [if_pos hnamespaced] at hrun ⊢
    rw [Survey.run_ofExcept] at hrun
    rw [Survey.run_bind, Survey.run_ofExcept, hrun]
    exact ⟨_, rfl, rfl⟩
  · rw [if_neg hnamespaced] at hrun ⊢
    obtain ⟨exported, imported, hexported', himported, hfound⟩ := follow_eq_ok hrun
    rw [hexported] at hexported'
    cases hexported'
    rw [Survey.run_bind, Survey.run_ofExcept, nameOf_eq_ok.mpr himported]
    change ∃ found', Survey.run read (if Specifier.isInternal edge.specifier then _ else _) = _ ∧ _
    by_cases hinternal : Specifier.isInternal edge.specifier
    · rw [if_pos hinternal] at hfound ⊢
      obtain ⟨target, whole, hlocate, htrace, rfl⟩ := hfound
      exact ⟨whole, searchTarget_eq_ok.mpr ⟨target, hlocate,
        by simpa [Stand.search, Stand.start] using htrace⟩, rfl⟩
    · rw [if_neg hinternal] at hfound ⊢
      subst hfound
      exact ⟨_, rfl, rfl⟩

def Unreferenced (resolver : Resolver) (read : Survey.Reader) (root : Location) : Prop :=
  ∀ module surface, read module = .ok surface → ∀ edge ∈ surface.reExports,
    Specifier.isInternal edge.specifier = true → resolver.locate edge.specifier module ≠ .ok root

theorem Unreferenced.module_ne {stand next : Stand} (hroot : Unreferenced resolver read start)
    (htries : Tries resolver read stand next) : next.hop.module ≠ start := by
  rintro rfl
  rcases htries with h | h
  · cases h with
    | mk hread _ hedge _ _ hinternal hlocate =>
        exact hroot _ _ hread _ (Surface.mem_of_reExportOf? hedge).1 hinternal hlocate
  · cases h with
    | mk hread _ _ _ hwildcards _ hinternal hlocate =>
        have hedge := hwildcards.symm ▸ List.mem_append_cons_self
        exact hroot _ _ hread _ (Surface.mem_wildcards.mp hedge).1 hinternal hlocate

theorem searchSurface_of_item {left : Nat} {path : List Location} {item : Item} {typed : Bool}
    {found : Resolved} (hclear : Unhindered resolver read name start)
    (hreads : ∀ other, other ≠ start → read' other = read other)
    (hroot : Unreferenced resolver read start)
    (henters : Enters resolver read name start path module) (hread : read module = .ok surface)
    (hitem : surface.explicitItem? name = some item)
    (hrun : (itemExport resolver module item).run read = .ok found) :
    Yields ((searchSurface resolver (trace resolver left (chainOf name (module :: path))) module
      name typed (chainOf name (module :: path)) surface).run read') (SameOrigin (some found)) := by
  have hmem := Surface.mem_items_of_explicitItem? hitem
  have hname := Surface.name?_of_explicitItem? hitem
  unfold searchSurface
  cases item with
  | definition d =>
      have hdefined : d ∈ surface.definitionsOf name :=
        List.mem_filter.mpr ⟨Surface.mem_items_definition.mp hmem,
          by simpa [Definition.isCalled, Item.name?] using hname⟩
      obtain ⟨exported, hexported, rfl⟩ := localExport_eq_ok.mp hrun
      obtain rfl : exported = name := Option.some.inj (hexported.symm.trans hname)
      cases hdefinitions : surface.definitionsOf exported with
      | nil => simp [hdefinitions] at hdefined
      | cons first others => exact .of_ok (sameOrigin_some rfl)
  | reExport edge =>
      obtain ⟨hundefined, taken, origin, hedge, horigin, hsame⟩ :=
        hclear.same henters hread hitem hrun
      obtain ⟨-, -, hexported⟩ := Surface.mem_of_reExportOf? hedge
      obtain ⟨found', hthrough, hsame'⟩ := throughEdge_of_itemExport hexported horigin
      have hnext (next : Stand) (hnext : TakesEdge resolver read (.start ⟨module, name⟩) next) :
          Agrees resolver read read' (trace resolver left (chainOf name (module :: path))) next := by
        have htries : Tries resolver read (.start ⟨module, name⟩) next := .inl hnext
        have haway : next.hop ∉ chainOf name path := fun hback =>
          (hclear.onward henters hread hitem .refl hback).1 hnext
        refine trace_agrees (fun hop => ?_) haway (hreads _ (hroot.module_ne htries))
          (fun met further hmet => hclear.onward henters hread hitem (.head ⟨htries, haway⟩ hmet))
          fun met further hfurther => hreads _ (hroot.module_ne hfurther)
        rw [htries.chain, chainOf_cons, List.mem_append, or_comm]
        rfl
      rw [hundefined, hedge]
      dsimp only
      rw [Survey.run_bind]
      exact (throughEdge_agrees hread hundefined hedge hnext hthrough).bind
        fun found'' hagrees => .of_ok (sameOrigin_some ((hagrees.trans hsame').trans hsame))

theorem trace_of_found {path : List Location} {provider : Provider} {found : Resolved}
    (hname : name ≠ defaultName) (horder : Ordered read)
    (hclear : Unhindered resolver read name start)
    (hreads : ∀ other, other ≠ start → read' other = read other)
    (hroot : Unreferenced resolver read start)
    (hfinds : Finds resolver read name path module (some provider))
    (henters : Enters resolver read name start path module) (hstart : start ∈ path)
    (hrun : (itemExport resolver provider.module provider.item).run read = .ok found)
    (left : Nat) (typed : Bool) :
    Yields ((trace resolver left (chainOf name path) module name typed).run read')
      (SameOrigin (some found)) := by
  generalize hsome : some provider = result at hfinds
  induction hfinds generalizing left typed with
  | nowhere => cases hsome
  | @here path module surface item hread hitem =>
      cases hsome
      have hother : module ≠ start := fun h => henters.fresh (h ▸ hstart)
      exact trace_of_read henters.fresh ((hreads module hother).trans hread) fun left =>
        searchSurface_of_item hclear hreads hroot henters hread hitem hrun
  | @through path module surface before target after provider hread hnone htargets hbefore hfresh
      _ _ ih =>
      have hother : module ≠ start := fun h => henters.fresh (h ▸ hstart)
      have hnext : Enters resolver read name start (module :: path) target :=
        .through henters hread hnone htargets hbefore hfresh
      refine trace_of_read henters.fresh ((hreads module hother).trans hread) fun left => ?_
      rw [searchSurface_of_no_item hname hnone, Survey.run_bind, throughWildcards_internal]
      refine (throughWildcards_reach (fun edge hedge => (List.mem_filter.mp hedge).2)
        (located_of_targets horder hread htargets) ?_ (fun h => hfresh (mem_chainOf.mp h))
        fun typed => ih hnext (List.mem_cons_of_mem _ hstart) left typed hsome).bind
        fun result hresult => ?_
      · intro passed hpassed hchain typed
        rw [mem_chainOf] at hchain
        obtain ⟨first, others, rfl⟩ := List.append_of_mem hpassed
        refine trace_of_missed hname horder hclear hreads (hbefore passed hpassed hchain) ?_
          (List.mem_cons_of_mem _ hstart) left typed
        refine .through henters hread hnone (by simpa using htargets) ?_ hchain
        exact fun other hmem => hbefore other (List.mem_append_left _ hmem)
      · obtain ⟨found', rfl, hsame⟩ := sameOrigin_some_iff.mp hresult
        exact .of_ok (sameOrigin_some hsame)

/-! ## Roots of a single statement -/

/-- Reads a root as one re-export and every other module as before. -/
def withRoot (read : Survey.Reader) (root : Location) (edge : ReExport) : Survey.Reader :=
  Function.update read root (.ok ⟨[], [edge]⟩)

theorem withRoot_root (edge : ReExport) : withRoot read start edge start = .ok ⟨[], [edge]⟩ :=
  Function.update_self _ _ _

theorem withRoot_other {edge edge' : ReExport} (other : Location) (h : other ≠ start) :
    withRoot read start edge' other = withRoot read start edge other := by
  rw [withRoot, withRoot, Function.update_of_ne h, Function.update_of_ne h]

theorem items_single (edge : ReExport) : Surface.items ⟨[], [edge]⟩ = [.reExport edge] :=
  Surface.items_of_pairwise rfl (List.pairwise_singleton _ _)

theorem merge_single (found : Resolved) : Collected.merge [⟨found, false⟩] = [found] := by
  simp [Collected.merge, visible, hiddenBy?, promoted, promote, Collected.add]

theorem expand_single {edge : ReExport} {left : Nat} {visiting : List Location}
    (hread : read module = .ok ⟨[], [edge]⟩) (hkind : edge.kind ≠ .wildcard) :
    (Resolution.expand resolver (left + 1) visiting true module).run read = (do
      return [← (itemExport resolver module (.reExport edge)).run read]) := by
  have hitem : (Item.reExport edge).wildcard? = none := by simp [Item.wildcard?, hkind]
  rw [Resolution.expand, Survey.run_bind, Survey.run_look, hread]
  change Survey.run read (_ >>= _) = _
  rw [Survey.run_bind, items_single, collectAll, collectItem_passed hitem (.inl rfl)]
  simp only [Survey.run_bind]
  cases (itemExport resolver module (.reExport edge)).run read with
  | error failure => rfl
  | ok found => exact congrArg Except.ok (merge_single found)

theorem follow_namedEdge {specifier : String} {typed : Bool} {position : Nat} {target : Location}
    {found : Resolved} (hinternal : Specifier.isInternal specifier = true)
    (hlocate : resolver.locate specifier module = .ok target)
    (htrace : Yields ((trace resolver (resolver.maxDepth - 1) [⟨module, name⟩] target name
      typed).run read) (SameOrigin (some found))) :
    Yields ((follow resolver module (Module.namedEdge specifier name name typed position)).run read)
      fun found' => found'.exportedName = name ∧ found'.provenance = found.provenance := by
  have hexported : (Module.namedEdge specifier name name typed position).exportedName = some name :=
    rfl
  have himported : (Module.namedEdge specifier name name typed position).importedName = some name :=
    rfl
  rw [follow_eq hexported himported hinternal hlocate]
  dsimp only [Module.namedEdge]
  rcases htrace with ⟨module', name', hops, hdeep⟩ | ⟨result, hresult, hsame⟩
  · rw [hdeep]
    exact .inl ⟨module', name', hops, rfl⟩
  · obtain ⟨whole, rfl, horigin⟩ := sameOrigin_some_iff.mp hsame
    rw [hresult]
    exact .of_ok ⟨rfl, horigin⟩

theorem Ordered.withRoot {edge : ReExport} (horder : Ordered read) :
    Ordered (withRoot read start edge) := by
  intro module surface hread
  by_cases hmodule : module = start
  · subst hmodule
    rw [withRoot_root] at hread
    cases hread
    exact (List.pairwise_singleton _ edge).sublist List.filter_sublist
  · rw [Resolution.withRoot, Function.update_of_ne hmodule] at hread
    exact horder module surface hread

theorem finds_through_root {specifier : String} {typed : Bool} {position : Nat}
    {provider : Provider}
    (hread : read start = .ok ⟨[], [Module.wildcardEdge specifier typed position]⟩)
    (hfinds : Finds resolver read name [] start (some provider)) :
    Specifier.isInternal specifier = true ∧
      ∃ target, resolver.locate specifier start = .ok target ∧
        Enters resolver read name start [start] target ∧
        Finds resolver read name [start] target (some provider) := by
  cases hfinds with
  | here hread' hitem =>
      obtain rfl := ok_inj hread hread'
      rw [Surface.explicitItem?, items_single] at hitem
      simp [Item.name?, Module.wildcardEdge] at hitem
  | @through _ _ surface before target after _ hread' hnone htargets hbefore hfresh hfound =>
      obtain rfl := ok_inj hread hread'
      have henters : Enters resolver read name start [start] target :=
        .through .start hread hnone htargets hbefore hfresh
      rw [items_single] at htargets
      by_cases hinternal : Specifier.isInternal specifier
      · have hitem : (Item.reExport (Module.wildcardEdge specifier typed position)).internalWildcard? =
            some (Module.wildcardEdge specifier typed position) :=
          Item.internalWildcard?_eq_some.mpr ⟨rfl, rfl, hinternal⟩
        rw [targetsOf, List.filterMap_cons_some hitem, mapM_eq_ok] at htargets
        cases before with
        | nil =>
            cases htargets with
            | cons hlocate _ => exact ⟨hinternal, target, hlocate, henters, hfound⟩
        | cons first rest =>
            cases htargets with
            | cons _ hrest =>
                cases rest <;> cases hrest
      · have hitem : (Item.reExport (Module.wildcardEdge specifier typed position)).internalWildcard? =
            none := by
          simp [Item.internalWildcard?, Item.wildcard?, Module.wildcardEdge, hinternal]
        rw [targetsOf, List.filterMap_cons_none hitem] at htargets
        cases before <;> cases htargets

/--
A root that re-exports one name of a module and a root that re-exports all of
the module agree on where the name comes from, as long as nothing can tell a
trace from the search and no module leads to the root.
-/
theorem named_agrees_with_wildcard {lookup : Lookup}
    {trees : Location → Except Failure Syntax.ModuleTree} {root : Location} {specifier : String}
    {typed typed' : Bool} {position position' : Nat} {exports : List Resolved} {entry : Resolved}
    (hname : name ≠ defaultName) (htrees : InSourceOrder trees)
    (hplace : lookup.volume.resolve root = start)
    (hroot : Unreferenced (.ofLookup lookup)
      (withRoot (surfaceOf trees) start (Module.wildcardEdge specifier typed position)) start)
    (hclear : Unhindered (.ofLookup lookup)
      (withRoot (surfaceOf trees) start (Module.wildcardEdge specifier typed position)) name start)
    (hstar : (exportsOf lookup root).run
      (withRoot (surfaceOf trees) start (Module.wildcardEdge specifier typed position)) = .ok exports)
    (hentry : entry ∈ exports) (hkind : entry.kind ≠ .wildcard)
    (hexported : entry.exportedName = name)
    (hdepth : ¬TooDeep ((exportsOf lookup root).run
      (withRoot (surfaceOf trees) start (Module.namedEdge specifier name name typed' position')))) :
    ∃ export_, (exportsOf lookup root).run
        (withRoot (surfaceOf trees) start (Module.namedEdge specifier name name typed' position')) =
        .ok [export_] ∧
      export_.exportedName = name ∧ export_.provenance = entry.provenance := by
  subst hplace
  obtain ⟨further, -, -, hleft, -, -, -⟩ := expand_eq_ok.mp hstar
  obtain ⟨found, hfinds, hsupplies⟩ := expand_finds hname hstar
  have hsymbol := symbolOf_of_mem (nodup_mergeKey_of_expand hstar) hentry
  rw [mergeKey_eq_name.mpr ⟨hkind, hexported⟩] at hsymbol
  rw [hsymbol] at hsupplies
  generalize hvalue : entry.asValue = symbol at hsupplies
  cases hsupplies with
  | @some provider _ hsome =>
      obtain ⟨source, hitem, rfl⟩ := hsome
      have hsame : source.provenance = entry.provenance := by
        simpa using (congrArg provenance hvalue).symm
      obtain ⟨hinternal, target, hlocate, henters, hfound⟩ :=
        finds_through_root (withRoot_root _) hfinds
      have htrace : Yields ((trace (.ofLookup lookup) (lookup.settings.maxDepth - 1)
          [⟨lookup.volume.resolve root, name⟩] target name typed').run
            (withRoot (surfaceOf trees) (lookup.volume.resolve root)
              (Module.namedEdge specifier name name typed' position')))
          (SameOrigin (some source)) :=
        trace_of_found hname htrees.ordered.withRoot hclear withRoot_other
          hroot hfound henters List.mem_cons_self hitem _ typed'
      have hwildcard : (Module.namedEdge specifier name name typed' position').kind ≠
          .wildcard := by
        simp [Module.namedEdge, Module.edgeKind, hname]
      have hnamespaced : (Module.namedEdge specifier name name typed' position').kind ≠
          .namespaced := by
        simp [Module.namedEdge, Module.edgeKind, hname]
      have hrun : Yields ((exportsOf lookup root).run
          (withRoot (surfaceOf trees) (lookup.volume.resolve root)
            (Module.namedEdge specifier name name typed' position')))
          fun exports => ∃ export_, exports = [export_] ∧ export_.exportedName = name ∧
            export_.provenance = source.provenance := by
        rw [exportsOf, hleft, expand_single (withRoot_root _) hwildcard, itemExport,
          if_neg hnamespaced]
        exact (follow_namedEdge hinternal hlocate htrace).bind fun export_ h =>
          .of_ok ⟨export_, rfl, h⟩
      rcases hrun with hdeep | ⟨_, hok, export_, rfl, hexport, horigin⟩
      · exact absurd hdeep hdepth
      · exact ⟨export_, hok, hexport, horigin.trans hsame⟩

def revisitedBarrel : Lookup where
  settings := .default
  volume := .ofTexts
    [("/proj/index.ts", "export * from './barrel';"),
      ("/proj/barrel.ts", "export * from './module';"),
      ("/proj/module.ts", "export { n } from './facade';"),
      ("/proj/facade.ts", "export * from './barrel'; export * from './origin';"),
      ("/proj/origin.ts", "export const n = 1;")]

def revisitedSurfaces : List (Location × Surface) :=
  [(.ofPath "/proj/barrel.ts", ⟨[], [Module.wildcardEdge "./module" false 0]⟩),
    (.ofPath "/proj/module.ts", ⟨[], [Module.namedEdge "./facade" "n" "n" false 9]⟩),
    (.ofPath "/proj/facade.ts",
      ⟨[], [Module.wildcardEdge "./barrel" false 0, Module.wildcardEdge "./origin" false 26]⟩),
    (.ofPath "/proj/origin.ts", ⟨[⟨.named, some "n", false, 13, none⟩], []⟩)]

def revisitedTrees (module : Location) : Except Failure Syntax.ModuleTree :=
  if module ∈ revisitedSurfaces.map Prod.fst then
    Module.loadTree .utf8 revisitedBarrel.volume module
  else .error (.unreadable module.written (.notEncoded "utf-8"))

abbrev revisitedReader (edge : ReExport) : Survey.Reader :=
  withRoot (surfaceOf revisitedTrees) (.ofPath "/proj/index.ts") edge

theorem read_revisitedSurfaces :
    ∀ entry ∈ revisitedSurfaces, surfaceOf revisitedTrees entry.1 = .ok entry.2 ∧
      (revisitedTrees entry.1).toOption.all fun tree =>
        decide (tree.root.children.Pairwise fun first second => first.start ≤ second.start) := by
  decide +kernel

theorem mem_of_revisitedTrees {tree : Syntax.ModuleTree} (h : revisitedTrees module = .ok tree) :
    ∃ entry ∈ revisitedSurfaces, entry.1 = module := by
  unfold revisitedTrees at h
  split at h
  · exact List.mem_map.mp ‹_›
  · cases h

theorem mem_of_revisitedReader {edge : ReExport} (h : revisitedReader edge module = .ok surface) :
    (module, surface) ∈ (.ofPath "/proj/index.ts", ⟨[], [edge]⟩) :: revisitedSurfaces := by
  by_cases hmodule : module = .ofPath "/proj/index.ts"
  · subst hmodule
    rw [revisitedReader, withRoot_root] at h
    cases h
    exact List.mem_cons_self
  · rw [revisitedReader, withRoot, Function.update_of_ne hmodule] at h
    obtain ⟨tree, -, htree, -⟩ := exists_tree_of_surfaceOf h
    obtain ⟨entry, hentry, rfl⟩ := mem_of_revisitedTrees htree
    obtain rfl := ok_inj (read_revisitedSurfaces entry hentry).1 h
    exact List.mem_cons_of_mem _ hentry

theorem inSourceOrder_revisitedTrees : InSourceOrder revisitedTrees := by
  intro module tree htree
  obtain ⟨entry, hentry, rfl⟩ := mem_of_revisitedTrees htree
  simpa [htree, Except.toOption] using (read_revisitedSurfaces entry hentry).2

abbrev revisitedStar : Survey.Reader := revisitedReader (Module.wildcardEdge "./barrel" false 0)

theorem read_revisitedStar :
    revisitedStar (.ofPath "/proj/index.ts") =
        .ok ⟨[], [Module.wildcardEdge "./barrel" false 0]⟩ ∧
      revisitedStar (.ofPath "/proj/barrel.ts") =
        .ok ⟨[], [Module.wildcardEdge "./module" false 0]⟩ ∧
      revisitedStar (.ofPath "/proj/module.ts") =
        .ok ⟨[], [Module.namedEdge "./facade" "n" "n" false 9]⟩ ∧
      revisitedStar (.ofPath "/proj/facade.ts") =
        .ok ⟨[], [Module.wildcardEdge "./barrel" false 0, Module.wildcardEdge "./origin" false 26]⟩ ∧
      revisitedStar (.ofPath "/proj/origin.ts") = .ok ⟨[⟨.named, some "n", false, 13, none⟩], []⟩ := by
  have hread (entry : Location × Surface) (hentry : entry ∈ revisitedSurfaces)
      (hother : entry.1 ≠ .ofPath "/proj/index.ts") : revisitedStar entry.1 = .ok entry.2 :=
    (Function.update_of_ne hother _ _).trans (read_revisitedSurfaces entry hentry).1
  exact ⟨withRoot_root _, hread (_, _) (.head _) (by decide),
    hread (_, _) (.tail _ (.head _)) (by decide),
    hread (_, _) (.tail _ (.tail _ (.head _))) (by decide),
    hread (_, _) (.tail _ (.tail _ (.tail _ (.head _)))) (by decide)⟩

theorem locate_revisitedBarrel :
    (Resolver.ofLookup revisitedBarrel).locate "./barrel" (.ofPath "/proj/index.ts") =
        .ok (.ofPath "/proj/barrel.ts") ∧
      (Resolver.ofLookup revisitedBarrel).locate "./module" (.ofPath "/proj/barrel.ts") =
        .ok (.ofPath "/proj/module.ts") ∧
      (Resolver.ofLookup revisitedBarrel).locate "./barrel" (.ofPath "/proj/facade.ts") =
        .ok (.ofPath "/proj/barrel.ts") ∧
      (Resolver.ofLookup revisitedBarrel).locate "./facade" (.ofPath "/proj/module.ts") =
        .ok (.ofPath "/proj/facade.ts") ∧
      (Resolver.ofLookup revisitedBarrel).locate "./origin" (.ofPath "/proj/facade.ts") =
        .ok (.ofPath "/proj/origin.ts") := by
  decide +kernel

theorem enters_revisitedBarrel {path : List Location}
    (henters : Enters (.ofLookup revisitedBarrel) revisitedStar "n" (.ofPath "/proj/index.ts")
      path module) :
    (path, module) ∈ [([], Location.ofPath "/proj/index.ts"),
      ([.ofPath "/proj/index.ts"], .ofPath "/proj/barrel.ts"),
      ([.ofPath "/proj/barrel.ts", .ofPath "/proj/index.ts"], .ofPath "/proj/module.ts")] := by
  obtain ⟨hindex, hbarrel, hmodule, -⟩ := read_revisitedStar
  obtain ⟨htoBarrel, htoModule, -⟩ := locate_revisitedBarrel
  have hindexTargets : targetsOf (.ofLookup revisitedBarrel) (.ofPath "/proj/index.ts")
      (Surface.items ⟨[], [Module.wildcardEdge "./barrel" false 0]⟩) =
      .ok [.ofPath "/proj/barrel.ts"] := by
    rw [items_single]
    exact mapM_eq_ok.mpr (.cons htoBarrel .nil)
  have hbarrelTargets : targetsOf (.ofLookup revisitedBarrel) (.ofPath "/proj/barrel.ts")
      (Surface.items ⟨[], [Module.wildcardEdge "./module" false 0]⟩) =
      .ok [.ofPath "/proj/module.ts"] := by
    rw [items_single]
    exact mapM_eq_ok.mpr (.cons htoModule .nil)
  induction henters with
  | start => exact List.mem_cons_self
  | @through path module surface before target after _ hread hnone htargets _ _ ih =>
      simp only [List.mem_cons, List.not_mem_nil, or_false, Prod.mk.injEq] at ih ⊢
      rcases ih with ⟨rfl, rfl⟩ | ⟨rfl, rfl⟩ | ⟨rfl, rfl⟩
      · obtain rfl := ok_inj hindex hread
        have htarget : target ∈ [Location.ofPath "/proj/barrel.ts"] :=
          ok_inj htargets hindexTargets ▸ List.mem_append_cons_self
        exact .inr (.inl ⟨rfl, List.mem_singleton.mp htarget⟩)
      · obtain rfl := ok_inj hbarrel hread
        have htarget : target ∈ [Location.ofPath "/proj/module.ts"] :=
          ok_inj htargets hbarrelTargets ▸ List.mem_append_cons_self
        exact .inr (.inr ⟨rfl, List.mem_singleton.mp htarget⟩)
      · obtain rfl := ok_inj hmodule hread
        rw [Surface.explicitItem?, items_single] at hnone
        simp [Item.name?, Module.namedEdge, Module.edgeKind, defaultName] at hnone

def moduleStand : Stand := .start ⟨.ofPath "/proj/module.ts", "n"⟩

def facadeStand : Stand :=
  moduleStand.next (Module.namedEdge "./facade" "n" "n" false 9) ⟨.ofPath "/proj/facade.ts", "n"⟩

def barrelStand : Stand :=
  facadeStand.next (Module.wildcardEdge "./barrel" false 0) ⟨.ofPath "/proj/barrel.ts", "n"⟩

def originStand : Stand :=
  facadeStand.next (Module.wildcardEdge "./origin" false 26) ⟨.ofPath "/proj/origin.ts", "n"⟩

theorem tries_moduleStand {next : Stand}
    (h : Tries (.ofLookup revisitedBarrel) revisitedStar moduleStand next) :
    next = facadeStand := by
  obtain ⟨-, -, hmodule, -⟩ := read_revisitedStar
  obtain ⟨-, -, -, hfacade, -⟩ := locate_revisitedBarrel
  rcases h with h | h
  · cases h with
    | mk hread _ hedge _ himported _ hlocate =>
        obtain rfl := ok_inj hmodule hread
        cases hedge
        cases himported
        rw [← ok_inj hfacade hlocate]
        rfl
  · cases h with
    | mk hread _ hunnamed =>
        obtain rfl := ok_inj hmodule hread
        cases hunnamed

theorem tries_facadeStand {next : Stand}
    (h : Tries (.ofLookup revisitedBarrel) revisitedStar facadeStand next) :
    ¬TakesEdge (.ofLookup revisitedBarrel) revisitedStar facadeStand next ∧
      (next = barrelStand ∨ next = originStand) := by
  obtain ⟨-, -, -, hfacade, -⟩ := read_revisitedStar
  obtain ⟨-, -, hbarrel, -, horigin⟩ := locate_revisitedBarrel
  have hedge : ¬TakesEdge (.ofLookup revisitedBarrel) revisitedStar facadeStand next := by
    intro hedge
    cases hedge with
    | mk hread _ hedge =>
        obtain rfl := ok_inj hfacade hread
        cases hedge
  refine ⟨hedge, ?_⟩
  cases h.resolve_left hedge with
  | mk hread _ _ _ hwildcards _ _ hlocate =>
      obtain rfl := ok_inj hfacade hread
      have hmem := hwildcards.symm ▸ List.mem_append_cons_self
      rcases List.mem_pair.mp hmem with rfl | rfl
      · rw [← ok_inj hbarrel hlocate]
        exact .inl rfl
      · rw [← ok_inj horigin hlocate]
        exact .inr rfl

theorem not_tries_originStand {next : Stand} :
    ¬Tries (.ofLookup revisitedBarrel) revisitedStar originStand next := by
  obtain ⟨-, -, -, -, horigin⟩ := read_revisitedStar
  rintro (h | h) <;> cases h with
  | mk hread hundefined =>
      obtain rfl := ok_inj horigin hread
      cases hundefined

theorem meets_revisitedBarrel {stand : Stand}
    (hmeets : Meets (.ofLookup revisitedBarrel) revisitedStar
      (chainOf "n" [.ofPath "/proj/barrel.ts", .ofPath "/proj/index.ts"]) moduleStand stand) :
    stand = moduleStand ∨ stand = facadeStand ∨ stand = originStand := by
  induction hmeets with
  | refl => exact .inl rfl
  | tail _ hstep ih =>
      obtain ⟨htries, havoid⟩ := hstep
      rcases ih with rfl | rfl | rfl
      · exact .inr (.inl (tries_moduleStand htries))
      · rcases (tries_facadeStand htries).2 with rfl | rfl
        · exact absurd (by decide) havoid
        · exact .inr (.inr rfl)
      · exact absurd htries not_tries_originStand

theorem item_of_revisitedBarrel {path : List Location} {edge : ReExport}
    (henters : Enters (.ofLookup revisitedBarrel) revisitedStar "n" (.ofPath "/proj/index.ts")
      path module)
    (hread : revisitedStar module = .ok surface)
    (hitem : surface.explicitItem? "n" = some (.reExport edge)) :
    path = [.ofPath "/proj/barrel.ts", .ofPath "/proj/index.ts"] ∧
      module = .ofPath "/proj/module.ts" ∧ surface = ⟨[], [edge]⟩ ∧
      edge = Module.namedEdge "./facade" "n" "n" false 9 := by
  obtain ⟨hindex, hbarrel, hmodule, -⟩ := read_revisitedStar
  have hnone (specifier : String) :
      Surface.explicitItem? ⟨[], [Module.wildcardEdge specifier false 0]⟩ "n" = none := by
    rw [Surface.explicitItem?, items_single]
    rfl
  have hplaces := enters_revisitedBarrel henters
  simp only [List.mem_cons, List.not_mem_nil, or_false, Prod.mk.injEq] at hplaces
  rcases hplaces with ⟨rfl, rfl⟩ | ⟨rfl, rfl⟩ | ⟨rfl, rfl⟩
  · obtain rfl := ok_inj hindex hread
    cases (hnone _).symm.trans hitem
  · obtain rfl := ok_inj hbarrel hread
    cases (hnone _).symm.trans hitem
  · obtain rfl := ok_inj hmodule hread
    have hmem := Surface.mem_items_of_explicitItem? hitem
    rw [items_single, List.mem_singleton] at hmem
    cases hmem
    exact ⟨rfl, rfl, rfl, rfl⟩

theorem unhindered_revisitedBarrel : Unhindered (.ofLookup revisitedBarrel) revisitedStar "n"
    (.ofPath "/proj/index.ts") where
  same := by
    intro path module surface edge found henters hread hitem hrun
    obtain ⟨-, -, rfl, rfl⟩ := item_of_revisitedBarrel henters hread hitem
    exact ⟨rfl, _, found, rfl, hrun, rfl⟩
  onward := by
    intro path module surface edge stand next henters hread hitem hmeets hback
    obtain ⟨rfl, rfl, -, -⟩ := item_of_revisitedBarrel henters hread hitem
    have hmiss : barrelStand.outcome (.ofLookup revisitedBarrel) revisitedStar = .ok none := by
      decide +kernel
    have hfacade : facadeStand.hop ∉
        chainOf "n" [.ofPath "/proj/barrel.ts", .ofPath "/proj/index.ts"] := by decide
    have horigin : originStand.hop ∉
        chainOf "n" [.ofPath "/proj/barrel.ts", .ofPath "/proj/index.ts"] := by decide
    rcases meets_revisitedBarrel hmeets with rfl | rfl | rfl
    · have hnext (h : Tries (.ofLookup revisitedBarrel) revisitedStar moduleStand next) : False :=
        hfacade (tries_moduleStand h ▸ hback)
      exact ⟨fun h => hnext (.inl h), fun h => (hnext (.inr h)).elim⟩
    · refine ⟨fun h => (tries_facadeStand (.inl h)).1 h, fun h => ?_⟩
      rcases (tries_facadeStand (.inr h)).2 with rfl | rfl
      · exact hmiss
      · exact absurd hback horigin
    · exact ⟨fun h => not_tries_originStand (.inl h), fun h => (not_tries_originStand (.inr h)).elim⟩
  unpackaged := by
    intro path module surface edge _ _ hread hedge
    have hall : ∀ entry ∈ (Location.ofPath "/proj/index.ts",
        (⟨[], [Module.wildcardEdge "./barrel" false 0]⟩ : Surface)) :: revisitedSurfaces,
        ∀ edge ∈ entry.2.wildcards, Specifier.isInternal edge.specifier = true := by
      decide
    exact hall _ (mem_of_revisitedReader hread) edge hedge

theorem named_agrees_with_wildcard_revisitedBarrel :
    ∃ export_, (exportsOf revisitedBarrel (.ofPath "/proj/index.ts")).run
        (revisitedReader (Module.namedEdge "./barrel" "n" "n" false 9)) = .ok [export_] ∧
      export_.exportedName = "n" ∧
      export_.provenance = ⟨.named, "/proj/origin.ts", "n", false⟩ := by
  have hplace : revisitedBarrel.volume.resolve (.ofPath "/proj/index.ts") =
      .ofPath "/proj/index.ts" := by decide +kernel
  have hroot : Unreferenced (.ofLookup revisitedBarrel) revisitedStar (.ofPath "/proj/index.ts") := by
    intro module surface hread
    have hall : ∀ entry ∈ (Location.ofPath "/proj/index.ts",
        (⟨[], [Module.wildcardEdge "./barrel" false 0]⟩ : Surface)) :: revisitedSurfaces,
        ∀ edge ∈ entry.2.reExports, Specifier.isInternal edge.specifier = true →
          (Resolver.ofLookup revisitedBarrel).locate edge.specifier entry.1 ≠
            .ok (.ofPath "/proj/index.ts") := by
      decide +kernel
    exact hall _ (mem_of_revisitedReader hread)
  have hstar : (exportsOf revisitedBarrel (.ofPath "/proj/index.ts")).run revisitedStar =
      .ok [⟨"n", "/proj/origin.ts", "n", false, .named, false, some "n", false⟩] := by
    decide +kernel
  have hnamed : (exportsOf revisitedBarrel (.ofPath "/proj/index.ts")).run
      (revisitedReader (Module.namedEdge "./barrel" "n" "n" false 9)) =
      .ok [⟨"n", "/proj/origin.ts", "n", false, .named, false, some "n", false⟩] := by
    decide +kernel
  have hdepth : ¬TooDeep ((exportsOf revisitedBarrel (.ofPath "/proj/index.ts")).run
      (revisitedReader (Module.namedEdge "./barrel" "n" "n" false 9))) := by
    rw [hnamed]
    rintro ⟨_, _, _, h⟩
    cases h
  exact named_agrees_with_wildcard (by decide) inSourceOrder_revisitedTrees hplace hroot
    unhindered_revisitedBarrel hstar List.mem_cons_self (by decide) rfl hdepth

/-! ## Where the two disagree -/

def doubledBarrel : Lookup where
  settings := .default
  volume := .ofTexts
    [("/proj/index.ts", ""),
      ("/proj/barrel.ts", "export { n } from './other'; export const n = 1;"),
      ("/proj/other.ts", "export const n = 2;")]

def packagedBarrel : Lookup where
  settings := .default
  volume := .ofTexts
    [("/proj/index.ts", ""),
      ("/proj/barrel.ts", "export * from './facade'; export * from './origin';"),
      ("/proj/facade.ts", "export * from 'pkg';"),
      ("/proj/origin.ts", "export const n = 1;")]

/-- What a root that holds only one re-export comes to. -/
def outcomeOf (lookup : Lookup) (edge : ReExport) : Except Failure (List Resolved) :=
  (exportsOf lookup (.ofPath "/proj/index.ts")).run
    (withRoot (Module.loadSurface lookup.volume) (.ofPath "/proj/index.ts") edge)

def barrelItem (lookup : Lookup) (item : Item) : Except Failure (List Collected) :=
  (collectItem (.ofLookup lookup)
    (Resolution.expand (.ofLookup lookup) 254
      [.ofPath "/proj/barrel.ts", .ofPath "/proj/index.ts"] false)
    [.ofPath "/proj/barrel.ts", .ofPath "/proj/index.ts"] (.ofPath "/proj/barrel.ts") false
    item).run (withRoot (Module.loadSurface lookup.volume) (.ofPath "/proj/index.ts")
      (Module.wildcardEdge "./barrel" false 0))

theorem outcomeOf_wildcard {lookup : Lookup} {surface : Surface} {items : List Item}
    {lists : List (List Collected)}
    (hplace : lookup.volume.resolve (.ofPath "/proj/index.ts") = .ofPath "/proj/index.ts")
    (hdepth : lookup.settings.maxDepth = 256)
    (hlocate : (Resolver.ofLookup lookup).locate "./barrel" (.ofPath "/proj/index.ts") =
      .ok (.ofPath "/proj/barrel.ts"))
    (hread : Module.loadSurface lookup.volume (.ofPath "/proj/barrel.ts") = .ok surface)
    (hitems : surface.items = items)
    (hlists : List.Forall₂ (fun item entries => barrelItem lookup item = .ok entries)
      items lists) :
    outcomeOf lookup (Module.wildcardEdge "./barrel" false 0) =
      .ok (Collected.merge ((Collected.merge lists.flatten).map fun export_ => ⟨export_, true⟩)) := by
  have hother : (Location.ofPath "/proj/barrel.ts") ≠ .ofPath "/proj/index.ts" := by decide
  have hbarrel := expand_of_items
    ((Function.update_of_ne hother _ (Module.loadSurface lookup.volume)).trans hread) hitems hlists
  have hstar : (collectItem (.ofLookup lookup)
      (Resolution.expand (.ofLookup lookup) 255 [.ofPath "/proj/index.ts"] false)
      [.ofPath "/proj/index.ts"] (.ofPath "/proj/index.ts") true
      (.reExport (Module.wildcardEdge "./barrel" false 0))).run
        (withRoot (Module.loadSurface lookup.volume) (.ofPath "/proj/index.ts")
          (Module.wildcardEdge "./barrel" false 0)) =
      .ok ((Collected.merge lists.flatten).map fun export_ => ⟨export_, true⟩) := by
    refine collectItem_eq_ok.mpr (.wildcard rfl (expandWildcard_eq_ok.mpr ?_))
    rw [if_pos (by decide)]
    refine ⟨.ofPath "/proj/barrel.ts", hlocate, ?_⟩
    rw [if_neg (by decide)]
    exact ⟨_, hbarrel, rfl⟩
  rw [outcomeOf, exportsOf, hplace]
  change (Resolution.expand _ lookup.settings.maxDepth _ _ _).run _ = _
  rw [hdepth]
  have hexpand := expand_of_items (withRoot_root _) (items_single _) (.cons hstar .nil)
  rwa [List.flatten_singleton] at hexpand

theorem outcomeOf_crossedBarrels :
    outcomeOf crossedBarrels (Module.wildcardEdge "./barrel" false 0) =
        .ok [⟨"n", "/proj/origin.ts", "n", false, .named, false, some "n", false⟩] ∧
      outcomeOf crossedBarrels (Module.namedEdge "./barrel" "n" "n" false 9) =
        .error (.ambiguous "/proj/barrel.ts" "n" [("/proj/index.ts", "n"),
          ("/proj/barrel.ts", "n"), ("/proj/crossing.ts", "n")] .cycle) := by
  have hread : Module.loadSurface crossedBarrels.volume (.ofPath "/proj/barrel.ts") = .ok
      ⟨[], [Module.wildcardEdge "./crossing" false 0, Module.wildcardEdge "./origin" false 28]⟩ := by
    decide +kernel
  have hcrossing : barrelItem crossedBarrels
      (.reExport (Module.wildcardEdge "./crossing" false 0)) =
      .ok [⟨⟨"n", "/proj/origin.ts", "n", true, .named, false, some "n", false⟩, true⟩] := by
    decide +kernel
  have horigin : barrelItem crossedBarrels (.reExport (Module.wildcardEdge "./origin" false 28)) =
      .ok [⟨⟨"n", "/proj/origin.ts", "n", false, .named, false, none, true⟩, true⟩] := by
    decide +kernel
  refine ⟨?_, by decide +kernel⟩
  exact outcomeOf_wildcard (by decide +kernel) rfl (by decide +kernel) hread
    (Surface.items_of_pairwise rfl (by decide)) (.cons hcrossing (.cons horigin .nil))

theorem outcomeOf_doubledBarrel :
    outcomeOf doubledBarrel (Module.wildcardEdge "./barrel" false 0) =
        .ok [⟨"n", "/proj/other.ts", "n", false, .named, false, some "n", false⟩] ∧
      outcomeOf doubledBarrel (Module.namedEdge "./barrel" "n" "n" false 9) =
        .ok [⟨"n", "/proj/barrel.ts", "n", false, .named, false, some "n", false⟩] := by
  have hread : Module.loadSurface doubledBarrel.volume (.ofPath "/proj/barrel.ts") = .ok
      ⟨[⟨.named, some "n", false, 42, none⟩], [Module.namedEdge "./other" "n" "n" false 9]⟩ := by
    decide +kernel
  have hitems : Surface.items ⟨[⟨.named, some "n", false, 42, none⟩],
      [Module.namedEdge "./other" "n" "n" false 9]⟩ =
      [.reExport (Module.namedEdge "./other" "n" "n" false 9),
        .definition ⟨.named, some "n", false, 42, none⟩] := by
    simp [Surface.items, List.mergeSort, List.MergeSort.Internal.splitInTwo,
      Item.position, Module.namedEdge]
  have hother : barrelItem doubledBarrel
      (.reExport (Module.namedEdge "./other" "n" "n" false 9)) =
      .ok [⟨⟨"n", "/proj/other.ts", "n", false, .named, false, some "n", false⟩, false⟩] := by
    decide +kernel
  have hbarrel : barrelItem doubledBarrel (.definition ⟨.named, some "n", false, 42, none⟩) =
      .ok [⟨⟨"n", "/proj/barrel.ts", "n", false, .named, false, none, true⟩, false⟩] := by
    decide +kernel
  refine ⟨?_, by decide +kernel⟩
  exact outcomeOf_wildcard (by decide +kernel) rfl (by decide +kernel) hread hitems
    (.cons hother (.cons hbarrel .nil))

theorem outcomeOf_packagedBarrel :
    outcomeOf packagedBarrel (Module.wildcardEdge "./barrel" false 0) =
        .ok [packageWildcard "pkg" false,
          ⟨"n", "/proj/origin.ts", "n", false, .named, false, none, true⟩] ∧
      outcomeOf packagedBarrel (Module.namedEdge "./barrel" "n" "n" false 9) =
        .ok [fromPackage "pkg" "n" "n" false] := by
  have hread : Module.loadSurface packagedBarrel.volume (.ofPath "/proj/barrel.ts") = .ok
      ⟨[], [Module.wildcardEdge "./facade" false 0, Module.wildcardEdge "./origin" false 26]⟩ := by
    decide +kernel
  have hfacade : barrelItem packagedBarrel (.reExport (Module.wildcardEdge "./facade" false 0)) =
      .ok [⟨packageWildcard "pkg" false, true⟩] := by
    decide +kernel
  have horigin : barrelItem packagedBarrel (.reExport (Module.wildcardEdge "./origin" false 26)) =
      .ok [⟨⟨"n", "/proj/origin.ts", "n", false, .named, false, none, true⟩, true⟩] := by
    decide +kernel
  refine ⟨?_, by decide +kernel⟩
  exact outcomeOf_wildcard (by decide +kernel) rfl (by decide +kernel) hread
    (Surface.items_of_pairwise rfl (by decide)) (.cons hfacade (.cons horigin .nil))

/--
Without the conditions the two disagree: over a re-export that leads back to
the barrel, over a name exported twice, and over a package behind a wildcard
that does not have the name.
-/
theorem named_disagrees_with_wildcard :
    (outcomeOf crossedBarrels (Module.wildcardEdge "./barrel" false 0) =
        .ok [⟨"n", "/proj/origin.ts", "n", false, .named, false, some "n", false⟩] ∧
      outcomeOf crossedBarrels (Module.namedEdge "./barrel" "n" "n" false 9) =
        .error (.ambiguous "/proj/barrel.ts" "n" [("/proj/index.ts", "n"),
          ("/proj/barrel.ts", "n"), ("/proj/crossing.ts", "n")] .cycle)) ∧
    (outcomeOf doubledBarrel (Module.wildcardEdge "./barrel" false 0) =
        .ok [⟨"n", "/proj/other.ts", "n", false, .named, false, some "n", false⟩] ∧
      outcomeOf doubledBarrel (Module.namedEdge "./barrel" "n" "n" false 9) =
        .ok [⟨"n", "/proj/barrel.ts", "n", false, .named, false, some "n", false⟩]) ∧
    (outcomeOf packagedBarrel (Module.wildcardEdge "./barrel" false 0) =
        .ok [packageWildcard "pkg" false,
          ⟨"n", "/proj/origin.ts", "n", false, .named, false, none, true⟩] ∧
      outcomeOf packagedBarrel (Module.namedEdge "./barrel" "n" "n" false 9) =
        .ok [fromPackage "pkg" "n" "n" false]) :=
  ⟨outcomeOf_crossedBarrels, outcomeOf_doubledBarrel, outcomeOf_packagedBarrel⟩

end FlatExports.Resolution
