import FlatExports.Proofs.Module.Items
import FlatExports.Proofs.Survey
import FlatExports.Resolution.Expand
import Mathlib.Logic.Relation

/-!
Searching the wildcards of a module graph for a name.

`Finds` states a depth-first search: the explicit items of a module come
first, then the modules its internal wildcards lead to, except those on the
path to it.  The search never enters a module of its path again, and still it
finds a name exactly if some module that wildcards lead to exports it.
-/

namespace FlatExports.Resolution

open Relation

variable {resolver : Resolver} {read : Survey.Reader} {name : String}

/-! ## Wildcards as edges -/

def Forwards (resolver : Resolver) (read : Survey.Reader) (module target : Location) : Prop :=
  ∃ surface, read module = .ok surface ∧
    ∃ edge ∈ surface.wildcards, Specifier.isInternal edge.specifier ∧
      resolver.locate edge.specifier module = .ok target

def targetsOf (resolver : Resolver) (module : Location) (items : List Item) :
    Except Failure (List Location) :=
  (items.filterMap Item.internalWildcard?).mapM fun edge =>
    resolver.locate edge.specifier module

def ExportsName (read : Survey.Reader) (name : String) (module : Location) : Prop :=
  ∃ surface, read module = .ok surface ∧ ∃ item ∈ surface.items, item.name? = some name

theorem forwards_iff_mem_targets {module target : Location} {surface : Surface}
    {targets : List Location} (hread : read module = .ok surface)
    (htargets : targetsOf resolver module surface.items = .ok targets) :
    Forwards resolver read module target ↔ target ∈ targets := by
  rw [targetsOf, mapM_eq_ok] at htargets
  constructor
  · rintro ⟨other, hother, edge, hedge, hinternal, hlocate⟩
    obtain rfl := ok_inj hread hother
    obtain ⟨hmem, hkind⟩ := Surface.mem_wildcards.mp hedge
    have hitem : edge ∈ surface.items.filterMap Item.internalWildcard? :=
      List.mem_filterMap.mpr ⟨.reExport edge, Surface.mem_items_reExport.mpr hmem,
        Item.internalWildcard?_eq_some.mpr ⟨rfl, hkind, hinternal⟩⟩
    obtain ⟨found, hfound, hok⟩ := exists_right_of_forall₂ htargets hitem
    obtain rfl := ok_inj hlocate hok
    exact hfound
  · intro htarget
    obtain ⟨edge, hedge, hlocate⟩ := exists_left_of_forall₂ htargets htarget
    obtain ⟨item, hitem, hwildcard⟩ := List.mem_filterMap.mp hedge
    obtain ⟨rfl, hkind, hinternal⟩ := Item.internalWildcard?_eq_some.mp hwildcard
    have hmem := Surface.mem_wildcards.mpr ⟨Surface.mem_items_reExport.mp hitem, hkind⟩
    exact ⟨surface, hread, edge, hmem, hinternal, hlocate⟩

/-! ## Paths around a set of places -/

/-- The steps of a relation that do not enter some places. -/
def Around {α : Type} (step : α → α → Prop) (avoid : List α) (a b : α) : Prop :=
  step a b ∧ b ∉ avoid

/-- A path can be shortened so that it never comes back to its start. -/
theorem reflTransGen_around_iff {α : Type} {step : α → α → Prop} {avoid : List α}
    {a b : α} :
    ReflTransGen (Around step avoid) a b ↔
      b = a ∨ ∃ c, step a c ∧ c ∉ a :: avoid ∧
        ReflTransGen (Around step (a :: avoid)) c b := by
  constructor
  · intro hpath
    induction hpath with
    | refl => exact .inl rfl
    | @tail x y _ hstep ih =>
        by_cases hback : y = a
        · exact .inl hback
        · have hfresh : y ∉ a :: avoid := by simp [hback, hstep.2]
          rcases ih with rfl | ⟨c, hfirst, hc, hrest⟩
          · exact .inr ⟨y, hstep.1, hfresh, .refl⟩
          · exact .inr ⟨c, hfirst, hc, hrest.tail ⟨hstep.1, hfresh⟩⟩
  · rintro (rfl | ⟨c, hfirst, hc, hrest⟩)
    · exact .refl
    · have hwide : ReflTransGen (Around step avoid) c b :=
        ReflTransGen.mono
          (fun x y hstep => ⟨hstep.1, fun hy => hstep.2 (List.mem_cons_of_mem a hy)⟩)
          _ _ hrest
      exact hwide.head ⟨hfirst, fun hmem => hc (List.mem_cons_of_mem a hmem)⟩

theorem not_mem_of_around {α : Type} {step : α → α → Prop} {avoid : List α} {a b : α}
    (hpath : ReflTransGen (Around step avoid) a b) (ha : a ∉ avoid) : b ∉ avoid := by
  cases hpath with
  | refl => exact ha
  | tail _ hstep => exact hstep.2

theorem around_nil {α : Type} {step : α → α → Prop} : Around step [] = step := by
  funext a b
  simp [Around]

/-! ## The search -/

/-- Where a search ends: a module and the item that publishes the name there. -/
structure Provider where
  module : Location
  item : Item
  deriving DecidableEq, Repr

/-- What a search for a name in a module comes to, on a path of modules above it. -/
inductive Finds (resolver : Resolver) (read : Survey.Reader) (name : String) :
    List Location → Location → Option Provider → Prop
  | here {path module surface item}
      (hread : read module = .ok surface)
      (hitem : surface.explicitItem? name = some item) :
      Finds resolver read name path module (some ⟨module, item⟩)
  | through {path module surface before target after provider}
      (hread : read module = .ok surface)
      (hnone : surface.explicitItem? name = none)
      (htargets : targetsOf resolver module surface.items = .ok (before ++ target :: after))
      (hbefore : ∀ passed ∈ before, passed ∉ module :: path →
        Finds resolver read name (module :: path) passed none)
      (hfresh : target ∉ module :: path)
      (hfound : Finds resolver read name (module :: path) target (some provider)) :
      Finds resolver read name path module (some provider)
  | nowhere {path module surface targets}
      (hread : read module = .ok surface)
      (hnone : surface.explicitItem? name = none)
      (htargets : targetsOf resolver module surface.items = .ok targets)
      (hall : ∀ passed ∈ targets, passed ∉ module :: path →
        Finds resolver read name (module :: path) passed none) :
      Finds resolver read name path module none

namespace Finds

theorem provider_reached {path : List Location} {module : Location} {provider : Provider}
    (hfinds : Finds resolver read name path module (some provider)) :
    ReflTransGen (Around (Forwards resolver read) path) module provider.module ∧
      ExportsName read name provider.module := by
  generalize hfound : some provider = found at hfinds
  induction hfinds with
  | @here path module surface item hread hitem =>
      cases hfound
      have hsome : (surface.explicitItem? name).isSome := by simp [hitem]
      exact ⟨.refl, surface, hread, Surface.explicitItem?_isSome_iff.mp hsome⟩
  | through hread hnone htargets _ hfresh _ _ ih =>
      obtain ⟨hpath, hexports⟩ := ih hfound
      have hstep := (forwards_iff_mem_targets hread htargets).mpr List.mem_append_cons_self
      exact ⟨reflTransGen_around_iff.mpr (.inr ⟨_, hstep, hfresh, hpath⟩), hexports⟩
  | nowhere => cases hfound

/-- Passing by the modules of the path loses no name: another way leads to it. -/
theorem nothing_missed {path : List Location} {module other : Location}
    (hfinds : Finds resolver read name path module none)
    (hpath : ReflTransGen (Around (Forwards resolver read) path) module other) :
    ¬ExportsName read name other := by
  generalize hfound : none = found at hfinds
  induction hfinds generalizing other with
  | here => cases hfound
  | through => cases hfound
  | nowhere hread hnone htargets _ ih =>
      rcases reflTransGen_around_iff.mp hpath with rfl | ⟨target, hstep, hfresh, hrest⟩
      · rintro ⟨surface, hsurface, hitem⟩
        rw [hread] at hsurface
        cases hsurface
        rw [← Surface.explicitItem?_isSome_iff, hnone] at hitem
        cases hitem
      · have htarget := (forwards_iff_mem_targets hread htargets).mp hstep
        exact ih target htarget hfresh hrest rfl

theorem isSome_iff {path : List Location} {module : Location} {found : Option Provider}
    (hfinds : Finds resolver read name path module found) :
    found.isSome ↔ ∃ other,
      ReflTransGen (Around (Forwards resolver read) path) module other ∧
        ExportsName read name other := by
  cases found with
  | none =>
      simp only [Option.isSome_none, Bool.false_eq_true, false_iff, not_exists, not_and]
      exact fun other hpath => hfinds.nothing_missed hpath
  | some provider =>
      simp only [Option.isSome_some, true_iff]
      exact ⟨provider.module, hfinds.provider_reached⟩

theorem first_of_split {α : Type} {before after before' after' : List α} {a b : α}
    (h : before ++ a :: after = before' ++ b :: after') : a = b ∨ a ∈ before' ∨ b ∈ before := by
  induction before generalizing before' with
  | nil =>
      cases before' with
      | nil => exact .inl (List.cons.inj h).1
      | cons first rest => exact .inr (.inl (by simp [(List.cons.inj h).1]))
  | cons first rest ih =>
      cases before' with
      | nil => exact .inr (.inr (by simp [(List.cons.inj h).1]))
      | cons first' rest' =>
          rcases ih (List.cons.inj h).2 with heq | ha | hb
          · exact .inl heq
          · exact .inr (.inl (List.mem_cons_of_mem _ ha))
          · exact .inr (.inr (List.mem_cons_of_mem _ hb))

theorem unique {path : List Location} {module : Location} {found other : Option Provider}
    (hfinds : Finds resolver read name path module found)
    (hother : Finds resolver read name path module other) : found = other := by
  induction hfinds generalizing other with
  | here hread hitem =>
      cases hother with
      | here hread' hitem' =>
          obtain rfl := ok_inj hread hread'
          rw [hitem] at hitem'
          cases hitem'
          rfl
      | through hread' hnone' | nowhere hread' hnone' =>
          obtain rfl := ok_inj hread hread'
          rw [hitem] at hnone'
          cases hnone'
  | through hread hnone htargets hbefore hfresh hfound ihbefore ihfound =>
      cases hother with
      | here hread' hitem' =>
          obtain rfl := ok_inj hread hread'
          rw [hnone] at hitem'
          cases hitem'
      | through hread' _ htargets' hbefore' hfresh' hfound' =>
          obtain rfl := ok_inj hread hread'
          have hsplit := ok_inj htargets htargets'
          -- Of two targets that end a search, one would have ended the other search before.
          rcases first_of_split hsplit with rfl | hpassed | hpassed
          · exact ihfound hfound'
          · cases ihfound (hbefore' _ hpassed hfresh)
          · cases ihbefore _ hpassed hfresh' hfound'
      | nowhere hread' _ htargets' hall' =>
          obtain rfl := ok_inj hread hread'
          obtain rfl := ok_inj htargets htargets'
          exact ihfound (hall' _ (by simp) hfresh)
  | nowhere hread hnone htargets _ ih =>
      cases hother with
      | here hread' hitem' =>
          obtain rfl := ok_inj hread hread'
          rw [hnone] at hitem'
          cases hitem'
      | through hread' _ htargets' _ hfresh' hfound' =>
          obtain rfl := ok_inj hread hread'
          obtain rfl := ok_inj htargets htargets'
          exact ih _ (by simp) hfresh' hfound'
      | nowhere => rfl

end Finds

/-! ## Searching one target after the other -/

inductive FindsAmong (resolver : Resolver) (read : Survey.Reader) (name : String)
    (path : List Location) : List Location → Option Provider → Prop
  | nil : FindsAmong resolver read name path [] none
  | first {target targets provider}
      (hfresh : target ∉ path)
      (hfound : Finds resolver read name path target (some provider)) :
      FindsAmong resolver read name path (target :: targets) (some provider)
  | pass {target targets found}
      (hmiss : target ∉ path → Finds resolver read name path target none)
      (hrest : FindsAmong resolver read name path targets found) :
      FindsAmong resolver read name path (target :: targets) found

theorem FindsAmong.split {path targets : List Location} {found : Option Provider}
    (hfinds : FindsAmong resolver read name path targets found) :
    match found with
    | none => ∀ passed ∈ targets, passed ∉ path → Finds resolver read name path passed none
    | some provider => ∃ before target after, targets = before ++ target :: after ∧
        (∀ passed ∈ before, passed ∉ path → Finds resolver read name path passed none) ∧
        target ∉ path ∧ Finds resolver read name path target (some provider) := by
  induction hfinds with
  | nil => simp
  | @first target targets provider hfresh hfound =>
      exact ⟨[], target, targets, rfl, by simp, hfresh, hfound⟩
  | @pass target targets found hmiss _ ih =>
      cases found with
      | none => exact List.forall_mem_cons.mpr ⟨hmiss, ih⟩
      | some provider =>
          obtain ⟨before, next, after, rfl, hbefore, hfresh, hfound⟩ := ih
          exact ⟨target :: before, next, after, rfl, List.forall_mem_cons.mpr ⟨hmiss, hbefore⟩,
            hfresh, hfound⟩

theorem Finds.of_targets {path targets : List Location} {module : Location} {surface : Surface}
    {found : Option Provider} (hread : read module = .ok surface)
    (hnone : surface.explicitItem? name = none)
    (htargets : targetsOf resolver module surface.items = .ok targets)
    (hfinds : FindsAmong resolver read name (module :: path) targets found) :
    Finds resolver read name path module found := by
  have hsplit := hfinds.split
  cases found with
  | none => exact .nowhere hread hnone htargets hsplit
  | some provider =>
      obtain ⟨before, target, after, rfl, hbefore, hfresh, hfound⟩ := hsplit
      exact .through hread hnone htargets hbefore hfresh hfound

end FlatExports.Resolution
