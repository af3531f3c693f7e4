import FlatExports.Proofs.Resolution.Depth

/-!
Straight chains.

A chain in which every module leads to the next and the last one defines what
is sought fits the limit exactly if it has no more modules than the limit
allows.  A trace counts the hops it has made and an expansion the modules it is
in, but both come to the number of modules.
-/

namespace FlatExports.Resolution

open Relation Resolved Collected

variable {resolver : Resolver} {read : Survey.Reader} {module root : Location}
  {rest : List Location} {name : String} {surface : Surface} {chain : List Hop} {typed : Bool}
  {visiting : List Location} {includeDefault : Bool}

/-! ## Chains that fit a limit or exceed it -/

section

variable {α β : Type} {limit length : Nat} {accepts : α → Prop} {accepts' : β → Prop}
  {outcome : Except Failure α} {next : α → Except Failure β}

/-- A chain of some length has an outcome that is accepted if it fits a limit, and else exceeds
the limit. -/
def Fits (limit length : Nat) (accepts : α → Prop) (outcome : Except Failure α) : Prop :=
  if length ≤ limit then ∃ value, outcome = .ok value ∧ accepts value else Exhausted outcome

theorem Fits.succ_iff :
    Fits (limit + 1) (length + 1) accepts outcome ↔ Fits limit length accepts outcome := by
  simp [Fits]

theorem Fits.bind (h : Fits limit length accepts outcome)
    (hnext : ∀ value, accepts value → ∃ result, next value = .ok result ∧ accepts' result) :
    Fits limit length accepts' (outcome >>= next) := by
  unfold Fits at h ⊢
  split
  · rename_i hle
    rw [if_pos hle] at h
    obtain ⟨value, rfl, hvalue⟩ := h
    exact hnext value hvalue
  · rename_i hlt
    rw [if_neg hlt] at h
    exact h.bind

theorem Fits.of_ok {value : α} (hle : length ≤ limit) (h : accepts value) :
    Fits limit length accepts (.ok value) := by
  rw [Fits, if_pos hle]
  exact ⟨value, rfl, h⟩

theorem Fits.of_eq_ok {value : α} (h : Fits limit length accepts outcome)
    (hok : outcome = .ok value) : accepts value := by
  unfold Fits at h
  split at h
  · obtain ⟨other, hother, haccepts⟩ := h
    rwa [ok_inj hok hother]
  · obtain ⟨failure, hfailure, -⟩ := h
    cases hok.symm.trans hfailure

theorem Fits.exists_iff (h : Fits limit length (fun _ => True) outcome)
    (hvalue : ∀ value, outcome = .ok value → accepts value) :
    (∃ value, outcome = .ok value ∧ accepts value) ↔ length ≤ limit := by
  unfold Fits at h
  split at h
  · rename_i hle
    obtain ⟨value, hok, -⟩ := h
    exact iff_of_true ⟨value, hok, hvalue value hok⟩ hle
  · rename_i hlt
    obtain ⟨failure, rfl, -⟩ := h
    simp [hlt]

end

/-! ## Chains of named re-exports -/

/-- A chain of modules, the first of which is asked for a name.  Each re-exports what it is asked
for from the next one, which it asks for the imported name; the last one defines it. -/
inductive NamedChain (resolver : Resolver) (read : Survey.Reader) :
    Location → List Location → String → Hop → Prop
  | defined {module : Location} {surface : Surface} {name : String}
      (hread : read module = .ok surface)
      (hdefined : surface.definitionsOf name ≠ []) :
      NamedChain resolver read module [] name ⟨module, name⟩
  | link {module target : Location} {surface : Surface} {name imported : String} {edge : ReExport}
      {rest : List Location} {last : Hop}
      (hread : read module = .ok surface)
      (hundefined : surface.definitionsOf name = [])
      (hedge : surface.reExportOf? name = some edge)
      (hkind : edge.kind ≠ .namespaced)
      (himported : edge.importedName = some imported)
      (hinternal : Specifier.isInternal edge.specifier = true)
      (hlocate : resolver.locate edge.specifier module = .ok target)
      (hrest : NamedChain resolver read target rest imported last) :
      NamedChain resolver read module (target :: rest) name last

theorem NamedChain.congr {resolver' : Resolver} {last : Hop}
    (hlocate : resolver'.locate = resolver.locate)
    (hlinks : NamedChain resolver read module rest name last) :
    NamedChain resolver' read module rest name last := by
  induction hlinks with
  | defined hread hdefined => exact .defined hread hdefined
  | link hread hundefined hedge hkind himported hinternal htarget _ ih =>
      exact .link hread hundefined hedge hkind himported hinternal (hlocate ▸ htarget) ih

def definedAt (last : Hop) : Provenance := ⟨.named, last.module.written, last.name, false⟩

section

variable {last : Hop} {search : Search} {edge : ReExport} {imported : String} {target : Location}

theorem trace_fits_succ {left length : Nat} {accepts : Option Resolved → Prop}
    (hfresh : (⟨module, name⟩ : Hop) ∉ chain) (hread : read module = .ok surface)
    (hsearch : ∀ left, Fits left length accepts ((searchSurface resolver
      (trace resolver left (chain ++ [⟨module, name⟩])) module name typed
      (chain ++ [⟨module, name⟩]) surface).run read)) :
    Fits left (length + 1) accepts ((trace resolver left chain module name typed).run read) := by
  rw [run_trace, if_neg hfresh]
  cases left with
  | zero =>
      rw [Fits, if_neg (by omega)]
      exact ⟨_, rfl, .inr rfl⟩
  | succ left =>
      rw [Fits.succ_iff, hread]
      exact hsearch left

theorem searchTarget_fits {limit length : Nat} {accepts : Resolved → Prop}
    (hlocate : resolver.locate edge.specifier module = .ok target)
    (hsearch : Fits limit length (fun result => ∃ found, result = some found ∧ accepts found)
      ((search target imported typed).run read)) :
    Fits limit length accepts
      ((searchTarget resolver search module edge imported typed).run read) := by
  rw [searchTarget, Survey.run_bind, Survey.run_ofExcept, hlocate]
  change Fits limit length accepts (Survey.run read (_ >>= _))
  rw [Survey.run_bind]
  refine hsearch.bind ?_
  rintro _ ⟨found, rfl, hfound⟩
  exact ⟨found, rfl, hfound⟩

theorem trace_fits {left : Nat} (hlinks : NamedChain resolver read module rest name last)
    (hnodup : (module :: rest).Nodup) (hfresh : ∀ hop ∈ chain, hop.module ∉ module :: rest) :
    Fits left (rest.length + 1)
      (fun result => ∃ found : Resolved, result = some found ∧ found.provenance = definedAt last)
      ((trace resolver left chain module name typed).run read) := by
  induction hlinks generalizing left chain typed with
  | @defined module surface name hread hdefined =>
      refine trace_fits_succ (fun hmem => hfresh _ hmem List.mem_cons_self) hread fun left => ?_
      obtain ⟨first, others, hdefinitions⟩ := List.exists_cons_of_ne_nil hdefined
      rw [searchSurface, hdefinitions]
      exact .of_ok (Nat.zero_le _) ⟨_, rfl, rfl⟩
  | @link module target surface name imported edge rest last hread hundefined hedge hkind himported
      hinternal hlocate hrest ih =>
      obtain ⟨hhere, hnodup⟩ := List.nodup_cons.mp hnodup
      refine trace_fits_succ (fun hmem => hfresh _ hmem List.mem_cons_self) hread fun left => ?_
      have hlonger : ∀ hop ∈ chain ++ [⟨module, name⟩], hop.module ∉ target :: rest := by
        rw [List.forall_mem_append, List.forall_mem_singleton]
        exact ⟨fun hop hhop hmem => hfresh hop hhop (List.mem_cons_of_mem _ hmem), hhere⟩
      rw [searchSurface, hundefined, hedge]
      dsimp only
      rw [Survey.run_bind, throughEdge, if_neg hkind, Survey.run_bind, Survey.run_ofExcept,
        nameOf_eq_ok.mpr himported]
      change Fits _ _ _ (Survey.run read (if _ then _ else _) >>= _)
      rw [if_pos hinternal]
      exact (searchTarget_fits hlocate (ih hnodup hlonger)).bind fun found hfound =>
        ⟨some found, rfl, found, rfl, hfound⟩

theorem follow_fits (hexported : edge.exportedName = some name)
    (himported : edge.importedName = some imported)
    (hinternal : Specifier.isInternal edge.specifier = true)
    (hlocate : resolver.locate edge.specifier module = .ok target)
    (hlinks : NamedChain resolver read target rest imported last)
    (hnodup : (module :: target :: rest).Nodup) :
    Fits (resolver.maxDepth - 1) (rest.length + 1) (fun found => found.provenance = definedAt last)
      ((follow resolver module edge).run read) := by
  obtain ⟨hhere, hnodup⟩ := List.nodup_cons.mp hnodup
  rw [follow, Survey.run_bind, Survey.run_ofExcept, edgeNames_eq_ok.mpr ⟨hexported, himported⟩]
  change Fits _ _ _ (Survey.run read (if _ then _ else _))
  rw [if_pos hinternal, Survey.run_bind]
  refine Fits.bind (searchTarget_fits hlocate (trace_fits hlinks hnodup ?_)) ?_
  · simpa using hhere
  · exact fun found hfound => ⟨_, rfl, hfound⟩

end

/-! ## Modules with one link -/

def Named (read : Survey.Reader) : Prop :=
  ∀ module surface, read module = .ok surface → ∀ definition ∈ surface.definitions,
    definition.exportName?.isSome

theorem named_loadSurface [Syntax.Grammar] (volume : Volume) :
    Named (Module.loadSurface volume) :=
  fun _ _ hread definition hmem =>
    ((Module.wellFormed_of_loadSurface hread).definitions definition hmem).exportName?

section

variable {limit length : Nat} {collect : Item → Survey (List Collected)} {items : List Item}

theorem exists_collectAll
    (hall : ∀ item ∈ items, ∃ entries, (collect item).run read = .ok entries) :
    ∃ collected, (collectAll collect items).run read = .ok collected := by
  obtain ⟨lists, hlists⟩ := exists_forall₂ hall
  exact ⟨_, collectAll_eq_ok.mpr ⟨lists, hlists, rfl⟩⟩

theorem exhausted_collectAll
    (hall : ∀ item ∈ items, (∃ entries, (collect item).run read = .ok entries) ∨
      Exhausted ((collect item).run read))
    (hone : ∃ item ∈ items, Exhausted ((collect item).run read)) :
    Exhausted ((collectAll collect items).run read) := by
  induction items with
  | nil => simp at hone
  | cons item rest ih =>
      rw [List.forall_mem_cons] at hall
      rw [collectAll, Survey.run_bind]
      rcases hall.1 with ⟨entries, hentries⟩ | hdeep
      · rw [hentries]
        change Exhausted (Survey.run read (_ >>= _))
        rw [Survey.run_bind]
        refine (ih hall.2 ?_).bind
        obtain ⟨deep, hmem, failure, hfailure, hdeep⟩ := hone
        rcases List.mem_cons.mp hmem with rfl | hmem
        · cases hentries.symm.trans hfailure
        · exact ⟨deep, hmem, failure, hfailure, hdeep⟩
      · exact hdeep.bind

theorem collectAll_fits
    (hall : ∀ item ∈ items, (∃ entries, (collect item).run read = .ok entries) ∨
      Fits limit length (fun _ => True) ((collect item).run read))
    (hone : length = 0 ∨
      ∃ item ∈ items, Fits limit length (fun _ => True) ((collect item).run read)) :
    Fits limit length (fun _ => True) ((collectAll collect items).run read) := by
  unfold Fits at hall hone ⊢
  split
  · rename_i hle
    simp only [if_pos hle, and_true, or_self] at hall ⊢
    exact exists_collectAll hall
  · rename_i hlt
    simp only [if_neg hlt] at hall hone
    exact exhausted_collectAll hall (hone.resolve_left (by omega))

theorem exists_collectItem {expand : Expansion} {definition : Definition}
    (hnamed : definition.exportName?.isSome) :
    ∃ entries, (collectItem resolver expand visiting module includeDefault
      (.definition definition)).run read = .ok entries := by
  obtain ⟨name, hname⟩ := Option.isSome_iff_exists.mp hnamed
  rw [collectItem]
  split
  · exact ⟨_, Survey.run_bind_eq_ok.mpr ⟨_, localExport_eq_ok.mpr ⟨name, hname, rfl⟩, rfl⟩⟩
  · exact ⟨[], rfl⟩

end

section

variable {left length : Nat} {edge : ReExport} (hnamed : Named read)
  (hread : read module = .ok surface)

theorem expand_fits_zero :
    Fits 0 (length + 1) (fun _ => True)
      ((Resolution.expand resolver 0 visiting includeDefault module).run read) := by
  rw [Fits, if_neg (by omega)]
  exact ⟨_, rfl, .inl rfl⟩

include hnamed hread

theorem expand_fits_succ
    (hlinks : ∀ further, left = further + 1 → ∀ edge ∈ surface.reExports,
      Fits further length (fun _ => True) ((collectItem resolver
        (Resolution.expand resolver further (module :: visiting) false) (module :: visiting) module
        includeDefault (.reExport edge)).run read))
    (hsome : length = 0 ∨ surface.reExports ≠ []) :
    Fits left (length + 1) (fun _ => True)
      ((Resolution.expand resolver left visiting includeDefault module).run read) := by
  cases left with
  | zero => exact expand_fits_zero
  | succ left =>
      rw [run_expand_succ, hread, Fits.succ_iff]
      change Fits _ _ _ (Survey.run read (collectAll _ _) >>= _)
      refine Fits.bind (collectAll_fits ?_ ?_) fun _ _ => ⟨_, rfl, trivial⟩
      · intro item hitem
        cases item with
        | definition definition =>
            exact .inl (exists_collectItem
              (hnamed module surface hread definition (Surface.mem_items_definition.mp hitem)))
        | reExport edge =>
            exact .inr (hlinks left rfl edge (Surface.mem_items_reExport.mp hitem))
      · refine hsome.imp_right fun hne => ?_
        obtain ⟨edge, hedge⟩ := List.exists_mem_of_ne_nil _ hne
        exact ⟨_, Surface.mem_items_reExport.mpr hedge, hlinks left rfl edge hedge⟩

end

/-! ## Roots with one re-export -/

def Straight (read : Survey.Reader) (module : Location) (name : String) : Prop :=
  ∀ surface, read module = .ok surface → ∀ edge ∈ surface.reExports,
    surface.definitionsOf name = [] ∧ surface.reExportOf? name = some edge

/-- An export under a name goes back to a definition. -/
def Provides (name : String) (last : Hop) (exports : List Resolved) : Prop :=
  ∃ entry ∈ exports, entry.exportedName = name ∧ entry.provenance = definedAt last

section

variable {left : Nat} {last : Hop} {exports : List Resolved}

theorem expand_fits_named (hnamed : Named read)
    (hlinks : NamedChain resolver read module rest name last) (hnodup : (module :: rest).Nodup)
    (hstraight : Straight read module name) :
    Fits resolver.maxDepth (rest.length + 1) (fun _ => True)
      ((Resolution.expand resolver resolver.maxDepth visiting true module).run read) := by
  cases hlinks with
  | @defined _ surface _ hread hdefined =>
      refine expand_fits_succ hnamed hread (fun _ _ edge hedge => ?_) (.inl rfl)
      exact absurd (hstraight surface hread edge hedge).1 hdefined
  | @link _ target surface _ imported edge rest _ hread hundefined hedge hkind himported hinternal
      hlocate hrest =>
      obtain ⟨hmem, hwildcard, hexported⟩ := Surface.mem_of_reExportOf? hedge
      refine expand_fits_succ hnamed hread (fun further hfurther other hother => ?_)
        (.inr (List.ne_nil_of_mem hmem))
      obtain rfl := Option.some.inj ((hstraight surface hread other hother).2.symm.trans hedge)
      have hfollow := follow_fits hexported himported hinternal hlocate hrest hnodup
      rw [hfurther, Nat.add_sub_cancel] at hfollow
      have hitem : (Item.reExport other).wildcard? = none := by simp [Item.wildcard?, hwildcard]
      rw [collectItem_passed hitem (.inl rfl), itemExport, if_neg hkind, Survey.run_bind]
      exact hfollow.bind fun _ _ => ⟨_, rfl, trivial⟩

theorem provides_of_symbol {symbol : Resolved} (hname : symbol.mergeKey = .name name)
    (hprovenance : symbol.provenance = definedAt last)
    (hsymbol : symbolOf exports (.name name) = some symbol) : Provides name last exports := by
  obtain ⟨entry, hentry, rfl⟩ := mem_of_symbolOf hsymbol
  rw [mergeKey_asValue] at hname
  exact ⟨entry, hentry, (mergeKey_eq_name.mp hname).2, by simpa using hprovenance⟩

theorem provides_of_items (hread : read module = .ok surface)
    (hsome : ∃ item ∈ surface.items, item.name? = some name)
    (hall : ∀ item ∈ surface.items, item.name? = some name → ∀ found,
      (itemExport resolver module item).run read = .ok found → found.provenance = definedAt last)
    (hrun : (Resolution.expand resolver left visiting true module).run read = .ok exports) :
    Provides name last exports := by
  obtain ⟨further, surface', lists, -, hread', hcollects, rfl⟩ := expand_eq_ok.mp hrun
  obtain rfl := ok_inj hread hread'
  have hrel : Option.Rel (fun item found => (itemExport resolver module item).run read = .ok found)
      (surface.explicitItem? name) (explicit? lists.flatten name) :=
    explicit?_of_collects (.inr rfl) hcollects
  obtain ⟨item, hitem⟩ := Option.isSome_iff_exists.mp (Surface.explicitItem?_isSome_iff.mpr hsome)
  rw [hitem] at hrel
  generalize hexplicit : explicit? lists.flatten name = shadow at hrel
  cases hrel with
  | @some _ found hfound =>
      have hmem := Surface.mem_items_of_explicitItem? hitem
      have hname := Surface.name?_of_explicitItem? hitem
      have hexplicitItem : item.wildcard? = none := by
        cases item with
        | definition definition => rfl
        | reExport edge =>
            by_cases hkind : edge.kind = .wildcard
            · simp [Item.name?, hkind] at hname
            · simp [Item.wildcard?, hkind]
      obtain ⟨hpublished, hkey⟩ := mergeKey_of_itemExport hexplicitItem hfound
      rw [hname, Option.some.injEq] at hpublished
      have hsymbol : symbolOf (merge lists.flatten) (.name name) = some found.asValue := by
        rw [symbolOf_merge, symbolOf_visible_name, hexplicit]
        rfl
      exact provides_of_symbol (by rw [mergeKey_asValue, hkey, hpublished])
        (by simpa using hall item hmem hname found hfound) hsymbol

theorem provides_of_named (hlinks : NamedChain resolver read module rest name last)
    (hnodup : (module :: rest).Nodup) (hstraight : Straight read module name)
    (hrun : (Resolution.expand resolver left visiting true module).run read = .ok exports) :
    Provides name last exports := by
  cases hlinks with
  | @defined _ surface _ hread hdefined =>
      obtain ⟨definition, hdefinition⟩ := List.exists_mem_of_ne_nil _ hdefined
      obtain ⟨hmem, hcalled⟩ := List.mem_filter.mp hdefinition
      refine provides_of_items hread ⟨.definition definition,
        Surface.mem_items_definition.mpr hmem,
          by simpa [Item.name?, Definition.isCalled] using hcalled⟩ ?_ hrun
      intro item hitem hname found hfound
      cases item with
      | definition definition =>
          obtain ⟨exported, hexported, rfl⟩ := localExport_eq_ok.mp hfound
          obtain rfl := Option.some.inj (hexported.symm.trans hname)
          rfl
      | reExport edge =>
          have hedge := hstraight surface hread edge (Surface.mem_items_reExport.mp hitem)
          exact absurd hedge.1 hdefined
  | @link _ target surface _ imported edge rest _ hread hundefined hedge hkind himported hinternal
      hlocate hrest =>
      obtain ⟨hmem, hwildcard, hexported⟩ := Surface.mem_of_reExportOf? hedge
      refine provides_of_items hread ⟨.reExport edge, Surface.mem_items_reExport.mpr hmem,
        by simpa [Item.name?, hwildcard] using hexported⟩ ?_ hrun
      intro item hitem hname found hfound
      cases item with
      | definition definition =>
          have hdefined : definition ∈ surface.definitionsOf name :=
            List.mem_filter.mpr ⟨Surface.mem_items_definition.mp hitem,
              by simpa [Item.name?, Definition.isCalled] using hname⟩
          rw [hundefined] at hdefined
          cases hdefined
      | reExport other =>
          have hother := (hstraight surface hread other (Surface.mem_items_reExport.mp hitem)).2
          obtain rfl := Option.some.inj (hother.symm.trans hedge)
          rw [itemExport, if_neg hkind] at hfound
          exact (follow_fits hexported himported hinternal hlocate hrest hnodup).of_eq_ok hfound

end

/-! ## Chains of wildcards -/

/-- A chain of modules, each of which re-exports all of the next one and nothing else.  Only the
last one defines a name. -/
inductive WildcardChain (resolver : Resolver) (read : Survey.Reader) (name : String) :
    Location → List Location → Location → Prop
  | defined {module : Location} {surface : Surface}
      (hread : read module = .ok surface)
      (hends : surface.reExports = [])
      (hdefined : surface.definitionsOf name ≠ []) :
      WildcardChain resolver read name module [] module
  | link {module target last : Location} {surface : Surface} {edge : ReExport}
      {rest : List Location}
      (hread : read module = .ok surface)
      (hlinks : surface.reExports = [edge])
      (hundefined : surface.definitionsOf name = [])
      (hkind : edge.kind = .wildcard)
      (hinternal : Specifier.isInternal edge.specifier = true)
      (hlocate : resolver.locate edge.specifier module = .ok target)
      (hrest : WildcardChain resolver read name target rest last) :
      WildcardChain resolver read name module (target :: rest) last

theorem WildcardChain.congr {resolver' : Resolver} {last : Location}
    (hlocate : resolver'.locate = resolver.locate)
    (hlinks : WildcardChain resolver read name module rest last) :
    WildcardChain resolver' read name module rest last := by
  induction hlinks with
  | defined hread hends hdefined => exact .defined hread hends hdefined
  | link hread honly hundefined hkind hinternal htarget _ ih =>
      exact .link hread honly hundefined hkind hinternal (hlocate ▸ htarget) ih

section

variable {left : Nat} {last : Location} {exports : List Resolved}

theorem fresh_below (hnodup : (module :: rest).Nodup)
    (hfresh : ∀ other ∈ visiting, other ∉ module :: rest) :
    ∀ other ∈ module :: visiting, other ∉ rest := by
  rw [List.forall_mem_cons]
  exact ⟨(List.nodup_cons.mp hnodup).1,
    fun other hother hmem => hfresh other hother (List.mem_cons_of_mem _ hmem)⟩

theorem expand_fits_wildcards (hnamed : Named read)
    (hlinks : WildcardChain resolver read name module rest last) (hnodup : (module :: rest).Nodup)
    (hfresh : ∀ other ∈ visiting, other ∉ module :: rest) :
    Fits left (rest.length + 1) (fun _ => True)
      ((Resolution.expand resolver left visiting includeDefault module).run read) := by
  induction hlinks generalizing left visiting includeDefault with
  | defined hread hends =>
      exact expand_fits_succ hnamed hread (by simp [hends]) (.inl rfl)
  | @link module target last surface edge rest hread hlinks hundefined hkind hinternal hlocate hrest
      ih =>
      have hlonger := fresh_below hnodup hfresh
      have hnodup := (List.nodup_cons.mp hnodup).2
      refine expand_fits_succ hnamed hread ?_ (.inr (by simp [hlinks]))
      rw [hlinks]
      intro further _
      have hwildcard : Fits further (rest.length + 1) (fun _ => True) ((expandWildcard resolver
          (Resolution.expand resolver further (module :: visiting) false) (module :: visiting)
          module edge).run read) := by
        rw [expandWildcard, if_pos hinternal, Survey.run_bind, Survey.run_ofExcept, hlocate]
        change Fits _ _ _ (Survey.run read (if _ then _ else _))
        rw [if_neg fun hmem => hlonger target hmem List.mem_cons_self, Survey.run_bind]
        exact (ih hnodup hlonger).bind fun _ _ => ⟨_, rfl, trivial⟩
      rw [List.forall_mem_singleton, collectItem_wildcard hkind, Survey.run_bind]
      exact hwildcard.bind fun _ _ => ⟨_, rfl, trivial⟩

theorem finds_of_wildcards (hlinks : WildcardChain resolver read name module rest last)
    (hnodup : (module :: rest).Nodup) (hfresh : ∀ other ∈ visiting, other ∉ module :: rest) :
    ∃ definition, definition.exportName? = some name ∧
      Finds resolver read name visiting module (some ⟨last, .definition definition⟩) := by
  induction hlinks generalizing visiting with
  | @defined module surface hread hends hdefined =>
      obtain ⟨definition, hdefinition⟩ := List.exists_mem_of_ne_nil _ hdefined
      obtain ⟨hmem, hcalled⟩ := List.mem_filter.mp hdefinition
      have hsome : (surface.explicitItem? name).isSome := by
        rw [Surface.explicitItem?_isSome_iff]
        exact ⟨.definition definition, Surface.mem_items_definition.mpr hmem,
          by simpa [Item.name?, Definition.isCalled] using hcalled⟩
      obtain ⟨item, hitem⟩ := Option.isSome_iff_exists.mp hsome
      have hname := Surface.name?_of_explicitItem? hitem
      have hmem := Surface.mem_items_of_explicitItem? hitem
      cases item with
      | definition definition => exact ⟨definition, hname, .here hread hitem⟩
      | reExport edge => simp [hends] at hmem
  | @link module target last surface edge rest hread hlinks hundefined hkind hinternal hlocate hrest
      ih =>
      have hlonger := fresh_below hnodup hfresh
      have hnodup := (List.nodup_cons.mp hnodup).2
      obtain ⟨definition, hname, hfinds⟩ := ih hnodup hlonger
      have hwildcards : surface.wildcards = [edge] := by simp [Surface.wildcards, hlinks, hkind]
      have htargets : targetsOf resolver module surface.items = .ok ([] ++ target :: []) := by
        rw [targetsOf, Surface.filterMap_internalWildcard?_items (by simp [hwildcards]), hwildcards,
          mapM_eq_ok]
        simpa [hinternal] using hlocate
      have hunnamed : surface.reExportOf? name = none := by
        simp [Surface.reExportOf?, hlinks, hkind]
      refine ⟨definition, hname, .through hread
        (Surface.explicitItem?_eq_none_of_lookups hundefined hunnamed) htargets (by simp) ?_ hfinds⟩
      exact fun hmem => hlonger target hmem List.mem_cons_self

theorem provides_of_wildcards (hname : name ≠ defaultName)
    (hlinks : WildcardChain resolver read name module rest last) (hnodup : (module :: rest).Nodup)
    (hrun : (Resolution.expand resolver left [] includeDefault module).run read = .ok exports) :
    Provides name ⟨last, name⟩ exports := by
  obtain ⟨definition, hexported, hfinds⟩ :=
    finds_of_wildcards hlinks hnodup (List.forall_mem_nil _)
  obtain ⟨found, hfound, hsupplies⟩ := expand_finds hname hrun
  obtain rfl := hfound.unique hfinds
  generalize hsymbol : symbolOf exports (.name name) = symbol at hsupplies
  cases hsupplies with
  | some hsupplies =>
      obtain ⟨export_, hrun, rfl⟩ := hsupplies
      obtain ⟨name', hname', rfl⟩ := localExport_eq_ok.mp hrun
      obtain rfl := Option.some.inj (hname'.symm.trans hexported)
      exact provides_of_symbol rfl rfl hsymbol

end

/-! ## The limit -/

def exportsUnder [Syntax.Grammar] (lookup : Lookup) (depth : Nat) (root : Location) :
    Except Failure (List Resolved) :=
  (exportsOf (lookup.withDepth depth) root).run (Module.loadSurface lookup.volume)

/--
The limit decides only whether a project can be resolved.  Under a higher limit
it is resolved to the same exports, under a limit of at least the number of
modules and of hops they allow it is never too deep, and a straight chain is
resolved exactly if it has no more modules than the limit.
-/
theorem limit_decides_success [Syntax.Grammar] (lookup : Lookup) (root : Location) :
    (∀ depth depth' exports, depth ≤ depth' → exportsUnder lookup depth root = .ok exports →
      exportsUnder lookup depth' root = .ok exports) ∧
    (∀ depth modules names,
      Counts (.ofLookup lookup) (Module.loadSurface lookup.volume) (lookup.volume.resolve root)
        modules names →
      modules.length ≤ depth → modules.length * names.length ≤ depth →
      ∀ failure, exportsUnder lookup depth root = .error failure → ¬failure.IsTooDeep) ∧
    (∀ depth rest name last,
      NamedChain (.ofLookup lookup) (Module.loadSurface lookup.volume)
        (lookup.volume.resolve root) rest name last →
      (lookup.volume.resolve root :: rest).Nodup →
      Straight (Module.loadSurface lookup.volume) (lookup.volume.resolve root) name →
      ((∃ exports, exportsUnder lookup depth root = .ok exports ∧ Provides name last exports) ↔
        (lookup.volume.resolve root :: rest).length ≤ depth)) ∧
    ∀ depth rest name last, name ≠ defaultName →
      WildcardChain (.ofLookup lookup) (Module.loadSurface lookup.volume) name
        (lookup.volume.resolve root) rest last →
      (lookup.volume.resolve root :: rest).Nodup →
      ((∃ exports, exportsUnder lookup depth root = .ok exports ∧
          Provides name ⟨last, name⟩ exports) ↔
        (lookup.volume.resolve root :: rest).length ≤ depth) := by
  have hlocate (depth : Nat) : (Resolver.ofLookup (lookup.withDepth depth)).locate =
      (Resolver.ofLookup lookup).locate := rfl
  refine ⟨fun depth depth' exports hle hrun => (exportsOf_refines hle).eq_ok hrun,
    fun depth modules names hcounts hmodules hhops => ?_,
    fun depth rest name last hlinks hnodup hstraight => ?_,
    fun depth rest name last hname hlinks hnodup => ?_⟩
  · exact exportsOf_inDepth hcounts (fun _ => loadSurface_inDepth) hmodules hhops
  · have hlinks := hlinks.congr (hlocate depth)
    have hfits : Fits depth (rest.length + 1) (fun _ => True) (exportsUnder lookup depth root) :=
      expand_fits_named (named_loadSurface lookup.volume) hlinks hnodup hstraight
    exact hfits.exists_iff fun exports hrun => provides_of_named hlinks hnodup hstraight hrun
  · have hlinks := hlinks.congr (hlocate depth)
    have hfits : Fits depth (rest.length + 1) (fun _ => True) (exportsUnder lookup depth root) :=
      expand_fits_wildcards (named_loadSurface lookup.volume) hlinks hnodup (List.forall_mem_nil _)
    exact hfits.exists_iff fun exports hrun => provides_of_wildcards hname hlinks hnodup hrun

def loopedChain : Lookup where
  settings := .default
  volume := .ofTexts
    [("/proj/index.ts", "export { x as y } from './a';"),
      ("/proj/a.ts", "export { z as x } from './b'; export * from './index';"),
      ("/proj/b.ts", "export const z = 1;"),
      ("/proj/all.ts", "export * from './b';")]

theorem read_loopedChain :
    Module.loadSurface loopedChain.volume (.ofPath "/proj/index.ts") =
        .ok ⟨[], [Module.namedEdge "./a" "x" "y" false 9]⟩ ∧
      Module.loadSurface loopedChain.volume (.ofPath "/proj/a.ts") =
        .ok ⟨[], [Module.namedEdge "./b" "z" "x" false 9, Module.wildcardEdge "./index" false 30]⟩ ∧
      Module.loadSurface loopedChain.volume (.ofPath "/proj/b.ts") =
        .ok ⟨[⟨.named, some "z", false, 13, none⟩], []⟩ ∧
      Module.loadSurface loopedChain.volume (.ofPath "/proj/all.ts") =
        .ok ⟨[], [Module.wildcardEdge "./b" false 0]⟩ := by
  decide +kernel

theorem limit_decides_success_loopedChain :
    (∃ exports, exportsUnder loopedChain 3 (.ofPath "/proj/index.ts") = .ok exports ∧
      exportsUnder loopedChain 256 (.ofPath "/proj/index.ts") = .ok exports ∧
      Provides "y" ⟨.ofPath "/proj/b.ts", "z"⟩ exports) ∧
    (¬∃ exports, exportsUnder loopedChain 2 (.ofPath "/proj/index.ts") = .ok exports ∧
      Provides "y" ⟨.ofPath "/proj/b.ts", "z"⟩ exports) ∧
    (∀ failure, exportsUnder loopedChain 9 (.ofPath "/proj/index.ts") = .error failure →
      ¬failure.IsTooDeep) ∧
    ∃ exports, exportsUnder loopedChain 2 (.ofPath "/proj/all.ts") = .ok exports ∧
      Provides "z" ⟨.ofPath "/proj/b.ts", "z"⟩ exports := by
  obtain ⟨hindex, ha, hb, hall⟩ := read_loopedChain
  have hroot : loopedChain.volume.resolve (.ofPath "/proj/index.ts") =
      .ofPath "/proj/index.ts" := by decide +kernel
  have hroot' : loopedChain.volume.resolve (.ofPath "/proj/all.ts") =
      .ofPath "/proj/all.ts" := by decide +kernel
  have hnamed : NamedChain (.ofLookup loopedChain) (Module.loadSurface loopedChain.volume)
      (.ofPath "/proj/index.ts") [.ofPath "/proj/a.ts", .ofPath "/proj/b.ts"] "y"
      ⟨.ofPath "/proj/b.ts", "z"⟩ :=
    .link hindex (by decide) rfl (by decide) rfl (by decide) (by decide +kernel)
      (.link ha (by decide) rfl (by decide) rfl (by decide) (by decide +kernel)
        (.defined hb (by decide)))
  have hwildcard : WildcardChain (.ofLookup loopedChain) (Module.loadSurface loopedChain.volume) "z"
      (.ofPath "/proj/all.ts") [.ofPath "/proj/b.ts"] (.ofPath "/proj/b.ts") :=
    .link hall rfl (by decide) rfl (by decide) (by decide +kernel) (.defined hb rfl (by decide))
  have hstraight : Straight (Module.loadSurface loopedChain.volume) (.ofPath "/proj/index.ts")
      "y" := by
    intro surface hread
    obtain rfl := ok_inj hindex hread
    decide
  have hcounts : Counts (.ofLookup loopedChain) (Module.loadSurface loopedChain.volume)
      (.ofPath "/proj/index.ts")
      [.ofPath "/proj/index.ts", .ofPath "/proj/a.ts", .ofPath "/proj/b.ts"] ["x", "y", "z"] := by
    refine .of_closed List.mem_cons_self (List.forall_mem_cons.mpr ⟨⟨_, hindex, ?_⟩,
      List.forall_mem_cons.mpr ⟨⟨_, ha, ?_⟩, List.forall_mem_singleton.mpr ⟨_, hb, ?_⟩⟩⟩)
    · exact List.forall_mem_singleton.mpr
        ⟨⟨.ofPath "/proj/a.ts", by decide, by decide +kernel⟩,
          by simp [Module.namedEdge, or_imp, forall_and]⟩
    · refine List.forall_mem_cons.mpr ⟨⟨⟨.ofPath "/proj/b.ts", by decide, by decide +kernel⟩,
        by simp [Module.namedEdge, or_imp, forall_and]⟩, List.forall_mem_singleton.mpr
          ⟨⟨.ofPath "/proj/index.ts", by decide, by decide +kernel⟩, by simp [Module.wildcardEdge]⟩⟩
    · exact List.forall_mem_nil _
  obtain ⟨hmonotone, hdeep, hchain, -⟩ :=
    limit_decides_success loopedChain (.ofPath "/proj/index.ts")
  obtain ⟨-, -, -, hbarrel⟩ := limit_decides_success loopedChain (.ofPath "/proj/all.ts")
  rw [hroot] at hdeep hchain
  rw [hroot'] at hbarrel
  obtain ⟨exports, hrun, hprovides⟩ :=
    (hchain 3 _ _ _ hnamed (by decide +kernel) hstraight).mpr (by decide)
  refine ⟨⟨exports, hrun, hmonotone 3 256 exports (by decide) hrun, hprovides⟩, ?_,
    hdeep 9 _ _ hcounts (by decide) (by decide),
    (hbarrel 2 _ _ _ (by decide) hwildcard (by decide +kernel)).mpr (by decide)⟩
  rw [hchain 2 _ _ _ hnamed (by decide +kernel) hstraight]
  decide

end FlatExports.Resolution
