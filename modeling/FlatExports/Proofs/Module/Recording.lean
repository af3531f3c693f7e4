import FlatExports.Proofs.Module.Contribution
import FlatExports.Proofs.Module.Items

/-!
What a scan records for the sites of a module.

Reading a module gathers definitions, re-exports and pending exports separately
and binds the pending ones last.  The places of the items put them back: the
items of a scanned module are one for each site, in the order of the sites.
-/

namespace FlatExports

namespace Module

open FlatExports.Syntax

variable {tree : ModuleTree} {statement : Node}

/-! ## Items -/

/-- The item that a scan records for a site. -/
inductive Records (tree : ModuleTree) : Site → Item → Prop where
  | default {statement : Node} : Records tree (.default statement)
      (.definition ⟨.default, none, (exportedNode? statement).any (·.kind = .interfaceDeclaration),
        statement.start, none⟩)
  | introduced {site : Site} {entry : DeclaredName} (hentry : Introduces tree site entry) :
      Records tree site
        (.definition ⟨.named, some entry.name, entry.typeOnly, entry.position, none⟩)
  | sourced {statement node source : Node} {specifier : String} {entry : PendingExport}
      (hsource : sourceNode? statement = some source)
      (hspecifier : tree.moduleName source = .ok specifier)
      (hentry : ReadsSpecifier tree statement node entry) :
      Records tree (.specifier statement node) (.reExport
        (namedEdge specifier entry.localName entry.exportedName entry.typeOnly entry.position))
  | bound {statement node : Node} {entry : PendingExport} {bound : BoundExport}
      (hsource : sourceNode? statement = none) (hentry : ReadsSpecifier tree statement node entry)
      (hbound : BindsPending tree entry bound) :
      Records tree (.specifier statement node) bound.item
  | namespaced {statement source part name : Node} {specifier exported : String}
      (hsource : sourceNode? statement = some source)
      (hspecifier : tree.moduleName source = .ok specifier)
      (hpart : statement.namedChild? .namespaceExport = some part)
      (hname : part.namedChildren.getLast? = some name)
      (hexported : tree.moduleName name = .ok exported) :
      Records tree (.namespaced statement) (.reExport
        (namespaceEdge specifier exported (statement.hasWord .typeWord) statement.start))
  | wildcard {statement source : Node} {specifier : String}
      (hsource : sourceNode? statement = some source)
      (hspecifier : tree.moduleName source = .ok specifier) :
      Records tree (.wildcard statement) (.reExport
        (wildcardEdge specifier (statement.hasWord .typeWord) statement.start))

theorem Records.position_eq {site : Site} {item : Item} (h : Records tree site item) :
    item.position = site.start := by
  cases h with
  | default => rfl
  | introduced hentry => cases hentry <;> rfl
  | sourced hsource hspecifier hentry => exact congrArg _ hentry.position
  | bound hsource hentry hbound =>
      obtain ⟨bindings, binding, -, -, rfl⟩ := hbound
      rw [position_item_bind, hentry.position]
      rfl
  | namespaced => rfl
  | wildcard => rfl

theorem Records.definition_cases {site : Site} {definition : Definition}
    (h : Records tree site (.definition definition)) :
    (definition.kind = .default ∧ definition.name = none ∧ definition.localName = none) ∨
    (∃ entry, Introduces tree site entry ∧
      definition = ⟨.named, some entry.name, entry.typeOnly, entry.position, none⟩) ∨
    ∃ entry, BindsPending tree entry (.definition definition) := by
  generalize hitem : Item.definition definition = item at h
  cases h with
  | default =>
      cases hitem
      exact .inl ⟨rfl, rfl, rfl⟩
  | introduced hentry =>
      cases hitem
      exact .inr (.inl ⟨_, hentry, rfl⟩)
  | @bound _ _ entry bound _ _ hbound =>
      cases bound with
      | definition => cases hitem; exact .inr (.inr ⟨entry, hbound⟩)
      | reExport => cases hitem
  | _ => cases hitem

theorem Contributes.records {sites : List Site} {contribution : Contribution}
    {bound : List BoundExport} (h : Contributes tree statement sites contribution)
    (hbound : List.Forall₂ (BindsPending tree) contribution.pending bound) :
    List.Forall₂ (Records tree) sites (contribution.definitions.map Item.definition ++
      contribution.reExports.map Item.reExport ++ bound.map BoundExport.item) := by
  cases h with
  | default =>
      cases hbound
      exact .cons .default .nil
  | declared hnames =>
      cases hbound
      simpa [Contribution.ofDefinitions] using hnames.imp fun _ _ hentry => .introduced hentry
  | namespaced hsource hspecifier hpart hname hexported =>
      cases hbound
      exact .cons (.namespaced hsource hspecifier hpart hname hexported) .nil
  | sourced hsource hspecifier hentries =>
      cases hbound
      simpa using hentries.imp fun _ _ hentry => .sourced hsource hspecifier hentry
  | pending hsource hentries =>
      dsimp only at hbound
      rw [List.map_nil, List.map_nil, List.nil_append, List.nil_append,
        List.forall₂_map_left_iff, List.forall₂_map_right_iff]
      induction hentries generalizing bound with
      | nil =>
          cases hbound
          exact .nil
      | cons hentry _ ih =>
          cases hbound with
          | cons hfirst hrest => exact .cons (.bound hsource hentry hfirst) (ih hrest)
  | wildcard hsource hspecifier =>
      cases hbound
      exact .cons (.wildcard hsource hspecifier) .nil

/-! ## Modules -/

theorem perm_bound (bound : List BoundExport) :
    (bound.map BoundExport.item).Perm ((boundDefinitions bound).map Item.definition ++
      (boundReExports bound).map Item.reExport) := by
  have hsplit := (Item.perm_split (bound.map BoundExport.item)).symm
  have hdefinitions : (bound.map BoundExport.item).filterMap Item.definition? =
      boundDefinitions bound := by
    rw [List.filterMap_map]
    exact List.filterMap_congr fun bound _ => by cases bound <;> rfl
  have hreExports : (bound.map BoundExport.item).filterMap Item.reExport? =
      boundReExports bound := by
    rw [List.filterMap_map]
    exact List.filterMap_congr fun bound _ => by cases bound <;> rfl
  rwa [hdefinitions, hreExports] at hsplit

theorem exists_items {statements : List Node} {contributions : List Contribution}
    {bound : List BoundExport}
    (hreads : List.Forall₂ (fun statement contribution =>
      readExport tree statement = .ok contribution) statements contributions)
    (hbound : List.Forall₂ (BindsPending tree) (contributions.flatMap (·.pending)) bound) :
    ∃ items, List.Forall₂ (Records tree) (statements.flatMap sitesOf) items ∧
      items.Perm ((contributions.flatMap (·.definitions)).map Item.definition ++
        (contributions.flatMap (·.reExports)).map Item.reExport ++
        bound.map BoundExport.item) := by
  induction hreads generalizing bound with
  | nil =>
      cases hbound
      exact ⟨[], .nil, .nil⟩
  | @cons statement contribution statements contributions hread _ ih =>
      rw [List.flatMap_cons] at hbound
      have hfirst := (List.forall₂_take_append _ _ _ hbound.flip).flip
      have hrest := (List.forall₂_drop_append _ _ _ hbound.flip).flip
      obtain ⟨items, hitems, hperm⟩ := ih hrest
      have hhere := (readExport_contributes hread).records hfirst
      refine ⟨_ ++ items, List.rel_append hhere hitems, ?_⟩
      rw [List.perm_iff_count] at hperm ⊢
      intro item
      have hcount := hperm item
      have hsplit := congrArg (fun bound => (bound.map BoundExport.item).count item)
        (List.take_append_drop contribution.pending.length bound)
      simp only [List.flatMap_cons, List.map_append, List.count_append] at hcount hsplit ⊢
      omega

theorem exists_items_of_scan {scanned : Scan} (hscan : scan tree = .ok scanned) :
    ∃ items, List.Forall₂ (Records tree) (sites tree) items ∧
      items.Perm (scanned.surface.definitions.map Item.definition ++
        scanned.surface.reExports.map Item.reExport) := by
  obtain ⟨contributions, bound, hreads, hbound, -, hsurface, -⟩ := scan_eq_ok hscan
  obtain ⟨items, hitems, hperm⟩ := exists_items hreads hbound
  refine ⟨items, hitems, hperm.trans ?_⟩
  rw [hsurface]
  have hbound := perm_bound bound
  rw [List.perm_iff_count] at hbound ⊢
  intro item
  have hcount := hbound item
  simp only [List.map_append, List.count_append] at hcount ⊢
  omega

theorem exists_site_of_scan {scanned : Scan} {item : Item} (hscan : scan tree = .ok scanned)
    (hitem : item ∈ scanned.surface.items) :
    ∃ statement ∈ exportStatements tree, ∃ site ∈ sitesOf statement, Records tree site item := by
  obtain ⟨items, hitems, hperm⟩ := exists_items_of_scan hscan
  obtain ⟨site, hsite, hrecord⟩ :=
    exists_left_of_forall₂ hitems (hperm.mem_iff.mpr (scanned.surface.items_perm.mem_iff.mp hitem))
  obtain ⟨statement, hstatement, hsite⟩ := List.mem_flatMap.mp hsite
  exact ⟨statement, hstatement, site, hsite, hrecord⟩

/-- The items of a scanned module are one for each site, in the order of the sites. -/
theorem records_of_scan {scanned : Scan} (hlaid : laidOut tree.root = true)
    (hscan : scan tree = .ok scanned) :
    List.Forall₂ (Records tree) (sites tree) scanned.surface.items := by
  obtain ⟨items, hitems, hperm⟩ := exists_items_of_scan hscan
  have hplaces : items.map Item.position = (sites tree).map fun site => (site.start : Int) := by
    rw [← List.forall₂_eq_eq_eq, List.forall₂_map_left_iff, List.forall₂_map_right_iff]
    exact List.Forall₂.flip (hitems.imp fun _ _ hrecord => hrecord.position_eq)
  have horder : items.Pairwise fun first second => first.position < second.position := by
    rw [← List.pairwise_map (f := Item.position), hplaces, List.pairwise_map]
    exact (pairwise_start_sites hlaid).imp fun hlt => Int.ofNat_lt.mpr hlt
  rw [Surface.items_of_perm horder hperm]
  exact hitems

theorem typeOnly_of_isTypeLocal {scanned : Scan} {definition : Definition} {name : String}
    (hscan : scan tree = .ok scanned) (hmem : definition ∈ scanned.surface.definitions)
    (hlocal : definition.localName = some name) (htype : isTypeLocal tree name = true) :
    definition.typeOnly = true := by
  obtain ⟨_, -, site, -, hrecord⟩ := exists_site_of_scan hscan (Surface.mem_items_definition.mpr hmem)
  rcases hrecord.definition_cases with ⟨-, -, hnone⟩ | ⟨entry, -, rfl⟩ |
    ⟨entry, bindings, binding, hbindings, hfind, hbind⟩
  · cases hnone.symm.trans hlocal
  · cases hlocal
  · obtain ⟨hname, hflag⟩ := typeOnly_of_bind hbind.symm
    cases hlocal.symm.trans hname
    rw [isTypeLocal, hbindings] at htype
    simp only [hfind, decide_eq_true_eq, Option.some.injEq] at htype
    exact hflag htype

/-! ## Wildcards -/

theorem pairwise_position_readExports {statements : List Node} {contributions : List Contribution}
    (hreads : List.Forall₂ (fun statement contribution =>
      readExport tree statement = .ok contribution) statements contributions)
    (horder : statements.Pairwise fun first second => first.start ≤ second.start) :
    ((contributions.flatMap (·.reExports)).filter (·.kind = .wildcard)).Pairwise
        (fun first second => first.position ≤ second.position) ∧
      ∀ edge ∈ (contributions.flatMap (·.reExports)).filter (·.kind = .wildcard),
        ∃ statement ∈ statements, edge.position = (statement.start : Int) := by
  induction hreads with
  | nil => exact ⟨.nil, by simp⟩
  | @cons statement contribution statements contributions hread hreads ih =>
      obtain ⟨hfirst, hrest⟩ := List.pairwise_cons.mp horder
      obtain ⟨hpairs, hplaces⟩ := ih hrest
      have hhere (edge : ReExport) (hedge : edge ∈ contribution.reExports.filter (·.kind = .wildcard)) :
          edge.position = statement.start := by
        obtain ⟨hedge, hkind⟩ := List.mem_filter.mp hedge
        exact (readExport_contributes hread).position_wildcard hedge (by simpa using hkind)
      rw [List.flatMap_cons, List.filter_append]
      constructor
      · refine List.pairwise_append.mpr ⟨?_, hpairs, ?_⟩
        · refine List.pairwise_of_forall_mem_list fun first hfirst second hsecond => ?_
          exact Int.le_of_eq ((hhere first hfirst).trans (hhere second hsecond).symm)
        · intro edge hedge later hlater
          obtain ⟨behind, hbehind, hposition⟩ := hplaces later hlater
          rw [hhere edge hedge, hposition]
          exact Int.ofNat_le.mpr (hfirst behind hbehind)
      · intro edge hedge
        rcases List.mem_append.mp hedge with hedge | hedge
        · exact ⟨statement, List.mem_cons_self, hhere edge hedge⟩
        · obtain ⟨behind, hbehind, hposition⟩ := hplaces edge hedge
          exact ⟨behind, List.mem_cons_of_mem _ hbehind, hposition⟩

theorem pairwise_position_wildcards {scanned : Scan} (hscan : scan tree = .ok scanned)
    (horder : tree.root.children.Pairwise fun first second => first.start ≤ second.start) :
    scanned.surface.wildcards.Pairwise fun first second => first.position ≤ second.position := by
  obtain ⟨contributions, bound, hreads, hbound, -, hsurface, -⟩ := scan_eq_ok hscan
  have hnamed : (boundReExports bound).filter (·.kind = .wildcard) = [] := by
    rw [List.filter_eq_nil_iff]
    intro edge hedge hkind
    obtain ⟨_, -, _, _, -, -, hbind⟩ :=
      exists_left_of_forall₂ hbound (mem_boundReExports.mp hedge)
    exact kind_of_bind hbind.symm (by simpa using hkind)
  rw [hsurface, Surface.wildcards, List.filter_append, hnamed, List.append_nil]
  exact (pairwise_position_readExports hreads ((horder.filter _).filter _)).1

end Module

end FlatExports
