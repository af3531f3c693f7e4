import FlatExports.Proofs.Module.Bindings
import FlatExports.Proofs.Module.Failures
import FlatExports.Syntax.Typescript

/-!
Local names that nothing binds.

A scan has an item for every site of a module.  Where the nodes of a module can
be read, its scan fails exactly if a specifier without a source names something
that nothing binds, and it reports all such names as they stand in the source.
-/

namespace FlatExports

namespace Module

open FlatExports.Syntax
open FlatExports.Syntax.Node (Below)

variable {tree : ModuleTree} {statement : Node} {bindings : Bindings}

/-! ## Specifiers without a source -/

def Site.sourceless? : Site → Option Node
  | .specifier statement node => if (sourceNode? statement).isNone then some node else none
  | _ => none

def sourcelessSpecifiers (tree : ModuleTree) : List Node := (sites tree).filterMap Site.sourceless?

def SpellsLocal (tree : ModuleTree) (specifier : Node) (name : String) : Prop :=
  ∃ exported, specifierNames tree specifier = .ok (name, exported)

theorem Contributes.locals {sites : List Site} {contribution : Contribution}
    (h : Contributes tree statement sites contribution) :
    List.Forall₂ (SpellsLocal tree) (sites.filterMap Site.sourceless?)
      (contribution.pending.map (·.localName)) := by
  cases h with
  | default => exact .nil
  | declared hnames =>
      have hnone : sites.filterMap Site.sourceless? = [] := by
        rw [List.filterMap_eq_nil_iff]
        intro site hsite
        obtain ⟨entry, -, hentry⟩ := exists_right_of_forall₂ hnames hsite
        cases hentry <;> rfl
      rw [hnone]
      exact .nil
  | namespaced => exact .nil
  | sourced hsource =>
      rw [List.filterMap_map, List.filterMap_eq_nil_iff.mpr]
      · exact .nil
      · intro node _
        simp [Site.sourceless?, hsource]
  | @pending specifiers entries hsource hentries =>
      have hall : (specifiers.map (Site.specifier statement)).filterMap Site.sourceless? =
          specifiers := by
        rw [List.filterMap_map]
        refine (List.filterMap_congr fun node _ => ?_).trans List.filterMap_some
        simp [Site.sourceless?, hsource]
      rw [hall, List.forall₂_map_right_iff]
      exact hentries.imp fun _ entry hentry => ⟨entry.exportedName, hentry.names⟩
  | wildcard => exact .nil

theorem locals_of_reads {contributions : List Contribution}
    (hreads : List.Forall₂ (fun statement contribution =>
      readExport tree statement = .ok contribution) (exportStatements tree) contributions) :
    List.Forall₂ (SpellsLocal tree) (sourcelessSpecifiers tree)
      ((contributions.flatMap (·.pending)).map (·.localName)) := by
  rw [sourcelessSpecifiers, sites, List.filterMap_flatMap, List.map_flatMap]
  exact List.rel_flatMap hreads fun _ _ hread => (readExport_contributes hread).locals

/-! ## Scans that fail -/

theorem bindPending_eq_error_iff {pending : List PendingExport} {failure : Failure} :
    bindPending tree bindings pending = .error failure ↔
      (pending.map (·.localName)).filter (fun name => (bindings.find? name).isNone) ≠ [] ∧
        failure = .exportsNotFound tree.file
          ((pending.map (·.localName)).filter fun name => (bindings.find? name).isNone) := by
  rw [List.filter_map]
  unfold bindPending
  split
  · rename_i hnone
    simp [Function.comp_def, hnone]
  · rename_i unbound hsome
    simp only [Function.comp_def, ne_eq, List.map_eq_nil_iff, Except.error.injEq]
    exact ⟨fun h => ⟨hsome, h.symm⟩, fun h => h.2.symm⟩

theorem scan_eq_error_iff {contributions : List Contribution} {failure : Failure}
    (hreads : List.Forall₂ (fun statement contribution =>
      readExport tree statement = .ok contribution) (exportStatements tree) contributions)
    (hbindings : bindingsOf tree = .ok bindings) :
    scan tree = .error failure ↔
      bindPending tree bindings (contributions.flatMap (·.pending)) = .error failure := by
  have hstatements : (tree.root.namedChildren.filter (·.kind = .exportStatement)).mapM
      (readExport tree) = .ok contributions := mapM_eq_ok.mpr hreads
  have hmodule : collectBindings tree (tree.root.namedChildren.filter (·.kind = .importStatement))
      (tree.root.namedChildren.flatMap declarationsOf) = .ok bindings := hbindings
  unfold scan
  simp only [hstatements, hmodule, Bind.bind, Except.bind, pure, Except.pure]
  split
  · rename_i hnone
    rw [List.isEmpty_iff] at hnone
    simp [hnone, bindPending]
  · cases bindPending tree bindings (contributions.flatMap (·.pending)) <;> simp

theorem scan_eq_error {failure : Failure} (h : (scan tree).map (·.surface) = .error failure) :
    scan tree = .error failure := by
  cases hscan : scan tree with
  | ok scanned =>
      rw [hscan] at h
      cases h
  | error other =>
      rw [hscan] at h
      exact congrArg _ (Except.error.inj h)

def isRefused (tree : ModuleTree) (statement : Node) : Bool :=
  match readExport tree statement with
  | .error (.unsupported _ _) => true
  | _ => false

theorem exists_contributions (hreadable : Readable tree fun _ => False)
    (hsupported : ∀ statement ∈ exportStatements tree, isRefused tree statement = false) :
    ∃ contributions, List.Forall₂ (fun statement contribution =>
      readExport tree statement = .ok contribution) (exportStatements tree) contributions := by
  refine exists_forall₂ fun statement hstatement => ?_
  have hfails : OnlyFails (fun failure => ∃ construct, failure = .unsupported tree.file construct)
      (readExport tree statement) :=
    readExport_fails (hreadable.mono fun _ h => h.elim) (fun construct => ⟨construct, rfl⟩)
      (Below.named .refl (List.mem_filter.mp hstatement).1)
  have hrefused := hsupported statement hstatement
  cases hread : readExport tree statement with
  | ok contribution => exact ⟨contribution, rfl⟩
  | error failure =>
      obtain ⟨construct, rfl⟩ := hfails failure hread
      simp [isRefused, hread] at hrefused

open Classical in
/--
A scan accounts for every site.  It records one item for each, in the order in
which the sites are written, although specifiers without a source are bound
last.  If all nodes can be read and no statement is unsupported, it fails
exactly if one of these specifiers spells a local name that no import clause
and no declaration on the top level binds, and it reports all such names.
-/
theorem scan_accounts_for_sites (tree : ModuleTree) (hlaid : laidOut tree.root = true) :
    (sites tree).Pairwise (fun first second => first.start < second.start) ∧
    (∀ scanned, scan tree = .ok scanned →
      List.Forall₂ (Records tree) (sites tree) scanned.surface.items) ∧
    (Readable tree (fun _ => False) →
      (∀ statement ∈ exportStatements tree, isRefused tree statement = false) →
        ∃ locals, List.Forall₂ (SpellsLocal tree) (sourcelessSpecifiers tree) locals ∧
          ∀ failure, scan tree = .error failure ↔
            locals.filter (fun name => ¬ IsBound tree name) ≠ [] ∧
              failure = .exportsNotFound tree.file
                (locals.filter fun name => ¬ IsBound tree name)) := by
  refine ⟨pairwise_start_sites hlaid, fun scanned hscan => records_of_scan hlaid hscan,
    fun hreadable hsupported => ?_⟩
  obtain ⟨contributions, hreads⟩ := exists_contributions hreadable hsupported
  obtain ⟨bindings, hbindings⟩ := exists_ok_of_onlyFails (bindingsOf_fails hreadable)
  refine ⟨_, locals_of_reads hreads, fun failure => ?_⟩
  have hunbound (name : String) :
      (bindings.find? name).isNone = decide (¬ IsBound tree name) := by
    rw [← binds_iff hbindings, Bindings.Binds]
    cases bindings.find? name <;> simp
  rw [scan_eq_error_iff hreads hbindings, bindPending_eq_error_iff]
  simp only [hunbound]

def moduleOf (text : String) : ModuleTree :=
  ⟨"/proj/index.ts", Text.bytesOf text, (programOf? false text.toList).getD default⟩

def boundModule : ModuleTree :=
  moduleOf ("export { a, c as d }; export const c = 1, [e] = [2]; " ++
    "export * from './f'; import a from './a';")

def unboundModule : ModuleTree :=
  moduleOf "export { x, b, y as z, w }; import b from './a'; export default class w \x7b\x7d"

open Classical in
theorem scan_accounts_for_sites_modules :
    (∃ scanned, scan boundModule = .ok scanned ∧
      scanned.surface.items = [.reExport (namedEdge "./a" "default" "a" false 9),
        .definition ⟨.named, some "d", false, 12, some "c"⟩,
        .definition ⟨.named, some "c", false, 35, none⟩,
        .definition ⟨.named, some "e", false, 43, none⟩,
        .reExport (wildcardEdge "./f" false 53)] ∧
      List.Forall₂ (Records boundModule) (sites boundModule) scanned.surface.items) ∧
    ∃ locals, List.Forall₂ (SpellsLocal unboundModule) (sourcelessSpecifiers unboundModule) locals ∧
      locals.filter (fun name => ¬ IsBound unboundModule name) = ["x", "y"] := by
  constructor
  · have hsurface : (scan boundModule).toOption.map (·.surface) = some
        ⟨[⟨.named, some "c", false, 35, none⟩, ⟨.named, some "e", false, 43, none⟩,
            ⟨.named, some "d", false, 12, some "c"⟩],
          [wildcardEdge "./f" false 53, namedEdge "./a" "default" "a" false 9]⟩ := by
      decide +kernel
    obtain ⟨scanned, hscan, hsurface⟩ := Option.map_eq_some_iff.mp hsurface
    have hscan := eq_ok_of_toOption hscan
    obtain ⟨-, hrecords, -⟩ := scan_accounts_for_sites boundModule (by decide +kernel)
    refine ⟨scanned, hscan, ?_, hrecords scanned hscan⟩
    rw [hsurface]
    exact Surface.items_of_perm (by decide) (by decide)
  · obtain ⟨-, -, hfails⟩ := scan_accounts_for_sites unboundModule (by decide +kernel)
    obtain ⟨locals, hlocals, hfails⟩ :=
      hfails (.of_everyNode (by decide +kernel)) (by decide +kernel)
    have hscan : scan unboundModule = .error (.exportsNotFound "/proj/index.ts" ["x", "y"]) :=
      scan_eq_error (by decide +kernel)
    obtain ⟨-, hfailure⟩ := (hfails _).mp hscan
    exact ⟨locals, hlocals, ((Failure.exportsNotFound.inj hfailure).2).symm⟩

/-! ## Trees that no source has -/

open Node (made mark)

def namelessNamespace : ModuleTree :=
  ⟨"/proj/index.ts", Text.bytesOf "export \x7b x \x7d;\nexport * as ns from './a';",
    made .program 0 40
      [made .exportStatement 0 13 [made .exportClause 7 12
        [made .exportSpecifier 9 10 [(made .identifier 9 10 []).heldAs "name"]]],
      made .exportStatement 14 40
        [made .namespaceExport 21 28 [mark .star 21 22, mark .asWord 23 25],
          (made .string 34 39 []).heldAs "source"]]⟩

def halfCharacter : ModuleTree :=
  ⟨"/proj/index.ts", Text.bytesOf "export \x7b x \x7d;\nexport \x7b é \x7d;",
    made .program 0 28
      [made .exportStatement 0 13 [made .exportClause 7 12
        [made .exportSpecifier 9 10 [(made .identifier 9 10 []).heldAs "name"]]],
      made .exportStatement 14 28 [made .exportClause 21 27
        [made .exportSpecifier 23 24 [(made .identifier 23 24 []).heldAs "name"]]]]⟩

def clauseInDefault : ModuleTree :=
  ⟨"/proj/index.ts", Text.bytesOf "export default \x7b x \x7d;",
    made .program 0 21
      [made .exportStatement 0 21 [mark .defaultWord 7 14, made .exportClause 15 20
        [made .exportSpecifier 17 18 [(made .identifier 17 18 []).heldAs "name"]]]]⟩

def sourcelessImport : ModuleTree :=
  ⟨"/proj/index.ts", Text.bytesOf "import x;\nexport \x7b x \x7d;",
    made .program 0 23
      [made .importStatement 0 9 [made .importClause 7 8 [made .identifier 7 8 []]],
      made .exportStatement 10 23 [made .exportClause 17 22
        [made .exportSpecifier 19 20 [(made .identifier 19 20 []).heldAs "name"]]]]⟩

/-- What is asked of trees: nodes in order, specifiers with names, nothing unsupported. -/
structure InOrder (tree : ModuleTree) : Prop where
  laidOut : laidOut tree.root = true
  named : ∀ node, Below tree.root node →
    node.kind = .exportSpecifier ∨ node.kind = .importSpecifier → HasName node
  supported : ∀ statement ∈ exportStatements tree, isRefused tree statement = false

theorem InOrder.of_everyNode (hlaid : Syntax.laidOut tree.root = true)
    (hnamed : tree.root.everyNode (fun node =>
      decide (node.kind = .exportSpecifier ∨ node.kind = .importSpecifier → HasName node)) = true)
    (hsupported : ∀ statement ∈ exportStatements tree, isRefused tree statement = false) :
    InOrder tree :=
  ⟨hlaid, fun _ hbelow hkind => of_decide_eq_true (hbelow.of_everyNode hnamed) hkind, hsupported⟩

theorem order_does_not_suffice :
    (InOrder namelessNamespace ∧ scan namelessNamespace = .error .missingChild ∧
      (∃ node ∈ sourcelessSpecifiers namelessNamespace, SpellsLocal namelessNamespace node "x") ∧
      ¬ IsBound namelessNamespace "x") ∧
    (InOrder halfCharacter ∧ scan halfCharacter = .error .brokenText ∧
      (∃ node ∈ sourcelessSpecifiers halfCharacter, SpellsLocal halfCharacter node "x") ∧
      ¬ IsBound halfCharacter "x") ∧
    (InOrder clauseInDefault ∧ (∃ scanned, scan clauseInDefault = .ok scanned ∧
      scanned.surface.items = [.definition ⟨.default, none, false, 0, none⟩]) ∧
      ∃ statement ∈ exportStatements clauseInDefault, ∃ clause ∈ statement.namedChildren,
        clause.kind = .exportClause ∧ (clauseSpecifiers clause).length = 1) ∧
    InOrder sourcelessImport ∧
      scan sourcelessImport = .error (.exportsNotFound "/proj/index.ts" ["x"]) ∧
      ∃ statement ∈ sourcelessImport.root.namedChildren, ∃ clause,
        statement.namedChild? .importClause = some clause ∧
          ∃ part ∈ clause.namedChildren, PartBinds sourcelessImport part "x" := by
  have hunbound {tree : ModuleTree} (h : bindingsOf tree = .ok []) : ¬ IsBound tree "x" := by
    rw [← binds_iff h]
    simp [Bindings.Binds, Bindings.find?]
  refine ⟨⟨?_, ?_, ?_, ?_⟩, ⟨?_, ?_, ?_, ?_⟩, ⟨?_, ?_, ?_⟩, ?_, ?_, ?_⟩
  · exact .of_everyNode (by decide +kernel) (by decide +kernel) (by decide +kernel)
  · exact scan_eq_error (by decide +kernel)
  · exact ⟨_, List.mem_cons_self, "x", by decide +kernel⟩
  · exact hunbound (by decide +kernel)
  · exact .of_everyNode (by decide +kernel) (by decide +kernel) (by decide +kernel)
  · exact scan_eq_error (by decide +kernel)
  · exact ⟨_, List.mem_cons_self, "x", by decide +kernel⟩
  · exact hunbound (by decide +kernel)
  · exact .of_everyNode (by decide +kernel) (by decide +kernel) (by decide +kernel)
  · have hsurface : (scan clauseInDefault).toOption.map (·.surface) =
        some ⟨[⟨.default, none, false, 0, none⟩], []⟩ := by decide +kernel
    obtain ⟨scanned, hscan, hsurface⟩ := Option.map_eq_some_iff.mp hsurface
    refine ⟨scanned, eq_ok_of_toOption hscan, ?_⟩
    rw [hsurface]
    exact Surface.items_of_pairwise rfl (by decide)
  · exact ⟨_, List.mem_cons_self, _, List.mem_cons_self, rfl, rfl⟩
  · exact .of_everyNode (by decide +kernel) (by decide +kernel) (by decide +kernel)
  · exact scan_eq_error (by decide +kernel)
  · exact ⟨_, List.mem_cons_self, _, rfl, _, List.mem_cons_self, .default rfl (by decide +kernel)⟩

end Module

end FlatExports
