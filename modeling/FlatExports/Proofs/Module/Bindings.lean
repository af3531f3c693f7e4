import FlatExports.Proofs.Association
import FlatExports.Proofs.Module.Recording

/-!
Names that a module binds.

An import clause binds names, and so does every declaration on the top level of
a module, exported or not.  Declaring a name never unbinds another one.  What a
module exports inline is declared there, and so is what it exports through a
specifier list unless it is imported; the definitions of a scanned module have
their names from its declarations.
-/

namespace FlatExports.Module

open FlatExports.Syntax

variable {tree : ModuleTree} {statement declaration part : Node} {contribution : Contribution}
  {scanned : Scan} {definition : Definition} {bindings : Bindings} {name other : String}
  {typeOnly : Bool} {names : List DeclaredName} {entry : DeclaredName}

/-! ## Bound names -/

def Bindings.Binds (bindings : Bindings) (name : String) : Prop :=
  (bindings.find? name).isSome = true

namespace Bindings

theorem find?_put (binding : Binding) :
    (bindings.put name binding).find? other =
      if other = name then some binding else bindings.find? other :=
  lookup_replaced binding

theorem binds_declare_iff :
    (bindings.declare name typeOnly).Binds other ↔ bindings.Binds other ∨ name = other := by
  by_cases heq : other = name
  · subst heq
    unfold declare
    split <;> simp_all [Binds, find?_put]
  · have hname : ¬ name = other := fun h => heq h.symm
    unfold declare
    split <;> simp [Binds, find?_put, heq, hname]

theorem binds_foldl_declare :
    (names.foldl (fun bindings entry => bindings.declare entry.name entry.typeOnly)
      bindings).Binds other ↔ bindings.Binds other ∨ ∃ entry ∈ names, entry.name = other := by
  induction names generalizing bindings with
  | nil => simp
  | cons entry rest ih => simp [ih, binds_declare_iff, or_assoc]

theorem binds_put_iff (binding : Binding) :
    (bindings.put name binding).Binds other ↔ bindings.Binds other ∨ name = other := by
  by_cases heq : other = name
  · simp [Binds, find?_put, heq]
  · have hname : ¬ name = other := fun h => heq h.symm
    simp [Binds, find?_put, heq, hname]

theorem binds_foldl_put {entries : Bindings} :
    (entries.foldl (fun bindings (name, binding) => bindings.put name binding)
      bindings).Binds other ↔ bindings.Binds other ∨ ∃ entry ∈ entries, entry.1 = other := by
  induction entries generalizing bindings with
  | nil => simp
  | cons entry rest ih => simp [ih, binds_put_iff, or_assoc]

def IsDeclaration (bindings : Bindings) (name : String) : Prop :=
  ∃ typeOnly, bindings.find? name = some (.declared typeOnly)

theorem isDeclaration_declare (h : (bindings.declare name typeOnly).IsDeclaration other) :
    bindings.IsDeclaration other ∨ name = other := by
  by_cases heq : other = name
  · exact .inr heq.symm
  · left
    unfold declare at h
    split at h <;> simpa [IsDeclaration, find?_put, heq] using h

theorem isDeclaration_foldl_declare
    (h : (names.foldl (fun bindings entry => bindings.declare entry.name entry.typeOnly)
      bindings).IsDeclaration other) :
    bindings.IsDeclaration other ∨ ∃ entry ∈ names, entry.name = other := by
  induction names generalizing bindings with
  | nil => exact .inl h
  | cons entry rest ih =>
      rcases ih h with hbefore | ⟨later, hlater, hname⟩
      · exact (isDeclaration_declare hbefore).imp_right fun hname =>
          ⟨entry, List.mem_cons_self, hname⟩
      · exact .inr ⟨later, List.mem_cons_of_mem _ hlater, hname⟩

theorem find?_foldl_put {entries : Bindings} {binding : Binding}
    (h : (entries.foldl (fun bindings (name, binding) => bindings.put name binding)
      bindings).find? other = some binding) :
    bindings.find? other = some binding ∨ (other, binding) ∈ entries := by
  induction entries generalizing bindings with
  | nil => exact .inl h
  | cons entry rest ih =>
      rcases ih h with hbefore | hlater
      · rw [find?_put] at hbefore
        split at hbefore
        · rename_i hname
          cases hbefore
          exact .inr (List.mem_cons.mpr (.inl (Prod.ext hname rfl)))
        · exact .inl hbefore
      · exact .inr (List.mem_cons_of_mem _ hlater)

end Bindings

/-! ## What binds a name -/

inductive PartBinds (tree : ModuleTree) (part : Node) (name : String) : Prop where
  | default (hkind : part.kind = .identifier) (htext : tree.text part = .ok name)
  | namespaced {node : Node} (hkind : part.kind = .namespaceImport)
      (hnode : part.namedChild? .identifier = some node) (htext : tree.text node = .ok name)
  | specifier {node : Node} {imported : String} (hkind : part.kind = .namedImports)
      (hnode : node ∈ part.namedChildren) (hspecifier : node.kind = .importSpecifier)
      (hnames : specifierNames tree node = .ok (imported, name))

def Imports (tree : ModuleTree) (statement : Node) (name : String) : Prop :=
  (sourceNode? statement).isSome = true ∧ ∃ clause,
    statement.namedChild? .importClause = some clause ∧
      ∃ part ∈ clause.namedChildren, PartBinds tree part name

def Declares (tree : ModuleTree) (declaration : Node) (name : String) : Prop :=
  ∃ site ∈ introduced declaration, ∃ entry, Introduces tree site entry ∧ entry.name = name

/-- What an export statement declares counts as well, by default or under its name. -/
def IsDeclared (tree : ModuleTree) (name : String) : Prop :=
  ∃ node ∈ tree.root.namedChildren, ∃ declaration ∈ declarationsOf node,
    Declares tree declaration name

def IsBound (tree : ModuleTree) (name : String) : Prop :=
  (∃ statement ∈ tree.root.namedChildren, statement.kind = .importStatement ∧
    Imports tree statement name) ∨ IsDeclared tree name

theorem isDeclared_iff : IsDeclared tree name ↔
    ∃ declaration ∈ tree.root.namedChildren.flatMap declarationsOf,
      Declares tree declaration name := by
  constructor
  · rintro ⟨node, hnode, declaration, hdeclaration, hdeclares⟩
    exact ⟨declaration, List.mem_flatMap.mpr ⟨node, hnode, hdeclaration⟩, hdeclares⟩
  · rintro ⟨declaration, hmem, hdeclares⟩
    obtain ⟨node, hnode, hdeclaration⟩ := List.mem_flatMap.mp hmem
    exact ⟨node, hnode, declaration, hdeclaration, hdeclares⟩

theorem exists_mem_flatten_iff {α β : Type} {related : α → List β → Prop} {holds : α → Prop}
    {matching : β → Prop} {inputs : List α} {lists : List (List β)}
    (hreads : List.Forall₂ related inputs lists)
    (hparts : ∀ input list, related input list → ((∃ value ∈ list, matching value) ↔ holds input)) :
    (∃ value ∈ lists.flatten, matching value) ↔ ∃ input ∈ inputs, holds input := by
  constructor
  · rintro ⟨value, hvalue, hmatching⟩
    obtain ⟨list, hlist, hvalue⟩ := List.mem_flatten.mp hvalue
    obtain ⟨input, hinput, hread⟩ := exists_left_of_forall₂ hreads hlist
    exact ⟨input, hinput, (hparts input list hread).mp ⟨value, hvalue, hmatching⟩⟩
  · rintro ⟨input, hinput, hholds⟩
    obtain ⟨list, hlist, hread⟩ := exists_right_of_forall₂ hreads hinput
    obtain ⟨value, hvalue, hmatching⟩ := (hparts input list hread).mpr hholds
    exact ⟨value, List.mem_flatten.mpr ⟨list, hlist, hvalue⟩, hmatching⟩

theorem partBinds_of_clauseBindings {specifier : String} {entries : Bindings}
    {entry : String × Binding} (h : clauseBindings tree specifier typeOnly part = .ok entries)
    (hentry : entry ∈ entries) :
    PartBinds tree part entry.1 ∧ ∀ flag, entry.2 ≠ .declared flag := by
  unfold clauseBindings at h
  split at h
  · rename_i hkind
    obtain ⟨text, htext, h⟩ := bind_eq_ok.mp h
    cases h
    cases List.mem_singleton.mp hentry
    exact ⟨.default hkind htext, by simp⟩
  · rename_i hkind
    split at h
    · cases h
      cases hentry
    · rename_i node hnode
      obtain ⟨text, htext, h⟩ := bind_eq_ok.mp h
      cases h
      cases List.mem_singleton.mp hentry
      exact ⟨.namespaced hkind hnode htext, by simp⟩
  · rename_i hkind
    obtain ⟨node, hnode, hread⟩ := exists_left_of_forall₂ (mapM_eq_ok.mp h) hentry
    obtain ⟨hnode, hspecifier⟩ := List.mem_filter.mp hnode
    obtain ⟨⟨imported, name⟩, hnames, hread⟩ := bind_eq_ok.mp hread
    cases hread
    exact ⟨.specifier hkind hnode (by simpa using hspecifier) hnames, by simp⟩
  · cases h
    cases hentry

theorem exists_of_partBinds {specifier : String} {entries : Bindings}
    (h : clauseBindings tree specifier typeOnly part = .ok entries)
    (hbinds : PartBinds tree part name) : ∃ entry ∈ entries, entry.1 = name := by
  cases hbinds with
  | default hkind htext =>
      simp only [clauseBindings, hkind] at h
      obtain ⟨text, htext', h⟩ := bind_eq_ok.mp h
      cases h
      exact ⟨_, List.mem_singleton_self _, ok_inj htext' htext⟩
  | namespaced hkind hnode htext =>
      simp only [clauseBindings, hkind, hnode] at h
      obtain ⟨text, htext', h⟩ := bind_eq_ok.mp h
      cases h
      exact ⟨_, List.mem_singleton_self _, ok_inj htext' htext⟩
  | specifier hkind hnode hspecifier hnames =>
      simp only [clauseBindings, hkind] at h
      obtain ⟨entry, hentry, hread⟩ := exists_right_of_forall₂ (mapM_eq_ok.mp h)
        (List.mem_filter.mpr ⟨hnode, by simpa using hspecifier⟩)
      obtain ⟨names, hnames', hread⟩ := bind_eq_ok.mp hread
      cases ok_inj hnames hnames'
      cases hread
      exact ⟨_, hentry, rfl⟩

theorem exists_clauseBindings {specifier : String} {entries : Bindings}
    (h : clauseBindings tree specifier typeOnly part = .ok entries) :
    (∃ entry ∈ entries, entry.1 = name) ↔ PartBinds tree part name := by
  constructor
  · rintro ⟨entry, hentry, rfl⟩
    exact (partBinds_of_clauseBindings h hentry).1
  · exact exists_of_partBinds h

theorem exists_importBindings {entries : Bindings}
    (h : importBindings tree statement = .ok entries) :
    (∃ entry ∈ entries, entry.1 = name) ↔ Imports tree statement name := by
  unfold importBindings at h
  split at h
  · rename_i source clause hsource hclause
    obtain ⟨specifier, -, h⟩ := bind_eq_ok.mp h
    obtain ⟨parts, hparts, h⟩ := bind_eq_ok.mp h
    cases h
    rw [exists_mem_flatten_iff (mapM_eq_ok.mp hparts) fun _ _ hread => exists_clauseBindings hread]
    simp [Imports, hsource, hclause]
  · rename_i hmissing
    cases h
    simp only [List.not_mem_nil, false_and, exists_false, false_iff]
    rintro ⟨hsource, clause, hclause, -⟩
    obtain ⟨source, hsource⟩ := Option.isSome_iff_exists.mp hsource
    exact hmissing source clause hsource hclause

theorem exists_declaredNames {strict : Bool} {names : List DeclaredName}
    (h : declaredNames tree strict declaration = .ok names) :
    (∃ entry ∈ names, entry.name = name) ↔ Declares tree declaration name := by
  have hentries := introduces_declaredNames strict declaration names h
  constructor
  · rintro ⟨entry, hentry, rfl⟩
    obtain ⟨site, hsite, hintroduces⟩ := exists_left_of_forall₂ hentries hentry
    exact ⟨site, hsite, entry, hintroduces, rfl⟩
  · rintro ⟨site, hsite, other, hother, rfl⟩
    obtain ⟨entry, hentry, hintroduces⟩ := exists_right_of_forall₂ hentries hsite
    refine ⟨entry, hentry, ?_⟩
    cases hother with
    | declared htext =>
        cases hintroduces with
        | declared htext' => rw [ok_inj htext htext']
    | identifier htext =>
        cases hintroduces with
        | identifier htext' => exact ok_inj htext' htext

/-- The bindings of a module have a name exactly if something binds it. -/
theorem binds_iff (h : bindingsOf tree = .ok bindings) :
    bindings.Binds name ↔ IsBound tree name := by
  obtain ⟨imported, himported, h⟩ := bind_eq_ok.mp h
  obtain ⟨declared, hdeclared, h⟩ := bind_eq_ok.mp h
  cases h
  have hnone : ¬ Bindings.Binds [] name := by simp [Bindings.Binds, Bindings.find?]
  rw [Bindings.binds_foldl_declare, Bindings.binds_foldl_put, or_iff_right hnone,
    exists_mem_flatten_iff (mapM_eq_ok.mp himported) fun _ _ hread => exists_importBindings hread,
    exists_mem_flatten_iff (mapM_eq_ok.mp hdeclared) fun _ _ hread => exists_declaredNames hread]
  exact or_congr (by simp [and_assoc]) isDeclared_iff.symm

/-! ## Definitions -/

theorem introduced_of_sitesOf {site : Site} (hsite : site ∈ sitesOf statement)
    (h : Introduces tree site entry) :
    ∃ declaration, statement.child? "declaration" = some declaration ∧
      site ∈ introduced declaration := by
  unfold sitesOf at hsite
  split at hsite
  · cases List.mem_singleton.mp hsite
    cases h
  split at hsite
  · rename_i declaration hdeclaration
    exact ⟨declaration, hdeclaration, hsite⟩
  split at hsite
  · cases List.mem_singleton.mp hsite
    cases h
  split at hsite
  · obtain ⟨specifier, -, rfl⟩ := List.mem_map.mp hsite
    cases h
  split at hsite
  · cases List.mem_singleton.mp hsite
    cases h
  · cases hsite

theorem mem_declarationsOf (hstatement : statement ∈ exportStatements tree)
    (hdeclaration : statement.child? "declaration" = some declaration) :
    declaration ∈ tree.root.namedChildren.flatMap declarationsOf := by
  obtain ⟨hnode, hkind⟩ := List.mem_filter.mp hstatement
  refine List.mem_flatMap.mpr ⟨statement, hnode, ?_⟩
  rw [decide_eq_true_eq] at hkind
  simp [declarationsOf, hkind, exportedNode?, hdeclaration]

theorem ne_declared_of_importBindings {statement : Node} {entries : Bindings}
    (h : importBindings tree statement = .ok entries) : (name, .declared typeOnly) ∉ entries := by
  intro hmem
  unfold importBindings at h
  split at h
  · obtain ⟨specifier, -, h⟩ := bind_eq_ok.mp h
    obtain ⟨parts, hparts, h⟩ := bind_eq_ok.mp h
    cases h
    obtain ⟨entries, hentries, hmem⟩ := List.mem_flatten.mp hmem
    obtain ⟨part, -, hread⟩ := exists_left_of_forall₂ (mapM_eq_ok.mp hparts) hentries
    exact (partBinds_of_clauseBindings hread hmem).2 typeOnly rfl
  · cases h
    cases hmem

theorem isDeclared_of_find? (h : bindingsOf tree = .ok bindings)
    (hfind : bindings.find? name = some (.declared typeOnly)) : IsDeclared tree name := by
  obtain ⟨imported, himported, h⟩ := bind_eq_ok.mp h
  obtain ⟨declared, hdeclared, h⟩ := bind_eq_ok.mp h
  cases h
  rcases Bindings.isDeclaration_foldl_declare ⟨typeOnly, hfind⟩ with ⟨flag, hbefore⟩ |
    ⟨entry, hentry, hname⟩
  · rcases Bindings.find?_foldl_put hbefore with hnone | hmem
    · cases hnone
    · obtain ⟨entries, hentries, hmem⟩ := List.mem_flatten.mp hmem
      obtain ⟨statement, -, hread⟩ := exists_left_of_forall₂ (mapM_eq_ok.mp himported) hentries
      exact absurd hmem (ne_declared_of_importBindings hread)
  · exact isDeclared_iff.mpr ((exists_mem_flatten_iff (mapM_eq_ok.mp hdeclared)
      fun _ _ hread => exists_declaredNames hread).mp ⟨entry, hentry, hname⟩)

theorem isDeclared_of_definition (hscan : scan tree = .ok scanned)
    (hmem : definition ∈ scanned.surface.definitions) :
    match definition.localName with
    | some name => IsDeclared tree name
    | none => definition.kind = .default ∧ definition.name = none ∨
        definition.kind = .named ∧ ∃ name, definition.name = some name ∧ IsDeclared tree name := by
  obtain ⟨statement, hstatement, site, hsite, hrecord⟩ :=
    exists_site_of_scan hscan (Surface.mem_items_definition.mpr hmem)
  rcases hrecord.definition_cases with ⟨hkind, hname, hlocal⟩ | ⟨entry, hentry, rfl⟩ |
    ⟨entry, bindings, binding, hbindings, hfind, hbind⟩
  · rw [hlocal]
    exact .inl ⟨hkind, hname⟩
  · obtain ⟨declaration, hdeclaration, hsite⟩ := introduced_of_sitesOf hsite hentry
    exact .inr ⟨rfl, entry.name, rfl, isDeclared_iff.mpr ⟨declaration,
      mem_declarationsOf hstatement hdeclaration, site, hsite, entry, hentry, rfl⟩⟩
  · rw [(typeOnly_of_bind hbind.symm).1]
    cases binding with
    | declared flag => exact isDeclared_of_find? hbindings hfind
    | _ => cases hbind

end Module

end FlatExports
