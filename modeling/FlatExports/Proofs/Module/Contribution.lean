import FlatExports.Proofs.Module.Sites

/-!
What an export statement contributes.

A statement that can be read has an inline definition, a re-export or a pending
export for each of its sites, and it is a re-export statement exactly if its
sites are not inline.  `Contributes` says all of that once; whatever else is
known of contributions follows from it.
-/

namespace FlatExports

namespace Module

open FlatExports.Syntax

variable {tree : ModuleTree} {statement declaration node : Node} {contribution : Contribution}

/-! ## Declarations -/

/-- What a declaration makes of a site. -/
inductive Introduces (tree : ModuleTree) : Site → DeclaredName → Prop where
  | declared {declaration name : Node} {text : String} (htext : tree.text name = .ok text) :
      Introduces tree (.declared declaration name)
        ⟨if declaration.kind.isModuleDeclaration then headOfPath text else text,
          declaration.kind.isTypeDeclaration, declaration.start⟩
  | identifier {node : Node} {text : String} (htext : tree.text node = .ok text) :
      Introduces tree (.identifier node) ⟨text, false, node.start⟩

theorem isModuleDeclaration_eq_false {kind : Kind}
    (h : (kind.isTypeDeclaration || kind.isNamedDeclaration || kind.isNamedExpression) = true) :
    kind.isModuleDeclaration = false := by
  cases kind <;> first | rfl | cases h

theorem introduces_named {name? : Option Node} {otherwise : Except Failure (List DeclaredName)}
    {entryOf : String → DeclaredName} {names : List DeclaredName}
    (hotherwise : otherwise = .ok names → names = [])
    (hentry : ∀ text, entryOf text =
      ⟨if node.kind.isModuleDeclaration then headOfPath text else text,
        node.kind.isTypeDeclaration, node.start⟩)
    (h : (match name? with
      | none => otherwise
      | some name => do
          let text ← tree.text name
          return [entryOf text]) = .ok names) :
    List.Forall₂ (Introduces tree) (name?.toList.map (.declared node)) names := by
  cases name? with
  | none =>
      rw [hotherwise h]
      exact .nil
  | some name =>
      obtain ⟨text, htext, h⟩ := bind_eq_ok.mp h
      cases h
      rw [hentry]
      exact .cons (.declared htext) .nil

theorem introduces_plainDeclaredNames {strict : Bool} {names : List DeclaredName}
    (h : plainDeclaredNames tree strict node = .ok names) :
    List.Forall₂ (Introduces tree) (plainIntroduced node) names := by
  have hrefused (construct : Construct)
      (h : (if strict then .error (.unsupported tree.file construct) else .ok [] :
        Except Failure (List DeclaredName)) = .ok names) : names = [] := by
    split at h
    · cases h
    · cases h
      rfl
  unfold plainDeclaredNames at h
  dsimp only at h
  unfold plainIntroduced
  split
  · rename_i hnamed
    have hmodule := isModuleDeclaration_eq_false hnamed
    split at h
    · exact introduces_named (hrefused _) (by simp [hmodule]) h
    · rename_i hplain
      rw [if_pos (by simpa [hplain] using hnamed)] at h
      have htype : node.kind.isTypeDeclaration = false := by simp_all
      refine introduces_named (fun h => ?_) (by simp [hmodule, htype]) h
      cases h
      rfl
  rename_i hunnamed
  simp only [Bool.or_eq_true, not_or, Bool.not_eq_true] at hunnamed
  obtain ⟨⟨htype, hplain⟩, hvalue⟩ := hunnamed
  simp only [htype, hplain, hvalue, Bool.or_self, Bool.false_eq_true, if_false] at h
  split
  · rename_i hkind
    rw [if_pos hkind] at h
    rw [List.forall₂_map_left_iff]
    refine (mapM_eq_ok.mp h).imp fun identifier entry hread => ?_
    obtain ⟨text, htext, hread⟩ := bind_eq_ok.mp hread
    cases hread
    exact .identifier htext
  rename_i hbinding
  rw [if_neg hbinding] at h
  split
  · rename_i hkind
    rw [if_pos hkind] at h
    refine introduces_named (fun h => ?_) (by simp [hkind, htype]) h
    split at h
    · obtain ⟨text, -, h⟩ := bind_eq_ok.mp h
      cases h
    · cases h
      rfl
  · rename_i hother
    rw [if_neg hother] at h
    rw [hrefused _ h]
    exact .nil

mutual

theorem introduces_declaredNames (strict : Bool) : ∀ (node : Node) (names : List DeclaredName),
    declaredNames tree strict node = .ok names →
      List.Forall₂ (Introduces tree) (introduced node) names
  | ⟨info, children⟩, names, h => by
      rw [declaredNames] at h
      rw [introduced]
      split at h
      · rename_i hambient
        rw [if_pos hambient]
        exact introduces_ambientNames strict children names h
      · rename_i hplain
        rw [if_neg hplain]
        exact introduces_plainDeclaredNames h

theorem introduces_ambientNames (strict : Bool) : ∀ (children : List Node)
    (names : List DeclaredName), ambientNames tree strict children = .ok names →
      List.Forall₂ (Introduces tree) (introducedAmong children) names
  | [], _, h => by
      rw [ambientNames] at h
      cases h
      exact .nil
  | child :: rest, names, h => by
      rw [ambientNames] at h
      rw [introducedAmong]
      split at h
      · rename_i hlocal
        obtain ⟨first, hfirst, h⟩ := bind_eq_ok.mp h
        obtain ⟨others, hothers, h⟩ := bind_eq_ok.mp h
        cases h
        rw [if_pos hlocal]
        exact List.rel_append (introduces_declaredNames strict child first hfirst)
          (introduces_ambientNames strict rest others hothers)
      · rename_i hother
        obtain ⟨first, hfirst, h⟩ := bind_eq_ok.mp h
        obtain ⟨others, hothers, h⟩ := bind_eq_ok.mp h
        cases hfirst
        cases h
        rw [if_neg hother]
        exact introduces_ambientNames strict rest others hothers

end

/-! ## Statements -/

structure ReadsSpecifier (tree : ModuleTree) (statement node : Node) (entry : PendingExport) :
    Prop where
  names : specifierNames tree node = .ok (entry.localName, entry.exportedName)
  typeOnly : entry.typeOnly = (statement.hasWord .typeWord || hasTypeModifier node)
  position : entry.position = node.start

/-- What a statement contributes for its sites. -/
inductive Contributes (tree : ModuleTree) (statement : Node) : List Site → Contribution → Prop where
  | default : Contributes tree statement [.default statement] (readDefault statement)
  | declared {sites : List Site} {names : List DeclaredName}
      (hnames : List.Forall₂ (Introduces tree) sites names) :
      Contributes tree statement sites (.ofDefinitions (names.map fun entry =>
        ⟨.named, some entry.name, entry.typeOnly, entry.position, none⟩))
  | namespaced {source part name : Node} {specifier exported : String}
      (hsource : sourceNode? statement = some source)
      (hspecifier : tree.moduleName source = .ok specifier)
      (hpart : statement.namedChild? .namespaceExport = some part)
      (hname : part.namedChildren.getLast? = some name)
      (hexported : tree.moduleName name = .ok exported) :
      Contributes tree statement [.namespaced statement] (.ofReExport
        (namespaceEdge specifier exported (statement.hasWord .typeWord) statement.start))
  | sourced {source : Node} {specifier : String} {specifiers : List Node}
      {entries : List PendingExport} (hsource : sourceNode? statement = some source)
      (hspecifier : tree.moduleName source = .ok specifier)
      (hentries : List.Forall₂ (ReadsSpecifier tree statement) specifiers entries) :
      Contributes tree statement (specifiers.map (.specifier statement))
        ⟨[], entries.map fun entry => namedEdge specifier entry.localName entry.exportedName
          entry.typeOnly entry.position, [], !specifiers.isEmpty⟩
  | pending {specifiers : List Node} {entries : List PendingExport}
      (hsource : sourceNode? statement = none)
      (hentries : List.Forall₂ (ReadsSpecifier tree statement) specifiers entries) :
      Contributes tree statement (specifiers.map (.specifier statement))
        ⟨[], [], entries, !specifiers.isEmpty⟩
  | wildcard {source : Node} {specifier : String} (hsource : sourceNode? statement = some source)
      (hspecifier : tree.moduleName source = .ok specifier) :
      Contributes tree statement [.wildcard statement] (.ofReExport
        (wildcardEdge specifier (statement.hasWord .typeWord) statement.start))

theorem readsSpecifier_entries {specifiers : List Node}
    {entries : List (String × String × Bool × Nat)} (h : (specifiers.mapM fun node => do
      let (imported, exported) ← specifierNames tree node
      return (imported, exported, statement.hasWord .typeWord || hasTypeModifier node,
        node.start)) = .ok entries) :
    List.Forall₂ (ReadsSpecifier tree statement) specifiers
      (entries.map fun (imported, exported, typed, position) =>
        ⟨imported, exported, typed, position⟩) := by
  rw [List.forall₂_map_right_iff]
  refine (mapM_eq_ok.mp h).imp fun node entry hread => ?_
  obtain ⟨⟨imported, exported⟩, hnames, hread⟩ := bind_eq_ok.mp hread
  cases hread
  exact ⟨hnames, rfl, rfl⟩

theorem readClause_contributes_sourced {clause source : Node} {specifier : String}
    (hsource : sourceNode? statement = some source)
    (hspecifier : tree.moduleName source = .ok specifier)
    (h : readClause tree clause (some specifier) (statement.hasWord .typeWord) = .ok contribution) :
    Contributes tree statement ((clauseSpecifiers clause).map (.specifier statement))
      contribution := by
  obtain ⟨entries, hentries, h⟩ := bind_eq_ok.mp h
  cases h
  have hcontributes := Contributes.sourced hsource hspecifier (readsSpecifier_entries hentries)
  rw [List.map_map] at hcontributes
  exact hcontributes

theorem readClause_contributes_pending {clause : Node}
    (hsource : sourceNode? statement = none)
    (h : readClause tree clause none (statement.hasWord .typeWord) = .ok contribution) :
    Contributes tree statement ((clauseSpecifiers clause).map (.specifier statement))
      contribution := by
  obtain ⟨entries, hentries, h⟩ := bind_eq_ok.mp h
  cases h
  exact .pending hsource (readsSpecifier_entries hentries)

theorem readReExport_contributes
    (hdefault : ¬ statement.hasWord .defaultWord = true)
    (hdeclaration : statement.child? "declaration" = none)
    (h : readReExport tree statement = .ok contribution) :
    Contributes tree statement (sitesOf statement) contribution := by
  unfold readReExport at h
  dsimp only at h
  split at h
  · obtain ⟨text, -, hthrow⟩ := bind_eq_ok.mp h
    obtain ⟨_, hthrow, -⟩ := bind_eq_ok.mp hthrow
    cases hthrow
  split at h
  · obtain ⟨text, -, hthrow⟩ := bind_eq_ok.mp h
    obtain ⟨_, hthrow, -⟩ := bind_eq_ok.mp hthrow
    cases hthrow
  obtain ⟨specifier?, hread, h⟩ := bind_eq_ok.mp h
  unfold sitesOf
  rw [if_neg hdefault, hdeclaration]
  cases hsource : sourceNode? statement with
  | none =>
      rw [hsource] at hread
      cases hread
      cases hclause : statement.namedChild? .exportClause with
      | none =>
          simp only [hclause] at h
          obtain ⟨text, -, hthrow⟩ := bind_eq_ok.mp h
          cases hthrow
      | some clause =>
          simp only [hclause] at h
          exact readClause_contributes_pending hsource h
  | some source =>
      rw [hsource] at hread
      obtain ⟨specifier, hspecifier, hread⟩ := bind_eq_ok.mp hread
      cases hread
      cases hpart : statement.namedChild? .namespaceExport with
      | some part =>
          simp only [hpart] at h
          split at h
          · rename_i name hname
            obtain ⟨exported, hexported, h⟩ := bind_eq_ok.mp h
            cases h
            exact .namespaced hsource hspecifier hpart hname hexported
          · cases h
      | none =>
          cases hclause : statement.namedChild? .exportClause with
          | some clause =>
              simp only [hpart, hclause] at h
              exact readClause_contributes_sourced hsource hspecifier h
          | none =>
              simp only [hpart, hclause] at h
              split at h
              · rename_i hstar
                cases h
                simpa [hstar] using Contributes.wildcard hsource hspecifier
              · obtain ⟨text, -, hthrow⟩ := bind_eq_ok.mp h
                cases hthrow

theorem readExport_contributes (h : readExport tree statement = .ok contribution) :
    Contributes tree statement (sitesOf statement) contribution := by
  unfold readExport at h
  split at h
  · rename_i hdefault
    cases h
    rw [sitesOf, if_pos hdefault]
    exact .default
  rename_i hdefault
  split at h
  · rename_i declaration hdeclaration
    unfold readDeclaration at h
    split at h
    · obtain ⟨text, -, hthrow⟩ := bind_eq_ok.mp h
      cases hthrow
    · obtain ⟨names, hnames, h⟩ := bind_eq_ok.mp h
      cases h
      rw [sitesOf, if_neg hdefault, hdeclaration]
      exact .declared (introduces_declaredNames true declaration names hnames)
  · rename_i hdeclaration
    exact readReExport_contributes hdefault hdeclaration h

theorem Contributes.position_wildcard {sites : List Site} {edge : ReExport}
    (h : Contributes tree statement sites contribution) (hedge : edge ∈ contribution.reExports)
    (hkind : edge.kind = .wildcard) : edge.position = statement.start := by
  cases h with
  | default | declared | pending => cases hedge
  | namespaced =>
      cases List.mem_singleton.mp hedge
      cases hkind
  | sourced =>
      obtain ⟨entry, -, rfl⟩ := List.mem_map.mp hedge
      exact absurd hkind kind_namedEdge
  | wildcard =>
      cases List.mem_singleton.mp hedge
      rfl

end Module

end FlatExports
