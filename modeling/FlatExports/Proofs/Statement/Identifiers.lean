import FlatExports.Proofs.Statement.Locals
import FlatExports.Proofs.Statement.Print

/-!
Local names as they are printed.

What a specifier without a source names is declared on the top level of the
root, by an identifier of whatever script.  The printer writes the name bare if
it is made of ASCII characters only, up to a line feed at its end, and takes
every other one for a module export name, which it writes as a string.
-/

namespace FlatExports

open FlatExports.Text

variable {style : QuoteStyle} {value : String}

/-! ## Names and literals -/

theorem Text.length_le_escaped (mark : Char) (cs : List Char) :
    cs.length ≤ (escaped mark cs).length := by
  induction cs with
  | nil => exact Nat.le_refl _
  | cons c rest ih =>
      rw [escaped]
      split <;> simp <;> omega

theorem Text.literal_ne_self (mark : Char) (value : String) : literal mark value ≠ value := by
  intro h
  have hlength := congrArg (fun text => text.toList.length) h
  have hle := length_le_escaped mark value.toList
  simp only [toList_literal, List.length_cons, List.length_append] at hlength
  omega

/-- What the printer takes for an identifier; a line feed behind one does not count. -/
def IsBareName (value : String) : Prop :=
  isIdentifier value.toList = true ∨
    ∃ stem, isIdentifier stem = true ∧ value.toList = stem ++ ['\n']

namespace Statement

theorem nameText_eq_self_iff : nameText style.mark value = value ↔ IsBareName value := by
  rw [IsBareName, ← standsBare_iff, nameText]
  split
  · rename_i hbare
    simp [hbare]
  · rename_i hquoted
    simp [literal_ne_self, hquoted]

theorem nameText_eq_literal (h : ¬IsBareName value) :
    nameText style.mark value = literal style.mark value := by
  rw [IsBareName, ← standsBare_iff] at h
  rw [nameText, if_neg h]

theorem exists_specifierText (mark : Char) (specifier : ExportSpecifier) :
    ∃ behind, specifierText mark specifier =
        typePrefix specifier.typeOnly ++ nameText mark specifier.localName ++ behind ∧
      (behind = "" ∨ behind = " as " ++ nameText mark specifier.exportedName) := by
  unfold specifierText
  dsimp only
  split
  · exact ⟨"", by simp, .inl rfl⟩
  · exact ⟨_, by rw [String.append_assoc], .inr rfl⟩

open Resolution
open ExportGroup (ofExports)
open Lookup (StandingFile)

variable {lookup : Lookup} {read : Survey.Reader} {root : Location} {exports : List Resolved}
  {statements : List Statement} {statement : Statement} {specifier : ExportSpecifier}

theorem home_of_sourceless {surface : Surface} (hstands : StandingFile lookup.volume root)
    (hread : read root = .ok surface) (hrun : (exportsOf lookup root).run read = .ok exports)
    (hrender : render lookup root (ofExports exports) = .ok statements)
    (hstatement : statement ∈ statements) (hsource : statement.source = none)
    (hspecifier : specifier ∈ statement.specifiers) :
    ∃ entry, Home root surface entry ∧ entry.inline = false ∧
      entry.localName = some specifier.localName := by
  have hexports := supplied_of_exportsOf hstands hrun
  obtain ⟨group, hgroup, hspecifies⟩ := specifies_of_render hrender hstatement hspecifier
  cases hspecifies with
  | @bound entry hown hkind _ hentry hlocal hmoved =>
      obtain ⟨-, hhome | hpackage⟩ :=
        home_or_underPath_of_group hstands hread hexports hgroup hentry hown hkind
      · exact ⟨entry, hhome, hmoved, hlocal⟩
      · cases hpackage.unbound.symm.trans hlocal
  | free _ _ hsome => cases hsource.symm.trans hsome
  | foreign _ hsome => cases hsource.symm.trans hsome

/--
A specifier without a source names a declaration on the top level of the root,
and its text begins with that name.  The name is bare exactly if it is made of
ASCII letters, digits, `_` and `$` as an identifier is, up to a line feed at its
end; any other name is a string literal, whatever the grammar takes it for.
-/
theorem local_name_text {tree : Syntax.ModuleTree} {scanned : Module.Scan} (style : QuoteStyle)
    (hstands : StandingFile lookup.volume root) (hscan : Module.scan tree = .ok scanned)
    (hread : read root = .ok scanned.surface)
    (hrun : (exportsOf lookup root).run read = .ok exports)
    (hrender : render lookup root (ofExports exports) = .ok statements)
    (hstatement : statement ∈ statements) (hsource : statement.source = none)
    (hspecifier : specifier ∈ statement.specifiers) :
    (Module.IsDeclared tree specifier.localName ∨ ∃ definition ∈ scanned.surface.definitions,
      definition.localName = some "" ∧ definition.name = some specifier.localName) ∧
    (∃ behind, specifierText style.mark specifier =
        typePrefix specifier.typeOnly ++ nameText style.mark specifier.localName ++ behind ∧
      (behind = "" ∨ behind = " as " ++ nameText style.mark specifier.exportedName)) ∧
    ∀ value, (nameText style.mark value = value ↔ IsBareName value) ∧
      (¬IsBareName value → nameText style.mark value = literal style.mark value) := by
  obtain ⟨entry, hhome, hmoved, hlocal⟩ :=
    home_of_sourceless hstands hread hrun hrender hstatement hsource hspecifier
  exact ⟨Home.isDeclared hscan hhome hmoved hlocal, exists_specifierText _ _,
    fun value => ⟨nameText_eq_self_iff, nameText_eq_literal⟩⟩

def accentedBarrel : Lookup where
  settings := .default
  volume := .ofTexts
    [("/proj/index.ts", "const é = 1, b = 2; export { é as x, b }; export * from './a';"),
      ("/proj/a.ts", "export const a = 1;")]

def accentedSurface : Surface :=
  ⟨[⟨.named, some "x", false, 30, some "é"⟩, ⟨.named, some "b", false, 39, some "b"⟩],
    [Module.wildcardEdge "./a" false 44]⟩

def accentedExports : List Resolved :=
  [⟨"x", "/proj/index.ts", "x", false, .named, false, some "é", false⟩,
    ⟨"b", "/proj/index.ts", "b", false, .named, false, some "b", false⟩,
    ⟨"a", "/proj/a.ts", "a", false, .named, false, none, true⟩]

def accentedStatements : List Statement :=
  [named none [⟨"é", "x", false⟩, ⟨"b", "b", false⟩], named (some "./a") [⟨"a", "a", false⟩]]

theorem read_accentedBarrel :
    Module.loadSurface accentedBarrel.volume (.ofPath "/proj/index.ts") = .ok accentedSurface := by
  decide +kernel

theorem exportsOf_accentedBarrel :
    (exportsOf accentedBarrel (.ofPath "/proj/index.ts")).run
        (Module.loadSurface accentedBarrel.volume) = .ok accentedExports := by
  have hroot : accentedBarrel.volume.resolve (.ofPath "/proj/index.ts") =
      .ofPath "/proj/index.ts" := by decide +kernel
  have hwildcard : (collectItem (.ofLookup accentedBarrel)
      (Resolution.expand (.ofLookup accentedBarrel) 255 [.ofPath "/proj/index.ts"] false)
      [.ofPath "/proj/index.ts"] (.ofPath "/proj/index.ts") true
      (.reExport (Module.wildcardEdge "./a" false 44))).run
        (Module.loadSurface accentedBarrel.volume) =
      .ok [⟨⟨"a", "/proj/a.ts", "a", false, .named, false, none, true⟩, true⟩] := by
    decide +kernel
  rw [exportsOf, hroot]
  exact expand_of_items read_accentedBarrel (Surface.items_of_pairwise rfl (by decide))
    (.cons rfl (.cons rfl (.cons hwildcard .nil)))

theorem render_accentedBarrel :
    render accentedBarrel (.ofPath "/proj/index.ts") (ofExports accentedExports) =
      .ok accentedStatements := by
  decide +kernel

theorem local_name_text_accentedBarrel :
    ∃ tree, Module.loadTree .utf8 accentedBarrel.volume (.ofPath "/proj/index.ts") = .ok tree ∧
      Module.IsDeclared tree "é" ∧ Module.IsDeclared tree "b" ∧
      nameText QuoteStyle.single.mark "é" = literal '\'' "é" ∧
      nameText QuoteStyle.single.mark "b" = "b" := by
  have hstands : StandingFile accentedBarrel.volume (.ofPath "/proj/index.ts") :=
    Lookup.standingFile_of_resolveFile (.ofPath "/proj/index") (by decide) (by decide +kernel)
  obtain ⟨scanned, hscanned, haccented⟩ := bind_eq_ok.mp read_accentedBarrel
  obtain ⟨tree, htree, hscan⟩ := bind_eq_ok.mp hscanned
  have haccented : scanned.surface = accentedSurface := Except.ok.inj haccented
  have hread : Module.loadSurface accentedBarrel.volume (.ofPath "/proj/index.ts") =
      .ok scanned.surface := by
    rw [haccented]
    exact read_accentedBarrel
  have hnamed : ∀ definition ∈ scanned.surface.definitions, definition.localName ≠ some "" := by
    rw [haccented]
    decide
  have hspecifier {specifier : ExportSpecifier} (hmem : specifier ∈
      (named none [⟨"é", "x", false⟩, ⟨"b", "b", false⟩]).specifiers) :=
    local_name_text .single hstands hscan hread exportsOf_accentedBarrel render_accentedBarrel
      (.head _) rfl hmem
  obtain ⟨haccent, -, hvalues⟩ := hspecifier (.head _)
  obtain ⟨hplain, -, -⟩ := hspecifier (.tail _ (.head _))
  refine ⟨tree, htree, haccent.resolve_right ?_, hplain.resolve_right ?_, (hvalues "é").2 ?_,
    (hvalues "b").1.mpr (.inl (by decide))⟩
  · rintro ⟨definition, hmem, hempty, -⟩
    exact hnamed definition hmem hempty
  · rintro ⟨definition, hmem, hempty, -⟩
    exact hnamed definition hmem hempty
  · rw [IsBareName, ← standsBare_iff]
    decide

def isIdentifierOf (tree : Syntax.ModuleTree) (name : String) : Bool :=
  tree.root.namedChildren.any fun top =>
    (Module.declarationsOf top).any fun declaration =>
      (Module.introduced declaration).any fun
        | .identifier node => node.kind = .identifier && tree.text node = .ok name
        | _ => false

/-- The text of an identifier is printed as a string, and a name that is no identifier bare. -/
theorem identifier_printed_as_string :
    (∃ tree scanned exports statements,
      Module.loadTree .utf8 accentedBarrel.volume (.ofPath "/proj/index.ts") = .ok tree ∧
      Module.scan tree = .ok scanned ∧
      (exportsOf accentedBarrel (.ofPath "/proj/index.ts")).run
        (Module.loadSurface accentedBarrel.volume) = .ok exports ∧
      render accentedBarrel (.ofPath "/proj/index.ts") (ofExports exports) = .ok statements ∧
      ∃ statement ∈ statements, statement.source = none ∧ ∃ specifier ∈ statement.specifiers,
        isIdentifierOf tree specifier.localName = true ∧
          specifierText QuoteStyle.single.mark specifier = "'é' as x") ∧
    nameText QuoteStyle.single.mark "a\n" = "a\n" ∧ isIdentifier "a\n".toList = false := by
  have hidentifier : (Module.loadTree .utf8 accentedBarrel.volume
      (.ofPath "/proj/index.ts")).toOption.any (isIdentifierOf · "é") = true := by
    decide +kernel
  obtain ⟨scanned, hscanned, -⟩ := bind_eq_ok.mp read_accentedBarrel
  obtain ⟨tree, htree, hscan⟩ := bind_eq_ok.mp hscanned
  rw [htree] at hidentifier
  exact ⟨⟨tree, scanned, accentedExports, accentedStatements, htree, hscan,
    exportsOf_accentedBarrel, render_accentedBarrel, _, .head _, rfl, _, .head _, hidentifier,
    by decide +kernel⟩, by decide +kernel, by decide⟩

end Statement

end FlatExports
