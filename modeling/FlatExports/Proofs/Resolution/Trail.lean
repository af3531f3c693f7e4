import FlatExports.Proofs.Module.Items
import FlatExports.Proofs.Survey
import FlatExports.Module.Load
import FlatExports.Resolution.Trace
import FlatExports.Volume.Edit
import FlatExports.Syntax.Typescript
import Mathlib.Data.List.Nodup

/-!
The trail a trace leaves.

A trace goes from hop to hop and ends where something is defined or where it
meets a package or a namespace.  `Step` and `Ends` say what one hop can do,
`Trail` strings them together, and `trace_trail` finds the trail of every trace
that comes to an end.
-/

namespace FlatExports

def Volume.ofTexts (files : List (String × String)) : Volume :=
  files.foldl (fun volume file => volume.write (.ofPath file.1) (Text.bytesOf file.2)) .empty

structure Provenance where
  kind : ExportKind
  origin : String
  originName : String
  external : Bool
  deriving DecidableEq, Repr

def Resolved.provenance (export_ : Resolved) : Provenance :=
  ⟨export_.kind, export_.origin, export_.originName, export_.external⟩

@[simp] theorem Resolved.provenance_asValue (export_ : Resolved) :
    export_.asValue.provenance = export_.provenance := rfl

namespace Resolution

variable {resolver : Resolver} {read : Survey.Reader}

/-- One hop of a trace leads to the next; the flag is the modifier of the edge. -/
inductive Step (resolver : Resolver) (read : Survey.Reader) : Hop → Bool → Hop → Prop
  | edge {module name surface edge imported target}
      (hread : read module = .ok surface)
      (hundefined : surface.definitionsOf name = [])
      (hedge : surface.reExportOf? name = some edge)
      (hkind : edge.kind ≠ .namespaced)
      (himported : edge.importedName = some imported)
      (hinternal : Specifier.isInternal edge.specifier = true)
      (hlocate : resolver.locate edge.specifier module = .ok target) :
      Step resolver read ⟨module, name⟩ edge.typeOnly ⟨target, imported⟩
  | wildcard {module name surface edge target}
      (hread : read module = .ok surface)
      (hundefined : surface.definitionsOf name = [])
      (hunnamed : surface.reExportOf? name = none)
      (hname : name ≠ defaultName)
      (hedge : edge ∈ surface.wildcards)
      (hinternal : Specifier.isInternal edge.specifier = true)
      (hlocate : resolver.locate edge.specifier module = .ok target) :
      Step resolver read ⟨module, name⟩ edge.typeOnly ⟨target, name⟩

/-- A hop at which a trace ends, and with what. -/
inductive Ends (resolver : Resolver) (read : Survey.Reader) : Hop → Bool → Provenance → Prop
  | definition {module name surface}
      (hread : read module = .ok surface)
      (hdefined : surface.definitionsOf name ≠ []) :
      Ends resolver read ⟨module, name⟩ false ⟨.named, module.written, name, false⟩
  | packageEdge {module name surface edge imported}
      (hread : read module = .ok surface)
      (hundefined : surface.definitionsOf name = [])
      (hedge : surface.reExportOf? name = some edge)
      (hkind : edge.kind ≠ .namespaced)
      (himported : edge.importedName = some imported)
      (hexternal : Specifier.isInternal edge.specifier = false) :
      Ends resolver read ⟨module, name⟩ edge.typeOnly ⟨.named, edge.specifier, imported, true⟩
  | packageNamespace {module name surface edge}
      (hread : read module = .ok surface)
      (hundefined : surface.definitionsOf name = [])
      (hedge : surface.reExportOf? name = some edge)
      (hkind : edge.kind = .namespaced)
      (hexternal : Specifier.isInternal edge.specifier = false) :
      Ends resolver read ⟨module, name⟩ edge.typeOnly ⟨.namespaced, edge.specifier, wildcardName, true⟩
  | moduleNamespace {module name surface edge target}
      (hread : read module = .ok surface)
      (hundefined : surface.definitionsOf name = [])
      (hedge : surface.reExportOf? name = some edge)
      (hkind : edge.kind = .namespaced)
      (hinternal : Specifier.isInternal edge.specifier = true)
      (hlocate : resolver.locate edge.specifier module = .ok target) :
      Ends resolver read ⟨module, name⟩ edge.typeOnly ⟨.namespaced, target.written, wildcardName, false⟩
  | packageWildcard {module name surface edge}
      (hread : read module = .ok surface)
      (hundefined : surface.definitionsOf name = [])
      (hunnamed : surface.reExportOf? name = none)
      (hname : name ≠ defaultName)
      (honly : surface.wildcards.filter (fun edge => !Specifier.isInternal edge.specifier) =
        [edge]) :
      Ends resolver read ⟨module, name⟩ edge.typeOnly ⟨.named, edge.specifier, name, true⟩

/-- The hops of a trace, the modifiers on the way taken together, and the end. -/
inductive Trail (resolver : Resolver) (read : Survey.Reader) :
    List Hop → Bool → Provenance → Prop
  | ends {hop typed provenance} (hends : Ends resolver read hop typed provenance) :
      Trail resolver read [hop] typed provenance
  | step {hop next hops typed further provenance}
      (hstep : Step resolver read hop typed next)
      (hrest : Trail resolver read (next :: hops) further provenance) :
      Trail resolver read (hop :: next :: hops) (typed || further) provenance

/-! ## What the parts of a search find -/

section

variable {search : Search} {module : Location} {edge : ReExport} {name imported : String}
  {typeOnly : Bool} {found : Resolved} {chain : List Hop} {surface : Surface}

theorem nameOf_eq_ok {field : String} {name? : Option String} :
    nameOf field name? = .ok name ↔ name? = some name := by
  cases name? with
  | none => simp [nameOf]
  | some other => simp [nameOf]

theorem searchTarget_eq_ok :
    (searchTarget resolver search module edge imported typeOnly).run read = .ok found ↔
      ∃ target, resolver.locate edge.specifier module = .ok target ∧
        (search target imported typeOnly).run read = .ok (some found) := by
  simp only [searchTarget, Survey.run_bind_eq_ok, Survey.run_ofExcept]
  constructor
  · rintro ⟨target, hlocate, result, hsearch, hfound⟩
    cases result with
    | none => cases hfound
    | some other =>
        cases hfound
        exact ⟨target, hlocate, hsearch⟩
  · rintro ⟨target, hlocate, hsearch⟩
    exact ⟨target, hlocate, some found, hsearch, rfl⟩

theorem namespaceOf_eq_ok :
    namespaceOf resolver module edge typeOnly = .ok found ↔
      ∃ exported origin, edge.exportedName = some exported ∧
        found = ⟨exported, origin, wildcardName, typeOnly || edge.typeOnly, .namespaced,
          !Specifier.isInternal edge.specifier, none, false⟩ ∧
        if Specifier.isInternal edge.specifier then
          ∃ target, resolver.locate edge.specifier module = .ok target ∧ origin = target.written
        else origin = edge.specifier := by
  cases hinternal : Specifier.isInternal edge.specifier with
  | false =>
      simp only [namespaceOf, hinternal, Bool.not_false, Bool.false_eq_true, if_true, if_false,
        bind_eq_ok, nameOf_eq_ok]
      constructor
      · rintro ⟨origin, horigin, exported, hexported, hfound⟩
        cases horigin
        cases hfound
        exact ⟨exported, edge.specifier, hexported, rfl, rfl⟩
      · rintro ⟨exported, origin, hexported, rfl, rfl⟩
        exact ⟨edge.specifier, rfl, exported, hexported, rfl⟩
  | true =>
      simp only [namespaceOf, hinternal, Bool.not_true, Bool.false_eq_true, if_true, if_false,
        bind_eq_ok, nameOf_eq_ok]
      constructor
      · rintro ⟨target, hlocate, origin, horigin, exported, hexported, hfound⟩
        cases horigin
        cases hfound
        exact ⟨exported, target.written, hexported, rfl, target, hlocate, rfl⟩
      · rintro ⟨exported, origin, hexported, rfl, target, hlocate, rfl⟩
        exact ⟨target, hlocate, target.written, rfl, exported, hexported, rfl⟩

theorem throughWildcards_some {wildcards : List ReExport}
    (hrun : (throughWildcards resolver search module name typeOnly chain wildcards).run read =
      .ok (some found)) :
    ∃ edge ∈ wildcards, Specifier.isInternal edge.specifier = true ∧
      ∃ target, resolver.locate edge.specifier module = .ok target ∧
        (search target name (typeOnly || edge.typeOnly)).run read = .ok (some found) := by
  induction wildcards with
  | nil => cases hrun
  | cons edge rest ih =>
      have hrest (h : (throughWildcards resolver search module name typeOnly chain rest).run
          read = .ok (some found)) : ∃ other ∈ edge :: rest,
          Specifier.isInternal other.specifier = true ∧
            ∃ target, resolver.locate other.specifier module = .ok target ∧
              (search target name (typeOnly || other.typeOnly)).run read = .ok (some found) := by
        obtain ⟨other, hother, hsearch⟩ := ih h
        exact ⟨other, List.mem_cons_of_mem _ hother, hsearch⟩
      rw [throughWildcards] at hrun
      split at hrun
      · rename_i hinternal
        obtain ⟨target, hlocate, hrun⟩ := Survey.run_bind_eq_ok.mp hrun
        split at hrun
        · exact hrest hrun
        · obtain ⟨result, hsearch, hrun⟩ := Survey.run_bind_eq_ok.mp hrun
          cases result with
          | none => exact hrest hrun
          | some other =>
              cases hrun
              exact ⟨edge, List.mem_cons_self, hinternal, target, hlocate, hsearch⟩
      · exact hrest hrun

theorem throughPackages_some {wildcards : List ReExport}
    (h : throughPackages module name typeOnly chain wildcards = .ok (some found)) :
    ∃ edge, wildcards.filter (fun edge => !Specifier.isInternal edge.specifier) = [edge] ∧
      found = fromPackage edge.specifier name name (typeOnly || edge.typeOnly) := by
  unfold throughPackages at h
  split at h
  · cases h
  · rename_i edge hedge
    cases h
    exact ⟨edge, hedge, rfl⟩
  · cases h

theorem ends_of_namespaceOf (hread : read module = .ok surface)
    (hundefined : surface.definitionsOf name = []) (hedge : surface.reExportOf? name = some edge)
    (hkind : edge.kind = .namespaced)
    (hwhole : namespaceOf resolver module edge typeOnly = .ok found) :
    Ends resolver read ⟨module, name⟩ edge.typeOnly found.provenance ∧
      found.typeOnly = (typeOnly || edge.typeOnly) ∧ found.inline = false ∧
      found.localName = none := by
  obtain ⟨exported, origin, -, rfl, horigin⟩ := namespaceOf_eq_ok.mp hwhole
  refine ⟨?_, rfl, rfl, rfl⟩
  cases hinternal : Specifier.isInternal edge.specifier with
  | false =>
      rw [if_neg (by simp [hinternal])] at horigin
      subst horigin
      exact .packageNamespace hread hundefined hedge hkind hinternal
  | true =>
      rw [if_pos hinternal] at horigin
      obtain ⟨target, hlocate, rfl⟩ := horigin
      exact .moduleNamespace hread hundefined hedge hkind hinternal hlocate

theorem throughEdge_some (hread : read module = .ok surface)
    (hundefined : surface.definitionsOf name = []) (hedge : surface.reExportOf? name = some edge)
    (hrun : (throughEdge resolver search module edge name typeOnly).run read = .ok found) :
    (∃ typed, Ends resolver read ⟨module, name⟩ typed found.provenance ∧
      found.typeOnly = (typeOnly || typed) ∧ found.inline = false ∧ found.localName = none) ∨
    ∃ next typed, Step resolver read ⟨module, name⟩ typed next ∧
      (search next.module next.name (typeOnly || typed)).run read = .ok (some found) := by
  unfold throughEdge at hrun
  split at hrun
  · rename_i hkind
    obtain ⟨whole, hwhole, hfound⟩ := Survey.run_bind_eq_ok.mp hrun
    cases hfound
    have hends := ends_of_namespaceOf hread hundefined hedge hkind hwhole
    exact .inl ⟨edge.typeOnly, hends⟩
  · rename_i hkind
    obtain ⟨imported, himported, hrun⟩ := Survey.run_bind_eq_ok.mp hrun
    have himported := nameOf_eq_ok.mp himported
    split at hrun
    · rename_i hinternal
      obtain ⟨target, hlocate, hsearch⟩ := searchTarget_eq_ok.mp hrun
      exact .inr ⟨⟨target, imported⟩, edge.typeOnly,
        .edge hread hundefined hedge hkind himported hinternal hlocate, hsearch⟩
    · rename_i hexternal
      cases hrun
      exact .inl ⟨edge.typeOnly,
        .packageEdge hread hundefined hedge hkind himported (by simpa using hexternal),
        rfl, rfl, rfl⟩

theorem searchSurface_some (hread : read module = .ok surface)
    (hrun : (searchSurface resolver search module name typeOnly chain surface).run read =
      .ok (some found)) :
    (∃ typed, Ends resolver read ⟨module, name⟩ typed found.provenance ∧
      found.typeOnly = (typeOnly || typed) ∧ found.inline = false ∧
      (surface.definitionsOf name = [] → found.localName = none)) ∨
    ∃ next typed, Step resolver read ⟨module, name⟩ typed next ∧
      (search next.module next.name (typeOnly || typed)).run read = .ok (some found) := by
  unfold searchSurface at hrun
  split at hrun
  case h_1 first others hdefinitions =>
    cases hrun
    have hdefined : surface.definitionsOf name ≠ [] := by simp [hdefinitions]
    exact .inl ⟨false, .definition hread hdefined, by simp [definedIn], rfl,
      fun hundefined => absurd hundefined hdefined⟩
  case h_2 hundefined =>
    split at hrun
    case h_1 edge hedge =>
      obtain ⟨other, hthrough, hother⟩ := Survey.run_bind_eq_ok.mp hrun
      cases hother
      rcases throughEdge_some hread hundefined hedge hthrough with
        ⟨typed, hends, htyped, hinline, hunbound⟩ | hnext
      · exact .inl ⟨typed, hends, htyped, hinline, fun _ => hunbound⟩
      · exact .inr hnext
    case h_2 hunnamed =>
      split at hrun
      · cases hrun
      · rename_i hname
        obtain ⟨result, hwildcards, hrun⟩ := Survey.run_bind_eq_ok.mp hrun
        cases result with
        | some other =>
            cases hrun
            obtain ⟨edge, hedge, hinternal, target, hlocate, hsearch⟩ :=
              throughWildcards_some hwildcards
            exact .inr ⟨⟨target, name⟩, edge.typeOnly,
              .wildcard hread hundefined hunnamed hname hedge hinternal
                hlocate, hsearch⟩
        | none =>
            obtain ⟨edge, honly, rfl⟩ := throughPackages_some hrun
            exact .inl ⟨edge.typeOnly,
              .packageWildcard hread hundefined hunnamed hname honly, rfl, rfl, fun _ => rfl⟩

end

/-! ## Traces -/

variable {left : Nat} {chain : List Hop} {module : Location} {edge : ReExport} {name : String}
  {typeOnly : Bool} {found : Resolved} {result : Option Resolved}

theorem trace_eq_ok (hrun : (trace resolver left chain module name typeOnly).run read =
      .ok result) :
    (⟨module, name⟩ : Hop) ∉ chain ∧ ∃ further surface, left = further + 1 ∧
      read module = .ok surface ∧
      (searchSurface resolver (trace resolver further (chain ++ [⟨module, name⟩])) module name
        typeOnly (chain ++ [⟨module, name⟩]) surface).run read = .ok result := by
  unfold trace at hrun
  split at hrun
  · cases hrun
  · rename_i hfresh
    cases left with
    | zero => cases hrun
    | succ further =>
        obtain ⟨surface, hread, hrun⟩ := Survey.run_bind_eq_ok.mp hrun
        rw [Survey.run_look] at hread
        exact ⟨hfresh, further, surface, rfl, hread, hrun⟩

theorem trace_trail (hchain : chain.Nodup)
    (hrun : (trace resolver left chain module name typeOnly).run read = .ok (some found)) :
    ∃ hops typed, (chain ++ ⟨module, name⟩ :: hops).Nodup ∧
      Trail resolver read (⟨module, name⟩ :: hops) typed found.provenance ∧
      found.typeOnly = (typeOnly || typed) := by
  induction left generalizing chain module name typeOnly with
  | zero =>
      obtain ⟨_, further, _, hleft, _⟩ := trace_eq_ok hrun
      cases hleft
  | succ left ih =>
      obtain ⟨hfresh, further, surface, hleft, hread, hsearch⟩ := trace_eq_ok hrun
      cases hleft
      have hlonger : (chain ++ [(⟨module, name⟩ : Hop)]).Nodup :=
        hchain.append (List.nodup_singleton _) (by simpa using hfresh)
      rcases searchSurface_some hread hsearch with
        ⟨typed, hends, htyped, -⟩ | ⟨next, typed, hstep, hnext⟩
      · exact ⟨[], typed, hlonger, .ends hends, htyped⟩
      · obtain ⟨hops, further, hnodup, htrail, htyped⟩ := ih hlonger hnext
        refine ⟨next :: hops, typed || further, ?_, .step hstep htrail, ?_⟩
        · simpa using hnodup
        · rw [htyped, Bool.or_assoc]

theorem edgeNames_eq_ok {exported imported : String} :
    edgeNames edge = .ok (exported, imported) ↔
      edge.exportedName = some exported ∧ edge.importedName = some imported := by
  unfold edgeNames
  split
  · rename_i hexported himported
    simp [hexported, himported]
  · rename_i hexported himported
    simp [himported]
  · rename_i hexported himported
    simp [hexported]
  · rename_i hexported himported
    simp [hexported]

theorem follow_eq_ok (hrun : (follow resolver module edge).run read = .ok found) :
    ∃ exported imported, edge.exportedName = some exported ∧
      edge.importedName = some imported ∧
      if Specifier.isInternal edge.specifier then
        ∃ target whole, resolver.locate edge.specifier module = .ok target ∧
          (trace resolver (resolver.maxDepth - 1) [⟨module, exported⟩] target imported
            edge.typeOnly).run read = .ok (some whole) ∧
          found = { whole with exportedName := exported }
      else found = fromPackage edge.specifier exported imported edge.typeOnly := by
  obtain ⟨⟨exported, imported⟩, hnames, hrun⟩ := Survey.run_bind_eq_ok.mp hrun
  obtain ⟨hexported, himported⟩ := edgeNames_eq_ok.mp hnames
  refine ⟨exported, imported, hexported, himported, ?_⟩
  dsimp only at hrun
  split at hrun
  · rename_i hinternal
    rw [if_pos hinternal]
    obtain ⟨whole, hsearch, hfound⟩ := Survey.run_bind_eq_ok.mp hrun
    obtain ⟨target, hlocate, htrace⟩ := searchTarget_eq_ok.mp hsearch
    cases hfound
    exact ⟨target, whole, hlocate, htrace, rfl⟩
  · rename_i hexternal
    rw [if_neg hexternal]
    cases hrun
    rfl

theorem follow_eq {exported : String} {target : Location} (hexported : edge.exportedName = some exported)
    (himported : edge.importedName = some name)
    (hinternal : Specifier.isInternal edge.specifier = true)
    (hlocate : resolver.locate edge.specifier module = .ok target) :
    (follow resolver module edge).run read =
      match (trace resolver (resolver.maxDepth - 1) [⟨module, exported⟩] target name
        edge.typeOnly).run read with
      | .ok (some found) => .ok { found with exportedName := exported }
      | .ok none => .error (.exportsNotFound target.written [name])
      | .error failure => .error failure := by
  rw [follow, Survey.run_bind, Survey.run_ofExcept, edgeNames_eq_ok.mpr ⟨hexported, himported⟩]
  change Survey.run read (if _ then _ else _) = _
  rw [if_pos hinternal, Survey.run_bind, searchTarget, Survey.run_bind, Survey.run_ofExcept,
    hlocate]
  change (Survey.run read (_ >>= _) >>= _) = _
  rw [Survey.run_bind]
  rcases (trace resolver (resolver.maxDepth - 1) [⟨module, exported⟩] target name
    edge.typeOnly).run read with failure | _ | found <;> rfl

/--
Whatever following an internal re-export finds lies at the end of a trail of
different hops that starts with the re-export itself, and it is a type exactly
if an edge of the trail says so.
-/
theorem follow_trail (hinternal : Specifier.isInternal edge.specifier = true)
    (hrun : (follow resolver module edge).run read = .ok found) :
    ∃ exported imported target hops typed,
      edge.exportedName = some exported ∧ edge.importedName = some imported ∧
      resolver.locate edge.specifier module = .ok target ∧
      (⟨module, exported⟩ :: ⟨target, imported⟩ :: hops : List Hop).Nodup ∧
      Trail resolver read (⟨target, imported⟩ :: hops) typed found.provenance ∧
      found.exportedName = exported ∧ found.typeOnly = (edge.typeOnly || typed) := by
  obtain ⟨exported, imported, hexported, himported, hfound⟩ := follow_eq_ok hrun
  rw [if_pos hinternal] at hfound
  obtain ⟨target, whole, hlocate, htrace, rfl⟩ := hfound
  obtain ⟨hops, typed, hnodup, htrail, htyped⟩ := trace_trail (List.nodup_singleton _) htrace
  exact ⟨exported, imported, target, hops, typed, hexported, himported, hlocate, hnodup, htrail,
    rfl, htyped⟩

def crossedBarrels : Lookup where
  settings := .default
  volume := .ofTexts
    [("/proj/index.ts", "export { n as m } from './crossing';"),
      ("/proj/barrel.ts", "export * from './crossing'; export * from './origin';"),
      ("/proj/crossing.ts", "export type { n } from './barrel';"),
      ("/proj/origin.ts", "export const n = 1;")]

theorem follow_trail_crossedBarrels :
    (follow (.ofLookup crossedBarrels) (.ofPath "/proj/index.ts")
      (Module.namedEdge "./crossing" "n" "m" false 9)).run
        (Module.loadSurface crossedBarrels.volume) =
        .ok ⟨"m", "/proj/origin.ts", "n", true, .named, false, some "n", false⟩ ∧
      ∃ hops, Trail (.ofLookup crossedBarrels) (Module.loadSurface crossedBarrels.volume)
        (⟨.ofPath "/proj/crossing.ts", "n"⟩ :: hops) true
        ⟨.named, "/proj/origin.ts", "n", false⟩ := by
  have hrun : (follow (.ofLookup crossedBarrels) (.ofPath "/proj/index.ts")
      (Module.namedEdge "./crossing" "n" "m" false 9)).run
        (Module.loadSurface crossedBarrels.volume) =
      .ok ⟨"m", "/proj/origin.ts", "n", true, .named, false, some "n", false⟩ := by decide +kernel
  obtain ⟨exported, imported, target, hops, typed, -, himported, hlocate, -, htrail, -, htyped⟩ :=
    follow_trail (by decide) hrun
  have htarget : (Resolver.ofLookup crossedBarrels).locate "./crossing"
      (.ofPath "/proj/index.ts") = .ok (.ofPath "/proj/crossing.ts") := by decide +kernel
  cases himported
  obtain rfl := ok_inj htarget hlocate
  have hflag : typed = true := by simpa [Module.namedEdge] using htyped.symm
  exact ⟨hrun, hops, hflag ▸ htrail⟩

end Resolution

end FlatExports
