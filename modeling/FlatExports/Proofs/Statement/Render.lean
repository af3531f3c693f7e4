import FlatExports.Proofs.Resolution.Origin
import FlatExports.Statement.Render

/-!
The statements of the exports of a root.

Rendering never fails on exports that are definitions of the root or come from
a source.  Each key of them contributes its statements on its own, and only the
key of the root itself contributes none when all its exports stay in place.
-/

namespace FlatExports.Statement

open Resolution
open ExportGroup (gather keysOf membersOf ofExports start)
open Lookup (StandingFile)

variable {lookup : Lookup} {read : Survey.Reader} {root : Location} {entry : Resolved}
  {members exports : List Resolved} {key : GroupKey}

def sourceText (lookup : Lookup) (root : Location) (origin : String) : String :=
  if origin.toList.head? = some '/' then
    (lookup.relativeSpecifier (.ofPath origin) root.parent).toOption.getD ""
  else origin

def IsOwn (root : Location) (entry : Resolved) : Prop :=
  entry.kind = .named ∧ entry.origin = root.written ∧ entry.external = false ∧
    entry.inline = entry.localName.isNone

def Publishable (lookup : Lookup) (read : Survey.Reader) (root : Location)
    (entry : Resolved) : Prop :=
  IsOwn root entry ∨ Sourced lookup read root entry

theorem IsOwn.groupKey (h : IsOwn root entry) : entry.groupKey = .named root.written := by
  rw [Resolved.groupKey, if_pos h.1, h.2.1]

/-! ## Sources of statements -/

section

variable (hextensions : lookup.PlainExtensions) (hstands : StandingFile lookup.volume root)

include hextensions hstands

theorem relativeSpecifier_of_standingFile {target : Location}
    (htarget : StandingFile lookup.volume target) :
    ∃ specifier, lookup.relativeSpecifier target root.parent = .ok specifier ∧
      Specifier.isInternal specifier = true ∧
      (Resolver.ofLookup lookup).locate specifier root = .ok target := by
  obtain ⟨content, hstands⟩ := hstands
  exact Lookup.relativeSpecifier_leads hextensions htarget hstands.plain.dropLast
    hstands.directories

theorem sourceText_of_standingFile {target : Location}
    (htarget : StandingFile lookup.volume target) :
    lookup.relativeSpecifier target root.parent =
        .ok (sourceText lookup root target.written) ∧
      Specifier.isInternal (sourceText lookup root target.written) = true ∧
      (Resolver.ofLookup lookup).locate (sourceText lookup root target.written) root =
        .ok target := by
  obtain ⟨specifier, hspecifier, hinternal, hlocate⟩ :=
    relativeSpecifier_of_standingFile hextensions hstands htarget
  have htext : sourceText lookup root target.written = specifier := by
    rw [sourceText, if_pos (Location.written_head target), htarget.ofPath_written, hspecifier]
    rfl
  rw [htext]
  exact ⟨hspecifier, hinternal, hlocate⟩

theorem sourceText_of_sourced (hsourced : Sourced lookup read root entry) :
    if entry.external then
      sourceText lookup root entry.origin = entry.origin ∧
        Specifier.isInternal entry.origin = false
    else ∃ target, target.written = entry.origin ∧ Location.ofPath entry.origin = target ∧
      lookup.relativeSpecifier target root.parent =
        .ok (sourceText lookup root entry.origin) ∧
      Specifier.isInternal (sourceText lookup root entry.origin) = true ∧
      (Resolver.ofLookup lookup).locate (sourceText lookup root entry.origin) root =
        .ok target := by
  obtain ⟨hsource, -⟩ := hsourced
  have hmodule (target : Location) (htarget : StandingFile lookup.volume target) :
      ∃ found : Location, found.written = target.written ∧
        Location.ofPath target.written = found ∧
        lookup.relativeSpecifier found root.parent =
          .ok (sourceText lookup root target.written) ∧
        Specifier.isInternal (sourceText lookup root target.written) = true ∧
        (Resolver.ofLookup lookup).locate (sourceText lookup root target.written) root =
          .ok found :=
    ⟨target, rfl, htarget.ofPath_written,
      sourceText_of_standingFile hextensions hstands htarget⟩
  generalize hprovenance : entry.provenance = provenance at hsource
  have horigin : entry.origin = provenance.origin := by rw [← hprovenance]; rfl
  have hexternal : entry.external = provenance.external := by rw [← hprovenance]; rfl
  rw [horigin, hexternal]
  cases hsource with
  | package _ _ hpackage hrelative =>
      dsimp only
      rw [if_pos rfl, sourceText, if_neg hrelative]
      exact ⟨rfl, hpackage⟩
  | namespaceOf htarget =>
      dsimp only
      rw [if_neg Bool.false_ne_true]
      exact hmodule _ htarget
  | definition _ htarget =>
      dsimp only
      rw [if_neg Bool.false_ne_true]
      exact hmodule _ htarget

theorem sourceOf_eq_ok {group : ExportGroup} (hsourced : Sourced lookup read root entry)
    (horigin : group.origin = entry.origin) (hexternal : group.external = entry.external) :
    sourceOf lookup root group = .ok (sourceText lookup root entry.origin) := by
  have hsource := sourceText_of_sourced hextensions hstands hsourced
  rw [sourceOf, horigin, hexternal]
  split at hsource
  · rename_i hpackage
    rw [if_pos hpackage, hsource.1]
  · rename_i hmodule
    obtain ⟨target, -, hpath, hrelative, -⟩ := hsource
    rw [if_neg hmodule, hpath, hrelative]

end

/-! ## Statements of one key -/

def statementsOf (lookup : Lookup) (root : Location) (key : GroupKey)
    (members : List Resolved) : List Statement :=
  match key with
  | .named origin =>
      if origin = root.written then
        if (localSpecifiers members).isEmpty then []
        else [named none (localSpecifiers members)]
      else [named (some (sourceText lookup root origin)) (members.map originSpecifier)]
  | .single .wildcard origin _ =>
      [wildcard (sourceText lookup root origin) (members.all (·.typeOnly))]
  | .single _ origin name =>
      [namespaceOf (sourceText lookup root origin) name (members.headD default).typeOnly]

theorem selfSpecifiers_of_own (hown : ∀ entry ∈ members, IsOwn root entry) :
    selfSpecifiers members = [] := by
  rw [selfSpecifiers, List.map_eq_nil_iff, List.filter_eq_nil_iff]
  intro entry hentry
  rw [(hown entry hentry).2.2.2]
  cases entry.localName <;> simp

variable {first : Resolved} {rest : List Resolved}

theorem gather_cons : gather (first :: rest) =
    ⟨first.origin, first.external, first.kind, first :: rest⟩ := rfl

def homeStatements (lookup : Lookup) (root : Location) (members : List Resolved) :
    List Statement :=
  (if (localSpecifiers members).isEmpty then [] else [named none (localSpecifiers members)]) ++
    if (selfSpecifiers members).isEmpty then []
    else [named (some (sourceText lookup root root.written)) (selfSpecifiers members)]

theorem renderGroup_home (hsteps : ∀ name ∈ root.names, IsStep name)
    (hkind : first.kind = .named) (horigin : first.origin = root.written)
    (hexternal : first.external = false)
    (hself : selfSpecifiers (first :: rest) ≠ [] →
      lookup.relativeSpecifier root root.parent = .ok (sourceText lookup root root.written)) :
    renderGroup lookup root (gather (first :: rest)) =
      .ok (homeStatements lookup root (first :: rest)) := by
  have hpath := Location.ofPath_written hsteps
  have hown : isOwn root (gather (first :: rest)) = true := by
    simp [isOwn, gather_cons, horigin, hexternal, hpath]
  have hrender : renderGroup lookup root (gather (first :: rest)) =
      renderRoot lookup root (gather (first :: rest)) := by
    rw [gather_cons, hkind] at hown ⊢
    simp only [renderGroup]
    rw [if_pos hown]
  have hsource : sourceOf lookup root (gather (first :: rest)) =
      lookup.relativeSpecifier root root.parent := by
    simp [sourceOf, gather_cons, horigin, hexternal, hpath]
  rw [hrender, renderRoot, hsource, gather_cons, homeStatements]
  dsimp only
  cases hfree : selfSpecifiers (first :: rest) with
  | nil => simp [pure, Except.pure, bind, Except.bind]
  | cons specifier specifiers =>
      rw [hself (by simp [hfree])]
      simp [pure, Except.pure, bind, Except.bind]

theorem renderGroup_own (hsteps : ∀ name ∈ root.names, IsStep name)
    (hmembers : ∀ entry ∈ first :: rest, IsOwn root entry) :
    renderGroup lookup root (gather (first :: rest)) =
      .ok (statementsOf lookup root (.named root.written) (first :: rest)) := by
  obtain ⟨hkind, horigin, hexternal, -⟩ := hmembers first List.mem_cons_self
  have hnone := selfSpecifiers_of_own hmembers
  rw [renderGroup_home hsteps hkind horigin hexternal fun hsome => absurd hnone hsome,
    homeStatements, hnone, statementsOf, if_pos rfl]
  simp

theorem renderGroup_sourced (hextensions : lookup.PlainExtensions)
    (hstands : StandingFile lookup.volume root) (hsourced : Sourced lookup read root first) :
    renderGroup lookup root (gather (first :: rest)) =
      .ok (statementsOf lookup root first.groupKey (first :: rest)) := by
  have hsource : sourceOf lookup root (gather (first :: rest)) =
      .ok (sourceText lookup root first.origin) :=
    sourceOf_eq_ok hextensions hstands hsourced rfl rfl
  have hforeign := hsourced.groupKey_ne hstands.isStep
  rw [Resolved.groupKey] at hforeign ⊢
  cases hkind : first.kind with
  | wildcard =>
      simp only [renderGroup, gather_cons, hkind] at hsource ⊢
      rw [hsource]
      rfl
  | namespaced =>
      simp only [renderGroup, gather_cons, hkind] at hsource ⊢
      rw [hsource]
      rfl
  | default => exact absurd hkind hsourced.kind_ne_default
  | named =>
      rw [if_pos hkind] at hforeign
      have hother : isOwn root (gather (first :: rest)) = false := by
        have htext := sourceText_of_sourced hextensions hstands hsourced
        split at htext
        · rename_i hexternal
          simp [isOwn, gather_cons, hexternal]
        · rename_i hexternal
          obtain ⟨target, hwritten, hpath, -⟩ := htext
          have hne : target ≠ root := by
            rintro rfl
            exact hforeign (by rw [hwritten])
          simp [isOwn, gather_cons, hpath, hne]
      have hnot : first.origin ≠ root.written := fun heq => hforeign (by rw [heq])
      rw [gather_cons, hkind] at hother hsource ⊢
      simp only [renderGroup]
      rw [if_neg (by simp [hother]), hsource]
      simp [statementsOf, hnot, bind, Except.bind, pure, Except.pure]

theorem Publishable.own_iff (h : Publishable lookup read root entry)
    (hsteps : ∀ name ∈ root.names, IsStep name) :
    IsOwn root entry ↔ entry.groupKey = .named root.written := by
  constructor
  · exact IsOwn.groupKey
  · intro hkey
    rcases h with hown | hsourced
    · exact hown
    · exact absurd hkey (hsourced.groupKey_ne hsteps)

theorem render_of_keys {statements : GroupKey → List Resolved → List Statement}
    (h : ∀ first rest, (∀ entry ∈ first :: rest, entry ∈ exports ∧ entry.groupKey = first.groupKey) →
      renderGroup lookup root (gather (first :: rest)) =
        .ok (statements first.groupKey (first :: rest))) :
    render lookup root (ofExports exports) =
      .ok ((keysOf exports).flatMap fun key => statements key (membersOf exports key)) := by
  rw [ExportGroup.ofExports_eq, render]
  refine bind_eq_ok.mpr ⟨(keysOf exports).map fun key => statements key (membersOf exports key),
    mapM_eq_ok.mpr ?_, rfl⟩
  rw [List.forall₂_map_left_iff, List.forall₂_map_right_iff, List.forall₂_same]
  intro key hkey
  cases hmembers : membersOf exports key with
  | nil => exact absurd hmembers (ExportGroup.membersOf_ne_nil hkey)
  | cons first rest =>
      have hmember (entry : Resolved) (hentry : entry ∈ first :: rest) :
          entry ∈ exports ∧ entry.groupKey = key :=
        ExportGroup.mem_membersOf.mp (hmembers ▸ hentry)
      obtain ⟨-, rfl⟩ := hmember first List.mem_cons_self
      exact h first rest hmember

/-- Every key of publishable exports adds its statements, in the order of the keys. -/
theorem render_ofExports (hextensions : lookup.PlainExtensions)
    (hstands : StandingFile lookup.volume root)
    (hexports : ∀ entry ∈ exports, Publishable lookup read root entry) :
    render lookup root (ofExports exports) =
      .ok ((keysOf exports).flatMap fun key =>
        statementsOf lookup root key (membersOf exports key)) := by
  have hsteps := hstands.isStep
  refine render_of_keys fun first rest hmember => ?_
  rcases hexports first (hmember first List.mem_cons_self).1 with hown | hsourced
  · have hall (entry : Resolved) (hentry : entry ∈ first :: rest) : IsOwn root entry := by
      obtain ⟨hmem, hkey⟩ := hmember entry hentry
      exact ((hexports entry hmem).own_iff hsteps).mpr (hkey.trans hown.groupKey)
    rw [hown.groupKey]
    exact renderGroup_own hsteps hall
  · exact renderGroup_sourced hextensions hstands hsourced

end FlatExports.Statement
