import FlatExports.Proofs.Session
import FlatExports.Proofs.Volume.Shape

/-!
What a resolution depends on.

A run asks its reader for the modules it visits and for nothing else.  Which
modules those are is decided by the shape of the volume and by the contents of
the modules themselves, so a file that is not visited may hold anything.
-/

namespace FlatExports

variable {α β : Type}

namespace Survey

variable {read other : Reader}

/-- While a cache holds what would be read anyway, every reading is that of a visited module. -/
theorem visited_of_reading {reading : Reading} (survey : Survey α) (cache : Cache)
    (hcache : cache.backedBy read = read) (hreading : reading ∈ survey.readings read cache) :
    reading.module ∈ survey.visited read ∧ reading.outcome = read reading.module := by
  induction survey generalizing cache with
  | done outcome => cases hreading
  | visit module next ih =>
      simp only [readings] at hreading
      simp only [visited]
      have hmodule : cache.backedBy read module = read module := congrFun hcache module
      rw [Cache.backedBy] at hmodule
      cases hfind : cache.find? module with
      | some surface =>
          rw [hfind] at hmodule hreading
          obtain ⟨hvisited, houtcome⟩ := ih surface cache hcache hreading
          rw [← hmodule]
          exact ⟨List.mem_cons_of_mem _ hvisited, houtcome⟩
      | none =>
          rw [hfind] at hreading
          cases hread : read module with
          | ok surface =>
              simp only [hread, List.mem_cons] at hreading
              rcases hreading with rfl | hrest
              · exact ⟨List.mem_cons_self, hread.symm⟩
              · obtain ⟨hvisited, houtcome⟩ := ih surface (cache.put module surface)
                  ((Cache.backedBy_put hfind hread).trans hcache) hrest
                exact ⟨List.mem_cons_of_mem _ hvisited, houtcome⟩
          | error failure =>
              simp only [hread, List.mem_singleton] at hreading
              subst hreading
              exact ⟨List.mem_singleton_self _, hread.symm⟩

theorem readings_eq_of_readings (survey : Survey α) (cache : Cache)
    (h : ∀ reading ∈ survey.readings read cache, other reading.module = reading.outcome) :
    survey.readings other cache = survey.readings read cache := by
  induction survey generalizing cache with
  | done outcome => rfl
  | visit module next ih =>
      simp only [readings] at h ⊢
      cases hfind : cache.find? module with
      | some surface =>
          simp only [hfind] at h
          exact ih surface cache h
      | none =>
          simp only [hfind, List.forall_mem_cons] at h
          obtain ⟨hmodule, hrest⟩ := h
          rw [hmodule]
          cases hread : read module with
          | ok surface =>
              simp only [hread] at hrest
              simp only [ih surface _ hrest]
          | error failure => rfl

theorem visited_eq_of_visited (survey : Survey α)
    (h : ∀ module ∈ survey.visited read, other module = read module) :
    survey.visited other = survey.visited read := by
  induction survey with
  | done outcome => rfl
  | visit module next ih =>
      simp only [visited] at h ⊢
      cases hread : read module with
      | ok surface =>
          simp only [hread, List.forall_mem_cons] at h
          simp only [h.1, ih surface h.2]
      | error failure =>
          simp only [hread, List.forall_mem_singleton] at h
          simp only [h]

theorem visited_pure (value : α) : visited read (pure value : Survey α) = [] := rfl

theorem visited_bind (survey : Survey α) (next : α → Survey β) :
    (survey >>= next).visited read =
      survey.visited read ++ ((survey.run read).toOption.elim [] fun value =>
        (next value).visited read) := by
  change (survey.andThen next).visited read = _
  induction survey with
  | done outcome =>
      cases outcome with
      | ok value => rfl
      | error failure => rfl
  | visit module rest ih =>
      simp only [andThen, visited, run]
      cases read module with
      | ok surface => simp only [ih, List.cons_append]
      | error failure => rfl

end Survey

namespace Resolution

theorem visited_expand {resolver : Resolver} {read : Survey.Reader} {left : Nat}
    {visiting : List Location} {includeDefault : Bool} {module : Location} {surface : Surface}
    (hread : read module = .ok surface) :
    (expand resolver (left + 1) visiting includeDefault module).visited read =
      module :: (collectAll (collectItem resolver
        (expand resolver left (module :: visiting) false) (module :: visiting) module
          includeDefault) surface.items).visited read := by
  rw [expand, Survey.visited_bind, Survey.run_look, hread]
  simp only [Except.toOption, Option.elim_some, Survey.visited_bind, Survey.look, Survey.visited,
    hread, List.singleton_append]
  cases Survey.run read _ with
  | ok collected => simp only [Option.elim_some, Survey.visited_pure, List.append_nil]
  | error failure => simp only [Option.elim_none, List.append_nil]

end Resolution

namespace Session

/--
Two projects of one shape resolve a root alike when they agree on the modules
that the resolution visits in the first of them: to the same exports or to the
same failure, after the same readings.
-/
theorem exportsOf_eq_of_visited [Syntax.Grammar] (settings : Settings) (first second : Volume)
    (root : Location) (hshape : first.SameShape second)
    (hcontent : ∀ module ∈ (Resolution.exportsOf ⟨settings, first⟩ root).visited
      (Module.loadSurface first), ∀ content, first.read module = .ok content →
        second.read module = .ok content) :
    ((start settings second).exportsOf root).1 = ((start settings first).exportsOf root).1 ∧
      (start settings second).readings (.exportsOf root) =
        (start settings first).readings (.exportsOf root) ∧
      ((start settings second).exportsOf root).2.cache =
        ((start settings first).exportsOf root).2.cache := by
  have hagree : ∀ reading ∈ (Resolution.exportsOf ⟨settings, first⟩ root).readings
      (Module.loadSurface first) .empty,
      Module.loadSurface second reading.module = reading.outcome := by
    intro reading hreading
    obtain ⟨hvisited, houtcome⟩ := Survey.visited_of_reading _ .empty
      (Cache.backedBy_empty _) hreading
    rw [houtcome]
    exact Module.loadSurface_congr (hshape.read_eq (hcontent reading.module hvisited))
  have hcached := Survey.runCached_eq_of_readings _ Cache.empty hagree
  have hreadings := Survey.readings_eq_of_readings _ Cache.empty hagree
  simp only [exportsOf, survey, readings, start, lookup, reader, hshape.exportsOf_eq, hcached,
    hreadings, and_self]

def objectBarrel (object : String) : Volume :=
  .ofTexts [("/proj/index.ts", "export * as object from './object'; export { a } from './a';"),
    ("/proj/a.ts", "export const a = 1;"), ("/proj/object.ts", object)]

def objectEdges : List ReExport :=
  [⟨.namespaced, "./object", none, some "object", false, 0⟩,
    ⟨.named, "./a", some "a", some "a", false, 45⟩]

def objectReader : Survey.Reader :=
  Survey.readerOf [(.ofPath "/proj/index.ts", ⟨[], objectEdges⟩),
    (.ofPath "/proj/a.ts", ⟨[⟨.named, some "a", false, 13, none⟩], []⟩)]

theorem exportsOf_eq_of_visited_objectBarrel :
    (objectBarrel "export const b = 1;").SameShape (objectBarrel "export const") ∧
      ((start .default (objectBarrel "export const")).exportsOf (.ofPath "/proj/index.ts")).1 =
        ((start .default (objectBarrel "export const b = 1;")).exportsOf
          (.ofPath "/proj/index.ts")).1 := by
  have hshape : (objectBarrel "export const b = 1;").SameShape (objectBarrel "export const") :=
    Volume.sameShape_of_entries (by decide +kernel)
  refine ⟨hshape, (exportsOf_eq_of_visited .default _ _ (.ofPath "/proj/index.ts") hshape ?_).1⟩
  have hread : ∀ module ∈ [Location.ofPath "/proj/index.ts", .ofPath "/proj/a.ts"],
      Module.loadSurface (objectBarrel "export const b = 1;") module =
        objectReader module := by
    decide +kernel
  have hvisited : (Resolution.exportsOf ⟨.default, objectBarrel "export const b = 1;"⟩
      (.ofPath "/proj/index.ts")).visited objectReader =
        [.ofPath "/proj/index.ts", .ofPath "/proj/a.ts"] := by
    have hroot : (objectBarrel "export const b = 1;").resolve (.ofPath "/proj/index.ts") =
        .ofPath "/proj/index.ts" := by
      decide +kernel
    have hindex : objectReader (.ofPath "/proj/index.ts") = .ok ⟨[], objectEdges⟩ := by
      decide +kernel
    have hitems : Surface.items ⟨[], objectEdges⟩ = objectEdges.map .reExport :=
      Surface.items_of_pairwise rfl (by decide)
    rw [Resolution.exportsOf, hroot]
    refine (Resolution.visited_expand hindex).trans ?_
    rw [hitems]
    decide +kernel
  have hsame : ∀ module ∈ [Location.ofPath "/proj/index.ts", .ofPath "/proj/a.ts"],
      (objectBarrel "export const").read module =
        (objectBarrel "export const b = 1;").read module := by
    decide +kernel
  intro module hmodule content hcontent
  rw [Survey.visited_eq_of_visited _ (hvisited ▸ hread), hvisited] at hmodule
  rw [hsame module hmodule, hcontent]

end Session

end FlatExports
