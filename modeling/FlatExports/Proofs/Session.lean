import FlatExports.Session
import FlatExports.Syntax.Typescript
import FlatExports.Proofs.Resolution.Trail
import Mathlib.Data.Finset.Card

/-!
What a session remembers.

A log lists the readings of modules that a session makes, in order.  The cache
holds of each module its first successful reading and nothing else, and every
answer is the one of a session without a cache whose reader goes by the log
before it goes by the volume.
-/

namespace FlatExports

variable {α : Type}

structure Reading where
  module : Location
  outcome : Except Failure Surface

namespace Reading

def kept? (reading : Reading) : Option (Location × Surface) :=
  match reading.outcome with
  | .ok surface => some (reading.module, surface)
  | .error _ => none

def Failed (reading : Reading) : Prop := ∃ failure, reading.outcome = .error failure

end Reading

def keptOf (log : List Reading) : List (Location × Surface) := log.filterMap Reading.kept?

def firstReading? (log : List Reading) (module : Location) : Option Surface :=
  (keptOf log).lookup module

@[simp] theorem keptOf_append (first second : List Reading) :
    keptOf (first ++ second) = keptOf first ++ keptOf second :=
  List.filterMap_append

theorem lookup_eq_none_iff_not_mem {entries : List (Location × Surface)} {module : Location} :
    entries.lookup module = none ↔ module ∉ entries.map Prod.fst := by
  rw [List.lookup_eq_none_iff]
  constructor
  · intro h hmem
    obtain ⟨entry, hentry, rfl⟩ := List.mem_map.mp hmem
    simpa using h entry hentry
  · intro h entry hentry
    have hne : module ≠ entry.1 := fun heq => h (heq ▸ List.mem_map_of_mem hentry)
    simpa using hne

/-! ## Caches -/

namespace Cache

variable {cache : Cache} {module : Location} {surface : Surface}

theorem put_of_find?_none (h : cache.find? module = none) :
    cache.put module surface = ⟨(module, surface) :: cache.entries⟩ := by
  have hkeys := lookup_eq_none_iff_not_mem.mp h
  have hothers : cache.entries.filter (·.1 ≠ module) = cache.entries := by
    rw [List.filter_eq_self]
    intro entry hentry
    have hne : entry.1 ≠ module := fun heq => hkeys (heq ▸ List.mem_map_of_mem hentry)
    simpa using hne
  rw [put, hothers]

theorem find?_put (h : cache.find? module = none) (other : Location) :
    (cache.put module surface).find? other =
      if other = module then some surface else cache.find? other := by
  rw [put_of_find?_none h]
  simp only [find?, List.lookup_cons]
  by_cases heq : other = module
  · simp [heq]
  · rw [beq_false_of_ne heq, if_neg heq]

theorem size_put (h : cache.find? module = none) :
    (cache.put module surface).size = cache.size + 1 := by
  rw [put_of_find?_none h]
  simp [size]

def backedBy (cache : Cache) (read : Survey.Reader) : Survey.Reader := fun module =>
  match cache.find? module with
  | some surface => .ok surface
  | none => read module

theorem backedBy_empty (read : Survey.Reader) : empty.backedBy read = read := rfl

theorem backedBy_put {read : Survey.Reader} (h : cache.find? module = none)
    (hread : read module = .ok surface) :
    (cache.put module surface).backedBy read = cache.backedBy read := by
  funext other
  simp only [backedBy, find?_put h]
  by_cases heq : other = module
  · subst heq
    simp [h, hread]
  · simp [heq]

end Cache

/-! ## Cached runs -/

namespace Survey

def readings (read : Reader) : Survey α → Cache → List Reading
  | done _, _ => []
  | visit module next, cache =>
      match cache.find? module with
      | some surface => readings read (next surface) cache
      | none =>
          ⟨module, read module⟩ ::
            match read module with
            | .ok surface => readings read (next surface) (cache.put module surface)
            | .error _ => []

variable {read : Reader}

theorem runCached_fst (survey : Survey α) (cache : Cache) :
    (survey.runCached read cache).1 = survey.run (cache.backedBy read) := by
  induction survey generalizing cache with
  | done outcome => rfl
  | visit module next ih =>
      simp only [runCached, run, Cache.backedBy]
      cases hfind : cache.find? module with
      | some surface => exact ih surface cache
      | none =>
          cases hread : read module with
          | ok surface =>
              have hih := ih surface (cache.put module surface)
              rw [Cache.backedBy_put hfind hread] at hih
              exact hih
          | error failure => rfl

theorem backedBy_runCached (survey : Survey α) (cache : Cache) :
    (survey.runCached read cache).2.backedBy read = cache.backedBy read := by
  induction survey generalizing cache with
  | done outcome => rfl
  | visit module next ih =>
      simp only [runCached]
      cases hfind : cache.find? module with
      | some surface => exact ih surface cache
      | none =>
          cases hread : read module with
          | ok surface => exact (ih surface _).trans (Cache.backedBy_put hfind hread)
          | error failure => rfl

/-- A cached run asks its reader for the modules of its log only. -/
theorem runCached_eq_of_readings {other : Reader} (survey : Survey α) (cache : Cache)
    (h : ∀ reading ∈ survey.readings read cache, other reading.module = reading.outcome) :
    survey.runCached other cache = survey.runCached read cache := by
  induction survey generalizing cache with
  | done outcome => rfl
  | visit module next ih =>
      simp only [readings] at h
      simp only [runCached]
      cases hfind : cache.find? module with
      | some surface =>
          simp only [hfind] at h
          exact ih surface cache h
      | none =>
          simp only [hfind, List.forall_mem_cons] at h
          obtain ⟨hmodule, hrest⟩ := h
          rw [hmodule]
          cases hread : read module with
          | ok surface =>
              simp only [hread] at hrest
              exact ih surface _ hrest
          | error failure => rfl

theorem find?_of_failed_reading {reading : Reading} (survey : Survey α) (cache : Cache)
    (hreading : reading ∈ survey.readings read cache) (hfailed : reading.Failed) :
    (survey.runCached read cache).2.find? reading.module = none := by
  induction survey generalizing cache with
  | done outcome => cases hreading
  | visit module next ih =>
      simp only [readings] at hreading
      simp only [runCached]
      cases hfind : cache.find? module with
      | some surface =>
          simp only [hfind] at hreading
          exact ih surface cache hreading
      | none =>
          simp only [hfind] at hreading
          cases hread : read module with
          | ok surface =>
              simp only [hread, List.mem_cons] at hreading
              rcases hreading with rfl | hrest
              · obtain ⟨failure, hfailure⟩ := hfailed
                cases hfailure
              · exact ih surface _ hrest
          | error failure =>
              simp only [hread, List.mem_singleton] at hreading
              subst hreading
              exact hfind

end Survey

/-! ## What a cache keeps of a log -/

/-- The cache holds the first successful reading of each module, and no module was read
successfully twice. -/
structure Cache.Keeps (cache : Cache) (log : List Reading) : Prop where
  find : ∀ module, cache.find? module = firstReading? log module
  once : ((keptOf log).map Prod.fst).Nodup
  size : cache.size = (keptOf log).length

namespace Cache.Keeps

variable {cache : Cache} {log : List Reading} {module : Location}

theorem empty : Cache.empty.Keeps [] := ⟨fun _ => rfl, List.nodup_nil, rfl⟩

theorem failed (h : cache.Keeps log) (failure : Failure) :
    cache.Keeps (log ++ [⟨module, .error failure⟩]) := by
  have hkept : keptOf (log ++ [⟨module, .error failure⟩]) = keptOf log := by
    simp [keptOf, Reading.kept?]
  exact ⟨fun other => by rw [firstReading?, hkept]; exact h.find other,
    by rw [hkept]; exact h.once, by rw [hkept]; exact h.size⟩

theorem put (h : cache.Keeps log) (hfind : cache.find? module = none) (surface : Surface) :
    (cache.put module surface).Keeps (log ++ [⟨module, .ok surface⟩]) := by
  have hkept : keptOf (log ++ [⟨module, .ok surface⟩]) = keptOf log ++ [(module, surface)] := by
    simp [keptOf, Reading.kept?]
  have hnew : (keptOf log).lookup module = none := by
    rw [← firstReading?, ← h.find]
    exact hfind
  constructor
  · intro other
    have hother : (keptOf log).lookup other = cache.find? other := (h.find other).symm
    rw [find?_put hfind, firstReading?, hkept, List.lookup_append, hother]
    by_cases heq : other = module
    · subst heq
      simp [hfind]
    · rw [if_neg heq, List.lookup_cons, beq_false_of_ne heq, List.lookup_nil, Option.or_none]
  · rw [hkept, List.map_append, List.map_singleton, List.nodup_append]
    refine ⟨h.once, List.nodup_singleton _, ?_⟩
    intro other hother new hmodule heq
    obtain rfl := List.mem_singleton.mp hmodule
    exact lookup_eq_none_iff_not_mem.mp hnew (heq ▸ hother)
  · rw [size_put hfind, hkept, List.length_append, List.length_singleton, h.size]

theorem runCached {read : Survey.Reader} (survey : Survey α) (h : cache.Keeps log) :
    (survey.runCached read cache).2.Keeps (log ++ survey.readings read cache) := by
  induction survey generalizing cache log with
  | done outcome => simpa [Survey.runCached, Survey.readings] using h
  | visit module next ih =>
      simp only [Survey.runCached, Survey.readings]
      cases hfind : cache.find? module with
      | some surface => exact ih surface h
      | none =>
          cases hread : read module with
          | ok surface =>
              simpa using ih surface (h.put hfind surface)
          | error failure => exact h.failed failure

theorem mono (h : cache.Keeps log) {later : Cache} {readings : List Reading}
    (hlater : later.Keeps (log ++ readings)) {surface : Surface}
    (hfind : cache.find? module = some surface) : later.find? module = some surface := by
  rw [h.find, firstReading?] at hfind
  rw [hlater.find, firstReading?, keptOf_append, List.lookup_append, hfind, Option.some_or]

end Cache.Keeps

/-! ## Steps of a session -/

namespace Session

/-- What a session is asked to do; the last two are calls. -/
inductive Step where
  | write (file : Location) (content : Text.Bytes)
  | delete (file : Location)
  | surfaceOf (module : Location)
  | exportsOf (root : Location)
  deriving DecidableEq, Repr

namespace Step

def isCall : Step → Bool
  | write _ _ | delete _ => false
  | surfaceOf _ | exportsOf _ => true

end Step

inductive Answer where
  | changed (outcome : Except PathFault Unit)
  | surface (outcome : Except Failure Surface)
  | exports (outcome : Except Failure (List Resolved))

section

variable [Syntax.Grammar]

def take (session : Session) : Step → Answer × Session
  | .write file content => (.changed (.ok ()), session.write file content)
  | .delete file =>
      match session.delete file with
      | .ok changed => (.changed (.ok ()), changed)
      | .error fault => (.changed (.error fault), session)
  | .surfaceOf module => ((session.surfaceOf module).map Answer.surface id)
  | .exportsOf root => ((session.exportsOf root).map Answer.exports id)

def after (session : Session) : List Step → Session
  | [] => session
  | step :: rest => (session.take step).2.after rest

def readings (session : Session) : Step → List Reading
  | .write _ _ | .delete _ => []
  | .surfaceOf module => (Survey.look module).readings session.reader session.cache
  | .exportsOf root =>
      (Resolution.exportsOf session.lookup root).readings session.reader session.cache

def log (session : Session) : List Step → List Reading
  | [] => []
  | step :: rest => session.readings step ++ (session.take step).2.log rest

/-- What a step answers over a volume when every module is read anew. -/
def Step.answer (lookup : Lookup) (read : Survey.Reader) : Step → Answer
  | write _ _ => .changed (.ok ())
  | delete file => .changed ((lookup.volume.delete file).map fun _ => ())
  | surfaceOf module => .surface (read module)
  | exportsOf root => .exports ((Resolution.exportsOf lookup root).run read)

/-- Goes by the first successful reading of a module, and by the volume where there is none. -/
def firstRead (log : List Reading) (volume : Volume) : Survey.Reader := fun module =>
  match firstReading? log module with
  | some surface => .ok surface
  | none => Module.loadSurface volume module

variable {session : Session} {read : List Reading}

theorem take_fst (session : Session) (step : Step) :
    (session.take step).1 = step.answer session.lookup (session.cache.backedBy session.reader) := by
  cases step with
  | write file content => rfl
  | delete file =>
      simp only [take, delete, Step.answer, lookup]
      cases session.volume.delete file with
      | ok changed => rfl
      | error fault => rfl
  | surfaceOf module =>
      simp only [take, surfaceOf, survey, Step.answer, Prod.map_fst, Survey.runCached_fst,
        Survey.run_look]
  | exportsOf root =>
      simp only [take, exportsOf, survey, Step.answer, Prod.map_fst, Survey.runCached_fst]

theorem take_settings (session : Session) (step : Step) :
    (session.take step).2.settings = session.settings := by
  cases step with
  | delete file =>
      simp only [take, delete]
      cases session.volume.delete file with
      | ok changed => rfl
      | error fault => rfl
  | _ => rfl

theorem Keeps.take (h : session.cache.Keeps read) (step : Step) :
    (session.take step).2.cache.Keeps (read ++ session.readings step) := by
  cases step with
  | write file content => simpa [Session.take, write, readings] using h
  | delete file =>
      simp only [Session.take, delete, readings, List.append_nil]
      cases session.volume.delete file with
      | ok changed => exact h
      | error fault => exact h
  | surfaceOf module => exact h.runCached (.look module)
  | exportsOf root => exact h.runCached (Resolution.exportsOf session.lookup root)

theorem Keeps.after (h : session.cache.Keeps read) (steps : List Step) :
    (session.after steps).cache.Keeps (read ++ session.log steps) := by
  induction steps generalizing session read with
  | nil => simpa [Session.after, log] using h
  | cons step rest ih =>
      simp only [Session.after, log, ← List.append_assoc]
      exact ih (Keeps.take h step)

theorem keeps_after_start (settings : Settings) (volume : Volume) (steps : List Step) :
    ((start settings volume).after steps).cache.Keeps ((start settings volume).log steps) := by
  have hempty : (start settings volume).cache.Keeps [] := Cache.Keeps.empty
  simpa using Keeps.after hempty steps

theorem after_settings (session : Session) (steps : List Step) :
    (session.after steps).settings = session.settings := by
  induction steps generalizing session with
  | nil => rfl
  | cons step rest ih => exact (ih _).trans (take_settings session step)

theorem backedBy_after {steps : List Step} (h : ∀ step ∈ steps, step.isCall)
    (hcache : session.cache.backedBy session.reader = session.reader) :
    (session.after steps).cache.backedBy (session.after steps).reader =
      (session.after steps).reader := by
  induction steps generalizing session with
  | nil => exact hcache
  | cons step rest ih =>
      rw [List.forall_mem_cons] at h
      refine ih h.2 ?_
      cases step with
      | surfaceOf module => exact (Survey.backedBy_runCached (.look module) _).trans hcache
      | exportsOf root =>
          exact (Survey.backedBy_runCached (Resolution.exportsOf session.lookup root) _).trans
            hcache
      | _ => cases h.1

theorem after_append (session : Session) (first second : List Step) :
    session.after (first ++ second) = (session.after first).after second := by
  induction first generalizing session with
  | nil => rfl
  | cons step rest ih => exact ih _

theorem cache_after_changes {steps : List Step} (h : ∀ step ∈ steps, ¬step.isCall) :
    (session.after steps).cache = session.cache := by
  induction steps generalizing session with
  | nil => rfl
  | cons step rest ih =>
      rw [List.forall_mem_cons] at h
      refine (ih h.2).trans ?_
      cases step with
      | write file content => rfl
      | delete file =>
          simp only [take, delete]
          cases session.volume.delete file with
          | ok changed => rfl
          | error fault => rfl
      | _ => exact absurd rfl h.1

end

/--
After any steps, the next one answers as if every module were read anew, by a
reader that goes by the first successful readings; nothing else of the past
shows.
-/
theorem answers_by_first_readings [Syntax.Grammar] (settings : Settings) (volume : Volume)
    (steps : List Step) (step : Step) :
    let session := (start settings volume).after steps
    let log := (start settings volume).log steps
    let later := (session.take step).2
    (session.take step).1 =
        step.answer ⟨settings, session.volume⟩ (firstRead log session.volume) ∧
      (∀ changes calls, steps = changes ++ calls → (∀ change ∈ changes, ¬change.isCall) →
        (∀ call ∈ calls, call.isCall) →
        (session.take step).1 = ((start settings session.volume).take step).1) ∧
      ((keptOf (log ++ session.readings step)).map Prod.fst).Nodup ∧
      (∀ reading ∈ session.readings step, reading.Failed →
        later.cache.find? reading.module = none) ∧
      (∀ module surface, session.cache.find? module = some surface →
        later.cache.find? module = some surface) ∧
      session.modulesAnalyzed = ((keptOf log).map Prod.fst).toFinset.card := by
  intro session log later
  have hkeeps : session.cache.Keeps log := keeps_after_start settings volume steps
  have hlater : later.cache.Keeps (log ++ session.readings step) := Keeps.take hkeeps step
  have hlookup : session.lookup = ⟨settings, session.volume⟩ := by
    rw [lookup, after_settings]
    rfl
  have hbacked : session.cache.backedBy session.reader = firstRead log session.volume := by
    funext module
    simp only [Cache.backedBy, firstRead, hkeeps.find, reader]
  refine ⟨?_, ?_, hlater.once, ?_, fun module surface => hkeeps.mono hlater, ?_⟩
  · rw [take_fst, hlookup, hbacked]
  · intro changes calls hsteps hchanges hcalls
    have hempty : ((start settings volume).after changes).cache = .empty :=
      cache_after_changes hchanges
    have hcurrent : session.cache.backedBy session.reader = session.reader := by
      rw [show session = ((start settings volume).after changes).after calls by
        rw [← after_append, ← hsteps]]
      exact backedBy_after hcalls (by rw [hempty, Cache.backedBy_empty])
    rw [take_fst, take_fst, hcurrent, hlookup]
    rfl
  · intro reading hreading hfailed
    cases step with
    | surfaceOf module => exact Survey.find?_of_failed_reading (.look module) _ hreading hfailed
    | exportsOf root => exact Survey.find?_of_failed_reading _ _ hreading hfailed
    | _ => cases hreading
  · rw [modulesAnalyzed, hkeeps.size, List.toFinset_card_of_nodup hkeeps.once, List.length_map]

def oneBarrel : Volume :=
  .ofTexts [("/proj/index.ts", "export { a } from './a';"), ("/proj/a.ts", "export const a = 1;")]

def resolveAndRewrite : List Step :=
  [.exportsOf (.ofPath "/proj/index.ts"),
    .write (.ofPath "/proj/a.ts") (Text.bytesOf "export const b = 1;")]

def oneExport : Resolved := ⟨"a", "/proj/a.ts", "a", false, .named, false, some "a", false⟩

theorem answers_by_first_readings_oneBarrel :
    (((start .default oneBarrel).after resolveAndRewrite).take
        (.exportsOf (.ofPath "/proj/index.ts"))).1 = .exports (.ok [oneExport]) ∧
      (((start .default oneBarrel).after resolveAndRewrite).take
        (.surfaceOf (.ofPath "/proj/a.ts"))).1 =
          .surface (.ok ⟨[⟨.named, some "a", false, 13, none⟩], []⟩) ∧
      (((start .default oneBarrel).after [.exportsOf (.ofPath "/proj/b.ts")]).take
        (.exportsOf (.ofPath "/proj/index.ts"))).1 =
          ((start .default oneBarrel).take (.exportsOf (.ofPath "/proj/index.ts"))).1 ∧
      ((start .default oneBarrel).after resolveAndRewrite).modulesAnalyzed = 2 := by
  obtain ⟨hexports, -, -, -, -, hcount⟩ := answers_by_first_readings .default oneBarrel
    resolveAndRewrite (.exportsOf (.ofPath "/proj/index.ts"))
  obtain ⟨hsurface, -⟩ := answers_by_first_readings .default oneBarrel
    resolveAndRewrite (.surfaceOf (.ofPath "/proj/a.ts"))
  obtain ⟨-, hunchanged, -⟩ := answers_by_first_readings .default oneBarrel
    [.exportsOf (.ofPath "/proj/b.ts")] (.exportsOf (.ofPath "/proj/index.ts"))
  have hrun : (Resolution.exportsOf
      ⟨.default, ((start .default oneBarrel).after resolveAndRewrite).volume⟩
      (.ofPath "/proj/index.ts")).run
        (firstRead ((start .default oneBarrel).log resolveAndRewrite)
          ((start .default oneBarrel).after resolveAndRewrite).volume) = .ok [oneExport] := by
    decide +kernel
  have hfirst : firstReading? ((start .default oneBarrel).log resolveAndRewrite)
      (.ofPath "/proj/a.ts") = some ⟨[⟨.named, some "a", false, 13, none⟩], []⟩ := by
    decide +kernel
  have hlog : (keptOf ((start .default oneBarrel).log resolveAndRewrite)).map Prod.fst =
      [.ofPath "/proj/index.ts", .ofPath "/proj/a.ts"] := by
    decide +kernel
  refine ⟨?_, ?_, hunchanged [] _ rfl (by simp) (by decide), ?_⟩
  · rw [hexports, Step.answer, hrun]
  · rw [hsurface, Step.answer, firstRead, hfirst]
  · rw [hcount, hlog]
    rfl

end Session

end FlatExports
