import FlatExports.Resolution.Survey
import Mathlib.Data.List.Forall2

/-!
Runs of composed surveys.

A run of a composition is the composition of the runs, so a successful run
splits into successful runs of its parts.
-/

namespace FlatExports

variable {α β ε : Type}

instance exceptDecidableEq [DecidableEq ε] [DecidableEq α] : DecidableEq (Except ε α)
  | .ok first, .ok second => decidable_of_iff (first = second) (by simp)
  | .error first, .error second => decidable_of_iff (first = second) (by simp)
  | .ok _, .error _ => isFalse (by simp)
  | .error _, .ok _ => isFalse (by simp)

theorem bind_eq_ok {outcome : Except ε α} {next : α → Except ε β} {value : β} :
    (outcome >>= next) = .ok value ↔
      ∃ first, outcome = .ok first ∧ next first = .ok value := by
  cases outcome with
  | ok first => simp [bind, Except.bind]
  | error failure => simp [bind, Except.bind]

theorem ok_inj {outcome : Except ε α} {first second : α} (hfirst : outcome = .ok first)
    (hsecond : outcome = .ok second) : first = second := by
  rw [hfirst] at hsecond
  exact Except.ok.inj hsecond

theorem eq_ok_of_toOption {outcome : Except ε α} {value : α}
    (h : outcome.toOption = some value) : outcome = .ok value := by
  cases outcome with
  | ok found => exact congrArg _ (Option.some.inj h)
  | error failure => cases h

theorem mapM_eq_ok {change : α → Except ε β} {inputs : List α} {values : List β} :
    inputs.mapM change = .ok values ↔
      List.Forall₂ (fun input value => change input = .ok value) inputs values := by
  induction inputs generalizing values with
  | nil =>
      simp only [List.mapM_nil, List.forall₂_nil_left_iff]
      constructor
      · rintro ⟨⟩
        rfl
      · rintro rfl
        rfl
  | cons input inputs ih =>
      simp only [List.mapM_cons, bind_eq_ok, List.forall₂_cons_left_iff, ih]
      constructor
      · rintro ⟨value, hvalue, rest, hrest, heq⟩
        cases heq
        exact ⟨value, rest, hvalue, hrest, rfl⟩
      · rintro ⟨value, rest, hvalue, hrest, rfl⟩
        exact ⟨value, hvalue, rest, hrest, rfl⟩

theorem exists_right_of_forall₂ {related : α → β → Prop} {inputs : List α} {values : List β}
    (h : List.Forall₂ related inputs values) {input : α} (hinput : input ∈ inputs) :
    ∃ value ∈ values, related input value := by
  induction h with
  | nil => cases hinput
  | cons hfirst _ ih =>
      rcases List.mem_cons.mp hinput with rfl | hrest
      · exact ⟨_, List.mem_cons_self, hfirst⟩
      · obtain ⟨value, hvalue, hrelated⟩ := ih hrest
        exact ⟨value, List.mem_cons_of_mem _ hvalue, hrelated⟩

theorem exists_left_of_forall₂ {related : α → β → Prop} {inputs : List α} {values : List β}
    (h : List.Forall₂ related inputs values) {value : β} (hvalue : value ∈ values) :
    ∃ input ∈ inputs, related input value :=
  exists_right_of_forall₂ h.flip hvalue

theorem exists_forall₂ {related : α → β → Prop} {inputs : List α}
    (h : ∀ input ∈ inputs, ∃ value, related input value) :
    ∃ values, List.Forall₂ related inputs values := by
  induction inputs with
  | nil => exact ⟨[], .nil⟩
  | cons input rest ih =>
      rw [List.forall_mem_cons] at h
      obtain ⟨value, hvalue⟩ := h.1
      obtain ⟨values, hvalues⟩ := ih h.2
      exact ⟨value :: values, .cons hvalue hvalues⟩

namespace Survey

variable {read : Reader}

@[simp] theorem run_pure (value : α) : run read (pure value : Survey α) = .ok value := rfl

@[simp] theorem run_ofExcept (outcome : Except Failure α) :
    run read (ofExcept outcome) = outcome := rfl

@[simp] theorem run_fail (failure : Failure) :
    run read (fail failure : Survey α) = .error failure := rfl

@[simp] theorem run_look (module : Location) : run read (look module) = read module := by
  simp only [look, run]
  cases read module with
  | ok surface => rfl
  | error failure => rfl

theorem run_bind (survey : Survey α) (next : α → Survey β) :
    run read (survey >>= next) = (run read survey >>= fun value => run read (next value)) := by
  change run read (survey.andThen next) = _
  induction survey with
  | done outcome =>
      cases outcome with
      | ok value => rfl
      | error failure => rfl
  | visit module rest ih =>
      simp only [andThen, run]
      cases read module with
      | ok surface => exact ih surface
      | error failure => rfl

theorem run_bind_eq_ok {survey : Survey α} {next : α → Survey β} {value : β} :
    run read (survey >>= next) = .ok value ↔
      ∃ first, run read survey = .ok first ∧ run read (next first) = .ok value := by
  rw [run_bind, bind_eq_ok]

/-! ## Readers of a few modules -/

def readerOf (surfaces : List (Location × Surface)) : Reader := fun module =>
  match surfaces.find? (·.1 = module) with
  | some entry => .ok entry.2
  | none => .error (.unreadable module.written (.notEncoded "utf-8"))

theorem mem_of_readerOf {surfaces : List (Location × Surface)} {module : Location}
    {surface : Surface}
    (h : readerOf surfaces module = .ok surface) : (module, surface) ∈ surfaces := by
  unfold readerOf at h
  split at h
  · rename_i entry hentry
    cases h
    obtain rfl : entry.1 = module := by simpa using List.find?_some hentry
    exact List.mem_of_find?_eq_some hentry
  · cases h

end Survey

end FlatExports
