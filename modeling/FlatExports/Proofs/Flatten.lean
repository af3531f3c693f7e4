import FlatExports.Proofs.Module.Scan
import FlatExports.Proofs.Resolution.Trail
import FlatExports.Proofs.Volume.Edit
import FlatExports.Session
import FlatExports.Syntax.Typescript

/-!
What a run does to its volume.

Every run takes one of five courses, told apart by what `flatten` finds and by
the options.  Only one of them writes, and it writes the root: a run that fails
or is a rehearsal leaves the volume as it is, and no run changes the shape of
it, so the root of a path stays what it is however many runs there are.
-/

namespace FlatExports

section

variable [Syntax.Grammar]

/-! ## The root -/

omit [Syntax.Grammar] in
theorem Syntax.source_of_ofNode {label : String} {source : Text.Bytes} {root : Node}
    {tree : ModuleTree} (h : ModuleTree.ofNode label source root = .ok tree) :
    tree.source = source := by
  unfold ModuleTree.ofNode at h
  split at h
  · cases h
  · cases h
    rfl

theorem Syntax.source_of_ofSource {encoding : Encoding} {label : String} {markup : Bool}
    {source : Text.Bytes} {tree : ModuleTree}
    (h : ModuleTree.ofSource encoding label markup source = .ok tree) : tree.source = source := by
  unfold ModuleTree.ofSource at h
  split at h
  · cases h
  · exact source_of_ofNode h

theorem Module.read_of_loadScan {volume : Volume} {file : Location} {scanned : Scan}
    (h : loadScan volume file = .ok scanned) : volume.read file = .ok scanned.source := by
  obtain ⟨tree, htree, hscan⟩ := bind_eq_ok.mp h
  have hsource : scanned.source = tree.source := source_of_scan hscan
  unfold loadTree at htree
  split at htree
  · cases htree
  · rename_i source hread
    rw [hread, hsource, Syntax.source_of_ofSource htree]

theorem flatten_eq_ok {lookup : Lookup} {path : Location} {flattened : Flattened}
    (h : flatten lookup path = .ok flattened) :
    lookup.resolveFile path = .ok flattened.root ∧
      lookup.volume.read flattened.root = .ok flattened.source := by
  obtain ⟨root, hroot, h⟩ := bind_eq_ok.mp h
  obtain ⟨scanned, hscan, h⟩ := bind_eq_ok.mp h
  obtain ⟨resolved, -, h⟩ := bind_eq_ok.mp h
  obtain ⟨statements, -, h⟩ := bind_eq_ok.mp h
  obtain ⟨output, -, h⟩ := bind_eq_ok.mp h
  cases h
  exact ⟨hroot, Module.read_of_loadScan hscan⟩

/-! ## Calls -/

/-- A run that somebody asks for: with some settings, on the file that a written path means. -/
structure Call where
  settings : Settings
  path : String
  options : RunOptions

namespace Call

def lookup (call : Call) (volume : Volume) : Lookup := ⟨call.settings, volume⟩

def root? (call : Call) (volume : Volume) : Option Location :=
  ((call.lookup volume).resolveFile (.ofPath call.path)).toOption

def flattened (call : Call) (volume : Volume) : Except Failure Flattened :=
  flatten (call.lookup volume) (.ofPath call.path)

def taken (call : Call) (volume : Volume) : Except Failure (Except RunFailure Report) × Session :=
  (Session.start call.settings volume).flatten (.ofPath call.path) call.options

def answer (call : Call) (volume : Volume) : Except Failure (Except RunFailure Report) :=
  (call.taken volume).1

def leaves (call : Call) (volume : Volume) : Volume := (call.taken volume).2.volume

def rehearsal (call : Call) : Call := { call with options := { call.options with dryRun := true } }

variable {call : Call} {before : Volume} {report : Report}

/-- How a call goes: what it answers, and which volume it leaves. -/
inductive Course (call : Call) (before : Volume) :
    Except Failure (Except RunFailure Report) → Volume → Prop
  | raised {failure : Failure} (hfound : call.flattened before = .error failure)
      (hreported : failure.isReported = false) : Course call before (.error failure) before
  | failed {failure : Failure} (hfound : call.flattened before = .error failure)
      (hreported : failure.isReported = true) :
      Course call before (.ok (.error (.failed (.ofPath call.path) failure))) before
  | kept {flattened : Flattened} (hfound : call.flattened before = .ok flattened)
      (hkept : flattened.changed = false ∨ call.options.dryRun = true) :
      Course call before (.ok (.ok ⟨flattened, false⟩)) before
  | unwritable {flattened : Flattened} {reason : String}
      (hfound : call.flattened before = .ok flattened) (hchanged : flattened.changed = true)
      (hdry : call.options.dryRun = false) (hreason : call.options.writeError = some reason) :
      Course call before (.ok (.error (.writeFailed flattened.root reason))) before
  | rewritten {flattened : Flattened} (hfound : call.flattened before = .ok flattened)
      (hchanged : flattened.changed = true) (hdry : call.options.dryRun = false)
      (hwritable : call.options.writeError = none) :
      Course call before (.ok (.ok ⟨flattened, true⟩))
        (before.write flattened.root flattened.outputBytes)

theorem taken_of_ok {result : Except RunFailure Report} {after : Volume}
    (h : run (call.lookup before) (.ofPath call.path) call.options = .ok (result, after)) :
    call.taken before =
      (.ok result, { Session.start call.settings before with volume := after }) := by
  have hrun : run (Session.start call.settings before).lookup (.ofPath call.path) call.options =
      .ok (result, after) := h
  unfold taken Session.flatten
  rw [hrun]

theorem taken_of_error {failure : Failure}
    (h : run (call.lookup before) (.ofPath call.path) call.options = .error failure) :
    call.taken before = (.error failure, Session.start call.settings before) := by
  have hrun : run (Session.start call.settings before).lookup (.ofPath call.path) call.options =
      .error failure := h
  unfold taken Session.flatten
  rw [hrun]

theorem course_of_ok {result : Except RunFailure Report} {after : Volume}
    (h : run (call.lookup before) (.ofPath call.path) call.options = .ok (result, after))
    (hcourse : call.Course before (.ok result) after) :
    call.Course before (call.answer before) (call.leaves before) := by
  rw [answer, leaves, taken_of_ok h]
  exact hcourse

theorem course_of_error {failure : Failure}
    (h : run (call.lookup before) (.ofPath call.path) call.options = .error failure)
    (hcourse : call.Course before (.error failure) before) :
    call.Course before (call.answer before) (call.leaves before) := by
  rw [answer, leaves, taken_of_error h]
  exact hcourse

theorem course (call : Call) (before : Volume) :
    call.Course before (call.answer before) (call.leaves before) := by
  cases hfound : flatten (call.lookup before) (.ofPath call.path) with
  | error failure =>
      cases hreported : failure.isReported with
      | false =>
          refine course_of_error ?_ (.raised hfound hreported)
          unfold run
          simp [hfound, hreported]
      | true =>
          refine course_of_ok ?_ (.failed hfound hreported)
          unfold run
          simp only [hfound, hreported, if_true]
          rfl
  | ok flattened =>
      by_cases hwrites : flattened.changed = true ∧ ¬call.options.dryRun = true
      · have hdry : call.options.dryRun = false := by simpa using hwrites.2
        cases hwritable : call.options.writeError with
        | some reason =>
            refine course_of_ok ?_ (.unwritable hfound hwrites.1 hdry hwritable)
            unfold run
            simp only [hfound, if_pos hwrites, hwritable]
            rfl
        | none =>
            refine course_of_ok ?_ (.rewritten hfound hwrites.1 hdry hwritable)
            unfold run
            simp only [hfound, if_pos hwrites, hwritable]
            rfl
      · have hkept : flattened.changed = false ∨ call.options.dryRun = true := by
          by_cases hchanged : flattened.changed = true
          · exact .inr (by simpa [hchanged] using hwrites)
          · exact .inl (by simpa using hchanged)
        refine course_of_ok ?_ (.kept hfound hkept)
        unfold run
        simp only [hfound, if_neg hwrites]
        rfl

/-! ## What a call leaves alone -/

theorem standing_root {flattened : Flattened} (hfound : call.flattened before = .ok flattened) :
    call.root? before = some flattened.root ∧
      Volume.Stands before flattened.root.names (.file flattened.source) := by
  obtain ⟨hroot, hread⟩ := flatten_eq_ok hfound
  obtain ⟨content, hstands⟩ :=
    Lookup.standingFile_of_resolveFile _ (Location.isStep_of_mem_ofPath call.path) hroot
  obtain rfl := ok_inj (Volume.read_of_stands hstands) hread
  exact ⟨by rw [root?, hroot]; rfl, hstands⟩

namespace Course

variable {answer : Except Failure (Except RunFailure Report)} {after : Volume}

theorem sameShape (h : call.Course before answer after) : before.SameShape after := by
  cases h with
  | rewritten hfound =>
      obtain ⟨-, hstands⟩ := standing_root hfound
      exact Volume.sameShape_write hstands
  | _ => exact fun _ => rfl

theorem entry_kept (h : call.Course before answer after) {names : List String}
    (hne : call.root? before ≠ some ⟨names⟩) : after.entry? names = before.entry? names := by
  cases h with
  | rewritten hfound =>
      obtain ⟨hroot, hstands⟩ := standing_root hfound
      rw [Volume.entry_write hstands, if_neg]
      rintro rfl
      exact hne hroot
  | _ => rfl

theorem read_eq (h : call.Course before answer after) {location : Location}
    (hne : ∀ root, call.root? before = some root → before.canonical? location ≠ some root) :
    after.read location = before.read location := by
  cases h with
  | rewritten hfound =>
      obtain ⟨hroot, hstands⟩ := standing_root hfound
      exact Volume.read_write_of_ne hstands (hne _ hroot)
  | _ => rfl

theorem eq_of_failure (h : call.Course before answer after) {failure : Failure}
    (hfailure : answer = .error failure ∨
      ∃ file, answer = .ok (.error (.failed file failure))) : after = before := by
  cases h with
  | rewritten => simp at hfailure
  | _ => rfl

theorem eq_of_dryRun (h : call.Course before answer after) (hdry : call.options.dryRun = true) :
    after = before := by
  cases h with
  | rewritten _ _ hwet =>
      rw [hdry] at hwet
      cases hwet
  | _ => rfl

theorem output_of_report (h : call.Course before (.ok (.ok report)) after)
    (hdry : call.options.dryRun = false) :
    call.root? before = some report.flattened.root ∧
      after.read report.flattened.root = .ok report.flattened.outputBytes ∧
      report.written = report.flattened.changed ∧
      (report.flattened.changed = true ↔
        before.read report.flattened.root ≠ .ok report.flattened.outputBytes) := by
  have hchanged {flattened : Flattened}
      (hread : before.read flattened.root = .ok flattened.source) :
      flattened.changed = true ↔
        before.read flattened.root ≠ .ok flattened.outputBytes := by
    simp only [hread, Flattened.changed, decide_eq_true_eq, ne_eq, Except.ok.injEq]
    exact ne_comm
  cases h with
  | kept hfound hkept =>
      obtain ⟨hroot, hstands⟩ := standing_root hfound
      have hread := Volume.read_of_stands hstands
      rcases hkept with hsame | hwet
      · refine ⟨hroot, ?_, hsame.symm, hchanged hread⟩
        have hiff := hchanged hread
        rw [hsame] at hiff
        simpa using hiff
      · rw [hdry] at hwet
        cases hwet
  | rewritten hfound hdiffers =>
      obtain ⟨hroot, hstands⟩ := standing_root hfound
      exact ⟨hroot, Volume.read_write hstands, hdiffers.symm,
        hchanged (Volume.read_of_stands hstands)⟩

theorem answer_of_dryRun (h : call.Course before answer after)
    (hdry : call.options.dryRun = true) :
    answer =
      match call.flattened before with
      | .ok flattened => .ok (.ok ⟨flattened, false⟩)
      | .error failure =>
          if failure.isReported then .ok (.error (.failed (.ofPath call.path) failure))
          else .error failure := by
  cases h with
  | raised hfound hreported => simp [hfound, hreported]
  | failed hfound hreported => simp [hfound, hreported]
  | kept hfound => simp [hfound]
  | unwritable _ _ hwet => simp [hdry] at hwet
  | rewritten _ _ hwet => simp [hdry] at hwet

theorem rehearsed (h : call.Course before answer after)
    (hwritable : ∀ file reason, answer ≠ .ok (.error (.writeFailed file reason))) :
    call.rehearsal.answer before =
      answer.map (Except.map fun report => { report with written := false }) := by
  have hsame : call.rehearsal.flattened before = call.flattened before := rfl
  rw [(call.rehearsal.course before).answer_of_dryRun rfl, hsame]
  cases h with
  | raised hfound hreported => simp [hfound, hreported, Except.map]
  | failed hfound hreported => simp [hfound, hreported, Except.map, rehearsal]
  | kept hfound => simp [hfound, Except.map]
  | unwritable => exact absurd rfl (hwritable _ _)
  | rewritten hfound => simp [hfound, Except.map]

end Course

/-! ## Sequences of calls -/

/-- What a call may do to a volume. -/
structure IsAtomic (call : Call) (before : Volume) : Prop where
  elsewhere : ∀ names, call.root? before ≠ some ⟨names⟩ →
    Volume.entry? (call.leaves before) names = before.entry? names
  reads : ∀ location,
    (∀ root, call.root? before = some root → before.canonical? location ≠ some root) →
      (call.leaves before).read location = before.read location
  failed : ∀ failure,
    (call.answer before = .error failure ∨
      ∃ file, call.answer before = .ok (.error (.failed file failure))) →
      call.leaves before = before
  dry : call.options.dryRun = true → call.leaves before = before
  written : ∀ report, call.answer before = .ok (.ok report) → call.options.dryRun = false →
    call.root? before = some report.flattened.root ∧
      (call.leaves before).read report.flattened.root =
        .ok (Text.bytesOf report.flattened.output) ∧
      report.written = report.flattened.changed ∧
      (report.flattened.changed = true ↔
        (call.leaves before).read report.flattened.root ≠ before.read report.flattened.root)
  rehearsed : (∀ file reason, call.answer before ≠ .ok (.error (.writeFailed file reason))) →
    call.rehearsal.answer before =
      (call.answer before).map (Except.map fun report => { report with written := false })

theorem isAtomic (call : Call) (before : Volume) : call.IsAtomic before where
  elsewhere _ := (call.course before).entry_kept
  reads _ := (call.course before).read_eq
  failed _ := (call.course before).eq_of_failure
  dry := (call.course before).eq_of_dryRun
  written report hanswer hdry := by
    have hcourse := call.course before
    rw [hanswer] at hcourse
    obtain ⟨hroot, hread, hwritten, hchanged⟩ := hcourse.output_of_report hdry
    refine ⟨hroot, hread, hwritten, ?_⟩
    rw [hread]
    exact hchanged.trans ne_comm
  rehearsed := (call.course before).rehearsed

end Call

def Volume.afterCalls (volume : Volume) (calls : List Call) : Volume :=
  calls.foldl (fun volume call => call.leaves volume) volume

omit [Syntax.Grammar] in
theorem Call.root?_eq {first second : Volume} (h : first.SameShape second) (call : Call) :
    call.root? second = call.root? first := by
  simp only [Call.root?, Call.lookup, Lookup.resolveFile, Lookup.resolve, h.probe_eq]

/-- The files that no call is about stay as they are, whatever the calls are. -/
theorem Volume.entry_afterCalls {volume : Volume} {calls : List Call} {names : List String}
    (hne : ∀ call ∈ calls, call.root? volume ≠ some ⟨names⟩) :
    Volume.entry? (volume.afterCalls calls) names = volume.entry? names := by
  induction calls generalizing volume with
  | nil => rfl
  | cons call rest ih =>
      rw [List.forall_mem_cons] at hne
      have hshape := (call.course volume).sameShape
      have hrest : ∀ other ∈ rest, other.root? (call.leaves volume) ≠ some ⟨names⟩ := by
        intro other hother
        rw [Call.root?_eq hshape]
        exact hne.2 other hother
      exact (ih hrest).trans ((call.course volume).entry_kept hne.1)

end

/--
Whatever calls went before, a call writes nothing but its root, and that only
when it has come to its end without a failure and is no rehearsal; the root
then holds the reported output.  Files that are the root of no call are never
touched.
-/
theorem calls_are_atomic [Syntax.Grammar] (volume : Volume) (calls : List Call) :
    (∀ names, (∀ call ∈ calls, call.root? volume ≠ some ⟨names⟩) →
      Volume.entry? (volume.afterCalls calls) names = volume.entry? names) ∧
      ∀ call : Call, call.IsAtomic (volume.afterCalls calls) :=
  ⟨fun _ => Volume.entry_afterCalls, fun call => call.isAtomic _⟩

def smallBarrel : Volume :=
  .ofTexts [("/proj/index.ts", "export * from './a';\n"), ("/proj/a.ts", "export const a = 1;")]

def smallCall : Call := ⟨.default, "/proj/index", ⟨false, none⟩⟩

theorem calls_are_atomic_smallBarrel :
    Volume.entry? (smallBarrel.afterCalls [smallCall, smallCall]) ["proj", "a.ts"] =
        some (.file (Text.bytesOf "export const a = 1;")) ∧
      (smallCall.leaves smallBarrel).read (.ofPath "/proj/index.ts") =
        .ok (Text.bytesOf "export { a } from './a';\n") ∧
      smallCall.rehearsal.leaves smallBarrel = smallBarrel := by
  obtain ⟨hkept, -⟩ := calls_are_atomic smallBarrel [smallCall, smallCall]
  obtain ⟨-, hatomic⟩ := calls_are_atomic smallBarrel []
  have hroot : smallCall.root? smallBarrel = some (.ofPath "/proj/index.ts") := by decide +kernel
  have houtput : ∃ report, smallCall.answer smallBarrel = .ok (.ok report) ∧
      report.flattened.output = "export { a } from './a';\n" := by
    have hshown : ((smallCall.answer smallBarrel).toOption.bind Except.toOption).map
        (fun report => report.flattened.output) = some "export { a } from './a';\n" := by
      decide +kernel
    obtain ⟨report, hreport, houtput⟩ := Option.map_eq_some_iff.mp hshown
    obtain ⟨result, hresult, hreport⟩ := Option.bind_eq_some_iff.mp hreport
    refine ⟨report, ?_, houtput⟩
    rw [eq_ok_of_toOption hresult, eq_ok_of_toOption hreport]
  refine ⟨?_, ?_, (hatomic smallCall.rehearsal).dry rfl⟩
  · rw [hkept]
    · decide +kernel
    · simp only [List.mem_cons, List.not_mem_nil, or_false, or_self, forall_eq, hroot]
      decide
  · obtain ⟨report, hanswer, houtput⟩ := houtput
    obtain ⟨hreported, hread, -⟩ := (hatomic smallCall).written report hanswer rfl
    have hfile : Location.ofPath "/proj/index.ts" = report.flattened.root :=
      Option.some.inj (hroot.symm.trans hreported)
    rw [hfile, ← houtput]
    exact hread

end FlatExports
