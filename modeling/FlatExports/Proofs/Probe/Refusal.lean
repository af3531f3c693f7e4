import FlatExports.Proofs.Probe

/-!
Probes that fail.

A probe finds a file, finds none, or fails on the way.  It fails when it comes to
an extension that makes no name: one that holds a slash, or any at all when an
empty specifier is probed from the root, which has no name to extend.  Such a
failure is not one that a run reports.
-/

namespace FlatExports.Lookup

variable {lookup : Lookup} {volume : Volume} {specifier extension : String}
  {base directory : Location} {failure : Failure} {extensions : List String}
  {tail : List (Except Failure Location)}

/-! ## Extended names -/

def extended (base : Location) (extension : String) : Location :=
  base.parent.child (base.name ++ extension)

theorem withName_extended (hsteps : ∀ name ∈ base.names, IsStep name) (hne : base.names ≠ [])
    (hextension : '/' ∉ extension.toList) :
    base.withName (base.name ++ extension) = .ok (extended base extension) :=
  withName_eq_ok hne (isStep_append (Location.isStep_name hne hsteps) hextension)

theorem withName_slashed (hne : base.names ≠ []) (hextension : '/' ∈ extension.toList) :
    base.withName (base.name ++ extension) = .error (.invalidName (base.name ++ extension)) := by
  rw [Location.withName, if_neg (by simpa using hne), if_pos (by simp [hextension])]

theorem join_eq_root_iff (h : namesDirectory specifier = false) :
    (directory.join specifier).names = [] ↔ specifier = "" ∧ directory.names = [] := by
  constructor
  · intro hroot
    have hempty : specifier = "" := by
      by_contra hne
      have hlast : (directory.join specifier).names.getLast? = some (lastPiece specifier) :=
        getLast?_join (isStep_lastPiece hne h)
      rw [hroot] at hlast
      cases hlast
    subst hempty
    exact ⟨rfl, by simpa [Location.join] using hroot⟩
  · rintro ⟨rfl, hdirectory⟩
    simp [Location.join, hdirectory]

/-! ## Refusals -/

/-- Of some extensions tried in turn, one with a slash is the first that makes no name, and no
file is found before it. -/
inductive ReachesSlash (volume : Volume) (base : Location) : List String → String → Prop
  | here {extension : String} {rest : List String} (hslash : '/' ∈ extension.toList) :
      ReachesSlash volume base (extension :: rest) extension
  | later {earlier extension : String} {rest : List String} (hplain : '/' ∉ earlier.toList)
      (hmissing : volume.isFile (extended base earlier) = false)
      (h : ReachesSlash volume base rest extension) :
      ReachesSlash volume base (earlier :: rest) extension

/-- How a probe fails before it has found a file. -/
inductive Refused (lookup : Lookup) (specifier : String) (directory : Location) : Failure → Prop
  | nameless (hspecifier : specifier = "") (hdirectory : directory.names = [])
      (hextensions : lookup.settings.extensions ≠ []) :
      Refused lookup specifier directory .namelessLocation
  | slashed {extension : String} (hspecifier : namesDirectory specifier = false)
      (hnamed : (directory.join specifier).names ≠ [])
      (hmissing : lookup.volume.isFile (directory.join specifier) = false)
      (h : ReachesSlash lookup.volume (directory.join specifier) lookup.settings.extensions
        extension) :
      Refused lookup specifier directory
        (.invalidName ((directory.join specifier).name ++ extension))

theorem Refused.isReported (h : Refused lookup specifier directory failure) :
    failure.isReported = false := by
  cases h <;> rfl

theorem firstFile_ne_error (h : ∀ candidate ∈ tail, ∃ location, candidate = .ok location) :
    firstFile volume tail ≠ .error failure := by
  obtain ⟨found, hfound⟩ : ∃ found, firstFile volume tail = .ok found := exists_firstFile h
  simp [hfound]

section

variable (hsteps : ∀ name ∈ base.names, IsStep name) (hne : base.names ≠ [])

include hsteps hne

theorem ReachesSlash.firstFile_eq (h : ReachesSlash volume base extensions extension) :
    firstFile volume ((extensions.map fun extension =>
        base.withName (base.name ++ extension)) ++ tail) =
      .error (.invalidName (base.name ++ extension)) := by
  induction h with
  | here hslash => rw [List.map_cons, List.cons_append, withName_slashed hne hslash, firstFile]
  | later hplain hmissing _ ih =>
      rw [List.map_cons, List.cons_append, withName_extended hsteps hne hplain, firstFile,
        if_neg (by simp [hmissing]), ih]

theorem reachesSlash_of_firstFile
    (htail : ∀ candidate ∈ tail, ∃ location, candidate = .ok location)
    (h : firstFile volume ((extensions.map fun extension =>
      base.withName (base.name ++ extension)) ++ tail) = .error failure) :
    ∃ extension, ReachesSlash volume base extensions extension ∧
      failure = .invalidName (base.name ++ extension) := by
  induction extensions with
  | nil => exact absurd h (firstFile_ne_error htail)
  | cons extension rest ih =>
      rw [List.map_cons, List.cons_append] at h
      by_cases hslash : '/' ∈ extension.toList
      · rw [withName_slashed hne hslash, firstFile, Except.error.injEq] at h
        exact ⟨extension, .here hslash, h.symm⟩
      · rw [withName_extended hsteps hne hslash, firstFile] at h
        split at h
        · cases h
        · rename_i hmissing
          obtain ⟨other, hreaches, hfailure⟩ := ih h
          exact ⟨other, .later hslash (by simpa using hmissing) hreaches, hfailure⟩

end

/-! ## Failing probes -/

def indexes (lookup : Lookup) (base : Location) : List (Except Failure Location) :=
  if lookup.volume.isDirectory base then
    lookup.settings.indexFiles.map fun file => .ok (base.join file)
  else []

theorem indexes_ok :
    ∀ candidate ∈ lookup.indexes base, ∃ location, candidate = .ok location := by
  intro candidate hcandidate
  rw [indexes] at hcandidate
  split at hcandidate
  · obtain ⟨file, -, rfl⟩ := List.mem_map.mp hcandidate
    exact ⟨_, rfl⟩
  · cases hcandidate

theorem probe_of_isFile (h : lookup.volume.isFile (directory.join specifier) = true) :
    ∃ file, lookup.probe specifier directory = .ok (some file) := by
  obtain ⟨place, content, hfind⟩ := isFile_eq_true.mp h
  exact ⟨place, by rw [probe, candidates, firstFile, if_pos h, Volume.canonical?, hfind]; rfl⟩

theorem probe_of_missing (hspecifier : namesDirectory specifier = false)
    (h : lookup.volume.isFile (directory.join specifier) = false) :
    lookup.probe specifier directory =
      firstFile lookup.volume ((lookup.settings.extensions.map fun extension =>
        (directory.join specifier).withName ((directory.join specifier).name ++ extension)) ++
          lookup.indexes (directory.join specifier)) := by
  rw [probe, candidates, firstFile, if_neg (by simp [h]), if_neg (by simp [hspecifier]), indexes]

theorem probe_of_directory (hspecifier : namesDirectory specifier = true) :
    lookup.probe specifier directory ≠ .error failure := by
  refine firstFile_ne_error fun candidate hcandidate => ?_
  rw [candidates, if_pos hspecifier, List.nil_append] at hcandidate
  rcases List.mem_cons.mp hcandidate with rfl | hindex
  · exact ⟨_, rfl⟩
  · exact indexes_ok candidate hindex

theorem isFile_root (h : base.names = []) : volume.isFile base = false := by
  obtain ⟨names⟩ := base
  subst h
  rfl

theorem Refused.probe_eq (hsteps : ∀ name ∈ directory.names, IsStep name)
    (h : Refused lookup specifier directory failure) :
    lookup.probe specifier directory = .error failure := by
  cases h with
  | nameless hspecifier hdirectory hextensions =>
      subst hspecifier
      have hroot : (directory.join "").names = [] :=
        (join_eq_root_iff (by decide)).mpr ⟨rfl, hdirectory⟩
      rw [probe_of_missing (by decide) (isFile_root hroot)]
      obtain ⟨extension, rest, hrest⟩ := List.exists_cons_of_ne_nil hextensions
      rw [hrest, List.map_cons, List.cons_append, Location.withName, if_pos (by simp [hroot])]
      rfl
  | slashed hspecifier hnamed hmissing hreaches =>
      rw [probe_of_missing hspecifier hmissing]
      have hbase : ∀ name ∈ (directory.join specifier).names, IsStep name :=
        fun name => Location.isStep_of_mem_join hsteps
      exact hreaches.firstFile_eq hbase hnamed

theorem refused_of_probe (hsteps : ∀ name ∈ directory.names, IsStep name)
    (h : lookup.probe specifier directory = .error failure) :
    Refused lookup specifier directory failure := by
  have hspecifier : namesDirectory specifier = false := by
    by_contra hnames
    exact probe_of_directory (by simpa using hnames) h
  have hmissing : lookup.volume.isFile (directory.join specifier) = false := by
    by_contra hfile
    obtain ⟨file, hfound⟩ := probe_of_isFile (by simpa using hfile)
    rw [hfound] at h
    cases h
  rw [probe_of_missing hspecifier hmissing] at h
  by_cases hroot : (directory.join specifier).names = []
  · obtain ⟨rfl, hdirectory⟩ := (join_eq_root_iff hspecifier).mp hroot
    cases hextensions : lookup.settings.extensions with
    | nil =>
        rw [hextensions] at h
        exact absurd h (firstFile_ne_error indexes_ok)
    | cons extension rest =>
        rw [hextensions, List.map_cons, List.cons_append, Location.withName,
          if_pos (by simp [hroot])] at h
        cases h
        exact .nameless rfl hdirectory (by simp [hextensions])
  · have hbase : ∀ name ∈ (directory.join specifier).names, IsStep name :=
      fun name => Location.isStep_of_mem_join hsteps
    obtain ⟨extension, hreaches, rfl⟩ := reachesSlash_of_firstFile hbase hroot indexes_ok h
    exact .slashed hspecifier hroot hmissing hreaches

/--
A probe that finds a file finds one that stands; it fails exactly if an
extension is refused on the way; and a failure to resolve a specifier is kept
from a run's report exactly then.
-/
theorem probe_fails_iff_refused (lookup : Lookup) (specifier folder : String) :
    (∀ file, lookup.probe specifier (.ofPath folder) = .ok (some file) →
      StandingFile lookup.volume file) ∧
    (∀ failure, lookup.probe specifier (.ofPath folder) = .error failure ↔
      Refused lookup specifier (.ofPath folder) failure) ∧
    ∀ failure, lookup.resolve specifier (.ofPath folder) = .error failure →
      (failure.isReported = false ↔ Refused lookup specifier (.ofPath folder) failure) := by
  have hsteps := Location.isStep_of_mem_ofPath folder
  refine ⟨fun file hprobe => standingFile_of_resolve hsteps (resolve_of_probe hprobe),
    fun failure => ⟨refused_of_probe hsteps, Refused.probe_eq hsteps⟩, ?_⟩
  intro failure hresolve
  refine ⟨fun hreported => refused_of_probe hsteps ?_, Refused.isReported⟩
  rw [resolve] at hresolve
  cases hprobe : lookup.probe specifier (.ofPath folder) with
  | error other =>
      rw [hprobe] at hresolve
      cases hresolve
      rfl
  | ok found =>
      rw [hprobe] at hresolve
      cases found <;> cases hresolve
      cases hreported

def slashedExtension : Lookup where
  settings := { Settings.default with extensions := [".ts", "/x"] }
  volume := ⟨[(["proj"], .directory), (["proj", "b.ts"], .file [])]⟩

/-- A file is found before the slash is reached; where there is none, the slash is refused. -/
theorem probe_fails_iff_refused_slashedExtension :
    slashedExtension.probe "./b" (.ofPath "/proj") = .ok (some (.ofPath "/proj/b.ts")) ∧
      StandingFile slashedExtension.volume (.ofPath "/proj/b.ts") ∧
      slashedExtension.probe "./a" (.ofPath "/proj") = .error (.invalidName "a/x") ∧
      Refused slashedExtension "./a" (.ofPath "/proj") (.invalidName "a/x") := by
  have hfound : slashedExtension.probe "./b" (.ofPath "/proj") =
      .ok (some (.ofPath "/proj/b.ts")) := by decide +kernel
  have hfailed : slashedExtension.probe "./a" (.ofPath "/proj") =
      .error (.invalidName "a/x") := by decide +kernel
  obtain ⟨hstands, -, -⟩ := probe_fails_iff_refused slashedExtension "./b" "/proj"
  obtain ⟨-, hrefused, -⟩ := probe_fails_iff_refused slashedExtension "./a" "/proj"
  exact ⟨hfound, hstands _ hfound, hfailed, (hrefused _).mp hfailed⟩

/-- Nothing matches, and yet the probe fails, with a failure that no run reports. -/
theorem slashed_extension_is_raised :
    slashedExtension.probe "./a" (.ofPath "/proj") = .error (.invalidName "a/x") ∧
      slashedExtension.resolve "./a" (.ofPath "/proj") = .error (.invalidName "a/x") ∧
      (Failure.invalidName "a/x").isReported = false := by
  decide +kernel

end FlatExports.Lookup
