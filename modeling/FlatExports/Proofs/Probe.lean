import FlatExports.Proofs.Specifier

/-!
Specifiers and the files they lead to.

With extensions that hold no slash, looking for a file never fails on a
candidate, and a file that is found stands where its location says.  The
specifier that is made for a standing file starts with a dot and leads back.
-/

namespace FlatExports

namespace Lookup

variable {lookup : Lookup} {specifier : String} {directory target : Location}

def PlainExtensions (lookup : Lookup) : Prop :=
  ∀ extension ∈ lookup.settings.extensions, '/' ∉ extension.toList

instance (lookup : Lookup) : Decidable lookup.PlainExtensions :=
  inferInstanceAs (Decidable (∀ extension ∈ lookup.settings.extensions, '/' ∉ extension.toList))

/-! ## Candidates -/

theorem lastSegment_of_no_trailing_slash (h : specifier.toList.getLast? ≠ some '/') :
    lastSegment specifier = lastPiece specifier := by
  have hkeep : specifier.toList.reverse.dropWhile (· = '/') = specifier.toList.reverse := by
    cases hreverse : specifier.toList.reverse with
    | nil => rfl
    | cons c rest =>
        have hlast : specifier.toList.getLast? = some c := by
          rw [← List.head?_reverse, hreverse]
          rfl
        have hc : c ≠ '/' := fun heq => h (heq ▸ hlast)
        rw [List.dropWhile_cons_of_neg (by simpa using hc)]
  rw [lastSegment, hkeep, List.reverse_reverse, String.ofList_toList]

theorem lastPiece_ne_empty (hne : specifier ≠ "") (h : specifier.toList.getLast? ≠ some '/') :
    lastPiece specifier ≠ "" := by
  intro hempty
  rcases eq_lastPiece_or specifier with hspecifier | ⟨first, hspecifier⟩
  · exact hne (hspecifier.trans hempty)
  · rw [hempty] at hspecifier
    rw [hspecifier] at h
    exact h (by simp)

theorem isStep_lastPiece (hne : specifier ≠ "") (h : namesDirectory specifier = false) :
    IsStep (lastPiece specifier) := by
  simp only [namesDirectory, Bool.or_eq_false_iff, decide_eq_false_iff_not] at h
  obtain ⟨⟨hslash, hdot⟩, -⟩ := h
  rw [lastSegment_of_no_trailing_slash hslash] at hdot
  exact ⟨lastPiece_ne_empty hne hslash, hdot, no_slash_of_lastPiece specifier⟩

theorem getLast?_join (h : IsStep (lastPiece specifier)) :
    (directory.join specifier).names.getLast? = some (lastPiece specifier) := by
  unfold Location.join
  split
  · exact getLast?_pathNames h
  · rw [List.getLast?_append, getLast?_pathNames h]
    rfl

theorem isStep_append {name extension : String} (hname : IsStep name)
    (hextension : '/' ∉ extension.toList) : IsStep (name ++ extension) := by
  obtain ⟨hempty, hdot, hslash⟩ := hname
  have hne : name.toList ≠ [] := by simpa using hempty
  refine ⟨?_, ?_, by simp [hslash, hextension]⟩
  · intro h
    have hlist := congrArg String.toList h
    simp only [String.toList_append, String.toList_empty, List.append_eq_nil_iff] at hlist
    exact hne hlist.1
  · intro h
    have hlist := congrArg String.toList h
    rw [String.toList_append] at hlist
    cases hchars : name.toList with
    | nil => exact hne hchars
    | cons c rest =>
        rw [hchars, List.cons_append] at hlist
        obtain ⟨rfl, hrest⟩ := List.cons.inj hlist
        obtain ⟨rfl, -⟩ := List.append_eq_nil_iff.mp hrest
        exact hdot (String.toList_inj.mp hchars)

theorem withName_eq_ok {location : Location} {name : String} (hne : location.names ≠ [])
    (hname : IsStep name) : location.withName name = .ok (location.parent.child name) := by
  rw [Location.withName, if_neg (by simpa using hne),
    if_neg (by simp [hname.1, hname.2.1, hname.2.2])]

theorem isStep_of_withName {location named : Location} {name : String}
    (hsteps : ∀ name ∈ location.names, IsStep name) (h : location.withName name = .ok named) :
    ∀ name ∈ named.names, IsStep name := by
  unfold Location.withName at h
  split at h
  · cases h
  · split at h
    · cases h
    · rename_i hname
      cases h
      simp only [not_or, Bool.not_eq_true] at hname
      intro other hother
      rcases List.mem_append.mp hother with hother | hother
      · exact hsteps other (List.dropLast_subset _ hother)
      · rw [List.mem_singleton.mp hother]
        exact ⟨hname.1, hname.2.1, by simpa using hname.2.2⟩

theorem isStep_of_candidate {location : Location} (hsteps : ∀ name ∈ directory.names, IsStep name)
    (h : .ok location ∈ lookup.candidates specifier directory) :
    ∀ name ∈ location.names, IsStep name := by
  have hbase : ∀ name ∈ (directory.join specifier).names, IsStep name :=
    fun name => Location.isStep_of_mem_join hsteps
  simp only [candidates, List.mem_cons, List.mem_append] at h
  rcases h with h | h | h
  · cases h
    exact hbase
  · split at h
    · cases h
    · obtain ⟨extension, -, hnamed⟩ := List.mem_map.mp h
      exact isStep_of_withName hbase hnamed
  · split at h
    · obtain ⟨file, -, hfile⟩ := List.mem_map.mp h
      cases hfile
      exact fun name => Location.isStep_of_mem_join hbase
    · cases h

theorem exists_of_candidate (hextensions : lookup.PlainExtensions) (hne : specifier ≠ "")
    {candidate : Except Failure Location} (h : candidate ∈ lookup.candidates specifier directory) :
    ∃ location, candidate = .ok location := by
  simp only [candidates, List.mem_cons, List.mem_append] at h
  rcases h with rfl | h | h
  · exact ⟨_, rfl⟩
  · split at h
    · cases h
    · rename_i hdirectory
      obtain ⟨extension, hextension, rfl⟩ := List.mem_map.mp h
      have hpiece := isStep_lastPiece hne (by simpa using hdirectory)
      have hlast : (directory.join specifier).names.getLast? = some (lastPiece specifier) :=
        getLast?_join hpiece
      have hnames : (directory.join specifier).names ≠ [] := by
        intro hnil
        simp [hnil] at hlast
      have hname : IsStep ((directory.join specifier).name ++ extension) := by
        rw [Location.name, hlast]
        exact isStep_append hpiece (hextensions extension hextension)
      exact ⟨_, withName_eq_ok hnames hname⟩
  · split at h
    · obtain ⟨file, -, rfl⟩ := List.mem_map.mp h
      exact ⟨_, rfl⟩
    · cases h

/-! ## Files that are found -/

/-- A location at which a file stands. -/
def StandingFile (volume : Volume) (file : Location) : Prop :=
  ∃ content, Volume.Stands volume file.names (.file content)

namespace StandingFile

variable {volume : Volume} {file : Location}

theorem isStep (h : StandingFile volume file) : ∀ name ∈ file.names, IsStep name := by
  obtain ⟨content, hstands⟩ := h
  exact fun name hname => (hstands.plain name hname).1

theorem ofPath_written (h : StandingFile volume file) : Location.ofPath file.written = file :=
  Location.ofPath_written h.isStep

end StandingFile

theorem isFile_eq_true {volume : Volume} {location : Location} :
    volume.isFile location = true ↔
      ∃ place content, volume.find location = .ok (place, .file content) := by
  unfold Volume.isFile
  split
  · rename_i place content hfind
    simp [hfind]
  · rename_i hfind
    simp only [Bool.false_eq_true, false_iff, not_exists]
    exact hfind

theorem exists_firstFile {volume : Volume} {candidates : List (Except Failure Location)}
    (hcandidates : ∀ candidate ∈ candidates, ∃ location, candidate = .ok location) :
    ∃ found, firstFile volume candidates = .ok found := by
  induction candidates with
  | nil => exact ⟨none, rfl⟩
  | cons candidate rest ih =>
      rw [List.forall_mem_cons] at hcandidates
      obtain ⟨⟨location, rfl⟩, hrest⟩ := hcandidates
      rw [firstFile]
      split
      · rename_i hfile
        obtain ⟨place, content, hfind⟩ := isFile_eq_true.mp hfile
        exact ⟨some place, by rw [Volume.canonical?, hfind]; rfl⟩
      · exact ih hrest

theorem exists_probe (hextensions : lookup.PlainExtensions) (hne : specifier ≠ "") :
    ∃ found, lookup.probe specifier directory = .ok found :=
  exists_firstFile fun _ => exists_of_candidate hextensions hne

theorem probe_of_resolve {file : Location} (h : lookup.resolve specifier directory = .ok file) :
    lookup.probe specifier directory = .ok (some file) := by
  obtain ⟨found, hprobe, hfound⟩ := bind_eq_ok.mp h
  cases found with
  | none => cases hfound
  | some other =>
      cases hfound
      exact hprobe

theorem resolve_of_probe {file : Location}
    (h : lookup.probe specifier directory = .ok (some file)) :
    lookup.resolve specifier directory = .ok file :=
  bind_eq_ok.mpr ⟨some file, h, rfl⟩

theorem standingFile_of_firstFile {volume : Volume} {file : Location}
    {candidates : List (Except Failure Location)}
    (hcandidates : ∀ location, .ok location ∈ candidates → ∀ name ∈ location.names, IsStep name)
    (h : firstFile volume candidates = .ok (some file)) : StandingFile volume file := by
  induction candidates with
  | nil => cases h
  | cons candidate rest ih =>
      cases candidate with
      | error failure => cases h
      | ok location =>
          rw [firstFile] at h
          split at h
          · rename_i hfile
            obtain ⟨place, content, hfind⟩ := isFile_eq_true.mp hfile
            rw [Volume.canonical?, hfind] at h
            cases h
            exact ⟨content, Volume.find_stands (hcandidates location List.mem_cons_self) hfind⟩
          · exact ih (fun other hother => hcandidates other (List.mem_cons_of_mem _ hother)) h

theorem standingFile_of_resolve {file : Location} (hsteps : ∀ name ∈ directory.names, IsStep name)
    (h : lookup.resolve specifier directory = .ok file) : StandingFile lookup.volume file :=
  standingFile_of_firstFile (fun _ => isStep_of_candidate hsteps) (probe_of_resolve h)

theorem standingFile_of_resolveFile (path : Location) {file : Location}
    (hsteps : ∀ name ∈ path.names, IsStep name) (h : lookup.resolveFile path = .ok file) :
    StandingFile lookup.volume file :=
  standingFile_of_resolve (fun name hname => hsteps name (List.dropLast_subset _ hname)) h

end Lookup

/-! ## Shorter forms -/

theorem isInternal_of_prefix {cs : List Char} {path : String} (hbegins : cs <+: path.toList)
    (hne : cs ≠ []) (h : Specifier.isInternal path = true) :
    Specifier.isInternal (String.ofList cs) = true := by
  simp only [Specifier.isInternal, decide_eq_true_eq, String.toList_ofList] at h ⊢
  cases cs with
  | nil => exact absurd rfl hne
  | cons c rest =>
      obtain ⟨others, hothers⟩ := hbegins
      rw [← hothers] at h
      exact h

theorem ne_empty_of_isInternal {path : String} (h : Specifier.isInternal path = true) :
    path ≠ "" := by
  rintro rfl
  cases h

theorem cutLastDot_begins (name : List Char) : (Location.cutLastDot name).1 <+: name := by
  unfold Location.cutLastDot
  dsimp only
  split
  · exact List.take_prefix _ _
  · exact List.prefix_refl _

theorem reverse_takeWhile_suffix (keep : Char → Bool) (cs : List Char) :
    (cs.reverse.takeWhile keep).reverse <:+ cs := by
  rw [← List.reverse_prefix, List.reverse_reverse]
  exact List.takeWhile_prefix _

theorem reverse_dropWhile_begins (drop : Char → Bool) (cs : List Char) :
    (cs.reverse.dropWhile drop).reverse <+: cs := by
  rw [← List.reverse_suffix, List.reverse_reverse]
  exact List.dropWhile_suffix _

theorem isInternal_cutExtension {path : String} (h : Specifier.isInternal path = true) :
    Specifier.isInternal (cutExtension path).1 = true := by
  unfold cutExtension
  dsimp only
  split
  · exact h
  · rename_i hstem
    refine isInternal_of_prefix ?_ (fun hnil => hstem ?_) h
    · have hname := List.suffix_iff_eq_append.mp
        (reverse_takeWhile_suffix (fun c => decide (c ≠ '/')) path.toList)
      obtain ⟨tail, htail⟩ := cutLastDot_begins
        (path.toList.reverse.takeWhile fun c => decide (c ≠ '/')).reverse
      refine ⟨tail, ?_⟩
      rw [List.append_assoc, htail, hname]
    · rw [(List.append_eq_nil_iff.mp hnil).2]
      rfl

theorem isInternal_pathDirectory {path : String} (h : Specifier.isInternal path = true)
    (hne : pathDirectory path ≠ "") : Specifier.isInternal (pathDirectory path) = true := by
  unfold pathDirectory at hne ⊢
  dsimp only at hne ⊢
  refine isInternal_of_prefix ?_ (fun hnil => hne (by rw [hnil])) h
  split
  · exact List.take_prefix _ _
  · exact (reverse_dropWhile_begins _ _).trans (List.take_prefix _ _)

theorem isInternal_of_mem_shorterForms {extensions : List String} {full form : String}
    (h : Specifier.isInternal full = true) (hform : form ∈ Lookup.shorterForms extensions full) :
    Specifier.isInternal form = true := by
  unfold Lookup.shorterForms at hform
  have hstem := isInternal_cutExtension h
  generalize cutExtension full = cut at hform hstem
  obtain ⟨stem, extension⟩ := cut
  simp only [List.mem_append, List.mem_cons, List.not_mem_nil, or_false] at hform
  rcases hform with hform | rfl | rfl
  · split at hform
    · rw [List.mem_singleton] at hform
      by_cases hdirectory : pathDirectory stem = "" ∨ pathDirectory stem = "."
      · rw [hform, if_pos hdirectory]
        decide
      · rw [hform, if_neg hdirectory]
        rw [not_or] at hdirectory
        exact isInternal_pathDirectory hstem hdirectory.1
    · cases hform
  · exact hstem
  · exact h

namespace Lookup

variable {lookup : Lookup} {specifier : String} {target directory : Location}

/-! ## The way back -/

theorem advance_up {volume : Volume} {reached rest : List String} (count : Nat) :
    volume.advance reached (List.replicate count ".." ++ rest) =
      volume.advance (reached.take (reached.length - count)) rest := by
  induction count generalizing reached with
  | zero => simp
  | succ count ih =>
      rw [List.replicate_succ, List.cons_append, Volume.advance, if_neg (by decide), if_pos rfl, ih,
        List.dropLast_eq_take, List.take_take, List.length_take]
      congr 2
      omega

theorem find_relative {content : Text.Bytes}
    (htarget : Volume.Stands lookup.volume target.names (.file content))
    (hplain : Volume.Plain directory.names)
    (hdirectory : lookup.volume.Directories directory.names) :
    lookup.volume.find (directory.join (Specifier.relative target directory)) =
      .ok (target, .file content) := by
  rw [Specifier.join_relative htarget.plain hplain]
  refine Volume.find_eq_ok.mpr ⟨?_, htarget.entry_eq⟩
  have hshared := Specifier.take_commonLength directory.names target.names
  have hup : directory.names.length -
      (directory.names.length - Specifier.commonLength directory.names target.names) =
      Specifier.commonLength directory.names target.names := by
    have hle := Specifier.commonLength_le directory.names target.names
    omega
  have hsplit := List.take_append_drop
    (Specifier.commonLength directory.names target.names) target.names
  have hadvance : lookup.volume.advance []
      (directory.names ++ Specifier.steps target.names directory.names) =
      .arrived target.names := by
    rw [Volume.advance_through hplain (by simpa using hdirectory), List.nil_append,
      Specifier.steps, advance_up, hup, hshared,
      Volume.advance_of_stands (fun name hname => htarget.plain name (List.drop_subset _ _ hname))
        (hsplit.symm ▸ htarget), hsplit]
  unfold Volume.walk Volume.walkFrom
  rw [hadvance]

theorem probe_relative (htarget : StandingFile lookup.volume target)
    (hplain : Volume.Plain directory.names)
    (hdirectory : lookup.volume.Directories directory.names) :
    lookup.probe (Specifier.relative target directory) directory = .ok (some target) := by
  obtain ⟨content, hstands⟩ := htarget
  have hfind := find_relative hstands hplain hdirectory
  rw [probe, candidates, firstFile, if_pos (isFile_eq_true.mpr ⟨_, _, hfind⟩), Volume.canonical?,
    hfind]
  rfl

theorem exists_firstLeading {full : String} {forms : List String}
    (hextensions : lookup.PlainExtensions) (hfull : Specifier.isInternal full = true)
    (hforms : ∀ form ∈ forms, Specifier.isInternal form = true) :
    ∃ specifier, firstLeading lookup target directory full forms = .ok specifier ∧
      Specifier.isInternal specifier = true := by
  induction forms with
  | nil => exact ⟨full, rfl, hfull⟩
  | cons form rest ih =>
      rw [List.forall_mem_cons] at hforms
      obtain ⟨found, hfound⟩ : ∃ found, lookup.probe form directory = .ok found :=
        exists_probe hextensions (ne_empty_of_isInternal hforms.1)
      rw [firstLeading, hfound]
      change ∃ specifier, (if found = some target then _ else _) = _ ∧ _
      split
      · exact ⟨form, rfl, hforms.1⟩
      · exact ih hforms.2

theorem resolve_of_firstLeading {full : String} {forms : List String}
    (hprobe : lookup.probe full directory = .ok (some target))
    (h : firstLeading lookup target directory full forms = .ok specifier) :
    lookup.resolve specifier directory = .ok target := by
  induction forms with
  | nil =>
      cases h
      exact resolve_of_probe hprobe
  | cons form rest ih =>
      obtain ⟨found, hfound, h⟩ := bind_eq_ok.mp h
      split at h
      · rename_i hleads
        cases h
        exact resolve_of_probe (hleads ▸ hfound)
      · exact ih h

theorem resolve_of_relativeSpecifier (htarget : StandingFile lookup.volume target)
    (hplain : Volume.Plain directory.names) (hdirectory : lookup.volume.Directories directory.names)
    (h : lookup.relativeSpecifier target directory = .ok specifier) :
    lookup.resolve specifier directory = .ok target :=
  resolve_of_firstLeading (probe_relative htarget hplain hdirectory) h

/-- The specifier made for a standing file is internal and leads back to it. -/
theorem relativeSpecifier_leads (hextensions : lookup.PlainExtensions)
    (htarget : StandingFile lookup.volume target) (hplain : Volume.Plain directory.names)
    (hdirectory : lookup.volume.Directories directory.names) :
    ∃ specifier, lookup.relativeSpecifier target directory = .ok specifier ∧
      Specifier.isInternal specifier = true ∧
      lookup.resolve specifier directory = .ok target := by
  have hfull := Specifier.isInternal_ofRelativePath (Specifier.relativePath target directory)
  obtain ⟨specifier, hmade, hinternal⟩ :
      ∃ specifier, lookup.relativeSpecifier target directory = .ok specifier ∧
        Specifier.isInternal specifier = true :=
    exists_firstLeading hextensions hfull fun _ => isInternal_of_mem_shorterForms hfull
  exact ⟨specifier, hmade, hinternal,
    resolve_of_relativeSpecifier htarget hplain hdirectory hmade⟩

/--
Whatever paths a file and a directory are reached by, the specifier made from
their canonical locations is internal and a probe of it finds the file.
-/
theorem probe_relativeSpecifier {path folder : String} {content : Text.Bytes}
    (hextensions : lookup.PlainExtensions)
    (htarget : lookup.volume.find (.ofPath path) = .ok (target, .file content))
    (hdirectory : lookup.volume.find (.ofPath folder) = .ok (directory, .directory)) :
    ∃ specifier, lookup.relativeSpecifier target directory = .ok specifier ∧
      Specifier.isInternal specifier = true ∧
      lookup.probe specifier directory = .ok (some target) := by
  have hfile : StandingFile lookup.volume target :=
    ⟨content, Volume.find_stands (Location.isStep_of_mem_ofPath path) htarget⟩
  have hstands := Volume.find_stands (Location.isStep_of_mem_ofPath folder) hdirectory
  obtain ⟨specifier, hmade, hinternal, hresolve⟩ :=
    relativeSpecifier_leads hextensions hfile hstands.plain hstands.directories_of_directory
  exact ⟨specifier, hmade, hinternal, probe_of_resolve hresolve⟩

def shadowedFolder : Lookup where
  settings := .default
  volume := ⟨[(["proj"], .directory), (["proj", "lib.ts"], .file []),
    (["proj", "lib"], .directory), (["proj", "lib", "index.ts"], .file []),
    (["proj", "alias"], .link "lib")]⟩

/-- The index file of a folder keeps its name where a file hides the folder. -/
theorem probe_relativeSpecifier_shadowedFolder :
    shadowedFolder.relativeSpecifier (.ofPath "/proj/lib/index.ts") (.ofPath "/proj") =
        .ok "./lib/index" ∧
      shadowedFolder.probe "./lib/index" (.ofPath "/proj") =
        .ok (some (.ofPath "/proj/lib/index.ts")) := by
  have hmade : shadowedFolder.relativeSpecifier (.ofPath "/proj/lib/index.ts")
      (.ofPath "/proj") = .ok "./lib/index" := by decide +kernel
  have htarget : shadowedFolder.volume.find (.ofPath "/proj/alias/index.ts") =
      .ok (.ofPath "/proj/lib/index.ts", .file []) := by decide +kernel
  have hdirectory : shadowedFolder.volume.find (.ofPath "/proj") =
      .ok (.ofPath "/proj", .directory) := by decide +kernel
  obtain ⟨specifier, hspecifier, -, hprobe⟩ :=
    probe_relativeSpecifier (by decide) htarget hdirectory
  obtain rfl := ok_inj hmade hspecifier
  exact ⟨hmade, hprobe⟩

end Lookup

end FlatExports
