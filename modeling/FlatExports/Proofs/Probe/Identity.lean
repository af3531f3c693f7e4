import FlatExports.Proofs.Volume.Edit

/-!
Identities of modules.

Two locations are one file if what is written through the one is read through the
other.  A probe answers with the place of a file that no link and no `..` leads
to, whatever the specifier looked like, and two probes answer alike exactly if
the candidates they took are one file.
-/

namespace FlatExports

namespace Volume

variable {volume : Volume} {first second place place' : Location} {old old' : Text.Bytes}

/-- Whatever is written through the first location is read through the second. -/
def SameFile (volume : Volume) (first second : Location) : Prop :=
  ∀ content, (volume.write first content).read second = .ok content

theorem read_of_find (h : volume.find first = .ok (place, .file old)) :
    volume.read first = .ok old := by
  rw [read, h]
  rfl

section

variable (hsteps : ∀ name ∈ first.names, IsStep name)
  (hfirst : volume.find first = .ok (place, .file old))

include hsteps hfirst

theorem write_of_find (content : Text.Bytes) :
    volume.write first content = volume.write place content := by
  have hplace := resolve_of_stands (find_stands hsteps hfirst)
  rw [write, write, resolve_of_find hfirst, hplace]

theorem sameFile_of_find (hsecond : volume.find second = .ok (place, .file old')) :
    SameFile volume first second := by
  intro content
  have hstands := find_stands hsteps hfirst
  have hfind : (volume.write place content).find second = .ok (place, .file content) := by
    refine find_eq_ok.mpr ⟨?_, by rw [entry_write hstands, if_pos rfl]⟩
    rw [(sameShape_write hstands).walk_eq]
    exact (find_eq_ok.mp hsecond).1
  rw [write_of_find hsteps hfirst, read_of_find hfind]

theorem place_eq_of_sameFile (hsecond : volume.find second = .ok (place', .file old'))
    (h : SameFile volume first second) : place = place' := by
  by_contra hne
  have hcanonical : volume.canonical? second ≠ some place := by
    rw [canonical?, hsecond]
    exact fun heq => hne (Option.some.inj heq).symm
  -- A content that the second location does not have, written through the first.
  have hkept : (volume.write place (0 :: old')).read second = volume.read second :=
    read_write_of_ne (find_stands hsteps hfirst) hcanonical
  rw [← write_of_find hsteps hfirst, h, read_of_find hsecond] at hkept
  exact List.cons_ne_self 0 old' (Except.ok.inj hkept)

end

end Volume

namespace Lookup

open Volume (SameFile)

variable {lookup : Lookup} {specifier folder : String} {file spelled : Location}
  {candidates : List (Except Failure Location)}

/-! ## The candidate that is taken -/

/-- Among some candidates a location is the first that is a file. -/
inductive Takes (volume : Volume) : List (Except Failure Location) → Location → Prop
  | here {spelled : Location} {rest : List (Except Failure Location)}
      (hfile : volume.isFile spelled = true) : Takes volume (.ok spelled :: rest) spelled
  | later {other spelled : Location} {rest : List (Except Failure Location)}
      (hmissing : volume.isFile other = false) (h : Takes volume rest spelled) :
      Takes volume (.ok other :: rest) spelled

theorem Takes.mem {volume : Volume} (h : Takes volume candidates spelled) :
    .ok spelled ∈ candidates := by
  induction h with
  | here => exact List.mem_cons_self
  | later _ _ ih => exact List.mem_cons_of_mem _ ih

theorem Takes.isFile {volume : Volume} (h : Takes volume candidates spelled) :
    volume.isFile spelled = true := by
  induction h with
  | here hfile => exact hfile
  | later _ _ ih => exact ih

theorem Takes.firstFile_eq {volume : Volume} (h : Takes volume candidates spelled) :
    firstFile volume candidates = .ok (volume.canonical? spelled) := by
  induction h with
  | here hfile => rw [firstFile, if_pos hfile]
  | later hmissing _ ih => rw [firstFile, if_neg (by simp [hmissing]), ih]

theorem Takes.find {volume : Volume} (h : Takes volume candidates spelled)
    (hfound : firstFile volume candidates = .ok (some file)) :
    ∃ content, volume.find spelled = .ok (file, .file content) := by
  obtain ⟨place, content, hfind⟩ := isFile_eq_true.mp h.isFile
  rw [h.firstFile_eq, Volume.canonical?, hfind] at hfound
  cases hfound
  exact ⟨content, hfind⟩

theorem exists_takes {volume : Volume} (h : firstFile volume candidates = .ok (some file)) :
    ∃ spelled, Takes volume candidates spelled := by
  induction candidates with
  | nil => cases h
  | cons candidate rest ih =>
      cases candidate with
      | error failure => cases h
      | ok location =>
          by_cases hfile : volume.isFile location = true
          · exact ⟨location, .here hfile⟩
          · rw [firstFile, if_neg hfile] at h
            obtain ⟨spelled, htakes⟩ := ih h
            exact ⟨spelled, .later (by simpa using hfile) htakes⟩

/-! ## Identities -/

theorem resolveFile_of_standingFile (h : StandingFile lookup.volume file) :
    lookup.resolveFile file = .ok file := by
  have hsteps := h.isStep
  obtain ⟨content, hstands⟩ := h
  have hjoin : file.parent.join file.name = file := by
    rw [Location.join_of_isStep _ (Location.isStep_name hstands.names_ne_nil hsteps),
      Location.child_name hstands.names_ne_nil]
  have hfind : lookup.volume.find file = .ok (file, .file content) := Volume.find_of_stands hstands
  refine resolve_of_probe ?_
  rw [probe, candidates, hjoin, firstFile, if_pos (isFile_eq_true.mpr ⟨_, _, hfind⟩),
    Volume.canonical?, hfind]
  rfl

/--
A file that is found stands at its place, is found again under its own name, and
is the file that the candidate taken for it leads to.  Whatever else is probed
from wherever, the two answers are one exactly if the candidates are one file.
-/
theorem probe_identifies
    (hprobe : lookup.probe specifier (.ofPath folder) = .ok (some file)) :
    StandingFile lookup.volume file ∧ lookup.resolveFile file = .ok file ∧
      ∃ spelled, Takes lookup.volume (lookup.candidates specifier (.ofPath folder)) spelled ∧
        SameFile lookup.volume spelled file ∧
        ∀ specifier' folder' file' spelled',
          lookup.probe specifier' (.ofPath folder') = .ok (some file') →
          Takes lookup.volume (lookup.candidates specifier' (.ofPath folder')) spelled' →
          (SameFile lookup.volume spelled spelled' ↔ file = file') := by
  have hsteps := Location.isStep_of_mem_ofPath folder
  have hstanding := standingFile_of_resolve hsteps (resolve_of_probe hprobe)
  obtain ⟨spelled, htakes⟩ := exists_takes hprobe
  obtain ⟨content, hfind⟩ := htakes.find hprobe
  have hspelled := isStep_of_candidate hsteps htakes.mem
  refine ⟨hstanding, resolveFile_of_standingFile hstanding, spelled, htakes, ?_, ?_⟩
  · obtain ⟨old, hstands⟩ := hstanding
    exact Volume.sameFile_of_find hspelled hfind (Volume.find_of_stands hstands)
  · intro specifier' folder' file' spelled' hprobe' htakes'
    obtain ⟨content', hfind'⟩ := htakes'.find hprobe'
    constructor
    · exact Volume.place_eq_of_sameFile hspelled hfind hfind'
    · rintro rfl
      exact Volume.sameFile_of_find hspelled hfind hfind'

def linkedFolder : Lookup where
  settings := .default
  volume := ⟨[(["proj"], .directory), (["proj", "lib"], .directory),
    (["proj", "lib", "index.ts"], .file []), (["proj", "alias"], .link "lib"),
    (["far"], .directory), (["far", "away"], .link "../proj/alias")]⟩

/-- Through two links, or around a folder, one file is found and has one identity. -/
theorem probe_identifies_linkedFolder :
    linkedFolder.probe "./away" (.ofPath "/far") = .ok (some (.ofPath "/proj/lib/index.ts")) ∧
      linkedFolder.resolveFile (.ofPath "/proj/lib/index.ts") =
        .ok (.ofPath "/proj/lib/index.ts") ∧
      ∃ spelled spelled',
        Takes linkedFolder.volume (linkedFolder.candidates "./away" (.ofPath "/far")) spelled ∧
        Takes linkedFolder.volume
          (linkedFolder.candidates "../alias/index.ts" (.ofPath "/proj/lib")) spelled' ∧
        SameFile linkedFolder.volume spelled spelled' := by
  have haway : linkedFolder.probe "./away" (.ofPath "/far") =
      .ok (some (.ofPath "/proj/lib/index.ts")) := by decide +kernel
  have halias : linkedFolder.probe "../alias/index.ts" (.ofPath "/proj/lib") =
      .ok (some (.ofPath "/proj/lib/index.ts")) := by decide +kernel
  obtain ⟨-, hresolve, spelled, htakes, -, hsame⟩ := probe_identifies haway
  obtain ⟨-, -, spelled', htakes', -, -⟩ := probe_identifies halias
  exact ⟨haway, hresolve, spelled, spelled', htakes, htakes',
    (hsame _ _ _ _ halias htakes').mpr rfl⟩

end Lookup

end FlatExports
