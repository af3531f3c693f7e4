import FlatExports.Proofs.Location
import FlatExports.Proofs.Survey
import FlatExports.Volume.Walk

/-!
Where walks arrive.

An entry *stands* at some names when directories lead to it and no link does.
Every walk that arrives ends at such a place, and a walk to such a place ends
right there.
-/

namespace FlatExports.Volume

variable {volume : Volume} {reached names found : List String} {name : String} {entry : Entry}

def Directories (volume : Volume) (names : List String) : Prop :=
  ∀ front, front <+: names → volume.entry? front = some .directory

/-- Names that a walk can have come through. -/
def Plain (names : List String) : Prop :=
  ∀ name ∈ names, IsStep name ∧ name ≠ ".."

instance (names : List String) : Decidable (Plain names) :=
  inferInstanceAs (Decidable (∀ name ∈ names, IsStep name ∧ name ≠ ".."))

structure Stands (volume : Volume) (names : List String) (entry : Entry) : Prop where
  plain : Plain names
  directories : volume.Directories names.dropLast
  entry_eq : volume.entry? names = some entry
  unlinked : ∀ target, entry ≠ .link target

theorem Directories.nil : volume.Directories [] := by
  intro front hfront
  rw [List.prefix_nil.mp hfront]
  rfl

theorem Directories.dropLast (h : volume.Directories names) : volume.Directories names.dropLast :=
  fun front hfront => h front (hfront.trans (List.dropLast_prefix names))

theorem Directories.concat (h : volume.Directories names)
    (hentry : volume.entry? (names ++ [name]) = some .directory) :
    volume.Directories (names ++ [name]) := by
  intro front hfront
  rcases List.prefix_concat_iff.mp hfront with rfl | hfront
  · exact hentry
  · exact h front hfront

theorem Plain.dropLast (h : Plain names) : Plain names.dropLast :=
  fun name hname => h name (List.dropLast_subset names hname)

theorem Plain.concat (h : Plain names) (hstep : IsStep name) (hup : name ≠ "..") :
    Plain (names ++ [name]) := by
  intro other hother
  rcases List.mem_append.mp hother with hother | hother
  · exact h other hother
  · rw [List.mem_singleton.mp hother]
    exact ⟨hstep, hup⟩

theorem Stands.of_directories (hplain : Plain names) (h : volume.Directories names) :
    Stands volume names .directory where
  plain := hplain
  directories := h.dropLast
  entry_eq := h names (List.prefix_refl names)
  unlinked := by simp

theorem Stands.directories_of_directory (h : Stands volume names .directory) :
    volume.Directories names := by
  rcases List.eq_nil_or_concat names with rfl | ⟨front, last, rfl⟩
  · exact .nil
  · have hfront := h.directories
    have hentry := h.entry_eq
    rw [List.concat_eq_append] at hfront hentry ⊢
    rw [List.dropLast_concat] at hfront
    exact hfront.concat hentry

/-! ## Walks that arrive -/

def Walkable (names : List String) : Prop :=
  ∀ name ∈ names, name = "." ∨ IsStep name

theorem walkable_linkNames (target : String) : Walkable (linkNames target) := by
  intro name hname
  unfold linkNames at hname
  dsimp only at hname
  split at hname
  · rcases List.mem_append.mp hname with hname | hname
    · exact .inr (isStep_of_mem_pathNames hname)
    · exact .inl (List.mem_singleton.mp hname)
  · exact .inr (isStep_of_mem_pathNames hname)

theorem advance_stands (hplain : Plain reached) (hreached : volume.Directories reached)
    (hsteps : Walkable names)
    (h : volume.advance reached names = .arrived found) :
    ∃ entry, Stands volume found entry := by
  induction names generalizing reached with
  | nil =>
      cases h
      exact ⟨.directory, .of_directories hplain hreached⟩
  | cons name rest ih =>
      obtain ⟨hname, hrest⟩ := List.forall_mem_cons.mp hsteps
      unfold advance at h
      split at h
      · exact ih hplain hreached hrest h
      · rename_i hstay
        have hname := hname.resolve_left hstay
        split at h
        · exact ih hplain.dropLast hreached.dropLast hrest h
        · rename_i hup
          split at h
          · cases h
          · rename_i hentry
            exact ih (hplain.concat hname hup) (hreached.concat hentry) hrest h
          · rename_i content hentry
            split at h
            · cases h
              refine ⟨.file content, hplain.concat hname hup, ?_, hentry, by simp⟩
              rwa [List.dropLast_concat]
            · cases h
          · cases h

theorem advance_link {directory rest : List String} {target : String} (hplain : Plain reached)
    (hreached : volume.Directories reached) (hsteps : Walkable names)
    (h : volume.advance reached names = .link directory target rest) :
    Plain directory ∧ volume.Directories directory ∧ Walkable rest := by
  induction names generalizing reached with
  | nil => cases h
  | cons name others ih =>
      obtain ⟨hname, hrest⟩ := List.forall_mem_cons.mp hsteps
      unfold advance at h
      split at h
      · exact ih hplain hreached hrest h
      · rename_i hstay
        have hname := hname.resolve_left hstay
        split at h
        · exact ih hplain.dropLast hreached.dropLast hrest h
        · rename_i hup
          split at h
          · cases h
          · rename_i hentry
            exact ih (hplain.concat hname hup) (hreached.concat hentry) hrest h
          · split at h <;> cases h
          · cases h
            exact ⟨hplain, hreached, hrest⟩

theorem walkFrom_stands {budget : Nat} (hplain : Plain reached)
    (hreached : volume.Directories reached) (hsteps : Walkable names)
    (h : volume.walkFrom budget reached names = .ok found) :
    ∃ entry, Stands volume found entry := by
  induction budget generalizing reached names with
  | zero =>
      unfold walkFrom at h
      split at h
      · rename_i harrived
        cases h
        exact advance_stands hplain hreached hsteps harrived
      · cases h
      · cases h
  | succ budget ih =>
      unfold walkFrom at h
      split at h
      · rename_i harrived
        cases h
        exact advance_stands hplain hreached hsteps harrived
      · cases h
      · rename_i directory target rest hlink
        obtain ⟨hplain', hdirectory, hrest⟩ := advance_link hplain hreached hsteps hlink
        have hnext : Walkable (linkNames target ++ rest) :=
          List.forall_mem_append.mpr ⟨walkable_linkNames target, hrest⟩
        dsimp only at h
        unfold linkStart at h
        split at h
        · exact ih (by simp [Plain]) .nil hnext h
        · exact ih hplain' hdirectory hnext h

theorem find_eq_ok {location place : Location} :
    volume.find location = .ok (place, entry) ↔
      volume.walk location = .ok place.names ∧ volume.entry? place.names = some entry := by
  unfold find
  rw [bind_eq_ok]
  constructor
  · rintro ⟨names, hwalk, hfound⟩
    split at hfound
    · rename_i hentry
      cases hfound
      exact ⟨hwalk, hentry⟩
    · cases hfound
  · rintro ⟨hwalk, hentry⟩
    refine ⟨place.names, hwalk, ?_⟩
    rw [hentry]
    rfl

theorem find_stands {location place : Location} (hsteps : ∀ name ∈ location.names, IsStep name)
    (h : volume.find location = .ok (place, entry)) : Stands volume place.names entry := by
  obtain ⟨hwalk, hentry⟩ := find_eq_ok.mp h
  obtain ⟨other, hother⟩ := walkFrom_stands (by simp [Plain]) .nil
    (fun name hname => .inr (hsteps name hname)) hwalk
  obtain rfl : other = entry := Option.some.inj (hother.entry_eq.symm.trans hentry)
  exact hother

/-! ## Walks to where an entry stands -/

theorem advance_through {rest : List String} (hplain : Plain names)
    (h : volume.Directories (reached ++ names)) :
    volume.advance reached (names ++ rest) = volume.advance (reached ++ names) rest := by
  induction names generalizing reached with
  | nil => simp
  | cons name others ih =>
      have hname := hplain name List.mem_cons_self
      have hhere : volume.entry? (reached ++ [name]) = some .directory :=
        h _ (by simp)
      rw [List.cons_append, advance, if_neg hname.1.2.1, if_neg hname.2, hhere]
      dsimp only
      rw [ih (fun other hother => hplain other (List.mem_cons_of_mem _ hother)) (by simpa using h)]
      simp

theorem advance_of_stands (hplain : Plain names) (h : Stands volume (reached ++ names) entry) :
    volume.advance reached names = .arrived (reached ++ names) := by
  rcases List.eq_nil_or_concat names with rfl | ⟨front, last, rfl⟩
  · simp [advance]
  · rw [List.concat_eq_append] at hplain h ⊢
    have hfront := h.directories
    rw [← List.append_assoc, List.dropLast_concat] at hfront
    have hlast := hplain last (by simp)
    rw [advance_through (fun name hname => hplain name (List.mem_append_left _ hname)) hfront,
      advance, if_neg hlast.1.2.1, if_neg hlast.2, List.append_assoc, h.entry_eq]
    cases entry with
    | file content => rfl
    | directory => rfl
    | link target => exact absurd rfl (h.unlinked target)

theorem find_of_stands (h : Stands volume names entry) :
    volume.find ⟨names⟩ = .ok (⟨names⟩, entry) := by
  refine find_eq_ok.mpr ⟨?_, h.entry_eq⟩
  unfold walk walkFrom
  rw [advance_of_stands h.plain (by simpa using h)]
  rfl

end FlatExports.Volume
