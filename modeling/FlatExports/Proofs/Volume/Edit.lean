import FlatExports.Proofs.Association
import FlatExports.Proofs.Probe
import FlatExports.Proofs.Volume.Shape
import FlatExports.Volume.Edit

/-!
Writing to a file that stands.

Such a file has its directories already and no link leads to it, so writing
puts the new content in its place and does nothing else: the volume keeps its
shape, and whatever leads elsewhere reads what it read before.
-/

namespace FlatExports.Volume

variable {volume : Volume} {reached names other : List String} {file location : Location}
  {old content : Text.Bytes}

theorem entry_put (hne : names ≠ []) (entry : Entry) :
    Volume.entry? (volume.put names entry) other =
      if other = names then some entry else volume.entry? other := by
  cases other with
  | nil => rw [if_neg (Ne.symm hne)]; rfl
  | cons name rest => exact lookup_replaced entry

theorem makeDirectories_of_directories (h : volume.Directories (reached ++ names)) :
    volume.makeDirectories reached names = volume := by
  induction names generalizing reached with
  | nil => rfl
  | cons name rest ih =>
      have hhere : volume.entry? (reached ++ [name]) = some .directory := h _ (by simp)
      rw [makeDirectories]
      simp only [hhere, Option.isNone_some, Bool.false_eq_true, if_false]
      exact ih (by simpa using h)

section

variable (h : Stands volume file.names (.file old))

include h

theorem Stands.names_ne_nil : file.names ≠ [] := by
  intro hnil
  have hentry := h.entry_eq
  rw [hnil] at hentry
  cases hentry

theorem write_of_stands : volume.write file content = volume.put file.names (.file content) := by
  have hdirectories : volume.Directories ([] ++ file.parent.names) := h.directories
  rw [write]
  simp only [resolve_of_stands h, makeDirectories_of_directories hdirectories]

theorem entry_write : Volume.entry? (volume.write file content) other =
    if other = file.names then some (.file content) else volume.entry? other := by
  rw [write_of_stands h, entry_put h.names_ne_nil]

theorem sameShape_write : volume.SameShape (volume.write file content) := by
  intro other
  rw [shapeAt, shapeAt, entry_write h]
  split
  · rename_i heq
    rw [heq, h.entry_eq]
    rfl
  · rfl

theorem read_of_stands : volume.read file = .ok old := by
  rw [read, find_of_stands h]
  rfl

theorem stands_write : Stands (volume.write file content) file.names (.file content) where
  plain := h.plain
  directories := by
    intro front hfront
    have hne : front ≠ file.names := by
      rintro rfl
      have hlength := hfront.length_le
      have hpos := List.length_pos_iff.mpr h.names_ne_nil
      rw [List.length_dropLast] at hlength
      omega
    rw [entry_write h, if_neg hne]
    exact h.directories front hfront
  entry_eq := by rw [entry_write h, if_pos rfl]
  unlinked := by simp

theorem read_write : (volume.write file content).read file = .ok content :=
  read_of_stands (stands_write h)

theorem read_write_of_ne (hne : volume.canonical? location ≠ some file) :
    (volume.write file content).read location = volume.read location := by
  refine (sameShape_write h).read_eq fun found hread => ?_
  obtain ⟨⟨place, entry⟩, hfind, hfound⟩ := bind_eq_ok.mp hread
  have hplace : place.names ≠ file.names := by
    intro heq
    refine hne ?_
    rw [canonical?, hfind]
    exact congrArg some (congrArg Location.mk heq)
  obtain ⟨hwalk, hentry⟩ := find_eq_ok.mp hfind
  have hfind' : (volume.write file content).find location = .ok (place, entry) := by
    refine find_eq_ok.mpr ⟨(sameShape_write h).walk_eq location ▸ hwalk, ?_⟩
    rw [entry_write h, if_neg hplace, hentry]
  rw [read, hfind']
  exact hfound

end

end FlatExports.Volume
