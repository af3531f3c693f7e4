import FlatExports.Probe
import Mathlib.Data.List.TakeWhile

/-!
Names and written paths.

A *step* is a name that a written path can go through; reading a path that was
written from steps gives them back.  The forms a specifier can be shortened to
are beginnings of it, so they stay internal.
-/

namespace FlatExports

variable {name path : String} {names : List String} {cs first rest : List Char}

/-! ## Pieces -/

theorem slashPieces_ne_nil (cs : List Char) : slashPieces cs ≠ [] := by
  cases cs with
  | nil => simp [slashPieces]
  | cons c rest =>
      unfold slashPieces
      split
      · simp
      · split <;> simp

theorem slashPieces_append (first rest : List Char) :
    slashPieces (first ++ '/' :: rest) = slashPieces first ++ slashPieces rest := by
  induction first with
  | nil => simp [slashPieces]
  | cons c first ih =>
      rw [List.cons_append, slashPieces, slashPieces, ih]
      split
      · rfl
      · cases hpieces : slashPieces first with
        | nil => exact absurd hpieces (slashPieces_ne_nil first)
        | cons piece pieces => rfl

theorem slashPieces_of_no_slash (h : '/' ∉ cs) : slashPieces cs = [cs] := by
  induction cs with
  | nil => rfl
  | cons c rest ih =>
      rw [List.mem_cons, not_or] at h
      rw [slashPieces, if_neg (Ne.symm h.1), ih h.2]

theorem no_slash_of_mem_slashPieces {piece : List Char} (h : piece ∈ slashPieces cs) :
    '/' ∉ piece := by
  induction cs generalizing piece with
  | nil =>
      rw [slashPieces, List.mem_singleton] at h
      simp [h]
  | cons c rest ih =>
      rw [slashPieces] at h
      split at h
      · rcases List.mem_cons.mp h with rfl | h
        · simp
        · exact ih h
      · rename_i hc
        cases hpieces : slashPieces rest with
        | nil => exact absurd hpieces (slashPieces_ne_nil rest)
        | cons first others =>
            rw [hpieces] at h ih
            rcases List.mem_cons.mp h with rfl | h
            · have hfirst := ih List.mem_cons_self
              simpa [Ne.symm hc] using hfirst
            · exact ih (List.mem_cons_of_mem _ h)

/-! ## Steps -/

def IsStep (name : String) : Prop :=
  name ≠ "" ∧ name ≠ "." ∧ '/' ∉ name.toList

instance (name : String) : Decidable (IsStep name) :=
  inferInstanceAs (Decidable (name ≠ "" ∧ name ≠ "." ∧ '/' ∉ name.toList))

theorem isStep_of_mem_pathNames (h : name ∈ pathNames path) : IsStep name := by
  rw [pathNames, List.mem_filter, List.mem_map] at h
  obtain ⟨⟨piece, hpiece, rfl⟩, hkept⟩ := h
  rw [decide_eq_true_eq] at hkept
  exact ⟨hkept.1, hkept.2, by simpa using no_slash_of_mem_slashPieces hpiece⟩

theorem pathNames_append (first rest : String) :
    pathNames (first ++ "/" ++ rest) = pathNames first ++ pathNames rest := by
  have hlist : (first ++ "/" ++ rest).toList = first.toList ++ '/' :: rest.toList := by simp
  rw [pathNames, hlist, slashPieces_append, List.map_append, List.filter_append]
  rfl

theorem pathNames_of_isStep (h : IsStep name) : pathNames name = [name] := by
  rw [pathNames, slashPieces_of_no_slash h.2.2]
  simp [h.1, h.2.1]

@[simp] theorem pathNames_empty : pathNames "" = [] := by decide

@[simp] theorem pathNames_dot : pathNames "." = [] := by decide

theorem pathNames_join (h : ∀ name ∈ names, IsStep name) :
    pathNames (String.join (names.map fun name => "/" ++ name)) = names := by
  induction names with
  | nil => simp
  | cons name rest ih =>
      rw [List.forall_mem_cons] at h
      have hrest := ih h.2
      cases rest with
      | nil =>
          have hone := pathNames_append "" name
          rw [pathNames_of_isStep h.1] at hone
          simpa using hone
      | cons next others =>
          have hsplit : String.join ((name :: next :: others).map fun name => "/" ++ name) =
              ("" ++ "/" ++ name) ++ "/" ++
                (next ++ String.join (others.map fun name => "/" ++ name)) := by
            simp [String.append_assoc]
          have htail : String.join ((next :: others).map fun name => "/" ++ name) =
              "" ++ "/" ++ (next ++ String.join (others.map fun name => "/" ++ name)) := by
            simp [String.append_assoc]
          rw [htail, pathNames_append, pathNames_empty, List.nil_append] at hrest
          rw [hsplit, pathNames_append, pathNames_append, pathNames_empty,
            pathNames_of_isStep h.1, hrest]
          rfl

theorem pathNames_intercalate (h : ∀ name ∈ names, IsStep name) :
    pathNames ("/".intercalate names) = names := by
  induction names with
  | nil => simp
  | cons name rest ih =>
      rw [List.forall_mem_cons] at h
      cases rest with
      | nil => simpa using pathNames_of_isStep h.1
      | cons next others =>
          rw [String.intercalate_cons_of_ne_nil (by simp), pathNames_append,
            pathNames_of_isStep h.1, ih h.2]
          rfl

/-! ## Locations -/

namespace Location

theorem written_head (location : Location) : location.written.toList.head? = some '/' := by
  unfold written
  split
  · rfl
  · rename_i names hnames
    cases hnames' : location.names with
    | nil => exact absurd hnames' hnames
    | cons name rest => simp

theorem ofPath_written {location : Location} (h : ∀ name ∈ location.names, IsStep name) :
    ofPath location.written = location := by
  rw [ofPath, join, if_pos (written_head location), written]
  obtain ⟨names⟩ := location
  cases names with
  | nil => rfl
  | cons name rest => exact congrArg Location.mk (pathNames_join h)

theorem isStep_of_mem_join {base : Location} (hbase : ∀ name ∈ base.names, IsStep name)
    (hname : name ∈ (base.join path).names) : IsStep name := by
  unfold join at hname
  split at hname
  · exact isStep_of_mem_pathNames hname
  · rcases List.mem_append.mp hname with hname | hname
    · exact hbase name hname
    · exact isStep_of_mem_pathNames hname

theorem isStep_name {location : Location} (hne : location.names ≠ [])
    (hsteps : ∀ name ∈ location.names, IsStep name) : IsStep location.name := by
  rw [name, List.getLast?_eq_some_getLast hne, Option.getD_some]
  exact hsteps _ (List.getLast_mem hne)

theorem child_name {location : Location} (hne : location.names ≠ []) :
    location.parent.child location.name = location := by
  rw [child, parent, name, List.getLast?_eq_some_getLast hne, Option.getD_some,
    List.dropLast_concat_getLast]

theorem join_of_isStep (base : Location) (h : IsStep name) : base.join name = base.child name := by
  have hhead : name.toList.head? ≠ some '/' := fun heq => h.2.2 (List.mem_of_head? heq)
  rw [join, if_neg hhead, pathNames_of_isStep h, child]

theorem isStep_of_mem_ofPath (path : String) : ∀ name ∈ (ofPath path).names, IsStep name :=
  fun _ => isStep_of_mem_join (by simp [root])

end Location

/-! ## The last piece of a path -/

theorem no_slash_of_lastPiece (path : String) : '/' ∉ (lastPiece path).toList := by
  simp only [lastPiece, String.toList_ofList, List.mem_reverse]
  intro h
  simpa using List.mem_takeWhile_imp h

theorem eq_lastPiece_or (path : String) :
    path = lastPiece path ∨ ∃ first, path = first ++ "/" ++ lastPiece path := by
  have hsplit := List.takeWhile_append_dropWhile (p := fun c => decide (c ≠ '/'))
    (l := path.toList.reverse)
  have hhead := List.head?_dropWhile_not (fun c => decide (c ≠ '/')) path.toList.reverse
  cases hdrop : path.toList.reverse.dropWhile fun c => decide (c ≠ '/') with
  | nil =>
      left
      rw [hdrop, List.append_nil] at hsplit
      rw [lastPiece, hsplit, List.reverse_reverse, String.ofList_toList]
  | cons c rest =>
      right
      rw [hdrop] at hhead hsplit
      obtain rfl : c = '/' := by simpa using hhead
      have hlist := congrArg List.reverse hsplit
      rw [List.reverse_append, List.reverse_cons, List.reverse_reverse] at hlist
      refine ⟨String.ofList rest.reverse, ?_⟩
      rw [← String.toList_inj, ← hlist]
      simp [lastPiece]

theorem getLast?_pathNames (h : IsStep (lastPiece path)) :
    (pathNames path).getLast? = some (lastPiece path) := by
  have hlast := pathNames_of_isStep h
  rcases eq_lastPiece_or path with hpath | ⟨first, hpath⟩
  · rw [← hpath] at hlast
    rw [hlast, ← hpath]
    rfl
  · have hnames : pathNames path = pathNames first ++ [lastPiece path] := by
      rw [← hlast, ← pathNames_append, ← hpath]
    rw [hnames, List.getLast?_concat]

end FlatExports
