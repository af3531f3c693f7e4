import FlatExports.Proofs.Volume.Walk
import FlatExports.Specifier

/-!
Relative specifiers.

The specifier of a target goes up from the directory to what both have in common
and down again, so following it from the directory and normalising leads back to
the target.  It is written as it stands if it starts with a dot.  That is meant
for `.` and `..`, but a name may start with a dot as well: below the directory
such a name comes first, and the specifier reads like that of a package.
-/

namespace FlatExports.Specifier

open Volume (Plain)

variable {target other directory : Location} {names below : List String} {name path : String}

/-! ## Steps -/

theorem take_commonLength (first second : List String) :
    first.take (commonLength first second) = second.take (commonLength first second) := by
  induction first generalizing second with
  | nil => simp [commonLength]
  | cons a first ih =>
      cases second with
      | nil => simp [commonLength]
      | cons b second =>
          rw [commonLength]
          split
          · rename_i heq
            rw [List.take_succ_cons, List.take_succ_cons, heq, ih second]
          · rfl

theorem commonLength_le (first second : List String) :
    commonLength first second ≤ first.length := by
  induction first generalizing second with
  | nil => simp [commonLength]
  | cons a first ih =>
      cases second with
      | nil => simp [commonLength]
      | cons b second =>
          have hrest := ih second
          rw [commonLength, List.length_cons]
          split <;> omega

theorem commonLength_append (names below : List String) :
    commonLength names (names ++ below) = names.length := by
  induction names with
  | nil => simp [commonLength]
  | cons name rest ih => simp [commonLength, ih]

theorem steps_below (names below : List String) : steps (names ++ below) names = below := by
  simp [steps, commonLength_append]

theorem steps_up {above : List String} (h : ¬above <+: names) :
    ∃ rest, steps names above = ".." :: rest := by
  have hle := commonLength_le above names
  have hne : commonLength above names ≠ above.length := by
    intro heq
    have htake := take_commonLength above names
    rw [heq, List.take_length] at htake
    exact h (htake ▸ List.take_prefix _ _)
  obtain ⟨count, hcount⟩ : ∃ count, above.length - commonLength above names = count + 1 :=
    Nat.exists_eq_succ_of_ne_zero (by omega)
  exact ⟨List.replicate count ".." ++ names.drop (commonLength above names), by
    rw [steps, hcount, List.replicate_succ, List.cons_append]⟩

theorem steps_isStep {names above : List String} (hplain : Plain names) :
    ∀ name ∈ steps names above, IsStep name := by
  intro name hname
  rw [steps] at hname
  rcases List.mem_append.mp hname with hname | hname
  · rw [List.eq_of_mem_replicate hname]
    exact ⟨by decide, by decide, by decide⟩
  · exact (hplain name (List.drop_subset _ _ hname)).1

/-! ## Normal forms -/

theorem collapse_append (front : List String) (h : Plain names) :
    Location.collapse (front ++ names) = Location.collapse front ++ names := by
  induction names generalizing front with
  | nil => simp
  | cons name rest ih =>
      obtain ⟨⟨hempty, hdot, -⟩, hup⟩ := h name List.mem_cons_self
      have hfirst : Location.collapse (front ++ [name]) = Location.collapse front ++ [name] := by
        rw [Location.collapse, List.foldl_concat, if_neg (by simp [hempty, hdot]), if_neg hup,
          Location.collapse]
      have hrest : Plain rest := fun other hother => h other (List.mem_cons_of_mem _ hother)
      rw [List.append_cons, ih _ hrest, hfirst, ← List.append_cons]

theorem collapse_of_plain (h : Plain names) : Location.collapse names = names :=
  collapse_append [] h

theorem collapse_up (front : List String) (count : Nat) :
    Location.collapse (front ++ List.replicate count "..") =
      (Location.collapse front).take ((Location.collapse front).length - count) := by
  induction count generalizing front with
  | zero => simp
  | succ count ih =>
      have hfirst : Location.collapse (front ++ [".."]) = (Location.collapse front).dropLast := by
        rw [Location.collapse, List.foldl_concat, if_neg (by decide), if_pos rfl,
          Location.collapse]
      rw [List.replicate_succ, List.append_cons, ih, hfirst, List.dropLast_eq_take,
        List.take_take, List.length_take]
      congr 1
      omega

theorem collapse_steps {above : List String} (hplain : Plain names) (habove : Plain above) :
    Location.collapse (above ++ steps names above) = names := by
  have hle := commonLength_le above names
  have hdown : Plain (names.drop (commonLength above names)) :=
    fun name hname => hplain name (List.drop_subset _ _ hname)
  rw [steps, ← List.append_assoc, collapse_append _ hdown, collapse_up, collapse_of_plain habove,
    Nat.sub_sub_self hle, take_commonLength, List.take_append_drop]

/-! ## Texts -/

theorem isInternal_ofRelativePath (path : String) : isInternal (ofRelativePath path) = true := by
  unfold ofRelativePath
  dsimp only [withSlashes]
  split
  · rename_i hinternal
    exact hinternal
  · simp [isInternal]

theorem pathNames_ofRelativePath (path : String) :
    pathNames (ofRelativePath path) = pathNames path := by
  unfold ofRelativePath
  dsimp only [withSlashes]
  split
  · rfl
  · have hdot := pathNames_append "." path
    rwa [pathNames_dot, List.nil_append] at hdot

theorem join_of_isInternal (h : isInternal path = true) :
    directory.join path = ⟨directory.names ++ pathNames path⟩ := by
  rw [isInternal, decide_eq_true_eq] at h
  rw [Location.join, if_neg (by simp [h])]

section

variable (htarget : Plain target.names) (hdirectory : Plain directory.names)

include htarget hdirectory

theorem relative_eq (hsteps : steps target.names directory.names = names) :
    relative target directory =
      ofRelativePath (if names = [] then "." else "/".intercalate names) := by
  subst hsteps
  rw [relative, relativePath, Location.normal, Location.normal, collapse_of_plain htarget,
    collapse_of_plain hdirectory]
  split
  · rename_i hnil
    rw [if_pos hnil]
  · rename_i hne
    rw [if_neg hne]

theorem pathNames_relative :
    pathNames (relative target directory) = steps target.names directory.names := by
  rw [relative_eq htarget hdirectory rfl, pathNames_ofRelativePath]
  split
  · rename_i hnil
    rw [hnil, pathNames_dot]
  · exact pathNames_intercalate (steps_isStep htarget)

theorem join_relative : directory.join (relative target directory) =
    ⟨directory.names ++ steps target.names directory.names⟩ := by
  have hinternal : isInternal (relative target directory) = true := isInternal_ofRelativePath _
  rw [join_of_isInternal hinternal, pathNames_relative htarget hdirectory]

theorem normal_join_relative : (directory.join (relative target directory)).normal = target := by
  rw [join_relative htarget hdirectory, Location.normal]
  exact congrArg Location.mk (collapse_steps htarget hdirectory)

theorem relative_injective (hother : Plain other.names)
    (h : relative target directory = relative other directory) : target = other := by
  rw [← normal_join_relative htarget hdirectory, h, normal_join_relative hother hdirectory]

end

/--
Following the specifier of a target from the directory and normalising gives the
target back.  The specifier is internal, and that of no other target.
-/
theorem relative_inverts_join (htarget : Plain target.names) (hdirectory : Plain directory.names) :
    (directory.join (relative target directory)).normal = target ∧
      isInternal (relative target directory) = true ∧
      ∀ other : Location, Plain other.names →
        (relative other directory = relative target directory ↔ other = target) := by
  refine ⟨normal_join_relative htarget hdirectory, isInternal_ofRelativePath _,
    fun other hother => ⟨relative_injective hother hdirectory htarget, ?_⟩⟩
  rintro rfl
  rfl

/-- Names that start with dots are names like any other, also right below the root. -/
theorem relative_inverts_join_dottedNames :
    Plain (Location.ofPath "/...x/.y.ts").names ∧ Plain Location.root.names ∧
      Plain (Location.ofPath "/..x/.y.ts").names ∧
      (Location.root.join (relative (.ofPath "/...x/.y.ts") .root)).normal =
        .ofPath "/...x/.y.ts" ∧
      isInternal (relative (.ofPath "/...x/.y.ts") .root) = true ∧
      relative (.ofPath "/..x/.y.ts") .root ≠ relative (.ofPath "/...x/.y.ts") .root := by
  have htarget : Plain (Location.ofPath "/...x/.y.ts").names := by decide +kernel
  have hroot : Plain Location.root.names := by decide
  have hother : Plain (Location.ofPath "/..x/.y.ts").names := by decide +kernel
  obtain ⟨hback, hinternal, hsame⟩ := relative_inverts_join htarget hroot
  refine ⟨htarget, hroot, hother, hback, hinternal, fun heq => ?_⟩
  exact absurd ((hsame _ hother).mp heq) (by decide +kernel)

/-! ## What a specifier starts with -/

def leadingSegment (path : String) : String := String.ofList (path.toList.takeWhile (· ≠ '/'))

theorem leadingSegment_eq (h : '/' ∉ name.toList) : leadingSegment name = name := by
  rw [leadingSegment, List.takeWhile_eq_self_iff.mpr, String.ofList_toList]
  exact fun c hc => decide_eq_true fun heq => h (heq ▸ hc)

theorem leadingSegment_append (h : '/' ∉ name.toList) (path : String) :
    leadingSegment (name ++ "/" ++ path) = name := by
  rw [leadingSegment, String.append_assoc, String.toList_append, List.takeWhile_append_of_pos]
  · simp
  · exact fun c hc => decide_eq_true fun heq => h (heq ▸ hc)

theorem leadingSegment_intercalate (h : '/' ∉ name.toList) (below : List String) :
    leadingSegment ("/".intercalate (name :: below)) = name := by
  cases below with
  | nil => simpa using leadingSegment_eq h
  | cons next rest =>
      rw [String.intercalate_cons_of_ne_nil (by simp), leadingSegment_append h]

theorem isInternal_intercalate (h : name ≠ "") (below : List String) :
    isInternal ("/".intercalate (name :: below)) = isInternal name := by
  have hne : name.toList ≠ [] := by simpa using h
  cases below with
  | nil => simp
  | cons next rest =>
      rw [String.intercalate_cons_of_ne_nil (by simp), isInternal, isInternal,
        String.append_assoc, String.toList_append, List.head?_append_of_ne_nil _ hne]

section

variable (htarget : Plain target.names) (hdirectory : Plain directory.names)

include htarget hdirectory

theorem relative_below (h : target.names = directory.names ++ name :: below) :
    relative target directory =
      if isInternal name then "/".intercalate (name :: below)
      else "./" ++ "/".intercalate (name :: below) := by
  have hname := htarget name (by simp [h])
  have hsteps : steps target.names directory.names = name :: below := h ▸ steps_below _ _
  rw [relative_eq htarget hdirectory hsteps, if_neg (by simp), ofRelativePath, withSlashes,
    isInternal_intercalate hname.1.1]

theorem leadingSegment_below (h : target.names = directory.names ++ name :: below) :
    leadingSegment (relative target directory) = if isInternal name then name else "." := by
  have hname := htarget name (by simp [h])
  rw [relative_below htarget hdirectory h]
  split
  · exact leadingSegment_intercalate hname.1.2.2 below
  · have hdot : "./" = "." ++ "/" := by decide
    rw [hdot, leadingSegment_append (by decide)]

theorem leadingSegment_up (h : ¬directory.names <+: target.names) :
    leadingSegment (relative target directory) = ".." := by
  obtain ⟨rest, hrest⟩ := steps_up h
  rw [relative_eq htarget hdirectory hrest, if_neg (by simp), ofRelativePath, withSlashes,
    if_pos (by rw [isInternal_intercalate (by decide)]; decide)]
  exact leadingSegment_intercalate (by decide) rest

theorem relative_self (h : target = directory) : relative target directory = "." := by
  subst h
  have hsteps : steps target.names target.names = [] := by
    simpa using steps_below target.names []
  rw [relative_eq htarget hdirectory hsteps]
  rfl

end

/--
The specifier of a target starts with `.` or `..`, unless the target lies below
the directory and the first name on the way down starts with a dot; then the
specifier is just the names on the way down.
-/
theorem relative_leads_by_dots (htarget : Plain target.names) (hdirectory : Plain directory.names) :
    (leadingSegment (relative target directory) = "." ∨
        leadingSegment (relative target directory) = ".." ↔
      ¬∃ name below, target.names = directory.names ++ name :: below ∧
        isInternal name = true) ∧
    ∀ name below, target.names = directory.names ++ name :: below → isInternal name = true →
      relative target directory = "/".intercalate (name :: below) := by
  refine ⟨⟨?_, fun h => ?_⟩, fun name below hbelow hdot => ?_⟩
  · rintro hleads ⟨name, below, hbelow, hdot⟩
    have hname := htarget name (by simp [hbelow])
    rw [leadingSegment_below htarget hdirectory hbelow, if_pos hdot] at hleads
    exact hleads.elim hname.1.2.1 hname.2
  · by_cases hprefix : directory.names <+: target.names
    · left
      obtain ⟨rest, hrest⟩ := hprefix
      cases rest with
      | nil =>
          rw [relative_self htarget hdirectory (congrArg Location.mk (by simpa using hrest.symm))]
          rfl
      | cons name below =>
          rw [leadingSegment_below htarget hdirectory hrest.symm,
            if_neg fun hdot => h ⟨name, below, hrest.symm, hdot⟩]
    · exact .inr (leadingSegment_up htarget hdirectory hprefix)
  · rw [relative_below htarget hdirectory hbelow, if_pos hdot]

/-- A hidden folder is reached by dots from beside it, but not from the directory it lies in. -/
theorem relative_leads_by_dots_hiddenFolder :
    Plain (Location.ofPath "/proj/.config/theme.ts").names ∧
      Plain (Location.ofPath "/proj/src").names ∧ Plain (Location.ofPath "/proj").names ∧
      leadingSegment (relative (.ofPath "/proj/.config/theme.ts") (.ofPath "/proj/src")) = ".." ∧
      relative (.ofPath "/proj/.config/theme.ts") (.ofPath "/proj") = ".config/theme.ts" := by
  have htarget : Plain (Location.ofPath "/proj/.config/theme.ts").names := by decide +kernel
  have hsource : Plain (Location.ofPath "/proj/src").names := by decide +kernel
  have hproject : Plain (Location.ofPath "/proj").names := by decide +kernel
  have hdown := (relative_leads_by_dots htarget hproject).2 ".config" ["theme.ts"]
    (by decide +kernel) (by decide +kernel)
  have hbeside := (relative_leads_by_dots htarget hsource).1.mpr (by
    rintro ⟨name, below, hbelow, -⟩
    have hnames : (Location.ofPath "/proj/.config/theme.ts").names =
        ["proj", ".config", "theme.ts"] := by decide +kernel
    have hfolder : (Location.ofPath "/proj/src").names = ["proj", "src"] := by decide +kernel
    rw [hnames, hfolder] at hbelow
    simp at hbelow)
  refine ⟨htarget, hsource, hproject, hbeside.resolve_left (by decide +kernel), ?_⟩
  rw [hdown]
  decide +kernel

/-- From the directory it lies in, a hidden folder reads like a package. -/
theorem hidden_folder_reads_as_package :
    Plain (Location.ofPath "/a/.hidden/x.ts").names ∧ Plain (Location.ofPath "/a").names ∧
      relative (.ofPath "/a/.hidden/x.ts") (.ofPath "/a") = ".hidden/x.ts" ∧
      leadingSegment ".hidden/x.ts" ≠ "." ∧ leadingSegment ".hidden/x.ts" ≠ ".." := by
  decide +kernel

end FlatExports.Specifier
