import FlatExports.Module.Load
import FlatExports.Proofs.Volume.Resolve
import FlatExports.Resolution.Expand

/-!
Volumes of one shape.

Two volumes have the same shape when nothing but the contents of their files
tells them apart.  Walks, probes and the lookup of modules go by the shape
alone, so they cannot tell such volumes apart either; only reading a file can.
-/

namespace FlatExports

namespace Entry

def shape : Entry → Entry
  | file _ => file []
  | directory => directory
  | link target => link target

end Entry

namespace Volume

def shapeAt (volume : Volume) (names : List String) : Option Entry :=
  volume.entry? names |>.map Entry.shape

def SameShape (first second : Volume) : Prop :=
  ∀ names, second.shapeAt names = first.shapeAt names

variable {first second : Volume}

theorem lookup_map_shape (entries : List (List String × Entry)) (names : List String) :
    (entries.map (Prod.map id Entry.shape)).lookup names =
      (entries.lookup names).map Entry.shape := by
  induction entries with
  | nil => rfl
  | cons entry rest ih =>
      obtain ⟨key, entry⟩ := entry
      simp only [List.map_cons, Prod.map_apply, id_eq, List.lookup_cons, ih]
      cases names == key <;> rfl

theorem sameShape_of_entries
    (h : second.entries.map (Prod.map id Entry.shape) =
      first.entries.map (Prod.map id Entry.shape)) : first.SameShape second := by
  intro names
  cases names with
  | nil => rfl
  | cons name rest =>
      change (second.entries.lookup (name :: rest)).map Entry.shape =
        (first.entries.lookup (name :: rest)).map Entry.shape
      rw [← lookup_map_shape, ← lookup_map_shape, h]

namespace SameShape

/-- What stands at a place is the same, or a file in both volumes. -/
theorem entry_cases (h : first.SameShape second) (names : List String) :
    second.entry? names = first.entry? names ∨
      ∃ content content', first.entry? names = some (.file content) ∧
        second.entry? names = some (.file content') := by
  have hnames := h names
  rcases hfirst : first.entry? names with _ | ⟨_⟩ | _ | _ <;>
    rcases hsecond : second.entry? names with _ | ⟨_⟩ | _ | _ <;>
    simp [shapeAt, hfirst, hsecond, Entry.shape] at hnames ⊢
  exact hnames

/-! ## Walks -/

theorem advance_eq (h : first.SameShape second) (reached names : List String) :
    second.advance reached names = first.advance reached names := by
  induction names generalizing reached with
  | nil => rfl
  | cons name rest ih =>
      simp only [advance, ih]
      rcases h.entry_cases (reached ++ [name]) with heq | ⟨_, _, hfirst, hsecond⟩
      · rw [heq]
      · rw [hfirst, hsecond]

theorem walkFrom_eq (h : first.SameShape second) (budget : Nat)
    (reached names : List String) :
    second.walkFrom budget reached names = first.walkFrom budget reached names := by
  induction budget generalizing reached names with
  | zero => rw [walkFrom, walkFrom, h.advance_eq]
  | succ budget ih =>
      rw [walkFrom, walkFrom, h.advance_eq]
      cases first.advance reached names with
      | link directory target rest => exact ih _ _
      | _ => rfl

theorem walk_eq (h : first.SameShape second) (location : Location) :
    second.walk location = first.walk location :=
  h.walkFrom_eq _ _ _

theorem find_cases (h : first.SameShape second) (location : Location) :
    second.find location = first.find location ∨
      ∃ place content content', first.find location = .ok (place, .file content) ∧
        second.find location = .ok (place, .file content') := by
  cases hwalk : first.walk location with
  | error fault => exact .inl (by simp only [find, h.walk_eq, hwalk, bind, Except.bind])
  | ok names =>
      rcases h.entry_cases names with heq | ⟨content, content', hfirst, hsecond⟩
      · exact .inl (by simp only [find, h.walk_eq, hwalk, bind, Except.bind, heq])
      · exact .inr ⟨⟨names⟩, content, content', find_eq_ok.mpr ⟨hwalk, hfirst⟩,
          find_eq_ok.mpr ⟨(h.walk_eq location).trans hwalk, hsecond⟩⟩

theorem canonical?_eq (h : first.SameShape second) (location : Location) :
    second.canonical? location = first.canonical? location := by
  rcases h.find_cases location with heq | ⟨_, _, _, hfirst, hsecond⟩
  · simp only [canonical?, heq]
  · simp only [canonical?, hfirst, hsecond]
    rfl

theorem isFile_eq (h : first.SameShape second) (location : Location) :
    second.isFile location = first.isFile location := by
  rcases h.find_cases location with heq | ⟨_, _, _, hfirst, hsecond⟩
  · simp only [isFile, heq]
  · simp only [isFile, hfirst, hsecond]

theorem isDirectory_eq (h : first.SameShape second) (location : Location) :
    second.isDirectory location = first.isDirectory location := by
  rcases h.find_cases location with heq | ⟨_, _, _, hfirst, hsecond⟩
  · simp only [isDirectory, heq]
  · simp only [isDirectory, hfirst, hsecond]

theorem read_eq (h : first.SameShape second) {location : Location}
    (hcontent : ∀ content, first.read location = .ok content →
      second.read location = .ok content) : second.read location = first.read location := by
  rcases h.find_cases location with heq | ⟨_, content, _, hfirst, _⟩
  · simp only [read, heq]
  · have hread : first.read location = .ok content := by
      simp only [read, hfirst]
      rfl
    rw [hcontent content hread, hread]

theorem pass_eq (h : first.SameShape second)
    {follow follow' : List String → String → Except (List String) (List String)}
    (hfollow : ∀ link target, first.entry? link = some (.link target) →
      follow' link target = follow link target) (reached names : List String) :
    second.pass follow' reached names = first.pass follow reached names := by
  induction names generalizing reached with
  | nil => rfl
  | cons name rest ih =>
      simp only [pass, ih]
      rcases h.entry_cases (reached ++ [name]) with heq | ⟨_, _, hfirst, hsecond⟩
      · rw [heq]
        split
        · rfl
        · split
          · rfl
          · split
            · rename_i hentry
              rw [hfollow _ _ hentry]
            · rfl
      · rw [hfirst, hsecond]

theorem link_eq (h : first.SameShape second) {link : List String} {target : String}
    (hentry : first.entry? link = some (.link target)) :
    second.entry? link = some (.link target) := by
  rcases h.entry_cases link with heq | ⟨_, _, hfirst, _⟩
  · rw [heq, hentry]
  · rw [hfirst] at hentry
    cases hentry

theorem follow_eq (h : first.SameShape second) {left left' : Nat} {followed : List (List String)}
    {link : List String} {target : String} (hnodup : followed.Nodup)
    (hlinks : ∀ link ∈ followed, ∃ target, first.entry? link = some (.link target))
    (hleft : first.entries.length ≤ followed.length + left)
    (hleft' : second.entries.length ≤ followed.length + left')
    (hentry : first.entry? link = some (.link target)) :
    second.follow left' followed link target = first.follow left followed link target := by
  induction left generalizing left' followed link target with
  | zero =>
      unfold follow
      by_cases hmem : link ∈ followed
      · rw [if_pos hmem, if_pos hmem]
      · obtain ⟨_, ⟨⟩, _⟩ := exists_left (List.nodup_cons.mpr ⟨hmem, hnodup⟩)
          (List.forall_mem_cons.mpr ⟨⟨target, hentry⟩, hlinks⟩) hleft
  | succ left ih =>
      unfold follow
      by_cases hmem : link ∈ followed
      · rw [if_pos hmem, if_pos hmem]
      · have hnodup' := List.nodup_cons.mpr ⟨hmem, hnodup⟩
        have hlinks' := List.forall_mem_cons.mpr ⟨⟨target, hentry⟩, hlinks⟩
        obtain ⟨left', rfl, hfurther'⟩ := exists_left hnodup'
          (fun other hother => (hlinks' other hother).imp fun _ => h.link_eq) hleft'
        rw [if_neg hmem, if_neg hmem]
        refine h.pass_eq (fun other target' hother => ?_) _ _
        refine ih hnodup' hlinks' ?_ hfurther' hother
        rw [List.length_cons]
        omega

theorem resolve_eq (h : first.SameShape second) (location : Location) :
    second.resolve location = first.resolve location := by
  have hfollow (link : List String) (target : String)
      (hentry : first.entry? link = some (.link target)) :
      second.follow second.entries.length [] link target =
        first.follow first.entries.length [] link target :=
    h.follow_eq List.nodup_nil (List.forall_mem_nil _) (by simp) (by simp) hentry
  rw [resolve, resolve, h.pass_eq hfollow]

/-! ## Lookups -/

theorem firstFile_eq (h : first.SameShape second) (candidates : List (Except Failure Location)) :
    Lookup.firstFile second candidates = Lookup.firstFile first candidates := by
  induction candidates with
  | nil => rfl
  | cons candidate rest ih =>
      cases candidate with
      | error failure => rfl
      | ok location => simp only [Lookup.firstFile, h.isFile_eq, h.canonical?_eq, ih]

theorem candidates_eq (h : first.SameShape second) (settings : Settings) (specifier : String)
    (directory : Location) :
    (Lookup.mk settings second).candidates specifier directory =
      (Lookup.mk settings first).candidates specifier directory := by
  simp only [Lookup.candidates, h.isDirectory_eq]

theorem probe_eq (h : first.SameShape second) (settings : Settings) (specifier : String)
    (directory : Location) :
    (Lookup.mk settings second).probe specifier directory =
      (Lookup.mk settings first).probe specifier directory := by
  simp only [Lookup.probe, h.candidates_eq, h.firstFile_eq]

theorem ofLookup_eq (h : first.SameShape second) (settings : Settings) :
    Resolver.ofLookup ⟨settings, second⟩ = Resolver.ofLookup ⟨settings, first⟩ := by
  simp only [Resolver.ofLookup, Lookup.resolve, h.probe_eq]

theorem exportsOf_eq (h : first.SameShape second) (settings : Settings) (root : Location) :
    Resolution.exportsOf ⟨settings, second⟩ root =
      Resolution.exportsOf ⟨settings, first⟩ root := by
  simp only [Resolution.exportsOf, h.ofLookup_eq, h.resolve_eq]

end SameShape

end Volume

theorem Module.loadSurface_congr [Syntax.Grammar] {first second : Volume} {file : Location}
    (h : second.read file = first.read file) :
    Module.loadSurface second file = Module.loadSurface first file := by
  simp only [Module.loadSurface, Module.loadScan, Module.loadTree, h]

end FlatExports
