import FlatExports.Proofs.Volume.Walk
import Mathlib.Data.List.Perm.Subperm

/-!
The place a location stands for.

Where a walk arrives, a location stands for the place it arrives at.  A walk
follows links one after the other and a bounded number of them; `resolve` goes
into each link until it meets one that it is already following.  What they have
in common is `Leads`, which counts the links on the way: of those that are being
followed, each has more links ahead of it than the next.
-/

namespace FlatExports.Volume

variable {volume : Volume} {reached names found : List String} {name : String} {entry : Entry}

/-! ## Ways without links -/

section

variable {follow : List String → String → Except (List String) (List String)}

theorem pass_of_unlinked (hplain : Plain names)
    (h : ∀ front, front <+: names → ∀ target,
      volume.entry? (reached ++ front) ≠ some (.link target)) :
    volume.pass follow reached names = .ok (reached ++ names) := by
  induction names generalizing reached with
  | nil => simp [pass]
  | cons name rest ih =>
      have hname := hplain name List.mem_cons_self
      have hhere := h [name] (by simp)
      rw [pass, if_neg hname.1.2.1, if_neg hname.2]
      have hrest : volume.pass follow (reached ++ [name]) rest = .ok (reached ++ name :: rest) := by
        rw [ih (fun other hother => hplain other (List.mem_cons_of_mem _ hother))]
        · simp
        · intro front hfront target
          have hfront' := h (name :: front) (List.cons_prefix_cons.mpr ⟨rfl, hfront⟩) target
          simpa using hfront'
      split
      · rename_i target hentry
        exact absurd hentry (hhere target)
      · exact hrest

end

theorem resolve_of_stands {location : Location} (h : Stands volume location.names entry) :
    volume.resolve location = location := by
  have hunlinked : ∀ front, front <+: location.names → ∀ target,
      volume.entry? ([] ++ front) ≠ some (.link target) := by
    intro front hfront target hlink
    rw [List.nil_append] at hlink
    rcases List.eq_nil_or_concat location.names with hnil | ⟨names, last, hnames⟩
    · rw [hnil, List.prefix_nil] at hfront
      rw [hfront] at hlink
      cases hlink
    · have hdirectories := h.directories
      have hentry := h.entry_eq
      rw [List.concat_eq_append] at hnames
      rw [hnames] at hfront hentry hdirectories
      rw [List.dropLast_concat] at hdirectories
      rcases List.prefix_concat_iff.mp hfront with rfl | hfront
      · rw [hentry] at hlink
        exact h.unlinked target (Option.some.inj hlink)
      · rw [hdirectories front hfront] at hlink
        cases hlink
  unfold resolve
  rw [pass_of_unlinked h.plain hunlinked]
  rfl

/-! ## Ways through links -/

/-- Some names lead from one place to another, by way of so many links. -/
inductive Leads (volume : Volume) : List String → List String → List String → Nat → Prop
  | nil {reached : List String} : Leads volume reached [] reached 0
  | stay {reached rest place : List String} {name : String} {count : Nat} (hstay : name = ".")
      (hrest : Leads volume reached rest place count) :
      Leads volume reached (name :: rest) place count
  | up {reached rest place : List String} {name : String} {count : Nat} (hup : name = "..")
      (hrest : Leads volume reached.dropLast rest place count) :
      Leads volume reached (name :: rest) place count
  | step {reached rest place : List String} {name : String} {count : Nat}
      (hstay : name ≠ ".") (hup : name ≠ "..")
      (hunlinked : ∀ target, volume.entry? (reached ++ [name]) ≠ some (.link target))
      (hrest : Leads volume (reached ++ [name]) rest place count) :
      Leads volume reached (name :: rest) place count
  | link {reached middle rest place : List String} {name target : String} {count count' : Nat}
      (hstay : name ≠ ".") (hup : name ≠ "..")
      (hentry : volume.entry? (reached ++ [name]) = some (.link target))
      (htarget : Leads volume (linkStart reached target) (linkNames target) middle count)
      (hrest : Leads volume middle rest place count') :
      Leads volume reached (name :: rest) place (count + count' + 1)

namespace Leads

variable {place place' : List String} {count count' : Nat} {front rest : List String}

theorem split (h : Leads volume reached (front ++ rest) place count) :
    ∃ middle count₁ count₂, Leads volume reached front middle count₁ ∧
      Leads volume middle rest place count₂ ∧ count = count₁ + count₂ := by
  induction front generalizing reached count with
  | nil => exact ⟨reached, 0, count, .nil, h, by omega⟩
  | cons name others ih =>
      cases h with
      | stay hstay hothers =>
          obtain ⟨middle, count₁, count₂, hfront, hrest, rfl⟩ := ih hothers
          exact ⟨middle, count₁, count₂, .stay hstay hfront, hrest, rfl⟩
      | up hup hothers =>
          obtain ⟨middle, count₁, count₂, hfront, hrest, rfl⟩ := ih hothers
          exact ⟨middle, count₁, count₂, .up hup hfront, hrest, rfl⟩
      | step hstay hup hunlinked hothers =>
          obtain ⟨middle, count₁, count₂, hfront, hrest, rfl⟩ := ih hothers
          exact ⟨middle, count₁, count₂, .step hstay hup hunlinked hfront, hrest, rfl⟩
      | link hstay hup hentry htarget hothers =>
          obtain ⟨middle, count₁, count₂, hfront, hrest, rfl⟩ := ih hothers
          exact ⟨middle, _, count₂, .link hstay hup hentry htarget hfront, hrest, by omega⟩

theorem unique (h : Leads volume reached names place count)
    (h' : Leads volume reached names place' count') : place = place' ∧ count = count' := by
  induction h generalizing place' count' with
  | nil =>
      cases h'
      exact ⟨rfl, rfl⟩
  | stay hstay _ ih =>
      subst hstay
      cases h' with
      | stay _ hrest => exact ih hrest
      | up hup => exact absurd hup (by decide)
      | step hstay | link hstay => exact absurd rfl hstay
  | up hup _ ih =>
      subst hup
      cases h' with
      | stay hstay => exact absurd hstay (by decide)
      | up _ hrest => exact ih hrest
      | step _ hup | link _ hup => exact absurd rfl hup
  | step hstay hup hunlinked _ ih =>
      cases h' with
      | stay hstay' => exact absurd hstay' hstay
      | up hup' => exact absurd hup' hup
      | step _ _ _ hrest => exact ih hrest
      | link _ _ hentry => exact absurd hentry (hunlinked _)
  | link hstay hup hentry _ _ ihtarget ihrest =>
      cases h' with
      | stay hstay' => exact absurd hstay' hstay
      | up hup' => exact absurd hup' hup
      | step _ _ hunlinked => exact absurd hentry (hunlinked _)
      | link _ _ hentry' htarget hrest =>
          obtain rfl := Entry.link.inj (Option.some.inj (hentry.symm.trans hentry'))
          obtain ⟨rfl, rfl⟩ := ihtarget htarget
          obtain ⟨rfl, rfl⟩ := ihrest hrest
          exact ⟨rfl, rfl⟩

end Leads

theorem leads_of_advance (h : volume.advance reached names = .arrived found) :
    Leads volume reached names found 0 := by
  induction names generalizing reached with
  | nil =>
      cases h
      exact .nil
  | cons name rest ih =>
      unfold advance at h
      split at h
      · rename_i hstay
        exact .stay hstay (ih h)
      · rename_i hstay
        split at h
        · rename_i hup
          exact .up hup (ih h)
        · rename_i hup
          split at h
          · cases h
          · rename_i hentry
            exact .step hstay hup (by simp [hentry]) (ih h)
          · rename_i content hentry
            split at h
            · rename_i hrest
              cases h
              rw [List.isEmpty_iff.mp hrest]
              exact .step hstay hup (by simp [hentry]) .nil
            · cases h
          · cases h

theorem leads_of_link {directory rest : List String} {target : String} {count : Nat}
    (h : volume.advance reached names = .link directory target rest)
    (hnext : Leads volume (linkStart directory target) (linkNames target ++ rest) found count) :
    Leads volume reached names found (count + 1) := by
  induction names generalizing reached with
  | nil => cases h
  | cons name others ih =>
      unfold advance at h
      split at h
      · rename_i hstay
        exact .stay hstay (ih h)
      · rename_i hstay
        split at h
        · rename_i hup
          exact .up hup (ih h)
        · rename_i hup
          split at h
          · cases h
          · rename_i hentry
            exact .step hstay hup (by simp [hentry]) (ih h)
          · split at h <;> cases h
          · rename_i target' hentry
            cases h
            obtain ⟨middle, count₁, count₂, htarget, hrest, rfl⟩ := hnext.split
            exact .link hstay hup hentry htarget hrest

theorem exists_leads {budget : Nat} (h : volume.walkFrom budget reached names = .ok found) :
    ∃ count, Leads volume reached names found count := by
  induction budget generalizing reached names with
  | zero =>
      unfold walkFrom at h
      split at h
      · rename_i harrived
        cases h
        exact ⟨0, leads_of_advance harrived⟩
      · cases h
      · cases h
  | succ budget ih =>
      unfold walkFrom at h
      split at h
      · rename_i harrived
        cases h
        exact ⟨0, leads_of_advance harrived⟩
      · cases h
      · rename_i hlink
        obtain ⟨count, hnext⟩ := ih h
        exact ⟨count + 1, leads_of_link hlink hnext⟩

/-- A link, if so many links or more are on the way from it. -/
def Ahead (volume : Volume) (count : Nat) (link : List String) : Prop :=
  ∃ target place ahead, volume.entry? link = some (.link target) ∧
    Leads volume (linkStart link.dropLast target) (linkNames target) place ahead ∧ count ≤ ahead

theorem Ahead.mono {link : List String} {count count' : Nat} (h : Ahead volume count link)
    (hle : count' ≤ count) : Ahead volume count' link := by
  obtain ⟨target, place, ahead, hentry, hahead, hcount⟩ := h
  exact ⟨target, place, ahead, hentry, hahead, hle.trans hcount⟩

theorem Ahead.le_count {link place : List String} {target : String} {count ahead : Nat}
    (h : Ahead volume count link) (hentry : volume.entry? link = some (.link target))
    (htarget : Leads volume (linkStart link.dropLast target) (linkNames target) place ahead) :
    count ≤ ahead := by
  obtain ⟨target', place', ahead', hentry', hahead, hcount⟩ := h
  obtain rfl := Entry.link.inj (Option.some.inj (hentry.symm.trans hentry'))
  obtain ⟨-, rfl⟩ := htarget.unique hahead
  exact hcount

theorem exists_left {followed : List (List String)} {link : List String} {left : Nat}
    (hnodup : (link :: followed).Nodup)
    (hlinks : ∀ other ∈ link :: followed, ∃ target, volume.entry? other = some (.link target))
    (hleft : volume.entries.length ≤ followed.length + left) :
    ∃ further, left = further + 1 ∧
      volume.entries.length ≤ (link :: followed).length + further := by
  have hsubset : link :: followed ⊆ volume.entries.map Prod.fst := by
    intro other hother
    obtain ⟨target, hentry⟩ := hlinks other hother
    cases other with
    | nil => cases hentry
    | cons name rest =>
        obtain ⟨before, after, hentries, -⟩ := List.lookup_eq_some_iff.mp hentry
        simp [hentries]
  have hroom := (hnodup.subperm hsubset).length_le
  rw [List.length_cons, List.length_map] at hroom
  exact ⟨left - 1, by omega, by rw [List.length_cons]; omega⟩

/--
A way that leads somewhere is followed to its end: the links that are being
followed all have more links ahead of them than are left on the way, so none of
them is met again.
-/
theorem pass_of_leads {place : List String} {count left : Nat} {followed : List (List String)}
    (h : Leads volume reached names place count) (hnodup : followed.Nodup)
    (hahead : ∀ link ∈ followed, Ahead volume count link)
    (hleft : volume.entries.length ≤ followed.length + left) :
    volume.pass (volume.follow left followed) reached names = .ok place := by
  induction h generalizing left followed with
  | nil => rfl
  | stay hstay _ ih =>
      rw [pass, if_pos hstay]
      exact ih hnodup hahead hleft
  | up hup _ ih =>
      rw [pass, if_neg (by simp [hup]), if_pos hup]
      exact ih hnodup hahead hleft
  | step hstay hup hunlinked _ ih =>
      rw [pass, if_neg hstay, if_neg hup]
      have hrest := ih hnodup hahead hleft
      split
      · rename_i target hentry
        exact absurd hentry (hunlinked target)
      · exact hrest
  | @link reached middle rest place name target count count' hstay hup hentry htarget _ ihtarget
      ihrest =>
      have hstart : (reached ++ [name]).dropLast = reached := List.dropLast_concat
      have htarget' : Leads volume (linkStart (reached ++ [name]).dropLast target)
          (linkNames target) middle count := by rwa [hstart]
      have hfresh : reached ++ [name] ∉ followed := by
        intro hmem
        have hle := (hahead _ hmem).le_count hentry htarget'
        omega
      have hnodup' := List.nodup_cons.mpr ⟨hfresh, hnodup⟩
      have hahead' : ∀ link ∈ (reached ++ [name]) :: followed, Ahead volume count link :=
        List.forall_mem_cons.mpr ⟨⟨target, middle, count, hentry, htarget', le_refl _⟩,
          fun link hlink => (hahead link hlink).mono (by omega)⟩
      obtain ⟨further, rfl, hfurther⟩ := exists_left hnodup'
        (fun link hlink => (hahead' link hlink).imp fun _ ⟨_, _, hentry, _⟩ => hentry) hleft
      have hplace : volume.follow (further + 1) followed (reached ++ [name]) target =
          .ok middle := by
        rw [follow, if_neg hfresh, hstart]
        exact ihtarget hnodup' hahead' hfurther
      rw [pass, if_neg hstay, if_neg hup, hentry]
      simp only [hplace]
      exact ihrest hnodup (fun link hlink => (hahead link hlink).mono (by omega)) hleft

theorem resolve_of_find {location place : Location}
    (h : volume.find location = .ok (place, entry)) : volume.resolve location = place := by
  obtain ⟨count, hleads⟩ := exists_leads (find_eq_ok.mp h).1
  rw [resolve, pass_of_leads hleads List.nodup_nil (by simp) (by simp)]

end FlatExports.Volume
