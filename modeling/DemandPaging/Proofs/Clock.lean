import Mathlib.Data.Nat.Find
import DemandPaging.Proofs.Victim

/-!
# The clock's sweep in closed form

The clock policy sweeps its hand round the first `n` frames of the core map.
At each frame it stops if the frame is unowned or its page unreferenced
(`claimable`); otherwise it clears the page's referenced bit and moves on.
`Policy.sweep` runs that loop on fuel; this file says what it computes, and
that the fuel never runs out.

* `sweep_passes`: if the sweep from `h` passes `k` frames, none claimable at
  the time it is reached, and stops at the next, then with any fuel beyond `k`
  it returns that frame, the hand just past it, and the table with the bits of
  the passed pages cleared (`clearReferenced`); and the table held at least `k`
  referenced pages, so the fuel victim selection gives it suffices.
* `exists_first_stop`: from any hand the sweep stops within a turn and one
  frame: after a whole turn the hand's own page has lost its bit.
* `clock_victim_closed_form`: so victim selection stops after at most `n + 1`
  passes, at a frame below `n` with the hand just past it, and changes only the
  bits of the passed pages (`Sweeps`).  When no page owns two frames, the victim
  is the first claimable frame from the hand, or, when there is none, the frame
  under the hand after a whole turn that cleared every bit.

Positions round the clock are natural numbers here; the policy keeps its hand
as an integer, and the two meet through `fmod_natCast_succ`.
-/

namespace DemandPaging

namespace Policy

/-- The frame `i` places past `h` round a clock of `n` frames. -/
def clockAt (n h i : Nat) : Nat := (h + i) % n

/-- The owner of frame `f`, if the frame exists and has one. -/
def ownerAt (frames : CoreMap) (f : Nat) : Option Int := frames[f]?.bind FrameEntry.owner

/-- Whether the sweep stops at frame `f` over table `t`: the frame is unowned,
or its page is unreferenced. -/
def claimable (frames : CoreMap) (t : PageTable) (f : Nat) : Bool :=
  match ownerAt frames f with
  | none => true
  | some o => (Seq.get? t o).any (!·.referenced)

/-- The pages owning the first `k` frames a sweep from `h` reaches. -/
def passedOwners (frames : CoreMap) (n h k : Nat) : List Int :=
  (List.range k).filterMap fun i => ownerAt frames (clockAt n h i)

/-- The table with the referenced bits of `owners` cleared, one after another. -/
def clearReferenced (t : PageTable) (owners : List Int) : PageTable :=
  owners.foldl (fun t o => Seq.update t o PageEntry.unreferenced) t

/-- No page owns two of the first `n` frames. -/
def OwnersDistinct (frames : CoreMap) (n : Nat) : Prop :=
  ∀ f g o, f < n → g < n → ownerAt frames f = some o → ownerAt frames g = some o → f = g

/-! ## Positions round the clock -/

section Positions

variable {n h : Nat}

theorem clockAt_lt (hn : 0 < n) (i : Nat) : clockAt n h i < n := Nat.mod_lt _ hn

theorem clockAt_zero (hh : h < n) : clockAt n h 0 = h := Nat.mod_eq_of_lt hh

theorem clockAt_succ (i : Nat) : clockAt n h (i + 1) = clockAt n (clockAt n h 1) i := by
  unfold clockAt
  rw [Nat.mod_add_mod]
  congr 1
  omega

/-- The hand after a frame is the frame just past it. -/
theorem clockAt_succ_eq (k : Nat) : clockAt n h (k + 1) = (clockAt n h k + 1) % n := by
  unfold clockAt
  rw [Nat.mod_add_mod]
  rfl

/-- Within one turn the positions are `h, h + 1, ...`, wrapping once. -/
theorem clockAt_eq (hh : h < n) {i : Nat} (hi : i < n) :
    clockAt n h i = if h + i < n then h + i else h + i - n := by
  unfold clockAt
  split
  · exact Nat.mod_eq_of_lt ‹_›
  · rw [Nat.mod_eq_sub_mod (by omega), Nat.mod_eq_of_lt (by omega)]

/-- A turn reaches no frame twice. -/
theorem clockAt_inj (hh : h < n) {i j : Nat} (hi : i < n) (hj : j < n)
    (heq : clockAt n h i = clockAt n h j) : i = j := by
  rw [clockAt_eq hh hi, clockAt_eq hh hj] at heq
  split at heq <;> split at heq <;> omega

/-- A turn reaches every frame. -/
theorem exists_clockAt (hh : h < n) {f : Nat} (hf : f < n) : ∃ i < n, clockAt n h i = f := by
  by_cases hle : h ≤ f
  · exact ⟨f - h, by omega, by rw [clockAt_eq hh (by omega), if_pos (by omega)]; omega⟩
  · exact ⟨f + n - h, by omega, by rw [clockAt_eq hh (by omega), if_neg (by omega)]; omega⟩

/-- A whole turn brings the hand back. -/
theorem clockAt_self (hh : h < n) : clockAt n h n = h := by
  unfold clockAt
  rw [Nat.add_mod_right, Nat.mod_eq_of_lt hh]

/-- The policy moves its integer hand as `clockAt` moves a natural one. -/
theorem fmod_natCast_succ (hn : 0 < n) (f : Nat) :
    Int.fmod ((f : Int) + 1) n = (((f + 1) % n : Nat) : Int) := by
  rw [Int.fmod_eq_emod_of_nonneg _ (by omega), Int.natCast_emod]
  rfl

end Positions

/-! ## The pages passed and their bits -/

section Cleared

variable {frames : CoreMap} {n h : Nat}

theorem passedOwners_succ (k : Nat) :
    passedOwners frames n h (k + 1) =
      (ownerAt frames (clockAt n h 0)).toList ++ passedOwners frames n (clockAt n h 1) k := by
  unfold passedOwners
  rw [List.range_succ_eq_map, List.filterMap_cons, List.filterMap_map]
  have hshift : (fun i => ownerAt frames (clockAt n h i)) ∘ Nat.succ =
      fun i => ownerAt frames (clockAt n (clockAt n h 1) i) :=
    funext fun i => congrArg (ownerAt frames) (clockAt_succ i)
  rw [hshift]
  cases ownerAt frames (clockAt n h 0) <;> rfl

theorem mem_passedOwners {k : Nat} {o : Int} :
    o ∈ passedOwners frames n h k ↔ ∃ i < k, ownerAt frames (clockAt n h i) = some o := by
  simp [passedOwners]

theorem clearReferenced_cons (t : PageTable) (o : Int) (os : List Int) :
    clearReferenced t (o :: os) = clearReferenced (Seq.update t o PageEntry.unreferenced) os := rfl

theorem size_clearReferenced (t : PageTable) (os : List Int) :
    (clearReferenced t os).size = t.size := by
  induction os generalizing t with
  | nil => rfl
  | cons o os ih => rw [clearReferenced_cons, ih, Seq.size_update]

/-- Clearing the bits of pages one after another clears exactly those pages'
bits.  Induction on the pages. -/
theorem getElem?_clearReferenced (t : PageTable) {os : List Int} (hos : ∀ o ∈ os, 0 ≤ o)
    (v : Nat) :
    (clearReferenced t os)[v]? = t[v]?.map fun e => if (v : Int) ∈ os then e.unreferenced else e := by
  induction os generalizing t with
  | nil => simp [clearReferenced]
  | cons o os ih =>
    obtain ⟨u, rfl⟩ : ∃ u : Nat, o = u := ⟨o.toNat, by have := hos o List.mem_cons_self; omega⟩
    rw [clearReferenced_cons, ih _ (fun o ho => hos o (List.mem_cons_of_mem _ ho)),
      Seq.update_natCast, Array.getElem?_modify]
    by_cases huv : u = v
    · subst huv
      cases t[u]? <;> simp [PageEntry.unreferenced]
    · have : (v : Int) ≠ u := by omega
      simp [huv, this]

/-- The same entry, read at an owner. -/
theorem get?_clearReferenced (t : PageTable) {os : List Int} (hos : ∀ o ∈ os, 0 ≤ o) {o : Int}
    (ho : 0 ≤ o) :
    Seq.get? (clearReferenced t os) o = (Seq.get? t o).map fun e => if o ∈ os then e.unreferenced else e := by
  obtain ⟨u, rfl⟩ : ∃ u : Nat, o = u := ⟨o.toNat, by omega⟩
  simp only [Seq.get?, resolveIndex_natCast, size_clearReferenced]
  split
  · simp only [Option.bind_some, getElem?_clearReferenced t hos]
  · rfl

/-- Clearing bits keeps a frame claimable. -/
theorem claimable_clearReferenced {t : PageTable} {os : List Int} (hos : ∀ o ∈ os, 0 ≤ o) {f : Nat}
    (hown : ∀ o, ownerAt frames f = some o → 0 ≤ o) (hc : claimable frames t f = true) :
    claimable frames (clearReferenced t os) f = true := by
  unfold claimable at hc ⊢
  cases ho : ownerAt frames f with
  | none => rfl
  | some o =>
    simp only [ho] at hc ⊢
    rw [get?_clearReferenced t hos (hown o ho)]
    cases he : Seq.get? t o with
    | none => simp [he] at hc
    | some e =>
      simp only [he, Option.any_some] at hc
      simp only [Option.map_some, Option.any_some]
      split <;> simp [PageEntry.unreferenced, hc]

/-- The number of referenced pages, as a count. -/
theorem referencedCount_eq (t : PageTable) : referencedCount t = t.countP (·.referenced) := by
  have hfold : ∀ (l : List PageEntry) (m : Nat),
      l.foldl (fun n e => if e.referenced then n + 1 else n) m = m + l.countP (·.referenced) := by
    intro l
    induction l with
    | nil => simp
    | cons e l ih =>
      intro m
      rw [List.foldl_cons, ih, List.countP_cons]
      by_cases hr : e.referenced <;> simp [hr]
      omega
  rw [referencedCount, ← Array.foldl_toList, hfold, ← Array.countP_toList, Nat.zero_add]

/-- Clearing a set bit lowers the count of referenced pages by one. -/
theorem referencedCount_update {t : PageTable} {u : Nat} {e : PageEntry} (hu : t[u]? = some e)
    (hr : e.referenced = true) :
    referencedCount (Seq.update t u PageEntry.unreferenced) + 1 = referencedCount t := by
  have hlt : u < t.size := (Array.getElem?_eq_some_iff.mp hu).1
  have he : t[u] = e := by rw [Array.getElem?_eq_getElem hlt] at hu; exact Option.some.inj hu
  have hpos : 0 < t.countP (·.referenced) :=
    Array.countP_pos_iff.mpr ⟨t[u], Array.getElem_mem hlt, by rw [he]; exact hr⟩
  rw [referencedCount_eq, referencedCount_eq, Seq.update_natCast, countP_modify _ hlt, he]
  simp only [hr, if_true, PageEntry.unreferenced, Bool.false_eq_true, if_false]
  omega

end Cleared

/-! ## One pass and a whole sweep -/

/-- What the sweep needs to read its tables: the first `n` frames exist, every
owner among them names a page of a table of `size` entries, and every index is
one a sequence accepts. -/
structure Readable (frames : CoreMap) (n size : Nat) : Prop where
  pos : 0 < n
  frames_le : n ≤ frames.size
  frames_fit : (frames.size : Int) ≤ maxLength
  size_fit : (size : Int) ≤ maxLength
  owners : ∀ f < n, ∀ o, ownerAt frames f = some o → 0 ≤ o ∧ o < size

section Sweep

variable {frames : CoreMap} {n size : Nat} (hR : Readable frames n size)
include hR

theorem Readable.read_frame {f : Nat} (hf : f < frames.size) : Seq.read frames f = .ok frames[f] :=
  Seq.read_of_getElem? (Array.getElem?_eq_getElem hf) (by have := hR.frames_fit; omega)

theorem Readable.owner_nonneg {f : Nat} (hf : f < n) : ∀ o, ownerAt frames f = some o → 0 ≤ o :=
  fun o ho => (hR.owners f hf o ho).1

/-- A pass at a claimable frame stops there. -/
theorem sweep_succ_of_claimable {t : PageTable} (ht : t.size = size) {f : Nat} (hf : f < n)
    (hc : claimable frames t f = true) (fuel : Nat) :
    sweep frames n (fuel + 1) f t = (.ok (f : Int), (((f + 1) % n : Nat) : Int), t) := by
  have hf' : f < frames.size := by have := hR.frames_le; omega
  simp only [sweep, show (n : Int) ≠ 0 by have := hR.pos; omega, if_false, hR.read_frame hf',
    fmod_natCast_succ hR.pos]
  unfold claimable ownerAt at hc
  rw [Array.getElem?_eq_getElem hf', Option.bind_some] at hc
  cases ho : frames[f].owner with
  | none => rfl
  | some o =>
    rw [ho] at hc
    obtain ⟨h0, hlt⟩ := hR.owners f hf o (by simp [ownerAt, Array.getElem?_eq_getElem hf', ho])
    obtain ⟨u, rfl⟩ : ∃ u : Nat, o = u := ⟨o.toNat, by omega⟩
    have hu : u < t.size := by omega
    simp only [Seq.get?, resolveIndex_natCast, hu, if_true, Option.bind_some,
      Array.getElem?_eq_getElem hu, Option.any_some, Bool.not_eq_true'] at hc
    have hfit : ((u : Nat) : Int) ≤ maxLength := by have := hR.size_fit; omega
    simp only [Seq.read_of_getElem? (Array.getElem?_eq_getElem hu) hfit, hc, Bool.false_eq_true,
      if_false]

/-- A pass at a frame whose page is referenced clears the bit and moves on. -/
theorem sweep_succ_of_referenced {t : PageTable} (ht : t.size = size) {f u : Nat} (hf : f < n)
    (ho : ownerAt frames f = some (u : Int)) {e : PageEntry} (hu : t[u]? = some e)
    (hr : e.referenced = true) (fuel : Nat) :
    sweep frames n (fuel + 1) f t =
      sweep frames n fuel ((f + 1) % n : Nat) (Seq.update t u PageEntry.unreferenced) := by
  have hf' : f < frames.size := by have := hR.frames_le; omega
  have hlt : u < t.size := (Array.getElem?_eq_some_iff.mp hu).1
  have hfit : ((u : Nat) : Int) ≤ maxLength := by have := hR.size_fit; omega
  simp only [ownerAt, Array.getElem?_eq_getElem hf', Option.bind_some] at ho
  simp only [sweep, show (n : Int) ≠ 0 by have := hR.pos; omega, if_false, hR.read_frame hf',
    fmod_natCast_succ hR.pos, ho, Seq.read_of_getElem? hu hfit, hr, if_true]
  rfl

/-- The sweep, pass by pass.  If from hand `h` over table `t` the sweep meets
`k` frames that are not claimable when it reaches them, and then a claimable
one, it returns that frame, the hand just past it and the table with the
passed pages' bits cleared, given more than `k` passes of fuel; and each of
the `k` passes cleared a set bit.  Induction on `k`, the hand and table moving
on at each pass. -/
theorem sweep_passes (k : Nat) : ∀ (h : Nat) (t : PageTable), h < n → t.size = size →
    (∀ i < k, claimable frames (clearReferenced t (passedOwners frames n h i)) (clockAt n h i) = false) →
    claimable frames (clearReferenced t (passedOwners frames n h k)) (clockAt n h k) = true →
    k ≤ referencedCount t ∧ ∀ fuel, k < fuel →
      sweep frames n fuel h t = (.ok (clockAt n h k : Int), (clockAt n h (k + 1) : Int),
        clearReferenced t (passedOwners frames n h k)) := by
  induction k with
  | zero =>
    intro h t hh ht _ hstop
    rw [clockAt_zero hh] at hstop ⊢
    refine ⟨Nat.zero_le _, fun fuel hfuel => ?_⟩
    obtain ⟨fuel, rfl⟩ : ∃ m, fuel = m + 1 := ⟨fuel - 1, by omega⟩
    exact sweep_succ_of_claimable hR ht hh hstop fuel
  | succ k ih =>
    intro h t hh ht hpass hstop
    -- the first frame is passed: it has an owner whose bit is set
    have hfirst := hpass 0 (Nat.zero_lt_succ k)
    simp only [passedOwners, List.range_zero, List.filterMap_nil, clockAt_zero hh] at hfirst
    unfold claimable at hfirst
    obtain ⟨o, ho⟩ : ∃ o, ownerAt frames h = some o := by
      cases ho : ownerAt frames h with
      | none => rw [ho] at hfirst; cases hfirst
      | some o => exact ⟨o, rfl⟩
    rw [ho] at hfirst
    obtain ⟨h0, hlt⟩ := hR.owners h hh o ho
    obtain ⟨u, rfl⟩ : ∃ u : Nat, o = u := ⟨o.toNat, by omega⟩
    have hu : u < t.size := by omega
    have hget : t[u]? = some t[u] := Array.getElem?_eq_getElem hu
    simp only [clearReferenced, List.foldl_nil, Seq.get?, resolveIndex_natCast, hu, if_true,
      Option.bind_some, hget, Option.any_some, Bool.not_eq_false'] at hfirst
    -- the rest of the sweep starts one frame on, over the table with that bit cleared
    have hnext : ∀ i, passedOwners frames n h (i + 1) = (u : Int) :: passedOwners frames n (clockAt n h 1) i := by
      intro i
      rw [passedOwners_succ, clockAt_zero hh, ho]
      rfl
    have hclock : ∀ i, clockAt n h (i + 1) = clockAt n (clockAt n h 1) i := fun i => clockAt_succ i
    have hh' : clockAt n h 1 < n := clockAt_lt hR.pos 1
    have ht' : (Seq.update t u PageEntry.unreferenced).size = size := by rw [Seq.size_update, ht]
    obtain ⟨hcount, hsweep⟩ := ih (clockAt n h 1) (Seq.update t u PageEntry.unreferenced) hh' ht'
      (fun i hi => by
        have := hpass (i + 1) (by omega)
        rwa [hnext i, hclock i, clearReferenced_cons] at this)
      (by rwa [hnext k, hclock k, clearReferenced_cons] at hstop)
    refine ⟨by have := referencedCount_update hget hfirst; omega, fun fuel hfuel => ?_⟩
    obtain ⟨fuel, rfl⟩ : ∃ m, fuel = m + 1 := ⟨fuel - 1, by omega⟩
    rw [sweep_succ_of_referenced hR ht hh (u := u) ho hget hfirst fuel]
    rw [hnext k, hclock k, hclock (k + 1), clearReferenced_cons]
    exact hsweep fuel (by omega)

/-- The sweep from `h` stops within a turn and one frame.  If no frame of the
first turn is claimable when reached, every page met lost its bit on the way,
the hand's own page first; so the hand's frame is claimable when the turn
brings the sweep back to it. -/
theorem exists_first_stop {h : Nat} (hh : h < n) (t : PageTable) (ht : t.size = size) :
    ∃ k ≤ n,
      (∀ i < k, claimable frames (clearReferenced t (passedOwners frames n h i)) (clockAt n h i) = false) ∧
      claimable frames (clearReferenced t (passedOwners frames n h k)) (clockAt n h k) = true := by
  by_cases hex : ∃ i, i < n ∧
      claimable frames (clearReferenced t (passedOwners frames n h i)) (clockAt n h i) = true
  · refine ⟨Nat.find hex, Nat.le_of_lt (Nat.find_spec hex).1, fun i hi => ?_, (Nat.find_spec hex).2⟩
    have := Nat.find_min hex hi
    simp only [not_and, Bool.not_eq_true] at this
    exact this (by have := (Nat.find_spec hex).1; omega)
  · simp only [not_exists, not_and, Bool.not_eq_true] at hex
    refine ⟨n, Nat.le_refl n, hex, ?_⟩
    -- the hand's first frame was passed, so its page is among those cleared
    have hfirst := hex 0 hR.pos
    simp only [passedOwners, List.range_zero, List.filterMap_nil, clockAt_zero hh] at hfirst
    unfold claimable at hfirst ⊢
    rw [clockAt_self hh]
    cases ho : ownerAt frames h with
    | none => simp [ho] at hfirst
    | some o =>
      have hmem : o ∈ passedOwners frames n h n :=
        mem_passedOwners.mpr ⟨0, hR.pos, by rw [clockAt_zero hh]; exact ho⟩
      have hos : ∀ o ∈ passedOwners frames n h n, 0 ≤ o := by
        intro o' ho'
        obtain ⟨i, hi, hio⟩ := mem_passedOwners.mp ho'
        exact hR.owner_nonneg (clockAt_lt hR.pos _) o' hio
      obtain ⟨h0, hlt⟩ := hR.owners h hh o ho
      obtain ⟨u, rfl⟩ : ∃ u : Nat, o = u := ⟨o.toNat, by omega⟩
      have hu : u < t.size := by omega
      dsimp only
      rw [get?_clearReferenced t hos h0]
      simp [Seq.get?, resolveIndex_natCast, hu, hmem, PageEntry.unreferenced]

end Sweep

/-! ## Victim selection -/

/-- What the clock's victim selection from hand `h` does when it passes `k`
frames: the frame it returns, the hand and bits it leaves, how many passes it
makes, and which frames it passes. -/
structure Sweeps (frames : CoreMap) (n h : Nat) (pages : PageTable) (k : Nat) : Prop where
  /-- The victim is the frame `k` places past the hand, the hand stops just
  past it, and the passed pages' bits are cleared. -/
  select : (clock n h).selectVictim frames pages =
    (.ok (clockAt n h k : Int), clock n ((clockAt n h k + 1) % n : Nat),
      clearReferenced pages (passedOwners frames n h k))
  /-- The loop stops at its `k + 1`-th pass: more fuel changes nothing. -/
  stops_after : ∀ fuel, k < fuel →
    sweep frames n fuel h pages = (Except.ok (clockAt n h k : Int),
      (((clockAt n h k + 1) % n : Nat) : Int), clearReferenced pages (passedOwners frames n h k))
  victim_lt : clockAt n h k < n
  /-- The only bits that change are those of the passed pages, which are cleared. -/
  cleared : ∀ v : Nat, (clearReferenced pages (passedOwners frames n h k))[v]? =
    pages[v]?.map fun e => if (v : Int) ∈ passedOwners frames n h k then e.unreferenced else e
  /-- No frame passed was claimable to begin with. -/
  passed : ∀ i < k, claimable frames pages (clockAt n h i) = false
  /-- The victim is claimable once the passed bits are cleared. -/
  claimable_victim : claimable frames (clearReferenced pages (passedOwners frames n h k)) (clockAt n h k) = true
  /-- After a whole turn the victim is the frame under the hand, and every page
  of the turn has lost its bit. -/
  turn : k = n → clockAt n h k = h ∧ ∀ x < n, ∀ o, ownerAt frames x = some o →
    ∃ e, Seq.get? (clearReferenced pages (passedOwners frames n h k)) o = some e ∧ e.referenced = false
  /-- With no page owning two frames, the victim is the first claimable frame
  from the hand, and a whole turn is taken only when there is none. -/
  first : OwnersDistinct frames n →
    ((∃ i < n, claimable frames pages (clockAt n h i) = true) →
      k < n ∧ claimable frames pages (clockAt n h k) = true) ∧
    ((∀ i < n, claimable frames pages (clockAt n h i) = false) → k = n)

/-- Clock victim selection.  From a hand on one of the first `n` frames of a
core map whose owners among them name pages of the table, the sweep stops
after `k + 1 ≤ n + 1` passes, at a frame below `n`, leaving the hand just past
it, and clears the bits of the pages it passed and no others; when no page owns
two frames, the victim is the first frame from the hand that is unowned or
whose page is unreferenced, and if there is none it is the hand's own frame,
after every bit of the turn was cleared. -/
theorem clock_victim_closed_form {n h : Nat} (hn : 0 < n) (hh : h < n) {frames : CoreMap}
    (hsize : n ≤ frames.size) (hfit : (frames.size : Int) ≤ maxLength) {pages : PageTable}
    (hpfit : (pages.size : Int) ≤ maxLength)
    (howners : ∀ f < n, ∀ o, ownerAt frames f = some o → 0 ≤ o ∧ o < pages.size) :
    ∃ k ≤ n, Sweeps frames n h pages k := by
  have hR : Readable frames n pages.size := ⟨hn, hsize, hfit, hpfit, howners⟩
  obtain ⟨k, hk, hpass, hstop⟩ := exists_first_stop hR hh pages rfl
  obtain ⟨hcount, hsweep⟩ := sweep_passes hR k h pages hh rfl hpass hstop
  have hos : ∀ j, ∀ o ∈ passedOwners frames n h j, 0 ≤ o := by
    intro j o ho
    obtain ⟨i, -, hio⟩ := mem_passedOwners.mp ho
    exact hR.owner_nonneg (clockAt_lt hn _) o hio
  -- a page the sweep finds referenced was referenced from the start
  have hpassed : ∀ i < k, claimable frames pages (clockAt n h i) = false := by
    intro i hi
    by_contra hc
    have := claimable_clearReferenced (hos i) (hR.owner_nonneg (clockAt_lt hn _)) (by simpa using hc)
    rw [hpass i hi] at this
    cases this
  refine ⟨k, hk, ⟨?_, fun fuel hfuel => by rw [hsweep fuel hfuel, clockAt_succ_eq],
    clockAt_lt hn k, getElem?_clearReferenced pages (hos k), hpassed, hstop, ?_, ?_⟩⟩
  · rw [selectVictim_clock, hsweep _ (by omega), clockAt_succ_eq]
  · rintro rfl
    refine ⟨clockAt_self hh, fun x hx o ho => ?_⟩
    obtain ⟨i, hi, rfl⟩ := exists_clockAt hh hx
    obtain ⟨h0, hlt⟩ := howners _ hx o ho
    obtain ⟨u, rfl⟩ : ∃ u : Nat, o = u := ⟨o.toNat, by omega⟩
    have hu : u < pages.size := by omega
    rw [get?_clearReferenced pages (hos k) h0]
    simp [Seq.get?, resolveIndex_natCast, hu, mem_passedOwners.mpr ⟨i, hi, ho⟩,
      PageEntry.unreferenced]
  · intro hdistinct
    -- before a whole turn the victim's page was passed by no earlier frame
    have hfirst : k < n → claimable frames pages (clockAt n h k) = true := by
      intro hkn
      unfold claimable at hstop ⊢
      cases ho : ownerAt frames (clockAt n h k) with
      | none => rfl
      | some o =>
        rw [ho] at hstop
        dsimp only at hstop ⊢
        have hnot : o ∉ passedOwners frames n h k := by
          intro hmem
          obtain ⟨i, hi, hio⟩ := mem_passedOwners.mp hmem
          have := clockAt_inj hh (by omega) hkn
            (hdistinct _ _ o (clockAt_lt hn _) (clockAt_lt hn _) hio ho)
          omega
        rw [get?_clearReferenced pages (hos k) (hR.owner_nonneg (clockAt_lt hn _) o ho)] at hstop
        simpa [hnot] using hstop
    refine ⟨fun hsome => ?_, fun hnone => ?_⟩
    · obtain ⟨i, hi, hc⟩ := hsome
      have hkn : k < n := by
        by_contra hkn
        rw [hpassed i (by omega)] at hc
        cases hc
      exact ⟨hkn, hfirst hkn⟩
    · by_contra hkn
      have := hfirst (by omega)
      rw [hnone k (by omega)] at this
      cases this

/-- Two frames, the first holding a referenced page: the sweep from frame 0
passes it, clearing its bit, and takes frame 1. -/
theorem clock_victim_closed_form_small :
    0 < 2 ∧ 0 < 2 ∧ 2 ≤ (#[{ owner := some 0 }, { owner := some 1 }] : CoreMap).size ∧
      ((#[{ owner := some 0 }, { owner := some 1 }] : CoreMap).size : Int) ≤ maxLength ∧
      ((#[{ referenced := true }, {}] : PageTable).size : Int) ≤ maxLength ∧
      (∀ f < 2, ∀ o, ownerAt #[{ owner := some 0 }, { owner := some 1 }] f = some o →
        0 ≤ o ∧ o < (#[{ referenced := true }, {}] : PageTable).size) ∧
      ∃ k ≤ 2, Sweeps #[{ owner := some 0 }, { owner := some 1 }] 2 0 #[{ referenced := true }, {}] k := by
  have howners : ∀ f < 2, ∀ o, ownerAt #[{ owner := some 0 }, { owner := some 1 }] f = some o →
      0 ≤ o ∧ o < (#[{ referenced := true }, {}] : PageTable).size := by
    intro f hf o ho
    obtain rfl | rfl : f = 0 ∨ f = 1 := by omega
    all_goals simp [ownerAt] at ho; subst ho; decide
  exact ⟨by decide, by decide, by decide, by decide, by decide, howners,
    clock_victim_closed_form (by decide) (by decide) (by decide) (by decide) (by decide) howners⟩

end Policy

end DemandPaging
