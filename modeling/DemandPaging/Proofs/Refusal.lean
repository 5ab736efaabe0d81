import DemandPaging.Proofs.Occupancy

/-!
# When an access is refused

`translate_spec` says an access either answers with the word that holds its
address or fails as `Board.Refuses` lists.  This module pins the failures
down, on a consistent board whose swap space has handed out no more slots
than it has:

* outside the address space an access fails at once, having counted itself
  and changed nothing else (`translate_run_beyond`);
* inside it, at a page index a sequence can have, an access fails only for
  want of a swap slot, and exactly when it `RunsOutOfSwap`: its page is out
  of RAM, every frame is in use, the page in the frame the policy picks is
  dirty and has never been written out, and every slot is taken.  It then
  leaves the board `outOfSwap`, on which the access and the fault are
  counted, the page recorded and the policy's choice made, and nothing else
  has changed (`translate_run_error_iff`).

The argument walks down the fault: an eviction fails only when it must
hand out a slot and cannot, and then changes nothing
(`evict_run_error_iff`); taking a frame fails only when the eviction of the
policy's victim does (`takeFrame_run_error_iff`); filling and installing the
page never fail (`handleFault_run_error_iff`).  On the way the slots handed
out stay within the capacity (`translate_slots_within`), which is what makes
"every slot is taken" an equation.
-/

namespace DemandPaging

/-! ## What the policy's choice changes -/

/-- Changing one item of a sequence leaves every other item, and changes that
one by the function. -/
theorem Seq.getElem?_update {α : Type} (a : Array α) (o : Int) (f : α → α) (i : Nat) :
    (Seq.update a o f)[i]? = a[i]? ∨ (Seq.update a o f)[i]? = a[i]?.map f := by
  unfold Seq.update
  split
  · rename_i j _
    rw [Array.getElem?_modify]
    by_cases hji : j = i
    · exact .inr (if_pos hji)
    · exact .inl (if_neg hji)
  · exact .inl rfl

namespace Policy

variable {frames : CoreMap}

/-- The clock sweep only clears referenced bits: an entry referenced after
it was referenced before. -/
theorem sweep_referenced (count : Int) (fuel : Nat) :
    ∀ {hand : Int} {pages : PageTable} {i : Nat} {e' : PageEntry},
      (sweep frames count fuel hand pages).2.2[i]? = some e' → e'.referenced = true →
        ∃ e, pages[i]? = some e ∧ e.referenced = true := by
  induction fuel with
  | zero =>
    intro hand pages i e' he' hr
    exact ⟨e', he', hr⟩
  | succ fuel ih =>
    intro hand pages i e' he' hr
    simp only [sweep] at he'
    -- every exit but the one that clears a bit hands the table back unchanged
    split at he'
    · exact ⟨e', he', hr⟩
    · split at he'
      · exact ⟨e', he', hr⟩
      · split at he'
        · exact ⟨e', he', hr⟩
        · split at he'
          · exact ⟨e', he', hr⟩
          · split at he'
            · obtain ⟨e, he, hre⟩ := ih he' hr
              rcases Seq.getElem?_update pages _ ({ · with referenced := false }) i with hi | hi
              · rw [hi] at he
                exact ⟨e, he, hre⟩
              · -- the entry the sweep cleared is not referenced
                rw [hi, Option.map_eq_some_iff] at he
                obtain ⟨e₀, -, rfl⟩ := he
                cases hre
            · exact ⟨e', he', hr⟩

/-- Choosing a victim only clears referenced bits. -/
theorem selectVictim_referenced {p : Policy} {pages : PageTable} {i : Nat} {e' : PageEntry}
    (he' : (p.selectVictim frames pages).2.2[i]? = some e') (hr : e'.referenced = true) :
    ∃ e, pages[i]? = some e ∧ e.referenced = true := by
  cases p with
  | fifo count cursor =>
    simp only [selectVictim] at he'
    split at he' <;> exact ⟨e', he', hr⟩
  | clock count hand =>
    rw [selectVictim_clock] at he'
    exact sweep_referenced _ _ he' hr
  | optimal idx position => exact ⟨e', he', hr⟩

end Policy

namespace Board

variable {b b' : Board}

/-- The swap space has handed out no more slots than it has. -/
def SlotsWithin (b : Board) : Prop := (b.swap.used : Int) ≤ b.swap.capacity

/-- The board after the policy has chosen a victim frame: the policy's new
state, and the page table with the referenced bits the choice cleared. -/
def afterChoice (b : Board) : Board :=
  { b with
    policy := (b.policy.selectVictim b.frames b.pages).2.1
    pages := (b.policy.selectVictim b.frames b.pages).2.2 }

/-- The page in the frame the policy `p` picks from board `b` is dirty and
has never been written out. -/
def VictimUnsaved (b : Board) (p : Policy) : Prop :=
  ∃ (f u : Nat) (fe : FrameEntry) (e : PageEntry), (p.selectVictim b.frames b.pages).1 = .ok (f : Int) ∧
    b.frames[f]? = some fe ∧ fe.owner = some (u : Int) ∧ b.table[u]? = some e ∧
    e.dirty = true ∧ e.onDisk = false

/-- Choosing a victim changes the page table's entries in their referenced
bits alone. -/
theorem afterChoice_table : b.afterChoice.table = b.table := Policy.selectVictim_unreferenced

/-- Once the victim's frame, owner and entry are known, the victim is unsaved
exactly when that entry is dirty and not on disk. -/
theorem victimUnsaved_iff {p : Policy} {f u : Nat} {fe : FrameEntry} {e : PageEntry}
    (hs : (p.selectVictim b.frames b.pages).1 = .ok (f : Int)) (hfe : b.frames[f]? = some fe)
    (hown : fe.owner = some (u : Int)) (hu : b.table[u]? = some e) :
    b.VictimUnsaved p ↔ e.dirty = true ∧ e.onDisk = false := by
  constructor
  · rintro ⟨f', u', fe', e', hs', hfe', hown', hu', hd, hdisk⟩
    rw [hs] at hs'
    obtain rfl : f = f' := by injection hs' with h; omega
    rw [hfe] at hfe'
    cases hfe'
    rw [hown] at hown'
    obtain rfl : u = u' := by injection hown' with h; omega
    rw [hu] at hu'
    cases hu'
    exact ⟨hd, hdisk⟩
  · rintro ⟨hd, hdisk⟩
    exact ⟨f, u, fe, e, hs, hfe, hown, hu, hd, hdisk⟩

/-! ## Eviction -/

section Evict

variable {u f : Nat} {fe : FrameEntry} {e : PageEntry}

/-- Evicting a frame with an owner reads the owner's entry, saves the frame
when that entry is dirty, and detaches the frame. -/
theorem evict_run_owned (h : b.Sound none) (hfe : b.frames[f]? = some fe)
    (hown : fe.owner = some (u : Int)) (hu : b.table[u]? = some e) :
    ∃ page : PageEntry, page.unreferenced = e ∧ (f : Int) ≤ maxLength ∧
      (evict f).run b = (do
        if page.dirty then saveFrame f fe u page
        detach f u).run b := by
  obtain ⟨v, hv, hufit, -⟩ := h.residency.owned f fe u hfe hown (by simp)
  have hf : f < b.frames.size := (Array.getElem?_eq_some_iff.mp hfe).1
  have hfit : (f : Int) ≤ maxLength := by have := h.shape.frames_fit; omega
  rw [getElem?_table, Option.map_eq_some_iff] at hu
  obtain ⟨page, hpage, rfl⟩ := hu
  have hulen : u < b.pages.size := (Array.getElem?_eq_some_iff.mp hpage).1
  have hfe' : b.frames[f] = fe := Option.some.inj ((Array.getElem?_eq_getElem hf).symm.trans hfe)
  have hpu : b.pages[u] = page := Option.some.inj ((Array.getElem?_eq_getElem hulen).symm.trans hpage)
  refine ⟨page, rfl, hfit, ?_⟩
  simp only [evict, EStateM.run_bind, frameAt_run hf hfit, hfe', hown, pageAt_run hulen (by omega), hpu]

/-- Evicting a dirty page that has never been written out, with every slot
taken, fails at once and changes nothing. -/
theorem evict_run_of_full (h : b.Sound none) (hfe : b.frames[f]? = some fe)
    (hown : fe.owner = some (u : Int)) (hu : b.table[u]? = some e) (hdirty : e.dirty = true)
    (hdisk : e.onDisk = false) (hcap : b.swap.capacity ≤ b.swap.used) :
    (evict f).run b = .error (.swapFull b.swap.capacity) b := by
  obtain ⟨page, rfl, -, hrun⟩ := evict_run_owned h hfe hown hu
  simp only [PageEntry.dirty_unreferenced, PageEntry.onDisk_unreferenced] at hdirty hdisk
  simp only [hrun, EStateM.run_bind, hdirty, if_true, saveFrame, hdisk, allocateSlot_run_of_full hcap]

/-- Evicting a clean page only detaches it: it succeeds and leaves the swap
space alone. -/
theorem evict_run_of_clean (h : b.Sound none) (hfe : b.frames[f]? = some fe)
    (hown : fe.owner = some (u : Int)) (hu : b.table[u]? = some e) (hclean : e.dirty = false) :
    ∃ b', (evict f).run b = .ok () b' ∧ b'.swap = b.swap := by
  obtain ⟨page, rfl, hfit, hrun⟩ := evict_run_owned h hfe hown hu
  simp only [PageEntry.dirty_unreferenced] at hclean
  obtain ⟨b', hdetach, hd, -, -⟩ := detach_run (u := u) hfe hfit
  refine ⟨b', ?_, hd.swap⟩
  simp only [hrun, hclean]
  exact hdetach

/-- The only way an eviction fails: its page is dirty and has never been
written out, and every slot is taken.  It then fails for want of a slot and
changes nothing. -/
theorem evict_run_error_iff (h : b.Sound none) (hfe : b.frames[f]? = some fe)
    (hown : fe.owner = some (u : Int)) (hu : b.table[u]? = some e) {err : Fault} :
    (evict f).run b = .error err b' ↔ e.dirty = true ∧ e.onDisk = false ∧
      b.swap.capacity ≤ b.swap.used ∧ err = .swapFull b.swap.capacity ∧ b' = b := by
  constructor
  · intro hrun
    cases hdirty : e.dirty with
    | false =>
      obtain ⟨b'', hrun', -⟩ := evict_run_of_clean h hfe hown hu hdirty
      rw [hrun] at hrun'
      cases hrun'
    | true =>
      rcases evict_spec h hfe hown hu with ⟨b'', hrun', -⟩ | ⟨hdisk, hcap, hrun'⟩
      · rw [hrun] at hrun'
        cases hrun'
      · rw [hrun] at hrun'
        cases hrun'
        exact ⟨rfl, hdisk, hcap, rfl, rfl⟩
  · rintro ⟨hdirty, hdisk, hcap, rfl, rfl⟩
    exact evict_run_of_full h hfe hown hu hdirty hdisk hcap

/-- An eviction that succeeds hands out a slot only when one is left. -/
theorem evict_slots_within (h : b.Sound none) (hfe : b.frames[f]? = some fe)
    (hown : fe.owner = some (u : Int)) (hu : b.table[u]? = some e) (hw : b.SlotsWithin)
    (hrun : (evict f).run b = .ok () b') : b'.SlotsWithin := by
  rcases evict_spec h hfe hown hu with
    ⟨b'', hrun', h'', -, hg, -, -, -, -, hused⟩ | ⟨-, -, hrun'⟩
  · rw [hrun] at hrun'
    cases hrun'
    have hcap : b'.swap.capacity = b.swap.capacity := by
      rw [h''.shape.swap_capacity, hg, h.shape.swap_capacity]
    unfold SlotsWithin at hw ⊢
    rw [hcap]
    rcases hused with hsame | ⟨hgrow, hdisk⟩
    · rw [hsame]
      exact hw
    · -- a slot was handed out, so one was left: with none left the eviction
      -- would have failed (dirty page) or left the swap space alone (clean page)
      rw [hgrow]
      by_cases hfull : b.swap.capacity ≤ b.swap.used
      · exfalso
        cases hdirty : e.dirty with
        | true =>
          rw [evict_run_of_full h hfe hown hu hdirty hdisk hfull] at hrun
          cases hrun
        | false =>
          obtain ⟨b'', hrun'', hswap⟩ := evict_run_of_clean h hfe hown hu hdirty
          rw [hrun] at hrun''
          cases hrun''
          rw [hswap] at hgrow
          omega
      · omega
  · rw [hrun] at hrun'
    cases hrun'

end Evict

/-! ## Taking a frame -/

/-- While some frame has never been used, taking a frame hands it out. -/
theorem takeFrame_run_of_fresh (hlt : b.fresh < b.frames.size) :
    takeFrame.run b = .ok (b.fresh : Int) { b with fresh := b.fresh + 1 } := by
  simp only [takeFrame, EStateM.run_bind, EStateM.run_get, if_pos hlt]
  rfl

/-- With every frame in use, taking a frame evicts the page of the frame the
policy picks, on the board its choice leaves. -/
theorem takeFrame_run_of_full (h : b.Sound none) (hF : b.fresh = b.frames.size) :
    ∃ (f u : Nat) (fe : FrameEntry) (e : PageEntry),
      (b.policy.selectVictim b.frames b.pages).1 = .ok (f : Int) ∧ b.frames[f]? = some fe ∧
      fe.owner = some (u : Int) ∧ b.table[u]? = some e ∧ b.afterChoice.Sound none ∧
      takeFrame.run b = (evict f >>= fun _ => pure (f : Int)).run b.afterChoice := by
  obtain ⟨f, b₁, hf, hrun₁, h₁, -⟩ := selectVictim_spec h
  -- the board the choice leaves is `afterChoice`
  obtain ⟨hs, rfl⟩ : (b.policy.selectVictim b.frames b.pages).1 = .ok (f : Int) ∧ b₁ = b.afterChoice := by
    cases hs : (b.policy.selectVictim b.frames b.pages).1 with
    | ok f' =>
      rw [selectVictim_run_ok hs] at hrun₁
      cases hrun₁
      exact ⟨rfl, rfl⟩
    | error e =>
      rw [selectVictim_run_error hs] at hrun₁
      cases hrun₁
  -- every frame is in use, so the victim has an owner
  obtain ⟨fe, hfe⟩ : ∃ fe, b.frames[f]? = some fe := ⟨_, Array.getElem?_eq_getElem hf⟩
  obtain ⟨o, hown⟩ : ∃ o, fe.owner = some o :=
    Option.ne_none_iff_exists'.mp ((h.residency.used_iff f fe hfe (by simp)).mpr (by omega))
  obtain ⟨u, rfl, -, e, hu, -⟩ := h.residency.owned f fe o hfe hown (by simp)
  refine ⟨f, u, fe, e, hs, hfe, hown, hu, h₁, ?_⟩
  simp only [takeFrame, EStateM.run_bind, EStateM.run_get,
    if_neg (show ¬ b.fresh < b.frames.size by omega), selectVictim_run_ok hs]
  rfl

/-- The only way taking a frame fails: every frame is in use, the policy's
victim is dirty and has never been written out, and every slot is taken.  It
then fails for want of a slot, leaving the board as the policy's choice left
it. -/
theorem takeFrame_run_error_iff (h : b.Sound none) {err : Fault} :
    takeFrame.run b = .error err b' ↔ b.fresh = b.frames.size ∧ b.VictimUnsaved b.policy ∧
      b.swap.capacity ≤ b.swap.used ∧ err = .swapFull b.swap.capacity ∧ b' = b.afterChoice := by
  by_cases hlt : b.fresh < b.frames.size
  · rw [takeFrame_run_of_fresh hlt]
    constructor
    · intro hrun
      cases hrun
    · rintro ⟨hF, -⟩
      omega
  · have hF : b.fresh = b.frames.size := Nat.le_antisymm h.residency.fresh_le (by omega)
    obtain ⟨f, u, fe, e, hs, hfe, hown, hu, h₁, hrun⟩ := takeFrame_run_of_full h hF
    have hu₁ : b.afterChoice.table[u]? = some e := by rw [afterChoice_table]; exact hu
    have hvictim := victimUnsaved_iff hs hfe hown hu
    rw [hrun, EStateM.run_bind]
    cases hev : (evict f).run b.afterChoice with
    | ok _ b₂ =>
      -- the eviction went through, so the victim was not unsaved with no slot left
      have hnot : (evict f).run b.afterChoice ≠ .error (.swapFull b.swap.capacity) b.afterChoice := by
        rw [hev]
        intro he
        cases he
      constructor
      · intro hrun'
        cases hrun'
      · rintro ⟨-, hun, hcap, -⟩
        obtain ⟨hd, hdisk⟩ := hvictim.mp hun
        exact absurd (evict_run_of_full h₁ hfe hown hu₁ hd hdisk hcap) hnot
    | error e₂ b₂ =>
      obtain ⟨hd, hdisk, hcap, rfl, rfl⟩ := (evict_run_error_iff h₁ hfe hown hu₁).mp hev
      constructor
      · intro hrun'
        cases hrun'
        exact ⟨hF, hvictim.mpr ⟨hd, hdisk⟩, hcap, rfl, rfl⟩
      · rintro ⟨-, -, -, rfl, rfl⟩
        rfl

/-- Taking a frame hands out a slot only when one is left. -/
theorem takeFrame_slots_within (h : b.Sound none) (hw : b.SlotsWithin) {f : Int}
    (hrun : takeFrame.run b = .ok f b') : b'.SlotsWithin := by
  by_cases hlt : b.fresh < b.frames.size
  · rw [takeFrame_run_of_fresh hlt] at hrun
    cases hrun
    exact hw
  · have hF : b.fresh = b.frames.size := Nat.le_antisymm h.residency.fresh_le (by omega)
    obtain ⟨f, u, fe, e, -, hfe, hown, hu, h₁, hrun'⟩ := takeFrame_run_of_full h hF
    have hu₁ : b.afterChoice.table[u]? = some e := by rw [afterChoice_table]; exact hu
    rw [hrun', EStateM.run_bind] at hrun
    cases hev : (evict f).run b.afterChoice with
    | ok _ b₂ =>
      rw [hev] at hrun
      cases hrun
      exact evict_slots_within h₁ hfe hown hu₁ hw hev
    | error e₂ b₂ =>
      rw [hev] at hrun
      cases hrun

/-! ## A fault -/

/-- A fault on a page out of RAM fails exactly when taking a frame does, once
the fault is counted: filling and installing the page never fail. -/
theorem handleFault_run_error_iff {v : Nat} {e : PageEntry} (h : b.Sound none)
    (hv : b.table[v]? = some e) (hr : e.resident = false) (hvfit : (v : Int) ≤ maxLength)
    {err : Fault} :
    (handleFault v).run b = .error err b' ↔
      takeFrame.run { b with stats.faults := b.stats.faults + 1 } = .error err b' := by
  have h₀ := h.countFault
  have hrun : (handleFault v).run b = (takeFrame >>= fun f => fillFrame v f >>= fun _ => install v f).run
      { b with stats.faults := b.stats.faults + 1 } := rfl
  rw [hrun, EStateM.run_bind]
  rcases takeFrame_spec h₀ hv hr with ⟨f, b₁, hrun₁, h₁, -, -, -, hv₁, -⟩ | ⟨-, b₁, hrun₁, -⟩
  · obtain ⟨b₂, hrun₂, -⟩ := fill_run h₁ hv₁ hr hvfit
    rw [hrun₁]
    dsimp only
    rw [hrun₂]
    constructor <;> intro hrun' <;> cases hrun'
  · -- the results differ only in their type
    rw [hrun₁]
    simp only [EStateM.Result.error.injEq]

/-- A fault that succeeds hands out a slot only when one is left. -/
theorem handleFault_slots_within {v : Nat} {e : PageEntry} (h : b.Sound none)
    (hv : b.table[v]? = some e) (hr : e.resident = false) (hvfit : (v : Int) ≤ maxLength)
    (hw : b.SlotsWithin) (hrun : (handleFault v).run b = .ok () b') : b'.SlotsWithin := by
  have h₀ := h.countFault
  have hrun' : (handleFault v).run b = (takeFrame >>= fun f => fillFrame v f >>= fun _ => install v f).run
      { b with stats.faults := b.stats.faults + 1 } := rfl
  rw [hrun', EStateM.run_bind] at hrun
  rcases takeFrame_spec h₀ hv hr with ⟨f, b₁, hrun₁, h₁, -, -, -, hv₁, -⟩ | ⟨-, b₁, hrun₁, -⟩
  · obtain ⟨b₂, hrun₂, hi, -⟩ := fill_run h₁ hv₁ hr hvfit
    rw [hrun₁] at hrun
    dsimp only at hrun
    rw [hrun₂] at hrun
    cases hrun
    unfold SlotsWithin
    rw [hi.swap]
    exact takeFrame_slots_within h₀ hw hrun₁
  · rw [hrun₁] at hrun
    cases hrun

/-! ## An access -/

/-- The board an access to page `v` of `b` goes on with once it is inside the
address space: the access counted, and the page recorded and shown to the
policy. -/
def shown (b : Board) (v : Nat) : Board :=
  { b with
    stats.accesses := b.stats.accesses + 1
    recording := b.recording.map (·.push (v : Int))
    policy := b.policy.observe }

/-- Showing an access to the policy touches nothing the invariant reads. -/
theorem Consistent.shown_sound (h : b.Consistent) (v : Nat) : (b.shown v).Sound none :=
  h.sound.congr rfl rfl rfl rfl rfl rfl (Policy.observe_fits h.sound.shape.policy_fits)
    (h.sound.residency.congr rfl rfl rfl)

/-- An access to page `v` of board `b` runs out of swap: the page is out of
RAM, every frame is in use, the page in the frame the policy picks (once
shown the access) is dirty and has never been written out, and every swap
slot is taken. -/
structure RunsOutOfSwap (b : Board) (v : Nat) : Prop where
  absent : ∃ e, b.table[v]? = some e ∧ e.resident = false
  full : b.fresh = b.frames.size
  victim : b.VictimUnsaved b.policy.observe
  slots : (b.swap.used : Int) = b.swap.capacity

/-- The board an access to page `v` of `b` leaves when it runs out of swap:
the access and the fault counted, the page recorded, and the policy's state
and the referenced bits as its choice of victim left them. -/
def outOfSwap (b : Board) (v : Nat) : Board :=
  { b with
    stats := { b.stats with accesses := b.stats.accesses + 1, faults := b.stats.faults + 1 }
    recording := b.recording.map (·.push (v : Int))
    policy := (b.policy.observe.selectVictim b.frames b.pages).2.1
    pages := (b.policy.observe.selectVictim b.frames b.pages).2.2 }

/-- Running out of swap changes the page table's entries in their referenced
bits alone. -/
theorem outOfSwap_table (b : Board) (v : Nat) : (b.outOfSwap v).table = b.table :=
  Policy.selectVictim_unreferenced

/-- Running out of swap only clears referenced bits, those the clock passed. -/
theorem outOfSwap_referenced {v i : Nat} {e' : PageEntry} (he' : (b.outOfSwap v).pages[i]? = some e')
    (hr : e'.referenced = true) : ∃ e, b.pages[i]? = some e ∧ e.referenced = true :=
  Policy.selectVictim_referenced he' hr

/-- Outside the address space an access fails at once, having counted
itself and changed nothing else. -/
theorem translate_run_beyond (hP : 0 < b.geometry.pageSize) {a : Int}
    (ha : ¬ (0 ≤ a ∧ a < b.pages.size * b.geometry.pageSize)) (write : Bool) :
    (translate a write).run b = .error (.addressBeyondSpace a ((b.pages.size : Int) - 1))
      { b with stats.accesses := b.stats.accesses + 1 } := by
  have hout : ¬ (0 ≤ a.fdiv b.geometry.pageSize ∧ a.fdiv b.geometry.pageSize < b.pages.size) :=
    fun hin => ha ((fdiv_mem_iff hP).mp hin)
  simp only [translate, EStateM.run_bind, EStateM.run_modify, EStateM.run_get, if_pos hout]
  rfl

/-- On the board an access has shown its page to, a fault on the page fails
exactly when the access runs out of swap, and leaves `outOfSwap`. -/
theorem shown_handleFault_error_iff (h : b.Consistent) (hw : b.SlotsWithin) {v : Nat}
    {e : PageEntry} (hv : b.table[v]? = some e) (hr : e.resident = false)
    (hvfit : (v : Int) ≤ maxLength) {err : Fault} :
    (handleFault v).run (b.shown v) = .error err b' ↔
      b.RunsOutOfSwap v ∧ err = .swapFull b.swap.capacity ∧ b' = b.outOfSwap v := by
  have hs := h.shown_sound v
  rw [handleFault_run_error_iff hs hv hr hvfit, takeFrame_run_error_iff hs.countFault]
  unfold SlotsWithin at hw
  -- the fault's board has `b`'s frames, table and swap space
  constructor
  · rintro ⟨hF, hun, hcap, rfl, rfl⟩
    have hcap' : b.swap.capacity ≤ b.swap.used := hcap
    exact ⟨⟨⟨e, hv, hr⟩, hF, hun, by omega⟩, rfl, rfl⟩
  · rintro ⟨⟨-, hF, hun, hslots⟩, rfl, rfl⟩
    exact ⟨hF, hun, show b.swap.capacity ≤ b.swap.used by omega, rfl, rfl⟩

/-- Within the address space an access counts itself, records its page and
shows it to the policy; the rest of it runs on that board. -/
theorem translate_run_shown (h : b.Consistent) {m : Nat}
    (hm : (m : Int) < b.table.size * b.geometry.pageSize) (write : Bool) :
    (translate m write).run b = (do
      let page ← pageAt (m / b.pageWords : Nat)
      if !page.resident then handleFault (m / b.pageWords : Nat)
      modifyPage (m / b.pageWords : Nat) fun e => { e with referenced := true, dirty := e.dirty || write }
      let page ← pageAt (m / b.pageWords : Nat)
      pure (page.location * b.geometry.pageSize + ((m % b.pageWords : Nat) : Int))).run
        (b.shown (m / b.pageWords)) := by
  have hP := h.sound.shape.pageSize_pos
  obtain ⟨hdiv, hmod⟩ := h.sound.shape.fdiv_fmod_natCast m
  have hin : 0 ≤ (m : Int).fdiv b.geometry.pageSize ∧ (m : Int).fdiv b.geometry.pageSize < b.pages.size := by
    rw [fdiv_mem_iff hP, ← size_table]
    exact ⟨Int.natCast_nonneg m, hm⟩
  simp only [translate, EStateM.run_bind, EStateM.run_modify, EStateM.run_get]
  rw [if_neg (fun hn => hn hin), hdiv, hmod]
  rfl

/-- The page of an address in the address space lies in the page table. -/
theorem page_lt (h : b.Consistent) {m : Nat} (hm : (m : Int) < b.table.size * b.geometry.pageSize) :
    m / b.pageWords < b.pages.size := by
  have hP := h.sound.shape.pageSize_pos
  have hlt := ((fdiv_mem_iff hP).mpr ⟨Int.natCast_nonneg m, by rwa [size_table] at hm⟩).2
  rw [(fdiv_natCast (m := m) hP).1] at hlt
  exact_mod_cast hlt

/-- An access to a resident page marks it and answers. -/
theorem translate_run_resident (h : b.Consistent) {m : Nat}
    (hm : (m : Int) < b.table.size * b.geometry.pageSize)
    (hfit : ((m / b.pageWords : Nat) : Int) ≤ maxLength) {e : PageEntry}
    (hv : b.table[m / b.pageWords]? = some e) (hr : e.resident = true) (write : Bool) :
    (translate m write).run b = .ok (e.location * b.geometry.pageSize + ((m % b.pageWords : Nat) : Int))
      { b.shown (m / b.pageWords) with
        pages := Seq.update b.pages (m / b.pageWords : Nat)
          fun e => { e with referenced := true, dirty := e.dirty || write } } := by
  have hlt : m / b.pageWords < (b.shown (m / b.pageWords)).pages.size := page_lt h hm
  have hv₂ : (b.shown (m / b.pageWords)).table[m / b.pageWords]? = some e := hv
  rw [translate_run_shown h hm write]
  simp only [EStateM.run_bind]
  rw [pageAt_run hlt hfit]
  have hres : (b.shown (m / b.pageWords)).pages[m / b.pageWords].resident = true := by
    rw [getElem?_table, Array.getElem?_eq_getElem hlt] at hv₂
    cases hv₂
    simpa using hr
  dsimp only
  rw [hres, if_neg (show ¬ (!true) = true from Bool.false_ne_true), finish_run hv₂ hfit]
  rfl

/-- An access to a page out of RAM faults it in on the board the access has
shown the page to, then marks it and answers. -/
theorem translate_run_absent (h : b.Consistent) {m : Nat}
    (hm : (m : Int) < b.table.size * b.geometry.pageSize)
    (hfit : ((m / b.pageWords : Nat) : Int) ≤ maxLength) {e : PageEntry}
    (hv : b.table[m / b.pageWords]? = some e) (hr : e.resident = false) (write : Bool) :
    (translate m write).run b = (do
      handleFault (m / b.pageWords : Nat)
      modifyPage (m / b.pageWords : Nat) fun e => { e with referenced := true, dirty := e.dirty || write }
      let page ← pageAt (m / b.pageWords : Nat)
      pure (page.location * b.geometry.pageSize + ((m % b.pageWords : Nat) : Int))).run
        (b.shown (m / b.pageWords)) := by
  have hlt : m / b.pageWords < (b.shown (m / b.pageWords)).pages.size := page_lt h hm
  have hv₂ : (b.shown (m / b.pageWords)).table[m / b.pageWords]? = some e := hv
  rw [translate_run_shown h hm write]
  simp only [EStateM.run_bind]
  rw [pageAt_run hlt hfit]
  have hres : (b.shown (m / b.pageWords)).pages[m / b.pageWords].resident = false := by
    rw [getElem?_table, Array.getElem?_eq_getElem hlt] at hv₂
    cases hv₂
    simpa using hr
  dsimp only
  rw [hres, if_pos (show (!false) = true from rfl)]
  rfl

/-- After a fault that succeeds the page is resident, and the access answers. -/
theorem translate_run_of_handleFault (h : b.Consistent) {m : Nat}
    (hm : (m : Int) < b.table.size * b.geometry.pageSize)
    (hfit : ((m / b.pageWords : Nat) : Int) ≤ maxLength) {e : PageEntry}
    (hv : b.table[m / b.pageWords]? = some e) (hr : e.resident = false) (write : Bool) {b₃ : Board}
    (hhf : (handleFault (m / b.pageWords : Nat)).run (b.shown (m / b.pageWords)) = .ok () b₃) :
    ∃ p, (translate m write).run b = .ok p
      { b₃ with
        pages := Seq.update b₃.pages (m / b.pageWords : Nat)
          fun e => { e with referenced := true, dirty := e.dirty || write } } := by
  rcases handleFault_spec (h.shown_sound _) h.counted hv hr hfit with
    ⟨b₃', hrun₃, -, -, -, -, -, e', hv₃, -⟩ | ⟨b₃', hrun₃, -⟩
  · rw [hhf] at hrun₃
    cases hrun₃
    rw [translate_run_absent h hm hfit hv hr write, EStateM.run_bind, hhf]
    exact ⟨_, finish_run hv₃ hfit _ _ _⟩
  · rw [hhf] at hrun₃
    cases hrun₃

/-- Within the address space, at a page index a sequence can have, an access
fails only for want of a swap slot, exactly when it runs out of swap, and it
then leaves `outOfSwap`. -/
theorem translate_run_error_iff (h : b.Consistent) (hw : b.SlotsWithin) {m : Nat}
    (hm : (m : Int) < b.table.size * b.geometry.pageSize)
    (hfit : ((m / b.pageWords : Nat) : Int) ≤ maxLength) (write : Bool) {err : Fault} :
    (translate m write).run b = .error err b' ↔
      b.RunsOutOfSwap (m / b.pageWords) ∧ err = .swapFull b.swap.capacity ∧
        b' = b.outOfSwap (m / b.pageWords) := by
  obtain ⟨e, hv⟩ : ∃ e, b.table[m / b.pageWords]? = some e :=
    ⟨_, Array.getElem?_eq_getElem (by rw [size_table]; exact page_lt h hm)⟩
  cases hr : e.resident with
  | true =>
    rw [translate_run_resident h hm hfit hv hr write]
    constructor
    · intro hrun
      cases hrun
    · rintro ⟨hout, -⟩
      obtain ⟨e', he', hr'⟩ := hout.absent
      rw [hv] at he'
      cases he'
      rw [hr] at hr'
      cases hr'
  | false =>
    have hkey : (handleFault (m / b.pageWords : Nat)).run (b.shown (m / b.pageWords)) = .error err b' ↔ _ :=
      shown_handleFault_error_iff h hw hv hr hfit
    cases hhf : (handleFault (m / b.pageWords : Nat)).run (b.shown (m / b.pageWords)) with
    | ok _ b₃ =>
      rw [hhf] at hkey
      obtain ⟨p, hrun⟩ := translate_run_of_handleFault h hm hfit hv hr write hhf
      rw [hrun]
      constructor
      · intro hrun'
        cases hrun'
      · intro hout
        cases hkey.mpr hout
    | error e₃ b₃ =>
      rw [hhf] at hkey
      rw [translate_run_absent h hm hfit hv hr write, EStateM.run_bind, hhf]
      simp only [EStateM.Result.error.injEq] at hkey ⊢
      exact hkey

/-- An access keeps the slots handed out within the capacity, answered or
refused. -/
theorem translate_slots_within (h : b.Consistent) (hw : b.SlotsWithin) (a : Int) (write : Bool) :
    (finalState ((translate a write).run b)).SlotsWithin := by
  have hP := h.sound.shape.pageSize_pos
  by_cases hin : 0 ≤ a ∧ a < b.pages.size * b.geometry.pageSize
  · obtain ⟨m, rfl⟩ := Int.eq_ofNat_of_zero_le hin.1
    have hm : (m : Int) < b.table.size * b.geometry.pageSize := by rw [size_table]; exact hin.2
    have hlt := page_lt h hm
    by_cases hfit : ((m / b.pageWords : Nat) : Int) ≤ maxLength
    swap
    · -- a page index too large to use is refused before anything else
      rw [translate_run_shown h hm write, EStateM.run_bind, pageAt_run_overflow (by omega)]
      exact hw
    obtain ⟨e, hv⟩ : ∃ e, b.table[m / b.pageWords]? = some e :=
      ⟨_, Array.getElem?_eq_getElem (by rw [size_table]; exact hlt)⟩
    cases hr : e.resident with
    | true =>
      rw [translate_run_resident h hm hfit hv hr write]
      exact hw
    | false =>
      cases hhf : (handleFault (m / b.pageWords : Nat)).run (b.shown (m / b.pageWords)) with
      | ok _ b₃ =>
        have hw₃ := handleFault_slots_within (h.shown_sound _) hv hr hfit hw hhf
        obtain ⟨p, hrun⟩ := translate_run_of_handleFault h hm hfit hv hr write hhf
        rw [hrun]
        exact hw₃
      | error e₃ b₃ =>
        have hrun : (translate m write).run b = .error e₃ b₃ := by
          rw [translate_run_absent h hm hfit hv hr write, EStateM.run_bind, hhf]
        obtain ⟨-, -, rfl⟩ := (translate_run_error_iff h hw hm hfit write).mp hrun
        rw [hrun]
        exact hw
  · rw [translate_run_beyond hP hin]
    exact hw

/-- A read fails exactly as its translation does: the word it then reads is
in RAM. -/
theorem readWord_run_error_iff (h : b.Consistent) (a : Int) {err : Fault} :
    (readWord a).run b = .error err b' ↔ (translate a false).run b = .error err b' := by
  cases ht : (translate a false).run b with
  | ok p b₁ =>
    obtain ⟨x, hx⟩ := readWord_of_translate h ht
    rw [hx]
    constructor <;> intro hrun <;> cases hrun
  | error e b₁ =>
    simp only [readWord, EStateM.run_bind, ht]

/-- A write fails exactly as its translation does: the word it then stores is
in RAM. -/
theorem writeWord_run_error_iff (h : b.Consistent) (a v : Int) {err : Fault} :
    (writeWord a v).run b = .error err b' ↔ (translate a true).run b = .error err b' := by
  cases ht : (translate a true).run b with
  | ok p b₁ =>
    obtain ⟨ram, hw⟩ := writeWord_of_translate h v ht
    rw [hw]
    constructor <;> intro hrun <;> cases hrun
  | error e b₁ =>
    simp only [writeWord, EStateM.run_bind, ht, EStateM.Result.error.injEq]

theorem readWord_slots_within (h : b.Consistent) (hw : b.SlotsWithin) (a : Int) :
    (finalState ((readWord a).run b)).SlotsWithin := by
  have ht := translate_slots_within h hw a false
  cases hrun : (translate a false).run b with
  | ok p b₁ =>
    obtain ⟨x, hx⟩ := readWord_of_translate h hrun
    rw [hrun] at ht
    rw [hx]
    exact ht
  | error e b₁ =>
    rw [hrun] at ht
    simp only [readWord, EStateM.run_bind, hrun]
    exact ht

theorem writeWord_slots_within (h : b.Consistent) (hw : b.SlotsWithin) (a v : Int) :
    (finalState ((writeWord a v).run b)).SlotsWithin := by
  have ht := translate_slots_within h hw a true
  cases hrun : (translate a true).run b with
  | ok p b₁ =>
    obtain ⟨ram, hx⟩ := writeWord_of_translate h v hrun
    rw [hrun] at ht
    rw [hx]
    exact ht
  | error e b₁ =>
    rw [hrun] at ht
    simp only [writeWord, EStateM.run_bind, hrun]
    exact ht

end Board

end DemandPaging
