import DemandPaging.Proofs.Refusal

/-!
# What one translation counts

The pager keeps four counters: accesses, faults, reads from swap and writes to
swap.  Each is bumped at its own depth of a translation, some before and some
after steps that can fail.  This module says what one translation adds to
them, in terms of what it did, read off the board it started on and the board
it left (`Translation.observe`):

* every translation is an access, whether it returns or fails;
* it is a fault when its address lies in the address space and its page was
  out of RAM, whether or not the fault was then served;
* it reads from swap when that fault was served and the page was on disk;
* it writes to swap when a page that was in RAM and dirty has left RAM.

`translate_accounts` proves the four counts on a consistent board whose pages
a sequence can index, together with what a translation can have done: it
reads from swap or takes a frame never used only when it faulted, and it
drops a dirty page only at a fault that found every frame in use.  It is
assembled from one lemma per step of a fault: evicting the page of a frame
(`evict_counts`), taking a frame (`takeFrame_counts`), and the fault as a whole
(`handleFault_counts`).  The counters themselves are followed along the few
paths where a step can still fail by the run lemmas of
`DemandPaging.Proofs.Refusal`, which say where each failure leaves the board.
-/

namespace DemandPaging

namespace Board

/-- Page `u` is in RAM. -/
def holds (b : Board) (u : Nat) : Bool := b.pages[u]?.any (·.resident)

/-- Page `u` is in RAM and has been written since it came in. -/
def holdsDirty (b : Board) (u : Nat) : Bool := b.pages[u]?.any fun e => e.resident && e.dirty

/-- Some page that was in RAM and dirty on `b` is out of RAM on `b'`. -/
def dropsDirty (b b' : Board) : Bool :=
  (List.range b.pages.size).any fun u => b.holdsDirty u && !b'.holds u

end Board

/-- What one translation of an address did. -/
structure Translation where
  /-- The address lay in the address space and its page was out of RAM. -/
  fault : Bool
  /-- The fault was served, and its page read from swap. -/
  diskRead : Bool
  /-- The fault came while some frame had never been used. -/
  freshFrame : Bool
  /-- A page that was in RAM and dirty left RAM. -/
  dirtyEviction : Bool
  deriving DecidableEq, Repr

namespace Translation

/-- What the translation of address `a` did, from the board `b` it started on
to the board `b'` it left, whether it returned or failed. -/
def observe (b : Board) (a : Int) (b' : Board) : Translation :=
  let v := a.fdiv b.geometry.pageSize
  let fault := decide (0 ≤ v) && b.pages[v.toNat]?.any (!·.resident)
  { fault
    diskRead := fault && b.pages[v.toNat]?.any (·.onDisk) && b'.holds v.toNat
    freshFrame := fault && decide (b.fresh < b.frames.size)
    dirtyEviction := b.dropsDirty b' }

/-- What a translation can have done: it reads from swap or finds a frame never
used only when it faulted, and it drops a dirty page only at a fault that found
every frame in use. -/
structure Possible (t : Translation) : Prop where
  diskRead : t.diskRead = true → t.fault = true
  freshFrame : t.freshFrame = true → t.fault = true
  dirtyEviction : t.dirtyEviction = true → t.fault = true ∧ t.freshFrame = false

end Translation

/-- The counters after one more translation `t`. -/
def Statistics.count (s : Statistics) (t : Translation) : Statistics where
  accesses := s.accesses + 1
  faults := s.faults + t.fault.toNat
  diskReads := s.diskReads + t.diskRead.toNat
  diskWrites := s.diskWrites + t.dirtyEviction.toNat

/-- The counters moved from `s` to `s'` by the translation `t`, and `t` is one
a translation can have done. -/
structure Accounts (s s' : Statistics) (t : Translation) : Prop where
  count : s' = s.count t
  possible : t.Possible

/-- A translation that was no fault and dropped no dirty page counts the access
alone. -/
theorem Statistics.count_access (s : Statistics) {t : Translation} (hf : t.fault = false) (ht : t.Possible)
    (hd : t.dirtyEviction = false) : s.count t = { s with accesses := s.accesses + 1 } := by
  have hr : t.diskRead = false := by
    cases hr : t.diskRead with
    | false => rfl
    | true => exact absurd (ht.diskRead hr) (by rw [hf]; decide)
  simp [Statistics.count, hf, hr, hd]

namespace Board

variable {b b' c c' : Board}

/-! ## What is in RAM -/

/-- A test of a page's entry that ignores its referenced bit reads the same
off the page table. -/
theorem any_pages_eq_table {p : PageEntry → Bool} (hp : ∀ e, p e.unreferenced = p e) (u : Nat) :
    b.pages[u]?.any p = b.table[u]?.any p := by
  rw [getElem?_table]
  cases b.pages[u]? with
  | none => rfl
  | some e => exact (hp e).symm

theorem holds_eq_table (b : Board) (u : Nat) : b.holds u = b.table[u]?.any (·.resident) :=
  any_pages_eq_table (fun _ => rfl) u

theorem holdsDirty_eq_table (b : Board) (u : Nat) :
    b.holdsDirty u = b.table[u]?.any fun e => e.resident && e.dirty :=
  any_pages_eq_table (fun _ => rfl) u

/-- A page of the page table is a page of the board. -/
theorem lt_size_of_table {u : Nat} {e : PageEntry} (h : b.table[u]? = some e) : u < b.pages.size := by
  rw [← size_table]
  exact (Array.getElem?_eq_some_iff.mp h).1

theorem holds_of_holdsDirty {u : Nat} (h : b.holdsDirty u = true) : b.holds u = true := by
  unfold holdsDirty at h
  unfold holds
  cases hp : b.pages[u]? with
  | none =>
    rw [hp] at h
    cases h
  | some e =>
    rw [hp] at h
    simp only [Option.any_some, Bool.and_eq_true] at h
    simp [h.1]

/-- Marking a page referenced or dirty leaves it where it was. -/
theorem holds_update_mark (pages : PageTable) (v : Int) (write : Bool) (u : Nat) :
    ({ b with pages := Seq.update pages v fun e => { e with referenced := true, dirty := e.dirty || write } } :
      Board).holds u = ({ b with pages } : Board).holds u := by
  unfold holds
  rcases Seq.getElem?_update pages v (fun e => { e with referenced := true, dirty := e.dirty || write }) u
    with h | h
  · rw [h]
  · rw [h]
    cases pages[u]? <;> rfl

/-! ## Dirty pages leaving RAM -/

/-- No dirty page left RAM when every page `b` held dirty is still held. -/
theorem dropsDirty_eq_false (h : ∀ u, b.holdsDirty u = true → b'.holds u = true) :
    b.dropsDirty b' = false := by
  rw [dropsDirty, List.any_eq_false]
  intro u _
  cases hd : b.holdsDirty u with
  | false => simp
  | true => simp [h u hd]

/-- No dirty page left RAM when every page is where it was. -/
theorem dropsDirty_self (hh : ∀ u, b'.holds u = b.holds u) : b.dropsDirty b' = false :=
  dropsDirty_eq_false fun u hu => by
    rw [hh]
    exact holds_of_holdsDirty hu

/-- When `u` alone may have left RAM among the pages `b` held dirty, a dirty
page left exactly when `u` was dirty and is gone. -/
theorem dropsDirty_eq_of_only {u : Nat} (hu : u < b.pages.size) (hout : b'.holds u = false)
    (hother : ∀ w, w ≠ u → b.holdsDirty w = true → b'.holds w = true) :
    b.dropsDirty b' = b.holdsDirty u := by
  cases hd : b.holdsDirty u with
  | true =>
    rw [dropsDirty, List.any_eq_true]
    exact ⟨u, List.mem_range.mpr hu, by simp [hd, hout]⟩
  | false =>
    refine dropsDirty_eq_false fun w hw => ?_
    by_cases hwu : w = u
    · rw [hwu, hd] at hw
      cases hw
    · exact hother w hwu hw

/-- Whether a dirty page left reads the board after only through what it
holds. -/
theorem dropsDirty_right (hh : ∀ u, c'.holds u = b'.holds u) : b.dropsDirty c' = b.dropsDirty b' := by
  simp only [dropsDirty, hh]

/-- A dirty page left between `b` and `c'` exactly when it did between `b`
and `b'`, when `c'` holds what `b'` holds and, besides, a page `v` that `b`
did not hold dirty. -/
theorem dropsDirty_add {v : Nat} (hv : b.holdsDirty v = false) (hh : ∀ w, c'.holds w = (b'.holds w || w == v)) :
    b.dropsDirty c' = b.dropsDirty b' := by
  unfold dropsDirty
  congr 1
  funext w
  rw [hh]
  by_cases hw : w = v
  · rw [hw, hv]
    rfl
  · rw [beq_false_of_ne hw, Bool.or_false]

/-- A save changes no page's presence in RAM. -/
theorem Saves.holds {u f s : Nat} {allocated : Bool} (hs : Saves c c' u f s allocated) (w : Nat) :
    c'.holds w = c.holds w := by
  rw [holds_eq_table, holds_eq_table, hs.entry]
  split
  · cases c.table[w]? <;> rfl
  · rfl

/-- Detaching `u` takes it, and no other page, out of RAM. -/
theorem Detaches.holds {u f : Nat} {fe : FrameEntry} (hd : Detaches c c' u f fe) (w : Nat) :
    c'.holds w = (c.holds w && w != u) := by
  rw [holds_eq_table, holds_eq_table, hd.entry]
  by_cases huw : u = w
  · subst huw
    cases c.table[u]? <;> simp
  · simp [huw, Ne.symm huw]

/-- Installing `v` brings it, and no other page, into RAM. -/
theorem Installs.holds {v f : Nat} {e : PageEntry} (hi : Installs c c' v f e) (hv : c.table[v]? = some e)
    (w : Nat) : c'.holds w = (c.holds w || w == v) := by
  rw [holds_eq_table, holds_eq_table, hi.entry]
  by_cases hvw : v = w
  · subst hvw
    simp [hv]
  · simp [hvw, Ne.symm hvw]

/-! ## The counters along a fault -/

/-- A sequence that returns ran its first action to a return, and the rest
from there. -/
theorem exists_of_run_bind_eq_ok {σ α β : Type} {x : EStateM Fault σ α} {g : α → EStateM Fault σ β}
    {s s' : σ} {y : β} (h : (x >>= g).run s = .ok y s') :
    ∃ a s₁, x.run s = .ok a s₁ ∧ (g a).run s₁ = .ok y s' := by
  rw [EStateM.run_bind] at h
  cases hx : x.run s with
  | ok a s₁ =>
    rw [hx] at h
    exact ⟨a, s₁, rfl, h⟩
  | error e s₁ =>
    rw [hx] at h
    cases h

theorem get_run_eq_ok {σ : Type} {s a s' : σ} (h : (get : EStateM Fault σ σ).run s = .ok a s') :
    s = a ∧ s = s' := by
  rw [EStateM.run_get, EStateM.Result.ok.injEq] at h
  exact h

theorem ofExcept_run_eq_ok {α : Type} {r : Except Fault α} {a : α} (h : (ofExcept r).run b = .ok a b') :
    r = .ok a ∧ b = b' := by
  cases r with
  | error e => cases h
  | ok x =>
    cases h
    exact ⟨rfl, rfl⟩

/-- Handing out a slot counts nothing. -/
theorem allocateSlot_stats {s : Int} (hrun : allocateSlot.run b = .ok s b') : b'.stats = b.stats := by
  unfold allocateSlot at hrun
  obtain ⟨_, _, hget, hrun⟩ := exists_of_run_bind_eq_ok hrun
  obtain ⟨rfl, rfl⟩ := get_run_eq_ok hget
  obtain ⟨⟨slot, swap⟩, _, halloc, hrun⟩ := exists_of_run_bind_eq_ok hrun
  obtain ⟨-, rfl⟩ := ofExcept_run_eq_ok halloc
  simp only [EStateM.run_bind, EStateM.run_modify, EStateM.run_pure] at hrun
  cases hrun
  rfl

/-- Taking a page out of its frame counts nothing. -/
theorem detach_stats {f u : Int} (hrun : (detach f u).run b = .ok () b') : b'.stats = b.stats := by
  unfold detach at hrun
  obtain ⟨_, _, hframe, hrun⟩ := exists_of_run_bind_eq_ok hrun
  simp only [EStateM.run_bind, modifyPage_run, notePager_run] at hrun
  cases hrun
  obtain ⟨_, _, hget, hframe⟩ := exists_of_run_bind_eq_ok hframe
  obtain ⟨rfl, rfl⟩ := get_run_eq_ok hget
  obtain ⟨-, rfl⟩ := ofExcept_run_eq_ok hframe
  rfl

/-- A save that returns counts one write to swap, and nothing else. -/
theorem saveFrame_stats {f : Int} {fe : FrameEntry} {u : Int} {page : PageEntry}
    (hrun : (saveFrame f fe u page).run b = .ok () b') :
    b'.stats = { b.stats with diskWrites := b.stats.diskWrites + 1 } := by
  -- the write is counted once it has gone through, on a board whose counters are `b`'s
  have hwrite : ∀ (slot : Int) (c : Board), c.stats = b.stats →
      (do
        let c ← get
        let swap ← ofExcept (c.swap.store slot (c.ram.readFrame f))
        modify fun c => { c with swap, stats.diskWrites := c.stats.diskWrites + 1 }
        modifyPage u ({ · with onDisk := true }) : BoardM Unit).run c = .ok () b' →
      b'.stats = { b.stats with diskWrites := b.stats.diskWrites + 1 } := by
    intro slot c hc h
    obtain ⟨_, _, hget, h⟩ := exists_of_run_bind_eq_ok h
    obtain ⟨rfl, rfl⟩ := get_run_eq_ok hget
    obtain ⟨swap, _, hstore, h⟩ := exists_of_run_bind_eq_ok h
    obtain ⟨-, rfl⟩ := ofExcept_run_eq_ok hstore
    simp only [EStateM.run_bind, EStateM.run_modify, modifyPage_run] at h
    cases h
    rw [← hc]
  unfold saveFrame at hrun
  dsimp only at hrun
  split at hrun
  · exact hwrite _ b rfl hrun
  · -- a slot is handed out first, which counts nothing
    obtain ⟨s, c, halloc, hrun⟩ := exists_of_run_bind_eq_ok hrun
    obtain ⟨_, _, hframe, hrun⟩ := exists_of_run_bind_eq_ok hrun
    rw [modifyFrame_run] at hframe
    cases hframe
    obtain ⟨_, _, hnote, hrun⟩ := exists_of_run_bind_eq_ok hrun
    rw [notePager_run] at hnote
    cases hnote
    obtain ⟨_, _, hpure, hrun⟩ := exists_of_run_bind_eq_ok hrun
    rw [EStateM.run_pure] at hpure
    cases hpure
    have hc := allocateSlot_stats halloc
    refine hwrite s _ ?_ hrun
    exact hc

/-- Filling a frame and installing the page counts a read from swap when the
page is on disk, and nothing else. -/
theorem fillInstall_stats {v f : Int} (hrun : (fillFrame v f >>= fun _ => install v f).run b = .ok () b') :
    ∃ page, Seq.read b.pages v = .ok page ∧
      b'.stats = { b.stats with diskReads := b.stats.diskReads + page.onDisk.toNat } := by
  obtain ⟨_, c, hfill, hrun⟩ := exists_of_run_bind_eq_ok hrun
  simp only [install, EStateM.run_bind, modifyFrame_run, modifyPage_run] at hrun
  cases hrun
  unfold fillFrame at hfill
  obtain ⟨page, _, hpage, hfill⟩ := exists_of_run_bind_eq_ok hfill
  obtain ⟨_, _, hget, hpage⟩ := exists_of_run_bind_eq_ok hpage
  obtain ⟨rfl, rfl⟩ := get_run_eq_ok hget
  obtain ⟨hread, rfl⟩ := ofExcept_run_eq_ok hpage
  refine ⟨page, hread, ?_⟩
  cases hd : page.onDisk with
  | true =>
    simp only [hd, if_true] at hfill
    obtain ⟨_, _, hget, hfill⟩ := exists_of_run_bind_eq_ok hfill
    obtain ⟨rfl, rfl⟩ := get_run_eq_ok hget
    obtain ⟨data, _, hdata, hfill⟩ := exists_of_run_bind_eq_ok hfill
    obtain ⟨-, rfl⟩ := ofExcept_run_eq_ok hdata
    obtain ⟨ram, _, hram, hfill⟩ := exists_of_run_bind_eq_ok hfill
    obtain ⟨-, rfl⟩ := ofExcept_run_eq_ok hram
    simp only [EStateM.run_bind, EStateM.run_modify, modifyFrame_run, notePager_run] at hfill
    cases hfill
    rfl
  | false =>
    simp only [hd, Bool.false_eq_true, if_false] at hfill
    obtain ⟨_, _, hget, hfill⟩ := exists_of_run_bind_eq_ok hfill
    obtain ⟨rfl, rfl⟩ := get_run_eq_ok hget
    obtain ⟨ram, _, hram, hfill⟩ := exists_of_run_bind_eq_ok hfill
    obtain ⟨-, rfl⟩ := ofExcept_run_eq_ok hram
    simp only [EStateM.run_bind, EStateM.run_modify, modifyFrame_run, notePager_run] at hfill
    cases hfill
    rfl

/-- Evicting the owner `u` of frame `f` from a sound board counts a write to
swap when `u` is dirty, and takes `u`, and no other page, out of RAM; or it
fails for want of a slot and changes nothing. -/
theorem evict_counts {u f : Nat} {fe : FrameEntry} {e : PageEntry} (h : b.Sound none)
    (hfe : b.frames[f]? = some fe) (hown : fe.owner = some (u : Int)) (hu : b.table[u]? = some e) :
    (∃ b', (evict f).run b = .ok () b' ∧
        b'.stats = { b.stats with diskWrites := b.stats.diskWrites + e.dirty.toNat } ∧
        ∀ w, b'.holds w = (b.holds w && w != u)) ∨
      (evict f).run b = .error (.swapFull b.swap.capacity) b := by
  obtain ⟨v, hv, hufit, -⟩ := h.residency.owned f fe u hfe hown (by simp)
  have hf : f < b.frames.size := (Array.getElem?_eq_some_iff.mp hfe).1
  have hfit : (f : Int) ≤ maxLength := by have := h.shape.frames_fit; omega
  have hu₀ := hu
  rw [getElem?_table, Option.map_eq_some_iff] at hu₀
  obtain ⟨page, hpage, rfl⟩ := hu₀
  have hulen : u < b.pages.size := (Array.getElem?_eq_some_iff.mp hpage).1
  have hfe' : b.frames[f] = fe := Option.some.inj ((Array.getElem?_eq_getElem hf).symm.trans hfe)
  have hpu : b.pages[u] = page := Option.some.inj ((Array.getElem?_eq_getElem hulen).symm.trans hpage)
  simp only [evict, EStateM.run_bind, frameAt_run hf hfit, hfe', hown, pageAt_run hulen (by omega), hpu]
  split
  · -- a dirty page is written to swap, then detached
    rename_i hdirty
    rcases saveFrame_run h hfe hown hpage with ⟨-, -, hrun⟩ | ⟨s, allocated, b₁, hrun, hs, -, -⟩
    · right
      rw [EStateM.run_bind, hrun]
    · obtain ⟨fe₁, hfe₁⟩ : ∃ fe₁, b₁.frames[f]? = some fe₁ := by
        rw [hs.frame, hfe]
        split
        · exact ⟨_, rfl⟩
        · exact ⟨fe, rfl⟩
      obtain ⟨b₂, hrun₂, hd₂, -, -⟩ : ∃ b₂, (detach f u).run b₁ = .ok () b₂ ∧ Detaches b₁ b₂ u f fe₁ ∧ _ ∧ _ :=
        detach_run hfe₁ hfit
      left
      refine ⟨b₂, by rw [EStateM.run_bind, hrun]; exact hrun₂, ?_, fun w => by rw [hd₂.holds, hs.holds]⟩
      rw [detach_stats hrun₂, saveFrame_stats hrun, PageEntry.dirty_unreferenced, hdirty]
      rfl
  · -- a clean page is only detached
    rename_i hclean
    obtain ⟨b₂, hrun₂, hd₂, -, -⟩ : ∃ b₂, (detach f u).run b = .ok () b₂ ∧ Detaches b b₂ u f fe ∧ _ ∧ _ :=
      detach_run hfe hfit
    left
    refine ⟨b₂, hrun₂, ?_, hd₂.holds⟩
    rw [detach_stats hrun₂, PageEntry.dirty_unreferenced, Bool.eq_false_iff.mpr hclean]
    rfl

/-- Taking a frame counts a write to swap exactly when a dirty page leaves RAM,
which happens only with every frame in use. -/
theorem takeFrame_counts (h : b.Sound none) {f : Int} (hrun : takeFrame.run b = .ok f b') :
    b'.stats = { b.stats with diskWrites := b.stats.diskWrites + (b.dropsDirty b').toNat } ∧
      (b.dropsDirty b' = true → b.frames.size ≤ b.fresh) := by
  by_cases hlt : b.fresh < b.frames.size
  · -- a frame never used: no page leaves RAM
    rw [takeFrame_run_of_fresh hlt] at hrun
    cases hrun
    have hnone : b.dropsDirty { b with fresh := b.fresh + 1 } = false := dropsDirty_self fun _ => rfl
    rw [hnone]
    exact ⟨rfl, fun hd => absurd hd Bool.false_ne_true⟩
  · -- every frame is in use: the policy's victim is evicted
    have hF : b.fresh = b.frames.size := Nat.le_antisymm h.residency.fresh_le (by omega)
    obtain ⟨f₀, u, fe, eu, -, hfe, hown, hu, h₁, hrun'⟩ := takeFrame_run_of_full h hF
    have hu₁ : b.afterChoice.table[u]? = some eu := by rw [afterChoice_table]; exact hu
    rw [hrun'] at hrun
    obtain ⟨_, b₂, hev, hrun⟩ := exists_of_run_bind_eq_ok hrun
    rw [EStateM.run_pure] at hrun
    cases hrun
    rcases evict_counts h₁ hfe hown hu₁ with ⟨b₃, hev', hst, hholds⟩ | hev'
    · rw [hev'] at hev
      cases hev
      -- the victim's page was in RAM, and it alone leaves
      obtain ⟨u', hu', -, eu', hu'', hres, -⟩ := h.residency.owned f₀ fe u hfe hown (by simp)
      obtain rfl : u = u' := by omega
      rw [hu] at hu''
      cases hu''
      have hulen : u < b.pages.size := lt_size_of_table hu
      have hsame : ∀ w, b.afterChoice.holds w = b.holds w := fun w => by
        rw [holds_eq_table, holds_eq_table, afterChoice_table]
      have hdrop : b.dropsDirty b' = eu.dirty := by
        rw [dropsDirty_eq_of_only hulen (by rw [hholds]; simp) fun w hw hd => by
          rw [hholds, hsame, holds_of_holdsDirty hd]
          simp [hw]]
        rw [holdsDirty_eq_table, hu]
        simp [hres]
      rw [hdrop]
      exact ⟨hst, fun _ => by omega⟩
    · rw [hev'] at hev
      cases hev

/-- A fault on a page out of RAM counts itself; it counts a read from swap
when it is served and the page was on disk, and a write to swap when a dirty
page leaves RAM, which happens only with every frame in use. -/
theorem handleFault_counts {v : Nat} {e : PageEntry} (h : b.Sound none) (hv : b.table[v]? = some e)
    (hr : e.resident = false) (hvfit : (v : Int) ≤ maxLength) :
    (finalState ((handleFault v).run b)).stats = { b.stats with
        faults := b.stats.faults + 1
        diskReads := b.stats.diskReads + (e.onDisk && (finalState ((handleFault v).run b)).holds v).toNat
        diskWrites := b.stats.diskWrites + (b.dropsDirty (finalState ((handleFault v).run b))).toNat } ∧
      (b.dropsDirty (finalState ((handleFault v).run b)) = true → b.frames.size ≤ b.fresh) := by
  -- the fault is counted first, on a board that holds the same pages
  let b₀ : Board := { b with stats.faults := b.stats.faults + 1 }
  have h₀ : b₀.Sound none := h.countFault
  have hdrop₀ : ∀ c, b₀.dropsDirty c = b.dropsDirty c := fun _ => rfl
  have hrun : (handleFault v).run b = (takeFrame >>= fun f => fillFrame v f >>= fun _ => install v f).run b₀ :=
    rfl
  have hvd : b.holdsDirty v = false := by
    rw [holdsDirty_eq_table, hv]
    simp [hr]
  rcases takeFrame_spec h₀ hv hr with ⟨f, b₁, hrun₁, h₁, -, -, -, hv₁, -⟩ | ⟨-, b₁, hrun₁, -⟩
  · -- a frame is taken, then filled with the page, which is installed there
    obtain ⟨hst₁, hfresh₁⟩ := takeFrame_counts h₀ hrun₁
    obtain ⟨b₂, hrun₂, hi, -⟩ := fill_run h₁ hv₁ hr hvfit
    obtain ⟨page, hpage, hst₂⟩ := fillInstall_stats hrun₂
    have hfinal : finalState ((handleFault v).run b) = b₂ := by
      rw [hrun, EStateM.run_bind, hrun₁]
      dsimp only
      rw [hrun₂]
      rfl
    rw [hfinal]
    have hdrop : b.dropsDirty b₂ = b.dropsDirty b₁ := dropsDirty_add hvd (hi.holds hv₁)
    have hin : b₂.holds v = true := by
      rw [hi.holds hv₁]
      simp
    -- the page read is the page faulted on
    have hdisk : page.onDisk = e.onDisk := by
      have hlt : v < b₁.pages.size := lt_size_of_table hv₁
      rw [Seq.read_of_getElem? (Array.getElem?_eq_getElem hlt) hvfit] at hpage
      cases hpage
      rw [getElem?_table, Array.getElem?_eq_getElem hlt] at hv₁
      cases hv₁
      rfl
    rw [hdrop₀] at hst₁
    rw [hst₂, hst₁, hdrop, hdisk, hin, Bool.and_true]
    exact ⟨rfl, hfresh₁⟩
  · -- no frame could be taken: the fault stops once the policy has chosen
    obtain ⟨-, -, -, -, rfl⟩ := (takeFrame_run_error_iff h₀).mp hrun₁
    have hfinal : finalState ((handleFault v).run b) = b₀.afterChoice := by
      rw [hrun, EStateM.run_bind, hrun₁]
      rfl
    rw [hfinal]
    have hsame : ∀ w, b₀.afterChoice.holds w = b.holds w := fun w => by
      rw [holds_eq_table, holds_eq_table, afterChoice_table]
      rfl
    have hnone : b.dropsDirty b₀.afterChoice = false := dropsDirty_self hsame
    have hout : b₀.afterChoice.holds v = false := by
      rw [hsame, holds_eq_table, hv]
      simp [hr]
    rw [hnone, hout, Bool.and_false]
    exact ⟨rfl, fun hd => absurd hd Bool.false_ne_true⟩

/-! ## One translation -/

/-- Within the address space, the translation of `m` observes the entry of
its page. -/
theorem observe_of_entry {m : Nat} (hP : 0 < b.geometry.pageSize) {e : PageEntry}
    (hv : b.table[m / b.pageWords]? = some e) :
    Translation.observe b m b' =
      { fault := !e.resident
        diskRead := !e.resident && e.onDisk && b'.holds (m / b.pageWords)
        freshFrame := !e.resident && decide (b.fresh < b.frames.size)
        dirtyEviction := b.dropsDirty b' } := by
  have hdiv : (m : Int).fdiv b.geometry.pageSize = ((m / b.pageWords : Nat) : Int) := (fdiv_natCast hP).1
  simp only [Translation.observe, hdiv, Int.toNat_natCast, Int.natCast_nonneg, decide_true, Bool.true_and]
  rw [any_pages_eq_table (fun _ => rfl), any_pages_eq_table (fun _ => rfl), hv]
  rfl

/-- Outside the address space a translation is no fault. -/
theorem observe_beyond {a : Int} (hP : 0 < b.geometry.pageSize)
    (ha : ¬ (0 ≤ a ∧ a < b.pages.size * b.geometry.pageSize)) :
    (Translation.observe b a b').fault = false := by
  have hout : ¬ (0 ≤ a.fdiv b.geometry.pageSize ∧ a.fdiv b.geometry.pageSize < b.pages.size) :=
    fun hin => ha ((fdiv_mem_iff hP).mp hin)
  simp only [Translation.observe]
  by_cases h0 : 0 ≤ a.fdiv b.geometry.pageSize
  · have hnone : b.pages[(a.fdiv b.geometry.pageSize).toNat]? = none := Array.getElem?_eq_none (by omega)
    simp [hnone]
  · simp [h0]

/-- A translation reads from swap and finds a frame never used only when it
faulted, by what it observes; it does only what a translation can once a
dirty page leaves only at a fault that found every frame in use. -/
theorem observe_possible {a : Int}
    (h : b.dropsDirty b' = true → (Translation.observe b a b').fault = true ∧ b.frames.size ≤ b.fresh) :
    (Translation.observe b a b').Possible where
  diskRead hd := by
    simp only [Translation.observe, Bool.and_eq_true] at hd ⊢
    exact hd.1.1
  freshFrame hf := by
    simp only [Translation.observe, Bool.and_eq_true] at hf ⊢
    exact hf.1
  dirtyEviction hd := by
    obtain ⟨hf, hfull⟩ := h hd
    refine ⟨hf, ?_⟩
    simp only [Translation.observe, Bool.and_eq_false_iff, decide_eq_false_iff_not]
    exact .inr (by omega)

/-- A translation that dropped no dirty page does only what a translation can. -/
theorem observe_possible_of_clean {a : Int} (h : b.dropsDirty b' = false) :
    (Translation.observe b a b').Possible :=
  observe_possible fun hd => absurd (h ▸ hd) Bool.false_ne_true

/-- One translation on a consistent board whose pages a sequence can index
moves the counters by what it did, and does only what a translation can. -/
theorem translate_accounts (h : b.Consistent) (hfit : (b.pages.size : Int) ≤ maxLength) (a : Int)
    (write : Bool) :
    Accounts b.stats (finalState ((translate a write).run b)).stats
      (Translation.observe b a (finalState ((translate a write).run b))) := by
  have hP := h.sound.shape.pageSize_pos
  by_cases ha : 0 ≤ a ∧ a < b.pages.size * b.geometry.pageSize
  · obtain ⟨m, rfl⟩ := Int.eq_ofNat_of_zero_le ha.1
    have hm : (m : Int) < b.table.size * b.geometry.pageSize := by
      rw [size_table]
      exact ha.2
    have hlt := page_lt h hm
    have hvfit : ((m / b.pageWords : Nat) : Int) ≤ maxLength := by omega
    obtain ⟨e, hv⟩ : ∃ e, b.table[m / b.pageWords]? = some e :=
      ⟨_, Array.getElem?_eq_getElem (by rw [size_table]; exact hlt)⟩
    cases hr : e.resident with
    | true =>
      -- a hit: the access alone is counted, and no page moves
      rw [translate_run_resident h hm hvfit hv hr write, finalState_ok]
      have hnone : b.dropsDirty { b.shown (m / b.pageWords) with
          pages := Seq.update b.pages (m / b.pageWords : Nat)
            (fun e => { e with referenced := true, dirty := e.dirty || write }) } = false :=
        dropsDirty_self (holds_update_mark b.pages _ write)
      refine ⟨?_, observe_possible_of_clean hnone⟩
      rw [observe_of_entry hP hv, hr, hnone]
      rfl
    | false =>
      -- a miss: the fault runs on the board the access has shown its page to
      have hs := h.shown_sound (m / b.pageWords)
      obtain ⟨hst, hfull⟩ := handleFault_counts hs hv hr hvfit
      have hfault : ∀ c, (Translation.observe b m c).fault = true := fun c => by
        rw [observe_of_entry hP hv, hr]
        rfl
      cases hhf : (handleFault ((m / b.pageWords : Nat) : Int)).run (b.shown (m / b.pageWords)) with
      | ok _ b₃ =>
        obtain ⟨p, hrun⟩ := translate_run_of_handleFault h hm hvfit hv hr write hhf
        rw [hhf, finalState_ok] at hst hfull
        rw [hrun, finalState_ok]
        -- marking the page afterwards moves no page
        have hmark : ∀ u, Board.holds { b₃ with pages := Seq.update b₃.pages (m / b.pageWords : Nat) fun e =>
            { e with referenced := true, dirty := e.dirty || write } } u = b₃.holds u :=
          holds_update_mark b₃.pages _ write
        refine ⟨?_, observe_possible fun hd => ⟨hfault _, hfull (by rwa [dropsDirty_right hmark] at hd)⟩⟩
        rw [observe_of_entry hP hv, hr, dropsDirty_right hmark, hmark]
        exact hst
      | error err b₃ =>
        have hrun : (translate m write).run b = .error err b₃ := by
          rw [translate_run_absent h hm hvfit hv hr write, EStateM.run_bind, hhf]
        rw [hhf, finalState_error] at hst hfull
        rw [hrun, finalState_error]
        refine ⟨?_, observe_possible fun hd => ⟨hfault _, hfull hd⟩⟩
        rw [observe_of_entry hP hv, hr]
        exact hst
  · -- outside the address space: the access alone is counted
    rw [translate_run_beyond hP ha write, finalState_error]
    have hnone : b.dropsDirty { b with stats.accesses := b.stats.accesses + 1 } = false :=
      dropsDirty_self fun _ => rfl
    have hposs : (Translation.observe b a { b with stats.accesses := b.stats.accesses + 1 }).Possible :=
      observe_possible_of_clean hnone
    exact ⟨(Statistics.count_access _ (observe_beyond hP ha) hposs hnone).symm, hposs⟩

/-! ## Reads and writes -/

/-- What a translation observes reads the board it leaves only through what
that board holds. -/
theorem observe_right {a : Int} (hh : ∀ u, c'.holds u = b'.holds u) :
    Translation.observe b a c' = Translation.observe b a b' := by
  simp only [Translation.observe, hh, dropsDirty_right hh]

/-- A read is its translation, as far as the board goes: reading RAM changes
nothing. -/
theorem readWord_final (a : Int) : finalState ((readWord a).run b) = finalState ((translate a false).run b) := by
  simp only [readWord, EStateM.run_bind]
  cases (translate a false).run b with
  | error e b₁ => rfl
  | ok p b₁ =>
    simp only [EStateM.run_get]
    cases b₁.ram.read p <;> rfl

/-- After its translation a write changes RAM alone. -/
theorem writeWord_final (a v : Int) :
    (finalState ((writeWord a v).run b)).stats = (finalState ((translate a true).run b)).stats ∧
      ∀ u, (finalState ((writeWord a v).run b)).holds u = (finalState ((translate a true).run b)).holds u := by
  simp only [writeWord, EStateM.run_bind]
  cases (translate a true).run b with
  | error e b₁ => exact ⟨rfl, fun _ => rfl⟩
  | ok p b₁ =>
    simp only [EStateM.run_get]
    cases b₁.ram.write p v with
    | error e => exact ⟨rfl, fun _ => rfl⟩
    | ok ram => exact ⟨rfl, fun _ => rfl⟩

theorem readWord_accounts (h : b.Consistent) (hfit : (b.pages.size : Int) ≤ maxLength) (a : Int) :
    Accounts b.stats (finalState ((readWord a).run b)).stats
      (Translation.observe b a (finalState ((readWord a).run b))) := by
  rw [readWord_final]
  exact translate_accounts h hfit a false

theorem writeWord_accounts (h : b.Consistent) (hfit : (b.pages.size : Int) ≤ maxLength) (a v : Int) :
    Accounts b.stats (finalState ((writeWord a v).run b)).stats
      (Translation.observe b a (finalState ((writeWord a v).run b))) := by
  obtain ⟨hst, hh⟩ : _ ∧ ∀ u, _ := writeWord_final a v
  rw [hst, observe_right hh]
  exact translate_accounts h hfit a true

end Board

end DemandPaging
