import DemandPaging.Memory.Pager
import DemandPaging.Proofs.Victim

/-!
# The pager's invariant

What holds of a board between memory accesses, and what a program sees of
its memory.

* `Board.contents` is the view: the word at each virtual address, read from
  RAM while its page is resident and from the page's swap slot (or zero)
  otherwise.
* `Board.Sound b hole` is the invariant, in four parts: the sizes fixed by
  the geometry (`Shape`); page table and core map in agreement, the frames
  used so far being those below `fresh` (`Residency`); every page on disk
  bound to a swap slot of its own (`Slots`); and every clean resident page's
  frame holding what its backing store holds (`Backed`).  During a fault the
  frame being refilled, `hole`, is exempt from the agreement.
* `Board.Counted` ties the fresh frames to the faults taken.

The invariant reads the page table only through `Board.table`, which forgets
the referenced bits, so the clock sweep and the marking of accessed pages
cannot disturb it.  `Sound.congr` says once which parts of a board the
invariant reads; `create_sound` shows a new board satisfies it.
-/

namespace DemandPaging

/-! ## Entries without their referenced bit -/

namespace PageEntry

@[simp] theorem resident_unreferenced (e : PageEntry) : e.unreferenced.resident = e.resident := rfl
@[simp] theorem onDisk_unreferenced (e : PageEntry) : e.unreferenced.onDisk = e.onDisk := rfl
@[simp] theorem dirty_unreferenced (e : PageEntry) : e.unreferenced.dirty = e.dirty := rfl
@[simp] theorem location_unreferenced (e : PageEntry) : e.unreferenced.location = e.location := rfl

end PageEntry

/-- Changing an entry by a function that commutes with forgetting the
referenced bit changes the forgetful table the same way. -/
theorem map_update_unreferenced {pages : PageTable} {v : Nat} {g g' : PageEntry → PageEntry}
    (hg : ∀ e, (g e).unreferenced = g' e.unreferenced) :
    (Seq.update pages v g).map PageEntry.unreferenced =
      (pages.map PageEntry.unreferenced).modify v g' := by
  rw [Seq.update_natCast]
  apply Array.ext
  · simp
  · intro j h₁ h₂
    simp only [Array.getElem_map, Array.getElem_modify]
    split
    · exact hg _
    · rfl

namespace Board

/-! ## The view -/

/-- The page table with the referenced bits forgotten: everything the
invariant reads of it. -/
def table (b : Board) : PageTable := b.pages.map PageEntry.unreferenced

/-- Words per page, as a count. -/
def pageWords (b : Board) : Nat := b.geometry.pageSize.toNat

/-- The swap slot a page's contents are bound to: the slot of its frame while
it is resident, its location otherwise. -/
def slotOf (b : Board) (e : PageEntry) : Option Int :=
  if e.resident then (b.frames[e.location.toNat]?).bind FrameEntry.slot else some e.location

/-- Word `o` of what the backing store holds for a page: its swap slot when it
is on disk, zero otherwise. -/
def backing (b : Board) (e : PageEntry) (o : Nat) : Int :=
  if e.onDisk then
    match b.slotOf e with
    | some s => ((b.swap.slots[s.toNat]?).bind (·[o]?)).getD 0
    | none => 0
  else 0

/-- The word of RAM at index `i`. -/
def ramWord (b : Board) (i : Nat) : Int := (b.ram.words[i]?).getD 0

/-- The frame of a resident page holds what its backing store holds. -/
def Saved (b : Board) (e : PageEntry) : Prop :=
  ∀ o < b.pageWords, b.ramWord (e.location.toNat * b.pageWords + o) = b.backing e o

/-- Word `o` of page `v` as a program sees it: in RAM while the page is
resident, in its backing store otherwise. -/
def pageWord (b : Board) (v o : Nat) : Int :=
  match b.table[v]? with
  | some e => if e.resident then b.ramWord (e.location.toNat * b.pageWords + o) else b.backing e o
  | none => 0

/-- The word at a virtual address as a program sees it, zero outside the
address space. -/
def contents (b : Board) (a : Int) : Int :=
  if 0 ≤ a ∧ a < b.table.size * b.geometry.pageSize then
    b.pageWord (a.toNat / b.pageWords) (a.toNat % b.pageWords)
  else 0

theorem size_table (b : Board) : b.table.size = b.pages.size := Array.size_map

theorem getElem?_table (b : Board) (v : Nat) :
    b.table[v]? = b.pages[v]?.map PageEntry.unreferenced := Array.getElem?_map

theorem slotOf_of_resident {b : Board} {e : PageEntry} (h : e.resident = true) :
    b.slotOf e = (b.frames[e.location.toNat]?).bind FrameEntry.slot := by
  simp [slotOf, h]

theorem slotOf_of_not_resident {b : Board} {e : PageEntry} (h : e.resident = false) :
    b.slotOf e = some e.location := by
  simp [slotOf, h]

/-! ## The invariant -/

/-- The sizes a board keeps from its geometry. -/
structure Shape (b : Board) : Prop where
  pageSize_pos : 0 < b.geometry.pageSize
  ram_pageSize : b.ram.pageSize = b.geometry.pageSize
  ram_size : b.ram.words.size = b.frames.size * b.pageWords
  ram_fits : ((b.frames.size * b.pageWords : Nat) : Int) ≤ maxLength
  swap_pageSize : b.swap.pageSize = b.geometry.pageSize
  swap_capacity : b.swap.capacity = b.geometry.swapSlots
  slot_size : ∀ s ∈ b.swap.slots, s.size = b.pageWords
  frames_pos : 0 < b.frames.size
  frames_size : b.frames.size = b.geometry.frames.toNat
  table_size : b.table.size = b.geometry.virtualPages.toNat
  policy_fits : b.policy.Fits b.frames.size

/-- The page table and the core map agree, except at the frame `hole` being
refilled during a fault: a resident page owns the frame it names, an owned
frame's owner is resident there, and the frames used so far are those below
`fresh`. -/
structure Residency (b : Board) (hole : Option Nat) : Prop where
  fresh_le : b.fresh ≤ b.frames.size
  hole_lt : ∀ h, hole = some h → h < b.fresh
  located : ∀ (v : Nat) e, b.table[v]? = some e → e.resident = true →
    ∃ f : Nat, e.location = f ∧ hole ≠ some f ∧
      ∃ fe, b.frames[f]? = some fe ∧ fe.owner = some (v : Int)
  owned : ∀ (f : Nat) fe o, b.frames[f]? = some fe → fe.owner = some o → hole ≠ some f →
    ∃ v : Nat, o = v ∧ (v : Int) ≤ maxLength ∧
      ∃ e, b.table[v]? = some e ∧ e.resident = true ∧ e.location = f
  used_iff : ∀ (f : Nat) fe, b.frames[f]? = some fe → hole ≠ some f →
    (fe.owner ≠ none ↔ f < b.fresh)

/-- Every page on disk is bound to a swap slot of its own, the slots handed out
are as many as the pages on disk, and a page out of RAM is clean. -/
structure Slots (b : Board) : Prop where
  used_eq : b.swap.used = b.table.countP (·.onDisk)
  bound : ∀ (v : Nat) e, b.table[v]? = some e → e.onDisk = true →
    ∃ s : Nat, b.slotOf e = some (s : Int) ∧ s < b.swap.used
  distinct : ∀ (v w : Nat) ev ew, b.table[v]? = some ev → b.table[w]? = some ew →
    ev.onDisk = true → ew.onDisk = true → b.slotOf ev = b.slotOf ew → v = w
  unbound : ∀ (v : Nat) e, b.table[v]? = some e → e.resident = true → e.onDisk = false →
    b.slotOf e = none
  away : ∀ (v : Nat) e, b.table[v]? = some e → e.resident = false →
    e.dirty = false ∧ (e.onDisk = false → e.location = 0)
  used_le : b.swap.used ≤ b.stats.diskWrites

/-- A clean resident page's frame holds what its backing store holds. -/
structure Backed (b : Board) : Prop where
  saved : ∀ (v : Nat) e, b.table[v]? = some e → e.resident = true → e.dirty = false → b.Saved e

/-- The pager's invariant, with `hole` the frame being refilled, if any. -/
structure Sound (b : Board) (hole : Option Nat) : Prop where
  shape : b.Shape
  residency : b.Residency hole
  slots : b.Slots
  backed : b.Backed

/-- The frames handed out so far follow the faults taken: one fresh frame a
fault until none is left. -/
def Counted (b : Board) : Prop := b.fresh = min b.frames.size b.stats.faults

/-- The invariant reads a board only through its geometry, RAM, swap, table,
core map and disk writes, the policy's fit, and the agreement of table and core
map. -/
theorem Sound.congr {b b' : Board} {hole hole' : Option Nat} (h : b.Sound hole)
    (hg : b'.geometry = b.geometry) (hr : b'.ram = b.ram) (hs : b'.swap = b.swap)
    (ht : b'.table = b.table) (hf : b'.frames = b.frames)
    (hw : b'.stats.diskWrites = b.stats.diskWrites) (hp : b'.policy.Fits b.frames.size)
    (hres : b'.Residency hole') : b'.Sound hole' := by
  obtain ⟨⟨s₁, s₂, s₃, s₄, s₅, s₆, s₇, s₈, s₉, s₁₀, -⟩, -, ⟨l₁, l₂, l₃, l₄, l₅, l₆⟩, ⟨k₁⟩⟩ := h
  have hslot : b'.slotOf = b.slotOf := funext fun e => by simp only [slotOf, hf]
  have hback : b'.backing = b.backing := funext fun e => by
    funext o
    simp only [backing, hslot, hs]
  have hwords : b'.pageWords = b.pageWords := by simp only [pageWords, hg]
  have hsaved : b'.Saved = b.Saved := funext fun e => by
    simp only [Saved, ramWord, hwords, hback, hr]
  refine ⟨⟨?_, ?_, ?_, ?_, ?_, ?_, ?_, ?_, ?_, ?_, ?_⟩, hres, ⟨?_, ?_, ?_, ?_, ?_, ?_⟩, ⟨?_⟩⟩
  -- every field of the new board reads as the same field of the old one
  all_goals simp only [hg, hr, hs, ht, hf, hw, hslot, hwords, hsaved]
  all_goals assumption

/-- The view reads a board only through its geometry, RAM, swap, table and
core map. -/
theorem contents_congr {b b' : Board} (hg : b'.geometry = b.geometry) (hr : b'.ram = b.ram)
    (hs : b'.swap = b.swap) (ht : b'.table = b.table) (hf : b'.frames = b.frames) :
    b'.contents = b.contents := by
  funext a
  simp only [contents, pageWord, backing, slotOf, ramWord, pageWords, hg, hr, hs, ht, hf]

/-! ## Consequences of the agreement -/

section Residency

variable {b : Board} {hole : Option Nat}

/-- A resident page owns the frame it names, and that frame exists. -/
theorem Residency.frame {v : Nat} {e : PageEntry} (h : b.Residency hole) (he : b.table[v]? = some e)
    (hr : e.resident = true) :
    ∃ f : Nat, e.location = f ∧ f < b.frames.size ∧ hole ≠ some f ∧
      ∃ fe, b.frames[f]? = some fe ∧ fe.owner = some (v : Int) := by
  obtain ⟨f, hf, hhole, fe, hfe, hown⟩ := h.located v e he hr
  exact ⟨f, hf, (Array.getElem?_eq_some_iff.mp hfe).1, hhole, fe, hfe, hown⟩

/-- A frame named by a resident page is owned by that page. -/
theorem Residency.owner_eq {v f : Nat} {e : PageEntry} {fe : FrameEntry} (h : b.Residency hole)
    (he : b.table[v]? = some e) (hr : e.resident = true) (hl : e.location = f)
    (hfe : b.frames[f]? = some fe) : fe.owner = some (v : Int) := by
  obtain ⟨f', hf', -, fe', hfe', hown⟩ := h.located v e he hr
  have : f' = f := by omega
  subst this
  rw [hfe] at hfe'
  cases hfe'
  exact hown

/-- No two resident pages name the same frame. -/
theorem Residency.eq_of_location {v w : Nat} {ev ew : PageEntry} (h : b.Residency hole)
    (hv : b.table[v]? = some ev) (hw : b.table[w]? = some ew) (hrv : ev.resident = true)
    (hrw : ew.resident = true) (hl : ev.location = ew.location) : v = w := by
  obtain ⟨f, hf, -, fe, hfe, hown⟩ := h.located v ev hv hrv
  have hown' := h.owner_eq hw hrw (hl ▸ hf) hfe
  rw [hown] at hown'
  exact_mod_cast Option.some.inj hown'

/-- The owner of a frame outside the hole is resident there. -/
theorem Residency.of_owner {u f : Nat} {fe : FrameEntry} {e : PageEntry} (h : b.Residency hole)
    (hfe : b.frames[f]? = some fe) (hown : fe.owner = some (u : Int)) (hne : hole ≠ some f)
    (hu : b.table[u]? = some e) : e.resident = true ∧ e.location = f := by
  obtain ⟨v, hv, -, e', he', hr, hl⟩ := h.owned f fe u hfe hown hne
  have : v = u := by omega
  subst this
  rw [hu] at he'
  cases he'
  exact ⟨hr, hl⟩

/-- Only referenced bits, dirty bits and slots may differ: the agreement of
page table and core map carries over. -/
theorem Residency.transfer {b' : Board} (h : b.Residency hole)
    (hfs : b'.frames.size = b.frames.size)
    (howner : ∀ f : Nat, (b'.frames[f]?).map FrameEntry.owner = (b.frames[f]?).map FrameEntry.owner)
    (htable : ∀ w : Nat, (b'.table[w]?).map (fun e : PageEntry => (e.resident, e.location)) =
      (b.table[w]?).map (fun e : PageEntry => (e.resident, e.location)))
    (hfresh : b'.fresh = b.fresh) : b'.Residency hole := by
  -- each entry and frame of the board after has a partner before, alike in what is read
  have hpage : ∀ (w : Nat) (ew' : PageEntry), b'.table[w]? = some ew' →
      ∃ ew, b.table[w]? = some ew ∧ ew'.resident = ew.resident ∧ ew'.location = ew.location := by
    intro w ew' hw
    have := htable w
    rw [hw] at this
    obtain ⟨ew, hew, heq⟩ := Option.map_eq_some_iff.mp this.symm
    simp only [Prod.mk.injEq] at heq
    exact ⟨ew, hew, heq.1.symm, heq.2.symm⟩
  have hpage' : ∀ (w : Nat) (ew : PageEntry), b.table[w]? = some ew →
      ∃ ew', b'.table[w]? = some ew' ∧ ew'.resident = ew.resident ∧ ew'.location = ew.location := by
    intro w ew hw
    have := htable w
    rw [hw] at this
    obtain ⟨ew', hew', heq⟩ := Option.map_eq_some_iff.mp this
    simp only [Prod.mk.injEq] at heq
    exact ⟨ew', hew', heq.1, heq.2⟩
  have hframe : ∀ (f : Nat) (fe' : FrameEntry), b'.frames[f]? = some fe' → ∃ fe, b.frames[f]? = some fe ∧ fe'.owner = fe.owner := by
    intro f fe' hf
    have := howner f
    rw [hf] at this
    obtain ⟨fe, hfe, heq⟩ := Option.map_eq_some_iff.mp this.symm
    exact ⟨fe, hfe, heq.symm⟩
  have hframe' : ∀ (f : Nat) (fe : FrameEntry), b.frames[f]? = some fe → ∃ fe', b'.frames[f]? = some fe' ∧ fe'.owner = fe.owner := by
    intro f fe hf
    have := howner f
    rw [hf] at this
    obtain ⟨fe', hfe', heq⟩ := Option.map_eq_some_iff.mp this
    exact ⟨fe', hfe', heq⟩
  refine ⟨?_, ?_, ?_, ?_, ?_⟩
  · rw [hfresh, hfs]
    exact h.fresh_le
  · rw [hfresh]
    exact h.hole_lt
  · intro w ew' hw hr
    obtain ⟨ew, hew, hres, hloc⟩ := hpage w ew' hw
    obtain ⟨f, hf, hne, fe, hfe, hown⟩ := h.located w ew hew (hres ▸ hr)
    obtain ⟨fe', hfe', hown'⟩ := hframe' f fe hfe
    exact ⟨f, hloc ▸ hf, hne, fe', hfe', hown' ▸ hown⟩
  · intro f fe' o hf ho hne
    obtain ⟨fe, hfe, hown⟩ := hframe f fe' hf
    obtain ⟨v, hv, hvfit, ew, hew, hr, hl⟩ := h.owned f fe o hfe (hown ▸ ho) hne
    obtain ⟨ew', hew', hres, hloc⟩ := hpage' v ew hew
    exact ⟨v, hv, hvfit, ew', hew', hres ▸ hr, hloc ▸ hl⟩
  · intro f fe' hf hne
    obtain ⟨fe, hfe, hown⟩ := hframe f fe' hf
    rw [hown, hfresh]
    exact h.used_iff f fe hfe hne

theorem Residency.congr {b' : Board} (h : b.Residency hole) (ht : b'.table = b.table)
    (hf : b'.frames = b.frames) (hfr : b'.fresh = b.fresh) : b'.Residency hole :=
  h.transfer (by rw [hf]) (fun f => by rw [hf]) (fun w => by rw [ht]) hfr

end Residency

section Sizes

variable {b b' : Board}

/-- A page is a positive number of words. -/
theorem Shape.pageWords_pos (h : b.Shape) : 0 < b.pageWords := by
  have := h.pageSize_pos
  unfold pageWords
  omega

/-- The page size is the number of words of a page. -/
theorem Shape.pageSize_eq (h : b.Shape) : b.geometry.pageSize = (b.pageWords : Int) := by
  have := h.pageSize_pos
  unfold pageWords
  omega

theorem Shape.ram_pageSize_eq (h : b.Shape) : b.ram.pageSize = (b.pageWords : Int) := by
  rw [h.ram_pageSize, h.pageSize_eq]

/-- Every frame ends inside RAM. -/
theorem Shape.frame_end_le (h : b.Shape) {f : Nat} (hf : f < b.frames.size) :
    (f + 1) * b.pageWords ≤ b.ram.words.size := by
  rw [h.ram_size]
  exact Nat.mul_le_mul_right _ hf

theorem Shape.frames_fit (h : b.Shape) : (b.frames.size : Int) ≤ maxLength := by
  have : b.frames.size ≤ b.frames.size * b.pageWords := Nat.le_mul_of_pos_right _ h.pageWords_pos
  have := h.ram_fits
  omega

/-- The sizes carry over to a board with the same geometry, sizes and page
size, whose slots are pages and whose policy fits. -/
theorem Shape.transfer (h : b.Shape) (hg : b'.geometry = b.geometry)
    (hrp : b'.ram.pageSize = b.ram.pageSize) (hrs : b'.ram.words.size = b.ram.words.size)
    (hsp : b'.swap.pageSize = b.swap.pageSize) (hsc : b'.swap.capacity = b.swap.capacity)
    (hslots : ∀ s ∈ b'.swap.slots, s.size = b.pageWords)
    (hfs : b'.frames.size = b.frames.size) (hts : b'.table.size = b.table.size)
    (hp : b'.policy.Fits b.frames.size) : b'.Shape := by
  have hw : b'.pageWords = b.pageWords := by simp only [pageWords, hg]
  refine ⟨?_, ?_, ?_, ?_, ?_, ?_, ?_, ?_, ?_, ?_, ?_⟩
  · rw [hg]; exact h.pageSize_pos
  · rw [hrp, hg]; exact h.ram_pageSize
  · rw [hrs, hfs, hw]; exact h.ram_size
  · rw [hfs, hw]; exact h.ram_fits
  · rw [hsp, hg]; exact h.swap_pageSize
  · rw [hsc, hg]; exact h.swap_capacity
  · rw [hw]; exact hslots
  · rw [hfs]; exact h.frames_pos
  · rw [hfs, hg]; exact h.frames_size
  · rw [hts, hg]; exact h.table_size
  · rw [hfs]; exact hp

/-- Fewer slots are in use than there are pages, while some page is not on disk. -/
theorem Slots.used_lt {v : Nat} {e : PageEntry} (h : b.Slots) (hv : b.table[v]? = some e)
    (hd : e.onDisk = false) : b.swap.used < b.table.size := by
  rw [h.used_eq]
  have hle : b.table.countP (·.onDisk) ≤ b.table.size := Array.countP_le_size
  have hne : b.table.countP (·.onDisk) ≠ b.table.size := by
    intro heq
    have := (Array.countP_eq_size.mp heq) e (Array.mem_of_getElem? hv)
    rw [hd] at this
    cases this
  omega

end Sizes

end Board

/-! ## A new board -/

theorem isPowerOfTwo_pos {v : Int} (h : isPowerOfTwo v = true) : 0 < v := by
  simp only [isPowerOfTwo, Bool.and_eq_true, decide_eq_true_eq] at h
  exact h.1

namespace Geometry

theorem isPowerOfTwo_of_require {field : String} {v : Int} {u : Unit}
    (h : requirePowerOfTwo field v = .ok u) : isPowerOfTwo v = true := by
  unfold requirePowerOfTwo at h
  split at h
  · assumption
  · cases h

/-- A geometry passes only as it is, keeping every rule: the four counts
powers of two, at least 32 registers and a virtual page. -/
theorem eq_of_validate_ok {g g' : Geometry} (h : g.validate = .ok g') :
    g' = g ∧ isPowerOfTwo g.pageSize = true ∧ isPowerOfTwo g.frames = true ∧
      isPowerOfTwo g.swapSlots = true ∧ isPowerOfTwo g.registers = true ∧
      32 ≤ g.registers ∧ 0 < g.virtualPages := by
  simp only [validate, bind, Except.bind] at h
  -- the four power-of-two checks, in the order they are made
  split at h
  · cases h
  · rename_i u₁ h₁
    split at h
    · cases h
    · rename_i u₂ h₂
      split at h
      · cases h
      · rename_i u₃ h₃
        split at h
        · cases h
        · rename_i u₄ h₄
          -- then the register count and the address space
          by_cases hr : g.registers < 32
          · simp [hr, throw, throwThe, MonadExceptOf.throw] at h
          · by_cases hv : g.virtualPages ≤ 0
            · simp [hr, hv, throw, throwThe, MonadExceptOf.throw] at h
            · simp only [hr, hv, if_false, pure, Except.pure, Except.ok.injEq] at h
              exact ⟨h.symm, isPowerOfTwo_of_require h₁, isPowerOfTwo_of_require h₂,
                isPowerOfTwo_of_require h₃, isPowerOfTwo_of_require h₄, by omega, by omega⟩

/-- What a valid geometry promises the pager: pages, frames and the address
space are not empty. -/
theorem validate_pos {g g' : Geometry} (h : g.validate = .ok g') :
    0 < g.pageSize ∧ 0 < g.frames ∧ 0 < g.virtualPages := by
  obtain ⟨-, hP, hF, -, -, -, hV⟩ := eq_of_validate_ok h
  exact ⟨isPowerOfTwo_pos hP, isPowerOfTwo_pos hF, hV⟩

end Geometry

theorem Ram.create_ok {frames pageSize : Int} {r : Ram} (h : Ram.create frames pageSize = .ok r) :
    r = Ram.zeroed frames pageSize ∧ fitsSize (frames * pageSize) = true := by
  unfold Ram.create requireLength at h
  by_cases hf : fitsSize (frames * pageSize) = true
  · simp only [hf, if_true, bind, Except.bind, pure, Except.pure, Except.ok.injEq] at h
    exact ⟨h.symm, hf⟩
  · simp [hf, bind, Except.bind] at h

theorem Swap.create_ok {capacity pageSize : Int} {s : Swap} (h : Swap.create capacity pageSize = .ok s) :
    s.pageSize = pageSize ∧ s.slots = #[] ∧ s.capacity = capacity := by
  unfold Swap.create requireLength at h
  have h' : s = { capacity, pageSize } := by
    by_cases hc : 0 < capacity <;> by_cases hf : fitsSize pageSize = true <;>
      simp_all [bind, Except.bind, pure, Except.pure]
  subst h'
  exact ⟨rfl, rfl, rfl⟩

theorem Policy.create_fits {kind : PolicyKind} {frames : Int} {trace : Option (List Int)} {p : Policy}
    (h : Policy.create kind frames trace = .ok p) (hf : 0 < frames) : p.Fits frames.toNat := by
  unfold Policy.create at h
  split at h <;> cases h
  · exact ⟨by omega, Int.le_refl 0, by omega⟩
  · exact ⟨by omega, Int.le_refl 0, by omega⟩
  · trivial

namespace Board

/-- A board is made one way: its RAM, swap space and policy made for the
geometry, every page and every frame blank, and the stop vector alone. -/
theorem eq_of_create_ok {g : Geometry} {kind : PolicyKind} {trace : Option (List Int)}
    {record : Bool} {log : Log} {b : Board} (h : Board.create g kind trace record log = .ok b) :
    ∃ ram swap policy, Ram.create g.frames g.pageSize = .ok ram ∧
      Swap.create g.swapSlots g.pageSize = .ok swap ∧ Policy.create kind g.frames trace = .ok policy ∧
      b = { geometry := g, ram, swap, pages := Array.replicate g.virtualPages.toNat {},
            frames := Array.replicate g.frames.toNat {}, policy,
            recording := if record then some #[] else none, log,
            interrupts := { vectors := [{ number := stopVector, handler := some .stop }] } } := by
  simp only [Board.create, bind, Except.bind] at h
  split at h
  · cases h
  · rename_i ram hram
    split at h
    · cases h
    · rename_i swap hswap
      split at h
      · cases h
      · rename_i policy hpolicy
        simp only [pure, Except.pure, Except.ok.injEq] at h
        exact ⟨ram, swap, policy, hram, hswap, hpolicy, h.symm⟩

/-- A new board of a valid geometry satisfies the invariant, with no fault
taken and no frame used. -/
theorem create_sound {g : Geometry} {kind : PolicyKind} {trace : Option (List Int)} {record : Bool}
    {log : Log} {b : Board} (hg : g.validate = .ok g) (h : Board.create g kind trace record log = .ok b) :
    b.Sound none ∧ b.Counted := by
  obtain ⟨hp, hF, hV⟩ := Geometry.validate_pos hg
  obtain ⟨ram, swap, policy, hram, hswap, hpolicy, rfl⟩ := eq_of_create_ok h
  obtain ⟨rfl, hfits⟩ := Ram.create_ok hram
  obtain ⟨hsp, hslots, hsc⟩ := Swap.create_ok hswap
  have hwords : (g.frames * g.pageSize).toNat = g.frames.toNat * g.pageSize.toNat :=
    Int.toNat_mul (by omega) (by omega)
  -- every entry of a new table is the blank one, and so is every frame
  have hpage : ∀ (v : Nat) (e : PageEntry),
      ((Array.replicate g.virtualPages.toNat ({} : PageEntry)).map PageEntry.unreferenced)[v]? =
        some e → e = PageEntry.unreferenced {} := by
    intro v e he
    simp only [Array.getElem?_map, Array.getElem?_replicate] at he
    split at he <;> simp_all
  have hframe : ∀ (f : Nat) (fe : FrameEntry),
      (Array.replicate g.frames.toNat ({} : FrameEntry))[f]? = some fe → fe = {} := by
    intro f fe hfe
    simp only [Array.getElem?_replicate] at hfe
    split at hfe <;> simp_all
  refine ⟨⟨⟨hp, rfl, ?_, ?_, hsp, hsc, ?_, ?_, ?_, ?_, ?_⟩, ⟨?_, ?_, ?_, ?_, ?_⟩,
    ⟨?_, ?_, ?_, ?_, ?_, ?_⟩, ⟨?_⟩⟩, ?_⟩
  · simp [Ram.zeroed, pageWords, hwords]
  · unfold fitsSize maxLength at hfits
    simp only [Bool.and_eq_true, decide_eq_true_eq] at hfits
    simp only [Array.size_replicate, pageWords, ← hwords]
    unfold maxLength
    omega
  · simp [hslots]
  · simp only [Array.size_replicate]; omega
  · exact Array.size_replicate
  · simp [table]
  · simpa using Policy.create_fits hpolicy hF
  · exact Nat.zero_le _
  · intro _ h; cases h
  · intro v e he hr
    cases hpage v e he
    cases hr
  · intro f fe o hfe ho
    cases hframe f fe hfe
    cases ho
  · intro f fe hfe _
    cases hframe f fe hfe
    simp
  · simp [table, Swap.used, hslots, Array.countP_replicate]
  · intro v e he hd
    cases hpage v e he
    cases hd
  · intro v w ev ew hv _ hd
    cases hpage v ev hv
    cases hd
  · intro v e he hr
    cases hpage v e he
    cases hr
  · intro v e he _
    cases hpage v e he
    exact ⟨rfl, fun _ => rfl⟩
  · simp [Swap.used, hslots]
  · intro v e he hr
    cases hpage v e he
    cases hr
  · simp [Counted]

end Board

end DemandPaging
