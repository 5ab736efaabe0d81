import Mathlib.Data.Finset.Card
import DemandPaging.Proofs.Reachable

/-!
# Swap slots stay bound to their pages

`Board.Slots`, part of the pager's invariant, binds every page on disk to a
swap slot of its own: the slot of its frame while it is resident, its location
while it is not.  Slots are handed out in order, as many as the pages on disk,
and a page out of RAM is clean.  Every reachable machine's board satisfies it
(`Reachable.sane`).  This module draws the consequences:

* every slot handed out is bound to a page: the pages on disk are as many as
  the slots and share none, so the binding is onto (`Slots.exists_bound`, a
  counting argument over `Board.diskPages`);
* an eviction hands out a slot only for a page that is not on disk, and so is
  bound to no slot (`Board.evict_allocates_unbound`);
* a swap with a slot for every page is never full: refusing an access for want
  of a slot needs more pages than slots (`Call.not_swapFull`).
-/

namespace DemandPaging

/-- The indices at which a list satisfies `p` are as many as its items that do. -/
theorem length_filter_range {α : Type} (p : α → Bool) (l : List α) :
    ((List.range l.length).filter fun v => (l[v]?.map p).getD false).length = l.countP p := by
  induction l with
  | nil => rfl
  | cons x xs ih =>
    rw [List.length_cons, List.range_succ_eq_map, List.filter_cons, List.filter_map,
      List.countP_cons]
    -- past the first index the entries are those of the tail
    have hshift : ((fun v => ((x :: xs)[v]?.map p).getD false) ∘ Nat.succ) =
        fun v => (xs[v]?.map p).getD false := rfl
    rw [hshift]
    cases hx : p x <;> simp [hx, ih]

namespace Board

variable {b : Board}

/-- The pages on disk, ascending. -/
def diskPages (b : Board) : List Nat :=
  (List.range b.table.size).filter fun v => (b.table[v]?.map PageEntry.onDisk).getD false

theorem mem_diskPages {v : Nat} :
    v ∈ b.diskPages ↔ ∃ e, b.table[v]? = some e ∧ e.onDisk = true := by
  unfold diskPages
  rw [List.mem_filter, List.mem_range]
  constructor
  · rintro ⟨hv, hd⟩
    refine ⟨b.table[v], Array.getElem?_eq_getElem hv, ?_⟩
    simpa [hv] using hd
  · rintro ⟨e, he, hd⟩
    exact ⟨(Array.getElem?_eq_some_iff.mp he).1, by simp [he, hd]⟩

theorem nodup_diskPages : b.diskPages.Nodup := List.nodup_range.filter _

theorem length_diskPages : b.diskPages.length = b.table.countP (·.onDisk) := by
  rw [← Array.countP_toList, ← length_filter_range]
  unfold diskPages
  simp only [Array.length_toList, Array.getElem?_toList]

/-- The slot a page is bound to, as an index. -/
def slotIndex (b : Board) (v : Nat) : Nat := (((b.table[v]?).bind b.slotOf).getD 0).toNat

/-- Every slot handed out is bound to a page on disk: the pages on disk are as
many as the slots, and no two share one. -/
theorem Slots.exists_bound (h : b.Slots) {s : Nat} (hs : s < b.swap.used) :
    ∃ (v : Nat) (e : PageEntry), b.table[v]? = some e ∧ e.onDisk = true ∧ b.slotOf e = some (s : Int) := by
  -- a page on disk is bound to the slot `slotIndex` names
  have hslot : ∀ v, v ∈ b.diskPages.toFinset → ∃ e, b.table[v]? = some e ∧ e.onDisk = true ∧
      b.slotOf e = some (b.slotIndex v : Int) ∧ b.slotIndex v < b.swap.used := by
    intro v hv
    obtain ⟨e, he, hd⟩ := mem_diskPages.mp (List.mem_toFinset.mp hv)
    obtain ⟨s', hs', hlt⟩ := h.bound v e he hd
    have hidx : b.slotIndex v = s' := by simp [slotIndex, he, hs']
    exact ⟨e, he, hd, by rw [hidx, hs'], hidx ▸ hlt⟩
  have hcard : (Finset.range b.swap.used).card ≤ b.diskPages.toFinset.card := by
    rw [Finset.card_range, List.toFinset_card_of_nodup nodup_diskPages, length_diskPages,
      h.used_eq]
  obtain ⟨v, hv, hvs⟩ := Finset.surj_on_of_inj_on_of_card_le (fun v _ => b.slotIndex v)
    (fun v hv => by
      obtain ⟨-, -, -, -, hlt⟩ := hslot v hv
      exact Finset.mem_range.mpr hlt)
    (fun v w hv hw hvw => by
      obtain ⟨ev, hev, hdv, hsv, -⟩ := hslot v hv
      obtain ⟨ew, hew, hdw, hsw, -⟩ := hslot w hw
      exact h.distinct v w ev ew hev hew hdv hdw (by rw [hsv, hsw, hvw]))
    hcard s (Finset.mem_range.mpr hs)
  obtain ⟨e, he, hd, hsv, -⟩ := hslot v hv
  exact ⟨v, e, he, hd, by rw [hsv, hvs]⟩

/-- A sane board with a swap slot for every page refuses no access for want of
a slot: the refusal needs more pages than slots. -/
theorem Sane.not_refused_swapFull {g : Geometry} (h : b.Sane g)
    (hfit : g.virtualPages ≤ g.swapSlots) (cap : Int) : ¬ b.Refused (.swapFull cap) := by
  rintro ⟨a, ha⟩
  cases ha with
  | swapFull _ hcap hlt =>
    have hsc := h.1.sound.shape.swap_capacity
    have hts := h.1.sound.shape.table_size
    rw [h.2] at hsc hts
    omega

/-- Eviction hands out a slot only for a page not on disk, and such a page is
bound to no slot. -/
theorem evict_allocates_unbound {u f : Nat} {fe : FrameEntry} {e : PageEntry} {b' : Board}
    (h : b.Sound none) (hfe : b.frames[f]? = some fe) (hown : fe.owner = some (u : Int))
    (hu : b.table[u]? = some e) (hrun : (evict f).run b = .ok () b')
    (hgrow : b'.swap.used ≠ b.swap.used) : e.onDisk = false ∧ b.slotOf e = none := by
  rcases evict_spec h hfe hown hu with ⟨b'', hrun', -, -, -, -, -, -, -, hused⟩ | ⟨-, -, hrun'⟩
  · rw [hrun] at hrun'
    cases hrun'
    rcases hused with hsame | ⟨-, hdisk⟩
    · exact absurd hsame hgrow
    · have hres := (h.residency.of_owner hfe hown (by simp) hu).1
      exact ⟨hdisk, h.slots.unbound u e hu hres hdisk⟩
  · rw [hrun] at hrun'
    cases hrun'

end Board

/-- No call on a reachable machine fails for want of a swap slot when there are
as many slots as pages. -/
theorem Call.not_swapFull {g : Geometry} {m : Machine} (h : Reachable g m)
    (hfit : g.virtualPages ≤ g.swapSlots) (c : Call) (cap : Int) (m' : Machine) :
    c.perform.run m ≠ .error (.swapFull cap) m' := by
  intro hrun
  have hends := c.perform_ends h.sane
  rw [hrun] at hends
  obtain ⟨hsane, hrefused⟩ := hends
  rcases hrefused with hb | hp | hv
  · exact hsane.not_refused_swapFull hfit cap hb
  · exact hp
  · cases hv

/-- Swap slots stay bound to their pages.  At every reachable machine the
slots handed out are as many as the pages on disk; each page on disk is bound
to one below that count, its frame's while it is resident and its location
otherwise, and no two pages share one, while every slot is bound to some page;
a resident page not on disk has none; a page out of RAM is clean, at location 0
unless it is on disk; and no more slots are handed out than pages written.
So an eviction hands out a slot only for a page not on disk and bound to none,
and no call fails for want of a slot when there is one for every page. -/
theorem swap_slots_bound {g : Geometry} {m : Machine} (h : Reachable g m) :
    m.board.Slots ∧
      (∀ s < m.board.swap.used, ∃ (v : Nat) (e : PageEntry),
        m.board.table[v]? = some e ∧ e.onDisk = true ∧ m.board.slotOf e = some (s : Int)) ∧
      (∀ (b b' : Board) (u f : Nat) (fe : FrameEntry) (e : PageEntry), b.Sound none →
        b.frames[f]? = some fe → fe.owner = some (u : Int) → b.table[u]? = some e →
        (Board.evict f).run b = .ok () b' → b'.swap.used ≠ b.swap.used →
        e.onDisk = false ∧ b.slotOf e = none) ∧
      (g.virtualPages ≤ g.swapSlots →
        ∀ (c : Call) (cap : Int) (m' : Machine), c.perform.run m ≠ .error (.swapFull cap) m') := by
  have hslots := h.sane.1.sound.slots
  refine ⟨hslots, fun s hs => hslots.exists_bound hs, ?_, fun hfit => Call.not_swapFull h hfit⟩
  intro b b' u f fe e hb hfe hown hu hrun hgrow
  exact Board.evict_allocates_unbound hb hfe hown hu hrun hgrow

theorem swap_slots_bound_small :
    ∃ m, Reachable smallGeometry m ∧ m.board.swap.used = m.board.table.countP (·.onDisk) := by
  obtain ⟨m, hm⟩ := Reachable.small
  exact ⟨m, hm, (swap_slots_bound hm).1.used_eq⟩

end DemandPaging
