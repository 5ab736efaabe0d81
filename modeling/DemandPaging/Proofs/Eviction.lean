import DemandPaging.Proofs.Refill

/-!
# Taking a frame

Before a faulting page can be brought in, `takeFrame` finds it a frame: the
next never used one while there is one, else the policy's victim, whose page
is evicted.  Eviction runs in two phases, each described by a relation between
the board before and after it and each with its own preservation lemma:

* `Saves`: a dirty page is written to its swap slot, handed out first unless
  the page is on disk with a slot already bound to its frame;
* `Detaches`: the page leaves RAM, clean, located at its slot if it is on disk.

Saving keeps the invariant with no hole and leaves the frame holding what the
page's backing store now holds; detaching then opens the hole at the frame.
Neither changes a word a program can see.

The main statements:

* `evict_spec`: eviction succeeds and opens the hole, or fails on a full swap
  space for a page that is not on disk, changing nothing;
* `takeFrame_spec`: the frame taken becomes the hole; fresh frames go first;
* `handleFault_spec`: a whole fault restores the invariant with the page
  resident and keeps the count of used frames in step with the faults taken;
  it fails only when the swap space is full while some page is not on disk.
-/

namespace DemandPaging

/-- The entry of a page taken out of its frame, whose slot was `slot`: out of
RAM, clean, and located at the slot if it is on disk. -/
def PageEntry.detachFrom (slot : Option Int) (e : PageEntry) : PageEntry :=
  { e with resident := false, dirty := false, location := if e.onDisk then slot.getD 0 else 0 }

namespace PageEntry
variable {slot : Option Int} {e : PageEntry}
@[simp] theorem detachFrom_resident : (e.detachFrom slot).resident = false := rfl
@[simp] theorem detachFrom_onDisk : (e.detachFrom slot).onDisk = e.onDisk := rfl
@[simp] theorem detachFrom_dirty : (e.detachFrom slot).dirty = false := rfl
@[simp] theorem detachFrom_location :
    (e.detachFrom slot).location = if e.onDisk then slot.getD 0 else 0 := rfl
end PageEntry

namespace Board

variable {b b' : Board}

/-- What taking page `u` out of frame `f` (core map entry `fe`) does to a board:
only `u`'s entry changes. -/
structure Detaches (b b' : Board) (u f : Nat) (fe : FrameEntry) : Prop where
  geometry : b'.geometry = b.geometry
  interrupts : b'.interrupts = b.interrupts
  ram : b'.ram = b.ram
  swap : b'.swap = b.swap
  frames : b'.frames = b.frames
  policy : b'.policy = b.policy
  fresh : b'.fresh = b.fresh
  diskWrites : b'.stats.diskWrites = b.stats.diskWrites
  table : b'.table = b.table.modify u (PageEntry.detachFrom fe.slot)

namespace Detaches

variable {u f : Nat} {fe : FrameEntry} {e : PageEntry} (hd : Detaches b b' u f fe)
include hd

theorem entry (w : Nat) :
    b'.table[w]? = if u = w then (b.table[w]?).map (PageEntry.detachFrom fe.slot) else b.table[w]? := by
  rw [hd.table, Array.getElem?_modify]

theorem slotOf_eq : b'.slotOf = b.slotOf := funext fun x => by simp only [slotOf, hd.frames]

theorem backing_eq : b'.backing = b.backing := funext fun x => by
  funext o
  simp only [backing, hd.slotOf_eq, hd.swap]

theorem ramWord_eq : b'.ramWord = b.ramWord := funext fun i => by simp only [ramWord, hd.ram]

theorem pageWords_eq : b'.pageWords = b.pageWords := by simp only [pageWords, hd.geometry]

section
variable (h : b.Sound none) (hfe : b.frames[f]? = some fe) (hown : fe.owner = some (u : Int))
  (hu : b.table[u]? = some e)
include h hfe hown hu

theorem resident : e.resident = true ∧ e.location = f := by
  obtain ⟨v, hv, -, e', he', hr, hl⟩ := h.residency.owned f fe u hfe hown (by simp)
  have : v = u := by omega
  subst this
  rw [hu] at he'
  cases he'
  exact ⟨hr, hl⟩

/-- A page on disk leaves with the slot it had in its frame. -/
theorem slotOf_detachFrom (hdisk : e.onDisk = true) :
    b.slotOf (e.detachFrom fe.slot) = b.slotOf e := by
  obtain ⟨hr, hl⟩ := hd.resident h hfe hown hu
  obtain ⟨s, hs, -⟩ := h.slots.bound u e hu hdisk
  rw [slotOf_of_resident hr, hl, Int.toNat_natCast, hfe, Option.bind_some] at hs
  rw [slotOf_of_not_resident PageEntry.detachFrom_resident, PageEntry.detachFrom_location,
    if_pos hdisk, hs, slotOf_of_resident hr, hl, Int.toNat_natCast, hfe, Option.bind_some, hs]
  rfl

theorem backing_detachFrom : b.backing (e.detachFrom fe.slot) = b.backing e := by
  funext o
  cases hdisk : e.onDisk with
  | false => simp [backing, hdisk]
  | true =>
    simp only [backing, PageEntry.detachFrom_onDisk, hdisk, if_true,
      hd.slotOf_detachFrom h hfe hown hu hdisk]

theorem residency : b'.Residency (some f) := by
  have re := h.residency
  obtain ⟨hr, hl⟩ := hd.resident h hfe hown hu
  refine ⟨?_, ?_, ?_, ?_, ?_⟩
  · rw [hd.fresh, hd.frames]
    exact re.fresh_le
  · intro x hx
    cases hx
    rw [hd.fresh]
    exact (re.used_iff f fe hfe (by simp)).mp (by simp [hown])
  · intro w ew hw hrw
    rw [hd.entry] at hw
    by_cases huw : u = w
    · subst huw
      rw [if_pos rfl, hu] at hw
      cases hw
      cases hrw
    · rw [if_neg huw] at hw
      obtain ⟨f', hf', -, fe', hfe', hown'⟩ := re.located w ew hw hrw
      -- frame `f` belongs to `u`, frame `f'` to `w`
      have hne : f ≠ f' := by
        rintro rfl
        rw [hfe] at hfe'
        cases hfe'
        rw [hown] at hown'
        exact huw (by exact_mod_cast Option.some.inj hown')
      exact ⟨f', hf', by simpa using hne, fe', by rw [hd.frames]; exact hfe', hown'⟩
  · intro f' fe' o hfe' ho hne
    rw [hd.frames] at hfe'
    obtain ⟨w, rfl, hwfit, ew, hw, hrw, hlw⟩ := re.owned f' fe' o hfe' ho (by simp)
    have huw : u ≠ w := by
      rintro rfl
      rw [hu] at hw
      cases hw
      rw [hl] at hlw
      exact hne (by rw [show f = f' by omega])
    exact ⟨w, rfl, hwfit, ew, by rw [hd.entry, if_neg huw, hw], hrw, hlw⟩
  · intro f' fe' hfe' _
    rw [hd.frames] at hfe'
    rw [hd.fresh]
    exact re.used_iff f' fe' hfe' (by simp)

/-- The entries of the board after, each with the one it came from. -/
theorem entry_back {w : Nat} {ew' : PageEntry} (hw : b'.table[w]? = some ew') :
    ∃ ew, b.table[w]? = some ew ∧ ew'.onDisk = ew.onDisk ∧
      (ew'.onDisk = true → b'.slotOf ew' = b.slotOf ew) ∧ b'.backing ew' = b.backing ew ∧
      (u ≠ w → ew' = ew) := by
  rw [hd.entry] at hw
  by_cases huw : u = w
  · subst huw
    rw [if_pos rfl, hu] at hw
    cases hw
    exact ⟨e, hu, rfl, fun hdisk => by rw [hd.slotOf_eq]; exact hd.slotOf_detachFrom h hfe hown hu hdisk,
      by rw [hd.backing_eq]; exact hd.backing_detachFrom h hfe hown hu, fun h => absurd rfl h⟩
  · rw [if_neg huw] at hw
    exact ⟨ew', hw, rfl, fun _ => by rw [hd.slotOf_eq], by rw [hd.backing_eq], fun _ => rfl⟩

theorem slots : b'.Slots := by
  have sl := h.slots
  refine ⟨?_, ?_, ?_, ?_, ?_, ?_⟩
  · rw [hd.swap, hd.table, countP_modify_of_eq (g := PageEntry.detachFrom fe.slot) (fun _ => rfl)]
    exact sl.used_eq
  · intro w ew hw hdisk
    obtain ⟨ew₀, hw₀, hd₀, hslot, -⟩ := hd.entry_back h hfe hown hu hw
    rw [hslot hdisk, hd.swap]
    exact sl.bound w ew₀ hw₀ (hd₀ ▸ hdisk)
  · intro w₁ w₂ e₁ e₂ h₁ h₂ hd₁ hd₂ heq
    obtain ⟨e₁', h₁', hd₁', hs₁, -⟩ := hd.entry_back h hfe hown hu h₁
    obtain ⟨e₂', h₂', hd₂', hs₂, -⟩ := hd.entry_back h hfe hown hu h₂
    rw [hs₁ hd₁, hs₂ hd₂] at heq
    exact sl.distinct w₁ w₂ e₁' e₂' h₁' h₂' (hd₁' ▸ hd₁) (hd₂' ▸ hd₂) heq
  · intro w ew hw hrw hdisk
    rw [hd.entry] at hw
    by_cases huw : u = w
    · subst huw
      rw [if_pos rfl, hu] at hw
      cases hw
      cases hrw
    · rw [if_neg huw] at hw
      rw [hd.slotOf_eq]
      exact sl.unbound w ew hw hrw hdisk
  · intro w ew hw hrw
    rw [hd.entry] at hw
    by_cases huw : u = w
    · subst huw
      rw [if_pos rfl, hu] at hw
      cases hw
      refine ⟨rfl, fun hdisk => ?_⟩
      rw [PageEntry.detachFrom_onDisk] at hdisk
      rw [PageEntry.detachFrom_location, hdisk]
      rfl
    · rw [if_neg huw] at hw
      exact sl.away w ew hw hrw
  · rw [hd.swap, hd.diskWrites]
    exact sl.used_le

omit hfe hown in
theorem backed : b'.Backed := by
  refine ⟨fun w ew hw hrw hdirty o ho => ?_⟩
  rw [hd.entry] at hw
  by_cases huw : u = w
  · subst huw
    rw [if_pos rfl, hu] at hw
    cases hw
    cases hrw
  · rw [if_neg huw] at hw
    rw [hd.ramWord_eq, hd.backing_eq, hd.pageWords_eq]
    rw [hd.pageWords_eq] at ho
    exact h.backed.saved w ew hw hrw hdirty o ho

/-- No word changes: the page's frame held what its backing store holds. -/
theorem pageWord_eq (hsaved : b.Saved e) (w : Nat) {o : Nat} (ho : o < b.pageWords) :
    b'.pageWord w o = b.pageWord w o := by
  obtain ⟨hr, -⟩ := hd.resident h hfe hown hu
  unfold pageWord
  rw [hd.entry, hd.pageWords_eq, hd.ramWord_eq, hd.backing_eq]
  by_cases huw : u = w
  · subst huw
    rw [if_pos rfl, hu]
    simp only [Option.map_some, PageEntry.detachFrom_resident, Bool.false_eq_true, if_false, hr,
      if_true]
    rw [hd.backing_detachFrom h hfe hown hu]
    exact (hsaved o ho).symm
  · rw [if_neg huw]

theorem contents_eq (hsaved : b.Saved e) : b'.contents = b.contents := by
  funext a
  unfold contents
  rw [hd.table, Array.size_modify, hd.geometry, hd.pageWords_eq]
  split
  · exact hd.pageWord_eq h hfe hown hu hsaved _ (Nat.mod_lt _ h.shape.pageWords_pos)
  · rfl

end

end Detaches

/-- Taking a page out of its frame, when the frame holds what the page's backing
store holds, opens a hole at the frame and changes no word a program can see. -/
theorem Sound.detach {u f : Nat} {fe : FrameEntry} {e : PageEntry} (h : b.Sound none)
    (hfe : b.frames[f]? = some fe) (hown : fe.owner = some (u : Int)) (hu : b.table[u]? = some e)
    (hsaved : b.Saved e) (hd : Detaches b b' u f fe) :
    b'.Sound (some f) ∧ b'.contents = b.contents := by
  refine ⟨⟨?_, hd.residency h hfe hown hu, hd.slots h hfe hown hu, hd.backed h hu⟩,
    hd.contents_eq h hfe hown hu hsaved⟩
  exact h.shape.transfer hd.geometry (by rw [hd.ram]) (by rw [hd.ram]) (by rw [hd.swap])
    (by rw [hd.swap]) (by rw [hd.swap]; exact h.shape.slot_size) (by rw [hd.frames]) (by rw [hd.table, Array.size_modify])
    (by rw [hd.policy]; exact h.shape.policy_fits)


/-- What writing the dirty page `u` of frame `f` to swap slot `s` does to a
board; `allocated` tells whether the slot was handed out for it. -/
structure Saves (b b' : Board) (u f s : Nat) (allocated : Bool) : Prop where
  geometry : b'.geometry = b.geometry
  interrupts : b'.interrupts = b.interrupts
  ram : b'.ram = b.ram
  policy : b'.policy = b.policy
  fresh : b'.fresh = b.fresh
  swap_pageSize : b'.swap.pageSize = b.swap.pageSize
  swap_capacity : b'.swap.capacity = b.swap.capacity
  slot : ∀ t, b'.swap.slots[t]? = if t = s then some (b.ram.readFrame f) else b.swap.slots[t]?
  used : b'.swap.used = if allocated then b.swap.used + 1 else b.swap.used
  frames : b'.frames =
    if allocated then b.frames.modify f (fun fe => { fe with slot := some (s : Int) }) else b.frames
  table : b'.table = b.table.modify u (fun e => { e with onDisk := true })
  diskWrites : b'.stats.diskWrites = b.stats.diskWrites + 1

namespace Saves

variable {u f s : Nat} {allocated : Bool} {fe : FrameEntry} {e : PageEntry}
  (hs : Saves b b' u f s allocated)
include hs

theorem entry (w : Nat) :
    b'.table[w]? = if u = w then (b.table[w]?).map (fun e => { e with onDisk := true }) else b.table[w]? := by
  rw [hs.table, Array.getElem?_modify]

theorem frame (f' : Nat) :
    b'.frames[f']? = if allocated ∧ f = f' then
      (b.frames[f']?).map (fun fe => { fe with slot := some (s : Int) }) else b.frames[f']? := by
  rw [hs.frames]
  cases allocated with
  | false => simp
  | true => simp [Array.getElem?_modify]

theorem pageWords_eq : b'.pageWords = b.pageWords := by simp only [pageWords, hs.geometry]

theorem ramWord_eq : b'.ramWord = b.ramWord := funext fun i => by simp only [ramWord, hs.ram]

section
variable (h : b.Sound none) (hfe : b.frames[f]? = some fe) (hown : fe.owner = some (u : Int))
  (hu : b.table[u]? = some e)
  (hslot : if allocated then s = b.swap.used ∧ e.onDisk = false else e.onDisk = true ∧ b.slotOf e = some (s : Int))
include h hfe hown hu hslot

omit hslot in
theorem located : e.resident = true ∧ e.location = f := by
  obtain ⟨v, hv, -, e', he', hr, hl⟩ := h.residency.owned f fe u hfe hown (by simp)
  have : v = u := by omega
  subst this
  rw [hu] at he'
  cases he'
  exact ⟨hr, hl⟩

/-- The saved page is bound to slot `s`. -/
theorem slotOf_saved : b'.slotOf { e with onDisk := true } = some (s : Int) := by
  obtain ⟨hr, hl⟩ := hs.located h hfe hown hu
  have hr' : ({ e with onDisk := true } : PageEntry).resident = true := hr
  rw [slotOf_of_resident hr']
  show (b'.frames[e.location.toNat]?).bind FrameEntry.slot = _
  rw [hl, Int.toNat_natCast, hs.frame]
  cases allocated with
  | true => simp [hfe]
  | false =>
    simp only [Bool.false_eq_true, false_and, if_false]
    rw [← hslot.2, slotOf_of_resident hr, hl, Int.toNat_natCast]

omit hslot in
/-- Any other page keeps its slot. -/
theorem slotOf_other {w : Nat} {ew : PageEntry} (hw : b.table[w]? = some ew) (huw : u ≠ w) :
    b'.slotOf ew = b.slotOf ew := by
  obtain ⟨hr, hl⟩ := hs.located h hfe hown hu
  cases hrw : ew.resident with
  | false => rw [slotOf_of_not_resident hrw, slotOf_of_not_resident hrw]
  | true =>
    obtain ⟨f', hf', -⟩ := h.residency.located w ew hw hrw
    have hne : f ≠ f' := by
      rintro rfl
      exact huw (h.residency.eq_of_location hu hw hr hrw (by rw [hl, hf']))
    rw [slotOf_of_resident hrw, slotOf_of_resident hrw, hf', Int.toNat_natCast, hs.frame,
      if_neg (fun h => hne h.2)]

omit hfe hown in
/-- Any other page on disk is bound to a slot other than `s`. -/
theorem slot_ne {w : Nat} {ew : PageEntry} (hw : b.table[w]? = some ew) (huw : u ≠ w)
    (hd : ew.onDisk = true) {t : Nat} (ht : b.slotOf ew = some (t : Int)) : t ≠ s := by
  rintro rfl
  cases allocated with
  | true =>
    obtain ⟨t', ht', hlt⟩ := h.slots.bound w ew hw hd
    rw [ht'] at ht
    have : (t' : Int) = t := by simpa using ht
    obtain ⟨hsu, -⟩ := hslot
    omega
  | false =>
    obtain ⟨hdu, hsu⟩ := hslot
    exact huw (h.slots.distinct u w e ew hu hw hdu hd (by rw [hsu, ht]))

theorem backing_other {w : Nat} {ew : PageEntry} (hw : b.table[w]? = some ew) (huw : u ≠ w) :
    b'.backing ew = b.backing ew := by
  funext o
  cases hd : ew.onDisk with
  | false => simp [backing, hd]
  | true =>
    obtain ⟨t, ht, -⟩ := h.slots.bound w ew hw hd
    have hne := hs.slot_ne h hu hslot hw huw hd ht
    simp only [backing, hd, if_true, hs.slotOf_other h hfe hown hu hw huw, ht,
      Int.toNat_natCast, hs.slot, if_neg hne]

omit hfe hown hu hslot in
theorem residency : b'.Residency none := by
  refine h.residency.transfer ?_ (fun f' => ?_) (fun w => ?_) hs.fresh
  · rw [hs.frames]
    split <;> simp
  · rw [hs.frame]
    split
    · rename_i hff
      rw [← hff.2]
      cases b.frames[f]? <;> rfl
    · rfl
  · rw [hs.entry]
    split
    · cases b.table[w]? <;> rfl
    · rfl

omit h hfe hown hslot in
/-- The entries of the board after, with the ones they came from. -/
theorem entry_back {w : Nat} {ew' : PageEntry} (hw : b'.table[w]? = some ew') :
    (u = w ∧ ew' = { e with onDisk := true }) ∨ (u ≠ w ∧ b.table[w]? = some ew') := by
  rw [hs.entry] at hw
  by_cases huw : u = w
  · subst huw
    rw [if_pos rfl, hu] at hw
    cases hw
    exact .inl ⟨rfl, rfl⟩
  · rw [if_neg huw] at hw
    exact .inr ⟨huw, hw⟩

theorem slots : b'.Slots := by
  obtain ⟨hr, hl⟩ := hs.located h hfe hown hu
  have sl := h.slots
  have hulen : u < b.table.size := (Array.getElem?_eq_some_iff.mp hu).1
  have hue : b.table[u] = e := by
    rw [Array.getElem?_eq_getElem hulen] at hu
    exact Option.some.inj hu
  -- slot `s` is free before exactly when it was handed out now
  have hslt : s < b'.swap.used := by
    rw [hs.used]
    cases allocated with
    | true =>
      obtain ⟨hsu, -⟩ := hslot
      simp only [if_true]
      omega
    | false =>
      obtain ⟨hdu, hsu⟩ := hslot
      obtain ⟨t, ht, htlt⟩ := sl.bound u e hu hdu
      rw [hsu] at ht
      have : (s : Int) = t := by simpa using ht
      simp only [Bool.false_eq_true, if_false]
      omega
  refine ⟨?_, ?_, ?_, ?_, ?_, ?_⟩
  · rw [hs.used, hs.table, countP_modify _ hulen, hue, sl.used_eq]
    cases allocated with
    | true => simp [hslot.2]
    | false =>
      have hpos : 0 < b.table.countP (·.onDisk) :=
        Array.countP_pos_iff.mpr ⟨e, hue ▸ Array.getElem_mem hulen, hslot.1⟩
      simp only [Bool.false_eq_true, if_false, hslot.1, if_true]
      omega
  · intro w ew hw hd
    rcases hs.entry_back hu hw with ⟨rfl, rfl⟩ | ⟨huw, hw'⟩
    · exact ⟨s, hs.slotOf_saved h hfe hown hu hslot, hslt⟩
    · obtain ⟨t, ht, htlt⟩ := sl.bound w ew hw' hd
      refine ⟨t, by rw [hs.slotOf_other h hfe hown hu hw' huw, ht], ?_⟩
      rw [hs.used]
      split <;> omega
  · intro w₁ w₂ e₁ e₂ h₁ h₂ hd₁ hd₂ heq
    rcases hs.entry_back hu h₁ with ⟨rfl, rfl⟩ | ⟨hu₁, h₁'⟩ <;>
      rcases hs.entry_back hu h₂ with ⟨rfl, rfl⟩ | ⟨hu₂, h₂'⟩
    · rfl
    · obtain ⟨t, ht, -⟩ := sl.bound w₂ e₂ h₂' hd₂
      rw [hs.slotOf_saved h hfe hown hu hslot, hs.slotOf_other h hfe hown hu h₂' hu₂, ht] at heq
      exact absurd (by have := Option.some.inj heq; omega) (hs.slot_ne h hu hslot h₂' hu₂ hd₂ ht)
    · obtain ⟨t, ht, -⟩ := sl.bound w₁ e₁ h₁' hd₁
      rw [hs.slotOf_saved h hfe hown hu hslot, hs.slotOf_other h hfe hown hu h₁' hu₁, ht] at heq
      exact absurd (by have := Option.some.inj heq; omega) (hs.slot_ne h hu hslot h₁' hu₁ hd₁ ht)
    · rw [hs.slotOf_other h hfe hown hu h₁' hu₁, hs.slotOf_other h hfe hown hu h₂' hu₂] at heq
      exact sl.distinct w₁ w₂ e₁ e₂ h₁' h₂' hd₁ hd₂ heq
  · intro w ew hw hrw hd
    rcases hs.entry_back hu hw with ⟨rfl, rfl⟩ | ⟨huw, hw'⟩
    · cases hd
    · rw [hs.slotOf_other h hfe hown hu hw' huw]
      exact sl.unbound w ew hw' hrw hd
  · intro w ew hw hrw
    rcases hs.entry_back hu hw with ⟨rfl, rfl⟩ | ⟨huw, hw'⟩
    · rw [hr] at hrw
      cases hrw
    · exact sl.away w ew hw' hrw
  · rw [hs.used, hs.diskWrites]
    have := sl.used_le
    split <;> omega

/-- The saved page's frame now holds what its slot holds. -/
theorem saved : b'.Saved { e with onDisk := true } := by
  obtain ⟨hr, hl⟩ := hs.located h hfe hown hu
  have hf : f < b.frames.size := (Array.getElem?_eq_some_iff.mp hfe).1
  have hp := h.shape.ram_pageSize_eq
  have hk := h.shape.frame_end_le hf
  intro o ho
  rw [hs.pageWords_eq] at ho ⊢
  show b'.ramWord (e.location.toNat * b.pageWords + o) = b'.backing { e with onDisk := true } o
  unfold backing
  rw [if_pos rfl, hs.slotOf_saved h hfe hown hu hslot]
  dsimp only
  rw [Int.toNat_natCast, hs.slot, if_pos rfl, Option.bind_some, Ram.getElem?_readFrame hp hk,
    if_pos ho, hs.ramWord_eq, hl, Int.toNat_natCast]
  rfl

theorem backed : b'.Backed := by
  refine ⟨fun w ew hw hrw hdirty o ho => ?_⟩
  rcases hs.entry_back hu hw with ⟨rfl, rfl⟩ | ⟨huw, hw'⟩
  · exact hs.saved h hfe hown hu hslot o ho
  · rw [hs.ramWord_eq, hs.backing_other h hfe hown hu hslot hw' huw, hs.pageWords_eq]
    rw [hs.pageWords_eq] at ho
    exact h.backed.saved w ew hw' hrw hdirty o ho

theorem pageWord_eq (w o : Nat) : b'.pageWord w o = b.pageWord w o := by
  obtain ⟨hr, -⟩ := hs.located h hfe hown hu
  unfold pageWord
  rw [hs.entry, hs.pageWords_eq, hs.ramWord_eq]
  by_cases huw : u = w
  · subst huw
    rw [if_pos rfl, hu]
    simp only [Option.map_some, hr, if_true]
  · rw [if_neg huw]
    cases hw : b.table[w]? with
    | none => rfl
    | some ew =>
      dsimp only
      rw [hs.backing_other h hfe hown hu hslot hw huw]

theorem contents_eq : b'.contents = b.contents := by
  funext a
  unfold contents
  rw [hs.table, Array.size_modify, hs.geometry, hs.pageWords_eq,
    hs.pageWord_eq h hfe hown hu hslot]

omit hown hu hslot in
theorem slot_size : ∀ x ∈ b'.swap.slots, x.size = b.pageWords := by
  have hf : f < b.frames.size := (Array.getElem?_eq_some_iff.mp hfe).1
  have hp := h.shape.ram_pageSize_eq
  have hk := h.shape.frame_end_le hf
  intro x hx
  obtain ⟨t, ht⟩ := Array.mem_iff_getElem?.mp hx
  rw [hs.slot] at ht
  split at ht
  · cases ht
    exact Ram.size_readFrame hp hk
  · exact h.shape.slot_size x (Array.mem_of_getElem? ht)

end

end Saves

/-- Writing a dirty page to its slot keeps the invariant and changes no word a
program can see; the page's frame then holds what its slot holds. -/
theorem Sound.save {u f s : Nat} {allocated : Bool} {fe : FrameEntry} {e : PageEntry}
    (h : b.Sound none) (hfe : b.frames[f]? = some fe) (hown : fe.owner = some (u : Int))
    (hu : b.table[u]? = some e)
    (hslot : if allocated then s = b.swap.used ∧ e.onDisk = false
      else e.onDisk = true ∧ b.slotOf e = some (s : Int))
    (hs : Saves b b' u f s allocated) :
    b'.Sound none ∧ b'.contents = b.contents ∧ b'.Saved { e with onDisk := true } := by
  refine ⟨⟨?_, hs.residency h, hs.slots h hfe hown hu hslot, hs.backed h hfe hown hu hslot⟩,
    hs.contents_eq h hfe hown hu hslot, hs.saved h hfe hown hu hslot⟩
  exact h.shape.transfer hs.geometry (by rw [hs.ram]) (by rw [hs.ram]) hs.swap_pageSize
    hs.swap_capacity (hs.slot_size h hfe)
    (by rw [hs.frames]; split <;> simp) (by rw [hs.table, Array.size_modify])
    (by rw [hs.policy]; exact h.shape.policy_fits)


theorem allocateSlot_run_of_lt (h : (b.swap.used : Int) < b.swap.capacity) :
    allocateSlot.run b = .ok (b.swap.used : Int)
      { b with swap := { b.swap with slots := b.swap.slots.push b.swap.blank } } := by
  simp only [allocateSlot, EStateM.run_bind, EStateM.run_get, Swap.allocate_of_lt h, ofExcept_run_ok]
  rfl

theorem allocateSlot_run_of_full (h : b.swap.capacity ≤ b.swap.used) :
    allocateSlot.run b = .error (.swapFull b.swap.capacity) b := by
  simp only [allocateSlot, EStateM.run_bind, EStateM.run_get, Swap.allocate_of_full h,
    ofExcept_run_error]

theorem saveFrame_run {u f : Nat} {fe : FrameEntry} {page : PageEntry} (h : b.Sound none)
    (hfe : b.frames[f]? = some fe) (hown : fe.owner = some (u : Int)) (hpage : b.pages[u]? = some page) :
    (page.onDisk = false ∧ b.swap.capacity ≤ b.swap.used ∧
      (saveFrame f fe u page).run b = .error (.swapFull b.swap.capacity) b) ∨
    ∃ s allocated b', (saveFrame f fe u page).run b = .ok () b' ∧ Saves b b' u f s allocated ∧
      (if allocated then s = b.swap.used ∧ page.onDisk = false
        else page.onDisk = true ∧ b.slotOf page.unreferenced = some (s : Int)) ∧
      b'.stats.faults = b.stats.faults := by
  have hu : b.table[u]? = some page.unreferenced := by rw [getElem?_table, hpage]; rfl
  have hulen : u < b.pages.size := (Array.getElem?_eq_some_iff.mp hpage).1
  have hf : f < b.frames.size := (Array.getElem?_eq_some_iff.mp hfe).1
  have hp := h.shape.ram_pageSize_eq
  have hk := h.shape.frame_end_le hf
  have hframe : (b.ram.readFrame f).size = b.pageWords := Ram.size_readFrame hp hk
  have hstore : ((b.ram.readFrame f).size : Int) = b.swap.pageSize := by
    rw [hframe, h.shape.swap_pageSize, h.shape.pageSize_eq]
  cases hd : page.onDisk with
  | true =>
    -- a page on disk is bound to its frame's slot: it is written back there
    obtain ⟨hr, hl⟩ := h.residency.of_owner hfe hown (by simp) hu
    obtain ⟨s, hs, hslt⟩ := h.slots.bound u _ hu hd
    have hslt' : s < b.swap.slots.size := hslt
    have hs' := hs
    rw [PageEntry.location_unreferenced] at hl
    rw [slotOf_of_resident hr] at hs'
    simp only [PageEntry.location_unreferenced, hl, Int.toNat_natCast, hfe, Option.bind_some] at hs'
    simp only [saveFrame, EStateM.run_bind, hd, hs', EStateM.run_get, EStateM.run_pure,
      Swap.store_natCast hslt' hstore, ofExcept_run_ok]
    refine .inr ⟨s, false, _, rfl, ⟨rfl, rfl, rfl, rfl, rfl, rfl, rfl, fun t => ?_, ?_, rfl, ?_, rfl⟩,
      by simp [hs], rfl⟩
    · dsimp only
      rw [Array.getElem?_set]
      by_cases hts : t = s
      · simp [hts]
      · simp [hts, Ne.symm hts]
    · simp [Swap.used]
    · exact map_update_unreferenced fun _ => rfl
  | false =>
    by_cases hcap : b.swap.capacity ≤ b.swap.used
    · refine .inl ⟨rfl, hcap, ?_⟩
      simp only [saveFrame, EStateM.run_bind, hd, allocateSlot_run_of_full hcap]
    · have hlt : (b.swap.used : Int) < b.swap.capacity := by omega
      have hslt' : b.swap.slots.size < (b.swap.slots.push b.swap.blank).size := by simp
      have hstore' : ((b.ram.readFrame f).size : Int) = b.swap.pageSize := hstore
      have hk' : b.swap.used < ({ b.swap with slots := b.swap.slots.push b.swap.blank } : Swap).slots.size := by
        simp [Swap.used]
      simp only [saveFrame, EStateM.run_bind, hd, allocateSlot_run_of_lt hlt, EStateM.run_get,
        EStateM.run_pure, modifyFrame_run, notePager_run, EStateM.run_modify, modifyPage_run,
        Swap.store_natCast hk' hstore', ofExcept_run_ok]
      refine .inr ⟨b.swap.used, true, _, rfl, ⟨rfl, rfl, rfl, rfl, rfl, rfl, rfl, fun t => ?_, ?_, ?_, ?_, rfl⟩,
        by simp, rfl⟩
      · dsimp only
        rw [Array.getElem?_set, Array.getElem?_push]
        simp only [Swap.used]
        by_cases hts : t = b.swap.slots.size
        · simp [hts]
        · simp [hts, Ne.symm hts]
      · simp [Swap.used]
      · simp [Seq.update_natCast]
      · exact map_update_unreferenced fun _ => rfl


theorem detach_run {u f : Nat} {fe : FrameEntry} (hfe : b.frames[f]? = some fe)
    (hfit : (f : Int) ≤ maxLength) :
    ∃ b', (detach f u).run b = .ok () b' ∧ Detaches b b' u f fe ∧
      b'.stats.faults = b.stats.faults ∧ b'.swap.used = b.swap.used := by
  have hf : f < b.frames.size := (Array.getElem?_eq_some_iff.mp hfe).1
  have hfe' : b.frames[f] = fe := by
    rw [Array.getElem?_eq_getElem hf] at hfe
    exact Option.some.inj hfe
  simp only [detach, EStateM.run_bind, frameAt_run hf hfit, hfe', modifyPage_run, notePager_run]
  exact ⟨_, rfl, ⟨rfl, rfl, rfl, rfl, rfl, rfl, rfl, rfl, map_update_unreferenced fun _ => rfl⟩, rfl, rfl⟩


/-- Evicting the owner `u` of frame `f` from a sound board opens a hole at `f`
and keeps every word a program sees; only `u`'s entry changes.  It fails only
when `u` needs a swap slot and none is left, and then changes nothing.  A slot
is handed out only to a page that is not on disk. -/
theorem evict_spec {u f : Nat} {fe : FrameEntry} {e : PageEntry} (h : b.Sound none)
    (hfe : b.frames[f]? = some fe) (hown : fe.owner = some (u : Int)) (hu : b.table[u]? = some e) :
    (∃ b', (evict f).run b = .ok () b' ∧ b'.Sound (some f) ∧ b'.contents = b.contents ∧
        b'.geometry = b.geometry ∧ b'.interrupts = b.interrupts ∧ b'.fresh = b.fresh ∧
        b'.stats.faults = b.stats.faults ∧ (∀ w, u ≠ w → b'.table[w]? = b.table[w]?) ∧
        (b'.swap.used = b.swap.used ∨ (b'.swap.used = b.swap.used + 1 ∧ e.onDisk = false))) ∨
      (e.onDisk = false ∧ b.swap.capacity ≤ b.swap.used ∧
        (evict f).run b = .error (.swapFull b.swap.capacity) b) := by
  have hf : f < b.frames.size := (Array.getElem?_eq_some_iff.mp hfe).1
  have hfe' : b.frames[f] = fe := by
    rw [Array.getElem?_eq_getElem hf] at hfe
    exact Option.some.inj hfe
  have hfit : (f : Int) ≤ maxLength := by have := h.shape.frames_fit; omega
  obtain ⟨v, hv, hufit, e', hu', hr, hl⟩ := h.residency.owned f fe u hfe hown (by simp)
  have hvu : v = u := by omega
  subst hvu
  rw [hu] at hu'
  cases hu'
  have hu₀ := hu
  rw [getElem?_table, Option.map_eq_some_iff] at hu₀
  obtain ⟨page, hpage, rfl⟩ := hu₀
  have hulen : v < b.pages.size := (Array.getElem?_eq_some_iff.mp hpage).1
  have hpv : b.pages[v] = page := by
    rw [Array.getElem?_eq_getElem hulen] at hpage
    exact Option.some.inj hpage
  simp only [evict, EStateM.run_bind, frameAt_run hf hfit, hfe', hown, pageAt_run hulen hufit, hpv]
  split
  · -- a dirty page is written to swap first, then taken out of its frame
    rename_i hdirty
    rcases saveFrame_run h hfe hown hpage with ⟨hd, hcap, hrun⟩ | ⟨s, allocated, b₁, hrun, hs, hslot, hfa₁⟩
    · refine .inr ⟨hd, hcap, ?_⟩
      simp only [EStateM.run_bind, hrun]
    · obtain ⟨h₁, hc₁, hsaved₁⟩ := Sound.save h hfe hown hu hslot hs
      -- the frame still names `v`, now with the slot
      obtain ⟨fe₁, hfe₁, hown₁⟩ : ∃ fe₁, b₁.frames[f]? = some fe₁ ∧ fe₁.owner = some (v : Int) := by
        rw [hs.frame, hfe]
        split
        · exact ⟨_, rfl, hown⟩
        · exact ⟨fe, rfl, hown⟩
      have hu₁ : b₁.table[v]? = some { page.unreferenced with onDisk := true } := by
        rw [hs.entry, if_pos rfl, hu]
        rfl
      obtain ⟨b₂, hrun₂, hd₂, hfa₂, hused₂⟩ := detach_run (u := v) hfe₁ hfit
      obtain ⟨h₂, hc₂⟩ := Sound.detach h₁ hfe₁ hown₁ hu₁ hsaved₁ hd₂
      refine .inl ⟨b₂, ?_, h₂, hc₂.trans hc₁, hd₂.geometry.trans hs.geometry,
        hd₂.interrupts.trans hs.interrupts, hd₂.fresh.trans hs.fresh, hfa₂.trans hfa₁, ?_, ?_⟩
      · simp only [EStateM.run_bind, hrun, hrun₂]
      · intro w hvw
        rw [hd₂.entry, if_neg hvw, hs.entry, if_neg hvw]
      · rw [hused₂, hs.used]
        cases allocated with
        | true => exact .inr ⟨rfl, hslot.2⟩
        | false => exact .inl rfl
  · -- a clean page's frame already holds what its backing store holds
    rename_i hclean
    have hsaved := h.backed.saved v _ hu hr (by simpa using hclean)
    obtain ⟨b₂, hrun₂, hd₂, hfa₂, hused₂⟩ := detach_run (u := v) hfe hfit
    obtain ⟨h₂, hc₂⟩ := Sound.detach h hfe hown hu hsaved hd₂
    refine .inl ⟨b₂, hrun₂, h₂, hc₂, hd₂.geometry, hd₂.interrupts, hd₂.fresh, hfa₂, fun w hvw => ?_,
      .inl hused₂⟩
    rw [hd₂.entry, if_neg hvw]


/-- The board's action of choosing a victim returns the policy's choice, on
the board holding the policy's new state and the pages it marked. -/
theorem selectVictim_run_ok {f : Int} (hf : (b.policy.selectVictim b.frames b.pages).1 = .ok f) :
    selectVictim.run b = .ok f { b with
      policy := (b.policy.selectVictim b.frames b.pages).2.1
      pages := (b.policy.selectVictim b.frames b.pages).2.2 } := by
  show selectVictim b = _
  unfold selectVictim
  generalize b.policy.selectVictim b.frames b.pages = t at hf ⊢
  obtain ⟨r, p, pg⟩ := t
  dsimp only at hf ⊢
  subst hf
  rfl

theorem selectVictim_run_error {e : Fault}
    (he : (b.policy.selectVictim b.frames b.pages).1 = .error e) :
    selectVictim.run b = .error e { b with
      policy := (b.policy.selectVictim b.frames b.pages).2.1
      pages := (b.policy.selectVictim b.frames b.pages).2.2 } := by
  show selectVictim b = _
  unfold selectVictim
  generalize b.policy.selectVictim b.frames b.pages = t at he ⊢
  obtain ⟨r, p, pg⟩ := t
  dsimp only at he ⊢
  subst he
  rfl

/-- The policy picks a frame, and what it changes on the way (its own state
and referenced bits) leaves the invariant and the view as they were. -/
theorem selectVictim_spec (h : b.Sound none) :
    ∃ (f : Nat) (b₁ : Board), f < b.frames.size ∧ selectVictim.run b = .ok (f : Int) b₁ ∧
      b₁.Sound none ∧ b₁.contents = b.contents ∧ b₁.geometry = b.geometry ∧
      b₁.interrupts = b.interrupts ∧ b₁.table = b.table ∧ b₁.frames = b.frames ∧ b₁.fresh = b.fresh ∧
      b₁.swap = b.swap ∧ b₁.stats = b.stats := by
  have howners : Policy.OwnersIn b.frames b.pages := by
    intro f fe o hfe ho
    obtain ⟨v, rfl, hvfit, e, he, -⟩ := h.residency.owned f fe o hfe ho (by simp)
    have : v < b.table.size := (Array.getElem?_eq_some_iff.mp he).1
    exact ⟨v, rfl, by rwa [size_table] at this, hvfit⟩
  obtain ⟨f, hf⟩ := Policy.selectVictim_ok h.shape.policy_fits h.shape.frames_fit howners
  obtain ⟨h0, h1⟩ := Policy.selectVictim_lt h.shape.policy_fits h.shape.frames_pos hf
  let b₁ : Board := { b with
    policy := (b.policy.selectVictim b.frames b.pages).2.1
    pages := (b.policy.selectVictim b.frames b.pages).2.2 }
  have ht : b₁.table = b.table := Policy.selectVictim_unreferenced
  refine ⟨f.toNat, b₁, by omega, ?_, h.congr rfl rfl rfl ht rfl rfl
    (Policy.selectVictim_fits h.shape.policy_fits h.shape.frames_pos)
    (h.residency.congr ht rfl rfl), contents_congr rfl rfl rfl ht rfl, rfl, rfl, ht, rfl, rfl, rfl, rfl⟩
  rw [Int.toNat_of_nonneg h0]
  exact selectVictim_run_ok hf


/-- Taking a frame for the page `v`, out of RAM: a never used frame while there
is one, else the policy's victim after evicting its page.  Either way the
frame becomes the hole, no word changes and `v`'s entry is untouched; only an
eviction that finds no swap slot fails, and it changes neither the swap space
nor what a program sees. -/
theorem takeFrame_spec {v : Nat} {e : PageEntry} (h : b.Sound none) (hv : b.table[v]? = some e)
    (hr : e.resident = false) :
    (∃ (f : Nat) (b' : Board), takeFrame.run b = .ok (f : Int) b' ∧ b'.Sound (some f) ∧
        b'.contents = b.contents ∧ b'.geometry = b.geometry ∧ b'.interrupts = b.interrupts ∧
        b'.table[v]? = some e ∧ b'.stats.faults = b.stats.faults ∧
        ((b.fresh < b.frames.size ∧ b'.fresh = b.fresh + 1) ∨
          (b.fresh = b.frames.size ∧ b'.fresh = b.fresh)) ∧
        (b'.swap.used = b.swap.used ∨ (b'.swap.used = b.swap.used + 1 ∧ b.swap.used < b.table.size))) ∨
      (b.fresh = b.frames.size ∧
        ∃ b', takeFrame.run b = .error (.swapFull b'.swap.capacity) b' ∧ b'.Sound none ∧
          b'.contents = b.contents ∧ b'.geometry = b.geometry ∧ b'.interrupts = b.interrupts ∧
          b'.fresh = b.fresh ∧ b'.stats.faults = b.stats.faults ∧ b'.swap.capacity ≤ b'.swap.used ∧
          b'.swap.used < b'.table.size) := by
  simp only [takeFrame, EStateM.run_bind, EStateM.run_get]
  split
  · -- a frame never used: it is unowned, so it becomes the hole at once
    rename_i hlt
    have re := h.residency
    refine .inl ⟨b.fresh, { b with fresh := b.fresh + 1 }, rfl,
      h.congr rfl rfl rfl rfl rfl rfl h.shape.policy_fits ⟨hlt, fun x hx => ?_,
        fun w ew hw hrw => ?_, fun f fe o hfe ho _ => ?_, fun f fe hfe hne => ?_⟩,
      rfl, rfl, rfl, hv, rfl, .inl ⟨hlt, rfl⟩, .inl rfl⟩
    · cases hx
      exact Nat.lt_succ_self _
    · obtain ⟨f, hf, -, fe, hfe, hown⟩ := re.located w ew hw hrw
      have := (re.used_iff f fe hfe (by simp)).mp (by simp [hown])
      exact ⟨f, hf, by simp; omega, fe, hfe, hown⟩
    · exact re.owned f fe o hfe ho (by simp)
    · have hne' : f ≠ b.fresh := fun h => hne (by rw [h])
      have := re.used_iff f fe hfe (by simp)
      show fe.owner ≠ none ↔ f < b.fresh + 1
      rw [this]
      omega
  · -- no frame is left: the policy's victim is evicted
    rename_i hge
    have hF : b.fresh = b.frames.size := Nat.le_antisymm h.residency.fresh_le (by omega)
    obtain ⟨f, b₁, hf, hrun₁, h₁, hc₁, hg₁, hi₁, ht₁, hfr₁, hfresh₁, hs₁, hst₁⟩ := selectVictim_spec h
    -- every frame is in use, so the victim has an owner, resident there
    obtain ⟨fe, hfe⟩ : ∃ fe, b.frames[f]? = some fe := ⟨_, Array.getElem?_eq_getElem hf⟩
    obtain ⟨u, hown⟩ : ∃ u, fe.owner = some u := by
      have := (h.residency.used_iff f fe hfe (by simp)).mpr (by omega)
      exact Option.ne_none_iff_exists'.mp this
    obtain ⟨u, rfl, -, eu, hu, hru, -⟩ := h.residency.owned f fe u hfe hown (by simp)
    have huv : u ≠ v := by
      rintro rfl
      rw [hv] at hu
      cases hu
      rw [hr] at hru
      cases hru
    rw [← hfr₁] at hfe
    rw [← ht₁] at hu
    rcases evict_spec h₁ hfe hown hu with
      ⟨b₂, hrun₂, h₂, hc₂, hg₂, hi₂, hfresh₂, hfa₂, hother, hused⟩ | ⟨hd, hcap, hrun₂⟩
    · refine .inl ⟨f, b₂, ?_, h₂, hc₂.trans hc₁, hg₂.trans hg₁, hi₂.trans hi₁, ?_, by rw [hfa₂, hst₁],
        .inr ⟨hF, by rw [hfresh₂, hfresh₁]⟩, ?_⟩
      · simp only [hrun₁, EStateM.run_bind, hrun₂, EStateM.run_pure]
      · rw [hother v huv, ht₁, hv]
      · rw [← hs₁]
        rcases hused with hused | ⟨hused, hd⟩
        · exact .inl hused
        · exact .inr ⟨hused, by rw [← ht₁]; exact h₁.slots.used_lt hu hd⟩
    · refine .inr ⟨hF, b₁, ?_, h₁, hc₁, hg₁, hi₁, hfresh₁, by rw [hst₁], hcap, h₁.slots.used_lt hu hd⟩
      simp only [hrun₁, EStateM.run_bind, hrun₂]

/-- Counting a fault touches nothing the invariant reads. -/
theorem Sound.countFault (h : b.Sound none) :
    ({ b with stats.faults := b.stats.faults + 1 } : Board).Sound none :=
  h.congr rfl rfl rfl rfl rfl rfl h.shape.policy_fits (h.residency.congr rfl rfl rfl)

/-- A fault on a page out of RAM counts itself, takes a frame and fills it with
the page.  It keeps the invariant and every word a program sees, and leaves
the page resident; it fails only when an eviction finds the swap space full
while some page has never been written out. -/
theorem handleFault_spec {v : Nat} {e : PageEntry} (h : b.Sound none) (hc : b.Counted)
    (hv : b.table[v]? = some e) (hr : e.resident = false) (hvfit : (v : Int) ≤ maxLength) :
    (∃ b', (handleFault v).run b = .ok () b' ∧ b'.Sound none ∧ b'.Counted ∧
        b'.contents = b.contents ∧ b'.geometry = b.geometry ∧ b'.interrupts = b.interrupts ∧
        ∃ e', b'.table[v]? = some e' ∧ e'.resident = true) ∨
      (∃ b', (handleFault v).run b = .error (.swapFull b'.swap.capacity) b' ∧ b'.Sound none ∧
        b'.Counted ∧ b'.contents = b.contents ∧ b'.geometry = b.geometry ∧
        b'.interrupts = b.interrupts ∧
        b'.swap.capacity ≤ b'.swap.used ∧ b'.swap.used < b'.table.size) := by
  -- counting the fault touches nothing the invariant or the view reads
  let b₀ : Board := { b with stats.faults := b.stats.faults + 1 }
  have h₀ : b₀.Sound none := h.countFault
  have hc₀ : b₀.contents = b.contents := contents_congr rfl rfl rfl rfl rfl
  have hrun : (handleFault v).run b =
      (takeFrame >>= fun f => fillFrame v f >>= fun _ => install v f).run b₀ := rfl
  unfold Counted at hc
  rcases takeFrame_spec h₀ hv hr with
    ⟨f, b₁, hrun₁, h₁, hc₁, hg₁, hi₁, hv₁, hfa₁, hfresh₁, -⟩ |
    ⟨hF, b₁, hrun₁, h₁, hc₁, hg₁, hi₁, hfresh₁, hfa₁, hcap, hlt⟩
  · obtain ⟨b₂, hrun₂, hi, hfa₂⟩ := fill_run h₁ hv₁ hr hvfit
    obtain ⟨h₂, hc₂⟩ := h₁.install hv₁ hr hvfit hi
    have hsize : b₂.frames.size = b.frames.size := by
      rw [h₂.shape.frames_size, hi.geometry, hg₁, ← h.shape.frames_size]
    refine .inl ⟨b₂, ?_, h₂, ?_, hc₂.trans (hc₁.trans hc₀), hi.geometry.trans hg₁,
      hi.interrupts.trans hi₁, (e.installAt f), ?_, rfl⟩
    · rw [hrun, EStateM.run_bind, hrun₁]
      exact hrun₂
    · -- a frame is used up exactly while fewer faults than frames were taken
      show b₂.fresh = min b₂.frames.size b₂.stats.faults
      rw [hi.fresh, hsize, hfa₂, hfa₁]
      have hsame : b₀.fresh = b.fresh ∧ b₀.frames.size = b.frames.size := ⟨rfl, rfl⟩
      show b₁.fresh = min b.frames.size (b.stats.faults + 1)
      omega
    · rw [hi.entry, if_pos rfl, hv₁]
      rfl
  · refine .inr ⟨b₁, ?_, h₁, ?_, hc₁.trans hc₀, hg₁, hi₁, hcap, hlt⟩
    · rw [hrun, EStateM.run_bind, hrun₁]
    · show b₁.fresh = min b₁.frames.size b₁.stats.faults
      rw [hfresh₁, hfa₁, h₁.shape.frames_size, hg₁, ← h.shape.frames_size]
      have hsame : b₀.fresh = b.fresh ∧ b₀.frames.size = b.frames.size := ⟨rfl, rfl⟩
      show b.fresh = min b.frames.size (b.stats.faults + 1)
      omega

end Board

end DemandPaging
