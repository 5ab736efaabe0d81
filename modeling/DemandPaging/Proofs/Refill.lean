import DemandPaging.Proofs.Invariant

/-!
# Filling the hole

A fault ends by bringing the faulting page `v` into the frame `f` it was
given, the hole of `Board.Residency`: the frame is filled from the page's swap
slot, or with zeros when the page was never written out, then the core map
names `v` and the page becomes resident there, clean.

`Installs b b' v f e` says what that does to a board, field by field, and
`fill_run` shows that `fillFrame` followed by `install` does exactly that.
`Sound.install` then closes the hole: the invariant holds with no hole left,
and every word a program sees is what it was, because the frame now holds
what the page's backing store held.

The file starts with the run equations of the small board actions
(`pageAt`, `frameAt`, `modifyPage`, ...) at indices the invariant makes valid;
every later proof executes the pager through them.
-/

namespace DemandPaging

/-- Frames `f` and `f'` of `p` words do not overlap. -/
theorem frame_disjoint {f f' p o : Nat} (hne : f' ≠ f) (ho : o < p) :
    ¬ (f * p ≤ f' * p + o ∧ f' * p + o < f * p + p) := by
  rintro ⟨h₁, h₂⟩
  rcases Nat.lt_or_gt_of_ne hne with hlt | hlt
  · have : (f' + 1) * p ≤ f * p := Nat.mul_le_mul_right p hlt
    rw [Nat.add_mul, Nat.one_mul] at this
    omega
  · have : (f + 1) * p ≤ f' * p := Nat.mul_le_mul_right p hlt
    rw [Nat.add_mul, Nat.one_mul] at this
    omega

/-- The entry of a page brought into frame `f`: resident there and clean. -/
def PageEntry.installAt (f : Nat) (e : PageEntry) : PageEntry :=
  { e with touched := true, resident := true, location := (f : Int), dirty := false }

namespace PageEntry
variable {f : Nat} {e : PageEntry}
@[simp] theorem installAt_resident : (e.installAt f).resident = true := rfl
@[simp] theorem installAt_onDisk : (e.installAt f).onDisk = e.onDisk := rfl
@[simp] theorem installAt_dirty : (e.installAt f).dirty = false := rfl
@[simp] theorem installAt_location : (e.installAt f).location = f := rfl
end PageEntry


namespace Board

section Actions

variable {b : Board}

@[simp] theorem ofExcept_run_ok {α : Type} (a : α) : (ofExcept (.ok a)).run b = .ok a b := rfl

@[simp] theorem ofExcept_run_error {α : Type} (e : Fault) :
    (ofExcept (.error e) : BoardM α).run b = .error e b := rfl

@[simp] theorem modifyPage_run (v : Int) (g : PageEntry → PageEntry) :
    (modifyPage v g).run b = .ok () { b with pages := Seq.update b.pages v g } := rfl

@[simp] theorem modifyFrame_run (f : Int) (g : FrameEntry → FrameEntry) :
    (modifyFrame f g).run b = .ok () { b with frames := Seq.update b.frames f g } := rfl

@[simp] theorem notePager_run (level : Level) (message : String) :
    (notePager level message).run b =
      .ok () { b with log := b.log.add ⟨level, message, "pager", b.stats.accesses⟩ } := rfl

theorem pageAt_run {v : Nat} (hv : v < b.pages.size) (hfit : (v : Int) ≤ maxLength) :
    (pageAt v).run b = .ok b.pages[v] b := by
  simp only [pageAt, EStateM.run_bind, EStateM.run_get]
  rw [Seq.read_of_getElem? (Array.getElem?_eq_getElem hv) hfit]
  rfl

theorem frameAt_run {f : Nat} (hf : f < b.frames.size) (hfit : (f : Int) ≤ maxLength) :
    (frameAt f).run b = .ok b.frames[f] b := by
  simp only [frameAt, EStateM.run_bind, EStateM.run_get]
  rw [Seq.read_of_getElem? (Array.getElem?_eq_getElem hf) hfit]
  rfl

end Actions

variable {b b' : Board}

/-- What putting page `v` (entry `e`) into the hole `f` does to a board: RAM
frame `f` takes the page's backed contents, the frame records the page and its
slot, and the page becomes resident there, clean. -/
structure Installs (b b' : Board) (v f : Nat) (e : PageEntry) : Prop where
  geometry : b'.geometry = b.geometry
  interrupts : b'.interrupts = b.interrupts
  swap : b'.swap = b.swap
  policy : b'.policy = b.policy
  fresh : b'.fresh = b.fresh
  diskWrites : b'.stats.diskWrites = b.stats.diskWrites
  ram_pageSize : b'.ram.pageSize = b.ram.pageSize
  ram_size : b'.ram.words.size = b.ram.words.size
  ram : ∀ i, b'.ramWord i =
    if f * b.pageWords ≤ i ∧ i < f * b.pageWords + b.pageWords then b.backing e (i - f * b.pageWords)
    else b.ramWord i
  frames : b'.frames = b.frames.modify f
    (fun fe => { fe with slot := if e.onDisk then some e.location else none, owner := some (v : Int) })
  table : b'.table = b.table.modify v (PageEntry.installAt f)

namespace Installs

variable {v f : Nat} {e : PageEntry} (hi : Installs b b' v f e)
include hi

theorem pageWords_eq : b'.pageWords = b.pageWords := by simp only [pageWords, hi.geometry]

theorem entry (w : Nat) :
    b'.table[w]? = if v = w then (b.table[w]?).map (PageEntry.installAt f) else b.table[w]? := by
  rw [hi.table, Array.getElem?_modify]

theorem frame (f' : Nat) :
    b'.frames[f']? = if f = f' then (b.frames[f']?).map (fun fe => { fe with
      slot := if e.onDisk then some e.location else none, owner := some (v : Int) })
    else b.frames[f']? := by
  rw [hi.frames, Array.getElem?_modify]

theorem frames_size : b'.frames.size = b.frames.size := by rw [hi.frames, Array.size_modify]

theorem table_size : b'.table.size = b.table.size := by rw [hi.table, Array.size_modify]

/-- The installed page's slot is the frame's. -/
theorem slotOf_installAt (hf : f < b.frames.size) :
    b'.slotOf (e.installAt f) = if e.onDisk then some e.location else none := by
  rw [slotOf_of_resident PageEntry.installAt_resident, PageEntry.installAt_location,
    Int.toNat_natCast, hi.frame, if_pos rfl, Array.getElem?_eq_getElem hf]
  simp

/-- Any page other than the hole's keeps its slot: it is not resident in the hole. -/
theorem slotOf_other (hh : b.Residency (some f)) {w : Nat} {ew : PageEntry}
    (hw : b.table[w]? = some ew) : b'.slotOf ew = b.slotOf ew := by
  cases hr : ew.resident with
  | false => rw [slotOf_of_not_resident hr, slotOf_of_not_resident hr]
  | true =>
    obtain ⟨f', hf', hne, -⟩ := hh.located w ew hw hr
    have hne' : f ≠ f' := fun h => hne (h ▸ rfl)
    rw [slotOf_of_resident hr, slotOf_of_resident hr, hf', Int.toNat_natCast, hi.frame, if_neg hne']

theorem backing_eq {x : PageEntry} (hx : b'.slotOf x = b.slotOf x) : b'.backing x = b.backing x := by
  funext o
  simp only [backing, hx, hi.swap]

/-- The installed page's backing store reads as before. -/
theorem backing_installAt (hf : f < b.frames.size) (hr : e.resident = false) :
    b'.backing (e.installAt f) = b.backing e := by
  funext o
  cases hd : e.onDisk with
  | false => simp [backing, hd]
  | true =>
    simp only [backing, PageEntry.installAt_onDisk, hd, if_true, hi.slotOf_installAt hf,
      slotOf_of_not_resident hr, hi.swap]

section
variable (hh : b.Sound (some f)) (hv : b.table[v]? = some e) (hr : e.resident = false)
  (hvfit : (v : Int) ≤ maxLength)
include hh hv hr

theorem residency (hvfit : (v : Int) ≤ maxLength) : b'.Residency none := by
  have re := hh.residency
  have hfF : f < b.fresh := re.hole_lt f rfl
  have hf : f < b.frames.size := Nat.lt_of_lt_of_le hfF re.fresh_le
  refine ⟨?_, ?_, ?_, ?_, ?_⟩
  · rw [hi.fresh, hi.frames_size]
    exact re.fresh_le
  · intro _ h
    cases h
  · intro w ew hw hrw
    rw [hi.entry] at hw
    by_cases hvw : v = w
    · subst hvw
      rw [if_pos rfl, hv] at hw
      cases hw
      refine ⟨f, rfl, by simp, ?_⟩
      rw [hi.frame, if_pos rfl, Array.getElem?_eq_getElem hf]
      exact ⟨_, rfl, rfl⟩
    · rw [if_neg hvw] at hw
      obtain ⟨f', hf', hne, fe, hfe, hown⟩ := re.located w ew hw hrw
      have hne' : f ≠ f' := fun h => hne (h ▸ rfl)
      exact ⟨f', hf', by simp, fe, by rw [hi.frame, if_neg hne', hfe], hown⟩
  · intro f' fe o hfe ho _
    rw [hi.frame] at hfe
    by_cases hff : f = f'
    · subst hff
      rw [if_pos rfl, Array.getElem?_eq_getElem hf] at hfe
      cases hfe
      cases ho
      refine ⟨v, rfl, hvfit, e.installAt f, ?_, rfl, rfl⟩
      rw [hi.entry, if_pos rfl, hv]
      rfl
    · rw [if_neg hff] at hfe
      obtain ⟨w, rfl, hwfit, ew, hw, hrw, hlw⟩ := re.owned f' fe o hfe ho (fun h => hff (by cases h; rfl))
      have hvw : v ≠ w := by
        rintro rfl
        rw [hv] at hw
        cases hw
        rw [hr] at hrw
        cases hrw
      exact ⟨w, rfl, hwfit, ew, by rw [hi.entry, if_neg hvw, hw], hrw, hlw⟩
  · intro f' fe hfe _
    rw [hi.frame] at hfe
    rw [hi.fresh]
    by_cases hff : f = f'
    · subst hff
      rw [if_pos rfl, Array.getElem?_eq_getElem hf] at hfe
      cases hfe
      simp [hfF]
    · rw [if_neg hff] at hfe
      exact re.used_iff f' fe hfe (fun h => hff (by cases h; rfl))

/-- Every page on disk keeps its slot. -/
theorem slotOf_back {w : Nat} {ew' : PageEntry} (hw : b'.table[w]? = some ew')
    (hd : ew'.onDisk = true) :
    ∃ ew, b.table[w]? = some ew ∧ ew.onDisk = true ∧ b'.slotOf ew' = b.slotOf ew := by
  have hf : f < b.frames.size := Nat.lt_of_lt_of_le (hh.residency.hole_lt f rfl) hh.residency.fresh_le
  rw [hi.entry] at hw
  by_cases hvw : v = w
  · subst hvw
    rw [if_pos rfl, hv] at hw
    cases hw
    refine ⟨e, hv, hd, ?_⟩
    rw [hi.slotOf_installAt hf, if_pos (by simpa using hd), slotOf_of_not_resident hr]
  · rw [if_neg hvw] at hw
    exact ⟨ew', hw, hd, hi.slotOf_other hh.residency hw⟩

theorem slots : b'.Slots := by
  have sl := hh.slots
  have hf : f < b.frames.size := Nat.lt_of_lt_of_le (hh.residency.hole_lt f rfl) hh.residency.fresh_le
  refine ⟨?_, ?_, ?_, ?_, ?_, ?_⟩
  · rw [hi.swap, hi.table, countP_modify_of_eq (g := PageEntry.installAt f) (fun _ => rfl)]
    exact sl.used_eq
  · intro w ew hw hd
    obtain ⟨ew₀, hw₀, hd₀, hslot⟩ := hi.slotOf_back hh hv hr hw hd
    rw [hslot, hi.swap]
    exact sl.bound w ew₀ hw₀ hd₀
  · intro w₁ w₂ e₁ e₂ h₁ h₂ hd₁ hd₂ heq
    obtain ⟨e₁', h₁', hd₁', hs₁⟩ := hi.slotOf_back hh hv hr h₁ hd₁
    obtain ⟨e₂', h₂', hd₂', hs₂⟩ := hi.slotOf_back hh hv hr h₂ hd₂
    rw [hs₁, hs₂] at heq
    exact sl.distinct w₁ w₂ e₁' e₂' h₁' h₂' hd₁' hd₂' heq
  · intro w ew hw hrw hd
    rw [hi.entry] at hw
    by_cases hvw : v = w
    · subst hvw
      rw [if_pos rfl, hv] at hw
      cases hw
      rw [hi.slotOf_installAt hf, if_neg (by simpa using hd)]
    · rw [if_neg hvw] at hw
      rw [hi.slotOf_other hh.residency hw]
      exact sl.unbound w ew hw hrw hd
  · intro w ew hw hrw
    rw [hi.entry] at hw
    by_cases hvw : v = w
    · subst hvw
      rw [if_pos rfl, hv] at hw
      cases hw
      cases hrw
    · rw [if_neg hvw] at hw
      exact sl.away w ew hw hrw
  · rw [hi.swap, hi.diskWrites]
    exact sl.used_le

theorem backed : b'.Backed := by
  have hf : f < b.frames.size := Nat.lt_of_lt_of_le (hh.residency.hole_lt f rfl) hh.residency.fresh_le
  refine ⟨fun w ew hw hrw hdirty o ho => ?_⟩
  rw [hi.pageWords_eq] at ho ⊢
  rw [hi.entry] at hw
  by_cases hvw : v = w
  · subst hvw
    rw [if_pos rfl, hv] at hw
    cases hw
    rw [hi.ram, if_pos (by simp; omega), PageEntry.installAt_location, Int.toNat_natCast,
      hi.backing_installAt hf hr, Nat.add_sub_cancel_left]
  · rw [if_neg hvw] at hw
    obtain ⟨f', hf', hne, -⟩ := hh.residency.located w ew hw hrw
    have hff : f' ≠ f := fun h => hne (h ▸ rfl)
    rw [hi.ram, if_neg (by rw [hf', Int.toNat_natCast]; exact frame_disjoint hff ho),
      hi.backing_eq (hi.slotOf_other hh.residency hw)]
    exact hh.backed.saved w ew hw hrw hdirty o ho

/-- Every word keeps its value: the page moved into RAM with its contents. -/
theorem pageWord_eq (w : Nat) {o : Nat} (ho : o < b.pageWords) : b'.pageWord w o = b.pageWord w o := by
  have hf : f < b.frames.size := Nat.lt_of_lt_of_le (hh.residency.hole_lt f rfl) hh.residency.fresh_le
  unfold pageWord
  rw [hi.entry, hi.pageWords_eq]
  by_cases hvw : v = w
  · subst hvw
    rw [if_pos rfl, hv]
    simp only [Option.map_some, PageEntry.installAt_resident, if_true, PageEntry.installAt_location,
      Int.toNat_natCast, hr, Bool.false_eq_true, if_false]
    rw [hi.ram, if_pos (by omega), Nat.add_sub_cancel_left]
  · rw [if_neg hvw]
    cases hw : b.table[w]? with
    | none => rfl
    | some ew =>
      cases hrw : ew.resident with
      | true =>
        obtain ⟨f', hf', hne, -⟩ := hh.residency.located w ew hw hrw
        have hff : f' ≠ f := fun h => hne (h ▸ rfl)
        simp only [hrw, if_true]
        rw [hi.ram, if_neg (by rw [hf', Int.toNat_natCast]; exact frame_disjoint hff ho)]
      | false =>
        simp only [hrw, Bool.false_eq_true, if_false]
        rw [hi.backing_eq (hi.slotOf_other hh.residency hw)]

theorem contents_eq : b'.contents = b.contents := by
  funext a
  unfold contents
  rw [hi.table_size, hi.geometry, hi.pageWords_eq]
  split
  · exact hi.pageWord_eq hh hv hr _ (Nat.mod_lt _ hh.shape.pageWords_pos)
  · rfl

end

end Installs

/-- Putting a page that is out of RAM into the hole restores the invariant and
changes no word a program can see. -/
theorem Sound.install {v f : Nat} {e : PageEntry} (h : b.Sound (some f)) (hv : b.table[v]? = some e)
    (hr : e.resident = false) (hvfit : (v : Int) ≤ maxLength) (hi : Installs b b' v f e) :
    b'.Sound none ∧ b'.contents = b.contents := by
  have hslots : ∀ s ∈ b'.swap.slots, s.size = b.pageWords := by
    rw [hi.swap]
    exact h.shape.slot_size
  refine ⟨⟨?_, hi.residency h hv hr hvfit, hi.slots h hv hr, hi.backed h hv hr⟩, hi.contents_eq h hv hr⟩
  exact h.shape.transfer hi.geometry hi.ram_pageSize hi.ram_size (by rw [hi.swap]) (by rw [hi.swap])
    hslots hi.frames_size hi.table_size (by rw [hi.policy]; exact h.shape.policy_fits)


/-- Filling the hole `f` with page `v`, out of RAM, and installing it there
succeeds and does what `Installs` says: the page's slot exists and has a page
of words, and the frame lies inside RAM. -/
theorem fill_run {v f : Nat} {e : PageEntry} (h : b.Sound (some f)) (hv : b.table[v]? = some e)
    (hr : e.resident = false) (hvfit : (v : Int) ≤ maxLength) :
    ∃ b', (fillFrame v f >>= fun _ => install v f).run b = .ok () b' ∧ Installs b b' v f e ∧
      b'.stats.faults = b.stats.faults := by
  rw [getElem?_table, Option.map_eq_some_iff] at hv
  obtain ⟨page, hpage, rfl⟩ := hv
  have hvlt : v < b.pages.size := (Array.getElem?_eq_some_iff.mp hpage).1
  have hpv : b.pages[v] = page := by rw [Array.getElem?_eq_getElem hvlt] at hpage; exact Option.some.inj hpage
  have hf : f < b.frames.size :=
    Nat.lt_of_lt_of_le (h.residency.hole_lt f rfl) h.residency.fresh_le
  have hp := h.shape.ram_pageSize_eq
  have hk := h.shape.frame_end_le hf
  simp only [EStateM.run_bind, fillFrame, pageAt_run hvlt hvfit, hpv]
  cases hd : page.onDisk with
  | true =>
    obtain ⟨s, hs, hslt⟩ := h.slots.bound v page.unreferenced (by rw [getElem?_table, hpage]; rfl) hd
    rw [slotOf_of_not_resident hr] at hs
    have hloc : page.location = s := by simpa using hs
    have hdata : (b.swap.slots[s]).size = b.pageWords := h.shape.slot_size _ (Array.getElem_mem _)
    simp only [if_true, hloc, EStateM.run_bind, EStateM.run_get, Swap.retrieve_natCast hslt]
    simp only [ofExcept_run_ok, Ram.writeFrame_natCast hp hk hdata]
    refine ⟨_, rfl, ⟨rfl, rfl, rfl, rfl, rfl, rfl, rfl, ?_, ?_, ?_, ?_⟩, rfl⟩
    · exact size_overwrite (by rw [hdata]; rw [Nat.add_mul, Nat.one_mul] at hk; exact hk)
    · intro i
      have hfit : f * b.pageWords + b.swap.slots[s].size ≤ b.ram.words.size := by
        rw [hdata]; rw [Nat.add_mul, Nat.one_mul] at hk; exact hk
      unfold ramWord
      dsimp only
      rw [getElem?_overwrite hfit, hdata]
      split
      · rename_i hi
        simp only [backing, PageEntry.onDisk_unreferenced, hd, if_true, slotOf_of_not_resident hr,
          PageEntry.location_unreferenced, hloc, Int.toNat_natCast]
        rw [Array.getElem?_eq_getElem hslt]
        rfl
      · rfl
    · dsimp only
      rw [Seq.update_natCast, Seq.update_natCast, modify_modify_same]
      simp [hd, hloc]
    · exact map_update_unreferenced fun _ => rfl
  | false =>
    have hzero : (Array.replicate b.ram.pageSize.toNat (0 : Int)).size = b.pageWords := by
      rw [Array.size_replicate, hp, Int.toNat_natCast]
    have hfit : f * b.pageWords + (Array.replicate b.ram.pageSize.toNat (0 : Int)).size ≤
        b.ram.words.size := by
      rw [hzero]; rw [Nat.add_mul, Nat.one_mul] at hk; exact hk
    simp only [Bool.false_eq_true, if_false, EStateM.run_bind, EStateM.run_get, Ram.zeroFrame,
      Ram.writeFrame_natCast hp hk hzero, ofExcept_run_ok]
    refine ⟨_, rfl, ⟨rfl, rfl, rfl, rfl, rfl, rfl, rfl, size_overwrite hfit, ?_, ?_, ?_⟩, rfl⟩
    · intro i
      unfold ramWord
      dsimp only
      rw [getElem?_overwrite hfit, hzero]
      split
      · rename_i hi
        simp only [backing, PageEntry.onDisk_unreferenced, hd, Bool.false_eq_true, if_false,
          Array.getElem?_replicate, hp, Int.toNat_natCast, show i - f * b.pageWords < b.pageWords by omega]
        rfl
      · rfl
    · dsimp only
      rw [Seq.update_natCast, Seq.update_natCast, modify_modify_same]
      simp [hd]
    · exact map_update_unreferenced fun _ => rfl

end Board

end DemandPaging
