import DemandPaging.Proofs.AccessErrors
import DemandPaging.Proofs.StopRequests

/-!
# FIFO replacement evicts in load order

FIFO walks a cursor round the frames, one frame a fault once every frame is
in use.  Frames are handed out in index order at first, so the cursor meets
the pages in the order they were loaded: the frames read round-robin from the
cursor hold the resident pages oldest load first, and the victim, at the
cursor, is the page loaded earliest.

`fifoLoad` is the queue of resident pages FIFO keeps in the abstract, and
`Board.InLoadOrder q b` says the board's cursor and frames represent the
queue `q`.  A fault into a frame never used is a push
(`Board.fill_inLoadOrder`), one that evicts the page at the cursor a pop and
a push (`Board.evict_inLoadOrder`), and an access to a resident page changes
neither.

The cursor moves when the policy picks its victim, before the victim's page
is saved.  An access that fails for want of a swap slot has therefore moved
the cursor past a page that stays resident: the queue is rotated by one
(`Board.translate_inLoadOrder`), and the next eviction takes a page loaded
after the one that stayed.  So load order holds of a run of calls exactly as
long as none has failed that way (`fifo_evicts_in_load_order`).
-/

namespace DemandPaging

/-- FIFO over `n` frames as a queue of the resident pages, oldest load
first: an access to a page the queue holds changes nothing; any other page
is loaded at the back, the oldest page leaving first once `n` are held. -/
def fifoLoad (n : Nat) (q : List Int) (v : Int) : List Int :=
  if v ∈ q then q else if q.length < n then q ++ [v] else q.tail ++ [v]

/-- The pages held by frames of owners `owners`, read round-robin from
frame `c`. -/
def roundRobin (owners : Array (Option Int)) (c : Nat) : List Int :=
  (owners.toList.rotate c).reduceOption

/-! ## Rings of frames -/

section Ring

variable {α : Type}

/-- Rotating to an index puts the element there first. -/
theorem rotate_eq_cons {l : List α} {c : Nat} {x : α} (h : l[c]? = some x) :
    l.rotate c = x :: (l.drop (c + 1) ++ l.take c) := by
  obtain ⟨hc, rfl⟩ := List.getElem?_eq_some_iff.mp h
  rw [List.rotate_eq_drop_append_take hc.le, List.drop_eq_getElem_cons hc, List.cons_append]

/-- Replacing the element at an index and rotating just past it puts the new
element last. -/
theorem rotate_set_succ {l : List α} {c : Nat} (hc : c < l.length) (x : α) :
    (l.set c x).rotate (c + 1) = l.drop (c + 1) ++ l.take c ++ [x] := by
  have hlen : (l.take c ++ [x]).length = c + 1 := by
    rw [List.length_append, List.length_take, Nat.min_eq_left hc.le, List.length_singleton]
  rw [List.set_eq_take_append_cons_drop, if_pos hc, ← List.singleton_append, ← List.append_assoc, ← hlen,
    List.rotate_append_length_eq, hlen, List.append_assoc]

/-- Filling the first of the unused entries at the back of a list appends
its value to the values held. -/
theorem reduceOption_set_fresh {l : List (Option α)} {k : Nat} (hk : k < l.length)
    (hvac : ∀ x ∈ l.drop k, x = none) (v : α) :
    (l.set k (some v)).reduceOption = l.reduceOption ++ [v] := by
  have hnone : ∀ {l' : List (Option α)}, (∀ x ∈ l', x = none) → l'.reduceOption = [] :=
    fun h => List.filterMap_eq_nil_iff.mpr fun x hx => by rw [h x hx]; rfl
  have hrest : ∀ x ∈ l.drop (k + 1), x = none := fun x hx =>
    hvac x (List.drop_subset_drop_left l (Nat.le_succ k) hx)
  conv_rhs => rw [← List.take_append_drop k l]
  rw [List.set_eq_take_append_cons_drop, if_pos hk, List.reduceOption_append, List.reduceOption_append,
    List.reduceOption_cons_of_some, hnone hrest, hnone hvac, List.append_nil]

end Ring

section Queue

variable {n : Nat} {q : List Int} {v : Int}

theorem fifoLoad_of_mem (h : v ∈ q) : fifoLoad n q v = q := if_pos h

theorem fifoLoad_of_lt (h : v ∉ q) (hl : q.length < n) : fifoLoad n q v = q ++ [v] := by
  rw [fifoLoad, if_neg h, if_pos hl]

theorem fifoLoad_of_full (h : v ∉ q) (hl : q.length = n) : fifoLoad n q v = q.tail ++ [v] := by
  rw [fifoLoad, if_neg h, if_neg (by omega)]

end Queue

section RoundRobin

variable {o : Array (Option Int)}

theorem toList_modify_const {k : Nat} (x : Option Int) :
    (o.modify k fun _ => x).toList = o.toList.set k x := by
  rw [Array.toList_modify, List.modify_eq_set]

theorem occupantAt_eq_page_iff {f : Nat} {v : Int} : occupantAt o f = .page v ↔ o[f]? = some (some v) := by
  unfold occupantAt
  split <;> simp_all

theorem eq_of_occupantAt_eq_vacant {f k : Nat} (h : occupantAt o f = .vacant k) : f = k := by
  unfold occupantAt at h
  split at h
  · cases h
  · exact Occupant.vacant.inj h

/-- The ring holds the pages the frames hold, from whichever frame it is read. -/
theorem mem_roundRobin {c : Nat} {v : Int} : v ∈ roundRobin o c ↔ Occupant.page v ∈ occupancy o := by
  rw [roundRobin, List.reduceOption_mem_iff, List.mem_rotate, Array.mem_toList_iff, Array.mem_iff_getElem?,
    mem_occupancy]
  constructor
  · rintro ⟨f, hf⟩
    exact ⟨f, (Array.getElem?_eq_some_iff.mp hf).1, occupantAt_eq_page_iff.mpr hf⟩
  · rintro ⟨f, -, hf⟩
    exact ⟨f, occupantAt_eq_page_iff.mp hf⟩

theorem roundRobin_mod (c : Nat) : roundRobin o (c % o.size) = roundRobin o c := by
  rw [roundRobin, roundRobin, ← Array.length_toList, List.rotate_mod]

/-- With an unused frame the ring holds fewer pages than there are frames. -/
theorem length_roundRobin_lt {c : Nat} (h : none ∈ o.toList) : (roundRobin o c).length < o.size := by
  rw [roundRobin, ← Array.length_toList, ← List.length_rotate o.toList c]
  exact List.reduceOption_length_lt_iff.mpr (List.mem_rotate.mpr h)

/-- With every frame in use the ring holds as many pages as there are frames. -/
theorem length_roundRobin_eq {c : Nat} (h : none ∉ o.toList) : (roundRobin o c).length = o.size := by
  rw [roundRobin, ← Array.length_toList, ← List.length_rotate o.toList c]
  refine List.reduceOption_length_eq_iff.mpr fun x hx => Option.isSome_iff_ne_none.mpr ?_
  rintro rfl
  exact h (List.mem_rotate.mp hx)

/-- Filling the first unused frame, all frames after it unused, puts its page
last in the ring read from frame 0. -/
theorem roundRobin_fill {k : Nat} (hk : k < o.size) (hvac : ∀ f, k ≤ f → f < o.size → o[f]? = some none)
    (v : Int) : roundRobin (o.modify k fun _ => some v) 0 = roundRobin o 0 ++ [v] := by
  rw [roundRobin, roundRobin, List.rotate_zero, List.rotate_zero, toList_modify_const]
  refine reduceOption_set_fresh (by rw [Array.length_toList]; exact hk) (fun x hx => ?_) v
  obtain ⟨i, hi, rfl⟩ := List.getElem_of_mem hx
  rw [List.getElem_drop]
  have hlt : k + i < o.size := by rw [List.length_drop, Array.length_toList] at hi; omega
  have := hvac (k + i) (Nat.le_add_right k i) hlt
  rw [Array.getElem?_eq_getElem hlt, Option.some.injEq] at this
  rw [Array.getElem_toList]
  exact this

theorem toList_rotate_eq_cons {c : Nat} {x : Option Int} (hx : o[c]? = some x) :
    o.toList.rotate c = x :: (o.toList.drop (c + 1) ++ o.toList.take c) :=
  rotate_eq_cons (by rw [Array.getElem?_toList]; exact hx)

/-- Read from an owned frame, the ring starts with the frame's page. -/
theorem roundRobin_eq_cons {c : Nat} {u : Int} (hu : o[c]? = some (some u)) :
    roundRobin o c = u :: (o.toList.drop (c + 1) ++ o.toList.take c).reduceOption := by
  rw [roundRobin, toList_rotate_eq_cons hu, List.reduceOption_cons_of_some]

/-- Replacing the page at the cursor and moving the cursor on drops the first
page of the ring and puts the new one last. -/
theorem roundRobin_evict {c : Nat} {u : Int} (hu : o[c]? = some (some u)) (v : Int) :
    roundRobin (o.modify c fun _ => some v) (c + 1) = (roundRobin o c).tail ++ [v] := by
  have hc : c < o.toList.length := by rw [Array.length_toList]; exact (Array.getElem?_eq_some_iff.mp hu).1
  rw [roundRobin_eq_cons hu, List.tail_cons, roundRobin, toList_modify_const, rotate_set_succ hc,
    List.reduceOption_append]
  rfl

/-- Moving the cursor past an owned frame turns the ring by one. -/
theorem roundRobin_succ {c : Nat} {u : Int} (hu : o[c]? = some (some u)) :
    roundRobin o (c + 1) = (roundRobin o c).rotate 1 := by
  rw [roundRobin_eq_cons hu, roundRobin, ← List.rotate_rotate, toList_rotate_eq_cons hu,
    List.rotate_cons_succ, List.rotate_cons_succ, List.rotate_zero, List.rotate_zero, List.reduceOption_append]
  rfl

end RoundRobin

/-! ## The board keeps the queue -/

namespace Board

variable {b b' : Board} {q : List Int}

/-- The board keeps FIFO's queue `q`: its policy is FIFO over its frames with
the cursor at a frame `c`, at frame 0 while some frame is unused, and its
frames read round-robin from the cursor hold the pages of `q`. -/
def InLoadOrder (q : List Int) (b : Board) : Prop :=
  ∃ c : Nat, c < b.frames.size ∧ b.policy = .fifo b.frames.size c ∧
    (b.fresh < b.frames.size → c = 0) ∧ roundRobin b.owners c = q

/-- The queue is read off the owners, the policy and the unused frames alone. -/
theorem InLoadOrder.congr (h : b.InLoadOrder q) (ho : b'.owners = b.owners) (hp : b'.policy = b.policy)
    (hf : b'.fresh = b.fresh) : b'.InLoadOrder q := by
  obtain ⟨c, hc, hpol, hfresh, hq⟩ := h
  have hs : b'.frames.size = b.frames.size := by
    rw [← owners_size (b := b'), ho, owners_size]
  refine ⟨c, hs ▸ hc, by rw [hp, hpol, hs], fun hlt => hfresh ?_, by rw [ho]; exact hq⟩
  rw [← hs, ← hf]
  exact hlt

/-- FIFO does not count what it is shown. -/
theorem InLoadOrder.observe (h : b.InLoadOrder q) : b.policy.observe = b.policy := by
  obtain ⟨c, -, hpol, -⟩ := h
  rw [hpol]
  rfl

/-- With every frame in use, FIFO's victim is the frame at its cursor, whose
page heads the queue, and the cursor moves on one frame. -/
theorem InLoadOrder.selectVictim (h : b.InLoadOrder q) :
    ∃ c : Nat, c < b.frames.size ∧ (b.policy.selectVictim b.frames b.pages).1 = .ok (c : Int) ∧
      (b.policy.selectVictim b.frames b.pages).2.1 = .fifo b.frames.size ((c + 1) % b.frames.size : Nat) ∧
      roundRobin b.owners c = q := by
  obtain ⟨c, hc, hpol, -, hq⟩ := h
  have hn : (b.frames.size : Int) ≠ 0 := by omega
  have hmod : Int.fmod ((c : Int) + 1) (b.frames.size : Int) = (((c + 1) % b.frames.size : Nat) : Int) := by
    rw [Int.fmod_eq_emod_of_nonneg _ (by omega), Int.natCast_emod]
    rfl
  rw [hpol]
  simp only [Policy.selectVictim, hn, if_false, hmod]
  exact ⟨c, hc, rfl, rfl, hq⟩

/-- On a sound board the queue holds exactly the resident pages. -/
theorem InLoadOrder.mem_iff (h : b.InLoadOrder q) (hr : b.Residency none) {v : Nat} {e : PageEntry}
    (hv : b.table[v]? = some e) : (v : Int) ∈ q ↔ e.resident = true := by
  obtain ⟨c, -, -, -, rfl⟩ := h
  rw [mem_roundRobin]
  exact page_mem_occupants hr hv

/-- On a sound board the unused frames are those from `fresh` on. -/
theorem Residency.owner_none_iff (h : b.Residency none) {f : Nat} (hf : f < b.frames.size) :
    b.owners[f]? = some none ↔ b.fresh ≤ f := by
  have hfe := Array.getElem?_eq_getElem hf
  have hused := h.used_iff f _ hfe (by simp)
  rw [owners_getElem?, hfe, Option.map_some, Option.some.injEq]
  constructor
  · intro hn
    by_contra hlt
    exact hused.mpr (by omega) hn
  · intro hle
    by_contra hn
    have := hused.mp hn
    omega

theorem Residency.none_mem_owners_iff (h : b.Residency none) :
    none ∈ b.owners.toList ↔ b.fresh < b.frames.size := by
  rw [Array.mem_toList_iff, Array.mem_iff_getElem?]
  constructor
  · rintro ⟨f, hf⟩
    have hlt : f < b.frames.size := by
      rw [← owners_size]
      exact (Array.getElem?_eq_some_iff.mp hf).1
    have := (h.owner_none_iff hlt).mp hf
    omega
  · intro hlt
    exact ⟨b.fresh, (h.owner_none_iff hlt).mpr (Nat.le_refl _)⟩

/-- With every frame in use, every frame has an owner. -/
theorem Residency.owned_of_full (h : b.Residency none) (hfull : b.frames.size ≤ b.fresh) {f : Nat}
    (hf : f < b.frames.size) : ∃ u, b.owners[f]? = some (some u) := by
  have hfo : f < b.owners.size := by rw [owners_size]; exact hf
  rw [Array.getElem?_eq_getElem hfo]
  cases hx : b.owners[f] with
  | none =>
    have := (h.owner_none_iff hf).mp (by rw [Array.getElem?_eq_getElem hfo, hx])
    omega
  | some u => exact ⟨u, rfl⟩

/-- With every frame in use, FIFO's next victim is the frame holding the
queue's first page. -/
theorem InLoadOrder.victim_head (h : b.InLoadOrder q) (hr : b.Residency none)
    (hfull : b.frames.size ≤ b.fresh) :
    ∃ (f : Nat) (u : Int), (b.policy.selectVictim b.frames b.pages).1 = .ok (f : Int) ∧
      b.owners[f]? = some (some u) ∧ q.head? = some u := by
  obtain ⟨c, hc, hsel, -, rfl⟩ := h.selectVictim
  obtain ⟨u, hu⟩ := hr.owned_of_full hfull hc
  refine ⟨c, u, hsel, hu, ?_⟩
  rw [roundRobin_eq_cons hu, List.head?_cons]

/-- A fault into the first unused frame pushes its page at the back of the
queue. -/
theorem fill_inLoadOrder (h : b.InLoadOrder q) (hr : b.Residency none) (hlt : b.fresh < b.frames.size)
    {v : Int} (hv : v ∉ q) (ho : b'.owners = b.owners.modify b.fresh fun _ => some v)
    (hp : b'.policy = b.policy) : b'.InLoadOrder (fifoLoad b.frames.size q v) := by
  obtain ⟨c, hc, hpol, hfresh, rfl⟩ := h
  obtain rfl := hfresh hlt
  have hs : b'.frames.size = b.frames.size := by
    rw [← owners_size (b := b'), ho, Array.size_modify, owners_size]
  have hlen := length_roundRobin_lt (c := 0) (hr.none_mem_owners_iff.mpr hlt)
  rw [owners_size] at hlen
  refine ⟨0, hs ▸ hc, by rw [hp, hpol, hs], fun _ => rfl, ?_⟩
  rw [fifoLoad_of_lt hv hlen, ho]
  refine roundRobin_fill (by rw [owners_size]; exact hlt) (fun f hf hfs => ?_) v
  rw [owners_size] at hfs
  exact (hr.owner_none_iff hfs).mpr hf

/-- A fault that evicts the page at the cursor, every frame being in use,
pops the oldest page and pushes the new one. -/
theorem evict_inLoadOrder (h : b.InLoadOrder q) (hr : b.Residency none) (hfull : b.frames.size ≤ b.fresh)
    (hr' : b'.Residency none) {v : Int} (hv : v ∉ q) {f : Nat}
    (hsel : (b.policy.selectVictim b.frames b.pages).1 = .ok (f : Int))
    (ho : b'.owners = b.owners.modify f fun _ => some v)
    (hp : b'.policy = (b.policy.selectVictim b.frames b.pages).2.1) :
    b'.InLoadOrder (fifoLoad b.frames.size q v) := by
  obtain ⟨c, hc, hsel', hnext, rfl⟩ := h.selectVictim
  rw [hsel'] at hsel
  obtain rfl : f = c := by
    injection hsel with hfc
    omega
  have hsize : (b.owners.modify f fun _ => some v).size = b.frames.size := by
    rw [Array.size_modify, owners_size]
  have hs : b'.frames.size = b.frames.size := by rw [← owners_size (b := b'), ho, hsize]
  have hnone : none ∉ b.owners.toList := fun hm => by
    have := hr.none_mem_owners_iff.mp hm
    omega
  have hlen := length_roundRobin_eq (c := f) hnone
  rw [owners_size] at hlen
  obtain ⟨u, hu⟩ := hr.owned_of_full hfull hc
  refine ⟨(f + 1) % b.frames.size, hs ▸ Nat.mod_lt _ (by omega), by rw [hp, hnext, hs], fun hlt => ?_, ?_⟩
  · -- every frame is still in use
    have hm := hr'.none_mem_owners_iff.mpr hlt
    rw [ho, toList_modify_const] at hm
    rcases List.mem_or_eq_of_mem_set hm with hm | hm
    · exact absurd hm hnone
    · cases hm
  · rw [fifoLoad_of_full hv hlen, ho, ← hsize, roundRobin_mod]
    exact roundRobin_evict hu v

/-- A fault that fails for want of a swap slot has moved the cursor past the
oldest page, which stays resident: the queue turns by one. -/
theorem stalled_inLoadOrder (h : b.InLoadOrder q) (hr : b.Residency none) (hfull : b.frames.size ≤ b.fresh)
    (ho : b'.owners = b.owners) (hp : b'.policy = (b.policy.selectVictim b.frames b.pages).2.1)
    (hf : b'.fresh = b.fresh) : b'.InLoadOrder (q.rotate 1) := by
  obtain ⟨c, hc, -, hnext, rfl⟩ := h.selectVictim
  have hs : b'.frames.size = b.frames.size := by rw [← owners_size (b := b'), ho, owners_size]
  obtain ⟨u, hu⟩ := hr.owned_of_full hfull hc
  refine ⟨(c + 1) % b.frames.size, hs ▸ Nat.mod_lt _ (by omega), by rw [hp, hnext, hs], fun hlt => ?_, ?_⟩
  · rw [hs, hf] at hlt
    omega
  · rw [ho, ← owners_size, roundRobin_mod]
    exact roundRobin_succ hu

/-- A fault that returns pushes its page, first popping the oldest page when
every frame is in use. -/
theorem handleFault_inLoadOrder (h : b.Sound none) (hq : b.InLoadOrder q) {v : Int} (hv : v ∉ q)
    (hrun : (handleFault v).run b = .ok () b') (hr' : b'.Residency none) :
    b'.InLoadOrder (fifoLoad b.frames.size q v) := by
  obtain ⟨-, -, g, hg, ho, hev⟩ := handleFault_owners h hrun
  rcases hev with ⟨hlt, hy, hp⟩ | ⟨hge, f, hsel, hy, hp⟩
  · -- a frame never used: the first of them
    obtain rfl := eq_of_occupantAt_eq_vacant hy
    exact fill_inLoadOrder hq h.residency hlt hv ho hp
  · -- the victim, at the cursor
    have hf := Policy.selectVictim_lt h.shape.policy_fits h.shape.frames_pos hsel
    obtain rfl : g = f :=
      h.residency.occupant_injective (by rw [owners_size]; exact hg) (by rw [owners_size]; omega) hy
    exact evict_inLoadOrder hq h.residency hge hr' hv hsel ho hp

/-- An access at an address of the space, at a page index a sequence can
have, brings its page into the queue; one that fails, fails for want of a
swap slot, and turns the queue by one. -/
theorem translate_inLoadOrder (h : b.Consistent) (hw : b.SlotsWithin) (hq : b.InLoadOrder q) {m : Nat}
    (hm : (m : Int) < b.table.size * b.geometry.pageSize)
    (hfit : ((m / b.pageWords : Nat) : Int) ≤ maxLength) (write : Bool) :
    match (translate m write).run b with
    | .ok _ b' => b'.InLoadOrder (fifoLoad b.frames.size q (m / b.pageWords : Nat))
    | .error e b' => e.family = .swapExhausted ∧ b'.InLoadOrder (q.rotate 1) := by
  obtain ⟨e, hv⟩ : ∃ e, b.table[m / b.pageWords]? = some e :=
    ⟨_, Array.getElem?_eq_getElem (by rw [size_table]; exact page_lt h hm)⟩
  have hmem := hq.mem_iff h.sound.residency hv
  -- showing the access to the policy changes nothing FIFO keeps
  have hq₀ : (b.shown (m / b.pageWords)).InLoadOrder q := hq.congr rfl hq.observe rfl
  cases hr : e.resident with
  | true =>
    rw [translate_run_resident h hm hfit hv hr write, fifoLoad_of_mem (hmem.mpr hr)]
    exact hq₀.congr rfl rfl rfl
  | false =>
    have hnot : ((m / b.pageWords : Nat) : Int) ∉ q := fun hin => by
      rw [hmem.mp hin] at hr
      cases hr
    rcases handleFault_spec (h.shown_sound _) h.counted hv hr hfit with
      ⟨b₃, hrun₃, hs₃, -⟩ | ⟨b₃, hrun₃, -⟩
    · obtain ⟨p, hrun⟩ := translate_run_of_handleFault h hm hfit hv hr write hrun₃
      rw [hrun]
      exact (handleFault_inLoadOrder (h.shown_sound _) hq₀ hnot hrun₃ hs₃.residency).congr rfl rfl rfl
    · have hrun : (translate m write).run b = .error (.swapFull b₃.swap.capacity) b₃ := by
        rw [translate_run_absent h hm hfit hv hr write, EStateM.run_bind, hrun₃]
      obtain ⟨hout, -, rfl⟩ := (translate_run_error_iff h hw hm hfit write).mp hrun
      rw [hrun]
      refine ⟨rfl, stalled_inLoadOrder hq h.sound.residency hout.full.ge rfl ?_ rfl⟩
      show (b.policy.observe.selectVictim b.frames b.pages).2.1 = _
      rw [hq.observe]

end Board

/-! ## The pages calls use -/

/-- The page an access to address `a` uses on a machine of geometry `g`:
none when `a` lies outside the address space. -/
def Geometry.pagesAt (g : Geometry) (a : Int) : List Int :=
  if 0 ≤ a ∧ a < g.addressSpace then [a / g.pageSize] else []

/-- The pages a call uses, in order, on a machine of geometry `g`: a read or
a write the page of its address, a load the pages of the addresses it stores
to from 0, and a call that touches no memory none. -/
def Call.pagesIn (g : Geometry) : Call → List Int
  | .read a | .write a _ => g.pagesAt a
  | .load words => (List.range words.length).flatMap fun i : Nat => g.pagesAt i
  | _ => []

/-- Whether a call executes instructions, whose accesses the program decides. -/
def Call.executes : Call → Bool
  | .step | .run _ => true
  | _ => false

/-- Whether an action failed for want of a swap slot. -/
def ranOutOfSwap {σ α : Type} : EStateM.Result Fault σ α → Bool
  | .error e _ => e.family == .swapExhausted
  | .ok _ _ => false

/-- Whether some call of `cs`, made in turn from `m`, fails for want of a swap
slot. -/
def Call.runsOutOfSwap : List Call → Machine → Bool
  | [], _ => false
  | c :: cs, m => ranOutOfSwap (c.perform.run m) || runsOutOfSwap cs (finalState (c.perform.run m))

/-- Outside the space, an address at or past 0 and every later one use no
page. -/
theorem Geometry.pagesAt_beyond (g : Geometry) {a : Int} (ha : 0 ≤ a) (hout : ¬ (0 ≤ a ∧ a < g.addressSpace))
    (i : Nat) : g.pagesAt (a + i) = [] := by
  rw [Geometry.pagesAt, if_neg]
  omega

/-- What a board action leaves, unless it runs out of swap, a call making it
leaves on the machine's board. -/
theorem Machine.onBoard_transfer {α : Type} {act : BoardM α} {m : Machine} {P : Board → Prop}
    (h : ranOutOfSwap (act.run m.board) = false → P (finalState (act.run m.board)))
    (hno : ranOutOfSwap ((Machine.onBoard act).run m) = false) :
    P (finalState ((Machine.onBoard act).run m)).board := by
  rw [Machine.onBoard_run] at hno ⊢
  cases hr : act.run m.board with
  | ok a b =>
    rw [hr] at h
    exact h rfl
  | error e b =>
    rw [hr] at h hno
    exact h hno

/-- The same, for a call that drops what the action returns. -/
theorem Machine.onBoard_drop_transfer {α : Type} {act : BoardM α} {m : Machine} {P : Board → Prop}
    (h : ranOutOfSwap (act.run m.board) = false → P (finalState (act.run m.board)))
    (hno : ranOutOfSwap ((Machine.onBoard act >>= fun _ => pure ()).run m) = false) :
    P (finalState ((Machine.onBoard act >>= fun _ => pure ()).run m)).board := by
  have hon := Machine.onBoard_transfer h
  rw [EStateM.run_bind] at hno ⊢
  cases hr : (Machine.onBoard act).run m with
  | ok a m' =>
    rw [hr] at hon
    exact hon rfl
  | error e m' =>
    rw [hr] at hon hno
    exact hon hno

namespace Board

/-- What an access to address `a` leaves, on a board of geometry `g` whose
queue was `q`: one that returns was inside the space and loaded the
address's page; one that fails was outside the space and kept the queue, or
ran out of swap and turned the queue by one. -/
def Loads (g : Geometry) (q : List Int) (a : Int) {α : Type} : EStateM.Result Fault Board α → Prop
  | .ok _ b' => (0 ≤ a ∧ a < g.addressSpace) ∧
      b'.InLoadOrder ((g.pagesAt a).foldl (fifoLoad g.frames.toNat) q)
  | .error e b' => (¬ (0 ≤ a ∧ a < g.addressSpace) ∧ b'.InLoadOrder q) ∨
      (e.family = .swapExhausted ∧ b'.InLoadOrder (q.rotate 1))

/-- Unless it ran out of swap, an access leaves its page loaded. -/
theorem Loads.inLoadOrder {g : Geometry} {q : List Int} {a : Int} {α : Type}
    {r : EStateM.Result Fault Board α} (h : Loads g q a r) (hno : ranOutOfSwap r = false) :
    (finalState r).InLoadOrder ((g.pagesAt a).foldl (fifoLoad g.frames.toNat) q) := by
  cases r with
  | ok x b' => exact h.2
  | error e b' =>
    rcases h with ⟨hout, hq⟩ | ⟨he, -⟩
    · rw [Geometry.pagesAt, if_neg hout, List.foldl_nil]
      exact hq
    · simp only [ranOutOfSwap, he] at hno
      cases hno

section Access

variable {g : Geometry} {b : Board} {q : List Int} (hfit : g.virtualPages ≤ maxLength)
include hfit

/-- A read or a write at any address, on a sane board of geometry `g`: inside
the space it brings the address's page into the queue or fails for want of a
swap slot, turning the queue by one; outside it fails and keeps the queue. -/
theorem translate_loads (hs : b.Sane g) (hV : 0 < g.virtualPages) (hw : b.SlotsWithin)
    (hq : b.InLoadOrder q) (a : Int) (write : Bool) : Loads g q a ((translate a write).run b) := by
  obtain ⟨h, hg⟩ := hs
  have hP := h.sound.shape.pageSize_pos
  have hn : b.frames.size = g.frames.toNat := by rw [h.sound.shape.frames_size, hg]
  have hspace : (b.table.size : Int) * b.geometry.pageSize = g.addressSpace := by
    rw [h.sound.shape.table_size, hg, Int.toNat_of_nonneg hV.le]
    rfl
  by_cases hin : 0 ≤ a ∧ a < g.addressSpace
  · obtain ⟨m, rfl⟩ := Int.eq_ofNat_of_zero_le hin.1
    have hm : (m : Int) < b.table.size * b.geometry.pageSize := by rw [hspace]; exact hin.2
    have hpage : ((m / b.pageWords : Nat) : Int) = (m : Int) / g.pageSize := by
      unfold pageWords
      rw [← (fdiv_natCast hP).1, Int.fdiv_eq_ediv_of_nonneg _ hP.le, hg]
    have hpfit : ((m / b.pageWords : Nat) : Int) ≤ maxLength := by
      have hlt := page_lt h hm
      rw [← size_table, h.sound.shape.table_size, hg] at hlt
      omega
    have hload : (g.pagesAt m).foldl (fifoLoad g.frames.toNat) q =
        fifoLoad b.frames.size q (m / b.pageWords : Nat) := by
      rw [Geometry.pagesAt, if_pos hin, List.foldl_cons, List.foldl_nil, ← hpage, ← hn]
    have ht := translate_inLoadOrder h hw hq hm hpfit write
    cases hr : (translate m write).run b with
    | ok p b' =>
      rw [hr] at ht
      exact ⟨hin, hload ▸ ht⟩
    | error e b' =>
      rw [hr] at ht
      exact .inr ht
  · rw [translate_run_beyond hP (by rwa [← size_table, hspace])]
    exact .inl ⟨hin, hq.congr rfl rfl rfl⟩

theorem readWord_loads (hs : b.Sane g) (hV : 0 < g.virtualPages) (hw : b.SlotsWithin)
    (hq : b.InLoadOrder q) (a : Int) : Loads g q a ((readWord a).run b) := by
  have ht := translate_loads hfit hs hV hw hq a false
  cases hrun : (translate a false).run b with
  | error e b₁ =>
    rw [hrun] at ht
    rw [show (readWord a).run b = .error e b₁ by simp only [readWord, EStateM.run_bind, hrun]]
    exact ht
  | ok p b₁ =>
    rw [hrun] at ht
    obtain ⟨x, hread⟩ := readWord_of_translate hs.1 hrun
    rw [hread]
    exact ht

theorem writeWord_loads (hs : b.Sane g) (hV : 0 < g.virtualPages) (hw : b.SlotsWithin)
    (hq : b.InLoadOrder q) (a v : Int) : Loads g q a ((writeWord a v).run b) := by
  have ht := translate_loads hfit hs hV hw hq a true
  cases hrun : (translate a true).run b with
  | error e b₁ =>
    rw [hrun] at ht
    rw [show (writeWord a v).run b = .error e b₁ by simp only [writeWord, EStateM.run_bind, hrun]]
    exact ht
  | ok p b₁ =>
    rw [hrun] at ht
    obtain ⟨ram, hwrite⟩ := writeWord_of_translate hs.1 v hrun
    rw [hwrite]
    obtain ⟨hin, hq₁⟩ := ht
    exact ⟨hin, hq₁.congr rfl rfl rfl⟩

/-- Storing words from address `start` on loads the pages of the addresses
stored to, unless a store fails for want of a swap slot.  Induction on the
words; the first store outside the space ends the run of stores, and every
later address lies outside too. -/
theorem storeWords_inLoadOrder (hV : 0 < g.virtualPages) (ws : List Int) :
    ∀ (start : Nat) {b : Board} {q : List Int}, b.Sane g → b.SlotsWithin → b.InLoadOrder q →
      ranOutOfSwap ((storeWords start ws).run b) = false →
      (finalState ((storeWords start ws).run b)).InLoadOrder
        (((List.range ws.length).flatMap fun i => g.pagesAt (start + i : Nat)).foldl
          (fifoLoad g.frames.toNat) q) := by
  induction ws with
  | nil =>
    intro start b q _ _ hq _
    exact hq
  | cons w ws ih =>
    intro start b q hs hw hq hno
    have hstep := writeWord_loads hfit hs hV hw hq start w
    have hs₁ := (writeWord_ends hs start w).finalState
    have hw₁ := writeWord_slots_within hs.1 hw start w
    have hrun : (storeWords start (w :: ws)).run b =
        (writeWord start w >>= fun _ => storeWords ((start + 1 : Nat) : Int) ws).run b := rfl
    rw [hrun, EStateM.run_bind] at hno ⊢
    cases hr : (writeWord start w).run b with
    | ok u b₁ =>
      rw [hr] at hstep hs₁ hw₁ hno
      -- the first address's page, then those of the stores after it
      have hshift : ∀ i : Nat, g.pagesAt ((start + (i + 1) : Nat) : Int) =
          g.pagesAt ((start + 1 + i : Nat) : Int) := fun i => by
        rw [Nat.add_comm i 1, Nat.add_assoc]
      rw [List.length_cons, List.range_succ_eq_map, List.flatMap_cons, List.flatMap_map, List.foldl_append,
        Nat.add_zero]
      simp only [Nat.succ_eq_add_one, hshift]
      exact ih (start + 1) hs₁ hw₁ hstep.2 hno
    | error e b₁ =>
      rw [hr] at hstep hno
      -- a store that fails, not for want of a slot, is past the space, and so is every later one
      rcases hstep with ⟨hout, hq₁⟩ | ⟨he, -⟩
      · have hnil : ((List.range (ws.length + 1)).flatMap fun i => g.pagesAt ((start + i : Nat) : Int)) = [] :=
          List.flatMap_eq_nil_iff.mpr fun i _ => g.pagesAt_beyond (Int.natCast_nonneg start) hout i
        rw [List.length_cons, hnil, List.foldl_nil]
        exact hq₁
      · simp only [ranOutOfSwap, he] at hno
        cases hno

/-- Loading a program loads the pages of the addresses it fills, unless a
store runs out of swap. -/
theorem loadProgram_inLoadOrder (hs : b.Sane g) (hV : 0 < g.virtualPages) (hw : b.SlotsWithin)
    (hq : b.InLoadOrder q) (words : List Int) (hno : ranOutOfSwap ((loadProgram words).run b) = false) :
    (finalState ((loadProgram words).run b)).InLoadOrder
      (((List.range words.length).flatMap fun i : Nat => g.pagesAt i).foldl (fifoLoad g.frames.toNat) q) := by
  have hst := storeWords_inLoadOrder hfit hV words 0 hs hw hq
  simp only [Nat.zero_add, Nat.cast_zero] at hst
  rw [loadProgram, EStateM.run_bind] at hno ⊢
  cases hr : (storeWords 0 words).run b with
  | ok u b₁ =>
    rw [hr] at hst
    exact (hst rfl).congr rfl rfl rfl
  | error e b₁ =>
    rw [hr] at hst hno
    exact hst hno

end Access

/-- A board made with FIFO replacement keeps the empty queue: no frame is in
use and the cursor is at the first. -/
theorem create_inLoadOrder {g : Geometry} (hF : 0 < g.frames) {trace : Option (List Int)} {record : Bool}
    {log : Log} {b : Board} (h : Board.create g .fifo trace record log = .ok b) : b.InLoadOrder [] := by
  obtain ⟨-, -, policy, -, -, hpol, rfl⟩ := eq_of_create_ok h
  -- FIFO's policy starts with its cursor at frame 0
  cases hpol
  refine ⟨0, by simp only [Array.size_replicate]; omega, ?_, fun _ => rfl, ?_⟩
  · simp only [Array.size_replicate, Int.toNat_of_nonneg hF.le, Nat.cast_zero]
  · simp [roundRobin, owners]

end Board

theorem Machine.create_inLoadOrder {g : Geometry} (hg : g.validate = .ok g) {trace : Option (List Int)}
    {record : Bool} {log : Log} {m : Machine} (h : Machine.create g .fifo trace record log = .ok m) :
    m.board.InLoadOrder [] := by
  obtain ⟨b, hb, -, hm⟩ := Machine.create_ok h
  rw [hm]
  exact (Board.create_inLoadOrder (Geometry.validate_pos hg).2.1 hb).congr rfl rfl rfl

section Calls

variable {g : Geometry} (hfit : g.virtualPages ≤ maxLength)
include hfit

/-- A call that neither executes instructions nor runs out of swap loads the
pages it uses, in order; the others leave the queue alone. -/
theorem Call.perform_inLoadOrder {m : Machine} (hm : Reachable g m) {q : List Int}
    (hq : m.board.InLoadOrder q) (c : Call) (hc : c.executes = false)
    (hno : ranOutOfSwap (c.perform.run m) = false) :
    (finalState (c.perform.run m)).board.InLoadOrder ((c.pagesIn g).foldl (fifoLoad g.frames.toNat) q) := by
  have hs := hm.sane
  have hV := (Geometry.validate_pos hm.validate).2.2
  have hw := hm.slotsWithin
  cases c with
  | read a =>
    exact Machine.onBoard_drop_transfer (Board.readWord_loads hfit hs hV hw hq a).inLoadOrder hno
  | write a v =>
    exact Machine.onBoard_transfer (Board.writeWord_loads hfit hs hV hw hq a v).inLoadOrder hno
  | load words =>
    exact Machine.onBoard_drop_transfer (Board.loadProgram_inLoadOrder hfit hs hV hw hq words) hno
  | step | run _ => cases hc
  | stop =>
    obtain ⟨p, hp⟩ := hm.settled.1.2
    change (finalState (Machine.requestStop.run m)).board.InLoadOrder _
    rw [Machine.requestStop_run hp]
    exact hq.congr rfl rfl rfl
  | setRegister r v =>
    change (finalState (Machine.setRegister r v m)).board.InLoadOrder _
    unfold Machine.setRegister
    cases m.cpu.setRegister r v <;> exact hq
  | setPc v => exact hq
  | clearLog => exact hq.congr rfl rfl rfl

/-- Calls that neither execute instructions nor run out of swap load the pages
they use, in order.  Induction on the calls, from any reachable machine. -/
theorem Call.performAll_inLoadOrder (cs : List Call) :
    ∀ {m : Machine} {q : List Int}, Reachable g m → m.board.InLoadOrder q →
      (∀ c ∈ cs, c.executes = false) → Call.runsOutOfSwap cs m = false →
      (Call.performAll cs m).board.InLoadOrder
        ((cs.flatMap (Call.pagesIn g)).foldl (fifoLoad g.frames.toNat) q) := by
  induction cs with
  | nil =>
    intro m q _ hq _ _
    exact hq
  | cons c cs ih =>
    intro m q hm hq hcs hno
    rw [Call.runsOutOfSwap, Bool.or_eq_false_iff] at hno
    rw [List.flatMap_cons, List.foldl_append]
    exact ih (.call c hm) (Call.perform_inLoadOrder hfit hm hq c (hcs c List.mem_cons_self) hno.1)
      (fun c' hc' => hcs c' (List.mem_cons_of_mem c hc')) hno.2

end Calls

theorem Reachable.performAll {g : Geometry} {m : Machine} (h : Reachable g m) (cs : List Call) :
    Reachable g (Call.performAll cs m) := by
  induction cs generalizing m with
  | nil => exact h
  | cons c cs ih => exact ih (.call c h)

/-- FIFO replacement evicts in load order until an access runs out of swap.
Make a machine with FIFO replacement on a valid geometry whose page indices a
sequence can hold, then make any calls but steps and runs, none of which fails
for want of a swap slot.  The frames read round-robin from the policy's cursor
then hold the queue a first-in first-out cache of `g.frames` pages keeps over
the pages the calls used: its pages are the resident ones, and once every
frame is in use the next victim is the frame of its first page, the resident
page whose latest load is the earliest. -/
theorem fifo_evicts_in_load_order {g : Geometry} (hg : g.validate = .ok g)
    (hfit : g.virtualPages ≤ maxLength) {trace : Option (List Int)} {record : Bool} {log : Log}
    {m : Machine} (hm : Machine.create g .fifo trace record log = .ok m) (cs : List Call)
    (hcs : ∀ c ∈ cs, c.executes = false) (hswap : Call.runsOutOfSwap cs m = false) :
    let b := (Call.performAll cs m).board
    let q := (cs.flatMap (Call.pagesIn g)).foldl (fifoLoad g.frames.toNat) []
    b.InLoadOrder q ∧
      (∀ (v : Nat) (e : PageEntry), b.pages[v]? = some e → ((v : Int) ∈ q ↔ e.resident = true)) ∧
      (b.frames.size ≤ b.fresh → ∃ (f : Nat) (u : Int),
        (b.policy.selectVictim b.frames b.pages).1 = .ok (f : Int) ∧ b.owners[f]? = some (some u) ∧
          q.head? = some u) := by
  intro b q
  have hr : Reachable g (Call.performAll cs m) := (Reachable.create hg hm).performAll cs
  have hres : b.Residency none := hr.sane.1.sound.residency
  have hq : b.InLoadOrder q :=
    Call.performAll_inLoadOrder hfit cs (.create hg hm) (Machine.create_inLoadOrder hg hm) hcs hswap
  refine ⟨hq, fun v e hv => ?_, hq.victim_head hres⟩
  have ht : b.table[v]? = some e.unreferenced := by rw [Board.getElem?_table, hv]; rfl
  rw [hq.mem_iff hres ht, PageEntry.resident_unreferenced]

/-- On the small geometry, writes to pages 0 and 1 then reads of pages 2 and 0
find a swap slot for every eviction, and leave the frames holding pages 2 and
0 in load order. -/
theorem fifo_evicts_in_load_order_small : ∃ m : Machine,
    Machine.create smallGeometry .fifo none false {} = .ok m ∧
      Call.runsOutOfSwap [.write 0 1, .write 4 2, .read 8, .read 0] m = false ∧
      (Call.performAll [.write 0 1, .write 4 2, .read 8, .read 0] m).board.InLoadOrder [2, 0] := by
  obtain ⟨m, hm⟩ : ∃ m, Machine.create smallGeometry .fifo none false {} = .ok m := ⟨_, rfl⟩
  have hswap : Call.runsOutOfSwap [.write 0 1, .write 4 2, .read 8, .read 0] m = false := by
    have h : (Machine.create smallGeometry .fifo none false {}).map
        (Call.runsOutOfSwap [.write 0 1, .write 4 2, .read 8, .read 0]) = .ok false := by
      decide +kernel
    rw [hm] at h
    exact Except.ok.inj h
  exact ⟨m, hm, hswap, (fifo_evicts_in_load_order rfl (by decide) hm _ (by decide) hswap).1⟩

/-- Four one-word pages, two frames and a single swap slot. -/
def oneSlotGeometry : Geometry := { pageSize := 1, virtualPages := 4, frames := 2, swapSlots := 1 }

/-- Once an eviction has failed, FIFO no longer evicts in load order.  Pages 0
and 1 are written and page 2 is read, evicting page 0 into the only swap
slot; a read of page 3 then finds no slot for page 1.  Pages 1 and 2 stay
resident, page 1 loaded first, yet a second read of page 3 evicts page 2. -/
theorem fifo_evicts_later_page_after_failed_eviction : ∃ m : Machine,
    Machine.create oneSlotGeometry .fifo none false {} = .ok m ∧
      Call.runsOutOfSwap [.write 0 1, .write 1 1, .read 2] m = false ∧
      Call.runsOutOfSwap [.write 0 1, .write 1 1, .read 2, .read 3] m = true ∧
      residentPages (Call.performAll [.write 0 1, .write 1 1, .read 2, .read 3] m).board.pages = [1, 2] ∧
      residentPages (Call.performAll [.write 0 1, .write 1 1, .read 2, .read 3, .read 3] m).board.pages =
        [1, 3] := by
  obtain ⟨m, hm⟩ : ∃ m, Machine.create oneSlotGeometry .fifo none false {} = .ok m := ⟨_, rfl⟩
  have h : (Machine.create oneSlotGeometry .fifo none false {}).map (fun m =>
      (Call.runsOutOfSwap [.write 0 1, .write 1 1, .read 2] m,
        Call.runsOutOfSwap [.write 0 1, .write 1 1, .read 2, .read 3] m,
        residentPages (Call.performAll [.write 0 1, .write 1 1, .read 2, .read 3] m).board.pages,
        residentPages (Call.performAll [.write 0 1, .write 1 1, .read 2, .read 3, .read 3] m).board.pages)) =
      .ok (false, true, [1, 2], [1, 3]) := by
    decide +kernel
  rw [hm] at h
  have h' := Except.ok.inj h
  simp only [Prod.mk.injEq] at h'
  obtain ⟨h₁, h₂, h₃, h₄⟩ := h'
  exact ⟨m, hm, h₁, h₂, h₃, h₄⟩

end DemandPaging
