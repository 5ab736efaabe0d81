import DemandPaging.Proofs.Storage

/-!
# Swap space is a slot store with an allocation frontier

Seen from outside, swap space answers three requests: hand out a slot,
store a page of words in a slot, and retrieve a slot's words.  Its rules,
stated on the transcript of the requests served so far and their replies
(newest first), without looking inside:

* slots are handed out as 0, 1, 2, ..., one per allocation that succeeded,
  and allocation fails exactly when `capacity` slots are out;
* only a slot below that frontier may be stored or retrieved; a store further
  needs exactly one page of words;
* a slot gives back the words of the latest store into it that succeeded, or
  a page of zeros when there is none.

`Swap.serve` makes one request of a swap space, and `Swap.serveAll` makes a
list of them.  The main statement, `serveAll_answers_by_rules`, says that
every reply of any run of requests from a new swap space is the one the rules
give (`SwapTranscript.Answered`), that the number of slots in use is the
frontier and never passes the capacity, and that a request that fails leaves
the swap space as it was.  It rests on one invariant, `Swap.Tracks`, which
reads every slot off the transcript; `Swap.serve_tracks` says that one
request keeps it and gets the reply the rules give.
-/

namespace DemandPaging

/-- A request made of a swap space. -/
inductive SwapRequest where
  | allocate
  | store (slot : Int) (data : Array Int)
  | retrieve (slot : Int)
  deriving DecidableEq, Repr

/-- What a swap space gives back for a request it serves. -/
inductive SwapReply where
  /-- The slot handed out. -/
  | slot (s : Int)
  /-- The words were stored. -/
  | stored
  /-- The words of the slot asked for. -/
  | words (data : Array Int)
  deriving DecidableEq, Repr

/-- The requests a swap space served, each with its reply or fault, newest
first. -/
abbrev SwapTranscript := List (SwapRequest × Except Fault SwapReply)

namespace SwapTranscript

/-- The number of slots the allocations of a transcript handed out. -/
def handedOut : SwapTranscript → Nat
  | [] => 0
  | (r, a) :: t =>
    match r, a with
    | .allocate, .ok _ => handedOut t + 1
    | _, _ => handedOut t

/-- The words of the latest store into `slot` that succeeded, if any. -/
def lastStored (slot : Int) : SwapTranscript → Option (Array Int)
  | [] => none
  | (r, a) :: t =>
    match r, a with
    | .store k data, .ok _ => if k = slot then some data else lastStored slot t
    | _, _ => lastStored slot t

/-- The reply the rules give to request `r` of a swap space of `capacity`
slots of `pageSize` words, after the transcript `t`. -/
def expected (capacity pageSize : Int) (t : SwapTranscript) : SwapRequest → Except Fault SwapReply
  | .allocate =>
    if (t.handedOut : Int) < capacity then .ok (.slot t.handedOut) else .error (.swapFull capacity)
  | .store slot data =>
    if 0 ≤ slot ∧ slot < t.handedOut then
      if (data.size : Int) = pageSize then .ok .stored
      else .error (.slotSizeMismatch pageSize data.size)
    else .error (.slotUnallocated slot)
  | .retrieve slot =>
    if 0 ≤ slot ∧ slot < t.handedOut then
      .ok (.words ((t.lastStored slot).getD (Array.replicate pageSize.toNat 0)))
    else .error (.slotUnallocated slot)

/-- Every reply of a transcript is the one the rules give after the requests
before it. -/
def Answered (capacity pageSize : Int) : SwapTranscript → Prop
  | [] => True
  | (r, a) :: t => a = expected capacity pageSize t r ∧ Answered capacity pageSize t

/-- Under the rules, no more than `capacity` slots are ever handed out. -/
theorem handedOut_le {c p : Int} (hc : 0 ≤ c) {t : SwapTranscript} (hA : t.Answered c p) :
    (t.handedOut : Int) ≤ c := by
  induction t with
  | nil => exact hc
  | cons e t ih =>
    obtain ⟨r, a⟩ := e
    obtain ⟨ha, hA⟩ := hA
    have ih := ih hA
    cases r with
    | allocate =>
      -- an allocation succeeds only below the capacity
      simp only [expected] at ha
      split at ha
      · subst ha
        simp only [handedOut]
        omega
      · subst ha
        simpa [handedOut] using ih
    | store slot data => cases a <;> simpa [handedOut] using ih
    | retrieve slot => cases a <;> simpa [handedOut] using ih

end SwapTranscript

namespace Swap

/-- Make one request of a swap space: the reply or the fault, and the swap
space after it.  A request that fails leaves the swap space as it was. -/
def serve (s : Swap) : SwapRequest → Except Fault SwapReply × Swap
  | .allocate =>
    match s.allocate with
    | .ok (slot, s') => (.ok (.slot slot), s')
    | .error e => (.error e, s)
  | .store slot data =>
    match s.store slot data with
    | .ok s' => (.ok .stored, s')
    | .error e => (.error e, s)
  | .retrieve slot =>
    match s.retrieve slot with
    | .ok data => (.ok (.words data), s)
    | .error e => (.error e, s)

/-- Make the requests `rs` in turn, adding each with its reply to the
transcript `t`. -/
def serveAll (s : Swap) (t : SwapTranscript) : List SwapRequest → SwapTranscript × Swap
  | [] => (t, s)
  | r :: rs => (s.serve r).2.serveAll ((r, (s.serve r).1) :: t) rs

/-- A swap space of `capacity` slots of `pageSize` words holds what the
transcript `t` says: the slots in use are those below the frontier, each
holding the words last stored in it or zeros, and no store ever reached a
slot at or past the frontier. -/
structure Tracks (capacity pageSize : Int) (t : SwapTranscript) (s : Swap) : Prop where
  capacity : s.capacity = capacity
  pageSize : s.pageSize = pageSize
  used : s.used = t.handedOut
  slot : ∀ k : Nat, k < s.used → s.slots[k]? = some ((t.lastStored k).getD s.blank)
  unstored : ∀ k : Int, (t.handedOut : Int) ≤ k → t.lastStored k = none

variable {s : Swap} {t : SwapTranscript} {c p : Int}

theorem locate_of_not_mem {slot : Int} (h : ¬ (0 ≤ slot ∧ slot < s.slots.size)) :
    s.locate slot = .error (.slotUnallocated slot) := by
  unfold locate
  rw [dif_neg h]

theorem store_of_not_mem {slot : Int} (h : ¬ (0 ≤ slot ∧ slot < s.slots.size)) (data : Array Int) :
    s.store slot data = .error (.slotUnallocated slot) := by
  simp only [store, locate_of_not_mem h, bind, Except.bind]

theorem store_of_size_ne {k : Nat} (hk : k < s.slots.size) {data : Array Int}
    (hd : ¬ (data.size : Int) = s.pageSize) :
    s.store k data = .error (.slotSizeMismatch s.pageSize data.size) := by
  simp only [store, locate_natCast hk, bind, Except.bind, hd, if_false]

theorem retrieve_of_not_mem {slot : Int} (h : ¬ (0 ≤ slot ∧ slot < s.slots.size)) :
    s.retrieve slot = .error (.slotUnallocated slot) := by
  simp only [retrieve, locate_of_not_mem h, bind, Except.bind]

/-- Allocation hands out the frontier, or fails when the capacity is reached. -/
theorem serve_allocate (ht : Tracks c p t s) :
    (s.serve .allocate).1 = t.expected c p .allocate ∧
      Tracks c p ((.allocate, (s.serve .allocate).1) :: t) (s.serve .allocate).2 := by
  by_cases hfull : s.capacity ≤ s.used
  · have hrun : s.serve .allocate = (.error (.swapFull s.capacity), s) := by
      simp only [serve, allocate_of_full hfull]
    rw [hrun, ht.capacity]
    rw [ht.capacity, ht.used] at hfull
    refine ⟨by simp only [SwapTranscript.expected, if_neg (Int.not_lt.mpr hfull)],
      ⟨ht.capacity, ht.pageSize, ht.used, fun k hk => ?_, fun k hk => ?_⟩⟩
    · simpa [SwapTranscript.lastStored] using ht.slot k hk
    · simpa [SwapTranscript.lastStored] using ht.unstored k hk
  · have hlt : (s.used : Int) < s.capacity := by omega
    have hrun : s.serve .allocate =
        (.ok (.slot s.used), { s with slots := s.slots.push s.blank }) := by
      simp only [serve, allocate_of_lt hlt]
    rw [hrun]
    rw [ht.capacity, ht.used] at hlt
    refine ⟨by simp only [SwapTranscript.expected, ht.used, if_pos hlt],
      ⟨ht.capacity, ht.pageSize, ?_, fun k hk => ?_, fun k hk => ?_⟩⟩
    · simp [SwapTranscript.handedOut, ← ht.used, used]
    · -- the new slot is blank, and nothing was ever stored there
      simp only [used, Array.size_push] at hk
      simp only [SwapTranscript.lastStored, Array.getElem?_push]
      by_cases hks : k = s.slots.size
      · subst hks
        have hnone := ht.unstored s.slots.size (by rw [← ht.used]; exact Int.le_refl _)
        simp [hnone, blank]
      · simpa [hks, blank] using ht.slot k (by simp only [used]; omega)
    · simp only [SwapTranscript.handedOut] at hk
      simpa [SwapTranscript.lastStored] using ht.unstored k (by omega)

/-- A store below the frontier of one page of words replaces the slot's
words; any other store fails, naming the slot or the size. -/
theorem serve_store (ht : Tracks c p t s) (slot : Int) (data : Array Int) :
    (s.serve (.store slot data)).1 = t.expected c p (.store slot data) ∧
      Tracks c p ((.store slot data, (s.serve (.store slot data)).1) :: t)
        (s.serve (.store slot data)).2 := by
  have hsize : (s.slots.size : Int) = t.handedOut := by rw [← ht.used]; rfl
  by_cases hin : 0 ≤ slot ∧ slot < t.handedOut
  · obtain ⟨k, rfl⟩ : ∃ k : Nat, slot = k := ⟨slot.toNat, by omega⟩
    have hk : k < s.slots.size := by omega
    by_cases hd : (data.size : Int) = p
    · have hrun : s.serve (.store k data) = (.ok .stored, { s with slots := s.slots.set k data hk }) := by
        simp only [serve, store_natCast hk (by rw [ht.pageSize]; exact hd)]
      rw [hrun]
      refine ⟨by simp only [SwapTranscript.expected, if_pos hin, if_pos hd],
        ⟨ht.capacity, ht.pageSize, by simpa [used, SwapTranscript.handedOut] using ht.used,
          fun j hj => ?_, fun j hj => ?_⟩⟩
      · -- the slot stored into now holds the new words, every other one its old words
        simp only [used, Array.size_set] at hj
        by_cases hjk : k = j
        · subst hjk
          simp [SwapTranscript.lastStored]
        · have hne : ¬ (k : Int) = j := by omega
          simpa [SwapTranscript.lastStored, Array.getElem?_set, hjk, hne, blank] using ht.slot j hj
      · simp only [SwapTranscript.handedOut] at hj
        simpa [SwapTranscript.lastStored, show ¬ (k : Int) = j by omega] using ht.unstored j hj
    · have hrun : s.serve (.store k data) = (.error (.slotSizeMismatch p data.size), s) := by
        simp only [serve, store_of_size_ne hk (by rw [ht.pageSize]; exact hd), ht.pageSize]
      rw [hrun]
      refine ⟨by simp only [SwapTranscript.expected, if_pos hin, if_neg hd],
        ⟨ht.capacity, ht.pageSize, ht.used, fun j hj => ?_, fun j hj => ?_⟩⟩
      · simpa [SwapTranscript.lastStored] using ht.slot j hj
      · simpa [SwapTranscript.lastStored] using ht.unstored j hj
  · have hrun : s.serve (.store slot data) = (.error (.slotUnallocated slot), s) := by
      simp only [serve, store_of_not_mem (by rw [hsize]; exact hin)]
    rw [hrun]
    refine ⟨by simp only [SwapTranscript.expected, if_neg hin],
      ⟨ht.capacity, ht.pageSize, ht.used, fun j hj => ?_, fun j hj => ?_⟩⟩
    · simpa [SwapTranscript.lastStored] using ht.slot j hj
    · simpa [SwapTranscript.lastStored] using ht.unstored j hj

/-- A slot below the frontier gives its words back, any other slot fails. -/
theorem serve_retrieve (ht : Tracks c p t s) (slot : Int) :
    (s.serve (.retrieve slot)).1 = t.expected c p (.retrieve slot) ∧
      Tracks c p ((.retrieve slot, (s.serve (.retrieve slot)).1) :: t) (s.serve (.retrieve slot)).2 := by
  have hsize : (s.slots.size : Int) = t.handedOut := by rw [← ht.used]; rfl
  have hkeep : ∀ a : Except Fault SwapReply, Tracks c p ((.retrieve slot, a) :: t) s := fun a =>
    ⟨ht.capacity, ht.pageSize, ht.used, fun j hj => by simpa [SwapTranscript.lastStored] using ht.slot j hj,
      fun j hj => by simpa [SwapTranscript.lastStored] using ht.unstored j hj⟩
  by_cases hin : 0 ≤ slot ∧ slot < t.handedOut
  · obtain ⟨k, rfl⟩ : ∃ k : Nat, slot = k := ⟨slot.toNat, by omega⟩
    have hk : k < s.slots.size := by omega
    have hrun : s.serve (.retrieve k) = (.ok (.words s.slots[k]), s) := by
      simp only [serve, retrieve_natCast hk]
    rw [hrun]
    refine ⟨?_, hkeep _⟩
    have hslot := ht.slot k hk
    rw [Array.getElem?_eq_getElem hk, Option.some.injEq] at hslot
    simp only [SwapTranscript.expected, if_pos hin, hslot, blank, ht.pageSize]
  · have hrun : s.serve (.retrieve slot) = (.error (.slotUnallocated slot), s) := by
      simp only [serve, retrieve_of_not_mem (by rw [hsize]; exact hin)]
    rw [hrun]
    exact ⟨by simp only [SwapTranscript.expected, if_neg hin], hkeep _⟩

/-- One request gets the reply the rules give and keeps the invariant. -/
theorem serve_tracks (ht : Tracks c p t s) (r : SwapRequest) :
    (s.serve r).1 = t.expected c p r ∧ Tracks c p ((r, (s.serve r).1) :: t) (s.serve r).2 := by
  cases r with
  | allocate => exact serve_allocate ht
  | store slot data => exact serve_store ht slot data
  | retrieve slot => exact serve_retrieve ht slot

/-- A request that fails changes nothing. -/
theorem serve_of_error {r : SwapRequest} {e : Fault} (h : (s.serve r).1 = .error e) :
    (s.serve r).2 = s := by
  cases r <;> simp only [serve] at h ⊢ <;> split <;> simp_all

/-- A run of requests keeps the invariant and answers by the rules. -/
theorem serveAll_tracks (rs : List SwapRequest) :
    ∀ {s : Swap} {t : SwapTranscript}, Tracks c p t s → t.Answered c p →
      Tracks c p (s.serveAll t rs).1 (s.serveAll t rs).2 ∧ (s.serveAll t rs).1.Answered c p := by
  induction rs with
  | nil => exact fun ht hA => ⟨ht, hA⟩
  | cons r rs ih =>
    intro s t ht hA
    obtain ⟨hr, ht'⟩ := serve_tracks ht r
    exact ih ht' ⟨hr, hA⟩

/-- A new swap space holds what the empty transcript says. -/
theorem create_tracks {s : Swap} (h : Swap.create c p = .ok s) : Tracks c p [] s := by
  have hs : s = { capacity := c, pageSize := p } := by
    unfold Swap.create at h
    split at h
    · simp only [bind, Except.bind] at h
      split at h
      · cases h
      · exact (Except.ok.inj h).symm
    · exact (Except.ok.inj h).symm
  subst hs
  exact ⟨rfl, rfl, rfl, fun k hk => absurd hk (Nat.not_lt_zero k), fun _ _ => rfl⟩

end Swap

/-- Swap space keeps its rules over any run of requests.  From a new swap
space of `c ≥ 0` slots of `p` words, after any requests: every reply was
the one the rules give after the requests before it (slots handed out in
order until `c` are out; only handed-out slots stored or retrieved, stores of
one page only; a slot gives the words last stored in it, or zeros); the
number of slots in use is the number handed out, never more than `c`; and
from there, a request that fails leaves the swap space as it was. -/
theorem serveAll_answers_by_rules {c p : Int} {s : Swap} (hc : 0 ≤ c) (h : Swap.create c p = .ok s) (rs : List SwapRequest) :
    (s.serveAll [] rs).1.Answered c p ∧
      (s.serveAll [] rs).2.used = (s.serveAll [] rs).1.handedOut ∧
      ((s.serveAll [] rs).2.used : Int) ≤ c ∧
      ∀ (r : SwapRequest) (e : Fault), ((s.serveAll [] rs).2.serve r).1 = .error e →
        ((s.serveAll [] rs).2.serve r).2 = (s.serveAll [] rs).2 := by
  obtain ⟨ht, hA⟩ := Swap.serveAll_tracks rs (Swap.create_tracks h) trivial
  refine ⟨hA, ht.used, ?_, fun r e => Swap.serve_of_error⟩
  rw [ht.used]
  exact SwapTranscript.handedOut_le hc hA

/-- Two slots of one word: a slot is handed out, stored into, read back, and
a slot past the frontier is refused. -/
theorem serveAll_answers_by_rules_small :
    let rs := [.allocate, .store 0 #[7], .retrieve 0, .retrieve 1]
    let s : Swap := { capacity := 2, pageSize := 1 }
    (0 : Int) ≤ 2 ∧ Swap.create 2 1 = .ok s ∧
      (s.serveAll [] rs).1.Answered 2 1 ∧
      (s.serveAll [] rs).2.used = (s.serveAll [] rs).1.handedOut ∧
      ((s.serveAll [] rs).2.used : Int) ≤ 2 ∧
      ∀ (r : SwapRequest) (e : Fault), ((s.serveAll [] rs).2.serve r).1 = .error e →
        ((s.serveAll [] rs).2.serve r).2 = (s.serveAll [] rs).2 :=
  ⟨by decide, rfl, serveAll_answers_by_rules (by decide) rfl _⟩

example : ((Swap.serveAll { capacity := 1, pageSize := 2 } []
    [.allocate, .allocate, .store 0 #[1], .retrieve 0]).1.map Prod.snd) =
    [.ok (.words #[0, 0]), .error (.slotSizeMismatch 2 1), .error (.swapFull 1), .ok (.slot 0)] :=
  rfl

end DemandPaging
