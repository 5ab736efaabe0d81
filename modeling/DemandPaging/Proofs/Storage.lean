import DemandPaging.Memory.Ram
import DemandPaging.Memory.Swap

/-!
# Sequences, RAM and swap at the indices the pager uses

The pager reaches its tables, RAM and swap through integer indices that may
count from the end, and through frame-sized ranges.  It only ever uses
non-negative indices inside the sequence, frames that lie wholly inside RAM
and slots that have been handed out; there every operation is the plain array
operation.  These lemmas say so once, so that later proofs never open
`resolveIndex`, `clampBound` or the range arithmetic of `Ram.readFrame` and
`Ram.writeFrame` again.
-/

namespace DemandPaging

theorem resolveIndex_natCast (n k : Nat) : resolveIndex n k = if k < n then some k else none := by
  unfold resolveIndex
  have h0 : ¬ ((k : Int) < 0) := by omega
  simp only [h0, if_false]
  by_cases hk : k < n
  · rw [if_pos (by omega), if_pos hk, Int.toNat_natCast]
  · rw [if_neg (by omega), if_neg hk]

theorem fitsSize_natCast {k : Nat} (hk : (k : Int) ≤ maxLength) : fitsSize k = true := by
  simp only [fitsSize, Bool.and_eq_true, decide_eq_true_eq]
  unfold maxLength at *
  omega

theorem clampBound_natCast (n m : Nat) : clampBound n m = min m n := by
  unfold clampBound
  rw [if_neg (by omega), Int.toNat_natCast]

namespace Seq

variable {α : Type}

/-- At a natural index an update is `Array.modify`; past the end neither
changes anything. -/
@[simp] theorem update_natCast (a : Array α) (k : Nat) (f : α → α) :
    update a k f = a.modify k f := by
  unfold update
  rw [resolveIndex_natCast]
  by_cases hk : k < a.size
  · simp [hk]
  · simp only [hk, if_false]
    unfold Array.modify Array.modifyM
    simp [hk]

theorem read_of_getElem? {a : Array α} {k : Nat} {x : α} (hx : a[k]? = some x)
    (hk : (k : Int) ≤ maxLength) : read a k = .ok x := by
  have hlt : k < a.size := (Array.getElem?_eq_some_iff.mp hx).1
  simp only [read, fitsSize_natCast hk, Bool.not_true, get?, resolveIndex_natCast, hlt,
    if_true, Option.bind_some, hx]
  rfl

theorem write_of_lt {a : Array α} {k : Nat} (hlt : k < a.size) (hk : (k : Int) ≤ maxLength)
    (v : α) : write a k v = .ok (a.set k v) := by
  simp only [write, fitsSize_natCast hk, Bool.not_true, set?, resolveIndex_natCast, hlt,
    if_true, Option.map_some, Array.set!_eq_setIfInBounds, Array.setIfInBounds, dite_true]
  rfl

theorem size_update (a : Array α) (i : Int) (f : α → α) : (update a i f).size = a.size := by
  unfold update
  split
  · exact Array.size_modify
  · rfl

/-- An update that a view `h` cannot see leaves the viewed sequence alone. -/
theorem map_update_of_comp {β : Type} {a : Array α} {i : Int} {g : α → α} {h : α → β}
    (hg : ∀ x, h (g x) = h x) : (update a i g).map h = a.map h := by
  unfold update
  split
  · apply Array.ext
    · simp
    · intro j _ _
      simp only [Array.getElem_map, Array.getElem_modify]
      split <;> simp [hg]
  · rfl

end Seq

theorem modify_eq_set {α : Type} {a : Array α} {i : Nat} (g : α → α) (h : i < a.size) :
    a.modify i g = a.set i (g a[i]) h := by
  apply Array.ext
  · simp
  · intro j h₁ h₂
    simp only [Array.getElem_modify, Array.getElem_set]
    split <;> simp_all

theorem modify_modify_same {α : Type} {a : Array α} {i : Nat} (g₁ g₂ : α → α) :
    (a.modify i g₁).modify i g₂ = a.modify i (fun x => g₂ (g₁ x)) := by
  apply Array.ext
  · simp
  · intro j h₁ h₂
    simp only [Array.getElem_modify]
    split <;> rfl

theorem countP_modify {α : Type} {p : α → Bool} {a : Array α} {i : Nat} (g : α → α)
    (h : i < a.size) :
    (a.modify i g).countP p =
      a.countP p - (if p a[i] then 1 else 0) + (if p (g a[i]) then 1 else 0) := by
  rw [modify_eq_set g h, Array.countP_set]

/-- Changing an item in a way a predicate cannot see keeps the count. -/
theorem countP_modify_of_eq {α : Type} {p : α → Bool} {a : Array α} {i : Nat} {g : α → α}
    (hg : ∀ x, p (g x) = p x) : (a.modify i g).countP p = a.countP p := by
  by_cases h : i < a.size
  · rw [countP_modify g h, hg]
    split
    · have : 0 < a.countP p := Array.countP_pos_iff.mpr ⟨a[i], Array.getElem_mem h, ‹_›⟩
      omega
    · omega
  · have hsame : a.modify i g = a := by
      apply Array.ext
      · simp
      · intro j h₁ h₂
        simp only [Array.getElem_modify]
        split <;> simp_all
    rw [hsame]

/-- Replacing the `d.size` items from `s` by `d`. -/
theorem getElem?_overwrite {α : Type} {a d : Array α} {s : Nat} (h : s + d.size ≤ a.size)
    (i : Nat) :
    (a.extract 0 s ++ d ++ a.extract (s + d.size) a.size)[i]? =
      if s ≤ i ∧ i < s + d.size then d[i - s]? else a[i]? := by
  simp only [Array.getElem?_append, Array.size_append, Array.size_extract, Array.getElem?_extract,
    Nat.min_self, Nat.min_eq_left (by omega : s ≤ a.size), Nat.sub_zero, Nat.zero_add]
  by_cases h₁ : i < s
  · simp [h₁, show ¬ s ≤ i by omega, show i < s + d.size by omega]
  · by_cases h₂ : i < s + d.size
    · simp [h₁, h₂, show s ≤ i by omega]
    · have h₃ : s + d.size + (i - (s + d.size)) = i := by omega
      simp only [h₁, h₂, if_false, and_false, h₃]
      by_cases h₄ : i < a.size
      · simp [show i - (s + d.size) < a.size - (s + d.size) by omega]
      · simp [show ¬ i - (s + d.size) < a.size - (s + d.size) by omega,
          Array.getElem?_eq_none (by omega : a.size ≤ i)]

theorem size_overwrite {α : Type} {a d : Array α} {s : Nat} (h : s + d.size ≤ a.size) :
    (a.extract 0 s ++ d ++ a.extract (s + d.size) a.size).size = a.size := by
  simp only [Array.size_append, Array.size_extract]
  omega

namespace Ram

variable {r : Ram} {p k : Nat}

theorem readFrame_natCast (hp : r.pageSize = p) :
    r.readFrame k =
      r.words.extract (min (k * p) r.words.size) (min (k * p + p) r.words.size) := by
  rw [readFrame, Seq.slice, hp, show (k : Int) * p = ((k * p : Nat) : Int) by push_cast; rfl,
    show ((k * p : Nat) : Int) + p = ((k * p + p : Nat) : Int) by push_cast; rfl,
    clampBound_natCast, clampBound_natCast]

/-- Frame `k` read out of RAM: the page of words from `k * p`. -/
theorem getElem?_readFrame (hp : r.pageSize = p) (hk : (k + 1) * p ≤ r.words.size) (o : Nat) :
    (r.readFrame k)[o]? = if o < p then r.words[k * p + o]? else none := by
  rw [Nat.add_mul, Nat.one_mul] at hk
  rw [readFrame_natCast hp, Array.getElem?_extract, Nat.min_eq_left (by omega : k * p ≤ _),
    Nat.min_eq_left hk]
  by_cases ho : o < p
  · rw [if_pos (by omega), if_pos ho]
  · rw [if_neg (by omega), if_neg ho]

theorem size_readFrame (hp : r.pageSize = p) (hk : (k + 1) * p ≤ r.words.size) :
    (r.readFrame k).size = p := by
  rw [Nat.add_mul, Nat.one_mul] at hk
  rw [readFrame_natCast hp, Array.size_extract, Nat.min_eq_left (by omega),
    Nat.min_eq_left (by omega)]
  omega

/-- Writing one page of words over frame `k`. -/
theorem writeFrame_natCast (hp : r.pageSize = p) (hk : (k + 1) * p ≤ r.words.size)
    {data : Array Int} (hd : data.size = p) :
    r.writeFrame k data = .ok { r with
      words := r.words.extract 0 (k * p) ++ data ++ r.words.extract (k * p + data.size) r.words.size } := by
  rw [Nat.add_mul, Nat.one_mul] at hk
  rw [writeFrame, if_pos (by rw [hp, hd]), Seq.splice, hp,
    show (k : Int) * p = ((k * p : Nat) : Int) by push_cast; rfl,
    show ((k * p : Nat) : Int) + p = ((k * p + p : Nat) : Int) by push_cast; rfl,
    clampBound_natCast, clampBound_natCast, Nat.min_eq_left (by omega), Nat.min_eq_left hk,
    Nat.max_eq_right (by omega), hd]

theorem read_of_getElem? {i : Nat} {x : Int} (hx : r.words[i]? = some x)
    (hi : (i : Int) ≤ maxLength) : r.read i = .ok x :=
  Seq.read_of_getElem? hx hi

theorem write_of_lt {i : Nat} (hlt : i < r.words.size) (hi : (i : Int) ≤ maxLength) (v : Int) :
    r.write i v = .ok { r with words := r.words.set i (wrapWord v) } := by
  simp only [write, Seq.write_of_lt hlt hi, bind, Except.bind, pure, Except.pure]

end Ram

namespace Swap

variable {s : Swap}

theorem allocate_of_full (h : s.capacity ≤ s.used) :
    s.allocate = .error (.swapFull s.capacity) := by
  simp [allocate, h]

theorem allocate_of_lt (h : (s.used : Int) < s.capacity) :
    s.allocate = .ok (s.used, { s with slots := s.slots.push s.blank }) := by
  simp [allocate, Int.not_le.mpr h]

theorem locate_natCast {k : Nat} (hk : k < s.slots.size) : s.locate k = .ok ⟨k, hk⟩ := by
  unfold locate
  rw [dif_pos ⟨Int.natCast_nonneg k, by exact_mod_cast hk⟩]
  rfl

theorem store_natCast {k : Nat} (hk : k < s.slots.size) {data : Array Int}
    (hd : (data.size : Int) = s.pageSize) :
    s.store k data = .ok { s with slots := s.slots.set k data hk } := by
  simp only [store, locate_natCast hk, bind, Except.bind, hd, if_true]

theorem retrieve_natCast {k : Nat} (hk : k < s.slots.size) : s.retrieve k = .ok s.slots[k] := by
  simp only [retrieve, locate_natCast hk, bind, Except.bind]
  rfl

@[simp] theorem size_blank : s.blank.size = s.pageSize.toNat := by
  simp [blank]

end Swap

end DemandPaging
