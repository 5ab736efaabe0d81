import DemandPaging.Fault

/-!
# Indices and ranges

The machine's tables, register file and RAM are sequences addressed by
integers that may be negative.  An index `i` into a sequence of length `n`
names position `i` when `0 ≤ i < n` and position `n + i` when
`-n ≤ i < 0`, counting from the end; any other index names nothing.  A
range `[start, stop)` has each bound counted from the end when negative and
then clamped into `[0, n]`; it is empty when `stop` falls before `start`.
Replacing a range puts the new items where the range starts, so a sequence
grows when more items come in than the range held.

Counts and indices must be signed 64-bit numbers (`fitsSize`).  A count
outside that range fails at once, before anything is made, while any other
count up to zero asks for an empty sequence; an index outside it fails
before it is compared with the length.
-/

namespace DemandPaging

/-- The most items a sequence can have: the largest signed 64-bit number. -/
def maxLength : Int := 9223372036854775807

/-- Whether `n` is a signed 64-bit number, as counts and indices must be. -/
def fitsSize (n : Int) : Bool :=
  decide (-maxLength - 1 ≤ n) && decide (n ≤ maxLength)

/-- Succeeds when `n` can count the items of a sequence. -/
def requireLength (n : Int) : Except Fault Unit :=
  if fitsSize n then .ok () else .error .lengthOverflow

/-- The position index `i` names in a sequence of length `n`, if any. -/
def resolveIndex (n : Nat) (i : Int) : Option Nat :=
  let j := if i < 0 then i + n else i
  if 0 ≤ j ∧ j < n then some j.toNat else none

/-- Where the range bound `i` falls in a sequence of length `n`. -/
def clampBound (n : Nat) (i : Int) : Nat :=
  if i < 0 then (i + n).toNat else min i.toNat n

namespace Seq

variable {α : Type}

/-- The item at index `i`, counting from the end when `i` is negative. -/
def get? (a : Array α) (i : Int) : Option α :=
  (resolveIndex a.size i).bind (fun j => a[j]?)

/-- The sequence with the item at index `i` replaced, or `none` when `i`
names no item. -/
def set? (a : Array α) (i : Int) (v : α) : Option (Array α) :=
  (resolveIndex a.size i).map (fun j => a.set! j v)

/-- The item at index `i`, or the fault of reading there. -/
def read (a : Array α) (i : Int) : Except Fault α :=
  if !fitsSize i then .error .indexOverflow
  else match get? a i with
    | some x => .ok x
    | none => .error .indexOutOfRange

/-- The sequence with the item at index `i` replaced, or the fault of
writing there. -/
def write (a : Array α) (i : Int) (v : α) : Except Fault (Array α) :=
  if !fitsSize i then .error .indexOverflow
  else match set? a i v with
    | some a' => .ok a'
    | none => .error .assignmentOutOfRange

/-- The sequence with `f` applied to the item at index `i`; unchanged when
`i` names no item. -/
def update (a : Array α) (i : Int) (f : α → α) : Array α :=
  match resolveIndex a.size i with
  | some j => a.modify j f
  | none => a

/-- The items of the range `[start, stop)`. -/
def slice (a : Array α) (start stop : Int) : Array α :=
  a.extract (clampBound a.size start) (clampBound a.size stop)

/-- The sequence with the range `[start, stop)` replaced by `xs`. -/
def splice (a : Array α) (start stop : Int) (xs : Array α) : Array α :=
  let s := clampBound a.size start
  let e := max s (clampBound a.size stop)
  a.extract 0 s ++ xs ++ a.extract e a.size

end Seq

theorem resolveIndex_of_lt {n : Nat} {i : Int} (h0 : 0 ≤ i) (h1 : i < n) :
    resolveIndex n i = some i.toNat := by
  unfold resolveIndex
  simp only [show ¬ i < 0 by omega, if_false]
  rw [if_pos ⟨h0, h1⟩]

theorem resolveIndex_lt {n : Nat} {i : Int} {j : Nat} (h : resolveIndex n i = some j) : j < n := by
  unfold resolveIndex at h
  by_cases hi : i < 0
  · simp only [hi, if_true] at h
    split at h
    · simp only [Option.some.injEq] at h
      omega
    · simp at h
  · simp only [hi, if_false] at h
    split at h
    · simp only [Option.some.injEq] at h
      omega
    · simp at h

example : Seq.get? #[1, 2, 3] (-1) = some 3 ∧ Seq.get? #[1, 2, 3] 3 = none ∧
    Seq.slice #[1, 2, 3, 4] (-3) 10 = #[2, 3, 4] ∧
    Seq.splice #[1, 2] 5 7 #[8, 9] = #[1, 2, 8, 9] := by decide

end DemandPaging
