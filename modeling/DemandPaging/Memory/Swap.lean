import DemandPaging.Fault
import DemandPaging.Data.Index

/-!
# Swap space

The backing store for evicted pages: a fixed number of page-sized slots.
Slots are handed out in increasing order from 0 and never taken back; when
all are handed out, allocation fails.  Only a slot that has been handed out
may be written or read.  A slot holds zeros until it is written; writing
needs exactly one page of words and keeps them as given.

The swap space keeps the contents of the handed-out slots only, in order,
so the number of slots in use is the length of that sequence.
-/

namespace DemandPaging

/-- Swap space: its size, its page size, and the words of every slot handed
out so far. -/
structure Swap where
  capacity : Int
  pageSize : Int
  slots : Array (Array Int) := #[]
  deriving Repr

namespace Swap

/-- Swap space of `capacity` slots of `pageSize` words.  Every slot is a page
of zeros from the start, so as soon as there is a slot its page must be a
sequence that can be made. -/
def create (capacity pageSize : Int) : Except Fault Swap := do
  if 0 < capacity then requireLength pageSize
  pure { capacity, pageSize }

/-- The number of slots handed out. -/
def used (s : Swap) : Nat := s.slots.size

/-- A page of zeros. -/
def blank (s : Swap) : Array Int := Array.replicate s.pageSize.toNat 0

/-- Hand out the next slot, or fail when every slot is taken. -/
def allocate (s : Swap) : Except Fault (Int × Swap) :=
  if s.capacity ≤ s.used then .error (.swapFull s.capacity)
  else .ok (s.used, { s with slots := s.slots.push s.blank })

/-- The position of a slot that has been handed out. -/
def locate (s : Swap) (slot : Int) : Except Fault (Fin s.slots.size) :=
  if h : 0 ≤ slot ∧ slot < s.slots.size then .ok ⟨slot.toNat, by omega⟩
  else .error (.slotUnallocated slot)

/-- Write one page of words into a handed-out slot. -/
def store (s : Swap) (slot : Int) (data : Array Int) : Except Fault Swap := do
  let i ← s.locate slot
  if (data.size : Int) = s.pageSize then .ok { s with slots := s.slots.set i data }
  else .error (.slotSizeMismatch s.pageSize data.size)

/-- The words of a handed-out slot. -/
def retrieve (s : Swap) (slot : Int) : Except Fault (Array Int) := do
  let i ← s.locate slot
  return s.slots[i]

end Swap

end DemandPaging
