import Std.Data.HashMap
import DemandPaging.Fault
import DemandPaging.Memory.Tables

/-!
# Page replacement

Once every frame holds a page, a fault can only be served by evicting one;
the replacement policy picks the frame.

* **FIFO** walks a cursor round the frames, `cursor := (cursor + 1) mod n`.
  Frames are filled in index order at first, so this is load order.
* **Clock** (second chance) sweeps a hand round the frames: a frame whose
  page has its referenced bit set loses the bit and is passed over; the first
  frame that is unowned or whose page is unreferenced is the victim, and the
  hand stops just past it.
* **Optimal** replays a recorded trace of page accesses and evicts the page
  whose next use lies farthest ahead; an unowned frame is taken at once, a
  page never used again counts as farther than anything in the trace, and
  ties go to the lowest frame.  The position in the trace is the number of
  accesses observed; the access that faulted is the one just before it.

Cursors move modulo the frame count as integers do, the result taking the
sign of the count (`Int.fmod`); a count of zero is a fault and leaves the
cursor alone.  The clock reads the core map and page table at indices in the
sense of `DemandPaging.resolveIndex`, so a victim search over inconsistent
tables can fail, and it keeps what it did until then: the hand has moved and
the bits it passed are cleared.
-/

namespace DemandPaging

/-- The replacement algorithms. -/
inductive PolicyKind where
  | fifo
  | secondChance
  | optimal
  deriving DecidableEq, Repr

namespace PolicyKind

/-- Every algorithm, in the order the command line lists them. -/
def all : List PolicyKind := [fifo, secondChance, optimal]

/-- The name of an algorithm on the command line. -/
def name : PolicyKind → String
  | fifo => "fifo"
  | secondChance => "second-chance"
  | optimal => "optimal"

/-- The algorithm with a given name. -/
def parse (s : String) : Except Fault PolicyKind :=
  match all.find? (fun k => k.name == s) with
  | some k => .ok k
  | none => .error (.unknownPolicy s)

end PolicyKind

/-- Where each page number occurs in a trace: its positions, ascending. -/
structure TraceIndex where
  length : Nat
  uses : Std.HashMap Int (Array Nat)

/-- The first position in `[lo, hi)` of the ascending sequence `a` whose
value is at least `x`, or `hi` if there is none. -/
def lowerBound (a : Array Nat) (x : Nat) (lo hi : Nat) : Nat :=
  if h : lo < hi then
    let mid := (lo + hi) / 2
    if a.getD mid 0 < x then lowerBound a x (mid + 1) hi else lowerBound a x lo mid
  else lo
termination_by hi - lo

namespace TraceIndex

/-- The index of a trace. -/
def build (trace : List Int) : TraceIndex :=
  let step := fun (acc : Nat × Std.HashMap Int (Array Nat)) (v : Int) =>
    (acc.1 + 1, acc.2.insert v ((acc.2.getD v #[]).push acc.1))
  ⟨trace.length, (trace.foldl step (0, {})).2⟩

/-- The first position at or after `start` where page `v` is used. -/
def nextUse? (idx : TraceIndex) (v : Int) (start : Nat) : Option Nat :=
  let positions := idx.uses.getD v #[]
  positions[lowerBound positions start 0 positions.size]?

/-- How far ahead of `start` page `v` is next used; one past the trace's
length if it is not used again. -/
def distance (idx : TraceIndex) (v : Int) (start : Nat) : Nat :=
  match idx.nextUse? v start with
  | some p => p - start
  | none => idx.length + 1

end TraceIndex

/-- A replacement policy with its state. -/
inductive Policy where
  /-- FIFO over `frameCount` frames, next victim at `cursor`. -/
  | fifo (frameCount cursor : Int)
  /-- Clock over `frameCount` frames, hand at `hand`. -/
  | clock (frameCount hand : Int)
  /-- Optimal replay of an indexed trace, `position` accesses in. -/
  | optimal (index : TraceIndex) (position : Nat)

namespace Policy

/-- A fresh policy of kind `kind` over `frameCount` frames; the optimal
policy needs the trace it replays. -/
def create (kind : PolicyKind) (frameCount : Int) (trace : Option (List Int)) :
    Except Fault Policy :=
  match kind, trace with
  | .fifo, _ => .ok (.fifo frameCount 0)
  | .secondChance, _ => .ok (.clock frameCount 0)
  | .optimal, some t => .ok (.optimal (TraceIndex.build t) 0)
  | .optimal, none => .error .traceRequired

/-- The kind of a policy. -/
def kind : Policy → PolicyKind
  | fifo .. => .fifo
  | clock .. => .secondChance
  | optimal .. => .optimal

/-- The policy after observing one access; only the optimal policy counts. -/
def observe : Policy → Policy
  | optimal idx position => optimal idx (position + 1)
  | p => p

/-- The clock's sweep from `hand`, with at most `fuel` passes: the victim
(or the fault met), the hand after it, and the page table with the bits it
cleared.  Each pass that does not stop clears a set bit, so one more pass
than there are referenced pages always suffices. -/
def sweep (frames : CoreMap) (count : Int) : Nat → Int → PageTable →
    Except Fault Int × Int × PageTable
  | 0, hand, pages => (.ok hand, hand, pages)
  | fuel + 1, hand, pages =>
    if count = 0 then (.error .moduloByZero, hand, pages)
    else
      let next := Int.fmod (hand + 1) count
      match Seq.read frames hand with
      | .error e => (.error e, next, pages)
      | .ok entry =>
        match entry.owner with
        | none => (.ok hand, next, pages)
        | some owner =>
          match Seq.read pages owner with
          | .error e => (.error e, next, pages)
          | .ok page =>
            if page.referenced then
              sweep frames count fuel next (Seq.update pages owner ({ · with referenced := false }))
            else (.ok hand, next, pages)

/-- The number of referenced pages. -/
def referencedCount (pages : PageTable) : Nat :=
  pages.foldl (fun n e => if e.referenced then n + 1 else n) 0

/-- The frame of the first strictly farthest next use, scanning frames from
index `f` with the best so far `victim` at distance `farthest`; an unowned
frame wins at once. -/
def farthest (idx : TraceIndex) (start : Nat) : List FrameEntry → Nat → Nat → Int → Nat
  | [], _, victim, _ => victim
  | e :: rest, f, victim, best =>
    match e.owner with
    | none => f
    | some owner =>
      let d : Int := idx.distance owner start
      if best < d then farthest idx start rest (f + 1) f d
      else farthest idx start rest (f + 1) victim best

/-- The victim frame, with the policy and page table after choosing it. -/
def selectVictim (p : Policy) (frames : CoreMap) (pages : PageTable) :
    Except Fault Int × Policy × PageTable :=
  match p with
  | fifo count cursor =>
    if count = 0 then (.error .moduloByZero, p, pages)
    else (.ok cursor, fifo count (Int.fmod (cursor + 1) count), pages)
  | clock count hand =>
    let (result, hand', pages') := sweep frames count (referencedCount pages + 1) hand pages
    (result, clock count hand', pages')
  | optimal idx position =>
    (.ok (farthest idx (position - 1) frames.toList 0 0 (-1)), p, pages)

end Policy

end DemandPaging
