import DemandPaging.Processor.Run

/-!
# Flat memory

The simplest memory a processor can run against: every address holds a
word, zero until written, and a write stores the value as given, with no
narrowing and no bounds.  There is no translation, no fault and no
interrupt, and the instruction trace goes to a log of its own.  The cells
written so far are kept in ascending address order.
-/

namespace DemandPaging

/-- A flat memory: the written cells by ascending address, and a log. -/
structure FlatMemory where
  cells : List (Int × Int) := []
  log : Log := {}

namespace FlatMemory

/-- The cells with the cell at address `a` set to `v`, still ascending. -/
def insertCell (a v : Int) : List (Int × Int) → List (Int × Int)
  | [] => [(a, v)]
  | (b, w) :: rest =>
    if a < b then (a, v) :: (b, w) :: rest
    else if a = b then (a, v) :: rest
    else (b, w) :: insertCell a v rest

/-- The word at address `a`. -/
def read (m : FlatMemory) (a : Int) : Int := (m.cells.lookup a).getD 0

/-- The memory with `v` stored at address `a`. -/
def write (m : FlatMemory) (a v : Int) : FlatMemory := { m with cells := insertCell a v m.cells }

/-- A memory holding the given cells, a later cell winning over an earlier
one at the same address. -/
def ofCells (cells : List (Int × Int)) (log : Log) : FlatMemory :=
  cells.foldl (fun m c => m.write c.1 c.2) { log }

/-- The processor's view of a flat memory. -/
def bus : Bus FlatMemory where
  read a := do pure ((← get).read a)
  write a v := modify (·.write a v)
  trace e m := { m with log := m.log.add e }
  service _ m := (false, m)

end FlatMemory

end DemandPaging
