import DemandPaging.Memory.Pager
import DemandPaging.Processor.Run

/-!
# The machine

A machine is a processor attached to a board (`DemandPaging.Board`): its
memory goes through the pager, its stop requests arrive on the stop vector,
and its instruction trace goes to the board's log.  Building a machine logs
its policy and geometry; a run logs how it ended.
-/

namespace DemandPaging

/-- A demand-paged machine. -/
abbrev Machine := Computer Board

/-- Actions on a machine that may fail. -/
abbrev MachineM := EStateM Fault Machine

namespace Machine

/-- The processor's view of the board. -/
def bus : Bus Board where
  read := Board.readWord
  write := Board.writeWord
  trace e b := { b with log := b.log.add e }
  service := Board.service

/-- A machine of geometry `g` with a policy of kind `kind` (the optimal policy
replays `trace`), recording its accesses if `record`, logging to `log`.  The
geometry is taken as valid. -/
def create (g : Geometry) (kind : PolicyKind) (trace : Option (List Int)) (record : Bool)
    (log : Log) : Except Fault Machine := do
  let board ← Board.create g kind trace record log
  let cpu ← Cpu.create g.registers
  let name := kind.name
  let frames := g.frames
  let size := g.pageSize
  let slots := g.swapSlots
  let line := s!"{name} replacement, {frames} frames of {size} words, {slots} swap slots"
  pure ⟨cpu, { board with log := board.log.add ⟨.info, line, "machine", 0⟩ }⟩

/-- Run a computation that may fail. -/
def ofExcept {α : Type} : Except Fault α → MachineM α
  | .ok a => pure a
  | .error e => throw e

/-- Run a board action on the machine's board. -/
def onBoard {α : Type} (act : BoardM α) : MachineM α := fun m =>
  match act.run m.board with
  | .ok a b => .ok a { m with board := b }
  | .error e b => .error e { m with board := b }

/-- The word at a virtual address. -/
def readWord (a : Int) : MachineM Int := onBoard (Board.readWord a)

/-- Store a word at a virtual address. -/
def writeWord (a v : Int) : MachineM Unit := onBoard (Board.writeWord a v)

/-- Store a program at addresses 0, 1, ... -/
def loadProgram (words : List Int) : MachineM Nat := onBoard (Board.loadProgram words)

/-- Execute one instruction. -/
def step : MachineM Unit := Computer.step bus

/-- Run the program from the current pc, with an optional step limit, and log
how the run ended. -/
def run (limit : Option Int) : MachineM Outcome := do
  let outcome ← Computer.run bus (budgetOf limit)
  let m ← get
  let name := outcome.name
  let steps := m.cpu.steps
  onBoard (Board.note .info "machine" s!"run ended ({name}) after {steps} instructions"
    m.board.stats.accesses)
  pure outcome

/-- Queue a stop request, honoured at the next instruction boundary. -/
def requestStop : MachineM Unit := onBoard do
  let b ← get
  let interrupts ← Board.ofExcept (b.interrupts.raise stopVector)
  set { b with interrupts }

/-- Set register `r` to the value `v` as given. -/
def setRegister (r v : Int) : MachineM Unit := fun m =>
  match m.cpu.setRegister r v with
  | .ok cpu => .ok () { m with cpu }
  | .error e => .error e m

/-- Set the program counter. -/
def setPc (v : Int) : MachineM Unit := modify fun m => { m with cpu.pc := v }

/-- Change the entry of page `v`, which must exist. -/
def editPage (v : Int) (f : PageEntry → PageEntry) : MachineM Unit := onBoard do
  let _ ← Board.pageAt v
  Board.modifyPage v f

/-- Change the entry of frame `f`, which must exist. -/
def editFrame (f : Int) (g : FrameEntry → FrameEntry) : MachineM Unit := onBoard do
  let _ ← Board.frameAt f
  Board.modifyFrame f g

/-- The log without its entries. -/
def clearLog : MachineM Unit := modify fun m => { m with board.log := m.board.log.clear }

/-- The pages accessed so far, if the machine records them. -/
def accessTrace (m : Machine) : List Int := (m.board.recording.map Array.toList).getD []

end Machine

end DemandPaging
