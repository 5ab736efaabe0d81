import DemandPaging.Processor.Step

/-!
# Runs

A computer is a processor attached to a memory system.  A step executes one
instruction; when it fails, the processor is as it was and the memory system
keeps what the bus did.  A run repeats, at each instruction boundary:

1. deliver pending interrupts;
2. if a stop was requested, withdraw the request and end, interrupted;
3. if the processor has halted, end, halted;
4. if the step budget is spent, end at the step limit;
5. otherwise execute one instruction.

A run without a limit has a budget no run can exhaust.
-/

namespace DemandPaging

/-- How a run ended. -/
inductive Outcome where
  | halted
  | interrupted
  | stepLimit
  deriving DecidableEq, Repr

/-- The name of an outcome. -/
def Outcome.name : Outcome → String
  | .halted => "halted"
  | .interrupted => "interrupted"
  | .stepLimit => "step-limit"

/-- A processor attached to a memory system of type `μ`. -/
structure Computer (μ : Type) where
  cpu : Cpu
  board : μ

/-- The budget of a run without a step limit. -/
def unlimitedBudget : Nat := Nat.pow 2 64

/-- The budget of a run: the step limit if there is one. -/
def budgetOf (limit : Option Int) : Nat :=
  match limit with
  | some n => n.toNat
  | none => unlimitedBudget

namespace Computer

variable {μ : Type}

/-- Execute one instruction. -/
def step (bus : Bus μ) : EStateM Fault (Computer μ) Unit := fun c =>
  match (c.cpu.step bus).run c.board with
  | .ok cpu board => .ok () ⟨cpu, board⟩
  | .error e board => .error e ⟨c.cpu, board⟩

/-- Run until halted, interrupted, or `budget` instructions have executed. -/
def run (bus : Bus μ) (budget : Nat) : EStateM Fault (Computer μ) Outcome := do
  let c ← get
  let (stopped, board) := bus.service c.cpu.pc c.board
  let cpu := { c.cpu with stopRequested := c.cpu.stopRequested || stopped }
  if cpu.stopRequested then
    set (⟨{ cpu with stopRequested := false }, board⟩ : Computer μ)
    pure .interrupted
  else
    set (⟨cpu, board⟩ : Computer μ)
    if cpu.halted then pure .halted
    else match budget with
      | 0 => pure .stepLimit
      | n + 1 => do
        step bus
        run bus n

end Computer

end DemandPaging
