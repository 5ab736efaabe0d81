import DemandPaging.Instruction
import DemandPaging.Fault
import DemandPaging.Log
import DemandPaging.Data.Index

/-!
# The processor and one instruction

The processor holds a register file, a program counter, whether it has
halted, how many instructions it has executed, and whether a stop was
requested.  It reaches memory only through a `Bus`: translated reads and
writes that may fail, a place to record the instruction trace, and the
delivery of pending interrupts.

One step runs one instruction:

1. fetch the word at `pc` and decode it; an opcode outside 0..16 is an
   illegal instruction;
2. read operand `a` from register `source` and operand `b` from the register
   that the constant names, masked by the register count minus one, both as
   signed words;
3. record `pc = NNN: NAME` in the trace, ticked with the instruction count;
4. execute: arithmetic and comparisons on `a`, `b` and the constant `c`;
   branches to `c`; `LD` and `ST` at the word address `a + c`; `CALL` saves
   `pc + 1` in r31 and jumps to `c`; `JMP` jumps to `a`; `HALT` halts and stays;
5. write the result back, narrowed to a word, unless the destination is r0;
6. move `pc` to the jump target or the next word, narrowed, and count the step.

The processor changes only when the whole step succeeds; what the bus did
before a failure stays done.
-/

namespace DemandPaging

/-- The processor's state. -/
structure Cpu where
  registers : Array Int
  pc : Int := 0
  halted : Bool := false
  steps : Nat := 0
  stopRequested : Bool := false
  deriving DecidableEq, Repr

/-- What a processor needs from the memory system of type `μ` it is attached to. -/
structure Bus (μ : Type) where
  /-- The word at a virtual address. -/
  read : Int → EStateM Fault μ Int
  /-- Store a word at a virtual address. -/
  write : Int → Int → EStateM Fault μ Unit
  /-- Record an executed instruction. -/
  trace : Entry → μ → μ
  /-- Deliver pending interrupts, the processor being at the given pc; true
  when a stop was delivered. -/
  service : Int → μ → Bool × μ

/-- The link register, where `CALL` saves the return address. -/
def linkRegister : Int := 31

namespace Cpu

/-- A processor with `count` zero registers, at pc 0. -/
def create (count : Int) : Except Fault Cpu := do
  requireLength count
  pure { registers := Array.replicate count.toNat 0 }

/-- The processor with register `r` set to `v` as given. -/
def setRegister (cpu : Cpu) (r v : Int) : Except Fault Cpu := do
  let registers ← Seq.write cpu.registers r v
  pure { cpu with registers }

/-- The processor with a stop requested. -/
def requestStop (cpu : Cpu) : Cpu := { cpu with stopRequested := true }

/-- The value of register `r`. -/
def register {μ : Type} (cpu : Cpu) (r : Int) : EStateM Fault μ Int :=
  match Seq.read cpu.registers r with
  | .ok v => pure v
  | .error e => throw e

/-- The register file with the word `v` in register `r`, unless `r` is r0. -/
def writeBack (cpu : Cpu) (r v : Int) : Except Fault (Array Int) :=
  if r = 0 then .ok cpu.registers
  else Seq.write cpu.registers r (wrapWord v)

/-- The processor after an instruction at `cpu.pc` completes: `result`
written to `dest`, control passed to `target` or the next word. -/
def retire (cpu : Cpu) (dest : Int) (result target : Option Int) (halts : Bool := false) :
    Except Fault Cpu := do
  let registers ← match result with
    | some v => cpu.writeBack dest v
    | none => pure cpu.registers
  pure { cpu with
    registers
    pc := wrapWord (target.getD (cpu.pc + 1))
    steps := cpu.steps + 1
    halted := cpu.halted || halts }

end Cpu

/-- `n` right-aligned in a field of three characters. -/
def padLeft3 (n : Int) : String :=
  let t := toString n
  String.ofList (List.replicate (3 - t.length) ' ') ++ t

/-- The trace line of an instruction. -/
def traceLine (pc : Int) (op : Opcode) : String :=
  let shown := padLeft3 pc
  let name := op.name
  s!"pc = {shown}: {name}"

namespace Cpu

variable {μ : Type}

/-- Run a computation that may fail. -/
def liftExcept {α : Type} : Except Fault α → EStateM Fault μ α
  | .ok a => pure a
  | .error e => throw e

/-- Execute one instruction; the result is the processor after it. -/
def step (bus : Bus μ) (cpu : Cpu) : EStateM Fault μ Cpu := do
  let pc := cpu.pc
  let i := Instruction.decode (← bus.read pc)
  let some op := Opcode.ofCode? i.opcode | throw (.illegalInstruction pc i.opcode)
  let a := toSigned (← cpu.register i.source)
  let b := toSigned (← cpu.register (bitAnd i.constant (cpu.registers.size - 1)))
  let c := i.constant
  modify (bus.trace ⟨.debug, traceLine pc op, "cpu", cpu.steps⟩)
  let done := fun (result target : Option Int) => liftExcept (cpu.retire i.dest result target)
  match op with
  | .add => done (some (a + b)) none
  | .addi => done (some (a + c)) none
  | .sub => done (some (a - b)) none
  | .subi => done (some (a - c)) none
  | .mul => done (some (a * b)) none
  | .sge => done (some (if a ≥ b then 1 else 0)) none
  | .sgt => done (some (if a > b then 1 else 0)) none
  | .seq => done (some (if a = b then 1 else 0)) none
  | .seqi => done (some (if a = c then 1 else 0)) none
  | .bt => done none (if a ≠ 0 then some c else none)
  | .bf => done none (if a = 0 then some c else none)
  | .ba => done none (some c)
  | .ld =>
    let v ← bus.read (wrapWord (a + c))
    done (some v) none
  | .st =>
    let v ← cpu.register i.dest
    bus.write (wrapWord (a + c)) v
    done none none
  | .call => liftExcept (cpu.retire linkRegister (some (pc + 1)) (some c))
  | .jmp => done none (some a)
  | .halt => liftExcept (cpu.retire i.dest none (some pc) true)

end Cpu

end DemandPaging
