import Mathlib
import DemandPaging.Proofs.Reporting
import DemandPaging.Proofs.Encoding

/-!
# The instruction set on unsigned words

`Cpu.step` computes as the processor does: it reads its operands as signed
words, adds, subtracts and multiplies unbounded integers, and narrows only
what it stores.  The instruction set is stated the other way round, on the
unsigned words the registers hold, with arithmetic modulo `2^32`.  `Isa.exec`
is that statement.  With `a` the word in the source register, `b` the word in
the register the constant names modulo the register count `R`, and `c` the
sign-extended constant:

* ADD, SUB and MUL write `a + b`, `a - b` and `a * b` modulo `2^32`, ADDI and
  SUBI `a + c` and `a - c`;
* SGE, SGT and SEQ write 1 or 0 by comparing `a` and `b` read as signed
  words, SEQI by comparing `a` read so with `c`;
* LD writes the word read at `(a + c) mod 2^32`, narrowed, and ST stores the
  destination register there;
* BT, BF and BA go to `c mod 2^32` when `a ≠ 0`, when `a = 0`, and always;
* CALL puts `(pc + 1) mod 2^32` in r31 and goes to `c mod 2^32`, JMP goes to
  `a`, and HALT halts where it is;

no write reaches r0, and every instruction that does not jump goes on to
`(pc + 1) mod 2^32`.  The fetch, the trace line, the load and the store reach
the bus as in `Cpu.step`.

`Cpu.step_eq_exec` says the two are one program, for every bus, when the
register file has a power-of-two size of at least 32 and holds words and the
pc is a word.  Three facts carry it: the mask `c & (R - 1)` is `c mod R`, for
a negative `c` too (`bitAnd_pred_pow`); narrowing a computation on signed
readings gives the residue of the computation on the words, since a signed
reading is congruent to its word (`toSigned_modEq`); and a signed reading is
zero exactly when its word is (`toSigned_eq_zero`).
-/

namespace DemandPaging

/-! ## Words -/

/-- A word read as signed differs from it by a multiple of `2^32`. -/
theorem toSigned_modEq (a : Int) : toSigned a ≡ a [ZMOD wordModulus] := Int.bmod_emod

/-- Narrowing sees a value only up to multiples of `2^32`. -/
theorem wrapWord_of_modEq {x y : Int} (h : x ≡ y [ZMOD wordModulus]) :
    wrapWord x = y % wordModulus := h

/-- A word read as signed is zero only when the word is zero. -/
theorem toSigned_eq_zero {a : Int} (h0 : 0 ≤ a) (h1 : a < wordModulus) : toSigned a = 0 ↔ a = 0 := by
  unfold toSigned wordModulus at *
  simp only [Int.bmod_def, Nat.cast_ofNat]
  split <;> omega

theorem wrapWord_ite (p : Prop) [Decidable p] : wrapWord (if p then 1 else 0) = if p then 1 else 0 := by
  split <;> rfl

/-- Masking with `R - 1`, for `R` a power of two, is the residue modulo `R`,
as the code's comment says: a negative constant keeps its low bits. -/
theorem bitAnd_pred_pow {R : Nat} (hR : ∃ k, R = 2 ^ k) (c : Int) :
    bitAnd c ((R : Int) - 1) = c % R := by
  obtain ⟨k, rfl⟩ := hR
  have hone : 1 ≤ 2 ^ k := Nat.one_le_two_pow
  rw [show ((2 ^ k : Nat) : Int) - 1 = ((2 ^ k - 1 : Nat) : Int) by omega]
  exact bitAnd_low c k

/-! ## The instruction set -/

namespace Isa

/-- The word register `r` holds. -/
def reg (regs : Array Int) (r : Int) : Int := regs.getD r.toNat 0

/-- The register file with the word `v` in register `r`, unless `r` is r0. -/
def put (regs : Array Int) (r v : Int) : Array Int :=
  if r = 0 then regs else regs.setIfInBounds r.toNat v

/-- The processor after an instruction that leaves the register file `regs`
and goes to `pc`. -/
def advance (cpu : Cpu) (regs : Array Int) (pc : Int) : Cpu :=
  { cpu with registers := regs, pc := pc, steps := cpu.steps + 1 }

variable {μ : Type}

/-- One instruction as the instruction set defines it, on unsigned words. -/
def exec (bus : Bus μ) (cpu : Cpu) : EStateM Fault μ Cpu := do
  let pc := cpu.pc
  let i := Instruction.decode (← bus.read pc)
  let some op := Opcode.ofCode? i.opcode | throw (.illegalInstruction pc i.opcode)
  let regs := cpu.registers
  let a := reg regs i.source
  let b := reg regs (i.constant % regs.size)
  let c := i.constant
  modify (bus.trace ⟨.debug, traceLine pc op, "cpu", cpu.steps⟩)
  let next := (pc + 1) % wordModulus
  let write := fun v => advance cpu (put regs i.dest v) next
  let go := fun target => advance cpu regs target
  match op with
  | .add => pure (write ((a + b) % wordModulus))
  | .addi => pure (write ((a + c) % wordModulus))
  | .sub => pure (write ((a - b) % wordModulus))
  | .subi => pure (write ((a - c) % wordModulus))
  | .mul => pure (write ((a * b) % wordModulus))
  | .sge => pure (write (if toSigned a ≥ toSigned b then 1 else 0))
  | .sgt => pure (write (if toSigned a > toSigned b then 1 else 0))
  | .seq => pure (write (if toSigned a = toSigned b then 1 else 0))
  | .seqi => pure (write (if toSigned a = c then 1 else 0))
  | .bt => pure (go (if a ≠ 0 then c % wordModulus else next))
  | .bf => pure (go (if a = 0 then c % wordModulus else next))
  | .ba => pure (go (c % wordModulus))
  | .ld => do
    let v ← bus.read ((a + c) % wordModulus)
    pure (write (v % wordModulus))
  | .st => do
    bus.write ((a + c) % wordModulus) (reg regs i.dest)
    pure (go next)
  | .call => pure (advance cpu (put regs linkRegister ((pc + 1) % wordModulus)) (c % wordModulus))
  | .jmp => pure (go a)
  | .halt => pure { go pc with halted := true }

theorem reg_word {regs : Array Int} (hregs : ∀ v ∈ regs, 0 ≤ v ∧ v < wordModulus) (r : Int) :
    0 ≤ reg regs r ∧ reg regs r < wordModulus := by
  unfold reg
  rw [Array.getD_eq_getD_getElem?]
  cases h : regs[r.toNat]? with
  | none => exact ⟨le_refl 0, by decide⟩
  | some v => exact hregs v (Array.mem_of_getElem? h)

end Isa

/-! ## The processor's step, read on words -/

namespace Cpu

variable {μ : Type} {cpu : Cpu}

/-- A register the file has is read without fault. -/
theorem register_of_names (hw : cpu.Wide) {r : Int} (hr : cpu.Names r) :
    (cpu.register r : EStateM Fault μ Int) = pure (Isa.reg cpu.registers r) := by
  obtain ⟨k, rfl⟩ := Int.eq_ofNat_of_zero_le hr.1
  have hk : k < cpu.registers.size := by have := hr.2; omega
  unfold register
  rw [Seq.read_of_getElem? (Array.getElem?_eq_getElem hk) (by have := hw.2; omega)]
  simp [Isa.reg, Array.getD, hk]

/-- Retiring with a result writes its word to a register the file has. -/
theorem retire_some (hw : cpu.Wide) {dest : Int} (hd : cpu.Names dest) (v : Int)
    (target : Option Int) :
    cpu.retire dest (some v) target =
      .ok (Isa.advance cpu (Isa.put cpu.registers dest (wrapWord v))
        (wrapWord (target.getD (cpu.pc + 1)))) := by
  obtain ⟨k, rfl⟩ := Int.eq_ofNat_of_zero_le hd.1
  have hk : k < cpu.registers.size := by have := hd.2; omega
  simp only [retire, writeBack, Isa.put, Isa.advance, Bool.or_false]
  split
  · rfl
  · rw [Seq.write_of_lt hk (by have := hw.2; omega)]
    simp [Array.setIfInBounds, hk]

theorem retire_none (dest : Int) (target : Option Int) :
    cpu.retire dest none target =
      .ok (Isa.advance cpu cpu.registers (wrapWord (target.getD (cpu.pc + 1)))) := by
  unfold retire Isa.advance
  rw [Bool.or_false]
  rfl

theorem retire_halt (dest : Int) :
    cpu.retire dest none (some cpu.pc) true =
      .ok { Isa.advance cpu cpu.registers (wrapWord cpu.pc) with halted := true } := by
  unfold retire Isa.advance
  rw [Bool.or_true]
  rfl

/-- One step of the processor is one instruction of the instruction set on
unsigned words, fault for fault and bus action for bus action, when the
register file has a power-of-two size of at least 32 (and no more registers
than a sequence can hold, as `Cpu.create` ensures) and holds words, and the pc
is a word.  The fetch and the decoding are common; what is left is one case
per opcode, each resting on the congruence of a signed reading with its
word. -/
theorem step_eq_exec (hw : cpu.Wide) (hpow : ∃ k, cpu.registers.size = 2 ^ k)
    (hregs : ∀ v ∈ cpu.registers, 0 ≤ v ∧ v < wordModulus)
    (hpc : 0 ≤ cpu.pc ∧ cpu.pc < wordModulus) (bus : Bus μ) :
    cpu.step bus = Isa.exec bus cpu := by
  unfold step Isa.exec
  refine bind_congr fun w => ?_
  obtain ⟨hsrc, hdest, hmask⟩ := hw.names w
  rw [bitAnd_pred_pow hpow] at hmask
  dsimp only
  cases hop : Opcode.ofCode? (Instruction.decode w).opcode with
  | none => rfl
  | some op =>
    dsimp only
    rw [register_of_names hw hsrc, pure_bind, bitAnd_pred_pow hpow, register_of_names hw hmask,
      pure_bind]
    refine bind_congr fun _ => ?_
    have ha := Isa.reg_word hregs (Instruction.decode w).source
    cases op
    case add =>
      simp only [liftExcept, retire_some hw hdest]
      rw [wrapWord_of_modEq ((toSigned_modEq _).add (toSigned_modEq _))]
      rfl
    case addi =>
      simp only [liftExcept, retire_some hw hdest]
      rw [wrapWord_of_modEq ((toSigned_modEq _).add_right _)]
      rfl
    case sub =>
      simp only [liftExcept, retire_some hw hdest]
      rw [wrapWord_of_modEq ((toSigned_modEq _).sub (toSigned_modEq _))]
      rfl
    case subi =>
      simp only [liftExcept, retire_some hw hdest]
      rw [wrapWord_of_modEq ((toSigned_modEq _).sub_right _)]
      rfl
    case mul =>
      simp only [liftExcept, retire_some hw hdest]
      rw [wrapWord_of_modEq ((toSigned_modEq _).mul (toSigned_modEq _))]
      rfl
    case sge | sgt | seq | seqi =>
      simp only [liftExcept, retire_some hw hdest, wrapWord_ite]
      rfl
    case bt =>
      simp only [liftExcept, retire_none, ne_eq, toSigned_eq_zero ha.1 ha.2]
      split <;> rfl
    case bf =>
      simp only [liftExcept, retire_none, toSigned_eq_zero ha.1 ha.2]
      split <;> rfl
    case ba | call =>
      simp only [liftExcept, retire_none, retire_some hw hw.names_link]
      rfl
    case ld =>
      rw [wrapWord_of_modEq ((toSigned_modEq _).add_right _)]
      simp only [liftExcept, retire_some hw hdest]
      rfl
    case st =>
      rw [register_of_names hw hdest, pure_bind, wrapWord_of_modEq ((toSigned_modEq _).add_right _)]
      simp only [liftExcept, retire_none]
      rfl
    case jmp =>
      simp only [liftExcept, retire_none, Option.getD_some,
        wrapWord_of_modEq (toSigned_modEq _), Int.emod_eq_of_lt ha.1 ha.2]
    case halt =>
      simp only [liftExcept, retire_halt, wrapWord_of_lt hpc.1 hpc.2]

/-- Thirty-two zero registers at pc 0 on the machine's own bus. -/
theorem step_eq_exec_small :
    Cpu.Wide { registers := Array.replicate 32 0 } ∧
      (∃ k, (Array.replicate 32 (0 : Int)).size = 2 ^ k) ∧
      (∀ v ∈ Array.replicate 32 (0 : Int), 0 ≤ v ∧ v < wordModulus) ∧
      (0 ≤ (0 : Int) ∧ (0 : Int) < wordModulus) ∧
      Cpu.step Machine.bus { registers := Array.replicate 32 0 } =
        Isa.exec Machine.bus { registers := Array.replicate 32 0 } := by
  have hw : Cpu.Wide { registers := Array.replicate 32 0 } := ⟨by decide, by decide⟩
  have hpow : ∃ k, (Array.replicate 32 (0 : Int)).size = 2 ^ k := ⟨5, rfl⟩
  have hregs : ∀ v ∈ Array.replicate 32 (0 : Int), 0 ≤ v ∧ v < wordModulus := by
    simp [wordModulus]
  have hpc : 0 ≤ (0 : Int) ∧ (0 : Int) < wordModulus := by decide
  exact ⟨hw, hpow, hregs, hpc, step_eq_exec hw hpow hregs hpc Machine.bus⟩

end Cpu

end DemandPaging
