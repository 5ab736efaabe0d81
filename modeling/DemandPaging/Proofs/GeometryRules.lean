import Mathlib
import DemandPaging.Proofs.InstructionSet

/-!
# The rules of a geometry

A machine is built only with a geometry that keeps five rules: page size,
frames, swap slots and registers are powers of two, there are at least 32
registers, and the address space has a page.  `Geometry.validate` checks them
in that order and reports the first one broken
(`Geometry.validate_eq_first_broken`); a geometry that keeps them all is
returned as it is.

The power-of-two test is the bit trick `0 < v ∧ v & (v - 1) = 0` on integers in
two's complement (`isPowerOfTwo_eq_bitTest`), and it holds exactly of `2 ^ k`
(`isPowerOfTwo_iff`).  The guard `0 < v` is what rules zero out: without it
the trick accepts `0`, and never a negative number, whose infinitely many
leading ones survive the conjunction (`bitAnd_pred_eq_zero_iff`).

Registers are a power of two so that the processor can pick the second operand
of a register-register instruction by masking the constant: with `R` registers,
`c & (R - 1)` is `c mod R`, a register of the file for every `c`, negative ones
included (`Geometry.validate_registerMask`).
-/

namespace DemandPaging

/-! ## Powers of two -/

/-- `v` is `2 ^ k` for some `k ≥ 0`. -/
def PowerOfTwo (v : Int) : Prop := ∃ k : ℕ, v = 2 ^ k

/-- The test computes whether `2 ^ log₂ v = v` for a positive `v`, which holds
exactly of the powers of two. -/
theorem isPowerOfTwo_iff (v : Int) : isPowerOfTwo v = true ↔ PowerOfTwo v := by
  simp only [isPowerOfTwo, Bool.and_eq_true, decide_eq_true_eq, beq_iff_eq, Nat.pow_eq, PowerOfTwo]
  constructor
  · rintro ⟨hpos, hlog⟩
    refine ⟨v.toNat.log2, ?_⟩
    have hcast : ((2 ^ v.toNat.log2 : ℕ) : ℤ) = (v.toNat : ℤ) := congrArg _ hlog
    push_cast at hcast
    omega
  · rintro ⟨k, rfl⟩
    have htoNat : ((2 : ℤ) ^ k).toNat = 2 ^ k := by
      rw [show (2 : ℤ) ^ k = ((2 ^ k : ℕ) : ℤ) by push_cast; rfl, Int.toNat_natCast]
    exact ⟨by positivity, by rw [htoNat, Nat.log2_two_pow]⟩

instance : DecidablePred PowerOfTwo := fun v => decidable_of_iff _ (isPowerOfTwo_iff v)

example : PowerOfTwo 4096 ∧ ¬ PowerOfTwo 0 ∧ ¬ PowerOfTwo 6 ∧ ¬ PowerOfTwo (-4) := by decide

/-- `v & (v - 1)` clears the lowest set bit of `v`: it is zero for zero and for
the powers of two, and for nothing else. -/
theorem bitAnd_pred_eq_zero_iff (v : Int) : bitAnd v (v - 1) = 0 ↔ v = 0 ∨ PowerOfTwo v := by
  cases v with
  | ofNat n =>
    cases n with
    | zero => exact iff_of_true rfl (.inl rfl)
    | succ n =>
      -- a positive number and its predecessor are both natural numbers
      have hsub : Int.ofNat (n + 1) - 1 = Int.ofNat n := by simp only [Int.ofNat_eq_natCast]; omega
      rw [hsub]
      show Int.ofNat ((n + 1) &&& n) = 0 ↔ _
      have hnat := Nat.and_sub_one_eq_zero_iff_isPowerOfTwo (n := n + 1) (by omega)
      rw [Nat.add_sub_cancel] at hnat
      simp only [PowerOfTwo, Int.ofNat_eq_natCast, Nat.cast_eq_zero, hnat, Nat.isPowerOfTwo]
      constructor
      · rintro ⟨k, hk⟩
        exact .inr ⟨k, by rw [hk]; push_cast; rfl⟩
      · rintro (h | ⟨k, hk⟩)
        · omega
        · exact ⟨k, by exact_mod_cast hk⟩
  | negSucc m =>
    -- a negative number keeps its infinitely many leading ones
    have hsub : Int.negSucc m - 1 = Int.negSucc (m + 1) := by omega
    rw [hsub]
    show Int.negSucc (m ||| (m + 1)) = 0 ↔ _
    refine iff_of_false (Int.negSucc_ne_zero _) ?_
    rintro (h | ⟨k, hk⟩)
    · exact Int.negSucc_ne_zero _ h
    · have : (0 : ℤ) < 2 ^ k := by positivity
      omega

/-- The test is the bit trick: a positive number with no bit below its highest. -/
theorem isPowerOfTwo_eq_bitTest (v : Int) :
    isPowerOfTwo v = (decide (0 < v) && bitAnd v (v - 1) == 0) := by
  rw [Bool.eq_iff_iff, isPowerOfTwo_iff, Bool.and_eq_true, decide_eq_true_eq, beq_iff_eq,
    bitAnd_pred_eq_zero_iff]
  constructor
  · rintro ⟨k, rfl⟩
    exact ⟨by positivity, .inr ⟨k, rfl⟩⟩
  · rintro ⟨hpos, h | h⟩
    · omega
    · exact h

/-! ## Validation -/

namespace Geometry

/-- The four power-of-two checks are one check, made with each field's name. -/
theorem requirePowerOfTwo_eq (field : String) (v : Int) :
    requirePowerOfTwo field v = if PowerOfTwo v then .ok () else .error (.notPowerOfTwo field v) := by
  unfold requirePowerOfTwo
  by_cases h : PowerOfTwo v
  · rw [if_pos ((isPowerOfTwo_iff v).mpr h), if_pos h]
  · rw [if_neg (fun h' => h ((isPowerOfTwo_iff v).mp h')), if_neg h]

/-- Validation checks the rules in order and reports the first one broken. -/
theorem validate_eq_first_broken (g : Geometry) :
    g.validate =
      if ¬ PowerOfTwo g.pageSize then .error (.notPowerOfTwo "page_size" g.pageSize)
      else if ¬ PowerOfTwo g.frames then .error (.notPowerOfTwo "frames" g.frames)
      else if ¬ PowerOfTwo g.swapSlots then .error (.notPowerOfTwo "swap_slots" g.swapSlots)
      else if ¬ PowerOfTwo g.registers then .error (.notPowerOfTwo "registers" g.registers)
      else if g.registers < 32 then .error (.tooFewRegisters g.registers)
      else if g.virtualPages ≤ 0 then .error (.noVirtualPages g.virtualPages)
      else .ok g := by
  split_ifs <;> simp [validate, requirePowerOfTwo_eq, bind, Except.bind, throw, throwThe,
    MonadExceptOf.throw, pure, Except.pure, *]

/-- A geometry is accepted exactly when it keeps every rule, and it is then
returned as it is. -/
theorem validate_ok_iff {g g' : Geometry} :
    g.validate = .ok g' ↔ g' = g ∧ PowerOfTwo g.pageSize ∧ PowerOfTwo g.frames ∧
      PowerOfTwo g.swapSlots ∧ PowerOfTwo g.registers ∧ 32 ≤ g.registers ∧ 1 ≤ g.virtualPages := by
  rw [validate_eq_first_broken]
  split_ifs <;> grind

/-- Every geometry that is refused is refused with a configuration fault. -/
theorem validate_error_family {g : Geometry} {e : Fault} (h : g.validate = .error e) :
    e.family = .configuration := by
  rw [validate_eq_first_broken] at h
  split_ifs at h <;> cases h <;> rfl

/-- With a register count that passes, the mask `c & (R - 1)` is `c mod R`,
for every `c`. -/
theorem validate_registerMask {g g' : Geometry} (h : g.validate = .ok g') (c : Int) :
    bitAnd c (g.registers - 1) = c % g.registers := by
  obtain ⟨-, -, -, -, ⟨k, hk⟩, -⟩ := validate_ok_iff.mp h
  have hR : g.registers = ((2 ^ k : ℕ) : ℤ) := by rw [hk]; push_cast; rfl
  rw [hR]
  exact bitAnd_pred_pow ⟨k, rfl⟩ c

end Geometry

/-- A new processor has as many registers as it was asked for. -/
theorem Cpu.create_size {count : Int} {cpu : Cpu} (h : Cpu.create count = .ok cpu) :
    cpu.registers.size = count.toNat := by
  obtain ⟨-, rfl⟩ := Cpu.eq_of_create_ok h
  exact Array.size_replicate

/-- A processor built for a geometry that passes picks the second operand of
an instruction with constant `c` from register `c mod R`, which it has. -/
theorem Geometry.validate_operandRegister {g g' : Geometry} (h : g.validate = .ok g') {cpu : Cpu}
    (hcpu : Cpu.create g.registers = .ok cpu) (c : Int) :
    bitAnd c (cpu.registers.size - 1) = c % g.registers ∧ cpu.Names (c % g.registers) := by
  have h32 := (Geometry.validate_ok_iff.mp h).2.2.2.2.2.1
  have hsize : (cpu.registers.size : Int) = g.registers := by
    rw [Cpu.create_size hcpu]
    omega
  refine ⟨by rw [hsize]; exact Geometry.validate_registerMask h c, ?_, ?_⟩
  · exact Int.emod_nonneg _ (by omega)
  · rw [hsize]
    exact Int.emod_lt_of_pos _ (by omega)

/-! ## The rules together -/

/-- A geometry is accepted exactly when page size, frames, swap slots and
registers are powers of two, which is what the bit trick `0 < v ∧ v & (v - 1) = 0`
tests on every integer, there are at least 32 registers and the address space
has a page; otherwise the first rule broken, in that order, is reported as a
configuration fault.  With an accepted geometry, masking any constant `c` with
`R - 1` gives `c mod R`, a register of the processor built for it. -/
theorem geometry_checked_in_order :
    (∀ v : Int, (isPowerOfTwo v = true ↔ PowerOfTwo v) ∧
      isPowerOfTwo v = (decide (0 < v) && bitAnd v (v - 1) == 0)) ∧
    (∀ g : Geometry, (∃ g', g.validate = .ok g') ↔
      PowerOfTwo g.pageSize ∧ PowerOfTwo g.frames ∧ PowerOfTwo g.swapSlots ∧
        PowerOfTwo g.registers ∧ 32 ≤ g.registers ∧ 1 ≤ g.virtualPages) ∧
    (∀ g : Geometry, g.validate =
      if ¬ PowerOfTwo g.pageSize then .error (.notPowerOfTwo "page_size" g.pageSize)
      else if ¬ PowerOfTwo g.frames then .error (.notPowerOfTwo "frames" g.frames)
      else if ¬ PowerOfTwo g.swapSlots then .error (.notPowerOfTwo "swap_slots" g.swapSlots)
      else if ¬ PowerOfTwo g.registers then .error (.notPowerOfTwo "registers" g.registers)
      else if g.registers < 32 then .error (.tooFewRegisters g.registers)
      else if g.virtualPages ≤ 0 then .error (.noVirtualPages g.virtualPages)
      else .ok g) ∧
    (∀ (g : Geometry) (e : Fault), g.validate = .error e → e.family = .configuration) ∧
    (∀ g g' : Geometry, g.validate = .ok g' → g' = g ∧ ∀ c : Int,
      bitAnd c (g.registers - 1) = c % g.registers ∧
      ∀ cpu : Cpu, Cpu.create g.registers = .ok cpu →
        bitAnd c (cpu.registers.size - 1) = c % g.registers ∧ cpu.Names (c % g.registers)) := by
  refine ⟨fun v => ⟨isPowerOfTwo_iff v, isPowerOfTwo_eq_bitTest v⟩, fun g => ?_,
    Geometry.validate_eq_first_broken, fun _ _ => Geometry.validate_error_family,
    fun g g' h => ⟨(Geometry.validate_ok_iff.mp h).1, fun c =>
      ⟨Geometry.validate_registerMask h c, fun _ hcpu => Geometry.validate_operandRegister h hcpu c⟩⟩⟩
  constructor
  · rintro ⟨g', h⟩
    exact (Geometry.validate_ok_iff.mp h).2
  · intro h
    exact ⟨g, Geometry.validate_ok_iff.mpr ⟨rfl, h⟩⟩

/-- The default geometry is accepted, and its 32 registers mask the constant
`-1` to register 31. -/
theorem geometry_checked_in_order_default :
    ({} : Geometry).validate = .ok {} ∧ bitAnd (-1) (({} : Geometry).registers - 1) = 31 := by
  have hvalid : ({} : Geometry).validate = .ok {} :=
    Geometry.validate_ok_iff.mpr ⟨rfl, ⟨2, rfl⟩, ⟨3, rfl⟩, ⟨7, rfl⟩, ⟨5, rfl⟩, by decide, by decide⟩
  refine ⟨hvalid, ?_⟩
  rw [((geometry_checked_in_order.2.2.2.2 {} {} hvalid).2 (-1)).1]
  decide

end DemandPaging
