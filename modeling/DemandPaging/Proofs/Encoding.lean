import Mathlib
import DemandPaging.Instruction

/-!
# Packing and unpacking instruction words

`Instruction.encode` and `Instruction.decode` work on unbounded integers, so
they are inverse to each other on more than the 32-bit words: every integer,
negative or wider than 32 bits, is the packing of its own fields, and packing
any four integers keeps the opcode whole, the register fields' low five bits
and the constant's low sixteen bits read as a signed number.

The fields are masked in the processor's sense, a bitwise conjunction in
two's complement (`bitAnd`); with a mask of low ones that is the least
non-negative residue (`bitAnd_low`), which is how the codec computes.  The
main statement is `Instruction.codec_inverse`.
-/

namespace DemandPaging

/-- Masking with `k` low ones keeps the residue modulo `2^k`, for negative
numbers too: their infinitely many leading ones are cut off. -/
theorem bitAnd_low (v : Int) (k : Nat) :
    bitAnd v ((2 ^ k - 1 : Nat) : Int) = v % ((2 ^ k : Nat) : Int) := by
  cases v with
  | ofNat m =>
    show Int.ofNat (m &&& (2 ^ k - 1)) = _
    rw [Nat.and_two_pow_sub_one_eq_mod]
    simp
  | negSucc m =>
    -- the negative case complements the low bits of `m`
    show Int.ofNat ((2 ^ k - 1) - ((2 ^ k - 1) &&& m)) = _
    rw [Nat.and_comm, Nat.and_two_pow_sub_one_eq_mod]
    have hpos : 0 < 2 ^ k := Nat.two_pow_pos k
    have hlt : m % 2 ^ k < 2 ^ k := Nat.mod_lt _ hpos
    rw [Int.negSucc_emod _ (by exact_mod_cast hpos)]
    have hcast : (m : Int) % ((2 ^ k : Nat) : Int) = ((m % 2 ^ k : Nat) : Int) := by
      push_cast
      rfl
    rw [hcast]
    simp only [Int.ofNat_eq_natCast]
    omega

theorem bitAnd_31 (v : Int) : bitAnd v 31 = v % 32 := bitAnd_low v 5

theorem bitAnd_65535 (v : Int) : bitAnd v 65535 = v % 65536 := bitAnd_low v 16

namespace Instruction

/-- Distinct words decode to distinct instructions. -/
theorem decode_injective : Function.Injective decode :=
  Function.LeftInverse.injective encode_decode

/-- Packing and unpacking undo each other over all integers.  Unpacking the
packing of any four integers gives the opcode, the low five bits of each
register field and the low sixteen bits of the constant sign-extended; every
integer is the packing of its unpacking, so unpacking is injective; and an
instruction whose register fields name registers and whose constant is a
signed 16-bit number is its own unpacking. -/
theorem codec_inverse :
    (∀ o d s c : Int, decode (encode ⟨o, d, s, c⟩) =
        ⟨o, bitAnd d 31, bitAnd s 31,
          if 32768 ≤ bitAnd c 65535 then bitAnd c 65535 - 65536 else bitAnd c 65535⟩) ∧
      (∀ w : Int, (decode w).encode = w) ∧ Function.Injective decode ∧
      (∀ i : Instruction, 0 ≤ i.dest ∧ i.dest < 32 → 0 ≤ i.source ∧ i.source < 32 →
        -32768 ≤ i.constant ∧ i.constant < 32768 → decode i.encode = i) := by
  refine ⟨fun o d s c => ?_, encode_decode, decode_injective, fun ⟨o, d, s, c⟩ hd hs hc => ?_⟩
  · rw [decode_encode, bitAnd_31, bitAnd_31, bitAnd_65535, bmod_eq]
    simp only [mk.injEq, true_and]
    split <;> split <;> omega
  · -- in range, the residues are the fields themselves
    rw [decode_encode, bmod_eq]
    simp only at hd hs hc
    simp only [mk.injEq, true_and]
    refine ⟨by omega, by omega, ?_⟩
    split <;> omega

example : decode (encode ⟨-3, -1, 33, 40000⟩) = ⟨-3, 31, 1, -25536⟩ := by decide

end Instruction

end DemandPaging
