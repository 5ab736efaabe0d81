/-!
# Machine words

The machine computes on unbounded integers and narrows a value to a 32-bit
word only where the hardware stores one: a register written back, a RAM
cell, the program counter, an effective address.  Narrowing keeps the low 32
bits of the two's complement form, so it is the least non-negative residue
modulo `2^32`; reading a word as signed picks the residue in `[-2^31, 2^31)`,
which is `Int.bmod`.

Register-register instructions select their second register by masking the
constant with `registerCount - 1`; that is the one place where a general
bitwise conjunction is needed, and `bitAnd` is it.
-/

namespace DemandPaging

/-- The number of distinct 32-bit words. -/
def wordModulus : Int := 4294967296

/-- The word a 32-bit cell holds after storing `v`: the low 32 bits of `v`. -/
def wrapWord (v : Int) : Int := v % wordModulus

/-- A 32-bit word read as a two's complement integer. -/
def toSigned (v : Int) : Int := Int.bmod v 4294967296

/-- Bitwise conjunction of two integers in two's complement, where a negative
number has infinitely many leading one bits. -/
def bitAnd : Int → Int → Int
  | .ofNat m, .ofNat n => .ofNat (m &&& n)
  | .ofNat m, .negSucc n => .ofNat (m - (m &&& n))
  | .negSucc m, .ofNat n => .ofNat (n - (n &&& m))
  | .negSucc m, .negSucc n => .negSucc (m ||| n)

theorem wrapWord_nonneg (v : Int) : 0 ≤ wrapWord v := by
  unfold wrapWord wordModulus; omega

theorem wrapWord_lt (v : Int) : wrapWord v < 4294967296 := by
  unfold wrapWord wordModulus; omega

/-- A value already in `[0, 2^32)` is its own word. -/
theorem wrapWord_of_lt {v : Int} (h0 : 0 ≤ v) (h1 : v < 4294967296) : wrapWord v = v := by
  unfold wrapWord wordModulus; omega

theorem wrapWord_wrapWord (v : Int) : wrapWord (wrapWord v) = wrapWord v := by
  unfold wrapWord wordModulus; omega

/-- Signed reading sees only the low 32 bits. -/
theorem toSigned_wrapWord (v : Int) : toSigned (wrapWord v) = toSigned v := by
  unfold toSigned wrapWord wordModulus
  simp [Int.bmod, Int.emod_emod_of_dvd]

example : toSigned 4294967295 = -1 ∧ toSigned 2147483648 = -2147483648 ∧ toSigned 5 = 5 := by decide
example : bitAnd (-1) 31 = 31 ∧ bitAnd 100 31 = 4 ∧ bitAnd (-6) (-3) = -8 ∧ bitAnd 12 (-5) = 8 := by decide

end DemandPaging
