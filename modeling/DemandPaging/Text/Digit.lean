/-!
# Decimal digits

A decimal digit is a character of Unicode general category Nd.  Those come
in runs of ten consecutive code points with the values 0 to 9, so the table
lists the code point of each run's zero (Unicode 14.0, ascending), and a
character's value is its distance from the zero of its run.
-/

namespace DemandPaging.Text

/-- The code point of the zero of every run of decimal digits, ascending. -/
def digitZeros : List Nat := [
  48, 1632, 1776, 1984, 2406, 2534, 2662, 2790, 2918, 3046, 3174, 3302, 3430, 3558, 3664, 3792,
  3872, 4160, 4240, 6112, 6160, 6470, 6608, 6784, 6800, 6992, 7088, 7232, 7248, 42528, 43216,
  43264, 43472, 43504, 43600, 44016, 65296, 66720, 68912, 69734, 69872, 69942, 70096, 70384, 70736,
  70864, 71248, 71360, 71472, 71904, 72016, 72784, 73040, 73120, 92768, 92864, 93008, 120782,
  120792, 120802, 120812, 120822, 123200, 123632, 125264, 130032]

/-- The value of a decimal digit, or `none` for any other character. -/
def digitValue? (c : Char) : Option Nat :=
  let n := c.toNat
  (digitZeros.find? (fun z => z ≤ n ∧ n < z + 10)).map (fun z => n - z)

/-- Whether a character is a decimal digit. -/
def isDigit (c : Char) : Bool := (digitValue? c).isSome

/-- An ASCII digit has its usual value. -/
theorem digitValue?_ascii (c : Char) (h : c.isDigit) : digitValue? c = some (c.toNat - 48) := by
  have h1 : 48 ≤ c.toNat ∧ c.toNat ≤ 57 := by
    simp only [Char.isDigit, Bool.and_eq_true, decide_eq_true_eq] at h
    exact ⟨h.1, h.2⟩
  have : digitZeros = 48 :: digitZeros.tail := rfl
  simp only [digitValue?]
  rw [this, List.find?_cons]
  simp only [show 48 ≤ c.toNat ∧ c.toNat < 48 + 10 from ⟨h1.1, by omega⟩]
  rfl

example : digitValue? '7' = some 7 ∧ digitValue? '٣' = some 3 ∧ digitValue? '２' = some 2 ∧
    digitValue? 'a' = none ∧ digitValue? '²' = none := by decide

end DemandPaging.Text
