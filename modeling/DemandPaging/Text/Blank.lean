/-!
# Blank characters

Blanks are the characters that separate words and that trimming removes: the
Unicode White_Space characters together with the four information separators
U+001C to U+001F (file, group, record and unit separator), which count as
blanks too.  The zero-width space U+200B and the byte order mark U+FEFF are
not blanks.
-/

namespace DemandPaging.Text

/-- Whether a character is a blank. -/
def isBlank (c : Char) : Bool :=
  let n := c.toNat
  (9 ≤ n && n ≤ 13) || (28 ≤ n && n ≤ 32) || n == 0x85 || n == 0xA0 || n == 0x1680 ||
    (0x2000 ≤ n && n ≤ 0x200A) || n == 0x2028 || n == 0x2029 || n == 0x202F || n == 0x205F ||
    n == 0x3000

/-- Every character that core's `Char.isWhitespace` knows is a blank. -/
theorem isBlank_of_isWhitespace (c : Char) (h : c.isWhitespace) : isBlank c := by
  simp only [Char.isWhitespace, Bool.or_eq_true, decide_eq_true_eq] at h
  simp only [isBlank, Bool.or_eq_true, Bool.and_eq_true, decide_eq_true_eq, beq_iff_eq]
  rcases h with ((h | h) | h) | h <;> subst h <;> decide

/-- A string with its leading and trailing blanks removed. -/
def trimBlanks (s : String) : String :=
  String.ofList ((s.toList.dropWhile isBlank).reverse.dropWhile isBlank).reverse

example : trimBlanks "\u3000 ab c\x1c\n" = "ab c" ∧ trimBlanks "\u200b" = "\u200b" := by decide

end DemandPaging.Text
