import Mathlib.Data.Nat.Digits.Defs
import Mathlib.Tactic.IntervalCases
import DemandPaging.Assembler

/-!
# Disassembled words assemble back

An instruction line is a mnemonic and three signed decimal operands, with
blanks before the mnemonic, at least one blank after it, blanks around the
commas and at the end (`Spacing`).  The main statement,
`assembleLine_decimal_line`, says that such a line assembles to the packing
of its opcode and operands, whatever the blanks (of any script), whether or
not a non-negative operand carries a `+`, as long as no operand has more than
`Text.digitLimit` digits.  A longer digit run is refused before it is read,
and the operands are read in order, so the line fails on the digit count of
its first such operand (`assembleLine_too_many_digits`,
`assembleLine_refuses_long_operand`).  Every
word whose opcode names an operation is such a line once disassembled, so
disassembling and assembling gives the word back.

The proof follows `Assembler.fields` through the line: blanks are skipped
(`dropWhile_blanks`), the mnemonic is the first run of non-blanks, and each
operand is read back from the digits `Nat.toDigits` writes
(`decimalDigits`, `signedNumber_decimal`).  Blanks, commas and signs are
never digits, so every digit run stops where the numeral ends.
-/

namespace DemandPaging

open Text Assembler

/-! ## Decimal numerals -/

/-- The decimal digits of `n`, most significant first. -/
def decimalDigits (n : Nat) : List Nat :=
  if n < 10 then [n] else decimalDigits (n / 10) ++ [n % 10]
decreasing_by omega

/-- An integer in decimal, as a program would write it: `-` and the digits of
its magnitude when it is negative, otherwise its digits, after a `+` when
`plus`. -/
def decimal (plus : Bool) (x : Int) : String :=
  if plus && decide (0 ≤ x) then "+" ++ toString x else toString x

/-- The sign `decimal` writes before the digits. -/
def signOf (plus : Bool) (x : Int) : List Char :=
  if x < 0 then ['-'] else if plus then ['+'] else []

theorem digitsNumber_append_digit (ds : List Nat) (d : Nat) :
    digitsNumber (ds ++ [d]) = digitsNumber ds * 10 + d := by
  simp [digitsNumber, List.foldl_append]

/-- A decimal digit is written as itself, is no blank, and is neither a sign
nor a comma. -/
theorem digitChar_reads {d : Nat} (hd : d < 10) :
    digitValue? d.digitChar = some d ∧ isBlank d.digitChar = false ∧
      d.digitChar ≠ '+' ∧ d.digitChar ≠ '-' := by
  interval_cases d <;> decide

/-- `decimalDigits` are the digits `Nat.toDigits` writes, and they have the
value of the number. -/
theorem decimalDigits_spec (n : Nat) :
    Nat.toDigits 10 n = (decimalDigits n).map Nat.digitChar ∧
      (∀ d ∈ decimalDigits n, d < 10) ∧ digitsNumber (decimalDigits n) = n := by
  induction n using Nat.strong_induction_on with
  | _ n ih =>
    rw [Nat.toDigits_eq_if (by decide), decimalDigits]
    by_cases hn : n < 10
    · rw [if_pos hn, if_pos hn]
      refine ⟨rfl, fun d hd => ?_, by simp [digitsNumber]⟩
      rw [List.mem_singleton] at hd
      omega
    · -- the last digit is the remainder, the others are those of the quotient
      obtain ⟨hchars, hlt, hval⟩ := ih (n / 10) (by omega)
      rw [if_neg hn, if_neg hn, List.map_append, ← hchars, digitsNumber_append_digit, hval]
      refine ⟨rfl, fun d hd => ?_, by omega⟩
      rcases List.mem_append.mp hd with hd | hd
      · exact hlt d hd
      · rw [List.mem_singleton] at hd
        omega

theorem decimalDigits_ne_nil (n : Nat) : decimalDigits n ≠ [] := by
  rw [decimalDigits]
  split <;> simp

/-- Digits have a value below ten to the power of their count. -/
theorem digitsNumber_lt {ds : List Nat} (h : ∀ d ∈ ds, d < 10) : digitsNumber ds < 10 ^ ds.length := by
  have key : ∀ (ds : List Nat) (a : Nat), (∀ d ∈ ds, d < 10) →
      ds.foldl (fun acc d => acc * 10 + d) a < (a + 1) * 10 ^ ds.length := by
    intro ds
    induction ds with
    | nil => intro a _; simp
    | cons d ds ih =>
      intro a hds
      have hd : d < 10 := hds d (by simp)
      calc (d :: ds).foldl (fun acc d => acc * 10 + d) a
          = ds.foldl (fun acc d => acc * 10 + d) (a * 10 + d) := rfl
        _ < (a * 10 + d + 1) * 10 ^ ds.length := ih _ fun d' h => hds d' (by simp [h])
        _ ≤ (a + 1) * 10 * 10 ^ ds.length := Nat.mul_le_mul_right _ (by omega)
        _ = (a + 1) * 10 ^ (d :: ds).length := by rw [List.length_cons, Nat.pow_succ]; ring
  simpa [digitsNumber] using key ds 0 h

/-- A number below `10 ^ e` has at most `e` digits, and one at or above it
more. -/
theorem length_decimalDigits_le_iff (n e : Nat) (he : 0 < e) :
    (decimalDigits n).length ≤ e ↔ n < 10 ^ e := by
  obtain ⟨hchars, hlt, hval⟩ := decimalDigits_spec n
  constructor
  · intro hle
    calc n = digitsNumber (decimalDigits n) := hval.symm
      _ < 10 ^ (decimalDigits n).length := digitsNumber_lt hlt
      _ ≤ 10 ^ e := Nat.pow_le_pow_right (by decide) hle
  · intro hn
    have := Nat.toDigits_length 10 n e he hn
    rwa [hchars, List.length_map] at this

theorem decimal_toList (plus : Bool) (x : Int) :
    (decimal plus x).toList = signOf plus x ++ (decimalDigits x.natAbs).map Nat.digitChar := by
  rw [← (decimalDigits_spec x.natAbs).1]
  have hrepr : x.repr.toList = (if x < 0 then ['-'] else []) ++ Nat.toDigits 10 x.natAbs := by
    rw [Int.repr_eq_if]
    by_cases hx : x < 0
    · rw [if_neg (by omega), if_pos hx, show (-x).toNat = x.natAbs by omega]
      simp only [String.toList_append, Nat.repr_eq_ofList_toDigits, String.toList_ofList]
      rfl
    · rw [if_pos (by omega), if_neg hx, show x.toNat = x.natAbs by omega]
      simp only [Nat.repr_eq_ofList_toDigits, String.toList_ofList, List.nil_append]
  unfold decimal signOf
  rw [Int.toString_eq_repr]
  by_cases hx : x < 0
  · simp [hx, hrepr, show ¬ 0 ≤ x by omega]
  · cases plus
    · simp [hx, hrepr]
    · simp [hx, hrepr, show 0 ≤ x by omega]

/-! ## Reading a line -/

/-- A character that lies in a gap between the runs of decimal digits is no
digit. -/
theorem digitValue?_of_gap {c : Char} (lo hi : Nat) (hgap : ∀ z ∈ digitZeros, z + 10 ≤ lo ∨ hi < z)
    (h : lo ≤ c.toNat ∧ c.toNat ≤ hi) : digitValue? c = none := by
  simp only [digitValue?, Option.map_eq_none_iff, List.find?_eq_none, decide_eq_true_eq]
  intro z hz
  have := hgap z hz
  omega

theorem digitValue?_of_isBlank {c : Char} (h : isBlank c = true) : digitValue? c = none := by
  simp only [isBlank, Bool.or_eq_true, Bool.and_eq_true, decide_eq_true_eq, beq_iff_eq] at h
  -- the blanks lie in four gaps between the runs of decimal digits
  have hgaps : c.toNat ≤ 47 ∨ (58 ≤ c.toNat ∧ c.toNat ≤ 1631) ∨ (4250 ≤ c.toNat ∧ c.toNat ≤ 6111) ∨
      (7258 ≤ c.toNat ∧ c.toNat ≤ 42527) := by
    omega
  rcases hgaps with h | h | h | h
  · exact digitValue?_of_gap 0 47 (by decide) ⟨Nat.zero_le _, h⟩
  · exact digitValue?_of_gap 58 1631 (by decide) h
  · exact digitValue?_of_gap 4250 6111 (by decide) h
  · exact digitValue?_of_gap 7258 42527 (by decide) h

/-- Skipping blanks skips a run of blanks whole. -/
theorem dropWhile_blanks {b rest : List Char} (hb : ∀ c ∈ b, isBlank c = true) :
    (b ++ rest).dropWhile isBlank = rest.dropWhile isBlank := by
  induction b with
  | nil => rfl
  | cons c b ih =>
    rw [List.cons_append, List.dropWhile_cons_of_pos (hb c (by simp))]
    exact ih fun c' h => hb c' (by simp [h])

/-- Skipping blanks stops at once at a character that is not one. -/
theorem dropWhile_blanks_stop {l : List Char} (h : ∀ c ∈ l.head?, isBlank c = false) :
    l.dropWhile isBlank = l := by
  cases l with
  | nil => rfl
  | cons c l => exact List.dropWhile_cons_of_neg (by simp [h c rfl])

/-- A digit run stops at once at a character that is not a digit. -/
theorem leadingDigits_stop {l : List Char} (h : ∀ c ∈ l.head?, digitValue? c = none) :
    leadingDigits l = ([], l) := by
  cases l with
  | nil => rfl
  | cons c l => simp [leadingDigits, h c rfl]

/-- The digit run of written digits is those digits. -/
theorem leadingDigits_digits {ds : List Nat} (hds : ∀ d ∈ ds, d < 10) {rest : List Char}
    (hrest : leadingDigits rest = ([], rest)) :
    leadingDigits (ds.map Nat.digitChar ++ rest) = (ds, rest) := by
  induction ds with
  | nil => exact hrest
  | cons d ds ih =>
    simp only [List.map_cons, List.cons_append, leadingDigits, (digitChar_reads (hds d (by simp))).1]
    rw [ih fun d' h => hds d' (by simp [h])]

/-- Text that starts with a digit carries no sign. -/
theorem signedNumber_of_digit {c : Char} {cs : List Char} (hplus : c ≠ '+') (hminus : c ≠ '-')
    {ds : List Nat} {rest : List Char} (hne : ds ≠ []) (h : leadingDigits (c :: cs) = (ds, rest)) :
    signedNumber (c :: cs) = some (⟨false, ds⟩, rest) := by
  unfold signedNumber
  split
  all_goals simp_all

/-- A numeral in decimal is read back as its sign and digits, up to the first
character that is not a digit. -/
theorem signedNumber_decimal (plus : Bool) (x : Int) {rest : List Char}
    (hrest : leadingDigits rest = ([], rest)) :
    signedNumber ((decimal plus x).toList ++ rest) =
      some (⟨decide (x < 0), decimalDigits x.natAbs⟩, rest) := by
  obtain ⟨-, hlt, -⟩ := decimalDigits_spec x.natAbs
  have hdigits := leadingDigits_digits hlt hrest
  obtain ⟨d, ds, hds⟩ := List.exists_cons_of_ne_nil (decimalDigits_ne_nil x.natAbs)
  rw [decimal_toList, hds]
  rw [hds] at hdigits hlt
  unfold signOf
  by_cases hx : x < 0
  · simp only [hx, if_true, decide_true, List.cons_append, List.nil_append]
    simp only [signedNumber, hdigits]
  · cases plus with
    | true =>
      simp only [hx, if_false, if_true, decide_false, List.cons_append, List.nil_append]
      simp only [signedNumber, hdigits]
    | false =>
      -- an unsigned numeral starts with a digit, which is no sign
      have hd := digitChar_reads (hlt d (by simp))
      simp only [hx, if_false, Bool.false_eq_true, List.nil_append, decide_false]
      simp only [List.map_cons, List.cons_append] at hdigits ⊢
      exact signedNumber_of_digit hd.2.2.1 hd.2.2.2 (List.cons_ne_nil d ds) hdigits

/-- A decimal numeral starts with a character that is no blank: a sign or a
digit. -/
theorem decimal_head (plus : Bool) (x : Int) :
    ∃ ch t, (decimal plus x).toList = ch :: t ∧ isBlank ch = false := by
  obtain ⟨-, hlt, -⟩ := decimalDigits_spec x.natAbs
  obtain ⟨d, ds, hds⟩ := List.exists_cons_of_ne_nil (decimalDigits_ne_nil x.natAbs)
  rw [decimal_toList, hds]
  unfold signOf
  split
  · exact ⟨'-', _, rfl, by decide⟩
  · split
    · exact ⟨'+', _, rfl, by decide⟩
    · exact ⟨d.digitChar, _, rfl, (digitChar_reads (hlt d (by simp [hds]))).2.1⟩

/-- Blanks, then a character that is no blank: skipping blanks stops there. -/
theorem dropWhile_blanks_decimal {b rest : List Char} (hb : ∀ c ∈ b, isBlank c = true)
    (plus : Bool) (x : Int) :
    (b ++ ((decimal plus x).toList ++ rest)).dropWhile isBlank = (decimal plus x).toList ++ rest := by
  obtain ⟨ch, t, ht, hch⟩ := decimal_head plus x
  rw [dropWhile_blanks hb, ht]
  exact dropWhile_blanks_stop (by simp [hch])

/-- Blanks stop a digit run, and so does what follows them if it is no
digit. -/
theorem leadingDigits_blanks {b rest : List Char} (hb : ∀ c ∈ b, isBlank c = true)
    (hrest : ∀ c ∈ rest.head?, digitValue? c = none) : leadingDigits (b ++ rest) = ([], b ++ rest) := by
  apply leadingDigits_stop
  cases b with
  | nil => exact hrest
  | cons c b =>
    intro c' hc'
    simp only [List.cons_append, List.head?_cons, Option.mem_def, Option.some.injEq] at hc'
    subst hc'
    exact digitValue?_of_isBlank (hb _ (by simp))

/-- After blanks and a comma, the text goes on past the blanks that follow. -/
theorem afterComma_blanks {b rest : List Char} (hb : ∀ c ∈ b, isBlank c = true) :
    afterComma (b ++ ',' :: rest) = some (rest.dropWhile isBlank) := by
  unfold afterComma
  rw [dropWhile_blanks hb, dropWhile_blanks_stop (by simp; decide)]
  rfl

/-- A word of non-blanks followed by a blank: the run of non-blanks is the
word, and what follows it is the rest. -/
theorem nonBlankRun {w rest : List Char} (hw : ∀ c ∈ w, isBlank c = false)
    (hrest : ∀ c ∈ rest.head?, isBlank c = true) :
    (w ++ rest).takeWhile (fun c => !isBlank c) = w ∧
      (w ++ rest).dropWhile (fun c => !isBlank c) = rest := by
  induction w with
  | nil =>
    cases rest with
    | nil => exact ⟨rfl, rfl⟩
    | cons c rest =>
      have hc : isBlank c = true := hrest c rfl
      exact ⟨List.takeWhile_cons_of_neg (by simp [hc]), List.dropWhile_cons_of_neg (by simp [hc])⟩
  | cons c w ih =>
    have hc : isBlank c = false := hw c (by simp)
    obtain ⟨ht, hd⟩ := ih fun c' h => hw c' (by simp [h])
    rw [List.cons_append, List.takeWhile_cons_of_pos (by simp [hc]),
      List.dropWhile_cons_of_pos (by simp [hc]), ht, hd]
    exact ⟨rfl, rfl⟩

/-- A mnemonic is a nonempty run of non-blanks. -/
theorem mnemonic_run (op : Opcode) :
    op.mnemonic.toList ≠ [] ∧ ∀ c ∈ op.mnemonic.toList, isBlank c = false := by
  -- checked as a `List.all`, so that deciding it never ranges over all characters
  have h : op.mnemonic.toList ≠ [] ∧ op.mnemonic.toList.all (fun c => !isBlank c) = true := by
    cases op <;> decide
  refine ⟨h.1, fun c hc => ?_⟩
  simpa using List.all_eq_true.mp h.2 c hc

/-! ## Instruction lines -/

/-- The blank runs of an instruction line: before the mnemonic, between it
and the first operand, before and after each comma, and at the end.  The plain
layout has one space after the mnemonic and nothing else. -/
structure Spacing where
  lead : String := ""
  gap : String := " "
  beforeFirst : String := ""
  afterFirst : String := ""
  beforeSecond : String := ""
  afterSecond : String := ""
  trail : String := ""

namespace Spacing

/-- The line of mnemonic `m` and operand texts `d`, `s`, `c`, laid out by `sp`. -/
def line (sp : Spacing) (m d s c : String) : String :=
  sp.lead ++ m ++ sp.gap ++ d ++ sp.beforeFirst ++ "," ++ sp.afterFirst ++ s ++ sp.beforeSecond ++
    "," ++ sp.afterSecond ++ c ++ sp.trail

/-- Spacing of blanks only, with at least one between the mnemonic and the
first operand. -/
structure Blank (sp : Spacing) : Prop where
  gap_ne : sp.gap ≠ ""
  blanks : ∀ r ∈ [sp.lead, sp.gap, sp.beforeFirst, sp.afterFirst, sp.beforeSecond, sp.afterSecond,
    sp.trail], ∀ c ∈ r.toList, isBlank c = true

/-- A layout is made of blanks when its texts, checked one by one, are. -/
theorem Blank.of_all {sp : Spacing} (hgap : sp.gap ≠ "")
    (h : [sp.lead, sp.gap, sp.beforeFirst, sp.afterFirst, sp.beforeSecond, sp.afterSecond,
      sp.trail].all (fun r => r.toList.all isBlank) = true) : sp.Blank :=
  ⟨hgap, fun r hr c hc => List.all_eq_true.mp (List.all_eq_true.mp h r hr) c hc⟩

/-- The plain layout is the one `disassemble` writes. -/
theorem line_plain (m d s c : String) : ({} : Spacing).line m d s c = m ++ " " ++ d ++ "," ++ s ++ "," ++ c := by
  simp only [line, String.append_empty, String.empty_append]

end Spacing

/-- A line of blanks, a mnemonic and three decimal numerals splits into its
mnemonic and numerals. -/
theorem fields_line {sp : Spacing} (hsp : sp.Blank) (op : Opcode) (pd ps pc : Bool) (d s c : Int) :
    fields (sp.line op.mnemonic (decimal pd d) (decimal ps s) (decimal pc c)).toList =
      some (op.mnemonic.toList, ⟨decide (d < 0), decimalDigits d.natAbs⟩,
        ⟨decide (s < 0), decimalDigits s.natAbs⟩, ⟨decide (c < 0), decimalDigits c.natAbs⟩) := by
  obtain ⟨hgap, hb⟩ := hsp
  have blank : ∀ r ∈ [sp.lead, sp.gap, sp.beforeFirst, sp.afterFirst, sp.beforeSecond, sp.afterSecond,
      sp.trail], ∀ c ∈ r.toList, isBlank c = true := hb
  simp only [List.mem_cons, List.not_mem_nil, or_false, forall_eq_or_imp, forall_eq] at blank
  obtain ⟨hlead, hgapb, hb1, ha1, hb2, ha2, htrail⟩ := blank
  obtain ⟨hmne, hmrun⟩ := mnemonic_run op
  -- the text as one list of characters, piece after piece
  set D := (decimal pd d).toList
  set S := (decimal ps s).toList
  set C := (decimal pc c).toList
  set r3 := sp.beforeSecond.toList ++ ',' :: (sp.afterSecond.toList ++ (C ++ sp.trail.toList))
  set r2 := sp.beforeFirst.toList ++ ',' :: (sp.afterFirst.toList ++ (S ++ r3))
  set r1 := sp.gap.toList ++ (D ++ r2)
  have htext : (sp.line op.mnemonic (decimal pd d) (decimal ps s) (decimal pc c)).toList =
      sp.lead.toList ++ (op.mnemonic.toList ++ r1) := by
    simp only [Spacing.line, String.toList_append, List.append_assoc, r1, r2, r3, D, S, C]
    rfl
  obtain ⟨g, gs, hgs⟩ := List.exists_cons_of_ne_nil (fun h => hgap (String.toList_inj.mp h))
  have hgaphead : ∀ ch ∈ r1.head?, isBlank ch = true := by
    simp only [r1, hgs, List.cons_append, List.head?_cons, Option.mem_def, Option.some.injEq]
    rintro ch rfl
    exact hgapb g (by simp [hgs])
  -- the mnemonic is the first run of non-blanks
  have hstart : (sp.lead.toList ++ (op.mnemonic.toList ++ r1)).dropWhile isBlank =
      op.mnemonic.toList ++ r1 := by
    rw [dropWhile_blanks hlead]
    obtain ⟨m, ms, hms⟩ := List.exists_cons_of_ne_nil hmne
    rw [hms]
    exact dropWhile_blanks_stop (by simp [hmrun m (by simp [hms])])
  obtain ⟨hmn, hrest⟩ := nonBlankRun hmrun hgaphead
  -- then at least one blank, and the first numeral
  have hafter : r1.dropWhile isBlank = D ++ r2 := dropWhile_blanks_decimal hgapb pd d
  have hlen : ¬ (D ++ r2).length = r1.length := by
    simp only [r1, List.length_append, hgs, List.length_cons]
    omega
  have hcomma : ∀ ch ∈ (',' :: ([] : List Char)).head?, digitValue? ch = none := by
    simp only [List.head?_cons, Option.mem_def, Option.some.injEq]
    rintro ch rfl
    decide
  have hd : signedNumber (D ++ r2) = some (⟨decide (d < 0), decimalDigits d.natAbs⟩, r2) :=
    signedNumber_decimal pd d (leadingDigits_blanks hb1 (by simpa using hcomma))
  have hc1 : afterComma r2 = some (S ++ r3) := by
    rw [afterComma_blanks hb1, dropWhile_blanks_decimal ha1]
  have hs : signedNumber (S ++ r3) = some (⟨decide (s < 0), decimalDigits s.natAbs⟩, r3) :=
    signedNumber_decimal ps s (leadingDigits_blanks hb2 (by simpa using hcomma))
  have hc2 : afterComma r3 = some (C ++ sp.trail.toList) := by
    rw [afterComma_blanks hb2, dropWhile_blanks_decimal ha2]
  have hc : signedNumber (C ++ sp.trail.toList) =
      some (⟨decide (c < 0), decimalDigits c.natAbs⟩, sp.trail.toList) := by
    refine signedNumber_decimal pc c ?_
    simpa using @leadingDigits_blanks _ [] htrail (by simp)
  have hend : sp.trail.toList.dropWhile isBlank = [] := by
    simpa using @dropWhile_blanks _ [] htrail
  rw [htext]
  simp only [fields, hstart, hmn, hrest, hafter, hlen, hd, hc1, hs, hc2, hc, hend, List.isEmpty_iff, hmne,
    if_false, if_true, Option.bind_eq_bind, Option.bind_some]

/-- The plain layout is made of blanks. -/
theorem Spacing.plain_blank : ({} : Spacing).Blank := Spacing.Blank.of_all (by decide) (by decide)

/-! ## Assembling a line -/

/-- A numeral of at most `digitLimit` digits has the value it was written for. -/
theorem Assembler.Numeral.value_decimal {x : Int} (hx : x.natAbs < 10 ^ digitLimit) :
    (⟨decide (x < 0), decimalDigits x.natAbs⟩ : Numeral).value = .ok x := by
  obtain ⟨-, -, hval⟩ := decimalDigits_spec x.natAbs
  have hlen := (length_decimalDigits_le_iff x.natAbs digitLimit (by decide)).mpr hx
  unfold Numeral.value
  dsimp only
  rw [if_neg (by omega)]
  simp only [signedValue, hval]
  by_cases h : x < 0
  · simp only [h, decide_true, if_true]
    congr 1
    omega
  · simp only [h, decide_false, Bool.false_eq_true, if_false]
    congr 1
    omega

/-- A numeral of more than `digitLimit` digits is refused with its digit count. -/
theorem Assembler.Numeral.value_decimal_of_le {x : Int} (hx : 10 ^ digitLimit ≤ x.natAbs) :
    (⟨decide (x < 0), decimalDigits x.natAbs⟩ : Numeral).value =
      .error (.tooManyDigits (decimalDigits x.natAbs).length) := by
  have hlen : ¬ (decimalDigits x.natAbs).length ≤ digitLimit := fun h =>
    absurd ((length_decimalDigits_le_iff _ _ (by decide)).mp h) (by omega)
  unfold Numeral.value
  dsimp only
  rw [if_pos (by omega)]

/-- A line of blanks, a mnemonic and three decimal numerals assembles as its
numerals read, in order. -/
theorem assembleLine_line {sp : Spacing} (hsp : sp.Blank) (op : Opcode) (pd ps pc : Bool)
    (d s c : Int) (line : Int) :
    assembleLine (sp.line op.mnemonic (decimal pd d) (decimal ps s) (decimal pc c)) line =
      (do
        let d' ← (⟨decide (d < 0), decimalDigits d.natAbs⟩ : Numeral).value
        let s' ← (⟨decide (s < 0), decimalDigits s.natAbs⟩ : Numeral).value
        let c' ← (⟨decide (c < 0), decimalDigits c.natAbs⟩ : Numeral).value
        pure (Instruction.encode ⟨op.code, d', s', c'⟩)) := by
  unfold assembleLine
  rw [fields_line hsp]
  dsimp only
  rw [String.ofList_toList, Opcode.ofMnemonic?_mnemonic]

/-- A line of blanks, a mnemonic and three decimal numerals of at most
`digitLimit` digits assembles to the packing of its opcode and operands. -/
theorem assembleLine_decimal {sp : Spacing} (hsp : sp.Blank) (op : Opcode) (pd ps pc : Bool)
    {d s c : Int} (hd : d.natAbs < 10 ^ digitLimit) (hs : s.natAbs < 10 ^ digitLimit)
    (hc : c.natAbs < 10 ^ digitLimit) (line : Int) :
    assembleLine (sp.line op.mnemonic (decimal pd d) (decimal ps s) (decimal pc c)) line =
      .ok (Instruction.encode ⟨op.code, d, s, c⟩) := by
  rw [assembleLine_line hsp, Numeral.value_decimal hd, Numeral.value_decimal hs,
    Numeral.value_decimal hc]
  rfl

/-- The operands are read in order, so the first of more than `digitLimit`
digits is the fault of the line, whatever follows it. -/
theorem assembleLine_too_many_digits {sp : Spacing} (hsp : sp.Blank) (op : Opcode)
    (pd ps pc : Bool) (d s c : Int) (line : Int) :
    (10 ^ digitLimit ≤ d.natAbs →
      assembleLine (sp.line op.mnemonic (decimal pd d) (decimal ps s) (decimal pc c)) line =
        .error (.tooManyDigits (decimalDigits d.natAbs).length)) ∧
    (d.natAbs < 10 ^ digitLimit → 10 ^ digitLimit ≤ s.natAbs →
      assembleLine (sp.line op.mnemonic (decimal pd d) (decimal ps s) (decimal pc c)) line =
        .error (.tooManyDigits (decimalDigits s.natAbs).length)) ∧
    (d.natAbs < 10 ^ digitLimit → s.natAbs < 10 ^ digitLimit → 10 ^ digitLimit ≤ c.natAbs →
      assembleLine (sp.line op.mnemonic (decimal pd d) (decimal ps s) (decimal pc c)) line =
        .error (.tooManyDigits (decimalDigits c.natAbs).length)) := by
  refine ⟨fun hd => ?first, fun hd hs => ?second, fun hd hs hc => ?third⟩
  case first =>
    rw [assembleLine_line hsp, Numeral.value_decimal_of_le hd]
    rfl
  case second =>
    rw [assembleLine_line hsp, Numeral.value_decimal hd, Numeral.value_decimal_of_le hs]
    rfl
  case third =>
    rw [assembleLine_line hsp, Numeral.value_decimal hd, Numeral.value_decimal hs,
      Numeral.value_decimal_of_le hc]
    rfl

/-! ## Disassembled words -/

/-- The opcode an integer names has that integer for its number. -/
theorem Opcode.code_of_ofCode? {n : Int} {op : Opcode} (h : Opcode.ofCode? n = some op) :
    (op.code : Int) = n := by
  unfold Opcode.ofCode? at h
  split at h
  · have hcodes : ∀ i, i < 17 → (Opcode.all[i]?).map Opcode.code = some i := by decide
    have hlt : n.toNat < 17 := (List.getElem?_eq_some_iff.mp h).1
    have hcode := hcodes n.toNat hlt
    rw [h, Option.map_some, Option.some.injEq] at hcode
    omega
  · cases h

theorem decimal_false (x : Int) : decimal false x = toString x := by
  simp [decimal]

/-- A number of at most five digits is well within the digit limit. -/
theorem natAbs_lt_limit {x : Int} (hx : x.natAbs < 10 ^ 5) : x.natAbs < 10 ^ digitLimit :=
  Nat.lt_of_lt_of_le hx (Nat.pow_le_pow_right (by decide) (by decide))

/-- A word whose opcode names an operation, written out with its decoded
fields, assembles back to itself. -/
theorem assembleLine_decoded {w : Int} (h0 : 0 ≤ w) (hw : w < 17 * 2 ^ 26) {sp : Spacing}
    (hsp : sp.Blank) (line : Int) :
    ∃ op : Opcode, Opcode.ofCode? (Instruction.decode w).opcode = some op ∧
      assembleLine (sp.line op.mnemonic (toString (Instruction.decode w).dest)
        (toString (Instruction.decode w).source) (toString (Instruction.decode w).constant)) line =
        .ok w := by
  have hw' : w < 1140850688 := by norm_num at hw; exact hw
  have hop : 0 ≤ (Instruction.decode w).opcode ∧ (Instruction.decode w).opcode < 17 := by
    simp only [Instruction.decode]
    omega
  obtain ⟨op, hop'⟩ := Option.isSome_iff_exists.mp ((Opcode.ofCode?_isSome_iff _).mpr hop)
  refine ⟨op, hop', ?_⟩
  -- the register fields have two digits at most and the constant five
  have hdest : (Instruction.decode w).dest.natAbs < 10 ^ 5 := by simp only [Instruction.decode]; omega
  have hsource : (Instruction.decode w).source.natAbs < 10 ^ 5 := by simp only [Instruction.decode]; omega
  have hconst : (Instruction.decode w).constant.natAbs < 10 ^ 5 := by
    simp only [Instruction.decode, Instruction.bmod_eq]
    split <;> omega
  rw [← decimal_false, ← decimal_false, ← decimal_false,
    assembleLine_decimal hsp op false false false (natAbs_lt_limit hdest) (natAbs_lt_limit hsource)
      (natAbs_lt_limit hconst), Opcode.code_of_ofCode? hop']
  exact congrArg Except.ok (Instruction.encode_decode w)

theorem disassemble_eq (w : Int) :
    disassemble w = (Opcode.ofCode? (Instruction.decode w).opcode).map fun op =>
      ({} : Spacing).line op.mnemonic (toString (Instruction.decode w).dest)
        (toString (Instruction.decode w).source) (toString (Instruction.decode w).constant) := by
  -- interpolation writes a text as it is
  have htext : ∀ t : String, toString t = t := fun _ => rfl
  unfold disassemble
  simp only [Spacing.line_plain, htext]

/-- Disassembling and assembling gives the word back, whatever blanks stand
around the fields; more generally a line of a mnemonic and three decimal
numerals, with or without a `+` before a non-negative one and set apart by any
blanks (at least one after the mnemonic), assembles to the packing of the
opcode and numerals, as long as none has more than `digitLimit` digits.  A
numeral of more digits is refused: the line fails on the digit count of the
first such operand. -/
theorem assembleLine_decimal_line :
    (∀ w : Int, 0 ≤ w → w < 17 * 2 ^ 26 →
      (disassemble w).map (fun text => assembleLine text) = some (.ok w) ∧
      ∀ sp : Spacing, sp.Blank → ∃ op : Opcode, Opcode.ofCode? (Instruction.decode w).opcode = some op ∧
        assembleLine (sp.line op.mnemonic (toString (Instruction.decode w).dest)
          (toString (Instruction.decode w).source) (toString (Instruction.decode w).constant)) = .ok w) ∧
    (∀ (op : Opcode) (d s c : Int) (pd ps pc : Bool) (sp : Spacing), sp.Blank →
      d.natAbs < 10 ^ digitLimit → s.natAbs < 10 ^ digitLimit → c.natAbs < 10 ^ digitLimit →
      assembleLine (sp.line op.mnemonic (decimal pd d) (decimal ps s) (decimal pc c)) =
        .ok (Instruction.encode ⟨op.code, d, s, c⟩)) ∧
    ∀ (op : Opcode) (d s c : Int) (pd ps pc : Bool) (sp : Spacing), sp.Blank →
      (10 ^ digitLimit ≤ d.natAbs →
        assembleLine (sp.line op.mnemonic (decimal pd d) (decimal ps s) (decimal pc c)) =
          .error (.tooManyDigits (decimalDigits d.natAbs).length)) ∧
      (d.natAbs < 10 ^ digitLimit → 10 ^ digitLimit ≤ s.natAbs →
        assembleLine (sp.line op.mnemonic (decimal pd d) (decimal ps s) (decimal pc c)) =
          .error (.tooManyDigits (decimalDigits s.natAbs).length)) ∧
      (d.natAbs < 10 ^ digitLimit → s.natAbs < 10 ^ digitLimit → 10 ^ digitLimit ≤ c.natAbs →
        assembleLine (sp.line op.mnemonic (decimal pd d) (decimal ps s) (decimal pc c)) =
          .error (.tooManyDigits (decimalDigits c.natAbs).length)) := by
  refine ⟨fun w h0 hw => ⟨?_, fun sp hsp => assembleLine_decoded h0 hw hsp 1⟩,
    fun op d s c pd ps pc sp hsp hd hs hc => assembleLine_decimal hsp op pd ps pc hd hs hc 1,
    fun op d s c pd ps pc sp hsp => assembleLine_too_many_digits hsp op pd ps pc d s c 1⟩
  obtain ⟨op, hop, hline⟩ := assembleLine_decoded h0 hw Spacing.plain_blank 1
  rw [disassemble_eq, hop, Option.map_some, Option.map_some, hline]

/-- `addi 1,0,10` and `addi +7, 0 , -10` laid out with tabs, an ideographic
space and a line feed: both assemble to their packings. -/
theorem assembleLine_decimal_line_addi :
    let sp : Spacing :=
      { lead := "\t", gap := " \u3000", afterFirst := " ", beforeSecond := " ", trail := "\n" }
    ((0 : Int) ≤ 69206026 ∧ (69206026 : Int) < 17 * 2 ^ 26 ∧ sp.Blank ∧
      ∃ op : Opcode, Opcode.ofCode? (Instruction.decode 69206026).opcode = some op ∧
        assembleLine (sp.line op.mnemonic (toString (Instruction.decode 69206026).dest)
          (toString (Instruction.decode 69206026).source)
          (toString (Instruction.decode 69206026).constant)) = .ok 69206026) ∧
    (sp.Blank ∧ (7 : Int).natAbs < 10 ^ digitLimit ∧ (0 : Int).natAbs < 10 ^ digitLimit ∧
      (-10 : Int).natAbs < 10 ^ digitLimit ∧
      assembleLine (sp.line Opcode.addi.mnemonic (decimal true 7) (decimal false 0) (decimal false (-10))) =
        .ok (Instruction.encode ⟨Opcode.addi.code, 7, 0, -10⟩)) := by
  intro sp
  have hsp : sp.Blank := Spacing.Blank.of_all (by decide) (by decide)
  have h7 : (7 : Int).natAbs < 10 ^ digitLimit := natAbs_lt_limit (by decide)
  have h0 : (0 : Int).natAbs < 10 ^ digitLimit := natAbs_lt_limit (by decide)
  have h10 : (-10 : Int).natAbs < 10 ^ digitLimit := natAbs_lt_limit (by decide)
  exact ⟨⟨by decide, by norm_num, hsp,
      (assembleLine_decimal_line.1 69206026 (by decide) (by norm_num)).2 sp hsp⟩,
    ⟨hsp, h7, h0, h10,
      assembleLine_decimal_line.2.1 .addi 7 0 (-10) true false false sp hsp h7 h0 h10⟩⟩

/-- An operand of more than `digitLimit` digits is refused.  `addi` with a
first operand of a one and `digitLimit` zeros does not assemble to the packing
of `addi` with that operand: reading the operand fails on its digit count. -/
theorem assembleLine_refuses_long_operand :
    assembleLine (({} : Spacing).line Opcode.addi.mnemonic (decimal false (10 ^ digitLimit))
        (decimal false 0) (decimal false 0)) = .error (.tooManyDigits (digitLimit + 1)) ∧
      assembleLine (({} : Spacing).line Opcode.addi.mnemonic (decimal false (10 ^ digitLimit))
        (decimal false 0) (decimal false 0)) ≠
        .ok (Instruction.encode ⟨Opcode.addi.code, 10 ^ digitLimit, 0, 0⟩) := by
  have habs : ((10 : Int) ^ digitLimit).natAbs = 10 ^ digitLimit := by
    rw [Int.natAbs_pow, show (10 : Int).natAbs = 10 from rfl]
  -- a one and `digitLimit` zeros: more than `digitLimit` digits, but no more than one more
  have hlen : (decimalDigits (10 ^ digitLimit)).length = digitLimit + 1 := by
    have hle := (length_decimalDigits_le_iff (10 ^ digitLimit) (digitLimit + 1) (by omega)).mpr
      (Nat.pow_lt_pow_right (by decide) (by omega))
    have hgt : ¬ (decimalDigits (10 ^ digitLimit)).length ≤ digitLimit := fun h =>
      Nat.lt_irrefl (10 ^ digitLimit) ((length_decimalDigits_le_iff _ _ (by decide)).mp h)
    omega
  have hrun := (assembleLine_too_many_digits Spacing.plain_blank .addi false false false
    (10 ^ digitLimit) 0 0 1).1 (by rw [habs])
  rw [habs, hlen] at hrun
  refine ⟨hrun, ?_⟩
  rw [hrun]
  intro h
  cases h

end DemandPaging
