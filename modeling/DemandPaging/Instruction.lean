import DemandPaging.Word

/-!
# Instruction words

An instruction is one word with four fields:

     31      26 25   21 20   16 15                0
    +----------+-------+-------+-------------------+
    |  opcode  | dest  |  src  |     constant      |
    +----------+-------+-------+-------------------+

`Instruction.encode` packs the fields and `Instruction.decode` unpacks a word.
Both work on unbounded integers: the opcode is not narrowed, so a negative
opcode gives a negative word and an opcode past 63 a word past 32 bits, and
decoding shifts with the floor, so a negative word has a negative opcode.
The register fields are taken modulo 32 and the constant modulo `2^16`,
read back as a signed 16-bit number.

Since the fields occupy disjoint bits, packing is a sum, and unpacking is
division and remainder by powers of two.  The main statements:
`decode_encode` (unpacking a packed instruction gives back its fields,
narrowed) and `encode_decode` (every integer is the packing of its fields).
-/

namespace DemandPaging

/-- The seventeen operations of the processor. -/
inductive Opcode where
  | add | addi | sub | subi | sge | sgt | seq | bt | bf | ba
  | st | ld | call | jmp | mul | seqi | halt
  deriving DecidableEq, Repr

namespace Opcode

/-- Every opcode, in the order of their numbers. -/
def all : List Opcode :=
  [add, addi, sub, subi, sge, sgt, seq, bt, bf, ba, st, ld, call, jmp, mul, seqi, halt]

/-- The number an opcode has in the opcode field. -/
def code : Opcode → Nat
  | add => 0 | addi => 1 | sub => 2 | subi => 3 | sge => 4 | sgt => 5 | seq => 6
  | bt => 7 | bf => 8 | ba => 9 | st => 10 | ld => 11 | call => 12 | jmp => 13
  | mul => 14 | seqi => 15 | halt => 16

/-- The opcode with number `n`, if `n` names one. -/
def ofCode? (n : Int) : Option Opcode :=
  if 0 ≤ n then all[n.toNat]? else none

/-- The upper-case name of an opcode, as the processor's trace shows it. -/
def name : Opcode → String
  | add => "ADD" | addi => "ADDI" | sub => "SUB" | subi => "SUBI" | sge => "SGE"
  | sgt => "SGT" | seq => "SEQ" | bt => "BT" | bf => "BF" | ba => "BA" | st => "ST"
  | ld => "LD" | call => "CALL" | jmp => "JMP" | mul => "MUL" | seqi => "SEQI"
  | halt => "HALT"

/-- The lower-case spelling of an opcode in assembly text. -/
def mnemonic : Opcode → String
  | add => "add" | addi => "addi" | sub => "sub" | subi => "subi" | sge => "sge"
  | sgt => "sgt" | seq => "seq" | bt => "bt" | bf => "bf" | ba => "ba" | st => "st"
  | ld => "ld" | call => "call" | jmp => "jmp" | mul => "mul" | seqi => "seqi"
  | halt => "halt"

/-- The opcode spelt `s` in assembly text; only lower case is accepted. -/
def ofMnemonic? (s : String) : Option Opcode :=
  all.find? (fun o => o.mnemonic == s)

/-- The opcodes ordered by their spelling. -/
def byMnemonic : List Opcode :=
  all.mergeSort (fun a b => decide (a.mnemonic ≤ b.mnemonic))

theorem ofCode?_code (o : Opcode) : ofCode? (o.code : Int) = some o := by
  cases o <;> rfl

theorem code_lt (o : Opcode) : o.code < 17 := by
  cases o <;> decide

theorem ofMnemonic?_mnemonic (o : Opcode) : ofMnemonic? o.mnemonic = some o := by
  cases o <;> decide

/-- An integer names an opcode exactly when it lies in `[0, 17)`. -/
theorem ofCode?_isSome_iff (n : Int) : (ofCode? n).isSome ↔ 0 ≤ n ∧ n < 17 := by
  unfold ofCode?
  by_cases h : 0 ≤ n
  · have hl : all.length = 17 := rfl
    simp [h, hl]
  · simp [h]

end Opcode

/-- The four fields of an instruction word.  The opcode is an integer so that
a word with an unknown opcode can still be decoded and reported. -/
structure Instruction where
  opcode : Int
  dest : Int
  source : Int
  constant : Int
  deriving DecidableEq, Repr

namespace Instruction

/-- Pack the fields into a word; register fields keep five bits and the
constant sixteen, the opcode is kept whole. -/
def encode (i : Instruction) : Int :=
  i.opcode * 67108864 + i.dest % 32 * 2097152 + i.source % 32 * 65536 + i.constant % 65536

/-- Split a word into its fields; the constant is sign-extended from 16 bits. -/
def decode (w : Int) : Instruction where
  opcode := w / 67108864
  dest := w / 2097152 % 32
  source := w / 65536 % 32
  constant := Int.bmod w 65536

/-- The signed 16-bit reading of the low 16 bits of `c`. -/
theorem bmod_eq (c : Int) :
    Int.bmod c 65536 = if c % 65536 < 32768 then c % 65536 else c % 65536 - 65536 := by
  simp [Int.bmod]

theorem decode_encode (i : Instruction) :
    decode i.encode = ⟨i.opcode, i.dest % 32, i.source % 32, Int.bmod i.constant 65536⟩ := by
  obtain ⟨o, d, s, c⟩ := i
  simp only [decode, encode, mk.injEq, bmod_eq]
  refine ⟨by omega, by omega, by omega, ?_⟩
  have : (o * 67108864 + d % 32 * 2097152 + s % 32 * 65536 + c % 65536) % 65536 = c % 65536 := by
    omega
  rw [this]

theorem encode_decode (w : Int) : (decode w).encode = w := by
  simp only [decode, encode, bmod_eq]
  split <;> omega

example : (⟨1, 1, 0, 10⟩ : Instruction).encode = 69206026 := by decide
example : decode (-1) = ⟨-1, 31, 31, -1⟩ := by decide

end Instruction

end DemandPaging
