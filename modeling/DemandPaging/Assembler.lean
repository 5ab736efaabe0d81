import DemandPaging.Instruction
import DemandPaging.Fault
import DemandPaging.Text.Digit
import DemandPaging.Text.Integer

/-!
# Assembly

A program is text, one instruction per line, `mnemonic dest,source,constant`
with decimal operands:

    ; r1 = 10
    addi 1,0,10
    halt 0,0,0

A line is, in order: blanks, the mnemonic (a run of non-blanks), at least
one blank, then three signed decimal numbers separated by commas, with
blanks allowed around each comma and at the end.  A number is an optional
`+` or `-` and one or more decimal digits of any script, at most
`Text.digitLimit` of them; the operands are narrowed by `Instruction.encode`.
The mnemonic is checked before the numbers, and the numbers in order.  Lines starting with `;` and lines of
blanks only are skipped; lines are numbered from 1, skipped ones included.
Assembly stops at the first line that is not an instruction.
-/

namespace DemandPaging

open Text

namespace Assembler

/-- A signed decimal number as written: its sign and its digits. -/
structure Numeral where
  negative : Bool
  digits : List Nat
  deriving DecidableEq, Repr

/-- The value of a numeral, which may have at most `digitLimit` digits. -/
def Numeral.value (n : Numeral) : Except Fault Int :=
  if digitLimit < n.digits.length then .error (.tooManyDigits n.digits.length)
  else .ok (signedValue n.negative n.digits)

/-- The digits at the head of `cs`, and what follows them. -/
def leadingDigits : List Char → List Nat × List Char
  | [] => ([], [])
  | c :: rest =>
    match digitValue? c with
    | some d => let (ds, r) := leadingDigits rest; (d :: ds, r)
    | none => ([], c :: rest)

/-- A signed decimal numeral at the head of `cs`, with what follows it. -/
def signedNumber (cs : List Char) : Option (Numeral × List Char) :=
  let (negative, body) : Bool × List Char :=
    match cs with
    | '+' :: rest => (false, rest)
    | '-' :: rest => (true, rest)
    | _ => (false, cs)
  match leadingDigits body with
  | ([], _) => none
  | (ds, rest) => some (⟨negative, ds⟩, rest)

/-- `cs` after its leading blanks and one comma. -/
def afterComma (cs : List Char) : Option (List Char) :=
  match cs.dropWhile isBlank with
  | ',' :: rest => some (rest.dropWhile isBlank)
  | _ => none

/-- The four fields of an instruction line: mnemonic and three operands. -/
def fields (cs : List Char) : Option (List Char × Numeral × Numeral × Numeral) := do
  let start := cs.dropWhile isBlank
  let mnemonic := start.takeWhile (fun c => !isBlank c)
  if mnemonic.isEmpty then none
  let gap := start.dropWhile (fun c => !isBlank c)
  let afterGap := gap.dropWhile isBlank
  if afterGap.length = gap.length then none
  let (dest, r1) ← signedNumber afterGap
  let r2 ← afterComma r1
  let (source, r3) ← signedNumber r2
  let r4 ← afterComma r3
  let (constant, r5) ← signedNumber r4
  if (r5.dropWhile isBlank).isEmpty then some (mnemonic, dest, source, constant) else none

end Assembler

/-- The word of one instruction line, numbered `line` in error messages. -/
def assembleLine (text : String) (line : Int := 1) : Except Fault Int :=
  match Assembler.fields text.toList with
  | none => .error (.syntaxError line text)
  | some (mnemonic, dest, source, constant) =>
    let name := String.ofList mnemonic
    match Opcode.ofMnemonic? name with
    | none => .error (.unknownMnemonic line name text)
    | some op => do
      let d ← dest.value
      let s ← source.value
      let c ← constant.value
      pure (Instruction.encode ⟨op.code, d, s, c⟩)

/-- Whether a program line carries no instruction: a comment or blanks. -/
def isSkipped (text : String) : Bool :=
  text.startsWith ";" || (trimBlanks text).isEmpty

/-- The words of the lines `lines`, the first of which is numbered `first`. -/
def assembleFrom (first : Int) : List String → Except Fault (List Int)
  | [] => .ok []
  | text :: rest =>
    if isSkipped text then assembleFrom (first + 1) rest
    else do
      let w ← assembleLine text first
      let ws ← assembleFrom (first + 1) rest
      return w :: ws

/-- The words of a program, or the fault of its first bad line. -/
def assemble (lines : List String) : Except Fault (List Int) := assembleFrom 1 lines

/-- The assembly text of a word whose opcode names an operation:
`mnemonic dest,source,constant` with the decoded fields. -/
def disassemble (w : Int) : Option String :=
  let i := Instruction.decode w
  (Opcode.ofCode? i.opcode).map fun op =>
    let name := op.mnemonic
    let d := i.dest
    let s := i.source
    let c := i.constant
    s!"{name} {d},{s},{c}"

example : assembleLine "addi 1,0,10" = .ok 69206026 := rfl
example : assembleLine "  HALT 0,0,0" = .error (.unknownMnemonic 1 "HALT" "  HALT 0,0,0") := rfl
example : assembleLine "halt\n0 , 0,0\n" = .ok 1073741824 := rfl
example : assembleLine "add --1,0,0" = .error (.syntaxError 1 "add --1,0,0") := rfl

end DemandPaging
