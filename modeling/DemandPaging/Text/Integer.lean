import DemandPaging.Text.Blank
import DemandPaging.Text.Digit

/-!
# Integer literals

An integer literal, as numbers are read from trace files and from the
command line: blanks around it are ignored, then comes at most one sign, then
one or more decimal digits of any script (`٣` is three), where a single
underscore may stand between two digits (`1_000`).  Nothing else is allowed.

The blanks skipped here are narrower than `isBlank`: of the ASCII
characters only space, tab, line feed, vertical tab, form feed and carriage
return count, so the information separators U+001C to U+001F do not.

A literal may have at most `digitLimit` digits.  The limit is checked as
soon as the digit run is read, before what follows the run is looked at, so
a run that is too long is reported as such even when the text after it would
make the literal malformed.
-/

namespace DemandPaging.Text

/-- The most digits a literal may have. -/
def digitLimit : Nat := 4300

/-- Whether a character may stand around a literal. -/
def isLiteralBlank (c : Char) : Bool :=
  if c.toNat < 128 then
    c = ' ' || c = '\t' || c = '\n' || c = '\x0b' || c = '\x0c' || c = '\r'
  else isBlank c

/-- Why a text is not an integer literal. -/
inductive LiteralError where
  /-- The text does not have the shape of a literal. -/
  | malformed
  /-- The digit run has more than `digitLimit` digits (the count is given). -/
  | tooManyDigits (digits : Nat)
  deriving DecidableEq, Repr

/-- The digits of a run that goes on after a digit, and what follows the run:
each further digit may be preceded by one underscore.  `none` when an
underscore is not followed by a digit. -/
def continueRun : List Char → Option (List Nat × List Char)
  | [] => some ([], [])
  | '_' :: c :: rest =>
    match digitValue? c with
    | some d => (continueRun rest).map fun (ds, r) => (d :: ds, r)
    | none => none
  | ['_'] => none
  | c :: rest =>
    match digitValue? c with
    | some d => (continueRun rest).map fun (ds, r) => (d :: ds, r)
    | none => some ([], c :: rest)

/-- The digit run at the head of `cs` and what follows it; the run is empty
when `cs` does not start with a digit. -/
def digitRun : List Char → Option (List Nat × List Char)
  | [] => some ([], [])
  | c :: rest =>
    match digitValue? c with
    | some d => (continueRun rest).map fun (ds, r) => (d :: ds, r)
    | none => some ([], c :: rest)

/-- The number whose decimal digits are `ds`, most significant first. -/
def digitsNumber (ds : List Nat) : Nat :=
  ds.foldl (fun acc d => acc * 10 + d) 0

/-- The value of a digit run with its sign. -/
def signedValue (negative : Bool) (ds : List Nat) : Int :=
  let n : Int := digitsNumber ds
  if negative then -n else n

/-- The value of an integer literal, or why the text is not one. -/
def parseInteger (s : String) : Except LiteralError Int :=
  let cs := s.toList.dropWhile isLiteralBlank
  let (negative, body) : Bool × List Char :=
    match cs with
    | '+' :: rest => (false, rest)
    | '-' :: rest => (true, rest)
    | _ => (false, cs)
  match digitRun body with
  | none => .error .malformed
  | some (ds, rest) =>
    if digitLimit < ds.length then .error (.tooManyDigits ds.length)
    else if ds.isEmpty || !rest.all isLiteralBlank then .error .malformed
    else .ok (signedValue negative ds)

/-- The value of an integer literal, or `none` if the text is not one. -/
def readInteger? (s : String) : Option Int :=
  (parseInteger s).toOption

@[simp] theorem digitsNumber_nil : digitsNumber [] = 0 := rfl

example : readInteger? " -1_000 " = some (-1000) ∧ readInteger? "00007" = some 7 ∧
    readInteger? "٣" = some 3 ∧ readInteger? "1__0" = none ∧ readInteger? "_1" = none ∧
    readInteger? "1_" = none ∧ readInteger? "+-1" = none ∧ readInteger? "" = none ∧
    readInteger? "\x1c8" = none ∧ readInteger? "8　" = some 8 := by
  decide +kernel

end DemandPaging.Text
