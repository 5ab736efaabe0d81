import DemandPaging.Text.Quoted

/-!
# UTF-8

Files are read as UTF-8.  Decoding stops at the first ill-formed sequence
and reports where it starts, how many bytes it covers and why it is wrong:

* a byte that cannot start a sequence (a continuation byte, `C0`, `C1`, or
  `F5` and above) is an invalid start byte, covering that byte;
* a sequence whose `k`-th byte (`k ≥ 2`) is not an allowed continuation is
  an invalid continuation, covering the `k - 1` bytes before it.  The
  second byte is restricted further after `E0` (at least `A0`: no overlong
  form), `ED` (below `A0`: no surrogate), `F0` (at least `90`) and `F4`
  (below `90`: nothing past U+10FFFF);
* a sequence cut short by the end of the input, with all of its bytes so
  far allowed, is an unexpected end, covering everything up to the end.
-/

namespace DemandPaging.Text

/-- Why a byte sequence is not UTF-8. -/
inductive Utf8Problem where
  | invalidStart
  | invalidContinuation
  | unexpectedEnd
  deriving DecidableEq, Repr

/-- The first ill-formed sequence of an input: it covers the bytes from
`start` up to `stop` (exclusive), and `byte` is its first byte. -/
structure Utf8Error where
  start : Nat
  stop : Nat
  byte : UInt8
  problem : Utf8Problem
  deriving DecidableEq, Repr

/-- The reason as the message states it. -/
def Utf8Problem.reason : Utf8Problem → String
  | .invalidStart => "invalid start byte"
  | .invalidContinuation => "invalid continuation byte"
  | .unexpectedEnd => "unexpected end of data"

/-- The message of a decoding error: one byte is named by its value, a longer
sequence by its first and last position. -/
def Utf8Error.message (e : Utf8Error) : String :=
  let reason := e.problem.reason
  let first := e.start
  if e.stop = e.start + 1 then
    let value := String.ofList (hexPadded 2 e.byte.toNat)
    s!"'utf-8' codec can't decode byte 0x{value} in position {first}: {reason}"
  else
    let last := e.stop - 1
    s!"'utf-8' codec can't decode bytes in position {first}-{last}: {reason}"

/-- Whether a byte continues a multi-byte sequence. -/
def isContinuation (b : UInt8) : Bool := 0x80 ≤ b && b < 0xC0

/-- Whether `c` may follow the lead byte `b` of a three-byte sequence. -/
def secondOfThree (b c : UInt8) : Bool :=
  if b = 0xE0 then 0xA0 ≤ c && c < 0xC0
  else if b = 0xED then 0x80 ≤ c && c < 0xA0
  else isContinuation c

/-- Whether `c` may follow the lead byte `b` of a four-byte sequence. -/
def secondOfFour (b c : UInt8) : Bool :=
  if b = 0xF0 then 0x90 ≤ c && c < 0xC0
  else if b = 0xF4 then 0x80 ≤ c && c < 0x90
  else isContinuation c

/-- The low six bits of a continuation byte. -/
def payload (b : UInt8) : Nat := b.toNat % 64

/-- Decode `bytes`, which start at position `pos` of the input, after the
characters `acc` (most recent first). -/
def decodeFrom (pos : Nat) (acc : List Char) : List UInt8 → Except Utf8Error (List Char)
  | [] => .ok acc.reverse
  | b :: rest =>
    let fail (len : Nat) (problem : Utf8Problem) : Except Utf8Error (List Char) :=
      .error ⟨pos, pos + len, b, problem⟩
    let ending : Nat := rest.length + 1
    if b < 0x80 then decodeFrom (pos + 1) (Char.ofNat b.toNat :: acc) rest
    else if b < 0xC2 then fail 1 .invalidStart
    else if b < 0xE0 then
      match rest with
      | [] => fail ending .unexpectedEnd
      | c :: rest' =>
        if isContinuation c then
          decodeFrom (pos + 2) (Char.ofNat ((b.toNat % 32) * 64 + payload c) :: acc) rest'
        else fail 1 .invalidContinuation
    else if b < 0xF0 then
      match rest with
      | [] => fail ending .unexpectedEnd
      | [c] => if secondOfThree b c then fail ending .unexpectedEnd else fail 1 .invalidContinuation
      | c :: d :: rest' =>
        if !secondOfThree b c then fail 1 .invalidContinuation
        else if !isContinuation d then fail 2 .invalidContinuation
        else
          let code := (b.toNat % 16) * 4096 + payload c * 64 + payload d
          decodeFrom (pos + 3) (Char.ofNat code :: acc) rest'
    else if b < 0xF5 then
      match rest with
      | [] => fail ending .unexpectedEnd
      | [c] => if secondOfFour b c then fail ending .unexpectedEnd else fail 1 .invalidContinuation
      | [c, d] =>
        if !secondOfFour b c then fail 1 .invalidContinuation
        else if !isContinuation d then fail 2 .invalidContinuation
        else fail ending .unexpectedEnd
      | c :: d :: e :: rest' =>
        if !secondOfFour b c then fail 1 .invalidContinuation
        else if !isContinuation d then fail 2 .invalidContinuation
        else if !isContinuation e then fail 3 .invalidContinuation
        else
          let code := (b.toNat % 8) * 262144 + payload c * 4096 + payload d * 64 + payload e
          decodeFrom (pos + 4) (Char.ofNat code :: acc) rest'
    else fail 1 .invalidStart

/-- The text a byte sequence encodes in UTF-8, or its first error. -/
def decodeUtf8 (bytes : List UInt8) : Except Utf8Error String :=
  (decodeFrom 0 [] bytes).map String.ofList

example : decodeFrom 0 [] [0x61, 0xC3, 0xA9, 0xE2, 0x98, 0x83, 0xF0, 0x9F, 0x98, 0x80] =
    .ok ['a', 'é', '☃', '😀'] := rfl
example : decodeFrom 0 [] [0x61, 0x62, 0x63, 0xFF] = .error ⟨3, 4, 0xFF, .invalidStart⟩ ∧
    decodeFrom 0 [] [0xE2, 0x98] = .error ⟨0, 2, 0xE2, .unexpectedEnd⟩ ∧
    decodeFrom 0 [] [0xE0, 0x80, 0x80] = .error ⟨0, 1, 0xE0, .invalidContinuation⟩ ∧
    decodeFrom 0 [] [0xF0, 0x9F, 0x41] = .error ⟨0, 2, 0xF0, .invalidContinuation⟩ :=
  ⟨rfl, rfl, rfl, rfl⟩

end DemandPaging.Text
