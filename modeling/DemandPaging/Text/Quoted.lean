import DemandPaging.Text.Printable

/-!
# Quoted text

Messages show a piece of text between quotes, written so that it can be
read back unambiguously.  The rules:

* the quote is `'`, unless the text holds a `'` and no `"`, then it is `"`;
* the chosen quote and the backslash are preceded by a backslash;
* tab, line feed and carriage return are written `\t`, `\n`, `\r`;
* any other non-printable character is written in hexadecimal, lower case,
  as `\xNN` below U+0100, `\uNNNN` below U+10000 and `\UNNNNNNNN` above;
* everything else stands as it is.
-/

namespace DemandPaging.Text

/-- `n` in lower-case hexadecimal, padded with zeros to `width` digits. -/
def hexPadded (width n : Nat) : List Char :=
  let digits := Nat.toDigits 16 n
  List.replicate (width - digits.length) '0' ++ digits

/-- How one character is written inside quotes delimited by `q`. -/
def escapeChar (q c : Char) : List Char :=
  if c = q ∨ c = '\\' then ['\\', c]
  else if c = '\t' then ['\\', 't']
  else if c = '\n' then ['\\', 'n']
  else if c = '\r' then ['\\', 'r']
  else if isPrintable c then [c]
  else if c.toNat < 0x100 then '\\' :: 'x' :: hexPadded 2 c.toNat
  else if c.toNat < 0x10000 then '\\' :: 'u' :: hexPadded 4 c.toNat
  else '\\' :: 'U' :: hexPadded 8 c.toNat

/-- The quote character for a text: double only when the text holds a single
quote and no double quote. -/
def quoteFor (s : List Char) : Char :=
  if s.contains '\'' && !s.contains '"' then '"' else '\''

/-- The characters of a text between quotes, escaped as the module header describes. -/
def quoteChars (s : List Char) : List Char :=
  let q := quoteFor s
  q :: s.flatMap (escapeChar q) ++ [q]

/-- A text between quotes, escaped as the module header describes. -/
def quote (s : String) : String := String.ofList (quoteChars s.toList)

example : quoteChars "it's".toList = "\"it's\"".toList ∧
    quoteChars "a'b\"".toList = "'a\\'b\"'".toList := by decide +kernel
example : quoteChars "\x00\x7f\u200b\t".toList = "'\\x00\\x7f\\u200b\\t'".toList ∧
    quoteChars "é☃".toList = "'é☃'".toList := by decide +kernel

end DemandPaging.Text
