import DemandPaging.Files
import DemandPaging.Text.Integer
import DemandPaging.Text.Lines

/-!
# Traces

A trace is the list of page numbers a run touches, in order.  In a trace
file the numbers are integer literals separated by runs of blanks, commas
and braces, which may also stand before the first number and after the
last.  A file with any other token is not a trace.
-/

namespace DemandPaging

open Text

/-- Whether a character separates the numbers of a trace file. -/
def isTraceSeparator (c : Char) : Bool :=
  isBlank c || c = ',' || c = '\x7b' || c = '\x7d'

/-- The tokens of a trace text: its maximal runs of non-separators. -/
def traceTokens (text : String) : List String :=
  ((text.toList.splitBy (fun a b => isTraceSeparator a == isTraceSeparator b)).filter
    (fun run => !run.any isTraceSeparator)).map String.ofList

/-- The page numbers of a trace text, or `none` if a token is not an integer. -/
def traceNumbers? (text : String) : Option (List Int) :=
  (traceTokens text).mapM readInteger?

/-- The trace in the file at `path` of `d`.  The file is read as UTF-8 with
unified line ends. -/
def readTraceFile (d : FileSource) (path : String) : Except Fault (List Int) := do
  let p := PathName.parse path
  let shown := p.render
  let bytes ← d.load p (Fault.traceUnreadable shown)
  let text ← (decodeUtf8 bytes).mapError Fault.undecodable
  let text := String.ofList (unifyLineEnds text.toList)
  match traceNumbers? text with
  | some numbers => .ok numbers
  | none => .error (.traceNotNumeric shown)

example : traceNumbers? "\x7b1, 2\x7d\n 3,,-4 " = some [1, 2, 3, -4] ∧ traceNumbers? "" = some [] ∧
    traceNumbers? "1 x" = none := by decide +kernel

end DemandPaging
