import DemandPaging.Assembler
import DemandPaging.Files
import DemandPaging.Text.Lines

/-!
# Program files

A program file is UTF-8 text; its line ends are unified, it is cut into
lines, and the lines are assembled.  A byte order mark is kept and so
becomes part of the first line.
-/

namespace DemandPaging

open Text

/-- The words of the program text `text`. -/
def assembleText (text : String) : Except Fault (List Int) :=
  assemble (splitLines (String.ofList (unifyLineEnds text.toList)))

/-- The words of the program in the file at `path` of `d`. -/
def loadProgramFile (d : FileSource) (path : String) : Except Fault (List Int) := do
  let p := PathName.parse path
  let bytes ← d.load p (Fault.programUnreadable p.render)
  let text ← (decodeUtf8 bytes).mapError Fault.undecodable
  assembleText text

end DemandPaging
