import DemandPaging.Command.Session

/-!
# The command

Reads the program file and the trace file named on the command line, runs
`DemandPaging.Command.execute` on them, and prints what it printed.
-/

open DemandPaging

/-- Why the file at `path` cannot be read, from the system's error (the
numbers are the system's error codes for a name too long and for a path
through a file). -/
def openFailureOf (e : IO.Error) : OpenFailure :=
  match e with
  | .noFileOrDirectory .. => .notFound
  | .invalidArgument _ 36 _ => .nameTooLong
  | .inappropriateType _ 20 _ => .notDirectory
  | .inappropriateType .. => .isDirectory
  | _ => .notDirectory

/-- The bytes of the file at `path`, or why it cannot be read. -/
def readBytes (path : String) : IO (Except OpenFailure (List UInt8)) := do
  try
    let bytes ← IO.FS.readBinFile path
    pure (.ok bytes.toList)
  catch e =>
    pure (.error (openFailureOf e))

def main (args : List String) : IO UInt32 := do
  let named := match Command.parseArguments args with
    | .ok c =>
      let trace := match c.trace with
        | some (.value path) => [path]
        | _ => []
      c.program.toList ++ trace
    | .error _ => []
  let mut files : List (PathName × Except OpenFailure (List UInt8)) := []
  for path in named do
    files := files ++ [(PathName.parse path, ← readBytes path)]
  let source : FileSource := ⟨fun p => (files.lookup p).getD (.error .notFound)⟩
  match Command.execute args source {} with
  | .finished status output errors =>
    IO.print output
    IO.eprint errors
    pure status.toUInt32
  | .usage status =>
    if status ≠ 0 then IO.eprintln "usage: demand-paging [options] PROGRAM"
    pure status.toUInt32
  | .escaped fault =>
    IO.eprintln fault.message
    pure 1
  | .stillRunning =>
    IO.eprintln "the run did not end within its budget of instructions"
    pure 1
