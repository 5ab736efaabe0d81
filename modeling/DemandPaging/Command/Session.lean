import DemandPaging.Command.Arguments
import DemandPaging.Geometry
import DemandPaging.Machine
import DemandPaging.Program
import DemandPaging.Trace
import DemandPaging.Report

/-!
# A run of the command

`execute` is the whole command as a function of its arguments, the files it
can read, and whether the operator asks to stop as each of its runs starts:

1. read the arguments (a usage error ends with status 2, help with 0);
2. check the policy name, the geometry, the program file and the trace file,
   in that order; a configuration or assembly fault ends with
   `error: message` on the error stream and status 1.  An option holding an
   empty list fails where its value is first used: a policy as a name that
   names none, a size at its first comparison with zero, a trace when it is
   read as a file;
3. print the banner of the policy;
4. for the optimal policy without a trace file, run the program once on a
   FIFO machine that records its accesses; if that run does not halt, its
   report ends the command; otherwise the recorded accesses are the trace;
5. build the machine (verbose: every log entry printed as it happens),
   load the program and run it without a step limit;
6. a configuration, assembly, address, swap or instruction fault ends with
   `error: message` and status 1;
7. an interrupted run prints the core map and page table, a blank line and
   the counters, with status 1; a halted run prints the registers, a blank
   line and the counters, with status 0.

Any other fault is not the command's to report and escapes it.  A run
without a step limit is given `unlimitedBudget` instructions; one that
spends them all has not ended, and the command is still running.
-/
namespace DemandPaging.Command

/-- How a run of the command ends. -/
inductive Exit where
  /-- With an exit status, what was printed, and what was printed as errors. -/
  | finished (status : Nat) (output errors : String)
  /-- Before anything ran, on a usage error or a request for help. -/
  | usage (status : Nat)
  /-- With a fault the command does not report. -/
  | escaped (fault : Fault)
  /-- Not yet: a run had executed its whole budget of instructions without
  ending. -/
  | stillRunning
  deriving DecidableEq, Repr

/-- Whether the operator asks to stop as a run starts: the recording run of
the optimal policy, and the final run. -/
structure Stops where
  recording : Bool := false
  final : Bool := false

/-- The line that names the policy of a run. -/
def banner : PolicyKind → String
  | .fifo => "FIFO page replacement algorithm."
  | .secondChance => "Second chance page replacement algorithm."
  | .optimal => "Optimal page replacement algorithm."

/-- Whether a fault met while checking the inputs is reported. -/
def reportedEarly (f : Fault) : Bool :=
  f.family == .configuration || f.family == .assembly

/-- Whether a fault met while running is reported. -/
def reportedLate (f : Fault) : Bool :=
  reportedEarly f || f.family == .address || f.family == .swapExhausted ||
    f.family == .illegalInstruction

/-- The end of a run ended by fault `f`, with `output` printed so far. -/
def failWith (output : String) (f : Fault) : Exit :=
  if reportedLate f then .finished 1 output ("error: " ++ f.message ++ "\n") else .escaped f

/-- What the inputs hold once checked. -/
structure Inputs where
  kind : PolicyKind
  geometry : Geometry
  program : List Int
  trace : Option (List Int)

/-- The policy an option names. -/
def choosePolicy : Held String → Except Fault PolicyKind
  | .value name => PolicyKind.parse name
  | .emptyList => .error .policyNotNamed

/-- The number a size option holds, where it is compared with zero by
`operator`. -/
def comparedSize (operator : String) : Held Int → Except Fault Int
  | .value n => .ok n
  | .emptyList => .error (.sizeNotNumber operator)

/-- The geometry the options choose.  Its rules are checked in the order
`Geometry.validate` checks them, each size being compared with zero as its
rule is reached: the three power-of-two sizes by `>`, then the number of
virtual pages by `<=` once the register rules (met by the default register
file) have passed. -/
def chooseGeometry (c : Choices) : Except Fault Geometry := do
  let pageSize ← comparedSize ">" c.pageSize
  Geometry.requirePowerOfTwo "page_size" pageSize
  let frames ← comparedSize ">" c.frames
  Geometry.requirePowerOfTwo "frames" frames
  let swapSlots ← comparedSize ">" c.swapSlots
  Geometry.requirePowerOfTwo "swap_slots" swapSlots
  let virtualPages ← comparedSize "<=" c.virtualPages
  Geometry.validate { pageSize, virtualPages, frames, swapSlots }

/-- The trace in the file a trace option names. -/
def chooseTrace (files : FileSource) : Held String → Except Fault (List Int)
  | .value path => readTraceFile files path
  | .emptyList => .error .traceNotPath

/-- Check the inputs, in order: policy, geometry, program, trace. -/
def checkInputs (c : Choices) (files : FileSource) : Except Fault Inputs := do
  let kind ← choosePolicy c.policy
  let geometry ← chooseGeometry c
  let program ← loadProgramFile files (c.program.getD "")
  let trace ← match c.trace with
    | some held => some <$> chooseTrace files held
    | none => pure none
  pure ⟨kind, geometry, program, trace⟩

/-- Load and run a program without a step limit, the operator asking to stop
as the run starts if `stops`. -/
def loadAndRun (m : Machine) (program : List Int) (stops : Bool) : Except Fault Outcome × Machine :=
  let act : MachineM Outcome := do
    let _ ← Machine.loadProgram program
    if stops then Machine.requestStop
    Machine.run none
  match act.run m with
  | .ok o m' => (.ok o, m')
  | .error e m' => (.error e, m')

/-- The report at the end of a run, after `output`. -/
def finish (output : String) (m : Machine) : Outcome → Exit
  | .interrupted =>
    .finished 1 (output ++ formatTables m.board.frames m.board.pages ++ "\n\n" ++
      formatStatistics m.board.stats ++ "\n") ""
  | .halted =>
    .finished 0 (output ++ formatRegisters m.cpu.registers.toList ++ "\n\n" ++
      formatStatistics m.board.stats ++ "\n") ""
  | .stepLimit => .stillRunning

/-- The end of the command once a run on machine `m` has given `result`. -/
def report (output : String) (m : Machine) : Except Fault Outcome → Exit
  | .ok o => finish output m o
  | .error f => failWith output f

/-- The lines a log handed to its live sink. -/
def printed (log : Log) : String :=
  String.join (log.sent.toList.map (· ++ "\n"))

/-- Whether the inputs call for a recording run: the optimal policy with no
trace file. -/
def Inputs.records (i : Inputs) : Bool :=
  decide (i.kind = .optimal) && i.trace.isNone

/-- The trace of future accesses for the run: the trace file's, or one
recorded by a FIFO run when the optimal policy has none; or the end of the
command, if the recording run does not halt. -/
def traceFor (i : Inputs) (output : String) (stops : Bool) : Except Exit (Option (List Int)) :=
  if i.records then
    match Machine.create i.geometry .fifo none true {} with
    | .error f => .error (failWith output f)
    | .ok recorder =>
      match loadAndRun recorder i.program stops with
      | (.ok .halted, r) => .ok (some r.accessTrace)
      | (result, r) => .error (report output r result)
  else .ok i.trace

/-- The log of the final run: verbose, every entry printed as it happens. -/
def Choices.runLog (c : Choices) : Log :=
  if c.verbose then { minLevel := .debug, capacity := some 1000, live := true } else {}

/-- The command run with arguments `args` on the files of `files`. -/
def execute (args : List String) (files : FileSource) (stops : Stops) : Exit :=
  match parseArguments args with
  | .error s => .usage s.status
  | .ok c =>
    match checkInputs c files with
    | .error f =>
      if reportedEarly f then .finished 1 "" ("error: " ++ f.message ++ "\n") else .escaped f
    | .ok i =>
      let output := banner i.kind ++ "\n"
      match traceFor i output stops.recording with
      | .error e => e
      | .ok trace =>
        match Machine.create i.geometry i.kind trace false c.runLog with
        | .error f => failWith output f
        | .ok m =>
          let (result, m') := loadAndRun m i.program stops.final
          report (output ++ printed m'.board.log) m' result

end DemandPaging.Command
