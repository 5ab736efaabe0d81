import DemandPaging.Proofs.Reporting
import DemandPaging.Proofs.RunLoop

/-!
# The exit status of the command

Once its arguments are read, `Command.execute` ends as the first of these
that applies says:

* a fault met while checking the inputs: status 1 with `error: message` on
  the error stream and nothing printed, or, on input the command cannot read,
  the fault escapes (`execute_of_inputs_error`);
* a geometry too large for a machine: the fault escapes
  (`lastRun_or_overflows`);
* otherwise the run that ends the command, `LastRun`, and its report
  (`execute_of_lastRun`).  For the optimal policy without a trace file this is
  the FIFO recording run when that run does not halt, and otherwise the final
  run, made with the trace the recording run recorded (`FinalTrace`).  The
  report is status 1 with `error: message` for a fault the command reports,
  status 1 with the core map, the page table and the counters for an
  interrupted run, and status 0 with the registers and the counters for a
  halted run, which only the final run can be.

A run without a step limit has a budget of `unlimitedBudget` instructions.
One that spends it has not ended, and neither has the command
(`Exit.stillRunning`); its machine has then executed exactly that many
instructions (`LastRun.stepLimit_counts`), so the statuses above are all
there is for every program that halts or is stopped within `2 ^ 64`
instructions.

The operator's stop requests are one per run (`Stops`): they may reach the
recording run, the final run, or both.  `command_exit_statuses` gathers the
statuses, with what escapes (`escapes_only_unreadable_or_oversized`) and with
status 0 exactly when the final run halts (`execute_status_zero_iff`).
-/

namespace DemandPaging

open Command

/-! ## A run that reports the step limit -/

/-- A machine's run returns as its processor's run does; the line it logs
comes after the run returns and changes the board alone. -/
theorem Machine.run_ok_of {limit : Option Int} {m m' : Machine} {o : Outcome}
    (h : (Machine.run limit).run m = .ok o m') :
    ∃ m₁, (Computer.run Machine.bus (budgetOf limit)).run m = .ok o m₁ ∧ m'.cpu = m₁.cpu := by
  unfold Machine.run at h
  rw [EStateM.run_bind] at h
  cases hr : (Computer.run Machine.bus (budgetOf limit)).run m with
  | ok o₁ m₁ =>
    rw [hr] at h
    cases h
    exact ⟨m₁, rfl, rfl⟩
  | error e m₁ =>
    rw [hr] at h
    cases h

/-- A load and run of a new machine that reports the step limit has executed
its whole budget, `unlimitedBudget` instructions, and has not halted. -/
theorem loadAndRun_stepLimit {g : Geometry} {kind : PolicyKind} {trace : Option (List Int)}
    {record : Bool} {log : Log} {m m' : Machine} {program : List Int} {stops : Bool}
    (hg : g.validate = .ok g) (hm : Machine.create g kind trace record log = .ok m)
    (h : loadAndRun m program stops = (.ok .stepLimit, m')) :
    m'.cpu.steps = unlimitedBudget ∧ m'.cpu.halted = false := by
  obtain ⟨n, m₁, hload, hgo⟩ := loadAndRun_ok h
  rcases hgo with ⟨-, hrun⟩ | ⟨rfl, -⟩
  · obtain ⟨m₂, hrun₂, hcpu⟩ := Machine.run_ok_of hrun
    obtain ⟨hsteps, hhalt⟩ := Computer.run_stepLimit_counts _ hrun₂
    -- the load leaves the new processor as it was made, with nothing executed
    have h₀ : m₁.cpu.steps = 0 := by
      obtain ⟨-, -, hc, -⟩ := Machine.create_ok hm
      obtain ⟨hm₁, -⟩ := Machine.loadProgram_run hload
      rw [hm₁, (Cpu.eq_of_create_ok hc).2]
    rw [hcpu]
    exact ⟨by rw [hsteps, h₀, Nat.zero_add]; rfl, hhalt⟩
  · cases loadAndRun_stopped hg hm h

/-! ## The run that ends the command -/

namespace Command

/-- The trace the final run is made with, the operator asking to stop the
recording run if `stops`: the trace file's, or, for the optimal policy without
one, the accesses of a FIFO recording run that halted. -/
inductive FinalTrace (i : Inputs) (stops : Bool) : Option (List Int) → Prop
  | given : i.records = false → FinalTrace i stops i.trace
  | recorded {recorder r : Machine} : i.records = true →
      Machine.create i.geometry .fifo none true {} = .ok recorder →
      loadAndRun recorder i.program stops = (.ok .halted, r) →
      FinalTrace i stops (some r.accessTrace)

/-- The run that ends the command on the checked inputs `i`, the final run
keeping the log `log`: what was printed before its report, the machine it
leaves and how it ended.  For the optimal policy without a trace file it is
the recording run when that run does not halt; otherwise it is the final
run. -/
inductive LastRun (i : Inputs) (log : Log) (stops : Stops) :
    String → Machine → Except Fault Outcome → Prop
  | recording {recorder r : Machine} {result : Except Fault Outcome} : i.records = true →
      Machine.create i.geometry .fifo none true {} = .ok recorder →
      loadAndRun recorder i.program stops.recording = (result, r) → result ≠ .ok .halted →
      LastRun i log stops (banner i.kind ++ "\n") r result
  | final {trace : Option (List Int)} {m m' : Machine} {result : Except Fault Outcome} :
      FinalTrace i stops.recording trace →
      Machine.create i.geometry i.kind trace false log = .ok m →
      loadAndRun m i.program stops.final = (result, m') →
      LastRun i log stops (banner i.kind ++ "\n" ++ printed m'.board.log) m' result

variable {i : Inputs} {output : String} {stops : Bool}

/-- The final run has the trace its policy needs. -/
theorem FinalTrace.traced {trace : Option (List Int)} (h : FinalTrace i stops trace)
    (hk : i.kind = .optimal) : trace ≠ none := by
  cases h with
  | given hr =>
    have hs : i.trace.isSome = true := by simpa [Inputs.records, hk] using hr
    exact Option.isSome_iff_ne_none.mp hs
  | recorded => exact Option.some_ne_none _

/-- With the trace of the final run known, the recording stage hands it on. -/
theorem traceFor_of_finalTrace {trace : Option (List Int)} (h : FinalTrace i stops trace) :
    traceFor i output stops = .ok trace := by
  cases h with
  | given hr => simp only [traceFor, hr, Bool.false_eq_true, if_false]
  | recorded hr hcreate hrun => simp only [traceFor, hr, if_true, hcreate, hrun]

/-- A recording run that does not halt ends the command with its report. -/
theorem traceFor_of_recording {recorder r : Machine} {result : Except Fault Outcome}
    (hr : i.records = true) (hcreate : Machine.create i.geometry .fifo none true {} = .ok recorder)
    (hrun : loadAndRun recorder i.program stops = (result, r)) (hne : result ≠ .ok .halted) :
    traceFor i output stops = .error (report output r result) := by
  simp only [traceFor, hr, if_true, hcreate]
  rw [hrun]
  -- the first arm is the recording that halted, which `hne` excludes
  split
  · rename_i heq
    cases heq
    exact absurd rfl hne
  · rename_i heq
    cases heq
    rfl

/-- The last run reports the step limit only once it has executed its whole
budget, `unlimitedBudget` instructions, without halting. -/
theorem LastRun.stepLimit_counts {log : Log} {stops : Stops} {out : String} {m : Machine}
    (hg : i.geometry.validate = .ok i.geometry) (h : LastRun i log stops out m (.ok .stepLimit)) :
    m.cpu.steps = unlimitedBudget ∧ m.cpu.halted = false := by
  cases h with
  | recording _ hcreate hrun _ => exact loadAndRun_stepLimit hg hcreate hrun
  | final _ hcreate hrun => exact loadAndRun_stepLimit hg hcreate hrun

/-- A fault of a geometry that overflows is not the command's to report. -/
theorem failWith_of_overflows {g : Geometry} {f : Fault} (h : g.Overflows f) (output : String) :
    failWith output f = .escaped f := by
  cases h <;> rfl

section Execute

variable {args : List String} {files : FileSource} {stops : Stops} {c : Choices}

/-- A fault met while checking the inputs ends the command with status 1 and
its message, or escapes it on input the command cannot read. -/
theorem execute_of_inputs_error {f : Fault} (hparse : parseArguments args = .ok c)
    (hinputs : checkInputs c files = .error f) :
    reportedEarly f = true ∧
        execute args files stops = .finished 1 "" ("error: " ++ f.message ++ "\n") ∨
      f.Unreadable ∧ execute args files stops = .escaped f := by
  have he : execute args files stops =
      if reportedEarly f then .finished 1 "" ("error: " ++ f.message ++ "\n") else .escaped f := by
    simp only [execute, hparse, hinputs]
  cases hr : reportedEarly f
  · -- a fault of the inputs that is not reported is input the command cannot read
    have hu := (checkInputs_raises c files f hinputs).resolve_left (by rw [hr]; decide)
    exact .inr ⟨hu, by rw [he, hr]; rfl⟩
  · exact .inl ⟨rfl, by rw [he, hr]; rfl⟩

/-- The command on checked inputs ends as the report of its last run says. -/
theorem execute_of_lastRun {out : String} {m : Machine} {result : Except Fault Outcome}
    (hparse : parseArguments args = .ok c) (hinputs : checkInputs c files = .ok i)
    (h : LastRun i c.runLog stops out m result) : execute args files stops = report out m result := by
  cases h with
  | recording hr hcreate hrun hne =>
    simp only [execute, hparse, hinputs, traceFor_of_recording hr hcreate hrun hne]
  | final htrace hcreate hrun =>
    simp only [execute, hparse, hinputs, traceFor_of_finalTrace htrace, hcreate, hrun]

/-- Once the final run's trace is known, the final run is the last run,
unless no machine of the geometry can be built. -/
theorem lastRun_or_overflows_of_finalTrace {trace : Option (List Int)}
    (hparse : parseArguments args = .ok c) (hinputs : checkInputs c files = .ok i)
    (ht : FinalTrace i stops.recording trace) :
    (∃ out m result, LastRun i c.runLog stops out m result) ∨
      ∃ f, i.geometry.Overflows f ∧ execute args files stops = .escaped f := by
  have hvalid := chooseGeometry_valid (checkInputs_geometry hinputs)
  cases hcreate : Machine.create i.geometry i.kind trace false c.runLog with
  | ok m =>
    obtain ⟨result, m'⟩ := loadAndRun m i.program stops.final
    exact .inl ⟨_, _, _, .final ht hcreate rfl⟩
  | error f =>
    -- the final run's policy has its trace, so only the geometry can fail
    have hf : i.geometry.Overflows f :=
      (Machine.create_raises hvalid _ _ _ _ f hcreate).resolve_left fun h =>
        ht.traced h.2.1 h.2.2
    refine .inr ⟨f, hf, ?_⟩
    simp only [execute, hparse, hinputs, traceFor_of_finalTrace ht, hcreate,
      failWith_of_overflows hf]

/-- Checked inputs have a last run, unless no machine of their geometry can be
built; that fault escapes the command. -/
theorem lastRun_or_overflows (stops : Stops) (hparse : parseArguments args = .ok c)
    (hinputs : checkInputs c files = .ok i) :
    (∃ out m result, LastRun i c.runLog stops out m result) ∨
      ∃ f, i.geometry.Overflows f ∧ execute args files stops = .escaped f := by
  have hvalid := chooseGeometry_valid (checkInputs_geometry hinputs)
  cases hr : i.records with
  | false => exact lastRun_or_overflows_of_finalTrace hparse hinputs (.given hr)
  | true =>
    cases hcreate : Machine.create i.geometry .fifo none true {} with
    | error f =>
      -- a recorder is a FIFO machine, which needs no trace
      have hf : i.geometry.Overflows f :=
        (Machine.create_raises hvalid _ _ _ _ f hcreate).resolve_left fun h => by
          cases h.2.1
      refine .inr ⟨f, hf, ?_⟩
      simp only [execute, hparse, hinputs, traceFor, hr, if_true, hcreate,
        failWith_of_overflows hf]
    | ok recorder =>
      cases hrun : loadAndRun recorder i.program stops.recording with
      | mk result r =>
        by_cases hhalt : result = .ok .halted
        · subst hhalt
          exact lastRun_or_overflows_of_finalTrace hparse hinputs (.recorded hr hcreate hrun)
        · exact .inl ⟨_, _, _, .recording hr hcreate hrun hhalt⟩

/-- A report with status 0 is the report of a halted run. -/
theorem report_status_zero {out text errors : String} {m : Machine}
    {result : Except Fault Outcome} (h : report out m result = .finished 0 text errors) :
    result = .ok .halted := by
  cases result with
  | ok outcome =>
    cases outcome with
    | halted => rfl
    | interrupted => cases h
    | stepLimit => cases h
  | error f =>
    simp only [report, failWith] at h
    split at h <;> cases h

/-- The command ends with status 0 exactly when its final run halts: the run
of the program on a machine of the chosen policy, made with the final run's
trace, after a recording run that halted when the policy needs one. -/
theorem execute_status_zero_iff :
    (∃ out errors, execute args files stops = .finished 0 out errors) ↔
      ∃ c i trace m m', parseArguments args = .ok c ∧ checkInputs c files = .ok i ∧
        FinalTrace i stops.recording trace ∧
        Machine.create i.geometry i.kind trace false c.runLog = .ok m ∧
        loadAndRun m i.program stops.final = (.ok .halted, m') := by
  constructor
  · rintro ⟨out, errors, h⟩
    cases hparse : parseArguments args with
    | error s =>
      simp only [execute, hparse] at h
      cases h
    | ok c =>
      cases hinputs : checkInputs c files with
      | error f =>
        -- a fault of the inputs ends the command with status 1, or escapes it
        simp only [execute, hparse, hinputs] at h
        split at h <;> cases h
      | ok i =>
        rcases lastRun_or_overflows stops hparse hinputs with
          ⟨out', m, result, hlast⟩ | ⟨f, -, he⟩
        · rw [execute_of_lastRun hparse hinputs hlast] at h
          have hhalt := report_status_zero h
          subst hhalt
          -- a recording run that ends the command did not halt
          cases hlast with
          | recording _ _ _ hne => exact absurd rfl hne
          | final htrace hcreate hrun => exact ⟨c, i, _, _, _, rfl, hinputs, htrace, hcreate, hrun⟩
        · rw [he] at h
          cases h
  · rintro ⟨c, i, trace, m, m', hparse, hinputs, htrace, hcreate, hrun⟩
    exact ⟨_, _, execute_of_lastRun hparse hinputs (.final htrace hcreate hrun)⟩

end Execute

end Command

/-! ## The exit statuses -/

/-- The command's exit status.  A fault escapes it only on input it cannot
read or a geometry too large for a machine, and it ends with status 0 exactly
when its final run halts.  Once its arguments are read, a fault of the inputs
ends it with status 1 and `error: message`; otherwise its last run does: status
1 and `error: message` for a fault it reports, status 1 with the tables and the
counters for an interrupt, status 0 with the registers and the counters for a
halt, and no status yet only after `unlimitedBudget` instructions. -/
theorem command_exit_statuses (args : List String) (files : FileSource) (stops : Stops) :
    (∀ f, execute args files stops = .escaped f → f.Unreadable ∨
      ∃ c g, parseArguments args = .ok c ∧ chooseGeometry c = .ok g ∧ g.Overflows f) ∧
    ((∃ out errors, execute args files stops = .finished 0 out errors) ↔
      ∃ c i trace m m', parseArguments args = .ok c ∧ checkInputs c files = .ok i ∧
        FinalTrace i stops.recording trace ∧
        Machine.create i.geometry i.kind trace false c.runLog = .ok m ∧
        loadAndRun m i.program stops.final = (.ok .halted, m')) ∧
    ∀ c, parseArguments args = .ok c →
      (∀ f, checkInputs c files = .error f →
        reportedEarly f = true ∧
            execute args files stops = .finished 1 "" ("error: " ++ f.message ++ "\n") ∨
          f.Unreadable ∧ execute args files stops = .escaped f) ∧
      ∀ i, checkInputs c files = .ok i →
        ((∃ out m result, LastRun i c.runLog stops out m result) ∨
          ∃ f, i.geometry.Overflows f ∧ execute args files stops = .escaped f) ∧
        ∀ out m result, LastRun i c.runLog stops out m result →
          (∀ f, result = .error f → reportedLate f = true →
            execute args files stops = .finished 1 out ("error: " ++ f.message ++ "\n")) ∧
          (result = .ok .interrupted →
            execute args files stops = .finished 1 (out ++ formatTables m.board.frames m.board.pages ++
              "\n\n" ++ formatStatistics m.board.stats ++ "\n") "") ∧
          (result = .ok .halted →
            execute args files stops = .finished 0 (out ++ formatRegisters m.cpu.registers.toList ++
              "\n\n" ++ formatStatistics m.board.stats ++ "\n") "") ∧
          (result = .ok .stepLimit →
            execute args files stops = .stillRunning ∧ m.cpu.steps = unlimitedBudget ∧
              m.cpu.halted = false) := by
  refine ⟨fun f h => escapes_only_unreadable_or_oversized h, execute_status_zero_iff,
    fun c hparse => ⟨fun f hinputs => execute_of_inputs_error hparse hinputs,
      fun i hinputs => ⟨lastRun_or_overflows stops hparse hinputs, fun out m result hlast => ?_⟩⟩⟩
  have hvalid := chooseGeometry_valid (checkInputs_geometry hinputs)
  rw [execute_of_lastRun hparse hinputs hlast]
  refine ⟨fun f hf hr => ?_, fun ho => ?_, fun ho => ?_, fun ho => ?_⟩
  · subst hf
    simp only [report, failWith, hr, if_true]
  · subst ho
    rfl
  · subst ho
    rfl
  · subst ho
    exact ⟨rfl, hlast.stepLimit_counts hvalid⟩

/-- A frame count emptied by `--` escapes the command as a size that is not a
number, input the command cannot read. -/
theorem emptied_frames_escape :
    execute ["--frames=--", "prog.s"] (Directory.source ⟨[]⟩) {} = .escaped (.sizeNotNumber ">") ∧
      ((Fault.sizeNotNumber ">").Unreadable ∨
        ∃ c g, parseArguments ["--frames=--", "prog.s"] = .ok c ∧ chooseGeometry c = .ok g ∧
          g.Overflows (.sizeNotNumber ">")) := by
  have h : execute ["--frames=--", "prog.s"] (Directory.source ⟨[]⟩) {} =
      .escaped (.sizeNotNumber ">") := by
    decide +kernel
  exact ⟨h, (command_exit_statuses _ _ _).1 _ h⟩

end DemandPaging
