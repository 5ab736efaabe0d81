import DemandPaging.Proofs.WriteOnlyLog

/-!
# Stop requests

A stop request queues an interrupt on the stop vector.  A run delivers what
waits there before anything else: one pass of the handler takes every waiting
request, and the run ends interrupted before any instruction or access,
withdrawing the stop.  A single step delivers nothing, so a request made before
a step still waits after it.

Between calls a machine is `Machine.Settled`: its board keeps its invariant,
its interrupts are a new machine's (`stopLine p`: the stop vector alone, with
its handler, `p` requests waiting), and no stop is left requested of its
processor.  Every call keeps this (`Call.perform_settled`), so every reachable
machine is settled (`Reachable.settled`).

The main statement is `stop_requests_end_next_run`: from a reachable machine,
`k ≥ 1` requests and a run with any limit end interrupted, with the processor
as it was and the board as it was apart from the log, every waiting request
delivered.  That includes requests that waited before: only when none did is
the board left as it was apart from the log, and then a following run does
what it would have done with no request made (`Machine.run_log_blind`).
-/

namespace DemandPaging

/-- The interrupt controller of a machine: the stop vector alone, with its
handler, `p` requests waiting. -/
def stopLine (p : Nat) : Controller Handler :=
  { vectors := [{ number := stopVector, handler := some .stop, pending := p }] }

namespace Controller

theorem raise_stopLine (p : Nat) : (stopLine p).raise stopVector = .ok (stopLine (p + 1)) := rfl

theorem calls_stopLine (p : Nat) : (stopLine p).calls = List.replicate p (.stop, stopVector) := by
  simp [Controller.calls, stopLine]

/-- Every waiting request is delivered, in one call each, and none waits after. -/
theorem service_stopLine (p : Nat) :
    (stopLine p).service = (List.replicate p (.stop, stopVector), stopLine 0) :=
  Prod.ext (calls_stopLine p) rfl

end Controller

namespace Board

variable {g : Geometry} {b b' : Board}

theorem SameButLog.interrupts (h : b.SameButLog b') : b'.interrupts = b.interrupts := by
  obtain ⟨l, rfl⟩ := h
  rfl

/-- A fold each of whose steps changes the log alone changes the log alone. -/
theorem SameButLog.foldl_self {α : Type} {f : Board → α → Board} (hf : ∀ (b : Board) x, b.SameButLog (f b x))
    (xs : List α) : ∀ b : Board, b.SameButLog (xs.foldl f b) := by
  induction xs with
  | nil => exact SameButLog.refl
  | cons x xs ih => exact fun b => (hf b x).trans (ih _)

/-- Delivering interrupts empties the queues and adds to the log, and changes
nothing else. -/
theorem service_sameButLog (pc : Int) (b : Board) :
    ({ b with interrupts := b.interrupts.service.2 } : Board).SameButLog (service pc b).2 :=
  SameButLog.foldl_self (fun _ _ => ⟨_, rfl⟩) _ _

/-- The board's invariant, with its interrupts wired as a new machine's are. -/
def Wired (g : Geometry) (b : Board) : Prop := b.Sane g ∧ ∃ p, b.interrupts = stopLine p

theorem Wired.kept (h : b.Wired g) (hk : b.Kept b') : b'.Wired g :=
  ⟨⟨hk.consistent, hk.geometry.trans h.1.2⟩, hk.interrupts ▸ h.2⟩

theorem Wired.log (h : b.Wired g) (l : Log) : ({ b with log := l } : Board).Wired g :=
  ⟨h.1.log l, h.2⟩

theorem readWord_wired (h : b.Wired g) (a : Int) : Ends (Wired g) Refused ((readWord a).run b) := by
  have hspec := readWord_spec h.1.1 a
  cases hr : (readWord a).run b with
  | ok x b' =>
    rw [hr] at hspec
    exact h.kept hspec.1
  | error e b' =>
    rw [hr] at hspec
    exact ⟨h.kept hspec.1, a, hspec.2.2⟩

theorem writeWord_wired (h : b.Wired g) (a v : Int) :
    Ends (Wired g) Refused ((writeWord a v).run b) := by
  have hspec := writeWord_spec h.1.1 a v
  cases hr : (writeWord a v).run b with
  | ok x b' =>
    rw [hr] at hspec
    exact h.kept hspec.1
  | error e b' =>
    rw [hr] at hspec
    exact ⟨h.kept hspec.1, a, hspec.2.2⟩

theorem loadProgram_wired (h : b.Wired g) (words : List Int) :
    Ends (Wired g) Refused ((loadProgram words).run b) := by
  have hspec := loadProgram_spec h.1.1 words
  cases hr : (loadProgram words).run b with
  | ok n b' =>
    rw [hr] at hspec
    exact h.kept hspec.1
  | error e b' =>
    rw [hr] at hspec
    obtain ⟨hk, a, -, -, ha⟩ := hspec
    exact ⟨h.kept hk, a, ha⟩

theorem service_wired (h : b.Wired g) (pc : Int) : (service pc b).2.Wired g := by
  obtain ⟨p, hp⟩ := h.2
  refine ⟨service_sane h.1 pc, 0, ?_⟩
  rw [service_interrupts, hp, Controller.service_stopLine]

end Board

theorem Cpu.setRegister_stopRequested {cpu cpu' : Cpu} {r v : Int}
    (h : cpu.setRegister r v = .ok cpu') : cpu'.stopRequested = cpu.stopRequested := by
  simp only [Cpu.setRegister, bind, Except.bind] at h
  split at h
  · cases h
  · cases h
    rfl

theorem Cpu.create_stopRequested {count : Int} {cpu : Cpu} (h : Cpu.create count = .ok cpu) :
    cpu.stopRequested = false := by
  obtain ⟨-, rfl⟩ := Cpu.eq_of_create_ok h
  rfl

namespace Machine

variable {g : Geometry} {m : Machine}

/-- The bus keeps boards wired. -/
theorem bus_wired (g : Geometry) : Machine.bus.Confines (Board.Wired g) Board.Refused where
  read a _ h := Board.readWord_wired h a
  write a v _ h := Board.writeWord_wired h a v
  trace _ _ h := h.log _
  service pc _ h := Board.service_wired h pc

/-- A machine between calls: its board keeps its invariant and is wired as a
new machine's is, and no stop is left requested of its processor. -/
def Settled (g : Geometry) (m : Machine) : Prop := m.board.Wired g ∧ m.cpu.stopRequested = false

theorem onBoard_settled {α : Type} {act : BoardM α} (hm : Settled g m)
    (h : Ends (Board.Wired g) Board.Refused (act.run m.board)) :
    Ends (Settled g) (fun e m => Board.Refused e m.board) ((Machine.onBoard act).run m) :=
  onBoard_ends_and (J := fun cpu => cpu.stopRequested = false) hm.2 h

/-- A step neither delivers interrupts nor requests a stop. -/
theorem step_settled (h : Settled g m) :
    Ends (Settled g) (fun _ _ => True) ((Computer.step Machine.bus).run m) := by
  have hb := Computer.step_ends (bus_wired g) h.1
  cases hr : (Computer.step Machine.bus).run m with
  | ok u m' =>
    rw [hr] at hb
    exact ⟨hb, (Computer.step_counts hr).2.1.trans h.2⟩
  | error e m' =>
    rw [hr] at hb
    refine ⟨⟨hb.1, ?_⟩, trivial⟩
    rw [Computer.step_error_cpu hr]
    exact h.2

/-- A run withdraws every stop it finds requested, and logs a line at its end. -/
theorem run_settled (h : Settled g m) (limit : Option Int) :
    Ends (Settled g) (fun _ _ => True) ((Machine.run limit).run m) := by
  unfold Machine.run
  have hrun : Ends (Settled g) (fun _ _ => True) ((Computer.run Machine.bus (budgetOf limit)).run m) := by
    refine Computer.run_ends_of (fun c stopped b hc hs => ?_) (fun _ hc => step_settled hc) _ h
    have hb := (bus_wired g).service c.cpu.pc c.board hc.1
    rw [hs] at hb
    exact ⟨hb, rfl⟩
  refine Ends.bind hrun fun o m' h' => Ends.bind (x := get) h' fun m'' _ h'' => ?_
  exact Ends.bind ((onBoard_settled h'' (Ends.modify (h''.1.log _))).mono fun _ _ _ => trivial)
    fun _ _ h₃ => Ends.pure h₃

/-- A request on a settled machine queues one more request, and changes
nothing else. -/
theorem requestStop_run {p : Nat} (h : m.board.interrupts = stopLine p) :
    Machine.requestStop.run m = .ok () { m with board := { m.board with interrupts := stopLine (p + 1) } } := by
  rw [Machine.requestStop, Machine.onBoard_run]
  simp only [EStateM.run_bind, EStateM.run_get, h, Controller.raise_stopLine, Board.ofExcept_run_ok,
    EStateM.run_set]

theorem create_settled {kind : PolicyKind} {trace : Option (List Int)} {record : Bool} {log : Log}
    (hg : g.validate = .ok g) (h : Machine.create g kind trace record log = .ok m) : Settled g m := by
  obtain ⟨b, hb, hcpu, hm⟩ := create_ok h
  refine ⟨⟨create_sane hg h, 0, ?_⟩, Cpu.create_stopRequested hcpu⟩
  rw [hm]
  exact (Board.create_ok hb).2.2

end Machine

/-- Every call keeps a machine settled, returned or failed. -/
theorem Call.perform_settled {g : Geometry} {m : Machine} (c : Call) (h : Machine.Settled g m) :
    Ends (Machine.Settled g) (fun _ _ => True) (c.perform.run m) := by
  cases c with
  | read a =>
    refine Ends.bind ((Machine.onBoard_settled h (Board.readWord_wired h.1 a)).mono fun _ _ _ => trivial) ?_
    exact fun _ _ h' => Ends.pure h'
  | write a v => exact (Machine.onBoard_settled h (Board.writeWord_wired h.1 a v)).mono fun _ _ _ => trivial
  | load words =>
    refine Ends.bind ((Machine.onBoard_settled h (Board.loadProgram_wired h.1 words)).mono
      fun _ _ _ => trivial) ?_
    exact fun _ _ h' => Ends.pure h'
  | step => exact Machine.step_settled h
  | run limit => exact Ends.bind (Machine.run_settled h limit) fun _ _ h' => Ends.pure h'
  | stop =>
    obtain ⟨p, hp⟩ := h.1.2
    show Ends _ _ (Machine.requestStop.run m)
    rw [Machine.requestStop_run hp]
    exact ⟨⟨h.1.1.interrupts _, _, rfl⟩, h.2⟩
  | setRegister r v =>
    show Ends _ _ (Machine.setRegister r v m)
    unfold Machine.setRegister
    cases hset : m.cpu.setRegister r v with
    | ok cpu => exact ⟨h.1, (Cpu.setRegister_stopRequested hset).trans h.2⟩
    | error e => exact ⟨h, trivial⟩
  | setPc v => exact Ends.modify h
  | clearLog => exact Ends.modify ⟨h.1.log _, h.2⟩

/-- Every reachable machine is settled.  Induction on the calls. -/
theorem Reachable.settled {g : Geometry} {m : Machine} (h : Reachable g m) : Machine.Settled g m := by
  induction h with
  | create hg hm => exact Machine.create_settled hg hm
  | call c _ ih => exact (c.perform_settled ih).finalState

namespace Machine

/-- Request a stop `k` times. -/
def requestStops : Nat → MachineM Unit
  | 0 => pure ()
  | k + 1 => do
    requestStop
    requestStops k

/-- `k` requests on a settled machine queue `k` more requests. -/
theorem requestStops_run (k : Nat) : ∀ {m : Machine} {p : Nat}, m.board.interrupts = stopLine p →
    (requestStops k).run m = .ok () { m with board := { m.board with interrupts := stopLine (p + k) } } := by
  induction k with
  | zero =>
    intro m p h
    show EStateM.Result.ok () m = _
    rw [Nat.add_zero, ← h]
  | succ k ih =>
    intro m p h
    have h₁ : ({ m with board := { m.board with interrupts := stopLine (p + 1) } } : Machine).board.interrupts =
        stopLine (p + 1) := rfl
    rw [requestStops, EStateM.run_bind, requestStop_run h]
    dsimp only
    rw [ih h₁, Nat.add_right_comm, Nat.add_assoc]

/-- A run on a settled machine with stops waiting delivers them all, ends
interrupted before any instruction, and leaves the processor as it was and the
board as it was apart from the log, with no stop waiting. -/
theorem run_of_waiting {p : Nat} (hp : 0 < p) (h : m.board.interrupts = stopLine p)
    (hcpu : m.cpu.stopRequested = false) (limit : Option Int) :
    ∃ m', (Machine.run limit).run m = .ok .interrupted m' ∧ m'.cpu = m.cpu ∧
      ({ m.board with interrupts := stopLine 0 } : Board).SameButLog m'.board := by
  have hs : Machine.bus.service m.cpu.pc m.board = (true, (Board.service m.cpu.pc m.board).2) := by
    refine Prod.ext ?_ rfl
    show (!m.board.interrupts.calls.isEmpty) = true
    rw [h, Controller.calls_stopLine]
    cases p with
    | zero => omega
    | succ q => rfl
  have hsvc := Board.service_sameButLog m.cpu.pc m.board
  rw [h, Controller.service_stopLine] at hsvc
  unfold Machine.run
  rw [EStateM.run_bind, Computer.run_round _ _ _ hs]
  simp only [Bool.or_true, if_true]
  exact ⟨_, rfl, Cpu.withdraw_of_not_requested hcpu, hsvc.relog _⟩

end Machine

/-- Stop requests end the next run at once.  From a reachable machine, `k ≥ 1`
requests and a run with any limit end interrupted; the processor is as it was,
no instruction executed, and the board is as it was apart from the log, with
every waiting request delivered, so that none waits after.  When none waited
before the requests, the board is as it was apart from the log, and a
following run with any limit does what it does from the machine before the
requests: the same outcome or fault and the same processor, on boards that
differ in their logs alone. -/
theorem stop_requests_end_next_run {g : Geometry} {m : Machine} (hm : Reachable g m) {k : Nat}
    (hk : 0 < k) (limit : Option Int) :
    ∃ m', (Machine.requestStops k >>= fun _ => Machine.run limit).run m = .ok .interrupted m' ∧
      m'.cpu = m.cpu ∧
      ({ m.board with interrupts := m.board.interrupts.service.2 } : Board).SameButLog m'.board ∧
      m'.board.interrupts.calls = [] ∧
      (m.board.interrupts.calls = [] →
        m.board.SameButLog m'.board ∧
        ∀ limit' : Option Int,
          Agrees (Computer.Twins Board.SameButLog (fun _ => True)) (fun _ => False) (fun _ => True)
            ((Machine.run limit').run m) ((Machine.run limit').run m')) := by
  obtain ⟨⟨-, p, hp⟩, hcpu⟩ := hm.settled
  -- the requests only queue; the run then finds `p + k` of them waiting
  have hqueued : ({ m with board := { m.board with interrupts := stopLine (p + k) } } : Machine).board.interrupts =
      stopLine (p + k) := rfl
  obtain ⟨m', hrun, hcpu', hb'⟩ := Machine.run_of_waiting (by omega) hqueued hcpu limit
  have hdrained : ({ m.board with interrupts := m.board.interrupts.service.2 } : Board).SameButLog m'.board := by
    rw [hp, Controller.service_stopLine]
    exact hb'
  refine ⟨m', ?_, hcpu', hdrained, ?_, fun hnone => ?_⟩
  · rw [EStateM.run_bind, Machine.requestStops_run k hp]
    exact hrun
  · rw [hb'.interrupts]
    exact Controller.calls_stopLine 0
  · -- with nothing waiting before the requests, delivering left the controller as it was
    have hp0 : p = 0 := by
      rw [hp, Controller.calls_stopLine, List.replicate_eq_nil_iff] at hnone
      exact hnone
    have hkeep : ({ m.board with interrupts := m.board.interrupts.service.2 } : Board) = m.board := by
      have hservice : m.board.interrupts.service.2 = m.board.interrupts := by
        rw [hp, Controller.service_stopLine, hp0]
      rw [hservice]
    rw [hkeep] at hdrained
    exact ⟨hdrained, fun limit' => Machine.run_log_blind limit' hcpu'.symm hdrained⟩

/-- On a reachable machine of the small geometry, a stop request ends a run
without a limit at once. -/
theorem stop_requests_end_next_run_small : ∃ m : Machine, Reachable smallGeometry m ∧ 0 < 1 ∧
    ∃ m', (Machine.requestStops 1 >>= fun _ => Machine.run none).run m = .ok .interrupted m' ∧
      m'.cpu = m.cpu ∧
      ({ m.board with interrupts := m.board.interrupts.service.2 } : Board).SameButLog m'.board ∧
      m'.board.interrupts.calls = [] ∧
      (m.board.interrupts.calls = [] →
        m.board.SameButLog m'.board ∧
        ∀ limit' : Option Int,
          Agrees (Computer.Twins Board.SameButLog (fun _ => True)) (fun _ => False) (fun _ => True)
            ((Machine.run limit').run m) ((Machine.run limit').run m')) := by
  obtain ⟨m, hm⟩ := Reachable.small
  exact ⟨m, hm, Nat.one_pos, stop_requests_end_next_run hm Nat.one_pos none⟩

/-- A stop that waits when the requests are made is delivered with them.  After
a request and a single step, which delivers nothing, a stop waits; one more
request and a run then leave none waiting, so the board differs from the one
before the request in more than its log. -/
theorem stop_request_consumes_waiting_stop : ∃ m : Machine, Reachable smallGeometry m ∧
    ∃ m', (Machine.requestStops 1 >>= fun _ => Machine.run (some 3)).run m = .ok .interrupted m' ∧
      m.board.interrupts.calls ≠ [] ∧ m'.board.interrupts.calls = [] ∧ ¬ m.board.SameButLog m'.board := by
  obtain ⟨m₀, hm₀⟩ : ∃ m, Machine.create smallGeometry .fifo none false {} = .ok m := ⟨_, rfl⟩
  have hcount : ((Machine.create smallGeometry .fifo none false {}).map fun m =>
      (Call.performAll [.stop, .step] m).board.interrupts.calls.length) = .ok 1 := by
    decide +kernel
  rw [hm₀] at hcount
  have hreach : Reachable smallGeometry (Call.performAll [.stop, .step] m₀) :=
    .call .step (.call .stop (.create rfl hm₀))
  obtain ⟨⟨-, p, hp⟩, hcpu⟩ := hreach.settled
  have hwaits : (Call.performAll [.stop, .step] m₀).board.interrupts.calls ≠ [] := by
    have hlength : (Call.performAll [.stop, .step] m₀).board.interrupts.calls.length = 1 :=
      Except.ok.inj hcount
    intro hnil
    rw [hnil] at hlength
    cases hlength
  have hqueued : ({ Call.performAll [.stop, .step] m₀ with
      board := { (Call.performAll [.stop, .step] m₀).board with interrupts := stopLine (p + 1) } } :
        Machine).board.interrupts = stopLine (p + 1) := rfl
  obtain ⟨m', hrun, -, hb'⟩ := Machine.run_of_waiting (by omega) hqueued hcpu (some 3)
  have hnone : m'.board.interrupts.calls = [] := by
    rw [hb'.interrupts]
    exact Controller.calls_stopLine 0
  refine ⟨_, hreach, m', ?_, hwaits, hnone, fun hsame => hwaits ?_⟩
  · rw [EStateM.run_bind, Machine.requestStops_run 1 hp]
    exact hrun
  · rw [← hsame.interrupts]
    exact hnone

end DemandPaging
