import DemandPaging.Proofs.Optimality
import DemandPaging.Proofs.Transparency
import DemandPaging.Command.Session

/-!
# Replaying a recorded run

Without a trace file, the optimal policy replays the pages touched by a first
run of the program on a FIFO machine that records them (`Command.traceFor`).
Both runs make the same accesses.  Each runs as the program runs on flat
memory (`DemandPaging.Proofs.Simulation`), so each is related, access by
access, to one run on flat memory that keeps a ghost history of its accesses
(`Bus.recorded`).  Beside the mirror, `Board.Tracks` keeps the pager's side of
every access: the pages served so far as a run of the cache of
`DemandPaging.Proofs.Farthest`, and what the policy knows of them.  A
`Discipline` says the latter once for each machine: the recording for the
FIFO machine, the position in the trace for the optimal one.

When both runs halt, they end related to the same flat run.  So the pages the
optimal machine served are those the recorder wrote down, each of its victims
was farthest ahead in them, and it faulted no more often
(`replay_faults_at_most_recorded`).  A run asked to stop as it starts is
interrupted before its first instruction and never halts
(`Command.loadAndRun_stopped`).
-/

namespace DemandPaging

theorem Board.tally_eq {b b' : Board} (h : b'.tally = b.tally) :
    b'.owners = b.owners ∧ b'.policy = b.policy ∧ b'.stats.faults = b.stats.faults ∧
      b'.recording = b.recording := by
  simpa only [Board.tally, Prod.mk.injEq] using h

/-! ## What a policy keeps of the pages served -/

/-- What a policy does at an access, seen from the pages served so far: `P l b`
holds of a board that has served the pages `l`; an access that returns keeps
it and is a step of the cache whose victim `ok` allows; and `P` reads the
board's tally alone. -/
structure Discipline where
  ok : Nat → Finset Occupant → Occupant → Prop
  P : List Int → Board → Prop
  answer : ∀ {l : List Int} {b b' : Board} {v : Int}, b.Consistent → P l b → b.Answers v b' →
    P (l ++ [v]) b' ∧ ∃ δ, b'.stats.faults = b.stats.faults + δ ∧
      Cache.Step ok l.length b.occupants (.page v) b'.occupants δ
  tally : ∀ {l : List Int} {b b' : Board}, b'.tally = b.tally → P l b → P l b'

namespace Discipline

/-- A machine that records the pages it touches, under any policy: its
recording holds the pages served. -/
def recording : Discipline where
  ok := Cache.anyVictim
  P l b := b.recording = some l.toArray
  answer _ hp ha := ⟨by rw [ha.2.1, hp]; simp, Board.answers_any ha _⟩
  tally ht hp := (Board.tally_eq ht).2.2.2.trans hp

/-- A machine replaying the trace `t` with the optimal policy: its position in
`t` is the number of pages served, and each victim is used farthest ahead in
`t`. -/
def replaying (t : List Int) : Discipline where
  ok := Cache.FarthestIn (t.map .page)
  P l b := b.policy = .optimal (TraceIndex.build t) l.length
  answer hc hp ha := by
    obtain ⟨hpol, hstep⟩ := Board.answers_farthest hc hp ha
    exact ⟨by rw [hpol, List.length_append, List.length_singleton], hstep⟩
  tally ht hp := (Board.tally_eq ht).2.1.trans hp

end Discipline

namespace Board

variable {b b' : Board} {d : Discipline} {C₀ : Finset Occupant} {l : List Int}

/-- The board has served the pages `l` in turn under the discipline `d`, from
a cache holding `C₀`, each miss one of the faults it counted. -/
def Served (d : Discipline) (C₀ : Finset Occupant) (l : List Int) (b : Board) : Prop :=
  d.P l b ∧ Cache.Serves d.ok 0 C₀ (l.map .page) b.occupants b.stats.faults

/-- An access that returns serves one page more. -/
theorem Served.answer {v : Int} (h : b.Served d C₀ l) (hc : b.Consistent) (ha : b.Answers v b') :
    b'.Served d C₀ (l ++ [v]) := by
  obtain ⟨hp, hs⟩ := h
  obtain ⟨hp', δ, hfa, hstep⟩ := d.answer hc hp ha
  refine ⟨hp', ?_⟩
  rw [hfa, List.map_append, List.map_singleton]
  exact hs.snoc (by rwa [Nat.zero_add, List.length_map])

theorem Served.of_tally (h : b.Served d C₀ l) (ht : b'.tally = b.tally) : b'.Served d C₀ l := by
  obtain ⟨ho, -, hfa, -⟩ := tally_eq ht
  refine ⟨d.tally ht h.1, ?_⟩
  show Cache.Serves d.ok 0 C₀ (l.map .page) (occupancy b'.owners) b'.stats.faults
  rw [ho, hfa]
  exact h.2

/-! ## Loading a program -/

/-- The pages of the addresses `start`, `start + 1`, ... at which words are
stored in turn. -/
def storedPages (size start : Int) : List Int → List Int
  | [] => []
  | _ :: ws => start.fdiv size :: storedPages size (start + 1) ws

/-- Storing words serves the page of each address in turn.  Induction on the
words. -/
theorem storeWords_served (start : Int) (ws : List Int) :
    ∀ {b b' : Board} {l : List Int} {u : Unit}, b.Consistent → b.Served d C₀ l →
      (storeWords start ws).run b = .ok u b' →
      b'.Served d C₀ (l ++ storedPages b.geometry.pageSize start ws) := by
  induction ws generalizing start with
  | nil =>
    intro b b' l u _ h hrun
    cases hrun
    simpa only [storedPages, List.append_nil] using h
  | cons w ws ih =>
    intro b b' l u hc h hrun
    have hw := writeWord_step hc start w
    simp only [storeWords, EStateM.run_bind] at hrun
    cases hr : (writeWord start w).run b with
    | error e b₁ =>
      rw [hr] at hrun
      cases hrun
    | ok _ b₁ =>
      rw [hr] at hw hrun
      obtain ⟨-, hans, hk⟩ := hw
      have h₁ := ih (start + 1) hk.consistent (h.answer hc hans) hrun
      rw [hk.geometry, List.append_assoc] at h₁
      exact h₁

theorem loadProgram_served {words : List Int} {n : Nat} (hc : b.Consistent) (h : b.Served d C₀ l)
    (hrun : (loadProgram words).run b = .ok n b') :
    b'.Served d C₀ (l ++ storedPages b.geometry.pageSize 0 words) := by
  simp only [loadProgram, EStateM.run_bind] at hrun
  cases hs : (storeWords 0 words).run b with
  | error e b₁ =>
    rw [hs] at hrun
    cases hrun
  | ok u b₁ =>
    rw [hs] at hrun
    -- the line logged after the words changes nothing served
    simp only [note, EStateM.run_modify] at hrun
    cases hrun
    exact (storeWords_served 0 words hc h hs).of_tally rfl

end Board

/-! ## Tracking a flat memory that records its accesses -/

/-- The address of an access. -/
def Access.address : Access → Int
  | .read a _ => a
  | .write a _ => a

/-- The pages of the accesses of a history, oldest first. -/
def Access.pages (size : Int) (h : List Access) : List Int :=
  h.reverse.map fun x => x.address.fdiv size

theorem Access.pages_cons (size : Int) (x : Access) (h : List Access) :
    pages size (x :: h) = pages size h ++ [x.address.fdiv size] := by
  simp [pages]

namespace FlatMemory

variable {size pages a : Int} {m m' : FlatMemory} {e : Fault}

theorem boundedBus_read_error (h : ((boundedBus size pages).read a).run m = .error e m') :
    ∃ x, e = .addressBeyondSpace a x := by
  by_cases ha : 0 ≤ a ∧ a < size
  · rw [boundedBus_read_of_mem ha] at h
    cases h
  · rw [boundedBus_read_of_not_mem ha] at h
    cases h
    exact ⟨_, rfl⟩

theorem boundedBus_write_error {v : Int} (h : ((boundedBus size pages).write a v).run m = .error e m') :
    ∃ x, e = .addressBeyondSpace a x := by
  by_cases ha : 0 ≤ a ∧ a < size
  · rw [boundedBus_write_of_mem ha] at h
    cases h
  · rw [boundedBus_write_of_not_mem ha] at h
    cases h
    exact ⟨_, rfl⟩

end FlatMemory

namespace Board

variable {b b' : Board} {d : Discipline} {C₀ : Finset Occupant} {g : Geometry} {pre : List Int}

/-- The board mirrors the flat memory of `s`, and has served the pages `pre`
and then those of the accesses in the history of `s`. -/
structure Tracks (g : Geometry) (d : Discipline) (C₀ : Finset Occupant) (pre : List Int)
    (b : Board) (s : FlatMemory × List Access) : Prop where
  mirrors : b.Mirrors g s.1
  served : b.Served d C₀ (pre ++ Access.pages g.pageSize s.2)

theorem Tracks.log {s : FlatMemory × List Access} (h : b.Tracks g d C₀ pre s) (l : Log) :
    ({ b with log := l } : Board).Tracks g d C₀ pre s :=
  ⟨h.mirrors.log l s.1.log, h.served.of_tally rfl⟩

/-- An access refused as outside the space leaves the tally. -/
theorem Fails.tally {a : Int} {e : Fault} (h : b.Fails a e b')
    (he : ∃ x, e = .addressBeyondSpace a x) : b'.tally = b.tally := by
  obtain ⟨x, rfl⟩ := he
  rcases h with ⟨-, -, ht⟩ | ⟨he, -⟩ | ⟨c, he⟩
  · exact ht
  · cases he
  · cases he

/-- An access of the board in step with a flat access keeps the tracking of
that access recorded: one that returns is served as the pager serves the page
of its address, and one that fails on both sides leaves the tally. -/
theorem Tracks.access {α : Type} {act : BoardM α} {fact : EStateM Fault FlatMemory α}
    {note : α → Access} {spared : Fault → Prop} {s : FlatMemory × List Access}
    (h : b.Tracks g d C₀ pre s)
    (hm : Agrees (Mirrors g) spared (fun _ => True) (act.run b) (fact.run s.1))
    (hok : ∀ x b', act.run b = .ok x b' → b.Answers ((note x).address.fdiv g.pageSize) b')
    (herr : ∀ e b' f', act.run b = .error e b' → fact.run s.1 = .error e f' →
      b'.tally = b.tally) :
    Agrees (Tracks g d C₀ pre) spared (fun _ => True) (act.run b) ((record fact note).run s) := by
  show Agrees _ _ _ _ (record fact note s)
  unfold record
  cases hr : act.run b with
  | ok x b' =>
    rw [hr] at hm
    obtain ⟨-, f', hf, hmir⟩ := hm
    rw [hf]
    refine ⟨trivial, _, rfl, hmir, ?_⟩
    show b'.Served d C₀ (pre ++ Access.pages g.pageSize (note x :: s.2))
    rw [Access.pages_cons, ← List.append_assoc]
    exact h.served.answer h.mirrors.sane.1 (hok x b' hr)
  | error e b' =>
    rw [hr] at hm
    rcases hm with hs | ⟨f', hf, hmir⟩
    · exact .inl hs
    · rw [hf]
      exact .inr ⟨_, rfl, hmir, h.served.of_tally (herr e b' f' hr hf)⟩

end Board

/-- The pager keeps in step with flat memory cut to its space and recording its
accesses: the mirror as in `Machine.bus_lockstep`, and each access that
returns served as the pager serves its page, under any discipline. -/
theorem Machine.bus_tracks {g : Geometry} (hV : 0 < g.virtualPages) (d : Discipline)
    (C₀ : Finset Occupant) (pre : List Int) :
    Machine.bus.Lockstep (FlatMemory.boundedBus g.addressSpace g.virtualPages).recorded
      (Board.Tracks g d C₀ pre) IsWord (fun e => ∃ cap, e = .swapFull cap) where
  read a b s h ha := by
    have hstep := Board.readWord_step h.mirrors.sane.1 a
    refine h.access ((Machine.bus_lockstep hV).read a b s.1 h.mirrors ha)
      (fun x b' hr => ?_) (fun e b' f' hr hf => ?_)
    · have hr' : (Board.readWord a).run b = .ok x b' := hr
      rw [hr', h.mirrors.sane.2] at hstep
      exact hstep.2.1
    · have hr' : (Board.readWord a).run b = .error e b' := hr
      rw [hr'] at hstep
      exact hstep.tally (FlatMemory.boundedBus_read_error hf)
  write a v b s h ha _ := by
    have hstep := Board.writeWord_step h.mirrors.sane.1 a v
    refine h.access ((Machine.bus_lockstep hV).write a v b s.1 h.mirrors ha ‹_›)
      (fun x b' hr => ?_) (fun e b' f' hr hf => ?_)
    · have hr' : (Board.writeWord a v).run b = .ok x b' := hr
      rw [hr', h.mirrors.sane.2] at hstep
      exact hstep.2.1
    · have hr' : (Board.writeWord a v).run b = .error e b' := hr
      rw [hr'] at hstep
      exact hstep.tally (FlatMemory.boundedBus_write_error hf)
  trace e b s h := ⟨(Machine.bus_lockstep hV).trace e b s.1 h.mirrors, h.served.of_tally rfl⟩
  service pc b s h := by
    obtain ⟨hstop, hmir⟩ := (Machine.bus_lockstep hV).service pc b s.1 h.mirrors
    refine ⟨hstop, hmir, h.served.of_tally ?_⟩
    -- servicing changes the log and the interrupts alone
    show (Board.service pc b).2.tally = b.tally
    rw [Board.service_aside pc b]
    rfl

/-- A run of the machine keeps in step with the run on flat memory that records
its accesses, under any discipline. -/
theorem Machine.run_tracks {g : Geometry} (hV : 0 < g.virtualPages) {d : Discipline}
    {C₀ : Finset Occupant} {pre : List Int} (limit : Option Int) {m : Machine}
    {c : Computer (FlatMemory × List Access)} (h : Computer.Twins (Board.Tracks g d C₀ pre) IsWord m c) :
    Agrees (Computer.Twins (Board.Tracks g d C₀ pre) IsWord) (fun e => ∃ cap, e = .swapFull cap)
      (fun _ => True) ((Machine.run limit).run m)
      ((Computer.run (FlatMemory.boundedBus g.addressSpace g.virtualPages).recorded
        (budgetOf limit)).run c) :=
  Machine.run_lockstep (Machine.bus_tracks hV d C₀ pre) (fun _ _ l h => h.log l) limit h

/-! ## A new machine, loaded -/

/-- Loading a program changes the board alone, as `Board.loadProgram_spec`
says. -/
theorem Machine.loadProgram_run {m m₁ : Machine} {program : List Int} {n : Nat}
    (h : (Machine.loadProgram program).run m = .ok n m₁) :
    m₁ = { m with board := m₁.board } ∧ (Board.loadProgram program).run m.board = .ok n m₁.board := by
  rw [Machine.loadProgram, Machine.onBoard_run] at h
  cases hr : (Board.loadProgram program).run m.board with
  | error e b' =>
    rw [hr] at h
    cases h
  | ok n' b' =>
    rw [hr] at h
    cases h
    exact ⟨rfl, rfl⟩

/-- The interrupt controller of a new board: the stop vector with its handler,
nothing waiting. -/
theorem Machine.create_interrupts {g : Geometry} {kind : PolicyKind} {trace : Option (List Int)}
    {record : Bool} {log : Log} {m : Machine} (h : Machine.create g kind trace record log = .ok m) :
    m.board.interrupts = { vectors := [{ number := stopVector, handler := some .stop }] } := by
  obtain ⟨b, hb, -, hm⟩ := Machine.create_ok h
  rw [hm]
  exact (Board.create_ok hb).2.2

/-- A new machine that has loaded a program is in step with flat memory holding
the program's words and no access recorded, having served the pages of the
program's addresses from empty frames, under a discipline that holds of it
new. -/
theorem Machine.load_tracks {g : Geometry} {kind : PolicyKind} {trace : Option (List Int)}
    {record : Bool} {log : Log} {m m₁ : Machine} {program : List Int} {n : Nat} {d : Discipline}
    (hg : g.validate = .ok g) (hm : Machine.create g kind trace record log = .ok m)
    (hd : d.P [] m.board) (hload : (Machine.loadProgram program).run m = .ok n m₁) :
    Computer.Twins
      (Board.Tracks g d (occupancy (Array.replicate g.frames.toNat none)) (Board.storedPages g.pageSize 0 program))
      IsWord m₁ ⟨m.cpu, (FlatMemory.ofCells (FlatMemory.cellsFrom 0 (program.map wrapWord)) {}, [])⟩ := by
  have hsane := Machine.create_sane hg hm
  obtain ⟨hocc, hfa, -, -⟩ := Machine.create_start hm
  obtain ⟨-, -, hcpu, -⟩ := Machine.create_ok hm
  obtain ⟨hm₁, hr⟩ := Machine.loadProgram_run hload
  have hspec := Board.loadProgram_spec hsane.1 program
  rw [hr] at hspec
  obtain ⟨hk, hc⟩ := hspec
  have hserved : m.board.Served d (occupancy (Array.replicate g.frames.toNat none)) [] :=
    ⟨hd, by rw [hocc, hfa]; exact .nil 0 _⟩
  have h₁ := Board.loadProgram_served hsane.1 hserved hr
  rw [hsane.2, List.nil_append] at h₁
  rw [hm₁]
  refine ⟨rfl, Cpu.create_within hcpu, ⟨⟨hk.consistent, hk.geometry.trans hsane.2⟩, ?_, fun a _ _ => ?_⟩, ?_⟩
  · rw [hk.interrupts]
    exact Machine.create_quiet hm
  · show m₁.board.contents a = (FlatMemory.ofCells (FlatMemory.cellsFrom 0 (program.map wrapWord)) {}).read a
    rw [hc, Machine.create_contents hm, FlatMemory.read_ofCells_cellsFrom]
  · show m₁.board.Served d _ (Board.storedPages g.pageSize 0 program ++ Access.pages g.pageSize [])
    simpa [Access.pages] using h₁

/-! ## Stop requests -/

/-- A run that finds a stop waiting ends interrupted before any instruction. -/
theorem Machine.run_interrupted {m : Machine} (limit : Option Int)
    (h : m.board.interrupts.calls ≠ []) : ∃ m', (Machine.run limit).run m = .ok .interrupted m' := by
  have hs : Machine.bus.service m.cpu.pc m.board = (true, (Board.service m.cpu.pc m.board).2) := by
    refine Prod.ext ?_ rfl
    show (!m.board.interrupts.calls.isEmpty) = true
    simpa [List.isEmpty_iff] using h
  unfold Machine.run
  rw [EStateM.run_bind, Computer.run_round _ _ _ hs]
  simp only [Bool.or_true, if_true]
  exact ⟨_, rfl⟩

/-- A stop request on the controller of a new board queues one request on the
stop vector and changes nothing else. -/
theorem Machine.requestStop_initial {m : Machine}
    (h : m.board.interrupts = { vectors := [{ number := stopVector, handler := some .stop }] }) :
    Machine.requestStop.run m = .ok () { m with board := { m.board with
      interrupts := { vectors := [{ number := stopVector, handler := some .stop, pending := 1 }] } } } := by
  rw [Machine.requestStop, Machine.onBoard_run]
  simp only [EStateM.run_bind, EStateM.run_get, h]
  have hraise : Controller.raise { vectors := [{ number := stopVector, handler := some Handler.stop }] }
      stopVector = .ok { vectors := [{ number := stopVector, handler := some .stop, pending := 1 }] } :=
    rfl
  rw [hraise]
  simp only [Board.ofExcept_run_ok, EStateM.run_set]

/-- A stop request on the controller of a new board leaves a stop waiting. -/
theorem Machine.requestStop_waits {m m₂ : Machine}
    (h : m.board.interrupts = { vectors := [{ number := stopVector, handler := some .stop }] })
    (hrun : Machine.requestStop.run m = .ok () m₂) : m₂.board.interrupts.calls ≠ [] := by
  rw [Machine.requestStop_initial h] at hrun
  cases hrun
  exact List.cons_ne_nil _ _

namespace Command

/-- A load and run that returns loaded the program, then, if asked to stop,
queued the stop request, and then ran. -/
theorem loadAndRun_ok {m m' : Machine} {program : List Int} {stops : Bool} {o : Outcome}
    (h : loadAndRun m program stops = (.ok o, m')) :
    ∃ n m₁, (Machine.loadProgram program).run m = .ok n m₁ ∧
      ((stops = false ∧ (Machine.run none).run m₁ = .ok o m') ∨
        (stops = true ∧ ∃ m₂, Machine.requestStop.run m₁ = .ok () m₂ ∧
          (Machine.run none).run m₂ = .ok o m')) := by
  cases hl : (Machine.loadProgram program).run m with
  | error e m₁ =>
    cases stops <;> simp [loadAndRun, EStateM.run_bind, hl] at h
  | ok n m₁ =>
    refine ⟨n, m₁, rfl, ?_⟩
    cases stops with
    | false =>
      simp only [loadAndRun, EStateM.run_bind, hl, Bool.false_eq_true, ite_false] at h
      cases hr : (Machine.run none).run m₁ with
      | ok o' m'' =>
        rw [hr] at h
        cases h
        exact .inl ⟨rfl, rfl⟩
      | error e m'' =>
        rw [hr] at h
        cases h
    | true =>
      simp only [loadAndRun, EStateM.run_bind, hl, ite_true] at h
      cases hs : Machine.requestStop.run m₁ with
      | error e m₂ =>
        rw [hs] at h
        cases h
      | ok u m₂ =>
        rw [hs] at h
        dsimp only at h
        cases hr : (Machine.run none).run m₂ with
        | ok o' m'' =>
          rw [hr] at h
          cases h
          exact .inr ⟨rfl, m₂, rfl, hr⟩
        | error e m'' =>
          rw [hr] at h
          cases h

/-- A load and run that fails failed loading the program, or, once it was
loaded, queueing the stop request if asked to stop, or running. -/
theorem loadAndRun_error {m m' : Machine} {program : List Int} {stops : Bool} {f : Fault}
    (h : loadAndRun m program stops = (.error f, m')) :
    (Machine.loadProgram program).run m = .error f m' ∨
    ∃ n m₁, (Machine.loadProgram program).run m = .ok n m₁ ∧
      ((stops = false ∧ (Machine.run none).run m₁ = .error f m') ∨
        (stops = true ∧ (Machine.requestStop.run m₁ = .error f m' ∨
          ∃ m₂, Machine.requestStop.run m₁ = .ok () m₂ ∧
            (Machine.run none).run m₂ = .error f m'))) := by
  cases hl : (Machine.loadProgram program).run m with
  | error e m₁ =>
    cases stops <;> simp only [loadAndRun, EStateM.run_bind, hl, Prod.mk.injEq] at h <;>
      obtain ⟨⟨rfl, -⟩, rfl⟩ := h <;> exact .inl rfl
  | ok n m₁ =>
    refine .inr ⟨n, m₁, rfl, ?_⟩
    cases stops with
    | false =>
      simp only [loadAndRun, EStateM.run_bind, hl, Bool.false_eq_true, ite_false] at h
      cases hr : (Machine.run none).run m₁ with
      | ok o m'' =>
        rw [hr] at h
        cases h
      | error e m'' =>
        rw [hr] at h
        cases h
        exact .inl ⟨rfl, rfl⟩
    | true =>
      simp only [loadAndRun, EStateM.run_bind, hl, ite_true] at h
      cases hs : Machine.requestStop.run m₁ with
      | error e m₂ =>
        rw [hs] at h
        cases h
        exact .inr ⟨rfl, .inl rfl⟩
      | ok u m₂ =>
        rw [hs] at h
        dsimp only at h
        cases hr : (Machine.run none).run m₂ with
        | ok o m'' =>
          rw [hr] at h
          cases h
        | error e m'' =>
          rw [hr] at h
          cases h
          exact .inr ⟨rfl, .inr ⟨m₂, rfl, hr⟩⟩

/-- A new machine asked to stop as its run starts is interrupted before its
first instruction: a load and run of it that returns ends interrupted. -/
theorem loadAndRun_stopped {g : Geometry} {kind : PolicyKind} {trace : Option (List Int)}
    {record : Bool} {log : Log} {m m' : Machine} {program : List Int} {o : Outcome}
    (hg : g.validate = .ok g) (hm : Machine.create g kind trace record log = .ok m)
    (h : loadAndRun m program true = (.ok o, m')) : o = .interrupted := by
  obtain ⟨n, m₁, hload, hgo⟩ := loadAndRun_ok h
  rcases hgo with ⟨hf, -⟩ | ⟨-, m₂, hstop, hrun⟩
  · cases hf
  · -- the load leaves the controller as the machine was made
    obtain ⟨hm₁, hr⟩ := Machine.loadProgram_run hload
    have hspec := Board.loadProgram_spec (Machine.create_sane hg hm).1 program
    rw [hr] at hspec
    have hint := hspec.1.interrupts.trans (Machine.create_interrupts hm)
    obtain ⟨m'', hm''⟩ := Machine.run_interrupted none (Machine.requestStop_waits hint hstop)
    rw [hm''] at hrun
    cases hrun
    rfl

/-- A load and run of a new machine that halts was not asked to stop: it
loaded the program and ran it to its halt. -/
theorem loadAndRun_halted {g : Geometry} {kind : PolicyKind} {trace : Option (List Int)}
    {record : Bool} {log : Log} {m m' : Machine} {program : List Int} {stops : Bool}
    (hg : g.validate = .ok g) (hm : Machine.create g kind trace record log = .ok m)
    (h : loadAndRun m program stops = (.ok .halted, m')) :
    stops = false ∧ ∃ n m₁, (Machine.loadProgram program).run m = .ok n m₁ ∧
      (Machine.run none).run m₁ = .ok .halted m' := by
  obtain ⟨n, m₁, hload, hgo⟩ := loadAndRun_ok h
  rcases hgo with ⟨hs, hrun⟩ | ⟨rfl, -⟩
  · exact ⟨hs, n, m₁, hload, hrun⟩
  · cases loadAndRun_stopped hg hm h

end Command

/-! ## The replay faults no more often than the recording run -/

/-- Without a trace file, the optimal machine replays the pages a FIFO machine
recorded while running the program.  If both runs halt, the replay has used
the whole trace, one position for each page it served, and it faulted no more
often than the recording run.  Both runs keep in step with one flat run with a
ghost history, so both served the pages that the history and the load show:
the recorder wrote them down, and the replay evicted farthest ahead in them. -/
theorem replay_faults_at_most_recorded {g : Geometry} {program : List Int} {stops : Bool} {log : Log}
    {recorder r m m' : Machine} (hg : g.validate = .ok g)
    (hrec : Machine.create g .fifo none true {} = .ok recorder)
    (hrun : Command.loadAndRun recorder program stops = (.ok .halted, r))
    (hm : Machine.create g .optimal (some r.accessTrace) false log = .ok m)
    (hrun' : Command.loadAndRun m program stops = (.ok .halted, m')) :
    m'.board.policy = .optimal (TraceIndex.build r.accessTrace) r.accessTrace.length ∧
      m'.board.stats.faults ≤ r.board.stats.faults := by
  have hV := (Geometry.validate_pos hg).2.2
  obtain ⟨-, n₁, r₁, hload, hrun₁⟩ := Command.loadAndRun_halted hg hrec hrun
  obtain ⟨-, n₂, m₁, hload', hrun₁'⟩ := Command.loadAndRun_halted hg hm hrun'
  -- both machines start from the same processor, in step with the same flat memory
  have hcpu : recorder.cpu = m.cpu := by
    obtain ⟨-, -, h₁, -⟩ := Machine.create_ok hrec
    obtain ⟨-, -, h₂, -⟩ := Machine.create_ok hm
    exact Except.ok.inj (h₁.symm.trans h₂)
  obtain ⟨-, -, -, hrecording⟩ := Machine.create_start hrec
  obtain ⟨-, -, hpolicy, -⟩ := Machine.create_start hm
  have hdR : Discipline.recording.P [] recorder.board := by
    show recorder.board.recording = some [].toArray
    rw [hrecording]
    rfl
  have hdO : (Discipline.replaying r.accessTrace).P [] m.board := by
    simp only [Policy.create, Except.ok.injEq] at hpolicy
    exact hpolicy.symm
  have hR := Machine.run_tracks hV none (Machine.load_tracks hg hrec hdR hload)
  have hO := Machine.run_tracks hV none (Machine.load_tracks hg hm hdO hload')
  rw [hrun₁] at hR
  rw [hrun₁', ← hcpu] at hO
  obtain ⟨-, c, hflat, -, -, hRc⟩ := hR
  obtain ⟨-, c', hflat', -, -, hOc⟩ := hO
  rw [hflat] at hflat'
  cases hflat'
  -- both served the pages of the load and of the one history
  obtain ⟨hrecorded, hsR⟩ := hRc.served
  obtain ⟨hposition, hsO⟩ := hOc.served
  have htrace : r.accessTrace = Board.storedPages g.pageSize 0 program ++ Access.pages g.pageSize c.board.2 := by
    simp only [Discipline.recording] at hrecorded
    simp [Machine.accessTrace, hrecorded]
  refine ⟨by rw [htrace] at hposition ⊢; exact hposition, ?_⟩
  have hpre : (r.accessTrace.map Occupant.page) <+: (r.accessTrace.map Occupant.page).drop 0 :=
    List.prefix_refl _
  rw [htrace] at hpre hsO
  exact Cache.farthest_fewest_misses _ hpre hsO hsR

/-! ## The optimal policy faults least -/

/-- The optimal policy is optimal.  Made in turn on three new machines of one
geometry (FIFO, second chance, and optimal replaying the pages of the
requests), requests at addresses of the space that never fail for want of a
swap slot fault no more often on the optimal machine than on either other.
And a run of the command with the optimal policy and no trace file replays the
trace its FIFO run recorded: if both runs halt, the replay has used the whole
trace and faulted no more often than the recording run. -/
theorem optimal_policy_faults_fewest :
    (∀ {g : Geometry} {rs : List Request} {record : Bool} {log : Log} {mF mC mO : Machine},
      g.validate = .ok g → (∀ r ∈ rs, 0 ≤ r.address ∧ r.address < g.addressSpace) →
      Machine.create g .fifo none record log = .ok mF →
      Machine.create g .secondChance none record log = .ok mC →
      Machine.create g .optimal (some (rs.map (Request.page g.pageSize))) record log = .ok mO →
      (∀ m ∈ [mF, mC, mO], ∀ c m', (Request.performAll rs).run m ≠ .error (.swapFull c) m') →
      (finalState ((Request.performAll rs).run mO)).board.stats.faults ≤
          (finalState ((Request.performAll rs).run mF)).board.stats.faults ∧
        (finalState ((Request.performAll rs).run mO)).board.stats.faults ≤
          (finalState ((Request.performAll rs).run mC)).board.stats.faults) ∧
    (∀ {g : Geometry} {program : List Int} {stops : Bool} {log : Log} {recorder r m m' : Machine},
      g.validate = .ok g → Machine.create g .fifo none true {} = .ok recorder →
      Command.loadAndRun recorder program stops = (.ok .halted, r) →
      Machine.create g .optimal (some r.accessTrace) false log = .ok m →
      Command.loadAndRun m program stops = (.ok .halted, m') →
      m'.board.policy = .optimal (TraceIndex.build r.accessTrace) r.accessTrace.length ∧
        m'.board.stats.faults ≤ r.board.stats.faults) :=
  ⟨fun hg hin hF hC hO hspare => optimal_faults_least hg hin hF hC hO hspare,
    fun hg hrec hrun hm hrun' => replay_faults_at_most_recorded hg hrec hrun hm hrun'⟩

/-- The small geometry with a swap slot for every page. -/
def roomyGeometry : Geometry := { smallGeometry with swapSlots := 4 }

/-- Eight requests over the four pages of the small geometry. -/
def roomyRequests : List Request :=
  [.read 0, .read 4, .read 8, .read 0, .read 4, .read 12, .read 0, .write 8 1]

/-- Both halves at work: the eight requests on machines of two frames with a
swap slot for every page, and a program that loads a word of page 1 and halts,
run by the command's two machines on the small geometry. -/
theorem optimal_policy_faults_fewest_small :
    (∃ mF mC mO : Machine,
      Machine.create roomyGeometry .fifo none false {} = .ok mF ∧
        Machine.create roomyGeometry .secondChance none false {} = .ok mC ∧
        Machine.create roomyGeometry .optimal
            (some (roomyRequests.map (Request.page roomyGeometry.pageSize))) false {} = .ok mO ∧
        (finalState ((Request.performAll roomyRequests).run mO)).board.stats.faults ≤
            (finalState ((Request.performAll roomyRequests).run mF)).board.stats.faults ∧
          (finalState ((Request.performAll roomyRequests).run mO)).board.stats.faults ≤
            (finalState ((Request.performAll roomyRequests).run mC)).board.stats.faults) ∧
    (∃ recorder r m m' : Machine,
      Machine.create smallGeometry .fifo none true {} = .ok recorder ∧
        Command.loadAndRun recorder [740294660, 1073741824] false = (.ok .halted, r) ∧
        Machine.create smallGeometry .optimal (some r.accessTrace) false {} = .ok m ∧
        Command.loadAndRun m [740294660, 1073741824] false = (.ok .halted, m') ∧
        m'.board.policy = .optimal (TraceIndex.build r.accessTrace) r.accessTrace.length ∧
        m'.board.stats.faults ≤ r.board.stats.faults) := by
  refine ⟨?_, ?_⟩
  · obtain ⟨mF, hF⟩ : ∃ m, Machine.create roomyGeometry .fifo none false {} = .ok m := ⟨_, rfl⟩
    obtain ⟨mC, hC⟩ : ∃ m, Machine.create roomyGeometry .secondChance none false {} = .ok m :=
      ⟨_, rfl⟩
    obtain ⟨mO, hO⟩ : ∃ m, Machine.create roomyGeometry .optimal
        (some (roomyRequests.map (Request.page roomyGeometry.pageSize))) false {} = .ok m := ⟨_, rfl⟩
    -- with a slot for every page no request runs out of swap
    have hspare : ∀ m ∈ [mF, mC, mO], ∀ c m',
        (Request.performAll roomyRequests).run m ≠ .error (.swapFull c) m' := by
      intro m hm
      have hs : m.board.Sane roomyGeometry := by
        simp only [List.mem_cons, List.not_mem_nil, or_false] at hm
        rcases hm with rfl | rfl | rfl
        exacts [Machine.create_sane rfl hF, Machine.create_sane rfl hC, Machine.create_sane rfl hO]
      exact Request.performAll_spared (by decide) _ m hs
    exact ⟨mF, mC, mO, hF, hC, hO, optimal_policy_faults_fewest.1 rfl (by decide) hF hC hO hspare⟩
  · -- the kernel runs both machines to their halt; the check is written with
    -- eliminators, not `match`, so that it leaves no auxiliary matcher behind
    have key : Except.casesOn (motive := fun _ => Bool) (Machine.create smallGeometry .fifo none true {})
        (fun _ => false) (fun recorder =>
          Except.casesOn (motive := fun _ => Bool)
            (Command.loadAndRun recorder [740294660, 1073741824] false).1 (fun _ => false) fun o =>
              decide (o = .halted) &&
                Except.casesOn (motive := fun _ => Bool)
                  (Machine.create smallGeometry .optimal
                    (some (Command.loadAndRun recorder [740294660, 1073741824] false).2.accessTrace) false {})
                  (fun _ => false) fun m =>
                    Except.casesOn (motive := fun _ => Bool)
                      (Command.loadAndRun m [740294660, 1073741824] false).1 (fun _ => false) fun o' =>
                        decide (o' = .halted)) = true := by
      decide +kernel
    cases hrec : Machine.create smallGeometry .fifo none true {} with
    | error e =>
      rw [hrec] at key
      exact absurd key Bool.false_ne_true
    | ok recorder =>
      rw [hrec] at key
      dsimp only at key
      cases hrun : Command.loadAndRun recorder [740294660, 1073741824] false with
      | mk res r =>
        rw [hrun] at key
        cases res with
        | error e => exact absurd key Bool.false_ne_true
        | ok o =>
          dsimp only at key
          obtain ⟨ho, key⟩ := Bool.and_eq_true _ _ ▸ key
          cases of_decide_eq_true ho
          cases hm : Machine.create smallGeometry .optimal (some r.accessTrace) false {} with
          | error e =>
            rw [hm] at key
            exact absurd key Bool.false_ne_true
          | ok m =>
            rw [hm] at key
            dsimp only at key
            cases hrun' : Command.loadAndRun m [740294660, 1073741824] false with
            | mk res' m' =>
              rw [hrun'] at key
              cases res' with
              | error e => exact absurd key Bool.false_ne_true
              | ok o' =>
                cases of_decide_eq_true key
                exact ⟨recorder, r, m, m', rfl, hrun, hm, hrun',
                  optimal_policy_faults_fewest.2 rfl hrec hrun hm hrun'⟩

end DemandPaging
