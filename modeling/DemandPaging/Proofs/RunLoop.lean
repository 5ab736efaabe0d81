import Mathlib
import DemandPaging.Proofs.Simulation

/-!
# The run loop

A run executes instructions one at a time.  At every boundary between two of
them it first delivers pending interrupts, then ends if a stop was requested,
if the processor has halted, or if its step budget is spent.  Two facts about
that loop hold for a processor on any memory system.

**A failed instruction changes nothing in the processor.**  `Cpu.step` builds
the processor after an instruction only once everything that can fail has
succeeded, so a failed step leaves pc, registers, halt flag and step count as
they were (`Computer.step_error_cpu`); what the memory system did before the
failure stays done.  The fetch is where an illegal instruction is raised: the
fault names the pc and the opcode `w >>> 26` of the fetched word `w`, and it
is raised exactly when that opcode lies outside `0..16` (`Cpu.step_faults`,
`Cpu.step_of_unknown_opcode`).  A run that fails leaves the processor where a
shorter run would have stopped it, at the instruction that failed
(`failed_step_keeps_processor`).

**Runs can be split into chunks.**  When nothing is raised between two runs,
the second run's first delivery finds nothing new (`Bus.Settles`), so a run
that spent its budget `a` followed by a run with budget `b` is one run with
budget `a + b`: the same outcome or fault, processor and memory system
(`Computer.run_add`).  Every completed instruction is counted
(`Computer.step_counts`), so a run executes at most its budget and reports the
step limit only after exactly that many instructions, not halted; a halted
processor with no stop pending executes nothing (`runs_split_into_chunks`).
-/

namespace DemandPaging

/-! ## What one instruction does to the processor -/

section Step

variable {μ : Type} {bus : Bus μ}

/-- Every result ends in a state of the trivial invariant. -/
theorem Ends.top {σ α : Type} (r : EStateM.Result Fault σ α) :
    Ends (fun _ => True) (fun _ _ => True) r := by
  cases r with
  | ok a s => trivial
  | error e s => exact ⟨trivial, trivial⟩

/-- Retiring an instruction counts it, keeps the stop request, and never clears
the halt flag. -/
theorem Cpu.retire_counts {cpu c : Cpu} {dest : Int} {result target : Option Int} {halts : Bool}
    (h : cpu.retire dest result target halts = .ok c) :
    c.steps = cpu.steps + 1 ∧ c.stopRequested = cpu.stopRequested ∧
      (cpu.halted = true → c.halted = true) := by
  rw [Cpu.eq_of_retire_ok h]
  exact ⟨rfl, rfl, fun hh => by simp [hh]⟩

/-- A completed instruction ends in `Cpu.retire`: what every retirement of the
processor gives, a step that returns gives. -/
theorem Cpu.step_retires {V : Cpu → Prop} {cpu : Cpu}
    (hV : ∀ dest result target halts c, cpu.retire dest result target halts = .ok c → V c) (s : μ) :
    Yields (fun _ => True) (fun _ _ => True) V ((cpu.step bus).run s) := by
  have hret : ∀ dest result target halts (s : μ), Yields (fun _ => True) (fun _ _ => True) V
      ((Cpu.liftExcept (cpu.retire dest result target halts) : EStateM Fault μ Cpu).run s) := by
    intro dest result target halts s
    unfold Cpu.liftExcept
    cases h : cpu.retire dest result target halts with
    | ok c => exact ⟨trivial, hV _ _ _ _ c h⟩
    | error e => exact ⟨trivial, trivial⟩
  unfold Cpu.step
  refine Yields.bind (Ends.top _) fun w s₁ _ => ?_
  dsimp only
  split
  next op _ =>
    refine Yields.bind (Ends.top _) fun a s₂ _ => ?_
    refine Yields.bind (Ends.top _) fun b s₃ _ => ?_
    refine Yields.bind (Ends.top _) fun _ s₄ _ => ?_
    cases op with
    | ld => exact Yields.bind (Ends.top _) fun v s₅ _ => hret _ _ _ _ _
    | st =>
      refine Yields.bind (Ends.top _) fun v s₅ _ => ?_
      exact Yields.bind (Ends.top _) fun _ s₆ _ => hret _ _ _ _ _
    | add | addi | sub | subi | mul | sge | sgt | seq | seqi | bt | bf | ba | call | jmp | halt =>
      exact hret _ _ _ _ _
  next => exact ⟨trivial, trivial⟩

/-- A completed instruction counts itself, and clears neither the halt flag nor
a stop request. -/
theorem Computer.step_counts {c c' : Computer μ} {u : Unit}
    (h : (Computer.step bus).run c = .ok u c') :
    c'.cpu.steps = c.cpu.steps + 1 ∧ c'.cpu.stopRequested = c.cpu.stopRequested ∧
      (c.cpu.halted = true → c'.cpu.halted = true) := by
  have hy : Yields (fun _ => True) (fun _ _ => True)
      (fun c' : Cpu => c'.steps = c.cpu.steps + 1 ∧ c'.stopRequested = c.cpu.stopRequested ∧
        (c.cpu.halted = true → c'.halted = true))
      ((c.cpu.step bus).run c.board) :=
    Cpu.step_retires (fun _ _ _ _ _ h => Cpu.retire_counts h) c.board
  change Computer.step bus c = _ at h
  unfold Computer.step at h
  split at h
  · rename_i cpu board hr
    cases h
    rw [hr] at hy
    exact hy.2
  · cases h

end Step

/-! ## Illegal instructions -/

/-- The opcode field of a word is the word shifted right by 26 bits. -/
theorem Instruction.decode_opcode (w : Int) : (Instruction.decode w).opcode = w >>> (26 : Nat) := by
  rw [Int.shiftRight_eq_div_pow]
  rfl

/-- Reading a register file fails only with an index fault. -/
theorem Seq.read_error_badIndex {α : Type} {a : Array α} {i : Int} {e : Fault}
    (h : Seq.read a i = .error e) : e.family = .badIndex := by
  unfold Seq.read at h
  split at h
  · cases h
    rfl
  · split at h
    · cases h
    · cases h
      rfl

/-- Writing a register file fails only with an index fault. -/
theorem Seq.write_error_badIndex {α : Type} {a : Array α} {i : Int} {v : α} {e : Fault}
    (h : Seq.write a i v = .error e) : e.family = .badIndex := by
  unfold Seq.write at h
  split at h
  · cases h
    rfl
  · split at h
    · cases h
    · cases h
      rfl

/-- The opcodes that name an operation. -/
def KnownOpcode (op : Int) : Prop := 0 ≤ op ∧ op ≤ 16

section Illegal

variable {μ : Type} {bus : Bus μ} {I : μ → Prop} {F : Fault → μ → Prop}

/-- A fetched word whose opcode names no operation is refused at once, with
the pc and the opcode, and the memory system as the fetch left it. -/
theorem Cpu.step_of_unknown_opcode {cpu : Cpu} {s s₁ : μ} {w : Int}
    (hfetch : (bus.read cpu.pc).run s = .ok w s₁) (hout : ¬ KnownOpcode (w >>> (26 : Nat))) :
    (cpu.step bus).run s = .error (.illegalInstruction cpu.pc (w >>> (26 : Nat))) s₁ := by
  have hnone : Opcode.ofCode? (Instruction.decode w).opcode = none := by
    rw [← Option.not_isSome_iff_eq_none, Opcode.ofCode?_isSome_iff, Instruction.decode_opcode]
    unfold KnownOpcode at hout
    omega
  unfold Cpu.step
  rw [EStateM.run_bind, hfetch]
  dsimp only
  rw [hnone, ← Instruction.decode_opcode]
  rfl

/-- The faults of one instruction, the fetch having given the word `w`: those
of the bus, an index fault on the register file, or an illegal instruction at
the pc when `w`'s opcode names no operation.  Once the opcode is known, the
walk through the instruction meets only register accesses and bus requests. -/
theorem Cpu.step_faults (hbus : bus.Confines I F) {cpu : Cpu} {s s₁ : μ} {w : Int} (hs : I s)
    (hfetch : (bus.read cpu.pc).run s = .ok w s₁) :
    Ends I (fun e s => F e s ∨ e.family = .badIndex ∨
        (¬ KnownOpcode (w >>> (26 : Nat)) ∧ e = .illegalInstruction cpu.pc (w >>> (26 : Nat))))
      ((cpu.step bus).run s) := by
  have h₁ : I s₁ := by
    have := hbus.read cpu.pc s hs
    rw [hfetch] at this
    exact this
  by_cases hknown : KnownOpcode (w >>> (26 : Nat))
  · have hreg : ∀ r (s : μ), I s → Ends I (fun e s => F e s ∨ e.family = .badIndex)
        ((cpu.register r : EStateM Fault μ Int).run s) :=
      fun r _ hs => Cpu.register_ends_of (fun e h => Seq.read_error_badIndex h) hs
    have hret : ∀ dest result target halts (s : μ), I s →
        Ends I (fun e s => F e s ∨ e.family = .badIndex)
          ((Cpu.liftExcept (cpu.retire dest result target halts) : EStateM Fault μ Cpu).run s) :=
      fun _ _ _ _ _ hs => (Cpu.retire_yields (fun v e h => Seq.write_error_badIndex h) hs).ends
    have hread : ∀ a (s : μ), I s → Ends I (fun e s => F e s ∨ e.family = .badIndex)
        ((bus.read a).run s) :=
      fun a s hs => (hbus.read a s hs).mono fun _ _ h => .inl h
    have hwalk : Ends I (fun e s => F e s ∨ e.family = .badIndex) ((cpu.step bus).run s) := by
      unfold Cpu.step
      rw [EStateM.run_bind, hfetch]
      dsimp only
      split
      next op _ =>
        refine Ends.bind (hreg _ _ h₁) fun a s₂ h₂ => ?_
        refine Ends.bind (hreg _ _ h₂) fun b s₃ h₃ => ?_
        refine Ends.bind (Ends.modify (hbus.trace _ _ h₃)) fun _ s₄ h₄ => ?_
        cases op with
        | ld => exact Ends.bind (hread _ _ h₄) fun v s₅ h₅ => hret _ _ _ _ _ h₅
        | st =>
          refine Ends.bind (hreg _ _ h₄) fun v s₅ h₅ => ?_
          exact Ends.bind ((hbus.write _ _ _ h₅).mono fun _ _ h => .inl h) fun _ s₆ h₆ =>
            hret _ _ _ _ _ h₆
        | add | addi | sub | subi | mul | sge | sgt | seq | seqi | bt | bf | ba | call | jmp
          | halt =>
          exact hret _ _ _ _ _ h₄
      next _ hnone =>
        -- a known opcode always names an operation
        have hsome := (Opcode.ofCode?_isSome_iff (Instruction.decode w).opcode).mpr
          (by rw [Instruction.decode_opcode]; exact ⟨hknown.1, by have := hknown.2; omega⟩)
        obtain ⟨op, hop⟩ := Option.isSome_iff_exists.mp hsome
        exact absurd hop (hnone op)
    refine hwalk.mono fun e s he => ?_
    rcases he with he | he
    · exact .inl he
    · exact .inr (.inl he)
  · rw [Cpu.step_of_unknown_opcode hfetch hknown]
    exact ⟨h₁, .inr (.inr ⟨hknown, rfl⟩)⟩

/-- An instruction fails with an illegal instruction exactly when the opcode of
the fetched word names no operation; the fault carries the pc and that opcode,
and the memory system is as the fetch left it. -/
theorem Cpu.step_illegal_iff (hbus : bus.Confines I F)
    (hF : ∀ e s, F e s → e.family ≠ .illegalInstruction) {cpu : Cpu} {s s₁ s' : μ} {w : Int}
    (hs : I s) (hfetch : (bus.read cpu.pc).run s = .ok w s₁) (e : Fault) :
    ((cpu.step bus).run s = .error e s' ∧ e.family = .illegalInstruction) ↔
      (¬ KnownOpcode (w >>> (26 : Nat)) ∧ e = .illegalInstruction cpu.pc (w >>> (26 : Nat)) ∧
        s' = s₁) := by
  constructor
  · intro h
    obtain ⟨hrun, hfam⟩ := h
    have hends := Cpu.step_faults hbus hs hfetch
    rw [hrun] at hends
    rcases hends.2 with hf | hf | ⟨hout, rfl⟩
    · exact absurd hfam (hF e s' hf)
    · rw [hf] at hfam
      cases hfam
    · rw [Cpu.step_of_unknown_opcode hfetch hout] at hrun
      cases hrun
      exact ⟨hout, rfl, rfl⟩
  · intro h
    obtain ⟨hout, rfl, rfl⟩ := h
    exact ⟨Cpu.step_of_unknown_opcode hfetch hout, rfl⟩

/-- A step that fails with an illegal instruction fetched a word whose opcode
names no operation, at the processor's pc. -/
theorem Cpu.step_illegal (hbus : bus.Confines I F)
    (hF : ∀ e s, F e s → e.family ≠ .illegalInstruction) {cpu : Cpu} {s s' : μ} {e : Fault}
    (hs : I s) (hrun : (cpu.step bus).run s = .error e s') (hfam : e.family = .illegalInstruction) :
    ∃ op, ¬ KnownOpcode op ∧ e = .illegalInstruction cpu.pc op := by
  cases hfetch : (bus.read cpu.pc).run s with
  | ok w s₁ =>
    obtain ⟨hout, he, -⟩ := (Cpu.step_illegal_iff hbus hF hs hfetch e).mp ⟨hrun, hfam⟩
    exact ⟨_, hout, he⟩
  | error e' s₁ =>
    -- a failed fetch fails the step with the bus's fault
    have hstep : (cpu.step bus).run s = .error e' s₁ := by
      unfold Cpu.step
      rw [EStateM.run_bind, hfetch]
    rw [hstep] at hrun
    cases hrun
    have := hbus.read cpu.pc s hs
    rw [hfetch] at this
    exact absurd hfam (hF _ _ this.2)

end Illegal

/-! ## Interrupts are delivered once -/

/-- Servicing a controller twice delivers nothing the second time and changes
nothing. -/
theorem Controller.service_service {τ : Type} (c : Controller τ) :
    c.service.2.service = ([], c.service.2) := by
  obtain ⟨vs⟩ := c
  simp only [Controller.service, Controller.calls, List.map_map, Prod.mk.injEq, Controller.mk.injEq]
  constructor
  · rw [List.flatMap_eq_nil_iff]
    intro x hx
    obtain ⟨y, -, rfl⟩ := List.mem_map.mp hx
    rcases hy : y.handler with _ | h <;> simp [hy]
  · apply List.map_congr_left
    intro y _
    rcases hy : y.handler with _ | h <;> simp [hy]

/-- Logging entry after entry leaves the interrupts alone. -/
theorem Board.foldl_log_interrupts {α : Type} (f : Board → α → Log) (l : List α) :
    ∀ b : Board, (l.foldl (fun b x => { b with log := f b x }) b).interrupts = b.interrupts := by
  induction l with
  | nil =>
    intro b
    rfl
  | cons x l ih =>
    intro b
    exact ih _

theorem Board.service_interrupts (pc : Int) (b : Board) :
    (Board.service pc b).2.interrupts = b.interrupts.service.2 := by
  unfold Board.service
  exact Board.foldl_log_interrupts _ _ _

/-- A board whose interrupts were just delivered delivers nothing more. -/
theorem Board.service_service (pc pc' : Int) (b : Board) :
    Board.service pc (Board.service pc' b).2 = (false, (Board.service pc' b).2) := by
  have hc := Controller.service_service b.interrupts
  rw [← Board.service_interrupts pc' b] at hc
  generalize (Board.service pc' b).2 = b' at hc ⊢
  unfold Board.service
  rw [hc]
  rfl

/-! ## Runs in chunks -/

section Run

variable {μ : Type} {bus : Bus μ}

/-- Delivering interrupts settles them: a second delivery at the same
boundary, with nothing raised in between, brings no stop and changes nothing. -/
def Bus.Settles (bus : Bus μ) : Prop :=
  ∀ pc s, bus.service pc (bus.service pc s).2 = (false, (bus.service pc s).2)

theorem Machine.bus_settles : Machine.bus.Settles := fun pc b => Board.service_service pc pc b

theorem FlatMemory.bus_settles : FlatMemory.bus.Settles := fun _ _ => rfl

/-- A processor with no stop requested is itself with the request withdrawn. -/
theorem Cpu.withdraw_of_not_requested {cpu : Cpu} (h : cpu.stopRequested = false) :
    { cpu with stopRequested := false } = cpu := by
  cases cpu
  cases h
  rfl

/-- A round that goes on: the boundary's delivery brought no stop, none was
requested, and the processor has not halted.  With no budget left the run
reports the limit from the delivered state. -/
theorem Computer.run_zero_of_continues {c : Computer μ} {board : μ}
    (hsvc : bus.service c.cpu.pc c.board = (false, board)) (hstop : c.cpu.stopRequested = false)
    (hhalt : c.cpu.halted = false) :
    (Computer.run bus 0).run c = .ok .stepLimit ⟨c.cpu, board⟩ := by
  rw [Computer.run_round bus 0 c hsvc, Cpu.withdraw_of_not_requested hstop]
  simp only [hstop, hhalt, Bool.or_false, Bool.false_eq_true, if_false]

/-- A round that goes on, with budget left: the run executes an instruction
from the delivered state and goes on with one less. -/
theorem Computer.run_succ_of_continues {c : Computer μ} {board : μ} (n : Nat)
    (hsvc : bus.service c.cpu.pc c.board = (false, board)) (hstop : c.cpu.stopRequested = false)
    (hhalt : c.cpu.halted = false) :
    (Computer.run bus (n + 1)).run c =
      (Computer.step bus >>= fun _ => Computer.run bus n).run ⟨c.cpu, board⟩ := by
  rw [Computer.run_round bus (n + 1) c hsvc, Cpu.withdraw_of_not_requested hstop]
  simp only [hstop, hhalt, Bool.or_false, Bool.false_eq_true, if_false]

/-- A run that reports the step limit went on at its first boundary. -/
theorem Computer.continues_of_stepLimit {n : Nat} {c c' : Computer μ}
    (h : (Computer.run bus n).run c = .ok .stepLimit c') :
    ∃ board, bus.service c.cpu.pc c.board = (false, board) ∧ c.cpu.stopRequested = false ∧
      c.cpu.halted = false := by
  obtain ⟨stopped, board, hsvc⟩ : ∃ st b, bus.service c.cpu.pc c.board = (st, b) := ⟨_, _, rfl⟩
  rw [Computer.run_round bus n c hsvc] at h
  by_cases hs : (c.cpu.stopRequested || stopped) = true
  · rw [if_pos hs] at h
    cases h
  by_cases hh : c.cpu.halted = true
  · rw [if_neg hs, if_pos hh] at h
    cases h
  simp only [Bool.or_eq_true, not_or, Bool.not_eq_true] at hs hh
  exact ⟨board, hs.2 ▸ hsvc, hs.1, hh⟩

/-- Once delivered, interrupts stay delivered: a run from a boundary whose
delivery brought no stop is the run from the delivered state. -/
theorem Computer.run_delivered (hs : bus.Settles) {c : Computer μ} {board : μ} (n : Nat)
    (hsvc : bus.service c.cpu.pc c.board = (false, board)) :
    (Computer.run bus n).run ⟨c.cpu, board⟩ = (Computer.run bus n).run c := by
  have hsvc' : bus.service c.cpu.pc board = (false, board) := by
    have := hs c.cpu.pc c.board
    rw [hsvc] at this
    exact this
  rw [Computer.run_round bus n ⟨c.cpu, board⟩ hsvc', Computer.run_round bus n c hsvc]

/-- Runs compose: after a run that spent its budget `a`, a run with budget `b`
does what one run with budget `a + b` does.  Induction on `a`; at the boundary
where the first run stopped, the second run's delivery finds nothing new. -/
theorem Computer.run_add (hs : bus.Settles) (b a : Nat) :
    ∀ {c c' : Computer μ}, (Computer.run bus a).run c = .ok .stepLimit c' →
      (Computer.run bus b).run c' = (Computer.run bus (a + b)).run c := by
  induction a with
  | zero =>
    intro c c' h
    obtain ⟨board, hsvc, hstop, hhalt⟩ := Computer.continues_of_stepLimit h
    rw [Computer.run_zero_of_continues hsvc hstop hhalt] at h
    cases h
    rw [Nat.zero_add, Computer.run_delivered hs b hsvc]
  | succ a ih =>
    intro c c' h
    obtain ⟨board, hsvc, hstop, hhalt⟩ := Computer.continues_of_stepLimit h
    rw [Computer.run_succ_of_continues a hsvc hstop hhalt, EStateM.run_bind] at h
    rw [Nat.add_right_comm a 1 b, Computer.run_succ_of_continues (a + b) hsvc hstop hhalt,
      EStateM.run_bind]
    -- both take the same first instruction; the rest is the induction
    cases hstep : (Computer.step bus).run ⟨c.cpu, board⟩ with
    | ok u c₁ =>
      rw [hstep] at h
      exact ih h
    | error e c₁ =>
      rw [hstep] at h
      cases h

/-- A run that reports the step limit executed exactly its budget, and the
processor has not halted. -/
theorem Computer.run_stepLimit_counts (n : Nat) :
    ∀ {c c' : Computer μ}, (Computer.run bus n).run c = .ok .stepLimit c' →
      c'.cpu.steps = c.cpu.steps + n ∧ c'.cpu.halted = false := by
  induction n with
  | zero =>
    intro c c' h
    obtain ⟨board, hsvc, hstop, hhalt⟩ := Computer.continues_of_stepLimit h
    rw [Computer.run_zero_of_continues hsvc hstop hhalt] at h
    cases h
    exact ⟨rfl, hhalt⟩
  | succ n ih =>
    intro c c' h
    obtain ⟨board, hsvc, hstop, hhalt⟩ := Computer.continues_of_stepLimit h
    rw [Computer.run_succ_of_continues n hsvc hstop hhalt, EStateM.run_bind] at h
    cases hstep : (Computer.step bus).run ⟨c.cpu, board⟩ with
    | ok u c₁ =>
      rw [hstep] at h
      obtain ⟨hsteps, hh⟩ := ih h
      have hc : c₁.cpu.steps = c.cpu.steps + 1 := (Computer.step_counts hstep).1
      exact ⟨by omega, hh⟩
    | error e c₁ =>
      rw [hstep] at h
      cases h

/-- A run, returned or failed, executes at most its budget of instructions. -/
theorem Computer.run_counts (n : Nat) :
    ∀ c : Computer μ, c.cpu.steps ≤ (finalState ((Computer.run bus n).run c)).cpu.steps ∧
      (finalState ((Computer.run bus n).run c)).cpu.steps ≤ c.cpu.steps + n := by
  induction n with
  | zero =>
    intro c
    obtain ⟨stopped, board, hsvc⟩ : ∃ st b, bus.service c.cpu.pc c.board = (st, b) := ⟨_, _, rfl⟩
    rw [Computer.run_round bus 0 c hsvc]
    split
    · exact ⟨le_refl _, Nat.le_add_right _ _⟩
    · split <;> exact ⟨le_refl _, Nat.le_add_right _ _⟩
  | succ n ih =>
    intro c
    obtain ⟨stopped, board, hsvc⟩ : ∃ st b, bus.service c.cpu.pc c.board = (st, b) := ⟨_, _, rfl⟩
    rw [Computer.run_round bus (n + 1) c hsvc]
    split
    · exact ⟨le_refl _, Nat.le_add_right _ _⟩
    split
    · exact ⟨le_refl _, Nat.le_add_right _ _⟩
    · dsimp only
      rw [EStateM.run_bind]
      -- the first instruction counts one, or fails and counts none
      cases hstep : (Computer.step bus).run ⟨{ c.cpu with stopRequested := false }, board⟩ with
      | ok u c₁ =>
        have hc : c₁.cpu.steps = c.cpu.steps + 1 := (Computer.step_counts hstep).1
        obtain ⟨h₁, h₂⟩ := ih c₁
        dsimp only
        exact ⟨by omega, by omega⟩
      | error e c₁ =>
        have hc := Computer.step_error_cpu hstep
        simp only [finalState_error, hc]
        exact ⟨le_refl _, Nat.le_add_right _ _⟩

/-- A halted processor with no stop pending runs no instruction: whatever the
budget, the run reports the halt with the processor as it was. -/
theorem Computer.run_of_halted {c : Computer μ} (n : Nat) (hhalt : c.cpu.halted = true)
    (hstop : c.cpu.stopRequested = false) (hsvc : (bus.service c.cpu.pc c.board).1 = false) :
    (Computer.run bus n).run c = .ok .halted ⟨c.cpu, (bus.service c.cpu.pc c.board).2⟩ := by
  rw [Computer.run_round bus n c (Prod.ext hsvc rfl : bus.service c.cpu.pc c.board = (false, _)),
    Cpu.withdraw_of_not_requested hstop]
  simp only [hstop, hhalt, Bool.or_false, Bool.false_eq_true, if_false, if_true]

/-- Runs can be split into chunks.  On a memory system where nothing is raised
between two runs: a run with budget `a` that reports the step limit, followed
by a run with budget `b`, does exactly what one run with budget `a + b` does,
outcome or fault, processor and memory alike; a run executes at most its budget,
and reports the step limit only after exactly its budget, not halted; and a
halted processor with no stop pending reports the halt at once, executing
nothing. -/
theorem runs_split_into_chunks (hs : bus.Settles) :
    (∀ (a b : Nat) (c c' : Computer μ), (Computer.run bus a).run c = .ok .stepLimit c' →
      (Computer.run bus b).run c' = (Computer.run bus (a + b)).run c) ∧
    (∀ (n : Nat) (c : Computer μ),
      c.cpu.steps ≤ (finalState ((Computer.run bus n).run c)).cpu.steps ∧
        (finalState ((Computer.run bus n).run c)).cpu.steps ≤ c.cpu.steps + n) ∧
    (∀ (n : Nat) (c c' : Computer μ), (Computer.run bus n).run c = .ok .stepLimit c' →
      c'.cpu.steps = c.cpu.steps + n ∧ c'.cpu.halted = false) ∧
    (∀ (n : Nat) (c : Computer μ), c.cpu.halted = true → c.cpu.stopRequested = false →
      (bus.service c.cpu.pc c.board).1 = false →
      (Computer.run bus n).run c = .ok .halted ⟨c.cpu, (bus.service c.cpu.pc c.board).2⟩) :=
  ⟨fun a b _ _ h => Computer.run_add hs b a h, fun n c => Computer.run_counts n c,
    fun n _ _ h => Computer.run_stepLimit_counts n h,
    fun n _ hhalt hstop hsvc => Computer.run_of_halted n hhalt hstop hsvc⟩

/-- The machine's runs split into chunks: its interrupts, once delivered, stay
delivered. -/
theorem machine_runs_split_into_chunks :
    Machine.bus.Settles ∧
    (∀ (a b : Nat) (c c' : Machine), (Computer.run Machine.bus a).run c = .ok .stepLimit c' →
      (Computer.run Machine.bus b).run c' = (Computer.run Machine.bus (a + b)).run c) ∧
    (∀ (n : Nat) (c : Machine),
      c.cpu.steps ≤ (finalState ((Computer.run Machine.bus n).run c)).cpu.steps ∧
        (finalState ((Computer.run Machine.bus n).run c)).cpu.steps ≤ c.cpu.steps + n) ∧
    (∀ (n : Nat) (c c' : Machine), (Computer.run Machine.bus n).run c = .ok .stepLimit c' →
      c'.cpu.steps = c.cpu.steps + n ∧ c'.cpu.halted = false) ∧
    (∀ (n : Nat) (c : Machine), c.cpu.halted = true → c.cpu.stopRequested = false →
      (Machine.bus.service c.cpu.pc c.board).1 = false →
      (Computer.run Machine.bus n).run c =
        .ok .halted ⟨c.cpu, (Machine.bus.service c.cpu.pc c.board).2⟩) :=
  ⟨Machine.bus_settles, runs_split_into_chunks Machine.bus_settles⟩

end Run

/-! ## Where a failed run leaves the processor -/

section Failed

variable {μ : Type} {bus : Bus μ} {I : μ → Prop} {F : Fault → μ → Prop}

/-- An access refuses with address, index or swap faults, never with an
illegal instruction. -/
theorem Board.refused_not_illegal {e : Fault} {b : Board} (h : Board.Refused e b) :
    e.family ≠ .illegalInstruction := by
  obtain ⟨a, ha⟩ := h
  cases ha <;> simp [Fault.family]

/-- Flat memory never refuses. -/
theorem FlatMemory.bus_confines : FlatMemory.bus.Confines (fun _ => True) (fun _ _ => False) where
  read _ _ _ := trivial
  write _ _ _ _ := trivial
  trace _ _ _ := trivial
  service _ _ _ := trivial

/-- A machine's run fails as its processor's run does; the line it logs comes
after the run returns. -/
theorem Machine.run_error_of {limit : Option Int} {m m' : Machine} {e : Fault}
    (h : (Machine.run limit).run m = .error e m') :
    (Computer.run Machine.bus (budgetOf limit)).run m = .error e m' := by
  unfold Machine.run at h
  rw [EStateM.run_bind] at h
  cases hr : (Computer.run Machine.bus (budgetOf limit)).run m with
  | ok o m₁ =>
    rw [hr] at h
    cases h
  | error e' m₁ =>
    rw [hr] at h
    exact h

/-- A failed run stops the processor at the instruction that failed: the
processor is as a shorter run that reports the step limit leaves it, and an
illegal instruction names its pc and an opcode that names no operation. -/
theorem Computer.run_error_at (hbus : bus.Confines I F)
    (hF : ∀ e s, F e s → e.family ≠ .illegalInstruction) (n : Nat) {c c' : Computer μ} {e : Fault}
    (hc : I c.board) (h : (Computer.run bus n).run c = .error e c') :
    ∃ k < n, ∃ d, (Computer.run bus k).run c = .ok .stepLimit d ∧ c'.cpu = d.cpu ∧
      (e.family = .illegalInstruction →
        ∃ op, ¬ KnownOpcode op ∧ e = .illegalInstruction c'.cpu.pc op) := by
  obtain ⟨k, hk, d, hrun, hstep⟩ := Computer.run_error bus n h
  have hcpu := Computer.step_error_cpu hstep
  refine ⟨k, hk, d, hrun, hcpu, fun hfam => ?_⟩
  have hd : I d.board := by
    have := Computer.run_ends hbus k hc
    rw [hrun] at this
    exact this
  -- the failed step is the processor's, from where the shorter run stopped
  have hstep' : (d.cpu.step bus).run d.board = .error e c'.board := by
    change Computer.step bus d = _ at hstep
    unfold Computer.step at hstep
    split at hstep
    · cases hstep
    · rename_i e' b hr
      cases hstep
      exact hr
  rw [hcpu]
  exact Cpu.step_illegal hbus hF hd hstep' hfam

/-- A failing step changes nothing in the processor.  On any memory system
whose own faults are never illegal instructions: a failed step leaves the
processor as it was; once the fetch at the pc has given the word `w`, the step
fails with an illegal instruction exactly when `w >>> 26` lies outside `0..16`,
the fault naming the pc and that opcode, and the memory system as the fetch
left it; and a run, or a machine's run, that fails leaves the processor where a
shorter run stops, at the instruction that failed. -/
theorem failed_step_keeps_processor (hbus : bus.Confines I F)
    (hF : ∀ e s, F e s → e.family ≠ .illegalInstruction) :
    (∀ (c c' : Computer μ) (e : Fault), (Computer.step bus).run c = .error e c' → c'.cpu = c.cpu) ∧
    (∀ (cpu : Cpu) (s s₁ s' : μ) (w : Int) (e : Fault), I s → (bus.read cpu.pc).run s = .ok w s₁ →
      ((cpu.step bus).run s = .error e s' ∧ e.family = .illegalInstruction ↔
        ¬ KnownOpcode (w >>> (26 : Nat)) ∧ e = .illegalInstruction cpu.pc (w >>> (26 : Nat)) ∧
          s' = s₁)) ∧
    (∀ (n : Nat) (c c' : Computer μ) (e : Fault), I c.board →
      (Computer.run bus n).run c = .error e c' →
      ∃ k < n, ∃ d, (Computer.run bus k).run c = .ok .stepLimit d ∧ c'.cpu = d.cpu ∧
        (e.family = .illegalInstruction →
          ∃ op, ¬ KnownOpcode op ∧ e = .illegalInstruction c'.cpu.pc op)) ∧
    (∀ (g : Geometry) (limit : Option Int) (m m' : Machine) (e : Fault), m.board.Sane g →
      (Machine.run limit).run m = .error e m' →
      ∃ k < budgetOf limit, ∃ d, (Computer.run Machine.bus k).run m = .ok .stepLimit d ∧
        m'.cpu = d.cpu ∧
        (e.family = .illegalInstruction →
          ∃ op, ¬ KnownOpcode op ∧ e = .illegalInstruction m'.cpu.pc op)) := by
  refine ⟨fun c c' e h => Computer.step_error_cpu h, ?_, ?_, ?_⟩
  · intro cpu s s₁ s' w e hs hfetch
    exact Cpu.step_illegal_iff hbus hF hs hfetch e
  · intro n c c' e hc h
    exact Computer.run_error_at hbus hF n hc h
  · intro g limit m m' e hm h
    exact Computer.run_error_at (Machine.bus_confines g) (fun _ _ he => Board.refused_not_illegal he)
      (budgetOf limit) hm (Machine.run_error_of h)

/-- The processor on flat memory, which never refuses. -/
theorem failed_step_keeps_processor_flat :
    FlatMemory.bus.Confines (fun _ => True) (fun _ _ => False) ∧
    (∀ (e : Fault) (_ : FlatMemory), False → e.family ≠ .illegalInstruction) ∧
    (∀ (c c' : Computer FlatMemory) (e : Fault),
      (Computer.step FlatMemory.bus).run c = .error e c' → c'.cpu = c.cpu) ∧
    (∀ (cpu : Cpu) (s s₁ s' : FlatMemory) (w : Int) (e : Fault), True →
      (FlatMemory.bus.read cpu.pc).run s = .ok w s₁ →
      ((cpu.step FlatMemory.bus).run s = .error e s' ∧ e.family = .illegalInstruction ↔
        ¬ KnownOpcode (w >>> (26 : Nat)) ∧ e = .illegalInstruction cpu.pc (w >>> (26 : Nat)) ∧
          s' = s₁)) ∧
    (∀ (n : Nat) (c c' : Computer FlatMemory) (e : Fault), True →
      (Computer.run FlatMemory.bus n).run c = .error e c' →
      ∃ k < n, ∃ d, (Computer.run FlatMemory.bus k).run c = .ok .stepLimit d ∧ c'.cpu = d.cpu ∧
        (e.family = .illegalInstruction →
          ∃ op, ¬ KnownOpcode op ∧ e = .illegalInstruction c'.cpu.pc op)) ∧
    (∀ (g : Geometry) (limit : Option Int) (m m' : Machine) (e : Fault), m.board.Sane g →
      (Machine.run limit).run m = .error e m' →
      ∃ k < budgetOf limit, ∃ d, (Computer.run Machine.bus k).run m = .ok .stepLimit d ∧
        m'.cpu = d.cpu ∧
        (e.family = .illegalInstruction →
          ∃ op, ¬ KnownOpcode op ∧ e = .illegalInstruction m'.cpu.pc op)) :=
  ⟨FlatMemory.bus_confines, fun _ _ h => h.elim,
    failed_step_keeps_processor FlatMemory.bus_confines fun _ _ h => h.elim⟩

end Failed

end DemandPaging
