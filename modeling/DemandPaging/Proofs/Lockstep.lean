import DemandPaging.Processor.Run

/-!
# One processor, two memory systems

The processor reaches memory only through its `Bus`: reads, writes, the
instruction trace and the delivery of interrupts.  So two memory systems that
answer every bus request alike drive the processor alike, step after step and
over a whole run.  This file proves that once, for any two buses.

`Agrees R spared P r₁ r₂` compares the results of two actions: a value on the
left (satisfying `P`) is matched by the same value on the right, a fault by the
same fault, and the final states are related by `R`; a fault in `spared` on
the left releases the right side from any obligation.  `Agrees.bind` composes
such facts, so an action written with `do` is compared by walking its
structure.

`Bus.Lockstep bus₁ bus₂ R W spared` asks this of every bus request at an
address in `W`, writes only of values in `W`.  The processor reads at its pc
and at narrowed sums, and writes register contents; its pc and registers hold
values narrowed to words, so `W` is any class of values that contains every
word (`Cpu.Within`).  The main statements:

* `Cpu.step_lockstep`: one instruction agrees;
* `Computer.run_lockstep`: a whole run agrees, whatever its budget;
* `Computer.run_ends`: a run from a memory system in an invariant that every
  bus request keeps ends in it, failing only with a fault the bus allows or
  one the processor raises by itself.

Both rest on two statements said once: `Cpu.step_yields`, what one instruction
can do given what the bus and the register accesses can do, and
`Computer.run_ends_of`, that an invariant of the computer kept by every round
and every instruction holds along a whole run.
-/

namespace DemandPaging

/-- The state a result leaves, whether the action returned or failed. -/
def finalState {ε σ α : Type} : EStateM.Result ε σ α → σ
  | .ok _ s => s
  | .error _ s => s

@[simp] theorem finalState_ok {ε σ α : Type} (a : α) (s : σ) :
    finalState (EStateM.Result.ok a s : EStateM.Result ε σ α) = s := rfl

@[simp] theorem finalState_error {ε σ α : Type} (e : ε) (s : σ) :
    finalState (EStateM.Result.error e s : EStateM.Result ε σ α) = s := rfl

section Agreement

variable {σ₁ σ₂ α β : Type} {R : σ₁ → σ₂ → Prop} {spared : Fault → Prop}

/-- The second result matches the first: the same value (one satisfying `P`) or
the same fault, in states related by `R`, unless the first failed with a fault in
`spared`. -/
def Agrees (R : σ₁ → σ₂ → Prop) (spared : Fault → Prop) (P : α → Prop) :
    EStateM.Result Fault σ₁ α → EStateM.Result Fault σ₂ α → Prop
  | .ok a s, r => P a ∧ ∃ t, r = .ok a t ∧ R s t
  | .error e s, r => spared e ∨ ∃ t, r = .error e t ∧ R s t

namespace Agrees

theorem pure {P : α → Prop} {a : α} {s : σ₁} {t : σ₂} (hR : R s t) (ha : P a) :
    Agrees R spared P ((Pure.pure a : EStateM Fault σ₁ α).run s)
      ((Pure.pure a : EStateM Fault σ₂ α).run t) :=
  ⟨ha, t, rfl, hR⟩

theorem throw {P : α → Prop} {e : Fault} {s : σ₁} {t : σ₂} (hR : R s t) :
    Agrees R spared P ((MonadExcept.throw e : EStateM Fault σ₁ α).run s)
      ((MonadExcept.throw e : EStateM Fault σ₂ α).run t) :=
  .inr ⟨t, rfl, hR⟩

theorem modify {f₁ : σ₁ → σ₁} {f₂ : σ₂ → σ₂} {s : σ₁} {t : σ₂} (hR : R (f₁ s) (f₂ t)) :
    Agrees R spared (fun _ => True) ((modify f₁ : EStateM Fault σ₁ PUnit).run s)
      ((modify f₂ : EStateM Fault σ₂ PUnit).run t) :=
  ⟨trivial, f₂ t, rfl, hR⟩

/-- Agreement of a sequence: the first actions agree, and the continuations agree
on every value the first can return and every pair of related states. -/
theorem bind {P : α → Prop} {Q : β → Prop} {x₁ : EStateM Fault σ₁ α} {x₂ : EStateM Fault σ₂ α}
    {f₁ : α → EStateM Fault σ₁ β} {f₂ : α → EStateM Fault σ₂ β} {s : σ₁} {t : σ₂}
    (hx : Agrees R spared P (x₁.run s) (x₂.run t))
    (hf : ∀ a, P a → ∀ s' t', R s' t' → Agrees R spared Q ((f₁ a).run s') ((f₂ a).run t')) :
    Agrees R spared Q ((x₁ >>= f₁).run s) ((x₂ >>= f₂).run t) := by
  rw [EStateM.run_bind, EStateM.run_bind]
  cases h₁ : x₁.run s with
  | ok a s' =>
    rw [h₁] at hx
    obtain ⟨ha, t', h₂, hR⟩ := hx
    rw [h₂]
    exact hf a ha s' t' hR
  | error e s' =>
    rw [h₁] at hx
    rcases hx with hs | ⟨t', h₂, hR⟩
    · exact .inl hs
    · rw [h₂]
      exact .inr ⟨t', rfl, hR⟩

theorem refl (r : EStateM.Result Fault σ₁ α) : Agrees Eq spared (fun _ => True) r r := by
  cases r with
  | ok a s => exact ⟨trivial, s, rfl, rfl⟩
  | error e s => exact .inr ⟨s, rfl, rfl⟩

/-- Agreement under a relation holds under any weaker one. -/
theorem mono {R' : σ₁ → σ₂ → Prop} {P : α → Prop} {r₁ : EStateM.Result Fault σ₁ α}
    {r₂ : EStateM.Result Fault σ₂ α} (h : Agrees R spared P r₁ r₂) (hR : ∀ s t, R s t → R' s t) :
    Agrees R' spared P r₁ r₂ := by
  cases r₁ with
  | ok a s =>
    obtain ⟨ha, t, h₂, hst⟩ := h
    exact ⟨ha, t, h₂, hR s t hst⟩
  | error e s =>
    rcases h with hs | ⟨t, h₂, hst⟩
    · exact .inl hs
    · exact .inr ⟨t, h₂, hR s t hst⟩

end Agrees

end Agreement

/-- `bus₁` answers like `bus₂` on memory systems related by `R`: every read at an
address in `W`, and every write of a value in `W` there, agrees (or fails on the
left with a fault in `spared`), the traces keep the relation, and servicing
interrupts gives the same stop signal. -/
structure Bus.Lockstep {μ₁ μ₂ : Type} (bus₁ : Bus μ₁) (bus₂ : Bus μ₂) (R : μ₁ → μ₂ → Prop)
    (W : Int → Prop) (spared : Fault → Prop) : Prop where
  read : ∀ a x y, R x y → W a →
    Agrees R spared (fun _ => True) ((bus₁.read a).run x) ((bus₂.read a).run y)
  write : ∀ a v x y, R x y → W a → W v →
    Agrees R spared (fun _ => True) ((bus₁.write a v).run x) ((bus₂.write a v).run y)
  trace : ∀ e x y, R x y → R (bus₁.trace e x) (bus₂.trace e y)
  service : ∀ pc x y, R x y →
    (bus₁.service pc x).1 = (bus₂.service pc y).1 ∧ R (bus₁.service pc x).2 (bus₂.service pc y).2

/-! ## One instruction -/

section Step

variable {μ₁ μ₂ : Type} {bus₁ : Bus μ₁} {bus₂ : Bus μ₂} {R : μ₁ → μ₂ → Prop}
  {W : Int → Prop} {spared : Fault → Prop}

/-- The pc and every register of a processor hold values in `W`. -/
def Cpu.Within (W : Int → Prop) (cpu : Cpu) : Prop := W cpu.pc ∧ ∀ v ∈ cpu.registers, W v

theorem Seq.read_mem {α : Type} {a : Array α} {i : Int} {x : α} (h : Seq.read a i = .ok x) :
    x ∈ a := by
  unfold Seq.read Seq.get? at h
  split at h
  · cases h
  · split at h
    · rename_i hx
      cases h
      obtain ⟨j, -, hj⟩ := Option.bind_eq_some_iff.mp hx
      exact Array.mem_of_getElem? hj
    · cases h

theorem Seq.mem_of_write {α : Type} {a a' : Array α} {i : Int} {v x : α}
    (h : Seq.write a i v = .ok a') (hx : x ∈ a') : x ∈ a ∨ x = v := by
  unfold Seq.write Seq.set? at h
  split at h
  · cases h
  · split at h
    · rename_i hs
      cases h
      obtain ⟨j, -, rfl⟩ := Option.map_eq_some_iff.mp hs
      rw [Array.set!_eq_setIfInBounds] at hx
      exact Array.mem_or_eq_of_mem_setIfInBounds hx
    · cases h

/-- Reading a register does not touch memory and gives one of the register
file's values. -/
theorem Cpu.register_agrees {cpu : Cpu} {r : Int} {s : μ₁} {t : μ₂} (hR : R s t)
    (hregs : ∀ v ∈ cpu.registers, W v) :
    Agrees R spared W ((cpu.register r : EStateM Fault μ₁ Int).run s)
      ((cpu.register r : EStateM Fault μ₂ Int).run t) := by
  unfold Cpu.register
  cases h : Seq.read cpu.registers r with
  | ok v => exact Agrees.pure hR (hregs v (Seq.read_mem h))
  | error e => exact Agrees.throw hR

/-- A retired instruction leaves the processor as `retire` builds it: a new
register file, the pc at the target or the next word, one more step, and the
halt flag raised if the instruction halts. -/
theorem Cpu.eq_of_retire_ok {cpu c : Cpu} {dest : Int} {result target : Option Int} {halts : Bool}
    (h : cpu.retire dest result target halts = .ok c) :
    c = { cpu with
      registers := c.registers, pc := wrapWord (target.getD (cpu.pc + 1)),
      steps := cpu.steps + 1, halted := cpu.halted || halts } := by
  cases result with
  | none =>
    simp only [Cpu.retire, pure, Except.pure, bind, Except.bind, Except.ok.injEq] at h
    rw [← h]
  | some x =>
    simp only [Cpu.retire, bind, Except.bind] at h
    split at h
    · cases h
    · simp only [pure, Except.pure, Except.ok.injEq] at h
      rw [← h]

/-- Retiring keeps each register's old value or puts a word in it. -/
theorem Cpu.retire_registers {cpu c : Cpu} {dest : Int} {result target : Option Int} {halts : Bool}
    (h : cpu.retire dest result target halts = .ok c) :
    ∀ v ∈ c.registers, v ∈ cpu.registers ∨ ∃ x, v = wrapWord x := by
  intro v hv
  cases result with
  | none =>
    simp only [Cpu.retire, pure, Except.pure, bind, Except.bind, Except.ok.injEq] at h
    subst h
    exact .inl hv
  | some x =>
    simp only [Cpu.retire, Cpu.writeBack, bind, Except.bind] at h
    split at h
    · cases h
    · rename_i regs hw
      simp only [pure, Except.pure, Except.ok.injEq] at h
      subst h
      split at hw
      · cases hw
        exact .inl hv
      · rcases Seq.mem_of_write hw hv with hv | rfl
        · exact .inl hv
        · exact .inr ⟨x, rfl⟩

/-- Retiring an instruction does not touch memory, and the register file after
it holds the old values and words, the pc a word. -/
theorem Cpu.retire_agrees {cpu : Cpu} {dest : Int} {result target : Option Int} {halts : Bool}
    {s : μ₁} {t : μ₂} (hR : R s t) (hregs : ∀ v ∈ cpu.registers, W v)
    (hwrap : ∀ v, W (wrapWord v)) :
    Agrees R spared (Cpu.Within W)
      ((Cpu.liftExcept (cpu.retire dest result target halts) : EStateM Fault μ₁ Cpu).run s)
      ((Cpu.liftExcept (cpu.retire dest result target halts) : EStateM Fault μ₂ Cpu).run t) := by
  unfold Cpu.liftExcept
  cases h : cpu.retire dest result target halts with
  | error e => exact Agrees.throw hR
  | ok c =>
    have hpc : c.pc = wrapWord (target.getD (cpu.pc + 1)) := congrArg Cpu.pc (Cpu.eq_of_retire_ok h)
    refine Agrees.pure hR ⟨hpc ▸ hwrap _, fun v hv => ?_⟩
    rcases Cpu.retire_registers h v hv with hv | ⟨x, rfl⟩
    · exact hregs v hv
    · exact hwrap x

/-- One instruction on two memory systems in lockstep: the same processor
results, in related memory systems, unless the left one fails with a spared
fault.  The proof walks `Cpu.step`: the fetch and the load are bus reads, the
store a bus write, the trace a bus trace, and all else reads the registers. -/
theorem Cpu.step_lockstep (hbus : bus₁.Lockstep bus₂ R W spared) (hwrap : ∀ v, W (wrapWord v))
    {cpu : Cpu} (hcpu : cpu.Within W) {x : μ₁} {y : μ₂} (hR : R x y) :
    Agrees R spared (Cpu.Within W) ((cpu.step bus₁).run x) ((cpu.step bus₂).run y) := by
  obtain ⟨hpc, hregs⟩ := hcpu
  unfold Cpu.step
  refine Agrees.bind (hbus.read _ _ _ hR hpc) fun w _ x₁ y₁ h₁ => ?_
  dsimp only
  split
  next op _ =>
    refine Agrees.bind (Cpu.register_agrees h₁ hregs) fun a _ x₂ y₂ h₂ => ?_
    refine Agrees.bind (Cpu.register_agrees h₂ hregs) fun b _ x₃ y₃ h₃ => ?_
    refine Agrees.bind (Agrees.modify (hbus.trace _ _ _ h₃)) fun _ _ x₄ y₄ h₄ => ?_
    cases op with
    | ld =>
      exact Agrees.bind (hbus.read _ _ _ h₄ (hwrap _)) fun v _ x₅ y₅ h₅ =>
        Cpu.retire_agrees h₅ hregs hwrap
    | st =>
      refine Agrees.bind (Cpu.register_agrees h₄ hregs) fun v hv x₅ y₅ h₅ => ?_
      exact Agrees.bind (hbus.write _ _ _ _ h₅ (hwrap _) hv) fun _ _ x₆ y₆ h₆ =>
        Cpu.retire_agrees h₆ hregs hwrap
    | add | addi | sub | subi | mul | sge | sgt | seq | seqi | bt | bf | ba | call | jmp | halt =>
      exact Cpu.retire_agrees h₄ hregs hwrap
  next => exact Agrees.throw h₁

end Step

/-! ## Whole runs -/

section Run

variable {μ₁ μ₂ : Type} {bus₁ : Bus μ₁} {bus₂ : Bus μ₂} {R : μ₁ → μ₂ → Prop}
  {W : Int → Prop} {spared : Fault → Prop}

/-- Two computers in lockstep: the same processor, its pc and registers holding
values in `W`, attached to memory systems related by `R`. -/
def Computer.Twins (R : μ₁ → μ₂ → Prop) (W : Int → Prop) (c₁ : Computer μ₁)
    (c₂ : Computer μ₂) : Prop :=
  c₁.cpu = c₂.cpu ∧ c₁.cpu.Within W ∧ R c₁.board c₂.board

theorem Computer.step_lockstep (hbus : bus₁.Lockstep bus₂ R W spared)
    (hwrap : ∀ v, W (wrapWord v)) {c₁ : Computer μ₁} {c₂ : Computer μ₂}
    (h : Computer.Twins R W c₁ c₂) :
    Agrees (Computer.Twins R W) spared (fun _ => True)
      ((Computer.step bus₁).run c₁) ((Computer.step bus₂).run c₂) := by
  obtain ⟨hcpu, hregs, hR⟩ := h
  have hstep := Cpu.step_lockstep hbus hwrap hregs hR
  rw [hcpu] at hstep
  show Agrees _ _ _ (Computer.step bus₁ c₁) (Computer.step bus₂ c₂)
  unfold Computer.step
  rw [← hcpu] at hstep ⊢
  cases h₁ : (c₁.cpu.step bus₁).run c₁.board with
  | ok cpu b₁ =>
    rw [h₁] at hstep
    obtain ⟨hregs', b₂, h₂, hR'⟩ := hstep
    rw [h₂]
    exact ⟨trivial, _, rfl, rfl, hregs', hR'⟩
  | error e b₁ =>
    rw [h₁] at hstep
    rcases hstep with hs | ⟨b₂, h₂, hR'⟩
    · exact .inl hs
    · rw [h₂]
      exact .inr ⟨_, rfl, rfl, hregs, hR'⟩

/-- One round of the run loop, once interrupts are serviced: stop, report the
halt, report the spent budget, or execute an instruction and go on. -/
theorem Computer.run_round {μ : Type} (bus : Bus μ) (n : Nat) (c : Computer μ) {stopped : Bool}
    {board : μ} (h : bus.service c.cpu.pc c.board = (stopped, board)) :
    (Computer.run bus n).run c =
      if c.cpu.stopRequested || stopped then
        .ok .interrupted ⟨{ c.cpu with stopRequested := false }, board⟩
      else if c.cpu.halted then .ok .halted ⟨{ c.cpu with stopRequested := false }, board⟩
      else match n with
        | 0 => .ok .stepLimit ⟨{ c.cpu with stopRequested := false }, board⟩
        | n + 1 => (Computer.step bus >>= fun _ => Computer.run bus n).run
            ⟨{ c.cpu with stopRequested := false }, board⟩ := by
  rw [Computer.run.eq_def, EStateM.run_bind, EStateM.run_get]
  simp only [h]
  by_cases hs : (c.cpu.stopRequested || stopped) = true
  · -- a stop ends the round, whatever the budget
    simp only [hs, if_true]
    rfl
  · have hf : (c.cpu.stopRequested || stopped) = false := Bool.eq_false_iff.mpr hs
    simp only [hf, Bool.false_eq_true, if_false]
    by_cases hh : c.cpu.halted = true
    · simp only [hh, if_true]
      rfl
    · simp only [hh, Bool.false_eq_true, if_false]
      cases n <;> rfl

/-- Twins service their interrupts alike: the same stop signal, related memory
systems after it. -/
theorem Computer.Twins.service (hbus : bus₁.Lockstep bus₂ R W spared) {c₁ : Computer μ₁}
    {c₂ : Computer μ₂} (h : Computer.Twins R W c₁ c₂) :
    ∃ stopped b₁ b₂, bus₁.service c₁.cpu.pc c₁.board = (stopped, b₁) ∧
      bus₂.service c₂.cpu.pc c₂.board = (stopped, b₂) ∧ R b₁ b₂ := by
  obtain ⟨hcpu, -, hR⟩ := h
  obtain ⟨hstop, hR'⟩ := hbus.service c₁.cpu.pc _ _ hR
  rw [← hcpu]
  exact ⟨_, _, _, rfl, Prod.ext hstop.symm rfl, hR'⟩

/-- Twins over equal memory systems are one computer. -/
theorem Computer.Twins.eq {μ : Type} {c₁ c₂ : Computer μ} (h : Computer.Twins Eq W c₁ c₂) :
    c₁ = c₂ := by
  obtain ⟨hcpu, -, hb⟩ := h
  cases c₁
  cases c₂
  cases hcpu
  cases hb
  rfl

/-- A whole run on two memory systems in lockstep: the same outcome or fault,
the same processor, related memory systems, unless the left fails with a spared
fault.  Induction on the budget; each round services interrupts (the same stop
signal on both sides) and then checks the same processor flags. -/
theorem Computer.run_lockstep (hbus : bus₁.Lockstep bus₂ R W spared)
    (hwrap : ∀ v, W (wrapWord v)) (n : Nat) :
    ∀ {c₁ : Computer μ₁} {c₂ : Computer μ₂}, Computer.Twins R W c₁ c₂ →
      Agrees (Computer.Twins R W) spared (fun _ => True)
        ((Computer.run bus₁ n).run c₁) ((Computer.run bus₂ n).run c₂) := by
  induction n with
  | zero =>
    intro c₁ c₂ h
    obtain ⟨stopped, b₁, b₂, h₁, h₂, hb⟩ := h.service hbus
    obtain ⟨hcpu, hregs, -⟩ := h
    rw [Computer.run_round _ _ _ h₁, Computer.run_round _ _ _ h₂, ← hcpu]
    split
    · exact ⟨trivial, _, rfl, rfl, hregs, hb⟩
    · split <;> exact ⟨trivial, _, rfl, rfl, hregs, hb⟩
  | succ n ih =>
    intro c₁ c₂ h
    obtain ⟨stopped, b₁, b₂, h₁, h₂, hb⟩ := h.service hbus
    obtain ⟨hcpu, hregs, -⟩ := h
    rw [Computer.run_round _ _ _ h₁, Computer.run_round _ _ _ h₂, ← hcpu]
    split
    · exact ⟨trivial, _, rfl, rfl, hregs, hb⟩
    split
    · exact ⟨trivial, _, rfl, rfl, hregs, hb⟩
    · exact Agrees.bind (Computer.step_lockstep hbus hwrap ⟨rfl, hregs, hb⟩) fun _ _ _ _ h' => ih h'

end Run

/-! ## Invariants and faults along runs -/

section Ends

variable {σ α β : Type} {I : σ → Prop} {F : Fault → σ → Prop}

/-- The result of an action ends in a state satisfying `I`, and it fails only
with a fault that `F` allows in the state it leaves. -/
def Ends (I : σ → Prop) (F : Fault → σ → Prop) : EStateM.Result Fault σ α → Prop
  | .ok _ s => I s
  | .error e s => I s ∧ F e s

namespace Ends

theorem pure {a : α} {s : σ} (hs : I s) : Ends I F ((Pure.pure a : EStateM Fault σ α).run s) := hs

theorem throw {e : Fault} {s : σ} (hs : I s) (he : F e s) :
    Ends I F ((MonadExcept.throw e : EStateM Fault σ α).run s) :=
  ⟨hs, he⟩

theorem modify {f : σ → σ} {s : σ} (hs : I (f s)) :
    Ends I F ((modify f : EStateM Fault σ PUnit).run s) := hs

/-- A sequence ends well when its first action does and the continuation does
from every state the first can leave. -/
theorem bind {x : EStateM Fault σ α} {f : α → EStateM Fault σ β} {s : σ}
    (hx : Ends I F (x.run s)) (hf : ∀ a s', I s' → Ends I F ((f a).run s')) :
    Ends I F ((x >>= f).run s) := by
  rw [EStateM.run_bind]
  cases h : x.run s with
  | ok a s' =>
    rw [h] at hx
    exact hf a s' hx
  | error e s' =>
    rw [h] at hx
    exact hx

theorem mono {G : Fault → σ → Prop} {r : EStateM.Result Fault σ α} (h : Ends I F r)
    (hFG : ∀ e s, F e s → G e s) : Ends I G r := by
  cases r with
  | ok a s => exact h
  | error e s => exact ⟨h.1, hFG e s h.2⟩

theorem imp {I' : σ → Prop} {r : EStateM.Result Fault σ α} (h : Ends I F r)
    (hI : ∀ s, I s → I' s) : Ends I' F r := by
  cases r with
  | ok a s => exact hI s h
  | error e s => exact ⟨hI s h.1, h.2⟩

theorem finalState {r : EStateM.Result Fault σ α} (h : Ends I F r) : I (finalState r) := by
  cases r with
  | ok a s => exact h
  | error e s => exact h.1

end Ends

/-- `Ends`, and the value returned, if any, satisfies `V`. -/
def Yields (I : σ → Prop) (F : Fault → σ → Prop) (V : α → Prop) : EStateM.Result Fault σ α → Prop
  | .ok a s => I s ∧ V a
  | .error e s => I s ∧ F e s

namespace Yields

theorem ends {V : α → Prop} {r : EStateM.Result Fault σ α} (h : Yields I F V r) : Ends I F r := by
  cases r with
  | ok a s => exact h.1
  | error e s => exact h

/-- A sequence yields `V` when its first action ends well and the continuation
yields `V` from every state the first can leave. -/
theorem bind {V : β → Prop} {x : EStateM Fault σ α} {f : α → EStateM Fault σ β} {s : σ}
    (hx : Ends I F (x.run s)) (hf : ∀ a s', I s' → Yields I F V ((f a).run s')) :
    Yields I F V ((x >>= f).run s) := by
  rw [EStateM.run_bind]
  cases h : x.run s with
  | ok a s' =>
    rw [h] at hx
    exact hf a s' hx
  | error e s' =>
    rw [h] at hx
    exact hx

end Yields

end Ends

/-- Every bus request from a memory system in `I` ends in `I` and fails only
with a fault `F` allows; recording an instruction and delivering interrupts
keep `I`. -/
structure Bus.Confines {μ : Type} (bus : Bus μ) (I : μ → Prop) (F : Fault → μ → Prop) : Prop where
  read : ∀ a s, I s → Ends I F ((bus.read a).run s)
  write : ∀ a v s, I s → Ends I F ((bus.write a v).run s)
  trace : ∀ e s, I s → I (bus.trace e s)
  service : ∀ pc s, I s → I (bus.service pc s).2

/-- The faults a processor raises by itself: a register index out of range
and an illegal instruction. -/
def Fault.Processor : Fault → Prop
  | .indexOverflow | .indexOutOfRange | .assignmentOutOfRange => True
  | .illegalInstruction _ _ => True
  | _ => False

theorem Seq.read_error {α : Type} {a : Array α} {i : Int} {e : Fault} (h : Seq.read a i = .error e) :
    e.Processor := by
  unfold Seq.read at h
  split at h
  · cases h
    trivial
  · split at h
    · cases h
    · cases h
      trivial

theorem Seq.write_error {α : Type} {a : Array α} {i : Int} {v : α} {e : Fault}
    (h : Seq.write a i v = .error e) : e.Processor := by
  unfold Seq.write at h
  split at h
  · cases h
    trivial
  · split at h
    · cases h
    · cases h
      trivial

theorem Seq.size_write {α : Type} {a a' : Array α} {i : Int} {v : α}
    (h : Seq.write a i v = .ok a') : a'.size = a.size := by
  unfold Seq.write Seq.set? at h
  split at h
  · cases h
  · split at h
    · rename_i hs
      cases h
      obtain ⟨j, -, rfl⟩ := Option.map_eq_some_iff.mp hs
      rw [Array.set!_eq_setIfInBounds, Array.size_setIfInBounds]
    · cases h

section Confined

variable {μ : Type} {bus : Bus μ} {I : μ → Prop} {F : Fault → μ → Prop}

/-- The faults of a run: those the bus allows and the processor's own. -/
def Fault.OfRun (F : Fault → μ → Prop) (e : Fault) (s : μ) : Prop := F e s ∨ e.Processor

/-- Reading a register fails only as reading the register file there does. -/
theorem Cpu.register_ends_of {P : Fault → Prop} {cpu : Cpu} {r : Int} {s : μ}
    (hr : ∀ e, Seq.read cpu.registers r = .error e → P e) (hs : I s) :
    Ends I (fun e s => F e s ∨ P e) ((cpu.register r : EStateM Fault μ Int).run s) := by
  unfold Cpu.register
  cases h : Seq.read cpu.registers r with
  | ok v => exact Ends.pure hs
  | error e => exact Ends.throw hs (.inr (hr e h))

/-- Retiring keeps the size of the register file, and fails only as writing
the result back to `dest` does. -/
theorem Cpu.retire_yields {P : Fault → Prop} {cpu : Cpu} {dest : Int} {result target : Option Int}
    {halts : Bool} {s : μ} (hw : ∀ v e, Seq.write cpu.registers dest v = .error e → P e)
    (hs : I s) :
    Yields I (fun e s => F e s ∨ P e) (fun c : Cpu => c.registers.size = cpu.registers.size)
      ((Cpu.liftExcept (cpu.retire dest result target halts) : EStateM Fault μ Cpu).run s) := by
  unfold Cpu.liftExcept
  cases h : cpu.retire dest result target halts with
  | ok c =>
    refine ⟨hs, ?_⟩
    cases result with
    | none =>
      simp only [Cpu.retire, pure, Except.pure, bind, Except.bind, Except.ok.injEq] at h
      rw [← h]
    | some x =>
      simp only [Cpu.retire, Cpu.writeBack, bind, Except.bind] at h
      split at h
      · cases h
      · rename_i regs hregs
        simp only [pure, Except.pure, Except.ok.injEq] at h
        rw [← h]
        split at hregs
        · cases hregs
          rfl
        · exact Seq.size_write hregs
  | error e =>
    refine ⟨hs, .inr ?_⟩
    -- only writing the result back can fail
    cases result with
    | none =>
      simp only [Cpu.retire, pure, Except.pure, bind, Except.bind] at h
      cases h
    | some x =>
      simp only [Cpu.retire, Cpu.writeBack, bind, Except.bind] at h
      split at h
      · rename_i e' hregs
        cases h
        split at hregs
        · cases hregs
        · exact hw _ _ hregs
      · cases h

/-- One instruction from a memory system in `I` ends in `I` and keeps the size
of the register file.  It fails only with a fault the bus allows, an illegal
instruction, or a fault `P` allows on reading or writing a register it names;
`N` holds of every register index an instruction word names. -/
theorem Cpu.step_yields {P : Fault → Prop} {N : Int → Prop} (hbus : bus.Confines I F) {cpu : Cpu}
    (hill : ∀ pc op, P (.illegalInstruction pc op))
    (hN : ∀ w, N (Instruction.decode w).source ∧ N (Instruction.decode w).dest ∧
      N (bitAnd (Instruction.decode w).constant (cpu.registers.size - 1)))
    (hlink : N linkRegister)
    (hread : ∀ r e, N r → Seq.read cpu.registers r = .error e → P e)
    (hwrite : ∀ r v e, N r → Seq.write cpu.registers r v = .error e → P e) {s : μ} (hs : I s) :
    Yields I (fun e s => F e s ∨ P e) (fun c : Cpu => c.registers.size = cpu.registers.size)
      ((cpu.step bus).run s) := by
  have hbusread : ∀ a s, I s → Ends I (fun e s => F e s ∨ P e) ((bus.read a).run s) :=
    fun a s hs => (hbus.read a s hs).mono fun _ _ h => .inl h
  have hreg : ∀ r s, N r → I s →
      Ends I (fun e s => F e s ∨ P e) ((cpu.register r : EStateM Fault μ Int).run s) :=
    fun r _ hr hs => Cpu.register_ends_of (fun e h => hread r e hr h) hs
  have hret : ∀ dest result target halts s, N dest → I s →
      Yields I (fun e s => F e s ∨ P e) (fun c : Cpu => c.registers.size = cpu.registers.size)
        ((Cpu.liftExcept (cpu.retire dest result target halts) : EStateM Fault μ Cpu).run s) :=
    fun dest _ _ _ _ hd hs => Cpu.retire_yields (fun v e h => hwrite dest v e hd h) hs
  unfold Cpu.step
  refine Yields.bind (hbusread _ _ hs) fun w s₁ h₁ => ?_
  obtain ⟨hsource, hdest, hconstant⟩ := hN w
  dsimp only
  split
  next op _ =>
    refine Yields.bind (hreg _ _ hsource h₁) fun a s₂ h₂ => ?_
    refine Yields.bind (hreg _ _ hconstant h₂) fun b s₃ h₃ => ?_
    refine Yields.bind (Ends.modify (hbus.trace _ _ h₃)) fun _ s₄ h₄ => ?_
    cases op with
    | ld => exact Yields.bind (hbusread _ _ h₄) fun v s₅ h₅ => hret _ _ _ _ _ hdest h₅
    | st =>
      refine Yields.bind (hreg _ _ hdest h₄) fun v s₅ h₅ => ?_
      exact Yields.bind ((hbus.write _ _ _ h₅).mono fun _ _ h => .inl h) fun _ s₆ h₆ =>
        hret _ _ _ _ _ hdest h₆
    | call => exact hret _ _ _ _ _ hlink h₄
    | add | addi | sub | subi | mul | sge | sgt | seq | seqi | bt | bf | ba | jmp | halt =>
      exact hret _ _ _ _ _ hdest h₄
  next => exact ⟨h₁, .inr (hill _ _)⟩

/-- One instruction from a memory system in `I` ends in `I`, failing only with
a fault the bus allows or one of the processor's own. -/
theorem Cpu.step_ends (hbus : bus.Confines I F) {cpu : Cpu} {s : μ} (hs : I s) :
    Ends I (Fault.OfRun F) ((cpu.step bus).run s) :=
  (Cpu.step_yields (P := Fault.Processor) (N := fun _ => True) hbus (fun _ _ => trivial)
    (fun _ => ⟨trivial, trivial, trivial⟩) trivial (fun _ _ _ h => Seq.read_error h)
    (fun _ _ _ _ h => Seq.write_error h) hs).ends

theorem Computer.step_ends (hbus : bus.Confines I F) {c : Computer μ} (hc : I c.board) :
    Ends (fun c : Computer μ => I c.board) (fun e c => Fault.OfRun F e c.board)
      ((Computer.step bus).run c) := by
  have h : Ends I (Fault.OfRun F) ((c.cpu.step bus).run c.board) := Cpu.step_ends hbus hc
  show Ends _ _ (Computer.step bus c)
  unfold Computer.step
  cases hr : (c.cpu.step bus).run c.board with
  | ok cpu b =>
    rw [hr] at h
    exact h
  | error e b =>
    rw [hr] at h
    exact h

/-- A run keeps an invariant `K` of the computer, failing only with faults `G`
allows, when a round of interrupt delivery keeps `K` and every instruction from
a computer in `K` ends in it.  Induction on the budget, each round unfolded by
`Computer.run_round`. -/
theorem Computer.run_ends_of {K : Computer μ → Prop} {G : Fault → Computer μ → Prop}
    (hround : ∀ c stopped b, K c → bus.service c.cpu.pc c.board = (stopped, b) →
      K ⟨{ c.cpu with stopRequested := false }, b⟩)
    (hstep : ∀ c, K c → Ends K G ((Computer.step bus).run c)) (n : Nat) :
    ∀ {c : Computer μ}, K c → Ends K G ((Computer.run bus n).run c) := by
  induction n with
  | zero =>
    intro c hc
    rcases hservice : bus.service c.cpu.pc c.board with ⟨stopped, b⟩
    have hb := hround c stopped b hc hservice
    rw [Computer.run_round _ _ _ hservice]
    split
    · exact hb
    · split <;> exact hb
  | succ n ih =>
    intro c hc
    rcases hservice : bus.service c.cpu.pc c.board with ⟨stopped, b⟩
    have hb := hround c stopped b hc hservice
    rw [Computer.run_round _ _ _ hservice]
    split
    · exact hb
    split
    · exact hb
    · exact Ends.bind (hstep _ hb) fun _ _ h' => ih h'

/-- A whole run from a memory system in `I` ends in `I`, failing only with a
fault the bus allows or one of the processor's own. -/
theorem Computer.run_ends (hbus : bus.Confines I F) (n : Nat) :
    ∀ {c : Computer μ}, I c.board →
      Ends (fun c : Computer μ => I c.board) (fun e c => Fault.OfRun F e c.board)
        ((Computer.run bus n).run c) := by
  refine Computer.run_ends_of (fun c stopped b hc hservice => ?_)
    (fun _ hc => Computer.step_ends hbus hc) n
  have hb := hbus.service c.cpu.pc c.board hc
  rw [hservice] at hb
  exact hb

end Confined

end DemandPaging
