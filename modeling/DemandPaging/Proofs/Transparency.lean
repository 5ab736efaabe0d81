import DemandPaging.Proofs.Reachable

/-!
# Paging is transparent

A program sees memory through reads and writes of words at virtual
addresses.  Whatever the pager does underneath (zero-filling frames, evicting
clean pages, writing dirty ones to fresh or reused swap slots, reading them
back), a read must give the word of the latest write to its address, or zero.

To say so of a whole life of a machine, the machine is given a ghost history.
`Access` is a read or a write that returned; `Access.latest` is the word the
writes of a history leave at an address; `Access.Coherent` says every read of
a history gave that word.  `Bus.recorded` is the processor's bus on a memory
system that adds each access that returns to its history, and `Call.record`
makes a call on a machine with such a memory: direct reads and writes, the
writes of a program load, and the processor's fetches, loads and stores all
join the history.

Two facts carry the result.

* The history changes nothing: a call on the recorded machine does what the
  call does on the machine (`Call.record_forgets`), through `Computer.Twins`
  and the lockstep lemmas of `DemandPaging.Proofs.Lockstep`.
* `Faithful`: the board is sane, its view `Board.contents` is what the history
  shows, and the history is coherent.  Every bus request keeps it, by the
  specifications of `Board.readWord` and `Board.writeWord`, and so does every
  call (`Call.record_ends`).

`paging_transparent` puts them together from a new machine, whose memory
shows zero everywhere (`Machine.create_contents`).
-/

namespace DemandPaging

/-! ## Histories -/

/-- An access to memory that returned: a read that gave `x` at `a`, or a write
of `v` at `a`. -/
inductive Access where
  | read (a x : Int)
  | write (a v : Int)
  deriving DecidableEq, Repr

namespace Access

/-- The word at an address after the accesses of a history, newest first: the
word of the latest write there, or zero. -/
def latest : List Access → Int → Int
  | [], _ => 0
  | .read _ _ :: h, a => latest h a
  | .write a' v :: h, a => if a = a' then wrapWord v else latest h a

/-- Every read of a history, newest first, gave the word that the writes
before it left. -/
def Coherent : List Access → Prop
  | [] => True
  | .read a x :: h => x = latest h a ∧ Coherent h
  | .write _ _ :: h => Coherent h

@[simp] theorem latest_read (a x : Int) (h : List Access) : latest (.read a x :: h) = latest h :=
  funext fun _ => rfl

@[simp] theorem latest_write (a v : Int) (h : List Access) :
    latest (.write a v :: h) = fun c => if c = a then wrapWord v else latest h c :=
  funext fun _ => rfl

end Access

/-! ## Recording the accesses -/

section Recording

variable {μ α : Type}

/-- Run `act`, adding `note x` to the history when it returns `x`. -/
def record (act : EStateM Fault μ α) (note : α → Access) : EStateM Fault (μ × List Access) α :=
  fun s =>
    match act.run s.1 with
    | .ok x s' => .ok x (s', note x :: s.2)
    | .error e s' => .error e (s', s.2)

/-- Run `act`, leaving the history as it is. -/
def keep (act : EStateM Fault μ α) : EStateM Fault (μ × List Access) α :=
  fun s =>
    match act.run s.1 with
    | .ok x s' => .ok x (s', s.2)
    | .error e s' => .error e (s', s.2)

/-- The bus of `bus` on a memory system that keeps the reads and writes that
returned. -/
def Bus.recorded (bus : Bus μ) : Bus (μ × List Access) where
  read a := record (bus.read a) (.read a)
  write a v := record (bus.write a v) fun _ => .write a v
  trace e s := (bus.trace e s.1, s.2)
  service pc s := ((bus.service pc s.1).1, (bus.service pc s.1).2, s.2)

/-- A memory system with a history is `t` once the history is forgotten. -/
def Forgets (s : μ × List Access) (t : μ) : Prop := s.1 = t

theorem agrees_record (act : EStateM Fault μ α) (note : α → Access) (s : μ × List Access) :
    Agrees Forgets (fun _ => False) (fun _ => True) ((record act note).run s) (act.run s.1) := by
  show Agrees _ _ _ (record act note s) _
  unfold record
  cases act.run s.1 with
  | ok x s' => exact ⟨trivial, s', rfl, rfl⟩
  | error e s' => exact .inr ⟨s', rfl, rfl⟩

theorem agrees_keep (act : EStateM Fault μ α) (s : μ × List Access) :
    Agrees Forgets (fun _ => False) (fun _ => True) ((keep act).run s) (act.run s.1) := by
  show Agrees _ _ _ (keep act s) _
  unfold keep
  cases act.run s.1 with
  | ok x s' => exact ⟨trivial, s', rfl, rfl⟩
  | error e s' => exact .inr ⟨s', rfl, rfl⟩

/-- Recording changes nothing the bus answers. -/
theorem Bus.recorded_lockstep (bus : Bus μ) (W : Int → Prop) :
    bus.recorded.Lockstep bus Forgets W (fun _ => False) where
  read a x y hxy _ := by
    subst hxy
    exact agrees_record _ _ x
  write a v x y hxy _ _ := by
    subst hxy
    exact agrees_record _ _ x
  trace e x y hxy := by
    subst hxy
    rfl
  service pc x y hxy := by
    subst hxy
    exact ⟨rfl, rfl⟩

end Recording

/-! ## Machines that keep a history -/

/-- A machine whose board keeps the history of its accesses. -/
abbrev Recorded := Computer (Board × List Access)

/-- Run a memory action on a computer's memory system. -/
def Computer.onMemory {μ α : Type} (act : EStateM Fault μ α) : EStateM Fault (Computer μ) α :=
  fun c =>
    match act.run c.board with
    | .ok a b => .ok a { c with board := b }
    | .error e b => .error e { c with board := b }

/-- Run a machine action on a machine that keeps a history, leaving the history
as it is. -/
def keepHistory {α : Type} (act : MachineM α) : EStateM Fault Recorded α := fun M =>
  match act.run ⟨M.cpu, M.board.1⟩ with
  | .ok x m => .ok x ⟨m.cpu, (m.board, M.board.2)⟩
  | .error e m => .error e ⟨m.cpu, (m.board, M.board.2)⟩

/-- Store words, each write recorded, as `Board.storeWords` stores them. -/
def recordStores (start : Int) : List Int → EStateM Fault (Board × List Access) Unit
  | [] => pure ()
  | w :: ws => do
    Machine.bus.recorded.write start w
    recordStores (start + 1) ws

namespace Call

/-- A call on a machine that keeps a history: every read and write the call
makes of memory, directly or through the processor, joins the history when it
returns; the rest is as `perform` does it. -/
def record : Call → EStateM Fault Recorded Unit
  | .read a => do
    let _ ← Computer.onMemory (Machine.bus.recorded.read a)
    pure ()
  | .write a v => Computer.onMemory (Machine.bus.recorded.write a v)
  | .load words => do
    let _ ← Computer.onMemory do
      recordStores 0 words
      keep (Board.note .info "machine" s!"loaded {words.length} instructions" 0)
      pure words.length
    pure ()
  | .step => Computer.step Machine.bus.recorded
  | .run limit => do
    let _ ← Computer.run Machine.bus.recorded (budgetOf limit) >>= fun outcome =>
      keepHistory do
        let m ← get
        let name := outcome.name
        let steps := m.cpu.steps
        Machine.onBoard (Board.note .info "machine" s!"run ended ({name}) after {steps} instructions"
          m.board.stats.accesses)
        pure outcome
    pure ()
  | .stop => keepHistory Machine.requestStop
  | .setRegister r v => keepHistory (Machine.setRegister r v)
  | .setPc v => keepHistory (Machine.setPc v)
  | .clearLog => keepHistory Machine.clearLog

end Call

section Forgetting

variable {μ₁ μ₂ α : Type} {R : μ₁ → μ₂ → Prop} {W : Int → Prop} {spared : Fault → Prop}

theorem Computer.onMemory_agrees {P : α → Prop} {act₁ : EStateM Fault μ₁ α}
    {act₂ : EStateM Fault μ₂ α} {c₁ : Computer μ₁} {c₂ : Computer μ₂}
    (h : Computer.Twins R W c₁ c₂) (hact : Agrees R spared P (act₁.run c₁.board) (act₂.run c₂.board)) :
    Agrees (Computer.Twins R W) spared P ((Computer.onMemory act₁).run c₁)
      ((Computer.onMemory act₂).run c₂) := by
  obtain ⟨hcpu, hregs, -⟩ := h
  show Agrees _ _ _ (Computer.onMemory act₁ c₁) (Computer.onMemory act₂ c₂)
  unfold Computer.onMemory
  cases h₁ : act₁.run c₁.board with
  | ok a s =>
    rw [h₁] at hact
    obtain ⟨ha, t, h₂, hR⟩ := hact
    rw [h₂]
    exact ⟨ha, _, rfl, hcpu, hregs, hR⟩
  | error e s =>
    rw [h₁] at hact
    rcases hact with hs | ⟨t, h₂, hR⟩
    · exact .inl hs
    · rw [h₂]
      exact .inr ⟨_, rfl, hcpu, hregs, hR⟩

theorem Machine.onBoard_eq_onMemory {α : Type} (act : BoardM α) :
    Machine.onBoard act = Computer.onMemory act := by
  funext m
  unfold Machine.onBoard Computer.onMemory
  cases act.run m.board <;> rfl

theorem keepHistory_agrees {act : MachineM α} {M : Recorded} {m : Machine}
    (h : Computer.Twins Forgets (fun _ => True) M m) :
    Agrees (Computer.Twins Forgets (fun _ => True)) (fun _ => False) (fun _ => True)
      ((keepHistory act).run M) (act.run m) := by
  obtain ⟨hcpu, -, hb⟩ := h
  obtain ⟨cpu, b⟩ := m
  change M.cpu = cpu at hcpu
  change M.board.1 = b at hb
  subst hcpu hb
  show Agrees _ _ _ (keepHistory act M) _
  unfold keepHistory
  cases act.run ⟨M.cpu, M.board.1⟩ with
  | ok x m => exact ⟨trivial, _, rfl, rfl, ⟨trivial, fun _ _ => trivial⟩, rfl⟩
  | error e m => exact .inr ⟨_, rfl, rfl, ⟨trivial, fun _ _ => trivial⟩, rfl⟩

theorem recordStores_agrees (start : Int) (ws : List Int) :
    ∀ {s : Board × List Access} {t : Board}, Forgets s t →
      Agrees Forgets (fun _ => False) (fun _ => True) ((recordStores start ws).run s)
        ((Board.storeWords start ws).run t) := by
  induction ws generalizing start with
  | nil =>
    intro s t h
    exact Agrees.pure h trivial
  | cons w ws ih =>
    intro s t h
    subst h
    exact Agrees.bind (agrees_record _ _ s) fun _ _ _ _ h' => ih (start + 1) h'

/-- A call on a machine that keeps a history does what the call does on the
machine, the history forgotten. -/
theorem Call.record_forgets (c : Call) {M : Recorded} {m : Machine}
    (h : Computer.Twins Forgets (fun _ => True) M m) :
    Agrees (Computer.Twins Forgets (fun _ => True)) (fun _ => False) (fun _ => True)
      (c.record.run M) (c.perform.run m) := by
  have hboard : ∀ {β : Type} {act₁ : EStateM Fault (Board × List Access) β} {act₂ : BoardM β},
      (∀ s t, Forgets s t → Agrees Forgets (fun _ => False) (fun _ => True) (act₁.run s) (act₂.run t)) →
      Agrees (Computer.Twins Forgets (fun _ => True)) (fun _ => False) (fun _ => True)
        ((Computer.onMemory act₁).run M) ((Machine.onBoard act₂).run m) :=
    fun hact => by
      rw [Machine.onBoard_eq_onMemory]
      exact Computer.onMemory_agrees h (hact _ _ h.2.2)
  cases c with
  | read a =>
    refine Agrees.bind (hboard fun s t hst => ?_) fun _ _ _ _ h' => Agrees.pure h' trivial
    subst hst
    exact agrees_record _ _ s
  | write a v =>
    refine hboard fun s t hst => ?_
    subst hst
    exact agrees_record _ _ s
  | load words =>
    refine Agrees.bind (hboard fun s t hst => ?_) fun _ _ _ _ h' => Agrees.pure h' trivial
    refine Agrees.bind (recordStores_agrees 0 words hst) fun _ _ s₁ t₁ h₁ => ?_
    refine Agrees.bind (by subst h₁; exact agrees_keep _ s₁) fun _ _ s₂ t₂ h₂ => ?_
    exact Agrees.pure h₂ trivial
  | step => exact Computer.step_lockstep (Bus.recorded_lockstep _ _) (fun _ => trivial) h
  | run limit =>
    refine Agrees.bind (Agrees.bind
      (Computer.run_lockstep (Bus.recorded_lockstep _ _) (fun _ => trivial) _ h)
      fun _ _ _ _ h' => keepHistory_agrees h') fun _ _ _ _ h' => Agrees.pure h' trivial
  | stop => exact @keepHistory_agrees _ Machine.requestStop M m h
  | setRegister r v => exact @keepHistory_agrees _ (Machine.setRegister r v) M m h
  | setPc v => exact @keepHistory_agrees _ (Machine.setPc v) M m h
  | clearLog => exact @keepHistory_agrees _ Machine.clearLog M m h

end Forgetting

/-! ## The view follows the history -/

namespace Board

variable {b b' b'' : Board}

/-- The board `b'` differs from `b` at most in its log and its interrupts. -/
def Aside (b b' : Board) : Prop := b' = { b with log := b'.log, interrupts := b'.interrupts }

theorem Aside.refl (b : Board) : b.Aside b := rfl

theorem Aside.log (h : b.Aside b') (l : Log) : b.Aside { b' with log := l } := by
  rw [h]
  rfl

theorem Aside.interrupts (h : b.Aside b') (c : Controller Handler) :
    b.Aside { b' with interrupts := c } := by
  rw [h]
  rfl

theorem Aside.foldl_log {α : Type} (f : Board → α → Log) (l : List α) :
    ∀ {b' : Board}, b.Aside b' → b.Aside (l.foldl (fun b x => { b with log := f b x }) b') := by
  induction l with
  | nil =>
    intro b' h
    exact h
  | cons x l ih =>
    intro b' h
    exact ih (h.log _)

/-- Delivering interrupts touches only the interrupts and the log. -/
theorem service_aside (pc : Int) (b : Board) : b.Aside (service pc b).2 :=
  Aside.foldl_log _ _ ((Aside.refl b).interrupts _)

/-- A board whose pages are all blank shows zero at every address. -/
theorem contents_blank {n : Nat} (hp : b.pages = Array.replicate n {}) : b.contents = fun _ => 0 := by
  have hpage : ∀ v o, b.pageWord v o = 0 := by
    intro v o
    unfold pageWord
    rw [getElem?_table, hp, Array.getElem?_replicate]
    by_cases hv : v < n
    · simp [hv, backing, PageEntry.unreferenced]
    · simp [hv]
  funext a
  unfold contents
  split
  · exact hpage _ _
  · rfl

end Board

/-- A new machine shows zero at every address. -/
theorem Machine.create_contents {g : Geometry} {kind : PolicyKind} {trace : Option (List Int)}
    {record : Bool} {log : Log} {m : Machine} (h : Machine.create g kind trace record log = .ok m) :
    m.board.contents = fun _ => 0 := by
  obtain ⟨b, hb, -, hm⟩ := Machine.create_ok h
  have hp := (Board.create_ok hb).2.1
  rw [hm]
  exact Board.contents_blank hp

/-- A board with a history: sane at `g`, showing at each address the word the
history last wrote there, and every read of the history coherent. -/
def Faithful (g : Geometry) (s : Board × List Access) : Prop :=
  s.1.Sane g ∧ s.1.contents = Access.latest s.2 ∧ Access.Coherent s.2

section Faithful

variable {g : Geometry} {s : Board × List Access}

/-- The log and the interrupts are no part of faithfulness. -/
theorem Faithful.aside {b' : Board} (h : Faithful g s) (ha : s.1.Aside b') : Faithful g (b', s.2) := by
  obtain ⟨hsane, hview, hcoh⟩ := h
  rw [ha]
  exact ⟨(hsane.log b'.log).interrupts b'.interrupts, hview, hcoh⟩

/-- A read that returns gives the word the history last wrote, and joins the
history without changing what it shows. -/
theorem Faithful.read (h : Faithful g s) (a : Int) :
    Ends (Faithful g) (fun _ _ => True) ((Machine.bus.recorded.read a).run s) := by
  obtain ⟨hsane, hview, hcoh⟩ := h
  have hspec := Board.readWord_spec hsane.1 a
  show Ends _ _ (record (Board.readWord a) (.read a) s)
  unfold record
  cases hr : (Board.readWord a).run s.1 with
  | ok x b' =>
    rw [hr] at hspec
    obtain ⟨hkept, hc, -, hx⟩ := hspec
    refine ⟨⟨hkept.consistent, hkept.geometry.trans hsane.2⟩, ?_, ?_, hcoh⟩
    · rw [Access.latest_read, hc, hview]
    · rw [hx, hview]
  | error e b' =>
    rw [hr] at hspec
    obtain ⟨hkept, hc, -⟩ := hspec
    exact ⟨⟨⟨hkept.consistent, hkept.geometry.trans hsane.2⟩, by rw [hc, hview], hcoh⟩, trivial⟩

/-- A write that returns changes the word at its address as the history now
shows it; one that fails changes no word. -/
theorem Faithful.write (h : Faithful g s) (a v : Int) :
    Ends (Faithful g) (fun _ _ => True) ((Machine.bus.recorded.write a v).run s) := by
  obtain ⟨hsane, hview, hcoh⟩ := h
  have hspec := Board.writeWord_spec hsane.1 a v
  show Ends _ _ (record (Board.writeWord a v) (fun _ => .write a v) s)
  unfold record
  cases hr : (Board.writeWord a v).run s.1 with
  | ok x b' =>
    rw [hr] at hspec
    obtain ⟨hkept, hc, -⟩ := hspec
    refine ⟨⟨hkept.consistent, hkept.geometry.trans hsane.2⟩, ?_, hcoh⟩
    rw [Access.latest_write, hc, hview]
  | error e b' =>
    rw [hr] at hspec
    obtain ⟨hkept, hc, -⟩ := hspec
    exact ⟨⟨⟨hkept.consistent, hkept.geometry.trans hsane.2⟩, by rw [hc, hview], hcoh⟩, trivial⟩

/-- The recording bus keeps faithfulness through every request. -/
theorem Faithful.confines (g : Geometry) :
    Machine.bus.recorded.Confines (Faithful g) (fun _ _ => True) where
  read a _ h := h.read a
  write a v _ h := h.write a v
  trace _ _ h := h.aside ((Board.Aside.refl _).log _)
  service pc s h := h.aside (Board.service_aside pc s.1)

theorem recordStores_ends (start : Int) (ws : List Int) :
    ∀ {s : Board × List Access}, Faithful g s →
      Ends (Faithful g) (fun _ _ => True) ((recordStores start ws).run s) := by
  induction ws generalizing start with
  | nil =>
    intro s h
    exact Ends.pure h
  | cons w ws ih =>
    intro s h
    exact Ends.bind (h.write start w) fun _ _ h' => ih (start + 1) h'

theorem Computer.onMemory_ends {μ α : Type} {act : EStateM Fault μ α} {I : μ → Prop}
    {F : Fault → μ → Prop} {c : Computer μ} (h : Ends I F (act.run c.board)) :
    Ends (fun c : Computer μ => I c.board) (fun e c => F e c.board)
      ((Computer.onMemory act).run c) := by
  show Ends _ _ (Computer.onMemory act c)
  unfold Computer.onMemory
  cases hr : act.run c.board with
  | ok a b =>
    rw [hr] at h
    exact h
  | error e b =>
    rw [hr] at h
    exact h

/-- A machine action that touches only the log and the interrupts keeps a
faithful history. -/
theorem keepHistory_ends {α : Type} {act : MachineM α} {M : Recorded} {F : Fault → Machine → Prop}
    (h : Faithful g M.board)
    (hact : Ends (fun m : Machine => M.board.1.Aside m.board) F (act.run ⟨M.cpu, M.board.1⟩)) :
    Ends (fun M : Recorded => Faithful g M.board) (fun _ _ => True) ((keepHistory act).run M) := by
  show Ends _ _ (keepHistory act M)
  unfold keepHistory
  cases hr : act.run ⟨M.cpu, M.board.1⟩ with
  | ok x m =>
    rw [hr] at hact
    exact h.aside hact
  | error e m =>
    rw [hr] at hact
    exact ⟨h.aside hact.1, trivial⟩

end Faithful


section Calls

variable {g : Geometry}

theorem keep_ends {α : Type} {act : BoardM α} {s : Board × List Access} {F : Fault → Board → Prop}
    (h : Faithful g s) (hact : Ends s.1.Aside F (act.run s.1)) :
    Ends (Faithful g) (fun _ _ => True) ((keep act).run s) := by
  show Ends _ _ (keep act s)
  unfold keep
  cases hr : act.run s.1 with
  | ok x b =>
    rw [hr] at hact
    exact h.aside hact
  | error e b =>
    rw [hr] at hact
    exact ⟨h.aside hact.1, trivial⟩

/-- A stop request touches only the interrupts. -/
theorem Machine.requestStop_aside (m : Machine) :
    Ends (fun m' : Machine => m.board.Aside m'.board) (fun _ _ => True) (Machine.requestStop.run m) := by
  refine Machine.onBoard_ends (F := fun _ _ => True) ?_
  simp only [EStateM.run_bind, EStateM.run_get]
  cases m.board.interrupts.raise stopVector with
  | ok c =>
    simp only [Board.ofExcept_run_ok, EStateM.run_set]
    exact (Board.Aside.refl _).interrupts c
  | error e =>
    simp only [Board.ofExcept_run_error]
    exact ⟨Board.Aside.refl _, trivial⟩

theorem Machine.setRegister_aside (m : Machine) (r v : Int) :
    Ends (fun m' : Machine => m.board.Aside m'.board) (fun _ _ => True)
      ((Machine.setRegister r v).run m) := by
  show Ends _ _ (Machine.setRegister r v m)
  unfold Machine.setRegister
  cases m.cpu.setRegister r v with
  | ok cpu => exact Board.Aside.refl _
  | error e => exact ⟨Board.Aside.refl _, trivial⟩

/-- Every call keeps a faithful history, returned or failed. -/
theorem Call.record_ends (c : Call) {M : Recorded} (h : Faithful g M.board) :
    Ends (fun M : Recorded => Faithful g M.board) (fun _ _ => True) (c.record.run M) := by
  cases c with
  | read a => exact Ends.bind (Computer.onMemory_ends (h.read a)) fun _ _ h' => Ends.pure h'
  | write a v => exact Computer.onMemory_ends (h.write a v)
  | load words =>
    refine Ends.bind (Computer.onMemory_ends (I := Faithful g) (F := fun _ _ => True) ?_)
      fun _ _ h' => Ends.pure h'
    refine Ends.bind (recordStores_ends 0 words h) fun _ s₁ h₁ => ?_
    refine Ends.bind (keep_ends (F := fun _ _ => True) h₁ (Ends.modify ((Board.Aside.refl _).log _)))
      fun _ _ h₂ => Ends.pure h₂
  | step => exact (Computer.step_ends (Faithful.confines g) h).mono fun _ _ _ => trivial
  | run limit =>
    refine Ends.bind (Ends.bind
      ((Computer.run_ends (Faithful.confines g) (budgetOf limit) h).mono fun _ _ _ => trivial)
      fun o M' h' => ?_) fun _ _ h' => Ends.pure h'
    refine keepHistory_ends (F := fun _ _ => True) h' ?_
    -- only the log changes after the run
    refine Ends.bind (x := get) (Board.Aside.refl _) fun m'' _ h'' => ?_
    exact Ends.bind (Machine.onBoard_ends (I := M'.board.1.Aside) (F := fun _ _ => True)
      (Ends.modify (h''.log _))) fun _ _ h₃ => Ends.pure h₃
  | stop => exact keepHistory_ends h (Machine.requestStop_aside _)
  | setRegister r v => exact keepHistory_ends h (Machine.setRegister_aside _ r v)
  | setPc v =>
    exact keepHistory_ends (F := fun _ _ => True) h
      (Ends.modify (f := fun m : Machine => { m with cpu.pc := v }) (Board.Aside.refl _))
  | clearLog =>
    exact keepHistory_ends (F := fun _ _ => True) h
      (Ends.modify (f := fun m : Machine => { m with board.log := m.board.log.clear })
        ((Board.Aside.refl _).log _))

end Calls

/-- The machine after the calls `cs`, made in turn, each returned or failed. -/
def Call.performAll (cs : List Call) (m : Machine) : Machine :=
  cs.foldl (fun m c => finalState (c.perform.run m)) m

/-- The same calls on a machine that keeps a history. -/
def Call.recordAll (cs : List Call) (M : Recorded) : Recorded :=
  cs.foldl (fun M c => finalState (c.record.run M)) M

theorem Agrees.finalState {σ₁ σ₂ α : Type} {R : σ₁ → σ₂ → Prop} {P : α → Prop}
    {r₁ : EStateM.Result Fault σ₁ α} {r₂ : EStateM.Result Fault σ₂ α}
    (h : Agrees R (fun _ => False) P r₁ r₂) : R (finalState r₁) (finalState r₂) := by
  cases r₁ with
  | ok a s =>
    obtain ⟨-, t, rfl, hR⟩ := h
    exact hR
  | error e s =>
    rcases h with h | ⟨t, rfl, hR⟩
    · exact h.elim
    · exact hR

/-- Along any calls, a faithful history stays faithful and forgets to the
machine the calls make.  Induction on the calls. -/
theorem Call.recordAll_faithful {g : Geometry} (cs : List Call) :
    ∀ {M : Recorded} {m : Machine}, Faithful g M.board → Computer.Twins Forgets (fun _ => True) M m →
      Faithful g (Call.recordAll cs M).board ∧
        Computer.Twins Forgets (fun _ => True) (Call.recordAll cs M) (Call.performAll cs m) := by
  induction cs with
  | nil =>
    intro M m h ht
    exact ⟨h, ht⟩
  | cons c cs ih =>
    intro M m h ht
    exact ih (c.record_ends h).finalState (c.record_forgets ht).finalState

/-- Paging is transparent.  Make a machine of a valid geometry, with any
policy, and make any calls on it, each returned or failed; keep the history of
the reads and writes that returned, direct ones and those of the processor, a
program load counting as writes from address 0.  Then every read gave the word
of the latest write to its address before it, or zero, and the view of the
machine's memory is what the history last wrote: the pager behaves as a flat
memory of words that starts at zero, whatever pages it evicts. -/
theorem paging_transparent {g : Geometry} {kind : PolicyKind} {trace : Option (List Int)}
    {record : Bool} {log : Log} {m : Machine} (hg : g.validate = .ok g)
    (hm : Machine.create g kind trace record log = .ok m) (cs : List Call) :
    Access.Coherent (Call.recordAll cs ⟨m.cpu, (m.board, [])⟩).board.2 ∧
      (Call.performAll cs m).board.contents =
        Access.latest (Call.recordAll cs ⟨m.cpu, (m.board, [])⟩).board.2 ∧
      (Call.recordAll cs ⟨m.cpu, (m.board, [])⟩).cpu = (Call.performAll cs m).cpu ∧
      (Call.recordAll cs ⟨m.cpu, (m.board, [])⟩).board.1 = (Call.performAll cs m).board := by
  have hstart : Faithful g (m.board, []) :=
    ⟨Machine.create_sane hg hm, Machine.create_contents hm, trivial⟩
  obtain ⟨⟨-, hview, hcoh⟩, hcpu, -, hboard⟩ :=
    Call.recordAll_faithful cs (M := ⟨m.cpu, (m.board, [])⟩) hstart
      ⟨rfl, ⟨trivial, fun _ _ => trivial⟩, rfl⟩
  refine ⟨hcoh, ?_, hcpu, hboard⟩
  rw [← show (Call.recordAll cs ⟨m.cpu, (m.board, [])⟩).board.1 = (Call.performAll cs m).board
    from hboard]
  exact hview

theorem paging_transparent_small :
    ∃ m : Machine, Machine.create smallGeometry .fifo none false {} = .ok m ∧
      Access.Coherent (Call.recordAll [.write 5 7, .read 5] ⟨m.cpu, (m.board, [])⟩).board.2 := by
  obtain ⟨m, hm⟩ : ∃ m, Machine.create smallGeometry .fifo none false {} = .ok m := ⟨_, rfl⟩
  exact ⟨m, hm, (paging_transparent rfl hm _).1⟩

end DemandPaging
