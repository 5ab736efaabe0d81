import DemandPaging.Proofs.Accounting
import DemandPaging.Proofs.Transparency

/-!
# The statistics count translations

Every access to memory is one translation: a direct read or write, each word
a program load stores, each instruction the processor fetches and each load
or store it makes.  `Board.translate_accounts` says what one translation adds
to the four counters of a board; this module says it of a whole life of a
machine.

For that the machine keeps a ghost audit, newest first.  `audit a act` runs a
memory request that translates `a` and adds what the translation did
(`Translation.observe`) to the audit, whether the request returns or fails.
`Machine.auditedBus` is the processor's bus on such a memory, and `Call.audit`
makes a call on a machine with an audit.  As for the history of
`DemandPaging.Proofs.Transparency`, two facts carry the result.

* The audit changes nothing: a call on the audited machine does what the
  call does on the machine (`Call.audit_forgets`).
* `Accounted`: the board is sane, its counters are the totals of the audit
  (`Translation.totals`), and every audited translation is one a pager can
  make (`Translation.Possible`).  Every bus request keeps it, by
  `Board.readWord_accounts` and `Board.writeWord_accounts`, and so does every
  call (`Call.audit_ends`).

`statistics_count_translations` puts them together from a new machine.
-/

namespace DemandPaging

/-! ## Totals of an audit -/

namespace Translation

/-- The counters a list of translations adds up to, from zero. -/
def totals (h : List Translation) : Statistics := h.foldr (fun t s => s.count t) {}

@[simp] theorem totals_nil : totals [] = {} := rfl

@[simp] theorem totals_cons (t : Translation) (h : List Translation) :
    totals (t :: h) = (totals h).count t := rfl

/-- Counting along an audit, the newest translation counts one if it did the
thing counted. -/
theorem countP_cons_toNat (p : Translation → Bool) (t : Translation) (h : List Translation) :
    (t :: h).countP p = h.countP p + (p t).toNat := by
  rw [List.countP_cons]
  cases p t <;> rfl

/-- Each counter counts the translations that did its thing. -/
theorem totals_eq (h : List Translation) :
    totals h =
      { accesses := h.length, faults := h.countP (·.fault),
        diskReads := h.countP (·.diskRead), diskWrites := h.countP (·.dirtyEviction) } := by
  induction h with
  | nil => rfl
  | cons t h ih =>
    simp only [totals_cons, ih, Statistics.count, List.length_cons, countP_cons_toNat]

/-- What one possible translation adds: a disk read, an eviction of a dirty
page or a fresh frame only with a fault, and never both of the last two. -/
theorem Possible.toNat_le {t : Translation} (ht : t.Possible) :
    t.diskRead.toNat ≤ t.fault.toNat ∧ t.dirtyEviction.toNat + t.freshFrame.toNat ≤ t.fault.toNat := by
  cases hf : t.fault
  · have hr : t.diskRead = false := Bool.eq_false_iff.mpr fun h => by simpa [hf] using ht.diskRead h
    have hn : t.freshFrame = false := Bool.eq_false_iff.mpr fun h => by simpa [hf] using ht.freshFrame h
    have hd : t.dirtyEviction = false :=
      Bool.eq_false_iff.mpr fun h => by simpa [hf] using (ht.dirtyEviction h).1
    simp [hr, hn, hd]
  · -- a fault takes a fresh frame or evicts, not both
    have hboth : t.dirtyEviction.toNat + t.freshFrame.toNat ≤ 1 := by
      cases hd : t.dirtyEviction
      · cases t.freshFrame <;> simp
      · simp [(ht.dirtyEviction hd).2]
    exact ⟨Bool.toNat_le _, hboth⟩

/-- Along possible translations, disk reads and evictions of dirty pages are
bounded by the faults, and the faults by the accesses. -/
theorem totals_bounded :
    ∀ {h : List Translation}, (∀ t ∈ h, t.Possible) →
      (totals h).diskReads ≤ (totals h).faults ∧ (totals h).faults ≤ (totals h).accesses ∧
        (totals h).diskWrites + h.countP (·.freshFrame) ≤ (totals h).faults
  | [], _ => by simp
  | t :: h, hp => by
    have ih := totals_bounded fun t' ht' => hp t' (List.mem_cons_of_mem t ht')
    have ⟨hr, hw⟩ := (hp t List.mem_cons_self).toNat_le
    have hf := Bool.toNat_le t.fault
    simp only [totals_cons, Statistics.count, countP_cons_toNat]
    omega

end Translation

/-! ## Keeping the audit -/

section Auditing

variable {α : Type}

/-- Run a memory request that translates `a`, adding what the translation did
to the audit whether the request returns or fails. -/
def audit (a : Int) (act : BoardM α) : EStateM Fault (Board × List Translation) α :=
  fun s =>
    match act.run s.1 with
    | .ok x b => .ok x (b, Translation.observe s.1 a b :: s.2)
    | .error e b => .error e (b, Translation.observe s.1 a b :: s.2)

/-- Run a board action that translates nothing, leaving the audit as it is. -/
def unaudited (act : BoardM α) : EStateM Fault (Board × List Translation) α :=
  fun s =>
    match act.run s.1 with
    | .ok x b => .ok x (b, s.2)
    | .error e b => .error e (b, s.2)

/-- The processor's bus on a memory that audits its translations. -/
def Machine.auditedBus : Bus (Board × List Translation) where
  read a := audit a (Board.readWord a)
  write a v := audit a (Board.writeWord a v)
  trace e s := (Machine.bus.trace e s.1, s.2)
  service pc s := ((Machine.bus.service pc s.1).1, (Machine.bus.service pc s.1).2, s.2)

/-- A board with an audit is `t` once the audit is forgotten. -/
def AuditForgets (s : Board × List Translation) (t : Board) : Prop := s.1 = t

theorem agrees_audit (a : Int) (act : BoardM α) (s : Board × List Translation) :
    Agrees AuditForgets (fun _ => False) (fun _ => True) ((audit a act).run s) (act.run s.1) := by
  show Agrees _ _ _ (audit a act s) _
  unfold audit
  cases act.run s.1 with
  | ok x b => exact ⟨trivial, b, rfl, rfl⟩
  | error e b => exact .inr ⟨b, rfl, rfl⟩

theorem agrees_unaudited (act : BoardM α) (s : Board × List Translation) :
    Agrees AuditForgets (fun _ => False) (fun _ => True) ((unaudited act).run s) (act.run s.1) := by
  show Agrees _ _ _ (unaudited act s) _
  unfold unaudited
  cases act.run s.1 with
  | ok x b => exact ⟨trivial, b, rfl, rfl⟩
  | error e b => exact .inr ⟨b, rfl, rfl⟩

/-- Auditing changes nothing the bus answers. -/
theorem Machine.auditedBus_lockstep (W : Int → Prop) :
    Machine.auditedBus.Lockstep Machine.bus AuditForgets W (fun _ => False) where
  read a x y hxy _ := by
    subst hxy
    exact agrees_audit _ _ x
  write a v x y hxy _ _ := by
    subst hxy
    exact agrees_audit _ _ x
  trace e x y hxy := by
    subst hxy
    rfl
  service pc x y hxy := by
    subst hxy
    exact ⟨rfl, rfl⟩

end Auditing

/-! ## Machines that keep an audit -/

/-- A machine whose board keeps an audit of its translations. -/
abbrev Audited := Computer (Board × List Translation)

/-- Run a machine action that translates nothing on an audited machine,
leaving the audit as it is. -/
def Audited.lift {α : Type} (act : MachineM α) : EStateM Fault Audited α := fun M =>
  match act.run ⟨M.cpu, M.board.1⟩ with
  | .ok x m => .ok x ⟨m.cpu, (m.board, M.board.2)⟩
  | .error e m => .error e ⟨m.cpu, (m.board, M.board.2)⟩

/-- Store words, each write audited, as `Board.storeWords` stores them. -/
def auditStores (start : Int) : List Int → EStateM Fault (Board × List Translation) Unit
  | [] => pure ()
  | w :: ws => do
    Machine.auditedBus.write start w
    auditStores (start + 1) ws

namespace Call

/-- A call on an audited machine: every translation the call makes, directly
or through the processor, joins the audit; the rest is as `perform` does it. -/
def audit : Call → EStateM Fault Audited Unit
  | .read a => do
    let _ ← Computer.onMemory (Machine.auditedBus.read a)
    pure ()
  | .write a v => Computer.onMemory (Machine.auditedBus.write a v)
  | .load words => do
    let _ ← Computer.onMemory do
      auditStores 0 words
      unaudited (Board.note .info "machine" s!"loaded {words.length} instructions" 0)
      pure words.length
    pure ()
  | .step => Computer.step Machine.auditedBus
  | .run limit => do
    let _ ← Computer.run Machine.auditedBus (budgetOf limit) >>= fun outcome =>
      Audited.lift do
        let m ← get
        let name := outcome.name
        let steps := m.cpu.steps
        Machine.onBoard (Board.note .info "machine" s!"run ended ({name}) after {steps} instructions"
          m.board.stats.accesses)
        pure outcome
    pure ()
  | .stop => Audited.lift Machine.requestStop
  | .setRegister r v => Audited.lift (Machine.setRegister r v)
  | .setPc v => Audited.lift (Machine.setPc v)
  | .clearLog => Audited.lift Machine.clearLog

/-- The same calls as `performAll`, on an audited machine. -/
def auditAll (cs : List Call) (M : Audited) : Audited :=
  cs.foldl (fun M c => finalState (c.audit.run M)) M

end Call

section Forgetting

variable {α : Type}

theorem Audited.lift_agrees {act : MachineM α} {M : Audited} {m : Machine}
    (h : Computer.Twins AuditForgets (fun _ => True) M m) :
    Agrees (Computer.Twins AuditForgets (fun _ => True)) (fun _ => False) (fun _ => True)
      ((Audited.lift act).run M) (act.run m) := by
  obtain ⟨hcpu, -, hb⟩ := h
  obtain ⟨cpu, b⟩ := m
  change M.cpu = cpu at hcpu
  change M.board.1 = b at hb
  subst hcpu hb
  show Agrees _ _ _ (Audited.lift act M) _
  unfold Audited.lift
  cases act.run ⟨M.cpu, M.board.1⟩ with
  | ok x m => exact ⟨trivial, _, rfl, rfl, ⟨trivial, fun _ _ => trivial⟩, rfl⟩
  | error e m => exact .inr ⟨_, rfl, rfl, ⟨trivial, fun _ _ => trivial⟩, rfl⟩

theorem auditStores_agrees (start : Int) (ws : List Int) :
    ∀ {s : Board × List Translation} {t : Board}, AuditForgets s t →
      Agrees AuditForgets (fun _ => False) (fun _ => True) ((auditStores start ws).run s)
        ((Board.storeWords start ws).run t) := by
  induction ws generalizing start with
  | nil =>
    intro s t h
    exact Agrees.pure h trivial
  | cons w ws ih =>
    intro s t h
    subst h
    exact Agrees.bind (agrees_audit _ _ s) fun _ _ _ _ h' => ih (start + 1) h'

/-- A call on an audited machine does what the call does on the machine, the
audit forgotten. -/
theorem Call.audit_forgets (c : Call) {M : Audited} {m : Machine}
    (h : Computer.Twins AuditForgets (fun _ => True) M m) :
    Agrees (Computer.Twins AuditForgets (fun _ => True)) (fun _ => False) (fun _ => True)
      (c.audit.run M) (c.perform.run m) := by
  have hboard : ∀ {β : Type} {act₁ : EStateM Fault (Board × List Translation) β} {act₂ : BoardM β},
      (∀ s t, AuditForgets s t →
        Agrees AuditForgets (fun _ => False) (fun _ => True) (act₁.run s) (act₂.run t)) →
      Agrees (Computer.Twins AuditForgets (fun _ => True)) (fun _ => False) (fun _ => True)
        ((Computer.onMemory act₁).run M) ((Machine.onBoard act₂).run m) :=
    fun hact => by
      rw [Machine.onBoard_eq_onMemory]
      exact Computer.onMemory_agrees h (hact _ _ h.2.2)
  cases c with
  | read a =>
    refine Agrees.bind (hboard fun s t hst => ?_) fun _ _ _ _ h' => Agrees.pure h' trivial
    subst hst
    exact agrees_audit _ _ s
  | write a v =>
    refine hboard fun s t hst => ?_
    subst hst
    exact agrees_audit _ _ s
  | load words =>
    refine Agrees.bind (hboard fun s t hst => ?_) fun _ _ _ _ h' => Agrees.pure h' trivial
    refine Agrees.bind (auditStores_agrees 0 words hst) fun _ _ s₁ t₁ h₁ => ?_
    refine Agrees.bind (by subst h₁; exact agrees_unaudited _ s₁) fun _ _ s₂ t₂ h₂ => ?_
    exact Agrees.pure h₂ trivial
  | step => exact Computer.step_lockstep (Machine.auditedBus_lockstep _) (fun _ => trivial) h
  | run limit =>
    refine Agrees.bind (Agrees.bind
      (Computer.run_lockstep (Machine.auditedBus_lockstep _) (fun _ => trivial) _ h)
      fun _ _ _ _ h' => Audited.lift_agrees h') fun _ _ _ _ h' => Agrees.pure h' trivial
  | stop => exact @Audited.lift_agrees _ Machine.requestStop M m h
  | setRegister r v => exact @Audited.lift_agrees _ (Machine.setRegister r v) M m h
  | setPc v => exact @Audited.lift_agrees _ (Machine.setPc v) M m h
  | clearLog => exact @Audited.lift_agrees _ Machine.clearLog M m h

end Forgetting

/-! ## The counters follow the audit -/

/-- A board with an audit: sane at `g`, counting what the audit adds up to,
every audited translation one a pager can make. -/
def Accounted (g : Geometry) (s : Board × List Translation) : Prop :=
  s.1.Sane g ∧ s.1.stats = Translation.totals s.2 ∧ ∀ t ∈ s.2, t.Possible

/-- A sane board has as many pages as its geometry says. -/
theorem Board.Sane.pages_fit {g : Geometry} {b : Board} (h : b.Sane g) (hfit : g.virtualPages ≤ maxLength) :
    (b.pages.size : Int) ≤ maxLength := by
  obtain ⟨hc, rfl⟩ := h
  have hsize := hc.sound.shape.table_size
  rw [Board.size_table] at hsize
  have hmax : (0 : Int) ≤ maxLength := by decide
  omega

/-- A new board has counted nothing. -/
theorem Board.create_stats {g : Geometry} {kind : PolicyKind} {trace : Option (List Int)}
    {record : Bool} {log : Log} {b : Board} (h : Board.create g kind trace record log = .ok b) :
    b.stats = {} := by
  obtain ⟨-, -, -, -, -, -, rfl⟩ := Board.eq_of_create_ok h
  rfl

section Accounted

variable {g : Geometry} {s : Board × List Translation}

/-- The log and the interrupts are no part of the accounts. -/
theorem Accounted.aside {b' : Board} (h : Accounted g s) (ha : s.1.Aside b') : Accounted g (b', s.2) := by
  obtain ⟨hsane, hstats, hposs⟩ := h
  rw [ha]
  exact ⟨(hsane.log b'.log).interrupts b'.interrupts, hstats, hposs⟩

/-- A request whose translation accounts for the counters it changes keeps the
accounts when audited, returned or failed. -/
theorem Accounted.audited {α : Type} {act : BoardM α} {a : Int} {F : Fault → Board → Prop}
    (h : Accounted g s) (hsane : Ends (Board.Sane g) F (act.run s.1))
    (hacc : Accounts s.1.stats (finalState (act.run s.1)).stats
      (Translation.observe s.1 a (finalState (act.run s.1)))) :
    Ends (Accounted g) (fun _ _ => True) ((audit a act).run s) := by
  obtain ⟨-, hstats, hposs⟩ := h
  obtain ⟨hcount, hp⟩ := hacc
  have hafter : ∀ b', b'.Sane g → finalState (act.run s.1) = b' →
      Accounted g (b', Translation.observe s.1 a b' :: s.2) := by
    rintro b' hb' rfl
    refine ⟨hb', ?_, ?_⟩
    · rw [Translation.totals_cons, hcount, hstats]
    · intro t ht
      rcases List.mem_cons.mp ht with rfl | ht
      · exact hp
      · exact hposs t ht
  show Ends _ _ (audit a act s)
  unfold audit
  cases hr : act.run s.1 with
  | ok x b' =>
    rw [hr] at hsane
    exact hafter b' hsane (by rw [hr]; rfl)
  | error e b' =>
    rw [hr] at hsane
    exact ⟨hafter b' hsane.1 (by rw [hr]; rfl), trivial⟩

/-- The audited bus keeps the accounts through every request. -/
theorem Accounted.confines (g : Geometry) (hfit : g.virtualPages ≤ maxLength) :
    Machine.auditedBus.Confines (Accounted g) (fun _ _ => True) where
  read a _ h := h.audited (Board.readWord_ends h.1 a)
    (Board.readWord_accounts h.1.1 (h.1.pages_fit hfit) a)
  write a v _ h := h.audited (Board.writeWord_ends h.1 a v)
    (Board.writeWord_accounts h.1.1 (h.1.pages_fit hfit) a v)
  trace _ _ h := h.aside ((Board.Aside.refl _).log _)
  service pc s h := h.aside (Board.service_aside pc s.1)

theorem auditStores_ends (hfit : g.virtualPages ≤ maxLength) (start : Int) (ws : List Int) :
    ∀ {s : Board × List Translation}, Accounted g s →
      Ends (Accounted g) (fun _ _ => True) ((auditStores start ws).run s) := by
  induction ws generalizing start with
  | nil =>
    intro s h
    exact Ends.pure h
  | cons w ws ih =>
    intro s h
    exact Ends.bind ((Accounted.confines g hfit).write start w s h) fun _ _ h' => ih (start + 1) h'

theorem unaudited_ends {α : Type} {act : BoardM α} {F : Fault → Board → Prop} (h : Accounted g s)
    (hact : Ends s.1.Aside F (act.run s.1)) :
    Ends (Accounted g) (fun _ _ => True) ((unaudited act).run s) := by
  show Ends _ _ (unaudited act s)
  unfold unaudited
  cases hr : act.run s.1 with
  | ok x b =>
    rw [hr] at hact
    exact h.aside hact
  | error e b =>
    rw [hr] at hact
    exact ⟨h.aside hact.1, trivial⟩

/-- A machine action that touches only the log and the interrupts keeps the
accounts. -/
theorem Audited.lift_ends {α : Type} {act : MachineM α} {M : Audited} {F : Fault → Machine → Prop}
    (h : Accounted g M.board)
    (hact : Ends (fun m : Machine => M.board.1.Aside m.board) F (act.run ⟨M.cpu, M.board.1⟩)) :
    Ends (fun M : Audited => Accounted g M.board) (fun _ _ => True) ((Audited.lift act).run M) := by
  show Ends _ _ (Audited.lift act M)
  unfold Audited.lift
  cases hr : act.run ⟨M.cpu, M.board.1⟩ with
  | ok x m =>
    rw [hr] at hact
    exact h.aside hact
  | error e m =>
    rw [hr] at hact
    exact ⟨h.aside hact.1, trivial⟩

/-- Every call keeps the accounts, returned or failed. -/
theorem Call.audit_ends (hfit : g.virtualPages ≤ maxLength) (c : Call) {M : Audited}
    (h : Accounted g M.board) :
    Ends (fun M : Audited => Accounted g M.board) (fun _ _ => True) (c.audit.run M) := by
  have hbus := Accounted.confines g hfit
  cases c with
  | read a => exact Ends.bind (Computer.onMemory_ends (hbus.read a _ h)) fun _ _ h' => Ends.pure h'
  | write a v => exact Computer.onMemory_ends (hbus.write a v _ h)
  | load words =>
    refine Ends.bind (Computer.onMemory_ends (I := Accounted g) (F := fun _ _ => True) ?_)
      fun _ _ h' => Ends.pure h'
    refine Ends.bind (auditStores_ends hfit 0 words h) fun _ s₁ h₁ => ?_
    refine Ends.bind (unaudited_ends (F := fun _ _ => True) h₁ (Ends.modify ((Board.Aside.refl _).log _)))
      fun _ _ h₂ => Ends.pure h₂
  | step => exact (Computer.step_ends hbus h).mono fun _ _ _ => trivial
  | run limit =>
    refine Ends.bind (Ends.bind
      ((Computer.run_ends hbus (budgetOf limit) h).mono fun _ _ _ => trivial)
      fun o M' h' => ?_) fun _ _ h' => Ends.pure h'
    refine Audited.lift_ends (F := fun _ _ => True) h' ?_
    -- only the log changes after the run
    refine Ends.bind (x := get) (Board.Aside.refl _) fun m'' _ h'' => ?_
    exact Ends.bind (Machine.onBoard_ends (I := M'.board.1.Aside) (F := fun _ _ => True)
      (Ends.modify (h''.log _))) fun _ _ h₃ => Ends.pure h₃
  | stop => exact Audited.lift_ends h (Machine.requestStop_aside _)
  | setRegister r v => exact Audited.lift_ends h (Machine.setRegister_aside _ r v)
  | setPc v =>
    exact Audited.lift_ends (F := fun _ _ => True) h
      (Ends.modify (f := fun m : Machine => { m with cpu.pc := v }) (Board.Aside.refl _))
  | clearLog =>
    exact Audited.lift_ends (F := fun _ _ => True) h
      (Ends.modify (f := fun m : Machine => { m with board.log := m.board.log.clear })
        ((Board.Aside.refl _).log _))

/-- Along any calls the accounts are kept, and the audited machine forgets to
the machine the calls make.  Induction on the calls. -/
theorem Call.auditAll_accounted (hfit : g.virtualPages ≤ maxLength) (cs : List Call) :
    ∀ {M : Audited} {m : Machine}, Accounted g M.board →
      Computer.Twins AuditForgets (fun _ => True) M m →
      Accounted g (Call.auditAll cs M).board ∧
        Computer.Twins AuditForgets (fun _ => True) (Call.auditAll cs M) (Call.performAll cs m) := by
  induction cs with
  | nil =>
    intro M m h ht
    exact ⟨h, ht⟩
  | cons c cs ih =>
    intro M m h ht
    exact ih (c.audit_ends hfit h).finalState (c.audit_forgets ht).finalState

end Accounted

/-- The statistics count translations.  Make a machine of a valid geometry
with at most `maxLength` pages, with any policy, and make any calls on it,
each returned or failed; audit every translation, direct reads and writes,
the words of a program load and the processor's fetches, loads and stores,
whether it returned or failed.  Then the audited machine is the machine, and
its counters are: the accesses, one per translation; the faults, one per
translation of an address inside the address space whose page was not
resident; the disk reads, one per fault that brought in a page kept on disk;
the disk writes, one per eviction of a dirty page that completed.  So disk
reads are at most the faults, the faults at most the accesses, and the disk
writes at most the faults less those served from a frame never used before. -/
theorem statistics_count_translations {g : Geometry} {kind : PolicyKind}
    {trace : Option (List Int)} {record : Bool} {log : Log} {m : Machine}
    (hg : g.validate = .ok g) (hfit : g.virtualPages ≤ maxLength)
    (hm : Machine.create g kind trace record log = .ok m) (cs : List Call) :
    (Call.auditAll cs ⟨m.cpu, (m.board, [])⟩).board.1 = (Call.performAll cs m).board ∧
      (Call.performAll cs m).board.stats =
        { accesses := (Call.auditAll cs ⟨m.cpu, (m.board, [])⟩).board.2.length
          faults := (Call.auditAll cs ⟨m.cpu, (m.board, [])⟩).board.2.countP (·.fault)
          diskReads := (Call.auditAll cs ⟨m.cpu, (m.board, [])⟩).board.2.countP (·.diskRead)
          diskWrites := (Call.auditAll cs ⟨m.cpu, (m.board, [])⟩).board.2.countP (·.dirtyEviction) } ∧
      (Call.performAll cs m).board.stats.diskReads ≤ (Call.performAll cs m).board.stats.faults ∧
      (Call.performAll cs m).board.stats.faults ≤ (Call.performAll cs m).board.stats.accesses ∧
      (Call.performAll cs m).board.stats.diskWrites +
          (Call.auditAll cs ⟨m.cpu, (m.board, [])⟩).board.2.countP (·.freshFrame) ≤
        (Call.performAll cs m).board.stats.faults := by
  have hstart : Accounted g (m.board, []) := by
    refine ⟨Machine.create_sane hg hm, ?_, fun _ ht => absurd ht List.not_mem_nil⟩
    obtain ⟨b, hb, -, hmb⟩ := Machine.create_ok hm
    have hzero := Board.create_stats hb
    show m.board.stats = {}
    rw [hmb]
    exact hzero
  obtain ⟨⟨-, hstats, hposs⟩, -, -, hboard⟩ :=
    Call.auditAll_accounted hfit cs (M := ⟨m.cpu, (m.board, [])⟩) hstart
      ⟨rfl, ⟨trivial, fun _ _ => trivial⟩, rfl⟩
  change _ = (Call.performAll cs m).board at hboard
  rw [hboard] at hstats
  refine ⟨hboard, hstats.trans (Translation.totals_eq _), ?_⟩
  rw [hstats]
  exact Translation.totals_bounded hposs

/-- On a machine of the small geometry, writes at 0, 4 and 8 and a read of 0
write dirty pages out no more often than the faults that found no fresh frame. -/
theorem statistics_count_translations_small :
    ∃ m : Machine, Machine.create smallGeometry .fifo none false {} = .ok m ∧
      (Call.performAll [.write 0 7, .write 4 1, .write 8 2, .read 0] m).board.stats.diskWrites +
          (Call.auditAll [.write 0 7, .write 4 1, .write 8 2, .read 0]
            ⟨m.cpu, (m.board, [])⟩).board.2.countP (·.freshFrame) ≤
        (Call.performAll [.write 0 7, .write 4 1, .write 8 2, .read 0] m).board.stats.faults := by
  obtain ⟨m, hm⟩ : ∃ m, Machine.create smallGeometry .fifo none false {} = .ok m := ⟨_, rfl⟩
  exact ⟨m, hm, (statistics_count_translations rfl (by decide) hm _).2.2.2.2⟩

-- Two frames, FIFO: three cold faults, the third evicting dirty page 0, then
-- a read of 0 that reloads it from swap and evicts dirty page 1.
example : ((Machine.create smallGeometry .fifo none false {}).map fun m =>
    (Call.performAll [.write 0 7, .write 4 1, .write 8 2, .read 0] m).board.stats) =
      .ok { accesses := 4, faults := 4, diskReads := 1, diskWrites := 2 } := by
  decide +kernel

example : ((Machine.create smallGeometry .fifo none false {}).map fun m =>
    (Call.auditAll [.write 0 7, .write 4 1, .write 8 2, .read 0]
      ⟨m.cpu, (m.board, [])⟩).board.2.countP (·.freshFrame)) = .ok 2 := by
  decide +kernel

end DemandPaging
