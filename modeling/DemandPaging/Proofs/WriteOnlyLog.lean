import DemandPaging.Proofs.RunLoop

/-!
# The log is write-only

The machine writes entries to its log and never reads them: no access,
fault, eviction, delivery of interrupts or run looks at the log to decide what
to do.  So two machines that differ in their logs alone do the same thing.

`Board.SameButLog b b'` says `b'` is `b` with another log, and
`Board.LogBlind act` says the action `act` returns alike, or fails alike, on
boards related so and leaves boards related so.  Blindness is built up the
way the pager's actions are written: sequencing (`LogBlind.bind`), reading
the board to act on fields other than the log (`LogBlind.get_bind_of_eq`),
and changing fields other than the log, or adding an entry to it
(`LogBlind.modify`).  Each action of the pager is then blind by its
definition, up to `Board.readWord_blind` and `Board.writeWord_blind`; the bus
keeps two such machines in lockstep (`Machine.bus_log_blind`), and so does a
whole run (`Machine.run_log_blind`).
-/

namespace DemandPaging

namespace Board

/-- `b'` is `b` with another log. -/
def SameButLog (b b' : Board) : Prop := ∃ l : Log, b' = { b with log := l }

theorem SameButLog.refl (b : Board) : b.SameButLog b := ⟨b.log, rfl⟩

theorem SameButLog.trans {b b' b'' : Board} (h₁ : b.SameButLog b') (h₂ : b'.SameButLog b'') :
    b.SameButLog b'' := by
  obtain ⟨l₁, rfl⟩ := h₁
  obtain ⟨l₂, rfl⟩ := h₂
  exact ⟨l₂, rfl⟩

theorem SameButLog.relog {b b' : Board} (h : b.SameButLog b') (l : Log) :
    b.SameButLog { b' with log := l } := by
  obtain ⟨l', rfl⟩ := h
  exact ⟨l, rfl⟩

/-- An action blind to the log: from boards that differ in their logs alone it
returns the same value or fails with the same fault, on boards that differ in
their logs alone. -/
def LogBlind {α : Type} (act : BoardM α) : Prop :=
  ∀ b b', b.SameButLog b' →
    Agrees SameButLog (fun _ => False) (fun _ => True) (act.run b) (act.run b')

namespace LogBlind

variable {α β : Type}

theorem bind {x : BoardM α} {f : α → BoardM β} (hx : LogBlind x) (hf : ∀ a, LogBlind (f a)) :
    LogBlind (x >>= f) := fun b b' h =>
  Agrees.bind (hx b b' h) fun a _ s s' hs => hf a s s' hs

theorem pure (a : α) : LogBlind (Pure.pure a : BoardM α) := fun _ _ h => Agrees.pure h trivial

theorem throw (e : Fault) : LogBlind (MonadExcept.throw e : BoardM α) := fun _ _ h => Agrees.throw h

theorem throw_bind (e : Fault) (f : α → BoardM β) : LogBlind (MonadExcept.throw e >>= f) :=
  fun _ _ h => .inr ⟨_, rfl, h⟩

theorem ofExcept (e : Except Fault α) : LogBlind (Board.ofExcept e) := by
  cases e with
  | ok a => exact pure a
  | error e => exact throw e

/-- A change of the board that commutes with changing the log. -/
theorem modify {f : Board → Board} (hf : ∀ b b', b.SameButLog b' → (f b).SameButLog (f b')) :
    LogBlind (modify f : BoardM PUnit) := fun b b' h => Agrees.modify (hf b b' h)

/-- Reading the board, then acting on what it holds besides the log. -/
theorem get_bind_of_eq {f : Board → BoardM α} (hf : ∀ (b : Board) (l : Log), f { b with log := l } = f b)
    (hblind : ∀ b, LogBlind (f b)) : LogBlind (MonadState.get >>= f) := by
  intro b b' h
  obtain ⟨l, rfl⟩ := h
  show Agrees _ _ _ ((f b).run b) ((f { b with log := l }).run { b with log := l })
  rw [hf b l]
  exact hblind b b _ ⟨l, rfl⟩

end LogBlind

/-! ## The pager's actions -/

/-- A change of the board that neither reads nor writes the log. -/
theorem modify_blind {f : Board → Board}
    (hf : ∀ (b : Board) (l : Log), f { b with log := l } = { f b with log := l }) :
    LogBlind (modify f : BoardM PUnit) :=
  LogBlind.modify fun b _ h => by
    obtain ⟨l, rfl⟩ := h
    exact ⟨l, hf b l⟩

theorem note_blind (level : Level) (source message : String) (tick : Int) :
    LogBlind (note level source message tick) :=
  LogBlind.modify fun _ _ h => by
    obtain ⟨l, rfl⟩ := h
    exact ⟨_, rfl⟩

theorem notePager_blind (level : Level) (message : String) : LogBlind (notePager level message) :=
  LogBlind.get_bind_of_eq (fun _ _ => rfl) fun _ => note_blind _ _ _ _

theorem pageAt_blind (v : Int) : LogBlind (pageAt v) :=
  LogBlind.get_bind_of_eq (fun _ _ => rfl) fun _ => LogBlind.ofExcept _

theorem frameAt_blind (f : Int) : LogBlind (frameAt f) :=
  LogBlind.get_bind_of_eq (fun _ _ => rfl) fun _ => LogBlind.ofExcept _

theorem modifyPage_blind (v : Int) (g : PageEntry → PageEntry) : LogBlind (modifyPage v g) :=
  modify_blind fun _ _ => rfl

theorem modifyFrame_blind (f : Int) (g : FrameEntry → FrameEntry) : LogBlind (modifyFrame f g) :=
  modify_blind fun _ _ => rfl

/-- The policy reads the core map and page table only. -/
theorem selectVictim_blind : LogBlind selectVictim := by
  intro b b' h
  obtain ⟨l, rfl⟩ := h
  show Agrees _ _ _ (selectVictim b) (selectVictim { b with log := l })
  unfold selectVictim
  dsimp only
  generalize b.policy.selectVictim b.frames b.pages = t
  obtain ⟨r, p, pg⟩ := t
  cases r with
  | ok f => exact ⟨trivial, _, rfl, l, rfl⟩
  | error e => exact .inr ⟨_, rfl, l, rfl⟩

theorem allocateSlot_blind : LogBlind allocateSlot := by
  refine LogBlind.get_bind_of_eq (fun _ _ => rfl) fun b => LogBlind.bind (LogBlind.ofExcept _) ?_
  intro p
  obtain ⟨slot, swap⟩ := p
  exact LogBlind.bind (modify_blind fun _ _ => rfl) fun _ => LogBlind.pure _

theorem saveFrame_blind (f : Int) (entry : FrameEntry) (owner : Int) (page : PageEntry) :
    LogBlind (saveFrame f entry owner page) := by
  -- after the slot is chosen, the page is written out: swap, disk writes and table only
  have hwrite : ∀ slot : Int, LogBlind (do
      let b ← MonadState.get
      let swap ← ofExcept (b.swap.store slot (b.ram.readFrame f))
      modify fun b => { b with swap, stats.diskWrites := b.stats.diskWrites + 1 }
      modifyPage owner ({ · with onDisk := true }) : BoardM Unit) := by
    intro slot
    refine LogBlind.get_bind_of_eq (fun _ _ => rfl) fun _ => LogBlind.bind (LogBlind.ofExcept _) ?_
    intro swap
    exact LogBlind.bind (modify_blind fun _ _ => rfl) fun _ => modifyPage_blind _ _
  unfold saveFrame
  split
  · exact LogBlind.bind (LogBlind.pure _) hwrite
  · exact LogBlind.bind allocateSlot_blind fun _ =>
      LogBlind.bind (modifyFrame_blind _ _) fun _ =>
        LogBlind.bind (notePager_blind _ _) fun _ => LogBlind.bind (LogBlind.pure _) hwrite

theorem detach_blind (f owner : Int) : LogBlind (detach f owner) :=
  LogBlind.bind (frameAt_blind f) fun _ =>
    LogBlind.bind (modifyPage_blind _ _) fun _ => notePager_blind _ _

theorem evict_blind (f : Int) : LogBlind (evict f) := by
  unfold evict
  refine LogBlind.bind (frameAt_blind f) fun entry => ?_
  split
  · exact LogBlind.pure _
  · refine LogBlind.bind (pageAt_blind _) fun page => ?_
    split
    · exact LogBlind.bind (saveFrame_blind _ _ _ _) fun _ => detach_blind _ _
    · exact detach_blind _ _

/-- Taking a frame reads the next unused frame and the frame count, and sets
the next unused frame on the board it read. -/
theorem takeFrame_blind : LogBlind takeFrame := by
  intro b b' h
  obtain ⟨l, rfl⟩ := h
  show Agrees _ _ _ ((takeFrame).run b) ((takeFrame).run { b with log := l })
  simp only [takeFrame, EStateM.run_bind, EStateM.run_get]
  by_cases hlt : b.fresh < b.frames.size
  · simp only [hlt, if_true]
    exact ⟨trivial, _, rfl, l, rfl⟩
  · simp only [hlt, if_false]
    exact LogBlind.bind selectVictim_blind (fun f => LogBlind.bind (evict_blind f) fun _ =>
      LogBlind.pure _) b _ ⟨l, rfl⟩

theorem fillFrame_blind (v f : Int) : LogBlind (fillFrame v f) := by
  unfold fillFrame
  refine LogBlind.bind (pageAt_blind v) fun page => ?_
  split
  · refine LogBlind.get_bind_of_eq (fun _ _ => rfl) fun _ => ?_
    refine LogBlind.bind (LogBlind.ofExcept _) fun _ => LogBlind.bind (LogBlind.ofExcept _) fun _ => ?_
    exact LogBlind.bind (modify_blind fun _ _ => rfl) fun _ =>
      LogBlind.bind (modifyFrame_blind _ _) fun _ => notePager_blind _ _
  · refine LogBlind.get_bind_of_eq (fun _ _ => rfl) fun _ => ?_
    refine LogBlind.bind (LogBlind.ofExcept _) fun _ => ?_
    exact LogBlind.bind (modify_blind fun _ _ => rfl) fun _ =>
      LogBlind.bind (modifyFrame_blind _ _) fun _ => notePager_blind _ _

theorem install_blind (v f : Int) : LogBlind (install v f) :=
  LogBlind.bind (modifyFrame_blind _ _) fun _ => modifyPage_blind _ _

theorem handleFault_blind (v : Int) : LogBlind (handleFault v) :=
  LogBlind.bind (modify_blind fun _ _ => rfl) fun _ =>
    LogBlind.bind takeFrame_blind fun f => LogBlind.bind (fillFrame_blind v f) fun _ => install_blind v f

theorem translate_blind (address : Int) (write : Bool) : LogBlind (translate address write) := by
  unfold translate
  refine LogBlind.bind (modify_blind fun _ _ => rfl) fun _ => ?_
  refine LogBlind.get_bind_of_eq (fun _ _ => rfl) fun b => ?_
  dsimp only
  split
  · exact LogBlind.throw_bind _ _
  refine LogBlind.bind (modify_blind fun _ _ => rfl) fun _ =>
    LogBlind.bind (pageAt_blind _) fun _ => ?_
  -- the page is marked and read back, after a fault if it was not resident
  split
  · exact LogBlind.bind (handleFault_blind _) fun _ =>
      LogBlind.bind (modifyPage_blind _ _) fun _ => LogBlind.bind (pageAt_blind _) fun _ => LogBlind.pure _
  · exact LogBlind.bind (modifyPage_blind _ _) fun _ => LogBlind.bind (pageAt_blind _) fun _ => LogBlind.pure _

theorem readWord_blind (address : Int) : LogBlind (readWord address) :=
  LogBlind.bind (translate_blind address false) fun _ =>
    LogBlind.get_bind_of_eq (fun _ _ => rfl) fun _ => LogBlind.ofExcept _

theorem writeWord_blind (address value : Int) : LogBlind (writeWord address value) :=
  LogBlind.bind (translate_blind address true) fun _ =>
    LogBlind.get_bind_of_eq (fun _ _ => rfl) fun _ => LogBlind.bind (LogBlind.ofExcept _) fun _ =>
      modify_blind fun _ _ => rfl

/-- Each step of a fold that commutes with changing the log: so does the fold. -/
theorem SameButLog.foldl {α : Type} {f : Board → α → Board}
    (hf : ∀ b b' x, b.SameButLog b' → (f b x).SameButLog (f b' x)) (xs : List α) :
    ∀ {b b' : Board}, b.SameButLog b' → (xs.foldl f b).SameButLog (xs.foldl f b') := by
  induction xs with
  | nil => exact fun h => h
  | cons x xs ih => exact fun h => ih (hf _ _ x h)

/-- Delivering interrupts reads the controller and the access count, and adds
to the log. -/
theorem service_log_blind (pc : Int) {b b' : Board} (h : b.SameButLog b') :
    (service pc b').1 = (service pc b).1 ∧ (service pc b).2.SameButLog (service pc b').2 := by
  obtain ⟨l, rfl⟩ := h
  refine ⟨rfl, SameButLog.foldl (fun _ _ _ h => ?_) _ ⟨l, rfl⟩⟩
  obtain ⟨l', rfl⟩ := h
  exact ⟨_, rfl⟩

end Board

namespace Machine

/-- The bus keeps two machines that differ in their logs alone in lockstep:
every request is answered alike, and no fault is spared. -/
theorem bus_log_blind :
    Machine.bus.Lockstep Machine.bus Board.SameButLog (fun _ => True) (fun _ => False) where
  read a x y h _ := Board.readWord_blind a x y h
  write a v x y h _ _ := Board.writeWord_blind a v x y h
  trace _ _ _ h := by
    obtain ⟨l, rfl⟩ := h
    exact ⟨_, rfl⟩
  service pc _ _ h := (Board.service_log_blind pc h).imp Eq.symm id

/-- Two machines with the same processor whose boards differ in their logs
alone run alike: the same outcome or fault, the same processor after, and
boards that again differ in their logs alone. -/
theorem run_log_blind (limit : Option Int) {m m' : Machine} (hcpu : m.cpu = m'.cpu)
    (hb : m.board.SameButLog m'.board) :
    Agrees (Computer.Twins Board.SameButLog (fun _ => True)) (fun _ => False) (fun _ => True)
      ((Machine.run limit).run m) ((Machine.run limit).run m') := by
  unfold Machine.run
  have htwins : Computer.Twins Board.SameButLog (fun _ => True) m m' :=
    ⟨hcpu, ⟨trivial, fun _ _ => trivial⟩, hb⟩
  refine Agrees.bind (Computer.run_lockstep bus_log_blind (fun _ => trivial) _ htwins)
    fun o _ c c' h => ?_
  -- the closing line reads the step and access counts, alike on both sides
  obtain ⟨hcpu', hw, l, hc'⟩ := h
  obtain ⟨cpu', b'⟩ := c'
  cases hcpu'
  cases hc'
  exact ⟨trivial, _, rfl, rfl, hw, _, rfl⟩

end Machine

end DemandPaging
