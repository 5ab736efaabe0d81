import DemandPaging.Proofs.Access
import DemandPaging.Machine

/-!
# The machines a program can reach

A machine is made from a valid geometry and then driven by calls: reads,
writes, program loads, single steps, runs, stop requests and the processor's
own registers and pc.  Any call may fail, and the machine is used again after
a failure.  This module names those calls (`Call`) and the machines they reach
(`Reachable`), and proves once that every call, returned or failed, keeps the
board's invariant `Board.Sane` and fails only with a fault it is allowed to
raise (`Call.perform_ends`).  Every later fact about reachable machines starts
from `Reachable.sane`.
-/

namespace DemandPaging

namespace Board

variable {b : Board} {g : Geometry}

/-- The interrupts are no part of the invariant. -/
theorem Sane.interrupts (h : b.Sane g) (c : Controller Handler) :
    ({ b with interrupts := c } : Board).Sane g :=
  ⟨h.1.congr rfl rfl rfl rfl rfl ⟨rfl, rfl⟩ rfl h.1.sound.shape.policy_fits, h.2⟩

/-- Logging entry after entry keeps the invariant. -/
theorem Sane.foldl_log {α : Type} (f : Board → α → Log) (l : List α) :
    ∀ {b : Board}, b.Sane g → (l.foldl (fun b x => { b with log := f b x }) b).Sane g := by
  induction l with
  | nil =>
    intro b h
    exact h
  | cons x l ih =>
    intro b h
    exact ih (h.log _)

theorem note_ends {F : Fault → Board → Prop} (h : b.Sane g) (level : Level) (source message : String)
    (tick : Int) : Ends (Sane g) F ((note level source message tick).run b) :=
  Ends.modify (h.log _)

/-- Delivering interrupts empties queues and logs stop requests. -/
theorem service_sane (h : b.Sane g) (pc : Int) : (service pc b).2.Sane g :=
  Sane.foldl_log _ _ (h.interrupts _)

/-- A new board has the geometry it was made for, blank pages and the stop
vector alone. -/
theorem create_ok {kind : PolicyKind} {trace : Option (List Int)} {record : Bool} {log : Log}
    (h : Board.create g kind trace record log = .ok b) :
    b.geometry = g ∧ b.pages = Array.replicate g.virtualPages.toNat {} ∧
      b.interrupts = { vectors := [{ number := stopVector, handler := some .stop }] } := by
  obtain ⟨-, -, -, -, -, -, rfl⟩ := eq_of_create_ok h
  exact ⟨rfl, rfl, rfl⟩

end Board

/-- A new processor is `count` zero registers at pc 0, for a count that a
sequence can hold. -/
theorem Cpu.eq_of_create_ok {count : Int} {cpu : Cpu} (h : Cpu.create count = .ok cpu) :
    requireLength count = .ok () ∧ cpu = { registers := Array.replicate count.toNat 0 } := by
  simp only [Cpu.create, bind, Except.bind] at h
  split at h
  · cases h
  · rename_i u hu
    simp only [pure, Except.pure, Except.ok.injEq] at h
    exact ⟨hu, h.symm⟩

namespace Machine

variable {g : Geometry} {m : Machine}

/-- A new machine is a new board, with a line logged, and a new processor. -/
theorem create_ok {kind : PolicyKind} {trace : Option (List Int)} {record : Bool} {log : Log}
    (h : Machine.create g kind trace record log = .ok m) :
    ∃ b, Board.create g kind trace record log = .ok b ∧ Cpu.create g.registers = .ok m.cpu ∧
      m.board = { b with log := m.board.log } := by
  simp only [Machine.create, bind, Except.bind] at h
  split at h
  · cases h
  · rename_i b hb
    split at h
    · cases h
    · rename_i cpu hcpu
      simp only [pure, Except.pure, Except.ok.injEq] at h
      subst h
      exact ⟨b, hb, hcpu, rfl⟩

/-- A machine made from a valid geometry starts sane. -/
theorem create_sane {kind : PolicyKind} {trace : Option (List Int)} {record : Bool} {log : Log}
    (hg : g.validate = .ok g) (h : Machine.create g kind trace record log = .ok m) :
    m.board.Sane g := by
  obtain ⟨b, hb, -, hm⟩ := create_ok h
  obtain ⟨hs, hc⟩ := Board.create_sound hg hb
  have hsane : b.Sane g := ⟨⟨hs, hc⟩, (Board.create_ok hb).1⟩
  rw [hm]
  exact hsane.log _

/-- The machine's bus keeps the invariant, and fails only with faults some
access allows. -/
theorem bus_confines (g : Geometry) : Machine.bus.Confines (Board.Sane g) Board.Refused where
  read a _ h := Board.readWord_ends h a
  write a v _ h := Board.writeWord_ends h a v
  trace _ _ h := h.log _
  service pc _ h := Board.service_sane h pc

theorem onBoard_run {α : Type} (act : BoardM α) (m : Machine) :
    (Machine.onBoard act).run m = match act.run m.board with
      | .ok a b => .ok a { m with board := b }
      | .error e b => .error e { m with board := b } := rfl

/-- A board action run on a machine keeps what it keeps of the board, and
leaves the processor as it was. -/
theorem onBoard_ends_and {α : Type} {act : BoardM α} {I : Board → Prop}
    {F : Fault → Board → Prop} {J : Cpu → Prop} (hj : J m.cpu) (h : Ends I F (act.run m.board)) :
    Ends (fun m : Machine => I m.board ∧ J m.cpu) (fun e m => F e m.board)
      ((Machine.onBoard act).run m) := by
  rw [onBoard_run]
  cases hr : act.run m.board with
  | ok a b =>
    rw [hr] at h
    exact ⟨h, hj⟩
  | error e b =>
    rw [hr] at h
    exact ⟨⟨h.1, hj⟩, h.2⟩

theorem onBoard_ends {α : Type} {act : BoardM α} {I : Board → Prop} {F : Fault → Board → Prop}
    (h : Ends I F (act.run m.board)) :
    Ends (fun m : Machine => I m.board) (fun e m => F e m.board) ((Machine.onBoard act).run m) :=
  (onBoard_ends_and (J := fun _ => True) trivial h).imp fun _ h => h.1

/-- A stop request only queues an interrupt. -/
theorem requestStop_ends (h : m.board.Sane g) :
    Ends (fun m : Machine => m.board.Sane g) (fun e _ => e = .vectorUnknown stopVector)
      (requestStop.run m) := by
  refine onBoard_ends (F := fun e _ => e = .vectorUnknown stopVector) ?_
  simp only [EStateM.run_bind, EStateM.run_get]
  cases hr : m.board.interrupts.raise stopVector with
  | ok c =>
    simp only [Board.ofExcept_run_ok, EStateM.run_set]
    exact h.interrupts c
  | error e =>
    simp only [Board.ofExcept_run_error]
    refine ⟨h, ?_⟩
    unfold Controller.raise Controller.modifyVector at hr
    split at hr
    · cases hr
    · cases hr
      rfl

/-- A run keeps the invariant; it ends with a fault of an access or of the
processor, and the line it logs changes nothing else. -/
theorem run_ends (h : m.board.Sane g) (limit : Option Int) :
    Ends (fun m : Machine => m.board.Sane g) (fun e m => Fault.OfRun Board.Refused e m.board)
      ((Machine.run limit).run m) := by
  unfold Machine.run
  refine Ends.bind (Computer.run_ends (bus_confines g) (budgetOf limit) h) fun o m' h' => ?_
  -- the pc and step count are read back before the line is logged
  refine Ends.bind (x := get) h' fun m'' _ h'' => ?_
  exact Ends.bind ((onBoard_ends (Board.note_ends (F := Board.Refused) h'' _ _ _ _)).mono
    fun e _ he => .inl he) fun _ _ h₃ => Ends.pure h₃

end Machine

/-- What a program asks of a machine. -/
inductive Call where
  /-- Read the word at an address. -/
  | read (a : Int)
  /-- Write a word at an address. -/
  | write (a v : Int)
  /-- Load a program at address 0. -/
  | load (words : List Int)
  /-- Execute one instruction. -/
  | step
  /-- Run, with a step limit or none. -/
  | run (limit : Option Int)
  /-- Request a stop. -/
  | stop
  /-- Set a register of the processor. -/
  | setRegister (r v : Int)
  /-- Set the program counter. -/
  | setPc (v : Int)
  /-- Drop the log's entries. -/
  | clearLog

namespace Call

/-- Making the call on a machine; what it returns is dropped. -/
def perform : Call → MachineM Unit
  | .read a => do
    let _ ← Machine.readWord a
    pure ()
  | .write a v => Machine.writeWord a v
  | .load words => do
    let _ ← Machine.loadProgram words
    pure ()
  | .step => Machine.step
  | .run limit => do
    let _ ← Machine.run limit
    pure ()
  | .stop => Machine.requestStop
  | .setRegister r v => Machine.setRegister r v
  | .setPc v => Machine.setPc v
  | .clearLog => Machine.clearLog

/-- The faults a call can end with, judged on the machine it leaves: one an
access allows, one the processor raises by itself, or a stop request on a
vector that is not registered. -/
def Refused (e : Fault) (m : Machine) : Prop :=
  Board.Refused e m.board ∨ e.Processor ∨ e = .vectorUnknown stopVector

variable {g : Geometry} {m : Machine}

/-- Every call keeps the invariant of a machine's board, returned or failed. -/
theorem perform_ends (c : Call) (h : m.board.Sane g) :
    Ends (fun m : Machine => m.board.Sane g) Refused (c.perform.run m) := by
  have haccess : ∀ e (m : Machine), Board.Refused e m.board → Refused e m := fun _ _ h => .inl h
  cases c with
  | read a =>
    refine Ends.bind ((Machine.onBoard_ends (Board.readWord_ends h a)).mono haccess) ?_
    exact fun _ _ h' => Ends.pure h'
  | write a v => exact (Machine.onBoard_ends (Board.writeWord_ends h a v)).mono haccess
  | load words =>
    refine Ends.bind ((Machine.onBoard_ends (Board.loadProgram_ends h words)).mono haccess) ?_
    exact fun _ _ h' => Ends.pure h'
  | step =>
    refine (Computer.step_ends (Machine.bus_confines g) h).mono fun e m' he => ?_
    rcases he with he | he
    · exact .inl he
    · exact .inr (.inl he)
  | run limit =>
    refine Ends.bind ((Machine.run_ends h limit).mono fun e m' he => ?_) fun _ _ h' => Ends.pure h'
    rcases he with he | he
    · exact .inl he
    · exact .inr (.inl he)
  | stop => exact (Machine.requestStop_ends h).mono fun e m' he => .inr (.inr he)
  | setRegister r v =>
    show Ends _ _ (Machine.setRegister r v m)
    unfold Machine.setRegister
    cases hset : m.cpu.setRegister r v with
    | ok cpu => exact h
    | error e =>
      refine ⟨h, .inr (.inl ?_)⟩
      simp only [Cpu.setRegister, bind, Except.bind] at hset
      split at hset
      · cases hset
        exact Seq.write_error ‹_›
      · cases hset
  | setPc v => exact Ends.modify h
  | clearLog => exact Ends.modify (h.log _)

end Call

/-- The machines a program reaches from a valid geometry `g`: made with any
policy, then changed by any calls, each returned or failed. -/
inductive Reachable (g : Geometry) : Machine → Prop
  | create {kind : PolicyKind} {trace : Option (List Int)} {record : Bool} {log : Log} {m : Machine} :
      g.validate = .ok g → Machine.create g kind trace record log = .ok m → Reachable g m
  | call {m : Machine} (c : Call) : Reachable g m → Reachable g (finalState (c.perform.run m))

/-- Every reachable machine's board is consistent, at the geometry it was
made with.  Induction on the calls. -/
theorem Reachable.sane {g : Geometry} {m : Machine} (h : Reachable g m) : m.board.Sane g := by
  induction h with
  | create hg hm => exact Machine.create_sane hg hm
  | call c _ ih => exact (c.perform_ends ih).finalState

/-- A small geometry: four pages of four words, two frames, two swap slots. -/
def smallGeometry : Geometry := { pageSize := 4, virtualPages := 4, frames := 2, swapSlots := 2 }

/-- Some machine of the small geometry is reachable: one made with the FIFO
policy, after a write that faults its page in. -/
theorem Reachable.small : ∃ m, Reachable smallGeometry m := by
  obtain ⟨m, hm⟩ : ∃ m, Machine.create smallGeometry .fifo none false {} = .ok m := ⟨_, rfl⟩
  exact ⟨_, .call (.write 5 7) (.create rfl hm)⟩

end DemandPaging
