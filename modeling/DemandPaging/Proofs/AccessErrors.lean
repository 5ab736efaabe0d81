import DemandPaging.Proofs.Refusal
import DemandPaging.Proofs.Reachable

/-!
# What a read or a write of a machine fails with

On every machine a program can reach, a read or a write of address `a`
fails only as follows (`access_refused_exactly`):

* outside the address space, always, with an address fault, having counted
  the access and changed nothing else;
* inside it, only for want of a swap slot, and exactly when the access
  `Board.RunsOutOfSwap`.  The machine it leaves holds `Board.outOfSwap`: the
  access and the fault counted, the page recorded, the policy's choice made,
  and the page table changed only in referenced bits the clock cleared.

The board-level facts are in `DemandPaging.Proofs.Refusal`.  What this
module adds is an invariant of runs: the swap space never hands out more
slots than it has (`Reachable.slotsWithin`), which makes "every slot is
taken" an equation.  Reads and writes keep it, and a call reaches the board
only through reads, writes, the log and the interrupts; `Board.Keeps.perform`
says that once, for any property of boards that those keep.

The theorem assumes the geometry has at most `maxLength` pages.  Page
indices are signed 64-bit numbers, so past that bound a page inside the
address space cannot be looked up and the access fails with an index fault
instead; no page table that large can be built in memory.
-/

namespace DemandPaging

/-- An action that ends in `I` and leaves a state with `J` ends in both. -/
theorem ends_and_final {σ α : Type} {I J : σ → Prop} {F : Fault → σ → Prop}
    {r : EStateM.Result Fault σ α} (h : Ends I F r) (hj : J (finalState r)) :
    Ends (fun s => I s ∧ J s) F r := by
  cases r with
  | ok a s => exact ⟨h, hj⟩
  | error e s => exact ⟨⟨h.1, hj⟩, h.2⟩

/-! ## A board property every call keeps -/

/-- Reads and writes of a sane board of geometry `g` keep `P`, returned or
failed, and the log and the interrupts are no part of it. -/
structure Board.Keeps (g : Geometry) (P : Board → Prop) : Prop where
  read : ∀ b a, b.Sane g → P b → P (finalState ((Board.readWord a).run b))
  write : ∀ b a v, b.Sane g → P b → P (finalState ((Board.writeWord a v).run b))
  log : ∀ (b : Board) (l : Log), P b → P { b with log := l }
  interrupts : ∀ (b : Board) (c : Controller Handler), P b → P { b with interrupts := c }

namespace Board.Keeps

variable {g : Geometry} {P : Board → Prop} (hk : Board.Keeps g P)
include hk

theorem foldl_log {α : Type} (f : Board → α → Log) (l : List α) :
    ∀ {b : Board}, P b → P (l.foldl (fun b x => { b with log := f b x }) b) := by
  induction l with
  | nil =>
    intro b h
    exact h
  | cons x l ih =>
    intro b h
    exact ih (hk.log _ _ h)

/-- The machine's bus keeps the invariant and `P` together. -/
theorem bus : Machine.bus.Confines (fun b => b.Sane g ∧ P b) Board.Refused where
  read a b h := ends_and_final (Board.readWord_ends h.1 a) (hk.read b a h.1 h.2)
  write a v b h := ends_and_final (Board.writeWord_ends h.1 a v) (hk.write b a v h.1 h.2)
  trace _ _ h := ⟨h.1.log _, hk.log _ _ h.2⟩
  service pc _ h := ⟨Board.service_sane h.1 pc, hk.foldl_log _ _ (hk.interrupts _ _ h.2)⟩

theorem storeWords (start : Int) (ws : List Int) :
    ∀ {b : Board}, b.Sane g ∧ P b →
      Ends (fun b => b.Sane g ∧ P b) Board.Refused ((Board.storeWords start ws).run b) := by
  induction ws generalizing start with
  | nil =>
    intro b h
    exact Ends.pure h
  | cons w ws ih =>
    intro b h
    exact Ends.bind (hk.bus.write start w b h) fun _ _ h' => ih (start + 1) h'

/-- Every call keeps `P`, returned or failed.  The cases follow
`Call.perform_ends`, with `P` carried beside the invariant. -/
theorem perform (c : Call) {m : Machine} (hs : m.board.Sane g) (hp : P m.board) :
    P (finalState (c.perform.run m)).board := by
  have hI : m.board.Sane g ∧ P m.board := ⟨hs, hp⟩
  suffices h : Ends (fun m : Machine => m.board.Sane g ∧ P m.board) (fun _ _ => True)
      (c.perform.run m) from h.finalState.2
  have hany : ∀ (e : Fault) (m : Machine), Board.Refused e m.board → True := fun _ _ _ => trivial
  cases c with
  | read a =>
    exact Ends.bind ((Machine.onBoard_ends (hk.bus.read a _ hI)).mono hany) fun _ _ h' => Ends.pure h'
  | write a v => exact (Machine.onBoard_ends (hk.bus.write a v _ hI)).mono hany
  | load words =>
    have hload : Ends (fun b => b.Sane g ∧ P b) Board.Refused ((Board.loadProgram words).run m.board) :=
      Ends.bind (hk.storeWords 0 words hI) fun _ _ h' =>
        Ends.bind (Ends.modify ⟨h'.1.log _, hk.log _ _ h'.2⟩) fun _ _ h'' => Ends.pure h''
    exact Ends.bind ((Machine.onBoard_ends hload).mono hany) fun _ _ h' => Ends.pure h'
  | step => exact (Computer.step_ends hk.bus hI).mono fun _ _ _ => trivial
  | run limit =>
    refine Ends.bind (?_ : Ends _ (fun _ _ => True) ((Machine.run limit).run m)) fun _ _ h' => Ends.pure h'
    unfold Machine.run
    refine Ends.bind ((Computer.run_ends hk.bus (budgetOf limit) hI).mono fun _ _ _ => trivial)
      fun _ _ h' => ?_
    refine Ends.bind (x := get) h' fun _ _ h'' => ?_
    exact Ends.bind ((Machine.onBoard_ends (I := fun b => b.Sane g ∧ P b) (F := Board.Refused)
      (Ends.modify ⟨h''.1.log _, hk.log _ _ h''.2⟩)).mono hany) fun _ _ h₃ => Ends.pure h₃
  | stop =>
    refine (Machine.onBoard_ends (I := fun b => b.Sane g ∧ P b) (F := fun _ _ => True) ?_).mono
      fun _ _ _ => trivial
    simp only [EStateM.run_bind, EStateM.run_get]
    cases hr : m.board.interrupts.raise stopVector with
    | ok c =>
      simp only [Board.ofExcept_run_ok, EStateM.run_set]
      exact ⟨hs.interrupts c, hk.interrupts _ _ hp⟩
    | error e =>
      simp only [Board.ofExcept_run_error]
      exact ⟨hI, trivial⟩
  | setRegister r v =>
    show Ends _ _ (Machine.setRegister r v m)
    unfold Machine.setRegister
    cases m.cpu.setRegister r v with
    | ok cpu => exact hI
    | error e => exact ⟨hI, trivial⟩
  | setPc v => exact Ends.modify hI
  | clearLog => exact Ends.modify ⟨hs.log _, hk.log _ _ hp⟩

end Board.Keeps

/-! ## Swap slots stay within the capacity -/

/-- A valid geometry has a swap slot. -/
theorem Geometry.validate_swapSlots_pos {g g' : Geometry} (h : g.validate = .ok g') :
    0 < g.swapSlots :=
  isPowerOfTwo_pos (Geometry.eq_of_validate_ok h).2.2.2.1

/-- A new board has handed out no slot. -/
theorem Board.create_slotsWithin {g : Geometry} {kind : PolicyKind} {trace : Option (List Int)}
    {record : Bool} {log : Log} {b : Board} (hg : g.validate = .ok g)
    (h : Board.create g kind trace record log = .ok b) : b.SlotsWithin := by
  have hpos := Geometry.validate_swapSlots_pos hg
  obtain ⟨-, swap, -, -, hswap, -, rfl⟩ := Board.eq_of_create_ok h
  obtain ⟨-, hslots, hcap⟩ := Swap.create_ok hswap
  unfold Board.SlotsWithin Swap.used
  rw [hslots, hcap]
  simp only [Array.size_empty, Int.natCast_zero]
  omega

/-- Reads and writes keep the slots handed out within the capacity, and the
log and the interrupts do not touch them. -/
theorem Board.keeps_slotsWithin (g : Geometry) : Board.Keeps g Board.SlotsWithin where
  read _ a hs hw := Board.readWord_slots_within hs.1 hw a
  write _ a v hs hw := Board.writeWord_slots_within hs.1 hw a v
  log _ _ hw := hw
  interrupts _ _ hw := hw

/-- On every reachable machine the swap space has handed out no more slots
than it has.  Induction on the calls. -/
theorem Reachable.slotsWithin {g : Geometry} {m : Machine} (h : Reachable g m) :
    m.board.SlotsWithin := by
  induction h with
  | create hg hm =>
    obtain ⟨b, hb, -, hboard⟩ := Machine.create_ok hm
    have hw := Board.create_slotsWithin hg hb
    rw [hboard]
    exact hw
  | call c hr ih => exact (Board.keeps_slotsWithin _).perform c hr.sane ih

/-- A reachable machine was made with a valid geometry. -/
theorem Reachable.validate {g : Geometry} {m : Machine} (h : Reachable g m) : g.validate = .ok g := by
  induction h with
  | create hg _ => exact hg
  | call _ _ ih => exact ih

/-- A reachable machine has a page for each virtual page of its geometry. -/
theorem Reachable.pages_size {g : Geometry} {m : Machine} (h : Reachable g m) :
    (m.board.pages.size : Int) = g.virtualPages := by
  have hV := (Geometry.validate_pos h.validate).2.2
  obtain ⟨hc, hg⟩ := h.sane
  have hsize := hc.sound.shape.table_size
  rw [Board.size_table, hg] at hsize
  omega

/-! ## Accesses by address -/

namespace Board

variable {g : Geometry} {b b' : Board}

/-- Within the address space of a sane board whose pages a sequence can
index, an access fails exactly when it runs out of swap, the page being the
address floored by the page size. -/
theorem translate_run_error_iff_within (hs : b.Sane g) (hw : b.SlotsWithin)
    (hV : (b.pages.size : Int) = g.virtualPages) (hfit : g.virtualPages ≤ maxLength) {a : Int}
    (ha : 0 ≤ a ∧ a < g.addressSpace) (write : Bool) {err : Fault} :
    (translate a write).run b = .error err b' ↔
      b.RunsOutOfSwap (a / g.pageSize).toNat ∧ err = .swapFull g.swapSlots ∧
        b' = b.outOfSwap (a / g.pageSize).toNat := by
  obtain ⟨h, rfl⟩ := hs
  have hP := h.sound.shape.pageSize_pos
  obtain ⟨m, rfl⟩ := Int.eq_ofNat_of_zero_le ha.1
  have hm : (m : Int) < b.table.size * b.geometry.pageSize := by
    rw [size_table, hV]
    exact ha.2
  have hvfit : ((m / b.pageWords : Nat) : Int) ≤ maxLength := by
    have hlt := page_lt h hm
    omega
  have hpage : ((m : Int) / b.geometry.pageSize).toNat = m / b.pageWords := by
    rw [h.sound.shape.pageSize_eq, Int.ofNat_ediv_ofNat, Int.toNat_natCast]
  rw [hpage, translate_run_error_iff h hw hm hvfit write, h.sound.shape.swap_capacity]

end Board

/-- A board action fails on a machine exactly as it fails on the machine's
board, leaving the processor as it was. -/
theorem Machine.onBoard_error_iff {α : Type} {act : BoardM α} {m : Machine} {P : Prop}
    {err₀ : Fault} {b₀ : Board} (h : ∀ err b', act.run m.board = .error err b' ↔ P ∧ err = err₀ ∧ b' = b₀)
    (err : Fault) (m' : Machine) :
    (Machine.onBoard act).run m = .error err m' ↔ P ∧ err = err₀ ∧ m' = { m with board := b₀ } := by
  rw [Machine.onBoard_run]
  cases hr : act.run m.board with
  | ok a b =>
    constructor
    · intro hrun
      cases hrun
    · rintro ⟨hp, rfl, -⟩
      have hfail := (h err b₀).mpr ⟨hp, rfl, rfl⟩
      rw [hr] at hfail
      cases hfail
  | error e b =>
    obtain ⟨hp, rfl, rfl⟩ := (h e b).mp hr
    constructor
    · intro hrun
      cases hrun
      exact ⟨hp, rfl, rfl⟩
    · rintro ⟨-, rfl, rfl⟩
      rfl

/-- On every reachable machine whose pages a sequence can index, a read or a
write of address `a` fails only as follows.  Outside the address space it
fails with an address fault, having counted the access and changed nothing
else.  Inside it, it fails exactly when the access runs out of swap, with the
swap space's fault, and leaves the machine `outOfSwap`, whose page table
differs only in referenced bits, and those only cleared. -/
theorem access_refused_exactly {g : Geometry} {m : Machine} (hm : Reachable g m)
    (hfit : g.virtualPages ≤ maxLength) (a : Int) :
    (¬ (0 ≤ a ∧ a < g.addressSpace) →
      (Machine.readWord a).run m = .error (.addressBeyondSpace a (g.virtualPages - 1))
          { m with board := { m.board with stats.accesses := m.board.stats.accesses + 1 } } ∧
        ∀ x, (Machine.writeWord a x).run m = .error (.addressBeyondSpace a (g.virtualPages - 1))
          { m with board := { m.board with stats.accesses := m.board.stats.accesses + 1 } }) ∧
    (0 ≤ a ∧ a < g.addressSpace →
      (∀ err m', (Machine.readWord a).run m = .error err m' ↔
        m.board.RunsOutOfSwap (a / g.pageSize).toNat ∧ err = .swapFull g.swapSlots ∧
          m' = { m with board := m.board.outOfSwap (a / g.pageSize).toNat }) ∧
      ∀ x err m', (Machine.writeWord a x).run m = .error err m' ↔
        m.board.RunsOutOfSwap (a / g.pageSize).toNat ∧ err = .swapFull g.swapSlots ∧
          m' = { m with board := m.board.outOfSwap (a / g.pageSize).toNat }) ∧
    ∀ v, (m.board.outOfSwap v).table = m.board.table ∧
      ∀ (i : Nat) (e' : PageEntry), (m.board.outOfSwap v).pages[i]? = some e' → e'.referenced = true →
        ∃ e : PageEntry, m.board.pages[i]? = some e ∧ e.referenced = true := by
  have hs := hm.sane
  have hV := hm.pages_size
  obtain ⟨h, hg⟩ := hs
  refine ⟨fun hout => ?_, fun hin => ?_, fun v => ⟨Board.outOfSwap_table _ v, fun _ _ => Board.outOfSwap_referenced⟩⟩
  · -- outside, the translation fails before anything but the count changes
    have hbeyond : ¬ (0 ≤ a ∧ a < m.board.pages.size * m.board.geometry.pageSize) := by
      rw [hV, hg]
      exact hout
    have ht := Board.translate_run_beyond h.sound.shape.pageSize_pos hbeyond
    rw [hV] at ht
    constructor
    · show (Machine.onBoard _).run m = _
      rw [Machine.onBoard_run, (Board.readWord_run_error_iff h a).mpr (ht false)]
    · intro x
      show (Machine.onBoard _).run m = _
      rw [Machine.onBoard_run, (Board.writeWord_run_error_iff h a x).mpr (ht true)]
  · -- inside, a read and a write fail as their translations do
    have hw := hm.slotsWithin
    constructor
    · exact Machine.onBoard_error_iff fun err b' =>
        (Board.readWord_run_error_iff h a).trans (Board.translate_run_error_iff_within ⟨h, hg⟩ hw hV hfit hin false)
    · intro x
      exact Machine.onBoard_error_iff fun err b' =>
        (Board.writeWord_run_error_iff h a x).trans (Board.translate_run_error_iff_within ⟨h, hg⟩ hw hV hfit hin true)

/-- On a reachable machine of the small geometry, reading past its sixteen
words fails with an address fault. -/
theorem access_refused_exactly_small : ∃ m : Machine, Reachable smallGeometry m ∧
    (Machine.readWord 20).run m = .error (.addressBeyondSpace 20 3)
      { m with board := { m.board with stats.accesses := m.board.stats.accesses + 1 } } := by
  obtain ⟨m, hm⟩ := Reachable.small
  exact ⟨m, hm, ((access_refused_exactly hm (by decide) 20).1 (by decide)).1⟩

end DemandPaging
