import DemandPaging.FlatMemory
import DemandPaging.Proofs.Transparency

/-!
# Paging simulates flat memory

A program run on the machine computes what it computes on flat memory, where
every address holds a word and nothing is paged.  Three runs are compared, all
from a new processor with the machine's registers:

* the machine's run, after the program is loaded from address 0;
* a run on flat memory cut to the machine's address space
  (`FlatMemory.boundedBus`), which refuses an address outside it as the pager
  does, holding the program from address 0;
* the run on flat memory itself.

The pager mirrors the cut memory (`Board.Mirrors`): a sane board with no
interrupt waiting, showing the flat memory's word at every address of the
space.  Every bus request keeps the mirror and answers alike, unless the pager
runs out of swap slots (`Machine.bus_lockstep`), so the machine's run agrees
with the cut run (`Machine.run_agrees`).  The cut memory answers as flat memory
at every address of the space, so the cut run agrees with the flat one unless
it refuses an address outside; and a run that fails, fails in a step taken
from the state a shorter run stops at (`Computer.run_error`), where the flat
run stands too.  `runs_as_on_flat_memory` puts the three together.
-/

namespace DemandPaging

/-! ## Where a failed run failed -/

section Runs

variable {μ : Type}

/-- A run that fails, fails in a step taken where a shorter run stops for want
of budget.  Induction on the budget: each round services interrupts, checks
the processor's flags, and steps. -/
theorem Computer.run_error (bus : Bus μ) (n : Nat) :
    ∀ {c c' : Computer μ} {e : Fault}, (Computer.run bus n).run c = .error e c' →
      ∃ k < n, ∃ d, (Computer.run bus k).run c = .ok .stepLimit d ∧
        (Computer.step bus).run d = .error e c' := by
  induction n with
  | zero =>
    intro c c' e h
    obtain ⟨stopped, board, hs⟩ : ∃ st b, bus.service c.cpu.pc c.board = (st, b) := ⟨_, _, rfl⟩
    rw [Computer.run_round bus 0 c hs] at h
    by_cases hstop : (c.cpu.stopRequested || stopped) = true
    · rw [if_pos hstop] at h
      cases h
    · by_cases hhalt : c.cpu.halted = true
      · rw [if_neg hstop, if_pos hhalt] at h
        cases h
      · rw [if_neg hstop, if_neg hhalt] at h
        cases h
  | succ n ih =>
    intro c c' e h
    obtain ⟨stopped, board, hs⟩ : ∃ st b, bus.service c.cpu.pc c.board = (st, b) := ⟨_, _, rfl⟩
    have hround := Computer.run_round bus (n + 1) c hs
    by_cases hstop : (c.cpu.stopRequested || stopped) = true
    · rw [hround, if_pos hstop] at h
      cases h
    by_cases hhalt : c.cpu.halted = true
    · rw [hround, if_neg hstop, if_pos hhalt] at h
      cases h
    rw [hround, if_neg hstop, if_neg hhalt] at h
    dsimp only at h
    rw [EStateM.run_bind] at h
    -- the first step either fails, at once, or leaves a shorter run that fails
    cases hstep : (Computer.step bus).run ⟨{ c.cpu with stopRequested := false }, board⟩ with
    | error e' c'' =>
      rw [hstep] at h
      cases h
      refine ⟨0, Nat.zero_lt_succ n, _, ?_, hstep⟩
      rw [Computer.run_round bus 0 c hs, if_neg hstop, if_neg hhalt]
    | ok u c₁ =>
      rw [hstep] at h
      obtain ⟨k, hk, d, hrun, hfail⟩ := ih h
      refine ⟨k + 1, Nat.succ_lt_succ hk, d, ?_, hfail⟩
      rw [Computer.run_round bus (k + 1) c hs, if_neg hstop, if_neg hhalt]
      dsimp only
      rw [EStateM.run_bind, hstep]
      exact hrun

/-- A failed step leaves the processor as it was. -/
theorem Computer.step_error_cpu {bus : Bus μ} {d c : Computer μ} {e : Fault}
    (h : (Computer.step bus).run d = .error e c) : c.cpu = d.cpu := by
  change Computer.step bus d = _ at h
  unfold Computer.step at h
  split at h
  · cases h
  · cases h
    rfl

end Runs

/-! ## Flat memory -/

/-- The words `f` shows once `ws` are stored at `start`, `start + 1`, ... -/
def storeAll (start : Int) : List Int → (Int → Int) → Int → Int
  | [], f => f
  | w :: ws, f => storeAll (start + 1) ws (fun c => if c = start then w else f c)

namespace FlatMemory

theorem lookup_cons_eq (k x a' : Int) (l : List (Int × Int)) :
    ((k, x) :: l).lookup a' = if a' = k then some x else l.lookup a' := by
  by_cases h : a' = k
  · subst h
    simp
  · have hb : (a' == k) = false := beq_false_of_ne h
    simp [List.lookup_cons, hb, h]

theorem lookup_insertCell (a v : Int) (cells : List (Int × Int)) (a' : Int) :
    (insertCell a v cells).lookup a' = if a' = a then some v else cells.lookup a' := by
  induction cells with
  | nil => simp [insertCell]
  | cons c rest ih =>
    obtain ⟨b, w⟩ := c
    unfold insertCell
    by_cases hab : a < b
    · rw [if_pos hab, lookup_cons_eq]
    · rw [if_neg hab]
      by_cases hba : a = b
      · -- the cell at `a` is replaced
        subst hba
        rw [if_pos rfl, lookup_cons_eq, lookup_cons_eq]
        by_cases ha' : a' = a <;> simp [ha']
      · rw [if_neg hba, lookup_cons_eq, lookup_cons_eq, ih]
        by_cases ha' : a' = a
        · subst ha'
          simp [hba]
        · simp [ha']

/-- After a write, the written address reads the value and every other address
reads as before. -/
theorem read_write (m : FlatMemory) (a v a' : Int) :
    (m.write a v).read a' = if a' = a then v else m.read a' := by
  simp only [read, write, lookup_insertCell]
  split <;> rfl

/-- The cells of `ws` stored from address `start` on. -/
def cellsFrom (start : Int) : List Int → List (Int × Int)
  | [] => []
  | w :: ws => (start, w) :: cellsFrom (start + 1) ws

/-- Storing cells one after another shows their words. -/
theorem read_foldl_cellsFrom (start : Int) (ws : List Int) :
    ∀ m : FlatMemory, ((cellsFrom start ws).foldl (fun m c => m.write c.1 c.2) m).read =
      storeAll start ws m.read := by
  induction ws generalizing start with
  | nil =>
    intro m
    rfl
  | cons w ws ih =>
    intro m
    rw [cellsFrom, List.foldl_cons, ih, storeAll]
    congr 1
    funext c
    exact read_write m start w c

theorem read_ofCells_cellsFrom (ws : List Int) (log : Log) :
    (ofCells (cellsFrom 0 ws) log).read = storeAll 0 ws fun _ => 0 :=
  read_foldl_cellsFrom 0 ws { log }

/-- Flat memory cut to the addresses `[0, size)`: outside them a read or a
write fails as the pager refuses an address beyond a space of `pages` pages. -/
def boundedBus (size pages : Int) : Bus FlatMemory where
  read a := if 0 ≤ a ∧ a < size then bus.read a else throw (.addressBeyondSpace a (pages - 1))
  write a v := if 0 ≤ a ∧ a < size then bus.write a v else throw (.addressBeyondSpace a (pages - 1))
  trace := bus.trace
  service := bus.service

section Bounded

variable {size pages : Int} {m : FlatMemory} {a : Int}

theorem boundedBus_read_of_mem (h : 0 ≤ a ∧ a < size) :
    ((boundedBus size pages).read a).run m = .ok (m.read a) m := by
  simp only [boundedBus, if_pos h]
  rfl

theorem boundedBus_read_of_not_mem (h : ¬ (0 ≤ a ∧ a < size)) :
    ((boundedBus size pages).read a).run m = .error (.addressBeyondSpace a (pages - 1)) m := by
  simp only [boundedBus, if_neg h]
  rfl

theorem boundedBus_write_of_mem (h : 0 ≤ a ∧ a < size) (v : Int) :
    ((boundedBus size pages).write a v).run m = .ok () (m.write a v) := by
  simp only [boundedBus, if_pos h]
  rfl

theorem boundedBus_write_of_not_mem (h : ¬ (0 ≤ a ∧ a < size)) (v : Int) :
    ((boundedBus size pages).write a v).run m = .error (.addressBeyondSpace a (pages - 1)) m := by
  simp only [boundedBus, if_neg h]
  rfl

end Bounded

/-- Cutting flat memory to a space changes nothing but the refusals of
addresses outside it. -/
theorem boundedBus_lockstep (size pages : Int) (W : Int → Prop) :
    (boundedBus size pages).Lockstep bus Eq W (fun e => ∃ a x, e = .addressBeyondSpace a x) where
  read a x y hxy _ := by
    subst hxy
    by_cases h : 0 ≤ a ∧ a < size
    · rw [boundedBus_read_of_mem h]
      exact Agrees.refl _
    · rw [boundedBus_read_of_not_mem h]
      exact .inl ⟨a, _, rfl⟩
  write a v x y hxy _ _ := by
    subst hxy
    by_cases h : 0 ≤ a ∧ a < size
    · rw [boundedBus_write_of_mem h]
      exact Agrees.refl _
    · rw [boundedBus_write_of_not_mem h]
      exact .inl ⟨a, _, rfl⟩
  trace e x y hxy := by
    subst hxy
    rfl
  service pc x y hxy := by
    subst hxy
    exact ⟨rfl, rfl⟩

end FlatMemory

/-! ## Words -/

/-- Whether a value is a word, in `[0, 2^32)`. -/
def IsWord (v : Int) : Prop := 0 ≤ v ∧ v < 4294967296

instance : DecidablePred IsWord := fun v => inferInstanceAs (Decidable (0 ≤ v ∧ v < 4294967296))

theorem isWord_wrapWord (v : Int) : IsWord (wrapWord v) := ⟨wrapWord_nonneg v, wrapWord_lt v⟩

theorem isWord_zero : IsWord 0 := ⟨Int.le_refl 0, by decide⟩

/-- Words are kept whole by the narrowing to 32 bits. -/
theorem map_wrapWord {ws : List Int} (h : ∀ w ∈ ws, IsWord w) : ws.map wrapWord = ws := by
  induction ws with
  | nil => rfl
  | cons w ws ih =>
    have hw := h w List.mem_cons_self
    rw [List.map_cons, wrapWord_of_lt hw.1 hw.2, ih fun v hv => h v (List.mem_cons_of_mem w hv)]

/-- A new processor is at pc 0 with every register 0. -/
theorem Cpu.create_within {count : Int} {cpu : Cpu} (h : Cpu.create count = .ok cpu) :
    cpu.Within IsWord := by
  obtain ⟨-, rfl⟩ := Cpu.eq_of_create_ok h
  refine ⟨isWord_zero, fun v hv => ?_⟩
  rw [(Array.mem_replicate.mp hv).2]
  exact isWord_zero

/-! ## Loading a program -/

namespace Board

variable {b : Board}

/-- Storing words one after another shows them at their addresses, or fails
as one of the addresses is refused. -/
theorem storeWords_spec (start : Int) (ws : List Int) :
    ∀ {b : Board}, b.Consistent →
      match (storeWords start ws).run b with
      | .ok _ b' => b.Kept b' ∧ b'.contents = storeAll start (ws.map wrapWord) b.contents
      | .error e b' => b.Kept b' ∧ ∃ a, start ≤ a ∧ a < start + ws.length ∧ b'.Refuses a e := by
  induction ws generalizing start with
  | nil =>
    intro b h
    exact ⟨Kept.refl h, rfl⟩
  | cons w ws ih =>
    intro b h
    have hw := writeWord_spec h start w
    simp only [storeWords, EStateM.run_bind]
    cases hr : (writeWord start w).run b with
    | error e b₁ =>
      rw [hr] at hw
      obtain ⟨hk, -, hre⟩ := hw
      refine ⟨hk, start, Int.le_refl start, ?_, hre⟩
      simp only [List.length_cons]
      omega
    | ok u b₁ =>
      rw [hr] at hw
      obtain ⟨hk, hc, -⟩ := hw
      have hrest := ih (start + 1) hk.consistent
      dsimp only
      cases hr' : (storeWords (start + 1) ws).run b₁ with
      | ok u' b₂ =>
        rw [hr'] at hrest
        obtain ⟨hk', hc'⟩ := hrest
        refine ⟨hk.trans hk', ?_⟩
        rw [hc', hc]
        rfl
      | error e b₂ =>
        rw [hr'] at hrest
        obtain ⟨hk', a, ha₁, ha₂, hre⟩ := hrest
        refine ⟨hk.trans hk', a, by omega, ?_, hre⟩
        simp only [List.length_cons]
        omega

/-- Loading a program stores its words from address 0 and logs a line, or fails
as one of the program's addresses is refused. -/
theorem loadProgram_spec (h : b.Consistent) (words : List Int) :
    match (loadProgram words).run b with
    | .ok _ b' => b.Kept b' ∧ b'.contents = storeAll 0 (words.map wrapWord) b.contents
    | .error e b' => b.Kept b' ∧ ∃ a : Int, 0 ≤ a ∧ a < words.length ∧ b'.Refuses a e := by
  have hs := storeWords_spec 0 words h
  simp only [loadProgram, EStateM.run_bind]
  cases hr : (storeWords 0 words).run b with
  | error e b' =>
    rw [hr] at hs
    obtain ⟨hk, a, ha₀, ha, hre⟩ := hs
    exact ⟨hk, a, ha₀, by simpa using ha, hre⟩
  | ok u b' =>
    rw [hr] at hs
    obtain ⟨hk, hc⟩ := hs
    exact ⟨hk.log _, hc⟩

end Board

/-- No interrupt waits on a new machine. -/
theorem Machine.create_quiet {g : Geometry} {kind : PolicyKind} {trace : Option (List Int)}
    {record : Bool} {log : Log} {m : Machine} (h : Machine.create g kind trace record log = .ok m) :
    m.board.interrupts.service = ([], m.board.interrupts) := by
  obtain ⟨b, hb, -, hm⟩ := Machine.create_ok h
  rw [hm]
  show b.interrupts.service = ([], b.interrupts)
  rw [(Board.create_ok hb).2.2]
  rfl

/-! ## The pager's memory mirrors a flat one -/

namespace Board

/-- The board `b` of geometry `g` shows the words of the flat memory `f` at
every address of its space, and no interrupt waits on it. -/
structure Mirrors (g : Geometry) (b : Board) (f : FlatMemory) : Prop where
  sane : b.Sane g
  quiet : b.interrupts.service = ([], b.interrupts)
  words : ∀ a, 0 ≤ a → a < g.addressSpace → b.contents a = f.read a

section Mirrors

variable {g : Geometry} {b b' : Board} {f : FlatMemory}

/-- An access that changes no word keeps the mirror. -/
theorem Mirrors.keep (h : b.Mirrors g f) (hk : b.Kept b') (hc : b'.contents = b.contents) :
    b'.Mirrors g f where
  sane := ⟨hk.consistent, hk.geometry.trans h.sane.2⟩
  quiet := by rw [hk.interrupts]; exact h.quiet
  words a h0 ha := by rw [hc]; exact h.words a h0 ha

/-- A write of a word at an address of the space keeps the mirror of the flat
memory written alike. -/
theorem Mirrors.write {a v : Int} (h : b.Mirrors g f) (hk : b.Kept b')
    (hc : b'.contents = fun c => if c = a then wrapWord v else b.contents c) (hv : IsWord v) :
    b'.Mirrors g (f.write a v) where
  sane := ⟨hk.consistent, hk.geometry.trans h.sane.2⟩
  quiet := by rw [hk.interrupts]; exact h.quiet
  words c h0 hc' := by
    rw [hc, FlatMemory.read_write]
    by_cases hca : c = a
    · simp only [hca, if_true]
      exact wrapWord_of_lt hv.1 hv.2
    · simp only [hca, if_false]
      exact h.words c h0 hc'

theorem Mirrors.log (h : b.Mirrors g f) (l : Log) (l' : Log) :
    ({ b with log := l } : Board).Mirrors g { f with log := l' } where
  sane := h.sane.log l
  quiet := h.quiet
  words := h.words

theorem Sane.table_size (h : b.Sane g) (hV : 0 < g.virtualPages) :
    (b.table.size : Int) = g.virtualPages := by
  rw [h.1.sound.shape.table_size, h.2, Int.toNat_of_nonneg (Int.le_of_lt hV)]

/-- The space of a sane board is that of its geometry. -/
theorem Sane.space (h : b.Sane g) (hV : 0 < g.virtualPages) :
    (b.table.size : Int) * b.geometry.pageSize = g.addressSpace := by
  rw [h.table_size hV, h.2]
  rfl

/-- A sane board refuses an address for want of a swap slot, because the
address lies outside the space, or because its page is past the largest index. -/
theorem Sane.refuses {a : Int} {e : Fault} (h : b'.Sane g) (hV : 0 < g.virtualPages)
    (hr : b'.Refuses a e) :
    (∃ cap, e = .swapFull cap) ∨
      (¬ (0 ≤ a ∧ a < g.addressSpace) ∧ e = .addressBeyondSpace a (g.virtualPages - 1)) ∨
      (0 ≤ a ∧ e = .indexOverflow ∧ maxLength < a) := by
  cases hr with
  | beyond hnot =>
    rw [h.space hV] at hnot
    exact .inr (.inl ⟨hnot, by rw [h.table_size hV]⟩)
  | overflow hin hov =>
    -- the page index is at most the address
    have hle : a / b'.geometry.pageSize ≤ a := Int.ediv_le_self _ hin.1
    exact .inr (.inr ⟨hin.1, rfl, by omega⟩)
  | swapFull _ _ _ => exact .inl ⟨_, rfl⟩

/-- A refusal at a word address keeps the mirror and fails as the cut flat
memory fails outside the space, unless it was for want of a swap slot. -/
theorem Mirrors.refused_agrees {α : Type} {a : Int} {e : Fault} {P : α → Prop}
    {r : EStateM.Result Fault FlatMemory α} (h : b'.Mirrors g f) (hV : 0 < g.virtualPages)
    (hr : b'.Refuses a e) (ha : IsWord a)
    (hout : ¬ (0 ≤ a ∧ a < g.addressSpace) →
      r = .error (.addressBeyondSpace a (g.virtualPages - 1)) f) :
    Agrees (Mirrors g) (fun e => ∃ cap, e = .swapFull cap) P (.error e b') r := by
  rcases h.sane.refuses hV hr with hs | ⟨hnot, rfl⟩ | ⟨-, -, hov⟩
  · exact .inl hs
  · exact .inr ⟨f, hout hnot, h⟩
  · -- a word lies far below the largest index
    have hlt := ha.2
    unfold maxLength at hov
    omega

end Mirrors

end Board

/-- The pager answers every access at a word address as flat memory cut to its
space does, unless it runs out of swap slots; its traces and its servicing of
interrupts keep the mirror. -/
theorem Machine.bus_lockstep {g : Geometry} (hV : 0 < g.virtualPages) :
    Machine.bus.Lockstep (FlatMemory.boundedBus g.addressSpace g.virtualPages) (Board.Mirrors g)
      IsWord (fun e => ∃ cap, e = .swapFull cap) where
  read a b f h ha := by
    have hspec := Board.readWord_spec h.sane.1 a
    show Agrees _ _ _ ((Board.readWord a).run b) _
    cases hrun : (Board.readWord a).run b with
    | ok x b' =>
      rw [hrun] at hspec
      obtain ⟨hkept, hc, hin, hx⟩ := hspec
      rw [h.sane.space hV] at hin
      refine ⟨trivial, f, ?_, h.keep hkept hc⟩
      rw [FlatMemory.boundedBus_read_of_mem hin, hx, h.words a hin.1 hin.2]
    | error e b' =>
      rw [hrun] at hspec
      obtain ⟨hkept, hc, hr⟩ := hspec
      exact (h.keep hkept hc).refused_agrees hV hr ha FlatMemory.boundedBus_read_of_not_mem
  write a v b f h ha hv := by
    have hspec := Board.writeWord_spec h.sane.1 a v
    show Agrees _ _ _ ((Board.writeWord a v).run b) _
    cases hrun : (Board.writeWord a v).run b with
    | ok x b' =>
      rw [hrun] at hspec
      obtain ⟨hkept, hc, hin⟩ := hspec
      rw [h.sane.space hV] at hin
      exact ⟨trivial, f.write a v, FlatMemory.boundedBus_write_of_mem hin v, h.write hkept hc hv⟩
    | error e b' =>
      rw [hrun] at hspec
      obtain ⟨hkept, hc, hr⟩ := hspec
      exact (h.keep hkept hc).refused_agrees hV hr ha (FlatMemory.boundedBus_write_of_not_mem · v)
  trace e b f h := h.log _ _
  service pc b f h := by
    show (Board.service pc b).1 = false ∧ (Board.service pc b).2.Mirrors g f
    -- nothing waits, so servicing leaves the board as it is
    simp only [Board.service, h.quiet, List.isEmpty_nil, Bool.not_true, List.foldl_nil, true_and]
    exact h

/-- A run of the machine answers as a run on any memory system whose bus keeps
in lockstep with the machine's, under a relation blind to the board's log: the
line the run logs at the end changes nothing else. -/
theorem Machine.run_lockstep {μ : Type} {bus : Bus μ} {R : Board → μ → Prop}
    {spared : Fault → Prop} (hbus : Machine.bus.Lockstep bus R IsWord spared)
    (hlog : ∀ b y (l : Log), R b y → R { b with log := l } y) (limit : Option Int)
    {m : Machine} {c : Computer μ} (h : Computer.Twins R IsWord m c) :
    Agrees (Computer.Twins R IsWord) spared (fun _ => True)
      ((Machine.run limit).run m) ((Computer.run bus (budgetOf limit)).run c) := by
  unfold Machine.run
  rw [← bind_pure (Computer.run bus (budgetOf limit))]
  refine Agrees.bind (Computer.run_lockstep hbus isWord_wrapWord _ h) fun o _ m' c' h' => ?_
  obtain ⟨hcpu, hw, hm⟩ := h'
  exact ⟨trivial, c', rfl, hcpu, hw, hlog _ _ _ hm⟩

/-- A run of the machine answers as a run on flat memory cut to its space does,
unless it runs out of swap slots; the line it logs at the end is no part of
the mirror. -/
theorem Machine.run_agrees {g : Geometry} (hV : 0 < g.virtualPages) (limit : Option Int)
    {m : Machine} {c : Computer FlatMemory} (h : Computer.Twins (Board.Mirrors g) IsWord m c) :
    Agrees (Computer.Twins (Board.Mirrors g) IsWord) (fun e => ∃ cap, e = .swapFull cap) (fun _ => True)
      ((Machine.run limit).run m)
      ((Computer.run (FlatMemory.boundedBus g.addressSpace g.virtualPages) (budgetOf limit)).run c) :=
  Machine.run_lockstep (Machine.bus_lockstep hV) (fun _ f l hm => hm.log l f.log) limit h

/-! ## The simulation -/

/-- Running a program on the machine does what running it on flat memory does.

The program is of words and fits the address space; the flat memory holds it
from address 0, and the processor is a new one with the machine's registers.
Loading fails only for want of a swap slot (or at a page past the largest
index, for a program longer than any sequence).  After a load:

* the machine's run agrees with the run on flat memory cut to the space (same
  outcome and processor, or the same fault with the same processor), unless
  it runs out of swap slots;
* the cut run agrees with the flat one, unless it refuses an address outside
  the space;
* a cut run that fails, fails in a step taken from a state the flat run also
  reaches after as many steps, with the processor it had there.

Two machines that differ only in policy or frames each agree with the same
flat run, and so compute the same. -/
theorem runs_as_on_flat_memory {g : Geometry} {kind : PolicyKind} {trace : Option (List Int)}
    {record : Bool} {log : Log} {m : Machine} {cpu : Cpu} (program : List Int)
    (limit : Option Int) (flog : Log) (hg : g.validate = .ok g)
    (hm : Machine.create g kind trace record log = .ok m) (hcpu : Cpu.create g.registers = .ok cpu)
    (hwords : ∀ w ∈ program, IsWord w) (hlen : (program.length : Int) ≤ g.addressSpace) :
    match (Machine.loadProgram program).run m with
    | .error e _ => (∃ cap, e = .swapFull cap) ∨ (e = .indexOverflow ∧ maxLength < program.length)
    | .ok _ m₁ =>
      Agrees (fun m' c' => m'.cpu = c'.cpu) (fun e => ∃ cap, e = .swapFull cap) (fun _ => True)
          ((Machine.run limit).run m₁)
          ((Computer.run (FlatMemory.boundedBus g.addressSpace g.virtualPages) (budgetOf limit)).run
            ⟨cpu, FlatMemory.ofCells (FlatMemory.cellsFrom 0 program) flog⟩) ∧
        Agrees Eq (fun e => ∃ a x, e = .addressBeyondSpace a x) (fun _ => True)
          ((Computer.run (FlatMemory.boundedBus g.addressSpace g.virtualPages) (budgetOf limit)).run
            ⟨cpu, FlatMemory.ofCells (FlatMemory.cellsFrom 0 program) flog⟩)
          ((Computer.run FlatMemory.bus (budgetOf limit)).run
            ⟨cpu, FlatMemory.ofCells (FlatMemory.cellsFrom 0 program) flog⟩) ∧
        ∀ e c', (Computer.run (FlatMemory.boundedBus g.addressSpace g.virtualPages)
            (budgetOf limit)).run ⟨cpu, FlatMemory.ofCells (FlatMemory.cellsFrom 0 program) flog⟩ =
              .error e c' →
          ∃ k < budgetOf limit, ∃ d,
            (Computer.run (FlatMemory.boundedBus g.addressSpace g.virtualPages) k).run
                ⟨cpu, FlatMemory.ofCells (FlatMemory.cellsFrom 0 program) flog⟩ = .ok .stepLimit d ∧
              (Computer.run FlatMemory.bus k).run
                ⟨cpu, FlatMemory.ofCells (FlatMemory.cellsFrom 0 program) flog⟩ = .ok .stepLimit d ∧
              c'.cpu = d.cpu ∧
              (Computer.step (FlatMemory.boundedBus g.addressSpace g.virtualPages)).run d =
                .error e c' := by
  have hV := (Geometry.validate_pos hg).2.2
  have hsane := Machine.create_sane hg hm
  have hmcpu : m.cpu = cpu := by
    obtain ⟨-, -, hc, -⟩ := Machine.create_ok hm
    rw [hcpu] at hc
    cases hc
    rfl
  have hload := Board.loadProgram_spec hsane.1 program
  rw [Machine.loadProgram, Machine.onBoard_run]
  cases hr : (Board.loadProgram program).run m.board with
  | error e b' =>
    rw [hr] at hload
    obtain ⟨hk, a, ha₀, ha, hre⟩ := hload
    have hs' : b'.Sane g := ⟨hk.consistent, hk.geometry.trans hsane.2⟩
    rcases hs'.refuses hV hre with hs | ⟨hnot, -⟩ | ⟨-, he, hov⟩
    · exact .inl hs
    · -- every address of the program lies in the space
      exact absurd ⟨ha₀, by omega⟩ hnot
    · exact .inr ⟨he, by omega⟩
  | ok n b' =>
    rw [hr] at hload
    obtain ⟨hk, hc⟩ := hload
    -- the loaded machine mirrors flat memory preloaded with the program
    have hmirror : b'.Mirrors g (FlatMemory.ofCells (FlatMemory.cellsFrom 0 program) flog) := by
      refine ⟨⟨hk.consistent, hk.geometry.trans hsane.2⟩, ?_, fun a _ _ => ?_⟩
      · rw [hk.interrupts]
        exact Machine.create_quiet hm
      · rw [hc, Machine.create_contents hm, map_wrapWord hwords, FlatMemory.read_ofCells_cellsFrom]
    have hwithin := Cpu.create_within hcpu
    have htwins : Computer.Twins (Board.Mirrors g) IsWord { m with board := b' }
        ⟨cpu, FlatMemory.ofCells (FlatMemory.cellsFrom 0 program) flog⟩ :=
      ⟨hmcpu, hmcpu ▸ hwithin, hmirror⟩
    have hflat : Computer.Twins Eq IsWord
        ⟨cpu, FlatMemory.ofCells (FlatMemory.cellsFrom 0 program) flog⟩
        ⟨cpu, FlatMemory.ofCells (FlatMemory.cellsFrom 0 program) flog⟩ := ⟨rfl, hwithin, rfl⟩
    have hcut := FlatMemory.boundedBus_lockstep g.addressSpace g.virtualPages IsWord
    refine ⟨(Machine.run_agrees hV limit htwins).mono fun _ _ h => h.1,
      (Computer.run_lockstep hcut isWord_wrapWord _ hflat).mono fun _ _ h => h.eq, ?_⟩
    intro e c' herr
    -- the failing step starts where a shorter cut run stops, and the flat run
    -- of that length stops at the same state
    obtain ⟨k, hk, d, hrun, hstep⟩ := Computer.run_error _ _ herr
    have hshort := Computer.run_lockstep hcut isWord_wrapWord k hflat
    rw [hrun] at hshort
    obtain ⟨-, t, hflatrun, hdt⟩ := hshort
    refine ⟨k, hk, d, hrun, ?_, Computer.step_error_cpu hstep, hstep⟩
    rw [hflatrun, hdt.eq]

/-- A one-word program on a small machine, run with no step limit. -/
theorem runs_as_on_flat_memory_small :
    ∃ (m : Machine) (cpu : Cpu), Machine.create smallGeometry .fifo none false {} = .ok m ∧
      Cpu.create smallGeometry.registers = .ok cpu ∧
      match (Machine.loadProgram [0]).run m with
      | .error e _ => (∃ cap, e = .swapFull cap) ∨ (e = .indexOverflow ∧ maxLength < 1)
      | .ok _ m₁ =>
        Agrees (fun m' c' => m'.cpu = c'.cpu) (fun e => ∃ cap, e = .swapFull cap) (fun _ => True)
            ((Machine.run none).run m₁)
            ((Computer.run (FlatMemory.boundedBus smallGeometry.addressSpace smallGeometry.virtualPages)
              (budgetOf none)).run ⟨cpu, FlatMemory.ofCells (FlatMemory.cellsFrom 0 [0]) {}⟩) ∧
          Agrees Eq (fun e => ∃ a x, e = .addressBeyondSpace a x) (fun _ => True)
            ((Computer.run (FlatMemory.boundedBus smallGeometry.addressSpace smallGeometry.virtualPages)
              (budgetOf none)).run ⟨cpu, FlatMemory.ofCells (FlatMemory.cellsFrom 0 [0]) {}⟩)
            ((Computer.run FlatMemory.bus (budgetOf none)).run
              ⟨cpu, FlatMemory.ofCells (FlatMemory.cellsFrom 0 [0]) {}⟩) ∧
          ∀ e c', (Computer.run (FlatMemory.boundedBus smallGeometry.addressSpace
              smallGeometry.virtualPages) (budgetOf none)).run
                ⟨cpu, FlatMemory.ofCells (FlatMemory.cellsFrom 0 [0]) {}⟩ = .error e c' →
            ∃ k < budgetOf none, ∃ d,
              (Computer.run (FlatMemory.boundedBus smallGeometry.addressSpace smallGeometry.virtualPages)
                  k).run ⟨cpu, FlatMemory.ofCells (FlatMemory.cellsFrom 0 [0]) {}⟩ = .ok .stepLimit d ∧
                (Computer.run FlatMemory.bus k).run
                  ⟨cpu, FlatMemory.ofCells (FlatMemory.cellsFrom 0 [0]) {}⟩ = .ok .stepLimit d ∧
                c'.cpu = d.cpu ∧
                (Computer.step (FlatMemory.boundedBus smallGeometry.addressSpace
                  smallGeometry.virtualPages)).run d = .error e c' := by
  obtain ⟨m, hm⟩ : ∃ m, Machine.create smallGeometry .fifo none false {} = .ok m := ⟨_, rfl⟩
  obtain ⟨cpu, hcpu⟩ : ∃ cpu, Cpu.create smallGeometry.registers = .ok cpu := ⟨_, rfl⟩
  exact ⟨m, cpu, hm, hcpu, runs_as_on_flat_memory [0] none {} rfl hm hcpu (by decide) (by decide)⟩

end DemandPaging
