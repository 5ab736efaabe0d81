import DemandPaging.Proofs.Replay

/-!
# Which faults the command reports

`Command.execute` ends with a usage status before anything runs, with an
exit status and what it printed, or with a fault it does not report; or it has
not ended once a run has spent its budget.  This file shows which faults can
end it the third way, whatever the arguments, the files and the stop
requests:

* input the command cannot take as it expects (`Fault.Unreadable`): a file
  that is not UTF-8, a number with more digits than a literal may have, a
  path with a null character, an option left holding the empty list by a bare
  `--`;
* a geometry too large for the sequences a machine is made of
  (`Geometry.Overflows`): more words of RAM or more registers than a signed
  64-bit count, more pages than a signed 64-bit index reaches.

Every other fault is reported, with status 1.  For the faults of a run this is
a safety property of the whole machine: the pager never fails for a reason of
its own (a slot never handed out, a frame of the wrong size, a cursor modulo
zero frames, an interrupt vector), and the processor never names a register
it lacks (`Cpu.Wide`, kept by every instruction).  The main statement is
`escapes_only_unreadable_or_oversized`.
-/

namespace DemandPaging

open Text Command

/-! ## Faults of computations that may fail -/

section Raises

variable {α β : Type} {Q : Fault → Prop}

/-- Every fault `x` can fail with satisfies `Q`. -/
def Raises (Q : Fault → Prop) (x : Except Fault α) : Prop := ∀ f, x = .error f → Q f

namespace Raises

theorem ok (a : α) : Raises Q (.ok a) := fun _ h => nomatch h

theorem error {f : Fault} (h : Q f) : Raises Q (.error f : Except Fault α) := by
  intro f' hf
  cases hf
  exact h

theorem bind {x : Except Fault α} {g : α → Except Fault β} (hx : Raises Q x)
    (hg : ∀ a, Raises Q (g a)) : Raises Q (x >>= g) := by
  intro f h
  cases hx' : x with
  | error e =>
    rw [hx'] at h
    cases h
    exact hx _ hx'
  | ok a =>
    rw [hx'] at h
    exact hg a f h

theorem map {x : Except Fault α} {g : α → β} (hx : Raises Q x) : Raises Q (g <$> x) := by
  intro f h
  cases hx' : x with
  | error e =>
    rw [hx'] at h
    cases h
    exact hx _ hx'
  | ok a =>
    rw [hx'] at h
    cases h

theorem mono {R : Fault → Prop} {x : Except Fault α} (h : Raises Q x) (hQR : ∀ f, Q f → R f) :
    Raises R x :=
  fun f hf => hQR f (h f hf)

theorem mapError {γ : Type} {x : Except γ α} {u : γ → Fault} (hu : ∀ e, Q (u e)) :
    Raises Q (x.mapError u) := by
  intro f h
  cases x with
  | ok a => cases h
  | error e =>
    cases h
    exact hu e

end Raises

theorem Except.exists_of_bind_eq_ok {ε : Type} {x : Except ε α} {g : α → Except ε β} {b : β}
    (h : x >>= g = .ok b) : ∃ a, x = .ok a ∧ g a = .ok b := by
  cases x with
  | error e => cases h
  | ok a => exact ⟨a, rfl, h⟩

end Raises

/-! ## Checking the inputs -/

/-- Faults of input the command takes as it comes: a file that is not UTF-8,
a number with more digits than a literal may have, a path with a null
character, and an option left holding the empty list by a bare `--`, used as
a size or as the trace's path. -/
inductive Fault.Unreadable : Fault → Prop
  | undecodable (e : Utf8Error) : Fault.Unreadable (.undecodable e)
  | tooManyDigits (n : Nat) : Fault.Unreadable (.tooManyDigits n)
  | nullInPath : Fault.Unreadable .nullInPath
  | sizeNotNumber (operator : String) : Fault.Unreadable (.sizeNotNumber operator)
  | traceNotPath : Fault.Unreadable .traceNotPath

/-- The faults of checking the inputs: those reported before anything runs,
and unreadable input. -/
def Fault.OfInput (f : Fault) : Prop := reportedEarly f = true ∨ f.Unreadable

section Inputs

theorem Assembler.Numeral.value_raises (n : Assembler.Numeral) : Raises Fault.OfInput n.value := by
  unfold Assembler.Numeral.value
  split
  · exact Raises.error (.inr (.tooManyDigits _))
  · exact Raises.ok _

theorem assembleLine_raises (text : String) (line : Int) :
    Raises Fault.OfInput (assembleLine text line) := by
  unfold assembleLine
  split
  · exact Raises.error (.inl rfl)
  · dsimp only
    split
    · exact Raises.error (.inl rfl)
    · exact Raises.bind (Assembler.Numeral.value_raises _) fun _ =>
        Raises.bind (Assembler.Numeral.value_raises _) fun _ =>
          Raises.bind (Assembler.Numeral.value_raises _) fun _ => Raises.ok _

theorem assembleFrom_raises (lines : List String) :
    ∀ first, Raises Fault.OfInput (assembleFrom first lines) := by
  induction lines with
  | nil => exact fun _ => Raises.ok _
  | cons text rest ih =>
    intro first
    unfold assembleFrom
    split
    · exact ih _
    · exact Raises.bind (assembleLine_raises _ _) fun _ => Raises.bind (ih _) fun _ => Raises.ok _

theorem FileSource.load_raises {Q : Fault → Prop} {src : FileSource} {p : PathName}
    {unreadable : OpenFailure → Fault} (hnull : Q .nullInPath) (hu : ∀ w, Q (unreadable w)) :
    Raises Q (src.load p unreadable) := by
  unfold FileSource.load
  split
  · exact Raises.error hnull
  · exact Raises.mapError hu

theorem loadProgramFile_raises (d : FileSource) (path : String) :
    Raises Fault.OfInput (loadProgramFile d path) := by
  unfold loadProgramFile
  refine Raises.bind (FileSource.load_raises (.inr .nullInPath) fun _ => .inl rfl) fun _ => ?_
  exact Raises.bind (Raises.mapError fun e => .inr (.undecodable e)) fun _ =>
    assembleFrom_raises _ 1

theorem readTraceFile_raises (d : FileSource) (path : String) :
    Raises Fault.OfInput (readTraceFile d path) := by
  unfold readTraceFile
  refine Raises.bind (FileSource.load_raises (.inr .nullInPath) fun _ => .inl rfl) fun _ => ?_
  refine Raises.bind (Raises.mapError fun e => .inr (.undecodable e)) fun _ => ?_
  dsimp only
  split
  · exact Raises.ok _
  · exact Raises.error (.inl rfl)

theorem choosePolicy_raises (held : Held String) : Raises Fault.OfInput (choosePolicy held) := by
  cases held with
  | value name =>
    show Raises _ (PolicyKind.parse name)
    unfold PolicyKind.parse
    split
    · exact Raises.ok _
    · exact Raises.error (.inl rfl)
  | emptyList => exact Raises.error (.inl rfl)

theorem comparedSize_raises (operator : String) (held : Held Int) :
    Raises Fault.OfInput (comparedSize operator held) := by
  cases held with
  | value n => exact Raises.ok _
  | emptyList => exact Raises.error (.inr (.sizeNotNumber _))

theorem Geometry.requirePowerOfTwo_raises (field : String) (v : Int) :
    Raises Fault.OfInput (Geometry.requirePowerOfTwo field v) := by
  unfold Geometry.requirePowerOfTwo
  split
  · exact Raises.ok _
  · exact Raises.error (.inl rfl)

theorem Geometry.validate_raises (g : Geometry) : Raises Fault.OfInput g.validate := by
  unfold Geometry.validate
  refine Raises.bind (requirePowerOfTwo_raises _ _) fun _ => ?_
  refine Raises.bind (requirePowerOfTwo_raises _ _) fun _ => ?_
  refine Raises.bind (requirePowerOfTwo_raises _ _) fun _ => ?_
  refine Raises.bind (requirePowerOfTwo_raises _ _) fun _ => ?_
  dsimp only
  split
  · exact Raises.error (.inl rfl)
  · split
    · exact Raises.error (.inl rfl)
    · exact Raises.ok _

theorem chooseGeometry_raises (c : Choices) : Raises Fault.OfInput (chooseGeometry c) := by
  unfold chooseGeometry
  refine Raises.bind (comparedSize_raises _ _) fun _ => ?_
  refine Raises.bind (Geometry.requirePowerOfTwo_raises _ _) fun _ => ?_
  refine Raises.bind (comparedSize_raises _ _) fun _ => ?_
  refine Raises.bind (Geometry.requirePowerOfTwo_raises _ _) fun _ => ?_
  refine Raises.bind (comparedSize_raises _ _) fun _ => ?_
  refine Raises.bind (Geometry.requirePowerOfTwo_raises _ _) fun _ => ?_
  exact Raises.bind (comparedSize_raises _ _) fun _ => Geometry.validate_raises _

theorem chooseTrace_raises (files : FileSource) (held : Held String) :
    Raises Fault.OfInput (chooseTrace files held) := by
  cases held with
  | value path => exact readTraceFile_raises files path
  | emptyList => exact Raises.error (.inr .traceNotPath)

/-- Checking the inputs fails only with a fault reported before anything runs,
or on unreadable input. -/
theorem checkInputs_raises (c : Choices) (files : FileSource) :
    Raises Fault.OfInput (checkInputs c files) := by
  unfold checkInputs
  refine Raises.bind (choosePolicy_raises _) fun _ => ?_
  refine Raises.bind (chooseGeometry_raises _) fun _ => ?_
  refine Raises.bind (loadProgramFile_raises _ _) fun _ => ?_
  dsimp only
  split
  · exact Raises.bind (Raises.map (chooseTrace_raises _ _)) fun _ => Raises.ok _
  · exact Raises.ok _

/-- A valid geometry is the one it was made from, with enough registers for
every register field. -/
theorem Geometry.validate_eq {g g' : Geometry} (h : g.validate = .ok g') :
    g' = g ∧ 32 ≤ g.registers := by
  obtain ⟨hg, -, -, -, -, hR, -⟩ := eq_of_validate_ok h
  exact ⟨hg, hR⟩

/-- The geometry the options choose is valid as it stands. -/
theorem chooseGeometry_valid {c : Choices} {g : Geometry} (h : chooseGeometry c = .ok g) :
    g.validate = .ok g := by
  unfold chooseGeometry at h
  obtain ⟨_, -, h⟩ := Except.exists_of_bind_eq_ok h
  obtain ⟨_, -, h⟩ := Except.exists_of_bind_eq_ok h
  obtain ⟨_, -, h⟩ := Except.exists_of_bind_eq_ok h
  obtain ⟨_, -, h⟩ := Except.exists_of_bind_eq_ok h
  obtain ⟨_, -, h⟩ := Except.exists_of_bind_eq_ok h
  obtain ⟨_, -, h⟩ := Except.exists_of_bind_eq_ok h
  obtain ⟨_, -, h⟩ := Except.exists_of_bind_eq_ok h
  obtain ⟨rfl, -⟩ := Geometry.validate_eq h
  exact h

/-- Checked inputs hold the geometry the options choose. -/
theorem checkInputs_geometry {c : Choices} {files : FileSource} {i : Inputs}
    (h : checkInputs c files = .ok i) : chooseGeometry c = .ok i.geometry := by
  unfold checkInputs at h
  obtain ⟨_, -, h⟩ := Except.exists_of_bind_eq_ok h
  obtain ⟨g, hg, h⟩ := Except.exists_of_bind_eq_ok h
  obtain ⟨_, -, h⟩ := Except.exists_of_bind_eq_ok h
  dsimp only at h
  split at h
  · obtain ⟨_, -, h⟩ := Except.exists_of_bind_eq_ok h
    cases h
    exact hg
  · cases h
    exact hg

end Inputs

/-! ## Building a machine -/

/-- The faults of a geometry too large for the sequences a machine is made
of: more words of RAM, or more registers, than a signed 64-bit count, or more
pages than a signed 64-bit index reaches. -/
inductive Geometry.Overflows (g : Geometry) : Fault → Prop
  | ram : maxLength < g.ramWords → g.Overflows .lengthOverflow
  | registers : maxLength < g.registers → g.Overflows .lengthOverflow
  | pages : maxLength + 1 < g.virtualPages → g.Overflows .indexOverflow

section Building

theorem requireLength_ok {n : Int} {u : Unit} (h : requireLength n = .ok u) : n ≤ maxLength := by
  unfold requireLength fitsSize at h
  split at h
  · rename_i hfit
    simp only [Bool.and_eq_true, decide_eq_true_eq] at hfit
    exact hfit.2
  · cases h

/-- A positive count too large to count a sequence's items is past the largest
signed 64-bit number. -/
theorem requireLength_raises {n : Int} (hn : 0 < n) :
    Raises (fun f => f = .lengthOverflow ∧ maxLength < n) (requireLength n) := by
  unfold requireLength fitsSize
  split
  · exact Raises.ok _
  · rename_i hfit
    refine Raises.error ⟨rfl, ?_⟩
    have hlow : -maxLength - 1 ≤ n := by unfold maxLength; omega
    simp only [Bool.and_eq_true, decide_eq_true_eq, not_and, not_le] at hfit
    exact hfit hlow

variable {g : Geometry}

/-- Building a machine of a valid geometry fails only for want of the trace
the optimal policy needs, or because the geometry overflows. -/
theorem Machine.create_raises (hg : g.validate = .ok g) (kind : PolicyKind)
    (trace : Option (List Int)) (record : Bool) (log : Log) :
    Raises (fun f => f = .traceRequired ∧ kind = .optimal ∧ trace = none ∨ g.Overflows f)
      (Machine.create g kind trace record log) := by
  obtain ⟨hP, hF, -⟩ := Geometry.validate_pos hg
  have hR := (Geometry.validate_eq hg).2
  have hpage : g.pageSize ≤ g.ramWords := by
    have h := Int.mul_le_mul_of_nonneg_right (show (1 : Int) ≤ g.frames by omega) (Int.le_of_lt hP)
    rwa [Int.one_mul] at h
  unfold Machine.create Board.create
  refine Raises.bind (Raises.bind ?ram fun _ => Raises.bind ?swap fun _ =>
    Raises.bind ?policy fun _ => Raises.ok _) fun _ => ?cpu
  case ram =>
    refine Raises.bind ((requireLength_raises (Int.mul_pos hF hP)).mono ?_) fun _ => Raises.ok _
    rintro f ⟨rfl, hn⟩
    exact .inr (.ram hn)
  case swap =>
    unfold Swap.create
    dsimp only
    split
    · refine Raises.bind ((requireLength_raises hP).mono ?_) fun _ => Raises.ok _
      rintro f ⟨rfl, hn⟩
      exact .inr (.ram (Int.lt_of_lt_of_le hn hpage))
    · exact Raises.ok _
  case policy =>
    unfold Policy.create
    split
    · exact Raises.ok _
    · exact Raises.ok _
    · exact Raises.ok _
    · exact Raises.error (.inl ⟨rfl, rfl, rfl⟩)
  case cpu =>
    unfold Cpu.create
    refine Raises.bind (Raises.bind ((requireLength_raises (n := g.registers) (by omega)).mono ?_)
      fun _ => Raises.ok _) fun _ => Raises.ok _
    rintro f ⟨rfl, hn⟩
    exact .inr (.registers hn)

/-- Building a machine of a valid geometry fails with a reported fault, or one
of a geometry that overflows. -/
theorem Machine.create_reports (hg : g.validate = .ok g) (kind : PolicyKind)
    (trace : Option (List Int)) (record : Bool) (log : Log) :
    Raises (fun f => reportedLate f = true ∨ g.Overflows f) (Machine.create g kind trace record log) :=
  (Machine.create_raises hg kind trace record log).mono fun _ hf => by
    rcases hf with ⟨rfl, -⟩ | hf
    · exact .inl rfl
    · exact .inr hf

end Building

/-! ## Runs -/

/-- A register file holding every register an instruction can name, with no
more registers than a signed 64-bit index reaches. -/
def Cpu.Wide (cpu : Cpu) : Prop := 32 ≤ cpu.registers.size ∧ (cpu.registers.size : Int) ≤ maxLength

/-- An index of a register of the file. -/
def Cpu.Names (cpu : Cpu) (r : Int) : Prop := 0 ≤ r ∧ r < cpu.registers.size

/-- Masking with a non-negative mask gives a number from zero to the mask. -/
theorem bitAnd_bounds (v : Int) {m : Int} (hm : 0 ≤ m) : 0 ≤ bitAnd v m ∧ bitAnd v m ≤ m := by
  obtain ⟨n, rfl⟩ := Int.eq_ofNat_of_zero_le hm
  cases v with
  | ofNat k =>
    show 0 ≤ ((k &&& n : Nat) : Int) ∧ ((k &&& n : Nat) : Int) ≤ n
    exact ⟨Int.natCast_nonneg _, Int.ofNat_le.mpr Nat.and_le_right⟩
  | negSucc k =>
    show 0 ≤ ((n - (n &&& k) : Nat) : Int) ∧ ((n - (n &&& k) : Nat) : Int) ≤ n
    exact ⟨Int.natCast_nonneg _, Int.ofNat_le.mpr (Nat.sub_le _ _)⟩

theorem Cpu.create_wide {count : Int} {cpu : Cpu} (hc : 32 ≤ count) (h : Cpu.create count = .ok cpu) :
    cpu.Wide := by
  obtain ⟨hu, rfl⟩ := Cpu.eq_of_create_ok h
  have hfit := requireLength_ok hu
  simp only [Cpu.Wide, Array.size_replicate]
  omega

namespace Cpu.Wide

variable {cpu : Cpu}

/-- Every register index an instruction word names is a register of a wide
file: the five-bit fields, and the constant masked to the file. -/
theorem names (hw : cpu.Wide) (w : Int) :
    cpu.Names (Instruction.decode w).source ∧ cpu.Names (Instruction.decode w).dest ∧
      cpu.Names (bitAnd (Instruction.decode w).constant (cpu.registers.size - 1)) := by
  obtain ⟨h32, -⟩ := hw
  have hmask := bitAnd_bounds (Instruction.decode w).constant
    (show (0 : Int) ≤ cpu.registers.size - 1 by omega)
  refine ⟨⟨?_, ?_⟩, ⟨?_, ?_⟩, ⟨hmask.1, by omega⟩⟩ <;> simp only [Instruction.decode] <;> omega

theorem names_link (hw : cpu.Wide) : cpu.Names linkRegister := by
  have h32 := hw.1
  unfold Names linkRegister
  omega

theorem read_ne_error (hw : cpu.Wide) {r : Int} (hr : cpu.Names r) (e : Fault) :
    Seq.read cpu.registers r ≠ .error e := by
  obtain ⟨k, rfl⟩ := Int.eq_ofNat_of_zero_le hr.1
  have hk : k < cpu.registers.size := by have := hr.2; omega
  rw [Seq.read_of_getElem? (Array.getElem?_eq_getElem hk) (by have := hw.2; omega)]
  exact fun h => nomatch h

theorem write_ne_error (hw : cpu.Wide) {r : Int} (hr : cpu.Names r) (v : Int) (e : Fault) :
    Seq.write cpu.registers r v ≠ .error e := by
  obtain ⟨k, rfl⟩ := Int.eq_ofNat_of_zero_le hr.1
  have hk : k < cpu.registers.size := by have := hr.2; omega
  rw [Seq.write_of_lt hk (by have := hw.2; omega)]
  exact fun h => nomatch h

end Cpu.Wide

section Confined

variable {μ : Type} {bus : Bus μ} {I : μ → Prop} {F : Fault → μ → Prop}

/-- One instruction of a processor with a wide register file keeps it wide,
and fails only with a fault the bus allows or an illegal instruction. -/
theorem Cpu.step_reports (hbus : bus.Confines I F) {cpu : Cpu} (hw : cpu.Wide) {s : μ} (hs : I s) :
    Yields I (fun e s => F e s ∨ e.family = .illegalInstruction)
      (fun c : Cpu => c.registers.size = cpu.registers.size) ((cpu.step bus).run s) :=
  Cpu.step_yields (P := fun e => e.family = .illegalInstruction) (N := cpu.Names) hbus
    (fun _ _ => rfl) hw.names hw.names_link (fun _ e hr h => absurd h (hw.read_ne_error hr e))
    (fun _ v e hr h => absurd h (hw.write_ne_error hr v e)) hs

theorem Computer.step_reports (hbus : bus.Confines I F) {c : Computer μ}
    (hc : I c.board ∧ c.cpu.Wide) :
    Ends (fun c : Computer μ => I c.board ∧ c.cpu.Wide)
      (fun e c => F e c.board ∨ e.family = .illegalInstruction) ((Computer.step bus).run c) := by
  have h := Cpu.step_reports hbus hc.2 hc.1
  show Ends _ _ (Computer.step bus c)
  unfold Computer.step
  cases hr : (c.cpu.step bus).run c.board with
  | ok cpu b =>
    rw [hr] at h
    refine ⟨h.1, ?_⟩
    unfold Cpu.Wide
    rw [h.2]
    exact hc.2
  | error e b =>
    rw [hr] at h
    exact ⟨⟨h.1, hc.2⟩, h.2⟩

/-- A whole run from a memory system in `I` with a wide register file keeps
both, failing only with a fault the bus allows or an illegal instruction. -/
theorem Computer.run_reports (hbus : bus.Confines I F) (n : Nat) {c : Computer μ}
    (hc : I c.board ∧ c.cpu.Wide) :
    Ends (fun c : Computer μ => I c.board ∧ c.cpu.Wide)
      (fun e c => F e c.board ∨ e.family = .illegalInstruction) ((Computer.run bus n).run c) := by
  refine Computer.run_ends_of (fun c stopped b hc hservice => ⟨?_, hc.2⟩)
    (fun _ hc => Computer.step_reports hbus hc) n hc
  have hb := hbus.service c.cpu.pc c.board hc.1
  rw [hservice] at hb
  exact hb

end Confined

variable {g : Geometry}

/-- A run of a machine with a sane board and a wide register file keeps both;
it fails only with a fault some access allows or an illegal instruction. -/
theorem Machine.run_reports {m : Machine} (h : m.board.Sane g ∧ m.cpu.Wide) (limit : Option Int) :
    Ends (fun m : Machine => m.board.Sane g ∧ m.cpu.Wide)
      (fun e m => Board.Refused e m.board ∨ e.family = .illegalInstruction)
      ((Machine.run limit).run m) := by
  unfold Machine.run
  refine Ends.bind (Computer.run_reports (Machine.bus_confines g) (budgetOf limit) h)
    fun o m' h' => ?_
  refine Ends.bind (x := get) h' fun m'' _ h'' => ?_
  exact Ends.bind ((Machine.onBoard_ends_and h''.2
    (Board.note_ends (F := Board.Refused) h''.1 _ _ _ _)).mono fun e _ he => .inl he)
    fun _ _ h₃ => Ends.pure h₃

/-- On a sane board a fault some access ends with is reported, unless the
address space has more pages than a signed 64-bit index reaches. -/
theorem Board.Sane.refused_reported {b : Board} {f : Fault} (h : b.Sane g)
    (hV : 0 < g.virtualPages) (hf : Board.Refused f b) : reportedLate f = true ∨ g.Overflows f := by
  obtain ⟨a, ha⟩ := hf
  cases ha with
  | beyond _ => exact .inl rfl
  | overflow hin hbig =>
    refine .inr (.pages ?_)
    have hP : 0 < b.geometry.pageSize := h.1.sound.shape.pageSize_pos
    have hlt : a / b.geometry.pageSize < b.table.size := Int.ediv_lt_of_lt_mul hP hin.2
    rw [h.table_size hV] at hlt
    omega
  | swapFull _ _ _ => exact .inl rfl

/-- Loading and running a program on a new machine of a valid geometry fails
only with a reported fault, or one of a geometry whose pages overflow. -/
theorem loadAndRun_reports {kind : PolicyKind} {trace : Option (List Int)} {record : Bool}
    {log : Log} {m m' : Machine} {program : List Int} {stops : Bool} {f : Fault}
    (hg : g.validate = .ok g) (hm : Machine.create g kind trace record log = .ok m)
    (h : loadAndRun m program stops = (.error f, m')) : reportedLate f = true ∨ g.Overflows f := by
  have hV := (Geometry.validate_pos hg).2.2
  have hsane := Machine.create_sane hg hm
  obtain ⟨-, -, hcpu, -⟩ := Machine.create_ok hm
  have hwide : m.cpu.Wide := Cpu.create_wide (Geometry.validate_eq hg).2 hcpu
  -- the run, from whatever machine the load and the stop request leave
  have hrun : ∀ m₁ : Machine, (Machine.run none).run m₁ = .error f m' → m₁.board.Sane g →
      m₁.cpu.Wide → reportedLate f = true ∨ g.Overflows f := by
    intro m₁ hr hs hw
    have hends := Machine.run_reports ⟨hs, hw⟩ none
    rw [hr] at hends
    rcases hends.2 with hf | hf
    · exact hends.1.1.refused_reported hV hf
    · exact .inl (by simp [reportedLate, hf])
  rcases loadAndRun_error h with hl | ⟨n, m₁, hl, hgo⟩
  · have hends : Ends (fun m : Machine => m.board.Sane g) (fun e m => Board.Refused e m.board)
        ((Machine.loadProgram program).run m) :=
      Machine.onBoard_ends (Board.loadProgram_ends hsane program)
    rw [hl] at hends
    exact hends.1.refused_reported hV hends.2
  · obtain ⟨hm₁, hr⟩ := Machine.loadProgram_run hl
    have hspec := Board.loadProgram_spec hsane.1 program
    rw [hr] at hspec
    have hs₁ : m₁.board.Sane g := ⟨hspec.1.consistent, hspec.1.geometry.trans hsane.2⟩
    have hw₁ : m₁.cpu.Wide := by
      rw [hm₁]
      exact hwide
    -- the load leaves the controller as the machine was made, so the stop request is queued
    have hint := hspec.1.interrupts.trans (Machine.create_interrupts hm)
    rcases hgo with ⟨-, hrun₁⟩ | ⟨-, hstop | ⟨m₂, hstop, hrun₂⟩⟩
    · exact hrun m₁ hrun₁ hs₁ hw₁
    · rw [Machine.requestStop_initial hint] at hstop
      cases hstop
    · rw [Machine.requestStop_initial hint] at hstop
      cases hstop
      exact hrun _ hrun₂ (hs₁.interrupts _) hw₁

/-! ## The command -/

theorem failWith_escaped {output : String} {f f' : Fault} (h : failWith output f = .escaped f') :
    f' = f ∧ reportedLate f = false := by
  unfold failWith at h
  split at h
  · cases h
  · rename_i hr
    cases h
    exact ⟨rfl, Bool.eq_false_iff.mpr hr⟩

/-- A command ended by a fault of building or running a machine escapes only
with a fault of a geometry that overflows. -/
theorem failWith_overflows {output : String} {f f' : Fault} (h : failWith output f = .escaped f')
    (hf : reportedLate f = true ∨ g.Overflows f) : g.Overflows f' := by
  obtain ⟨rfl, hr⟩ := failWith_escaped h
  rcases hf with hf | hf
  · rw [hr] at hf
    cases hf
  · exact hf

/-- The report of a run ends the command by an unreported fault only when the
run failed with a fault of a geometry that overflows. -/
theorem report_overflows {output : String} {m : Machine} {result : Except Fault Outcome}
    {f : Fault} (h : report output m result = .escaped f)
    (hr : Raises (fun f => reportedLate f = true ∨ g.Overflows f) result) : g.Overflows f := by
  cases result with
  | ok o => cases o <;> cases h
  | error f' => exact failWith_overflows h (hr f' rfl)

/-- `loadAndRun_reports`, for whatever result the run gives. -/
theorem loadAndRun_raises {kind : PolicyKind} {trace : Option (List Int)} {record : Bool}
    {log : Log} {m m' : Machine} {program : List Int} {stops : Bool}
    {result : Except Fault Outcome} (hg : g.validate = .ok g)
    (hm : Machine.create g kind trace record log = .ok m)
    (h : loadAndRun m program stops = (result, m')) :
    Raises (fun f => reportedLate f = true ∨ g.Overflows f) result := by
  rintro f rfl
  exact loadAndRun_reports hg hm h

/-- The recording run of the optimal policy ends the command by an unreported
fault only when the geometry overflows. -/
theorem traceFor_escaped {c : Choices} {files : FileSource} {i : Inputs} {output : String}
    {stops : Bool} {f : Fault} (hi : checkInputs c files = .ok i)
    (h : traceFor i output stops = .error (.escaped f)) : i.geometry.Overflows f := by
  have hvalid := chooseGeometry_valid (checkInputs_geometry hi)
  unfold traceFor at h
  split at h
  · split at h
    · rename_i f' hcreate
      exact failWith_overflows (Except.error.inj h)
        (Machine.create_reports hvalid _ _ _ _ f' hcreate)
    · rename_i recorder hcreate
      split at h
      · cases h
      · rename_i result r _ hrun
        exact report_overflows (Except.error.inj h) (loadAndRun_raises hvalid hcreate hrun)
  · cases h

/-- The command returns a status, reporting every fault it meets while
checking its inputs, building its machines or running the program, except on
input it cannot read (a file that is not UTF-8, a number with too many digits,
a path with a null character, an option emptied by `--`) or a geometry too
large for a machine's sequences. -/
theorem escapes_only_unreadable_or_oversized {args : List String} {files : FileSource}
    {stops : Stops} {f : Fault} (h : execute args files stops = .escaped f) :
    f.Unreadable ∨
      ∃ c g, parseArguments args = .ok c ∧ chooseGeometry c = .ok g ∧ g.Overflows f := by
  unfold execute at h
  split at h
  · cases h
  · rename_i c hparse
    split at h
    · rename_i f' hinputs
      split at h
      · cases h
      · rename_i hearly
        cases h
        rcases checkInputs_raises c files _ hinputs with hr | hu
        · exact absurd hr hearly
        · exact .inl hu
    · rename_i i hinputs
      refine .inr ⟨c, i.geometry, hparse, checkInputs_geometry hinputs, ?_⟩
      have hvalid := chooseGeometry_valid (checkInputs_geometry hinputs)
      dsimp only at h
      split at h
      · rename_i e htrace
        subst h
        exact traceFor_escaped hinputs htrace
      · split at h
        · rename_i f' hcreate
          exact failWith_overflows h (Machine.create_reports hvalid _ _ _ _ f' hcreate)
        · rename_i m hcreate
          exact report_overflows h (loadAndRun_raises hvalid hcreate rfl)

/-! The split of a path into its components, one character at a time. -/

theorem splitOnAux_skip {s sep : String} {b i : String.Pos.Raw} {r : List String}
    (h₁ : String.Pos.Raw.atEnd s i = false)
    (h₂ : (String.Pos.Raw.get s i == String.Pos.Raw.get sep 0) = false) :
    s.splitOnAux sep b i 0 r = s.splitOnAux sep b (String.Pos.Raw.next s i) 0 r := by
  rw [String.splitOnAux.eq_def]
  simp only [h₁, h₂, Bool.false_eq_true, if_false]
  rfl

theorem splitOnAux_end {s sep : String} {b i j : String.Pos.Raw} {r : List String}
    (h : String.Pos.Raw.atEnd s i = true) :
    s.splitOnAux sep b i j r = (String.Pos.Raw.extract s b i :: r).reverse := by
  rw [String.splitOnAux.eq_def]
  simp only [h, if_true]

/-- A program file whose first byte starts no UTF-8 sequence ends the command
with a decoding fault it does not report. -/
theorem undecodable_program_escapes :
    execute ["prog.s"] (Directory.source ⟨[("prog.s", [0xFF])]⟩) {} =
      .escaped (.undecodable ⟨0, 1, 0xFF, .invalidStart⟩) := by
  have hparse : parseArguments ["prog.s"] = .ok { program := some "prog.s" } := by
    have hb : (parseArguments ["prog.s"]).toOption = some { program := some "prog.s" } := by
      decide +kernel
    cases hp : parseArguments ["prog.s"] with
    | ok c =>
      rw [hp] at hb
      cases hb
      rfl
    | error s =>
      rw [hp] at hb
      cases hb
  have hpath : PathName.parse "prog.s" = ⟨.here, ["prog.s"]⟩ := by
    have hsplit : "prog.s".splitOn "/" = ["prog.s"] := by
      rw [String.splitOn, if_neg (by decide)]
      repeat rw [splitOnAux_skip (by decide) (by decide)]
      rw [splitOnAux_end (by decide)]
      decide
    have hanchor : PathName.anchorOf "prog.s" = .here := rfl
    simp only [PathName.parse, hanchor, hsplit]
    decide
  have hnull : PathName.hasNull ⟨.here, ["prog.s"]⟩ = false := by simp [PathName.hasNull]
  have hload : loadProgramFile (Directory.source ⟨[("prog.s", [0xFF])]⟩) "prog.s" =
      .error (.undecodable ⟨0, 1, 0xFF, .invalidStart⟩) := by
    simp only [loadProgramFile, hpath, FileSource.load, hnull, Bool.false_eq_true, if_false]
    rfl
  have hinputs : checkInputs { program := some "prog.s" } (Directory.source ⟨[("prog.s", [0xFF])]⟩) =
      .error (.undecodable ⟨0, 1, 0xFF, .invalidStart⟩) := by
    have hk : choosePolicy ({ program := some "prog.s" } : Choices).policy = .ok .fifo := rfl
    have hg : chooseGeometry { program := some "prog.s" } = .ok {} := rfl
    simp only [checkInputs, hk, hg, Option.getD_some, hload, bind, Except.bind]
  simp only [execute, hparse, hinputs]
  rfl

end DemandPaging
