import Mathlib.Data.List.TakeWhile
import DemandPaging.Assembler

/-!
# Assembling programs line by line

A program is assembled one line at a time: a line is skipped when it starts
with `;` or holds blanks only, every other line is assembled on its own,
numbered by its place among all lines, and assembly stops at the first line
that fails.  `assembleFrom_eq_mapM` says exactly that, as a `mapM` over the
numbered lines that are kept.

From it, assembly distributes over the concatenation of programs
(`assemble_append`): the words of `xs ++ ys` are those of `xs` followed by
those of `ys`, a fault of `xs` is the fault of the whole, and a fault of `ys`
is the fault of the whole with its line moved on by the length of `xs`
(`Fault.renumber`).  The one fact about single lines this needs is that a
line's number shows only in the faults that name a line
(`assembleLine_renumber`).
-/

namespace DemandPaging

open Text

/-- A fault of the program line numbered `line`, as it reads when the line is
numbered `line + k`; faults that name no line stay as they are. -/
def Fault.renumber (k : Int) : Fault → Fault
  | .syntaxError line text => .syntaxError (line + k) text
  | .unknownMnemonic line mnemonic text => .unknownMnemonic (line + k) mnemonic text
  | e => e

@[simp] theorem Fault.renumber_tooManyDigits (k : Int) (n : Nat) :
    (Fault.tooManyDigits n).renumber k = .tooManyDigits n := rfl

/-- Reading a numeral never fails for a reason tied to a line. -/
theorem Assembler.Numeral.mapError_value (n : Assembler.Numeral) (k : Int) :
    n.value.mapError (Fault.renumber k) = n.value := by
  unfold Assembler.Numeral.value
  split <;> rfl

/-- A line's number shows only in the faults that name a line. -/
theorem assembleLine_renumber (text : String) (line k : Int) :
    assembleLine text (line + k) = (assembleLine text line).mapError (Fault.renumber k) := by
  unfold assembleLine
  rcases Assembler.fields text.toList with _ | ⟨mnemonic, dest, source, constant⟩
  · rfl
  · dsimp only
    cases Opcode.ofMnemonic? (String.ofList mnemonic) with
    | none => rfl
    | some op =>
      -- the operands are read in turn, and only their digit counts can fail
      dsimp only
      simp only [bind, Except.bind]
      cases hd : dest.value with
      | error e => simpa [hd] using (dest.mapError_value k).symm
      | ok d =>
        cases hs : source.value with
        | error e => simpa [hs] using (source.mapError_value k).symm
        | ok s =>
          cases hc : constant.value with
          | error e => simpa [hc] using (constant.mapError_value k).symm
          | ok c => rfl

/-- Numbering the lines from further on moves the line of a fault on by as
much, and changes nothing else. -/
theorem assembleFrom_renumber (k : Int) (lines : List String) :
    ∀ first : Int, assembleFrom (first + k) lines =
      (assembleFrom first lines).mapError (Fault.renumber k) := by
  induction lines with
  | nil => intro first; rfl
  | cons text rest ih =>
    intro first
    unfold assembleFrom
    split
    · rw [show first + k + 1 = first + 1 + k by omega]
      exact ih (first + 1)
    · rw [assembleLine_renumber, show first + k + 1 = first + 1 + k by omega, ih (first + 1)]
      cases assembleLine text first with
      | error e => rfl
      | ok w =>
        cases assembleFrom (first + 1) rest with
        | error e => rfl
        | ok ws => rfl

/-- The lines of `xs ++ ys` are those of `xs`, then those of `ys` numbered
after them. -/
theorem assembleFrom_append (xs ys : List String) :
    ∀ first : Int, assembleFrom first (xs ++ ys) = (do
      let a ← assembleFrom first xs
      let b ← assembleFrom (first + xs.length) ys
      pure (a ++ b)) := by
  induction xs with
  | nil =>
    intro first
    simp only [List.nil_append, assembleFrom, List.length_nil]
    rw [show first + ((0 : Nat) : Int) = first by omega]
    cases assembleFrom first ys <;> rfl
  | cons text rest ih =>
    intro first
    simp only [List.cons_append, assembleFrom, List.length_cons]
    rw [ih (first + 1), show first + 1 + (rest.length : Int) = first + ((rest.length + 1 : Nat) : Int) by
      push_cast; omega]
    split
    · rfl
    · cases assembleLine text first with
      | error e => rfl
      | ok w =>
        cases assembleFrom (first + 1) rest with
        | error e => rfl
        | ok ws =>
          cases assembleFrom (first + ((rest.length + 1 : Nat) : Int)) ys <;> rfl

/-- Blank-only text: trimming leaves nothing exactly when every character is
a blank. -/
theorem trimBlanks_isEmpty (s : String) :
    (trimBlanks s).isEmpty = s.toList.all isBlank := by
  have hrest : ∀ l : List Char,
      ((l.dropWhile isBlank).reverse.dropWhile isBlank = []) ↔ l.dropWhile isBlank = [] := by
    intro l
    constructor
    · intro h
      -- what is left after the leading blanks starts with a character that is not one
      by_contra hne
      have hhead := List.head_dropWhile_not isBlank hne
      have hmem : (l.dropWhile isBlank).head hne ∈ (l.dropWhile isBlank).reverse := by
        rw [List.mem_reverse]
        exact List.head_mem hne
      rw [List.dropWhile_eq_nil_iff] at h
      rw [h _ hmem] at hhead
      cases hhead
    · intro h
      rw [h]
      rfl
  cases hall : s.toList.all isBlank with
  | true =>
    have hnil : s.toList.dropWhile isBlank = [] :=
      List.dropWhile_eq_nil_iff.mpr (List.all_eq_true.mp hall)
    simp [trimBlanks, hnil]
  | false =>
    have hne : s.toList.dropWhile isBlank ≠ [] := by
      rw [Ne, List.dropWhile_eq_nil_iff, ← List.all_eq_true, hall]
      decide
    have hne' : ((s.toList.dropWhile isBlank).reverse.dropWhile isBlank).reverse ≠ [] := by
      rw [Ne, List.reverse_eq_nil_iff, hrest]
      exact hne
    cases h : (trimBlanks s).isEmpty with
    | false => rfl
    | true =>
      rw [String.isEmpty_iff, trimBlanks, String.ofList_eq_empty_iff] at h
      exact absurd h hne'

/-- A line is skipped when it starts with `;` or holds blanks only. -/
theorem isSkipped_eq (text : String) :
    isSkipped text = (text.startsWith ";" || text.toList.all isBlank) := by
  rw [isSkipped, trimBlanks_isEmpty]

/-- Assembly, line by line: the lines that are neither comments nor blank,
each numbered by its place among all lines from `first` on, are assembled in
order, and the first that fails is the fault of the whole. -/
theorem assembleFrom_eq_mapM (lines : List String) :
    ∀ first : Nat, assembleFrom first lines =
      ((lines.zipIdx first).filter fun p => !isSkipped p.1).mapM fun p => assembleLine p.1 p.2 := by
  induction lines with
  | nil => intro first; rfl
  | cons text rest ih =>
    intro first
    rw [List.zipIdx_cons, List.filter_cons]
    unfold assembleFrom
    rw [show (first : Int) + 1 = ((first + 1 : Nat) : Int) by push_cast; rfl, ih (first + 1)]
    by_cases hskip : isSkipped text
    · simp [hskip]
    · simp [hskip, List.mapM_cons]

/-- Assembly distributes over the concatenation of programs.  The words of
`xs ++ ys` are those of `xs` followed by those of `ys`; a fault of `xs` is
the fault of `xs ++ ys`; a fault of `ys` is the fault of `xs ++ ys` with the
line it names moved on by the length of `xs`.  Equivalently, assembly is
`mapM` of `assembleLine` over the lines that neither start with `;` nor hold
blanks only, each numbered by its place among all lines from 1, stopping at
the first that fails. -/
theorem assemble_append :
    (∀ xs ys : List String, assemble (xs ++ ys) = (do
      let a ← assemble xs
      let b ← (assemble ys).mapError (Fault.renumber xs.length)
      pure (a ++ b))) ∧
    ∀ lines : List String, assemble lines =
      ((lines.zipIdx 1).filter fun p => !(p.1.startsWith ";" || p.1.toList.all isBlank)).mapM
        fun p => assembleLine p.1 p.2 := by
  refine ⟨fun xs ys => ?_, fun lines => ?_⟩
  · rw [assemble, assembleFrom_append, assembleFrom_renumber xs.length ys 1]
    rfl
  · have hfilter : (fun p : String × Nat => !(p.1.startsWith ";" || p.1.toList.all isBlank)) =
        fun p => !isSkipped p.1 := funext fun p => by rw [isSkipped_eq]
    rw [hfilter, assemble]
    exact assembleFrom_eq_mapM lines 1

example : assemble ["; r1 = 10", "addi 1,0,10", "", "halt 0,0,0"] = .ok [69206026, 1073741824] := by
  cbv

example : assemble ["halt 0,0,0", "  ", "bogus"] = .error (.syntaxError 3 "bogus") := by
  cbv

end DemandPaging
