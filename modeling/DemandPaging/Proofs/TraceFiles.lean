import Mathlib
import DemandPaging.Trace
import DemandPaging.Proofs.Disassembly
import DemandPaging.Proofs.Reporting

/-!
# Reading trace files back

A trace file is UTF-8 text in which page numbers are written in decimal and
set apart by runs of separators: blanks, commas and braces.  The main
statement, `trace_file_reads_back`, says that a file laid out so
(`TraceLayout`, with a non-empty run between two numbers and perhaps one
before the first and after the last) reads back as its numbers, as long as
none has more than `Text.digitLimit` digits, and that a file with a whole
run of non-separators that is no integer literal (`WholeWord`) is refused
with a configuration fault naming the file.  A number of more digits is such
a run: its decimal text is no literal (`readInteger?_toString`), so a
trace of it is refused (`long_page_number_refused`).

Tokens are the runs of non-separators of the text (`wordRuns`).  Three facts
about them carry the proofs: a separator splits the runs of a text in two
(`wordRuns_append_separator`), a run of separators holds no word, and a word
with separators or the ends of the text on both sides is one run.  Unifying
line ends turns separators into separators only, so it keeps the tokens
(`wordRuns_unifyLineEnds`).
-/

namespace DemandPaging

open Text

/-! ## Runs of a text -/

/-- The runs of non-separators of a text, the tokens of `traceTokens`. -/
def wordRuns (cs : List Char) : List (List Char) :=
  (cs.splitBy (fun a b => isTraceSeparator a == isTraceSeparator b)).filter
    (fun run => !run.any isTraceSeparator)

@[simp] theorem wordRuns_nil : wordRuns [] = [] := rfl

theorem traceTokens_eq (text : String) : traceTokens text = (wordRuns text.toList).map String.ofList :=
  rfl

/-- Where a separator meets a non-separator, the runs of a text split. -/
theorem wordRuns_append {l m : List Char}
    (h : ∀ x ∈ l.getLast?, ∀ y ∈ m.head?, isTraceSeparator x ≠ isTraceSeparator y) :
    wordRuns (l ++ m) = wordRuns l ++ wordRuns m := by
  unfold wordRuns
  rw [List.splitBy_append, List.filter_append]
  intro x hx y hy
  simpa using h x hx y hy

/-- A text of separators holds no word. -/
theorem wordRuns_of_separators {s : List Char} (hs : ∀ c ∈ s, isTraceSeparator c = true) :
    wordRuns s = [] := by
  unfold wordRuns
  rw [List.filter_eq_nil_iff]
  intro run hrun
  -- every run is a non-empty piece of `s`
  obtain ⟨c, hc⟩ := List.exists_mem_of_ne_nil _ (List.ne_nil_of_mem_splitBy hrun)
  have hcs : c ∈ s := by
    rw [← List.flatten_splitBy (fun a b => isTraceSeparator a == isTraceSeparator b) s]
    exact List.mem_flatten_of_mem hrun hc
  simpa using ⟨c, hc, hs c hcs⟩

/-- A non-empty text without separators is one word. -/
theorem wordRuns_of_word {w : List Char} (hne : w ≠ []) (hw : ∀ c ∈ w, isTraceSeparator c = false) :
    wordRuns w = [w] := by
  unfold wordRuns
  have hchain : w.IsChain fun a b => (isTraceSeparator a == isTraceSeparator b) = true :=
    List.Pairwise.isChain (List.pairwise_of_forall_mem_list fun a ha b hb => by simp [hw a ha, hw b hb])
  rw [List.splitBy_of_isChain hne hchain]
  simpa using hw

theorem wordRuns_separators_append {s m : List Char} (hs : ∀ c ∈ s, isTraceSeparator c = true)
    (hm : ∀ y ∈ m.head?, isTraceSeparator y = false) : wordRuns (s ++ m) = wordRuns m := by
  rw [wordRuns_append, wordRuns_of_separators hs, List.nil_append]
  intro x hx y hy
  rw [hs x (List.mem_of_getLast? hx), hm y hy]
  decide

/-- A separator in front of a text adds no word. -/
theorem wordRuns_separator_cons {c : Char} (hc : isTraceSeparator c = true) (m : List Char) :
    wordRuns (c :: m) = wordRuns m := by
  -- the separators that open `m` join `c` in one run
  have hsplit := List.takeWhile_append_dropWhile (p := isTraceSeparator) (l := m)
  have hseps : ∀ x ∈ m.takeWhile isTraceSeparator, isTraceSeparator x = true :=
    fun x hx => List.mem_takeWhile_imp hx
  have hhead : ∀ y ∈ (m.dropWhile isTraceSeparator).head?, isTraceSeparator y = false := by
    intro y hy
    have := List.head?_dropWhile_not isTraceSeparator m
    rw [hy] at this
    exact this
  have hc' : ∀ x ∈ c :: m.takeWhile isTraceSeparator, isTraceSeparator x = true := by
    intro x hx
    rcases List.mem_cons.mp hx with rfl | hx
    · exact hc
    · exact hseps x hx
  calc wordRuns (c :: m)
      = wordRuns ((c :: m.takeWhile isTraceSeparator) ++ m.dropWhile isTraceSeparator) := by
        rw [List.cons_append, hsplit]
    _ = wordRuns (m.dropWhile isTraceSeparator) := wordRuns_separators_append hc' hhead
    _ = wordRuns (m.takeWhile isTraceSeparator ++ m.dropWhile isTraceSeparator) :=
        (wordRuns_separators_append hseps hhead).symm
    _ = wordRuns m := by rw [hsplit]

/-- A separator ends the words before it: the words of the two sides are the
words of the whole. -/
theorem wordRuns_append_separator {c : Char} (hc : isTraceSeparator c = true) (p m : List Char) :
    wordRuns (p ++ c :: m) = wordRuns p ++ wordRuns m := by
  induction p using List.reverseRecOn generalizing c m with
  | nil => rw [List.nil_append, wordRuns_separator_cons hc, wordRuns_nil, List.nil_append]
  | append_singleton q x ih =>
    by_cases hx : isTraceSeparator x = true
    · -- `x` ends the runs of `q`, and `c` stands in the same run as `x`
      have hq : wordRuns (q ++ [x]) = wordRuns q := by simpa using ih hx []
      rw [List.append_assoc, List.singleton_append, ih hx, wordRuns_separator_cons hc, hq]
    · -- a run ends at `x`, and `c` opens the next one
      have hsplit := wordRuns_append (l := q ++ [x]) (m := c :: m) (by
        intro a ha b hb
        simp only [List.getLast?_concat, Option.mem_def, Option.some.injEq, List.head?_cons] at ha hb
        subst ha hb
        simp [hx, hc])
      rw [hsplit, wordRuns_separator_cons hc]

theorem wordRuns_separators_prefix {s : List Char} (hs : ∀ c ∈ s, isTraceSeparator c = true)
    (m : List Char) : wordRuns (s ++ m) = wordRuns m := by
  induction s with
  | nil => rfl
  | cons c s ih =>
    rw [List.cons_append, wordRuns_separator_cons (hs c List.mem_cons_self)]
    exact ih fun x hx => hs x (List.mem_cons_of_mem c hx)

theorem isTraceSeparator_newline : isTraceSeparator '\n' = true := by decide

/-- Unifying line ends keeps the words: it only turns separators into
separators. -/
theorem wordRuns_unifyLineEnds (cs : List Char) : wordRuns (unifyLineEnds cs) = wordRuns cs := by
  -- what stands before the part still to unify is kept as it is
  suffices h : ∀ p, wordRuns (p ++ unifyLineEnds cs) = wordRuns (p ++ cs) by simpa using h []
  fun_induction unifyLineEnds cs with
  | case1 => intro p; rfl
  | case2 rest ih =>
    intro p
    have hrest : wordRuns (unifyLineEnds rest) = wordRuns rest := by simpa using ih []
    rw [wordRuns_append_separator isTraceSeparator_newline, wordRuns_append_separator (by decide),
      wordRuns_separator_cons isTraceSeparator_newline, hrest]
  | case3 rest _ ih =>
    intro p
    have hrest : wordRuns (unifyLineEnds rest) = wordRuns rest := by simpa using ih []
    rw [wordRuns_append_separator isTraceSeparator_newline, wordRuns_append_separator (by decide),
      hrest]
  | case4 c rest _ _ ih =>
    intro p
    simpa using ih (p ++ [c])

/-! ## Numbers in decimal -/

/-- A decimal digit is a plain ASCII character: no separator, no blank around a
literal, no underscore. -/
theorem digitChar_plain {d : Nat} (hd : d < 10) :
    isTraceSeparator d.digitChar = false ∧ isLiteralBlank d.digitChar = false ∧ d.digitChar ≠ '_' ∧
      d.digitChar.toNat < 128 := by
  interval_cases d <;> decide

/-- A number in decimal is a non-empty run of non-separators. -/
theorem toString_word (x : Int) :
    (toString x).toList ≠ [] ∧ ∀ c ∈ (toString x).toList, isTraceSeparator c = false ∧ c.toNat < 128 := by
  obtain ⟨-, hlt, -⟩ := decimalDigits_spec x.natAbs
  rw [← decimal_false, decimal_toList]
  refine ⟨by simp [decimalDigits_ne_nil], fun c hc => ?_⟩
  rcases List.mem_append.mp hc with hc | hc
  · -- the sign
    have hminus : c = '-' := by
      unfold signOf at hc
      split at hc <;> simp_all
    rw [hminus]
    decide
  · obtain ⟨d, hd, rfl⟩ := List.mem_map.mp hc
    have h := digitChar_plain (hlt d hd)
    exact ⟨h.1, h.2.2.2⟩

/-- Written digits continue a digit run to its end. -/
theorem continueRun_digits {ds : List Nat} (hds : ∀ d ∈ ds, d < 10) :
    continueRun (ds.map Nat.digitChar) = some (ds, []) := by
  induction ds with
  | nil => rfl
  | cons d ds ih =>
    have hd := hds d List.mem_cons_self
    have hu := (digitChar_plain hd).2.2.1
    have hrest := ih fun d' h => hds d' (List.mem_cons_of_mem d h)
    rw [List.map_cons, continueRun.eq_def]
    split
    · rename_i heq
      exact absurd heq (List.cons_ne_nil _ _)
    · -- no underscore starts a written digit
      rename_i heq
      exact absurd (List.cons.inj heq).1 hu
    · rename_i heq
      exact absurd (List.cons.inj heq).1 hu
    · rename_i heq
      obtain ⟨rfl, rfl⟩ := List.cons.inj heq
      rw [(digitChar_reads hd).1, hrest]
      rfl

/-- Written digits, at least one, are read as one digit run. -/
theorem digitRun_digits {ds : List Nat} (hne : ds ≠ []) (hds : ∀ d ∈ ds, d < 10) :
    digitRun (ds.map Nat.digitChar) = some (ds, []) := by
  obtain ⟨d, ds', rfl⟩ := List.exists_cons_of_ne_nil hne
  have hd := hds d List.mem_cons_self
  simp only [List.map_cons, digitRun, (digitChar_reads hd).1,
    continueRun_digits fun d' h => hds d' (List.mem_cons_of_mem d h), Option.map_some]

/-- A number in decimal is the literal of itself, unless it has more than
`digitLimit` digits. -/
theorem parseInteger_toString (x : Int) :
    parseInteger (toString x) =
      if digitLimit < (decimalDigits x.natAbs).length then
        .error (.tooManyDigits (decimalDigits x.natAbs).length)
      else .ok x := by
  obtain ⟨-, hlt, hval⟩ := decimalDigits_spec x.natAbs
  have hne := decimalDigits_ne_nil x.natAbs
  have hrun := digitRun_digits hne hlt
  obtain ⟨d, ds, hds⟩ := List.exists_cons_of_ne_nil hne
  have hd := digitChar_plain (hlt d (by simp [hds]))
  have hsign := (digitChar_reads (hlt d (by simp [hds]))).2.2
  unfold parseInteger
  rw [← decimal_false, decimal_toList]
  have hempty : (decimalDigits x.natAbs).isEmpty = false := List.isEmpty_eq_false_iff.mpr hne
  by_cases hx : x < 0
  · have hdrop : (signOf false x ++ (decimalDigits x.natAbs).map Nat.digitChar).dropWhile isLiteralBlank =
        '-' :: (decimalDigits x.natAbs).map Nat.digitChar := by
      simp only [signOf, hx, if_true, List.cons_append, List.nil_append]
      exact List.dropWhile_cons_of_neg (by decide)
    have hvalue : signedValue true (decimalDigits x.natAbs) = x := by
      simp only [signedValue, hval, if_true]
      omega
    simp only [hdrop, hrun, hempty, List.all_nil, Bool.not_true, Bool.or_false, Bool.false_eq_true,
      if_false, hvalue]
  · have hdrop : (signOf false x ++ (decimalDigits x.natAbs).map Nat.digitChar).dropWhile isLiteralBlank =
        (decimalDigits x.natAbs).map Nat.digitChar := by
      simp only [signOf, hx, if_false, Bool.false_eq_true, List.nil_append]
      rw [hds, List.map_cons]
      exact List.dropWhile_cons_of_neg (by simp [hd.2.1])
    have hvalue : signedValue false (decimalDigits x.natAbs) = x := by
      simp only [signedValue, hval, Bool.false_eq_true, if_false]
      omega
    simp only [hdrop]
    -- a number that is not negative starts with a digit, which is no sign
    rw [hds, List.map_cons]
    simp only [List.cons.injEq, hsign.1, hsign.2, false_and, imp_self, implies_true]
    rw [← List.map_cons, ← hds]
    simp only [hrun, hempty, List.all_nil, Bool.not_true, Bool.or_false, Bool.false_eq_true,
      if_false, hvalue]

/-- A number reads back from its decimal text, unless it has more than
`digitLimit` digits. -/
theorem readInteger?_toString (x : Int) :
    readInteger? (toString x) = if x.natAbs < 10 ^ digitLimit then some x else none := by
  have hlen := length_decimalDigits_le_iff x.natAbs digitLimit (by decide)
  rw [readInteger?, parseInteger_toString]
  by_cases h : x.natAbs < 10 ^ digitLimit
  · rw [if_neg (Nat.not_lt.mpr (hlen.mpr h)), if_pos h]
    rfl
  · rw [if_pos (Nat.lt_of_not_le (mt hlen.mp h)), if_neg h]
    rfl

/-! ## Written traces -/

/-- A trace as a writer lays it out: a run of separators, then each number in
decimal followed by its own run of separators. -/
structure TraceLayout where
  lead : List Char
  entries : List (Int × List Char)

namespace TraceLayout

/-- The characters of entries: each number, then the run after it. -/
def body : List (Int × List Char) → List Char
  | [] => []
  | (x, run) :: rest => (toString x).toList ++ run ++ body rest

/-- The text of a layout. -/
def text (t : TraceLayout) : String := String.ofList (t.lead ++ body t.entries)

/-- The numbers of a layout, in order. -/
def numbers (t : TraceLayout) : List Int := t.entries.map Prod.fst

/-- Every run of a layout is made of separators, and the run between two
numbers is not empty. -/
structure Separated (t : TraceLayout) : Prop where
  lead : ∀ c ∈ t.lead, isTraceSeparator c = true
  runs : ∀ e ∈ t.entries, ∀ c ∈ e.2, isTraceSeparator c = true
  apart : t.entries.IsChain fun e _ => e.2 ≠ []

/-- The words of the entries are the numbers in decimal. -/
theorem wordRuns_body {entries : List (Int × List Char)}
    (hruns : ∀ e ∈ entries, ∀ c ∈ e.2, isTraceSeparator c = true)
    (hapart : entries.IsChain fun e _ => e.2 ≠ []) :
    wordRuns (body entries) = entries.map fun e => (toString e.1).toList := by
  induction entries with
  | nil => rfl
  | cons e rest ih =>
    obtain ⟨x, run⟩ := e
    have hne := (toString_word x).1
    have hw : ∀ c ∈ (toString x).toList, isTraceSeparator c = false := fun c hc => ((toString_word x).2 c hc).1
    have hrun := hruns (x, run) List.mem_cons_self
    have hrest := ih (fun e he => hruns e (List.mem_cons_of_mem _ he)) hapart.tail
    cases run with
    | nil =>
      -- a number with no run after it is the last
      cases rest with
      | nil =>
        simp only [body, List.append_nil]
        rw [wordRuns_of_word hne hw]
        rfl
      | cons e' rest' => exact absurd (List.isChain_cons_cons.mp hapart).1 (by simp)
    | cons c run' =>
      have hc := hrun c List.mem_cons_self
      rw [body, List.append_assoc, List.cons_append, wordRuns_append_separator hc,
        wordRuns_of_word hne hw, wordRuns_separators_prefix (fun c' h => hrun c' (List.mem_cons_of_mem c h)),
        hrest, List.map_cons]
      rfl

/-- A layout of one number alone is its decimal text. -/
theorem text_single (x : Int) : (⟨[], [(x, [])]⟩ : TraceLayout).text = String.ofList (toString x).toList := by
  simp only [text, body, List.nil_append, List.append_nil]

/-- The tokens of a separated layout are its numbers in decimal. -/
theorem traceTokens_text {t : TraceLayout} (ht : t.Separated) :
    traceTokens t.text = t.numbers.map toString := by
  rw [traceTokens_eq, text, String.toList_ofList, wordRuns_separators_prefix ht.lead,
    wordRuns_body ht.runs ht.apart, numbers, List.map_map, List.map_map]
  congr 1
  funext e
  simp

end TraceLayout

/-! ## Reading numbers -/

/-- Numbers of at most `digitLimit` digits read back from their decimal texts. -/
theorem mapM_readInteger?_toString {xs : List Int} (h : ∀ x ∈ xs, x.natAbs < 10 ^ digitLimit) :
    (xs.map toString).mapM readInteger? = some xs := by
  induction xs with
  | nil => rfl
  | cons x xs ih =>
    rw [List.map_cons, List.mapM_cons, readInteger?_toString, if_pos (h x List.mem_cons_self),
      ih fun x' hx' => h x' (List.mem_cons_of_mem x hx')]
    rfl

/-- One token that is no number makes the whole list of tokens no numbers. -/
theorem mapM_eq_none_of_mem {f : String → Option Int} {ts : List String} {t : String} (ht : t ∈ ts)
    (hf : f t = none) : ts.mapM f = none := by
  induction ts with
  | nil => cases ht
  | cons a ts ih =>
    rw [List.mapM_cons]
    rcases List.mem_cons.mp ht with rfl | ht
    · rw [hf]
      rfl
    · cases f a with
      | none => rfl
      | some b =>
        show (ts.mapM f >>= fun bs => pure (b :: bs)) = none
        rw [ih ht]
        rfl

/-! ## Whole words -/

/-- `word` stands in `pre ++ word ++ post` as a whole run of non-separators:
it is not empty, holds no separator, and on each side stands a separator or
the end of the text. -/
structure WholeWord (pre word post : List Char) : Prop where
  ne_nil : word ≠ []
  inner : ∀ c ∈ word, isTraceSeparator c = false
  before : ∀ c ∈ pre.getLast?, isTraceSeparator c = true
  after : ∀ c ∈ post.head?, isTraceSeparator c = true

/-- A whole word of a text is one of its tokens. -/
theorem WholeWord.mem_wordRuns {pre word post : List Char} (h : WholeWord pre word post) :
    word ∈ wordRuns (pre ++ word ++ post) := by
  have hafter : word ∈ wordRuns (word ++ post) := by
    cases post with
    | nil => simp [wordRuns_of_word h.ne_nil h.inner]
    | cons c post' =>
      rw [wordRuns_append_separator (h.after c rfl), wordRuns_of_word h.ne_nil h.inner]
      exact List.mem_cons_self
  rcases List.eq_nil_or_concat pre with rfl | ⟨q, c, rfl⟩
  · simpa using hafter
  · have hc : isTraceSeparator c = true := h.before c (by simp)
    rw [List.concat_eq_append, List.append_assoc, List.append_assoc, List.singleton_append,
      wordRuns_append_separator hc]
    exact List.mem_append_right _ hafter

/-! ## Trace files -/

/-- Unifying line ends keeps the tokens: it turns separators into separators. -/
theorem traceNumbers?_unifyLineEnds (text : String) :
    traceNumbers? (String.ofList (unifyLineEnds text.toList)) = traceNumbers? text := by
  simp only [traceNumbers?, traceTokens_eq, String.toList_ofList, wordRuns_unifyLineEnds]

/-- The trace in a readable UTF-8 file is the numbers of its text, or a fault
naming the file. -/
theorem readTraceFile_eq {d : FileSource} {path : String} {bytes : List UInt8} {text : String}
    (hnull : (PathName.parse path).hasNull = false) (hread : d.read (PathName.parse path) = .ok bytes)
    (hdecode : decodeUtf8 bytes = .ok text) :
    readTraceFile d path =
      (traceNumbers? text).elim (.error (.traceNotNumeric (PathName.parse path).render)) .ok := by
  unfold readTraceFile
  simp only [FileSource.load, hnull, hread, hdecode, Bool.false_eq_true, if_false, Except.mapError,
    bind, Except.bind, traceNumbers?_unifyLineEnds]
  cases traceNumbers? text <;> rfl

/-- Text below code point 128 is its own UTF-8 encoding, one byte a character. -/
theorem decodeUtf8_ascii {cs : List Char} (h : ∀ c ∈ cs, c.toNat < 128) :
    decodeUtf8 (cs.map fun c => c.toNat.toUInt8) = .ok (String.ofList cs) := by
  suffices key : ∀ (pos : Nat) (acc : List Char),
      decodeFrom pos acc (cs.map fun c => c.toNat.toUInt8) = .ok (acc.reverse ++ cs) by
    simp [decodeUtf8, key 0 [], Except.map]
  induction cs with
  | nil => intro pos acc; simp [decodeFrom]
  | cons c cs ih =>
    intro pos acc
    have hc := h c List.mem_cons_self
    have hval : c.toNat.toUInt8.toNat = c.toNat := by
      rw [Nat.toUInt8_eq]
      exact UInt8.toNat_ofNat_of_lt' (by show c.toNat < 256; omega)
    have hbyte : c.toNat.toUInt8 < 0x80 := by
      rw [UInt8.lt_iff_toNat_lt, hval]
      exact hc
    rw [List.map_cons, decodeFrom.eq_def]
    dsimp only
    rw [if_pos hbyte, hval, Char.ofNat_toNat]
    rw [ih (fun c' hc' => h c' (List.mem_cons_of_mem c hc')) (pos + 1) (c :: acc)]
    simp

/-! ## Reading a trace file back -/

/-- A trace file read back.  A UTF-8 file whose text writes a list of integers
in decimal, in order, set apart by non-empty runs of blanks, commas and braces
(and perhaps opened and closed by such runs), reads as that list, as long as
no number has more than `digitLimit` digits.  A file whose text holds a whole
run of non-separators that is no integer literal is refused with a
configuration fault naming the file as its normal form, quoted.  A number in
decimal is an integer literal exactly when it has at most `digitLimit` digits. -/
theorem trace_file_reads_back :
    (∀ (d : FileSource) (path : String) (bytes : List UInt8) (t : TraceLayout),
      (PathName.parse path).hasNull = false → d.read (PathName.parse path) = .ok bytes →
      decodeUtf8 bytes = .ok t.text → t.Separated → (∀ x ∈ t.numbers, x.natAbs < 10 ^ digitLimit) →
      readTraceFile d path = .ok t.numbers) ∧
    (∀ (d : FileSource) (path : String) (bytes : List UInt8) (pre word post : List Char),
      (PathName.parse path).hasNull = false → d.read (PathName.parse path) = .ok bytes →
      decodeUtf8 bytes = .ok (String.ofList (pre ++ word ++ post)) → WholeWord pre word post →
      readInteger? (String.ofList word) = none →
      readTraceFile d path = .error (.traceNotNumeric (PathName.parse path).render) ∧
        (Fault.traceNotNumeric (PathName.parse path).render).family = .configuration ∧
        (Fault.traceNotNumeric (PathName.parse path).render).message =
          "trace file " ++ quote (PathName.parse path).render ++ " must contain page numbers only") ∧
    (∀ x : Int, readInteger? (toString x) = if x.natAbs < 10 ^ digitLimit then some x else none) := by
  refine ⟨fun d path bytes t hnull hread hdecode ht hlimit => ?_,
    fun d path bytes pre word post hnull hread hdecode hword hbad => ⟨?_, rfl, rfl⟩, readInteger?_toString⟩
  · rw [readTraceFile_eq hnull hread hdecode, traceNumbers?, TraceLayout.traceTokens_text ht,
      mapM_readInteger?_toString hlimit]
    rfl
  · have hmem : String.ofList word ∈ traceTokens (String.ofList (pre ++ word ++ post)) := by
      rw [traceTokens_eq, String.toList_ofList]
      exact List.mem_map_of_mem hword.mem_wordRuns
    rw [readTraceFile_eq hnull hread hdecode, traceNumbers?, mapM_eq_none_of_mem hmem hbad]
    rfl

/-- The path `trace.txt` names a file of the working directory. -/
theorem PathName.parse_trace_txt : PathName.parse "trace.txt" = ⟨.here, ["trace.txt"]⟩ := by
  have hsplit : "trace.txt".splitOn "/" = ["trace.txt"] := by
    rw [String.splitOn, if_neg (by decide)]
    repeat rw [splitOnAux_skip (by decide) (by decide)]
    rw [splitOnAux_end (by decide)]
    decide
  have hanchor : PathName.anchorOf "trace.txt" = .here := rfl
  simp only [PathName.parse, hanchor, hsplit]
  decide

/-- A directory holding `trace.txt` opens it by that name. -/
theorem Directory.source_opens_trace_txt (bytes : List UInt8) :
    (PathName.parse "trace.txt").hasNull = false ∧
      (Directory.source ⟨[("trace.txt", bytes)]⟩).read (PathName.parse "trace.txt") = .ok bytes := by
  rw [PathName.parse_trace_txt]
  exact ⟨by simp [PathName.hasNull], rfl⟩

/-- `{0, 1,2\n 7 0}\n` in `trace.txt` reads as `[0, 1, 2, 7, 0]`, and `0, x, 2\n` is
refused for its `x`. -/
theorem trace_file_reads_back_small :
    let good : List UInt8 := [0x7b, 0x30, 0x2c, 0x20, 0x31, 0x2c, 0x32, 0x0a, 0x20, 0x37, 0x20, 0x30, 0x7d, 0x0a]
    let t : TraceLayout :=
      ⟨['\x7b'], [(0, [',', ' ']), (1, [',']), (2, ['\n', ' ']), (7, [' ']), (0, ['\x7d', '\n'])]⟩
    let bad : List UInt8 := [0x30, 0x2c, 0x20, 0x78, 0x2c, 0x20, 0x32, 0x0a]
    (decodeUtf8 good = .ok t.text ∧ t.Separated ∧
      readTraceFile (Directory.source ⟨[("trace.txt", good)]⟩) "trace.txt" = .ok [0, 1, 2, 7, 0]) ∧
    (decodeUtf8 bad = .ok (String.ofList (['0', ',', ' '] ++ ['x'] ++ [',', ' ', '2', '\n'])) ∧
      WholeWord ['0', ',', ' '] ['x'] [',', ' ', '2', '\n'] ∧
      readTraceFile (Directory.source ⟨[("trace.txt", bad)]⟩) "trace.txt" =
        .error (.traceNotNumeric "trace.txt")) := by
  intro good t bad
  -- the separator checks are run as `List.all`, which `decide` evaluates on the list alone
  have ht : t.Separated := by
    refine ⟨List.all_eq_true.mp (by decide), fun e he => List.all_eq_true.mp ?_, by simp [t]⟩
    exact List.all_eq_true.mp (show t.entries.all (fun e => e.2.all isTraceSeparator) = true by decide) e he
  have hlimit : ∀ x ∈ t.numbers, x.natAbs < 10 ^ digitLimit := fun x hx =>
    natAbs_lt_limit (of_decide_eq_true
      (List.all_eq_true.mp (show t.numbers.all (fun x => decide (x.natAbs < 10 ^ 5)) = true by decide) x hx))
  have hgood : decodeUtf8 good = .ok t.text := by decide
  have hbad : decodeUtf8 bad = .ok (String.ofList (['0', ',', ' '] ++ ['x'] ++ [',', ' ', '2', '\n'])) := by
    decide
  have hword : WholeWord ['0', ',', ' '] ['x'] [',', ' ', '2', '\n'] := by
    refine ⟨by simp, fun c hc => ?_, fun c hc => ?_, fun c hc => ?_⟩ <;>
      simp only [List.mem_singleton, List.getLast?_cons_cons, List.getLast?_singleton, List.head?_cons,
        Option.mem_def, Option.some.injEq] at hc <;> subst hc <;> decide
  refine ⟨⟨hgood, ht, ?_⟩, ⟨hbad, hword, ?_⟩⟩
  · obtain ⟨hnull, hread⟩ := Directory.source_opens_trace_txt good
    exact trace_file_reads_back.1 _ "trace.txt" good t hnull hread hgood ht hlimit
  · obtain ⟨hnull, hread⟩ := Directory.source_opens_trace_txt bad
    have h := (trace_file_reads_back.2.1 (Directory.source ⟨[("trace.txt", bad)]⟩) "trace.txt" bad _ _ _
      hnull hread hbad hword (by decide +kernel)).1
    rw [PathName.parse_trace_txt] at h
    exact h

/-- A trace of one number written with a one and `digitLimit` zeros is not
read back: its digit run is refused, so the file is reported as holding
something other than page numbers. -/
theorem long_page_number_refused :
    let bytes := (toString ((10 : Int) ^ digitLimit)).toList.map fun c => c.toNat.toUInt8
    let t : TraceLayout := ⟨[], [((10 : Int) ^ digitLimit, [])]⟩
    decodeUtf8 bytes = .ok t.text ∧ t.Separated ∧
      readTraceFile (Directory.source ⟨[("trace.txt", bytes)]⟩) "trace.txt" =
        .error (.traceNotNumeric "trace.txt") ∧
      readTraceFile (Directory.source ⟨[("trace.txt", bytes)]⟩) "trace.txt" ≠ .ok t.numbers := by
  intro bytes t
  have hdecode : decodeUtf8 bytes = .ok t.text := by
    rw [TraceLayout.text_single]
    exact decodeUtf8_ascii fun c hc => ((toString_word _).2 c hc).2
  have ht : t.Separated := ⟨by simp [t], by simp [t], List.isChain_singleton _⟩
  obtain ⟨hnull, hread⟩ := Directory.source_opens_trace_txt bytes
  -- the one token has a digit more than a literal may have
  have htoken : readInteger? (toString ((10 : Int) ^ digitLimit)) = none := by
    have habs : ((10 : Int) ^ digitLimit).natAbs = 10 ^ digitLimit := by
      rw [Int.natAbs_pow, show (10 : Int).natAbs = 10 from rfl]
    rw [readInteger?_toString, habs, if_neg (Nat.lt_irrefl _)]
  have hnone : traceNumbers? t.text = none := by
    rw [traceNumbers?, TraceLayout.traceTokens_text ht]
    exact mapM_eq_none_of_mem List.mem_cons_self htoken
  have hfile := readTraceFile_eq hnull hread hdecode
  rw [hnone, PathName.parse_trace_txt] at hfile
  refine ⟨hdecode, ht, hfile, ?_⟩
  rw [hfile]
  intro h
  cases h

end DemandPaging
