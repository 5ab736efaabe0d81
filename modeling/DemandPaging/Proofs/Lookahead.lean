import Mathlib.Data.List.Basic
import Mathlib.Logic.Function.Iterate
import DemandPaging.Memory.Replacement

/-!
# Looking ahead in a recorded trace

The optimal policy indexes its trace once, keeping for each page the
ascending positions where the trace uses it (`TraceIndex.build`), and finds
the next use of a page at or after a position by a lower-bound binary search
(`lowerBound`).  The index answers what a scan of the trace would:

* `uses_build`: the positions kept for a page are those where the trace uses
  it (`positionsFrom`), ascending;
* `lowerBound_splits`: on an ascending array the search stops where the
  values reach the key;
* `distance_build`: the distance to the next use of `v` from position `s` is
  the index of `v` in the rest of the trace, and one more than the trace's
  length if `v` is not used again;
* `distance_le_iff`: so distances compare as those indices do;
* `farthest_max`: scanning frames that all hold pages, the policy picks one
  whose page is at the greatest distance;
* `optimal_victim_eq_plain_scan`: after any number of observed accesses, the
  victim is the one a plain scan of the core map and the trace picks
  (`scanVictim` with `nextUseDistance`), and choosing it changes neither the
  policy nor the page table.
-/

namespace DemandPaging

/-- The positions, counted from `n`, at which `l` uses `v`. -/
def positionsFrom (v : Int) : List Int → Nat → List Nat
  | [], _ => []
  | x :: l, n => if x = v then n :: positionsFrom v l (n + 1) else positionsFrom v l (n + 1)

section Positions

variable {v : Int}

theorem positionsFrom_append (l₁ l₂ : List Int) (n : Nat) :
    positionsFrom v (l₁ ++ l₂) n = positionsFrom v l₁ n ++ positionsFrom v l₂ (n + l₁.length) := by
  induction l₁ generalizing n with
  | nil => rfl
  | cons x l₁ ih =>
    simp only [List.cons_append, positionsFrom, ih, List.length_cons, Nat.add_assoc, Nat.add_comm 1]
    split <;> rfl

/-- Positions counted from `n` lie in `[n, n + l.length)`. -/
theorem bounds_of_mem_positionsFrom {l : List Int} {n p : Nat} (h : p ∈ positionsFrom v l n) :
    n ≤ p ∧ p < n + l.length := by
  induction l generalizing n with
  | nil => cases h
  | cons x l ih =>
    simp only [positionsFrom] at h
    split at h
    · rcases List.mem_cons.mp h with rfl | h
      · simp
      · have := ih h
        simp only [List.length_cons]
        omega
    · have := ih h
      simp only [List.length_cons]
      omega

/-- The positions come in ascending order. -/
theorem positionsFrom_ascending (l : List Int) (n : Nat) :
    (positionsFrom v l n).Pairwise (· < ·) := by
  induction l generalizing n with
  | nil => exact List.Pairwise.nil
  | cons x l ih =>
    simp only [positionsFrom]
    split
    · exact List.Pairwise.cons (fun p hp => (bounds_of_mem_positionsFrom hp).1) (ih (n + 1))
    · exact ih (n + 1)

/-- The first position is that of the first use. -/
theorem head?_positionsFrom (l : List Int) (n : Nat) :
    (positionsFrom v l n).head? = if v ∈ l then some (n + l.idxOf v) else none := by
  induction l generalizing n with
  | nil => simp [positionsFrom]
  | cons x l ih =>
    simp only [positionsFrom]
    by_cases hx : x = v
    · simp [hx]
    · rw [if_neg hx, ih, List.idxOf_cons_ne _ hx]
      simp only [List.mem_cons, Ne.symm hx, false_or]
      split <;> simp only [Option.some.injEq]
      omega

end Positions

/-! ## The lower-bound search -/

/-- The values of `a` before `r` are below `x`, and those from `r` on are not. -/
def Splits (a : Array Nat) (x r : Nat) : Prop :=
  (∀ i (h : i < a.size), i < r → a[i] < x) ∧ ∀ i (h : i < a.size), r ≤ i → x ≤ a[i]

/-- An array is split at one place at most, within its bounds. -/
theorem Splits.unique {a : Array Nat} {x r r' : Nat} (h : Splits a x r) (h' : Splits a x r')
    (hr : r ≤ a.size) (hr' : r' ≤ a.size) : r = r' := by
  by_contra hne
  rcases Nat.lt_or_gt_of_ne hne with hlt | hlt
  · exact absurd (h'.1 r (by omega) hlt) (Nat.not_lt.mpr (h.2 r (by omega) (Nat.le_refl _)))
  · exact absurd (h.1 r' (by omega) hlt) (Nat.not_lt.mpr (h'.2 r' (by omega) (Nat.le_refl _)))

/-- On an ascending array, the search over `[lo, hi)` keeps the values below
`lo` under the key and those from `hi` on above it, until the two meet.
Induction along the search. -/
theorem lowerBound_splits {a : Array Nat} {x : Nat}
    (hs : ∀ i j (hi : i < a.size) (hj : j < a.size), i ≤ j → a[i] ≤ a[j]) (lo hi : Nat)
    (hle : lo ≤ hi) (hsize : hi ≤ a.size) (hlo : ∀ i (h : i < a.size), i < lo → a[i] < x)
    (hhi : ∀ i (h : i < a.size), hi ≤ i → x ≤ a[i]) :
    lo ≤ lowerBound a x lo hi ∧ lowerBound a x lo hi ≤ hi ∧ Splits a x (lowerBound a x lo hi) := by
  fun_induction lowerBound a x lo hi with
  | case1 lo hi hlt mid hmid ih =>
    -- the middle value is below the key: so is everything up to it
    have hm : mid < a.size := by omega
    rw [Array.getD_eq_getD_getElem?, Array.getElem?_eq_getElem hm, Option.getD_some] at hmid
    have hbelow : ∀ i (h : i < a.size), i < mid + 1 → a[i] < x := fun i h hi' => by
      by_cases hil : i < lo
      · exact hlo i h hil
      · exact Nat.lt_of_le_of_lt (hs i mid h hm (by omega)) hmid
    obtain ⟨h₁, h₂, h₃⟩ := ih (by omega) hsize hbelow hhi
    exact ⟨by omega, h₂, h₃⟩
  | case2 lo hi hlt mid hmid ih =>
    -- the middle value reaches the key: so does everything from it on
    have hm : mid < a.size := by omega
    rw [Array.getD_eq_getD_getElem?, Array.getElem?_eq_getElem hm, Option.getD_some] at hmid
    have habove : ∀ i (h : i < a.size), mid ≤ i → x ≤ a[i] := fun i h hmi => by
      by_cases hih : hi ≤ i
      · exact hhi i h hih
      · exact Nat.le_trans (Nat.not_lt.mp hmid) (hs mid i hm h hmi)
    obtain ⟨h₁, h₂, h₃⟩ := ih (by omega) (by omega) hlo habove
    exact ⟨h₁, by omega, h₃⟩
  | case3 lo hi hge =>
    exact ⟨Nat.le_refl _, hle, hlo, fun i h hi' => hhi i h (by omega)⟩

/-! ## The index of a trace -/

/-- Indexing a trace from position `n` onto `m` appends to each page's
positions those where the trace uses it.  Induction on the trace. -/
theorem foldl_uses (v : Int) (l : List Int) (n : Nat) (m : Std.HashMap Int (Array Nat)) :
    (l.foldl (fun (acc : Nat × Std.HashMap Int (Array Nat)) (w : Int) =>
        (acc.1 + 1, acc.2.insert w ((acc.2.getD w #[]).push acc.1))) (n, m)).2.getD v #[] =
      m.getD v #[] ++ (positionsFrom v l n).toArray := by
  induction l generalizing n m with
  | nil => simp [positionsFrom]
  | cons x l ih =>
    rw [List.foldl_cons, ih, Std.HashMap.getD_insert]
    simp only [positionsFrom]
    by_cases hx : x = v
    · simp [hx]
    · simp [hx]

theorem uses_build (t : List Int) (v : Int) :
    (TraceIndex.build t).uses.getD v #[] = (positionsFrom v t 0).toArray := by
  simp only [TraceIndex.build]
  rw [foldl_uses, Std.HashMap.getD_empty, Array.empty_append]

/-- The next use of `v` at or after `s` is at `s` plus the index of `v` in
the rest of the trace. -/
theorem nextUse_build (t : List Int) (v : Int) (s : Nat) :
    (TraceIndex.build t).nextUse? v s =
      if v ∈ t.drop s then some (s + (t.drop s).idxOf v) else none := by
  -- the positions split into those before `s` and those from `s` on
  have hsplit := positionsFrom_append (v := v) (t.take s) (t.drop s) 0
  rw [List.take_append_drop, Nat.zero_add] at hsplit
  set A := positionsFrom v (t.take s) 0
  set B := positionsFrom v (t.drop s) (t.take s).length
  have hA : ∀ p ∈ A, p < s := fun p hp => by
    have := (bounds_of_mem_positionsFrom hp).2
    simp only [List.length_take] at this
    omega
  have hB : ∀ p ∈ B, s ≤ p := fun p hp => by
    have hb := bounds_of_mem_positionsFrom hp
    simp only [List.length_take, List.length_drop] at hb
    omega
  let P := (positionsFrom v t 0).toArray
  have hasc : ∀ i j (hi : i < P.size) (hj : j < P.size), i ≤ j → P[i] ≤ P[j] := by
    intro i j hi hj hij
    rcases Nat.lt_or_eq_of_le hij with hlt | rfl
    · exact Nat.le_of_lt (List.pairwise_iff_getElem.mp (positionsFrom_ascending t 0) i j hi hj hlt)
    · exact (Nat.le_refl _)
  -- the positions before `s` are exactly the first `A.length`
  have hsplits : Splits P s A.length := by
    refine ⟨fun i h hi => ?_, fun i h hi => ?_⟩
    · show (positionsFrom v t 0)[i] < s
      simp only [hsplit, List.getElem_append_left hi]
      exact hA _ (List.getElem_mem _)
    · show s ≤ (positionsFrom v t 0)[i]
      have hi' : i - A.length < B.length := by
        have : i < (A ++ B).length := by rw [← hsplit]; exact h
        simp only [List.length_append] at this
        omega
      simp only [hsplit, List.getElem_append_right hi]
      exact hB _ (List.getElem_mem _)
  have hAlen : A.length ≤ P.size := by
    show A.length ≤ (positionsFrom v t 0).length
    rw [hsplit, List.length_append]
    omega
  obtain ⟨-, hle, hfound⟩ := lowerBound_splits hasc 0 P.size (Nat.zero_le _) (Nat.le_refl _)
    (fun _ _ h => absurd h (Nat.not_lt_zero _)) (fun _ h h' => absurd h (Nat.not_lt.mpr h'))
  have hidx : lowerBound P s 0 P.size = A.length := hfound.unique hsplits hle hAlen
  unfold TraceIndex.nextUse?
  rw [uses_build]
  show P[lowerBound P s 0 P.size]? = _
  rw [hidx, List.getElem?_toArray, hsplit, List.getElem?_append_right (Nat.le_refl _), Nat.sub_self,
    ← List.head?_eq_getElem?, head?_positionsFrom]
  -- a page used again is used at a position of the trace, so `s` is within it
  by_cases hv : v ∈ t.drop s
  · have hs : s < t.length := by
      have := List.length_pos_of_mem hv
      simp only [List.length_drop] at this
      omega
    simp [hv, List.length_take, Nat.min_eq_left (Nat.le_of_lt hs)]
  · simp [hv]

/-- The distance from `s` to the next use of `v`. -/
theorem distance_build (t : List Int) (v : Int) (s : Nat) :
    (TraceIndex.build t).distance v s =
      if v ∈ t.drop s then (t.drop s).idxOf v else t.length + 1 := by
  unfold TraceIndex.distance
  rw [nextUse_build]
  by_cases hv : v ∈ t.drop s
  · simp [hv]
  · simp [hv, TraceIndex.build]

/-- Distances from `s` compare as the indices of the pages in the rest of the
trace: a page used sooner is nearer, and a page not used again is farther
than any that is. -/
theorem distance_le_iff (t : List Int) (v w : Int) (s : Nat) :
    (TraceIndex.build t).distance v s ≤ (TraceIndex.build t).distance w s ↔
      (t.drop s).idxOf v ≤ (t.drop s).idxOf w := by
  rw [distance_build, distance_build]
  have hlen : (t.drop s).length ≤ t.length := by simp
  by_cases hv : v ∈ t.drop s <;> by_cases hw : w ∈ t.drop s
  · simp [hv, hw]
  · have := List.idxOf_lt_length_of_mem hv
    simp only [hv, hw, if_true, if_false, List.idxOf_of_notMem hw]
    omega
  · have := List.idxOf_lt_length_of_mem hw
    simp only [hv, hw, if_true, if_false, List.idxOf_of_notMem hv]
    omega
  · simp [hv, hw, List.idxOf_of_notMem]

/-! ## The scan for the farthest page -/

namespace Policy

/-- Scanning frames that all hold pages, from frame `f` with `victim` best so
far at distance `best`: either none is farther than `best` and `victim`
stays, or the scan picks the first frame whose page is strictly farther than
`best` and at least as far as every other.  Induction on the frames. -/
theorem farthest_max (idx : TraceIndex) (s : Nat) (l : List FrameEntry)
    (hl : ∀ e ∈ l, e.owner.isSome) (f victim : Nat) (best : Int) :
    (farthest idx s l f victim best = victim ∧
        ∀ e ∈ l, ∀ o, e.owner = some o → (idx.distance o s : Int) ≤ best) ∨
      ∃ (k : Nat) (hk : k < l.length) (o : Int), farthest idx s l f victim best = f + k ∧
        l[k].owner = some o ∧ best < idx.distance o s ∧
        ∀ e ∈ l, ∀ o', e.owner = some o' → idx.distance o' s ≤ idx.distance o s := by
  induction l generalizing f victim best with
  | nil => exact .inl ⟨rfl, fun e he => absurd he List.not_mem_nil⟩
  | cons e rest ih =>
    obtain ⟨o, ho⟩ := Option.isSome_iff_exists.mp (hl e List.mem_cons_self)
    have hrest : ∀ e ∈ rest, e.owner.isSome := fun e he => hl e (List.mem_cons_of_mem _ he)
    simp only [farthest, ho]
    split
    · -- `e`'s page is the farthest so far
      rename_i hbest
      rcases ih hrest (f + 1) f (idx.distance o s) with ⟨hres, hall⟩ | ⟨k, hk, o', hres, hk', hlt, hall⟩
      · refine .inr ⟨0, by simp, o, by rw [hres]; rfl, ho, hbest, fun e' he' o' ho' => ?_⟩
        rcases List.mem_cons.mp he' with rfl | he'
        · rw [ho] at ho'
          cases ho'
          exact (Nat.le_refl _)
        · exact_mod_cast hall e' he' o' ho'
      · refine .inr ⟨k + 1, by simp; omega, o', by rw [hres]; omega, hk', by omega,
          fun e' he' o'' ho'' => ?_⟩
        rcases List.mem_cons.mp he' with rfl | he'
        · rw [ho] at ho''
          cases ho''
          exact_mod_cast Int.le_of_lt hlt
        · exact hall e' he' o'' ho''
    · rename_i hbest
      rcases ih hrest (f + 1) victim best with ⟨hres, hall⟩ | ⟨k, hk, o', hres, hk', hlt, hall⟩
      · refine .inl ⟨hres, fun e' he' o' ho' => ?_⟩
        rcases List.mem_cons.mp he' with rfl | he'
        · rw [ho] at ho'
          cases ho'
          omega
        · exact hall e' he' o' ho'
      · refine .inr ⟨k + 1, by simp; omega, o', by rw [hres]; omega, hk', hlt,
          fun e' he' o'' ho'' => ?_⟩
        rcases List.mem_cons.mp he' with rfl | he'
        · rw [ho] at ho''
          cases ho''
          have : (idx.distance o s : Int) ≤ idx.distance o' s := by omega
          exact_mod_cast this
        · exact hall e' he' o'' ho''

end Policy

/-! ## The victim against a plain scan -/

/-- How far ahead of position `s` the trace `t` next uses page `p`: the least
`i ≥ s` with `t[i] = p`, less `s`, or one more than the trace's length when
`p` is not used again. -/
def nextUseDistance (t : List Int) (s : Nat) (p : Int) : Nat :=
  if p ∈ t.drop s then (t.drop s).idxOf p else t.length + 1

/-- The frame a plain scan of the owners picks: the first unowned frame if
there is one; otherwise the first frame whose page lies farthest ahead by `d`;
frame 0 when there are no frames. -/
def scanVictim (d : Int → Nat) (owners : List (Option Int)) : Nat :=
  if owners.any Option.isNone then owners.findIdx Option.isNone
  else
    let ds := (owners.filterMap id).map d
    ds.idxOf (ds.foldr max 0)

/-- Where the first largest value of `d :: ds` sits. -/
theorem idxOf_max_cons (d : Nat) (ds : List Nat) :
    (d :: ds).idxOf (max d (ds.foldr max 0)) =
      if d < ds.foldr max 0 then ds.idxOf (ds.foldr max 0) + 1 else 0 := by
  split
  · rename_i h
    rw [Nat.max_eq_right (Nat.le_of_lt h), List.idxOf_cons_ne _ (Nat.ne_of_lt h)]
  · rw [Nat.max_eq_left (by omega), List.idxOf_cons_self]

namespace Policy

/-- An unowned frame stops the scan at once. -/
theorem farthest_of_unowned (idx : TraceIndex) (s : Nat) (l : List FrameEntry) (f victim : Nat)
    (best : Int) (h : (l.map (·.owner)).any Option.isNone) :
    farthest idx s l f victim best = f + (l.map (·.owner)).findIdx Option.isNone := by
  induction l generalizing f victim best with
  | nil => simp at h
  | cons e rest ih =>
    cases ho : e.owner with
    | none => simp [farthest, ho, List.findIdx_cons]
    | some o =>
      have h' : (rest.map (·.owner)).any Option.isNone := by simpa [ho] using h
      simp only [farthest, ho, List.map_cons, List.findIdx_cons, Option.isNone_some, cond_false]
      split <;> rw [ih _ _ _ h'] <;> omega

/-- Over owned frames the scan keeps the first strictly farthest frame: it
returns the first frame at the largest distance if that beats `best`, and
`victim` otherwise.  `victim` is the scan's start while nothing has been
seen (`best < 0`).  Induction on the frames. -/
theorem farthest_of_owned (idx : TraceIndex) (s : Nat) (l : List FrameEntry) (f victim : Nat)
    (best : Int) (hbest : best < 0 → victim = f) (hl : ∀ e ∈ l, e.owner.isSome) :
    farthest idx s l f victim best =
      let ds := (l.filterMap (·.owner)).map (idx.distance · s)
      if best < (ds.foldr max 0 : Nat) then f + ds.idxOf (ds.foldr max 0) else victim := by
  induction l generalizing f victim best with
  | nil =>
    by_cases hb : best < 0
    · simp [farthest, hb, hbest hb]
    · simp [farthest, hb]
  | cons e rest ih =>
    obtain ⟨o, ho⟩ := Option.isSome_iff_exists.mp (hl e List.mem_cons_self)
    have hrest : ∀ e ∈ rest, e.owner.isSome := fun e he => hl e (List.mem_cons_of_mem _ he)
    simp only [farthest, ho, List.filterMap_cons, List.map_cons, List.foldr_cons, idxOf_max_cons]
    -- a frame farther than all before it becomes the victim so far, at its distance
    split <;> rw [ih _ _ _ (fun h => absurd h (by omega)) hrest] <;> dsimp only <;> split_ifs <;> omega

end Policy

/-- The optimal policy's indexed search agrees with a plain scan.  After `k`
observed accesses the policy replaying `trace` picks, over any core map, the
frame `scanVictim` picks with distances measured from position `k - 1` (the
access that faulted, or 0 before any), and choosing it leaves the position at
`k`, the index of the trace and the page table as they were. -/
theorem optimal_victim_eq_plain_scan (trace : List Int) (k : Nat) (frames : CoreMap)
    (pages : PageTable) :
    (Policy.observe^[k] (.optimal (TraceIndex.build trace) 0)).selectVictim frames pages =
      (.ok (scanVictim (nextUseDistance trace (k - 1)) (frames.toList.map (·.owner))),
        .optimal (TraceIndex.build trace) k, pages) := by
  have hpos : ∀ n, Policy.observe^[n] (.optimal (TraceIndex.build trace) 0) =
      .optimal (TraceIndex.build trace) n := by
    intro n
    induction n with
    | zero => rfl
    | succ n ih => rw [Function.iterate_succ_apply', ih]; rfl
  have hd : (fun v => (TraceIndex.build trace).distance v (k - 1)) = nextUseDistance trace (k - 1) :=
    funext fun v => distance_build trace v (k - 1)
  rw [hpos]
  simp only [Policy.selectVictim, Prod.mk.injEq, and_true]
  congr 2
  unfold scanVictim
  split
  · rename_i hany
    rw [Policy.farthest_of_unowned _ _ _ _ _ _ hany, Nat.zero_add]
  · rename_i hany
    -- every frame is owned, and the first farthest one wins
    have hl : ∀ e ∈ frames.toList, e.owner.isSome := by
      intro e he
      have := List.any_eq_false.mp (Bool.eq_false_iff.mpr hany) e.owner (List.mem_map_of_mem he)
      simpa [Option.isNone_iff_eq_none, Option.isSome_iff_ne_none] using this
    rw [Policy.farthest_of_owned _ _ _ _ _ _ (fun _ => rfl) hl]
    simp only [List.filterMap_map, Function.comp_def, id, ← hd]
    rw [if_pos (by omega), Nat.zero_add]

example : scanVictim (nextUseDistance [1, 2, 1, 3] 1) [some 1, some 2, some 4] = 2 ∧
    scanVictim (nextUseDistance [1, 2, 1, 3] 1) [some 1, none, some 4] = 1 := by decide

end DemandPaging
