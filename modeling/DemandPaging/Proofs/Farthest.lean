import Mathlib.Data.Finset.Basic
import Mathlib.Data.List.Basic

/-!
# Evicting the page needed farthest ahead

A cache of fixed size serves a sequence of requests.  A request found in the
cache is a hit; one that is not is a miss, and it comes in in place of a
victim.  `Cache.Serves ok i C rs C' n` says that the requests `rs`, the first
made at time `i`, are served from the cache `C`, ending with `C'` after `n`
misses, every victim being one that `ok` allows at its time.

A run of an arbitrary policy may evict anything (`Cache.anyVictim`).  The
optimal choice evicts a victim whose next request, in a known sequence `t` of
requests from the current time on, comes no sooner than that of anything else
in the cache (`Cache.FarthestIn t`).  `Cache.farthest_fewest_misses`: over
any prefix of that sequence, such a run misses no more often than any run at
all.

The proof is the exchange argument.  Where the two runs first choose
different victims, the other run keeps the page `z` needed later and drops
the page `x` needed sooner.  `Serves.advance` turns the rest of its run into
one from the optimal cache, holding `x` in place of `z`, with no more misses;
when the other run fetches `x` back while still holding `z`, the caches differ
in one page again, and `Serves.trade` (holding any one page in place of another
costs at most one miss) closes the gap.
-/

namespace DemandPaging

namespace Cache

variable {β : Type} [DecidableEq β]

/-- One request `r` served at time `i` from the cache `C`: a hit leaves the
cache as it is; a miss brings `r` in in place of a victim `y` that `ok`
allows. -/
inductive Step (ok : Nat → Finset β → β → Prop) (i : Nat) (C : Finset β) (r : β) :
    Finset β → Nat → Prop
  | hit : r ∈ C → Step ok i C r C 0
  | miss (y : β) : r ∉ C → y ∈ C → ok i C y → Step ok i C r (insert r (C.erase y)) 1

/-- The requests `rs`, the first at time `i`, served one after another from
the cache `C`, ending with `C'` after `n` misses. -/
inductive Serves (ok : Nat → Finset β → β → Prop) :
    Nat → Finset β → List β → Finset β → Nat → Prop
  | nil (i : Nat) (C : Finset β) : Serves ok i C [] C 0
  | cons {i : Nat} {C C₁ C₂ : Finset β} {r : β} {rs : List β} {δ n : Nat} :
      Step ok i C r C₁ δ → Serves ok (i + 1) C₁ rs C₂ n → Serves ok i C (r :: rs) C₂ (δ + n)

/-- The choice of a policy that may evict anything. -/
def anyVictim (_ : Nat) (_ : Finset β) (_ : β) : Prop := True

/-- The victim `y` is requested, in `t` from time `i` on, no sooner than
anything else in the cache `C`; a page never requested again is as far as
can be. -/
def FarthestIn (t : List β) (i : Nat) (C : Finset β) (y : β) : Prop :=
  ∀ z ∈ C, (t.drop i).idxOf z ≤ (t.drop i).idxOf y

/-- A run followed by one more request served at the time it ends. -/
theorem Serves.snoc {ok : Nat → Finset β → β → Prop} {i n δ : Nat} {C C₁ C₂ : Finset β}
    {rs : List β} {r : β} (h : Serves ok i C rs C₁ n) (hs : Step ok (i + rs.length) C₁ r C₂ δ) :
    Serves ok i C (rs ++ [r]) C₂ (n + δ) := by
  revert hs
  induction h with
  | nil i C =>
    intro hs
    simpa using (Serves.cons (by simpa using hs) (.nil (i + 1) C₂) : Serves ok i C [r] C₂ (δ + 0))
  | @cons i C C' C₁ r₀ rs δ₀ n hstep _ ih =>
    intro hs
    have hs' : Step ok (i + 1 + rs.length) C₁ r C₂ δ := by
      rwa [List.length_cons, Nat.add_comm rs.length 1, ← Nat.add_assoc] at hs
    rw [List.cons_append, Nat.add_assoc]
    exact .cons hstep (ih hs')

/-! ## Requests ahead -/

/-- Whatever a sequence requests no later than something else, each of its
prefixes does too. -/
theorem idxOf_le_of_prefix {l₁ l₂ : List β} {a b : β} (h : l₁ <+: l₂)
    (hab : l₂.idxOf a ≤ l₂.idxOf b) : l₁.idxOf a ≤ l₁.idxOf b := by
  obtain ⟨l₃, rfl⟩ := h
  induction l₁ with
  | nil => simp
  | cons c l₁ ih =>
    by_cases hca : c = a
    · rw [hca, List.idxOf_cons_self]
      exact Nat.zero_le _
    · by_cases hcb : c = b
      · -- `b` is requested first, so `a` is too
        rw [List.cons_append, hcb, List.idxOf_cons_self,
          List.idxOf_cons_ne _ (hcb ▸ hca)] at hab
        omega
      · rw [List.cons_append, List.idxOf_cons_ne _ hca, List.idxOf_cons_ne _ hcb] at hab
        rw [List.idxOf_cons_ne _ hca, List.idxOf_cons_ne _ hcb]
        exact Nat.succ_le_succ (ih (Nat.succ_le_succ_iff.mp hab))

omit [DecidableEq β] in
/-- Requests served from time `i` on that follow the sequence `t` start with
its request at `i`, and the rest follow it from `i + 1`. -/
theorem drop_of_prefix {t rs : List β} {i : Nat} {r : β} (h : r :: rs <+: t.drop i) :
    t.drop i = r :: t.drop (i + 1) ∧ rs <+: t.drop (i + 1) := by
  obtain ⟨l, hl⟩ := h
  have htail : t.drop (i + 1) = rs ++ l := by
    rw [← List.tail_drop, ← hl]
    rfl
  exact ⟨by rw [← hl, htail]; rfl, ⟨l, htail.symm⟩⟩

/-! ## Exchanging one page of a cache for another -/

/-- Fetching `r` in place of `y` from a cache that holds `a` besides. -/
theorem insert_erase_insert {a y r : β} {F : Finset β} (hay : a ≠ y) :
    insert r ((insert a F).erase y) = insert a (insert r (F.erase y)) := by
  rw [Finset.erase_insert_of_ne hay, Finset.insert_comm]

/-- A cache holding `y` with `b` besides. -/
theorem insert_eq_insert_erase {b y : β} {F : Finset β} (hy : y ∈ F) :
    insert b F = insert y (insert b (F.erase y)) := by
  rw [Finset.insert_comm, Finset.insert_erase hy]

/-- Holding `b` in place of `a` costs at most one more miss: the run from the
cache with `b` makes the other run's choices, except that it fetches `a`
back, evicting `b`, at the first request for `a`.  Induction on the
requests. -/
theorem Serves.trade {i n : Nat} {a b : β} {F C' : Finset β} {rs : List β}
    (h : Serves anyVictim i (insert a F) rs C' n) (ha : a ∉ F) (hb : b ∉ F) :
    ∃ n' ≤ n + 1, ∃ C'', Serves anyVictim i (insert b F) rs C'' n' := by
  induction rs generalizing i a b F C' n with
  | nil =>
    cases h
    exact ⟨0, Nat.zero_le _, _, .nil _ _⟩
  | cons r rs ih =>
    by_cases hab : a = b
    · rw [← hab]
      exact ⟨n, Nat.le_succ n, C', h⟩
    cases h with
    | cons hstep hrest =>
    rename_i C₁ δ n₁
    cases hstep with
    | hit hr =>
      rcases Finset.mem_insert.mp hr with hra | hrF
      · -- the request is `a`: fetch it, evicting `b`, and the caches agree
        have hnext : insert r ((insert b F).erase b) = insert a F := by
          rw [Finset.erase_insert hb, hra]
        refine ⟨1 + n₁, by omega, C', .cons (.miss b ?_ (Finset.mem_insert_self b F) trivial)
          (by rw [hnext]; exact hrest)⟩
        simp [hra, hab, ha]
      · obtain ⟨n', hn', C'', h'⟩ := ih hrest ha hb
        exact ⟨0 + n', by omega, C'', .cons (.hit (Finset.mem_insert_of_mem hrF)) h'⟩
    | miss y hr hy _ =>
      simp only [Finset.mem_insert, not_or] at hr
      obtain ⟨hra, hrF⟩ := hr
      rcases Finset.mem_insert.mp hy with hya | hyF
      · -- the other run evicts `a`: the caches agree from here on
        rw [hya, Finset.erase_insert ha] at hrest
        by_cases hrb : r = b
        · rw [hrb] at hrest
          exact ⟨0 + n₁, by omega, C', .cons (.hit (hrb ▸ Finset.mem_insert_self b F)) hrest⟩
        · rw [← Finset.erase_insert hb] at hrest
          refine ⟨1 + n₁, by omega, C',
            .cons (.miss b ?_ (Finset.mem_insert_self b F) trivial) hrest⟩
          simp [hrb, hrF]
      · have hay : a ≠ y := fun h => ha (h ▸ hyF)
        have hby : b ≠ y := fun h => hb (h ▸ hyF)
        rw [insert_erase_insert hay] at hrest
        by_cases hrb : r = b
        · -- the request is `b`, a hit here; the other run now holds `a` where this one holds `y`
          rw [hrb] at hrest
          obtain ⟨n', hn', C'', h'⟩ := ih hrest (a := a) (b := y) (by simp [hab, ha])
            (by simp [hby.symm])
          refine ⟨0 + n', by omega, C'', .cons (.hit (hrb ▸ Finset.mem_insert_self b F)) ?_⟩
          rwa [insert_eq_insert_erase hyF]
        · -- a miss on both sides, both evicting `y`
          obtain ⟨n', hn', C'', h'⟩ := ih hrest (a := a) (b := b) (by simp [Ne.symm hra, ha])
            (by simp [Ne.symm hrb, hb])
          refine ⟨1 + n', by omega, C'',
            .cons (.miss y ?_ (Finset.mem_insert_of_mem hyF) trivial) ?_⟩
          · simp [hrb, hrF]
          · rwa [insert_erase_insert hby]

/-- A run from a cache holding `z` is matched, with no more misses, by a run
from the cache holding `x` in its place, when `x` is requested no later than
`z`: the new run copies the other's choices, evicting `x` where the other
evicts `z`, until the other fetches `x` back.  Induction on the requests. -/
theorem Serves.advance {i n : Nat} {x z : β} {F C' : Finset β} {rs : List β}
    (h : Serves anyVictim i (insert z F) rs C' n) (hx : x ∉ F) (hz : z ∉ F)
    (hxz : rs.idxOf x ≤ rs.idxOf z) :
    ∃ n' ≤ n, ∃ C'', Serves anyVictim i (insert x F) rs C'' n' := by
  induction rs generalizing i x z F C' n with
  | nil =>
    cases h
    exact ⟨0, Nat.zero_le _, _, .nil _ _⟩
  | cons r rs ih =>
    by_cases hxz' : x = z
    · rw [hxz']
      exact ⟨n, le_rfl, C', h⟩
    cases h with
    | cons hstep hrest =>
    rename_i C₁ δ n₁
    cases hstep with
    | hit hr =>
      rcases Finset.mem_insert.mp hr with hrz | hrF
      · -- `z` is requested now, so `x`, requested no later, would be `z`
        rw [hrz, List.idxOf_cons_self, List.idxOf_cons_ne _ (Ne.symm hxz')] at hxz
        omega
      · have hrx : r ≠ x := fun h => hx (h ▸ hrF)
        have hrz : r ≠ z := fun h => hz (h ▸ hrF)
        rw [List.idxOf_cons_ne _ hrx, List.idxOf_cons_ne _ hrz] at hxz
        obtain ⟨n', hn', C'', h'⟩ := ih hrest hx hz (Nat.succ_le_succ_iff.mp hxz)
        exact ⟨0 + n', by omega, C'', .cons (.hit (Finset.mem_insert_of_mem hrF)) h'⟩
    | miss y hr hy _ =>
      simp only [Finset.mem_insert, not_or] at hr
      obtain ⟨hrz, hrF⟩ := hr
      by_cases hrx : r = x
      · -- the request is `x`, a hit here
        rcases Finset.mem_insert.mp hy with hyz | hyF
        · rw [hyz, Finset.erase_insert hz, hrx] at hrest
          exact ⟨0 + n₁, by omega, C', .cons (.hit (hrx ▸ Finset.mem_insert_self x F)) hrest⟩
        · -- the other run now holds `z` where this one holds `y`
          have hzy : z ≠ y := fun h => hz (h ▸ hyF)
          have hxy : x ≠ y := fun h => hx (h ▸ hyF)
          rw [insert_erase_insert hzy, hrx] at hrest
          obtain ⟨n', hn', C'', h'⟩ := hrest.trade (b := y) (by simp [Ne.symm hxz', hz])
            (by simp [hxy.symm])
          refine ⟨0 + n', by omega, C'', .cons (.hit (hrx ▸ Finset.mem_insert_self x F)) ?_⟩
          rwa [insert_eq_insert_erase hyF]
      · -- a miss on both sides
        have hnew : r ∉ insert x F := by simp [hrx, hrF]
        rcases Finset.mem_insert.mp hy with hyz | hyF
        · -- the other run evicts `z`, this one `x`: the caches agree from here on
          rw [hyz, Finset.erase_insert hz, ← Finset.erase_insert hx] at hrest
          exact ⟨1 + n₁, le_rfl, C', .cons (.miss x hnew (Finset.mem_insert_self x F) trivial) hrest⟩
        · -- both evict `y`, and `x` is still requested no later than `z`
          have hzy : z ≠ y := fun h => hz (h ▸ hyF)
          have hxy : x ≠ y := fun h => hx (h ▸ hyF)
          rw [insert_erase_insert hzy] at hrest
          rw [List.idxOf_cons_ne _ hrx, List.idxOf_cons_ne _ hrz] at hxz
          obtain ⟨n', hn', C'', h'⟩ := ih hrest (x := x) (by simp [Ne.symm hrx, hx])
            (by simp [Ne.symm hrz, hz]) (Nat.succ_le_succ_iff.mp hxz)
          refine ⟨1 + n', by omega, C'',
            .cons (.miss y hnew (Finset.mem_insert_of_mem hyF) trivial) ?_⟩
          rwa [insert_erase_insert hxy]

/-! ## The farthest victim is optimal -/

/-- Evicting what is requested farthest ahead misses least: over requests
that follow `t` from time `i`, a run whose every victim is farthest in `t`
misses no more often than any run from the same cache.  Induction on the
requests; where the victims differ, `Serves.advance` moves the other run to
the optimal cache. -/
theorem farthest_fewest_misses (t : List β) {i m n : Nat} {C C₁ C₂ : Finset β} {rs : List β}
    (hrs : rs <+: t.drop i) (hf : Serves (FarthestIn t) i C rs C₁ m)
    (ha : Serves anyVictim i C rs C₂ n) : m ≤ n := by
  induction rs generalizing i C C₁ C₂ m n with
  | nil =>
    cases hf
    exact Nat.zero_le _
  | cons r rs ih =>
    obtain ⟨hdrop, hrs'⟩ := drop_of_prefix hrs
    cases hf with
    | cons hstep hfrest =>
    cases ha with
    | cons hstep' harest =>
    cases hstep with
    | hit hr =>
      cases hstep' with
      | hit _ =>
        have := ih hrs' hfrest harest
        omega
      | miss _ hr' _ _ => exact absurd hr hr'
    | miss z hr hz hfar =>
      cases hstep' with
      | hit hr' => exact absurd hr' hr
      | miss x _ hx _ =>
        by_cases hxz : x = z
        · rw [hxz] at harest
          have := ih hrs' hfrest harest
          omega
        · -- the other run dropped `x` and kept `z`; the optimal run did the opposite
          have hrx : r ≠ x := fun h => hr (h ▸ hx)
          have hrz : r ≠ z := fun h => hr (h ▸ hz)
          have hzx : z ∈ C.erase x := Finset.mem_erase.mpr ⟨Ne.symm hxz, hz⟩
          have hxz' : x ∈ C.erase z := Finset.mem_erase.mpr ⟨hxz, hx⟩
          have hother : insert r (C.erase x) = insert z (insert r ((C.erase x).erase z)) := by
            rw [Finset.insert_comm z r, Finset.insert_erase hzx]
          have hopt : insert r (C.erase z) = insert x (insert r ((C.erase x).erase z)) := by
            rw [Finset.insert_comm x r, Finset.erase_right_comm, Finset.insert_erase hxz']
          have hsooner : rs.idxOf x ≤ rs.idxOf z := by
            have := hfar x hx
            rw [hdrop, List.idxOf_cons_ne _ hrx, List.idxOf_cons_ne _ hrz] at this
            exact idxOf_le_of_prefix hrs' (Nat.succ_le_succ_iff.mp this)
          rw [hother] at harest
          obtain ⟨n', hn', C'', h'⟩ := harest.advance (x := x) (by simp [Ne.symm hrx])
            (by simp [Ne.symm hrz]) hsooner
          rw [hopt] at hfrest
          have := ih hrs' hfrest h'
          omega

end Cache

end DemandPaging
