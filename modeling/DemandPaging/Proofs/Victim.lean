import DemandPaging.Memory.Replacement
import DemandPaging.Proofs.Storage

/-!
# Victim selection stays inside the core map

What the pager needs of a replacement policy, for every policy state that
fits the core map (`Policy.Fits`):

* a victim, when one is chosen, is a frame of the core map
  (`selectVictim_lt`), and one is always chosen when every owner names a page
  of the table (`selectVictim_ok`);
* the policy still fits afterwards (`selectVictim_fits`);
* the page table changes only in referenced bits
  (`selectVictim_unreferenced`).

The clock sweep is the only part with a loop; its facts are proved by
induction on the fuel, one pass a step.
-/

namespace DemandPaging

/-- A page entry with its referenced bit cleared: what the replacement
policies may change of an entry is exactly what this forgets. -/
def PageEntry.unreferenced (e : PageEntry) : PageEntry := { e with referenced := false }

namespace Policy

/-- The policy's cursor or hand points at one of `n` frames, and it counts
`n` of them. -/
def Fits (n : Nat) : Policy → Prop
  | fifo count cursor => count = n ∧ 0 ≤ cursor ∧ cursor < n
  | clock count hand => count = n ∧ 0 ≤ hand ∧ hand < n
  | optimal _ _ => True

theorem observe_fits {p : Policy} {n : Nat} (h : p.Fits n) : p.observe.Fits n := by
  cases p <;> exact h

/-- Every owner in the core map names a page of the table, at an index the
table can be read at. -/
def OwnersIn (frames : CoreMap) (pages : PageTable) : Prop :=
  ∀ (f : Nat) (fe : FrameEntry) (o : Int), frames[f]? = some fe → fe.owner = some o →
    ∃ v : Nat, o = v ∧ v < pages.size ∧ (v : Int) ≤ maxLength

/-! ## The clock sweep -/

section Sweep

variable {frames : CoreMap}

theorem sweep_unreferenced (count : Int) (fuel : Nat) :
    ∀ {hand : Int} {pages : PageTable},
      (sweep frames count fuel hand pages).2.2.map PageEntry.unreferenced =
        pages.map PageEntry.unreferenced := by
  induction fuel with
  | zero => intro hand pages; rfl
  | succ fuel ih =>
    intro hand pages
    simp only [sweep]
    -- every exit but the one that clears a bit hands the table back unchanged
    split
    · rfl
    · split
      · rfl
      · split
        · rfl
        · split
          · rfl
          · split
            · rw [ih]
              exact Seq.map_update_of_comp fun _ => rfl
            · rfl

/-- The hand stays on a frame, and so does the victim. -/
theorem sweep_lt {n : Nat} (hn : 0 < n) (fuel : Nat) :
    ∀ {hand : Int} {pages : PageTable}, 0 ≤ hand → hand < n →
      (0 ≤ (sweep frames n fuel hand pages).2.1 ∧ (sweep frames n fuel hand pages).2.1 < n) ∧
      ∀ f, (sweep frames n fuel hand pages).1 = .ok f → 0 ≤ f ∧ f < n := by
  induction fuel with
  | zero =>
    intro hand pages h0 h1
    exact ⟨⟨h0, h1⟩, fun f hf => by cases hf; exact ⟨h0, h1⟩⟩
  | succ fuel ih =>
    intro hand pages h0 h1
    have hnext : 0 ≤ Int.fmod (hand + 1) n ∧ Int.fmod (hand + 1) n < n :=
      ⟨Int.fmod_nonneg_of_pos _ (by omega), Int.fmod_lt_of_pos _ (by omega)⟩
    simp only [sweep, show (n : Int) ≠ 0 by omega, if_false]
    split
    · exact ⟨hnext, fun f hf => by cases hf⟩
    · split
      · exact ⟨hnext, fun f hf => by cases hf; exact ⟨h0, h1⟩⟩
      · split
        · exact ⟨hnext, fun f hf => by cases hf⟩
        · split
          · exact ih hnext.1 hnext.2
          · exact ⟨hnext, fun f hf => by cases hf; exact ⟨h0, h1⟩⟩

/-- Over a core map whose owners all name readable pages, the sweep never
fails: it reads only frames under the hand and the pages they name. -/
theorem sweep_ok {n : Nat} (hsize : frames.size = n) (hfit : (n : Int) ≤ maxLength) (fuel : Nat) :
    ∀ {hand : Int} {pages : PageTable}, 0 ≤ hand → hand < n → OwnersIn frames pages →
      ∃ f, (sweep frames n fuel hand pages).1 = .ok f := by
  induction fuel with
  | zero => intro hand pages _ _ _; exact ⟨hand, rfl⟩
  | succ fuel ih =>
    intro hand pages h0 h1 howners
    obtain ⟨k, rfl⟩ : ∃ k : Nat, hand = k := ⟨hand.toNat, by omega⟩
    have hk : k < frames.size := by omega
    have hread : Seq.read frames k = .ok frames[k] :=
      Seq.read_of_getElem? (Array.getElem?_eq_getElem hk) (by omega)
    simp only [sweep, show (n : Int) ≠ 0 by omega, if_false, hread]
    cases howner : frames[k].owner with
    | none => exact ⟨k, rfl⟩
    | some o =>
      obtain ⟨v, rfl, hv, hvfit⟩ := howners k _ o (Array.getElem?_eq_getElem hk) howner
      have hpage : Seq.read pages v = .ok pages[v] :=
        Seq.read_of_getElem? (Array.getElem?_eq_getElem hv) hvfit
      simp only [hpage]
      split
      · -- the bit is cleared and the sweep goes on over a table of the same size
        have hnext : 0 ≤ Int.fmod (k + 1) n ∧ Int.fmod (k + 1) n < n :=
          ⟨Int.fmod_nonneg_of_pos _ (by omega), Int.fmod_lt_of_pos _ (by omega)⟩
        refine ih hnext.1 hnext.2 fun f fe o hf ho => ?_
        obtain ⟨w, hw, hwl, hwf⟩ := howners f fe o hf ho
        exact ⟨w, hw, by rw [Seq.size_update]; exact hwl, hwf⟩
      · exact ⟨k, rfl⟩

end Sweep

/-- The optimal policy's scan returns the victim it started with or one of
the frames it scanned. -/
theorem farthest_lt (idx : TraceIndex) (start : Nat) (l : List FrameEntry) :
    ∀ (f victim : Nat) (best : Int), farthest idx start l f victim best = victim ∨
      (f ≤ farthest idx start l f victim best ∧ farthest idx start l f victim best < f + l.length) := by
  induction l with
  | nil => intro f victim best; exact .inl rfl
  | cons e rest ih =>
    intro f victim best
    simp only [farthest, List.length_cons]
    split
    · exact .inr ⟨Nat.le_refl f, by omega⟩
    · next o _ =>
      split
      · rcases ih (f + 1) f (idx.distance o start) with h | ⟨h₁, h₂⟩
        · exact .inr ⟨by omega, by omega⟩
        · exact .inr ⟨by omega, by omega⟩
      · rcases ih (f + 1) victim best with h | ⟨h₁, h₂⟩
        · exact .inl h
        · exact .inr ⟨by omega, by omega⟩

/-! ## Choosing a victim -/

section Select

variable {p : Policy} {frames : CoreMap} {pages : PageTable}

theorem selectVictim_clock (count hand : Int) :
    (clock count hand).selectVictim frames pages =
      ((sweep frames count (referencedCount pages + 1) hand pages).1,
        clock count (sweep frames count (referencedCount pages + 1) hand pages).2.1,
        (sweep frames count (referencedCount pages + 1) hand pages).2.2) := rfl

theorem selectVictim_fits (h : p.Fits frames.size) (hF : 0 < frames.size) :
    (p.selectVictim frames pages).2.1.Fits frames.size := by
  cases p with
  | fifo count cursor =>
    obtain ⟨rfl, h0, h1⟩ := h
    simp only [selectVictim, show (frames.size : Int) ≠ 0 by omega, if_false]
    exact ⟨rfl, Int.fmod_nonneg_of_pos _ (by omega), Int.fmod_lt_of_pos _ (by omega)⟩
  | clock count hand =>
    obtain ⟨rfl, h0, h1⟩ := h
    rw [selectVictim_clock]
    exact ⟨rfl, (sweep_lt hF _ h0 h1).1⟩
  | optimal idx position => trivial

theorem selectVictim_unreferenced :
    (p.selectVictim frames pages).2.2.map PageEntry.unreferenced = pages.map PageEntry.unreferenced := by
  cases p with
  | fifo count cursor =>
    simp only [selectVictim]
    split <;> rfl
  | clock count hand =>
    rw [selectVictim_clock]
    exact sweep_unreferenced _ _
  | optimal idx position => rfl

theorem selectVictim_lt (h : p.Fits frames.size) (hF : 0 < frames.size) {f : Int}
    (hf : (p.selectVictim frames pages).1 = .ok f) : 0 ≤ f ∧ f < frames.size := by
  cases p with
  | fifo count cursor =>
    obtain ⟨rfl, h0, h1⟩ := h
    simp only [selectVictim, show (frames.size : Int) ≠ 0 by omega, if_false] at hf
    cases hf
    exact ⟨h0, h1⟩
  | clock count hand =>
    obtain ⟨rfl, h0, h1⟩ := h
    rw [selectVictim_clock] at hf
    exact (sweep_lt hF _ h0 h1).2 f hf
  | optimal idx position =>
    simp only [selectVictim] at hf
    cases hf
    have hlen : frames.toList.length = frames.size := Array.length_toList
    rcases farthest_lt idx (position - 1) frames.toList 0 0 (-1) with h' | ⟨-, h'⟩
    · rw [h']; omega
    · omega

theorem selectVictim_ok (h : p.Fits frames.size) (hfit : (frames.size : Int) ≤ maxLength)
    (howners : OwnersIn frames pages) : ∃ f, (p.selectVictim frames pages).1 = .ok f := by
  cases p with
  | fifo count cursor =>
    obtain ⟨rfl, h0, h1⟩ := h
    simp only [selectVictim, show (frames.size : Int) ≠ 0 by omega, if_false]
    exact ⟨cursor, rfl⟩
  | clock count hand =>
    obtain ⟨rfl, h0, h1⟩ := h
    rw [selectVictim_clock]
    exact sweep_ok rfl hfit _ h0 h1 howners
  | optimal idx position => exact ⟨_, rfl⟩

end Select

end Policy

end DemandPaging
