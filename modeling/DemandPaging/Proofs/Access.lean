import DemandPaging.Proofs.Eviction
import DemandPaging.Proofs.Lockstep

/-!
# Reads and writes through the pager

Between two accesses a board is `Consistent`: sound with no hole, and with the
frames handed out in step with the faults taken.  This file follows one access
through `translate` and shows that it keeps consistency and every word a
program sees, `Board.contents`:

* `translate_spec`: an access either gives a RAM word that `Holds` the
  address, its page resident (and dirty on a write), or fails as `Refuses`
  lists: outside the address space, at a page index too large to use, or on a
  full swap space while some page has never been written out;
* `readWord_spec`: a read gives the word the view shows;
* `writeWord_spec`: a write changes the view at its address alone, to the
  stored word, and a failed write changes no word.

The view is a flat array of words, zero where nothing was written: these three
statements are what makes the pager a refinement of it, whatever frames the
policy picks.

At the end the invariant is packaged for the machine: `Sane g` is consistency
at geometry `g`, kept by every read, write and program load, whose faults are
`Refused`.
-/

namespace DemandPaging

/-! ## Addresses, pages and frames -/

/-- Floor division by a positive page size splits a non-negative address as
`contents` splits it on naturals. -/
theorem fdiv_natCast {m : Nat} {P : Int} (hP : 0 < P) :
    (m : Int).fdiv P = ((m / P.toNat : Nat) : Int) ∧ (m : Int).fmod P = ((m % P.toNat : Nat) : Int) := by
  obtain ⟨k, rfl⟩ := Int.eq_ofNat_of_zero_le (Int.le_of_lt hP)
  rw [Int.fdiv_eq_ediv_of_nonneg _ (Int.le_of_lt hP), Int.fmod_eq_emod_of_nonneg _ (Int.le_of_lt hP),
    Int.toNat_natCast]
  exact ⟨Int.ofNat_ediv_ofNat, Int.ofNat_mod_ofNat m k⟩

/-- The page of an address lies in a table of `n` pages exactly when the
address lies in the `n` pages' words. -/
theorem fdiv_mem_iff {a P : Int} {n : Nat} (hP : 0 < P) :
    (0 ≤ a.fdiv P ∧ a.fdiv P < n) ↔ (0 ≤ a ∧ a < n * P) := by
  rw [Int.fdiv_eq_ediv_of_nonneg _ (Int.le_of_lt hP), Int.ediv_nonneg_iff_of_pos hP,
    Int.ediv_lt_iff_lt_mul hP]

/-- A word of RAM lies in one frame, at one offset. -/
theorem frame_offset_inj {l l' o o' p : Nat} (ho : o < p) (ho' : o' < p)
    (h : l * p + o = l' * p + o') : l = l' ∧ o = o' := by
  by_cases hl : l = l'
  · subst hl
    omega
  · exact absurd ⟨by omega, by omega⟩ (frame_disjoint hl ho)

namespace Board

/-- A non-negative address splits into page and offset as a natural number
splits by the words of a page. -/
theorem Shape.fdiv_fmod_natCast {b : Board} (h : b.Shape) (m : Nat) :
    (m : Int).fdiv b.geometry.pageSize = ((m / b.pageWords : Nat) : Int) ∧
      (m : Int).fmod b.geometry.pageSize = ((m % b.pageWords : Nat) : Int) :=
  fdiv_natCast h.pageSize_pos

/-- The invariant between two accesses: sound, with no hole, and the frames
handed out in step with the faults taken. -/
structure Consistent (b : Board) : Prop where
  sound : b.Sound none
  counted : b.Counted

variable {b b' : Board}

/-- Consistency reads neither the access counter, the recording, the log, the
interrupts nor the policy's state beyond its fit. -/
theorem Consistent.congr (h : b.Consistent) (hg : b'.geometry = b.geometry) (hr : b'.ram = b.ram)
    (hs : b'.swap = b.swap) (ht : b'.table = b.table) (hf : b'.frames = b.frames)
    (hst : b'.stats.faults = b.stats.faults ∧ b'.stats.diskWrites = b.stats.diskWrites)
    (hfr : b'.fresh = b.fresh) (hp : b'.policy.Fits b.frames.size) : b'.Consistent := by
  refine ⟨h.sound.congr hg hr hs ht hf hst.2 hp (h.sound.residency.congr ht hf hfr), ?_⟩
  have hc := h.counted
  unfold Counted at hc ⊢
  rw [hfr, hf, hst.1]
  exact hc

/-- The log is no part of consistency. -/
theorem Consistent.log (h : b.Consistent) (l : Log) : ({ b with log := l } : Board).Consistent :=
  h.congr rfl rfl rfl rfl rfl ⟨rfl, rfl⟩ rfl h.sound.shape.policy_fits

/-- What an access keeps from the board `b` it starts on to the board `b'` it
leaves, answered or refused: consistency, the geometry and the interrupts. -/
structure Kept (b b' : Board) : Prop where
  consistent : b'.Consistent
  geometry : b'.geometry = b.geometry
  interrupts : b'.interrupts = b.interrupts

theorem Kept.refl (h : b.Consistent) : b.Kept b := ⟨h, rfl, rfl⟩

theorem Kept.trans {b'' : Board} (h₁ : b.Kept b') (h₂ : b'.Kept b'') : b.Kept b'' :=
  ⟨h₂.consistent, h₂.geometry.trans h₁.geometry, h₂.interrupts.trans h₁.interrupts⟩

theorem Kept.log (h : b.Kept b') (l : Log) : b.Kept { b' with log := l } :=
  ⟨h.consistent.log l, h.geometry, h.interrupts⟩

/-- An access keeps the number of pages, which the geometry fixes. -/
theorem Kept.table_size (hk : b.Kept b') (h : b.Consistent) : b'.table.size = b.table.size := by
  rw [hk.consistent.sound.shape.table_size, hk.geometry, ← h.sound.shape.table_size]

/-! ## What the invariant reads of an entry -/

/-- A page's slot is read off its residence and location. -/
theorem slotOf_congr {e e' : PageEntry} (hr : e'.resident = e.resident)
    (hl : e'.location = e.location) : b.slotOf e' = b.slotOf e := by
  simp only [slotOf, hr, hl]

/-- A page's backing store is read off its residence, location and disk flag. -/
theorem backing_congr {e e' : PageEntry} (hr : e'.resident = e.resident)
    (hl : e'.location = e.location) (hd : e'.onDisk = e.onDisk) : b.backing e' = b.backing e := by
  funext o
  simp only [backing, hd, slotOf_congr hr hl]

/-- The slots read a board only through its swap space, table, core map and
disk writes. -/
theorem Slots.congr (h : b.Slots) (hs : b'.swap = b.swap) (ht : b'.table = b.table)
    (hf : b'.frames = b.frames) (hw : b'.stats.diskWrites = b.stats.diskWrites) : b'.Slots := by
  have hslot : b'.slotOf = b.slotOf := funext fun e => by simp only [slotOf, hf]
  obtain ⟨l₁, l₂, l₃, l₄, l₅, l₆⟩ := h
  refine ⟨?_, ?_, ?_, ?_, ?_, ?_⟩
  all_goals simp only [hs, ht, hw, hslot]
  all_goals assumption

/-! ## The word that holds an address -/

/-- Word `p` of RAM holds address `a`: the address lies in the address space,
its page is resident, dirty if `dirty`, and `p` is the address's word in the
page's frame. -/
def Holds (b : Board) (a p : Int) (dirty : Bool) : Prop :=
  0 ≤ a ∧ a < b.table.size * b.geometry.pageSize ∧
    ∃ e, b.table[a.toNat / b.pageWords]? = some e ∧ e.resident = true ∧ (dirty → e.dirty = true) ∧
      p = ((e.location.toNat * b.pageWords + a.toNat % b.pageWords : Nat) : Int)

/-- The faults an access to address `a` can end with, judged on the board it
leaves. -/
inductive Refuses (b : Board) (a : Int) : Fault → Prop
  /-- The address lies outside the address space. -/
  | beyond : ¬ (0 ≤ a ∧ a < b.table.size * b.geometry.pageSize) →
      Refuses b a (.addressBeyondSpace a ((b.table.size : Int) - 1))
  /-- The address's page is past the largest index a sequence can have. -/
  | overflow : 0 ≤ a ∧ a < b.table.size * b.geometry.pageSize →
      maxLength < a / b.geometry.pageSize → Refuses b a .indexOverflow
  /-- A fault needed a swap slot and every slot is taken, though some page
  has never been written out. -/
  | swapFull : 0 ≤ a ∧ a < b.table.size * b.geometry.pageSize →
      b.swap.capacity ≤ b.swap.used → b.swap.used < b.table.size →
      Refuses b a (.swapFull b.swap.capacity)

section Holds

variable {a p : Int} {d : Bool}

/-- The word that holds an address is the address's word in the view. -/
theorem Holds.ramWord (hh : b.Holds a p d) : b.ramWord p.toNat = b.contents a := by
  obtain ⟨ha, hlt, e, he, hr, -, hp⟩ := hh
  unfold contents pageWord
  rw [if_pos ⟨ha, hlt⟩, he, hp, Int.toNat_natCast]
  simp only [hr, if_true]

/-- The word that holds an address is a word of RAM, at an index every
sequence operation accepts. -/
theorem Holds.lt (h : b.Sound none) (hh : b.Holds a p d) :
    p = (p.toNat : Int) ∧ p.toNat < b.ram.words.size ∧ (p.toNat : Int) ≤ maxLength := by
  obtain ⟨-, -, e, he, hr, -, hp⟩ := hh
  obtain ⟨f, hf, hflt, -⟩ := h.residency.frame he hr
  have ho := Nat.mod_lt (Int.toNat a) h.shape.pageWords_pos
  have hk := h.shape.frame_end_le hflt
  rw [Nat.add_mul, Nat.one_mul] at hk
  have hfit := h.shape.ram_fits
  rw [← h.shape.ram_size] at hfit
  rw [hp, hf, Int.toNat_natCast, Int.toNat_natCast]
  refine ⟨rfl, by omega, by omega⟩

/-- A word in the frame of a resident page is the word that holds `a` only
when the page is `a`'s page and the offset is `a`'s. -/
theorem Holds.index_eq (h : b.Sound none) (hh : b.Holds a p d) {w o : Nat} {ew : PageEntry}
    (hw : b.table[w]? = some ew) (hr : ew.resident = true) (ho : o < b.pageWords)
    (heq : ew.location.toNat * b.pageWords + o = p.toNat) :
    w = a.toNat / b.pageWords ∧ o = a.toNat % b.pageWords := by
  obtain ⟨-, -, e, he, hre, -, hp⟩ := hh
  rw [hp, Int.toNat_natCast] at heq
  obtain ⟨hl, hoff⟩ := frame_offset_inj ho (Nat.mod_lt _ h.shape.pageWords_pos) heq
  obtain ⟨f, hf, -⟩ := h.residency.frame hw hr
  obtain ⟨f', hf', -⟩ := h.residency.frame he hre
  rw [hf, hf', Int.toNat_natCast, Int.toNat_natCast] at hl
  exact ⟨h.residency.eq_of_location hw he hr hre (by rw [hf, hf', hl]), hoff⟩

end Holds

/-! ## One access -/

/-- Marking a resident page referenced, and dirty on a write, keeps the
invariant and every word a program sees: the only bit the invariant reads that
changes is the dirty bit, and it only rises, on a page in RAM. -/
theorem Sound.mark {v : Nat} {e : PageEntry} (h : b.Sound none) (hv : b.table[v]? = some e)
    (hr : e.resident = true) (write : Bool) :
    let b' : Board := { b with
      pages := Seq.update b.pages v fun e => { e with referenced := true, dirty := e.dirty || write } }
    b'.Sound none ∧ b'.contents = b.contents := by
  intro b'
  have ht : b'.table = b.table.modify v (fun e => { e with dirty := e.dirty || write }) :=
    map_update_unreferenced fun _ => rfl
  have hentry : ∀ x, b'.table[x]? =
      if v = x then (b.table[x]?).map (fun e => { e with dirty := e.dirty || write }) else b.table[x]? := by
    intro x
    rw [ht, Array.getElem?_modify]
  -- every entry after is one before, alike in all but a dirty bit that rose
  have hback : ∀ (x : Nat) (e' : PageEntry), b'.table[x]? = some e' → ∃ e₀ : PageEntry,
      b.table[x]? = some e₀ ∧
      e'.resident = e₀.resident ∧ e'.location = e₀.location ∧ e'.onDisk = e₀.onDisk ∧
      (e'.dirty = false → e₀.dirty = false) ∧ (e₀.resident = false → e' = e₀) := by
    intro x e' hx
    rw [hentry] at hx
    split at hx
    · rename_i hvx
      subst hvx
      rw [hv] at hx
      cases hx
      refine ⟨e, hv, rfl, rfl, rfl, fun hd => ?_, fun hr' => ?_⟩
      · simp only [Bool.or_eq_false_iff] at hd
        exact hd.1
      · rw [hr] at hr'
        cases hr'
    · exact ⟨e', hx, rfl, rfl, rfl, id, fun _ => rfl⟩
  have hslot : b'.slotOf = b.slotOf := rfl
  have hbacking : b'.backing = b.backing := rfl
  have hres : b'.Residency none := by
    refine h.residency.transfer rfl (fun _ => rfl) (fun x => ?_) rfl
    rw [hentry]
    split
    · cases b.table[x]? <;> rfl
    · rfl
  refine ⟨⟨?_, hres, ⟨?_, ?_, ?_, ?_, ?_, ?_⟩, ⟨?_⟩⟩, ?_⟩
  · exact h.shape.transfer rfl rfl rfl rfl rfl (fun x hx => h.shape.slot_size x hx) rfl
      (by rw [ht, Array.size_modify]) h.shape.policy_fits
  · rw [ht]
    exact h.slots.used_eq.trans
      (countP_modify_of_eq (g := fun e : PageEntry => { e with dirty := e.dirty || write }) fun _ => rfl).symm
  · intro x e' hx hd
    obtain ⟨e₀, hx₀, hr₀, hl₀, hd₀, -, -⟩ := hback x e' hx
    rw [hslot, slotOf_congr hr₀ hl₀]
    exact h.slots.bound x e₀ hx₀ (hd₀ ▸ hd)
  · intro x y ex ey hx hy hdx hdy hs
    obtain ⟨ex₀, hx₀, hrx, hlx, hdx₀, -, -⟩ := hback x ex hx
    obtain ⟨ey₀, hy₀, hry, hly, hdy₀, -, -⟩ := hback y ey hy
    rw [hslot, slotOf_congr hrx hlx, slotOf_congr hry hly] at hs
    exact h.slots.distinct x y ex₀ ey₀ hx₀ hy₀ (hdx₀ ▸ hdx) (hdy₀ ▸ hdy) hs
  · intro x e' hx hr' hd
    obtain ⟨e₀, hx₀, hr₀, hl₀, hd₀, -, -⟩ := hback x e' hx
    rw [hslot, slotOf_congr hr₀ hl₀]
    exact h.slots.unbound x e₀ hx₀ (hr₀ ▸ hr') (hd₀ ▸ hd)
  · intro x e' hx hr'
    obtain ⟨e₀, hx₀, hr₀, -, -, -, hsame⟩ := hback x e' hx
    rw [hsame (hr₀ ▸ hr')]
    exact h.slots.away x e₀ hx₀ (hr₀ ▸ hr')
  · exact h.slots.used_le
  · intro x e' hx hr' hd
    obtain ⟨e₀, hx₀, hr₀, hl₀, hd₀, hdirty, -⟩ := hback x e' hx
    have hsaved := h.backed.saved x e₀ hx₀ (hr₀ ▸ hr') (hdirty hd)
    intro o ho
    rw [hbacking, backing_congr hr₀ hl₀ hd₀, hl₀]
    exact hsaved o ho
  · have hpage : ∀ x o, b'.pageWord x o = b.pageWord x o := by
      intro x o
      unfold pageWord
      rw [hentry]
      by_cases hvx : v = x
      · subst hvx
        rw [if_pos rfl, hv]
        rfl
      · rw [if_neg hvx]
        rfl
    have hsize : b'.table.size = b.table.size := by rw [ht, Array.size_modify]
    funext a
    simp only [contents, hpage, hsize]
    rfl

/-- Storing a word in the word that holds `a`, on a dirty page, keeps the
invariant and changes the view at `a` alone: no clean page shares the frame,
and no other address shares the word. -/
theorem Sound.store {a p : Int} (h : b.Sound none) (hh : b.Holds a p true) (x : Int)
    (hi : p.toNat < b.ram.words.size) :
    let b' : Board := { b with ram := { b.ram with words := b.ram.words.set p.toNat x hi } }
    b'.Sound none ∧ b'.contents = fun c => if c = a then x else b.contents c := by
  intro b'
  have hram : ∀ j, b'.ramWord j = if p.toNat = j then x else b.ramWord j := by
    intro j
    simp only [ramWord, b', Array.getElem?_set]
    split <;> rfl
  have hP := h.shape.pageWords_pos
  obtain ⟨ha, hlt, e, he, hre, hd, hp⟩ := id hh
  have hsame : b'.backing = b.backing := rfl
  -- the words a program sees move only at `a`'s page and offset
  have hpw : ∀ w o, o < b.pageWords → b'.pageWord w o =
      if w = a.toNat / b.pageWords ∧ o = a.toNat % b.pageWords then x else b.pageWord w o := by
    intro w o ho
    unfold pageWord
    -- only the RAM changed: the table, the page size and the backing store are `b`'s
    rw [show b'.table = b.table from rfl, show b'.pageWords = b.pageWords from rfl, hsame]
    cases hw : b.table[w]? with
    | none =>
      have hne : w ≠ a.toNat / b.pageWords := fun hwa => by rw [hwa, he] at hw; cases hw
      simp only [hne, false_and, if_false]
    | some ew =>
      cases hr : ew.resident with
      | false =>
        have hne : w ≠ a.toNat / b.pageWords := fun hwa => by
          rw [hwa, he] at hw
          cases hw
          rw [hre] at hr
          cases hr
        simp only [hr, hne, false_and, if_false, Bool.false_eq_true]
      | true =>
        simp only [hr, if_true, hram]
        by_cases heq : p.toNat = ew.location.toNat * b.pageWords + o
        · obtain ⟨hwa, hoa⟩ := Holds.index_eq h hh hw hr ho heq.symm
          rw [if_pos heq, if_pos (And.intro hwa hoa)]
        · have hne : ¬ (w = a.toNat / b.pageWords ∧ o = a.toNat % b.pageWords) := by
            rintro ⟨rfl, rfl⟩
            rw [he] at hw
            cases hw
            rw [hp, Int.toNat_natCast] at heq
            exact heq rfl
          rw [if_neg heq, if_neg hne]
  refine ⟨⟨?_, h.residency.congr rfl rfl rfl, h.slots.congr rfl rfl rfl rfl, ⟨?_⟩⟩, ?_⟩
  · exact h.shape.transfer rfl rfl (Array.size_set hi) rfl rfl h.shape.slot_size rfl rfl
      h.shape.policy_fits
  · -- a clean resident page is not `a`'s, which is dirty, so its frame kept its words
    intro w ew hw hr hclean o ho
    change b.table[w]? = some ew at hw
    have hne : p.toNat ≠ ew.location.toNat * b.pageWords + o := by
      intro heq
      obtain ⟨rfl, -⟩ := Holds.index_eq h hh hw hr ho heq.symm
      rw [he] at hw
      cases hw
      rw [hd rfl] at hclean
      cases hclean
    show b'.ramWord (ew.location.toNat * b.pageWords + o) = b.backing ew o
    rw [hram, if_neg hne]
    exact h.backed.saved w ew hw hr hclean o ho
  · funext c
    unfold contents
    show (if 0 ≤ c ∧ c < b.table.size * b.geometry.pageSize then
      b'.pageWord (c.toNat / b.pageWords) (c.toNat % b.pageWords) else 0) = _
    split
    · rename_i hc
      rw [hpw _ _ (Nat.mod_lt _ hP)]
      -- an address in the space is its page and offset
      have hiff : (c.toNat / b.pageWords = a.toNat / b.pageWords ∧
          c.toNat % b.pageWords = a.toNat % b.pageWords) ↔ c = a := by
        constructor
        · rintro ⟨h₁, h₂⟩
          have hc' := Nat.div_add_mod c.toNat b.pageWords
          have ha' := Nat.div_add_mod a.toNat b.pageWords
          rw [h₁, h₂] at hc'
          omega
        · rintro rfl
          exact ⟨rfl, rfl⟩
      by_cases hca : c = a
      · rw [if_pos (hiff.mpr hca), if_pos hca]
      · rw [if_neg (fun h' => hca (hiff.mp h')), if_neg hca]
    · rename_i hc
      have hca : c ≠ a := by
        rintro rfl
        exact hc ⟨ha, hlt⟩
      rw [if_neg hca]

/-- A page index past the largest a sequence can have is refused. -/
theorem pageAt_run_overflow {v : Int} (hv : maxLength < v) :
    (pageAt v).run b = .error .indexOverflow b := by
  have hfit : fitsSize v = false := by
    simp only [fitsSize, Bool.and_eq_false_iff, decide_eq_false_iff_not]
    omega
  simp only [pageAt, EStateM.run_bind, EStateM.run_get, Seq.read, hfit, Bool.not_false, if_true]
  rfl

/-- The end of an access to the resident page `v`: mark it, and give the word
at offset `q` of its frame. -/
theorem finish_run {v : Nat} {e : PageEntry} (hv : b.table[v]? = some e)
    (hvfit : (v : Int) ≤ maxLength) (write : Bool) (P q : Int) :
    (do modifyPage (v : Int) fun e => { e with referenced := true, dirty := e.dirty || write }
        let page ← pageAt (v : Int)
        pure (page.location * P + q) : BoardM Int).run b =
      .ok (e.location * P + q) { b with
        pages := Seq.update b.pages v fun e => { e with referenced := true, dirty := e.dirty || write } } := by
  rw [getElem?_table, Option.map_eq_some_iff] at hv
  obtain ⟨page, hpage, rfl⟩ := hv
  have hvlt : v < b.pages.size := (Array.getElem?_eq_some_iff.mp hpage).1
  have hvlt' : v < (Seq.update b.pages v fun e =>
      { e with referenced := true, dirty := e.dirty || write }).size := by
    rw [Seq.size_update]; exact hvlt
  simp only [EStateM.run_bind, modifyPage_run]
  rw [pageAt_run hvlt' hvfit]
  simp only [Seq.update_natCast, Array.getElem_modify_self, Array.getElem_eq_iff.mpr hpage,
    EStateM.run_pure]
  rfl

/-- After the end of an access to the resident page `n` of address `m`, the
board is consistent, shows the same words, and the word returned holds `m`. -/
theorem finish_spec {m n o : Nat} {P : Int} {e : PageEntry} (h : b.Consistent)
    (hn : n = m / b.pageWords) (ho : o = m % b.pageWords) (hP : P = b.geometry.pageSize)
    (hv : b.table[n]? = some e) (hr : e.resident = true)
    (hm : (m : Int) < b.table.size * b.geometry.pageSize) (write : Bool) :
    let b' : Board := { b with
      pages := Seq.update b.pages n fun e => { e with referenced := true, dirty := e.dirty || write } }
    b.Kept b' ∧ b'.contents = b.contents ∧ b'.Holds m (e.location * P + (o : Int)) write := by
  intro b'
  subst hn ho hP
  obtain ⟨hs, hc⟩ := Sound.mark h.sound hv hr write
  have ht : b'.table = b.table.modify (m / b.pageWords) (fun e => { e with dirty := e.dirty || write }) :=
    map_update_unreferenced fun _ => rfl
  obtain ⟨f, hf, -⟩ := h.sound.residency.frame hv hr
  have hPk := h.sound.shape.pageSize_eq
  refine ⟨⟨⟨hs, h.counted⟩, rfl, rfl⟩, hc, Int.natCast_nonneg m, by rw [ht, Array.size_modify]; exact hm,
    { e with dirty := e.dirty || write }, ?_, hr, fun hw => by simp [hw], ?_⟩
  · show b'.table[m / b.pageWords]? = _
    rw [ht, Array.getElem?_modify, if_pos rfl, hv]
    rfl
  · show _ = ((e.location.toNat * b.pageWords + m % b.pageWords : Nat) : Int)
    rw [hf, hPk, Int.toNat_natCast]
    push_cast
    rfl

/-- Translating an address from a consistent board: the access is counted,
then refused outside the address space; otherwise the page is recorded and
shown to the policy, faulted in if it is out of RAM, and marked.  Either way
the board stays consistent and no word a program sees changes. -/
theorem translate_spec (h : b.Consistent) (a : Int) (write : Bool) :
    match (translate a write).run b with
    | .ok p b' => b.Kept b' ∧ b'.contents = b.contents ∧ b'.Holds a p write
    | .error e b' => b.Kept b' ∧ b'.contents = b.contents ∧ b'.Refuses a e := by
  have hP := h.sound.shape.pageSize_pos
  -- the access is counted before anything can fail
  let b₁ : Board := { b with stats.accesses := b.stats.accesses + 1 }
  have h₁ : b.Kept b₁ :=
    ⟨h.congr rfl rfl rfl rfl rfl ⟨rfl, rfl⟩ rfl h.sound.shape.policy_fits, rfl, rfl⟩
  have hc₁ : b₁.contents = b.contents := contents_congr rfl rfl rfl rfl rfl
  simp only [translate, EStateM.run_bind, EStateM.run_modify, EStateM.run_get]
  by_cases hin : 0 ≤ a.fdiv b.geometry.pageSize ∧ a.fdiv b.geometry.pageSize < b.pages.size
  · rw [if_neg (fun hn => hn hin)]
    have hrange := (fdiv_mem_iff hP).mp hin
    obtain ⟨m, rfl⟩ := Int.eq_ofNat_of_zero_le hrange.1
    obtain ⟨hdiv, hmod⟩ := h.sound.shape.fdiv_fmod_natCast m
    rw [hdiv, hmod]
    rw [hdiv] at hin
    -- the page is recorded and shown to the policy
    let b₂ : Board := { b₁ with
      recording := b₁.recording.map (·.push (m / b.pageWords : Nat))
      policy := b₁.policy.observe }
    have h₂ : b.Kept b₂ := ⟨h₁.consistent.congr rfl rfl rfl rfl rfl ⟨rfl, rfl⟩ rfl
      (Policy.observe_fits h₁.consistent.sound.shape.policy_fits), rfl, rfl⟩
    have hc₂ : b₂.contents = b.contents := (contents_congr rfl rfl rfl rfl rfl).trans hc₁
    have hlt : m / b.pageWords < b₂.pages.size := by
      have := hin.2
      exact_mod_cast this
    simp only [EStateM.run_bind, EStateM.run_modify]
    by_cases hfit : ((m / b.pageWords : Nat) : Int) ≤ maxLength
    · rw [pageAt_run hlt hfit]
      dsimp only
      have hv₂ : b₂.table[m / b.pageWords]? = some b₂.pages[m / b.pageWords].unreferenced := by
        rw [getElem?_table, Array.getElem?_eq_getElem hlt]
        rfl
      have hm₂ : (m : Int) < b₂.table.size * b₂.geometry.pageSize := by
        rw [size_table]
        exact hrange.2
      cases hres : b₂.pages[m / b.pageWords].resident with
      | false =>
        -- a fault brings the page in first
        rw [if_pos (show (!false) = true from rfl)]
        rcases handleFault_spec h₂.consistent.sound h₂.consistent.counted hv₂ hres hfit with
          ⟨b₃, hrun₃, hs₃, hcnt₃, hc₃, hg₃, hi₃, e', hv₃, hr₃⟩ |
          ⟨b₃, hrun₃, hs₃, hcnt₃, hc₃, hg₃, hi₃, hcap, hused⟩
        · have h₃ : b₂.Kept b₃ := ⟨⟨hs₃, hcnt₃⟩, hg₃, hi₃⟩
          have hw₃ : b₃.pageWords = b.pageWords := by simp only [pageWords, hg₃]; rfl
          have hsize₃ := h₃.table_size h₂.consistent
          rw [EStateM.run_bind, hrun₃]
          dsimp only
          rw [finish_run hv₃ hfit]
          obtain ⟨h₄, hc₄, hh₄⟩ := finish_spec ⟨hs₃, hcnt₃⟩ (by rw [hw₃]) (by rw [hw₃])
            (by rw [hg₃]) hv₃ hr₃ (by rw [hsize₃, hg₃]; exact hm₂) write
          exact ⟨h₂.trans (h₃.trans h₄), hc₄.trans (hc₃.trans hc₂), hh₄⟩
        · have h₃ : b₂.Kept b₃ := ⟨⟨hs₃, hcnt₃⟩, hg₃, hi₃⟩
          have hsize₃ := h₃.table_size h₂.consistent
          rw [EStateM.run_bind, hrun₃]
          refine ⟨h₂.trans h₃, hc₃.trans hc₂, Refuses.swapFull ⟨Int.natCast_nonneg m, ?_⟩ hcap hused⟩
          rw [hsize₃, hg₃]
          exact hm₂
      | true =>
        rw [if_neg (show ¬ (!true) = true from Bool.false_ne_true)]
        rw [finish_run hv₂ hfit]
        obtain ⟨h₄, hc₄, hh₄⟩ := finish_spec h₂.consistent rfl rfl rfl hv₂ hres hm₂ write
        exact ⟨h₂.trans h₄, hc₄.trans hc₂, hh₄⟩
    · rw [pageAt_run_overflow (by omega)]
      dsimp only
      refine ⟨h₂, hc₂, Refuses.overflow ⟨Int.natCast_nonneg m, ?_⟩ ?_⟩
      · rw [size_table]
        exact hrange.2
      show maxLength < (m : Int) / b.geometry.pageSize
      rw [← Int.fdiv_eq_ediv_of_nonneg _ (Int.le_of_lt hP), hdiv]
      omega
  · rw [if_pos hin]
    simp only [EStateM.run_bind, EStateM.run_throw]
    refine ⟨h₁, hc₁, ?_⟩
    have hout : ¬ (0 ≤ a ∧ a < b₁.table.size * b₁.geometry.pageSize) := by
      rw [size_table]
      exact fun hn => hin ((fdiv_mem_iff hP).mpr hn)
    have := Refuses.beyond hout
    rwa [size_table] at this

/-- A read gives the word the view shows at the address, in the address
space, and changes no word; it fails only as `Refuses` says. -/
theorem readWord_spec (h : b.Consistent) (a : Int) :
    match (readWord a).run b with
    | .ok x b' => b.Kept b' ∧ b'.contents = b.contents ∧
        (0 ≤ a ∧ a < b.table.size * b.geometry.pageSize) ∧ x = b.contents a
    | .error e b' => b.Kept b' ∧ b'.contents = b.contents ∧ b'.Refuses a e := by
  have ht := translate_spec h a false
  simp only [readWord, EStateM.run_bind]
  cases hrun : (translate a false).run b with
  | error e b' =>
    rw [hrun] at ht
    exact ht
  | ok p b' =>
    rw [hrun] at ht
    obtain ⟨h', hc', hh'⟩ := ht
    obtain ⟨hp, hlt, hfit⟩ := hh'.lt h'.consistent.sound
    have hx : b'.ram.words[p.toNat]? = some (b'.ramWord p.toNat) := by
      rw [ramWord, Array.getElem?_eq_getElem hlt]
      rfl
    simp only [EStateM.run_get]
    rw [hp, Ram.read_of_getElem? hx hfit]
    have hsize := h'.table_size h
    obtain ⟨ha, halt, -⟩ := id hh'
    refine ⟨h', hc', ⟨ha, by rw [← hsize, ← h'.geometry]; exact halt⟩, ?_⟩
    rw [← hc', hh'.ramWord]

/-- A write stores the word of the value at the address, in the address
space, and changes no other word; it fails only as `Refuses` says, changing
no word. -/
theorem writeWord_spec (h : b.Consistent) (a v : Int) :
    match (writeWord a v).run b with
    | .ok _ b' => b.Kept b' ∧ b'.contents = (fun c => if c = a then wrapWord v else b.contents c) ∧
        (0 ≤ a ∧ a < b.table.size * b.geometry.pageSize)
    | .error e b' => b.Kept b' ∧ b'.contents = b.contents ∧ b'.Refuses a e := by
  have ht := translate_spec h a true
  simp only [writeWord, EStateM.run_bind]
  cases hrun : (translate a true).run b with
  | error e b' =>
    rw [hrun] at ht
    exact ht
  | ok p b' =>
    rw [hrun] at ht
    obtain ⟨h', hc', hh'⟩ := ht
    obtain ⟨hp, hlt, hfit⟩ := hh'.lt h'.consistent.sound
    simp only [EStateM.run_get]
    rw [hp, Ram.write_of_lt hlt hfit]
    simp only [ofExcept_run_ok, EStateM.run_modify]
    obtain ⟨hs'', hc''⟩ := Sound.store h'.consistent.sound hh' (wrapWord v) hlt
    have hsize := h'.table_size h
    obtain ⟨ha, halt, -⟩ := hh'
    refine ⟨⟨⟨hs'', h'.consistent.counted⟩, h'.geometry, h'.interrupts⟩, ?_,
      ⟨ha, by rw [← hsize, ← h'.geometry]; exact halt⟩⟩
    rw [hc'', hc']

/-! ## The board of a machine -/

/-- The invariant of a machine's board: consistent, at geometry `g`. -/
def Sane (g : Geometry) (b : Board) : Prop := b.Consistent ∧ b.geometry = g

/-- A fault some access can end with on the board it leaves. -/
def Refused (e : Fault) (b : Board) : Prop := ∃ a, b.Refuses a e

section Sane

variable {g : Geometry}

theorem readWord_ends (h : b.Sane g) (a : Int) : Ends (Sane g) Refused ((readWord a).run b) := by
  have hspec := readWord_spec h.1 a
  cases hr : (readWord a).run b with
  | ok x b' =>
    rw [hr] at hspec
    exact ⟨hspec.1.consistent, hspec.1.geometry.trans h.2⟩
  | error e b' =>
    rw [hr] at hspec
    exact ⟨⟨hspec.1.consistent, hspec.1.geometry.trans h.2⟩, a, hspec.2.2⟩

theorem writeWord_ends (h : b.Sane g) (a v : Int) :
    Ends (Sane g) Refused ((writeWord a v).run b) := by
  have hspec := writeWord_spec h.1 a v
  cases hr : (writeWord a v).run b with
  | ok x b' =>
    rw [hr] at hspec
    exact ⟨hspec.1.consistent, hspec.1.geometry.trans h.2⟩
  | error e b' =>
    rw [hr] at hspec
    exact ⟨⟨hspec.1.consistent, hspec.1.geometry.trans h.2⟩, a, hspec.2.2⟩

/-- Storing words one after another keeps the invariant and fails only as a
write does.  Induction on the words. -/
theorem storeWords_ends (start : Int) (ws : List Int) :
    ∀ {b : Board}, b.Sane g → Ends (Sane g) Refused ((storeWords start ws).run b) := by
  induction ws generalizing start with
  | nil =>
    intro b h
    exact Ends.pure h
  | cons w ws ih =>
    intro b h
    exact Ends.bind (writeWord_ends h start w) fun _ _ h' => ih (start + 1) h'

/-- The log is no part of the invariant. -/
theorem Sane.log (h : b.Sane g) (l : Log) : ({ b with log := l } : Board).Sane g :=
  ⟨h.1.log l, h.2⟩

theorem loadProgram_ends (h : b.Sane g) (words : List Int) :
    Ends (Sane g) Refused ((loadProgram words).run b) := by
  refine Ends.bind (storeWords_ends 0 words h) fun _ b' h' => ?_
  exact Ends.bind (Ends.modify (h'.log _)) fun _ _ h'' => Ends.pure h''

end Sane

end Board

end DemandPaging
