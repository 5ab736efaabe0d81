import Mathlib.Data.Finset.Card
import DemandPaging.Memory.Residency
import DemandPaging.Proofs.Reachable

/-!
# The residency check never complains

`residencyViolations` scans the page table and the core map and lists every
way they disagree.  On a board whose agreement `Board.Residency` holds with no
frame being refilled, the scan succeeds and finds nothing:

* no resident page claims a missing frame or one owned by another page,
  because a resident page owns the frame it names (`Residency.located`);
* the scan of owned frames reads every owner without failing, meets each
  owner once, and finds it resident at the frame (`Residency.owned`); the
  scan is an induction over the remaining frames carrying the owners seen so
  far (`ownerViolations_eq_nil`);
* there are no more resident pages than frames, since the resident pages are
  in one-to-one correspondence, by their locations, with the frames below
  `fresh` (`Residency.length_residentPages`).

The last fact also counts the resident pages: with `Board.Counted` their
number is the smaller of the frame count and the faults taken.  Every
reachable machine's board has both invariants (`Reachable.sane`), which gives
`residency_of_reachable`.
-/

namespace DemandPaging

/-! ## The resident pages -/

theorem mem_residentPages {t : PageTable} {v : Nat} :
    v ∈ residentPages t ↔ ∃ e, t[v]? = some e ∧ e.resident = true := by
  unfold residentPages
  rw [List.mem_filter, List.mem_range]
  constructor
  · rintro ⟨hv, hr⟩
    refine ⟨t[v], Array.getElem?_eq_getElem hv, ?_⟩
    simpa [hv] using hr
  · rintro ⟨e, he, hr⟩
    exact ⟨(Array.getElem?_eq_some_iff.mp he).1, by simp [he, hr]⟩

theorem nodup_residentPages (t : PageTable) : (residentPages t).Nodup :=
  List.nodup_range.filter _

/-- Which pages are resident depends only on the resident bits. -/
theorem residentPages_map {t : PageTable} {g : PageEntry → PageEntry}
    (hg : ∀ e, (g e).resident = e.resident) : residentPages (t.map g) = residentPages t := by
  unfold residentPages
  rw [Array.size_map]
  apply List.filter_congr
  intro v _
  rw [Array.getElem?_map]
  cases t[v]? with
  | none => rfl
  | some e => simp [hg]

/-! ## The scan over the owned frames -/

/-- Scanning frames from `f` finds nothing wrong when no owner among them was
seen before, no two of them share an owner, and every owner reads as a page
resident at its frame.  Induction on the frames left, with the owners seen
growing by the owner of each frame passed. -/
theorem ownerViolations_eq_nil {pages : PageTable} (l : List FrameEntry) :
    ∀ (f : Nat) (seen : List Int),
      (∀ fe ∈ l, ∀ o, fe.owner = some o → o ∉ seen) →
      l.Pairwise (fun x y => ∀ o, x.owner = some o → y.owner ≠ some o) →
      (∀ (k : Nat) (hk : k < l.length) o, l[k].owner = some o →
        ∃ page, Seq.read pages o = .ok page ∧ page.resident = true ∧
          page.location = ((f + k : Nat) : Int)) →
      ownerViolations pages l f seen = .ok [] := by
  induction l with
  | nil =>
    intro f seen _ _ _
    rfl
  | cons e rest ih =>
    intro f seen hseen hpair hread
    obtain ⟨hfirst, hpair⟩ := List.pairwise_cons.mp hpair
    -- the frames after the first are read one frame further on
    have hread' : ∀ (k : Nat) (hk : k < rest.length) o, rest[k].owner = some o →
        ∃ page, Seq.read pages o = .ok page ∧ page.resident = true ∧
          page.location = ((f + 1 + k : Nat) : Int) := by
      intro k hk o ho
      have hk' : k + 1 < (e :: rest).length := by simpa using hk
      rw [show f + 1 + k = f + (k + 1) by omega]
      exact hread (k + 1) hk' o ho
    unfold ownerViolations
    cases ho : e.owner with
    | none =>
      exact ih (f + 1) seen (fun fe hfe => hseen fe (.tail _ hfe)) hpair hread'
    | some o =>
      obtain ⟨page, hpage, hres, hloc⟩ := hread 0 (by simp) o ho
      have hnew : o ∉ seen := hseen e (.head _) o ho
      have hlater : ∀ fe ∈ rest, ∀ o', fe.owner = some o' → o' ∉ o :: seen := by
        intro fe hfe o' ho' hmem
        rcases List.mem_cons.mp hmem with rfl | hmem
        · exact hfirst fe hfe o' ho ho'
        · exact hseen fe (.tail _ hfe) o' ho' hmem
      have hrest := ih (f + 1) (o :: seen) hlater hpair hread'
      simp [hpage, hres, hloc, hnew, hrest, bind, Except.bind, pure, Except.pure]

namespace Board

section Residency

variable {b : Board}

/-- Where a page sits, as a frame index: its location, or 0 past the table. -/
def frameIndex (b : Board) (v : Nat) : Nat := ((b.table[v]?.map PageEntry.location).getD 0).toNat

theorem frameIndex_of_getElem? {v : Nat} {e : PageEntry} (he : b.table[v]? = some e) :
    b.frameIndex v = e.location.toNat := by
  simp [frameIndex, he]

theorem residentPages_pages : residentPages b.pages = residentPages b.table :=
  (residentPages_map PageEntry.resident_unreferenced).symm

/-- Without a hole, the owned frames are exactly those below `fresh`. -/
theorem Residency.owned_iff (h : b.Residency none) {f : Nat} {fe : FrameEntry}
    (hfe : b.frames[f]? = some fe) : fe.owner ≠ none ↔ f < b.fresh :=
  h.used_iff f fe hfe (by simp)

/-- A resident page's frame is below `fresh`. -/
theorem Residency.frameIndex_lt (h : b.Residency none) {v : Nat} {e : PageEntry}
    (he : b.table[v]? = some e) (hr : e.resident = true) : b.frameIndex v < b.fresh := by
  obtain ⟨f, hf, -, -, fe, hfe, hown⟩ := h.frame he hr
  have hlt : f < b.fresh := (h.owned_iff hfe).mp (by simp [hown])
  rw [frameIndex_of_getElem? he, hf, Int.toNat_natCast]
  exact hlt

/-- Every frame below `fresh` is the frame of some resident page. -/
theorem Residency.exists_of_lt_fresh (h : b.Residency none) {f : Nat} (hf : f < b.fresh) :
    ∃ v e, b.table[v]? = some e ∧ e.resident = true ∧ b.frameIndex v = f := by
  have hsize : f < b.frames.size := Nat.lt_of_lt_of_le hf h.fresh_le
  have hfe : b.frames[f]? = some b.frames[f] := Array.getElem?_eq_getElem hsize
  obtain ⟨o, ho⟩ := Option.ne_none_iff_exists'.mp ((h.owned_iff hfe).mpr hf)
  obtain ⟨v, -, -, e, he, hr, hl⟩ := h.owned f _ o hfe ho (by simp)
  refine ⟨v, e, he, hr, ?_⟩
  rw [frameIndex_of_getElem? he, hl, Int.toNat_natCast]

/-- The resident pages are as many as the frames below `fresh`: a page's
location matches them one to one. -/
theorem Residency.length_residentPages (h : b.Residency none) :
    (residentPages b.table).length = b.fresh := by
  rw [← List.toFinset_card_of_nodup (nodup_residentPages _), ← Finset.card_range b.fresh]
  apply Finset.card_bij (fun v _ => b.frameIndex v)
  · intro v hv
    obtain ⟨e, he, hr⟩ := mem_residentPages.mp (List.mem_toFinset.mp hv)
    exact Finset.mem_range.mpr (h.frameIndex_lt he hr)
  · intro v hv w hw hvw
    obtain ⟨ev, hev, hrv⟩ := mem_residentPages.mp (List.mem_toFinset.mp hv)
    obtain ⟨ew, hew, hrw⟩ := mem_residentPages.mp (List.mem_toFinset.mp hw)
    obtain ⟨f, hf, -⟩ := h.frame hev hrv
    obtain ⟨f', hf', -⟩ := h.frame hew hrw
    have hloc : ev.location = ew.location := by
      rw [frameIndex_of_getElem? hev, frameIndex_of_getElem? hew, hf, hf'] at hvw
      rw [hf, hf', Int.toNat_natCast, Int.toNat_natCast] at *
      rw [hvw]
    exact h.eq_of_location hev hew hrv hrw hloc
  · intro f hf
    obtain ⟨v, e, he, hr, hv⟩ := h.exists_of_lt_fresh (Finset.mem_range.mp hf)
    exact ⟨v, List.mem_toFinset.mpr (mem_residentPages.mpr ⟨e, he, hr⟩), hv⟩

/-- No resident page claims a frame it does not own. -/
theorem Residency.claims_eq_nil (h : b.Residency none) :
    (residentPages b.pages).filterMap
      (fun v => claimViolation b.frames v ((b.pages[v]?.map PageEntry.location).getD 0)) = [] := by
  apply List.filterMap_eq_nil_iff.mpr
  intro v hv
  rw [residentPages_pages] at hv
  obtain ⟨e, he, hr⟩ := mem_residentPages.mp hv
  obtain ⟨f, hf, hsize, -, fe, hfe, hown⟩ := h.frame he hr
  have hloc : (b.pages[v]?.map PageEntry.location).getD 0 = (f : Int) := by
    rw [getElem?_table] at he
    obtain ⟨p, hp, rfl⟩ := Option.map_eq_some_iff.mp he
    simp [hp, ← hf]
  have hget : b.frames[f] = fe := (Array.getElem?_eq_some_iff.mp hfe).2
  rw [hloc]
  unfold claimViolation
  rw [dif_pos ⟨Int.natCast_nonneg f, by exact_mod_cast hsize⟩]
  simp [hget, hown]

/-- The scan of owned frames finds nothing: each owner is a page resident at
that frame, so no two frames share one. -/
theorem Residency.owners_eq_nil (h : b.Residency none) :
    ownerViolations b.pages b.frames.toList 0 [] = .ok [] := by
  apply ownerViolations_eq_nil
  · intro fe _ o _ hmem
    cases hmem
  · apply List.pairwise_iff_getElem.mpr
    intro i j hi hj hij o hoi hoj
    simp only [Array.length_toList, Array.getElem_toList] at hi hj hoi hoj
    obtain ⟨v, hv, -, e, he, -, hli⟩ :=
      h.owned i _ o (Array.getElem?_eq_getElem hi) hoi (by simp)
    obtain ⟨w, hw, -, e', he', -, hlj⟩ :=
      h.owned j _ o (Array.getElem?_eq_getElem hj) hoj (by simp)
    have hvw : v = w := by omega
    subst hvw
    rw [he] at he'
    cases he'
    omega
  · intro k hk o ho
    simp only [Array.length_toList, Array.getElem_toList] at hk ho
    obtain ⟨v, rfl, hmax, e, he, hr, hl⟩ :=
      h.owned k _ o (Array.getElem?_eq_getElem hk) ho (by simp)
    rw [getElem?_table] at he
    obtain ⟨p, hp, rfl⟩ := Option.map_eq_some_iff.mp he
    exact ⟨p, Seq.read_of_getElem? hp hmax, hr, by simpa using hl⟩

/-- With no frame being refilled, the residency check finds nothing. -/
theorem Residency.violations_eq_nil (h : b.Residency none) :
    residencyViolations b.pages b.frames = .ok [] := by
  have hcount : (residentPages b.pages).length ≤ b.frames.size := by
    rw [residentPages_pages, h.length_residentPages]
    exact h.fresh_le
  simp only [residencyViolations, h.owners_eq_nil, h.claims_eq_nil, bind, Except.bind, pure,
    Except.pure, if_neg (Nat.not_lt.mpr hcount)]
  rfl

end Residency

end Board

/-- At every reachable machine the page table and the core map agree: the
residency check finds nothing, the owned frames are exactly those below the
next unused frame, and the resident pages are as many as the smaller of the
frame count and the faults taken.  A fault that fails does so only once every
frame is in use, so counting it does not change that smaller number. -/
theorem residency_of_reachable {g : Geometry} {m : Machine} (h : Reachable g m) :
    residencyViolations m.board.pages m.board.frames = .ok [] ∧
      (∀ (f : Nat) (fe : FrameEntry), m.board.frames[f]? = some fe →
        (fe.owner ≠ none ↔ f < m.board.fresh)) ∧
      (residentPages m.board.pages).length = m.board.fresh ∧
      m.board.fresh = min g.frames.toNat m.board.stats.faults := by
  obtain ⟨⟨hsound, hcounted⟩, hgeo⟩ := h.sane
  have hres := hsound.residency
  have hframes : m.board.frames.size = g.frames.toNat := by
    rw [hsound.shape.frames_size, hgeo]
  refine ⟨hres.violations_eq_nil, fun f fe hfe => hres.owned_iff hfe, ?_, ?_⟩
  · rw [Board.residentPages_pages, hres.length_residentPages]
  · rw [← hframes]
    exact hcounted

theorem residency_of_reachable_small :
    ∃ m, Reachable smallGeometry m ∧ residencyViolations m.board.pages m.board.frames = .ok [] := by
  obtain ⟨m, hm⟩ := Reachable.small
  exact ⟨m, hm, (residency_of_reachable hm).1⟩

end DemandPaging
