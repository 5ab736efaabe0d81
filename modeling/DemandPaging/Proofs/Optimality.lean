import DemandPaging.Proofs.Occupancy
import DemandPaging.Proofs.Reachable
import DemandPaging.Proofs.Simulation
import DemandPaging.Proofs.SwapSlots

/-!
# The optimal policy faults least

`Board.Answers` makes every access that returns a step of the cache of
`DemandPaging.Proofs.Farthest`, with some victim (`Board.answers_any`).  Under
the optimal policy replaying a trace `t` from position `i`, the victim is
farthest in `t` from `i` (`Board.answers_farthest`): a frame never used is
named by no request, and once every frame is used, `Policy.farthest` picks a
page whose next use is as far ahead as any (`Policy.farthest_max`,
`distance_le_iff`).

`Request.performAll_serves` carries this along requests made in turn: the
requests before the first that fails are served by the cache, from the
occupants of the machine's frames, with as many misses as faults counted.  A
fresh machine's frames are all empty whatever its policy, so machines of one
geometry serve the same requests from the same cache, and
`Cache.farthest_fewest_misses` gives `optimal_faults_least`.
-/

namespace DemandPaging

/-- Pages are found in a list of requests for pages where the pages are found
in the list. -/
theorem idxOf_map_page (l : List Int) (x : Int) :
    (l.map Occupant.page).idxOf (.page x) = l.idxOf x := by
  induction l with
  | nil => rfl
  | cons y l ih =>
    by_cases hyx : y = x
    · rw [hyx, List.map_cons, List.idxOf_cons_self, List.idxOf_cons_self]
    · have hne : Occupant.page y ≠ .page x := fun h => hyx (Occupant.page.inj h)
      rw [List.map_cons, List.idxOf_cons_ne _ hne, List.idxOf_cons_ne _ hyx, ih]

/-- An empty frame is named by no request, so it is as far ahead as can be. -/
theorem farthestIn_vacant (t : List Int) (i : Nat) (C : Finset Occupant) (f : Nat) :
    Cache.FarthestIn (t.map .page) i C (.vacant f) := by
  intro z _
  have hnot : Occupant.vacant f ∉ (t.map Occupant.page).drop i := fun h => by
    obtain ⟨v, -, hv⟩ := List.mem_map.mp (List.mem_of_mem_drop h)
    cases hv
  rw [List.idxOf_of_notMem hnot]
  exact List.idxOf_le_length

namespace Board

variable {b b' : Board}

/-- Every access that returns is a step of the cache, with some victim. -/
theorem answers_any {v : Int} (h : b.Answers v b') (i : Nat) :
    ∃ δ, b'.stats.faults = b.stats.faults + δ ∧
      Cache.Step Cache.anyVictim i b.occupants (.page v) b'.occupants δ := by
  obtain ⟨-, -, ⟨hmem, hocc, hfa, -⟩ | ⟨hnot, hfa, y, hy, hocc, -⟩⟩ := h
  · exact ⟨0, hfa, by rw [hocc]; exact .hit hmem⟩
  · exact ⟨1, hfa, hocc ▸ .miss y hnot hy trivial⟩

/-- Once every frame of a sound board is used, the optimal policy's scan
picks a frame whose page is next used, in `t` from `i`, no sooner than any
other page in the frames. -/
theorem farthestIn_victim (h : b.Residency none) (hfull : b.frames.size ≤ b.fresh)
    (hpos : 0 < b.frames.size) (t : List Int) (i : Nat) :
    Cache.FarthestIn (t.map .page) i b.occupants
      (occupantAt b.owners (Policy.farthest (TraceIndex.build t) i b.frames.toList 0 0 (-1))) := by
  -- every frame holds a page
  have howned : ∀ (g : Nat) (hg : g < b.frames.size), ∃ o, b.frames[g].owner = some o := by
    intro g hg
    have := (h.used_iff g _ (Array.getElem?_eq_getElem hg) (by simp)).mpr (by omega)
    exact Option.ne_none_iff_exists'.mp this
  have hsome : ∀ e ∈ b.frames.toList, e.owner.isSome := by
    intro e he
    obtain ⟨g, hg, rfl⟩ := List.getElem_of_mem he
    rw [Array.length_toList] at hg
    obtain ⟨o, ho⟩ := howned g hg
    simp [ho]
  have hlen : b.frames.toList.length = b.frames.size := Array.length_toList
  rcases Policy.farthest_max (TraceIndex.build t) i b.frames.toList hsome 0 0 (-1) with
    ⟨-, hall⟩ | ⟨k, hk, o, hres, hko, -, hmax⟩
  · -- the first frame's page is at a distance of at least zero
    obtain ⟨o, ho⟩ := howned 0 hpos
    have := hall b.frames[0] (Array.getElem_mem_toList _) o ho
    omega
  · rw [hres, Nat.zero_add]
    have hk' : k < b.frames.size := hlen ▸ hk
    have hvictim : occupantAt b.owners k = .page o := by
      apply occupantAt_of_owner
      rw [owners_getElem?, Array.getElem?_eq_getElem hk']
      simp only [Option.map_some]
      rw [← hko, Array.getElem_toList]
    rw [hvictim]
    intro z hz
    obtain ⟨g, hg, rfl⟩ := mem_occupancy.mp hz
    rw [owners_size] at hg
    obtain ⟨o', ho'⟩ := howned g hg
    have hz' : occupantAt b.owners g = .page o' := by
      apply occupantAt_of_owner
      rw [owners_getElem?, Array.getElem?_eq_getElem hg]
      simp [ho']
    have hle := (distance_le_iff t o' o i).mp (hmax b.frames[g] (Array.getElem_mem_toList _) o' ho')
    rw [hz', ← List.map_drop, idxOf_map_page, idxOf_map_page]
    exact hle

/-- Under the optimal policy replaying `t`, at position `i`, an access that
returns moves the policy on by one and is a step of the cache whose victim is
farthest in `t` from `i`. -/
theorem answers_farthest (h : b.Consistent) {t : List Int} {i : Nat}
    (hpol : b.policy = .optimal (TraceIndex.build t) i) {v : Int} (ha : b.Answers v b') :
    b'.policy = .optimal (TraceIndex.build t) (i + 1) ∧ ∃ δ, b'.stats.faults = b.stats.faults + δ ∧
      Cache.Step (Cache.FarthestIn (t.map .page)) i b.occupants (.page v) b'.occupants δ := by
  have hobs : b.policy.observe = .optimal (TraceIndex.build t) (i + 1) := by rw [hpol]; rfl
  obtain ⟨-, -, ⟨hmem, hocc, hfa, hp⟩ | ⟨hnot, hfa, y, hy, hocc, hev⟩⟩ := ha
  · exact ⟨hp.trans hobs, 0, hfa, by rw [hocc]; exact .hit hmem⟩
  · rw [hobs] at hev
    rcases hev with ⟨-, rfl, hp⟩ | ⟨hfull, f, hf, rfl, hp⟩
    · -- a frame never used
      exact ⟨hp, 1, hfa, hocc ▸ .miss _ hnot hy (farthestIn_vacant t i _ _)⟩
    · -- the optimal policy keeps its state and picks the farthest page
      have hf' : Policy.farthest (TraceIndex.build t) i b.frames.toList 0 0 (-1) = f := by
        simp only [Policy.selectVictim, Nat.add_sub_cancel, Except.ok.injEq] at hf
        exact_mod_cast hf
      refine ⟨hp, 1, hfa, hocc ▸ .miss _ hnot hy ?_⟩
      rw [← hf']
      exact farthestIn_victim h.sound.residency hfull h.sound.shape.frames_pos t i

end Board

/-! ## Requests made in turn -/

/-- A request to memory: read the word at an address, or write a value there. -/
inductive Request where
  | read (a : Int)
  | write (a v : Int)
  deriving DecidableEq, Repr

namespace Request

/-- The address a request names. -/
def address : Request → Int
  | read a => a
  | write a _ => a

/-- The call on a machine that makes the request. -/
def call : Request → Call
  | read a => .read a
  | write a v => .write a v

/-- The page a request falls in, for pages of `size` words. -/
def page (size : Int) (r : Request) : Int := r.address.fdiv size

/-- The requests made in turn on a machine, up to the first that fails. -/
def performAll : List Request → MachineM Unit
  | [] => pure ()
  | r :: rs => do
    r.call.perform
    performAll rs

/-- A request on a machine with a consistent board: a step of the cache that
keeps the board consistent, or a failure as `Board.Fails` says. -/
theorem perform_step {m : Machine} (h : m.board.Consistent) (r : Request) :
    match (r.call.perform).run m with
    | .ok _ m' => (0 ≤ r.address ∧ r.address < m.board.table.size * m.board.geometry.pageSize) ∧
        m.board.Answers (r.page m.board.geometry.pageSize) m'.board ∧ m.board.Kept m'.board
    | .error e m' => m.board.Fails r.address e m'.board := by
  cases r with
  | read a =>
    have hs := Board.readWord_step h a
    simp only [call, Call.perform, Machine.readWord, EStateM.run_bind, Machine.onBoard_run]
    cases hrun : (Board.readWord a).run m.board with
    | ok x b' =>
      rw [hrun] at hs
      exact hs
    | error e b' =>
      rw [hrun] at hs
      exact hs
  | write a v =>
    have hs := Board.writeWord_step h a v
    simp only [call, Call.perform, Machine.writeWord, Machine.onBoard_run]
    cases hrun : (Board.writeWord a v).run m.board with
    | ok x b' =>
      rw [hrun] at hs
      exact hs
    | error e b' =>
      rw [hrun] at hs
      exact hs

/-- Requests made in turn from a sane machine, each at an address of the space
and none failing for want of a swap slot, are served by the cache from the
occupants of the machine's frames: those before the first page past the
largest index, with as many misses as faults counted.  `ok` and `P` say what
one access that returns does under the machine's policy, `P i` holding of the
board before the access at time `i`.  Induction on the requests. -/
theorem performAll_serves {ok : Nat → Finset Occupant → Occupant → Prop} {P : Nat → Board → Prop}
    (hstep : ∀ {i : Nat} {b b' : Board} {v : Int}, b.Consistent → P i b → b.Answers v b' →
      P (i + 1) b' ∧ ∃ δ, b'.stats.faults = b.stats.faults + δ ∧
        Cache.Step ok i b.occupants (.page v) b'.occupants δ)
    {g : Geometry} (hV : 0 < g.virtualPages) (rs : List Request) :
    ∀ (i : Nat) (m : Machine), m.board.Sane g → P i m.board →
      (∀ r ∈ rs, 0 ≤ r.address ∧ r.address < g.addressSpace) →
      (∀ c m', (performAll rs).run m ≠ .error (.swapFull c) m') →
      ∃ n, (finalState ((performAll rs).run m)).board.stats.faults = m.board.stats.faults + n ∧
        Cache.Serves ok i m.board.occupants
          (((rs.map (page g.pageSize)).takeWhile (· ≤ maxLength)).map .page)
          (finalState ((performAll rs).run m)).board.occupants n := by
  induction rs with
  | nil =>
    intro i m _ _ _ _
    exact ⟨0, rfl, .nil _ _⟩
  | cons r rs ih =>
    intro i m hs hp hin hspare
    have hstep' := perform_step hs.1 r
    have hpage : r.page m.board.geometry.pageSize = r.page g.pageSize := by rw [hs.2]
    cases hperf : (r.call.perform).run m with
    | ok u m₁ =>
      rw [hperf] at hstep'
      obtain ⟨-, hans, hkept⟩ := hstep'
      rw [hpage] at hans
      obtain ⟨hp₁, δ, hfa, hst⟩ := hstep hs.1 hp hans
      have hs₁ : m₁.board.Sane g := ⟨hkept.consistent, hkept.geometry.trans hs.2⟩
      simp only [performAll, EStateM.run_bind, hperf] at hspare ⊢
      obtain ⟨n, hn, hserves⟩ :=
        ih (i + 1) m₁ hs₁ hp₁ (fun r' hr' => hin r' (List.mem_cons_of_mem _ hr')) hspare
      -- the page lies within the largest index, so the requests served go on
      have hfit : decide (r.page g.pageSize ≤ maxLength) = true := decide_eq_true hans.1
      refine ⟨δ + n, by rw [hn, hfa, Nat.add_assoc], ?_⟩
      rw [List.map_cons, List.takeWhile_cons_of_pos (p := fun x => decide (x ≤ maxLength)) hfit,
        List.map_cons]
      exact .cons hst hserves
    | error e m₁ =>
      rw [hperf] at hstep'
      rcases hstep' with ⟨hout, -⟩ | ⟨-, hov, hocc, hfa, -⟩ | ⟨c, rfl⟩
      · exact absurd (hs.space hV ▸ hin r List.mem_cons_self) hout
      · -- a page past the largest index ends the run, serving nothing more
        simp only [performAll, EStateM.run_bind, hperf]
        have hnot : ¬ decide (r.page g.pageSize ≤ maxLength) = true := by
          rw [decide_eq_true_iff, ← hpage]
          exact Int.not_le.mpr hov
        refine ⟨0, hfa, ?_⟩
        rw [List.map_cons, List.takeWhile_cons_of_neg (p := fun x => decide (x ≤ maxLength)) hnot,
          List.map_nil, finalState_error, hocc]
        exact .nil _ _
      · exact absurd (by simp only [performAll, EStateM.run_bind, hperf]) (hspare c m₁)

/-- With a swap slot for every page, requests never fail for want of one: a
failed call is refused, and a sane board refuses no access for want of a
slot. -/
theorem performAll_spared {g : Geometry} (hfit : g.virtualPages ≤ g.swapSlots) (rs : List Request) :
    ∀ (m : Machine), m.board.Sane g → ∀ c m', (performAll rs).run m ≠ .error (.swapFull c) m' := by
  induction rs with
  | nil =>
    intro m _ c m' h
    cases h
  | cons r rs ih =>
    intro m hs c m' h
    have hends := r.call.perform_ends hs
    cases hperf : (r.call.perform).run m with
    | ok u m₁ =>
      rw [hperf] at hends
      simp only [performAll, EStateM.run_bind, hperf] at h
      exact ih m₁ hends c m' h
    | error e m₁ =>
      rw [hperf] at hends
      simp only [performAll, EStateM.run_bind, hperf] at h
      cases h
      rcases hends.2 with hr | hp | hv
      · exact hends.1.not_refused_swapFull hfit c hr
      · exact hp
      · cases hv

end Request

/-! ## Three machines of one geometry -/

/-- A new board's frames are empty, it has counted no fault, its policy is the
one asked for, and it records when asked to. -/
theorem Board.create_start {g : Geometry} {kind : PolicyKind} {trace : Option (List Int)}
    {record : Bool} {log : Log} {b : Board} (h : Board.create g kind trace record log = .ok b) :
    b.frames = Array.replicate g.frames.toNat {} ∧ b.stats.faults = 0 ∧
      Policy.create kind g.frames trace = .ok b.policy ∧
      b.recording = if record then some #[] else none := by
  obtain ⟨-, -, policy, -, -, hpolicy, rfl⟩ := Board.eq_of_create_ok h
  exact ⟨rfl, rfl, hpolicy, rfl⟩

/-- A new machine's frames are all empty, whatever its policy, and it has
counted no fault. -/
theorem Machine.create_start {g : Geometry} {kind : PolicyKind} {trace : Option (List Int)}
    {record : Bool} {log : Log} {m : Machine} (h : Machine.create g kind trace record log = .ok m) :
    m.board.occupants = occupancy (Array.replicate g.frames.toNat none) ∧ m.board.stats.faults = 0 ∧
      Policy.create kind g.frames trace = .ok m.board.policy ∧
      m.board.recording = if record then some #[] else none := by
  obtain ⟨b, hb, -, hm⟩ := Machine.create_ok h
  obtain ⟨hf, hfa, hp, hrec⟩ := Board.create_start hb
  rw [hm]
  refine ⟨?_, hfa, hp, hrec⟩
  show occupancy (b.frames.map FrameEntry.owner) = _
  rw [hf, Array.map_replicate]

/-- Made in turn on three new machines of one geometry, with the FIFO, the
second-chance and the optimal policy, the last replaying the pages of the
requests, requests at addresses of the space that never fail for want of a
swap slot fault no more often on the optimal machine than on either other. -/
theorem optimal_faults_least {g : Geometry} {rs : List Request} {record : Bool} {log : Log}
    {mF mC mO : Machine} (hg : g.validate = .ok g)
    (hin : ∀ r ∈ rs, 0 ≤ r.address ∧ r.address < g.addressSpace)
    (hF : Machine.create g .fifo none record log = .ok mF)
    (hC : Machine.create g .secondChance none record log = .ok mC)
    (hO : Machine.create g .optimal (some (rs.map (Request.page g.pageSize))) record log = .ok mO)
    (hspare : ∀ m ∈ [mF, mC, mO], ∀ c m', (Request.performAll rs).run m ≠ .error (.swapFull c) m') :
    (finalState ((Request.performAll rs).run mO)).board.stats.faults ≤
        (finalState ((Request.performAll rs).run mF)).board.stats.faults ∧
      (finalState ((Request.performAll rs).run mO)).board.stats.faults ≤
        (finalState ((Request.performAll rs).run mC)).board.stats.faults := by
  have hV := (Geometry.validate_pos hg).2.2
  -- any policy serves the requests, with some victims
  have hany : ∀ (m : Machine), m.board.Sane g → m ∈ [mF, mC, mO] →
      ∃ n, (finalState ((Request.performAll rs).run m)).board.stats.faults = m.board.stats.faults + n ∧
        Cache.Serves Cache.anyVictim 0 m.board.occupants
          (((rs.map (Request.page g.pageSize)).takeWhile (· ≤ maxLength)).map .page)
          (finalState ((Request.performAll rs).run m)).board.occupants n := fun m hs hm =>
    Request.performAll_serves (P := fun _ _ => True) (fun _ _ ha => ⟨trivial, Board.answers_any ha _⟩)
      hV rs 0 m hs trivial hin (hspare m hm)
  obtain ⟨nF, hnF, hsF⟩ := hany mF (Machine.create_sane hg hF) (by simp)
  obtain ⟨nC, hnC, hsC⟩ := hany mC (Machine.create_sane hg hC) (by simp)
  -- the optimal machine's victims are farthest in the trace it replays
  obtain ⟨hoO, hfO, hpO, -⟩ := Machine.create_start hO
  have hpolO : mO.board.policy = .optimal (TraceIndex.build (rs.map (Request.page g.pageSize))) 0 := by
    simp only [Policy.create, Except.ok.injEq] at hpO
    exact hpO.symm
  obtain ⟨nO, hnO, hsO⟩ := Request.performAll_serves
    (P := fun i b => b.policy = .optimal (TraceIndex.build (rs.map (Request.page g.pageSize))) i)
    (fun hc hp ha => Board.answers_farthest hc hp ha) hV rs 0 mO (Machine.create_sane hg hO) hpolO hin
    (hspare mO (by simp))
  -- all three start from the same empty frames
  obtain ⟨hoF, hfF, -, -⟩ := Machine.create_start hF
  obtain ⟨hoC, hfC, -, -⟩ := Machine.create_start hC
  rw [hoO] at hsO
  rw [hoF] at hsF
  rw [hoC] at hsC
  have hpre : ((rs.map (Request.page g.pageSize)).takeWhile (· ≤ maxLength)).map Occupant.page <+:
      ((rs.map (Request.page g.pageSize)).map Occupant.page).drop 0 :=
    (List.takeWhile_prefix _).map _
  have hleF := Cache.farthest_fewest_misses _ hpre hsO hsF
  have hleC := Cache.farthest_fewest_misses _ hpre hsO hsC
  rw [hnO, hnF, hnC, hfO, hfF, hfC]
  omega

end DemandPaging
