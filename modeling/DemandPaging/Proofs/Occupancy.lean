import Mathlib.Data.Finset.Image
import DemandPaging.Proofs.Access
import DemandPaging.Proofs.Farthest
import DemandPaging.Proofs.Lookahead

/-!
# The frames as a cache

Seen from the replacement policies, the pager is a cache of fixed size: its
frames hold pages, an access is a hit when its page is resident and a miss
otherwise, and a miss brings the page into a frame in place of what the frame
held.  `Occupant` names what a frame holds, an empty frame being named by its
own number, so that a board's frames hold as many distinct occupants as there
are frames (`Board.occupants`).

* `occupancy_modify`: putting a page into one frame replaces that frame's
  occupant and nothing else;
* `page_mem_occupants`: on a sound board, a page is among the occupants
  exactly when it is resident;
* `handleFault_step`: a fault replaces one occupant by the page, the one the
  pager picks: a frame never used while there is one, else the policy's
  victim (`Board.Evicts`);
* `translate_step`: an access at an address of the space is a step of the
  cache: a hit, or a miss counted as a fault and served by such a choice.
-/

namespace DemandPaging

/-- What a frame holds: the page that owns it, or nothing, an empty frame
being named by its own number. -/
inductive Occupant where
  | page (v : Int)
  | vacant (f : Nat)
  deriving DecidableEq, Repr

/-- What frame `f` holds, read off the frames' owners. -/
def occupantAt (owners : Array (Option Int)) (f : Nat) : Occupant :=
  match owners[f]? with
  | some (some v) => .page v
  | _ => .vacant f

/-- What the frames hold. -/
def occupancy (owners : Array (Option Int)) : Finset Occupant :=
  (Finset.range owners.size).image (occupantAt owners)

namespace Board

/-- The owners of a board's frames. -/
def owners (b : Board) : Array (Option Int) := b.frames.map FrameEntry.owner

/-- What a board's frames hold. -/
def occupants (b : Board) : Finset Occupant := occupancy b.owners

end Board

/-! ## Occupants -/

section Occupancy

variable {o : Array (Option Int)}

theorem mem_occupancy {x : Occupant} : x ∈ occupancy o ↔ ∃ f < o.size, occupantAt o f = x := by
  simp [occupancy]

theorem occupantAt_of_owner {f : Nat} {v : Int} (h : o[f]? = some (some v)) :
    occupantAt o f = .page v := by
  simp [occupantAt, h]

theorem occupantAt_of_vacant {f : Nat} (h : o[f]? = some none) : occupantAt o f = .vacant f := by
  simp [occupantAt, h]

/-- An owner put into frame `f` is what the frame holds; the other frames
hold what they held. -/
theorem occupantAt_modify {f g : Nat} {v : Int} (hf : f < o.size) :
    occupantAt (o.modify f fun _ => some v) g = if f = g then .page v else occupantAt o g := by
  by_cases hfg : f = g
  · subst hfg
    rw [if_pos rfl]
    apply occupantAt_of_owner
    rw [Array.getElem?_modify, if_pos rfl, Array.getElem?_eq_getElem hf]
    rfl
  · rw [if_neg hfg]
    unfold occupantAt
    rw [Array.getElem?_modify, if_neg hfg]

/-- Putting the page `v` into frame `f`, when the frames hold distinct
occupants, replaces the occupant of `f` and nothing else. -/
theorem occupancy_modify {f : Nat} {v : Int} (hf : f < o.size)
    (hdistinct : ∀ g h, g < o.size → h < o.size → occupantAt o g = occupantAt o h → g = h) :
    occupancy (o.modify f fun _ => some v) = insert (.page v) ((occupancy o).erase (occupantAt o f)) := by
  ext x
  simp only [mem_occupancy, Array.size_modify, Finset.mem_insert, Finset.mem_erase, occupantAt_modify hf]
  constructor
  · rintro ⟨g, hg, hx⟩
    split at hx
    · exact .inl hx.symm
    · rename_i hfg
      exact .inr ⟨fun h => hfg (hdistinct f g hf hg (h ▸ hx).symm), g, hg, hx⟩
  · rintro (rfl | ⟨hne, g, hg, rfl⟩)
    · exact ⟨f, hf, if_pos rfl⟩
    · refine ⟨g, hg, ?_⟩
      rw [if_neg]
      rintro rfl
      exact hne rfl

end Occupancy

namespace Board

variable {b : Board}

theorem owners_getElem? (f : Nat) : b.owners[f]? = (b.frames[f]?).map FrameEntry.owner :=
  Array.getElem?_map

theorem owners_size : b.owners.size = b.frames.size := Array.size_map

/-- On a board whose table and core map agree, no two frames hold the same
occupant: a page owns one frame at most. -/
theorem Residency.occupant_injective (h : b.Residency none) {f g : Nat} (hf : f < b.owners.size)
    (hg : g < b.owners.size) (he : occupantAt b.owners f = occupantAt b.owners g) : f = g := by
  rw [owners_size] at hf hg
  have hfe := Array.getElem?_eq_getElem hf
  have hge := Array.getElem?_eq_getElem hg
  unfold occupantAt at he
  rw [owners_getElem?, owners_getElem?, hfe, hge] at he
  simp only [Option.map_some] at he
  cases hof : b.frames[f].owner with
  | none =>
    cases hog : b.frames[g].owner with
    | none =>
      rw [hof, hog] at he
      exact Occupant.vacant.inj he
    | some w =>
      rw [hof, hog] at he
      cases he
  | some v =>
    cases hog : b.frames[g].owner with
    | none =>
      rw [hof, hog] at he
      cases he
    | some w =>
      rw [hof, hog] at he
      cases he
      -- both frames are owned by `v`, which is resident at each of them
      obtain ⟨u, rfl, -, e, hu, -, hl⟩ := h.owned f _ _ hfe hof (by simp)
      obtain ⟨-, hl'⟩ := h.of_owner hge hog (by simp) hu
      omega

/-- On a sound board, a page is among the occupants exactly when it is
resident. -/
theorem page_mem_occupants (h : b.Residency none) {v : Nat} {e : PageEntry}
    (hv : b.table[v]? = some e) : Occupant.page (v : Int) ∈ b.occupants ↔ e.resident = true := by
  unfold occupants
  rw [mem_occupancy]
  constructor
  · rintro ⟨f, hf, hx⟩
    rw [owners_size] at hf
    have hfe := Array.getElem?_eq_getElem hf
    unfold occupantAt at hx
    rw [owners_getElem?, hfe] at hx
    simp only [Option.map_some] at hx
    split at hx
    · rename_i w hw
      cases hx
      exact (h.of_owner hfe (by simpa using hw) (by simp) hv).1
    · cases hx
  · intro hr
    obtain ⟨f, -, hf, -, fe, hfe, hown⟩ := h.frame hv hr
    refine ⟨f, by rw [owners_size]; exact hf, occupantAt_of_owner ?_⟩
    rw [owners_getElem?, hfe]
    simp [hown]

end Board

/-! ## What the pager's actions keep -/

/-- The part of a board that replacement reads and changes: the frames'
owners, the policy, the faults counted and the pages recorded. -/
def Board.tally (b : Board) : Array (Option Int) × Policy × Nat × Option (Array Int) :=
  (b.owners, b.policy, b.stats.faults, b.recording)

/-- An action that leaves the tally as it was, whether it returns or fails. -/
def KeepsTally {α : Type} (act : BoardM α) : Prop :=
  ∀ b, Ends (fun b' => Board.tally b' = b.tally) (fun _ _ => True) (act.run b)

namespace KeepsTally

variable {α β : Type}

theorem bind {x : BoardM α} {f : α → BoardM β} (hx : KeepsTally x) (hf : ∀ a, KeepsTally (f a)) :
    KeepsTally (x >>= f) := fun b =>
  Ends.bind (hx b) fun a _ hs => (hf a _).imp fun _ h => h.trans hs

theorem pure (a : α) : KeepsTally (Pure.pure a : BoardM α) := fun _ => Ends.pure rfl

theorem get : KeepsTally (MonadState.get : BoardM Board) := fun _ => Ends.pure rfl

theorem modify {f : Board → Board} (hf : ∀ b, (f b).tally = b.tally) :
    KeepsTally (modify f : BoardM PUnit) := fun b => Ends.modify (hf b)

theorem ofExcept (e : Except Fault α) : KeepsTally (Board.ofExcept e) := fun _ => by
  cases e with
  | ok a => exact Ends.pure rfl
  | error e => exact Ends.throw rfl trivial

end KeepsTally

namespace Board

/-- Changing frames in what they hold besides their owners keeps the owners. -/
theorem map_owner_update (frames : CoreMap) (f : Int) {g : FrameEntry → FrameEntry}
    (hg : ∀ fe, (g fe).owner = fe.owner) :
    (Seq.update frames f g).map FrameEntry.owner = frames.map FrameEntry.owner := by
  unfold Seq.update
  split
  · apply Array.ext_getElem?
    intro i
    simp only [Array.getElem?_map, Array.getElem?_modify]
    split
    · cases frames[i]? <;> simp [hg]
    · rfl
  · rfl

theorem keeps_frameAt (f : Int) : KeepsTally (frameAt f) :=
  KeepsTally.bind KeepsTally.get fun _ => KeepsTally.ofExcept _

theorem keeps_pageAt (v : Int) : KeepsTally (pageAt v) :=
  KeepsTally.bind KeepsTally.get fun _ => KeepsTally.ofExcept _

theorem keeps_modifyPage (v : Int) (g : PageEntry → PageEntry) : KeepsTally (modifyPage v g) :=
  KeepsTally.modify fun _ => rfl

theorem keeps_modifyFrame (f : Int) {g : FrameEntry → FrameEntry} (hg : ∀ fe, (g fe).owner = fe.owner) :
    KeepsTally (modifyFrame f g) :=
  KeepsTally.modify fun b => by
    simp only [tally, owners, map_owner_update b.frames f hg]

theorem keeps_notePager (level : Level) (message : String) : KeepsTally (notePager level message) :=
  KeepsTally.bind KeepsTally.get fun _ => KeepsTally.modify fun _ => rfl

theorem keeps_allocateSlot : KeepsTally allocateSlot :=
  KeepsTally.bind KeepsTally.get fun _ => KeepsTally.bind (KeepsTally.ofExcept _) fun _ =>
    KeepsTally.bind (KeepsTally.modify fun _ => rfl) fun _ => KeepsTally.pure _

theorem keeps_saveFrame (f : Int) (entry : FrameEntry) (owner : Int) (page : PageEntry) :
    KeepsTally (saveFrame f entry owner page) := by
  -- after the slot is chosen, the page is written out: swap, disk writes and table only
  have hwrite : ∀ slot : Int, KeepsTally (do
      let b ← MonadState.get
      let swap ← ofExcept (b.swap.store slot (b.ram.readFrame f))
      modify fun b => { b with swap, stats.diskWrites := b.stats.diskWrites + 1 }
      modifyPage owner ({ · with onDisk := true }) : BoardM Unit) := fun slot =>
    KeepsTally.bind KeepsTally.get fun _ => KeepsTally.bind (KeepsTally.ofExcept _) fun _ =>
      KeepsTally.bind (KeepsTally.modify fun _ => rfl) fun _ => keeps_modifyPage _ _
  unfold saveFrame
  split
  · exact KeepsTally.bind (KeepsTally.pure _) hwrite
  · exact KeepsTally.bind keeps_allocateSlot fun _ =>
      KeepsTally.bind (keeps_modifyFrame _ fun _ => rfl) fun _ =>
        KeepsTally.bind (keeps_notePager _ _) fun _ => KeepsTally.bind (KeepsTally.pure _) hwrite

theorem keeps_detach (f owner : Int) : KeepsTally (detach f owner) :=
  KeepsTally.bind (keeps_frameAt f) fun _ =>
    KeepsTally.bind (keeps_modifyPage _ _) fun _ => keeps_notePager _ _

theorem keeps_evict (f : Int) : KeepsTally (evict f) := by
  unfold evict
  refine KeepsTally.bind (keeps_frameAt f) fun entry => ?_
  split
  · exact KeepsTally.pure _
  · refine KeepsTally.bind (keeps_pageAt _) fun page => ?_
    split
    · exact KeepsTally.bind (keeps_saveFrame _ _ _ _) fun _ => keeps_detach _ _
    · exact keeps_detach _ _

theorem keeps_fillFrame (v f : Int) : KeepsTally (fillFrame v f) := by
  unfold fillFrame
  refine KeepsTally.bind (keeps_pageAt v) fun page => ?_
  split
  · exact KeepsTally.bind KeepsTally.get fun _ => KeepsTally.bind (KeepsTally.ofExcept _) fun _ =>
      KeepsTally.bind (KeepsTally.ofExcept _) fun _ =>
        KeepsTally.bind (KeepsTally.modify fun _ => rfl) fun _ =>
          KeepsTally.bind (keeps_modifyFrame _ fun _ => rfl) fun _ => keeps_notePager _ _
  · exact KeepsTally.bind KeepsTally.get fun _ => KeepsTally.bind (KeepsTally.ofExcept _) fun _ =>
      KeepsTally.bind (KeepsTally.modify fun _ => rfl) fun _ =>
        KeepsTally.bind (keeps_modifyFrame _ fun _ => rfl) fun _ => keeps_notePager _ _

end Board

/-! ## A fault -/

namespace Board

variable {b b' : Board}

/-- The room a fault makes on board `b`, consulting the policy `p`: a frame
never used while there is one, else the frame of the victim that `p` picks,
`p'` being the policy after.  `y` is what that frame held. -/
def Evicts (b : Board) (p : Policy) (y : Occupant) (p' : Policy) : Prop :=
  (b.fresh < b.frames.size ∧ y = .vacant b.fresh ∧ p' = p) ∨
    (b.frames.size ≤ b.fresh ∧ ∃ f : Nat, (p.selectVictim b.frames b.pages).1 = .ok (f : Int) ∧
      y = occupantAt b.owners f ∧ p' = (p.selectVictim b.frames b.pages).2.1)

/-- Taking a frame changes no owner, fault count or recording; the frame is
one the pager may pick, and what it held is what `Evicts` says. -/
theorem takeFrame_tally (h : b.Sound none) {f : Int} (hrun : takeFrame.run b = .ok f b') :
    ∃ g : Nat, f = g ∧ g < b.frames.size ∧ b'.owners = b.owners ∧
      b'.stats.faults = b.stats.faults ∧ b'.recording = b.recording ∧
      b.Evicts b.policy (occupantAt b.owners g) b'.policy := by
  simp only [takeFrame, EStateM.run_bind, EStateM.run_get] at hrun
  split at hrun
  · -- a frame never used, which no page owns
    rename_i hlt
    cases hrun
    have hfe := Array.getElem?_eq_getElem hlt
    have hnone : b.frames[b.fresh].owner = none := by
      by_contra hown
      exact Nat.lt_irrefl _ ((h.residency.used_iff _ _ hfe (by simp)).mp hown)
    refine ⟨b.fresh, rfl, hlt, rfl, rfl, rfl, .inl ⟨hlt, occupantAt_of_vacant ?_, rfl⟩⟩
    rw [owners_getElem?, hfe]
    simp [hnone]
  · -- the policy's victim, whose page is evicted
    rename_i hge
    let b₁ : Board := { b with
      policy := (b.policy.selectVictim b.frames b.pages).2.1
      pages := (b.policy.selectVictim b.frames b.pages).2.2 }
    rw [EStateM.run_bind] at hrun
    cases hres : (b.policy.selectVictim b.frames b.pages).1 with
    | error e =>
      have hsel : selectVictim.run b = .error e b₁ := selectVictim_run_error hres
      rw [hsel] at hrun
      cases hrun
    | ok f₀ =>
      have hsel : selectVictim.run b = .ok f₀ b₁ := selectVictim_run_ok hres
      rw [hsel] at hrun
      dsimp only at hrun
      rw [EStateM.run_bind] at hrun
      have hkeep := keeps_evict f₀ b₁
      cases hev : (evict f₀).run b₁ with
      | error e b₂ =>
        rw [hev] at hrun
        cases hrun
      | ok u b₂ =>
        rw [hev] at hrun
        rw [hev] at hkeep
        have hf : f = f₀ := by cases hrun; rfl
        have hb : b' = b₂ := by cases hrun; rfl
        rw [hf, hb]
        obtain ⟨h0, h1⟩ := Policy.selectVictim_lt h.shape.policy_fits h.shape.frames_pos hres
        simp only [tally, Prod.mk.injEq] at hkeep
        obtain ⟨ho, hp, hfa, hrec⟩ := hkeep
        refine ⟨f₀.toNat, by omega, by omega, ho, hfa, hrec,
          .inr ⟨by omega, f₀.toNat, by rw [Int.toNat_of_nonneg h0]; exact hres, rfl, hp⟩⟩

/-- The owners after page `v` is installed in frame `f`. -/
theorem owners_install (v : Int) (f : Nat) :
    (Seq.update b.frames f fun fe => { fe with owner := some v }).map FrameEntry.owner =
      b.owners.modify f fun _ => some v := by
  rw [Seq.update_natCast]
  apply Array.ext_getElem?
  intro i
  simp only [owners, Array.getElem?_map, Array.getElem?_modify]
  split
  · cases b.frames[i]? <;> rfl
  · rfl

/-- A fault on page `v` counts itself, keeps the recording, and puts `v` into
the frame the pager takes, changing no other owner; what that frame held and
the policy after are what `Evicts` says. -/
theorem handleFault_owners (h : b.Sound none) {v : Int} (hrun : (handleFault v).run b = .ok () b') :
    b'.stats.faults = b.stats.faults + 1 ∧ b'.recording = b.recording ∧
      ∃ g : Nat, g < b.frames.size ∧ b'.owners = b.owners.modify g (fun _ => some v) ∧
        b.Evicts b.policy (occupantAt b.owners g) b'.policy := by
  -- counting the fault comes first
  let b₀ : Board := { b with stats.faults := b.stats.faults + 1 }
  have h₀ : b₀.Sound none := h.countFault
  have hrun' : (takeFrame >>= fun f => fillFrame v f >>= fun _ => install v f).run b₀ = .ok () b' :=
    hrun
  rw [EStateM.run_bind] at hrun'
  cases htake : takeFrame.run b₀ with
  | error e b₁ =>
    rw [htake] at hrun'
    cases hrun'
  | ok f b₁ =>
    rw [htake] at hrun'
    obtain ⟨g, rfl, hg, ho₁, hfa₁, hrec₁, hev⟩ := takeFrame_tally h₀ htake
    dsimp only at hrun'
    rw [EStateM.run_bind] at hrun'
    have hkeep := keeps_fillFrame v g b₁
    cases hfill : (fillFrame v g).run b₁ with
    | error e b₂ =>
      rw [hfill] at hrun'
      cases hrun'
    | ok u b₂ =>
      rw [hfill] at hrun'
      rw [hfill] at hkeep
      cases hrun'
      simp only [tally, Prod.mk.injEq] at hkeep
      obtain ⟨ho₂, hp₂, hfa₂, hrec₂⟩ := hkeep
      refine ⟨?_, ?_, g, hg, ?_, ?_⟩
      · show b₂.stats.faults = b.stats.faults + 1
        rw [hfa₂, hfa₁]
      · show b₂.recording = b.recording
        rw [hrec₂, hrec₁]
      · -- installing the page sets the owner of frame `g` alone
        show (Seq.update b₂.frames g fun fe => { fe with owner := some v }).map FrameEntry.owner = _
        rw [owners_install, ho₂, ho₁]
        rfl
      · show b.Evicts b.policy _ b₂.policy
        rw [hp₂]
        exact hev

/-- A fault on page `v` replaces one occupant by the page, the one `Evicts`
names, and counts itself; the recording stays as it is. -/
theorem handleFault_step (h : b.Sound none) {v : Int} (hrun : (handleFault v).run b = .ok () b') :
    b'.stats.faults = b.stats.faults + 1 ∧ b'.recording = b.recording ∧
      ∃ y ∈ b.occupants, b'.occupants = insert (.page v) (b.occupants.erase y) ∧
        b.Evicts b.policy y b'.policy := by
  obtain ⟨hfa, hrec, g, hg, ho, hev⟩ := handleFault_owners h hrun
  have hgo : g < b.owners.size := by rw [owners_size]; exact hg
  refine ⟨hfa, hrec, occupantAt b.owners g, mem_occupancy.mpr ⟨g, hgo, rfl⟩, ?_, hev⟩
  -- the page goes into frame `g`, replacing what `g` held
  show occupancy b'.owners = _
  rw [ho]
  exact occupancy_modify hgo fun f f' hf hf' hff' => h.residency.occupant_injective hf hf' hff'

end Board

/-! ## An access -/

namespace Board

variable {b b' : Board}

/-- What an access to page `v` that returned did to the cache of board `b`,
leaving `b'`: the page lies within the largest index and was recorded; then a
hit changed no occupant and counted no fault, the policy having seen `v`; or
a miss replaced by `v` the occupant that `Evicts` names, counting a fault. -/
def Answers (b : Board) (v : Int) (b' : Board) : Prop :=
  v ≤ maxLength ∧ b'.recording = b.recording.map (·.push v) ∧
    ((Occupant.page v ∈ b.occupants ∧ b'.occupants = b.occupants ∧
        b'.stats.faults = b.stats.faults ∧ b'.policy = b.policy.observe) ∨
      (Occupant.page v ∉ b.occupants ∧ b'.stats.faults = b.stats.faults + 1 ∧
        ∃ y ∈ b.occupants, b'.occupants = insert (.page v) (b.occupants.erase y) ∧
          b.Evicts b.policy.observe y b'.policy))

/-- How an access to address `a` of board `b` can fail, leaving `b'`: outside
the space, changing nothing replacement reads; at a page past the largest
index, once the page was recorded and shown to the policy; or for want of a
swap slot. -/
def Fails (b : Board) (a : Int) (e : Fault) (b' : Board) : Prop :=
  (¬ (0 ≤ a ∧ a < b.table.size * b.geometry.pageSize) ∧
      e = .addressBeyondSpace a ((b.table.size : Int) - 1) ∧ b'.tally = b.tally) ∨
    (e = .indexOverflow ∧ maxLength < a.fdiv b.geometry.pageSize ∧ b'.occupants = b.occupants ∧
      b'.stats.faults = b.stats.faults ∧ b'.policy = b.policy.observe ∧
      b'.recording = b.recording.map (·.push (a.fdiv b.geometry.pageSize))) ∨
    ∃ c, e = .swapFull c

/-- An access to address `a` of a consistent board is counted; outside the
space it fails at once.  Inside it, its page is recorded and shown to the
policy, and the access is then a step of the cache, as `Answers` says, or
fails as `Fails` says. -/
theorem translate_step (h : b.Consistent) (a : Int) (write : Bool) :
    match (translate a write).run b with
    | .ok _ b' => (0 ≤ a ∧ a < b.table.size * b.geometry.pageSize) ∧
        b.Answers (a.fdiv b.geometry.pageSize) b'
    | .error e b' => b.Fails a e b' := by
  have hP := h.sound.shape.pageSize_pos
  simp only [translate, EStateM.run_bind, EStateM.run_modify, EStateM.run_get]
  by_cases hin : 0 ≤ a ∧ a < b.table.size * b.geometry.pageSize
  · have hin' : 0 ≤ a.fdiv b.geometry.pageSize ∧ a.fdiv b.geometry.pageSize < b.pages.size := by
      rw [fdiv_mem_iff hP, ← size_table]
      exact hin
    obtain ⟨m, hm⟩ := Int.eq_ofNat_of_zero_le hin'.1
    rw [hm]
    rw [hm] at hin'
    -- the access is counted, then the page recorded and shown to the policy
    let b₂ : Board := { b with
      stats.accesses := b.stats.accesses + 1
      recording := b.recording.map (·.push (m : Int))
      policy := b.policy.observe }
    have h₂ : b₂.Consistent := h.congr rfl rfl rfl rfl rfl ⟨rfl, rfl⟩ rfl
      (Policy.observe_fits h.sound.shape.policy_fits)
    rw [if_neg (fun hn => hn hin')]
    simp only [EStateM.run_bind, EStateM.run_modify]
    have hlt : m < b₂.pages.size := by exact_mod_cast hin'.2
    have hv : b.table[m]? = some b.pages[m].unreferenced := by
      rw [getElem?_table, Array.getElem?_eq_getElem hlt]
      rfl
    have hv₂ : b₂.table[m]? = some b.pages[m].unreferenced := hv
    by_cases hfit : (m : Int) ≤ maxLength
    · rw [pageAt_run hlt hfit]
      dsimp only
      cases hres : b.pages[m].resident with
      | true =>
        -- a hit: only the page's bits change
        rw [if_neg (show ¬ (!true) = true from Bool.false_ne_true), finish_run hv₂ hfit]
        exact ⟨hin, hfit, rfl, .inl ⟨(page_mem_occupants h.sound.residency hv).mpr hres, rfl, rfl, rfl⟩⟩
      | false =>
        -- a miss: the page is faulted in first
        rw [if_pos (show (!false) = true from rfl)]
        have hnot : Occupant.page (m : Int) ∉ b.occupants := by
          rw [page_mem_occupants h.sound.residency hv]
          simp [PageEntry.unreferenced, hres]
        rcases handleFault_spec h₂.sound h₂.counted hv₂ (by simp [PageEntry.unreferenced, hres]) hfit with
          ⟨b₃, hrun₃, -, -, -, -, -, e', hv₃, -⟩ | ⟨b₃, hrun₃, -⟩
        · rw [EStateM.run_bind, hrun₃]
          dsimp only
          rw [finish_run hv₃ hfit]
          obtain ⟨hfa, hrec, y, hy, hocc, hev⟩ := handleFault_step h₂.sound hrun₃
          exact ⟨hin, hfit, hrec, .inr ⟨hnot, hfa, y, hy, hocc, hev⟩⟩
        · rw [EStateM.run_bind, hrun₃]
          exact .inr (.inr ⟨_, rfl⟩)
    · -- the page is past the largest index
      rw [pageAt_run_overflow (by omega)]
      exact .inr (.inl ⟨rfl, by omega, rfl, rfl, rfl, by rw [hm]⟩)
  · -- outside the space nothing but the count changes
    have hout : ¬ (0 ≤ a.fdiv b.geometry.pageSize ∧ a.fdiv b.geometry.pageSize < b.pages.size) := by
      rw [fdiv_mem_iff hP, ← size_table]
      exact hin
    rw [if_pos hout]
    exact .inl ⟨hin, by rw [size_table], rfl⟩

/-- A read whose translation returned gives a word and leaves the board the
translation left. -/
theorem readWord_of_translate (h : b.Consistent) {a p : Int} (hrun : (translate a false).run b = .ok p b') :
    ∃ x, (readWord a).run b = .ok x b' := by
  have hs := translate_spec h a false
  rw [hrun] at hs
  obtain ⟨hk, -, hh⟩ := hs
  obtain ⟨hp, hlt, hfit⟩ := hh.lt hk.consistent.sound
  have hx : b'.ram.words[p.toNat]? = some (b'.ramWord p.toNat) := by
    rw [ramWord, Array.getElem?_eq_getElem hlt]
    rfl
  simp only [readWord, EStateM.run_bind, hrun, EStateM.run_get]
  rw [hp, Ram.read_of_getElem? hx hfit]
  exact ⟨_, rfl⟩

/-- A write whose translation returned stores the word and changes nothing
else of the board the translation left. -/
theorem writeWord_of_translate (h : b.Consistent) {a p : Int} (v : Int)
    (hrun : (translate a true).run b = .ok p b') :
    ∃ ram, (writeWord a v).run b = .ok () { b' with ram } := by
  have hs := translate_spec h a true
  rw [hrun] at hs
  obtain ⟨hk, -, hh⟩ := hs
  obtain ⟨hp, hlt, hfit⟩ := hh.lt hk.consistent.sound
  simp only [writeWord, EStateM.run_bind, hrun, EStateM.run_get]
  rw [hp, Ram.write_of_lt hlt hfit]
  exact ⟨_, rfl⟩

/-- A read at address `a` of a consistent board: a step of the cache, keeping
the board consistent, or a failure as `Fails` says. -/
theorem readWord_step (h : b.Consistent) (a : Int) :
    match (readWord a).run b with
    | .ok _ b' => (0 ≤ a ∧ a < b.table.size * b.geometry.pageSize) ∧
        b.Answers (a.fdiv b.geometry.pageSize) b' ∧ b.Kept b'
    | .error e b' => b.Fails a e b' := by
  have ht := translate_step h a false
  cases hrun : (translate a false).run b with
  | error e b₁ =>
    rw [hrun] at ht
    have hread : (readWord a).run b = .error e b₁ := by
      simp only [readWord, EStateM.run_bind, hrun]
    rw [hread]
    exact ht
  | ok p b₁ =>
    rw [hrun] at ht
    obtain ⟨x, hread⟩ := readWord_of_translate h hrun
    have hspec := readWord_spec h a
    rw [hread] at hspec ⊢
    exact ⟨ht.1, ht.2, hspec.1⟩

/-- A write at address `a` of a consistent board: a step of the cache, keeping
the board consistent, or a failure as `Fails` says. -/
theorem writeWord_step (h : b.Consistent) (a v : Int) :
    match (writeWord a v).run b with
    | .ok _ b' => (0 ≤ a ∧ a < b.table.size * b.geometry.pageSize) ∧
        b.Answers (a.fdiv b.geometry.pageSize) b' ∧ b.Kept b'
    | .error e b' => b.Fails a e b' := by
  have ht := translate_step h a true
  cases hrun : (translate a true).run b with
  | error e b₁ =>
    rw [hrun] at ht
    have hwrite : (writeWord a v).run b = .error e b₁ := by
      simp only [writeWord, EStateM.run_bind, hrun]
    rw [hwrite]
    exact ht
  | ok p b₁ =>
    rw [hrun] at ht
    obtain ⟨ram, hwrite⟩ := writeWord_of_translate h v hrun
    have hspec := writeWord_spec h a v
    rw [hwrite] at hspec ⊢
    exact ⟨ht.1, ht.2, hspec.1⟩

end Board

end DemandPaging
