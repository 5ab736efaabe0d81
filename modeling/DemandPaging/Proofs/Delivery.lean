import Mathlib
import DemandPaging.Interrupts

/-!
# Delivery of interrupt requests

An interrupt controller is driven by four calls: register a vector, give a
vector a handler, raise a request on a vector, and service what waits.  A
request carries nothing but its vector, so the requests of one vector are
told apart only by their order, and a queue is a count.

What a controller shows of one vector is read through `Controller.entryOf`:
how many requests wait on it (`queued`), its handler (`handlerOf`), and the
vector numbers in registration order (`numbers`).  Each call gets one lemma
saying what it does to that view, and `Controller.calls_for` says which
handler calls servicing makes for one vector.

A sequence of calls is made with `Controller.Op.apply`, which keeps a trail
of the requests raised and the handler calls made; a call that fails leaves
the controller and the trail alone.  `Controller.Conserves` is the
invariant: every request raised has been delivered or still waits, and
nothing else has.  The main statement is `Controller.delivers_each_request_once`.
-/

namespace DemandPaging

namespace Controller

variable {τ : Type}

/-! ## The view of one vector -/

/-- The entry of vector `v`, if it is registered. -/
def entryOf (c : Controller τ) (v : Int) : Option (Vector τ) :=
  c.vectors.find? (·.number == v)

/-- How many requests wait on vector `v`; none wait on a vector never
registered. -/
def queued (c : Controller τ) (v : Int) : Nat := ((c.entryOf v).map Vector.pending).getD 0

/-- The handler of vector `v`, if it has one. -/
def handlerOf (c : Controller τ) (v : Int) : Option τ := (c.entryOf v).bind Vector.handler

/-- The registered vector numbers, in registration order. -/
def numbers (c : Controller τ) : List Int := c.vectors.map Vector.number

/-- The handler calls servicing makes for one registered vector. -/
def deliveries (x : Vector τ) : List (τ × Int) :=
  match x.handler with
  | some h => List.replicate x.pending (h, x.number)
  | none => []

theorem calls_eq (c : Controller τ) : c.calls = c.vectors.flatMap deliveries := rfl

theorem registered_iff (c : Controller τ) (v : Int) :
    c.registered v = true ↔ (c.entryOf v).isSome := by
  simp [registered, entryOf, List.any_eq_true, List.find?_isSome]

theorem entryOf_number {c : Controller τ} {v : Int} {x : Vector τ} (h : c.entryOf v = some x) :
    x.number = v := by
  simpa using List.find?_some h

/-- Among vectors of distinct numbers, each is the entry of its number. -/
theorem entryOf_of_mem {c : Controller τ} (hc : c.numbers.Nodup) {x : Vector τ}
    (hx : x ∈ c.vectors) : c.entryOf x.number = some x := by
  have hsome : (c.entryOf x.number).isSome := by
    rw [← registered_iff]
    simpa [registered] using ⟨x, hx, rfl⟩
  obtain ⟨y, hy⟩ := Option.isSome_iff_exists.mp hsome
  have hmem : y ∈ c.vectors := List.mem_of_find?_eq_some hy
  rw [hy, List.inj_on_of_nodup_map hc hmem hx (entryOf_number hy)]

/-- A change of vectors that keeps their numbers changes each entry alike. -/
theorem entryOf_map {c : Controller τ} {f : Vector τ → Vector τ}
    (hf : ∀ x, (f x).number = x.number) (w : Int) :
    ({ vectors := c.vectors.map f } : Controller τ).entryOf w = (c.entryOf w).map f := by
  simp only [entryOf, List.find?_map]
  congr 2
  funext x
  simp [hf]

theorem numbers_map {c : Controller τ} {f : Vector τ → Vector τ}
    (hf : ∀ x, (f x).number = x.number) :
    ({ vectors := c.vectors.map f } : Controller τ).numbers = c.numbers := by
  simp [numbers, Function.comp_def, hf]

/-- Among vectors of distinct numbers, those numbered `v` are the one found. -/
theorem filter_number {l : List (Vector τ)} (hl : (l.map Vector.number).Nodup) (v : Int) :
    l.filter (·.number == v) = (l.find? (·.number == v)).toList := by
  induction l with
  | nil => rfl
  | cons x l ih =>
    rw [List.map_cons, List.nodup_cons] at hl
    by_cases hx : x.number = v
    · -- no later vector has the number
      have hnone : l.filter (·.number == v) = [] := by
        rw [List.filter_eq_nil_iff]
        intro y hy hyv
        exact hl.1 (hx ▸ (beq_iff_eq.mp hyv) ▸ List.mem_map_of_mem hy)
      simp [hx, hnone]
    · simp [hx, ih hl.2]

theorem flatMap_filter {α β : Type} (p : α → Bool) (f : α → List β) (l : List α) :
    (l.filter p).flatMap f = l.flatMap (fun x => if p x then f x else []) := by
  induction l with
  | nil => rfl
  | cons x l ih => by_cases hx : p x <;> simp [hx, ih]

/-! ## One call -/

theorem modifyVector_ok {c c' : Controller τ} {v : Int} {g : Vector τ → Vector τ}
    (h : c.modifyVector v g = .ok c') :
    (c.entryOf v).isSome ∧ c' = { vectors := c.vectors.map fun x => if x.number == v then g x else x } := by
  unfold modifyVector at h
  split at h
  · rename_i hreg
    cases h
    exact ⟨(registered_iff c v).mp hreg, rfl⟩
  · cases h

/-- Changing the vector numbered `v` changes the entry of `v` alone. -/
theorem entryOf_modifyVector {c c' : Controller τ} {v : Int} {g : Vector τ → Vector τ}
    (hg : ∀ x, (g x).number = x.number) (h : c.modifyVector v g = .ok c') (w : Int) :
    c'.entryOf w = if w = v then (c.entryOf w).map g else c.entryOf w := by
  rw [(modifyVector_ok h).2, entryOf_map (fun x => by split <;> simp [hg])]
  rcases hx : c.entryOf w with _ | x
  · simp
  · have := entryOf_number hx
    by_cases hw : w = v <;> simp [this, hw]

/-- Registering a new vector appends it, with no handler and nothing waiting. -/
theorem registerVector_ok {c c' : Controller τ} {v : Int} (h : c.registerVector v = .ok c') :
    v ∉ c.numbers ∧ c'.numbers = c.numbers ++ [v] ∧ c'.queued = c.queued ∧
      c'.handlerOf = c.handlerOf := by
  unfold registerVector at h
  split at h
  · cases h
  · rename_i hreg
    cases h
    have hnone : c.entryOf v = none := by
      rw [← Option.not_isSome_iff_eq_none, ← registered_iff]
      simpa using hreg
    -- the new vector is the entry of `v`, and every other entry stays
    have hentry : ∀ w, ({ vectors := c.vectors ++ [{ number := v }] } : Controller τ).entryOf w =
        if w = v then some { number := v } else c.entryOf w := by
      intro w
      simp only [entryOf, List.find?_append]
      by_cases hw : w = v
      · subst hw
        rw [show c.vectors.find? (·.number == w) = none from hnone]
        simp
      · simp [hw, Ne.symm hw]
    refine ⟨fun hv => ?_, by simp [numbers], funext fun w => ?_, funext fun w => ?_⟩
    · obtain ⟨x, hx, rfl⟩ := List.mem_map.mp hv
      rw [entryOf, List.find?_eq_none] at hnone
      exact hnone x hx (by simp)
    · simp only [queued, hentry]
      split
      · subst w
        simp [hnone]
      · rfl
    · simp only [handlerOf, hentry]
      split
      · subst w
        simp [hnone]
      · rfl

/-- Giving vector `v` a handler changes its handler alone. -/
theorem registerHandler_ok {c c' : Controller τ} {v : Int} {h : τ}
    (hok : c.registerHandler v h = .ok c') :
    c'.numbers = c.numbers ∧ c'.queued = c.queued ∧
      ∀ w, c'.handlerOf w = if w = v then some h else c.handlerOf w := by
  have hentry : ∀ w, c'.entryOf w =
      if w = v then (c.entryOf w).map (fun x => { x with handler := some h }) else c.entryOf w :=
    entryOf_modifyVector (fun _ => rfl) hok
  obtain ⟨hreg, rfl⟩ := modifyVector_ok hok
  refine ⟨numbers_map (fun x => by split <;> rfl), funext fun w => ?_, fun w => ?_⟩
  · simp only [queued, hentry]
    split
    · rcases c.entryOf w with _ | x <;> rfl
    · rfl
  · simp only [handlerOf, hentry]
    split
    · subst w
      obtain ⟨x, hx⟩ := Option.isSome_iff_exists.mp hreg
      simp [hx]
    · rfl

/-- Raising a request on vector `v` queues one more there and changes nothing
else. -/
theorem raise_ok {c c' : Controller τ} {v : Int} (hok : c.raise v = .ok c') :
    c'.numbers = c.numbers ∧ c'.handlerOf = c.handlerOf ∧
      ∀ w, c'.queued w = c.queued w + if w = v then 1 else 0 := by
  have hentry : ∀ w, c'.entryOf w =
      if w = v then (c.entryOf w).map (fun x => { x with pending := x.pending + 1 }) else c.entryOf w :=
    entryOf_modifyVector (fun _ => rfl) hok
  obtain ⟨hreg, rfl⟩ := modifyVector_ok hok
  refine ⟨numbers_map (fun x => by split <;> rfl), funext fun w => ?_, fun w => ?_⟩
  · simp only [handlerOf, hentry]
    split
    · rcases c.entryOf w with _ | x <;> rfl
    · rfl
  · simp only [queued, hentry]
    split
    · subst w
      obtain ⟨x, hx⟩ := Option.isSome_iff_exists.mp hreg
      simp [hx]
    · simp

/-- Servicing empties the queue of each vector with a handler and keeps the
rest: registrations, handlers and the other queues. -/
theorem service_entryOf (c : Controller τ) (v : Int) :
    c.service.2.entryOf v =
      (c.entryOf v).map fun x => if x.handler.isSome then { x with pending := 0 } else x :=
  entryOf_map (fun x => by split <;> rfl) v

theorem service_calls_eq (c : Controller τ) : c.service.1 = c.calls := rfl

theorem service_numbers (c : Controller τ) : c.service.2.numbers = c.numbers :=
  numbers_map (fun x => by split <;> rfl)

theorem service_queued (c : Controller τ) (v : Int) :
    c.service.2.queued v = if (c.handlerOf v).isSome then 0 else c.queued v := by
  show ((c.service.2.entryOf v).map Vector.pending).getD 0 =
    if ((c.entryOf v).bind Vector.handler).isSome then 0 else ((c.entryOf v).map Vector.pending).getD 0
  rw [service_entryOf]
  rcases c.entryOf v with _ | x
  · simp
  · by_cases hx : x.handler.isSome <;> simp [hx]

theorem service_handlerOf (c : Controller τ) : c.service.2.handlerOf = c.handlerOf := by
  funext v
  simp only [handlerOf, service_entryOf]
  rcases c.entryOf v with _ | x
  · rfl
  · by_cases hx : x.handler.isSome <;> simp [hx]

theorem deliveries_found {v : Int} {o : Option (Vector τ)} (ho : ∀ x, o = some x → x.number = v) :
    (o.toList.flatMap deliveries).map Prod.snd =
      if (o.bind Vector.handler).isSome then List.replicate ((o.map Vector.pending).getD 0) v
      else [] := by
  cases o with
  | none => simp
  | some x =>
    have hv := ho x rfl
    simp only [Option.toList_some, List.flatMap_cons, List.flatMap_nil, List.append_nil,
      Option.bind_some, Option.map_some, Option.getD_some]
    unfold deliveries
    cases x.handler <;> simp [hv]

/-- The handler calls servicing makes for vector `v`: one for each waiting
request, if `v` has a handler, and none otherwise. -/
theorem calls_for {c : Controller τ} (hc : c.numbers.Nodup) (v : Int) :
    (c.calls.filter (·.2 == v)).map Prod.snd =
      if (c.handlerOf v).isSome then List.replicate (c.queued v) v else [] := by
  -- every call of a vector is made for that vector's number
  have hx : ∀ x : Vector τ, (deliveries x).filter (·.2 == v) =
      if x.number == v then deliveries x else [] := by
    intro x
    unfold deliveries
    split <;> by_cases hv : x.number = v <;> simp [hv]
  rw [calls_eq, List.filter_flatMap]
  simp only [hx]
  rw [← flatMap_filter, filter_number hc]
  exact deliveries_found (fun _ => entryOf_number)

/-- Servicing calls, vector by vector in registration order, the current
handler of each vector that has one once for each waiting request: as many
calls as requests wait on such vectors. -/
theorem service_calls {c : Controller τ} (hc : c.numbers.Nodup) :
    c.service.1 = c.numbers.flatMap (fun v => match c.handlerOf v with
      | some h => List.replicate (c.queued v) (h, v)
      | none => []) ∧
    c.service.1.length =
      (c.numbers.map fun v => if (c.handlerOf v).isSome then c.queued v else 0).sum := by
  have hcalls : c.service.1 = c.numbers.flatMap (fun v => match c.handlerOf v with
      | some h => List.replicate (c.queued v) (h, v)
      | none => []) := by
    show c.vectors.flatMap deliveries = _
    rw [numbers, List.flatMap_map]
    apply List.flatMap_congr
    intro x hx
    simp only [handlerOf, queued, entryOf_of_mem hc hx, Option.bind_some, Option.map_some,
      Option.getD_some, deliveries]
  refine ⟨hcalls, ?_⟩
  rw [hcalls, List.length_flatMap]
  congr 1
  apply List.map_congr_left
  intro v _
  cases c.handlerOf v <;> simp

/-! ## Sequences of calls -/

/-- A call on an interrupt controller. -/
inductive Op (τ : Type) where
  | registerVector (v : Int)
  | registerHandler (v : Int) (h : τ)
  | raise (v : Int)
  | service

/-- What the calls made so far have done: the requests raised, each shown as
its vector, and the handler calls made, each a handler and the vector it was
called for. -/
structure Trail (τ : Type) where
  raised : List Int := []
  delivered : List (τ × Int) := []

namespace Op

/-- A call on `c`: the controller after it, the requests it raised and the
handler calls it made; or the fault it fails with. -/
def perform : Op τ → Controller τ → Except Fault (Controller τ × List Int × List (τ × Int))
  | .registerVector v, c => (c.registerVector v).map fun c' => (c', [], [])
  | .registerHandler v h, c => (c.registerHandler v h).map fun c' => (c', [], [])
  | .raise v, c => (c.raise v).map fun c' => (c', [v], [])
  | .service, c => .ok (c.service.2, [], c.service.1)

/-- Make a call, keeping the trail; a call that fails changes nothing. -/
def apply (s : Controller τ × Trail τ) (op : Op τ) : Controller τ × Trail τ :=
  match op.perform s.1 with
  | .ok (c, raised, calls) => (c, ⟨s.2.raised ++ raised, s.2.delivered ++ calls⟩)
  | .error _ => s

/-- The calls a controller refuses: registering a vector twice, and naming a
vector never registered. -/
def Refused (c : Controller τ) : Op τ → Prop
  | .registerVector v => c.registered v = true
  | .registerHandler v _ => c.registered v = false
  | .raise v => c.registered v = false
  | .service => False

theorem perform_error_iff (c : Controller τ) (op : Op τ) :
    (∃ e, op.perform c = .error e) ↔ op.Refused c := by
  cases op with
  | registerVector v =>
    simp only [perform, Refused, Controller.registerVector]
    by_cases hv : c.registered v = true <;> simp [hv, Except.map]
  | registerHandler v h =>
    simp only [perform, Refused, Controller.registerHandler, modifyVector]
    by_cases hv : c.registered v = true <;> simp [hv, Except.map]
  | raise v =>
    simp only [perform, Refused, Controller.raise, modifyVector]
    by_cases hv : c.registered v = true <;> simp [hv, Except.map]
  | service => simp [perform, Refused]

theorem apply_of_refused {s : Controller τ × Trail τ} {op : Op τ} (h : op.Refused s.1) :
    apply s op = s := by
  obtain ⟨e, he⟩ := (perform_error_iff s.1 op).mpr h
  simp only [apply, he]

end Op

/-- No request is lost or made up: on every vector, the requests delivered
followed by those waiting are those raised.  Vectors are registered once each. -/
structure Conserves (s : Controller τ × Trail τ) : Prop where
  distinct : s.1.numbers.Nodup
  conserved : ∀ v, (s.2.delivered.filter (·.2 == v)).map Prod.snd ++
    List.replicate (s.1.queued v) v = s.2.raised.filter (· == v)

/-- Every call keeps the invariant, one case per call. -/
theorem Conserves.apply {s : Controller τ × Trail τ} (h : Conserves s) (op : Op τ) :
    Conserves (Op.apply s op) := by
  obtain ⟨c, tr⟩ := s
  obtain ⟨hd, hcons⟩ := h
  cases op with
  | registerVector v =>
    simp only [Op.apply, Op.perform]
    cases hr : c.registerVector v with
    | error e => exact ⟨hd, hcons⟩
    | ok c' =>
      simp only [Except.map]
      obtain ⟨hv, hn, hq, -⟩ := registerVector_ok hr
      refine ⟨?_, fun w => ?_⟩
      · rw [hn, List.nodup_append]
        refine ⟨hd, List.nodup_singleton v, fun a ha b hb hab => hv ?_⟩
        rw [List.mem_singleton] at hb
        rwa [← hb, ← hab]
      · simpa [hq] using hcons w
  | registerHandler v h =>
    simp only [Op.apply, Op.perform]
    cases hr : c.registerHandler v h with
    | error e => exact ⟨hd, hcons⟩
    | ok c' =>
      simp only [Except.map]
      obtain ⟨hn, hq, -⟩ := registerHandler_ok hr
      refine ⟨by rw [hn]; exact hd, fun w => ?_⟩
      simpa [hq] using hcons w
  | raise v =>
    simp only [Op.apply, Op.perform]
    cases hr : c.raise v with
    | error e => exact ⟨hd, hcons⟩
    | ok c' =>
      simp only [Except.map]
      obtain ⟨hn, -, hq⟩ := raise_ok hr
      refine ⟨by rw [hn]; exact hd, fun w => ?_⟩
      -- the new request joins the end of its vector's queue
      simp only [hq, List.filter_append, List.append_nil]
      rw [← hcons w, List.replicate_add]
      by_cases hw : w = v
      · subst hw
        simp
      · simp [hw, Ne.symm hw]
  | service =>
    simp only [Op.apply, Op.perform]
    refine ⟨by rw [service_numbers]; exact hd, fun w => ?_⟩
    -- a vector's waiting requests move from its queue to the calls
    simp only [List.filter_append, List.map_append, List.append_nil]
    rw [service_calls_eq, calls_for hd w, service_queued, ← hcons w]
    split <;> simp

/-- The invariant holds after any calls.  Induction on the calls. -/
theorem Conserves.foldl (ops : List (Op τ)) :
    ∀ {s : Controller τ × Trail τ}, Conserves s → Conserves (ops.foldl Op.apply s) := by
  induction ops with
  | nil =>
    intro s h
    exact h
  | cons op ops ih =>
    intro s h
    exact ih (h.apply op)

/-- Interrupt requests are delivered once each.  Make any calls on a new
controller, each returned or failed; show requests as the vectors they were
raised on.  Then:
* on every vector, the requests delivered to its handlers followed by those
  still waiting are exactly the requests raised on it;
* servicing now calls, vector by vector in registration order, the current
  handler of each vector that has one, once for each waiting request; it makes
  as many calls as requests wait on such vectors, empties their queues and
  leaves the queues of vectors without a handler, the registrations and the
  handlers as they were;
* a call fails exactly when it registers a vector twice or names a vector
  never registered, and then changes nothing. -/
theorem delivers_each_request_once (ops : List (Op τ)) :
    let s := ops.foldl Op.apply (({} : Controller τ), ({} : Trail τ))
    (∀ v, (s.2.delivered.filter (·.2 == v)).map Prod.snd ++ List.replicate (s.1.queued v) v =
        s.2.raised.filter (· == v)) ∧
      (s.1.service.1 = s.1.numbers.flatMap (fun v => match s.1.handlerOf v with
          | some h => List.replicate (s.1.queued v) (h, v)
          | none => []) ∧
        s.1.service.1.length =
          (s.1.numbers.map fun v => if (s.1.handlerOf v).isSome then s.1.queued v else 0).sum ∧
        (∀ v, s.1.service.2.queued v = if (s.1.handlerOf v).isSome then 0 else s.1.queued v) ∧
        s.1.service.2.numbers = s.1.numbers ∧ s.1.service.2.handlerOf = s.1.handlerOf) ∧
      (∀ op : Op τ, ((∃ e, op.perform s.1 = .error e) ↔ op.Refused s.1) ∧
        (op.Refused s.1 → Op.apply s op = s)) := by
  intro s
  have h : Conserves s := Conserves.foldl ops ⟨List.nodup_nil, fun v => by simp [queued, entryOf]⟩
  obtain ⟨hcalls, hlen⟩ := service_calls h.distinct
  exact ⟨h.conserved, ⟨hcalls, hlen, service_queued s.1, service_numbers s.1,
    service_handlerOf s.1⟩, fun op => ⟨Op.perform_error_iff s.1 op, Op.apply_of_refused⟩⟩

end Controller

end DemandPaging
