import DemandPaging.Fault

/-!
# Interrupts

Requests from outside the running program arrive on numbered vectors.  A
vector must be registered before anything else is done with it; it may then
get a handler (replacing any earlier one) and requests may be raised on it.
Raising only queues a request.  Servicing, done between instructions, visits
the vectors in the order they were registered and, for each vector that has
a handler, delivers its queued requests first to last; a vector without a
handler keeps its queue.

Handlers are tags of any type `τ`: servicing returns the calls it made, each
a handler tag and the vector it was called for, and the caller gives them
their effect.  Requests carry nothing but their vector, so a queue is a
count.
-/

namespace DemandPaging

/-- One registered vector: its number, its handler if any, and how many
requests wait on it. -/
structure Vector (τ : Type) where
  number : Int
  handler : Option τ := none
  pending : Nat := 0
  deriving Repr

/-- An interrupt controller: its vectors in registration order. -/
structure Controller (τ : Type) where
  vectors : List (Vector τ) := []
  deriving Repr

namespace Controller

variable {τ : Type}

/-- Whether a vector is registered. -/
def registered (c : Controller τ) (v : Int) : Bool :=
  c.vectors.any (fun x => x.number == v)

/-- Register a new vector. -/
def registerVector (c : Controller τ) (v : Int) : Except Fault (Controller τ) :=
  if c.registered v then .error (.vectorTaken v)
  else .ok { vectors := c.vectors ++ [{ number := v }] }

/-- Change the entry of a registered vector. -/
def modifyVector (c : Controller τ) (v : Int) (f : Vector τ → Vector τ) :
    Except Fault (Controller τ) :=
  if c.registered v then
    .ok { vectors := c.vectors.map (fun x => if x.number == v then f x else x) }
  else .error (.vectorUnknown v)

/-- Give a registered vector its handler. -/
def registerHandler (c : Controller τ) (v : Int) (h : τ) : Except Fault (Controller τ) :=
  c.modifyVector v ({ · with handler := some h })

/-- Queue a request on a registered vector. -/
def raise (c : Controller τ) (v : Int) : Except Fault (Controller τ) :=
  c.modifyVector v (fun x => { x with pending := x.pending + 1 })

/-- The handler calls that servicing makes, in order. -/
def calls (c : Controller τ) : List (τ × Int) :=
  c.vectors.flatMap fun x =>
    match x.handler with
    | some h => List.replicate x.pending (h, x.number)
    | none => []

/-- Service every pending request that has a handler: the calls made, and
the controller with those queues emptied. -/
def service (c : Controller τ) : List (τ × Int) × Controller τ :=
  (c.calls, { vectors := c.vectors.map fun x => if x.handler.isSome then { x with pending := 0 } else x })

end Controller

end DemandPaging
