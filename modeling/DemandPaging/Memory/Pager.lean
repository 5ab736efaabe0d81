import DemandPaging.Geometry
import DemandPaging.Memory.Ram
import DemandPaging.Memory.Swap
import DemandPaging.Memory.Tables
import DemandPaging.Memory.Replacement
import DemandPaging.Log
import DemandPaging.Interrupts

/-!
# The pager

The board is everything the processor is wired to: RAM, swap, the page
table and core map, the replacement policy, the access counters, the
interrupt controller and the event log.  The pager translates a virtual
address into a physical one:

1. count the access;
2. split the address into page and offset (floor division by the page
   size), and fail unless the page lies in the address space;
3. record the page in the trace being recorded, if any, and tell the policy;
4. if the page is not resident, take a fault: count it, take a frame (never
   used frames first, in index order, then the policy's victim, whose page is
   evicted), and fill the frame from the page's swap slot or with zeros;
5. mark the page referenced, and dirty on a write.

Evicting a dirty page writes it to swap, first giving it a slot unless it is
on disk with a slot already bound to its frame; a clean page is dropped.

Every operation is an action in `EStateM Fault Board`, so an operation that
fails keeps the effects it had before failing: an access that faults on a
full swap space has still been counted, traced and shown to the policy.
-/

namespace DemandPaging

/-- Counters kept over the life of a machine. -/
structure Statistics where
  accesses : Nat := 0
  faults : Nat := 0
  diskReads : Nat := 0
  diskWrites : Nat := 0
  deriving DecidableEq, Repr

/-- The handlers the machine installs on its interrupt vectors. -/
inductive Handler where
  /-- Ask the processor to stop at the next instruction boundary. -/
  | stop
  deriving DecidableEq, Repr

/-- The vector on which stop requests arrive. -/
def stopVector : Int := 2

/-- Everything the processor of a paged machine is wired to. -/
structure Board where
  geometry : Geometry
  ram : Ram
  swap : Swap
  pages : PageTable
  frames : CoreMap
  policy : Policy
  stats : Statistics := {}
  /-- Frames from `fresh` on have never been used. -/
  fresh : Nat := 0
  /-- The pages accessed so far, when the board records them. -/
  recording : Option (Array Int) := none
  log : Log
  interrupts : Controller Handler := {}

/-- Actions on a board that may fail. -/
abbrev BoardM := EStateM Fault Board

namespace Board

/-- A fresh board: zeroed RAM and swap, empty tables, a policy of kind
`kind`, and a stop vector.  The parts are made in that order, so the first
that cannot be made is the fault. -/
def create (g : Geometry) (kind : PolicyKind) (trace : Option (List Int)) (record : Bool)
    (log : Log) : Except Fault Board := do
  let ram ← Ram.create g.frames g.pageSize
  let swap ← Swap.create g.swapSlots g.pageSize
  let policy ← Policy.create kind g.frames trace
  pure {
    geometry := g
    ram
    swap
    pages := Array.replicate g.virtualPages.toNat {}
    frames := Array.replicate g.frames.toNat {}
    policy
    recording := if record then some #[] else none
    log
    interrupts := { vectors := [{ number := stopVector, handler := some .stop }] } }

/-- Run a computation that may fail. -/
def ofExcept {α : Type} : Except Fault α → BoardM α
  | .ok a => pure a
  | .error e => throw e

/-- Record an entry in the event log. -/
def note (level : Level) (source message : String) (tick : Int) : BoardM Unit :=
  modify fun b => { b with log := b.log.add ⟨level, message, source, tick⟩ }

/-- Record an entry of the pager, ticked with the access count. -/
def notePager (level : Level) (message : String) : BoardM Unit := do
  note level "pager" message (← get).stats.accesses

/-- The entry of page `v`. -/
def pageAt (v : Int) : BoardM PageEntry := do
  ofExcept (Seq.read (← get).pages v)

/-- Change the entry of page `v`. -/
def modifyPage (v : Int) (f : PageEntry → PageEntry) : BoardM Unit :=
  modify fun b => { b with pages := Seq.update b.pages v f }

/-- The entry of frame `f`. -/
def frameAt (f : Int) : BoardM FrameEntry := do
  ofExcept (Seq.read (← get).frames f)

/-- Change the entry of frame `f`. -/
def modifyFrame (f : Int) (g : FrameEntry → FrameEntry) : BoardM Unit :=
  modify fun b => { b with frames := Seq.update b.frames f g }

/-- Ask the policy for a victim frame; the policy and page table keep what
the search did even when it fails. -/
def selectVictim : BoardM Int := fun b =>
  let (result, policy, pages) := b.policy.selectVictim b.frames b.pages
  let b' := { b with policy, pages }
  match result with
  | .ok f => .ok f b'
  | .error e => .error e b'

/-- Hand out the next swap slot. -/
def allocateSlot : BoardM Int := do
  let (slot, swap) ← ofExcept (← get).swap.allocate
  modify fun b => { b with swap }
  pure slot

/-- Write the dirty page `owner` of frame `f` (whose core map entry is
`entry`) to swap, first giving it a slot unless it is on disk with a slot
already bound to its frame. -/
def saveFrame (f : Int) (entry : FrameEntry) (owner : Int) (page : PageEntry) : BoardM Unit := do
  let slot ← match page.onDisk, entry.slot with
    | true, some s => pure s
    | _, _ => do
      let s ← allocateSlot
      modifyFrame f ({ · with slot := some s })
      notePager .info s!"page {owner} assigned swap slot {s}"
      pure s
  let b ← get
  let swap ← ofExcept (b.swap.store slot (b.ram.readFrame f))
  modify fun b => { b with swap, stats.diskWrites := b.stats.diskWrites + 1 }
  modifyPage owner ({ · with onDisk := true })

/-- Take page `owner` out of frame `f`: it is clean and out of RAM, and
located at its frame's slot if it is on disk. -/
def detach (f owner : Int) : BoardM Unit := do
  let slot := (← frameAt f).slot
  modifyPage owner fun e =>
    { e with resident := false, dirty := false, location := if e.onDisk then slot.getD 0 else 0 }
  notePager .debug s!"page {owner} evicted from frame {f}"

/-- Detach the page occupying frame `f`, saving it to swap if it is dirty. -/
def evict (f : Int) : BoardM Unit := do
  let entry ← frameAt f
  match entry.owner with
  | none => pure ()
  | some owner =>
    let page ← pageAt owner
    if page.dirty then saveFrame f entry owner page
    detach f owner

/-- A frame free for the faulting page: a never used one, else the policy's
victim after evicting its page. -/
def takeFrame : BoardM Int := do
  let b ← get
  if b.fresh < b.frames.size then
    set { b with fresh := b.fresh + 1 }
    pure b.fresh
  else
    let f ← selectVictim
    evict f
    pure f

/-- Fill frame `f` with page `v`: from its swap slot if it is on disk, with
zeros otherwise; the frame's slot is then the page's. -/
def fillFrame (v f : Int) : BoardM Unit := do
  let page ← pageAt v
  if page.onDisk then
    let slot := page.location
    let b ← get
    let data ← ofExcept (b.swap.retrieve slot)
    let ram ← ofExcept (b.ram.writeFrame f data)
    modify fun b => { b with ram, stats.diskReads := b.stats.diskReads + 1 }
    modifyFrame f ({ · with slot := some slot })
    notePager .debug s!"page {v} read from swap slot {slot} into frame {f}"
  else
    let ram ← ofExcept ((← get).ram.zeroFrame f)
    modify fun b => { b with ram }
    modifyFrame f ({ · with slot := none })
    notePager .debug s!"page {v} zero-filled in frame {f}"

/-- Make page `v` the owner of frame `f`, resident there, clean and
unreferenced. -/
def install (v f : Int) : BoardM Unit := do
  modifyFrame f ({ · with owner := some v })
  modifyPage v fun e =>
    { e with touched := true, resident := true, location := f, dirty := false, referenced := false }

/-- Bring the non-resident page `v` into a frame. -/
def handleFault (v : Int) : BoardM Unit := do
  modify fun b => { b with stats.faults := b.stats.faults + 1 }
  let f ← takeFrame
  fillFrame v f
  install v f

/-- The physical address of a virtual address, faulting its page in. -/
def translate (address : Int) (write : Bool) : BoardM Int := do
  modify fun b => { b with stats.accesses := b.stats.accesses + 1 }
  let b ← get
  let size := b.geometry.pageSize
  let v := Int.fdiv address size
  let offset := Int.fmod address size
  if ¬ (0 ≤ v ∧ v < b.pages.size) then
    throw (.addressBeyondSpace address (b.pages.size - 1))
  modify fun b => { b with recording := b.recording.map (·.push v), policy := b.policy.observe }
  let page ← pageAt v
  if !page.resident then handleFault v
  modifyPage v fun e => { e with referenced := true, dirty := e.dirty || write }
  let page ← pageAt v
  pure (page.location * size + offset)

/-- The word at a virtual address. -/
def readWord (address : Int) : BoardM Int := do
  let p ← translate address false
  ofExcept ((← get).ram.read p)

/-- Store a word at a virtual address; RAM keeps its low 32 bits. -/
def writeWord (address value : Int) : BoardM Unit := do
  let p ← translate address true
  let ram ← ofExcept ((← get).ram.write p value)
  modify fun b => { b with ram }

/-- Store `words` at addresses `from`, `from + 1`, ... -/
def storeWords (start : Int) : List Int → BoardM Unit
  | [] => pure ()
  | w :: ws => do
    writeWord start w
    storeWords (start + 1) ws

/-- Store a program at addresses 0, 1, ... and log how many words it has. -/
def loadProgram (words : List Int) : BoardM Nat := do
  storeWords 0 words
  note .info "machine" s!"loaded {words.length} instructions" 0
  pure words.length

/-- Deliver the pending interrupts, the processor being at `pc`: each stop
request is logged.  The result tells whether a stop was delivered. -/
def service (pc : Int) (b : Board) : Bool × Board :=
  let (calls, interrupts) := b.interrupts.service
  let b := { b with interrupts }
  let warn := fun (b : Board) (_ : Handler × Int) =>
    { b with log := b.log.add ⟨.warning, s!"stop requested at pc = {pc}", "machine", b.stats.accesses⟩ }
  (!calls.isEmpty, calls.foldl warn b)

end Board

end DemandPaging
