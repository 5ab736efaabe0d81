import DemandPaging.Fault
import DemandPaging.Memory.Tables

/-!
# Residency

The page table and the core map must agree: every resident page claims an
existing frame that it owns, no page owns two frames, and every owned frame
is the location of its owner, which is resident.  `residencyViolations` lists
what breaks this, in a fixed order: too many resident pages; then, for each
resident page in ascending order, a claim on a missing frame or on a frame
owned by another page; then, for each owned frame, a page owning a second
frame and an owner that is not resident there.  Owners are looked up in the
page table as indices, so a wild owner can make the check itself fail.
-/

namespace DemandPaging

/-- What a resident page `v` at `location` breaks, if anything. -/
def claimViolation (frames : CoreMap) (v : Nat) (location : Int) : Option String :=
  if h : 0 ≤ location ∧ location < frames.size then
    let owner := frames[location.toNat].owner
    if owner = some (v : Int) then none
    else
      let shown := (owner.map toString).getD "None"
      some s!"page {v} claims frame {location} owned by {shown}"
  else some s!"page {v} claims nonexistent frame {location}"

/-- What the owned frames break, scanning from frame `f` with the owners `seen`
so far. -/
def ownerViolations (pages : PageTable) : List FrameEntry → Nat → List Int → Except Fault (List String)
  | [], _, _ => .ok []
  | e :: rest, f, seen =>
    match e.owner with
    | none => ownerViolations pages rest (f + 1) seen
    | some o => do
      let twice := if seen.contains o then [s!"page {o} owns more than one frame"] else []
      let page ← Seq.read pages o
      let astray :=
        if page.resident && page.location == (f : Int) then []
        else [s!"frame {f} owned by page {o} which is not resident there"]
      let later ← ownerViolations pages rest (f + 1) (o :: seen)
      pure (twice ++ astray ++ later)

/-- Everything in which the page table and core map disagree. -/
def residencyViolations (pages : PageTable) (frames : CoreMap) : Except Fault (List String) := do
  let resident := residentPages pages
  let count := resident.length
  let size := frames.size
  let tooMany := if size < count then [s!"{count} resident pages exceed {size} frames"] else []
  let claims := resident.filterMap fun v =>
    claimViolation frames v ((pages[v]?.map PageEntry.location).getD 0)
  let owners ← ownerViolations pages frames.toList 0 []
  pure (tooMany ++ claims ++ owners)

end DemandPaging
