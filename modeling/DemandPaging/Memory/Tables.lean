import DemandPaging.Data.Index

/-!
# Page table and core map

The page table has an entry per virtual page and answers "where is this page
now?"; the core map has an entry per frame and answers "which page lives in
this frame?".  The pager keeps them consistent: page `v` is resident with
location `f` exactly when frame `f` is owned by `v`.

A page entry's location is the frame while the page is resident, the swap
slot while it is only on disk, and 0 otherwise.  A frame entry names its
owner (none for a frame never used) and the swap slot its contents last came
from or went to (none if they did not come from swap).
-/

namespace DemandPaging

/-- What the pager knows about one virtual page. -/
structure PageEntry where
  resident : Bool := false
  onDisk : Bool := false
  dirty : Bool := false
  referenced : Bool := false
  readOnly : Bool := false
  touched : Bool := false
  location : Int := 0
  deriving DecidableEq, Repr

/-- Whether a page was never brought in: not touched, resident or on disk. -/
def PageEntry.untouched (e : PageEntry) : Bool :=
  !(e.touched || e.resident || e.onDisk)

/-- Whether every field of a page entry is false or zero. -/
def PageEntry.isClear (e : PageEntry) : Bool :=
  !(e.resident || e.onDisk || e.dirty || e.referenced || e.readOnly || e.touched) &&
    e.location == 0

/-- What the pager knows about one frame. -/
structure FrameEntry where
  owner : Option Int := none
  slot : Option Int := none
  deriving DecidableEq, Repr

/-- The page table: one entry per virtual page. -/
abbrev PageTable := Array PageEntry

/-- The core map: one entry per frame. -/
abbrev CoreMap := Array FrameEntry

/-- The virtual pages currently in RAM, ascending. -/
def residentPages (t : PageTable) : List Nat :=
  (List.range t.size).filter (fun v => (t[v]?.map PageEntry.resident).getD false)

/-- The first frame owned by page `v`. -/
def frameOf (c : CoreMap) (v : Int) : Option Nat :=
  c.findIdx? (fun e => e.owner == some v)

end DemandPaging
