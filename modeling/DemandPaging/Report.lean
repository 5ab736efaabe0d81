import DemandPaging.Word
import DemandPaging.Memory.Pager

/-!
# Reports

Text views of a machine: the counters one per line; the core map, one line
per frame, and the page table, one line per page ever brought in; and the
register file, four registers to a row, each shown as a signed word in a
left-aligned field of twelve, with trailing blanks cut from each row.
-/

namespace DemandPaging

/-- The counters, one per line. -/
def formatStatistics (s : Statistics) : String :=
  let a := s.accesses
  let f := s.faults
  let r := s.diskReads
  let w := s.diskWrites
  s!"{a} memory accesses\n{f} page faults\n{r} disk reads\n{w} disk writes"

/-- One line per frame. -/
def formatCoreMap (frames : CoreMap) : String :=
  let line := fun (f : Nat) (e : FrameEntry) =>
    let slot := match e.slot with
      | some s => toString s
      | none => "-"
    let owner := match e.owner with
      | some o => s!"Owner = {o}."
      | none => "No owner."
    s!"Entry {f}: Swap page = {slot}. {owner}"
  "\n".intercalate ("Core map:" :: (frames.toList.zipIdx.map fun (e, f) => line f e))

/-- `1` for true and `0` for false. -/
def bit (b : Bool) : Nat := if b then 1 else 0

/-- One line per page ever brought in. -/
def formatPageTable (pages : PageTable) : String :=
  let line := fun (v : Nat) (e : PageEntry) =>
    let l := e.location
    let r := bit e.resident
    let d := bit e.onDisk
    let m := bit e.dirty
    let f := bit e.referenced
    let o := bit e.readOnly
    s!"Entry {v}: Ram/Swap page = {l}. In memory = {r}. On disk = {d}. Modified = {m}. Referenced = {f}. Readonly = {o}."
  let shown := (pages.toList.zipIdx.filter fun (e, _) => !e.untouched).map fun (e, v) => line v e
  "\n".intercalate ("Page table:" :: shown)

/-- The core map, a blank line, and the page table. -/
def formatTables (frames : CoreMap) (pages : PageTable) : String :=
  formatCoreMap frames ++ "\n\n" ++ formatPageTable pages

/-- `s` padded with blanks on the right to `width` characters. -/
def padRight (width : Nat) (s : String) : String :=
  s ++ String.ofList (List.replicate (width - s.length) ' ')

/-- `n` in decimal, padded with zeros on the left to two digits. -/
def zeroPad2 (n : Nat) : String :=
  let t := toString n
  String.ofList (List.replicate (2 - t.length) '0') ++ t

/-- `s` without trailing blanks. -/
def trimRight (s : String) : String :=
  String.ofList (s.toList.reverse.dropWhile (· = ' ')).reverse

/-- Consecutive groups of four, the last one possibly shorter. -/
def groupsOfFour {α : Type} : List α → List (List α)
  | a :: b :: c :: d :: rest => [a, b, c, d] :: groupsOfFour rest
  | [] => []
  | xs => [xs]

/-- The register file, four to a row. -/
def formatRegisters (registers : List Int) : String :=
  let cell := fun (v : Int) (r : Nat) =>
    let name := zeroPad2 r
    let value := padRight 12 (toString (toSigned v))
    s!"R{name} = {value}"
  let cells := registers.zipIdx.map fun (v, r) => cell v r
  "\n".intercalate ((groupsOfFour cells).map fun row => trimRight ("| ".intercalate row))

end DemandPaging
