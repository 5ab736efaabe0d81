import DemandPaging.Fault
import DemandPaging.Data.Index

/-!
# Event log

The machine records what it does as entries: a level, a message, the part
of the machine that reported it, and a tick (the memory-access count, or
the instruction count for the processor).  Levels are ordered
`debug < info < warning < error`.  An entry below the log's minimum level is
dropped on arrival.  A log with a capacity keeps only its newest entries.
A log with a live sink also hands every accepted entry, as the line
`[LEVEL] source: message`, to the sink, which keeps all of them whatever the
capacity; those lines are what a verbose run prints.
-/

namespace DemandPaging

/-- Severity of an entry. -/
inductive Level where
  | debug
  | info
  | warning
  | error
  deriving DecidableEq, Repr

namespace Level

/-- The position of a level in the order of severity. -/
def rank : Level → Nat
  | debug => 0
  | info => 1
  | warning => 2
  | error => 3

/-- The upper-case name of a level. -/
def name : Level → String
  | debug => "DEBUG"
  | info => "INFO"
  | warning => "WARNING"
  | error => "ERROR"

/-- The level with a given upper-case name. -/
def ofName? (s : String) : Option Level :=
  [debug, info, warning, error].find? (fun l => l.name == s)

/-- Whether `a` is at least as severe as `b`. -/
def atLeast (a b : Level) : Bool := b.rank ≤ a.rank

end Level

/-- One log entry. -/
structure Entry where
  level : Level
  message : String
  source : String
  tick : Int := 0
  deriving DecidableEq, Repr

/-- The line that shows an entry. -/
def Entry.text (e : Entry) : String :=
  let level := e.level.name
  let source := e.source
  let message := e.message
  s!"[{level}] {source}: {message}"

/-- An event log. -/
structure Log where
  minLevel : Level := .info
  capacity : Option Nat := none
  live : Bool := false
  entries : Array Entry := #[]
  sent : Array String := #[]
  deriving Repr

namespace Log

/-- An empty log; a capacity must be positive, and at most `maxLength`. -/
def create (minLevel : Level) (capacity : Option Int) (live : Bool) : Except Fault Log :=
  match capacity with
  | some c =>
    if c ≤ 0 then .error (.logCapacity c)
    else if maxLength < c then .error .capacityTooLarge
    else .ok { minLevel, capacity := some c.toNat, live }
  | none => .ok { minLevel, live }

/-- Whether an entry of level `l` would be kept. -/
def enabledFor (log : Log) (l : Level) : Bool := l.atLeast log.minLevel

/-- The log after an entry arrives. -/
def add (e : Entry) (log : Log) : Log :=
  if log.enabledFor e.level then
    let kept :=
      match log.capacity with
      | some c => if log.entries.size < c then log.entries else log.entries.extract (log.entries.size + 1 - c)
      | none => log.entries
    { log with
      entries := kept.push e
      sent := if log.live then log.sent.push e.text else log.sent }
  else log

/-- The entries of level at least `minLevel` (if given) and from `source` (if
given), oldest first. -/
def select (log : Log) (minLevel : Option Level) (source : Option String) : List Entry :=
  log.entries.toList.filter fun e =>
    (minLevel.map (fun l => e.level.atLeast l)).getD true && (source.map (· == e.source)).getD true

/-- The log without its entries. -/
def clear (log : Log) : Log := { log with entries := #[] }

end Log

end DemandPaging
