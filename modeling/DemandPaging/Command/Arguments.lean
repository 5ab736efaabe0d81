import DemandPaging.Text.Integer

/-!
# Command-line arguments

The command takes one positional argument, the program file, and these
options:

    -h, --help                 show help and exit
    -p, --policy NAME          replacement policy (default fifo)
    --trace FILE               page access trace for the optimal policy
    --frames N                 frames of RAM (default 8)
    --page-size N              words per page (default 4)
    --swap-slots N             swap slots (default 128)
    --virtual-pages N          pages of address space (default 2048)
    -v, --verbose              print every log entry as it happens

How arguments are read:

* An argument is an option if it starts with `-`, is not `-` alone, and is
  not a negative number (`-5`, `-.5`, `-1.5`) or a text with a blank; after
  the argument `--`, every argument is positional.
* A long option may be shortened to any prefix that names one option only
  (a prefix naming two is an error), and may carry its value after `=`.
  A short option may carry its value glued on (`-pfifo`), and short flags
  may be run together (`-vp fifo`).
* An option that needs a value takes the next argument, which must not be
  an option; numbers are integer literals (`DemandPaging.Text.readInteger?`).
  One `--` is stripped from every option's arguments, so an option given the
  value `--` in the same argument (`-p--`, `--frames=--`) holds an empty
  list of values rather than a value.
* The first positional argument is the program; `--` just before or after
  it is absorbed; any other positional or unknown option is unrecognized.
* Arguments are taken left to right: help stops at once, a bad value is an
  error at once, and at the end a missing program or anything unrecognized
  is an error.  Errors stop with status 2, help with status 0.
-/

namespace DemandPaging.Command

open Text

/-- The options of the command. -/
inductive Flag where
  | help
  | policy
  | trace
  | frames
  | pageSize
  | swapSlots
  | virtualPages
  | verbose
  deriving DecidableEq, Repr

/-- Whether an option needs a value. -/
def Flag.takesValue : Flag → Bool
  | .help | .verbose => false
  | _ => true

/-- Every spelling of every option, in the order they are declared. -/
def spellings : List (String × Flag) :=
  [("-h", .help), ("--help", .help), ("-p", .policy), ("--policy", .policy),
    ("--trace", .trace), ("--frames", .frames), ("--page-size", .pageSize),
    ("--swap-slots", .swapSlots), ("--virtual-pages", .virtualPages), ("-v", .verbose),
    ("--verbose", .verbose)]

/-- An argument as the parser classifies it. -/
inductive Token where
  /-- A positional argument. -/
  | word (text : String)
  /-- The first `--`. -/
  | separator
  /-- An option (`none` when it names no option), as spelt, with a value
  carried in the same argument. -/
  | option (flag : Option Flag) (spelling : String) (attached : Option String)
  deriving DecidableEq, Repr

/-- Whether an argument looks like a negative number: `-` and digits, or
`-`, digits, a point and at least one digit; a final line feed is allowed. -/
def looksNegative (s : String) : Bool :=
  let cs := s.toList
  let cs := if cs.getLast? = some '\n' then cs.dropLast else cs
  match cs with
  | '-' :: rest =>
    let whole := rest.takeWhile isDigit
    match rest.dropWhile isDigit with
    | [] => !whole.isEmpty
    | '.' :: frac => !frac.isEmpty && frac.all isDigit
    | _ => false
  | _ => false

/-- The text before the first `=`, and the text after it if there is one. -/
def splitAtEquals (s : String) : String × Option String :=
  match s.toList.span (· ≠ '=') with
  | (head, '=' :: tail) => (String.ofList head, some (String.ofList tail))
  | _ => (s, none)

/-- The options an argument could abbreviate, with the value it carries. -/
def candidates (arg : String) : List (Flag × String × Option String) :=
  if arg.startsWith "--" then
    let (head, value) := splitAtEquals arg
    spellings.filterMap fun (s, f) => if s.startsWith head then some (f, s, value) else none
  else
    let short := String.ofList (arg.toList.take 2)
    let glued := String.ofList (arg.toList.drop 2)
    spellings.filterMap fun (s, f) =>
      if s = short then some (f, s, some glued)
      else if s.startsWith arg then some (f, s, none)
      else none

/-- How one argument (before any `--`) is classified; `none` when it
abbreviates two options. -/
def classify (arg : String) : Option Token :=
  if arg.isEmpty || !arg.startsWith "-" then some (.word arg)
  else match spellings.lookup arg with
  | some f => some (.option (some f) arg none)
  | none =>
    if arg.length = 1 then some (.word arg)
    else
      let exact := match splitAtEquals arg with
        | (head, some value) => (spellings.lookup head).map fun f => Token.option (some f) head (some value)
        | _ => none
      match exact with
      | some t => some t
      | none =>
        match candidates arg with
        | [(f, s, value)] => some (.option (some f) s value)
        | _ :: _ :: _ => none
        | [] =>
          if looksNegative arg || arg.contains ' ' then some (.word arg)
          else some (.option none arg none)

/-- The tokens of an argument list; `none` when an argument is ambiguous. -/
def tokenize : List String → Option (List Token)
  | [] => some []
  | "--" :: rest => some (.separator :: rest.map Token.word)
  | arg :: rest => do
    let t ← classify arg
    let ts ← tokenize rest
    pure (t :: ts)

/-- Why parsing stopped early. -/
inductive Stop where
  | help
  | error
  deriving DecidableEq, Repr

/-- The exit status of a stop. -/
def Stop.status : Stop → Nat
  | .help => 0
  | .error => 2

/-- What an option holds: a value, or the empty list of values left when its
only argument was the stripped `--`. -/
inductive Held (α : Type) where
  | value (v : α)
  | emptyList
  deriving DecidableEq, Repr

/-- What the arguments chose. -/
structure Choices where
  program : Option String := none
  policy : Held String := .value "fifo"
  trace : Option (Held String) := none
  frames : Held Int := .value 8
  pageSize : Held Int := .value 4
  swapSlots : Held Int := .value 128
  virtualPages : Held Int := .value 2048
  verbose : Bool := false
  unrecognized : Bool := false
  deriving DecidableEq, Repr

/-- An option's text value, `--` being stripped to the empty list. -/
def text (value : String) : Held String :=
  if value = "--" then .emptyList else .value value

/-- An integer option value: an integer literal, or `--`, which is stripped
to the empty list before any conversion. -/
def number (value : String) : Except Stop (Held Int) :=
  if value = "--" then .ok .emptyList
  else match readInteger? value with
    | some n => .ok (.value n)
    | none => .error .error

/-- The choices after one option is taken, with its value if it has one. -/
def Choices.take (c : Choices) : Flag × Option String → Except Stop Choices
  | (.help, _) => .error .help
  | (.verbose, _) => .ok { c with verbose := true }
  | (.policy, v) => .ok { c with policy := text (v.getD "") }
  | (.trace, v) => .ok { c with trace := some (text (v.getD "")) }
  | (.frames, v) => do pure { c with frames := ← number (v.getD "") }
  | (.pageSize, v) => do pure { c with pageSize := ← number (v.getD "") }
  | (.swapSlots, v) => do pure { c with swapSlots := ← number (v.getD "") }
  | (.virtualPages, v) => do pure { c with virtualPages := ← number (v.getD "") }

/-- The options a short flag run together with more text stands for: flag `f`
then the flags spelt by the characters of `rest`, the last of which may take
the remaining text, or a following argument, as its value.  The result is
the options with their glued values, and whether the last one still needs
the next argument. -/
def unglue (f : Flag) : List Char → Except Stop (List (Flag × Option String) × Bool)
  | [] => .ok ([(f, none)], f.takesValue)
  | c :: rest =>
    if f.takesValue then .ok ([(f, some (String.ofList (c :: rest)))], false)
    else
      match spellings.lookup (String.ofList ['-', c]) with
      | some g => do
        let (more, needs) ← unglue g rest
        pure ((f, none) :: more, needs)
      | none => .error .error

/-- The options an option token stands for, and whether the last one needs
the next argument. -/
def expand (f : Flag) (spelling : String) (attached : Option String) :
    Except Stop (List (Flag × Option String) × Bool) :=
  match attached with
  | none => .ok ([(f, none)], f.takesValue)
  | some v =>
    if f.takesValue then .ok ([(f, some v)], false)
    else if spelling.startsWith "--" || v.isEmpty then .error .error
    else unglue f v.toList

/-- Take each option in turn. -/
def takeAll (c : Choices) : List (Flag × Option String) → Except Stop Choices
  | [] => .ok c
  | a :: rest => do takeAll (← c.take a) rest

/-- The choices made by a token list, left to right.  Only the first `--` is
a separator, so at most one separator is absorbed next to the program. -/
def consume (c : Choices) : List Token → Except Stop Choices
  | [] => .ok c
  | .option none _ _ :: rest => consume { c with unrecognized := true } rest
  | .option (some f) spelling attached :: rest => do
    let (actions, needs) ← expand f spelling attached
    if needs then
      match rest with
      | .word v :: rest' =>
        let actions := actions.dropLast ++ (actions.getLast?.map fun (g, _) => (g, some v)).toList
        consume (← takeAll c actions) rest'
      | _ => .error .error
    else consume (← takeAll c actions) rest
  | .word w :: .separator :: rest =>
    if c.program.isNone then consume { c with program := some w } rest
    else consume { c with unrecognized := true } (.separator :: rest)
  | .word w :: rest =>
    if c.program.isNone then consume { c with program := some w } rest
    else consume { c with unrecognized := true } rest
  | .separator :: .word w :: rest =>
    if c.program.isNone then consume { c with program := some w } rest
    else consume { c with unrecognized := true } (.word w :: rest)
  | .separator :: rest => consume { c with unrecognized := true } rest

/-- What the arguments choose, or why parsing stopped. -/
def parseArguments (args : List String) : Except Stop Choices := do
  let some tokens := tokenize args | .error .error
  let c ← consume {} tokens
  if c.program.isNone || c.unrecognized then .error .error
  else pure c

end DemandPaging.Command
