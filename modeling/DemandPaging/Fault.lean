import DemandPaging.Text.Blank
import DemandPaging.Text.Integer
import DemandPaging.Text.Quoted
import DemandPaging.Text.Utf8

/-!
# Faults

Everything that can go wrong, as causes.  `Fault.message` is the one place
where a fault becomes text, and `Fault.family` sorts faults into the
families that callers tell apart: the command line, for instance, reports
configuration, address, swap and instruction faults and lets no other fault
pass for one of those.
-/

namespace DemandPaging

open Text

/-- Why a file could not be opened. -/
inductive OpenFailure where
  | notFound
  | isDirectory
  | notDirectory
  /-- The path, or one of its components, is longer than the system allows. -/
  | nameTooLong
  deriving DecidableEq, Repr

/-- The system's wording for an open failure. -/
def OpenFailure.reason : OpenFailure → String
  | .notFound => "No such file or directory"
  | .isDirectory => "Is a directory"
  | .notDirectory => "Not a directory"
  | .nameTooLong => "File name too long"

/-- A cause of failure. -/
inductive Fault where
  /-- A geometry field (named as the configuration names it) is not a power of two. -/
  | notPowerOfTwo (field : String) (value : Int)
  /-- Fewer registers than the five-bit register fields can name. -/
  | tooFewRegisters (value : Int)
  /-- A virtual address space without pages. -/
  | noVirtualPages (value : Int)
  /-- A replacement policy name that names none. -/
  | unknownPolicy (name : String)
  /-- The policy option was left holding no name at all. -/
  | policyNotNamed
  /-- The optimal policy was asked for without a trace of future accesses. -/
  | traceRequired
  /-- A program line that does not have the shape of an instruction. -/
  | syntaxError (line : Int) (text : String)
  /-- A program line whose mnemonic names no opcode. -/
  | unknownMnemonic (line : Int) (mnemonic text : String)
  /-- A number written with more than `Text.digitLimit` digits. -/
  | tooManyDigits (digits : Nat)
  /-- A size option left holding no number was compared (by `operator`) with zero. -/
  | sizeNotNumber (operator : String)
  /-- The trace option was left holding no path, and was read as a file. -/
  | traceNotPath
  /-- A path with a null character, which no file name can hold. -/
  | nullInPath
  /-- The program file could not be opened. -/
  | programUnreadable (path : String) (why : OpenFailure)
  /-- The trace file could not be opened. -/
  | traceUnreadable (path : String) (why : OpenFailure)
  /-- The trace file holds something other than page numbers. -/
  | traceNotNumeric (path : String)
  /-- A file is not UTF-8. -/
  | undecodable (error : Utf8Error)
  /-- A virtual address outside the address space. -/
  | addressBeyondSpace (address lastPage : Int)
  /-- Every swap slot is taken. -/
  | swapFull (slots : Int)
  /-- A swap slot that was never handed out. -/
  | slotUnallocated (slot : Int)
  /-- Data for a swap slot that is not one page long. -/
  | slotSizeMismatch (pageSize given : Int)
  /-- Data for a frame that is not one page long. -/
  | frameSizeMismatch (pageSize given : Int)
  /-- A fetched word whose opcode names no operation. -/
  | illegalInstruction (pc opcode : Int)
  /-- A read at an index past either end of a sequence. -/
  | indexOutOfRange
  /-- A write at an index past either end of a sequence. -/
  | assignmentOutOfRange
  /-- An index that is not a signed 64-bit number. -/
  | indexOverflow
  /-- A cursor advanced modulo zero frames. -/
  | moduloByZero
  /-- An interrupt vector registered twice. -/
  | vectorTaken (vector : Int)
  /-- An interrupt vector that was never registered. -/
  | vectorUnknown (vector : Int)
  /-- A log capacity that is not positive. -/
  | logCapacity (capacity : Int)
  /-- A log capacity beyond the largest signed 64-bit number. -/
  | capacityTooLarge
  /-- A count of items that is not a signed 64-bit number. -/
  | lengthOverflow
  deriving DecidableEq, Repr

/-- The families of faults. -/
inductive FaultFamily where
  | configuration
  | assembly
  | address
  | swapExhausted
  | illegalInstruction
  | missingKey
  | badValue
  | badIndex
  | divisionByZero
  | undecodable
  | wrongType
  | missingAttribute
  | overflow
  deriving DecidableEq, Repr

namespace Fault

/-- The family a fault belongs to. -/
def family : Fault → FaultFamily
  | notPowerOfTwo .. | tooFewRegisters .. | noVirtualPages .. | unknownPolicy ..
  | policyNotNamed | traceRequired | programUnreadable .. | traceUnreadable ..
  | traceNotNumeric .. => .configuration
  | syntaxError .. | unknownMnemonic .. => .assembly
  | undecodable .. => .undecodable
  | addressBeyondSpace .. => .address
  | swapFull .. => .swapExhausted
  | slotUnallocated .. | vectorUnknown .. => .missingKey
  | slotSizeMismatch .. | frameSizeMismatch .. | vectorTaken .. | logCapacity ..
  | tooManyDigits .. | nullInPath => .badValue
  | sizeNotNumber .. => .wrongType
  | traceNotPath => .missingAttribute
  | capacityTooLarge | lengthOverflow => .overflow
  | illegalInstruction .. => .illegalInstruction
  | indexOutOfRange | assignmentOutOfRange | indexOverflow => .badIndex
  | moduloByZero => .divisionByZero

/-- The text of a fault. -/
def message : Fault → String
  | notPowerOfTwo field value => s!"{field} must be a power of two, got {value}"
  | tooFewRegisters value =>
    s!"registers must be at least 32 (5-bit register fields), got {value}"
  | noVirtualPages value => s!"virtual_pages must be positive, got {value}"
  | unknownPolicy name =>
    let shown := quote name
    s!"Unknown page replacement algorithm {shown} (choose from fifo, second-chance, optimal)"
  | policyNotNamed =>
    "Unknown page replacement algorithm [] (choose from fifo, second-chance, optimal)"
  | traceRequired => "The optimal policy needs a trace of future page accesses"
  | syntaxError line text =>
    let shown := quote (trimBlanks text)
    s!"line {line}: syntax error near: {shown}"
  | unknownMnemonic line mnemonic text =>
    let name := quote mnemonic
    let shown := quote (trimBlanks text)
    s!"line {line}: unknown mnemonic {name} near: {shown}"
  | tooManyDigits digits =>
    let limit := digitLimit
    s!"Exceeds the limit ({limit} digits) for integer string conversion: value has {digits} digits; use sys.set_int_max_str_digits() to increase the limit"
  | sizeNotNumber operator =>
    s!"'{operator}' not supported between instances of 'list' and 'int'"
  | traceNotPath => "'list' object has no attribute 'read_text'"
  | nullInPath => "embedded null byte"
  | programUnreadable path why =>
    let shown := quote path
    let reason := why.reason
    s!"cannot open file {shown}: {reason}"
  | traceUnreadable path why =>
    let shown := quote path
    let reason := why.reason
    s!"cannot open trace file {shown}: {reason}"
  | traceNotNumeric path =>
    let shown := quote path
    s!"trace file {shown} must contain page numbers only"
  | undecodable error => error.message
  | addressBeyondSpace address lastPage =>
    s!"Virtual address {address} beyond address space (max page {lastPage})"
  | swapFull slots => s!"Swap space full ({slots} slots)"
  | slotUnallocated slot => s!"Swap slot {slot} has not been allocated"
  | slotSizeMismatch pageSize given => s!"Slot data must be {pageSize} words, got {given}"
  | frameSizeMismatch pageSize given => s!"Frame data must be {pageSize} words, got {given}"
  | illegalInstruction pc opcode => s!"illegal instruction at pc = {pc}: opcode = {opcode}"
  | indexOutOfRange => "list index out of range"
  | assignmentOutOfRange => "list assignment index out of range"
  | indexOverflow => "cannot fit 'int' into an index-sized integer"
  | moduloByZero => "integer modulo by zero"
  | vectorTaken vector => s!"Vector {vector} already registered"
  | vectorUnknown vector => s!"Vector {vector} not registered"
  | logCapacity capacity => s!"Log capacity must be positive, got {capacity}"
  | capacityTooLarge => "Python int too large to convert to C ssize_t"
  | lengthOverflow => "cannot fit 'int' into an index-sized integer"

end Fault

end DemandPaging
