import DemandPaging.Assembler
import DemandPaging.Command.Arguments
import DemandPaging.Command.Session
import DemandPaging.Data.Index
import DemandPaging.Fault
import DemandPaging.Files
import DemandPaging.FlatMemory
import DemandPaging.Geometry
import DemandPaging.Instruction
import DemandPaging.Interrupts
import DemandPaging.Log
import DemandPaging.Machine
import DemandPaging.Main
import DemandPaging.Memory.Pager
import DemandPaging.Memory.Ram
import DemandPaging.Memory.Replacement
import DemandPaging.Memory.Residency
import DemandPaging.Memory.Swap
import DemandPaging.Memory.Tables
import DemandPaging.Processor.Run
import DemandPaging.Processor.Step
import DemandPaging.Program
import DemandPaging.Report
import DemandPaging.Text.Blank
import DemandPaging.Text.Digit
import DemandPaging.Text.Integer
import DemandPaging.Text.Lines
import DemandPaging.Text.Printable
import DemandPaging.Text.Quoted
import DemandPaging.Text.Utf8
import DemandPaging.Trace
import DemandPaging.Word
import DemandPaging.Proofs.Lockstep
import DemandPaging.Proofs.Storage
import DemandPaging.Proofs.Victim
import DemandPaging.Proofs.Invariant
import DemandPaging.Proofs.Refill
import DemandPaging.Proofs.Eviction
import DemandPaging.Proofs.Access
import DemandPaging.Proofs.Reachable
import DemandPaging.Proofs.Residency
import DemandPaging.Proofs.Transparency
import DemandPaging.Proofs.SwapSlots
import DemandPaging.Proofs.Simulation
import DemandPaging.Proofs.Encoding
import DemandPaging.Proofs.Delivery
import DemandPaging.Proofs.Farthest
import DemandPaging.Proofs.Lookahead
import DemandPaging.Proofs.Clock
import DemandPaging.Proofs.InstructionSet
import DemandPaging.Proofs.Occupancy
import DemandPaging.Proofs.Optimality
import DemandPaging.Proofs.Replay
import DemandPaging.Proofs.Reporting
import DemandPaging.Proofs.Refusal
import DemandPaging.Proofs.AccessErrors
import DemandPaging.Proofs.RunLoop
import DemandPaging.Proofs.StopRequests
import DemandPaging.Proofs.LoadOrder
import DemandPaging.Proofs.SlotStore
import DemandPaging.Proofs.Assembly
import DemandPaging.Proofs.Disassembly
import DemandPaging.Proofs.Accounting
import DemandPaging.Proofs.Audit
import DemandPaging.Proofs.GeometryRules
import DemandPaging.Proofs.TraceFiles
import DemandPaging.Proofs.ExitStatus
