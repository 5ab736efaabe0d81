import DemandPaging.Fault

/-!
# Geometry

The fixed sizes of a machine: words per page (and per frame and per swap
slot), pages of virtual address space, frames of RAM, swap slots and
registers.  Page size, frames, swap slots and registers are used as masks
or cycle lengths, so each must be a power of two; registers must be at
least 32, since instructions name registers with five bits; and the address
space must have a page.  `Geometry.validate` checks in that order and
reports the first violation.
-/

namespace DemandPaging

/-- Whether an integer is a power of two (1, 2, 4, ...). -/
def isPowerOfTwo (v : Int) : Bool :=
  0 < v && Nat.pow 2 v.toNat.log2 == v.toNat

/-- The sizes of a machine. -/
structure Geometry where
  pageSize : Int := 4
  virtualPages : Int := 2048
  frames : Int := 8
  swapSlots : Int := 128
  registers : Int := 32
  deriving DecidableEq, Repr

namespace Geometry

/-- Words of virtual address space. -/
def addressSpace (g : Geometry) : Int := g.virtualPages * g.pageSize

/-- Words of RAM. -/
def ramWords (g : Geometry) : Int := g.frames * g.pageSize

/-- Reject `value` for `field` unless it is a power of two. -/
def requirePowerOfTwo (field : String) (value : Int) : Except Fault Unit :=
  if isPowerOfTwo value then .ok () else .error (.notPowerOfTwo field value)

/-- The geometry itself when a machine can be built with it, or the first
rule it breaks. -/
def validate (g : Geometry) : Except Fault Geometry := do
  requirePowerOfTwo "page_size" g.pageSize
  requirePowerOfTwo "frames" g.frames
  requirePowerOfTwo "swap_slots" g.swapSlots
  requirePowerOfTwo "registers" g.registers
  if g.registers < 32 then throw (.tooFewRegisters g.registers)
  if g.virtualPages ≤ 0 then throw (.noVirtualPages g.virtualPages)
  return g

end Geometry

example : isPowerOfTwo 1 ∧ isPowerOfTwo 4096 ∧ !isPowerOfTwo 0 ∧ !isPowerOfTwo 6 ∧
    !isPowerOfTwo (-4) := by decide

end DemandPaging
