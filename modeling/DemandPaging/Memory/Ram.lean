import DemandPaging.Word
import DemandPaging.Fault
import DemandPaging.Data.Index

/-!
# RAM

RAM is a sequence of words, cut into frames of one page each: frame `f`
covers the words from `f * pageSize` up to `(f + 1) * pageSize`.  A single
store keeps the low 32 bits of the value; a frame is written whole, with
the words as given, and the data must be exactly one page long.  Addresses
and frames are indices in the sense of `DemandPaging.resolveIndex` and
ranges: a read or store at an address past the end fails, a frame past the
end reads as nothing, and writing a frame past the end appends its words.
-/

namespace DemandPaging

/-- Physical memory: its page size and its words. -/
structure Ram where
  pageSize : Int
  words : Array Int
  deriving Repr

namespace Ram

/-- RAM of `frames` frames of `pageSize` words, all zero. -/
def zeroed (frames pageSize : Int) : Ram :=
  ⟨pageSize, Array.replicate (frames * pageSize).toNat 0⟩

/-- RAM of `frames` frames of `pageSize` words, all zero, when a sequence of
that many words can be made. -/
def create (frames pageSize : Int) : Except Fault Ram := do
  requireLength (frames * pageSize)
  pure (zeroed frames pageSize)

/-- The word at a physical address. -/
def read (r : Ram) (address : Int) : Except Fault Int :=
  Seq.read r.words address

/-- Store the low 32 bits of `value` at a physical address. -/
def write (r : Ram) (address value : Int) : Except Fault Ram := do
  let words ← Seq.write r.words address (wrapWord value)
  pure { r with words }

/-- The words of frame `f`. -/
def readFrame (r : Ram) (f : Int) : Array Int :=
  Seq.slice r.words (f * r.pageSize) (f * r.pageSize + r.pageSize)

/-- Overwrite frame `f` with one page of words. -/
def writeFrame (r : Ram) (f : Int) (data : Array Int) : Except Fault Ram :=
  if (data.size : Int) = r.pageSize then
    .ok { r with words := Seq.splice r.words (f * r.pageSize) (f * r.pageSize + r.pageSize) data }
  else .error (.frameSizeMismatch r.pageSize data.size)

/-- Fill frame `f` with zeros. -/
def zeroFrame (r : Ram) (f : Int) : Except Fault Ram :=
  r.writeFrame f (Array.replicate r.pageSize.toNat 0)

end Ram

end DemandPaging
