import Libnmo.Core.Error
import Libnmo.Lib.LittleEndian

/-! The state chunk and its options. `data` is the payload up to `data_size`,
absent where the pointer is null, and `spare` is the rest of its allocation.
A sub-chunk whose `data` points into its parent's allocation has the offset in
`embedded`. Counts are lengths, so a count never disagrees with its list. -/
namespace Libnmo.Format

def chunkVersion1 : UInt32 := 4
def chunkVersion2 : UInt32 := 5
def chunkVersion3 : UInt32 := 6
def chunkVersion4 : UInt32 := 7

def optionIds : UInt32 := 0x01
def optionMan : UInt32 := 0x02
def optionChn : UInt32 := 0x04
def optionFile : UInt32 := 0x08
def optionAllowdyn : UInt32 := 0x10
def optionListbig : UInt32 := 0x20
def optionPacked : UInt32 := 0x100

/-- `word & flag` as a C condition. -/
def hasFlag (word flag : UInt32) : Bool := word &&& flag != 0

theorem hasFlag_or (left right flag : UInt32) :
    hasFlag (left ||| right) flag = (hasFlag left flag || hasFlag right flag) := by
  have distrib : (left ||| right) &&& flag = (left &&& flag) ||| (right &&& flag) :=
    UInt32.toBitVec_inj.mp BitVec.and_or_distrib_right
  by_cases l : left &&& flag = 0
  · simp [hasFlag,distrib,l]
  · have neither : ¬ (left ||| right) &&& flag = 0 := by
      rw [distrib,UInt32.or_eq_zero_iff]
      exact fun both => l both.1
    simp [hasFlag,bne_iff_ne.mpr l,bne_iff_ne.mpr neither]

/-- Flags of the low byte survive the cut to eight bits. -/
theorem hasFlag_lowByte (word flag : UInt32) (low : 0xFF &&& flag = flag) :
    hasFlag word.toUInt8.toUInt32 flag = hasFlag word flag := by
  unfold hasFlag
  rw [← Lib.LittleEndian.and_low_byte,UInt32.and_assoc,low]

structure ParserState where
  currentPos : Nat := 0
  prevIdentifierPos : Nat := 0
  deriving DecidableEq, Repr

structure Chunk where
  classId : UInt32 := 0
  dataVersion : UInt32 := 0
  chunkVersion : UInt32 := 0
  chunkClassId : UInt8 := 0
  chunkOptions : UInt32 := 0
  data : Option (List UInt32) := none
  spare : List UInt32 := []
  ids : List UInt32 := []
  chunks : List Chunk := []
  chunkRefs : List UInt32 := []
  managers : List UInt32 := []
  uncompressedSize : Nat := 0
  compressedSize : Nat := 0
  isCompressed : Bool := false
  unpackSize : Nat := 0
  rawData : Option (List UInt8) := none
  parserState : Option ParserState := none
  embedded : Option Nat := none
  deriving Repr

namespace Chunk

def words (c : Chunk) : List UInt32 := c.data.getD []

def dataSize (c : Chunk) : Nat := c.words.length

def dataCapacity (c : Chunk) : Nat := c.dataSize + c.spare.length

/-- Every property that a chunk inherits from its children holds of the tree. -/
@[elab_as_elim]
theorem ind {motive : Chunk → Prop}
    (node : ∀ c : Chunk, (∀ child ∈ c.chunks, motive child) → motive c) (c : Chunk) : motive c :=
  Chunk.rec (motive_1 := motive) (motive_2 := fun children => ∀ child ∈ children, motive child)
    (fun _ _ _ _ _ _ _ _ _ _ _ _ _ _ _ _ _ _ inherited => node _ inherited)
    (by simp) (fun _ _ first rest => by simpa using ⟨first,rest⟩) c

end Chunk

/-- `nmo_chunk_create`: all fields zero but the version. -/
def chunkCreate : Chunk := { chunkVersion := chunkVersion4 }

end Libnmo.Format
