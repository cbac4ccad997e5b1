import Libnmo.Core.Error
import Libnmo.Format.ChunkParser

/-! The typed reads of `nmo_chunk_parser`, its sequences and the seek to an
identifier. Values come back as results; a function that reports a failure by
returning zero still succeeds here. A copy past the end of the data ends the run. -/
namespace Libnmo.Format
open Core Lib Lib.LittleEndian Lib.Cursor

section Moving

/-- The sum wraps in `size_t`, and so does the cursor. -/
def parserSkip (dwords : Nat) : Run ChunkParser Unit where
  run p :=
    let pos := (p.cursor + dwords) % 2 ^ 64
    if pos > p.chunk.dataSize then (.error (.error .invalidOffset ""),p)
    else (.ok (),{ p with cursor := pos })

def parserTell : Run ChunkParser Nat := Action.read ChunkParser.cursor

def parserRemaining : Run ChunkParser Nat :=
  Action.read fun p => if p.cursor > p.chunk.dataSize then 0 else p.chunk.dataSize - p.cursor

/-- The offset that the pointer is to, or a null pointer. -/
def parserLockReadBuffer : Run ChunkParser (Option Nat) :=
  Action.read fun p => if p.cursor ≥ p.chunk.dataSize then none else some p.cursor

def parserSetFileContext (ctx : Option ChunkFileContext) : Run ChunkParser Unit :=
  Action.update fun p => { p with fileContext := ctx }

end Moving

section Words
variable (data : List UInt32)

def parserByte : Run Nat UInt8 := do
  let dword ← parserDword data
  pure (dword &&& 0xFF).toUInt8

def parserWord : Run Nat UInt16 := do
  let dword ← parserDword data
  pure (dword &&& 0xFFFF).toUInt16

def parserDwordAsWords : Run Nat UInt32 := do
  let low ← parserWord data
  let high ← parserWord data
  pure (high.toUInt32 <<< 16 ||| low.toUInt32)

def parserDwordArrayAsWords (count : Nat) : Run Nat (List UInt32) := (parserDwordAsWords data).times count

def parserInt : Run Nat Int32 := do
  let value ← parserDword data
  pure value.toInt32

/-- The float is given by its bits. -/
def parserFloat : Run Nat UInt32 := parserDword data

/-- `count` words after one check. -/
def parserWords (count : Nat) : Run Nat (List UInt32) := do
  checkBounds data count
  ⟨fun cursor => (.ok (slice data cursor count),cursor + count)⟩

def parserGuid : Run Nat Guid := do
  checkBounds data 2
  let d1 ← parserDword data
  let d2 ← parserDword data
  pure ⟨d1,d2⟩

/-- `check_bounds` as a condition. -/
def roomFor (dwordsNeeded : Nat) : Run Nat Bool := Action.read fun cursor => cursor + dwordsNeeded ≤ data.length

/-- The manager is left alone, and the value zero, where the data ends. -/
def parserManagerInt : Run Nat (Option Guid × Int32) := do
  let room ← roomFor data 3
  if room then do
    let d1 ← parserDword data
    let d2 ← parserDword data
    let value ← parserInt data
    pure (some ⟨d1,d2⟩,value)
  else pure (none,0)

def parserVector2 : Run Nat (List UInt32) := parserWords data 2

def parserVector : Run Nat (List UInt32) := parserWords data 3

def parserVector4 : Run Nat (List UInt32) := parserWords data 4

def parserMatrix : Run Nat (List UInt32) := parserWords data 16

def parserQuaternion : Run Nat (List UInt32) := parserWords data 4

def parserColor : Run Nat (List UInt32) := parserWords data 4

end Words

section Bytes
variable (data : List UInt32)

/-- `memcpy` from the cursor, which stays. -/
def copyBytes (bytes : Nat) : Run Nat (List UInt8) where
  run cursor :=
    let ahead := encodeWords (data.drop cursor)
    if bytes ≤ ahead.length then (.ok (ahead.take bytes),cursor) else (.error (.overread data.length),cursor)

def advance (dwords : Nat) : Run Nat Unit := Action.update fun cursor => cursor + dwords

/-- Bytes that fill a number of dwords. -/
def takeBytes (bytes dwords : Nat) : Run Nat (List UInt8) := do
  checkBounds data dwords
  let dest ← copyBytes data bytes
  advance dwords
  pure dest

def parserBytes (bytes : Nat) : Run Nat (List UInt8) :=
  if bytes = 0 then pure [] else takeBytes data bytes (alignDword bytes / 4)

/-- A length of 2^32 - 1 asks the arena for no memory. -/
def parserString : Run Nat (List UInt8) := do
  let length ← parserDword data
  (if length + 1 = 0 then Action.stop (.error .nomem "") else pure ())
  parserBytes data length.toNat

/-- A size of zero gives a null pointer. -/
def parserBuffer : Run Nat (Option (List UInt8)) := do
  let bufSize ← parserDword data
  if bufSize = 0 then pure none
  else do
    let buffer ← parserBytes data bufSize.toNat
    pure (some buffer)

def parserBufferNosize (bytes : Nat) : Run Nat (List UInt8) :=
  if bytes = 0 then pure [] else takeBytes data bytes ((bytes + 3) % 2 ^ 64 / 4)

def parserBufferNosizeLendian16 (valueCount : Nat) : Run Nat (List UInt16) := (parserWord data).times valueCount

def parserBufferLendian16 (bytes : Nat) : Run Nat (List UInt8) :=
  if bytes = 0 then pure []
  else do
    let buffer ← takeBytes data bytes (alignDword bytes / 4)
    pure (swap16BitWords buffer)

end Bytes

section Arrays
variable (data : List UInt32)

/-- The dwords of `data_size_bytes + 3`, where `int` wraps to a negative number near its end. -/
def arrayDwords (dataSizeBytes : Int32) : Int := (dataSizeBytes + 3).toInt.tdiv 4

/-- `check_bounds` with a count that may be negative: added in `size_t` it takes the cursor back. -/
def roomForSigned (dwords : Int) : Run Nat Bool :=
  Action.read fun cursor => 0 ≤ (cursor : Int) + dwords ∧ (cursor : Int) + dwords ≤ data.length

/-- The array and its element count, which is zero where there is no array. -/
def parserArrayLendian : Run Nat (Option (List UInt8) × Int32) := do
  let room ← roomFor data 2
  if room then do
    let dataSizeBytes ← parserInt data
    let elementCount ← parserInt data
    if dataSizeBytes ≤ 0 ∨ elementCount ≤ 0 then pure (none,0)
    else do
      let room ← roomForSigned data (arrayDwords dataSizeBytes)
      if room then do
        let array ← copyBytes data dataSizeBytes.toInt.toNat
        Action.update fun cursor : Nat => ((cursor : Int) + arrayDwords dataSizeBytes).toNat
        pure (some array,elementCount)
      else pure (none,0)
  else pure (none,0)

def parserArrayLendian16 : Run Nat (Option (List UInt8) × Int32) := do
  let sizeBytes ← parserDword data
  let elementCount ← parserDword data
  if sizeBytes = 0 ∨ elementCount = 0 then pure (none,0)
  else do
    let array ← takeBytes data sizeBytes.toNat (alignDword sizeBytes.toNat / 4)
    pure (some (swap16BitWords array),elementCount.toInt32)

end Arrays

section Sequences

/-- A file index with no runtime ID stays as it is. -/
def resolveObjectId (p : ChunkParser) (rawId : UInt32) : UInt32 :=
  match hasFlag p.chunk.chunkOptions optionFile,p.fileContext.bind ChunkFileContext.fileToRuntime with
  | true,some remap =>
    if rawId = 0 then rawId
    else match idRemapLookupId remap rawId with
      | .ok remapped => remapped
      | .error _ => rawId
  | _,_ => rawId

def consumeObjectSlot : Run ChunkParser Unit :=
  Action.update fun p =>
    if p.inObjectSequence ∧ 0 < p.objectSequenceRemaining then
      { p with
        objectSequenceRemaining := p.objectSequenceRemaining - 1
        inObjectSequence := p.objectSequenceRemaining - 1 ≠ 0 }
    else p

def parserObjectId : Run ChunkParser UInt32 := do
  let rawId ← onCursor parserDword
  let resolved ← Action.read fun p => resolveObjectId p rawId
  consumeObjectSlot
  pure resolved

def parserStartObjectSequence : Run ChunkParser Int32 := do
  let count ← onCursor parserDword
  Action.update fun p => { p with objectSequenceRemaining := count.toNat, inObjectSequence := count > 0 }
  pure count.toInt32

def parserStartManagerSequence : Run ChunkParser (Guid × Int32) := do
  onCursor fun data => checkBounds data 3
  let count ← onCursor parserDword
  let d1 ← onCursor parserDword
  let d2 ← onCursor parserDword
  Action.update fun p => { p with
    currentManagerGuid := ⟨d1,d2⟩
    managerSequenceRemaining := count.toNat
    inManagerSequence := count > 0 }
  pure (⟨d1,d2⟩,count.toInt32)

def parserManagerIntSequence : Run ChunkParser Int32 := do
  let inside ← Action.read fun p : ChunkParser => p.inManagerSequence && p.managerSequenceRemaining != 0
  let room ← onCursor fun data => roomFor data 1
  if inside && room then do
    let value ← onCursor parserInt
    Action.update fun p => { p with
      managerSequenceRemaining := p.managerSequenceRemaining - 1
      inManagerSequence := p.managerSequenceRemaining - 1 ≠ 0 }
    pure value
  else pure 0

def parserStartReadSequence : Run ChunkParser Int32 := do
  let count ← onCursor parserDword
  Action.update fun p => { p with subchunkSequenceRemaining := count.toNat, inSubchunkSequence := count > 0 }
  pure count.toInt32

end Sequences

end Libnmo.Format
