import Libnmo.Format.ChunkApi

/-! The typed reads of the chunk API. Each checks that its dwords lie before
`data_size` and moves the position; without a parser state nothing can be read.
Sizes are rounded to dwords in 32 bits, and the count of an array is an `int`. -/
namespace Libnmo.Format
open Core Lib Lib.LittleEndian Lib.Cursor

/-- A read over the data at the position, with the rest of the allocation behind the data. -/
def onPosition {α : Type} (action : List UInt32 → List UInt32 → Run Nat α) : Run Chunk α where
  run c := match c.parserState with
    | none => (((action [] []).run 0).1,c)
    | some state =>
      let (outcome,pos) := (action c.words c.spare).run state.currentPos
      (outcome,c.setPos pos)

section Reading
variable (data spare : List UInt32)

def canRead (dwords : Nat) : Run Nat Bool := Action.read fun pos => pos + dwords ≤ data.length

/-- `data[current_pos++]`. -/
def nextWord : Run Nat UInt32 where
  run pos := match data[pos]? with
    | some word => (.ok word,pos + 1)
    | none => (.error (.overread data.length),pos)

def requireWords (dwords : Nat) (message : String) : Run Nat Unit := do
  let room ← canRead data dwords
  if room then pure () else fail .eof message

/-- `memcpy` of bytes at the position, which moves past some dwords. -/
def copyOut (bytes dwords : Nat) : Run Nat (List UInt8) where
  run pos :=
    let ahead := encodeWords ((data ++ spare).drop pos)
    if bytes ≤ ahead.length then (.ok (ahead.take bytes),pos + dwords)
    else (.error (.overread (data.length + spare.length)),pos)

/-- `(size + 3) / 4` of a `uint32_t`. -/
def roundedDwords (size : UInt32) : Nat := ((size + 3) / 4).toNat

def chunkReadByte : Run Nat UInt8 := do
  requireWords data 1 "Cannot read beyond data"
  let word ← nextWord data
  pure (word &&& 0xFF).toUInt8

def chunkReadWord : Run Nat UInt16 := do
  requireWords data 1 "Cannot read beyond data"
  let word ← nextWord data
  pure (word &&& 0xFFFF).toUInt16

def chunkReadInt : Run Nat Int32 := do
  requireWords data 1 "Cannot read beyond data"
  let word ← nextWord data
  pure word.toInt32

def chunkReadDword : Run Nat UInt32 := do
  let value ← chunkReadInt data
  pure value.toUInt32

/-- The float is given by its bits. -/
def chunkReadFloat : Run Nat UInt32 := do
  requireWords data 1 "Cannot read beyond data"
  nextWord data

def chunkReadGuid : Run Nat Guid := do
  requireWords data 2 "Cannot read beyond data"
  let d1 ← nextWord data
  let d2 ← nextWord data
  pure ⟨d1,d2⟩

/-- The bytes that were copied, or a null pointer, and the length without the terminator. -/
def chunkReadString : Run Nat (Option (List UInt8) × Nat) := do
  let room ← canRead data 1
  if room then do
    let len ← nextWord data
    if len = 0 then pure (none,0)
    else do
      let enough ← canRead data (roundedDwords len)
      if enough then do
        let str ← copyOut data spare len.toNat (roundedDwords len)
        pure (some str,len.toNat - 1)
      else pure (none,0)
  else pure (none,0)

def chunkReadBuffer : Run Nat (Option (List UInt8) × Nat) := do
  requireWords data 1 "Cannot read beyond data"
  let size ← nextWord data
  if size = 0 then pure (none,0)
  else do
    requireWords data (roundedDwords size) "Cannot read beyond data"
    let bytes ← copyOut data spare size.toNat (roundedDwords size)
    pure (some bytes,size.toNat)

/-- The bytes that fill the buffer, and their size. -/
def chunkReadAndFillBuffer (bufferSize : Nat) : Run Nat (List UInt8 × Nat) := do
  let room ← canRead data 1
  if room then do
    let size ← nextWord data
    if size = 0 then pure ([],0)
    else if size.toNat > bufferSize then pure ([],0)
    else do
      let enough ← canRead data (roundedDwords size)
      if enough then do
        let bytes ← copyOut data spare size.toNat (roundedDwords size)
        pure (bytes,size.toNat)
      else pure ([],0)
  else pure ([],0)

/-- A pointer to the bytes at the position, which a bitmap of the old layout is decoded from. -/
def chunkBitmapMapBytes (size : Nat) : Run Nat (Option (List UInt8)) := do
  if size = 0 then pure none
  else do
    requireWords data ((size + 3) / 4) "Insufficient chunk data"
    let bytes ← copyOut data spare size ((size + 3) / 4)
    pure (some bytes)

def chunkReadObjectId : Run Nat UInt32 := do
  requireWords data 1 "Cannot read beyond data"
  nextWord data

/-- The `int` is extended to `size_t` with its sign. -/
def chunkReadObjectSequenceStart : Run Nat Nat := do
  let count ← chunkReadInt data
  pure (count.toInt % 2 ^ 64).toNat

def chunkReadObjectSequenceItem : Run Nat UInt32 := chunkReadObjectId data

def chunkReadManagerInt : Run Nat (Guid × UInt32) := do
  requireWords data 3 "Insufficient data for manager int"
  let d1 ← nextWord data
  let d2 ← nextWord data
  let value ← nextWord data
  pure (⟨d1,d2⟩,value)

def chunkStartManagerReadSequence : Run Nat (Guid × Nat) := do
  let count ← chunkReadDword data
  let managerGuid ← chunkReadGuid data
  pure (managerGuid,count.toNat)

/-- The floats of a vector, a quaternion, a matrix or a colour, one by one. -/
def chunkReadFloats (count : Nat) : Run Nat (List UInt32) := (chunkReadFloat data).times count

end Reading

section Identifiers

def chunkReadIdentifier : Run Chunk UInt32 := do
  let id ← onPosition fun data _ => do
    requireWords data 1 "Cannot read beyond data"
    nextWord data
  Action.update fun c => { c with
    parserState := c.parserState.map fun state => { state with prevIdentifierPos := state.currentPos - 1 } }
  pure id

end Identifiers

section SubChunks
variable (data : List UInt32)

def chunkStartReadSubChunkSequence : Run Nat Nat := do
  let count ← chunkReadDword data
  pure count.toNat

/-- `memcpy` of words at the position, which moves past them. -/
def takeWords (count : UInt32) (message : String) : Run Nat (List UInt32) := do
  if count = 0 then pure []
  else do
    requireWords data count.toNat message
    let words ← Action.read (slice data · count.toNat)
    Action.update (· + count.toNat)
    pure words

/-- The list of its own sub-chunks is skipped unread, and there is none of managers. -/
def chunkReadSubChunk : Run Nat Chunk := do
  let _totalSize ← chunkReadDword data
  let classId ← chunkReadWord data
  let versionInfo ← chunkReadDword data
  let dataSize ← chunkReadDword data
  let _fileFlag ← chunkReadDword data
  let idCount ← chunkReadDword data
  let chunkCount ← chunkReadDword data
  let _managerCount ← chunkReadDword data
  let words ← takeWords data dataSize "Insufficient data"
  let ids ← takeWords data idCount "Insufficient IDs data"
  Action.update (· + chunkCount.toNat)
  pure { chunkCreate with
    chunkClassId := classId.toUInt8, dataVersion := versionInfo &&& 0xFF, chunkVersion := versionInfo >>> 16 &&& 0xFF
    data := if dataSize = 0 then none else some words, ids := ids }

end SubChunks

section Arrays
variable {α : Type} (data : List UInt32)

/-- The array for a count. A count that was negative asks for more than there is; where adding the header
of the block wraps, the block is too small for the entries that are stored to it. -/
def allocArray (count elemSize : Nat) (message : String) : Run Nat Unit :=
  let total := count * elemSize % 2 ^ 64
  if total < 2 ^ 62 then pure ()
  else if total + 24 < 2 ^ 64 then fail .nomem message
  else Action.stop (.overwrite 0)

/-- A count, and so many entries; no array for a count of zero. -/
def readCounted (elemSize : Nat) (message : String) (read : Run Nat α) : Run Nat (Option (List α) × Nat) := do
  let count ← chunkReadObjectSequenceStart data
  if count = 0 then pure (none,0)
  else do
    allocArray count elemSize message
    let array ← read.times count
    pure (some array,count)

def chunkReadObjectIdArray : Run Nat (Option (List UInt32) × Nat) :=
  readCounted data 4 "Failed to allocate ID array" (chunkReadObjectId data)

def chunkReadIntArray : Run Nat (Option (List Int32) × Nat) :=
  readCounted data 4 "Failed to allocate int array" (chunkReadInt data)

def chunkReadFloatArray : Run Nat (Option (List UInt32) × Nat) :=
  readCounted data 4 "Failed to allocate float array" (chunkReadFloat data)

def chunkReadDwordArray : Run Nat (Option (List UInt32) × Nat) :=
  readCounted data 4 "Failed to allocate dword array" (chunkReadDword data)

def chunkReadByteArray : Run Nat (Option (List UInt8) × Nat) :=
  readCounted data 1 "Failed to allocate byte array" (chunkReadByte data)

/-- A string of an array, which may not be a null pointer. -/
def readStringEntry (spare : List UInt32) : Run Nat (Option (List UInt8)) := do
  let found ← chunkReadString data spare
  if found.2 = 0 ∧ found.1 = none then fail .invalidFormat "Failed to read string"
  else pure found.1

def chunkReadStringArray (spare : List UInt32) : Run Nat (Option (List (Option (List UInt8))) × Nat) :=
  readCounted data 8 "Failed to allocate string array" (readStringEntry data spare)

/-- The bytes of the entries, their count and the size of one. The product is one of 32 bits. -/
def chunkReadArray (spare : List UInt32) : Run Nat (List UInt8 × Nat × Nat) := do
  let count ← chunkReadDword data
  let elemSize ← chunkReadDword data
  let totalSize := (count * elemSize).toNat
  requireWords data ((totalSize + 3) / 4) "Insufficient data for array"
  if totalSize = 0 then fail .nomem "Failed to allocate array"
  else do
    let array ← copyOut data spare totalSize ((totalSize + 3) / 4)
    pure (array,count.toNat,elemSize.toNat)

end Arrays

end Libnmo.Format
