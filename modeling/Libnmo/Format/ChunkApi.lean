import Libnmo.Format.ChunkRemap
import Libnmo.Format.DataSection

/-! The chunk API: modes, position, typed writes and sub-chunks of one chunk.
Every write checks the size, stores at the position and raises `data_size`. What
the code reads without having set it comes from `Surroundings`: the words of a
block just allocated, and the words of an array of pointers. -/
namespace Libnmo.Format
open Core Lib Lib.LittleEndian Lib.Cursor Lib.Patch

structure Surroundings where
  memory : Nat → UInt32 := fun _ => 0
  addresses : Nat → UInt32 := fun _ => 0

namespace Chunk

/-- All words of the allocation. -/
def buffer (c : Chunk) : List UInt32 := c.words ++ c.spare

/-- The same allocation with new words; sub-chunks embedded in it see them. -/
def setBuffer (c : Chunk) (buffer : List UInt32) (size : Nat) : Chunk :=
  { c with
    data := some (buffer.take size), spare := buffer.drop size
    chunks := c.chunks.map (refreshed buffer) }

/-- Another allocation; sub-chunks embedded in the old one stay with it. -/
def replaceBuffer (c : Chunk) (buffer : List UInt32) (size : Nat) : Chunk :=
  { c with
    data := some (buffer.take size), spare := buffer.drop size
    chunks := c.chunks.map fun child => { child with embedded := none } }

/-- A new `data_size` over the same allocation. -/
def resize (c : Chunk) (size : Nat) : Chunk :=
  { c with data := c.data.map fun _ => c.buffer.take size, spare := c.buffer.drop size }

def setPos (c : Chunk) (pos : Nat) : Chunk :=
  { c with parserState := c.parserState.map fun state => { state with currentPos := pos } }

end Chunk

section Lifecycle

/-- `get_parser_state` of the lifecycle functions, which allocates the state on first use. -/
def ensureParserState : Run Chunk Unit :=
  Action.update fun c => { c with parserState := some (c.parserState.getD {}) }

def chunkStartRead : Run Chunk Unit :=
  Action.update fun c => { c with parserState := some {} }

def chunkStartWrite (around : Surroundings) : Run Chunk Unit := do
  ensureParserState
  Action.update fun c => (c.setPos 0).resize 0
  Action.update fun c => match c.data with
    | none => { c with data := some [], spare := (List.range 64).map around.memory }
    | some _ => c

def chunkUpdateDataSize : Run Chunk Unit := do
  ensureParserState
  (⟨fun c => match c.parserState with
    | some state =>
      if state.currentPos ≤ c.dataSize then (.ok (),c)
      else if state.currentPos ≤ c.dataCapacity then (.ok (),c.resize state.currentPos)
      -- a size past the allocation: the words it takes in are not the chunk's
      else (.error (.overread c.dataCapacity),c)
    | none => (.ok (),c)⟩ : Run Chunk Unit)

def chunkClose : Run Chunk Unit := chunkUpdateDataSize

def chunkClear : Run Chunk Unit :=
  Action.update fun c => { c.resize 0 with parserState := some {} }

def chunkSetDataVersion (version : UInt32) : Run Chunk Unit :=
  Action.update fun c => { c with dataVersion := version }

end Lifecycle

section Navigation

def chunkGoto (pos : Nat) : Run Chunk Unit where
  run c :=
    if pos > c.dataSize then (.error (.error .outOfBounds "Position beyond data size"),c)
    else if c.parserState.isNone then (.error (.error .invalidState "No parser state"),c)
    else (.ok (),c.setPos pos)

def chunkSkip (dwords : Nat) : Run Chunk Unit where
  run c := match c.parserState with
    | none => (.error (.error .invalidState "No parser state"),c)
    | some state =>
      let pos := (state.currentPos + dwords) % 2 ^ 64
      if pos > c.dataSize then (.error (.error .eof "Skip beyond data size"),c)
      else (.ok (),c.setPos pos)

/-- `new_capacity *= 2` in `size_t`, while it is too small. Doubling brings a capacity to zero within 64
rounds, and zero stays zero, so a loop that takes more never ends. -/
def growCapacity : Nat → Nat → Nat → Option Nat
  | 0,_,_ => none
  | rounds + 1,capacity,required =>
    if required ≤ capacity then some capacity else growCapacity rounds (capacity * 2 % 2 ^ 64) required

/-- A block of 2^62 words or more is not to be had. -/
def chunkCheckSize (around : Surroundings) (neededDwords : Nat) : Run Chunk Unit where
  run c := match c.parserState with
    | none => (.error (.error .invalidState "Chunk not in write mode"),c)
    | some state =>
      let required := (state.currentPos + neededDwords) % 2 ^ 64
      if required ≤ c.dataCapacity then (.ok (),c)
      else match growCapacity 66 (c.dataCapacity * 2 % 2 ^ 64) required with
        | none => (.error .endless,c)
        | some capacity =>
          if 2 ^ 62 ≤ capacity then (.error (.error .nomem "Failed to grow chunk buffer"),c)
          else if c.dataCapacity < state.currentPos ∧ c.data.isSome then (.error (.overread c.dataCapacity),c)
          else
            let kept := c.buffer.take state.currentPos
            let fresh := (List.range' kept.length (capacity - kept.length)).map around.memory
            (.ok (),c.replaceBuffer (kept ++ fresh) c.dataSize)

end Navigation

section Primitives

/-- `data[current_pos++] = word` for each word, and `data_size` raised to the position. -/
def storeWords (words : List UInt32) : Run Chunk Unit where
  run c := match c.parserState with
    | none => (.error (.overwrite 0),c)
    | some state =>
      let pos := state.currentPos + words.length
      if pos ≤ c.dataCapacity then
        (.ok (),(c.setBuffer (overwrite c.buffer state.currentPos words) (max c.dataSize pos)).setPos pos)
      else (.error (.overwrite c.dataCapacity),c)

/-- `memcpy` of `size` bytes to the position, which moves past the dwords they touch. The bytes after
them in the last dword stay as they are. -/
def storeBytes (source : List UInt8) (size : Nat) : Run Chunk Unit where
  run c :=
    if source.length < size then (.error (.overread source.length),c)
    else
      let pos := (c.parserState.getD {}).currentPos
      if c.dataCapacity < pos + (size + 3) / 4 then (.error (.overwrite c.dataCapacity),c)
      else
        let old := slice c.buffer pos ((size + 3) / 4)
        (storeWords (decodeWords (overwrite (encodeWords old) 0 (source.take size)))).run c

def writeWords (around : Surroundings) (words : List UInt32) : Run Chunk Unit := do
  chunkCheckSize around words.length
  storeWords words

def chunkWriteByte (around : Surroundings) (value : UInt8) : Run Chunk Unit := writeWords around [value.toUInt32]

def chunkWriteWord (around : Surroundings) (value : UInt16) : Run Chunk Unit := writeWords around [value.toUInt32]

def chunkWriteInt (around : Surroundings) (value : Int32) : Run Chunk Unit := writeWords around [value.toUInt32]

def chunkWriteDword (around : Surroundings) (value : UInt32) : Run Chunk Unit :=
  chunkWriteInt around value.toInt32

/-- The float is given by its bits. -/
def chunkWriteFloat (around : Surroundings) (bits : UInt32) : Run Chunk Unit := writeWords around [bits]

def chunkWriteGuid (around : Surroundings) (value : Guid) : Run Chunk Unit := writeWords around [value.d1,value.d2]

/-- The string is given by its characters before the terminator. -/
def chunkWriteString (around : Surroundings) (str : Option (List UInt8)) : Run Chunk Unit := do
  let bytes := match str with
    | some chars => chars ++ [0]
    | none => []
  let dwords := (bytes.length + 3) / 4
  chunkCheckSize around (1 + dwords)
  storeWords [UInt32.ofNat bytes.length]
  storeBytes bytes bytes.length

def chunkWriteBuffer (around : Surroundings) (data : Option (List UInt8)) (size : Nat) : Run Chunk Unit := do
  let dwords := (size + 3) / 4
  chunkCheckSize around (1 + dwords)
  storeWords [UInt32.ofNat size]
  match data with
  | some source => storeBytes source size
  | none => pure ()

def chunkWriteBufferNoSize (around : Surroundings) (data : List UInt8) (size : Nat) : Run Chunk Unit :=
  if size = 0 then pure ()
  else do
    chunkCheckSize around ((size + 3) / 4)
    storeBytes data size

/-- The position of the next word, recorded among the tracked object IDs. -/
def recordObjectId : Run Chunk Unit :=
  Action.update fun c => { c with
    ids := c.ids ++ [UInt32.ofNat (c.parserState.getD {}).currentPos]
    chunkOptions := c.chunkOptions ||| optionIds }

def chunkWriteObjectId (around : Surroundings) (id : UInt32) : Run Chunk Unit := do
  chunkCheckSize around 1
  (if id ≠ 0 then recordObjectId else pure ())
  storeWords [id]

end Primitives

section Sequences

def setOption (option : UInt32) : Run Chunk Unit :=
  Action.update fun c => { c with chunkOptions := c.chunkOptions ||| option }

def chunkWriteObjectSequenceStart (around : Surroundings) (count : Nat) : Run Chunk Unit := do
  setOption optionIds
  chunkWriteInt around (UInt32.ofNat count).toInt32

def chunkWriteObjectSequenceItem (around : Surroundings) (id : UInt32) : Run Chunk Unit := chunkWriteObjectId around id

def chunkStartManagerSequence (around : Surroundings) (managerGuid : Guid) (count : Nat) : Run Chunk Unit := do
  setOption optionMan
  chunkWriteDword around (UInt32.ofNat count)
  chunkWriteGuid around managerGuid

def chunkWriteManagerInt (around : Surroundings) (managerGuid : Guid) (value : UInt32) : Run Chunk Unit := do
  chunkCheckSize around 3
  Action.update fun c => { c with
    managers := c.managers ++ [UInt32.ofNat (c.parserState.getD {}).currentPos] }
  storeWords [managerGuid.d1,managerGuid.d2,value]

def chunkWriteIdentifier (around : Surroundings) (id : UInt32) : Run Chunk Unit := do
  writeWords around [id]
  Action.update fun c => { c with
    parserState := c.parserState.map fun state => { state with prevIdentifierPos := state.currentPos - 1 } }

/-- The first data word equal to the identifier. -/
def chunkSeekIdentifier (id : UInt32) : Run Chunk Unit where
  run c :=
    if c.dataSize = 0 then (.error (.error .notFound "Identifier not found in empty chunk"),c)
    else match c.words.findIdx? (· = id),c.parserState with
      | none,_ => (.error (.error .notFound "Identifier not found"),c)
      | some _,none => (.error (.overwrite 0),c)
      | some pos,some _ => (.ok (),{ c with parserState := some ⟨pos + 1,pos⟩ })

end Sequences

section Arrays
variable {α : Type}

def writeEach (write : α → Run Chunk Unit) : List α → Run Chunk Unit
  | [] => pure ()
  | value :: rest => do
    write value
    writeEach write rest

/-- The count, then the entries one by one. -/
def writeCounted (around : Surroundings) (write : α → Run Chunk Unit) (array : Option (List α)) (count : Nat) :
    Run Chunk Unit :=
  match array with
  | none =>
    if 0 < count then fail .invalidArgument "Non-zero count with NULL array"
    else chunkWriteDword around 0
  | some values => do
    chunkWriteDword around (UInt32.ofNat count)
    writeEach write (values.take count)
    (if values.length < count then Action.stop (.overread values.length) else pure ())

def chunkWriteIntArray (around : Surroundings) (array : Option (List Int32)) (count : Nat) : Run Chunk Unit :=
  writeCounted around (chunkWriteInt around) array count

def chunkWriteFloatArray (around : Surroundings) (array : Option (List UInt32)) (count : Nat) : Run Chunk Unit :=
  writeCounted around (chunkWriteFloat around) array count

def chunkWriteDwordArray (around : Surroundings) (array : Option (List UInt32)) (count : Nat) : Run Chunk Unit :=
  writeCounted around (chunkWriteDword around) array count

def chunkWriteByteArray (around : Surroundings) (array : Option (List UInt8)) (count : Nat) : Run Chunk Unit :=
  writeCounted around (chunkWriteByte around) array count

def chunkWriteStringArray (around : Surroundings) (strings : Option (List (Option (List UInt8)))) (count : Nat) :
    Run Chunk Unit :=
  writeCounted around (chunkWriteString around) strings count

def chunkWriteObjectIdArray (around : Surroundings) (ids : Option (List UInt32)) (count : Nat) : Run Chunk Unit :=
  writeCounted around (chunkWriteObjectId around) ids count

def chunkWriteArray (around : Surroundings) (array : List UInt8) (count elemSize : Nat) : Run Chunk Unit := do
  chunkWriteDword around (UInt32.ofNat count)
  chunkWriteDword around (UInt32.ofNat elemSize)
  chunkWriteBufferNoSize around array (count * elemSize)

/-- Vectors, quaternions, matrices and colours: their floats one by one. -/
def writeFloats (around : Surroundings) (floats : List UInt32) : Run Chunk Unit :=
  writeEach (chunkWriteFloat around) floats

end Arrays

section SubChunks

/-- The header of a sub-chunk and its lists, at the position. The last list is that of its own
sub-chunks: pointers, cut to four bytes for each. -/
def writeSubChunkWords (around : Surroundings) (sub : Chunk) : Run Chunk Unit := do
  let totalSize := 8 + sub.dataSize + sub.ids.length + sub.chunks.length
  chunkWriteDword around (UInt32.ofNat (totalSize - 1))
  chunkWriteWord around sub.chunkClassId.toUInt16
  chunkWriteDword around (sub.dataVersion ||| sub.chunkVersion <<< 16)
  chunkWriteDword around (UInt32.ofNat sub.dataSize)
  chunkWriteDword around 0
  chunkWriteDword around (count32 sub.ids)
  chunkWriteDword around (count32 sub.chunks)
  chunkWriteDword around 0
  chunkWriteBufferNoSize around (encodeWords sub.words) (sub.dataSize * 4)
  chunkWriteBufferNoSize around (encodeWords sub.ids) (sub.ids.length * 4)
  let pointers := (List.range sub.chunks.length).map around.addresses
  chunkWriteBufferNoSize around (encodeWords pointers) (sub.chunks.length * 4)

def appendSubChunk (sub : Chunk) : Run Chunk Unit :=
  Action.update fun c => { c with
    chunkOptions := c.chunkOptions ||| optionChn, chunks := c.chunks ++ [{ sub with embedded := none }] }

/-- The last sub-chunk's `data` and `ids` pointed at its words in the parent. -/
def embedLast (offset : Nat) : Run Chunk Unit :=
  Action.update fun c => { c with chunks := match c.chunks.getLast? with
    | none => []
    | some sub => c.chunks.dropLast ++ [Chunk.refreshed c.buffer { sub with
        embedded := some offset
        chunks := sub.chunks.map fun child => { child with embedded := none } }] }

def chunkWriteSubChunk (around : Surroundings) (sub : Chunk) : Run Chunk Unit := do
  appendSubChunk sub
  let state ← Action.read Chunk.parserState
  match state with
  | none => Action.stop (.overread 0)
  | some state =>
    writeSubChunkWords around sub
    embedLast (state.currentPos + 8)

def chunkStartSubChunkSequence (around : Surroundings) (count : Nat) : Run Chunk Unit := do
  setOption optionChn
  chunkWriteDword around (UInt32.ofNat count)

def chunkAddSubChunk (sub : Chunk) : Run Chunk Unit := appendSubChunk sub

end SubChunks

end Libnmo.Format
