import Libnmo.Format.ChunkVersion1

/-! The nested chunk format: `nmo_chunk_serialize` and `nmo_chunk_deserialize`
with their recursion over children. Lengths in bytes are 32-bit products on the
reading side; `beyond` is what memory holds behind an allocation, and the fuel of
the reader stands for the depth of its recursion. -/
namespace Libnmo.Format
open Core Lib Lib.LittleEndian Lib.Cursor

def optionalSize (flags flag : UInt32) (size : Nat) : Nat := if hasFlag flags flag then 4 + size else 0

mutual
def chunkCalcSize : Chunk → Nat
  | c@{ chunks := children, .. } =>
    4 + 4 + c.dataSize * 4 + optionalSize c.chunkOptions optionIds (c.ids.length * 4) +
      optionalSize c.chunkOptions optionChn (childrenCalcSize children) +
      optionalSize c.chunkOptions optionMan (c.managers.length * 4)
termination_by structural c => c
def childrenCalcSize : List Chunk → Nat
  | [] => 0
  | child :: children => chunkCalcSize child + childrenCalcSize children
termination_by structural children => children
end

/-- `write_bytes`: the state is what has been written to a buffer of `size` bytes. -/
def writeBytes (size : Nat) (bytes : List UInt8) : Run (List UInt8) Unit where
  run written :=
    if written.length + bytes.length > size then
      (.error (.error .bufferOverrun "Write buffer overrun"),written)
    else (.ok (),written ++ bytes)

def writeU32 (size : Nat) (value : UInt32) : Run (List UInt8) Unit := writeBytes size (wordBytes value)

def packVersionInfo (c : Chunk) : UInt32 :=
  let versionInfo : UInt32 := c.dataVersion &&& 0xFF
  let versionInfo : UInt32 := versionInfo ||| ((c.chunkClassId.toUInt32 &&& (0xFF : UInt32)) <<< 8)
  let versionInfo : UInt32 := versionInfo ||| ((c.chunkVersion &&& (0xFF : UInt32)) <<< 16)
  versionInfo ||| ((c.chunkOptions &&& (0xFF : UInt32)) <<< 24)

def writeDwords (size : Nat) (list : List UInt32) : Run (List UInt8) Unit :=
  if 0 < list.length then writeBytes size (encodeWords list) else pure ()

/-- A list behind its count, where `flag` is set. -/
def writeList (size : Nat) (flags flag : UInt32) (list : List UInt32) : Run (List UInt8) Unit :=
  if hasFlag flags flag then do
    writeU32 size (count32 list)
    writeDwords size list
  else pure ()

mutual
def chunkSerializeInternal (size : Nat) : Chunk → Run (List UInt8) Unit
  | c@{ chunks := children, .. } => do
    writeU32 size (packVersionInfo c)
    writeU32 size (count32 c.words)
    writeDwords size c.words
    writeList size c.chunkOptions optionIds c.ids
    (if hasFlag c.chunkOptions optionChn then do
      writeU32 size (count32 children)
      childrenSerializeInternal size children
    else pure ())
    writeList size c.chunkOptions optionMan c.managers
termination_by structural c => c
def childrenSerializeInternal (size : Nat) : List Chunk → Run (List UInt8) Unit
  | [] => pure ()
  | child :: children => do
    chunkSerializeInternal size child
    childrenSerializeInternal size children
termination_by structural children => children
end

/-- The bytes written and the size reported to the caller. -/
def chunkSerialize (c : Chunk) : Result (List UInt8 × Nat) :=
  let totalSize := chunkCalcSize c
  match (chunkSerializeInternal totalSize c).run [] with
  | (.ok (),written) => .ok (written,totalSize)
  | (.error stop,_) => .error stop

/-- `read_bytes`: the state is the position in the buffer. -/
def readBytes (buffer : List UInt8) (len : Nat) : Run Nat (List UInt8) where
  run pos :=
    if pos + len > buffer.length then (.error (.error .bufferOverrun "Read buffer overrun"),pos)
    else (.ok (slice buffer pos len),pos + len)

def readU32 (buffer : List UInt8) : Run Nat UInt32 := do
  let bytes ← readBytes buffer 4
  pure ((decodeWords bytes).headD 0)

/-- `count` dwords: the allocation and the copy have the 32-bit length `count * 4`, the list has `count` entries. -/
def readDwords (beyond : Nat → UInt32) (buffer : List UInt8) (count : UInt32) (message : String) :
    Run Nat (List UInt32) :=
  if count > 0 then
    let len : UInt32 := count * 4
    if len = 0 then fail .nomem message
    else do
      let bytes ← readBytes buffer len.toNat
      let copied := decodeWords bytes
      pure (copied ++ (List.range (count.toNat - copied.length)).map beyond)
  else pure []

def readList (beyond : Nat → UInt32) (buffer : List UInt8) (options flag : UInt32) (message : String) :
    Run Nat (List UInt32) :=
  if hasFlag options flag then do
    let count ← readU32 buffer
    readDwords beyond buffer count message
  else pure []

def chunkDeserializeInternal (beyond : Nat → UInt32) (buffer : List UInt8) : Nat → Run Nat Chunk
  | 0 => Action.stop .endless
  | fuel + 1 => do
    let versionInfo ← readU32 buffer
    let chunkOptions : UInt32 := (versionInfo >>> 24) &&& 0xFF
    let chunkSizeDwords ← readU32 buffer
    let data ← readDwords beyond buffer chunkSizeDwords "Failed to allocate chunk data"
    let ids ← readList beyond buffer chunkOptions optionIds "Failed to allocate IDs"
    let chunks ← (if hasFlag chunkOptions optionChn then do
      let chunkCount ← readU32 buffer
      (chunkDeserializeInternal beyond buffer fuel).times chunkCount.toNat
    else pure [])
    let managers ← readList beyond buffer chunkOptions optionMan "Failed to allocate managers"
    pure { chunkCreate with
      dataVersion := versionInfo &&& 0xFF
      chunkClassId := ((versionInfo >>> 8) &&& 0xFF).toUInt8
      chunkVersion := (versionInfo >>> 16) &&& 0xFF
      chunkOptions := chunkOptions
      data := if chunkSizeDwords > 0 then some data else none
      ids := ids
      chunks := chunks
      managers := managers }

def chunkDeserialize (beyond : Nat → UInt32) (buffer : List UInt8) : Result Chunk :=
  if buffer.length < 8 then .error (.error .bufferOverrun "Buffer too small for chunk")
  else ((chunkDeserializeInternal beyond buffer buffer.length).run 0).1

end Libnmo.Format
