import Libnmo.Format.ChunkApi

/-! `nmo_chunk_writer`: a chunk built in a buffer of its own, with lists of the
positions it tracks, and handed over by `finalize`. A file context turns object
IDs into file indices, which are not tracked. Result codes carry no message. -/
namespace Libnmo.Format
open Core Lib Lib.LittleEndian

structure ChunkFileContext where
  runtimeToFile : Option IdRemap := none
  fileToRuntime : Option IdRemap := none

structure ChunkWriter where
  chunk : Option Chunk := none
  fileContext : Option ChunkFileContext := none
  data : List UInt32 := []
  spare : List UInt32 := []
  idList : List UInt32 := []
  managerList : List UInt32 := []
  chunkRefList : List UInt32 := []
  chunkList : List Chunk := []
  prevIdentifierPos : Nat := 0
  finalized : Bool := false

/-- `LIST_SEQUENCE_MARKER`. -/
def listSequenceMarker : UInt32 := 0xFFFFFFFF

namespace ChunkWriter

/-- The table of `writer_has_file_context`, when there is one. -/
def runtimeToFile (w : ChunkWriter) : Option IdRemap := w.fileContext.bind ChunkFileContext.runtimeToFile

def withOptions (w : ChunkWriter) (change : UInt32 → UInt32) : ChunkWriter :=
  { w with chunk := w.chunk.map fun c => { c with chunkOptions := change c.chunkOptions } }

end ChunkWriter

def writerCreate (around : Surroundings) : ChunkWriter := { spare := (List.range 100).map around.memory }

def fileOption (w : ChunkWriter) (options : UInt32) : UInt32 :=
  if w.runtimeToFile.isSome then options ||| optionFile else options &&& ~~~ optionFile

def writerSetFileContext (ctx : Option ChunkFileContext) (w : ChunkWriter) : ChunkWriter :=
  let w := { w with fileContext := ctx }
  w.withOptions (fileOption w)

def writerStart (classId chunkVersion : UInt32) (w : ChunkWriter) : ChunkWriter :=
  { w with
    chunk := some { chunkCreate with
      classId := classId, chunkVersion := chunkVersion, chunkClassId := (classId &&& 0xFF).toUInt8
      dataVersion := 0, chunkOptions := fileOption w chunkCreate.chunkOptions }
    data := [], spare := w.data ++ w.spare
    idList := [], managerList := [], chunkRefList := [], chunkList := [], prevIdentifierPos := 0, finalized := false }

section Storing

/-- The check that every writing function makes first. -/
def requireOpen : Run ChunkWriter Unit where
  run w := if w.finalized then (.error (.error .invalidArgument ""),w) else (.ok (),w)

/-- Growth by 500 dwords at a time. -/
def ensureDataCapacity (around : Surroundings) (neededDwords : Nat) : Run ChunkWriter Unit :=
  Action.update fun w =>
    if neededDwords ≤ w.spare.length then w
    else
      let increments := (neededDwords - w.spare.length + 499) / 500
      let fresh := (List.range' w.data.length (w.spare.length + increments * 500)).map around.memory
      { w with spare := fresh }

/-- `data[data_size++] = word` for each word. -/
def appendWords (words : List UInt32) : Run ChunkWriter Unit where
  run w :=
    if words.length ≤ w.spare.length then
      (.ok (),{ w with data := w.data ++ words, spare := w.spare.drop words.length })
    else (.error (.overwrite (w.data.length + w.spare.length)),w)

def writerPut (around : Surroundings) (words : List UInt32) : Run ChunkWriter Unit := do
  requireOpen
  ensureDataCapacity around words.length
  appendWords words

def writerWriteByte (around : Surroundings) (value : UInt8) : Run ChunkWriter Unit := writerPut around [value.toUInt32]

def writerWriteWord (around : Surroundings) (value : UInt16) : Run ChunkWriter Unit :=
  writerPut around [value.toUInt32]

def writerWriteDword (around : Surroundings) (value : UInt32) : Run ChunkWriter Unit := writerPut around [value]

def writerWriteInt (around : Surroundings) (value : Int32) : Run ChunkWriter Unit := writerPut around [value.toUInt32]

/-- The float is given by its bits. -/
def writerWriteFloat (around : Surroundings) (bits : UInt32) : Run ChunkWriter Unit := writerPut around [bits]

def writerWriteGuid (around : Surroundings) (guid : Guid) : Run ChunkWriter Unit := writerPut around [guid.d1,guid.d2]

/-- `[ID][NextPos]`. The position goes to the word behind the previous identifier, which before the first
identifier is the second word of the data. -/
def writerWriteIdentifier (around : Surroundings) (identifier : UInt32) : Run ChunkWriter Unit := do
  requireOpen
  ensureDataCapacity around 2
  Action.update fun w => { w with
    -- position 0 is that of no identifier, too
    data := if w.prevIdentifierPos < w.data.length then
        w.data.set (w.prevIdentifierPos + 1) (UInt32.ofNat w.data.length) else w.data
    prevIdentifierPos := w.data.length }
  appendWords [identifier,0]

end Storing

section Tracking

def writerSetOption (option : UInt32) : Run ChunkWriter Unit := Action.update fun w => w.withOptions (· ||| option)

def trackIdPosition : Run ChunkWriter Unit :=
  Action.update fun w => { w with idList := w.idList ++ [UInt32.ofNat w.data.length] }

def trackIdSequenceStart : Run ChunkWriter Unit :=
  Action.update fun w => { w with idList := w.idList ++ [listSequenceMarker,UInt32.ofNat w.data.length] }

def encodeObjectId (w : ChunkWriter) (id : UInt32) : Result UInt32 :=
  match w.runtimeToFile with
  | none => .ok id
  | some remap => if id = 0 then .ok id
    else match idRemapLookupId remap id with
      | .ok fileId => .ok fileId
      | .error _ => .error (.error .notFound "")

def writerWriteObjectId (around : Surroundings) (id : UInt32) : Run ChunkWriter Unit := do
  requireOpen
  ensureDataCapacity around 1
  writerSetOption optionIds
  let w ← Action.read fun w : ChunkWriter => w
  (if id ≠ 0 ∧ w.runtimeToFile.isNone then trackIdPosition else pure ())
  let encodedValue ← Action.lift (encodeObjectId w id)
  appendWords [encodedValue]

def writerStartObjectSequence (around : Surroundings) (count : Nat) : Run ChunkWriter Unit := do
  requireOpen
  writerSetOption optionIds
  ensureDataCapacity around 1
  let w ← Action.read fun w : ChunkWriter => w
  (if 0 < count ∧ w.runtimeToFile.isNone then trackIdSequenceStart else pure ())
  appendWords [UInt32.ofNat count]

def writerWriteManagerInt (around : Surroundings) (manager : Guid) (value : Int32) : Run ChunkWriter Unit := do
  requireOpen
  writerSetOption optionMan
  ensureDataCapacity around 3
  Action.update fun w => { w with managerList := w.managerList ++ [UInt32.ofNat w.data.length] }
  appendWords [manager.d1,manager.d2,value.toUInt32]

def writerStartManagerSequence (around : Surroundings) (manager : Guid) (count : Nat) : Run ChunkWriter Unit := do
  requireOpen
  writerSetOption optionMan
  ensureDataCapacity around 3
  Action.update fun w => { w with
    managerList := w.managerList ++ [listSequenceMarker,UInt32.ofNat w.data.length] }
  appendWords [UInt32.ofNat count,manager.d1,manager.d2]

end Tracking

section SubChunks

/-- The position that is tracked is the one before the count. -/
def writerStartSubchunkSequence (around : Surroundings) (count : Nat) : Run ChunkWriter Unit := do
  requireOpen
  writerSetOption optionChn
  ensureDataCapacity around 1
  Action.update fun w => { w with
    chunkRefList := w.chunkRefList ++ [listSequenceMarker,UInt32.ofNat (w.data.length - 1)] }
  appendWords [UInt32.ofNat count]

/-- `manager_count_field`: the manager count of a sub-chunk has a field only after version 4. -/
def managerCountField (sub : Chunk) : UInt32 := if sub.chunkVersion > 4 then count32 sub.managers else 0

def subchunkVersionInfo (sub : Chunk) : UInt32 :=
  let chunkClassByte := if sub.chunkClassId ≠ 0 then sub.chunkClassId else (sub.classId &&& 0xFF).toUInt8
  let dataVersion := (sub.dataVersion &&& 0xFF).toUInt8
  let chunkVersion := (sub.chunkVersion &&& 0xFF).toUInt8
  let chunkOptions := (optionFlags sub &&& 0xFF).toUInt8
  let dataPacked := dataVersion.toUInt16 ||| chunkClassByte.toUInt16 <<< 8
  let versionPacked := chunkVersion.toUInt16 ||| chunkOptions.toUInt16 <<< 8
  dataPacked.toUInt32 ||| versionPacked.toUInt32 <<< 16

/-- The dwords after the size field. -/
def subchunkPayload (sub : Chunk) : List UInt32 :=
  [sub.classId,subchunkVersionInfo sub,count32 sub.words,if hasFlag (optionFlags sub) optionFile then 1 else 0,
    count32 sub.ids,count32 sub.chunkRefs] ++
  (if sub.chunkVersion > 4 then [managerCountField sub] else []) ++
  sub.words ++ sub.ids ++ sub.chunkRefs ++ sub.managers.take (managerCountField sub).toNat

def trackChunkPosition : Run ChunkWriter Unit :=
  Action.update fun w => { w with chunkRefList := w.chunkRefList ++ [UInt32.ofNat (w.data.length - 1)] }

/-- A null sub-chunk is written as a zero size. -/
def writerWriteSubchunk (around : Surroundings) (sub : Option Chunk) : Run ChunkWriter Unit := do
  requireOpen
  writerSetOption optionChn
  match sub with
  | none => do
    ensureDataCapacity around 1
    appendWords [0]
  | some sub => do
    Action.update fun w => { w with chunkList := w.chunkList ++ [{ sub with embedded := none }] }
    let payload := subchunkPayload sub
    ensureDataCapacity around (1 + payload.length)
    appendWords [UInt32.ofNat payload.length]
    trackChunkPosition
    appendWords payload

end SubChunks

/-- Lists that are empty leave the fields of the chunk alone. -/
def writerFinalize (w : ChunkWriter) : Option Chunk × ChunkWriter :=
  match w.chunk with
  | none => (none,w)
  | some c =>
    if w.finalized then (none,w)
    else
      let c := { c with
        data := some w.data, spare := w.spare
        ids := if 0 < w.idList.length then w.idList else c.ids
        managers := if 0 < w.managerList.length then w.managerList else c.managers
        chunks := if 0 < w.chunkList.length then w.chunkList else c.chunks
        chunkRefs := if 0 < w.chunkRefList.length then w.chunkRefList else c.chunkRefs }
      (some c,{ w with chunk := some c, finalized := true })

end Libnmo.Format
