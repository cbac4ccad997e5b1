import Libnmo.Format.Chunk
import Libnmo.Lib.LittleEndian
import Libnmo.Lib.Cursor

/-! The flat chunk format: `nmo_chunk_serialize_version1`, its size calculator
and `nmo_chunk_parse`. Versions 4 and 5 have a fixed header, versions 6 and 7 a
packed one with optional lists. -/
namespace Libnmo.Format
open Core Lib Lib.LittleEndian Lib.Cursor

/-- The cast of a count to `uint32_t`. -/
def count32 {α : Type} (list : List α) : UInt32 := UInt32.ofNat list.length

def chunkCalcSizeVersion1 (c : Chunk) : Nat :=
  if c.chunkVersion < chunkVersion2 then
    6 * 4 + c.dataSize * 4 + c.ids.length * 4 + c.chunkRefs.length * 4
  else if c.chunkVersion = chunkVersion2 then
    7 * 4 + c.dataSize * 4 + c.ids.length * 4 + c.chunkRefs.length * 4 + c.managers.length * 4
  else
    let hasIds := hasFlag c.chunkOptions optionIds || 0 < c.ids.length
    let hasChunks := hasFlag c.chunkOptions optionChn || 0 < c.chunkRefs.length
    let hasManagers := hasFlag c.chunkOptions optionMan || 0 < c.managers.length
    2 * 4 + c.dataSize * 4 +
      (if hasIds then 4 + c.ids.length * 4 else 0) +
      (if hasChunks then 4 + c.chunkRefs.length * 4 else 0) +
      (if hasManagers then 4 + c.managers.length * 4 else 0)

/-- The options with the flag of each list that is not empty. -/
def optionFlags (c : Chunk) : UInt32 :=
  let flags := c.chunkOptions
  let flags := if 0 < c.ids.length then flags ||| optionIds else flags
  let flags := if 0 < c.chunkRefs.length then flags ||| optionChn else flags
  if 0 < c.managers.length then flags ||| optionMan else flags

def classIdByte (c : Chunk) : UInt8 := if c.chunkClassId ≠ 0 then c.chunkClassId else (c.classId &&& 0xFF).toUInt8

def optionalList (flags flag : UInt32) (list : List UInt32) : List UInt32 :=
  if hasFlag flags flag then count32 list :: list else []

def clampVersion (version : UInt32) : UInt32 :=
  if version < chunkVersion1 then chunkVersion1 else if version > chunkVersion4 then chunkVersion4 else version

/-- The dwords stored at `buffer[0]`, `buffer[1]`, ... -/
def chunkVersion1Words (c : Chunk) : List UInt32 :=
  let chunkVersion := clampVersion c.chunkVersion
  let versionInfo : UInt32 := (c.dataVersion &&& (0xFF : UInt32)) ||| ((chunkVersion &&& (0xFF : UInt32)) <<< 16)
  if chunkVersion < chunkVersion2 then
    [versionInfo,c.classId,count32 c.words,0,count32 c.ids,count32 c.chunkRefs] ++
      c.words ++ c.ids ++ c.chunkRefs
  else if chunkVersion = chunkVersion2 then
    [versionInfo,c.chunkClassId.toUInt32,count32 c.words,0,count32 c.ids,count32 c.chunkRefs,
      count32 c.managers] ++ c.words ++ c.ids ++ c.chunkRefs ++ c.managers
  else
    let flags := optionFlags c
    let dataVersion := (c.dataVersion &&& 0xFF).toUInt8
    let dataPacked := dataVersion.toUInt16 ||| (classIdByte c).toUInt16 <<< 8
    let chunkPacked := (chunkVersion &&& 0xFF).toUInt8.toUInt16 ||| (flags &&& 0xFF).toUInt8.toUInt16 <<< 8
    [dataPacked.toUInt32 ||| chunkPacked.toUInt32 <<< 16,count32 c.words] ++ c.words ++
      optionalList flags optionIds c.ids ++ optionalList flags optionChn c.chunkRefs ++
      optionalList flags optionMan c.managers

/-- The bytes written and the size reported to the caller. -/
def chunkSerializeVersion1 (c : Chunk) : Result (List UInt8 × Nat) :=
  let totalSize := chunkCalcSizeVersion1 c
  let written := encodeWords (chunkVersion1Words c)
  if totalSize < written.length then .error (.overwrite totalSize) else .ok (written,totalSize)

/-- The local variable `pos` of the parser and the chunk it fills. -/
structure Parse where
  pos : Nat
  chunk : Chunk

def nextDword (buf : List UInt32) : Run Parse UInt32 where
  run s := match buf[s.pos]? with
    | some word => (.ok word,{ s with pos := s.pos + 1 })
    | none => (.error (.overread s.pos),s)

def require (inside : Parse → Bool) (message : String) : Run Parse Unit where
  run s := if inside s then (.ok (),s) else (.error (.error .invalidState message),s)

def setChunk (f : Chunk → Chunk) : Run Parse Unit := Action.update fun s => { s with chunk := f s.chunk }

def skipDword : Run Parse Unit := Action.update fun s => { s with pos := s.pos + 1 }

@[simp] theorem setChunk_apply (f : Chunk → Chunk) (s : Parse) :
    (setChunk f).run s = (.ok (),{ s with chunk := f s.chunk }) := rfl

@[simp] theorem skipDword_apply (s : Parse) : skipDword.run s = (.ok (),{ s with pos := s.pos + 1 }) := rfl

/-- The `memcpy` of `count` dwords from `buf[pos]`. -/
def copyDwords (buf : List UInt32) (count : Nat) : Run Parse (List UInt32) where
  run s :=
    if s.pos + count ≤ buf.length then (.ok (slice buf s.pos count),{ s with pos := s.pos + count })
    else (.error (.overread (max s.pos buf.length)),s)

/-- One list: nothing for a zero count, else the bound check and the copy. -/
def parseArray (buf : List UInt32) (count : UInt32) (message : String)
    (store : List UInt32 → Chunk → Chunk) : Run Parse Unit := do
  if count > 0 then
    require (fun s => s.pos + count.toNat ≤ buf.length) message
    let list ← copyDwords buf count.toNat
    setChunk (store list)

def storeData (list : List UInt32) (c : Chunk) : Chunk := { c with data := some list, spare := [] }

def storeIds (list : List UInt32) (c : Chunk) : Chunk := { c with ids := list }

def storeChunkRefs (list : List UInt32) (c : Chunk) : Chunk := { c with chunkRefs := list }

def storeManagers (list : List UInt32) (c : Chunk) : Chunk := { c with managers := list }

def addOption (option : UInt32) (c : Chunk) : Chunk := { c with chunkOptions := c.chunkOptions ||| option }

def parseVersion1 (buf : List UInt32) : Run Parse Unit := do
  require (fun s => s.pos + 5 ≤ buf.length) "Buffer too small for VERSION1 header"
  let classId ← nextDword buf
  setChunk fun c => { c with classId := classId, chunkClassId := (classId &&& 0xFF).toUInt8 }
  let chunkSize ← nextDword buf
  skipDword
  let idCount ← nextDword buf
  let chunkCount ← nextDword buf
  parseArray buf chunkSize "Buffer too small for chunk data" storeData
  parseArray buf idCount "Buffer too small for ID array" fun list c => addOption optionIds (storeIds list c)
  parseArray buf chunkCount "Buffer too small for chunk array" fun list c => addOption optionChn (storeChunkRefs list c)

def parseVersion2 (buf : List UInt32) : Run Parse Unit := do
  require (fun s => s.pos + 5 ≤ buf.length) "Buffer too small for VERSION2 header"
  let chunkClassId ← nextDword buf
  setChunk fun c => { c with chunkClassId := chunkClassId.toUInt8 }
  let chunkSize ← nextDword buf
  skipDword
  let idCount ← nextDword buf
  let chunkCount ← nextDword buf
  let managerCount ← nextDword buf
  parseArray buf chunkSize "Buffer too small for chunk data" storeData
  parseArray buf idCount "Buffer too small for ID array" fun list c => addOption optionIds (storeIds list c)
  parseArray buf chunkCount "Buffer too small for chunk array" fun list c => addOption optionChn (storeChunkRefs list c)
  parseArray buf managerCount "Buffer too small for manager array" fun list c => addOption optionMan (storeManagers list c)

/-- An optional section of the compact layout: a count and that many entries. -/
def parseSection (buf : List UInt32) (options flag : UInt32) (countMessage arrayMessage : String)
    (store : List UInt32 → Chunk → Chunk) : Run Parse Unit := do
  if hasFlag options flag then
    require (fun s => s.pos < buf.length) countMessage
    let count ← nextDword buf
    parseArray buf count arrayMessage store

def parseCompact (buf : List UInt32) (packedDataVersion packedChunkVersion : UInt16) : Run Parse Unit := do
  let chunkOptions := ((packedChunkVersion &&& 0xFF00) >>> 8).toUInt8
  setChunk fun c => { c with
    chunkClassId := ((packedDataVersion &&& 0xFF00) >>> 8).toUInt8
    chunkOptions := chunkOptions.toUInt32
    dataVersion := (packedDataVersion &&& 0x00FF).toUInt8.toUInt32
    chunkVersion := (packedChunkVersion &&& 0x00FF).toUInt8.toUInt32 }
  require (fun s => s.pos < buf.length) "Buffer too small for chunk size"
  let chunkSize ← nextDword buf
  parseArray buf chunkSize "Buffer too small for chunk data" storeData
  parseSection buf chunkOptions.toUInt32 optionIds "Buffer too small for ID count"
    "Buffer too small for ID array" storeIds
  parseSection buf chunkOptions.toUInt32 optionChn "Buffer too small for chunk count"
    "Buffer too small for chunk array" storeChunkRefs
  parseSection buf chunkOptions.toUInt32 optionMan "Buffer too small for manager count"
    "Buffer too small for manager array" storeManagers

def parseDwords (buf : List UInt32) : Run Parse Unit := do
  require (fun _ => 1 ≤ buf.length) "Buffer too small for chunk header"
  let val ← nextDword buf
  let packedDataVersion := (val &&& 0x0000FFFF).toUInt16
  let packedChunkVersion := ((val &&& 0xFFFF0000) >>> 16).toUInt16
  let dataVersion := (packedDataVersion &&& 0x00FF).toUInt8
  let chunkVersion := (packedChunkVersion &&& 0x00FF).toUInt8
  setChunk fun c => { c with dataVersion := dataVersion.toUInt32, chunkVersion := chunkVersion.toUInt32 }
  if chunkVersion.toUInt32 < chunkVersion2 then parseVersion1 buf
  else if chunkVersion.toUInt32 = chunkVersion2 then parseVersion2 buf
  else if chunkVersion.toUInt32 ≤ chunkVersion4 then parseCompact buf packedDataVersion packedChunkVersion
  else fail .unsupportedVersion "Unsupported chunk version"

/-- `nmo_chunk_parse`: the raw bytes are remembered first, whatever the outcome. -/
def chunkParse (bytes : List UInt8) : Run Chunk Unit where
  run c :=
    if bytes.length = 0 then
      (.error (.error .invalidArgument "Invalid arguments to nmo_chunk_parse"),c)
    else
      let (outcome,s) := (parseDwords (decodeWords bytes)).run ⟨0,{ c with rawData := some bytes }⟩
      (outcome,s.chunk)

end Libnmo.Format
