import Libnmo.Format.ChunkReads
import Libnmo.Format.WriterExchange

/-! The states of objects, scene objects, be-objects and groups, and their chunks. Each
class writes its sections behind those of its parent, an identifier before each; a reader
looks for the identifier from the start of the data. -/
namespace Libnmo.Schema
open Core Format Lib

/-- A call whose error code the caller looks at; none is a failure. -/
def attempt {σ α : Type} (action : Run σ α) : Run σ (Option α) where
  run s := match action.run s with
    | (.ok a,s) => (.ok (some a),s)
    | (.error (.error _ _),s) => (.ok none,s)
    | (.error stop,s) => (.error stop,s)

section Reads

/-- An error of the read is replaced by another one. -/
def orFail {α : Type} (code : ErrorCode) (message : String) (read : Run Chunk α) : Run Chunk α := do
  match ← attempt read with
  | some value => pure value
  | none => fail code message

def found (identifier : UInt32) : Run Chunk Bool := do
  let place ← attempt (chunkSeekIdentifier identifier)
  pure place.isSome

def readDword : Run Chunk UInt32 := onPosition fun data _ => chunkReadDword data

def readInt : Run Chunk Int32 := onPosition fun data _ => chunkReadInt data

def readFloat : Run Chunk UInt32 := onPosition fun data _ => chunkReadFloat data

def readGuid : Run Chunk Guid := onPosition fun data _ => chunkReadGuid data

def readObjectId : Run Chunk UInt32 := onPosition fun data _ => chunkReadObjectId data

/-- So many values, or those before the first that cannot be read. -/
def readWhile {α : Type} (read : Run Chunk α) : Nat → Run Chunk (List α)
  | 0 => pure []
  | count + 1 => do
    match ← attempt read with
    | none => pure []
    | some value =>
      let rest ← readWhile read count
      pure (value :: rest)

/-- `nmo_chunk_get_size`, the bytes of the data in 32 bits. -/
def chunkGetSize (c : Chunk) : Nat := c.dataSize * 4 % 2 ^ 32

/-- Values from an array of them, so many as its count says. -/
def writeFirst {α : Type} (write : α → Run Chunk Unit) (values : List α) (count : Nat) : Run Chunk Unit := do
  writeEach write (values.take count)
  (if values.length < count then Action.stop (.overread values.length) else pure ())

end Reads

section CkObject

def stateSaveObjectHidden : UInt32 := 0x00000001
def stateSaveObjectHieraHidden : UInt32 := 0x00000002

def ckobjectVisible : UInt32 := 0x01
def ckobjectHierarchical : UInt32 := 0x02

structure CkobjectState where
  visibilityFlags : UInt32 := 0
  deriving DecidableEq

def ckobjectDeserialize : Run Chunk CkobjectState := do
  let hidden ← found stateSaveObjectHidden
  (if hidden then pure { visibilityFlags := 0 }
  else do
    let hierarchy ← found stateSaveObjectHieraHidden
    pure { visibilityFlags := if hierarchy then ckobjectHierarchical else ckobjectVisible })

/-- The identifier that is written, if any; nobody looks whether it is. -/
def ckobjectSerialize (around : Surroundings) (s : CkobjectState) : Run Chunk Unit :=
  if s.visibilityFlags &&& ckobjectVisible = 0 then do
    let _ ← attempt (chunkWriteIdentifier around
      (if s.visibilityFlags &&& ckobjectHierarchical ≠ 0 then stateSaveObjectHieraHidden else stateSaveObjectHidden))
    pure ()
  else pure ()

end CkObject

section CkSceneObject

/-- The raw tail is empty also where there is memory for one of size zero. -/
structure CksceneobjectState where
  base : CkobjectState := {}
  rawTail : List UInt8 := []
  deriving DecidableEq

/-- The position counts dwords, the size counts bytes. -/
def ckSceneObjectDeserialize : Run Chunk CksceneobjectState := do
  let base ← ckobjectDeserialize
  let pos ← Action.read chunkGetPosition
  let total ← Action.read chunkGetSize
  (if pos < total then do
    let tail ← onPosition fun data spare => chunkReadAndFillBuffer data spare (total - pos)
    pure { base := base, rawTail := tail.1 }
  else pure { base := base })

def ckSceneObjectSerialize (around : Surroundings) (s : CksceneobjectState) : Run Chunk Unit := do
  chunkStartWrite around
  ckobjectSerialize around s.base
  (if s.rawTail.length > 0 then chunkWriteBuffer around (some s.rawTail) s.rawTail.length else pure ())

end CkSceneObject

section CkBeObject

def stateSaveScripts : UInt32 := 0x00000003
def stateSaveDatas : UInt32 := 0x00000004
def stateSaveNewAttributes : UInt32 := 0x00000010
def datasVersionFlag : UInt32 := 0x10000000
def attributeManagerGuid : Guid := ⟨0x6BED328B,0x141F5148⟩
def maxScripts : UInt32 := 10000

/-- The arrays of the attributes hold the entries that were set, which a read that breaks off leaves behind
their count. -/
structure CkbeobjectState where
  base : CksceneobjectState := {}
  scriptIds : List UInt32 := []
  priority : Int32 := 0
  attributeCount : UInt32 := 0
  attributeParameterIds : List UInt32 := []
  attributeTypes : List UInt32 := []
  deriving DecidableEq

def loadScripts : Run Chunk (List UInt32) := do
  let present ← found stateSaveScripts
  (if present then do
    match ← attempt readDword with
    | none => pure []
    | some scriptCount =>
      if scriptCount = 0 ∨ scriptCount > maxScripts then pure []
      else readWhile readObjectId scriptCount.toNat
  else pure [])

def loadPriority : Run Chunk Int32 := do
  let present ← found stateSaveDatas
  (if present then do
    match ← attempt readDword with
    | none => pure 0
    | some versionFlag =>
      if versionFlag &&& datasVersionFlag = 0 then pure 0
      else do
        let priority ← attempt readInt
        pure (priority.getD 0)
  else pure 0)

/-- The types of the attributes behind their parameters, in a sequence of the attribute manager. -/
def loadAttributeTypes (attrCount : Nat) (ids : List UInt32) : Run Chunk (UInt32 × List UInt32 × List UInt32) := do
  let partialCount := if ids.length = attrCount then 0 else UInt32.ofNat ids.length
  match ← attempt (onPosition fun data _ => chunkStartManagerReadSequence data) with
  | none => pure (partialCount,ids,[])
  | some (managerGuid,seqCount) =>
    if seqCount = attrCount ∧ managerGuid = attributeManagerGuid then do
      let types ← readWhile readDword attrCount
      pure (UInt32.ofNat types.length,ids,types)
    else pure (partialCount,ids,[])

def loadAttributes : Run Chunk (UInt32 × List UInt32 × List UInt32) := do
  let present ← found stateSaveNewAttributes
  (if present then do
    match ← attempt (onPosition fun data _ => chunkReadObjectSequenceStart data) with
    | none => pure (0,[],[])
    | some attrCount =>
      if attrCount = 0 then pure (0,[],[])
      else do
        match ← attempt (onPosition fun _ _ => allocArray attrCount 4 "") with
        | none => pure (0,[],[])
        | some () =>
          let ids ← readWhile readObjectId attrCount
          loadAttributeTypes attrCount ids
  else pure (0,[],[]))

def ckBeObjectDeserialize : Run Chunk CkbeobjectState := do
  let base ← ckSceneObjectDeserialize
  let scriptIds ← loadScripts
  let priority ← loadPriority
  let attributes ← loadAttributes
  pure {
    base := base, scriptIds := scriptIds, priority := priority, attributeCount := attributes.1
    attributeParameterIds := attributes.2.1, attributeTypes := attributes.2.2 }

def saveScripts (around : Surroundings) (scriptIds : List UInt32) : Run Chunk Unit :=
  if scriptIds.length > 0 then do
    chunkWriteIdentifier around stateSaveScripts
    chunkWriteDword around (UInt32.ofNat scriptIds.length)
    writeEach (chunkWriteObjectId around) scriptIds
  else pure ()

def savePriority (around : Surroundings) (priority : Int32) : Run Chunk Unit :=
  if priority ≠ 0 then do
    chunkWriteIdentifier around stateSaveDatas
    chunkWriteDword around datasVersionFlag
    chunkWriteInt around priority
  else pure ()

def saveAttributes (around : Surroundings) (s : CkbeobjectState) : Run Chunk Unit :=
  if s.attributeCount > 0 ∧ s.attributeParameterIds ≠ [] ∧ s.attributeTypes ≠ [] then do
    chunkWriteIdentifier around stateSaveNewAttributes
    chunkWriteDword around s.attributeCount
    writeFirst (chunkWriteObjectId around) s.attributeParameterIds s.attributeCount.toNat
    chunkStartManagerSequence around attributeManagerGuid s.attributeCount.toNat
    writeFirst (chunkWriteDword around) s.attributeTypes s.attributeCount.toNat
  else pure ()

def ckBeObjectSerialize (around : Surroundings) (s : CkbeobjectState) : Run Chunk Unit := do
  ckSceneObjectSerialize around s.base
  saveScripts around s.scriptIds
  savePriority around s.priority
  saveAttributes around s

end CkBeObject

section CkGroup

/-- The identifier of hidden objects, too. -/
def stateSaveGroupAll : UInt32 := 0x00000001
def maxGroupObjects : UInt32 := 100000

structure CkgroupState where
  base : CkbeobjectState := {}
  objectIds : List UInt32 := []
  deriving DecidableEq

def ckGroupDeserialize : Run Chunk CkgroupState := do
  let base ← ckBeObjectDeserialize
  let present ← found stateSaveGroupAll
  (if present then do
    let count ← readInt
    (if count > 0 then
      if count.toUInt32 > maxGroupObjects then fail .validationFailed "Group object count exceeds maximum"
      else do
        let objectIds ← readWhile readObjectId count.toUInt32.toNat
        pure { base := base, objectIds := objectIds }
    else pure { base := base })
  else pure { base := base })

def ckGroupSerialize (around : Surroundings) (s : CkgroupState) : Run Chunk Unit := do
  ckBeObjectSerialize around s.base
  (if s.objectIds.length = 0 then pure ()
  else do
    chunkWriteIdentifier around stateSaveGroupAll
    chunkWriteInt around (UInt32.ofNat s.objectIds.length).toInt32
    writeEach (chunkWriteObjectId around) s.objectIds)

end CkGroup

/-- What a reader makes of the chunk that a writer filled. -/
def readBack {S : Type} (serialize : Run Chunk Unit) (deserialize : Run Chunk S) : Result S :=
  ((do
    serialize
    chunkStartRead
    deserialize : Run Chunk S).run chunkCreate).1

/-- The same where the writer relies on a chunk that was started for it. -/
def startedBack {S : Type} (around : Surroundings) (serialize : Run Chunk Unit) (deserialize : Run Chunk S) : Result S :=
  readBack (do
    chunkStartWrite around
    serialize) deserialize

end Libnmo.Schema
