import Libnmo.Schema.BehaviorState

/-! The state of scenes and its chunk: the level with the objects of the scene, the
environment and the settings of the rendering. The initial values of the objects are
a sequence of sub-chunks, each with a reserved one behind it that is always null. -/
namespace Libnmo.Schema
open Core Format Lib

def stateSaveSceneNewData : UInt32 := 0x00000001
def stateSaveSceneLaunched : UInt32 := 0x00000002
def stateSaveSceneRenderSettings : UInt32 := 0x00000004
def maxSceneObjects : UInt32 := 100000

structure SceneObjectDesc where
  objectId : UInt32 := 0
  initialValue : Option Chunk := none
  flags : UInt32 := 0

/-- Floats are given by their bits. -/
structure CksceneState where
  base : CkbeobjectState := {}
  levelId : UInt32 := 0
  objectDescs : List SceneObjectDesc := []
  environmentSettings : UInt32 := 0
  backgroundColor : UInt32 := 0
  ambientLightColor : UInt32 := 0
  fogMode : UInt32 := 0
  fogColor : UInt32 := 0
  fogStart : UInt32 := 0
  fogEnd : UInt32 := 0
  fogDensity : UInt32 := 0
  backgroundTextureId : UInt32 := 0
  startingCameraId : UInt32 := 0

section Deserialize

/-- `nmo_chunk_read_object_sequence_start` with or without a place for the count. -/
def readObjectSequenceStart (outCount : Bool) : Run Chunk Unit :=
  if outCount then do
    let _ ← onPosition fun data _ => chunkReadObjectSequenceStart data
    pure ()
  else fail .invalidArgument "Invalid arguments"

def readSubChunk : Run Chunk (Option Chunk) := attempt (onPosition fun data _ => chunkReadSubChunk data)

/-- Pairs of an initial value and a reserved chunk, which is discarded. -/
def readInitialValues : Nat → Run Chunk (List (Option Chunk))
  | 0 => pure []
  | pairs + 1 => do
    let initialValue ← readSubChunk
    let _reserved ← readSubChunk
    let rest ← readInitialValues pairs
    pure (initialValue :: rest)

def loadInitialValues (descCount : Nat) : Run Chunk (List (Option Chunk)) := do
  match ← attempt (onPosition fun data _ => chunkStartReadSubChunkSequence data) with
  | none => pure []
  | some subChunkCount => readInitialValues (min descCount ((subChunkCount + 1) / 2))

/-- So many descriptors as there were IDs; what was not read is null or zero. -/
def gatherDescs (ids : List UInt32) (initialValues : List (Option Chunk)) (flags : List UInt32) : List SceneObjectDesc :=
  ids.mapIdx fun i id => ⟨id,(initialValues[i]?).join,(flags[i]?).getD 0⟩

def loadDescs (descCount : Nat) : Run Chunk (List SceneObjectDesc) := do
  readObjectSequenceStart false
  let ids ← readWhile readObjectId descCount
  let initialValues ← loadInitialValues descCount
  let flags ← readWhile readDword descCount
  pure (gatherDescs ids initialValues flags)

def loadNewData : Run Chunk (UInt32 × List SceneObjectDesc) := do
  let present ← found stateSaveSceneNewData
  (if present then do
    let levelId ← readObjectId
    let descCount ← readInt
    (if descCount > 0 then
      if descCount.toUInt32 > maxSceneObjects then fail .validationFailed "Scene object count exceeds maximum"
      else do
        let objectDescs ← loadDescs descCount.toUInt32.toNat
        pure (levelId,objectDescs)
    else pure (levelId,[]))
  else pure (0,[]))

def loadLaunched : Run Chunk UInt32 := do
  let present ← found stateSaveSceneLaunched
  (if present then do
    let settings ← attempt readDword
    pure (settings.getD 0)
  else pure 0)

/-- The settings of the rendering, read into the state. -/
def loadRenderSettings (s : CksceneState) : Run Chunk CksceneState := do
  let present ← found stateSaveSceneRenderSettings
  (if present then do
    let backgroundColor ← readDword
    let ambientLightColor ← readDword
    let fogMode ← readDword
    let fogColor ← readDword
    let fogStart ← readFloat
    let fogEnd ← readFloat
    let fogDensity ← readFloat
    let backgroundTextureId ← readObjectId
    let startingCameraId ← readObjectId
    pure { s with
      backgroundColor, ambientLightColor, fogMode, fogColor, fogStart, fogEnd, fogDensity
      backgroundTextureId, startingCameraId }
  else pure s)

def ckSceneDeserialize : Run Chunk CksceneState := do
  let base ← ckBeObjectDeserialize
  let (levelId,objectDescs) ← loadNewData
  let environmentSettings ← loadLaunched
  loadRenderSettings { base, levelId, objectDescs, environmentSettings }

end Deserialize

section Serialize

/-- `nmo_chunk_write_sub_chunk`, which takes no null pointer. -/
def writeSubChunk (around : Surroundings) : Option Chunk → Run Chunk Unit
  | none => fail .invalidArgument "Invalid chunk arguments"
  | some sub => chunkWriteSubChunk around sub

/-- The initial value of an object, and the reserved null behind it. -/
def writeInitialValue (around : Surroundings) (desc : SceneObjectDesc) : Run Chunk Unit := do
  writeSubChunk around desc.initialValue
  writeSubChunk around none

def saveDescs (around : Surroundings) (objectDescs : List SceneObjectDesc) : Run Chunk Unit := do
  chunkWriteObjectSequenceStart around objectDescs.length
  writeEach (fun desc => chunkWriteObjectId around desc.objectId) objectDescs
  chunkStartSubChunkSequence around (objectDescs.length * 2 % 2 ^ 32)
  writeEach (writeInitialValue around) objectDescs
  writeEach (fun desc => chunkWriteDword around desc.flags) objectDescs

def saveNewData (around : Surroundings) (s : CksceneState) : Run Chunk Unit := do
  chunkWriteIdentifier around stateSaveSceneNewData
  chunkWriteObjectId around s.levelId
  chunkWriteInt around (UInt32.ofNat s.objectDescs.length).toInt32
  (if s.objectDescs.length > 0 then saveDescs around s.objectDescs else pure ())

def saveLaunched (around : Surroundings) (s : CksceneState) : Run Chunk Unit := do
  chunkWriteIdentifier around stateSaveSceneLaunched
  chunkWriteDword around s.environmentSettings

def saveRenderSettings (around : Surroundings) (s : CksceneState) : Run Chunk Unit := do
  chunkWriteIdentifier around stateSaveSceneRenderSettings
  chunkWriteDword around s.backgroundColor
  chunkWriteDword around s.ambientLightColor
  chunkWriteDword around s.fogMode
  chunkWriteDword around s.fogColor
  chunkWriteFloat around s.fogStart
  chunkWriteFloat around s.fogEnd
  chunkWriteFloat around s.fogDensity
  chunkWriteObjectId around s.backgroundTextureId
  chunkWriteObjectId around s.startingCameraId

def ckSceneSerialize (around : Surroundings) (s : CksceneState) : Run Chunk Unit := do
  ckBeObjectSerialize around s.base
  saveNewData around s
  saveLaunched around s
  saveRenderSettings around s

end Serialize

end Libnmo.Schema
