import Libnmo.Schema.ObjectRoundTrip

/-! The state of behaviors and its chunk. Behind the words of the scene object stand the
interface chunk, the data of the behavior and the flags of its activity, each optional
but the data, whose arrays are listed in a word of save flags. -/
namespace Libnmo.Schema
open Core Format Lib Lib.LittleEndian

def stateSaveBehaviorInterface : UInt32 := 0x00000001
def stateSaveBehaviorNewData : UInt32 := 0x00000002
def stateSaveBehaviorSingleActivity : UInt32 := 0x00000004

def stateSaveBehaviorSubBehav : UInt32 := 0x00000001
def stateSaveBehaviorSubLinks : UInt32 := 0x00000002
def stateSaveBehaviorOperations : UInt32 := 0x00000004
def stateSaveBehaviorInParams : UInt32 := 0x00000008
def stateSaveBehaviorOutParams : UInt32 := 0x00000010
def stateSaveBehaviorLocalParams : UInt32 := 0x00000020
def stateSaveBehaviorInputs : UInt32 := 0x00000040
def stateSaveBehaviorOutputs : UInt32 := 0x00000080

def behaviorBuildingBlock : UInt32 := 0x00000001
def behaviorPriority : UInt32 := 0x00000100
def behaviorCompatibleClassId : UInt32 := 0x00000200
def behaviorTargetable : UInt32 := 0x00000400

def maxArraySize : UInt32 := 100000

structure CkbehaviorState where
  base : CksceneobjectState := {}
  flags : UInt32 := 0
  priority : Int32 := 0
  compatibleClassId : Int32 := 0
  blockGuid : Guid := ⟨0,0⟩
  blockVersion : UInt32 := 0
  targetParameterId : UInt32 := 0
  subBehaviors : List UInt32 := []
  subBehaviorLinks : List UInt32 := []
  operations : List UInt32 := []
  inParameters : List UInt32 := []
  outParameters : List UInt32 := []
  localParameters : List UInt32 := []
  inputs : List UInt32 := []
  outputs : List UInt32 := []
  singleActivityFlags : UInt32 := 0
  hasSingleActivity : Bool := false
  interfaceChunk : Option Chunk := none

section Arrays

/-- A negative count is an empty array; a read that breaks off leaves the IDs before it. -/
def readObjectArray : Run Chunk (List UInt32) := do
  let count ← readInt
  (if count ≤ 0 then pure []
  else if count.toUInt32 > maxArraySize then fail .validationFailed "Array count exceeds maximum"
  else readWhile readObjectId count.toUInt32.toNat)

def writeObjectArray (around : Surroundings) (ids : List UInt32) : Run Chunk Unit := do
  chunkWriteInt around (UInt32.ofNat ids.length).toInt32
  writeEach (chunkWriteObjectId around) ids

/-- What stands in the chunk only where a flag is set. -/
def readWhen {α : Type} (flags flag : UInt32) (missing : α) (read : Run Chunk α) : Run Chunk α :=
  if flags &&& flag ≠ 0 then read else pure missing

def writeWhen (flags flag : UInt32) (write : Run Chunk Unit) : Run Chunk Unit :=
  if flags &&& flag ≠ 0 then write else pure ()

end Arrays

section Deserialize

/-- Errors are ignored, since the interface chunk is optional. -/
def loadInterface : Run Chunk (Option Chunk) := do
  let present ← found stateSaveBehaviorInterface
  (if present then attempt (onPosition fun data _ => chunkReadSubChunk data)
  else pure none)

def loadBehaviorData (base : CksceneobjectState) (interfaceChunk : Option Chunk) : Run Chunk CkbehaviorState := do
  let present ← found stateSaveBehaviorNewData
  (if present then pure () else fail .validationFailed "Missing BEHAVIORNEWDATA section")
  let flags ← readDword
  let blockGuid ← readWhen flags behaviorBuildingBlock ⟨0,0⟩ readGuid
  let blockVersion ← readWhen flags behaviorBuildingBlock 0 readDword
  let priority ← readWhen flags behaviorPriority 0 readInt
  let compatibleClassId ← readWhen flags behaviorCompatibleClassId 2 readInt
  let targetParameterId ← readWhen flags behaviorTargetable 0 readObjectId
  let saveFlags ← readDword
  let subBehaviors ← readWhen saveFlags stateSaveBehaviorSubBehav [] readObjectArray
  let subBehaviorLinks ← readWhen saveFlags stateSaveBehaviorSubLinks [] readObjectArray
  let operations ← readWhen saveFlags stateSaveBehaviorOperations [] readObjectArray
  let inParameters ← readWhen saveFlags stateSaveBehaviorInParams [] readObjectArray
  let outParameters ← readWhen saveFlags stateSaveBehaviorOutParams [] readObjectArray
  let localParameters ← readWhen saveFlags stateSaveBehaviorLocalParams [] readObjectArray
  let inputs ← readWhen saveFlags stateSaveBehaviorInputs [] readObjectArray
  let outputs ← readWhen saveFlags stateSaveBehaviorOutputs [] readObjectArray
  pure {
    base, interfaceChunk, flags, blockGuid, blockVersion, priority, compatibleClassId, targetParameterId
    subBehaviors, subBehaviorLinks, operations, inParameters, outParameters, localParameters, inputs, outputs }

def ckBehaviorDeserialize : Run Chunk CkbehaviorState := do
  let base ← ckSceneObjectDeserialize
  let interfaceChunk ← loadInterface
  let state ← loadBehaviorData base interfaceChunk
  let present ← found stateSaveBehaviorSingleActivity
  (if present then do
    match ← attempt readDword with
    | none => pure state
    | some flags => pure { state with singleActivityFlags := flags, hasSingleActivity := true }
  else pure state)

end Deserialize

section Serialize

def saveInterface (around : Surroundings) : Option Chunk → Run Chunk Unit
  | none => pure ()
  | some sub => do
    chunkWriteIdentifier around stateSaveBehaviorInterface
    chunkWriteSubChunk around sub

def presence (ids : List UInt32) (flag : UInt32) : UInt32 := if ids.length > 0 then flag else 0

def behaviorSaveFlags (s : CkbehaviorState) : UInt32 :=
  presence s.subBehaviors stateSaveBehaviorSubBehav ||| presence s.subBehaviorLinks stateSaveBehaviorSubLinks |||
  presence s.operations stateSaveBehaviorOperations ||| presence s.inParameters stateSaveBehaviorInParams |||
  presence s.outParameters stateSaveBehaviorOutParams ||| presence s.localParameters stateSaveBehaviorLocalParams |||
  presence s.inputs stateSaveBehaviorInputs ||| presence s.outputs stateSaveBehaviorOutputs

def saveBehaviorData (around : Surroundings) (s : CkbehaviorState) : Run Chunk Unit := do
  chunkWriteIdentifier around stateSaveBehaviorNewData
  chunkWriteDword around s.flags
  writeWhen s.flags behaviorBuildingBlock (chunkWriteGuid around s.blockGuid)
  writeWhen s.flags behaviorBuildingBlock (chunkWriteDword around s.blockVersion)
  writeWhen s.flags behaviorPriority (chunkWriteInt around s.priority)
  writeWhen s.flags behaviorCompatibleClassId (chunkWriteInt around s.compatibleClassId)
  writeWhen s.flags behaviorTargetable (chunkWriteObjectId around s.targetParameterId)
  let saveFlags := behaviorSaveFlags s
  chunkWriteDword around saveFlags
  writeWhen saveFlags stateSaveBehaviorSubBehav (writeObjectArray around s.subBehaviors)
  writeWhen saveFlags stateSaveBehaviorSubLinks (writeObjectArray around s.subBehaviorLinks)
  writeWhen saveFlags stateSaveBehaviorOperations (writeObjectArray around s.operations)
  writeWhen saveFlags stateSaveBehaviorInParams (writeObjectArray around s.inParameters)
  writeWhen saveFlags stateSaveBehaviorOutParams (writeObjectArray around s.outParameters)
  writeWhen saveFlags stateSaveBehaviorLocalParams (writeObjectArray around s.localParameters)
  writeWhen saveFlags stateSaveBehaviorInputs (writeObjectArray around s.inputs)
  writeWhen saveFlags stateSaveBehaviorOutputs (writeObjectArray around s.outputs)

def ckBehaviorSerialize (around : Surroundings) (s : CkbehaviorState) : Run Chunk Unit := do
  ckSceneObjectSerialize around s.base
  saveInterface around s.interfaceChunk
  saveBehaviorData around s
  (if s.hasSingleActivity then do
    chunkWriteIdentifier around stateSaveBehaviorSingleActivity
    chunkWriteDword around s.singleActivityFlags
  else pure ())

end Serialize

end Libnmo.Schema

/-! The links of a behavior graph and the pins they join. A link has its delays in the halves
of one word; an older format has a section for one delay and one for the pins. -/
namespace Libnmo.Schema
open Core Format Lib Lib.LittleEndian

section Links

def stateSaveBehavLinkNewData : UInt32 := 0x00000001
def stateSaveBehavLinkCurDelay : UInt32 := 0x00000002
def stateSaveBehavLinkIos : UInt32 := 0x00000004

structure CkbehaviorlinkState where
  activationDelay : Int16 := 1
  initialActivationDelay : Int16 := 1
  inIoId : UInt32 := 0
  outIoId : UInt32 := 0
  deriving DecidableEq

def loadLinkNewData : Run Chunk CkbehaviorlinkState := do
  let delays ← readDword
  let inIoId ← readObjectId
  let outIoId ← readObjectId
  pure {
    activationDelay := (delays &&& (0xFFFF : UInt32)).toUInt16.toInt16
    initialActivationDelay := (delays >>> (16 : UInt32) &&& (0xFFFF : UInt32)).toUInt16.toInt16
    inIoId, outIoId }

/-- Both sections of the older format may be missing. -/
def loadLinkLegacy : Run Chunk CkbehaviorlinkState := do
  let delayed ← found stateSaveBehavLinkCurDelay
  let delay ← (if delayed then readInt else pure 1)
  let joined ← found stateSaveBehavLinkIos
  let inIoId ← (if joined then readObjectId else pure 0)
  let outIoId ← (if joined then readObjectId else pure 0)
  pure { activationDelay := delay.toInt16, inIoId, outIoId }

def ckBehaviorLinkDeserialize : Run Chunk CkbehaviorlinkState := do
  let present ← found stateSaveBehavLinkNewData
  (if present then loadLinkNewData else loadLinkLegacy)

def packDelays (s : CkbehaviorlinkState) : UInt32 :=
  (s.activationDelay.toInt32.toUInt32 &&& (0xFFFF : UInt32)) ||| ((s.initialActivationDelay.toInt32.toUInt32 &&& (0xFFFF : UInt32)) <<< (16 : UInt32))

def ckBehaviorLinkSerialize (around : Surroundings) (s : CkbehaviorlinkState) : Run Chunk Unit := do
  chunkWriteIdentifier around stateSaveBehavLinkNewData
  chunkWriteDword around (packDelays s)
  chunkWriteObjectId around s.inIoId
  chunkWriteObjectId around s.outIoId

end Links

section Pins

def stateSaveBehavIoFlags : UInt32 := 0x00000001

structure CkbehaviorioState where
  oldFlags : UInt32 := 0
  deriving DecidableEq

def ckBehaviorIoDeserialize : Run Chunk CkbehaviorioState := do
  let present ← found stateSaveBehavIoFlags
  let oldFlags ← (if present then readDword else pure 0)
  pure { oldFlags }

def ckBehaviorIoSerialize (around : Surroundings) (s : CkbehaviorioState) : Run Chunk Unit := do
  chunkWriteIdentifier around stateSaveBehavIoFlags
  chunkWriteDword around s.oldFlags

end Pins

end Libnmo.Schema
