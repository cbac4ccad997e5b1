import Libnmo.Schema.ObjectStates

/-! The states of parameters, their inputs, outputs and locals, and of operations on them.
The mode of a parameter says which of its values is stored. The classes do not begin with
the section of a parent, and each but the parameter ignores errors within a section. -/
namespace Libnmo.Schema
open Core Format Lib

/-- A read within a section whose error nobody looks at. -/
def readOr {α : Type} (missing : α) (read : Run Chunk α) : Run Chunk α := do
  let value ← attempt read
  pure (value.getD missing)

section Parameter

def paramIdentifier : UInt32 := 0x00000040

def paramModeSubchunk : UInt32 := 0
def paramModeBuffer : UInt32 := 1
def paramModeObject : UInt32 := 2
def paramModeNone : UInt32 := 3
def paramModeManager : UInt32 := 4

/-- The bytes of the buffer and of the sub-chunk are none also where there is memory for a size of zero. -/
structure CkparameterState where
  typeGuid : Guid := ⟨0,0⟩
  mode : UInt32 := paramModeNone
  bufferData : List UInt8 := []
  objectId : UInt32 := 0
  managerGuid : Guid := ⟨0,0⟩
  managerValue : UInt32 := 0
  subchunkData : List UInt8 := []
  deriving DecidableEq

/-- A buffer that cannot be read is an empty one. -/
def loadBytes : Run Chunk (List UInt8) := do
  let (buffer,_) ← readOr (none,0) (onPosition chunkReadBuffer)
  pure (buffer.getD [])

/-- Where neither a manager int nor a second int is there, the value is one that nobody has set. -/
def loadManagerInt (around : Surroundings) : Run Chunk (Guid × UInt32) := do
  match ← attempt (onPosition fun data _ => chunkReadManagerInt data) with
  | some managerInt => pure managerInt
  | none =>
    let _ ← attempt readInt
    let value ← attempt readInt
    pure (⟨0,0⟩,(value.map Int32.toUInt32).getD (around.memory 0))

/-- Any other mode is that of a buffer. -/
def loadValue (around : Surroundings) (typeGuid : Guid) (mode : UInt32) : Run Chunk CkparameterState :=
  if mode = paramModeNone then pure { typeGuid, mode }
  else if mode = paramModeSubchunk then do
    let subchunkData ← loadBytes
    pure { typeGuid, mode, subchunkData }
  else if mode = paramModeObject then do
    let objectId ← readObjectId
    pure { typeGuid, mode, objectId }
  else if mode = paramModeManager then do
    let (managerGuid,managerValue) ← loadManagerInt around
    pure { typeGuid, mode, managerGuid, managerValue }
  else do
    let bufferData ← loadBytes
    pure { typeGuid, mode, bufferData }

def ckParameterDeserialize (around : Surroundings) : Run Chunk CkparameterState := do
  let present ← found paramIdentifier
  (if present then do
    let typeGuid ← readGuid
    let mode ← readDword
    loadValue around typeGuid mode
  else pure {})

def saveBytes (around : Surroundings) (bytes : List UInt8) : Run Chunk Unit :=
  if bytes.length > 0 then chunkWriteBuffer around (some bytes) bytes.length else pure ()

def saveValue (around : Surroundings) (s : CkparameterState) : Run Chunk Unit :=
  if s.mode = paramModeNone then pure ()
  else if s.mode = paramModeSubchunk then saveBytes around s.subchunkData
  else if s.mode = paramModeObject then chunkWriteObjectId around s.objectId
  else if s.mode = paramModeManager then chunkWriteManagerInt around s.managerGuid s.managerValue
  else saveBytes around s.bufferData

def ckParameterSerialize (around : Surroundings) (s : CkparameterState) : Run Chunk Unit := do
  chunkWriteIdentifier around paramIdentifier
  chunkWriteGuid around s.typeGuid
  chunkWriteDword around s.mode
  saveValue around s

end Parameter

section ParameterIn

def parameterInDataShared : UInt32 := 0x00000001
def parameterInDataSource : UInt32 := 0x00000002
def parameterInDisabled : UInt32 := 0x00000010

structure CkparameterinState where
  typeGuid : Guid := ⟨0,0⟩
  sourceId : UInt32 := 0
  isShared : UInt8 := 0
  isDisabled : UInt8 := 0
  deriving DecidableEq

def loadSource (isShared : UInt8) : Run Chunk CkparameterinState := do
  let typeGuid ← readOr ⟨0,0⟩ readGuid
  let sourceId ← readOr 0 readObjectId
  pure { typeGuid, sourceId, isShared }

def loadInput : Run Chunk CkparameterinState := do
  let shared ← found parameterInDataShared
  (if shared then loadSource 1
  else do
    let source ← found parameterInDataSource
    (if source then loadSource 0 else pure {}))

def ckParameterInDeserialize : Run Chunk CkparameterinState := do
  let s ← loadInput
  let disabled ← found parameterInDisabled
  pure { s with isDisabled := if disabled then 1 else 0 }

def ckParameterInSerialize (around : Surroundings) (s : CkparameterinState) : Run Chunk Unit := do
  chunkWriteIdentifier around (if s.isShared ≠ 0 then parameterInDataShared else parameterInDataSource)
  chunkWriteGuid around s.typeGuid
  chunkWriteObjectId around s.sourceId
  (if s.isDisabled ≠ 0 then chunkWriteIdentifier around parameterInDisabled else pure ())

end ParameterIn

section ParameterOut

def parameterOutDestinations : UInt32 := 0x00000004

/-- The array holds the entries that were set, which data that ends early leaves behind the count. -/
structure CkparameteroutState where
  destinationIds : List UInt32 := []
  destinationCount : UInt32 := 0
  deriving DecidableEq

def ckParameterOutDeserialize : Run Chunk CkparameteroutState := do
  let present ← found parameterOutDestinations
  (if present then do
    match ← attempt readInt with
    | none => pure {}
    | some count =>
      if count > 0 then do
        let destinationIds ← readWhile readObjectId count.toUInt32.toNat
        pure { destinationIds, destinationCount := count.toUInt32 }
      else pure {}
  else pure {})

def ckParameterOutSerialize (around : Surroundings) (s : CkparameteroutState) : Run Chunk Unit :=
  if s.destinationCount > 0 ∧ s.destinationIds ≠ [] then do
    chunkWriteIdentifier around parameterOutDestinations
    chunkWriteInt around s.destinationCount.toInt32
    writeFirst (chunkWriteObjectId around) s.destinationIds s.destinationCount.toNat
  else pure ()

end ParameterOut

section ParameterLocal

def parameterOutMyself : UInt32 := 0x00000008
def parameterOutIsSetting : UInt32 := 0x00000020

structure CkparameterlocalState where
  isMyself : UInt8 := 0
  isSetting : UInt8 := 0
  deriving DecidableEq

def ckParameterLocalDeserialize : Run Chunk CkparameterlocalState := do
  let myself ← found parameterOutMyself
  let setting ← found parameterOutIsSetting
  pure { isMyself := if myself then 1 else 0, isSetting := if setting then 1 else 0 }

def ckParameterLocalSerialize (around : Surroundings) (s : CkparameterlocalState) : Run Chunk Unit := do
  (if s.isMyself ≠ 0 then chunkWriteIdentifier around parameterOutMyself else pure ())
  (if s.isSetting ≠ 0 then chunkWriteIdentifier around parameterOutIsSetting else pure ())

end ParameterLocal

section ParameterOperation

def operationNewData : UInt32 := 0x00001000
def operationOp : UInt32 := 0x00000001
def operationDefaultData : UInt32 := 0x00000002
def operationInputs : UInt32 := 0x00000004
def operationOutput : UInt32 := 0x00000008

structure CkparameteroperationState where
  operationGuid : Guid := ⟨0,0⟩
  input1Id : UInt32 := 0
  input2Id : UInt32 := 0
  outputId : UInt32 := 0
  ownerId : UInt32 := 0
  deriving DecidableEq

def loadOperation : Run Chunk CkparameteroperationState := do
  let operationGuid ← readOr ⟨0,0⟩ readGuid
  let seqCount ← readOr 0 (onPosition fun data _ => chunkReadObjectSequenceStart data)
  (if seqCount ≥ 3 then do
    let input1Id ← readOr 0 readObjectId
    let input2Id ← readOr 0 readObjectId
    let outputId ← readOr 0 readObjectId
    pure { operationGuid, input1Id, input2Id, outputId }
  else pure { operationGuid })

/-- A section of the old format. -/
def readSection {α : Type} (identifier : UInt32) (missing : α) (read : Run Chunk α) : Run Chunk α := do
  let present ← found identifier
  (if present then read else pure missing)

def loadOldOperation : Run Chunk CkparameteroperationState := do
  let operationGuid ← readSection operationOp ⟨0,0⟩ (readOr ⟨0,0⟩ readGuid)
  let ownerId ← readSection operationDefaultData 0 (readOr 0 readObjectId)
  let outputId ← readSection operationOutput 0 (readOr 0 readObjectId)
  let (input1Id,input2Id) ← readSection operationInputs (0,0) (do
    let input1Id ← readOr 0 readObjectId
    let input2Id ← readOr 0 readObjectId
    pure (input1Id,input2Id))
  pure { operationGuid, input1Id, input2Id, outputId, ownerId }

def ckParameterOperationDeserialize : Run Chunk CkparameteroperationState := do
  let present ← found operationNewData
  (if present then loadOperation else loadOldOperation)

def ckParameterOperationSerialize (around : Surroundings) (s : CkparameteroperationState) : Run Chunk Unit := do
  chunkWriteIdentifier around operationNewData
  chunkWriteGuid around s.operationGuid
  chunkWriteDword around 3
  chunkWriteObjectId around s.input1Id
  chunkWriteObjectId around s.input2Id
  chunkWriteObjectId around s.outputId

end ParameterOperation

end Libnmo.Schema
