import Libnmo.Schema.ObjectStates

/-! The states of the managers of attributes and messages, and their chunks. Both are one
section: counts, and one entry behind the other. A name is read whatever the read of it
reports, and a missing one is written as an empty one. -/
namespace Libnmo.Schema
open Core Format Lib

/-- The characters before the terminator. -/
def readText (data spare : List UInt32) : Run Nat (Option (List UInt8)) := do
  let (str,_) ← chunkReadString data spare
  pure (str.map fun bytes => bytes.takeWhile (· ≠ 0))

def writeText (around : Surroundings) (name : Option (List UInt8)) : Run Chunk Unit :=
  chunkWriteString around (some (name.getD []))

section AttributeManager

def stateSaveAttributeManager : UInt32 := 0x52

structure CkattributeCategory where
  name : Option (List UInt8) := none
  flags : UInt32 := 0
  present : Bool := false
  deriving DecidableEq

structure CkattributeDescriptor where
  name : Option (List UInt8) := none
  parameterTypeGuid : Guid := ⟨0,0⟩
  categoryIndex : Int32 := 0
  compatibleClassId : Int32 := 0
  flags : UInt32 := 0
  present : Bool := false
  deriving DecidableEq

structure CkattributemanagerState where
  categories : List CkattributeCategory := []
  attributes : List CkattributeDescriptor := []
  deriving DecidableEq

section Entries
variable (data spare : List UInt32)

def readCategory : Run Nat CkattributeCategory := do
  let present ← chunkReadInt data
  (if present ≠ 0 then do
    let name ← readText data spare
    let flags ← chunkReadDword data
    pure { name, flags, present := true }
  else pure {})

def readDescriptor : Run Nat CkattributeDescriptor := do
  let present ← chunkReadInt data
  (if present ≠ 0 then do
    let name ← readText data spare
    let parameterTypeGuid ← chunkReadGuid data
    let categoryIndex ← chunkReadInt data
    let compatibleClassId ← chunkReadInt data
    let flags ← chunkReadDword data
    pure { name, parameterTypeGuid, categoryIndex, compatibleClassId, flags, present := true }
  else pure {})

def readAttributeManager : Run Nat CkattributemanagerState := do
  let categoryCount ← chunkReadInt data
  let attributeCount ← chunkReadInt data
  (if categoryCount < 0 ∨ categoryCount > 10000 then fail .validationFailed "Invalid category count"
  else if attributeCount < 0 ∨ attributeCount > 100000 then fail .validationFailed "Invalid attribute count"
  else do
    let categories ← (readCategory data spare).times categoryCount.toUInt32.toNat
    let attributes ← (readDescriptor data spare).times attributeCount.toUInt32.toNat
    pure { categories, attributes })

end Entries

/-- Without the identifier there is nothing to load. -/
def ckAttributeManagerDeserialize : Run Chunk CkattributemanagerState := do
  let present ← found stateSaveAttributeManager
  (if present then onPosition readAttributeManager else pure {})

def saveCategory (around : Surroundings) (category : CkattributeCategory) : Run Chunk Unit := do
  chunkWriteInt around (if category.present then 1 else 0)
  (if category.present then do
    writeText around category.name
    chunkWriteDword around category.flags
  else pure ())

def saveDescriptor (around : Surroundings) (descriptor : CkattributeDescriptor) : Run Chunk Unit := do
  chunkWriteInt around (if descriptor.present then 1 else 0)
  (if descriptor.present then do
    writeText around descriptor.name
    chunkWriteGuid around descriptor.parameterTypeGuid
    chunkWriteInt around descriptor.categoryIndex
    chunkWriteInt around descriptor.compatibleClassId
    chunkWriteDword around descriptor.flags
  else pure ())

def ckAttributeManagerSerialize (around : Surroundings) (s : CkattributemanagerState) : Run Chunk Unit := do
  chunkWriteIdentifier around stateSaveAttributeManager
  chunkWriteInt around (UInt32.ofNat s.categories.length).toInt32
  chunkWriteInt around (UInt32.ofNat s.attributes.length).toInt32
  writeEach (saveCategory around) s.categories
  writeEach (saveDescriptor around) s.attributes

end AttributeManager

section MessageManager

def stateSaveMessageManager : UInt32 := 0x53

structure CkmessagemanagerState where
  messageTypeNames : List (Option (List UInt8)) := []
  deriving DecidableEq

def readMessageTypes (data spare : List UInt32) : Run Nat CkmessagemanagerState := do
  let typeCount ← chunkReadInt data
  (if typeCount ≤ 0 then pure {}
  else if typeCount > 10000 then fail .validationFailed "Invalid message type count"
  else do
    let messageTypeNames ← (readText data spare).times typeCount.toUInt32.toNat
    pure { messageTypeNames })

def ckMessageManagerDeserialize : Run Chunk CkmessagemanagerState := do
  let present ← found stateSaveMessageManager
  (if present then onPosition readMessageTypes else pure {})

def ckMessageManagerSerialize (around : Surroundings) (s : CkmessagemanagerState) : Run Chunk Unit :=
  if s.messageTypeNames.length = 0 then pure ()
  else do
    chunkWriteIdentifier around stateSaveMessageManager
    chunkWriteInt around (UInt32.ofNat s.messageTypeNames.length).toInt32
    writeEach (writeText around) s.messageTypeNames

end MessageManager

end Libnmo.Schema
