import Libnmo.Format.ChunkPacking
import Libnmo.Format.FileHeader
import Libnmo.Format.Header1
import Libnmo.Schema.SchemaRegistry
import Libnmo.Session.ObjectRepository

/-! The save pipeline, from the objects and manager data of the session to the file
header, Header1 and the data section. The deflate library is a parameter, and so is
the checksum, which takes in memory past the header. -/
namespace Libnmo.App
open Core Format Schema Session

variable {State : Type}

structure FileInfo where
  fileVersion : UInt32 := 0
  fileVersion2 : UInt32 := 0
  ckVersion : UInt32 := 0
  writeMode : UInt32 := 0
  productVersion : UInt32 := 0
  productBuild : UInt32 := 0

/-- The repository keeps its objects under distinct IDs that are not zero, so it has fewer than 2^32; the
number of manager records is a 32-bit field. -/
structure SaveSession (State : Type) where
  objects : List (Object State)
  managerData : List ManagerData := []
  fileInfo : FileInfo := {}
  pluginDeps : List PluginDep := []
  includedFiles : List IncludedFileDesc := []
  distinct : (objects.map Object.id).Nodup
  nonzero : 0 ∉ objects.map Object.id
  managersFit : managerData.length < 2 ^ 32

structure SaveContext (State : Type) where
  managerRegistry : Option (List (Manager State)) := none
  schemaRegistry : Option (SchemaRegistry State) := none
  around : Surroundings := {}
  miniz : Miniz
  crc : UInt32 := 0

def saveAsObjects : UInt32 := 0x0001
def saveCompressed : UInt32 := 0x0002
def saveStripIncludedFiles : UInt32 := 0x0020

/-- `MZ_DEFAULT_COMPRESSION`. -/
def saveCompressionLevel : Int := -1

def shouldSaveObjectAsReference (obj : Object State) (flags : UInt32) : Bool :=
  hasFlag flags saveAsObjects || hasFlag obj.saveFlags objectReferenceFlag || hasFlag obj.flags objectReferenceFlag

/-- Phase 2, in the order of the registry. -/
def invokePreSave : List (Manager State) → List (Object State) → List (Object State)
  | [],objects => objects
  | manager :: rest,objects => match manager.preSave with
    | none => invokePreSave rest objects
    | some hook => invokePreSave rest (objects.map (hook objects))

def rawSize (chunk : Option Chunk) : UInt32 := UInt32.ofNat ((chunk.bind Chunk.rawData).getD []).length

/-- The records that the save hooks produce, and what the hooks make of the objects. -/
def generateManagers : List (Manager State) → List (Object State) → List ManagerData × List (Object State)
  | [],objects => ([],objects)
  | manager :: rest,objects => match manager.saveData with
    | none => generateManagers rest objects
    | some hook =>
      let out := hook objects
      let others := generateManagers rest (objects.map out.2)
      match out.1 with
      | none => others
      | some chunk =>
        let entry : ManagerData := {
          guid := manager.guid, dataSize := rawSize (some chunk), chunk := some chunk
          flags := managerDataFlagDispatched }
        (entry :: others.1,others.2)

/-- The records of the session that no manager has consumed. -/
def preservedManagers (records : List ManagerData) : List ManagerData :=
  records.filter fun record => ¬ hasFlag record.flags managerDataFlagDispatched

/-- `nmo_serialize_object_with_schema`; none is a null pointer. -/
def serializeObjectWithSchema (around : Surroundings) (registry : SchemaRegistry State) (obj : Object State) :
    Result (Option Chunk) :=
  let fresh := { chunkCreate with classId := obj.classId, chunkVersion := 7 }
  if obj.chunk.isSome ∧ obj.data.isNone then .ok obj.chunk
  else match registry.findByClassIdInherited obj.classId with
    | none => .ok obj.chunk
    | some type => match type.vtable.bind SchemaVtable.write with
      | none => .ok obj.chunk
      | some write => match obj.data with
        | none => match (chunkStartWrite around >>= fun _ => chunkClose).run fresh with
          | (.ok (),chunk) => .ok (some chunk)
          | (.error stop,_) => .error stop
        | some state => match (chunkStartWrite around >>= fun _ => write state).run fresh with
          | (.error (.error _ _),_) => .ok obj.chunk
          | (.error stop,_) => .error stop
          | (.ok (),chunk) => match chunkClose.run chunk with
            | (.ok (),chunk) => .ok (some chunk)
            | (.error stop,_) => .error stop

/-- Phase 5 over the objects, each with its entry in the reference map. -/
def serializeObjects (around : Surroundings) (registry : SchemaRegistry State) :
    List (Bool × Object State) → Result (List (Bool × Object State))
  | [] => .ok []
  | (true,obj) :: rest => do
    let others ← serializeObjects around registry rest
    .ok ((true,obj) :: others)
  | (false,obj) :: rest => do
    match ← serializeObjectWithSchema around registry obj with
    | none => .error (.error .invalidArgument "")
    | some chunk =>
      let others ← serializeObjects around registry rest
      .ok ((false,{ obj with chunk := some chunk }) :: others)

def objectRecord (entry : Bool × Object State) : ObjectData :=
  if entry.1 then {} else { chunk := entry.2.chunk, dataSize := rawSize entry.2.chunk }

/-- Phase 7, from an index on. -/
def objectDescriptors (remapTable : IdRemap) : Nat → List (Bool × Object State) → Result (List ObjectDesc)
  | _,[] => .ok []
  | index,(reference,obj) :: rest => do
    let fileId ← idRemapLookupId remapTable obj.id
    let others ← objectDescriptors remapTable (index + 1) rest
    .ok ({
      fileId := fileId
      classId := obj.classId
      name := obj.name
      fileIndex := UInt32.ofNat index
      flags := if reference then obj.flags ||| objectReferenceFlag else obj.flags } :: others)

/-- The section as it is stored, and whether its compression flag stays set. -/
def packSection (miniz : Miniz) (compress : Bool) (bytes : List UInt8) : Result (Bool × List UInt8) :=
  if compress ∧ 0 < bytes.length then match miniz.compress2 saveCompressionLevel bytes with
    | none => .error (.error .internal "")
    | some packed => if packed.length < bytes.length then .ok (true,packed) else .ok (false,bytes)
  else .ok (compress,bytes)

/-- `write_mode` with the compression flags of the two sections in place of its own. -/
def savedWriteMode (info : FileInfo) (header data : Bool) : UInt32 :=
  info.writeMode &&& ~~~(writeCompressHeader ||| writeCompressData) |||
    ((if header then writeCompressHeader else 0) ||| (if data then writeCompressData else 0))

structure SavedFile where
  header : FileHeader
  header1 : Header1
  hdr1Bytes : List UInt8
  hdr1Packed : List UInt8
  dataSect : DataSection
  dataBytes : List UInt8
  dataPacked : List UInt8

/-- Phases 6 to 11, for the records and objects that are to be written. -/
def writeSections (ctx : SaveContext State) (session : SaveSession State) (flags : UInt32) (remapTable : IdRemap)
    (dataSect : DataSection) (entries : List (Bool × Object State)) : Result SavedFile := do
  let info := session.fileInfo
  let compressed := hasFlag flags saveCompressed
  let dataUnpackSize := dataSectionCalculateSize dataSect 8
  let dataBytes ← dataSectionSerialize dataSect 8 dataUnpackSize
  let data ← packSection ctx.miniz (compressed || hasFlag info.writeMode writeCompressData) dataBytes
  let descs ← objectDescriptors remapTable 0 entries
  let files := if hasFlag flags saveStripIncludedFiles then [] else session.includedFiles
  let header1 : Header1 := {
    objectCount := dataSect.objectCount
    objects := descs
    pluginDepCount := count32 session.pluginDeps
    pluginDeps := session.pluginDeps
    includedFileCount := count32 files
    includedFiles := files }
  let hdr1Bytes ← header1Serialize header1
  let hdr1 ← packSection ctx.miniz (compressed || hasFlag info.writeMode writeCompressHeader) hdr1Bytes
  .ok {
    header := {
      crc := ctx.crc
      fileVersion := if info.fileVersion ≠ 0 then info.fileVersion else 8
      fileVersion2 := info.fileVersion2
      ckVersion := if info.ckVersion ≠ 0 then info.ckVersion else 0x13022002
      productVersion := info.productVersion
      productBuild := info.productBuild
      objectCount := dataSect.objectCount
      managerCount := count32 session.managerData
      hdr1PackSize := UInt32.ofNat hdr1.2.length
      hdr1UnpackSize := UInt32.ofNat hdr1Bytes.length
      dataPackSize := UInt32.ofNat data.2.length
      dataUnpackSize := UInt32.ofNat dataUnpackSize
      maxIdSaved := (descs.map ObjectDesc.fileId).foldl max 0
      fileWriteMode := savedWriteMode info hdr1.1 data.1 }
    header1 := header1
    hdr1Bytes := hdr1Bytes
    hdr1Packed := hdr1.2
    dataSect := dataSect
    dataBytes := dataBytes
    dataPacked := data.2 }

section
variable (ctx : SaveContext State) (session : SaveSession State) (flags : UInt32)

def SaveContext.managers : List (Manager State) := ctx.managerRegistry.getD []

/-- The reference map of phase 1. -/
def SaveSession.referenceMap : List Bool := session.objects.map fun obj => shouldSaveObjectAsReference obj flags

/-- The objects after phase 2. -/
def preparedObjects : List (Object State) := invokePreSave ctx.managers session.objects

/-- The records of phase 4, generated and preserved, and the objects after the hooks. -/
def saveManagers : List ManagerData × List (Object State) :=
  let generated := generateManagers ctx.managers (preparedObjects ctx session)
  (generated.1 ++ preservedManagers session.managerData,generated.2)

/-- The array of manager entries has room for as many as are registered and in the session. -/
def managerCapacity : UInt32 := count32 ctx.managers + count32 session.managerData

/-- The objects of phase 5, each with its entry in the reference map. -/
def objectsToSave : List (Bool × Object State) := (session.referenceMap flags).zip (saveManagers ctx session).2

/-- `nmo_save_file` up to the write of the file. The session is never without room for its objects: their
number fits 32 bits. -/
def saveFile : Result SavedFile :=
  if session.objects.length = 0 then .error (.error .invalidArgument "")
  else match idRemapPlanCreate (preparedObjects ctx session) with
    | none => .error (.error .nomem "")
    | some remapTable =>
      if fit : (saveManagers ctx session).1.length ≤ (managerCapacity ctx session).toNat then
        match ctx.schemaRegistry with
        | none => .error (.error .invalidState "")
        | some schemas => match serializeObjects ctx.around schemas (objectsToSave ctx session flags) with
          | .error stop => .error stop
          | .ok entries =>
            if few : entries.length < 2 ^ 32 then
              let dataSect : DataSection := {
                managers := (saveManagers ctx session).1
                objects := entries.map objectRecord
                managersFit := Nat.lt_of_le_of_lt fit (UInt32.toNat_lt _)
                objectsFit := by rwa [List.length_map] }
              writeSections ctx session flags remapTable dataSect entries
            else .error (.error .nomem "")
      else .error (.error .nomem "")

end

end Libnmo.App
