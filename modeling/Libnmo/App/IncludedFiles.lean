import Libnmo.App.Reload
import Libnmo.App.SavedIds
import Libnmo.Format.Header1Recovered

/-! The included files of a session, the area after the data section that holds them in
a file, and the load of that area. An entry without payload keeps its size, which the
area states as well. -/
namespace Libnmo.App
open Core Format Lib Lib.LittleEndian Lib.Cursor

variable {State : Type}

def includedFileAttrBorrowed : UInt32 := 0x01
def includedFileAttrMetadataOnly : UInt32 := 0x02

/-- The payload, where there is one, has the size of the entry, and no payload is empty. A name is a C string. -/
structure IncludedFile where
  name : List UInt8
  data : Option (List UInt8)
  size : UInt32
  ownerIds : List UInt32 := []
  attributes : UInt32 := 0
  terminated : 0 ∉ name
  whole : ∀ payload, data = some payload → payload.length = size.toNat ∧ 0 < size.toNat

structure IncludedFileMetadata where
  ownerIds : List UInt32 := []
  attributes : UInt32 := 0

/-- The name, and the `size` bytes at the data pointer when that is not null. -/
structure IncludedSource where
  name : List UInt8
  data : Option (List UInt8)
  size : UInt32
  whole : ∀ payload, data = some payload → payload.length = size.toNat

theorem cString_terminated (name : List UInt8) : 0 ∉ cString name := by
  intro member
  have other := List.mem_takeWhile_imp member
  simp at other

section
variable (source : IncludedSource) (copyPayload : Bool) (info : Option IncludedFileMetadata)

def metadataAttributes : UInt32 := (info.map IncludedFileMetadata.attributes).getD 0

def metadataOnly : Bool := hasFlag (metadataAttributes info) includedFileAttrMetadataOnly

/-- The entry that is stored. Its payload is the bytes at the pointer, copied or borrowed. -/
def includedEntry : IncludedFile where
  name := cString source.name
  data := if source.size > 0 ∧ metadataOnly info = false then source.data else none
  size := source.size
  ownerIds := (info.map IncludedFileMetadata.ownerIds).getD []
  attributes := (if copyPayload then 0 else includedFileAttrBorrowed) ||| metadataAttributes info
  terminated := cString_terminated source.name
  whole := by
    intro payload found
    split at found
    · rename_i present
      exact ⟨source.whole payload found,UInt32.lt_iff_toNat_lt.mp present.1⟩
    · cases found

def sessionStoreIncludedFile : Run (List IncludedFile) Unit :=
  if source.size > 0 ∧ source.data = none ∧ metadataOnly info = false then fail .invalidArgument ""
  else Action.update fun files => files ++ [includedEntry source copyPayload info]

end

/-- What phase 15 writes of an entry. -/
def includedFileArea (file : IncludedFile) : List UInt8 :=
  wordBytes (nameLen file.name) ++ (nameBytes file.name ++ (wordBytes file.size ++
    (if file.size > 0 then file.data.getD [] else [])))

def IncludedFile.desc (file : IncludedFile) : IncludedFileDesc where
  name := file.name
  dataSize := file.size

/-- A session with its included files and as many of them and of plugin dependencies as 32-bit counts allow. -/
structure FilesSession (State : Type) where
  session : SaveSession State
  files : List IncludedFile
  described : session.includedFiles = files.map IncludedFile.desc
  few : files.length < 2 ^ 32
  fewDeps : session.pluginDeps.length < 2 ^ 32

/-- The file, with the area of the included files after its sections. -/
def saveFileWithIncluded (ctx : SaveContext State) (session : FilesSession State) (flags : UInt32) :
    Result (SavedFile × List UInt8) := do
  let file ← saveFile ctx session.session flags
  .ok (file,if hasFlag flags saveStripIncludedFiles then [] else session.files.flatMap includedFileArea)

/-- The entries so far, and the position after the reads that found all their bytes. -/
structure IncludedLoad where
  pos : Nat := 0
  files : List IncludedFile := []

section
variable (area : List UInt8)

/-- `nmo_io_read` of `size` bytes, taken for an error where there are fewer. -/
def ioReadBytes (size : Nat) : Run IncludedLoad (List UInt8) where
  run s :=
    let bytes := slice area s.pos size
    if bytes.length = size then (.ok bytes,{ s with pos := s.pos + size })
    else (.error (.error .eof ""),s)

def ioReadU32 : Run IncludedLoad UInt32 where
  run s := match slice area s.pos 4 with
    | [a,b,c,d] => (.ok (bytesWord a b c d),{ s with pos := s.pos + 4 })
    | _ => (.error (.error .eof ""),s)

def addIncluded (action : Run (List IncludedFile) Unit) : Run IncludedLoad Unit where
  run s :=
    let out := action.run s.files
    (out.1,{ s with files := out.2 })

theorem slice_payload {size : UInt32} {bytes payload : List UInt8} (length : bytes.length = size.toNat)
    (found : some bytes = some payload) : payload.length = size.toNat := by
  rw [← Option.some.inj found,length]

/-- The rest of an entry, after the length of its name. The room for the name is computed in 32 bits. -/
def loadIncludedEntry (nameLen : UInt32) : Run IncludedLoad Unit := do
  (if nameLen + 1 = 0 then fail .nomem "" else pure ())
  let name ← ioReadBytes area nameLen.toNat
  let dataSize ← ioReadU32 area
  (if dataSize > 0 then do
    let payload ← ioReadBytes area dataSize.toNat
    (if length : payload.length = dataSize.toNat then
      addIncluded (sessionStoreIncludedFile ⟨name,some payload,dataSize,fun _ => slice_payload length⟩ false none)
    else fail .eof "")
  else addIncluded (sessionStoreIncludedFile ⟨name,none,dataSize,fun _ absent => by cases absent⟩ false none))

/-- Entry after entry, until no length is left to read. -/
def loadIncludedEntries : Nat → Run IncludedLoad Unit
  | 0 => Action.stop .endless
  | fuel + 1 => {
    run := fun s => match (ioReadU32 area).run s with
      | (.ok nameLen,s') => (loadIncludedEntry area nameLen >>= fun _ => loadIncludedEntries fuel).run s'
      | (.error _,s') => (.ok (),s') }

/-- The descriptors of Header1 beyond the entries that were loaded. -/
def registerIncludedMetadata : List IncludedFileDesc → Run IncludedLoad Unit
  | [] => pure ()
  | desc :: rest => do
    addIncluded (sessionStoreIncludedFile ⟨desc.name,none,desc.dataSize,fun _ absent => by cases absent⟩ false
      (some { attributes := includedFileAttrMetadataOnly }))
    registerIncludedMetadata rest

/-- The load of the area into a session without entries. Each entry takes eight bytes at least. -/
def loadIncludedFiles (hdr1 : Header1) : Run IncludedLoad Unit := do
  loadIncludedEntries area (area.length + 1)
  let parsed ← Action.read fun s => s.files.length
  registerIncludedMetadata ((hdr1.includedFiles.take hdr1.includedFileCount.toNat).drop parsed)

end

/-- The included files that a load makes of a file. A data section of size zero is skipped, and the included files
with it; the outcome of their load is only logged. -/
def reloadIncluded (file : SavedFile) (area : List UInt8) : Result IncludedLoad := do
  let header1 ← header1Parse file.hdr1Bytes file.header.objectCount
  if file.header.dataPackSize = 0 ∨ file.header.dataUnpackSize = 0 then .ok {}
  else .ok ((loadIncludedFiles area header1).run {}).2

end Libnmo.App
