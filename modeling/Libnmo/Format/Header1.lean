import Libnmo.Format.DataSection

/-! Header1: the object descriptors, the plugin dependencies and the descriptors of
included files. The number of objects comes from the file header. A descriptor marks
a reference-only object by bit 23 of the ID it stores. -/
namespace Libnmo.Format
open Core Lib Lib.LittleEndian Lib.Cursor

/-- `NMO_OBJECT_REFERENCE_FLAG`, which is `1u << 23`. -/
def objectReferenceFlag : UInt32 := 0x800000

structure ObjectDesc where
  fileId : UInt32
  classId : UInt32
  fileIndex : UInt32
  name : List UInt8
  flags : UInt32
  deriving DecidableEq, Repr

structure PluginDep where
  guid : Guid
  category : UInt32
  version : UInt32 := 0
  deriving DecidableEq, Repr

structure IncludedFileDesc where
  name : List UInt8
  dataSize : UInt32
  deriving DecidableEq, Repr

structure Header1 where
  objectCount : UInt32 := 0
  objects : List ObjectDesc := []
  pluginDepCount : UInt32 := 0
  pluginDeps : List PluginDep := []
  includedFileCount : UInt32 := 0
  includedFiles : List IncludedFileDesc := []
  deriving DecidableEq, Repr

section Parsing
variable (buffer : List UInt8)

/-- `CHECK_BUFFER_SIZE` of this file. -/
def checkHeader1Size (needed : Nat) : Run Nat Unit where
  run pos :=
    if pos ≤ buffer.length ∧ needed ≤ buffer.length - pos then (.ok (),pos)
    else (.error (.error .bufferOverrun "Buffer overrun while reading Header1"),pos)

/-- A field of four bytes, checked and read. -/
def header1Field : Run Nat UInt32 := do
  checkHeader1Size buffer 4
  nextU32Le buffer

/-- `memcpy` of the next bytes and the advance over them, behind a check. -/
def nextBytes (count : Nat) : Run Nat (List UInt8) where
  run pos := (.ok (slice buffer pos count),pos + count)

/-- The room for the name and its terminator is computed in 32 bits. -/
def parseName : Run Nat (List UInt8) := do
  let nameLen ← header1Field buffer
  (if nameLen + 1 = 0 then fail .nomem "Failed to allocate object name" else pure ())
  (if nameLen > 0 then do
    checkHeader1Size buffer nameLen.toNat
    nextBytes buffer nameLen.toNat
  else pure [])

def parseObject : Run Nat ObjectDesc := do
  let fileId ← header1Field buffer
  let classId ← header1Field buffer
  let fileIndex ← header1Field buffer
  let name ← parseName buffer
  pure {
    fileId := fileId &&& ~~~objectReferenceFlag
    classId := classId
    fileIndex := fileIndex
    name := name
    flags := if hasFlag fileId objectReferenceFlag then objectReferenceFlag else 0 }

def parseObjects (objectCount : UInt32) : Run Nat (List ObjectDesc) :=
  if objectCount = 0 then pure [] else (parseObject buffer).times objectCount.toNat

def skipBytes (count : Nat) : Run Nat Unit := Action.update (· + count)

/-- The first pass over the categories: only the number of plugins. Sizes and sums are 32-bit. -/
def countPlugins : Nat → UInt32 → Run Nat UInt32
  | 0,totalPlugins => pure totalPlugins
  | count + 1,totalPlugins => do
    checkHeader1Size buffer 4
    skipBytes 4
    let guidCount ← header1Field buffer
    checkHeader1Size buffer (guidCount * 8).toNat
    skipBytes (guidCount * 8).toNat
    countPlugins count (totalPlugins + guidCount)

/-- The GUIDs of a category, each stored at the next index of the array of dependencies. -/
def readGuids (category totalPlugins : UInt32) : Nat → List PluginDep → Run Nat (List PluginDep)
  | 0,deps => pure deps
  | count + 1,deps => do
    checkHeader1Size buffer 8
    (if deps.length < totalPlugins.toNat then pure () else Action.stop (.overwrite deps.length))
    let d1 ← nextU32Le buffer
    let d2 ← nextU32Le buffer
    readGuids category totalPlugins count (deps ++ [{ guid := ⟨d1,d2⟩, category := category }])

def readCategories (totalPlugins : UInt32) : Nat → List PluginDep → Run Nat (List PluginDep)
  | 0,deps => pure deps
  | count + 1,deps => do
    let category ← header1Field buffer
    let guidCount ← header1Field buffer
    let deps ← readGuids buffer category totalPlugins guidCount.toNat deps
    readCategories totalPlugins count deps

/-- The position is back at the first category before the second pass, and stays there without plugins. -/
def parsePluginDeps : Run Nat (UInt32 × List PluginDep) := do
  let categoryCount ← header1Field buffer
  (if categoryCount = 0 then pure (0,[])
  else do
    let savedPos ← Action.read id
    let totalPlugins ← countPlugins buffer categoryCount.toNat 0
    Action.update fun _ => savedPos
    (if totalPlugins = 0 then pure (0,[])
    else do
      let deps ← readCategories buffer totalPlugins categoryCount.toNat []
      pure (totalPlugins,deps)))

/-- A check against the end of the table of included files. -/
def checkTable (tableEnd needed : Nat) (message : String) : Run Nat Unit where
  run pos := if pos + needed > tableEnd then (.error (.error .bufferOverrun message),pos) else (.ok (),pos)

def parseIncludedFile (tableEnd : Nat) : Run Nat IncludedFileDesc := do
  checkTable tableEnd 4 "Buffer too small for included name length"
  let nameLen ← nextU32Le buffer
  let name ← (if nameLen > 0 then do
    checkTable tableEnd nameLen.toNat "Buffer too small for included filename"
    (if nameLen + 1 = 0 then fail .nomem "Failed to allocate included filename" else pure ())
    nextBytes buffer nameLen.toNat
  else pure [])
  checkTable tableEnd 4 "Buffer too small for included size"
  let dataSize ← nextU32Le buffer
  pure { name := name, dataSize := dataSize }

/-- The included files, when there is room for their count and the size of their table. -/
def parseIncludedFiles : Run Nat (UInt32 × List IncludedFileDesc) := do
  let pos ← Action.read id
  (if pos + 8 ≤ buffer.length then do
    let includedCount ← nextU32Le buffer
    let includedTableSize ← nextU32Le buffer
    let start ← Action.read id
    let tableEnd := start + includedTableSize.toNat
    (if includedTableSize > 0 ∧ tableEnd > buffer.length then
      fail .bufferOverrun "Buffer too small for included file table" else pure ())
    let files ← (if includedCount = 0 ∨ includedTableSize = 0 then pure []
      else (parseIncludedFile buffer tableEnd).times includedCount.toNat)
    Action.update fun _ => tableEnd
    pure (includedCount,files)
  else pure (0,[]))

def header1Fields (objectCount : UInt32) : Run Nat Header1 := do
  let objects ← parseObjects buffer objectCount
  let pos ← Action.read id
  let plugins ← (if pos < buffer.length then parsePluginDeps buffer else pure (0,[]))
  let included ← parseIncludedFiles buffer
  pure {
    objectCount := objectCount
    objects := objects
    pluginDepCount := plugins.1
    pluginDeps := plugins.2
    includedFileCount := included.1
    includedFiles := included.2 }

/-- `nmo_header1_parse`, for the object count that the caller set. -/
def header1Parse (objectCount : UInt32) : Result Header1 := ((header1Fields buffer objectCount).run 0).1

end Parsing

end Libnmo.Format

/-! The serializer of Header1: object descriptors, plugin dependencies grouped by the
five standard categories, and the descriptors of included files. A name is written
up to its terminator, without it. -/
namespace Libnmo.Format
open Core Lib Lib.LittleEndian

/-- `strlen` in 32 bits. -/
def nameLen (name : List UInt8) : UInt32 := UInt32.ofNat (name.takeWhile (· ≠ 0)).length

/-- The entries that a loop up to the count reads. -/
def tableEntries {α : Type} (count : UInt32) (table : List α) : Result (List α) :=
  if table.length < count.toNat then .error (.overread table.length) else .ok (table.take count.toNat)

def putName (bufferSize : Nat) (name : List UInt8) (message : String) : Run (List UInt8) Unit :=
  if nameLen name > 0 then put bufferSize (name.take (nameLen name).toNat) message else pure ()

/-- The ID as it is stored, with bit 23 for a reference. -/
def storedFileId (obj : ObjectDesc) : UInt32 :=
  if hasFlag obj.flags objectReferenceFlag then obj.fileId ||| objectReferenceFlag else obj.fileId

def serializeObject (bufferSize : Nat) (obj : ObjectDesc) : Run (List UInt8) Unit := do
  put bufferSize (wordBytes (storedFileId obj)) "Buffer too small for file ID"
  put bufferSize (wordBytes obj.classId) "Buffer too small for class ID"
  put bufferSize (wordBytes obj.fileIndex) "Buffer too small for file index"
  put bufferSize (wordBytes (nameLen obj.name)) "Buffer too small for name length"
  putName bufferSize obj.name "Buffer too small for name string"

def pluginCategories : List UInt32 := [0,1,2,3,4]

def inCategory (deps : List PluginDep) (category : UInt32) : List PluginDep :=
  deps.filter fun dep => dep.category = category

def serializeGuid (bufferSize : Nat) (dep : PluginDep) : Run (List UInt8) Unit :=
  put bufferSize (wordBytes dep.guid.d1 ++ wordBytes dep.guid.d2) "Buffer too small for GUID"

def serializeCategory (bufferSize : Nat) (deps : List PluginDep) (category : UInt32) : Run (List UInt8) Unit :=
  if count32 (inCategory deps category) = 0 then pure ()
  else do
    put bufferSize (wordBytes category) "Buffer too small for category type"
    put bufferSize (wordBytes (count32 (inCategory deps category))) "Buffer too small for GUID count"
    putEach (serializeGuid bufferSize) (inCategory deps category)

/-- Without dependencies the category count is zero as well. -/
def serializePluginDeps (bufferSize : Nat) (deps : List PluginDep) : Run (List UInt8) Unit := do
  let categories := pluginCategories.filter fun category => count32 (inCategory deps category) > 0
  put bufferSize (wordBytes (count32 categories)) "Buffer too small for category count"
  putEach (serializeCategory bufferSize deps) pluginCategories

def serializeIncludedFile (bufferSize : Nat) (file : IncludedFileDesc) : Run (List UInt8) Unit := do
  put bufferSize (wordBytes (nameLen file.name)) "Buffer too small for included name length"
  putName bufferSize file.name "Buffer too small for included filename"
  put bufferSize (wordBytes file.dataSize) "Buffer too small for included size"

def includedFileSize (file : IncludedFileDesc) : Nat := 4 + (nameLen file.name).toNat + 4

/-- The size of the GUIDs of a category is computed in 32 bits. -/
def calculateSerializeSize (objects : List ObjectDesc) (deps : List PluginDep) (files : List IncludedFileDesc) : Nat :=
  (objects.map fun obj => 16 + (nameLen obj.name).toNat).sum + 4 +
    (pluginCategories.map fun category =>
      if count32 (inCategory deps category) > 0 then 8 + (count32 (inCategory deps category) * 8).toNat else 0).sum +
    8 + (files.map includedFileSize).sum

def serializeTables (bufferSize : Nat) (objects : List ObjectDesc) (deps : List PluginDep) (includedFileCount : UInt32)
    (files : List IncludedFileDesc) : Run (List UInt8) Unit := do
  putEach (serializeObject bufferSize) objects
  serializePluginDeps bufferSize deps
  put bufferSize (wordBytes includedFileCount ++ wordBytes (UInt32.ofNat (files.map includedFileSize).sum))
    "Buffer too small for included metadata"
  putEach (serializeIncludedFile bufferSize) files

def header1Serialize (header : Header1) : Result (List UInt8) := do
  let objects ← tableEntries header.objectCount header.objects
  let deps ← tableEntries header.pluginDepCount header.pluginDeps
  let files ← tableEntries header.includedFileCount header.includedFiles
  let bufferSize := calculateSerializeSize objects deps files
  match (serializeTables bufferSize objects deps header.includedFileCount files).run [] with
  | (.ok (),written) => .ok written
  | (.error stop,_) => .error stop

end Libnmo.Format
