import Libnmo.Format.ChunkPacking
import Libnmo.Format.StreamRecords
import Libnmo.Format.StreamSlices
import Libnmo.Format.StreamWriter

/-! A stream reader opened on a file: the file header, Header1 and the manager records in front of
the objects. The records that then lie ahead are returned one by one, whatever hands out the
section, and behind them there are no more. -/
namespace Libnmo.Format
open Core Lib Lib.Cursor Lib.LittleEndian

/-- A file on disk, read with `fread`: the end of the file is no error. -/
def diskFile : StreamIo where
  State := ByteFile UInt8
  read file size := (some (file.available size),file.read size)
  within file size bytes after ran := by
    obtain rfl := Option.some.inj (Prod.mk.inj ran).1
    rw [ByteFile.length_available]
    exact Nat.min_le_left ..

section
variable {zlib : InflateLibrary} (miniz : Miniz)

/-- The plain bytes of a Header1 that was stored in so many bytes. -/
def unpackHeader1 (unpackSize : Nat) (packed : List UInt8) : Option (List UInt8) :=
  if packed.length ≠ unpackSize then match miniz.uncompress unpackSize packed with
    | none => none
    | some plain => if plain.length ≠ unpackSize then none else some plain
  else some packed

/-- The Header1 at a position of the file, and the position behind it. -/
def openHeader1 (header : FileHeader) (content : List UInt8) (pos : Nat) : Option (Header1 × Nat) :=
  if header.hdr1PackSize > 0 ∧ header.hdr1UnpackSize > 0 then
    let packed := slice content pos header.hdr1PackSize.toNat
    if packed.length ≠ header.hdr1PackSize.toNat then none
    else match unpackHeader1 miniz header.hdr1UnpackSize.toNat packed with
      | none => none
      | some plain => match header1Parse plain header.objectCount with
        | .error _ => none
        | .ok header1 => some (header1,pos + packed.length)
  else some ({ objectCount := header.objectCount },pos)

def bytesGuid (bytes : List UInt8) : Guid := ⟨bytesU32 (bytes.take 4),bytesU32 (bytes.drop 4)⟩

def readerLoadManager : Run (StreamReader diskFile zlib) ManagerData := do
  let guid ← readerCopyBytes 8
  let dataSize ← readerReadU32
  let chunk ← readerReadChunk {} dataSize
  pure { guid := bytesGuid guid, dataSize := dataSize, chunk := chunk }

def readerLoadManagers : Run (StreamReader diskFile zlib) (List ManagerData) := do
  let header ← Action.read StreamReader.header
  if header.fileVersion < 6 ∨ header.managerCount = 0 then pure []
  else readerLoadManager.times header.managerCount.toNat

def streamReaderCreate {bufferSize : Nat} (memory : Memory (streamBufferSize bufferSize)) (content : List UInt8) :
    Option (List ManagerData × StreamReader diskFile zlib) :=
  match (fileHeaderParse content).run 0 with
  | (.error _,_) => none
  | (.ok header,pos) => match fileHeaderValidate header with
    | .error _ => none
    | .ok () => match openHeader1 miniz header content pos with
      | none => none
      | some (header1,pos) =>
        match readerLoadManagers.run (readerOpened (⟨content,pos⟩ : ByteFile UInt8) memory.bytes header header1) with
        | (.error _,_) => none
        | (.ok managers,reader) => some (managers,reader)

/-- So many calls of `nmo_stream_reader_read_next_object`, with every allocation granted. -/
def readObjects {io : StreamIo} (reader : StreamReader io zlib) : Nat → List (Result StreamObject)
  | 0 => []
  | count + 1 => ((readNextObject {}).run reader).1 :: readObjects ((readNextObject {}).run reader).2 count

end

section
variable {io : StreamIo} {zlib : InflateLibrary} {reader t : StreamReader io zlib}
  {stock : StreamSource io zlib → List UInt8 → Prop} {data rest : List UInt8}

/-- The rest of the section lies ahead of the reader: what it holds, and what its source is still to hand out. -/
structure Supplies (stock : StreamSource io zlib → List UInt8 → Prop) (reader : StreamReader io zlib)
    (data : List UInt8) : Prop where
  follows : ∃ rest, stock reader.source rest ∧ reader.window.held ++ rest = data
  remaining : reader.uncompressedRemaining = data.length
  small : SmallBuffer reader.source

section
variable (backs : Backs (sourceNext : Run (StreamSource io zlib) (List UInt8)) stock)
include backs

theorem copyBytes_supplied {taken : List UInt8} (supplies : Supplies stock reader (taken ++ rest)) :
    ∃ t, (readerCopyBytes taken.length).run reader = (.ok taken,t) ∧ Supplies stock t rest ∧ SameObjects reader t := by
  obtain ⟨left,begun,follows⟩ := supplies.follows
  have remaining := supplies.remaining
  rw [List.length_append] at remaining
  rcases readerCopyBytes_cases taken.length supplies.small with
    ⟨bytes,t,ran,length,draws⟩ | ⟨stop,_,few⟩ | ⟨stop,t,_,breaks⟩
  · obtain ⟨left',parts,begun'⟩ := draws.gives.backed backs begun
    rw [follows] at parts
    obtain ⟨rfl,later⟩ := List.append_inj parts length.symm
    refine ⟨t,ran,⟨⟨left',begun',later.symm⟩,?_,draws.small⟩,draws.same⟩
    have counted := draws.counted
    omega
  · omega
  · obtain ⟨bytes,s,few,gives,failed⟩ := breaks.short
    obtain ⟨left',parts,begun'⟩ := gives.backed backs begun
    rw [backs.ended begun' failed,follows,List.append_nil,List.append_nil] at parts
    rw [← parts,List.length_append] at few
    omega

theorem readU32_supplied {word : UInt32} (supplies : Supplies stock reader (wordBytes word ++ rest)) :
    ∃ t, readerReadU32.run reader = (.ok word,t) ∧ Supplies stock t rest ∧ SameObjects reader t := by
  obtain ⟨t,ran,after,same⟩ := copyBytes_supplied backs supplies
  rw [length_wordBytes] at ran
  rw [readerReadU32,Action.bind_ok _ ran]
  refine ⟨t,?_,after,same⟩
  have word' : bytesU32 (wordBytes word) = word := wordBytes_inj (wordBytes_bytesU32 (length_wordBytes word))
  rw [word']
  rfl

theorem readId_supplied {storedId : Option UInt32} (stored : storedId.isSome ↔ reader.header.fileVersion < 7)
    (supplies : Supplies stock reader (idBytes storedId ++ rest)) :
    ∃ t, readerReadId.run reader = (.ok (storedId.getD 0),t) ∧ Supplies stock t rest ∧ SameObjects reader t := by
  rw [readerReadId,Action.bind_ok _ (Action.read_apply _ _)]
  cases storedId with
  | some id =>
    rw [if_pos (stored.mp rfl)]
    exact readU32_supplied backs supplies
  | none =>
    rw [if_neg fun old => Bool.false_ne_true (stored.mpr old)]
    exact ⟨reader,rfl,supplies,.refl reader⟩

theorem readChunk_supplied {payload : List UInt8} (small : payload.length < 2 ^ 32) {chunk : Option Chunk}
    (parses : (if payload = [] then .ok none else (parsedChunk payload).map some) = .ok chunk)
    (supplies : Supplies stock reader (payload ++ rest)) :
    ∃ t, (readerReadChunk {} (count32 payload)).run reader = (.ok chunk,t) ∧ Supplies stock t rest ∧ SameObjects reader t := by
  have count := toNat_count32 payload small
  rw [readerReadChunk]
  by_cases empty : payload = []
  · subst empty
    obtain rfl : none = chunk := Except.ok.inj parses
    exact ⟨reader,rfl,supplies,.refl reader⟩
  · rw [if_neg empty] at parses
    have some : count32 payload ≠ 0 := fun none => empty (List.length_eq_zero_iff.mp (count.symm.trans (congrArg UInt32.toNat none)))
    obtain ⟨t,ran,after,same⟩ := copyBytes_supplied backs supplies
    rw [if_neg some,if_pos rfl,Action.bind_ok _ (Action.pure_apply _ _),count,Action.bind_ok _ ran,if_pos rfl,
      Action.bind_ok _ (Action.pure_apply _ _)]
    refine ⟨t,?_,after,same⟩
    cases parsed : parsedChunk payload with
    | error stop =>
      rw [parsed] at parses
      cases parses
    | ok c =>
      rw [parsed] at parses
      rw [← Except.ok.inj parses]
      rfl

/-- The record ahead is returned, and the next one is ahead. -/
theorem readNextObject_supplied {record : StreamRecord} (stored : record.Stored reader.header)
    (below : reader.nextObjectIndex < reader.objectsTotal) {object : StreamObject}
    (makes : record.object reader.header1 reader.nextObjectIndex true = .ok object)
    (supplies : Supplies stock reader (record.bytes ++ rest)) : ∃ t, (readNextObject {}).run reader = (.ok object,t) ∧
      Supplies stock t rest ∧ t.header = reader.header ∧ t.header1 = reader.header1 ∧ t.objectsTotal = reader.objectsTotal ∧
      t.nextObjectIndex = reader.nextObjectIndex + 1 := by
  rw [StreamRecord.bytes,recordFields,List.append_assoc,List.append_assoc] at supplies
  obtain ⟨u,first,supplies,same⟩ := readId_supplied backs stored supplies
  obtain ⟨v,second,supplies,same'⟩ := readU32_supplied backs supplies
  cases parsed : record.chunk with
  | error stop =>
    rw [StreamRecord.object,parsed] at makes
    cases makes
  | ok chunk =>
    obtain ⟨w,third,supplies,same''⟩ := readChunk_supplied backs record.small parsed supplies
    have whole := (same.trans same').trans same''
    rw [readNextObject,Action.bind_ok _ (Action.read_apply _ _)]
    dsimp only [id]
    rw [if_neg (UInt32.not_le.mpr below),Action.bind_ok _ (Action.pure_apply _ _),Action.bind_ok _ first,
      Action.bind_ok _ second,Action.bind_ok _ third,if_pos rfl,Action.bind_ok _ (Action.pure_apply _ _),
      Action.bind_ok _ (Action.update_apply _ _)]
    rw [StreamRecord.object,parsed] at makes
    refine ⟨w.counted,?_,⟨supplies.follows,supplies.remaining,supplies.small⟩,whole.header,whole.header1,whole.objectsTotal,?_⟩
    · rw [← Except.ok.inj makes]
      rfl
    · rw [StreamReader.counted,whole.nextObjectIndex]

end

theorem readNextObject_ended (supplies : Supplies stock reader []) :
    ∃ message, (readNextObject {}).run reader = (.error (.error .eof message),reader) := by
  have refused : (readerCopyBytes 4).run reader = _ := readerCopyBytes_refused (by
    rw [supplies.remaining]
    exact Nat.succ_pos 3)
  rw [readNextObject,Action.bind_ok _ (Action.read_apply _ _)]
  dsimp only [id]
  by_cases ended : reader.nextObjectIndex ≥ reader.objectsTotal
  · rw [if_pos ended]
    exact ⟨_,rfl⟩
  · rw [if_neg ended,Action.bind_ok _ (Action.pure_apply _ _),readerReadId]
    by_cases old : reader.header.fileVersion < 7
    · rw [Action.bind_error _ (by
        rw [Action.bind_ok _ (Action.read_apply _ _),if_pos old,readerReadU32,Action.bind_error _ refused])]
      exact ⟨_,rfl⟩
    · rw [Action.bind_ok _ (by
        rw [Action.bind_ok _ (Action.read_apply _ _),if_neg old]
        exact Action.pure_apply _ _),Action.bind_error _ (by rw [readerReadU32,Action.bind_error _ refused])]
      exact ⟨_,rfl⟩

/-- The objects that records make under the descriptors from an index on. -/
inductive Makes (header1 : Header1) : UInt32 → List StreamRecord → List StreamObject → Prop
  | nil (index : UInt32) : Makes header1 index [] []
  | cons {index : UInt32} {record : StreamRecord} {object : StreamObject} {records : List StreamRecord}
      {objects : List StreamObject} (first : record.object header1 index true = .ok object)
      (rest : Makes header1 (index + 1) records objects) : Makes header1 index (record :: records) (object :: objects)

theorem readObjects_supplied (backs : Backs (sourceNext : Run (StreamSource io zlib) (List UInt8)) stock)
    {records : List StreamRecord} {objects : List StreamObject} (stored : ∀ each ∈ records, each.Stored reader.header)
    (few : reader.nextObjectIndex.toNat + records.length ≤ reader.objectsTotal.toNat)
    (makes : Makes reader.header1 reader.nextObjectIndex records objects)
    (supplies : Supplies stock reader (records.flatMap StreamRecord.bytes)) :
    ∃ message, readObjects reader (records.length + 1) = objects.map .ok ++ [.error (.error .eof message)] := by
  induction records generalizing reader objects with
  | nil =>
    cases makes
    obtain ⟨message,ran⟩ := readNextObject_ended supplies
    refine ⟨message,?_⟩
    rw [List.length_nil,readObjects,readObjects,ran]
    rfl
  | cons record records ih =>
    cases makes with | cons first later =>
    rw [List.forall_mem_cons] at stored
    rw [List.length_cons] at few ⊢
    have below : reader.nextObjectIndex < reader.objectsTotal := UInt32.lt_iff_toNat_lt.mpr (by omega)
    obtain ⟨t,ran,supplies,header,header1,total,counted⟩ :=
      readNextObject_supplied backs stored.1 below first (List.flatMap_cons ▸ supplies)
    have index : t.nextObjectIndex.toNat = reader.nextObjectIndex.toNat + 1 := by
      have bound := reader.objectsTotal.toNat_lt
      rw [counted,UInt32.toNat_add]
      exact Nat.mod_eq_of_lt (by change _ + 1 < _; omega)
    obtain ⟨message,more⟩ := ih (header ▸ stored.2) (by rw [index,total]; omega) (by rwa [header1,counted]) supplies
    refine ⟨message,?_⟩
    rw [readObjects,ran,more]
    rfl

end

end Libnmo.Format
