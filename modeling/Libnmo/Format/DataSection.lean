import Libnmo.Format.ChunkTree
import Libnmo.Lib.Reads

/-! The data section of a file: manager records, then object records. A record
holds the raw bytes of its chunk where the chunk has any, else the nested format;
the parser reads every record with `nmo_chunk_parse`. Records without a chunk pool:
each chunk is a fresh one. -/
namespace Libnmo.Format
open Core Lib Lib.LittleEndian Lib.Cursor

structure Guid where
  d1 : UInt32 := 0
  d2 : UInt32 := 0
  deriving DecidableEq, Repr

structure ManagerData where
  guid : Guid := {}
  dataSize : UInt32 := 0
  chunk : Option Chunk := none
  flags : UInt32 := 0
  deriving Repr

structure ObjectData where
  dataSize : UInt32 := 0
  chunk : Option Chunk := none
  deriving Repr

/-- The counts are 32-bit fields, so no section has more records than they can hold. -/
theorem nil_fits {α : Type} : ([] : List α).length < 2 ^ 32 := Nat.two_pow_pos 32

structure DataSection where
  managers : List ManagerData := []
  objects : List ObjectData := []
  managersFit : managers.length < 2 ^ 32 := by decide
  objectsFit : objects.length < 2 ^ 32 := by decide

namespace DataSection

def managerCount (s : DataSection) : UInt32 := count32 s.managers

def objectCount (s : DataSection) : UInt32 := count32 s.objects

end DataSection

/-- A bounds check and the copy it covers: the state is what has been written to the buffer. -/
def put (bufferSize : Nat) (bytes : List UInt8) (message : String) : Run (List UInt8) Unit where
  run written :=
    if written.length + bytes.length > bufferSize then (.error (.error .bufferOverrun message),written)
    else (.ok (),written ++ bytes)

/-- The raw bytes of the chunk when there are some, else the nested format. -/
def chunkPayload (c : Chunk) : Result (List UInt8 × Nat) :=
  match c.rawData with
  | some raw => if raw.length > 0 then .ok (raw,raw.length) else chunkSerialize c
  | none => chunkSerialize c

/-- `chunk_data` and `chunk_size` of a record. -/
def recordPayload : Option Chunk → Result (List UInt8 × Nat)
  | some c => chunkPayload c
  | none => .ok ([],0)

/-- The size field and the bytes of a record's chunk. -/
def putChunk (bufferSize : Nat) (chunk : Option Chunk) (sizeMessage dataMessage : String) :
    Run (List UInt8) Unit := do
  let chunkData ← Action.lift (recordPayload chunk)
  put bufferSize (wordBytes (UInt32.ofNat chunkData.2)) sizeMessage
  (if chunkData.2 > 0 then put bufferSize chunkData.1 dataMessage else pure ())

def putManager (bufferSize : Nat) (m : ManagerData) : Run (List UInt8) Unit := do
  put bufferSize (wordBytes m.guid.d1 ++ wordBytes m.guid.d2) "Buffer too small for manager GUID"
  putChunk bufferSize m.chunk "Buffer too small for manager data size" "Buffer too small for manager chunk data"

def putObject (fileVersion : UInt32) (bufferSize : Nat) (o : ObjectData) : Run (List UInt8) Unit := do
  (if fileVersion < 7 then put bufferSize (wordBytes 0) "Buffer too small for object ID" else pure ())
  putChunk bufferSize o.chunk "Buffer too small for object data size" "Buffer too small for object chunk data"

def putEach {α : Type} (step : α → Run (List UInt8) Unit) : List α → Run (List UInt8) Unit
  | [] => pure ()
  | a :: rest => do
    step a
    putEach step rest

def putSection (s : DataSection) (fileVersion : UInt32) (bufferSize : Nat) : Run (List UInt8) Unit := do
  putEach (putManager bufferSize) s.managers
  putEach (putObject fileVersion bufferSize) s.objects

/-- The bytes written, whose number is `*bytes_written`. -/
def dataSectionSerialize (s : DataSection) (fileVersion : UInt32) (bufferSize : Nat) : Result (List UInt8) :=
  match (putSection s fileVersion bufferSize).run [] with
  | (.ok (),written) => .ok written
  | (.error stop,_) => .error stop

/-- The part of a record's size that its chunk contributes. -/
def chunkSizeOf (dataSize : UInt32) (chunk : Option Chunk) : Nat :=
  if dataSize > 0 then dataSize.toNat
  else match chunk with
    | none => 0
    | some c => match c.rawData with
      | some raw => raw.length
      | none => match chunkSerialize c with
        | .ok (_,size) => size
        | .error _ => 0

def dataSectionCalculateSize (s : DataSection) (fileVersion : UInt32) : Nat :=
  (s.managers.map fun m => 8 + 4 + chunkSizeOf m.dataSize m.chunk).sum +
    (s.objects.map fun o => (if fileVersion < 7 then 4 else 0) + 4 + chunkSizeOf o.dataSize o.chunk).sum

/-- `CHECK_BUFFER_SIZE`. -/
def checkBufferSize (buffer : List UInt8) (needed : Nat) : Run Nat Unit where
  run pos :=
    if pos ≤ buffer.length ∧ needed ≤ buffer.length - pos then (.ok (),pos)
    else (.error (.error .eof "Buffer overrun while reading Data section"),pos)

/-- `nmo_read_u32_le` and the advance over it, with no check of its own. -/
def nextU32Le (buffer : List UInt8) : Run Nat UInt32 where
  run pos :=
    match slice buffer pos 4 with
    | [a,b,c,d] => (.ok (bytesWord a b c d),pos + 4)
    | _ => (.error (.overread buffer.length),pos)

section
variable {buffer : List UInt8}

theorem reads_nextU32Le (word : UInt32) : Reads buffer (nextU32Le buffer) (wordBytes word) word := by
  intro pos rest ahead
  have piece := ahead.slice_eq
  rw [length_wordBytes] at piece
  refine ⟨pos + 4,?_,by simpa using ahead.skip⟩
  simp only [nextU32Le,piece,wordBytes,bytesWord_wordBytes]

theorem takes_nextU32Le : Takes buffer (nextU32Le buffer) fun input word => input = wordBytes word := by
  intro pos word next inside run
  simp only [nextU32Le] at run
  split at run
  · rename_i a b c d piece
    simp only [Prod.mk.injEq,Except.ok.injEq] at run
    obtain ⟨rfl,rfl⟩ := run
    have whole : pos + 4 ≤ buffer.length := by
      have length := congrArg List.length piece
      simp only [slice,List.length_take,List.length_drop,List.length_cons,List.length_nil] at length
      omega
    have ahead := slice_ahead whole
    rw [piece] at ahead
    exact ⟨_,_,(wordBytes_bytesWord a b c d).symm,ahead⟩
  · simp at run

end

/-- `nmo_chunk_parse` into a fresh chunk, and the advance over its bytes. -/
def parseChunkAt (buffer : List UInt8) (size : Nat) : Run Nat Chunk where
  run pos := match (chunkParse (slice buffer pos size)).run chunkCreate with
    | (.ok (),chunk) => (.ok chunk,pos + size)
    | (.error stop,_) => (.error stop,pos)

/-- The size field of a record and, for a positive size, its chunk parsed from the bytes that follow. -/
def parseChunkData (buffer : List UInt8) : Run Nat (UInt32 × Option Chunk) := do
  checkBufferSize buffer 4
  let dataSize ← nextU32Le buffer
  (if dataSize > 0 then do
    checkBufferSize buffer dataSize.toNat
    let chunk ← parseChunkAt buffer dataSize.toNat
    pure (dataSize,some chunk)
  else pure (dataSize,none))

def parseManagerData (buffer : List UInt8) : Run Nat ManagerData := do
  checkBufferSize buffer 8
  let d1 ← nextU32Le buffer
  let d2 ← nextU32Le buffer
  let record ← parseChunkData buffer
  pure { guid := ⟨d1,d2⟩, dataSize := record.1, chunk := record.2, flags := 0 }

def skipObjectId (buffer : List UInt8) (fileVersion : UInt32) : Run Nat Unit :=
  if fileVersion < 7 then do
    checkBufferSize buffer 4
    let _ ← nextU32Le buffer
    pure ()
  else pure ()

def parseObjectData (buffer : List UInt8) (fileVersion : UInt32) : Run Nat ObjectData := do
  skipObjectId buffer fileVersion
  let record ← parseChunkData buffer
  pure { dataSize := record.1, chunk := record.2 }

/-- The records of `nmo_data_section_parse`, for the counts the caller set. -/
def parseRecords (buffer : List UInt8) (fileVersion managerCount objectCount : UInt32) :
    Run Nat (List ManagerData × List ObjectData) := do
  let managers ← (if fileVersion ≥ 6 ∧ managerCount > 0 then
    (parseManagerData buffer).times managerCount.toNat else pure [])
  let objects ← (if fileVersion ≥ 4 ∧ objectCount > 0 then
    (parseObjectData buffer fileVersion).times objectCount.toNat else pure [])
  pure (managers,objects)

def dataSectionParse (buffer : List UInt8) (fileVersion managerCount objectCount : UInt32) :
    Result (List ManagerData × List ObjectData) :=
  ((parseRecords buffer fileVersion managerCount objectCount).run 0).1

end Libnmo.Format
