import Libnmo.Core.Error
import Libnmo.Format.ChunkVersion1
import Libnmo.Format.FileHeader
import Libnmo.Format.Header1
import Libnmo.Format.StreamFills

/-! The stream reader: requests for bytes of the data section, served from the output buffer and
its refills, and the records of the section one by one. An arena may refuse an allocation. -/
namespace Libnmo.Format
open Core Lib Lib.LittleEndian Lib.Cursor

/-- Of the output buffer `out` is the part that the last fill has filled, `out_filled` bytes. -/
structure StreamReader (io : StreamIo) (zlib : InflateLibrary) where
  source : StreamSource io zlib
  header : FileHeader
  header1 : Header1
  out : List UInt8 := []
  outPos : Nat := 0
  uncompressedRemaining : Nat
  nextObjectIndex : UInt32 := 0
  objectsTotal : UInt32

/-- What the arena answers to the allocations of a call, in their order. -/
structure Granted where
  buffer : Bool := true
  chunk : Bool := true
  object : Bool := true
  name : Bool := true

/-- The parts of an object that the reader sets. -/
structure StreamObject where
  id : UInt32
  classId : UInt32
  fileIndex : UInt32
  name : List UInt8 := []
  chunk : Option Chunk := none
  deriving Repr

section
variable {io : StreamIo} {zlib : InflateLibrary}

/-- What `nmo_stream_reader_create` sets up once it has read the headers. -/
def readerOpened (file : io.State) (outBuffer : List UInt8) (header : FileHeader) (header1 : Header1) :
    StreamReader io zlib where
  source := {
    file := file
    outBuffer := outBuffer
    dataCompressed := header.dataPackSize ≠ header.dataUnpackSize
    compressedRemaining := header.dataPackSize.toNat }
  header := header
  header1 := header1
  uncompressedRemaining := header.dataUnpackSize.toNat
  objectsTotal := header.objectCount

namespace StreamReader
variable (reader : StreamReader io zlib)

def available : Nat := reader.out.length - reader.outPos

/-- The bytes of the output buffer that are not taken yet, and what fills it. -/
def window : Window (StreamSource io zlib) UInt8 := ⟨reader.out.drop reader.outPos,reader.source⟩

def emptied : StreamReader io zlib := { reader with out := [], outPos := 0 }

def passed (chunk : Nat) : StreamReader io zlib := { reader with
  outPos := reader.outPos + chunk
  uncompressedRemaining := reader.uncompressedRemaining - chunk }

def counted : StreamReader io zlib := { reader with nextObjectIndex := reader.nextObjectIndex + 1 }

end StreamReader

def readerFillOutput : Run (StreamReader io zlib) Unit where
  run reader :=
    if reader.source.streamFinished then (.error (.error .eof "Data section fully consumed"),reader)
    else match fillSource.run reader.source with
      | (.ok bytes,source) => (.ok (),{ reader with source := source, out := bytes, outPos := 0 })
      | (.error stop,source) => (.error stop,{ reader with source := source, out := [], outPos := 0 })

/-- The part of a request that the output buffer serves, once it is filled again if it has nothing. -/
def readerChunk (size : Nat) : Run (StreamReader io zlib) Nat := do
  let available ← Action.read StreamReader.available
  (if available = 0 then do
    Action.update StreamReader.emptied
    readerFillOutput
  else pure ())
  let available ← Action.read StreamReader.available
  pure (min size available)

def readerCopyLoop : Nat → Nat → Run (StreamReader io zlib) (List UInt8)
  | 0,_ => Action.stop .endless
  | fuel + 1,size => if size = 0 then pure [] else do
    let chunk ← readerChunk size
    let bytes ← Action.read fun reader => slice reader.out reader.outPos chunk
    Action.update (StreamReader.passed · chunk)
    let more ← readerCopyLoop fuel (size - chunk)
    pure (bytes ++ more)

def readerSkipLoop : Nat → Nat → Run (StreamReader io zlib) Unit
  | 0,_ => Action.stop .endless
  | fuel + 1,size => if size = 0 then pure () else do
    let chunk ← readerChunk size
    Action.update (StreamReader.passed · chunk)
    readerSkipLoop fuel (size - chunk)

/-- Each round of the loop takes at least one byte. -/
def readerCopyBytes (size : Nat) : Run (StreamReader io zlib) (List UInt8) := do
  let remaining ← Action.read StreamReader.uncompressedRemaining
  (if size > remaining then fail .eof "Attempted to read beyond data section" else pure ())
  readerCopyLoop (size + 1) size

def readerSkipBytes (size : Nat) : Run (StreamReader io zlib) Unit := do
  let remaining ← Action.read StreamReader.uncompressedRemaining
  (if size > remaining then fail .eof "Attempted to skip beyond data section" else pure ())
  readerSkipLoop (size + 1) size

def bytesU32 : List UInt8 → UInt32
  | [a,b,c,d] => bytesWord a b c d
  | _ => 0

def readerReadU32 : Run (StreamReader io zlib) UInt32 := do
  let bytes ← readerCopyBytes 4
  pure (bytesU32 bytes)

def parsedChunk (bytes : List UInt8) : Result Chunk :=
  let (outcome,c) := (chunkParse bytes).run chunkCreate
  outcome.map fun _ => c

/-- The chunk of a record, or none for a size of zero. -/
def readerReadChunk (granted : Granted) (size : UInt32) : Run (StreamReader io zlib) (Option Chunk) :=
  if size = 0 then pure none else do
    (if granted.buffer then pure () else fail .nomem "Failed to allocate chunk buffer")
    let buffer ← readerCopyBytes size.toNat
    (if granted.chunk then pure () else fail .nomem "Failed to allocate chunk")
    let chunk ← Action.lift (parsedChunk buffer)
    pure (some chunk)

/-- The descriptor for a place in the list of objects, where Header1 has one. -/
def objectDesc (header1 : Header1) (index : UInt32) : Option ObjectDesc :=
  if header1.objectCount > index then header1.objects[index.toNat]? else none

/-- The object made of a record: the descriptor decides where there is one. A name that is not
granted is left out. -/
def objectOf (desc : Option ObjectDesc) (storedId : UInt32) (chunk : Option Chunk) (named : Bool) : StreamObject :=
  match desc with
  | some desc => {
    id := desc.fileId
    classId := desc.classId
    fileIndex := desc.fileIndex
    name := if named then cString desc.name else []
    chunk := chunk }
  | none => {
    id := storedId
    classId := match chunk with
      | some c => c.classId
      | none => 0
    fileIndex := storedId
    chunk := chunk }

/-- The stored ID in front of a record, which files of version 7 and later do not have. -/
def readerReadId : Run (StreamReader io zlib) UInt32 := do
  let header ← Action.read StreamReader.header
  if header.fileVersion < 7 then readerReadU32 else pure 0

def readNextObject (granted : Granted) : Run (StreamReader io zlib) StreamObject := do
  let reader ← Action.read id
  (if reader.nextObjectIndex ≥ reader.objectsTotal then fail .eof "No more objects available" else pure ())
  let storedId ← readerReadId
  let chunkSize ← readerReadU32
  let chunk ← readerReadChunk granted chunkSize
  (if granted.object then pure () else fail .nomem "Failed to allocate object")
  -- a failure above has taken bytes of the record without counting it
  Action.update StreamReader.counted
  pure (objectOf (objectDesc reader.header1 reader.nextObjectIndex) storedId chunk granted.name)

def readerSkipId : Run (StreamReader io zlib) Unit := do
  let header ← Action.read StreamReader.header
  if header.fileVersion < 7 then readerSkipBytes 4 else pure ()

def skipObject : Run (StreamReader io zlib) Unit := do
  let reader ← Action.read id
  (if reader.nextObjectIndex ≥ reader.objectsTotal then fail .eof "No more objects to skip" else pure ())
  readerSkipId
  let chunkSize ← readerReadU32
  (if chunkSize = 0 then pure () else readerSkipBytes chunkSize.toNat)
  Action.update StreamReader.counted

end

end Libnmo.Format
