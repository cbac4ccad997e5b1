import Libnmo.Format.DataSection
import Libnmo.Format.StreamReader
import Libnmo.Lib.Files

/-! The stream writer: a file header that is written twice, the Header1 bytes of the caller, and
the records of the objects, deflated where the data is to be packed. The deflate library and the
file's answers to writes are parameters. -/
namespace Libnmo.Format
open Core Lib Lib.LittleEndian Lib.Patch

/-- What a write to the file answers. A write that went well has written all of its bytes. -/
structure FileSink where
  write : ByteFile UInt8 → List UInt8 → Bool × ByteFile UInt8
  whole : ∀ file bytes after, write file bytes = (true,after) → after = file.write 0 bytes

/-- `MZ_OK`, `MZ_STREAM_END`, `MZ_BUF_ERROR`, or any other status. -/
inductive DeflateStatus
  | ok | streamEnd | bufError | failed
  deriving DecidableEq, Repr

structure DeflateCall (Z : Type) where
  status : DeflateStatus
  taken : Nat
  made : List UInt8
  next : Z

/-- The library that deflates, with or without `MZ_FINISH`. A call that has no progress to make
has taken and made nothing. -/
structure DeflateLibrary where
  State : Type
  init : Int → Option State
  deflate : State → Bool → List UInt8 → Nat → DeflateCall State
  taken_le : ∀ z finish input room, (deflate z finish input room).taken ≤ input.length
  made_le : ∀ z finish input room, (deflate z finish input room).made.length ≤ room
  idle : ∀ z finish input room, (deflate z finish input room).status = .bufError →
    (deflate z finish input room).taken = 0 ∧ (deflate z finish input room).made = [] ∧
      (deflate z finish input room).next = z

/-- What `malloc` gives for so many bytes. -/
structure Memory (size : Nat) where
  bytes : List UInt8
  sized : bytes.length = size

/-- A size of zero asks for the default. -/
def streamBufferSize (bufferSize : Nat) : Nat := if bufferSize ≠ 0 then bufferSize else 64 * 1024

structure StreamWriterOptions where
  header1Data : Option (List UInt8) := none
  header1Size : Nat := 0
  header1UncompressedSize : Nat := 0
  bufferSize : Nat := 0
  compressionLevel : Int := 0
  compressData : Bool := false

/-- `nextOut` is the place of `next_out` in the output buffer, and `pending` the input that
`next_in` points to. -/
structure StreamWriter (deflater : DeflateLibrary) where
  file : ByteFile UInt8 := {}
  header : FileHeader
  outBuffer : List UInt8
  compressData : Bool
  compressionLevel : Int
  zstream : Option deflater.State := none
  pending : List UInt8 := []
  nextOut : Nat := 0
  availOut : Nat := 0
  dataUncompressedBytes : Nat := 0
  dataCompressedBytes : Nat := 0
  objectsWritten : UInt32 := 0
  finalized : Bool := false

section
variable {deflater : DeflateLibrary} (sink : FileSink)

def StreamWriter.bufferSize (w : StreamWriter deflater) : Nat := w.outBuffer.length

def sinkWrite (bytes : List UInt8) (message : String) : Run (StreamWriter deflater) Unit where
  run w := match sink.write w.file bytes with
    | (true,file) => (.ok (),{ w with file := file })
    | (false,file) => (.error (.error .cantWriteFile message),{ w with file := file })

/-- The writes of `nmo_file_header_serialize`. -/
def headerFields (header : FileHeader) : List (List UInt8 × String) :=
  [(header.signature,"Failed to write file signature"),
    (wordBytes header.crc,"Failed to write CRC"),
    (wordBytes header.ckVersion,"Failed to write CK version"),
    (wordBytes header.fileVersion,"Failed to write file version"),
    (wordBytes header.fileVersion2,"Failed to write file version2"),
    (wordBytes header.fileWriteMode,"Failed to write file write mode"),
    (wordBytes header.hdr1PackSize,"Failed to write header1 packed size")] ++
  if header.fileVersion ≥ 5 then
    [(wordBytes header.dataPackSize,"Failed to write data packed size"),
      (wordBytes header.dataUnpackSize,"Failed to write data unpacked size"),
      (wordBytes header.managerCount,"Failed to write manager count"),
      (wordBytes header.objectCount,"Failed to write object count"),
      (wordBytes header.maxIdSaved,"Failed to write max ID saved"),
      (wordBytes header.productVersion,"Failed to write product version"),
      (wordBytes header.productBuild,"Failed to write product build"),
      (wordBytes header.hdr1UnpackSize,"Failed to write header1 unpacked size")]
  else []

def writeFields : List (List UInt8 × String) → Run (StreamWriter deflater) Unit
  | [] => pure ()
  | (bytes,message) :: rest => do
    sinkWrite sink bytes message
    writeFields rest

def writeHeader : Run (StreamWriter deflater) Unit := do
  let header ← Action.read StreamWriter.header
  writeFields sink (headerFields header)

section Deflating

/-- The first bytes of the output buffer go to the file, and the buffer is empty again. -/
def flushOutput (count : Nat) (message : String) : Run (StreamWriter deflater) Unit := do
  let outBuffer ← Action.read StreamWriter.outBuffer
  sinkWrite sink (outBuffer.take count) message
  Action.update fun w => { w with
    dataCompressedBytes := w.dataCompressedBytes + count
    nextOut := 0
    availOut := w.bufferSize % 2 ^ 32 }

def flushFull (message : String) : Run (StreamWriter deflater) Unit := do
  let w ← Action.read id
  if w.availOut = 0 then flushOutput sink w.bufferSize message else pure ()

def flushProduced (message : String) : Run (StreamWriter deflater) Unit := do
  let w ← Action.read id
  if w.bufferSize - w.availOut > 0 then flushOutput sink (w.bufferSize - w.availOut) message else pure ()

/-- `mz_deflate`, which fails on a stream that was never started. -/
def callDeflate (finish : Bool) : Run (StreamWriter deflater) DeflateStatus where
  run w := match w.zstream with
    | none => (.ok .failed,w)
    | some z =>
      let call := deflater.deflate z finish w.pending w.availOut
      (.ok call.status,{ w with
        zstream := some call.next
        pending := w.pending.drop call.taken
        outBuffer := overwrite w.outBuffer w.nextOut call.made
        nextOut := w.nextOut + call.made.length
        availOut := w.availOut - call.made.length })

def startDeflate : Run (StreamWriter deflater) Unit where
  run w := match w.zstream with
    | some _ => (.ok (),w)
    | none => match deflater.init w.compressionLevel with
      | none => (.error (.error .internal "Failed to initialize deflate stream"),w)
      | some z => (.ok (),{ w with zstream := some z, nextOut := 0, availOut := w.bufferSize % 2 ^ 32 })

def deflateLoop : Nat → Run (StreamWriter deflater) Unit
  | 0 => Action.stop .endless
  | fuel + 1 => do
    let pending ← Action.read StreamWriter.pending
    if pending = [] then pure () else do
    flushFull sink "Failed to write compressed buffer"
    let status ← callDeflate false
    let room ← Action.read StreamWriter.availOut
    if status = .bufError ∧ room = 0 then deflateLoop fuel
    else if status ≠ .ok then fail .internal "Deflate error"
    else do
      flushProduced sink "Failed to flush compressed bytes"
      deflateLoop fuel

def finishLoop : Nat → Run (StreamWriter deflater) Unit
  | 0 => Action.stop .endless
  | fuel + 1 => do
    flushFull sink "Failed to flush compressed block"
    let status ← callDeflate true
    flushProduced sink "Failed to flush compressed data"
    if status = .ok then finishLoop fuel
    else if status ≠ .streamEnd then fail .internal "Failed to finish deflate stream"
    else pure ()

end Deflating

/-- The size of the input is cast to 32 bits. -/
def writerWriteData (fuel : Nat) (data : List UInt8) : Run (StreamWriter deflater) Unit := do
  Action.update fun w => { w with dataUncompressedBytes := w.dataUncompressedBytes + data.length }
  let compress ← Action.read StreamWriter.compressData
  if compress then do
    startDeflate
    Action.update fun w => { w with pending := data.take (data.length % 2 ^ 32) }
    deflateLoop sink fuel
  else if data = [] then pure ()
  else do
    sinkWrite sink data "Failed to write data"
    Action.update fun w => { w with dataCompressedBytes := w.dataCompressedBytes + data.length }

/-- The template header without the sizes of the data section. -/
def writerHeader (header : FileHeader) (compress : Bool) (options : Option StreamWriterOptions) : FileHeader :=
  { header with
    fileWriteMode := if compress then header.fileWriteMode ||| writeCompressData
      else header.fileWriteMode &&& ~~~writeCompressData
    dataPackSize := 0
    dataUnpackSize := 0
    hdr1PackSize := match options with
      | some options => UInt32.ofNat options.header1Size
      | none => header.hdr1PackSize
    hdr1UnpackSize := match options with
      | some options => UInt32.ofNat options.header1UncompressedSize
      | none => header.hdr1UnpackSize }

def writesCompressed (header : FileHeader) : Option StreamWriterOptions → Bool
  | some options => options.compressData
  | none => hasFlag header.fileWriteMode writeCompressData

def writerLevel : Option StreamWriterOptions → Int
  | some options => if options.compressionLevel ≠ 0 then options.compressionLevel else 6
  | none => 6

def writeHeader1 : Option StreamWriterOptions → Run (StreamWriter deflater) Unit
  | none => pure ()
  | some options => match options.header1Data with
    | none => pure ()
    | some data =>
      if options.header1Size > 0 then do
        (if data.length < options.header1Size then Action.stop (.overread data.length) else pure ())
        sinkWrite sink (data.take options.header1Size) ""
      else pure ()

def writerBufferSize : Option StreamWriterOptions → Nat
  | some options => streamBufferSize options.bufferSize
  | none => streamBufferSize 0

def streamWriterCreate (header : FileHeader) (options : Option StreamWriterOptions)
    (memory : Memory (writerBufferSize options)) : Option (StreamWriter deflater) :=
  let compress := writesCompressed header options
  let writer : StreamWriter deflater := {
    header := writerHeader header compress options
    outBuffer := if compress then memory.bytes else []
    compressData := compress
    compressionLevel := writerLevel options }
  match (do writeHeader sink; writeHeader1 sink options).run writer with
  | (.ok (),writer) => some writer
  | (.error _,_) => none

def writeObject (fuel : Nat) (object : StreamObject) : Run (StreamWriter deflater) Unit := do
  let writer ← Action.read id
  (if writer.finalized then fail .invalidState "Writer already finalized" else pure ())
  (if writer.header.objectCount ≠ 0 ∧ writer.objectsWritten ≥ writer.header.objectCount then
    fail .invalidState "Object count exceeds header declaration" else pure ())
  let payload ← Action.lift (recordPayload object.chunk)
  (if writer.header.fileVersion < 7 then writerWriteData sink fuel (wordBytes object.fileIndex) else pure ())
  writerWriteData sink fuel (wordBytes (UInt32.ofNat payload.2))
  (if payload.2 > 0 then writerWriteData sink fuel payload.1 else pure ())
  Action.update fun writer => { writer with objectsWritten := writer.objectsWritten + 1 }

def finishDeflate (fuel : Nat) : Run (StreamWriter deflater) Unit := do
  let writer ← Action.read id
  if writer.compressData ∧ writer.zstream.isSome then do
    finishLoop sink fuel
    Action.update fun writer => { writer with zstream := none }
  else pure ()

def streamWriterFinalize (fuel : Nat) : Run (StreamWriter deflater) Unit := do
  let finalized ← Action.read StreamWriter.finalized
  if finalized then pure () else do
  finishDeflate sink fuel
  Action.update fun writer => { writer with
    header := { writer.header with
      dataPackSize := UInt32.ofNat writer.dataCompressedBytes
      dataUnpackSize := UInt32.ofNat writer.dataUncompressedBytes }
    file := { writer.file with position := 0 } }
  writeHeader sink
  Action.update fun writer => { writer with finalized := true }

def writeObjects (fuel : Nat) : List StreamObject → Run (StreamWriter deflater) Unit
  | [] => pure ()
  | object :: rest => do
    writeObject sink fuel object
    writeObjects fuel rest

/-- The file that a writer leaves which accepts all of the objects and is finalized. -/
def streamWritten (deflater : DeflateLibrary) (fuel : Nat) (header : FileHeader) (options : Option StreamWriterOptions)
    (memory : Memory (writerBufferSize options)) (objects : List StreamObject) : Option (List UInt8) :=
  match (streamWriterCreate sink header options memory : Option (StreamWriter deflater)) with
  | none => none
  | some writer => match (do writeObjects sink fuel objects; streamWriterFinalize sink fuel).run writer with
    | (.ok (),writer) => some writer.file.content
    | (.error _,_) => none

end

end Libnmo.Format
