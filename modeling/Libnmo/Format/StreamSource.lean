import Libnmo.Core.Error
import Libnmo.Lib.Cursor
import Libnmo.Lib.Refill

/-! The input side of a stream reader: the data section of a file, read a buffer at a time and
inflated where it is packed. A fill that ends well has bytes in it. With a buffer whose size the
inflate library can be given, a fill that fails is the last that could have gone well. -/
namespace Libnmo.Format
open Core Lib Lib.Patch

/-- The interface that is read from. A read has no bytes where its result is not `NMO_OK`. -/
structure StreamIo where
  State : Type
  read : State → Nat → Option (List UInt8) × State
  within : ∀ s size bytes t, read s size = (some bytes,t) → bytes.length ≤ size

/-- `MZ_OK`, `MZ_STREAM_END`, or any other status. -/
inductive InflateStatus
  | ok | streamEnd | failed
  deriving DecidableEq, Repr

/-- What a call took of its input and made in its room. -/
structure InflateCall (Z : Type) where
  status : InflateStatus
  taken : Nat
  made : List UInt8
  next : Z

/-- The library that inflates. A call that is fine takes or makes something. A stream that has
failed goes on failing, and where it failed for want of input, as long as there is none. -/
structure InflateLibrary where
  State : Type
  init : Option State
  inflate : State → List UInt8 → Nat → InflateCall State
  taken_le : ∀ z input room, (inflate z input room).taken ≤ input.length
  made_le : ∀ z input room, (inflate z input room).made.length ≤ room
  progress : ∀ z input room, (inflate z input room).status = .ok →
    (inflate z input room).taken ≠ 0 ∨ (inflate z input room).made ≠ []
  stuck : ∀ z input room, (inflate z input room).status = .failed → ∀ input' room', (input = [] → input' = []) →
    (inflate (inflate z input room).next input' room').status = .failed

/-- The fields of the reader that its fills use. `pending` is the input that `next_in` points to,
and `nextOut` the place of `next_out` in the output buffer. -/
structure StreamSource (io : StreamIo) (zlib : InflateLibrary) where
  file : io.State
  outBuffer : List UInt8
  dataCompressed : Bool
  compressedRemaining : Nat
  streamFinished : Bool := false
  zstream : Option zlib.State := none
  pending : List UInt8 := []
  nextOut : Nat := 0
  availOut : Nat := 0

section
variable {io : StreamIo} {zlib : InflateLibrary}

def StreamSource.bufferSize (s : StreamSource io zlib) : Nat := s.outBuffer.length

/-- `nmo_io_read` of what remains of the section, at most a buffer of it. -/
def sourceInput (message : String) : Run (StreamSource io zlib) (List UInt8) where
  run s := match io.read s.file (min s.bufferSize s.compressedRemaining) with
    | (none,file) => (.error (.error .cantReadFile message),{ s with file := file, streamFinished := true })
    | (some bytes,file) =>
      if bytes = [] then (.error (.error .cantReadFile message),{ s with file := file, streamFinished := true })
      else (.ok bytes,{ s with file := file, compressedRemaining := s.compressedRemaining - bytes.length })

def fillPlain : Run (StreamSource io zlib) (List UInt8) := do
  let remaining ← Action.read StreamSource.compressedRemaining
  if remaining = 0 then do
    Action.update fun s => { s with streamFinished := true }
    fail .eof "No more uncompressed data"
  else do
    let bytes ← sourceInput "Failed to stream data section"
    Action.update fun s => { s with
      outBuffer := overwrite s.outBuffer 0 bytes
      streamFinished := s.streamFinished || s.compressedRemaining = 0 }
    pure bytes

/-- `mz_inflateInit`, once. -/
def startInflate : Run (StreamSource io zlib) Unit where
  run s := match s.zstream with
    | some _ => (.ok (),s)
    | none => match zlib.init with
      | none => (.error (.error .internal "Failed to initialize inflate stream"),{ s with pending := [] })
      | some z => (.ok (),{ s with zstream := some z, pending := [] })

/-- `mz_inflate`, which fails on a stream that was never started. -/
def callInflate : Run (StreamSource io zlib) InflateStatus where
  run s := match s.zstream with
    | none => (.ok .failed,s)
    | some z =>
      let call := zlib.inflate z s.pending s.availOut
      (.ok call.status,{ s with
        zstream := some call.next
        pending := s.pending.drop call.taken
        outBuffer := overwrite s.outBuffer s.nextOut call.made
        nextOut := s.nextOut + call.made.length
        availOut := s.availOut - call.made.length })

/-- The input of a call: what is pending, or else a buffer more. Its size is cast to 32 bits. -/
def moreInput : Run (StreamSource io zlib) Unit := do
  let before ← Action.read id
  (if before.pending = [] ∧ before.compressedRemaining > 0 then do
    let bytes ← sourceInput "Failed to read compressed data"
    Action.update fun s => { s with pending := bytes.take (bytes.length % 2 ^ 32) }
  else pure ())

/-- One round of the loop, and whether there is another. -/
def inflateRound : Run (StreamSource io zlib) Bool := do
  moreInput
  let status ← callInflate
  let after ← Action.read id
  if status = .streamEnd then do
    Action.update fun s => { s with streamFinished := true }
    pure false
  else if status ≠ .ok then fail .internal "Inflate failed"
  else if after.pending = [] ∧ after.compressedRemaining = 0 ∧ after.availOut = after.bufferSize then do
    Action.update fun s => { s with streamFinished := true }
    pure false
  else pure (after.availOut ≠ 0 ∧ ¬ (after.compressedRemaining = 0 ∧ after.pending = []))

def inflateLoop : Nat → Run (StreamSource io zlib) Unit
  | 0 => Action.stop .endless
  | fuel + 1 => do
    let room ← Action.read StreamSource.availOut
    if room = 0 then pure () else do
    let more ← inflateRound
    if more then inflateLoop fuel else pure ()

/-- What the rounds of the loop use up. -/
def StreamSource.left (s : StreamSource io zlib) : Nat := s.compressedRemaining + s.pending.length + s.availOut

/-- The whole output buffer, as far as 32 bits count it, is handed to the stream. -/
def StreamSource.emptied (s : StreamSource io zlib) : StreamSource io zlib :=
  { s with nextOut := 0, availOut := s.bufferSize % 2 ^ 32 }

def fillInflated : Run (StreamSource io zlib) (List UInt8) := do
  startInflate
  Action.update StreamSource.emptied
  let left ← Action.read StreamSource.left
  inflateLoop (left + 1)
  let s ← Action.read id
  if s.bufferSize - s.availOut = 0 then fail .eof "No more decompressed bytes available"
  else pure (s.outBuffer.take (s.bufferSize - s.availOut))

/-- The part of `reader_fill_output` that fills the output buffer. -/
def fillSource : Run (StreamSource io zlib) (List UInt8) := do
  let compressed ← Action.read StreamSource.dataCompressed
  if compressed then fillInflated else fillPlain

/-- The next bytes, for as long as the section is not finished. -/
def sourceNext : Run (StreamSource io zlib) (List UInt8) := do
  let finished ← Action.read StreamSource.streamFinished
  (if finished then fail .eof "Data section fully consumed" else pure ())
  fillSource

/-- The inflate library is given the size of the buffer in 32 bits. -/
def SmallBuffer (s : StreamSource io zlib) : Prop := s.dataCompressed = true → s.bufferSize < 2 ^ 32

end

end Libnmo.Format
