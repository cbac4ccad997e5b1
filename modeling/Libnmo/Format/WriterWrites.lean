import Libnmo.Core.Error
import Libnmo.Lib.Packed
import Libnmo.Format.WriterRuns

/-! The other typed writes of `nmo_chunk_writer`: byte strings, arrays and values split
in two words. A byte string is copied into the room behind the data,
and the size of the data is raised over it; `align_dword` says by how much. -/
namespace Libnmo.Format
open Core Lib Lib.LittleEndian

section Bytes

/-- `memset` of so many dwords behind the data to zero. -/
def clearSpare (dwords : Nat) : Run ChunkWriter Unit where
  run w :=
    if dwords ≤ w.spare.length then (.ok (),{ w with spare := List.replicate dwords 0 ++ w.spare.drop dwords })
    else (.error (.overwrite (w.data.length + w.spare.length)),w)

/-- `memcpy` to behind the data, of whose size the room is not known to be. -/
def copyToSpare (source : List UInt8) : Run ChunkWriter Unit where
  run w :=
    if source.length ≤ 4 * w.spare.length then (.ok (),{ w with spare := copiedOver w.spare source })
    else (.error (.overwrite (w.data.length + w.spare.length)),w)

/-- `data_size += dwords`. -/
def raiseSize (dwords : Nat) : Run ChunkWriter Unit where
  run w :=
    if dwords ≤ w.spare.length then
      (.ok (),{ w with data := w.data ++ w.spare.take dwords, spare := w.spare.drop dwords })
    else (.error (.overread (w.data.length + w.spare.length)),w)

/-- The first `size` bytes that a pointer is to. -/
def sourceBytes (data : List UInt8) (size : Nat) : Result (List UInt8) :=
  if size ≤ data.length then .ok (data.take size) else .error (.overread data.length)

/-- Bytes behind the data, over room that is cleared first. -/
def storeCleared (around : Surroundings) (source : List UInt8) (dwords : Nat) : Run ChunkWriter Unit := do
  ensureDataCapacity around dwords
  clearSpare dwords
  copyToSpare source
  raiseSize dwords

def writerWriteBytes (around : Surroundings) (data : Option (List UInt8)) (bytes : Nat) : Run ChunkWriter Unit := do
  requireOpen
  if bytes = 0 then pure ()
  else match data with
    | none => Action.stop (.error .invalidArgument "")
    | some data => do
      let source ← Action.lift (sourceBytes data bytes)
      storeCleared around source (alignDword bytes / 4)

def writerWriteBufferNosize (around : Surroundings) (bytes : Nat) (data : Option (List UInt8)) :
    Run ChunkWriter Unit := do
  requireOpen
  match data with
  | none => pure ()
  | some data =>
    if bytes = 0 then pure ()
    else do
      let source ← Action.lift (sourceBytes data bytes)
      storeCleared around source (alignDword bytes / 4)

/-- The string is given by its characters before the terminator. -/
def writerWriteString (around : Surroundings) (str : Option (List UInt8)) : Run ChunkWriter Unit := do
  requireOpen
  let length := UInt32.ofNat (str.getD []).length
  writerWriteDword around length
  if length > 0 then writerWriteBytes around str length.toNat else pure ()

def writerWriteBuffer (around : Surroundings) (data : Option (List UInt8)) (size : Nat) : Run ChunkWriter Unit := do
  requireOpen
  writerWriteDword around (UInt32.ofNat size)
  if 0 < size then writerWriteBytes around data size else pure ()

/-- The bytes are swapped in a copy of their own. -/
def writerWriteBufferLendian16 (around : Surroundings) (bytes : Nat) (data : Option (List UInt8)) :
    Run ChunkWriter Unit := do
  requireOpen
  match data with
  | none => Action.stop (.error .invalidArgument "")
  | some data =>
    if bytes = 0 then pure ()
    else do
      let source ← Action.lift (sourceBytes data bytes)
      storeCleared around (swap16BitWords source) (alignDword bytes / 4)

end Bytes

section Halves

/-- The floats of a vector, a quaternion, a matrix or a colour. -/
def writerWriteFloats (around : Surroundings) (bits : List UInt32) : Run ChunkWriter Unit := writerPut around bits

def writerWriteDwordAsWords (around : Surroundings) (value : UInt32) : Run ChunkWriter Unit := do
  requireOpen
  writerWriteWord around (value &&& 0xFFFF).toUInt16
  writerWriteWord around ((value >>> 16) &&& 0xFFFF).toUInt16

def writerWriteArrayDwordAsWords (around : Surroundings) (values : Option (List UInt32)) (count : Nat) :
    Run ChunkWriter Unit := do
  requireOpen
  if count = 0 then pure ()
  else match values with
    | none => Action.stop (.error .invalidArgument "")
    | some values =>
      if count > (2 ^ 64 - 1) / 2 then Action.stop (.error .invalidArgument "")
      else do
        (if values.length < count then Action.stop (.overread values.length) else pure ())
        ensureDataCapacity around (count * 2)
        appendWords ((values.take count).flatMap fun value => [value &&& 0xFFFF,(value >>> 16) &&& 0xFFFF])

def writeWordsEach (around : Surroundings) : List UInt16 → Run ChunkWriter Unit
  | [] => pure ()
  | value :: rest => do
    writerWriteWord around value
    writeWordsEach around rest

def writerWriteBufferNosizeLendian16 (around : Surroundings) (valueCount : Nat) (data : Option (List UInt16)) :
    Run ChunkWriter Unit := do
  requireOpen
  match data with
  | none => pure ()
  | some values => do
    writeWordsEach around (values.take valueCount)
    (if values.length < valueCount then Action.stop (.overread values.length) else pure ())

end Halves

section Arrays

def writeEmptyMarker (around : Surroundings) : Run ChunkWriter Unit := do
  ensureDataCapacity around 2
  appendWords [0,0]

/-- An array whose size an `int` cannot hold is written as an empty one. -/
def writerWriteArrayLendian (around : Surroundings) (elementCount elementSize : Int32) (srcData : Option (List UInt8)) :
    Run ChunkWriter Unit := do
  requireOpen
  match srcData with
  | none => writeEmptyMarker around
  | some src =>
    if elementCount ≤ 0 ∨ elementSize ≤ 0 then writeEmptyMarker around
    else if elementCount.toInt > (2 ^ 31 - 1 : Int).tdiv elementSize.toInt then writeEmptyMarker around
    else do
      let totalBytes := elementSize.toInt.toNat * elementCount.toInt.toNat
      if totalBytes > 2 ^ 31 - 1 then writeEmptyMarker around
      else do
        let dwordCount := (totalBytes + 3) / 4
        ensureDataCapacity around (2 + dwordCount)
        appendWords [UInt32.ofNat totalBytes,elementCount.toUInt32]
        let source ← Action.lift (sourceBytes src totalBytes)
        -- the bytes behind the last element stay what they were
        copyToSpare source
        raiseSize dwordCount

def writerWriteArrayLendian16 (around : Surroundings) (elementCount elementSize : Int32)
    (srcData : Option (List UInt8)) : Run ChunkWriter Unit := do
  requireOpen
  match srcData with
  | none => writeEmptyMarker around
  | some src =>
    if elementCount ≤ 0 ∨ elementSize ≤ 0 then writeEmptyMarker around
    else do
      let totalBytes := elementCount.toInt.toNat * elementSize.toInt.toNat
      let dwordCount := alignDword totalBytes / 4
      ensureDataCapacity around (2 + dwordCount)
      appendWords [UInt32.ofNat totalBytes,elementCount.toUInt32]
      let source ← Action.lift (sourceBytes src totalBytes)
      copyToSpare (swap16BitWords source)
      raiseSize dwordCount

end Arrays

end Libnmo.Format

/-! The calls that a writer takes between its start and its `finalize`, and the runs of
such calls. Each call comes with the memory that an arena would give it. A run goes on
after an error that a call reports, and ends with an access outside a buffer. -/
namespace Libnmo.Format
open Core Lib

/-- The caller fills the dwords that the pointer is to, all of them. -/
def writerLockWriteBuffer (around : Surroundings) (words : List UInt32) : Run ChunkWriter Unit := writerPut around words

inductive WriterCall
  | setFileContext (ctx : Option ChunkFileContext)
  | byte (value : UInt8)
  | word (value : UInt16)
  | dword (value : UInt32)
  | int (value : Int32)
  | float (bits : UInt32)
  | guid (value : Guid)
  | floats (bits : List UInt32)
  | dwordAsWords (value : UInt32)
  | arrayDwordAsWords (values : Option (List UInt32)) (count : Nat)
  | bytes (data : Option (List UInt8)) (size : Nat)
  | string (str : Option (List UInt8))
  | buffer (data : Option (List UInt8)) (size : Nat)
  | bufferNosize (size : Nat) (data : Option (List UInt8))
  | bufferNosizeLendian16 (valueCount : Nat) (data : Option (List UInt16))
  | bufferLendian16 (size : Nat) (data : Option (List UInt8))
  | lockWriteBuffer (words : List UInt32)
  | arrayLendian (elementCount elementSize : Int32) (src : Option (List UInt8))
  | arrayLendian16 (elementCount elementSize : Int32) (src : Option (List UInt8))
  | objectId (id : UInt32)
  | startObjectSequence (count : Nat)
  | managerInt (manager : Guid) (value : Int32)
  | startManagerSequence (manager : Guid) (count : Nat)
  | startSubchunkSequence (count : Nat)
  | subchunk (sub : Option Chunk)
  | identifier (identifier : UInt32)

namespace WriterCall

def perform (around : Surroundings) : WriterCall → Run ChunkWriter Unit
  | setFileContext ctx => Action.update (writerSetFileContext ctx)
  | byte value => writerWriteByte around value
  | word value => writerWriteWord around value
  | dword value => writerWriteDword around value
  | int value => writerWriteInt around value
  | float bits => writerWriteFloat around bits
  | guid value => writerWriteGuid around value
  | floats bits => writerWriteFloats around bits
  | dwordAsWords value => writerWriteDwordAsWords around value
  | arrayDwordAsWords values count => writerWriteArrayDwordAsWords around values count
  | bytes data size => writerWriteBytes around data size
  | string str => writerWriteString around str
  | buffer data size => writerWriteBuffer around data size
  | bufferNosize size data => writerWriteBufferNosize around size data
  | bufferNosizeLendian16 valueCount data => writerWriteBufferNosizeLendian16 around valueCount data
  | bufferLendian16 size data => writerWriteBufferLendian16 around size data
  | lockWriteBuffer words => writerLockWriteBuffer around words
  | arrayLendian elementCount elementSize src => writerWriteArrayLendian around elementCount elementSize src
  | arrayLendian16 elementCount elementSize src => writerWriteArrayLendian16 around elementCount elementSize src
  | objectId id => writerWriteObjectId around id
  | startObjectSequence count => writerStartObjectSequence around count
  | managerInt manager value => writerWriteManagerInt around manager value
  | startManagerSequence manager count => writerStartManagerSequence around manager count
  | startSubchunkSequence count => writerStartSubchunkSequence around count
  | subchunk sub => writerWriteSubchunk around sub
  | identifier id => writerWriteIdentifier around id

end WriterCall

/-- The writer after the calls, if each of them came back. -/
def writerRun : List (Surroundings × WriterCall) → ChunkWriter → Option ChunkWriter
  | [],w => some w
  | (around,call) :: rest,w => match (call.perform around).run w with
    | (.ok (),w') | (.error (.error _ _),w') => writerRun rest w'
    | (.error _,_) => none

theorem writerRun_cons {around : Surroundings} {call : WriterCall} {rest : List (Surroundings × WriterCall)}
    {w last : ChunkWriter} (ran : writerRun ((around,call) :: rest) w = some last) :
    (∀ e : Stop, ((call.perform around).run w).1 = .error e → ∃ code message, e = .error code message) ∧
      writerRun rest ((call.perform around).run w).2 = some last := by
  rw [writerRun] at ran
  split at ran
  · rename_i w' same
    rw [same]
    exact ⟨nofun,ran⟩
  · rename_i code message w' same
    rw [same]
    refine ⟨?_,ran⟩
    rintro _ ⟨⟩
    exact ⟨code,message,rfl⟩
  · simp at ran

end Libnmo.Format
