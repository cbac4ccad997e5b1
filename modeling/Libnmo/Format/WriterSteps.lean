import Libnmo.Format.WriterWrites

/-! What the calls of a writer do to its data. All but the one for identifiers append
words and change fields besides; a property that both keep holds after each of them. -/
namespace Libnmo.Format
open Core Lib Lib.Action Lib.LittleEndian

/-- A property of the data behind which a call may append, whatever it does to the other fields. -/
structure Lasting (inv : ChunkWriter → Prop) : Prop where
  aside : ∀ w chunk ctx spare ids managers refs subs, inv w → inv { w with
    chunk := chunk, fileContext := ctx, spare := spare, idList := ids, managerList := managers
    chunkRefList := refs, chunkList := subs }
  longer : ∀ w words, inv w → inv { w with data := w.data ++ words }

namespace Lasting
variable {inv : ChunkWriter → Prop} (lasting : Lasting inv) {around : Surroundings}
include lasting

theorem opened : Keeps inv requireOpen := by
  intro w held
  rw [requireOpen]
  dsimp only
  split
  · exact held
  · exact held

theorem room (needed : Nat) : Keeps inv (ensureDataCapacity around needed) := by
  refine keeps_update _ fun w held => ?_
  split
  · exact held
  · exact lasting.aside w w.chunk w.fileContext _ w.idList w.managerList w.chunkRefList w.chunkList held

theorem append (words : List UInt32) : Keeps inv (appendWords words) := by
  intro w held
  rw [appendWords]
  dsimp only
  split
  · have more := lasting.longer w words held
    exact lasting.aside _ w.chunk w.fileContext _ w.idList w.managerList w.chunkRefList w.chunkList more
  · exact held

theorem clear (dwords : Nat) : Keeps inv (clearSpare dwords) := by
  intro w held
  rw [clearSpare]
  dsimp only
  split
  · exact lasting.aside w w.chunk w.fileContext _ w.idList w.managerList w.chunkRefList w.chunkList held
  · exact held

theorem copy (source : List UInt8) : Keeps inv (copyToSpare source) := by
  intro w held
  rw [copyToSpare]
  dsimp only
  split
  · exact lasting.aside w w.chunk w.fileContext _ w.idList w.managerList w.chunkRefList w.chunkList held
  · exact held

theorem raise (dwords : Nat) : Keeps inv (raiseSize dwords) := by
  intro w held
  rw [raiseSize]
  dsimp only
  split
  · have more := lasting.longer w (w.spare.take dwords) held
    exact lasting.aside _ w.chunk w.fileContext _ w.idList w.managerList w.chunkRefList w.chunkList more
  · exact held

theorem option (option : UInt32) : Keeps inv (writerSetOption option) :=
  keeps_update _ fun w held =>
    lasting.aside w _ w.fileContext w.spare w.idList w.managerList w.chunkRefList w.chunkList held

theorem cleared (source : List UInt8) (dwords : Nat) : Keeps inv (storeCleared around source dwords) :=
  keeps_bind (lasting.room dwords) fun _ => keeps_bind (lasting.clear dwords) fun _ =>
    keeps_bind (lasting.copy source) fun _ => lasting.raise dwords

theorem put (words : List UInt32) : Keeps inv (writerPut around words) :=
  keeps_bind lasting.opened fun _ => keeps_bind (lasting.room _) fun _ => lasting.append words

theorem bytes (data : Option (List UInt8)) (size : Nat) : Keeps inv (writerWriteBytes around data size) := by
  refine keeps_bind lasting.opened fun _ => ?_
  split
  · exact keeps_pure _
  · cases data with
    | none => exact keeps_stop _
    | some data => exact keeps_bind (keeps_lift _) fun source => lasting.cleared source _

theorem bufferNosize (size : Nat) (data : Option (List UInt8)) :
    Keeps inv (writerWriteBufferNosize around size data) := by
  refine keeps_bind lasting.opened fun _ => ?_
  cases data with
  | none => exact keeps_pure _
  | some data =>
    dsimp only
    split
    · exact keeps_pure _
    · exact keeps_bind (keeps_lift _) fun source => lasting.cleared source _

theorem string (str : Option (List UInt8)) : Keeps inv (writerWriteString around str) := by
  refine keeps_bind lasting.opened fun _ => keeps_bind (lasting.put _) fun _ => ?_
  split
  · exact lasting.bytes _ _
  · exact keeps_pure _

theorem buffer (data : Option (List UInt8)) (size : Nat) : Keeps inv (writerWriteBuffer around data size) := by
  refine keeps_bind lasting.opened fun _ => keeps_bind (lasting.put _) fun _ => ?_
  split
  · exact lasting.bytes _ _
  · exact keeps_pure _

theorem bufferLendian16 (size : Nat) (data : Option (List UInt8)) :
    Keeps inv (writerWriteBufferLendian16 around size data) := by
  refine keeps_bind lasting.opened fun _ => ?_
  cases data with
  | none => exact keeps_stop _
  | some data =>
    dsimp only
    split
    · exact keeps_pure _
    · exact keeps_bind (keeps_lift _) fun source => lasting.cleared _ _

theorem arrayDwordAsWords (values : Option (List UInt32)) (count : Nat) :
    Keeps inv (writerWriteArrayDwordAsWords around values count) := by
  refine keeps_bind lasting.opened fun _ => ?_
  split
  · exact keeps_pure _
  · cases values with
    | none => exact keeps_stop _
    | some values =>
      dsimp only
      split
      · exact keeps_stop _
      · refine keeps_bind ?_ fun _ => keeps_bind (lasting.room _) fun _ => lasting.append _
        split
        · exact keeps_stop _
        · exact keeps_pure _

theorem wordsEach (values : List UInt16) : Keeps inv (writeWordsEach around values) := by
  induction values with
  | nil => exact keeps_pure _
  | cons value rest ih => exact keeps_bind (lasting.put _) fun _ => ih

theorem bufferNosizeLendian16 (valueCount : Nat) (data : Option (List UInt16)) :
    Keeps inv (writerWriteBufferNosizeLendian16 around valueCount data) := by
  refine keeps_bind lasting.opened fun _ => ?_
  cases data with
  | none => exact keeps_pure _
  | some values =>
    refine keeps_bind (lasting.wordsEach _) fun _ => ?_
    split
    · exact keeps_stop _
    · exact keeps_pure _

theorem emptyMarker : Keeps inv (writeEmptyMarker around) :=
  keeps_bind (lasting.room 2) fun _ => lasting.append _

theorem copied (source : Result (List UInt8)) (change : List UInt8 → List UInt8) (words : List UInt32) (dwords : Nat) :
    Keeps inv (ensureDataCapacity around (2 + dwords) >>= fun _ => appendWords words >>= fun _ =>
      Action.lift source >>= fun source => copyToSpare (change source) >>= fun _ => raiseSize dwords) := by
  refine keeps_bind (lasting.room _) fun _ => keeps_bind (lasting.append _) fun _ => ?_
  exact keeps_bind (keeps_lift _) fun source => keeps_bind (lasting.copy _) fun _ => lasting.raise _

theorem arrayLendian (elementCount elementSize : Int32) (src : Option (List UInt8)) :
    Keeps inv (writerWriteArrayLendian around elementCount elementSize src) := by
  refine keeps_bind lasting.opened fun _ => ?_
  cases src with
  | none => exact lasting.emptyMarker
  | some src =>
    dsimp only
    split
    · exact lasting.emptyMarker
    split
    · exact lasting.emptyMarker
    split
    · exact lasting.emptyMarker
    · exact lasting.copied _ id _ _

theorem arrayLendian16 (elementCount elementSize : Int32) (src : Option (List UInt8)) :
    Keeps inv (writerWriteArrayLendian16 around elementCount elementSize src) := by
  refine keeps_bind lasting.opened fun _ => ?_
  cases src with
  | none => exact lasting.emptyMarker
  | some src =>
    dsimp only
    split
    · exact lasting.emptyMarker
    · exact lasting.copied _ swap16BitWords _ _

theorem objectId (id : UInt32) : Keeps inv (writerWriteObjectId around id) := by
  refine keeps_bind lasting.opened fun _ => keeps_bind (lasting.room 1) fun _ => ?_
  refine keeps_bind (lasting.option _) fun _ => keeps_bind (keeps_read _) fun w => ?_
  refine keeps_bind ?_ fun _ => keeps_bind (keeps_lift _) fun _ => lasting.append _
  split
  · exact keeps_update _ fun w held =>
      lasting.aside w w.chunk w.fileContext w.spare _ w.managerList w.chunkRefList w.chunkList held
  · exact keeps_pure _

theorem objectSequence (count : Nat) : Keeps inv (writerStartObjectSequence around count) := by
  refine keeps_bind lasting.opened fun _ => keeps_bind (lasting.option _) fun _ => ?_
  refine keeps_bind (lasting.room 1) fun _ => keeps_bind (keeps_read _) fun w => ?_
  refine keeps_bind ?_ fun _ => lasting.append _
  split
  · exact keeps_update _ fun w held =>
      lasting.aside w w.chunk w.fileContext w.spare _ w.managerList w.chunkRefList w.chunkList held
  · exact keeps_pure _

theorem manager (change : ChunkWriter → List UInt32) (words : List UInt32) :
    Keeps inv (requireOpen >>= fun _ => writerSetOption optionMan >>= fun _ => ensureDataCapacity around 3 >>= fun _ =>
      Action.update (fun w => { w with managerList := change w }) >>= fun _ => appendWords words) := by
  refine keeps_bind lasting.opened fun _ => keeps_bind (lasting.option _) fun _ => keeps_bind (lasting.room 3) fun _ => ?_
  refine keeps_bind (keeps_update _ fun w held => ?_) fun _ => lasting.append words
  exact lasting.aside w w.chunk w.fileContext w.spare w.idList _ w.chunkRefList w.chunkList held

theorem subchunkSequence (count : Nat) : Keeps inv (writerStartSubchunkSequence around count) := by
  refine keeps_bind lasting.opened fun _ => keeps_bind (lasting.option _) fun _ => keeps_bind (lasting.room 1) fun _ => ?_
  refine keeps_bind (keeps_update _ fun w held => ?_) fun _ => lasting.append _
  exact lasting.aside w w.chunk w.fileContext w.spare w.idList w.managerList _ w.chunkList held

theorem subchunk (sub : Option Chunk) : Keeps inv (writerWriteSubchunk around sub) := by
  refine keeps_bind lasting.opened fun _ => keeps_bind (lasting.option _) fun _ => ?_
  cases sub with
  | none => exact keeps_bind (lasting.room 1) fun _ => lasting.append _
  | some sub =>
    refine keeps_bind (keeps_update _ fun w held => ?_) fun _ => ?_
    · exact lasting.aside w w.chunk w.fileContext w.spare w.idList w.managerList w.chunkRefList _ held
    refine keeps_bind (lasting.room _) fun _ => keeps_bind (lasting.append _) fun _ => ?_
    refine keeps_bind (keeps_update _ fun w held => ?_) fun _ => lasting.append _
    exact lasting.aside w w.chunk w.fileContext w.spare w.idList w.managerList _ w.chunkList held

theorem context (ctx : Option ChunkFileContext) : Keeps inv (Action.update (writerSetFileContext ctx) : Run ChunkWriter Unit) :=
  keeps_update _ fun w held => lasting.aside w _ _ w.spare w.idList w.managerList w.chunkRefList w.chunkList held

theorem call {call : WriterCall} (unlinked : ∀ id, call ≠ .identifier id) : Keeps inv (call.perform around) := by
  cases call with
  | setFileContext ctx => exact lasting.context ctx
  | byte value => exact lasting.put _
  | word value => exact lasting.put _
  | dword value => exact lasting.put _
  | int value => exact lasting.put _
  | float bits => exact lasting.put _
  | guid value => exact lasting.put _
  | floats bits => exact lasting.put _
  | dwordAsWords value =>
    exact keeps_bind lasting.opened fun _ => keeps_bind (lasting.put _) fun _ => lasting.put _
  | arrayDwordAsWords values count => exact lasting.arrayDwordAsWords _ _
  | bytes data size => exact lasting.bytes _ _
  | string str => exact lasting.string _
  | buffer data size => exact lasting.buffer _ _
  | bufferNosize size data => exact lasting.bufferNosize _ _
  | bufferNosizeLendian16 valueCount data => exact lasting.bufferNosizeLendian16 _ _
  | bufferLendian16 size data => exact lasting.bufferLendian16 _ _
  | lockWriteBuffer words => exact lasting.put _
  | arrayLendian elementCount elementSize src => exact lasting.arrayLendian _ _ _
  | arrayLendian16 elementCount elementSize src => exact lasting.arrayLendian16 _ _ _
  | objectId id => exact lasting.objectId _
  | startObjectSequence count => exact lasting.objectSequence _
  | managerInt manager value => exact lasting.manager _ _
  | startManagerSequence manager count => exact lasting.manager _ _
  | startSubchunkSequence count => exact lasting.subchunkSequence _
  | subchunk sub => exact lasting.subchunk _
  | identifier id => exact absurd rfl (unlinked id)

end Lasting

end Libnmo.Format
