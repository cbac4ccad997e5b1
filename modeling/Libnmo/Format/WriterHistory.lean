import Libnmo.Format.WriterWrites
import Libnmo.Lib.Abreast

/-! What a writer keeps from before its start is the room behind its data. Calls that
store every byte of the dwords they take cannot tell one room from another; the two
writes of arrays leave the bytes behind the last element as they were. -/
namespace Libnmo.Format
open Core Lib Lib.Action Lib.LittleEndian Lib.Patch

/-- Two writers that differ in the room behind their data only. -/
def SameWork (w w' : ChunkWriter) : Prop := ∃ room, w' = { w with spare := room }

/-- An access outside a buffer, or no end at all. -/
def Unreturned (e : Stop) : Prop := ∀ code message, e ≠ .error code message

section Copies

/-- Copied bytes fill the words, or what they leave over is the same in both memories. -/
theorem take_copiedOver {memory memory' : List UInt32} {bytes : List UInt8} {dwords : Nat}
    (room : bytes.length ≤ 4 * memory.length) (room' : bytes.length ≤ 4 * memory'.length)
    (same : 4 * dwords ≤ bytes.length ∨ memory.take dwords = memory'.take dwords) :
    (copiedOver memory bytes).take dwords = (copiedOver memory' bytes).take dwords := by
  have front {memory : List UInt32} (room : bytes.length ≤ 4 * memory.length) :
      encodeWords ((copiedOver memory bytes).take dwords) =
        bytes.take (4 * dwords) ++ (encodeWords (memory.take dwords)).drop bytes.length := by
    have whole : (overwrite (encodeWords memory) 0 bytes).length % 4 = 0 := by
      rw [length_overwrite _ _ _ (by rw [length_encodeWords]; omega),length_encodeWords]
      omega
    rw [encodeWords_take,copiedOver,encodeWords_decodeWords _ whole,overwrite,List.take_zero,List.nil_append,
      Nat.zero_add,List.take_append,encodeWords_take,List.drop_take]
  have bytesSame : encodeWords ((copiedOver memory bytes).take dwords) =
      encodeWords ((copiedOver memory' bytes).take dwords) := by
    rw [front room,front room']
    rcases same with filled | equal
    · have past (memory : List UInt32) : (encodeWords (memory.take dwords)).drop bytes.length = [] := by
        rw [List.drop_eq_nil_iff,length_encodeWords,List.length_take]
        omega
      rw [past,past]
    · rw [equal]
  rw [← decodeWords_encodeWords ((copiedOver memory bytes).take dwords),bytesSame,decodeWords_encodeWords]

end Copies

section Steps
variable {around around' : Surroundings}

/-- Both calls do the same, unless one of them does not come back. -/
def Indifferent (left right : Run ChunkWriter Unit) : Prop := Abreast Unreturned SameWork left right

theorem indifferent_open : Indifferent requireOpen requireOpen := by
  rintro w _ ⟨room,rfl⟩
  refine .inr (.inr ?_)
  by_cases done : w.finalized
  · simp only [requireOpen,if_pos done]
    exact ⟨trivial,room,rfl⟩
  · simp only [requireOpen,if_neg done]
    exact ⟨trivial,room,rfl⟩

theorem indifferent_room (needed : Nat) :
    Indifferent (ensureDataCapacity around needed) (ensureDataCapacity around' needed) := by
  refine abreast_update ?_
  rintro w _ ⟨room,rfl⟩
  split
  · split
    · exact ⟨room,rfl⟩
    · exact ⟨_,rfl⟩
  · split
    · exact ⟨room,rfl⟩
    · exact ⟨_,rfl⟩

theorem unreturned_overwrite (index : Nat) : Unreturned (.overwrite index) := nofun

theorem unreturned_overread (index : Nat) : Unreturned (.overread index) := nofun

theorem indifferent_append (words : List UInt32) : Indifferent (appendWords words) (appendWords words) := by
  rintro w _ ⟨room,rfl⟩
  by_cases fits : words.length ≤ w.spare.length
  · by_cases fits' : words.length ≤ room.length
    · refine .inr (.inr ?_)
      simp only [appendWords,if_pos fits,if_pos fits']
      exact ⟨trivial,_,rfl⟩
    · refine .inr (.inl ⟨.overwrite (w.data.length + room.length),unreturned_overwrite _,?_⟩)
      simp only [appendWords,if_neg fits']
  · refine .inl ⟨.overwrite (w.data.length + w.spare.length),unreturned_overwrite _,?_⟩
    simp only [appendWords,if_neg fits]

/-- Bytes behind the data come out the same if they fill their dwords, or the rooms agree there. -/
theorem abreast_stored {source : List UInt8} {dwords : Nat} {w : ChunkWriter} {room : List UInt32}
    (same : 4 * dwords ≤ source.length ∨ w.spare.take dwords = room.take dwords) :
    let store := copyToSpare source >>= fun _ => raiseSize dwords
    Excused Unreturned (store.run w).1 ∨ Excused Unreturned (store.run { w with spare := room }).1 ∨
      (store.run w).1 = (store.run { w with spare := room }).1 ∧
        SameWork (store.run w).2 (store.run { w with spare := room }).2 := by
  intro store
  have ran (w : ChunkWriter) : Excused Unreturned (store.run w).1 ∨ source.length ≤ 4 * w.spare.length ∧
      store.run w = (.ok (),{ w with
        data := w.data ++ (copiedOver w.spare source).take dwords
        spare := (copiedOver w.spare source).drop dwords }) := by
    by_cases fits : source.length ≤ 4 * w.spare.length
    · have copied : (copyToSpare source).run w = (.ok (),{ w with spare := copiedOver w.spare source }) := by
        simp only [copyToSpare,if_pos fits]
      by_cases raised : dwords ≤ (copiedOver w.spare source).length
      · refine .inr ⟨fits,?_⟩
        rw [bind_ok _ copied]
        simp only [raiseSize,if_pos raised]
      · refine .inl ⟨.overread (w.data.length + (copiedOver w.spare source).length),unreturned_overread _,?_⟩
        rw [bind_ok _ copied]
        simp only [raiseSize,if_neg raised]
    · refine .inl (excused_bind ⟨.overwrite (w.data.length + w.spare.length),unreturned_overwrite _,?_⟩)
      simp only [copyToSpare,if_neg fits]
  rcases ran w with early | ⟨fits,stored⟩
  · exact .inl early
  · rcases ran { w with spare := room } with early | ⟨fits',stored'⟩
    · exact .inr (.inl early)
    · refine .inr (.inr ?_)
      rw [stored,stored']
      refine ⟨rfl,(copiedOver room source).drop dwords,?_⟩
      dsimp only at fits' ⊢
      rw [take_copiedOver fits fits' same]

theorem indifferent_filled {source : List UInt8} {dwords : Nat} (filled : 4 * dwords ≤ source.length) :
    Indifferent (copyToSpare source >>= fun _ => raiseSize dwords) (copyToSpare source >>= fun _ => raiseSize dwords) := by
  rintro w _ ⟨room,rfl⟩
  exact abreast_stored (.inl filled)

theorem indifferent_cleared (source : List UInt8) (dwords : Nat) :
    Indifferent (storeCleared around source dwords) (storeCleared around' source dwords) := by
  refine abreast_bind (indifferent_room dwords) ?_
  rintro _ w _ ⟨room,rfl⟩
  have cleared (w : ChunkWriter) : Excused Unreturned ((clearSpare dwords).run w).1 ∨ (clearSpare dwords).run w =
      (.ok (),{ w with spare := List.replicate dwords 0 ++ w.spare.drop dwords }) := by
    by_cases fits : dwords ≤ w.spare.length
    · right
      simp only [clearSpare,if_pos fits]
    · refine .inl ⟨.overwrite (w.data.length + w.spare.length),unreturned_overwrite _,?_⟩
      simp only [clearSpare,if_neg fits]
  rcases cleared w with early | done
  · exact .inl (excused_bind early)
  rcases cleared { w with spare := room } with early | done'
  · exact .inr (.inl (excused_bind early))
  rw [bind_ok _ done,bind_ok _ done']
  refine abreast_stored (w := { w with spare := List.replicate dwords 0 ++ w.spare.drop dwords }) (.inr ?_)
  rw [List.take_left' (List.length_replicate ..),List.take_left' (List.length_replicate ..)]

theorem indifferent_put (words : List UInt32) : Indifferent (writerPut around words) (writerPut around' words) :=
  abreast_bind indifferent_open fun _ => abreast_bind (indifferent_room _) fun _ => indifferent_append words

theorem indifferent_update {change : ChunkWriter → ChunkWriter}
    (roomless : ∀ w room, change { w with spare := room } = { change w with spare := room }) :
    Indifferent (Action.update change) (Action.update change) := by
  refine abreast_update ?_
  rintro w _ ⟨room,rfl⟩
  exact ⟨room,roomless w room⟩

end Steps

section Calls
variable {around around' : Surroundings}

theorem indifferent_bytes (data : Option (List UInt8)) (bytes : Nat) :
    Indifferent (writerWriteBytes around data bytes) (writerWriteBytes around' data bytes) := by
  refine abreast_bind indifferent_open fun _ => ?_
  split
  · exact abreast_pure _
  · cases data with
    | none => exact abreast_stop _
    | some data => exact abreast_bind (abreast_lift _) fun source => indifferent_cleared source _

theorem indifferent_bufferNosize (bytes : Nat) (data : Option (List UInt8)) :
    Indifferent (writerWriteBufferNosize around bytes data) (writerWriteBufferNosize around' bytes data) := by
  refine abreast_bind indifferent_open fun _ => ?_
  cases data with
  | none => exact abreast_pure _
  | some data =>
    dsimp only
    split
    · exact abreast_pure _
    · exact abreast_bind (abreast_lift _) fun source => indifferent_cleared source _

theorem indifferent_string (str : Option (List UInt8)) :
    Indifferent (writerWriteString around str) (writerWriteString around' str) := by
  refine abreast_bind indifferent_open fun _ => ?_
  refine abreast_bind (indifferent_put _) fun _ => ?_
  split
  · exact indifferent_bytes _ _
  · exact abreast_pure _

theorem indifferent_buffer (data : Option (List UInt8)) (size : Nat) :
    Indifferent (writerWriteBuffer around data size) (writerWriteBuffer around' data size) := by
  refine abreast_bind indifferent_open fun _ => ?_
  refine abreast_bind (indifferent_put _) fun _ => ?_
  split
  · exact indifferent_bytes _ _
  · exact abreast_pure _

theorem indifferent_bufferLendian16 (bytes : Nat) (data : Option (List UInt8)) :
    Indifferent (writerWriteBufferLendian16 around bytes data) (writerWriteBufferLendian16 around' bytes data) := by
  refine abreast_bind indifferent_open fun _ => ?_
  cases data with
  | none => exact abreast_stop _
  | some data =>
    dsimp only
    split
    · exact abreast_pure _
    · exact abreast_bind (abreast_lift _) fun source => indifferent_cleared _ _

theorem indifferent_dwordAsWords (value : UInt32) :
    Indifferent (writerWriteDwordAsWords around value) (writerWriteDwordAsWords around' value) :=
  abreast_bind indifferent_open fun _ => abreast_bind (indifferent_put _) fun _ => indifferent_put _

theorem indifferent_arrayDwordAsWords (values : Option (List UInt32)) (count : Nat) :
    Indifferent (writerWriteArrayDwordAsWords around values count) (writerWriteArrayDwordAsWords around' values count) := by
  refine abreast_bind indifferent_open fun _ => ?_
  split
  · exact abreast_pure _
  · cases values with
    | none => exact abreast_stop _
    | some values =>
      dsimp only
      split
      · exact abreast_stop _
      · refine abreast_bind ?_ fun _ => abreast_bind (indifferent_room _) fun _ => indifferent_append _
        split
        · exact abreast_stop _
        · exact abreast_pure _

theorem indifferent_wordsEach (values : List UInt16) :
    Indifferent (writeWordsEach around values) (writeWordsEach around' values) := by
  induction values with
  | nil => exact abreast_pure _
  | cons value rest ih => exact abreast_bind (indifferent_put _) fun _ => ih

theorem indifferent_bufferNosizeLendian16 (valueCount : Nat) (data : Option (List UInt16)) :
    Indifferent (writerWriteBufferNosizeLendian16 around valueCount data)
      (writerWriteBufferNosizeLendian16 around' valueCount data) := by
  refine abreast_bind indifferent_open fun _ => ?_
  cases data with
  | none => exact abreast_pure _
  | some values =>
    refine abreast_bind (indifferent_wordsEach _) fun _ => ?_
    split
    · exact abreast_stop _
    · exact abreast_pure _

theorem indifferent_objectId (id : UInt32) :
    Indifferent (writerWriteObjectId around id) (writerWriteObjectId around' id) := by
  refine abreast_bind indifferent_open fun _ => ?_
  refine abreast_bind (indifferent_room 1) fun _ => ?_
  refine abreast_bind (indifferent_update fun _ _ => rfl) fun _ => ?_
  refine abreast_read ?_
  rintro w _ ⟨room,rfl⟩
  refine abreast_bind ?_ fun _ => abreast_bind (abreast_lift (encodeObjectId w id)) fun _ => indifferent_append _
  change Indifferent (if id ≠ 0 ∧ w.runtimeToFile.isNone then trackIdPosition else pure ())
    (if id ≠ 0 ∧ w.runtimeToFile.isNone then trackIdPosition else pure ())
  split
  · exact indifferent_update fun _ _ => rfl
  · exact abreast_pure _

theorem indifferent_objectSequence (count : Nat) :
    Indifferent (writerStartObjectSequence around count) (writerStartObjectSequence around' count) := by
  refine abreast_bind indifferent_open fun _ => ?_
  refine abreast_bind (indifferent_update fun _ _ => rfl) fun _ => ?_
  refine abreast_bind (indifferent_room 1) fun _ => ?_
  refine abreast_read ?_
  rintro w _ ⟨room,rfl⟩
  refine abreast_bind ?_ fun _ => indifferent_append _
  change Indifferent (if 0 < count ∧ w.runtimeToFile.isNone then trackIdSequenceStart else pure ())
    (if 0 < count ∧ w.runtimeToFile.isNone then trackIdSequenceStart else pure ())
  split
  · exact indifferent_update fun _ _ => rfl
  · exact abreast_pure _

/-- A position is tracked before its words are appended. -/
theorem indifferent_tracked {track : ChunkWriter → ChunkWriter} (option : UInt32) (needed : Nat) (words : List UInt32)
    (roomless : ∀ w room, track { w with spare := room } = { track w with spare := room }) :
    Indifferent
      (requireOpen >>= fun _ => writerSetOption option >>= fun _ => ensureDataCapacity around needed >>= fun _ =>
        Action.update track >>= fun _ => appendWords words)
      (requireOpen >>= fun _ => writerSetOption option >>= fun _ => ensureDataCapacity around' needed >>= fun _ =>
        Action.update track >>= fun _ => appendWords words) := by
  refine abreast_bind indifferent_open fun _ => ?_
  refine abreast_bind (indifferent_update fun _ _ => rfl) fun _ => ?_
  refine abreast_bind (indifferent_room needed) fun _ => ?_
  exact abreast_bind (indifferent_update roomless) fun _ => indifferent_append words

theorem indifferent_subchunk (sub : Option Chunk) :
    Indifferent (writerWriteSubchunk around sub) (writerWriteSubchunk around' sub) := by
  refine abreast_bind indifferent_open fun _ => ?_
  refine abreast_bind (indifferent_update fun _ _ => rfl) fun _ => ?_
  cases sub with
  | none => exact abreast_bind (indifferent_room 1) fun _ => indifferent_append _
  | some sub =>
    refine abreast_bind (indifferent_update fun _ _ => rfl) fun _ => ?_
    refine abreast_bind (indifferent_room _) fun _ => ?_
    refine abreast_bind (indifferent_append _) fun _ => ?_
    exact abreast_bind (indifferent_update fun _ _ => rfl) fun _ => indifferent_append _

theorem indifferent_identifier (identifier : UInt32) :
    Indifferent (writerWriteIdentifier around identifier) (writerWriteIdentifier around' identifier) := by
  refine abreast_bind indifferent_open fun _ => ?_
  refine abreast_bind (indifferent_room 2) fun _ => ?_
  exact abreast_bind (indifferent_update fun _ _ => rfl) fun _ => indifferent_append _

theorem sourceBytes_length {data source : List UInt8} {size : Nat} (found : sourceBytes data size = .ok source) :
    source.length = size := by
  rw [sourceBytes] at found
  split at found
  · rename_i inside
    cases found
    rw [List.length_take,Nat.min_eq_left inside]
  · cases found

/-- The bytes of its last dword are not all written by the call. -/
def WriterCall.LeavesPadding : WriterCall → Prop
  | arrayLendian elementCount elementSize (some _) =>
    let totalBytes := elementSize.toInt.toNat * elementCount.toInt.toNat
    0 < elementCount ∧ 0 < elementSize ∧ totalBytes ≤ 2 ^ 31 - 1 ∧ totalBytes < 4 * ((totalBytes + 3) / 4)
  | arrayLendian16 elementCount elementSize (some _) =>
    let totalBytes := elementCount.toInt.toNat * elementSize.toInt.toNat
    0 < elementCount ∧ 0 < elementSize ∧ totalBytes < 4 * (alignDword totalBytes / 4)
  | _ => False

theorem indifferent_emptyMarker : Indifferent (writeEmptyMarker around) (writeEmptyMarker around') :=
  abreast_bind (indifferent_room 2) fun _ => indifferent_append _

theorem indifferent_arrayLendian {elementCount elementSize : Int32} {src : Option (List UInt8)}
    (filled : ¬ (WriterCall.arrayLendian elementCount elementSize src).LeavesPadding) :
    Indifferent (writerWriteArrayLendian around elementCount elementSize src)
      (writerWriteArrayLendian around' elementCount elementSize src) := by
  refine abreast_bind indifferent_open fun _ => ?_
  cases src with
  | none => exact indifferent_emptyMarker
  | some src =>
    dsimp only
    split
    · exact indifferent_emptyMarker
    rename_i positive
    split
    · exact indifferent_emptyMarker
    split
    · exact indifferent_emptyMarker
    rename_i small
    refine abreast_bind (indifferent_room _) fun _ => ?_
    refine abreast_bind (indifferent_append _) fun _ => ?_
    refine abreast_result fun source found => indifferent_filled ?_
    rw [sourceBytes_length found]
    rw [not_or,Int32.not_le,Int32.not_le] at positive
    by_contra short
    exact filled ⟨positive.1,positive.2,Nat.not_lt.mp small,Nat.not_le.mp short⟩

theorem indifferent_arrayLendian16 {elementCount elementSize : Int32} {src : Option (List UInt8)}
    (filled : ¬ (WriterCall.arrayLendian16 elementCount elementSize src).LeavesPadding) :
    Indifferent (writerWriteArrayLendian16 around elementCount elementSize src)
      (writerWriteArrayLendian16 around' elementCount elementSize src) := by
  refine abreast_bind indifferent_open fun _ => ?_
  cases src with
  | none => exact indifferent_emptyMarker
  | some src =>
    dsimp only
    split
    · exact indifferent_emptyMarker
    rename_i positive
    refine abreast_bind (indifferent_room _) fun _ => ?_
    refine abreast_bind (indifferent_append _) fun _ => ?_
    refine abreast_result fun source found => indifferent_filled ?_
    rw [length_swap16BitWords,sourceBytes_length found]
    rw [not_or,Int32.not_le,Int32.not_le] at positive
    by_contra short
    exact filled ⟨positive.1,positive.2,Nat.not_le.mp short⟩

theorem indifferent_call {call : WriterCall} (filled : ¬ call.LeavesPadding) :
    Indifferent (call.perform around) (call.perform around') := by
  cases call with
  | setFileContext ctx => exact indifferent_update fun _ _ => rfl
  | byte value => exact indifferent_put _
  | word value => exact indifferent_put _
  | dword value => exact indifferent_put _
  | int value => exact indifferent_put _
  | float bits => exact indifferent_put _
  | guid value => exact indifferent_put _
  | floats bits => exact indifferent_put _
  | dwordAsWords value => exact indifferent_dwordAsWords _
  | arrayDwordAsWords values count => exact indifferent_arrayDwordAsWords _ _
  | bytes data size => exact indifferent_bytes _ _
  | string str => exact indifferent_string _
  | buffer data size => exact indifferent_buffer _ _
  | bufferNosize size data => exact indifferent_bufferNosize _ _
  | bufferNosizeLendian16 valueCount data => exact indifferent_bufferNosizeLendian16 _ _
  | bufferLendian16 size data => exact indifferent_bufferLendian16 _ _
  | lockWriteBuffer words => exact indifferent_put _
  | arrayLendian elementCount elementSize src => exact indifferent_arrayLendian filled
  | arrayLendian16 elementCount elementSize src => exact indifferent_arrayLendian16 filled
  | objectId id => exact indifferent_objectId _
  | startObjectSequence count => exact indifferent_objectSequence _
  | managerInt manager value => exact indifferent_tracked _ _ _ fun _ _ => rfl
  | startManagerSequence manager count => exact indifferent_tracked _ _ _ fun _ _ => rfl
  | startSubchunkSequence count => exact indifferent_tracked _ _ _ fun _ _ => rfl
  | subchunk sub => exact indifferent_subchunk _
  | identifier id => exact indifferent_identifier _

end Calls

section Sessions

theorem sameWork_run {run run' : List (Surroundings × WriterCall)} {w w' last last' : ChunkWriter}
    (held : SameWork w w') (sameCalls : run.map Prod.snd = run'.map Prod.snd)
    (filled : ∀ call ∈ run.map Prod.snd, ¬ call.LeavesPadding)
    (ran : writerRun run w = some last) (ran' : writerRun run' w' = some last') : SameWork last last' := by
  induction run generalizing run' w w' with
  | nil =>
    rw [List.map_nil,eq_comm,List.map_eq_nil_iff] at sameCalls
    subst sameCalls
    cases ran
    cases ran'
    exact held
  | cons step rest ih =>
    rcases run' with _ | ⟨⟨around',call'⟩,rest'⟩
    · cases sameCalls
    obtain ⟨around,call⟩ := step
    rw [List.map_cons,List.map_cons,List.cons.injEq] at sameCalls
    obtain ⟨same,sameRest⟩ := sameCalls
    dsimp only at same
    subst same
    have here := filled call (List.mem_cons_self ..)
    have there : ∀ later ∈ rest.map Prod.snd, ¬ later.LeavesPadding :=
      fun later among => filled later (List.mem_cons_of_mem _ among)
    obtain ⟨back,onward⟩ := writerRun_cons ran
    obtain ⟨back',onward'⟩ := writerRun_cons ran'
    rcases indifferent_call here w w' held with ⟨e,fine,stopped⟩ | ⟨e,fine,stopped⟩ | ⟨_,after⟩
    · obtain ⟨code,message,reported⟩ := back e stopped
      exact absurd reported (fine code message)
    · obtain ⟨code,message,reported⟩ := back' e stopped
      exact absurd reported (fine code message)
    · exact ih after sameRest there onward onward'

theorem sameWork_start {history history' : ChunkWriter} (sameContext : history.fileContext = history'.fileContext)
    (classId version : UInt32) : SameWork (writerStart classId version history) (writerStart classId version history') := by
  refine ⟨history'.data ++ history'.spare,?_⟩
  simp only [writerStart,fileOption,ChunkWriter.runtimeToFile,sameContext]
  rfl

theorem sameWork_finalize {w w' : ChunkWriter} (held : SameWork w w') :
    (writerFinalize w).1.map Chunk.words = (writerFinalize w').1.map Chunk.words := by
  obtain ⟨room,rfl⟩ := held
  cases made : w.chunk with
  | none => simp only [writerFinalize,made]
  | some c =>
    simp only [writerFinalize,made]
    split
    · rfl
    · rfl

/-- Two writers that were used before, started again and given the same calls hand over the same data,
if each call fills the dwords it takes. -/
theorem restart_forgets {history history' : ChunkWriter} {classId version : UInt32}
    {run run' : List (Surroundings × WriterCall)} {last last' : ChunkWriter}
    (sameContext : history.fileContext = history'.fileContext)
    (sameCalls : run.map Prod.snd = run'.map Prod.snd) (filled : ∀ call ∈ run.map Prod.snd, ¬ call.LeavesPadding)
    (ran : writerRun run (writerStart classId version history) = some last)
    (ran' : writerRun run' (writerStart classId version history') = some last') :
    (writerFinalize last).1.map Chunk.words = (writerFinalize last').1.map Chunk.words :=
  sameWork_finalize (sameWork_run (sameWork_start sameContext classId version) sameCalls filled ran ran')

theorem restart_forgets_string :
    let run := [(({} : Surroundings),WriterCall.string (some [72,105]))]
    let fresh := writerCreate {}
    let used := { fresh with data := [0xFFFFFFFF], spare := List.replicate 9 0xFFFFFFFF }
    ∃ last last', writerRun run (writerStart 1 7 fresh) = some last ∧ writerRun run (writerStart 1 7 used) = some last' ∧
      (writerFinalize last).1.map Chunk.words = (writerFinalize last').1.map Chunk.words := by
  intro run fresh used
  have back : (writerRun run (writerStart 1 7 fresh)).isSome := by decide +kernel
  have back' : (writerRun run (writerStart 1 7 used)).isSome := by decide +kernel
  obtain ⟨last,ran⟩ := Option.isSome_iff_exists.mp back
  obtain ⟨last',ran'⟩ := Option.isSome_iff_exists.mp back'
  refine ⟨last,last',ran,ran',restart_forgets (show fresh.fileContext = used.fileContext from rfl) rfl ?_ ran ran'⟩
  rintro _ (_ | ⟨_,⟨⟩⟩) leaves
  exact leaves

/-- One element of one byte, written after three dwords were and after nothing was. -/
theorem arrayPadding_leaks :
    let words (w : ChunkWriter) := (writerRun [({},.arrayLendian 1 1 (some [7]))] (writerStart 1 7 w)).bind fun last =>
      (writerFinalize last).1.map Chunk.words
    let dword := (({} : Surroundings),WriterCall.dword 0xFFFFFFFF)
    let used := writerRun [dword,dword,dword] (writerStart 1 7 (writerCreate {}))
    words (writerCreate {}) = some [1,1,7] ∧ used.bind words = some [1,1,0xFFFFFF07] := by
  decide +kernel

end Sessions

end Libnmo.Format
