import Libnmo.Format.ParserRuns
import Libnmo.Format.ChunkVersion1RoundTrip
import Libnmo.Format.WriterRemap

/-! Sub-chunks read back out of their parent. A writer copies the words of a
sub-chunk into the parent's data and lists the sub-chunk itself among the children;
a remap of the parent reaches the children and the words the parent tracks, so the
copy that is read back keeps its IDs, at every depth. -/
namespace Libnmo.Format
open Core Lib Lib.LittleEndian Lib.Cursor

/-- The sub-chunk that is read where `sub` was written. -/
def readBack (sub : Chunk) : Chunk :=
  let versionInfo := subchunkVersionInfo sub
  { chunkCreate with
    classId := sub.classId
    dataVersion := versionInfo &&& 0xFF
    chunkClassId := ((versionInfo >>> 8) &&& 0xFF).toUInt8
    chunkVersion := (versionInfo >>> 16) &&& 0xFF
    chunkOptions := (versionInfo >>> 24) &&& 0xFF
    data := if count32 sub.words > 0 then some sub.words else none
    ids := sub.ids
    managers := sub.managers.take (managerCountField sub).toNat }

theorem words_readBack {sub : Chunk} (small : (subchunkPayload sub).length < 2 ^ 32) :
    (readBack sub).words = sub.words := by
  have bound : sub.words.length < 2 ^ 32 := by
    simp only [subchunkPayload,List.length_append] at small
    omega
  have count := toNat_count32 sub.words bound
  have data : (readBack sub).data = if count32 sub.words > 0 then some sub.words else none := rfl
  by_cases positive : count32 sub.words > 0
  · rw [Chunk.words,data,if_pos positive,Option.getD_some]
  · have empty : sub.words = [] := by
      rw [gt_iff_lt,UInt32.lt_iff_toNat_lt,count] at positive
      exact List.length_eq_zero_iff.mp (Nat.eq_zero_of_not_pos positive)
    rw [Chunk.words,data,if_neg positive,Option.getD_none,empty]

section Reading
variable {data : List UInt32}

theorem versionInfo_dataVersion (sub : Chunk) : subchunkVersionInfo sub &&& 0xFF = sub.dataVersion &&& 0xFF := by
  rw [and_low_byte,subchunkVersionInfo,halves_bytesWord,bytesWord_byte0,and_low_byte,UInt8.toUInt8_toUInt32]

theorem versionInfo_chunkVersion (sub : Chunk) :
    (subchunkVersionInfo sub >>> 16) &&& 0xFF = sub.chunkVersion &&& 0xFF := by
  rw [and_low_byte,subchunkVersionInfo,halves_bytesWord,bytesWord_byte2,and_low_byte,UInt8.toUInt8_toUInt32]

theorem low_byte_of_small {word : UInt32} (small : word < 256) : word &&& 0xFF = word := by
  have bound := UInt32.lt_iff_toNat_lt.mp small
  rw [and_low_byte]
  apply UInt32.toNat_inj.mp
  simp only [UInt8.toNat_toUInt32,UInt32.toNat_toUInt8]
  change word.toNat < 256 at bound
  omega

/-- The version that is stored, its low byte, has a manager field if and only if the version has. -/
def ManagerFieldKept (sub : Chunk) : Prop := sub.chunkVersion &&& 0xFF > 4 ↔ sub.chunkVersion > 4

instance (sub : Chunk) : Decidable (ManagerFieldKept sub) := inferInstanceAs (Decidable (_ ↔ _))

theorem managerFieldKept_of_small {sub : Chunk} (small : sub.chunkVersion < 256) : ManagerFieldKept sub := by
  rw [ManagerFieldKept,low_byte_of_small small]

theorem reads_subchunkBody (sub : Chunk) (version : ManagerFieldKept sub)
    (small : (subchunkPayload sub).length < 2 ^ 32) :
    Reads data (readSubchunkBody data (UInt32.ofNat (subchunkPayload sub).length)) (subchunkPayload sub)
      (readBack sub) := by
  have size : (UInt32.ofNat (subchunkPayload sub).length).toNat = (subchunkPayload sub).length := by
    rw [UInt32.toNat_ofNat']
    exact Nat.mod_eq_of_lt small
  refine reads_checkBounds (Nat.le_of_eq size) ?_
  obtain ⟨words,ids,refs⟩ : sub.words.length < 2 ^ 32 ∧ sub.ids.length < 2 ^ 32 ∧ sub.chunkRefs.length < 2 ^ 32 := by
    simp only [subchunkPayload,List.length_append] at small
    omega
  have layout : subchunkPayload sub = [sub.classId] ++ ([subchunkVersionInfo sub] ++ ([count32 sub.words] ++
      ([if hasFlag (optionFlags sub) optionFile then 1 else 0] ++ ([count32 sub.ids] ++ ([count32 sub.chunkRefs] ++
      ((if sub.chunkVersion > 4 then [managerCountField sub] else []) ++ (sub.words ++ (sub.ids ++
      (sub.chunkRefs ++ sub.managers.take (managerCountField sub).toNat))))))))) := by
    simp [subchunkPayload]
  have managerCount : Reads data (parserManagerCount data ((subchunkVersionInfo sub >>> 16) &&& 0xFF))
      (if sub.chunkVersion > 4 then [managerCountField sub] else []) (managerCountField sub) := by
    rw [versionInfo_chunkVersion,parserManagerCount]
    by_cases late : sub.chunkVersion > 4
    · rw [if_pos late,if_pos (version.mpr late)]
      exact reads_parserDword _
    · rw [if_neg late,if_neg (late ∘ version.mp),managerCountField,if_neg late]
      exact reads_pure 0
  have managers : (managerCountField sub).toNat = (sub.managers.take (managerCountField sub).toNat).length := by
    rw [List.length_take,managerCountField]
    split
    · rw [count32,UInt32.toNat_ofNat']
      omega
    · simp
  rw [layout]
  refine reads_bind (reads_parserDword _) (reads_bind (reads_parserDword _) (reads_bind (reads_parserDword _)
    (reads_bind (reads_parserDword _) (reads_bind (reads_parserDword _) (reads_bind (reads_parserDword _) (reads_bind managerCount
    (reads_bind (reads_parserDwords _ _ (toNat_count32 _ words)) (reads_bind (reads_parserDwords _ _ (toNat_count32 _ ids))
    (reads_bind (reads_parserDwords _ _ (toNat_count32 _ refs)) ?_)))))))))
  exact reads_return (f := fun list => { readBack sub with managers := list }) (reads_parserDwords _ _ managers)

end Reading

/-- A fresh parser, sought to a position, reads a sub-chunk. -/
def readSubchunkAt (c : Chunk) (pos : Nat) : Result (Option Chunk) :=
  ((parserSeek pos >>= fun _ => parserReadSubchunk).run (parserCreate c)).1

/-- Sub-chunks read one inside the other, each at a position of the one before. -/
def readDown : List Nat → Chunk → Option Chunk
  | [],c => some c
  | pos :: path,c => match readSubchunkAt c pos with
    | .ok (some sub) => readDown path sub
    | _ => none

/-- The target was written into the chunk as a sub-chunk, at a position, or into a sub-chunk of it, along a
path of positions. Versions fit the byte that every format has for them. -/
inductive Placed : Chunk → List Nat → Chunk → Prop
  | self (c : Chunk) : Placed c [] c
  | inside {around : Surroundings} {ctx : Option ChunkFileContext} {classId chunkVersion : UInt32}
      {before after : List WriterOp} {sub c target : Chunk} {path : List Nat}
      (built : writtenChunk around ctx classId chunkVersion (before ++ .subchunk sub :: after) = some c)
      (small : c.words.length ≤ 2 ^ 31) (version : sub.chunkVersion < 256) (deeper : Placed sub path target) :
      Placed c ((written around before (startedWriter around ctx classId chunkVersion)).data.length :: path) target

section Placing
variable {around : Surroundings} {ctx : Option ChunkFileContext} {classId chunkVersion : UInt32}
  {before after : List WriterOp} {sub c : Chunk}

/-- A parser with its cursor at the size field, in a sequence or in none, takes the whole sub-chunk. -/
theorem parserReadSubchunk_run {p : ChunkParser} {right : List UInt32} (version : ManagerFieldKept sub)
    (payload : (subchunkPayload sub).length < 2 ^ 32)
    (slot : ¬ (p.inSubchunkSequence ∧ p.subchunkSequenceRemaining = 0))
    (start : Ahead p.chunk.words p.cursor ((WriterOp.subchunk sub).words ++ right)) :
    ∃ stop, parserReadSubchunk.run p = (.ok (some (readBack sub)),stop) ∧ Ahead p.chunk.words stop.cursor right := by
  have some : UInt32.ofNat (subchunkPayload sub).length ≠ 0 := by
    have header : 0 < (subchunkPayload sub).length := by simp [subchunkPayload]
    intro zero
    have value := congrArg UInt32.toNat zero
    rw [UInt32.toNat_ofNat',Nat.mod_eq_of_lt payload] at value
    exact absurd value (Nat.ne_of_gt header)
  obtain ⟨middle,size,between⟩ := reads_parserDword (UInt32.ofNat (subchunkPayload sub).length) _ _ start
  obtain ⟨stop,body,ahead⟩ := reads_subchunkBody sub version payload _ _ between
  have sizeRun : (onCursor parserDword).run p =
      (.ok (UInt32.ofNat (subchunkPayload sub).length),{ p with cursor := middle }) := by
    simp only [onCursor,size]
  have bodyRun : (onCursor fun data => readSubchunkBody data (UInt32.ofNat (subchunkPayload sub).length)).run
      { p with cursor := middle } = (.ok (readBack sub),{ p with cursor := stop }) := by
    simp only [onCursor,body]
  have slotRun : requireSubchunkSlot.run p = (.ok (),p) := by simp only [requireSubchunkSlot,if_neg slot]
  rw [parserReadSubchunk,Action.bind_ok _ slotRun,Action.bind_ok _ sizeRun,if_neg some,Action.bind_ok _ bodyRun,
    consumeSubchunkSlot,Action.bind_ok _ (Action.update_apply _ _)]
  refine ⟨_,rfl,?_⟩
  split <;> exact ahead

theorem readSubchunkAt_written {left right : List UInt32} (version : sub.chunkVersion < 256)
    (payload : (subchunkPayload sub).length < 2 ^ 32)
    (words : c.words = left ++ ((WriterOp.subchunk sub).words ++ right)) :
    readSubchunkAt c left.length = .ok (some (readBack sub)) := by
  have start : Ahead c.words left.length ((WriterOp.subchunk sub).words ++ right) := by
    rw [words]
    exact ahead_after left _
  have sought : (parserSeek left.length).run (parserCreate c) = (.ok (),{ parserCreate c with cursor := left.length }) := by
    simp only [parserSeek,parserCreate,Chunk.dataSize]
    exact if_neg (Nat.not_lt.mpr start.1)
  obtain ⟨stop,run,_⟩ := parserReadSubchunk_run (p := { parserCreate c with cursor := left.length })
    (managerFieldKept_of_small version) payload (by simp [parserCreate]) start
  rw [readSubchunkAt,Action.bind_ok _ sought,run]

theorem words_placed (built : writtenChunk around ctx classId chunkVersion (before ++ .subchunk sub :: after) = some c) :
    ∃ right, c.words = (written around before (startedWriter around ctx classId chunkVersion)).data ++
      ((WriterOp.subchunk sub).words ++ right) := by
  have handed := writtenChunk_handedOver built
  obtain ⟨_,_,ready,_⟩ := written_grows around before (startedWriter around ctx classId chunkVersion)
  generalize first : written around before (startedWriter around ctx classId chunkVersion) = w at ready ⊢
  obtain ⟨w₁,run,placed⟩ := writerWriteSubchunk_run around (w := w) sub ready.finalized
  obtain ⟨right,_,rest,_⟩ := written_grows around after w₁
  have split : written around (before ++ .subchunk sub :: after) (startedWriter around ctx classId chunkVersion) =
      written around after w₁ := by
    rw [written,List.foldl_append,List.foldl_cons]
    change written around after (((WriterOp.subchunk sub).write around).run
      (written around before (startedWriter around ctx classId chunkVersion))).2 = _
    rw [first,WriterOp.write,run]
  refine ⟨right,?_⟩
  rw [Chunk.words,handed.data,Option.getD_some,split,rest.data,placed.data,List.append_assoc]

theorem payload_small (small : c.words.length ≤ 2 ^ 31)
    (built : writtenChunk around ctx classId chunkVersion (before ++ .subchunk sub :: after) = some c) :
    (subchunkPayload sub).length < 2 ^ 32 := by
  obtain ⟨right,words⟩ := words_placed built
  rw [words] at small
  simp only [WriterOp.words,List.length_append,List.length_cons] at small
  omega

/-- A remap of the parent changes no word of a sub-chunk. -/
theorem words_placed_remapped (remap : IdRemap) (small : c.words.length ≤ 2 ^ 31)
    (built : writtenChunk around ctx classId chunkVersion (before ++ .subchunk sub :: after) = some c) :
    ∃ left right, left.length = (written around before (startedWriter around ctx classId chunkVersion)).data.length ∧
      ((chunkRemapObjectIds remap).run c).2.words = left ++ ((WriterOp.subchunk sub).words ++ right) := by
  have handed := writtenChunk_handedOver built
  obtain ⟨right,words⟩ := words_placed built
  rw [words_remapped c (by rw [handed.data]; rfl) handed.apart]
  split
  · exact ⟨_,right,rfl,words⟩
  · cases encoded : encodesIds ctx with
    | true =>
      rw [writtenChunk_encoded encoded built,remapChunkData]
      exact ⟨_,right,rfl,words⟩
    | false =>
      obtain ⟨data,ids⟩ := writtenChunk_plain encoded built
      have none : (startedWriter around ctx classId chunkVersion).runtimeToFile = none := by
        rw [encodesIds,Option.isSome_eq_false_iff,Option.isNone_iff_eq_none] at encoded
        exact encoded
      have front : (written around before (startedWriter around ctx classId chunkVersion)).data =
          before.flatMap WriterOp.words := (written_run around before rfl none).data
      have changed := remapChunkData_opsEntries remap [] (before ++ .subchunk sub :: after) [] []
        (by rw [← data]; simpa using small)
      simp only [List.length_nil,List.nil_append,List.append_nil,remapChunkData] at changed
      refine ⟨before.flatMap (WriterOp.remappedWords remap),after.flatMap (WriterOp.remappedWords remap),?_,?_⟩
      · rw [front]
        simp only [List.length_flatMap,WriterOp.length_remappedWords]
      · rw [ids,data,changed,List.flatMap_append,List.flatMap_cons]
        rfl

end Placing

/-- What a chunk holds of a sub-chunk is read back from any chunk with the same words. -/
theorem placed_readDown {c target : Chunk} {path : List Nat} (placed : Placed c path target) {shown : Chunk}
    (words : shown.words = c.words) (ids : shown.ids = c.ids) :
    ∃ back, readDown path shown = some back ∧ back.words = target.words ∧ back.ids = target.ids := by
  induction placed generalizing shown with
  | self c => exact ⟨shown,rfl,words,ids⟩
  | inside built small version deeper ih =>
    obtain ⟨right,content⟩ := words_placed built
    have payload := payload_small small built
    have read := readSubchunkAt_written (c := shown) version payload (words.trans content)
    obtain ⟨back,down,same⟩ := ih (words_readBack payload) rfl
    exact ⟨back,by rw [readDown,read]; exact down,same⟩

/-- Out of a remapped parent every sub-chunk is read with the words it was written with. -/
theorem placed_readDown_remapped (remap : IdRemap) {parent target : Chunk} {path : List Nat}
    (placed : Placed parent path target) (inner : path ≠ []) :
    ∃ back, readDown path ((chunkRemapObjectIds remap).run parent).2 = some back ∧
      back.words = target.words ∧ back.ids = target.ids := by
  cases placed with
  | self => exact absurd rfl inner
  | inside built small version deeper =>
    obtain ⟨left,right,length,content⟩ := words_placed_remapped remap small built
    have payload := payload_small small built
    obtain ⟨back,down,same⟩ := placed_readDown deeper (words_readBack payload) rfl
    have read := readSubchunkAt_written version payload content
    rw [length] at read
    exact ⟨back,by rw [readDown,read]; exact down,same⟩

/-- Every sub-chunk written into the parent, at any depth, is read back out of the remapped parent, and its
tracked words hold their mappings exactly when the table maps each of them to itself. -/
theorem subchunks_remapped_iff (remap : IdRemap) (parent : Chunk) :
    (∀ path target, Placed parent path target → path ≠ [] →
      ∃ back, readDown path ((chunkRemapObjectIds remap).run parent).2 = some back ∧ back.ids = target.ids ∧
        ∀ p ∈ trackedPositions target.ids target.words,
          back.words[p]? = (target.words[p]?).map (mappedId remap)) ↔
      ∀ path target, Placed parent path target → path ≠ [] →
        ∀ p ∈ trackedPositions target.ids target.words, ∀ id, target.words[p]? = some id → mappedId remap id = id := by
  constructor
  · intro all path target placed inner p member id found
    obtain ⟨back,down,_,mapped⟩ := all path target placed inner
    obtain ⟨again,down',words,_⟩ := placed_readDown_remapped remap placed inner
    obtain rfl := Option.some.inj (down.symm.trans down')
    have entry := mapped p member
    rw [words,found,Option.map_some,Option.some.injEq] at entry
    exact entry.symm
  · intro fixed path target placed inner
    obtain ⟨back,down,words,ids⟩ := placed_readDown_remapped remap placed inner
    refine ⟨back,down,ids,fun p member => ?_⟩
    rw [words]
    cases found : target.words[p]? with
    | none => rfl
    | some id => rw [Option.map_some,fixed path target placed inner p member id found]

def innerChunk : Chunk := (writtenChunk {} none 0x21 chunkVersion4 [.objectId 5]).getD chunkCreate

def outerChunk : Chunk := (writtenChunk {} none 0x22 chunkVersion4 [.subchunk innerChunk]).getD chunkCreate

theorem outerChunk_built : writtenChunk {} none 0x22 chunkVersion4 ([] ++ [.subchunk innerChunk]) = some outerChunk := by
  obtain ⟨c,built⟩ := writtenChunk_exists {} none 0x22 chunkVersion4 [.subchunk innerChunk]
  rw [outerChunk,built]
  exact built

/-- The sub-chunk is read back with the ID it was written with. -/
theorem subchunk_not_remapped :
    (readDown [0] ((chunkRemapObjectIds ⟨[⟨5,6⟩]⟩).run outerChunk).2).map Chunk.words = some [5] ∧
      ¬ ∀ path target, Placed outerChunk path target → path ≠ [] →
        ∃ back, readDown path ((chunkRemapObjectIds ⟨[⟨5,6⟩]⟩).run outerChunk).2 = some back ∧
          back.ids = target.ids ∧ ∀ p ∈ trackedPositions target.ids target.words,
            back.words[p]? = (target.words[p]?).map (mappedId ⟨[⟨5,6⟩]⟩) := by
  have placed : Placed outerChunk [0] innerChunk :=
    .inside outerChunk_built (by rw [(writtenChunk_plain rfl outerChunk_built).1]; decide +kernel) (by decide) (.self innerChunk)
  obtain ⟨back,down,words,_⟩ := placed_readDown_remapped ⟨[⟨5,6⟩]⟩ placed (by simp)
  refine ⟨by rw [down,Option.map_some,words]; rfl,fun all => ?_⟩
  obtain ⟨again,down',_,mapped⟩ := all [0] innerChunk placed (by simp)
  obtain rfl := Option.some.inj (down.symm.trans down')
  have entry := mapped 0 (by decide)
  rw [words] at entry
  exact absurd entry (by decide)

end Libnmo.Format

/-! A sub-chunk is read back where it was written, whatever stands before and behind
it. The layout has a byte for each of the two versions, and a manager field from
version 5 on: what does not fit these is not kept. -/
namespace Libnmo.Format
open Core Lib Lib.LittleEndian Lib.Cursor

/-- The fields of a chunk that a sub-chunk is to keep. -/
structure SameSubchunk (sub back : Chunk) : Prop where
  classId : back.classId = sub.classId
  dataVersion : back.dataVersion = sub.dataVersion
  chunkVersion : back.chunkVersion = sub.chunkVersion
  words : back.words = sub.words
  ids : back.ids = sub.ids
  chunkRefs : back.chunkRefs = sub.chunkRefs
  managers : back.managers = sub.managers

/-- The fields that the layout keeps: low bytes of the versions, and managers where there is a field for them. -/
structure StoredSubchunk (sub back : Chunk) : Prop where
  classId : back.classId = sub.classId
  dataVersion : back.dataVersion = sub.dataVersion &&& 0xFF
  chunkVersion : back.chunkVersion = sub.chunkVersion &&& 0xFF
  words : back.words = sub.words
  ids : back.ids = sub.ids
  managers : back.managers = if sub.chunkVersion > 4 then sub.managers else []

/-- All dwords of the sub-chunk together are counted in 32 bits. -/
def CountedDwords (sub : Chunk) : Prop :=
  7 + sub.words.length + sub.ids.length + sub.chunkRefs.length + sub.managers.length < 2 ^ 32

instance (sub : Chunk) : Decidable (CountedDwords sub) := inferInstanceAs (Decidable (_ < _))

/-- At the place where the sub-chunk was written, between `w` and `w'`, the parser takes it, and all of it. -/
def ReadsSubchunk (kept : Chunk → Chunk → Prop) (sub : Chunk) (w' : ChunkWriter) (p : ChunkParser) : Prop :=
  ∃ back stop, parserReadSubchunk.run p = (.ok (some back),stop) ∧ kept sub back ∧ stop.cursor = w'.data.length

section
variable {around : Surroundings} {sub : Chunk} {w w' : ChunkWriter} {p : ChunkParser} {right : List UInt32}

theorem length_subchunkPayload (counted : CountedDwords sub) : (subchunkPayload sub).length < 2 ^ 32 := by
  rw [CountedDwords] at counted
  simp only [subchunkPayload,List.length_append,List.length_cons,List.length_nil,List.length_take]
  split <;> simp only [List.length_cons,List.length_nil] <;> omega

theorem managers_readBack (counted : CountedDwords sub) :
    (readBack sub).managers = if sub.chunkVersion > 4 then sub.managers else [] := by
  change sub.managers.take (managerCountField sub).toNat = _
  rw [CountedDwords] at counted
  rw [managerCountField]
  split
  · rw [toNat_count32 _ (by omega),List.take_length]
  · rfl

theorem stored_readBack (counted : CountedDwords sub) : StoredSubchunk sub (readBack sub) where
  classId := rfl
  dataVersion := versionInfo_dataVersion sub
  chunkVersion := versionInfo_chunkVersion sub
  words := words_readBack (length_subchunkPayload counted)
  ids := rfl
  managers := managers_readBack counted

theorem writeSubchunk_success (wrote : (writerWriteSubchunk around (some sub)).run w = (.ok (),w')) :
    w'.data = w.data ++ (WriterOp.subchunk sub).words := by
  have fresh : w.finalized = false := by
    by_contra done
    rw [Bool.not_eq_false] at done
    rw [writerWriteSubchunk,Action.bind_error (t := w) (e := .error .invalidArgument "") _
      (by simp only [requireOpen,if_pos done])] at wrote
    simp at wrote
  obtain ⟨w'',run,grown⟩ := writerWriteSubchunk_run around sub fresh
  rw [run,Prod.mk.injEq] at wrote
  rw [← wrote.2]
  exact grown.data

/-- Where a sub-chunk was written, in any writer, it is read back by any parser that is not at the end of a
sequence, and the cursor is then behind it. -/
theorem subchunk_reads_back (wrote : (writerWriteSubchunk around (some sub)).run w = (.ok (),w'))
    (counted : CountedDwords sub) (version : ManagerFieldKept sub) (data : p.chunk.words = w'.data ++ right)
    (place : p.cursor = w.data.length) (slot : ¬ (p.inSubchunkSequence ∧ p.subchunkSequenceRemaining = 0)) :
    ReadsSubchunk StoredSubchunk sub w' p := by
  have appended := writeSubchunk_success wrote
  have start : Ahead p.chunk.words p.cursor ((WriterOp.subchunk sub).words ++ right) := by
    rw [data,appended,place,List.append_assoc]
    exact ahead_after w.data _
  obtain ⟨stop,run,ahead⟩ := parserReadSubchunk_run version (length_subchunkPayload counted) slot start
  refine ⟨readBack sub,stop,run,stored_readBack counted,?_⟩
  have whole := ahead.length_eq
  rw [data,List.length_append] at whole
  omega

end

/-- A sub-chunk of a version with managers, another of the last version without. -/
def managed (chunkVersion : UInt32) : Chunk :=
  { chunkCreate with classId := 9, dataVersion := 300, chunkVersion := chunkVersion, data := some [1,2], ids := [0], managers := [7] }

/-- The writer after a word and the sub-chunk. -/
def managedWriter (chunkVersion : UInt32) : ChunkWriter :=
  ((writerWriteDword {} 5 >>= fun _ => writerWriteSubchunk {} (some (managed chunkVersion))).run
    (startedWriter {} none 1 7)).2

/-- A parser at the place of the sub-chunk. -/
def managedParser (chunkVersion : UInt32) : ChunkParser :=
  { parserCreate { chunkCreate with data := some (managedWriter chunkVersion).data } with cursor := 1 }

theorem subchunk_reads_back_managed : ReadsSubchunk StoredSubchunk (managed 7) (managedWriter 7) (managedParser 7) :=
  subchunk_reads_back (w := ((writerWriteDword {} 5).run (startedWriter {} none 1 7)).2) (p := managedParser 7) rfl
    (by decide) (by decide) (List.append_nil _).symm rfl (by decide)

theorem oldManagers_lost : ¬ ReadsSubchunk SameSubchunk (managed 4) (managedWriter 4) (managedParser 4) := by
  rintro ⟨back,stop,run,same,_⟩
  have start : Ahead (managedParser 4).chunk.words 1 ((WriterOp.subchunk (managed 4)).words ++ []) := ⟨by decide,by decide⟩
  obtain ⟨stop',read,_⟩ := parserReadSubchunk_run (p := managedParser 4) (by decide) (by decide) (by decide) start
  rw [read,Prod.mk.injEq,Except.ok.injEq,Option.some.injEq] at run
  have managers := same.managers
  rw [← run.1] at managers
  exact absurd managers (by decide)

end Libnmo.Format
