import Libnmo.Format.ChunkOps
import Libnmo.Format.SubchunkRemap
import Libnmo.Format.TypedWrites

/-! The writes of the chunk writer that the chunk API has a read for, identifiers
apart. The read of what a write left gives the value and stops behind it, or else
the two take the layout to be different: a string with or without its terminator, a
sub-chunk with or without a field. -/
namespace Libnmo.Format
open Core Lib Lib.LittleEndian Lib.Cursor

inductive SharedOp
  | byte (value : UInt8)
  | word (value : UInt16)
  | dword (value : UInt32)
  | int (value : Int32)
  | float (bits : UInt32)
  | guid (value : Guid)
  | string (str : Option (List UInt8))
  | buffer (source : List UInt8)
  | objectId (id : UInt32)
  | startObjectSequence (count : Nat)
  | startManagerSequence (manager : Guid) (count : Nat)
  | managerInt (manager : Guid) (value : Int32)
  | startSubchunkSequence (count : Nat)
  | subchunk (sub : Option Chunk)
  | floats (bits : List UInt32)

/-- A sub-chunk that the chunk API reads as the writer wrote it. -/
structure SubChunkKept (sub : Chunk) : Prop where
  classId : sub.classId = 0
  dataVersion : sub.dataVersion < 256
  chunkVersion : sub.chunkVersion < 256
  managerField : sub.chunkVersion > 4
  words : sub.words.length < 2 ^ 32
  ids : sub.ids.length < 2 ^ 32
  chunkRefs : sub.chunkRefs = []
  managers : sub.managers = []

namespace SharedOp

def write (around : Surroundings) : SharedOp → Run ChunkWriter Unit
  | byte value => writerWriteByte around value
  | word value => writerWriteWord around value
  | dword value => writerWriteDword around value
  | int value => writerWriteInt around value
  | float bits => writerWriteFloat around bits
  | guid value => writerWriteGuid around value
  | string str => writerWriteString around str
  | buffer source => writerWriteBuffer around (some source) source.length
  | objectId id => writerWriteObjectId around id
  | startObjectSequence count => writerStartObjectSequence around count
  | startManagerSequence manager count => writerStartManagerSequence around manager count
  | managerInt manager value => writerWriteManagerInt around manager value
  | startSubchunkSequence count => writerStartSubchunkSequence around count
  | subchunk sub => writerWriteSubchunk around sub
  | floats bits => writerWriteFloats around bits

/-- The corresponding read. -/
def call : SharedOp → ChunkCall
  | byte _ => .byte
  | word _ => .word
  | dword _ => .dword
  | int _ => .int
  | float _ => .float
  | guid _ => .guid
  | string _ => .string
  | buffer _ => .buffer
  | objectId _ => .objectId
  | startObjectSequence _ => .objectSequenceStart
  | startManagerSequence _ _ => .startManagerSequence
  | managerInt _ _ => .managerInt
  | startSubchunkSequence _ => .subChunkSequence
  | subchunk _ => .subChunk
  | floats bits => .floats bits.length

/-- The value, as the read is to give it. An empty string is a null pointer, as a null string is. -/
def answer : SharedOp → ChunkAnswer
  | byte value => .byte value
  | word value => .word value
  | int value => .int value
  | dword value | float value | objectId value => .dword value
  | guid value => .guid value
  | string none | string (some []) => .bytes none 0
  | string (some (c :: chars)) => .bytes (some (c :: chars ++ [0])) (c :: chars).length
  | buffer source => .bytes (arrayPointer source) source.length
  | startObjectSequence count | startSubchunkSequence count => .count count
  | startManagerSequence manager count => .managerSequence manager count
  | managerInt manager value => .managerInt manager value.toUInt32
  | subchunk sub => .subChunk (sub.map subChunkFields)
  | floats bits => .floats bits

/-- The two sides agree on the layout, and the counts survive it. -/
def Fits : SharedOp → Prop
  | string (some (_ :: _)) => False
  | startObjectSequence count => IntCount count
  | startManagerSequence _ count | startSubchunkSequence count => count < 2 ^ 32
  | subchunk none => False
  | subchunk (some sub) => SubChunkKept sub
  | _ => True

end SharedOp

/-- Where the words lie ahead, the read gives the value and stops behind them, if and only if the condition holds. -/
def Agrees (data : List UInt32) (action : Run Nat ChunkAnswer) (words : List UInt32) (value : ChunkAnswer)
    (fits : Prop) : Prop :=
  ∀ pos rest, Ahead data pos (words ++ rest) → (action.run pos = (.ok value,pos + words.length) ↔ fits)

section Agreeing
variable {data spare words : List UInt32} {α : Type} {answer : α → ChunkAnswer} {action : Run Nat α}

theorem Reads.stops {action : Run Nat α} {value : α} (reads : Reads data action words value) {pos : Nat}
    {rest : List UInt32} (ahead : Ahead data pos (words ++ rest)) :
    action.run pos = (.ok value,pos + words.length) := by
  obtain ⟨next,run,left⟩ := reads pos rest ahead
  have before := ahead.length_eq
  have after := left.length_eq
  rw [List.length_append] at before
  rw [run,show next = pos + words.length by omega]

theorem agrees_reads {value : α} (reads : Reads data action words value) :
    Agrees data (answered answer action) words (answer value) True := by
  intro pos rest ahead
  have whole : Reads data (answered answer action) words (answer value) := reads_return reads
  exact iff_of_true (Reads.stops whole ahead) trivial

/-- Where the condition fails, no answer of the read is right. -/
theorem agrees_when {value : α} {fits : Prop} (reads : fits → Reads data action words value)
    (only : ∀ pos rest found next, Ahead data pos (words ++ rest) → action.run pos = (.ok found,next) →
      answer value = answer found → next = pos + words.length → fits) :
    Agrees data (answered answer action) words (answer value) fits := by
  intro pos rest ahead
  constructor
  · intro run
    obtain ⟨found,ran,same⟩ := return_success run
    exact only pos rest found _ ahead ran same rfl
  · intro fine
    have whole : Reads data (answered answer action) words (answer value) := reads_return (reads fine)
    exact Reads.stops whole ahead

theorem nextWord_success {pos next : Nat} {word : UInt32} (run : (nextWord data).run pos = (.ok word,next)) :
    data[pos]? = some word ∧ next = pos + 1 := by
  simp only [nextWord] at run
  split at run
  · rename_i found _
    simp only [Prod.mk.injEq,Except.ok.injEq] at run
    exact ⟨by rw [← run.1]; assumption,run.2.symm⟩
  · simp at run

theorem requireWords_success {dwords pos next : Nat} {message : String}
    (run : (requireWords data dwords message).run pos = (.ok (),next)) : pos + dwords ≤ data.length ∧ next = pos := by
  obtain ⟨room,start,checked,run⟩ := Action.bind_success run
  simp only [canRead,Action.read_apply,Prod.mk.injEq,Except.ok.injEq] at checked
  split at run
  · rename_i inside
    simp only [Action.pure_apply,Prod.mk.injEq,true_and] at run
    rw [← checked.1,decide_eq_true_eq] at inside
    exact ⟨inside,by omega⟩
  · simp [fail] at run

theorem chunkReadDword_success {pos next : Nat} {value : UInt32}
    (run : (chunkReadDword data).run pos = (.ok value,next)) : next = pos + 1 := by
  obtain ⟨signed,ran,_⟩ := return_success run
  obtain ⟨_,start,checked,ran⟩ := Action.bind_success ran
  obtain ⟨word,ran,_⟩ := return_success ran
  have still := (requireWords_success checked).2
  have one := (nextWord_success ran).2
  omega

/-- No more bytes come back than the length at the position says. -/
theorem chunkReadString_bounded {pos next : Nat} {word : UInt32} {rest : List UInt32}
    {found : Option (List UInt8) × Nat} (ahead : Ahead data pos (word :: rest))
    (run : (chunkReadString data spare).run pos = (.ok found,next)) : (found.1.getD []).length ≤ word.toNat := by
  have hollow {start : Nat} (run : (pure (none,0) : Run Nat (Option (List UInt8) × Nat)).run start = (.ok found,next)) :
      (found.1.getD []).length ≤ word.toNat := by
    simp only [Action.pure_apply,Prod.mk.injEq,Except.ok.injEq] at run
    rw [← run.1]
    exact Nat.zero_le _
  obtain ⟨room,start,entered,run⟩ := Action.bind_success run
  simp only [canRead,Action.read_apply,Prod.mk.injEq] at entered
  split at run
  · obtain ⟨len,middle,first,run⟩ := Action.bind_success run
    rw [← entered.2] at first
    obtain rfl := Option.some.inj ((nextWord_success first).1.symm.trans ahead.getElem?)
    split at run
    · exact hollow run
    · obtain ⟨enough,after,checked,run⟩ := Action.bind_success run
      split at run
      · obtain ⟨str,ran,rfl⟩ := return_success run
        rw [Option.getD_some,(copyOut_success ran).1]
      · exact hollow run
  · exact hollow run

theorem reads_takeWords {count : UInt32} {message : String} (size : count.toNat = words.length) :
    Reads data (takeWords data count message) words words := by
  rw [takeWords]
  split
  · rename_i zero
    rw [zero] at size
    obtain rfl := List.length_eq_zero_iff.mp size.symm
    exact reads_pure []
  · refine reads_requireWords (Nat.le_of_eq size) ?_
    intro pos rest ahead
    rw [size]
    exact ⟨pos + words.length,by rw [Action.bind_ok _ (Action.read_apply _ _),ahead.slice_eq]; rfl,ahead.skip⟩

theorem takeWords_success {count : UInt32} {message : String} {pos next : Nat} {found : List UInt32}
    (run : (takeWords data count message).run pos = (.ok found,next)) :
    found.length = count.toNat ∧ next = pos + count.toNat := by
  rw [takeWords] at run
  split at run
  · rename_i zero
    simp only [Action.pure_apply,Prod.mk.injEq,Except.ok.injEq] at run
    rw [zero,← run.1,← run.2]
    exact ⟨rfl,rfl⟩
  · obtain ⟨_,start,checked,ran⟩ := Action.bind_success run
    obtain ⟨inside,rfl⟩ := requireWords_success checked
    rw [Action.bind_ok _ (Action.read_apply _ _),Action.bind_ok _ (Action.update_apply _ _)] at ran
    simp only [Action.pure_apply,Prod.mk.injEq,Except.ok.injEq] at ran
    rw [← ran.1,← ran.2]
    exact ⟨length_slice _ _ _ inside,rfl⟩

theorem length_counted {count : UInt32} (size : words.length = count.toNat) :
    ((if count = 0 then none else some words : Option (List UInt32)).getD []).length = count.toNat := by
  split
  · rename_i zero
    rw [zero]
    rfl
  · exact size

/-- What a sub-chunk has from a header with such fields, and how far it is read. -/
structure SubChunkTaken (versionInfo dataSize idCount chunkCount : UInt32) (back : Chunk) (size : Nat) : Prop where
  classId : back.classId = 0
  dataVersion : back.dataVersion = versionInfo &&& 0xFF
  chunkVersion : back.chunkVersion = versionInfo >>> 16 &&& 0xFF
  words : back.words.length = dataSize.toNat
  ids : back.ids.length = idCount.toNat
  chunkRefs : back.chunkRefs = []
  managers : back.managers = []
  size : size = 8 + dataSize.toNat + idCount.toNat + chunkCount.toNat

theorem chunkReadSubChunk_success {pos next : Nat} {h0 h1 h2 h3 h4 h5 h6 : UInt32} {rest : List UInt32} {back : Chunk}
    (ahead : Ahead data pos ([h0,h1,h2,h3,h4,h5,h6] ++ rest))
    (run : (chunkReadSubChunk data).run pos = (.ok back,next)) :
    SubChunkTaken h2 h3 h5 h6 back (next - pos) := by
  have word {pos next : Nat} {word : UInt32} {value : UInt16} {rest : List UInt32} (ahead : Ahead data pos (word :: rest))
      (run : (chunkReadWord data).run pos = (.ok value,next)) :
      value = (word &&& 0xFFFF).toUInt16 ∧ Ahead data next rest :=
    (reads_chunkReadLow word).follows pos rest value next ahead run
  have dword {pos next : Nat} {word value : UInt32} {rest : List UInt32} (ahead : Ahead data pos (word :: rest))
      (run : (chunkReadDword data).run pos = (.ok value,next)) : value = word ∧ Ahead data next rest :=
    (reads_chunkReadDword word).follows pos rest value next ahead run
  obtain ⟨_,_,r0,run⟩ := Action.bind_success run
  obtain ⟨_,_,r1,run⟩ := Action.bind_success run
  obtain ⟨_,_,r2,run⟩ := Action.bind_success run
  obtain ⟨_,_,r3,run⟩ := Action.bind_success run
  obtain ⟨_,_,r4,run⟩ := Action.bind_success run
  obtain ⟨_,_,r5,run⟩ := Action.bind_success run
  obtain ⟨_,_,r6,run⟩ := Action.bind_success run
  obtain ⟨_,_,r7,run⟩ := Action.bind_success run
  obtain ⟨_,a0⟩ := dword ahead r0
  obtain ⟨rfl,a1⟩ := word a0 r1
  obtain ⟨rfl,a2⟩ := dword a1 r2
  obtain ⟨rfl,a3⟩ := dword a2 r3
  obtain ⟨_,a4⟩ := dword a3 r4
  obtain ⟨rfl,a5⟩ := dword a4 r5
  obtain ⟨rfl,a6⟩ := dword a5 r6
  have header := chunkReadDword_success r7
  obtain ⟨words,_,took,run⟩ := Action.bind_success run
  obtain ⟨ids,_,listed,run⟩ := Action.bind_success run
  rw [Action.bind_ok _ (Action.update_apply _ _)] at run
  simp only [Action.pure_apply,Prod.mk.injEq,Except.ok.injEq] at run
  have before := ahead.length_eq
  have after : data.length = _ + rest.length := a6.length_eq
  simp only [List.length_append,List.length_cons,List.length_nil] at before
  obtain ⟨size,reached⟩ := takeWords_success took
  obtain ⟨count,stopped⟩ := takeWords_success listed
  have last := run.2
  rw [← run.1]
  exact ⟨rfl,rfl,rfl,length_counted size,count,rfl,rfl,by omega⟩

end Agreeing

section SubChunks
variable {data : List UInt32} {sub : Chunk}

theorem small_of_low_byte {word : UInt32} (low : word &&& 0xFF = word) : word < 256 := by
  rw [and_low_byte] at low
  rw [← low,UInt32.lt_iff_toNat_lt,UInt8.toNat_toUInt32]
  exact UInt8.toNat_lt _

/-- The words of a sub-chunk: seven of a header, one more where managers have a field, and the lists. -/
theorem subchunk_words (sub : Chunk) : UInt32.ofNat (subchunkPayload sub).length :: subchunkPayload sub =
    [UInt32.ofNat (subchunkPayload sub).length,sub.classId,subchunkVersionInfo sub,count32 sub.words,
      if hasFlag (optionFlags sub) optionFile then 1 else 0,count32 sub.ids,count32 sub.chunkRefs] ++
    ((if sub.chunkVersion > 4 then [managerCountField sub] else []) ++
      sub.words ++ sub.ids ++ sub.chunkRefs ++ sub.managers.take (managerCountField sub).toNat) := by
  simp only [subchunkPayload,List.append_assoc]
  rfl

theorem SubChunkKept.tail (kept : SubChunkKept sub) :
    (if sub.chunkVersion > 4 then [managerCountField sub] else []) ++
      sub.words ++ sub.ids ++ sub.chunkRefs ++ sub.managers.take (managerCountField sub).toNat =
    managerCountField sub :: (sub.words ++ (sub.ids ++ [])) := by
  rw [if_pos kept.managerField,kept.chunkRefs,kept.managers]
  simp

theorem reads_subChunk (kept : SubChunkKept sub) : ∃ back, subChunkFields back = subChunkFields sub ∧
    Reads data (chunkReadSubChunk data) (UInt32.ofNat (subchunkPayload sub).length :: subchunkPayload sub) back := by
  have counted : (count32 sub.words).toNat = sub.words.length := toNat_count32 _ kept.words
  refine ⟨{ chunkCreate with
      chunkClassId := (sub.classId &&& 0xFFFF).toUInt16.toUInt8, dataVersion := subchunkVersionInfo sub &&& 0xFF
      chunkVersion := subchunkVersionInfo sub >>> 16 &&& 0xFF
      data := if count32 sub.words = 0 then none else some sub.words, ids := sub.ids },?_,?_⟩
  · have words : (if count32 sub.words = 0 then none else some sub.words).getD [] = sub.words := by
      split
      · rename_i zero
        rw [zero] at counted
        exact (List.length_eq_zero_iff.mp counted.symm).symm
      · rfl
    simp only [subChunkFields,SubChunkFields.mk.injEq]
    refine ⟨kept.classId.symm,?_,?_,words,trivial,kept.chunkRefs.symm,kept.managers.symm⟩
    · rw [versionInfo_dataVersion,low_byte_of_small kept.dataVersion]
    · rw [versionInfo_chunkVersion,low_byte_of_small kept.chunkVersion]
  · rw [subchunk_words,kept.tail]
    simp only [List.cons_append,List.nil_append]
    refine reads_cons (reads_chunkReadDword _) (reads_cons (reads_chunkReadLow _) (reads_cons (reads_chunkReadDword _)
      (reads_cons (reads_chunkReadDword _) (reads_cons (reads_chunkReadDword _) (reads_cons (reads_chunkReadDword _)
      (reads_cons (reads_chunkReadDword _) (reads_cons (reads_chunkReadDword _) ?_)))))))
    refine reads_bind (reads_takeWords counted) (reads_bind (reads_takeWords (toNat_count32 _ kept.ids)) ?_)
    have none : (count32 sub.chunkRefs).toNat = 0 := by
      rw [kept.chunkRefs]
      rfl
    rw [none]
    exact reads_still (fun pos rest ahead => ⟨pos,rfl,ahead⟩) (reads_pure _)

theorem agrees_subChunk (sub : Chunk) :
    Agrees data (answered (fun sub => .subChunk (some (subChunkFields sub))) (chunkReadSubChunk data))
      (UInt32.ofNat (subchunkPayload sub).length :: subchunkPayload sub) (.subChunk (some (subChunkFields sub)))
      (SubChunkKept sub) := by
  intro pos rest ahead
  constructor
  · intro run
    obtain ⟨back,ran,same⟩ := answered_success run
    have taken := chunkReadSubChunk_success (by rw [subchunk_words,List.append_assoc] at ahead; exact ahead) ran
    have fields := Option.some.inj (ChunkAnswer.subChunk.inj same)
    simp only [subChunkFields,SubChunkFields.mk.injEq] at fields
    obtain ⟨classId,dataVersion,chunkVersion,words,ids,chunkRefs,managers⟩ := fields
    rw [taken.dataVersion,versionInfo_dataVersion] at dataVersion
    rw [taken.chunkVersion,versionInfo_chunkVersion] at chunkVersion
    rw [taken.chunkRefs] at chunkRefs
    rw [taken.managers] at managers
    have wordsSize : sub.words.length = (count32 sub.words).toNat := (congrArg List.length words).trans taken.words
    have idsSize : sub.ids.length = (count32 sub.ids).toNat := (congrArg List.length ids).trans taken.ids
    refine ⟨classId.trans taken.classId,small_of_low_byte dataVersion.symm,small_of_low_byte chunkVersion.symm,?_,
      wordsSize ▸ UInt32.toNat_lt _,idsSize ▸ UInt32.toNat_lt _,chunkRefs,managers⟩
    by_contra early
    have none : (count32 sub.chunkRefs).toNat = 0 := by
      rw [chunkRefs]
      rfl
    have size := taken.size
    rw [none,← wordsSize,← idsSize,subchunk_words,if_neg early,chunkRefs,managers] at size
    simp only [List.length_append,List.length_cons,List.length_nil,List.take_nil] at size
    omega
  · intro kept
    obtain ⟨back,same,reads⟩ := reads_subChunk kept
    rw [← same]
    exact Reads.stops (reads_answered reads) ahead

end SubChunks

section Writes
variable {around : Surroundings} {w w' : ChunkWriter} {data spare words : List UInt32}

/-- A write that is known to go through went through so. -/
theorem appended_of_ok {action : Run ChunkWriter Unit}
    (wrote : ∃ w'', action.run w = (.ok (),w'') ∧ Appended w w'' words) (ok : action.run w = (.ok (),w')) :
    Appended w w' words := by
  obtain ⟨w'',run,appended⟩ := wrote
  rw [run,Prod.mk.injEq] at ok
  rwa [← ok.2]

theorem not_ok {action : Run ChunkWriter Unit} (stops : ∃ stop w'', action.run w = (.error stop,w'')) :
    action.run w ≠ (.ok (),w') := by
  obtain ⟨stop,w'',run⟩ := stops
  rw [run]
  simp

/-- The length of a string or a buffer, and so many of its bytes. -/
theorem counted_success {source : List UInt8} {bytes : Nat} {word : UInt32} (writing : Writing w)
    (inside : bytes ≤ source.length)
    (ok : (writerWriteDword around word >>= fun _ =>
      if 0 < bytes then writerWriteBytes around (some source) bytes else pure ()).run w = (.ok (),w')) :
    ∃ words, Appended w w' (word :: words) ∧ Packs words (source.take bytes) ∧ bytes + 3 < 2 ^ 32 := by
  by_cases small : bytes + 3 < 2 ^ 32
  · obtain ⟨w'',words,run,appended,packs⟩ := counted_appended around inside small word writing
    rw [run,Prod.mk.injEq] at ok
    rw [← ok.2]
    exact ⟨words,appended,packs,small⟩
  · exact absurd ok (not_ok (counted_overruns around inside (Nat.le_of_not_lt small) word writing))

theorem emptyString_appended {str : Option (List UInt8)} (empty : str.getD [] = []) (writing : Writing w) :
    ∃ w', (writerWriteString around str).run w = (.ok (),w') ∧ Appended w w' [0] := by
  obtain ⟨w₁,run,appended⟩ := put_appended around [0] writing
  refine ⟨w₁,?_,appended⟩
  rw [writerWriteString,Action.bind_ok _ (requireOpen_run writing.fresh)]
  have put : (writerWriteDword around (UInt32.ofNat 0)).run w = (.ok (),w₁) := run
  simp only [empty,List.length_nil]
  rw [Action.bind_ok _ put]
  rfl

/-- No answer of the read has the terminator that was not written. -/
theorem agrees_string {c : UInt8} {chars : List UInt8} {words : List UInt32} :
    Agrees data (answered (fun found => .bytes found.1 found.2) (chunkReadString data spare))
      (UInt32.ofNat (c :: chars).length :: words) (.bytes (some (c :: chars ++ [0])) (c :: chars).length) False := by
  intro pos rest ahead
  refine iff_of_false (fun run => ?_) id
  obtain ⟨found,ran,same⟩ := answered_success run
  have most := chunkReadString_bounded ahead ran
  rw [← (ChunkAnswer.bytes.inj same).1,Option.getD_some,List.length_append,UInt32.toNat_ofNat'] at most
  have less := Nat.mod_le (c :: chars).length (2 ^ 32)
  simp only [List.length_singleton] at most
  omega

/-- An accepted write leaves words on which the two sides agree, or not, as the condition says. -/
theorem SharedOp.write_success (op : SharedOp) (writing : Writing w) (ok : (op.write around).run w = (.ok (),w')) :
    ∃ words, Appended w w' words ∧ ∀ data spare, Agrees data (op.call.read data spare) words op.answer op.Fits := by
  cases op with
  | byte value =>
    exact ⟨_,appended_of_ok (put_appended around [value.toUInt32] writing) ok,fun _ _ =>
      agrees_reads (reads_chunkReadByte value)⟩
  | word value =>
    exact ⟨_,appended_of_ok (put_appended around [value.toUInt32] writing) ok,fun _ _ =>
      agrees_reads (reads_chunkReadWord value)⟩
  | dword value =>
    exact ⟨_,appended_of_ok (put_appended around [value] writing) ok,fun _ _ =>
      agrees_reads (reads_chunkReadDword value)⟩
  | int value =>
    exact ⟨_,appended_of_ok (put_appended around [value.toUInt32] writing) ok,fun _ _ =>
      agrees_reads (reads_chunkReadInt value.toUInt32)⟩
  | float bits =>
    exact ⟨_,appended_of_ok (put_appended around [bits] writing) ok,fun _ _ => agrees_reads (reads_chunkReadFloat bits)⟩
  | guid value =>
    exact ⟨_,appended_of_ok (put_appended around [value.d1,value.d2] writing) ok,fun _ _ =>
      agrees_reads (reads_chunkReadGuid value)⟩
  | objectId id =>
    exact ⟨_,appended_of_ok (objectId_appended around id writing) ok,fun _ _ => agrees_reads (reads_chunkReadObjectId id)⟩
  | managerInt manager value =>
    exact ⟨_,appended_of_ok (managerInt_appended around manager value writing) ok,fun _ _ =>
      agrees_reads (reads_chunkReadManagerInt manager value.toUInt32)⟩
  | floats bits =>
    refine ⟨_,appended_of_ok (put_appended around bits writing) ok,fun data _ => agrees_reads ?_⟩
    have all := reads_times bits (fun bits => [bits]) id fun bits _ =>
      (show Reads data (chunkReadFloat data) [bits] bits from reads_chunkReadFloat bits)
    rwa [List.map_id,List.flatMap_singleton'] at all
  | startObjectSequence count =>
    refine ⟨_,appended_of_ok (startObjectSequence_appended around count writing) ok,fun _ _ =>
      agrees_when (reads_sequenceStart count) fun pos rest found next _ run same _ => ?_⟩
    change IntCount count
    rw [ChunkAnswer.count.inj same]
    exact (chunkReadObjectSequenceStart_success run).1
  | startManagerSequence manager count =>
    refine ⟨_,appended_of_ok (startManagerSequence_appended around manager count writing) ok,fun _ _ =>
      agrees_when (reads_managerSequence manager count) fun pos rest found next _ run same _ => ?_⟩
    have given : count = found.2 := (ChunkAnswer.managerSequence.inj same).2
    change count < 2 ^ 32
    rw [given]
    exact (chunkStartManagerReadSequence_success run).1
  | startSubchunkSequence count =>
    refine ⟨_,appended_of_ok (startSubchunkSequence_appended around count writing) ok,fun data _ =>
      agrees_when (fun small => ?_) fun pos rest found next _ run same _ => ?_⟩
    · have length : (UInt32.ofNat count).toNat = count := by rw [UInt32.toNat_ofNat',Nat.mod_eq_of_lt small]
      have read : Reads data (chunkStartReadSubChunkSequence data) [UInt32.ofNat count] (UInt32.ofNat count).toNat :=
        reads_return (f := UInt32.toNat) (reads_chunkReadDword _)
      rwa [length] at read
    · obtain ⟨word,_,taken⟩ := return_success run
      change count < 2 ^ 32
      rw [ChunkAnswer.count.inj same,taken]
      exact word.toNat_lt
  | buffer source =>
    rw [SharedOp.write,writerWriteBuffer_open _ _ writing] at ok
    obtain ⟨words,appended,packs,small⟩ := counted_success writing (Nat.le_refl _) ok
    rw [List.take_length] at packs
    exact ⟨_,appended,fun _ _ => agrees_reads (reads_chunkReadBuffer packs small)⟩
  | string str =>
    rcases str with _ | (_ | ⟨c,chars⟩)
    · exact ⟨_,appended_of_ok (emptyString_appended rfl writing) ok,fun _ _ => agrees_reads reads_nullString⟩
    · exact ⟨_,appended_of_ok (emptyString_appended rfl writing) ok,fun _ _ => agrees_reads reads_nullString⟩
    · rw [SharedOp.write,writerWriteString_open _ _ writing] at ok
      obtain ⟨words,appended,_⟩ := counted_success writing (Nat.mod_le _ _) ok
      exact ⟨_,appended,fun _ _ => agrees_string⟩
  | subchunk sub =>
    cases sub with
    | none =>
      refine ⟨_,appended_of_ok (nullSubchunk_appended around writing) ok,fun data spare pos rest ahead =>
        iff_of_false (fun run => ?_) id⟩
      obtain ⟨back,_,same⟩ := answered_success run
      cases ChunkAnswer.subChunk.inj same
    | some sub => exact ⟨_,appended_of_ok (subchunk_appended around sub writing) ok,fun _ _ => agrees_subChunk sub⟩

end Writes

end Libnmo.Format
