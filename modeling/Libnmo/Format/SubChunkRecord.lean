import Libnmo.Format.ChunkPlaces
import Libnmo.Format.SharedOps

/-! The record of a sub-chunk in the data of its parent, written and read back. The
header has a word for the legacy class and one for the versions, but none for the
class, the options or the managers, and the sub-chunks of the sub-chunk are skipped. -/
namespace Libnmo.Format
open Core Lib Lib.LittleEndian Lib.Cursor

/-- Eight words of a header, and the lists. -/
def subChunkRecord (around : Surroundings) (sub : Chunk) : List UInt32 :=
  [UInt32.ofNat (8 + sub.dataSize + sub.ids.length + sub.chunks.length - 1),sub.chunkClassId.toUInt16.toUInt32,
    sub.dataVersion ||| sub.chunkVersion <<< 16,UInt32.ofNat sub.dataSize,0,count32 sub.ids,count32 sub.chunks] ++
  (0 :: (sub.words ++ (sub.ids ++ (List.range sub.chunks.length).map around.addresses)))

/-- The fields that are to come back with a sub-chunk. -/
structure RecordReturned (sub back : Chunk) : Prop where
  classId : back.classId = sub.classId
  chunkClassId : back.chunkClassId = sub.chunkClassId
  options : back.chunkOptions = sub.chunkOptions
  words : back.words = sub.words
  ids : back.ids = sub.ids
  managers : back.managers = sub.managers

/-- What the record has no word for is not there, and the counts fit their words. -/
structure RecordHolds (sub : Chunk) : Prop where
  classId : sub.classId = 0
  options : sub.chunkOptions = 0
  managers : sub.managers = []
  words : sub.words.length < 2 ^ 32
  ids : sub.ids.length < 2 ^ 32
  chunks : sub.chunks.length < 2 ^ 32

/-- A read at the place of the record gives the sub-chunk, and leaves the position where the write left it. -/
def SubChunkReturns (c : Chunk) (pos : Nat) (sub : Chunk) : Prop :=
  ∃ back, (chunkGoto pos >>= fun _ => onPosition fun data _ => chunkReadSubChunk data).run c = (.ok back,c) ∧
    RecordReturned sub back

section Writing
variable {around : Surroundings} {words words' : List UInt32} {first : Run Chunk Unit} {next : Unit → Run Chunk Unit}

theorem putting_then (head : Putting (· = words) first) (tail : Putting (· = words') (next ())) :
    Putting (· = words ++ words') (first >>= next) := by
  refine (putting_bind head tail).imp ?_
  rintro _ ⟨_,_,rfl,rfl,rfl⟩
  rfl

/-- A change of other fields than the buffer and the position. -/
theorem putting_update (f : Chunk → Chunk) (same : ∀ c, (f c).data = c.data ∧ (f c).spare = c.spare ∧
    (f c).parserState.map ParserState.currentPos = c.parserState.map ParserState.currentPos) :
    Putting (· = []) (Action.update f) := by
  intro c c' pos place ran
  cases ran
  obtain ⟨data,spare,state⟩ := same c
  have size : (f c).dataSize = c.dataSize := congrArg List.length (words_congr data)
  exact ⟨[],rfl,state.trans place,nofun,fun i _ _ => by rw [buffer_congr data spare],Nat.le_of_eq size.symm,
    fun some => absurd rfl some⟩

theorem putting_appendSubChunk (sub : Chunk) : Putting (· = []) (appendSubChunk sub) :=
  putting_update _ fun _ => ⟨rfl,rfl,rfl⟩

theorem putting_embedLast (offset : Nat) : Putting (· = []) (embedLast offset) :=
  putting_update _ fun _ => ⟨rfl,rfl,rfl⟩

theorem packs_words (packs : Packs words (encodeWords words')) : words = words' := by
  obtain ⟨length,same⟩ := packs
  rw [length_encodeWords] at length same
  rw [List.take_of_length_le (by rw [length_encodeWords]; omega)] at same
  rw [← decodeWords_encodeWords words,same,decodeWords_encodeWords]

theorem putting_wordBuffer (words : List UInt32) :
    Putting (· = words) (chunkWriteBufferNoSize around (encodeWords words) (words.length * 4)) := by
  have length : words.length * 4 = (encodeWords words).length := by rw [length_encodeWords,Nat.mul_comm]
  by_cases none : words = []
  · subst none
    intro c c' pos place ran
    cases ran
    exact ⟨[],rfl,put_nothing place⟩
  · have some' : words.length * 4 ≠ 0 := by
      have positive := List.length_pos_iff.mpr none
      omega
    rw [chunkWriteBufferNoSize,if_neg some',length]
    refine (putting_bind (putting_checkSize _) (putting_bytes _)).imp ?_
    rintro _ ⟨_,_,rfl,rfl,packs⟩
    exact packs_words packs

theorem putting_record (sub : Chunk) : Putting (· = subChunkRecord around sub) (writeSubChunkWords around sub) := by
  have pointers := @putting_wordBuffer around ((List.range sub.chunks.length).map around.addresses)
  rw [List.length_map,List.length_range] at pointers
  unfold writeSubChunkWords
  refine (putting_then (putting_writeWords [_]) (putting_then (putting_writeWords [_]) (putting_then (putting_writeWords [_])
    (putting_then (putting_writeWords [_]) (putting_then (putting_writeWords [_]) (putting_then (putting_writeWords [_])
    (putting_then (putting_writeWords [_]) (putting_then (putting_writeWords [_]) (putting_then (putting_wordBuffer _)
    (putting_then (putting_wordBuffer _) pointers)))))))))).imp ?_
  rintro _ rfl
  rfl

/-- What an accepted write put in the data of the parent. -/
theorem subChunk_put {c c' : Chunk} {sub : Chunk} (written : (chunkWriteSubChunk around sub).run c = (.ok (),c')) :
    Put c c' (chunkGetPosition c) (subChunkRecord around sub) := by
  obtain ⟨_,c₁,appended,written⟩ := Action.bind_success written
  obtain ⟨state,_,read,written⟩ := Action.bind_success written
  cases read
  have same : c₁.parserState = c.parserState := by
    cases appended
    rfl
  cases held : c.parserState with
  | none =>
    rw [same,held] at written
    cases written
  | some state =>
    rw [same,held] at written
    have place : c.parserState.map ParserState.currentPos = some (chunkGetPosition c) := by
      rw [chunkGetPosition,held]
      rfl
    obtain ⟨_,c₂,recorded,embedded⟩ := Action.bind_success written
    obtain ⟨_,rfl,added⟩ := putting_appendSubChunk sub c c₁ _ place appended
    obtain ⟨_,rfl,record⟩ := putting_record sub c₁ c₂ _ added.place recorded
    obtain ⟨_,rfl,last⟩ := putting_embedLast _ c₂ c' _ record.place embedded
    have whole := added.trans (record.trans last)
    rwa [List.nil_append,List.append_nil] at whole

end Writing

section Reading
variable {data : List UInt32} {around : Surroundings} {sub back : Chunk}

/-- The chunk that the read makes of the record. -/
def recordBack (sub : Chunk) : Chunk := { chunkCreate with
  chunkClassId := sub.chunkClassId
  dataVersion := (sub.dataVersion ||| sub.chunkVersion <<< 16) &&& 0xFF
  chunkVersion := (sub.dataVersion ||| sub.chunkVersion <<< 16) >>> 16 &&& 0xFF
  data := if UInt32.ofNat sub.dataSize = 0 then none else some sub.words
  ids := sub.ids }

theorem words_recordBack (small : sub.words.length < 2 ^ 32) : (recordBack sub).words = sub.words := by
  have size : (UInt32.ofNat sub.dataSize).toNat = sub.words.length := toNat_count32 sub.words small
  change (if UInt32.ofNat sub.dataSize = 0 then none else some sub.words).getD [] = sub.words
  split
  · rename_i zero
    rw [zero] at size
    exact (List.length_eq_zero_iff.mp size.symm).symm
  · rfl

theorem reads_record (words : sub.words.length < 2 ^ 32) (ids : sub.ids.length < 2 ^ 32)
    (chunks : sub.chunks.length < 2 ^ 32) :
    Reads data (chunkReadSubChunk data) (subChunkRecord around sub) (recordBack sub) := by
  have pointers : (count32 sub.chunks).toNat = ((List.range sub.chunks.length).map around.addresses).length := by
    rw [toNat_count32 _ chunks,List.length_map,List.length_range]
  refine reads_cons (reads_chunkReadDword _) (reads_cons (reads_chunkReadWord _) (reads_cons (reads_chunkReadDword _)
    (reads_cons (reads_chunkReadDword _) (reads_cons (reads_chunkReadDword _) (reads_cons (reads_chunkReadDword _)
    (reads_cons (reads_chunkReadDword _) (reads_cons (reads_chunkReadDword _) ?_)))))))
  refine reads_bind (reads_takeWords (toNat_count32 sub.words words)) (reads_bind (reads_takeWords (toNat_count32 _ ids)) ?_)
  intro pos rest ahead
  refine ⟨pos + (count32 sub.chunks).toNat,?_,?_⟩
  · have legacy : sub.chunkClassId.toUInt16.toUInt8 = sub.chunkClassId := UInt8.toUInt8_toUInt16 _
    rw [legacy]
    rfl
  · rw [pointers]
    exact ahead.skip

end Reading

/-- The sub-chunk comes back with its fields, and the position with it, exactly when the record holds them. -/
theorem subChunk_returns_iff (around : Surroundings) (c c' sub : Chunk)
    (written : (chunkWriteSubChunk around sub).run c = (.ok (),c')) :
    SubChunkReturns c' (chunkGetPosition c) sub ↔ RecordHolds sub := by
  have put := subChunk_put written
  have ahead := put.ahead (List.cons_ne_nil _ _)
  constructor
  · rintro ⟨back,run,returned⟩
    rw [onPosition_back put (List.cons_ne_nil _ _)] at run
    have taken := chunkReadSubChunk_success (by rw [subChunkRecord,List.append_assoc] at ahead; exact ahead) run
    have words : sub.words.length = (UInt32.ofNat sub.dataSize).toNat := returned.words ▸ taken.words
    have ids : sub.ids.length = (count32 sub.ids).toNat := returned.ids ▸ taken.ids
    have size : 8 + (sub.words.length + (sub.ids.length + sub.chunks.length)) =
        8 + (UInt32.ofNat sub.dataSize).toNat + (count32 sub.ids).toNat + (count32 sub.chunks).toNat := by
      rw [← taken.size,Nat.add_sub_cancel_left,subChunkRecord]
      simp only [List.length_append,List.length_cons,List.length_nil,List.length_map,List.length_range]
      omega
    have chunks : sub.chunks.length = (count32 sub.chunks).toNat := by omega
    have fits : sub.words.length < 2 ^ 32 ∧ sub.ids.length < 2 ^ 32 ∧ sub.chunks.length < 2 ^ 32 :=
      ⟨words ▸ UInt32.toNat_lt _,ids ▸ UInt32.toNat_lt _,chunks ▸ UInt32.toNat_lt _⟩
    have whole := Reads.stops (reads_record fits.1 fits.2.1 fits.2.2) ahead
    rw [whole] at run
    cases run
    exact ⟨returned.classId.symm,returned.options.symm,returned.managers.symm,fits.1,fits.2.1,fits.2.2⟩
  · intro holds
    refine ⟨recordBack sub,?_,holds.classId.symm,rfl,holds.options.symm,words_recordBack holds.words,rfl,holds.managers.symm⟩
    rw [onPosition_back put (List.cons_ne_nil _ _)]
    exact Reads.stops (reads_record holds.words holds.ids holds.chunks) ahead

theorem subChunk_returns_started :
    let c := ((chunkStartWrite {}).run chunkCreate).2
    let c' := ((chunkWriteSubChunk {} { chunkCreate with data := some [5] }).run c).2
    SubChunkReturns c' (chunkGetPosition c) { chunkCreate with data := some [5] } ↔
      RecordHolds { chunkCreate with data := some [5] } :=
  subChunk_returns_iff {} _ _ _ rfl

/-- A sub-chunk with an object ID comes back with the ID's position, but without the flag that it has one. -/
theorem subChunk_unflagged :
    let c := ((chunkStartWrite {}).run chunkCreate).2
    let sub := ((chunkWriteObjectId {} 7).run c).2
    let c' := ((chunkWriteSubChunk {} sub).run c).2
    sub.chunkOptions = optionIds ∧ ((chunkWriteSubChunk {} sub).run c).1 = .ok () ∧
      ((chunkGoto (chunkGetPosition c) >>= fun _ => onPosition fun data _ => chunkReadSubChunk data).run c').1.map
        (fun back => (back.ids,back.chunkOptions)) = .ok (sub.ids,0) ∧
      ¬ SubChunkReturns c' (chunkGetPosition c) sub := by
  refine ⟨rfl,rfl,rfl,?_⟩
  rintro ⟨back,run,returned⟩
  have found := congrArg (fun answer => answer.1.map Chunk.chunkOptions) run
  have lost : Except.ok (0 : UInt32) = Except.ok back.chunkOptions := found
  have flagged : back.chunkOptions = optionIds := returned.options
  rw [flagged] at lost
  cases lost

end Libnmo.Format
