import Libnmo.Format.ChunkApi
import Libnmo.Lib.Packed

/-! What the typed writes of the chunk API leave behind, while a chunk is filled from
its start. The position is then the size of the data, so that a growth, which copies
the words up to the position, copies all of them. -/
namespace Libnmo.Format
open Core Lib Lib.LittleEndian Lib.Cursor Lib.Patch

/-- A chunk in write mode whose position is at the end of its data. -/
def Filling (c : Chunk) : Prop := c.parserState.map ParserState.currentPos = some c.dataSize

/-- Words were appended, and the position is behind them. -/
structure Fills (c c' : Chunk) (words : List UInt32) : Prop where
  words : c'.words = c.words ++ words
  filling : Filling c'

theorem Filling.fills {c : Chunk} (filling : Filling c) : Fills c c [] := ⟨(List.append_nil _).symm,filling⟩

theorem Fills.trans {c c' c'' : Chunk} {words words' : List UInt32} (first : Fills c c' words)
    (second : Fills c' c'' words') : Fills c c'' (words ++ words') :=
  ⟨by rw [second.words,first.words,List.append_assoc],second.filling⟩

theorem Filling.state {c : Chunk} (filling : Filling c) :
    ∃ state, c.parserState = some state ∧ state.currentPos = c.dataSize := Option.map_eq_some_iff.mp filling

section Storing
variable {around : Surroundings} {c c' : Chunk}

/-- A change of other fields than the data and the position. -/
theorem fills_of_same (filling : Filling c) (words : c'.words = c.words) (state : c'.parserState = c.parserState) :
    Fills c c' [] :=
  ⟨by rw [words,List.append_nil],by rw [Filling,state,Chunk.dataSize,words]; exact filling⟩

theorem take_buffer (c : Chunk) : c.buffer.take c.dataSize = c.words := by
  rw [Chunk.buffer,Chunk.dataSize,List.take_left]

theorem checkSize_success {neededDwords : Nat} (filling : Filling c)
    (ok : (chunkCheckSize around neededDwords).run c = (.ok (),c')) : Fills c c' [] := by
  obtain ⟨state,found,pos⟩ := filling.state
  simp only [chunkCheckSize,found,pos,take_buffer] at ok
  split at ok
  · simp only [Prod.mk.injEq,true_and] at ok
    subst ok
    exact filling.fills
  · split at ok
    · simp at ok
    · split at ok
      · simp at ok
      · split at ok
        · simp at ok
        · simp only [Prod.mk.injEq,true_and] at ok
          subst ok
          refine fills_of_same filling ?_ rfl
          simp only [Chunk.replaceBuffer,Chunk.words,Option.getD_some]
          exact List.take_left' rfl

theorem storeWords_success {words : List UInt32} (filling : Filling c)
    (ok : (storeWords words).run c = (.ok (),c')) : Fills c c' words := by
  obtain ⟨state,found,pos⟩ := filling.state
  simp only [storeWords,found,pos] at ok
  split at ok
  · rename_i room
    simp only [Prod.mk.injEq,true_and] at ok
    subst ok
    have content : ((c.setBuffer (overwrite c.buffer c.dataSize words) (max c.dataSize (c.dataSize + words.length))).setPos
        (c.dataSize + words.length)).words = c.words ++ words := by
      rw [Nat.max_eq_right (Nat.le_add_right ..)]
      simp only [Chunk.setPos,Chunk.setBuffer,Chunk.words,Option.getD_some,overwrite]
      rw [← Chunk.words,take_buffer,List.take_left' (by rw [List.length_append]; rfl)]
    refine ⟨content,?_⟩
    have size := congrArg List.length content
    rw [List.length_append] at size
    rw [Filling]
    refine Eq.trans ?_ (congrArg some size.symm)
    simp only [Chunk.setPos,Chunk.setBuffer,found,Option.map_some]
    rfl
  · simp at ok

theorem storeBytes_success {source : List UInt8} {size : Nat} (filling : Filling c)
    (ok : (storeBytes source size).run c = (.ok (),c')) :
    ∃ words, Fills c c' words ∧ Packs words (source.take size) ∧ words.length = (size + 3) / 4 := by
  obtain ⟨state,found,pos⟩ := filling.state
  simp only [storeBytes,found,Option.getD_some,pos] at ok
  split at ok
  · simp at ok
  · rename_i inside
    split at ok
    · simp at ok
    · rename_i room
      have length : (source.take size).length = size := by
        rw [List.length_take]
        omega
      have old : (slice c.buffer c.dataSize ((size + 3) / 4)).length = (size + 3) / 4 := by
        refine length_slice _ _ _ ?_
        rw [Chunk.buffer,List.length_append,← Chunk.dataSize,← Chunk.dataCapacity]
        omega
      have enough : (source.take size).length ≤ 4 * (slice c.buffer c.dataSize ((size + 3) / 4)).length := by omega
      have stored := length_copiedOver enough
      have packs := packs_copiedOver enough
      rw [length,List.take_of_length_le (by omega)] at packs
      exact ⟨_,storeWords_success filling ok,packs,stored.trans old⟩

theorem writeWords_success {words : List UInt32} (filling : Filling c)
    (ok : (writeWords around words).run c = (.ok (),c')) : Fills c c' words := by
  obtain ⟨_,_,checked,ok⟩ := Action.bind_success ok
  have room := checkSize_success filling checked
  have stored := room.trans (storeWords_success room.filling ok)
  rwa [List.nil_append] at stored

/-- A length, and the bytes behind it: a string or a buffer. -/
theorem storeCounted_success {needed : Nat} {word : UInt32} {source : List UInt8} (filling : Filling c)
    (ok : (do
        chunkCheckSize around needed
        storeWords [word]
        storeBytes source source.length : Run Chunk Unit).run c = (.ok (),c')) :
    ∃ words, Fills c c' (word :: words) ∧ Packs words source := by
  obtain ⟨_,_,checked,ok⟩ := Action.bind_success ok
  obtain ⟨_,_,counted,ok⟩ := Action.bind_success ok
  have room := checkSize_success filling checked
  have first := room.trans (storeWords_success room.filling counted)
  obtain ⟨words,stored,packs,_⟩ := storeBytes_success first.filling ok
  rw [List.take_length] at packs
  exact ⟨words,first.trans stored,packs⟩

theorem writeObjectId_success {id : UInt32} (filling : Filling c)
    (ok : (chunkWriteObjectId around id).run c = (.ok (),c')) : Fills c c' [id] := by
  obtain ⟨_,c₁,checked,ok⟩ := Action.bind_success ok
  obtain ⟨_,c₂,recorded,ok⟩ := Action.bind_success ok
  have room := checkSize_success filling checked
  have noted : Fills c₁ c₂ [] := by
    split at recorded
    · simp only [recordObjectId,Action.update_apply,Prod.mk.injEq,true_and] at recorded
      subst recorded
      exact fills_of_same room.filling rfl rfl
    · simp only [Action.pure_apply,Prod.mk.injEq,true_and] at recorded
      subst recorded
      exact room.filling.fills
  exact (room.trans noted).trans (storeWords_success noted.filling ok)

theorem setOption_success {option : UInt32} (filling : Filling c) (ok : (setOption option).run c = (.ok (),c')) :
    Fills c c' [] := by
  simp only [setOption,Action.update_apply,Prod.mk.injEq,true_and] at ok
  subst ok
  exact fills_of_same filling rfl rfl

theorem writeObjectSequenceStart_success {count : Nat} (filling : Filling c)
    (ok : (chunkWriteObjectSequenceStart around count).run c = (.ok (),c')) : Fills c c' [UInt32.ofNat count] := by
  obtain ⟨_,_,marked,ok⟩ := Action.bind_success ok
  have option := setOption_success filling marked
  exact option.trans (writeWords_success option.filling ok)

theorem startManagerSequence_success {managerGuid : Guid} {count : Nat} (filling : Filling c)
    (ok : (chunkStartManagerSequence around managerGuid count).run c = (.ok (),c')) :
    Fills c c' [UInt32.ofNat count,managerGuid.d1,managerGuid.d2] := by
  obtain ⟨_,_,marked,ok⟩ := Action.bind_success ok
  obtain ⟨_,_,counted,ok⟩ := Action.bind_success ok
  have option := setOption_success filling marked
  have first := option.trans (writeWords_success option.filling counted)
  exact first.trans (writeWords_success first.filling ok)

theorem writeManagerInt_success {managerGuid : Guid} {value : UInt32} (filling : Filling c)
    (ok : (chunkWriteManagerInt around managerGuid value).run c = (.ok (),c')) :
    Fills c c' [managerGuid.d1,managerGuid.d2,value] := by
  obtain ⟨_,c₁,checked,ok⟩ := Action.bind_success ok
  obtain ⟨_,c₂,recorded,ok⟩ := Action.bind_success ok
  have room := checkSize_success filling checked
  have noted : Fills c₁ c₂ [] := by
    simp only [Action.update_apply,Prod.mk.injEq,true_and] at recorded
    subst recorded
    exact fills_of_same room.filling rfl rfl
  exact (room.trans noted).trans (storeWords_success noted.filling ok)

theorem writeEach_success {α : Type} {write : α → Run Chunk Unit} {word : α → UInt32} {values : List α}
    (each : ∀ (c c' : Chunk) a, Filling c → (write a).run c = (.ok (),c') → Fills c c' [word a])
    (filling : Filling c) (ok : (writeEach write values).run c = (.ok (),c')) : Fills c c' (values.map word) := by
  induction values generalizing c with
  | nil =>
    simp only [writeEach,Action.pure_apply,Prod.mk.injEq,true_and] at ok
    subst ok
    exact filling.fills
  | cons value rest ih =>
    obtain ⟨_,_,first,ok⟩ := Action.bind_success ok
    have head := each _ _ _ filling first
    exact head.trans (ih head.filling ok)

theorem writeCounted_success {α : Type} {write : α → Run Chunk Unit} {word : α → UInt32} {values : List α}
    (each : ∀ (c c' : Chunk) a, Filling c → (write a).run c = (.ok (),c') → Fills c c' [word a]) (filling : Filling c)
    (ok : (writeCounted around write (some values) values.length).run c = (.ok (),c')) :
    Fills c c' (UInt32.ofNat values.length :: values.map word) := by
  obtain ⟨_,_,counted,ok⟩ := Action.bind_success ok
  obtain ⟨_,_,entries,ok⟩ := Action.bind_success ok
  rw [if_neg (Nat.lt_irrefl _)] at ok
  simp only [Action.pure_apply,Prod.mk.injEq,true_and] at ok
  subst ok
  rw [List.take_length] at entries
  have count := writeWords_success filling counted
  exact count.trans (writeEach_success each count.filling entries)

end Storing

theorem startWrite_success {around : Surroundings} {c c' : Chunk} (ok : (chunkStartWrite around).run c = (.ok (),c')) :
    Filling c' ∧ c'.words = [] := by
  have run : (chunkStartWrite around).run c = (.ok (),_) := rfl
  rw [run,Prod.mk.injEq] at ok
  rw [← ok.2]
  cases data : c.data <;> simp [data,Filling,Chunk.setPos,Chunk.resize,Chunk.dataSize,Chunk.words]

end Libnmo.Format
