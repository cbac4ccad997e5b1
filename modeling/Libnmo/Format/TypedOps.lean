import Libnmo.Format.ParserOps
import Libnmo.Format.ParserRuns
import Libnmo.Format.TypedWrites

/-! What a chunk writer stores is what a chunk parser reads, for every sequence of
typed calls, as long as sizes survive their rounding. -/
namespace Libnmo.Format
open Core Lib Lib.LittleEndian Lib.Cursor

/-- An array as a caller gives it: so many elements of a size, or a null pointer. -/
structure SizedArray where
  elementCount : Int32
  elementSize : Int32
  src : Option (List UInt8)
  sized : ∀ bytes, src = some bytes → bytes.length = elementCount.toInt.toNat * elementSize.toInt.toNat

/-- The bytes and the count; an array without elements is none. -/
def SizedArray.value (array : SizedArray) : Option (List UInt8) × Int32 := match array.src with
  | none => (none,0)
  | some bytes => if array.elementCount ≤ 0 ∨ array.elementSize ≤ 0 then (none,0) else (some bytes,array.elementCount)

def SizedArray.size (array : SizedArray) : Nat := (array.value.1.getD []).length

/-- An array whose size an `int` cannot hold is stored as none. -/
def SizedArray.stored (array : SizedArray) : Option (List UInt8) × Int32 :=
  if array.size > 2 ^ 31 - 1 then (none,0) else array.value

inductive TypedOp
  | byte (value : UInt8)
  | word (value : UInt16)
  | dword (value : UInt32)
  | int (value : Int32)
  | float (bits : UInt32)
  | guid (value : Guid)
  | dwordAsWords (value : UInt32)
  | dwordArrayAsWords (values : List UInt32)
  | string (str : List UInt8)
  | buffer (source : List UInt8)
  | bytes (source : List UInt8)
  | bufferNosize (source : List UInt8)
  | bufferLendian16 (source : List UInt8)
  | bufferNosizeLendian16 (values : List UInt16)
  | arrayLendian (array : SizedArray)
  | arrayLendian16 (array : SizedArray)
  | objectId (id : UInt32)
  | managerInt (manager : Guid) (value : Int32)

namespace TypedOp

def write (around : Surroundings) : TypedOp → Run ChunkWriter Unit
  | byte value => writerWriteByte around value
  | word value => writerWriteWord around value
  | dword value => writerWriteDword around value
  | int value => writerWriteInt around value
  | float bits => writerWriteFloat around bits
  | guid value => writerWriteGuid around value
  | dwordAsWords value => writerWriteDwordAsWords around value
  | dwordArrayAsWords values => writerWriteArrayDwordAsWords around (some values) values.length
  | string str => writerWriteString around (some str)
  | buffer source => writerWriteBuffer around (some source) source.length
  | bytes source => writerWriteBytes around (some source) source.length
  | bufferNosize source => writerWriteBufferNosize around source.length (some source)
  | bufferLendian16 source => writerWriteBufferLendian16 around source.length (some source)
  | bufferNosizeLendian16 values => writerWriteBufferNosizeLendian16 around values.length (some values)
  | arrayLendian array => writerWriteArrayLendian around array.elementCount array.elementSize array.src
  | arrayLendian16 array => writerWriteArrayLendian16 around array.elementCount array.elementSize array.src
  | objectId id => writerWriteObjectId around id
  | managerInt manager value => writerWriteManagerInt around manager value

/-- The matching call of a parser. -/
def call : TypedOp → ParserOp
  | byte _ => .byte
  | word _ => .word
  | dword _ => .dword
  | int _ => .int
  | float _ => .float
  | guid _ => .guid
  | dwordAsWords _ => .dwordAsWords
  | dwordArrayAsWords values => .dwordArrayAsWords values.length
  | string _ => .string
  | buffer _ => .buffer
  | bytes source => .bytes source.length
  | bufferNosize source => .bufferNosize source.length
  | bufferLendian16 source => .bufferLendian16 source.length
  | bufferNosizeLendian16 values => .bufferNosizeLendian16 values.length
  | arrayLendian _ => .arrayLendian
  | arrayLendian16 _ => .arrayLendian16
  | objectId _ => .objectId
  | managerInt _ _ => .managerInt

/-- The value that is given to the call. -/
def given : TypedOp → ParserAnswer
  | byte value => .byte value
  | word value => .word value
  | dword value | float value | dwordAsWords value | objectId value => .dword value
  | int value => .int value
  | guid value => .guid value
  | dwordArrayAsWords values => .dwords values
  | string str => .bytes str
  | buffer source => .buffer (if source = [] then none else some source)
  | bytes source | bufferNosize source | bufferLendian16 source => .bytes source
  | bufferNosizeLendian16 values => .words values
  | arrayLendian array | arrayLendian16 array => .array array.value.1 array.value.2
  | managerInt manager value => .managerInt (some manager) value

/-- What the matching call answers: the value, or no array for one that is oversized. -/
def answer : TypedOp → ParserAnswer
  | arrayLendian array => .array array.stored.1 array.stored.2
  | op => op.given

/-- Sizes whose rounding to dwords does not wrap, in `size_t` or in the `int` of an array. -/
def Fits : TypedOp → Prop
  | string source | buffer source | bytes source | bufferNosize source | bufferLendian16 source =>
    source.length + 3 < 2 ^ 32
  | dwordArrayAsWords values => values.length ≤ (2 ^ 64 - 1) / 2
  | arrayLendian array => array.size + 3 < 2 ^ 31 ∨ array.size > 2 ^ 31 - 1
  | arrayLendian16 array => array.size + 3 < 2 ^ 32
  | _ => True

/-- The words that the value takes. -/
def size : TypedOp → Nat
  | byte _ | word _ | dword _ | int _ | float _ | objectId _ => 1
  | guid _ | dwordAsWords _ => 2
  | managerInt _ _ => 3
  | dwordArrayAsWords values => 2 * values.length
  | string source | buffer source => 1 + (source.length + 3) / 4
  | bytes source | bufferNosize source | bufferLendian16 source => (source.length + 3) / 4
  | bufferNosizeLendian16 values => values.length
  | arrayLendian array => 2 + ((array.stored.1.getD []).length + 3) / 4
  | arrayLendian16 array => 2 + (array.size + 3) / 4

/-- What the call does with the cursor, in a parser without a file context. -/
def reader (data : List UInt32) : TypedOp → Run Nat ParserAnswer
  | byte _ => answering .byte (parserByte data)
  | word _ => answering .word (parserWord data)
  | dword _ | objectId _ => answering .dword (parserDword data)
  | int _ => answering .int (parserInt data)
  | float _ => answering .dword (parserFloat data)
  | guid _ => answering .guid (parserGuid data)
  | dwordAsWords _ => answering .dword (parserDwordAsWords data)
  | dwordArrayAsWords values => answering .dwords (parserDwordArrayAsWords data values.length)
  | string _ => answering .bytes (parserString data)
  | buffer _ => answering .buffer (parserBuffer data)
  | bytes source => answering .bytes (parserBytes data source.length)
  | bufferNosize source => answering .bytes (parserBufferNosize data source.length)
  | bufferLendian16 source => answering .bytes (parserBufferLendian16 data source.length)
  | bufferNosizeLendian16 values => answering .words (parserBufferNosizeLendian16 data values.length)
  | arrayLendian _ => answering (fun found => .array found.1 found.2) (parserArrayLendian data)
  | arrayLendian16 _ => answering (fun found => .array found.1 found.2) (parserArrayLendian16 data)
  | managerInt _ _ => answering (fun found => .managerInt found.1 found.2) (parserManagerInt data)

end TypedOp

theorem step_reader (c : Chunk) (cursor : Nat) (op : TypedOp) :
    (parserStep op.call).run { parserCreate c with cursor := cursor } =
      (((op.reader c.words).run cursor).1,{ parserCreate c with cursor := ((op.reader c.words).run cursor).2 }) := by
  cases op with
  | objectId id =>
    rw [TypedOp.call,TypedOp.reader,parserStep,answering,answering,parserObjectId,Action.bind_apply,Action.bind_apply]
    cases word : c.words[cursor]? with
    | none =>
      have run : (parserDword c.words).run cursor = (.error (.error .eof ""),cursor) := by simp only [parserDword,word]
      rw [Action.bind_error _ run,show (onCursor parserDword).run { parserCreate c with cursor := cursor } =
        (.error (.error .eof ""),{ parserCreate c with cursor := cursor }) by simp only [onCursor,parserCreate,run]]
    | some id =>
      have run : (parserDword c.words).run cursor = (.ok id,cursor + 1) := by simp only [parserDword,word]
      have plain : resolveObjectId { parserCreate c with cursor := cursor + 1 } id = id := by
        simp only [resolveObjectId,parserCreate,Option.bind_none]
        cases hasFlag c.chunkOptions optionFile <;> rfl
      rw [Action.bind_ok _ run,show (onCursor parserDword).run { parserCreate c with cursor := cursor } =
        (.ok id,{ parserCreate c with cursor := cursor + 1 }) by simp only [onCursor,parserCreate,run]]
      dsimp only
      rw [Action.bind_ok _ (Action.read_apply _ _),plain]
      rfl
  | _ => rfl

theorem SizedArray.empty_or (array : SizedArray) :
    array.value = (none,0) ∧ (array.src = none ∨ array.elementCount ≤ 0 ∨ array.elementSize ≤ 0) ∨
      ∃ bytes, array.src = some bytes ∧ ¬ (array.elementCount ≤ 0 ∨ array.elementSize ≤ 0) ∧
        array.value = (some bytes,array.elementCount) ∧ 0 < bytes.length ∧ array.size = bytes.length := by
  cases given : array.src with
  | none => exact .inl ⟨by rw [value,given],.inl rfl⟩
  | some bytes =>
    by_cases empty : array.elementCount ≤ 0 ∨ array.elementSize ≤ 0
    · exact .inl ⟨by simp only [value,given,if_pos empty],.inr empty⟩
    · have value : array.value = (some bytes,array.elementCount) := by simp only [value,given,if_neg empty]
      refine .inr ⟨bytes,rfl,empty,value,?_,by rw [size,value,Option.getD_some]⟩
      rw [array.sized bytes given]
      rw [Int32.le_iff_toInt_le,Int32.le_iff_toInt_le,Int32.toInt_zero] at empty
      exact Nat.mul_pos (by omega) (by omega)

section Stepping
variable {around : Surroundings} {w : ChunkWriter} {data : List UInt32}

theorem reads_answering {α : Type} {answer : α → ParserAnswer} {action : Run Nat α} {words : List UInt32} {value : α}
    (reads : Reads data action words value) : Reads data (answering answer action) words (answer value) :=
  reads_return reads

theorem SizedArray.stored_small {array : SizedArray} (small : array.size < 2 ^ 31) : array.stored = array.value := by
  rw [stored,if_neg (by omega)]

theorem arrayLendian_written (around : Surroundings) (array : SizedArray) (writing : Writing w) :
    ∃ w' words, (writerWriteArrayLendian around array.elementCount array.elementSize array.src).run w = (.ok (),w') ∧
      Appended w w' words ∧ words.length = (TypedOp.arrayLendian array).size ∧ ((TypedOp.arrayLendian array).Fits →
        ∀ data, Reads data (parserArrayLendian data) words array.stored) := by
  rcases array.empty_or with ⟨value,empty⟩ | ⟨bytes,given,full,value,positive,size⟩
  · have small : array.size < 2 ^ 31 := by
      rw [SizedArray.size,value]
      decide
    obtain ⟨w',run,appended⟩ := marker_appended around writing
    rw [TypedOp.size,SizedArray.stored_small small,value]
    exact ⟨w',[0,0],(arrayLendian_empty around empty writing).trans run,appended,rfl,fun _ data => reads_arrayEmpty⟩
  · by_cases large : array.size > 2 ^ 31 - 1
    · obtain ⟨w',run,appended⟩ := marker_appended around writing
      have whole := array.sized bytes given
      rw [TypedOp.size,SizedArray.stored,if_pos large,given]
      exact ⟨w',[0,0],(arrayLendian_oversized around full whole (by omega) writing).trans run,appended,rfl,
        fun _ data => reads_arrayEmpty⟩
    have small : bytes.length < 2 ^ 31 := by omega
    rw [TypedOp.size,SizedArray.stored_small (by omega),value,TypedOp.Fits,size]
    obtain ⟨w',words,run,appended,packs⟩ := array_appended around (f := id) (fun _ => rfl)
      (Nat.le_refl bytes.length) rfl (UInt32.ofNat bytes.length) array.elementCount.toUInt32 writing
    rw [List.take_length,id] at packs
    refine ⟨w',_,?_,appended,?_,fun room data => ?_⟩
    · rw [given,arrayLendian_full around full (array.sized bytes given) small writing,run]
    · rw [List.length_append,packs.1]
      rfl
    · exact reads_arrayLendian packs (by omega) positive (positive_of_full full).1

theorem arrayLendian16_written (around : Surroundings) (array : SizedArray) (small : array.size + 3 < 2 ^ 32) (writing : Writing w) :
    ∃ w' words, (writerWriteArrayLendian16 around array.elementCount array.elementSize array.src).run w = (.ok (),w') ∧
      Appended w w' words ∧ words.length = 2 + (array.size + 3) / 4 ∧
        ∀ data, Reads data (parserArrayLendian16 data) words array.value := by
  rcases array.empty_or with ⟨value,empty⟩ | ⟨bytes,given,full,value,positive,size⟩
  · obtain ⟨w',run,appended⟩ := marker_appended around writing
    refine ⟨w',[0,0],(arrayLendian16_empty around empty writing).trans run,appended,by rw [SizedArray.size,value]; rfl,fun data => ?_⟩
    rw [value]
    exact reads_arrayEmpty16
  · rw [size] at small ⊢
    obtain ⟨w',words,run,appended,packs⟩ := array_appended around length_swap16BitWords
      (Nat.le_refl bytes.length) (alignDword_small small) (UInt32.ofNat bytes.length) array.elementCount.toUInt32
      writing
    rw [List.take_length] at packs
    refine ⟨w',_,?_,appended,?_,fun data => ?_⟩
    · rw [given,arrayLendian16_full around full (array.sized bytes given) writing,run]
    · rw [List.length_append,packs.1,length_swap16BitWords]
      rfl
    · rw [value]
      exact reads_arrayLendian16 packs small positive (positive_of_full full).1

/-- A call that appends known words, which its reader takes back. -/
theorem fits_of_words {op : TypedOp} {words : List UInt32}
    (wrote : ∃ w', (op.write around).run w = (.ok (),w') ∧ Appended w w' words) (size : words.length = op.size)
    (reads : ∀ data, Reads data (op.reader data) words op.answer) :
    ∃ w' words, (op.write around).run w = (.ok (),w') ∧ Appended w w' words ∧ words.length = op.size ∧
      ∀ data, Reads data (op.reader data) words op.answer := by
  obtain ⟨w',run,appended⟩ := wrote
  exact ⟨w',words,run,appended,size,reads⟩

theorem write_fits (op : TypedOp) (fits : op.Fits) (writing : Writing w) :
    ∃ w' words, (op.write around).run w = (.ok (),w') ∧ Appended w w' words ∧ words.length = op.size ∧
      ∀ data, Reads data (op.reader data) words op.answer := by
  cases op with
  | byte value =>
    refine fits_of_words (put_appended around [value.toUInt32] writing) rfl fun data => ?_
    have back : Reads data (parserByte data) [value.toUInt32] _ := reads_parserByte value.toUInt32
    rw [toUInt8_low] at back
    exact reads_answering back
  | word value =>
    refine fits_of_words (put_appended around [value.toUInt32] writing) rfl fun data => ?_
    have back : Reads data (parserWord data) [value.toUInt32] _ := reads_parserWord value.toUInt32
    rw [toUInt16_low] at back
    exact reads_answering back
  | dword value => exact fits_of_words (put_appended around [value] writing) rfl fun data => reads_answering (reads_parserDword value)
  | int value =>
    exact fits_of_words (put_appended around [value.toUInt32] writing) rfl fun data => reads_answering (reads_parserInt value)
  | float bits => exact fits_of_words (put_appended around [bits] writing) rfl fun data => reads_answering (reads_parserDword bits)
  | guid value =>
    refine fits_of_words (put_appended around [value.d1,value.d2] writing) rfl fun data => reads_answering ?_
    exact reads_checkBounds (Nat.le_refl 2) (reads_cons (reads_parserDword _)
      (reads_return (f := fun d2 => (⟨value.d1,d2⟩ : Guid)) (reads_parserDword _)))
  | dwordAsWords value =>
    refine fits_of_words (dwordAsWords_appended around value writing) rfl fun data => reads_answering ?_
    rw [low_half,low_half]
    exact reads_dwordAsWords value
  | dwordArrayAsWords values =>
    exact fits_of_words (arrayDwordAsWords_appended around values fits writing) (length_halves values)
      fun data => reads_answering (reads_halves values)
  | string str =>
    have short : str.length % 2 ^ 32 = str.length := Nat.mod_eq_of_lt (Nat.lt_of_add_right_lt fits)
    obtain ⟨w',words,run,appended,packs⟩ := counted_appended around (Nat.le_refl str.length) fits
      (UInt32.ofNat str.length) writing
    rw [List.take_length] at packs
    refine fits_of_words ⟨w',?_,appended⟩ (by rw [List.length_cons,packs.1,Nat.add_comm]; rfl) fun data => ?_
    · rw [TypedOp.write,writerWriteString_open _ str writing,short]
      exact run
    · exact reads_answering (reads_parserString packs fits)
  | buffer source =>
    obtain ⟨w',words,run,appended,packs⟩ := counted_appended around (Nat.le_refl source.length) fits
      (UInt32.ofNat source.length) writing
    rw [List.take_length] at packs
    refine fits_of_words ⟨w',?_,appended⟩ (by rw [List.length_cons,packs.1,Nat.add_comm]; rfl) fun data => ?_
    · rw [TypedOp.write,writerWriteBuffer_open _ source writing]
      exact run
    · exact reads_answering (reads_parserBuffer packs fits)
  | bytes source | bufferNosize source =>
    obtain ⟨w',words,run,appended,packs⟩ := bytes_appended around (Nat.le_refl source.length) fits writing
    rw [List.take_length] at packs
    first
    | exact fits_of_words ⟨w',run,appended⟩ packs.1 fun data => reads_answering (reads_parserBytes packs fits)
    | exact fits_of_words ⟨w',run,appended⟩ packs.1 fun data => reads_answering (reads_bufferNosize packs fits)
  | bufferLendian16 source =>
    obtain ⟨w',words,run,appended,packs⟩ := stored_appended around length_swap16BitWords (Nat.le_refl source.length) fits
      writing
    rw [List.take_length] at packs
    refine fits_of_words ⟨w',(bufferLendian16_open around source writing).trans run,appended⟩ ?_ fun data =>
      reads_answering (reads_bufferLendian16 packs fits)
    rw [packs.1,length_swap16BitWords]
    rfl
  | bufferNosizeLendian16 values =>
    obtain ⟨w',run,appended⟩ := wordsEach_appended around values writing
    refine fits_of_words ⟨w',?_,appended⟩ (List.length_map ..) fun data => reads_answering (reads_wordsEach values)
    rw [TypedOp.write,writerWriteBufferNosizeLendian16,Action.bind_ok _ (requireOpen_run writing.fresh)]
    rw [List.take_length,Action.bind_ok _ run,if_neg (Nat.lt_irrefl _)]
    rfl
  | arrayLendian array =>
    obtain ⟨w',words,run,appended,size,reads⟩ := arrayLendian_written around array writing
    exact ⟨w',words,run,appended,size,fun data => reads_answering (reads fits data)⟩
  | arrayLendian16 array =>
    obtain ⟨w',words,run,appended,size,reads⟩ := arrayLendian16_written around array fits writing
    exact ⟨w',words,run,appended,size,fun data => reads_answering (reads data)⟩
  | objectId id => exact fits_of_words (objectId_appended around id writing) rfl fun data => reads_answering (reads_parserDword id)
  | managerInt manager value =>
    refine fits_of_words (managerInt_appended around manager value writing) rfl fun data => ?_
    have back : Reads data (parserManagerInt data) [manager.d1,manager.d2,value.toUInt32] (some manager,value) :=
      reads_roomFor (Nat.le_refl 3) (reads_cons (reads_parserDword _) (reads_cons (reads_parserDword _)
        (reads_return (f := fun value => (some (⟨manager.d1,manager.d2⟩ : Guid),value)) (reads_parserInt value))))
    exact reads_return back

end Stepping
end Libnmo.Format
