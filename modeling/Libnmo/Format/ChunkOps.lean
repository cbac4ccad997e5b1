import Libnmo.Format.ChunkFilling
import Libnmo.Format.ChunkReads
import Libnmo.Format.ParserRuns
import Libnmo.Lib.Advances

/-! Typed writes of the chunk API with the reads that match them. A write leaves the
words of its value; the read of such words gives the value, and a read that gives
the value, wherever it starts, goes on by no more than these words. -/
namespace Libnmo.Format
open Core Lib Lib.LittleEndian Lib.Cursor

inductive ChunkCall
  | byte | word | int | dword | float | guid | string | buffer | objectId
  | intArray | floatArray | dwordArray | byteArray | objectIdArray
  | managerInt | objectSequenceStart | objectSequenceItem | startManagerSequence
  | subChunkSequence | subChunk | floats (count : Nat)

/-- The fields of a sub-chunk that a write is given. -/
structure SubChunkFields where
  classId : UInt32
  dataVersion : UInt32
  chunkVersion : UInt32
  words : List UInt32
  ids : List UInt32
  chunkRefs : List UInt32
  managers : List UInt32

def subChunkFields (c : Chunk) : SubChunkFields where
  classId := c.classId
  dataVersion := c.dataVersion
  chunkVersion := c.chunkVersion
  words := c.words
  ids := c.ids
  chunkRefs := c.chunkRefs
  managers := c.managers

/-- What a read gives. Pointers come with a length or a count. -/
inductive ChunkAnswer
  | byte (value : UInt8)
  | word (value : UInt16)
  | int (value : Int32)
  | dword (value : UInt32)
  | guid (value : Guid)
  | bytes (values : Option (List UInt8)) (size : Nat)
  | ints (values : Option (List Int32)) (count : Nat)
  | dwords (values : Option (List UInt32)) (count : Nat)
  | managerInt (managerGuid : Guid) (value : UInt32)
  | count (value : Nat)
  | managerSequence (managerGuid : Guid) (count : Nat)
  | subChunk (sub : Option SubChunkFields)
  | floats (bits : List UInt32)
  | found

def answered {α : Type} (answer : α → ChunkAnswer) (action : Run Nat α) : Run Nat ChunkAnswer := do
  let value ← action
  pure (answer value)

def ChunkCall.read (data spare : List UInt32) : ChunkCall → Run Nat ChunkAnswer
  | byte => answered .byte (chunkReadByte data)
  | word => answered .word (chunkReadWord data)
  | int => answered .int (chunkReadInt data)
  | dword => answered .dword (chunkReadDword data)
  | float => answered .dword (chunkReadFloat data)
  | guid => answered .guid (chunkReadGuid data)
  | string => answered (fun found => .bytes found.1 found.2) (chunkReadString data spare)
  | buffer => answered (fun found => .bytes found.1 found.2) (chunkReadBuffer data spare)
  | objectId => answered .dword (chunkReadObjectId data)
  | intArray => answered (fun found => .ints found.1 found.2) (chunkReadIntArray data)
  | floatArray => answered (fun found => .dwords found.1 found.2) (chunkReadFloatArray data)
  | dwordArray => answered (fun found => .dwords found.1 found.2) (chunkReadDwordArray data)
  | byteArray => answered (fun found => .bytes found.1 found.2) (chunkReadByteArray data)
  | objectIdArray => answered (fun found => .dwords found.1 found.2) (chunkReadObjectIdArray data)
  | managerInt => answered (fun found => .managerInt found.1 found.2) (chunkReadManagerInt data)
  | objectSequenceStart => answered .count (chunkReadObjectSequenceStart data)
  | objectSequenceItem => answered .dword (chunkReadObjectSequenceItem data)
  | startManagerSequence => answered (fun found => .managerSequence found.1 found.2) (chunkStartManagerReadSequence data)
  | subChunkSequence => answered .count (chunkStartReadSubChunkSequence data)
  | subChunk => answered (fun sub => .subChunk (some (subChunkFields sub))) (chunkReadSubChunk data)
  | floats count => answered .floats (chunkReadFloats data count)

/-- A write with its value: arrays with all their entries, buffers with all their bytes. -/
inductive ChunkOp
  | byte (value : UInt8)
  | word (value : UInt16)
  | int (value : Int32)
  | dword (value : UInt32)
  | float (bits : UInt32)
  | guid (value : Guid)
  | string (str : Option (List UInt8))
  | buffer (source : List UInt8)
  | objectId (id : UInt32)
  | intArray (values : List Int32)
  | floatArray (values : List UInt32)
  | dwordArray (values : List UInt32)
  | byteArray (values : List UInt8)
  | objectIdArray (ids : List UInt32)
  | managerInt (managerGuid : Guid) (value : UInt32)
  | objectSequenceStart (count : Nat)
  | objectSequenceItem (id : UInt32)
  | startManagerSequence (managerGuid : Guid) (count : Nat)

/-- An array without entries is a null pointer. -/
def arrayPointer {α : Type} : List α → Option (List α)
  | [] => none
  | values => some values

/-- A count that an `int` carries to the reader's `size_t`. -/
def IntCount (count : Nat) : Prop := count < 2 ^ 31 ∨ 2 ^ 64 - 2 ^ 31 ≤ count ∧ count < 2 ^ 64

namespace ChunkOp

def write (around : Surroundings) : ChunkOp → Run Chunk Unit
  | byte value => chunkWriteByte around value
  | word value => chunkWriteWord around value
  | int value => chunkWriteInt around value
  | dword value => chunkWriteDword around value
  | float bits => chunkWriteFloat around bits
  | guid value => chunkWriteGuid around value
  | string str => chunkWriteString around str
  | buffer source => chunkWriteBuffer around (some source) source.length
  | objectId id => chunkWriteObjectId around id
  | intArray values => chunkWriteIntArray around (some values) values.length
  | floatArray values => chunkWriteFloatArray around (some values) values.length
  | dwordArray values => chunkWriteDwordArray around (some values) values.length
  | byteArray values => chunkWriteByteArray around (some values) values.length
  | objectIdArray ids => chunkWriteObjectIdArray around (some ids) ids.length
  | managerInt managerGuid value => chunkWriteManagerInt around managerGuid value
  | objectSequenceStart count => chunkWriteObjectSequenceStart around count
  | objectSequenceItem id => chunkWriteObjectSequenceItem around id
  | startManagerSequence managerGuid count => chunkStartManagerSequence around managerGuid count

/-- The matching read. -/
def call : ChunkOp → ChunkCall
  | byte _ => .byte
  | word _ => .word
  | int _ => .int
  | dword _ => .dword
  | float _ => .float
  | guid _ => .guid
  | string _ => .string
  | buffer _ => .buffer
  | objectId _ => .objectId
  | intArray _ => .intArray
  | floatArray _ => .floatArray
  | dwordArray _ => .dwordArray
  | byteArray _ => .byteArray
  | objectIdArray _ => .objectIdArray
  | managerInt _ _ => .managerInt
  | objectSequenceStart _ => .objectSequenceStart
  | objectSequenceItem _ => .objectSequenceItem
  | startManagerSequence _ _ => .startManagerSequence

/-- The value, as the read gives it: a string with its terminator. -/
def answer : ChunkOp → ChunkAnswer
  | byte value => .byte value
  | word value => .word value
  | int value => .int value
  | dword value | float value | objectId value | objectSequenceItem value => .dword value
  | guid value => .guid value
  | string none => .bytes none 0
  | string (some chars) => .bytes (some (chars ++ [0])) chars.length
  | buffer source => .bytes (arrayPointer source) source.length
  | intArray values => .ints (arrayPointer values) values.length
  | floatArray values | dwordArray values | objectIdArray values => .dwords (arrayPointer values) values.length
  | byteArray values => .bytes (arrayPointer values) values.length
  | managerInt managerGuid value => .managerInt managerGuid value
  | objectSequenceStart count => .count count
  | startManagerSequence managerGuid count => .managerSequence managerGuid count

/-- Sizes whose rounding does not wrap in 32 bits, and counts that the reader's types carry. -/
def Fits : ChunkOp → Prop
  | string (some chars) => chars.length + 1 + 3 < 2 ^ 32
  | buffer source => source.length + 3 < 2 ^ 32
  | intArray values => values.length < 2 ^ 31
  | floatArray values | dwordArray values | objectIdArray values => values.length < 2 ^ 31
  | byteArray values => values.length < 2 ^ 31
  | objectSequenceStart count => IntCount count
  | startManagerSequence _ count => count < 2 ^ 32
  | _ => True

/-- The words that the value takes. -/
def size : ChunkOp → Nat
  | guid _ => 2
  | string none => 1
  | string (some chars) => 1 + (chars.length + 1 + 3) / 4
  | buffer source => 1 + (source.length + 3) / 4
  | intArray values => 1 + values.length
  | floatArray values | dwordArray values | objectIdArray values => 1 + values.length
  | byteArray values => 1 + values.length
  | managerInt _ _ | startManagerSequence _ _ => 3
  | _ => 1

end ChunkOp

section Reads
variable {data spare : List UInt32} {bytes : List UInt8}

theorem reads_answered {α : Type} {answer : α → ChunkAnswer} {action : Run Nat α} {input : List UInt32} {value : α}
    (reads : Reads data action input value) : Reads data (answered answer action) input (answer value) :=
  reads_return reads

theorem reads_nextWord (word : UInt32) : Reads data (nextWord data) [word] word := by
  intro pos rest ahead
  refine ⟨pos + 1,?_,ahead.next⟩
  have found : data[pos]? = some word := ahead.getElem?
  simp only [nextWord,found]

theorem reads_canRead {α : Type} {action : Bool → Run Nat α} {input : List UInt32} {value : α} {dwords : Nat}
    (enough : dwords ≤ input.length) (reads : Reads data (action true) input value) :
    Reads data (canRead data dwords >>= action) input value := by
  intro pos rest ahead
  have bound := ahead.bound
  rw [Action.bind_ok (t := pos) (a := true) _
    (by simp only [canRead,Action.read_apply,decide_eq_true (show pos + dwords ≤ data.length by omega)])]
  exact reads pos rest ahead

theorem reads_requireWords {α : Type} {action : Run Nat α} {input : List UInt32} {value : α} {dwords : Nat}
    {message : String} (enough : dwords ≤ input.length) (reads : Reads data action input value) :
    Reads data (requireWords data dwords message >>= fun _ => action) input value := by
  intro pos rest ahead
  have bound := ahead.bound
  have checked : (requireWords data dwords message).run pos = (.ok (),pos) := by
    rw [requireWords,canRead,Action.bind_ok _ (Action.read_apply _ pos),
      if_pos (decide_eq_true (show pos + dwords ≤ data.length by omega))]
    rfl
  rw [Action.bind_ok _ checked]
  exact reads pos rest ahead

theorem reads_copyOut {words : List UInt32} (packs : Packs words bytes) :
    Reads data (copyOut data spare bytes.length words.length) words bytes := by
  intro pos rest ahead
  refine ⟨pos + words.length,?_,ahead.skip⟩
  have drop : (data ++ spare).drop pos = words ++ (rest ++ spare) := by
    rw [List.drop_append_of_le_length ahead.1,ahead.2,List.append_assoc]
  have whole : bytes.length ≤ (encodeWords ((data ++ spare).drop pos)).length := by
    rw [drop,length_encodeWords,List.length_append,packs.1]
    omega
  have front : (encodeWords ((data ++ spare).drop pos)).take bytes.length = bytes := by
    rw [drop,encodeWords_append,List.take_append_of_le_length (by rw [length_encodeWords,packs.1]; omega),packs.2]
  simp only [copyOut,if_pos whole,front]

theorem roundedDwords_eq (size : UInt32) : roundedDwords size = (size.toNat + 3) % 2 ^ 32 / 4 := by
  rw [roundedDwords,UInt32.toNat_div,UInt32.toNat_add]
  rfl

theorem reads_chunkReadInt (word : UInt32) : Reads data (chunkReadInt data) [word] word.toInt32 :=
  reads_requireWords (Nat.le_refl 1) (reads_return (reads_nextWord word))

theorem reads_chunkReadDword (word : UInt32) : Reads data (chunkReadDword data) [word] word :=
  reads_return (f := Int32.toUInt32) (reads_chunkReadInt word)

theorem reads_chunkReadFloat (bits : UInt32) : Reads data (chunkReadFloat data) [bits] bits :=
  reads_requireWords (Nat.le_refl 1) (reads_nextWord bits)

theorem reads_chunkReadObjectId (id : UInt32) : Reads data (chunkReadObjectId data) [id] id :=
  reads_requireWords (Nat.le_refl 1) (reads_nextWord id)

theorem reads_chunkReadByte (value : UInt8) : Reads data (chunkReadByte data) [value.toUInt32] value := by
  have read : Reads data (chunkReadByte data) [value.toUInt32] (value.toUInt32 &&& 0xFF).toUInt8 :=
    reads_requireWords (Nat.le_refl 1) (reads_return (f := fun word => (word &&& 0xFF).toUInt8) (reads_nextWord _))
  rwa [toUInt8_low] at read

theorem reads_chunkReadLow (word : UInt32) : Reads data (chunkReadWord data) [word] (word &&& 0xFFFF).toUInt16 :=
  reads_requireWords (Nat.le_refl 1) (reads_return (f := fun word => (word &&& 0xFFFF).toUInt16) (reads_nextWord _))

theorem reads_chunkReadWord (value : UInt16) : Reads data (chunkReadWord data) [value.toUInt32] value := by
  have read : Reads data (chunkReadWord data) [value.toUInt32] _ := reads_chunkReadLow value.toUInt32
  rwa [toUInt16_low] at read

theorem reads_chunkReadGuid (value : Guid) : Reads data (chunkReadGuid data) [value.d1,value.d2] value :=
  reads_requireWords (Nat.le_refl 2) (reads_cons (reads_nextWord _)
    (reads_return (f := fun d2 => (⟨value.d1,d2⟩ : Guid)) (reads_nextWord _)))

theorem reads_chunkReadManagerInt (managerGuid : Guid) (value : UInt32) :
    Reads data (chunkReadManagerInt data) [managerGuid.d1,managerGuid.d2,value] (managerGuid,value) :=
  reads_requireWords (Nat.le_refl 3) (reads_cons (reads_nextWord _) (reads_cons (reads_nextWord _)
    (reads_return (f := fun value => (managerGuid,value)) (reads_nextWord _))))

/-- A positive size that does not wrap gives the bytes, behind a check that they are there. -/
theorem reads_sized {words : List UInt32} (packs : Packs words bytes) (small : bytes.length + 3 < 2 ^ 32)
    (some' : bytes ≠ []) : ¬ UInt32.ofNat bytes.length = 0 ∧ (UInt32.ofNat bytes.length).toNat = bytes.length ∧
      roundedDwords (UInt32.ofNat bytes.length) = words.length := by
  have length : (UInt32.ofNat bytes.length).toNat = bytes.length := by
    rw [UInt32.toNat_ofNat']
    omega
  refine ⟨fun zero => some' (List.length_eq_zero_iff.mp (length.symm.trans (congrArg UInt32.toNat zero))),length,?_⟩
  rw [roundedDwords_eq,length,Nat.mod_eq_of_lt small,packs.1]

theorem reads_chunkReadString {words : List UInt32} {chars : List UInt8} (packs : Packs words (chars ++ [0]))
    (small : chars.length + 1 + 3 < 2 ^ 32) :
    Reads data (chunkReadString data spare) (UInt32.ofNat (chars ++ [0]).length :: words)
      (some (chars ++ [0]),chars.length) := by
  obtain ⟨positive,length,dwords⟩ := reads_sized packs (by simpa using small) (by simp)
  refine reads_canRead (by simp) ?_
  rw [if_pos rfl]
  refine reads_cons (reads_nextWord _) ?_
  rw [if_neg positive,dwords,length]
  refine reads_canRead (Nat.le_refl _) ?_
  rw [if_pos rfl]
  have last : chars.length = (chars ++ [(0 : UInt8)]).length - 1 := by simp
  rw [last]
  exact reads_return (reads_copyOut packs)

theorem reads_nullString : Reads data (chunkReadString data spare) [0] (none,0) := by
  refine reads_canRead (Nat.le_refl 1) ?_
  rw [if_pos rfl]
  exact reads_cons (reads_nextWord 0) (reads_pure _)

theorem reads_chunkReadBuffer {words : List UInt32} (packs : Packs words bytes) (small : bytes.length + 3 < 2 ^ 32) :
    Reads data (chunkReadBuffer data spare) (UInt32.ofNat bytes.length :: words) (arrayPointer bytes,bytes.length) := by
  refine reads_requireWords (by simp) (reads_cons (reads_nextWord _) ?_)
  by_cases empty : bytes = []
  · subst empty
    obtain rfl := List.length_eq_zero_iff.mp packs.1
    exact reads_pure _
  · obtain ⟨positive,length,dwords⟩ := reads_sized packs small empty
    have pointer : arrayPointer bytes = some bytes := by
      cases bytes with
      | nil => exact absurd rfl empty
      | cons b rest => rfl
    rw [if_neg positive,dwords,length,pointer]
    exact reads_requireWords (Nat.le_refl _) (reads_return (reads_copyOut packs))

/-- The sign extension of a word that is read as an `int`. -/
def extended (word : UInt32) : Nat := (word.toInt32.toInt % 2 ^ 64).toNat

theorem extended_eq (word : UInt32) :
    extended word = if word.toNat < 2 ^ 31 then word.toNat else word.toNat + (2 ^ 64 - 2 ^ 32) := by
  have bits : word.toInt32.toInt = word.toBitVec.toInt := rfl
  have bound := word.toNat_lt
  have same : word.toBitVec.toNat = word.toNat := rfl
  rw [extended,bits,BitVec.toInt_eq_toNat_cond,same]
  split <;> split <;> omega

theorem intCount_extended (word : UInt32) : IntCount (extended word) := by
  have bound := word.toNat_lt
  rw [extended_eq,IntCount]
  split <;> omega

theorem extended_ofNat {count : Nat} (fits : IntCount count) : extended (UInt32.ofNat count) = count := by
  rw [extended_eq,UInt32.toNat_ofNat']
  rw [IntCount] at fits
  split <;> omega

theorem reads_extended (word : UInt32) : Reads data (chunkReadObjectSequenceStart data) [word] (extended word) :=
  reads_return (f := fun count : Int32 => (count.toInt % 2 ^ 64).toNat) (reads_chunkReadInt word)

theorem reads_sequenceStart (count : Nat) (fits : IntCount count) :
    Reads data (chunkReadObjectSequenceStart data) [UInt32.ofNat count] count := by
  have read : Reads data _ _ _ := reads_extended (UInt32.ofNat count)
  rwa [extended_ofNat fits] at read

theorem reads_managerSequence (managerGuid : Guid) (count : Nat) (small : count < 2 ^ 32) :
    Reads data (chunkStartManagerReadSequence data) [UInt32.ofNat count,managerGuid.d1,managerGuid.d2]
      (managerGuid,count) := by
  have length : (UInt32.ofNat count).toNat = count := by
    rw [UInt32.toNat_ofNat',Nat.mod_eq_of_lt small]
  refine reads_cons (reads_chunkReadDword _) ?_
  rw [length]
  exact reads_return (f := fun managerGuid => (managerGuid,count)) (reads_chunkReadGuid managerGuid)

theorem reads_readCounted {α : Type} {elemSize : Nat} {message : String} {read : Run Nat α} {word : α → UInt32}
    (each : ∀ value, Reads data read [word value] value) (narrow : elemSize ≤ 4) (values : List α)
    (small : values.length < 2 ^ 31) : Reads data (readCounted data elemSize message read)
      (UInt32.ofNat values.length :: values.map word) (arrayPointer values,values.length) := by
  refine reads_cons (reads_sequenceStart _ (.inl small)) ?_
  cases values with
  | nil => exact reads_pure _
  | cons value rest =>
    rw [if_neg (by simp)]
    have total : (value :: rest).length * elemSize ≤ (value :: rest).length * 4 := Nat.mul_le_mul_left _ narrow
    have alloc : allocArray (value :: rest).length elemSize message = pure () := by
      rw [allocArray]
      exact if_pos (by omega)
    have all := reads_times (value :: rest) (fun value => [word value]) id fun value _ => each value
    rw [List.map_id,← List.map_eq_flatMap] at all
    rw [alloc]
    exact reads_still (reads_pure ()) (reads_return (f := fun array => (some array,(value :: rest).length)) all)

end Reads

section Moves
variable {data spare : List UInt32} {pos next : Nat}

theorem answered_success {α : Type} {answer : α → ChunkAnswer} {action : Run Nat α} {found : ChunkAnswer}
    (run : (answered answer action).run pos = (.ok found,next)) :
    ∃ value, action.run pos = (.ok value,next) ∧ found = answer value := return_success run

theorem advances_nextWord : Advances 1 (nextWord data) := by
  intro pos value next run
  simp only [nextWord] at run
  split at run
  · simp only [Prod.mk.injEq] at run
    omega
  · simp at run

theorem advances_requireWords (data : List UInt32) (dwords : Nat) (message : String) :
    Advances 0 (requireWords data dwords message) := by
  change Advances (0 + 0) _
  refine advances_bind (advances_read _) fun room => ?_
  split
  · exact advances_pure ()
  · exact advances_stop _

theorem advances_required {α : Type} {steps dwords : Nat} {message : String} {action : Run Nat α}
    (moves : Advances steps action) : Advances steps (requireWords data dwords message >>= fun _ => action) := by
  have all := advances_bind (advances_requireWords data dwords message) fun _ => moves
  rwa [Nat.zero_add] at all

theorem advances_chunkReadInt : Advances 1 (chunkReadInt data) :=
  advances_required (advances_map _ advances_nextWord)

theorem advances_chunkReadByte : Advances 1 (chunkReadByte data) :=
  advances_required (advances_map _ advances_nextWord)

theorem advances_chunkReadWord : Advances 1 (chunkReadWord data) :=
  advances_required (advances_map _ advances_nextWord)

theorem advances_chunkReadDword : Advances 1 (chunkReadDword data) := advances_map _ advances_chunkReadInt

theorem advances_chunkReadFloat : Advances 1 (chunkReadFloat data) := advances_required advances_nextWord

theorem advances_chunkReadObjectId : Advances 1 (chunkReadObjectId data) := advances_required advances_nextWord

theorem advances_chunkReadGuid : Advances 2 (chunkReadGuid data) :=
  advances_required (advances_bind advances_nextWord fun _ => advances_map _ advances_nextWord)

theorem advances_chunkReadManagerInt : Advances 3 (chunkReadManagerInt data) :=
  advances_required (advances_bind advances_nextWord fun _ => advances_bind advances_nextWord fun _ =>
    advances_map _ advances_nextWord)

theorem copyOut_success {bytes dwords : Nat} {copied : List UInt8}
    (run : (copyOut data spare bytes dwords).run pos = (.ok copied,next)) :
    copied.length = bytes ∧ next = pos + dwords := by
  simp only [copyOut] at run
  split at run
  · simp only [Prod.mk.injEq,Except.ok.injEq] at run
    refine ⟨?_,run.2.symm⟩
    rw [← run.1,List.length_take]
    omega
  · simp at run

/-- A string with its terminator takes no more than its words, and less than one whose rounding wraps. -/
theorem chunkReadString_success {found : Option (List UInt8) × Nat}
    (run : (chunkReadString data spare).run pos = (.ok found,next)) : (found.1.getD []).length < 2 ^ 32 ∧
      next ≤ pos + (1 + ((found.1.getD []).length + 3) % 2 ^ 32 / 4) := by
  have hollow {start : Nat} (early : start ≤ pos + 1)
      (run : (pure (none,0) : Run Nat (Option (List UInt8) × Nat)).run start = (.ok found,next)) :
      (found.1.getD []).length < 2 ^ 32 ∧ next ≤ pos + (1 + ((found.1.getD []).length + 3) % 2 ^ 32 / 4) := by
    simp only [Action.pure_apply,Prod.mk.injEq,Except.ok.injEq] at run
    rw [← run.1]
    exact ⟨by decide,by omega⟩
  obtain ⟨room,start,entered,run⟩ := Action.bind_success run
  have still := advances_read _ _ _ _ entered
  split at run
  · obtain ⟨len,middle,first,run⟩ := Action.bind_success run
    have one := advances_nextWord _ _ _ first
    split at run
    · exact hollow (by omega) run
    · obtain ⟨enough,after,checked,run⟩ := Action.bind_success run
      have same := advances_read _ _ _ _ checked
      split at run
      · obtain ⟨str,ran,rfl⟩ := return_success run
        have copied := copyOut_success ran
        have bound := len.toNat_lt
        rw [roundedDwords_eq] at copied
        simp only [Option.getD_some,copied.1]
        exact ⟨bound,by omega⟩
      · exact hollow (by omega) run
  · exact hollow (by omega) run

theorem chunkReadBuffer_success {found : Option (List UInt8) × Nat}
    (run : (chunkReadBuffer data spare).run pos = (.ok found,next)) : found.2 < 2 ^ 32 ∧
      next ≤ pos + (1 + (found.2 + 3) % 2 ^ 32 / 4) := by
  obtain ⟨_,start,checked,run⟩ := Action.bind_success run
  obtain ⟨size,middle,first,run⟩ := Action.bind_success run
  have still := advances_requireWords _ _ _ _ _ _ checked
  have one := advances_nextWord _ _ _ first
  split at run
  · simp only [Action.pure_apply,Prod.mk.injEq,Except.ok.injEq] at run
    rw [← run.1]
    exact ⟨by decide,by omega⟩
  · obtain ⟨_,after,again,run⟩ := Action.bind_success run
    obtain ⟨bytes,ran,rfl⟩ := return_success run
    have same := advances_requireWords _ _ _ _ _ _ again
    have copied := copyOut_success ran
    rw [roundedDwords_eq] at copied
    exact ⟨size.toNat_lt,by omega⟩

theorem chunkReadObjectSequenceStart_success {count : Nat}
    (run : (chunkReadObjectSequenceStart data).run pos = (.ok count,next)) : IntCount count ∧ next ≤ pos + 1 := by
  obtain ⟨value,ran,rfl⟩ := return_success run
  refine ⟨intCount_extended value.toUInt32,advances_chunkReadInt _ _ _ ran⟩

theorem readCounted_success {α : Type} {elemSize : Nat} {message : String} {read : Run Nat α}
    {found : Option (List α) × Nat} (moves : Advances 1 read) (size : elemSize = 1 ∨ elemSize = 4)
    (run : (readCounted data elemSize message read).run pos = (.ok found,next)) :
    found.2 < 2 ^ 31 ∧ next ≤ pos + (1 + found.2) := by
  obtain ⟨count,middle,first,run⟩ := Action.bind_success run
  obtain ⟨fits,one⟩ := chunkReadObjectSequenceStart_success first
  split at run
  · simp only [Action.pure_apply,Prod.mk.injEq,Except.ok.injEq] at run
    rw [← run.1]
    exact ⟨(show (0 : Nat) < 2 ^ 31 by decide),by omega⟩
  · obtain ⟨_,start,alloc,run⟩ := Action.bind_success run
    obtain ⟨array,ran,rfl⟩ := return_success run
    have entries := advances_times moves count _ _ _ ran
    rw [allocArray] at alloc
    split at alloc
    · rename_i small
      simp only [Action.pure_apply,Prod.mk.injEq,true_and] at alloc
      refine ⟨?_,by omega⟩
      rw [IntCount] at fits
      rcases size with rfl | rfl <;> omega
    · split at alloc <;> simp [fail] at alloc

theorem chunkStartManagerReadSequence_success {found : Guid × Nat}
    (run : (chunkStartManagerReadSequence data).run pos = (.ok found,next)) : found.2 < 2 ^ 32 ∧ next ≤ pos + 3 := by
  obtain ⟨count,middle,first,run⟩ := Action.bind_success run
  obtain ⟨managerGuid,ran,rfl⟩ := return_success run
  have one := advances_chunkReadDword _ _ _ first
  have two := advances_chunkReadGuid _ _ _ ran
  exact ⟨count.toNat_lt,by omega⟩

end Moves

end Libnmo.Format
