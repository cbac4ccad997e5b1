import Libnmo.Lib.Advances
import Libnmo.Format.ChunkOps
import Libnmo.Schema.SchemaReader

/-! What a type asks of the words it is read from. A value that lies in its place is read from parts, one
after the other; a type is passable when some words carry the reader through it, and still when the reader
gets through it on no words at all. -/
namespace Libnmo.Schema
open Core Format Lib Lib.Cursor Lib.LittleEndian

/-- The bytes of a kind that is one number. -/
def numberWidth : TypeKind → Option Nat
  | .u8 | .i8 => some 1
  | .u16 | .i16 => some 2
  | .u32 | .i32 | .bool | .f32 | .resourceRef => some 4
  | _ => none

/-- The bytes the reader stores at the place of the value itself. -/
def storedWidth (kind : TypeKind) : Option Nat :=
  if kind = .string ∨ kind = .array ∨ kind = .binary then some 8 else numberWidth kind

section Types
variable (types : Types)

/-- The parts of a value that is read in its place, in order. -/
inductive Parts (type : TypeId) (place : Place) : List (TypeId × Place) → Prop
  | struct (kind : (types type).kind = .struct) : Parts type place (fieldPlaces (types type) place)
  | fixedArray {element : TypeId} (kind : (types type).kind = .fixedArray)
      (elementType : (types type).elementType = some element) : Parts type place
        (elementPlaces element (types element).size (types type).arrayLength.toNat place)
  | enum {element : TypeId} (kind : (types type).kind = .enum)
      (elementType : (types type).elementType = some element) : Parts type place [(element,place)]

/-- The elements of an array, in a block that the arena may give for so many. -/
inductive Elements (type : TypeId) (count : UInt32) : List (TypeId × Place) → Prop
  | mk {element : TypeId} (kind : (types type).kind = .array) (elementType : (types type).elementType = some element)
      (sized : (types element).size ≠ 0) (counted : count ≠ 0) (block : (types element).size * count.toUInt64 ≠ 0) :
      Elements type count (elementPlaces element (types element).size count.toNat
        ⟨(types element).size * count.toUInt64,0⟩)

inductive Passable : TypeId → Prop
  | stored {type : TypeId} {width : Nat} (stores : storedWidth (types type).kind = some width) : Passable type
  | parts {type : TypeId} {place : Place} {parts : List (TypeId × Place)} (read : Parts types type place parts)
      (each : ∀ part ∈ parts, Passable part.1) : Passable type

inductive Still : TypeId → Prop
  | parts {type : TypeId} {place : Place} {parts : List (TypeId × Place)} (read : Parts types type place parts)
      (each : ∀ part ∈ parts, Still part.1) : Still type

/-- Before any word is read the reader is at a value of the inner type. -/
def Leads (outer inner : TypeId) : Prop :=
  ∃ place before part after, Parts types outer place (before ++ part :: after) ∧
    (∀ earlier ∈ before, Still types earlier.1) ∧ part.1 = inner

/-- What the reader makes of a type. -/
inductive Shape (type : TypeId) : Prop
  | number {width : Nat} (stores : numberWidth (types type).kind = some width)
  | string (kind : (types type).kind = .string)
  | array (kind : (types type).kind = .array)
  | binary (kind : (types type).kind = .binary)
  | parts (read : ∀ place, ∃ parts, Parts types type place parts)
  | untyped (kind : (types type).kind = .fixedArray ∨ (types type).kind = .enum)
      (missing : (types type).elementType = none)
  | unknown (kind : (types type).kind = .u64 ∨ (types type).kind = .i64 ∨ (types type).kind = .f64)

theorem shape (type : TypeId) : Shape types type := by
  cases kind : (types type).kind with
  | u8 | i8 | u16 | i16 | u32 | i32 | bool | f32 | resourceRef => exact .number (by rw [kind]; rfl)
  | u64 | i64 | f64 => exact .unknown (by simp [kind])
  | string => exact .string kind
  | array => exact .array kind
  | binary => exact .binary kind
  | struct => exact .parts fun place => ⟨_,.struct kind⟩
  | fixedArray =>
    cases elementType : (types type).elementType with
    | none => exact .untyped (.inl kind) elementType
    | some element => exact .parts fun place => ⟨_,.fixedArray kind elementType⟩
  | enum =>
    cases elementType : (types type).elementType with
    | none => exact .untyped (.inr kind) elementType
    | some element => exact .parts fun place => ⟨_,.enum kind elementType⟩

variable {types}

/-- Elsewhere the same parts are read. -/
theorem Parts.moved {type : TypeId} {place : Place} {parts : List (TypeId × Place)}
    (read : Parts types type place parts) (place' : Place) :
    ∃ parts', Parts types type place' parts' ∧ parts'.map Prod.fst = parts.map Prod.fst := by
  cases read with
  | struct kind => exact ⟨_,.struct kind,by simp [fieldPlaces,Function.comp_def]⟩
  | fixedArray kind elementType => exact ⟨_,.fixedArray kind elementType,by simp [elementPlaces,Function.comp_def]⟩
  | enum kind elementType => exact ⟨_,.enum kind elementType,rfl⟩

theorem Parts.unstored {type : TypeId} {place : Place} {parts : List (TypeId × Place)}
    (read : Parts types type place parts) : storedWidth (types type).kind = none := by
  cases read with
  | struct kind | fixedArray kind _ | enum kind _ => rw [kind]; rfl

end Types

section Reads
variable {data spare : List UInt32} {types : Types} {addresses : Addresses}

theorem fromChunk_success {α : Type} {action : Run Nat α} {s t : ReadState} {value : α}
    (ok : (fromChunk action).run s = (.ok value,t)) :
    action.run s.pos = (.ok value,t.pos) ∧ t = { s with pos := t.pos } := by
  simp only [fromChunk] at ok
  obtain ⟨outcome,rfl⟩ := Prod.mk.inj ok
  cases ran : (action.run s.pos).1 with
  | error stop => rw [ran] at outcome; cases outcome
  | ok found =>
    rw [ran] at outcome
    cases outcome
    exact ⟨Prod.ext ran rfl,rfl⟩

theorem fromChunk_ok {α : Type} {action : Run Nat α} {s : ReadState} {value : α} {next : Nat}
    (ran : action.run s.pos = (.ok value,next)) :
    (fromChunk action).run s = (.ok value,{ s with pos := next }) := by
  simp only [fromChunk,ran]
  rfl

theorem consumes_nextWord : Consumes data.length (nextWord data) := by
  intro pos value next run
  rw [nextWord] at run
  dsimp only at run
  split at run
  · rename_i word found
    obtain ⟨_,rfl⟩ := Prod.mk.inj run
    exact ⟨(List.getElem?_eq_some_iff.mp found).1,Nat.lt_succ_self pos⟩
  · cases run

theorem onward_requireWords (dwords : Nat) (message : String) : Onward (requireWords data dwords message) := by
  refine onward_bind (onward_read _) fun room => ?_
  split
  · exact onward_pure ()
  · exact onward_stop _

theorem onward_copyOut (bytes dwords : Nat) : Onward (copyOut data spare bytes dwords) := by
  intro pos value next run
  rw [copyOut] at run
  dsimp only at run
  split at run
  · obtain ⟨_,rfl⟩ := Prod.mk.inj run
    exact Nat.le_add_right pos dwords
  · cases run

/-- A read behind a check takes its word. -/
theorem consumes_required {α : Type} {dwords : Nat} {message : String} (f : UInt32 → α) :
    Consumes data.length (do
      requireWords data dwords message
      let word ← nextWord data
      pure (f word)) :=
  consumes_after (onward_requireWords dwords message) fun _ =>
    consumes_bind consumes_nextWord fun word => onward_pure (f word)

theorem consumes_dword : Consumes data.length (chunkReadDword data) :=
  consumes_bind (consumes_required UInt32.toInt32) fun value => onward_pure _

theorem consumes_required' {dwords : Nat} {message : String} : Consumes data.length (do
    requireWords data dwords message
    nextWord data) :=
  consumes_after (onward_requireWords dwords message) fun _ => consumes_nextWord

/-- A string that is there has been read from its length on. -/
theorem string_consumes {pos length next : Nat} {chars : List UInt8}
    (ran : (chunkReadString data spare).run pos = (.ok (some chars,length),next)) :
    pos < data.length ∧ pos < next := by
  obtain ⟨room,_,checked,ran⟩ := Action.bind_success ran
  cases checked
  split at ran
  · obtain ⟨len,start,word,ran⟩ := Action.bind_success ran
    obtain ⟨before,moved⟩ := consumes_nextWord _ _ _ word
    refine ⟨before,Nat.lt_of_lt_of_le moved ?_⟩
    have rest : Onward (if len = 0 then pure (none,0) else do
        let enough ← canRead data (roundedDwords len)
        if enough then do
          let str ← copyOut data spare len.toNat (roundedDwords len)
          pure (some str,len.toNat - 1)
        else pure (none,0)) := by
      split
      · exact onward_pure _
      · refine onward_bind (onward_read _) fun enough => ?_
        split
        · exact onward_bind (onward_copyOut _ _) fun str => onward_pure _
        · exact onward_pure _
    exact rest _ _ _ ran
  · obtain ⟨same,_⟩ := Prod.mk.inj ran
    cases same

theorem onward_buffer : Onward (chunkReadBuffer data spare) := by
  refine onward_bind (onward_requireWords _ _) fun _ => onward_bind consumes_nextWord.onward fun size => ?_
  split
  · exact onward_pure _
  · exact onward_bind (onward_requireWords _ _) fun _ => onward_bind (onward_copyOut _ _) fun bytes => onward_pure _

end Reads

section Steps
variable (data spare : List UInt32) {types : Types} (addresses : Addresses) {here : TypeId × Place}

/-- A number is read in one word. -/
theorem readNumber_width {kind : TypeKind} {width : Nat} (stores : numberWidth kind = some width) :
    ∃ read, readNumber data kind = some (width,read) ∧ Consumes data.length read ∧ Reads data read [0] 0 := by
  cases kind with
  | u8 | i8 =>
    cases stores
    exact ⟨_,rfl,consumes_bind (consumes_required _) fun value => onward_pure _,
      reads_return (f := UInt8.toUInt32) (reads_chunkReadByte 0)⟩
  | u16 | i16 =>
    cases stores
    exact ⟨_,rfl,consumes_bind (consumes_required _) fun value => onward_pure _,
      reads_return (f := UInt16.toUInt32) (reads_chunkReadWord 0)⟩
  | u32 | i32 | bool =>
    cases stores
    exact ⟨_,rfl,consumes_dword,reads_chunkReadDword 0⟩
  | f32 =>
    cases stores
    exact ⟨_,rfl,consumes_required',reads_chunkReadFloat 0⟩
  | resourceRef =>
    cases stores
    exact ⟨_,rfl,consumes_required',reads_chunkReadObjectId 0⟩
  | u64 | i64 | f64 | string | struct | array | fixedArray | binary | enum => cases stores

theorem step_readNumber {width : Nat} {read : Run Nat UInt32}
    (found : readNumber data (types here.1).kind = some (width,read)) (readValue : TypeId × Place → Reader Value) :
    readStep data spare types addresses readValue here =
      fromChunk read >>= fun value => store here.2 width >>= fun _ => pure (.number value) := by
  unfold readStep
  cases kind : (types here.1).kind with
  | u8 | i8 | u16 | i16 | u32 | i32 | bool | f32 | resourceRef =>
    rw [kind] at found
    simp only [kind,found]
  | u64 | i64 | f64 | string | struct | array | fixedArray | binary | enum =>
    rw [kind] at found
    cases found

theorem step_number {width : Nat} (stores : numberWidth (types here.1).kind = some width) :
    ∃ read, Consumes data.length read ∧ Reads data read [0] 0 ∧
      ∀ readValue, readStep data spare types addresses readValue here =
        fromChunk read >>= fun value => store here.2 width >>= fun _ => pure (.number value) := by
  obtain ⟨read,found,consumes,reads⟩ := readNumber_width data stores
  exact ⟨read,consumes,reads,step_readNumber data spare addresses found⟩

theorem step_struct (kind : (types here.1).kind = .struct) (readValue : TypeId × Place → Reader Value) :
    readStep data spare types addresses readValue here =
      Action.each readValue (fieldPlaces (types here.1) here.2) >>= fun fields => pure (.struct fields) := by
  unfold readStep
  simp only [kind]

theorem step_fixedArray {element : TypeId} (kind : (types here.1).kind = .fixedArray)
    (elementType : (types here.1).elementType = some element) (readValue : TypeId × Place → Reader Value) :
    readStep data spare types addresses readValue here =
      Action.each readValue (elementPlaces element (types element).size (types here.1).arrayLength.toNat here.2) >>=
        fun elements => pure (.fixedArray elements) := by
  unfold readStep
  simp only [kind,elementOf,elementType]
  rfl

theorem step_parts {parts : List (TypeId × Place)} (read : Parts types here.1 here.2 parts) :
    ∃ wrap : List Value → Value, ∀ readValue, readStep data spare types addresses readValue here =
      Action.each readValue parts >>= fun values => pure (wrap values) := by
  cases read with
  | struct kind => exact ⟨_,step_struct data spare addresses kind⟩
  | fixedArray kind elementType => exact ⟨_,step_fixedArray data spare addresses kind elementType⟩
  | enum kind elementType =>
    refine ⟨fun values => values.headD (.number 0),fun readValue => Action.eq_of_run fun s => ?_⟩
    unfold readStep
    simp only [kind,elementOf,elementType,Action.each,Action.bind_apply,Action.pure_apply]
    rcases (readValue (_,here.2)).run s with ⟨⟨stop⟩ | ⟨value⟩,t⟩ <;> rfl

variable {data spare addresses}

theorem step_untyped (kind : (types here.1).kind = .fixedArray ∨ (types here.1).kind = .enum)
    (missing : (types here.1).elementType = none) (readValue : TypeId × Place → Reader Value) (s : ReadState) :
    (readStep data spare types addresses readValue here).run s = (.error .nullElementType,s) := by
  unfold readStep
  rcases kind with kind | kind <;> simp only [kind,elementOf,missing] <;> rfl

theorem step_unknown (kind : (types here.1).kind = .u64 ∨ (types here.1).kind = .i64 ∨ (types here.1).kind = .f64)
    (readValue : TypeId × Place → Reader Value) : readStep data spare types addresses readValue here =
      failRead .validationFailed "Unknown type kind in schema" := by
  unfold readStep
  rcases kind with kind | kind | kind <;> simp only [kind] <;> rfl

/-- What is left of an array after its count. -/
def readElements (types : Types) (addresses : Addresses) (readValue : TypeId × Place → Reader Value)
    (here : TypeId × Place) (count : UInt32) : Reader Value :=
  if count = 0 then do
    let _ ← storeCounted here.2 0 0
    pure (.array (some []))
  else do
    let element ← elementOf (types here.1)
    if (types element).size = 0 then failRead .validationFailed "Cannot read array of variable-size elements"
    else do
      let array ← allocate addresses ((types element).size * count.toUInt64) "Failed to allocate array"
      let elements ← Action.each readValue (elementPlaces element (types element).size count.toNat
        ⟨(types element).size * count.toUInt64,0⟩)
      let pointer ← storeCounted here.2 array count
      pure (.array (if pointer = array then some elements else none))

theorem step_array (kind : (types here.1).kind = .array) (readValue : TypeId × Place → Reader Value) :
    readStep data spare types addresses readValue here =
      fromChunk (chunkReadDword data) >>= readElements types addresses readValue here := by
  unfold readStep
  simp only [kind]
  rfl

/-- What is left of a binary after its size. -/
def readBytesOf (data spare : List UInt32) (addresses : Addresses) (place : Place) (size : UInt32) : Reader Value :=
  if size = 0 then do
    let _ ← storeCounted place 0 0
    pure (.binary (some []))
  else do
    let block ← allocate addresses size.toUInt64 "Failed to allocate binary buffer"
    let _ ← fromChunk (chunkReadBuffer data spare)
    store ⟨size.toUInt64,0⟩ 8
    let _ ← storeCounted place block size
    pure (.binary none)

theorem step_binary (kind : (types here.1).kind = .binary) (readValue : TypeId × Place → Reader Value) :
    readStep data spare types addresses readValue here =
      fromChunk (chunkReadDword data) >>= readBytesOf data spare addresses here.2 := by
  unfold readStep
  simp only [kind]
  rfl

/-- What a string that is there becomes. -/
def storeString (place : Place) (found : Option (List UInt8) × Nat) : Reader Value :=
  match found.1 with
  | none => failRead .eof "Failed to read string"
  | some chars => do
    store place 8
    pure (.string (some (chars.takeWhile (· ≠ 0))))

theorem step_string (kind : (types here.1).kind = .string) (readValue : TypeId × Place → Reader Value) :
    readStep data spare types addresses readValue here =
      fromChunk (chunkReadString data spare) >>= storeString here.2 := by
  unfold readStep
  simp only [kind]
  rfl

end Steps

section Progress
variable {data spare : List UInt32} {types : Types} {addresses : Addresses} {here : TypeId × Place}
  {readValue : TypeId × Place → Reader Value} {s t : ReadState} {value : Value}

/-- A value of the type has been read between the states: on no words, or on some that were there. -/
def Progressed (types : Types) (length : Nat) (type : TypeId) (s t : ReadState) : Prop :=
  Passable types type ∧ (t.pos = s.pos ∧ Still types type ∨ s.pos < length ∧ s.pos < t.pos)

@[simp] theorem store_run (place : Place) (width : Nat) (s : ReadState) :
    (store place width).run s = (.ok (),{ s with stores := s.stores ++ [⟨place,width⟩] }) := rfl

@[simp] theorem storeCounted_run (place : Place) (pointer : UInt64) (count : UInt32) (s : ReadState) :
    (storeCounted place pointer count).run s = (.ok (pointer % 2 ^ 32 + count.toUInt64 * 2 ^ 32),
      { s with stores := s.stores ++ [⟨place,8⟩] ++ [⟨place.plus 4,4⟩] }) := rfl

theorem elementOf_run {type : TypeDescriptor} {element : TypeId} (elementType : type.elementType = some element)
    (s : ReadState) : (elementOf type).run s = (.ok element,s) := by
  rw [elementOf,elementType]
  rfl

theorem elementOf_success {type : TypeDescriptor} {element : TypeId} (ok : (elementOf type).run s = (.ok element,t)) :
    type.elementType = some element ∧ t = s := by
  rw [elementOf] at ok
  split at ok
  · rename_i found same
    obtain ⟨value,rfl⟩ := Prod.mk.inj ok
    cases value
    exact ⟨same,rfl⟩
  · cases ok

theorem allocate_success {size : UInt64} {message : String} {address : UInt64}
    (ok : (allocate addresses size message).run s = (.ok address,t)) :
    size ≠ 0 ∧ t = { s with allocations := s.allocations + 1 } := by
  simp only [allocate] at ok
  split at ok
  · rename_i found given
    obtain ⟨_,rfl⟩ := Prod.mk.inj ok
    refine ⟨fun zero => ?_,rfl⟩
    rw [if_pos zero] at given
    cases given
  · cases ok

theorem storedWidth_number {kind : TypeKind} {width : Nat} (stores : numberWidth kind = some width) :
    storedWidth kind = some width := by
  cases kind <;> first | exact stores | cases stores

theorem Passable.counted {type : TypeId} (kind : (types type).kind = .string ∨ (types type).kind = .array ∨
    (types type).kind = .binary) : Passable types type := .stored (if_pos kind)

theorem each_progress (inner : ∀ part s value t, (readValue part).run s = (.ok value,t) →
    Progressed types data.length part.1 s t) {parts : List (TypeId × Place)} {values : List Value}
    (ok : (Action.each readValue parts).run s = (.ok values,t)) : (∀ part ∈ parts, Passable types part.1) ∧
      (t.pos = s.pos ∧ (∀ part ∈ parts, Still types part.1) ∨ s.pos < data.length ∧ s.pos < t.pos) := by
  induction parts generalizing s values with
  | nil =>
    obtain ⟨_,rfl⟩ := Prod.mk.inj ok
    exact ⟨by simp,.inl ⟨rfl,by simp⟩⟩
  | cons part rest ih =>
    obtain ⟨value,between,others,first,later⟩ := Action.each_success ok
    obtain ⟨passes,moved⟩ := inner part s value between first
    obtain ⟨passEach,movedOn⟩ := ih later
    refine ⟨List.forall_mem_cons.mpr ⟨passes,passEach⟩,?_⟩
    rcases moved with ⟨same,still⟩ | ⟨before,on⟩
    · rw [same] at movedOn
      rcases movedOn with ⟨same,stillEach⟩ | further
      · exact .inl ⟨same,List.forall_mem_cons.mpr ⟨still,stillEach⟩⟩
      · exact .inr further
    · right
      refine ⟨before,Nat.lt_of_lt_of_le on ?_⟩
      rcases movedOn with ⟨same,_⟩ | ⟨_,further⟩
      · exact Nat.le_of_eq same.symm
      · exact Nat.le_of_lt further

theorem elements_onward (inner : ∀ part s value t, (readValue part).run s = (.ok value,t) →
    Progressed types data.length part.1 s t) {count : UInt32}
    (ok : (readElements types addresses readValue here count).run s = (.ok value,t)) : s.pos ≤ t.pos := by
  rw [readElements] at ok
  split at ok
  · obtain ⟨_,rfl⟩ := Prod.mk.inj ok
    exact Nat.le_refl _
  · obtain ⟨element,_,typed,sized⟩ := Action.bind_success ok
    obtain ⟨_,rfl⟩ := elementOf_success typed
    split at sized
    · cases sized
    · obtain ⟨array,_,given,filled⟩ := Action.bind_success sized
      obtain ⟨_,rfl⟩ := allocate_success given
      obtain ⟨elements,_,read,stored⟩ := Action.bind_success filled
      obtain ⟨_,rfl⟩ := Prod.mk.inj stored
      rcases (each_progress inner read).2 with ⟨same,_⟩ | ⟨_,further⟩
      · exact Nat.le_of_eq same.symm
      · exact Nat.le_of_lt further

theorem bytes_onward {place : Place} {size : UInt32}
    (ok : (readBytesOf data spare addresses place size).run s = (.ok value,t)) : s.pos ≤ t.pos := by
  rw [readBytesOf] at ok
  split at ok
  · obtain ⟨_,rfl⟩ := Prod.mk.inj ok
    exact Nat.le_refl _
  · obtain ⟨block,_,given,filled⟩ := Action.bind_success ok
    obtain ⟨_,rfl⟩ := allocate_success given
    obtain ⟨bytes,_,read,stored⟩ := Action.bind_success filled
    obtain ⟨_,rfl⟩ := Prod.mk.inj stored
    exact onward_buffer _ _ _ (fromChunk_success read).1

theorem step_progress (inner : ∀ part s value t, (readValue part).run s = (.ok value,t) →
    Progressed types data.length part.1 s t)
    (ok : (readStep data spare types addresses readValue here).run s = (.ok value,t)) :
    Progressed types data.length here.1 s t := by
  cases shape types here.1 with
  | number stores =>
    obtain ⟨read,consumes,_,same⟩ := step_number data spare addresses stores
    rw [same] at ok
    obtain ⟨bits,_,word,stored⟩ := Action.bind_success ok
    obtain ⟨_,rfl⟩ := Prod.mk.inj stored
    exact ⟨.stored (storedWidth_number stores),.inr (consumes _ _ _ (fromChunk_success word).1)⟩
  | string kind =>
    rw [step_string kind] at ok
    obtain ⟨⟨str,length⟩,_,read,stored⟩ := Action.bind_success ok
    cases str with
    | none => cases stored
    | some chars =>
      obtain ⟨_,rfl⟩ := Prod.mk.inj stored
      exact ⟨.counted (by simp [kind]),.inr (string_consumes (fromChunk_success read).1)⟩
  | array kind =>
    rw [step_array kind] at ok
    obtain ⟨count,_,word,rest⟩ := Action.bind_success ok
    obtain ⟨before,moved⟩ := consumes_dword _ _ _ (fromChunk_success word).1
    exact ⟨.counted (by simp [kind]),
      .inr ⟨before,Nat.lt_of_lt_of_le moved (elements_onward inner rest)⟩⟩
  | binary kind =>
    rw [step_binary kind] at ok
    obtain ⟨size,_,word,rest⟩ := Action.bind_success ok
    obtain ⟨before,moved⟩ := consumes_dword _ _ _ (fromChunk_success word).1
    exact ⟨.counted (by simp [kind]),.inr ⟨before,Nat.lt_of_lt_of_le moved (bytes_onward rest)⟩⟩
  | parts read =>
    obtain ⟨parts,isRead⟩ := read here.2
    obtain ⟨wrap,same⟩ := step_parts data spare addresses isRead
    rw [same] at ok
    obtain ⟨values,_,each,wrapped⟩ := Action.bind_success ok
    obtain ⟨_,rfl⟩ := Prod.mk.inj wrapped
    obtain ⟨passes,moved⟩ := each_progress inner each
    exact ⟨.parts isRead passes,moved.imp_left fun ⟨same,still⟩ => ⟨same,.parts isRead still⟩⟩
  | untyped kind missing =>
    rw [step_untyped kind missing] at ok
    cases ok
  | unknown kind =>
    rw [step_unknown kind] at ok
    cases ok

end Progress

section Depths
variable {data spare : List UInt32} {types : Types} {addresses : Addresses}

theorem outlasts_elements {short long : TypeId × Place → Reader Value}
    (inner : ∀ part, Outlasts .unfinished (short part) (long part)) (here : TypeId × Place) (count : UInt32) :
    Outlasts .unfinished (readElements types addresses short here count)
      (readElements types addresses long here count) := by
  unfold readElements
  split
  · exact outlasts_refl _
  · refine outlasts_bind (outlasts_refl _) fun element => ?_
    split
    · exact outlasts_refl _
    · refine outlasts_bind (outlasts_refl _) fun array => ?_
      exact outlasts_bind (outlasts_each inner _) fun elements => outlasts_refl _

theorem steady_readStep : Steady .unfinished (readStep data spare types addresses) := by
  intro short long inner here
  cases shape types here.1 with
  | number stores =>
    obtain ⟨read,_,_,same⟩ := step_number data spare addresses stores
    rw [same,same]
    exact outlasts_refl _
  | string kind =>
    rw [step_string kind,step_string kind]
    exact outlasts_refl _
  | array kind =>
    rw [step_array kind,step_array kind]
    exact outlasts_bind (outlasts_refl _) (outlasts_elements inner here)
  | binary kind =>
    rw [step_binary kind,step_binary kind]
    exact outlasts_refl _
  | parts read =>
    obtain ⟨parts,isRead⟩ := read here.2
    obtain ⟨wrap,same⟩ := step_parts data spare addresses isRead
    rw [same,same]
    exact outlasts_bind (outlasts_each inner parts) fun values => outlasts_refl _
  | untyped kind missing =>
    intro s
    right
    rw [step_untyped kind missing,step_untyped kind missing]
  | unknown kind =>
    rw [step_unknown kind,step_unknown kind]
    exact outlasts_refl _

theorem readValue_progress (depth : Nat) (here : TypeId × Place) (s : ReadState) (value : Value) (t : ReadState)
    (ok : (readValue data spare types addresses depth here).run s = (.ok value,t)) :
    Progressed types data.length here.1 s t := by
  induction depth generalizing here s value t with
  | zero => cases ok
  | succ depth ih => exact step_progress ih ok

end Depths

/-- An arena that never runs out. -/
def generous : Addresses := fun _ _ => some 4096

theorem allocate_generous {size : UInt64} (some : size ≠ 0) (message : String) (s : ReadState) :
    (allocate generous size message).run s = (.ok 4096,{ s with allocations := s.allocations + 1 }) := by
  simp only [allocate,if_neg some,generous]

section Words
variable {types : Types}

/-- On these words the reader gets through the type, at every depth from some on. -/
def Carries (types : Types) (type : TypeId) (words : List UInt32) (depth : Nat) : Prop :=
  ∀ deeper, depth ≤ deeper → ∀ place data spare s rest, Ahead data s.pos (words ++ rest) →
    ∃ value t, (readValue data spare types generous deeper (type,place)).run s = (.ok value,t) ∧ Ahead data t.pos rest

def CarriesEach (types : Types) (ids : List TypeId) (words : List UInt32) (depth : Nat) : Prop :=
  ∀ deeper, depth ≤ deeper → ∀ parts : List (TypeId × Place), parts.map Prod.fst = ids → ∀ data spare s rest,
    Ahead data s.pos (words ++ rest) → ∃ values t,
      (Action.each (readValue data spare types generous deeper) parts).run s = (.ok values,t) ∧ Ahead data t.pos rest

theorem carries_each (ids : List TypeId) (each : ∀ type ∈ ids, ∃ words depth, Carries types type words depth) :
    ∃ words depth, CarriesEach types ids words depth := by
  induction ids with
  | nil =>
    refine ⟨[],0,fun deeper _ parts none data spare s rest ahead => ⟨[],s,?_,ahead⟩⟩
    rw [List.map_eq_nil_iff.mp none]
    rfl
  | cons type ids ih =>
    obtain ⟨words,depth,carries⟩ := each type (List.mem_cons_self ..)
    obtain ⟨others,depth',carriesEach⟩ := ih fun other member => each other (List.mem_cons_of_mem type member)
    refine ⟨words ++ others,max depth depth',fun deeper deep parts same data spare s rest ahead => ?_⟩
    obtain ⟨part,parts,rfl,rfl,others⟩ := List.map_eq_cons_iff.mp same
    rw [List.append_assoc] at ahead
    obtain ⟨value,between,first,ahead⟩ :=
      carries deeper (Nat.le_trans (Nat.le_max_left ..) deep) part.2 data spare s _ ahead
    obtain ⟨values,last,later,ahead⟩ :=
      carriesEach deeper (Nat.le_trans (Nat.le_max_right ..) deep) parts others data spare between rest ahead
    refine ⟨value :: values,last,?_,ahead⟩
    rw [Action.each,Action.bind_ok _ first,Action.bind_ok _ later]
    rfl

theorem carries_stored {type : TypeId} (words : List UInt32) (reads : ∀ place data spare readValue s rest,
    Ahead data s.pos (words ++ rest) → ∃ value t,
      (readStep data spare types generous readValue (type,place)).run s = (.ok value,t) ∧ Ahead data t.pos rest) :
    ∃ words depth, Carries types type words depth := by
  refine ⟨words,1,fun deeper deep place data spare s rest ahead => ?_⟩
  obtain ⟨depth,rfl⟩ := Nat.exists_eq_add_of_le' deep
  exact reads place data spare _ s rest ahead

theorem Passable.carries {type : TypeId} (passable : Passable types type) :
    ∃ words depth, Carries types type words depth := by
  induction passable with
  | @stored type width stores =>
    cases shape types type with
    | number stores =>
      refine carries_stored [0] fun place data spare readValue s rest ahead => ?_
      obtain ⟨read,_,reads,same⟩ := @step_number data spare types generous (type,place) _ stores
      obtain ⟨next,run,ahead⟩ := reads s.pos rest ahead
      rw [same,Action.bind_ok _ (fromChunk_ok run)]
      exact ⟨_,_,rfl,ahead⟩
    | string kind =>
      refine carries_stored [1,0] fun place data spare readValue s rest ahead => ?_
      have packs : Packs [0] (([] : List UInt8) ++ [0]) := ⟨rfl,rfl⟩
      obtain ⟨next,run,ahead⟩ := reads_chunkReadString packs (by decide) s.pos rest ahead
      rw [@step_string data spare types generous (type,place) kind,Action.bind_ok _ (fromChunk_ok run)]
      exact ⟨_,_,rfl,ahead⟩
    | array kind =>
      refine carries_stored [0] fun place data spare readValue s rest ahead => ?_
      obtain ⟨next,run,ahead⟩ := reads_chunkReadDword 0 s.pos rest ahead
      rw [@step_array data spare types generous (type,place) kind,Action.bind_ok _ (fromChunk_ok run)]
      exact ⟨_,_,rfl,ahead⟩
    | binary kind =>
      refine carries_stored [0] fun place data spare readValue s rest ahead => ?_
      obtain ⟨next,run,ahead⟩ := reads_chunkReadDword 0 s.pos rest ahead
      rw [@step_binary data spare types generous (type,place) kind,Action.bind_ok _ (fromChunk_ok run)]
      exact ⟨_,_,rfl,ahead⟩
    | parts read =>
      obtain ⟨parts,isRead⟩ := read ⟨0,0⟩
      rw [isRead.unstored] at stores
      cases stores
    | untyped kind missing => rcases kind with kind | kind <;> rw [kind] at stores <;> cases stores
    | unknown kind => rcases kind with kind | kind | kind <;> rw [kind] at stores <;> cases stores
  | @parts type place parts read _ ih =>
    have each : ∀ id ∈ parts.map Prod.fst, ∃ words depth, Carries types id words depth := by
      intro id member
      obtain ⟨part,isPart,rfl⟩ := List.mem_map.mp member
      exact ih part isPart
    obtain ⟨words,depth,carries⟩ := carries_each _ each
    refine ⟨words,depth + 1,fun deeper deep place' data spare s rest ahead => ?_⟩
    obtain ⟨depth',rfl⟩ := Nat.exists_eq_add_of_le deep
    obtain ⟨parts',isRead,same⟩ := read.moved place'
    obtain ⟨wrap,step⟩ := @step_parts data spare types generous (type,place') _ isRead
    obtain ⟨values,t,run,ahead⟩ := carries (depth + depth') (by omega) parts' same data spare s rest ahead
    refine ⟨wrap values,t,?_,ahead⟩
    rw [readValue,Nat.add_right_comm,Action.unroll,step]
    exact Action.bind_ok _ run

end Words

end Libnmo.Schema
