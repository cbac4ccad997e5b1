import Mathlib.Tactic.Choose
import Libnmo.Format.ChunkReadBack
import Libnmo.Format.ChunkRoom
import Libnmo.Schema.SchemaWriter

/-! Values written by a schema and read back. An enum is read and written through an element type that the
builder never sets, a string that is not there comes back as the end of the data, and an array or a binary with
something in it comes back behind a pointer that its count has overwritten: what is left is kept. -/
namespace Libnmo.Schema
open Core Format Lib Lib.Cursor Lib.LittleEndian

/-- Values that come back, with the words that they take. -/
inductive Keepable (types : Types) : TypeId → Value → Nat → Prop
  | number {type : TypeId} {width : Nat} {bits : UInt32} (stores : numberWidth (types type).kind = some width) :
      Keepable types type (.number bits) 1
  | string {type : TypeId} {text : List UInt8} (kind : (types type).kind = .string) :
      Keepable types type (.string (some text)) (1 + (text.length + 4) / 4)
  | binary {type : TypeId} (kind : (types type).kind = .binary) : Keepable types type (.binary (some [])) 1
  | array {type : TypeId} (kind : (types type).kind = .array) : Keepable types type (.array (some [])) 1
  | struct {type : TypeId} {values : List Value} {sizes : TypeId × Value → Nat} (kind : (types type).kind = .struct)
      (each : ∀ pair ∈ ((types type).fields.map SchemaField.type).zip values, Keepable types pair.1 pair.2 (sizes pair)) :
      Keepable types type (.struct values) ((((types type).fields.map SchemaField.type).zip values).map sizes).sum
  | fixedArray {type element : TypeId} {elements : List Value} {sizes : TypeId × Value → Nat}
      (kind : (types type).kind = .fixedArray) (elementType : (types type).elementType = some element)
      (each : ∀ value ∈ elements, Keepable types element value (sizes (element,value))) :
      Keepable types type (.fixedArray elements) ((elements.map fun value => (element,value)).map sizes).sum

section Lost
variable {data spare : List UInt32} {types : Types}

/-- The count goes over the upper half of the pointer. -/
theorem pointer_lost {count : UInt32} (some : count ≠ 0) : (4096 : UInt64) % 2 ^ 32 + count.toUInt64 * 2 ^ 32 ≠ 4096 := by
  intro same
  have bound := count.toNat_lt
  have positive : count.toNat ≠ 0 := fun zero => some (UInt32.toNat_inj.mp zero)
  have value := congrArg UInt64.toNat same
  have low : ((4096 : UInt64) % 2 ^ 32).toNat = 4096 := by decide
  have half : ((2 : UInt64) ^ 32).toNat = 2 ^ 32 := by decide
  have whole : (4096 : UInt64).toNat = 4096 := by decide
  rw [UInt64.toNat_add,UInt64.toNat_mul,UInt32.toNat_toUInt64,low,half,whole] at value
  omega

theorem elements_array {readValue : TypeId × Place → Reader Value} {here : TypeId × Place} {count : UInt32}
    {elements : List Value} {s t : ReadState}
    (ok : (readElements types generous readValue here count).run s = (.ok (.array (some elements)),t)) : elements = [] := by
  rw [readElements] at ok
  split at ok
  · obtain ⟨same,_⟩ := Prod.mk.inj ok
    cases same
    rfl
  · rename_i some
    obtain ⟨element,_,_,sized⟩ := Action.bind_success ok
    split at sized
    · cases sized
    · obtain ⟨array,_,given,filled⟩ := Action.bind_success sized
      obtain ⟨found,_,_,stored⟩ := Action.bind_success filled
      rw [allocate_generous (allocate_success given).1] at given
      obtain ⟨address,_⟩ := Prod.mk.inj given
      obtain rfl := Except.ok.inj address
      rw [Action.bind_ok _ (storeCounted_run ..),if_neg (pointer_lost some)] at stored
      cases stored

theorem bytes_binary {addresses : Addresses} {place : Place} {size : UInt32} {bytes : List UInt8} {s t : ReadState}
    (ok : (readBytesOf data spare addresses place size).run s = (.ok (.binary (some bytes)),t)) : bytes = [] := by
  rw [readBytesOf] at ok
  split at ok
  · obtain ⟨same,_⟩ := Prod.mk.inj ok
    cases same
    rfl
  · obtain ⟨block,_,_,filled⟩ := Action.bind_success ok
    obtain ⟨found,_,_,stored⟩ := Action.bind_success filled
    obtain ⟨same,_⟩ := Prod.mk.inj stored
    cases same

theorem string_some {addresses : Addresses} {here : TypeId × Place} {readValue : TypeId × Place → Reader Value}
    (kind : (types here.1).kind = .string) {chars : Option (List UInt8)} {s t : ReadState}
    (ok : (readStep data spare types addresses readValue here).run s = (.ok (.string chars),t)) : ∃ text, chars = some text := by
  rw [step_string kind] at ok
  obtain ⟨⟨str,length⟩,_,_,stored⟩ := Action.bind_success ok
  cases str with
  | none => cases stored
  | some found =>
    obtain ⟨same,_⟩ := Prod.mk.inj stored
    cases same
    exact ⟨_,rfl⟩

theorem fst_fieldPlaces (type : TypeDescriptor) (place : Place) :
    (fieldPlaces type place).map Prod.fst = type.fields.map SchemaField.type := by
  rw [fieldPlaces,List.map_map]
  rfl

/-- As many elements as places. -/
theorem zip_elementPlaces {element : TypeId} {elemSize : UInt64} {place : Place} (elements : List Value) :
    ((elementPlaces element elemSize elements.length place).map Prod.fst).zip elements =
      elements.map fun value => (element,value) := by
  apply List.ext_getElem
  · simp [elementPlaces]
  · intro i _ _
    simp [elementPlaces]

/-- The parts come back one by one. -/
theorem parts_keepable {depth : Nat} {parts : List (TypeId × Place)} {values : List Value} {s t : ReadState}
    (read : (Action.each (readValue data spare types generous depth) parts).run s = (.ok values,t))
    (inner : ∀ pair ∈ (parts.map Prod.fst).zip values, ∀ place s t,
      (readValue data spare types generous depth (pair.1,place)).run s = (.ok pair.2,t) →
        ∃ words, Keepable types pair.1 pair.2 words) :
    ∃ sizes : TypeId × Value → Nat, ∀ pair ∈ (parts.map Prod.fst).zip values, Keepable types pair.1 pair.2 (sizes pair) := by
  have each : ∀ pair ∈ (parts.map Prod.fst).zip values, ∃ words, Keepable types pair.1 pair.2 words := by
    intro pair member
    have whole := member
    rw [List.zip_map_left] at whole
    obtain ⟨part,isPart,rfl⟩ := List.mem_map.mp whole
    obtain ⟨s,t,ran⟩ := Action.each_values read part isPart
    exact inner _ member part.1.2 s t ran
  choose! sizes keepable using each
  exact ⟨sizes,keepable⟩

/-- Only a value that is kept can come out of a read. -/
theorem keepable_of_read {type : TypeId} {value : Value} (typed : ValueOf types type value) {depth : Nat} {place : Place}
    {s t : ReadState} (ok : (readValue data spare types generous depth (type,place)).run s = (.ok value,t)) :
    ∃ words, Keepable types type value words := by
  induction typed generalizing depth place s t with
  | number built stores fits => exact ⟨_,.number (by rw [built]; exact stores)⟩
  | string built whole =>
    cases depth with
    | zero => cases ok
    | succ depth =>
      have kind := congrArg TypeDescriptor.kind built
      obtain ⟨text,rfl⟩ := string_some kind ok
      exact ⟨_,.string kind⟩
  | binary built counted =>
    cases depth with
    | zero => cases ok
    | succ depth =>
      have kind := congrArg TypeDescriptor.kind built
      rw [readValue,Action.unroll,step_binary kind] at ok
      obtain ⟨size,_,_,rest⟩ := Action.bind_success ok
      obtain rfl := bytes_binary rest
      exact ⟨_,.binary kind⟩
  | array built counted each _ =>
    cases depth with
    | zero => cases ok
    | succ depth =>
      have kind := congrArg TypeDescriptor.kind built
      rw [readValue,Action.unroll,step_array kind] at ok
      obtain ⟨count,_,_,rest⟩ := Action.bind_success ok
      obtain rfl := elements_array rest
      exact ⟨_,.array kind⟩
  | enum built stores fits =>
    cases depth with
    | zero => cases ok
    | succ depth =>
      have kind := congrArg TypeDescriptor.kind built
      have missing := congrArg TypeDescriptor.elementType built
      rw [readValue,Action.unroll,step_untyped (.inr kind) missing] at ok
      cases ok
  | struct built full each ih =>
    cases depth with
    | zero => cases ok
    | succ depth =>
      have kind := congrArg TypeDescriptor.kind built
      have fields := congrArg TypeDescriptor.fields built
      rw [readValue,Action.unroll,step_struct data spare generous kind] at ok
      obtain ⟨found,_,read,wrapped⟩ := Action.bind_success ok
      obtain ⟨same,_⟩ := Prod.mk.inj wrapped
      cases same
      have ids := (fst_fieldPlaces (types _) place).trans (congrArg _ fields)
      obtain ⟨sizes,keepable⟩ := parts_keepable read fun pair member place s t ran => by
        rw [ids] at member
        exact ih pair member ran
      rw [fst_fieldPlaces] at keepable
      exact ⟨_,.struct kind keepable⟩
  | @fixedArray type element length elements built full each ih =>
    cases depth with
    | zero => cases ok
    | succ depth =>
      have kind := congrArg TypeDescriptor.kind built
      have elementType := congrArg TypeDescriptor.elementType built
      have many := congrArg TypeDescriptor.arrayLength built
      rw [readValue,Action.unroll,step_fixedArray data spare generous kind elementType,many,
        show (builderFixedArray types element length).arrayLength.toNat = elements.length from full.symm] at ok
      obtain ⟨found,_,read,wrapped⟩ := Action.bind_success ok
      obtain ⟨same,_⟩ := Prod.mk.inj wrapped
      cases same
      obtain ⟨sizes,keepable⟩ := parts_keepable read fun pair member place s t ran => by
        rw [zip_elementPlaces] at member
        obtain ⟨value,isElement,rfl⟩ := List.mem_map.mp member
        exact ih value isElement ran
      rw [zip_elementPlaces] at keepable
      exact ⟨_,.fixedArray kind elementType fun value member => keepable _ (List.mem_map_of_mem member)⟩

end Lost

section Kept
variable {types : Types} {around : Surroundings}

/-- From these words the reader takes the value, at every depth from some on. -/
def Brings (types : Types) (pair : TypeId × Value) (words : List UInt32) (least : Nat) : Prop :=
  ∀ depth, least ≤ depth → ∀ addresses place data spare s rest, Ahead data s.pos (words ++ rest) → ∃ t,
    (readValue data spare types addresses depth (pair.1,place)).run s = (.ok pair.2,t) ∧ Ahead data t.pos rest

/-- The value is written in no more words than the bound, and the words bring it back. -/
def WritesBack (types : Types) (around : Surroundings) (bound : Nat) (pair : TypeId × Value) (least : Nat) : Prop :=
  ∀ depth, least ≤ depth → ∀ c, Roomy c → c.dataSize + bound < 2 ^ 30 → ∃ c' words,
    (writeValue types around depth pair).run c = (.ok (),c') ∧ Fills c c' words ∧ words.length ≤ bound ∧ Roomy c' ∧
      Brings types pair words least

theorem onChunk_ok {α : Type} {action : Run Chunk α} {c c' : Chunk} {a : α} (ran : action.run c = (.ok a,c')) :
    (onChunk action).run c = (.ok a,c') := by
  simp only [onChunk,ran]
  rfl

/-- A number goes through one word. -/
theorem number_back (around : Surroundings) {kind : TypeKind} {width : Nat} {bits : UInt32}
    (stores : numberWidth kind = some width) (fits : bits.toNat < 2 ^ (8 * width)) : ∃ write word,
      writeNumber around bits kind = some write ∧ Writes [word] write ∧
        ∀ data, ∃ read, readNumber data kind = some (width,read) ∧ Reads data read [word] bits := by
  cases kind with
  | u8 | i8 =>
    cases stores
    have same : bits.toUInt8.toUInt32 = bits := by
      apply UInt32.toNat_inj.mp
      rw [UInt8.toNat_toUInt32,UInt32.toNat_toUInt8]
      exact Nat.mod_eq_of_lt fits
    refine ⟨_,bits,rfl,?_,fun data => ⟨_,rfl,?_⟩⟩
    · have writes : Writes [bits.toUInt8.toUInt32] (chunkWriteByte around bits.toUInt8) := writes_writeWords [_]
      rwa [same] at writes
    · have reads : Reads data (chunkReadByte data >>= fun value => pure value.toUInt32) [bits.toUInt8.toUInt32] _ :=
        reads_return (reads_chunkReadByte bits.toUInt8)
      rwa [same] at reads
  | u16 | i16 =>
    cases stores
    have same : bits.toUInt16.toUInt32 = bits := by
      apply UInt32.toNat_inj.mp
      rw [UInt16.toNat_toUInt32,UInt32.toNat_toUInt16]
      exact Nat.mod_eq_of_lt fits
    refine ⟨_,bits,rfl,?_,fun data => ⟨_,rfl,?_⟩⟩
    · have writes : Writes [bits.toUInt16.toUInt32] (chunkWriteWord around bits.toUInt16) := writes_writeWords [_]
      rwa [same] at writes
    · have reads : Reads data (chunkReadWord data >>= fun value => pure value.toUInt32) [bits.toUInt16.toUInt32] _ :=
        reads_return (reads_chunkReadWord bits.toUInt16)
      rwa [same] at reads
  | u32 | i32 | bool =>
    cases stores
    exact ⟨_,bits,rfl,writes_writeWords [_],fun data => ⟨_,rfl,reads_chunkReadDword bits⟩⟩
  | f32 =>
    cases stores
    exact ⟨_,bits,rfl,writes_writeWords [_],fun data => ⟨_,rfl,reads_chunkReadFloat bits⟩⟩
  | resourceRef =>
    cases stores
    exact ⟨_,bits,rfl,writes_objectId bits,fun data => ⟨_,rfl,reads_chunkReadObjectId bits⟩⟩
  | u64 | i64 | f64 | string | struct | array | fixedArray | binary | enum => cases stores

theorem string_back (around : Surroundings) {text : List UInt8} {c : Chunk} (roomy : Roomy c)
    (few : c.dataSize + (1 + (text.length + 4) / 4) < 2 ^ 30) :
    ∃ c' words, (chunkWriteString around (some text)).run c = (.ok (),c') ∧
      Fills c c' (UInt32.ofNat (text ++ [0]).length :: words) ∧ Packs words (text ++ [0]) ∧ Roomy c' := by
  have length : (text ++ [(0 : UInt8)]).length = text.length + 1 := List.length_append
  obtain ⟨c₁,checked,fills,roomy₁,room⟩ :=
    checkSize_room around (1 + ((text ++ [(0 : UInt8)]).length + 3) / 4) roomy (by omega)
  obtain ⟨c₂,counted,count,roomy₂,capacity⟩ := storeWords_room [UInt32.ofNat (text ++ [(0 : UInt8)]).length] roomy₁
    (by rw [List.length_singleton]; omega)
  have size := count.dataSize
  rw [List.length_singleton] at size
  obtain ⟨c₃,_,stored,_,_,roomy₃⟩ := storeBytes_room (text ++ [0]) roomy₂ (by omega)
  have ran : (chunkWriteString around (some text)).run c = (.ok (),c₃) := by
    rw [chunkWriteString,Action.bind_ok _ checked,Action.bind_ok _ counted]
    exact stored
  obtain ⟨words,filled,packs⟩ := chunkWriteString_success roomy.filling ran
  exact ⟨c₃,words,ran,filled,packs,roomy₃⟩

theorem back_of_step {pair : TypeId × Value} {bound : Nat} (written : ∀ writeValue c, Roomy c → c.dataSize + bound < 2 ^ 30 →
    ∃ c' words, (writeStep types around writeValue pair).run c = (.ok (),c') ∧ Fills c c' words ∧ words.length ≤ bound ∧
      Roomy c' ∧ ∀ readValue addresses place data spare s rest, Ahead data s.pos (words ++ rest) → ∃ t,
        (readStep data spare types addresses readValue (pair.1,place)).run s = (.ok pair.2,t) ∧ Ahead data t.pos rest) :
    ∃ least, WritesBack types around bound pair least := by
  refine ⟨1,fun depth deep c roomy few => ?_⟩
  obtain ⟨below,rfl⟩ := Nat.exists_eq_add_of_le' deep
  obtain ⟨c',words,ran,fills,short,roomy',reads⟩ := written (writeValue types around below) c roomy few
  refine ⟨c',words,ran,fills,short,roomy',fun depth deep addresses place data spare s rest ahead => ?_⟩
  obtain ⟨below,rfl⟩ := Nat.exists_eq_add_of_le' deep
  exact reads _ addresses place data spare s rest ahead

theorem write_number {type : TypeId} {bits : UInt32} {write : Run Chunk Unit}
    (found : writeNumber around bits (types type).kind = some write) (writeValue : TypeId × Value → Writer Unit) :
    writeStep types around writeValue (type,.number bits) = onChunk write := by
  unfold writeStep
  cases kind : (types type).kind with
  | u8 | i8 | u16 | i16 | u32 | i32 | bool | f32 | resourceRef =>
    rw [kind] at found
    simp only [kind,found]
  | u64 | i64 | f64 | string | struct | array | fixedArray | binary | enum =>
    rw [kind] at found
    cases found

theorem takeWhile_text {text : List UInt8} (whole : 0 ∉ text) : (text ++ [0]).takeWhile (· ≠ 0) = text := by
  rw [List.takeWhile_append_of_pos]
  · simp
  · intro byte member
    exact decide_eq_true fun zero => whole (zero ▸ member)

/-- The count of nothing. -/
theorem zero_back (around : Surroundings) {c : Chunk} (roomy : Roomy c) (few : c.dataSize + 1 < 2 ^ 30) :
    ∃ c', (onChunk (chunkWriteDword around 0)).run c = (.ok (),c') ∧ Fills c c' [0] ∧ Roomy c' := by
  have writes : Writes [0] (chunkWriteDword around 0) := writes_writeWords [_]
  obtain ⟨c',ran,fills,roomy'⟩ := writes c roomy (Nat.lt_trans few (by decide))
  exact ⟨c',onChunk_ok ran,fills,roomy'⟩

def BringsEach (types : Types) (pairs : List (TypeId × Value)) (words : List UInt32) (least : Nat) : Prop :=
  ∀ depth, least ≤ depth → ∀ addresses parts, parts.map Prod.fst = pairs.map Prod.fst → ∀ data spare s rest,
    Ahead data s.pos (words ++ rest) → ∃ t, (Action.each (readValue data spare types addresses depth) parts).run s =
      (.ok (pairs.map Prod.snd),t) ∧ Ahead data t.pos rest

theorem BringsEach.cons {pair : TypeId × Value} {pairs : List (TypeId × Value)} {words words' : List UInt32}
    {least least' : Nat} (head : Brings types pair words least) (tail : BringsEach types pairs words' least') :
    BringsEach types (pair :: pairs) (words ++ words') (max least least') := by
  intro depth deep addresses parts same data spare s rest ahead
  obtain ⟨part,others,rfl,first,same⟩ := List.map_eq_cons_iff.mp same
  rw [List.append_assoc] at ahead
  obtain ⟨t,ran,ahead⟩ := head depth (Nat.le_trans (Nat.le_max_left ..) deep) addresses part.2 data spare s _ ahead
  obtain ⟨u,later,ahead⟩ := tail depth (Nat.le_trans (Nat.le_max_right ..) deep) addresses others same data spare t rest ahead
  rw [← first] at ran
  refine ⟨u,?_,ahead⟩
  rw [Action.each,Action.bind_ok _ ran,Action.bind_ok _ later]
  rfl

theorem back_each {pairs : List (TypeId × Value)} {sizes : TypeId × Value → Nat}
    (each : ∀ pair ∈ pairs, ∃ least, WritesBack types around (sizes pair) pair least) : ∃ least, ∀ depth, least ≤ depth →
      ∀ c, Roomy c → c.dataSize + (pairs.map sizes).sum < 2 ^ 30 → ∃ c' words units,
        (Action.each (writeValue types around depth) pairs).run c = (.ok units,c') ∧ Fills c c' words ∧
          words.length ≤ (pairs.map sizes).sum ∧ Roomy c' ∧ BringsEach types pairs words least := by
  induction pairs with
  | nil =>
    refine ⟨0,fun depth _ c roomy _ => ⟨c,[],[],rfl,roomy.filling.fills,Nat.le_refl _,roomy,?_⟩⟩
    intro depth _ addresses parts none data spare s rest ahead
    rw [List.map_eq_nil_iff.mp none]
    exact ⟨s,rfl,ahead⟩
  | cons pair pairs ih =>
    obtain ⟨head,tail⟩ := List.forall_mem_cons.mp each
    obtain ⟨least,back⟩ := head
    obtain ⟨least',backEach⟩ := ih tail
    refine ⟨max least least',fun depth deep c roomy few => ?_⟩
    rw [List.map_cons,List.sum_cons] at few
    obtain ⟨c₁,words,ran,fills,short,roomy₁,brings⟩ :=
      back depth (Nat.le_trans (Nat.le_max_left ..) deep) c roomy (by omega)
    have size := fills.dataSize
    obtain ⟨c₂,words',units,later,others,short',roomy₂,bringsEach⟩ :=
      backEach depth (Nat.le_trans (Nat.le_max_right ..) deep) c₁ roomy₁ (by omega)
    refine ⟨c₂,words ++ words',() :: units,?_,fills.trans others,?_,roomy₂,BringsEach.cons brings bringsEach⟩
    · rw [Action.each,Action.bind_ok _ ran,Action.bind_ok _ later]
      rfl
    · rw [List.length_append,List.map_cons,List.sum_cons]
      exact Nat.add_le_add short short'

/-- A value of parts is written and read part by part. -/
theorem back_of_parts {pair : TypeId × Value} {pairs : List (TypeId × Value)} {sizes : TypeId × Value → Nat}
    (each : ∀ part ∈ pairs, ∃ least, WritesBack types around (sizes part) part least)
    (writes : ∀ writeValue, writeStep types around writeValue pair =
      Action.each writeValue pairs >>= fun _ => pure ())
    (reads : ∀ place, ∃ parts : List (TypeId × Place), parts.map Prod.fst = pairs.map Prod.fst ∧
      ∀ data spare addresses readValue s t, (Action.each readValue parts).run s = (.ok (pairs.map Prod.snd),t) →
        (readStep data spare types addresses readValue (pair.1,place)).run s = (.ok pair.2,t)) :
    ∃ least, WritesBack types around (pairs.map sizes).sum pair least := by
  obtain ⟨least,back⟩ := back_each each
  refine ⟨least + 1,fun depth deep c roomy few => ?_⟩
  obtain ⟨below,rfl⟩ := Nat.exists_eq_add_of_le deep
  obtain ⟨c',words,units,ran,fills,short,roomy',brings⟩ := back (least + below) (Nat.le_add_right ..) c roomy few
  refine ⟨c',words,?_,fills,short,roomy',fun depth deep addresses place data spare s rest ahead => ?_⟩
  · rw [writeValue,Nat.add_right_comm,Action.unroll,writes]
    exact Action.bind_ok _ ran
  · obtain ⟨below,rfl⟩ := Nat.exists_eq_add_of_le deep
    obtain ⟨parts,same,whole⟩ := reads place
    obtain ⟨t,read,ahead⟩ := brings (least + below) (Nat.le_add_right ..) addresses parts same data spare s rest ahead
    refine ⟨t,?_,ahead⟩
    rw [readValue,Nat.add_right_comm,Action.unroll]
    exact whole data spare addresses _ s t read

theorem back_of_keepable {type : TypeId} {value : Value} (typed : ValueOf types type value) {words : Nat}
    (keepable : Keepable types type value words) : ∃ least, WritesBack types around words (type,value) least := by
  induction typed generalizing words with
  | @number type size kind width bits built stores fits =>
    cases keepable with
    | number _ =>
      have known := congrArg TypeDescriptor.kind built
      obtain ⟨write,word,found,writes,reads⟩ := number_back around stores fits
      refine back_of_step fun writeValue c roomy few => ?_
      obtain ⟨c',ran,fills,roomy'⟩ := writes c roomy (Nat.lt_trans few (by decide))
      refine ⟨c',[word],?_,fills,Nat.le_refl 1,roomy',fun readValue addresses place data spare s rest ahead => ?_⟩
      · rw [write_number (by rw [known]; exact found)]
        exact onChunk_ok ran
      · obtain ⟨read,readFound,back⟩ := reads data
        obtain ⟨next,run,ahead⟩ := back s.pos rest ahead
        rw [@step_readNumber data spare types addresses (type,place) _ _ (by rw [known]; exact readFound),
          Action.bind_ok _ (fromChunk_ok run)]
        exact ⟨_,rfl,ahead⟩
  | @string type size chars built whole =>
    cases keepable with
    | @string _ text kind =>
      refine back_of_step fun writeValue c roomy few => ?_
      obtain ⟨c',words,ran,fills,packs,roomy'⟩ := string_back around roomy few
      refine ⟨c',_,?_,fills,?_,roomy',fun readValue addresses place data spare s rest ahead => ?_⟩
      · unfold writeStep
        simp only [kind]
        exact onChunk_ok ran
      · rw [List.length_cons,packs.1,List.length_append,List.length_singleton]
        omega
      · obtain ⟨next,run,ahead⟩ := @reads_chunkReadString data spare _ _ packs (by omega) s.pos rest ahead
        rw [@step_string data spare types addresses (type,place) kind,Action.bind_ok _ (fromChunk_ok run)]
        refine ⟨_,Prod.ext (congrArg (fun text => Except.ok (Value.string (some text))) ?_) rfl,ahead⟩
        exact takeWhile_text (whole text rfl)
  | @binary type size bytes built counted =>
    cases keepable with
    | binary kind =>
      refine back_of_step fun writeValue c roomy few => ?_
      obtain ⟨c',ran,fills,roomy'⟩ := zero_back around roomy few
      refine ⟨c',[0],?_,fills,Nat.le_refl 1,roomy',fun readValue addresses place data spare s rest ahead => ?_⟩
      · unfold writeStep
        simp only [kind]
        exact Action.bind_ok _ ran
      · obtain ⟨next,run,ahead⟩ := reads_chunkReadDword 0 s.pos rest ahead
        rw [@step_binary data spare types addresses (type,place) kind,Action.bind_ok _ (fromChunk_ok run)]
        exact ⟨_,rfl,ahead⟩
  | @array type element elements built counted each _ =>
    cases keepable with
    | array kind =>
      refine back_of_step fun writeValue c roomy few => ?_
      obtain ⟨c',ran,fills,roomy'⟩ := zero_back around roomy few
      refine ⟨c',[0],?_,fills,Nat.le_refl 1,roomy',fun readValue addresses place data spare s rest ahead => ?_⟩
      · unfold writeStep
        simp only [kind]
        exact Action.bind_ok _ ran
      · obtain ⟨next,run,ahead⟩ := reads_chunkReadDword 0 s.pos rest ahead
        rw [@step_array data spare types addresses (type,place) kind,Action.bind_ok _ (fromChunk_ok run)]
        exact ⟨_,rfl,ahead⟩
  | enum built stores fits =>
    cases keepable with
    | number stores' =>
      rw [built] at stores'
      cases stores'
  | @struct type size fields values built full each ih =>
    cases keepable with
    | @struct _ _ sizes kind keepable =>
      have same := congrArg TypeDescriptor.fields built
      have ids : (types type).fields.map SchemaField.type = fields.map SchemaField.type := congrArg _ same
      have paired : values.length = (fields.map SchemaField.type).length := by rw [full,List.length_map]
      rw [ids] at keepable ⊢
      refine back_of_parts (fun part member => ih part member (keepable part member)) (fun writeValue => ?_) fun place => ?_
      · unfold writeStep
        simp only [kind,ids]
      · refine ⟨fieldPlaces (types type) place,?_,fun data spare addresses readValue s t ran => ?_⟩
        · rw [fst_fieldPlaces,ids,List.map_fst_zip (Nat.le_of_eq paired.symm)]
        · rw [@step_struct data spare types addresses (type,place) kind,Action.bind_ok _ ran,
            List.map_snd_zip (Nat.le_of_eq paired)]
          rfl
  | @fixedArray type element length elements built full each ih =>
    cases keepable with
    | @fixedArray _ element' _ sizes kind elementType keepable =>
      obtain rfl : element = element' := Option.some.inj ((congrArg TypeDescriptor.elementType built).symm.trans elementType)
      have many : (types type).arrayLength.toNat = elements.length :=
        (congrArg (fun type => type.arrayLength.toNat) built).trans full.symm
      refine back_of_parts (fun part member => ?_) (fun writeValue => ?_) fun place => ?_
      · obtain ⟨value,isElement,rfl⟩ := List.mem_map.mp member
        exact ih value isElement (keepable value isElement)
      · unfold writeStep
        simp only [kind,writtenElement,elementType]
        rfl
      · refine ⟨elementPlaces element (types element).size elements.length place,?_,fun data spare addresses readValue s t ran => ?_⟩
        · rw [← zip_elementPlaces elements,List.map_fst_zip (by simp [elementPlaces])]
        · rw [@step_fixedArray data spare types addresses (type,place) _ kind elementType,many,Action.bind_ok _ ran,
            List.map_map]
          simp [Function.comp_def]

end Kept

section Structs
variable {types : Types} {around : Surroundings} {c : Chunk} {type : TypeId} {values : List Value}

theorem ValueOf.kind_struct (typed : ValueOf types type (.struct values)) : (types type).kind = .struct := by
  cases typed with
  | struct built _ _ => exact congrArg TypeDescriptor.kind built

theorem keepable_of_kept (typed : ValueOf types type (.struct values)) (kept : SchemaKept types around c type (.struct values)) :
    ∃ words, Keepable types type (.struct values) words := by
  obtain ⟨_,c',_,reads⟩ := kept
  obtain ⟨depth,t,ran,_⟩ := reads generous (fun _ _ _ => Option.some_ne_none _)
  rw [schemaReadStruct,if_neg (not_not_intro typed.kind_struct),Action.bind_ok _ (store_run ..)] at ran
  exact keepable_of_read typed ran

theorem kept_of_keepable (typed : ValueOf types type (.struct values)) (roomy : Roomy c) {words : Nat}
    (keepable : Keepable types type (.struct values) words) (few : c.dataSize + words < 2 ^ 30) :
    SchemaKept types around c type (.struct values) := by
  have isStruct : ¬ (types type).kind ≠ .struct := not_not_intro typed.kind_struct
  obtain ⟨least,back⟩ := back_of_keepable typed keepable
  obtain ⟨c',written,ran,fills,_,_,brings⟩ := back least (Nat.le_refl least) c roomy few
  refine ⟨least,c',?_,fun addresses _ => ⟨least,?_⟩⟩
  · rw [schemaWriteStruct,if_neg isStruct]
    exact ran
  · have ahead : Ahead c'.words c.dataSize (written ++ []) := by
      rw [fills.words,List.append_nil]
      exact ahead_after c.words written
    obtain ⟨t,read,ahead⟩ := brings least (Nat.le_refl least) addresses ⟨(types type).size,0⟩ c'.words c'.spare
      ⟨c.dataSize,0,[⟨⟨(types type).size,0⟩,(types type).size.toNat⟩]⟩ [] ahead
    refine ⟨t,?_,ahead.length_eq.symm⟩
    rw [schemaReadStruct,if_neg isStruct,Action.bind_ok _ (store_run ..)]
    exact read

/-- Of the values of a struct those come back that have no enum, no absent string and nothing in an array or a
binary, up to 2^30 words of data. -/
theorem schemaKept_keepable (typed : ValueOf types type (.struct values)) (roomy : Roomy c) :
    (SchemaKept types around c type (.struct values) → ∃ words, Keepable types type (.struct values) words) ∧
      ∀ words, Keepable types type (.struct values) words → c.dataSize + words < 2 ^ 30 →
        SchemaKept types around c type (.struct values) :=
  ⟨keepable_of_kept typed,fun _ keepable few => kept_of_keepable typed roomy keepable few⟩

/-- A number with a name. -/
def namedNumber : Types
  | 0 => builderScalar .u32 4
  | 1 => builderScalar .string 8
  | _ => builderStruct 16 [⟨0,0⟩,⟨1,8⟩]

theorem namedNumber_kept : SchemaKept namedNumber {} ((chunkStartWrite {}).run chunkCreate).2 2
    (.struct [.number 7,.string (some [97,98])]) := by
  obtain ⟨c,started,roomy,empty⟩ := startWrite_roomy {}
  rw [started]
  have pairs : ∀ P : TypeId × Value → Prop, P (0,.number 7) → P (1,.string (some [97,98])) →
      ∀ pair ∈ [SchemaField.mk 0 0,SchemaField.mk 1 8].map SchemaField.type |>.zip [Value.number 7,.string (some [97,98])],
        P pair := fun P first second => by simpa using ⟨first,second⟩
  have typed : ValueOf namedNumber 2 (.struct [.number 7,.string (some [97,98])]) :=
    .struct rfl rfl (pairs _ (.number rfl rfl (by decide)) (.string rfl fun text same => by cases same; decide))
  let sizes : TypeId × Value → Nat := fun pair => if pair.1 = 0 then 1 else 2
  have keepable : Keepable namedNumber 2 (.struct [.number 7,.string (some [97,98])]) _ :=
    .struct rfl (pairs (fun pair => Keepable namedNumber pair.1 pair.2 (sizes pair)) (.number rfl) (.string rfl))
  refine (schemaKept_keepable typed roomy).2 _ keepable ?_
  rw [Chunk.dataSize,empty]
  decide

def namedEnum : Types
  | 0 => builderEnum .u32
  | _ => builderStruct 4 [⟨0,0⟩]

/-- The element type of an enum is null. -/
theorem namedEnum_lost : ¬ ∀ (types : Types) (type : TypeId) (values : List Value) (c : Chunk),
    ValueOf types type (.struct values) → Roomy c → SchemaKept types {} c type (.struct values) := by
  intro all
  obtain ⟨c,_,roomy,_⟩ := startWrite_roomy {}
  have typed : ValueOf namedEnum 1 (.struct [.number 5]) := .struct rfl rfl fun pair member => by
    obtain rfl := List.mem_singleton.mp member
    exact @ValueOf.enum namedEnum 0 .u32 4 5 rfl rfl (by decide)
  obtain ⟨words,keepable⟩ := keepable_of_kept typed (all namedEnum 1 [.number 5] c typed roomy)
  cases keepable with
  | @struct _ _ sizes kind each =>
    have field := each (0,.number 5) (List.mem_singleton.mpr rfl)
    generalize sizes (0,.number 5) = one at field
    cases field with
    | number stores => cases stores

end Structs

end Libnmo.Schema
