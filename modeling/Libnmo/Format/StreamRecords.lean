import Libnmo.Format.ChunkVersion1RoundTrip
import Libnmo.Format.StreamRequests

/-! The records of a data section, and what one call of the reader does to them. A call that gets
to the size of a record takes the record, unless the arena, the chunk or the section fails it. -/
namespace Libnmo.Format
open Core Lib Lib.LittleEndian Lib.Cursor

/-- The bytes of the stored ID, where the file has one. -/
def idBytes : Option UInt32 → List UInt8
  | some id => wordBytes id
  | none => []

def recordFields (storedId : Option UInt32) (size : UInt32) : List UInt8 := idBytes storedId ++ wordBytes size

structure StreamRecord where
  storedId : Option UInt32
  payload : List UInt8
  small : payload.length < 2 ^ 32

namespace StreamRecord

def bytes (record : StreamRecord) : List UInt8 := recordFields record.storedId (count32 record.payload) ++ record.payload

/-- Files older than version 7 store the IDs of objects. -/
def Stored (header : FileHeader) (record : StreamRecord) : Prop := record.storedId.isSome ↔ header.fileVersion < 7

def chunk (record : StreamRecord) : Result (Option Chunk) :=
  if record.payload = [] then .ok none else (parsedChunk record.payload).map some

/-- The object that the record makes under the descriptor at a place of the list. -/
def object (header1 : Header1) (index : UInt32) (named : Bool) (record : StreamRecord) : Result StreamObject :=
  record.chunk.map fun chunk => objectOf (objectDesc header1 index) (record.storedId.getD 0) chunk named

end StreamRecord

/-- The fields are known from the bytes that begin with them. -/
theorem fields_inj {id id' : Option UInt32} {size size' : UInt32} {x y : List UInt8} (kind : id.isSome ↔ id'.isSome)
    (same : recordFields id size ++ x = recordFields id' size' ++ y) : id = id' ∧ size = size' ∧ x = y := by
  rw [recordFields,recordFields,List.append_assoc,List.append_assoc] at same
  cases id with
  | none => cases id' with
    | none =>
      obtain ⟨sizes,rest⟩ := List.append_inj (List.append_inj same rfl).2 rfl
      exact ⟨rfl,wordBytes_inj sizes,rest⟩
    | some word' => simp at kind
  | some word => cases id' with
    | none => simp at kind
    | some word' =>
      obtain ⟨ids,same⟩ := List.append_inj same rfl
      obtain ⟨sizes,rest⟩ := List.append_inj same rfl
      exact ⟨congrArg some (wordBytes_inj ids),wordBytes_inj sizes,rest⟩

theorem record_inj {a b : StreamRecord} {x y : List UInt8} (kind : a.storedId.isSome ↔ b.storedId.isSome)
    (same : a.bytes ++ x = b.bytes ++ y) : a = b ∧ x = y := by
  obtain ⟨id,payload,small⟩ := a
  obtain ⟨id',payload',small'⟩ := b
  rw [StreamRecord.bytes,StreamRecord.bytes,List.append_assoc,List.append_assoc] at same
  obtain ⟨ids,sizes,same⟩ := fields_inj kind same
  have counts := congrArg UInt32.toNat sizes
  rw [toNat_count32 _ small,toNat_count32 _ small'] at counts
  obtain ⟨payloads,rest⟩ := List.append_inj same counts
  refine ⟨?_,rest⟩
  rw [StreamRecord.mk.injEq]
  exact ⟨ids,payloads⟩

/-- As many records are known from the bytes that they begin. -/
theorem records_agree {header : FileHeader} {a b : List StreamRecord} {x y : List UInt8} (count : a.length = b.length)
    (stored : ∀ each ∈ a, each.Stored header) (stored' : ∀ each ∈ b, each.Stored header)
    (same : a.flatMap StreamRecord.bytes ++ x = b.flatMap StreamRecord.bytes ++ y) : a = b := by
  induction a generalizing b with
  | nil => exact (List.length_eq_zero_iff.mp count.symm).symm
  | cons first a ih =>
    cases b with
    | nil => cases count
    | cons first' b =>
      rw [List.forall_mem_cons] at stored stored'
      simp only [List.flatMap_cons,List.append_assoc] at same
      obtain ⟨rfl,rest⟩ := record_inj (stored.1.trans stored'.1.symm) same
      rw [ih (Nat.succ.inj count) stored.2 stored'.2 rest]

inductive ObjectCall
  | read (granted : Granted)
  | skip

section
variable {io : StreamIo} {zlib : InflateLibrary} {reader t u : StreamReader io zlib}

def callObject : ObjectCall → Run (StreamReader io zlib) (Option StreamObject)
  | .read granted => do
    let object ← readNextObject granted
    pure (some object)
  | .skip => do
    skipObject
    pure none

/-- The fields of a record lie ahead, and the section has that many bytes left. -/
structure Begins (reader : StreamReader io zlib) (storedId : Option UInt32) (size : UInt32) : Prop where
  stored : storedId.isSome ↔ reader.header.fileVersion < 7
  gives : ∃ after, Gives sourceNext reader.window (recordFields storedId size) after
  within : (recordFields storedId size).length ≤ reader.uncompressedRemaining

/-- What a call asks of the arena and of the chunk of a record. -/
def Accepts (reader : StreamReader io zlib) (storedId : Option UInt32) (size : UInt32) : ObjectCall → Prop
  | .skip => True
  | .read granted => (size ≠ 0 → granted.buffer = true) ∧ ∀ payload after, payload.length = size.toNat →
      Gives sourceNext reader.window (recordFields storedId size ++ payload) after →
        granted.object = true ∧ (size ≠ 0 → granted.chunk = true ∧ ∃ c, parsedChunk payload = .ok c)

/-- A call that begins a record can take all of it: the section has the bytes, the arena grants its
allocations and the chunk parses. -/
def Completes (reader : StreamReader io zlib) (call : ObjectCall) : Prop :=
  reader.nextObjectIndex < reader.objectsTotal → ∀ storedId size, Begins reader storedId size →
    (recordFields storedId size).length + size.toNat ≤ reader.uncompressedRemaining ∧
      Accepts reader storedId size call

/-- No call can take a record any more: too few bytes are left for the fields, or the data has broken off. -/
def Spent (reader : StreamReader io zlib) : Prop :=
  reader.uncompressedRemaining < 4 ∨ (reader.window.held = [] ∧ Dry sourceNext reader.source)

theorem BreaksOff.spent {size : Nat} {stop : Stop} (breaks : BreaksOff reader size stop t) : Spent t :=
  .inr ⟨breaks.empty,breaks.dry⟩

theorem readerCopyBytes_cases (size : Nat) (small : SmallBuffer reader.source) :
    (∃ taken t, (readerCopyBytes size).run reader = (.ok taken,t) ∧ taken.length = size ∧ Draws reader taken t) ∨
    (∃ stop, (readerCopyBytes size).run reader = (.error stop,reader) ∧ reader.uncompressedRemaining < size) ∨
    ∃ stop t, (readerCopyBytes size).run reader = (.error stop,t) ∧ BreaksOff reader size stop t := by
  by_cases within : size ≤ reader.uncompressedRemaining
  · rw [readerCopyBytes_allowed within]
    rcases readerCopyLoop_cases (Nat.lt_succ_self size) small within with served | broken
    · exact .inl served
    · exact .inr (.inr broken)
  · have beyond := Nat.not_le.mp within
    exact .inr (.inl ⟨_,readerCopyBytes_refused beyond,beyond⟩)

theorem readerSkipBytes_cases (size : Nat) (small : SmallBuffer reader.source) :
    (∃ taken t, (readerSkipBytes size).run reader = (.ok (),t) ∧ taken.length = size ∧ Draws reader taken t) ∨
    (∃ stop, (readerSkipBytes size).run reader = (.error stop,reader) ∧ reader.uncompressedRemaining < size) ∨
    ∃ stop t, (readerSkipBytes size).run reader = (.error stop,t) ∧ BreaksOff reader size stop t := by
  by_cases within : size ≤ reader.uncompressedRemaining
  · rw [readerSkipBytes_allowed within]
    rcases readerCopyLoop_cases (Nat.lt_succ_self size) small within with ⟨taken,t,ran,length,draws⟩ | ⟨stop,t,ran,broken⟩
    · exact .inl ⟨taken,t,Action.bind_ok _ ran,length,draws⟩
    · exact .inr (.inr ⟨stop,t,Action.bind_error _ ran,broken⟩)
  · have beyond := Nat.not_le.mp within
    exact .inr (.inl ⟨_,readerSkipBytes_refused beyond,beyond⟩)

theorem wordBytes_bytesU32 {bytes : List UInt8} (length : bytes.length = 4) : wordBytes (bytesU32 bytes) = bytes := by
  match bytes,length with
  | [a,b,c,d],_ => exact wordBytes_bytesWord a b c d

theorem readerReadU32_cases (small : SmallBuffer reader.source) :
    (∃ word t, readerReadU32.run reader = (.ok word,t) ∧ Draws reader (wordBytes word) t) ∨
    ∃ stop t, readerReadU32.run reader = (.error stop,t) ∧ Spent t := by
  rw [readerReadU32]
  rcases readerCopyBytes_cases 4 small with ⟨taken,t,ran,length,draws⟩ | ⟨stop,ran,few⟩ | ⟨stop,t,ran,broken⟩
  · rw [Action.bind_ok _ ran]
    refine .inl ⟨bytesU32 taken,t,rfl,?_⟩
    rwa [wordBytes_bytesU32 length]
  · rw [Action.bind_error _ ran]
    exact .inr ⟨stop,reader,rfl,.inl few⟩
  · rw [Action.bind_error _ ran]
    exact .inr ⟨stop,t,rfl,broken.spent⟩

theorem readerReadId_cases (small : SmallBuffer reader.source) :
    (∃ storedId t, readerReadId.run reader = (.ok (storedId.getD 0),t) ∧ Draws reader (idBytes storedId) t ∧
      (storedId.isSome ↔ reader.header.fileVersion < 7)) ∨
    ∃ stop t, readerReadId.run reader = (.error stop,t) ∧ Spent t := by
  rw [readerReadId,Action.bind_ok _ (Action.read_apply _ _)]
  by_cases old : reader.header.fileVersion < 7
  · rw [if_pos old]
    rcases readerReadU32_cases small with ⟨word,t,ran,draws⟩ | spent
    · exact .inl ⟨some word,t,ran,draws,iff_of_true rfl old⟩
    · exact .inr spent
  · rw [if_neg old]
    exact .inl ⟨none,reader,rfl,.refl small,iff_of_false Bool.false_ne_true old⟩

theorem readerSkipId_cases (small : SmallBuffer reader.source) :
    (∃ storedId t, readerSkipId.run reader = (.ok (),t) ∧ Draws reader (idBytes storedId) t ∧
      (storedId.isSome ↔ reader.header.fileVersion < 7)) ∨
    ∃ stop t, readerSkipId.run reader = (.error stop,t) ∧ Spent t := by
  rw [readerSkipId,Action.bind_ok _ (Action.read_apply _ _)]
  by_cases old : reader.header.fileVersion < 7
  · rw [if_pos old]
    rcases readerSkipBytes_cases 4 small with ⟨taken,t,ran,length,draws⟩ | ⟨stop,ran,few⟩ | ⟨stop,t,ran,broken⟩
    · refine .inl ⟨some (bytesU32 taken),t,ran,?_,iff_of_true rfl old⟩
      rwa [idBytes,wordBytes_bytesU32 length]
    · exact .inr ⟨stop,reader,ran,.inl few⟩
    · exact .inr ⟨stop,t,ran,broken.spent⟩
  · rw [if_neg old]
    exact .inl ⟨none,reader,rfl,.refl small,iff_of_false Bool.false_ne_true old⟩

/-- A call has taken a record and counted it. -/
structure Passes (reader : StreamReader io zlib) (record : StreamRecord) (t : StreamReader io zlib) : Prop where
  stored : record.Stored reader.header
  gives : Gives sourceNext reader.window record.bytes t.window
  small : SmallBuffer t.source
  header : t.header = reader.header
  header1 : t.header1 = reader.header1
  below : reader.nextObjectIndex < reader.objectsTotal
  counted : t.nextObjectIndex = reader.nextObjectIndex + 1

section
variable {storedId : Option UInt32} {size : UInt32} {payload : List UInt8} {granted : Granted}

/-- An ID that is read or skipped, and the size behind it. -/
theorem fields_cases {α β : Type} {first : Run (StreamReader io zlib) α} (value : Option UInt32 → α)
    (next : α → UInt32 → Run (StreamReader io zlib) β)
    (outcome : (∃ storedId t, first.run reader = (.ok (value storedId),t) ∧ Draws reader (idBytes storedId) t ∧
      (storedId.isSome ↔ reader.header.fileVersion < 7)) ∨ ∃ stop t, first.run reader = (.error stop,t) ∧ Spent t) :
    (∃ storedId size t, (first >>= fun a => readerReadU32 >>= next a).run reader = (next (value storedId) size).run t ∧
      Draws reader (recordFields storedId size) t ∧ (storedId.isSome ↔ reader.header.fileVersion < 7)) ∨
    ∃ stop t, (first >>= fun a => readerReadU32 >>= next a).run reader = (.error stop,t) ∧ Spent t := by
  rcases outcome with ⟨storedId,t,ran,before,stored⟩ | ⟨stop,t,ran,spent⟩
  · rw [Action.bind_ok _ ran]
    rcases readerReadU32_cases before.small with ⟨size,u,ran,after⟩ | ⟨stop,u,ran,spent⟩
    · rw [Action.bind_ok _ ran]
      exact .inl ⟨storedId,size,u,rfl,before.trans after,stored⟩
    · rw [Action.bind_error _ ran]
      exact .inr ⟨stop,u,rfl,spent⟩
  · rw [Action.bind_error _ ran]
    exact .inr ⟨stop,t,rfl,spent⟩

theorem begins_of (draws : Draws reader (recordFields storedId size) t)
    (stored : storedId.isSome ↔ reader.header.fileVersion < 7) : Begins reader storedId size := by
  refine ⟨stored,⟨t.window,draws.gives⟩,?_⟩
  rw [← draws.counted]
  exact Nat.le_add_left ..

/-- A call can take a record that lies ahead as a whole, if the arena and the chunk let it. -/
theorem completes_whole (record : StreamRecord) {after : Window (StreamSource io zlib) UInt8} {call : ObjectCall}
    (stored : record.Stored reader.header) (gives : Gives sourceNext reader.window record.bytes after)
    (fits : record.bytes.length ≤ reader.uncompressedRemaining)
    (accepted : ∀ granted, call = .read granted → granted.buffer = true ∧ granted.chunk = true ∧ granted.object = true ∧
      ∃ c, parsedChunk record.payload = .ok c) : Completes reader call := by
  intro _ storedId size begins
  have kind := begins.stored.trans stored.symm
  obtain ⟨window,begun⟩ := begins.gives
  obtain ⟨rfl,rfl⟩ : storedId = record.storedId ∧ size = count32 record.payload := by
    rcases begun.comparable gives with ⟨rest,parts⟩ | ⟨rest,parts⟩
    · obtain ⟨ids,sizes,_⟩ := fields_inj kind parts
      exact ⟨ids,sizes⟩
    · rw [StreamRecord.bytes,List.append_assoc,← List.append_nil (recordFields storedId size)] at parts
      obtain ⟨ids,sizes,_⟩ := fields_inj kind.symm parts
      exact ⟨ids.symm,sizes.symm⟩
  have counts := toNat_count32 record.payload record.small
  refine ⟨?_,?_⟩
  · rw [counts,← List.length_append]
    exact fits
  · cases call with
    | skip => trivial
    | read granted =>
      obtain ⟨buffer,chunk,object,parses⟩ := accepted granted rfl
      refine ⟨fun _ => buffer,fun payload w length more => ⟨object,fun _ => ⟨chunk,?_⟩⟩⟩
      have lengths : (recordFields record.storedId (count32 record.payload) ++ payload).length = record.bytes.length := by
        rw [StreamRecord.bytes,List.length_append,List.length_append,length,counts]
      have same : recordFields record.storedId (count32 record.payload) ++ payload = record.bytes := by
        rcases more.comparable gives with shorter | shorter
        · exact shorter.eq_of_length lengths
        · exact (shorter.eq_of_length lengths.symm).symm
      obtain rfl := List.append_cancel_left same
      exact parses

theorem passes_of (fields : Draws reader (recordFields storedId size) t) (length : payload.length = size.toNat)
    (draws : Draws t payload u) (stored : storedId.isSome ↔ reader.header.fileVersion < 7)
    (below : reader.nextObjectIndex < reader.objectsTotal) :
    Passes reader ⟨storedId,payload,length ▸ size.toNat_lt⟩ u.counted := by
  have whole := fields.trans draws
  have counts : count32 payload = size := by
    rw [count32,length,UInt32.ofNat_toNat]
  refine ⟨stored,?_,whole.small,whole.same.header,whole.same.header1,below,?_⟩
  · rw [StreamRecord.bytes,counts]
    exact whole.gives
  · rw [StreamReader.counted,whole.same.nextObjectIndex]

theorem readerReadChunk_cases (small : SmallBuffer reader.source) (fits : size.toNat ≤ reader.uncompressedRemaining)
    (buffer : size ≠ 0 → granted.buffer = true) (accepts : ∀ payload after, payload.length = size.toNat →
      Gives sourceNext reader.window payload after → size ≠ 0 → granted.chunk = true ∧ ∃ c, parsedChunk payload = .ok c) :
    (∃ payload chunk t, (readerReadChunk granted size).run reader = (.ok chunk,t) ∧ payload.length = size.toNat ∧
      Draws reader payload t ∧ (if payload = [] then .ok none else (parsedChunk payload).map some) = .ok chunk) ∨
    ∃ stop t, (readerReadChunk granted size).run reader = (.error stop,t) ∧ Spent t := by
  rw [readerReadChunk]
  by_cases none : size = 0
  · rw [if_pos none]
    refine .inl ⟨[],.none,reader,rfl,?_,.refl small,if_pos rfl⟩
    rw [none]
    rfl
  · rw [if_neg none,if_pos (buffer none),Action.bind_ok _ (Action.pure_apply _ _)]
    rcases readerCopyBytes_cases size.toNat small with ⟨payload,t,ran,length,draws⟩ | ⟨stop,ran,few⟩ | ⟨stop,t,ran,broken⟩
    · obtain ⟨chunk,c,parsed⟩ := accepts payload t.window length draws.gives none
      have some : payload ≠ [] := by
        rintro rfl
        exact none (UInt32.toNat_inj.mp length.symm)
      rw [Action.bind_ok _ ran,if_pos chunk,Action.bind_ok _ (Action.pure_apply _ _),
        Action.bind_ok _ ((Action.lift_apply _ _).trans (by rw [parsed]))]
      refine .inl ⟨payload,.some c,t,rfl,length,draws,?_⟩
      rw [if_neg some,parsed]
      rfl
    · exact absurd fits (Nat.not_le.mpr few)
    · rw [Action.bind_error _ ran]
      exact .inr ⟨stop,t,rfl,broken.spent⟩

/-- A call that completes what it begins returns the record ahead under the descriptor of its index, or it
leaves the reader as it is, or no record can be taken any more. -/
theorem readNextObject_cases (small : SmallBuffer reader.source) (completes : Completes reader (.read granted)) :
    (∃ object record t, (readNextObject granted).run reader = (.ok object,t) ∧ Passes reader record t ∧
      record.object reader.header1 reader.nextObjectIndex granted.name = .ok object) ∨
    ∃ stop t, (readNextObject granted).run reader = (.error stop,t) ∧ (t = reader ∨ Spent t) := by
  rw [readNextObject,Action.bind_ok _ (Action.read_apply _ _)]
  dsimp only [id]
  by_cases ended : reader.nextObjectIndex ≥ reader.objectsTotal
  · rw [if_pos ended]
    exact .inr ⟨_,reader,rfl,.inl rfl⟩
  have below : reader.nextObjectIndex < reader.objectsTotal := UInt32.not_le.mp ended
  rw [if_neg ended,Action.bind_ok _ (Action.pure_apply _ _)]
  rcases fields_cases (·.getD 0) _ (readerReadId_cases small) with ⟨storedId,size,u,ran,fields,stored⟩ | ⟨stop,u,ran,spent⟩
  case inr =>
    rw [ran]
    exact .inr ⟨stop,u,rfl,.inr spent⟩
  rw [ran]
  obtain ⟨fits,buffer,accepts⟩ := completes below storedId size (begins_of fields stored)
  rw [← fields.counted,Nat.add_comm] at fits
  rcases readerReadChunk_cases fields.small (Nat.le_of_add_le_add_right fits) buffer
    (fun payload after length gives => (accepts payload after length (fields.gives.trans gives)).2) with
    ⟨payload,chunk,w,ran,length,draws,parsed⟩ | ⟨stop,w,ran,spent⟩
  case inr =>
    rw [Action.bind_error _ ran]
    exact .inr ⟨stop,w,rfl,.inr spent⟩
  have object := (accepts payload w.window length (fields.trans draws).gives).1
  rw [Action.bind_ok _ ran,if_pos object,Action.bind_ok _ (Action.pure_apply _ _),Action.bind_ok _ (Action.update_apply _ _)]
  refine .inl ⟨_,_,_,rfl,passes_of fields length draws stored below,?_⟩
  rw [StreamRecord.object,StreamRecord.chunk,parsed]
  rfl

theorem skipObject_cases (small : SmallBuffer reader.source) (completes : Completes reader .skip) :
    (∃ record t, skipObject.run reader = (.ok (),t) ∧ Passes reader record t) ∨
    ∃ stop t, skipObject.run reader = (.error stop,t) ∧ (t = reader ∨ Spent t) := by
  rw [skipObject,Action.bind_ok _ (Action.read_apply _ _)]
  dsimp only [id]
  by_cases ended : reader.nextObjectIndex ≥ reader.objectsTotal
  · rw [if_pos ended]
    exact .inr ⟨_,reader,rfl,.inl rfl⟩
  have below : reader.nextObjectIndex < reader.objectsTotal := UInt32.not_le.mp ended
  rw [if_neg ended,Action.bind_ok _ (Action.pure_apply _ _)]
  rcases fields_cases (fun _ => ()) _ (readerSkipId_cases small) with
    ⟨storedId,size,u,ran,fields,stored⟩ | ⟨stop,u,ran,spent⟩
  case inr =>
    rw [ran]
    exact .inr ⟨stop,u,rfl,.inr spent⟩
  rw [ran]
  obtain ⟨fits,_⟩ := completes below storedId size (begins_of fields stored)
  rw [← fields.counted,Nat.add_comm] at fits
  by_cases none : size = 0
  · rw [if_pos none,Action.bind_ok _ (Action.pure_apply _ _)]
    have length : ([] : List UInt8).length = size.toNat := by
      rw [none]
      rfl
    exact .inl ⟨_,_,rfl,passes_of fields length (.refl fields.small) stored below⟩
  · rw [if_neg none]
    rcases readerSkipBytes_cases size.toNat fields.small with ⟨payload,w,ran,length,draws⟩ | ⟨stop,ran,few⟩ | ⟨stop,w,ran,broken⟩
    · rw [Action.bind_ok _ ran]
      exact .inl ⟨_,_,rfl,passes_of fields length draws stored below⟩
    · exact absurd (Nat.le_of_add_le_add_right fits) (Nat.not_le.mpr few)
    · rw [Action.bind_error _ ran]
      exact .inr ⟨stop,w,rfl,.inr broken.spent⟩

end

end

end Libnmo.Format
