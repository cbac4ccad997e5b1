import Mathlib.Algebra.BigOperators.Group.List.Basic
import Libnmo.Format.ChunkReadBack
import Libnmo.Format.ChunkRoom

/-! Writes by the shape of their words. A string or a buffer leaves what the memory had
in its last word, so that a write fixes its words up to that; it leaves words of its
shape wherever it succeeds, and succeeds wherever there is room. -/
namespace Libnmo.Format
open Core Lib Lib.LittleEndian

structure WritesAs (bound : Nat) (shape : List UInt32 → Prop) (action : Run Chunk Unit) : Prop where
  leaves : ∀ c c', Filling c → action.run c = (.ok (),c') → ∃ words, Fills c c' words ∧ shape words
  room : WritesUpTo bound action

section Shapes
variable {around : Surroundings} {bound bound' : Nat} {shape shape' : List UInt32 → Prop} {first second : Run Chunk Unit}

theorem WritesAs.imp (as : WritesAs bound shape first) (weaker : ∀ words, shape words → shape' words) :
    WritesAs bound shape' first := by
  refine ⟨fun c c' filling ok => ?_,as.room⟩
  obtain ⟨words,fills,fits⟩ := as.leaves c c' filling ok
  exact ⟨words,fills,weaker words fits⟩

theorem WritesAs.mono (as : WritesAs bound shape first) (le : bound ≤ bound') : WritesAs bound' shape first :=
  ⟨as.leaves,as.room.mono le⟩

theorem as_pure : WritesAs 0 (· = []) (pure ()) := by
  refine ⟨fun c c' filling ok => ?_,writes_pure.upTo⟩
  obtain rfl := (Prod.mk.inj ok).2
  exact ⟨[],filling.fills,rfl⟩

theorem as_bind (head : WritesAs bound shape first) (tail : WritesAs bound' shape' second) :
    WritesAs (bound + bound') (fun words => ∃ before after, words = before ++ after ∧ shape before ∧ shape' after)
      (first >>= fun _ => second) := by
  refine ⟨fun c c' filling ok => ?_,upTo_bind head.room tail.room⟩
  obtain ⟨_,c₁,one,two⟩ := Action.bind_success ok
  obtain ⟨before,fills,fits⟩ := head.leaves _ _ filling one
  obtain ⟨after,others,fits'⟩ := tail.leaves _ _ fills.filling two
  exact ⟨before ++ after,fills.trans others,before,after,rfl,fits,fits'⟩

/-- The first write fixes its words. -/
theorem as_after {words : List UInt32} (head : WritesAs bound (· = words) first) (tail : WritesAs bound' shape second) :
    WritesAs (bound + bound') (fun all => ∃ after, all = words ++ after ∧ shape after) (first >>= fun _ => second) := by
  refine (as_bind head tail).imp ?_
  rintro _ ⟨_,after,rfl,rfl,fits⟩
  exact ⟨after,rfl,fits⟩

theorem as_then {words words' : List UInt32} (head : WritesAs bound (· = words) first)
    (tail : WritesAs bound' (· = words') second) :
    WritesAs (bound + bound') (· = words ++ words') (first >>= fun _ => second) := by
  refine (as_after head tail).imp ?_
  rintro _ ⟨_,rfl,rfl⟩
  rfl

theorem as_writeWords (words : List UInt32) : WritesAs words.length (· = words) (writeWords around words) :=
  ⟨fun _ _ filling ok => ⟨words,writeWords_success filling ok,rfl⟩,(writes_writeWords words).upTo⟩

theorem as_identifier (identifier : UInt32) : WritesAs 1 (· = [identifier]) (chunkWriteIdentifier around identifier) := by
  refine ⟨fun c c' filling ok => ?_,(writes_identifier identifier).upTo⟩
  obtain ⟨_,c₁,stored,ok⟩ := Action.bind_success ok
  have written := writeWords_success filling stored
  rw [Action.update_apply,Prod.mk.injEq] at ok
  refine ⟨[identifier],?_,rfl⟩
  rw [← ok.2]
  refine ⟨written.words,?_⟩
  rw [Filling,Option.map_map]
  exact written.filling

theorem as_objectId (id : UInt32) : WritesAs 1 (· = [id]) (chunkWriteObjectId around id) :=
  ⟨fun _ _ filling ok => ⟨[id],writeObjectId_success filling ok,rfl⟩,(writes_objectId id).upTo⟩

theorem as_managerInt (managerGuid : Guid) (value : UInt32) :
    WritesAs 3 (· = [managerGuid.d1,managerGuid.d2,value]) (chunkWriteManagerInt around managerGuid value) := by
  refine ⟨fun c c' filling ok => ⟨_,writeManagerInt_success filling ok,rfl⟩,fun c roomy few => ?_⟩
  obtain ⟨c₁,checked,fills,roomy₁,room⟩ := checkSize_room around 3 roomy few
  let c₂ : Chunk := { c₁ with
    managers := c₁.managers ++ [UInt32.ofNat (c₁.parserState.getD {}).currentPos] }
  have noted : Fills c₁ c₂ [] := fills_of_same fills.filling rfl rfl
  obtain ⟨c₃,stored,others,roomy₃,_⟩ := storeWords_room [managerGuid.d1,managerGuid.d2,value]
    (roomy₁.of_fills noted rfl) (show c₂.dataSize + 3 ≤ c₂.dataCapacity from room)
  refine ⟨c₃,_,?_,(fills.trans noted).trans others,Nat.le_refl 3,roomy₃⟩
  rw [chunkWriteManagerInt,Action.bind_ok _ checked]
  exact stored

/-- A length, and the bytes behind it. -/
theorem as_buffer (source : List UInt8) : WritesAs (1 + (source.length + 3) / 4)
    (fun words => ∃ packed, words = UInt32.ofNat source.length :: packed ∧ Packs packed source)
    (chunkWriteBuffer around (some source) source.length) := by
  refine ⟨fun c c' filling ok => ?_,upTo_buffer source⟩
  obtain ⟨packed,fills,packs⟩ := chunkWriteBuffer_success filling ok
  exact ⟨_,fills,packed,rfl,packs⟩

/-- The bytes alone. -/
theorem as_bufferNoSize (source : List UInt8) : WritesAs ((source.length + 3) / 4) (Packs · source)
    (chunkWriteBufferNoSize around source source.length) := by
  unfold chunkWriteBufferNoSize
  by_cases empty : source.length = 0
  · obtain rfl := List.length_eq_zero_iff.mp empty
    exact as_pure.imp fun words same => same ▸ packs_nil
  · rw [if_neg empty]
    refine ⟨fun c c' filling ok => ?_,fun c roomy few => ?_⟩
    · obtain ⟨_,c₁,checked,ok⟩ := Action.bind_success ok
      have fills := checkSize_success filling checked
      obtain ⟨words,others,packs,_⟩ := storeBytes_success fills.filling ok
      rw [List.take_length] at packs
      exact ⟨words,fills.trans others,packs⟩
    · obtain ⟨c₁,checked,fills,roomy₁,room⟩ := checkSize_room around ((source.length + 3) / 4) roomy few
      have size := fills.dataSize
      rw [List.length_nil,Nat.add_zero] at size
      obtain ⟨c₂,words,stored,others,length,roomy₂⟩ := storeBytes_room source roomy₁ (by omega)
      refine ⟨c₂,_,?_,fills.trans others,?_,roomy₂⟩
      · rw [Action.bind_ok _ checked]
        exact stored
      · rw [List.nil_append,length]

theorem as_string (chars : List UInt8) : WritesAs (1 + (chars.length + 4) / 4)
    (fun words => ∃ packed, words = UInt32.ofNat (chars.length + 1) :: packed ∧ Packs packed (chars ++ [0]))
    (chunkWriteString around (some chars)) := by
  have length : (chars ++ [(0 : UInt8)]).length = chars.length + 1 := List.length_append
  have written : chunkWriteString around (some chars) =
      chunkWriteBuffer around (some (chars ++ [0])) (chars ++ [(0 : UInt8)]).length := rfl
  rw [written,← length]
  refine (as_buffer (chars ++ [0])).mono ?_
  rw [length]

/-- The words of the values, one behind the other. -/
theorem as_each {α : Type} {write : α → Run Chunk Unit} {size : α → Nat} {shapes : α → List UInt32 → Prop}
    (each : ∀ a, WritesAs (size a) (shapes a) (write a)) (values : List α) :
    WritesAs (values.map size).sum (fun words => ∃ parts, words = parts.flatten ∧ List.Forall₂ shapes values parts)
      (writeEach write values) := by
  induction values with
  | nil => exact as_pure.imp fun words empty => ⟨[],empty,.nil⟩
  | cons value rest ih =>
    refine (as_bind (each value) ih).imp ?_
    rintro _ ⟨before,_,rfl,fits,parts,rfl,all⟩
    exact ⟨before :: parts,rfl,.cons fits all⟩

theorem as_eachWord {α : Type} {write : α → Run Chunk Unit} {word : α → UInt32}
    (each : ∀ a, WritesAs 1 (· = [word a]) (write a)) (values : List α) :
    WritesAs values.length (· = values.map word) (writeEach write values) := by
  induction values with
  | nil => exact as_pure
  | cons value rest ih =>
    refine (as_then (each value) ih).mono ?_
    rw [List.length_cons,Nat.add_comm]

/-- What a started write fills has the shape. -/
theorem WritesAs.filled (as : WritesAs bound shape first) {c : Chunk}
    (ok : (chunkStartWrite around >>= fun _ => first).run chunkCreate = (.ok (),c)) : shape c.words := by
  obtain ⟨c₁,started,roomy,empty⟩ := startWrite_roomy around
  rw [Action.bind_ok _ started] at ok
  obtain ⟨words,fills,fits⟩ := as.leaves _ _ roomy.filling ok
  rw [fills.words,empty]
  exact fits

theorem WritesAs.fill (as : WritesAs bound shape first) (around : Surroundings) (few : bound < 2 ^ 60) :
    ∃ c, (chunkStartWrite around >>= fun _ => first).run chunkCreate = (.ok (),c) ∧ shape c.words := by
  obtain ⟨c₁,started,roomy,empty⟩ := startWrite_roomy around
  obtain ⟨c,words,ran,_⟩ := as.room c₁ roomy (by rw [Chunk.dataSize,empty,List.length_nil]; omega)
  have whole : (chunkStartWrite around >>= fun _ => first).run chunkCreate = (.ok (),c) := by
    rw [Action.bind_ok _ started]
    exact ran
  exact ⟨c,whole,as.filled whole⟩

end Shapes

end Libnmo.Format
