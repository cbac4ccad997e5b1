import Libnmo.Format.SizeChecks

/-! Writes at any position of a chunk. A growth copies the words before the position
alone, but it happens only where the write goes past the whole buffer, so that no word
behind the write is lost. -/
namespace Libnmo.Format
open Core Lib Lib.LittleEndian Lib.Cursor Lib.Patch

/-- Words were stored at a position of the buffer, and the position is behind them. -/
structure StoredAt (c c' : Chunk) (pos : Nat) (words : List UInt32) : Prop where
  buffer : c'.buffer = overwrite c.buffer pos words
  place : c'.parserState.map ParserState.currentPos = some (pos + words.length)
  grows : c.dataSize ≤ c'.dataSize
  within : c'.dataSize ≤ max c.dataSize (pos + words.length)
  reaches : words ≠ [] → pos + words.length ≤ c'.dataSize

/-- The action stores so many words wherever there is room for them. -/
def StoresWords (count : Nat) (action : Run Chunk Unit) : Prop :=
  ∀ (c : Chunk) (pos : Nat), c.parserState.map ParserState.currentPos = some pos → pos + count ≤ c.dataCapacity →
    ∃ c' words, words.length = count ∧ action.run c = (.ok (),c') ∧ StoredAt c c' pos words

section Storing
variable {around : Surroundings} {c c' c'' : Chunk} {pos count count' : Nat} {words words' : List UInt32}
  {first second : Run Chunk Unit}

theorem StoredAt.trans (one : StoredAt c c' pos words) (two : StoredAt c' c'' (pos + words.length) words')
    (start : pos ≤ c.dataCapacity) : StoredAt c c'' pos (words ++ words') := by
  have length : (words ++ words').length = words.length + words'.length := List.length_append
  refine ⟨?_,?_,one.grows.trans two.grows,?_,fun some => ?_⟩
  · rw [two.buffer,one.buffer,overwrite_append _ _ _ _ (by rwa [length_buffer])]
  · rw [two.place,length,Nat.add_assoc]
  · have within := one.within
    have within' := two.within
    rw [length]
    omega
  · have grows := two.grows
    rw [length,← Nat.add_assoc]
    by_cases none : words' = []
    · subst none
      rw [List.append_nil] at some
      have reaches := one.reaches some
      rw [List.length_nil]
      omega
    · exact two.reaches none

theorem StoredAt.capacity (stored : StoredAt c c' pos words) (room : pos + words.length ≤ c.dataCapacity) :
    c'.dataCapacity = c.dataCapacity := by
  rw [← length_buffer,stored.buffer,length_overwrite _ _ _ (by rwa [length_buffer]),length_buffer]

/-- Every word before the size of the data is one of the buffer. -/
theorem getElem?_words (c : Chunk) (i : Nat) (inside : i < c.dataSize) : c.words[i]? = c.buffer[i]? := by
  rw [← take_buffer,List.getElem?_take_of_lt inside]

theorem buffer_setBuffer (c : Chunk) (buffer : List UInt32) (size : Nat) : (c.setBuffer buffer size).buffer = buffer := by
  rw [Chunk.buffer]
  exact List.take_append_drop size buffer

theorem buffer_replaceBuffer (c : Chunk) (buffer : List UInt32) (size : Nat) :
    (c.replaceBuffer buffer size).buffer = buffer := by
  rw [Chunk.buffer]
  exact List.take_append_drop size buffer

theorem dataSize_setBuffer (c : Chunk) (buffer : List UInt32) (size : Nat) :
    (c.setBuffer buffer size).dataSize = min size buffer.length := List.length_take

theorem dataSize_replaceBuffer (c : Chunk) (buffer : List UInt32) (size : Nat) :
    (c.replaceBuffer buffer size).dataSize = min size buffer.length := List.length_take

theorem storeWords_stored (words : List UInt32) (place : c.parserState.map ParserState.currentPos = some pos)
    (room : pos + words.length ≤ c.dataCapacity) :
    ∃ c', (storeWords words).run c = (.ok (),c') ∧ StoredAt c c' pos words := by
  obtain ⟨state,held,rfl⟩ := Option.map_eq_some_iff.mp place
  have length : (overwrite c.buffer state.currentPos words).length = c.dataCapacity := by
    rw [length_overwrite _ _ _ (by rwa [length_buffer]),length_buffer]
  let after := (c.setBuffer (overwrite c.buffer state.currentPos words)
    (max c.dataSize (state.currentPos + words.length))).setPos (state.currentPos + words.length)
  have size : after.dataSize = max c.dataSize (state.currentPos + words.length) := by
    refine (dataSize_setBuffer c _ _).trans ?_
    rw [length]
    have data : c.dataSize ≤ c.dataCapacity := Nat.le_add_right _ _
    omega
  refine ⟨after,by simp only [storeWords,held,if_pos room]; rfl,?_,?_,?_,?_,fun _ => ?_⟩
  · exact buffer_setBuffer c _ _
  · simp only [after,Chunk.setPos,Chunk.setBuffer,held,Option.map_some]
  · omega
  · omega
  · omega

/-- The bytes are packed in the words that they take. -/
theorem storeBytes_stored {source : List UInt8} {size : Nat} (enough : size ≤ source.length)
    (place : c.parserState.map ParserState.currentPos = some pos) (room : pos + (size + 3) / 4 ≤ c.dataCapacity) :
    ∃ c' words, Packs words (source.take size) ∧ words.length = (size + 3) / 4 ∧
      (storeBytes source size).run c = (.ok (),c') ∧ StoredAt c c' pos words := by
  obtain ⟨state,held,rfl⟩ := Option.map_eq_some_iff.mp place
  let old := slice c.buffer state.currentPos ((size + 3) / 4)
  have copied : (source.take size).length = size := by
    rw [List.length_take]
    omega
  have count : old.length = (size + 3) / 4 := length_slice _ _ _ (by rwa [length_buffer])
  have enough' : (source.take size).length ≤ 4 * old.length := by
    rw [copied,count]
    omega
  have length : (copiedOver old (source.take size)).length = (size + 3) / 4 := (length_copiedOver enough').trans count
  have packs := packs_copiedOver enough'
  rw [copied,List.take_of_length_le (Nat.le_of_eq length)] at packs
  have run : (storeBytes source size).run c = (storeWords (copiedOver old (source.take size))).run c := by
    simp only [storeBytes,if_neg (Nat.not_lt.mpr enough),held,Option.getD_some,if_neg (Nat.not_lt.mpr room)]
    rfl
  obtain ⟨c',ran,stored⟩ := storeWords_stored (copiedOver old (source.take size)) place (by rwa [length])
  exact ⟨c',_,packs,length,run.trans ran,stored⟩

theorem stores_words (words : List UInt32) : StoresWords words.length (storeWords words) := by
  intro c pos place room
  obtain ⟨c',run,stored⟩ := storeWords_stored words place room
  exact ⟨c',words,rfl,run,stored⟩

theorem stores_packed {source : List UInt8} {size : Nat} (enough : size ≤ source.length) :
    StoresWords ((size + 3) / 4) (storeBytes source size) := by
  intro c pos place room
  obtain ⟨c',words,_,length,run,stored⟩ := storeBytes_stored enough place room
  exact ⟨c',words,length,run,stored⟩

theorem words_congr {c c' : Chunk} (data : c'.data = c.data) : c'.words = c.words := by
  rw [Chunk.words,data,Chunk.words]

theorem buffer_congr {c c' : Chunk} (data : c'.data = c.data) (spare : c'.spare = c.spare) : c'.buffer = c.buffer := by
  rw [Chunk.buffer,words_congr data,spare,Chunk.buffer]

/-- A change of other fields than the buffer and the position. -/
theorem stores_update (f : Chunk → Chunk) (same : ∀ c, (f c).data = c.data ∧ (f c).spare = c.spare ∧
    (f c).parserState.map ParserState.currentPos = c.parserState.map ParserState.currentPos) :
    StoresWords 0 (Action.update f) := by
  intro c pos place _
  obtain ⟨data,spare,state⟩ := same c
  have size : (f c).dataSize = c.dataSize := congrArg List.length (words_congr data)
  refine ⟨f c,[],rfl,rfl,?_,?_,?_,?_,fun some => absurd rfl some⟩
  · rw [overwrite_nil]
    exact buffer_congr data spare
  · exact state.trans place
  · omega
  · omega

theorem stores_pure : StoresWords 0 (pure ()) := stores_update id fun _ => ⟨rfl,rfl,rfl⟩

theorem stores_bind (head : StoresWords count first) (tail : StoresWords count' second) :
    StoresWords (count + count') (first >>= fun _ => second) := by
  intro c pos place room
  obtain ⟨c₁,words,rfl,ran,stored⟩ := head c pos place (by omega)
  have capacity := stored.capacity (by omega)
  obtain ⟨c₂,words',rfl,more,others⟩ := tail c₁ _ stored.place (by omega)
  refine ⟨c₂,words ++ words',List.length_append,?_,stored.trans others (by omega)⟩
  rw [Action.bind_ok _ ran,more]

/-- Where the words are stored inside the data or right behind it, nothing else of the data changes. -/
theorem StoredAt.frame (stored : StoredAt c c' pos words) (start : pos ≤ c.dataSize) :
    c'.dataSize = max c.dataSize (pos + words.length) ∧
      ∀ i, i < pos ∨ pos + words.length ≤ i → c'.words[i]? = c.words[i]? := by
  have grows := stored.grows
  have within := stored.within
  have size : c'.dataSize = max c.dataSize (pos + words.length) := by
    by_cases none : words = []
    · subst none
      rw [List.length_nil] at within ⊢
      omega
    · have reaches := stored.reaches none
      omega
  have capacity : c.dataSize ≤ c.buffer.length := by
    rw [length_buffer]
    exact Nat.le_add_right _ _
  refine ⟨size,fun i outside => ?_⟩
  by_cases inside : i < c.dataSize
  · rw [getElem?_words c i inside,getElem?_words c' i (by omega),stored.buffer,
      getElem?_overwrite_from _ _ _ (by omega)]
    split
    · rfl
    · rw [if_neg (by omega)]
  · rw [List.getElem?_eq_none (Nat.not_lt.mp inside),List.getElem?_eq_none (by change c'.dataSize ≤ i; omega)]

end Storing

/-- Words were written at a position, whether or not the buffer grew, and what lay before them is there. -/
structure Put (c c' : Chunk) (pos : Nat) (words : List UInt32) : Prop where
  place : c'.parserState.map ParserState.currentPos = some (pos + words.length)
  written : ∀ i < words.length, c'.buffer[pos + i]? = words[i]?
  kept : ∀ i < pos, i < c.dataCapacity → c'.buffer[i]? = c.buffer[i]?
  grows : c.dataSize ≤ c'.dataSize
  reaches : words ≠ [] → pos + words.length ≤ c'.dataSize

/-- Where the action succeeds it has put words that satisfy the condition. -/
def Putting (shape : List UInt32 → Prop) (action : Run Chunk Unit) : Prop :=
  ∀ (c c' : Chunk) (pos : Nat), c.parserState.map ParserState.currentPos = some pos → action.run c = (.ok (),c') →
    ∃ words, shape words ∧ Put c c' pos words

section Putting
variable {around : Surroundings} {c c' c'' : Chunk} {pos : Nat} {words words' : List UInt32}
  {shape shape' : List UInt32 → Prop} {first second : Run Chunk Unit}

theorem put_nothing (place : c.parserState.map ParserState.currentPos = some pos) : Put c c pos [] :=
  ⟨place,nofun,fun _ _ _ => rfl,Nat.le_refl _,fun some => absurd rfl some⟩

theorem Put.trans (one : Put c c' pos words) (two : Put c' c'' (pos + words.length) words') :
    Put c c'' pos (words ++ words') := by
  have length : (words ++ words').length = words.length + words'.length := List.length_append
  refine ⟨?_,fun i within => ?_,fun i before inside => ?_,one.grows.trans two.grows,fun some => ?_⟩
  · rw [two.place,length,Nat.add_assoc]
  · by_cases early : i < words.length
    · have reached := one.reaches (List.ne_nil_of_length_pos (by omega))
      have capacity : c'.dataSize ≤ c'.dataCapacity := Nat.le_add_right _ _
      rw [two.kept _ (by omega) (by omega),one.written i early,List.getElem?_append_left early]
    · have behind := two.written (i - words.length) (by omega)
      rw [List.getElem?_append_right (by omega),← behind]
      congr 1
      omega
  · have same := one.kept i before inside
    have held : i < c'.dataCapacity := by
      rw [← length_buffer] at inside ⊢
      rw [List.getElem?_eq_getElem inside] at same
      exact (List.getElem?_eq_some_iff.mp same).1
    rw [two.kept i (by omega) held,same]
  · have grows := two.grows
    rw [length,← Nat.add_assoc]
    by_cases none : words' = []
    · subst none
      rw [List.append_nil] at some
      exact (one.reaches some).trans grows
    · exact two.reaches none

theorem StoredAt.put (stored : StoredAt c c' pos words) (room : pos + words.length ≤ c.dataCapacity) :
    Put c c' pos words := by
  have start : pos ≤ c.buffer.length := by
    rw [length_buffer]
    omega
  refine ⟨stored.place,fun i within => ?_,fun i before _ => ?_,stored.grows,stored.reaches⟩
  · rw [stored.buffer,getElem?_overwrite_from _ _ _ start,if_neg (by omega),if_pos (by omega)]
    congr 1
    omega
  · rw [stored.buffer,getElem?_overwrite_from _ _ _ start,if_pos before]

/-- The words that were put lie ahead of the position in the data. -/
theorem Put.ahead (put : Put c c' pos words) (some' : words ≠ []) :
    Ahead c'.words pos (words ++ c'.words.drop (pos + words.length)) := by
  have reached := put.reaches some'
  have slice_eq : slice c'.words pos words.length = words := by
    refine List.ext_getElem? fun i => ?_
    by_cases within : i < words.length
    · rw [slice,List.getElem?_take_of_lt within,List.getElem?_drop,getElem?_words c' _ (by omega),put.written i within]
    · rw [List.getElem?_eq_none (by rw [length_slice _ _ _ reached]; omega),List.getElem?_eq_none (Nat.not_lt.mp within)]
  have ahead := (slice_ahead reached).1
  rwa [slice_eq] at ahead

theorem putting_checkSize (needed : Nat) : Putting (· = []) (chunkCheckSize around needed) := by
  intro c c' pos place ran
  obtain ⟨state,held,rfl⟩ := Option.map_eq_some_iff.mp place
  refine ⟨[],rfl,?_⟩
  by_cases room : (state.currentPos + needed) % 2 ^ 64 ≤ c.dataCapacity
  · rw [checkSize_enough held room] at ran
    cases ran
    exact put_nothing place
  · by_cases reached : Doubles c.dataCapacity ((state.currentPos + needed) % 2 ^ 64)
    · obtain ⟨capacity,above,refused | ⟨_,_,behind⟩ | ⟨_,_,fresh,length,run⟩⟩ :=
        @checkSize_grown around _ _ _ held room reached
      · rw [refused] at ran
        cases ran
      · rw [behind] at ran
        cases ran
      · rw [run] at ran
        cases ran
        have data : c.dataSize ≤ c.dataCapacity := Nat.le_add_right _ _
        refine ⟨place,nofun,fun i before inside => ?_,?_,fun some => absurd rfl some⟩
        · rw [buffer_replaceBuffer,List.getElem?_append_left (by rw [List.length_take,length_buffer]; omega),
            List.getElem?_take_of_lt before]
        · rw [dataSize_replaceBuffer]
          omega
    · rw [checkSize_endless held room reached] at ran
      cases ran

theorem putting_words (words : List UInt32) : Putting (· = words) (storeWords words) := by
  intro c c' pos place ran
  refine ⟨words,rfl,?_⟩
  by_cases room : pos + words.length ≤ c.dataCapacity
  · obtain ⟨after,run,stored⟩ := storeWords_stored words place room
    rw [run] at ran
    cases ran
    exact stored.put room
  · obtain ⟨state,held,rfl⟩ := Option.map_eq_some_iff.mp place
    simp only [storeWords,held,if_neg room] at ran
    cases ran

theorem putting_bytes (source : List UInt8) : Putting (Packs · source) (storeBytes source source.length) := by
  intro c c' pos place ran
  by_cases room : pos + (source.length + 3) / 4 ≤ c.dataCapacity
  · obtain ⟨after,words,packs,length,run,stored⟩ := storeBytes_stored (Nat.le_refl source.length) place room
    rw [run] at ran
    cases ran
    rw [List.take_length] at packs
    exact ⟨words,packs,stored.put (by rwa [length])⟩
  · obtain ⟨state,held,rfl⟩ := Option.map_eq_some_iff.mp place
    simp only [storeBytes,if_neg (Nat.lt_irrefl _),held,Option.getD_some,if_pos (Nat.not_le.mp room)] at ran
    cases ran

theorem putting_bind {next : Unit → Run Chunk Unit} (head : Putting shape first) (tail : Putting shape' (next ())) :
    Putting (fun words => ∃ before after, words = before ++ after ∧ shape before ∧ shape' after) (first >>= next) := by
  intro c c' pos place ran
  obtain ⟨_,between,one,two⟩ := Action.bind_success ran
  obtain ⟨before,fits,put⟩ := head c between pos place one
  obtain ⟨after,fits',others⟩ := tail between c' _ put.place two
  exact ⟨before ++ after,⟨before,after,rfl,fits,fits'⟩,put.trans others⟩

theorem Putting.imp (puts : Putting shape first) (weaker : ∀ words, shape words → shape' words) :
    Putting shape' first := by
  intro c c' pos place ran
  obtain ⟨words,fits,put⟩ := puts c c' pos place ran
  exact ⟨words,weaker words fits,put⟩

theorem putting_writeWords (words : List UInt32) : Putting (· = words) (writeWords around words) := by
  refine (putting_bind (putting_checkSize _) (putting_words words)).imp ?_
  rintro _ ⟨_,_,rfl,rfl,rfl⟩
  rfl

/-- A length, and the bytes of the string behind it. -/
theorem putting_string (str : Option (List UInt8)) :
    Putting (fun words => ∃ packed, words = UInt32.ofNat ((str.map (· ++ [0])).getD []).length :: packed ∧
      Packs packed ((str.map (· ++ [0])).getD [])) (chunkWriteString around str) := by
  refine (putting_bind (putting_checkSize _) (putting_bind (putting_words _) (putting_bytes _))).imp ?_
  rintro _ ⟨_,_,rfl,rfl,_,packed,rfl,rfl,packs⟩
  cases str <;> exact ⟨packed,rfl,packs⟩

/-- The words of the values, one behind the other. -/
theorem putting_each {α : Type} {write : α → Run Chunk Unit} {shape : α → List UInt32 → Prop}
    (each : ∀ a, Putting (shape a) (write a)) (values : List α) :
    Putting (fun words => ∃ parts, words = parts.flatten ∧ List.Forall₂ shape values parts) (writeEach write values) := by
  induction values with
  | nil =>
    intro c c' pos place ran
    cases ran
    exact ⟨[],⟨[],rfl,.nil⟩,put_nothing place⟩
  | cons value rest ih =>
    refine (putting_bind (each value) ih).imp ?_
    rintro _ ⟨before,_,rfl,fits,parts,rfl,all⟩
    exact ⟨before :: parts,rfl,.cons fits all⟩

end Putting

/-- The writes that check once for the dwords that they store. -/
inductive PlacedWrite
  | byte (value : UInt8)
  | word (value : UInt16)
  | int (value : Int32)
  | dword (value : UInt32)
  | float (bits : UInt32)
  | guid (value : Guid)
  | string (str : Option (List UInt8))
  | buffer (source : List UInt8)
  | bufferNoSize (source : List UInt8)
  | objectId (id : UInt32)
  | managerInt (managerGuid : Guid) (value : UInt32)
  | identifier (id : UInt32)

namespace PlacedWrite

def perform (around : Surroundings) : PlacedWrite → Run Chunk Unit
  | byte value => chunkWriteByte around value
  | word value => chunkWriteWord around value
  | int value => chunkWriteInt around value
  | dword value => chunkWriteDword around value
  | float bits => chunkWriteFloat around bits
  | guid value => chunkWriteGuid around value
  | string str => chunkWriteString around str
  | buffer source => chunkWriteBuffer around (some source) source.length
  | bufferNoSize source => chunkWriteBufferNoSize around source source.length
  | objectId id => chunkWriteObjectId around id
  | managerInt managerGuid value => chunkWriteManagerInt around managerGuid value
  | identifier id => chunkWriteIdentifier around id

/-- The dwords that are written: a string with its length and its terminator. -/
def size : PlacedWrite → Nat
  | byte _ | word _ | int _ | dword _ | float _ | objectId _ | identifier _ => 1
  | guid _ => 2
  | managerInt _ _ => 3
  | string none => 1
  | string (some chars) => 1 + (chars.length + 1 + 3) / 4
  | buffer source => 1 + (source.length + 3) / 4
  | bufferNoSize source => (source.length + 3) / 4

end PlacedWrite

/-- The data are as long as before, or reach to the end of the write, and are the same outside of it;
a write that reports an error leaves them alone. -/
def WritesInPlace (c : Chunk) (pos count : Nat) (ended : Result Unit × Chunk) : Prop :=
  match ended.1 with
  | .ok () => ended.2.dataSize = max c.dataSize (pos + count) ∧
      ∀ i, i < pos ∨ pos + count ≤ i → ended.2.words[i]? = c.words[i]?
  | .error (.error _ _) => ended.2.words = c.words
  | .error _ => False

section Placing
variable {around : Surroundings} {c : Chunk} {pos count : Nat} {rest : Run Chunk Unit}

/-- Every write but that of no bytes checks for its dwords and then stores them. -/
theorem placedWrite_parts (around : Surroundings) (write : PlacedWrite) (some' : write ≠ .bufferNoSize []) :
    ∃ rest, StoresWords write.size rest ∧
      write.perform around = chunkCheckSize around write.size >>= fun _ => rest := by
  cases write with
  | byte | word | int | dword | float => exact ⟨_,stores_words [_],rfl⟩
  | guid value => exact ⟨_,stores_words [value.d1,value.d2],rfl⟩
  | string str =>
    cases str with
    | none =>
      refine ⟨_,?_,rfl⟩
      exact stores_bind (stores_words [_]) (stores_packed (Nat.le_refl ([] : List UInt8).length))
    | some chars =>
      have stores := stores_bind (stores_words [UInt32.ofNat (chars ++ [0]).length])
        (stores_packed (Nat.le_refl (chars ++ [0]).length))
      have length : (chars ++ [(0 : UInt8)]).length = chars.length + 1 := List.length_append
      rw [length] at stores
      refine ⟨_,show StoresWords (PlacedWrite.string (some chars)).size _ from stores,?_⟩
      rw [PlacedWrite.perform,PlacedWrite.size,chunkWriteString]
      simp only [length]
  | buffer source => exact ⟨_,stores_bind (stores_words [_]) (stores_packed (Nat.le_refl _)),rfl⟩
  | bufferNoSize source =>
    refine ⟨_,stores_packed (Nat.le_refl source.length),?_⟩
    have length : source.length ≠ 0 := fun zero => some' (by rw [List.length_eq_zero_iff.mp zero])
    rw [PlacedWrite.perform,chunkWriteBufferNoSize,if_neg length]
    rfl
  | objectId id =>
    refine ⟨_,stores_bind ?_ (stores_words [id]),rfl⟩
    split
    · exact stores_update _ fun _ => ⟨rfl,rfl,rfl⟩
    · exact stores_pure
  | managerInt managerGuid value =>
    refine ⟨_,?_,rfl⟩
    change StoresWords (0 + 3) _
    refine stores_bind ?_ (stores_words [managerGuid.d1,managerGuid.d2,value])
    exact stores_update _ fun _ => ⟨rfl,rfl,rfl⟩
  | identifier id =>
    refine ⟨_,?_,Action.bind_assoc _ _ _⟩
    change StoresWords (1 + 0) _
    refine stores_bind (stores_words [id]) ?_
    exact stores_update _ fun c => ⟨rfl,rfl,Option.map_map _ _ _⟩

/-- After the growth the words before the position are there, and there are no words behind the write. -/
theorem grown_writes (place : c.parserState.map ParserState.currentPos = some pos) (start : pos ≤ c.dataSize)
    (beyond : c.dataCapacity < pos + count) (stores : StoresWords count rest) {fresh : List UInt32}
    (enough : pos + count ≤ (c.buffer.take pos ++ fresh).length) :
    WritesInPlace c pos count (rest.run (c.replaceBuffer (c.buffer.take pos ++ fresh) c.dataSize)) := by
  have data : c.dataSize ≤ c.dataCapacity := Nat.le_add_right _ _
  have size : (c.replaceBuffer (c.buffer.take pos ++ fresh) c.dataSize).dataSize = c.dataSize := by
    rw [dataSize_replaceBuffer]
    omega
  have room : pos + count ≤ (c.replaceBuffer (c.buffer.take pos ++ fresh) c.dataSize).dataCapacity := by
    rwa [dataCapacity_replaceBuffer]
  obtain ⟨c',words,rfl,run,stored⟩ := stores (c.replaceBuffer (c.buffer.take pos ++ fresh) c.dataSize) pos place room
  obtain ⟨whole,outside⟩ := stored.frame (by rwa [size])
  rw [size] at whole
  rw [run]
  refine ⟨whole,fun i apart => ?_⟩
  rw [outside i apart]
  rcases apart with before | behind
  · rw [getElem?_words _ i (by rw [size]; omega),getElem?_words c i (by omega),buffer_replaceBuffer,
      List.getElem?_append_left (by rw [List.length_take,length_buffer]; omega),List.getElem?_take_of_lt before]
  · rw [List.getElem?_eq_none (by rw [← Chunk.dataSize,size]; omega),List.getElem?_eq_none (by change c.dataSize ≤ i; omega)]

theorem checked_writes {state : ParserState} (held : c.parserState = some state) (start : state.currentPos ≤ c.dataSize)
    (small : state.currentPos + count < 2 ^ 64) (stores : StoresWords count rest) :
    WritesInPlace c state.currentPos count ((chunkCheckSize around count >>= fun _ => rest).run c) ↔
      state.currentPos + count ≤ c.dataCapacity ∨ Doubles c.dataCapacity (state.currentPos + count) := by
  have place : c.parserState.map ParserState.currentPos = some state.currentPos := by rw [held]; rfl
  have sum : (state.currentPos + count) % 2 ^ 64 = state.currentPos + count := Nat.mod_eq_of_lt small
  have data : c.dataSize ≤ c.dataCapacity := Nat.le_add_right _ _
  by_cases room : state.currentPos + count ≤ c.dataCapacity
  · refine iff_of_true ?_ (.inl room)
    rw [Action.bind_ok _ (checkSize_enough held (by rwa [sum]))]
    obtain ⟨c',words,rfl,run,stored⟩ := stores c _ place room
    rw [run]
    exact stored.frame start
  · rw [or_iff_right room]
    by_cases reached : Doubles c.dataCapacity (state.currentPos + count)
    · refine iff_of_true ?_ reached
      obtain ⟨capacity,above,refused | ⟨past,_⟩ | ⟨_,_,fresh,length,run⟩⟩ :=
        @checkSize_grown around count _ _ held (by rwa [sum]) (by rwa [sum])
      · rw [Action.bind_error _ refused]
        exact rfl
      · omega
      · rw [Action.bind_ok _ run]
        exact grown_writes place start (Nat.not_le.mp room) stores (by omega)
    · refine iff_of_false ?_ reached
      rw [Action.bind_error _ (checkSize_endless held (by rwa [sum]) (by rwa [sum]))]
      exact id

theorem goto_run (within : pos ≤ c.dataSize) (started : c.parserState.isSome) :
    (chunkGoto pos).run c = (.ok (),c.setPos pos) := by
  have some' : ¬ c.parserState.isNone := by
    rw [Option.isNone_iff_eq_none]
    exact Option.isSome_iff_ne_none.mp started
  simp only [chunkGoto,if_neg (Nat.not_lt.mpr within),if_neg some']

/-- A read that goes back to the place of a write comes to its end exactly when it ends where the write did. -/
theorem onPosition_back {α : Type} {c' : Chunk} {words : List UInt32} {action : List UInt32 → List UInt32 → Run Nat α}
    {value : α} (put : Put c c' pos words) (some' : words ≠ []) :
    (chunkGoto pos >>= fun _ => onPosition action).run c' = (.ok value,c') ↔
      (action c'.words c'.spare).run pos = (.ok value,pos + words.length) := by
  obtain ⟨state,held,place⟩ := Option.map_eq_some_iff.mp put.place
  have within : pos ≤ c'.dataSize := Nat.le_of_add_right_le (put.reaches some')
  have started : c'.parserState.isSome := by rw [held]; rfl
  have moved : (c'.setPos pos).parserState = some { state with currentPos := pos } := by
    rw [Chunk.setPos,held]
    rfl
  rw [Action.bind_ok _ (goto_run within started)]
  have back (next : Nat) : (c'.setPos pos).setPos next = c' ↔ next = pos + words.length := by
    constructor
    · intro same
      have placed := congrArg (fun c : Chunk => c.parserState.map ParserState.currentPos) same
      simp only [Chunk.setPos,held,Option.map_some,Option.some.injEq] at placed
      rw [placed,place]
    · rintro rfl
      rw [← place]
      cases c'
      cases held
      rfl
  cases ran : (action c'.words c'.spare).run pos with
  | mk outcome next =>
    have there : (action (c'.setPos pos).words (c'.setPos pos).spare).run pos = (outcome,next) := ran
    simp only [onPosition,moved,there,Prod.mk.injEq,back]

end Placing

/-- After a `goto`, a write changes nothing but its own dwords and makes the data reach to their end, exactly
when there is room for them or some doubling of the capacity gives it. -/
theorem goto_write_iff (around : Surroundings) (c : Chunk) (pos : Nat) (write : PlacedWrite)
    (small : pos + write.size < 2 ^ 64) :
    WritesInPlace c pos write.size ((chunkGoto pos >>= fun _ => write.perform around).run c) ↔
      (pos ≤ c.dataSize → c.parserState.isSome →
        pos + write.size ≤ c.dataCapacity ∨ Doubles c.dataCapacity (pos + write.size)) := by
  by_cases within : pos ≤ c.dataSize
  · by_cases started : c.parserState.isSome
    · rw [Action.bind_ok _ (goto_run within started),imp_iff_right within,imp_iff_right started]
      obtain ⟨state,held⟩ := Option.isSome_iff_exists.mp started
      have moved : (c.setPos pos).parserState = some { state with currentPos := pos } := by
        rw [Chunk.setPos,held]
        rfl
      by_cases none : write = .bufferNoSize []
      · subst none
        refine iff_of_true ⟨?_,fun i _ => rfl⟩ (.inl ?_)
        · exact (Nat.max_eq_left within).symm
        · exact Nat.le_add_right_of_le within
      · obtain ⟨rest,stores,parts⟩ := placedWrite_parts around write none
        rw [parts]
        exact checked_writes (c := c.setPos pos) moved within small stores
    · refine iff_of_true ?_ fun _ some' => absurd some' started
      have none : c.parserState.isNone := Option.isNone_iff_eq_none.mpr (Option.not_isSome_iff_eq_none.mp started)
      have refused : (chunkGoto pos).run c = (.error (.error .invalidState "No parser state"),c) := by
        simp only [chunkGoto,if_neg (Nat.not_lt.mpr within),if_pos none]
      rw [Action.bind_error _ refused]
      exact rfl
  · refine iff_of_true ?_ fun inside => absurd inside within
    have refused : (chunkGoto pos).run c = (.error (.error .outOfBounds "Position beyond data size"),c) := by
      simp only [chunkGoto,if_pos (Nat.not_le.mp within)]
    rw [Action.bind_error _ refused]
    exact rfl

theorem goto_write_fresh :
    WritesInPlace { chunkCreate with data := some [1,2], parserState := some {} } 1 1
        ((chunkGoto 1 >>= fun _ => (PlacedWrite.dword 7).perform {}).run
          { chunkCreate with data := some [1,2], parserState := some {} }) ↔
      (1 ≤ 2 → true → 1 + 1 ≤ 2 ∨ Doubles 2 (1 + 1)) :=
  goto_write_iff {} _ 1 (.dword 7) (by decide)

/-- The write of a dword to a new chunk that was started for reading does not end. -/
theorem goto_write_endless :
    ((chunkGoto 0 >>= fun _ => (PlacedWrite.dword 7).perform {}).run (chunkStartRead.run chunkCreate).2).1 =
        .error .endless ∧
      ¬ WritesInPlace (chunkStartRead.run chunkCreate).2 0 1
        ((chunkGoto 0 >>= fun _ => (PlacedWrite.dword 7).perform {}).run (chunkStartRead.run chunkCreate).2) :=
  ⟨rfl,id⟩

end Libnmo.Format
