import Libnmo.Format.ChunkFilling

/-! Writes that cannot fail. The buffer of a chunk that is filled from its start grows
by doubling, and below 2^60 words there is always a larger one to be had. -/
namespace Libnmo.Format
open Core Lib Lib.LittleEndian Lib.Cursor Lib.Patch

/-- A chunk that is filled from its start, in a buffer that can still be doubled. -/
structure Roomy (c : Chunk) : Prop where
  filling : Filling c
  positive : 0 < c.dataCapacity
  small : c.dataCapacity ≤ 2 ^ 61

/-- The action appends the words whenever they bring the data to less than 2^60 words. -/
def Writes (words : List UInt32) (action : Run Chunk Unit) : Prop :=
  ∀ c, Roomy c → c.dataSize + words.length < 2 ^ 60 →
    ∃ c', action.run c = (.ok (),c') ∧ Fills c c' words ∧ Roomy c'

theorem growCapacity_run (rounds : Nat) {capacity required : Nat} (positive : 0 < capacity)
    (enough : required ≤ capacity * 2 ^ rounds) (small : required < 2 ^ 61) :
    ∃ grown, growCapacity (rounds + 1) capacity required = some grown ∧ required ≤ grown ∧
      grown ≤ max capacity (2 * required) := by
  induction rounds generalizing capacity with
  | zero =>
    rw [Nat.pow_zero,Nat.mul_one] at enough
    exact ⟨capacity,if_pos enough,enough,Nat.le_max_left ..⟩
  | succ rounds ih =>
    by_cases fits : required ≤ capacity
    · exact ⟨capacity,if_pos fits,fits,Nat.le_max_left ..⟩
    · have doubled : capacity * 2 % 2 ^ 64 = capacity * 2 := Nat.mod_eq_of_lt (by omega)
      have reached : required ≤ capacity * 2 * 2 ^ rounds := by
        rwa [Nat.mul_assoc,← Nat.pow_succ']
      obtain ⟨grown,run,above,below⟩ := ih (by omega) reached
      refine ⟨grown,?_,above,by omega⟩
      rw [growCapacity,if_neg fits,doubled]
      exact run

section Storing
variable {c : Chunk}

theorem dataCapacity_setBuffer (c : Chunk) (buffer : List UInt32) (size : Nat) :
    (c.setBuffer buffer size).dataCapacity = buffer.length := by
  simp only [Chunk.setBuffer,Chunk.dataCapacity,Chunk.dataSize,Chunk.words,Option.getD_some,List.length_take,
    List.length_drop]
  omega

theorem dataCapacity_replaceBuffer (c : Chunk) (buffer : List UInt32) (size : Nat) :
    (c.replaceBuffer buffer size).dataCapacity = buffer.length := by
  simp only [Chunk.replaceBuffer,Chunk.dataCapacity,Chunk.dataSize,Chunk.words,Option.getD_some,List.length_take,
    List.length_drop]
  omega

theorem length_buffer (c : Chunk) : c.buffer.length = c.dataCapacity := List.length_append

theorem Roomy.of_fills {c c' : Chunk} {words : List UInt32} (roomy : Roomy c) (fills : Fills c c' words)
    (same : c'.dataCapacity = c.dataCapacity) : Roomy c' := by
  refine ⟨fills.filling,?_,?_⟩
  · rw [same]
    exact roomy.positive
  · rw [same]
    exact roomy.small

/-- The check finds or makes the room for the words. -/
theorem checkSize_room (around : Surroundings) (neededDwords : Nat) (roomy : Roomy c) (few : c.dataSize + neededDwords < 2 ^ 60) :
    ∃ c', (chunkCheckSize around neededDwords).run c = (.ok (),c') ∧ Fills c c' [] ∧ Roomy c' ∧
      c'.dataSize + neededDwords ≤ c'.dataCapacity := by
  obtain ⟨state,found,pos⟩ := roomy.filling.state
  have positive := roomy.positive
  have small := roomy.small
  have required : (state.currentPos + neededDwords) % 2 ^ 64 = c.dataSize + neededDwords := by
    rw [pos]
    exact Nat.mod_eq_of_lt (by omega)
  by_cases fits : c.dataSize + neededDwords ≤ c.dataCapacity
  · refine ⟨c,?_,roomy.filling.fills,roomy,fits⟩
    simp only [chunkCheckSize,found,required,if_pos fits]
  · have doubled : c.dataCapacity * 2 % 2 ^ 64 = c.dataCapacity * 2 := Nat.mod_eq_of_lt (by omega)
    have reached : c.dataSize + neededDwords ≤ c.dataCapacity * 2 * 2 ^ 65 := by omega
    obtain ⟨capacity,grown,above,below⟩ := growCapacity_run 65 (by omega : 0 < c.dataCapacity * 2) reached (by omega)
    have inside : ¬ (c.dataCapacity < state.currentPos ∧ c.data.isSome) := by
      rw [pos,Chunk.dataCapacity]
      omega
    let kept := c.buffer.take state.currentPos
    let fresh := (List.range' kept.length (capacity - kept.length)).map around.memory
    have run : (chunkCheckSize around neededDwords).run c = (.ok (),c.replaceBuffer (kept ++ fresh) c.dataSize) := by
      simp only [chunkCheckSize,found,required,if_neg fits,doubled,grown,if_neg (show ¬ 2 ^ 62 ≤ capacity by omega),
        if_neg inside]
      rfl
    have size : kept.length = c.dataSize := by
      rw [show kept = c.words by rw [← take_buffer,← pos]]
      rfl
    have length : (c.replaceBuffer (kept ++ fresh) c.dataSize).dataCapacity = capacity := by
      rw [dataCapacity_replaceBuffer,List.length_append,List.length_map,List.length_range',size]
      omega
    have fills := checkSize_success roomy.filling run
    have same : (c.replaceBuffer (kept ++ fresh) c.dataSize).dataSize = c.dataSize := by
      rw [Chunk.dataSize,fills.words,List.append_nil]
      rfl
    refine ⟨_,run,fills,⟨fills.filling,?_,?_⟩,?_⟩
    · omega
    · omega
    · omega

theorem storeWords_room (words : List UInt32) (roomy : Roomy c) (room : c.dataSize + words.length ≤ c.dataCapacity) :
    ∃ c', (storeWords words).run c = (.ok (),c') ∧ Fills c c' words ∧ Roomy c' ∧ c'.dataCapacity = c.dataCapacity := by
  obtain ⟨state,found,pos⟩ := roomy.filling.state
  have run : (storeWords words).run c = (.ok (),(c.setBuffer (overwrite c.buffer c.dataSize words)
      (max c.dataSize (c.dataSize + words.length))).setPos (c.dataSize + words.length)) := by
    simp only [storeWords,found,pos,if_pos room]
  have fills := storeWords_success roomy.filling run
  have capacity : ((c.setBuffer (overwrite c.buffer c.dataSize words)
      (max c.dataSize (c.dataSize + words.length))).setPos (c.dataSize + words.length)).dataCapacity = c.dataCapacity := by
    refine (dataCapacity_setBuffer c ..).trans ?_
    rw [length_overwrite _ _ _ (by rwa [length_buffer]),length_buffer]
  exact ⟨_,run,fills,roomy.of_fills fills capacity,capacity⟩

/-- Bytes that were checked for, in as many words as they take. -/
theorem storeBytes_room (source : List UInt8) (roomy : Roomy c)
    (room : c.dataSize + (source.length + 3) / 4 ≤ c.dataCapacity) :
    ∃ c' words, (storeBytes source source.length).run c = (.ok (),c') ∧ Fills c c' words ∧
      words.length = (source.length + 3) / 4 ∧ Roomy c' := by
  obtain ⟨state,found,pos⟩ := roomy.filling.state
  let old := slice c.buffer c.dataSize ((source.length + 3) / 4)
  let stored := decodeWords (overwrite (encodeWords old) 0 (source.take source.length))
  have size : old.length = (source.length + 3) / 4 := by
    refine length_slice _ _ _ ?_
    rw [length_buffer]
    exact room
  have enough : (source.take source.length).length ≤ 4 * old.length := by
    rw [List.take_length,size]
    omega
  have length : stored.length = (source.length + 3) / 4 := (length_copiedOver enough).trans size
  have run : (storeBytes source source.length).run c = (storeWords stored).run c := by
    simp only [storeBytes,if_neg (Nat.lt_irrefl _),found,Option.getD_some,pos,if_neg (Nat.not_lt.mpr room)]
    rfl
  obtain ⟨c',ran,fills,roomy',_⟩ := storeWords_room stored roomy (by rw [length]; exact room)
  exact ⟨c',stored,run.trans ran,fills,length,roomy'⟩

theorem startWrite_roomy (around : Surroundings) :
    ∃ c, (chunkStartWrite around).run chunkCreate = (.ok (),c) ∧ Roomy c ∧ c.words = [] := by
  let fresh := { chunkCreate with
    parserState := some {}, data := some [], spare := (List.range 64).map around.memory }
  have run : (chunkStartWrite around).run chunkCreate = (.ok (),fresh) := rfl
  have capacity : fresh.dataCapacity = 64 := by
    rw [Chunk.dataCapacity,List.length_map,List.length_range]
    rfl
  obtain ⟨filling,empty⟩ := startWrite_success run
  exact ⟨fresh,run,⟨filling,by omega,by omega⟩,empty⟩

end Storing

theorem Fills.dataSize {c c' : Chunk} {words : List UInt32} (fills : Fills c c' words) :
    c'.dataSize = c.dataSize + words.length := by
  rw [Chunk.dataSize,fills.words,List.length_append]
  rfl

section Calls
variable {around : Surroundings} {words words' : List UInt32} {first second : Run Chunk Unit}

theorem writes_pure : Writes [] (pure ()) := fun c roomy _ => ⟨c,rfl,roomy.filling.fills,roomy⟩

theorem writes_bind (head : Writes words first) (tail : Writes words' second) :
    Writes (words ++ words') (first >>= fun _ => second) := by
  intro c roomy few
  rw [List.length_append] at few
  obtain ⟨c₁,ran,fills,roomy₁⟩ := head c roomy (by omega)
  have size := fills.dataSize
  obtain ⟨c₂,more,others,roomy₂⟩ := tail c₁ roomy₁ (by omega)
  refine ⟨c₂,?_,fills.trans others,roomy₂⟩
  rw [Action.bind_ok _ ran]
  exact more

/-- A change that leaves the data and the position alone. -/
theorem writes_update (change : Chunk → Chunk) (data : ∀ c, (change c).words = c.words)
    (spare : ∀ c, (change c).spare = c.spare)
    (pos : ∀ c, (change c).parserState.map ParserState.currentPos = c.parserState.map ParserState.currentPos) :
    Writes [] (Action.update change) := by
  intro c roomy _
  have size : (change c).dataSize = c.dataSize := congrArg List.length (data c)
  have fills : Fills c (change c) [] := by
    refine ⟨by rw [data,List.append_nil],?_⟩
    rw [Filling,pos,size]
    exact roomy.filling
  refine ⟨_,rfl,fills,roomy.of_fills fills ?_⟩
  rw [Chunk.dataCapacity,size,spare]
  rfl

theorem writes_writeWords (words : List UInt32) : Writes words (writeWords around words) := by
  intro c roomy few
  obtain ⟨c₁,ran,fills,roomy₁,room⟩ := checkSize_room around words.length roomy few
  obtain ⟨c₂,more,others,roomy₂,_⟩ := storeWords_room words roomy₁ room
  refine ⟨c₂,?_,fills.trans others,roomy₂⟩
  rw [writeWords,Action.bind_ok _ ran]
  exact more

theorem writes_identifier (identifier : UInt32) : Writes [identifier] (chunkWriteIdentifier around identifier) := by
  have written : Writes ([identifier] ++ []) (chunkWriteIdentifier around identifier) :=
    writes_bind (writes_writeWords [identifier])
      (writes_update _ (fun _ => rfl) (fun _ => rfl) (fun c => by rw [Option.map_map]; rfl))
  rwa [List.append_nil] at written

theorem writes_setOption (option : UInt32) : Writes [] (setOption option) :=
  writes_update _ (fun _ => rfl) (fun _ => rfl) (fun _ => rfl)

theorem writes_objectId (id : UInt32) : Writes [id] (chunkWriteObjectId around id) := by
  intro c roomy few
  obtain ⟨c₁,ran,fills,roomy₁,room⟩ := checkSize_room around 1 roomy few
  have noted : ∃ c₂, (if id ≠ 0 then recordObjectId else pure ()).run c₁ = (.ok (),c₂) ∧ Fills c₁ c₂ [] ∧
      c₂.dataSize = c₁.dataSize ∧ c₂.dataCapacity = c₁.dataCapacity := by
    by_cases named : id ≠ 0
    · rw [if_pos named]
      exact ⟨_,rfl,fills_of_same fills.filling rfl rfl,rfl,rfl⟩
    · rw [if_neg named]
      exact ⟨c₁,rfl,fills.filling.fills,rfl,rfl⟩
  obtain ⟨c₂,recorded,same,size,capacity⟩ := noted
  have inside : c₂.dataSize + [id].length ≤ c₂.dataCapacity := by
    rw [size,capacity]
    exact room
  obtain ⟨c₃,more,others,roomy₃,_⟩ := storeWords_room [id] (roomy₁.of_fills same capacity) inside
  refine ⟨c₃,?_,(fills.trans same).trans others,roomy₃⟩
  rw [chunkWriteObjectId,Action.bind_ok _ ran,Action.bind_ok _ recorded]
  exact more

theorem writes_managerSequence (managerGuid : Guid) (count : Nat) :
    Writes [UInt32.ofNat count,managerGuid.d1,managerGuid.d2] (chunkStartManagerSequence around managerGuid count) :=
  writes_bind (writes_setOption _) (writes_bind (writes_writeWords [_]) (writes_writeWords _))

theorem writes_each {α : Type} {write : α → Run Chunk Unit} {word : α → UInt32}
    (each : ∀ a, Writes [word a] (write a)) (values : List α) : Writes (values.map word) (writeEach write values) := by
  induction values with
  | nil => exact writes_pure
  | cons value rest ih => exact writes_bind (each value) ih

end Calls

/-- The action appends no more than so many words, whatever the memory had where it stores bytes. -/
def WritesUpTo (bound : Nat) (action : Run Chunk Unit) : Prop :=
  ∀ c, Roomy c → c.dataSize + bound < 2 ^ 60 →
    ∃ c' words, action.run c = (.ok (),c') ∧ Fills c c' words ∧ words.length ≤ bound ∧ Roomy c'

section Growing
variable {around : Surroundings} {bound bound' : Nat} {first second : Run Chunk Unit}

theorem Writes.upTo {words : List UInt32} (writes : Writes words first) : WritesUpTo words.length first := by
  intro c roomy few
  obtain ⟨c',ran,fills,roomy'⟩ := writes c roomy few
  exact ⟨c',words,ran,fills,Nat.le_refl _,roomy'⟩

theorem WritesUpTo.mono (within : WritesUpTo bound first) (le : bound ≤ bound') : WritesUpTo bound' first := by
  intro c roomy few
  obtain ⟨c',words,ran,fills,length,roomy'⟩ := within c roomy (Nat.lt_of_le_of_lt (Nat.add_le_add_left le _) few)
  exact ⟨c',words,ran,fills,length.trans le,roomy'⟩

theorem upTo_bind (head : WritesUpTo bound first) (tail : WritesUpTo bound' second) :
    WritesUpTo (bound + bound') (first >>= fun _ => second) := by
  intro c roomy few
  obtain ⟨c₁,words,ran,fills,length,roomy₁⟩ := head c roomy (by omega)
  have size := fills.dataSize
  obtain ⟨c₂,words',more,fills',length',roomy₂⟩ := tail c₁ roomy₁ (by omega)
  refine ⟨c₂,words ++ words',?_,fills.trans fills',?_,roomy₂⟩
  · rw [Action.bind_ok _ ran]
    exact more
  · rw [List.length_append]
    exact Nat.add_le_add length length'

theorem upTo_buffer (source : List UInt8) :
    WritesUpTo (1 + (source.length + 3) / 4) (chunkWriteBuffer around (some source) source.length) := by
  intro c roomy few
  obtain ⟨c₁,checked,fills,roomy₁,room⟩ := checkSize_room around (1 + (source.length + 3) / 4) roomy few
  obtain ⟨c₂,counted,count,roomy₂,capacity⟩ := storeWords_room [UInt32.ofNat source.length] roomy₁
    (by rw [List.length_singleton]; omega)
  have size := count.dataSize
  rw [List.length_singleton] at size
  obtain ⟨c₃,words,stored,bytes,length,roomy₃⟩ := storeBytes_room source roomy₂ (by omega)
  refine ⟨c₃,_,?_,(fills.trans count).trans bytes,?_,roomy₃⟩
  · rw [chunkWriteBuffer,Action.bind_ok _ checked,Action.bind_ok _ counted]
    exact stored
  · rw [List.length_append,length]
    exact Nat.le_refl _

end Growing

end Libnmo.Format
