import Libnmo.Format.WriterWrites

/-! What the typed writes leave behind the data, while a writer is at work without a
file context. A byte string too large for the rounding of its size is copied over the
end of the room that was made for it, and the call does not come back. -/
namespace Libnmo.Format
open Core Lib Lib.LittleEndian Lib.Cursor

section Writing
variable (around : Surroundings) {w : ChunkWriter}

/-- A writer in the midst of its work: no file context, and room for less than one more growth. -/
structure Writing (w : ChunkWriter) : Prop where
  fresh : w.finalized = false
  plain : w.runtimeToFile = none
  started : w.chunk.isSome
  room : w.spare.length < 500

/-- Words were appended that are no identifier, and the writer goes on. -/
structure Appended (w w' : ChunkWriter) (words : List UInt32) : Prop where
  data : w'.data = w.data ++ words
  identifier : w'.prevIdentifierPos = w.prevIdentifierPos
  writing : Writing w'

theorem Writing.appended (writing : Writing w) : Appended w w [] := ⟨by rw [List.append_nil],rfl,writing⟩

theorem Appended.trans {w w' w'' : ChunkWriter} {words words' : List UInt32} (first : Appended w w' words)
    (second : Appended w' w'' words') : Appended w w'' (words ++ words') :=
  ⟨by rw [second.data,first.data,List.append_assoc],second.identifier.trans first.identifier,second.writing⟩

theorem ensureDataCapacity_tight (room : w.spare.length < 500) (needed : Nat) :
    ∃ spare, (ensureDataCapacity around needed).run w = (.ok (),{ w with spare := spare }) ∧
      needed ≤ spare.length ∧ spare.length < needed + 500 := by
  simp only [ensureDataCapacity,Action.update_apply]
  split
  · exact ⟨w.spare,rfl,by assumption,by omega⟩
  · refine ⟨_,rfl,?_⟩
    rw [List.length_map,List.length_range']
    omega

theorem appended_words {spare : List UInt32} (words : List UInt32) (writing : Writing w)
    (room : words.length ≤ spare.length) (tight : spare.length < words.length + 500) :
    Appended w { w with data := w.data ++ words, spare := spare.drop words.length } words := by
  refine ⟨rfl,rfl,writing.fresh,writing.plain,writing.started,?_⟩
  simp only [List.length_drop]
  omega

theorem prepared_appended {option : UInt32} {spare words ids managers refs : List UInt32} {subs : List Chunk}
    (writing : Writing w) (room : words.length ≤ spare.length) (tight : spare.length < words.length + 500) :
    Appended w { prepared w option spare with
      data := w.data ++ words, spare := spare.drop words.length, idList := ids
      managerList := managers, chunkRefList := refs, chunkList := subs } words := by
  refine ⟨rfl,rfl,writing.fresh,writing.plain,?_,?_⟩
  · simp only [prepared,ChunkWriter.withOptions,Option.isSome_map]
    exact writing.started
  · simp only [List.length_drop]
    omega

theorem put_appended (words : List UInt32) (writing : Writing w) :
    ∃ w', (writerPut around words).run w = (.ok (),w') ∧ Appended w w' words := by
  obtain ⟨spare,grown,room,tight⟩ := ensureDataCapacity_tight around writing.room words.length
  refine ⟨_,?_,appended_words words writing room tight⟩
  rw [writerPut,Action.bind_ok _ (requireOpen_run writing.fresh),Action.bind_ok _ grown]
  exact appendWords_run (w := { w with spare := spare }) room

theorem objectId_appended (id : UInt32) (writing : Writing w) :
    ∃ w', (writerWriteObjectId around id).run w = (.ok (),w') ∧ Appended w w' [id] := by
  obtain ⟨spare,grown,room,tight⟩ := ensureDataCapacity_tight around writing.room 1
  exact ⟨_,writerWriteObjectId_after _ id writing.fresh writing.plain grown room,prepared_appended writing room tight⟩

theorem ensure_prepared_tight (option : UInt32) (needed : Nat) (tight : w.spare.length < 500) :
    ∃ spare, (ensureDataCapacity around needed).run (w.withOptions (· ||| option)) = (.ok (),prepared w option spare) ∧
      needed ≤ spare.length ∧ spare.length < needed + 500 :=
  ensureDataCapacity_tight _ (w := w.withOptions (· ||| option)) tight needed

theorem managerInt_appended (manager : Guid) (value : Int32) (writing : Writing w) :
    ∃ w', (writerWriteManagerInt around manager value).run w = (.ok (),w') ∧
      Appended w w' [manager.d1,manager.d2,value.toUInt32] := by
  obtain ⟨spare,grown,room,tight⟩ := ensure_prepared_tight around optionMan 3 writing.room
  exact ⟨_,writerWriteManagerInt_after _ manager value writing.fresh grown room,prepared_appended writing room tight⟩

theorem startObjectSequence_appended (count : Nat) (writing : Writing w) :
    ∃ w', (writerStartObjectSequence around count).run w = (.ok (),w') ∧ Appended w w' [UInt32.ofNat count] := by
  obtain ⟨spare,grown,room,tight⟩ := ensure_prepared_tight around optionIds 1 writing.room
  exact ⟨_,writerStartObjectSequence_after _ count writing.fresh writing.plain grown room,
    prepared_appended writing room tight⟩

theorem startManagerSequence_appended (manager : Guid) (count : Nat) (writing : Writing w) :
    ∃ w', (writerStartManagerSequence around manager count).run w = (.ok (),w') ∧
      Appended w w' [UInt32.ofNat count,manager.d1,manager.d2] := by
  obtain ⟨spare,grown,room,tight⟩ := ensure_prepared_tight around optionMan 3 writing.room
  have run : (writerStartManagerSequence around manager count).run w = (.ok (),{ prepared w optionMan spare with
      data := w.data ++ [UInt32.ofNat count,manager.d1,manager.d2], spare := spare.drop 3, idList := w.idList
      managerList := w.managerList ++ [listSequenceMarker,UInt32.ofNat w.data.length]
      chunkRefList := w.chunkRefList, chunkList := w.chunkList }) := by
    rw [writerStartManagerSequence,Action.bind_ok _ (requireOpen_run writing.fresh),
      Action.bind_ok (t := w.withOptions (· ||| optionMan)) (a := ()) _ rfl,Action.bind_ok _ grown,
      Action.bind_ok _ (Action.update_apply _ _),appendWords_run (by exact room)]
    rfl
  exact ⟨_,run,prepared_appended writing room tight⟩

theorem startSubchunkSequence_appended (count : Nat) (writing : Writing w) :
    ∃ w', (writerStartSubchunkSequence around count).run w = (.ok (),w') ∧ Appended w w' [UInt32.ofNat count] := by
  obtain ⟨spare,grown,room,tight⟩ := ensure_prepared_tight around optionChn 1 writing.room
  have run : (writerStartSubchunkSequence around count).run w = (.ok (),{ prepared w optionChn spare with
      data := w.data ++ [UInt32.ofNat count], spare := spare.drop 1, idList := w.idList, managerList := w.managerList
      chunkRefList := w.chunkRefList ++ [listSequenceMarker,UInt32.ofNat (w.data.length - 1)]
      chunkList := w.chunkList }) := by
    rw [writerStartSubchunkSequence,Action.bind_ok _ (requireOpen_run writing.fresh),
      Action.bind_ok (t := w.withOptions (· ||| optionChn)) (a := ()) _ rfl,Action.bind_ok _ grown,
      Action.bind_ok _ (Action.update_apply _ _),appendWords_run (by exact room)]
    rfl
  exact ⟨_,run,prepared_appended writing room tight⟩

theorem subchunk_appended (sub : Chunk) (writing : Writing w) :
    ∃ w', (writerWriteSubchunk around (some sub)).run w = (.ok (),w') ∧
      Appended w w' (UInt32.ofNat (subchunkPayload sub).length :: subchunkPayload sub) := by
  obtain ⟨spare,grown,room,tight⟩ := ensure_prepared_tight around (w := listed w sub) optionChn
    (1 + (subchunkPayload sub).length) writing.room
  have size : (UInt32.ofNat (subchunkPayload sub).length :: subchunkPayload sub).length =
      1 + (subchunkPayload sub).length := by
    rw [List.length_cons,Nat.add_comm]
  rw [← size] at room tight
  refine ⟨_,writerWriteSubchunk_after _ sub writing.fresh grown (size ▸ room),?_⟩
  rw [List.drop_drop,← size]
  exact prepared_appended writing room tight

theorem nullSubchunk_appended (writing : Writing w) :
    ∃ w', (writerWriteSubchunk around none).run w = (.ok (),w') ∧ Appended w w' [0] := by
  obtain ⟨spare,grown,room,tight⟩ := ensure_prepared_tight around optionChn 1 writing.room
  have run : (writerWriteSubchunk around none).run w = (.ok (),{ prepared w optionChn spare with
      data := w.data ++ [0], spare := spare.drop 1, idList := w.idList, managerList := w.managerList
      chunkRefList := w.chunkRefList, chunkList := w.chunkList }) := by
    rw [writerWriteSubchunk,Action.bind_ok _ (requireOpen_run writing.fresh),
      Action.bind_ok (t := w.withOptions (· ||| optionChn)) (a := ()) _ rfl,Action.bind_ok _ grown,
      appendWords_run (by exact room)]
    rfl
  exact ⟨_,run,prepared_appended writing room tight⟩

/-- Bytes copied to behind the data, and the size raised over the words they fill. -/
theorem storedBehind {source : List UInt8} (room : source.length ≤ 4 * w.spare.length) :
    ∃ words, (copyToSpare source >>= fun _ => raiseSize ((source.length + 3) / 4)).run w =
      (.ok (),{ w with
        data := w.data ++ words, spare := (copiedOver w.spare source).drop ((source.length + 3) / 4) }) ∧
      Packs words source := by
  refine ⟨(copiedOver w.spare source).take ((source.length + 3) / 4),?_,packs_copiedOver room⟩
  have enough : (source.length + 3) / 4 ≤ (copiedOver w.spare source).length := by
    rw [length_copiedOver room]
    omega
  rw [Action.bind_ok (a := ()) (t := { w with spare := copiedOver w.spare source }) _
    (by simp only [copyToSpare,if_pos room])]
  simp only [raiseSize,if_pos enough]

/-- Room is made and cleared before the bytes are copied. -/
theorem storeCleared_from (source : List UInt8) (dwords : Nat) (writing : Writing w) :
    ∃ spare : List UInt32, dwords ≤ spare.length ∧ spare.length < dwords + 500 ∧ (storeCleared around source dwords).run w =
      (copyToSpare source >>= fun _ => raiseSize dwords).run { w with spare := spare } := by
  obtain ⟨spare,grown,room,tight⟩ := ensureDataCapacity_tight around writing.room dwords
  have size : (List.replicate dwords (0 : UInt32) ++ spare.drop dwords).length = spare.length := by
    rw [List.length_append,List.length_replicate,List.length_drop]
    omega
  refine ⟨List.replicate dwords 0 ++ spare.drop dwords,by omega,by omega,?_⟩
  rw [storeCleared,Action.bind_ok _ grown,Action.bind_ok (a := ()) _ (by simp only [clearSpare,if_pos room]; rfl)]

theorem storeCleared_appended (source : List UInt8) (small : source.length + 3 < 2 ^ 32) (writing : Writing w) :
    ∃ w' words, (storeCleared around source (alignDword source.length / 4)).run w = (.ok (),w') ∧
      Appended w w' words ∧ Packs words source := by
  rw [alignDword_small small]
  obtain ⟨spare,room,tight,run⟩ := storeCleared_from around source ((source.length + 3) / 4) writing
  have fits : source.length ≤ 4 * spare.length := by omega
  obtain ⟨words,stored,packs⟩ := storedBehind (w := { w with spare := spare }) fits
  refine ⟨_,words,run.trans stored,⟨rfl,rfl,writing.fresh,writing.plain,writing.started,?_⟩,packs⟩
  simp only [List.length_drop]
  rw [length_copiedOver fits]
  omega

/-- Where the rounded size wraps, the copy leaves the room that was made. -/
theorem storeCleared_overruns (source : List UInt8) (large : 2 ^ 32 ≤ source.length + 3) (writing : Writing w) :
    ∃ stop w', (storeCleared around source (alignDword source.length / 4)).run w = (.error stop,w') := by
  rw [alignDword_dwords]
  generalize short : (source.length + 3) % 2 ^ 32 / 4 = dwords
  obtain ⟨spare,room,tight,run⟩ := storeCleared_from around source dwords writing
  have beyond : ¬ source.length ≤ 4 * spare.length := by omega
  have stopped : (copyToSpare source).run { w with spare := spare } =
      (.error (.overwrite (w.data.length + spare.length)),{ w with spare := spare }) := by
    simp only [copyToSpare,if_neg beyond]
  exact ⟨_,_,run.trans (Action.bind_error _ stopped)⟩

/-- A byte string of a pointer, as it is or with its 16-bit words swapped. -/
theorem stored_appended {f : List UInt8 → List UInt8} (same : ∀ bytes, (f bytes).length = bytes.length)
    {source : List UInt8} {bytes : Nat} (inside : bytes ≤ source.length) (small : bytes + 3 < 2 ^ 32) (writing : Writing w) :
    ∃ w' words, (if bytes = 0 then pure () else do
        let copied ← Action.lift (sourceBytes source bytes)
        storeCleared around (f copied) (alignDword bytes / 4)).run w = (.ok (),w') ∧
      Appended w w' words ∧ Packs words (f (source.take bytes)) := by
  have size : (f (source.take bytes)).length = bytes := by
    rw [same,List.length_take]
    exact Nat.min_eq_left inside
  split
  · rename_i zero
    subst zero
    refine ⟨w,[],rfl,writing.appended,?_⟩
    rw [List.length_eq_zero_iff.mp size]
    exact packs_nil
  · obtain ⟨w',words,run,appended,packs⟩ := storeCleared_appended around (w := w) (f (source.take bytes))
      (by rw [size]; exact small) writing
    rw [size] at run
    exact ⟨w',words,by rw [sourceBytes,if_pos inside,Action.bind_ok _ (Action.lift_apply _ w)]; exact run,appended,packs⟩

theorem stored_overruns {f : List UInt8 → List UInt8} (same : ∀ bytes, (f bytes).length = bytes.length)
    {source : List UInt8} {bytes : Nat} (inside : bytes ≤ source.length) (large : 2 ^ 32 ≤ bytes + 3) (writing : Writing w) :
    ∃ stop w', (if bytes = 0 then pure () else do
        let copied ← Action.lift (sourceBytes source bytes)
        storeCleared around (f copied) (alignDword bytes / 4)).run w = (.error stop,w') := by
  have size : (f (source.take bytes)).length = bytes := by
    rw [same,List.length_take]
    exact Nat.min_eq_left inside
  obtain ⟨stop,w',run⟩ := storeCleared_overruns around (w := w) (f (source.take bytes))
    (by rw [size]; exact large) writing
  rw [size] at run
  rw [if_neg (by omega),sourceBytes,if_pos inside,Action.bind_ok _ (Action.lift_apply _ w)]
  exact ⟨stop,w',run⟩

theorem writerWriteBytes_open (source : List UInt8) (bytes : Nat) (writing : Writing w) :
    (writerWriteBytes around (some source) bytes).run w = (if bytes = 0 then pure () else do
        let copied ← Action.lift (sourceBytes source bytes)
        storeCleared around (id copied) (alignDword bytes / 4)).run w := by
  rw [writerWriteBytes,Action.bind_ok _ (requireOpen_run writing.fresh)]
  rfl

theorem bytes_appended {source : List UInt8} {bytes : Nat} (inside : bytes ≤ source.length) (small : bytes + 3 < 2 ^ 32)
    (writing : Writing w) : ∃ w' words, (writerWriteBytes around (some source) bytes).run w = (.ok (),w') ∧
      Appended w w' words ∧ Packs words (source.take bytes) := by
  rw [writerWriteBytes_open _ source bytes writing]
  exact stored_appended _ (fun _ => rfl) inside small writing

theorem bytes_overruns {source : List UInt8} {bytes : Nat} (inside : bytes ≤ source.length) (large : 2 ^ 32 ≤ bytes + 3)
    (writing : Writing w) : ∃ stop w', (writerWriteBytes around (some source) bytes).run w = (.error stop,w') := by
  rw [writerWriteBytes_open _ source bytes writing]
  exact stored_overruns _ (fun _ => rfl) inside large writing

/-- A length, and the bytes behind it: a string or a buffer. -/
theorem counted_appended {source : List UInt8} {bytes : Nat} (inside : bytes ≤ source.length) (small : bytes + 3 < 2 ^ 32)
    (word : UInt32) (writing : Writing w) : ∃ w' words,
      (writerWriteDword around word >>= fun _ =>
        if 0 < bytes then writerWriteBytes around (some source) bytes else pure ()).run w = (.ok (),w') ∧
      Appended w w' (word :: words) ∧ Packs words (source.take bytes) := by
  obtain ⟨w₁,run,first⟩ := put_appended around [word] writing
  rw [writerWriteDword,Action.bind_ok _ run]
  split
  · obtain ⟨w₂,words,ran,second,packs⟩ := bytes_appended around inside small first.writing
    exact ⟨w₂,words,ran,first.trans second,packs⟩
  · rename_i zero
    obtain rfl := Nat.eq_zero_of_not_pos zero
    exact ⟨w₁,[],rfl,first,packs_nil⟩

theorem counted_overruns {source : List UInt8} {bytes : Nat} (inside : bytes ≤ source.length) (large : 2 ^ 32 ≤ bytes + 3)
    (word : UInt32) (writing : Writing w) : ∃ stop w',
      (writerWriteDword around word >>= fun _ =>
        if 0 < bytes then writerWriteBytes around (some source) bytes else pure ()).run w = (.error stop,w') := by
  obtain ⟨w₁,run,first⟩ := put_appended around [word] writing
  rw [writerWriteDword,Action.bind_ok _ run,if_pos (by omega)]
  exact bytes_overruns _ inside large first.writing

/-- A string is written up to its length in 32 bits. -/
theorem writerWriteString_open (str : List UInt8) (writing : Writing w) :
    (writerWriteString around (some str)).run w = (writerWriteDword around (UInt32.ofNat str.length) >>= fun _ =>
        if 0 < str.length % 2 ^ 32 then writerWriteBytes around (some str) (str.length % 2 ^ 32) else pure ()).run w := by
  have length : (UInt32.ofNat str.length).toNat = str.length % 2 ^ 32 := UInt32.toNat_ofNat'
  have positive : UInt32.ofNat str.length > 0 ↔ 0 < str.length % 2 ^ 32 := by
    rw [gt_iff_lt,UInt32.lt_iff_toNat_lt,length]
    rfl
  rw [writerWriteString,Action.bind_ok _ (requireOpen_run writing.fresh)]
  simp only [Option.getD_some,positive,length]

theorem writerWriteBuffer_open (source : List UInt8) (writing : Writing w) :
    (writerWriteBuffer around (some source) source.length).run w =
      (writerWriteDword around (UInt32.ofNat source.length) >>= fun _ =>
        if 0 < source.length then writerWriteBytes around (some source) source.length else pure ()).run w := by
  rw [writerWriteBuffer,Action.bind_ok _ (requireOpen_run writing.fresh)]

theorem marker_appended (writing : Writing w) :
    ∃ w', (writeEmptyMarker around).run w = (.ok (),w') ∧ Appended w w' [0,0] := by
  obtain ⟨spare,grown,room,tight⟩ := ensureDataCapacity_tight around writing.room 2
  refine ⟨_,?_,appended_words [0,0] writing room tight⟩
  rw [writeEmptyMarker,Action.bind_ok _ grown]
  exact appendWords_run (w := { w with spare := spare }) room

/-- Room is made for an array, and its header is written, before the bytes are copied. -/
theorem array_from (f : List UInt8 → List UInt8) {source : List UInt8} {bytes : Nat} (inside : bytes ≤ source.length)
    (dwords : Nat) (size count : UInt32) (writing : Writing w) :
    ∃ spare : List UInt32, dwords ≤ spare.length ∧ spare.length < dwords + 500 ∧
      (do ensureDataCapacity around (2 + dwords)
          appendWords [size,count]
          let copied ← Action.lift (sourceBytes source bytes)
          copyToSpare (f copied)
          raiseSize dwords : Run ChunkWriter Unit).run w =
        (copyToSpare (f (source.take bytes)) >>= fun _ => raiseSize dwords).run
          { w with data := w.data ++ [size,count], spare := spare } := by
  obtain ⟨spare,grown,room,tight⟩ := ensureDataCapacity_tight around writing.room (2 + dwords)
  refine ⟨spare.drop 2,by rw [List.length_drop]; omega,by rw [List.length_drop]; omega,?_⟩
  rw [Action.bind_ok _ grown,Action.bind_ok _ (appendWords_run (w := { w with spare := spare })
    (show [size,count].length ≤ spare.length by simp only [List.length_cons,List.length_nil]; omega)),sourceBytes,if_pos inside,
    Action.bind_ok _ (Action.lift_apply _ _)]
  rfl

theorem array_appended {f : List UInt8 → List UInt8} (same : ∀ bytes, (f bytes).length = bytes.length)
    {source : List UInt8} {bytes dwords : Nat} (inside : bytes ≤ source.length) (enough : dwords = (bytes + 3) / 4)
    (size count : UInt32) (writing : Writing w) : ∃ w' words,
      (do ensureDataCapacity around (2 + dwords)
          appendWords [size,count]
          let copied ← Action.lift (sourceBytes source bytes)
          copyToSpare (f copied)
          raiseSize dwords : Run ChunkWriter Unit).run w = (.ok (),w') ∧
      Appended w w' ([size,count] ++ words) ∧ Packs words (f (source.take bytes)) := by
  subst enough
  have length : (f (source.take bytes)).length = bytes := by
    rw [same,List.length_take]
    exact Nat.min_eq_left inside
  obtain ⟨spare,room,tight,run⟩ := array_from around f inside ((bytes + 3) / 4) size count writing
  have fits : (f (source.take bytes)).length ≤ 4 * spare.length := by
    rw [length]
    omega
  obtain ⟨words,stored,packs⟩ := storedBehind (w := { w with data := w.data ++ [size,count], spare := spare }) fits
  rw [length] at stored
  refine ⟨_,words,run.trans stored,⟨?_,rfl,writing.fresh,writing.plain,writing.started,?_⟩,packs⟩
  · simp only [List.append_assoc]
  · simp only [List.length_drop]
    rw [length_copiedOver fits]
    omega

theorem array_overruns {f : List UInt8 → List UInt8} (same : ∀ bytes, (f bytes).length = bytes.length)
    {source : List UInt8} {bytes : Nat} (inside : bytes ≤ source.length) (large : 2 ^ 32 ≤ bytes + 3)
    (size count : UInt32) (writing : Writing w) : ∃ stop w',
      (do ensureDataCapacity around (2 + alignDword bytes / 4)
          appendWords [size,count]
          let copied ← Action.lift (sourceBytes source bytes)
          copyToSpare (f copied)
          raiseSize (alignDword bytes / 4) : Run ChunkWriter Unit).run w = (.error stop,w') := by
  have length : (f (source.take bytes)).length = bytes := by
    rw [same,List.length_take]
    exact Nat.min_eq_left inside
  have short := alignDword_dwords bytes
  obtain ⟨spare,room,tight,run⟩ := array_from around f inside (alignDword bytes / 4) size count writing
  have beyond : ¬ (f (source.take bytes)).length ≤ 4 * spare.length := by
    rw [length]
    omega
  have stopped : (copyToSpare (f (source.take bytes))).run { w with data := w.data ++ [size,count], spare := spare } =
      (.error (.overwrite ((w.data ++ [size,count]).length + spare.length)),
        { w with data := w.data ++ [size,count], spare := spare }) := by
    simp only [copyToSpare,if_neg beyond]
  exact ⟨_,_,run.trans (Action.bind_error _ stopped)⟩

theorem wordsEach_appended (values : List UInt16) (writing : Writing w) :
    ∃ w', (writeWordsEach around values).run w = (.ok (),w') ∧ Appended w w' (values.map UInt16.toUInt32) := by
  induction values generalizing w with
  | nil => exact ⟨w,rfl,writing.appended⟩
  | cons value rest ih =>
    obtain ⟨w₁,run,first⟩ := put_appended around [value.toUInt32] writing
    obtain ⟨w₂,ran,others⟩ := ih first.writing
    exact ⟨w₂,by rw [writeWordsEach,writerWriteWord,Action.bind_ok _ run,ran],first.trans others⟩

theorem dwordAsWords_appended (value : UInt32) (writing : Writing w) :
    ∃ w', (writerWriteDwordAsWords around value).run w = (.ok (),w') ∧
      Appended w w' [(value &&& 0xFFFF).toUInt16.toUInt32,((value >>> 16) &&& 0xFFFF).toUInt16.toUInt32] := by
  obtain ⟨w₁,run,first⟩ := put_appended around [(value &&& 0xFFFF).toUInt16.toUInt32] writing
  obtain ⟨w₂,ran,second⟩ := put_appended around [((value >>> 16) &&& 0xFFFF).toUInt16.toUInt32] first.writing
  refine ⟨w₂,?_,first.trans second⟩
  rw [writerWriteDwordAsWords,Action.bind_ok _ (requireOpen_run writing.fresh),writerWriteWord,Action.bind_ok _ run]
  exact ran

theorem length_halves (values : List UInt32) :
    (values.flatMap fun value : UInt32 => [value &&& 0xFFFF,(value >>> 16) &&& 0xFFFF]).length = 2 * values.length := by
  rw [List.length_flatMap]
  simp [Nat.mul_comm]

theorem arrayDwordAsWords_appended (values : List UInt32) (small : values.length ≤ (2 ^ 64 - 1) / 2)
    (writing : Writing w) : ∃ w', (writerWriteArrayDwordAsWords around (some values) values.length).run w = (.ok (),w') ∧
      Appended w w' (values.flatMap fun value => [value &&& 0xFFFF,(value >>> 16) &&& 0xFFFF]) := by
  unfold writerWriteArrayDwordAsWords
  rw [Action.bind_ok _ (requireOpen_run writing.fresh)]
  split
  · rename_i zero
    obtain rfl := List.length_eq_zero_iff.mp zero
    exact ⟨w,rfl,writing.appended⟩
  · obtain ⟨w',run,appended⟩ := put_appended around
      (values.flatMap fun value => [value &&& 0xFFFF,(value >>> 16) &&& 0xFFFF]) writing
    refine ⟨w',?_,appended⟩
    rw [writerPut,Action.bind_ok _ (requireOpen_run writing.fresh),length_halves,Nat.mul_comm] at run
    dsimp only
    rw [if_neg (show ¬ values.length > (2 ^ 64 - 1) / 2 by omega),if_neg (Nat.lt_irrefl _),List.take_length,
      Action.bind_ok _ (Action.pure_apply _ w)]
    exact run

theorem bufferLendian16_open (source : List UInt8) (writing : Writing w) :
    (writerWriteBufferLendian16 around source.length (some source)).run w =
      (if source.length = 0 then pure () else do
        let copied ← Action.lift (sourceBytes source source.length)
        storeCleared around (swap16BitWords copied) (alignDword source.length / 4)).run w := by
  rw [writerWriteBufferLendian16,Action.bind_ok _ (requireOpen_run writing.fresh)]

section Arrays
variable {elementCount elementSize : Int32} {bytes : List UInt8}

theorem arrayLendian_empty {src : Option (List UInt8)} (empty : src = none ∨ elementCount ≤ 0 ∨ elementSize ≤ 0)
    (writing : Writing w) : (writerWriteArrayLendian around elementCount elementSize src).run w =
      (writeEmptyMarker around).run w := by
  unfold writerWriteArrayLendian
  rw [Action.bind_ok _ (requireOpen_run writing.fresh)]
  cases src with
  | none => rfl
  | some bytes =>
    have hollow := empty.resolve_left (by simp)
    simp only [if_pos hollow]

theorem arrayLendian16_empty {src : Option (List UInt8)} (empty : src = none ∨ elementCount ≤ 0 ∨ elementSize ≤ 0)
    (writing : Writing w) : (writerWriteArrayLendian16 around elementCount elementSize src).run w =
      (writeEmptyMarker around).run w := by
  unfold writerWriteArrayLendian16
  rw [Action.bind_ok _ (requireOpen_run writing.fresh)]
  cases src with
  | none => rfl
  | some bytes =>
    have hollow := empty.resolve_left (by simp)
    simp only [if_pos hollow]

theorem positive_of_full (full : ¬ (elementCount ≤ 0 ∨ elementSize ≤ 0)) :
    0 < elementCount.toInt ∧ 0 < elementSize.toInt := by
  rw [Int32.le_iff_toInt_le,Int32.le_iff_toInt_le,Int32.toInt_zero] at full
  omega

/-- A product that an `int` holds passes both checks of the size. -/
theorem arrayLendian_full (full : ¬ (elementCount ≤ 0 ∨ elementSize ≤ 0))
    (sized : bytes.length = elementCount.toInt.toNat * elementSize.toInt.toNat) (small : bytes.length < 2 ^ 31)
    (writing : Writing w) : (writerWriteArrayLendian around elementCount elementSize (some bytes)).run w =
      (do ensureDataCapacity around (2 + (bytes.length + 3) / 4)
          appendWords [UInt32.ofNat bytes.length,elementCount.toUInt32]
          let copied ← Action.lift (sourceBytes bytes bytes.length)
          copyToSpare (id copied)
          raiseSize ((bytes.length + 3) / 4) : Run ChunkWriter Unit).run w := by
  obtain ⟨count,size⟩ := positive_of_full full
  have product : elementCount.toInt * elementSize.toInt = bytes.length := by
    rw [sized,Int.natCast_mul,Int.toNat_of_nonneg (by omega),Int.toNat_of_nonneg (by omega)]
  have within : ¬ elementCount.toInt > (2 ^ 31 - 1 : Int).tdiv elementSize.toInt := by
    rw [Int.tdiv_eq_ediv_of_nonneg (by decide),Int.not_lt,Int.le_ediv_iff_mul_le size,product]
    omega
  unfold writerWriteArrayLendian
  rw [Action.bind_ok _ (requireOpen_run writing.fresh)]
  simp only [if_neg full,if_neg within,Nat.mul_comm elementSize.toInt.toNat,← sized,
    if_neg (show ¬ bytes.length > 2 ^ 31 - 1 by omega),id]

theorem arrayLendian_oversized (full : ¬ (elementCount ≤ 0 ∨ elementSize ≤ 0))
    (sized : bytes.length = elementCount.toInt.toNat * elementSize.toInt.toNat) (large : 2 ^ 31 ≤ bytes.length)
    (writing : Writing w) : (writerWriteArrayLendian around elementCount elementSize (some bytes)).run w =
      (writeEmptyMarker around).run w := by
  obtain ⟨count,size⟩ := positive_of_full full
  have product : elementCount.toInt * elementSize.toInt = bytes.length := by
    rw [sized,Int.natCast_mul,Int.toNat_of_nonneg (by omega),Int.toNat_of_nonneg (by omega)]
  have beyond : elementCount.toInt > (2 ^ 31 - 1 : Int).tdiv elementSize.toInt := by
    rw [Int.tdiv_eq_ediv_of_nonneg (by decide),gt_iff_lt,Int.ediv_lt_iff_lt_mul size,product]
    omega
  unfold writerWriteArrayLendian
  rw [Action.bind_ok _ (requireOpen_run writing.fresh)]
  simp only [if_neg full,if_pos beyond]

theorem arrayLendian16_full (full : ¬ (elementCount ≤ 0 ∨ elementSize ≤ 0))
    (sized : bytes.length = elementCount.toInt.toNat * elementSize.toInt.toNat) (writing : Writing w) :
    (writerWriteArrayLendian16 around elementCount elementSize (some bytes)).run w =
      (do ensureDataCapacity around (2 + alignDword bytes.length / 4)
          appendWords [UInt32.ofNat bytes.length,elementCount.toUInt32]
          let copied ← Action.lift (sourceBytes bytes bytes.length)
          copyToSpare (swap16BitWords copied)
          raiseSize (alignDword bytes.length / 4) : Run ChunkWriter Unit).run w := by
  unfold writerWriteArrayLendian16
  rw [Action.bind_ok _ (requireOpen_run writing.fresh)]
  simp only [if_neg full,← sized]

end Arrays

end Writing
end Libnmo.Format
