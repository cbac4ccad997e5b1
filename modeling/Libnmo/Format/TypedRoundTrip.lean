import Libnmo.Format.TypedOps
import Libnmo.Lib.Advances

/-! What a chunk writer stores is what a chunk parser reads, for every sequence of
typed calls whose sizes survive their rounding, and for no other. A size that wraps
makes the writer copy over the end of its room, or takes the cursor back. -/
namespace Libnmo.Format
open Core Lib Lib.LittleEndian Lib.Cursor

section Advancing
variable {data : List UInt32} {cursor next : Nat}

theorem advances_checkBounds (dwordsNeeded : Nat) : Advances 0 (checkBounds data dwordsNeeded) := by
  intro cursor value next run
  simp only [checkBounds] at run
  split at run
  · simp only [Prod.mk.injEq,true_and] at run
    omega
  · simp at run

theorem advances_dword : Advances 1 (parserDword data) := by
  intro cursor value next run
  simp only [parserDword] at run
  split at run
  · simp only [Prod.mk.injEq] at run
    omega
  · simp at run

theorem advances_word : Advances 1 (parserWord data) := advances_map _ advances_dword

theorem advances_int : Advances 1 (parserInt data) := advances_map _ advances_dword

theorem advances_dwordAsWords : Advances 2 (parserDwordAsWords data) :=
  advances_bind advances_word fun _ => advances_map _ advances_word

theorem advances_guid : Advances 2 (parserGuid data) :=
  advances_bind (advances_checkBounds 2) fun _ => advances_bind advances_dword fun _ => advances_map _ advances_dword

theorem advances_managerInt : Advances 3 (parserManagerInt data) := by
  change Advances (0 + 3) _
  refine advances_bind (advances_read _) fun room => ?_
  split
  · exact advances_bind advances_dword fun _ => advances_bind advances_dword fun _ => advances_map _ advances_int
  · exact advances_pure _

theorem copyBytes_success {bytes : Nat} {copied : List UInt8}
    (run : (copyBytes data bytes).run cursor = (.ok copied,next)) : copied.length = bytes ∧ next = cursor := by
  simp only [copyBytes] at run
  split at run
  · simp only [Prod.mk.injEq,Except.ok.injEq] at run
    refine ⟨?_,run.2.symm⟩
    rw [← run.1,List.length_take]
    omega
  · simp at run

/-- What was copied has the length that was asked for. -/
theorem takeBytes_success {bytes dwords : Nat} {taken : List UInt8}
    (run : (takeBytes data bytes dwords).run cursor = (.ok taken,next)) :
    taken.length = bytes ∧ next ≤ cursor + dwords := by
  obtain ⟨_,start,checked,run⟩ := Action.bind_success run
  obtain ⟨copied,between,copy,run⟩ := Action.bind_success run
  obtain ⟨_,stop,moved,run⟩ := Action.bind_success run
  have still := advances_checkBounds _ _ _ _ checked
  simp only [advance,Action.update_apply,Prod.mk.injEq,true_and] at moved
  simp only [Action.pure_apply,Prod.mk.injEq,Except.ok.injEq] at run
  obtain ⟨length,same⟩ := copyBytes_success copy
  rw [← run.1]
  exact ⟨length,by omega⟩

theorem parserBytes_success {bytes : Nat} {taken : List UInt8}
    (run : (parserBytes data bytes).run cursor = (.ok taken,next)) :
    taken.length = bytes ∧ next ≤ cursor + (bytes + 3) / 4 := by
  rw [parserBytes] at run
  split at run
  · simp only [Action.pure_apply,Prod.mk.injEq,Except.ok.injEq] at run
    rw [← run.1,List.length_nil]
    omega
  · have took := takeBytes_success run
    rw [alignDword_dwords] at took
    omega

theorem bufferNosize_success {bytes : Nat} {taken : List UInt8}
    (run : (parserBufferNosize data bytes).run cursor = (.ok taken,next)) : next ≤ cursor + (bytes + 3) / 4 := by
  rw [parserBufferNosize] at run
  split at run
  · exact Nat.le_trans (advances_pure _ _ _ _ run : next ≤ cursor + 0) (Nat.le_add_right _ _)
  · have took := takeBytes_success run
    omega

theorem bufferLendian16_success {bytes : Nat} {taken : List UInt8}
    (run : (parserBufferLendian16 data bytes).run cursor = (.ok taken,next)) : next ≤ cursor + (bytes + 3) / 4 := by
  rw [parserBufferLendian16] at run
  split at run
  · exact Nat.le_trans (advances_pure _ _ _ _ run : next ≤ cursor + 0) (Nat.le_add_right _ _)
  · obtain ⟨buffer,ran,_⟩ := return_success run
    have took := takeBytes_success ran
    rw [alignDword_dwords] at took
    omega

theorem string_success {str : List UInt8} (run : (parserString data).run cursor = (.ok str,next)) :
    str.length < 2 ^ 32 ∧ next ≤ cursor + (1 + (str.length + 3) / 4) := by
  obtain ⟨length,_,first,run⟩ := Action.bind_success run
  obtain ⟨_,run⟩ := Action.check_success run
  have front := advances_dword _ _ _ first
  have took := parserBytes_success run
  have bound := length.toNat_lt
  omega

theorem buffer_success {found : Option (List UInt8)} (run : (parserBuffer data).run cursor = (.ok found,next)) :
    next ≤ cursor + (1 + ((found.getD []).length + 3) / 4) := by
  obtain ⟨bufSize,_,first,run⟩ := Action.bind_success run
  have front := advances_dword _ _ _ first
  split at run
  · simp only [Action.pure_apply,Prod.mk.injEq] at run
    omega
  · obtain ⟨taken,ran,rfl⟩ := return_success run
    have took := parserBytes_success ran
    rw [Option.getD_some]
    omega

/-- The cursor goes on by the words of the array, or back where their number wraps. -/
theorem arrayLendian_success {found : Option (List UInt8) × Int32}
    (run : (parserArrayLendian data).run cursor = (.ok found,next)) : (found.1.getD []).length < 2 ^ 31 ∧
      next ≤ cursor + (2 + if (found.1.getD []).length + 3 < 2 ^ 31 then ((found.1.getD []).length + 3) / 4 else 0) := by
  have hollow {start : Nat} (early : start ≤ cursor + 2)
      (run : (pure (none,0) : Run Nat (Option (List UInt8) × Int32)).run start = (.ok found,next)) :
      (found.1.getD []).length < 2 ^ 31 ∧
      next ≤ cursor + (2 + if (found.1.getD []).length + 3 < 2 ^ 31 then ((found.1.getD []).length + 3) / 4 else 0) := by
    simp only [Action.pure_apply,Prod.mk.injEq,Except.ok.injEq] at run
    rw [← run.1]
    exact ⟨by decide,by omega⟩
  obtain ⟨room,start,entered,run⟩ := Action.bind_success run
  have still := advances_read _ _ _ _ entered
  split at run
  · obtain ⟨dataSizeBytes,middle,first,run⟩ := Action.bind_success run
    obtain ⟨elementCount,front,second,run⟩ := Action.bind_success run
    have one := advances_int _ _ _ first
    have two := advances_int _ _ _ second
    split at run
    · exact hollow (by omega) run
    · rename_i full
      obtain ⟨signed,after,checked,run⟩ := Action.bind_success run
      have same := advances_read _ _ _ _ checked
      split at run
      · obtain ⟨array,copied,copy,run⟩ := Action.bind_success run
        obtain ⟨_,stop,moved,run⟩ := Action.bind_success run
        simp only [Action.update_apply,Prod.mk.injEq,true_and] at moved
        simp only [Action.pure_apply,Prod.mk.injEq,Except.ok.injEq] at run
        obtain ⟨length,stays⟩ := copyBytes_success copy
        have positive : 0 < dataSizeBytes.toInt := by
          rw [Int32.le_iff_toInt_le,Int32.toInt_zero] at full
          omega
        have bound := dataSizeBytes.toInt_lt
        rw [arrayDwords_eq positive] at moved
        rw [← run.1]
        simp only [Option.getD_some,length]
        refine ⟨by omega,?_⟩
        split at moved
        · rw [if_pos (by omega)]
          omega
        · rename_i large
          have back : (dataSizeBytes.toInt + 3 - 2 ^ 32).tdiv 4 ≤ 0 := by
            rw [show dataSizeBytes.toInt + 3 - 2 ^ 32 = -(2 ^ 32 - (dataSizeBytes.toInt + 3)) by omega,Int.neg_tdiv]
            exact Int.neg_nonpos_of_nonneg (Int.tdiv_nonneg (by omega) (by decide))
          omega
      · exact hollow (by omega) run
  · exact hollow (by omega) run

theorem arrayLendian16_success {found : Option (List UInt8) × Int32}
    (run : (parserArrayLendian16 data).run cursor = (.ok found,next)) :
      next ≤ cursor + (2 + ((found.1.getD []).length + 3) / 4) := by
  obtain ⟨sizeBytes,middle,first,run⟩ := Action.bind_success run
  obtain ⟨elementCount,front,second,run⟩ := Action.bind_success run
  have one := advances_dword _ _ _ first
  have two := advances_dword _ _ _ second
  split at run
  · simp only [Action.pure_apply,Prod.mk.injEq] at run
    omega
  · obtain ⟨array,ran,rfl⟩ := return_success run
    have took := takeBytes_success ran
    rw [alignDword_dwords] at took
    rw [Option.getD_some,length_swap16BitWords]
    omega

end Advancing

section Moving
variable {around : Surroundings} {w w' : ChunkWriter} {data : List UInt32} {cursor next : Nat}

/-- A call that answers rightly takes no more words than the value has. -/
theorem reader_moves (op : TypedOp) (run : (op.reader data).run cursor = (.ok op.answer,next)) :
    next ≤ cursor + op.size := by
  cases op with
  | byte _ | word _ => exact advances_map _ (advances_map _ advances_dword) _ _ _ run
  | dword _ | objectId _ | float _ => exact advances_map _ advances_dword _ _ _ run
  | int _ => exact advances_map _ advances_int _ _ _ run
  | guid _ => exact advances_map _ advances_guid _ _ _ run
  | dwordAsWords _ => exact advances_map _ advances_dwordAsWords _ _ _ run
  | managerInt _ _ => exact advances_map _ advances_managerInt _ _ _ run
  | dwordArrayAsWords values =>
    have moved := advances_map _ (advances_times advances_dwordAsWords values.length) _ _ _ run
    rw [TypedOp.size]
    omega
  | bufferNosizeLendian16 values =>
    have moved := advances_map _ (advances_times advances_word values.length) _ _ _ run
    rw [TypedOp.size]
    omega
  | string str =>
    obtain ⟨found,ran,same⟩ := answering_success run
    obtain rfl := ParserAnswer.bytes.inj same
    exact (string_success ran).2
  | buffer source =>
    obtain ⟨found,ran,same⟩ := answering_success run
    have moved := buffer_success ran
    rw [← ParserAnswer.buffer.inj same] at moved
    by_cases empty : source = []
    · subst empty
      exact moved
    · rwa [if_neg empty] at moved
  | bytes source =>
    obtain ⟨found,ran,_⟩ := answering_success run
    exact (parserBytes_success ran).2
  | bufferNosize source =>
    obtain ⟨found,ran,_⟩ := answering_success run
    exact bufferNosize_success ran
  | bufferLendian16 source =>
    obtain ⟨found,ran,_⟩ := answering_success run
    exact bufferLendian16_success ran
  | arrayLendian array =>
    obtain ⟨found,ran,same⟩ := answering_success run
    have moved := (arrayLendian_success ran).2
    rw [← (ParserAnswer.array.inj same).1] at moved
    rw [TypedOp.size]
    split at moved <;> omega
  | arrayLendian16 array =>
    obtain ⟨found,ran,same⟩ := answering_success run
    have moved := arrayLendian16_success ran
    rw [← (ParserAnswer.array.inj same).1] at moved
    exact moved

/-- A size that does not survive its rounding: the call does not come back, the answer is wrong, or the cursor
falls behind. -/
theorem misfit_moves (op : TypedOp) (writing : Writing w) (misfit : ¬ op.Fits)
    (wrote : (op.write around).run w = (.ok (),w')) (read : (op.reader data).run cursor = (.ok op.answer,next)) :
    Writing w' ∧ next + w.data.length < cursor + w'.data.length := by
  have never {action : Run ChunkWriter Unit} (stops : ∃ stop w', action.run w = (.error stop,w'))
      (ran : action.run w = (.ok (),w')) : False := by
    obtain ⟨stop,w'',stopped⟩ := stops
    rw [stopped] at ran
    simp at ran
  cases op with
  | byte _ | word _ | dword _ | int _ | float _ | guid _ | dwordAsWords _ | bufferNosizeLendian16 _ | objectId _
  | managerInt _ _ => exact absurd trivial misfit
  | dwordArrayAsWords values =>
    refine (never ⟨.error .invalidArgument "",w,?_⟩ wrote).elim
    have large : values.length > (2 ^ 64 - 1) / 2 := Nat.lt_of_not_le misfit
    rw [TypedOp.write]
    unfold writerWriteArrayDwordAsWords
    rw [Action.bind_ok _ (requireOpen_run writing.fresh),if_neg (by omega)]
    dsimp only
    rw [if_pos large]
    rfl
  | string str =>
    obtain ⟨found,ran,same⟩ := answering_success read
    obtain rfl := ParserAnswer.bytes.inj same
    have short := Nat.mod_eq_of_lt (string_success ran).1
    rw [TypedOp.write,writerWriteString_open _ _ writing,short] at wrote
    exact (never (counted_overruns around (Nat.le_refl _) (Nat.le_of_not_lt misfit) _ writing) wrote).elim
  | buffer source =>
    rw [TypedOp.write,writerWriteBuffer_open _ _ writing] at wrote
    exact (never (counted_overruns around (Nat.le_refl _) (Nat.le_of_not_lt misfit) _ writing) wrote).elim
  | bytes source =>
    exact (never (bytes_overruns around (Nat.le_refl _) (Nat.le_of_not_lt misfit) writing) wrote).elim
  | bufferNosize source =>
    exact (never (bytes_overruns around (Nat.le_refl _) (Nat.le_of_not_lt misfit) writing) wrote).elim
  | bufferLendian16 source =>
    rw [TypedOp.write,bufferLendian16_open _ _ writing] at wrote
    exact (never (stored_overruns around length_swap16BitWords (Nat.le_refl _) (Nat.le_of_not_lt misfit) writing)
      wrote).elim
  | arrayLendian array =>
    obtain ⟨found,ran,same⟩ := answering_success read
    have moved := (arrayLendian_success ran).2
    rw [TypedOp.Fits] at misfit
    have stored : array.stored = array.value := SizedArray.stored_small (by omega)
    rw [← (ParserAnswer.array.inj same).1,stored,← SizedArray.size,if_neg (by omega)] at moved
    obtain ⟨w'',words,run,appended,length,_⟩ := arrayLendian_written around array writing
    rw [TypedOp.write,run,Prod.mk.injEq] at wrote
    obtain rfl := wrote.2
    refine ⟨appended.writing,?_⟩
    rw [appended.data,List.length_append,length,TypedOp.size,stored,← SizedArray.size]
    omega
  | arrayLendian16 array =>
    have large : 2 ^ 32 ≤ array.size + 3 := Nat.le_of_not_lt misfit
    rcases array.empty_or with ⟨value,_⟩ | ⟨bytes,given,full,_,_,size⟩
    · rw [SizedArray.size,value] at large
      exact absurd large (by decide)
    · rw [size] at large
      rw [TypedOp.write,given,arrayLendian16_full around full (array.sized bytes given) writing] at wrote
      exact (never (array_overruns around length_swap16BitWords (Nat.le_refl _) large _ _ writing) wrote).elim

/-- Over a call that is answered rightly the cursor gains no more than the data, and less at a misfit. -/
theorem step_moves (op : TypedOp) (writing : Writing w) (wrote : (op.write around).run w = (.ok (),w'))
    (read : (op.reader data).run cursor = (.ok op.answer,next)) :
    Writing w' ∧ next + w.data.length ≤ cursor + w'.data.length ∧
      (¬ op.Fits → next + w.data.length < cursor + w'.data.length) := by
  by_cases fits : op.Fits
  · obtain ⟨w'',words,run,appended,length,_⟩ := write_fits op fits writing
    rw [run,Prod.mk.injEq] at wrote
    obtain rfl := wrote.2
    have moved := reader_moves op read
    refine ⟨appended.writing,?_,fun misfit => absurd fits misfit⟩
    rw [appended.data,List.length_append,length]
    omega
  · have moved := misfit_moves op writing fits wrote read
    exact ⟨moved.1,Nat.le_of_lt moved.2,fun _ => moved.2⟩

end Moving

/-- The calls of a writer, one after another. -/
def writeAll (around : Surroundings) : List TypedOp → Run ChunkWriter Unit
  | [] => pure ()
  | op :: ops => do
    op.write around
    writeAll around ops

/-- The calls of a parser, one after another, with what each answers. -/
def readAll : List ParserOp → Run ChunkParser (List ParserAnswer)
  | [] => pure []
  | op :: ops => do
    let answer ← parserStep op
    let answers ← readAll ops
    pure (answer :: answers)

section Runs
variable {around : Surroundings} {w w' : ChunkWriter} {c : Chunk} {cursor : Nat} {p : ChunkParser}

theorem writeAll_fits (ops : List TypedOp) (fits : ∀ op ∈ ops, op.Fits) (writing : Writing w) :
    ∃ w' words, (writeAll around ops).run w = (.ok (),w') ∧ Appended w w' words ∧
      ∀ c cursor rest, Ahead c.words cursor (words ++ rest) → ∃ next,
        (readAll (ops.map TypedOp.call)).run { parserCreate c with cursor := cursor } =
          (.ok (ops.map TypedOp.answer),{ parserCreate c with cursor := next }) ∧ Ahead c.words next rest := by
  induction ops generalizing w with
  | nil => exact ⟨w,[],rfl,writing.appended,fun c cursor rest ahead => ⟨cursor,rfl,ahead⟩⟩
  | cons op ops ih =>
    obtain ⟨w₁,words,run,first,_,reads⟩ :
        ∃ w₁ words, (op.write around).run w = (.ok (),w₁) ∧ Appended w w₁ words ∧ words.length = op.size ∧
          ∀ data, Reads data (op.reader data) words op.answer := write_fits op (fits op (by simp)) writing
    obtain ⟨w₂,others,ran,second,readOthers⟩ := ih (fun other member => fits other (by simp [member])) first.writing
    refine ⟨w₂,words ++ others,by rw [writeAll,Action.bind_ok _ run,ran],first.trans second,fun c cursor rest ahead => ?_⟩
    rw [List.append_assoc] at ahead
    obtain ⟨middle,read,ahead⟩ := reads c.words cursor _ ahead
    obtain ⟨next,readRest,ahead⟩ := readOthers c middle rest ahead
    have step : (parserStep op.call).run { parserCreate c with cursor := cursor } =
        (.ok op.answer,{ parserCreate c with cursor := middle }) := by rw [step_reader,read]
    refine ⟨next,?_,ahead⟩
    rw [List.map_cons,readAll,Action.bind_ok _ step,Action.bind_ok _ readRest]
    rfl

theorem readAll_moves (ops : List TypedOp) (writing : Writing w) (wrote : (writeAll around ops).run w = (.ok (),w'))
    (read : (readAll (ops.map TypedOp.call)).run { parserCreate c with cursor := cursor } =
      (.ok (ops.map TypedOp.answer),p)) :
    p.cursor + w.data.length ≤ cursor + w'.data.length ∧
      ((∃ op ∈ ops, ¬ op.Fits) → p.cursor + w.data.length < cursor + w'.data.length) := by
  induction ops generalizing w cursor with
  | nil =>
    simp only [writeAll,List.map_nil,readAll,Action.pure_apply,Prod.mk.injEq,true_and] at wrote read
    rw [← wrote,← read]
    exact ⟨Nat.le_refl _,by simp⟩
  | cons op ops ih =>
    obtain ⟨_,w₁,wrote₁,wrote⟩ := Action.bind_success wrote
    obtain ⟨answer,p₁,first,read⟩ := Action.bind_success read
    obtain ⟨answers,p₂,others,read⟩ := Action.bind_success read
    simp only [Action.pure_apply,Prod.mk.injEq,Except.ok.injEq,List.map_cons,List.cons.injEq] at read
    obtain ⟨⟨rfl,rfl⟩,rfl⟩ := read
    rw [step_reader,Prod.mk.injEq] at first
    obtain ⟨answered,rfl⟩ := first
    obtain ⟨middle,run⟩ : ∃ middle, (op.reader c.words).run cursor = (.ok op.answer,middle) := ⟨_,Prod.ext answered rfl⟩
    rw [run] at others
    have step := step_moves op writing wrote₁ run
    have rest := ih step.1 wrote others
    refine ⟨by omega,?_⟩
    rintro ⟨misfit,member,bad⟩
    rcases List.mem_cons.mp member with rfl | inside
    · have less := step.2.2 bad
      omega
    · have less := rest.2 ⟨misfit,inside,bad⟩
      omega

end Runs

/-- After a sequence of typed calls the matching calls answer so, and end with the data. -/
def ReadsBack (around : Surroundings) (classId chunkVersion : UInt32) (ops : List TypedOp)
    (answers : List ParserAnswer) : Prop :=
  ∃ w c p, (writeAll around ops).run (startedWriter around none classId chunkVersion) = (.ok (),w) ∧
    (writerFinalize w).1 = some c ∧
    (readAll (ops.map TypedOp.call)).run (parserCreate c) = (.ok answers,p) ∧ p.cursor = c.dataSize

/-- Three bytes, the last of which has no other to be swapped with. -/
def shortArray : SizedArray where
  elementCount := 3
  elementSize := 1
  src := some [1,2,3]
  sized bytes same := by
    rw [← Option.some.inj same]
    rfl

section Whole
variable (around : Surroundings) (classId chunkVersion : UInt32)

theorem writing_started : Writing (startedWriter around none classId chunkVersion) :=
  ⟨rfl,rfl,rfl,by simp [startedWriter,writerStart,writerSetFileContext,writerCreate,ChunkWriter.withOptions]⟩

theorem words_finalized {w : ChunkWriter} {c : Chunk} (built : (writerFinalize w).1 = some c) : c.words = w.data := by
  rw [writerFinalize] at built
  split at built
  · simp at built
  · split at built
    · simp at built
    · simp only [Option.some.injEq] at built
      rw [← built]
      rfl

theorem finalized_of_writing {w : ChunkWriter} (writing : Writing w) : ∃ c, (writerFinalize w).1 = some c := by
  obtain ⟨c,found⟩ := Option.isSome_iff_exists.mp writing.started
  simp [writerFinalize,found,writing.fresh]

/-- Every sequence of values reads back, where no size wraps; an oversized array reads back as none. -/
theorem readsBack_typed (ops : List TypedOp) (fits : ∀ op ∈ ops, op.Fits) :
    ReadsBack around classId chunkVersion ops (ops.map TypedOp.answer) := by
  obtain ⟨w,words,run,appended,reads⟩ := writeAll_fits ops fits (writing_started around classId chunkVersion)
  obtain ⟨c,built⟩ := finalized_of_writing appended.writing
  have whole : c.words = words := (words_finalized built).trans appended.data
  obtain ⟨next,read,ahead⟩ := reads c 0 [] (by rw [List.append_nil,← whole]; exact ahead_start c.words)
  exact ⟨w,c,_,run,built,read,ahead.length_eq.symm⟩

theorem readsBack_sample : ReadsBack {} 1 7
    [.string [104,105],.byte 7,.arrayLendian shortArray,.arrayLendian16 shortArray,.managerInt ⟨1,2⟩ (-5)]
    [.bytes [104,105],.byte 7,.array (some [1,2,3]) 3,.array (some [1,2,3]) 3,.managerInt (some ⟨1,2⟩) (-5)] :=
  readsBack_typed {} 1 7
    [.string [104,105],.byte 7,.arrayLendian shortArray,.arrayLendian16 shortArray,.managerInt ⟨1,2⟩ (-5)]
    (by simp only [List.forall_mem_cons,TypedOp.Fits,List.not_mem_nil,false_implies,implies_true]; decide)

/-- No other sequence does. -/
theorem fits_of_readsBack {ops : List TypedOp} (back : ReadsBack around classId chunkVersion ops (ops.map TypedOp.answer)) :
    ∀ op ∈ ops, op.Fits := by
  obtain ⟨w,c,p,wrote,built,read,ends⟩ := back
  intro op member
  by_contra misfit
  have moved := (readAll_moves ops (writing_started around classId chunkVersion) wrote read).2 ⟨op,member,misfit⟩
  rw [ends,Chunk.dataSize,words_finalized built] at moved
  exact absurd moved (Nat.not_lt.mpr (Nat.le_of_eq (Nat.add_comm ..)))

theorem fits_of_readsBack_sample : (TypedOp.string [104,105]).Fits := by
  have all : ∀ op ∈ [TypedOp.string [104,105],.byte 7,.managerInt ⟨1,2⟩ (-5)], op.Fits :=
    fits_of_readsBack {} 1 7 ⟨_,_,_,rfl,rfl,rfl,rfl⟩
  exact all _ List.mem_cons_self

end Whole

/-- An array of 2^31 bytes. -/
def hugeArray : SizedArray where
  elementCount := 0x8000
  elementSize := 0x10000
  src := some (List.replicate (0x8000 * 0x10000) 0)
  sized bytes same := by
    rw [← Option.some.inj same,List.length_replicate]
    rfl

theorem hugeArray_lost :
    ¬ ReadsBack {} 0 0 [.arrayLendian hugeArray] [(TypedOp.arrayLendian hugeArray).given] := by
  rintro ⟨w,c,p,wrote,built,read,ends⟩
  obtain ⟨answer,p₁,first,read⟩ := Action.bind_success read
  obtain ⟨answers,p₂,others,read⟩ := Action.bind_success read
  simp only [Action.pure_apply,Prod.mk.injEq,Except.ok.injEq,List.cons.injEq] at read
  obtain ⟨⟨rfl,_⟩,_⟩ := read
  have ran := congrArg Prod.fst ((step_reader c 0 (.arrayLendian hugeArray)).symm.trans first)
  obtain ⟨found,run,same⟩ := answering_success (Prod.ext ran rfl)
  have small := (arrayLendian_success run).1
  rw [← (ParserAnswer.array.inj same).1] at small
  change (List.replicate (0x8000 * 0x10000) (0 : UInt8)).length < 2 ^ 31 at small
  rw [List.length_replicate] at small
  exact absurd small (by decide)

end Libnmo.Format
