import Libnmo.Format.ChunkOps

/-! A chunk is written from its start, closed and read from its start. The reads give
the values and end with the data exactly when every value fits what its write stores
of its size: a size that wraps takes the reader less far, and a count that is read with
a sign comes back as another. -/
namespace Libnmo.Format
open Core Lib Lib.LittleEndian Lib.Cursor

/-- The writes, one after another. -/
def chunkWriteAll (around : Surroundings) : List ChunkOp → Run Chunk Unit
  | [] => pure ()
  | op :: ops => do
    op.write around
    chunkWriteAll around ops

/-- The reads, one after another, with what each gives. -/
def chunkReadAll : List ChunkCall → Run Chunk (List ChunkAnswer)
  | [] => pure []
  | call :: calls => do
    let answer ← onPosition call.read
    let answers ← chunkReadAll calls
    pure (answer :: answers)

def chunkFill (around : Surroundings) (ops : List ChunkOp) : Run Chunk Unit := do
  chunkStartWrite around
  chunkWriteAll around ops

def chunkFillAndRead (around : Surroundings) (ops : List ChunkOp) : Run Chunk (List ChunkAnswer) := do
  chunkFill around ops
  chunkClose
  chunkStartRead
  chunkReadAll (ops.map ChunkOp.call)

/-- The reads give the values, and leave the position at the end of the data. -/
def ChunkReadsBack (around : Surroundings) (c : Chunk) (ops : List ChunkOp) : Prop :=
  ∃ c', (chunkFillAndRead around ops).run c = (.ok (ops.map ChunkOp.answer),c') ∧
    c'.parserState.map ParserState.currentPos = some c'.dataSize

section Calls
variable {around : Surroundings} {c c' : Chunk} {data spare : List UInt32} {pos next : Nat}

theorem chunkWriteString_success {chars : List UInt8} (filling : Filling c)
    (ok : (chunkWriteString around (some chars)).run c = (.ok (),c')) :
    ∃ words, Fills c c' (UInt32.ofNat (chars ++ [0]).length :: words) ∧ Packs words (chars ++ [0]) :=
  storeCounted_success filling ok

theorem nullString_success (filling : Filling c) (ok : (chunkWriteString around none).run c = (.ok (),c')) :
    Fills c c' [0] := by
  obtain ⟨words,fills,packs⟩ : ∃ words, Fills c c' (0 :: words) ∧ Packs words [] := storeCounted_success filling ok
  obtain rfl := List.length_eq_zero_iff.mp packs.1
  exact fills

theorem chunkWriteBuffer_success {source : List UInt8} (filling : Filling c)
    (ok : (chunkWriteBuffer around (some source) source.length).run c = (.ok (),c')) :
    ∃ words, Fills c c' (UInt32.ofNat source.length :: words) ∧ Packs words source :=
  storeCounted_success filling ok

/-- An accepted write leaves as many words as the value takes, and they read as the value if it fits. -/
theorem ChunkOp.write_success (op : ChunkOp) (filling : Filling c) (ok : (op.write around).run c = (.ok (),c')) :
    ∃ words, Fills c c' words ∧ words.length = op.size ∧
      (op.Fits → ∀ data spare, Reads data (op.call.read data spare) words op.answer) := by
  have entries {α : Type} {write : α → Run Chunk Unit} (word : α → UInt32) {values : List α}
      (each : ∀ (c c' : Chunk) a, Filling c → (write a).run c = (.ok (),c') → Fills c c' [word a])
      (ok : (writeCounted around write (some values) values.length).run c = (.ok (),c')) :
      Fills c c' (UInt32.ofNat values.length :: values.map word) ∧
        (UInt32.ofNat values.length :: values.map word).length = 1 + values.length :=
    ⟨writeCounted_success each filling ok,by rw [List.length_cons,List.length_map,Nat.add_comm]⟩
  cases op with
  | byte value => exact ⟨_,writeWords_success filling ok,rfl,fun _ _ _ => reads_answered (reads_chunkReadByte value)⟩
  | word value => exact ⟨_,writeWords_success filling ok,rfl,fun _ _ _ => reads_answered (reads_chunkReadWord value)⟩
  | int value => exact ⟨_,writeWords_success filling ok,rfl,fun _ _ _ => reads_answered (reads_chunkReadInt _)⟩
  | dword value => exact ⟨_,writeWords_success filling ok,rfl,fun _ _ _ => reads_answered (reads_chunkReadDword value)⟩
  | float bits => exact ⟨_,writeWords_success filling ok,rfl,fun _ _ _ => reads_answered (reads_chunkReadFloat bits)⟩
  | guid value => exact ⟨_,writeWords_success filling ok,rfl,fun _ _ _ => reads_answered (reads_chunkReadGuid value)⟩
  | objectId id | objectSequenceItem id =>
    exact ⟨_,writeObjectId_success filling ok,rfl,fun _ _ _ => reads_answered (reads_chunkReadObjectId id)⟩
  | managerInt managerGuid value =>
    exact ⟨_,writeManagerInt_success filling ok,rfl,fun _ _ _ =>
      reads_answered (reads_chunkReadManagerInt managerGuid value)⟩
  | objectSequenceStart count =>
    exact ⟨_,writeObjectSequenceStart_success filling ok,rfl,fun fits _ _ =>
      reads_answered (reads_sequenceStart count fits)⟩
  | startManagerSequence managerGuid count =>
    exact ⟨_,startManagerSequence_success filling ok,rfl,fun fits _ _ =>
      reads_answered (reads_managerSequence managerGuid count fits)⟩
  | string str =>
    cases str with
    | none => exact ⟨_,nullString_success filling ok,rfl,fun _ _ _ => reads_answered reads_nullString⟩
    | some chars =>
      obtain ⟨words,fills,packs⟩ := chunkWriteString_success filling ok
      have length := packs.1
      rw [List.length_append] at length
      refine ⟨_,fills,?_,fun fits _ _ => reads_answered (reads_chunkReadString packs fits)⟩
      rw [List.length_cons,length,Nat.add_comm]
      rfl
  | buffer source =>
    obtain ⟨words,fills,packs⟩ := chunkWriteBuffer_success filling ok
    refine ⟨_,fills,?_,fun fits _ _ => reads_answered (reads_chunkReadBuffer packs fits)⟩
    rw [List.length_cons,packs.1,Nat.add_comm]
    rfl
  | intArray values =>
    obtain ⟨fills,length⟩ := entries Int32.toUInt32 (fun _ _ _ => writeWords_success) ok
    exact ⟨_,fills,length,fun fits _ _ =>
      reads_answered (reads_readCounted (fun value => reads_chunkReadInt value.toUInt32) (by decide) values fits)⟩
  | floatArray values =>
    obtain ⟨fills,length⟩ := entries id (fun _ _ _ => writeWords_success) ok
    exact ⟨_,fills,length,fun fits _ _ => reads_answered (reads_readCounted reads_chunkReadFloat (by decide) values fits)⟩
  | dwordArray values =>
    obtain ⟨fills,length⟩ := entries id (fun _ _ _ => writeWords_success) ok
    exact ⟨_,fills,length,fun fits _ _ => reads_answered (reads_readCounted reads_chunkReadDword (by decide) values fits)⟩
  | byteArray values =>
    obtain ⟨fills,length⟩ := entries UInt8.toUInt32 (fun _ _ _ => writeWords_success) ok
    exact ⟨_,fills,length,fun fits _ _ => reads_answered (reads_readCounted reads_chunkReadByte (by decide) values fits)⟩
  | objectIdArray ids =>
    obtain ⟨fills,length⟩ := entries id (fun _ _ _ => writeObjectId_success) ok
    exact ⟨_,fills,length,fun fits _ _ =>
      reads_answered (reads_readCounted reads_chunkReadObjectId (by decide) ids fits)⟩

/-- A read that gives the value takes no more words than the value has, and fewer where the value does not fit. -/
theorem ChunkOp.read_moves (op : ChunkOp) (run : (op.call.read data spare).run pos = (.ok op.answer,next)) :
    next ≤ pos + op.size ∧ (¬ op.Fits → next < pos + op.size) := by
  have counted {α : Type} {elemSize : Nat} {message : String} {read : Run Nat α} {found : Option (List α) × Nat}
      {count : Nat} (moves : Advances 1 read) (size : elemSize = 1 ∨ elemSize = 4)
      (ran : (readCounted data elemSize message read).run pos = (.ok found,next)) (same : count = found.2) :
      next ≤ pos + (1 + count) ∧ (¬ count < 2 ^ 31 → next < pos + (1 + count)) := by
    obtain ⟨small,moved⟩ := readCounted_success moves size ran
    rw [same]
    exact ⟨moved,fun large => absurd small large⟩
  cases op with
  | byte _ => exact ⟨advances_map _ advances_chunkReadByte _ _ _ run,(absurd trivial ·)⟩
  | word _ => exact ⟨advances_map _ advances_chunkReadWord _ _ _ run,(absurd trivial ·)⟩
  | int _ => exact ⟨advances_map _ advances_chunkReadInt _ _ _ run,(absurd trivial ·)⟩
  | dword _ => exact ⟨advances_map _ advances_chunkReadDword _ _ _ run,(absurd trivial ·)⟩
  | float _ => exact ⟨advances_map _ advances_chunkReadFloat _ _ _ run,(absurd trivial ·)⟩
  | guid _ => exact ⟨advances_map _ advances_chunkReadGuid _ _ _ run,(absurd trivial ·)⟩
  | objectId _ | objectSequenceItem _ =>
    exact ⟨advances_map _ advances_chunkReadObjectId _ _ _ run,(absurd trivial ·)⟩
  | managerInt _ _ => exact ⟨advances_map _ advances_chunkReadManagerInt _ _ _ run,(absurd trivial ·)⟩
  | objectSequenceStart count =>
    obtain ⟨found,ran,same⟩ := answered_success run
    obtain rfl := ChunkAnswer.count.inj same
    obtain ⟨fits,moved⟩ := chunkReadObjectSequenceStart_success ran
    exact ⟨moved,fun misfit => absurd fits misfit⟩
  | startManagerSequence managerGuid count =>
    obtain ⟨found,ran,same⟩ := answered_success run
    obtain ⟨small,moved⟩ := chunkStartManagerReadSequence_success ran
    rw [← (ChunkAnswer.managerSequence.inj same).2] at small
    exact ⟨moved,fun misfit => absurd small misfit⟩
  | string str =>
    obtain ⟨found,ran,same⟩ := answered_success run
    obtain ⟨small,moved⟩ := chunkReadString_success ran
    cases str with
    | none =>
      rw [← (ChunkAnswer.bytes.inj same).1] at moved
      exact ⟨moved,(absurd trivial ·)⟩
    | some chars =>
      rw [← (ChunkAnswer.bytes.inj same).1,Option.getD_some,List.length_append,List.length_singleton] at small moved
      simp only [ChunkOp.Fits,ChunkOp.size]
      omega
  | buffer source =>
    obtain ⟨found,ran,same⟩ := answered_success run
    obtain ⟨small,moved⟩ := chunkReadBuffer_success ran
    rw [← (ChunkAnswer.bytes.inj same).2] at small moved
    simp only [ChunkOp.Fits,ChunkOp.size]
    omega
  | intArray values =>
    obtain ⟨found,ran,same⟩ := answered_success run
    exact counted advances_chunkReadInt (.inr rfl) ran (ChunkAnswer.ints.inj same).2
  | floatArray values =>
    obtain ⟨found,ran,same⟩ := answered_success run
    exact counted advances_chunkReadFloat (.inr rfl) ran (ChunkAnswer.dwords.inj same).2
  | dwordArray values =>
    obtain ⟨found,ran,same⟩ := answered_success run
    exact counted advances_chunkReadDword (.inr rfl) ran (ChunkAnswer.dwords.inj same).2
  | objectIdArray ids =>
    obtain ⟨found,ran,same⟩ := answered_success run
    exact counted advances_chunkReadObjectId (.inr rfl) ran (ChunkAnswer.dwords.inj same).2
  | byteArray values =>
    obtain ⟨found,ran,same⟩ := answered_success run
    exact counted advances_chunkReadByte (.inl rfl) ran (ChunkAnswer.bytes.inj same).2

end Calls

/-- The reads over the data from a position. -/
def readEach (data spare : List UInt32) : List ChunkCall → Run Nat (List ChunkAnswer)
  | [] => pure []
  | call :: calls => do
    let answer ← call.read data spare
    let answers ← readEach data spare calls
    pure (answer :: answers)

section Runs
variable {around : Surroundings} {c c' : Chunk} {data spare : List UInt32} {pos next : Nat}

theorem chunkWriteAll_success (ops : List ChunkOp) (filling : Filling c)
    (ok : (chunkWriteAll around ops).run c = (.ok (),c')) :
    ∃ words, Fills c c' words ∧ words.length = (ops.map ChunkOp.size).sum ∧ ((∀ op ∈ ops, op.Fits) →
      ∀ data spare, Reads data (readEach data spare (ops.map ChunkOp.call)) words (ops.map ChunkOp.answer)) := by
  induction ops generalizing c with
  | nil =>
    simp only [chunkWriteAll,Action.pure_apply,Prod.mk.injEq,true_and] at ok
    subst ok
    exact ⟨[],filling.fills,rfl,fun _ _ _ => reads_pure []⟩
  | cons op ops ih =>
    obtain ⟨_,c₁,first,ok⟩ := Action.bind_success ok
    obtain ⟨words,head,size,reads⟩ := op.write_success filling first
    obtain ⟨others,tail,sizes,readsOthers⟩ := ih head.filling ok
    refine ⟨words ++ others,head.trans tail,?_,fun fits data spare => ?_⟩
    · rw [List.length_append,size,sizes,List.map_cons,List.sum_cons]
    · have rest := readsOthers (fun other member => fits other (by simp [member])) data spare
      exact reads_bind (reads (fits op (by simp)) data spare) (reads_return (f := (op.answer :: ·)) rest)

/-- Reads that give all the values end with them, unless one of the values does not fit. -/
theorem readEach_moves (ops : List ChunkOp)
    (run : (readEach data spare (ops.map ChunkOp.call)).run pos = (.ok (ops.map ChunkOp.answer),next)) :
    next ≤ pos + (ops.map ChunkOp.size).sum ∧
      ((∃ op ∈ ops, ¬ op.Fits) → next < pos + (ops.map ChunkOp.size).sum) := by
  induction ops generalizing pos with
  | nil =>
    simp only [List.map_nil,readEach,Action.pure_apply,Prod.mk.injEq,true_and] at run
    exact ⟨by simp [run],by simp⟩
  | cons op ops ih =>
    obtain ⟨answer,middle,first,run⟩ := Action.bind_success run
    obtain ⟨answers,ran,same⟩ := return_success run
    rw [List.map_cons,List.cons.injEq] at same
    obtain ⟨rfl,rfl⟩ := same
    obtain ⟨moved,short⟩ := op.read_moves first
    obtain ⟨others,shorter⟩ := ih ran
    rw [List.map_cons,List.sum_cons]
    refine ⟨by omega,?_⟩
    rintro ⟨misfit,member,bad⟩
    rcases List.mem_cons.mp member with rfl | inside
    · have less := short bad
      omega
    · have less := shorter ⟨misfit,inside,bad⟩
      omega

theorem setPos_same {state : ParserState} (reading : c.parserState = some state) : c.setPos state.currentPos = c := by
  cases c
  dsimp only at reading
  subst reading
  rfl

theorem setPos_setPos (c : Chunk) (pos next : Nat) : (c.setPos pos).setPos next = c.setPos next := by
  simp only [Chunk.setPos,Option.map_map]
  rfl

/-- The reads of a chunk move its position and change nothing else. -/
theorem chunkReadAll_run (calls : List ChunkCall) (state : ParserState) (reading : c.parserState = some state) :
    (chunkReadAll calls).run c = (((readEach c.words c.spare calls).run state.currentPos).1,
      c.setPos ((readEach c.words c.spare calls).run state.currentPos).2) := by
  induction calls generalizing c state with
  | nil =>
    exact Prod.ext rfl (setPos_same reading).symm
  | cons call calls ih =>
    have step : (onPosition call.read).run c = (((call.read c.words c.spare).run state.currentPos).1,
        c.setPos ((call.read c.words c.spare).run state.currentPos).2) := by
      simp only [onPosition,reading]
    rcases run : (call.read c.words c.spare).run state.currentPos with ⟨_ | answer,middle⟩
    · rw [run] at step
      rw [chunkReadAll,readEach,Action.bind_error _ step,Action.bind_error _ run]
    · rw [run] at step
      have moved : (c.setPos middle).parserState = some { state with currentPos := middle } := by
        simp only [Chunk.setPos,reading,Option.map_some]
      have rest := ih _ moved
      rw [setPos_setPos] at rest
      rw [chunkReadAll,readEach,Action.bind_ok _ step,Action.bind_ok _ run]
      change (chunkReadAll calls).run (c.setPos middle) = (((readEach c.words c.spare calls).run middle).1,
        c.setPos ((readEach c.words c.spare calls).run middle).2) at rest
      rcases ran : (readEach c.words c.spare calls).run middle with ⟨_ | answers,stop⟩
      · rw [ran] at rest
        rw [Action.bind_error _ rest,Action.bind_error _ ran]
      · rw [ran] at rest
        rw [Action.bind_ok _ rest,Action.bind_ok _ ran]
        rfl

theorem chunkClose_filling (filling : Filling c) : chunkClose.run c = (.ok (),c) := by
  obtain ⟨state,found,pos⟩ := filling.state
  have kept : ensureParserState.run c = (.ok (),c) := by
    cases c
    dsimp only at found
    subst found
    rfl
  rw [chunkClose,chunkUpdateDataSize,Action.bind_ok _ kept]
  simp only [found,pos,Nat.le_refl,if_true]

theorem chunkFill_success {ops : List ChunkOp} (ok : (chunkFill around ops).run c = (.ok (),c')) :
    Filling c' ∧ c'.dataSize = (ops.map ChunkOp.size).sum ∧ ((∀ op ∈ ops, op.Fits) → ∀ data spare,
      Reads data (readEach data spare (ops.map ChunkOp.call)) c'.words (ops.map ChunkOp.answer)) := by
  obtain ⟨_,c₁,started,ok⟩ := Action.bind_success ok
  obtain ⟨filling,empty⟩ := startWrite_success started
  obtain ⟨words,fills,size,reads⟩ := chunkWriteAll_success ops filling ok
  have whole : c'.words = words := by rw [fills.words,empty,List.nil_append]
  rw [Chunk.dataSize,whole]
  exact ⟨fills.filling,size,reads⟩

/-- What the reads of a filled chunk give, and where they end. -/
theorem chunkFillAndRead_run {ops : List ChunkOp} (ok : (chunkFill around ops).run c = (.ok (),c')) :
    (chunkFillAndRead around ops).run c =
      (((readEach c'.words c'.spare (ops.map ChunkOp.call)).run 0).1,
        { c' with parserState := some ⟨((readEach c'.words c'.spare (ops.map ChunkOp.call)).run 0).2,0⟩ }) := by
  have closed := chunkClose_filling (chunkFill_success ok).1
  have started : chunkStartRead.run c' = (.ok (),{ c' with parserState := some {} }) := rfl
  rw [chunkFillAndRead,Action.bind_ok _ ok,Action.bind_ok _ closed,Action.bind_ok _ started,chunkReadAll_run _ {} rfl]
  rfl

end Runs

section Whole

/-- Writes that were accepted are read back exactly when every value fits. -/
theorem chunkReadsBack_iff (around : Surroundings) (c : Chunk) (ops : List ChunkOp)
    (accepted : ((chunkFill around ops).run c).1 = .ok ()) :
    ChunkReadsBack around c ops ↔ ∀ op ∈ ops, op.Fits := by
  obtain ⟨c',ok⟩ : ∃ c', (chunkFill around ops).run c = (.ok (),c') := ⟨_,Prod.ext accepted rfl⟩
  obtain ⟨_,size,reads⟩ := chunkFill_success ok
  rw [ChunkReadsBack,chunkFillAndRead_run ok]
  constructor
  · rintro ⟨c'',run,ends⟩ op member
    by_contra misfit
    rw [Prod.mk.injEq] at run
    obtain ⟨given,rfl⟩ := run
    have moved : ((readEach c'.words c'.spare (ops.map ChunkOp.call)).run 0).2 < 0 + (ops.map ChunkOp.size).sum :=
      (readEach_moves ops (Prod.ext given rfl)).2 ⟨op,member,misfit⟩
    have last : ((readEach c'.words c'.spare (ops.map ChunkOp.call)).run 0).2 = c'.dataSize := Option.some.inj ends
    omega
  · intro fits
    obtain ⟨next,run,ahead⟩ := reads fits c'.words c'.spare 0 [] (by rw [List.append_nil]; exact ahead_start c'.words)
    rw [run]
    exact ⟨_,rfl,congrArg some ahead.length_eq.symm⟩

theorem chunkReadsBack_sample : ChunkReadsBack {} chunkCreate
    [.string (some [104,105]),.byte 7,.intArray [1,-2,3],.buffer (List.replicate 300 5),.managerInt ⟨1,2⟩ 9,
      .startManagerSequence ⟨3,4⟩ (2 ^ 31)] :=
  (chunkReadsBack_iff {} chunkCreate _ (by decide +kernel)).mpr (by
    simp only [List.forall_mem_cons,ChunkOp.Fits,List.length_replicate,List.not_mem_nil,false_implies,implies_true]
    decide)

/-- The count of a sequence has its sign extended on the way back. -/
theorem sequenceCount_lost : ((chunkFill {} [.objectSequenceStart (2 ^ 31)]).run chunkCreate).1 = .ok () ∧
    ¬ ChunkReadsBack {} chunkCreate [.objectSequenceStart (2 ^ 31)] := by
  refine ⟨rfl,?_⟩
  rintro ⟨c',run,_⟩
  obtain ⟨c₁,ok⟩ : ∃ c₁, (chunkFill {} [.objectSequenceStart (2 ^ 31)]).run chunkCreate = (.ok (),c₁) := ⟨_,Prod.ext rfl rfl⟩
  rw [chunkFillAndRead_run ok,Prod.mk.injEq] at run
  obtain ⟨answer,_,first,rest⟩ := Action.bind_success (Prod.ext run.1 rfl)
  obtain ⟨answers,_,same⟩ := return_success rest
  obtain ⟨count,ran,given⟩ := answered_success first
  rw [given] at same
  have wanted : 2 ^ 31 = count := ChunkAnswer.count.inj (List.cons.inj same).1
  have fits := (chunkReadObjectSequenceStart_success ran).1
  rw [← wanted] at fits
  exact absurd fits (by rw [IntCount]; decide)

end Whole

end Libnmo.Format
