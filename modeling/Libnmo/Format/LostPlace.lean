import Libnmo.Format.ReadStops

/-! Where a parser stands after an error, for every call. Nothing but the cursor moves:
the counters of the sequences are set after the last check, and a seek that fails has
changed nothing. -/
namespace Libnmo.Format
open Core Lib Lib.Action Lib.Cursor

/-- The cursor and the sequence counters are the same. -/
structure SamePlace (p p' : ChunkParser) : Prop where
  cursor : p'.cursor = p.cursor
  objects : p'.objectSequenceRemaining = p.objectSequenceRemaining
  managers : p'.managerSequenceRemaining = p.managerSequenceRemaining
  subchunks : p'.subchunkSequenceRemaining = p.subchunkSequenceRemaining

/-- The answers that stand for an error where there is no code for it: no manager, no value of a sequence, and
no array for a header that is not that of an empty one. -/
def ErrorAnswer (p : ChunkParser) : ParserOp → ParserAnswer → Prop
  | .managerInt,.managerInt none _ => True
  | .managerIntSequence,.int _ =>
    ¬ (p.inManagerSequence ∧ p.managerSequenceRemaining ≠ 0 ∧ p.cursor < p.chunk.dataSize)
  | .arrayLendian,.array none _ =>
    ∀ size count rest, p.chunk.words.drop p.cursor = size :: count :: rest → size ≠ 0 ∧ count ≠ 0
  | _,_ => False

/-- The call comes back with an error. -/
def Fails (p : ChunkParser) (op : ParserOp) (p' : ChunkParser) : Prop :=
  StopsAt Reported (parserStep op) p p' ∨ ∃ answer, (parserStep op).run p = (.ok answer,p') ∧ ErrorAnswer p op answer

/-- After an error the parser stands where it stood. -/
def RestoresPlace (p : ChunkParser) (op : ParserOp) : Prop := ∀ p', Fails p op p' → SamePlace p p'

/-- The calls that take a word or more and then find the rest missing. -/
def LosesPlace (p : ChunkParser) : ParserOp → Prop
  | .dwordAsWords => 0 < (p.chunk.words.drop p.cursor).length ∧ (p.chunk.words.drop p.cursor).length < 2
  | .dwordArrayAsWords count =>
    0 < (p.chunk.words.drop p.cursor).length ∧ (p.chunk.words.drop p.cursor).length < count * 2
  | .bufferNosizeLendian16 valueCount =>
    0 < (p.chunk.words.drop p.cursor).length ∧ (p.chunk.words.drop p.cursor).length < valueCount * 1
  | .string => ∃ length rest, p.chunk.words.drop p.cursor = length :: rest ∧
    (length + 1 = 0 ∨ rest.length < alignDword length.toNat / 4)
  | .buffer => ∃ bufSize rest, p.chunk.words.drop p.cursor = bufSize :: rest ∧ rest.length < alignDword bufSize.toNat / 4
  | .arrayLendian => ∃ size count rest, p.chunk.words.drop p.cursor = size :: count :: rest ∧ size ≠ 0 ∧ count ≠ 0 ∧
    BadArray p.chunk.words (p.cursor + 2) size.toInt32 count.toInt32
  | .arrayLendian16 => ∃ sizeBytes rest, p.chunk.words.drop p.cursor = sizeBytes :: rest ∧
    (rest = [] ∨ ∃ elementCount rest', rest = elementCount :: rest' ∧ sizeBytes ≠ 0 ∧ elementCount ≠ 0 ∧
      rest'.length < alignDword sizeBytes.toNat / 4)
  | .subchunk => ¬ (p.inSubchunkSequence ∧ p.subchunkSequenceRemaining = 0) ∧
    ∃ size rest, p.chunk.words.drop p.cursor = size :: rest ∧ size ≠ 0 ∧
      ¬ (size.toNat ≤ rest.length ∧ ∃ count, countedWords rest = some count ∧ count ≤ rest.length)
  | _ => False

section Calls
variable {p : ChunkParser} {α : Type}

theorem SamePlace.refl (p : ChunkParser) : SamePlace p p := ⟨rfl,rfl,rfl,rfl⟩

/-- An error code of the action comes where it started. -/
def Restores (action : Run ChunkParser α) (p : ChunkParser) : Prop := ∀ p', StopsAt Reported action p p' → SamePlace p p'

theorem restores_answering {answer : α → ParserAnswer} {action : Run ChunkParser α} :
    Restores (answering answer action) p ↔ Restores action p := by
  simp only [Restores,answering,stopsAt_map]

theorem restores_onCursor {action : List UInt32 → Run Nat α} :
    Restores (onCursor action) p ↔ KeepsPlace (action p.chunk.words) p.cursor := by
  constructor
  · rintro restores stop ⟨e,reported,ran⟩
    have stopped : StopsAt Reported (onCursor action) p { p with cursor := stop } :=
      ⟨e,reported,by simp only [onCursor,ran]⟩
    exact (restores _ stopped).cursor
  · rintro keeps p' ⟨e,reported,ran⟩
    rw [onCursor] at ran
    obtain ⟨failed,rfl⟩ := Prod.mk.inj ran
    refine ⟨keeps _ ⟨e,reported,?_⟩,rfl,rfl,rfl⟩
    rw [← failed]

theorem restores_reading {answer : α → ParserAnswer} {action : List UInt32 → Run Nat α} :
    Restores (reading answer action) p ↔ KeepsPlace (action p.chunk.words) p.cursor := by
  rw [reading,restores_onCursor]
  simp only [KeepsPlace,answering,stopsAt_map]

/-- The action has no error to report. -/
def Sure {σ : Type} (action : Run σ α) : Prop := ∀ s t, ¬ StopsAt Reported action s t

theorem sure_pure {σ : Type} (value : α) : Sure (pure value : Run σ α) := fun _ _ => not_stopsAt_pure value

theorem sure_read {σ : Type} (f : σ → α) : Sure (Action.read f) := fun _ _ => not_stopsAt_read f

theorem sure_update {σ : Type} (f : σ → σ) : Sure (Action.update f : Run σ Unit) := fun _ _ => not_stopsAt_update f

theorem sure_bind {σ β : Type} {first : Run σ α} {next : α → Run σ β} (head : Sure first) (tail : ∀ value, Sure (next value)) :
    Sure (first >>= next) := by
  intro s t stopped
  rcases stopsAt_bind.mp stopped with early | ⟨value,between,_,later⟩
  · exact head s t early
  · exact tail value between t later

theorem restores_sure {action : Run ChunkParser α} (sure : Sure action) : Restores action p :=
  fun p' stopped => absurd stopped (sure p p')

/-- Only the first action has errors. -/
theorem restores_first {β : Type} {first : Run ChunkParser α} {next : α → Run ChunkParser β} (head : Restores first p)
    (tail : ∀ value, Sure (next value)) : Restores (first >>= next) p := by
  intro p' stopped
  rcases stopsAt_bind.mp stopped with early | ⟨value,between,_,later⟩
  · exact head p' early
  · exact absurd later (tail value between p')

theorem restores_dword : Restores (onCursor parserDword) p := restores_onCursor.mpr stays_dword

theorem restores_objectId : Restores parserObjectId p :=
  restores_first restores_dword fun _ => sure_bind (sure_read _) fun _ => sure_bind (sure_update _) fun _ => sure_pure _

theorem restores_startObjectSequence : Restores parserStartObjectSequence p :=
  restores_first restores_dword fun _ => sure_bind (sure_update _) fun _ => sure_pure _

theorem restores_startReadSequence : Restores parserStartReadSequence p :=
  restores_first restores_dword fun _ => sure_bind (sure_update _) fun _ => sure_pure _

/-- One check for all that the action takes. -/
theorem restores_checked {dwordsNeeded : Nat} {next : Run ChunkParser α}
    (sure : p.cursor + dwordsNeeded ≤ p.chunk.words.length → ∃ value p', next.run p = (.ok value,p')) :
    Restores ((onCursor fun data => checkBounds data dwordsNeeded) >>= fun _ => next) p := by
  by_cases room : p.cursor + dwordsNeeded ≤ p.chunk.words.length
  · have passed : (onCursor fun data => checkBounds data dwordsNeeded).run p = (.ok (),p) := by
      simp only [onCursor,checkBounds,if_pos room]
    obtain ⟨value,after,whole⟩ := sure room
    exact fun p' stopped => absurd ((stopsAt_after passed).mp stopped) (not_stopsAt_ok whole p')
  · have refused : (onCursor fun data => checkBounds data dwordsNeeded).run p = (.error (.error .eof ""),p) := by
      simp only [onCursor,checkBounds,if_neg room]
    intro p' stopped
    rw [((stopsAt_error (Action.bind_error _ refused)).mp stopped).2]
    exact SamePlace.refl p

theorem onCursor_dword {word : UInt32} {rest : List UInt32} (ahead : Ahead p.chunk.words p.cursor (word :: rest)) :
    (onCursor parserDword).run p = (.ok word,{ p with cursor := p.cursor + 1 }) := by
  simp only [onCursor,dword_run ahead]

theorem drop_of_room {words : List UInt32} {pos count : Nat} (room : pos + (count + 1) ≤ words.length) :
    ∃ word rest, Ahead words pos (word :: rest) ∧ pos + 1 + count ≤ words.length := by
  have inside : pos < words.length := by omega
  exact ⟨_,_,⟨Nat.le_of_lt inside,List.drop_eq_getElem_cons inside⟩,by omega⟩

theorem restores_startManagerSequence : Restores parserStartManagerSequence p := by
  refine restores_checked fun room => ?_
  obtain ⟨count,_,first,room⟩ := drop_of_room room
  obtain ⟨d1,_,second,room⟩ := drop_of_room room
  obtain ⟨d2,_,third,_⟩ := drop_of_room room
  rw [Action.bind_ok _ (onCursor_dword first),Action.bind_ok _ (onCursor_dword (p := { p with cursor := p.cursor + 1 }) second),
    Action.bind_ok _ (onCursor_dword (p := { p with cursor := p.cursor + 1 + 1 }) third)]
  exact ⟨_,_,rfl⟩

theorem restores_identifier : Restores parserReadIdentifier p := by
  refine restores_checked fun room => ?_
  obtain ⟨word,_,first,_⟩ := drop_of_room room
  rw [Action.bind_ok _ (Action.update_apply _ p),
    Action.bind_ok _ (onCursor_dword (p := { p with prevIdentifierPos := p.cursor }) first)]
  exact ⟨_,_,rfl⟩

theorem restores_seekIdentifier (identifier : UInt32) : Restores (parserSeekIdentifier identifier) p := by
  rintro p' ⟨e,_,ran⟩
  rcases parserSeekIdentifier_cases identifier p with ⟨k,_,run⟩ | ⟨_,stop,run⟩
  · rw [run] at ran
    simp at ran
  · rw [run] at ran
    rw [← (Prod.mk.inj ran).2]
    exact SamePlace.refl p

theorem restores_seekWithSize (identifier : UInt32) : Restores (parserSeekIdentifierWithSize identifier) p :=
  restores_first (restores_seekIdentifier identifier) fun _ => sure_read _

theorem restores_seek (pos : Nat) : Restores (parserSeek pos) p := by
  rintro p' ⟨e,_,ran⟩
  rw [parserSeek] at ran
  dsimp only at ran
  split at ran
  · rw [← (Prod.mk.inj ran).2]
    exact SamePlace.refl p
  · simp at ran

theorem restores_skip (dwords : Nat) : Restores (parserSkip dwords) p := by
  rintro p' ⟨e,_,ran⟩
  rw [parserSkip] at ran
  dsimp only at ran
  split at ran
  · rw [← (Prod.mk.inj ran).2]
    exact SamePlace.refl p
  · simp at ran

/-- Ends of the action are reported, and it does not go back. -/
def EndsOnward (action : Run Nat α) : Prop :=
  Onward action ∧ ∀ pos e stop, action.run pos = (.error e,stop) → Reported e ∧ pos ≤ stop

theorem endsOnward_bind {β : Type} {first : Run Nat α} {next : α → Run Nat β} (head : EndsOnward first)
    (tail : ∀ value, EndsOnward (next value)) : EndsOnward (first >>= next) := by
  refine ⟨onward_bind head.1 fun value => (tail value).1,fun pos e stop ran => ?_⟩
  cases start : first.run pos with
  | mk outcome between =>
    cases outcome with
    | ok value =>
      rw [Action.bind_ok _ start] at ran
      obtain ⟨reported,after⟩ := (tail value).2 _ _ _ ran
      exact ⟨reported,Nat.le_trans (head.1 _ _ _ start) after⟩
    | error e' =>
      rw [Action.bind_error _ start] at ran
      rw [Prod.mk.injEq,Except.error.injEq] at ran
      rw [← ran.1,← ran.2]
      exact head.2 _ _ _ start

theorem endsOnward_pure (value : α) : EndsOnward (pure value) := by
  refine ⟨onward_pure value,fun pos e stop ran => ?_⟩
  simp at ran

theorem endsOnward_dword {data : List UInt32} : EndsOnward (parserDword data) := by
  refine ⟨fun pos word next ran => ?_,fun pos e stop ran => ?_⟩
  · rw [(dword_success ran).2]
    exact Nat.le_succ pos
  · have walks : Walks data 1 (parserDword data) := walks_dword
    rcases walks pos with ⟨_,_,whole⟩ | ⟨_,ended⟩
    · rw [whole] at ran
      simp at ran
    · rw [ended,Prod.mk.injEq,Except.error.injEq] at ran
      rw [← ran.1,← ran.2]
      exact ⟨reported_error _ _,Nat.le_add_right _ _⟩

theorem endsOnward_checkBounds {data : List UInt32} (dwordsNeeded : Nat) : EndsOnward (checkBounds data dwordsNeeded) := by
  refine ⟨fun pos value next ran => Nat.le_of_eq (checkBounds_success ran).1.symm,fun pos e stop ran => ?_⟩
  rw [checkBounds] at ran
  dsimp only at ran
  split at ran
  · simp at ran
  · rw [Prod.mk.injEq,Except.error.injEq] at ran
    rw [← ran.1,← ran.2]
    exact ⟨reported_error _ _,Nat.le_refl _⟩

theorem endsOnward_dwords {data : List UInt32} (count : UInt32) : EndsOnward (parserDwords data count) := by
  rw [parserDwords]
  split
  · refine endsOnward_bind (endsOnward_checkBounds _) fun _ => ⟨fun pos value next ran => ?_,fun pos e stop ran => ?_⟩
    · rw [← (Prod.mk.inj ran).2]
      exact Nat.le_add_right _ _
    · simp at ran
  · exact endsOnward_pure []

theorem endsOnward_managerCount {data : List UInt32} (chunkVersion : UInt32) :
    EndsOnward (parserManagerCount data chunkVersion) := by
  rw [parserManagerCount]
  split
  · exact endsOnward_dword
  · exact endsOnward_pure 0

theorem endsOnward_subchunkBody {data : List UInt32} (sizeDwords : UInt32) : EndsOnward (readSubchunkBody data sizeDwords) :=
  endsOnward_bind (endsOnward_checkBounds _) fun _ => endsOnward_bind endsOnward_dword fun _ =>
    endsOnward_bind endsOnward_dword fun _ => endsOnward_bind endsOnward_dword fun _ =>
    endsOnward_bind endsOnward_dword fun _ => endsOnward_bind endsOnward_dword fun _ =>
    endsOnward_bind endsOnward_dword fun _ => endsOnward_bind (endsOnward_managerCount _) fun _ =>
    endsOnward_bind (endsOnward_dwords _) fun _ => endsOnward_bind (endsOnward_dwords _) fun _ =>
    endsOnward_bind (endsOnward_dwords _) fun _ => endsOnward_bind (endsOnward_dwords _) fun _ => endsOnward_pure _

theorem restores_subchunk : Restores parserReadSubchunk p ↔ ¬ LosesPlace p .subchunk := by
  rw [LosesPlace]
  by_cases slot : p.inSubchunkSequence ∧ p.subchunkSequenceRemaining = 0
  · have refused : requireSubchunkSlot.run p = (.error (.error .eof ""),p) := by
      simp only [requireSubchunkSlot,if_pos slot]
    refine iff_of_true (fun p' stopped => ?_) fun loses => loses.1 slot
    rw [((stopsAt_error (Action.bind_error _ refused)).mp stopped).2]
    exact SamePlace.refl p
  · rw [and_iff_right slot]
    have free : requireSubchunkSlot.run p = (.ok (),p) := by simp only [requireSubchunkSlot,if_neg slot]
    cases start : p.chunk.words.drop p.cursor with
    | nil =>
      refine iff_of_true (fun p' stopped => ?_) (by rintro ⟨_,_,same,_⟩; simp at same)
      rcases stopsAt_bind.mp ((stopsAt_after free).mp stopped) with early | ⟨size,_,ran,_⟩
      · exact restores_dword p' early
      · have read := (dword_success (Prod.ext (Prod.mk.inj ran).1 rfl)).1
        rw [List.getElem?_eq_none (List.drop_eq_nil_iff.mp start)] at read
        simp at read
    | cons size rest =>
      have ahead := ahead_of_drop start
      have whole := ahead.length_eq
      rw [List.length_cons] at whole
      by_cases null : size = 0
      · subst null
        refine iff_of_true (fun p' stopped => ?_) ?_
        · exact absurd stopped (not_stopsAt_ok (readSubchunk_null slot start) p')
        · rintro ⟨_,_,same,some,_⟩
          exact some (List.cons.inj same).1.symm
      · cases body : (readSubchunkBody p.chunk.words size).run (p.cursor + 1) with
        | mk outcome stop =>
          cases outcome with
          | ok sub =>
            refine iff_of_true (fun p' stopped => ?_) ?_
            · exact absurd stopped (not_stopsAt_ok (readSubchunk_taken slot start null body) p')
            · rintro ⟨_,_,same,_,unfit⟩
              obtain ⟨rfl,rfl⟩ := List.cons.inj same
              obtain ⟨count,room,counted,fits,_⟩ := subchunkBody_success ahead.next.1 body
              rw [ahead.next.2] at counted
              exact unfit ⟨by omega,count,counted,by omega⟩
          | error e =>
            obtain ⟨reported,moved⟩ := (endsOnward_subchunkBody size).2 _ _ _ body
            refine iff_of_false (fun restores => ?_) ?_
            · have same := (restores _ ⟨e,reported,readSubchunk_refused slot start null body⟩).cursor
              have back : stop = p.cursor := same
              omega
            · refine not_not.mpr ⟨size,rest,rfl,null,?_⟩
              rintro ⟨room,count,counted,fits⟩
              obtain ⟨sub,taken⟩ : ∃ sub, (readSubchunkBody p.chunk.words size).run (p.cursor + 1) =
                  (.ok sub,p.cursor + 1 + count) :=
                subchunkBody_run ahead.next.1 (by omega) (by rw [ahead.next.2]; exact counted) (by omega)
              rw [body] at taken
              simp at taken

/-- Where the data ends there is no manager, and the cursor stays. -/
theorem managerInt_cases (data : List UInt32) (pos : Nat) :
    (∃ manager value next, (parserManagerInt data).run pos = (.ok (some manager,value),next)) ∨
      (parserManagerInt data).run pos = (.ok (none,0),pos) := by
  by_cases room : pos + 3 ≤ data.length
  · have checked : (roomFor data 3).run pos = (.ok true,pos) := by rw [roomFor,Action.read_apply,decide_eq_true room]
    obtain ⟨d1,_,first,room⟩ := drop_of_room room
    obtain ⟨d2,_,second,room⟩ := drop_of_room room
    obtain ⟨value,_,third,_⟩ := drop_of_room room
    rw [parserManagerInt,Action.bind_ok _ checked,if_pos rfl,Action.bind_ok _ (dword_run first),
      Action.bind_ok _ (dword_run second),Action.bind_ok _ (int_run third)]
    exact .inl ⟨_,_,_,rfl⟩
  · have refused : (roomFor data 3).run pos = (.ok false,pos) := by
      rw [roomFor,Action.read_apply,decide_eq_false room]
    rw [parserManagerInt,Action.bind_ok _ refused]
    exact .inr rfl

/-- Outside a sequence, or where the data ends, the value is zero and nothing moves. -/
theorem managerIntSequence_cases (p : ChunkParser) :
    (p.inManagerSequence ∧ p.managerSequenceRemaining ≠ 0 ∧ p.cursor < p.chunk.dataSize ∧
      ∃ value p', parserManagerIntSequence.run p = (.ok value,p')) ∨ parserManagerIntSequence.run p = (.ok 0,p) := by
  have inside := Action.read_apply (ε := Stop) (fun p : ChunkParser => p.inManagerSequence && p.managerSequenceRemaining != 0) p
  have room : (onCursor fun data => roomFor data 1).run p = (.ok (decide (p.cursor + 1 ≤ p.chunk.words.length)),p) := rfl
  by_cases due : (p.inManagerSequence && p.managerSequenceRemaining != 0 &&
      decide (p.cursor + 1 ≤ p.chunk.words.length)) = true
  · rw [parserManagerIntSequence,Action.bind_ok _ inside,Action.bind_ok _ room,if_pos due]
    simp only [Bool.and_eq_true,bne_iff_ne,decide_eq_true_eq] at due
    obtain ⟨word,_,ahead,_⟩ := drop_of_room due.2
    have read : (onCursor parserInt).run p = (.ok word.toInt32,{ p with cursor := p.cursor + 1 }) := by
      simp only [onCursor,int_run ahead]
    rw [Action.bind_ok _ read]
    exact .inl ⟨due.1.1,due.1.2,due.2,_,_,rfl⟩
  · rw [parserManagerIntSequence,Action.bind_ok _ inside,Action.bind_ok _ room,if_neg due]
    exact .inr rfl

theorem reading_run {answer : α → ParserAnswer} {action : List UInt32 → Run Nat α} {value : α} {next : Nat}
    (read : (action p.chunk.words).run p.cursor = (.ok value,next)) :
    (reading answer action).run p = (.ok (answer value),{ p with cursor := next }) := by
  simp only [reading,onCursor,answering,Action.bind_ok _ read,Action.pure_apply]

theorem reading_success {answer : α → ParserAnswer} {action : List UInt32 → Run Nat α} {found : ParserAnswer}
    {p' : ChunkParser} (ran : (reading answer action).run p = (.ok found,p')) :
    ∃ value next, (action p.chunk.words).run p.cursor = (.ok value,next) ∧ found = answer value ∧
      p' = { p with cursor := next } := by
  rw [reading,onCursor] at ran
  obtain ⟨outcome,rfl⟩ := Prod.mk.inj ran
  obtain ⟨value,next,read,last⟩ := Action.bind_success (Prod.ext outcome rfl)
  rw [Action.pure_apply,Prod.mk.injEq,Except.ok.injEq] at last
  exact ⟨value,next,read,last.1.symm,by rw [last.2]; rfl⟩

/-- Calls that report every error by a code. -/
theorem restoresPlace_coded {op : ParserOp} (coded : ∀ answer, ¬ ErrorAnswer p op answer) :
    RestoresPlace p op ↔ Restores (parserStep op) p := by
  constructor
  · exact fun restores p' stopped => restores p' (.inl stopped)
  · rintro restores p' (stopped | ⟨answer,_,error⟩)
    · exact restores p' stopped
    · exact absurd error (coded answer)

theorem restoresPlace_managerInt : RestoresPlace p .managerInt := by
  rintro p' (stopped | ⟨answer,ran,error⟩)
  · rcases managerInt_cases p.chunk.words p.cursor with ⟨manager,value,next,read⟩ | read
    · exact absurd stopped (not_stopsAt_ok (reading_run read) p')
    · exact absurd stopped (not_stopsAt_ok (reading_run read) p')
  · obtain ⟨found,next,read,rfl,rfl⟩ := reading_success ran
    rcases managerInt_cases p.chunk.words p.cursor with ⟨manager,value,next',read'⟩ | read'
    · rw [read,Prod.mk.injEq,Except.ok.injEq] at read'
      rw [read'.1] at error
      exact error.elim
    · rw [read,Prod.mk.injEq] at read'
      rw [read'.2]
      exact SamePlace.refl p

theorem restoresPlace_managerIntSequence : RestoresPlace p .managerIntSequence := by
  have step (value : Int32) (next : ChunkParser) (read : parserManagerIntSequence.run p = (.ok value,next)) :
      (parserStep .managerIntSequence).run p = (.ok (.int value),next) := by
    rw [parserStep,answering,Action.bind_ok _ read]
    rfl
  rintro p' (stopped | ⟨answer,ran,error⟩)
  · rcases managerIntSequence_cases p with ⟨_,_,_,value,next,read⟩ | read
    · exact absurd stopped (not_stopsAt_ok (step _ _ read) p')
    · exact absurd stopped (not_stopsAt_ok (step _ _ read) p')
  · rcases managerIntSequence_cases p with ⟨sequence,remaining,room,value,next,read⟩ | read
    · rw [step _ _ read,Prod.mk.injEq,Except.ok.injEq] at ran
      rw [← ran.1] at error
      exact absurd ⟨sequence,remaining,room⟩ error
    · rw [step _ _ read] at ran
      rw [← (Prod.mk.inj ran).2]
      exact SamePlace.refl p

theorem arrayLendian_sure {data : List UInt32} : Sure (parserArrayLendian data) := by
  refine fun pos stop stopped => ?_
  by_cases room : pos + 2 ≤ data.length
  · have checked : (roomFor data 2).run pos = (.ok true,pos) := by rw [roomFor,Action.read_apply,decide_eq_true room]
    obtain ⟨size,_,first,room⟩ := drop_of_room room
    obtain ⟨count,_,second,_⟩ := drop_of_room room
    rw [parserArrayLendian,stopsAt_after checked,if_pos rfl,stopsAt_after (int_run first),
      stopsAt_after (int_run second)] at stopped
    split at stopped
    · exact not_stopsAt_pure _ stopped
    · rcases stopsAt_bind.mp stopped with signed | ⟨fits,_,_,later⟩
      · exact not_stopsAt_read _ signed
      · split at later
        · rcases stopsAt_bind.mp later with copy | ⟨_,_,_,moved⟩
          · exact not_stopsAt_copyBytes copy
          · exact sure_bind (sure_update _) (fun _ => sure_pure _) _ _ moved
        · exact not_stopsAt_pure _ later
  · exact not_stopsAt_ok (arrayLendian_short (Nat.not_le.mp room)) stop stopped

theorem restoresPlace_arrayLendian : RestoresPlace p .arrayLendian ↔ ¬ LosesPlace p .arrayLendian := by
  constructor
  · rintro restores ⟨size,count,rest,start,some,some',bad⟩
    have ahead := ahead_of_drop start
    obtain ⟨read,_⟩ := (arrayLendian_none ahead).mpr ⟨bad,rfl,rfl⟩
    have error : ErrorAnswer p .arrayLendian (.array none 0) := by
      intro size' count' rest' same
      rw [start,List.cons.injEq,List.cons.injEq] at same
      rw [← same.1,← same.2.1]
      exact ⟨some,some'⟩
    have back : p.cursor + 2 = p.cursor := (restores _ (.inr ⟨_,reading_run read,error⟩)).cursor
    omega
  · rintro fine p' (stopped | ⟨answer,ran,error⟩)
    · exact restores_reading.mpr (fun stop stopped => absurd stopped (arrayLendian_sure _ stop)) p' stopped
    · obtain ⟨found,next,read,rfl,rfl⟩ := reading_success ran
      by_cases room : p.cursor + 2 ≤ p.chunk.words.length
      · obtain ⟨size,_,first,room⟩ := drop_of_room room
        obtain ⟨count,rest,second,_⟩ := drop_of_room room
        have same := first.next.2.symm.trans second.2
        rw [same] at first
        cases array : found.1 with
        | some bytes =>
          rw [array] at error
          exact error.elim
        | none =>
          rw [array] at error
          obtain ⟨some,some'⟩ := error size count rest first.2
          obtain ⟨bad,_⟩ := (arrayLendian_none first).mp ⟨read,array⟩
          exact absurd ⟨size,count,rest,first.2,some,some',bad⟩ fine
      · rw [arrayLendian_short (Nat.not_le.mp room),Prod.mk.injEq] at read
        rw [← read.2]
        exact SamePlace.refl p

/-- In every state a call that comes back with an error has left the cursor and the sequence counters as they
were, but for those that take a word or more and then find the rest missing. -/
theorem place_restored_iff (p : ChunkParser) (op : ParserOp) : RestoresPlace p op ↔ ¬ LosesPlace p op := by
  have coded (plain : ∀ answer, ¬ ErrorAnswer p op answer) (whole : Restores (parserStep op) p ↔ ¬ LosesPlace p op) :
      RestoresPlace p op ↔ ¬ LosesPlace p op := (restoresPlace_coded plain).trans whole
  have always (plain : ∀ answer, ¬ ErrorAnswer p op answer) (restores : Restores (parserStep op) p)
      (keeps : ¬ LosesPlace p op) : RestoresPlace p op ↔ ¬ LosesPlace p op :=
    coded plain (iff_of_true restores keeps)
  cases op with
  | managerInt => exact iff_of_true restoresPlace_managerInt id
  | managerIntSequence => exact iff_of_true restoresPlace_managerIntSequence id
  | arrayLendian => exact restoresPlace_arrayLendian
  | dwordAsWords => exact coded (fun _ => id) (restores_reading.trans (walks_stays walks_dwordAsWords))
  | dwordArrayAsWords count =>
    exact coded (fun _ => id) (restores_reading.trans (walks_stays (walks_times walks_dwordAsWords count)))
  | bufferNosizeLendian16 valueCount =>
    exact coded (fun _ => id) (restores_reading.trans (walks_stays (walks_times walks_word valueCount)))
  | string => exact coded (fun _ => id) (restores_reading.trans stays_string)
  | buffer => exact coded (fun _ => id) (restores_reading.trans stays_buffer)
  | arrayLendian16 => exact coded (fun _ => id) (restores_reading.trans stays_arrayLendian16)
  | subchunk => exact coded (fun _ => id) (restores_answering.trans restores_subchunk)
  | setFileContext ctx => exact always (fun _ => id) (restores_answering.mpr (restores_sure (sure_update _))) id
  | tell | remaining | lockReadBuffer => exact always (fun _ => id) (restores_answering.mpr (restores_sure (sure_read _))) id
  | seek pos => exact always (fun _ => id) (restores_answering.mpr (restores_seek pos)) id
  | skip dwords => exact always (fun _ => id) (restores_answering.mpr (restores_skip dwords)) id
  | byte | word | int => exact always (fun _ => id) (restores_reading.mpr (stays_map _ stays_dword)) id
  | dword | float => exact always (fun _ => id) (restores_reading.mpr stays_dword) id
  | guid => exact always (fun _ => id) (restores_reading.mpr stays_guid) id
  | vector2 | vector | vector4 | matrix | quaternion | color =>
    exact always (fun _ => id) (restores_reading.mpr (stays_words _)) id
  | bytes size => exact always (fun _ => id) (restores_reading.mpr (stays_bytes size)) id
  | bufferNosize size => exact always (fun _ => id) (restores_reading.mpr (stays_bufferNosize size)) id
  | bufferLendian16 size => exact always (fun _ => id) (restores_reading.mpr (stays_bufferLendian16 size)) id
  | startManagerSequence => exact always (fun _ => id) (restores_answering.mpr restores_startManagerSequence) id
  | objectId => exact always (fun _ => id) (restores_answering.mpr restores_objectId) id
  | startObjectSequence => exact always (fun _ => id) (restores_answering.mpr restores_startObjectSequence) id
  | identifier => exact always (fun _ => id) (restores_answering.mpr restores_identifier) id
  | seekIdentifier identifier =>
    exact always (fun _ => id) (restores_answering.mpr (restores_seekIdentifier identifier)) id
  | seekIdentifierWithSize identifier =>
    exact always (fun _ => id) (restores_answering.mpr (restores_seekWithSize identifier)) id
  | startReadSequence => exact always (fun _ => id) (restores_answering.mpr restores_startReadSequence) id

end Calls

/-- A string of four bytes is announced, and nothing follows. -/
def announcedString : Chunk := { chunkCreate with data := some [4] }

theorem announcedString_moves : ¬ ∀ (c : Chunk) (op : ParserOp), RestoresPlace (parserCreate c) op := by
  intro all
  have fails : Fails (parserCreate announcedString) .string { parserCreate announcedString with cursor := 1 } :=
    .inl ⟨.error .eof "",reported_error _ _,rfl⟩
  have back : 1 = 0 := (all announcedString .string _ fails).cursor
  exact absurd back (Nat.succ_ne_zero 0)

end Libnmo.Format
