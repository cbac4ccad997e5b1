import Libnmo.Format.LostPlace

/-! The three calls that start a sequence. Each returns one `int`: the count that is read, or
the code of an error, which is a positive number. The count is kept in a counter, too, and
only the values of a manager are refused when it has come down to zero. -/
namespace Libnmo.Format
open Core Lib Lib.Cursor

inductive SequenceKind
  | objects | subchunks | managers
  deriving DecidableEq

def startSequence : SequenceKind → Run ChunkParser Int32
  | .objects => parserStartObjectSequence
  | .subchunks => parserStartReadSequence
  | .managers => do
    let (_,count) ← parserStartManagerSequence
    pure count

/-- The place of a code in the enumeration, behind `NMO_OK`. -/
def errorValue : ErrorCode → Int32
  | .nomem => 1 | .bufferOverrun => 2 | .fileNotFound => 3 | .cantOpenFile => 4 | .cantReadFile => 5 | .cantWriteFile => 6
  | .invalidSignature => 7 | .unsupportedVersion => 8 | .checksumMismatch => 9 | .decompressionFailed => 10
  | .compressionFailed => 11 | .validationFailed => 12 | .invalidFormat => 13 | .invalidOffset => 14 | .eof => 15
  | .invalidArgument => 16 | .invalidState => 17 | .notImplemented => 18 | .notSupported => 19 | .unknown => 20
  | .internal => 21 | .outOfBounds => 22 | .notFound => 23 | .alreadyExists => 24 | .corrupt => 25

/-- The `int` that the caller gets, if the call comes back. -/
def returnedInt : Result Int32 → Option Int32
  | .ok count => some count
  | .error (.error code _) => some (errorValue code)
  | .error _ => none

/-- The call that reads an item of the sequence. -/
def itemRead : SequenceKind → ParserOp
  | .objects => .objectId
  | .subchunks => .subchunk
  | .managers => .managerIntSequence

def GivesItem (kind : SequenceKind) (p p' : ChunkParser) : Prop :=
  ∃ answer, (parserStep (itemRead kind)).run p = (.ok answer,p') ∧ ¬ ErrorAnswer p (itemRead kind) answer

/-- So many reads in a row that each give an item. -/
inductive Items (kind : SequenceKind) : ChunkParser → Nat → ChunkParser → Prop
  | none {p : ChunkParser} : Items kind p 0 p
  | more {p between p' : ChunkParser} {count : Nat} (first : GivesItem kind p between) (rest : Items kind between count p') :
    Items kind p (count + 1) p'

def remainingItems : SequenceKind → ChunkParser → Nat
  | .objects => ChunkParser.objectSequenceRemaining
  | .subchunks => ChunkParser.subchunkSequenceRemaining
  | .managers => ChunkParser.managerSequenceRemaining

/-- The count is the one in the counter, and no more items are read. -/
def LimitedTo (kind : SequenceKind) (p : ChunkParser) (count : Int) : Prop :=
  (remainingItems kind p : Int) = count ∧ ∀ items p', Items kind p items p' → (items : Int) ≤ count

/-- The returned number is negative just if the call failed, and else it is the limit of the reads that follow. -/
def TellsStart (kind : SequenceKind) (p : ChunkParser) : Prop :=
  ∃ outcome p' number, (startSequence kind).run p = (outcome,p') ∧ returnedInt outcome = some number ∧
    (number < 0 ↔ ∃ stop, outcome = .error stop) ∧ ∀ count, outcome = .ok count → LimitedTo kind p' number.toInt

/-- The words in front of the cursor. -/
def ahead (p : ChunkParser) : List UInt32 := p.chunk.words.drop p.cursor

/-- The count and the words behind the header. -/
def headerOf : SequenceKind → List UInt32 → Option (UInt32 × List UInt32)
  | .managers,count :: _ :: _ :: rest => some (count,rest)
  | .managers,_ => none
  | _,count :: rest => some (count,rest)
  | _,[] => none

/-- The words start with an item of the sequence: an object ID, or a sub-chunk that is null or has the words it counts. -/
def ItemIn : SequenceKind → List UInt32 → List UInt32 → Prop
  | .subchunks,words,rest => ∃ size more, words = size :: more ∧ (size = 0 ∧ rest = more ∨
      size ≠ 0 ∧ size.toNat ≤ more.length ∧ ∃ count, countedWords more = some count ∧ count ≤ more.length ∧ rest = more.drop count)
  | _,words,rest => ∃ word, words = word :: rest

def ItemsIn (kind : SequenceKind) : Nat → List UInt32 → Prop
  | 0,_ => True
  | count + 1,words => ∃ rest, ItemIn kind words rest ∧ ItemsIn kind count rest

/-- The header is there, with a count that is no negative number, and there are no more items than that. -/
def CountStands (kind : SequenceKind) (p : ChunkParser) : Prop :=
  ∃ count rest, headerOf kind (ahead p) = some (count,rest) ∧ count.toNat < 2 ^ 31 ∧
    (kind = .managers ∨ ¬ ItemsIn kind (count.toNat + 1) rest)

section Reads
variable {kind : SequenceKind} {p p' : ChunkParser} {rest : List UInt32} {count : Nat}

/-- A sub-chunk is not refused. -/
def FreeSlot (p : ChunkParser) : Prop := ¬ (p.inSubchunkSequence ∧ p.subchunkSequenceRemaining = 0)

theorem freeSlot_consume (p : ChunkParser) (free : FreeSlot p) : FreeSlot (consumeSubchunkSlot.run p).2 := by
  rw [consumeSubchunkSlot,Action.update_apply]
  dsimp only
  split
  · rw [FreeSlot]
    dsimp only
    rw [decide_eq_true_eq]
    exact fun both => both.1 both.2
  · exact free

theorem ahead_consume (p : ChunkParser) : ahead (consumeSubchunkSlot.run p).2 = ahead p := by
  rw [consumeSubchunkSlot,Action.update_apply,ahead,ahead]
  dsimp only
  split <;> rfl

theorem ahead_consumeObject (p : ChunkParser) : ahead (consumeObjectSlot.run p).2 = ahead p := by
  rw [consumeObjectSlot,Action.update_apply,ahead,ahead]
  dsimp only
  split <;> rfl

theorem objectId_run {word : UInt32} (here : ahead p = word :: rest) :
    ∃ id p', parserObjectId.run p = (.ok id,p') ∧ ahead p' = rest := by
  have first := ahead_of_drop here
  refine ⟨_,_,by rw [parserObjectId,Action.bind_ok _ (onCursor_dword first)]; rfl,?_⟩
  exact (ahead_consumeObject { p with cursor := p.cursor + 1 }).trans first.next.2

theorem objectId_ended (here : ahead p = []) : parserObjectId.run p = (.error (.error .eof ""),p) := by
  have absent : p.chunk.words[p.cursor]? = none := by
    rw [List.getElem?_eq_none_iff]
    exact List.drop_eq_nil_iff.mp here
  have ended : (onCursor parserDword).run p = (.error (.error .eof ""),p) := by
    simp only [onCursor,parserDword,absent]
  rw [parserObjectId,Action.bind_error _ ended]

theorem answering_run {α : Type} {answer : α → ParserAnswer} {action : Run ChunkParser α} {value : α}
    (read : action.run p = (.ok value,p')) : (answering answer action).run p = (.ok (answer value),p') := by
  rw [answering,Action.bind_ok _ read]
  rfl

/-- An item that is given was in front of the cursor. -/
theorem item_of_gives (sized : kind ≠ .managers) (free : kind = .subchunks → FreeSlot p) (gives : GivesItem kind p p') :
    ItemIn kind (ahead p) (ahead p') ∧ (kind = .subchunks → FreeSlot p') := by
  obtain ⟨answer,ran,_⟩ := gives
  cases kind with
  | managers => exact absurd rfl sized
  | objects =>
    obtain ⟨value,read,_⟩ := answering_success ran
    cases here : ahead p with
    | nil =>
      rw [objectId_ended here] at read
      cases (Prod.mk.inj read).1
    | cons word rest =>
      obtain ⟨id,after,read',same⟩ := objectId_run here
      obtain ⟨_,rfl⟩ := Prod.mk.inj (read'.symm.trans read)
      exact ⟨⟨word,by rw [same]⟩,nofun⟩
  | subchunks =>
    obtain ⟨value,read,_⟩ := answering_success ran
    obtain ⟨slot,size,rest,start⟩ := readSubchunk_success read
    have first := ahead_of_drop start
    have whole := first.length_eq
    rw [List.length_cons] at whole
    by_cases null : size = 0
    · subst null
      obtain ⟨_,rfl⟩ := Prod.mk.inj ((readSubchunk_null slot start).symm.trans read)
      refine ⟨⟨0,rest,start,.inl ⟨rfl,?_⟩⟩,fun _ => freeSlot_consume _ slot⟩
      rw [ahead_consume]
      exact first.next.2
    · cases body : (readSubchunkBody p.chunk.words size).run (p.cursor + 1) with
      | mk outcome stop =>
        cases outcome with
        | error e =>
          rw [readSubchunk_refused slot start null body] at read
          cases (Prod.mk.inj read).1
        | ok sub =>
          obtain ⟨_,rfl⟩ := Prod.mk.inj ((readSubchunk_taken slot start null body).symm.trans read)
          obtain ⟨count,room,counted,fits,place,_⟩ := subchunkBody_success first.next.1 body
          rw [first.next.2] at counted
          refine ⟨⟨size,rest,start,.inr ⟨null,by omega,count,counted,by omega,?_⟩⟩,fun _ => freeSlot_consume _ slot⟩
          rw [ahead_consume,ahead,place,← first.next.2,List.drop_drop]

/-- The item in front of the cursor is given. -/
theorem gives_of_item (sized : kind ≠ .managers) (free : kind = .subchunks → FreeSlot p) (item : ItemIn kind (ahead p) rest) :
    ∃ p', GivesItem kind p p' ∧ ahead p' = rest ∧ (kind = .subchunks → FreeSlot p') := by
  cases kind with
  | managers => exact absurd rfl sized
  | objects =>
    obtain ⟨word,here⟩ := item
    obtain ⟨id,p',read,same⟩ := objectId_run here
    exact ⟨p',⟨.dword id,answering_run read,fun wrong => wrong⟩,same,nofun⟩
  | subchunks =>
    have slot := free rfl
    obtain ⟨size,more,start,⟨rfl,rfl⟩ | ⟨some,room,count,counted,fits,rfl⟩⟩ := item
    · refine ⟨_,⟨_,answering_run (readSubchunk_null slot start),fun wrong => wrong⟩,?_,fun _ => freeSlot_consume _ slot⟩
      rw [ahead_consume]
      exact (ahead_of_drop start).next.2
    · have first := ahead_of_drop start
      have whole := first.length_eq
      rw [List.length_cons] at whole
      obtain ⟨sub,body⟩ : ∃ sub, (readSubchunkBody p.chunk.words size).run (p.cursor + 1) = (.ok sub,p.cursor + 1 + count) :=
        subchunkBody_run first.next.1 (by omega) (by rw [first.next.2]; exact counted) (by omega)
      refine ⟨_,⟨_,answering_run (readSubchunk_taken slot start some body),fun wrong => wrong⟩,?_,fun _ => freeSlot_consume _ slot⟩
      rw [ahead_consume,ahead,← first.next.2,List.drop_drop]

theorem items_iff (sized : kind ≠ .managers) (free : kind = .subchunks → FreeSlot p) : (∃ p', Items kind p count p') ↔ ItemsIn kind count (ahead p) := by
  induction count generalizing p with
  | zero => exact iff_of_true ⟨p,.none⟩ trivial
  | succ count ih =>
    constructor
    · rintro ⟨p',items⟩
      cases items with
      | more first others =>
        obtain ⟨item,slot⟩ := item_of_gives sized free first
        exact ⟨_,item,(ih slot).mp ⟨p',others⟩⟩
    · rintro ⟨rest,item,others⟩
      obtain ⟨between,first,rfl,slot⟩ := gives_of_item sized free item
      obtain ⟨p',more⟩ := (ih slot).mpr others
      exact ⟨p',.more first more⟩

theorem items_fewer {fewer : Nat} (items : Items kind p count p') (le : fewer ≤ count) : ∃ between, Items kind p fewer between := by
  induction items generalizing fewer with
  | none =>
    obtain rfl := Nat.le_zero.mp le
    exact ⟨_,.none⟩
  | more first _ ih =>
    cases fewer with
    | zero => exact ⟨_,.none⟩
    | succ fewer =>
      obtain ⟨between,others⟩ := ih (Nat.le_of_succ_le_succ le)
      exact ⟨between,.more first others⟩

theorem managerValue_counts {value : Int32} (ran : parserManagerIntSequence.run p = (.ok value,p'))
    (right : ¬ ErrorAnswer p .managerIntSequence (.int value)) : p'.managerSequenceRemaining + 1 = p.managerSequenceRemaining := by
  obtain ⟨inside,some,more⟩ : p.inManagerSequence ∧ p.managerSequenceRemaining ≠ 0 ∧ p.cursor < p.chunk.dataSize := not_not.mp right
  obtain ⟨_,_,asked,ran⟩ := Action.bind_success ran
  obtain ⟨same,rfl⟩ := Prod.mk.inj asked
  obtain rfl := Except.ok.inj same
  obtain ⟨_,_,asked,ran⟩ := Action.bind_success ran
  obtain ⟨same,rfl⟩ := Prod.mk.inj asked
  obtain rfl := Except.ok.inj same
  have due : (p.inManagerSequence && p.managerSequenceRemaining != 0 && decide (p.cursor + 1 ≤ p.chunk.words.length)) = true := by
    simp only [Bool.and_eq_true,bne_iff_ne,decide_eq_true_eq]
    exact ⟨⟨inside,some⟩,more⟩
  rw [if_pos due] at ran
  obtain ⟨_,between,read,ran⟩ := Action.bind_success ran
  obtain ⟨_,rfl⟩ := Prod.mk.inj read
  obtain ⟨_,rfl⟩ := Prod.mk.inj ran
  exact Nat.sub_add_cancel (Nat.one_le_iff_ne_zero.mpr some)

/-- Each value of a manager counts down. -/
theorem managers_counted (items : Items .managers p count p') : count + p'.managerSequenceRemaining = p.managerSequenceRemaining := by
  induction items with
  | none => exact Nat.zero_add _
  | more first _ ih =>
    obtain ⟨answer,ran,right⟩ := first
    obtain ⟨value,read,rfl⟩ := answering_success ran
    have counts := managerValue_counts read right
    omega

end Reads

section Starts
variable {kind : SequenceKind} {p : ChunkParser} {count : UInt32} {rest : List UInt32}

/-- The header is read, and its count is returned and kept. -/
theorem start_run (header : headerOf kind (ahead p) = some (count,rest)) :
    ∃ p', (startSequence kind).run p = (.ok count.toInt32,p') ∧ remainingItems kind p' = count.toNat ∧
      (kind ≠ .managers → ahead p' = rest) ∧ (kind = .subchunks → FreeSlot p') := by
  cases kind with
  | objects =>
    cases here : ahead p with
    | nil =>
      rw [here] at header
      cases header
    | cons word words =>
      rw [here] at header
      obtain ⟨rfl,rfl⟩ := Prod.mk.inj (Option.some.inj header)
      have first := ahead_of_drop here
      have read : (startSequence .objects).run p = (.ok word.toInt32,
          { p with cursor := p.cursor + 1, objectSequenceRemaining := word.toNat, inObjectSequence := word > 0 }) := by
        rw [startSequence,parserStartObjectSequence,Action.bind_ok _ (onCursor_dword first)]
        rfl
      exact ⟨_,read,rfl,fun _ => first.next.2,fun other => (by cases other)⟩
  | subchunks =>
    cases here : ahead p with
    | nil =>
      rw [here] at header
      cases header
    | cons word words =>
      rw [here] at header
      obtain ⟨rfl,rfl⟩ := Prod.mk.inj (Option.some.inj header)
      have first := ahead_of_drop here
      have read : (startSequence .subchunks).run p = (.ok word.toInt32,
          { p with cursor := p.cursor + 1, subchunkSequenceRemaining := word.toNat, inSubchunkSequence := word > 0 }) := by
        rw [startSequence,parserStartReadSequence,Action.bind_ok _ (onCursor_dword first)]
        rfl
      refine ⟨_,read,rfl,fun _ => first.next.2,fun _ both => ?_⟩
      have none : word.toNat = 0 := both.2
      have some := UInt32.lt_iff_toNat_lt.mp (of_decide_eq_true both.1)
      rw [none] at some
      cases some
  | managers =>
    rcases here : ahead p with _ | ⟨word,_ | ⟨d1,_ | ⟨d2,words⟩⟩⟩
    · rw [here] at header
      cases header
    · rw [here] at header
      cases header
    · rw [here] at header
      cases header
    · rw [here] at header
      obtain ⟨rfl,rfl⟩ := Prod.mk.inj (Option.some.inj header)
      have first := ahead_of_drop here
      have whole := first.length_eq
      have room : (onCursor fun data => checkBounds data 3).run p = (.ok (),p) := by
        rw [List.length_cons,List.length_cons,List.length_cons] at whole
        simp only [onCursor,checkBounds,if_pos (show p.cursor + 3 ≤ p.chunk.words.length by omega)]
      have read : parserStartManagerSequence.run p = (.ok (⟨d1,d2⟩,word.toInt32),
          { p with
            cursor := p.cursor + 1 + 1 + 1, currentManagerGuid := ⟨d1,d2⟩, managerSequenceRemaining := word.toNat
            inManagerSequence := word > 0 }) := by
        rw [parserStartManagerSequence,Action.bind_ok _ room,Action.bind_ok _ (onCursor_dword first),
          Action.bind_ok _ (onCursor_dword (p := { p with cursor := p.cursor + 1 }) first.next),
          Action.bind_ok _ (onCursor_dword (p := { p with cursor := p.cursor + 1 + 1 }) first.next.next)]
        rfl
      exact ⟨_,by rw [startSequence,Action.bind_ok _ read]; rfl,rfl,fun other => absurd rfl other,fun other => (by cases other)⟩

theorem start_refused (header : headerOf kind (ahead p) = none) : (startSequence kind).run p = (.error (.error .eof ""),p) := by
  have ended (here : ahead p = []) : (onCursor parserDword).run p = (.error (.error .eof ""),p) := by
    have absent : p.chunk.words[p.cursor]? = none := by
      rw [List.getElem?_eq_none_iff]
      exact List.drop_eq_nil_iff.mp here
    simp only [onCursor,parserDword,absent]
  cases kind with
  | objects =>
    cases here : ahead p with
    | nil => rw [startSequence,parserStartObjectSequence,Action.bind_error _ (ended here)]
    | cons word words =>
      rw [here] at header
      cases header
  | subchunks =>
    cases here : ahead p with
    | nil => rw [startSequence,parserStartReadSequence,Action.bind_error _ (ended here)]
    | cons word words =>
      rw [here] at header
      cases header
  | managers =>
    have short : (ahead p).length < 3 := by
      rcases here : ahead p with _ | ⟨word,_ | ⟨d1,_ | ⟨d2,words⟩⟩⟩
      · exact Nat.zero_lt_succ 2
      · exact Nat.lt_of_sub_eq_succ rfl
      · exact Nat.lt_add_one 2
      · rw [here] at header
        cases header
    rw [ahead,List.length_drop] at short
    have refused : (onCursor fun data => checkBounds data 3).run p = (.error (.error .eof ""),p) := by
      simp only [onCursor,checkBounds,if_neg (show ¬ p.cursor + 3 ≤ p.chunk.words.length by omega)]
    have stopped : parserStartManagerSequence.run p = (.error (.error .eof ""),p) := by
      rw [parserStartManagerSequence,Action.bind_error _ refused]
    rw [startSequence,Action.bind_error _ stopped]

/-- The number that is returned is the count below 2^31, and negative from there on. -/
theorem toInt_count : (count.toInt32.toInt = count.toNat ↔ count.toNat < 2 ^ 31) ∧ (count.toInt32 < 0 ↔ 2 ^ 31 ≤ count.toNat) := by
  have bound := count.toNat_lt
  have value : count.toInt32.toInt = (count.toNat : Int).bmod (2 ^ 32) := by
    rw [← Int32.toInt_toBitVec,UInt32.toBitVec_toInt32,BitVec.toInt_eq_toNat_bmod]
    rfl
  rw [Int32.lt_iff_toInt_lt,value,Int32.toInt_zero,Int.bmod_def]
  omega

/-- A start tells its caller what it should just where the count stands. -/
theorem start_tells_iff (kind : SequenceKind) (p : ChunkParser) : TellsStart kind p ↔ CountStands kind p := by
  cases header : headerOf kind (ahead p) with
  | none =>
    refine iff_of_false ?_ ?_
    · rintro ⟨outcome,p',number,ran,returned,failed,_⟩
      obtain ⟨rfl,_⟩ := Prod.mk.inj ((start_refused header).symm.trans ran)
      obtain rfl := Option.some.inj returned
      exact absurd (failed.mpr ⟨_,rfl⟩) (by decide)
    · rintro ⟨_,_,found,_⟩
      rw [header] at found
      cases found
  | some found =>
    obtain ⟨count,rest⟩ := found
    obtain ⟨p',ran,kept,behind,slot⟩ := start_run header
    have stands : CountStands kind p ↔ count.toNat < 2 ^ 31 ∧ (kind = .managers ∨ ¬ ItemsIn kind (count.toNat + 1) rest) := by
      refine ⟨?_,fun both => ⟨count,rest,header,both⟩⟩
      rintro ⟨_,_,same,both⟩
      obtain ⟨rfl,rfl⟩ := Prod.mk.inj (Option.some.inj (header.symm.trans same))
      exact both
    rw [stands]
    constructor
    · rintro ⟨outcome,_,number,ran',returned,failed,limited⟩
      obtain ⟨rfl,rfl⟩ := Prod.mk.inj (ran.symm.trans ran')
      obtain rfl := Option.some.inj returned
      obtain ⟨same,few⟩ := limited _ rfl
      rw [kept] at same
      have small := toInt_count.1.mp same.symm
      refine ⟨small,(em (kind = .managers)).imp_right fun sized more => ?_⟩
      rw [← behind sized,← items_iff sized slot] at more
      obtain ⟨last,items⟩ := more
      have most := few _ last items
      rw [toInt_count.1.mpr small] at most
      omega
    · rintro ⟨small,few⟩
      refine ⟨_,p',_,ran,rfl,iff_of_false (fun negative => ?_) nofun,fun _ _ => ⟨?_,fun items last read => ?_⟩⟩
      · exact absurd (toInt_count.2.mp negative) (Nat.not_le.mpr small)
      · rw [kept,toInt_count.1.mpr small]
      · rw [toInt_count.1.mpr small]
        by_contra more
        rcases few with rfl | none
        · have counted := managers_counted read
          rw [show p'.managerSequenceRemaining = count.toNat from kept] at counted
          omega
        · by_cases sized : kind = .managers
          · subst sized
            have counted := managers_counted read
            rw [show p'.managerSequenceRemaining = count.toNat from kept] at counted
            omega
          · apply none
            rw [← behind sized,← items_iff sized slot]
            exact items_fewer read (by omega)

end Starts

/-- Without any data the call fails with the number 15. -/
theorem start_of_nothing : ¬ ∀ (kind : SequenceKind) (c : Chunk), TellsStart kind (parserCreate c) := by
  intro all
  obtain ⟨outcome,p',number,ran,returned,failed,_⟩ := all .objects chunkCreate
  obtain ⟨rfl,_⟩ := Prod.mk.inj ran
  obtain rfl := Option.some.inj returned
  exact absurd (failed.mpr ⟨_,rfl⟩) (by decide)

end Libnmo.Format
