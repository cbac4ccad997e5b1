import Libnmo.Format.CursorBounds
import Libnmo.Format.SubchunkExtent
import Libnmo.Lib.Advances
import Libnmo.Lib.Stopping

/-! Where the cursor stands after an error of a read. A read that checks all of its words
before it takes the first is back where it was; one that takes its words one by one, or
a length or a header first, stays behind them when the rest is missing. -/
namespace Libnmo.Format
open Core Lib Lib.Action Lib.Cursor

/-- An end that the caller sees as an error code. -/
def Reported (stop : Stop) : Prop := ∃ code message, stop = .error code message

theorem reported_error (code : ErrorCode) (message : String) : Reported (.error code message) := ⟨code,message,rfl⟩

section Reads
variable {data : List UInt32} {pos stop : Nat} {α : Type}

/-- An error of the action leaves the cursor where it was. -/
def KeepsPlace (action : Run Nat α) (pos : Nat) : Prop := ∀ stop, StopsAt Reported action pos stop → stop = pos

theorem stopsAt_checkBounds {dwordsNeeded : Nat} :
    StopsAt Reported (checkBounds data dwordsNeeded) pos stop ↔ data.length < pos + dwordsNeeded ∧ stop = pos := by
  by_cases room : pos + dwordsNeeded ≤ data.length
  · have ran : (checkBounds data dwordsNeeded).run pos = (.ok (),pos) := by simp only [checkBounds,if_pos room]
    refine iff_of_false (not_stopsAt_ok ran stop) fun both => ?_
    exact Nat.not_lt.mpr room both.1
  · have ran : (checkBounds data dwordsNeeded).run pos = (.error (.error .eof ""),pos) := by
      simp only [checkBounds,if_neg room]
    rw [stopsAt_error ran]
    exact and_congr_left fun _ => iff_of_true (reported_error _ _) (Nat.not_le.mp room)

theorem stopsAt_dword : StopsAt Reported (parserDword data) pos stop ↔ data.length ≤ pos ∧ stop = pos := by
  cases found : data[pos]? with
  | some word =>
    have ran : (parserDword data).run pos = (.ok word,pos + 1) := by simp only [parserDword,found]
    refine iff_of_false (not_stopsAt_ok ran stop) fun both => ?_
    exact Nat.not_lt.mpr both.1 (List.getElem?_eq_some_iff.mp found).1
  | none =>
    have ran : (parserDword data).run pos = (.error (.error .eof ""),pos) := by simp only [parserDword,found]
    rw [stopsAt_error ran]
    exact and_congr_left fun _ => iff_of_true (reported_error _ _) (List.getElem?_eq_none_iff.mp found)

/-- A check that passes leaves nothing to report, so an error comes from the check. -/
theorem stays_checked {dwordsNeeded : Nat} {next : Run Nat α}
    (sure : pos + dwordsNeeded ≤ data.length → ∀ stop, ¬ StopsAt Reported next pos stop) :
    KeepsPlace (checkBounds data dwordsNeeded >>= fun _ => next) pos := by
  intro stop stopped
  by_cases room : pos + dwordsNeeded ≤ data.length
  · have ran : (checkBounds data dwordsNeeded).run pos = (.ok (),pos) := by simp only [checkBounds,if_pos room]
    exact absurd ((stopsAt_after ran).mp stopped) (sure room stop)
  · have ran : (checkBounds data dwordsNeeded).run pos = (.error (.error .eof ""),pos) := by
      simp only [checkBounds,if_neg room]
    exact ((stopsAt_error (bind_error _ ran)).mp stopped).2

theorem stays_dword : KeepsPlace (parserDword data) pos := fun _ stopped => (stopsAt_dword.mp stopped).2

theorem stays_map {β : Type} {action : Run Nat α} (f : α → β) (stays : KeepsPlace action pos) :
    KeepsPlace (action >>= fun value => pure (f value)) pos := fun stop stopped => stays stop ((stopsAt_map f).mp stopped)

theorem stays_words (count : Nat) : KeepsPlace (parserWords data count) pos :=
  stays_checked fun _ _ => not_stopsAt_ok rfl _

theorem not_stopsAt_copyBytes {bytes : Nat} : ¬ StopsAt Reported (copyBytes data bytes) pos stop := by
  rintro ⟨e,⟨code,message,rfl⟩,stopped⟩
  rw [copyBytes] at stopped
  dsimp only at stopped
  split at stopped
  · simp at stopped
  · simp at stopped

/-- A copy that leaves the data is no error that is reported. -/
theorem stopsAt_takeBytes {bytes dwords : Nat} :
    StopsAt Reported (takeBytes data bytes dwords) pos stop ↔ data.length < pos + dwords ∧ stop = pos := by
  rw [takeBytes,stopsAt_bind,stopsAt_checkBounds]
  refine or_iff_left ?_
  rintro ⟨_,between,_,later⟩
  rcases stopsAt_bind.mp later with copy | ⟨dest,after,_,last⟩
  · exact not_stopsAt_copyBytes copy
  · rcases stopsAt_bind.mp last with moved | ⟨_,_,_,ended⟩
    · exact not_stopsAt_update _ moved
    · exact not_stopsAt_pure _ ended

theorem alignDword_zero : alignDword 0 / 4 = 0 := rfl

theorem stopsAt_bytes {bytes : Nat} (inside : pos ≤ data.length) : StopsAt Reported (parserBytes data bytes) pos stop ↔
    data.length < pos + alignDword bytes / 4 ∧ stop = pos := by
  rw [parserBytes]
  split
  · rename_i empty
    refine iff_of_false (not_stopsAt_pure []) fun both => ?_
    rw [empty,alignDword_zero] at both
    omega
  · exact stopsAt_takeBytes

theorem stays_bytes (bytes : Nat) : KeepsPlace (parserBytes data bytes) pos := by
  rw [parserBytes]
  split
  · exact fun stop stopped => absurd stopped (not_stopsAt_pure [])
  · exact fun stop stopped => (stopsAt_takeBytes.mp stopped).2

theorem stays_bufferNosize (bytes : Nat) : KeepsPlace (parserBufferNosize data bytes) pos := by
  rw [parserBufferNosize]
  split
  · exact fun stop stopped => absurd stopped (not_stopsAt_pure [])
  · exact fun stop stopped => (stopsAt_takeBytes.mp stopped).2

theorem stays_bufferLendian16 (bytes : Nat) : KeepsPlace (parserBufferLendian16 data bytes) pos := by
  rw [parserBufferLendian16]
  split
  · exact fun stop stopped => absurd stopped (not_stopsAt_pure [])
  · exact stays_map _ fun stop stopped => (stopsAt_takeBytes.mp stopped).2

theorem stays_guid : KeepsPlace (parserGuid data) pos := by
  refine stays_checked fun room stop stopped => ?_
  rcases stopsAt_bind.mp stopped with first | ⟨d1,between,ran,later⟩
  · have bound := (stopsAt_dword.mp first).1
    omega
  · rw [stopsAt_map,stopsAt_dword] at later
    have moved := (dword_success ran).2
    omega

/-- The action takes so many words, or comes to the end of the data and stops there. -/
def Walks (data : List UInt32) (words : Nat) (action : Run Nat α) : Prop :=
  ∀ pos, (words ≤ data.length - pos ∧ ∃ value, action.run pos = (.ok value,pos + words)) ∨
    (data.length - pos < words ∧ action.run pos = (.error (.error .eof ""),pos + (data.length - pos)))

theorem walks_dword : Walks data 1 (parserDword data) := by
  intro pos
  cases found : data[pos]? with
  | some word =>
    have inside := (List.getElem?_eq_some_iff.mp found).1
    exact .inl ⟨by omega,word,by simp only [parserDword,found]⟩
  | none =>
    have ended : data.length - pos = 0 := Nat.sub_eq_zero_of_le (List.getElem?_eq_none_iff.mp found)
    refine .inr ⟨by omega,?_⟩
    rw [ended]
    simp only [parserDword,found,Nat.add_zero]

theorem walks_pure (value : α) : Walks data 0 (pure value) := fun pos => .inl ⟨Nat.zero_le _,value,rfl⟩

theorem walks_bind {β : Type} {words words' : Nat} {first : Run Nat α} {next : α → Run Nat β} (head : Walks data words first)
    (tail : ∀ value, Walks data words' (next value)) : Walks data (words + words') (first >>= next) := by
  intro pos
  rcases head pos with ⟨enough,value,ran⟩ | ⟨short,ran⟩
  · rw [Action.bind_ok _ ran]
    rcases tail value (pos + words) with ⟨enough',result,ran'⟩ | ⟨short',ran'⟩
    · exact .inl ⟨by omega,result,by rw [ran',Nat.add_assoc]⟩
    · refine .inr ⟨by omega,?_⟩
      rw [ran',show pos + words + (data.length - (pos + words)) = pos + (data.length - pos) by omega]
  · exact .inr ⟨by omega,Action.bind_error _ ran⟩

theorem walks_map {β : Type} {words : Nat} {action : Run Nat α} (f : α → β) (walks : Walks data words action) :
    Walks data words (action >>= fun value => pure (f value)) :=
  walks_bind walks fun value => walks_pure (f value)

theorem walks_times {words : Nat} {action : Run Nat α} (walks : Walks data words action) (count : Nat) :
    Walks data (count * words) (action.times count) := by
  induction count with
  | zero =>
    rw [Nat.zero_mul]
    exact walks_pure []
  | succ count ih =>
    rw [Nat.succ_mul,Nat.add_comm]
    exact walks_bind walks fun value => walks_map (value :: ·) ih

theorem walks_word : Walks data 1 (parserWord data) := walks_map _ walks_dword

theorem walks_dwordAsWords : Walks data 2 (parserDwordAsWords data) := walks_bind walks_word fun _ => walks_map _ walks_word

/-- What takes its words one by one loses its place where some of them are there. -/
theorem walks_stays {words : Nat} {action : Run Nat α} (walks : Walks data words action) :
    KeepsPlace action pos ↔ ¬ (0 < (data.drop pos).length ∧ (data.drop pos).length < words) := by
  rw [List.length_drop]
  rcases walks pos with ⟨enough,value,ran⟩ | ⟨short,ran⟩
  · refine iff_of_true (fun stop stopped => absurd stopped (not_stopsAt_ok ran stop)) ?_
    omega
  · have stops (stop : Nat) : StopsAt Reported action pos stop ↔ _ := stopsAt_error ran
    constructor
    · intro stays partly
      have back := stays _ ((stops _).mpr ⟨reported_error _ _,rfl⟩)
      omega
    · intro whole stop stopped
      have place := ((stops stop).mp stopped).2
      omega

/-- After the first word every error is behind it. -/
theorem stays_headed {next : UInt32 → Run Nat α} {refuses : UInt32 → List UInt32 → Prop}
    (reports : ∀ word rest, Ahead data pos (word :: rest) →
      ((∃ stop, StopsAt Reported (next word) (pos + 1) stop) ↔ refuses word rest))
    (onward : ∀ word stop, StopsAt Reported (next word) (pos + 1) stop → pos < stop) :
    KeepsPlace (parserDword data >>= next) pos ↔ ¬ ∃ word rest, data.drop pos = word :: rest ∧ refuses word rest := by
  cases start : data.drop pos with
  | nil =>
    have ended : data.length ≤ pos := List.drop_eq_nil_iff.mp start
    refine iff_of_true (fun stop stopped => ?_) (by rintro ⟨word,rest,same,_⟩; simp at same)
    rcases stopsAt_bind.mp stopped with early | ⟨word,between,ran,_⟩
    · exact (stopsAt_dword.mp early).2
    · have inside := (List.getElem?_eq_some_iff.mp (dword_success ran).1).1
      omega
  | cons word rest =>
    have ahead := ahead_of_drop start
    have after (stop : Nat) : StopsAt Reported (parserDword data >>= next) pos stop ↔
        StopsAt Reported (next word) (pos + 1) stop := stopsAt_after (dword_run ahead)
    constructor
    · rintro stays ⟨_,_,same,refused⟩
      obtain ⟨rfl,rfl⟩ := List.cons.inj same
      obtain ⟨stop,stopped⟩ := (reports word rest ahead).mpr refused
      have back := stays stop ((after stop).mpr stopped)
      have moved := onward word stop stopped
      omega
    · intro fine stop stopped
      exact absurd ⟨word,rest,rfl,(reports word rest ahead).mp ⟨stop,(after stop).mp stopped⟩⟩ fine

/-- The payload of a length is checked behind it. -/
theorem stopsAt_payload {word : UInt32} {rest : List UInt32} {bytes : Nat} (ahead : Ahead data pos (word :: rest)) :
    StopsAt Reported (parserBytes data bytes) (pos + 1) stop ↔ rest.length < alignDword bytes / 4 ∧ stop = pos + 1 := by
  have whole := ahead.length_eq
  rw [List.length_cons] at whole
  rw [stopsAt_bytes ahead.next.1]
  exact and_congr_left fun _ => ⟨fun short => by omega,fun short => by omega⟩

theorem stays_string : KeepsPlace (parserString data) pos ↔ ¬ ∃ length rest, data.drop pos = length :: rest ∧
    (length + 1 = 0 ∨ rest.length < alignDword length.toNat / 4) := by
  refine stays_headed (fun length rest ahead => ?_) fun length stop stopped => ?_
  · by_cases wraps : length + 1 = 0
    · rw [if_pos wraps]
      exact iff_of_true ⟨pos + 1,stopsAt_bind.mpr (.inl ⟨.error .nomem "",reported_error _ _,rfl⟩)⟩ (.inl wraps)
    · rw [if_neg wraps,or_iff_right wraps]
      have after (stop : Nat) : StopsAt Reported ((pure () : Run Nat Unit) >>= fun _ => parserBytes data length.toNat)
          (pos + 1) stop ↔ _ := (stopsAt_after (Action.pure_apply () (pos + 1))).trans (stopsAt_payload ahead)
      exact ⟨fun ⟨stop,stopped⟩ => ((after stop).mp stopped).1,fun short => ⟨_,(after _).mpr ⟨short,rfl⟩⟩⟩
  · rcases stopsAt_bind.mp stopped with early | ⟨_,between,ran,later⟩
    · split at early
      · rw [(stopsAt_error (Action.stop_apply _ _)).mp early |>.2]
        exact Nat.lt_succ_self pos
      · exact absurd early (not_stopsAt_pure ())
    · split at ran
      · simp at ran
      · rw [Action.pure_apply,Prod.mk.injEq] at ran
        rw [← ran.2] at later
        rw [stays_bytes _ stop later]
        exact Nat.lt_succ_self pos

theorem stays_buffer : KeepsPlace (parserBuffer data) pos ↔ ¬ ∃ bufSize rest, data.drop pos = bufSize :: rest ∧
    rest.length < alignDword bufSize.toNat / 4 := by
  refine stays_headed (fun bufSize rest ahead => ?_) fun bufSize stop stopped => ?_
  · by_cases empty : bufSize = 0
    · subst empty
      refine iff_of_false (fun ⟨_,stopped⟩ => not_stopsAt_pure none stopped) (Nat.not_lt_zero _)
    · simp only [if_neg empty,stopsAt_map,stopsAt_payload ahead]
      exact ⟨fun ⟨_,short,_⟩ => short,fun short => ⟨_,short,rfl⟩⟩
  · split at stopped
    · exact absurd stopped (not_stopsAt_pure none)
    · rw [stays_bytes _ stop ((stopsAt_map _).mp stopped)]
      exact Nat.lt_succ_self pos

theorem stays_arrayLendian16 : KeepsPlace (parserArrayLendian16 data) pos ↔ ¬ ∃ sizeBytes rest, data.drop pos = sizeBytes :: rest ∧
    (rest = [] ∨ ∃ elementCount rest', rest = elementCount :: rest' ∧ sizeBytes ≠ 0 ∧ elementCount ≠ 0 ∧
      rest'.length < alignDword sizeBytes.toNat / 4) := by
  refine stays_headed (fun sizeBytes rest ahead => ?_) fun sizeBytes stop stopped => ?_
  · cases rest with
    | nil =>
      have ended := ahead.next.length_eq
      rw [List.length_nil] at ended
      exact iff_of_true ⟨pos + 1,stopsAt_bind.mpr (.inl (stopsAt_dword.mpr ⟨Nat.le_of_eq ended,rfl⟩))⟩ (.inl rfl)
    | cons elementCount rest =>
      have whole := ahead.next.length_eq
      rw [List.length_cons] at whole
      simp only [stopsAt_after (dword_run ahead.next),reduceCtorEq,false_or,List.cons.injEq]
      by_cases empty : sizeBytes = 0 ∨ elementCount = 0
      · rw [if_pos empty]
        refine iff_of_false (fun ⟨_,stopped⟩ => not_stopsAt_pure _ stopped) ?_
        rintro ⟨_,_,⟨rfl,_⟩,some,some',_⟩
        exact empty.elim some some'
      · rw [if_neg empty]
        simp only [stopsAt_map,stopsAt_takeBytes]
        rw [not_or] at empty
        constructor
        · rintro ⟨_,short,_⟩
          exact ⟨_,_,⟨rfl,rfl⟩,empty.1,empty.2,by omega⟩
        · rintro ⟨_,_,⟨rfl,rfl⟩,_,_,short⟩
          exact ⟨_,by omega,rfl⟩
  · rcases stopsAt_bind.mp stopped with early | ⟨elementCount,between,ran,later⟩
    · rw [(stopsAt_dword.mp early).2]
      exact Nat.lt_succ_self pos
    · have moved := (dword_success ran).2
      split at later
      · exact absurd later (not_stopsAt_pure _)
      · have place := (stopsAt_takeBytes.mp ((stopsAt_map _).mp later)).2
        omega

/-- The words of an array that is not there in full, or has a size or a count below zero. -/
def BadArray (data : List UInt32) (pos : Nat) (dataSizeBytes elementCount : Int32) : Prop :=
  dataSizeBytes ≤ 0 ∨ elementCount ≤ 0 ∨
    ¬ (0 ≤ (pos : Int) + arrayDwords dataSizeBytes ∧ (pos : Int) + arrayDwords dataSizeBytes ≤ data.length)

theorem int_run {word : UInt32} {rest : List UInt32} (ahead : Ahead data pos (word :: rest)) :
    (parserInt data).run pos = (.ok word.toInt32,pos + 1) := by
  rw [parserInt,Action.bind_ok _ (dword_run ahead)]
  rfl

theorem arrayLendian_short (short : data.length < pos + 2) : (parserArrayLendian data).run pos = (.ok (none,0),pos) := by
  have refused : (roomFor data 2).run pos = (.ok false,pos) := by
    rw [roomFor,Action.read_apply,decide_eq_false (Nat.not_le.mpr short)]
  rw [parserArrayLendian,Action.bind_ok _ refused]
  rfl

/-- Behind the two words of its header, where it stays if there is no array. -/
theorem arrayLendian_none {size count : UInt32} {rest : List UInt32} {found : Option (List UInt8) × Int32}
    (ahead : Ahead data pos (size :: count :: rest)) : (parserArrayLendian data).run pos = (.ok found,stop) ∧ found.1 = none ↔
      BadArray data (pos + 2) size.toInt32 count.toInt32 ∧ found = (none,0) ∧ stop = pos + 2 := by
  have whole := ahead.length_eq
  simp only [List.length_cons] at whole
  have room : (roomFor data 2).run pos = (.ok true,pos) := by
    rw [roomFor,Action.read_apply,decide_eq_true (show pos + 2 ≤ data.length by omega)]
  rw [parserArrayLendian,Action.bind_ok _ room]
  rw [if_pos rfl,Action.bind_ok _ (int_run ahead),Action.bind_ok _ (int_run ahead.next),BadArray]
  have nothing : (pure (none,0) : Run Nat (Option (List UInt8) × Int32)).run (pos + 2) = (.ok found,stop) ∧ found.1 = none ↔
      found = (none,0) ∧ stop = pos + 2 := by
    rw [Action.pure_apply,Prod.mk.injEq,Except.ok.injEq]
    constructor
    · rintro ⟨⟨same,place⟩,_⟩
      exact ⟨same.symm,place.symm⟩
    · rintro ⟨rfl,rfl⟩
      exact ⟨⟨rfl,rfl⟩,rfl⟩
  by_cases invalid : size.toInt32 ≤ 0 ∨ count.toInt32 ≤ 0
  · rw [if_pos invalid,and_iff_right (or_assoc.mp (.inl invalid))]
    exact nothing
  · rw [if_neg invalid,← or_assoc,or_iff_right invalid]
    by_cases signed : 0 ≤ ((pos + 2 : Nat) : Int) + arrayDwords size.toInt32 ∧
        ((pos + 2 : Nat) : Int) + arrayDwords size.toInt32 ≤ data.length
    · have checked : (roomForSigned data (arrayDwords size.toInt32)).run (pos + 2) = (.ok true,pos + 2) := by
        rw [roomForSigned,Action.read_apply,decide_eq_true signed]
      rw [Action.bind_ok _ checked,if_pos rfl]
      refine iff_of_false ?_ fun both => both.1 signed
      rintro ⟨ran,none⟩
      obtain ⟨array,_,_,later⟩ := Action.bind_success ran
      obtain ⟨_,_,_,last⟩ := Action.bind_success later
      rw [Action.pure_apply,Prod.mk.injEq,Except.ok.injEq] at last
      rw [← last.1] at none
      simp at none
    · have checked : (roomForSigned data (arrayDwords size.toInt32)).run (pos + 2) = (.ok false,pos + 2) := by
        rw [roomForSigned,Action.read_apply,decide_eq_false signed]
      rw [Action.bind_ok _ checked,and_iff_right signed]
      exact nothing

end Reads

end Libnmo.Format
