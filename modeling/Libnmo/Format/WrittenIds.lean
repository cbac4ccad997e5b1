import Libnmo.Format.ChunkEdits
import Libnmo.Format.WriterExchange
import Libnmo.Lib.Machine

/-! The IDs list of a chunk that is written, session after session. Every write of an
object ID that is not zero notes its position. No call that starts the data anew drops
what was noted, and a position is noted in 32 bits. -/
namespace Libnmo.Format
open Core Lib Lib.LittleEndian Lib.Cursor

/-- The calls that write a chunk, start it anew or close it. -/
def ChunkEdit.Writing : ChunkEdit → Prop
  | startRead | goto _ | skip _ | seekIdentifier _ => False
  | compress _ | compressIfBeneficial _ _ | decompress | remapObjectIds _ => False
  | _ => True

/-- Object IDs one behind the other, with their positions. -/
def idsAt (pos : Nat) : List UInt32 → List (Nat × UInt32)
  | [] => []
  | id :: ids => (pos,id) :: idsAt (pos + 1) ids

/-- The object IDs that a call is to write from a position on. -/
def ChunkEdit.objectIds : ChunkEdit → Nat → List (Nat × UInt32)
  | writeObjectId id,pos | writeObjectSequenceItem id,pos => idsAt pos [id]
  | writeObjectIdArray (some ids) count,pos => idsAt (pos + 1) (ids.take count)
  | _,_ => []

/-- A chunk, and the object IDs that were written to it since the last start. -/
structure Tracking where
  chunk : Chunk := chunkCreate
  written : List (Nat × UInt32) := []

/-- A start forgets what was written; a write adds the IDs that it got to. -/
def Tracking.after (before : Tracking) (c : Chunk) : ChunkEdit → Tracking
  | .startWrite | .clear => ⟨c,[]⟩
  | edit => ⟨c,before.written ++ (edit.objectIds (chunkGetPosition before.chunk)).filter (·.1 < chunkGetPosition c)⟩

/-- A call that comes back, with its value or with an error. -/
def trackedCall (miniz : Miniz) (s : Tracking) (edit : Surroundings × ChunkEdit) : Result (Tracking × Result Unit) :=
  match (edit.2.perform miniz edit.1).run s.chunk with
  | (.ok (),c) => .ok (s.after c edit.2,.ok ())
  | (.error (.error code message),c) => .ok (s.after c edit.2,.error (.error code message))
  | (.error stop,_) => .error stop

/-- The entry is the position of a word in the data that was written as an object ID, and is not zero. -/
def IsPosition (s : Tracking) (entry : UInt32) : Prop :=
  ∃ id, id ≠ 0 ∧ (entry.toNat,id) ∈ s.written ∧ s.chunk.words[entry.toNat]? = some id

/-- A marker at an index of the list, and behind it the position of a count whose words are in the data, with
such an object ID among them. -/
def IsMarker (s : Tracking) (index : Nat) : Prop :=
  ∃ marker header count pos id, s.chunk.ids[index]? = some marker ∧ isNegative marker ∧
    s.chunk.ids[index + 1]? = some header ∧ s.chunk.words[header.toNat]? = some count ∧
    header.toNat + 1 + count.toNat ≤ s.chunk.dataSize ∧ header.toNat < pos ∧ pos ≤ header.toNat + count.toNat ∧
    id ≠ 0 ∧ (pos,id) ∈ s.written

/-- Every entry is a position, or one of the two entries of a marker. -/
def EntriesSound (s : Tracking) : Prop :=
  ∀ index entry, s.chunk.ids[index]? = some entry →
    IsPosition s entry ∨ IsMarker s index ∨ ∃ before, index = before + 1 ∧ IsMarker s before

/-- A start finds nothing noted, and an object ID that is not zero goes to a position of 32 bits. -/
def NotesWhole (s : Tracking) : ChunkEdit → Prop
  | .startWrite | .clear => s.chunk.ids = []
  | edit => ∀ write ∈ edit.objectIds (chunkGetPosition s.chunk), write.2 ≠ 0 → write.1 < 2 ^ 32

/-- The position is behind the data. -/
def AtEnd (c : Chunk) : Prop := chunkGetPosition c = c.dataSize

/-- Words were added at most, and nothing was noted. -/
def GrownFrom (before c : Chunk) : Prop := before.words <+: c.words ∧ c.ids = before.ids ∧ AtEnd c

section Growing
variable {around : Surroundings} {miniz : Miniz} {before c c' : Chunk} {α : Type}

theorem grown_self (atEnd : AtEnd c) : GrownFrom c c := ⟨List.prefix_refl _,rfl,atEnd⟩

theorem AtEnd.filling {state : ParserState} (atEnd : AtEnd c) (held : c.parserState = some state) : Filling c := by
  rw [AtEnd,chunkGetPosition,held] at atEnd
  rw [Filling,held]
  exact congrArg some atEnd

theorem Filling.atEnd (filling : Filling c) : AtEnd c := by
  obtain ⟨state,held,pos⟩ := filling.state
  rw [AtEnd,chunkGetPosition,held]
  exact pos

/-- A change of other fields. -/
theorem GrownFrom.same (grown : GrownFrom before c) (words : c'.words = c.words) (ids : c'.ids = c.ids)
    (pos : chunkGetPosition c' = chunkGetPosition c) : GrownFrom before c' := by
  rw [GrownFrom,AtEnd,Chunk.dataSize,words,ids,pos]
  exact grown

theorem GrownFrom.fills {words : List UInt32} (grown : GrownFrom before c) (fills : Fills c c' words)
    (ids : c'.ids = c.ids) : GrownFrom before c' := by
  refine ⟨grown.1.trans ?_,ids.trans grown.2.1,fills.filling.atEnd⟩
  rw [fills.words]
  exact List.prefix_append _ _

theorem grows_checkSize (neededDwords : Nat) : Action.Keeps (GrownFrom before) (chunkCheckSize around neededDwords) := by
  intro c grown
  rw [chunkCheckSize]
  dsimp only
  split
  · exact grown
  · rename_i state held
    have pos : state.currentPos = c.dataSize := by
      have atEnd := grown.2.2
      rwa [AtEnd,chunkGetPosition,held] at atEnd
    split
    · exact grown
    · split
      · exact grown
      · split
        · exact grown
        · split
          · exact grown
          · refine grown.same ?_ rfl rfl
            rw [pos,take_buffer]
            simp only [Chunk.replaceBuffer,Chunk.words,Option.getD_some]
            exact List.take_left' rfl

theorem grows_storeWords (words : List UInt32) : Action.Keeps (GrownFrom before) (storeWords words) := by
  intro c grown
  cases ran : (storeWords words).run c with
  | mk outcome c' =>
    rw [storeWords] at ran
    dsimp only at ran
    split at ran
    · cases ran
      exact grown
    · rename_i state held
      split at ran
      · rename_i room
        have stored : (storeWords words).run c = (.ok (),c') := by
          rw [storeWords]
          simp only [held,if_pos room]
          cases ran
          rfl
        cases ran
        exact grown.fills (storeWords_success (grown.2.2.filling held) stored) rfl
      · cases ran
        exact grown

theorem position_map (same : c'.parserState.map ParserState.currentPos = c.parserState.map ParserState.currentPos) :
    chunkGetPosition c' = chunkGetPosition c := by
  have pos (c : Chunk) : chunkGetPosition c = (c.parserState.map ParserState.currentPos).getD 0 := by
    rw [chunkGetPosition]
    cases c.parserState <;> rfl
  rw [pos,pos,same]

theorem grownKept (before : Chunk) : KeptByWrites (GrownFrom before) where
  checkSize _ neededDwords := grows_checkSize neededDwords
  storeWords := grows_storeWords
  update _ same c grown := grown.same (same c).1 (same c).2.1 (position_map (same c).2.2.2)

/-- A chunk that is not to be read back behind its data is closed as it is. -/
theorem grows_close : Action.Keeps (GrownFrom before) chunkClose := by
  intro c grown
  have pos : (c.parserState.getD {}).currentPos = c.dataSize := grown.2.2
  rw [chunkClose,chunkUpdateDataSize,ensureParserState,Action.bind_ok _ (Action.update_apply _ c)]
  dsimp only
  split
  · exact grown.same rfl rfl rfl
  · rename_i past
    exact absurd (Nat.le_of_eq pos) past

end Growing

/-- The IDs were written behind the words, and those that are not zero are noted, as far as the call got. -/
structure Wrote (c c' : Chunk) (ids : List (Nat × UInt32)) : Prop where
  words : c.words <+: c'.words
  noted : ∀ entry ∈ c'.ids, entry ∈ c.ids ∨
    ∃ id, id ≠ 0 ∧ (entry.toNat,id) ∈ ids ∧ c'.words[entry.toNat]? = some id
  atEnd : AtEnd c'

section Writing
variable {around : Surroundings} {miniz : Miniz} {c c' c'' : Chunk} {ids more : List (Nat × UInt32)}

theorem GrownFrom.wrote (grown : GrownFrom c c') : Wrote c c' ids :=
  ⟨grown.1,fun _ member => .inl (grown.2.1 ▸ member),grown.2.2⟩

theorem Wrote.trans (first : Wrote c c' ids) (second : Wrote c' c'' more) : Wrote c c'' (ids ++ more) := by
  refine ⟨first.words.trans second.words,fun entry member => ?_,second.atEnd⟩
  rcases second.noted entry member with member | ⟨id,some,noted,held⟩
  · rcases first.noted entry member with member | ⟨id,some,noted,held⟩
    · exact .inl member
    · obtain ⟨tail,same⟩ := second.words
      obtain ⟨inside,_⟩ := List.getElem?_eq_some_iff.mp held
      refine .inr ⟨id,some,List.mem_append_left _ noted,?_⟩
      rw [← same,List.getElem?_append_left inside,held]
  · exact .inr ⟨id,some,List.mem_append_right _ noted,held⟩

theorem Wrote.weaken (wrote : Wrote c c' ids) (within : ∀ write ∈ ids, write ∈ more) : Wrote c c' more := by
  refine ⟨wrote.words,fun entry member => ?_,wrote.atEnd⟩
  rcases wrote.noted entry member with member | ⟨id,some,noted,held⟩
  · exact .inl member
  · exact .inr ⟨id,some,within _ noted,held⟩

theorem checkSize_state {neededDwords : Nat} (ran : (chunkCheckSize around neededDwords).run c = (.ok (),c')) :
    ∃ state, c.parserState = some state := by
  cases held : c.parserState with
  | none =>
    simp only [chunkCheckSize,held,Prod.mk.injEq] at ran
    cases ran.1
  | some state => exact ⟨state,rfl⟩

theorem storeWords_returned {words : List UInt32} {outcome : Result Unit} (ran : (storeWords words).run c = (outcome,c'))
    (back : returned outcome) : outcome = .ok () := by
  rw [storeWords] at ran
  dsimp only at ran
  split at ran
  · cases ran
    exact back.elim
  · split at ran
    · cases ran
      rfl
    · cases ran
      exact back.elim

/-- A write of one object ID. -/
theorem objectId_wrote {id : UInt32} {outcome : Result Unit} (atEnd : AtEnd c)
    (small : id ≠ 0 → c.dataSize < 2 ^ 32) (ran : (chunkWriteObjectId around id).run c = (outcome,c'))
    (back : returned outcome) :
    Wrote c c' [(c.dataSize,id)] ∧ (outcome = .ok () → c'.dataSize = c.dataSize + 1) := by
  have checkedGrown : GrownFrom c ((chunkCheckSize around 1).run c).2 := grows_checkSize 1 c (grown_self atEnd)
  cases checked : (chunkCheckSize around 1).run c with
  | mk first c₁ =>
    rw [checked] at checkedGrown
    cases first with
    | error stop =>
      rw [chunkWriteObjectId,Action.bind_error _ checked] at ran
      cases ran
      exact ⟨checkedGrown.wrote,nofun⟩
    | ok value =>
      have checkedGrown : GrownFrom c c₁ := checkedGrown
      obtain ⟨state,held⟩ := checkSize_state checked
      have filling := atEnd.filling held
      have same := (checkSize_success filling checked).words
      rw [List.append_nil] at same
      have whole := ran
      rw [chunkWriteObjectId,Action.bind_ok _ checked] at ran
      -- nothing but the check returns an error, so the ID is noted and its word is stored
      by_cases zero : id = 0
      · rw [if_neg (not_not.mpr zero),Action.bind_ok _ (Action.pure_apply () c₁)] at ran
        obtain rfl := storeWords_returned ran back
        have fills := writeObjectId_success filling whole
        have kept := grows_storeWords [id] c₁ checkedGrown
        rw [ran] at kept
        refine ⟨kept.wrote,fun _ => ?_⟩
        rw [Chunk.dataSize,fills.words,List.length_append]
        rfl
      · rw [if_pos zero,recordObjectId,Action.bind_ok _ (Action.update_apply _ c₁)] at ran
        obtain rfl := storeWords_returned ran back
        have fills := writeObjectId_success filling whole
        have size : c₁.dataSize = c.dataSize := congrArg List.length same
        have still : AtEnd { c₁ with
            ids := c₁.ids ++ [UInt32.ofNat (c₁.parserState.getD {}).currentPos]
            chunkOptions := c₁.chunkOptions ||| optionIds } := checkedGrown.2.2
        have kept := grows_storeWords [id] _ (grown_self still)
        rw [ran] at kept
        have pos : (UInt32.ofNat (c₁.parserState.getD {}).currentPos).toNat = c.dataSize := by
          rw [UInt32.toNat_ofNat',show (c₁.parserState.getD {}).currentPos = c.dataSize from checkedGrown.2.2.trans size]
          exact Nat.mod_eq_of_lt (small zero)
        refine ⟨⟨fills.words ▸ List.prefix_append _ _,fun entry member => ?_,fills.filling.atEnd⟩,fun _ => ?_⟩
        · rw [kept.2.1] at member
          rcases List.mem_append.mp member with member | member
          · exact .inl (checkedGrown.2.1 ▸ member)
          · refine .inr ⟨id,zero,?_,?_⟩
            · rw [List.mem_singleton.mp member,pos]
              exact List.mem_singleton_self _
            · rw [List.mem_singleton.mp member,pos,fills.words,Chunk.dataSize,List.getElem?_append_right (Nat.le_refl _),
                Nat.sub_self]
              rfl
        · rw [Chunk.dataSize,fills.words,List.length_append]
          rfl

/-- A loop of such writes. -/
theorem objectIds_wrote {values : List UInt32} {outcome : Result Unit} (atEnd : AtEnd c)
    (small : ∀ write ∈ idsAt c.dataSize values, write.2 ≠ 0 → write.1 < 2 ^ 32)
    (ran : (writeEach (chunkWriteObjectId around) values).run c = (outcome,c')) (back : returned outcome) :
    Wrote c c' (idsAt c.dataSize values) := by
  induction values generalizing c with
  | nil =>
    cases ran
    exact (grown_self atEnd).wrote
  | cons id rest ih =>
    rw [writeEach] at ran
    cases first : (chunkWriteObjectId around id).run c with
    | mk one c₁ =>
      have here := small (c.dataSize,id) (List.mem_cons_self ..)
      cases one with
      | error stop =>
        rw [Action.bind_error _ first] at ran
        cases ran
        refine (objectId_wrote atEnd here first back).1.weaken fun write member => ?_
        rw [List.mem_singleton.mp member]
        exact List.mem_cons_self ..
      | ok value =>
        rw [Action.bind_ok _ first] at ran
        obtain ⟨wrote,size⟩ := objectId_wrote atEnd here first trivial
        have later (write : Nat × UInt32) (member : write ∈ idsAt c₁.dataSize rest) : write ∈ idsAt c.dataSize (id :: rest) := by
          rw [size rfl] at member
          exact List.mem_cons_of_mem _ member
        exact (wrote.trans (ih wrote.atEnd (fun write member => small write (later write member)) ran)).weaken
          fun write member => (List.mem_append.mp member).elim
            (fun single => List.mem_singleton.mp single ▸ List.mem_cons_self ..) (later write)

theorem idArray_wrote {values : List UInt32} {count : Nat} {outcome : Result Unit} (atEnd : AtEnd c)
    (small : ∀ write ∈ idsAt (c.dataSize + 1) (values.take count), write.2 ≠ 0 → write.1 < 2 ^ 32)
    (ran : (chunkWriteObjectIdArray around (some values) count).run c = (outcome,c')) (back : returned outcome) :
    Wrote c c' (idsAt (c.dataSize + 1) (values.take count)) := by
  rw [chunkWriteObjectIdArray,writeCounted] at ran
  cases counted : (chunkWriteDword around (UInt32.ofNat count)).run c with
  | mk first c₁ =>
    have grown : GrownFrom c ((writeWords around [UInt32.ofNat count]).run c).2 :=
      (grownKept c).writeWords _ c (grown_self atEnd)
    rw [show (writeWords around [UInt32.ofNat count]).run c = (first,c₁) from counted] at grown
    have grown : GrownFrom c c₁ := grown
    cases first with
    | error stop =>
      rw [Action.bind_error _ counted] at ran
      cases ran
      exact grown.wrote
    | ok value =>
      obtain ⟨_,_,checked,_⟩ := Action.bind_success counted
      obtain ⟨state,held⟩ := checkSize_state checked
      have fills := writeWords_success (atEnd.filling held) counted
      have size : c₁.dataSize = c.dataSize + 1 := by
        rw [Chunk.dataSize,fills.words,List.length_append]
        rfl
      rw [Action.bind_ok _ counted] at ran
      cases looped : (writeEach (chunkWriteObjectId around) (values.take count)).run c₁ with
      | mk second c₂ =>
        have items (back : returned second) : Wrote c c₂ (idsAt (c.dataSize + 1) (values.take count)) := by
          rw [← size] at small ⊢
          have counted : Wrote c c₁ [] := grown.wrote
          exact counted.trans (objectIds_wrote grown.2.2 small looped back)
        cases second with
        | error stop =>
          rw [Action.bind_error _ looped] at ran
          cases ran
          exact items back
        | ok value =>
          rw [Action.bind_ok _ looped] at ran
          -- an array shorter than the count is read past its end, which is no return
          split at ran
          · cases ran
            exact back.elim
          · cases ran
            exact items trivial

/-- A call that writes leaves the words there, with its object IDs behind them. -/
theorem perform_wrote {edit : ChunkEdit} {outcome : Result Unit} (atEnd : AtEnd c) (writing : edit.Writing)
    (resets : edit ≠ .startWrite ∧ edit ≠ .clear)
    (small : ∀ write ∈ edit.objectIds c.dataSize, write.2 ≠ 0 → write.1 < 2 ^ 32)
    (ran : (edit.perform miniz around).run c = (outcome,c')) (back : returned outcome) :
    Wrote c c' (edit.objectIds c.dataSize) := by
  have plainly (plain : Action.Keeps (GrownFrom c) (edit.perform miniz around)) :
      Wrote c c' (edit.objectIds c.dataSize) := by
    have grown := plain c (grown_self atEnd)
    rw [ran] at grown
    exact GrownFrom.wrote grown
  cases edit with
  | startRead | goto | skip | seekIdentifier | compress | compressIfBeneficial | decompress | remapObjectIds =>
    exact writing.elim
  | startWrite => exact absurd rfl resets.1
  | clear => exact absurd rfl resets.2
  | close => exact plainly grows_close
  | writeObjectId id | writeObjectSequenceItem id =>
    exact (objectId_wrote atEnd (small _ (List.mem_singleton_self _)) ran back).1
  | writeObjectIdArray array count =>
    cases array with
    | some values => exact idArray_wrote atEnd small ran back
    | none =>
      refine plainly ?_
      rw [ChunkEdit.perform,chunkWriteObjectIdArray,writeCounted]
      split
      · exact Action.keeps_stop _
      · exact (grownKept c).writeWords _
  | _ => exact plainly ((grownKept c).perform _ trivial)

end Writing

/-- The position is behind the data, and every entry is a position of an object ID. -/
structure Tracked (s : Tracking) : Prop where
  atEnd : AtEnd s.chunk
  entries : ∀ entry ∈ s.chunk.ids, IsPosition s entry

theorem Tracked.sound {s : Tracking} (tracked : Tracked s) : EntriesSound s :=
  fun _ entry held => .inl (tracked.entries entry (List.mem_of_getElem? held))

section Calls
variable {miniz : Miniz} {around : Surroundings} {s s' : Tracking} {c : Chunk}

/-- A call comes back with the chunk that it leaves, whatever its outcome. -/
theorem trackedCall_returns {edit : ChunkEdit} {answer : Result Unit}
    (returns : trackedCall miniz s (around,edit) = .ok (s',answer)) :
    ∃ c, (edit.perform miniz around).run s.chunk = (answer,c) ∧ returned answer ∧ s' = s.after c edit := by
  rw [trackedCall] at returns
  split at returns
  · rename_i c ran
    cases returns
    exact ⟨c,ran,trivial,rfl⟩
  · rename_i code message c ran
    cases returns
    exact ⟨c,ran,trivial,rfl⟩
  · cases returns

theorem tracked_written {edit : ChunkEdit} (resets : edit ≠ .startWrite ∧ edit ≠ .clear) (tracked : Tracked s)
    (wrote : Wrote s.chunk c (edit.objectIds s.chunk.dataSize)) : Tracked (s.after c edit) := by
  have after : s.after c edit = ⟨c,s.written ++
      (edit.objectIds (chunkGetPosition s.chunk)).filter (·.1 < chunkGetPosition c)⟩ := by
    cases edit with
    | startWrite => exact absurd rfl resets.1
    | clear => exact absurd rfl resets.2
    | _ => rfl
  rw [after,show chunkGetPosition s.chunk = s.chunk.dataSize from tracked.atEnd]
  refine ⟨wrote.atEnd,fun entry member => ?_⟩
  rcases wrote.noted entry member with old | ⟨id,some,written,held⟩
  · obtain ⟨id,some,written,held⟩ := tracked.entries entry old
    obtain ⟨tail,same⟩ := wrote.words
    obtain ⟨inside,_⟩ := List.getElem?_eq_some_iff.mp held
    refine ⟨id,some,List.mem_append_left _ written,?_⟩
    rw [← same,List.getElem?_append_left inside,held]
  · obtain ⟨inside,_⟩ := List.getElem?_eq_some_iff.mp held
    have reached : entry.toNat < chunkGetPosition c := Nat.lt_of_lt_of_eq inside wrote.atEnd.symm
    exact ⟨id,some,List.mem_append_right _ (List.mem_filter.mpr ⟨written,decide_eq_true reached⟩),held⟩

/-- A start of a chunk without noted positions. -/
theorem tracked_started (none : s.chunk.ids = []) (ids : c.ids = s.chunk.ids) (atEnd : AtEnd c)
    (written : List (Nat × UInt32)) : Tracked ⟨c,written⟩ := by
  refine ⟨atEnd,fun entry member => ?_⟩
  rw [ids,none] at member
  cases member

theorem atEnd_resized (c : Chunk) (state : ParserState) : AtEnd { c.resize 0 with parserState := some { state with currentPos := 0 } } := by
  rw [AtEnd,Chunk.dataSize,Chunk.words,Chunk.resize]
  cases c.data <;> rfl

theorem startWrite_atEnd : AtEnd ((chunkStartWrite around).run c).2 ∧ ((chunkStartWrite around).run c).2.ids = c.ids := by
  rw [chunkStartWrite,ensureParserState,Action.bind_ok _ (Action.update_apply _ _),
    Action.bind_ok _ (Action.update_apply _ _),Action.update_apply]
  dsimp only
  split
  · exact ⟨rfl,rfl⟩
  · exact ⟨atEnd_resized { c with parserState := some (c.parserState.getD {}) } _,rfl⟩

theorem tracked_call {edit : Surroundings × ChunkEdit} {answer : Result Unit} (tracked : Tracked s)
    (allowed : edit.2.Writing ∧ NotesWhole s edit.2) (returns : trackedCall miniz s edit = .ok (s',answer)) :
    Tracked s' := by
  obtain ⟨around,edit⟩ := edit
  obtain ⟨c,ran,back,rfl⟩ := trackedCall_returns returns
  have size : chunkGetPosition s.chunk = s.chunk.dataSize := tracked.atEnd
  have written (resets : edit ≠ .startWrite ∧ edit ≠ .clear)
      (small : ∀ write ∈ edit.objectIds s.chunk.dataSize, write.2 ≠ 0 → write.1 < 2 ^ 32) : Tracked (s.after c edit) :=
    tracked_written resets tracked (perform_wrote tracked.atEnd allowed.1 resets small ran back)
  rw [← size] at written
  cases edit with
  | startWrite =>
    have started : AtEnd ((chunkStartWrite around).run s.chunk).2 ∧
        ((chunkStartWrite around).run s.chunk).2.ids = s.chunk.ids := startWrite_atEnd
    rw [show (chunkStartWrite around).run s.chunk = (answer,c) from ran] at started
    exact tracked_started allowed.2 started.2 started.1 []
  | clear =>
    have cleared : AtEnd c ∧ c.ids = s.chunk.ids := by
      cases ran
      exact ⟨atEnd_resized s.chunk {},rfl⟩
    exact tracked_started allowed.2 cleared.2 cleared.1 []
  | _ => exact written ⟨nofun,nofun⟩ allowed.2

end Calls

/-- Calls of which no start finds noted positions, and none notes a position past 32 bits, keep every entry the
position of an object ID that was written since the last start. -/
theorem ids_tracked (miniz : Miniz) {log : List ((Surroundings × ChunkEdit) × Result Unit)} {s : Tracking}
    (reached : Reached (trackedCall miniz) (fun s edit => edit.2.Writing ∧ NotesWhole s edit.2) {} log s) :
    EntriesSound s :=
  have starts : Tracked {} := ⟨(rfl : AtEnd chunkCreate),fun _ member => (List.not_mem_nil member).elim⟩
  Tracked.sound (reached.keeps Tracked starts fun _ _ _ _ tracked allowed returns =>
    tracked_call tracked allowed returns)

/-- A session that notes an object ID. -/
def firstSession : List (Surroundings × ChunkEdit) := [({},.startWrite),({},.writeObjectId 5)]

def secondSession : List (Surroundings × ChunkEdit) := [({},.startWrite),({},.writeObjectId 5),({},.startWrite)]

/-- The chunk behind the first. -/
def noted : Tracking where
  chunk := ((chunkWriteObjectId {} 5).run ((chunkStartWrite {}).run chunkCreate).2).2
  written := [(0,5)]

theorem noted_reached : Reached (trackedCall noMiniz) (fun s edit => edit.2.Writing ∧ NotesWhole s edit.2) {}
    (firstSession.map fun edit => (edit,.ok ())) noted := by
  refine (Reached.start.call ⟨trivial,rfl⟩ rfl).call ⟨trivial,?_⟩ rfl
  intro write member _
  rw [List.mem_singleton.mp member]
  decide

theorem noted_tracked : EntriesSound noted ∧ noted.chunk.ids = [0] :=
  ⟨ids_tracked noMiniz noted_reached,rfl⟩

/-- The next session leaves the position of the last one, in a chunk without data. -/
theorem restarted_stale : ¬ ∀ log s, Reached (trackedCall noMiniz) (fun _ edit => edit.2.Writing) {} log s →
    EntriesSound s := by
  intro sound
  have reached : Reached (trackedCall noMiniz) (fun _ edit => edit.2.Writing) ({} : Tracking)
      (secondSession.map fun edit => (edit,.ok ()))
      ⟨((chunkStartWrite {}).run noted.chunk).2,[]⟩ :=
    ((Reached.start.call trivial rfl).call trivial rfl).call trivial rfl
  rcases sound _ _ reached 0 0 rfl with ⟨id,_,written,_⟩ | ⟨_,_,_,_,_,_,_,behind,_⟩ | ⟨before,past,_⟩
  · exact List.not_mem_nil written
  · cases behind
  · exact absurd past.symm (Nat.succ_ne_zero before)

end Libnmo.Format
