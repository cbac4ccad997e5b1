import Libnmo.Format.SizeChecks

/-! Identifiers among the words of a chunk that is written. An identifier is a word like
any other, and the search takes the first word that is equal to it. So it is found at
its place only where no equal word was written before it. -/
namespace Libnmo.Format
open Core Lib

/-- A chunk, and the identifiers that were written to it since the last start, with their positions. -/
structure Marking where
  chunk : Chunk := chunkCreate
  marks : List (Nat × UInt32) := []

/-- The identifiers after a call that succeeded at a position. -/
def ChunkEdit.marks : ChunkEdit → Nat → List (Nat × UInt32) → List (Nat × UInt32)
  | startWrite,_,_ | clear,_,_ => []
  | writeIdentifier id,pos,marks => marks ++ [(pos,id)]
  | _,_,marks => marks

/-- A call that comes back, with its value or with an error. -/
def markedCall (miniz : Miniz) (s : Marking) (edit : Surroundings × ChunkEdit) : Result (Marking × Result Unit) :=
  match (edit.2.perform miniz edit.1).run s.chunk with
  | (.ok (),c) => .ok (⟨c,edit.2.marks (chunkGetPosition s.chunk) s.marks⟩,.ok ())
  | (.error (.error code message),c) => .ok (⟨c,s.marks⟩,.error (.error code message))
  | (.error stop,_) => .error stop

/-- The chunk after reading calls, whatever each of them returned. -/
def readAfter (calls : List ReadCall) (c : Chunk) : Chunk := calls.foldl (fun c call => (call.perform.run c).2) c

/-- The search finds the identifier exactly when it was written, and then the position is behind it. -/
structure SeeksIdentifier (s : Marking) (c : Chunk) (id : UInt32) : Prop where
  found : ((chunkSeekIdentifier id).run c).1 = .ok () ↔ ∃ pos, (pos,id) ∈ s.marks
  place : ((chunkSeekIdentifier id).run c).1 = .ok () →
    ∃ pos, (pos,id) ∈ s.marks ∧ chunkGetPosition ((chunkSeekIdentifier id).run c).2 = pos + 1

/-- Wherever a data word is equal to the identifier, the identifier was written there or before. -/
def MarkedFirst (s : Marking) (id : UInt32) : Prop :=
  ∀ pos, s.chunk.words[pos]? = some id → ∃ mark ≤ pos, (mark,id) ∈ s.marks

/-- The position is behind the data, and the identifiers lie at their places. -/
structure Marked (s : Marking) : Prop where
  atEnd : AtEnd s.chunk
  places : ∀ mark ∈ s.marks, s.chunk.words[mark.1]? = some mark.2

/-- Words were added at most. -/
def Lengthened (before c : Chunk) : Prop := before.words <+: c.words ∧ AtEnd c

section Lengthening
variable {around : Surroundings} {miniz : Miniz} {before c c' : Chunk}

theorem Lengthened.keeps {α : Type} {action : Run Chunk α}
    (grows : ∀ before, Action.Keeps (GrownFrom before) action) : Action.Keeps (Lengthened before) action := by
  intro c longer
  obtain ⟨words,_,atEnd⟩ := grows { before with ids := c.ids } c ⟨longer.1,rfl,longer.2⟩
  exact ⟨words,atEnd⟩

theorem lengthenedKept (before : Chunk) : KeptByWrites (Lengthened before) where
  checkSize _ neededDwords := Lengthened.keeps fun _ => grows_checkSize neededDwords
  storeWords words := Lengthened.keeps fun _ => grows_storeWords words
  update _ same := Lengthened.keeps fun before => (grownKept before).update _ same

theorem lengthened_writeObjectId (id : UInt32) : Action.Keeps (Lengthened before) (chunkWriteObjectId around id) := by
  refine Action.keeps_bind ((lengthenedKept before).checkSize around 1) fun _ =>
    Action.keeps_bind ?_ fun _ => (lengthenedKept before).storeWords _
  split
  · exact fun c longer => longer
  · exact Action.keeps_pure ()

theorem lengthened_perform {edit : ChunkEdit} (writing : edit.Writing) (resets : edit ≠ .startWrite ∧ edit ≠ .clear) :
    Action.Keeps (Lengthened before) (edit.perform miniz around) := by
  cases edit with
  | startRead | goto | skip | seekIdentifier | compress | compressIfBeneficial | decompress | remapObjectIds =>
    exact writing.elim
  | startWrite => exact absurd rfl resets.1
  | clear => exact absurd rfl resets.2
  | close => exact Lengthened.keeps fun _ => grows_close
  | writeObjectId id | writeObjectSequenceItem id => exact lengthened_writeObjectId id
  | writeObjectIdArray ids count => exact (lengthenedKept before).writeCounted lengthened_writeObjectId ids count
  | _ => exact (lengthenedKept before).perform _ trivial

end Lengthening

section Calls
variable {miniz : Miniz} {s s' : Marking} {c : Chunk}

theorem Marked.lengthened (marked : Marked s) (longer : Lengthened s.chunk c) : Marked ⟨c,s.marks⟩ := by
  refine ⟨longer.2,fun mark member => ?_⟩
  have held := marked.places mark member
  obtain ⟨tail,same⟩ := longer.1
  obtain ⟨inside,_⟩ := List.getElem?_eq_some_iff.mp held
  change c.words[mark.1]? = some mark.2
  rw [← same,List.getElem?_append_left inside,held]

theorem marked_identifier {around : Surroundings} {id : UInt32} (marked : Marked s)
    (ran : (chunkWriteIdentifier around id).run s.chunk = (.ok (),c)) :
    Marked ⟨c,s.marks ++ [(chunkGetPosition s.chunk,id)]⟩ := by
  have longer : Lengthened s.chunk ((chunkWriteIdentifier around id).run s.chunk).2 :=
    (lengthenedKept s.chunk).writeIdentifier id s.chunk ⟨List.prefix_refl _,marked.atEnd⟩
  rw [ran] at longer
  have old := marked.lengthened longer
  obtain ⟨_,c₁,written,moved⟩ := Action.bind_success ran
  obtain ⟨_,_,checked,_⟩ := Action.bind_success written
  obtain ⟨state,held⟩ := checkSize_state checked
  have fills := writeWords_success (marked.atEnd.filling held) written
  refine ⟨old.atEnd,fun mark member => ?_⟩
  rcases List.mem_append.mp member with earlier | last
  · exact old.places mark earlier
  · cases List.mem_singleton.mp last
    have words : c.words = s.chunk.words ++ [id] := by
      cases moved
      exact fills.words
    change c.words[chunkGetPosition s.chunk]? = some id
    rw [words,show chunkGetPosition s.chunk = s.chunk.words.length from marked.atEnd,List.getElem?_concat_length]

theorem marked_call {edit : Surroundings × ChunkEdit} {answer : Result Unit} (marked : Marked s)
    (writing : edit.2.Writing) (returns : markedCall miniz s edit = .ok (s',answer)) : Marked s' := by
  obtain ⟨around,edit⟩ := edit
  have longer (resets : edit ≠ .startWrite ∧ edit ≠ .clear) {outcome : Result Unit} {c : Chunk}
      (ran : (edit.perform miniz around).run s.chunk = (outcome,c)) : Marked ⟨c,s.marks⟩ := by
    have kept : Lengthened s.chunk ((edit.perform miniz around).run s.chunk).2 :=
      lengthened_perform writing resets s.chunk ⟨List.prefix_refl _,marked.atEnd⟩
    rw [ran] at kept
    exact marked.lengthened kept
  rw [markedCall] at returns
  split at returns
  · rename_i c ran
    cases returns
    cases edit with
    | startWrite =>
      have started : AtEnd ((chunkStartWrite around).run s.chunk).2 := startWrite_atEnd.1
      rw [show (chunkStartWrite around).run s.chunk = (.ok (),c) from ran] at started
      exact ⟨started,nofun⟩
    | clear =>
      cases ran
      exact ⟨atEnd_resized s.chunk {},nofun⟩
    | writeIdentifier id => exact marked_identifier marked ran
    | _ => exact longer ⟨nofun,nofun⟩ ran
  · rename_i code message c ran
    cases returns
    refine longer ⟨?_,?_⟩ ran
    · rintro rfl
      cases ran
    · rintro rfl
      cases ran
  · cases returns

/-- A chunk with data was started. -/
theorem Marked.started {pos : Nat} (marked : Marked s) (inside : pos < s.chunk.words.length) :
    s.chunk.parserState.isSome := by
  have atEnd := marked.atEnd
  rw [AtEnd,chunkGetPosition] at atEnd
  cases held : s.chunk.parserState with
  | none =>
    rw [held] at atEnd
    have size : 0 = s.chunk.words.length := atEnd
    omega
  | some state => rfl

end Calls

section Seeking
variable {s : Marking} {c : Chunk} {id : UInt32}

theorem readAfter_words (calls : List ReadCall) (c : Chunk) : (readAfter calls c).words = c.words := by
  induction calls generalizing c with
  | nil => rfl
  | cons call rest ih =>
    rw [readAfter,List.foldl_cons]
    have words : (call.perform.run c).2.words = c.words := by rw [Chunk.words,(moving_read call c).1,Chunk.words]
    exact (ih _).trans words

theorem started_position {α : Type} (action : List UInt32 → List UInt32 → Run Nat α) :
    Action.Keeps (fun c => c.parserState.isSome) (onPosition action) := by
  intro c started
  rw [onPosition]
  dsimp only
  split
  · exact started
  · simp only [Chunk.setPos,Option.isSome_map,started]

theorem started_discarded {α : Type} {action : Run Chunk α}
    (keeps : Action.Keeps (fun c => c.parserState.isSome) action) :
    Action.Keeps (fun c => c.parserState.isSome) (discarded action) :=
  Action.keeps_bind keeps fun _ => Action.keeps_pure ()

theorem started_read (call : ReadCall) : Action.Keeps (fun c => c.parserState.isSome) call.perform := by
  cases call with
  | startRead => exact fun _ _ => rfl
  | goto pos =>
    intro c started
    rw [ReadCall.perform,chunkGoto]
    dsimp only
    split
    · exact started
    · split
      · exact started
      · simp only [Chunk.setPos,Option.isSome_map,started]
  | skip dwords =>
    intro c started
    rw [ReadCall.perform,chunkSkip]
    dsimp only
    split
    · exact started
    · split
      · exact started
      · simp only [Chunk.setPos,Option.isSome_map,started]
  | typed | stringArray | array | fillBuffer | mapBytes => exact started_discarded (started_position _)
  | identifier =>
    exact started_discarded (Action.keeps_bind (started_position _) fun id =>
      Action.keeps_bind (Action.keeps_update _ fun _ started => by rwa [Option.isSome_map]) fun _ => Action.keeps_pure id)
  | seekIdentifier id =>
    intro c started
    rw [ReadCall.perform,chunkSeekIdentifier]
    dsimp only
    split
    · exact started
    · split
      · exact started
      · exact started
      · rfl

theorem readAfter_started (calls : List ReadCall) (started : c.parserState.isSome) :
    (readAfter calls c).parserState.isSome := by
  induction calls generalizing c with
  | nil => exact started
  | cons call rest ih =>
    rw [readAfter,List.foldl_cons]
    exact ih (started_read call c started)

/-- The first word that is equal to the identifier, if there is one. -/
theorem firstWord_cases (words : List UInt32) (id : UInt32) :
    (words.findIdx? (· = id) = none ∧ ∀ pos : Nat, words[pos]? ≠ some id) ∨
      ∃ first, words.findIdx? (· = id) = some first ∧ words[first]? = some id ∧
        ∀ pos : Nat, words[pos]? = some id → first ≤ pos := by
  cases found : words.findIdx? (· = id) with
  | none =>
    refine .inl ⟨rfl,fun pos held => ?_⟩
    have other := List.findIdx?_eq_none_iff.mp found id (List.mem_of_getElem? held)
    simp at other
  | some first =>
    obtain ⟨inside,equal,earlier⟩ := List.findIdx?_eq_some_iff_getElem.mp found
    refine .inr ⟨first,rfl,?_,fun pos held => ?_⟩
    · rw [List.getElem?_eq_getElem inside,of_decide_eq_true equal]
    · obtain ⟨within,same⟩ := List.getElem?_eq_some_iff.mp held
      by_contra before
      exact earlier pos (Nat.not_le.mp before) (decide_eq_true same)

theorem seek_missing (absent : c.words.findIdx? (· = id) = none) : ((chunkSeekIdentifier id).run c).1 ≠ .ok () := by
  simp only [chunkSeekIdentifier,absent]
  split <;> rintro ⟨⟩

theorem seek_found {first : Nat} (found : c.words.findIdx? (· = id) = some first) (started : c.parserState.isSome) :
    (chunkSeekIdentifier id).run c = (.ok (),{ c with parserState := some ⟨first + 1,first⟩ }) := by
  obtain ⟨state,held⟩ := Option.isSome_iff_exists.mp started
  obtain ⟨inside,_⟩ := List.findIdx?_eq_some_iff_getElem.mp found
  have some' : ¬ c.dataSize = 0 := by
    rw [Chunk.dataSize]
    omega
  simp only [chunkSeekIdentifier,if_neg some',found,held]

end Seeking

/-- In every chunk that is written and then read, the search finds an identifier where it was written, and
only there, exactly when no equal word lies before the first that was written as this identifier. -/
theorem seeksIdentifier_iff (miniz : Miniz) {log : List ((Surroundings × ChunkEdit) × Result Unit)} {s : Marking}
    (reached : Reached (markedCall miniz) (fun _ edit => edit.2.Writing) {} log s) (calls : List ReadCall) (id : UInt32) :
    SeeksIdentifier s (readAfter calls s.chunk) id ↔ MarkedFirst s id := by
  have starts : Marked {} := ⟨(rfl : AtEnd chunkCreate),fun _ member => (List.not_mem_nil member).elim⟩
  have marked : Marked s := reached.keeps Marked starts fun _ _ _ _ marked writing returns =>
    marked_call marked writing returns
  have words := readAfter_words calls s.chunk
  rcases firstWord_cases s.chunk.words id with ⟨none,absent⟩ | ⟨first,found,held,least⟩
  · rw [← words] at none
    have fails := seek_missing none
    refine iff_of_true ⟨⟨fun ok => absurd ok fails,?_⟩,fun ok => absurd ok fails⟩ fun pos equal => absurd equal (absent pos)
    rintro ⟨pos,member⟩
    exact absurd (marked.places _ member) (absent pos)
  · obtain ⟨inside,_⟩ := List.getElem?_eq_some_iff.mp held
    rw [← words] at found
    have run := seek_found found (readAfter_started calls (marked.started inside))
    constructor
    · intro seeks
      obtain ⟨pos,member,behind⟩ := seeks.place (by rw [run])
      rw [run] at behind
      obtain rfl : first = pos := Nat.succ.inj behind
      exact fun pos equal => ⟨first,least pos equal,member⟩
    · intro ahead
      obtain ⟨mark,within,member⟩ := ahead first held
      obtain rfl : mark = first := Nat.le_antisymm within (least mark (marked.places _ member))
      refine ⟨?_,fun _ => ⟨mark,member,?_⟩⟩
      · rw [run]
        exact iff_of_true rfl ⟨mark,member⟩
      · rw [run]
        rfl

/-- An identifier with a payload word behind it. -/
def identified : Marking where
  chunk := ((chunkWriteDword {} 9).run ((chunkWriteIdentifier {} 5).run ((chunkStartWrite {}).run chunkCreate).2).2).2
  marks := [(0,5)]

def identifiedSession : List (Surroundings × ChunkEdit) :=
  [({},.startWrite),({},.writeIdentifier 5),({},.writeDword 9)]

theorem identified_reached : Reached (markedCall noMiniz) (fun _ edit => edit.2.Writing) {}
    (identifiedSession.map fun edit => (edit,.ok ())) identified :=
  ((Reached.start.call trivial rfl).call trivial rfl).call trivial rfl

theorem identified_sought : SeeksIdentifier identified (readAfter [.startRead] identified.chunk) 5 ↔
    MarkedFirst identified 5 :=
  seeksIdentifier_iff noMiniz identified_reached [.startRead] 5

/-- The payload word is taken for an identifier that was never written. -/
theorem payload_found : ¬ ∀ log s, Reached (markedCall noMiniz) (fun _ edit => edit.2.Writing) {} log s →
    ∀ calls id, SeeksIdentifier s (readAfter calls s.chunk) id := by
  intro seeks
  obtain ⟨pos,member⟩ := (seeks _ _ identified_reached [.startRead] 9).found.mp rfl
  have mark := List.mem_singleton.mp member
  cases mark

end Libnmo.Format
