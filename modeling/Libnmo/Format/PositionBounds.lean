import Libnmo.Format.CursorBounds
import Libnmo.Format.SharedOps
import Libnmo.Lib.Machine

/-! The position of a chunk that is read with the chunk API. Every read checks that
its words lie in the data, but for the list of its own sub-chunks that a sub-chunk
declares: the position is moved past that list whether the data goes so far or not. -/
namespace Libnmo.Format
open Core Lib Lib.Cursor

/-- The calls that read a chunk or move its position. A bitmap is read by several of them, each made only
when the one before it returned its value. -/
inductive ReadCall
  | startRead | goto (pos : Nat) | skip (dwords : Nat)
  | typed (call : ChunkCall)
  | stringArray | array | fillBuffer (bufferSize : Nat) | mapBytes (size : Nat)
  | identifier | seekIdentifier (id : UInt32)

def discarded {σ α : Type} (action : Run σ α) : Run σ Unit := do
  let _ ← action
  pure ()

def ReadCall.perform : ReadCall → Run Chunk Unit
  | startRead => chunkStartRead
  | goto pos => chunkGoto pos
  | skip dwords => chunkSkip dwords
  | typed call => discarded (onPosition call.read)
  | stringArray => discarded (onPosition chunkReadStringArray)
  | array => discarded (onPosition chunkReadArray)
  | fillBuffer bufferSize => discarded (onPosition fun data spare => chunkReadAndFillBuffer data spare bufferSize)
  | mapBytes size => discarded (onPosition fun data spare => chunkBitmapMapBytes data spare size)
  | identifier => discarded chunkReadIdentifier
  | seekIdentifier id => chunkSeekIdentifier id

/-- The chunk after a call that returned, with its value or with an error. -/
def readStep (state : Option Chunk) (call : ReadCall) : Option Chunk :=
  state.bind fun c => match call.perform.run c with
    | (.ok _,c') | (.error (.error _ _),c') => some c'
    | (.error _,_) => none

/-- A chunk of which `start_read` was called. -/
def readingStarted (c : Chunk) : Option Chunk := some (chunkStartRead.run c).2

/-- The position of a chunk lies in its data, or right behind it. -/
def PositionInside (c : Chunk) : Prop := ∀ parser ∈ c.parserState, parser.currentPos ≤ c.dataSize

/-- The words at the position head a sub-chunk whose data and IDs lie in the data, and whose list of its own
sub-chunks goes past it. -/
def ListPast (data : List UInt32) (pos : Nat) : Prop :=
  ∃ dataSize idCount chunkCount : UInt32,
    data[pos + 3]? = some dataSize ∧ data[pos + 5]? = some idCount ∧ data[pos + 6]? = some chunkCount ∧
      pos + 8 + dataSize.toNat + idCount.toNat ≤ data.length ∧
      data.length < pos + 8 + dataSize.toNat + idCount.toNat + chunkCount.toNat

def ReadsListPast (c : Chunk) : ReadCall → Prop
  | .typed .subChunk => ∃ parser ∈ c.parserState, ListPast c.words parser.currentPos
  | _ => False

section Positions
variable {data spare : List UInt32} {α β : Type}

theorem canRead_apply (dwords pos : Nat) :
    (canRead data dwords).run pos = (.ok (decide (pos + dwords ≤ data.length)),pos) := rfl

theorem bounded_canRead (dwords : Nat) : Bounded data (canRead data dwords) := Action.keeps_read _

theorem bounded_nextWord : Bounded data (nextWord data) := by
  intro pos inside
  rw [nextWord]
  dsimp only
  split
  · rename_i word found
    exact (List.getElem?_eq_some_iff.mp found).1
  · exact inside

theorem requireWords_room {dwords pos : Nat} (message : String) (room : pos + dwords ≤ data.length) :
    (requireWords data dwords message).run pos = (.ok (),pos) := by
  rw [requireWords,Action.bind_ok _ (canRead_apply dwords pos),if_pos (decide_eq_true room)]
  rfl

theorem requireWords_short {dwords pos : Nat} (message : String) (short : ¬ pos + dwords ≤ data.length) :
    (requireWords data dwords message).run pos = (.error (.error .eof message),pos) := by
  rw [requireWords,Action.bind_ok _ (canRead_apply dwords pos),if_neg (by simpa using short)]
  rfl

/-- What follows the check may rely on it. -/
theorem bounded_required {dwords : Nat} {message : String} {next : Run Nat α}
    (enough : ∀ pos, pos + dwords ≤ data.length → (next.run pos).2 ≤ data.length) :
    Bounded data (requireWords data dwords message >>= fun _ => next) := by
  intro pos inside
  by_cases room : pos + dwords ≤ data.length
  · rw [Action.bind_ok _ (requireWords_room message room)]
    exact enough pos room
  · rw [Action.bind_error _ (requireWords_short message room)]
    exact inside

theorem bounded_requireWords (dwords : Nat) (message : String) : Bounded data (requireWords data dwords message) := by
  intro pos inside
  by_cases room : pos + dwords ≤ data.length
  · rw [requireWords_room message room]
    exact inside
  · rw [requireWords_short message room]
    exact inside

/-- A copy moves the position by the words that it takes, or leaves it. -/
theorem copyOut_inside {bytes dwords pos : Nat} (room : pos + dwords ≤ data.length) :
    ((copyOut data spare bytes dwords).run pos).2 ≤ data.length := by
  rw [copyOut]
  dsimp only
  split
  · exact room
  · exact Nat.le_trans (Nat.le_add_right _ _) room

theorem map_state {σ : Type} {action : Run σ α} (f : α → β) (s : σ) :
    ((action >>= fun value => pure (f value)).run s).2 = (action.run s).2 :=
  congrArg Prod.snd (Action.map_apply action f s)

theorem map_inside {action : Run Nat α} {pos : Nat} (f : α → β) (inside : (action.run pos).2 ≤ data.length) :
    ((action >>= fun value => pure (f value)).run pos).2 ≤ data.length := by
  rwa [map_state]

theorem bounded_copyRequired {bytes dwords : Nat} {message : String} (f : List UInt8 → α) :
    Bounded data (do
      requireWords data dwords message
      let copied ← copyOut data spare bytes dwords
      pure (f copied)) :=
  bounded_required fun _ room => map_inside f (copyOut_inside room)

/-- A copy for which there is room, or the value that stands for none. -/
theorem bounded_copyEnough {bytes dwords : Nat} (f : List UInt8 → α) (otherwise : α) :
    Bounded data (do
      let enough ← canRead data dwords
      if enough then do
        let copied ← copyOut data spare bytes dwords
        pure (f copied)
      else pure otherwise) := by
  intro pos inside
  rw [Action.bind_ok _ (canRead_apply dwords pos)]
  split
  · rename_i room
    exact map_inside f (copyOut_inside (of_decide_eq_true room))
  · exact inside

theorem bounded_chunkReadByte : Bounded data (chunkReadByte data) :=
  Action.keeps_bind (bounded_requireWords _ _) fun _ => bounded_map _ bounded_nextWord

theorem bounded_chunkReadWord : Bounded data (chunkReadWord data) :=
  Action.keeps_bind (bounded_requireWords _ _) fun _ => bounded_map _ bounded_nextWord

theorem bounded_chunkReadInt : Bounded data (chunkReadInt data) :=
  Action.keeps_bind (bounded_requireWords _ _) fun _ => bounded_map _ bounded_nextWord

theorem bounded_chunkReadDword : Bounded data (chunkReadDword data) := bounded_map _ bounded_chunkReadInt

theorem bounded_chunkReadFloat : Bounded data (chunkReadFloat data) :=
  Action.keeps_bind (bounded_requireWords _ _) fun _ => bounded_nextWord

theorem bounded_chunkReadObjectId : Bounded data (chunkReadObjectId data) :=
  Action.keeps_bind (bounded_requireWords _ _) fun _ => bounded_nextWord

theorem bounded_chunkReadGuid : Bounded data (chunkReadGuid data) :=
  Action.keeps_bind (bounded_requireWords _ _) fun _ =>
    Action.keeps_bind bounded_nextWord fun _ => bounded_map _ bounded_nextWord

theorem bounded_chunkReadManagerInt : Bounded data (chunkReadManagerInt data) :=
  Action.keeps_bind (bounded_requireWords _ _) fun _ => Action.keeps_bind bounded_nextWord fun _ =>
    Action.keeps_bind bounded_nextWord fun _ => bounded_map _ bounded_nextWord

theorem bounded_chunkReadString : Bounded data (chunkReadString data spare) := by
  refine Action.keeps_bind (bounded_canRead 1) fun room => ?_
  split
  · refine Action.keeps_bind bounded_nextWord fun len => ?_
    split
    · exact Action.keeps_pure _
    · exact bounded_copyEnough _ _
  · exact Action.keeps_pure _

theorem bounded_chunkReadBuffer : Bounded data (chunkReadBuffer data spare) := by
  refine Action.keeps_bind (bounded_requireWords _ _) fun _ => Action.keeps_bind bounded_nextWord fun size => ?_
  split
  · exact Action.keeps_pure _
  · exact bounded_copyRequired _

theorem bounded_fillBuffer (bufferSize : Nat) : Bounded data (chunkReadAndFillBuffer data spare bufferSize) := by
  refine Action.keeps_bind (bounded_canRead 1) fun room => ?_
  split
  · refine Action.keeps_bind bounded_nextWord fun size => ?_
    split
    · exact Action.keeps_pure _
    · split
      · exact Action.keeps_pure _
      · exact bounded_copyEnough _ _
  · exact Action.keeps_pure _

theorem bounded_mapBytes (size : Nat) : Bounded data (chunkBitmapMapBytes data spare size) := by
  unfold chunkBitmapMapBytes
  split
  · exact Action.keeps_pure none
  · exact bounded_copyRequired _

theorem bounded_sequenceStart : Bounded data (chunkReadObjectSequenceStart data) := bounded_map _ bounded_chunkReadInt

theorem bounded_allocArray (count elemSize : Nat) (message : String) : Bounded data (allocArray count elemSize message) := by
  unfold allocArray
  dsimp only
  split
  · exact Action.keeps_pure ()
  · split <;> exact Action.keeps_stop _

theorem bounded_readCounted {elemSize : Nat} {message : String} {read : Run Nat α} (bounded : Bounded data read) :
    Bounded data (readCounted data elemSize message read) := by
  refine Action.keeps_bind bounded_sequenceStart fun count => ?_
  split
  · exact Action.keeps_pure _
  · exact Action.keeps_bind (bounded_allocArray _ _ _) fun _ => bounded_map _ (bounded_times bounded count)

theorem bounded_stringEntry : Bounded data (readStringEntry data spare) := by
  refine Action.keeps_bind bounded_chunkReadString fun found => ?_
  split
  · exact Action.keeps_stop _
  · exact Action.keeps_pure _

theorem bounded_chunkReadArray : Bounded data (chunkReadArray data spare) := by
  refine Action.keeps_bind bounded_chunkReadDword fun count => Action.keeps_bind bounded_chunkReadDword fun elemSize =>
    bounded_required fun pos room => ?_
  split
  · exact Nat.le_trans (Nat.le_add_right _ _) room
  · exact map_inside _ (copyOut_inside room)

end Positions

section SubChunks
variable {data : List UInt32} {α β : Type}

/-- With fewer than so many words ahead, the action leaves the position in the data. -/
def BoundedShort (data : List UInt32) (words : Nat) (action : Run Nat α) : Prop :=
  ∀ pos, pos ≤ data.length → data.length < pos + words → (action.run pos).2 ≤ data.length

theorem short_zero (action : Run Nat α) : BoundedShort data 0 action := by
  intro pos inside short
  omega

/-- A read of one word, or of none when it fails. -/
theorem short_next {words : Nat} {read : Run Nat α} {next : α → Run Nat β} (bounded : Bounded data read)
    (moves : ∀ pos value pos', read.run pos = (.ok value,pos') → pos' = pos + 1)
    (later : ∀ value, BoundedShort data words (next value)) : BoundedShort data (words + 1) (read >>= next) := by
  intro pos inside short
  have after := bounded pos inside
  rw [Action.bind_apply]
  split
  · rename_i value pos' run
    rw [run] at after
    obtain rfl := moves pos value pos' run
    exact later value _ after (by omega)
  · rename_i run
    rwa [run] at after

/-- A read of the word ahead, and what follows it at the next position. -/
theorem read_ahead {read : Run Nat α} {word : UInt32} {value : α} {pos : Nat} {rest : List UInt32}
    (reads : Reads data read [word] value) (ahead : Ahead data pos (word :: rest)) (next : α → Run Nat β) :
    (read >>= next).run pos = (next value).run (pos + 1) := by
  obtain ⟨pos',run,after⟩ := reads pos rest ahead
  have sizes := ahead.length_eq
  rw [after.length_eq,List.length_cons] at sizes
  obtain rfl : pos' = pos + 1 := by omega
  exact Action.bind_ok next run

theorem short_dword {words : Nat} {next : UInt32 → Run Nat β} (later : ∀ value, BoundedShort data words (next value)) :
    BoundedShort data (words + 1) (chunkReadDword data >>= next) :=
  short_next bounded_chunkReadDword (fun _ _ _ run => chunkReadDword_success run) later

theorem short_word {words : Nat} {next : UInt16 → Run Nat β} (later : ∀ value, BoundedShort data words (next value)) :
    BoundedShort data (words + 1) (chunkReadWord data >>= next) := by
  refine short_next bounded_chunkReadWord (fun pos value pos' run => ?_) later
  obtain ⟨_,start,checked,ran⟩ := Action.bind_success run
  obtain ⟨word,ran,_⟩ := return_success ran
  rw [(nextWord_success ran).2,(requireWords_success checked).2]

theorem takeWords_room {count : UInt32} {pos : Nat} (message : String) (room : pos + count.toNat ≤ data.length) :
    ∃ words, (takeWords data count message).run pos = (.ok words,pos + count.toNat) := by
  rw [takeWords]
  split
  · rename_i zero
    subst zero
    exact ⟨[],rfl⟩
  · refine ⟨slice data pos count.toNat,?_⟩
    rw [Action.bind_ok _ (requireWords_room message room)]
    rfl

theorem takeWords_short {count : UInt32} {message : String} {pos : Nat} (inside : pos ≤ data.length)
    (short : ¬ pos + count.toNat ≤ data.length) :
    (takeWords data count message).run pos = (.error (.error .eof message),pos) := by
  have some : count ≠ 0 := by
    rintro rfl
    exact short inside
  rw [takeWords,if_neg some,Action.bind_error _ (requireWords_short message short)]

/-- The words of a header that lies in the data. -/
theorem header_ahead {pos : Nat} (room : pos + 8 ≤ data.length) : ∃ w0 w1 w2 w3 w4 w5 w6 w7 rest,
    Ahead data pos (w0 :: w1 :: w2 :: w3 :: w4 :: w5 :: w6 :: w7 :: rest) := by
  have long : 8 ≤ (data.drop pos).length := by
    rw [List.length_drop]
    omega
  match held : data.drop pos with
  | w0 :: w1 :: w2 :: w3 :: w4 :: w5 :: w6 :: w7 :: rest =>
    exact ⟨w0,w1,w2,w3,w4,w5,w6,w7,rest,by omega,held⟩
  | [] | [_] | [_,_] | [_,_,_] | [_,_,_,_] | [_,_,_,_,_] | [_,_,_,_,_,_] | [_,_,_,_,_,_,_] =>
    rw [held] at long
    exact absurd long (by simp)

/-- The lists that follow a header, with the counts at their places in it. -/
theorem subChunk_lists {pos : Nat} {w0 w1 w2 w3 w4 w5 w6 w7 : UInt32} {rest : List UInt32}
    (ahead : Ahead data pos (w0 :: w1 :: w2 :: w3 :: w4 :: w5 :: w6 :: w7 :: rest)) :
    ∃ sub : List UInt32 → List UInt32 → Chunk, (chunkReadSubChunk data).run pos = (do
      let words ← takeWords data w3 "Insufficient data"
      let ids ← takeWords data w5 "Insufficient IDs data"
      Action.update (· + w6.toNat)
      pure (sub words ids) : Run Nat Chunk).run (pos + 8) := by
  rw [chunkReadSubChunk,read_ahead (reads_chunkReadDword w0) ahead,
    read_ahead (reads_chunkReadLow w1) ahead.next,read_ahead (reads_chunkReadDword w2) ahead.next.next,
    read_ahead (reads_chunkReadDword w3) ahead.next.next.next,
    read_ahead (reads_chunkReadDword w4) ahead.next.next.next.next,
    read_ahead (reads_chunkReadDword w5) ahead.next.next.next.next.next,
    read_ahead (reads_chunkReadDword w6) ahead.next.next.next.next.next.next,
    read_ahead (reads_chunkReadDword w7) ahead.next.next.next.next.next.next.next]
  exact ⟨_,rfl⟩

theorem listPast_iff {pos : Nat} {w0 w1 w2 w3 w4 w5 w6 w7 : UInt32} {rest : List UInt32}
    (ahead : Ahead data pos (w0 :: w1 :: w2 :: w3 :: w4 :: w5 :: w6 :: w7 :: rest)) :
    ListPast data pos ↔ pos + 8 + w3.toNat + w5.toNat ≤ data.length ∧
      data.length < pos + 8 + w3.toNat + w5.toNat + w6.toNat := by
  have third : data[pos + 3]? = some w3 := ahead.next.next.next.getElem?
  have fifth : data[pos + 5]? = some w5 := ahead.next.next.next.next.next.getElem?
  have sixth : data[pos + 6]? = some w6 := ahead.next.next.next.next.next.next.getElem?
  simp [ListPast,third,fifth,sixth]

theorem listPast_room {pos : Nat} (past : ListPast data pos) : pos + 8 ≤ data.length := by
  obtain ⟨dataSize,idCount,chunkCount,_,_,_,header,_⟩ := past
  omega

/-- A list that goes past the data is skipped all the same. -/
theorem subChunk_past {pos : Nat} (past : ListPast data pos) :
    ∃ sub pos', (chunkReadSubChunk data).run pos = (.ok sub,pos') ∧ data.length < pos' := by
  obtain ⟨w0,w1,w2,w3,w4,w5,w6,w7,rest,ahead⟩ := header_ahead (listPast_room past)
  obtain ⟨ids,over'⟩ := (listPast_iff ahead).mp past
  obtain ⟨sub,lists⟩ := subChunk_lists ahead
  obtain ⟨words,taken⟩ := takeWords_room "Insufficient data" (Nat.le_trans (Nat.le_add_right _ _) ids)
  obtain ⟨tracked,listed⟩ := takeWords_room "Insufficient IDs data" ids
  refine ⟨sub words tracked,pos + 8 + w3.toNat + w5.toNat + w6.toNat,?_,over'⟩
  rw [lists,Action.bind_ok _ taken,Action.bind_ok _ listed,Action.bind_ok _ (Action.update_apply _ _),Action.pure_apply]

theorem subChunk_inside {pos : Nat} (inside : pos ≤ data.length) (calm : ¬ ListPast data pos) :
    ((chunkReadSubChunk data).run pos).2 ≤ data.length := by
  by_cases room : pos + 8 ≤ data.length
  · obtain ⟨w0,w1,w2,w3,w4,w5,w6,w7,rest,ahead⟩ := header_ahead room
    rw [listPast_iff ahead] at calm
    obtain ⟨sub,lists⟩ := subChunk_lists ahead
    rw [lists]
    by_cases words : pos + 8 + w3.toNat ≤ data.length
    · obtain ⟨_,taken⟩ := takeWords_room "Insufficient data" words
      rw [Action.bind_ok _ taken]
      by_cases ids : pos + 8 + w3.toNat + w5.toNat ≤ data.length
      · obtain ⟨_,listed⟩ := takeWords_room "Insufficient IDs data" ids
        rw [Action.bind_ok _ listed,Action.bind_ok _ (Action.update_apply _ _),Action.pure_apply]
        exact Nat.not_lt.mp fun beyond => calm ⟨ids,beyond⟩
      · rw [Action.bind_error _ (takeWords_short words ids)]
        exact words
    · rw [Action.bind_error _ (takeWords_short room words)]
      exact room
  · have short : BoundedShort data 8 (chunkReadSubChunk data) :=
      short_dword fun _ => short_word fun _ => short_dword fun _ => short_dword fun _ => short_dword fun _ =>
        short_dword fun _ => short_dword fun _ => short_dword fun _ => short_zero _
    exact short pos inside (by omega)

end SubChunks

section Calls
variable {c : Chunk} {α : Type}

theorem bounded_typed {data spare : List UInt32} {call : ChunkCall} (flat : call ≠ .subChunk) :
    Bounded data (call.read data spare) := by
  cases call with
  | subChunk => exact absurd rfl flat
  | byte => exact bounded_map _ bounded_chunkReadByte
  | word => exact bounded_map _ bounded_chunkReadWord
  | int => exact bounded_map _ bounded_chunkReadInt
  | dword => exact bounded_map _ bounded_chunkReadDword
  | float => exact bounded_map _ bounded_chunkReadFloat
  | guid => exact bounded_map _ bounded_chunkReadGuid
  | string => exact bounded_map _ bounded_chunkReadString
  | buffer => exact bounded_map _ bounded_chunkReadBuffer
  | objectId | objectSequenceItem => exact bounded_map _ bounded_chunkReadObjectId
  | intArray => exact bounded_map _ (bounded_readCounted bounded_chunkReadInt)
  | floatArray => exact bounded_map _ (bounded_readCounted bounded_chunkReadFloat)
  | dwordArray => exact bounded_map _ (bounded_readCounted bounded_chunkReadDword)
  | byteArray => exact bounded_map _ (bounded_readCounted bounded_chunkReadByte)
  | objectIdArray => exact bounded_map _ (bounded_readCounted bounded_chunkReadObjectId)
  | managerInt => exact bounded_map _ bounded_chunkReadManagerInt
  | objectSequenceStart => exact bounded_map _ bounded_sequenceStart
  | startManagerSequence =>
    exact bounded_map _ (Action.keeps_bind bounded_chunkReadDword fun _ => bounded_map _ bounded_chunkReadGuid)
  | subChunkSequence => exact bounded_map _ (bounded_map _ bounded_chunkReadDword)
  | floats count => exact bounded_map _ (bounded_times bounded_chunkReadFloat count)

theorem inside_setPos (pos : Nat) (within : pos ≤ c.dataSize) : PositionInside (c.setPos pos) := by
  intro parser held
  obtain ⟨_,_,rfl⟩ := Option.map_eq_some_iff.mp held
  exact within

theorem inside_onPosition {action : List UInt32 → List UInt32 → Run Nat α}
    (bounded : ∀ data spare, Bounded data (action data spare)) : Action.Keeps PositionInside (onPosition action) := by
  intro c inside
  rw [onPosition]
  dsimp only
  split
  · exact inside
  · rename_i parser held
    exact inside_setPos _ (bounded c.words c.spare parser.currentPos (inside parser held))

theorem inside_discarded {action : Run Chunk α} (keeps : Action.Keeps PositionInside action) : Action.Keeps PositionInside (discarded action) := by
  intro c inside
  rw [discarded,map_state]
  exact keeps c inside

theorem inside_identifier_read : Action.Keeps PositionInside chunkReadIdentifier := by
  refine Action.keeps_bind (inside_onPosition fun data _ => ?_) fun id =>
    Action.keeps_bind (Action.keeps_update _ fun c inside => ?_) fun _ => Action.keeps_pure id
  · exact Action.keeps_bind (bounded_requireWords 1 _) fun _ => bounded_nextWord
  · intro parser held
    obtain ⟨before,found,rfl⟩ := Option.map_eq_some_iff.mp held
    exact inside before found

theorem inside_goto (pos : Nat) : Action.Keeps PositionInside (chunkGoto pos) := by
  intro c inside
  rw [chunkGoto]
  dsimp only
  split
  · exact inside
  · rename_i within
    split
    · exact inside
    · exact inside_setPos pos (Nat.not_lt.mp within)

theorem inside_skipped (dwords : Nat) : Action.Keeps PositionInside (chunkSkip dwords) := by
  intro c inside
  rw [chunkSkip]
  dsimp only
  split
  · exact inside
  · split
    · exact inside
    · rename_i within
      exact inside_setPos _ (Nat.not_lt.mp within)

theorem inside_sought (id : UInt32) : Action.Keeps PositionInside (chunkSeekIdentifier id) := by
  intro c inside
  rw [chunkSeekIdentifier]
  dsimp only
  split
  · exact inside
  · split
    · exact inside
    · exact inside
    · rename_i pos parser found held
      intro moved same
      cases same
      exact (List.findIdx?_eq_some_iff_getElem.mp found).1

theorem inside_subChunk (inside : PositionInside c) (calm : ¬ ReadsListPast c (.typed .subChunk)) :
    PositionInside ((ReadCall.typed .subChunk).perform.run c).2 := by
  rw [ReadCall.perform,discarded,map_state,onPosition]
  dsimp only
  split
  · exact inside
  · rename_i parser held
    refine inside_setPos _ ?_
    rw [ChunkCall.read,answered,map_state]
    exact subChunk_inside (inside parser held) fun past => calm ⟨parser,held,past⟩

/-- A sub-chunk whose list goes past the data is read, and the position is then past the data too. -/
theorem past_subChunk {call : ReadCall} (past : ReadsListPast c call) :
    ∃ c', call.perform.run c = (.ok (),c') ∧ ¬ PositionInside c' := by
  match call,past with
  | .typed .subChunk,⟨parser,held,past⟩ =>
    obtain ⟨sub,pos',read,beyond⟩ := subChunk_past past
    refine ⟨c.setPos pos',?_,fun inside => ?_⟩
    · have answered : ((ChunkCall.subChunk).read c.words c.spare).run parser.currentPos =
          (.ok (.subChunk (some (subChunkFields sub))),pos') := by
        rw [ChunkCall.read,answered,Action.bind_ok _ read]
        rfl
      have placed : (onPosition ChunkCall.subChunk.read).run c =
          (.ok (.subChunk (some (subChunkFields sub))),c.setPos pos') := by
        rw [Option.mem_def] at held
        simp only [onPosition,held,answered]
      rw [ReadCall.perform,discarded,Action.bind_ok _ placed]
      rfl
    · have within : pos' ≤ c.dataSize := by
        refine inside { parser with currentPos := pos' } ?_
        rw [Option.mem_def] at held ⊢
        rw [Chunk.setPos,held]
        rfl
      exact Nat.not_le.mpr beyond within

/-- A call keeps the position in the data, unless it reads a sub-chunk whose list goes past it. -/
theorem perform_inside (call : ReadCall) (inside : PositionInside c) (calm : ¬ ReadsListPast c call) :
    PositionInside (call.perform.run c).2 := by
  cases call with
  | startRead =>
    intro parser held
    cases held
    exact Nat.zero_le _
  | goto pos => exact inside_goto pos c inside
  | skip dwords => exact inside_skipped dwords c inside
  | stringArray => exact inside_discarded (inside_onPosition fun _ _ => bounded_readCounted bounded_stringEntry) c inside
  | array => exact inside_discarded (inside_onPosition fun _ _ => bounded_chunkReadArray) c inside
  | fillBuffer bufferSize => exact inside_discarded (inside_onPosition fun _ _ => bounded_fillBuffer bufferSize) c inside
  | mapBytes size => exact inside_discarded (inside_onPosition fun _ _ => bounded_mapBytes size) c inside
  | identifier => exact inside_discarded inside_identifier_read c inside
  | seekIdentifier id => exact inside_sought id c inside
  | typed call =>
    by_cases sub : call = .subChunk
    · subst sub
      exact inside_subChunk inside calm
    · exact inside_discarded (inside_onPosition fun _ _ => bounded_typed sub) c inside

theorem readStep_inside (state : Option Chunk) (call : ReadCall) (inside : ∀ c ∈ state, PositionInside c) :
    (∀ c ∈ readStep state call, PositionInside c) ↔ ∀ c ∈ state, ¬ ReadsListPast c call := by
  cases state with
  | none => exact iff_of_true nofun nofun
  | some c =>
    constructor
    · intro after c' held past
      cases held
      obtain ⟨c',read,outside⟩ := past_subChunk past
      refine outside (after c' ?_)
      rw [readStep,Option.bind_some,read]
      rfl
    · intro calm c' held
      have next := perform_inside call (inside c rfl) (calm c rfl)
      rw [readStep,Option.bind_some] at held
      split at held
      · rename_i run
        rw [run] at next
        cases held
        exact next
      · rename_i run
        rw [run] at next
        cases held
        exact next
      · cases held

end Calls

/-- In a run of reads the position is in the data in every state reached just when no
sub-chunk is read whose list of its own sub-chunks goes past the data. -/
theorem position_inside_iff (c : Chunk) (calls : List ReadCall) :
    (∀ done, done <+: calls → ∀ reached ∈ Machine.run readStep (readingStarted c) done, PositionInside reached) ↔
      ∀ visit ∈ Machine.visits readStep (readingStarted c) calls, ∀ before ∈ visit.1, ¬ ReadsListPast before visit.2 := by
  refine Machine.reached_iff (fun _ _ _ => trivial) (fun state call (_ : True) => readStep_inside state call) trivial ?_ calls
  intro started same parser held
  cases same
  cases held
  exact Nat.zero_le _

/-- A header without data or IDs, which declares five sub-chunks of its own. -/
def listedPast : Chunk := { chunkCreate with data := some [7,0,0,0,0,0,5,0] }

theorem listedPast_outside : ¬ ∀ (c : Chunk) (calls done : List ReadCall), done <+: calls →
    ∀ reached ∈ Machine.run readStep (readingStarted c) done, PositionInside reached := by
  intro all
  have inside := all listedPast [.typed .subChunk] _ (List.prefix_refl _) _ rfl _ rfl
  have beyond : (13 : Nat) ≤ 8 := inside
  omega

end Libnmo.Format
