import Libnmo.Format.ParserOps

/-! The cursor of a parser lies in the data as long as no seek comes to rest at an
identifier in the last word: the position two words on, behind the pair, is then
past the end, where a read of an identifier would have been refused. -/
namespace Libnmo.Format
open Core Lib Lib.Cursor

def InsideData (p : ChunkParser) : Prop := p.cursor ≤ p.chunk.dataSize

section Cursors
variable {data : List UInt32} {α β : Type}

/-- Whatever comes of it, the action leaves a cursor that was in the data there. -/
def Bounded (data : List UInt32) (action : Run Nat α) : Prop := Action.Keeps (· ≤ data.length) action

theorem bounded_map {action : Run Nat α} (f : α → β) (bounded : Bounded data action) :
    Bounded data (action >>= fun value => pure (f value)) :=
  Action.keeps_bind bounded fun value => Action.keeps_pure (f value)

theorem bounded_checkBounds (dwordsNeeded : Nat) : Bounded data (checkBounds data dwordsNeeded) := by
  intro cursor inside
  rw [checkBounds]
  dsimp only
  split <;> exact inside

/-- What follows a check may rely on it. -/
theorem bounded_checked {dwordsNeeded : Nat} {next : Run Nat α}
    (enough : ∀ cursor, cursor + dwordsNeeded ≤ data.length → (next.run cursor).2 ≤ data.length) :
    Bounded data (checkBounds data dwordsNeeded >>= fun _ => next) := by
  intro cursor inside
  by_cases room : cursor + dwordsNeeded ≤ data.length
  · rw [Action.bind_ok (a := ()) (t := cursor) _ (by simp only [checkBounds,if_pos room])]
    exact enough cursor room
  · rw [Action.bind_error (t := cursor) (e := .error .eof "") _ (by simp only [checkBounds,if_neg room])]
    exact inside

theorem bounded_dword : Bounded data (parserDword data) := by
  intro cursor inside
  rw [parserDword]
  dsimp only
  split
  · rename_i word found
    exact (List.getElem?_eq_some_iff.mp found).1
  · exact inside

theorem bounded_words (count : Nat) : Bounded data (parserWords data count) :=
  bounded_checked fun _ room => room

theorem bounded_dwords (count : UInt32) : Bounded data (parserDwords data count) := by
  unfold parserDwords
  split
  · exact bounded_checked fun _ room => room
  · exact Action.keeps_pure []

theorem copyBytes_stays (bytes cursor : Nat) : ((copyBytes data bytes).run cursor).2 = cursor := by
  rw [copyBytes]
  dsimp only
  split <;> rfl

/-- A copy leaves the cursor, so what follows it starts there. -/
theorem bounded_afterCopy {bytes cursor : Nat} {next : List UInt8 → Run Nat α} (inside : cursor ≤ data.length)
    (rest : ∀ copied, ((next copied).run cursor).2 ≤ data.length) :
    ((copyBytes data bytes >>= next).run cursor).2 ≤ data.length := by
  have stays : ((copyBytes data bytes).run cursor).2 = cursor := copyBytes_stays bytes cursor
  rw [Action.bind_apply]
  split
  · rename_i copied cursor' run
    rw [run] at stays
    obtain rfl : cursor' = cursor := stays
    exact rest copied
  · rename_i stop cursor' run
    rw [run] at stays
    obtain rfl : cursor' = cursor := stays
    exact inside

theorem bounded_takeBytes (bytes dwords : Nat) : Bounded data (takeBytes data bytes dwords) :=
  bounded_checked fun _ room => bounded_afterCopy (Nat.le_trans (Nat.le_add_right _ _) room) fun _ => room

theorem bounded_word : Bounded data (parserWord data) := bounded_map _ bounded_dword

theorem bounded_int : Bounded data (parserInt data) := bounded_map _ bounded_dword

theorem bounded_dwordAsWords : Bounded data (parserDwordAsWords data) :=
  Action.keeps_bind bounded_word fun _ => bounded_map _ bounded_word

theorem bounded_times {action : Run Nat α} (bounded : Bounded data action) (count : Nat) :
    Bounded data (action.times count) := by
  induction count with
  | zero => exact Action.keeps_pure []
  | succ count ih => exact Action.keeps_bind bounded fun value => bounded_map (value :: ·) ih

theorem bounded_guid : Bounded data (parserGuid data) :=
  Action.keeps_bind (bounded_checkBounds 2) fun _ => Action.keeps_bind bounded_dword fun _ => bounded_map _ bounded_dword

theorem bounded_managerInt : Bounded data (parserManagerInt data) := by
  refine Action.keeps_bind (Action.keeps_read _) fun room => ?_
  split
  · exact Action.keeps_bind bounded_dword fun _ => Action.keeps_bind bounded_dword fun _ => bounded_map _ bounded_int
  · exact Action.keeps_pure _

theorem bounded_bytes (bytes : Nat) : Bounded data (parserBytes data bytes) := by
  unfold parserBytes
  split
  · exact Action.keeps_pure []
  · exact bounded_takeBytes _ _

theorem bounded_string : Bounded data (parserString data) := by
  refine Action.keeps_bind bounded_dword fun length => Action.keeps_bind ?_ fun _ => bounded_bytes _
  split
  · exact Action.keeps_stop _
  · exact Action.keeps_pure ()

theorem bounded_buffer : Bounded data (parserBuffer data) := by
  refine Action.keeps_bind bounded_dword fun bufSize => ?_
  split
  · exact Action.keeps_pure none
  · exact bounded_map _ (bounded_bytes _)

theorem bounded_bufferNosize (bytes : Nat) : Bounded data (parserBufferNosize data bytes) := by
  unfold parserBufferNosize
  split
  · exact Action.keeps_pure []
  · exact bounded_takeBytes _ _

theorem bounded_bufferLendian16 (bytes : Nat) : Bounded data (parserBufferLendian16 data bytes) := by
  unfold parserBufferLendian16
  split
  · exact Action.keeps_pure []
  · exact bounded_map _ (bounded_takeBytes _ _)

theorem bounded_signed (dataSizeBytes elementCount : Int32) : Bounded data (do
    let room ← roomForSigned data (arrayDwords dataSizeBytes)
    if room then do
      let array ← copyBytes data dataSizeBytes.toInt.toNat
      Action.update fun cursor : Nat => ((cursor : Int) + arrayDwords dataSizeBytes).toNat
      pure (some array,elementCount)
    else pure (none,0)) := by
  intro cursor inside
  rw [Action.bind_ok (t := cursor) (a := decide (0 ≤ (cursor : Int) + arrayDwords dataSizeBytes ∧
    (cursor : Int) + arrayDwords dataSizeBytes ≤ data.length)) _ rfl]
  split
  · rename_i room
    refine bounded_afterCopy inside fun copied => ?_
    change ((cursor : Int) + arrayDwords dataSizeBytes).toNat ≤ data.length
    have signed := of_decide_eq_true room
    omega
  · exact inside

theorem bounded_arrayLendian : Bounded data (parserArrayLendian data) := by
  refine Action.keeps_bind (Action.keeps_read _) fun room => ?_
  split
  · refine Action.keeps_bind bounded_int fun dataSizeBytes => Action.keeps_bind bounded_int fun elementCount => ?_
    split
    · exact Action.keeps_pure _
    · exact bounded_signed dataSizeBytes elementCount
  · exact Action.keeps_pure _

theorem bounded_arrayLendian16 : Bounded data (parserArrayLendian16 data) := by
  refine Action.keeps_bind bounded_dword fun sizeBytes => Action.keeps_bind bounded_dword fun elementCount => ?_
  split
  · exact Action.keeps_pure _
  · exact bounded_map _ (bounded_takeBytes _ _)

theorem bounded_managerCount (chunkVersion : UInt32) : Bounded data (parserManagerCount data chunkVersion) := by
  unfold parserManagerCount
  split
  · exact bounded_dword
  · exact Action.keeps_pure 0

theorem bounded_subchunkBody (sizeDwords : UInt32) : Bounded data (readSubchunkBody data sizeDwords) :=
  Action.keeps_bind (bounded_checkBounds _) fun _ => Action.keeps_bind bounded_dword fun _ =>
    Action.keeps_bind bounded_dword fun _ => Action.keeps_bind bounded_dword fun _ =>
    Action.keeps_bind bounded_dword fun _ => Action.keeps_bind bounded_dword fun _ =>
    Action.keeps_bind bounded_dword fun _ => Action.keeps_bind (bounded_managerCount _) fun _ =>
    Action.keeps_bind (bounded_dwords _) fun _ => Action.keeps_bind (bounded_dwords _) fun _ =>
    Action.keeps_bind (bounded_dwords _) fun _ => bounded_map _ (bounded_dwords _)

end Cursors

section Steps
variable {p : ChunkParser} {α : Type}

theorem inside_onCursor {action : List UInt32 → Run Nat α} (bounded : ∀ data, Bounded data (action data)) :
    Action.Keeps InsideData (onCursor action) := fun p inside => bounded p.chunk.words p.cursor inside

theorem inside_answering {σ : Type} {inv : σ → Prop} {answer : α → ParserAnswer} {action : Run σ α}
    (keeps : Action.Keeps inv action) : Action.Keeps inv (answering answer action) :=
  Action.keeps_bind keeps fun value => Action.keeps_pure (answer value)

theorem inside_reading {answer : α → ParserAnswer} {action : List UInt32 → Run Nat α}
    (bounded : ∀ data, Bounded data (action data)) : Action.Keeps InsideData (reading answer action) :=
  inside_onCursor fun data => inside_answering (bounded data)

theorem inside_dword : Action.Keeps InsideData (onCursor parserDword) := inside_onCursor fun _ => bounded_dword

theorem inside_seek (pos : Nat) : Action.Keeps InsideData (parserSeek pos) := by
  intro p inside
  rw [parserSeek]
  dsimp only
  split
  · exact inside
  · rename_i within
    exact Nat.not_lt.mp within

theorem inside_skip (dwords : Nat) : Action.Keeps InsideData (parserSkip dwords) := by
  intro p inside
  rw [parserSkip]
  dsimp only
  split
  · exact inside
  · rename_i within
    exact Nat.not_lt.mp within

theorem inside_objectId : Action.Keeps InsideData parserObjectId := by
  refine Action.keeps_bind inside_dword fun rawId => Action.keeps_bind (Action.keeps_read _) fun resolved =>
    Action.keeps_bind (Action.keeps_update _ fun p inside => ?_) fun _ => Action.keeps_pure resolved
  split <;> exact inside

theorem inside_startObjectSequence : Action.Keeps InsideData parserStartObjectSequence :=
  Action.keeps_bind inside_dword fun count =>
    Action.keeps_bind (Action.keeps_update _ fun _ inside => inside) fun _ => Action.keeps_pure count.toInt32

theorem inside_startReadSequence : Action.Keeps InsideData parserStartReadSequence :=
  Action.keeps_bind inside_dword fun count =>
    Action.keeps_bind (Action.keeps_update _ fun _ inside => inside) fun _ => Action.keeps_pure count.toInt32

theorem inside_startManagerSequence : Action.Keeps InsideData parserStartManagerSequence :=
  Action.keeps_bind (inside_onCursor fun _ => bounded_checkBounds 3) fun _ =>
    Action.keeps_bind inside_dword fun count => Action.keeps_bind inside_dword fun d1 =>
    Action.keeps_bind inside_dword fun d2 => Action.keeps_bind (Action.keeps_update _ fun _ inside => inside) fun _ =>
    Action.keeps_pure ((⟨d1,d2⟩ : Guid),count.toInt32)

theorem inside_managerIntSequence : Action.Keeps InsideData parserManagerIntSequence := by
  refine Action.keeps_bind (Action.keeps_read _) fun inside =>
    Action.keeps_bind (inside_onCursor fun _ => Action.keeps_read _) fun room => ?_
  split
  · exact Action.keeps_bind (inside_onCursor fun _ => bounded_int) fun value =>
      Action.keeps_bind (Action.keeps_update _ fun _ inside => inside) fun _ => Action.keeps_pure value
  · exact Action.keeps_pure 0

theorem inside_subchunk : Action.Keeps InsideData parserReadSubchunk := by
  have slot : Action.Keeps InsideData requireSubchunkSlot := by
    intro p inside
    rw [requireSubchunkSlot]
    dsimp only
    split <;> exact inside
  have consume : Action.Keeps InsideData consumeSubchunkSlot := by
    refine Action.keeps_update _ fun p inside => ?_
    split <;> exact inside
  refine Action.keeps_bind slot fun _ => Action.keeps_bind inside_dword fun sizeDwords => ?_
  split
  · exact Action.keeps_bind consume fun _ => Action.keeps_pure none
  · exact Action.keeps_bind (inside_onCursor fun _ => bounded_subchunkBody sizeDwords) fun sub =>
      Action.keeps_bind consume fun _ => Action.keeps_pure (some sub)

/-- Both words of the pair are in the data before the first is read. -/
theorem inside_identifier : Action.Keeps InsideData parserReadIdentifier := by
  intro p inside
  by_cases room : p.cursor + 2 ≤ p.chunk.words.length
  · obtain ⟨word,found⟩ : ∃ word, p.chunk.words[p.cursor]? = some word := ⟨_,List.getElem?_eq_getElem (by omega)⟩
    let after : ChunkParser := { p with prevIdentifierPos := p.cursor, cursor := p.cursor + 1 }
    have read : (onCursor parserDword).run { p with prevIdentifierPos := p.cursor } = (.ok word,after) := by
      simp only [onCursor,parserDword,found,after]
    rw [parserReadIdentifier,Action.bind_ok (a := ()) (t := p) _ (by simp only [onCursor,checkBounds,if_pos room]),
      Action.bind_ok _ (Action.update_apply _ p),Action.bind_ok _ read]
    exact room
  · rw [parserReadIdentifier,Action.bind_error (t := p) (e := .error .eof "") _
      (by simp only [onCursor,checkBounds,if_neg room])]
    exact inside

/-- The seek comes to rest at an identifier in the last word, which has no position behind it. -/
def RestsAtLast (p : ChunkParser) : ParserOp → Prop
  | .seekIdentifier identifier | .seekIdentifierWithSize identifier => Sought p identifier (p.chunk.dataSize - 1)
  | _ => False

theorem seekIdentifier_inside (inside : InsideData p) (identifier : UInt32) :
    InsideData ((parserSeekIdentifier identifier).run p).2 ↔ ¬ Sought p identifier (p.chunk.dataSize - 1) := by
  rcases parserSeekIdentifier_cases identifier p with ⟨k,sought,run⟩ | ⟨absent,stop,run⟩
  · rw [run]
    obtain ⟨_,_,_,found⟩ := id sought
    have within : k < p.chunk.dataSize := (List.getElem?_eq_some_iff.mp found).1
    change k + 2 ≤ p.chunk.dataSize ↔ _
    constructor
    · intro room last
      have same := sought_unique sought last
      omega
    · intro other
      by_contra beyond
      exact other ((show k = p.chunk.dataSize - 1 by omega) ▸ sought)
  · rw [run]
    exact iff_of_true inside (absent _)

/-- What only looks at the outcome leaves the state that it came with. -/
theorem reading_state {σ β γ : Type} (action : Run σ β) (f : σ → γ) (s : σ) :
    ((action >>= fun _ => Action.read f).run s).2 = (action.run s).2 := by
  rw [Action.bind_apply]
  split
  · rename_i run
    rw [run]
    rfl
  · rename_i run
    rw [run]

theorem answering_state {σ : Type} (answer : α → ParserAnswer) (action : Run σ α) (s : σ) :
    ((answering answer action).run s).2 = (action.run s).2 := by
  rw [answering,Action.bind_apply]
  split
  · rename_i run
    rw [run]
    rfl
  · rename_i run
    rw [run]

theorem step_inside (inside : InsideData p) (op : ParserOp) :
    InsideData ((parserStep op).run p).2 ↔ ¬ RestsAtLast p op := by
  have keeps (kept : Action.Keeps InsideData (parserStep op)) (moves : ¬ RestsAtLast p op) :
      InsideData ((parserStep op).run p).2 ↔ ¬ RestsAtLast p op := iff_of_true (kept p inside) moves
  cases op with
  | seekIdentifier identifier =>
    rw [parserStep,answering_state]
    exact seekIdentifier_inside inside identifier
  | seekIdentifierWithSize identifier =>
    rw [parserStep,answering_state,parserSeekIdentifierWithSize,reading_state]
    exact seekIdentifier_inside inside identifier
  | setFileContext ctx => exact keeps (inside_answering (Action.keeps_update _ fun _ inside => inside)) id
  | tell | remaining | lockReadBuffer => exact keeps (inside_answering (Action.keeps_read _)) id
  | seek pos => exact keeps (inside_answering (inside_seek pos)) id
  | skip dwords => exact keeps (inside_answering (inside_skip dwords)) id
  | byte | word => exact keeps (inside_reading fun _ => bounded_map _ bounded_dword) id
  | dword | float => exact keeps (inside_reading fun _ => bounded_dword) id
  | int => exact keeps (inside_reading fun _ => bounded_int) id
  | guid => exact keeps (inside_reading fun _ => bounded_guid) id
  | dwordAsWords => exact keeps (inside_reading fun _ => bounded_dwordAsWords) id
  | dwordArrayAsWords count => exact keeps (inside_reading fun _ => bounded_times bounded_dwordAsWords count) id
  | vector2 | vector | vector4 | matrix | quaternion | color => exact keeps (inside_reading fun _ => bounded_words _) id
  | string => exact keeps (inside_reading fun _ => bounded_string) id
  | buffer => exact keeps (inside_reading fun _ => bounded_buffer) id
  | bytes size => exact keeps (inside_reading fun _ => bounded_bytes size) id
  | bufferNosize size => exact keeps (inside_reading fun _ => bounded_bufferNosize size) id
  | bufferLendian16 size => exact keeps (inside_reading fun _ => bounded_bufferLendian16 size) id
  | bufferNosizeLendian16 valueCount => exact keeps (inside_reading fun _ => bounded_times bounded_word valueCount) id
  | arrayLendian => exact keeps (inside_reading fun _ => bounded_arrayLendian) id
  | arrayLendian16 => exact keeps (inside_reading fun _ => bounded_arrayLendian16) id
  | managerInt => exact keeps (inside_reading fun _ => bounded_managerInt) id
  | startManagerSequence => exact keeps (inside_answering inside_startManagerSequence) id
  | managerIntSequence => exact keeps (inside_answering inside_managerIntSequence) id
  | objectId => exact keeps (inside_answering inside_objectId) id
  | startObjectSequence => exact keeps (inside_answering inside_startObjectSequence) id
  | identifier => exact keeps (inside_answering inside_identifier) id
  | startReadSequence => exact keeps (inside_answering inside_startReadSequence) id
  | subchunk => exact keeps (inside_answering inside_subchunk) id

end Steps

/-- The cursor is in the data in every state of the run. -/
def InsideThroughout : List ParserOp → ChunkParser → Prop
  | [],p => InsideData p
  | op :: ops,p => InsideData p ∧ (returned ((parserStep op).run p).1 → InsideThroughout ops ((parserStep op).run p).2)

/-- No seek of the run comes to rest at the last word. -/
def NoSeekAtLast : List ParserOp → ChunkParser → Prop
  | [],_ => True
  | op :: ops,p => ¬ RestsAtLast p op ∧ (returned ((parserStep op).run p).1 → NoSeekAtLast ops ((parserStep op).run p).2)

theorem restsAtLast_returned {p : ChunkParser} {op : ParserOp} (rests : RestsAtLast p op) :
    returned ((parserStep op).run p).1 := by
  have found {identifier : UInt32} (sought : Sought p identifier (p.chunk.dataSize - 1)) :
      ∃ p', (parserSeekIdentifier identifier).run p = (.ok (),p') := by
    rcases parserSeekIdentifier_cases identifier p with ⟨k,_,run⟩ | ⟨absent,_⟩
    · exact ⟨_,run⟩
    · exact absurd sought (absent _)
  cases op with
  | seekIdentifier identifier =>
    obtain ⟨p',run⟩ := found rests
    rw [parserStep,answering,Action.bind_ok _ run]
    trivial
  | seekIdentifierWithSize identifier =>
    obtain ⟨p',run⟩ := found rests
    rw [parserStep,answering,parserSeekIdentifierWithSize,
      Action.bind_ok _ ((Action.bind_ok _ run).trans (Action.read_apply _ p'))]
    trivial
  | _ => exact absurd rests id

theorem insideThroughout_iff (ops : List ParserOp) {p : ChunkParser} (inside : InsideData p) :
    InsideThroughout ops p ↔ NoSeekAtLast ops p := by
  induction ops generalizing p with
  | nil => exact iff_of_true inside trivial
  | cons op ops ih =>
    have step := step_inside inside op
    rw [InsideThroughout,NoSeekAtLast]
    constructor
    · rintro ⟨_,later⟩
      have calm : ¬ RestsAtLast p op := by
        intro rests
        have next := later (restsAtLast_returned rests)
        refine step.mp ?_ rests
        cases ops with
        | nil => exact next
        | cons op' ops' => exact next.1
      exact ⟨calm,fun back => (ih (step.mpr calm)).mp (later back)⟩
    · rintro ⟨calm,later⟩
      exact ⟨inside,fun back => (ih (step.mpr calm)).mpr (later back)⟩

/-- In every run of a parser the cursor is in the data throughout exactly when no seek comes to rest at the
last word. -/
theorem cursor_inside_iff (c : Chunk) (ops : List ParserOp) :
    InsideThroughout ops (parserCreate c) ↔ NoSeekAtLast ops (parserCreate c) :=
  insideThroughout_iff ops (Nat.zero_le _)

/-- The last of three words is taken for a pair. -/
def shortPair : Chunk := { chunkCreate with data := some [5,2,9] }

theorem shortPair_outside : ¬ ∀ (c : Chunk) (ops : List ParserOp), InsideThroughout ops (parserCreate c) := by
  intro all
  have run : (parserStep (.seekIdentifier 9)).run (parserCreate shortPair) =
      (.ok .done,{ parserCreate shortPair with prevIdentifierPos := 2, cursor := 4 }) := rfl
  have after := (all shortPair [.seekIdentifier 9]).2
  rw [run] at after
  have past : 4 ≤ 3 := after trivial
  omega

end Libnmo.Format

/-! The size that a seek reports runs from behind the pair that it found to the next pair,
or to the end of the data. It stays in the data unless the next pair lies before the
place it is counted from, or the pair found has no second word. -/
namespace Libnmo.Format
open Core Lib

/-- A size that a seek reports ends in the data. -/
def ReportsInside (p : ChunkParser) (identifier : UInt32) : Prop :=
  ∀ size p', (parserSeekIdentifierWithSize identifier).run p = (.ok size,p') → p'.cursor + size ≤ p.chunk.dataSize

/-- The pair at `k` is whole, and the pair that it names, if it names one, does not lie before its payload. -/
def NamesOnward (c : Chunk) (k : Nat) : Prop :=
  ∃ next, c.words[k + 1]? = some next ∧ (next = 0 ∨ c.dataSize ≤ next.toNat ∨ k + 2 ≤ next.toNat)

/-- The size for the pair found at `k`. -/
def sizeBehind (data : List UInt32) (k : Nat) : Nat := match data[k + 1]? with
  | none => 0
  | some next =>
    if next ≠ 0 ∧ next.toNat < data.length then (next.toNat + 2 ^ 64 - (k + 2)) % 2 ^ 64 else data.length - (k + 2)

section
variable {p : ChunkParser} {identifier : UInt32}

theorem seekWithSize_found {k : Nat} (sought : Sought p identifier k) :
    (parserSeekIdentifierWithSize identifier).run p =
      (.ok (sizeBehind p.chunk.words k),{ p with prevIdentifierPos := k, cursor := k + 2 }) := by
  rcases parserSeekIdentifier_cases identifier p with ⟨k',sought',run⟩ | ⟨absent,_⟩
  · obtain rfl := sought_unique sought sought'
    rw [parserSeekIdentifierWithSize,Action.bind_ok _ run]
    rfl
  · exact absurd sought (absent k)

theorem seekWithSize_success {size : Nat} {p' : ChunkParser}
    (ok : (parserSeekIdentifierWithSize identifier).run p = (.ok size,p')) :
    ∃ k, Sought p identifier k ∧ size = sizeBehind p.chunk.words k ∧ p'.cursor = k + 2 := by
  obtain ⟨_,between,ran,_⟩ := Action.bind_success ok
  rcases parserSeekIdentifier_cases identifier p with ⟨k,sought,_⟩ | ⟨_,stop,run⟩
  · rw [seekWithSize_found sought] at ok
    obtain ⟨value,state⟩ := Prod.mk.inj ok
    exact ⟨k,sought,(Except.ok.inj value).symm,by rw [← state]⟩
  · rw [run] at ran
    simp at ran

/-- The difference wraps where the next pair lies before the place it is counted from. -/
theorem sizeBehind_inside {c : Chunk} {k : Nat} (within : k < c.dataSize) (fits : c.dataSize < 2 ^ 64) :
    k + 2 + sizeBehind c.words k ≤ c.dataSize ↔ NamesOnward c k := by
  have length : c.words.length = c.dataSize := rfl
  rw [sizeBehind,NamesOnward]
  cases behind : c.words[k + 1]? with
  | none =>
    have last := List.getElem?_eq_none_iff.mp behind
    refine iff_of_false (by dsimp only; omega) ?_
    rintro ⟨next,found,_⟩
    simp at found
  | some next =>
    have whole := (List.getElem?_eq_some_iff.mp behind).1
    simp only [Option.some.injEq,exists_eq_left']
    by_cases named : next ≠ 0 ∧ next.toNat < c.words.length
    · rw [if_pos named]
      rcases Nat.lt_or_ge next.toNat (k + 2) with before | onward
      · rw [Nat.mod_eq_of_lt (by omega)]
        refine iff_of_false (by omega) ?_
        rintro (none | past | onward)
        · exact named.1 none
        · omega
        · omega
      · rw [show next.toNat + 2 ^ 64 - (k + 2) = next.toNat - (k + 2) + 2 ^ 64 by omega,Nat.add_mod_right,
          Nat.mod_eq_of_lt (by omega)]
        exact iff_of_true (by omega) (.inr (.inr onward))
    · rw [if_neg named]
      refine iff_of_true (by omega) ?_
      by_cases none : next = 0
      · exact .inl none
      · exact .inr (.inl (Nat.not_lt.mp fun before => named ⟨none,before⟩))

/-- In every state and for every identifier, the size reported ends in the data exactly when the pair found is
whole and names no pair before its payload. -/
theorem reported_inside_iff (fits : p.chunk.dataSize < 2 ^ 64) :
    ReportsInside p identifier ↔ ∀ k, Sought p identifier k → NamesOnward p.chunk k := by
  have within {k : Nat} (sought : Sought p identifier k) : k < p.chunk.dataSize := by
    obtain ⟨_,_,_,found⟩ := sought
    exact (List.getElem?_eq_some_iff.mp found).1
  constructor
  · intro inside k sought
    exact (sizeBehind_inside (within sought) fits).mp (inside _ _ (seekWithSize_found sought))
  · intro onward size p' ok
    obtain ⟨k,sought,rfl,place⟩ := seekWithSize_success ok
    rw [place]
    exact (sizeBehind_inside (within sought) fits).mpr (onward k sought)

end

/-- The second pair names a position before it. -/
def backwardPair : Chunk := { chunkCreate with data := some [5,2,9,1] }

theorem reported_inside_iff_backward : backwardPair.dataSize < 2 ^ 64 ∧
    (ReportsInside (parserCreate backwardPair) 9 ↔
      ∀ k, Sought (parserCreate backwardPair) 9 k → NamesOnward backwardPair k) :=
  ⟨by decide,reported_inside_iff (p := parserCreate backwardPair) (by decide)⟩

theorem backwardPair_outside : ¬ ∀ (c : Chunk) (identifier : UInt32), ReportsInside (parserCreate c) identifier := by
  intro all
  have run : (parserSeekIdentifierWithSize 9).run (parserCreate backwardPair) =
      (.ok (2 ^ 64 - 3),{ parserCreate backwardPair with prevIdentifierPos := 2, cursor := 4 }) := by rfl
  have inside : 4 + (2 ^ 64 - 3) ≤ 4 := all backwardPair 9 _ _ run
  omega

end Libnmo.Format
