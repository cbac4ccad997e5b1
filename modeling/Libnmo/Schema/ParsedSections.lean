import Libnmo.Lib.Parses
import Libnmo.Schema.SectionReads

/-! Reads of a chunk that are known in both directions, from words of its data and the
memory behind them. What a reader of such parts gives back for a written chunk is then a
matter of the words alone. -/
namespace Libnmo.Schema
open Core Format Lib Lib.LittleEndian Lib.Cursor

/-- The chunk but for its position, which is in front of the rest of the data. -/
structure Placed (base : Chunk) (rest : List UInt32) (c : Chunk) : Prop where
  standing : Standing base.words rest c
  frame : c = { base with parserState := c.parserState }

/-- The position is anywhere. -/
structure InMemory (base c : Chunk) : Prop where
  opened : Opened base.words c
  frame : c = { base with parserState := c.parserState }

theorem Placed.inMemory {base c : Chunk} {rest : List UInt32} (placed : Placed base rest c) : InMemory base c :=
  ⟨placed.standing.opened,placed.frame⟩

theorem placed_fresh {c : Chunk} (fresh : c.parserState = some {}) : Placed c c.words c := by
  refine ⟨⟨rfl,{},fresh,Nat.zero_le _,rfl⟩,?_⟩
  cases c
  rfl

theorem frame_setPos {base c : Chunk} (frame : c = { base with parserState := c.parserState }) (pos : Nat) :
    c.setPos pos = { base with parserState := (c.setPos pos).parserState } := by
  rw [frame]
  rfl

theorem frame_spare {base c : Chunk} (frame : c = { base with parserState := c.parserState }) : c.spare = base.spare := by
  rw [frame]

section Words
variable {α : Type} {base : Chunk} {action : List UInt32 → List UInt32 → Run Nat α} {value : UInt32 → α}

theorem parses_onPosition {message : String} (reads : ∀ data spare word, Reads data (action data spare) [word] (value word))
    (short : ∀ data spare pos, data.length ≤ pos → (action data spare).run pos = (.error (.error .eof message),pos)) :
    Parses (Placed base) (onPosition action) fun result input => ∃ word, input = [word] ∧ result = value word := by
  have full (word : UInt32) (rest : List UInt32) (c : Chunk) (placed : Placed base (word :: rest) c) :
      ∃ c', (onPosition action).run c = (.ok (value word),c') ∧ Placed base rest c' := by
    obtain ⟨state,reading,ahead⟩ := placed.standing.ahead
    rw [← placed.standing.same] at ahead
    obtain ⟨next,ran,ahead⟩ := reads c.words c.spare word state.currentPos rest ahead
    rw [placed.standing.same] at ahead
    exact ⟨_,onPosition_ok reading ran,setPos_standing placed.standing.opened ahead,frame_setPos placed.frame next⟩
  constructor
  · rintro _ _ rest c ⟨word,rfl,rfl⟩ placed
    exact full word rest c placed
  · intro result rest c c' placed ok
    cases rest with
    | nil =>
      rw [onPosition_short short placed.standing.ended] at ok
      cases (Prod.mk.inj ok).1
    | cons word rest =>
      obtain ⟨c₁,ran,moved⟩ := full word rest c placed
      obtain ⟨same,rfl⟩ := Prod.mk.inj (ran.symm.trans ok)
      exact ⟨[word],rest,rfl,⟨word,rfl,(Except.ok.inj same).symm⟩,moved⟩

theorem parses_dword : Parses (Placed base) readDword fun result input => input = [result] :=
  (parses_onPosition (fun _ _ => reads_chunkReadDword) fun _ _ _ => chunkReadDword_short).congr fun result input => by simp

theorem parses_float : Parses (Placed base) readFloat fun result input => input = [result] :=
  (parses_onPosition (fun _ _ => reads_chunkReadFloat) fun _ _ _ => chunkReadObjectId_short).congr fun result input => by simp

theorem parses_objectId : Parses (Placed base) readObjectId fun result input => input = [result] :=
  (parses_onPosition (fun _ _ => reads_chunkReadObjectId) fun _ _ _ => chunkReadObjectId_short).congr fun result input => by simp

end Words

section Sections
variable {α : Type} {base : Chunk} {identifier : UInt32}

theorem found_placed {rest : List UInt32} {c : Chunk} (inMemory : InMemory base c)
    (first : behind identifier base.words = some rest) :
    ∃ c', (found identifier).run c = (.ok true,c') ∧ Placed base rest c' := by
  obtain ⟨state,reading⟩ := inMemory.opened.reading
  rw [behind_drop,Option.map_eq_some_iff] at first
  obtain ⟨place,first,rfl⟩ := first
  have bound := (List.findIdx?_eq_some_iff_getElem.mp first).1
  have scanned := found_some reading (by rw [inMemory.opened.same]; exact first)
  refine ⟨_,scanned,⟨inMemory.opened.same,_,rfl,bound,rfl⟩,?_⟩
  rw [inMemory.frame]

/-- A section is read from what follows the first such word, whoever wrote it. -/
def SectionIn (identifier : UInt32) (words : List UInt32) (missing : α) (fits : α → List UInt32 → Prop) (section' : α × Bool) :
    Prop :=
  if section'.2 then ∃ rest, behind identifier words = some rest ∧ fits section'.1 rest
  else identifier ∉ words ∧ section'.1 = missing

/-- A search for a section, and the same again for its reader. -/
theorem determines_found {β : Type} {yes no : Run Chunk β} {held : List UInt32 → β → Prop} {absent : β → Prop}
    (there : ∀ rest, Determines (Placed base rest) (InMemory base) yes (held rest))
    (nowhere : Determines (InMemory base) (InMemory base) no absent) :
    Determines (InMemory base) (InMemory base) (do
      let present ← found identifier
      (if present then yes else no)) fun value =>
        match behind identifier base.words with
        | some rest => held rest value
        | none => absent value := by
  cases first : behind identifier base.words with
  | none =>
    have skips (c : Chunk) (inMemory : InMemory base c) : (do
        let present ← found identifier
        (if present then yes else no) : Run Chunk β).run c = no.run c := by
      rw [Action.bind_ok _ (found_nowhere inMemory.opened first),if_neg Bool.false_ne_true]
    constructor
    · intro value c inMemory held
      rw [skips c inMemory]
      exact nowhere.full inMemory held
    · intro value c c' inMemory ok
      rw [skips c inMemory] at ok
      exact nowhere.only inMemory ok
  | some rest =>
    constructor
    · intro value c inMemory held
      obtain ⟨c₁,scanned,placed⟩ := found_placed inMemory first
      rw [Action.bind_ok _ scanned,if_pos rfl]
      exact (there rest).full placed held
    · intro value c c' inMemory ok
      obtain ⟨c₁,scanned,placed⟩ := found_placed inMemory first
      rw [Action.bind_ok _ scanned,if_pos rfl] at ok
      exact (there rest).only placed ok

end Sections

section Reads
variable {α : Type} {base : Chunk} {read : Run Chunk α}

/-- The words begin with some that hold the value. -/
def Begins (holds : α → List UInt32 → Prop) (value : α) (rest : List UInt32) : Prop := ∃ input, input <+: rest ∧ holds value input

theorem begins {holds : α → List UInt32 → Prop} (parses : Parses (Placed base) read holds) (rest : List UInt32) :
    Determines (Placed base rest) (InMemory base) read (Begins holds · rest) :=
  parses.determines (fun _ _ placed => placed.inMemory) rest

theorem parses_orFail {holds : α → List UInt32 → Prop} {code : ErrorCode} {message : String}
    (parses : Parses (Placed base) read holds) : Parses (Placed base) (orFail code message read) holds := by
  constructor
  · intro value input rest c held placed
    obtain ⟨c',ran,placed⟩ := parses.full held placed
    exact ⟨c',by rw [orFail,Action.bind_ok _ (attempt_ok ran)]; rfl,placed⟩
  · intro value rest c c' placed ok
    obtain ⟨result,c₁,tried,ok⟩ := Action.bind_success ok
    cases result with
    | none => cases (Prod.mk.inj ok).1
    | some result =>
      obtain ⟨same,rfl⟩ := Prod.mk.inj ok
      rw [← Except.ok.inj same]
      exact parses.only placed (attempt_some tried)

theorem determines_check {α : Type} {wrong : Prop} [Decidable wrong] {before : Chunk → Prop} {code : ErrorCode}
    {message : String} (value : α) :
    Determines before before (if wrong then fail code message else pure value) fun result => ¬ wrong ∧ result = value := by
  by_cases bad : wrong
  · rw [if_pos bad]
    exact (determines_stop _).congr fun _ => ⟨False.elim,fun held => held.1 bad⟩
  · rw [if_neg bad]
    exact (determines_pure value).congr fun _ => ⟨fun same => ⟨bad,same⟩,fun held => held.2⟩

end Reads

section Memory
variable {words spare : List UInt32}

/-- The bytes that a size stands for. They can lie in the memory behind the data, for the rounding of the size wraps. -/
structure BytesBehind (spare : List UInt32) (size : UInt32) (more : List UInt32) (bytes : List UInt8) : Prop where
  enough : roundedDwords size ≤ more.length
  length : bytes.length = size.toNat
  front : bytes <+: encodeWords (more ++ spare)

/-- A position in front of the rest of the words. -/
def Stood (words rest : List UInt32) (pos : Nat) : Prop := Ahead words pos rest

theorem threads_onPosition {base : Chunk} {α : Type} {action : List UInt32 → List UInt32 → Run Nat α}
    {rel : α → List UInt32 → List UInt32 → Prop} (threads : Threads (Stood base.words) (action base.words base.spare) rel) :
    Threads (Placed base) (onPosition action) rel := by
  have moved {c : Chunk} {rest after : List UInt32} {next : Nat} (placed : Placed base rest c) (ahead : Ahead base.words next after) :
      Placed base after (c.setPos next) :=
    ⟨setPos_standing placed.standing.opened ahead,frame_setPos placed.frame next⟩
  constructor
  · intro value before after c held placed
    obtain ⟨state,reading,ahead⟩ := placed.standing.ahead
    obtain ⟨next,ran,stopped⟩ := threads.full held ahead
    rw [← placed.standing.same,← frame_spare placed.frame] at ran
    exact ⟨_,onPosition_ok reading ran,moved placed stopped⟩
  · intro value before c c' placed ok
    obtain ⟨state,reading,ahead⟩ := placed.standing.ahead
    simp only [onPosition,reading,placed.standing.same,frame_spare placed.frame] at ok
    obtain ⟨same,rfl⟩ := Prod.mk.inj ok
    obtain ⟨after,held,stopped⟩ := threads.only ahead (Prod.ext same rfl)
    exact ⟨after,held,moved placed stopped⟩

/-- A copy of the bytes behind their size, if their words are there. -/
theorem threads_copy {α : Type} (f : List UInt8 → α) (missing : α) (size : UInt32) :
    Threads (Stood words) (do
      let enough ← canRead words (roundedDwords size)
      (if enough then do
        let bytes ← copyOut words spare size.toNat (roundedDwords size)
        pure (f bytes)
      else pure missing) : Run Nat α) fun value before after =>
        before.length < roundedDwords size ∧ value = missing ∧ after = before ∨
        ∃ bytes, BytesBehind spare size before bytes ∧ value = f bytes ∧ after = before.drop (roundedDwords size) := by
  have checked {before : List UInt32} {pos : Nat} (ahead : Ahead words pos before) :
      (canRead words (roundedDwords size)).run pos = (.ok (decide (roundedDwords size ≤ before.length)),pos) := by
    have length := ahead.length_eq
    rw [canRead,Action.read_apply]
    congr 2
    exact decide_eq_decide.mpr (by omega)
  have memory {before : List UInt32} {pos : Nat} (ahead : Ahead words pos before) : (words ++ spare).drop pos = before ++ spare := by
    rw [List.drop_append_of_le_length ahead.1,ahead.2]
  have passed {before : List UInt32} {pos : Nat} (ahead : Ahead words pos before) (enough : roundedDwords size ≤ before.length) :
      Ahead words (pos + roundedDwords size) (before.drop (roundedDwords size)) := by
    have length := ahead.length_eq
    refine ⟨by omega,?_⟩
    rw [← ahead.2,List.drop_drop]
  constructor
  · intro value before after pos held ahead
    rw [Action.bind_ok _ (checked ahead)]
    rcases held with ⟨short,rfl,rfl⟩ | ⟨bytes,behind,rfl,rfl⟩
    · rw [decide_eq_false (Nat.not_le.mpr short),if_neg Bool.false_ne_true]
      exact ⟨pos,rfl,ahead⟩
    · have there : size.toNat ≤ (encodeWords (before ++ spare)).length := by
        rw [← behind.length]
        exact behind.front.length_le
      have copied : (copyOut words spare size.toNat (roundedDwords size)).run pos = (.ok bytes,pos + roundedDwords size) := by
        rw [List.prefix_iff_eq_take.mp behind.front,behind.length]
        simp only [copyOut,memory ahead,if_pos there]
      rw [decide_eq_true behind.enough,if_pos rfl,Action.bind_ok _ copied]
      exact ⟨_,rfl,passed ahead behind.enough⟩
  · intro value before pos next ahead ok
    rw [Action.bind_ok _ (checked ahead)] at ok
    by_cases enough : roundedDwords size ≤ before.length
    · rw [decide_eq_true enough,if_pos rfl] at ok
      obtain ⟨bytes,last,copied,ok⟩ := Action.bind_success ok
      obtain ⟨same,rfl⟩ := Prod.mk.inj ok
      simp only [copyOut,memory ahead] at copied
      split at copied
      · rename_i there
        obtain ⟨taken,rfl⟩ := Prod.mk.inj copied
        obtain rfl := Except.ok.inj taken
        refine ⟨_,.inr ⟨_,⟨enough,List.length_take_of_le there,List.take_prefix _ _⟩,(Except.ok.inj same).symm,rfl⟩,?_⟩
        exact passed ahead enough
      · cases (Prod.mk.inj copied).1
    · rw [decide_eq_false enough,if_neg Bool.false_ne_true] at ok
      obtain ⟨same,rfl⟩ := Prod.mk.inj ok
      exact ⟨before,.inl ⟨Nat.lt_of_not_le enough,(Except.ok.inj same).symm,rfl⟩,ahead⟩

/-- The parts of the reads of sized bytes: the size, if there is one. -/
theorem threads_sized {α : Type} {next : UInt32 → Run Nat α} {missing : α} {rel : UInt32 → α → List UInt32 → List UInt32 → Prop}
    (tail : ∀ size, Threads (Stood words) (next size) (rel size)) :
    Threads (Stood words) (do
      let room ← canRead words 1
      (if room then do
        let size ← nextWord words
        next size
      else pure missing) : Run Nat α) fun value before after =>
        before = [] ∧ value = missing ∧ after = [] ∨ ∃ size more, before = size :: more ∧ rel size value more after := by
  have ended {pos : Nat} (ahead : Ahead words pos []) : (canRead words 1).run pos = (.ok false,pos) := by
    have length := ahead.length_eq
    rw [List.length_nil] at length
    rw [canRead,Action.read_apply,decide_eq_false (by omega)]
  have first {size : UInt32} {more : List UInt32} {pos : Nat} (ahead : Ahead words pos (size :: more)) :
      (canRead words 1).run pos = (.ok true,pos) ∧ (nextWord words).run pos = (.ok size,pos + 1) := by
    have length := ahead.length_eq
    rw [List.length_cons] at length
    refine ⟨?_,by simp only [nextWord,ahead.getElem?]⟩
    rw [canRead,Action.read_apply,decide_eq_true (by omega)]
  constructor
  · rintro value before after pos (⟨rfl,rfl,rfl⟩ | ⟨size,more,rfl,held⟩) ahead
    · rw [Action.bind_ok _ (ended ahead),if_neg Bool.false_ne_true]
      exact ⟨pos,rfl,ahead⟩
    · rw [Action.bind_ok _ (first ahead).1,if_pos rfl,Action.bind_ok _ (first ahead).2]
      exact (tail size).full held ahead.next
  · intro value before pos next ahead ok
    cases before with
    | nil =>
      rw [Action.bind_ok _ (ended ahead),if_neg Bool.false_ne_true] at ok
      obtain ⟨same,rfl⟩ := Prod.mk.inj ok
      exact ⟨[],.inl ⟨rfl,(Except.ok.inj same).symm,rfl⟩,ahead⟩
    | cons size more =>
      rw [Action.bind_ok _ (first ahead).1,if_pos rfl,Action.bind_ok _ (first ahead).2] at ok
      obtain ⟨after,held,stopped⟩ := (tail size).only ahead.next ok
      exact ⟨after,.inr ⟨size,more,rfl,held⟩,stopped⟩

/-- A buffer is filled with the bytes behind a size that it has room for, and else left alone. -/
inductive FillStep (spare : List UInt32) (room : Nat) : List UInt8 × Nat → List UInt32 → List UInt32 → Prop
  | ended : FillStep spare room ([],0) [] []
  | refused {size : UInt32} {more : List UInt32} (bad : size = 0 ∨ room < size.toNat ∨ more.length < roundedDwords size) :
    FillStep spare room ([],0) (size :: more) more
  | filled {size : UInt32} {more : List UInt32} {bytes : List UInt8} (some : size ≠ 0) (fits : size.toNat ≤ room)
    (behind : BytesBehind spare size more bytes) :
    FillStep spare room (bytes,size.toNat) (size :: more) (more.drop (roundedDwords size))

theorem threads_fill (room : Nat) : Threads (Stood words) (chunkReadAndFillBuffer words spare room) (FillStep spare room) := by
  have hollow : Threads (Stood words) (pure ([],0) : Run Nat (List UInt8 × Nat)) fun value before after =>
      value = ([],0) ∧ after = before := threads_pure _
  have body (size : UInt32) : Threads (Stood words) (if size = 0 then pure ([],0) else if size.toNat > room then pure ([],0) else do
      let enough ← canRead words (roundedDwords size)
      (if enough then do
        let bytes ← copyOut words spare size.toNat (roundedDwords size)
        pure (bytes,size.toNat)
      else pure ([],0)) : Run Nat (List UInt8 × Nat)) fun value more after => FillStep spare room value (size :: more) after := by
    by_cases zero : size = 0
    · rw [if_pos zero]
      refine hollow.congr fun value more after => ⟨?_,?_⟩
      · rintro ⟨rfl,rfl⟩
        exact .refused (.inl zero)
      · intro held
        cases held with
        | refused => exact ⟨rfl,rfl⟩
        | filled some => exact absurd zero some
    · rw [if_neg zero]
      by_cases large : size.toNat > room
      · rw [if_pos large]
        refine hollow.congr fun value more after => ⟨?_,?_⟩
        · rintro ⟨rfl,rfl⟩
          exact .refused (.inr (.inl large))
        · intro held
          cases held with
          | refused => exact ⟨rfl,rfl⟩
          | filled _ fits => exact absurd large (Nat.not_lt.mpr fits)
      · rw [if_neg large]
        refine (threads_copy _ _ size).congr fun value more after => ⟨?_,?_⟩
        · rintro (⟨short,rfl,rfl⟩ | ⟨bytes,behind,rfl,rfl⟩)
          · exact .refused (.inr (.inr short))
          · exact .filled zero (Nat.le_of_not_lt large) behind
        · intro held
          cases held with
          | refused bad => exact .inl ⟨(bad.resolve_left zero).resolve_left large,rfl,rfl⟩
          | filled _ _ behind => exact .inr ⟨_,behind,rfl,rfl⟩
  refine (threads_sized body).congr fun value before after => ⟨?_,?_⟩
  · rintro (⟨rfl,rfl,rfl⟩ | ⟨size,more,rfl,held⟩)
    · exact .ended
    · exact held
  · intro held
    cases held with
    | ended => exact .inl ⟨rfl,rfl,rfl⟩
    | refused bad => exact .inr ⟨_,_,rfl,.refused bad⟩
    | filled some fits behind => exact .inr ⟨_,_,rfl,.filled some fits behind⟩

end Memory

section Written
variable {around : Surroundings}

/-- The chunk that a writer filled. -/
def writtenChunk (around : Surroundings) (serialize : Run Chunk Unit) : Chunk :=
  ((do
    chunkStartWrite around
    serialize : Run Chunk Unit).run chunkCreate).2

theorem startedBack_iff {S : Type} {serialize : Run Chunk Unit} {deserialize : Run Chunk S} {s : S} {bound : Nat}
    {shape : List UInt32 → Prop} {held : Chunk → S → Prop} (as : WritesAs bound shape serialize) (few : bound < 2 ^ 60)
    (reads : ∀ base, Determines (InMemory base) (InMemory base) deserialize (held base)) :
    startedBack around serialize deserialize = .ok s ↔ held (writtenChunk around serialize) s := by
  obtain ⟨c,wrote,_⟩ := as.fill around few
  have same : writtenChunk around serialize = c := congrArg Prod.snd wrote
  have back : startedBack around serialize deserialize = (deserialize.run { c with parserState := some {} }).1 := by
    rw [startedBack,readBack,Action.bind_ok _ wrote]
    rfl
  have fresh : InMemory c { c with parserState := some {} } := ⟨⟨rfl,{},rfl⟩,rfl⟩
  rw [back,same]
  constructor
  · intro ok
    exact ((reads c).only fresh (Prod.ext ok rfl)).1
  · intro held
    obtain ⟨c',ran,_⟩ := (reads c).full fresh held
    rw [ran]

theorem writtenWords_of {bound : Nat} {written : List UInt32} {serialize : Run Chunk Unit}
    (as : WritesAs bound (· = written) serialize) (few : bound < 2 ^ 60) :
    (writtenChunk around serialize).words = written := by
  obtain ⟨c,wrote,same⟩ := as.fill around few
  have filled : writtenChunk around serialize = c := congrArg Prod.snd wrote
  rw [filled,same]

theorem as_if {condition : Prop} [Decidable condition] {bound : Nat} {written : List UInt32} {write : Run Chunk Unit}
    (as : condition → WritesAs bound (· = written) write) :
    WritesAs bound (· = if condition then written else []) (if condition then write else pure ()) := by
  by_cases holds : condition
  · rw [if_pos holds,if_pos holds]
    exact as holds
  · rw [if_neg holds,if_neg holds]
    exact as_pure.mono (Nat.zero_le bound)

theorem as_any {bound : Nat} {shape : List UInt32 → Prop} {write : Run Chunk Unit} (as : WritesAs bound shape write) :
    WritesAs bound (fun _ => True) write := as.imp fun _ _ => trivial

theorem as_optional {condition : Prop} [Decidable condition] {bound : Nat} {shape : List UInt32 → Prop} {write : Run Chunk Unit}
    (as : WritesAs bound shape write) : WritesAs bound (fun _ => True) (if condition then write else pure ()) := by
  split
  · exact as_any as
  · exact as_any (as_pure.mono (Nat.zero_le bound))

end Written

end Libnmo.Schema
