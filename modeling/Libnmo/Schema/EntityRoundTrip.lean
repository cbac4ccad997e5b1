import Libnmo.Schema.EntityStates
import Libnmo.Schema.ParsedSections

/-! Entities read back. A tail is written without its size, and the first word of it or
whatever stands there is read as the size; the rest that is asked for is longer than what is
left, as bytes and dwords are mixed. A render object takes a word that is not its own, so that
no entity in three dimensions comes back. -/
namespace Libnmo.Schema
open Core Format Lib Lib.LittleEndian Lib.Cursor

section Tails
variable {base : Chunk} {before after : List UInt32} {tail : List UInt8}

/-- What is asked for in front of the rest of the data. -/
def remaining (base : Chunk) (before : List UInt32) : Nat := 3 * base.words.length + before.length

inductive TailStep (base : Chunk) : List UInt8 → List UInt32 → List UInt32 → Prop
  | ended : TailStep base [] [] []
  | refused {size : UInt32} {more : List UInt32}
    (bad : size = 0 ∨ remaining base (size :: more) < size.toNat ∨ more.length < roundedDwords size) :
    TailStep base [] (size :: more) more
  | shorter {size : UInt32} {more : List UInt32} {bytes : List UInt8} (some : size ≠ 0)
    (fits : size.toNat < remaining base (size :: more)) (behind : BytesBehind base.spare size more bytes) :
    TailStep base [] (size :: more) (more.drop (roundedDwords size))
  | whole {size : UInt32} {more : List UInt32} {bytes : List UInt8} (some : size ≠ 0)
    (fits : size.toNat = remaining base (size :: more)) (behind : BytesBehind base.spare size more bytes) :
    TailStep base bytes (size :: more) (more.drop (roundedDwords size))

theorem Placed.asked {c : Chunk} (placed : Placed base before c) :
    before.length ≤ base.words.length ∧ chunkGetDataSize c = 4 * base.words.length ∧
      chunkGetDataSize c - chunkGetPosition c = remaining base before := by
  obtain ⟨state,reading,ahead⟩ := placed.standing.ahead
  have length := ahead.length_eq
  have inside := ahead.1
  have size : chunkGetDataSize c = 4 * base.words.length := by
    rw [chunkGetDataSize,Chunk.dataSize,placed.standing.same,Nat.mul_comm]
  have position : chunkGetPosition c = state.currentPos := by rw [chunkGetPosition,reading,Option.getD_some]
  refine ⟨by omega,size,?_⟩
  rw [size,position,remaining]
  omega

/-- A tail is a buffer that has exactly the size that is asked for. -/
theorem tailStep_iff : TailStep base tail before after ↔
    ∃ found, FillStep base.spare (remaining base before) found before after ∧
      tail = if found.2 = remaining base before then found.1 else [] := by
  constructor
  · intro step
    cases step with
    | ended => exact ⟨_,.ended,(ite_self _).symm⟩
    | refused bad => exact ⟨_,.refused bad,(ite_self _).symm⟩
    | shorter some fits behind => exact ⟨_,.filled some (Nat.le_of_lt fits) behind,by rw [if_neg (Nat.ne_of_lt fits)]⟩
    | whole some fits behind => exact ⟨_,.filled some (Nat.le_of_eq fits) behind,by rw [if_pos fits]⟩
  · rintro ⟨found,step,rfl⟩
    cases step with
    | ended =>
      rw [ite_self]
      exact .ended
    | refused bad =>
      rw [ite_self]
      exact .refused bad
    | filled some fits behind =>
      dsimp only
      split
      · rename_i exactly
        exact .whole some exactly behind
      · rename_i other
        exact .shorter some (Nat.lt_of_le_of_ne fits other) behind

theorem threads_tail : Threads (Placed base) loadTail (TailStep base) := by
  have step (before : List UInt32) (c : Chunk) (placed : Placed base before c) : loadTail.run c =
      if base.words = [] then (.ok [],c) else (do
        let found ← onPosition fun data spare => chunkReadAndFillBuffer data spare (remaining base before)
        pure (if found.2 = remaining base before then found.1 else []) : Run Chunk (List UInt8)).run c := by
    obtain ⟨inside,size,asked⟩ := placed.asked
    rw [loadTail,Action.bind_ok _ (Action.read_apply _ _),Action.bind_ok _ (Action.read_apply _ _),asked]
    by_cases empty : base.words = []
    · rw [empty,List.length_nil] at size
      rw [if_pos empty,size,if_neg (Nat.not_lt_zero _)]
      rfl
    · have positive := List.length_pos_of_ne_nil empty
      rw [remaining] at asked
      rw [if_neg empty,if_pos (by omega)]
  have filled (before : List UInt32) : Threads (Placed base) (do
      let found ← onPosition fun data spare => chunkReadAndFillBuffer data spare (remaining base before)
      pure (if found.2 = remaining base before then found.1 else []) : Run Chunk (List UInt8)) fun tail start after =>
        ∃ found between, FillStep base.spare (remaining base before) found start between ∧
          tail = (if found.2 = remaining base before then found.1 else []) ∧ after = between :=
    threads_bind (threads_onPosition (threads_fill _)) fun _ => threads_pure _
  have hollow {before : List UInt32} {c : Chunk} (placed : Placed base before c) (empty : base.words = []) : before = [] := by
    have inside := placed.asked.1
    rw [empty] at inside
    exact List.length_eq_zero_iff.mp (Nat.le_zero.mp inside)
  constructor
  · intro tail before after c held placed
    rw [step before c placed]
    by_cases empty : base.words = []
    · obtain rfl := hollow placed empty
      cases held with
      | ended =>
        rw [if_pos empty]
        exact ⟨c,rfl,placed⟩
    · rw [if_neg empty]
      obtain ⟨found,fills,rfl⟩ := tailStep_iff.mp held
      exact (filled before).full ⟨found,after,fills,rfl,rfl⟩ placed
  · intro tail before c c' placed ok
    rw [step before c placed] at ok
    by_cases empty : base.words = []
    · rw [if_pos empty] at ok
      obtain ⟨same,rfl⟩ := Prod.mk.inj ok
      obtain rfl := hollow placed empty
      exact ⟨[],Except.ok.inj same ▸ .ended,placed⟩
    · rw [if_neg empty] at ok
      obtain ⟨after,⟨found,_,fills,rfl,rfl⟩,moved⟩ := (filled before).only placed ok
      exact ⟨_,tailStep_iff.mpr ⟨found,fills,rfl⟩,moved⟩

/-- A tail that is read is longer than the rest. -/
theorem TailStep.tail_length (step : TailStep base tail before after) (inside : before.length ≤ base.words.length) :
    tail = [] ∨ tail.length = remaining base before ∧ 2 ^ 32 ≤ tail.length + 3 := by
  cases step with
  | ended => exact .inl rfl
  | refused => exact .inl rfl
  | shorter => exact .inl rfl
  | @whole size more bytes some fits behind =>
    have enough := behind.enough
    have length := behind.length
    rw [roundedDwords_eq] at enough
    rw [List.length_cons] at inside
    refine .inr ⟨length.trans fits,?_⟩
    rw [remaining,List.length_cons] at fits
    by_contra small
    rw [Nat.mod_eq_of_lt (by omega)] at enough
    omega

theorem TailStep.shrinks (step : TailStep base tail before after) : before = [] ∨ after.length < before.length := by
  cases step with
  | ended => exact .inl rfl
  | refused => exact .inr (Nat.lt_succ_self _)
  | shorter =>
    rw [List.length_drop,List.length_cons]
    exact .inr (by omega)
  | whole =>
    rw [List.length_drop,List.length_cons]
    exact .inr (by omega)

end Tails

section Entity
variable {around : Surroundings} {base : Chunk} {s : Ck3dentityState}

/-- The entity comes back, and its tail is what lies between the last field and the end of the data. -/
def EntityKept (around : Surroundings) (s : Ck3dentityState) : Prop :=
  startedBack around (ck3dEntitySerialize around s) ck3dEntityDeserialize = .ok s ∧
    ∃ fields c,load3dFields.run { writtenChunk around (ck3dEntitySerialize around s) with parserState := some {} } = (.ok fields,c) ∧
      s.rawTail = encodeWords (c.words.drop (chunkGetPosition c))

theorem threads_render : Threads (Placed base) ckRenderObjectDeserialize fun value before after =>
    ∃ tail between, TailStep base tail before between ∧ value = { rawTail := tail } ∧ after = between :=
  threads_bind threads_tail fun _ => threads_pure _

theorem parses_elements (count : Nat) : Parses (Placed base) ((orFail .validationFailed "Failed to read world matrix element" readFloat).times count)
    fun elements input => elements.length = count ∧ input = elements := by
  have each : Parses (Placed base) (orFail .validationFailed "Failed to read world matrix element" readFloat) fun value input => input = [id value] :=
    parses_orFail parses_float
  exact (parses_times each count).congr fun elements input => by rw [List.map_id]

/-- The fields take the tail of the render object and then seventeen words. -/
theorem threads_fields : Threads (Placed base) load3dFields fun fields before after => ∃ tail between elements entityFlags,
    TailStep base tail before between ∧ elements.length = 16 ∧ between = elements ++ entityFlags :: after ∧
      fields = { renderObject := { rawTail := tail }, worldMatrix := Vector.ofFn fun i => elements.getD i 0, entityFlags } := by
  unfold load3dFields
  refine (threads_bind threads_render fun renderObject => threads_bind (parses_elements 16).threads
    fun elements => threads_bind (parses_orFail parses_dword).threads fun entityFlags => threads_pure _).congr fun fields before after => ⟨?_,?_⟩
  · rintro ⟨_,_,⟨tail,_,step,rfl,rfl⟩,_,_,⟨elements,rfl,sixteen,rfl⟩,entityFlags,_,⟨_,rfl,rfl⟩,rfl,rfl⟩
    exact ⟨tail,_,elements,entityFlags,step,sixteen,rfl,rfl⟩
  · rintro ⟨tail,between,elements,entityFlags,step,sixteen,rfl,rfl⟩
    exact ⟨_,_,⟨tail,_,step,rfl,rfl⟩,elements,_,⟨_,rfl,sixteen,rfl⟩,entityFlags,_,⟨_,rfl,rfl⟩,rfl,rfl⟩

theorem as_tail (tail : List UInt8) : WritesAs ((tail.length + 3) / 4) (Packs · tail) (saveTail around tail) := by
  rw [saveTail]
  by_cases some : tail.length > 0
  · rw [if_pos some]
    exact as_bufferNoSize tail
  · obtain rfl := List.length_eq_zero_iff.mp (Nat.eq_zero_of_not_pos some)
    rw [if_neg some]
    exact as_pure.imp fun words same => same ▸ packs_nil

theorem as_entity (s : Ck3dentityState) : WritesAs ((s.renderObject.rawTail.length + 3) / 4 + (16 + (1 + (s.rawTail.length + 3) / 4)))
    (fun words => ∃ front back, Packs front s.renderObject.rawTail ∧ Packs back s.rawTail ∧
      words = front ++ (s.worldMatrix.toList ++ s.entityFlags :: back)) (ck3dEntitySerialize around s) := by
  have matrix : WritesAs 16 (· = s.worldMatrix.toList) (writeEach (chunkWriteFloat around) s.worldMatrix.toList) := by
    have each (bits : UInt32) : WritesAs 1 (· = [bits]) (chunkWriteFloat around bits) := as_writeWords [bits]
    have all := as_eachWord each s.worldMatrix.toList
    rw [List.map_id',Vector.length_toList] at all
    exact all
  refine (as_bind (as_tail s.renderObject.rawTail) (as_after matrix (as_after (as_writeWords [_]) (as_tail s.rawTail)))).imp ?_
  rintro _ ⟨front,_,rfl,packs,_,rfl,back,rfl,packs'⟩
  exact ⟨front,back,packs,packs',rfl⟩

/-- The render object takes a word that is not its own, so that the tail behind the fields is shorter than the one that
was written. -/
theorem entity_lengths {front tail between after last : List UInt32} {first second : List UInt8}
    (whole : base.words.length = front.length + 17 + tail.length) (few : front.length = (first.length + 3) / 4)
    (few' : tail.length = (second.length + 3) / 4) (step : TailStep base first base.words between)
    (fields : between.length = 17 + after.length) (step' : TailStep base second after last) (inside : after.length ≤ base.words.length) :
    2 ^ 32 ≤ second.length + 3 ∧ second.length ≠ 4 * after.length := by
  have none : front.length = 0 := by
    rcases step.tail_length (Nat.le_refl _) with empty | ⟨long,_⟩
    · rw [empty] at few
      exact few
    · rw [remaining] at long
      omega
  have shorter : between.length < base.words.length := by
    refine step.shrinks.resolve_left fun empty => ?_
    rw [empty,List.length_nil] at whole
    omega
  refine ⟨?_,by omega⟩
  rcases step'.tail_length inside with empty | ⟨_,long⟩
  · rw [empty] at few'
    rw [show tail.length = 0 from few'] at whole
    omega
  · exact long

/-- An entity that comes back has a tail that is too long for the words behind its fields. -/
theorem entity_back {fields : Ck3dentityState} {c : Chunk}
    (back : startedBack around (ck3dEntitySerialize around s) ck3dEntityDeserialize = .ok s)
    (ran : load3dFields.run { writtenChunk around (ck3dEntitySerialize around s) with parserState := some {} } = (.ok fields,c)) :
    2 ^ 32 ≤ s.rawTail.length + 3 ∧ s.rawTail ≠ encodeWords (c.words.drop (chunkGetPosition c)) := by
  obtain ⟨_,written,wrote,rest⟩ := Action.bind_success (Prod.ext back rfl)
  obtain ⟨_,base,started,all⟩ := Action.bind_success rest
  obtain rfl : base = { written with parserState := some {} } := (Prod.mk.inj started).2.symm
  have same : writtenChunk around (ck3dEntitySerialize around s) = written := congrArg Prod.snd wrote
  obtain ⟨front,tail,packs,packs',shape⟩ := (as_entity s).filled wrote
  rw [same] at ran
  obtain ⟨fields',c',ran',all⟩ := Action.bind_success all
  obtain ⟨found,rfl⟩ := Prod.mk.inj (ran'.symm.trans ran)
  obtain rfl := Except.ok.inj found
  obtain ⟨tail',c'',read,last⟩ := Action.bind_success all
  obtain rfl := Except.ok.inj (Prod.mk.inj last).1
  obtain ⟨after,⟨first,_,elements,entityFlags,step,sixteen,rfl,rfl⟩,placed⟩ :=
    threads_fields.only (placed_fresh (c := { written with parserState := some {} }) rfl) ran
  obtain ⟨_,step',_⟩ := threads_tail.only placed read
  have place : c'.words.drop (chunkGetPosition c') = after := by
    obtain ⟨state,reading,ahead⟩ := placed.standing.ahead
    rw [placed.standing.same,chunkGetPosition,reading]
    exact ahead.2
  have whole : ({ written with parserState := some {} } : Chunk).words.length = front.length + 17 + tail.length := by
    change written.words.length = _
    rw [shape]
    simp
    omega
  have between : (elements ++ entityFlags :: after).length = 17 + after.length := by
    rw [List.length_append,List.length_cons,sixteen]
    omega
  have fields := entity_lengths whole packs.1 packs'.1 step between step' placed.asked.1
  refine ⟨fields.1,fun exact => fields.2 ?_⟩
  rw [← length_encodeWords,← place,← exact]

/-- No entity comes back with the tail that its chunk has. -/
theorem entity_never (around : Surroundings) (s : Ck3dentityState) : ¬ EntityKept around s := by
  rintro ⟨back,fields,c,ran,exact⟩
  exact (entity_back back ran).2 exact

/-- The entity of a new object is one word short for its flags. -/
theorem newEntity_lost : ¬ ∀ (around : Surroundings) (s : Ck3dentityState), EntityKept around s := by
  intro all
  have lost : startedBack {} (ck3dEntitySerialize {} {}) ck3dEntityDeserialize ≠ .ok {} := by decide +kernel
  exact lost (all {} {}).1

end Entity

end Libnmo.Schema
