import Libnmo.Format.SharedOps
import Libnmo.Schema.BehaviorState
import Libnmo.Schema.SectionReads

/-! No behavior comes back that has no tail of its own. The data of a behavior always
stands behind the words of its scene object, whose reader takes it for a tail. The
lists that a reader accepts are short enough that no size wraps on the way. -/
namespace Libnmo.Schema
open Core Format Lib Lib.LittleEndian

section Lengths
variable {around : Surroundings} {c c' : Chunk}

/-- A write that succeeds appends at most so many words. -/
def Within (bound : Nat) (action : Run Chunk Unit) : Prop :=
  ∀ c c', Filling c → action.run c = (.ok (),c') → ∃ words, Fills c c' words ∧ words.length ≤ bound

theorem within_pure : Within 0 (pure ()) := by
  intro c c' filling ok
  obtain rfl := (Prod.mk.inj ok).2
  exact ⟨[],filling.fills,Nat.le_refl 0⟩

theorem within_bind {bound bound' : Nat} {first second : Run Chunk Unit} (head : Within bound first)
    (tail : Within bound' second) : Within (bound + bound') (first >>= fun _ => second) := by
  intro c c' filling ok
  obtain ⟨_,c₁,ran,ok⟩ := Action.bind_success ok
  obtain ⟨words,fills,few⟩ := head _ _ filling ran
  obtain ⟨words',fills',few'⟩ := tail _ _ fills.filling ok
  refine ⟨words ++ words',fills.trans fills',?_⟩
  rw [List.length_append]
  exact Nat.add_le_add few few'

theorem within_words (words : List UInt32) : Within words.length (writeWords around words) :=
  fun _ _ filling ok => ⟨words,writeWords_success filling ok,Nat.le_refl _⟩

theorem within_objectId (id : UInt32) : Within 1 (chunkWriteObjectId around id) :=
  fun _ _ filling ok => ⟨[id],writeObjectId_success filling ok,Nat.le_refl 1⟩

theorem within_objectArray (ids : List UInt32) : Within (1 + ids.length) (writeObjectArray around ids) := by
  apply within_bind (within_words [_])
  intro c c' filling ok
  refine ⟨ids.map id,writeEach_success (fun _ _ _ => writeObjectId_success) filling ok,?_⟩
  exact Nat.le_of_eq (List.length_map id)

theorem within_when {flags flag : UInt32} {bound : Nat} {action : Run Chunk Unit} (within : Within bound action) :
    Within bound (writeWhen flags flag action) := by
  intro c c' filling ok
  rw [writeWhen] at ok
  split at ok
  · exact within _ _ filling ok
  · obtain ⟨words,fills,few⟩ := within_pure _ _ filling ok
    exact ⟨words,fills,few.trans (Nat.zero_le bound)⟩

theorem within_bufferNoSize (data : List UInt8) (size : Nat) :
    Within ((size + 3) / 4) (chunkWriteBufferNoSize around data size) := by
  intro c c' filling ok
  rw [chunkWriteBufferNoSize] at ok
  split at ok
  · obtain rfl := (Prod.mk.inj ok).2
    exact ⟨[],filling.fills,Nat.zero_le _⟩
  · obtain ⟨_,c₁,checked,ok⟩ := Action.bind_success ok
    have room := checkSize_success filling checked
    obtain ⟨words,stored,_,length⟩ := storeBytes_success room.filling ok
    exact ⟨words,room.trans stored,Nat.le_of_eq length⟩

/-- The lists of an object behind their eight words. -/
def subChunkBound (sub : Chunk) : Nat := sub.dataSize + sub.ids.length + sub.chunks.length

theorem subChunk_success {sub : Chunk} (filling : Filling c) (ok : (chunkWriteSubChunk around sub).run c = (.ok (),c')) :
    ∃ lists, Fills c c' ([UInt32.ofNat (8 + sub.dataSize + sub.ids.length + sub.chunks.length - 1),
      sub.chunkClassId.toUInt16.toUInt32,sub.dataVersion ||| sub.chunkVersion <<< 16,UInt32.ofNat sub.dataSize,0,count32 sub.ids,count32 sub.chunks,0] ++ lists) ∧
      lists.length ≤ subChunkBound sub := by
  obtain ⟨_,c₁,listed,ok⟩ := Action.bind_success ok
  have same := (Prod.mk.inj listed).2
  have marked : Fills c c₁ [] := by
    rw [← same]
    exact fills_of_same filling rfl rfl
  rw [Action.bind_ok _ (Action.read_apply _ _)] at ok
  obtain ⟨state,reading,_⟩ := marked.filling.state
  rw [reading] at ok
  obtain ⟨_,c₂,written,ok⟩ := Action.bind_success ok
  obtain ⟨_,_,w0,written⟩ := Action.bind_success written
  obtain ⟨_,_,w1,written⟩ := Action.bind_success written
  obtain ⟨_,_,w2,written⟩ := Action.bind_success written
  obtain ⟨_,_,w3,written⟩ := Action.bind_success written
  obtain ⟨_,_,w4,written⟩ := Action.bind_success written
  obtain ⟨_,_,w5,written⟩ := Action.bind_success written
  obtain ⟨_,_,w6,written⟩ := Action.bind_success written
  obtain ⟨_,_,w7,written⟩ := Action.bind_success written
  have f0 := marked.trans (writeWords_success marked.filling w0)
  have f1 := f0.trans (writeWords_success f0.filling w1)
  have f2 := f1.trans (writeWords_success f1.filling w2)
  have f3 := f2.trans (writeWords_success f2.filling w3)
  have f4 := f3.trans (writeWords_success f3.filling w4)
  have f5 := f4.trans (writeWords_success f4.filling w5)
  have f6 := f5.trans (writeWords_success f5.filling w6)
  have f7 := f6.trans (writeWords_success f6.filling w7)
  obtain ⟨lists,stored,few⟩ := within_bind (within_bufferNoSize _ _) (within_bind (within_bufferNoSize _ _)
    (within_bufferNoSize _ _)) _ _ f7.filling written
  have all := f7.trans stored
  have last : Fills c₂ c' [] := by
    rw [← (Prod.mk.inj ok).2]
    exact fills_of_same stored.filling rfl rfl
  refine ⟨lists,?_,?_⟩
  · have whole := all.trans last
    rw [List.append_nil] at whole
    exact whole
  · rw [subChunkBound]
    omega

end Lengths

section Written
variable {around : Surroundings} {c c' : Chunk}

/-- The words that a behavior without its interface may take behind those of the scene object. -/
def behaviorBound (s : CkbehaviorState) : Nat :=
  20 + s.subBehaviors.length + s.subBehaviorLinks.length + s.operations.length + s.inParameters.length +
    s.outParameters.length + s.localParameters.length + s.inputs.length + s.outputs.length

theorem behaviorData_success {s : CkbehaviorState} (filling : Filling c)
    (ok : (saveBehaviorData around s).run c = (.ok (),c')) :
    ∃ words, Fills c c' words ∧ Framed (behaviorBound s) words ∧ words ≠ [] := by
  obtain ⟨_,c₁,marked,ok⟩ := Action.bind_success ok
  have mark := identifier_success filling marked
  obtain ⟨_,c₂,flagged,ok⟩ := Action.bind_success ok
  have first := writeWords_success mark.filling flagged
  obtain ⟨words,fills,few⟩ := (within_bind (within_when (within_words [s.blockGuid.d1,s.blockGuid.d2])) <|
    within_bind (within_when (within_words [s.blockVersion])) <|
    within_bind (within_when (within_words [s.priority.toUInt32])) <|
    within_bind (within_when (within_words [s.compatibleClassId.toUInt32])) <|
    within_bind (within_when (within_objectId s.targetParameterId)) <|
    within_bind (within_words [behaviorSaveFlags s]) <|
    within_bind (within_when (within_objectArray s.subBehaviors)) <|
    within_bind (within_when (within_objectArray s.subBehaviorLinks)) <|
    within_bind (within_when (within_objectArray s.operations)) <|
    within_bind (within_when (within_objectArray s.inParameters)) <|
    within_bind (within_when (within_objectArray s.outParameters)) <|
    within_bind (within_when (within_objectArray s.localParameters)) <|
    within_bind (within_when (within_objectArray s.inputs)) (within_when (within_objectArray s.outputs)))
      _ _ first.filling ok
  simp only [List.length_cons,List.length_nil] at few
  have length : ([s.flags.toInt32.toUInt32] ++ words).length = 1 + words.length := by
    rw [List.length_append]
    rfl
  obtain ⟨written,framed⟩ : Fills c c' _ ∧ Framed (behaviorBound s) _ :=
    section_fills mark (first.trans fills) ⟨by decide,by decide⟩ (by rw [length]; exact Nat.le_add_right 1 _)
      (by rw [length,behaviorBound]; omega)
  exact ⟨_,written,framed,List.cons_ne_nil _ _⟩

/-- The words that stand for the interface chunk. -/
def InterfaceWords : Option Chunk → List UInt32 → Prop
  | none,words => words = []
  | some sub,words => ∃ lists, words = [stateSaveBehaviorInterface,
      UInt32.ofNat (8 + sub.dataSize + sub.ids.length + sub.chunks.length - 1),sub.chunkClassId.toUInt16.toUInt32,
      sub.dataVersion ||| sub.chunkVersion <<< 16,UInt32.ofNat sub.dataSize,0,count32 sub.ids,count32 sub.chunks,0] ++ lists

def interfaceBound : Option Chunk → Nat
  | none => 0
  | some sub => 10 + subChunkBound sub

theorem interface_success {interface : Option Chunk} (filling : Filling c)
    (ok : (saveInterface around interface).run c = (.ok (),c')) :
    ∃ words, Fills c c' words ∧ Framed (interfaceBound interface) words ∧ InterfaceWords interface words := by
  cases interface with
  | none =>
    obtain rfl := (Prod.mk.inj ok).2
    exact ⟨[],filling.fills,framed_nil 0,rfl⟩
  | some sub =>
    obtain ⟨_,c₁,marked,ok⟩ := Action.bind_success ok
    have mark := identifier_success filling marked
    obtain ⟨lists,stored,few⟩ := subChunk_success mark.filling ok
    obtain ⟨written,framed⟩ : Fills c c' _ ∧ Framed (interfaceBound (some sub)) _ :=
      section_fills mark stored ⟨by decide,by decide⟩ (Nat.le_add_left 1 _)
        (by rw [List.length_append,interfaceBound]; exact Nat.add_lt_add_of_lt_of_le (show 8 < 10 by decide) few)
    exact ⟨_,written,framed,lists,rfl⟩

theorem activity_success {s : CkbehaviorState} (filling : Filling c)
    (ok : (if s.hasSingleActivity then do
        chunkWriteIdentifier around stateSaveBehaviorSingleActivity
        chunkWriteDword around s.singleActivityFlags
      else pure () : Run Chunk Unit).run c = (.ok (),c')) : ∃ words, Fills c c' words ∧ Framed 2 words := by
  split at ok
  · obtain ⟨_,c₁,marked,ok⟩ := Action.bind_success ok
    have mark := identifier_success filling marked
    exact ⟨_,section_fills mark (writeWords_success mark.filling ok) ⟨by decide,by decide⟩ (Nat.le_refl 1)
      (Nat.lt_succ_self 1)⟩
  · obtain rfl := (Prod.mk.inj ok).2
    exact ⟨[],filling.fills,framed_nil 2⟩

/-- Behind the words of the scene object there is always something. -/
theorem behavior_success {s : CkbehaviorState} (tailless : s.base.rawTail = [])
    (ok : (ckBehaviorSerialize around s).run chunkCreate = (.ok (),c)) : ∃ interface rest,
      c.words = visibilityWords s.base.base ++ (interface ++ rest) ∧ InterfaceWords s.interfaceChunk interface ∧
      Framed (interfaceBound s.interfaceChunk + behaviorBound s + 2) (interface ++ rest) ∧ rest ≠ [] := by
  obtain ⟨c₁,based,roomy,words⟩ := sceneObject_written around tailless
  rw [ckBehaviorSerialize,Action.bind_ok _ based] at ok
  obtain ⟨_,_,faced,ok⟩ := Action.bind_success ok
  obtain ⟨_,_,stored,ok⟩ := Action.bind_success ok
  obtain ⟨interface,first,framedInterface,shape⟩ := interface_success roomy.filling faced
  obtain ⟨data,second,framedData,something⟩ := behaviorData_success first.filling stored
  obtain ⟨activity,third,framedActivity⟩ := activity_success second.filling ok
  have all := (first.trans second).trans third
  have framed := (framedInterface.append framedData).append framedActivity
  rw [List.append_assoc] at framed
  refine ⟨interface,data ++ activity,?_,shape,framed,?_⟩
  · rw [all.words,words,List.append_assoc interface]
  · intro empty
    exact something (List.append_eq_nil_iff.mp empty).1

end Written

section Read
variable {c c' : Chunk}

theorem readWhile_length {α : Type} (read : Run Chunk α) (count : Nat) :
    Action.Yields (fun values => values.length ≤ count) (readWhile read count) := by
  induction count with
  | zero => exact Action.yields_pure (Nat.le_refl 0)
  | succ count ih =>
    refine Action.yields_after fun first => ?_
    cases first with
    | none => exact Action.yields_pure (Nat.zero_le _)
    | some value => exact Action.yields_bind ih fun rest few => Action.yields_pure (Nat.succ_le_succ few)

theorem objectArray_length : Action.Yields (fun ids => ids.length ≤ 100000) readObjectArray := by
  refine Action.yields_after fun count => ?_
  split
  · exact Action.yields_pure (Nat.zero_le _)
  · split
    · exact Action.yields_stop _
    · rename_i few
      have limit := UInt32.le_iff_toNat_le.mp (UInt32.not_lt.mp few)
      exact fun s ids t ok => (readWhile_length _ _ s ids t ok).trans limit

theorem arrayWhen_length (flags flag : UInt32) :
    Action.Yields (fun ids => ids.length ≤ 100000) (readWhen flags flag [] readObjectArray) := by
  rw [readWhen]
  split
  · exact objectArray_length
  · exact Action.yields_pure (Nat.zero_le _)

theorem behaviorData_read (base : CksceneobjectState) (interface : Option Chunk) :
    Action.Yields (fun t => t.base = base ∧ t.interfaceChunk = interface ∧ behaviorBound t ≤ 800020)
      (loadBehaviorData base interface) := by
  -- what stands before the arrays has no bound to it
  refine Action.yields_after fun _ => Action.yields_after fun _ => Action.yields_after fun _ =>
    Action.yields_after fun _ => Action.yields_after fun _ => Action.yields_after fun _ =>
    Action.yields_after fun _ => Action.yields_after fun _ => Action.yields_after fun _ => ?_
  refine Action.yields_bind (arrayWhen_length _ _) fun _ subBehaviors => Action.yields_bind (arrayWhen_length _ _)
    fun _ subBehaviorLinks => Action.yields_bind (arrayWhen_length _ _) fun _ operations =>
    Action.yields_bind (arrayWhen_length _ _) fun _ inParameters => Action.yields_bind (arrayWhen_length _ _)
    fun _ outParameters => Action.yields_bind (arrayWhen_length _ _) fun _ localParameters =>
    Action.yields_bind (arrayWhen_length _ _) fun _ inputs => Action.yields_bind (arrayWhen_length _ _)
    fun _ outputs => Action.yields_pure ⟨rfl,rfl,?_⟩
  simp only [behaviorBound]
  omega

theorem behavior_read {t : CkbehaviorState} (ok : ckBehaviorDeserialize.run c = (.ok t,c')) :
    ∃ c₁ c₂, ckSceneObjectDeserialize.run c = (.ok t.base,c₁) ∧ loadInterface.run c₁ = (.ok t.interfaceChunk,c₂) ∧
      behaviorBound t ≤ 800020 := by
  obtain ⟨base,c₁,based,ok⟩ := Action.bind_success ok
  obtain ⟨interface,c₂,faced,ok⟩ := Action.bind_success ok
  obtain ⟨state,_,stored,ok⟩ := Action.bind_success ok
  obtain ⟨sameBase,sameInterface,few⟩ := behaviorData_read _ _ _ _ _ stored
  obtain ⟨present,_,_,ok⟩ := Action.bind_success ok
  have kept : t.base = state.base ∧ t.interfaceChunk = state.interfaceChunk ∧ behaviorBound t = behaviorBound state := by
    split at ok
    · obtain ⟨flags,_,_,ok⟩ := Action.bind_success ok
      cases flags with
      | none =>
        rw [← Except.ok.inj (Prod.mk.inj ok).1]
        exact ⟨rfl,rfl,rfl⟩
      | some flags =>
        rw [← Except.ok.inj (Prod.mk.inj ok).1]
        exact ⟨rfl,rfl,rfl⟩
    · rw [← Except.ok.inj (Prod.mk.inj ok).1]
      exact ⟨rfl,rfl,rfl⟩
  rw [kept.1,kept.2.1,kept.2.2,sameBase,sameInterface]
  exact ⟨c₁,c₂,based,faced,few⟩

theorem onPosition_success {α : Type} {action : List UInt32 → List UInt32 → Run Nat α} {value : α} {state : ParserState}
    (reading : c.parserState = some state) (ok : (onPosition action).run c = (.ok value,c')) :
    ∃ next, (action c.words c.spare).run state.currentPos = (.ok value,next) ∧ c' = c.setPos next := by
  unfold onPosition at ok
  dsimp only at ok
  rw [reading] at ok
  obtain ⟨given,rfl⟩ := Prod.mk.inj ok
  exact ⟨_,Prod.ext given rfl,rfl⟩

/-- The object is hidden, and nothing but its mark stands before the sections. -/
theorem ckobject_hidden {s : CkobjectState} (fresh : c.parserState = some {}) (marked : stateSaveObjectHidden ∈ c.words)
    (ok : ckobjectDeserialize.run c = (.ok s,c')) : visibilityWords s = [stateSaveObjectHidden] := by
  cases hidden : c.words.findIdx? (· = stateSaveObjectHidden) with
  | none =>
    have unmarked := List.findIdx?_eq_none_iff.mp hidden _ marked
    rw [decide_eq_false_iff_not] at unmarked
    exact absurd rfl unmarked
  | some place =>
    rw [ckobjectDeserialize,Action.bind_ok _ (found_some fresh hidden),if_pos rfl,Action.pure_apply,Prod.mk.injEq,
      Except.ok.injEq] at ok
    rw [← ok.1]
    rfl

theorem sceneObject_keeps {s : CksceneobjectState} {sections : List UInt32} (fresh : c.parserState = some {})
    (words : c.words = visibilityWords s.base ++ sections) (ok : ckSceneObjectDeserialize.run c = (.ok s,c')) :
    c'.words = c.words ∧ ∃ state, c'.parserState = some state := by
  obtain ⟨c₁,object,ok⟩ := sceneObject_base ok
  obtain ⟨kept,_,state,reading,_⟩ := ckobject_read fresh words object
  rw [Action.bind_ok _ (Action.read_apply _ _),Action.bind_ok _ (Action.read_apply _ _)] at ok
  split at ok
  · obtain ⟨tail,c₂,ran,ok⟩ := Action.bind_success ok
    obtain rfl := (Prod.mk.inj ok).2
    obtain ⟨next,_,rfl⟩ := onPosition_success reading ran
    exact ⟨kept,_,by simp only [Chunk.setPos,reading]; rfl⟩
  · obtain rfl := (Prod.mk.inj ok).2
    exact ⟨kept,state,reading⟩

theorem chunkReadSubChunk_chunks (data : List UInt32) :
    Action.Yields (fun back => back.chunks = []) (chunkReadSubChunk data) :=
  Action.yields_after fun _ => Action.yields_after fun _ => Action.yields_after fun _ => Action.yields_after fun _ =>
    Action.yields_after fun _ => Action.yields_after fun _ => Action.yields_after fun _ => Action.yields_after fun _ =>
    Action.yields_after fun _ => Action.yields_after fun _ => Action.yields_after fun _ => Action.yields_pure rfl

/-- What two chunks have in common when they are read alike. -/
structure SameContent (a b : Chunk) : Prop where
  chunkClassId : a.chunkClassId = b.chunkClassId
  dataVersion : a.dataVersion = b.dataVersion
  chunkVersion : a.chunkVersion = b.chunkVersion
  words : a.words = b.words
  ids : a.ids = b.ids
  chunks : a.chunks.length = b.chunks.length

/-- Behind the mark of a hidden object the interface chunk is read one word too early, so that its
version comes from its class and its size from its version. -/
theorem interface_short {sub back : Chunk} {lists rest : List UInt32} {state : ParserState}
    (reading : c.parserState = some state)
    (words : c.words = stateSaveObjectHidden :: ([stateSaveBehaviorInterface,
      UInt32.ofNat (8 + sub.dataSize + sub.ids.length + sub.chunks.length - 1),sub.chunkClassId.toUInt16.toUInt32,
      sub.dataVersion ||| sub.chunkVersion <<< 16,UInt32.ofNat sub.dataSize,0,count32 sub.ids,count32 sub.chunks,0] ++
      lists ++ rest))
    (ok : loadInterface.run c = (.ok (some back),c')) (same : SameContent sub back) : subChunkBound sub ≤ 255 := by
  have first : c.words.findIdx? (· = stateSaveBehaviorInterface) = some 0 := by
    rw [words]
    rfl
  rw [loadInterface,Action.bind_ok _ (found_some reading first),if_pos rfl] at ok
  obtain ⟨next,ran,_⟩ := onPosition_success rfl (attempt_some ok)
  have ahead : Cursor.Ahead c.words 1 ([stateSaveBehaviorInterface,
      UInt32.ofNat (8 + sub.dataSize + sub.ids.length + sub.chunks.length - 1),sub.chunkClassId.toUInt16.toUInt32,
      sub.dataVersion ||| sub.chunkVersion <<< 16,UInt32.ofNat sub.dataSize,0,count32 sub.ids] ++
      (count32 sub.chunks :: 0 :: (lists ++ rest))) := by
    rw [words]
    exact ⟨Nat.le_add_left 1 _,rfl⟩
  have taken := chunkReadSubChunk_success ahead ran
  have childless := chunkReadSubChunk_chunks _ _ _ _ ran
  have class16 : sub.chunkClassId.toUInt16.toUInt32.toNat < 256 := by
    rw [UInt16.toNat_toUInt32,UInt8.toNat_toUInt16]
    exact UInt8.toNat_lt _
  have version : sub.chunkVersion = 0 := by
    rw [same.chunkVersion,taken.chunkVersion]
    apply UInt32.toNat_inj.mp
    rw [UInt32.toNat_and,UInt32.toNat_shiftRight]
    have small : sub.chunkClassId.toUInt16.toUInt32.toNat >>> ((16 : UInt32).toNat % 32) = 0 := by
      rw [Nat.shiftRight_eq_div_pow]
      exact Nat.div_eq_of_lt (Nat.lt_trans class16 (by decide))
    rw [small,Nat.zero_and]
    rfl
  have data : sub.dataVersion.toNat ≤ 255 := by
    rw [same.dataVersion,taken.dataVersion,UInt32.toNat_and]
    exact Nat.and_le_right
  have size : sub.words.length ≤ 255 := by
    rw [same.words,taken.words,version]
    have alone : sub.dataVersion ||| (0 : UInt32) <<< 16 = sub.dataVersion := UInt32.or_zero
    rw [alone]
    exact data
  have ids : sub.ids.length = 0 := by
    rw [same.ids,taken.ids]
    rfl
  have chunks : sub.chunks.length = 0 := by
    rw [same.chunks,childless]
    rfl
  rw [subChunkBound,ids,chunks]
  exact size

end Read

/-- All fields agree, the interface chunks in their content. -/
structure SameBehavior (s t : CkbehaviorState) : Prop where
  fields : { s with interfaceChunk := none } = { t with interfaceChunk := none }
  interfaceChunk : Option.Rel SameContent s.interfaceChunk t.interfaceChunk

def BehaviorKept (around : Surroundings) (s : CkbehaviorState) : Prop :=
  ∃ t, readBack (ckBehaviorSerialize around s) ckBehaviorDeserialize = .ok t ∧ SameBehavior s t

section Kept
variable {around : Surroundings} {s t : CkbehaviorState}

theorem SameBehavior.base (same : SameBehavior s t) : s.base = t.base := by
  have bases := congrArg CkbehaviorState.base same.fields
  exact bases

theorem SameBehavior.bound (same : SameBehavior s t) : behaviorBound s = behaviorBound t := by
  have bounds := congrArg behaviorBound same.fields
  exact bounds

/-- An interface chunk that comes back is short. -/
theorem interface_bound {c c₁ c₂ : Chunk} {interface rest : List UInt32} (same : SameBehavior s t)
    (fresh : c.parserState = some {}) (words : c.words = visibilityWords s.base.base ++ (interface ++ rest))
    (shape : InterfaceWords s.interfaceChunk interface) (based : ckSceneObjectDeserialize.run c = (.ok s.base,c₁))
    (faced : loadInterface.run c₁ = (.ok t.interfaceChunk,c₂)) : interfaceBound s.interfaceChunk ≤ 265 := by
  obtain ⟨kept,state,reading⟩ := sceneObject_keeps fresh words based
  have related := same.interfaceChunk
  cases sub : s.interfaceChunk with
  | none => exact Nat.zero_le _
  | some sub =>
    rw [sub] at related shape
    cases back : t.interfaceChunk with
    | none =>
      rw [back] at related
      nomatch related
    | some back =>
      rw [back] at related faced
      obtain ⟨lists,rfl⟩ := shape
      cases related with
      | some content =>
        obtain ⟨_,object,_⟩ := sceneObject_base based
        have marked : stateSaveObjectHidden ∈ c.words := by
          rw [words]
          exact List.mem_append_right _ (List.mem_append_left _ (List.mem_cons_self))
        rw [ckobject_hidden fresh marked object] at words
        have short := interface_short reading (kept.trans words) faced content
        rw [interfaceBound]
        omega

/-- Whatever a behavior has, without a tail of its own it comes back with another. -/
theorem behavior_lost (around : Surroundings) (s : CkbehaviorState) (tailless : s.base.rawTail = []) :
    ¬ BehaviorKept around s := by
  rintro ⟨t,back,same⟩
  obtain ⟨c,c₁,_,wrote,fresh,kept,ran⟩ := readBack_success back
  obtain ⟨interface,rest,words,shape,framed,something⟩ := behavior_success tailless wrote
  obtain ⟨c₂,_,based,faced,few⟩ := behavior_read ran
  rw [← kept] at words
  rw [← same.base] at based
  have short := interface_bound same fresh words shape based faced
  have lists := same.bound
  have nothing := sceneObject_read tailless fresh words framed (by omega) based
  exact something (List.append_eq_nil_iff.mp nothing).2

/-- A graph with an interface chunk, lists and flags. -/
def sampleBehavior : CkbehaviorState where
  base := { base := { visibilityFlags := 1 } }
  flags := 0x701
  priority := 3
  subBehaviors := [4,9]
  outputs := [2]
  interfaceChunk := some { chunkCreate with data := some [5,6] }

theorem sampleBehavior_lost : sampleBehavior.base.rawTail = [] ∧ ¬ BehaviorKept {} sampleBehavior :=
  ⟨rfl,behavior_lost {} sampleBehavior rfl⟩

/-- The identifier of the data is taken for the size of a tail of two bytes. -/
theorem newData_misread : ¬ BehaviorKept {} {} := by
  have read : (readBack (ckBehaviorSerialize {} {}) ckBehaviorDeserialize).map (fun t => t.base.rawTail) = .ok [0,0] := by
    decide +kernel
  rintro ⟨t,back,same⟩
  rw [back] at read
  have tail : t.base.rawTail = [0,0] := Except.ok.inj read
  rw [← same.base] at tail
  cases tail

end Kept

end Libnmo.Schema

/-! Links and pins come back whole: their first word is the one their readers look for. -/
namespace Libnmo.Schema
open Core Format Lib Lib.LittleEndian

section Links
variable (around : Surroundings)

/-- The lower half of the word, whatever the sign of the other delay spills into it. -/
theorem packDelays_lower (s : CkbehaviorlinkState) :
    (packDelays s &&& (0xFFFF : UInt32)).toUInt16.toInt16 = s.activationDelay := by
  have mask : ∀ i (inside : i < 16), (65535#16)[i] = true := by decide
  apply Int16.toBitVec_inj.mp
  ext i inside
  simp [packDelays,mask,BitVec.getElem_signExtend,inside,show i < 32 by omega]

theorem packDelays_upper (s : CkbehaviorlinkState) :
    (packDelays s >>> (16 : UInt32) &&& (0xFFFF : UInt32)).toUInt16.toInt16 = s.initialActivationDelay := by
  have mask : ∀ i (inside : i < 16), (65535#16)[i] = true := by decide
  have lower : ∀ i (inside : i < 16), (65535#32)[i] = true := by decide
  have upper : ∀ i (inside : i < 32), 16 ≤ i → (65535#32)[i] = false := by decide
  apply Int16.toBitVec_inj.mp
  ext i inside
  simp [packDelays,mask,lower,upper,BitVec.getElem_signExtend,inside,show i < 32 by omega,show 16 + i < 32 by omega]

def linkWords (s : CkbehaviorlinkState) : List UInt32 := [stateSaveBehavLinkNewData,packDelays s,s.inIoId,s.outIoId]

theorem as_link (s : CkbehaviorlinkState) : WritesAs 4 (· = linkWords s) (ckBehaviorLinkSerialize around s) :=
  as_then (as_identifier _) (as_then (as_writeWords [_]) (as_then (as_objectId _) (as_objectId _)))

theorem link_run {c : Chunk} (s : CkbehaviorlinkState) (same : c.words = linkWords s) (fresh : c.parserState = some {}) :
    (ckBehaviorLinkDeserialize.run c).1 = .ok s := by
  have opened : Opened (linkWords s) c := ⟨same,_,fresh⟩
  obtain ⟨c₁,scanned,standing⟩ := found_standing opened (if_pos rfl)
  obtain ⟨c₂,delays,standing⟩ := readsWord_dword.full _ _ _ _ standing
  obtain ⟨c₃,inIo,standing⟩ := readsWord_objectId.full _ _ _ _ standing
  obtain ⟨c₄,outIo,_⟩ := readsWord_objectId.full _ _ _ _ standing
  rw [ckBehaviorLinkDeserialize,Action.bind_ok _ scanned,if_pos rfl,loadLinkNewData,Action.bind_ok _ delays,
    Action.bind_ok _ inIo,Action.bind_ok _ outIo]
  simp only [id,packDelays_lower,packDelays_upper]
  rfl

theorem as_io (s : CkbehaviorioState) : WritesAs 2 (· = [stateSaveBehavIoFlags,s.oldFlags]) (ckBehaviorIoSerialize around s) :=
  as_then (as_identifier _) (as_writeWords [_])

theorem io_run {c : Chunk} (s : CkbehaviorioState) (same : c.words = [stateSaveBehavIoFlags,s.oldFlags])
    (fresh : c.parserState = some {}) : (ckBehaviorIoDeserialize.run c).1 = .ok s := by
  have opened : Opened [stateSaveBehavIoFlags,s.oldFlags] c := ⟨same,_,fresh⟩
  obtain ⟨c₁,scanned,standing⟩ := found_standing opened (if_pos rfl)
  obtain ⟨c₂,flags,_⟩ := readsWord_dword.full _ _ _ _ standing
  rw [ckBehaviorIoDeserialize,Action.bind_ok _ scanned,if_pos rfl,Action.bind_ok _ flags]
  rfl

theorem links_kept (link : CkbehaviorlinkState) (pin : CkbehaviorioState) :
    startedBack around (ckBehaviorLinkSerialize around link) ckBehaviorLinkDeserialize = .ok link ∧
      startedBack around (ckBehaviorIoSerialize around pin) ckBehaviorIoDeserialize = .ok pin := by
  constructor
  · apply startedBack_of (as_link around link) (by decide)
    intro c same fresh
    exact link_run link same fresh
  · apply startedBack_of (as_io around pin) (by decide)
    intro c same fresh
    exact io_run pin same fresh

end Links

/-- The sections of the older format, a delay and two pins. -/
def legacyLinkWords (delay inIo outIo : UInt32) : List UInt32 :=
  [stateSaveBehavLinkCurDelay,delay,stateSaveBehavLinkIos,inIo,outIo]

def legacyLinkChunk (delay inIo outIo : UInt32) : Chunk :=
  { chunkCreate with data := some (legacyLinkWords delay inIo outIo), parserState := some {} }

section Legacy
variable {words : List UInt32} {c : Chunk} {delay inIo outIo : UInt32}

theorem legacyLink_opened (delay inIo outIo : UInt32) :
    Opened (legacyLinkWords delay inIo outIo) (legacyLinkChunk delay inIo outIo) := ⟨rfl,_,rfl⟩

/-- With the mark of the newer format found, its words are read from there. -/
theorem linkNewData_success {t : CkbehaviorlinkState} {after : List UInt32} (opened : Opened words c)
    (place : behind stateSaveBehavLinkNewData words = some after) (ok : (ckBehaviorLinkDeserialize.run c).1 = .ok t) :
    ∃ delays inIo outIo rest, after = delays :: inIo :: outIo :: rest ∧
      t.initialActivationDelay = (delays >>> (16 : UInt32) &&& (0xFFFF : UInt32)).toUInt16.toInt16 := by
  obtain ⟨c₁,scanned,standing⟩ := found_standing opened place
  rw [ckBehaviorLinkDeserialize,Action.bind_ok _ scanned,if_pos rfl] at ok
  obtain ⟨_,_,r1,ok⟩ := Action.bind_success (Prod.ext ok rfl)
  obtain ⟨_,_,r2,ok⟩ := Action.bind_success ok
  obtain ⟨_,_,r3,ok⟩ := Action.bind_success ok
  obtain ⟨delays,_,rfl,rfl,standing₁⟩ := readsWord_dword.success standing r1
  obtain ⟨inIo,_,rfl,rfl,standing₂⟩ := readsWord_objectId.success standing₁ r2
  obtain ⟨outIo,rest,rfl,rfl,_⟩ := readsWord_objectId.success standing₂ r3
  refine ⟨_,_,_,rest,rfl,?_⟩
  rw [← Except.ok.inj (Prod.mk.inj ok).1]

/-- Without that mark, and with the delay behind its own, the pins are the two words behind theirs. -/
theorem legacyLink_run {rest : List UInt32} {first second : UInt32} (opened : Opened words c)
    (missing : behind stateSaveBehavLinkNewData words = none)
    (delayed : behind stateSaveBehavLinkCurDelay words = some (delay :: rest)) {more : List UInt32}
    (joined : behind stateSaveBehavLinkIos words = some (first :: second :: more)) :
    (ckBehaviorLinkDeserialize.run c).1 = .ok { activationDelay := delay.toInt32.toInt16, inIoId := first, outIoId := second } := by
  have absent := found_nowhere opened missing
  obtain ⟨c₁,scanned,standing⟩ := found_standing opened delayed
  obtain ⟨c₂,counted,standing⟩ := readsWord_int.full _ _ _ _ standing
  obtain ⟨c₃,rescanned,standing⟩ := found_standing standing.opened joined
  obtain ⟨c₄,inRead,standing⟩ := readsWord_objectId.full _ _ _ _ standing
  obtain ⟨c₅,outRead,_⟩ := readsWord_objectId.full _ _ _ _ standing
  rw [ckBehaviorLinkDeserialize,Action.bind_ok _ absent,if_neg Bool.false_ne_true,loadLinkLegacy,Action.bind_ok _ scanned,
    if_pos rfl,Action.bind_ok _ counted,Action.bind_ok _ rescanned,if_pos rfl,Action.bind_ok _ inRead,Action.bind_ok _ outRead]
  rfl

end Legacy

/-- A link of the older format is read as it stands unless one of its words is taken for a mark: a delay of one, the
initial one, and pins with the ID one for the mark of the newer format, a delay of four for that of the pins. -/
theorem legacyLink_read_iff (delay inIo outIo : UInt32) :
    (ckBehaviorLinkDeserialize.run (legacyLinkChunk delay inIo outIo)).1 =
        .ok { activationDelay := delay.toInt32.toInt16, inIoId := inIo, outIoId := outIo } ↔
      delay ≠ 1 ∧ inIo ≠ 1 ∧ outIo ≠ 1 ∧ (delay = 4 → inIo = 4 ∧ outIo = 4) := by
  have opened := legacyLink_opened delay inIo outIo
  have delayed : behind stateSaveBehavLinkCurDelay (legacyLinkWords delay inIo outIo) = some [delay,4,inIo,outIo] := rfl
  by_cases one : delay = 1
  · subst one
    constructor
    · intro ok
      have place : behind stateSaveBehavLinkNewData (legacyLinkWords 1 inIo outIo) = some [4,inIo,outIo] := rfl
      obtain ⟨_,_,_,_,after,initial⟩ := linkNewData_success opened place ok
      obtain ⟨rfl,_⟩ := List.cons.inj after
      have other : (1 : Int16) ≠ ((4 : UInt32) >>> (16 : UInt32) &&& (0xFFFF : UInt32)).toUInt16.toInt16 := by decide
      exact absurd initial other
    · intro apart
      exact absurd rfl apart.1
  by_cases inOne : inIo = 1
  · subst inOne
    have place : behind stateSaveBehavLinkNewData (legacyLinkWords delay 1 outIo) = some [outIo] := by
      simp [behind,legacyLinkWords,one,stateSaveBehavLinkNewData,stateSaveBehavLinkCurDelay,stateSaveBehavLinkIos]
    constructor
    · intro ok
      obtain ⟨_,_,_,_,after,_⟩ := linkNewData_success opened place ok
      cases after
    · intro apart
      exact absurd rfl apart.2.1
  by_cases outOne : outIo = 1
  · subst outOne
    have place : behind stateSaveBehavLinkNewData (legacyLinkWords delay inIo 1) = some [] := by
      simp [behind,legacyLinkWords,one,inOne,stateSaveBehavLinkNewData,stateSaveBehavLinkCurDelay,stateSaveBehavLinkIos]
    constructor
    · intro ok
      obtain ⟨_,_,_,_,after,_⟩ := linkNewData_success opened place ok
      cases after
    · intro apart
      exact absurd rfl apart.2.2.1
  have missing : behind stateSaveBehavLinkNewData (legacyLinkWords delay inIo outIo) = none := by
    simp [behind,legacyLinkWords,one,inOne,outOne,stateSaveBehavLinkNewData,stateSaveBehavLinkCurDelay,stateSaveBehavLinkIos]
  by_cases four : delay = 4
  · subst four
    have joined : behind stateSaveBehavLinkIos (legacyLinkWords 4 inIo outIo) = some (4 :: inIo :: [outIo]) := rfl
    rw [legacyLink_run opened missing delayed joined,Except.ok.injEq,
      CkbehaviorlinkState.mk.injEq]
    constructor
    · intro same
      exact ⟨one,inOne,outOne,fun _ => ⟨same.2.2.1.symm,same.2.2.2.symm.trans same.2.2.1.symm⟩⟩
    · intro apart
      obtain ⟨rfl,rfl⟩ := apart.2.2.2 rfl
      exact ⟨rfl,rfl,rfl,rfl⟩
  · have joined : behind stateSaveBehavLinkIos (legacyLinkWords delay inIo outIo) = some [inIo,outIo] := by
      simp [behind,legacyLinkWords,four,stateSaveBehavLinkCurDelay,stateSaveBehavLinkIos]
    rw [legacyLink_run opened missing delayed joined]
    simp [one,inOne,outOne,four]

end Libnmo.Schema
