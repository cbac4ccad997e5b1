import Libnmo.Format.ChunkReadBack
import Libnmo.Format.ChunkRoom
import Libnmo.Schema.ObjectStates

/-! Objects and groups read back. The reader of scene objects takes what is behind the
position for an unknown tail, and nothing else is behind the identifier of a hidden
object than the sections of the class: only an object without a section comes back. -/
namespace Libnmo.Schema
open Core Format Lib Lib.LittleEndian

section Attempts
variable {σ α : Type} {action : Run σ α} {s t : σ}

theorem attempt_ok {a : α} (ran : action.run s = (.ok a,t)) : (attempt action).run s = (.ok (some a),t) := by
  unfold attempt
  dsimp only
  rw [ran]

theorem attempt_failed {code : ErrorCode} {message : String} (ran : action.run s = (.error (.error code message),t)) :
    (attempt action).run s = (.ok none,t) := by
  unfold attempt
  dsimp only
  rw [ran]

theorem attempt_some {value : α} (ok : (attempt action).run s = (.ok (some value),t)) : action.run s = (.ok value,t) := by
  unfold attempt at ok
  dsimp only at ok
  split at ok
  · rename_i found after ran
    obtain ⟨same,rfl⟩ := Prod.mk.inj ok
    rw [ran,Option.some.inj (Except.ok.inj same)]
  · cases Except.ok.inj (Prod.mk.inj ok).1
  · cases (Prod.mk.inj ok).1

end Attempts

section Searching
variable {c : Chunk} {state : ParserState}

theorem found_some {identifier : UInt32} {place : Nat} (reading : c.parserState = some state)
    (first : c.words.findIdx? (· = identifier) = some place) :
    (found identifier).run c = (.ok true,{ c with parserState := some ⟨place + 1,place⟩ }) := by
  have filled : c.dataSize ≠ 0 := by
    intro empty
    rw [List.length_eq_zero_iff.mp empty] at first
    cases first
  have seek : (chunkSeekIdentifier identifier).run c = (.ok (),{ c with parserState := some ⟨place + 1,place⟩ }) := by
    simp only [chunkSeekIdentifier,if_neg filled,first,reading]
  rw [found,Action.bind_ok _ (attempt_ok seek)]
  rfl

theorem found_none {identifier : UInt32} (nowhere : c.words.findIdx? (· = identifier) = none) :
    (found identifier).run c = (.ok false,c) := by
  have missing : ∃ message, (chunkSeekIdentifier identifier).run c = (.error (.error .notFound message),c) := by
    simp only [chunkSeekIdentifier,nowhere]
    split
    · exact ⟨_,rfl⟩
    · exact ⟨_,rfl⟩
  obtain ⟨message,ran⟩ := missing
  rw [found,Action.bind_ok _ (attempt_failed ran)]
  rfl

end Searching

section Writing
variable {around : Surroundings} {c c' : Chunk}

theorem attempt_writes {words : List UInt32} {action : Run Chunk Unit} (writes : Writes words action) :
    Writes words (do
      let _ ← attempt action
      pure ()) := by
  intro c roomy few
  obtain ⟨c',ran,fills,roomy'⟩ := writes c roomy few
  refine ⟨c',?_,fills,roomy'⟩
  rw [Action.bind_ok _ (attempt_ok ran)]
  rfl

/-- The words of the visibility, which a visible object has none of. -/
def visibilityWords (s : CkobjectState) : List UInt32 :=
  if s.visibilityFlags &&& ckobjectVisible = 0 then
    [if s.visibilityFlags &&& ckobjectHierarchical ≠ 0 then stateSaveObjectHieraHidden else stateSaveObjectHidden]
  else []

theorem visibilityWords_short (s : CkobjectState) : (visibilityWords s).length ≤ 1 := by
  rw [visibilityWords]
  split
  · exact Nat.le_refl 1
  · exact Nat.zero_le 1

theorem writes_ckobject (around : Surroundings) (s : CkobjectState) : Writes (visibilityWords s) (ckobjectSerialize around s) := by
  rw [visibilityWords,ckobjectSerialize]
  split
  · exact attempt_writes (writes_identifier _)
  · exact writes_pure

/-- A scene object without a tail is its visibility. -/
theorem sceneObject_written (around : Surroundings) {s : CksceneobjectState} (tailless : s.rawTail = []) :
    ∃ c, (ckSceneObjectSerialize around s).run chunkCreate = (.ok (),c) ∧ Roomy c ∧ c.words = visibilityWords s.base := by
  obtain ⟨c₁,started,roomy₁,empty⟩ := startWrite_roomy around
  have few : c₁.dataSize + (visibilityWords s.base).length < 2 ^ 60 := by
    have short := visibilityWords_short s.base
    rw [Chunk.dataSize,empty,List.length_nil]
    omega
  obtain ⟨c₂,ran,fills,roomy₂⟩ := writes_ckobject around s.base c₁ roomy₁ few
  refine ⟨c₂,?_,roomy₂,by rw [fills.words,empty,List.nil_append]⟩
  rw [ckSceneObjectSerialize,Action.bind_ok _ started,Action.bind_ok _ ran,tailless]
  rfl

theorem identifier_success {identifier : UInt32} (filling : Filling c)
    (ok : (chunkWriteIdentifier around identifier).run c = (.ok (),c')) : Fills c c' [identifier] := by
  obtain ⟨_,c₁,stored,ok⟩ := Action.bind_success ok
  have written := writeWords_success filling stored
  rw [Action.update_apply,Prod.mk.injEq] at ok
  rw [← ok.2]
  refine ⟨written.words,?_⟩
  rw [Filling,Option.map_map]
  exact written.filling

theorem writeFirst_success {α : Type} {write : α → Run Chunk Unit} {word : α → UInt32} {values : List α} {count : Nat}
    (each : ∀ (c c' : Chunk) a, Filling c → (write a).run c = (.ok (),c') → Fills c c' [word a])
    (filling : Filling c) (ok : (writeFirst write values count).run c = (.ok (),c')) :
    ∃ words, Fills c c' words ∧ words.length = count := by
  obtain ⟨_,c₁,entries,ok⟩ := Action.bind_success ok
  have stored := writeEach_success each filling entries
  split at ok
  · simp at ok
  · rename_i enough
    rw [Action.pure_apply,Prod.mk.injEq] at ok
    obtain rfl := ok.2
    refine ⟨_,stored,?_⟩
    rw [List.length_map,List.length_take]
    omega

/-- Sections begin with an identifier, which read as a size asks for no more than follows. -/
structure Framed (bound : Nat) (sections : List UInt32) : Prop where
  starts : ∀ identifier more, sections = identifier :: more → 0 < identifier.toNat ∧ identifier.toNat ≤ 16 ∧
    (identifier.toNat + 3) / 4 ≤ more.length
  length : sections.length ≤ bound

theorem framed_nil (bound : Nat) : Framed bound [] := ⟨nofun,Nat.zero_le bound⟩

theorem framed_cons {bound : Nat} {identifier : UInt32} {more : List UInt32}
    (size : 0 < identifier.toNat ∧ identifier.toNat ≤ 16 ∧ (identifier.toNat + 3) / 4 ≤ more.length)
    (length : more.length < bound) : Framed bound (identifier :: more) := by
  refine ⟨?_,length⟩
  intro first rest same
  obtain ⟨rfl,rfl⟩ := List.cons.inj same
  exact size

theorem Framed.append {bound bound' : Nat} {sections sections' : List UInt32} (first : Framed bound sections)
    (second : Framed bound' sections') : Framed (bound + bound') (sections ++ sections') := by
  refine ⟨?_,?_⟩
  · intro identifier more same
    cases sections with
    | nil => exact second.starts _ _ same
    | cons head rest =>
      obtain ⟨rfl,rfl⟩ := List.cons.inj same
      obtain ⟨positive,small,enough⟩ := first.starts _ _ rfl
      refine ⟨positive,small,enough.trans ?_⟩
      rw [show rest.append sections' = rest ++ sections' from rfl,List.length_append]
      exact Nat.le_add_right ..
  · rw [List.length_append]
    exact Nat.add_le_add first.length second.length

/-- A section whose identifier is written first. -/
theorem section_fills {c₁ : Chunk} {bound : Nat} {identifier : UInt32} {more : List UInt32} (mark : Fills c c₁ [identifier])
    (body : Fills c₁ c' more) (size : 0 < identifier.toNat ∧ identifier.toNat ≤ 16)
    (enough : (identifier.toNat + 3) / 4 ≤ more.length) (length : more.length < bound) :
    Fills c c' (identifier :: more) ∧ Framed bound (identifier :: more) :=
  ⟨mark.trans body,framed_cons ⟨size.1,size.2,enough⟩ length⟩

theorem scripts_success {scriptIds : List UInt32} (filling : Filling c)
    (ok : (saveScripts around scriptIds).run c = (.ok (),c')) :
    ∃ words, Fills c c' words ∧ Framed (2 + scriptIds.length) words := by
  rw [saveScripts] at ok
  split at ok
  · rename_i some
    obtain ⟨_,_,marked,ok⟩ := Action.bind_success ok
    obtain ⟨_,_,counted,ok⟩ := Action.bind_success ok
    have mark := identifier_success filling marked
    have count := writeWords_success mark.filling counted
    have ids : Fills _ _ (scriptIds.map id) := writeEach_success (fun _ _ _ => writeObjectId_success) count.filling ok
    refine ⟨_,section_fills mark (count.trans ids) ⟨by decide,by decide⟩ ?_ ?_⟩
    · rw [List.length_append,List.length_map]
      exact Nat.le_add_right 1 _
    · rw [List.length_append,List.length_map]
      exact Nat.add_lt_add_right (Nat.lt_succ_self 1) _
  · rw [Action.pure_apply,Prod.mk.injEq] at ok
    obtain rfl := ok.2
    exact ⟨[],filling.fills,framed_nil _⟩

theorem priority_success {priority : Int32} (filling : Filling c)
    (ok : (savePriority around priority).run c = (.ok (),c')) : ∃ words, Fills c c' words ∧ Framed 3 words := by
  rw [savePriority] at ok
  split at ok
  · obtain ⟨_,_,marked,ok⟩ := Action.bind_success ok
    obtain ⟨_,_,flagged,ok⟩ := Action.bind_success ok
    have mark := identifier_success filling marked
    have flag := writeWords_success mark.filling flagged
    refine ⟨_,section_fills mark (flag.trans (writeWords_success flag.filling ok)) ⟨by decide,by decide⟩ ?_ ?_⟩
    · exact Nat.le_succ 1
    · exact Nat.lt_succ_self 2
  · rw [Action.pure_apply,Prod.mk.injEq] at ok
    obtain rfl := ok.2
    exact ⟨[],filling.fills,framed_nil _⟩

theorem attributes_success {s : CkbeobjectState} (filling : Filling c)
    (ok : (saveAttributes around s).run c = (.ok (),c')) :
    ∃ words, Fills c c' words ∧ Framed (5 + 2 * s.attributeCount.toNat) words := by
  rw [saveAttributes] at ok
  split at ok
  · obtain ⟨_,_,marked,ok⟩ := Action.bind_success ok
    obtain ⟨_,_,counted,ok⟩ := Action.bind_success ok
    obtain ⟨_,_,parameters,ok⟩ := Action.bind_success ok
    obtain ⟨_,_,started,ok⟩ := Action.bind_success ok
    have mark := identifier_success filling marked
    have count := writeWords_success mark.filling counted
    obtain ⟨ids,wroteIds,idCount⟩ := writeFirst_success (fun _ _ _ => writeObjectId_success) count.filling parameters
    have sequence := startManagerSequence_success wroteIds.filling started
    obtain ⟨types,wroteTypes,typeCount⟩ := writeFirst_success (fun _ _ _ => writeWords_success) sequence.filling ok
    have length : ([s.attributeCount.toInt32.toUInt32] ++ ids ++ [UInt32.ofNat s.attributeCount.toNat,
        attributeManagerGuid.d1,attributeManagerGuid.d2] ++ types).length = 4 + 2 * s.attributeCount.toNat := by
      simp only [List.length_append,List.length_cons,List.length_nil,idCount,typeCount]
      omega
    refine ⟨_,section_fills mark (((count.trans wroteIds).trans sequence).trans wroteTypes) ⟨by decide,by decide⟩ ?_ ?_⟩
    · rw [length]
      exact Nat.le_add_right 4 _
    · rw [length]
      exact Nat.add_lt_add_right (Nat.lt_succ_self 4) _
  · rw [Action.pure_apply,Prod.mk.injEq] at ok
    obtain rfl := ok.2
    exact ⟨[],filling.fills,framed_nil _⟩

/-- The words a be-object may take. -/
def beObjectBound (s : CkbeobjectState) : Nat := 10 + s.scriptIds.length + 2 * s.attributeCount.toNat

theorem beObject_success {s : CkbeobjectState} (tailless : s.base.rawTail = [])
    (ok : (ckBeObjectSerialize around s).run chunkCreate = (.ok (),c)) :
    ∃ sections, Filling c ∧ c.words = visibilityWords s.base.base ++ sections ∧ Framed (beObjectBound s) sections := by
  obtain ⟨c₁,based,roomy,words⟩ := sceneObject_written around tailless
  rw [ckBeObjectSerialize,Action.bind_ok _ based] at ok
  obtain ⟨_,_,scripted,ok⟩ := Action.bind_success ok
  obtain ⟨_,_,prioritised,ok⟩ := Action.bind_success ok
  obtain ⟨scripts,first,framedScripts⟩ := scripts_success roomy.filling scripted
  obtain ⟨priority,second,framedPriority⟩ := priority_success first.filling prioritised
  obtain ⟨attributes,third,framedAttributes⟩ := attributes_success second.filling ok
  have all := (first.trans second).trans third
  have framed := (framedScripts.append framedPriority).append framedAttributes
  refine ⟨scripts ++ priority ++ attributes,all.filling,?_,framed.starts,framed.length.trans ?_⟩
  · rw [all.words,words,List.append_assoc scripts]
  · rw [beObjectBound]
    omega

theorem group_success {g : CkgroupState} (tailless : g.base.base.rawTail = [])
    (ok : (ckGroupSerialize around g).run chunkCreate = (.ok (),c)) :
    ∃ sections, Filling c ∧ c.words = visibilityWords g.base.base.base ++ sections ∧
      Framed (beObjectBound g.base + 2 + g.objectIds.length) sections ∧ (sections = [] → g.objectIds = []) := by
  obtain ⟨_,_,based,ok⟩ := Action.bind_success ok
  obtain ⟨sections,filling,words,framed⟩ := beObject_success tailless based
  split at ok
  · rename_i empty
    rw [Action.pure_apply,Prod.mk.injEq] at ok
    obtain rfl := ok.2
    refine ⟨sections,filling,words,⟨framed.starts,framed.length.trans (by omega)⟩,?_⟩
    intro _
    exact List.length_eq_zero_iff.mp empty
  · obtain ⟨_,_,marked,ok⟩ := Action.bind_success ok
    obtain ⟨_,_,counted,ok⟩ := Action.bind_success ok
    have mark := identifier_success filling marked
    have count := writeWords_success mark.filling counted
    have ids : Fills _ _ (g.objectIds.map id) := writeEach_success (fun _ _ _ => writeObjectId_success) count.filling ok
    have length : ([(UInt32.ofNat g.objectIds.length).toInt32.toUInt32] ++ g.objectIds.map id).length =
        1 + g.objectIds.length := by
      rw [List.length_append,List.length_map]
      rfl
    have own : Fills _ _ _ ∧ Framed (2 + g.objectIds.length) _ :=
      section_fills mark (count.trans ids) ⟨by decide,by decide⟩ (by rw [length]; exact Nat.le_add_right 1 _) (by omega)
    have all := framed.append own.2
    refine ⟨_,own.1.filling,?_,⟨all.starts,all.length.trans (by omega)⟩,?_⟩
    · rw [own.1.words,words,List.append_assoc]
    · intro empty
      exact absurd (List.append_eq_nil_iff.mp empty).2 (List.cons_ne_nil _ _)

end Writing

section Reading
variable {c c' : Chunk} {state : ParserState}

/-- A size that the data behind it covers brings so many bytes. -/
theorem fill_run {data : List UInt32} (spare : List UInt32) {pos bufferSize : Nat} {size : UInt32} {more : List UInt32}
    (ahead : data.drop pos = size :: more) (positive : 0 < size.toNat) (small : size.toNat ≤ 16)
    (room : size.toNat ≤ bufferSize) (enough : (size.toNat + 3) / 4 ≤ more.length) :
    ∃ bytes next, (chunkReadAndFillBuffer data spare bufferSize).run pos = (.ok (bytes,size.toNat),next) ∧
      bytes.length = size.toNat := by
  have length : data.length - pos = more.length + 1 := by
    rw [← List.length_drop,ahead]
    rfl
  have word : data[pos]? = some size := by
    rw [← List.head?_drop,ahead]
    rfl
  have rounded : roundedDwords size = (size.toNat + 3) / 4 := by
    rw [roundedDwords_eq,Nat.mod_eq_of_lt (by omega)]
  have first : (canRead data 1).run pos = (.ok true,pos) := by
    rw [canRead,Action.read_apply,decide_eq_true (by omega)]
  have next : (nextWord data).run pos = (.ok size,pos + 1) := by
    simp only [nextWord,word]
  have second : (canRead data (roundedDwords size)).run (pos + 1) = (.ok true,pos + 1) := by
    rw [canRead,Action.read_apply,rounded,decide_eq_true (by omega)]
  have bytes : size.toNat ≤ (encodeWords ((data ++ spare).drop (pos + 1))).length := by
    rw [length_encodeWords,List.length_drop,List.length_append]
    omega
  refine ⟨(encodeWords ((data ++ spare).drop (pos + 1))).take size.toNat,pos + 1 + roundedDwords size,?_,?_⟩
  · have some : size ≠ 0 := by
      rintro rfl
      exact Nat.lt_irrefl 0 positive
    rw [chunkReadAndFillBuffer,Action.bind_ok _ first,if_pos rfl,Action.bind_ok _ next,if_neg some,
      if_neg (Nat.not_lt.mpr room),Action.bind_ok _ second,if_pos rfl]
    have copied : (copyOut data spare size.toNat (roundedDwords size)).run (pos + 1) =
        (.ok ((encodeWords ((data ++ spare).drop (pos + 1))).take size.toNat),pos + 1 + roundedDwords size) := by
      simp only [copyOut,if_pos bytes]
    rw [Action.bind_ok _ copied]
    rfl
  · exact List.length_take_of_le bytes

theorem onPosition_ok {α : Type} {action : List UInt32 → List UInt32 → Run Nat α} {value : α} {next : Nat}
    (reading : c.parserState = some state) (ran : (action c.words c.spare).run state.currentPos = (.ok value,next)) :
    (onPosition action).run c = (.ok value,c.setPos next) := by
  simp only [onPosition,reading,ran]

theorem ckobject_flags {s : CkobjectState} (ok : ckobjectDeserialize.run c = (.ok s,c')) :
    s.visibilityFlags = 0 ∨ s.visibilityFlags = 1 ∨ s.visibilityFlags = 2 := by
  obtain ⟨hidden,_,_,ok⟩ := Action.bind_success ok
  split at ok
  · rw [Action.pure_apply,Prod.mk.injEq,Except.ok.injEq] at ok
    exact .inl (ok.1 ▸ rfl)
  · obtain ⟨hierarchy,_,_,ok⟩ := Action.bind_success ok
    rw [Action.pure_apply,Prod.mk.injEq,Except.ok.injEq] at ok
    rw [← ok.1]
    cases hierarchy with
    | true => exact .inr (.inr rfl)
    | false => exact .inr (.inl rfl)

/-- An object whose visibility comes back was read up to the end of its words. -/
theorem ckobject_read {s : CkobjectState} {sections : List UInt32} (fresh : c.parserState = some {})
    (words : c.words = visibilityWords s ++ sections) (ok : ckobjectDeserialize.run c = (.ok s,c')) :
    c'.words = c.words ∧ c'.spare = c.spare ∧ ∃ state, c'.parserState = some state ∧
      state.currentPos = (visibilityWords s).length := by
  rw [ckobjectDeserialize] at ok
  cases hidden : c.words.findIdx? (· = stateSaveObjectHidden) with
  | some place =>
    rw [Action.bind_ok _ (found_some fresh hidden),if_pos rfl,Action.pure_apply,Prod.mk.injEq,Except.ok.injEq] at ok
    obtain ⟨rfl,rfl⟩ := ok
    have first : c.words.findIdx? (· = stateSaveObjectHidden) = some 0 := by
      rw [words]
      rfl
    obtain rfl := Option.some.inj (hidden.symm.trans first)
    exact ⟨rfl,rfl,_,rfl,rfl⟩
  | none =>
    rw [Action.bind_ok _ (found_none hidden),if_neg Bool.false_ne_true] at ok
    cases hierarchy : c.words.findIdx? (· = stateSaveObjectHieraHidden) with
    | some place =>
      rw [Action.bind_ok _ (found_some fresh hierarchy),if_pos rfl,Action.pure_apply,Prod.mk.injEq,Except.ok.injEq] at ok
      obtain ⟨rfl,rfl⟩ := ok
      have first : c.words.findIdx? (· = stateSaveObjectHieraHidden) = some 0 := by
        rw [words]
        rfl
      obtain rfl := Option.some.inj (hierarchy.symm.trans first)
      exact ⟨rfl,rfl,_,rfl,rfl⟩
    | none =>
      rw [Action.bind_ok _ (found_none hierarchy),if_neg Bool.false_ne_true,Action.pure_apply,Prod.mk.injEq,
        Except.ok.injEq] at ok
      obtain ⟨rfl,rfl⟩ := ok
      exact ⟨rfl,rfl,_,fresh,rfl⟩

theorem sceneObject_base {s : CksceneobjectState} (ok : ckSceneObjectDeserialize.run c = (.ok s,c')) :
    ∃ c₁, ckobjectDeserialize.run c = (.ok s.base,c₁) ∧ (do
      let pos ← Action.read chunkGetPosition
      let total ← Action.read chunkGetSize
      (if pos < total then do
        let tail ← onPosition fun data spare => chunkReadAndFillBuffer data spare (total - pos)
        pure { base := s.base, rawTail := tail.1 }
      else pure { base := s.base }) : Run Chunk CksceneobjectState).run c₁ = (.ok s,c') := by
  obtain ⟨base,c₁,based,ok⟩ := Action.bind_success ok
  have same : s.base = base := by
    refine (?_ : Action.Yields (fun s : CksceneobjectState => s.base = base) _) _ _ _ ok
    refine Action.yields_after fun pos => Action.yields_after fun total => ?_
    split
    · exact Action.yields_after fun _ => Action.yields_pure rfl
    · exact Action.yields_pure rfl
  rw [← same] at based ok
  exact ⟨c₁,based,ok⟩

/-- A scene object that comes back without a tail was read from its visibility alone. -/
theorem sceneObject_read {s : CksceneobjectState} {bound : Nat} {sections : List UInt32} (tailless : s.rawTail = [])
    (fresh : c.parserState = some {}) (words : c.words = visibilityWords s.base ++ sections)
    (framed : Framed bound sections) (few : bound + 1 < 2 ^ 30) (ok : ckSceneObjectDeserialize.run c = (.ok s,c')) :
    sections = [] := by
  obtain ⟨c₁,based,ok⟩ := sceneObject_base ok
  rw [Action.bind_ok _ (Action.read_apply _ _),Action.bind_ok _ (Action.read_apply _ _)] at ok
  cases sections with
  | nil => rfl
  | cons identifier more =>
    obtain ⟨positive,small,enough⟩ := framed.starts _ _ rfl
    have length := framed.length
    rw [List.length_cons] at length
    obtain ⟨kept,_,state,reading,pos⟩ := ckobject_read fresh words based
    rw [words] at kept
    have position : chunkGetPosition c₁ = (visibilityWords s.base).length := by
      rw [chunkGetPosition,reading,Option.getD_some,pos]
    have size : chunkGetSize c₁ = 4 * ((visibilityWords s.base).length + 1 + more.length) := by
      have short := visibilityWords_short s.base
      rw [chunkGetSize,Chunk.dataSize,kept,List.length_append,List.length_cons]
      omega
    have ahead : c₁.words.drop state.currentPos = identifier :: more := by
      rw [kept,pos,List.drop_left]
    obtain ⟨bytes,next,ran,taken⟩ := fill_run c₁.spare ahead positive small
      (show identifier.toNat ≤ chunkGetSize c₁ - chunkGetPosition c₁ by omega) enough
    rw [if_pos (by omega),Action.bind_ok _ (onPosition_ok reading ran),Action.pure_apply,Prod.mk.injEq,
      Except.ok.injEq] at ok
    rw [← ok.1] at tailless
    have empty : bytes = [] := tailless
    rw [empty,List.length_nil] at taken
    omega

/-- A reader that finds the end of the data behind the position fills nothing. -/
theorem fill_end {data spare : List UInt32} {bufferSize : Nat} :
    (chunkReadAndFillBuffer data spare bufferSize).run data.length = (.ok ([],0),data.length) := by
  have full : (canRead data 1).run data.length = (.ok false,data.length) := by
    rw [canRead,Action.read_apply,decide_eq_false (Nat.not_succ_le_self _)]
  rw [chunkReadAndFillBuffer,Action.bind_ok _ full]
  rfl

end Reading

section Plain
variable {c : Chunk} {flags : UInt32}

/-- An object that has its visibility and nothing else. -/
def plainObject (flags : UInt32) : CkbeobjectState := { base := { base := { visibilityFlags := flags } } }

theorem plain_ckobject (known : flags = 0 ∨ flags = 1 ∨ flags = 2) (fresh : c.parserState = some {})
    (words : c.words = visibilityWords ⟨flags⟩) : ∃ c', ckobjectDeserialize.run c = (.ok ⟨flags⟩,c') := by
  rw [ckobjectDeserialize]
  rcases known with rfl | rfl | rfl
  · have hidden : c.words.findIdx? (· = stateSaveObjectHidden) = some 0 := by
      rw [words]
      rfl
    rw [Action.bind_ok _ (found_some fresh hidden)]
    exact ⟨_,rfl⟩
  · have shown : c.words.findIdx? (· = stateSaveObjectHidden) = none := by
      rw [words]
      rfl
    have alone : c.words.findIdx? (· = stateSaveObjectHieraHidden) = none := by
      rw [words]
      rfl
    rw [Action.bind_ok _ (found_none shown),if_neg Bool.false_ne_true,Action.bind_ok _ (found_none alone)]
    exact ⟨_,rfl⟩
  · have shown : c.words.findIdx? (· = stateSaveObjectHidden) = none := by
      rw [words]
      rfl
    have hierarchy : c.words.findIdx? (· = stateSaveObjectHieraHidden) = some 0 := by
      rw [words]
      rfl
    rw [Action.bind_ok _ (found_none shown),if_neg Bool.false_ne_true,Action.bind_ok _ (found_some fresh hierarchy)]
    exact ⟨_,rfl⟩

theorem plain_sceneObject (known : flags = 0 ∨ flags = 1 ∨ flags = 2) (fresh : c.parserState = some {})
    (words : c.words = visibilityWords ⟨flags⟩) : ∃ c' state, ckSceneObjectDeserialize.run c =
      (.ok { base := ⟨flags⟩ },c') ∧ c'.words = visibilityWords ⟨flags⟩ ∧ c'.parserState = some state := by
  obtain ⟨c₁,based⟩ := plain_ckobject known fresh words
  obtain ⟨kept,_,state,reading,pos⟩ := ckobject_read fresh (words.trans (List.append_nil _).symm) based
  rw [words] at kept
  rw [ckSceneObjectDeserialize,Action.bind_ok _ based,Action.bind_ok _ (Action.read_apply _ _),
    Action.bind_ok _ (Action.read_apply _ _)]
  split
  · have ended : (chunkReadAndFillBuffer c₁.words c₁.spare (chunkGetSize c₁ - chunkGetPosition c₁)).run state.currentPos =
        (.ok ([],0),c₁.words.length) := by
      rw [pos,← kept]
      exact fill_end
    rw [Action.bind_ok _ (onPosition_ok reading ended)]
    exact ⟨_,{ state with currentPos := c₁.words.length },rfl,kept,by simp only [Chunk.setPos,reading]; rfl⟩
  · exact ⟨c₁,state,rfl,kept,reading⟩

theorem plain_absent (known : flags = 0 ∨ flags = 1 ∨ flags = 2) {identifier : UInt32}
    (other : identifier ≠ 1 ∧ identifier ≠ 2) (words : c.words = visibilityWords ⟨flags⟩) :
    (found identifier).run c = (.ok false,c) := by
  apply found_none
  rw [words,List.findIdx?_eq_none_iff]
  intro word member
  rw [decide_eq_false_iff_not]
  rcases known with rfl | rfl | rfl
  · rw [List.mem_singleton.mp member]
    exact fun same => other.1 same.symm
  · exact absurd member List.not_mem_nil
  · rw [List.mem_singleton.mp member]
    exact fun same => other.2 same.symm

theorem plain_beObject (known : flags = 0 ∨ flags = 1 ∨ flags = 2) (fresh : c.parserState = some {})
    (words : c.words = visibilityWords ⟨flags⟩) : ∃ c' state, ckBeObjectDeserialize.run c = (.ok (plainObject flags),c') ∧
      c'.words = visibilityWords ⟨flags⟩ ∧ c'.parserState = some state := by
  obtain ⟨c₁,state,based,kept,reading⟩ := plain_sceneObject known fresh words
  have scripts : loadScripts.run c₁ = (.ok [],c₁) := by
    rw [loadScripts,Action.bind_ok _ (plain_absent known (by decide) kept)]
    rfl
  have priority : loadPriority.run c₁ = (.ok 0,c₁) := by
    rw [loadPriority,Action.bind_ok _ (plain_absent known (by decide) kept)]
    rfl
  have attributes : loadAttributes.run c₁ = (.ok (0,[],[]),c₁) := by
    rw [loadAttributes,Action.bind_ok _ (plain_absent known (by decide) kept)]
    rfl
  refine ⟨c₁,state,?_,kept,reading⟩
  rw [ckBeObjectDeserialize,Action.bind_ok _ based,Action.bind_ok _ scripts,Action.bind_ok _ priority,
    Action.bind_ok _ attributes]
  rfl

theorem plain_written (around : Surroundings) (flags : UInt32) :
    ∃ c, (ckBeObjectSerialize around (plainObject flags)).run chunkCreate = (.ok (),c) ∧
      c.words = visibilityWords ⟨flags⟩ := by
  obtain ⟨c₁,based,_,words⟩ := sceneObject_written around (s := (plainObject flags).base) rfl
  refine ⟨c₁,?_,words⟩
  rw [ckBeObjectSerialize,Action.bind_ok _ based]
  rfl

end Plain

section ReadBack
variable {S : Type} {serialize : Run Chunk Unit} {deserialize : Run Chunk S} {s : S}

theorem readBack_of {c c' : Chunk} (wrote : serialize.run chunkCreate = (.ok (),c))
    (ran : deserialize.run { c with parserState := some {} } = (.ok s,c')) : readBack serialize deserialize = .ok s := by
  have started : chunkStartRead.run c = (.ok (),{ c with parserState := some {} }) := rfl
  rw [readBack,Action.bind_ok _ wrote,Action.bind_ok _ started,ran]

theorem readBack_success (back : readBack serialize deserialize = .ok s) :
    ∃ c c₁ c', serialize.run chunkCreate = (.ok (),c) ∧ c₁.parserState = some {} ∧ c₁.words = c.words ∧
      deserialize.run c₁ = (.ok s,c') := by
  obtain ⟨_,c,wrote,rest⟩ := Action.bind_success (Prod.ext back rfl)
  obtain ⟨_,c₁,started,ran⟩ := Action.bind_success rest
  have same : c₁ = { c with parserState := some {} } := (Prod.mk.inj started).2.symm
  exact ⟨c,c₁,_,wrote,by rw [same],by rw [same]; rfl,ran⟩

end ReadBack

/-- The state comes back, and without a tail. -/
def BeObjectKept (around : Surroundings) (s : CkbeobjectState) : Prop :=
  readBack (ckBeObjectSerialize around s) ckBeObjectDeserialize = .ok s ∧ s.base.rawTail = []

def GroupKept (around : Surroundings) (g : CkgroupState) : Prop :=
  readBack (ckGroupSerialize around g) ckGroupDeserialize = .ok g ∧ g.base.base.rawTail = []

/-- Nothing but one of the visibilities that a reader gives. -/
def Plain (s : CkbeobjectState) : Prop := ∃ flags, (flags = 0 ∨ flags = 1 ∨ flags = 2) ∧ s = plainObject flags

/-- A group without members that is not hidden. -/
def PlainGroup (g : CkgroupState) : Prop := ∃ flags, (flags = 1 ∨ flags = 2) ∧ g = { base := plainObject flags }

section Kept
variable {around : Surroundings}

theorem beObject_base {c c' : Chunk} {s : CkbeobjectState} (ok : ckBeObjectDeserialize.run c = (.ok s,c')) :
    ∃ c₁, ckSceneObjectDeserialize.run c = (.ok s.base,c₁) := by
  obtain ⟨base,c₁,based,ok⟩ := Action.bind_success ok
  have same : s.base = base := by
    refine (?_ : Action.Yields (fun s : CkbeobjectState => s.base = base) _) _ _ _ ok
    exact Action.yields_after fun _ => Action.yields_after fun _ => Action.yields_after fun _ => Action.yields_pure rfl
  rw [same]
  exact ⟨c₁,based⟩

theorem group_base {c c' : Chunk} {g : CkgroupState} (ok : ckGroupDeserialize.run c = (.ok g,c')) :
    ∃ c₁, ckBeObjectDeserialize.run c = (.ok g.base,c₁) := by
  obtain ⟨base,c₁,based,ok⟩ := Action.bind_success ok
  have same : g.base = base := by
    refine (?_ : Action.Yields (fun g : CkgroupState => g.base = base) _) _ _ _ ok
    refine Action.yields_after fun present => ?_
    split
    · refine Action.yields_after fun count => ?_
      split
      · split
        · exact Action.yields_stop _
        · exact Action.yields_after fun _ => Action.yields_pure rfl
      · exact Action.yields_pure rfl
    · exact Action.yields_pure rfl
  rw [same]
  exact ⟨c₁,based⟩

/-- Sections behind the visibility leave a tail, and without any the object is a plain one. -/
theorem plain_of_read {c c' : Chunk} {bound : Nat} {s : CkbeobjectState} {sections : List UInt32}
    (tailless : s.base.rawTail = []) (fresh : c.parserState = some {})
    (words : c.words = visibilityWords s.base.base ++ sections) (framed : Framed bound sections)
    (few : bound + 1 < 2 ^ 30) (ok : ckBeObjectDeserialize.run c = (.ok s,c')) :
    ∃ flags, (flags = 0 ∨ flags = 1 ∨ flags = 2) ∧ s = plainObject flags ∧ sections = [] := by
  obtain ⟨c₁,scene⟩ := beObject_base ok
  obtain ⟨c₂,object,_⟩ := sceneObject_base scene
  have known := ckobject_flags object
  have nothing := sceneObject_read tailless fresh words framed few scene
  rw [nothing,List.append_nil] at words
  obtain ⟨_,_,plain,_⟩ := plain_beObject known fresh words
  have same := (Prod.mk.inj (ok.symm.trans plain)).1
  exact ⟨s.base.base.visibilityFlags,known,Except.ok.inj same,nothing⟩

theorem beObjectKept_plain {flags : UInt32} (known : flags = 0 ∨ flags = 1 ∨ flags = 2) :
    BeObjectKept around (plainObject flags) := by
  obtain ⟨c,wrote,words⟩ := plain_written around flags
  obtain ⟨c',_,ran,_⟩ := plain_beObject (c := { c with parserState := some {} }) known rfl words
  exact ⟨readBack_of wrote ran,rfl⟩

theorem plain_of_beObjectKept {s : CkbeobjectState} (kept : BeObjectKept around s) (few : beObjectBound s + 1 < 2 ^ 30) :
    Plain s := by
  obtain ⟨back,tailless⟩ := kept
  obtain ⟨c,c₁,_,wrote,fresh,same,ran⟩ := readBack_success back
  obtain ⟨sections,_,words,framed⟩ := beObject_success tailless wrote
  obtain ⟨flags,known,plain,_⟩ := plain_of_read tailless fresh (same.trans words) framed few ran
  exact ⟨flags,known,plain⟩

/-- A hidden group has the identifier of its members without any behind it. -/
theorem plainGroup_read {c : Chunk} {flags : UInt32} (known : flags = 0 ∨ flags = 1 ∨ flags = 2)
    (fresh : c.parserState = some {}) (words : c.words = visibilityWords ⟨flags⟩) :
    (flags ≠ 0 → ∃ c', ckGroupDeserialize.run c = (.ok { base := plainObject flags },c')) ∧
      (flags = 0 → ∃ stop c', ckGroupDeserialize.run c = (.error stop,c')) := by
  obtain ⟨c₁,state,based,kept,reading⟩ := plain_beObject known fresh words
  rw [ckGroupDeserialize,Action.bind_ok _ based]
  constructor
  · intro shown
    have absent : (found stateSaveGroupAll).run c₁ = (.ok false,c₁) := by
      apply found_none
      rw [kept]
      rcases known with rfl | rfl | rfl
      · exact absurd rfl shown
      · rfl
      · rfl
    rw [Action.bind_ok _ absent]
    exact ⟨_,rfl⟩
  · rintro rfl
    have first : c₁.words.findIdx? (· = stateSaveGroupAll) = some 0 := by
      rw [kept]
      rfl
    have ended : (chunkReadInt c₁.words).run 1 = (.error (.error .eof "Cannot read beyond data"),1) := by
      rw [kept]
      rfl
    have stopped : readInt.run { c₁ with parserState := some ⟨1,0⟩ } =
        (.error (.error .eof "Cannot read beyond data"),{ c₁ with parserState := some ⟨1,0⟩ }) := by
      rw [readInt,onPosition]
      dsimp only
      exact congrArg (fun ran : Result Int32 × Nat => (ran.1,{ c₁ with parserState := some ⟨ran.2,0⟩ })) ended
    rw [Action.bind_ok _ (found_some reading first),if_pos rfl,Action.bind_error _ stopped]
    exact ⟨_,_,rfl⟩

theorem groupKept_plain {flags : UInt32} (known : flags = 1 ∨ flags = 2) :
    GroupKept around { base := plainObject flags } := by
  obtain ⟨c,wrote,words⟩ := plain_written around flags
  have shown : flags ≠ 0 := by
    rintro rfl
    rcases known with none | none
    · cases none
    · cases none
  obtain ⟨c',ran⟩ := (plainGroup_read (c := { c with parserState := some {} }) (.inr known) rfl words).1 shown
  have whole : (ckGroupSerialize around { base := plainObject flags }).run chunkCreate = (.ok (),c) := by
    rw [ckGroupSerialize,Action.bind_ok _ wrote]
    rfl
  exact ⟨readBack_of whole ran,rfl⟩

theorem plain_of_groupKept {g : CkgroupState} (kept : GroupKept around g)
    (few : beObjectBound g.base + g.objectIds.length + 3 < 2 ^ 30) : PlainGroup g := by
  obtain ⟨back,tailless⟩ := kept
  obtain ⟨c,c₁,_,wrote,fresh,same,ran⟩ := readBack_success back
  obtain ⟨sections,_,words,framed,memberless⟩ := group_success tailless wrote
  rw [← same] at words
  obtain ⟨_,based⟩ := group_base ran
  obtain ⟨flags,known,plain,nothing⟩ := plain_of_read tailless fresh words framed (by omega) based
  have whole : g = { base := plainObject flags } := by
    cases g with
    | mk base objectIds => rw [← plain,← memberless nothing]
  rw [nothing,List.append_nil,plain] at words
  obtain ⟨_,hidden⟩ := plainGroup_read known fresh words
  refine ⟨flags,?_,whole⟩
  rcases known with zero | shown
  · obtain ⟨stop,_,failed⟩ := hidden zero
    rw [ran] at failed
    cases (Prod.mk.inj failed).1
  · exact shown

/-- Only objects and groups that have nothing but their visibility come back, and a hidden group does not.
From 2^30 words on the size of the data in bytes wraps in 32 bits. -/
theorem statesKept (around : Surroundings) :
    (∀ s, (Plain s → BeObjectKept around s) ∧ (BeObjectKept around s → Plain s ∨ 2 ^ 30 ≤ beObjectBound s + 1)) ∧
    ∀ g, (PlainGroup g → GroupKept around g) ∧
      (GroupKept around g → PlainGroup g ∨ 2 ^ 30 ≤ beObjectBound g.base + g.objectIds.length + 3) := by
  refine ⟨fun s => ⟨?_,?_⟩,fun g => ⟨?_,?_⟩⟩
  · rintro ⟨flags,known,rfl⟩
    exact beObjectKept_plain known
  · intro kept
    by_cases few : beObjectBound s + 1 < 2 ^ 30
    · exact .inl (plain_of_beObjectKept kept few)
    · exact .inr (Nat.le_of_not_lt few)
  · rintro ⟨flags,known,rfl⟩
    exact groupKept_plain known
  · intro kept
    by_cases few : beObjectBound g.base + g.objectIds.length + 3 < 2 ^ 30
    · exact .inl (plain_of_groupKept kept few)
    · exact .inr (Nat.le_of_not_lt few)

/-- The identifier of the scripts is taken for the size of a tail of three bytes. -/
theorem script_misread : ¬ BeObjectKept {} { plainObject 1 with scriptIds := [5] } ∧
    ¬ GroupKept {} { base := plainObject 1, objectIds := [7,8] } := by
  constructor
  · intro kept
    exact absurd kept.1 (by decide +kernel)
  · intro kept
    exact absurd kept.1 (by decide +kernel)

end Kept

end Libnmo.Schema
