import Libnmo.Format.ParserRuns
import Libnmo.Schema.ParameterStates
import Libnmo.Schema.SectionReads

/-! Parameters, their inputs, outputs and locals, and operations read back. Each of the
five has a condition of its own: a parameter keeps the value of its mode alone, the words
of an input can be taken for a mark, and the owner of an operation is never written. -/
namespace Libnmo.Schema
open Core Format Lib Lib.LittleEndian Lib.Cursor

section Reads
variable {words rest : List UInt32} {c : Chunk}

theorem guid_run {d1 d2 : UInt32} (standing : Standing words (d1 :: d2 :: rest) c) :
    ∃ c', readGuid.run c = (.ok ⟨d1,d2⟩,c') ∧ Standing words rest c' :=
  onPosition_reads (fun _ _ => reads_chunkReadGuid ⟨d1,d2⟩) (show Standing words ([d1,d2] ++ rest) c from standing)

theorem readOr_ok {α : Type} {missing value : α} {read : Run Chunk α} {c' : Chunk} (ran : read.run c = (.ok value,c')) :
    (readOr missing read).run c = (.ok value,c') := by
  rw [readOr,Action.bind_ok _ (attempt_ok ran)]
  rfl

theorem standing_start (same : c.words = words) (fresh : c.parserState = some {}) : Standing words words c :=
  ⟨same,_,fresh,ahead_start words⟩

theorem leading_found {identifier : UInt32} {body : List UInt32} (same : c.words = identifier :: body)
    (fresh : c.parserState = some {}) :
    ∃ c', (found identifier).run c = (.ok true,c') ∧ Standing (identifier :: body) body c' :=
  found_standing (standing_start same fresh).opened (if_pos rfl)

theorem keeps_onPosition {α : Type} (action : List UInt32 → List UInt32 → Run Nat α) :
    Action.Keeps (Opened words) (onPosition action) := by
  intro c opened
  obtain ⟨state,reading⟩ := opened.reading
  simp only [onPosition,reading]
  exact setPos_opened opened _

theorem keeps_readOr {α : Type} (missing : α) (action : List UInt32 → List UInt32 → Run Nat α) :
    Action.Keeps (Opened words) (readOr missing (onPosition action)) := by
  refine Action.keeps_bind (fun c opened => ?_) fun _ => Action.keeps_pure _
  have kept := keeps_onPosition action c opened
  unfold attempt
  dsimp only
  split
  · rename_i ran
    rwa [ran] at kept
  · rename_i ran
    rwa [ran] at kept
  · rename_i ran
    rwa [ran] at kept

end Reads

section Values
variable {around : Surroundings} {words rest : List UInt32} {c c' : Chunk} {bytes : List UInt8}

def BytesWords (bytes : List UInt8) (words : List UInt32) : Prop :=
  if bytes.length > 0 then ∃ packed, words = UInt32.ofNat bytes.length :: packed ∧ Packs packed bytes else words = []

theorem as_saveBytes (bytes : List UInt8) :
    WritesAs (1 + (bytes.length + 3) / 4) (BytesWords bytes) (saveBytes around bytes) := by
  unfold saveBytes BytesWords
  split
  · exact as_buffer bytes
  · exact as_pure.mono (Nat.zero_le _)

/-- Bytes at the end of the data come back although the rounding of their size may wrap. -/
theorem buffer_last {data packed : List UInt32} {pos : Nat} (spare : List UInt32) (something : bytes ≠ [])
    (few : bytes.length < 2 ^ 32)
    (packs : Packs packed bytes) (ahead : Ahead data pos (UInt32.ofNat bytes.length :: packed)) :
    ∃ size next, (chunkReadBuffer data spare).run pos = (.ok (some bytes,size),next) := by
  have positive := List.length_pos_of_ne_nil something
  have length : (UInt32.ofNat bytes.length).toNat = bytes.length := by
    rw [UInt32.toNat_ofNat',Nat.mod_eq_of_lt few]
  have size := ahead.length_eq
  rw [List.length_cons,packs.1] at size
  have first : (requireWords data 1 "Cannot read beyond data").run pos = (.ok (),pos) := by
    rw [requireWords,canRead,Action.bind_ok _ (Action.read_apply _ pos),if_pos (decide_eq_true (by omega))]
    rfl
  have word : (nextWord data).run pos = (.ok (UInt32.ofNat bytes.length),pos + 1) := by
    simp only [nextWord,ahead.getElem?]
  have nonzero : UInt32.ofNat bytes.length ≠ 0 := by
    intro zero
    rw [zero] at length
    exact absurd length.symm positive.ne'
  have rounded : roundedDwords (UInt32.ofNat bytes.length) ≤ (bytes.length + 3) / 4 := by
    rw [roundedDwords_eq,length]
    exact Nat.div_le_div_right (Nat.mod_le _ _)
  have second : (requireWords data (roundedDwords (UInt32.ofNat bytes.length)) "Cannot read beyond data").run (pos + 1) =
      (.ok (),pos + 1) := by
    rw [requireWords,canRead,Action.bind_ok _ (Action.read_apply _ _),if_pos (decide_eq_true (by omega))]
    rfl
  have behindSize : (data ++ spare).drop (pos + 1) = packed ++ spare := by
    rw [List.drop_append_of_le_length (by omega),ahead.next.2]
  have copied : (copyOut data spare (UInt32.ofNat bytes.length).toNat (roundedDwords (UInt32.ofNat bytes.length))).run
      (pos + 1) = (.ok bytes,pos + 1 + roundedDwords (UInt32.ofNat bytes.length)) := by
    have enough : bytes.length ≤ (encodeWords (packed ++ spare)).length := by
      rw [length_encodeWords,List.length_append,packs.1]
      omega
    have front : (encodeWords (packed ++ spare)).take bytes.length = bytes := by
      rw [encodeWords_append,List.take_append_of_le_length (by rw [length_encodeWords,packs.1]; omega),packs.2]
    simp only [copyOut,length,behindSize,if_pos enough,front]
  rw [chunkReadBuffer,Action.bind_ok _ first,Action.bind_ok _ word,if_neg nonzero,Action.bind_ok _ second,
    Action.bind_ok _ copied]
  exact ⟨_,_,rfl⟩

theorem loadBytes_run (standing : Standing words rest c) (stored : BytesWords bytes rest) (few : bytes.length < 2 ^ 32) :
    ∃ c', loadBytes.run c = (.ok bytes,c') := by
  unfold BytesWords at stored
  split at stored
  · rename_i positive
    obtain ⟨packed,rfl,packs⟩ := stored
    obtain ⟨state,reading,ahead⟩ := standing.ahead
    rw [← standing.same] at ahead
    obtain ⟨size,next,ran⟩ := buffer_last c.spare (List.ne_nil_of_length_pos positive) few packs ahead
    rw [loadBytes,Action.bind_ok _ (readOr_ok (onPosition_ok reading ran))]
    exact ⟨_,rfl⟩
  · rename_i empty
    obtain rfl := List.length_eq_zero_iff.mp (Nat.eq_zero_of_not_pos empty)
    subst stored
    have failed : (onPosition chunkReadBuffer).run c = (.error (.error .eof "Cannot read beyond data"),c) :=
      onPosition_short (fun _ _ _ past => Action.bind_error _ (requireWords_short _ (Nat.lt_succ_of_le past))) standing.ended
    have missing : (readOr (none,0) (onPosition chunkReadBuffer)).run c = (.ok (none,0),c) := by
      rw [readOr,Action.bind_ok _ (attempt_failed failed)]
      rfl
    rw [loadBytes,Action.bind_ok _ missing]
    exact ⟨c,rfl⟩

theorem loadBytes_short : Action.Yields (fun bytes => bytes.length < 2 ^ 32) loadBytes := by
  intro c bytes c' ok
  obtain ⟨found,_,read,ok⟩ := Action.bind_success ok
  obtain rfl := Except.ok.inj (Prod.mk.inj ok).1
  obtain ⟨buffer,_,tried,again⟩ := Action.bind_success read
  obtain rfl := Except.ok.inj (Prod.mk.inj again).1
  cases buffer with
  | none => exact show 0 < 2 ^ 32 by decide
  | some buffer =>
    have ran := attempt_some tried
    have short (data spare : List UInt32) : Action.Yields (fun found => (found.1.getD []).length < 2 ^ 32)
        (chunkReadBuffer data spare) := by
      refine Action.yields_after fun _ => Action.yields_after fun size => ?_
      split
      · exact Action.yields_pure (show 0 < 2 ^ 32 by decide)
      · have copies : Action.Yields (fun bytes => bytes.length < 2 ^ 32)
            (copyOut data spare size.toNat (roundedDwords size)) := by
          intro pos bytes next copied
          rw [(copyOut_success copied).1]
          exact size.toNat_lt
        exact Action.yields_after fun _ => Action.yields_bind copies fun bytes few => Action.yields_pure few
    unfold onPosition at ran
    dsimp only at ran
    split at ran
    · exact short _ _ _ _ _ (Prod.ext (Prod.mk.inj ran).1 rfl)
    · exact short _ _ _ _ _ (Prod.ext (Prod.mk.inj ran).1 rfl)

end Values

section Parameter
variable {around : Surroundings} {s : CkparameterState}

/-- The state with the value of its mode alone. -/
def onlyMode (s : CkparameterState) : CkparameterState :=
  let typeGuid := s.typeGuid
  let mode := s.mode
  if mode = paramModeNone then { typeGuid, mode }
  else if mode = paramModeSubchunk then { typeGuid, mode, subchunkData := s.subchunkData }
  else if mode = paramModeObject then { typeGuid, mode, objectId := s.objectId }
  else if mode = paramModeManager then { typeGuid, mode, managerGuid := s.managerGuid, managerValue := s.managerValue }
  else { typeGuid, mode, bufferData := s.bufferData }

/-- There is nothing but the value of the mode, whose size has its place in 32 bits. -/
structure ParameterPlain (s : CkparameterState) : Prop where
  alone : s = onlyMode s
  buffer : s.bufferData.length < 2 ^ 32
  subchunk : s.subchunkData.length < 2 ^ 32

def ParameterKept (around : Surroundings) (s : CkparameterState) : Prop :=
  startedBack around (ckParameterSerialize around s) (ckParameterDeserialize around) = .ok s

def ValueWords (s : CkparameterState) (words : List UInt32) : Prop :=
  if s.mode = paramModeNone then words = []
  else if s.mode = paramModeSubchunk then BytesWords s.subchunkData words
  else if s.mode = paramModeObject then words = [s.objectId]
  else if s.mode = paramModeManager then words = [s.managerGuid.d1,s.managerGuid.d2,s.managerValue]
  else BytesWords s.bufferData words

theorem as_saveValue (s : CkparameterState) :
    WritesAs (4 + (s.bufferData.length + 3) / 4 + (s.subchunkData.length + 3) / 4) (ValueWords s) (saveValue around s) := by
  unfold saveValue ValueWords
  split
  · exact as_pure.mono (Nat.zero_le _)
  · split
    · exact (as_saveBytes _).mono (by omega)
    · split
      · exact (as_objectId _).mono (by omega)
      · split
        · exact (as_managerInt _ _).mono (by omega)
        · exact (as_saveBytes _).mono (by omega)

theorem as_parameter (s : CkparameterState) :
    WritesAs (8 + (s.bufferData.length + 3) / 4 + (s.subchunkData.length + 3) / 4)
      (fun words => ∃ value, words = paramIdentifier :: s.typeGuid.d1 :: s.typeGuid.d2 :: s.mode :: value ∧ ValueWords s value)
      (ckParameterSerialize around s) := by
  refine ((as_after (as_identifier _) (as_after (as_writeWords [_,_]) (as_after (as_writeWords [_])
    (as_saveValue s)))).mono ?_).imp ?_
  · simp only [List.length_cons,List.length_nil]
    omega
  · rintro _ ⟨_,rfl,_,rfl,value,rfl,fits⟩
    exact ⟨value,rfl,fits⟩

theorem loadValue_run {words value : List UInt32} {c : Chunk} (plain : ParameterPlain s) (stored : ValueWords s value)
    (standing : Standing words value c) : ∃ c', (loadValue around s.typeGuid s.mode).run c = (.ok s,c') := by
  have alone := plain.alone
  unfold ValueWords at stored
  unfold onlyMode at alone
  rw [loadValue]
  by_cases none : s.mode = paramModeNone
  · rw [if_pos none] at alone ⊢
    exact ⟨c,by rw [Action.pure_apply,← alone]⟩
  · rw [if_neg none] at alone stored ⊢
    by_cases subchunk : s.mode = paramModeSubchunk
    · rw [if_pos subchunk] at alone stored ⊢
      obtain ⟨c',ran⟩ := loadBytes_run standing stored plain.subchunk
      rw [Action.bind_ok _ ran]
      exact ⟨c',by rw [Action.pure_apply,← alone]⟩
    · rw [if_neg subchunk] at alone stored ⊢
      by_cases object : s.mode = paramModeObject
      · rw [if_pos object] at alone stored ⊢
        subst stored
        obtain ⟨c',ran,_⟩ := readsWord_objectId.full _ _ _ _ standing
        rw [Action.bind_ok _ ran]
        exact ⟨c',by rw [Action.pure_apply,id_eq,← alone]⟩
      · rw [if_neg object] at alone stored ⊢
        by_cases manager : s.mode = paramModeManager
        · rw [if_pos manager] at alone stored ⊢
          subst stored
          obtain ⟨c',ran,_⟩ := onPosition_reads (fun _ _ => reads_chunkReadManagerInt s.managerGuid s.managerValue)
            (show Standing words ([s.managerGuid.d1,s.managerGuid.d2,s.managerValue] ++ []) c from standing)
          rw [loadManagerInt,Action.bind_ok _ (Action.bind_ok _ (attempt_ok ran))]
          exact ⟨c',by dsimp only; rw [Action.pure_apply,← alone]⟩
        · rw [if_neg manager] at alone stored ⊢
          obtain ⟨c',ran⟩ := loadBytes_run standing stored plain.buffer
          rw [Action.bind_ok _ ran]
          exact ⟨c',by rw [Action.pure_apply,← alone]⟩

theorem parameterKept_plain (plain : ParameterPlain s) : ParameterKept around s := by
  have buffer := plain.buffer
  have subchunk := plain.subchunk
  refine startedBack_of (as_parameter s) (by omega) ?_
  rintro c ⟨value,words,stored⟩ fresh
  obtain ⟨c₁,scanned,standing⟩ := leading_found words fresh
  obtain ⟨c₂,typed,standing⟩ := guid_run standing
  obtain ⟨c₃,moded,standing⟩ := readsWord_dword.full _ _ _ _ standing
  obtain ⟨c₄,ran⟩ := @loadValue_run around _ _ _ _ plain stored standing
  rw [ckParameterDeserialize,Action.bind_ok _ scanned,if_pos rfl,Action.bind_ok _ typed,Action.bind_ok _ moded,id_eq,ran]

theorem loadValue_plain (typeGuid : Guid) (mode : UInt32) : Action.Yields ParameterPlain (loadValue around typeGuid mode) := by
  have nothing : ([] : List UInt8).length < 2 ^ 32 := by decide
  unfold loadValue
  split
  · rename_i none
    exact Action.yields_pure ⟨by rw [onlyMode,if_pos none],nothing,nothing⟩
  · rename_i none
    split
    · rename_i subchunk
      exact Action.yields_bind loadBytes_short fun bytes few =>
        Action.yields_pure ⟨by rw [onlyMode,if_neg none,if_pos subchunk],nothing,few⟩
    · rename_i subchunk
      split
      · rename_i object
        exact Action.yields_after fun _ =>
          Action.yields_pure ⟨by rw [onlyMode,if_neg none,if_neg subchunk,if_pos object],nothing,nothing⟩
      · rename_i object
        split
        · rename_i manager
          exact Action.yields_after fun _ =>
            Action.yields_pure ⟨by rw [onlyMode,if_neg none,if_neg subchunk,if_neg object,if_pos manager],nothing,nothing⟩
        · rename_i manager
          exact Action.yields_bind loadBytes_short fun bytes few => Action.yields_pure
            ⟨by rw [onlyMode,if_neg none,if_neg subchunk,if_neg object,if_neg manager],few,nothing⟩

theorem plain_of_parameterKept (kept : ParameterKept around s) : ParameterPlain s := by
  obtain ⟨c,_,_,back⟩ := startedBack_success (as_parameter s) kept
  have yields : Action.Yields ParameterPlain (ckParameterDeserialize around) := by
    refine Action.yields_after fun present => ?_
    split
    · exact Action.yields_after fun _ => Action.yields_after fun _ => loadValue_plain _ _
    · exact Action.yields_pure ⟨rfl,by decide,by decide⟩
  exact yields c s _ (Prod.ext back rfl)

end Parameter

section ParameterIn
variable {around : Surroundings} {s : CkparameterinState}

def sourceWords (s : CkparameterinState) : List UInt32 := [s.typeGuid.d1,s.typeGuid.d2,s.sourceId]

/-- The flags are those that a reader gives, and no word of the source is the mark of a flag that is not set. -/
structure SourcePlain (s : CkparameterinState) : Prop where
  shared : s.isShared = 1 ∨ s.isShared = 0 ∧ parameterInDataShared ∉ sourceWords s
  disabled : s.isDisabled = 1 ∨ s.isDisabled = 0 ∧ parameterInDisabled ∉ sourceWords s

def ParameterInKept (around : Surroundings) (s : CkparameterinState) : Prop :=
  startedBack around (ckParameterInSerialize around s) ckParameterInDeserialize = .ok s

def parameterInWords (s : CkparameterinState) : List UInt32 :=
  (if s.isShared ≠ 0 then parameterInDataShared else parameterInDataSource) :: sourceWords s ++
    (if s.isDisabled ≠ 0 then [parameterInDisabled] else [])

theorem as_parameterIn (s : CkparameterinState) : WritesAs 5 (· = parameterInWords s) (ckParameterInSerialize around s) := by
  have flag : WritesAs 1 (· = if s.isDisabled ≠ 0 then [parameterInDisabled] else [])
      (if s.isDisabled ≠ 0 then chunkWriteIdentifier around parameterInDisabled else pure ()) := by
    split
    · exact as_identifier _
    · exact as_pure.mono (Nat.zero_le 1)
  exact as_then (as_identifier _) (as_then (as_writeWords [_,_]) (as_then (as_objectId _) flag))

theorem loadSource_shared (isShared : UInt8) :
    Action.Yields (fun t => t.isShared = isShared) (loadSource isShared) :=
  Action.yields_after fun _ => Action.yields_after fun _ => Action.yields_pure rfl

theorem keeps_loadSource {words : List UInt32} (isShared : UInt8) : Action.Keeps (Opened words) (loadSource isShared) :=
  Action.keeps_bind (keeps_readOr _ _) fun _ => Action.keeps_bind (keeps_readOr _ _) fun _ => Action.keeps_pure _

theorem input_shared {words : List UInt32} {c c' : Chunk} (opened : Opened words c) (ok : loadInput.run c = (.ok s,c')) :
    s.isShared = (if parameterInDataShared ∈ words then 1 else 0) ∧ Opened words c' := by
  obtain ⟨c₁,scanned,opened₁⟩ := found_run opened parameterInDataShared
  rw [loadInput,Action.bind_ok _ scanned] at ok
  by_cases shared : parameterInDataShared ∈ words
  · rw [decide_eq_true shared,if_pos rfl] at ok
    have kept := keeps_loadSource 1 c₁ opened₁
    rw [ok] at kept
    exact ⟨by rw [loadSource_shared _ _ _ _ ok,if_pos shared],kept⟩
  · obtain ⟨c₃,again,opened₃⟩ := found_run opened₁ parameterInDataSource
    rw [decide_eq_false shared,if_neg Bool.false_ne_true,Action.bind_ok _ again] at ok
    split at ok
    · have kept := keeps_loadSource 0 c₃ opened₃
      rw [ok] at kept
      exact ⟨by rw [loadSource_shared _ _ _ _ ok,if_neg shared],kept⟩
    · obtain ⟨same,rfl⟩ := Prod.mk.inj ok
      exact ⟨by rw [← Except.ok.inj same,if_neg shared],opened₃⟩

/-- The flags say whether their marks are among the words. -/
theorem parameterIn_flags {words : List UInt32} {c c' : Chunk} (opened : Opened words c)
    (ok : ckParameterInDeserialize.run c = (.ok s,c')) : s.isShared = (if parameterInDataShared ∈ words then 1 else 0) ∧
      s.isDisabled = if parameterInDisabled ∈ words then 1 else 0 := by
  obtain ⟨t,c₂,sourced,ok⟩ := Action.bind_success ok
  obtain ⟨shared,opened₂⟩ := input_shared opened sourced
  obtain ⟨c₄,last,_⟩ := found_run opened₂ parameterInDisabled
  rw [Action.bind_ok _ last] at ok
  rw [← Except.ok.inj (Prod.mk.inj ok).1]
  refine ⟨shared,?_⟩
  by_cases disabled : parameterInDisabled ∈ words
  · rw [decide_eq_true disabled,if_pos disabled]
    rfl
  · rw [decide_eq_false disabled,if_neg disabled]
    rfl

theorem loadSource_run {words rest : List UInt32} {c : Chunk} (isShared : UInt8)
    (standing : Standing words (sourceWords s ++ rest) c) :
    ∃ c', (loadSource isShared).run c = (.ok { s with isShared, isDisabled := 0 },c') ∧ Standing words rest c' := by
  obtain ⟨c₁,typed,standing⟩ := guid_run standing
  obtain ⟨c₂,sourced,standing⟩ := readsWord_objectId.full _ _ _ _ standing
  rw [loadSource,Action.bind_ok _ (readOr_ok typed),Action.bind_ok _ (readOr_ok sourced)]
  exact ⟨c₂,rfl,standing⟩

/-- The first scan ends at the first word of a shared source, and nowhere else. -/
theorem input_run (plain : SourcePlain s) {c : Chunk} (same : c.words = parameterInWords s)
    (fresh : c.parserState = some {}) :
    ∃ c', loadInput.run c = (.ok { s with isDisabled := 0 },c') ∧ Opened (parameterInWords s) c' := by
  have opened := (standing_start same fresh).opened
  let flag := if s.isDisabled ≠ 0 then [parameterInDisabled] else []
  rcases plain.shared with one | ⟨zero,missing⟩
  · have shape : parameterInWords s = parameterInDataShared :: (sourceWords s ++ flag) := by
      rw [parameterInWords,one]
      rfl
    rw [shape] at same ⊢
    obtain ⟨c₁,scanned,standing⟩ := leading_found same fresh
    obtain ⟨c₂,ran,standing⟩ := loadSource_run 1 standing
    rw [loadInput,Action.bind_ok _ scanned,if_pos rfl,ran,one]
    exact ⟨c₂,rfl,standing.opened⟩
  · have shape : parameterInWords s = parameterInDataSource :: (sourceWords s ++ flag) := by
      rw [parameterInWords,zero]
      rfl
    have absent : behind parameterInDataShared (parameterInWords s) = none := by
      rw [behind_none,shape,List.mem_cons,List.mem_append]
      rintro (same | inside | last)
      · exact absurd same (by decide)
      · exact missing inside
      · simp only [flag] at last
        split at last
        · exact absurd (List.mem_singleton.mp last) (by decide)
        · exact absurd last List.not_mem_nil
    rw [loadInput,Action.bind_ok _ (found_nowhere opened absent),if_neg Bool.false_ne_true]
    rw [shape] at same ⊢
    obtain ⟨c₁,scanned,standing⟩ := leading_found same fresh
    obtain ⟨c₂,ran,standing⟩ := loadSource_run 0 standing
    rw [Action.bind_ok _ scanned,if_pos rfl,ran,zero]
    exact ⟨c₂,rfl,standing.opened⟩

theorem mark_mem : parameterInDisabled ≠ if s.isShared ≠ 0 then parameterInDataShared else parameterInDataSource := by
  split
  · decide
  · decide

theorem parameterInKept_plain (plain : SourcePlain s) : ParameterInKept around s := by
  refine startedBack_of (as_parameterIn s) (by decide) ?_
  intro c same fresh
  obtain ⟨c₁,sourced,opened₁⟩ := input_run plain same fresh
  obtain ⟨c₂,last,_⟩ := found_run opened₁ parameterInDisabled
  rw [ckParameterInDeserialize,Action.bind_ok _ sourced,Action.bind_ok _ last]
  rcases plain.disabled with one | ⟨zero,missing⟩
  · have there : parameterInDisabled ∈ parameterInWords s := by
      rw [parameterInWords,one]
      exact List.mem_append_right _ (List.mem_singleton.mpr rfl)
    rw [decide_eq_true there,Action.pure_apply,if_pos rfl,← one]
  · have absent : parameterInDisabled ∉ parameterInWords s := by
      rw [parameterInWords,zero,if_neg (not_not.mpr rfl),List.append_nil,List.mem_cons]
      rintro (same | inside)
      · exact mark_mem same
      · exact missing inside
    rw [decide_eq_false absent,Action.pure_apply,if_neg Bool.false_ne_true,← zero]

theorem plain_of_parameterInKept (kept : ParameterInKept around s) : SourcePlain s := by
  obtain ⟨c,same,fresh,back⟩ := startedBack_success (as_parameterIn s) kept
  obtain ⟨shared,disabled⟩ := parameterIn_flags (standing_start same fresh).opened (Prod.ext back rfl)
  have inside (word : UInt32) (member : word ∈ sourceWords s) : word ∈ parameterInWords s :=
    List.mem_append_left _ (List.mem_cons_of_mem _ member)
  refine ⟨?_,?_⟩
  · split at shared
    · exact .inl shared
    · rename_i missing
      exact .inr ⟨shared,fun member => missing (inside _ member)⟩
  · split at disabled
    · exact .inl disabled
    · rename_i missing
      exact .inr ⟨disabled,fun member => missing (inside _ member)⟩

end ParameterIn

section ParameterOut
variable {around : Surroundings} {s : CkparameteroutState}

def ParameterOutKept (around : Surroundings) (s : CkparameteroutState) : Prop :=
  startedBack around (ckParameterOutSerialize around s) ckParameterOutDeserialize = .ok s

def parameterOutWords (s : CkparameteroutState) : List UInt32 :=
  if s.destinationCount > 0 ∧ s.destinationIds ≠ [] then
    parameterOutDestinations :: s.destinationCount :: s.destinationIds
  else []

theorem as_parameterOut (whole : s.destinationIds.length = s.destinationCount.toNat) :
    WritesAs (2 + s.destinationCount.toNat) (· = parameterOutWords s) (ckParameterOutSerialize around s) := by
  unfold ckParameterOutSerialize parameterOutWords
  split
  · have entries := as_first (@as_objectId around) whole
    rw [List.map_id'] at entries
    refine (as_then (as_identifier _) (as_then (as_writeWords [_]) entries)).mono ?_
    simp only [List.length_singleton]
    omega
  · exact as_pure.mono (Nat.zero_le _)

theorem parameterOutKept_small (whole : s.destinationIds.length = s.destinationCount.toNat)
    (small : s.destinationCount.toNat < 2 ^ 31) : ParameterOutKept around s := by
  refine startedBack_of (as_parameterOut whole) (by omega) ?_
  intro c same fresh
  by_cases something : s.destinationCount > 0 ∧ s.destinationIds ≠ []
  · rw [parameterOutWords,if_pos something] at same
    obtain ⟨c₁,scanned,standing⟩ := leading_found same fresh
    obtain ⟨c₂,counted,standing⟩ := readsWord_int.full _ _ _ _ standing
    obtain ⟨c₃,ran,_⟩ := readWhile_run readsWord_objectId s.destinationCount.toNat standing
    have positive : s.destinationCount.toInt32 > 0 := by
      have nonzero := UInt32.lt_iff_toNat_lt.mp something.1
      rw [gt_iff_lt,Int32.lt_iff_toInt_lt,← UInt32.ofNat_toNat (x := s.destinationCount),toInt_ofNat small]
      exact Int.ofNat_lt.mpr nonzero
    rw [ckParameterOutDeserialize,Action.bind_ok _ scanned,if_pos rfl,Action.bind_ok _ (attempt_ok counted)]
    dsimp only
    rw [if_pos positive]
    have run : (readWhile readObjectId s.destinationCount.toInt32.toUInt32.toNat).run c₂ = (.ok s.destinationIds,c₃) := by
      rw [List.map_id,List.take_of_length_le (Nat.le_of_eq whole)] at ran
      exact ran
    rw [Action.bind_ok _ run]
    rfl
  · have empty : s = {} := by
      obtain ⟨ids,count⟩ := s
      have none : ids = [] := by
        by_contra some
        refine something ⟨UInt32.lt_iff_toNat_lt.mpr ?_,some⟩
        rw [← whole]
        exact List.length_pos_of_ne_nil some
      subst none
      have zero : count = 0 := UInt32.toNat_inj.mp whole.symm
      rw [zero]
    rw [parameterOutWords,if_neg something] at same
    have nowhere : c.words.findIdx? (· = parameterOutDestinations) = none := by
      rw [same]
      rfl
    rw [ckParameterOutDeserialize,Action.bind_ok _ (found_none nowhere),empty]
    rfl

theorem small_of_parameterOutKept (whole : s.destinationIds.length = s.destinationCount.toNat)
    (kept : ParameterOutKept around s) : s.destinationCount.toNat < 2 ^ 31 := by
  obtain ⟨c,_,_,back⟩ := startedBack_success (as_parameterOut whole) kept
  have yields : Action.Yields (fun t : CkparameteroutState => t.destinationCount.toNat < 2 ^ 31) ckParameterOutDeserialize := by
    refine Action.yields_after fun present => ?_
    split
    · refine Action.yields_after fun count => ?_
      cases count with
      | none => exact Action.yields_pure (by decide)
      | some count =>
        dsimp only
        split
        · rename_i positive
          refine Action.yields_after fun ids => Action.yields_pure ?_
          have same := Int32.toNat_toUInt32_of_le (Int32.le_of_lt positive)
          have small := Int32.toNatClampNeg_lt count
          dsimp only
          omega
        · exact Action.yields_pure (by decide)
    · exact Action.yields_pure (by decide)
  exact yields c s _ (Prod.ext back rfl)

end ParameterOut

section ParameterLocal
variable {around : Surroundings} {s : CkparameterlocalState}

def ParameterLocalKept (around : Surroundings) (s : CkparameterlocalState) : Prop :=
  startedBack around (ckParameterLocalSerialize around s) ckParameterLocalDeserialize = .ok s

def parameterLocalWords (s : CkparameterlocalState) : List UInt32 :=
  (if s.isMyself ≠ 0 then [parameterOutMyself] else []) ++ (if s.isSetting ≠ 0 then [parameterOutIsSetting] else [])

/-- The flags are those that a reader gives. -/
structure LocalPlain (s : CkparameterlocalState) : Prop where
  myself : s.isMyself = 0 ∨ s.isMyself = 1
  setting : s.isSetting = 0 ∨ s.isSetting = 1

theorem as_mark (flag : UInt8) (identifier : UInt32) : WritesAs 1 (· = if flag ≠ 0 then [identifier] else [])
    (if flag ≠ 0 then chunkWriteIdentifier around identifier else pure ()) := by
  split
  · exact as_identifier _
  · exact as_pure.mono (Nat.zero_le 1)

theorem as_parameterLocal (s : CkparameterlocalState) :
    WritesAs 2 (· = parameterLocalWords s) (ckParameterLocalSerialize around s) :=
  as_then (as_mark _ _) (as_mark _ _)

theorem parameterLocal_run {c : Chunk} (same : c.words = parameterLocalWords s) (fresh : c.parserState = some {}) :
    (ckParameterLocalDeserialize.run c).1 =
      .ok { isMyself := if s.isMyself ≠ 0 then 1 else 0, isSetting := if s.isSetting ≠ 0 then 1 else 0 } := by
  obtain ⟨c₁,first,opened⟩ := found_run (standing_start same fresh).opened parameterOutMyself
  obtain ⟨c₂,second,_⟩ := found_run opened parameterOutIsSetting
  rw [ckParameterLocalDeserialize,Action.bind_ok _ first,Action.bind_ok _ second]
  unfold parameterLocalWords
  by_cases myself : s.isMyself ≠ 0
  · rw [if_pos myself,if_pos myself]
    by_cases setting : s.isSetting ≠ 0
    · rw [if_pos setting,if_pos setting]
      rfl
    · rw [if_neg setting,if_neg setting]
      rfl
  · rw [if_neg myself,if_neg myself]
    by_cases setting : s.isSetting ≠ 0
    · rw [if_pos setting,if_pos setting]
      rfl
    · rw [if_neg setting,if_neg setting]
      rfl

theorem parameterLocalKept_iff : ParameterLocalKept around s ↔ LocalPlain s := by
  have read : startedBack around (ckParameterLocalSerialize around s) ckParameterLocalDeserialize =
      .ok { isMyself := if s.isMyself ≠ 0 then 1 else 0, isSetting := if s.isSetting ≠ 0 then 1 else 0 } :=
    startedBack_of (as_parameterLocal s) (by decide) fun c same fresh => parameterLocal_run same fresh
  have flag (value : UInt8) : (if value ≠ 0 then 1 else 0) = value ↔ value = 0 ∨ value = 1 := by
    by_cases zero : value = 0
    · rw [zero]
      decide
    · rw [if_pos zero,or_iff_right zero]
      exact eq_comm
  rw [ParameterLocalKept,read]
  obtain ⟨myself,setting⟩ := s
  rw [Except.ok.injEq,CkparameterlocalState.mk.injEq,flag,flag]
  exact ⟨fun both => ⟨both.1,both.2⟩,fun plain => ⟨plain.myself,plain.setting⟩⟩

end ParameterLocal

section ParameterOperation
variable {around : Surroundings} {s : CkparameteroperationState}

def ParameterOperationKept (around : Surroundings) (s : CkparameteroperationState) : Prop :=
  startedBack around (ckParameterOperationSerialize around s) ckParameterOperationDeserialize = .ok s

def operationWords (s : CkparameteroperationState) : List UInt32 :=
  [operationNewData,s.operationGuid.d1,s.operationGuid.d2,3,s.input1Id,s.input2Id,s.outputId]

theorem as_parameterOperation (s : CkparameteroperationState) :
    WritesAs 7 (· = operationWords s) (ckParameterOperationSerialize around s) :=
  as_then (as_identifier _) (as_then (as_writeWords [_,_]) (as_then (as_writeWords [_]) (as_then (as_objectId _)
    (as_then (as_objectId _) (as_objectId _)))))

/-- The owner is not among what comes back. -/
theorem parameterOperation_run {c : Chunk} (same : c.words = operationWords s) (fresh : c.parserState = some {}) :
    (ckParameterOperationDeserialize.run c).1 = .ok { s with ownerId := 0 } := by
  obtain ⟨c₁,scanned,standing⟩ := leading_found same fresh
  obtain ⟨c₂,guided,standing⟩ := guid_run standing
  obtain ⟨c₃,counted,standing⟩ := onPosition_reads (fun _ _ => reads_extended 3)
    (show Standing _ ([3] ++ [s.input1Id,s.input2Id,s.outputId]) _ from standing)
  obtain ⟨c₄,first,standing⟩ := readsWord_objectId.full _ _ _ _ standing
  obtain ⟨c₅,second,standing⟩ := readsWord_objectId.full _ _ _ _ standing
  obtain ⟨c₆,third,_⟩ := readsWord_objectId.full _ _ _ _ standing
  rw [ckParameterOperationDeserialize,Action.bind_ok _ scanned,if_pos rfl,loadOperation,Action.bind_ok _ (readOr_ok guided),
    Action.bind_ok _ (readOr_ok counted),if_pos (by decide),Action.bind_ok _ (readOr_ok first),
    Action.bind_ok _ (readOr_ok second),Action.bind_ok _ (readOr_ok third)]
  rfl

theorem parameterOperationKept_iff : ParameterOperationKept around s ↔ s.ownerId = 0 := by
  have read : startedBack around (ckParameterOperationSerialize around s) ckParameterOperationDeserialize =
      .ok { s with ownerId := 0 } :=
    startedBack_of (as_parameterOperation s) (by decide) fun c same fresh => parameterOperation_run same fresh
  rw [ParameterOperationKept,read]
  obtain ⟨guid,input1,input2,output,owner⟩ := s
  rw [Except.ok.injEq,CkparameteroperationState.mk.injEq]
  exact ⟨fun all => all.2.2.2.2.symm,fun none => ⟨rfl,rfl,rfl,rfl,none.symm⟩⟩

end ParameterOperation

/-- What each of the five classes needs for its states to come back. -/
theorem parametersKept_iff (around : Surroundings) :
    (∀ s, ParameterKept around s ↔ ParameterPlain s) ∧ (∀ s, ParameterInKept around s ↔ SourcePlain s) ∧
    (∀ s : CkparameteroutState, s.destinationIds.length = s.destinationCount.toNat →
      (ParameterOutKept around s ↔ s.destinationCount.toNat < 2 ^ 31)) ∧
    (∀ s, ParameterLocalKept around s ↔ LocalPlain s) ∧ ∀ s, ParameterOperationKept around s ↔ s.ownerId = 0 :=
  ⟨fun _ => ⟨plain_of_parameterKept,parameterKept_plain⟩,fun _ => ⟨plain_of_parameterInKept,parameterInKept_plain⟩,
    fun _ whole => ⟨small_of_parameterOutKept whole,parameterOutKept_small whole⟩,fun _ => parameterLocalKept_iff,
    fun _ => parameterOperationKept_iff⟩

/-- An output with two destinations, and an empty buffer of a parameter. -/
theorem destinations_kept : ParameterOutKept {} { destinationIds := [4,9], destinationCount := 2 } ∧
    ParameterKept {} { typeGuid := ⟨1,2⟩, mode := paramModeBuffer } :=
  ⟨((parametersKept_iff {}).2.2.1 { destinationIds := [4,9], destinationCount := 2 } rfl).mpr (by decide),
    ((parametersKept_iff {}).1 _).mpr ⟨rfl,by decide,by decide⟩⟩

/-- An operation loses its owner, and an input whose source has the number one comes back as a shared one. -/
theorem owner_lost : ¬ ParameterOperationKept {} { ownerId := 7 } ∧ ¬ ParameterInKept {} { sourceId := 1 } := by
  constructor
  · rw [ParameterOperationKept]
    decide +kernel
  · rw [ParameterInKept]
    decide +kernel

end Libnmo.Schema
