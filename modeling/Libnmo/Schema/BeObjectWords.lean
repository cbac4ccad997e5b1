import Libnmo.Schema.SectionReads

/-! What the words of a be-object say. Each part of the state is a function of the words:
a section is what stands behind the first word that equals its identifier, and a list in
it ends with the words at the latest. The reader of be-objects gives these parts. -/
namespace Libnmo.Schema
open Core Format Lib Lib.LittleEndian Lib.Cursor

section Parts

/-- The visibility, and what stands behind its mark. -/
def visibilityIn (words : List UInt32) : CkobjectState × List UInt32 :=
  match behind stateSaveObjectHidden words,behind stateSaveObjectHieraHidden words with
  | some rest,_ => (⟨0⟩,rest)
  | none,some rest => (⟨ckobjectHierarchical⟩,rest)
  | none,none => (⟨ckobjectVisible⟩,words)

/-- The room is what the position in dwords leaves of the size in bytes. -/
def tailIn (words rest : List UInt32) : List UInt8 :=
  bytesIn (words.length * 4 % 2 ^ 32 - (words.length - rest.length)) rest

def scriptsIn (words : List UInt32) : List UInt32 :=
  match behind stateSaveScripts words with
  | some (count :: ids) => if count = 0 ∨ count > maxScripts then [] else ids.take count.toNat
  | _ => []

def priorityIn (words : List UInt32) : Int32 :=
  match behind stateSaveDatas words with
  | some (flag :: rest) => if flag &&& datasVersionFlag = 0 then 0 else (rest.head?.map UInt32.toInt32).getD 0
  | _ => 0

/-- The count is that of the types where they are there, and else that of the parameters before the end. -/
def attributesBehind (count : Nat) (rest : List UInt32) : UInt32 × List UInt32 × List UInt32 :=
  let ids := rest.take count
  let partialCount := if ids.length = count then 0 else UInt32.ofNat ids.length
  match rest.drop count with
  | number :: d1 :: d2 :: types =>
    if number.toNat = count ∧ (⟨d1,d2⟩ : Guid) = attributeManagerGuid then
      (UInt32.ofNat (types.take count).length,ids,types.take count)
    else (partialCount,ids,[])
  | _ => (partialCount,ids,[])

/-- A negative count asks for more memory than there is. -/
def attributesIn (words : List UInt32) : UInt32 × List UInt32 × List UInt32 :=
  match behind stateSaveNewAttributes words with
  | some (count :: rest) =>
    if count.toNat = 0 ∨ 2 ^ 31 ≤ count.toNat then (0,[],[]) else attributesBehind count.toNat rest
  | _ => (0,[],[])

def beObjectIn (words : List UInt32) : CkbeobjectState :=
  let (base,rest) := visibilityIn words
  let attributes := attributesIn words
  { base := { base := base, rawTail := tailIn words rest }
    scriptIds := scriptsIn words, priority := priorityIn words, attributeCount := attributes.1
    attributeParameterIds := attributes.2.1, attributeTypes := attributes.2.2 }

end Parts

section Runs
variable {words rest : List UInt32} {c : Chunk}

theorem ckobject_run (standing : Standing words words c) :
    ∃ c', ckobjectDeserialize.run c = (.ok (visibilityIn words).1,c') ∧ Standing words (visibilityIn words).2 c' := by
  rw [ckobjectDeserialize,visibilityIn]
  cases hidden : behind stateSaveObjectHidden words with
  | some rest =>
    obtain ⟨c₁,ran,standing₁⟩ := found_standing standing.opened hidden
    rw [Action.bind_ok _ ran]
    exact ⟨c₁,rfl,standing₁⟩
  | none =>
    rw [Action.bind_ok _ (found_nowhere standing.opened hidden),if_neg Bool.false_ne_true]
    cases hierarchy : behind stateSaveObjectHieraHidden words with
    | some rest =>
      obtain ⟨c₁,ran,standing₁⟩ := found_standing standing.opened hierarchy
      rw [Action.bind_ok _ ran]
      exact ⟨c₁,rfl,standing₁⟩
    | none =>
      rw [Action.bind_ok _ (found_nowhere standing.opened hierarchy)]
      exact ⟨c,rfl,standing⟩

theorem sceneObject_run (standing : Standing words words c) :
    ∃ c', ckSceneObjectDeserialize.run c = (.ok (beObjectIn words).base,c') ∧ Opened words c' := by
  obtain ⟨c₁,based,standing₁⟩ := ckobject_run standing
  obtain ⟨state,reading,ahead⟩ := standing₁.ahead
  have length := ahead.length_eq
  have position : chunkGetPosition c₁ = words.length - (visibilityIn words).2.length := by
    rw [chunkGetPosition,reading,Option.getD_some]
    omega
  have size : chunkGetSize c₁ = words.length * 4 % 2 ^ 32 := by
    rw [chunkGetSize,Chunk.dataSize,standing₁.same]
  rw [ckSceneObjectDeserialize,Action.bind_ok _ based,Action.bind_ok _ (Action.read_apply _ _),
    Action.bind_ok _ (Action.read_apply _ _),position,size]
  by_cases more : words.length - (visibilityIn words).2.length < words.length * 4 % 2 ^ 32
  · obtain ⟨taken,next,ran⟩ := fill_reads c₁.words c₁.spare state.currentPos
      (show words.length * 4 % 2 ^ 32 - (words.length - (visibilityIn words).2.length) ≤ 2 ^ 32 - 4 by omega)
    rw [if_pos more,Action.bind_ok _ (onPosition_ok reading ran),standing₁.same,ahead.2]
    exact ⟨_,rfl,setPos_opened standing₁.opened next⟩
  · have none : tailIn words (visibilityIn words).2 = [] := by
      rw [tailIn,Nat.sub_eq_zero_of_le (Nat.le_of_not_lt more)]
      cases (visibilityIn words).2 with
      | nil => rfl
      | cons word rest =>
        rw [bytesIn]
        split
        · rename_i fits
          rw [Nat.le_zero.mp fits.1,List.take_zero]
        · rfl
    rw [if_neg more]
    refine ⟨c₁,?_,standing₁.opened⟩
    rw [Action.pure_apply,beObjectIn,← none]

theorem scripts_run (opened : Opened words c) :
    ∃ c', loadScripts.run c = (.ok (scriptsIn words),c') ∧ Opened words c' := by
  rw [loadScripts,scriptsIn]
  cases first : behind stateSaveScripts words with
  | none =>
    rw [Action.bind_ok _ (found_nowhere opened first)]
    exact ⟨c,rfl,opened⟩
  | some rest =>
    obtain ⟨c₁,ran,standing⟩ := found_standing opened first
    obtain ⟨c₂,counted,standing₂⟩ := attempt_run readsWord_dword standing
    rw [Action.bind_ok _ ran,if_pos rfl,Action.bind_ok _ counted]
    cases rest with
    | nil => exact ⟨c₂,rfl,standing₂.opened⟩
    | cons count ids =>
      simp only [List.head?_cons,Option.map_some,id_eq]
      split
      · exact ⟨c₂,rfl,standing₂.opened⟩
      · obtain ⟨c₃,more,standing₃⟩ := readWhile_run readsWord_objectId count.toNat standing₂
        rw [List.map_id] at more
        exact ⟨c₃,more,standing₃.opened⟩

theorem priority_run (opened : Opened words c) :
    ∃ c', loadPriority.run c = (.ok (priorityIn words),c') ∧ Opened words c' := by
  rw [loadPriority,priorityIn]
  cases first : behind stateSaveDatas words with
  | none =>
    rw [Action.bind_ok _ (found_nowhere opened first)]
    exact ⟨c,rfl,opened⟩
  | some rest =>
    obtain ⟨c₁,ran,standing⟩ := found_standing opened first
    obtain ⟨c₂,flagged,standing₂⟩ := attempt_run readsWord_dword standing
    rw [Action.bind_ok _ ran,if_pos rfl,Action.bind_ok _ flagged]
    cases rest with
    | nil => exact ⟨c₂,rfl,standing₂.opened⟩
    | cons flag rest =>
      simp only [List.head?_cons,Option.map_some,id_eq]
      split
      · exact ⟨c₂,rfl,standing₂.opened⟩
      · obtain ⟨c₃,more,standing₃⟩ := attempt_run readsWord_int standing₂
        rw [List.tail_cons] at more
        rw [Action.bind_ok _ more]
        exact ⟨c₃,rfl,standing₃.opened⟩

theorem attributeTypes_run (count : Nat) (rest : List UInt32) (standing : Standing words (rest.drop count) c) :
    ∃ c', (loadAttributeTypes count (rest.take count)).run c = (.ok (attributesBehind count rest),c') ∧
      Opened words c' := by
  obtain ⟨state,reading,ahead⟩ := standing.ahead
  rw [← standing.same] at ahead
  rw [loadAttributeTypes,attributesBehind]
  obtain ⟨number,d1,d2,types,after,next,ran,moved⟩ | ⟨few,code,message,next,failed⟩ := managerSequence_run ahead
  · have header : (onPosition fun data _ => chunkStartManagerReadSequence data).run c =
        (.ok (⟨d1,d2⟩,number.toNat),c.setPos next) := onPosition_ok reading ran
    rw [standing.same] at moved
    have standing₁ : Standing words types (c.setPos next) := setPos_standing standing.opened moved
    rw [Action.bind_ok _ (attempt_ok header),after]
    dsimp only
    split
    · obtain ⟨c₁,more,standing₂⟩ := readWhile_run readsWord_dword count standing₁
      rw [List.map_id] at more
      rw [Action.bind_ok _ more]
      exact ⟨c₁,rfl,standing₂.opened⟩
    · exact ⟨_,rfl,standing₁.opened⟩
  · have header : (onPosition fun data _ => chunkStartManagerReadSequence data).run c =
        (.error (.error code message),c.setPos next) := by
      simp only [onPosition,reading,failed]
    rw [Action.bind_ok _ (attempt_failed header)]
    rcases after : rest.drop count with _ | ⟨number,_ | ⟨d1,_ | ⟨d2,types⟩⟩⟩
    · exact ⟨_,rfl,setPos_opened standing.opened next⟩
    · exact ⟨_,rfl,setPos_opened standing.opened next⟩
    · exact ⟨_,rfl,setPos_opened standing.opened next⟩
    · rw [after] at few
      exact absurd few (by simp only [List.length_cons]; omega)

theorem attributes_run (fits : ¬ AttributesWrap words) (opened : Opened words c) :
    ∃ c', loadAttributes.run c = (.ok (attributesIn words),c') ∧ Opened words c' := by
  rw [loadAttributes,attributesIn]
  cases first : behind stateSaveNewAttributes words with
  | none =>
    rw [Action.bind_ok _ (found_nowhere opened first)]
    exact ⟨c,rfl,opened⟩
  | some rest =>
    obtain ⟨c₁,scanned,standing⟩ := found_standing opened first
    rw [Action.bind_ok _ scanned,if_pos rfl]
    cases rest with
    | nil =>
      have failed : (onPosition fun data _ => chunkReadObjectSequenceStart data).run c₁ =
          (.error (.error .eof "Cannot read beyond data"),c₁) :=
        onPosition_short (fun _ _ _ past => Action.bind_error _ (chunkReadInt_short past)) standing.ended
      rw [Action.bind_ok _ (attempt_failed failed)]
      exact ⟨c₁,rfl,standing.opened⟩
    | cons count rest =>
      obtain ⟨c₂,counted,moved⟩ := onPosition_reads (fun _ _ => reads_extended count) standing
      have size := extended_eq count
      have bound := count.toNat_lt
      rw [Action.bind_ok _ (attempt_ok counted)]
      dsimp only
      by_cases positive : count.toNat < 2 ^ 31
      · rw [if_pos positive] at size
        rw [size]
        by_cases empty : count.toNat = 0
        · rw [if_pos empty,if_pos (.inl empty)]
          exact ⟨c₂,rfl,moved.opened⟩
        · have granted : (onPosition fun _ _ => allocArray count.toNat 4 "").run c₂ = (.ok (),c₂) := by
            obtain ⟨state,reading,_⟩ := moved.ahead
            have ran : (allocArray count.toNat 4 "").run state.currentPos = (.ok (),state.currentPos) := by
              rw [allocArray,if_pos (by omega)]
              rfl
            rw [onPosition_ok reading ran,setPos_same reading]
          obtain ⟨c₃,more,standing₃⟩ := readWhile_run readsWord_objectId count.toNat moved
          rw [List.map_id] at more
          obtain ⟨c₄,typed,opened₄⟩ := attributeTypes_run count.toNat rest standing₃
          rw [if_neg empty,if_neg (by omega),Action.bind_ok _ (attempt_ok granted)]
          dsimp only
          rw [Action.bind_ok _ more]
          exact ⟨c₄,typed,opened₄⟩
      · rw [if_neg positive] at size
        have large : ¬ 2 ^ 32 - 6 ≤ count.toNat := fun wraps => fits ⟨count,rest,first,wraps⟩
        have refused : (onPosition fun _ _ => allocArray (extended count) 4 "").run c₂ = (.error (.error .nomem ""),c₂) := by
          obtain ⟨state,reading,_⟩ := moved.ahead
          have ran : (allocArray (extended count) 4 "").run state.currentPos = (.error (.error .nomem ""),state.currentPos) := by
            rw [allocArray,if_neg (by omega),if_pos (by omega)]
            rfl
          simp only [onPosition,reading,ran,setPos_same reading]
        rw [if_neg (by omega),if_pos (.inr (Nat.le_of_not_lt positive)),Action.bind_ok _ (attempt_failed refused)]
        exact ⟨c₂,rfl,moved.opened⟩

/-- The reader of be-objects gives what the words say. -/
theorem beObject_run (fits : ¬ AttributesWrap words) (standing : Standing words words c) :
    ∃ c', ckBeObjectDeserialize.run c = (.ok (beObjectIn words),c') ∧ Opened words c' := by
  obtain ⟨c₁,based,opened₁⟩ := sceneObject_run standing
  obtain ⟨c₂,scripted,opened₂⟩ := scripts_run opened₁
  obtain ⟨c₃,prioritised,opened₃⟩ := priority_run opened₂
  obtain ⟨c₄,attributed,opened₄⟩ := attributes_run fits opened₃
  rw [ckBeObjectDeserialize,Action.bind_ok _ based,Action.bind_ok _ scripted,Action.bind_ok _ prioritised,
    Action.bind_ok _ attributed]
  exact ⟨c₄,rfl,opened₄⟩

end Runs

end Libnmo.Schema
