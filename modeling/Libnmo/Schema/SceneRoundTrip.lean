import Libnmo.Schema.BehaviorRoundTrip
import Libnmo.Schema.SceneState
import Libnmo.Schema.SectionReads

/-! A scene comes back exactly where it has no objects and the scan for each identifier
ends at its own section. With an object the writer fails at the reserved chunk, which
is null. What the be-object below makes of the words does not matter, unless the count
of its attributes leads to an array that is too small for the first of them. -/
namespace Libnmo.Schema
open Core Format Lib Lib.LittleEndian Lib.Cursor

section Base
variable {around : Surroundings}

/-- The counts of the arrays are 32 bits wide, and the tail has its place in memory. -/
structure WellFormed (s : CkbeobjectState) : Prop where
  scripts : s.scriptIds.length < 2 ^ 32
  parameters : s.attributeParameterIds.length = s.attributeCount.toNat
  types : s.attributeTypes.length = s.attributeCount.toNat
  tail : s.base.rawTail.length < 2 ^ 61

theorem writes_first {α : Type} {write : α → Run Chunk Unit} {word : α → UInt32} {values : List α} {count : Nat}
    (each : ∀ a, Writes [word a] (write a)) (whole : values.length = count) :
    Writes (values.map word) (writeFirst write values count) := by
  have all : Writes (values.map word ++ []) (writeFirst write values count) := by
    rw [writeFirst,List.take_of_length_le (Nat.le_of_eq whole)]
    apply writes_bind (writes_each each values)
    rw [if_neg (Nat.not_lt.mpr (Nat.le_of_eq whole.symm))]
    exact writes_pure
  rwa [List.append_nil] at all

theorem upTo_scripts (scriptIds : List UInt32) : WritesUpTo (2 + scriptIds.length) (saveScripts around scriptIds) := by
  rw [saveScripts]
  split
  · refine (writes_bind (writes_identifier _) (writes_bind (writes_writeWords _) (writes_each writes_objectId _))).upTo.mono ?_
    rw [List.length_append,List.length_append,List.length_map]
    exact Nat.le_of_eq (Nat.add_assoc 1 1 _).symm
  · exact writes_pure.upTo.mono (Nat.zero_le _)

theorem upTo_priority (priority : Int32) : WritesUpTo 3 (savePriority around priority) := by
  rw [savePriority]
  split
  · exact (writes_bind (writes_identifier _) (writes_bind (writes_writeWords [_]) (writes_writeWords [_]))).upTo
  · exact writes_pure.upTo.mono (Nat.zero_le _)

theorem upTo_attributes {s : CkbeobjectState} (wellFormed : WellFormed s) :
    WritesUpTo (5 + 2 * s.attributeCount.toNat) (saveAttributes around s) := by
  rw [saveAttributes]
  split
  · refine (writes_bind (writes_identifier _) (writes_bind (writes_writeWords [_])
      (writes_bind (writes_first writes_objectId wellFormed.parameters) (writes_bind (writes_managerSequence _ _)
      (writes_first (fun word => writes_writeWords [word]) wellFormed.types))))).upTo.mono ?_
    simp only [List.length_append,List.length_map,List.length_cons,List.length_nil,wellFormed.parameters,wellFormed.types]
    omega
  · exact writes_pure.upTo.mono (Nat.zero_le _)

theorem upTo_tail (tail : List UInt8) : WritesUpTo (1 + (tail.length + 3) / 4)
    (if tail.length > 0 then chunkWriteBuffer around (some tail) tail.length else pure ()) := by
  split
  · exact upTo_buffer _
  · exact writes_pure.upTo.mono (Nat.zero_le _)

theorem sceneObject_wrote (around : Surroundings) {s : CksceneobjectState} (few : s.rawTail.length < 2 ^ 61) :
    ∃ c, (ckSceneObjectSerialize around s).run chunkCreate = (.ok (),c) ∧ Roomy c ∧ c.dataSize ≤ 2 ^ 59 + 2 := by
  obtain ⟨c₁,started,roomy₁,empty⟩ := startWrite_roomy around
  have short := visibilityWords_short s.base
  have size : c₁.dataSize = 0 := by
    rw [Chunk.dataSize,empty]
    rfl
  obtain ⟨c,words,ran,fills,length,roomy⟩ := upTo_bind (writes_ckobject around s.base).upTo (upTo_tail s.rawTail)
    c₁ roomy₁ (by omega)
  have grown := fills.dataSize
  refine ⟨c,?_,roomy,by omega⟩
  rw [ckSceneObjectSerialize,Action.bind_ok _ started]
  exact ran

/-- A well-formed be-object is written, and leaves room for more. -/
theorem beObject_wrote (around : Surroundings) {s : CkbeobjectState} (wellFormed : WellFormed s) :
    ∃ c, (ckBeObjectSerialize around s).run chunkCreate = (.ok (),c) ∧ Roomy c ∧ c.dataSize + 100 < 2 ^ 60 := by
  obtain ⟨c₁,based,roomy₁,size⟩ := sceneObject_wrote around wellFormed.tail
  have scripts := wellFormed.scripts
  have attributes := s.attributeCount.toNat_lt
  have sections : WritesUpTo _ (do
      saveScripts around s.scriptIds
      savePriority around s.priority
      saveAttributes around s) :=
    upTo_bind (upTo_scripts s.scriptIds) (upTo_bind (upTo_priority s.priority) (upTo_attributes wellFormed))
  obtain ⟨c,words,ran,fills,length,roomy⟩ := sections c₁ roomy₁ (by omega)
  have grown := fills.dataSize
  refine ⟨c,?_,roomy,by omega⟩
  rw [ckBeObjectSerialize,Action.bind_ok _ based]
  exact ran

end Base

section Own
variable {around : Surroundings}

def renderSettings (s : CksceneState) : List UInt32 :=
  [s.backgroundColor,s.ambientLightColor,s.fogMode,s.fogColor,s.fogStart,s.fogEnd,s.fogDensity,
    s.backgroundTextureId,s.startingCameraId]

/-- The words of a scene without objects behind those of its be-object. -/
def ownWords (s : CksceneState) : List UInt32 :=
  [stateSaveSceneNewData,s.levelId,0,stateSaveSceneLaunched,s.environmentSettings,stateSaveSceneRenderSettings] ++
    renderSettings s

theorem writes_own (around : Surroundings) {s : CksceneState} (empty : s.objectDescs = []) : Writes (ownWords s) (do
    saveNewData around s
    saveLaunched around s
    saveRenderSettings around s) := by
  have newData : Writes [stateSaveSceneNewData,s.levelId,0] (saveNewData around s) := by
    rw [saveNewData,empty]
    exact writes_bind (writes_identifier _) (writes_bind (writes_objectId _) (writes_bind (writes_writeWords [_]) writes_pure))
  have launched : Writes [stateSaveSceneLaunched,s.environmentSettings] (saveLaunched around s) :=
    writes_bind (writes_identifier _) (writes_writeWords [_])
  have render : Writes (stateSaveSceneRenderSettings :: renderSettings s) (saveRenderSettings around s) :=
    writes_bind (writes_identifier _) <| writes_bind (writes_writeWords [_]) <| writes_bind (writes_writeWords [_]) <|
    writes_bind (writes_writeWords [_]) <| writes_bind (writes_writeWords [_]) <| writes_bind (writes_writeWords [_]) <|
    writes_bind (writes_writeWords [_]) <| writes_bind (writes_writeWords [_]) <| writes_bind (writes_objectId _)
    (writes_objectId _)
  have all : Writes (_ ++ (_ ++ (stateSaveSceneRenderSettings :: renderSettings s))) (do
      saveNewData around s
      saveLaunched around s
      saveRenderSettings around s) := writes_bind newData (writes_bind launched render)
  exact all

/-- The reserved chunk behind an initial value cannot be written. -/
theorem descs_fail {s : CksceneState} {c c' : Chunk} (ok : (saveNewData around s).run c = (.ok (),c')) :
    s.objectDescs = [] := by
  cases descs : s.objectDescs with
  | nil => rfl
  | cons desc rest =>
    obtain ⟨_,_,_,ok⟩ := Action.bind_success ok
    obtain ⟨_,_,_,ok⟩ := Action.bind_success ok
    obtain ⟨_,_,_,ok⟩ := Action.bind_success ok
    rw [descs,if_pos (show (desc :: rest).length > 0 from Nat.succ_pos _)] at ok
    obtain ⟨_,_,_,ok⟩ := Action.bind_success ok
    obtain ⟨_,_,_,ok⟩ := Action.bind_success ok
    obtain ⟨_,_,_,ok⟩ := Action.bind_success ok
    obtain ⟨_,_,values,_⟩ := Action.bind_success ok
    obtain ⟨_,_,first,_⟩ := Action.bind_success values
    obtain ⟨_,_,_,reserved⟩ := Action.bind_success first
    cases (Prod.mk.inj reserved).1

end Own

section Reads
variable {words rest : List UInt32} {c c' : Chunk}

theorem newData_run {level count : UInt32} (opened : Opened words c)
    (place : behind stateSaveSceneNewData words = some (level :: count :: rest)) (none : ¬ count.toInt32 > 0) :
    ∃ c', loadNewData.run c = (.ok (level,[]),c') ∧ Opened words c' := by
  obtain ⟨c₁,scanned,standing⟩ := found_standing opened place
  obtain ⟨c₂,levelled,standing⟩ := readsWord_objectId.full _ _ _ _ standing
  obtain ⟨c₃,counted,standing⟩ := readsWord_int.full _ _ _ _ standing
  refine ⟨c₃,?_,standing.opened⟩
  rw [loadNewData,Action.bind_ok _ scanned,if_pos rfl,Action.bind_ok _ levelled,Action.bind_ok _ counted,if_neg none]
  rfl

/-- With a count of objects the reader fails, for it gives no place for the count of their sequence. -/
theorem newData_success {level : UInt32} {descs : List SceneObjectDesc} {after : List UInt32} (opened : Opened words c)
    (place : behind stateSaveSceneNewData words = some after) (ok : loadNewData.run c = (.ok (level,descs),c')) :
    ∃ count rest, after = level :: count :: rest ∧ ¬ count.toInt32 > 0 ∧ descs = [] ∧ Opened words c' := by
  obtain ⟨c₁,scanned,standing⟩ := found_standing opened place
  rw [loadNewData,Action.bind_ok _ scanned,if_pos rfl] at ok
  obtain ⟨_,c₂,levelled,ok⟩ := Action.bind_success ok
  obtain ⟨first,others,rfl,rfl,standing₁⟩ := readsWord_objectId.success standing levelled
  obtain ⟨_,c₃,counted,ok⟩ := Action.bind_success ok
  obtain ⟨count,rest,rfl,rfl,standing₂⟩ := readsWord_int.success standing₁ counted
  split at ok
  · split at ok
    · cases (Prod.mk.inj ok).1
    · obtain ⟨_,_,described,_⟩ := Action.bind_success ok
      obtain ⟨_,_,started,_⟩ := Action.bind_success described
      cases (Prod.mk.inj started).1
  · rename_i none
    obtain ⟨same,rfl⟩ := Prod.mk.inj ok
    obtain ⟨rfl,rfl⟩ := Prod.mk.inj (Except.ok.inj same)
    exact ⟨count,rest,rfl,none,rfl,standing₂.opened⟩

theorem launched_total (opened : Opened words c) :
    ∃ settings c', loadLaunched.run c = (.ok settings,c') ∧ Opened words c' := by
  obtain ⟨present,c₁,scanned,opened₁⟩ := found_total opened stateSaveSceneLaunched
  rw [loadLaunched,Action.bind_ok _ scanned]
  cases present with
  | false => exact ⟨0,c₁,rfl,opened₁⟩
  | true =>
    obtain ⟨settings,c₂,ran,opened₂⟩ := attempt_total readsWord_dword opened₁
    rw [if_pos rfl,Action.bind_ok _ ran]
    exact ⟨_,c₂,rfl,opened₂⟩

theorem renderSettings_run {s t : CksceneState} (opened : Opened words c)
    (place : behind stateSaveSceneRenderSettings words = some (renderSettings t ++ rest)) :
    ∃ t' c', (loadRenderSettings s).run c = (.ok t',c') ∧ renderSettings t' = renderSettings t ∧
      t'.levelId = s.levelId ∧ t'.objectDescs = s.objectDescs := by
  obtain ⟨c₀,scanned,standing⟩ := found_standing opened place
  obtain ⟨c₁,r1,standing⟩ := readsWord_dword.full _ _ _ _ standing
  obtain ⟨c₂,r2,standing⟩ := readsWord_dword.full _ _ _ _ standing
  obtain ⟨c₃,r3,standing⟩ := readsWord_dword.full _ _ _ _ standing
  obtain ⟨c₄,r4,standing⟩ := readsWord_dword.full _ _ _ _ standing
  obtain ⟨c₅,r5,standing⟩ := readsWord_float.full _ _ _ _ standing
  obtain ⟨c₆,r6,standing⟩ := readsWord_float.full _ _ _ _ standing
  obtain ⟨c₇,r7,standing⟩ := readsWord_float.full _ _ _ _ standing
  obtain ⟨c₈,r8,standing⟩ := readsWord_objectId.full _ _ _ _ standing
  obtain ⟨c₉,r9,standing⟩ := readsWord_objectId.full _ _ _ _ standing
  rw [loadRenderSettings,Action.bind_ok _ scanned,if_pos rfl,Action.bind_ok _ r1,Action.bind_ok _ r2,Action.bind_ok _ r3,
    Action.bind_ok _ r4,Action.bind_ok _ r5,Action.bind_ok _ r6,Action.bind_ok _ r7,Action.bind_ok _ r8,
    Action.bind_ok _ r9]
  exact ⟨_,c₉,rfl,rfl,rfl,rfl⟩

theorem renderSettings_success {s t : CksceneState} {after : List UInt32} (opened : Opened words c)
    (place : behind stateSaveSceneRenderSettings words = some after) (ok : (loadRenderSettings s).run c = (.ok t,c')) :
    (∃ rest, after = renderSettings t ++ rest) ∧ t.levelId = s.levelId ∧ t.objectDescs = s.objectDescs := by
  obtain ⟨c₀,scanned,standing⟩ := found_standing opened place
  rw [loadRenderSettings,Action.bind_ok _ scanned,if_pos rfl] at ok
  obtain ⟨_,_,r1,ok⟩ := Action.bind_success ok
  obtain ⟨_,_,r2,ok⟩ := Action.bind_success ok
  obtain ⟨_,_,r3,ok⟩ := Action.bind_success ok
  obtain ⟨_,_,r4,ok⟩ := Action.bind_success ok
  obtain ⟨_,_,r5,ok⟩ := Action.bind_success ok
  obtain ⟨_,_,r6,ok⟩ := Action.bind_success ok
  obtain ⟨_,_,r7,ok⟩ := Action.bind_success ok
  obtain ⟨_,_,r8,ok⟩ := Action.bind_success ok
  obtain ⟨_,_,r9,ok⟩ := Action.bind_success ok
  obtain ⟨w1,_,rfl,rfl,standing₁⟩ := readsWord_dword.success standing r1
  obtain ⟨w2,_,rfl,rfl,standing₂⟩ := readsWord_dword.success standing₁ r2
  obtain ⟨w3,_,rfl,rfl,standing₃⟩ := readsWord_dword.success standing₂ r3
  obtain ⟨w4,_,rfl,rfl,standing₄⟩ := readsWord_dword.success standing₃ r4
  obtain ⟨w5,_,rfl,rfl,standing₅⟩ := readsWord_float.success standing₄ r5
  obtain ⟨w6,_,rfl,rfl,standing₆⟩ := readsWord_float.success standing₅ r6
  obtain ⟨w7,_,rfl,rfl,standing₇⟩ := readsWord_float.success standing₆ r7
  obtain ⟨w8,_,rfl,rfl,standing₈⟩ := readsWord_objectId.success standing₇ r8
  obtain ⟨w9,rest,rfl,rfl,_⟩ := readsWord_objectId.success standing₈ r9
  rw [← Except.ok.inj (Prod.mk.inj ok).1]
  exact ⟨⟨rest,rfl⟩,rfl,rfl⟩

end Reads

/-- Two descriptors of the same object. -/
structure SameDesc (a b : SceneObjectDesc) : Prop where
  objectId : a.objectId = b.objectId
  initialValue : Option.Rel SameContent a.initialValue b.initialValue
  flags : a.flags = b.flags

/-- The scene is written, read back, and has its level, its descriptors and its settings. -/
def SceneKept (around : Surroundings) (s : CksceneState) : Prop :=
  ∃ t, readBack (ckSceneSerialize around s) ckSceneDeserialize = .ok t ∧ t.levelId = s.levelId ∧
    List.Forall₂ SameDesc s.objectDescs t.objectDescs ∧ renderSettings t = renderSettings s

/-- The words that the writer of be-objects puts before those of the scene. -/
def baseWords (around : Surroundings) (base : CkbeobjectState) : List UInt32 :=
  ((ckBeObjectSerialize around base).run chunkCreate).2.words

def sceneWords (around : Surroundings) (s : CksceneState) : List UInt32 := baseWords around s.base ++ ownWords s

/-- No objects, and the first words that equal the identifiers are those of the sections, or have behind them
what the sections have. -/
structure SceneAlone (around : Surroundings) (s : CksceneState) : Prop where
  objectDescs : s.objectDescs = []
  attributes : ¬ AttributesWrap (sceneWords around s)
  newData : ∃ count rest, behind stateSaveSceneNewData (sceneWords around s) = some (s.levelId :: count :: rest) ∧
    ¬ count.toInt32 > 0
  settings : ∃ rest, behind stateSaveSceneRenderSettings (sceneWords around s) = some (renderSettings s ++ rest)

theorem behind_member (identifier : UInt32) {words : List UInt32} (member : identifier ∈ words) :
    ∃ rest, behind identifier words = some rest := by
  induction words with
  | nil => exact absurd member List.not_mem_nil
  | cons word rest ih =>
    rw [behind]
    by_cases same : word = identifier
    · exact ⟨rest,if_pos same⟩
    · rw [if_neg same]
      exact ih ((List.mem_cons.mp member).resolve_left (Ne.symm same))

section Kept
variable {around : Surroundings} {s : CksceneState}

theorem scene_written (around : Surroundings) (wellFormed : WellFormed s.base) (empty : s.objectDescs = []) :
    ∃ c, (ckSceneSerialize around s).run chunkCreate = (.ok (),c) ∧ c.words = sceneWords around s := by
  obtain ⟨c₁,based,roomy,size⟩ := beObject_wrote around wellFormed
  have few : c₁.dataSize + (ownWords s).length < 2 ^ 60 := by
    have length : (ownWords s).length = 15 := rfl
    omega
  obtain ⟨c,ran,fills,_⟩ := writes_own around empty c₁ roomy few
  refine ⟨c,?_,?_⟩
  · rw [ckSceneSerialize,Action.bind_ok _ based]
    exact ran
  · rw [fills.words,sceneWords,baseWords,based]

theorem sceneKept_alone (wellFormed : WellFormed s.base) (alone : SceneAlone around s) : SceneKept around s := by
  obtain ⟨c,wrote,words⟩ := scene_written around wellFormed alone.objectDescs
  obtain ⟨count,after,newPlace,none⟩ := alone.newData
  obtain ⟨rest,place⟩ := alone.settings
  have opened : Opened (sceneWords around s) { c with parserState := some {} } := ⟨words,_,rfl⟩
  obtain ⟨base,c₁,based,opened₁⟩ := beObject_total alone.attributes opened
  obtain ⟨c₂,stored,opened₂⟩ := newData_run opened₁ newPlace none
  obtain ⟨settings,c₃,launched,opened₃⟩ := launched_total opened₂
  let t : CksceneState := { base := base, levelId := s.levelId, environmentSettings := settings }
  obtain ⟨t',c₄,rendered,same,level,descs⟩ := renderSettings_run (s := t) opened₃ place
  have ran : ckSceneDeserialize.run { c with parserState := some {} } = (.ok t',c₄) := by
    rw [ckSceneDeserialize,Action.bind_ok _ based,Action.bind_ok _ stored]
    dsimp only
    rw [Action.bind_ok _ launched]
    exact rendered
  refine ⟨t',readBack_of wrote ran,level,?_,same⟩
  rw [alone.objectDescs,descs]
  exact .nil

theorem alone_of_sceneKept (wellFormed : WellFormed s.base) (kept : SceneKept around s) : SceneAlone around s := by
  obtain ⟨t,back,sameLevel,_,sameSettings⟩ := kept
  obtain ⟨c,c₁,c',wrote,fresh,same,ran⟩ := readBack_success back
  have empty : s.objectDescs = [] := by
    obtain ⟨_,_,_,rest⟩ := Action.bind_success wrote
    obtain ⟨_,_,stored,_⟩ := Action.bind_success rest
    exact descs_fail stored
  obtain ⟨c₀,again,words⟩ := scene_written around wellFormed empty
  rw [(Prod.mk.inj (wrote.symm.trans again)).2,words] at same
  have opened : Opened (sceneWords around s) c₁ := ⟨same,_,fresh⟩
  have fits : ¬ AttributesWrap (sceneWords around s) := by
    intro wraps
    obtain ⟨_,_,stopped⟩ := beObject_stop wraps opened
    rw [ckSceneDeserialize,Action.bind_error _ stopped] at ran
    cases (Prod.mk.inj ran).1
  obtain ⟨base,c₂,based,opened₂⟩ := beObject_total fits opened
  rw [ckSceneDeserialize,Action.bind_ok _ based] at ran
  obtain ⟨⟨level,descs⟩,c₃,stored,ran⟩ := Action.bind_success ran
  obtain ⟨newAfter,newPlace⟩ := behind_member stateSaveSceneNewData (show _ ∈ sceneWords around s from
    List.mem_append_right _ List.mem_cons_self)
  obtain ⟨count,rest,rfl,none,_,opened₃⟩ := newData_success opened₂ newPlace stored
  obtain ⟨settings,c₄,launched,opened₄⟩ := launched_total opened₃
  dsimp only at ran
  rw [Action.bind_ok _ launched] at ran
  obtain ⟨after,place⟩ := behind_member stateSaveSceneRenderSettings (show _ ∈ sceneWords around s from
    List.mem_append_right _ (List.mem_append_left _ (by simp)))
  obtain ⟨⟨others,rfl⟩,hasLevel,_⟩ := renderSettings_success opened₄ place ran
  refine ⟨empty,fits,⟨count,rest,?_,none⟩,⟨others,?_⟩⟩
  · rw [newPlace,← sameLevel,hasLevel]
  · rw [place,sameSettings]

/-- A visible scene without objects and with settings of its own. A priority would put a 4 before them. -/
def sampleScene : CksceneState where
  base := { base := { base := { visibilityFlags := 1 } }, scriptIds := [9,8] }
  levelId := 12
  environmentSettings := 3
  backgroundColor := 0xFF808080
  fogMode := 2
  startingCameraId := 15

end Kept

end Libnmo.Schema
