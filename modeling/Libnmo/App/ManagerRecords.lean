import Libnmo.App.References

/-! Manager records over a load and a save. The load marks the records that a manager
has accepted; the save writes what the managers produce and the records without a mark.
Whether a manager that accepts also produces is up to its hooks. -/
namespace Libnmo.App
open Core Format Session Lib

variable {State : Type}

section Loading

/-- A load hook takes the record. -/
def accepts (registry : List (Manager State)) (m : ManagerData) (repo : ObjectRepository State) : Bool :=
  match managerRegistryFindByGuid registry m.guid with
  | none => false
  | some manager => match manager.loadData,m.chunk with
    | some load,some chunk => ((load chunk).run repo).1.isOk
    | _,_ => false

/-- The GUIDs of the records that no hook takes. -/
def unaccepted (registry : List (Manager State)) : List ManagerData → ObjectRepository State → List Guid
  | [],_ => []
  | m :: rest,repo =>
    let others := unaccepted registry rest (dispatchManager registry m repo).2
    if accepts registry m repo then others else m.guid :: others

/-- Phases 10 to 13. -/
def beforeDispatch (descs : List ObjectDesc) (records : List ObjectData) : Run (LoadState State) Unit := do
  createObjects descs
  Action.update fun s => { s with repo := attachChunks s.repo records s.createdObjects }
  Action.update remapIds

/-- The GUIDs of the records that are left when the load is over. -/
def leftOver (ctx : LoadContext State) (descs : List ObjectDesc) (records : List ObjectData) (start : LoadState State) :
    List Guid :=
  if descs.length = 0 then start.managers.map ManagerData.guid
  else match ctx.managerRegistry with
    | none => start.managers.map ManagerData.guid
    | some registry =>
      let ready := ((beforeDispatch descs records).run start).2
      unaccepted registry ready.managers ready.repo

theorem dispatchManager_marks (registry : List (Manager State)) {m : ManagerData} (unmarked : m.flags = 0)
    (repo : ObjectRepository State) : (dispatchManager registry m repo).1.guid = m.guid ∧
      hasFlag (dispatchManager registry m repo).1.flags managerDataFlagDispatched = accepts registry m repo := by
  have plain : hasFlag m.flags managerDataFlagDispatched = false := by
    rw [unmarked]
    rfl
  unfold dispatchManager accepts
  cases managerRegistryFindByGuid registry m.guid with
  | none => exact ⟨rfl,plain⟩
  | some manager =>
    dsimp only
    cases manager.loadData with
    | none => exact ⟨rfl,plain⟩
    | some load =>
      cases present : m.chunk with
      | none => exact ⟨rfl,plain⟩
      | some chunk =>
        dsimp only
        rw [unmarked]
        cases (load chunk).run repo with
        | mk outcome after =>
          cases outcome with
          | ok _ => exact ⟨rfl,show hasFlag (0 ||| managerDataFlagDispatched) managerDataFlagDispatched = true by decide⟩
          | error stop => exact ⟨rfl,show hasFlag (0 ||| managerDataFlagError) managerDataFlagDispatched = false by decide⟩

theorem preserved_dispatched (registry : List (Manager State)) {records : List ManagerData}
    (unmarked : ∀ m ∈ records, m.flags = 0) (repo : ObjectRepository State) :
    (preservedManagers (dispatchManagers registry records repo).1).map ManagerData.guid =
      unaccepted registry records repo := by
  induction records generalizing repo with
  | nil => rfl
  | cons m rest ih =>
    obtain ⟨first,later⟩ := List.forall_mem_cons.mp unmarked
    obtain ⟨guid,mark⟩ := dispatchManager_marks registry first repo
    have others := ih later (dispatchManager registry m repo).2
    rw [dispatchManagers,unaccepted,preservedManagers,List.filter_cons,mark]
    cases accepts registry m repo with
    | true => exact others
    | false =>
      rw [← others,← guid]
      rfl

theorem preserved_unmarked {records : List ManagerData} (unmarked : ∀ m ∈ records, m.flags = 0) :
    preservedManagers records = records := by
  apply List.filter_eq_self.mpr
  intro m member
  rw [unmarked m member]
  rfl

/-- The GUIDs and marks of records. -/
def marked (records : List ManagerData) : List (Guid × UInt32) := records.map fun m => (m.guid,m.flags)

theorem unmarked_of_marked {records others : List ManagerData} (same : marked records = marked others)
    (unmarked : ∀ m ∈ others, m.flags = 0) : ∀ m ∈ records, m.flags = 0 := by
  intro m member
  have listed : (m.guid,m.flags) ∈ marked others := same ▸ List.mem_map_of_mem member
  obtain ⟨other,found,equal⟩ := List.mem_map.mp listed
  rw [← (Prod.mk.inj equal).2]
  exact unmarked other found

theorem guids_of_marked {records others : List ManagerData} (same : marked records = marked others) :
    records.map ManagerData.guid = others.map ManagerData.guid := by
  have guids := congrArg (List.map Prod.fst) same
  rw [marked,marked,List.map_map,List.map_map] at guids
  exact guids

theorem marked_remapIds (s : LoadState State) : marked (remapIds s).managers = marked s.managers := by
  rw [remapIds]
  split
  · rfl
  · rw [marked,List.map_map]
    rfl

theorem managers_createObjects {descs : List ObjectDesc} {s after : LoadState State}
    (ran : (createObjects descs).run s = (.ok (),after)) : after.managers = s.managers := by
  have kept : Action.Keeps (fun state : LoadState State => state.managers = s.managers) (createObjects descs) := by
    clear ran
    induction descs with
    | nil => exact Action.keeps_pure _
    | cons desc rest ih =>
      refine Action.keeps_bind ?_ fun _ => ih
      rw [createObject]
      split
      · exact Action.keeps_update _ fun _ same => same
      · refine Action.keeps_bind ?_ fun _ => Action.keeps_bind ?_ fun _ => ?_
        · exact fun _ same => same
        · exact fun _ same => same
        · exact Action.keeps_update _ fun _ same => same
  have same := kept s rfl
  rwa [ran] at same

/-- After a load that succeeds the unmarked records are those that are left over. -/
theorem preserved_loaded {ctx : LoadContext State} {descs : List ObjectDesc} {records : List ObjectData}
    {start state : LoadState State} (unmarked : ∀ m ∈ start.managers, m.flags = 0)
    (ran : (loadObjects ctx descs records).run start = (.ok (),state)) :
    (preservedManagers state.managers).map ManagerData.guid = leftOver ctx descs records start := by
  rw [loadObjects] at ran
  rw [leftOver]
  split at ran
  · rename_i empty
    rw [Action.pure_apply] at ran
    obtain ⟨_,rfl⟩ := Prod.mk.inj ran
    rw [if_pos empty,preserved_unmarked unmarked]
  · rename_i nonempty
    rw [if_neg nonempty]
    obtain ⟨_,prepared,preparing,ran⟩ := Action.bind_success ran
    have same : state.managers = prepared.managers := by
      obtain ⟨_,rfl⟩ := Prod.mk.inj ran
      rfl
    rw [same]
    obtain ⟨_,created,creating,rest⟩ := Action.bind_success preparing
    rw [Action.bind_ok _ (Action.update_apply ..),Action.bind_ok _ (Action.update_apply ..),Action.update_apply] at rest
    obtain ⟨_,rfl⟩ := Prod.mk.inj rest
    have ready : ((beforeDispatch descs records).run start).2 =
        remapIds { created with repo := attachChunks created.repo records created.createdObjects } := by
      rw [beforeDispatch,Action.bind_ok _ creating,Action.bind_ok _ (Action.update_apply ..)]
      rfl
    rw [ready]
    have marks : marked (remapIds { created with
        repo := attachChunks created.repo records created.createdObjects }).managers = marked start.managers := by
      rw [← managers_createObjects creating]
      exact marked_remapIds _
    generalize remapIds { created with repo := attachChunks created.repo records created.createdObjects } = ready at marks
    rw [dispatchAll]
    cases ctx.managerRegistry with
    | none =>
      dsimp only
      rw [preserved_unmarked (unmarked_of_marked marks unmarked)]
      exact guids_of_marked marks
    | some registry => exact preserved_dispatched registry (unmarked_of_marked marks unmarked) _

end Loading

section Saving

/-- The save hook of the manager with the GUID produces a chunk at its turn. -/
def produces (guid : Guid) : List (Manager State) → List (Object State) → Bool
  | [],_ => false
  | manager :: rest,objects => match manager.saveData with
    | none => produces guid rest objects
    | some hook => (manager.guid = guid && (hook objects).1.isSome) || produces guid rest (objects.map (hook objects).2)

theorem guids_generated (managers : List (Manager State)) (objects : List (Object State)) :
    ((generateManagers managers objects).1.map ManagerData.guid).Sublist (managers.map Manager.guid) := by
  induction managers generalizing objects with
  | nil => exact List.Sublist.refl _
  | cons manager rest ih =>
    rw [generateManagers]
    split
    · exact (ih objects).cons _
    · rename_i hook _
      dsimp only
      split
      · exact (ih _).cons _
      · exact (ih _).cons_cons _

theorem mem_generated (guid : Guid) (managers : List (Manager State)) (objects : List (Object State)) :
    guid ∈ (generateManagers managers objects).1.map ManagerData.guid ↔ produces guid managers objects = true := by
  induction managers generalizing objects with
  | nil => exact iff_of_false List.not_mem_nil Bool.false_ne_true
  | cons manager rest ih =>
    rw [generateManagers,produces]
    cases manager.saveData with
    | none => exact ih objects
    | some hook =>
      dsimp only
      cases (hook objects).1 with
      | none =>
        rw [Option.isSome_none,Bool.and_false,Bool.false_or]
        exact ih _
      | some chunk =>
        rw [Option.isSome_some,Bool.and_true,Bool.or_eq_true,List.map_cons,List.mem_cons,ih,decide_eq_true_iff,eq_comm]

/-- Each manager produces at most one record. -/
theorem count_generated {managers : List (Manager State)} (distinct : (managers.map Manager.guid).Nodup) (guid : Guid)
    (objects : List (Object State)) : ((generateManagers managers objects).1.map ManagerData.guid).count guid =
      if produces guid managers objects then 1 else 0 := by
  have once := distinct.sublist (guids_generated managers objects)
  split
  · rename_i made
    exact List.count_eq_one_of_mem once ((mem_generated guid managers objects).mpr made)
  · rename_i unmade
    exact List.count_eq_zero_of_not_mem fun member => unmade ((mem_generated guid managers objects).mp member)

end Saving

section Parsing
variable {buffer : List UInt8}

theorem parseManagerData_unmarked : Action.Yields (fun m => m.flags = 0) (parseManagerData buffer) :=
  Action.yields_after fun _ => Action.yields_after fun _ => Action.yields_after fun _ => Action.yields_after fun _ =>
    Action.yields_pure rfl

/-- The records come from a file without a mark. -/
theorem dataSectionParse_unmarked {fileVersion managerCount objectCount : UInt32}
    {records : List ManagerData × List ObjectData}
    (ok : dataSectionParse buffer fileVersion managerCount objectCount = .ok records) :
    ∀ m ∈ records.1, m.flags = 0 := by
  rw [dataSectionParse] at ok
  generalize run : (parseRecords buffer fileVersion managerCount objectCount).run 0 = out at ok
  obtain ⟨outcome,stop⟩ := out
  obtain rfl : outcome = .ok records := ok
  have managers : Action.Yields (fun found => ∀ m ∈ found, m.flags = 0) (if fileVersion ≥ 6 ∧ managerCount > 0 then
      (parseManagerData buffer).times managerCount.toNat else pure []) := by
    split
    · exact Action.yields_times parseManagerData_unmarked _
    · exact Action.yields_pure fun m member => absurd member List.not_mem_nil
  have parsed : Action.Yields (fun found => ∀ m ∈ found.1, m.flags = 0)
      (parseRecords buffer fileVersion managerCount objectCount) :=
    Action.yields_bind managers fun _ plain => Action.yields_after fun _ => Action.yields_pure plain
  exact parsed 0 records stop run

end Parsing

section Files
variable {loadCtx : LoadContext State} {saveCtx : SaveContext State} {file out : SavedFile} {state : LoadState State}
  {session : SaveSession State} {flags : UInt32}

/-- The state that the object phases start in. -/
def loadStart (file : SavedFile) (managers : List ManagerData) : LoadState State where
  session := loadSessionStart ({} : ObjectRepository State) file.header.maxIdSaved
  managers := managers

/-- The GUIDs of the manager records in a file. -/
def fileGuids (file : SavedFile) : List Guid :=
  match dataSectionParse file.dataBytes file.header.fileVersion file.header.managerCount file.header.objectCount with
  | .ok records => records.1.map ManagerData.guid
  | .error _ => []

/-- The GUIDs of the records that no load hook takes when the file is loaded. -/
def leftOverGuids (ctx : LoadContext State) (file : SavedFile) : List Guid :=
  match header1Parse file.hdr1Bytes file.header.objectCount,
    dataSectionParse file.dataBytes file.header.fileVersion file.header.managerCount file.header.objectCount with
  | .ok header1,.ok records => leftOver ctx header1.objects records.2 (loadStart file records.1)
  | _,_ => []

/-- Every GUID of the file has one record in the saved file. -/
def RecordsKept (file out : SavedFile) : Prop :=
  ∀ guid ∈ fileGuids file, (out.dataSect.managers.map ManagerData.guid).count guid = 1

theorem preserved_reloaded (loaded : reloadFile loadCtx file = .ok state) :
    (preservedManagers state.managers).map ManagerData.guid = leftOverGuids loadCtx file := by
  obtain ⟨header1,records,parsed,read,run⟩ := reloadFile_success loaded
  rw [leftOverGuids,parsed,read]
  exact preserved_loaded (dataSectionParse_unmarked read) run

/-- A GUID keeps one record exactly when its manager produces one and no record is left over, or produces none
and one record is. -/
theorem recordsKept_iff (loaded : reloadFile loadCtx file = .ok state) (records : session.managerData = state.managers)
    (distinct : (saveCtx.managers.map Manager.guid).Nodup) (saved : saveFile saveCtx session flags = .ok out) :
    RecordsKept file out ↔ ∀ guid ∈ fileGuids file, (leftOverGuids loadCtx file).count guid =
      if produces guid saveCtx.managers (preparedObjects saveCtx session) then 0 else 1 := by
  have managers := (saveFile_success saved).managers
  have count (guid : Guid) : (out.dataSect.managers.map ManagerData.guid).count guid =
      (if produces guid saveCtx.managers (preparedObjects saveCtx session) then 1 else 0) +
        (leftOverGuids loadCtx file).count guid := by
    rw [managers,saveManagers,List.map_append,List.count_append,count_generated distinct,records,
      preserved_reloaded loaded]
  apply forall_congr'
  intro guid
  apply imp_congr_right
  intro _
  rw [count]
  split
  · exact ⟨Nat.add_left_cancel (n := 1) (m := _) (k := 0),fun none => by rw [none]⟩
  · rw [Nat.zero_add]

end Files

section Samples

/-- An object, and a manager record with a chunk. -/
def recordSession : SaveSession Unit where
  objects := [{ id := 1, classId := 1, chunk := some (pointing 1) }]
  managerData := [{ guid := ⟨1,2⟩, chunk := some (pointing 1) }]
  distinct := selfSession.distinct
  nonzero := selfSession.nonzero
  managersFit := by decide

/-- A manager that takes every chunk and produces none. -/
def takingManager : Manager Unit := { guid := ⟨1,2⟩, loadData := some fun _ => pure () }

def withManagers (objects : SaveSession State) (managers : List ManagerData) : Result (SaveSession State) :=
  if fit : managers.length < 2 ^ 32 then .ok { objects with managerData := managers, managersFit := fit }
  else .error (.error .nomem "")

/-- The session is saved, loaded with the managers and saved again: the GUIDs in both files, and those that the
load leaves over. -/
def savedAgain (registry : List (Manager Unit)) : Result (List Guid × List Guid × List Guid) := do
  let file ← saveFile plainContext recordSession 0
  let state ← reloadFile ({ managerRegistry := some registry } : LoadContext Unit) file
  let session ← withManagers recordSession state.managers
  let out ← saveFile { plainContext with managerRegistry := some registry } session 0
  .ok (fileGuids file,leftOverGuids ({ managerRegistry := some registry } : LoadContext Unit) file,
    out.dataSect.managers.map ManagerData.guid)

/-- What there is when the session is saved, loaded and saved again. -/
structure Again (registry : List (Manager Unit)) (file out : SavedFile) (state : LoadState Unit)
    (session : SaveSession Unit) : Prop where
  loaded : reloadFile ({ managerRegistry := some registry } : LoadContext Unit) file = .ok state
  records : session.managerData = state.managers
  saved : saveFile { plainContext with managerRegistry := some registry } session 0 = .ok out

theorem again_of_savedAgain {registry : List (Manager Unit)} {guids left back : List Guid}
    (run : savedAgain registry = .ok (guids,left,back)) : ∃ file out state session,
      Again registry file out state session ∧ fileGuids file = guids ∧
        leftOverGuids ({ managerRegistry := some registry } : LoadContext Unit) file = left ∧
          out.dataSect.managers.map ManagerData.guid = back := by
  obtain ⟨file,_,run⟩ := bind_result run
  obtain ⟨state,loaded,run⟩ := bind_result run
  obtain ⟨session,made,run⟩ := bind_result run
  obtain ⟨out,saved,run⟩ := bind_result run
  obtain ⟨first,rest⟩ := Prod.mk.inj (Except.ok.inj run)
  obtain ⟨second,third⟩ := Prod.mk.inj rest
  refine ⟨file,out,state,session,⟨loaded,?_,saved⟩,first,second,third⟩
  rw [withManagers] at made
  split at made
  · rw [← Except.ok.inj made]
  · cases made

/-- Without a manager the record is kept. -/
theorem unmanagedRecord_kept : ∃ file out state session, Again [] file out state session ∧ RecordsKept file out := by
  have run : savedAgain [] = .ok ([⟨1,2⟩],[⟨1,2⟩],[⟨1,2⟩]) := by decide +kernel
  obtain ⟨file,out,state,session,again,guids,left,_⟩ := again_of_savedAgain run
  have nobody : ((SaveContext.managers { plainContext with managerRegistry := some [] }).map Manager.guid).Nodup :=
    List.nodup_nil
  refine ⟨file,out,state,session,again,(recordsKept_iff again.loaded again.records nobody again.saved).mpr ?_⟩
  intro guid member
  rw [guids] at member
  rw [left,List.mem_singleton.mp member]
  rfl

/-- The record that the manager has taken is in no file any more. -/
theorem takenRecord_lost : ¬ ∀ registry file out state session, Again registry file out state session →
    (registry.map Manager.guid).Nodup → RecordsKept file out := by
  intro kept
  have run : savedAgain [takingManager] = .ok ([⟨1,2⟩],[],[]) := by decide +kernel
  obtain ⟨file,out,state,session,again,guids,_,back⟩ := again_of_savedAgain run
  have once := kept _ file out state session again (List.nodup_singleton _) ⟨1,2⟩ (by rw [guids]; exact List.mem_singleton_self _)
  rw [back] at once
  cases once

end Samples

end Libnmo.App
