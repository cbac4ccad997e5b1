import Libnmo.App.CreatedObjects
import Libnmo.App.DeserializedObjects
import Libnmo.App.SaveFile

/-! The load of a saved file into an empty session. The objects get the IDs from 1 on
in the order of the descriptors, each gets the chunk of its record, and one table
translates the IDs of all of them. -/
namespace Libnmo.App
open Core Format Session Lib

variable {State : Type}

/-- The load of a file from its sections as they are after unpacking. -/
def reloadFile (ctx : LoadContext State) (file : SavedFile) : Result (LoadState State) := do
  let header1 ← header1Parse file.hdr1Bytes file.header.objectCount
  let records ← dataSectionParse file.dataBytes file.header.fileVersion file.header.managerCount
    file.header.objectCount
  let start : LoadState State := {
    session := loadSessionStart ({} : ObjectRepository State) file.header.maxIdSaved, managers := records.1 }
  match (loadObjects ctx header1.objects records.2).run start with
  | (.ok (),state) => .ok state
  | (.error stop,_) => .error stop

/-- The runtime ID of the object at an index. -/
def runtimeId (index : Nat) : UInt32 := UInt32.ofNat (index + 1)

theorem toNat_runtimeId {index : Nat} (small : index + 1 < 2 ^ 32) : (runtimeId index).toNat = index + 1 := by
  rw [runtimeId,UInt32.toNat_ofNat']
  exact Nat.mod_eq_of_lt small

theorem runtimeId_ne_zero {index : Nat} (small : index + 1 < 2 ^ 32) : runtimeId index ≠ 0 := by
  intro zero
  have value := congrArg UInt32.toNat zero
  rw [toNat_runtimeId small] at value
  exact absurd value (Nat.succ_ne_zero index)

/-- The state after phase 10 for descriptors, from an empty session. -/
structure CreatedFresh (s : LoadState State) (descs : List ObjectDesc) : Prop where
  objects : s.repo.objects = descs.mapIdx fun index desc => createdObject (runtimeId index) desc
  next : descs.length + 1 < 2 ^ 32 → s.repo.nextRuntimeId = runtimeId descs.length
  created : s.createdObjects = descs.mapIdx fun index _ => some (runtimeId index)
  mappings : s.session.idMappings = descs.mapIdx fun index desc => (desc.fileId,runtimeId index)
  distinct : (descs.map ObjectDesc.fileId).Nodup

section Creating
variable {s after : LoadState State} {descs : List ObjectDesc} {desc : ObjectDesc}

theorem objectRepositoryAdd_fresh {obj : Object State} {repo repo' : ObjectRepository State} {id : UInt32}
    (unnumbered : obj.id = 0) (ok : (objectRepositoryAdd obj).run repo = (.ok id,repo')) :
    id = repo.nextRuntimeId ∧
      repo'.nextRuntimeId = if repo.nextRuntimeId + 1 = 0 then 1 else repo.nextRuntimeId + 1 := by
  rw [objectRepositoryAdd,unnumbered,if_pos rfl,Action.bind_ok _ rfl] at ok
  obtain ⟨_,ok⟩ := Action.check_success ok
  rw [Action.bind_ok _ (Action.read_apply _ _)] at ok
  obtain ⟨_,ok⟩ := Action.check_success ok
  rw [Action.bind_ok _ (Action.update_apply _ _),Action.pure_apply,Prod.mk.injEq,Except.ok.injEq] at ok
  obtain ⟨rfl,rfl⟩ := ok
  exact ⟨rfl,rfl⟩

theorem loadSessionRegister_success {session session' : LoadSession} {id fileId : UInt32}
    (ok : (loadSessionRegister id fileId).run session = (.ok (),session')) :
    fileId ∉ session.idMappings.map Prod.fst ∧ session'.idMappings = session.idMappings ++ [(fileId,id)] := by
  simp only [loadSessionRegister] at ok
  split at ok
  · simp at ok
  · split at ok
    · simp at ok
    · rename_i absent
      simp only [Prod.mk.injEq,true_and] at ok
      rw [← ok]
      refine ⟨fun present => absent ?_,rfl⟩
      obtain ⟨mapping,member,same⟩ := List.mem_map.mp present
      exact List.any_eq_true.mpr ⟨mapping,member,decide_eq_true same⟩

theorem createdFresh_step (plain : hasFlag desc.fileId objectReferenceFlag = false)
    (few : descs.length + 1 < 2 ^ 32) (fresh : CreatedFresh s descs)
    (ok : (createObject desc).run s = (.ok (),after)) : CreatedFresh after (descs ++ [desc]) := by
  rw [createObject,plain,if_neg Bool.false_ne_true] at ok
  obtain ⟨id,_,first,ok⟩ := Action.bind_success ok
  obtain ⟨repo,added,rfl⟩ := onRepo_success first
  obtain ⟨_,_,second,ok⟩ := Action.bind_success ok
  simp only [onSession,Prod.mk.injEq] at second
  obtain ⟨registered,rfl⟩ := second
  simp only [recordCreated,Action.update_apply,Prod.mk.injEq,true_and] at ok
  subst ok
  have objects := objectRepositoryAdd_success added
  obtain ⟨same,next⟩ := objectRepositoryAdd_fresh rfl added
  have register := loadSessionRegister_success
    (show (loadSessionRegister id desc.fileId).run s.session = (.ok (),_) from Prod.ext registered rfl)
  rw [fresh.next few] at same next
  subst same
  constructor
  · rw [objects,fresh.objects,List.mapIdx_append]
    simp [createdObject]
  · intro room
    rw [List.length_append,List.length_singleton] at room ⊢
    have step : runtimeId descs.length + 1 = runtimeId (descs.length + 1) := by
      rw [runtimeId,runtimeId,UInt32.ofNat_add (descs.length + 1) 1]
      rfl
    rw [next,step,if_neg (runtimeId_ne_zero room)]
  · rw [fresh.created,List.mapIdx_append]
    simp
  · rw [register.2,fresh.mappings,List.mapIdx_append]
    simp
  · have absent := register.1
    rw [fresh.mappings] at absent
    have keys : (descs.mapIdx fun index desc => (desc.fileId,runtimeId index)).map Prod.fst = descs.map ObjectDesc.fileId := by
      apply List.ext_getElem <;> simp
    rw [keys] at absent
    rw [List.map_append,List.map_singleton,List.nodup_append]
    refine ⟨fresh.distinct,by simp,?_⟩
    rintro fileId present _ last rfl
    exact absent (List.mem_singleton.mp last ▸ present)

/-- Phase 10 adds the descriptors one by one. -/
theorem createdFresh_run {more : List ObjectDesc}
    (plain : ∀ desc ∈ more, hasFlag desc.fileId objectReferenceFlag = false)
    (few : descs.length + more.length < 2 ^ 32) (fresh : CreatedFresh s descs)
    (ok : (createObjects more).run s = (.ok (),after)) : CreatedFresh after (descs ++ more) := by
  induction more generalizing s descs with
  | nil =>
    simp only [createObjects,Action.pure_apply,Prod.mk.injEq,true_and] at ok
    rwa [List.append_nil,← ok]
  | cons desc more ih =>
    rw [List.length_cons] at few
    obtain ⟨_,middle,first,rest⟩ := Action.bind_success ok
    have head := createdFresh_step (plain desc (by simp)) (by omega) fresh first
    have tail := ih (fun other member => plain other (by simp [member])) (by simp; omega) head rest
    rwa [List.append_assoc,List.singleton_append] at tail

variable (State) in
theorem createdFresh_start (managers : List ManagerData) (maxSavedId : UInt32) : CreatedFresh
    ({ session := loadSessionStart ({} : ObjectRepository State) maxSavedId, managers := managers } : LoadState State) [] :=
  ⟨rfl,fun _ => rfl,rfl,rfl,List.nodup_nil⟩

end Creating

section Finding
variable {repo : ObjectRepository State}

/-- A change to an object that is made to its chunk only. -/
theorem find_modify (change : Object State → Option Chunk) (id other : UInt32) :
    (repo.modify id fun obj => { obj with chunk := change obj }).find other =
      (repo.find other).map fun obj => if other = id then { obj with chunk := change obj } else obj := by
  rw [ObjectRepository.find,ObjectRepository.find,ObjectRepository.modify]
  induction repo.objects with
  | nil => rfl
  | cons obj objects ih =>
    rw [List.map_cons,List.find?_cons,List.find?_cons]
    have same : (if obj.id = id then { obj with chunk := change obj } else obj).id = obj.id := by
      split <;> rfl
    rw [same]
    by_cases found : obj.id = other
    · simp [found]
    · simp only [found,decide_false]
      exact ih

/-- An object that no index leads to keeps its chunk. -/
theorem find_attach_other {records : List ObjectData} {ids : List UInt32} {id : UInt32} (other : id ∉ ids) :
    (attachChunks repo records (ids.map some)).find id = repo.find id := by
  induction ids generalizing records repo with
  | nil => cases records <;> rfl
  | cons first ids ih =>
    rw [List.mem_cons,not_or] at other
    cases records with
    | nil => rfl
    | cons record records =>
      rw [List.map_cons,attachChunks,ih other.2,find_modify]
      simp [other.1]

theorem find_attach (index : Nat) {records : List ObjectData} {ids : List UInt32} {id : UInt32} {record : ObjectData}
    (distinct : ids.Nodup) (found : ids[index]? = some id) (stored : records[index]? = some record) :
    (attachChunks repo records (ids.map some)).find id =
      (repo.find id).map fun obj => { obj with chunk := record.chunk } := by
  induction ids generalizing records repo index with
  | nil => simp at found
  | cons first ids ih =>
    obtain ⟨absent,distinct⟩ := List.nodup_cons.mp distinct
    cases records with
    | nil => simp at stored
    | cons other records =>
      rw [List.map_cons,attachChunks]
      cases index with
      | zero =>
        obtain rfl : first = id := by simpa using found
        obtain rfl : other = record := by simpa using stored
        rw [find_attach_other absent,find_modify]
        simp
      | succ index =>
        rw [List.getElem?_cons_succ] at found stored
        have apart : id ≠ first := fun same => absent (same ▸ List.mem_of_getElem? found)
        rw [ih _ distinct found stored,find_modify]
        simp [apart]

theorem find_remapCreated_other {table : IdRemap} {ids : List UInt32} {id : UInt32} (other : id ∉ ids) :
    (remapCreated table repo (ids.map some)).find id = repo.find id := by
  induction ids generalizing repo with
  | nil => rfl
  | cons first ids ih =>
    rw [List.mem_cons,not_or] at other
    rw [List.map_cons,remapCreated,ih other.2,find_modify]
    simp [other.1]

theorem find_remapCreated {table : IdRemap} {ids : List UInt32} {id : UInt32} (distinct : ids.Nodup)
    (member : id ∈ ids) : (remapCreated table repo (ids.map some)).find id =
      (repo.find id).map fun obj => { obj with chunk := obj.chunk.map (remappedChunk table) } := by
  induction ids generalizing repo with
  | nil => simp at member
  | cons first ids ih =>
    obtain ⟨absent,distinct⟩ := List.nodup_cons.mp distinct
    rw [List.map_cons,remapCreated]
    rcases List.mem_cons.mp member with rfl | later
    · rw [find_remapCreated_other absent,find_modify]
      simp
    · have apart : id ≠ first := fun same => absent (same ▸ later)
      rw [ih distinct later,find_modify]
      simp [apart]

end Finding

/-- The IDs and the words of an object's chunk. -/
def tracked (obj : Object State) : Option (List UInt32 × List UInt32) := obj.chunk.map fun chunk => (chunk.ids,chunk.words)

/-- The same objects, with the same IDs and words in their chunks. -/
def Alike (repo repo' : ObjectRepository State) : Prop :=
  ∀ id, (repo'.find id).map tracked = (repo.find id).map tracked

/-- What managers and schemas do in a load leaves the IDs and the words of the chunks. -/
structure LoadKeeps (ctx : LoadContext State) : Prop where
  hooks : ∀ registry, ctx.managerRegistry = some registry → ∀ manager ∈ registry, ∀ load,
    manager.loadData = some load → ∀ chunk repo, Alike repo ((load chunk).run repo).2
  reads : ∀ classId read, classReader ctx.schemaRegistry classId = some read → ∀ chunk : Chunk,
    (read.run chunk).2.ids = chunk.ids ∧ (read.run chunk).2.words = chunk.words

section Keeping
variable {ctx : LoadContext State} {repo repo' : ObjectRepository State}

theorem alike_dispatchManager {registry : List (Manager State)} (known : ctx.managerRegistry = some registry)
    (keeps : LoadKeeps ctx) (m : ManagerData) : Alike repo (dispatchManager registry m repo).2 := by
  rw [dispatchManager]
  split
  · exact fun _ => rfl
  · rename_i manager found
    have member := List.mem_of_find?_eq_some found
    split
    · rename_i load chunk hook _
      have kept := keeps.hooks registry known manager member load hook chunk repo
      split
      · rename_i ran
        rwa [ran] at kept
      · rename_i ran
        rwa [ran] at kept
    · exact fun _ => rfl

theorem alike_dispatchManagers {registry : List (Manager State)} (known : ctx.managerRegistry = some registry)
    (keeps : LoadKeeps ctx) (records : List ManagerData) : Alike repo (dispatchManagers registry records repo).2 := by
  induction records generalizing repo with
  | nil => exact fun _ => rfl
  | cons m records ih => exact fun id => (ih id).trans (alike_dispatchManager known keeps m id)

theorem alike_dispatchAll (keeps : LoadKeeps ctx) (s : LoadState State) : Alike s.repo (dispatchAll ctx s).repo := by
  rw [dispatchAll]
  split
  · exact fun _ => rfl
  · rename_i registry known
    exact alike_dispatchManagers known keeps s.managers

/-- Objects with the same ID whose chunks are alike. -/
def SameObject (obj obj' : Object State) : Prop := obj'.id = obj.id ∧ tracked obj' = tracked obj

theorem sameObject_deserialize (keeps : LoadKeeps ctx) (obj : Object State) :
    SameObject obj (deserializeObject ctx.schemaRegistry obj).2 := by
  rw [deserializeObject_eq]
  cases readable : readableChunk obj with
  | none => exact ⟨rfl,rfl⟩
  | some chunk =>
    have start : tracked obj = some (chunk.ids,chunk.words) := by
      rw [readableChunk] at readable
      cases present : obj.chunk with
      | none => simp [present] at readable
      | some before =>
        rw [present] at readable
        dsimp only at readable
        split at readable
        · simp at readable
        · rw [← Option.some.inj readable,tracked,present]
          rfl
    dsimp only
    cases reader : classReader ctx.schemaRegistry obj.classId with
    | none => exact ⟨rfl,start.symm⟩
    | some read =>
      obtain ⟨ids,words⟩ := keeps.reads obj.classId read reader chunk
      dsimp only
      generalize read.run chunk = out at ids words
      obtain ⟨state | stop,after⟩ := out
      all_goals
        refine ⟨rfl,?_⟩
        rw [start,← ids,← words]
        rfl

theorem alike_sameObjects {objects objects' : List (Object State)} (same : List.Forall₂ SameObject objects objects')
    (id : UInt32) : ((objects'.find? fun obj => obj.id = id).map tracked) =
      (objects.find? fun obj => obj.id = id).map tracked := by
  induction same with
  | nil => rfl
  | @cons obj obj' objects objects' head _ ih =>
    rw [List.find?_cons,List.find?_cons,head.1]
    by_cases found : obj.id = id
    · simp [found,head.2]
    · simp only [found,decide_false]
      exact ih

theorem alike_deserialize (keeps : LoadKeeps ctx) : Alike repo (deserializeObjects ctx.schemaRegistry repo) :=
  alike_sameObjects (forall₂_skipNext (fun _ => ⟨rfl,rfl⟩) (sameObject_deserialize keeps) repo.objects)

end Keeping

end Libnmo.App
