import Libnmo.Format.ChunkApi
import Libnmo.Lib.SkipLoop
import Libnmo.Schema.SchemaRegistry
import Libnmo.Session.ObjectRepository
import Libnmo.Format.Header1Objects

/-! The object phases of the load pipeline, from the descriptors of Header1 and the
records of the data section to the objects in the repository: creation, attachment
of chunks, remap of their IDs, dispatch to managers and deserialization. -/
namespace Libnmo.App
open Core Format Schema Session Lib

variable {State : Type}

structure LoadContext (State : Type) where
  managerRegistry : Option (List (Manager State)) := none
  schemaRegistry : SchemaRegistry State := {}

/-- `created_objects` has an entry for each descriptor so far: the created object, or none for a reference. -/
structure LoadState (State : Type) where
  repo : ObjectRepository State := {}
  session : LoadSession
  createdObjects : List (Option UInt32) := []
  managers : List ManagerData := []

def onRepo {α : Type} (action : Run (ObjectRepository State) α) : Run (LoadState State) α where
  run s :=
    let out := action.run s.repo
    (out.1,{ s with repo := out.2 })

def onSession {α : Type} (action : Run LoadSession α) : Run (LoadState State) α where
  run s :=
    let out := action.run s.session
    (out.1,{ s with session := out.2 })

def recordCreated (created : Option UInt32) : Run (LoadState State) Unit :=
  Action.update fun s => { s with createdObjects := s.createdObjects ++ [created] }

/-- One descriptor of phase 10. The test for a reference-only object is on the file ID. -/
def createObject (desc : ObjectDesc) : Run (LoadState State) Unit :=
  if hasFlag desc.fileId objectReferenceFlag then recordCreated none
  else do
    let id ← onRepo (objectRepositoryAdd { classId := desc.classId, name := desc.name, flags := desc.flags })
    onSession (loadSessionRegister id desc.fileId)
    recordCreated (some id)

def createObjects : List ObjectDesc → Run (LoadState State) Unit
  | [] => pure ()
  | desc :: rest => do
    createObject desc
    createObjects rest

/-- Phase 11, over the records and the descriptors that both exist. -/
def attachChunks (repo : ObjectRepository State) : List ObjectData → List (Option UInt32) → ObjectRepository State
  | record :: records,some id :: created =>
    attachChunks (repo.modify id fun obj => { obj with chunk := record.chunk }) records created
  | _ :: records,none :: created => attachChunks repo records created
  | _,_ => repo

/-- `nmo_chunk_remap_object_ids`, whose errors are counted and passed over. -/
def remappedChunk (table : IdRemap) (chunk : Chunk) : Chunk := ((chunkRemapObjectIds table).run chunk).2

/-- Phase 13 over the created objects. -/
def remapCreated (table : IdRemap) (repo : ObjectRepository State) : List (Option UInt32) → ObjectRepository State
  | [] => repo
  | none :: created => remapCreated table repo created
  | some id :: created =>
    remapCreated table (repo.modify id fun obj => { obj with chunk := obj.chunk.map (remappedChunk table) }) created

/-- Phases 12 and 13. -/
def remapIds (s : LoadState State) : LoadState State :=
  match buildRemapTable s.session with
  | none => s
  | some table => { s with
      repo := remapCreated table s.repo s.createdObjects
      managers := s.managers.map fun m => { m with chunk := m.chunk.map (remappedChunk table) } }

/-- What one manager makes of its chunk in phase 13b, and the flag that its record gets. -/
def dispatchManager (registry : List (Manager State)) (m : ManagerData) (repo : ObjectRepository State) :
    ManagerData × ObjectRepository State :=
  match managerRegistryFindByGuid registry m.guid with
  | none => (m,repo)
  | some manager => match manager.loadData,m.chunk with
    | some load,some chunk => match (load chunk).run repo with
      | (.ok (),repo') => ({ m with flags := m.flags ||| managerDataFlagDispatched },repo')
      | (.error _,repo') => ({ m with flags := m.flags ||| managerDataFlagError },repo')
    | _,_ => (m,repo)

def dispatchManagers (registry : List (Manager State)) :
    List ManagerData → ObjectRepository State → List ManagerData × ObjectRepository State
  | [],repo => ([],repo)
  | m :: rest,repo =>
    let first := dispatchManager registry m repo
    let others := dispatchManagers registry rest first.2
    (first.1 :: others.1,others.2)

/-- Phase 13b. -/
def dispatchAll (ctx : LoadContext State) (s : LoadState State) : LoadState State :=
  match ctx.managerRegistry with
  | none => s
  | some registry =>
    let out := dispatchManagers registry s.managers s.repo
    { s with managers := out.1, repo := out.2 }

/-- The body of the loop of phase 14. It reports whether it ran to its end, where the loop counter is
incremented once more; a state of size zero gets no memory. -/
def deserializeObject (registry : SchemaRegistry State) (obj : Object State) : Bool × Object State :=
  match obj.chunk with
  | none => (false,obj)
  | some chunk =>
    if chunk.words.length = 0 then (false,obj)
    else
      let chunk := (chunkStartRead.run chunk).2
      match ckclassGetNameById obj.classId with
      | none => (false,{ obj with chunk := some chunk })
      | some _ => match registry.findByClassIdInherited obj.classId with
        | none => (false,{ obj with chunk := some chunk })
        | some type => match type.vtable.bind SchemaVtable.read with
          | none => (false,{ obj with chunk := some chunk })
          | some read =>
            if type.size = 0 then (false,{ obj with chunk := some chunk })
            else match read.run chunk with
              | (.ok state,chunk) => (true,{ obj with chunk := some chunk, data := some state })
              | (.error _,chunk) => (true,{ obj with chunk := some chunk })

/-- Phase 14. -/
def deserializeObjects (registry : SchemaRegistry State) (repo : ObjectRepository State) : ObjectRepository State :=
  { repo with objects := skipNext (deserializeObject registry) repo.objects }

/-- Phases 10 to 13b. -/
def prepareObjects (ctx : LoadContext State) (descs : List ObjectDesc) (records : List ObjectData) :
    Run (LoadState State) Unit := do
  createObjects descs
  Action.update fun s => { s with repo := attachChunks s.repo records s.createdObjects }
  Action.update remapIds
  Action.update (dispatchAll ctx)

/-- Phases 10 to 14, which are passed over in a file without descriptors. -/
def loadObjects (ctx : LoadContext State) (descs : List ObjectDesc) (records : List ObjectData) :
    Run (LoadState State) Unit :=
  if descs.length = 0 then pure ()
  else do
    prepareObjects ctx descs records
    onRepo (Action.update (deserializeObjects ctx.schemaRegistry))

end Libnmo.App

/-! Which descriptors become objects. The parse of Header1 strips the mark of a
reference-only object from its ID, and the loader looks for the mark there, so it
creates an object for every descriptor. -/
namespace Libnmo.App
open Core Format Session Lib

variable {State : Type}

/-- The object created for a descriptor under a runtime ID. -/
def createdObject (id : UInt32) (desc : ObjectDesc) : Object State :=
  { id := id, classId := desc.classId, name := desc.name, flags := desc.flags }

/-- What phase 10 adds for a stretch of descriptors. -/
structure Created (s after : LoadState State) (ids : List UInt32) (descs : List ObjectDesc) : Prop where
  count : ids.length = descs.length
  created : after.createdObjects = s.createdObjects ++ ids.map some
  objects : after.repo.objects = s.repo.objects ++ List.zipWith createdObject ids descs

section
variable {s after : LoadState State}

theorem objectRepositoryAdd_success {obj : Object State} {repo repo' : ObjectRepository State} {id : UInt32}
    (ok : (objectRepositoryAdd obj).run repo = (.ok id,repo')) :
    repo'.objects = repo.objects ++ [{ obj with id := id }] := by
  obtain ⟨allocated,middle,first,rest⟩ := Action.bind_success ok
  have same : middle.objects = repo.objects := by
    split at first
    · simp only [objectRepositoryAllocateId,Prod.mk.injEq] at first
      rw [← first.2]
    · simp only [Action.pure_apply,Prod.mk.injEq] at first
      rw [← first.2]
  obtain ⟨_,rest⟩ := Action.check_success rest
  rw [Action.bind_ok _ (Action.read_apply _ _)] at rest
  obtain ⟨_,rest⟩ := Action.check_success rest
  rw [Action.bind_ok _ (Action.update_apply _ _),Action.pure_apply,Prod.mk.injEq,Except.ok.injEq] at rest
  obtain ⟨rfl,rfl⟩ := rest
  rw [same]

theorem onRepo_success {α : Type} {action : Run (ObjectRepository State) α} {value : α}
    (ok : (onRepo action).run s = (.ok value,after)) :
    ∃ repo, action.run s.repo = (.ok value,repo) ∧ after = { s with repo := repo } := by
  simp only [onRepo,Prod.mk.injEq] at ok
  exact ⟨(action.run s.repo).2,Prod.ext ok.1 rfl,ok.2.symm⟩

theorem onSession_success {α : Type} {action : Run LoadSession α} {value : α}
    (ok : (onSession action).run s = (.ok value,after)) : ∃ session, after = { s with session := session } := by
  simp only [onSession,Prod.mk.injEq] at ok
  exact ⟨_,ok.2.symm⟩

theorem createObject_success {desc : ObjectDesc} (plain : hasFlag desc.fileId objectReferenceFlag = false)
    (ok : (createObject desc).run s = (.ok (),after)) : ∃ id, Created s after [id] [desc] := by
  rw [createObject,plain,if_neg Bool.false_ne_true] at ok
  obtain ⟨id,_,first,ok⟩ := Action.bind_success ok
  obtain ⟨repo,added,rfl⟩ := onRepo_success first
  obtain ⟨_,_,second,ok⟩ := Action.bind_success ok
  obtain ⟨session,rfl⟩ := onSession_success second
  simp only [recordCreated,Action.update_apply,Prod.mk.injEq,true_and] at ok
  subst ok
  exact ⟨id,rfl,rfl,objectRepositoryAdd_success added⟩

theorem createObjects_success {descs : List ObjectDesc}
    (plain : ∀ desc ∈ descs, hasFlag desc.fileId objectReferenceFlag = false)
    (ok : (createObjects descs).run s = (.ok (),after)) : ∃ ids, Created s after ids descs := by
  induction descs generalizing s with
  | nil =>
    simp only [createObjects,Action.pure_apply,Prod.mk.injEq,true_and] at ok
    subst ok
    exact ⟨[],rfl,by simp,by simp⟩
  | cons desc descs ih =>
    obtain ⟨_,middle,first,rest⟩ := Action.bind_success ok
    obtain ⟨id,head⟩ := createObject_success (plain desc (by simp)) first
    obtain ⟨ids,tail⟩ := ih (fun other member => plain other (by simp [member])) rest
    refine ⟨id :: ids,by simp [tail.count],?_,?_⟩
    · rw [tail.created,head.created]
      simp
    · rw [tail.objects,head.objects]
      simp

end

/-- What a load makes of a descriptor: nothing for a reference-only object, else an object of its own. -/
def Treated (s after : LoadState State) (i : Nat) (stored : StoredDesc) : Prop :=
  if stored.referenceOnly then after.createdObjects[s.createdObjects.length + i]? = some none
  else ∃ id, after.createdObjects[s.createdObjects.length + i]? = some (some id) ∧
    createdObject id stored.parsed ∈ after.repo.objects

/-- Every descriptor is treated as it is marked, exactly when none is marked. -/
theorem treated_iff {data rest : List UInt8} {objectCount : UInt32} {header : Header1} {descs : List StoredDesc}
    {s after : LoadState State} (stored : data = descs.flatMap StoredDesc.bytes ++ rest)
    (count : descs.length = objectCount.toNat) (parsed : header1Parse data objectCount = .ok header)
    (ok : (createObjects header.objects).run s = (.ok (),after)) :
    (∀ i desc, descs[i]? = some desc → Treated s after i desc) ↔ ∀ desc ∈ descs, desc.referenceOnly = false := by
  subst stored
  rw [header1Parse_objects count parsed] at ok
  have plain : ∀ desc ∈ descs.map StoredDesc.parsed, hasFlag desc.fileId objectReferenceFlag = false := by
    simp only [List.forall_mem_map]
    exact fun desc _ => referenceFlag_parsed desc
  obtain ⟨ids,created⟩ := createObjects_success plain ok
  have length := created.count
  rw [List.length_map] at length
  have entry (i : Nat) : after.createdObjects[s.createdObjects.length + i]? = ids[i]?.map some := by
    rw [created.created,List.getElem?_append_right (Nat.le_add_right _ _),Nat.add_sub_cancel_left,List.getElem?_map]
  constructor
  · intro all desc member
    obtain ⟨i,found⟩ := List.mem_iff_getElem?.mp member
    by_contra marked
    have treated := all i desc found
    rw [Treated,if_pos (by simpa using marked),entry] at treated
    cases at_ : ids[i]? <;> simp [at_] at treated
  · intro unmarked i desc found
    have inside : i < ids.length := by
      rw [length]
      exact (List.getElem?_eq_some_iff.mp found).1
    rw [Treated,unmarked desc (List.mem_of_getElem? found),if_neg Bool.false_ne_true]
    have at_ := List.getElem?_eq_getElem inside
    refine ⟨ids[i],by rw [entry,at_]; rfl,?_⟩
    rw [created.objects]
    refine List.mem_append_right _ (List.mem_of_getElem? (i := i) ?_)
    rw [List.getElem?_zipWith,at_,List.getElem?_map,found]
    rfl

def emptyLoad : LoadState Unit := { session := loadSessionStart ({} : ObjectRepository Unit) 5 }

def plainDesc : StoredDesc := ⟨5,1,0,[65],by decide⟩

def plainHeader : Header1 := { objectCount := 1, objects := [plainDesc.parsed] }

theorem plain_treated :
    (∀ i desc, [plainDesc][i]? = some desc →
      Treated emptyLoad ((createObjects plainHeader.objects).run emptyLoad).2 i desc) ↔
      ∀ desc ∈ [plainDesc], desc.referenceOnly = false :=
  treated_iff (show _ = [plainDesc].flatMap StoredDesc.bytes ++ [] from rfl)
    (show [plainDesc].length = (1 : UInt32).toNat from rfl) (show _ = Except.ok plainHeader from rfl) rfl

/-- ID 5 with bit 23. -/
def markedDesc : StoredDesc := ⟨0x800005,1,0,[65],by decide⟩

def markedHeader : Header1 := { objectCount := 1, objects := [markedDesc.parsed] }

/-- The marked descriptor becomes an object. -/
theorem reference_created :
    header1Parse markedDesc.bytes 1 = .ok markedHeader ∧
      ((createObjects markedHeader.objects).run emptyLoad).1 = .ok () ∧
      ¬ ∀ i desc, [markedDesc][i]? = some desc →
        Treated emptyLoad ((createObjects markedHeader.objects).run emptyLoad).2 i desc := by
  refine ⟨rfl,rfl,fun all => ?_⟩
  have treated := all 0 markedDesc rfl
  rw [Treated,if_pos (by decide)] at treated
  exact absurd treated (by decide)

end Libnmo.App
