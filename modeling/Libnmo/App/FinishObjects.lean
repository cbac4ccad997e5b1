import Libnmo.App.DeserializedObjects

/-! The finish of a load object by object, in phase 15. It goes over the array that phase 14
has set, by a count that it asks for again, and hands data to the handler of groups by the
class of the object. Data is kept with the class whose reader made it. -/
namespace Libnmo.App
open Core Format Schema Session Lib

/-- The state of an object, and the class whose schema has read it. -/
structure Made (State : Type) where
  reader : UInt32
  value : State

variable {State : Type}

/-- The schema with its reader noted in what it reads. -/
def noteReader (reader : UInt32) (type : SchemaType State) : SchemaType (Made State) where
  size := type.size
  vtable := type.vtable.map fun vtable =>
    { read := vtable.read.map fun read => read >>= fun value => pure ⟨reader,value⟩
      write := vtable.write.map fun write made => write made.value }

def noteReaders (registry : SchemaRegistry State) : SchemaRegistry (Made State) where
  byClassId := registry.byClassId.map fun entry => (entry.1,noteReader entry.1 entry.2)

def cidGroup : UInt32 := 23

/-- The class that phase 15 takes for that of groups. -/
def finishedClass : UInt32 := 0x1E

/-- `nmo_object_repository_get_all`: the array by its length, none for an empty repository or without memory. -/
def repositoryGetAll (granted : Bool) (repo : ObjectRepository State) : Option Nat :=
  if repo.objects.length = 0 then none else if granted then some repo.objects.length else none

/-- Phases 10 to 14, and the array `objects` as they leave it: null, or never set in a file without descriptors. -/
def loadPhases (ctx : LoadContext State) (granted : Bool) (descs : List ObjectDesc) (records : List ObjectData) :
    Run (LoadState State) (Option Nat) :=
  if descs.length = 0 then pure none
  else do
    prepareObjects ctx descs records
    let objects ← Action.read fun s => repositoryGetAll granted s.repo
    (if objects = none then pure () else onRepo (Action.update (deserializeObjects ctx.schemaRegistry)))
    pure objects

/-- The objects that the phase meets, and those whose data goes to the handler of groups. -/
structure FinishPass (State : Type) where
  visited : List (Object State) := []
  handled : List (Object State) := []

/-- The loop of phase 15 from a place on, over the objects that the array has there. -/
def finishFrom (objects : Option Nat) : Nat → List (Object State) → Result (FinishPass State)
  | _,[] => .ok {}
  | i,obj :: rest =>
    if objects.getD 0 ≤ i then .error (.overread i)
    else do
      let others ← finishFrom objects (i + 1) rest
      pure {
        visited := obj :: others.visited
        handled := if obj.data.isSome ∧ obj.classId = finishedClass then obj :: others.handled else others.handled }

/-- Phase 15, with the count that the second call gives. -/
def finishObjects (objects : Option Nat) (granted : Bool) (repo : ObjectRepository State) : Result (FinishPass State) :=
  finishFrom objects 0 (repo.objects.take ((repositoryGetAll granted repo).getD 0))

section Pass
variable {objects : Option Nat} {granted : Bool} {repo : ObjectRepository State} {items : List (Object State)} {i : Nat}

/-- The data that the handler gets. -/
def handledObject (obj : Object State) : Bool := obj.data.isSome ∧ obj.classId = finishedClass

theorem finishFrom_ok (enough : i + items.length ≤ objects.getD 0) :
    finishFrom objects i items = .ok ⟨items,items.filter handledObject⟩ := by
  induction items generalizing i with
  | nil => rfl
  | cons obj rest ih =>
    rw [List.length_cons] at enough
    rw [finishFrom,if_neg (by omega),ih (by omega)]
    simp only [bind,Except.bind,pure,Except.pure,List.filter_cons,handledObject,decide_eq_true_eq]

end Pass

section Readers
variable {registry : SchemaRegistry State}

/-- The data of the groups, and no other, was made by their reader. -/
def OwnReaders (repo : ObjectRepository (Made State)) : Prop :=
  ∀ obj ∈ repo.objects, ∀ made ∈ obj.data, made.reader = cidGroup ↔ obj.classId = cidGroup

theorem classGetParent_group (classId : UInt32) : classGetParent classId ≠ cidGroup := by
  by_cases known : ∃ c ∈ ckClasses, c.classId = classId
  · obtain ⟨c,member,rfl⟩ := known
    have table : ∀ c ∈ ckClasses, classGetParent c.classId ≠ cidGroup := by decide +kernel
    exact table c member
  · rw [classGetParent_unknown fun c member same => known ⟨c,member,same⟩]
    decide

/-- No class derives from that of the groups. -/
theorem classAncestors_group (steps : Nat) (classId : UInt32) : cidGroup ∉ classAncestors steps classId := by
  induction steps generalizing classId with
  | zero => exact List.not_mem_nil
  | succ steps ih =>
    rw [classAncestors]
    split
    · exact List.not_mem_nil
    · exact fun member => (List.mem_cons.mp member).elim (fun same => classGetParent_group classId same.symm) (ih _)

theorem findByClassId_noted (classId : UInt32) :
    (noteReaders registry).findByClassId classId = (registry.findByClassId classId).map (noteReader classId) := by
  rw [SchemaRegistry.findByClassId,SchemaRegistry.findByClassId]
  split
  · rfl
  · rw [noteReaders]
    simp only
    induction registry.byClassId with
    | nil => rfl
    | cons entry rest ih =>
      rw [List.map_cons,List.lookup_cons,List.lookup_cons,ih]
      cases same : classId == entry.1 with
      | false => rfl
      | true =>
        rw [eq_of_beq same]
        rfl

/-- The reader that is found for a class notes that class, or one above it. -/
theorem classReader_noted {classId : UInt32} {read : Run Chunk (Made State)} (found : classReader (noteReaders registry) classId = some read) :
    ∃ reader ∈ classId :: classAncestors ckClasses.length classId,
      Action.Yields (fun made => made.reader = reader) read ∧ ((registry.findByClassId classId).isSome → reader = classId) := by
  rw [classReader] at found
  split at found
  · cases found
  split at found
  · cases found
  rename_i type inherited
  split at found
  · cases found
  have some_class : classId ≠ 0 := by
    rintro rfl
    cases inherited
  rw [findByClassIdInherited_eq _ _ some_class (Nat.le_refl _)] at inherited
  have noted {reader : UInt32} (here : (noteReaders registry).findByClassId reader = some type) :
      Action.Yields (fun made => made.reader = reader) read := by
    rw [findByClassId_noted] at here
    obtain ⟨bare,_,rfl⟩ := Option.map_eq_some_iff.mp here
    obtain ⟨vtable,there,reads⟩ := Option.bind_eq_some_iff.mp found
    obtain ⟨bare_vtable,_,rfl⟩ := Option.map_eq_some_iff.mp there
    obtain ⟨bare_read,_,rfl⟩ := Option.map_eq_some_iff.mp reads
    exact Action.yields_after fun value => Action.yields_pure rfl
  cases own : (noteReaders registry).findByClassId classId with
  | some same =>
    rw [List.findSome?_cons,own] at inherited
    exact ⟨classId,List.mem_cons_self,noted (own.trans inherited),fun _ => rfl⟩
  | none =>
    obtain ⟨reader,member,here⟩ := List.exists_of_findSome?_eq_some inherited
    refine ⟨reader,member,noted here,fun mapped => ?_⟩
    rw [findByClassId_noted] at own
    rw [Option.map_eq_none_iff.mp own] at mapped
    cases mapped

theorem ownReaders_modify {repo : ObjectRepository (Made State)} (own : OwnReaders repo) (id : UInt32)
    {f : Object (Made State) → Object (Made State)} (data : ∀ obj, (f obj).data = obj.data) (same : ∀ obj, (f obj).classId = obj.classId) :
    OwnReaders (repo.modify id f) := by
  intro obj member made there
  obtain ⟨old,here,rfl⟩ := List.mem_map.mp member
  by_cases changed : old.id = id
  · rw [if_pos changed,data] at there
    rw [if_pos changed,same]
    exact own old here made there
  · rw [if_neg changed] at there ⊢
    exact own old here made there

theorem deserializeObject_own (mapped : (registry.findByClassId cidGroup).isSome) (obj : Object (Made State))
    (own : ∀ made ∈ obj.data, made.reader = cidGroup ↔ obj.classId = cidGroup) :
    ∀ made ∈ (deserializeObject (noteReaders registry) obj).2.data,
      made.reader = cidGroup ↔ (deserializeObject (noteReaders registry) obj).2.classId = cidGroup := by
  rw [deserializeObject_eq]
  cases readableChunk obj with
  | none => exact own
  | some chunk =>
    cases found : classReader (noteReaders registry) obj.classId with
    | none => exact own
    | some read =>
      obtain ⟨reader,member,yields,nearest⟩ := classReader_noted found
      cases ran : read.run chunk with
      | mk outcome after =>
        simp only [ran]
        cases outcome with
        | error stop => exact own
        | ok made =>
          rintro _ ⟨⟩
          rw [yields _ _ _ ran]
          constructor
          · rintro rfl
            exact ((List.mem_cons.mp member).resolve_right (classAncestors_group _ _)).symm
          · intro group
            exact (nearest (group ▸ mapped)).trans group

theorem deserializeObjects_own (mapped : (registry.findByClassId cidGroup).isSome) {repo : ObjectRepository (Made State)}
    (own : OwnReaders repo) : OwnReaders (deserializeObjects (noteReaders registry) repo) := by
  have related := @forall₂_skipNext _ (deserializeObject (noteReaders registry)) (fun before after =>
      (∀ made ∈ before.data, made.reader = cidGroup ↔ before.classId = cidGroup) →
        ∀ made ∈ after.data, made.reader = cidGroup ↔ after.classId = cidGroup) (fun _ own => own)
    (deserializeObject_own mapped) repo.objects
  intro obj member
  obtain ⟨i,inside,rfl⟩ := List.mem_iff_getElem.mp member
  have inside' : i < repo.objects.length := related.length_eq.symm ▸ inside
  exact related.get inside' inside (own _ (List.getElem_mem inside'))

/-- The hooks of the managers leave the data of objects with its reader. -/
def HooksOwn (managers : Option (List (Manager (Made State)))) : Prop :=
  ∀ list ∈ managers, ∀ manager ∈ list, ∀ load ∈ manager.loadData, ∀ chunk, Action.Keeps OwnReaders (load chunk)

theorem objectRepositoryAdd_own {obj : Object (Made State)} (fresh : obj.data = none) : Action.Keeps OwnReaders (objectRepositoryAdd obj) := by
  refine Action.keeps_bind ?_ fun id => Action.keeps_bind ?_ fun _ => Action.keeps_bind (Action.keeps_read _) fun present =>
    Action.keeps_bind ?_ fun _ => Action.keeps_bind (Action.keeps_update _ ?_) fun _ => Action.keeps_pure _
  · split
    · exact fun repo own => own
    · exact Action.keeps_pure _
  · split
    · exact Action.keeps_stop _
    · exact Action.keeps_pure _
  · split
    · exact Action.keeps_stop _
    · exact Action.keeps_pure _
  · intro repo own other member
    rcases List.mem_append.mp member with old | new
    · exact own other old
    · obtain rfl := List.mem_singleton.mp new
      simp only [fresh]
      exact nofun

theorem createObjects_own (descs : List ObjectDesc) :
    Action.Keeps (fun s : LoadState (Made State) => OwnReaders s.repo) (createObjects descs) := by
  induction descs with
  | nil => exact Action.keeps_pure _
  | cons desc descs ih =>
    refine Action.keeps_bind ?_ fun _ => ih
    rw [createObject]
    split
    · exact fun s own => own
    · refine Action.keeps_bind ?_ fun id => Action.keeps_bind (fun s own => own) fun _ => fun s own => own
      exact fun s own => objectRepositoryAdd_own rfl s.repo own

theorem attachChunks_own {repo : ObjectRepository (Made State)} (own : OwnReaders repo) (records : List ObjectData)
    (created : List (Option UInt32)) : OwnReaders (attachChunks repo records created) := by
  induction repo, records, created using attachChunks.induct with
  | case1 repo record records id created ih =>
    rw [attachChunks]
    exact ih (ownReaders_modify own id (fun _ => rfl) fun _ => rfl)
  | case2 repo record records created ih =>
    rw [attachChunks]
    exact ih own
  | case3 repo records created one two =>
    rw [attachChunks]
    · exact own
    · exact one
    · exact two

theorem remapCreated_own (table : IdRemap) {repo : ObjectRepository (Made State)} (own : OwnReaders repo)
    (created : List (Option UInt32)) : OwnReaders (remapCreated table repo created) := by
  induction created generalizing repo with
  | nil => exact own
  | cons entry created ih =>
    cases entry with
    | none => exact ih own
    | some id => exact ih (ownReaders_modify own id (fun _ => rfl) fun _ => rfl)

theorem dispatchManagers_own {managers : List (Manager (Made State))} (hooks : HooksOwn (some managers)) (records : List ManagerData)
    {repo : ObjectRepository (Made State)} (own : OwnReaders repo) : OwnReaders (dispatchManagers managers records repo).2 := by
  induction records generalizing repo with
  | nil => exact own
  | cons record rest ih =>
    refine ih ?_
    rw [dispatchManager]
    cases found : managerRegistryFindByGuid managers record.guid with
    | none => exact own
    | some manager =>
      have member := List.mem_of_find?_eq_some found
      simp only
      split
      · rename_i load chunk there _
        have kept := hooks managers rfl manager member load there chunk repo own
        split <;> rename_i ran <;> rw [ran] at kept <;> exact kept
      · exact own

theorem prepareObjects_own (ctx : LoadContext (Made State)) (hooks : HooksOwn ctx.managerRegistry) (descs : List ObjectDesc)
    (records : List ObjectData) : Action.Keeps (fun s : LoadState (Made State) => OwnReaders s.repo) (prepareObjects ctx descs records) := by
  refine Action.keeps_bind (createObjects_own descs) fun _ => Action.keeps_bind (Action.keeps_update _ ?_) fun _ =>
    Action.keeps_bind (Action.keeps_update _ ?_) fun _ => Action.keeps_update _ ?_
  · exact fun s own => attachChunks_own own records s.createdObjects
  · intro s own
    rw [remapIds]
    split
    · exact own
    · exact remapCreated_own _ own _
  · intro s own
    rw [dispatchAll]
    split
    · exact own
    · rename_i managers there
      exact dispatchManagers_own (there ▸ hooks) s.managers own

/-- The phases leave the array of the objects that are there, or none, and the data with its readers. -/
theorem loadPhases_spec {managers : Option (List (Manager (Made State)))} (mapped : (registry.findByClassId cidGroup).isSome)
    (hooks : HooksOwn managers) {start after : LoadState (Made State)} (own : OwnReaders start.repo) {granted : Bool}
    {descs : List ObjectDesc} {records : List ObjectData} {objects : Option Nat}
    (loaded : (loadPhases ⟨managers,noteReaders registry⟩ granted descs records).run start = (.ok objects,after)) :
    OwnReaders after.repo ∧ objects = if descs = [] then none else repositoryGetAll granted after.repo := by
  rw [loadPhases] at loaded
  split at loaded
  · rename_i empty
    obtain ⟨same,rfl⟩ := Prod.mk.inj loaded
    exact ⟨own,by rw [if_pos (List.length_eq_zero_iff.mp empty),← Except.ok.inj same]⟩
  · rename_i some_there
    rw [if_neg fun empty => some_there (List.length_eq_zero_iff.mpr empty)]
    obtain ⟨_,ready,prepared,loaded⟩ := Action.bind_success loaded
    have ready_own : OwnReaders ready.repo := by
      have kept := prepareObjects_own ⟨managers,noteReaders registry⟩ hooks descs records start own
      rwa [prepared] at kept
    rw [Action.bind_ok _ (Action.read_apply _ _)] at loaded
    split at loaded
    · rename_i none_there
      obtain ⟨same,rfl⟩ := Prod.mk.inj loaded
      exact ⟨ready_own,(Except.ok.inj same).symm⟩
    · obtain ⟨same,rfl⟩ := Prod.mk.inj loaded
      refine ⟨deserializeObjects_own mapped ready_own,(Except.ok.inj same).symm.trans ?_⟩
      have length : (deserializeObjects (noteReaders registry) ready.repo).objects.length = ready.repo.objects.length :=
        (@forall₂_skipNext _ (deserializeObject (noteReaders registry)) (fun _ _ => True) (fun _ => trivial) (fun _ => trivial) _).length_eq.symm
      change _ = repositoryGetAll granted (deserializeObjects (noteReaders registry) ready.repo)
      rw [repositoryGetAll,repositoryGetAll,length]

end Readers

/-- The phase meets the objects of the repository, and hands over the data that the reader of groups made. -/
def FinishRight (objects : Option Nat) (granted : Bool) (repo : ObjectRepository (Made State)) : Prop :=
  ∃ pass, finishObjects objects granted repo = .ok pass ∧ pass.visited = repo.objects ∧
    ∀ obj ∈ repo.objects, obj ∈ pass.handled ↔ ∃ made ∈ obj.data, made.reader = cidGroup

/-- Every load that comes to phase 15 is finished right exactly when there is an array for the objects, and none of the
class 0x1E and no group has data. -/
theorem finishObjects_iff {registry : SchemaRegistry State} {managers : Option (List (Manager (Made State)))}
    (mapped : (registry.findByClassId cidGroup).isSome) (hooks : HooksOwn managers) {start after : LoadState (Made State)}
    (own : OwnReaders start.repo) {granted again : Bool} {descs : List ObjectDesc} {records : List ObjectData} {objects : Option Nat}
    (loaded : (loadPhases ⟨managers,noteReaders registry⟩ granted descs records).run start = (.ok objects,after)) :
    FinishRight objects again after.repo ↔ (after.repo.objects = [] ∨ (descs ≠ [] ∧ granted ∧ again)) ∧
      ∀ obj ∈ after.repo.objects, obj.data.isSome → obj.classId ≠ finishedClass ∧ obj.classId ≠ cidGroup := by
  obtain ⟨after_own,array⟩ := loadPhases_spec mapped hooks own loaded
  have groups {obj : Object (Made State)} (member : obj ∈ after.repo.objects) :
      (∃ made ∈ obj.data, made.reader = cidGroup) ↔ obj.data.isSome ∧ obj.classId = cidGroup := by
    constructor
    · rintro ⟨made,there,group⟩
      exact ⟨Option.isSome_iff_exists.mpr ⟨made,there⟩,(after_own obj member made there).mp group⟩
    · rintro ⟨some_there,group⟩
      obtain ⟨made,there⟩ := Option.isSome_iff_exists.mp some_there
      exact ⟨made,there,(after_own obj member made there).mpr group⟩
  by_cases empty : after.repo.objects = []
  · have ran : finishObjects objects again after.repo = .ok {} := by rw [finishObjects,empty,List.take_nil]; rfl
    refine iff_of_true ⟨_,ran,empty.symm,?_⟩ ⟨.inl empty,?_⟩
    · rw [empty]
      exact nofun
    · rw [empty]
      exact nofun
  have positive : after.repo.objects.length ≠ 0 := fun zero => empty (List.length_eq_zero_iff.mp zero)
  by_cases fetched : descs ≠ [] ∧ granted ∧ again
  · obtain ⟨some_descs,rfl,rfl⟩ := fetched
    rw [if_neg some_descs,repositoryGetAll,if_neg positive,if_pos rfl] at array
    subst array
    have ran : finishObjects (some after.repo.objects.length) true after.repo =
        .ok ⟨after.repo.objects,after.repo.objects.filter handledObject⟩ := by
      rw [finishObjects,repositoryGetAll,if_neg positive,if_pos rfl,Option.getD_some,List.take_length]
      exact finishFrom_ok (Nat.le_of_eq (Nat.zero_add _))
    rw [FinishRight,ran]
    constructor
    · rintro ⟨pass,same,_,right⟩
      obtain rfl := Except.ok.inj same
      refine ⟨.inr ⟨some_descs,rfl,rfl⟩,fun obj member some_there => ?_⟩
      have each := (right obj member).trans (groups member)
      rw [List.mem_filter,handledObject,decide_eq_true_eq] at each
      constructor
      · intro finished
        have group := (each.mp ⟨member,some_there,finished⟩).2
        rw [finished] at group
        exact absurd group (by decide)
      · intro group
        have finished := (each.mpr ⟨some_there,group⟩).2.2
        rw [group] at finished
        exact absurd finished (by decide)
    · rintro ⟨_,none_there⟩
      refine ⟨_,rfl,rfl,fun obj member => ?_⟩
      rw [groups member,List.mem_filter,handledObject,decide_eq_true_eq]
      exact iff_of_false (fun ⟨_,some_there,finished⟩ => (none_there obj member some_there).1 finished)
        fun ⟨some_there,group⟩ => (none_there obj member some_there).2 group
  · refine iff_of_false ?_ fun fine => fetched (fine.1.resolve_left empty)
    rintro ⟨pass,ran,visited,_⟩
    cases again with
    | false =>
      rw [finishObjects,repositoryGetAll,if_neg positive,if_neg Bool.false_ne_true] at ran
      rw [← Except.ok.inj ran] at visited
      exact empty visited.symm
    | true =>
      have unset : objects = none := by
        rw [array]
        split
        · rfl
        · rename_i some_descs
          rw [repositoryGetAll,if_neg positive,if_neg fun granted => fetched ⟨some_descs,granted,rfl⟩]
      rw [finishObjects,repositoryGetAll,if_neg positive,if_pos rfl,Option.getD_some,List.take_length,unset] at ran
      cases here : after.repo.objects with
      | nil => exact empty here
      | cons obj rest =>
        rw [here,finishFrom,Option.getD_none,if_pos (Nat.le_refl _)] at ran
        cases ran

/-- A schema for groups and one for their parent class. -/
def groupRegistry : SchemaRegistry UInt32 where
  byClassId := [(23,⟨4,some { read := some ⟨fun c => (.ok (c.words.headD 0),c)⟩ }⟩),
    (19,⟨4,some { read := some ⟨fun c => (.ok (c.words.headD 0),c)⟩ }⟩)]

def madeStart (repo : ObjectRepository (Made UInt32)) : LoadState (Made UInt32) := startLoad repo (loadSessionStart repo 2) []

/-- A file with one object of the class. -/
def loadOne (classId : UInt32) : Result (Option Nat) × LoadState (Made UInt32) :=
  (loadPhases ⟨none,noteReaders groupRegistry⟩ true [{ objectDesc 1 with classId := classId }] [wordRecord 7]).run (madeStart {})

theorem finishObjects_one : FinishRight (some 1) true (loadOne 19).2.repo ↔
    ((loadOne 19).2.repo.objects = [] ∨ ([{ objectDesc 1 with classId := 19 }] ≠ [] ∧ true = true ∧ true = true)) ∧
      ∀ obj ∈ (loadOne 19).2.repo.objects, obj.data.isSome → obj.classId ≠ finishedClass ∧ obj.classId ≠ cidGroup :=
  @finishObjects_iff UInt32 groupRegistry none rfl nofun (madeStart {}) (loadOne 19).2 nofun true true _ [wordRecord 7] (some 1) rfl

/-- The handler misses the one group, is given a material instead, and an array that was never set is read. -/
theorem finishObjects_wrong :
    (loadOne 23).1 = .ok (some 1) ∧ ¬ FinishRight (some 1) true (loadOne 23).2.repo ∧
    (loadOne 30).1 = .ok (some 1) ∧ ¬ FinishRight (some 1) true (loadOne 30).2.repo ∧
    (loadPhases ⟨none,noteReaders groupRegistry⟩ true [] []).run (madeStart (loadOne 19).2.repo) =
      (.ok none,madeStart (loadOne 19).2.repo) ∧ ¬ FinishRight none true (loadOne 19).2.repo := by
  refine ⟨rfl,?_,rfl,?_,rfl,?_⟩
  · rintro ⟨pass,ran,_,right⟩
    obtain rfl := Except.ok.inj ran
    exact List.not_mem_nil ((right _ List.mem_cons_self).mpr ⟨_,rfl,rfl⟩)
  · rintro ⟨pass,ran,_,right⟩
    obtain rfl := Except.ok.inj ran
    obtain ⟨_,⟨⟩,group⟩ := (right _ List.mem_cons_self).mp List.mem_cons_self
    exact absurd group (by decide)
  · rintro ⟨pass,ran,_⟩
    cases ran

end Libnmo.App
