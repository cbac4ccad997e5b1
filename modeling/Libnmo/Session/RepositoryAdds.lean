import Libnmo.Lib.Machine
import Libnmo.Session.RepositoryOps

/-! Adds over a whole run of a repository. An object that comes without an ID takes
the next of the counter, which an object that came with its own may already have. -/
namespace Libnmo.Session
open Core Format Lib

section Tables
variable {σ : Type} {undo : σ → σ} {s : σ}

@[simp] theorem refusedBy_none : (refusedBy none undo).run s = (.ok (),s) := rfl

@[simp] theorem refusedBy_some (code : ErrorCode) :
    (refusedBy (some code) undo).run s = (.error (.error code ""),undo s) := rfl

variable (table : List (List UInt8 × UInt32)) (name : List UInt8) (id : UInt32)

theorem erased_replaced :
    (table.map fun entry => if entry.1 = name then (name,id) else entry).filter (fun entry => entry.1 ≠ name) =
      table.filter fun entry => entry.1 ≠ name := by
  induction table with
  | nil => rfl
  | cons entry rest ih =>
    rw [List.map_cons,List.filter_cons,List.filter_cons,ih]
    by_cases here : entry.1 = name
    · simp [here]
    · simp [here]

theorem eraseName_insertName : eraseName (insertName table name id) name = eraseName table name := by
  by_cases unnamed : name = []
  · simp only [eraseName,insertName,if_pos unnamed]
  · simp only [eraseName,insertName,if_neg unnamed]
    split
    · exact erased_replaced table name id
    · rw [List.filter_append]
      simp

theorem eraseName_eq_self : eraseName table name = table ↔
    (name ≠ [] → table.find? (fun entry => entry.1 = name) = none) := by
  by_cases unnamed : name = []
  · simp [eraseName,unnamed]
  · simp [eraseName,unnamed,List.filter_eq_self]

end Tables

variable {State : Type}

section Steps
variable {repo : ObjectRepository State} {obj : Object State} {calls : AddCalls}

theorem contains_false : repo.contains obj.id = false ↔ ∀ other ∈ repo.objects, other.id ≠ obj.id := by
  simp [ObjectRepository.contains]

/-- Every call before the update of the index is granted. -/
structure Reaches (calls : AddCalls) (repo : ObjectRepository State) (obj : Object State) : Prop where
  probes : calls.probes = true
  absent : repo.contains obj.id = false
  idMap : calls.idMap = none
  nameTable : cString obj.name ≠ [] → calls.nameTable = none

/-- The repository once the object is in both tables. -/
def ObjectRepository.store (repo : ObjectRepository State) (obj : Object State) : ObjectRepository State :=
  (repo.keep obj).enterName (cString obj.name) obj.id

theorem drop_keep (absent : repo.contains obj.id = false) : (repo.keep obj).drop obj.id = repo := by
  rw [ObjectRepository.drop,ObjectRepository.keep,removeKey_concat _ (contains_false.mp absent)]

theorem drop_store (absent : repo.contains obj.id = false) :
    ((repo.store obj).leaveName (cString obj.name)).drop obj.id = repo.leaveName (cString obj.name) := by
  simp only [ObjectRepository.store,ObjectRepository.keep,ObjectRepository.drop,ObjectRepository.enterName,
    ObjectRepository.leaveName,eraseName_insertName,removeKey_concat _ (contains_false.mp absent)]

theorem place_refused (early : ¬ Reaches calls repo obj) :
    ∃ stop, (objectRepositoryPlace calls).run ⟨repo,obj⟩ = (.error stop,⟨repo,obj⟩) := by
  rw [objectRepositoryPlace,Action.bind_ok _ (Action.read_apply ..)]
  by_cases probes : calls.probes = true
  · rw [if_pos probes,Action.bind_ok _ (Action.pure_apply ..),Action.bind_ok _ (Action.read_apply ..)]
    by_cases present : repo.contains obj.id = true
    · rw [if_pos present,Action.bind_error _ rfl]
      exact ⟨_,rfl⟩
    · rw [if_neg present,Action.bind_ok _ (Action.pure_apply ..)]
      rw [Bool.not_eq_true] at present
      cases idMap : calls.idMap with
      | some code =>
        rw [Action.bind_error _ (refusedBy_some code)]
        exact ⟨_,rfl⟩
      | none =>
        rw [Action.bind_ok _ refusedBy_none,Action.bind_ok _ (Action.update_apply ..)]
        by_cases unnamed : cString obj.name = []
        · exact absurd ⟨probes,present,idMap,fun named => absurd unnamed named⟩ early
        · rw [if_neg unnamed]
          cases nameTable : calls.nameTable with
          | none => exact absurd ⟨probes,present,idMap,fun _ => nameTable⟩ early
          | some code =>
            rw [Action.bind_error _ (Action.bind_error _ (refusedBy_some code))]
            refine ⟨_,Prod.ext rfl ?_⟩
            rw [Adding.onRepo,Adding.onRepo,drop_keep present]
  · rw [if_neg probes,Action.bind_error _ rfl]
    exact ⟨_,rfl⟩

theorem place_reached (reaches : Reaches calls repo obj) : (objectRepositoryPlace calls).run ⟨repo,obj⟩ =
    (refusedBy calls.index (Adding.onRepo fun repo => (repo.leaveName (cString obj.name)).drop obj.id)).run
      ⟨repo.store obj,obj⟩ := by
  rw [objectRepositoryPlace,Action.bind_ok _ (Action.read_apply ..),if_pos reaches.probes,
    Action.bind_ok _ (Action.pure_apply ..),Action.bind_ok _ (Action.read_apply ..),reaches.absent,if_neg nofun,
    Action.bind_ok _ (Action.pure_apply ..),reaches.idMap,Action.bind_ok _ refusedBy_none,
    Action.bind_ok _ (Action.update_apply ..)]
  by_cases unnamed : cString obj.name = []
  · have same : repo.store obj = repo.keep obj := by
      rw [ObjectRepository.store,ObjectRepository.enterName,insertName,if_pos unnamed]
    rw [if_pos unnamed,Action.bind_ok _ (Action.pure_apply ..),same]
    rfl
  · rw [if_neg unnamed,reaches.nameTable unnamed,Action.bind_ok _ (Action.bind_ok _ refusedBy_none)]
    rfl

theorem place_done (reaches : Reaches calls repo obj) (index : calls.index = none) :
    (objectRepositoryPlace calls).run ⟨repo,obj⟩ = (.ok (),⟨repo.store obj,obj⟩) := by
  rw [place_reached reaches,index,refusedBy_none]

theorem place_undone (reaches : Reaches calls repo obj) {code : ErrorCode} (index : calls.index = some code) :
    (objectRepositoryPlace calls).run ⟨repo,obj⟩ =
      (.error (.error code ""),⟨repo.leaveName (cString obj.name),obj⟩) := by
  rw [place_reached reaches,index,refusedBy_some,Adding.onRepo,drop_store reaches.absent]

/-- The object as it is stored: one without an ID takes that of the counter. -/
def ObjectRepository.numbered (repo : ObjectRepository State) (obj : Object State) : Object State :=
  if obj.id = 0 then { obj with id := repo.nextRuntimeId } else obj

/-- The repository once the object has its ID. -/
def ObjectRepository.counted (repo : ObjectRepository State) (obj : Object State) : ObjectRepository State :=
  if obj.id = 0 then (objectRepositoryAllocateId.run repo).2 else repo

theorem counted_objects : (repo.counted obj).objects = repo.objects := by
  rw [ObjectRepository.counted]
  split <;> rfl

theorem reaches_counted {other : Object State} :
    Reaches calls (repo.counted obj) other ↔ Reaches calls repo other := by
  have same : (repo.counted obj).contains other.id = repo.contains other.id := by
    rw [ObjectRepository.contains,ObjectRepository.contains,counted_objects]
  exact ⟨fun ⟨probes,absent,idMap,nameTable⟩ => ⟨probes,same ▸ absent,idMap,nameTable⟩,
    fun ⟨probes,absent,idMap,nameTable⟩ => ⟨probes,same.symm ▸ absent,idMap,nameTable⟩⟩

theorem counter_allocated : (objectRepositoryAllocateId.run repo).2.nextRuntimeId ≠ 0 := by
  rw [objectRepositoryAllocateId]
  dsimp only
  split
  · nofun
  · assumption

variable (counter : repo.nextRuntimeId ≠ 0)
include counter

theorem add_numbered (calls : AddCalls) : (objectRepositoryAddWith calls).run ⟨repo,obj⟩ =
    (objectRepositoryPlace calls).run ⟨repo.counted obj,repo.numbered obj⟩ := by
  rw [objectRepositoryAddWith,Action.bind_ok _ (Action.read_apply ..),ObjectRepository.counted,
    ObjectRepository.numbered]
  by_cases unnumbered : obj.id = 0
  · have assigned : assignId.run ⟨repo,obj⟩ =
        (.ok (),⟨(objectRepositoryAllocateId.run repo).2,{ obj with id := repo.nextRuntimeId }⟩) := rfl
    rw [if_pos unnumbered,if_pos unnumbered,if_pos unnumbered]
    apply Action.bind_ok
    rw [Action.bind_ok _ assigned,Action.bind_ok _ (Action.read_apply ..),if_neg counter,Action.pure_apply]
  · rw [if_neg unnumbered,if_neg unnumbered,if_neg unnumbered,Action.bind_ok _ (Action.pure_apply ..)]

theorem counter_counted (obj : Object State) : (repo.counted obj).nextRuntimeId ≠ 0 := by
  rw [ObjectRepository.counted]
  split
  · exact counter_allocated
  · exact counter

/-- The ways an add can end. -/
theorem add_cases (obj : Object State) (calls : AddCalls) :
    (¬ Reaches calls repo (repo.numbered obj) ∧ ∃ stop,
      (objectRepositoryAddWith calls).run ⟨repo,obj⟩ = (.error stop,⟨repo.counted obj,repo.numbered obj⟩)) ∨
    (Reaches calls repo (repo.numbered obj) ∧ calls.index ≠ none ∧ ∃ stop,
      (objectRepositoryAddWith calls).run ⟨repo,obj⟩ =
        (.error stop,⟨(repo.counted obj).leaveName (cString obj.name),repo.numbered obj⟩)) ∨
    (Reaches calls repo (repo.numbered obj) ∧ calls.index = none ∧
      (objectRepositoryAddWith calls).run ⟨repo,obj⟩ =
        (.ok (),⟨(repo.counted obj).store (repo.numbered obj),repo.numbered obj⟩)) := by
  have name : (repo.numbered obj).name = obj.name := by
    rw [ObjectRepository.numbered]
    split <;> rfl
  rw [add_numbered counter]
  by_cases reaches : Reaches calls repo (repo.numbered obj)
  · have placed : Reaches calls (repo.counted obj) (repo.numbered obj) := reaches_counted.mpr reaches
    cases index : calls.index with
    | none => exact .inr (.inr ⟨reaches,rfl,place_done placed index⟩)
    | some code =>
      have undone := place_undone placed index
      rw [name] at undone
      exact .inr (.inl ⟨reaches,nofun,_,undone⟩)
  · exact .inl ⟨reaches,place_refused (reaches_counted.not.mpr reaches)⟩

end Steps

section Runs

/-- An object without an ID gets one that no stored object has, and an add that does
not succeed changes neither the repository nor the object. -/
structure AddSound (repo : ObjectRepository State) (obj : Object State) (calls : AddCalls) : Prop where
  fresh : obj.id = 0 → (∃ id, id ≠ 0 ∧ repo.contains id = false) → ∃ after,
    (objectRepositoryAddWith calls).run ⟨repo,obj⟩ = (.ok (),after) ∧ after.obj.id ≠ 0 ∧
      repo.contains after.obj.id = false ∧ after.repo.find after.obj.id = some after.obj
  unchanged : ((objectRepositoryAddWith calls).run ⟨repo,obj⟩).1 ≠ .ok () →
    ((objectRepositoryAddWith calls).run ⟨repo,obj⟩).2 = ⟨repo,obj⟩

/-- No call of an add that assigns an ID is refused, the counter being that of no
stored object, and an update of the index only for a name that finds no object. -/
structure AddClean (repo : ObjectRepository State) (obj : Object State) (calls : AddCalls) : Prop where
  automatic : obj.id = 0 → Reaches calls repo (repo.numbered obj) ∧ calls.index = none
  explicit : obj.id ≠ 0 → Reaches calls repo obj → calls.index ≠ none →
    cString obj.name ≠ [] → objectRepositoryFindByName repo obj.name = none

variable {repo : ObjectRepository State} {obj : Object State} {calls : AddCalls}

theorem find_store (absent : repo.contains obj.id = false) : (repo.store obj).find obj.id = some obj := by
  have none : repo.objects.find? (fun other => other.id = obj.id) = none := by
    simpa using contains_false.mp absent
  simp [ObjectRepository.find,ObjectRepository.store,ObjectRepository.keep,ObjectRepository.enterName,
    List.find?_append,none]

theorem leaveName_eq_self : repo.leaveName (cString obj.name) = repo ↔
    (cString obj.name ≠ [] → objectRepositoryFindByName repo obj.name = none) := by
  rw [objectRepositoryFindByName,Option.map_eq_none_iff,← eraseName_eq_self]
  constructor
  · intro same
    exact congrArg ObjectRepository.nameTable same
  · intro same
    rw [ObjectRepository.leaveName,same]

theorem numbered_ne (counter : repo.nextRuntimeId ≠ 0) (unnumbered : obj.id = 0) : repo.numbered obj ≠ obj := by
  intro same
  rw [ObjectRepository.numbered,if_pos unnumbered] at same
  have id : repo.nextRuntimeId = obj.id := congrArg Object.id same
  exact counter (id.trans unnumbered)

theorem addSound_iff (counter : repo.nextRuntimeId ≠ 0) : AddSound repo obj calls ↔ AddClean repo obj calls := by
  by_cases unnumbered : obj.id = 0
  · have changed := numbered_ne counter unnumbered
    rcases add_cases counter obj calls with ⟨early,_,ran⟩ | ⟨reaches,refused,_,ran⟩ | ⟨reaches,index,ran⟩
    · constructor
      · intro ⟨_,unchanged⟩
        rw [ran] at unchanged
        exact absurd (congrArg Adding.obj (unchanged nofun)) changed
      · intro ⟨automatic,_⟩
        exact absurd (automatic unnumbered).1 early
    · constructor
      · intro ⟨_,unchanged⟩
        rw [ran] at unchanged
        exact absurd (congrArg Adding.obj (unchanged nofun)) changed
      · intro ⟨automatic,_⟩
        exact absurd (automatic unnumbered).2 refused
    · refine ⟨fun _ => ⟨fun _ => ⟨reaches,index⟩,fun given => absurd unnumbered given⟩,fun _ => ⟨fun _ _ => ?_,?_⟩⟩
      · have valid : (repo.numbered obj).id ≠ 0 := by
          rw [ObjectRepository.numbered,if_pos unnumbered]
          exact counter
        exact ⟨_,ran,valid,reaches.absent,find_store (reaches_counted.mpr reaches).absent⟩
      · rw [ran]
        exact fun failed => absurd rfl failed
  · have same : repo.numbered obj = obj := if_neg unnumbered
    have still : repo.counted obj = repo := if_neg unnumbered
    have cases := add_cases counter obj calls
    rw [same,still] at cases
    rcases cases with ⟨early,_,ran⟩ | ⟨reaches,refused,_,ran⟩ | ⟨reaches,index,ran⟩
    · refine ⟨fun _ => ⟨fun given => absurd given unnumbered,fun _ reaches => absurd reaches early⟩,fun _ => ?_⟩
      exact ⟨fun given => absurd given unnumbered,fun _ => congrArg Prod.snd ran⟩
    · constructor
      · intro ⟨_,unchanged⟩
        rw [ran] at unchanged
        have kept := leaveName_eq_self.mp (congrArg Adding.repo (unchanged nofun))
        exact ⟨fun given => absurd given unnumbered,fun _ _ _ => kept⟩
      · intro ⟨_,explicit⟩
        have kept := leaveName_eq_self.mpr (explicit unnumbered reaches refused)
        refine ⟨fun given => absurd given unnumbered,fun _ => ?_⟩
        rw [ran,kept]
    · refine ⟨fun _ => ⟨fun given => absurd given unnumbered,fun _ _ refused => absurd index refused⟩,fun _ => ?_⟩
      refine ⟨fun given => absurd given unnumbered,fun failed => ?_⟩
      rw [ran] at failed
      exact absurd rfl failed

/-- A removal that goes through takes the entry of the object's name along. -/
theorem remove_cases (id : UInt32) (refused : Option ErrorCode) :
    ((refused = none → repo.find id = none) ∧ repositoryStep repo (.remove id refused) = repo) ∨
    ∃ obj, repo.find id = some obj ∧ refused = none ∧
      repositoryStep repo (.remove id refused) = (repo.leaveName (cString obj.name)).drop id := by
  rw [repositoryStep,objectRepositoryRemove,Action.bind_ok _ (Action.read_apply ..)]
  cases found : repo.find id with
  | none => exact .inl ⟨fun _ => rfl,rfl⟩
  | some obj =>
    cases refused with
    | some code => exact .inl ⟨nofun,rfl⟩
    | none => exact .inr ⟨obj,rfl,rfl,rfl⟩

theorem clear_created (refused : Option ErrorCode) : repositoryStep repo (.clear refused) = {} := by
  cases refused <;> rfl

theorem counter_step (repo : ObjectRepository State) (op : RepositoryOp State) (counter : repo.nextRuntimeId ≠ 0) :
    (repositoryStep repo op).nextRuntimeId ≠ 0 := by
  cases op with
  | add obj calls =>
    have counted : (repo.counted obj).nextRuntimeId ≠ 0 := counter_counted counter obj
    rw [repositoryStep]
    rcases add_cases counter obj calls with ⟨_,_,ran⟩ | ⟨_,_,_,ran⟩ | ⟨_,_,ran⟩
    all_goals
      rw [ran]
      exact counted
  | remove id refused =>
    rcases remove_cases id refused with ⟨_,same⟩ | ⟨obj,_,_,removed⟩
    · rwa [same]
    · rw [removed]
      exact counter
  | clear refused =>
    rw [clear_created]
    nofun

theorem adds_sound_iff (ops : List (RepositoryOp State)) :
    (∀ repo obj calls, (repo,.add obj calls) ∈ Machine.visits repositoryStep {} ops → AddSound repo obj calls) ↔
      ∀ repo obj calls, (repo,.add obj calls) ∈ Machine.visits repositoryStep {} ops → AddClean repo obj calls := by
  have counter := Machine.visits_keep counter_step (s := ({} : ObjectRepository State)) nofun ops
  constructor
  · intro sound repo obj calls member
    exact (addSound_iff (counter _ member)).mp (sound repo obj calls member)
  · intro clean repo obj calls member
    exact (addSound_iff (counter _ member)).mpr (clean repo obj calls member)

end Runs

/-- The counter starts at an ID that the first object brings along. -/
theorem taken_counter : ¬ ∀ repo obj calls, (repo,.add obj calls) ∈ Machine.visits repositoryStep
    {} [.add ({ id := 1, classId := 0 } : Object Unit) {},.add { classId := 0 } {}] → AddSound repo obj calls := by
  intro sound
  have second := sound _ _ _ (List.mem_cons_of_mem _ (List.mem_cons_self ..))
  obtain ⟨after,ran,_⟩ := second.fresh rfl ⟨2,nofun,rfl⟩
  cases ran

section Granted
variable (repo : ObjectRepository State) (obj : Object State)

theorem place_granted : (objectRepositoryPlace {}).run ⟨repo,obj⟩ =
    if repo.contains obj.id then (.error (.error .invalidState ""),⟨repo,obj⟩)
    else (.ok (),⟨repo.store obj,obj⟩) := by
  by_cases present : repo.contains obj.id = true
  · rw [if_pos present,objectRepositoryPlace,Action.bind_ok _ (Action.read_apply ..),if_pos rfl,
      Action.bind_ok _ (Action.pure_apply ..),Action.bind_ok _ (Action.read_apply ..),if_pos present]
    exact Action.bind_error _ rfl
  · rw [if_neg present]
    exact place_done ⟨rfl,Bool.not_eq_true _ ▸ present,rfl,fun _ => rfl⟩ rfl

/-- The ID of the object that an add leaves, with the repository. -/
def Adding.loaded (added : Result Unit × Adding State) : Result UInt32 × ObjectRepository State :=
  (added.1.map fun _ => added.2.obj.id,added.2.repo)

theorem loaded_place (valid : obj.id ≠ 0) : (do
    (if obj.id = 0 then fail .nomem "" else pure ())
    let present ← Action.read fun repo => repo.contains obj.id
    (if present then fail .invalidState "" else pure ())
    Action.update fun repo => { repo with
      objects := repo.objects ++ [{ obj with id := obj.id }]
      nameTable := insertName repo.nameTable (cString obj.name) obj.id }
    pure obj.id : Run (ObjectRepository State) UInt32).run repo =
      Adding.loaded ((objectRepositoryPlace {}).run ⟨repo,obj⟩) := by
  rw [place_granted,if_neg valid,Action.bind_ok _ (Action.pure_apply ..),Action.bind_ok _ (Action.read_apply ..)]
  split
  · exact Action.bind_error _ rfl
  · rfl

/-- Where every call is granted the add is that of a load. -/
theorem objectRepositoryAdd_granted (counter : repo.nextRuntimeId ≠ 0) : (objectRepositoryAdd obj).run repo =
    Adding.loaded ((objectRepositoryAddWith {}).run ⟨repo,obj⟩) := by
  rw [add_numbered counter,ObjectRepository.counted,ObjectRepository.numbered,objectRepositoryAdd]
  by_cases unnumbered : obj.id = 0
  · have allocated : objectRepositoryAllocateId.run repo =
        (.ok repo.nextRuntimeId,(objectRepositoryAllocateId.run repo).2) := rfl
    rw [if_pos unnumbered,if_pos unnumbered,if_pos unnumbered,Action.bind_ok _ allocated]
    exact loaded_place _ { obj with id := repo.nextRuntimeId } counter
  · rw [if_neg unnumbered,if_neg unnumbered,if_neg unnumbered,Action.bind_ok _ (Action.pure_apply ..)]
    exact loaded_place repo obj unnumbered

end Granted

end Libnmo.Session
