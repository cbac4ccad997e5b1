import Libnmo.Core.Error
import Libnmo.Format.ChunkRemap
import Libnmo.Format.Header1
import Libnmo.Format.DataSection

/-! Runtime objects, the repository that holds them and the load session that maps
file IDs to runtime IDs. The repository keeps its objects in the order of the dense
array of its map; a pointer to an object is the ID it is stored under. -/
namespace Libnmo.Session
open Core Format Lib

variable {State : Type}

structure Object (State : Type) where
  id : UInt32 := 0
  classId : UInt32
  name : List UInt8 := []
  flags : UInt32 := 0
  chunk : Option Chunk := none
  data : Option State := none
  saveFlags : UInt32 := 0
  typeGuid : Guid := ⟨0,0⟩
  /-- Whether the pointer to the name is set; it may be set to an empty name. -/
  named : Bool := name ≠ []

structure ObjectRepository (State : Type) where
  objects : List (Object State) := []
  nameTable : List (List UInt8 × UInt32) := []
  nextRuntimeId : UInt32 := 1

namespace ObjectRepository

def contains (repo : ObjectRepository State) (id : UInt32) : Bool := repo.objects.any fun obj => obj.id = id

def find (repo : ObjectRepository State) (id : UInt32) : Option (Object State) := repo.objects.find? fun obj => obj.id = id

/-- What is done through the pointer to the object with the ID. -/
def modify (repo : ObjectRepository State) (id : UInt32) (f : Object State → Object State) : ObjectRepository State :=
  { repo with objects := repo.objects.map fun obj => if obj.id = id then f obj else obj }

end ObjectRepository

/-- The counter skips the invalid ID when it wraps around. -/
def objectRepositoryAllocateId : Run (ObjectRepository State) UInt32 where
  run repo :=
    let next := repo.nextRuntimeId + 1
    (.ok repo.nextRuntimeId,{ repo with nextRuntimeId := if next = 0 then 1 else next })

/-- An entry for a name that has one replaces it. -/
def insertName (table : List (List UInt8 × UInt32)) (name : List UInt8) (id : UInt32) : List (List UInt8 × UInt32) :=
  if name = [] then table
  else if table.any fun entry => entry.1 = name then table.map fun entry => if entry.1 = name then (name,id) else entry
  else table ++ [(name,id)]

/-- The ID that the added object has. -/
def objectRepositoryAdd (obj : Object State) : Run (ObjectRepository State) UInt32 := do
  let id ← (if obj.id = 0 then objectRepositoryAllocateId else pure obj.id)
  (if id = 0 then fail .nomem "" else pure ())
  let present ← Action.read fun repo => repo.contains id
  (if present then fail .invalidState "" else pure ())
  Action.update fun repo => { repo with
    objects := repo.objects ++ [{ obj with id := id }]
    nameTable := insertName repo.nameTable (cString obj.name) id }
  pure id

structure LoadSession where
  savedIdMax : UInt32
  idBase : UInt32
  idMappings : List (UInt32 × UInt32) := []
  active : Bool := true

/-- The IDs of the session start after the largest in the repository. -/
def loadSessionStart (repo : ObjectRepository State) (maxSavedId : UInt32) : LoadSession where
  savedIdMax := maxSavedId
  idBase := if repo.objects.length > 0 then (repo.objects.map Object.id).foldl max 0 + 1 else 1

def loadSessionRegister (id fileId : UInt32) : Run LoadSession Unit where
  run session :=
    if ¬ session.active then (.error (.error .invalidArgument ""),session)
    else if session.idMappings.any fun mapping => mapping.1 = fileId then (.error (.error .invalidState ""),session)
    else (.ok (),{ session with idMappings := session.idMappings ++ [(fileId,id)] })

/-- `nmo_build_remap_table`: there is no table for a session without mappings. -/
def buildRemapTable (session : LoadSession) : Option IdRemap :=
  if session.idMappings.length = 0 then none
  else some (session.idMappings.foldl (fun remap mapping => idRemapAdd remap mapping.1 mapping.2) {})

def remapEntry (mapping : UInt32 × UInt32) : IdRemapEntry := ⟨mapping.1,mapping.2⟩

theorem foldl_idRemapAdd (mappings : List (UInt32 × UInt32)) (entries : List IdRemapEntry) :
    mappings.foldl (fun remap mapping => idRemapAdd remap mapping.1 mapping.2) ⟨entries⟩ =
      ⟨entries ++ mappings.map remapEntry⟩ := by
  induction mappings generalizing entries with
  | nil => rw [List.map_nil,List.append_nil,List.foldl_nil]
  | cons mapping rest ih =>
    rw [List.foldl_cons,idRemapAdd,ih,List.append_assoc]
    rfl

theorem buildRemapTable_entries {session : LoadSession} (some : session.idMappings ≠ []) :
    buildRemapTable session = Option.some ⟨session.idMappings.map remapEntry⟩ := by
  rw [buildRemapTable,if_neg fun empty => some (List.length_eq_zero_iff.mp empty)]
  exact congrArg Option.some (foldl_idRemapAdd session.idMappings [])

end Libnmo.Session

/-! The remap plan of a save: the object at index `i` of the list gets the file ID
`i`. -/
namespace Libnmo.Session
open Core Format

variable {State : Type}

/-- The entries for the objects from an index on. -/
def planFrom (remap : IdRemap) : Nat → List (Object State) → IdRemap
  | _,[] => remap
  | index,obj :: rest => planFrom (idRemapAdd remap obj.id (UInt32.ofNat index)) (index + 1) rest

/-- The table of the plan; there is no plan for an empty list. -/
def idRemapPlanCreate (objectsToSave : List (Object State)) : Option IdRemap :=
  if objectsToSave.length = 0 then none else some (planFrom {} 0 objectsToSave)

end Libnmo.Session

/-! Managers and the hooks they register. A hook is a function of its own; what it
does through the session is given by its effect on the objects. -/
namespace Libnmo.Session
open Core Format

variable {State : Type}

/-- The hooks of a load act on the repository; those of a save on the objects that are being saved. -/
structure Manager (State : Type) where
  guid : Guid
  loadData : Option (Chunk → Run (ObjectRepository State) Unit) := none
  preSave : Option (List (Object State) → Object State → Object State) := none
  saveData : Option (List (Object State) → Option Chunk × (Object State → Object State)) := none
  postLoad : Option (Run (ObjectRepository State) Unit) := none

def managerRegistryFindByGuid (registry : List (Manager State)) (guid : Guid) : Option (Manager State) :=
  registry.find? fun manager => manager.guid = guid

def managerDataFlagDispatched : UInt32 := 1
def managerDataFlagError : UInt32 := 2

end Libnmo.Session
