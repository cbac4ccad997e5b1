import Libnmo.Session.RepositoryOps
import Mathlib.Logic.Function.Basic

/-! The object index of a repository: a table each for the classes, the names and the
GUIDs, with the objects of a key in an array. The repository tells the index that is
attached to it what it adds, removes and clears. -/
namespace Libnmo.Session
open Core Format Lib

variable {State : Type}

inductive IndexKind
  | byClass | byName | byGuid
  deriving DecidableEq

inductive IndexKey
  | classId (id : UInt32) | name (name : List UInt8) | guid (guid : Guid)
  deriving DecidableEq

def guidIsNull (guid : Guid) : Bool := guid.d1 = 0 && guid.d2 = 0

namespace IndexKind

/-- `nmo_index_build_flags_t`. -/
def flag : IndexKind → UInt32
  | byClass => 0x0001
  | byName => 0x0002
  | byGuid => 0x0004

/-- The capacity of a new array. -/
def arrayCapacity : IndexKind → Nat
  | byClass => 8
  | byName | byGuid => 4

/-- The key of an object, which has none without a name or with a null GUID. -/
def keyOf (kind : IndexKind) (obj : Object State) : Option IndexKey :=
  match kind with
  | byClass => some (.classId obj.classId)
  | byName => if cString obj.name = [] then none else some (.name (cString obj.name))
  | byGuid => if guidIsNull obj.typeGuid then none else some (.guid obj.typeGuid)

end IndexKind

def indexBuildAll : UInt32 := 0x0007

/-- The order in which the functions of the index take its tables. -/
def indexKinds : List IndexKind := [.byClass,.byName,.byGuid]

structure ObjectArray (State : Type) where
  objects : List (Object State) := []
  capacity : Nat

/-- A hash table whose entries point to arrays. -/
abbrev IndexTable (State : Type) := List (IndexKey × ObjectArray State)

structure ObjectIndex (State : Type) where
  activeIndexes : UInt32 := 0
  table : IndexKind → Option (IndexTable State) := fun _ => none

def ObjectIndex.setTable (index : ObjectIndex State) (kind : IndexKind) (table : Option (IndexTable State)) :
    ObjectIndex State :=
  { index with table := Function.update index.table kind table }

/-- Whether a new array is allocated, the table takes it, and a full array grows. -/
structure EntryCalls where
  array : Bool := true
  insert : Bool := true
  grow : Bool := true

section Arrays

def ObjectArray.full (arr : ObjectArray State) : Bool := arr.objects.length ≥ arr.capacity

def objectArrayAdd (grow : Bool) (obj : Object State) : Run (ObjectArray State) Unit where
  run arr :=
    if arr.full then
      if grow then (.ok (),⟨arr.objects ++ [obj],arr.capacity * 2⟩) else (.error (.error .nomem ""),arr)
    else (.ok (),{ arr with objects := arr.objects ++ [obj] })

/-- The first object with the ID leaves, and those behind it move up. -/
def objectArrayRemove (id : UInt32) (arr : ObjectArray State) : ObjectArray State :=
  { arr with objects := arr.objects.eraseP fun obj => obj.id = id }

end Arrays

section Tables

def tableGet (table : IndexTable State) (key : IndexKey) : Option (ObjectArray State) :=
  (table.find? fun entry => entry.1 = key).map Prod.snd

/-- The array that the table points to for the key is changed. -/
def tableSet (table : IndexTable State) (key : IndexKey) (arr : ObjectArray State) : IndexTable State :=
  table.map fun entry => if entry.1 = key then (key,arr) else entry

/-- Nobody looks whether the table takes a new array; the object goes to it in any case. -/
def enterKey (kind : IndexKind) (calls : EntryCalls) (key : IndexKey) (obj : Object State) :
    Run (IndexTable State) Unit where
  run table := match tableGet table key with
    | none =>
      if ¬ calls.array then (.error (.error .nomem ""),table)
      else
        let (outcome,arr) := (objectArrayAdd calls.grow obj).run { capacity := kind.arrayCapacity }
        (outcome,if calls.insert then table ++ [(key,arr)] else table)
    | some arr =>
      let (outcome,arr) := (objectArrayAdd calls.grow obj).run arr
      (outcome,tableSet table key arr)

def enterObject (kind : IndexKind) (calls : EntryCalls) (obj : Object State) : Run (IndexTable State) Unit :=
  match kind.keyOf obj with
  | none => pure ()
  | some key => enterKey kind calls key obj

def leaveObject (kind : IndexKind) (id : UInt32) (obj : Object State) : Run (IndexTable State) Unit :=
  Action.update fun table => match kind.keyOf obj with
    | none => table
    | some key => match tableGet table key with
      | none => table
      | some arr => tableSet table key (objectArrayRemove id arr)

end Tables

section Building

/-- Whether the table is created, the list of the repository's objects allocated, and each object entered. -/
structure BuildCalls where
  table : Bool := true
  listed : Bool := true
  entries : Nat → EntryCalls := fun _ => {}

def enterAll (kind : IndexKind) (calls : Nat → EntryCalls) : Nat → List (Object State) → Run (IndexTable State) Unit
  | _,[] => pure ()
  | i,obj :: rest => do
    enterObject kind (calls i) obj
    enterAll kind calls (i + 1) rest

/-- The flag is set only when every object was entered. -/
def buildIndex (kind : IndexKind) (calls : BuildCalls) (objects : List (Object State)) :
    Run (ObjectIndex State) Unit where
  run index :=
    if ¬ calls.table then (.error (.error .nomem ""),index.setTable kind none)
    else match (enterAll kind calls.entries 0 (if calls.listed then objects else [])).run [] with
      | (.ok (),table) => (.ok (),{ index.setTable kind (some table) with
          activeIndexes := index.activeIndexes ||| kind.flag })
      | (.error stop,table) => (.error stop,index.setTable kind (some table))

def buildClassIndex (calls : BuildCalls) (objects : List (Object State)) : Run (ObjectIndex State) Unit :=
  buildIndex .byClass calls objects

def buildNameIndex (calls : BuildCalls) (objects : List (Object State)) : Run (ObjectIndex State) Unit :=
  buildIndex .byName calls objects

def buildGuidIndex (calls : BuildCalls) (objects : List (Object State)) : Run (ObjectIndex State) Unit :=
  buildIndex .byGuid calls objects

end Building

section Index

/-- What is done for each table that the flags name. -/
def eachKind (flags : UInt32) (action : IndexKind → Run (ObjectIndex State) Unit) :
    List IndexKind → Run (ObjectIndex State) Unit
  | [] => pure ()
  | kind :: rest => do
    (if flags &&& kind.flag ≠ 0 then action kind else pure ())
    eachKind flags action rest

/-- What is done with a table that there is. -/
def onTable (kind : IndexKind) (action : Run (IndexTable State) Unit) : Run (ObjectIndex State) Unit where
  run index := match index.table kind with
    | none => (.ok (),index)
    | some table =>
      let (outcome,table) := action.run table
      (outcome,index.setTable kind (some table))

def objectIndexBuild (calls : IndexKind → BuildCalls) (objects : List (Object State)) (flags : UInt32) :
    Run (ObjectIndex State) Unit :=
  eachKind flags (fun
    | .byClass => buildClassIndex (calls .byClass) objects
    | .byName => buildNameIndex (calls .byName) objects
    | .byGuid => buildGuidIndex (calls .byGuid) objects) indexKinds

/-- A table that is destroyed is not kept up any more. -/
def clearTable (kind : IndexKind) : Run (ObjectIndex State) Unit :=
  Action.update fun index => match index.table kind with
    | none => index
    | some _ => { index.setTable kind none with activeIndexes := index.activeIndexes &&& ~~~kind.flag }

def objectIndexClear (flags : UInt32) : Run (ObjectIndex State) Unit := eachKind flags clearTable indexKinds

def objectIndexRebuild (calls : IndexKind → BuildCalls) (objects : List (Object State)) (flags : UInt32) :
    Run (ObjectIndex State) Unit := do
  objectIndexClear flags
  objectIndexBuild calls objects flags

def objectIndexAddObject (calls : IndexKind → EntryCalls) (obj : Object State) (flags : UInt32) :
    Run (ObjectIndex State) Unit :=
  eachKind flags (fun kind => onTable kind (enterObject kind (calls kind) obj)) indexKinds

def objectIndexRemoveObject (repo : ObjectRepository State) (id : UInt32) (flags : UInt32) :
    Run (ObjectIndex State) Unit :=
  match repo.find id with
  | none => fail .notFound ""
  | some obj => eachKind flags (fun kind => onTable kind (leaveObject kind id obj)) indexKinds

end Index

section Attached

/-- A repository and the index that is attached to it. -/
structure Attached (State : Type) where
  repo : ObjectRepository State := {}
  index : ObjectIndex State := {}

def objectRepositoryNotifyAdd (calls : IndexKind → EntryCalls) (obj : Object State) :
    Run (ObjectIndex State) Unit := do
  let flags ← Action.read ObjectIndex.activeIndexes
  (if flags = 0 then pure () else objectIndexAddObject calls obj flags)

def objectRepositoryNotifyRemove (repo : ObjectRepository State) (id : UInt32) : Run (ObjectIndex State) Unit := do
  let flags ← Action.read ObjectIndex.activeIndexes
  (if flags = 0 then pure () else objectIndexRemoveObject repo id flags)

/-- `nmo_object_repository_add`: the last call is the update of the index, and one that is refused
takes the object out of the tables of the repository. -/
def addAttached (calls : AddCalls) (entries : IndexKind → EntryCalls) (obj : Object State) :
    Run (Attached State) Unit where
  run s := match (objectRepositoryAddWith { calls with index := none }).run ⟨s.repo,obj⟩ with
    | (.error stop,added) => (.error stop,{ s with repo := added.repo })
    | (.ok (),added) => match (objectRepositoryNotifyAdd entries added.obj).run s.index with
      | (.ok (),index) => (.ok (),⟨added.repo,index⟩)
      | (.error stop,index) => (.error stop,⟨(added.repo.leaveName added.name).drop added.obj.id,index⟩)

/-- `nmo_object_repository_remove`: the update of the index is the first call. -/
def removeAttached (id : UInt32) : Run (Attached State) Unit where
  run s := match s.repo.find id with
    | none => (.error (.error .invalidArgument ""),s)
    | some _ => match (objectRepositoryNotifyRemove s.repo id).run s.index with
      | (.error stop,index) => (.error stop,{ s with index := index })
      | (.ok (),index) =>
        let (outcome,repo) := (objectRepositoryRemove none id).run s.repo
        (outcome,⟨repo,index⟩)

def clearAttached : Run (Attached State) Unit where
  run s :=
    let (outcome,index) := (objectIndexClear indexBuildAll).run s.index
    (outcome,⟨((objectRepositoryClear none).run s.repo).2,index⟩)

inductive AttachedOp (State : Type)
  | add (obj : Object State) (calls : AddCalls) (entries : IndexKind → EntryCalls)
  | remove (id : UInt32)
  | clear

def attachedStep (s : Attached State) : AttachedOp State → Attached State
  | .add obj calls entries => ((addAttached calls entries obj).run s).2
  | .remove id => ((removeAttached id).run s).2
  | .clear => (clearAttached.run s).2

end Attached

end Libnmo.Session
