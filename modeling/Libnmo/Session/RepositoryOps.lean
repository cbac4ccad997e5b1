import Libnmo.Lib.Keyed
import Libnmo.Session.ObjectRepository

/-! The operations of a repository, with every call they make on its tables. A
table may refuse an insertion, the index that is attached may refuse an update,
and a probe of the ID map may find no way to an end; the operation is told which. -/
namespace Libnmo.Session
open Core Format Lib

variable {State : Type}

/-- How the calls that an add makes end: whether the probe for the ID does, and with
which error an insertion or the update of the index is refused. -/
structure AddCalls where
  probes : Bool := true
  idMap : Option ErrorCode := none
  nameTable : Option ErrorCode := none
  index : Option ErrorCode := none

/-- A refused call undoes what was done before it and passes its error on. -/
def refusedBy {σ : Type} (refused : Option ErrorCode) (undo : σ → σ) : Run σ Unit :=
  match refused with
  | none => pure ()
  | some code => do
    Action.update undo
    fail code ""

/-- The name table without the entry of a name. -/
def eraseName (table : List (List UInt8 × UInt32)) (name : List UInt8) : List (List UInt8 × UInt32) :=
  if name = [] then table else table.filter fun entry => entry.1 ≠ name

namespace ObjectRepository

def keep (repo : ObjectRepository State) (obj : Object State) : ObjectRepository State :=
  { repo with objects := repo.objects ++ [obj] }

def drop (repo : ObjectRepository State) (id : UInt32) : ObjectRepository State :=
  { repo with objects := removeKey Object.id repo.objects id }

def enterName (repo : ObjectRepository State) (name : List UInt8) (id : UInt32) : ObjectRepository State :=
  { repo with nameTable := insertName repo.nameTable name id }

def leaveName (repo : ObjectRepository State) (name : List UInt8) : ObjectRepository State :=
  { repo with nameTable := eraseName repo.nameTable name }

end ObjectRepository

/-- A repository and the object that is added to it. -/
structure Adding (State : Type) where
  repo : ObjectRepository State
  obj : Object State

namespace Adding

def onRepo (f : ObjectRepository State → ObjectRepository State) (adding : Adding State) : Adding State :=
  { adding with repo := f adding.repo }

def name (adding : Adding State) : List UInt8 := cString adding.obj.name

end Adding

/-- The object takes a new runtime ID. -/
def assignId : Run (Adding State) Unit where
  run adding := match objectRepositoryAllocateId.run adding.repo with
    | (.ok id,repo) => (.ok (),⟨repo,{ adding.obj with id := id }⟩)
    | (.error stop,repo) => (.error stop,⟨repo,adding.obj⟩)

/-- What an add does once the object has an ID. -/
def objectRepositoryPlace (calls : AddCalls) : Run (Adding State) Unit := do
  let obj ← Action.read Adding.obj
  let name := cString obj.name
  (if calls.probes then pure () else Action.stop .endless)
  let present ← Action.read fun adding => adding.repo.contains obj.id
  (if present then fail .invalidState "" else pure ())
  refusedBy calls.idMap id
  Action.update (Adding.onRepo fun repo => repo.keep obj)
  (if name = [] then pure () else do
    refusedBy calls.nameTable (Adding.onRepo fun repo => repo.drop obj.id)
    Action.update (Adding.onRepo fun repo => repo.enterName name obj.id))
  refusedBy calls.index (Adding.onRepo fun repo => (repo.leaveName name).drop obj.id)

/-- `nmo_object_repository_add`, with the object it may give an ID. -/
def objectRepositoryAddWith (calls : AddCalls) : Run (Adding State) Unit := do
  let given ← Action.read fun adding => adding.obj.id
  (if given = 0 then do
    assignId
    let taken ← Action.read fun adding => adding.obj.id
    (if taken = 0 then fail .nomem "" else pure ())
  else pure ())
  objectRepositoryPlace calls

def objectRepositoryFindByName (repo : ObjectRepository State) (name : List UInt8) : Option UInt32 :=
  (repo.nameTable.find? fun entry => entry.1 = cString name).map Prod.snd

/-- The entry of the name leaves its table whichever object it points to. -/
def objectRepositoryRemove (refused : Option ErrorCode) (id : UInt32) : Run (ObjectRepository State) Unit := do
  let found ← Action.read fun repo => repo.find id
  match found with
  | none => fail .invalidArgument ""
  | some obj => do
    refusedBy refused fun repo => repo
    Action.update fun repo => repo.leaveName (cString obj.name)
    Action.update fun repo => repo.drop id

def objectRepositoryClear (refused : Option ErrorCode) : Run (ObjectRepository State) Unit := do
  Action.update fun _ => {}
  refusedBy refused fun repo => repo

inductive RepositoryOp (State : Type)
  | add (obj : Object State) (calls : AddCalls)
  | remove (id : UInt32) (refused : Option ErrorCode)
  | clear (refused : Option ErrorCode)

def repositoryStep (repo : ObjectRepository State) : RepositoryOp State → ObjectRepository State
  | .add obj calls => ((objectRepositoryAddWith calls).run ⟨repo,obj⟩).2.repo
  | .remove id refused => ((objectRepositoryRemove refused id).run repo).2
  | .clear refused => ((objectRepositoryClear refused).run repo).2

end Libnmo.Session
