import Libnmo.App.CreatedObjects

/-! Which objects are deserialized. The loop counter moves twice after a read, so the
object that follows one that is read is passed over: an object is reached exactly when
an even number of reads would come right before it. -/
namespace Libnmo.App
open Core Format Schema Session Lib

variable {State : Type} (registry : SchemaRegistry State)

/-- The function that reads the state of a class of the hierarchy: that of the nearest schema at or above it. -/
def classReader (classId : UInt32) : Option (Run Chunk State) :=
  if ckclassGetNameById classId = none then none
  else match registry.findByClassIdInherited classId with
    | none => none
    | some type => if type.size = 0 then none else type.vtable.bind SchemaVtable.read

/-- The chunk that a read starts from, when it holds anything. -/
def readableChunk (obj : Object State) : Option Chunk :=
  match obj.chunk with
  | none => none
  | some chunk => if chunk.words.length = 0 then none else some (chunkStartRead.run chunk).2

/-- The object has something to read and a function to read it. -/
def attempted (obj : Object State) : Bool := (readableChunk obj).isSome && (classReader registry obj.classId).isSome

/-- The state that a read of the object yields. -/
def readState (obj : Object State) : Option State :=
  match readableChunk obj,classReader registry obj.classId with
  | some chunk,some read => match (read.run chunk).1 with
    | .ok state => some state
    | .error _ => none
  | _,_ => none

variable {registry}

/-- The object after a read, whose state is kept when there is one. -/
def keepRead (obj : Object State) : Result State × Chunk → Object State
  | (.ok state,chunk) => { obj with chunk := some chunk, data := some state }
  | (.error _,chunk) => { obj with chunk := some chunk }

/-- The chain of checks comes down to a chunk to read and a function to read it. -/
theorem deserializeObject_eq (obj : Object State) : deserializeObject registry obj =
    match readableChunk obj with
    | none => (false,obj)
    | some chunk => match classReader registry obj.classId with
      | none => (false,{ obj with chunk := some chunk })
      | some read => (true,keepRead obj (read.run chunk)) := by
  rw [deserializeObject,readableChunk]
  cases obj.chunk with
  | none => rfl
  | some chunk =>
    dsimp only
    split
    · rfl
    · rw [classReader]
      cases ckclassGetNameById obj.classId with
      | none => rfl
      | some className =>
        rw [if_neg (by simp)]
        cases registry.findByClassIdInherited obj.classId with
        | none => rfl
        | some type =>
          dsimp only
          cases type.vtable.bind SchemaVtable.read with
          | none => simp
          | some read =>
            by_cases size : type.size = 0
            · simp [size]
            · simp only [if_neg size]
              rcases read.run (chunkStartRead.run chunk).2 with ⟨state | stop,after⟩ <;> rfl

theorem deserializeObject_attempted (obj : Object State) :
    (deserializeObject registry obj).1 = attempted registry obj := by
  rw [deserializeObject_eq,attempted]
  cases readableChunk obj with
  | none => rfl
  | some chunk => cases classReader registry obj.classId <;> rfl

theorem deserializeObject_read {obj : Object State} {state : State} (read : readState registry obj = some state) :
    (deserializeObject registry obj).2.data = some state := by
  rw [readState] at read
  split at read
  · rename_i chunk reader readable found
    rw [deserializeObject_eq,readable,found]
    split at read
    · rename_i value ok
      dsimp only
      rw [show reader.run chunk = (.ok value,(reader.run chunk).2) from Prod.ext ok rfl,← read]
      rfl
    · simp at read
  · simp at read

theorem deserializeObjects_getElem? (repo : ObjectRepository State) (i : Nat) :
    (deserializeObjects registry repo).objects[i]? =
      if runBefore (attempted registry) repo.objects i % 2 = 0 then
        repo.objects[i]?.map fun obj => (deserializeObject registry obj).2
      else repo.objects[i]? := by
  have same : (fun obj => (deserializeObject registry obj).1) = attempted registry :=
    funext deserializeObject_attempted
  rw [deserializeObjects,getElem?_skipNext,same]

@[simp] theorem createdObjects_remapIds (s : LoadState State) : (remapIds s).createdObjects = s.createdObjects := by
  rw [remapIds]
  split <;> rfl

@[simp] theorem createdObjects_dispatchAll (ctx : LoadContext State) (s : LoadState State) :
    (dispatchAll ctx s).createdObjects = s.createdObjects := by
  rw [dispatchAll]
  split <;> rfl

/-- The state before the phases: the repository of the session and no object created. -/
def startLoad (repo : ObjectRepository State) (session : LoadSession) (managers : List ManagerData) : LoadState State :=
  { repo := repo, session := session, managers := managers }

/-- The object stands at the position when deserialization starts, and the load created it. -/
def CreatedAt (ready : LoadState State) (i : Nat) (obj : Object State) : Prop :=
  ready.repo.objects[i]? = some obj ∧ some obj.id ∈ ready.createdObjects

def firstWordRegistry : SchemaRegistry UInt32 where
  byClassId := [(1,{ size := 4, vtable := some { read := some ⟨fun c => (.ok (c.words.headD 0),c)⟩ } })]

def firstWordContext : LoadContext UInt32 := { schemaRegistry := firstWordRegistry }

def wordRecord (word : UInt32) : ObjectData := { chunk := some { chunkVersion := chunkVersion4, data := some [word] } }

def objectDesc (fileId : UInt32) : ObjectDesc := { fileId := fileId, classId := 1, fileIndex := 0, name := [], flags := 0 }

def freshStart : LoadState UInt32 := startLoad {} (loadSessionStart ({} : ObjectRepository UInt32) 2) []

def oneReady : LoadState UInt32 := ((prepareObjects firstWordContext [objectDesc 1] [wordRecord 7]).run freshStart).2

def twoDescs : List ObjectDesc := [objectDesc 1,objectDesc 2]

def twoRecords : List ObjectData := [wordRecord 7,wordRecord 8]

def twoReady : LoadState UInt32 := ((prepareObjects firstWordContext twoDescs twoRecords).run freshStart).2

end Libnmo.App
