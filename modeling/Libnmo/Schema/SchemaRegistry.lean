import Libnmo.Format.Chunk
import Mathlib.Data.List.Basic

/-! The class hierarchy: a table of names with their class IDs and parents. A walk to
the root goes from an ID to the parent's ID through the names. The table has no
cycle, so every walk ends. -/
namespace Libnmo.Schema

inductive CkClassName
  | ckObject | ckParameterIn | ckParameterOut | ckParameterOperation | ckStateObject | ckBehaviorLink
  | ckBehavior | ckBehaviorIO | ckScene | ckSceneObject | ckKinematicChain | ckObjectAnimation | ckAnimation
  | ckKeyedAnimation | ckBeObject | ckSynchroObject | ckLevel | ckPlace | ckGroup | ckSound | ckWaveSound
  | ckMidiSound | ck2dEntity | ckSprite | ckSpriteText | ckMaterial | ckTexture | ckMesh | ck3dEntity
  | ckCamera | ckTargetCamera | ckCurvePoint | ckSprite3D | ckLight | ckTargetLight | ckCharacter | ck3dObject
  | ckBodyPart | ckCurve | ckParameterLocal | ckParameter | ckRenderObject | ckInterfaceObjectManager
  | ckCriticalSectionObject | ckGrid | ckLayer | ckDataArray | ckPatchMesh | ckProgressiveMesh
  deriving DecidableEq, Repr

structure CkClassDef where
  name : CkClassName
  classId : UInt32
  parentName : Option CkClassName

/-- `CK_CLASSES`. -/
def ckClasses : List CkClassDef :=
  [⟨.ckObject,1,none⟩,⟨.ckParameterIn,2,some .ckObject⟩,⟨.ckParameterOut,3,some .ckParameter⟩,
    ⟨.ckParameterOperation,4,some .ckObject⟩,⟨.ckStateObject,5,some .ckObject⟩,
    ⟨.ckBehaviorLink,6,some .ckObject⟩,⟨.ckBehavior,8,some .ckSceneObject⟩,⟨ CkClassName.ckBehaviorIO,9,some .ckObject⟩,
    ⟨.ckScene,10,some .ckBeObject⟩,⟨.ckSceneObject,11,some .ckObject⟩,⟨.ckKinematicChain,13,some .ckObject⟩,
    ⟨.ckObjectAnimation,15,some .ckSceneObject⟩,⟨.ckAnimation,16,some .ckSceneObject⟩,
    ⟨.ckKeyedAnimation,18,some .ckAnimation⟩,⟨.ckBeObject,19,some .ckSceneObject⟩,
    ⟨.ckSynchroObject,20,some .ckObject⟩,⟨.ckLevel,21,some .ckBeObject⟩,⟨.ckPlace,22,some .ckBeObject⟩,
    ⟨.ckGroup,23,some .ckBeObject⟩,⟨.ckSound,24,some .ckBeObject⟩,⟨.ckWaveSound,25,some .ckSound⟩,
    ⟨.ckMidiSound,26,some .ckSound⟩,⟨.ck2dEntity,27,some .ckRenderObject⟩,⟨.ckSprite,28,some .ck2dEntity⟩,
    ⟨.ckSpriteText,29,some .ckSprite⟩,⟨.ckMaterial,30,some .ckBeObject⟩,⟨.ckTexture,31,some .ckBeObject⟩,
    ⟨.ckMesh,32,some .ckBeObject⟩,⟨.ck3dEntity,33,some .ckRenderObject⟩,⟨.ckCamera,34,some .ck3dEntity⟩,
    ⟨.ckTargetCamera,35,some .ckCamera⟩,⟨.ckCurvePoint,36,some .ck3dEntity⟩,⟨.ckSprite3D,37,some .ck3dEntity⟩,
    ⟨.ckLight,38,some .ck3dEntity⟩,⟨.ckTargetLight,39,some .ckLight⟩,⟨.ckCharacter,40,some .ck3dEntity⟩,
    ⟨.ck3dObject,41,some .ck3dEntity⟩,⟨.ckBodyPart,42,some .ck3dObject⟩,⟨.ckCurve,43,some .ck3dEntity⟩,
    ⟨.ckParameterLocal,45,some .ckParameter⟩,⟨.ckParameter,46,some .ckObject⟩,
    ⟨.ckRenderObject,47,some .ckBeObject⟩,⟨.ckInterfaceObjectManager,48,some .ckObject⟩,
    ⟨.ckCriticalSectionObject,49,some .ckObject⟩,⟨.ckGrid,50,some .ck3dEntity⟩,⟨.ckLayer,51,some .ckObject⟩,
    ⟨.ckDataArray,52,some .ckBeObject⟩,⟨.ckPatchMesh,53,some .ckMesh⟩,⟨.ckProgressiveMesh,54,some .ckMesh⟩]

def ckclassGetNameById (classId : UInt32) : Option CkClassName :=
  (ckClasses.find? fun c => c.classId = classId).map CkClassDef.name

def ckclassGetParent (className : CkClassName) : Option CkClassName :=
  (ckClasses.find? fun c => c.name = className).bind CkClassDef.parentName

def ckclassGetIdByName (className : CkClassName) : UInt32 :=
  ((ckClasses.find? fun c => c.name = className).map CkClassDef.classId).getD 0

/-- The class ID of the parent, zero at the root and for an unknown class. -/
def classGetParent (classId : UInt32) : UInt32 :=
  if classId = 0 then 0
  else match (ckclassGetNameById classId).bind ckclassGetParent with
    | none => 0
    | some parentName => ckclassGetIdByName parentName

/-- The classes above a class, from its parent up, for a number of steps. -/
def classAncestors : Nat → UInt32 → List UInt32
  | 0,_ => []
  | steps + 1,currentId =>
    let parentId := classGetParent currentId
    if parentId = 0 then [] else parentId :: classAncestors steps parentId

/-- How far a class is from the root. -/
def classDepth (classId : UInt32) : Nat := (classAncestors ckClasses.length classId).length

theorem classGetParent_unknown {classId : UInt32} (unknown : ∀ c ∈ ckClasses, c.classId ≠ classId) :
    classGetParent classId = 0 := by
  have none : ckclassGetNameById classId = none := by
    rw [ckclassGetNameById,Option.map_eq_none_iff,List.find?_eq_none]
    simpa using unknown
  rw [classGetParent,none]
  split <;> rfl

theorem classDepth_table : ∀ c ∈ ckClasses, classGetParent c.classId = 0 ∨
    classDepth (classGetParent c.classId) < classDepth c.classId := by
  decide +kernel

/-- The table has no cycle. -/
theorem classDepth_parent (classId : UInt32) (above : classGetParent classId ≠ 0) :
    classDepth (classGetParent classId) < classDepth classId := by
  by_cases known : ∃ c ∈ ckClasses, c.classId = classId
  · obtain ⟨c,member,rfl⟩ := known
    exact (classDepth_table c member).resolve_left above
  · exact absurd (classGetParent_unknown fun c member same => known ⟨c,member,same⟩) above

/-- Two walks that are long enough visit the same classes. -/
theorem classAncestors_enough (classId : UInt32) {steps more : Nat} (enough : classDepth classId ≤ steps)
    (enough' : classDepth classId ≤ more) : classAncestors steps classId = classAncestors more classId := by
  by_cases root : classGetParent classId = 0
  · cases steps <;> cases more <;> simp [classAncestors,root]
  · have lower := classDepth_parent classId root
    obtain ⟨steps,rfl⟩ := Nat.exists_eq_succ_of_ne_zero (show steps ≠ 0 by omega)
    obtain ⟨more,rfl⟩ := Nat.exists_eq_succ_of_ne_zero (show more ≠ 0 by omega)
    have tail : classAncestors steps (classGetParent classId) = classAncestors more (classGetParent classId) :=
      classAncestors_enough (classGetParent classId) (by omega) (by omega)
    simp only [classAncestors,if_neg root,tail]
termination_by classDepth classId

theorem classDepth_le (classId : UInt32) : classDepth classId ≤ ckClasses.length := by
  have bound (steps : Nat) (id : UInt32) : (classAncestors steps id).length ≤ steps := by
    induction steps generalizing id with
    | zero => exact Nat.zero_le _
    | succ steps ih =>
      rw [classAncestors]
      split
      · exact Nat.zero_le _
      · exact Nat.succ_le_succ (ih _)
  exact bound _ _

end Libnmo.Schema

/-! The schema registry as loading and saving use it. A type may come with functions that
read its state from a chunk and write it to one; a class without a type of its own takes that of its
nearest ancestor with one. -/
namespace Libnmo.Schema
open Core Format

variable {State : Type}

structure SchemaVtable (State : Type) where
  read : Option (Run Chunk State) := none
  write : Option (State → Run Chunk Unit) := none

structure SchemaType (State : Type) where
  size : Nat
  vtable : Option (SchemaVtable State) := none

structure SchemaRegistry (State : Type) where
  byClassId : List (UInt32 × SchemaType State) := []

namespace SchemaRegistry

def findByClassId (registry : SchemaRegistry State) (classId : UInt32) : Option (SchemaType State) :=
  if classId = 0 then none else registry.byClassId.lookup classId

/-- The walk up the hierarchy, for a number of steps. -/
def findAncestor (registry : SchemaRegistry State) : Nat → UInt32 → Option (SchemaType State)
  | 0,_ => none
  | steps + 1,currentId =>
    let parentId := classGetParent currentId
    if parentId = 0 then none
    else match registry.findByClassId parentId with
      | some type => some type
      | none => findAncestor registry steps parentId

def findByClassIdInherited (registry : SchemaRegistry State) (classId : UInt32) : Option (SchemaType State) :=
  if classId = 0 then none
  else match registry.findByClassId classId with
    | some type => some type
    | none => registry.findAncestor ckClasses.length classId

end SchemaRegistry

section
variable (registry : SchemaRegistry State) (classId : UInt32)

theorem findAncestor_eq (steps : Nat) :
    registry.findAncestor steps classId = (classAncestors steps classId).findSome? registry.findByClassId := by
  induction steps generalizing classId with
  | zero => rfl
  | succ steps ih =>
    rw [SchemaRegistry.findAncestor,classAncestors]
    split
    · rfl
    · rw [List.findSome?_cons]
      cases registry.findByClassId (classGetParent classId) with
      | none => exact ih _
      | some type => rfl

/-- The walk ends at the root: with however many steps more, the type is the nearest one at or above the class. -/
theorem findByClassIdInherited_eq (some : classId ≠ 0) {steps : Nat} (enough : ckClasses.length ≤ steps) :
    registry.findByClassIdInherited classId =
      (classId :: classAncestors steps classId).findSome? registry.findByClassId := by
  have deep := classDepth_le classId
  rw [SchemaRegistry.findByClassIdInherited,if_neg some,findAncestor_eq,List.findSome?_cons,
    classAncestors_enough classId deep (Nat.le_trans deep enough)]
  cases registry.findByClassId classId <;> rfl

end

end Libnmo.Schema
