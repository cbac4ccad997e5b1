import Libnmo.Format.TrackedRemap
import Libnmo.Format.RemapTree
import Libnmo.Session.ObjectRepository
import Mathlib.Data.List.Perm.Subperm
import Mathlib.Data.List.Range

/-! The remap plan of a save and the way back. The file IDs count from zero, so the
first object gets the reserved ID and its references are not translated; those of the
other objects come back through the inverse table. -/
namespace Libnmo.Session
open Core Format Lib

variable {State : Type}

/-- IDs are 32 bits wide and zero is reserved. -/
theorem length_distinct {ids : List UInt32} (distinct : ids.Nodup) (nonzero : 0 ∉ ids) : ids.length < 2 ^ 32 := by
  have values : (ids.map UInt32.toNat).Nodup := distinct.map fun _ _ => UInt32.toNat_inj.mp
  have inside : ids.map UInt32.toNat ⊆ List.range' 1 (2 ^ 32 - 1) := by
    intro value member
    obtain ⟨id,present,rfl⟩ := List.mem_map.mp member
    have positive : id.toNat ≠ 0 := by
      intro zero
      obtain rfl : id = 0 := UInt32.toNat_inj.mp zero
      exact nonzero present
    have bound := id.toNat_lt
    rw [List.mem_range'_1]
    omega
  have short := (List.subperm_of_subset values inside).length_le
  rw [List.length_map,List.length_range'] at short
  omega

theorem entries_planFrom (remap : IdRemap) (index : Nat) (objects : List (Object State)) :
    (planFrom remap index objects).entries =
      remap.entries ++ objects.mapIdx fun k obj => ⟨obj.id,UInt32.ofNat (index + k)⟩ := by
  induction objects generalizing remap index with
  | nil => simp [planFrom]
  | cons obj objects ih =>
    rw [planFrom,ih,idRemapAdd,List.mapIdx_cons]
    simp [Nat.add_comm,Nat.add_left_comm]

/-- The table of the plan for a list of objects. -/
def planTable (objects : List (Object State)) : IdRemap := planFrom {} 0 objects

theorem idRemapPlanCreate_some {objects : List (Object State)} (nonempty : objects ≠ []) :
    idRemapPlanCreate objects = some (planTable objects) := by
  rw [idRemapPlanCreate,if_neg (fun none => nonempty (List.length_eq_zero_iff.mp none))]
  rfl

section
variable {objects : List (Object State)}

theorem oldIds_plan : (planTable objects).oldIds = objects.map Object.id := by
  rw [planTable,IdRemap.oldIds,entries_planFrom]
  apply List.ext_getElem <;> simp

theorem newIds_plan : (planTable objects).newIds = (List.range objects.length).map UInt32.ofNat := by
  rw [planTable,IdRemap.newIds,entries_planFrom]
  apply List.ext_getElem <;> simp

theorem plan_entry {index : Nat} {obj : Object State} (found : objects[index]? = some obj) :
    ⟨obj.id,UInt32.ofNat index⟩ ∈ (planTable objects).entries := by
  rw [planTable,entries_planFrom]
  refine List.mem_append_right _ (List.mem_of_getElem? (i := index) ?_)
  simp [found]

variable (distinct : (objects.map Object.id).Nodup)
include distinct

theorem nodup_oldIds : (planTable objects).oldIds.Nodup := by rwa [oldIds_plan]

theorem lookup_fileId {index : Nat} {obj : Object State} (found : objects[index]? = some obj) :
    idRemapLookupId (planTable objects) obj.id = .ok (UInt32.ofNat index) :=
  lookup_member (nodup_oldIds distinct) (plan_entry found)

variable (nonzero : 0 ∉ objects.map Object.id)
include nonzero

theorem length_objects : objects.length < 2 ^ 32 := by
  have short := length_distinct distinct nonzero
  rwa [List.length_map] at short

theorem toNat_fileId {index : Nat} (inside : index < objects.length) : (UInt32.ofNat index).toNat = index := by
  have short := length_objects distinct nonzero
  rw [UInt32.toNat_ofNat']
  omega

theorem nodup_fileIds : (planTable objects).newIds.Nodup := by
  rw [newIds_plan]
  refine List.Nodup.map_on ?_ List.nodup_range
  intro left leftInside right rightInside same
  have values := congrArg UInt32.toNat same
  rwa [toNat_fileId distinct nonzero (List.mem_range.mp leftInside),
    toNat_fileId distinct nonzero (List.mem_range.mp rightInside)] at values

/-- On the way out every object but the first gets its index. -/
theorem remapSingleId_plan {index : Nat} {obj : Object State} (found : objects[index]? = some obj) :
    remapSingleId (planTable objects) obj.id = if index = 0 then obj.id else UInt32.ofNat index := by
  have inside := (List.getElem?_eq_some_iff.mp found).1
  have entry := plan_entry found
  split
  · rename_i first
    rw [first] at entry
    exact remapSingleId_reserved (nodup_oldIds distinct) entry
  · rename_i later
    refine remapSingleId_member (nodup_oldIds distinct) entry ?_ ?_
    · exact fun zero => nonzero (zero ▸ List.mem_map_of_mem (List.mem_of_getElem? found))
    · intro zero
      have value := congrArg UInt32.toNat zero
      rw [toNat_fileId distinct nonzero inside] at value
      exact later value

/-- On the way back every index but zero gets its object's ID. -/
theorem remapSingleId_back {index : Nat} {obj : Object State} (found : objects[index]? = some obj)
    (later : index ≠ 0) : remapSingleId (planTable objects).inverse (UInt32.ofNat index) = obj.id := by
  have inside := (List.getElem?_eq_some_iff.mp found).1
  refine remapSingleId_member (by rw [oldIds_inverse]; exact nodup_fileIds distinct nonzero) ?_ ?_ ?_
  · exact List.mem_map.mpr ⟨_,plan_entry found,rfl⟩
  · intro zero
    have value := congrArg UInt32.toNat zero
    rw [toNat_fileId distinct nonzero inside] at value
    exact later value
  · exact fun zero => nonzero (zero ▸ List.mem_map_of_mem (List.mem_of_getElem? found))

/-- An ID that is too large for an index is left alone on the way back. -/
theorem remapSingleId_large {id : UInt32} (large : objects.length ≤ id.toNat) :
    remapSingleId (planTable objects).inverse id = id := by
  refine remapSingleId_absent fun present => ?_
  rw [oldIds_inverse,newIds_plan] at present
  obtain ⟨index,inside,rfl⟩ := List.mem_map.mp present
  rw [List.mem_range] at inside
  rw [toNat_fileId distinct nonzero inside] at large
  omega

/-- An index is left alone on the way out where every ID is too large for one. -/
theorem remapSingleId_index (large : ∀ obj ∈ objects, objects.length ≤ obj.id.toNat) {index : Nat}
    (inside : index < objects.length) : remapSingleId (planTable objects) (UInt32.ofNat index) = UInt32.ofNat index := by
  refine remapSingleId_absent fun present => ?_
  rw [oldIds_plan] at present
  obtain ⟨obj,member,same⟩ := List.mem_map.mp present
  have bound := large obj member
  rw [same,toNat_fileId distinct nonzero inside] at bound
  omega

/-- An ID translated as often on the way back as on the way out. -/
theorem translated_back {index : Nat} {obj : Object State} (found : objects[index]? = some obj)
    (first : index ≠ 0 ∨ objects.length ≤ obj.id.toNat) (count : Nat) (positive : count ≠ 0)
    (often : count = 1 ∨ ∀ obj ∈ objects, objects.length ≤ obj.id.toNat) :
    (remapSingleId (planTable objects).inverse)^[count] ((remapSingleId (planTable objects))^[count] obj.id) = obj.id := by
  have inside := (List.getElem?_eq_some_iff.mp found).1
  have out := remapSingleId_plan distinct nonzero found
  by_cases zero : index = 0
  · have large : objects.length ≤ obj.id.toNat := first.resolve_left fun later => later zero
    rw [if_pos zero] at out
    rw [Function.iterate_fixed out,Function.iterate_fixed (remapSingleId_large distinct nonzero large)]
  · rw [if_neg zero] at out
    have back := remapSingleId_back distinct nonzero found zero
    rcases often with rfl | large
    · rw [Function.iterate_one,Function.iterate_one,out,back]
    · obtain ⟨count,rfl⟩ := Nat.exists_eq_succ_of_ne_zero positive
      have kept := remapSingleId_large distinct nonzero (large obj (List.mem_of_getElem? found))
      have once : (remapSingleId (planTable objects))^[count + 1] obj.id = UInt32.ofNat index := by
        rw [Function.iterate_succ_apply,out,Function.iterate_fixed (remapSingleId_index distinct nonzero large inside)]
      rw [Nat.succ_eq_add_one,once,Function.iterate_succ_apply,back,Function.iterate_fixed kept]

end

/-- Where a chunk holds the ID of the object, and the way out and back returns it: the place is tracked once or
no ID is as small as an index, and the object is not the first or its ID is not as small as an index. -/
structure Returns (objects : List (Object State)) (c : Chunk) (place : Nat) (index : Nat) (obj : Object State) :
    Prop where
  tracked : place ∈ trackedPositions c.ids c.words
  object : objects[index]? = some obj
  holds : c.words[place]? = some obj.id
  often : (trackedPositions c.ids c.words).count place = 1 ∨ ∀ obj ∈ objects, objects.length ≤ obj.id.toNat
  first : index ≠ 0 ∨ objects.length ≤ obj.id.toNat

/-- The plan numbers the objects from zero in their order. In a tree of chunks that do not share their words, the
two remaps return what every chunk holds of the objects' IDs, unless it tracks the count of a sequence. -/
theorem plan_returns {objects : List (Object State)} (nonempty : objects ≠ [])
    (distinct : (objects.map Object.id).Nodup) (nonzero : 0 ∉ objects.map Object.id) :
    ∃ table, idRemapPlanCreate objects = some table ∧ table.newIds.Nodup ∧
      (∀ index obj, objects[index]? = some obj → idRemapLookupId table obj.id = .ok (UInt32.ofNat index)) ∧
      ∀ c, Apart c → ∀ path target, descend path c = some target →
        ∃ back, descend path (remapped table.inverse (remapped table c)) = some back ∧
          (Steady target.ids target.words → ∀ place index obj, Returns objects target place index obj →
            back.words[place]? = some obj.id) := by
  refine ⟨planTable objects,idRemapPlanCreate_some nonempty,nodup_fileIds distinct nonzero,
    fun index obj found => lookup_fileId distinct found,fun c apart => ?_⟩
  refine (twiceAlike c apart (fun c _ place index obj returns => returns.holds) ?_).places
  intro c words _ data back restored steady place index obj returns
  have shown : c.words = words := by rw [Chunk.words,data,Option.getD_some]
  have shown' := congrArg (Option.getD · []) restored
  change back.words = _ at shown'
  rw [Option.getD_some] at shown'
  obtain ⟨tracked,found,holds,often,first⟩ := returns
  rw [shown] at steady tracked holds often
  rw [shown',getElem?_remapped (steady_remapped steady),trackedPositions_remapped steady,getElem?_remapped steady,holds]
  simp only [Option.map_some]
  rw [translated_back distinct nonzero found first _ (List.count_pos_iff.mpr tracked).ne' often]

section Samples

def twoObjects : List (Object Unit) := [{ id := 1, classId := 1 },{ id := 2, classId := 1 }]

theorem twoObjects_return : ∃ table, idRemapPlanCreate twoObjects = some table ∧ table.newIds.Nodup ∧
    (∀ index obj, twoObjects[index]? = some obj → idRemapLookupId table obj.id = .ok (UInt32.ofNat index)) ∧
    ∀ c, Apart c → ∀ path target, descend path c = some target →
      ∃ back, descend path (remapped table.inverse (remapped table c)) = some back ∧
        (Steady target.ids target.words → ∀ place index obj, Returns twoObjects target place index obj →
          back.words[place]? = some obj.id) :=
  plan_returns (by simp [twoObjects]) (by decide) (by decide)

/-- A chunk that refers to the first of the two objects. -/
def firstReference : Chunk := { chunkVersion := 7, data := some [1], ids := [0] }

/-- The first object gets the ID zero, and a reference to it comes back as one to the second. -/
theorem firstReference_lost : 0 ∈ (planTable twoObjects).newIds ∧ ¬ ∀ table, idRemapPlanCreate twoObjects = some table →
    table.newIds.Nodup ∧ 0 ∉ table.newIds ∧ ∀ c place obj, place ∈ trackedPositions c.ids c.words → obj ∈ twoObjects →
      c.words[place]? = some obj.id → (remapped table.inverse (remapped table c)).words[place]? = some obj.id := by
  refine ⟨by decide,fun sound => ?_⟩
  obtain ⟨_,_,returned⟩ := sound (planTable twoObjects) rfl
  have back := returned firstReference 0 { id := 1, classId := 1 } (by decide) (by simp [twoObjects]) (by rfl)
  exact absurd back (by decide)

end Samples

end Libnmo.Session
