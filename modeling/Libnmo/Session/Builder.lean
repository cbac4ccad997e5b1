import Libnmo.Lib.BitWords
import Libnmo.Session.ObjectRepository

/-! The builder of a file, as far as it goes: it lists the objects that are added as
references, and marks their IDs in a mask so that none is listed twice. The masks never
grow, and an ID beyond their 1024 bits is never marked. -/
namespace Libnmo.Session
open Core Lib BitWords

variable {State : Type}

def initialObjectCapacity : Nat := 64
def referenceFlag : UInt32 := 0x00800000

inductive BuildStage
  | init | header | header1 | objects | completed
  deriving DecidableEq

/-- A pointer to an object is its ID. -/
structure FileObject where
  objectId : UInt32
  classId : UInt32
  saveFlags : UInt32
  name : Option (List UInt8)
  deriving DecidableEq

structure Builder where
  fileObjects : List FileObject := []
  objectCapacity : Nat := initialObjectCapacity
  savedMask : List UInt32 := List.replicate 32 0
  referencedMask : List UInt32 := List.replicate 32 0
  maxSaveId : UInt32 := 0
  errorMsg : String := ""
  stage : BuildStage := .init

/-- The size of a mask is its length. -/
def isBitSet (words : List UInt32) (id : UInt32) : Bool :=
  let index := id.toNat / 32
  let bit := id.toNat % 32
  if index ≥ words.length then false else words.getD index 0 &&& mask bit ≠ 0

def setBit (words : List UInt32) (id : UInt32) : List UInt32 :=
  let index := id.toNat / 32
  let bit := id.toNat % 32
  if index ≥ words.length then words else words.modify index fun word => word ||| mask bit

/-- Whether `realloc` gives the larger block is `granted`. -/
def growFileObjects (granted : Bool) : Run Builder Unit :=
  if granted then Action.update fun builder => { builder with objectCapacity := builder.objectCapacity * 2 }
  else fail .nomem "Failed to grow file objects array"

/-- An empty name is not copied. -/
def referenceEntry (object : Object State) : FileObject where
  objectId := object.id
  classId := object.classId
  saveFlags := referenceFlag
  name := if cString object.name = [] then none else some (cString object.name)

def builderAddObjectAsReference (granted : Bool) (object : Object State) : Run Builder Unit := do
  (if object.id = 0 then fail .invalidArgument "Invalid object ID" else pure ())
  let builder ← Action.read id
  if isBitSet builder.savedMask object.id || isBitSet builder.referencedMask object.id then pure ()
  else do
    Action.update fun builder => { builder with
      referencedMask := setBit builder.referencedMask object.id
      maxSaveId := max object.id builder.maxSaveId }
    (if builder.fileObjects.length ≥ builder.objectCapacity then growFileObjects granted else pure ())
    Action.update fun builder => { builder with fileObjects := builder.fileObjects ++ [referenceEntry object] }

/-- `nmo_builder_add_object` is a stub. -/
def builderAddObject : Run Builder Unit := do
  Action.update fun builder => { builder with errorMsg := "nmo_builder_add_object not implemented (Phase 5+)" }
  fail .notImplemented "Not implemented"

def builderStart : Run Builder Unit := Action.update fun builder => { builder with stage := .header }

def nextStage : BuildStage → BuildStage
  | .init => .header
  | .header => .header1
  | .header1 => .objects
  | .objects | .completed => .completed

def builderBuildNextStage : Run Builder BuildStage := do
  Action.update fun builder => { builder with stage := nextStage builder.stage }
  Action.read Builder.stage

def builderFinish : Run Builder Unit := Action.update fun builder => { builder with stage := .completed }

inductive BuilderOp (State : Type)
  | addObjectAsReference (granted : Bool) (object : Object State)
  | addObject
  | start
  | buildNextStage
  | finish

def builderStep (builder : Builder) : BuilderOp State → Builder
  | .addObjectAsReference granted object => ((builderAddObjectAsReference granted object).run builder).2
  | .addObject => (builderAddObject.run builder).2
  | .start => (builderStart.run builder).2
  | .buildNextStage => (builderBuildNextStage.run builder).2
  | .finish => (builderFinish.run builder).2

def builderRun (ops : List (BuilderOp State)) (builder : Builder) : Builder := ops.foldl builderStep builder

def Builder.ids (builder : Builder) : List UInt32 := builder.fileObjects.map FileObject.objectId

/-- The ID that the operation adds, if the masks have no bit for it. -/
def BuilderOp.unmarked : BuilderOp State → Option UInt32
  | .addObjectAsReference _ object => if object.id.toNat < 1024 then none else some object.id
  | _ => none

def BuilderOp.granted : BuilderOp State → Bool
  | .addObjectAsReference granted _ => granted
  | _ => true

section Masks
variable {words : List UInt32} {id : UInt32}

theorem isBitSet_eq (words : List UInt32) (id : UInt32) : isBitSet words id = contains words id.toNat := by
  rw [isBitSet]
  split <;> rename_i inside
  · exact (contains_beyond (by omega)).symm
  · rw [Bool.eq_iff_iff,decide_eq_true_iff]
    exact and_mask (Nat.mod_lt _ (by decide))

theorem length_setBit : (setBit words id).length = words.length := by
  rw [setBit]
  split
  · rfl
  · exact List.length_modify ..

theorem contains_setBit (inside : id.toNat / 32 < words.length) (n : Nat) :
    contains (setBit words id) n = (contains words n || decide (n = id.toNat)) := by
  rw [setBit,if_neg (Nat.not_le_of_lt inside)]
  exact contains_insert inside

end Masks

section Adding
variable {builder : Builder} {ops : List (BuilderOp State)} {object : Object State} {granted : Bool}

/-- What an add leaves: the builder as it was, or the ID marked, and listed if there was room. -/
theorem builderAdd_cases {after : Builder} (ran : ((builderAddObjectAsReference granted object).run builder).2 = after) :
    (after = builder ∧ (object.id = 0 ∨ isBitSet builder.savedMask object.id = true ∨
      isBitSet builder.referencedMask object.id = true)) ∨
    (isBitSet builder.referencedMask object.id = false ∧ after.savedMask = builder.savedMask ∧
      after.referencedMask = setBit builder.referencedMask object.id ∧
      (after.ids = builder.ids ++ [object.id] ∨ after.ids = builder.ids ∧ granted = false)) := by
  rw [builderAddObjectAsReference] at ran
  by_cases invalid : object.id = 0
  · rw [if_pos invalid] at ran
    exact .inl ⟨ran.symm,.inl invalid⟩
  rw [if_neg invalid,Action.bind_ok _ (Action.pure_apply ..),Action.bind_ok _ (Action.read_apply ..)] at ran
  cases marked : isBitSet builder.savedMask object.id || isBitSet builder.referencedMask object.id with
  | true =>
    rw [id_eq,if_pos marked] at ran
    rw [Bool.or_eq_true] at marked
    exact .inl ⟨ran.symm,.inr marked⟩
  | false =>
    rw [id_eq,if_neg (by rw [marked]; decide),Action.bind_ok _ (Action.update_apply ..)] at ran
    have fresh := (Bool.or_eq_false_iff.mp marked).2
    split at ran
    · cases granted with
      | true =>
        subst ran
        exact .inr ⟨fresh,rfl,rfl,.inl List.map_append⟩
      | false =>
        subst ran
        exact .inr ⟨fresh,rfl,rfl,.inr ⟨rfl,rfl⟩⟩
    · subst ran
      exact .inr ⟨fresh,rfl,rfl,.inl List.map_append⟩

/-- The objects listed below the 1024 bits are marked and differ; those above are among the ones that were added,
and all of those where memory was granted. -/
structure Marked (ops : List (BuilderOp State)) (builder : Builder) : Prop where
  saved : ∀ id, isBitSet builder.savedMask id = false
  length : builder.referencedMask.length = 32
  marked : ∀ id ∈ builder.ids, id.toNat < 1024 → contains builder.referencedMask id.toNat = true
  apart : (builder.ids.filter fun id => id.toNat < 1024).Nodup
  beyond : (builder.ids.filter fun id => 1024 ≤ id.toNat).Sublist (ops.filterMap BuilderOp.unmarked)
  whole : (∀ op ∈ ops, op.granted = true) →
    (builder.ids.filter fun id => 1024 ≤ id.toNat) = ops.filterMap BuilderOp.unmarked

theorem marked_created : Marked ([] : List (BuilderOp State)) {} where
  saved id := by
    rw [isBitSet_eq,contains]
    have zero : ∀ index, (List.replicate 32 (0 : UInt32)).getD index 0 = 0 := by
      intro index
      rw [List.getD_eq_getElem?_getD,List.getElem?_replicate]
      split <;> rfl
    rw [zero]
    exact BitVec.getLsbD_zero
  length := rfl
  marked := nofun
  apart := List.nodup_nil
  beyond := List.Sublist.slnil
  whole := fun _ => rfl

theorem contains_setBit_mono {words : List UInt32} {id : UInt32} {n : Nat} (set : contains words n = true) :
    contains (setBit words id) n = true := by
  by_cases inside : id.toNat / 32 < words.length
  · rw [contains_setBit inside,set]
    rfl
  · rw [setBit,if_pos (Nat.le_of_not_lt inside)]
    exact set

theorem filter_concat (p : UInt32 → Prop) [DecidablePred p] (ids : List UInt32) (id : UInt32) :
    ((ids ++ [id]).filter fun id => p id) = (ids.filter fun id => p id) ++ if p id then [id] else [] := by
  rw [List.filter_append]
  by_cases fits : p id <;> simp [fits]

theorem filterMap_unmarked (ops : List (BuilderOp State)) (granted : Bool) (object : Object State) :
    (ops ++ [BuilderOp.addObjectAsReference granted object]).filterMap BuilderOp.unmarked =
      ops.filterMap BuilderOp.unmarked ++ if object.id.toNat < 1024 then [] else [object.id] := by
  rw [List.filterMap_append]
  by_cases small : object.id.toNat < 1024 <;> simp [BuilderOp.unmarked,small]

theorem marked_skip (inv : Marked ops builder) (granted : Bool)
    (skipped : object.id = 0 ∨ isBitSet builder.savedMask object.id = true ∨
      isBitSet builder.referencedMask object.id = true) :
    Marked (ops ++ [.addObjectAsReference granted object]) builder := by
  have small : object.id.toNat < 1024 := by
    rcases skipped with zero | saved | marked
    · rw [zero]
      decide
    · rw [inv.saved] at saved
      cases saved
    · rw [isBitSet_eq] at marked
      by_contra large
      rw [contains_beyond (by rw [inv.length]; omega)] at marked
      cases marked
  have same := filterMap_unmarked ops granted object
  rw [if_pos small,List.append_nil] at same
  refine ⟨inv.saved,inv.length,inv.marked,inv.apart,?_,?_⟩
  · rw [same]
    exact inv.beyond
  · intro all
    rw [same]
    exact inv.whole fun op member => all op (List.mem_append_left _ member)

theorem marked_add (inv : Marked ops builder) (granted : Bool) (object : Object State) :
    Marked (ops ++ [.addObjectAsReference granted object])
      ((builderAddObjectAsReference granted object).run builder).2 := by
  generalize ran : ((builderAddObjectAsReference granted object).run builder).2 = after
  obtain ⟨rfl,skipped⟩ | ⟨fresh,savedMask,referencedMask,listed⟩ := builderAdd_cases ran
  · exact marked_skip inv granted skipped
  have saved : ∀ id, isBitSet after.savedMask id = false := by
    rw [savedMask]
    exact inv.saved
  have length : after.referencedMask.length = 32 := by rw [referencedMask,length_setBit,inv.length]
  have kept : ∀ id ∈ builder.ids, id.toNat < 1024 → contains after.referencedMask id.toNat = true := by
    intro id member small
    rw [referencedMask]
    exact contains_setBit_mono (inv.marked id member small)
  have earlier (all : ∀ op ∈ ops ++ [.addObjectAsReference granted object], op.granted = true) :=
    inv.whole fun op member => all op (List.mem_append_left _ member)
  rcases listed with ids | ⟨ids,refused⟩
  · have marked : ∀ id ∈ after.ids, id.toNat < 1024 → contains after.referencedMask id.toNat = true := by
      intro id member small
      rw [ids] at member
      rcases List.mem_append.mp member with old | new
      · exact kept id old small
      · obtain rfl := List.mem_singleton.mp new
        rw [referencedMask,contains_setBit (by rw [inv.length]; omega),decide_eq_true rfl,Bool.or_true]
    by_cases small : object.id.toNat < 1024
    · have absent : object.id ∉ builder.ids := by
        intro member
        rw [isBitSet_eq,inv.marked _ member small] at fresh
        cases fresh
      refine ⟨saved,length,marked,?_,?_,fun all => ?_⟩
      · rw [ids,filter_concat,if_pos small]
        exact inv.apart.append (List.nodup_singleton _) (by simp [absent])
      · rw [ids,filterMap_unmarked,if_pos small,filter_concat,if_neg (by omega),List.append_nil,List.append_nil]
        exact inv.beyond
      · rw [ids,filterMap_unmarked,if_pos small,filter_concat,if_neg (by omega),List.append_nil,List.append_nil]
        exact earlier all
    · refine ⟨saved,length,marked,?_,?_,fun all => ?_⟩
      · rw [ids,filter_concat,if_neg small,List.append_nil]
        exact inv.apart
      · rw [ids,filterMap_unmarked,if_neg small,filter_concat,if_pos (by omega)]
        exact inv.beyond.append (List.Sublist.refl _)
      · rw [ids,filterMap_unmarked,if_neg small,filter_concat,if_pos (by omega),earlier all]
  · refine ⟨saved,length,?_,?_,?_,fun all => ?_⟩
    · rw [ids]
      exact kept
    · rw [ids]
      exact inv.apart
    · rw [ids,filterMap_unmarked]
      exact inv.beyond.trans (List.sublist_append_left ..)
    · have granted' : granted = true := all _ (List.mem_append_right _ (List.mem_singleton_self _))
      rw [refused] at granted'
      cases granted'

theorem marked_step (inv : Marked ops builder) (op : BuilderOp State) :
    Marked (ops ++ [op]) (builderStep builder op) := by
  have aside {other : BuilderOp State} {after : Builder} (none : other.unmarked = none)
      (ids : after.ids = builder.ids) (saved : after.savedMask = builder.savedMask)
      (referenced : after.referencedMask = builder.referencedMask) : Marked (ops ++ [other]) after := by
    have same : (ops ++ [other]).filterMap BuilderOp.unmarked = ops.filterMap BuilderOp.unmarked := by
      simp [List.filterMap_append,none]
    refine ⟨?_,?_,?_,?_,?_,fun all => ?_⟩
    · rw [saved]
      exact inv.saved
    · rw [referenced]
      exact inv.length
    · rw [ids,referenced]
      exact inv.marked
    · rw [ids]
      exact inv.apart
    · rw [ids,same]
      exact inv.beyond
    · rw [ids,same]
      exact inv.whole fun op member => all op (List.mem_append_left _ member)
  cases op with
  | addObjectAsReference granted object => exact marked_add inv granted object
  | addObject => exact aside rfl rfl rfl rfl
  | start => exact aside rfl rfl rfl rfl
  | buildNextStage => exact aside rfl rfl rfl rfl
  | finish => exact aside rfl rfl rfl rfl

theorem marked_run (ops : List (BuilderOp State)) : Marked ops (builderRun ops {}) := by
  induction ops using List.reverseRecOn with
  | nil => exact marked_created
  | append_singleton ops op ih =>
    rw [builderRun,List.foldl_append]
    exact marked_step ih op

end Adding

/-- No ID is listed twice if none beyond the bits of the masks is added twice; and with memory granted for every
add, only then. -/
theorem listed_once_iff (ops : List (BuilderOp State)) :
    ((ops.filterMap BuilderOp.unmarked).Nodup → ∀ done, done <+: ops → (builderRun done {}).ids.Nodup) ∧
    ((∀ op ∈ ops, op.granted = true) → (builderRun ops {}).ids.Nodup → (ops.filterMap BuilderOp.unmarked).Nodup) := by
  constructor
  · rintro apart done ⟨rest,rfl⟩
    have inv := marked_run done
    rw [List.filterMap_append] at apart
    have large := inv.beyond.nodup (List.nodup_append.mp apart).1
    have parts := List.filter_append_perm (fun id : UInt32 => decide (id.toNat < 1024)) (builderRun done {}).ids
    have same : (fun id : UInt32 => !decide (id.toNat < 1024)) = fun id => decide (1024 ≤ id.toNat) := by
      funext id
      rw [← decide_not]
      exact decide_eq_decide.mpr Nat.not_lt
    rw [same] at parts
    refine parts.nodup_iff.mp (List.Nodup.append inv.apart large ?_)
    intro id small beyond
    have low : id.toNat < 1024 := of_decide_eq_true (List.mem_filter.mp small).2
    exact absurd (of_decide_eq_true (List.mem_filter.mp beyond).2) (Nat.not_le_of_lt low)
  · intro all listed
    rw [← (marked_run ops).whole all]
    exact listed.filter _

def object1024 : Object Unit := { id := 1024, classId := 1 }

theorem listed_once_small : (builderRun [.addObjectAsReference true { object1024 with id := 1023 },
    .addObjectAsReference true { object1024 with id := 1023 },.addObjectAsReference true object1024] {}).ids.Nodup :=
  (listed_once_iff _).1 (by decide) _ (List.prefix_refl _)

theorem object1024_twice : ¬ ∀ ops : List (BuilderOp Unit), (builderRun ops {}).ids.Nodup := by
  intro once
  have twice := once [.addObjectAsReference true object1024,.addObjectAsReference true object1024]
  revert twice
  decide

end Libnmo.Session
