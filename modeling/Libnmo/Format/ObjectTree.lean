import Libnmo.Core.Error
import Libnmo.Lib.Links
import Libnmo.Lib.Machine
import Mathlib.Logic.Function.Basic

/-! Objects as parents and children: a pointer up, and an array of pointers down that
doubles when it is full. Neither function looks at what the objects are to each other
already. -/
namespace Libnmo.Format
open Core Lib Lib.Links

/-- The part of an object that places it among the others. -/
structure ObjectLinks where
  parent : Option Nat := none
  children : List Nat := []
  childCapacity : Nat := 0

/-- Objects by their addresses. One that has not been created has no links, as a new one has none. -/
abbrev ObjectHeap := Nat → ObjectLinks

def initialChildCapacity : Nat := 4

def ObjectLinks.grown (links : ObjectLinks) : ObjectLinks :=
  if links.children.length ≥ links.childCapacity then { links with
    childCapacity := if links.childCapacity = 0 then initialChildCapacity else links.childCapacity * 2 }
  else links

/-- A write to an object. -/
def ObjectHeap.write (heap : ObjectHeap) (object : Nat) (change : ObjectLinks → ObjectLinks) : ObjectHeap :=
  Function.update heap object (change (heap object))

def objectAddChild (parent child : Nat) : Run ObjectHeap Unit :=
  Action.update fun heap =>
    (heap.write parent fun links => { links.grown with children := links.children ++ [child] }).write child
      fun links => { links with parent := some parent }

/-- The first entry of the child goes, whatever its own pointer says. -/
def objectRemoveChild (parent child : Nat) : Run ObjectHeap Unit := do
  let children ← Action.read fun heap => (heap parent).children
  (if child ∈ children then
    Action.update fun heap => (heap.write parent fun links => { links with children := links.children.erase child }).write
      child fun links => { links with parent := none }
  else fail .invalidArgument "")

def objectGetChild (heap : ObjectHeap) (object index : Nat) : Option Nat := (heap object).children[index]?

def objectGetChildCount (heap : ObjectHeap) (object : Nat) : Nat := (heap object).children.length

inductive TreeCall
  | add (parent child : Nat)
  | remove (parent child : Nat)

def treeCall : TreeCall → Run ObjectHeap Unit
  | .add parent child => objectAddChild parent child
  | .remove parent child => objectRemoveChild parent child

def treeStep (heap : ObjectHeap) (call : TreeCall) : ObjectHeap := ((treeCall call).run heap).2

def newObjects : ObjectHeap := fun _ => {}

def treeAfter (calls : List TreeCall) : ObjectHeap := Machine.run treeStep newObjects calls

end Libnmo.Format

/-! What calls make of the objects. A pointer up always has an entry that goes with it;
the entries have pointers, and the objects are a forest, as long as only roots are
added, and none below itself. -/
namespace Libnmo.Format
open Core Lib Lib.Links

section Writing
variable (heap : ObjectHeap) (object other : Nat) (change : ObjectLinks → ObjectLinks)

@[simp] theorem write_same : heap.write object change object = change (heap object) := by
  simp [ObjectHeap.write]

theorem write_other (apart : other ≠ object) : heap.write object change other = heap other := by
  simp [ObjectHeap.write,apart]

end Writing

section Steps
variable (heap : ObjectHeap) (parent child object : Nat)

/-- What an addition leaves of each object. -/
theorem add_parent : (treeStep heap (.add parent child) object).parent =
    if object = child then some parent else (heap object).parent := by
  simp only [treeStep,treeCall,objectAddChild,Action.update_apply]
  by_cases same : object = child
  · simp [same]
  · rw [write_other _ _ _ _ same,if_neg same]
    by_cases upper : object = parent
    · subst upper
      simp only [write_same,ObjectLinks.grown]
      split <;> rfl
    · rw [write_other _ _ _ _ upper]

theorem add_children : (treeStep heap (.add parent child) object).children =
    if object = parent then (heap object).children ++ [child] else (heap object).children := by
  simp only [treeStep,treeCall,objectAddChild,Action.update_apply]
  have lower (heap : ObjectHeap) : (heap.write child (fun links => { links with parent := some parent }) object).children =
      (heap object).children := by
    by_cases same : object = child
    · simp [same]
    · rw [write_other _ _ _ _ same]
  rw [lower]
  by_cases upper : object = parent
  · simp [upper]
  · rw [write_other _ _ _ _ upper,if_neg upper]

theorem remove_absent (absent : child ∉ (heap parent).children) : treeStep heap (.remove parent child) = heap := by
  simp only [treeStep,treeCall,objectRemoveChild]
  rw [Action.bind_ok _ (Action.read_apply _ _),if_neg absent]
  rfl

theorem remove_parent (present : child ∈ (heap parent).children) :
    (treeStep heap (.remove parent child) object).parent = if object = child then none else (heap object).parent := by
  simp only [treeStep,treeCall,objectRemoveChild]
  rw [Action.bind_ok _ (Action.read_apply _ _),if_pos present]
  simp only [Action.update_apply]
  by_cases same : object = child
  · simp [same]
  · rw [write_other _ _ _ _ same,if_neg same]
    by_cases upper : object = parent
    · simp [upper]
    · rw [write_other _ _ _ _ upper]

theorem remove_children (present : child ∈ (heap parent).children) :
    (treeStep heap (.remove parent child) object).children =
      if object = parent then (heap object).children.erase child else (heap object).children := by
  simp only [treeStep,treeCall,objectRemoveChild]
  rw [Action.bind_ok _ (Action.read_apply _ _),if_pos present]
  simp only [Action.update_apply]
  have lower (heap : ObjectHeap) : (heap.write child (fun links => { links with parent := none }) object).children =
      (heap object).children := by
    by_cases same : object = child
    · simp [same]
    · rw [write_other _ _ _ _ same]
  rw [lower]
  by_cases upper : object = parent
  · simp [upper]
  · rw [write_other _ _ _ _ upper,if_neg upper]

end Steps

/-- What holds of objects whatever is called: a pointer up has its entry below, and the
array has room for the entries, in one of the sizes that doubling comes to. -/
structure Listed (heap : ObjectHeap) : Prop where
  entry : ∀ parent child, (heap child).parent = some parent → child ∈ (heap parent).children
  room : ∀ object, (heap object).children.length ≤ (heap object).childCapacity
  sizes : ∀ object, (heap object).childCapacity = 0 ∨ ∃ doublings, (heap object).childCapacity = initialChildCapacity * 2 ^ doublings

section Rooms
variable (heap : ObjectHeap) (parent child object : Nat)

theorem add_capacity : (treeStep heap (.add parent child) object).childCapacity =
    if object = parent then (heap object).grown.childCapacity else (heap object).childCapacity := by
  simp only [treeStep,treeCall,objectAddChild,Action.update_apply]
  have lower (heap : ObjectHeap) : (heap.write child (fun links => { links with parent := some parent }) object).childCapacity =
      (heap object).childCapacity := by
    by_cases same : object = child
    · simp [same]
    · rw [write_other _ _ _ _ same]
  rw [lower]
  by_cases upper : object = parent
  · simp [upper]
  · rw [write_other _ _ _ _ upper,if_neg upper]

theorem remove_capacity : (treeStep heap (.remove parent child) object).childCapacity = (heap object).childCapacity := by
  by_cases present : child ∈ (heap parent).children
  · simp only [treeStep,treeCall,objectRemoveChild]
    rw [Action.bind_ok _ (Action.read_apply _ _),if_pos present]
    simp only [Action.update_apply]
    by_cases same : object = child
    · by_cases upper : object = parent
      · simp [← same,← upper]
      · rw [same] at upper
        rw [same,write_same,write_other _ _ _ _ upper]
    · rw [write_other _ _ _ _ same]
      by_cases upper : object = parent
      · simp [upper]
      · rw [write_other _ _ _ _ upper]
  · rw [remove_absent heap parent child present]

theorem remove_sublist :
    List.Sublist (treeStep heap (.remove parent child) object).children (heap object).children := by
  by_cases present : child ∈ (heap parent).children
  · rw [remove_children heap parent child object present]
    split
    · exact List.erase_sublist
    · exact List.Sublist.refl _
  · rw [remove_absent heap parent child present]

end Rooms

theorem grown_room (links : ObjectLinks) (room : links.children.length ≤ links.childCapacity) :
    links.children.length < links.grown.childCapacity := by
  unfold ObjectLinks.grown
  by_cases full : links.children.length ≥ links.childCapacity
  · rw [if_pos full]
    by_cases first : links.childCapacity = 0
    · simp only [if_pos first,initialChildCapacity]
      omega
    · simp only [if_neg first]
      omega
  · rw [if_neg full]
    omega

theorem grown_sizes (links : ObjectLinks)
    (sizes : links.childCapacity = 0 ∨ ∃ doublings, links.childCapacity = initialChildCapacity * 2 ^ doublings) :
    links.grown.childCapacity = 0 ∨ ∃ doublings, links.grown.childCapacity = initialChildCapacity * 2 ^ doublings := by
  unfold ObjectLinks.grown
  by_cases full : links.children.length ≥ links.childCapacity
  · rw [if_pos full]
    apply Or.inr
    by_cases first : links.childCapacity = 0
    · exact ⟨0,by simp [first]⟩
    · obtain ⟨doublings,size⟩ := sizes.resolve_left first
      refine ⟨doublings + 1,?_⟩
      simp only [if_neg first]
      rw [size,Nat.pow_succ,Nat.mul_assoc]
  · rw [if_neg full]
    exact sizes

theorem listed_add (heap : ObjectHeap) (parent child : Nat) (listed : Listed heap) :
    Listed (treeStep heap (.add parent child)) where
  entry upper lower points := by
    rw [add_parent] at points
    rw [add_children]
    by_cases same : lower = child
    · rw [if_pos same,Option.some.injEq] at points
      simp [points,same]
    · rw [if_neg same] at points
      have before := listed.entry upper lower points
      split
      · exact List.mem_append_left _ before
      · exact before
  room object := by
    rw [add_children,add_capacity]
    split
    · rw [List.length_append,List.length_singleton]
      exact grown_room _ (listed.room object)
    · exact listed.room object
  sizes object := by
    rw [add_capacity]
    split
    · exact grown_sizes _ (listed.sizes object)
    · exact listed.sizes object

theorem listed_remove (heap : ObjectHeap) (parent child : Nat) (listed : Listed heap) :
    Listed (treeStep heap (.remove parent child)) where
  entry upper lower points := by
    by_cases present : child ∈ (heap parent).children
    · rw [remove_parent heap parent child lower present] at points
      rw [remove_children heap parent child upper present]
      by_cases same : lower = child
      · simp [same] at points
      · rw [if_neg same] at points
        have before := listed.entry upper lower points
        split
        · exact (List.mem_erase_of_ne same).mpr before
        · exact before
    · rw [remove_absent heap parent child present] at points ⊢
      exact listed.entry upper lower points
  room object := by
    rw [remove_capacity]
    exact (remove_sublist heap parent child object).length_le.trans (listed.room object)
  sizes object := by
    rw [remove_capacity]
    exact listed.sizes object

theorem listed_step (heap : ObjectHeap) (call : TreeCall) (listed : Listed heap) : Listed (treeStep heap call) := by
  cases call with
  | add parent child => exact listed_add heap parent child listed
  | remove parent child => exact listed_remove heap parent child listed

theorem listed_new : Listed newObjects where
  entry _ _ points := by simp [newObjects] at points
  room _ := by simp [newObjects]
  sizes _ := .inl rfl

theorem objects_listed (calls : List TreeCall) : Listed (treeAfter calls) := by
  apply Machine.run_keeps listed_step
  exact listed_new

end Libnmo.Format

/-! A forest: each pointer has one entry, there are no others, and no object is below itself. -/
namespace Libnmo.Format
open Core Lib Lib.Links

def parentOf (heap : ObjectHeap) (object : Nat) : Option Nat := (heap object).parent

structure Forest (heap : ObjectHeap) : Prop where
  entries : ∀ parent child, (heap parent).children.count child = if parentOf heap child = some parent then 1 else 0
  acyclic : Acyclic (parentOf heap)

/-- Removing is always in order. What is added is a root, and the object it is added to is neither itself nor below it. -/
def InOrder (heap : ObjectHeap) : TreeCall → Prop
  | .add parent child => parentOf heap child = none ∧ ¬ Relation.ReflTransGen (LinksTo (parentOf heap)) parent child
  | .remove _ _ => True

section Forests
variable (heap : ObjectHeap) (parent child : Nat)

theorem add_count (upper lower : Nat) : (treeStep heap (.add parent child) upper).children.count lower =
    (heap upper).children.count lower + if upper = parent ∧ lower = child then 1 else 0 := by
  rw [add_children]
  by_cases above : upper = parent
  · rw [if_pos above,List.count_append,List.count_singleton]
    by_cases below : lower = child
    · simp [above,below]
    · simp [below,Ne.symm below]
  · simp [above]

theorem parentOf_add (lower : Nat) : parentOf (treeStep heap (.add parent child)) lower =
    if lower = child then some parent else parentOf heap lower := add_parent heap parent child lower

theorem added_root (root : parentOf heap child = none) :
    Added (parentOf heap) (parentOf (treeStep heap (.add parent child))) child parent where
  root := root
  linked := by rw [parentOf_add,if_pos rfl]
  other lower apart := by rw [parentOf_add,if_neg apart]

variable {heap} (forest : Forest heap)
include forest

/-- The entries go with the pointers after an addition just when the object had no pointer. -/
theorem add_entries_iff : (∀ upper lower, (treeStep heap (.add parent child) upper).children.count lower =
    if parentOf (treeStep heap (.add parent child)) lower = some upper then 1 else 0) ↔ parentOf heap child = none := by
  constructor
  · intro entries
    cases old : parentOf heap child with
    | none => rfl
    | some first =>
      have listed := forest.entries first child
      have here := entries first child
      rw [add_count,listed,parentOf_add,if_pos old,if_pos rfl] at here
      by_cases same : first = parent
      · simp [same] at here
      · simp [same,Ne.symm same] at here
  · intro root upper lower
    rw [add_count,parentOf_add,forest.entries]
    by_cases below : lower = child
    · rw [below,root,if_pos rfl]
      by_cases above : upper = parent
      · simp [above]
      · simp [above,Ne.symm above]
    · simp [below]

theorem forest_add_iff : Forest (treeStep heap (.add parent child)) ↔ InOrder heap (.add parent child) := by
  constructor
  · intro after
    have root := (add_entries_iff parent child forest).mp after.entries
    exact ⟨root,((added_root heap parent child root).acyclic_iff forest.acyclic).mp after.acyclic⟩
  · intro inOrder
    have added := added_root heap parent child inOrder.1
    exact ⟨(add_entries_iff parent child forest).mpr inOrder.1,(added.acyclic_iff forest.acyclic).mpr inOrder.2⟩

theorem forest_remove : Forest (treeStep heap (.remove parent child)) := by
  by_cases present : child ∈ (heap parent).children
  · have pointed : parentOf heap child = some parent := by
      by_contra elsewhere
      have none_listed := forest.entries parent child
      rw [if_neg elsewhere] at none_listed
      exact List.count_eq_zero.mp none_listed present
    have pointers (lower : Nat) : parentOf (treeStep heap (.remove parent child)) lower =
        if lower = child then none else parentOf heap lower := remove_parent heap parent child lower present
    refine ⟨fun upper lower => ?_,?_⟩
    · have before := forest.entries upper lower
      rw [remove_children heap parent child upper present,pointers]
      by_cases below : lower = child
      · rw [below,pointed] at before
        by_cases above : upper = parent
        · rw [above] at before
          simp [below,above,List.count_erase_self,before]
        · rw [if_neg above,below,before]
          simp [Ne.symm above]
      · rw [if_neg below,← before]
        split
        · exact List.count_erase_of_ne below
        · rfl
    · apply forest.acyclic.sub
      intro lower upper link
      rw [LinksTo,pointers] at link
      by_cases below : lower = child
      · simp [below] at link
      · rwa [if_neg below] at link
  · rw [remove_absent heap parent child present]
    exact forest

end Forests

theorem forest_step_iff (heap : ObjectHeap) (call : TreeCall) (forest : Forest heap) :
    Forest (treeStep heap call) ↔ InOrder heap call := by
  cases call with
  | add parent child => exact forest_add_iff parent child forest
  | remove parent child => exact ⟨fun _ => trivial,fun _ => forest_remove parent child forest⟩

theorem forest_new : Forest newObjects where
  entries _ _ := by simp [newObjects,parentOf]
  acyclic object round := by
    obtain ⟨next,link,_⟩ := Relation.TransGen.head'_iff.mp round
    simp [LinksTo,parentOf,newObjects] at link

/-- The objects are a forest all along just when every call was in order. -/
theorem forest_iff (calls : List TreeCall) : (∀ done, done <+: calls → Forest (treeAfter done)) ↔
    ∀ visit ∈ Machine.visits treeStep newObjects calls, InOrder visit.1 visit.2 := by
  have each (heap : ObjectHeap) (call : TreeCall) (_ : True) (forest : Forest heap) :
      Forest (treeStep heap call) ↔ InOrder heap call := forest_step_iff heap call forest
  exact Machine.reached_iff (fun _ _ _ => trivial) each trivial forest_new calls

end Libnmo.Format
