import Libnmo.Lib.Links
import Libnmo.Schema.SchemaRegistry

/-! Questions about the class hierarchy, each answered by a walk of its own: over IDs
through names, over names alone, or over a list of ancestors that a first walk left. -/
namespace Libnmo.Schema

/-- The loop of `nmo_class_is_derived_from`, for a number of steps. -/
def derivedLoop (parentId : UInt32) : Nat → UInt32 → Bool
  | 0,_ => false
  | steps + 1,currentId =>
    if currentId = 0 then false
    else match (ckclassGetNameById currentId).bind ckclassGetParent with
      | none => false
      | some parentName =>
        let parentClassId := ckclassGetIdByName parentName
        if parentClassId = parentId then true else derivedLoop parentId steps parentClassId

def classIsDerivedFrom (childId parentId : UInt32) : Bool :=
  if childId = parentId then true
  else if childId = 0 ∨ parentId = 0 then false
  else derivedLoop parentId ckClasses.length childId

/-- The array holds so many at most; there is none for a count of zero. -/
def classGetAncestors (classId : UInt32) (maxCount : Nat) : Option (List UInt32) :=
  if maxCount = 0 then none else some (classAncestors maxCount classId)

def commonLoop (ancestors1 : List UInt32) : Nat → UInt32 → UInt32
  | 0,_ => 0
  | steps + 1,current =>
    if current = 0 then 0
    else if current ∈ ancestors1 then current
    else commonLoop ancestors1 steps (classGetParent current)

def classGetCommonAncestor (classId1 classId2 : UInt32) : UInt32 :=
  if classId1 = 0 ∨ classId2 = 0 then 0
  else if classIsDerivedFrom classId1 classId2 then classId2
  else if classIsDerivedFrom classId2 classId1 then classId1
  else match classGetAncestors classId1 32 with
    | none => 0
    | some ancestors1 => commonLoop ancestors1 (ckClasses.length + 1) classId2

def levelLoop : Nat → UInt32 → Nat
  | 0,_ => 0
  | steps + 1,current =>
    let parent := classGetParent current
    if parent = 0 then 0 else levelLoop steps parent + 1

def classGetDerivationLevel (classId : UInt32) : Int :=
  if classId = 0 then -1
  else if classId = 1 then 0
  else levelLoop ckClasses.length classId

/-- The walk of `nmo_ckclass_uses_beobject` over names. -/
def beobjectLoop : Nat → CkClassName → Int
  | 0,_ => 0
  | steps + 1,current =>
    if current = .ckBeObject then 1
    else if current = .ckObject then 0
    else match ckclassGetParent current with
      | none => 0
      | some parent => beobjectLoop steps parent

def ckclassUsesBeobject (classId : UInt32) : Int :=
  match ckClasses.find? fun c => c.classId = classId with
  | none => -1
  | some classDef => beobjectLoop (ckClasses.length + 1) classDef.name

def classIsRenderObject (classId : UInt32) : Bool := classIsDerivedFrom classId 47

def classIs3dEntity (classId : UInt32) : Bool := classIsDerivedFrom classId 33

def classIs2dEntity (classId : UInt32) : Bool := classIsDerivedFrom classId 27

end Libnmo.Schema

/-! The hierarchy as a relation: a class leads to its parent. What the walks find is what is
reached, since none of them is cut off before the root. -/
namespace Libnmo.Schema
open Lib Lib.Links

def parentLink (classId : UInt32) : Option UInt32 :=
  if classGetParent classId = 0 then none else some (classGetParent classId)

/-- The class is the other one or derived from it. -/
def Derived (classId ancestor : UInt32) : Prop := Relation.ReflTransGen (LinksTo parentLink) classId ancestor

section Walks
variable {classId parent target : UInt32} {steps : Nat}

theorem parentLink_none : parentLink classId = none ↔ classGetParent classId = 0 := by
  unfold parentLink
  split
  · simp [*]
  · simp [*]

theorem parentLink_some (link : parentLink classId = some parent) : classGetParent classId = parent ∧ parent ≠ 0 := by
  unfold parentLink at link
  split at link
  · cases link
  · rename_i above
    obtain rfl := Option.some.inj link
    exact ⟨rfl,above⟩

theorem parentLink_zero : parentLink 0 = none := by
  rw [parentLink_none,classGetParent,if_pos rfl]

theorem classDepth_link (link : LinksTo parentLink classId parent) : classDepth parent < classDepth classId := by
  obtain ⟨rfl,above⟩ := parentLink_some link
  exact classDepth_parent classId above

theorem hierarchy_acyclic : Acyclic parentLink := acyclic_of_lower classDepth fun _ _ => classDepth_link

theorem follow_depth {n : Nat} {end' : UInt32} (reached : follow parentLink n classId = some end') : n ≤ classDepth classId := by
  induction n generalizing classId with
  | zero => exact Nat.zero_le _
  | succ n ih =>
    obtain ⟨next,link,rest⟩ := Option.bind_eq_some_iff.mp reached
    have within := ih rest
    have lower := classDepth_link link
    omega

theorem ancestors_root (root : parentLink classId = none) : classAncestors steps classId = [] := by
  cases steps with
  | zero => rfl
  | succ steps =>
    unfold classAncestors
    simp only [parentLink_none.mp root,↓reduceIte]

theorem ancestors_link (link : parentLink classId = some parent) :
    classAncestors (steps + 1) classId = parent :: classAncestors steps parent := by
  obtain ⟨rfl,above⟩ := parentLink_some link
  rw [classAncestors]
  simp only [if_neg above]

theorem mem_ancestors : target ∈ classAncestors steps classId ↔ ∃ n < steps, follow parentLink (n + 1) classId = some target := by
  induction steps generalizing classId with
  | zero => simp [classAncestors]
  | succ steps ih =>
    cases up : parentLink classId with
    | none =>
      rw [ancestors_root up]
      simp [follow,up]
    | some parent =>
      rw [ancestors_link up,List.mem_cons,ih]
      constructor
      · intro either
        cases either with
        | inl same => exact ⟨0,Nat.succ_pos _,by simp [follow,up,same]⟩
        | inr above =>
          obtain ⟨n,short,reached⟩ := above
          exact ⟨n + 1,Nat.succ_lt_succ short,by rw [follow,up]; exact reached⟩
      · intro reached
        obtain ⟨n,short,reached⟩ := reached
        rw [follow,up,Option.bind_some] at reached
        cases n with
        | zero => exact .inl (Option.some.inj reached).symm
        | succ n => exact .inr ⟨n,Nat.lt_of_succ_lt_succ short,reached⟩

/-- A list with room for the whole way up holds all that is above. -/
theorem mem_ancestors_iff (enough : classDepth classId ≤ steps) :
    target ∈ classAncestors steps classId ↔ Relation.TransGen (LinksTo parentLink) classId target := by
  rw [mem_ancestors,transGen_iff]
  constructor
  · intro reached
    obtain ⟨n,_,reached⟩ := reached
    exact ⟨n,reached⟩
  · intro reached
    obtain ⟨n,reached⟩ := reached
    have within := follow_depth reached
    exact ⟨n,by omega,reached⟩

theorem derivedLoop_root (known : target ≠ 0) (root : parentLink classId = none) : derivedLoop target steps classId = false := by
  induction steps generalizing classId with
  | zero => rfl
  | succ steps ih =>
    have none_above := parentLink_none.mp root
    unfold classGetParent at none_above
    unfold derivedLoop
    by_cases zero : classId = 0
    · rw [if_pos zero]
    · rw [if_neg zero] at none_above ⊢
      cases named : (ckclassGetNameById classId).bind ckclassGetParent with
      | none => rfl
      | some name =>
        simp only [named] at none_above
        simp only [none_above,if_neg (Ne.symm known)]
        exact ih parentLink_zero

theorem derivedLoop_link (link : parentLink classId = some parent) :
    derivedLoop target (steps + 1) classId = if parent = target then true else derivedLoop target steps parent := by
  obtain ⟨above,known⟩ := parentLink_some link
  unfold classGetParent at above
  rw [derivedLoop]
  by_cases zero : classId = 0
  · rw [if_pos zero] at above
    exact absurd above.symm known
  · rw [if_neg zero] at above ⊢
    cases named : (ckclassGetNameById classId).bind ckclassGetParent with
    | none =>
      simp only [named] at above
      exact absurd above.symm known
    | some name =>
      simp only [named] at above
      simp only [above]

theorem derivedLoop_iff (known : target ≠ 0) : derivedLoop target steps classId = true ↔ target ∈ classAncestors steps classId := by
  induction steps generalizing classId with
  | zero => simp [derivedLoop,classAncestors]
  | succ steps ih =>
    cases up : parentLink classId with
    | none =>
      rw [ancestors_root up,derivedLoop_root known up]
      simp
    | some parent =>
      rw [ancestors_link up,derivedLoop_link up,List.mem_cons]
      by_cases same : parent = target
      · simp [same]
      · rw [if_neg same,ih]
        simp [Ne.symm same]

end Walks

section Answers
variable {classId ancestor classId1 classId2 common : UInt32}

theorem derived_zero (derived : Derived classId 0) : classId = 0 := by
  cases Relation.ReflTransGen.cases_tail derived with
  | inl same => exact same.symm
  | inr above =>
    obtain ⟨_,_,link⟩ := above
    exact absurd rfl (parentLink_some link).2

theorem zero_derived (derived : Derived 0 ancestor) : ancestor = 0 := by
  cases Relation.ReflTransGen.cases_head derived with
  | inl same => exact same.symm
  | inr above =>
    obtain ⟨_,link,_⟩ := above
    rw [LinksTo,parentLink_zero] at link
    cases link

theorem isDerivedFrom_iff : classIsDerivedFrom classId ancestor = true ↔ Derived classId ancestor := by
  unfold classIsDerivedFrom
  by_cases same : classId = ancestor
  · rw [if_pos same,same]
    simp [Derived,Relation.ReflTransGen.refl]
  rw [if_neg same]
  by_cases zero : classId = 0 ∨ ancestor = 0
  · rw [if_pos zero]
    constructor
    · intro absent
      cases absent
    · intro derived
      cases zero with
      | inl zero =>
        rw [zero] at derived same
        exact absurd (zero_derived derived).symm same
      | inr zero =>
        rw [zero] at derived same
        exact absurd (derived_zero derived) same
  · rw [if_neg zero,derivedLoop_iff (fun root => zero (.inr root)),mem_ancestors_iff (classDepth_le classId)]
    constructor
    · intro above
      exact above.to_reflTransGen
    · intro derived
      exact (Relation.reflTransGen_iff_eq_or_transGen.mp derived).resolve_left (Ne.symm same)

/-- No class is so deep that the array of the ancestors is too short for it. -/
theorem classDepth_32 (classId : UInt32) : classDepth classId ≤ 32 := by
  have table : ∀ c ∈ ckClasses, classDepth c.classId ≤ 32 := by decide +kernel
  by_cases known : ∃ c ∈ ckClasses, c.classId = classId
  · obtain ⟨c,member,rfl⟩ := known
    exact table c member
  · have root : parentLink classId = none :=
      parentLink_none.mpr (classGetParent_unknown fun c member same => known ⟨c,member,same⟩)
    rw [classDepth,ancestors_root root]
    exact Nat.zero_le _

theorem commonLoop_zero (ancestors1 : List UInt32) (steps : Nat) : commonLoop ancestors1 steps 0 = 0 := by
  cases steps with
  | zero => rfl
  | succ steps => rw [commonLoop,if_pos rfl]

/-- The second walk ends at the first class that the first walk has listed, or at the root when there is none. -/
theorem commonLoop_lowest {ancestors1 : List UInt32} (listed : ∀ d, Derived classId2 d → (d ∈ ancestors1 ↔ Derived classId1 d))
    {steps : Nat} {current : UInt32} (enough : classDepth current < steps) (before : Before parentLink classId1 classId2 current) :
    commonLoop ancestors1 steps current = common ∧ common ≠ 0 ↔ Lowest parentLink classId1 classId2 common ∧ common ≠ 0 := by
  induction steps generalizing current with
  | zero => exact absurd enough (Nat.not_lt_zero _)
  | succ steps ih =>
    have here := listed current before.reached
    unfold commonLoop
    by_cases zero : current = 0
    · rw [if_pos zero]
      constructor
      · intro found
        exact absurd found.1.symm found.2
      · intro lowest
        have way := before.ahead common lowest.1.left lowest.1.right
        rw [zero] at way
        exact absurd (zero_derived way) lowest.2
    rw [if_neg zero]
    by_cases shared : current ∈ ancestors1
    · rw [if_pos shared]
      have lowest := before.lowest (here.mp shared)
      constructor
      · intro found
        rw [← found.1]
        exact ⟨lowest,zero⟩
      · intro other
        exact ⟨lowest.unique hierarchy_acyclic other.1,other.2⟩
    rw [if_neg shared]
    have apart : ¬ Derived classId1 current := fun derived => shared (here.mpr derived)
    cases up : parentLink current with
    | none =>
      rw [parentLink_none.mp up,commonLoop_zero]
      constructor
      · intro found
        exact absurd found.1.symm found.2
      · intro lowest
        exact (before.apart apart up lowest.1.left lowest.1.right).elim
    | some parent =>
      have lower := classDepth_link up
      rw [(parentLink_some up).1]
      exact ih (by omega) (before.step apart up)

/-- What both classes are derived from and what is above nothing else that both are; zero where there is no such class. -/
theorem common_ancestor_iff : classGetCommonAncestor classId1 classId2 = common ∧ common ≠ 0 ↔
    Lowest parentLink classId1 classId2 common ∧ common ≠ 0 := by
  have settled {c : UInt32} (lowest : Lowest parentLink classId1 classId2 c) :
      c = common ∧ common ≠ 0 ↔ Lowest parentLink classId1 classId2 common ∧ common ≠ 0 := by
    constructor
    · intro found
      have known := found.2
      rw [← found.1] at known ⊢
      exact ⟨lowest,known⟩
    · intro other
      exact ⟨lowest.unique hierarchy_acyclic other.1,other.2⟩
  unfold classGetCommonAncestor
  by_cases zero : classId1 = 0 ∨ classId2 = 0
  · rw [if_pos zero]
    constructor
    · intro found
      exact absurd found.1.symm found.2
    · intro lowest
      cases zero with
      | inl zero =>
        have left := lowest.1.left
        rw [zero] at left
        exact absurd (zero_derived left) lowest.2
      | inr zero =>
        have right := lowest.1.right
        rw [zero] at right
        exact absurd (zero_derived right) lowest.2
  rw [if_neg zero]
  by_cases above : classIsDerivedFrom classId1 classId2 = true
  · rw [if_pos above]
    exact settled (lowest_of_reached (isDerivedFrom_iff.mp above))
  rw [if_neg above]
  by_cases below : classIsDerivedFrom classId2 classId1 = true
  · rw [if_pos below]
    exact settled (lowest_of_reached (isDerivedFrom_iff.mp below)).symm
  rw [if_neg below]
  have apart : ¬ Derived classId2 classId1 := fun derived => below (isDerivedFrom_iff.mpr derived)
  have listed (d : UInt32) (reached : Derived classId2 d) : d ∈ classAncestors 32 classId1 ↔ Derived classId1 d := by
    rw [mem_ancestors_iff (classDepth_32 classId1)]
    constructor
    · intro way
      exact way.to_reflTransGen
    · intro derived
      refine (Relation.reflTransGen_iff_eq_or_transGen.mp derived).resolve_left fun same => ?_
      rw [same] at reached
      exact apart reached
  have enough := classDepth_le classId2
  exact commonLoop_lowest listed (by omega) before_start

theorem levelLoop_length (steps : Nat) : levelLoop steps classId = (classAncestors steps classId).length := by
  induction steps generalizing classId with
  | zero => rfl
  | succ steps ih =>
    rw [levelLoop,classAncestors]
    split
    · rfl
    · rw [ih,List.length_cons]

theorem classDepth_root (root : parentLink classId = none) : classDepth classId = 0 := by
  rw [classDepth,ancestors_root root,List.length_nil]

theorem classDepth_succ {parent : UInt32} (link : parentLink classId = some parent) :
    classDepth classId = classDepth parent + 1 := by
  have lower := classDepth_link link
  have deep := classDepth_le classId
  have more : classAncestors ckClasses.length classId = classAncestors (ckClasses.length + 1) classId :=
    classAncestors_enough classId deep (by omega)
  rw [classDepth,more,ancestors_link link,List.length_cons,classDepth]

/-- The depth is the number of links to the class without a parent. -/
theorem classDepth_iff {n : Nat} : classDepth classId = n ↔ ∃ root, follow parentLink n classId = some root ∧ parentLink root = none := by
  induction n generalizing classId with
  | zero =>
    cases up : parentLink classId with
    | none =>
      rw [classDepth_root up]
      simp [follow,up]
    | some parent =>
      rw [classDepth_succ up]
      simp [follow,up]
  | succ n ih =>
    cases up : parentLink classId with
    | none =>
      rw [classDepth_root up]
      simp [follow,up]
    | some parent =>
      rw [classDepth_succ up,follow,up,Option.bind_some,← ih]
      omega

/-- The level counts the links up to a class without a parent, be it the root or one that is not in the table. -/
theorem derivation_level_iff {level : Nat} : classGetDerivationLevel classId = level ↔
    classId ≠ 0 ∧ ∃ root, follow parentLink level classId = some root ∧ parentLink root = none := by
  rw [← classDepth_iff]
  unfold classGetDerivationLevel
  by_cases zero : classId = 0
  · rw [if_pos zero]
    simp [zero]
  rw [if_neg zero]
  have walked : (if classId = 1 then (0 : Int) else levelLoop ckClasses.length classId) = classDepth classId := by
    by_cases object : classId = 1
    · have root : classDepth 1 = 0 := classDepth_root (parentLink_none.mpr (by decide))
      rw [if_pos object,object,root]
      rfl
    · rw [if_neg object,levelLoop_length]
      rfl
  rw [walked]
  simp [zero]

/-- The walk over names finds what the walk over IDs does. -/
theorem usesBeobject_eq : ckclassUsesBeobject classId =
    if ∃ c ∈ ckClasses, c.classId = classId then if classIsDerivedFrom classId 19 then 1 else 0 else -1 := by
  have table : ∀ c ∈ ckClasses, ckclassUsesBeobject c.classId = if classIsDerivedFrom c.classId 19 then 1 else 0 := by
    decide +kernel
  by_cases known : ∃ c ∈ ckClasses, c.classId = classId
  · rw [if_pos known]
    obtain ⟨c,member,rfl⟩ := known
    exact table c member
  · rw [if_neg known]
    have missing : (ckClasses.find? fun c => c.classId = classId) = none := by
      rw [List.find?_eq_none]
      intro c member same
      exact known ⟨c,member,of_decide_eq_true same⟩
    rw [ckclassUsesBeobject,missing]

end Answers

end Libnmo.Schema
