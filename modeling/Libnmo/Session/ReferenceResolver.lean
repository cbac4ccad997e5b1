import Libnmo.Session.ObjectIndex

/-! The reference resolver. References are registered first and looked for in the
repository together: by a strategy of their class, then by their name, then by their
name in any case of letters. -/
namespace Libnmo.Session
open Core Format Lib

variable {State : Type}

/-- A pointer to an object is its ID. -/
structure ObjectRef where
  id : UInt32 := 0
  classId : UInt32
  name : Option (List UInt8) := none
  typeGuid : Guid := ⟨0,0⟩
  resolvedObject : Option UInt32 := none

structure StrategyEntry (State : Type) where
  classId : UInt32
  strategy : ObjectRef → ObjectRepository State → Option UInt32

structure ReferenceStats where
  totalCount : UInt32 := 0
  resolvedCount : UInt32 := 0
  unresolvedCount : UInt32 := 0
  ambiguousCount : UInt32 := 0

/-- The references that a resolution has taken off the pending list are kept in `settled`, where whoever
registered them still sees them. -/
structure ReferenceResolver (State : Type) where
  strategies : List (StrategyEntry State) := []
  settled : List ObjectRef := []
  pending : List ObjectRef := []
  unresolved : List ObjectRef := []
  stats : ReferenceStats := {}

section Strategies

def findByClass (repo : ObjectRepository State) (classId : UInt32) : List (Object State) :=
  repo.objects.filter fun obj => obj.classId = classId

/-- `tolower` in the C locale. -/
def toLower (byte : UInt8) : UInt8 := if 65 ≤ byte ∧ byte ≤ 90 then byte + 32 else byte

def sameName (left right : List UInt8) : Bool := cString left = cString right

/-- `strcasecmp`. -/
def sameNameAnyCase (left right : List UInt8) : Bool := (cString left).map toLower = (cString right).map toLower

/-- The first object of the class that has a name which agrees and is acceptable besides. -/
def findNamed (agrees : List UInt8 → List UInt8 → Bool) (accepts : Object State → Bool) (ref : ObjectRef)
    (repo : ObjectRepository State) : Option UInt32 :=
  match ref.name with
  | none => none
  | some name =>
    ((findByClass repo ref.classId).find? fun obj => obj.named && agrees obj.name name && accepts obj).map Object.id

def resolveStrategyDefault (ref : ObjectRef) (repo : ObjectRepository State) : Option UInt32 :=
  findNamed sameName (fun _ => true) ref repo

/-- Without a type GUID in the reference the name is enough. -/
def resolveStrategyParameter (ref : ObjectRef) (repo : ObjectRepository State) : Option UInt32 :=
  findNamed sameName (fun obj => guidIsNull ref.typeGuid || obj.typeGuid = ref.typeGuid) ref repo

def resolveStrategyFuzzy (ref : ObjectRef) (repo : ObjectRepository State) : Option UInt32 :=
  findNamed sameNameAnyCase (fun _ => true) ref repo

end Strategies

namespace ReferenceResolver

/-- The strategy of the class, else the one that is registered for class 0. -/
def findStrategy (resolver : ReferenceResolver State) (classId : UInt32) : Option (StrategyEntry State) :=
  match resolver.strategies.find? fun entry => entry.classId = classId with
  | some entry => some entry
  | none => resolver.strategies.find? fun entry => entry.classId = 0

def registerStrategy (entry : StrategyEntry State) (resolver : ReferenceResolver State) : ReferenceResolver State :=
  { resolver with strategies := resolver.strategies ++ [entry] }

def registerReference (ref : ObjectRef) (resolver : ReferenceResolver State) : ReferenceResolver State :=
  { resolver with
    pending := resolver.pending ++ [ref]
    stats := { resolver.stats with totalCount := resolver.stats.totalCount + 1 } }

def countResolved (resolver : ReferenceResolver State) : ReferenceResolver State :=
  { resolver with stats := { resolver.stats with resolvedCount := resolver.stats.resolvedCount + 1 } }

def countAmbiguous (resolver : ReferenceResolver State) : ReferenceResolver State :=
  { resolver with stats := { resolver.stats with ambiguousCount := resolver.stats.ambiguousCount + 1 } }

def countUnresolved (resolver : ReferenceResolver State) : ReferenceResolver State :=
  { resolver with stats := { resolver.stats with unresolvedCount := resolver.stats.unresolvedCount + 1 } }

/-- `nmo_reference_resolver_resolve`. -/
def resolve (repo : ObjectRepository State) (ref : ObjectRef) (resolver : ReferenceResolver State) :
    Option UInt32 × ReferenceResolver State :=
  match (resolver.findStrategy ref.classId).bind fun entry => entry.strategy ref repo with
  | some id => (some id,resolver.countResolved)
  | none => match resolveStrategyDefault ref repo with
    | some id => (some id,resolver.countResolved)
    | none => match resolveStrategyFuzzy ref repo with
      | some id => (some id,resolver.countResolved.countAmbiguous)
      | none => (none,resolver.countUnresolved)

/-- One pending reference. -/
def settle (repo : ObjectRepository State) (ref : ObjectRef) (resolver : ReferenceResolver State) :
    ReferenceResolver State :=
  match resolver.resolve repo ref with
  | (some id,resolver) => { resolver with settled := resolver.settled ++ [{ ref with resolvedObject := some id }] }
  | (none,resolver) => { resolver with
      settled := resolver.settled ++ [ref]
      unresolved := resolver.unresolved ++ [ref] }

def settleEach (repo : ObjectRepository State) : List ObjectRef → ReferenceResolver State → ReferenceResolver State
  | [],resolver => resolver
  | ref :: rest,resolver => settleEach repo rest (resolver.settle repo ref)

/-- `nmo_reference_resolver_resolve_all`, which reports success whatever it finds. -/
def resolveAll (repo : ObjectRepository State) (resolver : ReferenceResolver State) : ReferenceResolver State :=
  { settleEach repo resolver.pending { resolver with unresolved := [] } with pending := [] }

section Resolving
variable {repo : ObjectRepository State} {resolver : ReferenceResolver State}

/-- How many references have come to a result. -/
def concluded (resolver : ReferenceResolver State) : UInt32 :=
  resolver.stats.resolvedCount + resolver.stats.unresolvedCount

theorem concluded_resolve (repo : ObjectRepository State) (resolver : ReferenceResolver State) (ref : ObjectRef) :
    (resolver.resolve repo ref).2.concluded = resolver.concluded + 1 ∧
    (resolver.resolve repo ref).2.stats.totalCount = resolver.stats.totalCount ∧
    (resolver.resolve repo ref).2.pending = resolver.pending := by
  have one (a b : UInt32) : a + 1 + b = a + b + 1 := by
    rw [UInt32.add_assoc,UInt32.add_comm 1 b,← UInt32.add_assoc]
  rw [resolve]
  split
  · exact ⟨one _ _,rfl,rfl⟩
  · split
    · exact ⟨one _ _,rfl,rfl⟩
    · split
      · exact ⟨one _ _,rfl,rfl⟩
      · exact ⟨(UInt32.add_assoc _ _ _).symm,rfl,rfl⟩

theorem concluded_settle (repo : ObjectRepository State) (resolver : ReferenceResolver State) (ref : ObjectRef) :
    (resolver.settle repo ref).concluded = resolver.concluded + 1 ∧
    (resolver.settle repo ref).stats.totalCount = resolver.stats.totalCount ∧
    (resolver.settle repo ref).pending = resolver.pending := by
  have counted := concluded_resolve repo resolver ref
  rw [settle]
  split
  · rename_i id after out
    rw [out] at counted
    exact counted
  · rename_i after out
    rw [out] at counted
    exact counted

theorem concluded_settleEach (refs : List ObjectRef) (resolver : ReferenceResolver State) :
    (settleEach repo refs resolver).concluded = resolver.concluded + UInt32.ofNat refs.length ∧
    (settleEach repo refs resolver).stats.totalCount = resolver.stats.totalCount := by
  induction refs generalizing resolver with
  | nil => exact ⟨(UInt32.add_zero _).symm,rfl⟩
  | cons ref rest ih =>
    obtain ⟨one,total,_⟩ := concluded_settle repo resolver ref
    obtain ⟨others,same⟩ := ih (resolver.settle repo ref)
    refine ⟨?_,same.trans total⟩
    rw [settleEach,others,one,List.length_cons,UInt32.ofNat_add,UInt32.add_assoc,UInt32.add_comm (UInt32.ofNat _)]
    rfl

/-- Every pending reference comes to a result, and none is registered. -/
theorem concluded_resolveAll (repo : ObjectRepository State) (resolver : ReferenceResolver State) :
    (resolver.resolveAll repo).concluded = resolver.concluded + UInt32.ofNat resolver.pending.length ∧
    (resolver.resolveAll repo).stats.totalCount = resolver.stats.totalCount :=
  concluded_settleEach resolver.pending { resolver with unresolved := [] }

end Resolving

section Partition
variable {repo : ObjectRepository State} {resolver : ReferenceResolver State} {ref : ObjectRef} {id : UInt32}

theorem sameName_anyCase {left right : List UInt8} (same : sameName left right = true) :
    sameNameAnyCase left right = true := by
  have equal : cString left = cString right := of_decide_eq_true same
  rw [sameNameAnyCase,equal]
  exact decide_eq_true rfl

/-- An object of the repository that has the class of the reference and its name, in some case of letters. -/
def Answers (repo : ObjectRepository State) (ref : ObjectRef) (obj : Object State) : Prop :=
  obj ∈ repo.objects ∧ obj.classId = ref.classId ∧ obj.named = true ∧
    ∃ name, ref.name = some name ∧ sameNameAnyCase obj.name name = true

theorem findNamed_answers {agrees : List UInt8 → List UInt8 → Bool} {accepts : Object State → Bool}
    (close : ∀ left right, agrees left right = true → sameNameAnyCase left right = true)
    (found : findNamed agrees accepts ref repo = some id) : ∃ obj, Answers repo ref obj ∧ obj.id = id := by
  unfold findNamed at found
  cases named : ref.name with
  | none =>
    rw [named] at found
    cases found
  | some name =>
    rw [named] at found
    obtain ⟨obj,first,same⟩ := Option.map_eq_some_iff.mp found
    have fits := List.find?_some first
    simp only [Bool.and_eq_true] at fits
    obtain ⟨member,ofClass⟩ := List.mem_filter.mp (List.mem_of_find?_eq_some first)
    exact ⟨obj,⟨member,of_decide_eq_true ofClass,fits.1.1,name,named,close _ _ fits.1.2⟩,same⟩

theorem fuzzy_misses (missed : resolveStrategyFuzzy ref repo = none) (obj : Object State) : ¬ Answers repo ref obj := by
  rintro ⟨member,ofClass,named,name,given,same⟩
  unfold resolveStrategyFuzzy findNamed at missed
  rw [given] at missed
  have nobody := List.find?_eq_none.mp (Option.map_eq_none_iff.mp missed) obj
    (List.mem_filter.mpr ⟨member,decide_eq_true ofClass⟩)
  rw [named,same] at nobody
  exact nobody rfl

/-- The strategies of the library that go by class and name. -/
def namedStrategies : List (ObjectRef → ObjectRepository State → Option UInt32) :=
  [resolveStrategyDefault,resolveStrategyParameter,resolveStrategyFuzzy]

theorem namedStrategies_answer {strategy : ObjectRef → ObjectRepository State → Option UInt32}
    (listed : strategy ∈ namedStrategies) (found : strategy ref repo = some id) :
    ∃ obj, Answers repo ref obj ∧ obj.id = id := by
  rcases List.mem_cons.mp listed with rfl | listed
  · exact findNamed_answers (fun _ _ => sameName_anyCase) found
  · rcases List.mem_cons.mp listed with rfl | listed
    · exact findNamed_answers (fun _ _ => sameName_anyCase) found
    · obtain rfl := List.mem_singleton.mp listed
      exact findNamed_answers (fun _ _ same => same) found

/-- What a resolution of the reference finds. -/
def found (resolver : ReferenceResolver State) (repo : ObjectRepository State) (ref : ObjectRef) : Option UInt32 :=
  (resolver.resolve repo ref).1

theorem findStrategy_mem {classId : UInt32} {entry : StrategyEntry State}
    (chosen : resolver.findStrategy classId = some entry) : entry ∈ resolver.strategies := by
  unfold findStrategy at chosen
  cases first : resolver.strategies.find? fun entry => entry.classId = classId with
  | none =>
    rw [first] at chosen
    exact List.mem_of_find?_eq_some chosen
  | some other =>
    rw [first] at chosen
    cases chosen
    exact List.mem_of_find?_eq_some first

theorem found_eq (resolver : ReferenceResolver State) (repo : ObjectRepository State) (ref : ObjectRef) :
    resolver.found repo ref = (((resolver.findStrategy ref.classId).bind fun entry => entry.strategy ref repo).or
      (resolveStrategyDefault ref repo)).or (resolveStrategyFuzzy ref repo) := by
  unfold found resolve
  cases (resolver.findStrategy ref.classId).bind fun entry => entry.strategy ref repo with
  | some id => rfl
  | none =>
    cases resolveStrategyDefault ref repo with
    | some id => rfl
    | none => cases resolveStrategyFuzzy ref repo <;> rfl

/-- What is found is an answer, and where nothing is found there is none. -/
theorem found_answers (builtIn : ∀ entry ∈ resolver.strategies, entry.strategy ∈ namedStrategies)
    (repo : ObjectRepository State) (ref : ObjectRef) :
    match resolver.found repo ref with
    | some id => ∃ obj, Answers repo ref obj ∧ obj.id = id
    | none => ∀ obj, ¬ Answers repo ref obj := by
  rw [found_eq]
  cases custom : (resolver.findStrategy ref.classId).bind fun entry => entry.strategy ref repo with
  | some id =>
    obtain ⟨entry,chosen,answer⟩ := Option.bind_eq_some_iff.mp custom
    exact namedStrategies_answer (builtIn entry (findStrategy_mem chosen)) answer
  | none =>
    cases exact' : resolveStrategyDefault ref repo with
    | some id => exact findNamed_answers (fun _ _ => sameName_anyCase) exact'
    | none =>
      cases fuzzy : resolveStrategyFuzzy ref repo with
      | some id => exact findNamed_answers (fun _ _ same => same) fuzzy
      | none => exact fuzzy_misses fuzzy

/-- The reference after its resolution. -/
def resolvedTo (outcome : Option UInt32) (ref : ObjectRef) : ObjectRef :=
  match outcome with
  | some id => { ref with resolvedObject := some id }
  | none => ref

/-- What the resolution of the references makes of the lists and the counts. -/
structure Settles (repo : ObjectRepository State) (refs : List ObjectRef) (before after : ReferenceResolver State) :
    Prop where
  strategies : after.strategies = before.strategies
  settled : after.settled = before.settled ++ refs.map fun ref => resolvedTo (before.found repo ref) ref
  unresolved : after.unresolved = before.unresolved ++ refs.filter fun ref => (before.found repo ref).isNone
  resolvedCount : after.stats.resolvedCount =
    before.stats.resolvedCount + UInt32.ofNat (refs.countP fun ref => (before.found repo ref).isSome)
  unresolvedCount : after.stats.unresolvedCount =
    before.stats.unresolvedCount + UInt32.ofNat (refs.countP fun ref => (before.found repo ref).isNone)

theorem found_congr (repo : ObjectRepository State) {other : ReferenceResolver State}
    (same : other.strategies = resolver.strategies) :
    other.found repo = resolver.found repo := by
  funext ref
  rw [found_eq,found_eq,findStrategy,findStrategy,same]

theorem settles_one (repo : ObjectRepository State) (ref : ObjectRef) (resolver : ReferenceResolver State) :
    Settles repo [ref] resolver (resolver.settle repo ref) := by
  have counts : (resolver.resolve repo ref).2.strategies = resolver.strategies ∧
      (resolver.resolve repo ref).2.settled = resolver.settled ∧
      (resolver.resolve repo ref).2.unresolved = resolver.unresolved ∧
      (resolver.resolve repo ref).2.stats.resolvedCount = resolver.stats.resolvedCount +
        UInt32.ofNat (if (resolver.found repo ref).isSome then 1 else 0) ∧
      (resolver.resolve repo ref).2.stats.unresolvedCount = resolver.stats.unresolvedCount +
        UInt32.ofNat (if (resolver.found repo ref).isNone then 1 else 0) := by
    unfold found resolve
    split
    · exact ⟨rfl,rfl,rfl,rfl,(UInt32.add_zero _).symm⟩
    · split
      · exact ⟨rfl,rfl,rfl,rfl,(UInt32.add_zero _).symm⟩
      · split
        · exact ⟨rfl,rfl,rfl,rfl,(UInt32.add_zero _).symm⟩
        · exact ⟨rfl,rfl,rfl,(UInt32.add_zero _).symm,rfl⟩
  obtain ⟨strategies,settled,unresolved,resolvedCount,unresolvedCount⟩ := counts
  have here : (resolver.resolve repo ref).1 = resolver.found repo ref := rfl
  unfold settle
  cases out : resolver.resolve repo ref with
  | mk outcome after =>
    rw [out] at strategies settled unresolved resolvedCount unresolvedCount here
    dsimp only at strategies settled unresolved resolvedCount unresolvedCount here
    subst here
    cases outcome : resolver.found repo ref with
    | some id =>
      rw [outcome] at resolvedCount unresolvedCount
      refine ⟨strategies,?_,?_,?_,?_⟩
      · simp [resolvedTo,outcome,settled]
      · simp [outcome,unresolved]
      · simpa [outcome] using resolvedCount
      · simpa [outcome] using unresolvedCount
    | none =>
      rw [outcome] at resolvedCount unresolvedCount
      refine ⟨strategies,?_,?_,?_,?_⟩
      · simp [resolvedTo,outcome,settled]
      · simp [outcome,unresolved]
      · simpa [outcome] using resolvedCount
      · simpa [outcome] using unresolvedCount

theorem Settles.append {refs others : List ObjectRef} {before between after : ReferenceResolver State}
    (first : Settles repo refs before between) (second : Settles repo others between after) :
    Settles repo (refs ++ others) before after := by
  have same := found_congr repo first.strategies
  refine ⟨second.strategies.trans first.strategies,?_,?_,?_,?_⟩
  · rw [second.settled,first.settled,same,List.map_append,List.append_assoc]
  · rw [second.unresolved,first.unresolved,same,List.filter_append,List.append_assoc]
  · rw [second.resolvedCount,first.resolvedCount,same,List.countP_append,UInt32.ofNat_add,UInt32.add_assoc]
  · rw [second.unresolvedCount,first.unresolvedCount,same,List.countP_append,UInt32.ofNat_add,UInt32.add_assoc]

theorem settles_each (repo : ObjectRepository State) (refs : List ObjectRef) (resolver : ReferenceResolver State) :
    Settles repo refs resolver (settleEach repo refs resolver) := by
  induction refs generalizing resolver with
  | nil => exact ⟨rfl,(List.append_nil _).symm,(List.append_nil _).symm,(UInt32.add_zero _).symm,(UInt32.add_zero _).symm⟩
  | cons ref rest ih => exact (settles_one repo ref resolver).append (ih _)

/-- The pending references divide into those that are resolved, each to an answer, and those that are left in the
order of their registration, each without one. -/
structure Partitioned (repo : ObjectRepository State) (before after : ReferenceResolver State) : Prop where
  pending : after.pending = []
  settled : after.settled = before.settled ++ before.pending.map fun ref => resolvedTo (before.found repo ref) ref
  resolved : ∀ ref ∈ before.pending, ∀ id, before.found repo ref = some id → ∃ obj, Answers repo ref obj ∧ obj.id = id
  unresolved : after.unresolved = before.pending.filter fun ref => (before.found repo ref).isNone
  unanswered : ∀ ref ∈ after.unresolved, ∀ obj, ¬ Answers repo ref obj
  counted : (before.pending.countP fun ref => (before.found repo ref).isSome) + after.unresolved.length =
    before.pending.length
  resolvedCount : after.stats.resolvedCount = before.stats.resolvedCount +
    UInt32.ofNat (before.pending.countP fun ref => (before.found repo ref).isSome)
  unresolvedCount : after.stats.unresolvedCount = before.stats.unresolvedCount + UInt32.ofNat after.unresolved.length
  total : before.stats.totalCount = before.concluded + UInt32.ofNat before.pending.length →
    after.stats.totalCount = after.stats.resolvedCount + after.stats.unresolvedCount

/-- Two pending references, one in other letters, to a repository with one object. -/
def twoPending : ReferenceResolver Unit where
  strategies := [⟨7,resolveStrategyParameter⟩]
  pending := [{ classId := 7, name := some [97] },{ classId := 7, name := some [98] }]
  stats := { totalCount := 2 }

def oneObject : ObjectRepository Unit where
  objects := [{ id := 1, classId := 7, name := [65] }]

end Partition

end ReferenceResolver

end Libnmo.Session
