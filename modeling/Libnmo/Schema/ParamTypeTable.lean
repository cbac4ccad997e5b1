import Libnmo.Format.DataSection
import Libnmo.Lib.Links

/-! The table of parameter types by their GUIDs. Two loops walk up the chain of the types that
others are derived from, each for a hundred turns at most: one looks for a type, the other
counts the links to the base type. -/
namespace Libnmo.Schema
open Format Lib.Links

structure ParamMeta where
  guid : Guid := {}
  derivedFrom : Guid := {}
  deriving DecidableEq

structure ParamTypeTable.SchemaType where
  paramMeta : Option ParamMeta := none
  deriving DecidableEq

/-- The map from GUIDs to types, by its entries. -/
structure ParamTypeTable where
  guidToTypeMap : List (Guid × ParamTypeTable.SchemaType) := []
  typeCount : Nat := 0

namespace ParamTypeTable

def findByGuid (table : ParamTypeTable) (guid : Guid) : Option SchemaType := table.guidToTypeMap.lookup guid

section Building

/-- Types without metadata are left out; a later type of the same GUID is put in the place of the earlier one. -/
def collectParamType (table : ParamTypeTable) (type : SchemaType) : ParamTypeTable :=
  match type.paramMeta with
  | none => table
  | some meta' => {
    guidToTypeMap := (meta'.guid,type) :: table.guidToTypeMap.filter (fun entry => entry.1 != meta'.guid)
    typeCount := table.typeCount + 1 }

def build (types : List SchemaType) : ParamTypeTable := types.foldl collectParamType {}

end Building

section Queries
variable (table : ParamTypeTable)

def maxDepth : Nat := 100

/-- The loop of `is_compatible` with so many turns left. -/
def compatibleLoop (expectedGuid : Guid) : Nat → Guid → Bool
  | 0,_ => false
  | left + 1,current => match (findByGuid table current).bind SchemaType.paramMeta with
    | none => false
    | some meta' =>
      if meta'.derivedFrom = {} then false
      else if meta'.derivedFrom = expectedGuid then true
      else compatibleLoop expectedGuid left meta'.derivedFrom

def isCompatible (typeGuid expectedGuid : Guid) : Bool :=
  if typeGuid = expectedGuid then true else compatibleLoop table expectedGuid maxDepth typeGuid

/-- The loop of `get_depth` with so many turns left. -/
def depthLoop : Nat → Int → Guid → Int
  | 0,_,_ => -1
  | left + 1,depth,current => match (findByGuid table current).bind SchemaType.paramMeta with
    | none => -1
    | some parent => if parent.derivedFrom = {} then depth + 1 else depthLoop left (depth + 1) parent.derivedFrom

def getDepth (typeGuid : Guid) : Int :=
  match (findByGuid table typeGuid).bind SchemaType.paramMeta with
  | none => -1
  | some meta' => if meta'.derivedFrom = {} then 0 else depthLoop table maxDepth 0 meta'.derivedFrom

end Queries

section Chains
variable (table : ParamTypeTable) {a b current expected : Guid} {left n m : Nat} {depth : Int}

/-- The type that a registered one is derived from. -/
def derivedFrom (guid : Guid) : Option Guid :=
  (findByGuid table guid).bind SchemaType.paramMeta |>.bind fun meta' =>
    if meta'.derivedFrom = {} then none else some meta'.derivedFrom

/-- A registered type that is derived from none. -/
def IsBase (guid : Guid) : Prop := ∃ meta', (findByGuid table guid).bind SchemaType.paramMeta = some meta' ∧ meta'.derivedFrom = {}

/-- So many links lead to the base type. -/
def BaseAfter (n : Nat) (guid : Guid) : Prop := ∃ base, follow (derivedFrom table) n guid = some base ∧ IsBase table base

variable {table}

theorem derivedFrom_unknown (unknown : (findByGuid table a).bind SchemaType.paramMeta = none) : derivedFrom table a = none := by
  rw [derivedFrom,unknown,Option.bind_none]

theorem derivedFrom_base {meta' : ParamMeta} (known : (findByGuid table a).bind SchemaType.paramMeta = some meta')
    (base : meta'.derivedFrom = {}) : derivedFrom table a = none := by
  rw [derivedFrom,known,Option.bind_some,if_pos base]

theorem derivedFrom_link {meta' : ParamMeta} (known : (findByGuid table a).bind SchemaType.paramMeta = some meta')
    (derived : meta'.derivedFrom ≠ {}) : derivedFrom table a = some meta'.derivedFrom := by
  rw [derivedFrom,known,Option.bind_some,if_neg derived]

theorem follow_end {b : Guid} (ends : derivedFrom table a = none) (reached : follow (derivedFrom table) n a = some b) : n = 0 ∧ b = a := by
  cases n with
  | zero => exact ⟨rfl,(Option.some.inj reached).symm⟩
  | succ n =>
    rw [follow,ends] at reached
    cases reached

theorem follow_link {b c : Guid} (link : derivedFrom table a = some b) :
    follow (derivedFrom table) (n + 1) a = some c ↔ follow (derivedFrom table) n b = some c := by
  rw [follow,link,Option.bind_some]

theorem compatibleLoop_iff : compatibleLoop table expected left current = true ↔
    ∃ m, m < left ∧ follow (derivedFrom table) (m + 1) current = some expected := by
  induction left generalizing current with
  | zero => exact iff_of_false Bool.false_ne_true fun ⟨m,few,_⟩ => absurd few (Nat.not_lt_zero m)
  | succ left ih =>
    rw [compatibleLoop]
    have ended (ends : derivedFrom table current = none) :
        ¬ ∃ m, m < left + 1 ∧ follow (derivedFrom table) (m + 1) current = some expected := by
      rintro ⟨m,_,reached⟩
      exact absurd (follow_end ends reached).1 (Nat.succ_ne_zero m)
    cases known : (findByGuid table current).bind SchemaType.paramMeta with
    | none => exact iff_of_false Bool.false_ne_true (ended (derivedFrom_unknown known))
    | some meta' =>
      dsimp only
      by_cases base : meta'.derivedFrom = {}
      · rw [if_pos base]
        exact iff_of_false Bool.false_ne_true (ended (derivedFrom_base known base))
      · have link := derivedFrom_link known base
        rw [if_neg base]
        by_cases here : meta'.derivedFrom = expected
        · rw [if_pos here]
          refine iff_of_true rfl ⟨0,Nat.zero_lt_succ left,?_⟩
          rw [follow_link link,here]
          rfl
        · rw [if_neg here,ih]
          constructor
          · rintro ⟨m,few,reached⟩
            exact ⟨m + 1,Nat.succ_lt_succ few,(follow_link link).mpr reached⟩
          · rintro ⟨m,few,reached⟩
            rw [follow_link link] at reached
            cases m with
            | zero => exact absurd (Option.some.inj reached) here
            | succ m => exact ⟨m,Nat.lt_of_succ_lt_succ few,reached⟩

/-- What is found within the turns of the loop. -/
theorem isCompatible_iff : isCompatible table a expected = true ↔
    a = expected ∨ ∃ m, m < maxDepth ∧ follow (derivedFrom table) (m + 1) a = some expected := by
  rw [isCompatible]
  by_cases same : a = expected
  · rw [if_pos same]
    exact iff_of_true rfl (.inl same)
  · rw [if_neg same,compatibleLoop_iff]
    exact (or_iff_right same).symm

theorem baseAfter_zero : BaseAfter table 0 a ↔ IsBase table a := by
  constructor
  · rintro ⟨base,same,ends⟩
    rwa [Option.some.inj same]
  · exact fun ends => ⟨a,rfl,ends⟩

theorem baseAfter_link {b : Guid} (link : derivedFrom table a = some b) : BaseAfter table (n + 1) a ↔ BaseAfter table n b := by
  simp only [BaseAfter,follow_link link]

theorem not_baseAfter_unknown (unknown : (findByGuid table a).bind SchemaType.paramMeta = none) : ¬ BaseAfter table n a := by
  rintro ⟨base,reached,meta',known,_⟩
  obtain ⟨_,rfl⟩ := follow_end (derivedFrom_unknown unknown) reached
  rw [unknown] at known
  cases known

theorem baseAfter_end {meta' : ParamMeta} (known : (findByGuid table a).bind SchemaType.paramMeta = some meta')
    (base : meta'.derivedFrom = {}) : BaseAfter table n a ↔ n = 0 := by
  constructor
  · rintro ⟨_,reached,_⟩
    exact (follow_end (derivedFrom_base known base) reached).1
  · rintro rfl
    exact baseAfter_zero.mpr ⟨meta',known,base⟩

theorem not_baseAfter_zero {meta' : ParamMeta} (known : (findByGuid table a).bind SchemaType.paramMeta = some meta')
    (derived : meta'.derivedFrom ≠ {}) : ¬ BaseAfter table 0 a := by
  rw [baseAfter_zero]
  rintro ⟨meta'',known',base⟩
  obtain rfl := Option.some.inj (known.symm.trans known')
  exact derived base

/-- The loop counts the links to the base type, if it comes to it. -/
theorem depthLoop_spec (left : Nat) (depth : Int) (current : Guid) :
    (∀ n, n < left → BaseAfter table n current → depthLoop table left depth current = depth + 1 + n) ∧
      ((∀ n, n < left → ¬ BaseAfter table n current) → depthLoop table left depth current = -1) := by
  induction left generalizing current depth with
  | zero => exact ⟨fun n few => absurd few (Nat.not_lt_zero n),fun _ => rfl⟩
  | succ left ih =>
    rw [depthLoop]
    cases known : (findByGuid table current).bind SchemaType.paramMeta with
    | none => exact ⟨fun n _ after => absurd after (not_baseAfter_unknown known),fun _ => rfl⟩
    | some parent =>
      dsimp only
      by_cases base : parent.derivedFrom = {}
      · rw [if_pos base]
        refine ⟨fun n _ after => ?_,fun never => absurd ((baseAfter_end known base).mpr rfl) (never 0 (Nat.zero_lt_succ left))⟩
        rw [(baseAfter_end known base).mp after,Nat.cast_zero,add_zero]
      · have link := derivedFrom_link known base
        rw [if_neg base]
        obtain ⟨counts,misses⟩ := ih (depth + 1) parent.derivedFrom
        constructor
        · intro n few after
          cases n with
          | zero => exact absurd after (not_baseAfter_zero known base)
          | succ n =>
            rw [counts n (Nat.lt_of_succ_lt_succ few) ((baseAfter_link link).mp after)]
            push_cast
            omega
        · exact fun never => misses fun n few after => never (n + 1) (Nat.succ_lt_succ few) ((baseAfter_link link).mpr after)

theorem getDepth_spec : (∀ n, n ≤ maxDepth → BaseAfter table n a → getDepth table a = n) ∧
    ((∀ n, n ≤ maxDepth → ¬ BaseAfter table n a) → getDepth table a = -1) := by
  rw [getDepth]
  cases known : (findByGuid table a).bind SchemaType.paramMeta with
  | none => exact ⟨fun n _ after => absurd after (not_baseAfter_unknown known),fun _ => rfl⟩
  | some meta' =>
    dsimp only
    by_cases base : meta'.derivedFrom = {}
    · rw [if_pos base]
      refine ⟨fun n _ after => ?_,fun never => absurd ((baseAfter_end known base).mpr rfl) (never 0 (Nat.zero_le maxDepth))⟩
      rw [(baseAfter_end known base).mp after,Nat.cast_zero]
    · have link := derivedFrom_link known base
      rw [if_neg base]
      obtain ⟨counts,misses⟩ := depthLoop_spec maxDepth 0 meta'.derivedFrom
      constructor
      · intro n few after
        cases n with
        | zero => exact absurd after (not_baseAfter_zero known base)
        | succ n =>
          rw [counts n few ((baseAfter_link link).mp after)]
          push_cast
          omega
      · exact fun never => misses fun n few after => never (n + 1) few ((baseAfter_link link).mpr after)

end Chains

section Built

variable {table : ParamTypeTable} {type : SchemaType} {meta' : ParamMeta}

theorem lookup_filter {entries : List (Guid × SchemaType)} {key guid : Guid} (other : guid ≠ key) :
    (entries.filter fun entry => entry.1 != key).lookup guid = entries.lookup guid := by
  induction entries with
  | nil => rfl
  | cons entry rest ih =>
    obtain ⟨found,type⟩ := entry
    by_cases same : found = key
    · subst same
      rw [List.filter_cons_of_neg (by simp),ih,List.lookup_cons,beq_eq_false_iff_ne.mpr other]
    · rw [List.filter_cons_of_pos (by simpa using same),List.lookup_cons,List.lookup_cons,ih]

theorem find_collect (known : type.paramMeta = some meta') (guid : Guid) :
    findByGuid (collectParamType table type) guid = if guid = meta'.guid then some type else findByGuid table guid := by
  simp only [collectParamType,known,findByGuid,List.lookup_cons]
  by_cases same : guid = meta'.guid
  · rw [if_pos same,beq_iff_eq.mpr same]
  · rw [if_neg same,beq_eq_false_iff_ne.mpr same]
    exact lookup_filter same

theorem build_append (types : List SchemaType) (last : SchemaType) :
    build (types ++ [last]) = collectParamType (build types) last := by
  rw [build,List.foldl_append]
  rfl

theorem find_build (types : List SchemaType) (guid : Guid) :
    findByGuid (build types) guid = types.reverse.find? fun type => type.paramMeta.any fun meta' => meta'.guid == guid := by
  induction types using List.reverseRecOn with
  | nil => rfl
  | append_singleton types last ih =>
    rw [build_append,List.reverse_append,List.reverse_singleton,List.singleton_append,List.find?_cons,← ih]
    cases known : last.paramMeta with
    | none => simp only [collectParamType,known,Option.any_none]
    | some meta' =>
      rw [find_collect known,Option.any_some]
      by_cases same : guid = meta'.guid
      · rw [if_pos same,beq_iff_eq.mpr same.symm]
      · rw [if_neg same,beq_eq_false_iff_ne.mpr (Ne.symm same)]

/-- The GUIDs of the types with metadata, as often as they are given. -/
def guids (types : List SchemaType) : List Guid := (types.filterMap SchemaType.paramMeta).map ParamMeta.guid

theorem mem_build (types : List SchemaType) (guid : Guid) :
    guid ∈ (build types).guidToTypeMap.map Prod.fst ↔ guid ∈ guids types := by
  induction types using List.reverseRecOn with
  | nil => exact Iff.rfl
  | append_singleton types last ih =>
    rw [build_append,guids,List.filterMap_append,List.map_append,List.mem_append,← guids,← ih]
    cases known : last.paramMeta with
    | none => simp [collectParamType,known]
    | some meta' =>
      by_cases same : guid = meta'.guid
      · simp [collectParamType,known,same]
      · simp [collectParamType,known,same]

/-- A GUID that is given again takes no further entry, but is counted again. -/
theorem size_build (types : List SchemaType) :
    (build types).typeCount = (guids types).length ∧ (build types).guidToTypeMap.length ≤ (build types).typeCount ∧
      ((build types).guidToTypeMap.length = (build types).typeCount ↔ (guids types).Nodup) := by
  induction types using List.reverseRecOn with
  | nil => exact ⟨rfl,Nat.le_refl 0,iff_of_true rfl List.nodup_nil⟩
  | append_singleton types last ih =>
    obtain ⟨counted,fewer,exactly⟩ := ih
    rw [build_append,guids,List.filterMap_append,List.map_append,← guids]
    cases known : last.paramMeta with
    | none => simpa [collectParamType,known] using ⟨counted,fewer,exactly⟩
    | some meta' =>
      have left := List.length_filter_le (fun entry => entry.1 != meta'.guid) (build types).guidToTypeMap
      have all : ((build types).guidToTypeMap.filter fun entry => entry.1 != meta'.guid).length =
          (build types).guidToTypeMap.length ↔ meta'.guid ∉ guids types := by
        rw [List.length_filter_eq_length_iff,← mem_build,List.mem_map,not_exists]
        exact forall_congr' fun entry => by simp
      simp only [collectParamType,known,List.length_cons,List.filterMap_cons,List.filterMap_nil,List.map_cons,List.map_nil,
        List.length_append,List.length_nil,List.nodup_append,List.nodup_singleton]
      refine ⟨by omega,by omega,?_⟩
      rw [← exactly]
      constructor
      · intro same
        refine ⟨by omega,trivial,fun guid member other single => ?_⟩
        rw [List.mem_singleton.mp single]
        rintro rfl
        exact all.mp (by omega) member
      · rintro ⟨same,_,apart⟩
        have new := all.mpr fun member => apart _ member _ (List.mem_singleton_self _) rfl
        omega

/-- A table finds the last type that was given a GUID, and tells its size exactly if no GUID was given twice. -/
theorem table_built (types : List SchemaType) :
    (∀ guid, findByGuid (build types) guid =
      types.reverse.find? fun type => type.paramMeta.any fun meta' => meta'.guid == guid) ∧
    ((build types).typeCount = (build types).guidToTypeMap.length ↔ (guids types).Nodup) :=
  ⟨find_build types,eq_comm.trans (size_build types).2.2⟩

end Built

end ParamTypeTable

open ParamTypeTable

/-- A type is compatible with itself and with those above it while their chain has no more than a hundred links; the
depth is the number of links to the base type if it is no more than a hundred, and -1 else. -/
theorem param_types (table : ParamTypeTable) (a : Guid) :
    (∀ b, (chain (derivedFrom table) a).encard ≤ 100 →
      (isCompatible table a b = true ↔ a = b ∨ Relation.TransGen (LinksTo (derivedFrom table)) a b)) ∧
    (∀ n, n ≤ 100 → BaseAfter table n a → getDepth table a = n) ∧
    ((∀ n, n ≤ 100 → ¬ BaseAfter table n a) → getDepth table a = -1) := by
  refine ⟨fun b few => ?_,getDepth_spec⟩
  rw [isCompatible_iff,transGen_iff]
  refine or_congr_right ⟨fun ⟨m,_,reached⟩ => ⟨m,reached⟩,fun ⟨n,reached⟩ => ?_⟩
  have within : ∃ m, m < 100 ∧ follow (derivedFrom table) (m + 1) a = some b := follow_within few reached
  exact within

/-- Each type is derived from the next one, and the last is the base. -/
def chainOf (links : Nat) : ParamTypeTable :=
  build ((List.range (links + 1)).map fun i => ⟨some ⟨⟨UInt32.ofNat (i + 1),0⟩,if i = links then {} else ⟨UInt32.ofNat (i + 2),0⟩⟩⟩)

/-- With a hundred and one links the depth is given as -1. -/
theorem deep_chain : ¬ ∀ (table : ParamTypeTable) (a : Guid),
    (∀ b, (chain (derivedFrom table) a).encard ≤ 100 →
      (isCompatible table a b = true ↔ a = b ∨ Relation.TransGen (LinksTo (derivedFrom table)) a b)) ∧
    (∀ n, BaseAfter table n a → getDepth table a = n) ∧ ((∀ n, ¬ BaseAfter table n a) → getDepth table a = -1) := by
  intro all
  have reached : follow (derivedFrom (chainOf 101)) 101 ⟨1,0⟩ = some ⟨102,0⟩ := by decide +kernel
  have base : (findByGuid (chainOf 101) ⟨102,0⟩).bind SchemaType.paramMeta = some ⟨⟨102,0⟩,{}⟩ := by decide +kernel
  have depth : getDepth (chainOf 101) ⟨1,0⟩ = -1 := by decide +kernel
  have counted := (all (chainOf 101) ⟨1,0⟩).2.1 101 ⟨_,reached,_,base,rfl⟩
  rw [depth] at counted
  cases counted

end Libnmo.Schema
