import Libnmo.Session.IndexTables

/-! The loops of an object index over its tables, where none refuses: a removal, a clear
and a build that is granted all it asks for. The flags name the tables that are there,
and a built table has for each key the objects of the repository that have it. -/
namespace Libnmo.Session
open Core Format Lib

variable {State : Type}

section Loops
variable {index : ObjectIndex State} {flags : UInt32} {action : IndexKind → Run (ObjectIndex State) Unit}

/-- A loop whose steps replace each its own table. -/
theorem eachKind_own (change : IndexKind → Option (IndexTable State) → Option (IndexTable State))
    (own : ∀ kind index, ∃ after, (action kind).run index = (.ok (),after) ∧
      after.table = Function.update index.table kind (change kind (index.table kind)))
    {kinds : List IndexKind} (distinct : kinds.Nodup) (index : ObjectIndex State) :
    ∃ after, (eachKind flags action kinds).run index = (.ok (),after) ∧ ∀ kind, after.table kind =
      if kind ∈ kinds ∧ flags &&& kind.flag ≠ 0 then change kind (index.table kind) else index.table kind := by
  induction kinds generalizing index with
  | nil => exact ⟨index,rfl,fun kind => (if_neg fun named => List.not_mem_nil named.1).symm⟩
  | cons kind rest ih =>
    rw [List.nodup_cons] at distinct
    obtain ⟨first,ran,table⟩ := own kind index
    by_cases flagged : flags &&& kind.flag ≠ 0
    · obtain ⟨last,later,tables⟩ := ih distinct.2 first
      refine ⟨last,?_,fun other => ?_⟩
      · rw [eachKind,if_pos flagged,Action.bind_ok _ ran,later]
      · rw [tables other,table]
        by_cases here : other = kind
        · rw [here,if_neg fun named => distinct.1 named.1,Function.update_self,
            if_pos ⟨List.mem_cons_self ..,flagged⟩]
        · rw [Function.update_of_ne here]
          exact if_congr (and_congr_left fun _ => (List.mem_cons.trans (or_iff_right here)).symm) rfl rfl
    · obtain ⟨last,later,tables⟩ := ih distinct.2 index
      refine ⟨last,?_,fun other => ?_⟩
      · rw [eachKind,if_neg flagged,Action.bind_ok _ (Action.pure_apply ..),later]
      · rw [tables other]
        by_cases here : other = kind
        · rw [here,if_neg fun named => flagged named.2,if_neg fun named => flagged named.2]
        · exact if_congr (and_congr_left fun _ => (List.mem_cons.trans (or_iff_right here)).symm) rfl rfl

theorem eachKind_keeps {inv : ObjectIndex State → Prop} (each : ∀ kind, Action.Keeps inv (action kind))
    (kinds : List IndexKind) : Action.Keeps inv (eachKind flags action kinds) := by
  induction kinds with
  | nil => exact Action.keeps_pure ()
  | cons kind rest ih =>
    rw [eachKind]
    refine Action.keeps_bind ?_ fun _ => ih
    split
    · exact each kind
    · exact Action.keeps_pure ()

theorem mem_indexKinds (kind : IndexKind) : kind ∈ indexKinds := by
  cases kind <;> decide

theorem indexKinds_distinct : indexKinds.Nodup := by decide

theorem flag_ne_zero (kind : IndexKind) : kind.flag ≠ 0 := by
  cases kind <;> decide

theorem and_flag_clear (active : UInt32) (kind other : IndexKind) :
    active &&& ~~~kind.flag &&& other.flag = if other = kind then 0 else active &&& other.flag := by
  have bits : ~~~kind.flag &&& other.flag = if other = kind then 0 else other.flag := by
    cases kind <;> cases other <;> rfl
  rw [UInt32.and_assoc,bits]
  split
  · exact UInt32.and_zero
  · rfl

theorem and_flag_set (active : UInt32) (kind other : IndexKind) :
    (active ||| kind.flag) &&& other.flag ≠ 0 ↔ other = kind ∨ active &&& other.flag ≠ 0 := by
  have bits : kind.flag &&& other.flag = if other = kind then kind.flag else 0 := by
    cases kind <;> cases other <;> rfl
  have split : (active ||| kind.flag) &&& other.flag = (active &&& other.flag) ||| (kind.flag &&& other.flag) :=
    UInt32.toBitVec_inj.1 BitVec.and_or_distrib_right
  rw [split,bits]
  by_cases same : other = kind
  · rw [if_pos same]
    refine iff_of_true (fun none => flag_ne_zero kind ?_) (.inl same)
    exact (UInt32.or_eq_zero_iff.mp none).2
  · rw [if_neg same,UInt32.or_zero,or_iff_right same]

theorem agrees_onTable (kind : IndexKind) (action : Run (IndexTable State) Unit) :
    Action.Keeps ObjectIndex.Agrees (onTable kind action) := by
  intro index agrees
  cases held : index.table kind with
  | none =>
    simp only [onTable,held]
    exact agrees
  | some table =>
    simp only [onTable,held]
    exact (sameTables_set held).agrees agrees

theorem agrees_clearTable (kind : IndexKind) :
    Action.Keeps (@ObjectIndex.Agrees State) (clearTable kind) := by
  intro index agrees
  rw [clearTable,Action.update_apply]
  cases held : index.table kind with
  | none => exact agrees
  | some table =>
    intro other
    change index.activeIndexes &&& ~~~kind.flag &&& other.flag ≠ 0 ↔ (index.setTable kind none).table other ≠ none
    rw [and_flag_clear]
    by_cases same : other = kind
    · rw [if_pos same,same,table_set]
      exact iff_of_false (fun no => no rfl) (fun no => no rfl)
    · rw [if_neg same,table_set_other same]
      exact agrees other

end Loops

section Building
variable {kind : IndexKind} {index : ObjectIndex State} {flags : UInt32}

theorem entryOf_granted (obj : Object State) (table : IndexTable State) : entryOf kind {} obj table =
    if kind.keyOf obj = none then .kept else .added := by
  cases keyed : kind.keyOf obj with
  | none =>
    simp only [entryOf,keyed]
    rfl
  | some key =>
    cases found : tableGet table key with
    | none =>
      simp only [entryOf,keyed,found]
      rfl
    | some arr =>
      simp only [entryOf,keyed,found]
      exact if_neg fun full => full.2 trivial

/-- The objects of a key, in the order of the repository. -/
def objectsOf (kind : IndexKind) (key : IndexKey) (objects : List (Object State)) : List (Object State) :=
  objects.filter fun obj => kind.keyOf obj = some key

theorem enterAll_granted (kind : IndexKind) (objects : List (Object State)) (i : Nat) (table : IndexTable State) :
    ∃ after, (enterAll kind (fun _ => {}) i objects).run table = (.ok (),after) ∧
      ∀ key, objectsIn after key = objectsIn table key ++ objectsOf kind key objects := by
  induction objects generalizing i table with
  | nil => exact ⟨table,rfl,fun key => (List.append_nil _).symm⟩
  | cons obj rest ih =>
    obtain ⟨first,ran,objects⟩ := enterObject_run kind {} obj table
    have goes : entryOf kind {} obj table ≠ .refused := by
      rw [entryOf_granted]
      split <;> nofun
    rw [if_neg goes] at ran
    obtain ⟨last,later,others⟩ := ih (i + 1) first
    refine ⟨last,by rw [enterAll,Action.bind_ok _ ran,later],fun key => ?_⟩
    rw [others key,objects key,List.append_assoc,objectsOf,objectsOf,List.filter_cons]
    congr 1
    by_cases keyed : kind.keyOf obj = some key
    · have added : entryOf kind {} obj table = .added := by
        rw [entryOf_granted,keyed]
        rfl
      rw [if_pos ⟨added,keyed⟩,if_pos (decide_eq_true keyed)]
      rfl
    · rw [if_neg fun added => keyed added.2,if_neg fun equal => keyed (of_decide_eq_true equal)]
      rfl

/-- The table that a build makes of the objects. -/
def builtTable (kind : IndexKind) (objects : List (Object State)) : IndexTable State :=
  ((enterAll kind (fun _ => {}) 0 objects).run []).2

theorem buildIndex_granted (objects : List (Object State)) (index : ObjectIndex State) :
    (buildIndex kind {} objects).run index = (.ok (),{ index.setTable kind (some (builtTable kind objects)) with
      activeIndexes := index.activeIndexes ||| kind.flag }) := by
  obtain ⟨after,ran,_⟩ := enterAll_granted kind objects 0 []
  rw [builtTable,ran]
  simp only [buildIndex,if_true,not_true,if_false,ran]

theorem objectsIn_built (objects : List (Object State)) (key : IndexKey) :
    objectsIn (builtTable kind objects) key = objectsOf kind key objects := by
  obtain ⟨after,ran,found⟩ := enterAll_granted kind objects 0 []
  rw [builtTable,ran]
  exact found key

theorem agrees_buildIndex (kind : IndexKind) (objects : List (Object State)) :
    Action.Keeps ObjectIndex.Agrees (buildIndex kind {} objects) := by
  intro index agrees
  rw [buildIndex_granted]
  intro other
  change (index.activeIndexes ||| kind.flag) &&& other.flag ≠ 0 ↔ (index.setTable kind (some _)).table other ≠ none
  rw [and_flag_set]
  by_cases same : other = kind
  · rw [same,table_set]
    exact iff_of_true (.inl rfl) nofun
  · rw [or_iff_right same,table_set_other same]
    exact agrees other

end Building

end Libnmo.Session
