import Libnmo.Session.ObjectIndex

/-! What the tables of an object index hold for a key: one object more where an entry
is granted, one less where an object leaves. An update takes the tables one after the
other, and one that is refused stops it with the earlier tables changed. -/
namespace Libnmo.Session
open Core Format Lib

variable {State : Type}

/-- The objects that a table has for a key. -/
def objectsIn (table : IndexTable State) (key : IndexKey) : List (Object State) :=
  ((tableGet table key).map ObjectArray.objects).getD []

def ObjectIndex.objectsAt (index : ObjectIndex State) (kind : IndexKind) (key : IndexKey) : List (Object State) :=
  ((index.table kind).map fun table => objectsIn table key).getD []

/-- What becomes of an object at a table. -/
inductive Entry
  | kept | added | refused
  deriving DecidableEq

def entryOf (kind : IndexKind) (calls : EntryCalls) (obj : Object State) (table : IndexTable State) : Entry :=
  match kind.keyOf obj with
  | none => .kept
  | some key => match tableGet table key with
    | none => if ¬ calls.array then .refused else if calls.insert then .added else .kept
    | some arr => if arr.full ∧ ¬ calls.grow then .refused else .added

section Tables
variable {table : IndexTable State} {key other : IndexKey} {arr : ObjectArray State} {obj : Object State}

theorem tableGet_cons (entry : IndexKey × ObjectArray State) : tableGet (entry :: table) key =
    if entry.1 = key then some entry.2 else tableGet table key := by
  rw [tableGet,List.find?_cons]
  by_cases same : entry.1 = key
  · rw [if_pos same,decide_eq_true same]
    rfl
  · rw [if_neg same,decide_eq_false same]
    rfl

theorem tableGet_set_other (different : other ≠ key) : tableGet (tableSet table key arr) other = tableGet table other := by
  induction table with
  | nil => rfl
  | cons entry rest ih =>
    rw [tableSet,List.map_cons,tableGet_cons,tableGet_cons]
    by_cases here : entry.1 = key
    · rw [if_pos here,if_neg (Ne.symm different),if_neg (here.symm ▸ Ne.symm different)]
      exact ih
    · rw [if_neg here]
      split
      · rfl
      · exact ih

theorem tableGet_set_same (present : tableGet table key ≠ none) : tableGet (tableSet table key arr) key = some arr := by
  induction table with
  | nil => exact absurd rfl present
  | cons entry rest ih =>
    rw [tableGet_cons] at present
    rw [tableSet,List.map_cons,tableGet_cons]
    by_cases here : entry.1 = key
    · rw [if_pos here,if_pos rfl]
    · rw [if_neg here] at present
      rw [if_neg here,if_neg here]
      exact ih present

theorem tableGet_concat (absent : tableGet table key = none) : tableGet (table ++ [(key,arr)]) other =
    if other = key then some arr else tableGet table other := by
  induction table with
  | nil =>
    rw [List.nil_append,tableGet_cons]
    exact if_congr eq_comm rfl rfl
  | cons entry rest ih =>
    rw [tableGet_cons] at absent
    by_cases here : entry.1 = key
    · rw [if_pos here] at absent
      cases absent
    · rw [if_neg here] at absent
      rw [List.cons_append,tableGet_cons,tableGet_cons,ih absent]
      by_cases same : other = key
      · rw [if_neg (same ▸ here),if_pos same,if_pos same]
      · rw [if_neg same,if_neg same]

theorem objectsIn_set (present : tableGet table key ≠ none) : objectsIn (tableSet table key arr) other =
    if other = key then arr.objects else objectsIn table other := by
  by_cases same : other = key
  · rw [if_pos same,same,objectsIn,tableGet_set_same present]
    rfl
  · rw [if_neg same,objectsIn,tableGet_set_other same]
    rfl

theorem objectsIn_concat (absent : tableGet table key = none) : objectsIn (table ++ [(key,arr)]) other =
    if other = key then arr.objects else objectsIn table other := by
  rw [objectsIn,tableGet_concat absent]
  split <;> rfl

theorem objectArrayAdd_cases (grow : Bool) (arr : ObjectArray State) (obj : Object State) :
    ((arr.full ∧ ¬ grow) ∧ (objectArrayAdd grow obj).run arr = (.error (.error .nomem ""),arr)) ∨
    (¬ (arr.full ∧ ¬ grow) ∧ ∃ after, (objectArrayAdd grow obj).run arr = (.ok (),after) ∧
      after.objects = arr.objects ++ [obj]) := by
  rw [objectArrayAdd]
  cases full : arr.full with
  | false =>
    refine .inr ⟨fun both => Bool.false_ne_true both.1,{ arr with objects := arr.objects ++ [obj] },?_,rfl⟩
    simp only [full]
    rfl
  | true =>
    cases grow with
    | false =>
      refine .inl ⟨⟨rfl,nofun⟩,?_⟩
      simp only [full]
      rfl
    | true =>
      refine .inr ⟨fun both => both.2 rfl,⟨arr.objects ++ [obj],arr.capacity * 2⟩,?_,rfl⟩
      simp only [full]
      rfl

/-- The table holds what it held, and the object if that was added. -/
def EntryLeaves (kind : IndexKind) (obj : Object State) (table after : IndexTable State) (entry : Entry) : Prop :=
  ∀ key, objectsIn after key =
    objectsIn table key ++ if entry = .added ∧ kind.keyOf obj = some key then [obj] else []

section Keyed
variable {kind : IndexKind}

theorem leaves_same {after : IndexTable State} {entry : Entry} (absent : entry ≠ .added)
    (same : ∀ key, objectsIn after key = objectsIn table key) : EntryLeaves kind obj table after entry := by
  intro key
  rw [if_neg fun added => absent added.1,List.append_nil]
  exact same key

theorem leaves_added {after : IndexTable State} (keyed : kind.keyOf obj = some key)
    (there : objectsIn after key = objectsIn table key ++ [obj])
    (elsewhere : ∀ other, other ≠ key → objectsIn after other = objectsIn table other) :
    EntryLeaves kind obj table after .added := by
  intro other
  by_cases same : other = key
  · rw [same,if_pos ⟨rfl,keyed⟩]
    exact there
  · rw [if_neg fun added => same (Option.some.inj (added.2.symm.trans keyed)),List.append_nil]
    exact elsewhere other same

/-- The first object of a key is in the table if its array is. -/
theorem enterKey_new (calls : EntryCalls) (keyed : kind.keyOf obj = some key) (found : tableGet table key = none) :
    ∃ after, (enterKey kind calls key obj).run table =
        (if entryOf kind calls obj table = .refused then .error (.error .nomem "") else .ok (),after) ∧
      EntryLeaves kind obj table after (entryOf kind calls obj table) := by
  simp only [enterKey,entryOf,keyed,found]
  cases array : calls.array with
  | false => exact ⟨table,rfl,leaves_same nofun fun _ => rfl⟩
  | true =>
    rcases objectArrayAdd_cases calls.grow ⟨[],kind.arrayCapacity⟩ obj with ⟨full,_⟩ | ⟨_,after,added,objects⟩
    · cases kind <;> cases full.1
    · simp only [added]
      cases insert : calls.insert with
      | false => exact ⟨table,rfl,leaves_same nofun fun _ => rfl⟩
      | true =>
        refine ⟨table ++ [(key,after)],rfl,leaves_added keyed ?_ fun other different => ?_⟩
        · rw [objectsIn_concat found,if_pos rfl,objects,objectsIn,found]
          rfl
        · rw [objectsIn_concat found,if_neg different]

/-- Another object of a key is in the table if there is room in the array. -/
theorem enterKey_found (calls : EntryCalls) (keyed : kind.keyOf obj = some key) (found : tableGet table key = some arr) :
    ∃ after, (enterKey kind calls key obj).run table =
        (if entryOf kind calls obj table = .refused then .error (.error .nomem "") else .ok (),after) ∧
      EntryLeaves kind obj table after (entryOf kind calls obj table) := by
  have present : tableGet table key ≠ none := by
    rw [found]
    nofun
  have held : objectsIn table key = arr.objects := by
    rw [objectsIn,found]
    rfl
  simp only [enterKey,entryOf,keyed,found]
  rcases objectArrayAdd_cases calls.grow arr obj with ⟨full,added⟩ | ⟨room,after,added,objects⟩
  · simp only [added,if_pos full]
    refine ⟨_,rfl,leaves_same nofun fun other => ?_⟩
    rw [objectsIn_set present]
    split
    · rename_i same
      rw [same,held]
    · rfl
  · simp only [added,if_neg room]
    refine ⟨_,rfl,leaves_added keyed ?_ fun other different => ?_⟩
    · rw [objectsIn_set present,if_pos rfl,objects,held]
    · rw [objectsIn_set present,if_neg different]

end Keyed

theorem enterObject_run (kind : IndexKind) (calls : EntryCalls) (obj : Object State) (table : IndexTable State) :
    ∃ after, (enterObject kind calls obj).run table =
        (if entryOf kind calls obj table = .refused then .error (.error .nomem "") else .ok (),after) ∧
      EntryLeaves kind obj table after (entryOf kind calls obj table) := by
  rw [enterObject]
  cases keyed : kind.keyOf obj with
  | none =>
    have kept : entryOf kind calls obj table = .kept := by simp only [entryOf,keyed]
    rw [kept]
    exact ⟨table,rfl,leaves_same nofun fun _ => rfl⟩
  | some key =>
    cases found : tableGet table key with
    | none => exact enterKey_new calls keyed found
    | some arr => exact enterKey_found calls keyed found

/-- An object that leaves is the first of its key with the ID. -/
theorem leaveObject_run (kind : IndexKind) (id : UInt32) (obj : Object State) (table : IndexTable State) :
    ∃ after, (leaveObject kind id obj).run table = (.ok (),after) ∧
      ∀ key, objectsIn after key = if kind.keyOf obj = some key
        then (objectsIn table key).eraseP fun obj => obj.id = id else objectsIn table key := by
  rw [leaveObject,Action.update_apply]
  refine ⟨_,rfl,fun other => ?_⟩
  cases keyed : kind.keyOf obj with
  | none => exact (if_neg (fun same => nomatch same)).symm
  | some key =>
    cases found : tableGet table key with
    | none =>
      have empty : objectsIn table key = [] := by rw [objectsIn,found]; rfl
      simp only [found]
      split
      · rename_i same
        rw [← Option.some.inj same,empty]
        rfl
      · rfl
    | some arr =>
      have present : tableGet table key ≠ none := by rw [found]; nofun
      have held : objectsIn table key = arr.objects := by rw [objectsIn,found]; rfl
      simp only [found]
      rw [objectsIn_set present]
      by_cases same : other = key
      · rw [if_pos same,if_pos (congrArg some same.symm),same,held]
        rfl
      · rw [if_neg same,if_neg fun equal => same (Option.some.inj equal).symm]

end Tables

namespace ObjectIndex
variable (index : ObjectIndex State) (calls : IndexKind → EntryCalls) (obj : Object State)

/-- What becomes of an object at a table that may be missing. -/
def entryAt (kind : IndexKind) : Entry :=
  match index.table kind with
  | none => .kept
  | some table => entryOf kind (calls kind) obj table

/-- The tables that get the object before one refuses it. -/
def addedTo : List IndexKind → List IndexKind
  | [] => []
  | kind :: rest => match index.entryAt calls obj kind with
    | .kept => addedTo rest
    | .added => kind :: addedTo rest
    | .refused => []

def refuses (kinds : List IndexKind) : Bool := kinds.any fun kind => index.entryAt calls obj kind = .refused

/-- The flags name the tables that there are. -/
def Agrees : Prop := ∀ kind, index.activeIndexes &&& kind.flag ≠ 0 ↔ index.table kind ≠ none

/-- The same tables are there. -/
structure SameTables (after : ObjectIndex State) : Prop where
  active : after.activeIndexes = index.activeIndexes
  present : ∀ kind, after.table kind ≠ none ↔ index.table kind ≠ none

end ObjectIndex

section Updates
variable {index : ObjectIndex State} {calls : IndexKind → EntryCalls} {obj : Object State} {flags : UInt32}

theorem table_set (kind : IndexKind) (table : Option (IndexTable State)) : (index.setTable kind table).table kind = table :=
  Function.update_self ..

theorem table_set_other {kind other : IndexKind} (different : other ≠ kind) (table : Option (IndexTable State)) :
    (index.setTable kind table).table other = index.table other :=
  Function.update_of_ne different ..

theorem ObjectIndex.SameTables.agrees {after : ObjectIndex State} (same : index.SameTables after) (agrees : index.Agrees) :
    after.Agrees := by
  intro kind
  rw [same.active,agrees kind,same.present]

theorem sameTables_set {kind : IndexKind} {table after : IndexTable State} (held : index.table kind = some table) :
    index.SameTables (index.setTable kind (some after)) := by
  refine ⟨rfl,fun other => ?_⟩
  by_cases same : other = kind
  · rw [same,table_set,held]
    exact ⟨nofun,nofun⟩
  · rw [table_set_other same]

theorem objectsAt_some {kind : IndexKind} {table : IndexTable State} (held : index.table kind = some table)
    (key : IndexKey) : index.objectsAt kind key = objectsIn table key := by
  rw [ObjectIndex.objectsAt,held]
  rfl

theorem objectsAt_none {kind : IndexKind} (missing : index.table kind = none) (key : IndexKey) :
    index.objectsAt kind key = [] := by
  rw [ObjectIndex.objectsAt,missing]
  rfl

/-- What an update does at one table. -/
structure EnteredAt (index after : ObjectIndex State) (calls : IndexKind → EntryCalls) (obj : Object State)
    (kind : IndexKind) : Prop where
  same : index.SameTables after
  elsewhere : ∀ other, other ≠ kind → after.table other = index.table other
  objects : ∀ key, after.objectsAt kind key = index.objectsAt kind key ++
    if index.entryAt calls obj kind = .added ∧ kind.keyOf obj = some key then [obj] else []

theorem onTable_enter (index : ObjectIndex State) (calls : IndexKind → EntryCalls) (obj : Object State)
    (kind : IndexKind) : ∃ after, (onTable kind (enterObject kind (calls kind) obj)).run index =
      (if index.entryAt calls obj kind = .refused then .error (.error .nomem "") else .ok (),after) ∧
      EnteredAt index after calls obj kind := by
  cases held : index.table kind with
  | none =>
    have kept : index.entryAt calls obj kind = .kept := by simp only [ObjectIndex.entryAt,held]
    refine ⟨index,?_,⟨rfl,fun _ => Iff.rfl⟩,fun _ _ => rfl,fun key => ?_⟩
    · simp only [onTable,held,kept]
      rfl
    · rw [kept,if_neg fun added => Entry.noConfusion added.1,List.append_nil]
  | some table =>
    have entry : index.entryAt calls obj kind = entryOf kind (calls kind) obj table := by
      simp only [ObjectIndex.entryAt,held]
    obtain ⟨after,ran,objects⟩ := enterObject_run kind (calls kind) obj table
    refine ⟨index.setTable kind (some after),?_,sameTables_set held,fun _ different => table_set_other different _,?_⟩
    · simp only [onTable,held,ran,entry]
    · intro key
      rw [objectsAt_some (table_set ..),objectsAt_some held,entry]
      exact objects key

theorem objectsAt_congr {after : ObjectIndex State} {kind : IndexKind} (same : after.table kind = index.table kind)
    (key : IndexKey) : after.objectsAt kind key = index.objectsAt kind key := by
  rw [ObjectIndex.objectsAt,ObjectIndex.objectsAt,same]

theorem entryAt_congr {after : ObjectIndex State} {kind : IndexKind} (same : after.table kind = index.table kind) :
    after.entryAt calls obj kind = index.entryAt calls obj kind := by
  simp only [ObjectIndex.entryAt,same]

theorem refuses_congr {after : ObjectIndex State} {kinds : List IndexKind}
    (same : ∀ kind ∈ kinds, after.table kind = index.table kind) :
    after.refuses calls obj kinds = index.refuses calls obj kinds := by
  induction kinds with
  | nil => rfl
  | cons kind rest ih =>
    rw [List.forall_mem_cons] at same
    rw [ObjectIndex.refuses,List.any_cons,entryAt_congr same.1]
    exact congrArg _ (ih same.2)

theorem addedTo_congr {after : ObjectIndex State} {kinds : List IndexKind}
    (same : ∀ kind ∈ kinds, after.table kind = index.table kind) :
    after.addedTo calls obj kinds = index.addedTo calls obj kinds := by
  induction kinds with
  | nil => rfl
  | cons kind rest ih =>
    rw [List.forall_mem_cons] at same
    rw [ObjectIndex.addedTo,ObjectIndex.addedTo,entryAt_congr same.1,ih same.2]

theorem addedTo_subset {kinds : List IndexKind} {kind : IndexKind} (member : kind ∈ index.addedTo calls obj kinds) :
    kind ∈ kinds := by
  induction kinds with
  | nil => exact member
  | cons first rest ih =>
    rw [ObjectIndex.addedTo] at member
    split at member
    · exact List.mem_cons_of_mem _ (ih member)
    · rcases List.mem_cons.mp member with same | later
      · exact same ▸ List.mem_cons_self ..
      · exact List.mem_cons_of_mem _ (ih later)
    · cases member

section Asked
variable {kind : IndexKind} {rest : List IndexKind} (goes : index.entryAt calls obj kind ≠ .refused)
include goes

theorem refuses_cons : index.refuses calls obj (kind :: rest) = index.refuses calls obj rest := by
  rw [ObjectIndex.refuses,List.any_cons,decide_eq_false goes,Bool.false_or]
  rfl

theorem mem_addedTo_cons {other : IndexKind} : other ∈ index.addedTo calls obj (kind :: rest) ↔
    (other = kind ∧ index.entryAt calls obj kind = .added) ∨ other ∈ index.addedTo calls obj rest := by
  rw [ObjectIndex.addedTo]
  cases entry : index.entryAt calls obj kind with
  | kept => exact ⟨.inr,fun either => either.resolve_left fun added => Entry.noConfusion added.2⟩
  | added =>
    rw [List.mem_cons]
    exact or_congr_left (and_iff_left rfl).symm
  | refused => exact absurd entry goes

end Asked

/-- A table that the flags do not name is not there. -/
theorem flagged_enter (flagged : ∀ kind, index.table kind ≠ none → flags &&& kind.flag ≠ 0) (kind : IndexKind) :
    (if flags &&& kind.flag ≠ 0 then onTable kind (enterObject kind (calls kind) obj) else pure ()).run index =
      (onTable kind (enterObject kind (calls kind) obj)).run index := by
  split
  · rfl
  · rename_i unflagged
    cases held : index.table kind with
    | none => simp only [onTable,held,Action.pure_apply]
    | some table => exact absurd (flagged kind (held ▸ nofun)) unflagged

/-- An update goes on from table to table until one refuses the object. -/
theorem eachKind_enter (calls : IndexKind → EntryCalls) (obj : Object State) {kinds : List IndexKind}
    (distinct : kinds.Nodup) (flagged : ∀ kind, index.table kind ≠ none → flags &&& kind.flag ≠ 0) :
    ∃ after, (eachKind flags (fun kind => onTable kind (enterObject kind (calls kind) obj)) kinds).run index =
        (if index.refuses calls obj kinds then .error (.error .nomem "") else .ok (),after) ∧
      index.SameTables after ∧ (∀ kind ∉ kinds, after.table kind = index.table kind) ∧
      ∀ kind key, after.objectsAt kind key = index.objectsAt kind key ++
        if kind ∈ index.addedTo calls obj kinds ∧ kind.keyOf obj = some key then [obj] else [] := by
  induction kinds generalizing index with
  | nil =>
    refine ⟨index,rfl,⟨rfl,fun _ => Iff.rfl⟩,fun _ _ => rfl,fun kind key => ?_⟩
    rw [if_neg fun added => List.not_mem_nil added.1,List.append_nil]
  | cons kind rest ih =>
    rw [List.nodup_cons] at distinct
    obtain ⟨first,ran,entered⟩ := onTable_enter index calls obj kind
    rw [← flagged_enter flagged kind] at ran
    have untouched (other : IndexKind) (later : other ∈ rest) : first.table other = index.table other :=
      entered.elsewhere other fun same => distinct.1 (same ▸ later)
    by_cases refused : index.entryAt calls obj kind = .refused
    · rw [if_pos refused] at ran
      refine ⟨first,?_,entered.same,fun other absent => ?_,fun other key => ?_⟩
      · rw [eachKind,Action.bind_error _ ran,ObjectIndex.refuses,List.any_cons,decide_eq_true refused]
        rfl
      · exact entered.elsewhere other fun same => absent (same ▸ List.mem_cons_self ..)
      · have nowhere : index.addedTo calls obj (kind :: rest) = [] := by rw [ObjectIndex.addedTo,refused]
        rw [nowhere,if_neg fun added => List.not_mem_nil added.1,List.append_nil]
        by_cases same : other = kind
        · rw [same,entered.objects key,refused,if_neg fun added => Entry.noConfusion added.1,List.append_nil]
        · exact objectsAt_congr (entered.elsewhere other same) key
    · rw [if_neg refused] at ran
      have still (kind : IndexKind) (held : first.table kind ≠ none) : flags &&& kind.flag ≠ 0 :=
        flagged kind ((entered.same.present kind).mp held)
      obtain ⟨last,later,same,elsewhere,objects⟩ := ih distinct.2 still
      rw [refuses_congr untouched] at later
      rw [addedTo_congr untouched] at objects
      refine ⟨last,?_,?_,fun other absent => ?_,fun other key => ?_⟩
      · rw [eachKind,Action.bind_ok _ ran,later,refuses_cons refused]
      · exact ⟨same.active.trans entered.same.active,fun kind => (same.present kind).trans (entered.same.present kind)⟩
      · rw [List.mem_cons,not_or] at absent
        rw [elsewhere other absent.2,entered.elsewhere other absent.1]
      · rw [objects other key]
        by_cases here : other = kind
        · have later : kind ∉ index.addedTo calls obj rest := fun member => distinct.1 (addedTo_subset member)
          have nothing : ¬ (kind ∈ index.addedTo calls obj rest ∧ kind.keyOf obj = some key) := fun added => later added.1
          rw [here,if_neg nothing,List.append_nil,entered.objects key]
          refine congrArg _ (if_congr (and_congr_left fun _ => ?_) rfl rfl)
          rw [mem_addedTo_cons refused,or_iff_left later,and_iff_right rfl]
        · rw [objectsAt_congr (entered.elsewhere other here) key]
          refine congrArg _ (if_congr (and_congr_left fun _ => ?_) rfl rfl)
          rw [mem_addedTo_cons refused,or_iff_right fun added => here added.1]

end Updates

end Libnmo.Session
