import Libnmo.Session.IndexTracked

/-! The queries for objects by class, name and GUID: each table of the index answers its
own, and where there is no table or no index some fall back to the repository. A pointer
to an object is the ID it is stored under, and a query that returns NULL finds none. -/
namespace Libnmo.Session
open Core Format Lib

variable {State : Type}

/-- A name may be NULL. -/
inductive Query
  | findByName (name : Option (List UInt8)) (classId : UInt32)
  | byNameAll (name : Option (List UInt8)) (classId : UInt32)
  | byGuidAll (guid : Guid)
  | byClass (classId : UInt32)

section Answers

/-- The two passes over the repository, with what the arena answers in between. -/
def objectRepositoryFindByClass (granted : Bool) (repo : ObjectRepository State) (classId : UInt32) : List UInt32 :=
  let matching := repo.objects.filter fun obj => obj.classId = classId
  if matching.length = 0 ∨ ¬ granted then [] else matching.map Object.id

def objectIndexGetByClass (granted : Bool) (repo : ObjectRepository State) (index : ObjectIndex State)
    (classId : UInt32) : List UInt32 :=
  match index.table .byClass with
  | some table => match tableGet table (.classId classId) with
    | some arr => arr.objects.map Object.id
    | none => []
  | none => objectRepositoryFindByClass granted repo classId

def objectIndexFindByName (repo : ObjectRepository State) (index : ObjectIndex State) (name : List UInt8)
    (classId : UInt32) : Option UInt32 :=
  match index.table .byName with
  | some table => match tableGet table (.name (cString name)) with
    | some arr =>
      if classId ≠ 0 then (arr.objects.find? fun obj => obj.classId = classId).map Object.id
      else arr.objects.head?.map Object.id
    | none => none
  | none => objectRepositoryFindByName repo name

/-- A filtered array is a new one. -/
def objectIndexGetByNameAll (granted : Bool) (index : ObjectIndex State) (name : List UInt8) (classId : UInt32) :
    List UInt32 :=
  match index.table .byName with
  | some table => match tableGet table (.name (cString name)) with
    | some arr =>
      if classId = 0 then arr.objects.map Object.id
      else
        let matching := arr.objects.filter fun obj => obj.classId = classId
        if matching.length = 0 ∨ ¬ granted then [] else matching.map Object.id
    | none => []
  | none => []

def objectIndexGetByGuidAll (index : ObjectIndex State) (guid : Guid) : List UInt32 :=
  if guidIsNull guid then []
  else match index.table .byGuid with
    | some table => match tableGet table (.guid guid) with
      | some arr => arr.objects.map Object.id
      | none => []
    | none => []

def sessionFindByName (repo : ObjectRepository State) (index : Option (ObjectIndex State)) (name : List UInt8)
    (classId : UInt32) : Option UInt32 :=
  match index with
  | some index => objectIndexFindByName repo index name classId
  | none => objectRepositoryFindByName repo name

def sessionGetObjectsByClass (granted : Bool) (repo : ObjectRepository State) (index : Option (ObjectIndex State))
    (classId : UInt32) : List UInt32 :=
  match index with
  | some index => objectIndexGetByClass granted repo index classId
  | none => objectRepositoryFindByClass granted repo classId

/-- What a query answers, with the index that is there, if any. -/
def queryAnswer (granted : Bool) (repo : ObjectRepository State) (index : Option (ObjectIndex State)) : Query → List UInt32
  | .findByName none _ | .byNameAll none _ => []
  | .findByName (some name) classId => (sessionFindByName repo index name classId).toList
  | .byNameAll (some name) classId => match index with
    | some index => objectIndexGetByNameAll granted index name classId
    | none => []
  | .byGuidAll guid => match index with
    | some index => objectIndexGetByGuidAll index guid
    | none => []
  | .byClass classId => sessionGetObjectsByClass granted repo index classId

end Answers

namespace Query

/-- What a stored object is for a query: unnamed objects have no name to match and null GUIDs match nothing. -/
def Matches (query : Query) (obj : Object State) : Prop :=
  match query with
  | .findByName name classId | .byNameAll name classId =>
    (∃ called, name = some called ∧ HasName obj called) ∧ (classId = 0 ∨ obj.classId = classId)
  | .byGuidAll guid => guidIsNull guid = false ∧ obj.typeGuid = guid
  | .byClass classId => obj.classId = classId

/-- The table that answers a query. -/
def kind : Query → IndexKind
  | .findByName _ _ | .byNameAll _ _ => .byName
  | .byGuidAll _ => .byGuid
  | .byClass _ => .byClass

def key : Query → Option IndexKey
  | .findByName name _ | .byNameAll name _ => name.map fun name => .name (cString name)
  | .byGuidAll guid => some (.guid guid)
  | .byClass classId => some (.classId classId)

def filter : Query → UInt32
  | .findByName _ classId | .byNameAll _ classId => classId
  | .byGuidAll _ | .byClass _ => 0

theorem keyOf_name (obj : Object State) (name : List UInt8) :
    IndexKind.byName.keyOf obj = some (.name (cString name)) ↔ HasName obj name := by
  rw [HasName,IndexKind.keyOf]
  split
  · rename_i unnamed
    rw [unnamed]
    exact iff_of_false nofun fun named => named.1 named.2.symm
  · rename_i named
    rw [Option.some.injEq,IndexKey.name.injEq]
    exact ⟨fun same => ⟨same ▸ named,same⟩,And.right⟩

theorem keyOf_guid (obj : Object State) (guid : Guid) :
    IndexKind.byGuid.keyOf obj = some (.guid guid) ↔ guidIsNull guid = false ∧ obj.typeGuid = guid := by
  rw [IndexKind.keyOf]
  split
  · rename_i null
    refine iff_of_false nofun fun ⟨valid,same⟩ => ?_
    rw [← same,null] at valid
    cases valid
  · rename_i valid
    rw [Option.some.injEq,IndexKey.guid.injEq]
    exact ⟨fun same => ⟨same ▸ Bool.eq_false_iff.mpr valid,same⟩,And.right⟩

/-- An object matches by its key and its class. -/
theorem matches_iff (query : Query) (obj : Object State) : query.Matches obj ↔
    (query.key ≠ none ∧ query.kind.keyOf obj = query.key) ∧ (query.filter = 0 ∨ obj.classId = query.filter) := by
  cases query with
  | findByName name classId | byNameAll name classId => cases name <;> simp [Matches,key,kind,filter,keyOf_name]
  | byGuidAll guid => simp [Matches,key,kind,filter,keyOf_guid]
  | byClass classId => simp [Matches,key,kind,filter,IndexKind.keyOf]

instance (query : Query) (obj : Object State) : Decidable (query.Matches obj) :=
  decidable_of_iff _ (query.matches_iff obj).symm

def hits (query : Query) (objects : List (Object State)) : List (Object State) :=
  objects.filter fun obj => query.Matches obj

/-- A query for one object finds one that matches if any does; a query for all finds each of them once. -/
def Answered (query : Query) (repo : ObjectRepository State) (ids : List UInt32) : Prop :=
  match query with
  | .findByName _ _ => (ids = [] ∧ ∀ obj ∈ repo.objects, ¬ query.Matches obj) ∨
    ∃ obj ∈ repo.objects, query.Matches obj ∧ ids = [obj.id]
  | .byNameAll _ _ | .byGuidAll _ | .byClass _ => (ids.Perm ((query.hits repo.objects).map Object.id))

/-- A table with these objects serves the query. -/
def Listed (granted : Bool) (repo : ObjectRepository State) (listed : List (Object State)) (query : Query) : Prop :=
  match query with
  | .findByName _ _ => (∃ obj ∈ repo.objects, query.Matches obj) → ∃ obj ∈ listed, query.Matches obj
  | .byNameAll _ classId => ∀ obj ∈ repo.objects, query.Matches obj → obj ∈ listed ∧ (classId = 0 ∨ granted = true)
  | .byGuidAll _ | .byClass _ => ∀ obj ∈ repo.objects, query.Matches obj → obj ∈ listed

/-- The repository alone serves the query. -/
def Scanned (granted : Bool) (repo : ObjectRepository State) (query : Query) : Prop :=
  match query with
  | .findByName name _ => ∀ called, name = some called →
    (∀ obj ∈ repo.objects, (cString called,obj.id) ∈ repo.nameTable → query.Matches obj) ∧
    ((∃ obj ∈ repo.objects, query.Matches obj) → ∃ id, (cString called,id) ∈ repo.nameTable)
  | .byNameAll _ _ | .byGuidAll _ => ∀ obj ∈ repo.objects, ¬ query.Matches obj
  | .byClass _ => ∀ obj ∈ repo.objects, query.Matches obj → granted = true

end Query

section Entered

/-- The objects that a build gets into a table. -/
def entered (kind : IndexKind) (calls : Nat → EntryCalls) :
    Nat → List (Object State) → IndexTable State → List (Object State)
  | _,[],_ => []
  | i,obj :: rest,table =>
    let later := entered kind calls (i + 1) rest ((enterObject kind (calls i) obj).run table).2
    if entryOf kind (calls i) obj table = .added then obj :: later else later

def BuildCalls.entered (calls : BuildCalls) (kind : IndexKind) (objects : List (Object State)) : List (Object State) :=
  Session.entered kind calls.entries 0 (if calls.listed then objects else []) []

theorem entered_sublist (kind : IndexKind) (calls : Nat → EntryCalls) (i : Nat) (objects : List (Object State))
    (table : IndexTable State) : (entered kind calls i objects table).Sublist objects := by
  induction objects generalizing i table with
  | nil => exact List.Sublist.refl _
  | cons obj rest ih =>
    rw [entered]
    split
    · exact (ih _ _).cons_cons obj
    · exact (ih _ _).cons obj

theorem built_sublist (calls : BuildCalls) (kind : IndexKind) (objects : List (Object State)) :
    (calls.entered kind objects).Sublist objects := by
  refine (entered_sublist kind calls.entries 0 _ []).trans ?_
  split
  · exact List.Sublist.refl _
  · exact List.nil_sublist _

theorem enterAll_entered {kind : IndexKind} {calls : Nat → EntryCalls} {i : Nat} {objects : List (Object State)}
    {table after : IndexTable State} (ran : (enterAll kind calls i objects).run table = (.ok (),after)) (key : IndexKey) :
    objectsIn after key = objectsIn table key ++ objectsOf kind key (entered kind calls i objects table) := by
  induction objects generalizing i table with
  | nil =>
    cases ran
    exact (List.append_nil _).symm
  | cons obj rest ih =>
    obtain ⟨first,goes,leaves⟩ := enterObject_run kind (calls i) obj table
    rw [enterAll] at ran
    by_cases refused : entryOf kind (calls i) obj table = .refused
    · rw [if_pos refused] at goes
      rw [Action.bind_error _ goes] at ran
      cases ran
    · rw [if_neg refused] at goes
      rw [Action.bind_ok _ goes] at ran
      rw [ih ran,leaves key,List.append_assoc,entered,goes]
      congr 1
      dsimp only
      by_cases added : entryOf kind (calls i) obj table = .added
      · by_cases keyed : kind.keyOf obj = some key
        · rw [if_pos ⟨added,keyed⟩,if_pos added,objectsOf,objectsOf,List.filter_cons,if_pos (decide_eq_true keyed)]
          rfl
        · rw [if_neg fun both => keyed both.2,if_pos added,objectsOf,objectsOf,List.filter_cons,
            if_neg fun equal => keyed (of_decide_eq_true equal)]
          rfl
      · rw [if_neg fun both => added both.1,if_neg added]
        rfl

/-- A loop whose steps, where they succeed, leave the other tables alone. -/
theorem eachKind_each {flags : UInt32} {action : IndexKind → Run (ObjectIndex State) Unit}
    {post : IndexKind → Option (IndexTable State) → Prop}
    (own : ∀ kind index after, (action kind).run index = (.ok (),after) →
      post kind (after.table kind) ∧ ∀ other, other ≠ kind → after.table other = index.table other)
    {kinds : List IndexKind} (distinct : kinds.Nodup) {index after : ObjectIndex State}
    (ran : (eachKind flags action kinds).run index = (.ok (),after)) (kind : IndexKind) :
    (kind ∈ kinds ∧ flags &&& kind.flag ≠ 0 → post kind (after.table kind)) ∧
      (¬ (kind ∈ kinds ∧ flags &&& kind.flag ≠ 0) → after.table kind = index.table kind) := by
  induction kinds generalizing index with
  | nil =>
    cases ran
    exact ⟨fun named => absurd named.1 List.not_mem_nil,fun _ => rfl⟩
  | cons first rest ih =>
    rw [List.nodup_cons] at distinct
    rw [eachKind] at ran
    obtain ⟨_,middle,step,later⟩ := Action.bind_success ran
    have others := ih distinct.2 later
    by_cases here : kind = first
    · subst here
      have untouched := others.2 fun named => distinct.1 named.1
      by_cases flagged : flags &&& kind.flag ≠ 0
      · rw [if_pos flagged] at step
        refine ⟨fun _ => ?_,fun absent => absurd ⟨List.mem_cons_self ..,flagged⟩ absent⟩
        rw [untouched]
        exact (own kind index middle step).1
      · rw [if_neg flagged] at step
        cases step
        exact ⟨fun named => absurd named.2 flagged,fun _ => untouched⟩
    · have kept : middle.table kind = index.table kind := by
        split at step
        · exact (own first index middle step).2 kind here
        · cases step
          rfl
      rw [List.mem_cons,or_iff_right here,← kept]
      exact others

/-- There is a table, and it has these objects under their keys. -/
def Filled (kind : IndexKind) (listed : List (Object State)) (tables : Option (IndexTable State)) : Prop :=
  ∃ table, tables = some table ∧ ∀ key, objectsIn table key = objectsOf kind key listed

theorem buildIndex_entered {kind : IndexKind} {calls : BuildCalls} {objects : List (Object State)}
    {index after : ObjectIndex State} (ran : (buildIndex kind calls objects).run index = (.ok (),after)) :
    Filled kind (calls.entered kind objects) (after.table kind) ∧
      ∀ other, other ≠ kind → after.table other = index.table other := by
  simp only [buildIndex] at ran
  split at ran
  · cases ran
  · split at ran
    · rename_i table filled
      cases ran
      refine ⟨⟨table,table_set ..,fun key => ?_⟩,fun other different => table_set_other different _⟩
      rw [enterAll_entered filled key]
      rfl
    · cases ran

/-- The tables of a new index that was built: those of the flags, with what the build got into them. -/
theorem built_tables {calls : IndexKind → BuildCalls} {objects : List (Object State)} {flags : UInt32}
    {index : ObjectIndex State} (ran : (objectIndexBuild calls objects flags).run {} = (.ok (),index)) (kind : IndexKind) :
    (flags &&& kind.flag ≠ 0 → Filled kind ((calls kind).entered kind objects) (index.table kind)) ∧
      (¬ flags &&& kind.flag ≠ 0 → index.table kind = none) := by
  rw [objectIndexBuild_kinds] at ran
  have each := @eachKind_each _ flags _ (fun kind => Filled kind ((calls kind).entered kind objects))
    (fun kind index after step => buildIndex_entered step) _ indexKinds_distinct _ _ ran kind
  have member := mem_indexKinds kind
  exact ⟨fun flagged => each.1 ⟨member,flagged⟩,fun unflagged => each.2 fun named => unflagged named.2⟩

end Entered

section Tables
variable {index : ObjectIndex State} {listed : List (Object State)}

theorem tableGet_objects {β : Type} (found : List (Object State) → β) (table : IndexTable State) (key : IndexKey) :
    (match tableGet table key with
      | some arr => found arr.objects
      | none => found []) = found (objectsIn table key) := by
  rw [objectsIn]
  cases tableGet table key <;> rfl

/-- The objects that match are those of the key, of one class or of any. -/
theorem hits_eq (query : Query) {key : IndexKey} (keyed : query.key = some key) : query.hits listed =
    if query.filter = 0 then objectsOf query.kind key listed
    else (objectsOf query.kind key listed).filter fun obj => obj.classId = query.filter := by
  have one (obj : Object State) : query.Matches obj ↔
      query.kind.keyOf obj = some key ∧ (query.filter = 0 ∨ obj.classId = query.filter) := by
    rw [query.matches_iff,keyed]
    exact and_congr_left fun _ => and_iff_right (Option.some_ne_none key)
  rw [Query.hits,objectsOf]
  simp only [one]
  split
  · rename_i any
    simp only [any,true_or,and_true]
  · rename_i classed
    rw [List.filter_filter]
    refine List.filter_congr fun obj _ => ?_
    simp only [classed,false_or]
    rw [Bool.decide_and,Bool.and_comm]

/-- Where nothing matches no array is allocated. -/
theorem ids_granted (granted : Bool) (matching : List (Object State)) :
    (if matching.length = 0 ∨ ¬ granted then [] else matching.map Object.id) =
      if granted then matching.map Object.id else [] := by
  cases granted with
  | false => exact if_pos (Or.inr Bool.false_ne_true)
  | true =>
    rw [if_pos rfl]
    split
    · rename_i empty
      rw [List.length_eq_zero_iff.mp (empty.resolve_right fun refused => refused rfl)]
      rfl
    · rfl

theorem answer_byClass (granted : Bool) (repo : ObjectRepository State) (classId : UInt32)
    (filled : Filled .byClass listed (index.table .byClass)) :
    queryAnswer granted repo (some index) (.byClass classId) = ((Query.byClass classId).hits listed).map Object.id := by
  obtain ⟨table,held,objects⟩ := filled
  simp only [queryAnswer,sessionGetObjectsByClass,objectIndexGetByClass,held]
  rw [hits_eq (.byClass classId) rfl,Query.filter,if_pos rfl,Query.kind,← objects]
  exact tableGet_objects (List.map Object.id) table (.classId classId)

theorem answer_byGuidAll (granted : Bool) (repo : ObjectRepository State) (guid : Guid)
    (filled : Filled .byGuid listed (index.table .byGuid)) :
    queryAnswer granted repo (some index) (.byGuidAll guid) = ((Query.byGuidAll guid).hits listed).map Object.id := by
  obtain ⟨table,held,objects⟩ := filled
  simp only [queryAnswer,objectIndexGetByGuidAll,held]
  cases null : guidIsNull guid with
  | true =>
    have none : (Query.byGuidAll guid).hits listed = [] := by
      rw [Query.hits,List.filter_eq_nil_iff]
      intro obj _ same
      have valid := (of_decide_eq_true same).1
      rw [null] at valid
      cases valid
    rw [none]
    rfl
  | false =>
    rw [if_neg Bool.false_ne_true,hits_eq (.byGuidAll guid) rfl,Query.filter,if_pos rfl,Query.kind,← objects]
    exact tableGet_objects (List.map Object.id) table (.guid guid)

theorem answer_byNameAll (granted : Bool) (repo : ObjectRepository State) (name : List UInt8) (classId : UInt32)
    (filled : Filled .byName listed (index.table .byName)) :
    queryAnswer granted repo (some index) (.byNameAll (some name) classId) =
      if classId = 0 ∨ granted then ((Query.byNameAll (some name) classId).hits listed).map Object.id else [] := by
  obtain ⟨table,held,objects⟩ := filled
  simp only [queryAnswer,objectIndexGetByNameAll,held]
  rw [hits_eq (.byNameAll (some name) classId) rfl,Query.kind,Query.filter,← objects,objectsIn]
  cases tableGet table (.name (cString name)) with
  | none =>
    dsimp only [Option.map_none,Option.getD_none]
    simp
  | some arr =>
    dsimp only [Option.map_some,Option.getD_some]
    by_cases any : classId = 0
    · rw [if_pos any,if_pos any,if_pos (Or.inl any)]
    · rw [if_neg any,if_neg any,ids_granted]
      exact if_congr (or_iff_right any).symm rfl rfl

theorem answer_findByName (granted : Bool) (repo : ObjectRepository State) (name : List UInt8) (classId : UInt32)
    (filled : Filled .byName listed (index.table .byName)) :
    queryAnswer granted repo (some index) (.findByName (some name) classId) =
      (((Query.findByName (some name) classId).hits listed).head?.map Object.id).toList := by
  obtain ⟨table,held,objects⟩ := filled
  simp only [queryAnswer,sessionFindByName,objectIndexFindByName,held]
  rw [hits_eq (.findByName (some name) classId) rfl,Query.kind,Query.filter,← objects,objectsIn]
  cases tableGet table (.name (cString name)) with
  | none =>
    dsimp only [Option.map_none,Option.getD_none]
    split <;> rfl
  | some arr =>
    dsimp only [Option.map_some,Option.getD_some]
    by_cases any : classId = 0
    · rw [if_neg (fun classed => classed any),if_pos any]
    · rw [if_pos any,if_neg any,List.head?_filter]

end Tables

section Answering
variable {repo : ObjectRepository State} {listed : List (Object State)} {query : Query}

theorem mem_hits {objects : List (Object State)} {obj : Object State} :
    obj ∈ query.hits objects ↔ obj ∈ objects ∧ query.Matches obj := by
  rw [Query.hits,List.mem_filter,decide_eq_true_iff]

theorem hits_none {objects : List (Object State)} : query.hits objects = [] ↔ ∀ obj ∈ objects, ¬ query.Matches obj := by
  rw [Query.hits,List.filter_eq_nil_iff]
  simp only [decide_eq_true_iff]

/-- Of some of the objects those that match are all that match just when none of these is missing. -/
theorem hits_perm (distinct : (repo.objects.map Object.id).Nodup) (part : listed.Sublist repo.objects) :
    ((query.hits listed).map Object.id).Perm ((query.hits repo.objects).map Object.id) ↔
      ∀ obj ∈ repo.objects, query.Matches obj → obj ∈ listed := by
  have fewer : (query.hits listed).Sublist (query.hits repo.objects) := part.filter _
  constructor
  · intro same obj stored matched
    have size := same.length_eq
    rw [List.length_map,List.length_map] at size
    have member : obj ∈ query.hits listed := by
      rw [fewer.eq_of_length size]
      exact mem_hits.mpr ⟨stored,matched⟩
    exact (mem_hits.mp member).1
  · intro all
    have once : (query.hits repo.objects).Nodup := (List.Nodup.of_map Object.id distinct).filter _
    have inside : query.hits repo.objects ⊆ query.hits listed := by
      intro obj member
      obtain ⟨stored,matched⟩ := mem_hits.mp member
      exact mem_hits.mpr ⟨all obj stored matched,matched⟩
    have size := (List.subperm_of_subset once inside).length_le
    rw [fewer.eq_of_length_le size]

theorem nothing_perm : ([] : List UInt32).Perm ((query.hits repo.objects).map Object.id) ↔
    ∀ obj ∈ repo.objects, ¬ query.Matches obj := by
  rw [List.nil_perm,List.map_eq_nil_iff,hits_none]

theorem answered_head (part : listed.Sublist repo.objects) :
    (((query.hits listed).head?.map Object.id).toList = [] ∧ ∀ obj ∈ repo.objects, ¬ query.Matches obj) ∨
      (∃ obj ∈ repo.objects, query.Matches obj ∧ ((query.hits listed).head?.map Object.id).toList = [obj.id]) ↔
    ((∃ obj ∈ repo.objects, query.Matches obj) → ∃ obj ∈ listed, query.Matches obj) := by
  cases found : query.hits listed with
  | nil =>
    have none := hits_none.mp found
    constructor
    · rintro (⟨-,nothing⟩ | ⟨obj,-,-,⟨⟩⟩) ⟨other,stored,matched⟩
      exact absurd matched (nothing other stored)
    · intro served
      refine .inl ⟨rfl,fun obj stored matched => ?_⟩
      obtain ⟨other,member,hit⟩ := served ⟨obj,stored,matched⟩
      exact none other member hit
  | cons obj rest =>
    have first : obj ∈ query.hits listed := found ▸ List.mem_cons_self
    obtain ⟨member,matched⟩ := mem_hits.mp first
    exact iff_of_true (.inr ⟨obj,part.subset member,matched,rfl⟩) fun _ => ⟨obj,member,matched⟩

theorem unnamed_unmatched (classId : UInt32) (obj : Object State) :
    ¬ (Query.findByName none classId).Matches obj ∧ ¬ (Query.byNameAll none classId).Matches obj := by
  constructor
  · rintro ⟨⟨_,⟨⟩,_⟩,_⟩
  · rintro ⟨⟨_,⟨⟩,_⟩,_⟩

/-- An index with a table for the query answers it just when the table has what it asks for. -/
theorem answered_listed {index : ObjectIndex State} (distinct : (repo.objects.map Object.id).Nodup)
    (part : listed.Sublist repo.objects) (filled : Filled query.kind listed (index.table query.kind)) (granted : Bool) :
    query.Answered repo (queryAnswer granted repo (some index) query) ↔ query.Listed granted repo listed := by
  cases query with
  | findByName name classId =>
    cases name with
    | none =>
      have nothing (obj : Object State) := (unnamed_unmatched classId obj).1
      exact iff_of_true (.inl ⟨rfl,fun obj _ => nothing obj⟩) fun ⟨obj,_,matched⟩ => absurd matched (nothing obj)
    | some name =>
      rw [answer_findByName granted repo name classId filled]
      exact answered_head part
  | byNameAll name classId =>
    cases name with
    | none =>
      have nothing (obj : Object State) := (unnamed_unmatched classId obj).2
      exact iff_of_true (nothing_perm.mpr fun obj _ => nothing obj) fun obj _ matched => absurd matched (nothing obj)
    | some name =>
      rw [answer_byNameAll granted repo name classId filled,Query.Answered,Query.Listed]
      split
      · rename_i given
        rw [hits_perm distinct part]
        exact ⟨fun all obj stored matched => ⟨all obj stored matched,given⟩,
          fun all obj stored matched => (all obj stored matched).1⟩
      · rename_i refused
        rw [nothing_perm]
        exact ⟨fun none obj stored matched => absurd matched (none obj stored),
          fun all obj stored matched => refused (all obj stored matched).2⟩
  | byGuidAll guid =>
    rw [answer_byGuidAll granted repo guid filled]
    exact hits_perm distinct part
  | byClass classId =>
    rw [answer_byClass granted repo classId filled]
    exact hits_perm distinct part

section Scanning
variable {index : Option (ObjectIndex State)}

theorem scanned_byClass {classId : UInt32} (missing : ∀ there, index = some there → there.table .byClass = none)
    (granted : Bool) : queryAnswer granted repo index (.byClass classId) =
      if granted then ((Query.byClass classId).hits repo.objects).map Object.id else [] := by
  have scanned : queryAnswer granted repo index (.byClass classId) = objectRepositoryFindByClass granted repo classId := by
    cases index with
    | none => rfl
    | some there => simp only [queryAnswer,sessionGetObjectsByClass,objectIndexGetByClass,missing there rfl]
  have hits : (Query.byClass classId).hits repo.objects = repo.objects.filter fun obj => obj.classId = classId :=
    List.filter_congr fun obj _ => decide_eq_decide.mpr Iff.rfl
  rw [scanned,objectRepositoryFindByClass,← hits]
  exact ids_granted granted _

theorem scanned_findByName {name : List UInt8} {classId : UInt32}
    (missing : ∀ there, index = some there → there.table .byName = none) (granted : Bool) :
    queryAnswer granted repo index (.findByName (some name) classId) = (objectRepositoryFindByName repo name).toList := by
  cases index with
  | none => rfl
  | some there => simp only [queryAnswer,sessionFindByName,objectIndexFindByName,missing there rfl]

end Scanning

theorem findByName_iff (once : (repo.nameTable.map Prod.fst).Nodup) (name : List UInt8) (id : UInt32) :
    objectRepositoryFindByName repo name = some id ↔ (cString name,id) ∈ repo.nameTable := by
  refine ⟨findByName_some,fun member => ?_⟩
  have found : (repo.nameTable.find? fun entry => entry.1 = cString name).isSome := by
    rw [List.find?_isSome]
    exact ⟨_,member,decide_eq_true rfl⟩
  obtain ⟨entry,first⟩ := Option.isSome_iff_exists.mp found
  have named : entry.1 = cString name := by simpa using List.find?_some first
  have same := List.inj_on_of_nodup_map once (List.mem_of_find?_eq_some first) member named
  rw [objectRepositoryFindByName,first,same]
  rfl

/-- The entry of a name is of a stored object, which the query may want or not. -/
theorem answered_name (holds : RepositoryHolds repo) (once : (repo.nameTable.map Prod.fst).Nodup) {granted : Bool}
    {name : List UInt8} {classId : UInt32} :
    (Query.findByName (some name) classId).Answered repo (objectRepositoryFindByName repo name).toList ↔
      (Query.findByName (some name) classId).Scanned granted repo := by
  rw [Query.Answered,Query.Scanned]
  simp only [Option.some.injEq,forall_eq',← findByName_iff once]
  cases found : objectRepositoryFindByName repo name with
  | none =>
    constructor
    · rintro (⟨-,nothing⟩ | ⟨obj,-,-,⟨⟩⟩)
      exact ⟨nofun,fun ⟨obj,stored,matched⟩ => absurd matched (nothing obj stored)⟩
    · rintro ⟨-,served⟩
      refine .inl ⟨rfl,fun obj stored matched => ?_⟩
      obtain ⟨id,same⟩ := served ⟨obj,stored,matched⟩
      cases same
  | some id =>
    obtain ⟨-,obj,stored,same,-⟩ := holds.entered _ (findByName_some found)
    constructor
    · rintro (⟨⟨⟩,-⟩ | ⟨other,kept,matched,answered⟩)
      refine ⟨fun another present equal => ?_,fun _ => ⟨id,rfl⟩⟩
      have first : other.id = another.id := (List.cons.inj answered).1.symm.trans (Option.some.inj equal)
      rwa [← stored_once holds kept present first]
    · rintro ⟨wanted,-⟩
      exact .inr ⟨obj,stored,wanted obj stored (congrArg some same.symm),congrArg (fun id => [id]) same.symm⟩

/-- Without a table for the query the repository answers it. -/
theorem answered_scanned (holds : RepositoryHolds repo) (once : (repo.nameTable.map Prod.fst).Nodup)
    {index : Option (ObjectIndex State)} (missing : ∀ there, index = some there → there.table query.kind = none)
    (granted : Bool) : query.Answered repo (queryAnswer granted repo index query) ↔ query.Scanned granted repo := by
  cases query with
  | findByName name classId =>
    cases name with
    | none =>
      have nothing (obj : Object State) := (unnamed_unmatched classId obj).1
      exact iff_of_true (.inl ⟨rfl,fun obj _ => nothing obj⟩) nofun
    | some name =>
      rw [scanned_findByName missing]
      exact answered_name holds once
  | byNameAll name classId =>
    have none : queryAnswer granted repo index (.byNameAll name classId) = [] := by
      cases name with
      | none => rfl
      | some name =>
        cases index with
        | none => rfl
        | some there =>
          have absent : there.table .byName = none := missing there rfl
          simp only [queryAnswer,objectIndexGetByNameAll,absent]
    rw [none]
    exact nothing_perm
  | byGuidAll guid =>
    have none : queryAnswer granted repo index (.byGuidAll guid) = [] := by
      cases index with
      | none => rfl
      | some there =>
        have absent : there.table .byGuid = none := missing there rfl
        simp only [queryAnswer,objectIndexGetByGuidAll,absent,ite_self]
    rw [none]
    exact nothing_perm
  | byClass classId =>
    rw [scanned_byClass missing,Query.Answered,Query.Scanned]
    cases granted with
    | true => exact iff_of_true (List.Perm.refl _) fun _ _ _ => rfl
    | false =>
      rw [if_neg Bool.false_ne_true,nothing_perm]
      exact ⟨fun none obj stored matched => absurd matched (none obj stored),
        fun all obj stored matched => Bool.false_ne_true (all obj stored matched)⟩

end Answering

/-- Queries for one object both find one or both none; queries for all find the same. -/
def Query.SameAnswer (query : Query) (ids others : List UInt32) : Prop :=
  match query with
  | .findByName _ _ => ids = [] ↔ others = []
  | .byNameAll _ _ | .byGuidAll _ | .byClass _ => ids.Perm others

theorem answered_same {query : Query} {repo : ObjectRepository State} {ids others : List UInt32}
    (one : query.Answered repo ids) (other : query.Answered repo others) : query.SameAnswer ids others := by
  cases query with
  | findByName name classId =>
    rcases one with ⟨rfl,nothing⟩ | ⟨obj,stored,matched,rfl⟩
    · rcases other with ⟨rfl,-⟩ | ⟨obj,stored,matched,-⟩
      · exact Iff.rfl
      · exact absurd matched (nothing obj stored)
    · rcases other with ⟨-,nothing⟩ | ⟨other,-,-,rfl⟩
      · exact absurd matched (nothing obj stored)
      · exact iff_of_false nofun nofun
  | byNameAll name classId => exact List.Perm.trans one (List.Perm.symm other)
  | byGuidAll guid => exact List.Perm.trans one (List.Perm.symm other)
  | byClass classId => exact List.Perm.trans one (List.Perm.symm other)

/-- With the tables that were built and without an index the query finds the same, the stored objects that match. -/
structure QueryAgrees (granted : Bool) (repo : ObjectRepository State) (index : ObjectIndex State) (query : Query) : Prop where
  indexed : query.Answered repo (queryAnswer granted repo (some index) query)
  scanned : query.Answered repo (queryAnswer granted repo none query)
  same : query.SameAnswer (queryAnswer granted repo (some index) query) (queryAnswer granted repo none query)

/-- The table of the query serves it if there is one, and the repository does. -/
def QueryServed (granted : Bool) (repo : ObjectRepository State) (calls : IndexKind → BuildCalls) (flags : UInt32)
    (query : Query) : Prop :=
  (flags &&& query.kind.flag ≠ 0 → query.Listed granted repo ((calls query.kind).entered query.kind repo.objects)) ∧
    query.Scanned granted repo

theorem agrees_built {repo : ObjectRepository State} (holds : RepositoryHolds repo)
    (once : (repo.nameTable.map Prod.fst).Nodup) {calls : IndexKind → BuildCalls} {flags : UInt32}
    {index : ObjectIndex State} (built : (objectIndexBuild calls repo.objects flags).run {} = (.ok (),index))
    (granted : Bool) (query : Query) : QueryAgrees granted repo index query ↔ QueryServed granted repo calls flags query := by
  have tables := built_tables built query.kind
  have scanned : query.Answered repo (queryAnswer granted repo none query) ↔ query.Scanned granted repo := by
    refine answered_scanned holds once ?_ granted
    rintro _ ⟨⟩
  have listed (flagged : flags &&& query.kind.flag ≠ 0) :=
    answered_listed holds.distinct (built_sublist (calls query.kind) query.kind _) (tables.1 flagged) granted
  constructor
  · rintro ⟨indexed,alone,-⟩
    exact ⟨fun flagged => (listed flagged).mp indexed,scanned.mp alone⟩
  · rintro ⟨served,alone⟩
    have indexed : query.Answered repo (queryAnswer granted repo (some index) query) := by
      by_cases flagged : flags &&& query.kind.flag ≠ 0
      · exact (listed flagged).mpr (served flagged)
      · refine (answered_scanned holds once ?_ granted).mpr alone
        rintro _ ⟨⟩
        exact tables.2 flagged
    exact ⟨indexed,scanned.mpr alone,answered_same indexed (scanned.mpr alone)⟩

/-- A repository with one object of class 5, whose name is "A". -/
def oneNamed : List (RepositoryOp Unit) := [.add { id := 1, classId := 5, name := [65] } {}]

end Libnmo.Session
