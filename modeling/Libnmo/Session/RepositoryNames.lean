import Libnmo.Session.RepositoryAdds

/-! The name table over a whole run of a repository. It has one entry for a name,
however many objects have that name, and the entry goes with any of them. -/
namespace Libnmo.Session
open Core Format Lib

variable {State : Type}

/-- An object with an empty name has none. -/
def HasName (obj : Object State) (name : List UInt8) : Prop := cString name ≠ [] ∧ cString obj.name = cString name

/-- A name finds an object that has it just when an object is stored that does. -/
structure NamesFound (repo : ObjectRepository State) : Prop where
  found : ∀ name, (∃ id, objectRepositoryFindByName repo name = some id) ↔ ∃ obj ∈ repo.objects, HasName obj name
  right : ∀ name id, objectRepositoryFindByName repo name = some id →
    ∃ obj ∈ repo.objects, obj.id = id ∧ HasName obj name

/-- The operation takes no name away that another stored object has. -/
def LeavesNames (repo : ObjectRepository State) : RepositoryOp State → Prop
  | .add obj calls => Reaches calls repo (repo.numbered obj) → calls.index ≠ none →
      ∀ other ∈ repo.objects, ¬ HasName other obj.name
  | .remove id refused => refused = none → ∀ obj ∈ repo.objects, obj.id = id →
      ∀ other ∈ repo.objects, other.id ≠ id → ¬ HasName other obj.name
  | .clear _ => True

/-- The IDs of the stored objects are different, and an entry of the name table
points to a stored object of its name. -/
structure RepositoryHolds (repo : ObjectRepository State) : Prop where
  counter : repo.nextRuntimeId ≠ 0
  distinct : (repo.objects.map Object.id).Nodup
  entered : ∀ entry ∈ repo.nameTable,
    entry.1 ≠ [] ∧ ∃ obj ∈ repo.objects, obj.id = entry.2 ∧ cString obj.name = entry.1

/-- Every name of a stored object has an entry. -/
def NamesEntered (repo : ObjectRepository State) : Prop :=
  ∀ obj ∈ repo.objects, cString obj.name ≠ [] → ∃ entry ∈ repo.nameTable, entry.1 = cString obj.name

section Tables
variable {table : List (List UInt8 × UInt32)} {name : List UInt8} {entry : List UInt8 × UInt32}

theorem mem_insertName (named : name ≠ []) (id : UInt32) : entry ∈ insertName table name id ↔
    entry = (name,id) ∨ (entry ∈ table ∧ entry.1 ≠ name) := by
  rw [insertName,if_neg named]
  by_cases present : (table.any fun entry => entry.1 = name) = true
  · rw [if_pos present,List.mem_map]
    constructor
    · rintro ⟨old,member,rfl⟩
      by_cases same : old.1 = name
      · exact .inl (if_pos same)
      · rw [if_neg same]
        exact .inr ⟨member,same⟩
    · rintro (rfl | ⟨member,other⟩)
      · obtain ⟨old,member,same⟩ := List.any_eq_true.mp present
        exact ⟨old,member,if_pos (of_decide_eq_true same)⟩
      · exact ⟨entry,member,if_neg other⟩
  · rw [if_neg present,List.mem_append,List.mem_singleton]
    have others (member : entry ∈ table) : entry.1 ≠ name := by
      intro same
      exact present (List.any_eq_true.mpr ⟨entry,member,decide_eq_true same⟩)
    constructor
    · rintro (member | rfl)
      · exact .inr ⟨member,others member⟩
      · exact .inl rfl
    · rintro (rfl | ⟨member,_⟩)
      · exact .inr rfl
      · exact .inl member

theorem mem_eraseName (valid : entry.1 ≠ []) : entry ∈ eraseName table name ↔ entry ∈ table ∧ entry.1 ≠ name := by
  rw [eraseName]
  split
  · rename_i unnamed
    rw [unnamed]
    exact ⟨fun member => ⟨member,valid⟩,And.left⟩
  · rw [List.mem_filter,decide_eq_true_iff]

theorem eraseName_subset (member : entry ∈ eraseName table name) : entry ∈ table := by
  rw [eraseName] at member
  split at member
  · exact member
  · exact List.mem_of_mem_filter member

end Tables

section Steps
variable {repo : ObjectRepository State}

theorem findByName_some {name : List UInt8} {id : UInt32} (found : objectRepositoryFindByName repo name = some id) :
    (cString name,id) ∈ repo.nameTable := by
  obtain ⟨entry,first,rfl⟩ := Option.map_eq_some_iff.mp found
  have same : entry.1 = cString name := by simpa using List.find?_some first
  rw [← same]
  exact List.mem_of_find?_eq_some first

theorem namesFound_iff (holds : RepositoryHolds repo) : NamesFound repo ↔ NamesEntered repo := by
  constructor
  · intro names obj member named
    obtain ⟨id,found⟩ := (names.found obj.name).mpr ⟨obj,member,named,rfl⟩
    exact ⟨_,findByName_some found,rfl⟩
  · intro entered
    have right (name id) (found : objectRepositoryFindByName repo name = some id) :
        ∃ obj ∈ repo.objects, obj.id = id ∧ HasName obj name := by
      obtain ⟨named,obj,member,same,called⟩ := holds.entered _ (findByName_some found)
      exact ⟨obj,member,same,named,called⟩
    refine ⟨fun name => ⟨fun ⟨id,found⟩ => ?_,fun ⟨obj,member,named,called⟩ => ?_⟩,right⟩
    · obtain ⟨obj,member,_,has⟩ := right name id found
      exact ⟨obj,member,has⟩
    · obtain ⟨entry,listed,same⟩ := entered obj member (called ▸ named)
      have some : (repo.nameTable.find? fun entry => entry.1 = cString name).isSome := by
        rw [List.find?_isSome]
        exact ⟨entry,listed,by simpa using same.trans called⟩
      obtain ⟨first,found⟩ := Option.isSome_iff_exists.mp some
      exact ⟨first.2,by rw [objectRepositoryFindByName,found]; rfl⟩

theorem holds_store (holds : RepositoryHolds repo) {obj : Object State} (absent : repo.contains obj.id = false) :
    RepositoryHolds (repo.store obj) := by
  refine ⟨holds.counter,?_,?_⟩
  · change ((repo.objects ++ [obj]).map Object.id).Nodup
    rw [List.map_append,List.nodup_append]
    refine ⟨holds.distinct,by simp,?_⟩
    intro id listed other last
    obtain ⟨stored,member,rfl⟩ := List.mem_map.mp listed
    rw [List.mem_singleton.mp last]
    exact contains_false.mp absent stored member
  · intro entry member
    have earlier (listed : entry ∈ repo.nameTable) : entry.1 ≠ [] ∧
        ∃ other ∈ (repo.store obj).objects, other.id = entry.2 ∧ cString other.name = entry.1 := by
      obtain ⟨valid,other,stored,same⟩ := holds.entered entry listed
      exact ⟨valid,other,List.mem_append_left _ stored,same⟩
    change entry ∈ insertName repo.nameTable (cString obj.name) obj.id at member
    by_cases unnamed : cString obj.name = []
    · rw [insertName,if_pos unnamed] at member
      exact earlier member
    · cases (mem_insertName unnamed obj.id).mp member with
      | inl new =>
        rw [new]
        exact ⟨unnamed,obj,List.mem_append_right _ (List.mem_singleton_self _),rfl,rfl⟩
      | inr old => exact earlier old.1

/-- Of different objects that are stored no two have one ID. -/
theorem stored_once (holds : RepositoryHolds repo) {obj other : Object State} (first : obj ∈ repo.objects)
    (second : other ∈ repo.objects) (same : obj.id = other.id) : obj = other :=
  List.inj_on_of_nodup_map holds.distinct first second same

theorem holds_leaveName (holds : RepositoryHolds repo) (name : List UInt8) : RepositoryHolds (repo.leaveName name) := by
  refine ⟨holds.counter,holds.distinct,fun entry member => holds.entered entry (eraseName_subset member)⟩

theorem holds_removed (holds : RepositoryHolds repo) {obj : Object State} (member : obj ∈ repo.objects) :
    RepositoryHolds ((repo.leaveName (cString obj.name)).drop obj.id) := by
  refine ⟨holds.counter,distinct_removeKey holds.distinct obj.id,fun entry listed => ?_⟩
  change entry ∈ eraseName repo.nameTable (cString obj.name) at listed
  obtain ⟨valid,other,stored,same,called⟩ := holds.entered entry (eraseName_subset listed)
  have renamed := ((mem_eraseName valid).mp listed).2
  refine ⟨valid,other,(mem_removeKey holds.distinct obj.id other).mpr ⟨stored,fun equal => ?_⟩,same,called⟩
  rw [stored_once holds stored member equal] at called
  exact renamed called.symm

/-- Once a name has left the table, the names of objects that have another are still entered. -/
theorem entered_left (holds : RepositoryHolds repo) (entered : NamesEntered repo) {name : List UInt8}
    {rest : ObjectRepository State} (within : ∀ other ∈ rest.objects, other ∈ repo.objects)
    (left : rest.nameTable = eraseName repo.nameTable (cString name)) :
    NamesEntered rest ↔ ∀ other ∈ rest.objects, ¬ HasName other name := by
  rw [NamesEntered,left]
  constructor
  · intro still other stored ⟨named,same⟩
    obtain ⟨entry,listed,called⟩ := still other stored (same ▸ named)
    have valid : entry.1 ≠ [] := (holds.entered entry (eraseName_subset listed)).1
    exact ((mem_eraseName valid).mp listed).2 (called.trans same)
  · intro alone other stored named
    obtain ⟨entry,listed,called⟩ := entered other (within other stored) named
    refine ⟨entry,(mem_eraseName (called ▸ named)).mpr ⟨listed,fun same => ?_⟩,called⟩
    have equal := called.symm.trans same
    exact alone other stored ⟨equal ▸ named,equal⟩

theorem entered_store (entered : NamesEntered repo) (obj : Object State) : NamesEntered (repo.store obj) := by
  intro other stored named
  change ∃ entry ∈ insertName repo.nameTable (cString obj.name) obj.id, entry.1 = cString other.name
  by_cases same : cString other.name = cString obj.name
  · rw [same] at named
    exact ⟨_,(mem_insertName named obj.id).mpr (.inl rfl),same.symm⟩
  · cases List.mem_append.mp stored with
    | inr last => exact absurd (congrArg (cString ∘ Object.name) (List.mem_singleton.mp last)) same
    | inl earlier =>
      obtain ⟨entry,listed,called⟩ := entered other earlier named
      by_cases unnamed : cString obj.name = []
      · rw [insertName,if_pos unnamed]
        exact ⟨entry,listed,called⟩
      · exact ⟨entry,(mem_insertName unnamed obj.id).mpr (.inr ⟨listed,called ▸ same⟩),called⟩

theorem holds_created : RepositoryHolds ({} : ObjectRepository State) :=
  ⟨nofun,List.nodup_nil,nofun⟩

theorem holds_counted (holds : RepositoryHolds repo) (obj : Object State) : RepositoryHolds (repo.counted obj) := by
  have counter := counter_counted holds.counter obj
  rw [ObjectRepository.counted] at counter ⊢
  split at counter
  · rename_i unnumbered
    rw [if_pos unnumbered]
    exact ⟨counter,holds.distinct,holds.entered⟩
  · rename_i given
    rw [if_neg given]
    exact holds

theorem find_some {id : UInt32} {obj : Object State} (found : repo.find id = some obj) :
    obj ∈ repo.objects ∧ obj.id = id :=
  ⟨List.mem_of_find?_eq_some found,by simpa using List.find?_some found⟩

theorem holds_step (repo : ObjectRepository State) (op : RepositoryOp State) (holds : RepositoryHolds repo) :
    RepositoryHolds (repositoryStep repo op) := by
  cases op with
  | add obj calls =>
    have counted := holds_counted holds obj
    rw [repositoryStep]
    rcases add_cases holds.counter obj calls with ⟨_,_,ran⟩ | ⟨_,_,_,ran⟩ | ⟨reaches,_,ran⟩
    · rw [ran]
      exact counted
    · rw [ran]
      exact holds_leaveName counted _
    · rw [ran]
      exact holds_store counted (reaches_counted.mpr reaches).absent
  | remove id refused =>
    rcases remove_cases id refused with ⟨_,same⟩ | ⟨obj,found,_,removed⟩
    · rwa [same]
    · obtain ⟨member,rfl⟩ := find_some found
      rw [removed]
      exact holds_removed holds member
  | clear refused =>
    rw [clear_created]
    exact holds_created

theorem counted_nameTable (obj : Object State) : (repo.counted obj).nameTable = repo.nameTable := by
  rw [ObjectRepository.counted]
  split <;> rfl

theorem once_insertName {table : List (List UInt8 × UInt32)} (once : (table.map Prod.fst).Nodup) (name : List UInt8)
    (id : UInt32) : ((insertName table name id).map Prod.fst).Nodup := by
  rw [insertName]
  split
  · exact once
  · split
    · have same : (table.map fun entry => if entry.1 = name then (name,id) else entry).map Prod.fst = table.map Prod.fst := by
        rw [List.map_map]
        refine List.map_congr_left fun entry _ => ?_
        dsimp only [Function.comp]
        split
        · rename_i named
          exact named.symm
        · rfl
      rwa [same]
    · rename_i absent
      rw [List.map_append,List.nodup_append]
      refine ⟨once,List.nodup_singleton _,?_⟩
      rintro other listed _ last rfl
      obtain ⟨entry,member,rfl⟩ := List.mem_map.mp listed
      exact absent (List.any_eq_true.mpr ⟨entry,member,decide_eq_true (List.mem_singleton.mp last)⟩)

theorem once_eraseName {table : List (List UInt8 × UInt32)} (once : (table.map Prod.fst).Nodup) (name : List UInt8) :
    ((eraseName table name).map Prod.fst).Nodup := by
  rw [eraseName]
  split
  · exact once
  · exact once.sublist (List.filter_sublist.map _)

/-- The name table has one entry for a name. -/
theorem once_step (repo : ObjectRepository State) (op : RepositoryOp State)
    (kept : RepositoryHolds repo ∧ (repo.nameTable.map Prod.fst).Nodup) :
    RepositoryHolds (repositoryStep repo op) ∧ ((repositoryStep repo op).nameTable.map Prod.fst).Nodup := by
  obtain ⟨holds,once⟩ := kept
  refine ⟨holds_step repo op holds,?_⟩
  cases op with
  | add obj calls =>
    have counted := once
    rw [← counted_nameTable obj] at counted
    rw [repositoryStep]
    rcases add_cases holds.counter obj calls with ⟨_,_,ran⟩ | ⟨_,_,_,ran⟩ | ⟨_,_,ran⟩
    · rw [ran]
      exact counted
    · rw [ran]
      exact once_eraseName counted _
    · rw [ran]
      exact once_insertName counted _ _
  | remove id refused =>
    rcases remove_cases id refused with ⟨_,same⟩ | ⟨obj,_,_,removed⟩
    · rwa [same]
    · rw [removed]
      exact once_eraseName once _
  | clear refused =>
    rw [clear_created]
    exact List.nodup_nil

theorem entered_counted (obj : Object State) : NamesEntered (repo.counted obj) ↔ NamesEntered repo := by
  rw [NamesEntered,NamesEntered,counted_objects,counted_nameTable]

theorem entered_step (op : RepositoryOp State) (holds : RepositoryHolds repo) (entered : NamesEntered repo) :
    NamesEntered (repositoryStep repo op) ↔ LeavesNames repo op := by
  cases op with
  | add obj calls =>
    rw [repositoryStep,LeavesNames]
    rcases add_cases holds.counter obj calls with ⟨early,_,ran⟩ | ⟨reaches,refused,_,ran⟩ | ⟨_,index,ran⟩
    · rw [ran]
      exact ⟨fun _ reaches => absurd reaches early,fun _ => (entered_counted obj).mpr entered⟩
    · rw [ran]
      have objects : (repo.counted obj).objects = repo.objects := counted_objects
      have left : NamesEntered ((repo.counted obj).leaveName (cString obj.name)) ↔
          ∀ other ∈ (repo.counted obj).objects, ¬ HasName other obj.name := by
        apply entered_left holds entered
        · intro other stored
          exact objects ▸ stored
        · rw [ObjectRepository.leaveName,counted_nameTable]
      rw [objects] at left
      exact ⟨fun still _ _ => left.mp still,fun alone => left.mpr (alone reaches refused)⟩
    · rw [ran]
      refine ⟨fun _ _ refused => absurd index refused,fun _ => ?_⟩
      exact entered_store ((entered_counted obj).mpr entered) _
  | remove id refused =>
    rw [LeavesNames]
    rcases remove_cases id refused with ⟨stays,same⟩ | ⟨obj,found,goes,removed⟩
    · rw [same]
      refine ⟨fun _ goes obj member equal => ?_,fun _ => entered⟩
      have absent := List.find?_eq_none.mp (stays goes) obj member
      exact absurd (decide_eq_true equal) absent
    · obtain ⟨member,rfl⟩ := find_some found
      have others (other : Object State) := mem_removeKey holds.distinct obj.id other
      have left : NamesEntered ((repo.leaveName (cString obj.name)).drop obj.id) ↔
          ∀ other ∈ removeKey Object.id repo.objects obj.id, ¬ HasName other obj.name :=
        entered_left holds entered (fun other stored => ((others other).mp stored).1) rfl
      rw [removed,left]
      constructor
      · intro alone _ named stored same other kept different
        rw [stored_once holds stored member same]
        exact alone other ((others other).mpr ⟨kept,different⟩)
      · intro alone other stored
        obtain ⟨kept,different⟩ := (others other).mp stored
        exact alone goes obj member rfl other kept different
  | clear refused =>
    rw [clear_created]
    exact ⟨fun _ => trivial,fun _ obj member => absurd member List.not_mem_nil⟩

end Steps

end Libnmo.Session
