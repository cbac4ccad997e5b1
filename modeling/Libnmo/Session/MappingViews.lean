import Mathlib.Data.List.Induction
import Mathlib.Data.List.Nodup
import Libnmo.Session.LoadMappings

/-! The views of a load session: the lookup of a file ID, the mappings it lists and the
remap table that is built from them. The table doubles its capacity in an arena; a
mapping for which that is refused is left out, and the table is returned without it. -/
namespace Libnmo.Session
open Core Format Lib OpenAddressing Hashing
open scoped List

structure RemapTable where
  remap : IdRemap := {}
  capacity : Nat := 32

/-- `nmo_id_remap_add`, with what the arena answers when the entries are to grow. -/
def RemapTable.add (table : RemapTable) (oldId newId : UInt32) (granted : Bool) : RemapTable × Status :=
  if table.capacity ≤ table.remap.entries.length then
    if granted then (⟨idRemapAdd table.remap oldId newId,table.capacity * 2⟩,none) else (table,some .nomem)
  else ({ table with remap := idRemapAdd table.remap oldId newId },none)

/-- The loop goes on when a mapping is not added. -/
def addMappings (grows : Nat → Bool) (mappings : List (UInt32 × UInt32)) : RemapTable :=
  mappings.zipIdx.foldl (fun table item => (table.add item.1.1 item.1.2 (grows item.2)).1) {}

namespace MappedSession

/-- `nmo_build_remap_table`: whether there is memory for the two arrays and for a new
table, and for its growth at each mapping. -/
def buildRemapTable (session : MappedSession) (granted created : Bool) (grows : Nat → Bool) : Result (Option RemapTable) :=
  match session.getMappings granted with
  | .error (.error _ _) => pure none
  | .error stop => .error stop
  | .ok (mappings,count) =>
    if count = 0 ∨ ¬ created then pure none
    else if mappings.length < count then .error (.overread mappings.length)
    else pure (some (addMappings grows (mappings.take count)))

end MappedSession

/-- The growth of the entries of a remap table is never refused. -/
def GrowthGranted (grows : Nat → Bool) (count : Nat) : Prop := ∀ k, 32 * 2 ^ k < count → grows (32 * 2 ^ k) = true

theorem addMappings_concat (grows : Nat → Bool) (front : List (UInt32 × UInt32)) (mapping : UInt32 × UInt32) :
    addMappings grows (front ++ [mapping]) =
      ((addMappings grows front).add mapping.1 mapping.2 (grows front.length)).1 := by
  rw [addMappings,List.zipIdx_append,List.foldl_append]
  simp [addMappings]

/-- What the loop keeps: some of the mappings in their order, in a capacity that is not
twice what it holds. -/
structure Holding (mappings : List (UInt32 × UInt32)) (table : RemapTable) : Prop where
  some : table.remap.entries.Sublist (mappings.map remapEntry)
  within : table.remap.entries.length ≤ table.capacity
  doubled : ∃ k, table.capacity = 32 * 2 ^ k ∧ (k = 0 ∨ table.capacity < 2 * table.remap.entries.length)

theorem holding_added {mappings : List (UInt32 × UInt32)} {table : RemapTable} (holding : Holding mappings table)
    (mapping : UInt32 × UInt32) (granted : Bool) :
    Holding (mappings ++ [mapping]) (table.add mapping.1 mapping.2 granted).1 := by
  obtain ⟨some,within,k,size,least⟩ := holding
  have appended : (table.remap.entries ++ [remapEntry mapping]).Sublist ((mappings ++ [mapping]).map remapEntry) := by
    rw [List.map_append]
    exact some.append (List.Sublist.refl _)
  rw [RemapTable.add]
  split
  · rename_i full
    cases granted with
    | true =>
      rw [if_pos rfl]
      refine ⟨appended,?_,k + 1,?_,Or.inr ?_⟩
      · simp [idRemapAdd]
        have positive := Nat.two_pow_pos k
        omega
      · rw [size,Nat.pow_succ,Nat.mul_assoc]
      · simp [idRemapAdd]
        omega
    | false =>
      refine ⟨?_,within,k,size,least⟩
      rw [List.map_append]
      exact some.trans (List.sublist_append_left _ _)
  · rename_i room
    refine ⟨appended,?_,k,size,?_⟩
    · simp [idRemapAdd]
      omega
    · simp [idRemapAdd]
      omega

theorem addMappings_holds (grows : Nat → Bool) (mappings : List (UInt32 × UInt32)) :
    Holding mappings (addMappings grows mappings) := by
  induction mappings using List.reverseRecOn with
  | nil => exact ⟨List.Sublist.refl _,Nat.zero_le _,0,rfl,Or.inl rfl⟩
  | append_singleton front mapping ih =>
    rw [addMappings_concat]
    exact holding_added ih mapping (grows front.length)

theorem add_length {table : RemapTable} (oldId newId : UInt32) (granted : Bool) :
    (table.add oldId newId granted).1.remap.entries.length =
      if table.capacity ≤ table.remap.entries.length ∧ granted = false then table.remap.entries.length
      else table.remap.entries.length + 1 := by
  rw [RemapTable.add]
  split
  · rename_i full
    cases granted <;> simp [full,idRemapAdd]
  · rename_i room
    simp [room,idRemapAdd]

theorem capacity_reached {j k : Nat} (least : k = 0 ∨ 32 * 2 ^ k < 2 * (32 * 2 ^ j)) : 32 * 2 ^ k ≤ 32 * 2 ^ j := by
  apply Nat.mul_le_mul_left
  rcases least with rfl | below
  · exact Nat.two_pow_pos j
  · have larger : 2 ^ k < 2 ^ (j + 1) := by
      rw [Nat.pow_succ]
      omega
    exact Nat.pow_le_pow_right Nat.zero_lt_two (Nat.lt_succ_iff.mp ((Nat.pow_lt_pow_iff_right Nat.one_lt_two).mp larger))

/-- The table is complete just when it was given room each time its entries were full. -/
theorem addMappings_complete (grows : Nat → Bool) (mappings : List (UInt32 × UInt32)) :
    (addMappings grows mappings).remap.entries.length = mappings.length ↔ GrowthGranted grows mappings.length := by
  induction mappings using List.reverseRecOn with
  | nil => exact iff_of_true rfl fun k few => absurd few (Nat.not_lt_zero _)
  | append_singleton front mapping ih =>
    have held := addMappings_holds grows front
    have most := held.some.length_le
    rw [List.length_map] at most
    obtain ⟨k,size,least⟩ := held.doubled
    rw [addMappings_concat,add_length,List.length_append,List.length_singleton]
    constructor
    · intro all j few
      have before : (addMappings grows front).remap.entries.length = front.length := by
        split at all <;> omega
      rcases Nat.lt_or_ge (32 * 2 ^ j) front.length with earlier | last
      · exact ih.mp before j earlier
      · have equal : 32 * 2 ^ j = front.length := by omega
        rw [equal]
        by_contra refused
        rw [before,← equal,size] at least
        have full := capacity_reached least
        rw [before,if_pos ⟨by omega,Bool.eq_false_iff.mpr refused⟩] at all
        omega
    · intro granted
      have before := ih.mpr fun j few => granted j (Nat.lt_succ_of_lt few)
      rw [before,if_neg]
      rintro ⟨full,refused⟩
      have within := held.within
      have last : 32 * 2 ^ k = front.length := by omega
      have given := granted k (by omega)
      rw [last,refused] at given
      cases given

def registration : SessionOp × Status → Option (UInt32 × UInt32)
  | (.register id fileId _,none) => some (fileId,id)
  | (.register _ _ _,some _) | (.finish,_) => none

/-- The registrations that succeeded, each file ID with its runtime ID. -/
def registered (log : List (SessionOp × Status)) : List (UInt32 × UInt32) := log.filterMap registration

def firstRegistered (log : List (SessionOp × Status)) (fileId : UInt32) : Option UInt32 :=
  ((registered log).find? fun mapping => mapping.1 = fileId).map Prod.snd

/-- Each view gives the runtime ID of the first registration of a file ID that succeeded. -/
structure ViewsAgree (session : MappedSession) (log : List (SessionOp × Status)) (grows : Nat → Bool) : Prop where
  looked : ∀ fileId id, session.lookupRuntimeId fileId = .ok id ↔ firstRegistered log fileId = some id
  rejected : ∀ id fileId granted, (firstRegistered log fileId).isSome →
    ∃ code, session.register id fileId granted = .ok (session,some code)
  once : ((registered log).map Prod.fst).Nodup
  listed : ∃ mappings, session.getMappings true = .ok (mappings,mappings.length) ∧ mappings ~ registered log
  built : ∃ result, session.buildRemapTable true true grows = .ok result ∧ (result.isNone ↔ registered log = [])
  remapped : ∀ granted created table, session.buildRemapTable granted created grows = .ok (some table) →
    ∀ fileId id, idRemapLookupId table.remap fileId = .ok id ↔ firstRegistered log fileId = some id

theorem reached_stands {start session : MappedSession} {listed : LoadSession} {log : List (SessionOp × Status)}
    (stands : StandsFor start listed) (empty : listed.idMappings = [])
    (reached : Reached MappedSession.call WithinInt start log session) :
    ∃ last, StandsFor session last ∧ last.idMappings = registered log := by
  induction reached with
  | start => exact ⟨listed,stands,empty⟩
  | @call log s s' op answer before within returned ih =>
    obtain ⟨last,stood,same⟩ := ih
    rw [registered,List.filterMap_append]
    cases op with
    | finish =>
      cases returned
      refine ⟨_,stood.finish,?_⟩
      rw [same]
      exact (List.append_nil _).symm
    | register id fileId granted =>
      have made := (stood.register within).of_ok returned
      cases answer with
      | none => exact ⟨_,made.2,congrArg (· ++ [(fileId,id)]) same⟩
      | some code => exact ⟨last,made,same.trans (List.append_nil _).symm⟩

theorem found_iff {mappings : List (UInt32 × UInt32)} (apart : fileIdKeys.Apart mappings) (fileId id : UInt32) :
    (mappings.find? fun mapping => mapping.1 = fileId).map Prod.snd = some id ↔ (fileId,id) ∈ mappings := by
  constructor
  · intro found
    obtain ⟨mapping,first,rfl⟩ := Option.map_eq_some_iff.mp found
    have named : mapping.1 = fileId := by simpa using List.find?_some first
    rw [← named]
    exact List.mem_of_find?_eq_some first
  · intro member
    have found := apart.find fileIdKeys_lawful member (fileIdKeys_lawful.refl fileId)
    exact congrArg (Option.map Prod.snd) found

theorem apart_once {mappings : List (UInt32 × UInt32)} (apart : fileIdKeys.Apart mappings) :
    (mappings.map Prod.fst).Nodup := by
  refine List.pairwise_map.mpr (apart.imp ?_)
  intro a b differs equal
  rw [equal] at differs
  rw [fileIdKeys_lawful.refl b.1] at differs
  cases differs

theorem idRemapLookupId_entries (mappings : List (UInt32 × UInt32)) (fileId id : UInt32) :
    idRemapLookupId ⟨mappings.map remapEntry⟩ fileId = .ok id ↔
      (mappings.find? fun mapping => mapping.1 = fileId).map Prod.snd = some id := by
  rw [idRemapLookupId,List.find?_map]
  have same : ((fun entry : IdRemapEntry => decide (entry.oldId = fileId)) ∘ remapEntry) =
      fun mapping => decide (mapping.1 = fileId) := rfl
  rw [same]
  cases mappings.find? fun mapping => mapping.1 = fileId with
  | none => exact iff_of_false nofun nofun
  | some mapping => simp [remapEntry]

theorem idRemapLookupId_mem {remap : IdRemap} {fileId id : UInt32} (found : idRemapLookupId remap fileId = .ok id) :
    ⟨fileId,id⟩ ∈ remap.entries := by
  rw [idRemapLookupId] at found
  split at found
  · rename_i entry first
    have named : entry.oldId = fileId := by simpa using List.find?_some first
    cases found
    rw [← named]
    exact List.mem_of_find?_eq_some first
  · cases found

/-- A remap table of mappings with different file IDs finds each of them if it is complete, and only then. -/
theorem addMappings_finds {mappings : List (UInt32 × UInt32)} (apart : fileIdKeys.Apart mappings) (grows : Nat → Bool) :
    (∀ fileId id, idRemapLookupId (addMappings grows mappings).remap fileId = .ok id ↔ (fileId,id) ∈ mappings) ↔
      GrowthGranted grows mappings.length := by
  have held := (addMappings_holds grows mappings).some
  rw [← addMappings_complete]
  constructor
  · intro finds
    apply Nat.le_antisymm
    · exact Nat.le_trans held.length_le (Nat.le_of_eq (List.length_map ..))
    · have distinct : (mappings.map remapEntry).Nodup := by
        have once := apart_once apart
        refine List.Nodup.of_map IdRemapEntry.oldId ?_
        rwa [List.map_map]
      have inside : mappings.map remapEntry ⊆ (addMappings grows mappings).remap.entries := by
        intro entry member
        obtain ⟨mapping,here,rfl⟩ := List.mem_map.mp member
        exact idRemapLookupId_mem ((finds mapping.1 mapping.2).mpr here)
      have fewer := (List.subperm_of_subset distinct inside).length_le
      rwa [List.length_map] at fewer
  · intro complete fileId id
    have same := held.eq_of_length (complete.trans (List.length_map ..).symm)
    have all : (addMappings grows mappings).remap = ⟨mappings.map remapEntry⟩ := congrArg IdRemap.mk same
    rw [all,idRemapLookupId_entries,found_iff apart]

section
variable {session : MappedSession} {listed : LoadSession} (stands : StandsFor session listed)
include stands

theorem StandsFor.lookup (fileId id : UInt32) : session.lookupRuntimeId fileId = .ok id ↔
    (listed.idMappings.find? fun mapping => mapping.1 = fileId).map Prod.snd = some id := by
  have got : HashTable.get fileIdKeys session.idMappings fileId =
      .ok ((listed.idMappings.find? fun mapping => mapping.1 = fileId).map Prod.snd) :=
    HashTable.get_filed fileIdKeys_lawful stands.filed fileId
  rw [MappedSession.lookupRuntimeId,got]
  cases (listed.idMappings.find? fun mapping => mapping.1 = fileId).map Prod.snd with
  | none => exact iff_of_false nofun nofun
  | some found => simp [bind,Except.bind,pure,Except.pure]

theorem StandsFor.count : session.idMappings.count = (live session.idMappings.slots).length :=
  stands.filed.counted.trans stands.filed.listed.length_eq.symm

theorem StandsFor.getMappings : session.getMappings true =
    .ok (live session.idMappings.slots,(live session.idMappings.slots).length) := by
  rw [MappedSession.getMappings,stands.count]
  dsimp only
  split
  · rename_i empty
    rw [List.length_eq_zero_iff.mp empty]
    rfl
  · rw [if_neg (by simp),if_neg (Nat.lt_irrefl _)]
    rfl

theorem StandsFor.buildRemapTable (granted created : Bool) (grows : Nat → Bool) :
    session.buildRemapTable granted created grows =
      .ok (if listed.idMappings = [] ∨ granted = false ∨ created = false then none
        else some (addMappings grows (live session.idMappings.slots))) := by
  rw [MappedSession.buildRemapTable]
  cases granted with
  | false =>
    rw [if_pos (Or.inr (Or.inl rfl)),MappedSession.getMappings]
    by_cases empty : session.idMappings.count = 0
    · rw [if_pos empty]
      rfl
    · rw [if_neg empty,if_pos Bool.false_ne_true]
      rfl
  | true =>
    rw [stands.getMappings]
    dsimp only
    rw [if_neg (Nat.lt_irrefl _),List.take_length,stands.filed.listed.length_eq]
    by_cases nothing : listed.idMappings.length = 0 ∨ ¬ created
    · rw [if_pos nothing,if_pos]
      · rfl
      · exact nothing.imp List.length_eq_zero_iff.mp fun refused => Or.inr (Bool.eq_false_iff.mpr refused)
    · rw [if_neg nothing,if_neg]
      · rfl
      · rintro (empty | ⟨⟨⟩⟩ | refused)
        · exact nothing (Or.inl (List.length_eq_zero_iff.mpr empty))
        · exact nothing (Or.inr (Bool.eq_false_iff.mp refused))

theorem StandsFor.views {log : List (SessionOp × Status)} (same : listed.idMappings = registered log) (grows : Nat → Bool) :
    ViewsAgree session log grows ↔ GrowthGranted grows (registered log).length := by
  have filed := stands.filed
  rw [same] at filed
  have apart := filed.kept.apart
  have first (fileId id : UInt32) : (fileId,id) ∈ live session.idMappings.slots ↔ firstRegistered log fileId = some id := by
    rw [firstRegistered,found_iff (filed.distinct fileIdKeys_lawful)]
    exact filed.listed.mem_iff
  have finds := addMappings_finds apart grows
  rw [filed.listed.length_eq] at finds
  simp only [first] at finds
  constructor
  · intro agree
    by_cases empty : registered log = []
    · rw [empty]
      exact fun k few => absurd few (Nat.not_lt_zero _)
    · refine finds.mp (agree.remapped true true _ ?_)
      rw [stands.buildRemapTable,same,if_neg (by simpa using empty)]
  · intro granted
    constructor
    · intro fileId id
      rw [stands.lookup,same]
      rfl
    · intro id fileId granted present
      refine ⟨_,stands.duplicate ?_ id granted⟩
      rw [firstRegistered,Option.isSome_map,List.find?_isSome] at present
      rw [same,List.any_eq_true]
      exact present
    · exact apart_once (filed.distinct fileIdKeys_lawful)
    · exact ⟨_,stands.getMappings,filed.listed⟩
    · refine ⟨_,stands.buildRemapTable true true grows,?_⟩
      rw [same]
      split <;> simp_all
    · intro given created table built
      rw [stands.buildRemapTable] at built
      split at built
      · cases built
      · cases built
        exact finds.mpr granted

end

/-- Where its growth is granted, the table finds what that of the listed session does. -/
theorem StandsFor.remapTable {session : MappedSession} {listed : LoadSession} (stands : StandsFor session listed)
    {granted created : Bool} {grows : Nat → Bool}
    (all : GrowthGranted grows listed.idMappings.length) {table : RemapTable} {remap : IdRemap}
    (built : session.buildRemapTable granted created grows = .ok (some table))
    (listedTable : Session.buildRemapTable listed = some remap) (fileId id : UInt32) :
    idRemapLookupId table.remap fileId = .ok id ↔ idRemapLookupId remap fileId = .ok id := by
  rw [stands.buildRemapTable] at built
  split at built
  · cases built
  · rename_i given
    cases built
    rw [buildRemapTable_entries fun empty => given (Or.inl empty)] at listedTable
    cases listedTable
    rw [← stands.filed.listed.length_eq] at all
    rw [(addMappings_finds stands.filed.kept.apart grows).mpr all,idRemapLookupId_entries,
      found_iff (stands.filed.distinct fileIdKeys_lawful)]
    exact stands.filed.listed.mem_iff

/-- In a run whose tables stay within the slots that an `int` numbers, the views agree just
when each growth of the remap table is granted. -/
theorem views_agree_iff {State : Type} {repo : ObjectRepository State} {maxSavedId : UInt32} {granted : Bool}
    {start session : MappedSession} {log : List (SessionOp × Status)}
    (started : MappedSession.start repo maxSavedId granted = some start)
    (reached : Reached MappedSession.call WithinInt start log session) (grows : Nat → Bool) :
    ViewsAgree session log grows ↔ GrowthGranted grows (registered log).length := by
  obtain ⟨listed,stands,same⟩ := reached_stands (start_stands started) rfl reached
  exact stands.views same grows

def startedSession : MappedSession := ⟨256,1,⟨4,4,List.replicate 512 .empty,0⟩,true⟩

theorem started_start : MappedSession.start ({} : ObjectRepository Unit) 256 true = some startedSession := by
  decide +kernel

theorem views_agree_one : ∃ session, startedSession.register 9 7 true = .ok (session,none) ∧
    ViewsAgree session [(.register 9 7 true,none)] fun _ => false := by
  have answered : (startedSession.register 9 7 true).map Prod.snd = .ok none := by decide +kernel
  cases returned : startedSession.register 9 7 true with
  | error stop =>
    rw [returned] at answered
    cases answered
  | ok made =>
    obtain ⟨session,status⟩ := made
    rw [returned] at answered
    cases answered
    have within : WithinInt startedSession (.register 9 7 true) := fun _ _ => by decide +kernel
    refine ⟨session,rfl,(views_agree_iff started_start (Reached.start.call within returned) _).mpr ?_⟩
    intro k few
    have positive := Nat.two_pow_pos k
    exact absurd (Nat.lt_one_iff.mp few) (by omega)

/-- The file IDs 0 to 256, with the runtime IDs from 1 on. -/
def manyMappings : List (UInt32 × UInt32) := (List.range 257).map fun n => (UInt32.ofNat n,UInt32.ofNat (n + 1))

theorem manyMappings_once : (manyMappings.map Prod.fst).Nodup := by
  apply List.Nodup.of_map UInt32.toNat
  have numbers : (manyMappings.map Prod.fst).map UInt32.toNat = List.range 257 := by decide +kernel
  rw [numbers]
  exact List.nodup_range

/-- Of 257 mappings one does not go into the table, whose last growth is refused. -/
theorem mapping_left_out : ¬ ∀ session log, Reached MappedSession.call (fun _ _ => True) startedSession log session →
    ∀ grows, ViewsAgree session log grows := by
  intro agree
  have stands := start_stands started_start
  obtain ⟨last,ran,ended⟩ := stands.allTaken rfl (by decide +kernel) manyMappings_once (by decide +kernel) true
  have all : registered (manyMappings.map fun mapping => (.register mapping.2 mapping.1 true,none)) = manyMappings := by
    rw [registered,List.filterMap_map]
    exact List.filterMap_some
  have views := ended.views all.symm fun i => decide (i ≠ 256)
  rw [all] at views
  have granted := views.mp (agree _ _ (reached_callAll .start ran) _) 3 (by decide +kernel)
  cases granted

end Libnmo.Session
