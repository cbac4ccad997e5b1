import Libnmo.Core.FiledEntries
import Libnmo.Lib.Machine
import Libnmo.Session.ObjectRepository

/-! The load session as the code keeps it, with the file IDs in a hash table. It stands
for the session with a list of mappings: a registration that the table takes is one of
the list, and one that it refuses leaves the mappings as they were. -/
namespace Libnmo.Session
open Core Format Lib OpenAddressing Hashing
open scoped List

/-- `nmo_hash_int32`. -/
def hashInt32 (value : UInt32) : UInt32 :=
  let value := value ^^^ (value >>> 16)
  let value := value * 0x85ebca6b
  let value := value ^^^ (value >>> 13)
  let value := value * 0xc2b2ae35
  value ^^^ (value >>> 16)

/-- `nmo_hash_uint32`, with the comparison of the bytes of a key. -/
def fileIdKeys : Keys UInt32 := ⟨fun id => (hashInt32 id).toNat,(· == ·)⟩

theorem fileIdKeys_lawful : fileIdKeys.Lawful := Keys.lawful_beq _

structure MappedSession where
  savedIdMax : UInt32
  idBase : UInt32
  idMappings : HashTable UInt32 UInt32
  active : Bool := true
  deriving DecidableEq

inductive SessionOp
  | register (id fileId : UInt32) (granted : Bool)
  | finish

namespace MappedSession

/-- The product with 2 is one of 32-bit words. -/
def start {State : Type} (repo : ObjectRepository State) (maxSavedId : UInt32) (granted : Bool) : Option MappedSession :=
  let initialCapacity := if maxSavedId > 64 then (maxSavedId * 2).toNat else 64
  (HashTable.create 4 4 initialCapacity granted).map fun table =>
    { savedIdMax := maxSavedId
      idBase := if repo.objects.length > 0 then (repo.objects.map Object.id).foldl max 0 + 1 else 1
      idMappings := table }

def register (session : MappedSession) (id fileId : UInt32) (granted : Bool) : Result (MappedSession × Status) :=
  if ¬ session.active then pure (session,some .invalidArgument)
  else do
    let present ← HashTable.contains fileIdKeys session.idMappings fileId
    if present then pure (session,some .invalidState)
    else
      let (table,status) ← HashTable.insert fileIdKeys session.idMappings fileId id granted
      pure ({ session with idMappings := table },status)

/-- `nmo_load_session_end`. -/
def finish (session : MappedSession) : MappedSession := { session with active := false }

def call (session : MappedSession) : SessionOp → Result (MappedSession × Status)
  | .register id fileId granted => register session id fileId granted
  | .finish => pure (finish session,none)

def lookupRuntimeId (session : MappedSession) (fileId : UInt32) : Result UInt32 := do
  let found ← HashTable.get fileIdKeys session.idMappings fileId
  match found with
  | some id => pure id
  | none => .error (.error .invalidArgument "")

/-- The pairs of the two arrays, with the count that sizes both. -/
def getMappings (session : MappedSession) (granted : Bool) : Result (List (UInt32 × UInt32) × Nat) :=
  let count := session.idMappings.count
  if count = 0 then pure ([],0)
  else if ¬ granted then .error (.error .nomem "")
  else
    let collected := live session.idMappings.slots
    if count < collected.length then .error (.overwrite count) else pure (collected,count)

end MappedSession

/-- What a registration grows stays within the slots that an `int` numbers. -/
def WithinInt (session : MappedSession) : SessionOp → Prop
  | .register id fileId granted => session.active = true →
    HashTable.contains fileIdKeys session.idMappings fileId = .ok false →
    session.idMappings.allocates (.insert fileId id granted) ≤ 2 ^ 31
  | .finish => True

structure StandsFor (session : MappedSession) (listed : LoadSession) : Prop where
  savedIdMax : session.savedIdMax = listed.savedIdMax
  idBase : session.idBase = listed.idBase
  active : session.active = listed.active
  filed : session.idMappings.Filed fileIdKeys listed.idMappings

theorem start_stands {State : Type} {repo : ObjectRepository State} {maxSavedId : UInt32} {granted : Bool}
    {session : MappedSession} (started : MappedSession.start repo maxSavedId granted = some session) :
    StandsFor session (loadSessionStart repo maxSavedId) := by
  obtain ⟨table,created,rfl⟩ := Option.map_eq_some_iff.mp started
  refine ⟨rfl,rfl,rfl,HashTable.create_filed created ?_⟩
  split
  · exact Nat.le_of_lt (UInt32.toNat_lt _)
  · decide

section
variable {session : MappedSession} {listed : LoadSession} (stands : StandsFor session listed)
include stands

theorem StandsFor.contains (fileId : UInt32) : HashTable.contains fileIdKeys session.idMappings fileId =
    .ok (listed.idMappings.any fun mapping => mapping.1 = fileId) :=
  HashTable.contains_filed fileIdKeys_lawful stands.filed fileId

theorem StandsFor.finish : StandsFor session.finish { listed with active := false } :=
  ⟨stands.savedIdMax,stands.idBase,rfl,stands.filed⟩

/-- A file ID that has a mapping is rejected, and nothing changes. -/
theorem StandsFor.duplicate {fileId : UInt32} (present : (listed.idMappings.any fun mapping => mapping.1 = fileId) = true)
    (id : UInt32) (granted : Bool) :
    session.register id fileId granted = .ok (session,some (if session.active then .invalidState else .invalidArgument)) := by
  rw [MappedSession.register]
  cases active : session.active with
  | false => rfl
  | true =>
    rw [stands.contains,present]
    rfl

omit stands in
theorem register_inserts {fileId : UInt32} (active : session.active = true)
    (absent : HashTable.contains fileIdKeys session.idMappings fileId = .ok false) (id : UInt32) (granted : Bool) :
    session.register id fileId granted = (do
      let (table,status) ← HashTable.insert fileIdKeys session.idMappings fileId id granted
      pure ({ session with idMappings := table },status)) := by
  rw [MappedSession.register,if_neg (by simp [active]),absent]
  rfl

omit stands in
theorem fresh_same {mappings : List (UInt32 × UInt32)} {fileId : UInt32}
    (absent : (mappings.any fun mapping => mapping.1 = fileId) = false) :
    ∀ mapping ∈ mappings, fileIdKeys.same mapping.1 fileId = false := by
  intro mapping member
  rw [Bool.eq_false_iff]
  exact List.any_eq_false.mp absent mapping member

/-- A registration either is one of the listed session or adds no mapping. -/
theorem StandsFor.register {id fileId : UInt32} {granted : Bool} (within : WithinInt session (.register id fileId granted)) :
    Ensures (fun _ => False) (fun made : MappedSession × Status => match made.2 with
      | none => (loadSessionRegister id fileId).run listed =
          (.ok (),{ listed with idMappings := listed.idMappings ++ [(fileId,id)] }) ∧
        StandsFor made.1 { listed with idMappings := listed.idMappings ++ [(fileId,id)] }
      | some _ => StandsFor made.1 listed) (session.register id fileId granted) := by
  cases present : listed.idMappings.any fun mapping => mapping.1 = fileId with
  | true =>
    rw [stands.duplicate present]
    exact stands
  | false =>
    cases active : session.active with
    | false =>
      rw [MappedSession.register,active]
      exact stands
    | true =>
      have absent := stands.contains fileId
      rw [present] at absent
      have listedActive := stands.active.symm.trans active
      rw [register_inserts active absent]
      refine Ensures.bind (HashTable.insert_filed fileIdKeys_lawful stands.filed (within active absent)
        (fresh_same present)) ?_
      rintro ⟨table,status⟩ filed
      cases status with
      | some code => exact ⟨stands.savedIdMax,stands.idBase,stands.active,filed⟩
      | none =>
        refine ⟨?_,stands.savedIdMax,stands.idBase,stands.active,filed⟩
        simp only [loadSessionRegister]
        rw [listedActive,present]
        rfl

/-- A new file ID is taken by a table with slots enough. -/
theorem StandsFor.taken {fileId : UInt32} (active : session.active = true)
    (enough : shouldGrow session.idMappings.capacity session.idMappings.count = false)
    (small : session.idMappings.capacity ≤ 2 ^ 31)
    (absent : (listed.idMappings.any fun mapping => mapping.1 = fileId) = false) (id : UInt32) (granted : Bool) :
    ∃ next, session.register id fileId granted = .ok (next,none) ∧ next.active = true ∧
      next.idMappings.capacity = session.idMappings.capacity ∧
      StandsFor next { listed with idMappings := listed.idMappings ++ [(fileId,id)] } := by
  have contained := stands.contains fileId
  rw [absent] at contained
  obtain ⟨⟨table,status⟩,inserted,rfl,sized,filed⟩ :=
    (HashTable.insert_taken fileIdKeys_lawful stands.filed id granted enough small (fresh_same absent)).total
  refine ⟨{ session with idMappings := table },?_,active,sized,stands.savedIdMax,stands.idBase,stands.active,filed⟩
  rw [register_inserts active contained,inserted]
  rfl

/-- Registrations of new file IDs, in a table with slots enough for all of them. -/
theorem StandsFor.allTaken (active : session.active = true) (small : session.idMappings.capacity ≤ 2 ^ 31)
    {mappings : List (UInt32 × UInt32)} (once : ((listed.idMappings ++ mappings).map Prod.fst).Nodup)
    (enough : ∀ count < listed.idMappings.length + mappings.length, shouldGrow session.idMappings.capacity count = false)
    (granted : Bool) : ∃ last,
      callAll MappedSession.call session (mappings.map fun mapping => .register mapping.2 mapping.1 granted) =
        .ok (last,mappings.map fun mapping => (.register mapping.2 mapping.1 granted,none)) ∧
      StandsFor last { listed with idMappings := listed.idMappings ++ mappings } := by
  induction mappings generalizing session listed with
  | nil => exact ⟨session,rfl,by rwa [List.append_nil]⟩
  | cons mapping rest ih =>
    have absent : (listed.idMappings.any fun other => other.1 = mapping.1) = false := by
      rw [List.any_eq_false]
      intro other member
      rw [List.map_append,List.nodup_append] at once
      exact fun equal => once.2.2 other.1 (List.mem_map_of_mem member) mapping.1 List.mem_cons_self (of_decide_eq_true equal)
    have room := enough session.idMappings.count (by rw [stands.filed.counted,List.length_cons]; omega)
    obtain ⟨next,returned,still,sized,stood⟩ := stands.taken active room small absent mapping.2 granted
    rw [List.append_cons] at once
    have later : ∀ count < (listed.idMappings ++ [mapping]).length + rest.length,
        shouldGrow next.idMappings.capacity count = false := by
      intro count few
      rw [List.length_append,List.length_singleton] at few
      rw [sized]
      apply enough
      rw [List.length_cons]
      omega
    obtain ⟨last,ran,ended⟩ := ih stood still (sized ▸ small) once later
    refine ⟨last,?_,?_⟩
    · rw [List.map_cons,callAll,MappedSession.call,returned]
      simp only [bind,Except.bind]
      rw [ran]
      rfl
    · rwa [List.append_cons]

end
end Libnmo.Session
