import Libnmo.Core.Hashing
import Libnmo.Core.SpareSlots

/-! The hash table: slots with a key and a value, and a count of the entries. The
memory for new slots is granted or refused by the caller's allocator. -/
namespace Libnmo.Core
open Lib OpenAddressing Hashing

structure HashTable (κ ν : Type) where
  keySize : Nat
  valueSize : Nat
  slots : List (Slot (κ × ν))
  count : Nat
  deriving DecidableEq

inductive TableOp (κ ν : Type)
  | insert (key : κ) (value : ν) (granted : Bool)
  | get (key : κ)
  | contains (key : κ)
  | remove (key : κ)
  | reserve (capacity : Nat) (granted : Bool)
  | clear

inductive TableAnswer (ν : Type)
  | status (status : Status)
  | value (value : Option ν)
  | flag (found : Bool)
  | done
  deriving DecidableEq

namespace HashTable
variable {κ ν : Type} (keys : Keys κ)

def capacity (table : HashTable κ ν) : Nat := table.slots.length

def allocateStorage (table : HashTable κ ν) (capacity : Nat) (granted : Bool) : Except ErrorCode (HashTable κ ν) :=
  if capacity = 0 then .error .invalidArgument
  else if table.keySize ≠ 0 ∧ Hashing.sizeMax / table.keySize < capacity then .error .nomem
  else if table.valueSize ≠ 0 ∧ Hashing.sizeMax / table.valueSize < capacity then .error .nomem
  else if granted then .ok { table with slots := List.replicate capacity .empty, count := 0 }
  else .error .nomem

def findSlot (table : HashTable κ ν) (key : κ) : Result (Bool × Int) :=
  Hashing.findSlot keys (fun entry : κ × ν => some entry.1) table.slots key

def placeEntry (table : HashTable κ ν) (entry : κ × ν) : Result (HashTable κ ν) := do
  let (_,slot) ← findSlot keys table entry.1
  if slot < 0 then pure table
  else pure { table with slots := table.slots.set slot.toNat (.occupied entry), count := table.count + 1 }

/-- When the new slots are refused the old ones stay. -/
def rehash (granted : Bool) (table : HashTable κ ν) (newCapacity : Nat) : Result (HashTable κ ν × Status) :=
  match allocateStorage table newCapacity granted with
  | .error code => pure (table,some code)
  | .ok fresh => do
    let filled ← (live table.slots).foldlM (placeEntry keys) fresh
    pure (filled,none)

def create (keySize valueSize initialCapacity : Nat) (granted : Bool) : Option (HashTable κ ν) :=
  if keySize = 0 ∨ valueSize = 0 then none
  else
    let capacity := firstCapacity initialCapacity
    if capacity = 0 then none
    else (allocateStorage ⟨keySize,valueSize,[],0⟩ capacity granted).toOption

def insert (table : HashTable κ ν) (key : κ) (value : ν) (granted : Bool) : Result (HashTable κ ν × Status) := do
  let (table,status) ← makeRoom capacity count (rehash keys granted) table
  match status with
  | some code => pure (table,some code)
  | none =>
    let (found,slot) ← findSlot keys table key
    if slot < 0 then pure (table,some .invalidState)
    else if found then
      match table.slots[slot.toNat]? with
      | some (.occupied (existing,_)) =>
        pure ({ table with slots := table.slots.set slot.toNat (.occupied (existing,value)) },none)
      | _ => pure (table,none)
    else pure ({ table with
      slots := table.slots.set slot.toNat (.occupied (key,value)), count := table.count + 1 },none)

def get (table : HashTable κ ν) (key : κ) : Result (Option ν) := do
  let (found,slot) ← findSlot keys table key
  if slot < 0 ∨ found = false then pure none
  else pure (table.slots[slot.toNat]?.bind fun entry => entry.held.map Prod.snd)

def contains (table : HashTable κ ν) (key : κ) : Result Bool := do
  let (found,slot) ← findSlot keys table key
  pure (0 ≤ slot && found)

def remove (table : HashTable κ ν) (key : κ) : Result (HashTable κ ν × Bool) := do
  let (found,slot) ← findSlot keys table key
  if slot < 0 ∨ found = false then pure (table,false)
  else pure ({ table with slots := table.slots.set slot.toNat .tombstone, count := table.count - 1 },true)

def reserve (table : HashTable κ ν) (requested : Nat) (granted : Bool) : Result (HashTable κ ν × Status) :=
  Hashing.reserve capacity (rehash keys granted) table requested

def clear (table : HashTable κ ν) : HashTable κ ν :=
  { table with slots := List.replicate table.slots.length .empty, count := 0 }

def call (table : HashTable κ ν) : TableOp κ ν → Result (HashTable κ ν × TableAnswer ν)
  | .insert key value granted => do
    let (table,status) ← insert keys table key value granted
    pure (table,.status status)
  | .get key => do
    let value ← get keys table key
    pure (table,.value value)
  | .contains key => do
    let found ← contains keys table key
    pure (table,.flag found)
  | .remove key => do
    let (table,found) ← remove keys table key
    pure (table,.flag found)
  | .reserve requested granted => do
    let (table,status) ← reserve keys table requested granted
    pure (table,.status status)
  | .clear => pure (clear table,.done)

end HashTable
end Libnmo.Core

/-! Calls on a hash table with an empty slot end, and leave one in it. -/
namespace Libnmo.Core
open Lib OpenAddressing Hashing

namespace HashTable
variable {κ ν : Type} {keys : Keys κ}

/-- An insertion that does not grow the table finds room in it. -/
def LeavesEmpty (keys : Keys κ) (table : HashTable κ ν) : TableOp κ ν → Prop
  | .insert key _ _ => shouldGrow table.capacity table.count = true ∨
    Spares keys (fun entry : κ × ν => some entry.1) table.slots key
  | .get _ | .contains _ | .remove _ | .reserve _ _ | .clear => True

theorem allocateStorage_ok {table fresh : HashTable κ ν} {capacity : Nat} {granted : Bool}
    (allocated : allocateStorage table capacity granted = .ok fresh) :
    fresh = { table with slots := List.replicate capacity .empty, count := 0 } := by
  rw [allocateStorage] at allocated
  have given := (ok_of_check (ok_of_check (ok_of_check allocated).2).2).2
  split at given <;> cases given
  rfl

theorem create_fresh {keySize valueSize initialCapacity : Nat} {granted : Bool} {table : HashTable κ ν}
    (created : create keySize valueSize initialCapacity granted = some table) :
    ∃ n, firstCapacity initialCapacity = 2 ^ (n + 4) ∧
      table = ⟨keySize,valueSize,List.replicate (firstCapacity initialCapacity) .empty,0⟩ := by
  rw [create] at created
  split at created
  · cases created
  · dsimp only at created
    split at created
    · cases created
    · rename_i given
      obtain ⟨n,power⟩ := firstCapacity_power given
      cases allocated : allocateStorage _ _ _ with
      | error code =>
        rw [allocated] at created
        cases created
      | ok fresh =>
        rw [allocated] at created
        cases created
        exact ⟨n,power,allocateStorage_ok allocated⟩

theorem create_room {keySize valueSize initialCapacity : Nat} {granted : Bool} {table : HashTable κ ν}
    (created : create keySize valueSize initialCapacity granted = some table) : Roomy table.slots := by
  obtain ⟨n,power,rfl⟩ := create_fresh created
  exact fresh_room power

theorem placeEntry_room (table : HashTable κ ν) (entry : κ × ν) (left : Nat) (_ : True) (ring : Ringed table.slots)
    (room : left + 1 ≤ vacant table.slots) : Ensures Stop.ends (fun placed : HashTable κ ν =>
      True ∧ Ringed placed.slots ∧ left ≤ vacant placed.slots) (placeEntry keys table entry) := by
  refine Ensures.bind (ring.findSlot_ensures (Nat.lt_of_lt_of_le (Nat.succ_pos left) room) keys _ entry.1) ?_
  rintro ⟨found,slot⟩ ⟨index,-,numbered⟩
  have taken := vacant_set table.slots slot.toNat (.occupied entry)
  dsimp only at numbered ⊢
  split
  · exact ⟨trivial,ring,by omega⟩
  · exact ⟨trivial,ring.set (numbered ▸ slotNumber_lt index) _,by dsimp only; omega⟩

theorem rehash_room {table : HashTable κ ν} (room : 0 < vacant table.slots) {newCapacity n : Nat}
    (power : newCapacity = 2 ^ (n + 4)) (more : table.slots.length < newCapacity) (granted : Bool) :
    Ensures Stop.ends (fun made : HashTable κ ν × Status => (made.1 = table ∧ made.2 ≠ none) ∨
      (Roomy made.1.slots ∧ 2 ≤ vacant made.1.slots)) (rehash keys granted table newCapacity) := by
  rw [rehash]
  cases allocated : allocateStorage table newCapacity granted with
  | error code => exact Or.inl ⟨rfl,nofun⟩
  | ok fresh =>
    have bound := vacant_live table.slots
    rw [allocateStorage_ok allocated]
    refine Ensures.bind (placed_room placeEntry_room trivial (ringed_fresh power) ?_) fun filled kept => Or.inr kept.2
    rw [vacant_fresh]
    omega

section
variable {table : HashTable κ ν} (roomy : Roomy table.slots)
include roomy

theorem makeRoom_room (key : κ) (value : ν) (granted : Bool) :
    Ensures Stop.ends (fun made : HashTable κ ν × Status => Roomy made.1.slots ∧
      (LeavesEmpty keys table (.insert key value granted) →
        Spares keys (fun entry : κ × ν => some entry.1) made.1.slots key ∨ made.2 ≠ none))
      (makeRoom capacity count (rehash keys granted) table) :=
  roomy_makeRoom rfl roomy (fun _ _ power more => rehash_room roomy.room power more granted) key

theorem insert_room (key : κ) (value : ν) (granted : Bool) :
    Ensures Stop.ends (fun made : HashTable κ ν × Status =>
      LeavesEmpty keys table (.insert key value granted) → Roomy made.1.slots) (insert keys table key value granted) := by
  refine Ensures.bind (makeRoom_room roomy key value granted) ?_
  rintro ⟨made,status⟩ ⟨grown,found⟩
  cases status with
  | some code => exact fun _ => grown
  | none =>
    refine Ensures.bind (grown.ring.findSlot_ensures grown.room keys _ key) ?_
    rintro ⟨present,slot⟩ ⟨index,probed,numbered⟩
    dsimp only at probed numbered ⊢
    split
    · exact fun _ => grown
    · cases present with
      | true =>
        rw [if_pos rfl]
        split
        · rename_i existing old here
          refine fun _ => ⟨grown.ring.set (numbered ▸ slotNumber_lt index) _,?_⟩
          exact Nat.lt_of_lt_of_le grown.room (vacant_set_full (by simp [here]) _)
        · exact fun _ => grown
      | false =>
        rw [if_neg Bool.false_ne_true]
        exact fun clean => roomy_occupied grown numbered ((found clean).resolve_right (by simp)) probed _

theorem get_ends (key : κ) : Ensures Stop.ends (fun _ => True) (get keys table key) := by
  refine Ensures.bind (roomy.ring.findSlot_ensures roomy.room keys _ key) ?_
  intro answer _
  dsimp only
  split <;> trivial

theorem contains_ends (key : κ) : Ensures Stop.ends (fun _ => True) (contains keys table key) :=
  Ensures.bind (roomy.ring.findSlot_ensures roomy.room keys _ key) fun _ _ => trivial

theorem remove_room (key : κ) :
    Ensures Stop.ends (fun made : HashTable κ ν × Bool => Roomy made.1.slots) (remove keys table key) := by
  refine Ensures.bind (roomy.ring.findSlot_ensures roomy.room keys _ key) ?_
  rintro ⟨found,slot⟩ ⟨index,probed,numbered⟩
  dsimp only at probed numbered ⊢
  cases found with
  | false =>
    rw [if_pos (Or.inr rfl)]
    exact roomy
  | true =>
    split
    · exact roomy
    · exact roomy_erased roomy numbered probed

theorem reserve_room (requested : Nat) (granted : Bool) :
    Ensures Stop.ends (fun made : HashTable κ ν × Status => Roomy made.1.slots) (reserve keys table requested granted) :=
  roomy_reserve rfl roomy (fun _ _ power more => rehash_room roomy.room power more granted) requested

/-- Each call on a table with an empty slot ends, and leaves one. -/
theorem call_room (op : TableOp κ ν) : Ensures Stop.ends (fun made : HashTable κ ν × TableAnswer ν =>
    LeavesEmpty keys table op → Roomy made.1.slots) (call keys table op) := by
  cases op with
  | insert key value granted => exact Ensures.bind (insert_room roomy key value granted) fun _ made => made
  | get key => exact Ensures.bind (get_ends roomy key) fun _ _ _ => roomy
  | contains key => exact Ensures.bind (contains_ends roomy key) fun _ _ _ => roomy
  | remove key => exact Ensures.bind (remove_room roomy key) fun _ made _ => made
  | reserve requested granted => exact Ensures.bind (reserve_room roomy requested granted) fun _ made _ => made
  | clear => exact fun _ => cleared_room roomy.ring

end

end HashTable

end Libnmo.Core
