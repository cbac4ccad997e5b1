import Libnmo.Core.Hashing
import Libnmo.Core.SpareSlots

/-! The hash set, a copy of the hash table without values. A key that is already
there is an error, also after the set grew for it. -/
namespace Libnmo.Core
open Lib OpenAddressing Hashing

structure HashSet (κ : Type) where
  keySize : Nat
  slots : List (Slot κ)
  count : Nat
  deriving DecidableEq

inductive SetOp (κ : Type)
  | insert (key : κ) (granted : Bool)
  | contains (key : κ)
  | remove (key : κ)
  | reserve (capacity : Nat) (granted : Bool)
  | clear

inductive SetAnswer
  | status (status : Status)
  | flag (found : Bool)
  | done
  deriving DecidableEq

namespace HashSet
variable {κ : Type} (keys : Keys κ)

def capacity (set : HashSet κ) : Nat := set.slots.length

def allocateStorage (set : HashSet κ) (capacity : Nat) (granted : Bool) : Except ErrorCode (HashSet κ) :=
  if capacity = 0 then .error .invalidArgument
  else if set.keySize ≠ 0 ∧ Hashing.sizeMax / set.keySize < capacity then .error .nomem
  else if granted then .ok { set with slots := List.replicate capacity .empty, count := 0 }
  else .error .nomem

def findSlot (set : HashSet κ) (key : κ) : Result (Bool × Int) := Hashing.findSlot keys Option.some set.slots key

/-- The body of the loop of `rehash`. -/
def placeKey (set : HashSet κ) (key : κ) : Result (HashSet κ) := do
  let (_,slot) ← findSlot keys set key
  if slot < 0 then pure set
  else pure { set with slots := set.slots.set slot.toNat (.occupied key), count := set.count + 1 }

def rehash (granted : Bool) (set : HashSet κ) (newCapacity : Nat) : Result (HashSet κ × Status) :=
  match allocateStorage set newCapacity granted with
  | .error code => pure (set,some code)
  | .ok fresh => do
    let filled ← (live set.slots).foldlM (placeKey keys) fresh
    pure (filled,none)

def create (keySize initialCapacity : Nat) (granted : Bool) : Option (HashSet κ) :=
  if keySize = 0 then none
  else
    let capacity := firstCapacity initialCapacity
    if capacity = 0 then none
    else (allocateStorage ⟨keySize,[],0⟩ capacity granted).toOption

def insert (set : HashSet κ) (key : κ) (granted : Bool) : Result (HashSet κ × Status) := do
  let (set,status) ← makeRoom capacity count (rehash keys granted) set
  match status with
  | some code => pure (set,some code)
  | none =>
    let (found,slot) ← findSlot keys set key
    if slot < 0 then pure (set,some .invalidState)
    else if found then pure (set,some .alreadyExists)
    else pure ({ set with slots := set.slots.set slot.toNat (.occupied key), count := set.count + 1 },none)

def remove (set : HashSet κ) (key : κ) : Result (HashSet κ × Bool) := do
  let (found,slot) ← findSlot keys set key
  if slot < 0 ∨ found = false then pure (set,false)
  else pure ({ set with slots := set.slots.set slot.toNat .tombstone, count := set.count - 1 },true)

def contains (set : HashSet κ) (key : κ) : Result Bool := do
  let (found,slot) ← findSlot keys set key
  pure (0 ≤ slot && found)

def reserve (set : HashSet κ) (requested : Nat) (granted : Bool) : Result (HashSet κ × Status) :=
  Hashing.reserve capacity (rehash keys granted) set requested

def clear (set : HashSet κ) : HashSet κ :=
  { set with slots := List.replicate set.slots.length .empty, count := 0 }

def call (set : HashSet κ) : SetOp κ → Result (HashSet κ × SetAnswer)
  | .insert key granted => do
    let (set,status) ← insert keys set key granted
    pure (set,.status status)
  | .contains key => do
    let found ← contains keys set key
    pure (set,.flag found)
  | .remove key => do
    let (set,found) ← remove keys set key
    pure (set,.flag found)
  | .reserve requested granted => do
    let (set,status) ← reserve keys set requested granted
    pure (set,.status status)
  | .clear => pure (clear set,.done)

end HashSet
end Libnmo.Core

/-! Calls on a hash set with an empty slot end, and leave one in it. -/
namespace Libnmo.Core
open Lib OpenAddressing Hashing

namespace HashSet
variable {κ : Type} {keys : Keys κ}

/-- An insertion that does not grow the set finds room in it. -/
def LeavesEmpty (keys : Keys κ) (set : HashSet κ) : SetOp κ → Prop
  | .insert key _ => shouldGrow set.capacity set.count = true ∨
    Spares keys (Option.some) set.slots key
  | .contains _ | .remove _ | .reserve _ _ | .clear => True

theorem allocateStorage_ok {set fresh : HashSet κ} {capacity : Nat} {granted : Bool}
    (allocated : allocateStorage set capacity granted = .ok fresh) :
    fresh = { set with slots := List.replicate capacity .empty, count := 0 } := by
  rw [allocateStorage] at allocated
  have granted := (ok_of_check (ok_of_check allocated).2).2
  split at granted <;> cases granted
  rfl

theorem create_room {keySize initialCapacity : Nat} {granted : Bool} {set : HashSet κ}
    (created : create keySize initialCapacity granted = some set) : Roomy set.slots := by
  rw [create] at created
  split at created
  · cases created
  · dsimp only at created
    split at created
    · cases created
    · rename_i given
      obtain ⟨n,power⟩ := firstCapacity_power given
      cases allocated : allocateStorage _ _ _ with
      | error code =>
        rw [allocated] at created
        cases created
      | ok fresh =>
        rw [allocated] at created
        cases created
        rw [allocateStorage_ok allocated]
        exact fresh_room power

theorem placeKey_room (set : HashSet κ) (entry : κ) (left : Nat) (_ : True) (ring : Ringed set.slots)
    (room : left + 1 ≤ vacant set.slots) : Ensures Stop.ends (fun placed : HashSet κ =>
      True ∧ Ringed placed.slots ∧ left ≤ vacant placed.slots) (placeKey keys set entry) := by
  refine Ensures.bind (ring.findSlot_ensures (Nat.lt_of_lt_of_le (Nat.succ_pos left) room) keys _ entry) ?_
  rintro ⟨found,slot⟩ ⟨index,-,numbered⟩
  have taken := vacant_set set.slots slot.toNat (.occupied entry)
  dsimp only at numbered ⊢
  split
  · exact ⟨trivial,ring,by omega⟩
  · exact ⟨trivial,ring.set (numbered ▸ slotNumber_lt index) _,by dsimp only; omega⟩

theorem rehash_room {set : HashSet κ} (room : 0 < vacant set.slots) {newCapacity n : Nat}
    (power : newCapacity = 2 ^ (n + 4)) (more : set.slots.length < newCapacity) (granted : Bool) :
    Ensures Stop.ends (fun made : HashSet κ × Status => (made.1 = set ∧ made.2 ≠ none) ∨
      (Roomy made.1.slots ∧ 2 ≤ vacant made.1.slots)) (rehash keys granted set newCapacity) := by
  rw [rehash]
  cases allocated : allocateStorage set newCapacity granted with
  | error code => exact Or.inl ⟨rfl,nofun⟩
  | ok fresh =>
    have bound := vacant_live set.slots
    rw [allocateStorage_ok allocated]
    refine Ensures.bind (placed_room placeKey_room trivial (ringed_fresh power) ?_) fun filled kept => Or.inr kept.2
    rw [vacant_fresh]
    omega

section
variable {set : HashSet κ} (roomy : Roomy set.slots)
include roomy

theorem makeRoom_room (key : κ) (granted : Bool) :
    Ensures Stop.ends (fun made : HashSet κ × Status => Roomy made.1.slots ∧
      (LeavesEmpty keys set (.insert key granted) →
        Spares keys (Option.some) made.1.slots key ∨ made.2 ≠ none))
      (makeRoom capacity count (rehash keys granted) set) :=
  roomy_makeRoom rfl roomy (fun _ _ power more => rehash_room roomy.room power more granted) key

theorem insert_room (key : κ) (granted : Bool) :
    Ensures Stop.ends (fun made : HashSet κ × Status =>
      LeavesEmpty keys set (.insert key granted) → Roomy made.1.slots) (insert keys set key granted) := by
  refine Ensures.bind (makeRoom_room roomy key granted) ?_
  rintro ⟨made,status⟩ ⟨grown,found⟩
  cases status with
  | some code => exact fun _ => grown
  | none =>
    refine Ensures.bind (grown.ring.findSlot_ensures grown.room keys _ key) ?_
    rintro ⟨present,slot⟩ ⟨index,probed,numbered⟩
    dsimp only at probed numbered ⊢
    split
    · exact fun _ => grown
    · cases present with
      | true =>
        rw [if_pos rfl]
        exact fun _ => grown
      | false =>
        rw [if_neg Bool.false_ne_true]
        exact fun clean => roomy_occupied grown numbered ((found clean).resolve_right (by simp)) probed _

theorem contains_ends (key : κ) : Ensures Stop.ends (fun _ => True) (contains keys set key) :=
  Ensures.bind (roomy.ring.findSlot_ensures roomy.room keys _ key) fun _ _ => trivial

theorem remove_room (key : κ) :
    Ensures Stop.ends (fun made : HashSet κ × Bool => Roomy made.1.slots) (remove keys set key) := by
  refine Ensures.bind (roomy.ring.findSlot_ensures roomy.room keys _ key) ?_
  rintro ⟨found,slot⟩ ⟨index,probed,numbered⟩
  dsimp only at probed numbered ⊢
  cases found with
  | false =>
    rw [if_pos (Or.inr rfl)]
    exact roomy
  | true =>
    split
    · exact roomy
    · exact roomy_erased roomy numbered probed

theorem reserve_room (requested : Nat) (granted : Bool) :
    Ensures Stop.ends (fun made : HashSet κ × Status => Roomy made.1.slots) (reserve keys set requested granted) :=
  roomy_reserve rfl roomy (fun _ _ power more => rehash_room roomy.room power more granted) requested

/-- Each call on a set with an empty slot ends, and leaves one. -/
theorem call_room (op : SetOp κ) : Ensures Stop.ends (fun made : HashSet κ × SetAnswer =>
    LeavesEmpty keys set op → Roomy made.1.slots) (call keys set op) := by
  cases op with
  | insert key granted => exact Ensures.bind (insert_room roomy key granted) fun _ made => made
  | contains key => exact Ensures.bind (contains_ends roomy key) fun _ _ _ => roomy
  | remove key => exact Ensures.bind (remove_room roomy key) fun _ made _ => made
  | reserve requested granted => exact Ensures.bind (reserve_room roomy requested granted) fun _ made _ => made
  | clear => exact fun _ => cleared_room roomy.ring

end

end HashSet

end Libnmo.Core
