import Libnmo.Core.Hashing
import Libnmo.Core.SpareSlots

/-! The indexed map: slots that hold indices into dense arrays of keys and values.
The count is the length of the dense part. A rehash writes to the slot that the probe
reports, also when its number as an `int` is negative. -/
namespace Libnmo.Core
open Lib OpenAddressing Hashing

structure IndexedMap (κ ν : Type) where
  keySize : Nat
  valueSize : Nat
  slots : List (Slot Nat)
  arrayCapacity : Nat
  dense : List (κ × ν)
  deriving DecidableEq

/-- Memory for new slots and for new dense arrays is granted or not. -/
inductive MapOp (κ ν : Type)
  | insert (key : κ) (value : ν) (granted grantedDense : Bool)
  | get (key : κ)
  | contains (key : κ)
  | remove (key : κ)
  | clear

inductive MapAnswer (ν : Type)
  | status (status : Status)
  | value (value : Option ν)
  | flag (found : Bool)
  | done
  deriving DecidableEq

namespace IndexedMap
variable {κ ν : Type} (keys : Keys κ)

def capacity (map : IndexedMap κ ν) : Nat := map.slots.length

def count (map : IndexedMap κ ν) : Nat := map.dense.length

def allocateHash (map : IndexedMap κ ν) (capacity : Nat) (granted : Bool) : Except ErrorCode (IndexedMap κ ν) :=
  if capacity = 0 then .error .invalidArgument
  else if granted then .ok { map with slots := List.replicate capacity .empty }
  else .error .nomem

def allocateDense (map : IndexedMap κ ν) (capacity : Nat) (granted : Bool) : Except ErrorCode (IndexedMap κ ν) :=
  if capacity = 0 then .error .invalidArgument
  else if map.keySize ≠ 0 ∧ Hashing.sizeMax / map.keySize < capacity then .error .nomem
  else if map.valueSize ≠ 0 ∧ Hashing.sizeMax / map.valueSize < capacity then .error .nomem
  else if granted then .ok { map with arrayCapacity := capacity }
  else .error .nomem

def growDense (map : IndexedMap κ ν) (granted : Bool) : Except ErrorCode (IndexedMap κ ν) :=
  let newCapacity := if 0 < map.arrayCapacity then map.arrayCapacity * 2 % 2 ^ 64 else defaultInitialCapacity
  if newCapacity = 0 then .error .nomem else allocateDense map newCapacity granted

/-- The key of the dense entry that a slot points at. -/
def keyAt (dense : List (κ × ν)) (index : Nat) : Option κ := dense[index]?.map Prod.fst

def findSlot (map : IndexedMap κ ν) (key : κ) : Result (Bool × Int) :=
  Hashing.findSlot keys (keyAt map.dense) map.slots key

def slotForDense (map : IndexedMap κ ν) (denseIndex : Nat) : Option Nat :=
  map.slots.findIdx? fun slot => slot.held == some denseIndex

/-- The body of the loop of `rehash`. -/
def placeIndex (map : IndexedMap κ ν) (entry : (κ × ν) × Nat) : Result (IndexedMap κ ν) := do
  let (_,slot) ← findSlot keys map entry.1.1
  if slot < 0 then .error (.overwrite (slot % 2 ^ 64).toNat)
  else pure { map with slots := map.slots.set slot.toNat (.occupied entry.2) }

def rehash (granted : Bool) (map : IndexedMap κ ν) (newCapacity : Nat) : Result (IndexedMap κ ν × Status) :=
  match allocateHash map newCapacity granted with
  | .error code => pure (map,some code)
  | .ok fresh => do
    let filled ← map.dense.zipIdx.foldlM (placeIndex keys) fresh
    pure (filled,none)

def create (keySize valueSize initialCapacity : Nat) (granted grantedDense : Bool) : Option (IndexedMap κ ν) :=
  if keySize = 0 ∨ valueSize = 0 then none
  else
    let capacity := firstCapacity initialCapacity
    if capacity = 0 then none
    else
      match allocateHash ⟨keySize,valueSize,[],0,[]⟩ capacity granted with
      | .error _ => none
      | .ok map => (allocateDense map capacity grantedDense).toOption

/-- What an insertion does at the slot it found. -/
def insertAt (map : IndexedMap κ ν) (key : κ) (value : ν) (found : Bool) (slot : Nat) : Result (IndexedMap κ ν) :=
  if found then
    match map.slots[slot]? with
    | some (.occupied denseIndex) =>
      pure { map with dense := map.dense.modify denseIndex fun entry => (entry.1,value) }
    | _ => .error (.overread slot)
  else pure { map with
    slots := map.slots.set slot (.occupied map.dense.length), dense := map.dense ++ [(key,value)] }

def insert (map : IndexedMap κ ν) (key : κ) (value : ν) (granted grantedDense : Bool) :
    Result (IndexedMap κ ν × Status) := do
  let (map,status) ← makeRoom capacity count (rehash keys granted) map
  match status with
  | some code => pure (map,some code)
  | none =>
    match if map.arrayCapacity ≤ map.dense.length then growDense map grantedDense else .ok map with
    | .error code => pure (map,some code)
    | .ok map =>
      let (found,slot) ← findSlot keys map key
      if slot < 0 then pure (map,some .invalidState)
      else
        let map ← insertAt map key value found slot.toNat
        pure (map,none)

def get (map : IndexedMap κ ν) (key : κ) : Result (Option ν) := do
  let (found,slot) ← findSlot keys map key
  if slot < 0 ∨ found = false then pure none
  else
    match map.slots[slot.toNat]?.bind fun entry => entry.held.bind fun denseIndex => map.dense[denseIndex]? with
    | some entry => pure (some entry.2)
    | none => .error (.overread slot.toNat)

/-- The last dense entry takes the place of the one removed, and the slot that
points at the last entry now points there. -/
def removeAt (map : IndexedMap κ ν) (slot denseIndex : Nat) : Result (IndexedMap κ ν) :=
  let lastIndex := map.dense.length - 1
  match map.dense[lastIndex]? with
  | none => .error (.overread lastIndex)
  | some last =>
    let slots :=
      if denseIndex ≠ lastIndex then
        match slotForDense map lastIndex with
        | some lastSlot => if 0 ≤ slotNumber lastSlot then
            map.slots.set (slotNumber lastSlot).toNat (.occupied denseIndex) else map.slots
        | none => map.slots
      else map.slots
    pure { map with
      slots := slots.set slot .tombstone, dense := (map.dense.set denseIndex last).dropLast }

def remove (map : IndexedMap κ ν) (key : κ) : Result (IndexedMap κ ν × Bool) := do
  let (found,slot) ← findSlot keys map key
  if slot < 0 ∨ found = false then pure (map,false)
  else
    match map.slots[slot.toNat]? with
    | some (.occupied denseIndex) =>
      let map ← removeAt map slot.toNat denseIndex
      pure (map,true)
    | _ => .error (.overread slot.toNat)

def contains (map : IndexedMap κ ν) (key : κ) : Result Bool := do
  let (found,slot) ← findSlot keys map key
  pure (0 ≤ slot && found)

def clear (map : IndexedMap κ ν) : IndexedMap κ ν :=
  { map with slots := List.replicate map.slots.length .empty, dense := [] }

def call (map : IndexedMap κ ν) : MapOp κ ν → Result (IndexedMap κ ν × MapAnswer ν)
  | .insert key value granted grantedDense => do
    let (map,status) ← insert keys map key value granted grantedDense
    pure (map,.status status)
  | .get key => do
    let value ← get keys map key
    pure (map,.value value)
  | .contains key => do
    let found ← contains keys map key
    pure (map,.flag found)
  | .remove key => do
    let (map,found) ← remove keys map key
    pure (map,.flag found)
  | .clear => pure (clear map,.done)

end IndexedMap
end Libnmo.Core

/-! Calls on an indexed map with an empty slot end, and leave one in it. The dense
entries never outnumber the slots, so a rehash has room for them. -/
namespace Libnmo.Core
open Lib OpenAddressing Hashing

namespace IndexedMap
variable {κ ν : Type} {keys : Keys κ}

/-- What calls keep: a slot is empty, and there are no more dense entries than slots. -/
structure Roomier (map : IndexedMap κ ν) : Prop where
  roomy : Roomy map.slots
  dense : map.dense.length ≤ map.slots.length

/-- An insertion that does not grow the map finds room in it. -/
def LeavesEmpty (keys : Keys κ) (map : IndexedMap κ ν) : MapOp κ ν → Prop
  | .insert key _ _ _ => shouldGrow map.capacity map.count = true ∨ Spares keys (keyAt map.dense) map.slots key
  | .get _ | .contains _ | .remove _ | .clear => True

theorem allocateHash_ok {map fresh : IndexedMap κ ν} {capacity : Nat} {granted : Bool}
    (allocated : allocateHash map capacity granted = .ok fresh) :
    fresh = { map with slots := List.replicate capacity .empty } ∧ granted = true := by
  rw [allocateHash] at allocated
  have given := (ok_of_check allocated).2
  split at given
  · rename_i memory
    cases given
    exact ⟨rfl,memory⟩
  · cases given

theorem allocateDense_ok {map wide : IndexedMap κ ν} {capacity : Nat} {granted : Bool}
    (allocated : allocateDense map capacity granted = .ok wide) :
    ∃ arrayCapacity, wide = { map with arrayCapacity := arrayCapacity } := by
  rw [allocateDense] at allocated
  have given := (ok_of_check (ok_of_check (ok_of_check allocated).2).2).2
  split at given <;> cases given
  exact ⟨_,rfl⟩

theorem growDense_ok {map grown : IndexedMap κ ν} {granted : Bool} (grew : growDense map granted = .ok grown) :
    grown.slots = map.slots ∧ grown.dense = map.dense := by
  obtain ⟨arrayCapacity,rfl⟩ := allocateDense_ok (ok_of_check grew).2
  exact ⟨rfl,rfl⟩

theorem create_fresh {keySize valueSize initialCapacity : Nat} {granted grantedDense : Bool} {map : IndexedMap κ ν}
    (created : create keySize valueSize initialCapacity granted grantedDense = some map) :
    ∃ n, firstCapacity initialCapacity = 2 ^ (n + 4) ∧ ∃ arrayCapacity,
      map = ⟨keySize,valueSize,List.replicate (firstCapacity initialCapacity) .empty,arrayCapacity,[]⟩ := by
  rw [create] at created
  split at created
  · cases created
  · dsimp only at created
    split at created
    · cases created
    · rename_i given
      obtain ⟨n,power⟩ := firstCapacity_power given
      split at created
      · cases created
      · rename_i hashed allocated
        cases wide : allocateDense hashed (firstCapacity initialCapacity) grantedDense with
        | error code =>
          rw [wide] at created
          cases created
        | ok whole =>
          rw [wide] at created
          cases created
          obtain ⟨arrayCapacity,rfl⟩ := allocateDense_ok wide
          rw [(allocateHash_ok allocated).1]
          exact ⟨n,power,arrayCapacity,rfl⟩

theorem create_room {keySize valueSize initialCapacity : Nat} {granted grantedDense : Bool} {map : IndexedMap κ ν}
    (created : create keySize valueSize initialCapacity granted grantedDense = some map) : Roomier map := by
  obtain ⟨n,power,arrayCapacity,rfl⟩ := create_fresh created
  exact ⟨fresh_room power,Nat.zero_le _⟩

theorem placeIndex_room {entries capacity : Nat} (map : IndexedMap κ ν) (entry : (κ × ν) × Nat) (left : Nat)
    (same : map.dense.length = entries ∧ map.slots.length = capacity) (ring : Ringed map.slots)
    (room : left + 1 ≤ vacant map.slots) : Ensures Stop.ends (fun placed : IndexedMap κ ν =>
      (placed.dense.length = entries ∧ placed.slots.length = capacity) ∧
      Ringed placed.slots ∧ left ≤ vacant placed.slots) (placeIndex keys map entry) := by
  refine Ensures.bind (ring.findSlot_ensures (Nat.lt_of_lt_of_le (Nat.succ_pos left) room) keys _ entry.1.1) ?_
  rintro ⟨found,slot⟩ ⟨index,-,numbered⟩
  have taken := vacant_set map.slots slot.toNat (.occupied entry.2)
  dsimp only at numbered ⊢
  split
  · exact nofun
  · refine ⟨⟨same.1,?_⟩,ring.set (numbered ▸ slotNumber_lt index) _,by dsimp only; omega⟩
    rw [List.length_set]
    exact same.2

theorem rehash_room {map : IndexedMap κ ν} {newCapacity n : Nat} (power : newCapacity = 2 ^ (n + 4))
    (more : map.dense.length + 2 ≤ newCapacity) (granted : Bool) :
    Ensures Stop.ends (fun made : IndexedMap κ ν × Status => (made.1 = map ∧ made.2 ≠ none) ∨
      (made.1.dense.length < made.1.slots.length ∧ Roomy made.1.slots ∧ 2 ≤ vacant made.1.slots))
      (rehash keys granted map newCapacity) := by
  rw [rehash]
  cases allocated : allocateHash map newCapacity granted with
  | error code => exact Or.inl ⟨rfl,nofun⟩
  | ok fresh =>
    rw [(allocateHash_ok allocated).1]
    refine Ensures.bind (placed_room placeIndex_room ⟨rfl,List.length_replicate⟩ (ringed_fresh power) ?_) ?_
    · rw [vacant_fresh,List.length_zipIdx]
      exact more
    · intro filled ⟨⟨entries,capacity⟩,roomy,two⟩
      dsimp only at entries
      exact Or.inr ⟨by dsimp only; omega,roomy,two⟩

section
variable {map : IndexedMap κ ν} (roomier : Roomier map)
include roomier

theorem makeRoom_room (key : κ) (value : ν) (granted grantedDense : Bool) :
    Ensures Stop.ends (fun made : IndexedMap κ ν × Status => Roomier made.1 ∧
      (made.2 = none → made.1.dense.length < made.1.slots.length) ∧
      (LeavesEmpty keys map (.insert key value granted grantedDense) →
        Spares keys (keyAt made.1.dense) made.1.slots key ∨ made.2 ≠ none))
      (makeRoom capacity count (rehash keys granted) map) := by
  have few := roomier.dense
  have sized := roomier.roomy.ring.pos
  apply makeRoom_ensures
  · exact sized
  · intro enough
    refine ⟨roomier,fun _ => shouldGrow_full enough,fun clean => Or.inl (clean.resolve_left ?_)⟩
    rw [enough]
    exact Bool.false_ne_true
  · exact ⟨roomier,nofun,fun _ => Or.inr nofun⟩
  · intro newCapacity full more given
    rw [given] at more
    obtain ⟨twice,m,power⟩ := roomier.roomy.ring.grown more given
    refine (rehash_room power ?_ granted).mono ?_
    · obtain ⟨n,size⟩ := roomier.roomy.ring.size
      have one := Nat.two_pow_pos n
      rw [Nat.pow_add] at size
      omega
    · rintro ⟨made,status⟩ (⟨rfl,refused⟩ | ⟨fewer,kept,two⟩)
      · exact ⟨roomier,fun none => absurd none refused,fun _ => Or.inr refused⟩
      · exact ⟨⟨kept,Nat.le_of_lt fewer⟩,fun _ => fewer,fun _ => Or.inl (Or.inl two)⟩

theorem insertAt_room {key : κ} (value : ν) {found : Bool} {index : Nat}
    (fewer : map.dense.length < map.slots.length)
    (probed : find map.slots (hasKey keys (keyAt map.dense) key) (keys.hash key) = some (found,index)) :
    Ensures Stop.ends (fun made => Spares keys (keyAt map.dense) map.slots key → Roomier made)
      (insertAt map key value found (slotNumber index).toNat) := by
  rw [insertAt]
  cases found with
  | true =>
    rw [if_pos rfl]
    split
    · exact fun _ => ⟨roomier.roomy,by simpa using roomier.dense⟩
    · exact nofun
  | false =>
    rw [if_neg Bool.false_ne_true]
    refine fun spares => ⟨⟨roomier.roomy.ring.set (slotNumber_lt index) _,?_⟩,?_⟩
    · exact occupied_room roomier.roomy.ring spares roomier.roomy.room probed _
    · rw [List.length_append,List.length_set]
      exact fewer

theorem insert_room (key : κ) (value : ν) (granted grantedDense : Bool) :
    Ensures Stop.ends (fun made : IndexedMap κ ν × Status =>
      LeavesEmpty keys map (.insert key value granted grantedDense) → Roomier made.1)
      (insert keys map key value granted grantedDense) := by
  refine Ensures.bind (makeRoom_room roomier key value granted grantedDense) ?_
  rintro ⟨made,status⟩ ⟨grown,fewer,spares⟩
  cases status with
  | some code => exact fun _ => grown
  | none =>
    cases grew : (if made.arrayCapacity ≤ made.dense.length then growDense made grantedDense else .ok made) with
    | error code =>
      simp only [grew]
      exact fun _ => grown
    | ok wide =>
      have same : wide.slots = made.slots ∧ wide.dense = made.dense := by
        split at grew
        · exact growDense_ok grew
        · cases grew
          exact ⟨rfl,rfl⟩
      have kept : Roomier wide := by
        refine ⟨?_,?_⟩
        · rw [same.1]
          exact grown.roomy
        · rw [same.1,same.2]
          exact grown.dense
      simp only [grew]
      refine Ensures.bind (kept.roomy.ring.findSlot_ensures kept.roomy.room keys _ key) ?_
      rintro ⟨present,slot⟩ ⟨index,probed,numbered⟩
      dsimp only at probed numbered ⊢
      split
      · exact fun _ => kept
      · rw [numbered]
        refine Ensures.bind (insertAt_room kept value (by rw [same.1,same.2]; exact fewer rfl) probed) ?_
        intro inserted made' clean
        apply made'
        rw [same.1,same.2]
        exact (spares clean).resolve_right (by simp)

theorem get_ends (key : κ) : Ensures Stop.ends (fun _ => True) (get keys map key) := by
  refine Ensures.bind (roomier.roomy.ring.findSlot_ensures roomier.roomy.room keys _ key) ?_
  intro answer _
  dsimp only
  split
  · trivial
  · split
    · trivial
    · exact nofun

theorem contains_ends (key : κ) : Ensures Stop.ends (fun _ => True) (contains keys map key) :=
  Ensures.bind (roomier.roomy.ring.findSlot_ensures roomier.roomy.room keys _ key) fun _ _ => trivial

/-- The slots after a removal, with the slot of the last entry pointing elsewhere or not. -/
theorem removeAt_room {slot : Int} (numbered : slot < 2 ^ 31) {denseIndex : Nat}
    (here : map.slots[slot.toNat]? = some (.occupied denseIndex)) :
    Ensures Stop.ends Roomier (removeAt map slot.toNat denseIndex) := by
  have erased {slots : List (Slot Nat)} (roomy : Roomy slots) (size : slots.length = map.slots.length)
      (full : slots[slot.toNat]? ≠ some .empty) (last : κ × ν) : Roomier { map with
        slots := slots.set slot.toNat .tombstone, dense := (map.dense.set denseIndex last).dropLast } := by
    refine ⟨⟨roomy.ring.set numbered _,Nat.lt_of_lt_of_le roomy.room (vacant_set_full full _)⟩,?_⟩
    have few := roomier.dense
    simp only [List.length_dropLast,List.length_set,size]
    omega
  rw [removeAt]
  dsimp only
  split
  · exact nofun
  · rename_i last _
    have plain := erased roomier.roomy rfl (by simp [here]) last
    split
    · split
      · rename_i lastSlot found
        split
        · obtain ⟨inside,isLast,-⟩ := List.findIdx?_eq_some_iff_getElem.mp found
          have there : map.slots[lastSlot]? = some (.occupied (map.dense.length - 1)) := by
            have entry := Slot.held_iff.mp (eq_of_beq isLast)
            rw [List.getElem?_eq_getElem inside,entry]
          refine erased ⟨roomier.roomy.ring.set (slotNumber_lt lastSlot) _,?_⟩ (List.length_set ..) ?_ last
          · rw [roomier.roomy.ring.number there nofun]
            exact Nat.lt_of_lt_of_le roomier.roomy.room (vacant_set_full (by simp [there]) _)
          · intro empty
            have full : Slot.occupied denseIndex ≠ .empty := nofun
            have was := empty_set full empty
            rw [here] at was
            cases was
        · exact plain
      · exact plain
    · exact plain

theorem remove_room (key : κ) :
    Ensures Stop.ends (fun made : IndexedMap κ ν × Bool => Roomier made.1) (remove keys map key) := by
  refine Ensures.bind (roomier.roomy.ring.findSlot_ensures roomier.roomy.room keys _ key) ?_
  rintro ⟨found,slot⟩ ⟨index,-,numbered⟩
  dsimp only at numbered ⊢
  split
  · exact roomier
  · split
    · rename_i denseIndex here
      exact Ensures.bind (removeAt_room roomier (numbered ▸ slotNumber_lt index) here) fun _ made => made
    · exact nofun

theorem clear_room : Roomier (clear map) :=
  ⟨cleared_room roomier.roomy.ring,Nat.zero_le _⟩

/-- Each call on a map with an empty slot ends, and leaves one. -/
theorem call_room (op : MapOp κ ν) : Ensures Stop.ends (fun made : IndexedMap κ ν × MapAnswer ν =>
    LeavesEmpty keys map op → Roomier made.1) (call keys map op) := by
  cases op with
  | insert key value granted grantedDense =>
    exact Ensures.bind (insert_room roomier key value granted grantedDense) fun _ made => made
  | get key => exact Ensures.bind (get_ends roomier key) fun _ _ _ => roomier
  | contains key => exact Ensures.bind (contains_ends roomier key) fun _ _ _ => roomier
  | remove key => exact Ensures.bind (remove_room roomier key) fun _ made _ => made
  | clear => exact fun _ => clear_room roomier

end

end IndexedMap
end Libnmo.Core
