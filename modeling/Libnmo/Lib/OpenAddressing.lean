import Mathlib.Data.List.Basic
import Mathlib.Data.Nat.Bitwise

/-! Open addressing with linear probing and tombstones, in a ring of slots whose
size is a power of two. A probe stops at an entry with its key or at the first
empty slot; it ends for every key as long as one slot is empty. -/
namespace Libnmo.Lib

inductive Slot (α : Type) where
  | empty
  | tombstone
  | occupied (entry : α)
  deriving DecidableEq, Repr

namespace Slot
variable {α : Type}

def isEmpty : Slot α → Bool
  | empty => true
  | tombstone | occupied _ => false

def held : Slot α → Option α
  | occupied entry => some entry
  | empty | tombstone => none

theorem isEmpty_iff {slot : Slot α} : slot.isEmpty = true ↔ slot = empty := by
  cases slot <;> simp [isEmpty]

theorem held_iff {slot : Slot α} {entry : α} : slot.held = some entry ↔ slot = occupied entry := by
  cases slot <;> simp [held]

end Slot

namespace OpenAddressing
variable {α : Type} (slots : List (Slot α)) (isKey : α → Bool)

/-- The probe from a slot on. The first tombstone it passes is where a new entry
goes; without fuel it has not ended yet. -/
def probe : Nat → Nat → Option Nat → Option (Bool × Nat)
  | 0,_,_ => none
  | fuel + 1,index,tombstone =>
    match slots[index]? with
    | none => none
    | some .empty => some (false,tombstone.getD index)
    | some .tombstone => probe fuel ((index + 1) &&& (slots.length - 1)) (some (tombstone.getD index))
    | some (.occupied entry) =>
      if isKey entry then some (true,index) else probe fuel ((index + 1) &&& (slots.length - 1)) tombstone

/-- A probe from the home of a hash, once around the ring. -/
def find (hash : Nat) : Option (Bool × Nat) := probe slots isKey slots.length (hash &&& (slots.length - 1)) none

/-- The slot is on the way from the home of a hash to the first empty slot. -/
def Along (hash i : Nat) : Prop :=
  ∃ d, i = (hash + d) % slots.length ∧ ∀ m < d, slots[(hash + m) % slots.length]? ≠ some .empty

/-- What a probe has met in its first `d` steps. -/
structure Passed (hash d : Nat) (tombstone : Option Nat) : Prop where
  full : ∀ m < d, slots[(hash + m) % slots.length]? ≠ some .empty
  other : ∀ m < d, ∀ entry, slots[(hash + m) % slots.length]? = some (.occupied entry) → isKey entry = false
  kept : ∀ t, tombstone = some t → slots[t]? = some .tombstone ∧ Along slots hash t
  bare : tombstone = none → ∀ m < d, slots[(hash + m) % slots.length]? ≠ some .tombstone

variable {slots isKey}

theorem masked {k : Nat} (size : slots.length = 2 ^ k) (i : Nat) :
    i &&& (slots.length - 1) = i % slots.length := by
  rw [size]
  exact Nat.and_two_pow_sub_one_eq_mod i k

theorem masked_next {k : Nat} (size : slots.length = 2 ^ k) (hash d : Nat) :
    ((hash + d) % slots.length + 1) &&& (slots.length - 1) = (hash + (d + 1)) % slots.length := by
  rw [masked size,Nat.mod_add_mod,Nat.add_assoc]

theorem probe_congr {isKey other : α → Bool}
    (agree : ∀ (i : Nat) entry, slots[i]? = some (.occupied entry) → isKey entry = other entry) (fuel index : Nat)
    (tombstone : Option Nat) : probe slots isKey fuel index tombstone = probe slots other fuel index tombstone := by
  induction fuel generalizing index tombstone with
  | zero => rfl
  | succ fuel ih =>
    rw [probe,probe]
    cases here : slots[index]? with
    | none => rfl
    | some slot =>
      cases slot with
      | empty => rfl
      | tombstone => exact ih _ _
      | occupied entry =>
        dsimp only
        rw [agree index entry here,ih]

/-- Among tombstones only, no probe ends. -/
theorem probe_tombstones {n : Nat} (all : slots = List.replicate n .tombstone) (fuel index : Nat)
    (tombstone : Option Nat) : probe slots isKey fuel index tombstone = none := by
  induction fuel generalizing index tombstone with
  | zero => rfl
  | succ fuel ih =>
    rw [probe]
    split
    · rfl
    · rename_i empty
      rw [all,List.getElem?_replicate] at empty
      split at empty <;> cases empty
    · exact ih _ _
    · rename_i occupied
      rw [all,List.getElem?_replicate] at occupied
      split at occupied <;> cases occupied

theorem Passed.start (hash : Nat) : Passed slots isKey hash 0 none where
  full := nofun
  other := nofun
  kept := nofun
  bare := fun _ => nofun

section
variable {hash d : Nat} {tombstone : Option Nat} (passed : Passed slots isKey hash d tombstone)
include passed

theorem Passed.along : Along slots hash ((hash + d) % slots.length) := ⟨d,rfl,passed.full⟩

theorem Passed.past_tombstone (here : slots[(hash + d) % slots.length]? = some .tombstone) :
    Passed slots isKey hash (d + 1) (some (tombstone.getD ((hash + d) % slots.length))) where
  full m before := by
    cases Nat.lt_succ_iff_lt_or_eq.mp before with
    | inl earlier => exact passed.full m earlier
    | inr equal => simp [equal,here]
  other m before entry found := by
    cases Nat.lt_succ_iff_lt_or_eq.mp before with
    | inl earlier => exact passed.other m earlier entry found
    | inr equal =>
      rw [equal,here] at found
      cases found
  kept t equal := by
    cases tombstone with
    | none =>
      cases equal
      exact ⟨here,passed.along⟩
    | some first => exact passed.kept t equal
  bare := nofun

theorem Passed.past_entry {entry : α} (here : slots[(hash + d) % slots.length]? = some (.occupied entry))
    (differs : isKey entry = false) : Passed slots isKey hash (d + 1) tombstone where
  full m before := by
    cases Nat.lt_succ_iff_lt_or_eq.mp before with
    | inl earlier => exact passed.full m earlier
    | inr equal => simp [equal,here]
  other m before other found := by
    cases Nat.lt_succ_iff_lt_or_eq.mp before with
    | inl earlier => exact passed.other m earlier other found
    | inr equal =>
      rw [equal,here] at found
      cases found
      exact differs
  kept := passed.kept
  bare absent m before := by
    cases Nat.lt_succ_iff_lt_or_eq.mp before with
    | inl earlier => exact passed.bare absent m earlier
    | inr equal => simp [equal,here]

end

/-- What lies along a probe that comes to an empty slot lies among what it passed. -/
theorem Along.before_empty {hash d i : Nat} (along : Along slots hash i)
    (here : slots[(hash + d) % slots.length]? = some .empty) (full : slots[i]? ≠ some .empty) :
    ∃ m < d, i = (hash + m) % slots.length := by
  obtain ⟨e,rfl,clear⟩ := along
  rcases Nat.lt_trichotomy e d with before | equal | after
  · exact ⟨e,before,rfl⟩
  · rw [equal] at full
    exact absurd here full
  · exact absurd here (clear d after)

variable (slots isKey)

/-- A probe that reports a slot with its key. -/
structure Found (hash i : Nat) : Prop where
  along : Along slots hash i
  entry : ∃ entry, slots[i]? = some (.occupied entry) ∧ isKey entry = true

/-- A probe that reports where a new entry goes: no entry along it has the key, and
a tombstone is taken before the empty slot it ended at. -/
structure Free (hash i : Nat) : Prop where
  along : Along slots hash i
  free : slots[i]? = some .empty ∨ slots[i]? = some .tombstone
  absent : ∀ j entry, Along slots hash j → slots[j]? = some (.occupied entry) → isKey entry = false
  reuses : ∀ j, Along slots hash j → slots[j]? = some .tombstone → slots[i]? = some .tombstone
  ended : ∃ j : Nat, slots[j]? = some .empty

variable {slots isKey}

theorem Passed.free {hash d : Nat} {tombstone : Option Nat} (passed : Passed slots isKey hash d tombstone)
    (here : slots[(hash + d) % slots.length]? = some .empty) :
    Free slots isKey hash (tombstone.getD ((hash + d) % slots.length)) := by
  refine ⟨?_,?_,?_,?_,_,here⟩
  · cases tombstone with
    | none => exact passed.along
    | some t => exact (passed.kept t rfl).2
  · cases tombstone with
    | none => exact Or.inl here
    | some t => exact Or.inr (passed.kept t rfl).1
  · intro j entry along found
    obtain ⟨m,before,rfl⟩ := along.before_empty here (by simp [found])
    exact passed.other m before entry found
  · intro j along found
    obtain ⟨m,before,rfl⟩ := along.before_empty here (by simp [found])
    cases tombstone with
    | none => exact absurd found (passed.bare rfl m before)
    | some t => exact (passed.kept t rfl).1

section
variable {k : Nat} (size : slots.length = 2 ^ k)
include size

theorem slot_inside (i : Nat) : ∃ slot, slots[i % slots.length]? = some slot :=
  ⟨_,List.getElem?_eq_getElem (Nat.mod_lt i (size ▸ Nat.two_pow_pos k))⟩

theorem probe_some {hash d fuel i : Nat} {tombstone : Option Nat} {found : Bool}
    (passed : Passed slots isKey hash d tombstone)
    (probed : probe slots isKey fuel ((hash + d) % slots.length) tombstone = some (found,i)) :
    if found then Found slots isKey hash i else Free slots isKey hash i := by
  induction fuel generalizing d tombstone with
  | zero => cases probed
  | succ fuel ih =>
    obtain ⟨slot,here⟩ := slot_inside size (hash + d)
    rw [probe,here,masked_next size] at probed
    cases slot with
    | empty =>
      cases probed
      exact passed.free here
    | tombstone => exact ih (passed.past_tombstone here) probed
    | occupied entry =>
      dsimp only at probed
      split at probed
      · rename_i equal
        cases probed
        exact ⟨passed.along,entry,here,equal⟩
      · rename_i differs
        exact ih (passed.past_entry here (Bool.eq_false_iff.mpr differs)) probed

theorem probe_none {hash d fuel : Nat} {tombstone : Option Nat} (passed : Passed slots isKey hash d tombstone)
    (probed : probe slots isKey fuel ((hash + d) % slots.length) tombstone = none) :
    ∃ last, Passed slots isKey hash (d + fuel) last := by
  induction fuel generalizing d tombstone with
  | zero => exact ⟨tombstone,passed⟩
  | succ fuel ih =>
    obtain ⟨slot,here⟩ := slot_inside size (hash + d)
    rw [probe,here,masked_next size] at probed
    rw [Nat.add_comm fuel 1,← Nat.add_assoc]
    cases slot with
    | empty => cases probed
    | tombstone => exact ih (passed.past_tombstone here) probed
    | occupied entry =>
      dsimp only at probed
      split at probed
      · cases probed
      · rename_i differs
        exact ih (passed.past_entry here (Bool.eq_false_iff.mpr differs)) probed

/-- Every slot is a number of steps short of the whole ring away from each home. -/
theorem steps_to (hash : Nat) {i : Nat} (inside : i < slots.length) :
    ∃ d < slots.length, i = (hash + d) % slots.length := by
  have wrap : hash % slots.length < slots.length := Nat.mod_lt _ (Nat.lt_of_le_of_lt (Nat.zero_le i) inside)
  have around := Nat.div_add_mod hash slots.length
  cases Nat.lt_or_ge i (hash % slots.length) with
  | inl before =>
    refine ⟨i + slots.length - hash % slots.length,by omega,?_⟩
    have turned : hash + (i + slots.length - hash % slots.length) =
        i + slots.length * (hash / slots.length + 1) := by
      rw [Nat.mul_add,Nat.mul_one]
      omega
    rw [turned,Nat.add_mul_mod_self_left,Nat.mod_eq_of_lt inside]
  | inr after =>
    refine ⟨i - hash % slots.length,by omega,?_⟩
    have turned : hash + (i - hash % slots.length) = i + slots.length * (hash / slots.length) := by omega
    rw [turned,Nat.add_mul_mod_self_left,Nat.mod_eq_of_lt inside]

theorem find_some {hash i : Nat} {found : Bool} (probed : find slots isKey hash = some (found,i)) :
    if found then Found slots isKey hash i else Free slots isKey hash i := by
  rw [find,masked size] at probed
  exact probe_some size (Passed.start hash) probed

theorem find_found {hash i : Nat} (probed : find slots isKey hash = some (true,i)) : Found slots isKey hash i :=
  find_some size probed

theorem find_free {hash i : Nat} (probed : find slots isKey hash = some (false,i)) : Free slots isKey hash i :=
  find_some size probed

theorem find_none {hash : Nat} (probed : find slots isKey hash = none) {i : Nat} {slot : Slot α}
    (here : slots[i]? = some slot) : slot ≠ .empty ∧ ∀ entry, slot = .occupied entry → isKey entry = false := by
  rw [find,masked size] at probed
  obtain ⟨last,passed⟩ := probe_none size (Passed.start hash) probed
  rw [Nat.zero_add] at passed
  obtain ⟨inside,-⟩ := List.getElem?_eq_some_iff.mp here
  obtain ⟨d,before,rfl⟩ := steps_to size hash inside
  constructor
  · rintro rfl
    exact passed.full d before here
  · rintro entry rfl
    exact passed.other d before entry here

/-- With an empty slot every probe ends, within one round. -/
theorem find_ends {i : Nat} (here : slots[i]? = some .empty) (isKey : α → Bool) (hash : Nat) :
    ∃ answer, find slots isKey hash = some answer := by
  cases probed : find slots isKey hash with
  | none => exact absurd rfl (find_none size probed here).1
  | some answer => exact ⟨answer,rfl⟩

/-- A probe that has not ended after one round never ends. -/
theorem endless {hash : Nat} (probed : find slots isKey hash = none) (fuel : Nat) :
    probe slots isKey fuel (hash &&& (slots.length - 1)) none = none := by
  cases ended : probe slots isKey fuel (hash &&& (slots.length - 1)) none with
  | none => rfl
  | some answer =>
    rw [masked size] at ended
    obtain ⟨found,i⟩ := answer
    have answered := probe_some size (Passed.start hash) ended
    cases found with
    | true =>
      obtain ⟨-,entry,here,equal⟩ : Found slots isKey hash i := answered
      rw [(find_none size probed here).2 entry rfl] at equal
      cases equal
    | false =>
      obtain ⟨j,here⟩ := (show Free slots isKey hash i from answered).ended
      exact absurd rfl (find_none size probed here).1

end

end OpenAddressing
end Libnmo.Lib
