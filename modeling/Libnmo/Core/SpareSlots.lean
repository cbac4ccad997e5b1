import Libnmo.Core.Hashing

/-! Rings with an empty slot. Growth counts live entries only, so an insertion into a
ring that need not grow may take the last empty slot; entries placed in a fresh ring
leave at least half of its slots empty. -/
namespace Libnmo.Core
open Lib OpenAddressing Hashing

namespace Hashing
section
variable {α κ : Type} (keys : Keys κ) (key : α → Option κ) (slots : List (Slot α))

/-- Some slot is EMPTY, and the probe for each key stops after finitely many steps. -/
def ProbesEnd : Prop := (∃ i : Nat, slots[i]? = some .empty) ∧ ∀ k, ∃ fuel answer,
  probe slots (hasKey keys key k) fuel (keys.hash k &&& (slots.length - 1)) none = some answer

/-- An insertion does not take the last empty slot: two slots are empty, or on its way
to the first one there is an entry with its key, or a tombstone. -/
def Spares (k : κ) : Prop := 2 ≤ vacant slots ∨ ∃ i slot, Along slots (keys.hash k) i ∧ slots[i]? = some slot ∧
  ((∃ entry, slot = .occupied entry ∧ hasKey keys key k entry = true) ∨ slot = .tombstone)

end

/-- What calls keep: a ring of slots, one of them empty. -/
structure Roomy {α : Type} (slots : List (Slot α)) : Prop where
  ring : Ringed slots
  room : 0 < vacant slots

section
variable {α κ : Type} {keys : Keys κ} {key : α → Option κ} {slots : List (Slot α)} (ring : Ringed slots)
include ring

theorem probesEnd (room : 0 < vacant slots) : ProbesEnd keys key slots := by
  refine ⟨vacant_pos.mp room,fun k => ?_⟩
  obtain ⟨i,here⟩ := vacant_pos.mp room
  obtain ⟨n,size⟩ := ring.size
  exact ⟨slots.length,find_ends size here (hasKey keys key k) (keys.hash k)⟩

theorem occupied_room {k : κ} {index : Nat} (spares : Spares keys key slots k) (room : 0 < vacant slots)
    (probed : find slots (hasKey keys key k) (keys.hash k) = some (false,index)) (entry : α) :
    0 < vacant (slots.set (slotNumber index).toNat (.occupied entry)) := by
  obtain ⟨n,size⟩ := ring.size
  have free := find_free size probed
  rcases spares with two | ⟨i,slot,along,here,⟨other,rfl,equal⟩ | rfl⟩
  · have taken := vacant_set slots (slotNumber index).toNat (.occupied entry)
    omega
  · rw [free.absent i other along here] at equal
    cases equal
  · have reused := free.reuses i along here
    rw [ring.number reused nofun]
    exact Nat.lt_of_lt_of_le room (vacant_set_full (by simp [reused]) _)

omit ring in
theorem fresh_room {capacity n : Nat} (power : capacity = 2 ^ (n + 4)) :
    Roomy (List.replicate capacity (.empty : Slot α)) := by
  refine ⟨ringed_fresh power,?_⟩
  rw [vacant_fresh,power]
  exact Nat.two_pow_pos _

theorem cleared_room : Roomy (List.replicate slots.length (.empty : Slot α)) := by
  obtain ⟨n,size⟩ := ring.size
  refine ⟨ringed_fresh size,?_⟩
  rw [vacant_fresh]
  exact ring.pos

theorem erased_room {k : κ} {index : Nat} (room : 0 < vacant slots)
    (probed : find slots (hasKey keys key k) (keys.hash k) = some (true,index)) :
    0 < vacant (slots.set (slotNumber index).toNat .tombstone) := by
  obtain ⟨n,size⟩ := ring.size
  obtain ⟨-,entry,here,-⟩ := find_found size probed
  rw [ring.number here nofun]
  exact Nat.lt_of_lt_of_le room (vacant_set_full (by simp [here]) _)

end
end Hashing

section
variable {α κ : Type} {keys : Keys κ} {key : α → Option κ} {slots : List (Slot α)} (roomy : Roomy slots) {k : κ} {index : Nat}
  {slot : Int} (numbered : slot = slotNumber index)
include roomy numbered

theorem Hashing.roomy_occupied (spares : Spares keys key slots k)
    (probed : find slots (hasKey keys key k) (keys.hash k) = some (false,index)) (entry : α) :
    Roomy (slots.set slot.toNat (.occupied entry)) := by
  refine ⟨roomy.ring.set (numbered ▸ slotNumber_lt index) _,?_⟩
  rw [numbered]
  exact occupied_room roomy.ring spares roomy.room probed entry

theorem Hashing.roomy_erased (probed : find slots (hasKey keys key k) (keys.hash k) = some (true,index)) :
    Roomy (slots.set slot.toNat .tombstone) := by
  refine ⟨roomy.ring.set (numbered ▸ slotNumber_lt index) _,?_⟩
  rw [numbered]
  exact erased_room roomy.ring roomy.room probed

end

/-- What a stop may be when no probe runs on. -/
def Stop.ends (stop : Stop) : Prop := stop ≠ .endless

/-- Entries that each take a slot at most, placed among more empty slots than they are. -/
theorem Hashing.placed_room {α β τ : Type} {slotsOf : τ → List (Slot α)} {step : τ → β → Result τ} {inv : τ → Prop}
    (each : ∀ t item left, inv t → Ringed (slotsOf t) → left + 1 ≤ vacant (slotsOf t) →
      Ensures Stop.ends (fun t' => inv t' ∧ Ringed (slotsOf t') ∧ left ≤ vacant (slotsOf t')) (step t item))
    {items : List β} {t : τ} (starts : inv t) (ring : Ringed (slotsOf t)) (room : items.length + 2 ≤ vacant (slotsOf t)) :
    Ensures Stop.ends (fun t' => inv t' ∧ Roomy (slotsOf t') ∧ 2 ≤ vacant (slotsOf t')) (items.foldlM step t) := by
  have filled : Ensures Stop.ends _ (items.foldlM step t) := Ensures.fold
    (fun rest t => inv t ∧ Ringed (slotsOf t) ∧ rest.length + 2 ≤ vacant (slotsOf t))
    (fun item rest t kept => each t item (rest.length + 2) kept.1 kept.2.1 (by simpa [Nat.add_right_comm] using kept.2.2))
    ⟨starts,ring,room⟩
  refine filled.mono fun t' kept => ?_
  have two : 2 ≤ vacant (slotsOf t') := by simpa using kept.2.2
  exact ⟨kept.1,⟨kept.2.1,by omega⟩,two⟩

section
variable {α κ τ : Type} {keys : Keys κ} {key : α → Option κ} {slotsOf : τ → List (Slot α)} {capacity count : τ → Nat}
  {rehash : τ → Nat → Result (τ × Status)} {table : τ} (sized : capacity table = (slotsOf table).length)
  (roomy : Roomy (slotsOf table))
  (rehashed : ∀ newCapacity n, newCapacity = 2 ^ (n + 4) → (slotsOf table).length < newCapacity →
    Ensures Stop.ends (fun made => (made.1 = table ∧ made.2 ≠ none) ∨
      (Roomy (slotsOf made.1) ∧ 2 ≤ vacant (slotsOf made.1))) (rehash table newCapacity))
include sized roomy rehashed

/-- Before an insertion the slots still have an empty one, and where they grow they have two. -/
theorem Hashing.roomy_makeRoom (k : κ) : Ensures Stop.ends (fun made => Roomy (slotsOf made.1) ∧
    ((shouldGrow (capacity table) (count table) = true ∨ Spares keys key (slotsOf table) k) →
      Spares keys key (slotsOf made.1) k ∨ made.2 ≠ none)) (makeRoom capacity count rehash table) := by
  apply makeRoom_ensures
  · rw [sized]
    exact roomy.ring.pos
  · intro enough
    refine ⟨roomy,fun clean => Or.inl (clean.resolve_left ?_)⟩
    rw [enough]
    exact Bool.false_ne_true
  · exact ⟨roomy,fun _ => Or.inr nofun⟩
  · intro newCapacity full more given
    rw [sized] at given more
    rw [given] at more
    obtain ⟨-,m,power⟩ := roomy.ring.grown more given
    refine (rehashed newCapacity m power (given ▸ more)).mono ?_
    rintro ⟨made,status⟩ (⟨rfl,refused⟩ | ⟨kept,two⟩)
    · exact ⟨roomy,fun _ => Or.inr refused⟩
    · exact ⟨kept,fun _ => Or.inl (Or.inl two)⟩

theorem Hashing.roomy_reserve (requested : Nat) :
    Ensures Stop.ends (fun made => Roomy (slotsOf made.1)) (reserve capacity rehash table requested) := by
  apply reserve_ensures
  · exact fun status => roomy
  · intro n more enough power
    rw [sized] at more
    refine (rehashed _ n power (Nat.lt_of_lt_of_le more enough)).mono ?_
    rintro ⟨made,status⟩ (⟨rfl,-⟩ | ⟨kept,-⟩)
    · exact roomy
    · exact kept

end

end Libnmo.Core
