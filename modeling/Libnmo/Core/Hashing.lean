import Libnmo.Core.Error
import Libnmo.Lib.KeyedSlots
import Libnmo.Lib.Stopping

/-! What the hash table, the hash set and the indexed map have in common: each has
its own copy of these functions. Slots are found by their index, but handed on as an
`int`. -/
namespace Libnmo.Core.Hashing
open Lib OpenAddressing

/-- What a call returns that returns a status; `none` is `NMO_OK`. -/
abbrev Status := Option ErrorCode

def defaultInitialCapacity : Nat := 16

def sizeMax : Nat := 2 ^ 64 - 1

/-- The loop of `next_capacity`. A capacity doubles fewer than 64 times. -/
def doubled (minCapacity : Nat) : Nat → Nat → Nat
  | 0,_ => 0
  | fuel + 1,capacity =>
    if capacity < minCapacity then
      if sizeMax / 2 < capacity then 0 else doubled minCapacity fuel (capacity * 2)
    else capacity

def nextCapacity (minCapacity : Nat) : Nat := doubled minCapacity 64 defaultInitialCapacity

/-- The capacity that `create` starts with. -/
def firstCapacity (initialCapacity : Nat) : Nat :=
  if 0 < initialCapacity then nextCapacity initialCapacity else defaultInitialCapacity

/-- A `size_t` as a `double`: a whole number again, to 53 bits, ties to even. -/
def toDouble (n : Nat) : Nat :=
  if n < 2 ^ 53 then n
  else
    let unit := 2 ^ (Nat.log2 n - 52)
    if unit < 2 * (n % unit) ∨ (2 * (n % unit) = unit ∧ n / unit % 2 = 1) then (n / unit + 1) * unit
    else n / unit * unit

/-- The load factor 0.7 is `6305039478318694 / 2 ^ 53` as a `double`. Its product
with a capacity, a power of two, is exact. -/
def shouldGrow (capacity count : Nat) : Bool := 6305039478318694 * capacity < 2 ^ 53 * toDouble (count + 1)

/-- The cast of an index to `int`. -/
@[irreducible] def slotNumber (index : Nat) : Int := Int.bmod index (2 ^ 32)

section
variable {α κ τ : Type}

def findSlot (keys : Keys κ) (key : α → Option κ) (slots : List (Slot α)) (k : κ) : Result (Bool × Int) :=
  match find slots (hasKey keys key k) (keys.hash k) with
  | none => .error .endless
  | some (found,index) => .ok (found,slotNumber index)

variable (capacity count : τ → Nat) (rehash : τ → Nat → Result (τ × Status))

/-- What comes before the probe of an insertion. -/
def makeRoom (table : τ) : Result (τ × Status) := do
  let (table,status) ← if capacity table = 0 then rehash table (nextCapacity defaultInitialCapacity) else pure (table,none)
  match status with
  | some code => pure (table,some code)
  | none =>
    if shouldGrow (capacity table) (count table) then
      let newCapacity := capacity table * 2 % 2 ^ 64
      if newCapacity = 0 ∨ newCapacity ≤ capacity table then pure (table,some .nomem)
      else rehash table newCapacity
    else pure (table,none)

def reserve (table : τ) (requested : Nat) : Result (τ × Status) :=
  if requested ≤ capacity table then pure (table,none)
  else
    let target := nextCapacity requested
    if target = 0 then pure (table,some .nomem) else rehash table target

end

/-- `nmo_map_hash_uint32`, with the comparison of the bytes of a key. -/
def wordKeys : Keys UInt32 := ⟨fun word => (word * 2654435761).toNat,(· == ·)⟩

theorem wordKeys_lawful : wordKeys.Lawful := Keys.lawful_beq _

theorem doubled_power (minCapacity fuel n : Nat) :
    doubled minCapacity fuel (2 ^ (n + 4)) = 0 ∨ ∃ m, doubled minCapacity fuel (2 ^ (n + 4)) = 2 ^ (m + 4) := by
  induction fuel generalizing n with
  | zero => exact Or.inl rfl
  | succ fuel ih =>
    rw [doubled]
    split_ifs
    · exact Or.inl rfl
    · have next := ih (n + 1)
      rwa [Nat.add_right_comm,Nat.pow_succ] at next
    · exact Or.inr ⟨n,rfl⟩

theorem nextCapacity_power {minCapacity : Nat} (given : nextCapacity minCapacity ≠ 0) :
    ∃ n, nextCapacity minCapacity = 2 ^ (n + 4) :=
  (doubled_power minCapacity 64 0).resolve_left given

theorem firstCapacity_power {initialCapacity : Nat} (given : firstCapacity initialCapacity ≠ 0) :
    ∃ n, firstCapacity initialCapacity = 2 ^ (n + 4) := by
  rw [firstCapacity] at given ⊢
  split
  · rename_i requested
    rw [if_pos requested] at given
    exact nextCapacity_power given
  · exact ⟨0,rfl⟩

theorem doubled_le (minCapacity fuel capacity : Nat) :
    doubled minCapacity fuel capacity = 0 ∨ minCapacity ≤ doubled minCapacity fuel capacity := by
  induction fuel generalizing capacity with
  | zero => exact Or.inl rfl
  | succ fuel ih =>
    rw [doubled]
    split_ifs with small large
    · exact Or.inl rfl
    · exact ih (capacity * 2)
    · exact Or.inr (Nat.le_of_not_lt small)

theorem le_nextCapacity {minCapacity : Nat} (given : nextCapacity minCapacity ≠ 0) :
    minCapacity ≤ nextCapacity minCapacity :=
  (doubled_le minCapacity 64 16).resolve_left given

theorem toDouble_lower (n : Nat) : 3 * n ≤ 4 * toDouble n := by
  rw [toDouble]
  split
  · omega
  · rename_i large
    have positive : n ≠ 0 := by omega
    have whole : 2 ^ (Nat.log2 n - 52) * 2 ^ 52 ≤ n := by
      rw [← Nat.pow_add,Nat.sub_add_cancel]
      · exact Nat.log2_self_le positive
      · exact (Nat.le_log2 positive).mpr (by omega)
    have parts := Nat.div_add_mod n (2 ^ (Nat.log2 n - 52))
    have rest := Nat.mod_lt n (Nat.two_pow_pos (Nat.log2 n - 52))
    have commuted := Nat.mul_comm (2 ^ (Nat.log2 n - 52)) (n / 2 ^ (Nat.log2 n - 52))
    dsimp only
    split
    · rw [Nat.add_mul,Nat.one_mul]
      omega
    · omega

theorem shouldGrow_full {capacity count : Nat} (small : shouldGrow capacity count = false) : count < capacity := by
  have enough := toDouble_lower (count + 1)
  have within := Nat.le_of_not_lt (of_decide_eq_false small)
  generalize toDouble (count + 1) = entries at enough within
  omega

theorem slotNumber_small {index : Nat} (small : index < 2 ^ 31) : slotNumber index = index := by
  unfold slotNumber
  apply Int.bmod_eq_of_le_mul_two
  · omega
  · omega

theorem slotNumber_lt (index : Nat) : slotNumber index < 2 ^ 31 := by
  unfold slotNumber
  have bound := @Int.bmod_lt index (2 ^ 32) (by decide)
  omega

/-- Every ring of slots. A slot that no `int` numbers is never written. -/
structure Ringed {α : Type} (slots : List (Slot α)) : Prop where
  size : ∃ n, slots.length = 2 ^ (n + 4)
  low : ∀ (i : Nat) slot, slots[i]? = some slot → slot ≠ .empty → i < 2 ^ 31

theorem ringed_fresh {α : Type} {capacity n : Nat} (power : capacity = 2 ^ (n + 4)) :
    Ringed (List.replicate capacity (.empty : Slot α)) where
  size := ⟨n,by rw [List.length_replicate,power]⟩
  low i slot here full := by
    rw [List.getElem?_replicate] at here
    split at here
    · exact absurd (Option.some.inj here).symm full
    · cases here

theorem fresh_home {α : Type} {n index : Nat} (inside : index < n) :
    (List.replicate n (.empty : Slot α))[index]? = some .empty := by
  rw [List.getElem?_replicate,if_pos inside]

/-- A probe ends at the home of its hash when that is empty. -/
theorem findSlot_home {α κ : Type} (keys : Keys κ) (key : α → Option κ) {slots : List (Slot α)} {index : Nat}
    {number : Int} {k : κ} (here : slots[index]? = some .empty) (home : keys.hash k &&& (slots.length - 1) = index)
    (numbered : slotNumber index = number) : findSlot keys key slots k = .ok (false,number) := by
  have probed : find slots (hasKey keys key k) (keys.hash k) = some (false,index) := by
    rw [find,home]
    cases size : slots.length with
    | zero =>
      rw [List.length_eq_zero_iff.mp size] at here
      cases here
    | succ n =>
      rw [probe,here]
      rfl
  rw [findSlot,probed,← numbered]

section
variable {α κ : Type} {slots : List (Slot α)} (ring : Ringed slots)
include ring

theorem Ringed.grown {n : Nat} (more : slots.length < slots.length * 2 % 2 ^ 64) (given : n = slots.length * 2 % 2 ^ 64) :
    n = slots.length * 2 ∧ ∃ m, n = 2 ^ (m + 4) := by
  obtain ⟨m,size⟩ := ring.size
  rw [size,← Nat.pow_succ] at more given
  rw [size,← Nat.pow_succ]
  cases Nat.lt_or_ge (m + 4 + 1) 64 with
  | inl fits =>
    rw [Nat.mod_eq_of_lt (Nat.pow_lt_pow_right (by decide) fits)] at given
    exact ⟨given,m + 1,by rw [given,Nat.add_right_comm]⟩
  | inr wraps =>
    rw [Nat.mod_eq_zero_of_dvd (Nat.pow_dvd_pow 2 wraps)] at more
    exact absurd more (Nat.not_lt_zero _)

theorem Ringed.pos : 0 < slots.length := by
  obtain ⟨n,size⟩ := ring.size
  rw [size]
  exact Nat.two_pow_pos _

theorem Ringed.set {number : Int} (numbered : number < 2 ^ 31) (slot : Slot α) :
    Ringed (slots.set number.toNat slot) where
  size := by
    rw [List.length_set]
    exact ring.size
  low i other here full := by
    rw [List.getElem?_set] at here
    split at here
    · rename_i equal
      omega
    · exact ring.low i other here full

/-- A slot that is not empty keeps its index as an `int`. -/
theorem Ringed.number {i : Nat} {slot : Slot α} (here : slots[i]? = some slot) (full : slot ≠ .empty) :
    (slotNumber i).toNat = i := by
  rw [slotNumber_small (ring.low i slot here full),Int.toNat_natCast]

omit ring in
/-- An answer numbers the index where the probe ended. -/
theorem findSlot_answers (keys : Keys κ) (key : α → Option κ) (k : κ) : Ensures (fun _ => True) (fun answer =>
    ∃ index, find slots (hasKey keys key k) (keys.hash k) = some (answer.1,index) ∧ answer.2 = slotNumber index)
    (findSlot keys key slots k) := by
  rw [findSlot]
  cases probed : find slots (hasKey keys key k) (keys.hash k) with
  | none => trivial
  | some answer => exact ⟨answer.2,rfl,rfl⟩

/-- With an empty slot the probe for any key ends, at an index that the answer numbers. -/
theorem Ringed.findSlot_ensures {allowed : Stop → Prop} (room : 0 < vacant slots) (keys : Keys κ)
    (key : α → Option κ) (k : κ) : Ensures allowed (fun answer => ∃ index,
      find slots (hasKey keys key k) (keys.hash k) = some (answer.1,index) ∧ answer.2 = slotNumber index)
      (findSlot keys key slots k) := by
  obtain ⟨i,here⟩ := vacant_pos.mp room
  obtain ⟨n,size⟩ := ring.size
  obtain ⟨⟨found,index⟩,probed⟩ := find_ends size here (hasKey keys key k) (keys.hash k)
  rw [findSlot,probed]
  exact ⟨index,rfl,rfl⟩

end

section
variable {τ : Type} {capacity count : τ → Nat} {rehash : τ → Nat → Result (τ × Status)} {allowed : Stop → Prop}
  {post : τ × Status → Prop}

/-- An insertion goes on in the table it was given unless that is due to grow; then
it goes on in the result of a rehash to twice the capacity. -/
theorem makeRoom_ensures {table : τ} (sized : 0 < capacity table)
    (roomy : shouldGrow (capacity table) (count table) = false → post (table,none))
    (refused : post (table,some .nomem))
    (grows : ∀ newCapacity, shouldGrow (capacity table) (count table) = true → capacity table < newCapacity →
      newCapacity = capacity table * 2 % 2 ^ 64 → Ensures allowed post (rehash table newCapacity)) :
    Ensures allowed post (makeRoom capacity count rehash table) := by
  rw [makeRoom,if_neg sized.ne']
  have given : Ensures allowed (fun made : τ × Status => made = (table,none)) (pure (table,none)) := rfl
  refine Ensures.bind given ?_
  rintro _ rfl
  dsimp only
  split
  · rename_i full
    split
    · exact refused
    · rename_i larger
      exact grows _ full (by omega) rfl
  · rename_i enough
    exact roomy (Bool.eq_false_iff.mpr enough)

theorem reserve_ensures {table : τ} {requested : Nat} (kept : ∀ status, post (table,status))
    (grows : ∀ n, capacity table < requested → requested ≤ nextCapacity requested →
      nextCapacity requested = 2 ^ (n + 4) → Ensures allowed post (rehash table (nextCapacity requested))) :
    Ensures allowed post (reserve capacity rehash table requested) := by
  rw [reserve]
  split
  · exact kept none
  · rename_i larger
    dsimp only
    split
    · exact kept _
    · rename_i given
      obtain ⟨n,power⟩ := nextCapacity_power given
      exact grows n (by omega) (le_nextCapacity given) power

end

end Libnmo.Core.Hashing
