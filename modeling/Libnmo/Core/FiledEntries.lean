import Libnmo.Core.TableRefines

/-! A hash table into which each key goes once and that nothing leaves, with up to
`2 ^ 32` slots. A new entry whose slot no `int` numbers is refused; the entries that
the table has stay those that were filed, as long as no growth takes it past `2 ^ 31`
slots. -/
namespace Libnmo.Core
open Lib OpenAddressing Hashing
open scoped List

namespace Hashing

theorem doubled_bounded {minCapacity n : Nat} (small : minCapacity ≤ 2 ^ n) (fuel : Nat) {m : Nat} (start : m ≤ n) :
    doubled minCapacity fuel (2 ^ m) ≤ 2 ^ n := by
  induction fuel generalizing m with
  | zero => exact Nat.zero_le _
  | succ fuel ih =>
    rw [doubled]
    split_ifs with more large
    · exact Nat.zero_le _
    · have below : m < n := (Nat.pow_lt_pow_iff_right Nat.one_lt_two).mp (Nat.lt_of_lt_of_le more small)
      have next := ih (m := m + 1) below
      rwa [Nat.pow_succ] at next
    · exact Nat.pow_le_pow_right Nat.zero_lt_two start

theorem firstCapacity_bounded {initialCapacity n : Nat} (small : initialCapacity ≤ 2 ^ n) (start : 4 ≤ n) :
    firstCapacity initialCapacity ≤ 2 ^ n := by
  rw [firstCapacity]
  split
  · exact doubled_bounded small 64 (m := 4) start
  · exact Nat.pow_le_pow_right Nat.zero_lt_two start

theorem shouldGrow_spare {capacity count : Nat} (enough : shouldGrow capacity count = false) :
    count + 1 < capacity := by
  have rounded := toDouble_lower (count + 1)
  have within := Nat.le_of_not_lt (of_decide_eq_false enough)
  generalize toDouble (count + 1) = entries at rounded within
  omega

theorem makeRoom_enough {τ : Type} {capacity count : τ → Nat} {rehash : τ → Nat → Result (τ × Status)} {table : τ}
    (sized : 0 < capacity table) (enough : shouldGrow (capacity table) (count table) = false) :
    makeRoom capacity count rehash table = .ok (table,none) := by
  rw [makeRoom,if_neg sized.ne']
  simp only [pure_bind]
  rw [enough]
  rfl

theorem slotNumber_large {index : Nat} (large : 2 ^ 31 ≤ index) (small : index < 2 ^ 32) : slotNumber index < 0 := by
  unfold slotNumber
  rw [Int.bmod_def]
  split <;> omega

end Hashing

namespace HashTable
variable {κ ν : Type} {keys : Keys κ}

/-- What an insertion does in the room that was made for it. -/
def storeEntry (keys : Keys κ) (key : κ) (value : ν) (made : HashTable κ ν × Status) : Result (HashTable κ ν × Status) :=
  match made.2 with
  | some code => pure (made.1,some code)
  | none => do
    let (found,slot) ← findSlot keys made.1 key
    if slot < 0 then pure (made.1,some .invalidState)
    else if found then
      match made.1.slots[slot.toNat]? with
      | some (.occupied (existing,_)) =>
        pure ({ made.1 with slots := made.1.slots.set slot.toNat (.occupied (existing,value)) },none)
      | _ => pure (made.1,none)
    else pure ({ made.1 with
      slots := made.1.slots.set slot.toNat (.occupied (key,value)), count := made.1.count + 1 },none)

theorem insert_stores (table : HashTable κ ν) (key : κ) (value : ν) (granted : Bool) : insert keys table key value granted =
    makeRoom capacity count (rehash keys granted) table >>= storeEntry keys key value := rfl

/-- The entries of a table, in the order in which they were filed. -/
structure Filed (keys : Keys κ) (table : HashTable κ ν) (entries : List (κ × ν)) : Prop where
  ring : Ringed table.slots
  small : table.slots.length ≤ 2 ^ 32
  kept : Kept keys (fun entry : κ × ν => some entry.1) table.slots
  bare : Slot.tombstone ∉ table.slots
  listed : live table.slots ~ entries
  counted : table.count = entries.length
  room : entries.length < table.slots.length

theorem vacant_bare {slots : List (Slot (κ × ν))} (bare : Slot.tombstone ∉ slots) :
    vacant slots + (live slots).length = slots.length := by
  induction slots with
  | nil => rfl
  | cons slot rest ih =>
    have later := ih fun member => bare (List.mem_cons_of_mem _ member)
    rw [vacant,live] at later ⊢
    cases slot with
    | tombstone => exact absurd List.mem_cons_self bare
    | empty =>
      rw [List.countP_cons_of_pos rfl,List.filterMap_cons_none rfl,List.length_cons]
      omega
    | occupied entry =>
      have held : (Slot.occupied entry).held = some entry := rfl
      rw [List.countP_cons_of_neg Bool.false_ne_true,List.filterMap_cons_some held,List.length_cons,List.length_cons]
      omega

section
variable {table : HashTable κ ν} {entries : List (κ × ν)} (filed : Filed keys table entries)
include filed

theorem Filed.spare : 0 < vacant table.slots := by
  have parts := vacant_bare filed.bare
  rw [filed.listed.length_eq] at parts
  have room := filed.room
  omega

theorem Filed.inside {index : Nat} {slot : Slot (κ × ν)} (here : table.slots[index]? = some slot) : index < 2 ^ 32 :=
  Nat.lt_of_lt_of_le (List.getElem?_eq_some_iff.mp here).1 filed.small

theorem Filed.empty {key : κ} {index : Nat}
    (probed : find table.slots (hasKey keys (fun entry => some entry.1) key) (keys.hash key) = some (false,index)) :
    table.slots[index]? = some .empty := by
  obtain ⟨n,size⟩ := filed.ring.size
  rcases (find_free size probed).free with empty | tombstone
  · exact empty
  · exact absurd (List.mem_of_getElem? tombstone) filed.bare

/-- A probe that finds its key reports the slot of an entry, which an `int` numbers. -/
theorem Filed.present {key : κ} {index : Nat}
    (probed : find table.slots (hasKey keys (fun entry => some entry.1) key) (keys.hash key) = some (true,index)) :
    ∃ entry ∈ entries, keys.same entry.1 key = true ∧ table.slots[index]? = some (.occupied entry) ∧
      slotNumber index = index := by
  obtain ⟨n,size⟩ := filed.ring.size
  obtain ⟨entry,here,same⟩ := found_entry size probed
  exact ⟨entry,filed.listed.mem_iff.mp (mem_live.mpr ⟨index,here⟩),same,here,
    slotNumber_small (filed.ring.low index _ here nofun)⟩

theorem Filed.perm {others : List (κ × ν)} (same : entries ~ others) : Filed keys table others where
  ring := filed.ring
  small := filed.small
  kept := filed.kept
  bare := filed.bare
  listed := filed.listed.trans same
  counted := filed.counted.trans same.length_eq
  room := same.length_eq ▸ filed.room

end

section
variable (lawful : keys.Lawful) {table : HashTable κ ν} {entries : List (κ × ν)} (filed : Filed keys table entries)
include lawful filed

theorem Filed.absent {key : κ} {index : Nat}
    (probed : find table.slots (hasKey keys (fun entry => some entry.1) key) (keys.hash key) = some (false,index)) :
    ∀ entry ∈ entries, keys.same entry.1 key = false := by
  obtain ⟨n,size⟩ := filed.ring.size
  intro entry member
  exact filed.kept.absent_entries lawful size probed entry (filed.listed.mem_iff.mpr member)

theorem Filed.distinct : keys.Apart entries := filed.kept.apart.perm lawful filed.listed

/-- A lookup ends: at the entry of the key, which is the first of the list that has it, or without one. -/
theorem lookup_filed {β : Type} {next : Bool × Int → Result β} {wanted : β → Prop} {key : κ}
    (present : ∀ (entry : κ × ν) (index : Nat), entry ∈ entries → keys.same entry.1 key = true →
      table.slots[index]? = some (.occupied entry) → Ensures (fun _ => False) wanted (next (true,(index : Int))))
    (absent : ∀ slot, (∀ entry ∈ entries, keys.same entry.1 key = false) →
      Ensures (fun _ => False) wanted (next (false,slot))) :
    Ensures (fun _ => False) wanted (findSlot keys table key >>= next) := by
  refine Ensures.bind (filed.ring.findSlot_ensures filed.spare keys _ key) ?_
  rintro ⟨found,slot⟩ ⟨index,probed,numbered⟩
  dsimp only at probed numbered ⊢
  cases found with
  | true =>
    obtain ⟨entry,member,same,here,named⟩ := filed.present probed
    rw [numbered,named]
    exact present entry index member same here
  | false => exact absent slot (filed.absent lawful probed)

theorem contains_filed (key : κ) :
    contains keys table key = .ok (entries.any fun entry => keys.same entry.1 key) := by
  have ensured : Ensures (fun _ => False) (fun found => found = entries.any fun entry => keys.same entry.1 key)
      (contains keys table key) := by
    refine lookup_filed lawful filed (fun entry index member same _ => ?_) fun slot none => ?_
    · rw [List.any_eq_true.mpr ⟨entry,member,same⟩]
      simp
    · have missed : (entries.any fun entry => keys.same entry.1 key) = false := by
        rw [List.any_eq_false]
        intro entry member
        rw [none entry member]
        exact Bool.false_ne_true
      dsimp only
      rw [missed,Bool.and_false]
      rfl
  obtain ⟨found,returned,rfl⟩ := ensured.total
  exact returned

theorem get_filed (key : κ) :
    get keys table key = .ok ((entries.find? fun entry => keys.same entry.1 key).map Prod.snd) := by
  have ensured : Ensures (fun _ => False)
      (fun value => value = (entries.find? fun entry => keys.same entry.1 key).map Prod.snd) (get keys table key) := by
    refine lookup_filed lawful filed (fun entry index member same here => ?_) fun slot none => ?_
    · dsimp only
      rw [(filed.distinct lawful).find lawful member same,if_neg (by simp),Int.toNat_natCast,here]
      rfl
    · dsimp only
      rw [if_pos (Or.inr rfl),List.find?_eq_none.mpr]
      · rfl
      · intro entry member
        rw [none entry member]
        exact Bool.false_ne_true
  obtain ⟨value,returned,rfl⟩ := ensured.total
  exact returned

/-- A new entry at an empty slot that an `int` numbers. -/
theorem Filed.occupy {entry : κ × ν} {index : Nat} (room : entries.length + 1 < table.slots.length)
    (probed : find table.slots (hasKey keys (fun entry => some entry.1) entry.1) (keys.hash entry.1) =
      some (false,index)) (low : index < 2 ^ 31) :
    Filed keys { table with slots := table.slots.set index (.occupied entry), count := table.count + 1 }
      (entries ++ [entry]) := by
  obtain ⟨n,size⟩ := filed.ring.size
  have added : live (table.slots.set index (.occupied entry)) ~ entry :: live table.slots :=
    live_set (filed.empty probed) (.occupied entry)
  constructor
  · have numbered : (index : Int) < 2 ^ 31 := by omega
    exact filed.ring.set numbered (.occupied entry)
  · rw [List.length_set]
    exact filed.small
  · exact filed.kept.occupy lawful size probed rfl
  · intro member
    rcases List.mem_or_eq_of_mem_set member with old | new
    · exact filed.bare old
    · cases new
  · exact (added.trans (filed.listed.cons entry)).trans (List.perm_append_singleton ..).symm
  · rw [List.length_append,filed.counted]
    rfl
  · rw [List.length_append,List.length_set]
    exact room

/-- One entry more, in a table whose slots an `int` numbers. -/
theorem placeEntry_filed {entry : κ × ν} (room : entries.length + 1 < table.slots.length)
    (small : table.slots.length ≤ 2 ^ 31) (fresh : ∀ other ∈ entries, keys.same other.1 entry.1 = false) :
    Ensures (fun _ => False) (fun placed : HashTable κ ν => placed.slots.length = table.slots.length ∧
      Filed keys placed (entries ++ [entry])) (placeEntry keys table entry) := by
  refine Ensures.bind (filed.ring.findSlot_ensures filed.spare keys _ entry.1) ?_
  rintro ⟨found,slot⟩ ⟨index,probed,numbered⟩
  dsimp only at probed numbered ⊢
  cases found with
  | true =>
    obtain ⟨other,member,same,-,-⟩ := filed.present probed
    rw [fresh other member] at same
    cases same
  | false =>
    have low : index < 2 ^ 31 := Nat.lt_of_lt_of_le (List.getElem?_eq_some_iff.mp (filed.empty probed)).1 small
    rw [numbered,slotNumber_small low,if_neg (by omega),Int.toNat_natCast]
    exact ⟨List.length_set ..,filed.occupy lawful room probed low⟩

end

theorem filed_fresh {capacity n : Nat} (power : capacity = 2 ^ (n + 4)) (small : capacity ≤ 2 ^ 32)
    (keySize valueSize : Nat) :
    Filed keys (⟨keySize,valueSize,List.replicate capacity .empty,0⟩ : HashTable κ ν) [] where
  ring := ringed_fresh power
  small := by rwa [List.length_replicate]
  kept := kept_fresh capacity
  bare member := by cases List.eq_of_mem_replicate member
  listed := by rw [live_fresh]
  counted := rfl
  room := by
    rw [List.length_replicate,power]
    exact Nat.two_pow_pos _

section
variable (lawful : keys.Lawful) {table : HashTable κ ν} {entries : List (κ × ν)} (filed : Filed keys table entries)
include lawful filed

theorem rehash_filed {newCapacity n : Nat} {granted : Bool} (power : newCapacity = 2 ^ (n + 4))
    (more : table.slots.length < newCapacity)
    (small : (allocateStorage table newCapacity granted).toOption.isSome → newCapacity ≤ 2 ^ 31) :
    Ensures (fun _ => False) (fun made : HashTable κ ν × Status => Filed keys made.1 entries ∧
      (made.2 = none → entries.length + 1 < made.1.slots.length)) (rehash keys granted table newCapacity) := by
  rw [rehash]
  cases allocated : allocateStorage table newCapacity granted with
  | error code => exact ⟨filed,fun same => (by cases same)⟩
  | ok fresh =>
    obtain rfl := allocateStorage_ok allocated
    have fits : newCapacity ≤ 2 ^ 31 := by
      apply small
      rw [allocated]
      rfl
    have room := filed.room
    have size := filed.listed.length_eq
    refine Ensures.bind (Ensures.fold (fun rest filled => ∃ front, live table.slots = front ++ rest ∧
      filled.slots.length = newCapacity ∧ Filed keys filled front) ?_ ?_) ?_
    · rintro entry rest filled ⟨front,split,sized,still⟩
      have apart := filed.kept.apart
      rw [split] at apart size
      rw [List.length_append,List.length_cons] at size
      refine (placeEntry_filed lawful still (by omega) (sized ▸ fits) ?_).mono ?_
      · exact fun other member => (List.pairwise_append.mp apart).2.2 other member entry List.mem_cons_self
      · rintro placed ⟨same,longer⟩
        exact ⟨front ++ [entry],by rw [split,List.append_assoc]; rfl,same.trans sized,longer⟩
    · exact ⟨[],rfl,List.length_replicate,filed_fresh power (Nat.le_trans fits (by decide)) _ _⟩
    · rintro filled ⟨front,split,sized,still⟩
      rw [List.append_nil] at split
      obtain rfl := split
      refine ⟨still.perm filed.listed,fun _ => ?_⟩
      dsimp only
      omega

theorem makeRoom_filed {key : κ} {value : ν} {granted : Bool}
    (fits : allocates table (.insert key value granted) ≤ 2 ^ 31) :
    Ensures (fun _ => False) (fun made : HashTable κ ν × Status => Filed keys made.1 entries ∧
      (made.2 = none → entries.length + 1 < made.1.slots.length))
      (makeRoom capacity count (rehash keys granted) table) := by
  apply makeRoom_ensures
  · exact filed.ring.pos
  · intro enough
    refine ⟨filed,fun _ => ?_⟩
    rw [filed.counted] at enough
    exact shouldGrow_spare enough
  · exact ⟨filed,nofun⟩
  · intro newCapacity full more given
    rw [given] at more
    obtain ⟨twice,m,power⟩ := filed.ring.grown more given
    refine rehash_filed lawful filed power (given ▸ more) fun memory => ?_
    rw [twice] at memory ⊢
    rwa [allocates,if_pos ⟨full,memory⟩] at fits

/-- A key that the table does not have goes where its probe ended. -/
theorem storeEntry_filed {key : κ} (value : ν) (room : entries.length + 1 < table.slots.length)
    (fresh : ∀ entry ∈ entries, keys.same entry.1 key = false) : Ensures (fun _ => False)
      (fun made : HashTable κ ν × Status =>
        Filed keys made.1 (if made.2 = none then entries ++ [(key,value)] else entries) ∧
        made.1.slots.length = table.slots.length ∧ (table.slots.length ≤ 2 ^ 31 → made.2 = none))
      (storeEntry keys key value (table,none)) := by
  refine Ensures.bind (filed.ring.findSlot_ensures filed.spare keys _ key) ?_
  rintro ⟨found,slot⟩ ⟨index,probed,numbered⟩
  dsimp only at probed numbered ⊢
  cases found with
  | true =>
    obtain ⟨entry,member,same,-,-⟩ := filed.present probed
    rw [fresh entry member] at same
    cases same
  | false =>
    have here := filed.empty probed
    have inside := filed.inside here
    rcases Nat.lt_or_ge index (2 ^ 31) with low | high
    · rw [numbered,slotNumber_small low,if_neg (by omega),if_neg Bool.false_ne_true,Int.toNat_natCast]
      exact ⟨@Filed.occupy _ _ _ lawful _ _ filed (key,value) _ room probed low,List.length_set ..,fun _ => rfl⟩
    · rw [numbered,if_pos (slotNumber_large high inside)]
      refine ⟨filed,rfl,fun small => absurd (List.getElem?_eq_some_iff.mp here).1 ?_⟩
      omega

/-- An insertion of a new key files it, or says why not. -/
theorem insert_filed {key : κ} {value : ν} {granted : Bool}
    (fits : allocates table (.insert key value granted) ≤ 2 ^ 31)
    (fresh : ∀ entry ∈ entries, keys.same entry.1 key = false) : Ensures (fun _ => False)
      (fun made : HashTable κ ν × Status => Filed keys made.1 (if made.2 = none then entries ++ [(key,value)] else entries))
      (insert keys table key value granted) := by
  rw [insert_stores]
  refine Ensures.bind (makeRoom_filed lawful filed fits) ?_
  rintro ⟨made,status⟩ ⟨grown,room⟩
  cases status with
  | some code => exact grown
  | none => exact (storeEntry_filed lawful grown value (room rfl) fresh).mono fun made stored => stored.1

/-- A table with slots enough takes a new key where it is. -/
theorem insert_taken {key : κ} (value : ν) (granted : Bool) (enough : shouldGrow table.capacity table.count = false)
    (small : table.slots.length ≤ 2 ^ 31) (fresh : ∀ entry ∈ entries, keys.same entry.1 key = false) :
    Ensures (fun _ => False) (fun made : HashTable κ ν × Status => made.2 = none ∧
      made.1.slots.length = table.slots.length ∧ Filed keys made.1 (entries ++ [(key,value)]))
      (insert keys table key value granted) := by
  have room := shouldGrow_spare enough
  rw [filed.counted] at room
  have sized : 0 < capacity table := filed.ring.pos
  rw [insert_stores,makeRoom_enough sized enough]
  refine (storeEntry_filed lawful filed value room fresh).mono ?_
  rintro ⟨made,status⟩ ⟨stored,sized,taken⟩
  obtain rfl := taken small
  exact ⟨rfl,sized,stored⟩

end

theorem create_filed {keySize valueSize initialCapacity : Nat} {granted : Bool} {table : HashTable κ ν}
    (created : create keySize valueSize initialCapacity granted = some table) (small : initialCapacity ≤ 2 ^ 32) :
    Filed keys table [] := by
  obtain ⟨n,power,rfl⟩ := create_fresh created
  exact filed_fresh power (firstCapacity_bounded small (by decide)) _ _

end HashTable
end Libnmo.Core
