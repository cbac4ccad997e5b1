import Libnmo.Core.HashTable
import Libnmo.Lib.KeyedEntries
import Libnmo.Lib.Machine

/-! The hash table as a finite map. As long as an `int` numbers every slot, a table is
found to hold for each key the value of the last insertion of the key that no removal
followed, through tombstones that insertions reuse and through each rehash. -/
namespace Libnmo.Core
open Lib OpenAddressing Hashing
open scoped List

namespace HashTable
variable {κ ν : Type} {keys : Keys κ}

/-- The value of the last insertion of the key among the calls, the newest first,
unless a removal of the key or a clear came after it. -/
def lastInsert (keys : Keys κ) (key : κ) : List (TableOp κ ν × TableAnswer ν) → Option ν
  | [] => none
  | (.insert other value _,.status none) :: older => if keys.same other key then some value else lastInsert keys key older
  | (.remove other,_) :: older => if keys.same other key then none else lastInsert keys key older
  | (.clear,_) :: _ => none
  | _ :: older => lastInsert keys key older

/-- The slots that a call allocates, if any. -/
def allocates (table : HashTable κ ν) : TableOp κ ν → Nat
  | .insert _ _ granted =>
    if shouldGrow table.capacity table.count ∧ (allocateStorage table (table.capacity * 2) granted).toOption.isSome then
      table.capacity * 2
    else 0
  | .reserve requested granted =>
    if table.capacity < requested ∧ (allocateStorage table (nextCapacity requested) granted).toOption.isSome then
      nextCapacity requested
    else 0
  | .get _ | .contains _ | .remove _ | .clear => 0

structure Sound (keys : Keys κ) (table : HashTable κ ν) : Prop where
  size : ∃ n, table.slots.length = 2 ^ (n + 4)
  small : table.slots.length ≤ 2 ^ 31
  kept : Kept keys (fun entry : κ × ν => some entry.1) table.slots
  count : table.count = (live table.slots).length

/-- A sound table with the entries of a map. -/
structure Refines (keys : Keys κ) (table : HashTable κ ν) (map : κ → Option ν) : Prop where
  sound : Sound keys table
  holds : keys.Holds (live table.slots) map

section
variable {table : HashTable κ ν} (sound : Sound keys table)
include sound

theorem Sound.ring : Ringed table.slots where
  size := sound.size
  low i slot here _ := Nat.lt_of_lt_of_le (List.getElem?_eq_some_iff.mp here).1 sound.small

/-- A slot that a probe reports is the one that its number names. -/
theorem Sound.number {i : Nat} {slot : Slot (κ × ν)} (here : table.slots[i]? = some slot) : slotNumber i = i :=
  slotNumber_small (Nat.lt_of_lt_of_le (List.getElem?_eq_some_iff.mp here).1 sound.small)

theorem Sound.set {i : Nat} {slot : Slot (κ × ν)} {count : Nat}
    (kept : Kept keys (fun entry : κ × ν => some entry.1) (table.slots.set i slot))
    (counted : count = (live (table.slots.set i slot)).length) :
    Sound keys { table with slots := table.slots.set i slot, count := count } where
  size := by
    rw [List.length_set]
    exact sound.size
  small := by
    rw [List.length_set]
    exact sound.small
  kept := kept
  count := counted

end

section
variable (lawful : keys.Lawful) {table : HashTable κ ν}
include lawful

theorem Sound.occupy (sound : Sound keys table) {key : κ} {index : Nat}
    (probed : find table.slots (hasKey keys (fun entry => some entry.1) key) (keys.hash key) = some (false,index))
    {entry : κ × ν} (keyed : entry.1 = key) :
    live (table.slots.set index (.occupied entry)) ~ entry :: live table.slots ∧
      Sound keys { table with slots := table.slots.set index (.occupied entry), count := table.count + 1 } := by
  obtain ⟨n,size⟩ := sound.size
  have free := (find_free size probed).free
  have entries : live (table.slots.set index (.occupied entry)) ~ entry :: live table.slots := by
    rcases free with empty | tombstone
    · exact live_set empty (.occupied entry)
    · exact live_set tombstone (.occupied entry)
  refine ⟨entries,sound.set (sound.kept.occupy lawful size probed (by rw [keyed])) ?_⟩
  rw [entries.length_eq,List.length_cons,sound.count]

theorem Sound.absent (sound : Sound keys table) {key : κ} {index : Nat}
    (probed : find table.slots (hasKey keys (fun entry => some entry.1) key) (keys.hash key) = some (false,index)) :
    ∀ entry ∈ live table.slots, keys.same entry.1 key = false := by
  obtain ⟨n,size⟩ := sound.size
  exact sound.kept.absent_entries lawful size probed

omit lawful in
theorem Sound.present (sound : Sound keys table) {key : κ} {index : Nat}
    (probed : find table.slots (hasKey keys (fun entry => some entry.1) key) (keys.hash key) = some (true,index)) :
    ∃ entry, table.slots[index]? = some (.occupied entry) ∧ keys.same entry.1 key = true := by
  obtain ⟨n,size⟩ := sound.size
  exact found_entry size probed

/-- One entry of the old slots, placed in the new ones. -/
theorem placeEntry_refines (sound : Sound keys table) {entry : κ × ν} {rest : List (κ × ν)}
    (apart : keys.Apart (live table.slots ++ entry :: rest)) : Ensures (fun _ => True) (fun placed : HashTable κ ν =>
      Sound keys placed ∧ placed.slots.length = table.slots.length ∧ live placed.slots ~ entry :: live table.slots)
      (placeEntry keys table entry) := by
  refine Ensures.bind (findSlot_answers keys _ entry.1) ?_
  rintro ⟨found,slot⟩ ⟨index,probed,numbered⟩
  dsimp only at probed numbered ⊢
  cases found with
  | true =>
    obtain ⟨other,here,same⟩ := sound.present probed
    have differs := (List.pairwise_append.mp apart).2.2 other (mem_live.mpr ⟨index,here⟩) entry List.mem_cons_self
    rw [same] at differs
    cases differs
  | false =>
    obtain ⟨n,size⟩ := sound.size
    have named : slot = index := by
      rcases (find_free size probed).free with empty | tombstone
      · rw [numbered,sound.number empty]
      · rw [numbered,sound.number tombstone]
    rw [if_neg (by omega),named,Int.toNat_natCast]
    obtain ⟨entries,placed⟩ := sound.occupy lawful probed rfl
    exact ⟨placed,List.length_set ..,entries⟩

omit lawful in
theorem sound_fresh {capacity n : Nat} (power : capacity = 2 ^ (n + 4)) (small : capacity ≤ 2 ^ 31)
    (keySize valueSize : Nat) : Sound keys (⟨keySize,valueSize,List.replicate capacity .empty,0⟩ : HashTable κ ν) where
  size := ⟨n,by rw [List.length_replicate,power]⟩
  small := by rwa [List.length_replicate]
  kept := kept_fresh capacity
  count := by rw [live_fresh,List.length_nil]

theorem rehash_refines {map : κ → Option ν} (refines : Refines keys table map) {newCapacity n : Nat} {granted : Bool}
    (power : newCapacity = 2 ^ (n + 4))
    (small : (allocateStorage table newCapacity granted).toOption.isSome → newCapacity ≤ 2 ^ 31) : Ensures (fun _ => True)
      (fun made : HashTable κ ν × Status => Refines keys made.1 map) (rehash keys granted table newCapacity) := by
  rw [rehash]
  cases allocated : allocateStorage table newCapacity granted with
  | error code => exact refines
  | ok fresh =>
    obtain rfl := allocateStorage_ok allocated
    have fits : newCapacity ≤ 2 ^ 31 := by
      apply small
      rw [allocated]
      rfl
    have apart := refines.sound.kept.apart
    refine Ensures.bind (Ensures.fold
      (fun rest filled => Sound keys filled ∧ live filled.slots ++ rest ~ live table.slots) ?_ ?_) ?_
    · rintro entry rest filled ⟨sound,same⟩
      refine (placeEntry_refines lawful sound (apart.perm lawful same.symm)).mono ?_
      rintro placed ⟨still,-,entries⟩
      refine ⟨still,.trans ?_ same⟩
      exact (entries.append_right rest).trans List.perm_middle.symm
    · refine ⟨sound_fresh power fits _ _,?_⟩
      rw [live_fresh,List.nil_append]
    · rintro filled ⟨sound,same⟩
      rw [List.append_nil] at same
      exact ⟨sound,refines.holds.perm same.symm⟩

theorem makeRoom_refines {map : κ → Option ν} (refines : Refines keys table map) {key : κ} {value : ν}
    {granted : Bool} (fits : allocates table (.insert key value granted) ≤ 2 ^ 31) : Ensures (fun _ => True)
      (fun made : HashTable κ ν × Status => Refines keys made.1 map)
      (makeRoom capacity count (rehash keys granted) table) := by
  apply makeRoom_ensures
  · exact refines.sound.ring.pos
  · exact fun _ => refines
  · exact refines
  · intro newCapacity full more given
    rw [given] at more
    obtain ⟨twice,m,power⟩ := refines.sound.ring.grown more given
    refine rehash_refines lawful refines power fun memory => ?_
    rw [twice] at memory ⊢
    rwa [allocates,if_pos ⟨full,memory⟩] at fits

theorem insert_refines {map : κ → Option ν} (refines : Refines keys table map) {key : κ} {value : ν}
    {granted : Bool} (fits : allocates table (.insert key value granted) ≤ 2 ^ 31) : Ensures (fun _ => True)
      (fun made : HashTable κ ν × Status => Refines keys made.1 fun k =>
        if made.2 = none ∧ keys.same key k = true then some value else map k)
      (insert keys table key value granted) := by
  refine Ensures.bind (makeRoom_refines lawful refines fits) ?_
  rintro ⟨made,status⟩ grown
  cases status with
  | some code => simpa using grown
  | none =>
    refine Ensures.bind (findSlot_answers keys _ key) ?_
    rintro ⟨found,slot⟩ ⟨index,probed,numbered⟩
    dsimp only at probed numbered grown ⊢
    obtain ⟨n,size⟩ := grown.sound.size
    cases found with
    | true =>
      obtain ⟨⟨existing,old⟩,here,same⟩ := grown.sound.present probed
      have named : slot = index := numbered.trans (grown.sound.number here)
      rw [if_neg (by omega),if_pos rfl,named,Int.toNat_natCast]
      simp only [here]
      obtain ⟨rest,split,entries⟩ := live_replace here (existing,value)
      refine ⟨grown.sound.set (grown.sound.kept.replace here rfl) ?_,?_⟩
      · rw [entries.length_eq,grown.sound.count,← split.length_eq]
        rfl
      · have replaced := grown.holds.replace lawful grown.sound.kept.apart split same value
        simpa using replaced.perm entries.symm
    | false =>
      have named : slot = index := by
        rcases (find_free size probed).free with empty | tombstone
        · exact numbered.trans (grown.sound.number empty)
        · exact numbered.trans (grown.sound.number tombstone)
      rw [if_neg (by omega),if_neg Bool.false_ne_true,named,Int.toNat_natCast]
      obtain ⟨entries,placed⟩ := grown.sound.occupy lawful probed (rfl : (key,value).1 = key)
      refine ⟨placed,?_⟩
      have added := grown.holds.cons lawful (a := (key,value)) (lawful.refl key) (grown.sound.absent lawful probed)
      simpa using added.perm entries.symm

theorem remove_refines {map : κ → Option ν} (refines : Refines keys table map) (key : κ) : Ensures (fun _ => True)
    (fun made : HashTable κ ν × Bool => Refines keys made.1 fun k => if keys.same key k then none else map k)
    (remove keys table key) := by
  refine Ensures.bind (findSlot_answers keys _ key) ?_
  rintro ⟨found,slot⟩ ⟨index,probed,numbered⟩
  dsimp only at probed numbered ⊢
  cases found with
  | true =>
    obtain ⟨entry,here,same⟩ := refines.sound.present probed
    have named : slot = index := numbered.trans (refines.sound.number here)
    rw [if_neg (by simp; omega),named,Int.toNat_natCast]
    have split := live_erase here
    refine ⟨refines.sound.set (refines.sound.kept.erase index) ?_,?_⟩
    · rw [refines.sound.count,← split.length_eq]
      rfl
    · exact refines.holds.erase lawful refines.sound.kept.apart split same
  | false =>
    rw [if_pos (Or.inr rfl)]
    refine ⟨refines.sound,fun k v => ?_⟩
    dsimp only
    split
    · rename_i same
      have absent := refines.holds.none fun entry member =>
        (lawful.congr same entry.1).symm.trans (refines.sound.absent lawful probed entry member)
      rw [← refines.holds k v,absent]
    · exact refines.holds k v

theorem reserve_refines {map : κ → Option ν} (refines : Refines keys table map) {requested : Nat} {granted : Bool}
    (fits : allocates table (.reserve requested granted) ≤ 2 ^ 31) : Ensures (fun _ => True)
      (fun made : HashTable κ ν × Status => Refines keys made.1 map) (reserve keys table requested granted) := by
  apply reserve_ensures
  · exact fun _ => refines
  · intro n more enough power
    refine rehash_refines lawful refines power fun memory => ?_
    rwa [allocates,if_pos ⟨more,memory⟩] at fits

omit lawful in
theorem clear_refines (sound : Sound keys table) : Refines keys (clear table) fun _ => none := by
  obtain ⟨n,size⟩ := sound.size
  refine ⟨sound_fresh size sound.small _ _,?_⟩
  rw [clear,live_fresh]
  exact Keys.holds_nil

/-- A lookup in a table with an empty slot ends: at the entry of the key, or without one. -/
theorem lookup_refines {β : Type} {next : Bool × Int → Result β} {wanted : β → Prop} {map : κ → Option ν}
    (refines : Refines keys table map) (room : 0 < vacant table.slots) {key : κ}
    (present : ∀ (entry : κ × ν) (index : Nat), table.slots[index]? = some (.occupied entry) → map key = some entry.2 →
      Ensures (fun _ => False) wanted (next (true,(index : Int))))
    (absent : ∀ slot, map key = none → Ensures (fun _ => False) wanted (next (false,slot))) :
    Ensures (fun _ => False) wanted (findSlot keys table key >>= next) := by
  refine Ensures.bind (refines.sound.ring.findSlot_ensures room keys _ key) ?_
  rintro ⟨found,slot⟩ ⟨index,probed,numbered⟩
  dsimp only at probed numbered ⊢
  cases found with
  | true =>
    obtain ⟨entry,here,same⟩ := refines.sound.present probed
    rw [numbered.trans (refines.sound.number here)]
    exact present entry index here ((refines.holds key entry.2).mpr ⟨entry,mem_live.mpr ⟨index,here⟩,same,rfl⟩)
  | false => exact absent slot (refines.holds.none (refines.sound.absent lawful probed))

theorem get_refines {map : κ → Option ν} (refines : Refines keys table map) (room : 0 < vacant table.slots) (key : κ) :
    get keys table key = .ok (map key) := by
  have ensured : Ensures (fun _ => False) (fun value => value = map key) (get keys table key) := by
    refine lookup_refines lawful refines room (fun entry index here value => ?_) fun slot none => ?_
    · dsimp only
      rw [if_neg (by simp),Int.toNat_natCast,here,value]
      rfl
    · dsimp only
      rw [if_pos (Or.inr rfl),none]
      rfl
  obtain ⟨value,returned,rfl⟩ := ensured.total
  exact returned

theorem contains_refines {map : κ → Option ν} (refines : Refines keys table map) (room : 0 < vacant table.slots)
    (key : κ) : contains keys table key = .ok (map key).isSome := by
  have ensured : Ensures (fun _ => False) (fun found => found = (map key).isSome) (contains keys table key) := by
    refine lookup_refines lawful refines room (fun entry index _ value => ?_) fun slot none => ?_
    · rw [value]
      simp
    · rw [none]
      simp
  obtain ⟨found,returned,rfl⟩ := ensured.total
  exact returned

/-- The number of keys with a value, counting keys taken as the same once. -/
def Counts (keys : Keys κ) (map : κ → Option ν) (n : Nat) : Prop :=
  ∃ representatives : List κ, (representatives.Pairwise fun k l => keys.same k l = false) ∧
    (∀ k, (map k).isSome ↔ ∃ l ∈ representatives, keys.same l k = true) ∧ n = representatives.length

omit lawful in
theorem Refines.counts {map : κ → Option ν} (refines : Refines keys table map) : Counts keys map table.count := by
  refine ⟨(live table.slots).map Prod.fst,?_,?_,?_⟩
  · exact List.pairwise_map.mpr refines.sound.kept.apart
  · intro k
    rw [Option.isSome_iff_exists]
    constructor
    · rintro ⟨v,value⟩
      obtain ⟨entry,member,same,-⟩ := (refines.holds k v).mp value
      exact ⟨entry.1,List.mem_map_of_mem member,same⟩
    · rintro ⟨l,member,same⟩
      obtain ⟨entry,inside,rfl⟩ := List.mem_map.mp member
      exact ⟨entry.2,(refines.holds k entry.2).mpr ⟨entry,inside,same,rfl⟩⟩
  · rw [List.length_map,refines.sound.count]

theorem call_refines {older : List (TableOp κ ν × TableAnswer ν)} {op : TableOp κ ν}
    (refines : Refines keys table fun k => lastInsert keys k older) (fits : allocates table op ≤ 2 ^ 31) :
    Ensures (fun _ => True) (fun made : HashTable κ ν × TableAnswer ν =>
      Refines keys made.1 fun k => lastInsert keys k ((op,made.2) :: older)) (call keys table op) := by
  cases op with
  | insert key value granted =>
    refine Ensures.bind (insert_refines lawful refines fits) ?_
    rintro ⟨made,status⟩ kept
    cases status with
    | none => simpa [lastInsert] using kept
    | some code => simpa [lastInsert] using kept
  | get key =>
    cases got : get keys table key with
    | error stop => simp [call,got,bind,Except.bind]
    | ok value => simpa [call,got,bind,Except.bind,lastInsert] using refines
  | contains key =>
    cases got : contains keys table key with
    | error stop => simp [call,got,bind,Except.bind]
    | ok found => simpa [call,got,bind,Except.bind,lastInsert] using refines
  | remove key => exact Ensures.bind (remove_refines lawful refines key) fun made kept => kept
  | reserve requested granted =>
    refine Ensures.bind (reserve_refines lawful refines fits) ?_
    rintro ⟨made,status⟩ kept
    exact kept
  | clear => exact clear_refines refines.sound

theorem create_refines {keySize valueSize initialCapacity : Nat} {granted : Bool} {table : HashTable κ ν}
    (created : create keySize valueSize initialCapacity granted = some table) (small : table.capacity ≤ 2 ^ 31) :
    Refines keys table fun _ => none := by
  obtain ⟨n,power,rfl⟩ := create_fresh created
  rw [capacity,List.length_replicate] at small
  refine ⟨sound_fresh power small _ _,?_⟩
  rw [live_fresh]
  exact Keys.holds_nil

theorem reached_refines (refines : Refines keys table fun _ => none) {log : List (TableOp κ ν × TableAnswer ν)}
    {last : HashTable κ ν} (reached : Reached (call keys) (fun table op => allocates table op ≤ 2 ^ 31) table log last) :
    Refines keys last fun k => lastInsert keys k log.reverse := by
  induction reached with
  | start => exact refines
  | call before fits returned ih =>
    rw [List.reverse_concat]
    exact (call_refines lawful ih fits).of_ok returned

end

end HashTable

/-- A table whose slots an `int` can number is a finite map: while a slot is empty, a
lookup returns the value of the last insertion of its key that no removal followed,
and the count is the number of keys with a value. -/
theorem table_is_map {κ ν : Type} {keys : Keys κ} (lawful : keys.Lawful)
    {keySize valueSize initialCapacity : Nat} {granted : Bool} {table last : HashTable κ ν}
    (created : HashTable.create keySize valueSize initialCapacity granted = some table)
    (small : table.capacity ≤ 2 ^ 31) {log : List (TableOp κ ν × TableAnswer ν)}
    (reached : Reached (HashTable.call keys) (fun table op => table.allocates op ≤ 2 ^ 31) table log last)
    (spare : ∃ i : Nat, last.slots[i]? = some .empty) :
    (∀ key, HashTable.get keys last key = .ok (HashTable.lastInsert keys key log.reverse)) ∧
    (∀ key, HashTable.contains keys last key = .ok (HashTable.lastInsert keys key log.reverse).isSome) ∧
    HashTable.Counts keys (fun key => HashTable.lastInsert keys key log.reverse) last.count := by
  have refines := HashTable.reached_refines lawful (HashTable.create_refines lawful created small) reached
  have room := vacant_pos.mpr spare
  exact ⟨HashTable.get_refines lawful refines room,HashTable.contains_refines lawful refines room,refines.counts⟩

theorem table_is_map_some : ∃ last : HashTable UInt32 UInt32,
    HashTable.call wordKeys ⟨4,4,List.replicate 16 .empty,0⟩ (.insert 7 9 true) = .ok (last,.status none) ∧
    HashTable.get wordKeys last 7 = .ok (some 9) := by
  let table : HashTable UInt32 UInt32 := ⟨4,4,List.replicate 16 .empty,0⟩
  let last : HashTable UInt32 UInt32 := ⟨4,4,(List.replicate 16 .empty).set 7 (.occupied (7,9)),1⟩
  have returned : HashTable.call wordKeys table (.insert 7 9 true) = .ok (last,.status none) := by decide +kernel
  have run : Reached (HashTable.call wordKeys) (fun table op => table.allocates op ≤ 2 ^ 31) table
      [(.insert 7 9 true,.status none)] last := Reached.start.call (by decide +kernel) returned
  exact ⟨last,returned,(table_is_map wordKeys_lawful (rfl : HashTable.create 4 4 0 true = some table)
    (by decide +kernel) run ⟨0,by decide +kernel⟩).1 7⟩

namespace HashTable
variable {κ ν : Type} {keys : Keys κ} {table : HashTable κ ν} {n index : Nat} {number : Int} (inside : index < n)
  (numbered : slotNumber index = number) (negative : number < 0)
include inside numbered negative

/-- A rehash drops an entry whose new slot is a negative `int`. -/
theorem rehash_drops {entry : κ × ν} (one : live table.slots = [entry]) (home : keys.hash entry.1 &&& (n - 1) = index)
    (allocated : allocateStorage table n true = .ok { table with slots := List.replicate n .empty, count := 0 }) :
    rehash keys true table n = .ok ({ table with slots := List.replicate n .empty, count := 0 },none) := by
  have placed : placeEntry keys { table with slots := List.replicate n .empty, count := 0 } entry =
      .ok { table with slots := List.replicate n .empty, count := 0 } := by
    rw [placeEntry,findSlot,findSlot_home keys _ (fresh_home inside) (by rwa [List.length_replicate]) numbered]
    exact if_pos negative
  rw [rehash,allocated]
  dsimp only
  rw [one,List.foldlM_cons,placed]
  rfl

theorem get_fresh {key : κ} (home : keys.hash key &&& (n - 1) = index) (keySize valueSize count : Nat) :
    get keys (⟨keySize,valueSize,List.replicate n .empty,count⟩ : HashTable κ ν) key = .ok none := by
  rw [get,findSlot,findSlot_home keys _ (fresh_home inside) (by rwa [List.length_replicate]) numbered]
  exact if_pos (Or.inl negative)

end HashTable

/-- After the insertion of key 1, whose hash exceeds `2 ^ 31`, a reserve of that many
slots loses it. -/
theorem table_loses_key : wordKeys.Lawful ∧ ∃ (table last : HashTable UInt32 UInt32) (log : _),
    HashTable.create 4 4 0 true = some table ∧
    Reached (HashTable.call wordKeys) (fun _ _ => True) table log last ∧ (∃ i : Nat, last.slots[i]? = some .empty) ∧
    HashTable.get wordKeys last 1 = .ok none ∧ HashTable.lastInsert wordKeys 1 log.reverse = some 9 := by
  let table : HashTable UInt32 UInt32 := ⟨4,4,List.replicate 16 .empty,0⟩
  let filled : HashTable UInt32 UInt32 := ⟨4,4,(List.replicate 16 .empty).set 1 (.occupied (1,9)),1⟩
  have inserted : HashTable.call wordKeys table (.insert 1 9 true) = .ok (filled,.status none) := by decide +kernel
  obtain ⟨n,size⟩ : ∃ n : Nat, n = 2 ^ 32 := ⟨_,rfl⟩
  have numbered : slotNumber 2654435761 = -1640531535 := by decide +kernel
  have home : wordKeys.hash 1 &&& (n - 1) = 2654435761 := by
    rw [size]
    decide +kernel
  have inside : 2654435761 < n := by omega
  have requested : nextCapacity (2 ^ 31 + 1) = n := by
    rw [size]
    decide +kernel
  have allocated : HashTable.allocateStorage filled n true = .ok ⟨4,4,List.replicate n .empty,0⟩ := by
    have few : n ≤ sizeMax / 4 := by
      rw [size]
      decide +kernel
    rw [HashTable.allocateStorage,if_neg (by omega),if_neg fun large => absurd large.2 (Nat.not_lt.mpr few),
      if_neg fun large => absurd large.2 (Nat.not_lt.mpr few),if_pos rfl]
  have reserved : HashTable.call wordKeys filled (.reserve (2 ^ 31 + 1) true) =
      .ok (⟨4,4,List.replicate n .empty,0⟩,.status none) := by
    have one : live filled.slots = [(1,9)] := by decide +kernel
    have rehashed := HashTable.rehash_drops inside numbered (by decide) one home allocated
    rw [HashTable.call,HashTable.reserve,reserve,if_neg (by decide +kernel)]
    dsimp only
    rw [requested,if_neg (by omega),rehashed]
    rfl
  refine ⟨wordKeys_lawful,table,⟨4,4,List.replicate n .empty,0⟩,_,rfl,
    (Reached.start.call trivial inserted).call trivial reserved,⟨0,?_⟩,
    HashTable.get_fresh inside numbered (by decide) home 4 4 0,by decide +kernel⟩
  rw [List.getElem?_replicate,if_pos (by omega)]

end Libnmo.Core
