import Libnmo.Core.IndexedMap
import Libnmo.Lib.Machine

/-! The two halves of the indexed map. As long as an `int` numbers every slot, the
occupied slots and the dense entries point at each other, through growth, through
each rehash and through removals that move the last entry. -/
namespace Libnmo.Core
open Lib OpenAddressing Hashing

namespace IndexedMap
variable {κ ν : Type} {keys : Keys κ}

/-- Occupied slots and dense entries are in bijection: a slot points at an entry, and
the one slot that points at an entry is what the probe for its key finds. -/
structure Linked (keys : Keys κ) (map : IndexedMap κ ν) : Prop where
  points : ∀ i j : Nat, map.slots[i]? = some (.occupied j) → j < map.dense.length
  reached : ∀ (j : Nat) k, keyAt map.dense j = some k → ∃! i : Nat, map.slots[i]? = some (.occupied j) ∧
    findSlot keys map k = .ok (true,(i : Int))
  distinct : ∀ (j j' : Nat) k k', keyAt map.dense j = some k → keyAt map.dense j' = some k' →
    keys.same k k' = true → j = j'

/-- The slots that a call allocates, if any. -/
def allocates (map : IndexedMap κ ν) : MapOp κ ν → Nat
  | .insert _ _ granted _ => if shouldGrow map.capacity map.count ∧ granted then map.capacity * 2 else 0
  | .get _ | .contains _ | .remove _ | .clear => 0

structure Sound (keys : Keys κ) (map : IndexedMap κ ν) : Prop where
  size : ∃ n, map.slots.length = 2 ^ (n + 4)
  small : map.slots.length ≤ 2 ^ 31
  kept : Kept keys (keyAt map.dense) map.slots
  points : ∀ i j : Nat, map.slots[i]? = some (.occupied j) → j < map.dense.length
  covers : ∀ j < map.dense.length, ∃ i : Nat, map.slots[i]? = some (.occupied j)

theorem keyAt_lt {dense : List (κ × ν)} {j : Nat} : (∃ k, keyAt dense j = some k) ↔ j < dense.length := by
  rw [← Option.isSome_iff_exists,keyAt,Option.isSome_map]
  simp

section
variable {map : IndexedMap κ ν} (sound : Sound keys map)
include sound

theorem Sound.ring : Ringed map.slots where
  size := sound.size
  low _ _ here _ := Nat.lt_of_lt_of_le (List.getElem?_eq_some_iff.mp here).1 sound.small

theorem Sound.number {i : Nat} {slot : Slot Nat} (here : map.slots[i]? = some slot) : slotNumber i = i :=
  slotNumber_small (Nat.lt_of_lt_of_le (List.getElem?_eq_some_iff.mp here).1 sound.small)

theorem Sound.distinct {j j' : Nat} {k k' : κ} (first : keyAt map.dense j = some k)
    (second : keyAt map.dense j' = some k') (same : keys.same k k' = true) : j = j' := by
  obtain ⟨i,here⟩ := sound.covers j (keyAt_lt.mp ⟨k,first⟩)
  obtain ⟨i',there⟩ := sound.covers j' (keyAt_lt.mp ⟨k',second⟩)
  have slot := sound.kept.alone i i' j j' k k' here there first second same
  rw [slot,there] at here
  cases here
  rfl

variable (lawful : keys.Lawful)
include lawful

/-- One slot only points at an entry. -/
theorem Sound.single {i i' j : Nat} (here : map.slots[i]? = some (.occupied j))
    (there : map.slots[i']? = some (.occupied j)) : i = i' := by
  obtain ⟨k,keyed⟩ := keyAt_lt.mpr (sound.points i j here)
  exact sound.kept.alone i i' j j k k here there keyed keyed (lawful.refl k)

theorem Sound.linked : Linked keys map where
  points := sound.points
  reached j k keyed := by
    obtain ⟨i,here⟩ := sound.covers j (keyAt_lt.mp ⟨k,keyed⟩)
    obtain ⟨n,size⟩ := sound.size
    refine ⟨i,⟨here,?_⟩,fun other there => sound.single lawful there.1 here⟩
    rw [findSlot,Hashing.findSlot,sound.kept.find_present lawful size here keyed (lawful.refl k)]
    dsimp only
    rw [sound.number here]
  distinct j j' k k' first second same := sound.distinct first second same

end

theorem keyAt_modify (dense : List (κ × ν)) (j : Nat) (value : ν) (j' : Nat) :
    keyAt (dense.modify j fun entry => (entry.1,value)) j' = keyAt dense j' := by
  rw [keyAt,keyAt,List.getElem?_modify]
  cases dense[j']? with
  | none => rfl
  | some entry =>
    change some (if j = j' then (entry.1,value) else entry).1 = some entry.1
    split <;> rfl

/-- A map of which the first dense entries have slots. -/
structure Filling (keys : Keys κ) (dense : List (κ × ν)) (capacity : Nat) (placed : Nat) (map : IndexedMap κ ν) : Prop where
  entries : map.dense = dense
  length : map.slots.length = capacity
  kept : Kept keys (keyAt dense) map.slots
  points : ∀ i j : Nat, map.slots[i]? = some (.occupied j) → j < placed
  covers : ∀ j < placed, ∃ i : Nat, map.slots[i]? = some (.occupied j)

section
variable (lawful : keys.Lawful)
include lawful

theorem placeIndex_fills {dense : List (κ × ν)} {capacity n placed : Nat} {map : IndexedMap κ ν}
    (filling : Filling keys dense capacity placed map) (power : capacity = 2 ^ (n + 4)) (small : capacity ≤ 2 ^ 31)
    (apart : ∀ (j j' : Nat) k k', keyAt dense j = some k → keyAt dense j' = some k' → keys.same k k' = true → j = j')
    {entry : κ × ν} (here : dense[placed]? = some entry) : Ensures (fun _ => True)
      (Filling keys dense capacity (placed + 1)) (placeIndex keys map (entry,placed)) := by
  have size : map.slots.length = 2 ^ (n + 4) := filling.length.trans power
  have keyed : keyAt dense placed = some entry.1 := by rw [keyAt,here,Option.map_some]
  refine Ensures.bind (findSlot_answers keys _ entry.1) ?_
  rintro ⟨found,slot⟩ ⟨index,probed,numbered⟩
  dsimp only at probed numbered ⊢
  rw [filling.entries] at probed
  cases found with
  | true =>
    obtain ⟨-,j,there,equal⟩ := find_found size probed
    obtain ⟨k,other,same⟩ := hasKey_iff.mp equal
    have before := filling.points index j there
    have collides := apart j placed k entry.1 other keyed same
    omega
  | false =>
    have free := (find_free size probed).free
    obtain ⟨slotWas,was,empty⟩ : ∃ old, map.slots[index]? = some old ∧ ∀ j, old ≠ .occupied j := by
      rcases free with empty | tombstone
      · exact ⟨_,empty,nofun⟩
      · exact ⟨_,tombstone,nofun⟩
    have inside := (List.getElem?_eq_some_iff.mp was).1
    have named : slot = index :=
      numbered.trans (slotNumber_small (Nat.lt_of_lt_of_le inside (filling.length ▸ small)))
    rw [if_neg (by omega),named,Int.toNat_natCast]
    refine ⟨filling.entries,?_,filling.kept.occupy lawful size probed keyed,?_,?_⟩
    · rw [List.length_set]
      exact filling.length
    · intro i j occupied
      rcases occupied_set occupied with ⟨-,⟨⟩⟩ | ⟨-,old⟩
      · exact Nat.lt_succ_self placed
      · exact Nat.lt_succ_of_lt (filling.points i j old)
    · intro j before
      cases Nat.lt_succ_iff_lt_or_eq.mp before with
      | inl earlier =>
        obtain ⟨i,there⟩ := filling.covers j earlier
        refine ⟨i,?_⟩
        rw [List.getElem?_set_ne]
        · exact there
        · rintro rfl
          rw [was] at there
          exact empty j (Option.some.inj there)
      | inr equal =>
        refine ⟨index,?_⟩
        rw [equal,List.getElem?_set_self inside]

theorem rehash_sound {map : IndexedMap κ ν} (sound : Sound keys map) {newCapacity n : Nat} {granted : Bool}
    (power : newCapacity = 2 ^ (n + 4)) (small : granted = true → newCapacity ≤ 2 ^ 31) : Ensures (fun _ => True)
      (fun made : IndexedMap κ ν × Status => Sound keys made.1) (rehash keys granted map newCapacity) := by
  rw [rehash]
  cases allocated : allocateHash map newCapacity granted with
  | error code => exact sound
  | ok fresh =>
    obtain ⟨rfl,memory⟩ := allocateHash_ok allocated
    have fits := small memory
    refine Ensures.bind (Ensures.fold (fun rest filled => ∃ placed ≤ map.dense.length,
      rest = (map.dense.drop placed).zipIdx placed ∧ Filling keys map.dense newCapacity placed filled) ?_ ?_) ?_
    · rintro item rest filled ⟨placed,-,left,filling⟩
      cases remaining : map.dense.drop placed with
      | nil =>
        rw [remaining] at left
        cases left
      | cons entry later =>
        rw [remaining,List.zipIdx_cons] at left
        obtain ⟨rfl,rfl⟩ := List.cons.inj left
        have here : map.dense[placed]? = some entry := by
          rw [← List.head?_drop,remaining,List.head?_cons]
        have following : later = map.dense.drop (placed + 1) := by
          rw [← List.tail_drop,remaining,List.tail_cons]
        refine (placeIndex_fills lawful filling power fits (fun _ _ _ _ => sound.distinct) here).mono ?_
        intro placedMap grown
        exact ⟨placed + 1,(List.getElem?_eq_some_iff.mp here).1,by rw [following],grown⟩
    · refine ⟨0,Nat.zero_le _,by rw [List.drop_zero],rfl,List.length_replicate,kept_fresh newCapacity,?_,
        fun j before => absurd before (Nat.not_lt_zero j)⟩
      intro i j here
      simp [List.getElem?_replicate] at here
    · rintro filled ⟨placed,within,left,filling⟩
      have all : placed = map.dense.length := by
        have none : map.dense.length - placed = 0 := by
          rw [← List.length_drop,← List.length_zipIdx (i := placed),← left,List.length_nil]
        omega
      rw [all] at filling
      refine ⟨⟨n,filling.length.trans power⟩,filling.length.trans_le fits,?_,?_,?_⟩
      · rw [filling.entries]
        exact filling.kept
      · rw [filling.entries]
        exact filling.points
      · rw [filling.entries]
        exact filling.covers

theorem makeRoom_sound {map : IndexedMap κ ν} (sound : Sound keys map) {key : κ} {value : ν}
    {granted grantedDense : Bool} (fits : allocates map (.insert key value granted grantedDense) ≤ 2 ^ 31) :
    Ensures (fun _ => True) (fun made : IndexedMap κ ν × Status => Sound keys made.1)
      (makeRoom capacity count (rehash keys granted) map) := by
  apply makeRoom_ensures
  · exact sound.ring.pos
  · exact fun _ => sound
  · exact sound
  · intro newCapacity full more given
    rw [given] at more
    obtain ⟨twice,m,power⟩ := sound.ring.grown more given
    refine rehash_sound lawful sound power fun memory => ?_
    rw [twice]
    rwa [allocates,if_pos ⟨full,memory⟩] at fits

theorem insertAt_sound {map : IndexedMap κ ν} (sound : Sound keys map) {key : κ} (value : ν) {found : Bool}
    {index : Nat} (probed : find map.slots (hasKey keys (keyAt map.dense) key) (keys.hash key) = some (found,index)) :
    Ensures (fun _ => True) (Sound keys) (insertAt map key value found index) := by
  obtain ⟨n,size⟩ := sound.size
  rw [insertAt]
  cases found with
  | true =>
    rw [if_pos rfl]
    split
    · rename_i j here
      have same : keyAt (map.dense.modify j fun entry => (entry.1,value)) = keyAt map.dense :=
        funext (keyAt_modify map.dense j value)
      refine ⟨sound.size,sound.small,?_,?_,?_⟩
      · rw [same]
        exact sound.kept
      · simpa using sound.points
      · simpa using sound.covers
    · trivial
  | false =>
    rw [if_neg Bool.false_ne_true]
    have old (j : Nat) (inside : j < map.dense.length) : keyAt (map.dense ++ [(key,value)]) j = keyAt map.dense j := by
      rw [keyAt,keyAt,List.getElem?_append_left inside]
    have new : keyAt (map.dense ++ [(key,value)]) map.dense.length = some key := by simp [keyAt]
    have kept : Kept keys (keyAt (map.dense ++ [(key,value)])) map.slots := by
      refine sound.kept.shrink rfl (fun _ empty => empty) fun i j k here keyed => ⟨j,here,?_⟩
      rw [← old j (sound.points i j here)]
      exact keyed
    have again : find map.slots (hasKey keys (keyAt (map.dense ++ [(key,value)])) key) (keys.hash key) =
        some (false,index) := by
      rw [← probed,find,find]
      refine probe_congr (fun i j here => ?_) _ _ _
      rw [hasKey,hasKey,old j (sound.points i j here)]
    have free := (find_free size again).free
    have inside : index < map.slots.length := by
      rcases free with empty | tombstone
      · exact (List.getElem?_eq_some_iff.mp empty).1
      · exact (List.getElem?_eq_some_iff.mp tombstone).1
    refine ⟨?_,?_,kept.occupy lawful size again new,?_,?_⟩
    · rw [List.length_set]
      exact sound.size
    · rw [List.length_set]
      exact sound.small
    · intro i j occupied
      rw [List.length_append,List.length_singleton]
      rcases occupied_set occupied with ⟨-,⟨⟩⟩ | ⟨-,was⟩
      · exact Nat.lt_succ_self _
      · exact Nat.lt_succ_of_lt (sound.points i j was)
    · intro j before
      rw [List.length_append,List.length_singleton] at before
      cases Nat.lt_succ_iff_lt_or_eq.mp before with
      | inl earlier =>
        obtain ⟨i,there⟩ := sound.covers j earlier
        refine ⟨i,?_⟩
        rw [List.getElem?_set_ne]
        · exact there
        · rintro rfl
          rw [there] at free
          simp at free
      | inr equal =>
        refine ⟨index,?_⟩
        rw [equal,List.getElem?_set_self inside]

theorem insert_sound {map : IndexedMap κ ν} (sound : Sound keys map) {key : κ} {value : ν}
    {granted grantedDense : Bool} (fits : allocates map (.insert key value granted grantedDense) ≤ 2 ^ 31) :
    Ensures (fun _ => True) (fun made : IndexedMap κ ν × Status => Sound keys made.1)
      (insert keys map key value granted grantedDense) := by
  refine Ensures.bind (makeRoom_sound lawful sound fits) ?_
  rintro ⟨made,status⟩ grown
  cases status with
  | some code => exact grown
  | none =>
    cases grew : (if made.arrayCapacity ≤ made.dense.length then growDense made grantedDense else .ok made) with
    | error code =>
      simp only [grew]
      exact grown
    | ok wide =>
      have same : wide.slots = made.slots ∧ wide.dense = made.dense := by
        split at grew
        · exact growDense_ok grew
        · cases grew
          exact ⟨rfl,rfl⟩
      have kept : Sound keys wide := by
        refine ⟨?_,?_,?_,?_,?_⟩ <;> simp only [same]
        · exact grown.size
        · exact grown.small
        · exact grown.kept
        · exact grown.points
        · exact grown.covers
      simp only [grew]
      refine Ensures.bind (findSlot_answers keys _ key) ?_
      rintro ⟨found,slot⟩ ⟨index,probed,numbered⟩
      dsimp only at probed numbered ⊢
      split
      · exact kept
      · have inside : index < wide.slots.length := by
          obtain ⟨n,size⟩ := kept.size
          cases found with
          | true =>
            obtain ⟨-,j,here,-⟩ := find_found size probed
            exact (List.getElem?_eq_some_iff.mp here).1
          | false =>
            rcases (find_free size probed).free with empty | tombstone
            · exact (List.getElem?_eq_some_iff.mp empty).1
            · exact (List.getElem?_eq_some_iff.mp tombstone).1
        have named : slot = index := numbered.trans (slotNumber_small (Nat.lt_of_lt_of_le inside kept.small))
        rw [named,Int.toNat_natCast]
        exact Ensures.bind (insertAt_sound lawful kept value probed) fun _ made' => made'

/-- The last entry is gone: the slots but one point where they did. -/
theorem removeLast_sound {map : IndexedMap κ ν} (sound : Sound keys map) {slot : Nat}
    (here : map.slots[slot]? = some (.occupied (map.dense.length - 1))) :
    Sound keys { map with slots := map.slots.set slot .tombstone, dense := map.dense.dropLast } := by
  have old (j : Nat) (inside : j < map.dense.length - 1) : keyAt map.dense.dropLast j = keyAt map.dense j := by
    rw [keyAt,keyAt,List.getElem?_dropLast,if_pos inside]
  have shorter (i j : Nat) (occupied : (map.slots.set slot .tombstone)[i]? = some (.occupied j)) :
      map.slots[i]? = some (.occupied j) ∧ j < map.dense.length - 1 := by
    rcases occupied_set occupied with ⟨-,⟨⟩⟩ | ⟨differs,was⟩
    have before := sound.points i j was
    refine ⟨was,Nat.lt_of_le_of_ne (Nat.le_sub_one_of_lt before) ?_⟩
    rintro rfl
    exact differs (sound.single lawful here was)
  refine ⟨?_,?_,?_,?_,?_⟩
  · rw [List.length_set]
    exact sound.size
  · rw [List.length_set]
    exact sound.small
  · refine sound.kept.shrink (List.length_set ..) (fun _ => empty_set nofun) fun i j k occupied keyed => ?_
    obtain ⟨was,before⟩ := shorter i j occupied
    rw [old j before] at keyed
    exact ⟨j,was,keyed⟩
  · intro i j occupied
    rw [List.length_dropLast]
    exact (shorter i j occupied).2
  · intro j before
    rw [List.length_dropLast] at before
    obtain ⟨i,there⟩ := sound.covers j (Nat.lt_of_lt_pred before)
    refine ⟨i,?_⟩
    rw [List.getElem?_set_ne]
    · exact there
    · rintro rfl
      rw [here] at there
      cases there
      exact absurd before (Nat.lt_irrefl _)

/-- An entry is gone and the last one took its place, in the slot that pointed at it too. -/
theorem removeSwap_sound {map : IndexedMap κ ν} (sound : Sound keys map) {slot lastSlot j : Nat} {last : κ × ν}
    (here : map.slots[slot]? = some (.occupied j)) (earlier : j ≠ map.dense.length - 1)
    (there : map.slots[lastSlot]? = some (.occupied (map.dense.length - 1)))
    (final : map.dense[map.dense.length - 1]? = some last) :
    Sound keys { map with
      slots := (map.slots.set lastSlot (.occupied j)).set slot .tombstone
      dense := (map.dense.set j last).dropLast } := by
  have inside := sound.points slot j here
  have before : j < map.dense.length - 1 := Nat.lt_of_le_of_ne (Nat.le_sub_one_of_lt inside) earlier
  have apart : lastSlot ≠ slot := by
    rintro rfl
    rw [here] at there
    cases there
    exact earlier rfl
  have moved : keyAt (map.dense.set j last).dropLast j = keyAt map.dense (map.dense.length - 1) := by
    rw [keyAt,keyAt,List.getElem?_dropLast,List.length_set,if_pos before,List.getElem?_set_self inside,final]
  have old (m : Nat) (short : m < map.dense.length - 1) (differs : m ≠ j) :
      keyAt (map.dense.set j last).dropLast m = keyAt map.dense m := by
    rw [keyAt,keyAt,List.getElem?_dropLast,List.length_set,if_pos short,List.getElem?_set_ne differs.symm]
  -- An occupied slot is the one that was redirected, or points where it did.
  have split (i m : Nat) (occupied : ((map.slots.set lastSlot (.occupied j)).set slot .tombstone)[i]? = some (.occupied m)) :
      (i = lastSlot ∧ m = j) ∨ (map.slots[i]? = some (.occupied m) ∧ m < map.dense.length - 1 ∧ m ≠ j) := by
    rcases occupied_set occupied with ⟨-,⟨⟩⟩ | ⟨notSlot,redirected⟩
    rcases occupied_set redirected with ⟨rfl,⟨⟩⟩ | ⟨notLast,was⟩
    · exact Or.inl ⟨rfl,rfl⟩
    · have bound := sound.points i m was
      refine Or.inr ⟨was,Nat.lt_of_le_of_ne (Nat.le_sub_one_of_lt bound) ?_,?_⟩
      · rintro rfl
        exact notLast (sound.single lawful there was)
      · rintro rfl
        exact notSlot (sound.single lawful here was)
  refine ⟨?_,?_,?_,?_,?_⟩
  · rw [List.length_set,List.length_set]
    exact sound.size
  · rw [List.length_set,List.length_set]
    exact sound.small
  · refine sound.kept.shrink (by rw [List.length_set,List.length_set]) ?_ fun i m k occupied keyed => ?_
    · have full : Slot.occupied j ≠ .empty := nofun
      have gone : (Slot.tombstone : Slot Nat) ≠ .empty := nofun
      exact fun i empty => empty_set full (empty_set gone empty)
    · rcases split i m occupied with ⟨rfl,rfl⟩ | ⟨was,short,differs⟩
      · rw [moved] at keyed
        exact ⟨_,there,keyed⟩
      · rw [old m short differs] at keyed
        exact ⟨m,was,keyed⟩
  · intro i m occupied
    rw [List.length_dropLast,List.length_set]
    rcases split i m occupied with ⟨-,rfl⟩ | ⟨-,short,-⟩
    · exact before
    · exact short
  · intro m short
    rw [List.length_dropLast,List.length_set] at short
    by_cases same : m = j
    · refine ⟨lastSlot,?_⟩
      rw [List.getElem?_set_ne apart.symm,same,
        List.getElem?_set_self (List.getElem?_eq_some_iff.mp there).1]
    · obtain ⟨i,was⟩ := sound.covers m (Nat.lt_of_lt_pred short)
      refine ⟨i,?_⟩
      rw [List.getElem?_set_ne,List.getElem?_set_ne]
      · exact was
      · rintro rfl
        rw [there] at was
        cases was
        exact absurd short (Nat.lt_irrefl _)
      · rintro rfl
        rw [here] at was
        cases was
        exact same rfl

theorem removeAt_sound {map : IndexedMap κ ν} (sound : Sound keys map) {slot j : Nat}
    (here : map.slots[slot]? = some (.occupied j)) : Ensures (fun _ => True) (Sound keys) (removeAt map slot j) := by
  have inside := sound.points slot j here
  have final : map.dense.length - 1 < map.dense.length := Nat.sub_lt (Nat.zero_lt_of_lt inside) Nat.one_pos
  obtain ⟨lastSlot,there⟩ := sound.covers _ final
  have found : slotForDense map (map.dense.length - 1) = some lastSlot := by
    rw [slotForDense,List.findIdx?_eq_some_iff_getElem]
    obtain ⟨within,entry⟩ := List.getElem?_eq_some_iff.mp there
    refine ⟨within,by rw [entry]; exact beq_self_eq_true _,fun i before => ?_⟩
    intro same
    have other : map.slots[i]? = some (.occupied (map.dense.length - 1)) := by
      rw [List.getElem?_eq_getElem (Nat.lt_trans before within),Slot.held_iff.mp (eq_of_beq same)]
    have equal := sound.single lawful other there
    omega
  rw [removeAt]
  dsimp only
  rw [List.getElem?_eq_getElem final]
  dsimp only
  split
  · rename_i earlier
    rw [found]
    dsimp only
    rw [sound.number there,if_pos (Int.natCast_nonneg lastSlot),Int.toNat_natCast]
    exact removeSwap_sound lawful sound here earlier there (List.getElem?_eq_getElem final)
  · rename_i last
    rw [ne_eq,not_not] at last
    have unchanged : map.dense.set j map.dense[map.dense.length - 1] = map.dense := by
      simp only [last,List.set_getElem_self]
    rw [unchanged]
    exact removeLast_sound lawful sound (last ▸ here)

theorem remove_sound {map : IndexedMap κ ν} (sound : Sound keys map) (key : κ) : Ensures (fun _ => True)
    (fun made : IndexedMap κ ν × Bool => Sound keys made.1) (remove keys map key) := by
  refine Ensures.bind (findSlot_answers keys _ key) ?_
  rintro ⟨found,slot⟩ -
  dsimp only
  split
  · exact sound
  · split
    · rename_i j here
      exact Ensures.bind (removeAt_sound lawful sound here) fun _ made => made
    · trivial

omit lawful in
theorem sound_fresh {capacity n : Nat} (power : capacity = 2 ^ (n + 4)) (small : capacity ≤ 2 ^ 31)
    (keySize valueSize arrayCapacity : Nat) :
    Sound keys (⟨keySize,valueSize,List.replicate capacity .empty,arrayCapacity,[]⟩ : IndexedMap κ ν) where
  size := ⟨n,by rw [List.length_replicate,power]⟩
  small := by rwa [List.length_replicate]
  kept := kept_fresh capacity
  points i j here := by simp [List.getElem?_replicate] at here
  covers := nofun

theorem call_sound {map : IndexedMap κ ν} (sound : Sound keys map) {op : MapOp κ ν}
    (fits : allocates map op ≤ 2 ^ 31) : Ensures (fun _ => True)
      (fun made : IndexedMap κ ν × MapAnswer ν => Sound keys made.1) (call keys map op) := by
  cases op with
  | insert key value granted grantedDense =>
    exact Ensures.bind (insert_sound lawful sound fits) fun _ made => made
  | get key =>
    cases got : get keys map key with
    | error stop => simp [call,got,bind,Except.bind]
    | ok value => simpa [call,got,bind,Except.bind] using sound
  | contains key =>
    cases got : contains keys map key with
    | error stop => simp [call,got,bind,Except.bind]
    | ok found => simpa [call,got,bind,Except.bind] using sound
  | remove key => exact Ensures.bind (remove_sound lawful sound key) fun _ made => made
  | clear =>
    obtain ⟨n,size⟩ := sound.size
    exact sound_fresh size sound.small _ _ _

end

end IndexedMap

/-- In a map whose slots an `int` can number, occupied slots and dense entries are in
bijection, and the keys differ, after every run of calls. -/
theorem map_linked {κ ν : Type} {keys : Keys κ} (lawful : keys.Lawful)
    {keySize valueSize initialCapacity : Nat} {granted grantedDense : Bool} {map last : IndexedMap κ ν}
    (created : IndexedMap.create keySize valueSize initialCapacity granted grantedDense = some map)
    (small : map.capacity ≤ 2 ^ 31) {log : List (MapOp κ ν × MapAnswer ν)}
    (reached : Reached (IndexedMap.call keys) (fun map op => map.allocates op ≤ 2 ^ 31) map log last) :
    IndexedMap.Linked keys last := by
  have starts : IndexedMap.Sound keys map := by
    obtain ⟨n,power,arrayCapacity,rfl⟩ := IndexedMap.create_fresh created
    rw [IndexedMap.capacity,List.length_replicate] at small
    exact IndexedMap.sound_fresh power small _ _ _
  have sound := reached.keeps (IndexedMap.Sound keys) starts
    fun map op after answer sound fits returned => (IndexedMap.call_sound lawful sound fits).of_ok returned
  exact sound.linked lawful

theorem map_linked_some : ∃ last : IndexedMap UInt32 UInt32,
    IndexedMap.call wordKeys ⟨4,4,List.replicate 16 .empty,16,[]⟩ (.insert 7 9 true true) = .ok (last,.status none) ∧
    IndexedMap.Linked wordKeys last := by
  let map : IndexedMap UInt32 UInt32 := ⟨4,4,List.replicate 16 .empty,16,[]⟩
  let last : IndexedMap UInt32 UInt32 := ⟨4,4,(List.replicate 16 .empty).set 7 (.occupied 0),16,[(7,9)]⟩
  have returned : IndexedMap.call wordKeys map (.insert 7 9 true true) = .ok (last,.status none) := by decide +kernel
  have run : Reached (IndexedMap.call wordKeys) (fun map op => map.allocates op ≤ 2 ^ 31) map
      [(.insert 7 9 true true,.status none)] last := Reached.start.call (by decide +kernel) returned
  exact ⟨last,returned,map_linked wordKeys_lawful (rfl : IndexedMap.create 4 4 0 true true = some map)
    (by decide +kernel) run⟩

/-- An insertion that need not grow, into an empty home. -/
theorem IndexedMap.insert_home {κ ν : Type} {keys : Keys κ} {map : IndexedMap κ ν} {key : κ} {index : Nat} {slot : Nat}
    (here : map.slots[index]? = some .empty) (home : keys.hash key &&& (map.slots.length - 1) = index)
    (numbered : slotNumber index = slot) (roomy : shouldGrow map.capacity map.count = false)
    (wide : map.dense.length < map.arrayCapacity) (value : ν) :
    call keys map (.insert key value true true) = .ok ({ map with
      slots := map.slots.set slot (.occupied map.dense.length), dense := map.dense ++ [(key,value)] },.status none) := by
  have sized : map.capacity ≠ 0 := (Nat.zero_lt_of_lt (List.getElem?_eq_some_iff.mp here).1).ne'
  have made : makeRoom capacity count (rehash keys true) map = .ok (map,none) := by
    rw [makeRoom,if_neg sized]
    exact if_neg (Bool.eq_false_iff.mp roomy)
  have found : findSlot keys map key = .ok (false,(slot : Int)) := findSlot_home keys _ here home numbered
  rw [call,insert,made]
  dsimp only [bind,Except.bind]
  rw [if_neg (Nat.not_le.mpr wide)]
  dsimp only
  rw [found]
  dsimp only
  rw [if_neg (Int.not_lt.mpr (Int.natCast_nonneg slot))]
  rfl

/-- Two keys whose homes are `2 ^ 32` slots apart share the slot 5. -/
theorem map_shares_slot : ∃ keys : Keys UInt64, keys.Lawful ∧ ∃ (map last : IndexedMap UInt64 UInt32) (log : _),
    IndexedMap.create 8 4 (2 ^ 33) true true = some map ∧
    Reached (IndexedMap.call keys) (fun _ _ => True) map log last ∧ ¬ IndexedMap.Linked keys last := by
  obtain ⟨n,size⟩ : ∃ n : Nat, n = 2 ^ 33 := ⟨_,rfl⟩
  let keys : Keys UInt64 := ⟨UInt64.toNat,(· == ·)⟩
  have lawful : keys.Lawful := ⟨fun k => beq_self_eq_true k,fun equal => beq_iff_eq.mpr (beq_iff_eq.mp equal).symm,
    fun first second => beq_iff_eq.mpr ((beq_iff_eq.mp first).trans (beq_iff_eq.mp second)),
    fun equal => congrArg _ (beq_iff_eq.mp equal)⟩
  let map : IndexedMap UInt64 UInt32 := ⟨8,4,List.replicate n .empty,n,[]⟩
  let one : IndexedMap UInt64 UInt32 := ⟨8,4,(List.replicate n .empty).set 5 (.occupied 0),n,[(5,1)]⟩
  let two : IndexedMap UInt64 UInt32 :=
    ⟨8,4,((List.replicate n .empty).set 5 (.occupied 0)).set 5 (.occupied 1),n,[(5,1),(4294967301,2)]⟩
  have created : IndexedMap.create 8 4 (2 ^ 33) true true = some map := by
    have capacity : firstCapacity (2 ^ 33) = n := by
      rw [size]
      decide +kernel
    have few : n ≤ sizeMax / 8 ∧ n ≤ sizeMax / 4 := by
      rw [size]
      decide +kernel
    have wide : IndexedMap.allocateDense ⟨8,4,List.replicate n .empty,0,[]⟩ n true = .ok map := by
      rw [IndexedMap.allocateDense,if_neg (by omega),if_neg fun large => absurd large.2 (Nat.not_lt.mpr few.1),
        if_neg fun large => absurd large.2 (Nat.not_lt.mpr few.2),if_pos rfl]
    have hashed : IndexedMap.allocateHash ⟨8,4,[],0,[]⟩ n true =
        .ok (⟨8,4,List.replicate n .empty,0,[]⟩ : IndexedMap UInt64 UInt32) := by
      rw [IndexedMap.allocateHash,if_neg (by omega),if_pos rfl]
    rw [IndexedMap.create,if_neg (by decide)]
    dsimp only
    rw [capacity,if_neg (by omega),hashed]
    dsimp only
    rw [wide]
    rfl
  have first : IndexedMap.call keys map (.insert 5 1 true true) = .ok (one,.status none) := by
    have home : keys.hash 5 &&& (map.slots.length - 1) = 5 := by
      rw [List.length_replicate,size]
      decide +kernel
    have roomy : shouldGrow map.capacity map.count = false := by
      change shouldGrow (List.replicate n Slot.empty).length 0 = false
      rw [List.length_replicate,size]
      decide +kernel
    have few : map.dense.length < map.arrayCapacity := by
      change 0 < n
      omega
    exact IndexedMap.insert_home (fresh_home (by omega)) home (by decide +kernel : slotNumber 5 = (5 : Nat)) roomy few 1
  have second : IndexedMap.call keys one (.insert 4294967301 2 true true) = .ok (two,.status none) := by
    have here : one.slots[4294967301]? = some .empty := by
      rw [List.getElem?_set_ne (by decide)]
      exact fresh_home (by omega)
    have home : keys.hash 4294967301 &&& (one.slots.length - 1) = 4294967301 := by
      rw [List.length_set,List.length_replicate,size]
      decide +kernel
    have roomy : shouldGrow one.capacity one.count = false := by
      change shouldGrow ((List.replicate n Slot.empty).set 5 (.occupied 0)).length 1 = false
      rw [List.length_set,List.length_replicate,size]
      decide +kernel
    have few : one.dense.length < one.arrayCapacity := by
      change 1 < n
      omega
    exact IndexedMap.insert_home here home (by decide +kernel : slotNumber 4294967301 = (5 : Nat)) roomy few 2
  refine ⟨keys,lawful,map,two,_,created,(Reached.start.call trivial first).call trivial second,fun linked => ?_⟩
  obtain ⟨i,⟨here,-⟩,-⟩ := linked.reached 0 5 rfl
  rcases occupied_set here with ⟨-,⟨⟩⟩ | ⟨elsewhere,was⟩
  rcases occupied_set was with ⟨rfl,-⟩ | ⟨-,fresh⟩
  · exact elsewhere rfl
  · rw [List.getElem?_replicate] at fresh
    split at fresh <;> cases fresh

end Libnmo.Core
