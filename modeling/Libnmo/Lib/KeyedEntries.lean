import Libnmo.Lib.KeyedSlots

/-! Lists of entries with keys no two of which are the same, as finite maps. -/
namespace Libnmo.Lib
open scoped List

/-- No two entries have keys that are taken as the same. -/
def Keys.Apart {κ ν : Type} (keys : Keys κ) (entries : List (κ × ν)) : Prop :=
  entries.Pairwise fun a b => keys.same a.1 b.1 = false

/-- The map that the entries stand for. -/
def Keys.Holds {κ ν : Type} (keys : Keys κ) (entries : List (κ × ν)) (map : κ → Option ν) : Prop :=
  ∀ k v, map k = some v ↔ ∃ entry ∈ entries, keys.same entry.1 k = true ∧ entry.2 = v

variable {κ ν : Type} {keys : Keys κ} (lawful : keys.Lawful) {entries rest : List (κ × ν)} {map : κ → Option ν}

theorem Keys.holds_nil : keys.Holds ([] : List (κ × ν)) fun _ => none := by
  intro k v
  simp

theorem Keys.Holds.perm {others : List (κ × ν)} (holds : keys.Holds entries map) (same : entries ~ others) :
    keys.Holds others map := by
  intro k v
  rw [holds k v]
  simp only [same.mem_iff]

include lawful

theorem Keys.Apart.perm {others : List (κ × ν)} (apart : keys.Apart entries) (same : entries ~ others) :
    keys.Apart others := by
  refine (List.Perm.pairwise_iff (R := fun (a b : κ × ν) => keys.same a.1 b.1 = false) ?_ same).mp apart
  intro a b differs
  rw [Bool.eq_false_iff] at differs ⊢
  exact fun equal => differs (lawful.symm equal)

/-- An entry is the first with its key. -/
theorem Keys.Apart.find {a : κ × ν} {key : κ} (apart : keys.Apart entries) (member : a ∈ entries)
    (equal : keys.same a.1 key = true) : (entries.find? fun entry => keys.same entry.1 key) = some a := by
  induction entries with
  | nil => cases member
  | cons first rest ih =>
    rcases List.mem_cons.mp member with rfl | later
    · exact List.find?_cons_of_pos equal
    · have differs := List.rel_of_pairwise_cons apart later
      have away : keys.same first.1 key = false := by
        rw [Bool.eq_false_iff]
        intro same
        rw [lawful.trans same (lawful.symm equal)] at differs
        cases differs
      rw [List.find?_cons,away]
      exact ih apart.of_cons later

/-- An entry leaves, and its key has no value any more. -/
theorem Keys.Holds.erase {a : κ × ν} {key : κ} (holds : keys.Holds entries map) (apart : keys.Apart entries)
    (split : a :: rest ~ entries) (equal : keys.same a.1 key = true) :
    keys.Holds rest fun k => if keys.same key k then none else map k := by
  have alone : ∀ entry ∈ rest, keys.same a.1 entry.1 = false :=
    fun entry => List.rel_of_pairwise_cons (apart.perm lawful split.symm)
  intro k v
  dsimp only
  by_cases named : keys.same key k = true
  · rw [if_pos named]
    refine ⟨nofun,?_⟩
    rintro ⟨entry,member,same,-⟩
    have differs := alone entry member
    rw [lawful.trans (lawful.trans equal named) (lawful.symm same)] at differs
    cases differs
  · rw [if_neg named,holds k v]
    constructor
    · rintro ⟨entry,member,same,value⟩
      refine ⟨entry,?_,same,value⟩
      rcases List.mem_cons.mp (split.mem_iff.mpr member) with rfl | later
      · exact absurd (lawful.trans (lawful.symm equal) same) named
      · exact later
    · rintro ⟨entry,member,same,value⟩
      exact ⟨entry,split.mem_iff.mp (List.mem_cons_of_mem _ member),same,value⟩

/-- A new entry gives its key a value. -/
theorem Keys.Holds.cons {a : κ × ν} {key : κ} (holds : keys.Holds entries map) (equal : keys.same a.1 key = true)
    (absent : ∀ entry ∈ entries, keys.same entry.1 key = false) :
    keys.Holds (a :: entries) fun k => if keys.same key k then some a.2 else map k := by
  intro k v
  dsimp only
  by_cases named : keys.same key k = true
  · rw [if_pos named]
    constructor
    · intro value
      exact ⟨a,List.mem_cons_self,lawful.trans equal named,Option.some.inj value⟩
    · rintro ⟨entry,member,same,value⟩
      rcases List.mem_cons.mp member with rfl | later
      · rw [value]
      · have differs := absent entry later
        rw [lawful.trans same (lawful.symm named)] at differs
        cases differs
  · rw [if_neg named,holds k v]
    constructor
    · rintro ⟨entry,member,same,value⟩
      exact ⟨entry,List.mem_cons_of_mem _ member,same,value⟩
    · rintro ⟨entry,member,same,value⟩
      rcases List.mem_cons.mp member with rfl | later
      · exact absurd (lawful.trans (lawful.symm equal) same) named
      · exact ⟨entry,later,same,value⟩

/-- The entry with a key gets another value. -/
theorem Keys.Holds.replace {a : κ × ν} {key : κ} (holds : keys.Holds entries map) (apart : keys.Apart entries)
    (split : a :: rest ~ entries) (equal : keys.same a.1 key = true) (value : ν) :
    keys.Holds ((a.1,value) :: rest) fun k => if keys.same key k then some value else map k := by
  have alone : ∀ entry ∈ rest, keys.same a.1 entry.1 = false :=
    fun entry => List.rel_of_pairwise_cons (apart.perm lawful split.symm)
  have erased := holds.erase lawful apart split equal
  have added := erased.cons lawful (a := (a.1,value)) equal ?_
  · intro k v
    rw [← added k v]
    dsimp only
    split_ifs <;> rfl
  · intro entry member
    rw [Bool.eq_false_iff]
    intro same
    have differs := alone entry member
    rw [lawful.trans equal (lawful.symm same)] at differs
    cases differs

omit lawful in
theorem Keys.Holds.none {key : κ} (holds : keys.Holds entries map)
    (absent : ∀ entry ∈ entries, keys.same entry.1 key = false) : map key = none := by
  rw [Option.eq_none_iff_forall_ne_some]
  intro v value
  obtain ⟨entry,member,same,-⟩ := (holds key v).mp value
  rw [absent entry member] at same
  cases same

namespace OpenAddressing

omit lawful in
theorem Kept.apart {slots : List (Slot (κ × ν))} (kept : Kept keys (fun entry => some entry.1) slots) :
    keys.Apart (live slots) := by
  rw [Keys.Apart,live,List.pairwise_filterMap,List.pairwise_iff_getElem]
  intro i j inside within before a first b second
  rw [Slot.held_iff] at first second
  rw [Bool.eq_false_iff]
  intro same
  have equal := kept.alone i j a b a.1 b.1 (by rw [List.getElem?_eq_getElem inside,first])
    (by rw [List.getElem?_eq_getElem within,second]) rfl rfl same
  omega

omit lawful in
/-- What a probe found is an entry with its key. -/
theorem found_entry {slots : List (Slot (κ × ν))} {n index : Nat} (size : slots.length = 2 ^ n) {key : κ}
    (probed : find slots (hasKey keys (fun entry => some entry.1) key) (keys.hash key) = some (true,index)) :
    ∃ entry, slots[index]? = some (.occupied entry) ∧ keys.same entry.1 key = true := by
  obtain ⟨-,entry,here,equal⟩ := find_found size probed
  obtain ⟨k,keyed,same⟩ := hasKey_iff.mp equal
  cases keyed
  exact ⟨entry,here,same⟩

theorem Kept.absent_entries {slots : List (Slot (κ × ν))} (kept : Kept keys (fun entry => some entry.1) slots)
    {n index : Nat} (size : slots.length = 2 ^ n) {key : κ}
    (probed : find slots (hasKey keys (fun entry => some entry.1) key) (keys.hash key) = some (false,index)) :
    ∀ entry ∈ live slots, keys.same entry.1 key = false := by
  intro entry member
  obtain ⟨i,here⟩ := mem_live.mp member
  exact kept.find_absent lawful size probed here rfl

end OpenAddressing
end Libnmo.Lib
