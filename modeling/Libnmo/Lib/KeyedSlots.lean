import Mathlib.Data.List.Perm.Basic
import Libnmo.Lib.OpenAddressing

/-! Entries with keys in a ring of slots. Each entry lies on the way from the home
of its key to the first empty slot, and no two entries have the same key; so a probe
for a key that ends tells whether the ring has an entry with it. -/
namespace Libnmo.Lib
open scoped List

/-- A hash, and a comparison that takes keys as the same. -/
structure Keys (κ : Type) where
  hash : κ → Nat
  same : κ → κ → Bool

structure Keys.Lawful {κ : Type} (keys : Keys κ) : Prop where
  refl : ∀ k, keys.same k k = true
  symm : ∀ {k l}, keys.same k l = true → keys.same l k = true
  trans : ∀ {k l m}, keys.same k l = true → keys.same l m = true → keys.same k m = true
  respects : ∀ {k l}, keys.same k l = true → keys.hash k = keys.hash l

theorem Keys.Lawful.congr {κ : Type} {keys : Keys κ} (lawful : keys.Lawful) {k l : κ} (equal : keys.same k l = true)
    (m : κ) : keys.same m k = keys.same m l := by
  rw [Bool.eq_iff_iff]
  exact ⟨fun first => lawful.trans first equal,fun second => lawful.trans second (lawful.symm equal)⟩

/-- Keys that are the same when they are equal. -/
theorem Keys.lawful_beq {κ : Type} [BEq κ] [LawfulBEq κ] (hash : κ → Nat) : (⟨hash,(· == ·)⟩ : Keys κ).Lawful where
  refl k := beq_self_eq_true k
  symm equal := beq_iff_eq.mpr (beq_iff_eq.mp equal).symm
  trans first second := beq_iff_eq.mpr ((beq_iff_eq.mp first).trans (beq_iff_eq.mp second))
  respects equal := congrArg _ (beq_iff_eq.mp equal)

namespace OpenAddressing
variable {α β κ : Type} (keys : Keys κ) (key : α → Option κ)

def hasKey (k : κ) (entry : α) : Bool := (key entry).any fun l => keys.same l k

structure Kept (slots : List (Slot α)) : Prop where
  along : ∀ (i : Nat) entry k, slots[i]? = some (.occupied entry) → key entry = some k → Along slots (keys.hash k) i
  alone : ∀ (i j : Nat) a b k l, slots[i]? = some (.occupied a) → slots[j]? = some (.occupied b) →
    key a = some k → key b = some l → keys.same k l = true → i = j

variable {keys key}

theorem hasKey_iff {k : κ} {entry : α} :
    hasKey keys key k entry = true ↔ ∃ l, key entry = some l ∧ keys.same l k = true := by
  rw [hasKey,Option.any_eq_true]

theorem kept_fresh (n : Nat) : Kept keys key (List.replicate n (.empty : Slot α)) where
  along i entry k here := by simp [List.getElem?_replicate] at here
  alone i j a b k l here := by simp [List.getElem?_replicate] at here

theorem Along.mono {slots : List (Slot α)} {later : List (Slot β)} (size : later.length = slots.length)
    (fuller : ∀ i : Nat, later[i]? = some .empty → slots[i]? = some .empty) {hash i : Nat} (along : Along slots hash i) :
    Along later hash i := by
  obtain ⟨d,equal,full⟩ := along
  refine ⟨d,by rw [equal,size],fun m before empty => ?_⟩
  rw [size] at empty
  exact full m before (fuller _ empty)

/-- Slots that hold no key which was not at the same place before, and are empty
only where they were, keep what probes rely on. -/
theorem Kept.shrink {slots : List (Slot α)} {later : List (Slot β)} {newKey : β → Option κ}
    (kept : Kept keys key slots) (size : later.length = slots.length)
    (fuller : ∀ i : Nat, later[i]? = some .empty → slots[i]? = some .empty)
    (old : ∀ (i : Nat) b k, later[i]? = some (.occupied b) → newKey b = some k →
      ∃ a, slots[i]? = some (.occupied a) ∧ key a = some k) : Kept keys newKey later where
  along i b k here keyed := by
    obtain ⟨a,was,keyed⟩ := old i b k here keyed
    exact (kept.along i a k was keyed).mono size fuller
  alone i j b c k l first second keyed other same := by
    obtain ⟨a,was,keyed⟩ := old i b k first keyed
    obtain ⟨d,wasToo,other⟩ := old j c l second other
    exact kept.alone i j a d k l was wasToo keyed other same

theorem empty_set {slots : List (Slot α)} {i j : Nat} {slot : Slot α} (full : slot ≠ .empty)
    (empty : (slots.set i slot)[j]? = some .empty) : slots[j]? = some .empty := by
  rw [List.getElem?_set] at empty
  split at empty
  · split at empty
    · exact absurd (Option.some.inj empty) full
    · cases empty
  · exact empty

theorem occupied_set {slots : List (Slot α)} {i j : Nat} {slot : Slot α} {entry : α}
    (here : (slots.set i slot)[j]? = some (.occupied entry)) :
    (i = j ∧ slot = .occupied entry) ∨ (i ≠ j ∧ slots[j]? = some (.occupied entry)) := by
  rw [List.getElem?_set] at here
  split at here
  · rename_i equal
    split at here
    · exact Or.inl ⟨equal,Option.some.inj here⟩
    · cases here
  · rename_i differs
    exact Or.inr ⟨differs,here⟩

section
variable {slots : List (Slot α)} (kept : Kept keys key slots)
include kept

theorem Kept.erase (i : Nat) : Kept keys key (slots.set i .tombstone) := by
  refine kept.shrink (List.length_set ..) (fun j => empty_set nofun) ?_
  intro j b k here keyed
  rcases occupied_set here with ⟨-,different⟩ | ⟨-,was⟩
  · cases different
  · exact ⟨b,was,keyed⟩

theorem Kept.replace {i : Nat} {a b : α} (here : slots[i]? = some (.occupied a)) (equal : key b = key a) :
    Kept keys key (slots.set i (.occupied b)) := by
  refine kept.shrink (List.length_set ..) (fun j => empty_set nofun) ?_
  intro j c k there keyed
  rcases occupied_set there with ⟨rfl,⟨⟩⟩ | ⟨-,was⟩
  · exact ⟨a,here,equal ▸ keyed⟩
  · exact ⟨c,was,keyed⟩

variable (lawful : keys.Lawful) {n : Nat} (size : slots.length = 2 ^ n) {k : κ} {i : Nat}
include lawful size

theorem Kept.find_absent (probed : find slots (hasKey keys key k) (keys.hash k) = some (false,i)) {j : Nat} {a : α}
    {l : κ} (here : slots[j]? = some (.occupied a)) (keyed : key a = some l) : keys.same l k = false := by
  rw [Bool.eq_false_iff]
  intro same
  have along : Along slots (keys.hash k) j := lawful.respects same ▸ kept.along j a l here keyed
  have differs := (find_free size probed).absent j a along here
  rw [hasKey_iff.mpr ⟨l,keyed,same⟩] at differs
  cases differs

/-- A new entry at the slot that the probe for its key reported. -/
theorem Kept.occupy (probed : find slots (hasKey keys key k) (keys.hash k) = some (false,i)) {entry : α}
    (keyed : key entry = some k) : Kept keys key (slots.set i (.occupied entry)) where
  along j a l here keyed' := by
    have grown := @Along.mono _ _ slots (slots.set i (.occupied entry)) (List.length_set ..) (fun j => empty_set nofun)
    rcases occupied_set here with ⟨rfl,⟨⟩⟩ | ⟨-,was⟩
    · rw [keyed] at keyed'
      cases keyed'
      exact grown (find_free size probed).along
    · exact grown (kept.along j a l was keyed')
  alone j m a b l l' first second keyA keyB same := by
    rcases occupied_set first with ⟨rfl,⟨⟩⟩ | ⟨-,was⟩
    · rcases occupied_set second with ⟨rfl,⟨⟩⟩ | ⟨-,was⟩
      · rfl
      · rw [keyed] at keyA
        cases keyA
        have differs := kept.find_absent lawful size probed was keyB
        rw [lawful.symm same] at differs
        cases differs
    · rcases occupied_set second with ⟨rfl,⟨⟩⟩ | ⟨-,wasToo⟩
      · rw [keyed] at keyB
        cases keyB
        have differs := kept.find_absent lawful size probed was keyA
        rw [same] at differs
        cases differs
      · exact kept.alone j m a b l l' was wasToo keyA keyB same

/-- An entry is what a probe for its key finds. -/
theorem Kept.find_present {a : α} {l : κ} (here : slots[i]? = some (.occupied a)) (keyed : key a = some l)
    (same : keys.same l k = true) : find slots (hasKey keys key k) (keys.hash k) = some (true,i) := by
  cases probed : find slots (hasKey keys key k) (keys.hash k) with
  | none =>
    have differs := (find_none size probed here).2 a rfl
    rw [hasKey_iff.mpr ⟨l,keyed,same⟩] at differs
    cases differs
  | some answer =>
    obtain ⟨found,j⟩ := answer
    cases found with
    | false =>
      have differs := kept.find_absent lawful size probed here keyed
      rw [same] at differs
      cases differs
    | true =>
      obtain ⟨-,b,there,equal⟩ := find_found size probed
      obtain ⟨m,keyB,sameB⟩ := hasKey_iff.mp equal
      have both : keys.same l m = true := lawful.trans same (lawful.symm sameB)
      rw [kept.alone i j a b l m here there keyed keyB both]

end

/-- The entries of the ring, in the order of its slots. -/
def live (slots : List (Slot α)) : List α := slots.filterMap Slot.held

theorem mem_live {slots : List (Slot α)} {entry : α} : entry ∈ live slots ↔ ∃ i : Nat, slots[i]? = some (.occupied entry) := by
  rw [live,List.mem_filterMap]
  simp only [Slot.held_iff,List.mem_iff_getElem? (l := slots)]
  constructor
  · rintro ⟨slot,⟨i,here⟩,rfl⟩
    exact ⟨i,here⟩
  · rintro ⟨i,here⟩
    exact ⟨_,⟨i,here⟩,rfl⟩

theorem live_fresh (n : Nat) : live (List.replicate n (.empty : Slot α)) = [] := by
  simp [live,List.filterMap_replicate,Slot.held]

theorem live_set {slots : List (Slot α)} {i : Nat} {old : Slot α} (here : slots[i]? = some old) (slot : Slot α) :
    old.held.toList ++ live (slots.set i slot) ~ slot.held.toList ++ live slots := by
  obtain ⟨inside,rfl⟩ := List.getElem?_eq_some_iff.mp here
  have split : slots = slots.take i ++ slots[i] :: slots.drop (i + 1) := by simp
  have filled (front : List α) (slot : Slot α) (rest : List (Slot α)) :
      front ++ (slot :: rest).filterMap Slot.held ~ slot.held.toList ++ (front ++ rest.filterMap Slot.held) := by
    cases slot with
    | empty => exact List.Perm.refl _
    | tombstone => exact List.Perm.refl _
    | occupied entry => exact List.perm_middle
  have after : live (slots.set i slot) ~ slot.held.toList ++
      ((slots.take i).filterMap Slot.held ++ (slots.drop (i + 1)).filterMap Slot.held) := by
    rw [live,List.set_eq_take_append_cons_drop,if_pos inside,List.filterMap_append]
    exact filled _ _ _
  have before : live slots ~ slots[i].held.toList ++
      ((slots.take i).filterMap Slot.held ++ (slots.drop (i + 1)).filterMap Slot.held) := by
    conv_lhs => rw [live,split,List.filterMap_append]
    exact filled _ _ _
  exact (after.append_left _).trans (.trans (List.perm_append_comm_assoc ..) (before.symm.append_left _))

theorem live_erase {slots : List (Slot α)} {i : Nat} {a : α} (here : slots[i]? = some (.occupied a)) :
    a :: live (slots.set i .tombstone) ~ live slots :=
  live_set here .tombstone

theorem live_replace {slots : List (Slot α)} {i : Nat} {a : α} (here : slots[i]? = some (.occupied a)) (b : α) :
    ∃ rest, a :: rest ~ live slots ∧ live (slots.set i (.occupied b)) ~ b :: rest := by
  refine ⟨live (slots.set i .tombstone),live_erase here,?_⟩
  have changed : a :: live (slots.set i (.occupied b)) ~ b :: live slots := live_set here (.occupied b)
  apply List.Perm.cons_inv (a := a)
  exact (changed.trans ((live_erase here).symm.cons b)).trans (List.Perm.swap ..)

/-- The slots that are still empty. -/
def vacant (slots : List (Slot α)) : Nat := slots.countP Slot.isEmpty

theorem vacant_fresh (n : Nat) : vacant (List.replicate n (.empty : Slot α)) = n := by
  simp [vacant,List.countP_replicate,Slot.isEmpty]

theorem vacant_pos {slots : List (Slot α)} : 0 < vacant slots ↔ ∃ i : Nat, slots[i]? = some .empty := by
  rw [vacant,List.countP_pos_iff]
  constructor
  · rintro ⟨slot,member,empty⟩
    rw [Slot.isEmpty_iff] at empty
    rw [empty] at member
    exact List.mem_iff_getElem?.mp member
  · rintro ⟨i,here⟩
    exact ⟨_,List.mem_of_getElem? here,rfl⟩

theorem vacant_set (slots : List (Slot α)) (i : Nat) (slot : Slot α) :
    vacant slots ≤ vacant (slots.set i slot) + 1 := by
  cases Nat.lt_or_ge i slots.length with
  | inl inside =>
    have counted := List.countP_set (p := Slot.isEmpty) (a := slot) inside
    rw [vacant,vacant,counted]
    split <;> omega
  | inr outside =>
    rw [List.set_eq_of_length_le outside]
    exact Nat.le_succ _

theorem vacant_set_full {slots : List (Slot α)} {i : Nat} (full : slots[i]? ≠ some .empty) (slot : Slot α) :
    vacant slots ≤ vacant (slots.set i slot) := by
  cases Nat.lt_or_ge i slots.length with
  | inl inside =>
    have counted := List.countP_set (p := Slot.isEmpty) (a := slot) inside
    have old : slots[i].isEmpty = false := by
      rw [Bool.eq_false_iff]
      intro empty
      apply full
      rw [List.getElem?_eq_getElem inside,Slot.isEmpty_iff.mp empty]
    rw [vacant,vacant,counted,old]
    simp
  | inr outside => rw [List.set_eq_of_length_le outside]

theorem vacant_live (slots : List (Slot α)) : vacant slots + (live slots).length ≤ slots.length := by
  induction slots with
  | nil => exact Nat.le_refl 0
  | cons slot rest ih =>
    rw [vacant,live] at ih ⊢
    cases slot <;> simp [List.filterMap_cons,List.countP_cons,Slot.isEmpty,Slot.held] <;> omega

end OpenAddressing
end Libnmo.Lib
