import Mathlib.Algebra.BigOperators.Group.List.Basic
import Mathlib.Algebra.GroupWithZero.Nat
import Mathlib.Data.Finset.Card
import Mathlib.Data.Finset.SymmDiff
import Mathlib.Data.Nat.Count

/-! A list of words of 32 bits as a finite set of numbers: a number is bit `n % 32` of word
`n / 32`, and beyond the last word there is none. -/
namespace Libnmo.Lib.BitWords

variable {words others : List UInt32} {word : UInt32} {n m bit : Nat}

def contains (words : List UInt32) (n : Nat) : Bool := (words.getD (n / 32) 0).toBitVec.getLsbD (n % 32)

def members (words : List UInt32) : Finset Nat := (Finset.range (32 * words.length)).filter fun n => contains words n

/-- The word with one bit. -/
def mask (bit : Nat) : UInt32 := 1 <<< UInt32.ofNat bit

theorem contains_beyond (beyond : 32 * words.length ≤ n) : contains words n = false := by
  have none : words.length ≤ n / 32 := by omega
  rw [contains,List.getD_eq_getElem?_getD,List.getElem?_eq_none none]
  exact BitVec.getLsbD_zero

theorem mem_members : n ∈ members words ↔ contains words n = true := by
  rw [members,Finset.mem_filter,Finset.mem_range]
  refine ⟨fun member => member.2,fun member => ⟨?_,member⟩⟩
  by_contra beyond
  rw [contains_beyond (Nat.le_of_not_lt beyond)] at member
  cases member

theorem members_congr (same : ∀ n, contains words n = contains others n) : members words = members others := by
  ext n
  rw [mem_members,mem_members,same n]

theorem getLsbD_mask (small : bit < 32) (i : Nat) : (mask bit).toBitVec.getLsbD i = decide (i = bit) := by
  have place : (UInt32.ofNat bit).toBitVec.toNat = bit := by
    rw [UInt32.toBitVec_ofNat',BitVec.toNat_ofNat]
    omega
  have shown : (mask bit).toBitVec = 1#32 <<< bit := by
    rw [mask,UInt32.toBitVec_shiftLeft,BitVec.shiftLeft_eq',BitVec.toNat_umod,place]
    exact congrArg (1#32 <<< ·) (Nat.mod_eq_of_lt small)
  rw [shown,BitVec.getLsbD_shiftLeft,BitVec.getLsbD_one]
  by_cases here : i = bit
  · simp [here,small]
  · rw [decide_eq_false here]
    simp
    omega

theorem and_mask (small : bit < 32) : (word &&& mask bit ≠ 0) ↔ word.toBitVec.getLsbD bit = true := by
  constructor
  · intro some
    by_contra clear
    apply some
    apply UInt32.toBitVec_inj.mp
    ext i bound
    rw [UInt32.toBitVec_and,BitVec.getElem_and,← BitVec.getLsbD_eq_getElem,← BitVec.getLsbD_eq_getElem,getLsbD_mask small]
    by_cases here : i = bit
    · subst here
      simp [clear]
    · simp [here]
  · intro set zero
    have bits := congrArg (fun word => word.toBitVec.getLsbD bit) zero
    simp [getLsbD_mask small,set] at bits

theorem getD_modify {place : Nat} (inside : place < words.length) (f : UInt32 → UInt32) (i : Nat) :
    (words.modify place f).getD i 0 = if i = place then f (words.getD place 0) else words.getD i 0 := by
  by_cases here : i = place
  · subst here
    simp [List.getD_eq_getElem?_getD,inside]
  · rw [if_neg here]
    simp [List.getD_eq_getElem?_getD,Ne.symm here]

theorem contains_modify (inside : n / 32 < words.length) (f : UInt32 → UInt32) (m : Nat) :
    contains (words.modify (n / 32) f) m =
      if m / 32 = n / 32 then (f (words.getD (n / 32) 0)).toBitVec.getLsbD (m % 32) else contains words m := by
  rw [contains,getD_modify inside]
  split
  · rfl
  · rfl

theorem decide_bit (here : m / 32 = n / 32) : decide (m % 32 = n % 32) = decide (m = n) := decide_eq_decide.mpr (by omega)

theorem contains_insert (inside : n / 32 < words.length) :
    contains (words.modify (n / 32) fun word => word ||| mask (n % 32)) m = (contains words m || decide (m = n)) := by
  rw [contains_modify inside]
  split <;> rename_i here
  · rw [UInt32.toBitVec_or,BitVec.getLsbD_or,getLsbD_mask (Nat.mod_lt _ (by decide)),decide_bit here,contains,here]
  · rw [decide_eq_false fun same => here (congrArg (· / 32) same),Bool.or_false]

theorem contains_erase (inside : n / 32 < words.length) :
    contains (words.modify (n / 32) fun word => word &&& ~~~mask (n % 32)) m = (contains words m && !decide (m = n)) := by
  rw [contains_modify inside]
  split <;> rename_i here
  · rw [UInt32.toBitVec_and,UInt32.toBitVec_not,BitVec.getLsbD_and,BitVec.getLsbD_not,
      getLsbD_mask (Nat.mod_lt _ (by decide)),decide_bit here,contains,here,decide_eq_true (Nat.mod_lt m (by decide)),
      Bool.true_and]
  · rw [decide_eq_false fun same => here (congrArg (· / 32) same),Bool.not_false,Bool.and_true]

theorem contains_toggle (inside : n / 32 < words.length) :
    contains (words.modify (n / 32) fun word => word ^^^ mask (n % 32)) m = (contains words m ^^ decide (m = n)) := by
  rw [contains_modify inside]
  split <;> rename_i here
  · rw [UInt32.toBitVec_xor,BitVec.getLsbD_xor,getLsbD_mask (Nat.mod_lt _ (by decide)),decide_bit here,contains,here]
  · rw [decide_eq_false fun same => here (congrArg (· / 32) same),Bool.xor_false]

theorem contains_zeros (words : List UInt32) (count n : Nat) :
    contains (words ++ List.replicate count 0) n = contains words n := by
  have same : (words ++ List.replicate count 0).getD (n / 32) 0 = words.getD (n / 32) 0 := by
    rw [List.getD_eq_getElem?_getD,List.getD_eq_getElem?_getD,List.getElem?_append]
    split
    · rfl
    · rename_i beyond
      rw [List.getElem?_eq_none (Nat.le_of_not_lt beyond),List.getElem?_replicate]
      split <;> rfl
  rw [contains,contains,same]

theorem members_insert (inside : n / 32 < words.length) :
    members (words.modify (n / 32) fun word => word ||| mask (n % 32)) = insert n (members words) := by
  ext m
  simp [mem_members,contains_insert inside,or_comm]

theorem members_erase (inside : n / 32 < words.length) :
    members (words.modify (n / 32) fun word => word &&& ~~~mask (n % 32)) = (members words).erase n := by
  ext m
  simp [mem_members,contains_erase inside,and_comm]

theorem members_toggle (inside : n / 32 < words.length) :
    members (words.modify (n / 32) fun word => word ^^^ mask (n % 32)) = symmDiff (members words) {n} := by
  ext m
  rw [Finset.mem_symmDiff,mem_members,mem_members,contains_toggle inside,Finset.mem_singleton]
  by_cases here : m = n <;> cases contains words m <;> simp [here]

section Combined
variable {combined : List UInt32}

theorem members_inter (each : ∀ i, combined.getD i 0 = words.getD i 0 &&& others.getD i 0) :
    members combined = members words ∩ members others := by
  ext n
  rw [Finset.mem_inter,mem_members,mem_members,mem_members,contains,each,UInt32.toBitVec_and,BitVec.getLsbD_and,
    Bool.and_eq_true]
  rfl

theorem members_union (each : ∀ i, combined.getD i 0 = words.getD i 0 ||| others.getD i 0) :
    members combined = members words ∪ members others := by
  ext n
  rw [Finset.mem_union,mem_members,mem_members,mem_members,contains,each,UInt32.toBitVec_or,BitVec.getLsbD_or,
    Bool.or_eq_true]
  rfl

theorem members_symmDiff (each : ∀ i, combined.getD i 0 = words.getD i 0 ^^^ others.getD i 0) :
    members combined = symmDiff (members words) (members others) := by
  ext n
  rw [Finset.mem_symmDiff,mem_members,mem_members,mem_members,contains,each,UInt32.toBitVec_xor,BitVec.getLsbD_xor]
  change (contains words n ^^ contains others n) = true ↔ _
  cases contains words n <;> cases contains others n <;> simp

theorem members_empty (each : ∀ i, combined.getD i 0 = 0) : members combined = ∅ := by
  ext n
  rw [mem_members,contains,each]
  simp

end Combined

/-- The number of bits that are set in a word. -/
def popcount (word : UInt32) : Nat := Nat.count (fun bit => word.toBitVec.getLsbD bit = true) 32

theorem count_contains (words : List UInt32) :
    Nat.count (fun n => contains words n = true) (32 * words.length) = (words.map popcount).sum := by
  induction words with
  | nil => rfl
  | cons word words ih =>
    have first (bit : Nat) (small : bit < 32) : contains (word :: words) bit = word.toBitVec.getLsbD bit := by
      rw [contains,Nat.div_eq_of_lt small,Nat.mod_eq_of_lt small]
      rfl
    have later (n : Nat) : contains (word :: words) (32 + n) = contains words n := by
      rw [contains,contains,Nat.add_div_left n (by decide : 0 < 32),Nat.add_mod_left]
      rfl
    rw [List.length_cons,Nat.mul_succ,Nat.add_comm,Nat.count_add,List.map_cons,List.sum_cons]
    simp only [later,ih]
    refine congrArg (· + _) ?_
    rw [popcount,Nat.count_eq_card_filter_range,Nat.count_eq_card_filter_range]
    refine congrArg Finset.card (Finset.filter_congr fun bit member => ?_)
    rw [first bit (Finset.mem_range.mp member)]

theorem card_members (words : List UInt32) : (members words).card = (words.map popcount).sum := by
  rw [← count_contains,Nat.count_eq_card_filter_range,members]

end Libnmo.Lib.BitWords
