import Mathlib.Data.List.Perm.Basic
import Mathlib.Data.List.Nodup

/-! Dense lists of entries with different keys. An entry leaves the list when the
last one takes its place, so only the order of those that stay may change. -/
namespace Libnmo.Lib
open scoped List
variable {α κ : Type}

/-- The last element takes the place of the one at the index. -/
def fillGap (entries : List α) (i : Nat) : List α :=
  match entries.getLast? with
  | none => []
  | some last => (entries.set i last).dropLast

theorem fillGap_concat (entries : List α) (last : α) : fillGap (entries ++ [last]) entries.length = entries := by
  simp [fillGap]

theorem fillGap_perm {entries : List α} {i : Nat} (inside : i < entries.length) :
    fillGap entries i ~ entries.eraseIdx i := by
  cases List.eq_nil_or_concat entries with
  | inl empty =>
    rw [empty] at inside
    cases inside
  | inr some =>
    obtain ⟨front,last,rfl⟩ := some
    rw [List.concat_eq_append] at inside ⊢
    cases Nat.lt_or_ge i front.length with
    | inl early =>
      have filled : fillGap (front ++ [last]) i = front.set i last := by
        simp [fillGap,List.set_append_left _ _ early]
      rw [filled,List.eraseIdx_append_of_lt_length early]
      exact (List.set_perm_cons_eraseIdx early last).trans (List.perm_append_singleton ..).symm
    | inr late =>
      have position : i = front.length := by
        rw [List.length_append] at inside
        exact Nat.le_antisymm (Nat.lt_succ_iff.mp inside) late
      rw [position,fillGap_concat,List.eraseIdx_append_of_length_le (Nat.le_refl _),Nat.sub_self]
      simp

/-- Of the elements that pass, the first that is hit leaves if it passes. -/
theorem filter_eraseP (passes : α → Bool) {hit : α → Bool} {entries : List α} {entry : α}
    (found : entries.find? hit = some entry) : (entries.eraseP hit).filter passes =
      if passes entry then (entries.filter passes).eraseP hit else entries.filter passes := by
  induction entries with
  | nil => cases found
  | cons first rest ih =>
    rw [List.find?_cons] at found
    cases here : hit first with
    | true =>
      rw [here] at found
      rw [List.eraseP_cons_of_pos here,← Option.some.inj found,List.filter_cons]
      split
      · rw [List.eraseP_cons_of_pos here]
      · rfl
    | false =>
      rw [here] at found
      have away : ¬ hit first = true := here ▸ Bool.false_ne_true
      rw [List.eraseP_cons_of_neg away,List.filter_cons,List.filter_cons,ih found]
      split
      · split
        · rw [List.eraseP_cons_of_neg away]
        · rfl
      · rfl

/-- Lists that agree still do when one element is added to both or to neither. -/
theorem perm_added_iff {left right : List α} (same : left ~ right) (entry : α) (one other : Prop) [Decidable one]
    [Decidable other] : (left ++ if one then [entry] else []) ~ (right ++ if other then [entry] else []) ↔
      (one ↔ other) := by
  by_cases first : one
  · by_cases second : other
    · rw [if_pos first,if_pos second]
      exact iff_of_true (same.append_right _) (iff_of_true first second)
    · rw [if_pos first,if_neg second]
      refine iff_of_false (fun longer => ?_) fun both => second (both.mp first)
      have size := longer.length_eq
      rw [List.length_append,List.length_append,same.length_eq] at size
      exact absurd size (Nat.succ_ne_self _)
  · by_cases second : other
    · rw [if_neg first,if_pos second]
      refine iff_of_false (fun shorter => ?_) fun both => first (both.mpr second)
      have size := shorter.length_eq
      rw [List.length_append,List.length_append,same.length_eq] at size
      exact absurd size.symm (Nat.succ_ne_self _)
    · rw [if_neg first,if_neg second]
      exact iff_of_true (same.append_right _) (iff_of_false first second)

variable [DecidableEq κ] (key : α → κ)

/-- The entry with the key leaves the list. -/
def removeKey (entries : List α) (k : κ) : List α :=
  match entries.findIdx? fun entry => key entry = k with
  | none => entries
  | some i => fillGap entries i

theorem removeKey_concat {entries : List α} {entry : α} (absent : ∀ other ∈ entries, key other ≠ key entry) :
    removeKey key (entries ++ [entry]) (key entry) = entries := by
  have found : (entries ++ [entry]).findIdx? (fun other => key other = key entry) = some entries.length := by
    rw [List.findIdx?_append,List.findIdx?_eq_none_iff.mpr (by simpa using absent)]
    simp
  rw [removeKey,found]
  exact fillGap_concat entries entry

theorem removeKey_perm (entries : List α) (k : κ) :
    removeKey key entries k ~ entries.eraseP fun entry => key entry = k := by
  rw [removeKey,List.eraseP_eq_eraseIdx]
  cases found : entries.findIdx? fun entry => key entry = k with
  | none => exact List.Perm.refl _
  | some i => exact fillGap_perm (List.findIdx?_eq_some_iff_getElem.mp found).1

section
variable {key} {entries : List α} (distinct : (entries.map key).Nodup) (k : κ)
include distinct

theorem distinct_removeKey : ((removeKey key entries k).map key).Nodup := by
  have same := (removeKey_perm key entries k).map key
  exact same.nodup_iff.mpr (distinct.sublist (List.eraseP_sublist.map key))

theorem mem_removeKey (entry : α) : entry ∈ removeKey key entries k ↔ entry ∈ entries ∧ key entry ≠ k := by
  rw [(removeKey_perm key entries k).mem_iff]
  by_cases named : key entry = k
  · simp only [named,ne_eq,not_true_eq_false,and_false,iff_false]
    intro member
    induction entries with
    | nil => cases member
    | cons first rest ih =>
      rw [List.map_cons,List.nodup_cons] at distinct
      rw [List.eraseP_cons] at member
      by_cases here : key first = k
      · rw [decide_eq_true here,cond_true] at member
        apply distinct.1
        rw [here,← named]
        exact List.mem_map_of_mem member
      · rw [decide_eq_false here,cond_false] at member
        cases List.mem_cons.mp member with
        | inl equal => exact here (equal ▸ named)
        | inr later => exact ih distinct.2 later
  · rw [List.mem_eraseP_of_neg (by simpa using named)]
    exact ⟨fun member => ⟨member,named⟩,And.left⟩

end

end Libnmo.Lib
