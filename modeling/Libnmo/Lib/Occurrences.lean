import Mathlib.Data.List.Infix

/-! Occurrences of a needle in a text, met from the left. A text with all of them replaced
is described by its parts: what lies before the first one, and what is made of the rest. -/
namespace Libnmo.Lib.Occurrences

variable {α : Type}

/-- The needle is found at a place and at none before it, from a start on. -/
structure FirstAt (needle text : List α) (start place : Nat) : Prop where
  after : start ≤ place
  here : needle <+: text.drop place
  earlier : ∀ other, start ≤ other → other < place → ¬ needle <+: text.drop other

/-- The leftmost occurrences that do not overlap are all replaced, and counted. -/
inductive Replaced (needle replacement : List α) : List α → List α → Nat → Prop
  | done {text : List α} (absent : ¬ needle <:+: text) : Replaced needle replacement text text 0
  | step {before after out : List α} {count : Nat} (first : FirstAt needle (before ++ needle ++ after) 0 before.length)
      (rest : Replaced needle replacement after out count) :
      Replaced needle replacement (before ++ needle ++ after) (before ++ replacement ++ out) (count + 1)

variable {needle text front : List α} {start place : Nat}

/-- A text is cut around the place of an occurrence. -/
theorem FirstAt.split (first : FirstAt needle text start place) :
    text = text.take place ++ needle ++ text.drop (place + needle.length) := by
  obtain ⟨rest,same⟩ := first.here
  have behind : text.drop (place + needle.length) = rest := by
    rw [← List.drop_drop,← same,List.drop_left]
  rw [behind,List.append_assoc,same,List.take_append_drop]

theorem FirstAt.bound (first : FirstAt needle text start place) (some_there : needle ≠ []) :
    place + needle.length ≤ text.length := by
  have length := first.here.length_le
  have positive := List.length_pos_iff.mpr some_there
  rw [List.length_drop] at length
  omega

/-- What lies before the start is of no account. -/
theorem firstAt_append : FirstAt needle (front ++ text) front.length (front.length + place) ↔
    FirstAt needle text 0 place := by
  constructor
  · intro first
    refine ⟨Nat.zero_le _,?_,fun other _ less found => ?_⟩
    · have here := first.here
      rwa [List.drop_length_add_append] at here
    · refine first.earlier (front.length + other) (Nat.le_add_right ..) (Nat.add_lt_add_left less _) ?_
      rwa [List.drop_length_add_append]
  · intro first
    refine ⟨Nat.le_add_right ..,?_,fun other inside less found => ?_⟩
    · rw [List.drop_length_add_append]
      exact first.here
    · obtain ⟨further,rfl⟩ := Nat.exists_eq_add_of_le inside
      rw [List.drop_length_add_append] at found
      exact first.earlier further (Nat.zero_le _) (Nat.lt_of_add_lt_add_left less) found

theorem absent_of_drop (never : ∀ place, ¬ needle <+: text.drop place) : ¬ needle <:+: text := by
  rintro ⟨before,after,same⟩
  refine never before.length ⟨after,?_⟩
  rw [← same,List.append_assoc,List.drop_left]

end Libnmo.Lib.Occurrences
