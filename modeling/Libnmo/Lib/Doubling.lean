import Mathlib.Algebra.Group.Nat.Defs
import Mathlib.Data.Nat.Init
import Mathlib.Data.Nat.Find

/-! A machine word that is doubled until it covers what is required. Words wrap, so
the doubling may pass the requirement by, and after as many rounds as a word has bits
it stands at zero for good: more fuel than that decides whether the loop ends. -/
namespace Libnmo.Lib.Doubling

/-- The loop, for words of a number of bits. -/
def doubleUntil (bits required : Nat) : Nat → Nat → Option Nat
  | 0,_ => none
  | fuel + 1,word => if word < required then doubleUntil bits required fuel (word * 2 % 2 ^ bits) else some word

/-- The loop that gives up doubling above a limit, and takes what is required. -/
def doubleCapped (limit required : Nat) : Nat → Nat → Option Nat
  | 0,_ => none
  | fuel + 1,word =>
    if word < required then
      if word > limit then some required else doubleCapped limit required fuel (word * 2)
    else some word

/-- The word after a number of rounds. -/
def doubled (bits word round : Nat) : Nat := word * 2 ^ round % 2 ^ bits

/-- The first round in which the word covers what is required. -/
def CoversFirst (bits required word round : Nat) : Prop :=
  required ≤ doubled bits word round ∧ ∀ earlier < round, doubled bits word earlier < required

variable {bits required word round fuel reached : Nat}

theorem doubled_zero (small : word < 2 ^ bits) : doubled bits word 0 = word := by
  rw [doubled,Nat.pow_zero,Nat.mul_one,Nat.mod_eq_of_lt small]

theorem doubled_succ : doubled bits (word * 2 % 2 ^ bits) round = doubled bits word (round + 1) := by
  rw [doubled,doubled,Nat.mod_mul_mod,Nat.mul_assoc,Nat.pow_succ,Nat.mul_comm 2]

theorem doubled_late (late : bits ≤ round) : doubled bits word round = 0 := by
  obtain ⟨more,rfl⟩ := Nat.exists_eq_add_of_le late
  rw [doubled,Nat.pow_add,Nat.mul_left_comm]
  exact Nat.mul_mod_right _ _

theorem doubled_small (small : word * 2 ^ round < 2 ^ bits) : doubled bits word round = word * 2 ^ round :=
  Nat.mod_eq_of_lt small

theorem CoversFirst.early (first : CoversFirst bits required word round) (wanted : 0 < required) : round < bits := by
  rcases Nat.lt_or_ge round bits with early | late
  · exact early
  · have covered := first.1
    rw [doubled_late late] at covered
    omega

theorem CoversFirst.unique {other : Nat} (first : CoversFirst bits required word round)
    (second : CoversFirst bits required word other) : round = other := by
  rcases Nat.lt_trichotomy round other with less | same | more
  · exact absurd first.1 (Nat.not_le.mpr (second.2 round less))
  · exact same
  · exact absurd second.1 (Nat.not_le.mpr (first.2 other more))

theorem coversFirst_succ (small : word < 2 ^ bits) (short : word < required) :
    CoversFirst bits required word (round + 1) ↔ CoversFirst bits required (word * 2 % 2 ^ bits) round := by
  simp only [CoversFirst,doubled_succ]
  refine and_congr_right fun _ => ⟨fun earlier step less => earlier (step + 1) (Nat.succ_lt_succ less),?_⟩
  intro earlier step less
  cases step with
  | zero => rw [doubled_zero small]; exact short
  | succ step => exact earlier step (Nat.lt_of_succ_lt_succ less)

/-- The loop ends with the word of the first round that covers the requirement. -/
theorem doubleUntil_eq_some (small : word < 2 ^ bits) : doubleUntil bits required fuel word = some reached ↔
    ∃ round < fuel, CoversFirst bits required word round ∧ doubled bits word round = reached := by
  induction fuel generalizing word with
  | zero => simp [doubleUntil]
  | succ fuel ih =>
    rw [doubleUntil]
    split
    · rename_i short
      rw [ih (Nat.mod_lt _ (Nat.two_pow_pos bits))]
      constructor
      · rintro ⟨round,less,first,same⟩
        exact ⟨round + 1,Nat.succ_lt_succ less,(coversFirst_succ small short).mpr first,doubled_succ.symm.trans same⟩
      · rintro ⟨round,less,first,same⟩
        cases round with
        | zero => exact absurd first.1 (by rw [doubled_zero small]; omega)
        | succ round =>
          exact ⟨round,Nat.lt_of_succ_lt_succ less,(coversFirst_succ small short).mp first,doubled_succ.trans same⟩
    · rename_i enough
      have here : CoversFirst bits required word 0 := ⟨by rw [doubled_zero small]; omega,fun _ less => absurd less (Nat.not_lt_zero _)⟩
      constructor
      · intro same
        exact ⟨0,Nat.succ_pos fuel,here,(doubled_zero small).trans (Option.some.inj same)⟩
      · rintro ⟨round,_,first,same⟩
        rw [first.unique here,doubled_zero small] at same
        rw [same]

/-- With fuel for every bit the loop ends just when some round covers the requirement. -/
theorem doubleUntil_ends (small : word < 2 ^ bits) (wanted : 0 < required) (enough : bits ≤ fuel) :
    doubleUntil bits required fuel word = some reached ↔
      ∃ round, CoversFirst bits required word round ∧ doubled bits word round = reached := by
  rw [doubleUntil_eq_some small]
  constructor
  · rintro ⟨round,_,found⟩
    exact ⟨round,found⟩
  · rintro ⟨round,first,same⟩
    exact ⟨round,Nat.lt_of_lt_of_le (first.early wanted) enough,first,same⟩

/-- The loop that has not ended by then never does. -/
theorem doubleUntil_endless (small : word < 2 ^ bits) (wanted : 0 < required) (enough : bits ≤ fuel)
    (never : doubleUntil bits required fuel word = none) (more : Nat) : doubleUntil bits required more word = none := by
  refine Option.eq_none_iff_forall_ne_some.mpr fun reached ends => ?_
  obtain ⟨round,_,found⟩ := (doubleUntil_eq_some small).mp ends
  rw [(doubleUntil_ends small wanted enough).mpr ⟨round,found⟩] at never
  exact absurd never (Option.some_ne_none _)

/-- A requirement that some product with a power of two covers below the size of a word is reached, by a product
that is no larger. -/
theorem coversFirst_of_pow (covers : required ≤ word * 2 ^ round) (small : word * 2 ^ round < 2 ^ bits) :
    ∃ first ≤ round, CoversFirst bits required word first ∧ doubled bits word first = word * 2 ^ first := by
  have exists_round : ∃ round, required ≤ word * 2 ^ round := ⟨round,covers⟩
  have least : Nat.find exists_round ≤ round := Nat.find_min' exists_round covers
  have below {step : Nat} (less : step ≤ round) : doubled bits word step = word * 2 ^ step :=
    doubled_small (Nat.lt_of_le_of_lt (Nat.mul_le_mul_left word (Nat.pow_le_pow_right (by decide) less)) small)
  refine ⟨Nat.find exists_round,least,⟨?_,fun earlier less => ?_⟩,below least⟩
  · rw [below least]
    exact Nat.find_spec exists_round
  · rw [below (Nat.le_trans (Nat.le_of_lt less) least)]
    exact Nat.lt_of_not_le (Nat.find_min exists_round less)

/-- With a limit the loop always ends, with no less than is required and no more than that, the word, or twice the limit. -/
theorem doubleCapped_ends {limit : Nat} (some_there : 0 < word) (enough : limit < word * 2 ^ fuel) :
    ∃ reached, doubleCapped limit required (fuel + 1) word = some reached ∧ required ≤ reached ∧
      reached ≤ max required (max word (limit * 2)) := by
  induction fuel generalizing word with
  | zero =>
    rw [doubleCapped]
    split
    · rw [if_pos (by omega)]
      exact ⟨required,rfl,Nat.le_refl _,Nat.le_max_left ..⟩
    · exact ⟨word,rfl,by omega,by omega⟩
  | succ fuel ih =>
    rw [doubleCapped]
    split
    · split
      · exact ⟨required,rfl,Nat.le_refl _,Nat.le_max_left ..⟩
      · obtain ⟨reached,ends,covers,below⟩ := @ih (word * 2) (by omega) (by rw [Nat.mul_assoc,← Nat.pow_succ']; exact enough)
        exact ⟨reached,ends,covers,by omega⟩
    · exact ⟨word,rfl,by omega,by omega⟩

end Libnmo.Lib.Doubling
