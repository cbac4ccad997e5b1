import Mathlib.Data.List.Forall2
import Mathlib.Data.List.TakeWhile

/-! A loop that passes over the item after each one that it works on. Whether an
item is worked on depends only on the run of workable items that ends right before
it: every second item of a run is passed over. -/
namespace Libnmo.Lib

variable {α : Type}

/-- The step says whether it worked on its item; the item after that is left as it is. -/
def skipNext (step : α → Bool × α) : List α → List α
  | [] => []
  | [item] => [(step item).2]
  | item :: next :: rest =>
    if (step item).1 then (step item).2 :: next :: skipNext step rest
    else (step item).2 :: skipNext step (next :: rest)

/-- How many items right before the position have the property, with none without it in between. -/
def runBefore (p : α → Bool) (items : List α) (i : Nat) : Nat := ((items.take i).reverse.takeWhile p).length

section
variable {p : α → Bool} {item next : α} {rest : List α}

theorem runBefore_zero (items : List α) : runBefore p items 0 = 0 := by simp [runBefore]

/-- The items in front count where the run reaches them. -/
theorem runBefore_front (front : List α) (i : Nat) :
    runBefore p (front ++ rest) (front.length + i) =
      runBefore p rest i + if (rest.take i).all p then (front.reverse.takeWhile p).length else 0 := by
  simp only [runBefore,List.take_length_add_append,List.reverse_append,List.takeWhile_append]
  by_cases whole : (rest.take i).all p
  · have same : (rest.take i).reverse.takeWhile p = (rest.take i).reverse := by
      rw [List.takeWhile_eq_self_iff]
      simpa using whole
    rw [same,if_pos rfl,if_pos whole,List.length_append]
  · have short : ¬ ((rest.take i).reverse.takeWhile p).length = (rest.take i).reverse.length := by
      intro same
      have prefixed := List.IsPrefix.eq_of_length (List.takeWhile_prefix p) same
      rw [List.takeWhile_eq_self_iff] at prefixed
      exact whole (by simpa using prefixed)
    rw [if_neg short,if_neg whole,Nat.add_zero]

theorem runBefore_ended (ended : p item = false) (i : Nat) :
    runBefore p (item :: rest) (i + 1) = runBefore p rest i := by
  have front : runBefore p ([item] ++ rest) ([item].length + i) = _ := runBefore_front [item] i
  rw [List.length_singleton,Nat.add_comm 1 i] at front
  simpa [ended] using front

/-- A pair in front, worked on or with the run ending between the two, leaves the parity. -/
theorem runBefore_pair (worked : p item = true) (i : Nat) :
    runBefore p (item :: next :: rest) (i + 2) % 2 = runBefore p rest i % 2 := by
  have front : runBefore p ([item,next] ++ rest) ([item,next].length + i) = _ := runBefore_front [item,next] i
  rw [show [item,next].length + i = i + 2 by simp; omega] at front
  rw [show item :: next :: rest = [item,next] ++ rest from rfl,front]
  cases more : p next <;> split <;> simp [worked,more]

end

/-- An item is worked on exactly when the run before it is even. -/
theorem getElem?_skipNext (step : α → Bool × α) (items : List α) (i : Nat) :
    (skipNext step items)[i]? =
      if runBefore (fun a => (step a).1) items i % 2 = 0 then items[i]?.map fun a => (step a).2 else items[i]? := by
  induction items using skipNext.induct step generalizing i with
  | case1 => simp [skipNext]
  | case2 item =>
    cases i with
    | zero => simp [skipNext,runBefore_zero]
    | succ i => simp [skipNext]
  | case3 item next rest worked ih =>
    rw [skipNext,if_pos worked]
    match i with
    | 0 => simp [runBefore_zero]
    | 1 => simp [runBefore,worked]
    | i + 2 =>
      rw [runBefore_pair (p := fun a => (step a).1) worked i]
      simpa using ih i
  | case4 item next rest idle ih =>
    rw [skipNext,if_neg idle]
    cases i with
    | zero => simp [runBefore_zero]
    | succ i =>
      rw [runBefore_ended (p := fun a => (step a).1) (by simpa using idle)]
      simpa using ih i

/-- What holds between an item and what the step makes of it holds all along the loop. -/
theorem forall₂_skipNext {step : α → Bool × α} {related : α → α → Prop} (same : ∀ a, related a a)
    (each : ∀ a, related a (step a).2) (items : List α) : List.Forall₂ related items (skipNext step items) := by
  induction items using skipNext.induct step with
  | case1 => exact .nil
  | case2 item => exact .cons (each item) .nil
  | case3 item next rest worked ih =>
    rw [skipNext,if_pos worked]
    exact .cons (each item) (.cons (same next) ih)
  | case4 item next rest idle ih =>
    rw [skipNext,if_neg idle]
    exact .cons (each item) ih

end Libnmo.Lib
