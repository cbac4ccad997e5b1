import Mathlib.Data.Finset.Card
import Mathlib.Logic.Relation

/-! A loop that follows a chain. Each turn ends it or names the place of the next.
When every place that leads on is below a bound, a chain that has not ended in as
many turns and one more has met a place twice, and never ends. -/
namespace Libnmo.Lib
variable {β : Type} {turn : Nat → β ⊕ Nat}

/-- What the loop ends with, if it ends within so many turns. -/
def chase (turn : Nat → β ⊕ Nat) : Nat → Nat → Option β
  | 0,_ => none
  | turns + 1,place => match turn place with
    | .inl result => some result
    | .inr next => chase turn turns next

/-- The place after so many turns, if the loop has not ended. -/
def placeAfter (turn : Nat → β ⊕ Nat) : Nat → Nat → Option Nat
  | 0,place => some place
  | turns + 1,place => match turn place with
    | .inl _ => none
    | .inr next => placeAfter turn turns next

theorem placeAfter_running {turns place : Nat} (running : chase turn turns place = none) :
    ∃ later, placeAfter turn turns place = some later := by
  induction turns generalizing place with
  | zero => exact ⟨place,rfl⟩
  | succ turns ih =>
    rw [chase] at running
    rw [placeAfter]
    cases next : turn place with
    | inl result => simp [next] at running
    | inr next' =>
      rw [next] at running
      exact ih running

theorem chase_from {turns place later : Nat} (more : Nat) (reached : placeAfter turn turns place = some later) :
    chase turn (turns + more) place = chase turn more later := by
  induction turns generalizing place with
  | zero =>
    obtain rfl := Option.some.inj reached
    rw [Nat.zero_add]
  | succ turns ih =>
    rw [placeAfter] at reached
    rw [Nat.succ_add,chase]
    cases next : turn place with
    | inl result => simp [next] at reached
    | inr next' =>
      rw [next] at reached
      exact ih reached

theorem chase_more {turns place : Nat} {result : β} (ended : chase turn turns place = some result) (more : Nat) :
    chase turn (turns + more) place = some result := by
  induction turns generalizing place with
  | zero => simp [chase] at ended
  | succ turns ih =>
    rw [chase] at ended
    rw [Nat.succ_add,chase]
    cases next : turn place with
    | inl _ => simpa [next] using ended
    | inr next' =>
      rw [next] at ended
      exact ih ended

theorem placeAfter_leads {bound turns place later : Nat} (more : Nat) (leads : ∀ at' next, turn at' = .inr next → at' < bound)
    (reached : placeAfter turn turns place = some later) (running : chase turn (turns + (more + 1)) place = none) :
    later < bound := by
  rw [chase_from (more + 1) reached,chase] at running
  cases next : turn later with
  | inl result => simp [next] at running
  | inr next' => exact leads later next' next

/-- Two times at one place, the chain goes round. -/
theorem chase_round {first second place later : Nat} (order : first < second)
    (before : placeAfter turn first place = some later) (again : placeAfter turn second place = some later) (turns : Nat) :
    chase turn turns place = none := by
  induction turns using Nat.strongRecOn with
  | _ turns ih =>
    by_contra ended
    obtain ⟨result,ended⟩ := Option.ne_none_iff_exists'.mp ended
    by_cases short : turns ≤ second
    · have late := chase_more ended (second - turns)
      rw [show turns + (second - turns) = second + 0 by omega,chase_from 0 again,chase] at late
      simp at late
    · have rest := chase_from (turns - second) again
      rw [show second + (turns - second) = turns by omega,ended,← chase_from (turns - second) before] at rest
      rw [ih (first + (turns - second)) (by omega)] at rest
      simp at rest

theorem chase_endless {bound place : Nat} (leads : ∀ at' next, turn at' = .inr next → at' < bound)
    (running : chase turn (bound + 1) place = none) (turns : Nat) : chase turn turns place = none := by
  have shorter (k : Nat) (inside : k ≤ bound + 1) : chase turn k place = none := by
    cases ended : chase turn k place with
    | none => rfl
    | some result =>
      have late := chase_more ended (bound + 1 - k)
      rw [show k + (bound + 1 - k) = bound + 1 by omega,running] at late
      simp at late
  have position (k : Nat) (inside : k ≤ bound) : ∃ later, placeAfter turn k place = some later ∧ later < bound := by
    obtain ⟨later,reached⟩ := placeAfter_running (shorter k (by omega))
    exact ⟨later,reached,placeAfter_leads 0 leads reached (shorter (k + 1) (by omega))⟩
  have maps : ∀ k ∈ Finset.range (bound + 1), (placeAfter turn k place).getD 0 ∈ Finset.range bound := by
    intro k member
    obtain ⟨later,reached,inside⟩ := position k (Nat.lt_succ_iff.mp (Finset.mem_range.mp member))
    simpa [reached] using inside
  obtain ⟨first,first_in,second,second_in,differ,same⟩ :=
    Finset.exists_ne_map_eq_of_card_lt_of_maps_to (by simp) maps
  obtain ⟨later,reached,_⟩ := position first (Nat.lt_succ_iff.mp (Finset.mem_range.mp first_in))
  obtain ⟨later',reached',_⟩ := position second (Nat.lt_succ_iff.mp (Finset.mem_range.mp second_in))
  simp only [reached,reached',Option.getD_some] at same
  subst same
  rcases Nat.lt_or_gt_of_ne differ with order | order
  · exact chase_round order reached reached' turns
  · exact chase_round order reached' reached turns

def Leads (turn : Nat → β ⊕ Nat) (place next : Nat) : Prop := turn place = .inr next

theorem leads_unique {place next next' : Nat} (first : Leads turn place next) (second : Leads turn place next') :
    next = next' :=
  Sum.inr.inj (first.symm.trans second)

/-- A place from which the chain ends does not come back to itself. -/
theorem no_round {place last : Nat} {result : β} (chain : Relation.ReflTransGen (Leads turn) place last)
    (ends : turn last = .inl result) : ¬ Relation.TransGen (Leads turn) place place := by
  induction chain using Relation.ReflTransGen.head_induction_on with
  | refl =>
    intro round
    obtain ⟨next,step,_⟩ := Relation.TransGen.head'_iff.mp round
    rw [Leads,ends] at step
    simp at step
  | head step rest ih =>
    intro round
    obtain ⟨next,step',back⟩ := Relation.TransGen.head'_iff.mp round
    obtain rfl := leads_unique step step'
    exact ih (Relation.TransGen.tail' back step)

theorem chase_leads {turns place : Nat} {result : β} (ended : chase turn turns place = some result) :
    ∃ last, Relation.ReflTransGen (Leads turn) place last ∧ turn last = .inl result := by
  induction turns generalizing place with
  | zero => simp [chase] at ended
  | succ turns ih =>
    rw [chase] at ended
    cases next : turn place with
    | inl found =>
      rw [next] at ended
      exact ⟨place,.refl,by rw [next,Option.some.inj ended]⟩
    | inr next' =>
      rw [next] at ended
      obtain ⟨last,chain,ends⟩ := ih ended
      exact ⟨last,.head next chain,ends⟩

theorem leads_chase {place last : Nat} {result : β} (chain : Relation.ReflTransGen (Leads turn) place last)
    (ends : turn last = .inl result) : ∃ turns, chase turn turns place = some result := by
  induction chain using Relation.ReflTransGen.head_induction_on with
  | refl => exact ⟨1,by rw [chase,ends]⟩
  | head step rest ih =>
    obtain ⟨turns,ended⟩ := ih
    exact ⟨turns + 1,by rw [chase,step]; exact ended⟩

/-- The loop ends with what the last place of its chain gives. -/
theorem chase_iff {bound place : Nat} {result : β} (leads : ∀ at' next, turn at' = .inr next → at' < bound) :
    chase turn (bound + 1) place = some result ↔
      ∃ last, Relation.ReflTransGen (Leads turn) place last ∧ turn last = .inl result := by
  refine ⟨chase_leads,fun ⟨last,chain,ends⟩ => ?_⟩
  obtain ⟨turns,ended⟩ := leads_chase chain ends
  cases running : chase turn (bound + 1) place with
  | none =>
    rw [chase_endless leads running] at ended
    simp at ended
  | some found =>
    have late := chase_more ended (bound + 1)
    rw [Nat.add_comm,chase_more running turns] at late
    exact late

theorem chase_enough {bound turns place : Nat} (leads : ∀ at' next, turn at' = .inr next → at' < bound)
    (enough : bound + 1 ≤ turns) : chase turn turns place = chase turn (bound + 1) place := by
  obtain ⟨more,rfl⟩ := Nat.exists_eq_add_of_le enough
  cases running : chase turn (bound + 1) place with
  | none => exact chase_endless leads running _
  | some result => exact chase_more running more

/-- The loop ends if some place of its chain does not lead on. -/
theorem chase_ends {bound place : Nat} (leads : ∀ at' next, turn at' = .inr next → at' < bound) :
    (∃ result, chase turn (bound + 1) place = some result) ↔
      ∃ last, Relation.ReflTransGen (Leads turn) place last ∧ ∃ result, turn last = .inl result := by
  constructor
  · rintro ⟨result,ended⟩
    obtain ⟨last,chain,ends⟩ := (chase_iff leads).mp ended
    exact ⟨last,chain,result,ends⟩
  · rintro ⟨last,chain,result,ends⟩
    exact ⟨result,(chase_iff leads).mpr ⟨last,chain,ends⟩⟩

end Libnmo.Lib
