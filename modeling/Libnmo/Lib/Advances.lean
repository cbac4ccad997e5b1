import Libnmo.Lib.Reads

/-! How far a reader moves its position: bounds from above, which hold wherever the reader
succeeds and so also for readers that have lost their place, and readers that move on. What
a reader has consumed lay before a limit, so a recursion that consumes at every turn comes
to an end there. -/
namespace Libnmo.Lib

variable {ε α β : Type} {steps steps' : Nat}

/-- Wherever the reader succeeds, the position is at most so many entries on. -/
def Advances (steps : Nat) (action : Action ε Nat α) : Prop :=
  ∀ pos value next, action.run pos = (.ok value,next) → next ≤ pos + steps

theorem advances_pure (value : α) : Advances steps (pure value : Action ε Nat α) := by
  intro pos found next run
  simp only [Action.pure_apply,Prod.mk.injEq] at run
  omega

theorem advances_stop (e : ε) : Advances steps (Action.stop e : Action ε Nat α) := by
  intro pos found next run
  simp at run

theorem advances_read (f : Nat → α) : Advances 0 (Action.read f : Action ε Nat α) := by
  intro pos value next run
  simp only [Action.read_apply,Prod.mk.injEq] at run
  omega

theorem advances_bind {first : Action ε Nat α} {rest : α → Action ε Nat β} (head : Advances steps first)
    (tail : ∀ middle, Advances steps' (rest middle)) : Advances (steps + steps') (first >>= rest) := by
  intro pos value next run
  obtain ⟨middle,between,run,ran⟩ := Action.bind_success run
  have front := head _ _ _ run
  have back := tail middle _ _ _ ran
  omega

theorem advances_map {action : Action ε Nat α} (f : α → β) (moves : Advances steps action) :
    Advances steps (action >>= fun value => pure (f value)) := by
  intro pos found next run
  obtain ⟨value,ran,rfl⟩ := return_success run
  exact moves _ _ _ ran

theorem advances_times {action : Action ε Nat α} (moves : Advances steps action) (count : Nat) :
    Advances (count * steps) (action.times count) := by
  induction count with
  | zero => exact advances_pure _
  | succ count ih =>
    rw [Nat.succ_mul,Nat.add_comm]
    exact advances_bind moves fun value => advances_map (value :: ·) ih

section Onward
variable {limit : Nat}

/-- Wherever the reader succeeds, it has not gone back. -/
def Onward (action : Action ε Nat α) : Prop :=
  ∀ pos value next, action.run pos = (.ok value,next) → pos ≤ next

/-- Wherever the reader succeeds, it has started before the limit and gone on. -/
def Consumes (limit : Nat) (action : Action ε Nat α) : Prop :=
  ∀ pos value next, action.run pos = (.ok value,next) → pos < limit ∧ pos < next

theorem Consumes.onward {action : Action ε Nat α} (consumes : Consumes limit action) : Onward action := by
  intro pos value next run
  exact Nat.le_of_lt (consumes pos value next run).2

theorem onward_pure (value : α) : Onward (pure value : Action ε Nat α) := by
  intro pos found next run
  exact Nat.le_of_eq (Prod.mk.inj run).2

theorem onward_stop (e : ε) : Onward (Action.stop e : Action ε Nat α) := by
  intro pos found next run
  simp at run

theorem onward_read (f : Nat → α) : Onward (Action.read f : Action ε Nat α) := by
  intro pos found next run
  exact Nat.le_of_eq (Prod.mk.inj run).2

theorem onward_bind {first : Action ε Nat α} {next : α → Action ε Nat β} (head : Onward first)
    (tail : ∀ middle, Onward (next middle)) : Onward (first >>= next) := by
  intro pos value stop run
  obtain ⟨middle,between,ran,run⟩ := Action.bind_success run
  exact Nat.le_trans (head _ _ _ ran) (tail middle _ _ _ run)

theorem consumes_bind {first : Action ε Nat α} {next : α → Action ε Nat β} (head : Consumes limit first)
    (tail : ∀ middle, Onward (next middle)) : Consumes limit (first >>= next) := by
  intro pos value stop run
  obtain ⟨middle,between,ran,run⟩ := Action.bind_success run
  obtain ⟨before,moved⟩ := head _ _ _ ran
  exact ⟨before,Nat.lt_of_lt_of_le moved (tail middle _ _ _ run)⟩

theorem consumes_after {first : Action ε Nat α} {next : α → Action ε Nat β} (head : Onward first)
    (tail : ∀ middle, Consumes limit (next middle)) : Consumes limit (first >>= next) := by
  intro pos value stop run
  obtain ⟨middle,between,ran,run⟩ := Action.bind_success run
  have start := head _ _ _ ran
  obtain ⟨before,moved⟩ := tail middle _ _ _ run
  exact ⟨Nat.lt_of_le_of_lt start before,Nat.lt_of_le_of_lt start moved⟩

end Onward

end Libnmo.Lib
