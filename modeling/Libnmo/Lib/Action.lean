import Mathlib.Data.List.Basic

/-! Actions on a state that may stop early. The state survives a stop, as the
memory of a program does when a function returns an error. Sequencing is stated
once, for runs that go on, for runs that stop and for what both preserve. -/
namespace Libnmo.Lib

structure Action (ε σ α : Type) where
  run : σ → Except ε α × σ

namespace Action
variable {ε σ α β : Type}

def andThen (first : Action ε σ α) (next : α → Action ε σ β) : Action ε σ β where
  run s := match first.run s with
    | (.ok a,s') => (next a).run s'
    | (.error e,s') => (.error e,s')

instance : Monad (Action ε σ) where
  pure a := ⟨fun s => (.ok a,s)⟩
  bind := andThen

def stop (e : ε) : Action ε σ α := ⟨fun s => (.error e,s)⟩

def read (f : σ → α) : Action ε σ α := ⟨fun s => (.ok (f s),s)⟩

def update (f : σ → σ) : Action ε σ Unit := ⟨fun s => (.ok (),f s)⟩

def lift (outcome : Except ε α) : Action ε σ α := ⟨fun s => (outcome,s)⟩

/-- A loop that runs the action `count` times and collects the values. -/
def times (action : Action ε σ α) : Nat → Action ε σ (List α)
  | 0 => pure []
  | count + 1 => do
    let value ← action
    let values ← times action count
    pure (value :: values)

theorem eq_of_run {left right : Action ε σ α} (same : ∀ s, left.run s = right.run s) : left = right := by
  cases left
  cases right
  exact congrArg Action.mk (funext same)

@[simp] theorem pure_apply (a : α) (s : σ) : (pure a : Action ε σ α).run s = (.ok a,s) := rfl

@[simp] theorem stop_apply (e : ε) (s : σ) : (stop e : Action ε σ α).run s = (.error e,s) := rfl

@[simp] theorem read_apply (f : σ → α) (s : σ) : (read f : Action ε σ α).run s = (.ok (f s),s) := rfl

@[simp] theorem lift_apply (outcome : Except ε α) (s : σ) :
    (lift outcome : Action ε σ α).run s = (outcome,s) := rfl

@[simp] theorem update_apply (f : σ → σ) (s : σ) : (update f : Action ε σ Unit).run s = (.ok (),f s) := rfl

theorem bind_apply (first : Action ε σ α) (next : α → Action ε σ β) (s : σ) :
    (first >>= next).run s = match first.run s with
      | (.ok a,s') => (next a).run s'
      | (.error e,s') => (.error e,s') := rfl

theorem bind_ok {first : Action ε σ α} (next : α → Action ε σ β) {s t : σ} {a : α}
    (ran : first.run s = (.ok a,t)) : (first >>= next).run s = (next a).run t := by
  rw [bind_apply,ran]

theorem bind_error {first : Action ε σ α} (next : α → Action ε σ β) {s t : σ} {e : ε}
    (ran : first.run s = (.error e,t)) : (first >>= next).run s = (.error e,t) := by
  rw [bind_apply,ran]

theorem bind_success {first : Action ε σ α} {next : α → Action ε σ β} {s t : σ} {b : β}
    (ok : (first >>= next).run s = (.ok b,t)) : ∃ a s', first.run s = (.ok a,s') ∧ (next a).run s' = (.ok b,t) := by
  rw [bind_apply] at ok
  split at ok
  · rename_i a s' ran
    exact ⟨a,s',ran,ok⟩
  · simp at ok

theorem bind_assoc {γ : Type} (first : Action ε σ α) (next : α → Action ε σ β) (last : β → Action ε σ γ) :
    (first >>= next) >>= last = first >>= fun a => next a >>= last := by
  refine eq_of_run fun s => ?_
  rw [bind_apply,bind_apply,bind_apply]
  split <;> rename_i ran
  · split at ran
    · rename_i run
      rw [bind_apply,ran]
    · cases ran
  · split at ran
    · rename_i run
      rw [bind_apply,ran]
    · cases ran
      rfl

theorem map_apply (action : Action ε σ α) (f : α → β) (s : σ) :
    (action >>= fun a => pure (f a)).run s = ((action.run s).1.map f,(action.run s).2) := by
  rw [bind_apply]
  split <;> rename_i ran <;> rw [ran] <;> rfl

/-- What follows a check ran because the check found no fault. -/
theorem check_success {fault : Prop} [Decidable fault] {e : ε} {next : Unit → Action ε σ β} {s t : σ} {b : β}
    (ok : ((if fault then stop e else pure ()) >>= next).run s = (.ok b,t)) :
    ¬ fault ∧ (next ()).run s = (.ok b,t) := by
  split at ok
  · rw [bind_error _ (stop_apply e s)] at ok
    simp at ok
  · rename_i absent
    exact ⟨absent,ok⟩

/-- Whatever value the action comes to, from any state, satisfies a condition. -/
def Yields (good : α → Prop) (action : Action ε σ α) : Prop := ∀ s a t, action.run s = (.ok a,t) → good a

section
variable {good : α → Prop} {wanted : β → Prop} {first : Action ε σ α} {next : α → Action ε σ β}

theorem yields_pure {a : α} (holds : good a) : Yields good (pure a : Action ε σ α) := by
  intro s b t ok
  obtain ⟨same,_⟩ := Prod.mk.inj ok
  rwa [← Except.ok.inj same]

theorem yields_stop (e : ε) : Yields good (stop e : Action ε σ α) := by
  intro s a t ok
  cases (Prod.mk.inj ok).1

theorem yields_bind (head : Yields good first) (tail : ∀ a, good a → Yields wanted (next a)) :
    Yields wanted (first >>= next) := by
  intro s b t ok
  obtain ⟨a,s',ran,ok⟩ := bind_success ok
  exact tail a (head s a s' ran) s' b t ok

/-- The value of the first action does not matter. -/
theorem yields_after (tail : ∀ a, Yields wanted (next a)) : Yields wanted (first >>= next) := by
  have any : Yields (fun _ => True) first := fun _ _ _ _ => trivial
  exact yields_bind any fun a _ => tail a

/-- The values of a loop are values of its action. -/
theorem yields_times (each : Yields good first) (count : Nat) :
    Yields (fun values => ∀ a ∈ values, good a) (first.times count) := by
  induction count with
  | zero => exact yields_pure fun a member => nomatch member
  | succ count ih =>
    refine yields_bind each fun a here => yields_bind ih fun others there => yields_pure ?_
    exact List.forall_mem_cons.mpr ⟨here,there⟩

end

theorem times_length {action : Action ε σ α} {count : Nat} {s t : σ} {values : List α}
    (ok : (action.times count).run s = (.ok values,t)) : values.length = count := by
  induction count generalizing s t values with
  | zero =>
    obtain ⟨same,_⟩ := Prod.mk.inj ok
    rw [← Except.ok.inj same,List.length_nil]
  | succ count ih =>
    obtain ⟨first,_,_,ok⟩ := bind_success ok
    obtain ⟨others,_,more,ok⟩ := bind_success ok
    obtain ⟨same,_⟩ := Prod.mk.inj ok
    rw [← Except.ok.inj same,List.length_cons,ih more]

/-- From a state the action comes to a value and a state that satisfy a condition, or stops as is allowed. -/
def Ends (action : Action ε σ α) (s : σ) (post : α → σ → Prop) (stops : ε → σ → Prop) : Prop :=
  match action.run s with
  | (.ok a,t) => post a t
  | (.error e,t) => stops e t

section
variable {s t : σ} {a : α} {between : α → σ → Prop} {post : β → σ → Prop} {stops : ε → σ → Prop} {first : Action ε σ α}
  {next : α → Action ε σ β}

theorem ends_bind (head : Ends first s between stops) (tail : ∀ a t, between a t → Ends (next a) t post stops) :
    Ends (first >>= next) s post stops := by
  rw [Ends] at head
  rw [Ends,bind_apply]
  cases ran : first.run s with
  | mk outcome t =>
    rw [ran] at head
    cases outcome with
    | ok a => exact tail a t head
    | error e => exact head

/-- The outcome of the first action is known. -/
theorem ends_run (ran : first.run s = (.ok a,t)) (tail : Ends (next a) t post stops) : Ends (first >>= next) s post stops := by
  rw [Ends,bind_ok next ran]
  exact tail

theorem Ends.imp {better : α → σ → Prop} {allowed : ε → σ → Prop} (ends : Ends first s between stops)
    (implies : ∀ a t, between a t → better a t) (allows : ∀ e t, stops e t → allowed e t) :
    Ends first s better allowed := by
  rw [Ends] at ends ⊢
  split at ends
  · exact implies _ _ ends
  · exact allows _ _ ends

end

/-- Whatever the outcome, the state after the action satisfies what the state before it did. -/
def Keeps (inv : σ → Prop) (action : Action ε σ α) : Prop := ∀ s, inv s → inv (action.run s).2

section
variable {inv : σ → Prop}

theorem keeps_pure (a : α) : Keeps inv (pure a : Action ε σ α) := fun _ holds => holds

theorem keeps_stop (e : ε) : Keeps inv (stop e : Action ε σ α) := fun _ holds => holds

theorem keeps_read (f : σ → α) : Keeps inv (read f : Action ε σ α) := fun _ holds => holds

/-- What is read is known to come from the state. -/
theorem keeps_inspect (f : σ → α) {next : α → Action ε σ β}
    (tail : ∀ s, inv s → inv ((next (f s)).run s).2) : Keeps inv (read f >>= next) := tail

theorem keeps_lift (outcome : Except ε α) : Keeps inv (lift outcome : Action ε σ α) :=
  fun _ holds => holds

theorem keeps_update (f : σ → σ) (inside : ∀ s, inv s → inv (f s)) :
    Keeps inv (update f : Action ε σ Unit) := inside

theorem keeps_bind {first : Action ε σ α} {next : α → Action ε σ β} (head : Keeps inv first)
    (tail : ∀ a, Keeps inv (next a)) : Keeps inv (first >>= next) := by
  intro s holds
  rw [bind_apply]
  have before := head s holds
  split
  · rename_i a s' ran
    rw [ran] at before
    exact tail a s' before
  · rename_i e s' ran
    rw [ran] at before
    exact before

end

end Action

end Libnmo.Lib
