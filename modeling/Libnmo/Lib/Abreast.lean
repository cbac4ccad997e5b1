import Libnmo.Lib.Action
import Mathlib.Data.List.Forall2

/-! Two actions in step: from every state they end in the same state, both with
values that are related or both with the same stop. -/
namespace Libnmo.Lib
open Action

variable {ε σ α β α' β' : Type}

def Lockstep (related : α → β → Prop) (left : Action ε σ α) (right : Action ε σ β) : Prop :=
  ∀ s, (∃ a b t, left.run s = (.ok a,t) ∧ right.run s = (.ok b,t) ∧ related a b) ∨
    ∃ e t, left.run s = (.error e,t) ∧ right.run s = (.error e,t)

namespace Lockstep
variable {related : α → β → Prop} {related' : α' → β' → Prop} {left : Action ε σ α} {right : Action ε σ β}

theorem pure {a : α} {b : β} (same : related a b) :
    Lockstep related (pure a : Action ε σ α) (pure b : Action ε σ β) :=
  fun s => .inl ⟨a,b,s,rfl,rfl,same⟩

theorem stop (e : ε) : Lockstep related (Action.stop e : Action ε σ α) (Action.stop e : Action ε σ β) :=
  fun s => .inr ⟨e,s,rfl,rfl⟩

theorem bind {next : α → Action ε σ α'} {next' : β → Action ε σ β'} (head : Lockstep related left right)
    (tail : ∀ a b, related a b → Lockstep related' (next a) (next' b)) :
    Lockstep related' (left >>= next) (right >>= next') := by
  intro s
  rcases head s with ⟨a,b,t,ran,ran',same⟩ | ⟨e,t,ran,ran'⟩
  · rw [bind_ok next ran,bind_ok next' ran']
    exact tail a b same t
  · exact .inr ⟨e,t,bind_error next ran,bind_error next' ran'⟩

/-- An action is in step with itself, and something is known of its values. -/
theorem self {action : Action ε σ α} {known : α → Prop} (values : ∀ s a t, action.run s = (.ok a,t) → known a) :
    Lockstep (fun a a' => a = a' ∧ known a') action action := by
  intro s
  cases ran : action.run s with
  | mk outcome t =>
    cases outcome with
    | ok a => exact .inl ⟨a,a,t,rfl,rfl,rfl,values s a t ran⟩
    | error e => exact .inr ⟨e,t,rfl,rfl⟩

/-- Both begin with the same action. -/
theorem after {first : Action ε σ β} {next : β → Action ε σ α'} {next' : β → Action ε σ β'} {known : β → Prop}
    (values : ∀ s b t, first.run s = (.ok b,t) → known b) (tail : ∀ b, known b → Lockstep related' (next b) (next' b)) :
    Lockstep related' (first >>= next) (first >>= next') :=
  bind (self values) fun a b held => by
    rw [held.1]
    exact tail b held.2

theorem first {first : Action ε σ β} {next : β → Action ε σ α'} {next' : β → Action ε σ β'}
    (tail : ∀ b, Lockstep related' (next b) (next' b)) : Lockstep related' (first >>= next) (first >>= next') :=
  after (fun _ _ _ _ => trivial) fun b (_ : True) => tail b

/-- The right action goes on to note what its value stands for. -/
theorem note {g : β → β'} {related' : α → β' → Prop} (steps : Lockstep related left right)
    (same : ∀ a b, related a b → related' a (g b)) :
    Lockstep related' left (right >>= fun b => Pure.pure (g b)) := by
  intro s
  rcases steps s with ⟨a,b,t,ran,ran',held⟩ | ⟨e,t,ran,ran'⟩
  · exact .inl ⟨a,g b,t,ran,bind_ok _ ran',same a b held⟩
  · exact .inr ⟨e,t,ran,bind_error _ ran'⟩

theorem map {f : α → α'} {g : β → β'} (head : Lockstep related left right)
    (same : ∀ a b, related a b → related' (f a) (g b)) :
    Lockstep related' (left >>= fun a => Pure.pure (f a)) (right >>= fun b => Pure.pure (g b)) :=
  bind head fun a b held => pure (same a b held)

theorem times (each : Lockstep related left right) (count : Nat) :
    Lockstep (fun as bs => as.length = count ∧ List.Forall₂ related as bs) (left.times count) (right.times count) := by
  induction count with
  | zero => exact pure ⟨rfl,.nil⟩
  | succ count ih =>
    refine bind each fun a b same => map ih fun as bs rest => ⟨?_,.cons same rest.2⟩
    rw [List.length_cons,rest.1]

theorem ok_left (steps : Lockstep related left right) {s t : σ} {a : α} (ran : left.run s = (.ok a,t)) :
    ∃ b, right.run s = (.ok b,t) ∧ related a b := by
  rcases steps s with ⟨a',b,t',ran',ranRight,same⟩ | ⟨e,t',ran',_⟩
  · rw [ran] at ran'
    cases ran'
    exact ⟨b,ranRight,same⟩
  · rw [ran] at ran'
    cases ran'

theorem symm (steps : Lockstep related left right) : Lockstep (fun b a => related a b) right left := by
  intro s
  rcases steps s with ⟨a,b,t,ran,ran',same⟩ | ⟨e,t,ran,ran'⟩
  · exact .inl ⟨b,a,t,ran',ran,same⟩
  · exact .inr ⟨e,t,ran',ran⟩

end Lockstep

end Libnmo.Lib

/-! Two actions on related states. Unless one of them comes to an end that is excused,
they come to the same outcome and leave related states; and so do sequences of them,
one pair after the other. An action that is so beside itself, with no end excused, cannot
tell related states apart. -/
namespace Libnmo.Lib.Action
variable {ε σ α β : Type} {excused : ε → Prop} {related : σ → σ → Prop}

/-- The outcome is an end that is excused. -/
def Excused (excused : ε → Prop) (outcome : Except ε α) : Prop := ∃ e, excused e ∧ outcome = .error e

def Abreast (excused : ε → Prop) (related : σ → σ → Prop) (left right : Action ε σ α) : Prop :=
  ∀ s t, related s t → Excused excused (left.run s).1 ∨ Excused excused (right.run t).1 ∨
    (left.run s).1 = (right.run t).1 ∧ related (left.run s).2 (right.run t).2

theorem abreast_pure (a : α) : Abreast excused related (pure a : Action ε σ α) (pure a) :=
  fun _ _ held => .inr (.inr ⟨rfl,held⟩)

theorem abreast_stop (e : ε) : Abreast excused related (stop e : Action ε σ α) (stop e) :=
  fun _ _ held => .inr (.inr ⟨rfl,held⟩)

theorem abreast_lift (outcome : Except ε α) : Abreast excused related (lift outcome : Action ε σ α) (lift outcome) :=
  fun _ _ held => .inr (.inr ⟨rfl,held⟩)

theorem abreast_update {f g : σ → σ} (kept : ∀ s t, related s t → related (f s) (g t)) :
    Abreast excused related (update f : Action ε σ Unit) (update g) :=
  fun s t held => .inr (.inr ⟨rfl,kept s t held⟩)

theorem excused_bind {first : Action ε σ α} {next : α → Action ε σ β} {s : σ} (early : Excused excused (first.run s).1) :
    Excused excused ((first >>= next).run s).1 := by
  obtain ⟨e,fine,stopped⟩ := early
  refine ⟨e,fine,?_⟩
  rw [bind_error (t := (first.run s).2) next (Prod.ext stopped rfl)]

theorem abreast_bind {first first' : Action ε σ α} {next next' : α → Action ε σ β}
    (head : Abreast excused related first first') (tail : ∀ a, Abreast excused related (next a) (next' a)) :
    Abreast excused related (first >>= next) (first' >>= next') := by
  intro s t held
  rcases head s t held with early | early | ⟨same,after⟩
  · exact .inl (excused_bind early)
  · exact .inr (.inl (excused_bind early))
  · rw [bind_apply,bind_apply]
    cases ran : first.run s with
    | mk outcome s' =>
      cases again : first'.run t with
      | mk outcome' t' =>
        rw [ran,again] at same after
        obtain rfl : outcome = outcome' := same
        cases outcome with
        | ok a => exact tail a s' t' after
        | error e => exact .inr (.inr ⟨rfl,after⟩)

theorem abreast_result {outcome : Except ε α} {next next' : α → Action ε σ β}
    (tail : ∀ a, outcome = .ok a → Abreast excused related (next a) (next' a)) :
    Abreast excused related (lift outcome >>= next) (lift outcome >>= next') := by
  cases outcome with
  | ok a => exact tail a rfl
  | error e => exact fun _ _ held => .inr (.inr ⟨rfl,held⟩)

/-- What is read decides what follows, and what follows is abreast whenever the states are related. -/
theorem abreast_read {γ : Type} {f : σ → α} {g : σ → γ} {next : α → Action ε σ β} {next' : γ → Action ε σ β}
    (tail : ∀ s t, related s t → Abreast excused related (next (f s)) (next' (g t))) :
    Abreast excused related (read f >>= next) (read g >>= next') := by
  intro s t held
  rw [bind_ok next (read_apply f s),bind_ok next' (read_apply g t)]
  exact tail s t held s t held

section
variable {related : σ → σ → Prop}

/-- From related states the outcome is the same, and the states after it are related. -/
def Alike (related : σ → σ → Prop) (action : Action ε σ α) : Prop :=
  ∀ s t, related s t → (action.run s).1 = (action.run t).1 ∧ related (action.run s).2 (action.run t).2

theorem alike_iff {action : Action ε σ α} : Alike related action ↔ Abreast (fun _ => False) related action action := by
  have never {outcome : Except ε α} : ¬ Excused (fun _ => False) outcome := fun ⟨_,fine,_⟩ => fine
  constructor
  · exact fun alike s t held => .inr (.inr (alike s t held))
  · exact fun abreast s t held => ((abreast s t held).resolve_left never).resolve_left never

theorem alike_pure (a : α) : Alike related (pure a : Action ε σ α) := alike_iff.mpr (abreast_pure a)

theorem alike_stop (e : ε) : Alike related (stop e : Action ε σ α) := alike_iff.mpr (abreast_stop e)

theorem alike_update (f : σ → σ) (kept : ∀ s t, related s t → related (f s) (f t)) :
    Alike related (update f : Action ε σ Unit) := alike_iff.mpr (abreast_update kept)

theorem alike_bind {first : Action ε σ α} {next : α → Action ε σ β} (head : Alike related first)
    (tail : ∀ a, Alike related (next a)) : Alike related (first >>= next) :=
  alike_iff.mpr (abreast_bind (alike_iff.mp head) fun a => alike_iff.mp (tail a))

/-- The outcomes of actions one after the other, each in the state that the last one left. -/
def outcomes : List (Action ε σ α) → σ → List (Except ε α)
  | [],_ => []
  | action :: rest,s => (action.run s).1 :: outcomes rest (action.run s).2

theorem outcomes_alike (actions : List (Action ε σ α)) (each : ∀ action ∈ actions, Alike related action)
    {s t : σ} (held : related s t) : outcomes actions s = outcomes actions t := by
  induction actions generalizing s t with
  | nil => rfl
  | cons action rest ih =>
    obtain ⟨same,after⟩ := each action (List.mem_cons_self ..) s t held
    rw [outcomes,outcomes,same,ih (fun other member => each other (List.mem_cons_of_mem _ member)) after]

end

end Libnmo.Lib.Action
