import Libnmo.Lib.Action
import Mathlib.Data.List.Basic

/-! What the outcome of a computation satisfies: a value the postcondition, an early
stop what is allowed of stops. One rule for each way to compose computations. -/
namespace Libnmo.Lib
variable {ε α β : Type}

def Ensures (allowed : ε → Prop) (post : α → Prop) : Except ε α → Prop
  | .ok a => post a
  | .error stop => allowed stop

namespace Ensures
variable {allowed : ε → Prop} {post : α → Prop}

@[simp] theorem ok_iff {a : α} : Ensures allowed post (.ok a) ↔ post a := Iff.rfl

@[simp] theorem pure_iff {a : α} : Ensures allowed post (pure a) ↔ post a := Iff.rfl

@[simp] theorem error_iff {stop : ε} : Ensures allowed post (.error stop) ↔ allowed stop := Iff.rfl

theorem of_ok {result : Except ε α} {a : α} (ensured : Ensures allowed post result) (ok : result = .ok a) : post a := by
  rw [ok] at ensured
  exact ensured

theorem of_error {result : Except ε α} {stop : ε} (ensured : Ensures allowed post result)
    (stopped : result = .error stop) : allowed stop := by
  rw [stopped] at ensured
  exact ensured

/-- Where no stop is allowed there is a value. -/
theorem total {result : Except ε α} (ensured : Ensures (fun _ => False) post result) :
    ∃ a, result = .ok a ∧ post a := by
  cases result with
  | ok a => exact ⟨a,rfl,ensured⟩
  | error stop => exact ensured.elim

theorem mono {weaker : α → Prop} {result : Except ε α} (ensured : Ensures allowed post result)
    (implies : ∀ a, post a → weaker a) : Ensures allowed weaker result := by
  cases result with
  | ok a => exact implies a ensured
  | error stop => exact ensured

theorem bind {between : β → Prop} {first : Except ε β} {next : β → Except ε α}
    (ensured : Ensures allowed between first) (later : ∀ b, between b → Ensures allowed post (next b)) :
    Ensures allowed post (first >>= next) := by
  cases first with
  | ok b => exact later b ensured
  | error stop => exact ensured

/-- A loop over a list, with an invariant of what is left to do. -/
theorem fold {items : List β} {step : α → β → Except ε α} (inv : List β → α → Prop)
    (each : ∀ item rest a, inv (item :: rest) a → Ensures allowed (inv rest) (step a item)) {a : α}
    (starts : inv items a) : Ensures allowed (inv []) (items.foldlM step a) := by
  induction items generalizing a with
  | nil => exact starts
  | cons item rest ih =>
    rw [List.foldlM_cons]
    exact bind (each item rest a starts) fun b => ih

end Ensures

/-- What follows a check is what ended well. -/
theorem ok_of_check {fault : Prop} [Decidable fault] {stop : ε} {rest : Except ε α} {a : α}
    (ok : (if fault then .error stop else rest) = .ok a) : ¬ fault ∧ rest = .ok a := by
  split at ok
  · cases ok
  · rename_i passed
    exact ⟨passed,ok⟩

end Libnmo.Lib

/-! Where an action stops, for ends of one kind. A sequence stops where its first
action does, or where the rest does from the state that the first one leaves. -/
namespace Libnmo.Lib.Action
variable {ε σ α β : Type} {kind : ε → Prop} {s t : σ}

/-- From `s` the action comes to an end of the kind, at `t`. -/
def StopsAt (kind : ε → Prop) (action : Action ε σ α) (s t : σ) : Prop :=
  ∃ e, kind e ∧ action.run s = (.error e,t)

theorem not_stopsAt_ok {action : Action ε σ α} {a : α} (ran : action.run s = (.ok a,t)) (t' : σ) :
    ¬ StopsAt kind action s t' := by
  rintro ⟨e,_,stopped⟩
  rw [ran] at stopped
  simp at stopped

theorem stopsAt_error {action : Action ε σ α} {e : ε} {stop : σ} (ran : action.run s = (.error e,stop)) :
    StopsAt kind action s t ↔ kind e ∧ t = stop := by
  constructor
  · rintro ⟨e',same,stopped⟩
    rw [ran,Prod.mk.injEq,Except.error.injEq] at stopped
    rw [stopped.1]
    exact ⟨same,stopped.2.symm⟩
  · rintro ⟨same,rfl⟩
    exact ⟨e,same,ran⟩

theorem not_stopsAt_pure (a : α) : ¬ StopsAt kind (pure a : Action ε σ α) s t := not_stopsAt_ok (pure_apply a s) t

theorem not_stopsAt_read (f : σ → α) : ¬ StopsAt kind (read f : Action ε σ α) s t := not_stopsAt_ok (read_apply f s) t

theorem not_stopsAt_update (f : σ → σ) : ¬ StopsAt kind (update f : Action ε σ Unit) s t :=
  not_stopsAt_ok (update_apply f s) t

theorem stopsAt_bind {first : Action ε σ α} {next : α → Action ε σ β} : StopsAt kind (first >>= next) s t ↔
    StopsAt kind first s t ∨ ∃ a between, first.run s = (.ok a,between) ∧ StopsAt kind (next a) between t := by
  cases ran : first.run s with
  | mk outcome between =>
    cases outcome with
    | ok a =>
      constructor
      · rintro ⟨e,same,stopped⟩
        rw [bind_ok _ ran] at stopped
        exact .inr ⟨a,between,rfl,e,same,stopped⟩
      · rintro (early | ⟨a',between',same,e,wanted,stopped⟩)
        · exact absurd early (not_stopsAt_ok ran t)
        · rw [Prod.mk.injEq,Except.ok.injEq] at same
          obtain ⟨rfl,rfl⟩ := same
          exact ⟨e,wanted,(bind_ok _ ran).trans stopped⟩
    | error e =>
      rw [stopsAt_error (bind_error next ran),stopsAt_error ran]
      simp

/-- What follows a first action that goes on. -/
theorem stopsAt_after {first : Action ε σ α} {next : α → Action ε σ β} {a : α} {between : σ}
    (ran : first.run s = (.ok a,between)) : StopsAt kind (first >>= next) s t ↔ StopsAt kind (next a) between t := by
  rw [stopsAt_bind]
  constructor
  · rintro (early | ⟨a',between',same,later⟩)
    · exact absurd early (not_stopsAt_ok ran t)
    · rw [ran,Prod.mk.injEq,Except.ok.injEq] at same
      obtain ⟨rfl,rfl⟩ := same
      exact later
  · exact fun later => .inr ⟨a,between,ran,later⟩

theorem stopsAt_map {first : Action ε σ α} (f : α → β) :
    StopsAt kind (first >>= fun a => pure (f a)) s t ↔ StopsAt kind first s t := by
  rw [stopsAt_bind]
  refine or_iff_left ?_
  rintro ⟨a,between,_,later⟩
  exact not_stopsAt_pure (f a) later

end Libnmo.Lib.Action
