import Libnmo.Lib.Action

/-! Recursion on demand, unrolled to a depth. A run that is not cut off at a depth is the same at
every greater depth, and what a step preserves, whatever it calls, the recursion preserves. -/
namespace Libnmo.Lib
variable {ε σ α β ι : Type}

namespace Action

/-- A loop over a list that collects the values. -/
def each (body : ι → Action ε σ α) : List ι → Action ε σ (List α)
  | [] => pure []
  | i :: rest => do
    let value ← body i
    let values ← each body rest
    pure (value :: values)

/-- The recursion to a depth, cut off with `tired`. -/
def unroll (tired : ε) (step : (ι → Action ε σ α) → ι → Action ε σ α) : Nat → ι → Action ε σ α
  | 0 => fun _ => stop tired
  | depth + 1 => step (unroll tired step depth)

theorem each_success {body : ι → Action ε σ α} {i : ι} {rest : List ι} {s t : σ} {values : List α}
    (ok : (each body (i :: rest)).run s = (.ok values,t)) : ∃ value between others,
      (body i).run s = (.ok value,between) ∧ (each body rest).run between = (.ok others,t) := by
  obtain ⟨value,between,first,ok⟩ := bind_success ok
  obtain ⟨others,_,later,ok⟩ := bind_success ok
  obtain ⟨_,rfl⟩ := Prod.mk.inj ok
  exact ⟨value,between,others,first,later⟩

/-- Each value of a loop is a value of its body. -/
theorem each_values {body : ι → Action ε σ α} {items : List ι} {s t : σ} {values : List α}
    (ok : (each body items).run s = (.ok values,t)) :
    ∀ pair ∈ items.zip values, ∃ s t, (body pair.1).run s = (.ok pair.2,t) := by
  induction items generalizing s values with
  | nil => exact fun pair member => nomatch member
  | cons i rest ih =>
    obtain ⟨value,between,first,ok⟩ := bind_success ok
    obtain ⟨others,_,later,ok⟩ := bind_success ok
    obtain ⟨same,rfl⟩ := Prod.mk.inj ok
    obtain rfl := Except.ok.inj same
    rw [List.zip_cons_cons]
    exact List.forall_mem_cons.mpr ⟨⟨s,between,first⟩,ih later⟩

section
variable {inv : σ → Prop}

theorem keeps_each {body : ι → Action ε σ α} (keeps : ∀ i, Keeps inv (body i)) (items : List ι) :
    Keeps inv (each body items) := by
  induction items with
  | nil => exact keeps_pure []
  | cons i rest ih => exact keeps_bind (keeps i) fun value => keeps_bind ih fun values => keeps_pure _

theorem keeps_unroll {tired : ε} {step : (ι → Action ε σ α) → ι → Action ε σ α}
    (keeps : ∀ inner, (∀ i, Keeps inv (inner i)) → ∀ i, Keeps inv (step inner i)) (depth : Nat) (i : ι) :
    Keeps inv (unroll tired step depth i) := by
  induction depth generalizing i with
  | zero => exact keeps_stop tired
  | succ depth ih => exact keeps _ ih i

end

end Action

open Action

/-- Where the short run is not cut off, the long one is the same. -/
def Outlasts (tired : ε) (short long : Action ε σ α) : Prop :=
  ∀ s, (short.run s).1 = .error tired ∨ long.run s = short.run s

section Outlasting
variable {tired : ε}

theorem outlasts_refl (action : Action ε σ α) : Outlasts tired action action := fun _ => .inr rfl

theorem cut_bind {first : Action ε σ α} {next : α → Action ε σ β} {s : σ} (cut : (first.run s).1 = .error tired) :
    ((first >>= next).run s).1 = .error tired := by
  rw [bind_apply]
  split
  · rename_i ran
    rw [ran] at cut
    cases cut
  · rename_i ran
    rw [ran] at cut
    exact congrArg Except.error (Except.error.inj cut)

theorem outlasts_bind {short long : Action ε σ α} {next next' : α → Action ε σ β}
    (head : Outlasts tired short long) (tail : ∀ a, Outlasts tired (next a) (next' a)) :
    Outlasts tired (short >>= next) (long >>= next') := by
  intro s
  rcases head s with cut | same
  · exact .inl (cut_bind cut)
  · rw [bind_apply,bind_apply,same]
    split
    · rename_i a between _
      exact tail a between
    · exact .inr rfl

theorem outlasts_each {short long : ι → Action ε σ α} (bodies : ∀ i, Outlasts tired (short i) (long i))
    (items : List ι) : Outlasts tired (each short items) (each long items) := by
  induction items with
  | nil => exact outlasts_refl _
  | cons i rest ih =>
    exact outlasts_bind (bodies i) fun value => outlasts_bind ih fun values => outlasts_refl _

/-- The step asks for no more of the recursion than its runs. -/
def Steady (tired : ε) (step : (ι → Action ε σ α) → ι → Action ε σ α) : Prop :=
  ∀ short long, (∀ i, Outlasts tired (short i) (long i)) → ∀ i, Outlasts tired (step short i) (step long i)

variable {step : (ι → Action ε σ α) → ι → Action ε σ α}

theorem Steady.outlasts (steady : Steady tired step) (depth more : Nat) (i : ι) :
    Outlasts tired (unroll tired step depth i) (unroll tired step (depth + more) i) := by
  induction depth generalizing i with
  | zero => exact fun s => .inl rfl
  | succ depth ih =>
    rw [Nat.succ_add]
    exact steady _ _ ih i

theorem Steady.stable (steady : Steady tired step) {depth deeper : Nat} (deep : depth ≤ deeper) {i : ι}
    {s : σ} (finished : ((unroll tired step depth i).run s).1 ≠ .error tired) :
    (unroll tired step deeper i).run s = (unroll tired step depth i).run s := by
  obtain ⟨more,rfl⟩ := Nat.exists_eq_add_of_le deep
  exact (steady.outlasts depth more i s).resolve_left finished

end Outlasting

end Libnmo.Lib
