import Mathlib.Data.List.Basic

/-! States behind calls. A call leaves a new state and answers, or it does not
return; a run is its log, the operations with their answers. -/
namespace Libnmo.Lib
variable {σ ι ρ ε : Type} (call : σ → ι → Except ε (σ × ρ)) (clean : σ → ι → Prop) (start : σ)

/-- The states that runs of clean calls reach. -/
inductive Reached : List (ι × ρ) → σ → Prop
  | start : Reached [] start
  | call {log : List (ι × ρ)} {s s' : σ} {op : ι} {answer : ρ} (before : Reached log s) (allowed : clean s op)
    (returned : call s op = .ok (s',answer)) : Reached (log ++ [(op,answer)]) s'

variable {call clean start}

theorem Reached.keeps (inv : σ → Prop) (starts : inv start)
    (each : ∀ s op s' answer, inv s → clean s op → call s op = .ok (s',answer) → inv s')
    {log : List (ι × ρ)} {s : σ} (reached : Reached call clean start log s) : inv s := by
  induction reached with
  | start => exact starts
  | call before allowed returned ih => exact each _ _ _ _ ih allowed returned

/-- A run of given operations, computed. -/
def callAll (call : σ → ι → Except ε (σ × ρ)) : σ → List ι → Except ε (σ × List (ι × ρ))
  | s,[] => .ok (s,[])
  | s,op :: rest => do
    let (s',answer) ← call s op
    let (last,log) ← callAll call s' rest
    pure (last,(op,answer) :: log)

theorem reached_callAll {ops : List ι} {log done : List (ι × ρ)} {s last : σ}
    (before : Reached call (fun _ _ => True) start done s) (ran : callAll call s ops = .ok (last,log)) :
    Reached call (fun _ _ => True) start (done ++ log) last := by
  induction ops generalizing s done log with
  | nil =>
    cases ran
    rw [List.append_nil]
    exact before
  | cons op rest ih =>
    rw [callAll] at ran
    cases returned : call s op with
    | error stop => rw [returned] at ran; cases ran
    | ok after =>
      rw [returned] at ran
      cases later : callAll call after.1 rest with
      | error stop => simp [bind,Except.bind,later] at ran
      | ok final =>
        simp only [bind,Except.bind,later,pure,Except.pure,Except.ok.injEq,Prod.mk.injEq] at ran
        obtain ⟨rfl,rfl⟩ := ran
        rw [List.append_cons]
        exact ih (before.call trivial returned) later

end Libnmo.Lib

/-! A machine that takes one operation after the other. What a step keeps holds
before every operation of a run, and in the state where the run ends. -/
namespace Libnmo.Lib.Machine
variable {σ ι : Type} (step : σ → ι → σ)

def run : σ → List ι → σ := List.foldl step

/-- Each operation of the run, with the state it is applied to. -/
def visits : σ → List ι → List (σ × ι)
  | _,[] => []
  | s,op :: rest => (s,op) :: visits (step s op) rest

section
variable {step} {inv : σ → Prop} (kept : ∀ s op, inv s → inv (step s op))
include kept

theorem visits_keep {s : σ} (starts : inv s) (ops : List ι) : ∀ visit ∈ visits step s ops, inv visit.1 := by
  induction ops generalizing s with
  | nil =>
    intro visit member
    cases member
  | cons op rest ih =>
    intro visit member
    cases List.mem_cons.mp member with
    | inl first =>
      rw [first]
      exact starts
    | inr later => exact ih (kept s op starts) visit later

theorem run_keeps {s : σ} (starts : inv s) (ops : List ι) : inv (run step s ops) := by
  induction ops generalizing s with
  | nil => exact starts
  | cons op rest ih => exact ih (kept s op starts)

/-- A law that a step keeps just when the step is clean holds in every state
reached just when every step of the run is. -/
theorem reached_iff {law : σ → Prop} {clean : σ → ι → Prop}
    (each : ∀ s op, inv s → law s → (law (step s op) ↔ clean s op)) {s : σ} (starts : inv s) (lawful : law s)
    (ops : List ι) : (∀ done, done <+: ops → law (run step s done)) ↔
      ∀ visit ∈ visits step s ops, clean visit.1 visit.2 := by
  induction ops generalizing s with
  | nil =>
    refine ⟨fun _ => nofun,fun _ done begun => ?_⟩
    rw [List.prefix_nil.mp begun]
    exact lawful
  | cons op rest ih =>
    rw [visits,List.forall_mem_cons,← each s op starts lawful]
    constructor
    · intro always
      have next : law (step s op) := always [op] (by simp)
      refine ⟨next,(ih (kept s op starts) next).mp fun done begun => ?_⟩
      exact always (op :: done) (List.cons_prefix_cons.mpr ⟨rfl,begun⟩)
    · intro ⟨next,later⟩ done begun
      cases done with
      | nil => exact lawful
      | cons first done =>
        obtain ⟨rfl,within⟩ := List.cons_prefix_cons.mp begun
        exact (ih (kept s first starts) next).mpr later done within

end

/-- What a step keeps where it is clean holds before every operation of a run whose steps all are. -/
theorem visits_keep_while {step : σ → ι → σ} {inv : σ → Prop} {clean : σ → ι → Prop}
    (kept : ∀ s op, inv s → clean s op → inv (step s op)) {s : σ} (starts : inv s) {ops : List ι}
    (all : ∀ visit ∈ visits step s ops, clean visit.1 visit.2) : ∀ visit ∈ visits step s ops, inv visit.1 := by
  induction ops generalizing s with
  | nil => exact nofun
  | cons op rest ih =>
    rw [visits,List.forall_mem_cons] at all ⊢
    exact ⟨starts,ih (kept s op starts all.1) all.2⟩

end Libnmo.Lib.Machine
