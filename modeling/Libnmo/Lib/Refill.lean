import Libnmo.Lib.Action

/-! A window on a source that hands out its entries in pieces of any size. What is taken through
the window is the pieces in a row, wherever they are cut, and two takings from one window begin
alike. A source is dry when it fails and every later call fails too. -/
namespace Libnmo.Lib
variable {ε σ α : Type}

/-- What is left of the last piece, and the source of the next one. -/
structure Window (σ α : Type) where
  held : List α
  source : σ

section Taking
variable (next : Action ε σ (List α))

inductive Pieces : σ → List α → σ → Prop
  | none (s : σ) : Pieces s [] s
  | more {s t u : σ} {piece others : List α} (first : next.run s = (.ok piece,t)) (rest : Pieces t others u) :
      Pieces s (piece ++ others) u

/-- One window becomes the other when `taken` is taken through it. -/
def Gives (before : Window σ α) (taken : List α) (after : Window σ α) : Prop :=
  ∃ pieces, Pieces next before.source pieces after.source ∧ before.held ++ pieces = taken ++ after.held

/-- The source fails this many times in a row. -/
def FailsFor : Nat → σ → Prop
  | 0,_ => True
  | count + 1,s => ∃ e t, next.run s = (.error e,t) ∧ FailsFor count t

def Dry (s : σ) : Prop := ∀ count, FailsFor next count s

/-- The source has the entries ahead of it, and hands them out in pieces that are not empty. -/
structure Backs (ahead : σ → List α → Prop) : Prop where
  some : ∀ s rest, ahead s rest → rest ≠ [] →
    ∃ piece t rest', next.run s = (.ok piece,t) ∧ rest = piece ++ rest' ∧ ahead t rest'
  last : ∀ s, ahead s [] → ∃ e t, next.run s = (.error e,t)

end Taking

section Windows
variable {next : Action ε σ (List α)} {s t u : σ} {a b piece : List α} {w v x : Window σ α}

theorem Pieces.trans (before : Pieces next s a t) (after : Pieces next t b u) : Pieces next s (a ++ b) u := by
  induction before with
  | none => exact after
  | more first _ ih =>
    rw [List.append_assoc]
    exact .more first (ih after)

theorem Pieces.comparable (left : Pieces next s a t) (right : Pieces next s b u) : a <+: b ∨ b <+: a := by
  induction left generalizing b with
  | none => exact .inl b.nil_prefix
  | more first _ ih =>
    cases right with
    | none => exact .inr (List.nil_prefix ..)
    | more first' rest' =>
      rw [first,Prod.mk.injEq,Except.ok.injEq] at first'
      obtain ⟨rfl,rfl⟩ := first'
      rw [List.prefix_append_right_inj,List.prefix_append_right_inj]
      exact ih rest'

theorem gives_nothing (w : Window σ α) : Gives next w [] w := ⟨[],.none w.source,List.append_nil _⟩

theorem gives_held (taken rest : List α) (s : σ) : Gives next ⟨taken ++ rest,s⟩ taken ⟨rest,s⟩ :=
  ⟨[],.none s,List.append_nil _⟩

theorem gives_piece (ran : next.run s = (.ok piece,t)) : Gives next ⟨[],s⟩ [] ⟨piece,t⟩ := by
  refine ⟨piece ++ [],.more ran (.none t),?_⟩
  rw [List.append_nil,List.nil_append]

theorem Gives.trans (first : Gives next w a v) (second : Gives next v b x) : Gives next w (a ++ b) x := by
  obtain ⟨before,pieces,same⟩ := first
  obtain ⟨after,pieces',same'⟩ := second
  refine ⟨before ++ after,pieces.trans pieces',?_⟩
  rw [← List.append_assoc,same,List.append_assoc,same',List.append_assoc]

/-- Of two takings from one window one begins with the other. -/
theorem Gives.comparable (left : Gives next w a v) (right : Gives next w b x) : a <+: b ∨ b <+: a := by
  obtain ⟨before,pieces,same⟩ := left
  obtain ⟨after,pieces',same'⟩ := right
  have first : a <+: w.held ++ before := ⟨v.held,same.symm⟩
  have second : b <+: w.held ++ after := ⟨x.held,same'.symm⟩
  rcases pieces.comparable pieces' with shorter | shorter
  · have longer := (List.prefix_append_right_inj w.held).mpr shorter
    exact List.prefix_or_prefix_of_prefix (first.trans longer) second
  · have longer := (List.prefix_append_right_inj w.held).mpr shorter
    exact List.prefix_or_prefix_of_prefix first (second.trans longer)

theorem dry_fails (dry : Dry next s) : ∃ e t, next.run s = (.error e,t) ∧ Dry next t := by
  obtain ⟨e,t,failed,_⟩ := dry 1
  refine ⟨e,t,failed,fun count => ?_⟩
  obtain ⟨e',t',failed',later⟩ := dry (count + 1)
  rw [failed,Prod.mk.injEq] at failed'
  rw [failed'.2]
  exact later

/-- What makes a source fail and lasts through the failure makes it dry. -/
theorem dry_of {inv : σ → Prop} (fails : ∀ s, inv s → ∃ e t, next.run s = (.error e,t) ∧ inv t)
    (holds : inv s) : Dry next s := by
  intro count
  induction count generalizing s with
  | zero => trivial
  | succ count ih =>
    obtain ⟨e,t,failed,lasts⟩ := fails s holds
    exact ⟨e,t,failed,ih lasts⟩

section
variable {ahead : σ → List α → Prop} {rest : List α}

theorem Pieces.backed (pieces : Pieces next s a t) (backs : Backs next ahead) (begun : ahead s rest) :
    ∃ rest', rest = a ++ rest' ∧ ahead t rest' := by
  induction pieces generalizing rest with
  | none => exact ⟨rest,rfl,begun⟩
  | @more s t u piece others first _ ih =>
    by_cases empty : rest = []
    · obtain ⟨e,t',failed⟩ := backs.last s (empty ▸ begun)
      rw [first] at failed
      simp at failed
    · obtain ⟨piece',t',rest',ran,rfl,follows⟩ := backs.some s rest begun empty
      rw [first,Prod.mk.injEq,Except.ok.injEq] at ran
      obtain ⟨rfl,rfl⟩ := ran
      obtain ⟨last,rfl,ends⟩ := ih follows
      exact ⟨last,(List.append_assoc ..).symm,ends⟩

/-- What is taken is what is ahead, and the rest of it stays ahead. -/
theorem Gives.backed (gives : Gives next w a v) (backs : Backs next ahead) (begun : ahead w.source rest) :
    ∃ rest', w.held ++ rest = a ++ (v.held ++ rest') ∧ ahead v.source rest' := by
  obtain ⟨before,pieces,same⟩ := gives
  obtain ⟨rest',rfl,ends⟩ := pieces.backed backs begun
  refine ⟨rest',?_,ends⟩
  rw [← List.append_assoc,same,List.append_assoc]

theorem Backs.ended {e : ε} (backs : Backs next ahead) (begun : ahead s rest) (failed : next.run s = (.error e,t)) :
    rest = [] := by
  by_contra more
  obtain ⟨piece,t',rest',ran,_⟩ := backs.some s rest begun more
  rw [ran] at failed
  simp at failed

end

end Windows

end Libnmo.Lib
