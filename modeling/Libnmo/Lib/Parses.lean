import Libnmo.Lib.Action

/-! Reads that are known in both directions: of the input that stands in front of a state
a read takes items that hold its value, and it gives that value wherever such items stand.
The relation of a sequence of reads is put together from those of its members. -/
namespace Libnmo.Lib
variable {ε σ α β γ : Type} {stands : List α → σ → Prop}

structure Parses (stands : List α → σ → Prop) (action : Action ε σ β) (holds : β → List α → Prop) : Prop where
  full : ∀ {value input rest s}, holds value input → stands (input ++ rest) s →
    ∃ s', action.run s = (.ok value,s') ∧ stands rest s'
  only : ∀ {value rest s s'}, stands rest s → action.run s = (.ok value,s') →
    ∃ input after, rest = input ++ after ∧ holds value input ∧ stands after s'

section
variable {first : Action ε σ β} {next : β → Action ε σ γ} {holds holds' : β → List α → Prop} {holdsNext : β → γ → List α → Prop}

theorem Parses.congr (parses : Parses stands first holds) (same : ∀ value input, holds value input ↔ holds' value input) :
    Parses stands first holds' where
  full held := parses.full ((same _ _).mpr held)
  only standing ok := by
    obtain ⟨input,after,split,held,moved⟩ := parses.only standing ok
    exact ⟨input,after,split,(same _ _).mp held,moved⟩

theorem parses_pure (value : β) : Parses stands (pure value : Action ε σ β) fun result input => result = value ∧ input = [] where
  full := by
    rintro _ _ rest s ⟨rfl,rfl⟩ standing
    exact ⟨s,rfl,standing⟩
  only := by
    intro result rest s s' standing ok
    obtain ⟨same,rfl⟩ := Prod.mk.inj ok
    exact ⟨[],rest,rfl,⟨(Except.ok.inj same).symm,rfl⟩,standing⟩

theorem parses_stop (e : ε) : Parses stands (Action.stop e : Action ε σ β) fun _ _ => False where
  full held := held.elim
  only _ ok := nomatch (Prod.mk.inj ok).1

theorem parses_bind (head : Parses stands first holds) (tail : ∀ value, Parses stands (next value) (holdsNext value)) :
    Parses stands (first >>= next) fun result input =>
      ∃ value before after, input = before ++ after ∧ holds value before ∧ holdsNext value result after where
  full := by
    rintro result _ rest s ⟨value,before,after,rfl,held,others⟩ standing
    rw [List.append_assoc] at standing
    obtain ⟨s₁,ran,standing⟩ := head.full held standing
    obtain ⟨s₂,more,standing⟩ := (tail value).full others standing
    exact ⟨s₂,by rw [Action.bind_ok next ran,more],standing⟩
  only := by
    intro result rest s s' standing ok
    obtain ⟨value,s₁,ran,ok⟩ := Action.bind_success ok
    obtain ⟨before,between,rfl,held,standing⟩ := head.only standing ran
    obtain ⟨after,last,rfl,others,standing⟩ := (tail value).only standing ok
    exact ⟨before ++ after,last,(List.append_assoc before after last).symm,⟨value,before,after,rfl,held,others⟩,standing⟩

/-- The items of the first read are determined by its value. -/
theorem parses_after {items : β → List α} (head : Parses stands first fun value input => input = items value)
    (tail : ∀ value, Parses stands (next value) (holdsNext value)) :
    Parses stands (first >>= next) fun result input => ∃ value after, input = items value ++ after ∧ holdsNext value result after := by
  refine (parses_bind head tail).congr fun result input => ⟨?_,?_⟩
  · rintro ⟨value,_,after,rfl,rfl,others⟩
    exact ⟨value,after,rfl,others⟩
  · rintro ⟨value,after,rfl,others⟩
    exact ⟨value,_,after,rfl,rfl,others⟩

/-- The last read, whose value becomes a part of the result. -/
theorem parses_return {f : β → γ} (last : Parses stands first holds) :
    Parses stands (first >>= fun value => pure (f value)) fun result input => ∃ value, result = f value ∧ holds value input := by
  refine (parses_bind last fun value => parses_pure (f value)).congr fun result input => ⟨?_,?_⟩
  · rintro ⟨value,_,_,rfl,held,rfl,rfl⟩
    exact ⟨value,rfl,by rwa [List.append_nil]⟩
  · rintro ⟨value,rfl,held⟩
    exact ⟨value,input,[],(List.append_nil input).symm,held,rfl,rfl⟩

theorem parses_ite {condition : Prop} [Decidable condition] {other : Action ε σ β} (yes : condition → Parses stands first holds)
    (no : ¬ condition → Parses stands other holds') :
    Parses stands (if condition then first else other) fun value input => if condition then holds value input else holds' value input := by
  by_cases true : condition
  · rw [if_pos true]
    exact (yes true).congr fun _ _ => by rw [if_pos true]
  · rw [if_neg true]
    exact (no true).congr fun _ _ => by rw [if_neg true]

/-- So many items, each of which is a value. -/
theorem parses_times {item : β → α} (each : Parses stands first fun value input => input = [item value]) (count : Nat) :
    Parses stands (first.times count) fun values input => values.length = count ∧ input = values.map item := by
  induction count with
  | zero =>
    refine (parses_pure []).congr fun values input => ⟨?_,?_⟩
    · rintro ⟨rfl,rfl⟩
      exact ⟨rfl,rfl⟩
    · rintro ⟨empty,rfl⟩
      obtain rfl := List.length_eq_zero_iff.mp empty
      exact ⟨rfl,rfl⟩
  | succ count ih =>
    refine (parses_after each fun value => parses_return ih).congr fun values input => ⟨?_,?_⟩
    · rintro ⟨value,_,rfl,values,rfl,rfl,rfl⟩
      exact ⟨rfl,rfl⟩
    · rintro ⟨many,rfl⟩
      obtain ⟨value,values,rfl⟩ := List.exists_cons_of_length_eq_add_one many
      exact ⟨value,_,rfl,values,rfl,Nat.succ.inj many,rfl⟩

end

/-- From states of one kind the action comes to the values that are held, and to them alone, in states of another. -/
structure Determines (before after : σ → Prop) (action : Action ε σ β) (held : β → Prop) : Prop where
  full : ∀ {value s}, before s → held value → ∃ s', action.run s = (.ok value,s') ∧ after s'
  only : ∀ {value s s'}, before s → action.run s = (.ok value,s') → held value ∧ after s'

section
variable {before between after : σ → Prop} {first : Action ε σ β} {next : β → Action ε σ γ} {held held' : β → Prop}
  {heldNext : β → γ → Prop}

theorem Determines.congr (determines : Determines before after first held) (same : ∀ value, held value ↔ held' value) :
    Determines before after first held' where
  full start held := determines.full start ((same _).mpr held)
  only start ok := by
    obtain ⟨held,stopped⟩ := determines.only start ok
    exact ⟨(same _).mp held,stopped⟩

theorem determines_pure (value : β) : Determines before before (pure value : Action ε σ β) (· = value) where
  full := by
    rintro _ s start rfl
    exact ⟨s,rfl,start⟩
  only := by
    intro result s s' start ok
    obtain ⟨same,rfl⟩ := Prod.mk.inj ok
    exact ⟨(Except.ok.inj same).symm,start⟩

/-- Fewer states to begin with, and more to end in. -/
theorem Determines.mono {earlier later : σ → Prop} (determines : Determines before after first held)
    (fewer : ∀ s, earlier s → before s) (more : ∀ s, after s → later s) : Determines earlier later first held where
  full start held := by
    obtain ⟨s',ran,stopped⟩ := determines.full (fewer _ start) held
    exact ⟨s',ran,more _ stopped⟩
  only start ok := by
    obtain ⟨held,stopped⟩ := determines.only (fewer _ start) ok
    exact ⟨held,more _ stopped⟩

theorem determines_stop (e : ε) : Determines before after (Action.stop e : Action ε σ β) fun _ => False where
  full _ held := held.elim
  only _ ok := nomatch (Prod.mk.inj ok).1

theorem determines_bind (head : Determines before between first held)
    (tail : ∀ value, Determines between after (next value) (heldNext value)) :
    Determines before after (first >>= next) fun result => ∃ value, held value ∧ heldNext value result where
  full := by
    rintro result s start ⟨value,held,others⟩
    obtain ⟨s₁,ran,middle⟩ := head.full start held
    obtain ⟨s₂,more,stopped⟩ := (tail value).full middle others
    exact ⟨s₂,by rw [Action.bind_ok next ran,more],stopped⟩
  only := by
    intro result s s' start ok
    obtain ⟨value,s₁,ran,ok⟩ := Action.bind_success ok
    obtain ⟨held,middle⟩ := head.only start ran
    obtain ⟨others,stopped⟩ := (tail value).only middle ok
    exact ⟨⟨value,held,others⟩,stopped⟩

theorem Parses.determines {holds : β → List α → Prop} (parses : Parses stands first holds) (moved : ∀ rest s, stands rest s → after s)
    (rest : List α) : Determines (stands rest) after first fun value => ∃ input, input <+: rest ∧ holds value input where
  full := by
    rintro value s standing ⟨input,⟨more,rfl⟩,held⟩
    obtain ⟨s',ran,standing⟩ := parses.full held standing
    exact ⟨s',ran,moved _ _ standing⟩
  only := by
    intro value s s' standing ok
    obtain ⟨input,more,rfl,held,standing⟩ := parses.only standing ok
    exact ⟨⟨input,List.prefix_append input more,held⟩,moved _ _ standing⟩

/-- What follows a read goes on behind its items. -/
theorem determines_after {holds : β → List α → Prop} {fits : β → γ → List α → Prop} (head : Parses stands first holds)
    (tail : ∀ value rest, Determines (stands rest) after (next value) (fits value · rest)) (rest : List α) :
    Determines (stands rest) after (first >>= next) fun result =>
      ∃ value input more, rest = input ++ more ∧ holds value input ∧ fits value result more where
  full := by
    rintro result s standing ⟨value,input,more,rfl,held,others⟩
    obtain ⟨s₁,ran,standing⟩ := head.full held standing
    obtain ⟨s₂,last,stopped⟩ := (tail value more).full standing others
    exact ⟨s₂,by rw [Action.bind_ok next ran,last],stopped⟩
  only := by
    intro result s s' standing ok
    obtain ⟨value,s₁,ran,ok⟩ := Action.bind_success ok
    obtain ⟨input,more,rfl,held,standing⟩ := head.only standing ran
    obtain ⟨others,stopped⟩ := (tail value more).only standing ok
    exact ⟨⟨value,input,more,rfl,held,others⟩,stopped⟩

end

/-- The same where a read may leave its place, so that what is in front of it afterwards is no part of what was before. -/
structure Threads (stands : List α → σ → Prop) (action : Action ε σ β) (rel : β → List α → List α → Prop) : Prop where
  full : ∀ {value before after s}, rel value before after → stands before s → ∃ s', action.run s = (.ok value,s') ∧ stands after s'
  only : ∀ {value before s s'}, stands before s → action.run s = (.ok value,s') → ∃ after, rel value before after ∧ stands after s'

section
variable {first : Action ε σ β} {next : β → Action ε σ γ} {rel rel' : β → List α → List α → Prop}
  {relNext : β → γ → List α → List α → Prop}

theorem Threads.congr (threads : Threads stands first rel) (same : ∀ value before after, rel value before after ↔ rel' value before after) :
    Threads stands first rel' where
  full held := threads.full ((same _ _ _).mpr held)
  only standing ok := by
    obtain ⟨after,held,moved⟩ := threads.only standing ok
    exact ⟨after,(same _ _ _).mp held,moved⟩

theorem threads_pure (value : β) : Threads stands (pure value : Action ε σ β) fun result before after => result = value ∧ after = before where
  full := by
    rintro _ before _ s ⟨rfl,rfl⟩ standing
    exact ⟨s,rfl,standing⟩
  only := by
    intro result before s s' standing ok
    obtain ⟨same,rfl⟩ := Prod.mk.inj ok
    exact ⟨before,⟨(Except.ok.inj same).symm,rfl⟩,standing⟩

theorem threads_bind (head : Threads stands first rel) (tail : ∀ value, Threads stands (next value) (relNext value)) :
    Threads stands (first >>= next) fun result before after =>
      ∃ value between, rel value before between ∧ relNext value result between after where
  full := by
    rintro result before after s ⟨value,between,held,others⟩ standing
    obtain ⟨s₁,ran,standing⟩ := head.full held standing
    obtain ⟨s₂,more,standing⟩ := (tail value).full others standing
    exact ⟨s₂,by rw [Action.bind_ok next ran,more],standing⟩
  only := by
    intro result before s s' standing ok
    obtain ⟨value,s₁,ran,ok⟩ := Action.bind_success ok
    obtain ⟨between,held,standing⟩ := head.only standing ran
    obtain ⟨after,others,standing⟩ := (tail value).only standing ok
    exact ⟨after,⟨value,between,held,others⟩,standing⟩

theorem Parses.threads {holds : β → List α → Prop} (parses : Parses stands first holds) :
    Threads stands first fun value before after => ∃ input, before = input ++ after ∧ holds value input where
  full := by
    rintro value _ after s ⟨input,rfl,held⟩ standing
    exact parses.full held standing
  only := by
    intro value before s s' standing ok
    obtain ⟨input,after,rfl,held,moved⟩ := parses.only standing ok
    exact ⟨after,⟨input,rfl,held⟩,moved⟩

theorem Threads.determines {later : σ → Prop} (threads : Threads stands first rel) (moved : ∀ rest s, stands rest s → later s)
    (rest : List α) : Determines (stands rest) later first fun value => ∃ after, rel value rest after where
  full := by
    rintro value s standing ⟨after,held⟩
    obtain ⟨s',ran,standing⟩ := threads.full held standing
    exact ⟨s',ran,moved _ _ standing⟩
  only := by
    intro value s s' standing ok
    obtain ⟨after,held,standing⟩ := threads.only standing ok
    exact ⟨⟨after,held⟩,moved _ _ standing⟩

end

end Libnmo.Lib
