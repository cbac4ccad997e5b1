import Libnmo.Lib.Action
import Libnmo.Lib.Cursor
import Mathlib.Algebra.GroupWithZero.Nat

/-! Readers over a buffer whose state is a position. A reader consumes an input
and yields a value wherever that input lies ahead; sequencing concatenates the
inputs, so a reader is matched with what a writer appended, step by step. -/
namespace Libnmo.Lib
open Cursor

variable {ε α β γ : Type} {buf : List α}

def Reads (buf : List α) (action : Action ε Nat β) (input : List α) (value : β) : Prop :=
  ∀ pos rest, Ahead buf pos (input ++ rest) → ∃ next, action.run pos = (.ok value,next) ∧ Ahead buf next rest

theorem reads_pure (value : β) : Reads buf (pure value : Action ε Nat β) [] value :=
  fun pos _ ahead => ⟨pos,rfl,ahead⟩

theorem reads_bind {first : Action ε Nat β} {next : β → Action ε Nat γ} {before after : List α}
    {middle : β} {value : γ} (head : Reads buf first before middle) (tail : Reads buf (next middle) after value) :
    Reads buf (first >>= next) (before ++ after) value := by
  intro pos rest ahead
  rw [List.append_assoc] at ahead
  obtain ⟨between,run,ahead⟩ := head pos _ ahead
  obtain ⟨stop,ran,ahead⟩ := tail between _ ahead
  exact ⟨stop,by rw [Action.bind_ok _ run,ran],ahead⟩

/-- The last step of a chain, which consumes nothing. -/
theorem reads_return {first : Action ε Nat β} {f : β → γ} {input : List α} {middle : β}
    (head : Reads buf first input middle) :
    Reads buf (first >>= fun value => pure (f value)) input (f middle) := by
  have chain : Reads buf (first >>= fun value => pure (f value)) (input ++ []) (f middle) :=
    reads_bind head (reads_pure (f middle))
  rwa [List.append_nil] at chain

/-- The first reader takes one entry. -/
theorem reads_cons {first : Action ε Nat β} {next : β → Action ε Nat γ} {a : α} {after : List α} {middle : β} {value : γ}
    (head : Reads buf first [a] middle) (tail : Reads buf (next middle) after value) :
    Reads buf (first >>= next) (a :: after) value :=
  reads_bind head tail

/-- The first action takes nothing. -/
theorem reads_still {first : Action ε Nat β} {next : β → Action ε Nat γ} {input : List α} {middle : β} {value : γ}
    (head : Reads buf first [] middle) (tail : Reads buf (next middle) input value) :
    Reads buf (first >>= next) input value :=
  reads_bind head tail

/-- A pass over the input, after which the position is back where it started. -/
theorem reads_again {first : Action ε Nat β} {next : β → Action ε Nat γ} {input : List α} {middle : β} {value : γ}
    (head : Reads buf first input middle) (tail : Reads buf (next middle) input value) :
    Reads buf (do
      let saved ← Action.read id
      let found ← first
      Action.update fun _ => saved
      next found) input value := by
  intro pos rest ahead
  obtain ⟨between,run,_⟩ := head pos rest ahead
  rw [Action.bind_ok _ (Action.read_apply id pos),Action.bind_ok _ run,Action.bind_ok _ (Action.update_apply _ between)]
  exact tail pos rest ahead

theorem reads_times {action : Action ε Nat β} {item : Type} (items : List item) (input : item → List α)
    (value : item → β) (each : ∀ i ∈ items, Reads buf action (input i) (value i)) :
    Reads buf (action.times items.length) (items.flatMap input) (items.map value) := by
  induction items with
  | nil => exact reads_pure []
  | cons i items ih =>
    have head := each i (by simp)
    have tail := ih fun other member => each other (by simp [member])
    exact reads_bind head (reads_return (f := fun rest => value i :: rest) tail)

/-- Inputs of the shapes of the values, one behind the other. -/
theorem reads_shaped {action : Action ε Nat β} {shape : β → List α → Prop} {values : List β} {parts : List (List α)}
    (each : ∀ value ∈ values, ∀ input, shape value input → Reads buf action input value)
    (shaped : List.Forall₂ shape values parts) : Reads buf (action.times values.length) parts.flatten values := by
  induction shaped with
  | nil => exact reads_pure []
  | cons fits _ ih =>
    rw [List.forall_mem_cons] at each
    exact reads_bind (each.1 _ fits) (reads_return (ih each.2))

/-- Values that a reader gives back are good ones, or there is one that it gives back all the same. -/
theorem good_of_times {action : Action ε Nat β} {shape : β → List α → Prop} (good odd : β → Prop) {values : List β}
    {parts : List (List α)} {pos next : Nat} {rest : List α}
    (reads : ∀ value ∈ values, ∀ input, good value → shape value input → Reads buf action input value)
    (fails : ∀ value ∈ values, ∀ input more start stop, shape value input → Ahead buf start (input ++ more) →
      action.run start = (.ok value,stop) → good value ∨ odd value)
    (shaped : List.Forall₂ shape values parts) (ahead : Ahead buf pos (parts.flatten ++ rest))
    (ok : (action.times values.length).run pos = (.ok values,next)) :
    ((∀ value ∈ values, good value) ∧ Ahead buf next rest) ∨ ∃ value ∈ values, odd value := by
  induction shaped generalizing pos with
  | nil =>
    obtain rfl := (Prod.mk.inj ok).2
    exact .inl ⟨nofun,ahead⟩
  | @cons value input values parts fits _ ih =>
    rw [List.forall_mem_cons] at reads fails
    obtain ⟨first,between,one,ok⟩ := Action.bind_success ok
    obtain ⟨others,last,more,ok⟩ := Action.bind_success ok
    obtain ⟨same,rfl⟩ := Prod.mk.inj ok
    obtain ⟨rfl,rfl⟩ := List.cons.inj (Except.ok.inj same)
    rw [List.flatten_cons,List.append_assoc] at ahead
    rcases fails.1 _ _ _ _ fits ahead one with well | bad
    · obtain ⟨stop,again,ahead'⟩ := reads.1 _ well fits pos _ ahead
      obtain ⟨_,rfl⟩ := Prod.mk.inj (one.symm.trans again)
      obtain ⟨all,left⟩ | ⟨odd,member,bad⟩ := ih reads.2 fails.2 ahead' more
      · exact .inl ⟨List.forall_mem_cons.mpr ⟨well,all⟩,left⟩
      · exact .inr ⟨odd,List.mem_cons_of_mem _ member,bad⟩
    · exact .inr ⟨_,List.mem_cons_self,bad⟩

theorem reads_start {action : Action ε Nat β} {value : β} (reads : Reads buf action buf value) :
    (action.run 0).1 = .ok value := by
  obtain ⟨next,run,_⟩ := reads 0 [] (by rw [List.append_nil]; exact ahead_start buf)
  rw [run]

/-- Wherever the reader succeeds, it has taken an input of the shape of its value. -/
def Takes (buf : List α) (action : Action ε Nat β) (shape : List α → β → Prop) : Prop :=
  ∀ pos value next, pos ≤ buf.length → action.run pos = (.ok value,next) →
    ∃ input rest, shape input value ∧ Ahead buf pos (input ++ rest) ∧ Ahead buf next rest

theorem takes_pure (value : β) :
    Takes buf (pure value : Action ε Nat β) fun input found => input = [] ∧ found = value := by
  intro pos found next inside run
  simp only [Action.pure_apply,Prod.mk.injEq,Except.ok.injEq] at run
  obtain ⟨rfl,rfl⟩ := run
  exact ⟨[],buf.drop pos,⟨rfl,rfl⟩,⟨inside,rfl⟩,⟨inside,rfl⟩⟩

theorem takes_bind {first : Action ε Nat β} {next : β → Action ε Nat γ} {shape : List α → β → Prop}
    {shape' : β → List α → γ → Prop} (head : Takes buf first shape)
    (tail : ∀ middle, Takes buf (next middle) (shape' middle)) :
    Takes buf (first >>= next) fun input value =>
      ∃ before after middle, input = before ++ after ∧ shape before middle ∧ shape' middle after value := by
  intro pos value stop inside run
  obtain ⟨middle,between,ran,run⟩ := Action.bind_success run
  obtain ⟨before,rest,fits,ahead,ahead'⟩ := head pos middle between inside ran
  obtain ⟨after,left,fits',ahead'',last⟩ := tail middle between value stop ahead'.1 run
  refine ⟨before ++ after,left,⟨before,after,middle,rfl,fits,fits'⟩,?_,last⟩
  rw [List.append_assoc,← ahead''.2,ahead'.2]
  exact ahead

theorem Takes.imp {action : Action ε Nat β} {shape shape' : List α → β → Prop} (takes : Takes buf action shape)
    (weaker : ∀ input value, shape input value → shape' input value) : Takes buf action shape' := by
  intro pos value next inside run
  obtain ⟨input,rest,fits,ahead⟩ := takes pos value next inside run
  exact ⟨input,rest,weaker input value fits,ahead⟩

/-- A check takes nothing. -/
theorem takes_check {first : Action ε Nat β} {next : β → Action ε Nat γ} {shape : List α → γ → Prop}
    (head : Takes buf first fun input _ => input = []) (tail : ∀ middle, Takes buf (next middle) shape) :
    Takes buf (first >>= next) shape := by
  refine (takes_bind head tail).imp ?_
  rintro input value ⟨before,after,_,rfl,rfl,fits⟩
  exact fits

/-- A field whose input is the code of its value, and what follows it. -/
theorem takes_field {first : Action ε Nat β} {next : β → Action ε Nat γ} {code : β → List α}
    {shape : β → List α → γ → Prop} (head : Takes buf first fun input value => input = code value)
    (tail : ∀ field, Takes buf (next field) (shape field)) :
    Takes buf (first >>= next) fun input value => ∃ field after, input = code field ++ after ∧ shape field after value := by
  refine (takes_bind head tail).imp ?_
  rintro input value ⟨before,after,field,rfl,rfl,fits⟩
  exact ⟨field,after,rfl,fits⟩

theorem takes_return {action : Action ε Nat β} {shape : List α → β → Prop} (f : β → γ) (takes : Takes buf action shape) :
    Takes buf (action >>= fun value => pure (f value)) fun input value => ∃ read, shape input read ∧ value = f read := by
  refine (takes_bind takes fun read => takes_pure (f read)).imp ?_
  rintro input value ⟨before,after,read,rfl,fits,rfl,rfl⟩
  rw [List.append_nil]
  exact ⟨read,fits,rfl⟩

theorem takes_times {action : Action ε Nat β} {item : Type} (input : item → List α) (value : item → β)
    (each : Takes buf action fun taken found => ∃ i, taken = input i ∧ found = value i) (count : Nat) :
    Takes buf (action.times count) fun taken found =>
      ∃ items : List item, items.length = count ∧ taken = items.flatMap input ∧ found = items.map value := by
  induction count with
  | zero =>
    refine (takes_pure []).imp fun taken found none => ?_
    exact ⟨[],rfl,none.1,none.2⟩
  | succ count ih =>
    refine (takes_bind each fun first => takes_bind ih fun rest => takes_pure (first :: rest)).imp ?_
    rintro taken found ⟨_,_,_,rfl,⟨i,rfl,rfl⟩,_,_,_,rfl,⟨items,same,rfl,rfl⟩,rfl,rfl⟩
    exact ⟨i :: items,by simp [same],by simp,rfl⟩

theorem takes_times_length {action : Action ε Nat β} (size : β → Nat)
    (each : Takes buf action fun taken found => taken.length = size found) (count : Nat) :
    Takes buf (action.times count) fun taken found => taken.length = (found.map size).sum := by
  induction count with
  | zero => exact (takes_pure []).imp fun taken found none => by simp [none]
  | succ count ih =>
    refine (takes_bind each fun first => takes_bind ih fun rest => takes_pure (first :: rest)).imp ?_
    rintro taken found ⟨_,_,first,rfl,length,_,_,rest,rfl,total,rfl,rfl⟩
    simp [length,total]

theorem return_success {first : Action ε Nat γ} {f : γ → β} {pos stop : Nat} {result : β}
    (ran : (first >>= fun value => pure (f value)).run pos = (.ok result,stop)) :
    ∃ value, first.run pos = (.ok value,stop) ∧ result = f value := by
  obtain ⟨value,between,run,ran⟩ := Action.bind_success ran
  simp only [Action.pure_apply,Prod.mk.injEq,Except.ok.injEq] at ran
  obtain ⟨rfl,rfl⟩ := ran
  exact ⟨value,run,rfl⟩

/-- Where the reader succeeds on its input, it has taken all of it and the value is as wanted. -/
def Follows (buf : List α) (action : Action ε Nat β) (input : List α) (wanted : β → Prop) : Prop :=
  ∀ pos rest value next, Ahead buf pos (input ++ rest) → action.run pos = (.ok value,next) →
    wanted value ∧ Ahead buf next rest

section Following
variable {input before after : List α}

theorem Reads.follows {action : Action ε Nat β} {value : β} (reads : Reads buf action input value) :
    Follows buf action input (· = value) := by
  intro pos rest found next ahead run
  obtain ⟨stop,ran,left⟩ := reads pos rest ahead
  rw [run,Prod.mk.injEq,Except.ok.injEq] at ran
  rw [ran.2]
  exact ⟨ran.1,left⟩

theorem follows_pure {wanted : β → Prop} (value : β) (holds : wanted value) :
    Follows buf (pure value : Action ε Nat β) [] wanted := by
  intro pos rest found next ahead run
  simp only [Action.pure_apply,Prod.mk.injEq,Except.ok.injEq] at run
  rw [← run.1,← run.2]
  exact ⟨holds,ahead⟩

theorem follows_bind {first : Action ε Nat γ} {next : γ → Action ε Nat β} {wanted : γ → Prop} {wanted' : β → Prop}
    (head : Follows buf first before wanted) (tail : ∀ value, wanted value → Follows buf (next value) after wanted') :
    Follows buf (first >>= next) (before ++ after) wanted' := by
  intro pos rest value stop ahead run
  rw [List.append_assoc] at ahead
  obtain ⟨middle,between,ran,run⟩ := Action.bind_success run
  obtain ⟨holds,left⟩ := head pos _ middle between ahead ran
  exact tail middle holds between rest value stop left run

theorem follows_return {first : Action ε Nat γ} {f : γ → β} {wanted : β → Prop}
    (head : Follows buf first input fun value => wanted (f value)) :
    Follows buf (first >>= fun value => pure (f value)) input wanted := by
  have chain : Follows buf (first >>= fun value => pure (f value)) (input ++ []) wanted :=
    follows_bind head fun value holds => follows_pure (f value) holds
  rwa [List.append_nil] at chain

theorem follows_times {action : Action ε Nat β} {item : Type} (items : List item) (input : item → List α)
    (wanted : item → β → Prop) (each : ∀ i ∈ items, Follows buf action (input i) (wanted i)) :
    Follows buf (action.times items.length) (items.flatMap input) (List.Forall₂ wanted items) := by
  induction items with
  | nil => exact follows_pure [] .nil
  | cons i items ih =>
    have tail := ih fun other member => each other (by simp [member])
    refine follows_bind (each i (by simp)) fun value holds => ?_
    intro pos rest all next ahead run
    obtain ⟨values,ran,rfl⟩ := return_success run
    obtain ⟨others,left⟩ := tail pos rest values next ahead ran
    exact ⟨.cons holds others,left⟩

end Following

/-- On its input the reader goes on to a wanted value, exactly when the input is good. -/
def Decides (buf : List α) (action : Action ε Nat β) (input : List α) (good : Prop) (same : β → Prop) : Prop :=
  ∀ pos rest, Ahead buf pos (input ++ rest) →
    (good ∧ ∃ value next, action.run pos = (.ok value,next) ∧ same value ∧ Ahead buf next rest) ∨
      (¬ good ∧ ∀ value next, action.run pos = (.ok value,next) → ¬ same value)

section Deciding
variable {input before after : List α} {good good' : Prop} {same : β → Prop}

theorem Decides.congr {action : Action ε Nat β} {same' : β → Prop} (decides : Decides buf action input good same)
    (whole : ∀ value, same value ↔ same' value) : Decides buf action input good same' := by
  have equal : same = same' := funext fun value => propext (whole value)
  rwa [← equal]

/-- A fact about every value read from a good input may be asked for as well. -/
theorem Decides.also {action : Action ε Nat β} {extra : β → Prop} (decides : Decides buf action input good same)
    (fact : good → ∀ pos rest value next, Ahead buf pos (input ++ rest) → action.run pos = (.ok value,next) →
      extra value) : Decides buf action input good fun value => extra value ∧ same value := by
  intro pos rest ahead
  rcases decides pos rest ahead with ⟨fine,value,next,run,holds,left⟩ | ⟨bad,never⟩
  · exact .inl ⟨fine,value,next,run,⟨fact fine pos rest value next ahead run,holds⟩,left⟩
  · exact .inr ⟨bad,fun value next run both => never value next run both.2⟩

theorem decides_after {first : Action ε Nat γ} {next : γ → Action ε Nat β} {middle : γ}
    (head : Reads buf first before middle) (tail : Decides buf (next middle) after good same) :
    Decides buf (first >>= next) (before ++ after) good same := by
  intro pos rest ahead
  rw [List.append_assoc] at ahead
  obtain ⟨between,run,ahead⟩ := head pos _ ahead
  rw [Action.bind_ok _ run]
  exact tail between rest ahead

/-- The second reader is reached with a value that is wanted, or with one that spoils every result. -/
theorem decides_bind {first : Action ε Nat γ} {next : γ → Action ε Nat β} {wanted : γ → Prop}
    (head : Decides buf first before good wanted)
    (tail : ∀ value, wanted value → Decides buf (next value) after good' same)
    (lost : ∀ value, ¬ wanted value → ∀ pos result stop,
      (next value).run pos = (.ok result,stop) → ¬ same result) :
    Decides buf (first >>= next) (before ++ after) (good ∧ good') same := by
  intro pos rest ahead
  rw [List.append_assoc] at ahead
  rcases head pos _ ahead with ⟨fine,value,between,run,holds,ahead⟩ | ⟨bad,never⟩
  · rw [Action.bind_ok _ run]
    rcases tail value holds between rest ahead with ⟨fine',result,stop,ran,held,ahead⟩ | ⟨bad,never⟩
    · exact .inl ⟨⟨fine,fine'⟩,result,stop,ran,held,ahead⟩
    · exact .inr ⟨fun both => bad both.2,never⟩
  · refine .inr ⟨fun both => bad both.1,fun result stop ran => ?_⟩
    obtain ⟨value,between,run,ran⟩ := Action.bind_success ran
    exact lost value (never value between run) between result stop ran

theorem decides_return {first : Action ε Nat γ} {f : γ → β} {wanted : γ → Prop}
    (head : Decides buf first input good wanted) (whole : ∀ value, same (f value) ↔ wanted value) :
    Decides buf (first >>= fun value => pure (f value)) input good same := by
  intro pos rest ahead
  rcases head pos rest ahead with ⟨fine,value,next,run,holds,ahead⟩ | ⟨bad,never⟩
  · exact .inl ⟨fine,f value,next,by rw [Action.bind_ok _ run]; rfl,(whole value).mpr holds,ahead⟩
  · refine .inr ⟨bad,fun result stop ran matched => ?_⟩
    obtain ⟨value,run,rfl⟩ := return_success ran
    exact never value stop run ((whole value).mp matched)

theorem decides_times {action : Action ε Nat β} {item : Type} (items : List item) (input : item → List α)
    (fine : item → Prop) (wanted : item → β → Prop)
    (each : ∀ i ∈ items, Decides buf action (input i) (fine i) (wanted i)) :
    Decides buf (action.times items.length) (items.flatMap input) (∀ i ∈ items, fine i)
      (List.Forall₂ wanted items) := by
  induction items with
  | nil => exact fun pos _ ahead => .inl ⟨by simp,[],pos,rfl,.nil,ahead⟩
  | cons i items ih =>
    have tail := ih fun other member => each other (by simp [member])
    have step : Decides buf _ _ _ (List.Forall₂ wanted (i :: items)) := decides_bind (each i (by simp))
      (fun value holds => decides_return (f := fun rest => value :: rest) tail
        fun rest => by rw [List.forall₂_cons]; exact ⟨And.right,And.intro holds⟩)
      (fun value spoiled pos all stop ran matched => by
        obtain ⟨rest,_,rfl⟩ := return_success ran
        exact spoiled (List.forall₂_cons.mp matched).1)
    simp only [List.forall_mem_cons]
    exact step

end Deciding

/-- The reader, wherever its input ends before a limit. -/
def ReadsTo (buf : List α) (limit : Nat) (action : Action ε Nat β) (input : List α) (value : β) : Prop :=
  ∀ pos rest, pos + input.length ≤ limit → Ahead buf pos (input ++ rest) →
    ∃ next, action.run pos = (.ok value,next) ∧ Ahead buf next rest

section Limited
variable {limit : Nat}

theorem Reads.to {action : Action ε Nat β} {input : List α} {value : β} (reads : Reads buf action input value) :
    ReadsTo buf limit action input value := fun pos rest _ ahead => reads pos rest ahead

theorem readsTo_bind {first : Action ε Nat β} {next : β → Action ε Nat γ} {before after : List α} {middle : β} {value : γ}
    (head : ReadsTo buf limit first before middle) (tail : ReadsTo buf limit (next middle) after value) :
    ReadsTo buf limit (first >>= next) (before ++ after) value := by
  intro pos rest inside ahead
  rw [List.append_assoc] at ahead
  rw [List.length_append] at inside
  obtain ⟨between,run,ahead'⟩ := head pos _ (by omega) ahead
  have consumed : between = pos + before.length := by
    have whole := ahead.length_eq
    have left := ahead'.length_eq
    rw [List.length_append] at whole
    omega
  obtain ⟨stop,ran,ahead''⟩ := tail between _ (by omega) ahead'
  exact ⟨stop,by rw [Action.bind_ok _ run,ran],ahead''⟩

theorem readsTo_times {action : Action ε Nat β} {item : Type} (items : List item) (input : item → List α)
    (value : item → β) (each : ∀ i ∈ items, ReadsTo buf limit action (input i) (value i)) :
    ReadsTo buf limit (action.times items.length) (items.flatMap input) (items.map value) := by
  induction items with
  | nil => exact (reads_pure []).to
  | cons i items ih =>
    have head := each i (List.mem_cons_self ..)
    have rest := ih fun other member => each other (List.mem_cons_of_mem i member)
    have tail : ReadsTo buf limit (action.times items.length >>= fun values => pure (value i :: values))
        (items.flatMap input ++ []) (value i :: items.map value) := readsTo_bind rest (reads_pure _).to
    rw [List.append_nil] at tail
    exact readsTo_bind head tail

end Limited

end Libnmo.Lib
