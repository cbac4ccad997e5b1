import Libnmo.Format.IdentifierSeek

/-! Whether a seek ends. The chain of pairs is followed until it comes to a place that
leads no further. The only round that is noticed is one through the start of the data:
a chain that goes round elsewhere is followed for ever. -/
namespace Libnmo.Format
open Core Lib

section Ending
variable {data : List UInt32} {identifier : UInt32} {i j stop : Nat}

/-- The chain of pairs comes to a place that leads no further. -/
def ChainEnds (data : List UInt32) (identifier : UInt32) (j : Nat) : Prop :=
  ∃ last, Relation.ReflTransGen (Linked data identifier) j last ∧ ∀ next, ¬ Linked data identifier last next

/-- The chain comes to the start of the data, and from there back to where it began. -/
def RoundsStart (data : List UInt32) (identifier : UInt32) (j : Nat) : Prop :=
  Relation.ReflTransGen (Linked data identifier) j 0 ∧ Relation.TransGen (Linked data identifier) 0 j

theorem leads_eq_linked : Leads (seekTurn data identifier) = Linked data identifier := by
  funext i next
  exact propext seekTurn_leads

theorem seekTurn_ended {outcome : Result Nat} (turn : seekTurn data identifier i = .inl outcome) :
    outcome ≠ .error .endless := by
  rw [seekTurn] at turn
  split at turn
  · rw [← Sum.inl.inj turn]
    rintro ⟨⟩
  · split at turn
    · rw [← Sum.inl.inj turn]
      rintro ⟨⟩
    · split at turn
      · rw [← Sum.inl.inj turn]
        rintro ⟨⟩
      · simp at turn

theorem stuck_iff : (∃ outcome, seekTurn data identifier i = .inl outcome) ↔ ∀ next, ¬ Linked data identifier i next := by
  rw [← leads_eq_linked]
  constructor
  · rintro ⟨outcome,turn⟩ next leads
    rw [Leads,turn] at leads
    simp at leads
  · intro stuck
    cases turn : seekTurn data identifier i with
    | inl outcome => exact ⟨outcome,rfl⟩
    | inr next => exact absurd turn (stuck next)

theorem searchTurn_ended {outcome : Result Nat} (turn : searchTurn data identifier stop i = .inl outcome) :
    outcome ≠ .error .endless := by
  rw [searchTurn] at turn
  split at turn
  · split at turn
    · rw [← Sum.inl.inj turn]
      rintro ⟨⟩
    · simp at turn
  · exact seekTurn_ended turn

/-- A turn of the second loop is the last where no place follows, or the one checked for. -/
theorem searchTurn_last : (∃ outcome, searchTurn data identifier stop i = .inl outcome) ↔
    (∀ next, ¬ Linked data identifier i next) ∨ Linked data identifier i stop := by
  rw [← stuck_iff,← leads_eq_linked,Leads,searchTurn]
  cases turn : seekTurn data identifier i with
  | inl outcome => simp
  | inr next =>
    by_cases back : next = stop
    · simp [back]
    · simp [back]

theorem searchTurn_inside {next : Nat} (turn : searchTurn data identifier stop i = .inr next) : i < data.length :=
  seekTurn_inside (searchTurn_leads.mp turn).1

theorem getD_returns {turns : Option (Result Nat)} (ended : ∀ outcome, turns = some outcome → outcome ≠ .error .endless) :
    turns.getD (.error .endless) ≠ .error .endless ↔ ∃ outcome, turns = some outcome := by
  cases turns with
  | none => simp
  | some outcome => simpa using ended outcome rfl

/-- Before the place checked for, both loops take the same turns. -/
theorem search_chain {last : Nat} (chain : Relation.ReflTransGen (Linked data identifier) i last) :
    Relation.ReflTransGen (Leads (searchTurn data identifier stop)) i last ∨
      ∃ before, Relation.ReflTransGen (Leads (searchTurn data identifier stop)) i before ∧
        Linked data identifier before stop := by
  induction chain with
  | refl => exact .inl .refl
  | @tail middle next chain step ih =>
    rcases ih with whole | early
    · by_cases back : next = stop
      · exact .inr ⟨middle,whole,back ▸ step⟩
      · refine .inl (whole.tail (searchTurn_leads.mpr ⟨?_,back⟩))
        rwa [leads_eq_linked]
    · exact .inr early

/-- The second loop ends with its chain, or at the place that it checks for. -/
theorem searchFrom_returns : searchFrom data identifier stop i ≠ .error .endless ↔
    ChainEnds data identifier i ∨ Relation.TransGen (Linked data identifier) i stop := by
  have ended : ∀ outcome, chase (searchTurn data identifier stop) (data.length + 1) i = some outcome →
      outcome ≠ .error .endless := by
    intro outcome turns
    obtain ⟨last,_,turn⟩ := chase_leads turns
    exact searchTurn_ended turn
  rw [searchFrom,getD_returns ended,chase_ends fun _ _ => searchTurn_inside]
  have forget {last : Nat} (chain : Relation.ReflTransGen (Leads (searchTurn data identifier stop)) i last) :
      Relation.ReflTransGen (Linked data identifier) i last :=
    Relation.ReflTransGen.mono (fun _ _ step => seekTurn_leads.mp (searchTurn_leads.mp step).1) _ _ chain
  constructor
  · rintro ⟨last,chain,turn⟩
    rcases searchTurn_last.mp turn with stuck | back
    · exact .inl ⟨last,forget chain,stuck⟩
    · exact .inr (Relation.TransGen.tail' (forget chain) back)
  · rintro (⟨last,chain,stuck⟩ | round)
    · rcases search_chain chain with whole | ⟨before,early,back⟩
      · exact ⟨last,whole,searchTurn_last.mpr (.inl stuck)⟩
      · exact ⟨before,early,searchTurn_last.mpr (.inr back)⟩
    · obtain ⟨before,chain,back⟩ := Relation.TransGen.tail'_iff.mp round
      rcases search_chain chain with whole | ⟨before',early,back'⟩
      · exact ⟨before,whole,searchTurn_last.mpr (.inr back)⟩
      · exact ⟨before',early,searchTurn_last.mpr (.inr back')⟩

/-- The first loop takes the turns of the chain, up to the start of the data. -/
theorem chain_turns {last : Nat} (chain : Relation.ReflTransGen (Linked data identifier) i last) :
    Relation.ReflTransGen (Leads (chainTurn data identifier j)) i last ∨
      ∃ before, Relation.ReflTransGen (Leads (chainTurn data identifier j)) i before ∧
        Linked data identifier before 0 ∧ Relation.ReflTransGen (Linked data identifier) 0 last := by
  induction chain using Relation.ReflTransGen.head_induction_on with
  | refl => exact .inl .refl
  | @head i next step rest ih =>
    cases next with
    | zero => exact .inr ⟨i,.refl,step,rest⟩
    | succ next =>
      have turn : Leads (chainTurn data identifier j) i (next + 1) := by
        rw [Leads,chainTurn,seekTurn_leads.mpr step]
        rfl
      rcases ih with whole | ⟨before,early,start⟩
      · exact .inl (.head turn whole)
      · exact .inr ⟨before,.head turn early,start⟩

/-- A turn of the first loop is the last where no place follows, or at the start of the data. -/
theorem chainTurn_last : (∃ outcome, chainTurn data identifier j i = .inl outcome) ↔
    (∀ next, ¬ Linked data identifier i next) ∨ Linked data identifier i 0 := by
  rw [← stuck_iff,← leads_eq_linked,Leads,chainTurn]
  cases turn : seekTurn data identifier i with
  | inl outcome => simp
  | inr next =>
    cases next with
    | zero => simp
    | succ next => simp

theorem chainTurn_ended {outcome : Result Nat} (turn : chainTurn data identifier j i = .inl outcome) :
    outcome ≠ .error .endless ∨ Linked data identifier i 0 ∧ outcome = searchFrom data identifier j 0 := by
  rw [chainTurn] at turn
  split at turn
  · rename_i start
    exact .inr ⟨seekTurn_leads.mp start,(Sum.inl.inj turn).symm⟩
  · exact .inl (seekTurn_ended turn)

theorem chainTurn_inside {next : Nat} (turn : chainTurn data identifier j i = .inr next) : i < data.length :=
  seekTurn_inside (chainTurn_leads turn)

theorem chainTurn_start (start : Linked data identifier i 0) :
    chainTurn data identifier j i = .inl (searchFrom data identifier j 0) := by
  rw [chainTurn,seekTurn_leads.mpr start]
  rfl

theorem chain_forget {last : Nat} (chain : Relation.ReflTransGen (Leads (chainTurn data identifier j)) i last) :
    Relation.ReflTransGen (Linked data identifier) i last :=
  Relation.ReflTransGen.mono (fun _ _ step => seekTurn_leads.mp (chainTurn_leads step)) _ _ chain

/-- Both loops together: the chain comes to an end, or through the start of the data round to its beginning. -/
theorem seekFrom_returns : seekFrom data identifier j ≠ .error .endless ↔
    ChainEnds data identifier j ∨ RoundsStart data identifier j := by
  by_cases zero : j = 0
  · rw [seekFrom,if_neg (not_not.mpr zero),searchFrom_returns,zero,RoundsStart]
    exact or_congr_right (and_iff_right .refl).symm
  have value (outcome : Result Nat) : seekFrom data identifier j = outcome ∧ outcome ≠ .error .endless ↔
      outcome ≠ .error .endless ∧ ∃ last, Relation.ReflTransGen (Leads (chainTurn data identifier j)) j last ∧
        chainTurn data identifier j last = .inl outcome := by
    rw [seekFrom,if_pos zero,← chase_iff fun _ _ => chainTurn_inside]
    cases turns : chase (chainTurn data identifier j) (data.length + 1) j with
    | none => simp [eq_comm]
    | some outcome' => simp [and_comm]
  constructor
  · intro returns
    obtain ⟨_,last,chain,turn⟩ := (value _).mp ⟨rfl,returns⟩
    rcases chainTurn_last.mp ⟨_,turn⟩ with stuck | start
    · exact .inl ⟨last,chain_forget chain,stuck⟩
    · have toStart := (chain_forget chain).tail start
      rw [chainTurn_start start] at turn
      rw [← Sum.inl.inj turn] at returns
      rcases searchFrom_returns.mp returns with ⟨last',chain',stuck⟩ | round
      · exact .inl ⟨last',toStart.trans chain',stuck⟩
      · exact .inr ⟨toStart,round⟩
  · intro ends
    have arrives : (∃ last, Relation.ReflTransGen (Leads (chainTurn data identifier j)) j last ∧
          ∀ next, ¬ Linked data identifier last next) ∨
        ∃ before, Relation.ReflTransGen (Leads (chainTurn data identifier j)) j before ∧
          Linked data identifier before 0 ∧ searchFrom data identifier j 0 ≠ .error .endless := by
      rcases ends with ⟨last,chain,stuck⟩ | ⟨toStart,round⟩
      · rcases chain_turns chain with whole | ⟨before,early,start,rest⟩
        · exact .inl ⟨last,whole,stuck⟩
        · exact .inr ⟨before,early,start,searchFrom_returns.mpr (.inl ⟨last,rest,stuck⟩)⟩
      · have returns := searchFrom_returns.mpr (.inr round)
        rcases Relation.ReflTransGen.cases_tail toStart with same | ⟨before,chain,start⟩
        · exact absurd same.symm zero
        · rcases chain_turns chain with whole | ⟨before',early,start',_⟩
          · exact .inr ⟨before,whole,start,returns⟩
          · exact .inr ⟨before',early,start',returns⟩
    rcases arrives with ⟨last,chain,stuck⟩ | ⟨before,chain,start,returns⟩
    · obtain ⟨outcome,turn⟩ := chainTurn_last.mpr (.inl stuck)
      rcases chainTurn_ended turn with ended | ⟨start,_⟩
      · rw [((value outcome).mpr ⟨ended,last,chain,turn⟩).1]
        exact ended
      · exact absurd start (stuck 0)
    · rw [((value _).mpr ⟨returns,before,chain,chainTurn_start start⟩).1]
      exact returns

/-- More turns in either loop make no difference. -/
theorem searchFrom_turns {turns : Nat} (enough : data.length + 1 ≤ turns) :
    (chase (searchTurn data identifier stop) turns i).getD (.error .endless) = searchFrom data identifier stop i := by
  rw [searchFrom,chase_enough (fun _ _ => searchTurn_inside) enough]

theorem seekFrom_turns {turns : Nat} (nonzero : j ≠ 0) (enough : data.length + 1 ≤ turns) :
    (chase (chainTurn data identifier j) turns j).getD (.error .endless) = seekFrom data identifier j := by
  rw [seekFrom,if_pos nonzero,chase_enough (fun _ _ => chainTurn_inside) enough]

end Ending

/-- The condition for a seek: where there is a next pair to start from, its chain ends or rounds the start. -/
def SeekEnds (p : ChunkParser) (identifier : UInt32) : Prop :=
  ∀ j, p.chunk.words[p.prevIdentifierPos + 1]? = some j →
    ChainEnds p.chunk.words identifier j.toNat ∨ RoundsStart p.chunk.words identifier j.toNat

/-- A seek comes back, in every state and for every identifier, exactly when the chain of pairs comes to an
end or rounds the start of the data. -/
theorem seek_returns_iff (p : ChunkParser) (identifier : UInt32) :
    ((parserSeekIdentifier identifier).run p).1 ≠ .error .endless ↔ SeekEnds p identifier := by
  rw [parserSeekIdentifier,SeekEnds]
  cases first : p.chunk.words[p.prevIdentifierPos + 1]? with
  | none => simp [first]
  | some j =>
    simp only [first,Option.some.injEq,forall_eq',← seekFrom_returns]
    cases seekFrom p.chunk.words identifier j.toNat with
    | error stop => simp
    | ok i =>
      by_cases beyond : p.chunk.words.length ≤ i
      · simp [beyond]
      · simp [beyond]

/-- The second pair names its own position. -/
def roundPair : Chunk := { chunkCreate with data := some [1,2,3,2] }

theorem roundPair_endless : ¬ ∀ (c : Chunk) (identifier : UInt32),
    ((parserSeekIdentifier identifier).run (parserCreate c)).1 ≠ .error .endless :=
  fun all => all roundPair 9 (by decide)

end Libnmo.Format
