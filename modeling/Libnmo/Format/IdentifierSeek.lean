import Libnmo.Format.ParserReads
import Libnmo.Lib.Chase

/-! Identifiers are pairs of a word and the position of the next pair. A seek
follows the positions, from the pair read last or from the start of the data; a
loop that comes round without the check that would end it never ends. -/
namespace Libnmo.Format
open Core Lib

def parserReadIdentifier : Run ChunkParser UInt32 := do
  onCursor fun data => checkBounds data 2
  Action.update fun p => { p with prevIdentifierPos := p.cursor }
  let identifier ← onCursor parserDword
  onCursor fun _ => advance 1
  pure identifier

section Seeking
variable (data : List UInt32) (identifier : UInt32)

/-- One turn of `while (i < data_size && data[i] != identifier)`: the position it stops at, the end of the
data, or the position of the next turn. -/
def seekTurn (i : Nat) : Result Nat ⊕ Nat := match data[i]? with
  | none => .inl (.ok i)
  | some word =>
    if word = identifier then .inl (.ok i)
    else match data[i + 1]? with
      | none => .inl (.error (.error .eof ""))
      | some next => .inr next.toNat

/-- The loops that check for the position they started from. -/
def searchTurn (stop i : Nat) : Result Nat ⊕ Nat := match seekTurn data identifier i with
  | .inr next => if next = stop then .inl (.error (.error .eof "")) else .inr next
  | ended => ended

/-- Every position that leads on is in the data. -/
def searchFrom (stop i : Nat) : Result Nat :=
  (chase (searchTurn data identifier stop) (data.length + 1) i).getD (.error .endless)

/-- The loop from the position `j` of the next pair. At position 0 a second loop runs, and with it this one ends. -/
def chainTurn (j i : Nat) : Result Nat ⊕ Nat := match seekTurn data identifier i with
  | .inr 0 => .inl (searchFrom data identifier j 0)
  | turn => turn

def seekFrom (j : Nat) : Result Nat :=
  if j ≠ 0 then (chase (chainTurn data identifier j) (data.length + 1) j).getD (.error .endless)
  else searchFrom data identifier 0 0

end Seeking

def parserSeekIdentifier (identifier : UInt32) : Run ChunkParser Unit where
  run p :=
    let data := p.chunk.words
    -- also where the data is empty
    match data[p.prevIdentifierPos + 1]? with
    | none => (.error (.error .eof ""),p)
    | some j => match seekFrom data identifier j.toNat with
      | .error stop => (.error stop,p)
      | .ok i =>
        if data.length ≤ i then (.error (.error .eof ""),p)
        else (.ok (),{ p with prevIdentifierPos := i, cursor := i + 2 })

/-- The size up to the next pair, in `size_t`. A seek that fails has left the positions as they were. -/
def parserSeekIdentifierWithSize (identifier : UInt32) : Run ChunkParser Nat := do
  parserSeekIdentifier identifier
  Action.read fun p =>
    let data := p.chunk.words
    match data[p.prevIdentifierPos + 1]? with
    | none => 0
    | some nextPos =>
      if nextPos ≠ 0 ∧ nextPos.toNat < data.length then (nextPos.toNat + 2 ^ 64 - p.cursor) % 2 ^ 64
      else data.length - p.cursor

section
variable {data : List UInt32} {identifier : UInt32} {i : Nat}

/-- A pair of another identifier, and the position it names. -/
def Linked (data : List UInt32) (identifier : UInt32) (i next : Nat) : Prop :=
  ∃ word, data[i]? = some word ∧ word ≠ identifier ∧ data[i + 1]?.map UInt32.toNat = some next

theorem seekTurn_inside {next : Nat} (turn : seekTurn data identifier i = .inr next) : i < data.length := by
  rw [seekTurn] at turn
  cases word : data[i]? with
  | none => simp [word] at turn
  | some w => exact (List.getElem?_eq_some_iff.mp word).1

theorem seekTurn_leads {next : Nat} : Leads (seekTurn data identifier) i next ↔ Linked data identifier i next := by
  rw [Leads,Linked,seekTurn]
  cases word : data[i]? with
  | none => simp
  | some w =>
    by_cases same : w = identifier
    · simp [same]
    · cases position : data[i + 1]? with
      | none => simp [same]
      | some w' => simp [same]

theorem seekTurn_ok {k : Nat} : seekTurn data identifier i = .inl (.ok k) ↔
    k = i ∧ ∀ word, data[i]? = some word → word = identifier := by
  rw [seekTurn]
  cases word : data[i]? with
  | none => simp [eq_comm]
  | some w =>
    by_cases same : w = identifier
    · simp [same,eq_comm]
    · cases position : data[i + 1]? with
      | none => simp [same]
      | some w' => simp [same]

theorem searchTurn_leads {stop next : Nat} :
    Leads (searchTurn data identifier stop) i next ↔ Leads (seekTurn data identifier) i next ∧ next ≠ stop := by
  rw [Leads,Leads,searchTurn]
  cases turn : seekTurn data identifier i with
  | inl ended => simp
  | inr place =>
    by_cases back : place = stop
    · simp only [if_pos back,reduceCtorEq,Sum.inr.injEq,false_iff,not_and_or,not_not]
      by_cases same : place = next
      · exact .inr (same ▸ back)
      · exact .inl same
    · simp only [if_neg back,Sum.inr.injEq]
      exact ⟨fun same => ⟨same,same ▸ back⟩,And.left⟩

theorem searchTurn_ok {stop k : Nat} :
    searchTurn data identifier stop i = .inl (.ok k) ↔ seekTurn data identifier i = .inl (.ok k) := by
  rw [searchTurn]
  cases turn : seekTurn data identifier i with
  | inl ended => simp
  | inr place =>
    by_cases back : place = stop
    · simp [back]
    · simp [back]

theorem getD_endless {turns : Option (Result Nat)} {k : Nat} :
    turns.getD (.error .endless) = .ok k ↔ turns = some (.ok k) := by
  cases turns with
  | none => simp
  | some outcome => simp

/-- Two loops in one: the chain of pairs from a position, which does not come back to where it is checked. -/
theorem searchFrom_ok {stop k : Nat} (first : Relation.ReflTransGen (Leads (seekTurn data identifier)) stop i) :
    searchFrom data identifier stop i = .ok k ↔
      Relation.ReflTransGen (Leads (seekTurn data identifier)) i k ∧ seekTurn data identifier k = .inl (.ok k) := by
  have inside : ∀ at' next, searchTurn data identifier stop at' = .inr next → at' < data.length :=
    fun at' next turn => seekTurn_inside (searchTurn_leads.mp turn).1
  rw [searchFrom,getD_endless,chase_iff inside]
  constructor
  · rintro ⟨last,chain,ends⟩
    have ends' := searchTurn_ok.mp ends
    obtain rfl := (seekTurn_ok.mp ends').1
    exact ⟨Relation.ReflTransGen.mono (fun _ _ step => (searchTurn_leads.mp step).1) _ _ chain,ends'⟩
  · rintro ⟨chain,ends⟩
    refine ⟨k,?_,searchTurn_ok.mpr ends⟩
    have away : ∀ place, Relation.TransGen (Leads (seekTurn data identifier)) i place → place ≠ stop := by
      rintro place round rfl
      exact no_round (first.trans chain) ends (Relation.TransGen.trans_right first round)
    clear first
    induction chain using Relation.ReflTransGen.head_induction_on with
    | refl => exact .refl
    | head step rest ih =>
      refine .head (searchTurn_leads.mpr ⟨step,away _ (.single step)⟩) (ih fun place later => ?_)
      exact away place (.head step later)

theorem chainTurn_leads {j next : Nat} (turn : Leads (chainTurn data identifier j) i next) :
    Leads (seekTurn data identifier) i next := by
  rw [Leads,chainTurn] at turn
  split at turn
  · simp at turn
  · exact turn

theorem chainTurn_ok {j k : Nat} (turn : chainTurn data identifier j i = .inl (.ok k)) :
    seekTurn data identifier i = .inl (.ok k) ∨
      seekTurn data identifier i = .inr 0 ∧ searchFrom data identifier j 0 = .ok k := by
  rw [chainTurn] at turn
  split at turn
  · rename_i zero
    exact .inr ⟨zero,Sum.inl.inj turn⟩
  · exact .inl turn

/-- The outer loop follows the chain, up to the start of the data if it comes there. -/
theorem chainTurn_ends {j k : Nat} (first : Relation.ReflTransGen (Leads (seekTurn data identifier)) j i)
    (chain : Relation.ReflTransGen (Leads (seekTurn data identifier)) i k)
    (ends : seekTurn data identifier k = .inl (.ok k)) :
    ∃ last, Relation.ReflTransGen (Leads (chainTurn data identifier j)) i last ∧
      chainTurn data identifier j last = .inl (.ok k) := by
  induction chain using Relation.ReflTransGen.head_induction_on with
  | refl => exact ⟨k,.refl,by rw [chainTurn,ends]⟩
  | @head i next step rest ih =>
    have onward := first.tail step
    cases next with
    | zero => exact ⟨i,.refl,by rw [chainTurn,step]; exact congrArg Sum.inl ((searchFrom_ok onward).mpr ⟨rest,ends⟩)⟩
    | succ next =>
      obtain ⟨last,chain,turn⟩ := ih onward
      exact ⟨last,.head (by rw [Leads,chainTurn,step]; rfl) chain,turn⟩

/-- A seek that succeeds has followed the chain of pairs to its end. -/
theorem seekFrom_ok {j k : Nat} : seekFrom data identifier j = .ok k ↔
    Relation.ReflTransGen (Leads (seekTurn data identifier)) j k ∧ seekTurn data identifier k = .inl (.ok k) := by
  rw [seekFrom]
  split
  · have inside : ∀ at' next, chainTurn data identifier j at' = .inr next → at' < data.length :=
      fun at' next turn => seekTurn_inside (chainTurn_leads turn)
    rw [getD_endless,chase_iff inside]
    constructor
    · rintro ⟨last,chain,ends⟩
      have chain' : Relation.ReflTransGen (Leads (seekTurn data identifier)) j last :=
        Relation.ReflTransGen.mono (fun _ _ step => chainTurn_leads step) _ _ chain
      rcases chainTurn_ok ends with ends' | ⟨zero,search⟩
      · obtain rfl := (seekTurn_ok.mp ends').1
        exact ⟨chain',ends'⟩
      · have toStart := chain'.tail zero
        obtain ⟨onward,ends'⟩ := (searchFrom_ok toStart).mp search
        exact ⟨toStart.trans onward,ends'⟩
    · rintro ⟨chain,ends⟩
      exact chainTurn_ends .refl chain ends
  · rename_i zero
    obtain rfl : j = 0 := Decidable.not_not.mp zero
    exact searchFrom_ok .refl

theorem seekFrom_found {j k : Nat} : seekFrom data identifier j = .ok k ∧ k < data.length ↔
    Relation.ReflTransGen (Linked data identifier) j k ∧ data[k]? = some identifier := by
  have same : Leads (seekTurn data identifier) = Linked data identifier := by
    funext i next
    exact propext seekTurn_leads
  rw [seekFrom_ok,same,seekTurn_ok,and_assoc]
  refine and_congr_right fun _ => ?_
  constructor
  · rintro ⟨⟨_,found⟩,inside⟩
    rw [List.getElem?_eq_getElem inside] at found ⊢
    rw [found _ rfl]
  · intro found
    refine ⟨⟨rfl,fun word here => Option.some.inj (here.symm.trans found)⟩,?_⟩
    exact (List.getElem?_eq_some_iff.mp found).1

end

/-- The pair that a seek is to find: the chain from the pair read last leads to it. -/
def Sought (p : ChunkParser) (identifier : UInt32) (k : Nat) : Prop :=
  ∃ j, p.chunk.words[p.prevIdentifierPos + 1]? = some j ∧
    Relation.ReflTransGen (Linked p.chunk.words identifier) j.toNat k ∧ p.chunk.words[k]? = some identifier

/-- A seek stands behind the pair that it is to find, or changes nothing because there is none. -/
theorem parserSeekIdentifier_cases (identifier : UInt32) (p : ChunkParser) :
    (∃ k, Sought p identifier k ∧
      (parserSeekIdentifier identifier).run p = (.ok (),{ p with prevIdentifierPos := k, cursor := k + 2 })) ∨
    (∀ k, ¬ Sought p identifier k) ∧ ∃ stop, (parserSeekIdentifier identifier).run p = (.error stop,p) := by
  cases first : p.chunk.words[p.prevIdentifierPos + 1]? with
  | none =>
    refine .inr ⟨?_,.error .eof "",by simp only [parserSeekIdentifier,first]⟩
    rintro k ⟨j,found,_⟩
    simp [first] at found
  | some j =>
    have absent (none : ∀ k, ¬ (seekFrom p.chunk.words identifier j.toNat = .ok k ∧ k < p.chunk.words.length)) (k : Nat) :
        ¬ Sought p identifier k := by
      rintro ⟨j',found,chain,here⟩
      obtain rfl := Option.some.inj (first.symm.trans found)
      exact none k (seekFrom_found.mpr ⟨chain,here⟩)
    cases sought : seekFrom p.chunk.words identifier j.toNat with
    | error stop => exact .inr ⟨absent (by simp [sought]),stop,by simp only [parserSeekIdentifier,first,sought]⟩
    | ok k =>
      by_cases beyond : p.chunk.words.length ≤ k
      · refine .inr ⟨absent ?_,.error .eof "",by simp only [parserSeekIdentifier,first,sought,if_pos beyond]⟩
        rintro k' ⟨same,inside⟩
        obtain rfl := Except.ok.inj (sought.symm.trans same)
        omega
      · obtain ⟨chain,found⟩ := seekFrom_found.mp ⟨sought,Nat.not_le.mp beyond⟩
        exact .inl ⟨k,⟨j,first,chain,found⟩,by simp only [parserSeekIdentifier,first,sought,if_neg beyond]⟩

/-- The chain of pairs leads to one place only. -/
theorem sought_unique {p : ChunkParser} {identifier : UInt32} {k k' : Nat} (first : Sought p identifier k)
    (second : Sought p identifier k') : k = k' := by
  obtain ⟨j,start,chain,found⟩ := first
  obtain ⟨j',start',chain',found'⟩ := second
  obtain rfl := Option.some.inj (start.symm.trans start')
  exact Except.ok.inj ((seekFrom_found.mpr ⟨chain,found⟩).1.symm.trans (seekFrom_found.mpr ⟨chain',found'⟩).1)

end Libnmo.Format
