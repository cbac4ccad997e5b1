import Libnmo.Format.SharedOps
import Libnmo.Format.TypedRoundTrip

/-! A chunk of the chunk writer, read with the chunk API. The writer links its
identifiers by a second word, which the chunk API takes for the payload; each
identifier, like each other layout that the two do not share, spoils the reading. -/
namespace Libnmo.Format
open Core Lib Lib.LittleEndian Lib.Cursor

/-- A write, or an identifier, which is to be read as the next word or to be sought. -/
inductive ExchangeOp
  | shared (op : SharedOp)
  | identifier (id : UInt32) (sought : Bool)

inductive ExchangeCall
  | read (call : ChunkCall)
  | readIdentifier
  | seekIdentifier (id : UInt32)

namespace ExchangeOp

def write (around : Surroundings) : ExchangeOp → Run ChunkWriter Unit
  | shared op => op.write around
  | identifier id _ => writerWriteIdentifier around id

def call : ExchangeOp → ExchangeCall
  | shared op => .read op.call
  | identifier _ false => .readIdentifier
  | identifier id true => .seekIdentifier id

def answer : ExchangeOp → ChunkAnswer
  | shared op => op.answer
  | identifier id false => .dword id
  | identifier _ true => .found

def Fits : ExchangeOp → Prop
  | shared op => op.Fits
  | identifier _ _ => False

end ExchangeOp

def ExchangeCall.run : ExchangeCall → Run Chunk ChunkAnswer
  | read call => onPosition call.read
  | readIdentifier => do
    let id ← chunkReadIdentifier
    pure (.dword id)
  | seekIdentifier id => do
    chunkSeekIdentifier id
    pure .found

def chunkGetPosition (c : Chunk) : Nat := (c.parserState.getD {}).currentPos

/-- The writes, with the size of the data after each. -/
def exchangeWrites (around : Surroundings) : List ExchangeOp → Run ChunkWriter (List Nat)
  | [] => pure []
  | op :: ops => do
    op.write around
    let size ← Action.read fun w : ChunkWriter => w.data.length
    let sizes ← exchangeWrites around ops
    pure (size :: sizes)

/-- The reads, with the position after each. -/
def exchangeReads : List ExchangeCall → Run Chunk (List (ChunkAnswer × Nat))
  | [] => pure []
  | call :: calls => do
    let answer ← call.run
    let pos ← Action.read chunkGetPosition
    let answers ← exchangeReads calls
    pure ((answer,pos) :: answers)

/-- The reads of a finalized chunk give the values, and after each the position is where the write had ended. -/
def Exchanged (around : Surroundings) (classId chunkVersion : UInt32) (ops : List ExchangeOp) : Prop :=
  ∃ sizes w c c', (exchangeWrites around ops).run (startedWriter around none classId chunkVersion) = (.ok sizes,w) ∧
    (writerFinalize w).1 = some c ∧
    (chunkStartRead >>= fun _ => exchangeReads (ops.map ExchangeOp.call)).run c =
      (.ok ((ops.map ExchangeOp.answer).zip sizes),c')

section Identifiers
variable {around : Surroundings} {w w' : ChunkWriter} {c c' : Chunk}

/-- An identifier goes to the end of the data, with a word behind it. -/
theorem writerWriteIdentifier_run (around : Surroundings) (id : UInt32) (writing : Writing w) :
    ∃ w', (writerWriteIdentifier around id).run w = (.ok (),w') ∧ Writing w' ∧ w'.prevIdentifierPos = w.data.length ∧
      w'.data = (if w.prevIdentifierPos < w.data.length then
        w.data.set (w.prevIdentifierPos + 1) (UInt32.ofNat w.data.length) else w.data) ++ [id,0] := by
  obtain ⟨spare,grown,room,tight⟩ := ensureDataCapacity_tight around writing.room 2
  rw [writerWriteIdentifier,Action.bind_ok _ (requireOpen_run writing.fresh),Action.bind_ok _ grown,
    Action.bind_ok _ (Action.update_apply _ _),appendWords_run (by exact room)]
  refine ⟨_,rfl,⟨writing.fresh,writing.plain,writing.started,?_⟩,rfl,rfl⟩
  simp only [List.length_drop,List.length_cons,List.length_nil]
  omega

theorem length_linked (data : List UInt32) (prev : Nat) (word : UInt32) :
    (if prev < data.length then data.set (prev + 1) word else data).length = data.length := by
  split
  · exact List.length_set
  · rfl

theorem getElem?_linked {data : List UInt32} {prev place : Nat} (word : UInt32) (before : place ≤ prev) :
    (if prev < data.length then data.set (prev + 1) word else data)[place]? = data[place]? := by
  split
  · exact List.getElem?_set_ne (by omega)
  · rfl

/-- What a write does: words appended, or an identifier and a link. -/
theorem write_cases (op : ExchangeOp) (writing : Writing w) (ok : (op.write around).run w = (.ok (),w')) :
    Writing w' ∧ w.data.length ≤ w'.data.length ∧
      ∀ place < w.data.length, place ≤ w.prevIdentifierPos →
        w'.data[place]? = w.data[place]? ∧ place ≤ w'.prevIdentifierPos := by
  cases op with
  | shared op =>
    obtain ⟨words,appended,_⟩ := op.write_success writing ok
    rw [appended.data,List.length_append,appended.identifier]
    exact ⟨appended.writing,by omega,fun place inside before => ⟨List.getElem?_append_left inside,before⟩⟩
  | identifier id sought =>
    obtain ⟨w'',run,after,prev,data⟩ := writerWriteIdentifier_run around id writing
    rw [ExchangeOp.write,run,Prod.mk.injEq] at ok
    rw [← ok.2,prev,data,List.length_append,length_linked]
    refine ⟨after,by omega,fun place inside before => ⟨?_,by omega⟩⟩
    rw [List.getElem?_append_left (by rw [length_linked]; exact inside),getElem?_linked _ before]

/-- The word of an identifier stays, whatever is written later. -/
theorem identifier_kept {ops : List ExchangeOp} {sizes : List Nat} {place : Nat} (writing : Writing w)
    (inside : place < w.data.length) (before : place ≤ w.prevIdentifierPos)
    (ok : (exchangeWrites around ops).run w = (.ok sizes,w')) : w'.data[place]? = w.data[place]? := by
  induction ops generalizing w sizes with
  | nil =>
    simp only [exchangeWrites,Action.pure_apply,Prod.mk.injEq] at ok
    rw [ok.2]
  | cons op ops ih =>
    obtain ⟨_,w₁,first,ok⟩ := Action.bind_success ok
    rw [Action.bind_ok _ (Action.read_apply _ _)] at ok
    obtain ⟨rest,w₂,others,ok⟩ := Action.bind_success ok
    simp only [Action.pure_apply,Prod.mk.injEq] at ok
    rw [ok.2] at others
    obtain ⟨after,grown,kept⟩ := write_cases op writing first
    obtain ⟨same,still⟩ := kept place inside before
    rw [ih after (by omega) still others,same]

/-- A search stops at the identifier or before it. -/
theorem seekIdentifier_success {id : UInt32} {place : Nat} (word : c.words[place]? = some id)
    (run : (chunkSeekIdentifier id).run c = (.ok (),c')) : chunkGetPosition c' ≤ place + 1 := by
  simp only [chunkSeekIdentifier] at run
  split at run
  · simp at run
  · split at run
    · simp at run
    · simp at run
    · rename_i pos _ found _
      simp only [Prod.mk.injEq,true_and] at run
      rw [← run]
      change pos + 1 ≤ place + 1
      obtain ⟨bound,_,first⟩ := List.findIdx?_eq_some_iff_getElem.mp found
      by_contra past
      obtain ⟨inside,same⟩ := List.getElem?_eq_some_iff.mp word
      exact first place (by omega) (by simp [same])

end Identifiers

section Runs
variable {around : Surroundings} {w w' : ChunkWriter} {c c' : Chunk} {state : ParserState}

theorem startRead_run (c : Chunk) (calls : List ExchangeCall) :
    (chunkStartRead >>= fun _ => exchangeReads calls).run c =
      (exchangeReads calls).run { c with parserState := some {} } := rfl

theorem exchangeWrites_cons {op : ExchangeOp} {ops : List ExchangeOp} {sizes : List Nat}
    (ok : (exchangeWrites around (op :: ops)).run w = (.ok sizes,w')) :
    ∃ w₁ rest, (op.write around).run w = (.ok (),w₁) ∧ (exchangeWrites around ops).run w₁ = (.ok rest,w') ∧
      sizes = w₁.data.length :: rest := by
  obtain ⟨_,w₁,first,ok⟩ := Action.bind_success ok
  rw [Action.bind_ok _ (Action.read_apply _ _)] at ok
  obtain ⟨rest,w₂,others,ok⟩ := Action.bind_success ok
  simp only [Action.pure_apply,Prod.mk.injEq,Except.ok.injEq] at ok
  rw [ok.2] at others
  exact ⟨w₁,rest,first,others,ok.1.symm⟩

theorem exchangeReads_cons {call : ExchangeCall} {calls : List ExchangeCall} {answer : ChunkAnswer} {pos : Nat}
    {answers : List (ChunkAnswer × Nat)} :
    (∃ c', (exchangeReads (call :: calls)).run c = (.ok ((answer,pos) :: answers),c')) ↔
      ∃ c₁, call.run.run c = (.ok answer,c₁) ∧ chunkGetPosition c₁ = pos ∧
        ∃ c', (exchangeReads calls).run c₁ = (.ok answers,c') := by
  constructor
  · rintro ⟨c',run⟩
    obtain ⟨given,c₁,first,run⟩ := Action.bind_success run
    rw [Action.bind_ok _ (Action.read_apply _ _)] at run
    obtain ⟨rest,c₂,others,run⟩ := Action.bind_success run
    simp only [Action.pure_apply,Prod.mk.injEq,Except.ok.injEq,List.cons.injEq] at run
    obtain ⟨⟨⟨rfl,rfl⟩,rfl⟩,_⟩ := run
    exact ⟨c₁,first,rfl,c₂,others⟩
  · rintro ⟨c₁,first,rfl,c',others⟩
    refine ⟨c',?_⟩
    rw [exchangeReads,Action.bind_ok _ first,Action.bind_ok _ (Action.read_apply _ _),Action.bind_ok _ others]
    rfl

theorem read_run {call : ChunkCall} (reading : c.parserState = some state) :
    (ExchangeCall.read call).run.run c =
      (((call.read c.words c.spare).run state.currentPos).1,
        c.setPos ((call.read c.words c.spare).run state.currentPos).2) := by
  simp only [ExchangeCall.run,onPosition,reading]

theorem setPos_state (reading : c.parserState = some state) (pos : Nat) :
    (c.setPos pos).parserState = some { state with currentPos := pos } := by
  rw [Chunk.setPos,reading]
  rfl

theorem getPosition_setPos {pos : Nat} (reading : c.parserState = some state) : chunkGetPosition (c.setPos pos) = pos := by
  rw [chunkGetPosition,setPos_state reading]
  rfl

theorem onPosition_success {α : Type} {action : List UInt32 → List UInt32 → Run Nat α} {value : α}
    (reading : c.parserState = some state) (run : (onPosition action).run c = (.ok value,c')) :
    ∃ next, (action c.words c.spare).run state.currentPos = (.ok value,next) ∧ c' = c.setPos next := by
  simp only [onPosition,reading,Prod.mk.injEq] at run
  exact ⟨_,Prod.ext run.1 rfl,run.2.symm⟩

theorem readIdentifier_success {answer : ChunkAnswer} (reading : c.parserState = some state)
    (run : ExchangeCall.readIdentifier.run.run c = (.ok answer,c')) : chunkGetPosition c' = state.currentPos + 1 := by
  obtain ⟨id,c₁,read,ended⟩ := Action.bind_success run
  obtain ⟨word,c₂,taken,marked⟩ := Action.bind_success read
  rw [Action.bind_ok _ (Action.update_apply _ _)] at marked
  obtain ⟨next,ran,moved⟩ := onPosition_success reading taken
  simp only [Action.pure_apply,Prod.mk.injEq] at marked ended
  obtain ⟨_,start,checked,ran⟩ := Action.bind_success ran
  have still := (requireWords_success checked).2
  have one := (nextWord_success ran).2
  rw [← ended.2,← marked.2,moved,chunkGetPosition]
  simp only [setPos_state reading,Option.map_some,Option.getD_some]
  omega

theorem writing_of_exchangeWrites {ops : List ExchangeOp} {sizes : List Nat} (writing : Writing w)
    (wrote : (exchangeWrites around ops).run w = (.ok sizes,w')) : Writing w' := by
  induction ops generalizing w sizes with
  | nil =>
    simp only [exchangeWrites,Action.pure_apply,Prod.mk.injEq] at wrote
    rwa [← wrote.2]
  | cons op ops ih =>
    obtain ⟨w₁,rest,first,others,_⟩ := exchangeWrites_cons wrote
    exact ih (write_cases op writing first).1 others

/-- Values read from where they were written are none of them identifiers. -/
theorem shared_of_exchanged {ops : List ExchangeOp} {sizes : List Nat} (writing : Writing w)
    (wrote : (exchangeWrites around ops).run w = (.ok sizes,w')) (words : c.words = w'.data)
    (reading : c.parserState = some state) (place : state.currentPos = w.data.length)
    (read : ∃ c', (exchangeReads (ops.map ExchangeOp.call)).run c =
      (.ok ((ops.map ExchangeOp.answer).zip sizes),c')) : ∀ op ∈ ops, ∃ shared, op = .shared shared := by
  induction ops generalizing w c state sizes with
  | nil => simp
  | cons op ops ih =>
    obtain ⟨w₁,rest,first,others,rfl⟩ := exchangeWrites_cons wrote
    rw [List.map_cons,List.map_cons,List.zip_cons_cons] at read
    obtain ⟨c₁,answered,stopped,readRest⟩ := exchangeReads_cons.mp read
    obtain ⟨after,_,_⟩ := write_cases op writing first
    cases op with
    | shared op =>
      rw [ExchangeOp.call,read_run reading,Prod.mk.injEq] at answered
      rw [← answered.2,getPosition_setPos reading] at stopped
      rw [← answered.2,stopped] at readRest
      have tail := ih after others (show (c.setPos w₁.data.length).words = w'.data from words)
        (setPos_state reading _) rfl readRest
      intro other member
      rcases List.mem_cons.mp member with rfl | inside
      · exact ⟨op,rfl⟩
      · exact tail other inside
    | identifier id sought =>
      obtain ⟨w₂,run,_,prev,data⟩ := writerWriteIdentifier_run around id writing
      rw [ExchangeOp.write,run,Prod.mk.injEq] at first
      obtain rfl := first.2
      have size : w₂.data.length = w.data.length + 2 := by rw [data,List.length_append,length_linked]; rfl
      have word : c.words[w.data.length]? = some id := by
        rw [words,identifier_kept after (by omega) (Nat.le_of_eq prev.symm) others,data,
          List.getElem?_append_right (Nat.le_of_eq (length_linked _ _ _)),length_linked,Nat.sub_self]
        rfl
      cases sought with
      | false =>
        have one := readIdentifier_success reading answered
        omega
      | true =>
        obtain ⟨_,c₂,sought,ended⟩ := Action.bind_success answered
        simp only [Action.pure_apply,Prod.mk.injEq] at ended
        rw [← ended.2] at stopped
        have most := seekIdentifier_success word sought
        omega

/-- Writes that are no identifiers leave words on which the reads decide. -/
theorem exchange_shared {ops : List ExchangeOp} {sizes : List Nat} (writing : Writing w)
    (shared : ∀ op ∈ ops, ∃ shared, op = ExchangeOp.shared shared)
    (wrote : (exchangeWrites around ops).run w = (.ok sizes,w')) : ∃ words, Appended w w' words ∧
      ∀ (c : Chunk) (state : ParserState) rest, c.parserState = some state → state.currentPos = w.data.length →
        Ahead c.words state.currentPos (words ++ rest) →
        ((∃ c', (exchangeReads (ops.map ExchangeOp.call)).run c =
          (.ok ((ops.map ExchangeOp.answer).zip sizes),c')) ↔ ∀ op ∈ ops, op.Fits) := by
  induction ops generalizing w sizes with
  | nil =>
    simp only [exchangeWrites,Action.pure_apply,Prod.mk.injEq,Except.ok.injEq] at wrote
    obtain ⟨rfl,rfl⟩ := wrote
    exact ⟨[],writing.appended,fun c _ _ _ _ _ => iff_of_true ⟨c,rfl⟩ (by simp)⟩
  | cons op ops ih =>
    obtain ⟨w₁,sizes,first,others,rfl⟩ := exchangeWrites_cons wrote
    obtain ⟨op,rfl⟩ := shared op (by simp)
    obtain ⟨words,head,agrees⟩ := op.write_success writing first
    obtain ⟨more,tail,decides⟩ := ih head.writing (fun other member => shared other (by simp [member])) others
    refine ⟨words ++ more,head.trans tail,fun c state rest reading place ahead => ?_⟩
    rw [List.append_assoc] at ahead
    have one := agrees c.words c.spare _ _ ahead
    have size : w₁.data.length = state.currentPos + words.length := by rw [head.data,List.length_append,place]
    have others := decides (c.setPos (state.currentPos + words.length)) _ rest (setPos_state reading _) size.symm ahead.skip
    rw [List.map_cons,List.map_cons,List.zip_cons_cons,exchangeReads_cons,List.forall_mem_cons,← others]
    have step : (ExchangeOp.shared op).Fits ↔ (ExchangeCall.read op.call).run.run c =
        (.ok op.answer,c.setPos (state.currentPos + words.length)) := by
      change op.Fits ↔ _
      rw [read_run reading,← one,Prod.ext_iff,Prod.ext_iff]
      refine and_congr_right fun _ => ⟨fun same => by rw [same],fun same => ?_⟩
      have position := congrArg chunkGetPosition same
      rwa [getPosition_setPos reading,getPosition_setPos reading] at position
    constructor
    · rintro ⟨c₁,answered,stopped,readRest⟩
      rw [ExchangeOp.call,read_run reading,Prod.mk.injEq] at answered
      rw [← answered.2,getPosition_setPos reading,size] at stopped
      rw [stopped] at answered
      refine ⟨step.mpr ?_,answered.2 ▸ readRest⟩
      rw [read_run reading,stopped]
      exact Prod.ext answered.1 rfl
    · rintro ⟨fine,readRest⟩
      exact ⟨_,step.mp fine,(getPosition_setPos reading).trans size.symm,readRest⟩

end Runs

section Whole
variable (around : Surroundings) (classId chunkVersion : UInt32)

end Whole

/-- A small sub-chunk without class and references. -/
def plainSubchunk : Chunk := { chunkCreate with dataVersion := 3, data := some [8,9], ids := [1] }

end Libnmo.Format
