import Libnmo.Format.ParserRuns

/-! The extent of a sub-chunk. Its size field says how many words belong to it, and its
header counts the words of its lists: the reader bounds each number by the data around
the sub-chunk, and none by another. -/
namespace Libnmo.Format
open Core Lib Lib.LittleEndian Lib.Cursor

/-- The words behind the size field that the header of a sub-chunk counts, itself included. -/
def countedWords : List UInt32 → Option Nat
  | _ :: versionInfo :: chunkSize :: _ :: idCount :: chunkCount :: rest =>
    if (versionInfo >>> 16) &&& 0xFF > 4 then match rest with
      | managerCount :: _ => some (7 + chunkSize.toNat + idCount.toNat + chunkCount.toNat + managerCount.toNat)
      | [] => none
    else some (6 + chunkSize.toNat + idCount.toNat + chunkCount.toNat)
  | _ => none

section Reading
variable {data : List UInt32} {sizeDwords : UInt32}

theorem dword_success {pos next : Nat} {word : UInt32} (ok : (parserDword data).run pos = (.ok word,next)) :
    data[pos]? = some word ∧ next = pos + 1 := by
  rw [parserDword] at ok
  dsimp only at ok
  split at ok
  · rename_i found
    obtain ⟨same,moved⟩ := Prod.mk.inj ok
    rw [← Except.ok.inj same]
    exact ⟨found,moved.symm⟩
  · simp at ok

theorem takes_parserDword : Takes data (parserDword data) fun input word => input = [word] := by
  intro pos word next _ run
  obtain ⟨found,rfl⟩ := dword_success run
  obtain ⟨inside,here⟩ := List.getElem?_eq_some_iff.mp found
  refine ⟨[word],data.drop (pos + 1),rfl,⟨Nat.le_of_lt inside,?_⟩,inside,rfl⟩
  rw [List.drop_eq_getElem_cons inside,here]
  rfl

theorem takes_dword {β : Type} {next : UInt32 → Run Nat β} {shape : UInt32 → List UInt32 → β → Prop}
    (tail : ∀ word, Takes data (next word) (shape word)) : Takes data (parserDword data >>= next) fun input value =>
      ∃ word after, input = word :: after ∧ shape word after value :=
  takes_field takes_parserDword tail

theorem checkBounds_success {dwordsNeeded pos next : Nat} {value : Unit}
    (ok : (checkBounds data dwordsNeeded).run pos = (.ok value,next)) :
    next = pos ∧ pos + dwordsNeeded ≤ data.length := by
  rw [checkBounds] at ok
  dsimp only at ok
  split at ok
  · rename_i room
    exact ⟨(Prod.mk.inj ok).2.symm,room⟩
  · simp at ok

theorem takes_checkBounds (dwordsNeeded : Nat) : Takes data (checkBounds data dwordsNeeded) fun input _ => input = [] := by
  intro pos value next inside run
  obtain ⟨rfl,_⟩ := checkBounds_success run
  exact ⟨[],data.drop next,rfl,⟨inside,rfl⟩,inside,rfl⟩

theorem toNat_of_not_pos {count : UInt32} (zero : ¬ count > 0) : count.toNat = 0 :=
  Nat.eq_zero_of_not_pos fun positive => zero (UInt32.lt_iff_toNat_lt.mpr positive)

theorem takes_parserDwords (count : UInt32) : Takes data (parserDwords data count) fun input list =>
    input = list ∧ list.length = count.toNat := by
  rw [parserDwords]
  split
  · intro pos list next _ run
    obtain ⟨_,between,check,read⟩ := Action.bind_success run
    obtain ⟨rfl,room⟩ := checkBounds_success check
    obtain ⟨same,rfl⟩ := Prod.mk.inj read
    obtain rfl := Except.ok.inj same
    obtain ⟨before,after⟩ := slice_ahead room
    exact ⟨_,_,⟨rfl,length_slice data _ _ room⟩,before,after⟩
  · rename_i zero
    refine (takes_pure []).imp ?_
    rintro input list ⟨rfl,rfl⟩
    exact ⟨rfl,(toNat_of_not_pos zero).symm⟩

theorem takes_managerCount (chunkVersion : UInt32) : Takes data (parserManagerCount data chunkVersion) fun input count =>
    input = (if chunkVersion > 4 then [count] else []) ∧ (chunkVersion > 4 ∨ count = 0) := by
  rw [parserManagerCount]
  by_cases late : chunkVersion > 4
  · rw [if_pos late]
    exact takes_parserDword.imp fun _ _ same => ⟨by rw [if_pos late,same],.inl late⟩
  · rw [if_neg late]
    exact (takes_pure 0).imp fun _ _ both => ⟨by rw [if_neg late,both.1],.inr both.2⟩

/-- The lists of the sub-chunk lie one behind the other, behind its header. -/
def ListsOf (input : List UInt32) (sub : Chunk) : Prop :=
  ∃ header refs, input = header ++ (sub.words ++ (sub.ids ++ (refs ++ sub.managers)))

/-- The data of a sub-chunk, which has none where the list is empty. -/
theorem words_listed {chunkSize : UInt32} {words : List UInt32} (length : words.length = chunkSize.toNat) :
    (if chunkSize > 0 then some words else none).getD [] = words := by
  split
  · rfl
  · rename_i zero
    exact (List.length_eq_zero_iff.mp (length.trans (toNat_of_not_pos zero))).symm

/-- The part of the reader behind the header, for its four counts. -/
theorem takes_subchunkLists (sub : Chunk) (chunkSize idCount chunkCount managerCount : UInt32) :
    Takes data (do
      let words ← parserDwords data chunkSize
      let ids ← parserDwords data idCount
      let _ ← parserDwords data chunkCount
      let managers ← parserDwords data managerCount
      pure { sub with
        data := if chunkSize > 0 then some words else none
        ids := ids, managers := managers }) fun input back =>
      (∃ refs, input = back.words ++ (back.ids ++ (refs ++ back.managers))) ∧
        input.length = chunkSize.toNat + idCount.toNat + chunkCount.toNat + managerCount.toNat := by
  refine (takes_bind (takes_parserDwords chunkSize) fun words => takes_bind (takes_parserDwords idCount) fun ids =>
    takes_bind (takes_parserDwords chunkCount) fun _ => takes_return _ (takes_parserDwords managerCount)).imp ?_
  rintro input back ⟨words,_,_,rfl,⟨rfl,wordsLength⟩,ids,_,_,rfl,⟨rfl,idsLength⟩,refs,_,_,rfl,⟨rfl,refsLength⟩,
    managers,⟨rfl,managersLength⟩,rfl⟩
  refine ⟨⟨refs,?_⟩,?_⟩
  · change _ = (if chunkSize > 0 then some words else none).getD [] ++ (ids ++ (refs ++ _))
    rw [words_listed wordsLength]
  · simp only [List.length_append,wordsLength,idsLength,refsLength,managersLength]
    omega

theorem takes_subchunkBody : Takes data (readSubchunkBody data sizeDwords) fun input sub =>
    ListsOf input sub ∧ ∀ rest, countedWords (input ++ rest) = some input.length := by
  refine Takes.imp (takes_check (takes_checkBounds _) fun _ => takes_dword fun classId => takes_dword fun versionInfo =>
    takes_dword fun chunkSize => takes_dword fun _ => takes_dword fun idCount => takes_dword fun chunkCount =>
    takes_bind (takes_managerCount _) fun managerCount =>
    takes_subchunkLists _ chunkSize idCount chunkCount managerCount) ?_
  rintro input sub ⟨classId,_,rfl,versionInfo,_,rfl,chunkSize,_,rfl,hasFile,_,rfl,idCount,_,rfl,chunkCount,_,rfl,
    _,lists,managerCount,rfl,⟨rfl,version⟩,⟨refs,same⟩,length⟩
  let managerField := if (versionInfo >>> 16) &&& 0xFF > 4 then [managerCount] else []
  refine ⟨⟨[classId,versionInfo,chunkSize,hasFile,idCount,chunkCount] ++ managerField,refs,?_⟩,fun rest => ?_⟩
  · rw [same]
    simp only [managerField,List.cons_append,List.nil_append]
  · by_cases late : (versionInfo >>> 16) &&& 0xFF > 4
    · simp only [countedWords,if_pos late,List.cons_append,List.nil_append,List.length_cons,length]
      congr 1
      omega
    · have none : managerCount.toNat = 0 := congrArg UInt32.toNat (version.resolve_left late)
      simp only [countedWords,if_neg late,List.cons_append,List.nil_append,List.length_cons,length,none]
      congr 1
      omega

theorem dword_run {pos : Nat} {word : UInt32} {rest : List UInt32} (ahead : Ahead data pos (word :: rest)) :
    (parserDword data).run pos = (.ok word,pos + 1) := by
  have found : data[pos]? = some word := ahead.getElem?
  simp only [parserDword,found]

theorem dwords_run {pos : Nat} {count : UInt32} (room : pos + count.toNat ≤ data.length) :
    (parserDwords data count).run pos = (.ok (slice data pos count.toNat),pos + count.toNat) := by
  rw [parserDwords]
  split
  · rw [Action.bind_ok (a := ()) (t := pos) _ (by simp only [checkBounds,if_pos room])]
  · rename_i zero
    rw [toNat_of_not_pos zero,slice,List.take_zero]
    rfl

/-- Where the declared size and the header's counts fit the data, each on its own, the sub-chunk is taken. -/
theorem subchunkBody_run {pos count : Nat} (inside : pos ≤ data.length) (room : pos + sizeDwords.toNat ≤ data.length)
    (counted : countedWords (data.drop pos) = some count) (fits : pos + count ≤ data.length) :
    ∃ sub, (readSubchunkBody data sizeDwords).run pos = (.ok sub,pos + count) := by
  have check : (checkBounds data sizeDwords.toNat).run pos = (.ok (),pos) := by simp only [checkBounds,if_pos room]
  unfold countedWords at counted
  split at counted
  · rename_i classId versionInfo chunkSize hasFile idCount chunkCount rest header
    have at0 : Ahead data pos _ := ⟨inside,header⟩
    have at1 := at0.next
    have at2 := at1.next
    have at3 := at2.next
    have at4 := at3.next
    have at5 := at4.next
    have at6 := at5.next
    obtain ⟨managerCount,headerDwords,managers,total⟩ : ∃ (managerCount : UInt32) (headerDwords : Nat),
        (parserManagerCount data ((versionInfo >>> 16) &&& 0xFF)).run (pos + 1 + 1 + 1 + 1 + 1 + 1) =
          (.ok managerCount,pos + headerDwords) ∧
        headerDwords + chunkSize.toNat + idCount.toNat + chunkCount.toNat + managerCount.toNat = count := by
      rw [parserManagerCount]
      split at counted
      · rename_i late
        rw [if_pos late]
        split at counted
        · exact ⟨_,7,dword_run at6,Option.some.inj counted⟩
        · simp at counted
      · rename_i early
        rw [if_neg early]
        exact ⟨0,6,rfl,Option.some.inj counted⟩
    rw [readSubchunkBody,Action.bind_ok _ check,Action.bind_ok _ (dword_run at0),Action.bind_ok _ (dword_run at1),
      Action.bind_ok _ (dword_run at2),Action.bind_ok _ (dword_run at3),Action.bind_ok _ (dword_run at4),
      Action.bind_ok _ (dword_run at5),Action.bind_ok _ managers,Action.bind_ok _ (dwords_run (by omega)),
      Action.bind_ok _ (dwords_run (by omega)),Action.bind_ok _ (dwords_run (by omega)),
      Action.bind_ok _ (dwords_run (by omega)),← total]
    exact ⟨_,congrArg (Prod.mk _) (by omega)⟩
  · simp at counted

/-- The list was copied from the data between two positions. -/
def CopiedFrom (data : List UInt32) (start stop : Nat) (list : List UInt32) : Prop :=
  ∃ pos, start ≤ pos ∧ pos + list.length ≤ stop ∧ list = slice data pos list.length

theorem copiedFrom_ahead {pos start stop : Nat} {list rest : List UInt32} (ahead : Ahead data pos (list ++ rest))
    (after : start ≤ pos) (before : pos + list.length ≤ stop) : CopiedFrom data start stop list :=
  ⟨pos,after,before,ahead.slice_eq.symm⟩

/-- The lists of a sub-chunk lie where its input lay. -/
theorem listsOf_copied {pos : Nat} {input rest : List UInt32} {sub : Chunk} (lists : ListsOf input sub)
    (ahead : Ahead data pos (input ++ rest)) :
    ∀ list ∈ [sub.words,sub.ids,sub.managers], CopiedFrom data pos (pos + input.length) list := by
  obtain ⟨header,refs,rfl⟩ := lists
  simp only [List.append_assoc] at ahead
  have words := ahead.skip
  have ids := words.skip
  have managers := ids.skip.skip
  simp only [List.length_append,List.forall_mem_cons,List.not_mem_nil,false_implies,implies_true,and_true]
  exact ⟨copiedFrom_ahead words (by omega) (by omega),copiedFrom_ahead ids (by omega) (by omega),
    copiedFrom_ahead managers (by omega) (by omega)⟩

/-- A sub-chunk that is taken has the words that its header counts, wherever its declared size ends. -/
theorem subchunkBody_success {pos stop : Nat} {sub : Chunk} (inside : pos ≤ data.length)
    (ok : (readSubchunkBody data sizeDwords).run pos = (.ok sub,stop)) :
    ∃ count, pos + sizeDwords.toNat ≤ data.length ∧ countedWords (data.drop pos) = some count ∧
      pos + count ≤ data.length ∧ stop = pos + count ∧
      ∀ list ∈ [sub.words,sub.ids,sub.managers], CopiedFrom data pos stop list := by
  obtain ⟨_,_,check,_⟩ := Action.bind_success ok
  obtain ⟨_,room⟩ := checkBounds_success check
  obtain ⟨input,rest,⟨lists,counted⟩,ahead,after⟩ := takes_subchunkBody _ sub stop inside ok
  have whole := ahead.length_eq
  have left := after.length_eq
  rw [List.length_append] at whole
  have place : stop = pos + input.length := by omega
  refine ⟨input.length,room,?_,ahead.bound,place,?_⟩
  · rw [ahead.2]
    exact counted rest
  · rw [place]
    exact listsOf_copied lists ahead

end Reading

/-- A sub-chunk that is read takes its size field and as many words as this declares, its lists from among these. -/
def KeepsExtent (p : ChunkParser) : Prop :=
  ∀ result p', parserReadSubchunk.run p = (.ok result,p') →
    ∃ size, p.chunk.words[p.cursor]? = some size ∧ p'.cursor = p.cursor + 1 + size.toNat ∧
      ∀ sub, result = some sub → ∀ list ∈ [sub.words,sub.ids,sub.managers],
        CopiedFrom p.chunk.words (p.cursor + 1) (p.cursor + 1 + size.toNat) list

/-- Where a sub-chunk is due whose declared size and whose counts both end in the data, they are the same. -/
def CountsDeclared (p : ChunkParser) : Prop :=
  ¬ (p.inSubchunkSequence ∧ p.subchunkSequenceRemaining = 0) →
    ∀ size rest count, p.chunk.words.drop p.cursor = size :: rest → size ≠ 0 → size.toNat ≤ rest.length →
      countedWords rest = some count → count ≤ rest.length → count = size.toNat

section Slots
variable {p : ChunkParser} {size : UInt32} {rest : List UInt32}

theorem requireSlot_success {p' : ChunkParser} {value : Unit} (ok : requireSubchunkSlot.run p = (.ok value,p')) :
    p' = p ∧ ¬ (p.inSubchunkSequence ∧ p.subchunkSequenceRemaining = 0) := by
  rw [requireSubchunkSlot] at ok
  dsimp only at ok
  split at ok
  · simp at ok
  · rename_i slot
    exact ⟨(Prod.mk.inj ok).2.symm,slot⟩

theorem consumeSlot_cursor (p : ChunkParser) : (consumeSubchunkSlot.run p).2.cursor = p.cursor := by
  rw [consumeSubchunkSlot,Action.update_apply]
  dsimp only
  split <;> rfl

theorem ahead_of_drop {data : List UInt32} {pos : Nat} {word : UInt32} (start : data.drop pos = word :: rest) :
    Ahead data pos (word :: rest) := by
  refine ⟨?_,start⟩
  have length := congrArg List.length start
  rw [List.length_drop,List.length_cons] at length
  omega

/-- With a slot for it, what is read starts with the size. -/
theorem readSubchunk_sized (slot : ¬ (p.inSubchunkSequence ∧ p.subchunkSequenceRemaining = 0))
    (start : p.chunk.words.drop p.cursor = size :: rest) :
    parserReadSubchunk.run p = (if size = 0 then do
        consumeSubchunkSlot
        pure none
      else do
        let sub ← onCursor fun data => readSubchunkBody data size
        consumeSubchunkSlot
        pure (some sub) : Run ChunkParser (Option Chunk)).run { p with cursor := p.cursor + 1 } := by
  have free : requireSubchunkSlot.run p = (.ok (),p) := by simp only [requireSubchunkSlot,if_neg slot]
  have sized : (onCursor parserDword).run p = (.ok size,{ p with cursor := p.cursor + 1 }) := by
    simp only [onCursor,dword_run (ahead_of_drop start)]
  rw [parserReadSubchunk,Action.bind_ok _ free,Action.bind_ok _ sized]

theorem readSubchunk_null (slot : ¬ (p.inSubchunkSequence ∧ p.subchunkSequenceRemaining = 0))
    (start : p.chunk.words.drop p.cursor = 0 :: rest) :
    parserReadSubchunk.run p = (.ok none,(consumeSubchunkSlot.run { p with cursor := p.cursor + 1 }).2) := by
  rw [readSubchunk_sized slot start,if_pos rfl]
  rfl

theorem readSubchunk_taken {sub : Chunk} {stop : Nat} (slot : ¬ (p.inSubchunkSequence ∧ p.subchunkSequenceRemaining = 0))
    (start : p.chunk.words.drop p.cursor = size :: rest) (some : size ≠ 0)
    (body : (readSubchunkBody p.chunk.words size).run (p.cursor + 1) = (.ok sub,stop)) :
    parserReadSubchunk.run p = (.ok (.some sub),(consumeSubchunkSlot.run { p with cursor := stop }).2) := by
  have read : (onCursor fun data => readSubchunkBody data size).run { p with cursor := p.cursor + 1 } =
      (.ok sub,{ p with cursor := stop }) := by simp only [onCursor,body]
  rw [readSubchunk_sized slot start,if_neg some,Action.bind_ok _ read]
  rfl

theorem readSubchunk_refused {e : Stop} {stop : Nat} (slot : ¬ (p.inSubchunkSequence ∧ p.subchunkSequenceRemaining = 0))
    (start : p.chunk.words.drop p.cursor = size :: rest) (some : size ≠ 0)
    (body : (readSubchunkBody p.chunk.words size).run (p.cursor + 1) = (.error e,stop)) :
    parserReadSubchunk.run p = (.error e,{ p with cursor := stop }) := by
  have read : (onCursor fun data => readSubchunkBody data size).run { p with cursor := p.cursor + 1 } =
      (.error e,{ p with cursor := stop }) := by simp only [onCursor,body]
  rw [readSubchunk_sized slot start,if_neg some,Action.bind_error _ read]

/-- A read that succeeds had a slot and a size. -/
theorem readSubchunk_success {result : Option Chunk} {p' : ChunkParser}
    (ok : parserReadSubchunk.run p = (.ok result,p')) :
    ¬ (p.inSubchunkSequence ∧ p.subchunkSequenceRemaining = 0) ∧ ∃ size rest, p.chunk.words.drop p.cursor = size :: rest := by
  obtain ⟨_,between,free,read⟩ := Action.bind_success ok
  obtain ⟨rfl,slot⟩ := requireSlot_success free
  refine ⟨slot,?_⟩
  cases start : between.chunk.words.drop between.cursor with
  | cons size rest => exact ⟨size,rest,rfl⟩
  | nil =>
    have absent : between.chunk.words[between.cursor]? = none := by
      rw [List.getElem?_eq_none_iff]
      exact List.drop_eq_nil_iff.mp start
    have ended : (onCursor parserDword).run between = (.error (.error .eof ""),between) := by
      simp only [onCursor,parserDword,absent]
    rw [Action.bind_error _ ended] at read
    simp at read

/-- A sub-chunk keeps to its declared extent, in every state, exactly when its header counts as many words. -/
theorem extent_kept_iff (p : ChunkParser) : KeepsExtent p ↔ CountsDeclared p := by
  constructor
  · intro keeps slot size rest count start some inside counted fits
    have ahead := ahead_of_drop start
    have whole := ahead.length_eq
    rw [List.length_cons] at whole
    obtain ⟨sub,body⟩ : ∃ sub, (readSubchunkBody p.chunk.words size).run (p.cursor + 1) = (.ok sub,p.cursor + 1 + count) :=
      subchunkBody_run ahead.next.1 (by omega) (by rw [ahead.next.2]; exact counted) (by omega)
    obtain ⟨size',found,place,_⟩ := keeps _ _ (readSubchunk_taken slot start some body)
    rw [ahead.getElem?] at found
    rw [consumeSlot_cursor,← Option.some.inj found] at place
    dsimp only at place
    omega
  · intro declared result p' ok
    obtain ⟨slot,size,rest,start⟩ := readSubchunk_success ok
    have ahead := ahead_of_drop start
    have whole := ahead.length_eq
    rw [List.length_cons] at whole
    refine ⟨size,ahead.getElem?,?_⟩
    by_cases null : size = 0
    · subst null
      rw [readSubchunk_null slot start,Prod.mk.injEq,Except.ok.injEq] at ok
      obtain ⟨rfl,rfl⟩ := ok
      exact ⟨consumeSlot_cursor _,nofun⟩
    · cases body : (readSubchunkBody p.chunk.words size).run (p.cursor + 1) with
      | mk outcome stop =>
        cases outcome with
        | error e =>
          rw [readSubchunk_refused slot start null body] at ok
          simp at ok
        | ok sub =>
          rw [readSubchunk_taken slot start null body,Prod.mk.injEq,Except.ok.injEq] at ok
          obtain ⟨rfl,rfl⟩ := ok
          obtain ⟨count,room,counted,fits,place,lists⟩ := subchunkBody_success ahead.next.1 body
          rw [ahead.next.2] at counted
          have same := declared slot size rest count start null (by omega) counted (by omega)
          rw [place,same] at lists
          refine ⟨by rw [consumeSlot_cursor,← same]; exact place,?_⟩
          rintro _ ⟨⟩
          exact lists

end Slots

/-- A sub-chunk that declares six words and counts seven. -/
def longSubchunk : Chunk := { chunkCreate with data := some [6,1,0,1,0,0,0,8] }

theorem longSubchunk_exceeds : ¬ ∀ c : Chunk, KeepsExtent (parserCreate c) := by
  intro all
  obtain ⟨size,found,place,_⟩ := all longSubchunk _ _ rfl
  have declared : size = 6 := (Option.some.inj found).symm
  subst declared
  exact absurd place (by decide)

end Libnmo.Format
