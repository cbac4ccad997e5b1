import Libnmo.Format.WriterSteps
import Libnmo.Format.TypedRoundTrip
import Libnmo.Format.IdentifierSeek

/-! The identifiers that a writer leaves in its data, each with the position of the
next. The first of them has none before it, but the writer and the parser both take
the start of the data for the one before. -/
namespace Libnmo.Format
open Core Lib Lib.Action

def WriterCall.identifier? : WriterCall → Option UInt32
  | identifier id => some id
  | _ => none

section Sessions

/-- The identifiers that a run writes, with the positions of their pairs. -/
def writtenIdentifiers : List (Surroundings × WriterCall) → ChunkWriter → List (UInt32 × Nat)
  | [],_ => []
  | (around,call) :: rest,w =>
    let after := ((call.perform around).run w).2
    match call.identifier? with
    | some id => (id,w.data.length) :: writtenIdentifiers rest after
    | none => writtenIdentifiers rest after

/-- No identifier changes a word before it, but for the second word of the previous one. -/
def FramesKept (previous : Option Nat) : List (Surroundings × WriterCall) → ChunkWriter → Prop
  | [],_ => True
  | (around,call) :: rest,w =>
    let after := ((call.perform around).run w).2
    match call.identifier? with
    | some _ => (∀ k < w.data.length, (∀ pos, previous = some pos → k ≠ pos + 1) → after.data[k]? = w.data[k]?) ∧
      FramesKept (some w.data.length) rest after
    | none => FramesKept previous rest after

/-- Each of the identifiers is found in its turn, and the cursor is on what was written behind its pair. -/
def FindsAll : List (UInt32 × Nat) → ChunkParser → Prop
  | [],_ => True
  | (id,pos) :: rest,p => ∃ p', (parserSeekIdentifier id).run p = (.ok (),p') ∧ p'.cursor = pos + 2 ∧ FindsAll rest p'

/-- The first identifier starts the data and is no later one; or it is the second word, and as a position it leads
there in the finished data; or the second word is its position already. -/
def FirstPlaced (finished : List UInt32) : List (Surroundings × WriterCall) → ChunkWriter → Prop
  | [],_ => True
  | (around,call) :: rest,w =>
    let after := ((call.perform around).run w).2
    match call.identifier? with
    | some id => w.data.length = 0 ∧ (∀ later ∈ writtenIdentifiers rest after, later.1 ≠ id) ∨
      w.data.length = 1 ∧ Relation.ReflTransGen (Linked finished id) id.toNat 1 ∨
      2 ≤ w.data.length ∧ w.data[1]? = some (UInt32.ofNat w.data.length)
    | none => FirstPlaced finished rest after

end Sessions

section Steps
variable {around : Surroundings} {w : ChunkWriter} {id : UInt32} {call : WriterCall}

/-- The data begins with that of another writer, of the same last identifier. -/
structure Behind (base w : ChunkWriter) : Prop where
  data : ∃ words, w.data = base.data ++ words
  previous : w.prevIdentifierPos = base.prevIdentifierPos
  finalized : w.finalized = base.finalized

theorem lasting_behind (base : ChunkWriter) : Lasting (Behind base) := by
  constructor
  · rintro w _ _ _ _ _ _ _ ⟨data,previous,finalized⟩
    exact ⟨data,previous,finalized⟩
  · rintro w words ⟨⟨before,data⟩,previous,finalized⟩
    refine ⟨⟨before ++ words,?_⟩,previous,finalized⟩
    dsimp only
    rw [data,List.append_assoc]

theorem behind_call (around : Surroundings) (unlinked : call.identifier? = none) (w : ChunkWriter) :
    Behind w ((call.perform around).run w).2 := by
  have other : ∀ id, call ≠ .identifier id := by
    rintro id rfl
    cases unlinked
  refine (lasting_behind w).call other w ⟨⟨[],?_⟩,rfl,rfl⟩
  rw [List.append_nil]

theorem identifier_of_some (linked : call.identifier? = some id) : call = .identifier id := by
  cases call with
  | identifier other =>
    cases linked
    rfl
  | _ => cases linked

theorem writerWriteIdentifier_after (around : Surroundings) (id : UInt32) (fresh : w.finalized = false) :
    ∃ w', (writerWriteIdentifier around id).run w = (.ok (),w') ∧
    w'.finalized = false ∧ w'.prevIdentifierPos = w.data.length ∧
      w'.data = (if w.prevIdentifierPos < w.data.length then
        w.data.set (w.prevIdentifierPos + 1) (UInt32.ofNat w.data.length) else w.data) ++ [id,0] := by
  obtain ⟨spare,grown,room⟩ := ensureDataCapacity_run around (w := w) 2
  rw [writerWriteIdentifier,Action.bind_ok _ (requireOpen_run fresh),Action.bind_ok _ grown,
    Action.bind_ok _ (Action.update_apply _ _),appendWords_run (by exact room)]
  exact ⟨_,rfl,fresh,rfl,rfl⟩

/-- The words of the data once an identifier is behind it. -/
structure Linking (w : ChunkWriter) (id : UInt32) (w' : ChunkWriter) : Prop where
  finalized : w'.finalized = false
  previous : w'.prevIdentifierPos = w.data.length
  size : w'.data.length = w.data.length + 2
  word : w'.data[w.data.length]? = some id
  last : w'.data[w.data.length + 1]? = some 0
  link : w.prevIdentifierPos + 1 < w.data.length → w'.data[w.prevIdentifierPos + 1]? = some (UInt32.ofNat w.data.length)
  others : ∀ k < w.data.length, k ≠ w.prevIdentifierPos + 1 → w'.data[k]? = w.data[k]?

theorem linking_identifier (around : Surroundings) (id : UInt32) (fresh : w.finalized = false) :
    Linking w id (((WriterCall.identifier id).perform around).run w).2 := by
  obtain ⟨w',run,finalized,previous,data⟩ := writerWriteIdentifier_after around id fresh
  have same : (((WriterCall.identifier id).perform around).run w).2 = w' := congrArg Prod.snd run
  rw [same]
  generalize linked : (if w.prevIdentifierPos < w.data.length then
    w.data.set (w.prevIdentifierPos + 1) (UInt32.ofNat w.data.length) else w.data) = before at data
  have size : before.length = w.data.length := by
    rw [← linked]
    split
    · exact List.length_set
    · rfl
  refine ⟨finalized,previous,?_,?_,?_,fun inside => ?_,fun k inside apart => ?_⟩
  · rw [data,List.length_append,size]
    rfl
  · rw [data,List.getElem?_append_right (by omega),size,Nat.sub_self]
    rfl
  · rw [data,List.getElem?_append_right (by omega),size,Nat.add_sub_cancel_left]
    rfl
  · rw [data,List.getElem?_append_left (by omega),← linked,if_pos (by omega),List.getElem?_set_self inside]
  · rw [data,List.getElem?_append_left (by omega),← linked]
    split
    · exact List.getElem?_set_ne fun same => apart same.symm
    · rfl

end Steps

section Threads
variable {run : List (Surroundings × WriterCall)} {w last : ChunkWriter} {data : List UInt32} {id sought : UInt32}
  {pos : Nat} {later : List (UInt32 × Nat)}

/-- Pairs one behind the other, each with the position of the next, and the last with none. -/
def Threaded (data : List UInt32) : UInt32 × Nat → List (UInt32 × Nat) → Prop
  | (id,pos),[] => data[pos]? = some id ∧ data[pos + 1]? = some 0
  | (id,pos),(id',pos') :: rest => data[pos]? = some id ∧ data[pos + 1]? = some (UInt32.ofNat pos') ∧ pos < pos' ∧
      Threaded data (id',pos') rest

theorem threaded_word (threaded : Threaded data (id,pos) later) : data[pos]? = some id := by
  cases later with
  | nil => exact threaded.1
  | cons next rest => exact threaded.1

/-- What comes behind an identifier leaves the words before it, threads its own identifiers on to it, and each of
them changes the word before the next only. -/
theorem threaded_run (ran : writerRun run w = some last) (fresh : w.finalized = false)
    (previous : w.prevIdentifierPos = pos) (word : w.data[pos]? = some id) (ends : w.data[pos + 1]? = some 0) :
    Threaded last.data (id,pos) (writtenIdentifiers run w) ∧
      (∀ k < w.data.length, k ≠ pos + 1 → last.data[k]? = w.data[k]?) ∧ FramesKept (some pos) run w := by
  induction run generalizing w id pos with
  | nil =>
    cases ran
    exact ⟨⟨word,ends⟩,fun _ _ _ => rfl,trivial⟩
  | cons step rest ih =>
    obtain ⟨around,call⟩ := step
    have onward := (writerRun_cons ran).2
    have inside := (List.getElem?_eq_some_iff.mp word).1
    have second := (List.getElem?_eq_some_iff.mp ends).1
    cases kind : call.identifier? with
    | none =>
      obtain ⟨⟨words,grown⟩,same,still⟩ := behind_call around kind w
      have kept (k : Nat) (before : k < w.data.length) :
          ((call.perform around).run w).2.data[k]? = w.data[k]? := by
        rw [grown,List.getElem?_append_left before]
      have longer : w.data.length ≤ ((call.perform around).run w).2.data.length := by
        rw [grown,List.length_append]
        exact Nat.le_add_right _ _
      have both := ih onward (still.trans fresh) (same.trans previous) ((kept _ inside).trans word)
        ((kept _ second).trans ends)
      simp only [writtenIdentifiers,FramesKept,kind]
      refine ⟨both.1,fun k before apart => ?_,both.2.2⟩
      exact (both.2.1 k (Nat.lt_of_lt_of_le before longer) apart).trans (kept k before)
    | some id' =>
      obtain rfl := identifier_of_some kind
      have linking := linking_identifier around id' fresh
      obtain ⟨threaded,keeps,frames⟩ := ih onward linking.finalized linking.previous linking.word linking.last
      have kept (k : Nat) (before : k < w.data.length) :
          last.data[k]? = (((WriterCall.identifier id').perform around).run w).2.data[k]? :=
        keeps k (by rw [linking.size]; omega) (by omega)
      simp only [writtenIdentifiers,FramesKept,kind]
      refine ⟨⟨?_,?_,inside,threaded⟩,fun k before apart => ?_,fun k before apart => ?_,frames⟩
      · rw [kept pos inside,linking.others pos inside (by omega),word]
      · have link := linking.link (by rw [previous]; exact second)
        rw [previous] at link
        rw [kept _ second,link]
      · rw [kept k before,linking.others k before (by rw [previous]; exact apart)]
      · exact linking.others k before (by rw [previous]; exact apart pos rfl)

theorem threaded_behind (threaded : Threaded data (id,pos) later) : ∀ other ∈ later, pos < other.2 := by
  induction later generalizing id pos with
  | nil => simp
  | cons next rest ih =>
    obtain ⟨_,_,before,onward⟩ := threaded
    intro other among
    rcases List.mem_cons.mp among with rfl | inside
    · exact before
    · exact Nat.lt_trans before (ih onward other inside)

/-- The thread leads to the start of the data if none of its identifiers is the one sought. -/
theorem threaded_absent (threaded : Threaded data (id,pos) later) (small : ∀ other ∈ later, other.2 < 2 ^ 32)
    (absent : ∀ other ∈ (id,pos) :: later, other.1 ≠ sought) : Relation.ReflTransGen (Linked data sought) pos 0 := by
  induction later generalizing id pos with
  | nil =>
    obtain ⟨word,ends⟩ := threaded
    exact .single ⟨id,word,absent _ (List.mem_cons_self ..),by rw [ends]; rfl⟩
  | cons next rest ih =>
    obtain ⟨word,link,_,onward⟩ := threaded
    have chain := ih onward (fun other among => small other (List.mem_cons_of_mem _ among))
      (fun other among => absent other (List.mem_cons_of_mem _ among))
    refine .head ⟨id,word,absent _ (List.mem_cons_self ..),?_⟩ chain
    have exact := UInt32.toNat_ofNat_of_lt' (small next (List.mem_cons_self ..))
    rw [link,Option.map_some,exact]

/-- It leads to the first identifier that is the one sought. -/
theorem threaded_present (threaded : Threaded data (id,pos) later) (small : ∀ other ∈ later, other.2 < 2 ^ 32)
    (present : ∃ other ∈ (id,pos) :: later, other.1 = sought) : ∃ other ∈ (id,pos) :: later,
      Relation.ReflTransGen (Linked data sought) pos other.2 ∧ data[other.2]? = some sought := by
  induction later generalizing id pos with
  | nil =>
    obtain ⟨other,among,rfl⟩ := present
    obtain rfl := List.mem_singleton.mp among
    exact ⟨_,List.mem_cons_self ..,.refl,threaded.1⟩
  | cons next rest ih =>
    by_cases here : id = sought
    · subst here
      exact ⟨_,List.mem_cons_self ..,.refl,threaded.1⟩
    · obtain ⟨word,link,_,onward⟩ := threaded
      have ahead : ∃ other ∈ next :: rest, other.1 = sought := by
        obtain ⟨other,among,same⟩ := present
        rcases List.mem_cons.mp among with rfl | inside
        · exact absurd same here
        · exact ⟨other,inside,same⟩
      obtain ⟨other,among,chain,found⟩ := ih onward (fun other among => small other (List.mem_cons_of_mem _ among)) ahead
      refine ⟨other,List.mem_cons_of_mem _ among,.head ⟨id,word,here,?_⟩ chain,found⟩
      have exact := UInt32.toNat_ofNat_of_lt' (small next (List.mem_cons_self ..))
      rw [link,Option.map_some,exact]

end Threads

section Finding
variable {p : ChunkParser} {id : UInt32} {pos : Nat} {later : List (UInt32 × Nat)}

theorem findsAll_cons : FindsAll ((id,pos) :: later) p ↔
    Sought p id pos ∧ FindsAll later { p with prevIdentifierPos := pos, cursor := pos + 2 } := by
  rw [FindsAll]
  rcases parserSeekIdentifier_cases id p with ⟨k,sought,run⟩ | ⟨absent,stop,run⟩
  · rw [run]
    constructor
    · rintro ⟨_,⟨⟩,place,rest⟩
      obtain rfl : k = pos := Nat.add_right_cancel place
      exact ⟨sought,rest⟩
    · rintro ⟨sought',rest⟩
      obtain rfl := sought_unique sought sought'
      exact ⟨_,rfl,rfl,rest⟩
  · rw [run]
    constructor
    · rintro ⟨_,⟨⟩,_⟩
    · rintro ⟨sought,_⟩
      exact absurd sought (absent pos)

/-- Behind one identifier of a thread the others are found. -/
theorem findsAll_threaded (threaded : Threaded p.chunk.words (id,pos) later) (previous : p.prevIdentifierPos = pos)
    (small : ∀ other ∈ later, other.2 < 2 ^ 32) : FindsAll later p := by
  induction later generalizing p id pos with
  | nil => trivial
  | cons next rest ih =>
    obtain ⟨_,link,_,onward⟩ := threaded
    have exact := UInt32.toNat_ofNat_of_lt' (small next (List.mem_cons_self ..))
    refine findsAll_cons.mpr ⟨⟨_,previous ▸ link,?_,threaded_word onward⟩,?_⟩
    · rw [exact]
    · exact ih (p := { p with prevIdentifierPos := next.2, cursor := next.2 + 2 }) onward rfl
        fun other among => small other (List.mem_cons_of_mem _ among)

theorem linked_small {data : List UInt32} {sought j : UInt32} {k : Nat}
    (chain : Relation.ReflTransGen (Linked data sought) j.toNat k) : k < 2 ^ 32 := by
  cases chain with
  | refl => exact j.toNat_lt
  | tail _ step =>
    obtain ⟨_,_,_,next⟩ := step
    obtain ⟨word,_,rfl⟩ := Option.map_eq_some_iff.mp next
    exact word.toNat_lt

theorem findsAll_small (finds : FindsAll later p) : ∀ other ∈ later, other.2 < 2 ^ 32 := by
  induction later generalizing p with
  | nil => simp
  | cons next rest ih =>
    obtain ⟨⟨_,_,chain,_⟩,others⟩ := findsAll_cons.mp finds
    intro other among
    rcases List.mem_cons.mp among with rfl | inside
    · exact linked_small chain
    · exact ih others other inside

/-- From the start of the data the seek goes past the pair there, and comes back to it if no later one stops it. -/
theorem sought_start {c : Chunk} (threaded : Threaded c.words (id,0) later) (small : ∀ other ∈ later, other.2 < 2 ^ 32) :
    Sought (parserCreate c) id 0 ↔ ∀ other ∈ later, other.1 ≠ id := by
  cases later with
  | nil =>
    obtain ⟨word,ends⟩ := threaded
    exact ⟨fun _ => by simp,fun _ => ⟨0,ends,.refl,word⟩⟩
  | cons next rest =>
    obtain ⟨word,link,before,onward⟩ := threaded
    have exact := UInt32.toNat_ofNat_of_lt' (small next (List.mem_cons_self ..))
    have others : ∀ other ∈ rest, other.2 < 2 ^ 32 := fun other among => small other (List.mem_cons_of_mem _ among)
    constructor
    · intro sought
      by_contra absent
      push Not at absent
      obtain ⟨other,among,chain,found⟩ := threaded_present onward others absent
      have there : Sought (parserCreate c) id other.2 := ⟨_,link,by rw [exact]; exact chain,found⟩
      have same := sought_unique sought there
      have behind : 0 < other.2 := by
        rcases List.mem_cons.mp among with rfl | inside
        · exact before
        · exact Nat.lt_trans before (threaded_behind onward other inside)
      exact absurd same (Nat.ne_of_lt behind)
    · intro absent
      exact ⟨_,link,by rw [exact]; exact threaded_absent onward others absent,word⟩

end Finding

section First
variable {around : Surroundings} {run : List (Surroundings × WriterCall)} {w last : ChunkWriter} {c : Chunk} {id : UInt32}

/-- The place where the first identifier is written decides on its own words, on those before and on all seeks. -/
theorem first_iff (fresh : w.finalized = false) (first : w.prevIdentifierPos = 0) (words : c.words = last.data)
    (ran : writerRun run (((WriterCall.identifier id).perform around).run w).2 = some last) :
    let after := (((WriterCall.identifier id).perform around).run w).2
    let later := writtenIdentifiers run after
    (∀ k < w.data.length, after.data[k]? = w.data[k]?) ∧ FindsAll ((id,w.data.length) :: later) (parserCreate c) ↔
      (∀ other ∈ (id,w.data.length) :: later, other.2 < 2 ^ 32) ∧
        (w.data.length = 0 ∧ (∀ other ∈ later, other.1 ≠ id) ∨
          w.data.length = 1 ∧ Relation.ReflTransGen (Linked c.words id) id.toNat 1 ∨
          2 ≤ w.data.length ∧ w.data[1]? = some (UInt32.ofNat w.data.length)) := by
  intro after later
  have linking : Linking w id after := linking_identifier around id fresh
  obtain ⟨threaded,kept,_⟩ := threaded_run ran linking.finalized linking.previous linking.word linking.last
  rw [← words] at threaded kept
  have still (k : Nat) (inside : k ≤ w.data.length) : c.words[k]? = after.data[k]? :=
    kept k (by rw [linking.size]; omega) (by omega)
  have link (room : 2 ≤ w.data.length) : after.data[1]? = some (UInt32.ofNat w.data.length) := by
    have placed := linking.link (by rw [first]; exact room)
    rwa [first] at placed
  have place (sought : Sought (parserCreate c) id w.data.length) (small : ∀ other ∈ later, other.2 < 2 ^ 32) :
      FindsAll ((id,w.data.length) :: later) (parserCreate c) :=
    findsAll_cons.mpr ⟨sought,findsAll_threaded (by exact threaded) rfl small⟩
  constructor
  · rintro ⟨frame,finds⟩
    have small := findsAll_small finds
    have sought := (findsAll_cons.mp finds).1
    refine ⟨small,?_⟩
    have rest : ∀ other ∈ later, other.2 < 2 ^ 32 := fun other among => small other (List.mem_cons_of_mem _ among)
    rcases Nat.lt_trichotomy w.data.length 1 with zero | one | more
    · have empty : w.data.length = 0 := Nat.lt_one_iff.mp zero
      rw [empty] at sought
      exact .inl ⟨empty,(sought_start (by rw [← empty]; exact threaded) rest).mp sought⟩
    · obtain ⟨j,start,chain,_⟩ := sought
      have here := linking.word
      rw [one] at chain here
      change c.words[1]? = some j at start
      rw [still 1 (Nat.le_of_eq one.symm),here,Option.some.injEq] at start
      rw [← start] at chain
      exact .inr (.inl ⟨one,chain⟩)
    · exact .inr (.inr ⟨more,(frame 1 more).symm.trans (link more)⟩)
  · rintro ⟨small,placed⟩
    have rest : ∀ other ∈ later, other.2 < 2 ^ 32 := fun other among => small other (List.mem_cons_of_mem _ among)
    have other (k : Nat) (inside : k < w.data.length) (apart : k ≠ 1) : after.data[k]? = w.data[k]? :=
      linking.others k inside (by rw [first]; exact apart)
    rcases placed with ⟨empty,absent⟩ | ⟨one,chain⟩ | ⟨more,already⟩
    · refine ⟨fun k inside => other k inside (by omega),place ?_ rest⟩
      rw [empty]
      exact (sought_start (by rw [← empty]; exact threaded) rest).mpr absent
    · refine ⟨fun k inside => other k inside (by omega),place ⟨id,?_,by rw [one]; exact chain,threaded_word threaded⟩ rest⟩
      have here := linking.word
      rw [one] at here
      exact (still 1 (Nat.le_of_eq one.symm)).trans here
    · refine ⟨fun k inside => ?_,place ⟨_,(still 1 (Nat.le_of_succ_le more)).trans (link more),?_,threaded_word threaded⟩ rest⟩
      · by_cases second : k = 1
        · rw [second,link more,already]
        · exact other k inside second
      · rw [UInt32.toNat_ofNat_of_lt' (small _ (List.mem_cons_self ..))]

theorem threadKept_iff (fresh : w.finalized = false) (first : w.prevIdentifierPos = 0) (words : c.words = last.data)
    (ran : writerRun run w = some last) :
    FramesKept none run w ∧ FindsAll (writtenIdentifiers run w) (parserCreate c) ↔
      (∀ other ∈ writtenIdentifiers run w, other.2 < 2 ^ 32) ∧ FirstPlaced c.words run w := by
  induction run generalizing w with
  | nil => simp only [FramesKept,writtenIdentifiers,FindsAll,FirstPlaced,List.not_mem_nil,false_implies,implies_true]
  | cons step rest ih =>
    obtain ⟨around,call⟩ := step
    have onward := (writerRun_cons ran).2
    cases kind : call.identifier? with
    | none =>
      obtain ⟨_,same,still⟩ := behind_call around kind w
      have both := ih (still.trans fresh) (same.trans first) onward
      simp only [FramesKept,writtenIdentifiers,FirstPlaced,kind]
      exact both
    | some id =>
      obtain rfl := identifier_of_some kind
      have linking := linking_identifier around id fresh
      have frames := (threaded_run onward linking.finalized linking.previous linking.word linking.last).2.2
      simp only [FramesKept,writtenIdentifiers,FirstPlaced,kind]
      refine Iff.trans ?_ (first_iff fresh first words onward)
      refine and_congr_left fun _ => ⟨fun kept k inside => kept.1 k inside nofun,fun kept => ⟨fun k inside _ => ?_,frames⟩⟩
      exact kept k inside

end First

section Started
variable {history : ChunkWriter} {classId version : UInt32} {run : List (Surroundings × WriterCall)} {last : ChunkWriter}
  {c : Chunk}

/-- In a finished session the identifiers keep the words before them, and a fresh parser finds them in their order,
exactly if all are at positions of 32 bits and the first is where no other word is taken for the one before it. -/
theorem identifiersKept_iff (ran : writerRun run (writerStart classId version history) = some last)
    (built : (writerFinalize last).1 = some c) :
    FramesKept none run (writerStart classId version history) ∧
        FindsAll (writtenIdentifiers run (writerStart classId version history)) (parserCreate c) ↔
      (∀ other ∈ writtenIdentifiers run (writerStart classId version history), other.2 < 2 ^ 32) ∧
        FirstPlaced c.words run (writerStart classId version history) :=
  threadKept_iff rfl rfl (words_finalized built) ran

theorem identifiersKept_sample :
    let run := [(({} : Surroundings),WriterCall.identifier 7),({},.dword 9),({},.identifier 8)]
    let start := writerStart 1 7 (writerCreate {})
    ∃ last c, writerRun run start = some last ∧ (writerFinalize last).1 = some c ∧
      FramesKept none run start ∧ FindsAll (writtenIdentifiers run start) (parserCreate c) := by
  intro run start
  have back : (writerRun run start).isSome := by decide +kernel
  obtain ⟨last,ran⟩ := Option.isSome_iff_exists.mp back
  obtain ⟨c,built⟩ : ∃ c, (writerFinalize last).1 = some c := by
    have done : ((writerRun run start).bind fun last => (writerFinalize last).1).isSome := by decide +kernel
    rw [ran] at done
    exact Option.isSome_iff_exists.mp done
  refine ⟨last,c,ran,built,(identifiersKept_iff ran built).mpr ?_⟩
  have written : writtenIdentifiers run start = [(7,0),(8,3)] := by decide +kernel
  rw [written]
  refine ⟨by decide,.inl ⟨rfl,?_⟩⟩
  have later : writtenIdentifiers [(({} : Surroundings),WriterCall.dword 9),({},.identifier 8)]
      (((WriterCall.identifier 7).perform {}).run start).2 = [(8,3)] := by decide +kernel
  rw [later]
  decide

/-- The identifier behind three words changes the second of them. -/
theorem identifier_overwrites :
    ¬ FramesKept none [({},.dword 5),({},.dword 6),({},.dword 9),({},.identifier 16)]
      (writerStart 1 7 (writerCreate {})) := by
  intro kept
  have same := kept.1 1
  revert same
  decide +kernel

end Started

end Libnmo.Format
