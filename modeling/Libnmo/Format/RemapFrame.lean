import Libnmo.Format.ChunkApi
import Libnmo.Format.RemapTree
import Libnmo.Format.TrackedRemap

/-! What a remap may change, for any list of entries. The walk reads the count of a
sequence when it comes there, after whatever the entries before have made of it, and
a sub-chunk that lies in its parent's allocation is walked as it is by then. -/
namespace Libnmo.Format
open Core Lib Lib.Patch

/-- The positions that the walk over an `ids` list comes to, with every count as the walk finds it. -/
def walkedPositions (remap : IdRemap) : List UInt32 → List UInt32 → List Nat
  | [],_ => []
  | [entry],data => if isNegative entry then [] else singlePositions data entry
  | entry :: next :: rest,data =>
    if isNegative entry then sequencePositions data next ++ walkedPositions remap rest (remapSequence remap data next)
    else singlePositions data entry ++ walkedPositions remap (next :: rest) (remapIdAt remap data entry.toNat)

section Walk
variable {remap : IdRemap} {ids data : List UInt32} {p : Nat}

theorem remapChunkData_walked (ids data : List UInt32) :
    remapChunkData remap ids data = remapAll remap (walkedPositions remap ids data) data := by
  induction ids using sequenceHeaders.induct generalizing data with
  | case1 entry header rest marker ih =>
    rw [remapChunkData_marker marker,walkedPositions,if_pos marker,remapAll_append,ih,remapSequence_all]
  | case2 entry next rest single ih =>
    have plain : isNegative entry = false := by simpa using single
    rw [remapChunkData_single plain,walkedPositions,if_neg single,remapAll_append,ih,← remapSingle_all]
  | case3 ids short =>
    rcases ids with _ | ⟨entry,_ | ⟨next,rest⟩⟩
    · rfl
    · by_cases marker : isNegative entry
      · rw [remapChunkData,walkedPositions,if_pos marker,if_pos marker]
        rfl
      · rw [remapChunkData,walkedPositions,if_neg marker,if_neg marker,remapIdAt_guarded,remapSingle_all]
    · exact (short entry next rest rfl).elim

theorem singlePositions_inside {entry : UInt32} (walked : p ∈ singlePositions data entry) : p < data.length := by
  rw [singlePositions] at walked
  split at walked
  · rename_i inside
    rwa [List.mem_singleton.mp walked]
  · cases walked

theorem sequencePositions_inside {header : UInt32} (walked : p ∈ sequencePositions data header) : p < data.length := by
  rw [sequencePositions] at walked
  split at walked
  · cases walked
  · split at walked
    · cases walked
    · split at walked
      · rename_i guard
        obtain ⟨k,inside,rfl⟩ := List.mem_map.mp walked
        have before := List.mem_range.mp inside
        omega
      · cases walked

theorem walkedPositions_inside (walked : p ∈ walkedPositions remap ids data) : p < data.length := by
  induction ids using sequenceHeaders.induct generalizing data with
  | case1 entry header rest marker ih =>
    rw [walkedPositions,if_pos marker] at walked
    rcases List.mem_append.mp walked with here | later
    · exact sequencePositions_inside here
    · have inside := ih later
      rwa [length_remapSequence] at inside
  | case2 entry next rest single ih =>
    rw [walkedPositions,if_neg single] at walked
    rcases List.mem_append.mp walked with here | later
    · exact singlePositions_inside here
    · have inside := ih later
      rwa [remapIdAt,List.length_modify] at inside
  | case3 ids short =>
    rcases ids with _ | ⟨entry,_ | ⟨next,rest⟩⟩
    · cases walked
    · rw [walkedPositions] at walked
      split at walked
      · cases walked
      · exact singlePositions_inside walked
    · exact (short entry next rest rfl).elim

/-- A word that changes is one that the walk comes to. -/
theorem walked_of_changed (changed : (remapChunkData remap ids data)[p]? ≠ data[p]?) :
    p ∈ walkedPositions remap ids data := by
  by_contra apart
  rw [remapChunkData_walked,getElem?_remapAll,List.count_eq_zero.mpr apart] at changed
  simp at changed

theorem walked_rest {rest : List UInt32} {positions : List Nat}
    (apart : ∀ header ∈ sequenceHeaders rest, header.toNat ∉ positions ++ trackedPositions rest data)
    (ih : ∀ data, Steady rest data → walkedPositions remap rest data = trackedPositions rest data) :
    walkedPositions remap rest (remapAll remap positions data) = trackedPositions rest data := by
  simp only [List.mem_append,not_or] at apart
  have counts : SameCounts rest data (remapAll remap positions data) :=
    sameCounts_remapAll fun header member => (apart header member).1
  have same := trackedPositions_same counts
  rw [ih _ (by rw [Steady,same]; exact fun header member => (apart header member).2),same]

/-- Where no count is tracked itself, the walk comes to the positions tracked in the data as given. -/
theorem walkedPositions_steady (steady : Steady ids data) : walkedPositions remap ids data = trackedPositions ids data := by
  induction ids using sequenceHeaders.induct generalizing data with
  | case1 entry header rest marker ih =>
    rw [Steady,sequenceHeaders_marker marker,trackedPositions_marker marker,List.forall_mem_cons] at steady
    rw [walkedPositions,if_pos marker,trackedPositions_marker marker,remapSequence_all]
    rw [walked_rest steady.2 fun data => ih]
  | case2 entry next rest single ih =>
    have plain : isNegative entry = false := by simpa using single
    rw [Steady,sequenceHeaders_single plain,trackedPositions_single plain] at steady
    rw [walkedPositions,if_neg single,trackedPositions_single plain,remapSingle_all]
    rw [walked_rest steady fun data => ih]
  | case3 ids short =>
    rcases ids with _ | ⟨entry,_ | ⟨next,rest⟩⟩
    · rfl
    · rw [walkedPositions,trackedPositions]
    · exact (short entry next rest rfl).elim

end Walk

/-- A word of a chunk's allocation that a remap may change: one that the walk over the chunk's own list comes to, or
a tracked word of a sub-chunk that lies in the allocation, as this is when the walk comes to the sub-chunk. -/
inductive TrackedAt (remap : IdRemap) : Option (List UInt32) → List UInt32 → Chunk → Nat → Prop
  | own {words ids : List UInt32} {c : Chunk} {p : Nat} (walked : p ∈ walkedPositions remap ids words) :
      TrackedAt remap (some words) ids c p
  | shared {words ids : List UInt32} {c child : Chunk} {before after : List Chunk} {offset q : Nat}
      (among : c.chunks = before ++ child :: after) (lies : child.embedded = some offset)
      (tracked : let buffer := (remapSubChunks remap (remapChunkData remap ids words ++ c.spare) before).2.2
        TrackedAt remap (child.shownIn buffer).1 (child.shownIn buffer).2 child q)
      (inside : q < child.dataSize) : TrackedAt remap (some words) ids c (offset + q)

/-- A chunk and what a remap leaves of it. The words and the list of a sub-chunk in its parent's allocation are words
of the parent. -/
structure Framed (remap : IdRemap) (c back : Chunk) : Prop where
  record : { back with data := c.data, spare := c.spare, ids := c.ids, chunks := c.chunks } = c
  size : back.dataSize = c.dataSize
  room : back.spare.length = c.spare.length
  idCount : back.ids.length = c.ids.length
  chunkCount : back.chunks.length = c.chunks.length
  ids : c.embedded = none → back.ids = c.ids
  words : c.embedded = none → ∀ p, back.buffer[p]? ≠ c.buffer[p]? → TrackedAt remap c.data c.ids c p

/-- The chunks of a tree and what a remap leaves of each. -/
def TreeFramed (remap : IdRemap) (c back : Chunk) : Prop :=
  ∀ path target, descend path c = some target → ∃ left, descend path back = some left ∧ Framed remap target left

/-- The words and the list of a sub-chunk that lies in its parent's allocation lie inside it. -/
def Housed (c : Chunk) : Prop :=
  ∀ path target, descend path c = some target → ∀ child ∈ target.chunks, ∀ offset, child.embedded = some offset →
    offset + child.dataSize + child.ids.length ≤ target.buffer.length

def OutcomeKnown (outcome : Result Unit) : Prop :=
  outcome = .ok () ∨ outcome = .error (.error .invalidArgument "Invalid arguments")

section Trees
variable {remap : IdRemap} {c back child : Chunk}

theorem framed_refl (c : Chunk) : Framed remap c c := by
  refine ⟨?_,rfl,rfl,rfl,rfl,fun _ => rfl,fun _ _ changed => absurd rfl changed⟩
  cases c
  rfl

theorem treeFramed_refl (c : Chunk) : TreeFramed remap c c := fun _ target down => ⟨target,down,framed_refl target⟩

theorem housed_child (housed : Housed c) (member : child ∈ c.chunks) : Housed child := by
  obtain ⟨index,found⟩ := List.getElem?_of_mem member
  intro path target down
  exact housed (index :: path) target (by rw [descend,found]; exact down)

theorem treeFramed_of_children (root : Framed remap c back) (children : ∀ (index : Nat) child, c.chunks[index]? = some child →
    ∃ left, back.chunks[index]? = some left ∧ TreeFramed remap child left) : TreeFramed remap c back := by
  intro path target down
  cases path with
  | nil =>
    cases down
    exact ⟨back,rfl,root⟩
  | cons index path =>
    obtain ⟨child,found,down⟩ := Option.bind_eq_some_iff.mp down
    obtain ⟨left,found',framed⟩ := children index child found
    obtain ⟨last,down',kept⟩ := framed path target down
    exact ⟨last,by rw [descend,found']; exact down',kept⟩

/-- The record of a sub-chunk brought up to date shows as many words and entries as before. -/
theorem framed_refreshed {buffer : List UInt32} (framed : TreeFramed remap child back) (same : back.embedded = child.embedded)
    (housed : ∀ offset, child.embedded = some offset → offset + child.dataSize + child.ids.length ≤ buffer.length) :
    TreeFramed remap child (back.refreshed buffer) := by
  have root : Framed remap child back := by
    obtain ⟨_,⟨⟩,root⟩ := framed [] child rfl
    exact root
  cases lies : child.embedded with
  | none =>
    have unchanged : back.refreshed buffer = back := by
      have shown : back.shownIn buffer = (back.data,back.ids) := by rw [Chunk.shownIn,same,lies]
      rw [Chunk.refreshed,shown]
      cases back
      rfl
    rw [unchanged]
    exact framed
  | some offset =>
    have room := housed offset lies
    have shown : back.shownIn buffer = (some ((buffer.drop offset).take back.dataSize),
        (buffer.drop (offset + back.dataSize)).take back.ids.length) := by rw [Chunk.shownIn,same,lies]
    refine treeFramed_of_children ⟨root.record,?_,root.room,?_,root.chunkCount,?_,?_⟩ fun index grandchild found => ?_
    · rw [Chunk.refreshed,shown,Chunk.dataSize,Chunk.words,Option.getD_some,List.length_take,List.length_drop,root.size]
      omega
    · rw [Chunk.refreshed,shown]
      simp only [List.length_take,List.length_drop,root.size,root.idCount]
      omega
    · intro own
      cases lies.symm.trans own
    · intro own
      cases lies.symm.trans own
    · have inside := (List.getElem?_eq_some_iff.mp found).1
      rw [← root.chunkCount] at inside
      refine ⟨back.chunks[index],List.getElem?_eq_getElem inside,fun path target down => ?_⟩
      obtain ⟨left,down',kept⟩ := framed (index :: path) target (by rw [descend,found]; exact down)
      rw [descend,List.getElem?_eq_getElem inside] at down'
      exact ⟨left,down',kept⟩

end Trees

section Siblings
variable {remap : IdRemap}

/-- The parent's allocation once a sub-chunk's words are back in it. -/
def putBack (child : Chunk) (words buffer : List UInt32) : List UInt32 := match child.embedded with
  | some offset => overwrite buffer offset words
  | none => buffer

/-- A word that the walk over the sub-chunks may change, in the allocation they share with their parent. -/
def SharedAt (remap : IdRemap) (buffer : List UInt32) (children : List Chunk) (p : Nat) : Prop :=
  ∃ before child after offset q, children = before ++ child :: after ∧ child.embedded = some offset ∧ p = offset + q ∧
    q < child.dataSize ∧
    let buffer := (remapSubChunks remap buffer before).2.2
    TrackedAt remap (child.shownIn buffer).1 (child.shownIn buffer).2 child q

/-- What the walk over a chunk does, for the words and the list that its pointers show. -/
structure NodeFramed (remap : IdRemap) (data : Option (List UInt32)) (ids : List UInt32) (c : Chunk) : Prop where
  outcome : OutcomeKnown (remapObjectIdsRecursive remap data ids c).1
  size : (remapObjectIdsRecursive remap data ids c).2.words.length = (data.getD []).length
  words : ∀ p, (remapObjectIdsRecursive remap data ids c).2.buffer[p]? ≠ (data.getD [] ++ c.spare)[p]? →
    TrackedAt remap data ids c p
  tree : (c.embedded = none → data = c.data ∧ ids = c.ids) → TreeFramed remap c (remapObjectIdsRecursive remap data ids c).2

theorem remapSubChunks_cons (remap : IdRemap) (buffer : List UInt32) (child : Chunk) (rest : List Chunk) :
    let walked := remapObjectIdsRecursive remap (child.shownIn buffer).1 (child.shownIn buffer).2 child
    let after := putBack child walked.2.words buffer
    remapSubChunks remap buffer (child :: rest) = match walked.1 with
      | .error stop => (.error stop,walked.2 :: rest,after)
      | .ok () => ((remapSubChunks remap after rest).1,walked.2 :: (remapSubChunks remap after rest).2.1,
          (remapSubChunks remap after rest).2.2) := by
  dsimp only
  rw [remapSubChunks]
  simp only [embedded_remapped]
  rfl

theorem shown_size {child : Chunk} {buffer : List UInt32}
    (housed : ∀ offset, child.embedded = some offset → offset + child.dataSize + child.ids.length ≤ buffer.length) :
    ((child.shownIn buffer).1.getD []).length = child.dataSize ∧ (child.shownIn buffer).2.length = child.ids.length := by
  cases lies : child.embedded with
  | none =>
    simp only [Chunk.shownIn,lies]
    exact ⟨rfl,trivial⟩
  | some offset =>
    have room := housed offset lies
    simp only [Chunk.shownIn,lies,Option.getD_some,List.length_take,List.length_drop]
    omega

/-- Putting a sub-chunk back changes the words that its own walk has changed. -/
theorem putBack_changes {child : Chunk} {buffer words : List UInt32}
    (housed : ∀ offset, child.embedded = some offset → offset + child.dataSize + child.ids.length ≤ buffer.length)
    (size : words.length = child.dataSize) : (putBack child words buffer).length = buffer.length ∧
      ∀ p, (putBack child words buffer)[p]? ≠ buffer[p]? → ∃ offset q, child.embedded = some offset ∧ p = offset + q ∧
        q < child.dataSize ∧ words[q]? ≠ ((child.shownIn buffer).1.getD [])[q]? := by
  cases lies : child.embedded with
  | none =>
    simp only [putBack,lies]
    exact ⟨trivial,fun p changed => absurd rfl changed⟩
  | some offset =>
    have room := housed offset lies
    have inside : offset + words.length ≤ buffer.length := by omega
    simp only [putBack,lies]
    refine ⟨length_overwrite _ _ _ inside,fun p changed => ?_⟩
    rw [getElem?_overwrite _ _ _ inside] at changed
    split at changed
    · exact absurd rfl changed
    rename_i from'
    split at changed
    · rename_i before
      refine ⟨offset,p - offset,rfl,by omega,by omega,?_⟩
      rw [Chunk.shownIn,lies,Option.getD_some,List.getElem?_take_of_lt (by omega),List.getElem?_drop]
      rwa [Nat.add_sub_cancel' (Nat.not_lt.mp from')]
    · exact absurd rfl changed

/-- What the walk over the sub-chunks does to them and to the allocation of their parent. -/
structure SiblingsFramed (remap : IdRemap) (buffer : List UInt32) (children : List Chunk) : Prop where
  outcome : OutcomeKnown (remapSubChunks remap buffer children).1
  room : (remapSubChunks remap buffer children).2.2.length = buffer.length
  words : ∀ p, (remapSubChunks remap buffer children).2.2[p]? ≠ buffer[p]? → SharedAt remap buffer children p
  count : (remapSubChunks remap buffer children).2.1.length = children.length
  each : ∀ (index : Nat) child, children[index]? = some child → ∃ left,
    (remapSubChunks remap buffer children).2.1[index]? = some left ∧ left.embedded = child.embedded ∧
      TreeFramed remap child left

theorem sharedAt_first {child : Chunk} {buffer : List UInt32} {offset q : Nat} (lies : child.embedded = some offset)
    (inside : q < child.dataSize) (tracked : TrackedAt remap (child.shownIn buffer).1 (child.shownIn buffer).2 child q)
    (rest : List Chunk) : SharedAt remap buffer (child :: rest) (offset + q) :=
  ⟨[],child,rest,offset,q,rfl,lies,rfl,inside,by rw [remapSubChunks]; exact tracked⟩

theorem sharedAt_later (remap : IdRemap) (child : Chunk) (buffer : List UInt32) (rest : List Chunk) (p : Nat)
    (fine : (remapObjectIdsRecursive remap (child.shownIn buffer).1 (child.shownIn buffer).2 child).1 = .ok ())
    (shared : SharedAt remap (putBack child
      (remapObjectIdsRecursive remap (child.shownIn buffer).1 (child.shownIn buffer).2 child).2.words buffer) rest p) :
    SharedAt remap buffer (child :: rest) p := by
  obtain ⟨before,other,after,offset,q,rfl,lies,place,inside,tracked⟩ := shared
  refine ⟨child :: before,other,after,offset,q,rfl,lies,place,inside,?_⟩
  rw [remapSubChunks_cons,fine]
  exact tracked

/-- The walk goes from one sub-chunk to the next, and each is as the ones before have left it. -/
theorem siblings_framed {children : List Chunk} {buffer : List UInt32}
    (each : ∀ child ∈ children, ∀ data ids, (data.getD []).length = child.dataSize → ids.length = child.ids.length →
      NodeFramed remap data ids child)
    (housed : ∀ child ∈ children, ∀ offset, child.embedded = some offset →
      offset + child.dataSize + child.ids.length ≤ buffer.length) : SiblingsFramed remap buffer children := by
  induction children generalizing buffer with
  | nil =>
    refine ⟨?_,?_,?_,?_,?_⟩
    · rw [remapSubChunks]
      exact .inl rfl
    · rw [remapSubChunks]
    · intro p changed
      rw [remapSubChunks] at changed
      exact absurd rfl changed
    · rw [remapSubChunks]
    · intro index child found
      cases found
  | cons child rest ih =>
    rw [List.forall_mem_cons] at each housed
    obtain ⟨words,entries⟩ := shown_size housed.1
    obtain ⟨outcome,size,changes,tree⟩ := each.1 (child.shownIn buffer).1 (child.shownIn buffer).2 words entries
    have own : child.embedded = none → (child.shownIn buffer).1 = child.data ∧ (child.shownIn buffer).2 = child.ids := by
      intro lies
      rw [Chunk.shownIn,lies]
      exact ⟨rfl,rfl⟩
    have equation := remapSubChunks_cons remap buffer child rest
    have same := embedded_remapped remap (child.shownIn buffer).1 (child.shownIn buffer).2 child
    have later (p : Nat) := sharedAt_later remap child buffer rest p
    generalize remapObjectIdsRecursive remap (child.shownIn buffer).1 (child.shownIn buffer).2 child = walked
      at outcome size changes tree equation same later
    dsimp only at equation
    obtain ⟨room,put⟩ := putBack_changes housed.1 (size.trans words)
    have first (p : Nat) (changed : (putBack child walked.2.words buffer)[p]? ≠ buffer[p]?) :
        SharedAt remap buffer (child :: rest) p := by
      obtain ⟨offset,q,lies,rfl,inside,differs⟩ := put p changed
      refine sharedAt_first lies inside (changes q ?_) rest
      rw [Chunk.buffer,List.getElem?_append_left (by omega),List.getElem?_append_left (by omega)]
      exact differs
    have head : ∀ child', (child :: rest)[0]? = some child' → child' = child := by
      rintro _ ⟨⟩
      rfl
    rcases outcome with fine | failed
    · have rest' : SiblingsFramed remap (putBack child walked.2.words buffer) rest :=
        ih each.2 (by rw [room]; exact housed.2)
      rw [fine] at equation
      dsimp only at equation
      refine ⟨?_,?_,fun p changed => ?_,?_,fun index other found => ?_⟩
      · rw [equation]
        exact rest'.outcome
      · rw [equation]
        exact rest'.room.trans room
      · rw [equation] at changed
        by_cases kept : (putBack child walked.2.words buffer)[p]? = buffer[p]?
        · rw [← kept] at changed
          exact later p fine (rest'.words p changed)
        · exact first p kept
      · rw [equation]
        exact congrArg Nat.succ rest'.count
      · rw [equation]
        cases index with
        | zero =>
          obtain rfl := head other found
          exact ⟨walked.2,rfl,same,tree own⟩
        | succ index => exact rest'.each index other found
    · rw [failed] at equation
      dsimp only at equation
      refine ⟨?_,?_,fun p changed => ?_,?_,fun index other found => ?_⟩
      · rw [equation]
        exact .inr rfl
      · rw [equation]
        exact room
      · rw [equation] at changed
        exact first p changed
      · rw [equation]
        rfl
      · rw [equation]
        cases index with
        | zero =>
          obtain rfl := head other found
          exact ⟨walked.2,rfl,same,tree own⟩
        | succ index => exact ⟨other,found,rfl,treeFramed_refl other⟩

end Siblings

section Nodes
variable {remap : IdRemap} {data : Option (List UInt32)} {ids : List UInt32} {c : Chunk}

/-- What the walk leaves of the chunk, once the words of its allocation and its sub-chunks are known. -/
theorem walked_run (remap : IdRemap) (ids words : List UInt32) (modern : ¬ c.chunkVersion < chunkVersion1) :
    let left := remapSubChunks remap (remapChunkData remap ids words ++ c.spare) c.chunks
    remapObjectIdsRecursive remap (some words) ids c = (left.1,{ c with
      data := some (left.2.2.take words.length), ids := ids, spare := left.2.2.drop words.length
      chunks := left.2.1.map (Chunk.refreshed left.2.2) }) := by
  have length := length_remapChunkData remap ids words
  cases c
  dsimp only at modern ⊢
  simp only [remapObjectIdsRecursive,if_neg modern,length]

theorem unwalked_run (remap : IdRemap) (ids : List UInt32) (idle : c.chunkVersion < chunkVersion1 ∨ data = none) :
    OutcomeKnown (remapObjectIdsRecursive remap data ids c).1 ∧
      (remapObjectIdsRecursive remap data ids c).2 = { c with data := data, ids := ids } := by
  by_cases early : c.chunkVersion < chunkVersion1
  · cases c
    dsimp only at early
    simp only [remapObjectIdsRecursive,if_pos early]
    exact ⟨.inl rfl,trivial⟩
  · obtain rfl := idle.resolve_left early
    cases c
    dsimp only at early
    simp only [remapObjectIdsRecursive,if_neg early]
    exact ⟨.inr rfl,trivial⟩

theorem node_unwalked (size : (data.getD []).length = c.dataSize) (entries : ids.length = c.ids.length)
    (idle : c.chunkVersion < chunkVersion1 ∨ data = none) : NodeFramed remap data ids c := by
  obtain ⟨outcome,left⟩ := unwalked_run remap ids idle
  refine ⟨outcome,by rw [left]; rfl,fun p changed => absurd (by rw [left]; rfl) changed,fun own => ?_⟩
  rw [left]
  refine treeFramed_of_children ⟨?_,size,rfl,entries,rfl,fun lies => (own lies).2,fun lies p changed => ?_⟩ ?_
  · cases c
    rfl
  · rw [(own lies).1] at changed
    exact absurd rfl changed
  · exact fun index child found => ⟨child,found,treeFramed_refl child⟩

/-- Words change under the walk over the list, and then under that over the sub-chunks. -/
theorem tracked_of_either {words : List UInt32} {p : Nat}
    (siblings : SiblingsFramed remap (remapChunkData remap ids words ++ c.spare) c.chunks)
    (changed : (remapSubChunks remap (remapChunkData remap ids words ++ c.spare) c.chunks).2.2[p]? ≠ (words ++ c.spare)[p]?) :
    TrackedAt remap (some words) ids c p := by
  by_cases kept : (remapSubChunks remap (remapChunkData remap ids words ++ c.spare) c.chunks).2.2[p]? =
      (remapChunkData remap ids words ++ c.spare)[p]?
  · rw [kept] at changed
    have length := length_remapChunkData remap ids words
    by_cases inside : p < words.length
    · rw [List.getElem?_append_left (by rw [length]; exact inside),List.getElem?_append_left inside] at changed
      exact .own (walked_of_changed changed)
    · rw [List.getElem?_append_right (by rw [length]; exact Nat.not_lt.mp inside),
        List.getElem?_append_right (Nat.not_lt.mp inside),length] at changed
      exact absurd rfl changed
  · obtain ⟨before,child,after,offset,q,among,lies,rfl,inside,tracked⟩ := siblings.words p kept
    exact .shared among lies tracked inside

theorem node_framed (housed : Housed c) (size : (data.getD []).length = c.dataSize) (entries : ids.length = c.ids.length) :
    NodeFramed remap data ids c := by
  induction c using Chunk.ind generalizing data ids with
  | node c ih =>
    by_cases early : c.chunkVersion < chunkVersion1
    · exact node_unwalked size entries (.inl early)
    cases data with
    | none => exact node_unwalked size entries (.inr rfl)
    | some words =>
      rw [Option.getD_some] at size
      have capacity : (remapChunkData remap ids words ++ c.spare).length = c.buffer.length := by
        rw [List.length_append,length_remapChunkData,size,Chunk.buffer,List.length_append]
        rfl
      have siblings : SiblingsFramed remap (remapChunkData remap ids words ++ c.spare) c.chunks := by
        refine siblings_framed (fun child member data ids => ih child member (housed_child housed member)) ?_
        rw [capacity]
        exact housed [] c rfl
      have run := walked_run remap ids words early
      have either (p : Nat) := tracked_of_either (p := p) siblings
      obtain ⟨outcome,room,_,count,each⟩ := siblings
      generalize remapSubChunks remap (remapChunkData remap ids words ++ c.spare) c.chunks = left
        at run either outcome room count each
      dsimp only at run
      have total : left.2.2.length = words.length + c.spare.length := by
        rw [room,List.length_append,length_remapChunkData]
      have taken : (left.2.2.take words.length).length = words.length := by
        rw [List.length_take,total]
        omega
      have whole (p : Nat) (changed : (left.2.2.take words.length ++ left.2.2.drop words.length)[p]? ≠ (words ++ c.spare)[p]?) :
          TrackedAt remap (some words) ids c p := by
        rw [List.take_append_drop] at changed
        exact either p changed
      refine ⟨by rw [run]; exact outcome,by rw [run]; exact taken,by rw [run]; exact whole,fun own => ?_⟩
      rw [run]
      refine treeFramed_of_children ⟨?_,taken.trans size,?_,entries,?_,fun lies => (own lies).2,fun lies p changed => ?_⟩ ?_
      · cases c
        rfl
      · dsimp only
        rw [List.length_drop,total,Nat.add_sub_cancel_left]
      · rw [List.length_map,count]
      · obtain ⟨same,list⟩ := own lies
        have before : c.buffer = words ++ c.spare := by
          rw [Chunk.buffer,Chunk.words,← same]
          rfl
        rw [← same,← list]
        exact whole p fun kept => changed (kept.trans (by rw [before]))
      · intro index child found
        obtain ⟨back,found',same,framed⟩ := each index child found
        refine ⟨back.refreshed left.2.2,by rw [List.getElem?_map,found']; rfl,framed_refreshed framed same ?_⟩
        rw [room,capacity]
        exact housed [] c rfl child (List.mem_of_getElem? found)

end Nodes

section Whole
variable (remap : IdRemap) {c : Chunk}

/-- A remap of a tree ends, with success or at a chunk without data. Of each chunk it keeps the sizes and the list,
and of its words all but those that the walk over the list comes to, all of them below the size of the data; where
no count is tracked itself, these are the words tracked in the data as given. -/
theorem remap_framed (housed : Housed c) : OutcomeKnown (remapOutcome remap c) ∧ TreeFramed remap c (remapped remap c) ∧
    ∀ target : Chunk, (∀ p ∈ walkedPositions remap target.ids target.words, p < target.dataSize) ∧
      (Steady target.ids target.words → ∀ p, p ∈ walkedPositions remap target.ids target.words ↔
        p ∈ trackedPositions target.ids target.words) := by
  have node : NodeFramed remap c.data c.ids c := node_framed housed rfl rfl
  refine ⟨node.outcome,node.tree fun _ => ⟨rfl,rfl⟩,fun target => ⟨fun p => walkedPositions_inside,fun steady p => ?_⟩⟩
  rw [walkedPositions_steady steady]

end Whole

/-- A sub-chunk of one word and one entry, inside its parent's three words. -/
theorem remap_framed_shared :
    let child : Chunk := { chunkCreate with data := some [6], ids := [0], embedded := some 1 }
    let c : Chunk := { chunkCreate with data := some [5,6,0], ids := [0], chunks := [child] }
    Housed c ∧ TreeFramed ⟨[⟨5,9⟩,⟨6,8⟩]⟩ c (remapped ⟨[⟨5,9⟩,⟨6,8⟩]⟩ c) := by
  intro child c
  have housed : Housed c := by
    rintro (_ | ⟨_ | index,_ | ⟨next,path⟩⟩) target down other member offset lies
    · cases down
      obtain rfl := List.mem_singleton.mp member
      cases lies
      decide
    · cases down
      cases member
    · cases down
    · cases down
    · cases down
  exact ⟨housed,(remap_framed _ housed).2.1⟩

/-- A sequence of one ID, whose count has an entry of its own. -/
def countedTwice : Chunk := { chunkCreate with data := some [1,10,20], ids := [0,0xFFFFFFFF,0] }

/-- The walk rewrites the count and then goes by it, over a word that is not tracked. -/
theorem count_rewritten : (remapped ⟨[⟨1,2⟩,⟨20,21⟩]⟩ countedTwice).words = [2,10,21] ∧
    trackedPositions countedTwice.ids countedTwice.words = [0,1] := by
  decide +kernel

end Libnmo.Format
