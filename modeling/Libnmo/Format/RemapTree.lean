import Libnmo.Format.ChunkRemap

/-! A remap of a tree of chunks in which every chunk has words of its own. The walk
goes through the sub-chunks up to the first that fails; a second walk, with another
table, ends at the same one, so it comes to every chunk that the first came to. -/
namespace Libnmo.Format
open Core Lib

/-- The chunk at a path of indices into the lists of sub-chunks. -/
def descend : List Nat → Chunk → Option Chunk
  | [],c => some c
  | index :: path,c => c.chunks[index]?.bind (descend path)

/-- No chunk of the tree shares its words with a sub-chunk. -/
def Apart (c : Chunk) : Prop := ∀ path target, descend path c = some target → ∀ child ∈ target.chunks, child.embedded = none

/-- The chunk after a remap, whatever its outcome. -/
def remapped (remap : IdRemap) (c : Chunk) : Chunk := ((chunkRemapObjectIds remap).run c).2

def remapOutcome (remap : IdRemap) (c : Chunk) : Result Unit := ((chunkRemapObjectIds remap).run c).1

/-- The sub-chunks one by one, up to the first failure. -/
def remappedList (remap : IdRemap) : List Chunk → List Chunk
  | [] => []
  | child :: rest => remapped remap child :: match remapOutcome remap child with
    | .ok () => remappedList remap rest
    | .error _ => rest

def remapListOutcome (remap : IdRemap) : List Chunk → Result Unit
  | [] => .ok ()
  | child :: rest => match remapOutcome remap child with
    | .ok () => remapListOutcome remap rest
    | .error stop => .error stop

section
variable {remap : IdRemap}

theorem Apart.child {c child : Chunk} (apart : Apart c) (member : child ∈ c.chunks) : Apart child := by
  obtain ⟨index,found⟩ := List.getElem?_of_mem member
  intro path target down
  exact apart (index :: path) target (by rw [descend,found]; exact down)

theorem Apart.children {c : Chunk} (apart : Apart c) : ∀ child ∈ c.chunks, child.embedded = none := apart [] c rfl

variable (remap) in
theorem remapSubChunks_list (buffer : List UInt32) (children : List Chunk)
    (apart : ∀ child ∈ children, child.embedded = none) :
    remapSubChunks remap buffer children = (remapListOutcome remap children,remappedList remap children,buffer) := by
  induction children with
  | nil => simp [remapSubChunks,remapListOutcome,remappedList]
  | cons child rest ih =>
    rw [List.forall_mem_cons] at apart
    have shown : child.shownIn buffer = (child.data,child.ids) := by rw [Chunk.shownIn,apart.1]
    have alone := (embedded_remapped remap child.data child.ids child).trans apart.1
    simp only [remapSubChunks,shown,alone,ih apart.2,remapListOutcome,remappedList,remapOutcome,remapped,
      chunkRemapObjectIds]
    split
    · rename_i failed
      simp [failed]
    · rename_i fine
      simp [fine]

variable (remap) in
theorem remappedList_apart (children : List Chunk) (apart : ∀ child ∈ children, child.embedded = none) :
    ∀ child ∈ remappedList remap children, child.embedded = none := by
  induction children with
  | nil => simp [remappedList]
  | cons child rest ih =>
    rw [List.forall_mem_cons] at apart
    rw [remappedList,List.forall_mem_cons]
    refine ⟨(embedded_remapped _ _ _ child).trans apart.1,?_⟩
    split
    · exact ih apart.2
    · exact apart.2

theorem map_refreshed (buffer : List UInt32) (children : List Chunk)
    (apart : ∀ child ∈ children, child.embedded = none) : children.map (Chunk.refreshed buffer) = children := by
  have same : ∀ child ∈ children, Chunk.refreshed buffer child = id child := by
    intro child member
    have shown : child.shownIn buffer = (child.data,child.ids) := by rw [Chunk.shownIn,apart child member]
    rw [Chunk.refreshed,shown]
    cases child
    rfl
  rw [List.map_congr_left same,List.map_id]

variable (remap) in
/-- What a remap makes of a chunk, when it comes to its words. -/
theorem remapped_walk {c : Chunk} {words : List UInt32} (modern : ¬ c.chunkVersion < chunkVersion1)
    (data : c.data = some words) (apart : ∀ child ∈ c.chunks, child.embedded = none) :
    remapOutcome remap c = remapListOutcome remap c.chunks ∧
      remapped remap c = { c with
        data := some (remapChunkData remap c.ids words), chunks := remappedList remap c.chunks } := by
  have length := length_remapChunkData remap c.ids words
  have list := remapSubChunks_list remap (remapChunkData remap c.ids words ++ c.spare) c.chunks apart
  have again := map_refreshed (remapChunkData remap c.ids words ++ c.spare) _
    (remappedList_apart remap c.chunks apart)
  rw [remapOutcome,remapped,chunkRemapObjectIds]
  cases c
  dsimp only at modern data length list again
  subst data
  simp only [remapObjectIdsRecursive,if_neg modern,list,length,again]
  rw [← length,List.take_left,List.drop_left]
  exact ⟨trivial,rfl⟩

variable (remap) in
theorem remapped_early {c : Chunk} (early : c.chunkVersion < chunkVersion1) :
    remapOutcome remap c = .ok () ∧ remapped remap c = c := by
  rw [remapOutcome,remapped,chunkRemapObjectIds]
  cases c
  simp only [remapObjectIdsRecursive,if_pos early]
  exact ⟨trivial,trivial⟩

variable (remap) in
theorem remapped_absent {c : Chunk} (modern : ¬ c.chunkVersion < chunkVersion1) (data : c.data = none) :
    remapOutcome remap c = .error (.error .invalidArgument "Invalid arguments") ∧ remapped remap c = c := by
  rw [remapOutcome,remapped,chunkRemapObjectIds]
  cases c
  dsimp only at modern data
  subst data
  simp only [remapObjectIdsRecursive,if_neg modern]
  exact ⟨trivial,trivial⟩

end

/-- The second of two walks ends as the first, and what it leaves at each place is related to what the first
one came from. -/
structure TwiceAlike (first second : IdRemap) (related : Chunk → Chunk → Prop) (c : Chunk) : Prop where
  outcome : remapOutcome second (remapped first c) = remapOutcome first c
  places : ∀ path target, descend path c = some target →
    ∃ back, descend path (remapped second (remapped first c)) = some back ∧ related target back

section
variable {first second : IdRemap} {related : Chunk → Chunk → Prop}

theorem remappedList_twice (children : List Chunk) (each : ∀ child ∈ children, TwiceAlike first second related child)
    (same : ∀ c, related c c) :
    remapListOutcome second (remappedList first children) = remapListOutcome first children ∧
      ∀ (index : Nat) child path target, children[index]? = some child → descend path child = some target →
        ∃ back child', (remappedList second (remappedList first children))[index]? = some child' ∧
          descend path child' = some back ∧ related target back := by
  induction children with
  | nil => exact ⟨rfl,by simp⟩
  | cons child rest ih =>
    rw [List.forall_mem_cons] at each
    obtain ⟨alike,others⟩ := each
    have ih := ih others
    have outcome := alike.outcome
    cases ended : remapOutcome first child with
    | error stop =>
      rw [ended] at outcome
      simp only [remappedList,remapListOutcome,ended,outcome]
      refine ⟨trivial,fun index other path target found down => ?_⟩
      cases index with
      | zero =>
        obtain rfl : child = other := by simpa using found
        obtain ⟨back,down,holds⟩ := alike.places path target down
        exact ⟨back,_,rfl,down,holds⟩
      | succ index => exact ⟨target,other,by simpa using found,down,same target⟩
    | ok done =>
      rw [ended] at outcome
      simp only [remappedList,remapListOutcome,ended,outcome]
      refine ⟨ih.1,fun index other path target found down => ?_⟩
      cases index with
      | zero =>
        obtain rfl : child = other := by simpa using found
        obtain ⟨back,down,holds⟩ := alike.places path target down
        exact ⟨back,_,rfl,down,holds⟩
      | succ index => exact ih.2 index other path target (by simpa using found) down

/-- Two walks over a tree relate every chunk to what it becomes, when they relate a chunk they come to. -/
theorem twiceAlike (c : Chunk) (apart : Apart c) (same : ∀ c, related c c)
    (root : ∀ c words, ¬ c.chunkVersion < chunkVersion1 → c.data = some words → ∀ back : Chunk,
      back.data = some (remapChunkData second c.ids (remapChunkData first c.ids words)) → related c back) :
    TwiceAlike first second related c := by
  induction c using Chunk.ind with
  | node c ih =>
    have itself (unchanged : remapped second (remapped first c) = c) : ∀ path target, descend path c = some target →
        ∃ back, descend path (remapped second (remapped first c)) = some back ∧ related target back :=
      fun path target down => ⟨target,by rw [unchanged]; exact down,same target⟩
    by_cases early : c.chunkVersion < chunkVersion1
    · have before := remapped_early first early
      have after := remapped_early second early
      refine ⟨?_,itself ?_⟩
      · rw [before.2,before.1,after.1]
      · rw [before.2,after.2]
    · cases data : c.data with
      | none =>
        have before := remapped_absent first early data
        have after := remapped_absent second early data
        refine ⟨?_,itself ?_⟩
        · rw [before.2,before.1,after.1]
        · rw [before.2,after.2]
      | some words =>
        have before := remapped_walk first early data apart.children
        have list := remappedList_twice c.chunks
          (fun child member => ih child member (apart.child member)) same
        have after := remapped_walk second (c := remapped first c)
          (by rw [before.2]; exact early) (by rw [before.2]) (by rw [before.2]; exact remappedList_apart _ _ apart.children)
        refine ⟨?_,fun path target down => ?_⟩
        · rw [after.1,before.1,before.2]
          exact list.1
        · rw [after.2,before.2]
          cases path with
          | nil =>
            obtain rfl : c = target := Option.some.inj down
            exact ⟨_,rfl,root c words early data _ rfl⟩
          | cons index path =>
            obtain ⟨child,found,down⟩ := Option.bind_eq_some_iff.mp down
            obtain ⟨back,child',found',down',holds⟩ := list.2 index child path target found down
            exact ⟨back,by rw [descend,found']; exact down',holds⟩

end

end Libnmo.Format
