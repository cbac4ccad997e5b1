import Libnmo.Format.Chunk
import Libnmo.Lib.Cursor

/-! Object ID remapping: the table of old and new IDs, and the walk that rewrites
the tracked words of a chunk and of its sub-chunks in place. The count of rewritten
IDs is left out: `nmo_chunk_remap_object_ids` drops it. -/
namespace Libnmo.Format
open Core Lib Lib.Patch

structure IdRemapEntry where
  oldId : UInt32
  newId : UInt32
  deriving DecidableEq, Repr

structure IdRemap where
  entries : List IdRemapEntry := []
  deriving Repr

def idRemapAdd (remap : IdRemap) (oldId newId : UInt32) : IdRemap :=
  { entries := remap.entries ++ [⟨oldId,newId⟩] }

/-- The first entry with the old ID. -/
def idRemapLookupId (remap : IdRemap) (oldId : UInt32) : Result UInt32 :=
  match remap.entries.find? fun entry => entry.oldId = oldId with
  | some entry => .ok entry.newId
  | none => .error (.error .notFound "ID not found in remap table")

/-- The word that `remap_single_id` leaves in place of `id`. -/
def remapSingleId (remap : IdRemap) (id : UInt32) : UInt32 :=
  if id = 0 then id
  else match idRemapLookupId remap id with
    | .ok newId => if newId ≠ 0 ∧ newId ≠ id then newId else id
    | .error _ => id

/-- `(int) word < 0`. -/
def isNegative (word : UInt32) : Bool := 0x80000000 ≤ word

/-- The word at an offset that was checked against `data_size`. -/
def remapIdAt (remap : IdRemap) (data : List UInt32) (offset : Nat) : List UInt32 :=
  data.modify offset (remapSingleId remap)

/-- A sequence `[count, id1, id2, ...]` whose header is at an entry of the list. -/
def remapSequence (remap : IdRemap) (data : List UInt32) (header : UInt32) : List UInt32 :=
  if isNegative header then data
  else match data[header.toNat]? with
    | none => data
    | some count =>
      let start := header.toNat + 1
      if ¬ isNegative count ∧ 0 < count ∧ start + count.toNat ≤ data.length then
        (List.range count.toNat).foldl (fun data k => remapIdAt remap data (start + k)) data
      else data

/-- `remap_chunk_data_recursive` on data that is not null. -/
def remapChunkData (remap : IdRemap) : List UInt32 → List UInt32 → List UInt32
  | [],data => data
  | [entry],data =>
    if isNegative entry then data
    else if entry.toNat < data.length then remapIdAt remap data entry.toNat else data
  | entry :: next :: rest,data =>
    if isNegative entry then remapChunkData remap rest (remapSequence remap data next)
    else remapChunkData remap (next :: rest)
      (if entry.toNat < data.length then remapIdAt remap data entry.toNat else data)

/-- What `data` and `ids` of a sub-chunk point to: its own lists, or words of its parent's allocation. -/
def Chunk.shownIn (buffer : List UInt32) (child : Chunk) : Option (List UInt32) × List UInt32 :=
  match child.embedded with
  | some offset =>
    (some ((buffer.drop offset).take child.dataSize),
      (buffer.drop (offset + child.dataSize)).take child.ids.length)
  | none => (child.data,child.ids)

/-- The record of a sub-chunk brought up to date with its parent's allocation. -/
def Chunk.refreshed (buffer : List UInt32) (child : Chunk) : Chunk :=
  { child with data := (child.shownIn buffer).1, ids := (child.shownIn buffer).2 }

mutual

/-- `remap_object_ids_recursive` on a chunk whose `data` and `ids` point to the given lists. -/
def remapObjectIdsRecursive (remap : IdRemap) (data : Option (List UInt32)) (ids : List UInt32) :
    Chunk → Result Unit × Chunk
  | c@{ chunks := children, .. } =>
    if c.chunkVersion < chunkVersion1 then (.ok (),{ c with data := data, ids := ids })
    else match data with
      | none => (.error (.error .invalidArgument "Invalid arguments"),{ c with data := data, ids := ids })
      | some words =>
        let words := remapChunkData remap ids words
        let (outcome,children,buffer) := remapSubChunks remap (words ++ c.spare) children
        (outcome,{ c with
          data := some (buffer.take words.length), ids := ids, spare := buffer.drop words.length
          chunks := children.map (Chunk.refreshed buffer) })
termination_by structural c => c

/-- The sub-chunks one by one, up to the first failure, and the parent's allocation after them. -/
def remapSubChunks (remap : IdRemap) (buffer : List UInt32) :
    List Chunk → Result Unit × List Chunk × List UInt32
  | [] => (.ok (),[],buffer)
  | child :: rest =>
    let shown := child.shownIn buffer
    let (outcome,child) := remapObjectIdsRecursive remap shown.1 shown.2 child
    let buffer := match child.embedded with
      | some offset => overwrite buffer offset child.words
      | none => buffer
    match outcome with
    | .error stop => (.error stop,child :: rest,buffer)
    | .ok () =>
      let (outcome,rest,buffer) := remapSubChunks remap buffer rest
      (outcome,child :: rest,buffer)
termination_by structural children => children

end

def chunkRemapObjectIds (remap : IdRemap) : Run Chunk Unit where
  run c := remapObjectIdsRecursive remap c.data c.ids c

section
variable {remap : IdRemap}

theorem length_remapSequence (data : List UInt32) (header : UInt32) :
    (remapSequence remap data header).length = data.length := by
  have rounds (rounds : List Nat) (start : Nat) (data : List UInt32) :
      (rounds.foldl (fun data k => remapIdAt remap data (start + k)) data).length = data.length := by
    induction rounds generalizing data with
    | nil => rfl
    | cons k rounds ih => exact (ih _).trans (List.length_modify ..)
  unfold remapSequence
  split
  · rfl
  · split
    · rfl
    · dsimp only
      split
      · exact rounds ..
      · rfl

variable (remap) in
theorem length_remapChunkData (ids data : List UInt32) : (remapChunkData remap ids data).length = data.length := by
  have single (data : List UInt32) (entry : UInt32) :
      (if entry.toNat < data.length then remapIdAt remap data entry.toNat else data).length = data.length := by
    split
    · exact List.length_modify ..
    · rfl
  induction ids, data using remapChunkData.induct remap with
  | case1 => rfl
  | case2 entry data negative => rw [remapChunkData,if_pos negative]
  | case3 entry data plain | case4 entry data plain => rw [remapChunkData,if_neg plain,single]
  | case5 entry next rest data negative ih =>
    rw [remapChunkData,if_pos negative,ih,length_remapSequence]
  | case6 entry next rest data plain ih => rw [remapChunkData,if_neg plain,ih,single]

variable (remap) in
theorem embedded_remapped (data : Option (List UInt32)) (ids : List UInt32) (c : Chunk) :
    (remapObjectIdsRecursive remap data ids c).2.embedded = c.embedded := by
  cases c
  simp only [remapObjectIdsRecursive]
  split
  · rfl
  · split <;> rfl

variable (remap) in
/-- Sub-chunks with words of their own leave the parent's alone. -/
theorem remapSubChunks_apart (buffer : List UInt32) (children : List Chunk)
    (apart : ∀ child ∈ children, child.embedded = none) :
    (remapSubChunks remap buffer children).2.2 = buffer := by
  induction children with
  | nil => simp [remapSubChunks]
  | cons child rest ih =>
    have alone := apart child (by simp)
    have others := ih fun other member => apart other (by simp [member])
    simp only [remapSubChunks,embedded_remapped _,alone]
    split
    · rfl
    · exact others

theorem words_remapped (c : Chunk) (some : c.data.isSome) (apart : ∀ child ∈ c.chunks, child.embedded = none) :
    ((chunkRemapObjectIds remap).run c).2.words =
      if c.chunkVersion < chunkVersion1 then c.words else remapChunkData remap c.ids c.words := by
  obtain ⟨words,data⟩ := Option.isSome_iff_exists.mp some
  have length := length_remapChunkData remap c.ids words
  have kept := remapSubChunks_apart remap (remapChunkData remap c.ids words ++ c.spare) c.chunks apart
  have shown : c.words = words := by rw [Chunk.words,data,Option.getD_some]
  rw [shown]
  cases c
  dsimp only at data kept length
  subst data
  simp only [chunkRemapObjectIds,remapObjectIdsRecursive]
  split
  · rfl
  · simp only [kept,length,Chunk.words,Option.getD_some]
    rw [← length,List.take_left]

end

end Libnmo.Format
