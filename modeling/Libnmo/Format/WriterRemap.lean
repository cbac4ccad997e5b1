import Libnmo.Format.WriterRuns

/-! Chunks built by a writer, and what a remap makes of their tracked IDs. A plain
ID is tracked by one entry. An ID of a sequence is tracked twice, by the marker of
the sequence and by an entry of its own, so the table is applied to it twice. -/
namespace Libnmo.Format
open Core Lib

namespace WriterOp

/-- The positions that those entries stand for. -/
def positions (pos : Nat) : WriterOp → List Nat
  | objectId id => idPositions pos [id]
  | objectSequence ids => (List.range ids.length).map (pos + 1 + ·) ++ idPositions (pos + 1) ids
  | _ => []

/-- The words with the plain IDs and the items of sequences replaced. -/
def rewrite (plain item : UInt32 → UInt32) : WriterOp → List UInt32
  | objectId id => [plain id]
  | objectSequence ids => UInt32.ofNat ids.length :: ids.map item
  | op => op.words

/-- The words after a remap: a plain ID looked up once, an item of a sequence twice. -/
def remappedWords (remap : IdRemap) : WriterOp → List UInt32 :=
  rewrite (remapSingleId remap) fun id => remapSingleId remap (remapSingleId remap id)

/-- Every tracked ID is replaced by the target. -/
def Meets (plain item target : UInt32 → UInt32) : WriterOp → Prop
  | objectId id => id ≠ 0 → plain id = target id
  | objectSequence ids => ∀ id ∈ ids, item id = target id
  | _ => True

variable {plain item target : UInt32 → UInt32}

theorem length_rewrite (op : WriterOp) : (op.rewrite plain item).length = op.words.length := by
  cases op <;> simp [rewrite,words]

theorem length_remappedWords (remap : IdRemap) (op : WriterOp) :
    (op.remappedWords remap).length = op.words.length := op.length_rewrite

theorem rewrite_id : rewrite id id = words := by
  funext op
  cases op <;> simp [rewrite,words]

end WriterOp

def opsPositions (pos : Nat) : List WriterOp → List Nat
  | [] => []
  | op :: ops => op.positions pos ++ opsPositions (pos + op.words.length) ops

section Segments
variable {remap : IdRemap} {rest : List UInt32}

theorem isNegative_marker : isNegative listSequenceMarker = true := rfl

variable (remap rest) in
theorem remapChunkData_entries (op : WriterOp) (before after : List UInt32)
    (small : before.length + op.words.length ≤ 2 ^ 31) :
    remapChunkData remap (op.entries before.length ++ rest) (before ++ op.words ++ after) =
      remapChunkData remap rest (before ++ op.remappedWords remap ++ after) := by
  cases op with
  | dword | managerInt | subchunk => rfl
  | objectId id => exact remapChunkData_idEntries _ _ before [id] after small
  | objectSequence ids =>
    simp only [WriterOp.words,List.length_cons] at small
    have items (ids : List UInt32) (fits : before.length + 1 + ids.length ≤ 2 ^ 31) (count : UInt32) :
        remapChunkData remap (idEntries (before.length + 1) ids ++ rest) (before ++ count :: (ids ++ after)) =
          remapChunkData remap rest (before ++ count :: (ids.map (remapSingleId remap) ++ after)) := by
      have stretch := remapChunkData_idEntries remap rest (before ++ [count]) ids after
        (by simp; omega)
      simpa only [List.length_append,List.length_singleton,List.append_assoc,List.cons_append,List.nil_append]
        using stretch
    simp only [WriterOp.entries,WriterOp.words,WriterOp.remappedWords,List.append_assoc,List.cons_append]
    by_cases empty : ids = []
    · subst empty
      rfl
    · rw [if_neg empty,List.cons_append,List.cons_append,List.nil_append,remapChunkData_marker isNegative_marker,
        remapSequence_between before ids after empty (by omega),← idEntries_remapped remap,
        items _ (by rw [List.length_map]; omega),List.map_map]
      rfl

variable (remap rest) in
theorem remapChunkData_opsEntries (ops : List WriterOp) (before after : List UInt32)
    (small : before.length + (ops.flatMap WriterOp.words).length ≤ 2 ^ 31) :
    remapChunkData remap (opsEntries before.length ops ++ rest) (before ++ ops.flatMap WriterOp.words ++ after) =
      remapChunkData remap rest (before ++ ops.flatMap (WriterOp.remappedWords remap) ++ after) := by
  induction ops generalizing before with
  | nil => rfl
  | cons op ops ih =>
    simp only [List.flatMap_cons,List.length_append] at small ⊢
    have first := remapChunkData_entries remap (opsEntries (before.length + op.words.length) ops ++ rest)
      op before (ops.flatMap WriterOp.words ++ after) (by omega)
    have others := ih (before ++ op.remappedWords remap)
      (by rw [List.length_append,WriterOp.length_remappedWords]; omega)
    rw [List.length_append,WriterOp.length_remappedWords] at others
    simp only [List.append_assoc] at first others ⊢
    rw [opsEntries,List.append_assoc,first,others]

variable (rest) in
theorem trackedPositions_entries (op : WriterOp) (before after : List UInt32)
    (small : before.length + op.words.length ≤ 2 ^ 31) :
    trackedPositions (op.entries before.length ++ rest) (before ++ op.words ++ after) =
      op.positions before.length ++ trackedPositions rest (before ++ op.words ++ after) := by
  cases op with
  | dword | managerInt | subchunk => rfl
  | objectId id =>
    exact trackedPositions_idEntries _ _ [id] _ (by simp [WriterOp.words]) small
  | objectSequence ids =>
    simp only [WriterOp.words,List.length_cons] at small
    have items := trackedPositions_idEntries rest (before ++ (WriterOp.objectSequence ids).words ++ after) ids
      (before.length + 1) (by simp [WriterOp.words]; omega) (by omega)
    by_cases empty : ids = []
    · subst empty
      rfl
    · have header := sequencePositions_between before ids after empty (by omega)
      simp only [WriterOp.entries,WriterOp.words,WriterOp.positions,List.append_assoc,List.cons_append] at items ⊢
      rw [if_neg empty,List.cons_append,List.cons_append,List.nil_append,trackedPositions_marker isNegative_marker,
        header,items]

theorem trackedPositions_opsEntries (ops : List WriterOp) (before : List UInt32)
    (small : before.length + (ops.flatMap WriterOp.words).length ≤ 2 ^ 31) :
    trackedPositions (opsEntries before.length ops) (before ++ ops.flatMap WriterOp.words) =
      opsPositions before.length ops := by
  induction ops generalizing before with
  | nil => rfl
  | cons op ops ih =>
    simp only [List.flatMap_cons,List.length_append] at small ⊢
    have first := trackedPositions_entries (opsEntries (before.length + op.words.length) ops)
      op before (ops.flatMap WriterOp.words) (by omega)
    have others := ih (before ++ op.words) (by rw [List.length_append]; omega)
    rw [List.length_append] at others
    simp only [List.append_assoc] at first others ⊢
    rw [opsEntries,opsPositions,first,others]

end Segments

section Meeting
variable {plain item target : UInt32 → UInt32}

theorem getElem?_inside {before middle after : List UInt32} {k : Nat} (inside : k < middle.length) :
    (before ++ middle ++ after)[before.length + k]? = middle[k]? := by
  rw [List.append_assoc,List.getElem?_append_right (by omega),Nat.add_sub_cancel_left,
    List.getElem?_append_left inside]

variable (plain item target) in
theorem meets_iff (op : WriterOp) (before before' after after' : List UInt32) (same : before'.length = before.length) :
    (∀ p ∈ op.positions before.length,
      (before' ++ op.rewrite plain item ++ after')[p]? = ((before ++ op.words ++ after)[p]?).map target) ↔
      op.Meets plain item target := by
  have at_ (k : Nat) (inside : k < op.words.length) :
      (before' ++ op.rewrite plain item ++ after')[before.length + k]? = (op.rewrite plain item)[k]? ∧
        (before ++ op.words ++ after)[before.length + k]? = op.words[k]? := by
    rw [← same,getElem?_inside (by rwa [WriterOp.length_rewrite]),same,getElem?_inside inside]
    exact ⟨rfl,rfl⟩
  cases op with
  | dword | managerInt | subchunk => simp [WriterOp.positions,WriterOp.Meets]
  | objectId id =>
    obtain ⟨changed,old⟩ := at_ 0 (by simp [WriterOp.words])
    simp only [Nat.add_zero] at changed old
    simp only [WriterOp.positions,idPositions,WriterOp.Meets]
    split
    · rename_i some
      simp only [List.mem_singleton,forall_eq,changed,old]
      simp [WriterOp.rewrite,WriterOp.words,some]
    · rename_i zero
      simp [zero]
  | objectSequence ids =>
    have items : (∀ p ∈ (WriterOp.objectSequence ids).positions before.length,
        (before' ++ (WriterOp.objectSequence ids).rewrite plain item ++ after')[p]? =
          ((before ++ (WriterOp.objectSequence ids).words ++ after)[p]?).map target) ↔
        ∀ k < ids.length, (ids.map item)[k]? = (ids[k]?).map target := by
      have entry (k : Nat) (inside : k < ids.length) := at_ (k + 1) (by simpa [WriterOp.words] using inside)
      simp only [WriterOp.rewrite,WriterOp.words,List.getElem?_cons_succ] at entry ⊢
      constructor
      · intro all k inside
        have good := all (before.length + (k + 1)) (by simp [WriterOp.positions]; exact .inl ⟨k,inside,by omega⟩)
        rwa [(entry k inside).1,(entry k inside).2] at good
      · intro all p member
        obtain ⟨k,inside,rfl⟩ : ∃ k, k < ids.length ∧ p = before.length + (k + 1) := by
          rcases List.mem_append.mp member with first | second
          · obtain ⟨k,inside,rfl⟩ := List.mem_map.mp first
            exact ⟨k,List.mem_range.mp inside,by omega⟩
          · obtain ⟨k,id,rfl,found,_⟩ := (mem_idPositions ids _ _).mp second
            exact ⟨k,(List.getElem?_eq_some_iff.mp found).1,by omega⟩
        rw [(entry k inside).1,(entry k inside).2]
        exact all k inside
    rw [items,WriterOp.Meets]
    simp only [List.getElem?_map]
    constructor
    · intro all id member
      obtain ⟨k,inside,rfl⟩ := List.mem_iff_getElem.mp member
      simpa [List.getElem?_eq_getElem inside] using all k inside
    · intro all k inside
      simp [List.getElem?_eq_getElem inside,all ids[k] (List.getElem_mem inside)]

variable (plain item target) in
theorem opsMeet_iff (ops : List WriterOp) (before before' : List UInt32) (same : before'.length = before.length) :
    (∀ p ∈ opsPositions before.length ops,
      (before' ++ ops.flatMap (WriterOp.rewrite plain item))[p]? =
        ((before ++ ops.flatMap WriterOp.words)[p]?).map target) ↔
      ∀ op ∈ ops, op.Meets plain item target := by
  induction ops generalizing before before' with
  | nil => simp [opsPositions]
  | cons op ops ih =>
    have first := meets_iff plain item target op before before'
      (ops.flatMap WriterOp.words) (ops.flatMap (WriterOp.rewrite plain item)) same
    have others := ih (before ++ op.words) (before' ++ op.rewrite plain item)
      (by simp only [List.length_append,WriterOp.length_rewrite,same])
    rw [List.length_append] at others
    simp only [opsPositions,List.flatMap_cons,List.mem_append,List.forall_mem_cons,← List.append_assoc]
    rw [← first,← others]
    exact ⟨fun all => ⟨fun p member => all p (.inl member),fun p member => all p (.inr member)⟩,
      fun both p member => member.elim (both.1 p) (both.2 p)⟩

end Meeting

/-- Of the two ways a chunk is remapped, the older versions have none. -/
def WriterOp.RemappedOnce (remap : IdRemap) (chunkVersion : UInt32) (op : WriterOp) : Prop :=
  if chunkVersion < chunkVersion1 then op.Meets id id (mappedId remap)
  else op.Meets (remapSingleId remap) (fun id => remapSingleId remap (remapSingleId remap id)) (mappedId remap)

/-- Every tracked word of a written chunk holds its mapping after a remap, exactly when for each plain ID the
table is the remap step, and for each item of a sequence two steps. -/
theorem remapped_once_iff (around : Surroundings) (ctx : Option ChunkFileContext) (classId chunkVersion : UInt32)
    (ops : List WriterOp) (remap : IdRemap) (c : Chunk)
    (built : writtenChunk around ctx classId chunkVersion ops = some c) (small : c.words.length ≤ 2 ^ 31) :
    (∀ p ∈ trackedPositions c.ids c.words,
      ((chunkRemapObjectIds remap).run c).2.words[p]? = (c.words[p]?).map (mappedId remap)) ↔
      encodesIds ctx ∨ ∀ op ∈ ops, op.RemappedOnce remap chunkVersion := by
  cases encoded : encodesIds ctx with
  | true => simp [writtenChunk_encoded encoded built,trackedPositions]
  | false =>
    obtain ⟨words,ids⟩ := writtenChunk_plain encoded built
    have handed := writtenChunk_handedOver built
    rw [words] at small
    have tracked := trackedPositions_opsEntries ops [] (by simpa using small)
    have after := remapChunkData_opsEntries remap [] ops [] [] (by simpa using small)
    simp only [List.length_nil,List.nil_append,List.append_nil,remapChunkData] at tracked after
    rw [words_remapped c (by rw [handed.data]; rfl) handed.apart,ids,handed.chunkVersion,words,tracked,after]
    simp only [Bool.false_eq_true,false_or,WriterOp.RemappedOnce]
    have meets (plain item : UInt32 → UInt32) :=
      opsMeet_iff plain item (mappedId remap) ops [] [] rfl
    simp only [List.length_nil,List.nil_append] at meets
    split
    · have same := meets id id
      rwa [WriterOp.rewrite_id] at same
    · exact meets _ _

def plainIdChunk : Chunk := (writtenChunk {} none 0x21 chunkVersion4 [.dword 9,.objectId 5]).getD chunkCreate

theorem plainId_remapped :
    (∀ p ∈ trackedPositions plainIdChunk.ids plainIdChunk.words,
      ((chunkRemapObjectIds ⟨[⟨5,6⟩]⟩).run plainIdChunk).2.words[p]? =
        (plainIdChunk.words[p]?).map (mappedId ⟨[⟨5,6⟩]⟩)) ↔
      encodesIds none ∨ ∀ op ∈ [.dword 9,.objectId 5], WriterOp.RemappedOnce ⟨[⟨5,6⟩]⟩ chunkVersion4 op :=
  remapped_once_iff {} none 0x21 chunkVersion4 [.dword 9,.objectId 5] ⟨[⟨5,6⟩]⟩ plainIdChunk rfl (by decide)

def swapRemap : IdRemap := ⟨[⟨1,2⟩,⟨2,1⟩]⟩

def sequenceChunk : Chunk := (writtenChunk {} none 0x21 chunkVersion4 [.objectSequence [1,2]]).getD chunkCreate

/-- The swap is undone on the items of a sequence, which keep their old IDs. -/
theorem sequence_not_swapped :
    writtenChunk {} none 0x21 chunkVersion4 [.objectSequence [1,2]] = some sequenceChunk ∧
      sequenceChunk.words = [2,1,2] ∧ ((chunkRemapObjectIds swapRemap).run sequenceChunk).2.words = [2,1,2] ∧
      ¬ ∀ p ∈ trackedPositions sequenceChunk.ids sequenceChunk.words,
        ((chunkRemapObjectIds swapRemap).run sequenceChunk).2.words[p]? =
          (sequenceChunk.words[p]?).map (mappedId swapRemap) := by
  refine ⟨rfl,rfl,rfl,fun all => ?_⟩
  have first := all 1 (by decide)
  exact absurd first (by decide)

end Libnmo.Format
