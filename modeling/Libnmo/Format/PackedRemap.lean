import Libnmo.Format.ChunkPacking
import Libnmo.Format.RemapTree
import Libnmo.Format.TrackedRemap

/-! Remapping a packed chunk. The walk follows the positions of the unpacked data in the
compressed words, so it agrees with a remap of the unpacked chunk where neither has a word to rewrite. -/
namespace Libnmo.Format
open Core Lib Lib.Patch Lib.LittleEndian

/-- No word at the positions is one that the table rewrites. -/
def Stays (remap : IdRemap) (positions : List Nat) (data : List UInt32) : Prop :=
  ∀ p ∈ positions, ∀ word ∈ data[p]?, remapSingleId remap word = word

/-- The walk over a chunk comes to no word that the table rewrites, in its own words or in those of a
sub-chunk that lies in them. -/
inductive Unmoved (remap : IdRemap) : Option (List UInt32) → List UInt32 → Chunk → Prop
  | early {data ids c} (early : c.chunkVersion < chunkVersion1) : Unmoved remap data ids c
  | absent {ids c} : Unmoved remap none ids c
  | walked {words ids c} (stays : Stays remap (trackedPositions ids words) words)
      (inner : ∀ child ∈ c.chunks, child.embedded.isSome →
        Unmoved remap (child.shownIn (words ++ c.spare)).1 (child.shownIn (words ++ c.spare)).2 child) :
      Unmoved remap (some words) ids c

def Chunk.Unmoved (remap : IdRemap) (c : Chunk) : Prop := Format.Unmoved remap c.data c.ids c

section
variable {remap : IdRemap} {data : Option (List UInt32)} {ids words : List UInt32} {c : Chunk}

theorem stays_fixed {remap : IdRemap} {positions : List Nat} {data : List UInt32}
    (fixed : data.all fun word => remapSingleId remap word = word) : Stays remap positions data := by
  intro p _ word found
  have member : word ∈ data := List.mem_of_getElem? found
  exact of_decide_eq_true (List.all_eq_true.mp fixed word member)

theorem remapAll_stays {positions : List Nat} (stays : Stays remap positions words) :
    remapAll remap positions words = words := by
  induction positions with
  | nil => rfl
  | cons p positions ih =>
    have same : remapIdAt remap words p = words := by
      apply List.ext_getElem?
      intro q
      rw [remapIdAt,List.getElem?_modify]
      split
      · rename_i here
        cases found : words[q]? with
        | none => rfl
        | some word => exact congrArg some (stays p (List.mem_cons_self ..) word (here ▸ found))
      · cases words[q]? <;> rfl
    rw [remapAll,List.foldl_cons,same]
    exact ih fun p member => stays p (List.mem_cons_of_mem _ member)

/-- A walk that comes to no word to rewrite leaves the data as they are. -/
theorem remapChunkData_stays (stays : Stays remap (trackedPositions ids words) words) :
    remapChunkData remap ids words = words := by
  induction ids using sequenceHeaders.induct with
  | case1 entry header rest marker ih =>
    rw [trackedPositions_marker marker] at stays
    have first := remapAll_stays fun p member => stays p (List.mem_append_left _ member)
    rw [remapChunkData_marker marker,remapSequence_all,first]
    exact ih fun p member => stays p (List.mem_append_right _ member)
  | case2 entry next rest single ih =>
    have plain : isNegative entry = false := by simpa using single
    rw [trackedPositions_single plain] at stays
    have first := remapAll_stays fun p member => stays p (List.mem_append_left _ member)
    rw [remapChunkData_single plain,remapSingle_all,first]
    exact ih fun p member => stays p (List.mem_append_right _ member)
  | case3 ids short =>
    rcases ids with _ | ⟨entry,_ | ⟨next,rest⟩⟩
    · rfl
    · cases marker : isNegative entry with
      | true => rw [remapChunkData,if_pos marker]
      | false =>
        rw [trackedPositions_single marker] at stays
        rw [remapChunkData_single marker,remapSingle_all]
        exact remapAll_stays fun p member => stays p (List.mem_append_left _ member)
    · exact (short entry next rest rfl).elim

/-- The words of a sub-chunk that lies in the buffer, put back where they are. -/
theorem overwrite_shown {child : Chunk} {offset : Nat} (lies : child.embedded = some offset) (buffer : List UInt32) :
    overwrite buffer offset ((child.shownIn buffer).1.getD []) = buffer := by
  simp only [Chunk.shownIn,lies,Option.getD_some,overwrite]
  have inside := List.prefix_iff_eq_append.mp (List.take_prefix child.dataSize (buffer.drop offset))
  rw [List.drop_drop] at inside
  rw [List.append_assoc,inside,List.take_append_drop]

theorem remapSubChunks_unmoved (buffer : List UInt32) (children : List Chunk)
    (unmoved : ∀ child ∈ children, child.embedded.isSome →
      (remapObjectIdsRecursive remap (child.shownIn buffer).1 (child.shownIn buffer).2 child).2.data =
        (child.shownIn buffer).1) :
    (remapSubChunks remap buffer children).2.2 = buffer := by
  induction children with
  | nil => simp only [remapSubChunks]
  | cons child rest ih =>
    rw [List.forall_mem_cons] at unmoved
    have others := ih unmoved.2
    simp only [remapSubChunks,embedded_remapped]
    cases lies : child.embedded with
    | none =>
      dsimp only
      split
      · rfl
      · exact others
    | some offset =>
      have back : overwrite buffer offset
          (remapObjectIdsRecursive remap (child.shownIn buffer).1 (child.shownIn buffer).2 child).2.words = buffer := by
        rw [Chunk.words,unmoved.1 (lies ▸ rfl),overwrite_shown lies]
      simp only [back]
      split
      · rfl
      · exact others

/-- A chunk whose walk comes to no word to rewrite keeps its words. -/
theorem unmoved_kept (unmoved : Unmoved remap data ids c) : (remapObjectIdsRecursive remap data ids c).2.data = data := by
  induction unmoved with
  | early early =>
    rename_i c
    cases c
    simp only [remapObjectIdsRecursive,if_pos early]
  | absent =>
    rename_i c
    cases c
    simp only [remapObjectIdsRecursive]
    split <;> rfl
  | walked stays inner ih =>
    rename_i words ids c
    have kept := remapSubChunks_unmoved (words ++ c.spare) c.chunks ih
    cases c
    simp only [remapObjectIdsRecursive]
    split
    · rfl
    · dsimp only at kept
      simp only [remapChunkData_stays stays,kept]
      rw [List.take_left]

theorem words_unmoved (unmoved : c.Unmoved remap) : (remapped remap c).words = c.words := by
  rw [Chunk.words,Chunk.words,remapped]
  exact congrArg (Option.getD · []) (unmoved_kept unmoved)

theorem options_remapped (remap : IdRemap) (c : Chunk) : (remapped remap c).chunkOptions = c.chunkOptions := by
  cases c
  simp only [remapped,chunkRemapObjectIds,remapObjectIdsRecursive]
  split
  · rfl
  · split <;> rfl

theorem unpackSize_remapped (remap : IdRemap) (c : Chunk) : (remapped remap c).unpackSize = c.unpackSize := by
  cases c
  simp only [remapped,chunkRemapObjectIds,remapObjectIdsRecursive]
  split
  · rfl
  · split <;> rfl

/-- Unpacking the remapped packed chunk gives the data of the remapped unpacked one. -/
def RemapsPacked (miniz : Miniz) (remap : IdRemap) (packed unpacked : Chunk) : Prop :=
  ∃ result, (chunkUnpack miniz).run (remapped remap packed) = (.ok (),result) ∧
    result.words = (remapped remap unpacked).words

/-- Either the chunk is not packed, or the walk comes to no word to rewrite, among the compressed words and
among the unpacked ones. -/
def Quiet (remap : IdRemap) (packed unpacked : Chunk) : Prop :=
  hasFlag packed.chunkOptions optionPacked = false ∨ (packed.Unmoved remap ∧ unpacked.Unmoved remap)

section
variable {miniz : Miniz} {level : Int} {u : Chunk}

theorem remapsPacked_plain (unpacked : (chunkUnpack miniz).run c = (.ok (),u))
    (plain : hasFlag ((chunkPack miniz level).run c).2.chunkOptions optionPacked = false) :
    RemapsPacked miniz remap ((chunkPack miniz level).run c).2 u := by
  rcases chunkPack_cases miniz level c with same | ⟨compressed,compresses⟩
  · rw [same] at plain ⊢
    rw [chunkUnpack_plain plain] at unpacked
    cases unpacked
    rw [← options_remapped remap] at plain
    exact ⟨remapped remap c,chunkUnpack_plain plain,rfl⟩
  · rw [chunkPack_compresses compresses] at plain
    cases (hasFlag_packed c.chunkOptions).symm.trans plain

/-- Where the walk over the compressed words rewrites none, unpacking gives what was packed. -/
theorem remapsPacked_unmoved_iff (restores : miniz.Restores) (unpacked : (chunkUnpack miniz).run c = (.ok (),u))
    (unmoved : ((chunkPack miniz level).run c).2.Unmoved remap) :
    RemapsPacked miniz remap ((chunkPack miniz level).run c).2 u ↔ (remapped remap u).words = u.words := by
  obtain ⟨v,back,same⟩ := unpack_pack level restores unpacked
  obtain ⟨w,ran,alike⟩ := chunkUnpack_alike (options_remapped remap _) (unpackSize_remapped remap _)
    (words_unmoved unmoved) back
  constructor
  · rintro ⟨result,run,agree⟩
    cases ran.symm.trans run
    rw [← agree,alike,same]
  · intro kept
    exact ⟨w,ran,by rw [alike,same,kept]⟩

theorem remapsPacked_when (restores : miniz.Restores) (unpacked : (chunkUnpack miniz).run c = (.ok (),u)) :
    (Quiet remap ((chunkPack miniz level).run c).2 u → RemapsPacked miniz remap ((chunkPack miniz level).run c).2 u) ∧
    (((chunkPack miniz level).run c).2.Unmoved remap →
      (RemapsPacked miniz remap ((chunkPack miniz level).run c).2 u ↔ (remapped remap u).words = u.words)) := by
  refine ⟨fun quiet => ?_,remapsPacked_unmoved_iff restores unpacked⟩
  rcases quiet with plain | ⟨compressed,plain⟩
  · exact remapsPacked_plain unpacked plain
  · exact (remapsPacked_unmoved_iff restores unpacked compressed).mpr (words_unmoved plain)

end

end

def trackedChunk : Chunk := { chunkVersion := chunkVersion4, chunkOptions := optionIds, data := some [1], ids := [0] }

theorem trackedChunk_remapsPacked :
    RemapsPacked storedMiniz ⟨[⟨3,4⟩]⟩ ((chunkPack storedMiniz 0).run trackedChunk).2 trackedChunk := by
  apply (remapsPacked_when storedMiniz_restores (chunkUnpack_plain rfl)).1
  right
  constructor
  · refine @Unmoved.walked _ ((chunkPack storedMiniz 0).run trackedChunk).2.words _ _ ?_ ?_
    · exact stays_fixed (by decide +kernel)
    · intro child member
      cases member
  · refine @Unmoved.walked _ [1] _ _ ?_ ?_
    · exact stays_fixed (by decide +kernel)
    · intro child member
      cases member

/-- The ID in the packed data keeps its old value. -/
theorem trackedChunk_not_remapped : storedMiniz.Restores ∧
    ¬ RemapsPacked storedMiniz ⟨[⟨1,2⟩]⟩ ((chunkPack storedMiniz 0).run trackedChunk).2 trackedChunk := by
  refine ⟨storedMiniz_restores,?_⟩
  intro ⟨result,ran,same⟩
  have packed : result.words = [1] := by
    rw [← (Prod.mk.inj ran).2]
    decide +kernel
  have direct : (remapped ⟨[⟨1,2⟩]⟩ trackedChunk).words = [2] := by decide +kernel
  rw [packed,direct] at same
  cases same

end Libnmo.Format
