import Libnmo.Format.TrackedIds
import Mathlib.Logic.Function.Iterate
import Mathlib.Data.List.Nodup

/-! The remap of a chunk's data as a change at each tracked position. Where no
tracked position holds the count of a tracked sequence, the counts stay what they
were, and every word is replaced as many times as its position is tracked. -/
namespace Libnmo.Format
open Core Lib Lib.Patch

/-- The entries that stand for the positions of counts. -/
def sequenceHeaders : List UInt32 → List UInt32
  | entry :: next :: rest =>
    if isNegative entry then next :: sequenceHeaders rest else sequenceHeaders (next :: rest)
  | _ => []

/-- No count of a tracked sequence is tracked itself. -/
def Steady (ids data : List UInt32) : Prop :=
  ∀ header ∈ sequenceHeaders ids, header.toNat ∉ trackedPositions ids data

/-- The data are alike in length and in the counts of the tracked sequences. -/
def SameCounts (ids data data' : List UInt32) : Prop :=
  data'.length = data.length ∧ ∀ header ∈ sequenceHeaders ids, data'[header.toNat]? = data[header.toNat]?

section
variable {remap : IdRemap} {entry header : UInt32} {rest ids data data' : List UInt32}

theorem sequenceHeaders_single (single : isNegative entry = false) :
    sequenceHeaders (entry :: rest) = sequenceHeaders rest := by
  cases rest <;> simp [sequenceHeaders,single]

theorem sequenceHeaders_marker (marker : isNegative entry = true) :
    sequenceHeaders (entry :: header :: rest) = header :: sequenceHeaders rest := by
  simp [sequenceHeaders,marker]

theorem sequencePositions_same (length : data'.length = data.length)
    (same : data'[header.toNat]? = data[header.toNat]?) :
    sequencePositions data' header = sequencePositions data header := by
  rw [sequencePositions,sequencePositions,same,length]

/-- The tracked positions depend on the length of the data and on the counts only. -/
theorem trackedPositions_same (same : SameCounts ids data data') :
    trackedPositions ids data' = trackedPositions ids data := by
  obtain ⟨length,counts⟩ := same
  induction ids, data using trackedPositions.induct with
  | case1 => rfl
  | case2 entry data marker => rw [trackedPositions,trackedPositions,if_pos marker,if_pos marker]
  | case3 entry data single => rw [trackedPositions,trackedPositions,if_neg single,if_neg single,singlePositions,
      singlePositions,length]
  | case4 entry next rest data marker ih =>
    rw [sequenceHeaders_marker marker,List.forall_mem_cons] at counts
    rw [trackedPositions_marker marker,trackedPositions_marker marker,sequencePositions_same length counts.1,
      ih length counts.2]
  | case5 entry next rest data single ih =>
    have plain : isNegative entry = false := by simpa using single
    rw [sequenceHeaders_single plain] at counts
    rw [trackedPositions_single plain,trackedPositions_single plain,singlePositions,singlePositions,length,
      ih length counts]

/-- The remap of the words at the positions, one after another. -/
def remapAll (remap : IdRemap) (positions : List Nat) (data : List UInt32) : List UInt32 :=
  positions.foldl (remapIdAt remap) data

theorem length_remapAll (positions : List Nat) : (remapAll remap positions data).length = data.length := by
  induction positions generalizing data with
  | nil => rfl
  | cons p positions ih => exact (ih : (remapAll remap positions (remapIdAt remap data p)).length = _).trans (List.length_modify ..)

theorem getElem?_remapAll (positions : List Nat) (q : Nat) :
    (remapAll remap positions data)[q]? = data[q]?.map (remapSingleId remap)^[positions.count q] := by
  induction positions generalizing data with
  | nil => simp [remapAll]
  | cons p positions ih =>
    have step : (remapAll remap positions (remapIdAt remap data p))[q]? = _ := ih
    rw [remapAll] at step
    rw [remapAll,List.foldl_cons,step,remapIdAt,List.getElem?_modify,List.count_cons]
    by_cases same : p = q
    · simp [same]
    · simp [same]

theorem remapSequence_all : remapSequence remap data header = remapAll remap (sequencePositions data header) data := by
  rw [remapSequence,sequencePositions]
  split
  · rfl
  · cases data[header.toNat]? with
    | none => rfl
    | some count =>
      dsimp only
      split
      · rw [remapAll,List.foldl_map]
      · rfl

theorem remapSingle_all (entry : UInt32) :
    remapIdAt remap data entry.toNat = remapAll remap (singlePositions data entry) data := by
  rw [singlePositions]
  split
  · rfl
  · rename_i outside
    exact List.modify_eq_self (Nat.not_lt.mp outside)

/-- A change at positions that hold no counts keeps the counts. -/
theorem sameCounts_remapAll {positions : List Nat} (apart : ∀ header ∈ sequenceHeaders ids, header.toNat ∉ positions) :
    SameCounts ids data (remapAll remap positions data) := by
  refine ⟨length_remapAll positions,fun header member => ?_⟩
  rw [getElem?_remapAll,List.count_eq_zero.mpr (apart header member)]
  simp

theorem remapAll_append (before after : List Nat) :
    remapAll remap (before ++ after) data = remapAll remap after (remapAll remap before data) := List.foldl_append

/-- The rest of the walk after changes at positions that hold no counts. -/
theorem remap_rest {positions : List Nat}
    (apart : ∀ header ∈ sequenceHeaders rest, header.toNat ∉ positions ++ trackedPositions rest data)
    (ih : ∀ data, Steady rest data → remapChunkData remap rest data = remapAll remap (trackedPositions rest data) data) :
    remapChunkData remap rest (remapAll remap positions data) =
      remapAll remap (positions ++ trackedPositions rest data) data := by
  simp only [List.mem_append,not_or] at apart
  have counts : SameCounts rest data (remapAll remap positions data) :=
    sameCounts_remapAll fun header member => (apart header member).1
  have same := trackedPositions_same counts
  rw [ih _ (by rw [Steady,same]; exact fun header member => (apart header member).2),same,remapAll_append]

/-- Where the counts are not tracked, the walk changes the positions that are tracked before it. -/
theorem remapChunkData_steady (steady : Steady ids data) :
    remapChunkData remap ids data = remapAll remap (trackedPositions ids data) data := by
  induction ids using sequenceHeaders.induct generalizing data with
  | case1 entry header rest marker ih =>
    rw [Steady,sequenceHeaders_marker marker,trackedPositions_marker marker,List.forall_mem_cons] at steady
    rw [remapChunkData_marker marker,trackedPositions_marker marker,remapSequence_all]
    exact remap_rest steady.2 fun data => ih
  | case2 entry next rest single ih =>
    have plain : isNegative entry = false := by simpa using single
    rw [Steady,sequenceHeaders_single plain,trackedPositions_single plain] at steady
    rw [remapChunkData_single plain,trackedPositions_single plain,remapSingle_all]
    exact remap_rest steady fun data => ih
  | case3 ids short =>
    match ids, short with
    | [],_ => rfl
    | [entry],_ =>
      by_cases marker : isNegative entry
      · rw [remapChunkData,trackedPositions,if_pos marker,if_pos marker]
        rfl
      · rw [remapChunkData,trackedPositions,if_neg marker,if_neg marker,remapIdAt_guarded,remapSingle_all]
    | entry :: next :: rest,short => exact (short entry next rest rfl).elim

theorem trackedPositions_remapped (steady : Steady ids data) :
    trackedPositions ids (remapChunkData remap ids data) = trackedPositions ids data := by
  rw [remapChunkData_steady steady]
  exact trackedPositions_same (sameCounts_remapAll steady)

theorem steady_remapped (steady : Steady ids data) : Steady ids (remapChunkData remap ids data) := by
  rw [Steady,trackedPositions_remapped steady]
  exact steady

theorem getElem?_remapped (steady : Steady ids data) (q : Nat) :
    (remapChunkData remap ids data)[q]? =
      data[q]?.map (remapSingleId remap)^[(trackedPositions ids data).count q] := by
  rw [remapChunkData_steady steady,getElem?_remapAll]

end

end Libnmo.Format

/-! Lookup in a remap table whose old IDs are distinct, and the table that undoes
it. An ID is replaced unless it or its new ID is the reserved ID zero. -/
namespace Libnmo.Format
open Core Lib

def IdRemap.oldIds (remap : IdRemap) : List UInt32 := remap.entries.map IdRemapEntry.oldId

def IdRemap.newIds (remap : IdRemap) : List UInt32 := remap.entries.map IdRemapEntry.newId

def IdRemap.inverse (remap : IdRemap) : IdRemap := ⟨remap.entries.map fun entry => ⟨entry.newId,entry.oldId⟩⟩

section
variable {remap : IdRemap} {id newId : UInt32}

theorem oldIds_inverse : remap.inverse.oldIds = remap.newIds := by
  simp [IdRemap.oldIds,IdRemap.newIds,IdRemap.inverse]

theorem lookup_member (distinct : remap.oldIds.Nodup) (member : ⟨id,newId⟩ ∈ remap.entries) :
    idRemapLookupId remap id = .ok newId := by
  have found : remap.entries.find? (fun entry => entry.oldId = id) = some ⟨id,newId⟩ := by
    obtain ⟨entries⟩ := remap
    change (entries.map IdRemapEntry.oldId).Nodup at distinct
    change _ ∈ entries at member
    induction entries with
    | nil => simp at member
    | cons entry entries ih =>
      rw [List.map_cons,List.nodup_cons] at distinct
      rw [List.find?_cons]
      rcases List.mem_cons.mp member with rfl | later
      · simp
      · have other : entry.oldId ≠ id := fun same => distinct.1 (same ▸ List.mem_map_of_mem later)
        simp only [decide_eq_false other]
        exact ih distinct.2 later
  rw [idRemapLookupId,found]

theorem lookup_absent (absent : id ∉ remap.oldIds) :
    idRemapLookupId remap id = .error (.error .notFound "ID not found in remap table") := by
  have none : remap.entries.find? (fun entry => entry.oldId = id) = none := by
    rw [List.find?_eq_none]
    intro entry member same
    exact absent (List.mem_map.mpr ⟨entry,member,of_decide_eq_true same⟩)
  rw [idRemapLookupId,none]

theorem remapSingleId_member (distinct : remap.oldIds.Nodup) (member : ⟨id,newId⟩ ∈ remap.entries) (some : id ≠ 0)
    (some' : newId ≠ 0) : remapSingleId remap id = newId := by
  rw [remapSingleId,if_neg some,lookup_member distinct member]
  by_cases same : newId = id
  · simp [same]
  · simp [some',same]

/-- An ID whose new ID is the reserved one stays what it is. -/
theorem remapSingleId_reserved (distinct : remap.oldIds.Nodup) (member : ⟨id,0⟩ ∈ remap.entries) :
    remapSingleId remap id = id := by
  rw [remapSingleId,lookup_member distinct member]
  simp

theorem remapSingleId_absent (absent : id ∉ remap.oldIds) : remapSingleId remap id = id := by
  rw [remapSingleId,lookup_absent absent]
  simp

end

end Libnmo.Format
