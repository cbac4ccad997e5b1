import Libnmo.Format.ChunkRemap

/-! The positions that an `ids` list stands for, and the remap of a stretch of
data that the list tracks. Entries are single positions or a marker followed by
the position of a counted sequence; the walk is followed stretch by stretch, each
between the words before it and the words after it. -/
namespace Libnmo.Format
open Core Lib Lib.Patch

/-- What a table makes of an ID: its entry, or the ID itself where it has none. -/
def mappedId (remap : IdRemap) (id : UInt32) : UInt32 :=
  match idRemapLookupId remap id with
  | .ok newId => newId
  | .error _ => id

def singlePositions (data : List UInt32) (entry : UInt32) : List Nat :=
  if entry.toNat < data.length then [entry.toNat] else []

def sequencePositions (data : List UInt32) (header : UInt32) : List Nat :=
  if isNegative header then []
  else match data[header.toNat]? with
    | none => []
    | some count =>
      if ¬ isNegative count ∧ 0 < count ∧ header.toNat + 1 + count.toNat ≤ data.length then
        (List.range count.toNat).map (header.toNat + 1 + ·)
      else []

/-- The positions that an `ids` list tracks in the data. -/
def trackedPositions : List UInt32 → List UInt32 → List Nat
  | [],_ => []
  | [entry],data => if isNegative entry then [] else singlePositions data entry
  | entry :: next :: rest,data =>
    if isNegative entry then sequencePositions data next ++ trackedPositions rest data
    else singlePositions data entry ++ trackedPositions (next :: rest) data

section Entries
variable {remap : IdRemap} {rest data : List UInt32}

theorem isNegative_ofNat {pos : Nat} (small : pos < 2 ^ 31) : isNegative (UInt32.ofNat pos) = false := by
  have value : (UInt32.ofNat pos).toNat = pos := by
    rw [UInt32.toNat_ofNat']
    omega
  simp only [isNegative,decide_eq_false_iff_not,UInt32.le_iff_toNat_le,value]
  change ¬ 2 ^ 31 ≤ pos
  omega

theorem toNat_position {pos : Nat} (small : pos < 2 ^ 31) : (UInt32.ofNat pos).toNat = pos := by
  rw [UInt32.toNat_ofNat']
  omega

theorem remapSingleId_zero (remap : IdRemap) : remapSingleId remap 0 = 0 := rfl

/-- The bound check decides nothing for the words: no word lies beyond it. -/
theorem remapIdAt_guarded (offset : Nat) :
    (if offset < data.length then remapIdAt remap data offset else data) = remapIdAt remap data offset := by
  split
  · rfl
  · rename_i outside
    exact (List.modify_eq_self (Nat.not_lt.mp outside)).symm

theorem remapChunkData_single {entry : UInt32} (single : isNegative entry = false) :
    remapChunkData remap (entry :: rest) data = remapChunkData remap rest (remapIdAt remap data entry.toNat) := by
  cases rest <;> simp [remapChunkData,single,remapIdAt_guarded]

theorem remapChunkData_marker {entry header : UInt32} (marker : isNegative entry = true) :
    remapChunkData remap (entry :: header :: rest) data =
      remapChunkData remap rest (remapSequence remap data header) := by
  simp [remapChunkData,marker]

theorem trackedPositions_single {entry : UInt32} (single : isNegative entry = false) :
    trackedPositions (entry :: rest) data = singlePositions data entry ++ trackedPositions rest data := by
  cases rest <;> simp [trackedPositions,single]

theorem trackedPositions_marker {entry header : UInt32} (marker : isNegative entry = true) :
    trackedPositions (entry :: header :: rest) data = sequencePositions data header ++ trackedPositions rest data := by
  simp [trackedPositions,marker]

end Entries

/-- The entries for a stretch of object IDs from a position on: one for each that is not zero. -/
def idEntries (pos : Nat) : List UInt32 → List UInt32
  | [] => []
  | id :: ids => if id ≠ 0 then UInt32.ofNat pos :: idEntries (pos + 1) ids else idEntries (pos + 1) ids

/-- The positions of those entries. -/
def idPositions (pos : Nat) : List UInt32 → List Nat
  | [] => []
  | id :: ids => if id ≠ 0 then pos :: idPositions (pos + 1) ids else idPositions (pos + 1) ids

section Stretches
variable {remap : IdRemap} {rest : List UInt32}

theorem remapSingleId_eq_zero (id : UInt32) : remapSingleId remap id = 0 ↔ id = 0 := by
  constructor
  · intro zero
    by_contra some
    rw [remapSingleId,if_neg some] at zero
    split at zero
    · split at zero
      · rename_i newId _ both
        exact both.1 zero
      · exact some zero
    · exact some zero
  · rintro rfl
    rfl

variable (remap) in
/-- A remap makes no ID zero and leaves zero alone, so the same entries track its result. -/
theorem idEntries_remapped (pos : Nat) (ids : List UInt32) :
    idEntries pos (ids.map (remapSingleId remap)) = idEntries pos ids := by
  induction ids generalizing pos with
  | nil => rfl
  | cons id ids ih => simp only [List.map_cons,idEntries,ne_eq,remapSingleId_eq_zero,ih]

variable (remap rest) in
theorem remapChunkData_idEntries (before ids after : List UInt32)
    (small : before.length + ids.length ≤ 2 ^ 31) :
    remapChunkData remap (idEntries before.length ids ++ rest) (before ++ ids ++ after) =
      remapChunkData remap rest (before ++ ids.map (remapSingleId remap) ++ after) := by
  induction ids generalizing before with
  | nil => rfl
  | cons id ids ih =>
    simp only [List.length_cons] at small
    have next := ih (before ++ [remapSingleId remap id]) (by simp; omega)
    simp only [List.length_append,List.length_singleton,List.append_assoc,List.cons_append,
      List.nil_append] at next
    rw [idEntries,List.map_cons,List.append_assoc,List.cons_append,List.append_assoc,List.cons_append]
    split
    · rw [List.cons_append,remapChunkData_single (isNegative_ofNat (by omega)),toNat_position (by omega),remapIdAt,
        modify_between,next]
    · rename_i zero
      obtain rfl : id = 0 := by simpa using zero
      rw [remapSingleId_zero] at next ⊢
      exact next

variable (remap) in
/-- The loop over a sequence, after any number of its rounds. -/
theorem remapRounds (before ids after : List UInt32) (rounds : Nat) (inside : rounds ≤ ids.length) :
    (List.range rounds).foldl (fun data k => remapIdAt remap data (before.length + k)) (before ++ ids ++ after) =
      before ++ ((ids.take rounds).map (remapSingleId remap) ++ ids.drop rounds) ++ after := by
  induction rounds with
  | zero => simp
  | succ rounds ih =>
    have split : ids.drop rounds = ids[rounds] :: ids.drop (rounds + 1) := List.drop_eq_getElem_cons inside
    have length : (before ++ (ids.take rounds).map (remapSingleId remap)).length = before.length + rounds := by
      simp
      omega
    have changed := modify_between (remapSingleId remap) (before ++ (ids.take rounds).map (remapSingleId remap))
      ids[rounds] (ids.drop (rounds + 1) ++ after)
    rw [length] at changed
    rw [List.range_succ,List.foldl_append,ih (by omega),split,List.take_succ_eq_append_getElem inside]
    simp only [List.foldl_cons,List.foldl_nil,remapIdAt,List.map_append,List.map_cons,List.map_nil]
    simpa only [List.append_assoc,List.cons_append,List.nil_append,List.singleton_append] using changed

/-- The condition under which the walk takes a header for a sequence, where a writer put one. -/
theorem sequence_guard (before ids after : List UInt32) (nonempty : ids ≠ [])
    (small : before.length + 1 + ids.length ≤ 2 ^ 31) :
    isNegative (UInt32.ofNat before.length) = false ∧ (UInt32.ofNat before.length).toNat = before.length ∧
      (before ++ UInt32.ofNat ids.length :: (ids ++ after))[before.length]? = some (UInt32.ofNat ids.length) ∧
      (UInt32.ofNat ids.length).toNat = ids.length ∧
      (¬ isNegative (UInt32.ofNat ids.length) ∧ 0 < UInt32.ofNat ids.length ∧
        before.length + 1 + ids.length ≤ (before ++ UInt32.ofNat ids.length :: (ids ++ after)).length) := by
  have positive := List.length_pos_iff.mpr nonempty
  have count : (UInt32.ofNat ids.length).toNat = ids.length := toNat_position (by omega)
  refine ⟨isNegative_ofNat (by omega),toNat_position (by omega),by simp,count,?_,?_,?_⟩
  · rw [isNegative_ofNat (by omega)]
    exact Bool.false_ne_true
  · rw [UInt32.lt_iff_toNat_lt,count]
    exact positive
  · simp
    omega

theorem remapSequence_between (before ids after : List UInt32) (nonempty : ids ≠ [])
    (small : before.length + 1 + ids.length ≤ 2 ^ 31) :
    remapSequence remap (before ++ UInt32.ofNat ids.length :: (ids ++ after)) (UInt32.ofNat before.length) =
      before ++ UInt32.ofNat ids.length :: (ids.map (remapSingleId remap) ++ after) := by
  obtain ⟨plain,header,found,count,guard⟩ := sequence_guard before ids after nonempty small
  have rounds := remapRounds remap (before ++ [UInt32.ofNat ids.length]) ids after ids.length
    (Nat.le_refl _)
  simp only [List.length_append,List.length_singleton,List.append_assoc,List.cons_append,List.nil_append,
    List.take_length,List.drop_length,List.append_nil] at rounds
  rw [remapSequence,plain,if_neg Bool.false_ne_true,header,found]
  simp only [count]
  rw [if_pos guard,rounds]

theorem sequencePositions_between (before ids after : List UInt32) (nonempty : ids ≠ [])
    (small : before.length + 1 + ids.length ≤ 2 ^ 31) :
    sequencePositions (before ++ UInt32.ofNat ids.length :: (ids ++ after)) (UInt32.ofNat before.length) =
      (List.range ids.length).map (before.length + 1 + ·) := by
  obtain ⟨plain,header,found,count,guard⟩ := sequence_guard before ids after nonempty small
  rw [sequencePositions,plain,if_neg Bool.false_ne_true,header,found]
  simp only [count]
  rw [if_pos guard]

variable (rest) in
theorem trackedPositions_idEntries (data ids : List UInt32) (pos : Nat) (inside : pos + ids.length ≤ data.length)
    (small : pos + ids.length ≤ 2 ^ 31) :
    trackedPositions (idEntries pos ids ++ rest) data = idPositions pos ids ++ trackedPositions rest data := by
  induction ids generalizing pos with
  | nil => rfl
  | cons id ids ih =>
    simp only [List.length_cons] at inside small
    have next := ih (pos + 1) (by omega) (by omega)
    rw [idEntries,idPositions]
    split
    · rw [List.cons_append,trackedPositions_single (isNegative_ofNat (by omega)),singlePositions,
        toNat_position (by omega),if_pos (by omega),next,List.singleton_append,List.cons_append]
    · exact next

theorem mem_idPositions (ids : List UInt32) (pos p : Nat) :
    p ∈ idPositions pos ids ↔ ∃ k id, p = pos + k ∧ ids[k]? = some id ∧ id ≠ 0 := by
  induction ids generalizing pos with
  | nil => simp [idPositions]
  | cons id ids ih =>
    have step : (∃ k word, p = pos + k ∧ (id :: ids)[k]? = some word ∧ word ≠ 0) ↔
        (p = pos ∧ id ≠ 0) ∨ ∃ k word, p = pos + 1 + k ∧ ids[k]? = some word ∧ word ≠ 0 := by
      constructor
      · rintro ⟨k,word,at_,found,some⟩
        cases k with
        | zero => exact .inl ⟨at_,by simp at found; exact found ▸ some⟩
        | succ k => exact .inr ⟨k,word,by omega,by simpa using found,some⟩
      · rintro (⟨at_,some⟩ | ⟨k,word,at_,found,some⟩)
        · exact ⟨0,id,at_,rfl,some⟩
        · exact ⟨k + 1,word,by omega,by simpa using found,some⟩
    rw [step,idPositions,← ih (pos + 1)]
    split
    · rename_i some
      simp [some]
    · rename_i zero
      simp [zero]

end Stretches

end Libnmo.Format
