import Libnmo.Format.Header1Written
import Mathlib.Algebra.BigOperators.Group.List.Basic

/-! The size of a data section. A record whose size field is set is counted by that
field, and one with raw data by its raw data even when there is none in it; the writer
takes the size from the chunk in both cases. -/
namespace Libnmo.Format
open Core Lib Lib.LittleEndian

def objectBytes (fileVersion : UInt32) (o : ObjectData) : List UInt8 :=
  (if fileVersion < 7 then wordBytes 0 else []) ++ recordBytes o.chunk

def sectionBytes (s : DataSection) (fileVersion : UInt32) : List UInt8 :=
  s.managers.flatMap managerBytes ++ s.objects.flatMap (objectBytes fileVersion)

section Writing
variable {bufferSize : Nat}

theorem recordPayload_eq (chunk : Option Chunk) :
    recordPayload chunk = .ok (chunkBytes chunk,(chunkBytes chunk).length) := by
  cases chunk with
  | none => rfl
  | some c => exact chunkPayload_eq c

theorem puts_putChunk (chunk : Option Chunk) (sizeMessage dataMessage : String) :
    Puts bufferSize (putChunk bufferSize chunk sizeMessage dataMessage) (recordBytes chunk) := by
  have data : Puts bufferSize (if (chunkBytes chunk).length > 0 then put bufferSize (chunkBytes chunk) dataMessage
      else pure ()) (chunkBytes chunk) := by
    split
    · exact puts_put _ _
    · rename_i empty
      rw [List.length_eq_zero_iff.mp (Nat.eq_zero_of_not_pos empty)]
      exact puts_pure
  have fields := puts_bind (puts_put (wordBytes (UInt32.ofNat (chunkBytes chunk).length)) sizeMessage) data
  intro written inside
  rw [putChunk,recordPayload_eq,Action.bind_ok _ (Action.lift_apply _ _)]
  exact fields written inside

theorem puts_putManager (m : ManagerData) : Puts bufferSize (putManager bufferSize m) (managerBytes m) :=
  puts_bind (puts_put _ _) (puts_putChunk _ _ _)

theorem puts_putObject (fileVersion : UInt32) (o : ObjectData) :
    Puts bufferSize (putObject fileVersion bufferSize o) (objectBytes fileVersion o) := by
  refine puts_bind ?_ (puts_putChunk _ _ _)
  split
  · exact puts_put _ _
  · exact puts_pure

theorem puts_putSection (s : DataSection) (fileVersion : UInt32) :
    Puts bufferSize (putSection s fileVersion bufferSize) (sectionBytes s fileVersion) :=
  puts_bind (puts_putEach s.managers fun m _ => puts_putManager m)
    (puts_putEach s.objects fun o _ => puts_putObject fileVersion o)

end Writing

section Capacity
variable {bufferSize : Nat}

/-- What is written so far is inside the buffer. -/
def Inside (bufferSize : Nat) (written : List UInt8) : Prop := written.length ≤ bufferSize

theorem inside_put (bytes : List UInt8) (message : String) :
    Action.Keeps (Inside bufferSize) (put bufferSize bytes message) := by
  intro written inside
  rw [put]
  dsimp only
  split
  · exact inside
  · rename_i fits
    rw [Inside,List.length_append]
    exact Nat.not_lt.mp fits

theorem inside_putChunk (chunk : Option Chunk) (sizeMessage dataMessage : String) :
    Action.Keeps (Inside bufferSize) (putChunk bufferSize chunk sizeMessage dataMessage) := by
  refine Action.keeps_bind (Action.keeps_lift _) fun chunkData => Action.keeps_bind (inside_put _ _) fun _ => ?_
  split
  · exact inside_put _ _
  · exact Action.keeps_pure _

theorem inside_putManager (m : ManagerData) : Action.Keeps (Inside bufferSize) (putManager bufferSize m) :=
  Action.keeps_bind (inside_put _ _) fun _ => inside_putChunk _ _ _

theorem inside_putObject (fileVersion : UInt32) (o : ObjectData) :
    Action.Keeps (Inside bufferSize) (putObject fileVersion bufferSize o) := by
  refine Action.keeps_bind ?_ fun _ => inside_putChunk _ _ _
  split
  · exact inside_put _ _
  · exact Action.keeps_pure _

theorem inside_putEach {α : Type} {step : α → Run (List UInt8) Unit}
    (each : ∀ a, Action.Keeps (Inside bufferSize) (step a)) (items : List α) :
    Action.Keeps (Inside bufferSize) (putEach step items) := by
  induction items with
  | nil => exact Action.keeps_pure _
  | cons a rest ih => exact Action.keeps_bind (each a) fun _ => ih

/-- Every check comes before its write. -/
theorem inside_putSection (s : DataSection) (fileVersion : UInt32) :
    Action.Keeps (Inside bufferSize) (putSection s fileVersion bufferSize) :=
  Action.keeps_bind (inside_putEach inside_putManager s.managers) fun _ =>
    inside_putEach (inside_putObject fileVersion) s.objects

end Capacity

section Serialized
variable {s : DataSection} {fileVersion : UInt32} {bufferSize : Nat}

theorem dataSectionSerialize_fits (fits : (sectionBytes s fileVersion).length ≤ bufferSize) :
    dataSectionSerialize s fileVersion bufferSize = .ok (sectionBytes s fileVersion) := by
  have room : ([] : List UInt8).length + (sectionBytes s fileVersion).length ≤ bufferSize := by
    rwa [List.length_nil,Nat.zero_add]
  rw [dataSectionSerialize,(puts_putSection s fileVersion [] (Nat.zero_le _)).1 room]
  rfl

theorem dataSectionSerialize_ok {bytes : List UInt8} (ok : dataSectionSerialize s fileVersion bufferSize = .ok bytes) :
    (sectionBytes s fileVersion).length ≤ bufferSize ∧ bytes = sectionBytes s fileVersion := by
  rw [dataSectionSerialize] at ok
  split at ok
  · rename_i written run
    have room := (puts_putSection s fileVersion [] (Nat.zero_le _)).2 written run
    have same := (puts_putSection s fileVersion).success (Nat.zero_le _) run
    rw [List.length_nil,Nat.zero_add] at room
    exact ⟨room,(Except.ok.inj ok).symm.trans same⟩
  · cases ok

end Serialized

/-- The size field and the chunk of every record. -/
def DataSection.records (s : DataSection) : List (UInt32 × Option Chunk) :=
  s.managers.map (fun m => (m.dataSize,m.chunk)) ++ s.objects.map fun o => (o.dataSize,o.chunk)

def chunkSize : Option Chunk → Nat
  | none => 0
  | some c => match cachedBytes c with
    | some raw => raw.length
    | none => chunkCalcSize c

/-- The record is counted by its size field: it is set, or the raw data is there and empty. -/
def Counted (record : UInt32 × Option Chunk) : Prop :=
  record.1 > 0 ∨ record.2.bind Chunk.rawData = some []

instance : DecidablePred Counted := fun _ => inferInstanceAs (Decidable (_ ∨ _))

section Sizes
variable {s : DataSection} {fileVersion : UInt32}

theorem length_chunkBytes (chunk : Option Chunk) : (chunkBytes chunk).length = chunkSize chunk := by
  cases chunk with
  | none => rfl
  | some c =>
    rw [chunkSize]
    change (payload c).length = _
    rw [payload]
    cases cachedBytes c with
    | none => rw [Option.getD_none,length_encodeWords,length_treeWords]
    | some raw => rfl

theorem chunkSizeOf_counted {record : UInt32 × Option Chunk} (counted : Counted record) :
    chunkSizeOf record.1 record.2 = record.1.toNat := by
  unfold chunkSizeOf
  split
  · rfl
  · rename_i unset
    have zero : record.1.toNat = 0 := by
      rw [gt_iff_lt,UInt32.lt_iff_toNat_lt] at unset
      exact Nat.eq_zero_of_not_pos unset
    rcases counted with set | empty
    · exact absurd set unset
    · obtain ⟨c,found,raw⟩ := Option.bind_eq_some_iff.mp empty
      rw [found,zero]
      dsimp only
      rw [raw]
      rfl

theorem chunkSizeOf_measured {record : UInt32 × Option Chunk} (measured : ¬ Counted record) :
    chunkSizeOf record.1 record.2 = chunkSize record.2 := by
  rw [Counted,not_or] at measured
  obtain ⟨unset,some⟩ := measured
  unfold chunkSizeOf
  rw [if_neg unset]
  cases found : record.2 with
  | none => rfl
  | some c =>
    rw [found] at some
    rw [chunkSize,cachedBytes]
    dsimp only
    cases raw : c.rawData with
    | none =>
      dsimp only
      rw [chunkSerialize_eq]
    | some bytes =>
      dsimp only
      have positive : 0 < bytes.length := by
        apply List.length_pos_iff.mpr
        rintro rfl
        exact some raw
      rw [if_pos positive]

theorem calculateSize_eq (s : DataSection) (fileVersion : UInt32) : dataSectionCalculateSize s fileVersion =
    s.managers.length * 12 + s.objects.length * ((if fileVersion < 7 then 4 else 0) + 4) +
      (s.records.map fun record => chunkSizeOf record.1 record.2).sum := by
  rw [dataSectionCalculateSize,DataSection.records,List.map_append,List.sum_append,List.map_map,List.map_map]
  simp only [List.sum_map_add,List.map_const',List.sum_replicate_nat,Function.comp_def]
  omega

theorem length_objectBytes (fileVersion : UInt32) (o : ObjectData) : (objectBytes fileVersion o).length =
    (if fileVersion < 7 then 4 else 0) + 4 + chunkSize o.chunk := by
  rw [objectBytes,List.length_append,recordBytes,List.length_append,length_wordBytes,length_chunkBytes]
  split
  · rw [length_wordBytes,Nat.add_assoc]
  · rw [List.length_nil,Nat.add_assoc]

theorem length_sectionBytes (s : DataSection) (fileVersion : UInt32) : (sectionBytes s fileVersion).length =
    s.managers.length * 12 + s.objects.length * ((if fileVersion < 7 then 4 else 0) + 4) +
      (s.records.map fun record => chunkSize record.2).sum := by
  have manager (m : ManagerData) : (managerBytes m).length = 12 + chunkSize m.chunk := by
    rw [managerBytes,recordBytes,List.length_append,List.length_append,List.length_append,length_wordBytes,
      length_wordBytes,length_wordBytes,length_chunkBytes,← Nat.add_assoc]
  rw [sectionBytes,List.length_append,List.length_flatMap,List.length_flatMap,DataSection.records,List.map_append,
    List.sum_append,List.map_map,List.map_map]
  simp only [manager,length_objectBytes,List.sum_map_add,List.map_const',List.sum_replicate_nat,
    Function.comp_def]
  omega

/-- Measures that differ on the selected items only have the same total when they have it there. -/
theorem sum_agree_iff {α : Type} (selected : α → Prop) [DecidablePred selected] {left right : α → Nat}
    (same : ∀ a, ¬ selected a → left a = right a) (items : List α) : (items.map left).sum = (items.map right).sum ↔
      ((items.filter selected).map left).sum = ((items.filter selected).map right).sum := by
  have others : (items.filter fun a => ¬ selected a).map left = (items.filter fun a => ¬ selected a).map right := by
    apply List.map_congr_left
    intro a member
    exact same a (of_decide_eq_true (List.mem_filter.mp member).2)
  rw [← List.sum_map_filter_add_sum_map_filter_not selected left,
    ← List.sum_map_filter_add_sum_map_filter_not selected right,others]
  exact Nat.add_right_cancel_iff

theorem calculateSize_iff (s : DataSection) (fileVersion : UInt32) :
    dataSectionCalculateSize s fileVersion = (sectionBytes s fileVersion).length ↔
    ((s.records.filter Counted).map fun record => record.1.toNat).sum =
      ((s.records.filter Counted).map fun record => chunkSize record.2).sum := by
  have counted : (s.records.filter Counted).map (fun record => chunkSizeOf record.1 record.2) =
      (s.records.filter Counted).map fun record => record.1.toNat := by
    apply List.map_congr_left
    intro record member
    exact chunkSizeOf_counted (of_decide_eq_true (List.mem_filter.mp member).2)
  rw [calculateSize_eq,length_sectionBytes,Nat.add_left_cancel_iff,
    sum_agree_iff Counted (fun record => chunkSizeOf_measured),counted]

end Sizes

/-- The size that is calculated is the size that is written, and the room that it takes. -/
structure Sized (s : DataSection) (fileVersion : UInt32) : Prop where
  written : ∀ bufferSize bytes, dataSectionSerialize s fileVersion bufferSize = .ok bytes →
    dataSectionCalculateSize s fileVersion = bytes.length
  inside : ∀ bufferSize, ((putSection s fileVersion bufferSize).run []).2.length ≤ bufferSize
  enough : ∀ bufferSize, (∃ bytes, dataSectionSerialize s fileVersion bufferSize = .ok bytes) ↔
    dataSectionCalculateSize s fileVersion ≤ bufferSize

/-- The calculation is right just when the size fields that it goes by have the total of their chunks. -/
theorem sized_iff (s : DataSection) (fileVersion : UInt32) : Sized s fileVersion ↔
    ((s.records.filter Counted).map fun record => record.1.toNat).sum =
      ((s.records.filter Counted).map fun record => chunkSize record.2).sum := by
  rw [← calculateSize_iff s fileVersion]
  constructor
  · intro sized
    exact sized.written _ _ (dataSectionSerialize_fits (Nat.le_refl _))
  · intro same
    refine ⟨?_,?_,?_⟩
    · intro bufferSize bytes ok
      rw [same,(dataSectionSerialize_ok ok).2]
    · intro bufferSize
      exact inside_putSection s fileVersion [] (Nat.zero_le _)
    · intro bufferSize
      rw [same]
      constructor
      · rintro ⟨bytes,ok⟩
        exact (dataSectionSerialize_ok ok).1
      · intro room
        exact ⟨_,dataSectionSerialize_fits room⟩

/-- A size field without a chunk: nine bytes are calculated and four are written. -/
theorem chunklessObject_counted : ¬ ∀ s fileVersion, Sized s fileVersion := by
  intro sized
  have size := (sized { objects := [{ dataSize := 5 }] } 8).written 100 _ rfl
  cases size

end Libnmo.Format
