import Libnmo.Format.DataSectionRoundTrip
import Mathlib.Algebra.Order.BigOperators.Group.List
import Mathlib.Algebra.Order.Ring.Nat

/-! The layout of the data section by file version. Before version 7 every object
record starts with an ID, before version 6 there are no manager records and before
version 4 no object records; a section is written in the latest layout, which an
older parse cannot read back. -/
namespace Libnmo.Format
open Core Lib Lib.LittleEndian Lib.Cursor

/-- The chunk of a record comes back, with the size that was written for it. -/
def Recovered (chunk : Option Chunk) (record : UInt32 × Option Chunk) : Prop :=
  record.1.toNat = (chunkBytes chunk).length ∧ RecordSame chunk record.2

def ManagerRecovered (m back : ManagerData) : Prop :=
  back.guid = m.guid ∧ Recovered m.chunk (back.dataSize,back.chunk)

def ObjectRecovered (o back : ObjectData) : Prop := Recovered o.chunk (back.dataSize,back.chunk)

/-- The chunk survives the change of codec, in a record whose size fits its field. -/
def RecordFits (chunk : Option Chunk) : Prop := ∀ c, chunk = some c → (payload c).length < 2 ^ 32 ∧ Survives c

section Recovering
variable {buffer : List UInt8}

/-- The size that is read is the size field, cut to 32 bits where it was written. -/
theorem parseChunkData_size {chunk : Option Chunk} {pos next : Nat} {rest : List UInt8}
    {record : UInt32 × Option Chunk} (ahead : Ahead buffer pos (recordBytes chunk ++ rest))
    (ok : (parseChunkData buffer).run pos = (.ok record,next)) :
    record.1 = UInt32.ofNat (chunkBytes chunk).length := by
  rw [recordBytes,List.append_assoc] at ahead
  obtain ⟨between,run,_⟩ := reads_nextU32Le _ pos _ ahead
  rw [parseChunkData,Action.bind_ok _ (checkBufferSize_ahead ahead (by simp)),Action.bind_ok _ run] at ok
  split at ok
  · obtain ⟨_,_,_,ok⟩ := Action.bind_success ok
    obtain ⟨chunk,_,rfl⟩ := return_success (f := fun chunk => (_,some chunk)) ok
    rfl
  · simp only [Action.pure_apply,Prod.mk.injEq,Except.ok.injEq] at ok
    rw [← ok.1]

theorem chunkBytes_small {chunk : Option Chunk} (fits : RecordFits chunk) : (chunkBytes chunk).length < 2 ^ 32 := by
  cases chunk with
  | none => decide
  | some c => exact (fits c rfl).1

theorem decides_recovered (chunk : Option Chunk) :
    Decides buffer (parseChunkData buffer) (recordBytes chunk) (RecordFits chunk) (Recovered chunk) := by
  by_cases small : (chunkBytes chunk).length < 2 ^ 32
  · have sized : RawSized chunk := by
      rintro c rfl raw found
      by_cases nonempty : 0 < raw.length
      · have cached : cachedBytes c = some raw := by simp [cachedBytes,found,nonempty]
        simpa [chunkBytes,payload,cached] using small
      · omega
    have fits : RecordFits chunk ↔ RecordSurvives chunk := by
      constructor
      · exact fun fits c same => (fits c same).2
      · rintro survives c rfl
        exact ⟨small,survives c rfl⟩
    rw [show RecordFits chunk = RecordSurvives chunk from propext fits]
    refine (decides_chunkData chunk sized).also fun _ pos rest record next ahead ok => ?_
    rw [parseChunkData_size ahead ok,UInt32.toNat_ofNat']
    exact Nat.mod_eq_of_lt small
  · intro pos rest ahead
    refine .inr ⟨fun fits => small (chunkBytes_small fits),fun record next run same => small ?_⟩
    rw [← same.1]
    exact record.1.toNat_lt

end Recovering

section Layout
variable {buffer : List UInt8}

theorem takes_checkBufferSize (needed : Nat) : Takes buffer (checkBufferSize buffer needed) fun input _ => input = [] := by
  intro pos value next inside run
  simp only [checkBufferSize] at run
  split at run
  · simp only [Prod.mk.injEq,true_and] at run
    subst run
    exact ⟨[],buffer.drop pos,rfl,⟨inside,rfl⟩,⟨inside,rfl⟩⟩
  · simp at run

/-- A chunk is parsed from as many bytes as were checked for it. -/
theorem takes_checkedChunk (dataSize : UInt32) : Takes buffer (do
    checkBufferSize buffer dataSize.toNat
    let chunk ← parseChunkAt buffer dataSize.toNat
    pure (dataSize,some chunk)) fun input record => input.length = dataSize.toNat ∧ record.1 = dataSize := by
  intro pos record next inside run
  obtain ⟨_,_,checked,run⟩ := Action.bind_success run
  obtain ⟨chunk,parsed,rfl⟩ := return_success (f := fun chunk => (dataSize,some chunk)) run
  simp only [checkBufferSize] at checked
  split at checked
  · rename_i room
    simp only [Prod.mk.injEq,true_and] at checked
    subst checked
    simp only [parseChunkAt] at parsed
    split at parsed
    · simp only [Prod.mk.injEq,Except.ok.injEq] at parsed
      obtain ⟨-,rfl⟩ := parsed
      have whole : pos + dataSize.toNat ≤ buffer.length := by omega
      exact ⟨_,_,⟨length_slice buffer pos _ whole,rfl⟩,slice_ahead whole⟩
    · simp at parsed
  · simp at checked

theorem takes_parseChunkData : Takes buffer (parseChunkData buffer) fun input record =>
    input.length = 4 + record.1.toNat := by
  have body (dataSize : UInt32) : Takes buffer (if dataSize > 0 then do
      checkBufferSize buffer dataSize.toNat
      let chunk ← parseChunkAt buffer dataSize.toNat
      pure (dataSize,some chunk)
    else pure (dataSize,none)) fun input record => input.length = dataSize.toNat ∧ record.1 = dataSize := by
    split
    · exact takes_checkedChunk dataSize
    · rename_i zero
      rw [gt_iff_lt,UInt32.lt_iff_toNat_lt] at zero
      refine (takes_pure (dataSize,none)).imp fun input record empty => ⟨?_,by rw [empty.2]⟩
      rw [empty.1]
      exact (Nat.eq_zero_of_not_pos zero).symm
  refine (takes_check (takes_checkBufferSize 4) fun _ => takes_field takes_nextU32Le body).imp ?_
  rintro input record ⟨dataSize,_,rfl,length,same⟩
  simp [length,same]

theorem takes_parseManagerData : Takes buffer (parseManagerData buffer) fun input back =>
    input.length = 12 + back.dataSize.toNat := by
  refine (takes_check (takes_checkBufferSize 8) fun _ => takes_field takes_nextU32Le fun _ =>
    takes_field takes_nextU32Le fun _ => takes_return _ takes_parseChunkData).imp ?_
  rintro input back ⟨_,_,rfl,_,_,rfl,record,length,rfl⟩
  simp [length]
  omega

theorem takes_parseObjectData {fileVersion : UInt32} (early : fileVersion < 7) :
    Takes buffer (parseObjectData buffer fileVersion) fun input back => input.length = 8 + back.dataSize.toNat := by
  rw [parseObjectData,skipObjectId,if_pos early]
  refine (takes_bind (takes_check (takes_checkBufferSize 4) fun _ => takes_return _ takes_nextU32Le)
    fun _ => takes_return _ takes_parseChunkData).imp ?_
  rintro input back ⟨_,_,_,rfl,⟨_,rfl,_⟩,record,length,rfl⟩
  simp [length]
  omega

/-- An early parse takes four bytes more for every object than the latest layout has. -/
theorem takes_parseRecords_early {fileVersion : UInt32} (early : fileVersion < 7) (managerCount objectCount : UInt32) :
    Takes buffer (parseRecords buffer fileVersion managerCount objectCount) fun input records =>
      input.length = (records.1.map fun m => 12 + m.dataSize.toNat).sum +
        (records.2.map fun o => 8 + o.dataSize.toNat).sum := by
  have managers : Takes buffer (if fileVersion ≥ 6 ∧ managerCount > 0 then
      (parseManagerData buffer).times managerCount.toNat else pure []) fun input found =>
      input.length = (found.map fun m => 12 + m.dataSize.toNat).sum := by
    split
    · exact takes_times_length _ takes_parseManagerData _
    · exact (takes_pure []).imp fun input found none => by simp [none]
  have objects : Takes buffer (if fileVersion ≥ 4 ∧ objectCount > 0 then
      (parseObjectData buffer fileVersion).times objectCount.toNat else pure []) fun input found =>
      input.length = (found.map fun o => 8 + o.dataSize.toNat).sum := by
    split
    · exact takes_times_length _ (takes_parseObjectData early) _
    · exact (takes_pure []).imp fun input found none => by simp [none]
  refine (takes_bind managers fun _ => takes_return _ objects).imp ?_
  rintro input records ⟨_,_,_,rfl,first,_,second,rfl⟩
  simp [first,second]

end Layout

theorem length_managerBytes (m : ManagerData) : (managerBytes m).length = 12 + (chunkBytes m.chunk).length := by
  simp [managerBytes,recordBytes]
  omega

theorem length_recordBytes (chunk : Option Chunk) : (recordBytes chunk).length = 4 + (chunkBytes chunk).length := by
  simp [recordBytes]

/-- Lists that agree item by item on a measure have one sum. -/
theorem sum_map_eq {α β : Type} {related : α → β → Prop} (left : α → Nat) (right : β → Nat) {xs : List α}
    {ys : List β} (all : List.Forall₂ related xs ys) (same : ∀ a b, related a b → left a = right b) :
    (xs.map left).sum = (ys.map right).sum := by
  induction all with
  | nil => rfl
  | cons head _ ih => simp only [List.map_cons,List.sum_cons,same _ _ head,ih]

/-- The latest layout is too short for an early parse that recovers every record. -/
theorem not_recovered_early {s : DataSection} {fileVersion : UInt32} (early : fileVersion < 7) (some : s.objects ≠ [])
    {managers : List ManagerData} {objects : List ObjectData}
    (parsed : dataSectionParse (s.managers.flatMap managerBytes ++ s.objects.flatMap fun o => recordBytes o.chunk)
      fileVersion s.managerCount s.objectCount = .ok (managers,objects))
    (sameManagers : List.Forall₂ ManagerRecovered s.managers managers)
    (sameObjects : List.Forall₂ ObjectRecovered s.objects objects) : False := by
  generalize bytes : (s.managers.flatMap managerBytes ++ s.objects.flatMap fun o => recordBytes o.chunk) = buffer at parsed
  rw [dataSectionParse] at parsed
  generalize run : (parseRecords buffer fileVersion s.managerCount s.objectCount).run 0 = out at parsed
  obtain ⟨outcome,stop⟩ := out
  obtain rfl : outcome = .ok (managers,objects) := parsed
  obtain ⟨input,rest,length,ahead,_⟩ := takes_parseRecords_early early _ _ 0 _ stop (Nat.zero_le _) run
  have bound := ahead.bound
  have managerSizes := sum_map_eq (fun m => 12 + (chunkBytes m.chunk).length)
    (fun m => 12 + m.dataSize.toNat) sameManagers fun m back same => by rw [same.2.1]
  have objectSizes := sum_map_eq (fun o => 8 + (chunkBytes o.chunk).length)
    (fun o => 8 + o.dataSize.toNat) sameObjects fun o back same => by rw [same.1]
  have written : buffer.length = (s.managers.map fun m => 12 + (chunkBytes m.chunk).length).sum +
      (s.objects.map fun o => 4 + (chunkBytes o.chunk).length).sum := by
    rw [← bytes]
    simp [List.length_flatMap,length_managerBytes,length_recordBytes]
  have longer : (s.objects.map fun o => 4 + (chunkBytes o.chunk).length).sum <
      (s.objects.map fun o => 8 + (chunkBytes o.chunk).length).sum :=
    List.sum_lt_sum_of_ne_nil some _ _ fun o _ => by omega
  dsimp only at length
  omega

theorem recordFits_chunks (s : DataSection) : (∀ c ∈ s.chunks, (payload c).length < 2 ^ 32 ∧ Survives c) ↔
    (∀ m ∈ s.managers, RecordFits m.chunk) ∧ ∀ o ∈ s.objects, RecordFits o.chunk := by
  simp only [DataSection.chunks,List.mem_append,List.mem_filterMap,RecordFits]
  grind

/-- A section in the latest layout is parsed back for a file version exactly when the version has this layout
and every chunk survives. -/
theorem recovered_iff (s : DataSection) (fileVersion : UInt32) (some : s.objects ≠ []) :
    (∃ managers objects,
      dataSectionParse (s.managers.flatMap managerBytes ++ s.objects.flatMap fun o => recordBytes o.chunk)
        fileVersion s.managerCount s.objectCount = .ok (managers,objects) ∧
      List.Forall₂ ManagerRecovered s.managers managers ∧ List.Forall₂ ObjectRecovered s.objects objects) ↔
      7 ≤ fileVersion ∧ ∀ c ∈ s.chunks, (payload c).length < 2 ^ 32 ∧ Survives c := by
  rw [recordFits_chunks]
  by_cases modern : 7 ≤ fileVersion
  · have start : Ahead (s.managers.flatMap managerBytes ++ s.objects.flatMap fun o => recordBytes o.chunk) 0
        ((s.managers.flatMap managerBytes ++ s.objects.flatMap fun o => recordBytes o.chunk) ++ []) := by
      rw [List.append_nil]
      exact ahead_start _
    rcases decides_section s fileVersion modern _ (fun m _ => decides_recovered m.chunk)
      (fun o _ => decides_recovered o.chunk) 0 [] start with ⟨fine,records,next,run,same,_⟩ | ⟨bad,never⟩
    · refine ⟨fun _ => ⟨modern,fine⟩,fun _ => ⟨records.1,records.2,?_,same⟩⟩
      rw [dataSectionParse,run]
    · refine ⟨?_,fun both => absurd both.2 bad⟩
      rintro ⟨managers,objects,parsed,same⟩
      rw [dataSectionParse] at parsed
      generalize outcome : (parseRecords _ fileVersion s.managerCount s.objectCount).run 0 = result at parsed
      obtain ⟨first,stop⟩ := result
      obtain rfl : first = .ok (managers,objects) := parsed
      exact absurd same (never _ stop outcome)
  · refine ⟨?_,fun both => absurd both.1 modern⟩
    rintro ⟨managers,objects,parsed,same⟩
    have early : fileVersion < 7 := by
      rw [UInt32.le_iff_toNat_le] at modern
      exact UInt32.lt_iff_toNat_lt.mpr (Nat.not_le.mp modern)
    exact (not_recovered_early early some parsed same.1 same.2).elim

end Libnmo.Format
