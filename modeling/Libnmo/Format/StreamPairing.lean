import Libnmo.Format.StreamRecords
import Libnmo.Format.StreamSlices
import Libnmo.Lib.Machine

/-! Whether records and descriptors stay together over a run of calls. A call that fails after it
has taken bytes does not take them back and does not count the record. Where no call does that,
the record returned is the one with the index of the descriptor. -/
namespace Libnmo.Format
open Core Lib Lib.LittleEndian Lib.Cursor

variable {io : StreamIo} {zlib : InflateLibrary} {reader t : StreamReader io zlib}

theorem spent_chunk (size : Nat) (empty : reader.window.held = []) (dry : Dry sourceNext reader.source) :
    ∃ stop t, (readerChunk size).run reader = (.error stop,t) ∧ Spent t := by
  obtain ⟨stop,source,failed,dry⟩ := dry_fails dry
  have none : reader.available = 0 := (length_held reader).symm.trans (congrArg List.length empty)
  have filled := readerFillOutput_emptied reader
  rw [failed] at filled
  rw [readerChunk,Action.bind_ok _ (Action.read_apply _ _),if_pos none,
    Action.bind_error _ ((Action.bind_ok _ (Action.update_apply _ _)).trans filled)]
  exact ⟨stop,_,rfl,.inr ⟨rfl,dry⟩⟩

theorem spent_copyLoop (fuel : Nat) (empty : reader.window.held = []) (dry : Dry sourceNext reader.source) :
    ∃ stop t, (readerCopyLoop (fuel + 1) 4).run reader = (.error stop,t) ∧ Spent t := by
  obtain ⟨stop,t,ran,spent⟩ := spent_chunk 4 empty dry
  rw [readerCopyLoop,if_neg (by decide),Action.bind_error _ ran]
  exact ⟨stop,t,rfl,spent⟩

theorem spent_copy (spent : Spent reader) : ∃ stop t, (readerCopyBytes 4).run reader = (.error stop,t) ∧ Spent t := by
  by_cases within : 4 ≤ reader.uncompressedRemaining
  · obtain ⟨empty,dry⟩ := spent.resolve_left (Nat.not_lt.mpr within)
    rw [readerCopyBytes_allowed within]
    exact spent_copyLoop 4 empty dry
  · exact ⟨_,reader,readerCopyBytes_refused (Nat.not_le.mp within),spent⟩

theorem spent_skip (spent : Spent reader) : ∃ stop t, (readerSkipBytes 4).run reader = (.error stop,t) ∧ Spent t := by
  by_cases within : 4 ≤ reader.uncompressedRemaining
  · obtain ⟨empty,dry⟩ := spent.resolve_left (Nat.not_lt.mpr within)
    obtain ⟨stop,t,ran,spent⟩ := spent_copyLoop 4 empty dry
    exact ⟨stop,t,(readerSkipBytes_allowed within).trans (Action.bind_error _ ran),spent⟩
  · exact ⟨_,reader,readerSkipBytes_refused (Nat.not_le.mp within),spent⟩

theorem spent_readId (spent : Spent reader) : (∃ stop t, readerReadId.run reader = (.error stop,t) ∧ Spent t) ∨
    ∃ storedId, readerReadId.run reader = (.ok storedId,reader) := by
  rw [readerReadId,Action.bind_ok _ (Action.read_apply _ _)]
  by_cases old : reader.header.fileVersion < 7
  · obtain ⟨stop,t,ran,spent⟩ := spent_copy spent
    rw [if_pos old]
    exact .inl ⟨stop,t,Action.bind_error _ ran,spent⟩
  · rw [if_neg old]
    exact .inr ⟨0,rfl⟩

theorem spent_skipId (spent : Spent reader) : (∃ stop t, readerSkipId.run reader = (.error stop,t) ∧ Spent t) ∨
    ∃ none, readerSkipId.run reader = (.ok none,reader) := by
  rw [readerSkipId,Action.bind_ok _ (Action.read_apply _ _)]
  by_cases old : reader.header.fileVersion < 7
  · rw [if_pos old]
    exact .inl (spent_skip spent)
  · rw [if_neg old]
    exact .inr ⟨(),rfl⟩

theorem spent_fields {α β : Type} {first : Run (StreamReader io zlib) α} (next : α → UInt32 → Run (StreamReader io zlib) β)
    (spent : Spent reader) (outcome : (∃ stop t, first.run reader = (.error stop,t) ∧ Spent t) ∨
      ∃ a, first.run reader = (.ok a,reader)) :
    ∃ stop t, (first >>= fun a => readerReadU32 >>= next a).run reader = (.error stop,t) ∧ Spent t := by
  rcases outcome with ⟨stop,t,ran,spent⟩ | ⟨a,ran⟩
  · exact ⟨stop,t,Action.bind_error _ ran,spent⟩
  · obtain ⟨stop,t,copied,spent⟩ := spent_copy spent
    exact ⟨stop,t,(Action.bind_ok _ ran).trans (Action.bind_error _ (Action.bind_error _ copied)),spent⟩

theorem readNextObject_spent (granted : Granted) (spent : Spent reader) :
    ∃ stop t, (readNextObject granted).run reader = (.error stop,t) ∧ Spent t := by
  rw [readNextObject,Action.bind_ok _ (Action.read_apply _ _)]
  dsimp only [id]
  by_cases ended : reader.nextObjectIndex ≥ reader.objectsTotal
  · rw [if_pos ended]
    exact ⟨_,reader,rfl,spent⟩
  · rw [if_neg ended,Action.bind_ok _ (Action.pure_apply _ _)]
    exact spent_fields _ spent (spent_readId spent)

theorem skipObject_spent (spent : Spent reader) : ∃ stop t, skipObject.run reader = (.error stop,t) ∧ Spent t := by
  rw [skipObject,Action.bind_ok _ (Action.read_apply _ _)]
  dsimp only [id]
  by_cases ended : reader.nextObjectIndex ≥ reader.objectsTotal
  · rw [if_pos ended]
    exact ⟨_,reader,rfl,spent⟩
  · rw [if_neg ended,Action.bind_ok _ (Action.pure_apply _ _)]
    exact spent_fields _ spent (spent_skipId spent)

/-- Once no record can be taken, every call fails and leaves it so. -/
theorem spent_call (spent : Spent reader) (call : ObjectCall) :
    ∃ stop t, (callObject call).run reader = (.error stop,t) ∧ Spent t := by
  cases call with
  | read granted =>
    obtain ⟨stop,t,ran,spent⟩ := readNextObject_spent granted spent
    exact ⟨stop,t,Action.bind_error _ ran,spent⟩
  | skip =>
    obtain ⟨stop,t,ran,spent⟩ := skipObject_spent spent
    exact ⟨stop,t,Action.bind_error _ ran,spent⟩

/-- The record with an index in the data that lies ahead of a reader. -/
def RecordAt (reader : StreamReader io zlib) (index : Nat) (record : StreamRecord) : Prop :=
  ∃ before : List StreamRecord, before.length = index ∧ (∀ each ∈ before ++ [record], each.Stored reader.header) ∧
    ∃ after, Gives sourceNext reader.window ((before ++ [record]).flatMap StreamRecord.bytes) after

theorem recordAt_unique {index : Nat} {a b : StreamRecord} (first : RecordAt reader index a)
    (second : RecordAt reader index b) : a = b := by
  obtain ⟨before,length,stored,_,gives⟩ := first
  obtain ⟨before',length',stored',_,gives'⟩ := second
  have count : (before ++ [a]).length = (before' ++ [b]).length := by
    rw [List.length_append,List.length_append,length,length']
    rfl
  have same : before ++ [a] = before' ++ [b] := by
    rcases gives.comparable gives' with ⟨rest,parts⟩ | ⟨rest,parts⟩
    · exact records_agree count stored stored' (parts.trans (List.append_nil _).symm)
    · exact (records_agree count.symm stored' stored (parts.trans (List.append_nil _).symm)).symm
  exact List.singleton_inj.mp (List.append_inj' same rfl).2

/-- What a call returns for a record and the descriptor with an index. -/
def recordResult (header1 : Header1) (index : UInt32) (record : StreamRecord) : ObjectCall → Result (Option StreamObject)
  | .read granted => (record.object header1 index granted.name).map some
  | .skip => .ok none

/-- Where a call succeeds, it takes the record with the index of its descriptor. -/
def Paired (opened : StreamReader io zlib) (visit : StreamReader io zlib × ObjectCall) : Prop :=
  ∀ result t, (callObject visit.2).run visit.1 = (.ok result,t) → ∃ record,
    RecordAt opened visit.1.nextObjectIndex.toNat record ∧ Gives sourceNext visit.1.window record.bytes t.window ∧
      recordResult opened.header1 visit.1.nextObjectIndex record visit.2 = .ok result

/-- The reader after a call, whatever its outcome. -/
def calledOn (reader : StreamReader io zlib) (call : ObjectCall) : StreamReader io zlib := ((callObject call).run reader).2

/-- As many records have been taken as the index says. -/
structure InStep (opened reader : StreamReader io zlib) : Prop where
  passed : ∃ before : List StreamRecord, before.length = reader.nextObjectIndex.toNat ∧
    (∀ each ∈ before, each.Stored opened.header) ∧
    Gives sourceNext opened.window (before.flatMap StreamRecord.bytes) reader.window
  small : SmallBuffer reader.source
  header : reader.header = opened.header
  header1 : reader.header1 = opened.header1

section
variable {opened : StreamReader io zlib} {record : StreamRecord}

theorem InStep.recordAt (inStep : InStep opened reader) (passes : Passes reader record t) :
    RecordAt opened reader.nextObjectIndex.toNat record ∧ InStep opened t := by
  obtain ⟨before,length,stored,gives⟩ := inStep.passed
  have all : ∀ each ∈ before ++ [record], each.Stored opened.header := by
    intro each member
    rcases List.mem_append.mp member with earlier | last
    · exact stored each earlier
    · obtain rfl := List.mem_singleton.mp last
      exact inStep.header ▸ passes.stored
  have whole : Gives sourceNext opened.window ((before ++ [record]).flatMap StreamRecord.bytes) t.window := by
    rw [List.flatMap_append,List.flatMap_singleton]
    exact gives.trans passes.gives
  refine ⟨⟨before,length,all,t.window,whole⟩,⟨before ++ [record],?_,all,whole⟩,passes.small,
    passes.header.trans inStep.header,passes.header1.trans inStep.header1⟩
  have below := UInt32.lt_iff_toNat_lt.mp passes.below
  have bound := reader.objectsTotal.toNat_lt
  rw [List.length_append,List.length_singleton,length,passes.counted,UInt32.toNat_add]
  exact (Nat.mod_eq_of_lt (by omega)).symm

/-- One call: a success returns the record of its index, and the reader stays in step or is spent. -/
theorem inStep_call (inStep : InStep opened reader) (call : ObjectCall) (completes : Completes reader call) :
    Paired opened (reader,call) ∧ (InStep opened (calledOn reader call) ∨ Spent (calledOn reader call)) := by
  -- a call that fails has taken nothing, or nothing can be taken behind it
  have failing {stop : Stop} {t : StreamReader io zlib} (ran : (callObject call).run reader = (.error stop,t))
      (left : t = reader ∨ Spent t) :
      Paired opened (reader,call) ∧ (InStep opened (calledOn reader call) ∨ Spent (calledOn reader call)) := by
    constructor
    · intro result u ok
      rw [ran] at ok
      simp at ok
    · rw [calledOn,ran]
      rcases left with rfl | spent
      · exact .inl inStep
      · exact .inr spent
  have passing {record : StreamRecord} {result : Option StreamObject} {t : StreamReader io zlib}
      (ran : (callObject call).run reader = (.ok result,t)) (passes : Passes reader record t)
      (returned : recordResult opened.header1 reader.nextObjectIndex record call = .ok result) :
      Paired opened (reader,call) ∧ (InStep opened (calledOn reader call) ∨ Spent (calledOn reader call)) := by
    obtain ⟨found,next⟩ := inStep.recordAt passes
    constructor
    · intro result' u ok
      rw [ran,Prod.mk.injEq,Except.ok.injEq] at ok
      obtain ⟨rfl,rfl⟩ := ok
      exact ⟨record,found,passes.gives,returned⟩
    · rw [calledOn,ran]
      exact .inl next
  cases call with
  | read granted =>
    rcases readNextObject_cases inStep.small completes with ⟨object,record,t,ran,passes,made⟩ | ⟨stop,t,ran,left⟩
    · refine passing (Action.bind_ok _ ran) passes ?_
      rw [recordResult,← inStep.header1,made]
      rfl
    · exact failing (Action.bind_error _ ran) left
  | skip =>
    rcases skipObject_cases inStep.small completes with ⟨record,t,ran,passes⟩ | ⟨stop,t,ran,left⟩
    · exact passing (Action.bind_ok _ ran) passes rfl
    · exact failing (Action.bind_error _ ran) left

theorem spent_calledOn (spent : Spent reader) (call : ObjectCall) : Spent (calledOn reader call) := by
  obtain ⟨stop,t,ran,spent⟩ := spent_call spent call
  rw [calledOn,ran]
  exact spent

theorem spent_paired (spent : Spent reader) (call : ObjectCall) : Paired opened (reader,call) := by
  obtain ⟨stop,t,ran,_⟩ := spent_call spent call
  intro result u ok
  rw [ran] at ok
  simp at ok

theorem InStep.start (fresh : opened.nextObjectIndex = 0) (small : SmallBuffer opened.source) : InStep opened opened := by
  refine ⟨⟨[],?_,nofun,gives_nothing _⟩,small,rfl,rfl⟩
  rw [fresh]
  rfl

/-- In every run of reads and skips in which each call can complete the record that it begins, every call
that succeeds returns the record with the index of its descriptor. -/
theorem calls_paired (opened : StreamReader io zlib) (fresh : opened.nextObjectIndex = 0)
    (small : SmallBuffer opened.source) (calls : List ObjectCall)
    (complete : ∀ visit ∈ Machine.visits calledOn opened calls, Completes visit.1 visit.2) :
    ∀ visit ∈ Machine.visits calledOn opened calls, Paired opened visit := by
  have kept : ∀ reader call, InStep opened reader ∨ Spent reader → Completes reader call →
      InStep opened (calledOn reader call) ∨ Spent (calledOn reader call) := by
    intro reader call held completes
    rcases held with inStep | spent
    · exact (inStep_call inStep call completes).2
    · exact .inr (spent_calledOn spent call)
  have reached := Machine.visits_keep_while kept (.inl (.start fresh small)) complete
  intro visit member
  rcases reached visit member with inStep | spent
  · exact (inStep_call inStep visit.2 (complete visit member)).1
  · exact spent_paired spent visit.2

end

/-- A record whose chunk parses, and one whose chunk has a version that is not supported. -/
def soundRecord : StreamRecord := ⟨none,[0,5,7,0,0,0,0,0],by decide⟩

def unsupportedRecord : StreamRecord := ⟨none,[0,0,9,0],by decide⟩

def twoDescs : Header1 where
  objectCount := 2
  objects := [⟨100,5,100,[97],0⟩,⟨200,6,200,[98],0⟩]

/-- A reader of two records that have no stored IDs. -/
def twoRecords (first second : StreamRecord) : StreamReader countedFile noInflate :=
  readerOpened (([],first.bytes ++ second.bytes) : List Nat × List UInt8) (List.replicate 32 0)
    { fileVersion := 8, dataPackSize := 20, dataUnpackSize := 20, objectCount := 2 } twoDescs

/-- A read of the first of two records and a skip of the second. -/
theorem calls_paired_two :
    Paired (twoRecords soundRecord unsupportedRecord) (twoRecords soundRecord unsupportedRecord,.read {}) ∧
      Paired (twoRecords soundRecord unsupportedRecord)
        (calledOn (twoRecords soundRecord unsupportedRecord) (.read {}),.skip) := by
  have paired := calls_paired (twoRecords soundRecord unsupportedRecord) rfl nofun [.read {},.skip] (by
    intro visit member
    rcases List.mem_cons.mp member with rfl | member
    · refine completes_whole soundRecord (iff_of_false Bool.false_ne_true (by decide))
        ((gives_piece rfl).trans (gives_held soundRecord.bytes _ _)) (by decide) ?_
      rintro granted same
      cases same
      exact ⟨rfl,rfl,rfl,_,rfl⟩
    · obtain rfl := List.mem_singleton.mp member
      exact completes_whole unsupportedRecord (iff_of_false Bool.false_ne_true (by decide))
        (gives_held unsupportedRecord.bytes [] _) (by decide) nofun)
  exact ⟨paired _ (List.mem_cons_self ..),paired _ (List.mem_cons_of_mem _ (List.mem_cons_self ..))⟩

theorem unsupported_first : RecordAt (twoRecords unsupportedRecord soundRecord) 0 unsupportedRecord := by
  refine ⟨[],rfl,fun each member => ?_,_,(gives_piece rfl).trans (gives_held unsupportedRecord.bytes _ _)⟩
  obtain rfl := List.mem_singleton.mp member
  exact iff_of_false Bool.false_ne_true (by decide)

/-- The first call fails on the chunk of the first record; the second returns the second record under the
first descriptor. -/
theorem twoRecords_mispaired :
    ¬ ∀ visit ∈ Machine.visits calledOn (twoRecords unsupportedRecord soundRecord) [.read {},.read {}],
      Paired (twoRecords unsupportedRecord soundRecord) visit := by
  intro all
  have second := all (calledOn (twoRecords unsupportedRecord soundRecord) (.read {}),.read {})
    (List.mem_cons_of_mem _ (List.mem_cons_self ..))
  cases ran : (callObject (.read {})).run (calledOn (twoRecords unsupportedRecord soundRecord) (.read {})) with
  | mk outcome t =>
    have succeeds : ((callObject (.read {})).run
        (calledOn (twoRecords unsupportedRecord soundRecord) (.read {}))).1.toOption.isSome = true := by decide +kernel
    cases outcome with
    | error stop =>
      rw [ran] at succeeds
      cases succeeds
    | ok result =>
      obtain ⟨record,found,_,returned⟩ := second result t ran
      obtain rfl := recordAt_unique found unsupported_first
      have fails : (recordResult twoDescs 0 unsupportedRecord (.read {})).toOption.isSome = false := by decide +kernel
      have same : recordResult twoDescs 0 unsupportedRecord (.read {}) = .ok result := returned
      rw [same] at fails
      cases fails

end Libnmo.Format
