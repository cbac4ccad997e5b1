import Libnmo.Format.Header1Objects
import Libnmo.Format.Header1
import Libnmo.Format.DataSectionRoundTrip

/-! The object descriptors of a serialized Header1 begin its bytes, and a parse finds
there the IDs that were stored. -/
namespace Libnmo.Format
open Core Lib Lib.LittleEndian Lib.Cursor

theorem nameLen_le (name : List UInt8) : (nameLen name).toNat ≤ name.length := by
  rw [nameLen,UInt32.toNat_ofNat']
  exact (Nat.mod_le _ _).trans (List.takeWhile_prefix _).length_le

theorem stored_cleared (obj : ObjectDesc) :
    storedFileId obj &&& ~~~objectReferenceFlag = obj.fileId &&& ~~~objectReferenceFlag := by
  rw [storedFileId]
  split
  · have distrib : (obj.fileId ||| objectReferenceFlag) &&& ~~~objectReferenceFlag =
        (obj.fileId &&& ~~~objectReferenceFlag) ||| (objectReferenceFlag &&& ~~~objectReferenceFlag) :=
      UInt32.toBitVec_inj.mp BitVec.and_or_distrib_right
    rw [distrib,show objectReferenceFlag &&& ~~~objectReferenceFlag = 0 from rfl,UInt32.or_zero]
  · rfl

/-- The bytes of a descriptor. -/
def descBytes (obj : ObjectDesc) : List UInt8 :=
  wordBytes (storedFileId obj) ++ (wordBytes obj.classId ++ (wordBytes obj.fileIndex ++
    (wordBytes (nameLen obj.name) ++ obj.name.take (nameLen obj.name).toNat)))

section
variable {bufferSize : Nat} {written after : List UInt8}

theorem putName_success {name : List UInt8} {message : String}
    (ok : (putName bufferSize name message).run written = (.ok (),after)) :
    after = written ++ name.take (nameLen name).toNat := by
  rw [putName] at ok
  split at ok
  · exact put_success ok
  · rename_i none
    rw [gt_iff_lt,UInt32.lt_iff_toNat_lt] at none
    simp only [Action.pure_apply,Prod.mk.injEq,true_and] at ok
    rw [show (nameLen name).toNat = 0 from Nat.eq_zero_of_not_pos none,← ok]
    simp

theorem serializeObject_success {obj : ObjectDesc}
    (ok : (serializeObject bufferSize obj).run written = (.ok (),after)) : after = written ++ descBytes obj := by
  obtain ⟨_,_,fileId,ok⟩ := Action.bind_success ok
  obtain ⟨_,_,classId,ok⟩ := Action.bind_success ok
  obtain ⟨_,_,fileIndex,ok⟩ := Action.bind_success ok
  obtain ⟨_,_,length,ok⟩ := Action.bind_success ok
  rw [putName_success ok,put_success length,put_success fileIndex,put_success classId,put_success fileId,descBytes]
  simp

/-- A step of the serializer appends to what has been written. -/
def Appends (action : Run (List UInt8) Unit) : Prop :=
  ∀ written after, action.run written = (.ok (),after) → ∃ bytes, after = written ++ bytes

theorem appends_put (bytes : List UInt8) (message : String) : Appends (put bufferSize bytes message) :=
  fun _ _ ok => ⟨bytes,put_success ok⟩

theorem appends_pure : Appends (pure ()) := by
  intro written after ok
  simp only [Action.pure_apply,Prod.mk.injEq,true_and] at ok
  exact ⟨[],by rw [List.append_nil,ok]⟩

theorem appends_bind {first next : Run (List UInt8) Unit} (head : Appends first) (tail : Appends next) :
    Appends (first >>= fun _ => next) := by
  intro written after ok
  obtain ⟨_,middle,first,ok⟩ := Action.bind_success ok
  obtain ⟨bytes,rfl⟩ := head _ _ first
  obtain ⟨bytes',rfl⟩ := tail _ _ ok
  exact ⟨bytes ++ bytes',List.append_assoc ..⟩

theorem appends_putEach {α : Type} {step : α → Run (List UInt8) Unit} (each : ∀ a, Appends (step a)) (items : List α) :
    Appends (putEach step items) := by
  induction items with
  | nil => exact appends_pure
  | cons a items ih => exact appends_bind (each a) ih

theorem appends_putName (name : List UInt8) (message : String) : Appends (putName bufferSize name message) :=
  fun _ _ ok => ⟨_,putName_success ok⟩

theorem appends_category (deps : List PluginDep) (category : UInt32) :
    Appends (serializeCategory bufferSize deps category) := by
  rw [serializeCategory]
  split
  · exact appends_pure
  · exact appends_bind (appends_put _ _) (appends_bind (appends_put _ _) (appends_putEach (fun _ => appends_put _ _) _))

theorem appends_includedFile (file : IncludedFileDesc) : Appends (serializeIncludedFile bufferSize file) :=
  appends_bind (appends_put _ _) (appends_bind (appends_putName _ _) (appends_put _ _))

end

theorem tableEntries_all {α : Type} {count : UInt32} {table entries : List α} (all : table.length = count.toNat)
    (ok : tableEntries count table = .ok entries) : entries = table := by
  rw [tableEntries,if_neg (by omega),Except.ok.injEq] at ok
  rw [← ok,← all,List.take_length]

theorem header1Serialize_success {header : Header1} {bytes : List UInt8}
    (all : header.objects.length = header.objectCount.toNat) (ok : header1Serialize header = .ok bytes) :
    ∃ rest, bytes = header.objects.flatMap descBytes ++ rest := by
  obtain ⟨objects,found,ok⟩ := bind_result ok
  obtain ⟨deps,_,ok⟩ := bind_result ok
  obtain ⟨files,_,ok⟩ := bind_result ok
  rw [tableEntries_all all found] at ok
  dsimp only at ok
  split at ok
  · rename_i done run
    obtain ⟨_,_,first,run⟩ := Action.bind_success run
    have front := putEach_success _ descBytes (fun _ _ _ => serializeObject_success) header.objects first
    obtain ⟨rest,after⟩ := appends_bind
      (appends_bind (appends_put _ _) (appends_putEach (appends_category deps) _))
      (appends_bind (appends_put _ _) (appends_putEach appends_includedFile files)) _ _ run
    rw [← Except.ok.inj ok,after,front]
    exact ⟨rest,rfl⟩
  · simp at ok

/-- Descriptors and what a parse takes for descriptors agree, when they begin the same bytes. -/
theorem stored_agree {descs : List ObjectDesc} {stored : List StoredDesc} {rest rest' : List UInt8}
    (count : descs.length = stored.length)
    (same : descs.flatMap descBytes ++ rest = stored.flatMap StoredDesc.bytes ++ rest') :
    stored.map StoredDesc.fileId = descs.map storedFileId ∧
      stored.flatMap StoredDesc.bytes = descs.flatMap descBytes := by
  induction descs generalizing stored with
  | nil =>
    obtain rfl : stored = [] := List.length_eq_zero_iff.mp count.symm
    exact ⟨rfl,rfl⟩
  | cons desc descs ih =>
    obtain ⟨first,stored,rfl⟩ := List.exists_cons_of_length_pos (l := stored) (by rw [← count]; simp)
    simp only [List.flatMap_cons,descBytes,StoredDesc.bytes,List.append_assoc] at same
    obtain ⟨fileId,same⟩ := List.append_inj same rfl
    obtain ⟨classId,same⟩ := List.append_inj same rfl
    obtain ⟨fileIndex,same⟩ := List.append_inj same rfl
    obtain ⟨length,same⟩ := List.append_inj same rfl
    have names : (desc.name.take (nameLen desc.name).toNat).length = first.name.length := by
      have value := congrArg UInt32.toNat (wordBytes_inj length)
      rw [toNat_nameLen] at value
      rw [List.length_take,← value,Nat.min_eq_left (nameLen_le desc.name)]
    obtain ⟨name,same⟩ := List.append_inj same names
    obtain ⟨ids,others⟩ := ih (by simpa using count) same
    constructor
    · rw [List.map_cons,List.map_cons,ids,wordBytes_inj fileId]
    · rw [List.flatMap_cons,List.flatMap_cons,others,StoredDesc.bytes,descBytes,fileId,classId,fileIndex,length,name]

end Libnmo.Format
