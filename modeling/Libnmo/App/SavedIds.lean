import Libnmo.App.SavedHeader
import Libnmo.Format.Header1Stored
import Libnmo.Session.PlanRoundTrip

/-! The IDs of a saved file and the objects that a load makes of it. The descriptors
count the objects from zero, and a load that succeeds has found the counts distinct
after bit 23 was cleared, so there are no more than 2^23 of them. -/
namespace Libnmo.App
open Core Format Schema Session Lib

variable {State : Type}

/-- The hooks of a save leave the IDs of the objects. -/
structure SaveKeeps (ctx : SaveContext State) : Prop where
  preSave : ∀ manager ∈ ctx.managers, ∀ hook, manager.preSave = some hook → ∀ objects obj, (hook objects obj).id = obj.id
  saveData : ∀ manager ∈ ctx.managers, ∀ hook, manager.saveData = some hook → ∀ objects obj,
    ((hook objects).2 obj).id = obj.id

section Saving
variable {ctx : SaveContext State} {session : SaveSession State} {flags : UInt32} {file : SavedFile}

theorem ids_map {hook : Object State → Object State} (same : ∀ obj, (hook obj).id = obj.id) (objects : List (Object State)) :
    (objects.map hook).map Object.id = objects.map Object.id := by
  rw [List.map_map]
  exact List.map_congr_left fun obj _ => same obj

theorem ids_invokePreSave {managers : List (Manager State)} (objects : List (Object State))
    (keeps : ∀ manager ∈ managers, ∀ hook, manager.preSave = some hook → ∀ objects obj, (hook objects obj).id = obj.id) :
    (invokePreSave managers objects).map Object.id = objects.map Object.id := by
  induction managers generalizing objects with
  | nil => rfl
  | cons manager managers ih =>
    rw [List.forall_mem_cons] at keeps
    rw [invokePreSave]
    split
    · exact ih objects keeps.2
    · rename_i hook present
      rw [ih _ keeps.2,ids_map (keeps.1 hook present objects)]

theorem ids_generateManagers {managers : List (Manager State)} (objects : List (Object State))
    (keeps : ∀ manager ∈ managers, ∀ hook, manager.saveData = some hook → ∀ objects obj,
      ((hook objects).2 obj).id = obj.id) :
    (generateManagers managers objects).2.map Object.id = objects.map Object.id := by
  induction managers generalizing objects with
  | nil => rfl
  | cons manager managers ih =>
    rw [List.forall_mem_cons] at keeps
    rw [generateManagers]
    split
    · exact ih objects keeps.2
    · rename_i hook present
      dsimp only
      split
      all_goals rw [ih _ keeps.2,ids_map (keeps.1 hook present objects)]

theorem ids_preparedObjects (keeps : SaveKeeps ctx) :
    (preparedObjects ctx session).map Object.id = session.objects.map Object.id :=
  ids_invokePreSave session.objects keeps.preSave

theorem ids_objectsToSave (keeps : SaveKeeps ctx) :
    (objectsToSave ctx session flags).map (fun entry => entry.2.id) = session.objects.map Object.id := by
  have ids := ids_generateManagers (preparedObjects ctx session) keeps.saveData
  have length : (session.referenceMap flags).length = (saveManagers ctx session).2.length := by
    rw [saveManagers,length_generateManagers,preparedObjects,length_invokePreSave,SaveSession.referenceMap,
      List.length_map]
  rw [← ids_preparedObjects keeps,← ids,objectsToSave,← Function.comp_def Object.id Prod.snd,← List.map_map,
    List.map_snd_zip (Nat.le_of_eq length.symm)]
  rfl

theorem ids_serialized {around : Surroundings} {schemas : SchemaRegistry State} {pairs entries : List (Bool × Object State)}
    (each : List.Forall₂ (Serialized around schemas) pairs entries) :
    entries.map (fun entry => entry.2.id) = pairs.map fun entry => entry.2.id := by
  induction each with
  | nil => rfl
  | cons same _ ih =>
    rw [List.map_cons,List.map_cons,ih]
    rcases same with ⟨_,rfl⟩ | ⟨_,_,_,rfl⟩ <;> rfl

/-- The objects of a saved file and their descriptors. -/
structure SavedObjects (ctx : SaveContext State) (session : SaveSession State) (flags : UInt32) (file : SavedFile)
    (entries : List (Bool × Object State)) : Prop where
  serialized : ∃ schemas, List.Forall₂ (Serialized ctx.around schemas) (objectsToSave ctx session flags) entries
  records : file.dataSect.objects = entries.map objectRecord
  descriptors : objectDescriptors (planTable (preparedObjects ctx session)) 0 entries = .ok file.header1.objects
  count : file.header1.objectCount = file.dataSect.objectCount
  bytes : header1Serialize file.header1 = .ok file.hdr1Bytes
  files : file.header1.includedFiles = if hasFlag flags saveStripIncludedFiles then [] else session.includedFiles
  fileCount : file.header1.includedFileCount = count32 file.header1.includedFiles
  deps : file.header1.pluginDeps = session.pluginDeps
  depCount : file.header1.pluginDepCount = count32 session.pluginDeps

theorem saveFile_objects (ok : saveFile ctx session flags = .ok file) : ∃ entries, SavedObjects ctx session flags file entries := by
  rw [saveFile] at ok
  split at ok
  · simp at ok
  · split at ok
    · simp at ok
    · rename_i remapTable plan
      have table : remapTable = planTable (preparedObjects ctx session) := by
        rw [idRemapPlanCreate] at plan
        split at plan
        · simp at plan
        · exact (Option.some.inj plan).symm
      split at ok
      · split at ok
        · simp at ok
        · split at ok
          · simp at ok
          · rename_i entries serialized
            split at ok
            · obtain ⟨_,_,ok⟩ := bind_result ok
              obtain ⟨_,_,ok⟩ := bind_result ok
              obtain ⟨descs,described,ok⟩ := bind_result ok
              obtain ⟨_,written,ok⟩ := bind_result ok
              obtain ⟨_,_,ok⟩ := bind_result ok
              rw [← Except.ok.inj ok]
              exact ⟨entries,⟨_,serializeObjects_success _ _ serialized⟩,rfl,table ▸ described,rfl,written,rfl,rfl,rfl,rfl⟩
            · simp at ok
      · simp at ok

theorem objectDescriptors_success {table : IdRemap} {index : Nat} {entries : List (Bool × Object State)}
    {descs : List ObjectDesc} (ok : objectDescriptors table index entries = .ok descs) :
    List.Forall₂ (fun entry desc => idRemapLookupId table entry.2.id = .ok desc.fileId) entries descs := by
  induction entries generalizing index descs with
  | nil =>
    rw [objectDescriptors,Except.ok.injEq] at ok
    rw [← ok]
    exact .nil
  | cons entry entries ih =>
    obtain ⟨fileId,found,ok⟩ := bind_result ok
    obtain ⟨others,rest,ok⟩ := bind_result ok
    rw [← Except.ok.inj ok]
    exact .cons found (ih rest)

theorem SavedObjects.length {entries : List (Bool × Object State)} (saved : SavedObjects ctx session flags file entries) :
    entries.length = session.objects.length := by
  obtain ⟨_,each⟩ := saved.serialized
  rw [← each.length_eq,length_objectsToSave]

theorem SavedObjects.ids {entries : List (Bool × Object State)} (saved : SavedObjects ctx session flags file entries)
    (keeps : SaveKeeps ctx) : entries.map (fun entry => entry.2.id) = session.objects.map Object.id := by
  obtain ⟨_,each⟩ := saved.serialized
  rw [ids_serialized each,ids_objectsToSave keeps]

/-- The file IDs count the objects from zero. -/
theorem SavedObjects.fileIds {entries : List (Bool × Object State)} (saved : SavedObjects ctx session flags file entries)
    (keeps : SaveKeeps ctx) :
    file.header1.objects.map ObjectDesc.fileId = (List.range session.objects.length).map UInt32.ofNat := by
  have each := objectDescriptors_success saved.descriptors
  have length := each.length_eq.symm.trans saved.length
  have prepared : (preparedObjects ctx session).map Object.id = _ := ids_preparedObjects keeps
  have distinct : ((preparedObjects ctx session).map Object.id).Nodup := prepared ▸ session.distinct
  apply List.ext_getElem
  · simp [length]
  · intro i left right
    rw [List.length_map] at left
    have inside : i < entries.length := by rwa [each.length_eq]
    have found := List.Forall₂.get each inside left
    have object : ∃ obj, (preparedObjects ctx session)[i]? = some obj ∧ obj.id = entries[i].2.id := by
      have at_ := congrArg (·[i]?) (prepared.trans (saved.ids keeps).symm)
      simpa [inside] using at_
    obtain ⟨obj,present,alike⟩ := object
    have looked := lookup_fileId distinct present
    simp only [List.get_eq_getElem] at found
    rw [alike,found,Except.ok.injEq] at looked
    simp [looked]

end Saving

section Parsing

/-- The IDs that a parse finds in a serialized Header1. -/
theorem header1Parse_serialized {header back : Header1} {bytes : List UInt8} {objectCount : UInt32}
    (all : header.objects.length = header.objectCount.toNat) (count : header.objectCount = objectCount)
    (ok : header1Serialize header = .ok bytes) (parsed : header1Parse bytes objectCount = .ok back) :
    back.objects.map ObjectDesc.fileId =
        header.objects.map (fun desc => desc.fileId &&& ~~~objectReferenceFlag) ∧
      ∀ desc ∈ back.objects, hasFlag desc.fileId objectReferenceFlag = false := by
  subst count
  obtain ⟨rest,front⟩ := header1Serialize_success all ok
  obtain ⟨stored,rest',length,again⟩ := header1Parse_stored parsed
  rw [again] at parsed
  have objects := header1Parse_objects length parsed
  have ids := (stored_agree (all.trans length.symm) (front.symm.trans again)).1
  rw [objects]
  constructor
  · have cleared := congrArg (List.map (· &&& ~~~objectReferenceFlag)) ids
    simp only [List.map_map,Function.comp_def] at cleared ⊢
    rw [show (fun stored : StoredDesc => stored.parsed.fileId) = fun stored => stored.fileId &&& ~~~objectReferenceFlag
      from rfl,cleared]
    exact List.map_congr_left fun desc _ => stored_cleared desc
  · simp only [List.forall_mem_map]
    exact fun desc _ => referenceFlag_parsed desc

/-- Distinct counts keep bit 23 free. -/
theorem cleared_counts {n : Nat}
    (distinct : ((List.range n).map fun i => UInt32.ofNat i &&& ~~~objectReferenceFlag).Nodup) :
    n ≤ 2 ^ 23 ∧ ((List.range n).map fun i => UInt32.ofNat i &&& ~~~objectReferenceFlag) =
      (List.range n).map UInt32.ofNat := by
  have few : n ≤ 2 ^ 23 := by
    by_contra many
    have length : ((List.range n).map fun i => UInt32.ofNat i &&& ~~~objectReferenceFlag).length = n := by simp
    have first : 0 < ((List.range n).map fun i => UInt32.ofNat i &&& ~~~objectReferenceFlag).length := by omega
    have last : 2 ^ 23 < ((List.range n).map fun i => UInt32.ofNat i &&& ~~~objectReferenceFlag).length := by omega
    have apart : ¬ (⟨0,first⟩ : Fin _) = ⟨2 ^ 23,last⟩ := by simp
    exact (List.nodup_iff_injective_get.mp distinct).ne apart (by simp only [List.get_eq_getElem,List.getElem_map,List.getElem_range]; rfl)
  refine ⟨few,List.map_congr_left fun i inside => ?_⟩
  rw [List.mem_range] at inside
  have value : (UInt32.ofNat i).toNat = i := by
    rw [UInt32.toNat_ofNat']
    omega
  have low : UInt32.ofNat i &&& 0x7FFFFF = UInt32.ofNat i := by
    apply UInt32.toNat_inj.mp
    rw [UInt32.toNat_and,value]
    exact (Nat.and_two_pow_sub_one_eq_mod i 23).trans (Nat.mod_eq_of_lt (by omega))
  rw [← low,UInt32.and_assoc]
  rfl

end Parsing

end Libnmo.App
