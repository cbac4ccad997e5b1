import Libnmo.App.SaveFile
import Libnmo.Format.DataSectionLayout

/-! The header of a saved file against its data section. The manager count is that of
the session, not of the records written, and the version may be one of an older
layout; the section itself is written in the latest one. -/
namespace Libnmo.App
open Core Format Schema Session

variable {State : Type}

/-- What phase 5 makes of an object. -/
def Serialized (around : Surroundings) (schemas : SchemaRegistry State) (before after : Bool × Object State) : Prop :=
  (before.1 = true ∧ after = before) ∨ (before.1 = false ∧ ∃ chunk,
    serializeObjectWithSchema around schemas before.2 = .ok (some chunk) ∧
      after = (false,{ before.2 with chunk := some chunk }))

theorem serializeObjects_success {around : Surroundings} {schemas : SchemaRegistry State}
    (pairs entries : List (Bool × Object State)) (ok : serializeObjects around schemas pairs = .ok entries) :
    List.Forall₂ (Serialized around schemas) pairs entries := by
  induction pairs generalizing entries with
  | nil =>
    rw [serializeObjects,Except.ok.injEq] at ok
    rw [← ok]
    exact .nil
  | cons pair pairs ih =>
    obtain ⟨reference,obj⟩ := pair
    cases reference with
    | true =>
      obtain ⟨rest,others,same⟩ := bind_result ok
      rw [← Except.ok.inj same]
      exact .cons (.inl ⟨rfl,rfl⟩) (ih rest others)
    | false =>
      obtain ⟨made,one,left⟩ := bind_result ok
      cases made with
      | none => simp at left
      | some chunk =>
        obtain ⟨rest,others,same⟩ := bind_result left
        rw [← Except.ok.inj same]
        exact .cons (.inr ⟨rfl,chunk,one,rfl⟩) (ih rest others)

/-- What a successful save has put together. -/
structure Saved (ctx : SaveContext State) (session : SaveSession State) (flags : UInt32) (file : SavedFile) : Prop where
  nonempty : session.objects ≠ []
  records : ∃ schemas entries, ctx.schemaRegistry = some schemas ∧
    List.Forall₂ (Serialized ctx.around schemas) (objectsToSave ctx session flags) entries ∧
    file.dataSect.objects = entries.map objectRecord
  managers : file.dataSect.managers = (saveManagers ctx session).1
  bytes : dataSectionSerialize file.dataSect 8 (dataSectionCalculateSize file.dataSect 8) = .ok file.dataBytes
  objectCount : file.header.objectCount = file.dataSect.objectCount
  managerCount : file.header.managerCount = count32 session.managerData
  fileVersion : file.header.fileVersion = if session.fileInfo.fileVersion ≠ 0 then session.fileInfo.fileVersion else 8

section
variable {ctx : SaveContext State} {session : SaveSession State} {flags : UInt32} {file : SavedFile}

theorem writeSections_success {remapTable : IdRemap} {dataSect : DataSection} {entries : List (Bool × Object State)}
    (ok : writeSections ctx session flags remapTable dataSect entries = .ok file) :
    file.dataSect = dataSect ∧
      dataSectionSerialize dataSect 8 (dataSectionCalculateSize dataSect 8) = .ok file.dataBytes ∧
      file.header.objectCount = dataSect.objectCount ∧ file.header.managerCount = count32 session.managerData ∧
      file.header.fileVersion = if session.fileInfo.fileVersion ≠ 0 then session.fileInfo.fileVersion else 8 := by
  obtain ⟨dataBytes,written,ok⟩ := bind_result ok
  obtain ⟨data,_,ok⟩ := bind_result ok
  obtain ⟨descs,_,ok⟩ := bind_result ok
  obtain ⟨hdr1Bytes,_,ok⟩ := bind_result ok
  obtain ⟨hdr1,_,ok⟩ := bind_result ok
  rw [← Except.ok.inj ok]
  exact ⟨rfl,written,rfl,rfl,rfl⟩

theorem saveFile_success (ok : saveFile ctx session flags = .ok file) : Saved ctx session flags file := by
  rw [saveFile] at ok
  split at ok
  · simp at ok
  · rename_i objects
    split at ok
    · simp at ok
    · split at ok
      · split at ok
        · simp at ok
        · rename_i schemas registry
          split at ok
          · simp at ok
          · rename_i entries serialized
            split at ok
            · obtain ⟨sect,bytes,objectCount,managerCount,version⟩ := writeSections_success ok
              have each := serializeObjects_success _ _ serialized
              exact {
                nonempty := fun empty => objects (by rw [empty]; rfl)
                records := ⟨schemas,entries,registry,each,by rw [sect]⟩
                managers := by rw [sect]
                bytes := by rw [sect]; exact bytes
                objectCount := by rw [sect]; exact objectCount
                managerCount := managerCount
                fileVersion := version }
            · simp at ok
      · simp at ok

/-- The chunks of the records: those of managers, and what the objects that are not references serialize to. -/
def SavedChunk (ctx : SaveContext State) (session : SaveSession State) (flags : UInt32) (c : Chunk) : Prop :=
  (∃ m ∈ (saveManagers ctx session).1, m.chunk = some c) ∨
  ∃ schemas, ctx.schemaRegistry = some schemas ∧ ∃ obj, (false,obj) ∈ objectsToSave ctx session flags ∧
    serializeObjectWithSchema ctx.around schemas obj = .ok (some c)

theorem Saved.chunks (saved : Saved ctx session flags file) (c : Chunk) :
    c ∈ file.dataSect.chunks ↔ SavedChunk ctx session flags c := by
  obtain ⟨schemas,entries,registry,each,objects⟩ := saved.records
  have entry : c ∈ entries.filterMap (fun entry => (objectRecord entry).chunk) ↔
      ∃ obj, (false,obj) ∈ objectsToSave ctx session flags ∧
        serializeObjectWithSchema ctx.around schemas obj = .ok (some c) := by
    clear objects
    generalize objectsToSave ctx session flags = pairs at each
    induction each with
    | nil => simp
    | @cons pair entry pairs entries same _ ih =>
      rw [List.filterMap_cons]
      rcases same with ⟨reference,rfl⟩ | ⟨plain,chunk,made,rfl⟩
      · have none : (objectRecord entry).chunk = none := by simp [objectRecord,reference]
        simp only [none,ih,List.mem_cons]
        grind
      · have some : (objectRecord (false,{ pair.2 with chunk := some chunk })).chunk = some chunk := rfl
        simp only [some,List.mem_cons,ih]
        grind
  rw [DataSection.chunks,saved.managers,objects,List.mem_append,List.filterMap_map,SavedChunk,
    List.mem_filterMap,Function.comp_def,entry]
  grind

theorem length_invokePreSave (managers : List (Manager State)) (objects : List (Object State)) :
    (invokePreSave managers objects).length = objects.length := by
  induction managers generalizing objects with
  | nil => rfl
  | cons manager managers ih =>
    rw [invokePreSave]
    split
    · exact ih objects
    · rw [ih,List.length_map]

theorem length_generateManagers (managers : List (Manager State)) (objects : List (Object State)) :
    (generateManagers managers objects).2.length = objects.length := by
  induction managers generalizing objects with
  | nil => rfl
  | cons manager managers ih =>
    rw [generateManagers]
    split
    · exact ih objects
    · dsimp only
      split
      all_goals rw [ih,List.length_map]

theorem length_objectsToSave : (objectsToSave ctx session flags).length = session.objects.length := by
  rw [objectsToSave,List.length_zip,saveManagers,length_generateManagers,preparedObjects,length_invokePreSave,
    SaveSession.referenceMap,List.length_map,Nat.min_self]

theorem Saved.objects_nonempty (saved : Saved ctx session flags file) : file.dataSect.objects ≠ [] := by
  obtain ⟨schemas,entries,_,each,objects⟩ := saved.records
  have count := each.length_eq
  rw [length_objectsToSave] at count
  intro empty
  rw [objects,List.map_eq_nil_iff] at empty
  rw [empty,List.length_nil] at count
  exact saved.nonempty (List.length_eq_zero_iff.mp count)

/-- As many records are generated as records of the session have been consumed. -/
def ManagersBalance (ctx : SaveContext State) (session : SaveSession State) : Prop :=
  (generateManagers ctx.managers (preparedObjects ctx session)).1.length =
    (session.managerData.filter fun record => hasFlag record.flags managerDataFlagDispatched).length

theorem count32_eq {α β : Type} {xs : List α} {ys : List β} (left : xs.length < 2 ^ 32) (right : ys.length < 2 ^ 32) :
    count32 xs = count32 ys ↔ xs.length = ys.length := by
  rw [← UInt32.toNat_inj,count32,count32,UInt32.toNat_ofNat',UInt32.toNat_ofNat',Nat.mod_eq_of_lt left,
    Nat.mod_eq_of_lt right]

theorem Saved.managerCount_iff (saved : Saved ctx session flags file) :
    file.header.managerCount = file.dataSect.managerCount ↔ ManagersBalance ctx session := by
  rw [saved.managerCount,DataSection.managerCount,count32_eq session.managersFit file.dataSect.managersFit,
    saved.managers,saveManagers,List.length_append,ManagersBalance,preservedManagers]
  have parts := List.length_eq_length_filter_add (l := session.managerData)
    fun record => hasFlag record.flags managerDataFlagDispatched
  have rest : (session.managerData.filter fun record => decide ¬ hasFlag record.flags managerDataFlagDispatched) =
      session.managerData.filter fun record => ! hasFlag record.flags managerDataFlagDispatched := by
    simp
  rw [rest]
  omega

theorem modern_iff (fileVersion : UInt32) :
    7 ≤ (if fileVersion ≠ 0 then fileVersion else 8) ↔ fileVersion = 0 ∨ 7 ≤ fileVersion := by
  split
  · rename_i some
    exact ⟨.inr,fun either => either.resolve_left some⟩
  · rename_i none
    exact ⟨fun _ => .inl (not_not.mp none),fun _ => by decide⟩

/-- The header describes the section it is written with. -/
def Describes (file : SavedFile) : Prop :=
  file.header.managerCount = file.dataSect.managerCount ∧ file.header.objectCount = file.dataSect.objectCount ∧
    ∃ managers objects,
      dataSectionParse file.dataBytes file.header.fileVersion file.header.managerCount file.header.objectCount =
        .ok (managers,objects) ∧
      List.Forall₂ ManagerRecovered file.dataSect.managers managers ∧
      List.Forall₂ ObjectRecovered file.dataSect.objects objects

end

section Samples

/-- One object that is saved as a reference, and no manager data. -/
def referenceSession : SaveSession Unit where
  objects := [{ id := 1, classId := 1, flags := objectReferenceFlag }]
  distinct := by decide
  nonzero := by decide
  managersFit := nil_fits

def plainContext : SaveContext Unit where
  schemaRegistry := some {}
  miniz := { compress2 := fun _ _ => none, uncompress := fun _ _ => none }

/-- A manager whose save hook gives an empty chunk. -/
def hookedContext : SaveContext Unit := { plainContext with
  managerRegistry := some [{ guid := ⟨1,2⟩, saveData := some fun _ => (some chunkCreate,id) }] }

end Samples

end Libnmo.App
