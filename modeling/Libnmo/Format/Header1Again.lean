import Mathlib.Data.List.TakeWhile
import Libnmo.Format.Header1Stores

/-! A Header1 that was parsed, serialized and parsed again. The parse takes counts for
tables that are not there, or that hold fewer entries, and categories that the
serializer leaves out. -/
namespace Libnmo.Format
open Core Lib Lib.LittleEndian Lib.Cursor

/-- A positive count of a table that is not there. -/
def AbsentTable (header : Header1) : Prop :=
  header.objectCount ≠ 0 ∧ header.objects = [] ∨ header.pluginDepCount ≠ 0 ∧ header.pluginDeps = [] ∨
    header.includedFileCount ≠ 0 ∧ header.includedFiles = []

/-- Names are strings, up to their terminators. -/
structure SameDesc (obj back : ObjectDesc) : Prop where
  fileId : back.fileId = obj.fileId
  classId : back.classId = obj.classId
  fileIndex : back.fileIndex = obj.fileIndex
  name : cString back.name = cString obj.name
  flags : back.flags = obj.flags

structure SameFile (file back : IncludedFileDesc) : Prop where
  name : cString back.name = cString file.name
  dataSize : back.dataSize = file.dataSize

/-- The same entries in the same order; for the dependencies, in each of the categories by which they are stored. -/
structure SameHeader (header back : Header1) : Prop where
  objectCount : back.objectCount = header.objectCount
  objects : List.Forall₂ SameDesc header.objects back.objects
  pluginDepCount : back.pluginDepCount = header.pluginDepCount
  deps : ∀ category, inCategory back.pluginDeps category = inCategory header.pluginDeps category
  includedFileCount : back.includedFileCount = header.includedFileCount
  files : List.Forall₂ SameFile header.includedFiles back.includedFiles

def ComesAgain (header : Header1) : Prop := ¬ AbsentTable header ∧ ∃ bytes back,
  header1Serialize header = .ok bytes ∧ header1Parse bytes header.objectCount = .ok back ∧ SameHeader header back

section Conditions
variable (buffer : List UInt8) (objectCount : UInt32)

def parsePlugins : Run Nat (UInt32 × List PluginDep) := do
  let pos ← Action.read id
  (if pos < buffer.length then parsePluginDeps buffer else pure (0,[]))

/-- The buffer holds as many GUIDs for its categories as a first pass over them adds up, unless that is none. -/
def PluginsHeld : Prop :=
  ∀ objects pos categoryCount start total stop, (parseObjects buffer objectCount).run 0 = (.ok objects,pos) →
    (header1Field buffer).run pos = (.ok categoryCount,start) →
      (countPlugins buffer categoryCount.toNat 0).run start = (.ok total,stop) → total ≠ 0 →
        heldGuids buffer categoryCount.toNat start = total.toNat

/-- The included files have a table, or none is declared. -/
def IncludedGiven : Prop :=
  ∀ plugins pos count size middle stop,
    (parseObjects buffer objectCount >>= fun _ => parsePlugins buffer).run 0 = (.ok plugins,pos) →
      pos + 8 ≤ buffer.length → (nextU32Le buffer).run pos = (.ok count,middle) →
        (nextU32Le buffer).run middle = (.ok size,stop) → size = 0 → count = 0

end Conditions

section Dependencies
variable {buffer : List UInt8} {pos next : Nat}

theorem readGuids_unversioned {category total : UInt32} {count : Nat} {deps stored : List PluginDep}
    (ok : (readGuids buffer category total count deps).run pos = (.ok stored,next))
    (plain : ∀ dep ∈ deps, dep.version = 0) : ∀ dep ∈ stored, dep.version = 0 := by
  induction count generalizing pos deps with
  | zero =>
    obtain ⟨same,_⟩ := Prod.mk.inj ok
    rwa [← Except.ok.inj same]
  | succ count ih =>
    obtain ⟨_,_,_,ok⟩ := Action.bind_success ok
    obtain ⟨_,_,_,ok⟩ := Action.bind_success ok
    obtain ⟨d1,_,_,ok⟩ := Action.bind_success ok
    obtain ⟨d2,_,_,ok⟩ := Action.bind_success ok
    refine ih ok fun dep member => ?_
    rcases List.mem_append.mp member with before | last
    · exact plain dep before
    · rw [List.mem_singleton.mp last]

theorem readCategories_unversioned {total : UInt32} {count : Nat} {deps stored : List PluginDep}
    (ok : (readCategories buffer total count deps).run pos = (.ok stored,next))
    (plain : ∀ dep ∈ deps, dep.version = 0) : ∀ dep ∈ stored, dep.version = 0 := by
  induction count generalizing pos deps with
  | zero =>
    obtain ⟨same,_⟩ := Prod.mk.inj ok
    rwa [← Except.ok.inj same]
  | succ count ih =>
    obtain ⟨_,_,_,ok⟩ := Action.bind_success ok
    obtain ⟨_,_,_,ok⟩ := Action.bind_success ok
    obtain ⟨_,_,guids,ok⟩ := Action.bind_success ok
    exact ih ok (readGuids_unversioned guids plain)

theorem header1Field_short (short : buffer.length < pos + 4) (word : UInt32) :
    (header1Field buffer).run pos ≠ (.ok word,next) := by
  intro read
  rw [header1Field,Action.bind_error _ (check_short short)] at read
  cases read

/-- Categories that are read to the end have stored what the buffer holds for them, inside their array. -/
theorem readCategories_held {total : UInt32} {count : Nat} {deps stored : List PluginDep}
    (ok : (readCategories buffer total count deps).run pos = (.ok stored,next)) (room : deps.length ≤ total.toNat)
    (inside : pos ≤ buffer.length) : stored.length = deps.length + heldGuids buffer count pos ∧ stored.length ≤ total.toNat := by
  induction count generalizing pos deps with
  | zero =>
    obtain ⟨same,_⟩ := Prod.mk.inj ok
    rw [← Except.ok.inj same]
    exact ⟨rfl,room⟩
  | succ count ih =>
    obtain ⟨category,middle,first,ok⟩ := Action.bind_success ok
    obtain ⟨declared,start,second,ok⟩ := Action.bind_success ok
    obtain ⟨more,last,guids,ok⟩ := Action.bind_success ok
    have front : pos + 4 ≤ buffer.length := Nat.not_lt.mp fun short => header1Field_short short _ first
    obtain ⟨_,_,_,_,_,first'⟩ := header1Field_room front
    obtain rfl : middle = pos + 4 := congrArg Prod.snd (first.symm.trans first')
    have header : pos + 4 + 4 ≤ buffer.length := Nat.not_lt.mp fun short => header1Field_short short _ second
    obtain ⟨a,b,c,d,four,second'⟩ := header1Field_room header
    obtain rfl : start = pos + 8 := congrArg Prod.snd (second.symm.trans second')
    obtain rfl : declared = bytesWord a b c d := by
      have same := congrArg Prod.fst (second.symm.trans second')
      exact Except.ok.inj same
    rw [heldGuids_succ count four]
    rcases readGuids_cases category total (bytesWord a b c d).toNat deps room header with
      ⟨stored',run,size,fits,held⟩ | ⟨next',run,_⟩ | ⟨index,next',run,_⟩
    · rw [guids] at run
      obtain rfl : more = stored' := Except.ok.inj (congrArg Prod.fst run)
      obtain rfl : last = _ := congrArg Prod.snd run
      have within : pos + 8 + (bytesWord a b c d).toNat * 8 ≤ buffer.length := by omega
      obtain ⟨length,bound⟩ := ih ok fits within
      rw [if_pos held]
      exact ⟨by rw [length,size,Nat.add_assoc],bound⟩
    · rw [guids] at run
      cases run
    · rw [guids] at run
      cases run

/-- The dependencies that are parsed at a position: none, or those of a second pass over what the first has counted. -/
theorem parsePluginDeps_cases {total : UInt32} {deps : List PluginDep} (inside : pos ≤ buffer.length)
    (ok : (parsePluginDeps buffer).run pos = (.ok (total,deps),next)) : ∃ categoryCount start,
      (header1Field buffer).run pos = (.ok categoryCount,start) ∧ (total = 0 ∧ deps = [] ∧
        (∀ counted stop, (countPlugins buffer categoryCount.toNat 0).run start = (.ok counted,stop) → counted = 0) ∨
        total ≠ 0 ∧ (∃ stop, (countPlugins buffer categoryCount.toNat 0).run start = (.ok total,stop)) ∧
          deps.length = heldGuids buffer categoryCount.toNat start ∧ deps.length ≤ total.toNat ∧
          ∀ dep ∈ deps, dep.version = 0) := by
  obtain ⟨categoryCount,start,first,ok⟩ := Action.bind_success ok
  refine ⟨categoryCount,start,first,?_⟩
  have within : start ≤ buffer.length := by
    have reached := (tame_field pos inside).2
    rwa [first] at reached
  split at ok
  · rename_i zero
    obtain ⟨same,_⟩ := Prod.mk.inj ok
    obtain ⟨rfl,rfl⟩ := Prod.mk.inj (Except.ok.inj same)
    refine .inl ⟨rfl,rfl,fun counted stop run => ?_⟩
    rw [zero] at run
    exact (Except.ok.inj (congrArg Prod.fst run)).symm
  · rw [Action.bind_ok _ (Action.read_apply id start)] at ok
    obtain ⟨counted,stop,pass,ok⟩ := Action.bind_success ok
    rw [Action.bind_ok _ (Action.update_apply _ stop)] at ok
    split at ok
    · rename_i none
      obtain ⟨same,_⟩ := Prod.mk.inj ok
      obtain ⟨rfl,rfl⟩ := Prod.mk.inj (Except.ok.inj same)
      refine .inl ⟨rfl,rfl,fun other stop' run => ?_⟩
      rw [pass] at run
      rw [← Except.ok.inj (congrArg Prod.fst run)]
      exact none
    · rename_i some
      obtain ⟨found,last,categories,ok⟩ := Action.bind_success ok
      obtain ⟨same,_⟩ := Prod.mk.inj ok
      obtain ⟨rfl,rfl⟩ := Prod.mk.inj (Except.ok.inj same)
      obtain ⟨held,fits⟩ := readCategories_held categories (Nat.zero_le _) within
      rw [List.length_nil,Nat.zero_add] at held
      exact .inr ⟨some,⟨stop,pass⟩,held,fits,readCategories_unversioned categories (by simp)⟩

end Dependencies

section Accepted
variable {buffer : List UInt8} {pos next : Nat}

/-- The included files that are parsed at a position: none without room for their count, and else as many as the
count says, or none where their table has no size. -/
theorem parseIncludedFiles_cases {count : UInt32} {files : List IncludedFileDesc} (inside : pos ≤ buffer.length)
    (ok : (parseIncludedFiles buffer).run pos = (.ok (count,files),next)) :
    buffer.length < pos + 8 ∧ count = 0 ∧ files = [] ∨
      pos + 8 ≤ buffer.length ∧ ∃ size middle stop, (nextU32Le buffer).run pos = (.ok count,middle) ∧
        (nextU32Le buffer).run middle = (.ok size,stop) ∧ (files.map fun file => 8 + file.name.length).sum ≤ size.toNat ∧
        (size = 0 → files = []) ∧ (size ≠ 0 → files.length = count.toNat) := by
  rw [parseIncludedFiles,Action.bind_ok _ (Action.read_apply id pos),id] at ok
  split at ok
  · rename_i room
    obtain ⟨includedCount,middle,first,ok⟩ := Action.bind_success ok
    obtain ⟨size,start,second,ok⟩ := Action.bind_success ok
    rw [Action.bind_ok _ (Action.read_apply id start)] at ok
    have within : start ≤ buffer.length := by
      have halfway := (tame_nextU32Le pos inside).2
      rw [first] at halfway
      have reached := (tame_nextU32Le middle halfway).2
      rwa [second] at reached
    obtain ⟨rfl,bound⟩ := includedTable_success within ok
    refine .inr ⟨room,size,middle,start,first,second,bound,?_⟩
    obtain ⟨_,ok⟩ := Action.check_success ok
    obtain ⟨found,last,parsed,ok⟩ := Action.bind_success ok
    rw [Action.bind_ok _ (Action.update_apply _ last)] at ok
    obtain ⟨same,_⟩ := Prod.mk.inj ok
    obtain ⟨_,rfl⟩ := Prod.mk.inj (Except.ok.inj same)
    split at parsed
    · rename_i none
      obtain ⟨empty,_⟩ := Prod.mk.inj parsed
      obtain rfl := Except.ok.inj empty
      refine ⟨fun _ => rfl,fun some => ?_⟩
      rw [none.resolve_right some]
      rfl
    · rename_i some
      refine ⟨fun zero => absurd (.inr zero) some,fun _ => Action.times_length parsed⟩
  · rename_i short
    obtain ⟨same,_⟩ := Prod.mk.inj ok
    obtain ⟨rfl,rfl⟩ := Prod.mk.inj (Except.ok.inj same)
    exact .inl ⟨Nat.not_le.mp short,rfl,rfl⟩

/-- The three parts of a buffer that is accepted. -/
theorem header1Parse_parts {objectCount : UInt32} {header : Header1} (parsed : header1Parse buffer objectCount = .ok header) :
    header.objectCount = objectCount ∧ ∃ pos pos' stop, pos ≤ buffer.length ∧ pos' ≤ buffer.length ∧
      (parseObjects buffer objectCount).run 0 = (.ok header.objects,pos) ∧
      (parsePlugins buffer).run pos = (.ok (header.pluginDepCount,header.pluginDeps),pos') ∧
      (parseIncludedFiles buffer).run pos' = (.ok (header.includedFileCount,header.includedFiles),stop) := by
  rw [header1Parse] at parsed
  generalize run : (header1Fields buffer objectCount).run 0 = out at parsed
  obtain ⟨outcome,last⟩ := out
  obtain rfl : outcome = .ok header := parsed
  obtain ⟨objects,pos,first,run⟩ := Action.bind_success run
  rw [Action.bind_ok _ (Action.read_apply id pos)] at run
  obtain ⟨plugins,pos',second,run⟩ := Action.bind_success run
  obtain ⟨included,stop,third,run⟩ := Action.bind_success run
  obtain ⟨same,_⟩ := Prod.mk.inj run
  obtain rfl := Except.ok.inj same
  have within : pos ≤ buffer.length := by
    have reached := (tame_objects objectCount 0 (Nat.zero_le buffer.length)).2
    rwa [first] at reached
  refine ⟨rfl,pos,pos',stop,within,?_,first,?_,third⟩
  · rw [id] at second
    split at second
    · have reached := (parsePluginDeps_overruns within).2
      rwa [second] at reached
    · obtain ⟨_,rfl⟩ := Prod.mk.inj second
      exact within
  · rw [parsePlugins,Action.bind_ok _ (Action.read_apply id pos)]
    exact second

/-- An accepted descriptor fits its bytes, and its flags are the reference bit or none. -/
theorem header1Parse_descs {objectCount : UInt32} {header : Header1} (parsed : header1Parse buffer objectCount = .ok header) :
    ∃ descs : List StoredDesc, descs.length = objectCount.toNat ∧ header.objects = descs.map StoredDesc.parsed := by
  obtain ⟨descs,rest,count,same⟩ := header1Parse_stored parsed
  rw [same] at parsed
  exact ⟨descs,count,header1Parse_objects count parsed⟩

variable {objectCount : UInt32} {header : Header1} (parsed : header1Parse buffer objectCount = .ok header)
include parsed

theorem deps_filled_iff : header.pluginDeps.length ≤ header.pluginDepCount.toNat ∧ (∀ dep ∈ header.pluginDeps, dep.version = 0) ∧
    (header.pluginDeps.length = header.pluginDepCount.toNat ↔ PluginsHeld buffer objectCount) := by
  obtain ⟨_,pos,_,_,inside,_,objects,plugins,_⟩ := header1Parse_parts parsed
  rw [parsePlugins,Action.bind_ok _ (Action.read_apply id pos),id] at plugins
  split at plugins
  · obtain ⟨categoryCount,start,field,none | some⟩ := parsePluginDeps_cases inside plugins
    · obtain ⟨zero,empty,uncounted⟩ := none
      rw [zero,empty]
      refine ⟨Nat.zero_le _,by simp,iff_of_true rfl ?_⟩
      intro _ _ _ _ counted stop objects' field' pass positive
      cases objects.symm.trans objects'
      cases field.symm.trans field'
      exact absurd (uncounted counted stop pass) positive
    · obtain ⟨positive,⟨stop,pass⟩,held,fits,plain⟩ := some
      refine ⟨fits,plain,?_⟩
      constructor
      · intro whole _ _ _ _ _ _ objects' field' pass' _
        cases objects.symm.trans objects'
        cases field.symm.trans field'
        cases pass.symm.trans pass'
        rw [← held,whole]
      · intro all
        rw [held]
        exact all _ _ _ _ _ _ objects field pass positive
  · rename_i past
    obtain ⟨same,_⟩ := Prod.mk.inj plugins
    obtain ⟨zero,empty⟩ := Prod.mk.inj (Except.ok.inj same)
    rw [← zero,← empty]
    refine ⟨Nat.zero_le _,by simp,iff_of_true rfl ?_⟩
    intro _ _ _ start _ _ objects' field
    cases objects.symm.trans objects'
    exact absurd field (header1Field_short (by omega) _)

theorem files_filled_iff : (header.includedFiles.map fun file => 8 + file.name.length).sum < 2 ^ 32 ∧
    (header.includedFiles = [] ∨ header.includedFiles.length = header.includedFileCount.toNat) ∧
    (header.includedFiles.length = header.includedFileCount.toNat ↔ IncludedGiven buffer objectCount) := by
  obtain ⟨_,pos,pos',_,_,inside,objects,plugins,included⟩ := header1Parse_parts parsed
  have place : (parseObjects buffer objectCount >>= fun _ => parsePlugins buffer).run 0 =
      (.ok (header.pluginDepCount,header.pluginDeps),pos') := by
    rw [Action.bind_ok _ objects,plugins]
  rcases parseIncludedFiles_cases inside included with ⟨short,none,empty⟩ | ⟨room,size,middle,stop,first,second,sum,absent,whole⟩
  · rw [none,empty]
    refine ⟨by decide,.inl rfl,iff_of_true rfl ?_⟩
    intro _ _ _ _ _ _ place' room
    cases place.symm.trans place'
    omega
  · refine ⟨Nat.lt_of_le_of_lt sum size.toNat_lt,?_,?_⟩
    · by_cases zero : size = 0
      · exact .inl (absent zero)
      · exact .inr (whole zero)
    constructor
    · intro filled _ _ _ _ _ _ place' _ first' second' zero
      cases place.symm.trans place'
      cases first.symm.trans first'
      cases second.symm.trans second'
      rw [absent zero] at filled
      exact UInt32.toNat_inj.mp filled.symm
    · intro given
      by_cases zero : size = 0
      · rw [given _ _ _ _ _ _ place room first second zero,absent zero]
        rfl
      · exact whole zero

end Accepted

section Groups
variable {deps : List PluginDep}

theorem inCategory_grouped (deps : List PluginDep) (categories : List UInt32) (distinct : categories.Nodup) (category : UInt32) :
    inCategory (categories.flatMap (inCategory deps)) category =
      if category ∈ categories then inCategory deps category else [] := by
  induction categories with
  | nil => rfl
  | cons first rest ih =>
    obtain ⟨fresh,distinct⟩ := List.nodup_cons.mp distinct
    have once : inCategory (inCategory deps first) category = if category = first then inCategory deps category else [] := by
      split
      · rename_i same
        rw [inCategory,same,inCategory,List.filter_filter]
        refine List.filter_congr fun dep _ => ?_
        rw [Bool.and_self]
      · rename_i other
        refine List.filter_eq_nil_iff.mpr fun dep member => ?_
        rw [inCategory,List.mem_filter,decide_eq_true_eq] at member
        rw [decide_eq_true_eq]
        exact fun same => other (same.symm.trans member.2)
    have split : inCategory ((first :: rest).flatMap (inCategory deps)) category =
        inCategory (inCategory deps first) category ++ inCategory (rest.flatMap (inCategory deps)) category := by
      rw [List.flatMap_cons,inCategory,List.filter_append]
      rfl
    rw [split,once,ih distinct]
    by_cases same : category = first
    · subst same
      rw [if_pos rfl,if_neg fresh,if_pos (List.mem_cons_self ..),List.append_nil]
    · rw [if_neg same,List.nil_append]
      refine if_congr ?_ rfl rfl
      exact ⟨List.mem_cons_of_mem first,fun member => (List.mem_cons.mp member).resolve_left same⟩

/-- Dependencies without versions come back as they are, in the order of the standard categories. -/
theorem regrouped_plain (few : deps.length < 2 ^ 32) (plain : ∀ dep ∈ deps, dep.version = 0) :
    regrouped deps = pluginCategories.flatMap (inCategory deps) := by
  rw [← usedCategories_whole few,regrouped,pluginGroups,List.flatMap_map]
  congr 1
  funext category
  rw [readGroup]
  refine (List.map_congr_left fun dep member => ?_).trans (List.map_id _)
  rw [inCategory,List.mem_filter,decide_eq_true_eq] at member
  rw [readDep,id,← member.2,← plain dep member.1]

/-- Every category comes back just when all are standard ones. -/
theorem regrouped_same_iff (few : deps.length < 2 ^ 32) (plain : ∀ dep ∈ deps, dep.version = 0) :
    (∀ category, inCategory (regrouped deps) category = inCategory deps category) ↔
      ∀ dep ∈ deps, dep.category ∈ pluginCategories := by
  have grouped (category : UInt32) := inCategory_grouped deps pluginCategories (by decide) category
  rw [regrouped_plain few plain]
  constructor
  · intro same dep member
    by_contra other
    have kept := same dep.category
    rw [grouped,if_neg other] at kept
    have found : dep ∈ inCategory deps dep.category := List.mem_filter.mpr ⟨member,decide_eq_true rfl⟩
    rw [← kept] at found
    cases found
  · intro standard category
    rw [grouped]
    split
    · rfl
    · rename_i other
      refine (List.filter_eq_nil_iff.mpr fun dep member => ?_).symm
      rw [decide_eq_true_eq]
      exact fun same => other (same ▸ standard dep member)

end Groups

section Again
variable {buffer : List UInt8} {objectCount : UInt32} {header : Header1}

theorem sameDesc_parsed {first second : StoredDesc} (recovered : DescRecovered first.parsed second.parsed) :
    SameDesc first.parsed second.parsed where
  fileId := recovered.fileId
  classId := recovered.classId
  fileIndex := recovered.fileIndex
  name := by
    rw [recovered.name]
    exact List.takeWhile_idem
  flags := by
    have reference := recovered.reference
    simp only [StoredDesc.parsed,hasFlag_referenceOnly] at reference ⊢
    rw [reference]

theorem filled_iff (parsed : header1Parse buffer objectCount = .ok header) :
    header.Filled ↔ IncludedGiven buffer objectCount ∧ PluginsHeld buffer objectCount := by
  obtain ⟨descs,count,objects⟩ := header1Parse_descs parsed
  have same := (header1Parse_parts parsed).1
  rw [← (deps_filled_iff parsed).2.2,← (files_filled_iff parsed).2.2]
  constructor
  · exact fun filled => ⟨filled.files,filled.deps⟩
  · rintro ⟨files,deps⟩
    exact ⟨by rw [objects,List.length_map,count,same],deps,files⟩

theorem tableEntries_room {α : Type} {count : UInt32} {table entries : List α} (ok : tableEntries count table = .ok entries) :
    count.toNat ≤ table.length := by
  rw [tableEntries] at ok
  split at ok
  · cases ok
  · rename_i room
    exact Nat.not_lt.mp room

theorem filled_of_serialized {bytes : List UInt8} (parsed : header1Parse buffer objectCount = .ok header)
    (serialized : header1Serialize header = .ok bytes) : header.Filled := by
  obtain ⟨_,objects,ok⟩ := bind_result serialized
  obtain ⟨_,deps,ok⟩ := bind_result ok
  obtain ⟨_,files,_⟩ := bind_result ok
  obtain ⟨descs,count,same⟩ := header1Parse_descs parsed
  refine ⟨?_,Nat.le_antisymm (deps_filled_iff parsed).1 (tableEntries_room deps),?_⟩
  · rw [same,List.length_map,count,(header1Parse_parts parsed).1]
  · rcases (files_filled_iff parsed).2.1 with empty | whole
    · have room := tableEntries_room files
      rw [empty] at room ⊢
      exact (Nat.eq_zero_of_le_zero room).symm
    · exact whole

theorem sameHeader_objects {descs descs' : List StoredDesc}
    (recovered : List.Forall₂ DescRecovered (descs.map StoredDesc.parsed) (descs'.map StoredDesc.parsed)) :
    List.Forall₂ SameDesc (descs.map StoredDesc.parsed) (descs'.map StoredDesc.parsed) := by
  rw [List.forall₂_map_left_iff,List.forall₂_map_right_iff] at recovered ⊢
  exact recovered.imp fun _ _ => sameDesc_parsed

theorem sameHeader_files {files files' : List IncludedFileDesc} (recovered : List.Forall₂ FileRecovered files files') :
    List.Forall₂ SameFile files files' := by
  refine recovered.imp fun file back same => ⟨?_,same.dataSize⟩
  rw [same.name]
  exact List.takeWhile_idem

/-- What is stored of the objects of an accepted Header1, and its bytes. -/
theorem accepted_stores (parsed : header1Parse buffer objectCount = .ok header) : ∃ descs : List StoredDesc,
    List.Forall₂ Stores header.objects descs ∧ descs.flatMap StoredDesc.bytes = header.objects.flatMap descBytes ∧
      ∃ accepted : List StoredDesc, header.objects = accepted.map StoredDesc.parsed := by
  obtain ⟨accepted,_,objects⟩ := header1Parse_descs parsed
  obtain ⟨descs,stores,same⟩ := stores_all header.objects fun obj member => by
    rw [objects] at member
    obtain ⟨stored,_,rfl⟩ := List.mem_map.mp member
    have shorter := (List.takeWhile_prefix (fun byte : UInt8 => decide (byte ≠ 0)) (l := stored.name)).length_le
    exact Nat.lt_of_le_of_lt (Nat.succ_le_succ shorter) stored.nameFits
  exact ⟨descs,stores,same,accepted,objects⟩

/-- An accepted Header1 comes again from its bytes exactly when no included files are declared without a table, the
buffer holds the GUIDs that were counted, and these are of standard categories, none of them with 2^29 or more. -/
theorem header1_again_iff (parsed : header1Parse buffer objectCount = .ok header) : ComesAgain header ↔
    IncludedGiven buffer objectCount ∧ PluginsHeld buffer objectCount ∧
      (∀ dep ∈ header.pluginDeps, dep.category ∈ pluginCategories) ∧ GuidsFit header.pluginDeps := by
  obtain ⟨bounded,plain,_⟩ := deps_filled_iff parsed
  have few : header.pluginDeps.length < 2 ^ 32 := Nat.lt_of_le_of_lt bounded header.pluginDepCount.toNat_lt
  obtain ⟨descs,stores,same,accepted,objects⟩ := accepted_stores parsed
  constructor
  · rintro ⟨_,bytes,back,serialized,again,alike⟩
    have filled := filled_of_serialized parsed serialized
    obtain ⟨included,held⟩ := (filled_iff parsed).mp filled
    obtain ⟨guids,rfl⟩ := (header1Serialize_iff filled bytes).mp serialized
    obtain ⟨total,pos,_,_,tables⟩ :=
      header1Parse_counted filled (stores.length_eq.symm.trans filled.objects) same guids
    obtain ⟨count,files,next,_,rfl⟩ := (tables back).mp again
    exact ⟨included,held,(regrouped_same_iff few plain).mp alike.deps,guids⟩
  · rintro ⟨included,held,standard,guids⟩
    have filled := (filled_iff parsed).mpr ⟨included,held⟩
    obtain ⟨total,pos,counted,ahead,tables⟩ :=
      header1Parse_counted filled (stores.length_eq.symm.trans filled.objects) same guids
    have small : (header.includedFiles.map fun file => 8 + (cString file.name).length).sum < 2 ^ 32 := by
      refine Nat.lt_of_le_of_lt (List.sum_le_sum fun file _ => ?_) (files_filled_iff parsed).1
      have shorter := (List.takeWhile_prefix (fun byte : UInt8 => decide (byte ≠ 0)) (l := file.name)).length_le
      exact Nat.add_le_add_left shorter 8
    obtain ⟨count,files,next,run,all,fileCount⟩ := (parseIncludedFiles_iff filled ahead).mpr small
    refine ⟨?_,header1Bytes header,_,(header1Serialize_iff filled _).mpr ⟨guids,rfl⟩,
      (tables _).mpr ⟨count,files,next,run,rfl⟩,?_⟩
    · have present {α : Type} {count : UInt32} {table : List α} (all : table.length = count.toNat) :
          ¬ (count ≠ 0 ∧ table = []) := by
        rintro ⟨some,rfl⟩
        exact some (UInt32.toNat_inj.mp all.symm)
      exact not_or.mpr ⟨present filled.objects,not_or.mpr ⟨present filled.deps,present filled.files⟩⟩
    · have recovered := forall₂_recovered stores fun obj member => by
        rw [objects] at member
        obtain ⟨stored,_,rfl⟩ := List.mem_map.mp member
        exact referenceFlag_parsed stored
      have number : total = header.pluginDepCount := by
        have length := ((regrouped_perm_iff few).mpr standard).length_eq
        rw [List.length_map,List.length_map,← counted,filled.deps] at length
        exact UInt32.toNat_inj.mp length
      rw [objects] at recovered
      refine ⟨rfl,?_,number,(regrouped_same_iff few plain).mpr standard,fileCount,sameHeader_files all⟩
      rw [objects]
      exact sameHeader_objects recovered

end Again

/-- One dependency of category 2, and no included files. -/
def oneDependency : List UInt8 := encodeWords [1,2,1,5,6,0,0]

theorem oneDependency_again : ∃ header, header1Parse oneDependency 0 = .ok header ∧ ComesAgain header := by
  refine ⟨_,rfl,(header1_again_iff (show header1Parse oneDependency 0 = .ok _ from rfl)).mpr ⟨?_,?_,by decide,?_⟩⟩
  · intro _ _ _ _ _ _ place _ first _ _
    cases place
    cases first
    rfl
  · intro _ _ _ _ _ _ objects field pass _
    cases objects
    cases field
    cases pass
    decide +kernel
  · intro category _
    exact Nat.lt_of_le_of_lt (Nat.mul_le_mul_right 8 (List.length_filter_le ..)) (by decide)

/-- No dependencies, and one included file in a table without size. -/
theorem declaredFile_absent : ∃ header, header1Parse (encodeWords [0,1,0]) 0 = .ok header ∧ AbsentTable header ∧
    header1Serialize header = .error (.overread 0) :=
  ⟨_,rfl,.inr (.inr ⟨by decide,rfl⟩),rfl⟩

end Libnmo.Format
