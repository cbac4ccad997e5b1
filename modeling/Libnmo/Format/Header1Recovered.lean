import Libnmo.Core.Error
import Libnmo.Format.Header1RoundTrip

/-! When a Header1 comes back from its bytes. A name counts up to its terminator, and
the version of a dependency is not stored. -/
namespace Libnmo.Format
open Core Lib Lib.LittleEndian Lib.Cursor

structure DescRecovered (obj back : ObjectDesc) : Prop where
  fileId : back.fileId = obj.fileId
  reference : hasFlag back.flags objectReferenceFlag = hasFlag obj.flags objectReferenceFlag
  classId : back.classId = obj.classId
  fileIndex : back.fileIndex = obj.fileIndex
  name : back.name = cString obj.name

structure FileRecovered (file back : IncludedFileDesc) : Prop where
  name : back.name = cString file.name
  dataSize : back.dataSize = file.dataSize

def pluginKey (dep : PluginDep) : UInt32 × Guid := (dep.category,dep.guid)

structure Header1Recovered (header back : Header1) : Prop where
  objects : List.Forall₂ DescRecovered header.objects back.objects
  deps : (back.pluginDeps.map pluginKey).Perm (header.pluginDeps.map pluginKey)
  files : List.Forall₂ FileRecovered header.includedFiles back.includedFiles
  fileCount : back.includedFileCount = header.includedFileCount

/-- The ID leaves bit 23 to the flag, and the size of the name with its terminator is one of 32 bits. -/
structure DescFits (obj : ObjectDesc) : Prop where
  plain : hasFlag obj.fileId objectReferenceFlag = false
  name : (cString obj.name).length + 1 < 2 ^ 32

/-- What Header1 can hold: IDs that leave bit 23 to the flag, dependencies of the five standard categories, and
lengths and sizes of 32 bits. -/
structure Portable (header : Header1) : Prop where
  objects : ∀ obj ∈ header.objects, DescFits obj
  categories : ∀ dep ∈ header.pluginDeps, dep.category ∈ pluginCategories
  guids : GuidsFit header.pluginDeps
  files : (header.includedFiles.map fun file => 8 + (cString file.name).length).sum < 2 ^ 32

theorem nameLen_cString (name : List UInt8) : nameLen name = UInt32.ofNat (cString name).length := rfl

theorem nameBytes_cString {name : List UInt8} (small : (cString name).length < 2 ^ 32) :
    (nameLen name).toNat = (cString name).length ∧ nameBytes name = cString name := by
  have length : (nameLen name).toNat = (cString name).length := by
    rw [nameLen_cString,UInt32.toNat_ofNat',Nat.mod_eq_of_lt small]
  refine ⟨length,?_⟩
  rw [nameBytes,length]
  exact (List.prefix_iff_eq_take.mp (List.takeWhile_prefix _)).symm

section Objects

/-- A descriptor and what is stored of it. -/
structure Stores (obj : ObjectDesc) (stored : StoredDesc) : Prop where
  fileId : stored.fileId = storedFileId obj
  classId : stored.classId = obj.classId
  fileIndex : stored.fileIndex = obj.fileIndex
  name : stored.name = cString obj.name

theorem stores_exists {obj : ObjectDesc} (fits : (cString obj.name).length + 1 < 2 ^ 32) : ∃ stored, Stores obj stored :=
  ⟨⟨storedFileId obj,obj.classId,obj.fileIndex,cString obj.name,fits⟩,rfl,rfl,rfl,rfl⟩

theorem stores_bytes {obj : ObjectDesc} {stored : StoredDesc} (stores : Stores obj stored) :
    stored.bytes = descBytes obj := by
  have fits := stored.nameFits
  rw [stores.name] at fits
  have name : nameBytes obj.name = cString obj.name := (nameBytes_cString (by omega)).2
  rw [nameBytes] at name
  rw [StoredDesc.bytes,descBytes,stores.fileId,stores.classId,stores.fileIndex,stores.name,name]
  rfl

theorem stores_all (objects : List ObjectDesc) (fit : ∀ obj ∈ objects, (cString obj.name).length + 1 < 2 ^ 32) :
    ∃ descs, List.Forall₂ Stores objects descs ∧ descs.flatMap StoredDesc.bytes = objects.flatMap descBytes := by
  induction objects with
  | nil => exact ⟨[],.nil,rfl⟩
  | cons obj objects ih =>
    obtain ⟨descs,all,same⟩ := ih fun other member => fit other (List.mem_cons_of_mem obj member)
    obtain ⟨stored,stores⟩ := stores_exists (fit obj (List.mem_cons_self ..))
    refine ⟨stored :: descs,.cons stores all,?_⟩
    rw [List.flatMap_cons,List.flatMap_cons,same,stores_bytes stores]

theorem and_flag_split (word : UInt32) (plain : hasFlag word objectReferenceFlag = false) :
    word &&& ~~~objectReferenceFlag = word := by
  have none : word &&& objectReferenceFlag = 0 := by simpa [hasFlag] using plain
  have whole : word &&& (objectReferenceFlag ||| ~~~objectReferenceFlag) =
      (word &&& objectReferenceFlag) ||| (word &&& ~~~objectReferenceFlag) :=
    UInt32.toBitVec_inj.mp BitVec.and_or_distrib_left
  rw [none,UInt32.zero_or,show objectReferenceFlag ||| ~~~objectReferenceFlag = -1 from rfl,UInt32.and_neg_one] at whole
  exact whole.symm

theorem hasFlag_storedFileId {obj : ObjectDesc} (plain : hasFlag obj.fileId objectReferenceFlag = false) :
    hasFlag (storedFileId obj) objectReferenceFlag = hasFlag obj.flags objectReferenceFlag := by
  rw [storedFileId]
  split
  · rename_i reference
    rw [hasFlag_or,plain,reference]
    rfl
  · rename_i normal
    rw [plain]
    exact (Bool.not_eq_true _ ▸ normal).symm

theorem hasFlag_referenceOnly (b : Bool) :
    hasFlag (if b then objectReferenceFlag else 0) objectReferenceFlag = b := by
  cases b <;> rfl

/-- What is stored of a descriptor is parsed as the descriptor when the ID leaves bit 23 to the flag. -/
theorem recovered_parsed {obj : ObjectDesc} {stored : StoredDesc} (stores : Stores obj stored)
    (plain : hasFlag obj.fileId objectReferenceFlag = false) : DescRecovered obj stored.parsed where
  fileId := by
    change stored.fileId &&& ~~~objectReferenceFlag = obj.fileId
    rw [stores.fileId,stored_cleared,and_flag_split obj.fileId plain]
  reference := by
    change hasFlag (if stored.referenceOnly then objectReferenceFlag else 0) objectReferenceFlag = _
    rw [hasFlag_referenceOnly,StoredDesc.referenceOnly,stores.fileId,hasFlag_storedFileId plain]
  classId := stores.classId
  fileIndex := stores.fileIndex
  name := stores.name

theorem fits_recovered {obj : ObjectDesc} {stored : StoredDesc} (recovered : DescRecovered obj stored.parsed) :
    DescFits obj where
  plain := by
    rw [← recovered.fileId]
    exact referenceFlag_parsed stored
  name := by
    have fits := stored.nameFits
    rw [← recovered.name]
    exact fits

end Objects

section Plugins
variable {deps : List PluginDep}

theorem grouped_perm (categories : List UInt32) (distinct : categories.Nodup) (deps : List PluginDep) :
    (categories.flatMap (inCategory deps)).Perm (deps.filter fun dep => dep.category ∈ categories) := by
  induction categories with
  | nil => simp
  | cons category categories ih =>
    obtain ⟨fresh,distinct⟩ := List.nodup_cons.mp distinct
    have parts := List.filter_append_perm (fun dep : PluginDep => decide (dep.category = category))
      (deps.filter fun dep => dep.category ∈ category :: categories)
    have first : (deps.filter fun dep => dep.category ∈ category :: categories).filter
        (fun dep => decide (dep.category = category)) = inCategory deps category := by
      rw [List.filter_filter,inCategory]
      refine List.filter_congr fun dep _ => ?_
      by_cases same : dep.category = category <;> simp [same]
    have others : (deps.filter fun dep => dep.category ∈ category :: categories).filter
        (fun dep => !decide (dep.category = category)) = deps.filter fun dep => dep.category ∈ categories := by
      rw [List.filter_filter]
      refine List.filter_congr fun dep _ => ?_
      by_cases same : dep.category = category <;> simp [same,fresh]
    rw [first,others] at parts
    exact (List.Perm.append_left _ (ih distinct)).trans parts

/-- A category that is not used has no dependencies. -/
theorem usedCategories_whole (few : deps.length < 2 ^ 32) :
    (usedCategories deps).flatMap (inCategory deps) = pluginCategories.flatMap (inCategory deps) := by
  rw [usedCategories,flatMap_filter]
  congr 1
  funext category
  have count := toNat_count32 _ ((inCategory_length_le deps category).trans_lt few)
  split
  · rfl
  · rename_i unused
    rw [decide_eq_true_eq,gt_iff_lt,UInt32.lt_iff_toNat_lt,count] at unused
    exact (List.length_eq_zero_iff.mp (Nat.eq_zero_of_not_pos unused)).symm

theorem regrouped_keys (few : deps.length < 2 ^ 32) :
    (regrouped deps).map pluginKey = (pluginCategories.flatMap (inCategory deps)).map pluginKey := by
  rw [← usedCategories_whole few,regrouped,pluginGroups,List.flatMap_map,List.map_flatMap,List.map_flatMap]
  congr 1
  funext category
  rw [readGroup,List.map_map]
  refine List.map_congr_left fun dep member => ?_
  rw [inCategory,List.mem_filter,decide_eq_true_eq] at member
  rw [pluginKey,← member.2]
  rfl

/-- The dependencies that come back are those of the standard categories. -/
theorem regrouped_perm_iff (few : deps.length < 2 ^ 32) :
    ((regrouped deps).map pluginKey).Perm (deps.map pluginKey) ↔ ∀ dep ∈ deps, dep.category ∈ pluginCategories := by
  have grouped := grouped_perm pluginCategories (by decide) deps
  rw [regrouped_keys few]
  constructor
  · intro perm
    have length := perm.length_eq
    rw [List.length_map,List.length_map,grouped.length_eq,List.length_filter_eq_length_iff] at length
    intro dep member
    simpa using length dep member
  · intro standard
    rw [List.filter_eq_self.mpr (fun dep member => decide_eq_true (standard dep member))] at grouped
    exact grouped.map pluginKey

end Plugins

section Files
variable {buffer : List UInt8}

theorem nextU32Le_success {pos next : Nat} {word : UInt32} (ok : (nextU32Le buffer).run pos = (.ok word,next)) :
    next = pos + 4 := by
  simp only [nextU32Le] at ok
  split at ok
  · simp only [Prod.mk.injEq] at ok
    exact ok.2.symm
  · simp at ok

theorem checkTable_success {tableEnd needed pos next : Nat} {message : String}
    (ok : (checkTable tableEnd needed message).run pos = (.ok (),next)) : next = pos ∧ pos + needed ≤ tableEnd := by
  simp only [checkTable] at ok
  split at ok
  · simp at ok
  · simp only [Prod.mk.injEq,true_and] at ok
    exact ⟨ok.symm,by omega⟩

/-- An included file that is parsed takes its bytes from the table. -/
theorem parseIncludedFile_success {tableEnd pos next : Nat} {file : IncludedFileDesc} (whole : tableEnd ≤ buffer.length)
    (ok : (parseIncludedFile buffer tableEnd).run pos = (.ok file,next)) :
    next = pos + (8 + file.name.length) ∧ next ≤ tableEnd := by
  obtain ⟨_,start,first,run⟩ := Action.bind_success ok
  obtain ⟨nameLen,between,length,run⟩ := Action.bind_success run
  obtain ⟨name,middle,named,run⟩ := Action.bind_success run
  obtain ⟨_,last,room,run⟩ := Action.bind_success run
  obtain ⟨dataSize,stop,size,run⟩ := Action.bind_success run
  obtain ⟨begun,_⟩ := checkTable_success first
  obtain ⟨ended,inside⟩ := checkTable_success room
  have read := nextU32Le_success length
  have left := nextU32Le_success size
  simp only [Action.pure_apply,Prod.mk.injEq,Except.ok.injEq] at run
  have taken : middle = between + name.length := by
    split at named
    · obtain ⟨_,_,fits,copied⟩ := Action.bind_success named
      obtain ⟨same,bound⟩ := checkTable_success fits
      obtain ⟨_,copied⟩ := Action.check_success copied
      simp only [nextBytes,Prod.mk.injEq,Except.ok.injEq] at copied
      rw [← copied.1,length_slice buffer _ _ (by omega),← same]
      exact copied.2.symm
    · simp only [Action.pure_apply,Prod.mk.injEq,Except.ok.injEq] at named
      rw [← named.1]
      exact named.2.symm
  rw [← run.1]
  constructor
  · change next = pos + (8 + name.length)
    omega
  · omega

theorem parseIncludedFile_times {tableEnd : Nat} (whole : tableEnd ≤ buffer.length) (count : Nat) {pos next : Nat}
    {files : List IncludedFileDesc} (starts : pos ≤ tableEnd)
    (ok : ((parseIncludedFile buffer tableEnd).times count).run pos = (.ok files,next)) :
    pos + (files.map fun file => 8 + file.name.length).sum ≤ tableEnd := by
  induction count generalizing pos next files with
  | zero =>
    simp only [Action.times,Action.pure_apply,Prod.mk.injEq,Except.ok.injEq] at ok
    rw [← ok.1]
    exact starts
  | succ count ih =>
    obtain ⟨file,between,first,run⟩ := Action.bind_success ok
    obtain ⟨rest,stop,others,run⟩ := Action.bind_success run
    simp only [Action.pure_apply,Prod.mk.injEq,Except.ok.injEq] at run
    obtain ⟨consumed,inside⟩ := parseIncludedFile_success whole first
    have left := ih inside others
    rw [← run.1,List.map_cons,List.sum_cons]
    omega

theorem nameLen_small {name : List UInt8} (small : (cString name).length + 1 < 2 ^ 32) : nameLen name + 1 ≠ 0 := by
  intro zero
  have value := congrArg UInt32.toNat zero
  rw [UInt32.toNat_add,(nameBytes_cString (by omega)).1] at value
  change ((cString name).length + 1) % 2 ^ 32 = 0 at value
  omega

theorem filesSize_cString {files : List IncludedFileDesc} (small : ∀ file ∈ files, (cString file.name).length < 2 ^ 32) :
    filesSize files = (files.map fun file => 8 + (cString file.name).length).sum := by
  rw [filesSize]
  congr 1
  refine List.map_congr_left fun file member => ?_
  rw [includedFileSize,(nameBytes_cString (small file member)).1]
  omega

theorem file_le_sum {files : List IncludedFileDesc} {file : IncludedFileDesc} (member : file ∈ files) :
    8 + (cString file.name).length ≤ (files.map fun file => 8 + (cString file.name).length).sum :=
  List.le_sum_of_mem (List.mem_map_of_mem (f := fun file : IncludedFileDesc => 8 + (cString file.name).length) member)

theorem readFile_recovered {file : IncludedFileDesc} (small : (cString file.name).length < 2 ^ 32) :
    FileRecovered file (readFile file) where
  name := (nameBytes_cString small).2
  dataSize := rfl

theorem forall₂_map_right {α β : Type} {R : α → β → Prop} {f : α → β} (items : List α) (each : ∀ a ∈ items, R a (f a)) :
    List.Forall₂ R items (items.map f) := by
  induction items with
  | nil => exact .nil
  | cons a items ih =>
    exact .cons (each a (List.mem_cons_self ..)) (ih fun other member => each other (List.mem_cons_of_mem a member))

/-- The table of included files, once its count and its size are read. -/
def includedTable (buffer : List UInt8) (includedCount includedTableSize : UInt32) (start : Nat) :
    Run Nat (UInt32 × List IncludedFileDesc) := do
  let tableEnd := start + includedTableSize.toNat
  (if includedTableSize > 0 ∧ tableEnd > buffer.length then
    fail .bufferOverrun "Buffer too small for included file table" else pure ())
  let files ← (if includedCount = 0 ∨ includedTableSize = 0 then pure []
    else (parseIncludedFile buffer tableEnd).times includedCount.toNat)
  Action.update fun _ => tableEnd
  pure (includedCount,files)

section
variable {header : Header1} {pos : Nat}

theorem parseIncludedFiles_run (ahead : Ahead buffer pos (filesBytes header)) :
    ∃ start, Ahead buffer start (header.includedFiles.flatMap fileBytes) ∧ (parseIncludedFiles buffer).run pos =
      (includedTable buffer header.includedFileCount (UInt32.ofNat (filesSize header.includedFiles)) start).run start := by
  rw [filesBytes,List.append_assoc] at ahead
  have room : pos + 8 ≤ buffer.length := by
    have size := ahead.length_eq
    simp only [List.length_append,length_wordBytes] at size
    omega
  obtain ⟨middle,first,ahead⟩ := reads_nextU32Le _ pos _ ahead
  obtain ⟨start,second,ahead⟩ := reads_nextU32Le _ middle _ ahead
  refine ⟨start,ahead,?_⟩
  rw [parseIncludedFiles,Action.bind_ok _ (Action.read_apply id pos)]
  change (if pos + 8 ≤ buffer.length then _ else _ : Run Nat _).run pos = _
  rw [if_pos room,Action.bind_ok _ first,Action.bind_ok _ second,Action.bind_ok _ (Action.read_apply id start)]
  rfl

theorem includedTable_success {start next : Nat} {includedCount size count : UInt32} {files : List IncludedFileDesc}
    (inside : start ≤ buffer.length)
    (ok : (includedTable buffer includedCount size start).run start = (.ok (count,files),next)) :
    count = includedCount ∧ (files.map fun file => 8 + file.name.length).sum ≤ size.toNat := by
  obtain ⟨room,run⟩ := Action.check_success ok
  obtain ⟨found,middle,parsed,run⟩ := Action.bind_success run
  rw [Action.bind_ok _ (Action.update_apply _ middle)] at run
  simp only [Action.pure_apply,Prod.mk.injEq,Except.ok.injEq] at run
  refine ⟨run.1.1.symm,?_⟩
  rw [← run.1.2]
  split at parsed
  · simp only [Action.pure_apply,Prod.mk.injEq,Except.ok.injEq] at parsed
    rw [← parsed.1]
    exact Nat.zero_le _
  · rename_i some
    have positive : size > 0 := UInt32.pos_iff_ne_zero.mpr fun zero => some (.inr zero)
    have whole : start + size.toNat ≤ buffer.length := Nat.not_lt.mp fun beyond => room ⟨positive,beyond⟩
    have fits := parseIncludedFile_times whole _ (Nat.le_add_right ..) parsed
    omega

theorem sum_recovered {files back : List IncludedFileDesc} (all : List.Forall₂ FileRecovered files back) :
    (files.map fun file => 8 + (cString file.name).length).sum = (back.map fun file => 8 + file.name.length).sum := by
  induction all with
  | nil => rfl
  | cons recovered _ ih => rw [List.map_cons,List.map_cons,List.sum_cons,List.sum_cons,ih,recovered.name]

/-- At the end of the buffer the included files are parsed as they were written, when the size of their table is one
of 32 bits. -/
theorem parseIncludedFiles_iff (filled : header.Filled) (ahead : Ahead buffer pos (filesBytes header)) :
    (∃ count files next, (parseIncludedFiles buffer).run pos = (.ok (count,files),next) ∧
      List.Forall₂ FileRecovered header.includedFiles files ∧ count = header.includedFileCount) ↔
    (header.includedFiles.map fun file => 8 + (cString file.name).length).sum < 2 ^ 32 := by
  obtain ⟨start,ahead,run⟩ := parseIncludedFiles_run ahead
  rw [run]
  constructor
  · rintro ⟨count,files,next,ok,all,_⟩
    rw [sum_recovered all]
    exact (includedTable_success ahead.1 ok).2.trans_lt (UInt32.toNat_lt _)
  · intro small
    have room : ∀ file ∈ header.includedFiles, (cString file.name).length + 1 < 2 ^ 32 := by
      intro file member
      have below := file_le_sum member
      omega
    have sizes := filesSize_cString fun file member => Nat.lt_of_succ_lt (room file member)
    have size : (UInt32.ofNat (filesSize header.includedFiles)).toNat = filesSize header.includedFiles := by
      rw [UInt32.toNat_ofNat']
      exact Nat.mod_eq_of_lt (by omega)
    have length : (header.includedFiles.flatMap fileBytes).length = filesSize header.includedFiles :=
      length_flatMap_eq _ fun file _ => length_fileBytes file
    have whole : buffer.length = start + filesSize header.includedFiles := by rw [ahead.length_eq,length]
    have recovered := forall₂_map_right (R := FileRecovered) (f := readFile) header.includedFiles fun file member =>
      readFile_recovered (Nat.lt_of_succ_lt (room file member))
    rw [includedTable,size,if_neg (show ¬ (_ ∧ _ > buffer.length) by omega),
      Action.bind_ok _ (Action.pure_apply () start)]
    by_cases none : header.includedFileCount = 0 ∨ UInt32.ofNat (filesSize header.includedFiles) = 0
    · have empty : header.includedFiles = [] := by
        cases none with
        | inl zero =>
          rw [← List.length_eq_zero_iff,filled.files,zero]
          rfl
        | inr zero =>
          rw [zero] at size
          cases files : header.includedFiles with
          | nil => rfl
          | cons file rest =>
            have member : file ∈ header.includedFiles := by
              rw [files]
              exact List.mem_cons_self ..
            have first := file_le_sum member
            change 0 = _ at size
            omega
      rw [if_pos none,Action.bind_ok _ (Action.pure_apply [] start),Action.bind_ok _ (Action.update_apply _ start)]
      refine ⟨_,[],_,rfl,?_,rfl⟩
      rw [empty]
      exact .nil
    · have each : ∀ file ∈ header.includedFiles, ReadsTo buffer (start + filesSize header.includedFiles)
          (parseIncludedFile buffer (start + filesSize header.includedFiles)) (fileBytes file) (readFile file) :=
        fun file member => readsTo_parseIncludedFile (nameLen_small (room file member))
      have reads := readsTo_times header.includedFiles fileBytes readFile each
      obtain ⟨next,parsed,_⟩ := reads start [] (by rw [length]) (by rwa [List.append_nil])
      rw [filled.files] at parsed
      rw [if_neg none,Action.bind_ok _ parsed,Action.bind_ok _ (Action.update_apply _ next)]
      exact ⟨_,_,_,rfl,recovered,rfl⟩

end

end Files

section
variable {header : Header1} {descs : List StoredDesc}

/-- The parse of what was written comes down to the included files, once the descriptors fit. -/
theorem header1Parse_counted (filled : header.Filled) (count : descs.length = header.objectCount.toNat)
    (same : descs.flatMap StoredDesc.bytes = header.objects.flatMap descBytes) (guids : GuidsFit header.pluginDeps) :
    ∃ (total : UInt32) (pos : Nat), total.toNat = (regrouped header.pluginDeps).length ∧
      Ahead (header1Bytes header) pos (filesBytes header) ∧ ∀ back,
      header1Parse (header1Bytes header) header.objectCount = .ok back ↔ ∃ count files next,
        (parseIncludedFiles (header1Bytes header)).run pos = (.ok (count,files),next) ∧ back = {
          objectCount := header.objectCount
          objects := descs.map StoredDesc.parsed
          pluginDepCount := total
          pluginDeps := regrouped header.pluginDeps
          includedFileCount := count
          includedFiles := files } := by
  have few : header.pluginDeps.length < 2 ^ 32 := by
    rw [filled.deps]
    exact UInt32.toNat_lt _
  obtain ⟨total,counted,plugins⟩ : ∃ total : UInt32, total.toNat = (regrouped header.pluginDeps).length ∧
      Reads (header1Bytes header) (parsePluginDeps (header1Bytes header)) (pluginBytes header.pluginDeps)
        (total,regrouped header.pluginDeps) := reads_parsePluginDeps_counted few guids
  have start : Ahead (header1Bytes header) 0
      (descs.flatMap StoredDesc.bytes ++ (pluginBytes header.pluginDeps ++ filesBytes header)) := by
    rw [same]
    exact ahead_start _
  obtain ⟨middle,first,ahead⟩ := reads_parseObjects descs header.objectCount count 0 _ start
  have more : middle < (header1Bytes header).length := by
    have size := ahead.length_eq
    simp only [pluginBytes,List.length_append,length_wordBytes] at size
    omega
  obtain ⟨pos,second,ahead⟩ := plugins middle _ ahead
  refine ⟨total,pos,counted,ahead,fun back => ?_⟩
  have run : (header1Fields (header1Bytes header) header.objectCount).run 0 =
      (parseIncludedFiles (header1Bytes header) >>= fun included => pure {
        objectCount := header.objectCount
        objects := descs.map StoredDesc.parsed
        pluginDepCount := total
        pluginDeps := regrouped header.pluginDeps
        includedFileCount := included.1
        includedFiles := included.2 }).run pos := by
    rw [header1Fields,Action.bind_ok _ first,Action.bind_ok _ (Action.read_apply id middle)]
    change ((if middle < (header1Bytes header).length then _ else _) >>= _ : Run Nat _).run middle = _
    rw [if_pos more,Action.bind_ok _ second]
  rw [header1Parse,run]
  constructor
  · intro ok
    obtain ⟨included,parsed,rfl⟩ := return_success (Prod.ext ok rfl)
    exact ⟨included.1,included.2,_,parsed,rfl⟩
  · rintro ⟨fileCount,files,next,parsed,rfl⟩
    rw [Action.bind_ok _ parsed]
    rfl

theorem header1Parse_tables (filled : header.Filled) (count : descs.length = header.objectCount.toNat)
    (same : descs.flatMap StoredDesc.bytes = header.objects.flatMap descBytes) (guids : GuidsFit header.pluginDeps) :
    ∃ total pos, Ahead (header1Bytes header) pos (filesBytes header) ∧ ∀ back,
      header1Parse (header1Bytes header) header.objectCount = .ok back ↔ ∃ count files next,
        (parseIncludedFiles (header1Bytes header)).run pos = (.ok (count,files),next) ∧ back = {
          objectCount := header.objectCount
          objects := descs.map StoredDesc.parsed
          pluginDepCount := total
          pluginDeps := regrouped header.pluginDeps
          includedFileCount := count
          includedFiles := files } := by
  obtain ⟨total,pos,_,tables⟩ := header1Parse_counted filled count same guids
  exact ⟨total,pos,tables⟩

theorem forall₂_recovered {objects : List ObjectDesc} (stores : List.Forall₂ Stores objects descs)
    (plain : ∀ obj ∈ objects, hasFlag obj.fileId objectReferenceFlag = false) :
    List.Forall₂ DescRecovered objects (descs.map StoredDesc.parsed) := by
  induction stores with
  | nil => exact .nil
  | cons first _ ih =>
    refine .cons (recovered_parsed first (plain _ (List.mem_cons_self ..))) (ih fun obj member => ?_)
    exact plain obj (List.mem_cons_of_mem _ member)

theorem forall₂_fits {objects : List ObjectDesc}
    (recovered : List.Forall₂ DescRecovered objects (descs.map StoredDesc.parsed)) : ∀ obj ∈ objects, DescFits obj := by
  induction descs generalizing objects with
  | nil =>
    cases recovered
    intro obj member
    cases member
  | cons stored descs ih =>
    cases recovered with
    | cons first rest =>
      intro obj member
      cases List.mem_cons.mp member with
      | inl same =>
        rw [same]
        exact fits_recovered first
      | inr later => exact ih rest obj later

/-- A parse that succeeds finds the number of included files that was written. -/
theorem header1Parse_fileCount (filled : header.Filled) {bytes : List UInt8} {back : Header1}
    (serialized : header1Serialize header = .ok bytes) (parsed : header1Parse bytes header.objectCount = .ok back) :
    back.includedFileCount = header.includedFileCount := by
  obtain ⟨rest,front⟩ := header1Serialize_success filled.objects serialized
  obtain ⟨found,rest',length,again⟩ := header1Parse_stored parsed
  have same := (stored_agree (filled.objects.trans length.symm) (front.symm.trans again)).2
  obtain ⟨guids,rfl⟩ := (header1Serialize_iff filled bytes).mp serialized
  obtain ⟨total,pos,ahead,tables⟩ := header1Parse_tables filled length same guids
  obtain ⟨count,files,next,included,rfl⟩ := (tables back).mp parsed
  obtain ⟨start,ahead,run⟩ := parseIncludedFiles_run ahead
  rw [run] at included
  exact (includedTable_success ahead.1 included).1

/-- A parse that succeeds finds the dependencies that were written. -/
theorem header1Parse_deps (filled : header.Filled) {bytes : List UInt8} {back : Header1}
    (serialized : header1Serialize header = .ok bytes) (parsed : header1Parse bytes header.objectCount = .ok back) :
    back.pluginDeps = regrouped header.pluginDeps := by
  obtain ⟨rest,front⟩ := header1Serialize_success filled.objects serialized
  obtain ⟨found,rest',length,again⟩ := header1Parse_stored parsed
  have same := (stored_agree (filled.objects.trans length.symm) (front.symm.trans again)).2
  obtain ⟨guids,rfl⟩ := (header1Serialize_iff filled bytes).mp serialized
  obtain ⟨total,pos,ahead,tables⟩ := header1Parse_tables filled length same guids
  obtain ⟨count,files,next,included,rfl⟩ := (tables back).mp parsed
  rfl

/-- A Header1 comes back from its bytes exactly when it is portable. -/
theorem header1_recovered_iff (filled : header.Filled) :
    (∃ bytes back, header1Serialize header = .ok bytes ∧ header1Parse bytes header.objectCount = .ok back ∧
      Header1Recovered header back) ↔ Portable header := by
  have few : header.pluginDeps.length < 2 ^ 32 := by
    rw [filled.deps]
    exact UInt32.toNat_lt _
  constructor
  · rintro ⟨bytes,back,serialized,parsed,recovered⟩
    obtain ⟨guids,rfl⟩ := (header1Serialize_iff filled bytes).mp serialized
    have fits : ∀ obj ∈ header.objects, DescFits obj := by
      obtain ⟨found,rest,length,again⟩ := header1Parse_stored parsed
      rw [again] at parsed
      have objects := recovered.objects
      rw [header1Parse_objects length parsed] at objects
      exact forall₂_fits objects
    obtain ⟨descs,stores,same⟩ := stores_all header.objects fun obj member => (fits obj member).name
    obtain ⟨total,pos,ahead,tables⟩ :=
      header1Parse_tables filled (stores.length_eq.symm.trans filled.objects) same guids
    obtain ⟨count,files,next,included,rfl⟩ := (tables back).mp parsed
    exact {
      objects := fits
      categories := (regrouped_perm_iff few).mp recovered.deps
      guids := guids
      files := (parseIncludedFiles_iff filled ahead).mp
        ⟨count,files,next,included,recovered.files,recovered.fileCount⟩ }
  · intro portable
    obtain ⟨descs,stores,same⟩ := stores_all header.objects fun obj member => (portable.objects obj member).name
    obtain ⟨total,pos,ahead,tables⟩ :=
      header1Parse_tables filled (stores.length_eq.symm.trans filled.objects) same portable.guids
    obtain ⟨count,files,next,included,all,fileCount⟩ := (parseIncludedFiles_iff filled ahead).mpr portable.files
    refine ⟨header1Bytes header,_,(header1Serialize_iff filled _).mpr ⟨portable.guids,rfl⟩,
      (tables _).mpr ⟨count,files,next,included,rfl⟩,?_⟩
    exact {
      objects := forall₂_recovered stores fun obj member => (portable.objects obj member).plain
      deps := (regrouped_perm_iff few).mpr portable.categories
      files := all
      fileCount := fileCount }

end

/-- One object, one dependency of each of two categories, and one included file. -/
def sampleHeader1 : Header1 where
  objectCount := 1
  objects := [{ fileId := 7, classId := 3, fileIndex := 0, name := [65], flags := objectReferenceFlag }]
  pluginDepCount := 2
  pluginDeps := [{ guid := ⟨1,2⟩, category := 4 },{ guid := ⟨3,4⟩, category := 0 }]
  includedFileCount := 1
  includedFiles := [{ name := [], dataSize := 5 }]

theorem sampleHeader1_portable : Portable sampleHeader1 where
  objects := by
    intro obj member
    obtain rfl := List.mem_singleton.mp member
    exact ⟨by decide,by decide⟩
  categories := by decide
  guids := by
    intro category _
    have few : (inCategory sampleHeader1.pluginDeps category).length ≤ 2 := List.length_filter_le ..
    omega
  files := by decide

theorem sampleHeader1_recovered : ∃ bytes back, header1Serialize sampleHeader1 = .ok bytes ∧
    header1Parse bytes sampleHeader1.objectCount = .ok back ∧ Header1Recovered sampleHeader1 back :=
  (header1_recovered_iff ⟨rfl,rfl,rfl⟩).mpr sampleHeader1_portable

/-- A dependency on an object reader, which is no standard category. -/
def readerHeader1 : Header1 where
  pluginDepCount := 1
  pluginDeps := [{ guid := ⟨1,2⟩, category := 5 }]

/-- The dependency is not written, and nothing says so. -/
theorem readerHeader1_lost : ¬ ∃ bytes back, header1Serialize readerHeader1 = .ok bytes ∧
    header1Parse bytes readerHeader1.objectCount = .ok back ∧ Header1Recovered readerHeader1 back := by
  rintro ⟨bytes,back,serialized,parsed,recovered⟩
  have written : header1Serialize readerHeader1 = .ok [0,0,0,0,0,0,0,0,0,0,0,0] := by decide
  rw [written,Except.ok.injEq] at serialized
  have read : header1Parse [0,0,0,0,0,0,0,0,0,0,0,0] readerHeader1.objectCount = .ok {} := by decide
  rw [← serialized,read,Except.ok.injEq] at parsed
  have length := recovered.deps.length_eq
  rw [← parsed] at length
  cases length

end Libnmo.Format
