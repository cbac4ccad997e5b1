import Libnmo.App.Reload
import Libnmo.App.SavedIds
import Libnmo.Format.DataSectionRoundTrip

/-! The references of objects after a save and a load. The words of a saved chunk are
those of the session, for the save never translates them; the load takes them for
file IDs, which count from zero, and moves each up to the next object. -/
namespace Libnmo.App
open Core Format Schema Session Lib Lib.LittleEndian

variable {State : Type}

section Table
variable {n : Nat} {table : IdRemap}

/-- The table of a load whose file IDs count from zero. -/
def countTable (n : Nat) : IdRemap := ⟨(List.range n).map fun i => ⟨UInt32.ofNat i,runtimeId i⟩⟩

theorem toNat_count {i : Nat} (few : n ≤ 2 ^ 23) (inside : i < n) : (UInt32.ofNat i).toNat = i := by
  rw [UInt32.toNat_ofNat']
  omega

theorem oldIds_countTable : (countTable n).oldIds = (List.range n).map UInt32.ofNat := by
  simp [IdRemap.oldIds,countTable]

theorem nodup_countTable (few : n ≤ 2 ^ 23) : (countTable n).oldIds.Nodup := by
  rw [oldIds_countTable]
  refine List.Nodup.map_on ?_ List.nodup_range
  intro left leftInside right rightInside same
  have values := congrArg UInt32.toNat same
  rwa [toNat_count few (List.mem_range.mp leftInside),toNat_count few (List.mem_range.mp rightInside)] at values

/-- The counts from one on move up by one. -/
theorem remapSingleId_countTable (few : n ≤ 2 ^ 23) (id : UInt32) : (remapSingleId (countTable n) id).toNat =
    if 0 < id.toNat ∧ id.toNat < n then id.toNat + 1 else id.toNat := by
  by_cases inside : id.toNat < n
  · have same : UInt32.ofNat id.toNat = id := UInt32.ofNat_toNat
    have entry : ⟨id,runtimeId id.toNat⟩ ∈ (countTable n).entries :=
      List.mem_map.mpr ⟨id.toNat,List.mem_range.mpr inside,by rw [same]⟩
    by_cases zero : id = 0
    · subst zero
      rfl
    · have positive : 0 < id.toNat := Nat.pos_of_ne_zero fun value => zero (UInt32.toNat_inj.mp value)
      rw [remapSingleId_member (nodup_countTable few) entry zero (runtimeId_ne_zero (by omega)),
        toNat_runtimeId (by omega),if_pos ⟨positive,inside⟩]
  · rw [if_neg fun both => inside both.2,remapSingleId_absent]
    rw [oldIds_countTable]
    intro present
    obtain ⟨i,member,same⟩ := List.mem_map.mp present
    rw [List.mem_range] at member
    rw [← same,toNat_count few member] at inside
    exact inside member

theorem iterate_countTable (few : n ≤ 2 ^ 23) (count : Nat) (id : UInt32) :
    ((remapSingleId (countTable n))^[count] id).toNat =
      if 0 < id.toNat ∧ id.toNat ≤ n then min (id.toNat + count) n else id.toNat := by
  induction count with
  | zero =>
    rw [Function.iterate_zero_apply]
    split <;> omega
  | succ count ih =>
    rw [Function.iterate_succ_apply',remapSingleId_countTable few,ih]
    grind

theorem buildRemapTable_counts {session : LoadSession} (some : session.idMappings ≠ [])
    (counts : session.idMappings = (List.range n).map fun i => (UInt32.ofNat i,runtimeId i)) :
    buildRemapTable session = Option.some (countTable n) := by
  rw [buildRemapTable_entries some,counts,List.map_map,countTable]
  rfl

end Table

/-- The words of a chunk without sub-chunks after a remap. -/
theorem words_remappedChunk (table : IdRemap) {p : Chunk} (alone : p.chunks = []) :
    (remappedChunk table p).ids = p.ids ∧ (remappedChunk table p).words =
      if p.chunkVersion < chunkVersion1 then p.words else remapChunkData table p.ids p.words := by
  change (remapped table p).ids = _ ∧ (remapped table p).words = _
  split
  · rename_i early
    rw [(remapped_early _ early).2]
    exact ⟨rfl,rfl⟩
  · rename_i modern
    cases data : p.data with
    | none =>
      rw [(remapped_absent _ modern data).2]
      have empty : p.words = [] := by rw [Chunk.words,data]; rfl
      rw [empty,List.eq_nil_of_length_eq_zero ((length_remapChunkData _ p.ids []).trans rfl)]
      exact ⟨rfl,rfl⟩
    | some words =>
      rw [(remapped_walk _ modern data (by simp [alone])).2]
      have shown : p.words = words := by rw [Chunk.words,data]; rfl
      rw [shown]
      exact ⟨rfl,rfl⟩

section Loading
variable {ctx : LoadContext State} {start after : LoadState State} {descs : List ObjectDesc} {records : List ObjectData}

/-- The objects after the load of descriptors that count from zero. -/
structure Loaded (after : LoadState State) (n : Nat) (records : List ObjectData) : Prop where
  created : after.createdObjects = ((List.range n).map runtimeId).map some
  chunks : ∀ (i : Nat) record, i < n → records[i]? = some record →
    (after.repo.find (runtimeId i)).map tracked =
      some ((record.chunk.map (remappedChunk (countTable n))).map fun chunk => (chunk.ids,chunk.words))

theorem runtimeId_inj {i j : Nat} (left : i + 1 < 2 ^ 32) (right : j + 1 < 2 ^ 32)
    (same : runtimeId i = runtimeId j) : i = j := by
  have values := congrArg UInt32.toNat same
  rw [toNat_runtimeId left,toNat_runtimeId right] at values
  exact Nat.succ.inj values

theorem nodup_runtimeIds {n : Nat} (few : n ≤ 2 ^ 23) : ((List.range n).map runtimeId).Nodup := by
  refine List.Nodup.map_on ?_ List.nodup_range
  intro left leftInside right rightInside same
  rw [List.mem_range] at leftInside rightInside
  exact runtimeId_inj (by omega) (by omega) same

theorem mapIdx_range {α : Type} (f : Nat → α) (descs : List ObjectDesc) :
    (descs.mapIdx fun index _ => f index) = (List.range descs.length).map f := by
  apply List.ext_getElem <;> simp

theorem CreatedFresh.find (fresh : CreatedFresh after descs) (few : descs.length ≤ 2 ^ 23) {i : Nat} {desc : ObjectDesc}
    (found : descs[i]? = some desc) : after.repo.find (runtimeId i) = some (createdObject (runtimeId i) desc) := by
  have inside := (List.getElem?_eq_some_iff.mp found).1
  rw [ObjectRepository.find,fresh.objects,List.find?_eq_some_iff_getElem]
  refine ⟨by simp [createdObject],i,by simpa using inside,?_,?_⟩
  · rw [List.getElem_mapIdx,(List.getElem?_eq_some_iff.mp found).2]
  · intro j before
    simp only [List.getElem_mapIdx,createdObject,Bool.not_eq_true',decide_eq_false_iff_not]
    exact fun same => Nat.ne_of_lt before (runtimeId_inj (by omega) (by omega) same)

theorem loadObjects_success (keeps : LoadKeeps ctx) (nonempty : descs ≠ []) (few : descs.length ≤ 2 ^ 23)
    (fresh : CreatedFresh start [])
    (plain : ∀ desc ∈ descs, hasFlag desc.fileId objectReferenceFlag = false)
    (counts : (descs.map ObjectDesc.fileId).Nodup → descs.map ObjectDesc.fileId = (List.range descs.length).map UInt32.ofNat)
    (ok : (loadObjects ctx descs records).run start = (.ok (),after)) : Loaded after descs.length records := by
  have some : ¬ descs.length = 0 := fun zero => nonempty (List.length_eq_zero_iff.mp zero)
  rw [loadObjects,if_neg some] at ok
  obtain ⟨_,ready,first,last⟩ := Action.bind_success ok
  obtain ⟨_,made,creation,first⟩ := Action.bind_success first
  have fresh := createdFresh_run plain (by simp; omega) fresh creation
  rw [List.nil_append] at fresh
  have ids := fresh.created.trans ((mapIdx_range _ descs).trans (List.map_map ..).symm)
  have table : buildRemapTable made.session = Option.some (countTable descs.length) := by
    have keys := counts fresh.distinct
    refine buildRemapTable_counts ?_ ?_
    · rw [fresh.mappings]
      simpa using nonempty
    · rw [fresh.mappings]
      apply List.ext_getElem
      · simp
      · intro i left right
        have key := congrArg (·[i]?) keys
        rw [List.length_mapIdx] at left
        simp only [List.getElem?_map,List.getElem?_range left,List.getElem?_eq_getElem left,Option.map_some,
          Option.some.injEq] at key
        simp [key]
  rw [Action.bind_ok _ (Action.update_apply _ _),Action.bind_ok _ (Action.update_apply _ _),Action.update_apply,
    Prod.mk.injEq] at first
  obtain ⟨_,rfl⟩ := first
  simp only [onRepo,Action.update_apply,Prod.mk.injEq,true_and] at last
  subst last
  constructor
  · simp only [createdObjects_dispatchAll,createdObjects_remapIds]
    exact ids
  · intro i record inside stored
    have member : runtimeId i ∈ (List.range descs.length).map runtimeId :=
      List.mem_map_of_mem (List.mem_range.mpr inside)
    have distinct := nodup_runtimeIds few
    have object := fresh.find few (List.getElem?_eq_getElem inside)
    rw [alike_deserialize keeps,alike_dispatchAll keeps,remapIds,table]
    dsimp only
    rw [ids,find_remapCreated distinct member,find_attach i distinct (by simp [inside]) stored,object]
    rfl

end Loading

/-- The `k`-th tracked ID of a chunk. -/
def trackedId (c : Chunk) (k : Nat) : Option UInt32 :=
  (trackedPositions c.ids c.words)[k]?.bind fun place => c.words[place]?

/-- The `k`-th tracked ID in the record of the object at index `i` is the ID of the object at index `j`. -/
structure Refers (session : SaveSession State) (file : SavedFile) (i j k : Nat) (c : Chunk) (id : UInt32) : Prop where
  record : file.dataSect.objects[i]?.bind ObjectData.chunk = some c
  word : trackedId c k = some id
  object : session.objects[j]?.map Object.id = some id

/-- After the load the same tracked ID of the counterpart is the ID of the counterpart. -/
def ReferencesPreserved (session : SaveSession State) (file : SavedFile) (state : LoadState State) : Prop :=
  ∀ i j k c id, Refers session file i j k c id → ∃ source target obj chunk,
    state.createdObjects[i]? = some (some source) ∧ state.createdObjects[j]? = some (some target) ∧
      state.repo.find source = some obj ∧ obj.chunk = some chunk ∧ trackedId chunk k = some target

/-- How many times a load translates the word at a position: once for each time that it is tracked, in a chunk
that is not of an early version. -/
def translations (c : Chunk) (place : Nat) : Nat :=
  if versionByte (decodeWords (payload c)) < 4 then 0 else (trackedPositions c.ids c.words).count place

/-- Moved up as many times as it is translated, but not past the last object, the ID becomes the one that a load
gives to the object. -/
def ReferencesLand (session : SaveSession State) (file : SavedFile) : Prop :=
  ∀ i j k c id place, Refers session file i j k c id → (trackedPositions c.ids c.words)[k]? = some place →
    id.toNat ≤ session.objects.length ∧
      min (id.toNat + translations c place) session.objects.length = j + 1

section Referring
variable {n : Nat} {c : Chunk}

theorem early_iff (byte : UInt8) : byte.toUInt32 < chunkVersion1 ↔ byte < 4 := by
  rw [UInt32.lt_iff_toNat_lt,UInt8.lt_iff_toNat_lt,UInt8.toNat_toUInt32]
  rfl

/-- The tracked IDs of a chunk that survives, after the load has translated them. -/
theorem trackedId_loaded {chunk : Chunk} (small : (payload c).length < 2 ^ 32) (survives : Survives c)
    (steady : Steady c.ids c.words)
    (ids : chunk.ids = (remappedChunk (countTable n) (parsedBack c)).ids)
    (words : chunk.words = (remappedChunk (countTable n) (parsedBack c)).words) (k : Nat) :
    trackedId chunk k = (trackedPositions c.ids c.words)[k]?.bind fun place =>
      c.words[place]?.map (remapSingleId (countTable n))^[translations c place] := by
  obtain ⟨same,version⟩ := parsedBack_same small survives
  have alone : (parsedBack c).chunks = [] := by
    rw [same.chunks]
    exact ((survives_iff small).mp survives).chunks
  have walk := words_remappedChunk (countTable n) alone
  rw [walk.1,same.ids] at ids
  rw [walk.2,version,same.ids,same.words] at words
  simp only [early_iff] at words
  rw [trackedId,ids,words]
  unfold translations
  split
  · simp
  · rw [trackedPositions_remapped steady]
    simp only [getElem?_remapped steady]

end Referring

section
variable {ctx : SaveContext State} {loadCtx : LoadContext State} {session : SaveSession State} {flags : UInt32}
  {file : SavedFile} {state : LoadState State} {entries : List (Bool × Object State)}

theorem reloadFile_success (ok : reloadFile loadCtx file = .ok state) : ∃ header1 records,
    header1Parse file.hdr1Bytes file.header.objectCount = .ok header1 ∧
      dataSectionParse file.dataBytes file.header.fileVersion file.header.managerCount file.header.objectCount =
        .ok records ∧
      (loadObjects loadCtx header1.objects records.2).run
        { session := loadSessionStart ({} : ObjectRepository State) file.header.maxIdSaved, managers := records.1 } =
          (.ok (),state) := by
  obtain ⟨header1,parsed,ok⟩ := bind_result ok
  obtain ⟨records,read,ok⟩ := bind_result ok
  dsimp only at ok
  split at ok
  · rename_i after run
    rw [← Except.ok.inj ok]
    exact ⟨header1,records,parsed,read,run⟩
  · simp at ok

/-- What the load of a saved file makes of the objects. -/
theorem reloaded (saved : saveFile ctx session flags = .ok file) (ok : reloadFile loadCtx file = .ok state)
    (saves : SaveKeeps ctx) (loads : LoadKeeps loadCtx) (balance : ManagersBalance ctx session)
    (modern : session.fileInfo.fileVersion = 0 ∨ 7 ≤ session.fileInfo.fileVersion)
    (small : ∀ c ∈ file.dataSect.chunks, (payload c).length < 2 ^ 32) :
    session.objects.length ≤ 2 ^ 23 ∧ ∃ records, Loaded state session.objects.length records ∧
      List.Forall₂ (fun o back => back.chunk = o.chunk.map parsedBack) file.dataSect.objects records := by
  obtain ⟨entries,objects⟩ := saveFile_objects saved
  have whole := saveFile_success saved
  obtain ⟨header1,records,parsed,read,run⟩ := reloadFile_success ok
  have fileIds := objects.fileIds saves
  have length : file.header1.objects.length = session.objects.length := by
    have lengths := congrArg List.length fileIds
    simpa using lengths
  have count : file.dataSect.objectCount.toNat = session.objects.length := by
    have fits := file.dataSect.objectsFit
    rw [DataSection.objectCount,count32,UInt32.toNat_ofNat',Nat.mod_eq_of_lt fits,objects.records,List.length_map,
      objects.length]
  rw [whole.objectCount] at parsed read
  obtain ⟨ids,plain⟩ := header1Parse_serialized (by rw [length,objects.count,count]) objects.count objects.bytes parsed
  have cleared : header1.objects.map ObjectDesc.fileId =
      (List.range session.objects.length).map fun i => UInt32.ofNat i &&& ~~~objectReferenceFlag := by
    rw [ids,← Function.comp_def (· &&& ~~~objectReferenceFlag) ObjectDesc.fileId,← List.map_map,fileIds,List.map_map]
    rfl
  have same : header1.objects.length = session.objects.length := by
    have lengths := congrArg List.length cleared
    simpa using lengths
  have nonempty : header1.objects ≠ [] := fun none => by
    rw [none] at same
    exact whole.nonempty (List.length_eq_zero_iff.mp same.symm)
  have counts (distinct : (header1.objects.map ObjectDesc.fileId).Nodup) := by
    rw [cleared] at distinct
    exact cleared_counts distinct
  have fresh := createdFresh_start State records.1 file.header.maxIdSaved
  have few : session.objects.length ≤ 2 ^ 23 := by
    have made := run
    rw [loadObjects,if_neg fun zero => nonempty (List.length_eq_zero_iff.mp zero)] at made
    obtain ⟨_,ready,first,_⟩ := Action.bind_success made
    obtain ⟨_,made,creation,_⟩ := Action.bind_success first
    have short := length_distinct session.distinct session.nonzero
    rw [List.length_map] at short
    exact (counts (createdFresh_run plain (by rw [same]; simpa using short) fresh creation).distinct).1
  have loaded := loadObjects_success loads nonempty (same ▸ few) fresh plain
    (fun distinct => by rw [cleared,(counts distinct).2,same]) run
  rw [same] at loaded
  have version : 7 ≤ file.header.fileVersion := by
    rw [whole.fileVersion]
    exact (modern_iff _).mpr modern
  rw [whole.managerCount_iff.mpr balance,dataSectionSerialize_success (by decide) whole.bytes] at read
  exact ⟨few,records.2,loaded,dataSectionParse_parsedBack version small read⟩

/-- Where a tracked ID of a saved chunk is found after the load. -/
theorem refers_loaded (saved : SavedObjects ctx session flags file entries) {records : List ObjectData}
    (objects : Loaded state session.objects.length records)
    (back : List.Forall₂ (fun o back => back.chunk = o.chunk.map parsedBack) file.dataSect.objects records)
    (survive : ∀ c ∈ file.dataSect.chunks, (payload c).length < 2 ^ 32 ∧ Survives c)
    (steady : ∀ c ∈ file.dataSect.chunks, Steady c.ids c.words) {i j k : Nat} {c : Chunk} {id : UInt32}
    (refers : Refers session file i j k c id) :
    i < session.objects.length ∧ j < session.objects.length ∧ 0 < id.toNat ∧
      ∃ obj chunk place, state.repo.find (runtimeId i) = some obj ∧ obj.chunk = some chunk ∧
        (trackedPositions c.ids c.words)[k]? = some place ∧
        trackedId chunk k = some ((remapSingleId (countTable session.objects.length))^[translations c place] id) := by
  obtain ⟨record,word,object⟩ := refers
  obtain ⟨o,present,chunk⟩ := Option.bind_eq_some_iff.mp record
  obtain ⟨place,tracked_,holds⟩ := Option.bind_eq_some_iff.mp word
  obtain ⟨target,found,same⟩ := Option.map_eq_some_iff.mp object
  obtain ⟨inside,at_⟩ := List.getElem?_eq_some_iff.mp present
  have member : c ∈ file.dataSect.chunks :=
    List.mem_append_right _ (List.mem_filterMap.mpr ⟨o,List.mem_of_getElem? present,chunk⟩)
  have length : file.dataSect.objects.length = session.objects.length := by
    rw [saved.records,List.length_map,saved.length]
  have nonzero : id ≠ 0 := fun zero => session.nonzero (zero ▸ same ▸ List.mem_map_of_mem (List.mem_of_getElem? found))
  have inside' : i < records.length := back.length_eq ▸ inside
  have parsed := List.Forall₂.get back inside inside'
  simp only [List.get_eq_getElem,at_,chunk,Option.map_some] at parsed
  have shown := objects.chunks i _ (length ▸ inside) (List.getElem?_eq_getElem inside')
  rw [parsed] at shown
  obtain ⟨obj,present',pair⟩ := Option.map_eq_some_iff.mp shown
  obtain ⟨chunk',holds',words⟩ := Option.map_eq_some_iff.mp (show obj.chunk.map _ = some _ from pair)
  rw [Prod.mk.injEq] at words
  refine ⟨length ▸ inside,(List.getElem?_eq_some_iff.mp found).1,
    Nat.pos_of_ne_zero fun zero => nonzero (UInt32.toNat_inj.mp zero),obj,chunk',place,present',holds',tracked_,?_⟩
  rw [trackedId_loaded (survive c member).1 (survive c member).2 (steady c member) words.1 words.2,tracked_,
    Option.bind_some,holds]
  rfl

/-- References survive a save and a load that succeed exactly when every tracked ID moves up to its object. -/
theorem references_iff (saved : saveFile ctx session flags = .ok file) (loaded : reloadFile loadCtx file = .ok state)
    (saves : SaveKeeps ctx) (loads : LoadKeeps loadCtx) (balance : ManagersBalance ctx session)
    (modern : session.fileInfo.fileVersion = 0 ∨ 7 ≤ session.fileInfo.fileVersion)
    (survive : ∀ c, SavedChunk ctx session flags c → (payload c).length < 2 ^ 32 ∧ Survives c)
    (steady : ∀ c, SavedChunk ctx session flags c → Steady c.ids c.words) :
    ReferencesPreserved session file state ↔ ReferencesLand session file := by
  have chunks := (saveFile_success saved).chunks
  obtain ⟨few,records,objects,back⟩ := reloaded saved loaded saves loads balance modern
    fun c member => (survive c ((chunks c).mp member)).1
  have created (i : Nat) (inside : i < session.objects.length) :
      state.createdObjects[i]? = some (some (runtimeId i)) := by
    rw [objects.created]
    simp [inside]
  obtain ⟨entries,parts⟩ := saveFile_objects saved
  have moved {i j k : Nat} {c : Chunk} {id : UInt32} (refers : Refers session file i j k c id) :=
    refers_loaded parts objects back (fun c member => survive c ((chunks c).mp member))
      (fun c member => steady c ((chunks c).mp member)) refers
  constructor
  · intro preserved i j k c id place refers tracked
    obtain ⟨inside,target,positive,obj,chunk,place',found,holds,tracked',word⟩ := moved refers
    obtain rfl := Option.some.inj (tracked.symm.trans tracked')
    obtain ⟨source,target',obj',chunk',source_,target_,found',holds',word'⟩ := preserved i j k c id refers
    rw [created i inside,Option.some.injEq,Option.some.injEq] at source_
    rw [created j target,Option.some.injEq,Option.some.injEq] at target_
    subst source_ target_
    obtain rfl := Option.some.inj (found.symm.trans found')
    obtain rfl := Option.some.inj (holds.symm.trans holds')
    have value := congrArg UInt32.toNat (Option.some.inj (word.symm.trans word'))
    rw [iterate_countTable few,toNat_runtimeId (by omega)] at value
    split at value <;> omega
  · intro land i j k c id refers
    obtain ⟨inside,target,positive,obj,chunk,place,found,holds,tracked,word⟩ := moved refers
    obtain ⟨bound,lands⟩ := land i j k c id place refers tracked
    refine ⟨runtimeId i,runtimeId j,obj,chunk,created i inside,created j target,found,holds,?_⟩
    rw [word]
    refine congrArg some (UInt32.toNat_inj.mp ?_)
    rw [iterate_countTable few,if_pos ⟨positive,bound⟩,lands,toNat_runtimeId (by omega)]

end

section Samples

/-- A chunk whose one word is tracked. -/
def pointing (id : UInt32) : Chunk := { chunkVersion := 7, chunkOptions := optionIds, data := some [id], ids := [0] }

/-- One object that refers to itself. -/
def selfSession : SaveSession Unit where
  objects := [{ id := 1, classId := 1, chunk := some (pointing 1) }]
  distinct := by decide
  nonzero := by decide
  managersFit := nil_fits

/-- Two objects that each refer to themselves. -/
def twoSession : SaveSession Unit where
  objects := [{ id := 1, classId := 1, chunk := some (pointing 1) },{ id := 2, classId := 1, chunk := some (pointing 2) }]
  distinct := by decide
  nonzero := by decide
  managersFit := nil_fits

theorem plain_saves : SaveKeeps plainContext :=
  ⟨by simp [SaveContext.managers,plainContext],by simp [SaveContext.managers,plainContext]⟩

/-- Without managers and schemas a load leaves all as it is. -/
theorem nothing_loads : LoadKeeps ({} : LoadContext Unit) where
  hooks := by simp
  reads := by
    have none (classId : UInt32) : SchemaRegistry.findByClassId ({} : SchemaRegistry Unit) classId = none := by
      simp [SchemaRegistry.findByClassId]
    have inherited (classId : UInt32) :
        SchemaRegistry.findByClassIdInherited ({} : SchemaRegistry Unit) classId = .none := by
      rw [SchemaRegistry.findByClassIdInherited,none,findAncestor_eq,
        List.findSome?_eq_none_iff.mpr fun parentId _ => none parentId,ite_self]
    intro classId read found
    simp [classReader,inherited] at found

theorem survives_pointing (id : UInt32) : (payload (pointing id)).length < 2 ^ 32 ∧ Survives (pointing id) := by
  have size : chunkCalcSize (pointing id) = 20 := by
    have flags : hasFlag optionIds optionIds = true ∧ hasFlag optionIds optionChn = false ∧
        hasFlag optionIds optionMan = false := by decide
    simp [chunkCalcSize_eq,pointing,optionalSize,flags,Chunk.dataSize,Chunk.words]
  constructor
  · rw [show payload (pointing id) = encodeWords (treeWords (pointing id)) from rfl,length_encodeWords,
      length_treeWords,size]
    decide
  · exact ⟨.inr rfl,rfl,rfl,rfl,.inl (show hasFlag optionIds optionIds = true by decide),.inr rfl,by rw [size]; decide⟩

theorem steady_pointing (id : UInt32) : Steady (pointing id).ids (pointing id).words := by
  intro header member
  simp [pointing,sequenceHeaders] at member

theorem selfSession_saved {c : Chunk} (saved : SavedChunk plainContext selfSession 0 c) : c = pointing 1 := by
  rcases saved with ⟨m,member,_⟩ | ⟨schemas,_,obj,member,made⟩
  · have none : (saveManagers plainContext selfSession).1 = [] := rfl
    rw [none] at member
    simp at member
  · have objects : objectsToSave plainContext selfSession 0 =
        [(false,{ id := 1, classId := 1, chunk := some (pointing 1) })] := rfl
    rw [objects] at member
    obtain ⟨_,rfl⟩ := Prod.mk.inj (List.mem_singleton.mp member)
    exact (Option.some.inj (Except.ok.inj made)).symm

theorem selfSession_lands {file : SavedFile} (saved : saveFile plainContext selfSession 0 = .ok file) :
    ReferencesLand selfSession file := by
  intro i j k c id place refers tracked
  obtain ⟨o,present,chunk⟩ := Option.bind_eq_some_iff.mp refers.record
  have member : c ∈ file.dataSect.chunks :=
    List.mem_append_right _ (List.mem_filterMap.mpr ⟨o,List.mem_of_getElem? present,chunk⟩)
  obtain rfl := selfSession_saved (((saveFile_success saved).chunks c).mp member)
  have first : j = 0 := by
    have object := refers.object
    cases j with
    | zero => rfl
    | succ j => simp [selfSession] at object
  subst first
  have same : id = 1 := by
    have object := refers.object
    simpa [selfSession] using object.symm
  subst same
  exact ⟨by decide,Nat.min_eq_right (Nat.le_add_right 1 _)⟩

/-- A session saved and loaded: the first tracked ID of the object with ID 1 before and after, and the IDs that
the objects get. -/
def roundTrip (session : SaveSession Unit) :
    Result (Option (Option UInt32) × List (Option UInt32) × Option (Option UInt32)) := do
  let file ← saveFile plainContext session 0
  let state ← reloadFile ({} : LoadContext Unit) file
  .ok ((file.dataSect.objects[0]?.bind ObjectData.chunk).map fun chunk => trackedId chunk 0,
    state.createdObjects,((state.repo.find 1).bind Object.chunk).map fun chunk => trackedId chunk 0)

theorem selfSession_preserved : ∃ file state, saveFile plainContext selfSession 0 = .ok file ∧
    reloadFile ({} : LoadContext Unit) file = .ok state ∧ ReferencesPreserved selfSession file state := by
  have run : roundTrip selfSession = .ok (some (some 1),[some 1],some (some 1)) := by decide +kernel
  obtain ⟨file,saved,run⟩ := bind_result run
  obtain ⟨state,loaded,_⟩ := bind_result run
  refine ⟨file,state,saved,loaded,(references_iff saved loaded plain_saves nothing_loads rfl (.inl rfl) ?_ ?_).mpr
    (selfSession_lands saved)⟩
  · intro c saved
    rw [selfSession_saved saved]
    exact survives_pointing 1
  · intro c saved
    rw [selfSession_saved saved]
    exact steady_pointing 1

/-- The reference of the first object to itself comes back as one to the second. -/
theorem twoSession_not_preserved : ∃ file state, saveFile plainContext twoSession 0 = .ok file ∧
    reloadFile ({} : LoadContext Unit) file = .ok state ∧ ¬ ReferencesPreserved twoSession file state := by
  have run : roundTrip twoSession = .ok (some (some 1),[some 1,some 2],some (some 2)) := by decide +kernel
  obtain ⟨file,saved,run⟩ := bind_result run
  obtain ⟨state,loaded,run⟩ := bind_result run
  obtain ⟨before,run⟩ := Prod.mk.inj (Except.ok.inj run)
  obtain ⟨created,after⟩ := Prod.mk.inj run
  obtain ⟨c,record,word⟩ := Option.map_eq_some_iff.mp before
  refine ⟨file,state,saved,loaded,fun preserved => ?_⟩
  obtain ⟨source,target,obj,chunk,source_,target_,found,holds,back⟩ := preserved 0 0 0 c 1 ⟨record,word,rfl⟩
  rw [created] at source_ target_
  obtain rfl : 1 = source := by simpa using source_
  obtain rfl : 1 = target := by simpa using target_
  rw [found,Option.bind_some,holds,Option.map_some,back] at after
  exact absurd after (by decide)

end Samples

end Libnmo.App
