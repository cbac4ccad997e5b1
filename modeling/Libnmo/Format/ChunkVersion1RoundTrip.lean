import Libnmo.Format.ChunkParseBounds

/-! The flat format read back. A buffer holds a chunk when the lists it declares
are the lists of the chunk; what the serializer writes holds the chunk it was
given, so the parse returns its lists, its class in the width the version has and
the option bits the version stores. -/
namespace Libnmo.Format
open Core Lib Lib.LittleEndian Lib.Cursor

theorem toNat_count32 {α : Type} (list : List α) (small : list.length < 2 ^ 32) :
    (count32 list).toNat = list.length := by
  rw [count32,UInt32.toNat_ofNat']
  exact Nat.mod_eq_of_lt small

theorem toUInt8_toUInt32 (word : UInt32) (small : word < 256) : word.toUInt8.toUInt32 = word := by
  apply UInt32.toNat_inj.mp
  rw [UInt8.toNat_toUInt32,UInt32.toNat_toUInt8]
  exact Nat.mod_eq_of_lt (UInt32.lt_iff_toNat_lt.mp small)

/-- The lists `buf` declares are those of `c`, and nothing follows them. -/
structure Holds (buf : List UInt32) (c : Chunk) : Prop where
  data : (declared buf).data.count = c.words.length ∧ taken buf (declared buf).data [] = c.words
  ids : (declared buf).ids.count = c.ids.length ∧ taken buf (declared buf).ids [] = c.ids
  chunkRefs : (declared buf).chunkRefs.count = c.chunkRefs.length ∧
    taken buf (declared buf).chunkRefs [] = c.chunkRefs
  managers : (declared buf).managers.count = c.managers.length ∧
    taken buf (declared buf).managers [] = c.managers
  stop : (declared buf).managers.stop = buf.length

section
variable {buf : List UInt32}

theorem taken_ahead {list rest : List UInt32} {pos : Nat} (ahead : Ahead buf pos (list ++ rest)) :
    taken buf ⟨pos,list.length⟩ [] = list := by
  unfold taken
  split
  · rename_i empty
    exact (List.length_eq_zero_iff.mp empty).symm
  · exact ahead.slice_eq

theorem holds_after (header : Nat) (c : Chunk)
    (layout : declared buf =
      declaredAfter header c.words.length c.ids.length c.chunkRefs.length c.managers.length)
    (ahead : Ahead buf header (c.words ++ (c.ids ++ (c.chunkRefs ++ (c.managers ++ []))))) :
    Holds buf c := by
  have second := ahead.skip
  have third := second.skip
  have fourth := third.skip
  have size := fourth.skip.length_eq
  constructor <;> rw [layout]
  · exact ⟨rfl,taken_ahead ahead⟩
  · exact ⟨rfl,taken_ahead second⟩
  · exact ⟨rfl,taken_ahead third⟩
  · exact ⟨rfl,taken_ahead fourth⟩
  · simpa [declaredAfter,Span.stop] using size.symm

/-- An optional section is declared where its flag is set; an unflagged list is empty. -/
theorem declaredSection_ahead {flags flag : UInt32} {list rest : List UInt32} {pos : Nat}
    (stored : hasFlag (optionByte buf).toUInt32 flag = hasFlag flags flag)
    (unflagged : hasFlag flags flag = false → list = []) (small : list.length < 2 ^ 32)
    (ahead : Ahead buf pos (optionalList flags flag list ++ rest)) :
    (declaredSection buf flag pos).count = list.length ∧
      taken buf (declaredSection buf flag pos) [] = list ∧
      Ahead buf (declaredSection buf flag pos).stop rest := by
  unfold declaredSection
  rw [stored]
  cases flagged : hasFlag flags flag with
  | false =>
    obtain rfl := unflagged flagged
    simp only [optionalList,flagged] at ahead
    simpa [taken,Span.stop] using ahead
  | true =>
    simp only [optionalList,flagged,if_true,List.cons_append] at ahead
    have count : (dwordAt buf pos).toNat = list.length := by
      simp [dwordAt,ahead.getElem?,toNat_count32 list small]
    simp only [if_true,count,Span.stop,true_and]
    exact ⟨taken_ahead ahead.next,ahead.next.skip⟩

end

section
variable (c : Chunk)

theorem hasFlag_added (present : Prop) [Decidable present] (flags option flag : UInt32) :
    hasFlag (if present then flags ||| option else flags) flag =
      (hasFlag flags flag || (decide present && hasFlag option flag)) := by
  split <;> simp [hasFlag_or, *]

theorem optionFlags_ids :
    hasFlag (optionFlags c) optionIds = (hasFlag c.chunkOptions optionIds || decide (0 < c.ids.length)) := by
  simp only [optionFlags,hasFlag_added]
  simp [show hasFlag optionIds optionIds = true from rfl,show hasFlag optionChn optionIds = false from rfl,
    show hasFlag optionMan optionIds = false from rfl]

theorem optionFlags_chn :
    hasFlag (optionFlags c) optionChn = (hasFlag c.chunkOptions optionChn || decide (0 < c.chunkRefs.length)) := by
  simp only [optionFlags,hasFlag_added]
  simp [show hasFlag optionIds optionChn = false from rfl,show hasFlag optionChn optionChn = true from rfl,
    show hasFlag optionMan optionChn = false from rfl]

theorem optionFlags_man :
    hasFlag (optionFlags c) optionMan = (hasFlag c.chunkOptions optionMan || decide (0 < c.managers.length)) := by
  simp only [optionFlags,hasFlag_added]
  simp [show hasFlag optionIds optionMan = false from rfl,show hasFlag optionChn optionMan = false from rfl,
    show hasFlag optionMan optionMan = true from rfl]

theorem unflagged_empty {flags flag : UInt32} {option : Bool} {list : List UInt32}
    (same : hasFlag flags flag = (option || decide (0 < list.length))) (off : hasFlag flags flag = false) :
    list = [] := by
  rw [same] at off
  simpa using (Bool.or_eq_false_iff.mp off).2

theorem length_optionalList (flags flag : UInt32) (list : List UInt32) :
    (optionalList flags flag list).length = if hasFlag flags flag then 1 + list.length else 0 := by
  unfold optionalList
  split
  · simp
    omega
  · rfl

theorem versionInfo_bytes (dataVersion chunkVersion : UInt32) :
    (dataVersion &&& (0xFF : UInt32)) ||| ((chunkVersion &&& (0xFF : UInt32)) <<< 16) =
      bytesWord dataVersion.toUInt8 0 chunkVersion.toUInt8 0 := by
  simp [and_low_byte,bytesWord]

/-- The versions `nmo_chunk_serialize_version1` writes, with counts and fields of the width it writes. -/
structure FlatFormed : Prop where
  oldest : chunkVersion1 ≤ c.chunkVersion
  newest : c.chunkVersion ≤ chunkVersion4
  dataVersion : c.dataVersion < 256
  classId : c.chunkVersion ≠ chunkVersion1 → c.classId < 256
  data : c.words.length < 2 ^ 32
  ids : c.ids.length < 2 ^ 32
  chunkRefs : c.chunkRefs.length < 2 ^ 32
  managers : c.managers.length < 2 ^ 32
  stored : c.chunkVersion = chunkVersion1 → c.managers = []
  rawData : c.rawData = none

theorem version_cases (formed : FlatFormed c) :
    c.chunkVersion = chunkVersion1 ∨ c.chunkVersion = chunkVersion2 ∨
      c.chunkVersion = chunkVersion3 ∨ c.chunkVersion = chunkVersion4 := by
  have low := UInt32.le_iff_toNat_le.mp formed.oldest
  have high := UInt32.le_iff_toNat_le.mp formed.newest
  simp only [← UInt32.toNat_inj]
  change 4 ≤ c.chunkVersion.toNat at low
  change c.chunkVersion.toNat ≤ 7 at high
  change c.chunkVersion.toNat = 4 ∨ c.chunkVersion.toNat = 5 ∨ c.chunkVersion.toNat = 6 ∨
    c.chunkVersion.toNat = 7
  omega

theorem clampVersion_eq (formed : FlatFormed c) : clampVersion c.chunkVersion = c.chunkVersion := by
  rcases version_cases c formed with h | h | h | h <;> rw [h] <;> rfl

theorem words_version1 (formed : FlatFormed c) (version : c.chunkVersion = chunkVersion1) :
    chunkVersion1Words c = [bytesWord c.dataVersion.toUInt8 0 4 0,c.classId,count32 c.words,0,count32 c.ids,
      count32 c.chunkRefs] ++ (c.words ++ (c.ids ++ (c.chunkRefs ++ (c.managers ++ [])))) := by
  rw [chunkVersion1Words,clampVersion_eq c formed,version,formed.stored version]
  simp only [versionInfo_bytes]
  rw [if_pos (by decide)]
  simp [chunkVersion1]

theorem words_version2 (formed : FlatFormed c) (version : c.chunkVersion = chunkVersion2) :
    chunkVersion1Words c = [bytesWord c.dataVersion.toUInt8 0 5 0,c.chunkClassId.toUInt32,count32 c.words,0,
      count32 c.ids,count32 c.chunkRefs,count32 c.managers] ++
        (c.words ++ (c.ids ++ (c.chunkRefs ++ (c.managers ++ [])))) := by
  rw [chunkVersion1Words,clampVersion_eq c formed,version]
  simp only [versionInfo_bytes]
  rw [if_neg (by decide),if_pos trivial]
  simp [chunkVersion2]

theorem words_compact (formed : FlatFormed c) (version : chunkVersion2 < c.chunkVersion) :
    chunkVersion1Words c = [bytesWord c.dataVersion.toUInt8 (classIdByte c) c.chunkVersion.toUInt8
      (optionFlags c).toUInt8,count32 c.words] ++ (c.words ++ (optionalList (optionFlags c) optionIds c.ids ++
        (optionalList (optionFlags c) optionChn c.chunkRefs ++
          (optionalList (optionFlags c) optionMan c.managers ++ [])))) := by
  have past : ¬ c.chunkVersion < chunkVersion2 := by
    rw [UInt32.lt_iff_toNat_lt] at version ⊢
    omega
  have other : c.chunkVersion ≠ chunkVersion2 := by
    rw [UInt32.lt_iff_toNat_lt] at version
    intro same
    rw [same] at version
    omega
  rw [chunkVersion1Words,clampVersion_eq c formed]
  simp only [if_neg past,if_neg other,and_low_byte,UInt8.toUInt8_toUInt32,halves_bytesWord]
  simp

theorem holds_version1 (formed : FlatFormed c) (version : c.chunkVersion = chunkVersion1) :
    versionByte (chunkVersion1Words c) = 4 ∧ Holds (chunkVersion1Words c) c := by
  have words := words_version1 c formed version
  have byte : versionByte (chunkVersion1Words c) = 4 := by
    rw [words]
    simp [versionByte,dwordAt]
  refine ⟨byte,holds_after 6 c ?_ ?_⟩
  · rw [declared_version1 (by rw [byte]; decide),words,formed.stored version]
    rw [← toNat_count32 _ formed.data,← toNat_count32 _ formed.ids,← toNat_count32 _ formed.chunkRefs]
    rfl
  · rw [words]
    exact ahead_after _ _

theorem holds_version2 (formed : FlatFormed c) (version : c.chunkVersion = chunkVersion2) :
    versionByte (chunkVersion1Words c) = 5 ∧ Holds (chunkVersion1Words c) c := by
  have words := words_version2 c formed version
  have byte : versionByte (chunkVersion1Words c) = 5 := by
    rw [words]
    simp [versionByte,dwordAt]
  refine ⟨byte,holds_after 7 c ?_ ?_⟩
  · rw [declared_version2 byte,words]
    rw [← toNat_count32 _ formed.data,← toNat_count32 _ formed.ids,← toNat_count32 _ formed.chunkRefs,
      ← toNat_count32 _ formed.managers]
    rfl
  · rw [words]
    exact ahead_after _ _

theorem holds_compact (formed : FlatFormed c) (version : chunkVersion2 < c.chunkVersion) :
    versionByte (chunkVersion1Words c) = c.chunkVersion.toUInt8 ∧
      optionByte (chunkVersion1Words c) = (optionFlags c).toUInt8 ∧ Holds (chunkVersion1Words c) c := by
  have words := words_compact c formed version
  have byte : versionByte (chunkVersion1Words c) = c.chunkVersion.toUInt8 := by
    rw [words]
    simp [versionByte,dwordAt]
  have option : optionByte (chunkVersion1Words c) = (optionFlags c).toUInt8 := by
    rw [words]
    simp [optionByte,dwordAt]
  have late : ¬ versionByte (chunkVersion1Words c) ≤ 5 := by
    have newest := UInt32.le_iff_toNat_le.mp formed.newest
    change c.chunkVersion.toNat ≤ 7 at newest
    have bound : 5 < c.chunkVersion.toNat := UInt32.lt_iff_toNat_lt.mp version
    rw [byte,UInt8.le_iff_toNat_le,UInt32.toNat_toUInt8]
    change ¬ c.chunkVersion.toNat % 256 ≤ 5
    omega
  have size : dwordAt (chunkVersion1Words c) 1 = count32 c.words := by
    rw [words]
    rfl
  have flag (f : UInt32) (low : 0xFF &&& f = f) :
      hasFlag (optionByte (chunkVersion1Words c)).toUInt32 f = hasFlag (optionFlags c) f := by
    rw [option,hasFlag_lowByte _ f low]
  have ahead : Ahead (chunkVersion1Words c) 2 (c.words ++ (optionalList (optionFlags c) optionIds c.ids ++
      (optionalList (optionFlags c) optionChn c.chunkRefs ++
        (optionalList (optionFlags c) optionMan c.managers ++ [])))) := by
    rw [words]
    exact ahead_after _ _
  refine ⟨byte,option,?_⟩
  obtain ⟨idCount,ids,ahead₁⟩ := declaredSection_ahead (flag optionIds rfl)
    (unflagged_empty (optionFlags_ids c)) formed.ids ahead.skip
  obtain ⟨refCount,refs,ahead₂⟩ := declaredSection_ahead (flag optionChn rfl)
    (unflagged_empty (optionFlags_chn c)) formed.chunkRefs ahead₁
  obtain ⟨managerCount,managers,ahead₃⟩ := declaredSection_ahead (flag optionMan rfl)
    (unflagged_empty (optionFlags_man c)) formed.managers ahead₂
  have layout := declared_compact late
  simp only [size,toNat_count32 _ formed.data] at layout
  constructor <;> rw [layout]
  · exact ⟨rfl,taken_ahead ahead⟩
  · exact ⟨idCount,ids⟩
  · exact ⟨refCount,refs⟩
  · exact ⟨managerCount,managers⟩
  · have size := ahead₃.length_eq
    simp only [List.length_nil,Nat.add_zero] at size
    exact size.symm

theorem length_version1Words (formed : FlatFormed c) :
    4 * (chunkVersion1Words c).length = chunkCalcSizeVersion1 c := by
  rcases version_cases c formed with version | version | version | version
  · rw [words_version1 c formed version,chunkCalcSizeVersion1,version,if_pos (by decide),formed.stored version]
    simp [Chunk.dataSize]
    omega
  · rw [words_version2 c formed version,chunkCalcSizeVersion1,version,if_neg (by decide),if_pos rfl]
    simp [Chunk.dataSize]
    omega
  all_goals
    rw [words_compact c formed (by rw [version]; decide),chunkCalcSizeVersion1,version,if_neg (by decide),
      if_neg (by decide)]
    simp only [← optionFlags_ids,← optionFlags_chn,← optionFlags_man,List.length_append,length_optionalList,
      Chunk.dataSize,List.length_cons,List.length_nil]
    split <;> split <;> split <;> omega

/-- What the version of `c` stores comes back: the lists in every version, the class in the field and
width the version has, the caller's options from version 6 on. -/
structure FlatRestored (back : Chunk) : Prop where
  words : back.words = c.words
  ids : back.ids = c.ids
  chunkRefs : back.chunkRefs = c.chunkRefs
  managers : back.managers = c.managers
  dataVersion : back.dataVersion = c.dataVersion
  chunkVersion : back.chunkVersion = c.chunkVersion
  classId : c.chunkVersion = chunkVersion1 → back.classId = c.classId
  classByte : c.chunkVersion ≠ chunkVersion1 →
    back.chunkClassId = if c.chunkVersion = chunkVersion2 then c.chunkClassId else classIdByte c
  options : back.chunkOptions =
    if c.chunkVersion ≤ chunkVersion2 then optionFlags { c with chunkOptions := 0 } else optionFlags c &&& 0xFF

variable {c} {buf : List UInt32}

theorem Holds.fits (holds : Holds buf c) (known : versionByte buf ≤ 7) : Fits buf :=
  ⟨known,Nat.le_of_eq holds.stop⟩

/-- The lists of a chunk that starts without any. -/
theorem Holds.lists (holds : Holds buf c) (fresh : Chunk) (words : fresh.words = []) (ids : fresh.ids = [])
    (chunkRefs : fresh.chunkRefs = []) (managers : fresh.managers = []) :
    (filled buf fresh).words = c.words ∧ (filled buf fresh).ids = c.ids ∧
      (filled buf fresh).chunkRefs = c.chunkRefs ∧ (filled buf fresh).managers = c.managers := by
  rw [words_filled,words]
  refine ⟨holds.data.2,?_,?_,?_⟩
  · simpa only [filled,ids] using holds.ids.2
  · simpa only [filled,chunkRefs] using holds.chunkRefs.2
  · simpa only [filled,managers] using holds.managers.2

theorem Holds.early_options (holds : Holds buf c) (early : versionByte buf ≤ 5) (fresh : Chunk)
    (none : fresh.chunkOptions = 0) :
    (filled buf fresh).chunkOptions = optionFlags { c with chunkOptions := 0 } := by
  have head : (headed buf fresh).chunkOptions = 0 := by
    unfold headed
    split
    · exact none
    · split
      · exact none
      · rename_i third fourth
        exact absurd early fun low => (UInt8.lt_or_eq_of_le low).elim third fourth
  simp only [filled,head,marked,optionFlags,early,and_true,holds.ids.1,holds.chunkRefs.1,holds.managers.1,
    ← Nat.pos_iff_ne_zero]

theorem late_options (late : ¬ versionByte buf ≤ 5) (fresh : Chunk) :
    (filled buf fresh).chunkOptions = (optionByte buf).toUInt32 ∧
      (filled buf fresh).chunkClassId = (dwordAt buf 0 >>> 8).toUInt8 ∧
      (filled buf fresh).classId = fresh.classId := by
  have third : ¬ versionByte buf < 5 := fun early => late (UInt8.le_of_lt early)
  have fourth : ¬ versionByte buf = 5 := fun same => late (by rw [same]; decide)
  simp [filled,headed,marked,late,third,fourth]

theorem filled_versions (buf : List UInt32) (fresh : Chunk) :
    (filled buf fresh).dataVersion = (dwordAt buf 0).toUInt8.toUInt32 ∧
      (filled buf fresh).chunkVersion = (versionByte buf).toUInt32 := by
  simp only [filled,headed]
  split
  · exact ⟨rfl,rfl⟩
  · split <;> exact ⟨rfl,rfl⟩

theorem restored_version1 (formed : FlatFormed c) (version : c.chunkVersion = chunkVersion1) (raw : List UInt8) :
    FlatRestored c (filled (chunkVersion1Words c) { chunkCreate with rawData := some raw }) := by
  obtain ⟨byte,holds⟩ := holds_version1 c formed version
  obtain ⟨words,ids,chunkRefs,managers⟩ :=
    holds.lists { chunkCreate with rawData := some raw } rfl rfl rfl rfl
  obtain ⟨dataVersion,chunkVersion⟩ :=
    filled_versions (chunkVersion1Words c) { chunkCreate with rawData := some raw }
  have early : versionByte (chunkVersion1Words c) < 5 := by rw [byte]; decide
  have layout := words_version1 c formed version
  refine ⟨words,ids,chunkRefs,managers,?_,?_,fun _ => ?_,fun other => absurd version other,?_⟩
  · rw [dataVersion,layout]
    simpa [dwordAt] using toUInt8_toUInt32 _ formed.dataVersion
  · rw [chunkVersion,byte,version]
    rfl
  · simp only [filled,headed,if_pos early]
    rw [layout]
    rfl
  · rw [holds.early_options (UInt8.le_of_lt early) _ rfl,version,if_pos (by decide)]

theorem restored_version2 (formed : FlatFormed c) (version : c.chunkVersion = chunkVersion2) (raw : List UInt8) :
    FlatRestored c (filled (chunkVersion1Words c) { chunkCreate with rawData := some raw }) := by
  obtain ⟨byte,holds⟩ := holds_version2 c formed version
  obtain ⟨words,ids,chunkRefs,managers⟩ :=
    holds.lists { chunkCreate with rawData := some raw } rfl rfl rfl rfl
  obtain ⟨dataVersion,chunkVersion⟩ :=
    filled_versions (chunkVersion1Words c) { chunkCreate with rawData := some raw }
  have third : ¬ versionByte (chunkVersion1Words c) < 5 := by rw [byte]; decide
  have layout := words_version2 c formed version
  refine ⟨words,ids,chunkRefs,managers,?_,?_,fun first => ?_,fun _ => ?_,?_⟩
  · rw [dataVersion,layout]
    simpa [dwordAt] using toUInt8_toUInt32 _ formed.dataVersion
  · rw [chunkVersion,byte,version]
    rfl
  · rw [version] at first
    exact absurd first (by decide)
  · simp only [filled,headed,if_neg third,if_pos byte,if_pos version]
    rw [layout]
    simp [dwordAt]
  · rw [holds.early_options (by rw [byte]; decide) _ rfl,version,if_pos (by decide)]

theorem restored_compact (formed : FlatFormed c) (version : chunkVersion2 < c.chunkVersion) (raw : List UInt8) :
    FlatRestored c (filled (chunkVersion1Words c) { chunkCreate with rawData := some raw }) := by
  obtain ⟨byte,option,holds⟩ := holds_compact c formed version
  obtain ⟨words,ids,chunkRefs,managers⟩ :=
    holds.lists { chunkCreate with rawData := some raw } rfl rfl rfl rfl
  obtain ⟨dataVersion,chunkVersion⟩ :=
    filled_versions (chunkVersion1Words c) { chunkCreate with rawData := some raw }
  have newest := UInt32.le_iff_toNat_le.mp formed.newest
  change c.chunkVersion.toNat ≤ 7 at newest
  have bound : 5 < c.chunkVersion.toNat := UInt32.lt_iff_toNat_lt.mp version
  have late : ¬ versionByte (chunkVersion1Words c) ≤ 5 := by
    rw [byte,UInt8.le_iff_toNat_le,UInt32.toNat_toUInt8]
    change ¬ c.chunkVersion.toNat % 256 ≤ 5
    omega
  obtain ⟨options,classByte,_⟩ := late_options late { chunkCreate with rawData := some raw }
  have layout := words_compact c formed version
  have second : ¬ c.chunkVersion = chunkVersion2 := by
    intro same
    rw [same] at bound
    exact absurd bound (by decide)
  refine ⟨words,ids,chunkRefs,managers,?_,?_,fun first => ?_,fun _ => ?_,?_⟩
  · rw [dataVersion,layout]
    simpa [dwordAt] using toUInt8_toUInt32 _ formed.dataVersion
  · rw [chunkVersion,byte]
    exact toUInt8_toUInt32 _ (UInt32.lt_iff_toNat_lt.mpr (show c.chunkVersion.toNat < 256 by omega))
  · rw [first] at bound
    exact absurd bound (by decide)
  · rw [classByte,layout,if_neg second]
    simp [dwordAt]
  · rw [options,option,and_low_byte,if_neg]
    rw [UInt32.le_iff_toNat_le]
    change ¬ c.chunkVersion.toNat ≤ 5
    omega

end

theorem holds_version1Words (c : Chunk) (formed : FlatFormed c) (raw : List UInt8) :
    versionByte (chunkVersion1Words c) ≤ 7 ∧ Holds (chunkVersion1Words c) c ∧
      FlatRestored c (filled (chunkVersion1Words c) { chunkCreate with rawData := some raw }) := by
  rcases version_cases c formed with version | version | version | version
  · obtain ⟨byte,holds⟩ := holds_version1 c formed version
    exact ⟨by rw [byte]; decide,holds,restored_version1 formed version raw⟩
  · obtain ⟨byte,holds⟩ := holds_version2 c formed version
    exact ⟨by rw [byte]; decide,holds,restored_version2 formed version raw⟩
  all_goals
    have late : chunkVersion2 < c.chunkVersion := by rw [version]; decide
    obtain ⟨byte,_,holds⟩ := holds_compact c formed late
    exact ⟨by rw [byte,version]; decide,holds,restored_compact formed late raw⟩

/-- Writing a chunk in the flat format and parsing it into a fresh one: the serializer writes as many
bytes as the calculator predicts and the parse restores what the version stores. -/
theorem chunkParse_chunkSerializeVersion1 (c : Chunk) (formed : FlatFormed c) :
    ∃ bytes back, chunkSerializeVersion1 c = .ok (bytes,chunkCalcSizeVersion1 c) ∧
      bytes.length = chunkCalcSizeVersion1 c ∧
      (chunkParse bytes).run chunkCreate = (.ok (),back) ∧ FlatRestored c back := by
  obtain ⟨known,holds,restored⟩ :=
    holds_version1Words c formed (encodeWords (chunkVersion1Words c))
  have size := length_version1Words c formed
  have written : (encodeWords (chunkVersion1Words c)).length = chunkCalcSizeVersion1 c := by
    rw [length_encodeWords,size]
  have parsed := chunkParse_fits (encodeWords (chunkVersion1Words c)) chunkCreate
    (by rw [decodeWords_encodeWords]; exact holds.fits known)
  rw [decodeWords_encodeWords] at parsed
  exact ⟨_,_,by simp [chunkSerializeVersion1,size],written,parsed,restored⟩

def flatSample : Chunk where
  classId := 0x21
  dataVersion := 3
  chunkVersion := chunkVersion4
  data := some [10,20]
  ids := [1]
  managers := [5,6]

theorem flatSample_formed : FlatFormed flatSample := by
  constructor <;> decide

theorem flatSample_restored :
    ∃ bytes back, chunkSerializeVersion1 flatSample = .ok (bytes,chunkCalcSizeVersion1 flatSample) ∧
      bytes.length = chunkCalcSizeVersion1 flatSample ∧
      (chunkParse bytes).run chunkCreate = (.ok (),back) ∧ FlatRestored flatSample back :=
  chunkParse_chunkSerializeVersion1 flatSample flatSample_formed

/-- A chunk written in the flat format and parsed into a fresh chunk. -/
def flatRoundTrip (c : Chunk) : Except Stop Unit × Chunk :=
  match chunkSerializeVersion1 c with
  | .ok (bytes,_) => (chunkParse bytes).run chunkCreate
  | .error stop => (.error stop,chunkCreate)

/-- Version 4 has no room for the options of the caller, version 7 only one byte for the class. -/
theorem flat_fields_not_stored :
    (FlatFormed { chunkVersion := chunkVersion1, chunkOptions := optionFile } ∧
      (flatRoundTrip { chunkVersion := chunkVersion1, chunkOptions := optionFile }).1 = .ok () ∧
      (flatRoundTrip { chunkVersion := chunkVersion1, chunkOptions := optionFile }).2.chunkOptions ≠ optionFile) ∧
    (FlatFormed flatSample ∧ (flatRoundTrip flatSample).1 = .ok () ∧
      (flatRoundTrip flatSample).2.classId ≠ flatSample.classId) := by
  refine ⟨⟨by constructor <;> decide,by decide,by decide⟩,flatSample_formed,by decide,by decide⟩

end Libnmo.Format
