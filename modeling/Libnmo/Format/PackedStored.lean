import Libnmo.Format.ChunkPacking
import Libnmo.Format.ChunkTreeRoundTrip

/-! Packed chunks in the two formats. Both store one byte of the options, and the packed flag is
beyond it, so the words come back as they were stored and are not inflated. -/
namespace Libnmo.Format
open Core Lib Lib.LittleEndian

/-- The counts of a chunk fit the dwords that the flat format has for them. -/
structure CountsFit (c : Chunk) : Prop where
  data : c.words.length < 2 ^ 32
  ids : c.ids.length < 2 ^ 32
  chunkRefs : c.chunkRefs.length < 2 ^ 32
  managers : c.managers.length < 2 ^ 32

/-- What the flat format keeps of a chunk. -/
def flatChunk (c : Chunk) : Chunk :=
  { c with
    chunkVersion := clampVersion c.chunkVersion
    dataVersion := c.dataVersion &&& 0xFF
    classId := if clampVersion c.chunkVersion = chunkVersion1 then c.classId else c.classId &&& 0xFF
    managers := if clampVersion c.chunkVersion = chunkVersion1 then [] else c.managers
    rawData := none }

section
variable {c : Chunk}

theorem clampVersion_bounds (version : UInt32) :
    chunkVersion1 ≤ clampVersion version ∧ clampVersion version ≤ chunkVersion4 := by
  unfold clampVersion
  split
  · exact ⟨by decide,by decide⟩
  · rename_i old
    split
    · exact ⟨by decide,by decide⟩
    · rename_i new
      exact ⟨UInt32.not_lt.mp old,UInt32.not_lt.mp new⟩

theorem low_byte_small (word : UInt32) : word &&& 0xFF < 256 := by
  rw [UInt32.lt_iff_toNat_lt,UInt32.toNat_and]
  exact Nat.lt_of_le_of_lt Nat.and_le_right (by decide)

theorem flatChunk_formed (fits : CountsFit c) : FlatFormed (flatChunk c) where
  oldest := (clampVersion_bounds _).1
  newest := (clampVersion_bounds _).2
  dataVersion := low_byte_small _
  classId other := by
    simp only [flatChunk] at other ⊢
    rw [if_neg other]
    exact low_byte_small _
  data := fits.data
  ids := fits.ids
  chunkRefs := fits.chunkRefs
  managers := by
    simp only [flatChunk]
    split
    · exact Nat.two_pow_pos 32
    · exact fits.managers
  stored first := if_pos first
  rawData := rfl

theorem clampVersion_again (version : UInt32) : clampVersion (clampVersion version) = clampVersion version := by
  obtain ⟨oldest,newest⟩ := clampVersion_bounds version
  rw [clampVersion.eq_1 (clampVersion version),if_neg (UInt32.not_lt.mpr oldest),if_neg (UInt32.not_lt.mpr newest)]

theorem clampVersion_first (version : UInt32) : clampVersion version = chunkVersion1 ↔ clampVersion version < chunkVersion2 := by
  have oldest := UInt32.le_iff_toNat_le.mp (clampVersion_bounds version).1
  rw [← UInt32.toNat_inj,UInt32.lt_iff_toNat_lt]
  change 4 ≤ _ at oldest
  change _ = 4 ↔ _ < 5
  omega

theorem low_byte_again (word : UInt32) : word &&& 0xFF &&& 0xFF = word &&& 0xFF := by
  rw [UInt32.and_assoc]
  rfl

theorem words_flatChunk (c : Chunk) : chunkVersion1Words (flatChunk c) = chunkVersion1Words c := by
  simp only [chunkVersion1Words]
  have version : clampVersion (flatChunk c).chunkVersion = clampVersion c.chunkVersion := clampVersion_again _
  have data : (flatChunk c).dataVersion &&& 0xFF = c.dataVersion &&& 0xFF := low_byte_again _
  rw [version,data]
  split
  · rename_i first
    have kept : (flatChunk c).classId = c.classId := if_pos ((clampVersion_first _).mpr first)
    rw [kept]
    rfl
  · rename_i later
    rw [← clampVersion_first] at later
    have kept : (flatChunk c).classId = c.classId &&& 0xFF := if_neg later
    have managers : (flatChunk c).managers = c.managers := if_neg later
    have byte : classIdByte (flatChunk c) = classIdByte c := by
      simp only [classIdByte,kept,low_byte_again]
      rfl
    have flags : optionFlags (flatChunk c) = optionFlags c := by
      simp only [optionFlags,managers]
      rfl
    rw [byte,flags,managers]
    rfl

theorem clampVersion_second (version : UInt32) :
    (clampVersion version < chunkVersion2 ↔ version < chunkVersion2) ∧
      (clampVersion version = chunkVersion2 ↔ version = chunkVersion2) := by
  unfold clampVersion
  split
  · rename_i old
    rw [UInt32.lt_iff_toNat_lt] at old
    change version.toNat < 4 at old
    rw [UInt32.lt_iff_toNat_lt,UInt32.lt_iff_toNat_lt,← UInt32.toNat_inj,← UInt32.toNat_inj]
    change (4 < 5 ↔ version.toNat < 5) ∧ (4 = 5 ↔ version.toNat = 5)
    omega
  · split
    · rename_i new
      rw [gt_iff_lt,UInt32.lt_iff_toNat_lt] at new
      change 7 < version.toNat at new
      rw [UInt32.lt_iff_toNat_lt,UInt32.lt_iff_toNat_lt,← UInt32.toNat_inj,← UInt32.toNat_inj]
      change (7 < 5 ↔ version.toNat < 5) ∧ (7 = 5 ↔ version.toNat = 5)
      omega
    · exact ⟨Iff.rfl,Iff.rfl⟩

theorem calcSize_flatChunk (c : Chunk) : chunkCalcSizeVersion1 (flatChunk c) = chunkCalcSizeVersion1 c := by
  obtain ⟨early,second⟩ := clampVersion_second c.chunkVersion
  have version : (flatChunk c).chunkVersion = clampVersion c.chunkVersion := rfl
  simp only [chunkCalcSizeVersion1,version,early,second]
  split
  · rfl
  · rename_i later
    rw [← early,← clampVersion_first] at later
    have managers : (flatChunk c).managers = c.managers := if_neg later
    rw [managers]
    rfl

theorem hasFlag_cut (options : UInt32) : hasFlag (options &&& 0xFF) optionPacked = false := by
  simp only [hasFlag,UInt32.and_assoc,bne_eq_false_iff_eq]
  exact UInt32.and_zero

theorem optionFlags_packed (c : Chunk) : hasFlag (optionFlags c) optionPacked = hasFlag c.chunkOptions optionPacked := by
  simp only [optionFlags,hasFlag_added]
  simp [show hasFlag optionIds optionPacked = false from rfl,show hasFlag optionChn optionPacked = false from rfl,
    show hasFlag optionMan optionPacked = false from rfl]

/-- The flat format gives the words back, and a chunk that is not packed. -/
theorem flat_back (fits : CountsFit c) : ∃ bytes size back, chunkSerializeVersion1 c = .ok (bytes,size) ∧
    (chunkParse bytes).run chunkCreate = (.ok (),back) ∧ back.words = c.words ∧
    hasFlag back.chunkOptions optionPacked = false := by
  obtain ⟨bytes,back,written,_,parsed,restored⟩ := chunkParse_chunkSerializeVersion1 _ (flatChunk_formed fits)
  have same : chunkSerializeVersion1 (flatChunk c) = chunkSerializeVersion1 c := by
    simp only [chunkSerializeVersion1,words_flatChunk,calcSize_flatChunk]
  refine ⟨bytes,_,back,same ▸ written,parsed,restored.words,?_⟩
  rw [restored.options]
  split
  · rw [optionFlags_packed]
    change hasFlag 0 optionPacked = false
    rfl
  · exact hasFlag_cut _

/-- The nested format gives the words back, and a chunk that is not packed. -/
theorem stored_back (c : Chunk) : (stored c).words = c.words ∧ hasFlag (stored c).chunkOptions optionPacked = false := by
  rw [stored_eq]
  refine ⟨?_,hasFlag_cut _⟩
  rw [Chunk.words]
  dsimp only
  split
  · rename_i empty
    exact empty.symm
  · rfl

end

/-- The flat format, parsed into a fresh chunk that is then unpacked, gives the words. -/
def FlatGivesBack (miniz : Miniz) (c : Chunk) (words : List UInt32) : Prop :=
  ∃ bytes size back result, chunkSerializeVersion1 c = .ok (bytes,size) ∧
    (chunkParse bytes).run chunkCreate = (.ok (),back) ∧ (chunkUnpack miniz).run back = (.ok (),result) ∧
    result.words = words

/-- The nested format, read back and unpacked, gives the words. -/
def TreeGivesBack (miniz : Miniz) (beyond : Nat → UInt32) (c : Chunk) (words : List UInt32) : Prop :=
  ∃ bytes size back result, chunkSerialize c = .ok (bytes,size) ∧ chunkDeserialize beyond bytes = .ok back ∧
    (chunkUnpack miniz).run back = (.ok (),result) ∧ result.words = words

/-- Nothing is deflated from the chunk but its own words, and a chunk that came packed inflates to its own words. -/
def KeepsWords (miniz : Miniz) (level : Int) (c u : Chunk) : Prop :=
  u.words = c.words ∧ ∀ compressed, Compresses miniz level c compressed → packedWords compressed = c.words

section
variable {miniz : Miniz} {level : Int} {c u : Chunk}

theorem flatGivesBack_iff (fits : CountsFit c) (words : List UInt32) :
    FlatGivesBack miniz c words ↔ c.words = words := by
  obtain ⟨bytes,size,back,written,parsed,same,plain⟩ := flat_back fits
  constructor
  · intro ⟨bytes',size',back',result,written',parsed',unpacked,given⟩
    cases written.symm.trans written'
    cases parsed.symm.trans parsed'
    cases (chunkUnpack_plain plain).symm.trans unpacked
    exact same.symm.trans given
  · intro given
    exact ⟨bytes,size,back,back,written,parsed,chunkUnpack_plain plain,same.trans given⟩

theorem treeGivesBack_iff (fits : TreeFits c) (beyond : Nat → UInt32) (words : List UInt32) :
    TreeGivesBack miniz beyond c words ↔ c.words = words := by
  obtain ⟨bytes,written,_,parsed⟩ := chunkDeserialize_chunkSerialize beyond c fits
  obtain ⟨same,plain⟩ := stored_back c
  constructor
  · intro ⟨bytes',size',back',result,written',parsed',unpacked,given⟩
    cases written.symm.trans written'
    cases parsed.symm.trans parsed'
    cases (chunkUnpack_plain plain).symm.trans unpacked
    exact same.symm.trans given
  · intro given
    exact ⟨bytes,_,stored c,stored c,written,parsed,chunkUnpack_plain plain,same.trans given⟩

theorem keepsWords_iff (unpacked : (chunkUnpack miniz).run c = (.ok (),u)) :
    KeepsWords miniz level c u ↔ ((chunkPack miniz level).run c).2.words = u.words := by
  constructor
  · intro ⟨same,each⟩
    rcases chunkPack_cases miniz level c with kept | ⟨compressed,compresses⟩
    · rw [kept,same]
    · rw [chunkPack_compresses compresses,words_packedChunk,each compressed compresses,same]
  · intro given
    rcases chunkPack_cases miniz level c with kept | ⟨compressed,compresses⟩
    · rw [kept] at given
      refine ⟨given.symm,fun compressed compresses => ?_⟩
      rw [chunkPack_compresses compresses] at kept
      rw [← words_packedChunk compressed c]
      exact congrArg Chunk.words kept
    · have same := unpacked
      rw [chunkUnpack_plain compresses.plain] at same
      cases same
      refine ⟨rfl,fun other another => ?_⟩
      rw [← given,chunkPack_compresses another,words_packedChunk]

theorem packed_stored_when (unpacked : (chunkUnpack miniz).run c = (.ok (),u)) :
    (CountsFit ((chunkPack miniz level).run c).2 →
      (FlatGivesBack miniz ((chunkPack miniz level).run c).2 u.words ↔ KeepsWords miniz level c u)) ∧
    (TreeFits ((chunkPack miniz level).run c).2 → ∀ beyond,
      (TreeGivesBack miniz beyond ((chunkPack miniz level).run c).2 u.words ↔ KeepsWords miniz level c u)) := by
  refine ⟨fun fits => ?_,fun fits beyond => ?_⟩
  · rw [flatGivesBack_iff fits,keepsWords_iff unpacked]
  · rw [treeGivesBack_iff fits,keepsWords_iff unpacked]

end

def idsOnly : Chunk := { chunkCreate with chunkOptions := optionIds, ids := [1] }

theorem idsOnly_given_back : FlatGivesBack storedMiniz ((chunkPack storedMiniz 9).run idsOnly).2 [] := by
  apply ((packed_stored_when (chunkUnpack_plain rfl)).1 (by constructor <;> decide +kernel)).mpr
  refine ⟨rfl,fun compressed compresses => ?_⟩
  exact absurd rfl compresses.sized

def dataOnly : Chunk := { chunkCreate with data := some [1] }

/-- One word comes back as the four words of its stream, from both formats. -/
theorem dataOnly_not_given_back : storedMiniz.Restores ∧
    ¬ FlatGivesBack storedMiniz ((chunkPack storedMiniz 0).run dataOnly).2 [1] ∧
    ¬ TreeGivesBack storedMiniz (fun _ => 0) ((chunkPack storedMiniz 0).run dataOnly).2 [1] := by
  have packed : ((chunkPack storedMiniz 0).run dataOnly).2.words ≠ [1] := by decide +kernel
  have counts : CountsFit ((chunkPack storedMiniz 0).run dataOnly).2 := by constructor <;> decide +kernel
  have fits : TreeFits ((chunkPack storedMiniz 0).run dataOnly).2 := by
    apply TreeFits.node
    case children =>
      intro child member
      cases member
    all_goals decide +kernel
  rw [flatGivesBack_iff counts,treeGivesBack_iff fits]
  exact ⟨storedMiniz_restores,packed,packed⟩

end Libnmo.Format

/-! Packing and unpacking undo each other on a chunk that is not packed. On one that
is packed already the pack does nothing, and the unpack gives what was packed before. -/
namespace Libnmo.Format
open Core Lib Lib.LittleEndian

/-- The chunk after a pack, whatever it returned. -/
def packed (miniz : Miniz) (level : Int) (c : Chunk) : Chunk := ((chunkPack miniz level).run c).2

/-- An unpack succeeds on the chunk, with the data, their size and the options of the other. -/
def UnpacksTo (miniz : Miniz) (c original : Chunk) : Prop :=
  ∃ u, (chunkUnpack miniz).run c = (.ok (),u) ∧ u.data = original.data ∧ u.dataSize = original.dataSize ∧
    u.chunkOptions = original.chunkOptions

/-- What is promised of packing a chunk that is not packed, and of packing and unpacking any chunk again. -/
structure PackUndone (miniz : Miniz) (level : Int) (c : Chunk) : Prop where
  restored : hasFlag c.chunkOptions optionPacked = false → UnpacksTo miniz (packed miniz level c) c
  again : packed miniz level (packed miniz level c) = packed miniz level c
  packedAgain : hasFlag (packed miniz level c).chunkOptions optionPacked = true →
    ∀ other, (chunkPack miniz other).run (packed miniz level c) = (.ok (),packed miniz level c)
  failed : ∀ stop u, (chunkUnpack miniz).run c = (.error stop,u) → u = c

section
variable {miniz : Miniz} {level : Int} {c u : Chunk}

theorem unflagged (options : UInt32) (plain : hasFlag options optionPacked = false) :
    (options ||| optionPacked) &&& ~~~ optionPacked = options := by
  have zero : options &&& optionPacked = 0 := by simpa [hasFlag] using plain
  have whole : options &&& (optionPacked ||| ~~~ optionPacked) = options := by
    rw [show optionPacked ||| ~~~ optionPacked = -1 from rfl,UInt32.and_neg_one]
  have distrib : (options ||| optionPacked) &&& ~~~ optionPacked = (options &&& ~~~ optionPacked) ||| 0 :=
    UInt32.toBitVec_inj.mp BitVec.and_or_distrib_right
  have split : options &&& (optionPacked ||| ~~~ optionPacked) =
      (options &&& optionPacked) ||| (options &&& ~~~ optionPacked) := UInt32.toBitVec_inj.mp BitVec.and_or_distrib_left
  rw [distrib,UInt32.or_zero]
  rwa [whole,zero,UInt32.zero_or,eq_comm] at split

theorem pack_flagged (flagged : hasFlag c.chunkOptions optionPacked = true) : (chunkPack miniz level).run c = (.ok (),c) := by
  rw [chunkPack,chunkCompress,Action.bind_ok _ (Action.read_apply id c)]
  dsimp only [id]
  rw [if_pos flagged,ite_self]
  rfl

theorem unpack_failed {stop : Stop} (ran : (chunkUnpack miniz).run c = (.error stop,u)) : u = c := by
  simp only [chunkUnpack,chunkDecompress] at ran
  split at ran
  · cases ran
  · split at ran
    · cases ran
      rfl
    · split at ran
      · cases ran
        rfl
      · split at ran
        · cases ran
          rfl
        · cases ran

theorem unpack_restores (restores : miniz.Restores) (plain : hasFlag c.chunkOptions optionPacked = false) :
    UnpacksTo miniz (packed miniz level c) c := by
  rcases chunkPack_cases miniz level c with same | ⟨compressed,compresses⟩
  · rw [packed,same]
    exact ⟨c,chunkUnpack_plain plain,rfl,rfl,rfl⟩
  · have words := words_inflatedChunk (encodeWords c.words) (packedChunk compressed c)
    rw [decodeWords_encodeWords] at words
    have data : c.data = some c.words := by
      cases held : c.data with
      | none =>
        have sized := compresses.sized
        rw [Chunk.dataSize,Chunk.words,held] at sized
        exact absurd rfl sized
      | some words => rw [Chunk.words,held]; rfl
    have stored : (inflatedChunk (encodeWords c.words) (packedChunk compressed c)).data = some _ := rfl
    rw [packed,chunkPack_compresses compresses]
    refine ⟨_,unpack_compressed restores compresses,?_,congrArg List.length words,unflagged _ compresses.plain⟩
    exact stored.trans ((congrArg some words).trans data.symm)

/-- Packing again gives what the first pack gave. -/
theorem packed_again (level : Int) : packed miniz level (packed miniz level c) = packed miniz level c := by
  rcases chunkPack_cases miniz level c with same | ⟨compressed,compresses⟩
  · rw [packed,packed,same,same]
  · have flagged : hasFlag (packed miniz level c).chunkOptions optionPacked = true := by
      rw [packed,chunkPack_compresses compresses]
      exact hasFlag_packed _
    rw [packed,pack_flagged flagged]

end

/-- Packing and unpacking undo each other on every chunk that is not packed, a second pack changes nothing, and
an unpack that fails changes nothing. -/
theorem pack_undone (miniz : Miniz) (restores : miniz.Restores) (level : Int) (c : Chunk) : PackUndone miniz level c where
  restored := unpack_restores restores
  again := packed_again level
  packedAgain flagged _ := pack_flagged flagged
  failed _ _ ran := unpack_failed ran

theorem pack_undone_stored : PackUndone storedMiniz 0 { chunkCreate with data := some [1] } :=
  pack_undone storedMiniz storedMiniz_restores 0 _

/-- A chunk with one word, packed into stored blocks. -/
def packedOnce : Chunk := packed storedMiniz 0 { chunkCreate with data := some [1] }

/-- A chunk that is packed already loses its packed data and its option. -/
theorem packedOnce_unpacked :
    storedMiniz.Restores ∧ ¬ UnpacksTo storedMiniz (packed storedMiniz 0 packedOnce) packedOnce := by
  refine ⟨storedMiniz_restores,?_⟩
  rintro ⟨u,ran,_,_,options⟩
  have flagged : packedOnce.chunkOptions = optionPacked := by decide +kernel
  have same : packed storedMiniz 0 packedOnce = packedOnce :=
    congrArg Prod.snd (pack_flagged (by rw [flagged]; decide))
  rw [same] at ran
  rcases chunkUnpack_success ran with ⟨plain,_⟩ | ⟨_,_,_,_,_,rfl⟩
  · rw [flagged] at plain
    cases plain
  · rw [inflatedChunk,flagged] at options
    cases options

end Libnmo.Format
