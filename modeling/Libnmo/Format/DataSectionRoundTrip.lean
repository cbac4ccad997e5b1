import Libnmo.Format.DataSection
import Libnmo.Format.ChunkTreeRoundTrip

/-! The data section read back. Records are written with one chunk codec and read
with another, so a chunk survives only in the shape that both agree on: the packed
header of versions 6 and 7 with a zero class and no sub-chunk, or raw bytes that
still describe it. Every other record is lost or fails the parse. -/
namespace Libnmo.Format
open Core Lib Lib.LittleEndian Lib.Cursor

/-- What a record's chunk is compared by. -/
structure ChunkSame (c back : Chunk) : Prop where
  classId : back.classId = c.classId
  words : back.words = c.words
  ids : back.ids = c.ids
  chunks : back.chunks = c.chunks
  chunkRefs : back.chunkRefs = c.chunkRefs
  managers : back.managers = c.managers

/-- The class that `nmo_chunk_parse` stores in a fresh chunk. -/
def parsedClassId (buf : List UInt32) : UInt32 := if versionByte buf < 5 then dwordAt buf 1 else 0

/-- The raw bytes are a flat buffer that declares the lists of the chunk. -/
structure RawDescribes (buf : List UInt32) (c : Chunk) : Prop where
  fits : Fits buf
  classId : parsedClassId buf = c.classId
  words : taken buf (declared buf).data [] = c.words
  ids : taken buf (declared buf).ids [] = c.ids
  chunks : c.chunks = []
  chunkRefs : taken buf (declared buf).chunkRefs [] = c.chunkRefs
  managers : taken buf (declared buf).managers [] = c.managers

/-- The shape in which the nested format is a flat buffer with the same lists. -/
structure NestedAgrees (c : Chunk) : Prop where
  version : c.chunkVersion.toUInt8 = 6 ∨ c.chunkVersion.toUInt8 = 7
  classId : c.classId = 0
  chunks : c.chunks = []
  chunkRefs : c.chunkRefs = []
  ids : hasFlag c.chunkOptions optionIds ∨ c.ids = []
  managers : hasFlag c.chunkOptions optionMan ∨ c.managers = []
  size : chunkCalcSize c < 2 ^ 32

/-- The raw bytes that the serializer copies, when there are any. -/
def cachedBytes (c : Chunk) : Option (List UInt8) :=
  match c.rawData with
  | some raw => if 0 < raw.length then some raw else none
  | none => none

def Survives (c : Chunk) : Prop :=
  match cachedBytes c with
  | some raw => RawDescribes (decodeWords raw) c
  | none => NestedAgrees c

/-- The bytes of a record's chunk. -/
def payload (c : Chunk) : List UInt8 := (cachedBytes c).getD (encodeWords (treeWords c))

theorem chunkPayload_cached (c : Chunk) : chunkPayload c =
    match cachedBytes c with
    | some raw => .ok (raw,raw.length)
    | none => chunkSerialize c := by
  unfold chunkPayload cachedBytes
  cases c.rawData with
  | none => rfl
  | some raw =>
    dsimp only
    split <;> rfl

theorem chunkPayload_eq (c : Chunk) : chunkPayload c = .ok (payload c,(payload c).length) := by
  rw [chunkPayload_cached,payload]
  cases cachedBytes c with
  | none => rw [Option.getD_none,chunkSerialize_eq,length_encodeWords,length_treeWords]
  | some raw => rfl

theorem cachedBytes_pos {c : Chunk} {raw : List UInt8} (cached : cachedBytes c = some raw) : 0 < raw.length := by
  unfold cachedBytes at cached
  split at cached
  · split at cached
    · rename_i some
      exact Option.some.inj cached ▸ some
    · simp at cached
  · simp at cached

theorem length_payload_pos (c : Chunk) : 0 < (payload c).length := by
  rw [payload]
  cases cached : cachedBytes c with
  | none =>
    rw [Option.getD_none,length_encodeWords,length_treeWords,chunkCalcSize_eq]
    omega
  | some raw => exact cachedBytes_pos cached

def chunkBytes (chunk : Option Chunk) : List UInt8 := (chunk.map payload).getD []

def recordBytes (chunk : Option Chunk) : List UInt8 :=
  wordBytes (UInt32.ofNat (chunkBytes chunk).length) ++ chunkBytes chunk

def managerBytes (m : ManagerData) : List UInt8 :=
  wordBytes m.guid.d1 ++ wordBytes m.guid.d2 ++ recordBytes m.chunk

section Writing
variable {bufferSize : Nat} {written after : List UInt8}

theorem put_success {bytes : List UInt8} {message : String}
    (ok : (put bufferSize bytes message).run written = (.ok (),after)) : after = written ++ bytes := by
  unfold put at ok
  simp only at ok
  split at ok
  · simp at ok
  · simp only [Prod.mk.injEq,true_and] at ok
    exact ok.symm

theorem putChunk_success {chunk : Option Chunk} {sizeMessage dataMessage : String}
    (ok : (putChunk bufferSize chunk sizeMessage dataMessage).run written = (.ok (),after)) :
    after = written ++ recordBytes chunk := by
  have payloads : recordPayload chunk = .ok (chunkBytes chunk,(chunkBytes chunk).length) := by
    cases chunk with
    | none => rfl
    | some c => exact chunkPayload_eq c
  rw [putChunk,payloads] at ok
  rw [Action.bind_ok _ (Action.lift_apply _ _)] at ok
  obtain ⟨_,middle,first,rest⟩ := Action.bind_success ok
  rw [put_success first] at rest
  split at rest
  · rw [put_success rest,recordBytes,List.append_assoc]
  · rename_i empty
    have nothing : chunkBytes chunk = [] := List.length_eq_zero_iff.mp (by omega)
    simp only [Action.pure_apply,Prod.mk.injEq,true_and] at rest
    rw [← rest,recordBytes,nothing]
    simp

theorem putManager_success {m : ManagerData} (ok : (putManager bufferSize m).run written = (.ok (),after)) :
    after = written ++ managerBytes m := by
  obtain ⟨_,middle,first,rest⟩ := Action.bind_success ok
  rw [putChunk_success rest,put_success first,managerBytes]
  simp

theorem putObject_success {fileVersion : UInt32} (modern : ¬ fileVersion < 7) {o : ObjectData}
    (ok : (putObject fileVersion bufferSize o).run written = (.ok (),after)) :
    after = written ++ recordBytes o.chunk := by
  rw [putObject,if_neg modern,Action.bind_ok _ (Action.pure_apply _ _)] at ok
  exact putChunk_success ok

theorem putEach_success {α : Type} (step : α → Run (List UInt8) Unit) (bytes : α → List UInt8)
    (each : ∀ a before next, (step a).run before = (.ok (),next) → next = before ++ bytes a)
    (items : List α) (ok : (putEach step items).run written = (.ok (),after)) :
    after = written ++ items.flatMap bytes := by
  induction items generalizing written with
  | nil =>
    simp only [putEach,Action.pure_apply,Prod.mk.injEq,true_and] at ok
    simp [ok]
  | cons a items ih =>
    obtain ⟨_,middle,first,rest⟩ := Action.bind_success ok
    rw [ih rest,each _ _ _ first]
    simp

theorem dataSectionSerialize_success {s : DataSection} {fileVersion : UInt32} (modern : ¬ fileVersion < 7)
    {bytes : List UInt8} (ok : dataSectionSerialize s fileVersion bufferSize = .ok bytes) :
    bytes = s.managers.flatMap managerBytes ++ s.objects.flatMap fun o => recordBytes o.chunk := by
  unfold dataSectionSerialize at ok
  split at ok
  · rename_i result run
    obtain ⟨_,middle,first,rest⟩ := Action.bind_success run
    have head := putEach_success (putManager bufferSize) managerBytes
      (fun m _ _ => putManager_success) s.managers first
    have tail := putEach_success (putObject fileVersion bufferSize) (fun o => recordBytes o.chunk)
      (fun o _ _ => putObject_success modern) s.objects rest
    simp only [Except.ok.injEq] at ok
    rw [← ok,tail,head]
    simp
  · simp at ok

end Writing

section Parsing
variable {buf : List UInt32} {c : Chunk}

theorem taken_length (span : Span) (inside : span.stop ≤ buf.length) :
    (taken buf span []).length = span.count := by
  unfold taken
  split
  · rename_i zero
    exact zero.symm
  · exact length_slice buf _ _ inside

/-- What a parse leaves in a fresh chunk compares equal exactly when the buffer declares the chunk. -/
theorem chunkSame_filled_iff (raw : List UInt8) :
    ChunkSame c (filled buf { chunkCreate with rawData := some raw }) ↔
      parsedClassId buf = c.classId ∧ taken buf (declared buf).data [] = c.words ∧
        taken buf (declared buf).ids [] = c.ids ∧ c.chunks = [] ∧
        taken buf (declared buf).chunkRefs [] = c.chunkRefs ∧
        taken buf (declared buf).managers [] = c.managers := by
  have classId : (filled buf { chunkCreate with rawData := some raw }).classId = parsedClassId buf := by
    simp only [filled,headed,parsedClassId]
    split
    · rfl
    · split <;> rfl
  have chunks : (filled buf { chunkCreate with rawData := some raw }).chunks = [] := by
    simp only [filled,headed]
    split
    · rfl
    · split <;> rfl
  have words := words_filled buf { chunkCreate with rawData := some raw }
  constructor
  · intro same
    exact ⟨classId.symm.trans same.classId,words.symm.trans same.words,same.ids,
      (chunks.symm.trans same.chunks).symm,same.chunkRefs,same.managers⟩
  · rintro ⟨class',words',ids,none,chunkRefs,managers⟩
    exact ⟨classId.trans class',words.trans words',ids,chunks.trans none.symm,chunkRefs,managers⟩

theorem rawDescribes_iff (raw : List UInt8) : RawDescribes (decodeWords raw) c ↔
    ∃ back, (chunkParse raw).run chunkCreate = (.ok (),back) ∧ ChunkSame c back := by
  constructor
  · intro describes
    refine ⟨_,chunkParse_fits raw chunkCreate describes.fits,(chunkSame_filled_iff raw).mpr ?_⟩
    exact ⟨describes.classId,describes.words,describes.ids,describes.chunks,describes.chunkRefs,
      describes.managers⟩
  · rintro ⟨back,run,same⟩
    have fits : Fits (decodeWords raw) := (chunkParse_ok_iff raw chunkCreate).mp (by rw [run])
    have parsed := chunkParse_fits raw chunkCreate fits
    rw [run,Prod.mk.injEq] at parsed
    rw [parsed.2,chunkSame_filled_iff] at same
    obtain ⟨classId,words,ids,chunks,chunkRefs,managers⟩ := same
    exact ⟨fits,classId,words,ids,chunks,chunkRefs,managers⟩

/-- The buffer is at least as long as its header, its lists and the counts before them. -/
theorem RawDescribes.extent (describes : RawDescribes buf c) :
    (declared buf).data.count = c.words.length ∧ (declared buf).ids.count = c.ids.length ∧
      (declared buf).chunkRefs.count = c.chunkRefs.length ∧ (declared buf).managers.count = c.managers.length := by
  obtain ⟨first,second,third⟩ := declared_ordered buf
  have stop := describes.fits.2
  refine ⟨?_,?_,?_,?_⟩
  · rw [← describes.words,taken_length _ (by omega)]
  · rw [← describes.ids,taken_length _ (by omega)]
  · rw [← describes.chunkRefs,taken_length _ (by omega)]
  · rw [← describes.managers,taken_length _ stop]

theorem section_stop (buf : List UInt32) (flag : UInt32) (pos : Nat) :
    (declaredSection buf flag pos).stop =
      pos + (if hasFlag (optionByte buf).toUInt32 flag then 1 + (declaredSection buf flag pos).count else 0) ∧
    (hasFlag (optionByte buf).toUInt32 flag = false → (declaredSection buf flag pos).count = 0) := by
  unfold declaredSection Span.stop
  cases hasFlag (optionByte buf).toUInt32 flag with
  | false => simp
  | true =>
    simp only [if_true]
    exact ⟨by omega,by simp⟩

/-- The words an optional section with `count` entries takes. -/
def sectionSize (options flag : UInt32) (count : Nat) : Nat := if hasFlag options flag then 1 + count else 0

/-- The compact layout is as long as its header, its data and its flagged sections. -/
theorem compact_extent (late : ¬ versionByte buf ≤ 5) :
    (declared buf).managers.stop = 2 + (declared buf).data.count +
      sectionSize (optionByte buf).toUInt32 optionIds (declared buf).ids.count +
      sectionSize (optionByte buf).toUInt32 optionChn (declared buf).chunkRefs.count +
      sectionSize (optionByte buf).toUInt32 optionMan (declared buf).managers.count ∧
    (hasFlag (optionByte buf).toUInt32 optionIds = false → (declared buf).ids.count = 0) ∧
    (hasFlag (optionByte buf).toUInt32 optionChn = false → (declared buf).chunkRefs.count = 0) ∧
    (hasFlag (optionByte buf).toUInt32 optionMan = false → (declared buf).managers.count = 0) := by
  rw [declared_compact late]
  obtain ⟨ids,noIds⟩ := section_stop buf optionIds (Span.stop ⟨2,(dwordAt buf 1).toNat⟩)
  obtain ⟨refs,noRefs⟩ := section_stop buf optionChn
    (declaredSection buf optionIds (Span.stop ⟨2,(dwordAt buf 1).toNat⟩)).stop
  obtain ⟨managers,noManagers⟩ := section_stop buf optionMan (declaredSection buf optionChn
    (declaredSection buf optionIds (Span.stop ⟨2,(dwordAt buf 1).toNat⟩)).stop).stop
  exact ⟨managers.trans (congrArg (· + _) (refs.trans (congrArg (· + _) ids))),noIds,noRefs,noManagers⟩

theorem count_le_sectionSize {options flag : UInt32} {count : Nat}
    (none : hasFlag options flag = false → count = 0) : count ≤ sectionSize options flag count := by
  unfold sectionSize
  split
  · omega
  · rename_i off
    exact Nat.le_of_eq (none (by simpa using off))

theorem extent_counts (buf : List UInt32) :
    2 + (declared buf).data.count + (declared buf).ids.count + (declared buf).chunkRefs.count +
      (declared buf).managers.count ≤ (declared buf).managers.stop := by
  by_cases early : versionByte buf < 5
  · simp only [declared_version1 early,declaredAfter,Span.stop]
    omega
  · by_cases second : versionByte buf = 5
    · simp only [declared_version2 second,declaredAfter,Span.stop]
      omega
    · obtain ⟨extent,ids,refs,managers⟩ := compact_extent fun low =>
        (UInt8.lt_or_eq_of_le low).elim early second
      have := count_le_sectionSize ids
      have := count_le_sectionSize refs
      have := count_le_sectionSize managers
      omega

theorem sectionSize_le (options flag : UInt32) (count : Nat) : sectionSize options flag count ≤ 1 + count := by
  unfold sectionSize
  split <;> omega

theorem calcSize_sections (none : c.chunks = []) : chunkCalcSize c = 4 * (2 + c.words.length +
    sectionSize c.chunkOptions optionIds c.ids.length + sectionSize c.chunkOptions optionChn 0 +
      sectionSize c.chunkOptions optionMan c.managers.length) := by
  have scaled (flag : UInt32) (count : Nat) :
      optionalSize c.chunkOptions flag (count * 4) = 4 * sectionSize c.chunkOptions flag count := by
    unfold optionalSize sectionSize
    split <;> omega
  have empty := scaled optionChn 0
  rw [Nat.zero_mul] at empty
  rw [chunkCalcSize_eq,none,childrenCalcSize,scaled,scaled,empty,Chunk.dataSize]
  omega

/-- A nested chunk without children has at most three words more than its lists and header. -/
theorem calcSize_childless (none : c.chunks = []) :
    chunkCalcSize c ≤ 4 * (5 + c.words.length + c.ids.length + c.managers.length) := by
  have ids := sectionSize_le c.chunkOptions optionIds c.ids.length
  have refs := sectionSize_le c.chunkOptions optionChn 0
  have managers := sectionSize_le c.chunkOptions optionMan c.managers.length
  rw [calcSize_sections none]
  omega

theorem RawDescribes.size (describes : RawDescribes buf c) : chunkCalcSize c ≤ 4 * buf.length + 12 := by
  obtain ⟨data,ids,chunkRefs,managers⟩ := describes.extent
  have counts := extent_counts buf
  have stop := describes.fits.2
  have size := calcSize_childless describes.chunks
  omega

theorem versionByte_treeWords (c : Chunk) : versionByte (treeWords c) = c.chunkVersion.toUInt8 ∧
    optionByte (treeWords c) = c.chunkOptions.toUInt8 ∧ dwordAt (treeWords c) 1 = count32 c.words := by
  rw [treeWords_eq]
  simp [versionByte,optionByte,dwordAt,packVersionInfo_eq]

theorem flag_treeWords (c : Chunk) (flag : UInt32) (low : 0xFF &&& flag = flag) :
    hasFlag (optionByte (treeWords c)).toUInt32 flag = hasFlag c.chunkOptions flag := by
  rw [(versionByte_treeWords c).2.1,hasFlag_lowByte _ flag low]

theorem flag_sectionSize (c : Chunk) (flag : UInt32) (low : 0xFF &&& flag = flag) (count : Nat) :
    sectionSize (optionByte (treeWords c)).toUInt32 flag count = sectionSize c.chunkOptions flag count := by
  unfold sectionSize
  rw [flag_treeWords c flag low]

/-- In the agreed shape the words of the nested format hold the chunk. -/
theorem NestedAgrees.holds (agrees : NestedAgrees c) : Holds (treeWords c) c := by
  have total := agrees.size
  have length := length_treeWords c
  have words := treeWords_eq c
  rw [agrees.chunks,show count32 ([] : List Chunk) :: childrenWords [] = count32 ([] : List UInt32) :: [] from rfl,
    ← optionalList.eq_1 c.chunkOptions optionChn] at words
  have small : c.words.length < 2 ^ 30 := by
    rw [chunkCalcSize_eq] at total
    simp only [Chunk.dataSize] at total
    omega
  have idsSmall := length_optionalList c.chunkOptions optionIds c.ids
  have managersSmall := length_optionalList c.chunkOptions optionMan c.managers
  rw [words] at length
  simp only [List.length_append] at length
  have none (list : List UInt32) (flag : UInt32) (kept : hasFlag c.chunkOptions flag ∨ list = []) :
      hasFlag c.chunkOptions flag = false → list = [] := fun off => by
    rcases kept with on | empty
    · rw [off] at on
      simp at on
    · exact empty
  have idsBound : c.ids.length < 2 ^ 32 := by
    rcases agrees.ids with on | empty
    · rw [if_pos on] at idsSmall
      omega
    · simp [empty]
  have managersBound : c.managers.length < 2 ^ 32 := by
    rcases agrees.managers with on | empty
    · rw [if_pos on] at managersSmall
      omega
    · simp [empty]
  have late : ¬ versionByte (treeWords c) ≤ 5 := by
    rw [(versionByte_treeWords c).1]
    rcases agrees.version with six | seven
    · rw [six]
      decide
    · rw [seven]
      decide
  have ahead : Ahead (treeWords c) 2 (c.words ++ (optionalList c.chunkOptions optionIds c.ids ++
      (optionalList c.chunkOptions optionChn [] ++ (optionalList c.chunkOptions optionMan c.managers ++ [])))) := by
    rw [words,List.append_nil]
    exact ahead_after _ _
  obtain ⟨idCount,ids,ahead₁⟩ := declaredSection_ahead (flag_treeWords c optionIds rfl)
    (none c.ids optionIds agrees.ids) idsBound ahead.skip
  obtain ⟨refCount,refs,ahead₂⟩ := declaredSection_ahead (flag_treeWords c optionChn rfl)
    (fun _ => rfl) (by decide) ahead₁
  obtain ⟨managerCount,managers,ahead₃⟩ := declaredSection_ahead (flag_treeWords c optionMan rfl)
    (none c.managers optionMan agrees.managers) managersBound ahead₂
  have layout := declared_compact late
  simp only [(versionByte_treeWords c).2.2,toNat_count32 c.words (by omega)] at layout
  constructor <;> rw [layout]
  · exact ⟨rfl,taken_ahead ahead⟩
  · exact ⟨idCount,ids⟩
  · rw [agrees.chunkRefs]
    exact ⟨refCount,refs⟩
  · exact ⟨managerCount,managers⟩
  · have size := ahead₃.length_eq
    simp only [List.length_nil,Nat.add_zero] at size
    exact size.symm

theorem NestedAgrees.describes (agrees : NestedAgrees c) : RawDescribes (treeWords c) c := by
  have holds := agrees.holds
  have byte := (versionByte_treeWords c).1
  have known : versionByte (treeWords c) ≤ 7 ∧ ¬ versionByte (treeWords c) < 5 := by
    rw [byte]
    rcases agrees.version with six | seven
    · rw [six]
      decide
    · rw [seven]
      decide
  refine ⟨holds.fits known.1,?_,holds.data.2,holds.ids.2,agrees.chunks,holds.chunkRefs.2,holds.managers.2⟩
  rw [parsedClassId,if_neg known.2,agrees.classId]

/-- The headers of versions 4 and 5 do not fit before the lists of a nested chunk. -/
theorem late_of_describes (describes : RawDescribes (treeWords c) c) : ¬ versionByte (treeWords c) ≤ 5 := by
  obtain ⟨data,ids,chunkRefs,managers⟩ := describes.extent
  have stop := describes.fits.2
  have size := calcSize_childless describes.chunks
  rw [← length_treeWords] at size
  intro low
  rcases UInt8.lt_or_eq_of_le low with early | second
  · rw [declared_version1 early] at stop data ids chunkRefs managers
    simp only [declaredAfter,Span.stop] at stop data ids chunkRefs managers
    omega
  · rw [declared_version2 second] at stop data ids chunkRefs managers
    simp only [declaredAfter,Span.stop] at stop data ids chunkRefs managers
    omega

theorem agrees_of_describes (small : chunkCalcSize c < 2 ^ 32) (describes : RawDescribes (treeWords c) c) :
    NestedAgrees c := by
  have late := late_of_describes describes
  have byte := (versionByte_treeWords c).1
  have known := describes.fits.1
  have stop := describes.fits.2
  have length := length_treeWords c
  obtain ⟨data,ids,chunkRefs,managers⟩ := describes.extent
  obtain ⟨extent,noIds,noRefs,noManagers⟩ := compact_extent late
  rw [data,ids,chunkRefs,managers] at extent
  rw [flag_treeWords c _ rfl] at noIds noRefs noManagers
  rw [flag_sectionSize c _ rfl,flag_sectionSize c _ rfl,flag_sectionSize c _ rfl] at extent
  rw [calcSize_sections describes.chunks] at length
  have refs : c.chunkRefs = [] := by
    apply List.length_eq_zero_iff.mp
    cases on : hasFlag c.chunkOptions optionChn with
    | false => exact chunkRefs.symm.trans (noRefs on)
    | true =>
      simp only [sectionSize.eq_1 c.chunkOptions optionChn,on,if_true] at extent length
      omega
  refine ⟨?_,?_,describes.chunks,refs,?_,?_,small⟩
  · rw [← byte]
    have bound := UInt8.le_iff_toNat_le.mp known
    rw [UInt8.le_iff_toNat_le] at late
    simp only [← UInt8.toNat_inj]
    change (versionByte (treeWords c)).toNat ≤ 7 at bound
    change ¬ (versionByte (treeWords c)).toNat ≤ 5 at late
    change (versionByte (treeWords c)).toNat = 6 ∨ (versionByte (treeWords c)).toNat = 7
    omega
  · rw [← describes.classId,parsedClassId,if_neg fun early => late (UInt8.le_of_lt early)]
  · by_cases flagged : hasFlag c.chunkOptions optionIds
    · exact .inl flagged
    · exact .inr (List.length_eq_zero_iff.mp (ids.symm.trans (noIds (by simpa using flagged))))
  · by_cases flagged : hasFlag c.chunkOptions optionMan
    · exact .inl flagged
    · exact .inr (List.length_eq_zero_iff.mp (managers.symm.trans (noManagers (by simpa using flagged))))

end Parsing

/-- Raw sizes come from 32-bit size fields. -/
def RawSized (chunk : Option Chunk) : Prop :=
  ∀ c, chunk = some c → ∀ raw, c.rawData = some raw → raw.length < 2 ^ 32

def DataSection.RawSized (s : DataSection) : Prop :=
  (∀ m ∈ s.managers, Format.RawSized m.chunk) ∧ ∀ o ∈ s.objects, Format.RawSized o.chunk

def RecordSurvives (chunk : Option Chunk) : Prop := ∀ c, chunk = some c → Survives c

def RecordSame : Option Chunk → Option Chunk → Prop
  | none,none => True
  | some c,some back => ChunkSame c back
  | _,_ => False

theorem survives_iff {c : Chunk} (small : (payload c).length < 2 ^ 32) :
    Survives c ↔ RawDescribes (decodeWords (payload c)) c := by
  unfold Survives payload at *
  cases cached : cachedBytes c with
  | some raw => rfl
  | none =>
    rw [cached,Option.getD_none,length_encodeWords,length_treeWords] at small
    rw [Option.getD_none,decodeWords_encodeWords]
    exact ⟨NestedAgrees.describes,agrees_of_describes small⟩

theorem cachedBytes_raw {c : Chunk} {raw : List UInt8} (cached : cachedBytes c = some raw) :
    c.rawData = some raw := by
  unfold cachedBytes at cached
  split at cached
  · rename_i found
    split at cached
    · rw [found,cached]
    · simp at cached
  · simp at cached

/-- Beyond 32 bits only the nested format is written, and no prefix of it describes the chunk. -/
theorem oversized_lost {c : Chunk} (sized : RawSized (some c)) (large : ¬ (payload c).length < 2 ^ 32)
    (size : Nat) (cut : size = (payload c).length % 2 ^ 32) :
    ¬ Survives c ∧ ∀ raw : List UInt8, raw.length = size → ¬ RawDescribes (decodeWords raw) c := by
  have nested : cachedBytes c = none := by
    cases cached : cachedBytes c with
    | none => rfl
    | some raw =>
      have bound := sized c rfl raw (cachedBytes_raw cached)
      rw [payload,cached,Option.getD_some] at large
      exact absurd bound large
  have total : (payload c).length = chunkCalcSize c := by
    rw [payload,nested,Option.getD_none,length_encodeWords,length_treeWords]
  rw [total] at large cut
  refine ⟨fun survives => ?_,fun raw length describes => ?_⟩
  · rw [Survives,nested] at survives
    exact large survives.size
  · have bound := describes.size
    rw [length_decodeWords,length] at bound
    omega

structure ManagerSame (m back : ManagerData) : Prop where
  guid : back.guid = m.guid
  chunk : RecordSame m.chunk back.chunk

def ObjectSame (o back : ObjectData) : Prop := RecordSame o.chunk back.chunk

section Records
variable {buffer : List UInt8}

theorem checkBufferSize_ahead {pos needed : Nat} {input rest : List UInt8}
    (ahead : Ahead buffer pos (input ++ rest)) (enough : needed ≤ input.length) :
    (checkBufferSize buffer needed).run pos = (.ok (),pos) := by
  have bound := ahead.bound
  simp only [checkBufferSize,if_pos (show pos ≤ buffer.length ∧ needed ≤ buffer.length - pos by omega)]

theorem parseChunkAt_ahead {pos : Nat} {c : Chunk} {input rest : List UInt8}
    (ahead : Ahead buffer pos (input ++ rest)) :
    (RawDescribes (decodeWords input) c →
      ∃ back, (parseChunkAt buffer input.length).run pos = (.ok back,pos + input.length) ∧ ChunkSame c back) ∧
    (¬ RawDescribes (decodeWords input) c →
      ∀ back next, (parseChunkAt buffer input.length).run pos = (.ok back,next) → ¬ ChunkSame c back) := by
  rw [rawDescribes_iff]
  simp only [parseChunkAt,ahead.slice_eq]
  constructor
  · rintro ⟨back,run,same⟩
    exact ⟨back,by rw [run],same⟩
  · intro never back next ran same
    split at ran
    · rename_i parsed run
      simp only [Prod.mk.injEq,Except.ok.injEq] at ran
      exact never ⟨back,by rw [run,ran.1],same⟩
    · simp at ran

theorem decides_chunkData (chunk : Option Chunk) (sized : RawSized chunk) :
    Decides buffer (parseChunkData buffer) (recordBytes chunk) (RecordSurvives chunk)
      (fun record => RecordSame chunk record.2) := by
  intro pos rest ahead
  rw [recordBytes,List.append_assoc] at ahead
  obtain ⟨next,run,after⟩ := reads_nextU32Le _ pos _ ahead
  obtain rfl : next = pos + 4 := by
    have size := ahead.length_eq
    have left := after.length_eq
    simp only [List.length_append,length_wordBytes] at size left
    omega
  rw [parseChunkData,Action.bind_ok _ (checkBufferSize_ahead ahead (by simp)),Action.bind_ok _ run]
  have value : (UInt32.ofNat (chunkBytes chunk).length).toNat = (chunkBytes chunk).length % 2 ^ 32 :=
    UInt32.toNat_ofNat'
  generalize UInt32.ofNat (chunkBytes chunk).length = dataSize at value ⊢
  cases chunk with
  | none =>
    have zero : ¬ dataSize > 0 := by
      intro positive
      have := UInt32.lt_iff_toNat_lt.mp positive
      rw [value] at this
      exact absurd this (by decide)
    rw [if_neg zero]
    exact .inl ⟨fun c some => by simp at some,(dataSize,none),_,rfl,trivial,after⟩
  | some c =>
    change Ahead buffer (pos + 4) (payload c ++ rest) at after
    change dataSize.toNat = (payload c).length % 2 ^ 32 at value
    have nonempty := length_payload_pos c
    have good : RecordSurvives (some c) ↔ Survives c :=
      ⟨fun all => all c rfl,fun survives _ same => Option.some.inj same ▸ survives⟩
    by_cases small : (payload c).length < 2 ^ 32
    · rw [Nat.mod_eq_of_lt small] at value
      have positive : dataSize > 0 := by
        rw [gt_iff_lt,UInt32.lt_iff_toNat_lt,value]
        exact nonempty
      obtain ⟨found,lost⟩ := parseChunkAt_ahead (c := c) after
      rw [if_pos positive,value,Action.bind_ok _ (checkBufferSize_ahead after (Nat.le_refl _)),good,
        survives_iff small]
      by_cases describes : RawDescribes (decodeWords (payload c)) c
      · obtain ⟨back,ran,same⟩ := found describes
        exact .inl ⟨describes,(dataSize,some back),_,by rw [Action.bind_ok _ ran]; rfl,same,after.skip⟩
      · refine .inr ⟨describes,fun record stop ran same => ?_⟩
        obtain ⟨back,parsed,rfl⟩ := return_success (f := fun chunk => (dataSize,some chunk)) ran
        exact lost describes back stop parsed same
    · obtain ⟨bad,prefixes⟩ := oversized_lost sized small dataSize.toNat value
      refine .inr ⟨fun all => bad (good.mp all),fun record stop ran same => ?_⟩
      split at ran
      · rename_i positive
        obtain ⟨_,between,checked,ran⟩ := Action.bind_success ran
        obtain ⟨back,parsed,rfl⟩ := return_success (f := fun chunk => (dataSize,some chunk)) ran
        have cut : dataSize.toNat ≤ (payload c).length := by
          rw [value]
          exact Nat.mod_le _ _
        have split : payload c ++ rest = (payload c).take dataSize.toNat ++
            ((payload c).drop dataSize.toNat ++ rest) := by
          rw [← List.append_assoc,List.take_append_drop]
        have length : ((payload c).take dataSize.toNat).length = dataSize.toNat := by
          rw [List.length_take]
          omega
        rw [split] at after
        have ahead' := checkBufferSize_ahead after (Nat.le_of_eq length.symm)
        rw [checked,Prod.mk.injEq] at ahead'
        have lost := (parseChunkAt_ahead (c := c) after).2 (prefixes _ length) back stop
        rw [length,← ahead'.2] at lost
        exact lost parsed same
      · simp only [Action.pure_apply,Prod.mk.injEq,Except.ok.injEq] at ran
        rw [← ran.1] at same
        exact same

theorem decides_manager {good : Prop} {wanted : UInt32 × Option Chunk → Prop} (m : ManagerData)
    (record : Decides buffer (parseChunkData buffer) (recordBytes m.chunk) good wanted) :
    Decides buffer (parseManagerData buffer) (managerBytes m) good
      fun back => back.guid = m.guid ∧ wanted (back.dataSize,back.chunk) := by
  intro pos rest ahead
  rw [managerBytes] at ahead
  rw [parseManagerData,Action.bind_ok _ (checkBufferSize_ahead ahead (by simp [recordBytes]; omega))]
  rw [List.append_assoc (wordBytes m.guid.d1)] at ahead
  suffices fields : Decides buffer _ (wordBytes m.guid.d1 ++ (wordBytes m.guid.d2 ++ recordBytes m.chunk)) good
      (fun back : ManagerData => back.guid = m.guid ∧ wanted (back.dataSize,back.chunk)) from fields pos rest ahead
  refine decides_after (reads_nextU32Le m.guid.d1) (decides_after (reads_nextU32Le m.guid.d2) ?_)
  exact decides_return (f := fun record : UInt32 × Option Chunk =>
      ({ guid := ⟨m.guid.d1,m.guid.d2⟩, dataSize := record.1, chunk := record.2, flags := 0 } : ManagerData))
    record fun record => ⟨And.right,fun held => ⟨rfl,held⟩⟩

theorem decides_object {good : Prop} {wanted : UInt32 × Option Chunk → Prop} (fileVersion : UInt32)
    (modern : ¬ fileVersion < 7) (o : ObjectData)
    (record : Decides buffer (parseChunkData buffer) (recordBytes o.chunk) good wanted) :
    Decides buffer (parseObjectData buffer fileVersion) (recordBytes o.chunk) good
      fun back => wanted (back.dataSize,back.chunk) := by
  intro pos rest ahead
  rw [parseObjectData,skipObjectId,if_neg modern,Action.bind_ok _ (Action.pure_apply _ _)]
  exact decides_return (f := fun record : UInt32 × Option Chunk =>
      ({ dataSize := record.1, chunk := record.2 } : ObjectData)) record (fun record => Iff.rfl) pos rest ahead

/-- Without records there is nothing to loop over, so the guard on the count changes nothing. -/
theorem guarded_times {α : Type} {action : Run Nat α} {guard : Prop} [Decidable guard]
    (holds : guard) {size : Nat} (fits : size < 2 ^ 32) :
    (if guard ∧ UInt32.ofNat size > 0 then action.times (UInt32.ofNat size).toNat else pure []) =
      action.times size := by
  have value : (UInt32.ofNat size).toNat = size := by
    rw [UInt32.toNat_ofNat']
    exact Nat.mod_eq_of_lt fits
  by_cases positive : UInt32.ofNat size > 0
  · rw [if_pos ⟨holds,positive⟩,value]
  · have zero : size = 0 := by
      rw [gt_iff_lt,UInt32.lt_iff_toNat_lt,value] at positive
      exact Nat.le_zero.mp (Nat.not_lt.mp positive)
    rw [if_neg fun both => positive both.2,zero]
    rfl

/-- What is decided of every chunk with its size is decided of the records of a section. -/
theorem decides_section (s : DataSection) (fileVersion : UInt32) (modern : 7 ≤ fileVersion)
    {fine : Option Chunk → Prop} (wanted : Option Chunk → UInt32 × Option Chunk → Prop)
    (managers : ∀ m ∈ s.managers,
      Decides buffer (parseChunkData buffer) (recordBytes m.chunk) (fine m.chunk) (wanted m.chunk))
    (objects : ∀ o ∈ s.objects,
      Decides buffer (parseChunkData buffer) (recordBytes o.chunk) (fine o.chunk) (wanted o.chunk)) :
    Decides buffer (parseRecords buffer fileVersion s.managerCount s.objectCount)
      (s.managers.flatMap managerBytes ++ s.objects.flatMap fun o => recordBytes o.chunk)
      ((∀ m ∈ s.managers, fine m.chunk) ∧ ∀ o ∈ s.objects, fine o.chunk)
      (fun records =>
        List.Forall₂ (fun m back => back.guid = m.guid ∧ wanted m.chunk (back.dataSize,back.chunk))
          s.managers records.1 ∧
        List.Forall₂ (fun o back => wanted o.chunk (back.dataSize,back.chunk)) s.objects records.2) := by
  have six : fileVersion ≥ 6 := UInt32.le_trans (by decide) modern
  have four : fileVersion ≥ 4 := UInt32.le_trans (by decide) modern
  have current : ¬ fileVersion < 7 := UInt32.not_lt.mpr modern
  rw [parseRecords,DataSection.managerCount,DataSection.objectCount,count32,count32,
    guarded_times six s.managersFit,guarded_times four s.objectsFit]
  refine decides_bind (decides_times s.managers managerBytes (fun m => fine m.chunk)
    (fun m back => back.guid = m.guid ∧ wanted m.chunk (back.dataSize,back.chunk))
    fun m member => decides_manager m (managers m member)) ?_ ?_
  · intro first same
    exact decides_return (f := fun rest => (first,rest))
      (decides_times s.objects (fun o => recordBytes o.chunk) (fun o => fine o.chunk)
        (fun o back => wanted o.chunk (back.dataSize,back.chunk))
        fun o member => decides_object fileVersion current o (objects o member))
      fun rest => ⟨And.right,fun held => ⟨same,held⟩⟩
  · intro first lost pos records stop ran same
    obtain ⟨rest,_,rfl⟩ := return_success (f := fun rest => (first,rest)) ran
    exact lost same.1

theorem decides_records (s : DataSection) (fileVersion : UInt32) (modern : 7 ≤ fileVersion)
    (sized : s.RawSized) :
    Decides buffer (parseRecords buffer fileVersion s.managerCount s.objectCount)
      (s.managers.flatMap managerBytes ++ s.objects.flatMap fun o => recordBytes o.chunk)
      ((∀ m ∈ s.managers, RecordSurvives m.chunk) ∧ ∀ o ∈ s.objects, RecordSurvives o.chunk)
      (fun records => List.Forall₂ ManagerSame s.managers records.1 ∧
        List.Forall₂ ObjectSame s.objects records.2) := by
  have same (m : ManagerData) (back : ManagerData) :
      back.guid = m.guid ∧ RecordSame m.chunk back.chunk ↔ ManagerSame m back :=
    ⟨fun both => ⟨both.1,both.2⟩,fun same => ⟨same.guid,same.chunk⟩⟩
  refine (decides_section s fileVersion modern (fun chunk record => RecordSame chunk record.2)
    (fun m member => decides_chunkData m.chunk (sized.1 m member))
    fun o member => decides_chunkData o.chunk (sized.2 o member)).congr fun records => ?_
  simp only [same]
  rfl

end Records

def DataSection.chunks (s : DataSection) : List Chunk :=
  s.managers.filterMap ManagerData.chunk ++ s.objects.filterMap ObjectData.chunk

def plainSection : DataSection where
  managers := [{ guid := ⟨1,2⟩ }]
  objects := [{ chunk := some { chunkVersion := chunkVersion4, data := some [5] } }]

def plainBytes : List UInt8 :=
  [1,0,0,0, 2,0,0,0, 0,0,0,0, 12,0,0,0, 0,0,7,0, 1,0,0,0, 5,0,0,0]

/-- An object's chunk as the writer builds it: its class is in both class fields. -/
def classedChunk : Chunk where
  classId := 0x21
  chunkVersion := chunkVersion4
  chunkClassId := 0x21
  data := some [5]

def classedSection : DataSection where
  objects := [{ chunk := some classedChunk }]

end Libnmo.Format

/-! What a parse of a section gives for the chunk of each record, whether or not the
chunk survives the change of codec. -/
namespace Libnmo.Format
open Core Lib Lib.LittleEndian Lib.Cursor

/-- The chunk that is parsed from the bytes of a record. -/
def parsedBack (c : Chunk) : Chunk := ((chunkParse (payload c)).run chunkCreate).2

section
variable {buffer : List UInt8} {α : Type}

theorem follows_checked {action : Run Nat α} {input : List UInt8} {wanted : α → Prop} {needed : Nat}
    (enough : needed ≤ input.length) (follows : Follows buffer action input wanted) :
    Follows buffer (checkBufferSize buffer needed >>= fun _ => action) input wanted := by
  intro pos rest value next ahead run
  rw [Action.bind_ok _ (checkBufferSize_ahead ahead enough)] at run
  exact follows pos rest value next ahead run

theorem follows_chunkAt (c : Chunk) :
    Follows buffer (parseChunkAt buffer (payload c).length) (payload c) (· = parsedBack c) := by
  intro pos rest value next ahead run
  simp only [parseChunkAt,ahead.slice_eq] at run
  split at run
  · rename_i parsed ok
    simp only [Prod.mk.injEq,Except.ok.injEq] at run
    rw [← run.1,← run.2,parsedBack,ok]
    exact ⟨rfl,ahead.skip⟩
  · simp at run

theorem follows_chunkData (chunk : Option Chunk) (small : (chunkBytes chunk).length < 2 ^ 32) :
    Follows buffer (parseChunkData buffer) (recordBytes chunk) fun record => record.2 = chunk.map parsedBack := by
  have value : (UInt32.ofNat (chunkBytes chunk).length).toNat = (chunkBytes chunk).length := by
    rw [UInt32.toNat_ofNat']
    exact Nat.mod_eq_of_lt small
  refine follows_checked (by simp [recordBytes]) (follows_bind (reads_nextU32Le _).follows fun dataSize same => ?_)
  rw [← same] at value
  cases chunk with
  | none =>
    have zero : ¬ dataSize > 0 := by
      rw [gt_iff_lt,UInt32.lt_iff_toNat_lt,value]
      exact Nat.lt_irrefl 0
    rw [if_neg zero]
    exact follows_pure _ rfl
  | some c =>
    change dataSize.toNat = (payload c).length at value
    have positive : dataSize > 0 := by
      rw [gt_iff_lt,UInt32.lt_iff_toNat_lt,value]
      exact length_payload_pos c
    rw [if_pos positive,value]
    refine follows_checked (Nat.le_refl _) (follows_return (f := fun chunk => (dataSize,some chunk)) ?_)
    intro pos rest back next ahead run
    obtain ⟨same,left⟩ := follows_chunkAt c pos rest back next ahead run
    exact ⟨by rw [same]; rfl,left⟩

theorem follows_manager (m : ManagerData) (small : (chunkBytes m.chunk).length < 2 ^ 32) :
    Follows buffer (parseManagerData buffer) (managerBytes m) fun _ => True := by
  rw [managerBytes,List.append_assoc]
  refine follows_checked (by simp; omega) (follows_bind (reads_nextU32Le _).follows fun _ _ =>
    follows_bind (reads_nextU32Le _).follows fun _ _ => follows_return ?_)
  intro pos rest record next ahead run
  exact ⟨trivial,(follows_chunkData m.chunk small pos rest record next ahead run).2⟩

theorem follows_object {fileVersion : UInt32} (modern : ¬ fileVersion < 7) (o : ObjectData)
    (small : (chunkBytes o.chunk).length < 2 ^ 32) :
    Follows buffer (parseObjectData buffer fileVersion) (recordBytes o.chunk)
      fun back => back.chunk = o.chunk.map parsedBack := by
  intro pos rest back next ahead run
  rw [parseObjectData,skipObjectId,if_neg modern,Action.bind_ok _ (Action.pure_apply _ _)] at run
  have record : Follows buffer (do
        let record ← parseChunkData buffer
        pure ({ dataSize := record.1, chunk := record.2 } : ObjectData))
      (recordBytes o.chunk) fun back => back.chunk = o.chunk.map parsedBack :=
    follows_return (follows_chunkData o.chunk small)
  exact record pos rest back next ahead run

theorem DataSection.small_manager {s : DataSection} (small : ∀ c ∈ s.chunks, (payload c).length < 2 ^ 32)
    {m : ManagerData} (member : m ∈ s.managers) : (chunkBytes m.chunk).length < 2 ^ 32 := by
  cases chunk : m.chunk with
  | none => decide
  | some c => exact small c (List.mem_append_left _ (List.mem_filterMap.mpr ⟨m,member,chunk⟩))

theorem DataSection.small_object {s : DataSection} (small : ∀ c ∈ s.chunks, (payload c).length < 2 ^ 32)
    {o : ObjectData} (member : o ∈ s.objects) : (chunkBytes o.chunk).length < 2 ^ 32 := by
  cases chunk : o.chunk with
  | none => decide
  | some c => exact small c (List.mem_append_right _ (List.mem_filterMap.mpr ⟨o,member,chunk⟩))

theorem follows_section (s : DataSection) (fileVersion : UInt32) (modern : 7 ≤ fileVersion)
    (small : ∀ c ∈ s.chunks, (payload c).length < 2 ^ 32) :
    Follows buffer (parseRecords buffer fileVersion s.managerCount s.objectCount)
      (s.managers.flatMap managerBytes ++ s.objects.flatMap fun o => recordBytes o.chunk)
      fun records => List.Forall₂ (fun o back => back.chunk = o.chunk.map parsedBack) s.objects records.2 := by
  have six : fileVersion ≥ 6 := UInt32.le_trans (by decide) modern
  have four : fileVersion ≥ 4 := UInt32.le_trans (by decide) modern
  have current : ¬ fileVersion < 7 := UInt32.not_lt.mpr modern
  rw [parseRecords,DataSection.managerCount,DataSection.objectCount,count32,count32,
    guarded_times six s.managersFit,guarded_times four s.objectsFit]
  refine follows_bind (follows_times s.managers managerBytes (fun _ _ => True)
    fun m member => follows_manager m (DataSection.small_manager small member)) fun managers _ => ?_
  exact follows_return (f := fun objects => (managers,objects)) (follows_times s.objects _ _
    fun o member => follows_object current o (DataSection.small_object small member))

end

/-- A section that parses gives each object record the chunk that is parsed from its bytes. -/
theorem dataSectionParse_parsedBack {s : DataSection} {fileVersion : UInt32} (modern : 7 ≤ fileVersion)
    (small : ∀ c ∈ s.chunks, (payload c).length < 2 ^ 32) {records : List ManagerData × List ObjectData}
    (ok : dataSectionParse (s.managers.flatMap managerBytes ++ s.objects.flatMap fun o => recordBytes o.chunk)
      fileVersion s.managerCount s.objectCount = .ok records) :
    List.Forall₂ (fun o back => back.chunk = o.chunk.map parsedBack) s.objects records.2 := by
  generalize same : (s.managers.flatMap managerBytes ++ s.objects.flatMap fun o => recordBytes o.chunk) = buffer at ok
  rw [dataSectionParse] at ok
  generalize run : (parseRecords buffer fileVersion s.managerCount s.objectCount).run 0 = out at ok
  obtain ⟨outcome,stop⟩ := out
  obtain rfl : outcome = .ok records := ok
  refine (follows_section s fileVersion modern small 0 [] records stop ?_ run).1
  rw [List.append_nil,same]
  exact ahead_start buffer

/-- A chunk that survives is parsed back as it was, under the version byte of its bytes. -/
theorem parsedBack_same {c : Chunk} (small : (payload c).length < 2 ^ 32) (survives : Survives c) :
    ChunkSame c (parsedBack c) ∧
      (parsedBack c).chunkVersion = (versionByte (decodeWords (payload c))).toUInt32 := by
  have describes := (survives_iff small).mp survives
  obtain ⟨back,run,same⟩ := (rawDescribes_iff (payload c)).mp describes
  have whole := chunkParse_fits (payload c) chunkCreate describes.fits
  refine ⟨by rw [parsedBack,run]; exact same,?_⟩
  rw [parsedBack,whole]
  dsimp only [filled]
  rw [headed]
  split
  · rfl
  · split <;> rfl

end Libnmo.Format
