import Libnmo.Format.ChunkPacking
import Libnmo.Format.DataSectionRoundTrip
import Mathlib.Data.List.Forall2

/-! Chunks that are edited after they were parsed, and then saved. No function of
the chunk API touches the raw bytes that the parse remembered, and a data section
copies those bytes, so what is saved is what was loaded. -/
namespace Libnmo.Format
open Core Lib Lib.LittleEndian Lib.Cursor

/-- The calls of the chunk API that change a chunk or its position. -/
inductive ChunkEdit
  | startRead | startWrite | close | clear | setDataVersion (version : UInt32)
  | goto (pos : Nat) | skip (dwords : Nat) | checkSize (neededDwords : Nat)
  | writeByte (value : UInt8) | writeWord (value : UInt16) | writeInt (value : Int32)
  | writeDword (value : UInt32) | writeFloat (bits : UInt32) | writeGuid (value : Guid)
  | writeString (str : Option (List UInt8)) | writeBuffer (data : Option (List UInt8)) (size : Nat)
  | writeBufferNoSize (data : List UInt8) (size : Nat)
  | writeObjectId (id : UInt32) | writeObjectSequenceStart (count : Nat) | writeObjectSequenceItem (id : UInt32)
  | startManagerSequence (managerGuid : Guid) (count : Nat) | writeManagerInt (managerGuid : Guid) (value : UInt32)
  | writeIdentifier (id : UInt32) | seekIdentifier (id : UInt32)
  | writeIntArray (array : Option (List Int32)) (count : Nat)
  | writeFloatArray (array : Option (List UInt32)) (count : Nat)
  | writeDwordArray (array : Option (List UInt32)) (count : Nat)
  | writeByteArray (array : Option (List UInt8)) (count : Nat)
  | writeStringArray (strings : Option (List (Option (List UInt8)))) (count : Nat)
  | writeObjectIdArray (ids : Option (List UInt32)) (count : Nat)
  | writeArray (array : List UInt8) (count elemSize : Nat) | writeFloats (floats : List UInt32)
  | writeSubChunk (sub : Chunk) | startSubChunkSequence (count : Nat) | addSubChunk (sub : Chunk)
  | compress (level : Int) | compressIfBeneficial (level : Int) (minRatio : MinRatio) | decompress
  | remapObjectIds (remap : IdRemap)

def ChunkEdit.perform (miniz : Miniz) (around : Surroundings) : ChunkEdit → Run Chunk Unit
  | startRead => chunkStartRead
  | startWrite => chunkStartWrite around
  | close => chunkClose
  | clear => chunkClear
  | setDataVersion version => chunkSetDataVersion version
  | goto pos => chunkGoto pos
  | skip dwords => chunkSkip dwords
  | checkSize neededDwords => chunkCheckSize around neededDwords
  | writeByte value => chunkWriteByte around value
  | writeWord value => chunkWriteWord around value
  | writeInt value => chunkWriteInt around value
  | writeDword value => chunkWriteDword around value
  | writeFloat bits => chunkWriteFloat around bits
  | writeGuid value => chunkWriteGuid around value
  | writeString str => chunkWriteString around str
  | writeBuffer data size => chunkWriteBuffer around data size
  | writeBufferNoSize data size => chunkWriteBufferNoSize around data size
  | writeObjectId id => chunkWriteObjectId around id
  | writeObjectSequenceStart count => chunkWriteObjectSequenceStart around count
  | writeObjectSequenceItem id => chunkWriteObjectSequenceItem around id
  | startManagerSequence managerGuid count => chunkStartManagerSequence around managerGuid count
  | writeManagerInt managerGuid value => chunkWriteManagerInt around managerGuid value
  | writeIdentifier id => chunkWriteIdentifier around id
  | seekIdentifier id => chunkSeekIdentifier id
  | writeIntArray array count => chunkWriteIntArray around array count
  | writeFloatArray array count => chunkWriteFloatArray around array count
  | writeDwordArray array count => chunkWriteDwordArray around array count
  | writeByteArray array count => chunkWriteByteArray around array count
  | writeStringArray strings count => chunkWriteStringArray around strings count
  | writeObjectIdArray ids count => chunkWriteObjectIdArray around ids count
  | writeArray array count elemSize => chunkWriteArray around array count elemSize
  | writeFloats floats => Format.writeFloats around floats
  | writeSubChunk sub => chunkWriteSubChunk around sub
  | startSubChunkSequence count => chunkStartSubChunkSequence around count
  | addSubChunk sub => chunkAddSubChunk sub
  | compress level => chunkCompress miniz level
  | compressIfBeneficial level minRatio => chunkCompressIfBeneficial miniz level minRatio
  | decompress => chunkDecompress miniz
  | remapObjectIds remap => chunkRemapObjectIds remap

/-- The chunk after a sequence of calls, whatever each of them returned. -/
def edited (miniz : Miniz) (edits : List (Surroundings × ChunkEdit)) (c : Chunk) : Chunk :=
  edits.foldl (fun c edit => ((edit.2.perform miniz edit.1).run c).2) c

/-- What the parts of a write that notes no object ID keep. -/
structure KeptByWrites (inv : Chunk → Prop) : Prop where
  checkSize : ∀ around neededDwords, Action.Keeps inv (chunkCheckSize around neededDwords)
  storeWords : ∀ words, Action.Keeps inv (storeWords words)
  update : ∀ f : Chunk → Chunk, (∀ c, (f c).words = c.words ∧ (f c).ids = c.ids ∧ (f c).rawData = c.rawData ∧
    (f c).parserState.map ParserState.currentPos = c.parserState.map ParserState.currentPos) →
      Action.Keeps inv (Action.update f : Run Chunk Unit)

/-- The writes that note no object ID, and what changes other fields. -/
def ChunkEdit.Plain : ChunkEdit → Prop
  | startRead | startWrite | close | clear | goto _ | skip _ | seekIdentifier _ => False
  | writeObjectId _ | writeObjectSequenceItem _ | writeObjectIdArray _ _ => False
  | compress _ | compressIfBeneficial _ _ | decompress | remapObjectIds _ => False
  | _ => True

namespace KeptByWrites
variable {inv : Chunk → Prop} (kept : KeptByWrites inv) {α : Type} {around : Surroundings} {miniz : Miniz}
include kept

theorem storeBytes (source : List UInt8) (size : Nat) : Action.Keeps inv (storeBytes source size) := by
  intro c held
  rw [Format.storeBytes]
  dsimp only
  split
  · exact held
  · split
    · exact held
    · exact kept.storeWords _ c held

theorem writeWords (words : List UInt32) : Action.Keeps inv (writeWords around words) :=
  Action.keeps_bind (kept.checkSize around _) fun _ => kept.storeWords words

theorem writeString (str : Option (List UInt8)) : Action.Keeps inv (chunkWriteString around str) :=
  Action.keeps_bind (kept.checkSize around _) fun _ => Action.keeps_bind (kept.storeWords _) fun _ => kept.storeBytes _ _

theorem writeBuffer (data : Option (List UInt8)) (size : Nat) : Action.Keeps inv (chunkWriteBuffer around data size) := by
  refine Action.keeps_bind (kept.checkSize around _) fun _ => Action.keeps_bind (kept.storeWords _) fun _ => ?_
  cases data with
  | none => exact Action.keeps_pure ()
  | some source => exact kept.storeBytes source size

theorem writeBufferNoSize (data : List UInt8) (size : Nat) :
    Action.Keeps inv (chunkWriteBufferNoSize around data size) := by
  unfold chunkWriteBufferNoSize
  split
  · exact Action.keeps_pure ()
  · exact Action.keeps_bind (kept.checkSize around _) fun _ => kept.storeBytes _ _

theorem setOption (option : UInt32) : Action.Keeps inv (setOption option) :=
  kept.update _ fun _ => ⟨rfl,rfl,rfl,rfl⟩

omit kept in
theorem writeEach {write : α → Run Chunk Unit} (each : ∀ a, Action.Keeps inv (write a)) (values : List α) :
    Action.Keeps inv (writeEach write values) := by
  induction values with
  | nil => exact Action.keeps_pure ()
  | cons value rest ih => exact Action.keeps_bind (each value) fun _ => ih

theorem writeCounted {write : α → Run Chunk Unit} (each : ∀ a, Action.Keeps inv (write a)) (array : Option (List α))
    (count : Nat) : Action.Keeps inv (writeCounted around write array count) := by
  cases array with
  | none =>
    unfold Format.writeCounted
    dsimp only
    split
    · exact Action.keeps_stop _
    · exact kept.writeWords _
  | some values =>
    refine Action.keeps_bind (kept.writeWords _) fun _ => Action.keeps_bind (writeEach each _) fun _ => ?_
    split
    · exact Action.keeps_stop _
    · exact Action.keeps_pure ()

theorem writeArray (array : List UInt8) (count elemSize : Nat) :
    Action.Keeps inv (chunkWriteArray around array count elemSize) :=
  Action.keeps_bind (kept.writeWords _) fun _ =>
    Action.keeps_bind (kept.writeWords _) fun _ => kept.writeBufferNoSize _ _

theorem appendSubChunk (sub : Chunk) : Action.Keeps inv (appendSubChunk sub) :=
  kept.update _ fun _ => ⟨rfl,rfl,rfl,rfl⟩

theorem writeSubChunkWords (sub : Chunk) : Action.Keeps inv (writeSubChunkWords around sub) := by
  unfold Format.writeSubChunkWords
  repeat first
    | exact kept.writeBufferNoSize _ _
    | refine Action.keeps_bind (kept.writeWords _) fun _ => ?_
    | refine Action.keeps_bind (kept.writeBufferNoSize _ _) fun _ => ?_

theorem writeSubChunk (sub : Chunk) : Action.Keeps inv (chunkWriteSubChunk around sub) := by
  refine Action.keeps_bind (kept.appendSubChunk sub) fun _ => Action.keeps_bind (Action.keeps_read _) fun state => ?_
  cases state with
  | none => exact Action.keeps_stop _
  | some state =>
    exact Action.keeps_bind (kept.writeSubChunkWords sub) fun _ => kept.update _ fun _ => ⟨rfl,rfl,rfl,rfl⟩

theorem writeIdentifier (id : UInt32) : Action.Keeps inv (chunkWriteIdentifier around id) := by
  refine Action.keeps_bind (kept.writeWords _) fun _ => kept.update _ fun c => ⟨rfl,rfl,rfl,?_⟩
  cases c.parserState <;> rfl

theorem perform (edit : ChunkEdit) (plain : edit.Plain) : Action.Keeps inv (edit.perform miniz around) := by
  cases edit with
  | setDataVersion => exact kept.update _ fun _ => ⟨rfl,rfl,rfl,rfl⟩
  | checkSize neededDwords => exact kept.checkSize around neededDwords
  | writeByte | writeWord | writeInt | writeDword | writeFloat | writeGuid => exact kept.writeWords _
  | writeString str => exact kept.writeString str
  | writeBuffer data size => exact kept.writeBuffer data size
  | writeBufferNoSize data size => exact kept.writeBufferNoSize data size
  | writeObjectSequenceStart count => exact Action.keeps_bind (kept.setOption _) fun _ => kept.writeWords _
  | startManagerSequence managerGuid count =>
    exact Action.keeps_bind (kept.setOption _) fun _ =>
      Action.keeps_bind (kept.writeWords _) fun _ => kept.writeWords _
  | writeManagerInt managerGuid value =>
    exact Action.keeps_bind (kept.checkSize around _) fun _ =>
      Action.keeps_bind (kept.update _ fun _ => ⟨rfl,rfl,rfl,rfl⟩) fun _ => kept.storeWords _
  | writeIdentifier id => exact kept.writeIdentifier id
  | writeIntArray | writeFloatArray | writeDwordArray | writeByteArray =>
    exact kept.writeCounted (fun _ => kept.writeWords _) _ _
  | writeStringArray strings count => exact kept.writeCounted kept.writeString strings count
  | writeArray array count elemSize => exact kept.writeArray array count elemSize
  | writeFloats floats => exact writeEach (fun _ => kept.writeWords _) floats
  | writeSubChunk sub => exact kept.writeSubChunk sub
  | startSubChunkSequence count => exact Action.keeps_bind (kept.setOption _) fun _ => kept.writeWords _
  | addSubChunk sub => exact kept.appendSubChunk sub
  | _ => exact plain.elim

end KeptByWrites

def KeepsRaw {α : Type} (action : Run Chunk α) : Prop :=
  ∀ raw, Action.Keeps (fun c => c.rawData = raw) action

section Keeping
variable {α β : Type} {around : Surroundings} {miniz : Miniz}

theorem keepsRaw_pure (a : α) : KeepsRaw (pure a : Run Chunk α) := fun _ => Action.keeps_pure a

theorem keepsRaw_bind {first : Run Chunk α} {next : α → Run Chunk β} (head : KeepsRaw first)
    (tail : ∀ a, KeepsRaw (next a)) : KeepsRaw (first >>= next) :=
  fun raw => Action.keeps_bind (head raw) fun a => tail a raw

theorem keepsRaw_update (f : Chunk → Chunk) (same : ∀ c, (f c).rawData = c.rawData) :
    KeepsRaw (Action.update f : Run Chunk Unit) :=
  fun _ c holds => (same c).trans holds

theorem keepsRaw_read (f : Chunk → α) : KeepsRaw (Action.read f : Run Chunk α) := fun _ => Action.keeps_read f

theorem keepsRaw_lift (outcome : Result α) : KeepsRaw (Action.lift outcome : Run Chunk α) :=
  fun _ => Action.keeps_lift outcome

theorem keepsRaw_stop (stop : Stop) : KeepsRaw (Action.stop stop : Run Chunk α) := fun _ => Action.keeps_stop stop

theorem keepsRaw_of (action : Run Chunk α) (same : ∀ c, (action.run c).2.rawData = c.rawData) : KeepsRaw action :=
  fun _ c holds => (same c).trans holds

theorem keepsRaw_ensureParserState : KeepsRaw ensureParserState := keepsRaw_update _ fun _ => rfl

theorem keepsRaw_startWrite : KeepsRaw (chunkStartWrite around) := by
  refine keepsRaw_bind keepsRaw_ensureParserState fun _ => keepsRaw_bind (keepsRaw_update _ fun _ => rfl) fun _ => ?_
  refine keepsRaw_update _ fun c => ?_
  split <;> rfl

theorem keepsRaw_updateDataSize : KeepsRaw chunkUpdateDataSize := by
  refine keepsRaw_bind keepsRaw_ensureParserState fun _ => keepsRaw_of _ fun c => ?_
  dsimp only
  split
  · split
    · rfl
    · split <;> rfl
  · rfl

theorem keepsRaw_goto (pos : Nat) : KeepsRaw (chunkGoto pos) := by
  refine keepsRaw_of _ fun c => ?_
  simp only [chunkGoto]
  split
  · rfl
  · split <;> rfl

theorem keepsRaw_skip (dwords : Nat) : KeepsRaw (chunkSkip dwords) := by
  refine keepsRaw_of _ fun c => ?_
  simp only [chunkSkip]
  split
  · rfl
  · split <;> rfl

theorem keepsRaw_seekIdentifier (id : UInt32) : KeepsRaw (chunkSeekIdentifier id) := by
  refine keepsRaw_of _ fun c => ?_
  simp only [chunkSeekIdentifier]
  split
  · rfl
  · split <;> rfl

theorem keepsRaw_checkSize (neededDwords : Nat) : KeepsRaw (chunkCheckSize around neededDwords) := by
  refine keepsRaw_of _ fun c => ?_
  simp only [chunkCheckSize]
  split
  · rfl
  · split
    · rfl
    · split
      · rfl
      · split
        · rfl
        · split <;> rfl

theorem keepsRaw_storeWords (words : List UInt32) : KeepsRaw (storeWords words) := by
  refine keepsRaw_of _ fun c => ?_
  simp only [storeWords]
  split
  · rfl
  · split <;> rfl

theorem rawKept (raw : Option (List UInt8)) : KeptByWrites fun c => c.rawData = raw where
  checkSize _ neededDwords := keepsRaw_checkSize neededDwords raw
  storeWords words := keepsRaw_storeWords words raw
  update f same := keepsRaw_update f (fun c => (same c).2.2.1) raw

theorem keepsRaw_writeObjectId (id : UInt32) : KeepsRaw (chunkWriteObjectId around id) := by
  refine keepsRaw_bind (keepsRaw_checkSize _) fun _ => keepsRaw_bind ?_ fun _ => keepsRaw_storeWords _
  split
  · exact keepsRaw_update _ fun _ => rfl
  · exact keepsRaw_pure ()

theorem keepsRaw_commit (compressed : List UInt8) : KeepsRaw (chunkCommitCompressedPayload compressed) :=
  keepsRaw_update _ fun _ => rfl

theorem keepsRaw_compress (level : Int) : KeepsRaw (chunkCompress miniz level) := by
  refine keepsRaw_bind (keepsRaw_read _) fun c => ?_
  split
  · exact keepsRaw_pure ()
  · split
    · exact keepsRaw_pure ()
    · refine keepsRaw_bind (keepsRaw_lift _) fun compressed => ?_
      split
      · exact keepsRaw_pure ()
      · exact keepsRaw_commit compressed

theorem keepsRaw_compressIfBeneficial (level : Int) (minRatio : MinRatio) :
    KeepsRaw (chunkCompressIfBeneficial miniz level minRatio) := by
  refine keepsRaw_bind (keepsRaw_read _) fun c => ?_
  split
  · exact keepsRaw_stop _
  · split
    · exact keepsRaw_pure ()
    · split
      · exact keepsRaw_pure ()
      · refine keepsRaw_bind (keepsRaw_lift _) fun compressed => ?_
        split
        · exact keepsRaw_pure ()
        · split
          · exact keepsRaw_commit compressed
          · exact keepsRaw_pure ()

theorem keepsRaw_decompress : KeepsRaw (chunkDecompress miniz) := by
  refine keepsRaw_of _ fun c => ?_
  simp only [chunkDecompress]
  split
  · rfl
  · split
    · rfl
    · split
      · rfl
      · split <;> rfl

theorem keepsRaw_remapObjectIds (remap : IdRemap) : KeepsRaw (chunkRemapObjectIds remap) := by
  refine keepsRaw_of _ fun c => ?_
  cases c
  simp only [chunkRemapObjectIds,remapObjectIdsRecursive]
  split
  · rfl
  · split <;> rfl

/-- No call of the chunk API invalidates the raw bytes. -/
theorem keepsRaw_perform (edit : ChunkEdit) : KeepsRaw (edit.perform miniz around) := by
  cases edit with
  | startRead | clear => exact keepsRaw_update _ fun _ => rfl
  | startWrite => exact keepsRaw_startWrite
  | close => exact keepsRaw_updateDataSize
  | goto pos => exact keepsRaw_goto pos
  | skip dwords => exact keepsRaw_skip dwords
  | writeObjectId id | writeObjectSequenceItem id => exact keepsRaw_writeObjectId id
  | seekIdentifier id => exact keepsRaw_seekIdentifier id
  | writeObjectIdArray ids count =>
    exact fun raw => (rawKept raw).writeCounted (fun id => keepsRaw_writeObjectId id raw) ids count
  | compress level => exact keepsRaw_compress level
  | compressIfBeneficial level minRatio => exact keepsRaw_compressIfBeneficial level minRatio
  | decompress => exact keepsRaw_decompress
  | remapObjectIds remap => exact keepsRaw_remapObjectIds remap
  | _ => exact fun raw => (rawKept raw).perform _ trivial

theorem rawData_edited (edits : List (Surroundings × ChunkEdit)) (c : Chunk) :
    (edited miniz edits c).rawData = c.rawData := by
  induction edits generalizing c with
  | nil => rfl
  | cons edit edits ih => exact (ih _).trans (keepsRaw_perform edit.2 c.rawData c rfl)

end Keeping

/-- A chunk of a loaded file and the calls made on it since. The size field of its record has 32 bits. -/
structure EditedChunk where
  raw : List UInt8
  loaded : Chunk
  parsed : (chunkParse raw).run chunkCreate = (.ok (),loaded)
  sized : raw.length < 2 ^ 32
  edits : List (Surroundings × ChunkEdit)

namespace EditedChunk
variable (miniz : Miniz)

def current (e : EditedChunk) : Chunk := edited miniz e.edits e.loaded

theorem raw_pos (e : EditedChunk) : 0 < e.raw.length := by
  have fits : Fits (decodeWords e.raw) := (chunkParse_ok_iff e.raw chunkCreate).mp (by rw [e.parsed])
  have header := extent_counts (decodeWords e.raw)
  have inside := fits.2
  have words := length_decodeWords e.raw
  omega

theorem rawData_loaded (e : EditedChunk) : e.loaded.rawData = some e.raw := by
  have fits : Fits (decodeWords e.raw) := (chunkParse_ok_iff e.raw chunkCreate).mp (by rw [e.parsed])
  have parsed := chunkParse_fits e.raw chunkCreate fits
  rw [e.parsed,Prod.mk.injEq] at parsed
  rw [parsed.2]
  simp only [filled,headed]
  split
  · rfl
  · split <;> rfl

theorem payload_current (e : EditedChunk) : payload (e.current miniz) = e.raw := by
  have raw : (e.current miniz).rawData = some e.raw := (rawData_edited e.edits e.loaded).trans e.rawData_loaded
  simp [payload,cachedBytes,raw,e.raw_pos]

/-- The record that was saved holds the data and ids that the chunk had by then. -/
def SavedAs (e : EditedChunk) (back : Option Chunk) : Prop :=
  ∃ c, back = some c ∧ c.words = (e.current miniz).words ∧ c.ids = (e.current miniz).ids

/-- The edits left data and ids as they were loaded. -/
def Unchanged (e : EditedChunk) : Prop :=
  (e.current miniz).words = e.loaded.words ∧ (e.current miniz).ids = e.loaded.ids

theorem savedAs_loaded_iff (e : EditedChunk) : e.SavedAs miniz (some e.loaded) ↔ e.Unchanged miniz := by
  constructor
  · rintro ⟨c,same,words,ids⟩
    obtain rfl := Option.some.inj same
    exact ⟨words.symm,ids.symm⟩
  · rintro ⟨words,ids⟩
    exact ⟨e.loaded,rfl,words.symm,ids.symm⟩

end EditedChunk

structure EditedSection where
  managers : List (Guid × EditedChunk) := []
  objects : List EditedChunk := []
  managersFit : managers.length < 2 ^ 32 := by decide
  objectsFit : objects.length < 2 ^ 32 := by decide

namespace EditedSection
variable (miniz : Miniz)

/-- The section that is saved: every record with its chunk as edited. -/
def current (s : EditedSection) : DataSection where
  managers := s.managers.map fun m => { guid := m.1, chunk := some (m.2.current miniz) }
  objects := s.objects.map fun e => { chunk := some (e.current miniz) }
  managersFit := by rw [List.length_map]; exact s.managersFit
  objectsFit := by rw [List.length_map]; exact s.objectsFit

end EditedSection

section Reparsing
variable {buffer : List UInt8} (miniz : Miniz)

/-- What a record that was saved from the raw bytes reads as: the chunk as it was loaded. -/
def loadedRecord (e : EditedChunk) : UInt32 × Option Chunk := (UInt32.ofNat e.raw.length,some e.loaded)

theorem reads_editedChunk (e : EditedChunk) :
    Reads buffer (parseChunkData buffer) (recordBytes (some (e.current miniz))) (loadedRecord e) := by
  have bytes : chunkBytes (some (e.current miniz)) = e.raw := e.payload_current miniz
  intro pos rest ahead
  rw [recordBytes,bytes,List.append_assoc] at ahead
  obtain ⟨next,run,after⟩ := reads_nextU32Le _ pos _ ahead
  have value : (UInt32.ofNat e.raw.length).toNat = e.raw.length := by
    rw [UInt32.toNat_ofNat']
    exact Nat.mod_eq_of_lt e.sized
  have positive : UInt32.ofNat e.raw.length > 0 := by
    rw [gt_iff_lt,UInt32.lt_iff_toNat_lt,value]
    exact e.raw_pos
  have parse : (parseChunkAt buffer e.raw.length).run next = (.ok e.loaded,next + e.raw.length) := by
    simp only [parseChunkAt,after.slice_eq,e.parsed]
  refine ⟨next + e.raw.length,?_,after.skip⟩
  rw [parseChunkData,Action.bind_ok _ (checkBufferSize_ahead ahead (by simp)),Action.bind_ok _ run,if_pos positive,
    value,Action.bind_ok _ (checkBufferSize_ahead after (Nat.le_refl _)),Action.bind_ok _ parse]
  rfl

theorem reads_editedManager (guid : Guid) (e : EditedChunk) :
    Reads buffer (parseManagerData buffer) (managerBytes { guid := guid, chunk := some (e.current miniz) })
      { guid := guid, dataSize := (loadedRecord e).1, chunk := (loadedRecord e).2, flags := 0 } := by
  intro pos rest ahead
  rw [managerBytes] at ahead
  rw [parseManagerData,Action.bind_ok _ (checkBufferSize_ahead ahead (by simp [recordBytes]; omega))]
  rw [List.append_assoc (wordBytes guid.d1)] at ahead
  suffices fields : Reads buffer _ (wordBytes guid.d1 ++ (wordBytes guid.d2 ++ recordBytes (some (e.current miniz))))
      _ from fields pos rest ahead
  refine reads_bind (reads_nextU32Le guid.d1) (reads_bind (reads_nextU32Le guid.d2) ?_)
  exact reads_return (f := fun record : UInt32 × Option Chunk =>
    ({ guid := ⟨guid.d1,guid.d2⟩, dataSize := record.1, chunk := record.2, flags := 0 } : ManagerData))
    (reads_editedChunk miniz e)

theorem reads_editedObject (fileVersion : UInt32) (modern : ¬ fileVersion < 7) (e : EditedChunk) :
    Reads buffer (parseObjectData buffer fileVersion) (recordBytes (some (e.current miniz)))
      { dataSize := (loadedRecord e).1, chunk := (loadedRecord e).2 } := by
  intro pos rest ahead
  rw [parseObjectData,skipObjectId,if_neg modern,Action.bind_ok _ (Action.pure_apply _ _)]
  exact reads_return (f := fun record : UInt32 × Option Chunk =>
    ({ dataSize := record.1, chunk := record.2 } : ObjectData)) (reads_editedChunk miniz e) pos rest ahead

/-- The records of the section as they were loaded. -/
def loadedManagers (s : EditedSection) : List ManagerData :=
  s.managers.map fun m =>
    { guid := m.1, dataSize := (loadedRecord m.2).1, chunk := (loadedRecord m.2).2, flags := 0 }

def loadedObjects (s : EditedSection) : List ObjectData :=
  s.objects.map fun e => { dataSize := (loadedRecord e).1, chunk := (loadedRecord e).2 }

theorem reads_editedSection (s : EditedSection) (fileVersion : UInt32) (modern : 7 ≤ fileVersion) :
    Reads buffer (parseRecords buffer fileVersion (s.current miniz).managerCount (s.current miniz).objectCount)
      ((s.current miniz).managers.flatMap managerBytes ++
        (s.current miniz).objects.flatMap fun o => recordBytes o.chunk)
      (loadedManagers s,loadedObjects s) := by
  have six : fileVersion ≥ 6 := UInt32.le_trans (by decide) modern
  have four : fileVersion ≥ 4 := UInt32.le_trans (by decide) modern
  have managersSize : (s.current miniz).managers.length = s.managers.length := List.length_map _
  have objectsSize : (s.current miniz).objects.length = s.objects.length := List.length_map _
  rw [parseRecords,DataSection.managerCount,DataSection.objectCount,count32,count32,managersSize,objectsSize,
    guarded_times six s.managersFit,guarded_times four s.objectsFit]
  simp only [EditedSection.current,List.flatMap_map]
  refine reads_bind (reads_times s.managers _ _ fun m _ => reads_editedManager miniz m.1 m.2) ?_
  exact reads_return (f := fun objects => (loadedManagers s,objects))
    (reads_times s.objects _ _ fun e _ => reads_editedObject miniz fileVersion (UInt32.not_lt.mpr modern) e)

end Reparsing

/-- A section of edited chunks is saved and parsed again without an error, and every record comes back
with the data and ids of its chunk exactly when no edit had changed them. -/
theorem dataSectionParse_edited_iff (miniz : Miniz) (s : EditedSection) (fileVersion : UInt32)
    (modern : 7 ≤ fileVersion) (bufferSize : Nat) (bytes : List UInt8)
    (ok : dataSectionSerialize (s.current miniz) fileVersion bufferSize = .ok bytes) :
    (∃ managers objects,
      dataSectionParse bytes fileVersion (s.current miniz).managerCount (s.current miniz).objectCount =
          .ok (managers,objects) ∧
        List.Forall₂ (fun m back => m.2.SavedAs miniz back.chunk) s.managers managers ∧
        List.Forall₂ (fun e back => e.SavedAs miniz back.chunk) s.objects objects) ↔
      (∀ m ∈ s.managers, m.2.Unchanged miniz) ∧ ∀ e ∈ s.objects, e.Unchanged miniz := by
  have written := dataSectionSerialize_success (UInt32.not_lt.mpr modern) ok
  have parsed : dataSectionParse bytes fileVersion (s.current miniz).managerCount (s.current miniz).objectCount =
      .ok (loadedManagers s,loadedObjects s) := by
    have reads : Reads bytes _ _ _ := reads_editedSection miniz s fileVersion modern
    rw [← written] at reads
    exact reads_start reads
  have loaded : (List.Forall₂ (fun m (back : ManagerData) => m.2.SavedAs miniz back.chunk) s.managers
        (loadedManagers s) ∧
      List.Forall₂ (fun e (back : ObjectData) => e.SavedAs miniz back.chunk) s.objects (loadedObjects s)) ↔
      (∀ m ∈ s.managers, m.2.Unchanged miniz) ∧ ∀ e ∈ s.objects, e.Unchanged miniz := by
    simp only [loadedManagers,loadedObjects,List.forall₂_map_right_iff,List.forall₂_same,loadedRecord,
      EditedChunk.savedAs_loaded_iff]
  rw [← loaded]
  constructor
  · rintro ⟨managers,objects,again,same⟩
    rw [parsed,Except.ok.injEq,Prod.mk.injEq] at again
    rwa [again.1,again.2]
  · intro same
    exact ⟨_,_,parsed,same⟩

/-- A deflate library that packs nothing. -/
def noMiniz : Miniz := ⟨fun _ _ => none,fun _ _ => none⟩

/-- One data word, loaded from a file. -/
def loadedFive (edits : List (Surroundings × ChunkEdit)) : EditedChunk where
  raw := [0,0,7,0, 1,0,0,0, 5,0,0,0]
  loaded := { chunkCreate with
    data := some [5], rawData := some [0,0,7,0, 1,0,0,0, 5,0,0,0] }
  parsed := rfl
  sized := by decide
  edits := edits

def savedFive : List UInt8 := [12,0,0,0, 0,0,7,0, 1,0,0,0, 5,0,0,0]

def fiveSection (edits : List (Surroundings × ChunkEdit)) : EditedSection where
  objects := [loadedFive edits]
  objectsFit := by simp

theorem fiveSection_kept :
    (∃ managers objects,
      dataSectionParse savedFive 8 ((fiveSection []).current noMiniz).managerCount
          ((fiveSection []).current noMiniz).objectCount = .ok (managers,objects) ∧
        List.Forall₂ (fun m back => m.2.SavedAs noMiniz back.chunk) (fiveSection []).managers managers ∧
        List.Forall₂ (fun e back => e.SavedAs noMiniz back.chunk) (fiveSection []).objects objects) ↔
      (∀ m ∈ (fiveSection []).managers, m.2.Unchanged noMiniz) ∧
        ∀ e ∈ (fiveSection []).objects, e.Unchanged noMiniz :=
  dataSectionParse_edited_iff noMiniz (fiveSection []) 8 (by decide) 16 savedFive rfl

/-- Writing over the word, through the API, in a chunk that was loaded. -/
def overwriteFive : List (Surroundings × ChunkEdit) := [({},.startWrite),({},.writeDword 9)]

theorem overwriteFive_stale :
    dataSectionSerialize ((fiveSection overwriteFive).current noMiniz) 8 16 = .ok savedFive ∧
      ((loadedFive overwriteFive).current noMiniz).words = [9] ∧
      ¬ ∃ managers objects,
        dataSectionParse savedFive 8 ((fiveSection overwriteFive).current noMiniz).managerCount
            ((fiveSection overwriteFive).current noMiniz).objectCount = .ok (managers,objects) ∧
          List.Forall₂ (fun m back => m.2.SavedAs noMiniz back.chunk) (fiveSection overwriteFive).managers managers ∧
          List.Forall₂ (fun e back => e.SavedAs noMiniz back.chunk) (fiveSection overwriteFive).objects objects := by
  refine ⟨rfl,rfl,?_⟩
  rintro ⟨managers,objects,parsed,_,same⟩
  have words : objects.map (fun o => o.chunk.map Chunk.words) = [some [5]] := by
    have mapped := congrArg (Except.map fun records =>
      records.2.map fun o : ObjectData => o.chunk.map Chunk.words) parsed
    exact (Except.ok.inj mapped).symm
  cases same with
  | cons saved rest =>
    obtain ⟨c,found,written,_⟩ := saved
    rw [List.map_cons,found,Option.map_some,written] at words
    exact absurd (List.cons.inj words).1 (by decide)

end Libnmo.Format
