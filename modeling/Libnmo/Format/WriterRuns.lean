import Libnmo.Format.ChunkWriter
import Libnmo.Format.TrackedIds

/-! Runs of a writer. Without a file context every call appends its words and its
entries of the `ids` list; with one, object IDs are encoded and none is tracked. -/
namespace Libnmo.Format
open Core Lib Lib.LittleEndian

/-- Calls of a writer. A sequence is its start and its items. -/
inductive WriterOp
  | dword (value : UInt32)
  | objectId (id : UInt32)
  | objectSequence (ids : List UInt32)
  | managerInt (manager : Guid) (value : Int32)
  | subchunk (sub : Chunk)

def writeObjectIds (around : Surroundings) : List UInt32 → Run ChunkWriter Unit
  | [] => pure ()
  | id :: ids => do
    writerWriteObjectId around id
    writeObjectIds around ids

namespace WriterOp

def write (around : Surroundings) : WriterOp → Run ChunkWriter Unit
  | dword value => writerWriteDword around value
  | objectId id => writerWriteObjectId around id
  | objectSequence ids => do
    writerStartObjectSequence around ids.length
    writeObjectIds around ids
  | managerInt manager value => writerWriteManagerInt around manager value
  | subchunk sub => writerWriteSubchunk around (some sub)

/-- The words that the call appends, without a file context. -/
def words : WriterOp → List UInt32
  | dword value => [value]
  | objectId id => [id]
  | objectSequence ids => UInt32.ofNat ids.length :: ids
  | managerInt manager value => [manager.d1,manager.d2,value.toUInt32]
  | subchunk sub => UInt32.ofNat (subchunkPayload sub).length :: subchunkPayload sub

/-- The entries that it adds to the `ids` list, from a position on. -/
def entries (pos : Nat) : WriterOp → List UInt32
  | objectId id => idEntries pos [id]
  | objectSequence ids =>
    (if ids = [] then [] else [listSequenceMarker,UInt32.ofNat pos]) ++ idEntries (pos + 1) ids
  | _ => []

end WriterOp

/-- The writer after a sequence of calls, whatever each of them returned. -/
def written (around : Surroundings) (ops : List WriterOp) (w : ChunkWriter) : ChunkWriter :=
  ops.foldl (fun w op => ((op.write around).run w).2) w

/-- A fresh writer, given its file context and started. -/
def startedWriter (around : Surroundings) (ctx : Option ChunkFileContext) (classId chunkVersion : UInt32) :
    ChunkWriter :=
  writerStart classId chunkVersion (writerSetFileContext ctx (writerCreate around))

/-- The chunk that such a writer hands over after the calls. -/
def writtenChunk (around : Surroundings) (ctx : Option ChunkFileContext) (classId chunkVersion : UInt32)
    (ops : List WriterOp) : Option Chunk :=
  (writerFinalize (written around ops (startedWriter around ctx classId chunkVersion))).1

def opsEntries (pos : Nat) : List WriterOp → List UInt32
  | [] => []
  | op :: ops => op.entries pos ++ opsEntries (pos + op.words.length) ops

/-- What a call changes besides the options: words and entries appended. -/
structure Extends (w w' : ChunkWriter) (words entries : List UInt32) : Prop where
  data : w'.data = w.data ++ words
  idList : w'.idList = w.idList ++ entries
  finalized : w'.finalized = w.finalized
  fileContext : w'.fileContext = w.fileContext
  head : w'.chunk.map (fun c => (c.ids,c.chunkVersion,c.chunks)) = w.chunk.map fun c => (c.ids,c.chunkVersion,c.chunks)
  chunkList : (∀ sub ∈ w.chunkList, sub.embedded = none) → ∀ sub ∈ w'.chunkList, sub.embedded = none

theorem Extends.refl (w : ChunkWriter) : Extends w w [] [] :=
  ⟨by simp,by simp,rfl,rfl,rfl,id⟩

/-- Nothing is appended. -/
theorem Extends.fields {w w' : ChunkWriter} (data : w'.data = w.data) (idList : w'.idList = w.idList)
    (finalized : w'.finalized = w.finalized) (fileContext : w'.fileContext = w.fileContext)
    (head : w'.chunk.map (fun c => (c.ids,c.chunkVersion,c.chunks)) =
      w.chunk.map fun c => (c.ids,c.chunkVersion,c.chunks))
    (chunkList : (∀ sub ∈ w.chunkList, sub.embedded = none) → ∀ sub ∈ w'.chunkList, sub.embedded = none) :
    Extends w w' [] [] :=
  ⟨by rw [data,List.append_nil],by rw [idList,List.append_nil],finalized,fileContext,head,chunkList⟩

theorem Extends.trans {w w' w'' : ChunkWriter} {words words' entries entries' : List UInt32}
    (first : Extends w w' words entries) (second : Extends w' w'' words' entries') :
    Extends w w'' (words ++ words') (entries ++ entries') := by
  refine ⟨?_,?_,second.finalized.trans first.finalized,second.fileContext.trans first.fileContext,
    second.head.trans first.head,second.chunkList ∘ first.chunkList⟩
  · rw [second.data,first.data,List.append_assoc]
  · rw [second.idList,first.idList,List.append_assoc]

section Running
variable (around : Surroundings) {w : ChunkWriter}

theorem ensureDataCapacity_run (needed : Nat) :
    ∃ spare, (ensureDataCapacity around needed).run w = (.ok (),{ w with spare := spare }) ∧ needed ≤ spare.length := by
  simp only [ensureDataCapacity,Action.update_apply]
  split
  · rename_i room
    exact ⟨w.spare,rfl,room⟩
  · refine ⟨_,rfl,?_⟩
    rw [List.length_map,List.length_range']
    omega

theorem requireOpen_run (fresh : w.finalized = false) : requireOpen.run w = (.ok (),w) := by
  simp [requireOpen,fresh]

theorem appendWords_run {words : List UInt32} (room : words.length ≤ w.spare.length) :
    (appendWords words).run w = (.ok (),{ w with data := w.data ++ words, spare := w.spare.drop words.length }) := by
  simp only [appendWords,if_pos room]

/-- Room is made, some fields are updated that leave data and spare alone, and words are appended. -/
theorem writerPut_run (words : List UInt32) (fresh : w.finalized = false) :
    ∃ w', (writerPut around words).run w = (.ok (),w') ∧ Extends w w' words [] := by
  obtain ⟨spare,grown,room⟩ := ensureDataCapacity_run around (w := w) words.length
  have run : (writerPut around words).run w =
      (.ok (),{ w with data := w.data ++ words, spare := spare.drop words.length }) := by
    rw [writerPut,Action.bind_ok _ (requireOpen_run fresh),Action.bind_ok _ grown]
    exact appendWords_run (w := { w with spare := spare }) room
  exact ⟨_,run,rfl,by simp,rfl,rfl,rfl,id⟩

/-- The writer once a call has set an option and made room. -/
def prepared (w : ChunkWriter) (option : UInt32) (spare : List UInt32) : ChunkWriter :=
  { w.withOptions (· ||| option) with spare := spare }

theorem extends_prepared {option : UInt32} {spare spare' words entries managers refs : List UInt32} {subs : List Chunk}
    (apart : ∀ sub ∈ subs, sub.embedded = none) :
    Extends w { prepared w option spare with
      data := w.data ++ words, spare := spare', idList := w.idList ++ entries
      managerList := managers, chunkRefList := refs, chunkList := w.chunkList ++ subs } words entries := by
  refine ⟨rfl,rfl,rfl,rfl,?_,?_⟩
  · simp only [prepared,ChunkWriter.withOptions,Option.map_map]
    rfl
  · intro all sub member
    exact (List.mem_append.mp member).elim (all sub) (apart sub)

theorem writerWriteObjectId_after (id : UInt32) (fresh : w.finalized = false) (plain : w.runtimeToFile = none)
    {spare : List UInt32} (grown : (ensureDataCapacity around 1).run w = (.ok (),{ w with spare := spare }))
    (room : 1 ≤ spare.length) :
    (writerWriteObjectId around id).run w =
      (.ok (),{ prepared w optionIds spare with
        data := w.data ++ [id], spare := spare.drop 1, idList := w.idList ++ idEntries w.data.length [id]
        managerList := w.managerList, chunkRefList := w.chunkRefList, chunkList := w.chunkList ++ [] }) := by
  have encoded : encodeObjectId (prepared w optionIds spare) id = .ok id := by
    have none : (prepared w optionIds spare).runtimeToFile = none := plain
    simp only [encodeObjectId,none]
  have untracked : (prepared w optionIds spare).runtimeToFile.isNone := by
    rw [show (prepared w optionIds spare).runtimeToFile = none from plain]
    rfl
  rw [writerWriteObjectId,Action.bind_ok _ (requireOpen_run fresh),Action.bind_ok _ grown]
  rw [Action.bind_ok (t := prepared w optionIds spare) (a := ()) _ rfl,
    Action.bind_ok (t := prepared w optionIds spare) (a := prepared w optionIds spare) _ rfl]
  by_cases some : id ≠ 0
  · rw [if_pos ⟨some,untracked⟩,trackIdPosition,Action.bind_ok _ (Action.update_apply _ _),encoded,
      Action.bind_ok _ (Action.lift_apply _ _),appendWords_run (by exact room)]
    simp [idEntries,some,prepared,ChunkWriter.withOptions]
  · rw [if_neg fun both => some both.1,Action.bind_ok _ (Action.pure_apply _ _),encoded,
      Action.bind_ok _ (Action.lift_apply _ _),appendWords_run (by exact room)]
    simp [idEntries,some,prepared,ChunkWriter.withOptions]

theorem writerWriteObjectId_run (id : UInt32) (fresh : w.finalized = false) (plain : w.runtimeToFile = none) :
    ∃ w', (writerWriteObjectId around id).run w = (.ok (),w') ∧ Extends w w' [id] (idEntries w.data.length [id]) := by
  obtain ⟨spare,grown,room⟩ := ensureDataCapacity_run around (w := w) 1
  exact ⟨_,writerWriteObjectId_after _ id fresh plain grown room,extends_prepared (by simp)⟩

theorem ensure_prepared (option : UInt32) (needed : Nat) :
    ∃ spare, (ensureDataCapacity around needed).run (w.withOptions (· ||| option)) = (.ok (),prepared w option spare) ∧
      needed ≤ spare.length :=
  ensureDataCapacity_run _ (w := w.withOptions (· ||| option)) needed

theorem writerStartObjectSequence_after (count : Nat) (fresh : w.finalized = false) (plain : w.runtimeToFile = none)
    {spare : List UInt32}
    (grown : (ensureDataCapacity around 1).run (w.withOptions (· ||| optionIds)) = (.ok (),prepared w optionIds spare))
    (room : 1 ≤ spare.length) :
    (writerStartObjectSequence around count).run w =
      (.ok (),{ prepared w optionIds spare with
        data := w.data ++ [UInt32.ofNat count], spare := spare.drop 1
        idList := w.idList ++ if count = 0 then [] else [listSequenceMarker,UInt32.ofNat w.data.length]
        managerList := w.managerList, chunkRefList := w.chunkRefList, chunkList := w.chunkList ++ [] }) := by
  have untracked : (prepared w optionIds spare).runtimeToFile.isNone := by
    rw [show (prepared w optionIds spare).runtimeToFile = none from plain]
    rfl
  rw [writerStartObjectSequence,Action.bind_ok _ (requireOpen_run fresh),
    Action.bind_ok (t := w.withOptions (· ||| optionIds)) (a := ()) _ rfl,Action.bind_ok _ grown,
    Action.bind_ok (t := prepared w optionIds spare) (a := prepared w optionIds spare) _ rfl]
  by_cases zero : count = 0
  · rw [if_neg fun both => absurd zero (Nat.pos_iff_ne_zero.mp both.1),Action.bind_ok _ (Action.pure_apply _ _),
      appendWords_run (by exact room)]
    simp [zero,prepared,ChunkWriter.withOptions]
  · rw [if_pos ⟨Nat.pos_of_ne_zero zero,untracked⟩,trackIdSequenceStart,Action.bind_ok _ (Action.update_apply _ _),
      appendWords_run (by exact room)]
    simp [zero,prepared,ChunkWriter.withOptions]

theorem writerStartObjectSequence_run (count : Nat) (fresh : w.finalized = false) (plain : w.runtimeToFile = none) :
    ∃ w', (writerStartObjectSequence around count).run w = (.ok (),w') ∧ Extends w w' [UInt32.ofNat count]
      (if count = 0 then [] else [listSequenceMarker,UInt32.ofNat w.data.length]) := by
  obtain ⟨spare,grown,room⟩ := ensure_prepared around (w := w) optionIds 1
  exact ⟨_,writerStartObjectSequence_after _ count fresh plain grown room,extends_prepared (by simp)⟩

theorem writeObjectIds_run (ids : List UInt32) (fresh : w.finalized = false) (plain : w.runtimeToFile = none) :
    ∃ w', (writeObjectIds around ids).run w = (.ok (),w') ∧ Extends w w' ids (idEntries w.data.length ids) := by
  induction ids generalizing w with
  | nil => exact ⟨w,rfl,Extends.refl w⟩
  | cons id ids ih =>
    obtain ⟨w₁,run,first⟩ := writerWriteObjectId_run around id fresh plain
    have plain₁ : w₁.runtimeToFile = none := by rw [ChunkWriter.runtimeToFile,first.fileContext]; exact plain
    obtain ⟨w₂,ran,others⟩ := ih (first.finalized.trans fresh) plain₁
    rw [first.data,List.length_append,List.length_singleton] at others
    refine ⟨w₂,by rw [writeObjectIds,Action.bind_ok _ run,ran],?_⟩
    have both := first.trans others
    rw [List.singleton_append] at both
    have entries : idEntries w.data.length (id :: ids) =
        idEntries w.data.length [id] ++ idEntries (w.data.length + 1) ids := by
      simp only [idEntries]
      split <;> rfl
    rwa [entries]

theorem writerWriteManagerInt_after (manager : Guid) (value : Int32) (fresh : w.finalized = false)
    {spare : List UInt32}
    (grown : (ensureDataCapacity around 3).run (w.withOptions (· ||| optionMan)) = (.ok (),prepared w optionMan spare))
    (room : 3 ≤ spare.length) :
    (writerWriteManagerInt around manager value).run w =
      (.ok (),{ prepared w optionMan spare with
        data := w.data ++ [manager.d1,manager.d2,value.toUInt32], spare := spare.drop 3, idList := w.idList ++ []
        managerList := w.managerList ++ [UInt32.ofNat w.data.length]
        chunkRefList := w.chunkRefList, chunkList := w.chunkList ++ [] }) := by
  rw [writerWriteManagerInt,Action.bind_ok _ (requireOpen_run fresh),
    Action.bind_ok (t := w.withOptions (· ||| optionMan)) (a := ()) _ rfl,Action.bind_ok _ grown,
    Action.bind_ok _ (Action.update_apply _ _),appendWords_run (by exact room)]
  simp [prepared,ChunkWriter.withOptions]

theorem writerWriteManagerInt_run (manager : Guid) (value : Int32) (fresh : w.finalized = false) :
    ∃ w', (writerWriteManagerInt around manager value).run w = (.ok (),w') ∧
      Extends w w' [manager.d1,manager.d2,value.toUInt32] [] := by
  obtain ⟨spare,grown,room⟩ := ensure_prepared around (w := w) optionMan 3
  exact ⟨_,writerWriteManagerInt_after _ manager value fresh grown room,extends_prepared (by simp)⟩

/-- The writer once a sub-chunk is in its list. -/
def listed (w : ChunkWriter) (sub : Chunk) : ChunkWriter :=
  { w with chunkList := w.chunkList ++ [{ sub with embedded := none }] }

theorem writerWriteSubchunk_after (sub : Chunk) (fresh : w.finalized = false) {spare : List UInt32}
    (grown : (ensureDataCapacity around (1 + (subchunkPayload sub).length)).run
      ((listed w sub).withOptions (· ||| optionChn)) = (.ok (),prepared (listed w sub) optionChn spare))
    (room : 1 + (subchunkPayload sub).length ≤ spare.length) :
    (writerWriteSubchunk around (some sub)).run w =
      (.ok (),{ prepared w optionChn spare with
        data := w.data ++ (WriterOp.subchunk sub).words, spare := (spare.drop 1).drop (subchunkPayload sub).length
        idList := w.idList ++ [], managerList := w.managerList
        chunkRefList := w.chunkRefList ++ [UInt32.ofNat w.data.length]
        chunkList := w.chunkList ++ [{ sub with embedded := none }] }) := by
  rw [writerWriteSubchunk,Action.bind_ok _ (requireOpen_run fresh),
    Action.bind_ok (t := w.withOptions (· ||| optionChn)) (a := ()) _ rfl,
    Action.bind_ok (t := (listed w sub).withOptions (· ||| optionChn)) (a := ()) _ rfl,Action.bind_ok _ grown,
    Action.bind_ok _ (appendWords_run (by simp only [prepared,List.length_singleton]; omega)),
    trackChunkPosition,Action.bind_ok _ (Action.update_apply _ _),
    appendWords_run (by simp only [prepared,List.length_drop,List.length_singleton]; omega)]
  simp [prepared,ChunkWriter.withOptions,WriterOp.words,listed]

theorem writerWriteSubchunk_run (sub : Chunk) (fresh : w.finalized = false) :
    ∃ w', (writerWriteSubchunk around (some sub)).run w = (.ok (),w') ∧
      Extends w w' (WriterOp.subchunk sub).words [] := by
  obtain ⟨spare,grown,room⟩ := ensure_prepared around (w := listed w sub) optionChn (1 + (subchunkPayload sub).length)
  exact ⟨_,writerWriteSubchunk_after _ sub fresh grown room,extends_prepared (by simp)⟩

/-- Without a file context no call of a started writer fails. -/
theorem write_run (op : WriterOp) (fresh : w.finalized = false) (plain : w.runtimeToFile = none) :
    ∃ w', (op.write around).run w = (.ok (),w') ∧ Extends w w' op.words (op.entries w.data.length) := by
  cases op with
  | dword value => exact writerPut_run _ [value] fresh
  | objectId id => exact writerWriteObjectId_run _ id fresh plain
  | objectSequence ids =>
    obtain ⟨w₁,run,first⟩ := writerStartObjectSequence_run around ids.length fresh plain
    have plain₁ : w₁.runtimeToFile = none := by rw [ChunkWriter.runtimeToFile,first.fileContext]; exact plain
    obtain ⟨w₂,ran,items⟩ := writeObjectIds_run around ids (first.finalized.trans fresh) plain₁
    rw [first.data,List.length_append,List.length_singleton] at items
    refine ⟨w₂,by rw [WriterOp.write,Action.bind_ok _ run,ran],?_⟩
    have both := first.trans items
    simp only [List.length_eq_zero_iff] at both
    exact both
  | managerInt manager value => exact writerWriteManagerInt_run _ manager value fresh
  | subchunk sub => exact writerWriteSubchunk_run _ sub fresh

theorem written_run (ops : List WriterOp) (fresh : w.finalized = false) (plain : w.runtimeToFile = none) :
    Extends w (written around ops w) (ops.flatMap WriterOp.words) (opsEntries w.data.length ops) := by
  induction ops generalizing w with
  | nil => exact Extends.refl w
  | cons op ops ih =>
    obtain ⟨w₁,run,first⟩ := write_run around op fresh plain
    have plain₁ : w₁.runtimeToFile = none := by rw [ChunkWriter.runtimeToFile,first.fileContext]; exact plain
    have others := ih (first.finalized.trans fresh) plain₁
    rw [first.data,List.length_append] at others
    have step : written around (op :: ops) w = written around ops w₁ := by
      simp only [written,List.foldl_cons,run]
    rw [step]
    exact first.trans others

end Running

/-- The file context brings a table, so that object IDs are written as file indices. -/
def encodesIds (ctx : Option ChunkFileContext) : Bool := (ctx.bind ChunkFileContext.runtimeToFile).isSome

section Building
variable {around : Surroundings} {ctx : Option ChunkFileContext} {classId chunkVersion : UInt32}
  {ops : List WriterOp} {c : Chunk}

/-- Words and entries are appended, entries only where IDs are not encoded. -/
def Grows (w w' : ChunkWriter) : Prop :=
  ∃ words entries, Extends w w' words entries ∧ (entries = [] ∨ w.runtimeToFile = none)

theorem Grows.step {w w' w'' : ChunkWriter} (words entries : List UInt32) (first : Grows w w')
    (second : Extends w' w'' words entries) (allowed : entries = [] ∨ w'.runtimeToFile = none) : Grows w w'' := by
  obtain ⟨before,listed,grown,open_⟩ := first
  refine ⟨_,_,grown.trans second,?_⟩
  have context : w'.runtimeToFile = w.runtimeToFile := by
    rw [ChunkWriter.runtimeToFile,grown.fileContext]
    rfl
  rw [context] at allowed
  rcases open_ with rfl | none
  · rcases allowed with rfl | none
    · exact .inl rfl
    · exact .inr none
  · exact .inr none

section Growing
open Action

variable {w₀ : ChunkWriter}

theorem keeps_option (option : UInt32) : Keeps (Grows w₀) (writerSetOption option) := by
  intro w grown
  refine grown.step _ _ (.fields rfl rfl rfl rfl ?_ id) (.inl rfl)
  rw [writerSetOption,update_apply,ChunkWriter.withOptions,Option.map_map]
  rfl

theorem keeps_room (needed : Nat) : Keeps (Grows w₀) (ensureDataCapacity around needed) := by
  intro w grown
  obtain ⟨spare,run,_⟩ := ensureDataCapacity_run around (w := w) needed
  rw [run]
  exact grown.step _ _ (.fields rfl rfl rfl rfl rfl id) (.inl rfl)

theorem keeps_open : Keeps (Grows w₀) requireOpen := by
  intro w grown
  rw [requireOpen]
  dsimp only
  split <;> exact grown

theorem keeps_append (words : List UInt32) : Keeps (Grows w₀) (appendWords words) := by
  intro w grown
  rw [appendWords]
  dsimp only
  split
  · exact grown.step words [] ⟨rfl,by simp,rfl,rfl,rfl,id⟩ (.inl rfl)
  · exact grown

theorem keeps_objectId (id : UInt32) : Keeps (Grows w₀) (writerWriteObjectId around id) := by
  refine keeps_bind keeps_open fun _ => keeps_bind (keeps_room 1) fun _ =>
    keeps_bind (keeps_option _) fun _ => keeps_inspect _ fun w grown => ?_
  have rest : Keeps (Grows w₀) (Action.lift (encodeObjectId w id) >>= fun value => appendWords [value]) :=
    keeps_bind (keeps_lift _) fun _ => keeps_append _
  split
  · rename_i tracked
    rw [trackIdPosition,bind_ok _ (update_apply _ _)]
    exact rest _ (grown.step [] _ ⟨by simp,rfl,rfl,rfl,rfl,fun all => all⟩
      (.inr (Option.isNone_iff_eq_none.mp tracked.2)))
  · rw [bind_ok _ (pure_apply _ _)]
    exact rest w grown

theorem keeps_objectSequence (count : Nat) : Keeps (Grows w₀) (writerStartObjectSequence around count) := by
  refine keeps_bind keeps_open fun _ => keeps_bind (keeps_option _) fun _ =>
    keeps_bind (keeps_room 1) fun _ => keeps_inspect _ fun w grown => ?_
  split
  · rename_i tracked
    rw [trackIdSequenceStart,bind_ok _ (update_apply _ _)]
    exact keeps_append _ _ (grown.step [] _ ⟨by simp,rfl,rfl,rfl,rfl,id⟩
      (.inr (Option.isNone_iff_eq_none.mp tracked.2)))
  · rw [bind_ok _ (pure_apply _ _)]
    exact keeps_append _ w grown

theorem keeps_objectIds (ids : List UInt32) : Keeps (Grows w₀) (writeObjectIds around ids) := by
  induction ids with
  | nil => exact keeps_pure ()
  | cons id ids ih => exact keeps_bind (keeps_objectId id) fun _ => ih

theorem keeps_managerPosition : Keeps (Grows w₀) (Action.update fun w : ChunkWriter =>
    { w with managerList := w.managerList ++ [UInt32.ofNat w.data.length] } : Run ChunkWriter Unit) := by
  intro w grown
  exact grown.step _ _ (.fields rfl rfl rfl rfl rfl id) (.inl rfl)

theorem keeps_subchunk (sub : Chunk) : Keeps (Grows w₀) (writerWriteSubchunk around (some sub)) := by
  refine keeps_bind keeps_open fun _ => keeps_bind (keeps_option _) fun _ => keeps_bind ?_ fun _ =>
    keeps_bind (keeps_room _) fun _ => keeps_bind (keeps_append _) fun _ => keeps_bind ?_ fun _ => keeps_append _
  · intro w grown
    refine grown.step _ _ (.fields rfl rfl rfl rfl rfl fun all other member => ?_) (.inl rfl)
    exact (List.mem_append.mp member).elim (all other) fun last => by rw [List.mem_singleton.mp last]
  · intro w grown
    exact grown.step _ _ (.fields rfl rfl rfl rfl rfl id) (.inl rfl)

/-- With or without a file context, and whether it fails or not, a call makes the writer grow. -/
theorem keeps_write (op : WriterOp) : Keeps (Grows w₀) (op.write around) := by
  cases op with
  | dword value => exact keeps_bind keeps_open fun _ => keeps_bind (keeps_room _) fun _ => keeps_append _
  | objectId id => exact keeps_objectId id
  | objectSequence ids => exact keeps_bind (keeps_objectSequence _) fun _ => keeps_objectIds ids
  | managerInt manager value =>
    exact keeps_bind keeps_open fun _ => keeps_bind (keeps_option _) fun _ => keeps_bind (keeps_room _) fun _ =>
      keeps_bind keeps_managerPosition fun _ => keeps_append _
  | subchunk sub => exact keeps_subchunk sub

variable (around) in
theorem written_grows (ops : List WriterOp) (w : ChunkWriter) : Grows w (written around ops w) := by
  have run (ops : List WriterOp) (w' : ChunkWriter) (grown : Grows w w') : Grows w (written around ops w') := by
    induction ops generalizing w' with
    | nil => exact grown
    | cons op ops ih => exact ih _ (keeps_write op w' grown)
  exact run ops w ⟨[],[],Extends.refl w,.inl rfl⟩

end Growing

/-- What a finalized chunk has, whatever the file context of its writer. -/
structure HandedOver (w : ChunkWriter) (c : Chunk) (chunkVersion : UInt32) : Prop where
  data : c.data = some w.data
  ids : c.ids = w.idList
  chunkVersion : c.chunkVersion = chunkVersion
  apart : ∀ child ∈ c.chunks, child.embedded = none

theorem writtenChunk_handedOver (built : writtenChunk around ctx classId chunkVersion ops = some c) :
    HandedOver (written around ops (startedWriter around ctx classId chunkVersion)) c chunkVersion := by
  obtain ⟨words,entries,grown,_⟩ := written_grows around ops (startedWriter around ctx classId chunkVersion)
  rw [writtenChunk] at built
  generalize written around ops (startedWriter around ctx classId chunkVersion) = w at grown built ⊢
  obtain ⟨started,found,same⟩ := Option.map_eq_some_iff.mp (grown.head.trans rfl)
  obtain ⟨ids,version,chunks⟩ : started.ids = [] ∧ started.chunkVersion = chunkVersion ∧ started.chunks = [] := by
    simpa [chunkCreate] using same
  have subs := grown.chunkList (by simp [startedWriter,writerStart])
  have fresh : w.finalized = false := grown.finalized
  simp only [writerFinalize,found,fresh,if_neg Bool.false_ne_true,Option.some.injEq] at built
  subst built
  refine ⟨rfl,?_,version,?_⟩
  · dsimp only
    split
    · rfl
    · rename_i empty
      rw [ids]
      exact (List.length_eq_zero_iff.mp (Nat.eq_zero_of_not_pos empty)).symm
  · dsimp only
    split
    · exact subs
    · simp [chunks]

/-- No call finalizes the writer, so there is a chunk to hand over. -/
theorem writtenChunk_exists (around : Surroundings) (ctx : Option ChunkFileContext) (classId chunkVersion : UInt32)
    (ops : List WriterOp) : ∃ c, writtenChunk around ctx classId chunkVersion ops = some c := by
  obtain ⟨words,entries,grown,_⟩ := written_grows around ops (startedWriter around ctx classId chunkVersion)
  rw [writtenChunk]
  generalize written around ops (startedWriter around ctx classId chunkVersion) = w at grown ⊢
  obtain ⟨started,found,_⟩ := Option.map_eq_some_iff.mp (grown.head.trans rfl)
  have fresh : w.finalized = false := grown.finalized
  simp [writerFinalize,found,fresh]

theorem writtenChunk_plain (plain : encodesIds ctx = false)
    (built : writtenChunk around ctx classId chunkVersion ops = some c) :
    c.words = ops.flatMap WriterOp.words ∧ c.ids = opsEntries 0 ops := by
  have none : (startedWriter around ctx classId chunkVersion).runtimeToFile = none := by
    rw [encodesIds,Option.isSome_eq_false_iff,Option.isNone_iff_eq_none] at plain
    exact plain
  have grown := written_run around ops rfl none
  have handed := writtenChunk_handedOver built
  refine ⟨?_,handed.ids.trans grown.idList⟩
  rw [Chunk.words,handed.data,Option.getD_some]
  exact grown.data

/-- With a table in the file context the list of tracked IDs stays empty. -/
theorem writtenChunk_encoded (encoded : encodesIds ctx = true)
    (built : writtenChunk around ctx classId chunkVersion ops = some c) : c.ids = [] := by
  obtain ⟨words,entries,grown,allowed⟩ := written_grows around ops
    (startedWriter around ctx classId chunkVersion)
  rw [(writtenChunk_handedOver built).ids,grown.idList]
  rcases allowed with rfl | none
  · rfl
  · rw [encodesIds,Option.isSome_iff_exists] at encoded
    obtain ⟨remap,found⟩ := encoded
    exact absurd (none.symm.trans found) (by simp)

end Building

end Libnmo.Format
