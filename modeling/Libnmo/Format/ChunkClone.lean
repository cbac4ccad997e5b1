import Libnmo.Format.ChunkEdits
import Libnmo.Format.ChunkReads
import Libnmo.Format.WriterExchange
import Libnmo.Format.ChunkPacking
import Libnmo.Format.ChunkTreeRoundTrip
import Libnmo.Lib.Abreast

/-! Clones of chunks. The copy has the lists of the original and shares no memory with it, but it has
no arena, so no call can give it a parser state. Only a chunk without an arena behaves as its clone. -/
namespace Libnmo.Format
open Core Lib Lib.Action Lib.LittleEndian

mutual
/-- `nmo_chunk_clone`; `arena`, `unpack_size` and the sizes for statistics stay zero. -/
def chunkClone : Chunk → Chunk
  | c@{ chunks := children, .. } => {
    classId := c.classId
    dataVersion := c.dataVersion
    chunkVersion := c.chunkVersion
    chunkClassId := c.chunkClassId
    chunkOptions := c.chunkOptions
    data := if 0 < c.dataSize then some c.words else none
    ids := c.ids
    managers := c.managers
    chunks := cloneChildren children
    chunkRefs := c.chunkRefs }
termination_by structural c => c
def cloneChildren : List Chunk → List Chunk
  | [] => []
  | child :: children => chunkClone child :: cloneChildren children
termination_by structural children => children
end

section Copy
variable (c : Chunk)

theorem chunkClone_eq : chunkClone c = {
    classId := c.classId
    dataVersion := c.dataVersion
    chunkVersion := c.chunkVersion
    chunkClassId := c.chunkClassId
    chunkOptions := c.chunkOptions
    data := if 0 < c.dataSize then some c.words else none
    ids := c.ids
    managers := c.managers
    chunks := cloneChildren c.chunks
    chunkRefs := c.chunkRefs } := by
  cases c
  rfl

@[simp] theorem chunkClone_words : (chunkClone c).words = c.words := by
  rw [chunkClone_eq,Chunk.words]
  dsimp only
  split
  · rfl
  · rename_i empty
    exact (List.length_eq_zero_iff.mp (Nat.eq_zero_of_not_pos empty)).symm

theorem length_cloneChildren (children : List Chunk) : (cloneChildren children).length = children.length := by
  induction children with
  | nil => rfl
  | cons child children ih => rw [cloneChildren,List.length_cons,List.length_cons,ih]

/-- The nested format writes the same words for a clone. -/
theorem treeWords_chunkClone : treeWords (chunkClone c) = treeWords c := by
  induction c using Chunk.ind with
  | node c inherited =>
    have children : ∀ list : List Chunk, (∀ child ∈ list, treeWords (chunkClone child) = treeWords child) →
        childrenWords (cloneChildren list) = childrenWords list := by
      intro list each
      induction list with
      | nil => rfl
      | cons child list ih =>
        rw [cloneChildren,childrenWords,childrenWords,each child (List.mem_cons_self ..),
          ih fun other member => each other (List.mem_cons_of_mem _ member)]
    have count : count32 (cloneChildren c.chunks) = count32 c.chunks := by
      rw [count32,count32,length_cloneChildren]
    have version : packVersionInfo (chunkClone c) = packVersionInfo c := by
      rw [chunkClone_eq]
      rfl
    rw [treeWords_eq,treeWords_eq c,version,chunkClone_words]
    rw [chunkClone_eq]
    dsimp only
    rw [children c.chunks inherited,count]

theorem chunkSerialize_chunkClone : chunkSerialize (chunkClone c) = chunkSerialize c := by
  rw [chunkSerialize_eq,chunkSerialize_eq,← length_treeWords,← length_treeWords,treeWords_chunkClone]

theorem chunkSerializeVersion1_chunkClone : chunkSerializeVersion1 (chunkClone c) = chunkSerializeVersion1 c := by
  have words := chunkClone_words c
  have size : (chunkClone c).dataSize = c.dataSize := congrArg List.length words
  rw [chunkSerializeVersion1,chunkSerializeVersion1,chunkCalcSizeVersion1,chunkCalcSizeVersion1,
    chunkVersion1Words,chunkVersion1Words,size,words]
  rw [chunkClone_eq]
  rfl

end Copy

/-- The calls that read and write; the others list a sub-chunk, pack, unpack or remap. -/
def ChunkEdit.accesses : ChunkEdit → Bool
  | addSubChunk _ | compress _ | compressIfBeneficial _ _ | decompress | remapObjectIds _ => false
  | _ => true

/-- An access to a chunk that has no arena and no parser state. What needs an allocation fails, and the
other calls come to the missing parser state by themselves. -/
def ChunkEdit.performBare (miniz : Miniz) (around : Surroundings) : ChunkEdit → Run Chunk Unit
  | startRead | startWrite => fail .nomem "Failed to allocate parser state"
  | close => pure ()
  | clear => Action.update fun c => c.resize 0
  | writeSubChunk _ => do
    setOption optionChn
    let chunks ← Action.read Chunk.chunks
    fail .nomem (if chunks.isEmpty then "Failed to allocate chunks list" else "Failed to grow chunks list")
  | edit => edit.perform miniz around

/-- `nmo_chunk_unpack` of a chunk without an arena. -/
def chunkUnpackBare : Run Chunk Unit where
  run c :=
    if ¬ hasFlag c.chunkOptions optionPacked then (.ok (),c)
    else if c.unpackSize = 0 then (.error (.error .invalidState "No unpack size specified"),c)
    else (.error (.error .nomem "Failed to allocate decompression buffer"),c)

/-- A chunk and whether it has an arena. Without one it never got a parser state or an unpack size. -/
structure HeldChunk where
  chunk : Chunk
  arena : Bool
  bare : arena = false → chunk.parserState = none ∧ chunk.unpackSize = 0

/-- One read or write of the chunk API. -/
inductive ChunkAccess
  | edit (around : Surroundings) (edit : ChunkEdit) (accesses : edit.accesses = true)
  | call (call : ExchangeCall)

section
variable (miniz : Miniz)

def ChunkAccess.perform (arena : Bool) : ChunkAccess → Run Chunk (Option ChunkAnswer)
  | edit around change _ => do
    (if arena then change.perform miniz around else change.performBare miniz around)
    pure none
  | call made => do
    let answer ← made.run
    pure (some answer)

def unpackIn (arena : Bool) : Run Chunk Unit := if arena then chunkUnpack miniz else chunkUnpackBare

/-- What is observed of a chunk: its bytes in both formats, what unpacking gives, and the results of accesses. -/
structure SameObserved (arena : Bool) (c : Chunk) (arena' : Bool) (c' : Chunk) : Prop where
  nested : chunkSerialize c' = chunkSerialize c
  flat : chunkSerializeVersion1 c' = chunkSerializeVersion1 c
  unpacks : ((unpackIn miniz arena').run c').1 = ((unpackIn miniz arena).run c).1
  unpacked : ((unpackIn miniz arena').run c').2.words = ((unpackIn miniz arena).run c).2.words
  accesses : ∀ accesses : List ChunkAccess, outcomes (accesses.map (ChunkAccess.perform miniz arena')) c' =
    outcomes (accesses.map (ChunkAccess.perform miniz arena)) c

/-- A clone has no arena of its own. -/
def ClonesTo (h : HeldChunk) : Prop := SameObserved miniz h.arena h.chunk false (chunkClone h.chunk)

end

/-- Two chunks without a parser state and with the same words, both with sub-chunks or both without. -/
structure BareAlike (c d : Chunk) : Prop where
  left : c.parserState = none
  right : d.parserState = none
  words : c.words = d.words
  chunks : c.chunks.isEmpty = d.chunks.isEmpty

section Bare
variable {α : Type} {miniz : Miniz} {around : Surroundings} {c d : Chunk}

/-- An action that stops at the missing parser state. -/
def StopsBare (action : Run Chunk α) (stop : Stop) : Prop :=
  ∀ c : Chunk, c.parserState = none → action.run c = (.error stop,c)

theorem StopsBare.alike {action : Run Chunk α} {stop : Stop} (stops : StopsBare action stop) :
    Alike BareAlike action := by
  intro c d held
  rw [stops c held.left,stops d held.right]
  exact ⟨rfl,held⟩

theorem StopsBare.bind {β : Type} {first : Run Chunk α} {stop : Stop} (stops : StopsBare first stop)
    (next : α → Run Chunk β) : StopsBare (first >>= next) stop :=
  fun c idle => Action.bind_error next (stops c idle)

theorem checkSize_bare (needed : Nat) :
    StopsBare (chunkCheckSize around needed) (.error .invalidState "Chunk not in write mode") := by
  intro c idle
  simp only [chunkCheckSize,idle]

theorem writeWords_bare (words : List UInt32) :
    StopsBare (writeWords around words) (.error .invalidState "Chunk not in write mode") := (checkSize_bare _).bind _

theorem alike_words (f : Chunk → Chunk) (idle : ∀ c, c.parserState = none → (f c).parserState = none)
    (words : ∀ c, (f c).words = c.words) (chunks : ∀ c, (f c).chunks = c.chunks) :
    Alike BareAlike (Action.update f : Run Chunk Unit) := by
  refine alike_update f fun c d held => ⟨idle c held.left,idle d held.right,?_,?_⟩
  · rw [words,words,held.words]
  · rw [chunks,chunks,held.chunks]

theorem alike_setOption (option : UInt32) : Alike BareAlike (setOption option) :=
  alike_words _ (fun _ idle => idle) (fun _ => rfl) fun _ => rfl

theorem alike_clear : Alike BareAlike (Action.update fun c => c.resize 0 : Run Chunk Unit) := by
  have empty (c : Chunk) : (c.resize 0).words = [] := by
    simp only [Chunk.words,Chunk.resize]
    cases c.data <;> rfl
  exact alike_update _ fun c d held => ⟨held.left,held.right,by rw [empty,empty],held.chunks⟩

theorem alike_goto (pos : Nat) : Alike BareAlike (chunkGoto pos) := by
  intro c d held
  have size : c.dataSize = d.dataSize := congrArg List.length held.words
  simp only [chunkGoto,held.left,held.right,size]
  split
  · exact ⟨rfl,held⟩
  · exact ⟨rfl,held⟩

theorem alike_seekIdentifier (id : UInt32) : Alike BareAlike (chunkSeekIdentifier id) := by
  intro c d held
  have size : c.dataSize = d.dataSize := congrArg List.length held.words
  simp only [chunkSeekIdentifier,held.left,held.right,held.words,size]
  split
  · exact ⟨rfl,held⟩
  · split
    · exact ⟨rfl,held⟩
    · exact ⟨rfl,held⟩
    · rename_i found
      cases found

theorem alike_writeEach {write : α → Run Chunk Unit} (each : ∀ a, Alike BareAlike (write a)) (values : List α) :
    Alike BareAlike (writeEach write values) := by
  induction values with
  | nil => exact alike_pure ()
  | cons value rest ih => exact alike_bind (each value) fun _ => ih

theorem alike_writeCounted (write : α → Run Chunk Unit) (array : Option (List α)) (count : Nat) :
    Alike BareAlike (writeCounted around write array count) := by
  cases array with
  | none =>
    unfold writeCounted
    dsimp only
    split
    · exact alike_stop _
    · exact (writeWords_bare _).alike
  | some values => exact ((writeWords_bare _).bind _).alike

theorem alike_writeSubChunk : Alike BareAlike (do
    setOption optionChn
    let chunks ← Action.read Chunk.chunks
    fail .nomem (if chunks.isEmpty then "Failed to allocate chunks list" else "Failed to grow chunks list") :
      Run Chunk Unit) := by
  refine alike_bind (alike_setOption _) fun _ c d held => ?_
  rw [Action.bind_ok _ (Action.read_apply _ _),Action.bind_ok _ (Action.read_apply _ _),held.chunks]
  exact ⟨rfl,held⟩

theorem alike_performBare (edit : ChunkEdit) (accesses : edit.accesses = true) :
    Alike BareAlike (edit.performBare miniz around) := by
  cases edit with
  | startRead | startWrite => exact alike_stop _
  | close => exact alike_pure ()
  | clear => exact alike_clear
  | setDataVersion version => exact alike_words _ (fun _ idle => idle) (fun _ => rfl) fun _ => rfl
  | goto pos => exact alike_goto pos
  | skip dwords =>
    have stops : StopsBare (chunkSkip dwords) (.error .invalidState "No parser state") := by
      intro c idle
      simp only [chunkSkip,idle]
    exact stops.alike
  | checkSize needed => exact (checkSize_bare needed).alike
  | writeByte | writeWord | writeInt | writeDword | writeFloat | writeGuid => exact (writeWords_bare _).alike
  | writeString | writeBuffer | writeObjectId | writeObjectSequenceItem | writeManagerInt =>
    exact ((checkSize_bare _).bind _).alike
  | writeBufferNoSize data size =>
    simp only [ChunkEdit.performBare,ChunkEdit.perform,chunkWriteBufferNoSize]
    split
    · exact alike_pure ()
    · exact ((checkSize_bare _).bind _).alike
  | writeObjectSequenceStart | startSubChunkSequence =>
    exact alike_bind (alike_setOption _) fun _ => (writeWords_bare _).alike
  | startManagerSequence => exact alike_bind (alike_setOption _) fun _ => ((writeWords_bare _).bind _).alike
  | writeIdentifier | writeArray => exact ((writeWords_bare _).bind _).alike
  | seekIdentifier id => exact alike_seekIdentifier id
  | writeIntArray | writeFloatArray | writeDwordArray | writeByteArray | writeStringArray | writeObjectIdArray =>
    exact alike_writeCounted _ _ _
  | writeFloats floats => exact alike_writeEach (fun _ => (writeWords_bare _).alike) floats
  | writeSubChunk sub => exact alike_writeSubChunk
  | addSubChunk | compress | compressIfBeneficial | decompress | remapObjectIds => cases accesses

theorem alike_call (call : ExchangeCall) : Alike BareAlike call.run := by
  have reads {α : Type} (action : List UInt32 → List UInt32 → Run Nat α) : Alike BareAlike (onPosition action) := by
    intro c d held
    simp only [onPosition,held.left,held.right]
    exact ⟨trivial,held⟩
  cases call with
  | read call => exact reads call.read
  | readIdentifier =>
    refine alike_bind (alike_bind (reads _) fun id => alike_bind ?_ fun _ => alike_pure id) fun id => alike_pure _
    refine alike_words _ (fun c idle => ?_) (fun _ => rfl) fun _ => rfl
    simp only [idle]
    rfl
  | seekIdentifier id => exact alike_bind (alike_seekIdentifier id) fun _ => alike_pure _

theorem alike_access (access : ChunkAccess) : Alike BareAlike (access.perform miniz false) := by
  cases access with
  | edit around change accesses => exact alike_bind (alike_performBare change accesses) fun _ => alike_pure _
  | call call => exact alike_bind (alike_call call) fun _ => alike_pure _

theorem chunkUnpackBare_apply (unsized : c.unpackSize = 0) : chunkUnpackBare.run c =
    (if hasFlag c.chunkOptions optionPacked then .error (.error .invalidState "No unpack size specified") else .ok (),c) := by
  cases packed : hasFlag c.chunkOptions optionPacked with
  | true =>
    simp only [chunkUnpackBare,unsized,packed]
    rfl
  | false =>
    simp only [chunkUnpackBare,packed]
    rfl

theorem bareAlike_chunkClone (idle : c.parserState = none) : BareAlike c (chunkClone c) where
  left := idle
  right := by rw [chunkClone_eq]
  words := (chunkClone_words c).symm
  chunks := by
    rw [chunkClone_eq]
    cases c.chunks <;> rfl

end Bare

section
variable {miniz : Miniz}

theorem clonesTo_bare (h : HeldChunk) (none : h.arena = false) : ClonesTo miniz h := by
  obtain ⟨idle,unsized⟩ := h.bare none
  have options : (chunkClone h.chunk).chunkOptions = h.chunk.chunkOptions := by rw [chunkClone_eq]
  have sizes : (chunkClone h.chunk).unpackSize = 0 := by rw [chunkClone_eq]
  rw [ClonesTo,none]
  constructor
  case nested => exact chunkSerialize_chunkClone h.chunk
  case flat => exact chunkSerializeVersion1_chunkClone h.chunk
  case unpacks =>
    change (chunkUnpackBare.run _).1 = (chunkUnpackBare.run _).1
    rw [chunkUnpackBare_apply sizes,chunkUnpackBare_apply unsized,options]
  case unpacked =>
    change (chunkUnpackBare.run _).2.words = (chunkUnpackBare.run _).2.words
    rw [chunkUnpackBare_apply sizes,chunkUnpackBare_apply unsized]
    exact chunkClone_words h.chunk
  case accesses =>
    intro accesses
    have each : ∀ action ∈ accesses.map (ChunkAccess.perform miniz false), Alike BareAlike action := by
      intro action member
      obtain ⟨access,_,rfl⟩ := List.mem_map.mp member
      exact alike_access access
    exact (outcomes_alike _ each (bareAlike_chunkClone idle)).symm

/-- The first read of a clone fails, where that of a chunk with an arena succeeds. -/
theorem not_clonesTo_arena (h : HeldChunk) (some : h.arena = true) : ¬ ClonesTo miniz h := by
  intro same
  rw [ClonesTo,some] at same
  have started := same.accesses [.edit {} .startRead rfl]
  cases started

theorem clonesTo_iff (h : HeldChunk) : ClonesTo miniz h ↔ h.arena = false := by
  cases arena : h.arena with
  | true => exact iff_of_false (not_clonesTo_arena h arena) (by simp)
  | false => exact iff_of_true (clonesTo_bare h arena) rfl

/-- The clone of a packed chunk is packed and does not know the size of what it packs. -/
theorem chunkClone_packed {c : Chunk} (packed : hasFlag c.chunkOptions optionPacked = true) :
    (chunkUnpackBare.run (chunkClone c)).1 = .error (.error .invalidState "No unpack size specified") := by
  have options : (chunkClone c).chunkOptions = c.chunkOptions := by rw [chunkClone_eq]
  rw [chunkUnpackBare_apply (by rw [chunkClone_eq]),options,if_pos packed]

end

/-- A chunk as `nmo_chunk_create` made it. -/
def createdChunk : HeldChunk := ⟨chunkCreate,true,nofun⟩

theorem createdChunk_not_cloned : ¬ ClonesTo storedMiniz createdChunk := not_clonesTo_arena createdChunk rfl

end Libnmo.Format
