import Libnmo.Format.ChunkClone
import Libnmo.Format.ChunkPool
import Libnmo.Format.ChunkRoom
import Libnmo.Format.ParseRemains
import Libnmo.Format.PositionBounds
import Libnmo.Format.WrittenIds

/-! The check that there is room for a write. The buffer grows by doublings that wrap, so
whether the loop ends depends on the capacity it starts from. A chunk that was never
started for writing has a capacity of zero, and zero stays zero. -/
namespace Libnmo.Format
open Core Lib Lib.Cursor

/-- Some doubling of the capacity reaches the size, before the products wrap to nothing. -/
def Doubles (capacity required : Nat) : Prop := ∃ k, required ≤ capacity * 2 ^ (k + 1) % 2 ^ 64

section Growing
variable {rounds capacity required grown : Nat}

theorem growCapacity_reaches (small : capacity < 2 ^ 64) :
    (∃ grown, growCapacity rounds capacity required = some grown) ↔
      ∃ k < rounds, required ≤ capacity * 2 ^ k % 2 ^ 64 := by
  induction rounds generalizing capacity with
  | zero => simp [growCapacity]
  | succ rounds ih =>
    by_cases fits : required ≤ capacity
    · refine iff_of_true ⟨capacity,if_pos fits⟩ ⟨0,Nat.zero_lt_succ _,?_⟩
      rwa [Nat.pow_zero,Nat.mul_one,Nat.mod_eq_of_lt small]
    · have doubled (k : Nat) : capacity * 2 % 2 ^ 64 * 2 ^ k % 2 ^ 64 = capacity * 2 ^ (k + 1) % 2 ^ 64 := by
        rw [Nat.mod_mul_mod,Nat.mul_assoc,← Nat.pow_succ']
      rw [growCapacity,if_neg fits,ih (Nat.mod_lt _ (by decide))]
      constructor
      · rintro ⟨k,within,reached⟩
        exact ⟨k + 1,Nat.succ_lt_succ within,doubled k ▸ reached⟩
      · rintro ⟨k,within,reached⟩
        cases k with
        | zero => exact absurd (by rwa [Nat.pow_zero,Nat.mul_one,Nat.mod_eq_of_lt small] at reached) fits
        | succ k => exact ⟨k,Nat.lt_of_succ_lt_succ within,(doubled k).symm ▸ reached⟩

/-- Sixty-six rounds see every value that the doublings take. -/
theorem growCapacity_doubles :
    (∃ grown, growCapacity 66 (capacity * 2 % 2 ^ 64) required = some grown) ↔ Doubles capacity required := by
  have doubled (k : Nat) : capacity * 2 % 2 ^ 64 * 2 ^ k % 2 ^ 64 = capacity * 2 ^ (k + 1) % 2 ^ 64 := by
    rw [Nat.mod_mul_mod,Nat.mul_assoc,← Nat.pow_succ']
  rw [growCapacity_reaches (Nat.mod_lt _ (by decide))]
  constructor
  · rintro ⟨k,_,reached⟩
    exact ⟨k,doubled k ▸ reached⟩
  · rintro ⟨k,reached⟩
    by_cases within : k < 66
    · exact ⟨k,within,(doubled k).symm ▸ reached⟩
    · refine ⟨0,by decide,?_⟩
      have wrapped : capacity * 2 ^ (k + 1) % 2 ^ 64 = 0 := by
        refine Nat.mod_eq_zero_of_dvd (Nat.dvd_mul_left_of_dvd ?_ _)
        exact Nat.pow_dvd_pow 2 (by omega)
      omega

theorem growCapacity_some (run : growCapacity rounds capacity required = some grown) : required ≤ grown := by
  induction rounds generalizing capacity with
  | zero => cases run
  | succ rounds ih =>
    rw [growCapacity] at run
    split at run
    · rename_i fits
      cases run
      exact fits
    · exact ih run

end Growing

/-- The check comes back, and where it succeeds there is room for the words at the position. -/
def ChecksSize (around : Surroundings) (needed : Nat) (c : Chunk) : Prop :=
  match (chunkCheckSize around needed).run c with
  | (.ok (),c') => chunkGetPosition c' + needed ≤ c'.dataCapacity
  | (.error .endless,_) => False
  | (.error _,_) => True

/-- There is room, or the wrapped sum is more than there is and some doubling reaches it. -/
def RoomReached (needed : Nat) (c : Chunk) : Prop :=
  ∀ state ∈ c.parserState, state.currentPos + needed ≤ c.dataCapacity ∨
    c.dataCapacity < (state.currentPos + needed) % 2 ^ 64 ∧
      Doubles c.dataCapacity ((state.currentPos + needed) % 2 ^ 64)

/-- A null pointer has no capacity. -/
def Allocated (c : Chunk) : Prop := c.data = none → c.spare = []

section Checks
variable {around : Surroundings} {needed : Nat} {c : Chunk} {state : ParserState}

theorem checkSize_enough (held : c.parserState = some state)
    (room : (state.currentPos + needed) % 2 ^ 64 ≤ c.dataCapacity) :
    (chunkCheckSize around needed).run c = (.ok (),c) := by
  simp only [chunkCheckSize,held,if_pos room]

theorem checkSize_endless (held : c.parserState = some state)
    (room : ¬ (state.currentPos + needed) % 2 ^ 64 ≤ c.dataCapacity)
    (never : ¬ Doubles c.dataCapacity ((state.currentPos + needed) % 2 ^ 64)) :
    (chunkCheckSize around needed).run c = (.error .endless,c) := by
  have none : growCapacity 66 (c.dataCapacity * 2 % 2 ^ 64) ((state.currentPos + needed) % 2 ^ 64) = none := by
    rw [Option.eq_none_iff_forall_ne_some]
    exact fun grown run => never (growCapacity_doubles.mp ⟨grown,run⟩)
  simp only [chunkCheckSize,held,if_neg room,none]

/-- A growth that ends comes to an error, or to a larger buffer with the words before the position. -/
theorem checkSize_grown (held : c.parserState = some state)
    (room : ¬ (state.currentPos + needed) % 2 ^ 64 ≤ c.dataCapacity)
    (reached : Doubles c.dataCapacity ((state.currentPos + needed) % 2 ^ 64)) :
    ∃ capacity, (state.currentPos + needed) % 2 ^ 64 ≤ capacity ∧
      ((chunkCheckSize around needed).run c = (.error (.error .nomem "Failed to grow chunk buffer"),c) ∨
        c.dataCapacity < state.currentPos ∧ c.data.isSome ∧
          (chunkCheckSize around needed).run c = (.error (.overread c.dataCapacity),c) ∨
        ¬ (c.dataCapacity < state.currentPos ∧ c.data.isSome) ∧ capacity < 2 ^ 62 ∧
          ∃ fresh, (c.buffer.take state.currentPos ++ fresh).length = capacity ∧
            (chunkCheckSize around needed).run c =
              (.ok (),c.replaceBuffer (c.buffer.take state.currentPos ++ fresh) c.dataSize)) := by
  obtain ⟨capacity,run⟩ := growCapacity_doubles.mpr reached
  have above := growCapacity_some run
  refine ⟨capacity,above,?_⟩
  simp only [chunkCheckSize,held,if_neg room,run]
  by_cases large : 2 ^ 62 ≤ capacity
  · exact .inl (if_pos large)
  · rw [if_neg large]
    by_cases behind : c.dataCapacity < state.currentPos ∧ c.data.isSome
    · exact .inr (.inl ⟨behind.1,behind.2,if_pos behind⟩)
    · rw [if_neg behind]
      refine .inr (.inr ⟨behind,Nat.not_le.mp large,_,?_,rfl⟩)
      have kept : (c.buffer.take state.currentPos).length ≤ c.dataCapacity := by
        rw [List.length_take,length_buffer]
        exact Nat.min_le_right _ _
      rw [List.length_append,List.length_map,List.length_range']
      omega

theorem checksSize_iff (allocated : Allocated c) (word : needed < 2 ^ 64) :
    ChecksSize around needed c ↔ RoomReached needed c := by
  cases held : c.parserState with
  | none =>
    refine iff_of_true ?_ (by simp [RoomReached,held])
    have run := @checkSize_bare around needed c held
    rw [ChecksSize,run]
    trivial
  | some state =>
    have only : RoomReached needed c ↔ state.currentPos + needed ≤ c.dataCapacity ∨
        c.dataCapacity < (state.currentPos + needed) % 2 ^ 64 ∧
          Doubles c.dataCapacity ((state.currentPos + needed) % 2 ^ 64) := by
      simp [RoomReached,held]
    have place : chunkGetPosition c = state.currentPos := by rw [chunkGetPosition,held]; rfl
    rw [only]
    by_cases room : (state.currentPos + needed) % 2 ^ 64 ≤ c.dataCapacity
    · rw [ChecksSize,checkSize_enough held room,or_iff_left (fun grows => Nat.not_le.mpr grows.1 room),← place]
    · by_cases reached : Doubles c.dataCapacity ((state.currentPos + needed) % 2 ^ 64)
      · refine iff_of_true ?_ (.inr ⟨Nat.not_le.mp room,reached⟩)
        obtain ⟨capacity,above,refused | ⟨_,_,behind⟩ | ⟨inside,small,fresh,length,run⟩⟩ :=
          @checkSize_grown around _ _ _ held room reached
        · rw [ChecksSize,refused]
          trivial
        · rw [ChecksSize,behind]
          trivial
        · rw [ChecksSize,run]
          change chunkGetPosition c + needed ≤ _
          rw [dataCapacity_replaceBuffer,length,place]
          -- a sum that wraps is more than the capacity only for a position behind the buffer
          by_cases wraps : state.currentPos + needed < 2 ^ 64
          · rwa [Nat.mod_eq_of_lt wraps] at above
          · have beyond : c.dataCapacity < state.currentPos := by omega
            have null : c.data = none := by
              cases data : c.data with
              | none => rfl
              | some words => exact absurd ⟨beyond,by simp [data]⟩ inside
            have empty : c.dataCapacity = 0 := by
              simp [Chunk.dataCapacity,Chunk.dataSize,Chunk.words,null,allocated null]
            rw [empty] at reached room
            obtain ⟨k,within⟩ := reached
            rw [Nat.zero_mul] at within
            omega
      · refine iff_of_false ?_ fun fits => ?_
        · rw [ChecksSize,checkSize_endless held room reached]
          exact id
        · rcases fits with fits | grows
          · exact room ((Nat.mod_le _ _).trans fits)
          · exact reached grows.2

end Checks

/-- The chunks that come of creating, parsing, deserializing, resetting, reading and editing. -/
inductive ChunkReached (miniz : Miniz) : Chunk → Prop
  | created : ChunkReached miniz chunkCreate
  | deserialized {beyond : Nat → UInt32} {buffer : List UInt8} {c : Chunk} (loaded : chunkDeserialize beyond buffer = .ok c) :
    ChunkReached miniz c
  | parsed {c : Chunk} (bytes : List UInt8) (before : ChunkReached miniz c) :
    ChunkReached miniz ((chunkParse bytes).run c).2
  | reset {c : Chunk} (before : ChunkReached miniz c) : ChunkReached miniz (resetChunk c)
  | read {c : Chunk} (call : ReadCall) (before : ChunkReached miniz c) : ChunkReached miniz (call.perform.run c).2
  | edited {c : Chunk} (around : Surroundings) (edit : ChunkEdit) (before : ChunkReached miniz c) :
    ChunkReached miniz ((edit.perform miniz around).run c).2

section Allocating
variable {around : Surroundings} {miniz : Miniz} {c c' : Chunk} {α : Type}

theorem Allocated.same (allocated : Allocated c) (data : c'.data = c.data) (spare : c'.spare = c.spare) :
    Allocated c' := by
  rw [Allocated,data,spare]
  exact allocated

theorem allocated_some {words : List UInt32} (data : c.data = some words) : Allocated c := by
  rw [Allocated,data]
  exact nofun

theorem Allocated.resize (allocated : Allocated c) (size : Nat) : Allocated (c.resize size) := by
  intro null
  have data : c.data = none := Option.map_eq_none_iff.mp null
  simp [Chunk.resize,Chunk.buffer,Chunk.words,data,allocated data]

theorem allocates_update (f : Chunk → Chunk) (same : ∀ c, (f c).data = c.data ∧ (f c).spare = c.spare) :
    Action.Keeps Allocated (Action.update f : Run Chunk Unit) :=
  fun c allocated => allocated.same (same c).1 (same c).2

theorem allocates_checkSize (needed : Nat) : Action.Keeps Allocated (chunkCheckSize around needed) := by
  intro c allocated
  rw [chunkCheckSize]
  dsimp only
  split
  · exact allocated
  · split
    · exact allocated
    · split
      · exact allocated
      · split
        · exact allocated
        · split
          · exact allocated
          · exact allocated_some rfl

theorem allocates_storeWords (words : List UInt32) : Action.Keeps Allocated (storeWords words) := by
  intro c allocated
  rw [storeWords]
  dsimp only
  split
  · exact allocated
  · split
    · exact allocated_some rfl
    · exact allocated

theorem allocates_storeBytes (source : List UInt8) (size : Nat) : Action.Keeps Allocated (storeBytes source size) := by
  intro c allocated
  rw [storeBytes]
  dsimp only
  split
  · exact allocated
  · split
    · exact allocated
    · exact allocates_storeWords _ c allocated

theorem allocates_writeWords (words : List UInt32) : Action.Keeps Allocated (writeWords around words) :=
  Action.keeps_bind (allocates_checkSize _) fun _ => allocates_storeWords words

theorem allocates_setOption (option : UInt32) : Action.Keeps Allocated (setOption option) :=
  allocates_update _ fun _ => ⟨rfl,rfl⟩

theorem allocates_writeString (str : Option (List UInt8)) : Action.Keeps Allocated (chunkWriteString around str) :=
  Action.keeps_bind (allocates_checkSize _) fun _ =>
    Action.keeps_bind (allocates_storeWords _) fun _ => allocates_storeBytes _ _

theorem allocates_writeBuffer (data : Option (List UInt8)) (size : Nat) :
    Action.Keeps Allocated (chunkWriteBuffer around data size) := by
  refine Action.keeps_bind (allocates_checkSize _) fun _ => Action.keeps_bind (allocates_storeWords _) fun _ => ?_
  cases data with
  | none => exact Action.keeps_pure ()
  | some source => exact allocates_storeBytes source size

theorem allocates_writeBufferNoSize (data : List UInt8) (size : Nat) :
    Action.Keeps Allocated (chunkWriteBufferNoSize around data size) := by
  unfold chunkWriteBufferNoSize
  split
  · exact Action.keeps_pure ()
  · exact Action.keeps_bind (allocates_checkSize _) fun _ => allocates_storeBytes _ _

theorem allocates_writeObjectId (id : UInt32) : Action.Keeps Allocated (chunkWriteObjectId around id) := by
  refine Action.keeps_bind (allocates_checkSize _) fun _ => Action.keeps_bind ?_ fun _ => allocates_storeWords _
  split
  · exact allocates_update _ fun _ => ⟨rfl,rfl⟩
  · exact Action.keeps_pure ()

theorem allocates_writeCounted {write : α → Run Chunk Unit} (each : ∀ a, Action.Keeps Allocated (write a))
    (array : Option (List α)) (count : Nat) : Action.Keeps Allocated (writeCounted around write array count) := by
  cases array with
  | none =>
    unfold writeCounted
    dsimp only
    split
    · exact Action.keeps_stop _
    · exact allocates_writeWords _
  | some values =>
    refine Action.keeps_bind (allocates_writeWords _) fun _ =>
      Action.keeps_bind (KeptByWrites.writeEach each _) fun _ => ?_
    split
    · exact Action.keeps_stop _
    · exact Action.keeps_pure ()

theorem allocates_writeSubChunk (sub : Chunk) : Action.Keeps Allocated (chunkWriteSubChunk around sub) := by
  refine Action.keeps_bind (allocates_update _ fun _ => ⟨rfl,rfl⟩) fun _ =>
    Action.keeps_bind (Action.keeps_read _) fun state => ?_
  cases state with
  | none => exact Action.keeps_stop _
  | some state =>
    refine Action.keeps_bind ?_ fun _ => allocates_update _ fun _ => ⟨rfl,rfl⟩
    unfold writeSubChunkWords
    repeat first
      | exact allocates_writeBufferNoSize _ _
      | refine Action.keeps_bind (allocates_writeWords _) fun _ => ?_
      | refine Action.keeps_bind (allocates_writeBufferNoSize _ _) fun _ => ?_

theorem allocates_startWrite : Action.Keeps Allocated (chunkStartWrite around) := by
  refine Action.keeps_bind (allocates_update _ fun _ => ⟨rfl,rfl⟩) fun _ =>
    Action.keeps_bind (Action.keeps_update _ fun _ allocated => ?_) fun _ => Action.keeps_update _ fun _ allocated => ?_
  · exact Allocated.resize (allocated.same rfl rfl) 0
  · split
    · exact allocated_some rfl
    · exact allocated

theorem allocates_close : Action.Keeps Allocated chunkClose := by
  refine Action.keeps_bind (allocates_update _ fun _ => ⟨rfl,rfl⟩) fun _ => ?_
  intro c allocated
  dsimp only
  split
  · split
    · exact allocated
    · split
      · exact allocated.resize _
      · exact allocated
  · exact allocated

theorem allocates_clear : Action.Keeps Allocated chunkClear :=
  Action.keeps_update _ fun _ allocated => (allocated.resize 0).same rfl rfl

/-- A call that changes no more than the parser state. -/
theorem allocates_moving {action : Run Chunk α}
    (same : ∀ c, (action.run c).2.data = c.data ∧ (action.run c).2.spare = c.spare) : Action.Keeps Allocated action :=
  fun c allocated => allocated.same (same c).1 (same c).2

theorem moving_goto (pos : Nat) (c : Chunk) :
    ((chunkGoto pos).run c).2.data = c.data ∧ ((chunkGoto pos).run c).2.spare = c.spare := by
  rw [chunkGoto]
  dsimp only
  split
  · exact ⟨rfl,rfl⟩
  · split <;> exact ⟨rfl,rfl⟩

theorem moving_skip (dwords : Nat) (c : Chunk) :
    ((chunkSkip dwords).run c).2.data = c.data ∧ ((chunkSkip dwords).run c).2.spare = c.spare := by
  rw [chunkSkip]
  dsimp only
  split
  · exact ⟨rfl,rfl⟩
  · split <;> exact ⟨rfl,rfl⟩

theorem moving_seekIdentifier (id : UInt32) (c : Chunk) :
    ((chunkSeekIdentifier id).run c).2.data = c.data ∧ ((chunkSeekIdentifier id).run c).2.spare = c.spare := by
  rw [chunkSeekIdentifier]
  dsimp only
  split
  · exact ⟨rfl,rfl⟩
  · split <;> exact ⟨rfl,rfl⟩

theorem allocates_compress (level : Int) : Action.Keeps Allocated (chunkCompress miniz level) := by
  refine Action.keeps_bind (Action.keeps_read id) fun c => ?_
  split
  · exact Action.keeps_pure ()
  · split
    · exact Action.keeps_pure ()
    · refine Action.keeps_bind (Action.keeps_lift _) fun compressed => ?_
      split
      · exact Action.keeps_pure ()
      · exact Action.keeps_update _ fun _ _ => allocated_some rfl

theorem allocates_compressIfBeneficial (level : Int) (minRatio : MinRatio) :
    Action.Keeps Allocated (chunkCompressIfBeneficial miniz level minRatio) := by
  refine Action.keeps_bind (Action.keeps_read id) fun c => ?_
  split
  · exact Action.keeps_stop _
  · split
    · exact Action.keeps_pure ()
    · split
      · exact Action.keeps_pure ()
      · refine Action.keeps_bind (Action.keeps_lift _) fun compressed => ?_
        split
        · exact Action.keeps_pure ()
        · split
          · exact Action.keeps_update _ fun _ _ => allocated_some rfl
          · exact Action.keeps_pure ()

theorem allocates_decompress : Action.Keeps Allocated (chunkDecompress miniz) := by
  intro c allocated
  rw [chunkDecompress]
  dsimp only
  split
  · exact allocated
  · split
    · exact allocated
    · split
      · exact allocated
      · split
        · exact allocated
        · exact allocated_some rfl

theorem null_remapped (remap : IdRemap) (data : Option (List UInt32)) (ids : List UInt32) (c : Chunk)
    (null : (remapObjectIdsRecursive remap data ids c).2.data = none) :
    data = none ∧ (remapObjectIdsRecursive remap data ids c).2.spare = c.spare := by
  cases c
  simp only [remapObjectIdsRecursive] at null ⊢
  split
  · rename_i old
    rw [if_pos old] at null
    exact ⟨null,rfl⟩
  · rename_i known
    rw [if_neg known] at null
    cases data with
    | none => exact ⟨rfl,rfl⟩
    | some words => cases null

theorem allocates_remap (remap : IdRemap) : Action.Keeps Allocated (chunkRemapObjectIds remap) := by
  intro c allocated null
  obtain ⟨data,spare⟩ := null_remapped remap c.data c.ids c null
  exact spare.trans (allocated data)

theorem allocates_edit (edit : ChunkEdit) : Action.Keeps Allocated (edit.perform miniz around) := by
  cases edit with
  | startRead | setDataVersion | addSubChunk => exact allocates_update _ fun _ => ⟨rfl,rfl⟩
  | startWrite => exact allocates_startWrite
  | close => exact allocates_close
  | clear => exact allocates_clear
  | goto pos => exact allocates_moving (moving_goto pos)
  | skip dwords => exact allocates_moving (moving_skip dwords)
  | seekIdentifier id => exact allocates_moving (moving_seekIdentifier id)
  | checkSize needed => exact allocates_checkSize needed
  | writeByte | writeWord | writeInt | writeDword | writeFloat | writeGuid => exact allocates_writeWords _
  | writeString str => exact allocates_writeString str
  | writeBuffer data size => exact allocates_writeBuffer data size
  | writeBufferNoSize data size => exact allocates_writeBufferNoSize data size
  | writeObjectId id | writeObjectSequenceItem id => exact allocates_writeObjectId id
  | writeObjectSequenceStart count | startSubChunkSequence count =>
    exact Action.keeps_bind (allocates_setOption _) fun _ => allocates_writeWords _
  | startManagerSequence managerGuid count =>
    exact Action.keeps_bind (allocates_setOption _) fun _ =>
      Action.keeps_bind (allocates_writeWords _) fun _ => allocates_writeWords _
  | writeManagerInt managerGuid value =>
    exact Action.keeps_bind (allocates_checkSize _) fun _ =>
      Action.keeps_bind (allocates_update _ fun _ => ⟨rfl,rfl⟩) fun _ => allocates_storeWords _
  | writeIdentifier id => exact Action.keeps_bind (allocates_writeWords _) fun _ => allocates_update _ fun _ => ⟨rfl,rfl⟩
  | writeIntArray | writeFloatArray | writeDwordArray | writeByteArray =>
    exact allocates_writeCounted (fun _ => allocates_writeWords _) _ _
  | writeStringArray strings count => exact allocates_writeCounted allocates_writeString strings count
  | writeObjectIdArray ids count => exact allocates_writeCounted allocates_writeObjectId ids count
  | writeArray array count elemSize =>
    exact Action.keeps_bind (allocates_writeWords _) fun _ =>
      Action.keeps_bind (allocates_writeWords _) fun _ => allocates_writeBufferNoSize _ _
  | writeFloats floats => exact KeptByWrites.writeEach (fun _ => allocates_writeWords _) floats
  | writeSubChunk sub => exact allocates_writeSubChunk sub
  | compress level => exact allocates_compress level
  | compressIfBeneficial level minRatio => exact allocates_compressIfBeneficial level minRatio
  | decompress => exact allocates_decompress
  | remapObjectIds remap => exact allocates_remap remap

theorem moving_position (action : List UInt32 → List UInt32 → Run Nat α) (c : Chunk) :
    ((onPosition action).run c).2.data = c.data ∧ ((onPosition action).run c).2.spare = c.spare := by
  rw [onPosition]
  dsimp only
  split <;> exact ⟨rfl,rfl⟩

/-- A reading call changes no more than the parser state. -/
theorem moving_read (call : ReadCall) (c : Chunk) :
    (call.perform.run c).2.data = c.data ∧ (call.perform.run c).2.spare = c.spare := by
  cases call with
  | startRead => exact ⟨rfl,rfl⟩
  | goto pos => exact moving_goto pos c
  | skip dwords => exact moving_skip dwords c
  | typed | stringArray | array | fillBuffer | mapBytes =>
    rw [ReadCall.perform,discarded,map_state]
    exact moving_position _ c
  | seekIdentifier id => exact moving_seekIdentifier id c
  | identifier =>
    rw [ReadCall.perform,discarded,map_state]
    have read (c : Chunk) : Action.Keeps (fun c' => c'.data = c.data ∧ c'.spare = c.spare) chunkReadIdentifier := by
      refine Action.keeps_bind (fun c' same => ?_) fun id => Action.keeps_bind (fun c' same => same) fun _ => Action.keeps_pure id
      obtain ⟨data,spare⟩ := moving_position (fun data _ => requireWords data 1 "Cannot read beyond data" >>= fun _ => nextWord data) c'
      exact ⟨data.trans same.1,spare.trans same.2⟩
    exact read c c ⟨rfl,rfl⟩

theorem allocated_remains (buf : List UInt32) (allocated : Allocated c) : Allocated (remains buf c) := by
  have data : Allocated (landIn storeData buf (declared buf).data (headedBy buf c)) := by
    rw [landIn]
    split
    · exact allocated_some rfl
    · exact allocated.same rfl rfl
  rw [remains,listsIn]
  simp only [Function.comp_apply,landIn_managers,landIn_chunkRefs,landIn_ids]
  exact data.same rfl rfl

theorem allocates_parse (bytes : List UInt8) : Action.Keeps Allocated (chunkParse bytes) := by
  intro c allocated
  by_cases filled : bytes.length = 0
  · rw [chunkParse]
    dsimp only
    rw [if_pos filled]
    exact allocated
  · rw [chunkParse_remains bytes filled]
    exact allocated_remains _ (allocated.same rfl rfl)

theorem allocated_reset (allocated : Allocated c) : Allocated (resetChunk c) := by
  intro null
  have data : c.data = none := Option.map_eq_none_iff.mp null
  have empty : c.dataCapacity = 0 := by
    simp [Chunk.dataCapacity,Chunk.dataSize,Chunk.words,data,allocated data]
  rw [resetChunk]
  dsimp only
  rw [empty]
  rfl

theorem allocated_deserialized {beyond : Nat → UInt32} {buffer : List UInt8} (loaded : chunkDeserialize beyond buffer = .ok c) :
    Allocated c := by
  rw [chunkDeserialize] at loaded
  split at loaded
  · cases loaded
  · rename_i enough
    obtain ⟨fuel,same⟩ : ∃ fuel, buffer.length = fuel + 1 := ⟨buffer.length - 1,by omega⟩
    rw [same] at loaded
    cases run : (chunkDeserializeInternal beyond buffer (fuel + 1)).run 0 with
    | mk outcome pos =>
      rw [run] at loaded
      obtain rfl : outcome = .ok c := loaded
      rw [chunkDeserializeInternal] at run
      obtain ⟨versionInfo,_,_,run⟩ := Action.bind_success run
      obtain ⟨size,_,_,run⟩ := Action.bind_success run
      obtain ⟨data,_,_,run⟩ := Action.bind_success run
      obtain ⟨ids,_,_,run⟩ := Action.bind_success run
      obtain ⟨chunks,_,_,run⟩ := Action.bind_success run
      obtain ⟨managers,_,_,run⟩ := Action.bind_success run
      cases run
      exact fun _ => rfl

theorem allocated_reached (reached : ChunkReached miniz c) : Allocated c := by
  induction reached with
  | created => exact fun _ => rfl
  | deserialized loaded => exact allocated_deserialized loaded
  | parsed bytes _ ih => exact allocates_parse bytes _ ih
  | reset _ ih => exact allocated_reset ih
  | read call _ ih => exact allocates_moving (moving_read call) _ ih
  | edited around edit _ ih => exact allocates_edit edit _ ih

end Allocating

/-- In every chunk reached, a check for so many words comes back, and with the room where it succeeds, exactly
when there is room or some doubling of the capacity reaches the wrapped sum. -/
theorem checkSize_reached (miniz : Miniz) (around : Surroundings) (c : Chunk) (reached : ChunkReached miniz c)
    (needed : UInt64) : ChecksSize around needed.toNat c ↔ RoomReached needed.toNat c :=
  checksSize_iff (allocated_reached reached) needed.toNat_lt

/-- A new chunk that is started for reading has no capacity to double. -/
theorem checkSize_unstarted :
    ChunkReached noMiniz (chunkStartRead.run chunkCreate).2 ∧
      ((chunkCheckSize {} 1).run (chunkStartRead.run chunkCreate).2).1 = .error .endless ∧
      ¬ ChecksSize {} 1 (chunkStartRead.run chunkCreate).2 := by
  refine ⟨.read .startRead .created,rfl,id⟩

theorem checkSize_reached_started : ChecksSize {} (UInt64.ofNat 1).toNat (chunkStartRead.run chunkCreate).2 ↔
    RoomReached (UInt64.ofNat 1).toNat (chunkStartRead.run chunkCreate).2 :=
  checkSize_reached noMiniz {} _ (.read .startRead .created) 1

end Libnmo.Format
