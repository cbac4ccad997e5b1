import Libnmo.Core.Arena
import Libnmo.Lib.Cursor
import Mathlib.Data.List.Nodup

/-! The blocks of an arena. They lie apart and inside their chunks as long as no
rounding and no size wraps, and no request meets a chunk whose fill rounds up past its
end: the room left there wraps to nearly all of memory. -/
namespace Libnmo.Core
open Lib

/-- A block lies in the memory of a chunk behind its header, within its size. -/
def ArenaBlock.Inside (block : ArenaBlock) (chunk : ArenaChunk) : Prop :=
  chunk.number = block.chunk ∧ block.offset.toNat + block.size.toNat ≤ chunk.size.toNat ∧
    sizeofArenaChunk.toNat + (block.offset.toNat + block.size.toNat) ≤ chunk.memory.toNat

def ArenaBlock.Separate (block other : ArenaBlock) : Prop :=
  block.chunk = other.chunk → block.offset.toNat + block.size.toNat ≤ other.offset.toNat ∨
    other.offset.toNat + other.size.toNat ≤ block.offset.toNat

/-- Every block lies inside one of the chunks, and apart from every other. -/
def BlocksApart (arena : Arena) (blocks : List ArenaBlock) : Prop :=
  (∀ block ∈ blocks, ∃ chunk ∈ arena.chunks, block.Inside chunk) ∧ blocks.Pairwise ArenaBlock.Separate

inductive ArenaRequest
  | alloc (size alignment : UInt64)
  | reset
  | reserve (totalSize : UInt64)

/-- A request, with the blocks that have been returned since the last reset. -/
def arenaStep : ArenaRequest → Arena × List ArenaBlock → Arena × List ArenaBlock
  | .alloc size alignment,(arena,blocks) =>
    let out := arenaAlloc size alignment arena
    (out.2,blocks ++ out.1.toList)
  | .reset,(arena,_) => (arenaReset arena,[])
  | .reserve totalSize,(arena,blocks) => (((arenaReserve totalSize).run arena).2,blocks)

/-- A request that is not rejected meets a chunk with room for its rounded offset, or gets a chunk of its own.
No rounding and no size of a chunk wraps. -/
def AllocFine (arena : Arena) (size alignment : UInt64) : Prop :=
  size ≠ 0 → ¬ (alignment > 0 ∧ alignment &&& (alignment - 1) ≠ 0) → ∀ chunk, arena.chunks[arena.current]? = some chunk →
    let alignment := arena.effectiveAlignment alignment
    chunk.used.toNat + alignment.toNat ≤ 2 ^ 64 ∧
      if chunk.size - alignUp chunk.used alignment < size then
        (size > arena.grownSize → size.toNat + alignment.toNat ≤ 2 ^ 64) ∧
          sizeofArenaChunk.toNat + (arena.newChunkSize size alignment).toNat < 2 ^ 64
      else alignUp chunk.used alignment ≤ chunk.size

def RequestFine (state : Arena × List ArenaBlock) : ArenaRequest → Prop
  | .alloc size alignment => AllocFine state.1 size alignment
  | _ => True

def arenaRun : List ArenaRequest → Arena × List ArenaBlock → Arena × List ArenaBlock
  | [],state => state
  | request :: requests,state => arenaRun requests (arenaStep request state)

def RequestsFine : List ArenaRequest → Arena × List ArenaBlock → Prop
  | [],_ => True
  | request :: requests,state => RequestFine state request ∧ RequestsFine requests (arenaStep request state)

section Rounding
variable {value alignment : UInt64}

/-- A word is what a mask leaves of it and what the mask takes. -/
theorem toNat_mask (word mask : UInt64) : word.toNat = (word &&& ~~~mask).toNat + (word &&& mask).toNat := by
  have apart : (word.toBitVec &&& ~~~mask.toBitVec) &&& (word.toBitVec &&& mask.toBitVec) = 0#64 := by
    ext i
    simp
    grind
  have parts : (word.toBitVec &&& ~~~mask.toBitVec) + (word.toBitVec &&& mask.toBitVec) = word.toBitVec := by
    rw [BitVec.add_eq_or_of_and_eq_zero _ _ apart]
    ext i
    simp
    grind
  have sum := BitVec.toNat_add_of_and_eq_zero apart
  rw [parts] at sum
  exact sum

/-- Rounding up does not go down, unless it wraps. -/
theorem le_alignUp (some : alignment ≠ 0) (room : value.toNat + alignment.toNat ≤ 2 ^ 64) :
    value.toNat ≤ (alignUp value alignment).toNat := by
  have positive : 0 < alignment.toNat := Nat.pos_of_ne_zero fun zero => some (UInt64.toNat_inj.mp zero)
  have less : (alignment - 1).toNat = alignment.toNat - 1 := by
    rw [UInt64.toNat_sub_of_le _ _ (UInt64.le_iff_toNat_le.mpr (show (1 : UInt64).toNat ≤ _ from positive))]
    rfl
  have sum : (value + alignment - 1).toNat = value.toNat + (alignment.toNat - 1) := by
    rw [UInt64.toNat_sub,UInt64.toNat_add,show (1 : UInt64).toNat = 1 from rfl]
    omega
  have mask := toNat_mask (value + alignment - 1) (alignment - 1)
  have bound : ((value + alignment - 1) &&& (alignment - 1)).toNat ≤ alignment.toNat - 1 := by
    rw [UInt64.toNat_and,less]
    exact Nat.and_le_right
  rw [alignUp]
  omega

end Rounding

/-- What every request keeps of an arena with `current` behind the chunks `before`: the chunks up to the current one
hold the blocks, each in the filled part of its chunk. -/
structure ArenaKept (arena : Arena) (before : List ArenaChunk) (chunk : ArenaChunk) (after : List ArenaChunk)
    (blocks : List ArenaBlock) : Prop where
  chunks : arena.chunks = before ++ chunk :: after
  current : arena.current = before.length
  numbers : (arena.chunks.map ArenaChunk.number).Nodup
  fresh : ∀ number ∈ arena.chunks.map ArenaChunk.number, number < arena.allocations
  filled : ∀ c ∈ before ++ [chunk], c.used.toNat ≤ c.size.toNat ∧
    sizeofArenaChunk.toNat + c.size.toNat = c.memory.toNat
  held : ∀ block ∈ blocks, ∃ c ∈ before ++ [chunk], c.number = block.chunk ∧
    block.offset.toNat + block.size.toNat ≤ c.used.toNat
  separate : blocks.Pairwise ArenaBlock.Separate
  alignment : arena.defaultAlignment ≠ 0

section
variable {arena : Arena} {before after : List ArenaChunk} {chunk : ArenaChunk} {blocks : List ArenaBlock}

theorem ArenaKept.apart (kept : ArenaKept arena before chunk after blocks) : BlocksApart arena blocks := by
  refine ⟨fun block member => ?_,kept.separate⟩
  obtain ⟨c,present,number,inside⟩ := kept.held block member
  obtain ⟨used,memory⟩ := kept.filled c present
  refine ⟨c,?_,number,by omega,by omega⟩
  rw [kept.chunks]
  simp only [List.mem_append,List.mem_cons,List.not_mem_nil,or_false] at present ⊢
  exact present.imp_right .inl

theorem ArenaKept.found (kept : ArenaKept arena before chunk after blocks) :
    arena.chunks[arena.current]? = some chunk := by
  rw [kept.chunks,kept.current]
  simp

/-- A block behind the filled part of the current chunk. -/
theorem ArenaKept.place (kept : ArenaKept arena before chunk after blocks) (offset size : UInt64)
    (behind : chunk.used.toNat ≤ offset.toNat) (inside : offset.toNat + size.toNat ≤ chunk.size.toNat) :
    ∃ chunk', ArenaKept (arena.place chunk.number offset size).2 before chunk' after
      (blocks ++ [⟨chunk.number,offset,size⟩]) := by
  have sum : (offset + size).toNat = offset.toNat + size.toNat := by
    rw [UInt64.toNat_add]
    have bound := chunk.size.toNat_lt
    omega
  have chunks : (arena.place chunk.number offset size).2.chunks = before ++ { chunk with used := offset + size } :: after := by
    rw [Arena.place,kept.chunks,kept.current]
    exact Patch.modify_between ..
  have same : (arena.place chunk.number offset size).2.chunks.map ArenaChunk.number =
      arena.chunks.map ArenaChunk.number := by
    rw [chunks,kept.chunks]
    simp
  refine ⟨_,chunks,kept.current,same ▸ kept.numbers,same ▸ kept.fresh,?_,?_,?_,kept.alignment⟩
  · have filled := kept.filled
    simp only [List.forall_mem_append,List.forall_mem_singleton] at filled ⊢
    exact ⟨filled.1,by omega,filled.2.2⟩
  · rw [List.forall_mem_append,List.forall_mem_singleton]
    refine ⟨fun block member => ?_,_,List.mem_append_right _ List.mem_cons_self,rfl,by dsimp only; omega⟩
    obtain ⟨c,present,number,held⟩ := kept.held block member
    rcases List.mem_append.mp present with earlier | here
    · exact ⟨c,List.mem_append_left _ earlier,number,held⟩
    · obtain rfl := List.mem_singleton.mp here
      exact ⟨_,List.mem_append_right _ List.mem_cons_self,number,by dsimp only; omega⟩
  · rw [List.pairwise_append]
    refine ⟨kept.separate,List.pairwise_singleton ..,?_⟩
    rintro block member other only together
    obtain rfl := List.mem_singleton.mp only
    obtain ⟨c,present,number,held⟩ := kept.held block member
    have here : c = chunk := by
      have numbers := kept.numbers
      rw [kept.chunks] at numbers
      refine List.inj_on_of_nodup_map numbers ?_ (by simp) (number.trans together)
      rcases List.mem_append.mp present with earlier | last
      · exact List.mem_append_left _ earlier
      · exact List.mem_append_right _ (List.mem_singleton.mp last ▸ List.mem_cons_self)
    subst here
    exact .inl (by dsimp only; omega)

/-- A new chunk behind the current one. -/
theorem ArenaKept.push (kept : ArenaKept arena before chunk after blocks) {size : UInt64} {made : ArenaChunk}
    (created : arenaCreateChunk arena.allocator arena.allocations size = some made)
    (fits : sizeofArenaChunk.toNat + size.toNat < 2 ^ 64) :
    ArenaKept (arena.pushChunk made) (before ++ [chunk]) made [] blocks ∧ made.used = 0 ∧ made.size = size := by
  rw [arenaCreateChunk] at created
  split at created
  swap
  · simp at created
  obtain rfl := Option.some.inj created
  have chunks : arena.chunks.take (arena.current + 1) = before ++ [chunk] := by
    rw [kept.chunks,kept.current,List.append_cons]
    exact List.take_left' (by simp)
  have old : List.Sublist ((before ++ [chunk]).map ArenaChunk.number) (arena.chunks.map ArenaChunk.number) := by
    rw [kept.chunks]
    simp
  refine ⟨⟨?_,?_,?_,?_,?_,?_,kept.separate,kept.alignment⟩,rfl,rfl⟩
  · rw [Arena.pushChunk,chunks]
  · rw [Arena.pushChunk,kept.current]
    simp
  · rw [Arena.pushChunk,chunks,List.map_append,List.nodup_append]
    refine ⟨kept.numbers.sublist old,by simp,?_⟩
    rintro number member _ last rfl
    have bound := kept.fresh number (old.subset member)
    simp only [List.map_cons,List.map_nil,List.mem_singleton] at last
    omega
  · rw [Arena.pushChunk,chunks,List.map_append,List.forall_mem_append]
    refine ⟨fun number member => Nat.lt_succ_of_lt (kept.fresh number (old.subset member)),?_⟩
    simp
  · rw [List.forall_mem_append,List.forall_mem_singleton]
    refine ⟨kept.filled,Nat.zero_le _,?_⟩
    rw [UInt64.toNat_add,Nat.mod_eq_of_lt fits]
  · intro block member
    obtain ⟨c,present,rest⟩ := kept.held block member
    exact ⟨c,List.mem_append_left _ present,rest⟩

/-- A request to the allocator that was refused. -/
theorem ArenaKept.refused (kept : ArenaKept arena before chunk after blocks) :
    ArenaKept { arena with allocations := arena.allocations + 1 } before chunk after blocks :=
  { kept with fresh := fun number member => Nat.lt_succ_of_lt (kept.fresh number member) }

/-- Chunks at the end of the chain leave the chunks in use as they are. -/
theorem ArenaKept.extend (kept : ArenaKept arena before chunk after blocks) (more : List ArenaChunk) {arena' : Arena}
    (chunks : arena'.chunks = arena.chunks ++ more) (current : arena'.current = arena.current)
    (alignment : arena'.defaultAlignment = arena.defaultAlignment)
    (numbers : (arena'.chunks.map ArenaChunk.number).Nodup)
    (fresh : ∀ number ∈ arena'.chunks.map ArenaChunk.number, number < arena'.allocations) :
    ArenaKept arena' before chunk (after ++ more) blocks where
  chunks := by rw [chunks,kept.chunks,List.append_assoc,List.cons_append]
  current := current.trans kept.current
  numbers := numbers
  fresh := fresh
  filled := kept.filled
  held := kept.held
  separate := kept.separate
  alignment := alignment ▸ kept.alignment

theorem kept_alloc (kept : ArenaKept arena before chunk after blocks) {size alignment : UInt64}
    (fine : AllocFine arena size alignment) : ∃ before' chunk' after',
      ArenaKept (arenaAlloc size alignment arena).2 before' chunk' after'
        (blocks ++ (arenaAlloc size alignment arena).1.toList) := by
  have unchanged : ∃ before' chunk' after', ArenaKept arena before' chunk' after' (blocks ++ (none : Option ArenaBlock).toList) :=
    ⟨before,chunk,after,by simpa using kept⟩
  have aligned : arena.effectiveAlignment alignment ≠ 0 := by
    rw [Arena.effectiveAlignment]
    split
    · exact kept.alignment
    · assumption
  rw [arenaAlloc]
  split
  · exact unchanged
  · split
    · exact unchanged
    · rename_i some power
      obtain ⟨room,fits⟩ := fine some power chunk kept.found
      dsimp only
      rw [kept.found]
      dsimp only
      split
      · rename_i short
        rw [if_pos short] at fits
        cases created : arenaCreateChunk arena.allocator arena.allocations
            (arena.newChunkSize size (arena.effectiveAlignment alignment)) with
        | none =>
          refine ⟨before,chunk,after,?_⟩
          rw [Option.toList_none,List.append_nil]
          exact kept.refused
        | some made =>
          obtain ⟨pushed,empty,full⟩ := kept.push created fits.2
          have enough : size.toNat ≤ (arena.newChunkSize size (arena.effectiveAlignment alignment)).toNat := by
            rw [Arena.newChunkSize]
            split
            · rename_i large
              exact le_alignUp aligned (fits.1 large)
            · rename_i small
              exact UInt64.le_iff_toNat_le.mp (UInt64.not_lt.mp small)
          obtain ⟨chunk',placed⟩ := pushed.place 0 size
            (Nat.le_of_eq (congrArg UInt64.toNat empty)) (by
            rw [full,UInt64.toNat_zero,Nat.zero_add]
            exact enough)
          exact ⟨_,chunk',_,placed⟩
      · rename_i enough
        rw [if_neg enough] at fits
        have behind := le_alignUp aligned room
        have remaining := UInt64.le_iff_toNat_le.mp (UInt64.not_lt.mp enough)
        rw [UInt64.toNat_sub_of_le _ _ fits] at remaining
        have inside := UInt64.le_iff_toNat_le.mp fits
        obtain ⟨chunk',placed⟩ := kept.place (alignUp chunk.used (arena.effectiveAlignment alignment))
          size behind (by omega)
        exact ⟨before,chunk',after,placed⟩

theorem kept_reset (kept : ArenaKept arena before chunk after blocks) :
    ∃ chunk' after', ArenaKept (arenaReset arena) [] chunk' after' [] := by
  have numbers : (arenaReset arena).chunks.map ArenaChunk.number = arena.chunks.map ArenaChunk.number := by
    rw [arenaReset,List.map_map]
    rfl
  obtain ⟨first,rest,same,member⟩ : ∃ first rest, arena.chunks = first :: rest ∧ first ∈ before ++ [chunk] := by
    rw [kept.chunks]
    cases before with
    | nil => exact ⟨chunk,after,rfl,by simp⟩
    | cons first before => exact ⟨first,before ++ chunk :: after,rfl,by simp⟩
  refine ⟨{ first with used := 0 },rest.map fun c => { c with used := 0 },?_,rfl,numbers ▸ kept.numbers,
    numbers ▸ kept.fresh,?_,by simp,List.Pairwise.nil,kept.alignment⟩
  · rw [arenaReset,same]
    rfl
  · rw [List.nil_append,List.forall_mem_singleton]
    exact ⟨Nat.zero_le _,(kept.filled first member).2⟩

theorem kept_reserve (rounds : Nat) (needed : UInt64) (kept : ArenaKept arena before chunk after blocks) :
    ∃ after', ArenaKept ((reserveChunks rounds needed).run arena).2 before chunk after' blocks := by
  induction rounds generalizing needed arena after with
  | zero =>
    rw [reserveChunks]
    split
    · exact ⟨after,kept⟩
    · exact ⟨after,kept⟩
  | succ rounds ih =>
    rcases reserveChunks_round rounds needed arena with done | refused | ⟨chunkSize,made,created,goes_on⟩
    · rw [done]
      exact ⟨after,kept⟩
    · rw [refused]
      exact ⟨after,kept.refused⟩
    · have number := (arenaCreateChunk_made created).1
      rw [goes_on]
      refine ih (needed - chunkSize) (kept.extend [made] rfl rfl rfl ?_ ?_)
      · rw [Arena.extended,List.map_append,List.nodup_append]
        refine ⟨kept.numbers,by simp,?_⟩
        rintro earlier member _ last rfl
        have bound := kept.fresh earlier member
        simp only [List.map_cons,List.map_nil,List.mem_singleton] at last
        omega
      · rw [Arena.extended,List.map_append,List.forall_mem_append]
        refine ⟨fun earlier member => Nat.lt_succ_of_lt (kept.fresh earlier member),?_⟩
        simp [number]

/-- What holds of an arena and its blocks between requests. -/
def ArenaSound (state : Arena × List ArenaBlock) : Prop :=
  ∃ before chunk after, ArenaKept state.1 before chunk after state.2

theorem sound_step {state : Arena × List ArenaBlock} (sound : ArenaSound state) {request : ArenaRequest}
    (fine : RequestFine state request) : ArenaSound (arenaStep request state) := by
  obtain ⟨arena,blocks⟩ := state
  obtain ⟨before,chunk,after,kept⟩ := sound
  cases request with
  | alloc size alignment => exact kept_alloc kept fine
  | reset =>
    obtain ⟨chunk',after',kept⟩ := kept_reset kept
    exact ⟨[],chunk',after',kept⟩
  | reserve totalSize =>
    have reserved : ∃ after', ArenaKept ((arenaReserve totalSize).run arena).2 before chunk after' blocks := by
      rw [arenaReserve,Action.bind_ok _ (Action.read_apply _ _)]
      split
      · exact ⟨after,kept⟩
      · exact kept_reserve _ _ kept
    obtain ⟨after',kept⟩ := reserved
    exact ⟨before,chunk,after',kept⟩

theorem sound_run {requests : List ArenaRequest} {state : Arena × List ArenaBlock} (sound : ArenaSound state)
    (fine : RequestsFine requests state) : ArenaSound (arenaRun requests state) := by
  induction requests generalizing state with
  | nil => exact sound
  | cons request requests ih => exact ih (sound_step sound fine.1) fine.2

theorem sound_create {allocator : Allocator} {config : ArenaConfig}
    (created : arenaCreateEx allocator config = some arena)
    (fits : sizeofArenaChunk.toNat + arena.initialChunkSize.toNat < 2 ^ 64) : ArenaSound (arena,[]) := by
  have aligned : (if config.alignment = 0 then arenaAlignment else config.alignment) ≠ 0 := by
    split
    · decide
    · assumption
  rw [arenaCreateEx] at created
  generalize (if config.alignment = 0 then arenaAlignment else config.alignment) = alignment at created aligned
  generalize (if config.initialBlockSize = 0 then arenaDefaultChunkSize else config.initialBlockSize) = initialSize
    at created
  split at created
  swap
  · simp at created
  split at created
  · simp at created
  · rename_i first made
    obtain rfl := Option.some.inj created
    rw [arenaCreateChunk] at made
    split at made
    swap
    · simp at made
    obtain rfl := Option.some.inj made
    refine ⟨[],_,[],rfl,rfl,by simp,by simp,?_,by simp,List.Pairwise.nil,aligned⟩
    rw [List.nil_append,List.forall_mem_singleton]
    refine ⟨Nat.zero_le _,?_⟩
    rw [UInt64.toNat_add,Nat.mod_eq_of_lt fits]

end

/-- In every run of an arena whose first chunk does not wrap and whose requests are fine, the blocks returned since
the last reset lie inside chunks and apart. -/
theorem arena_blocks_apart {allocator : Allocator} {config : ArenaConfig} {arena : Arena}
    (created : arenaCreateEx allocator config = some arena)
    (fits : sizeofArenaChunk.toNat + arena.initialChunkSize.toNat < 2 ^ 64) {requests : List ArenaRequest}
    (fine : RequestsFine requests (arena,[])) :
    BlocksApart (arenaRun requests (arena,[])).1 (arenaRun requests (arena,[])).2 := by
  obtain ⟨before,chunk,after,kept⟩ := sound_run (sound_create created fits) fine
  exact kept.apart

/-- Two blocks, a reset, and a block that is too large for the first chunk. -/
def plainRequests : List ArenaRequest := [.alloc 10 1,.alloc 16 16,.reset,.alloc 100000 0]

theorem defaultArena_apart : ∃ arena, arenaCreateEx {} {} = some arena ∧
    BlocksApart (arenaRun plainRequests (arena,[])).1 (arenaRun plainRequests (arena,[])).2 := by
  refine ⟨_,rfl,arena_blocks_apart (show arenaCreateEx {} {} = some _ from rfl) (by decide) ⟨?_,?_,trivial,?_,trivial⟩⟩
  all_goals
    rintro _ _ chunk ⟨⟩
    decide +kernel

/-- An arena of 100 bytes, filled, and a request with an alignment. -/
def filledRequests : List ArenaRequest := [.alloc 100 1,.alloc 1 16]

/-- The second block starts twelve bytes past the end of its chunk. -/
theorem smallArena_not_apart : ∃ arena, arenaCreate {} 100 = some arena ∧
    (arenaRun filledRequests (arena,[])).2 = [⟨1,0,100⟩,⟨1,112,1⟩] ∧
    ¬ BlocksApart (arenaRun filledRequests (arena,[])).1 (arenaRun filledRequests (arena,[])).2 := by
  have blocks (arena : Arena) (created : arenaCreate {} 100 = some arena) :
      (arenaRun filledRequests (arena,[])).2 = [⟨1,0,100⟩,⟨1,112,1⟩] ∧
        (arenaRun filledRequests (arena,[])).1.chunks = [⟨1,124,100,113⟩] := by
    obtain rfl := Option.some.inj created
    decide +kernel
  refine ⟨_,rfl,(blocks _ rfl).1,fun apart => ?_⟩
  obtain ⟨inside,_⟩ := apart
  rw [(blocks _ rfl).1,(blocks _ rfl).2] at inside
  obtain ⟨chunk,member,_,bound,_⟩ := inside ⟨1,112,1⟩ (by simp)
  obtain rfl := List.mem_singleton.mp member
  exact absurd bound (by decide)

section Addresses
variable {arena : Arena} {size alignment : UInt64} {block : ArenaBlock}

/-- The address of a block in memory where the chunks lie so: the data of a chunk comes behind its header. -/
def blockAddress (base : Nat → Nat) (block : ArenaBlock) : Nat :=
  base block.chunk + sizeofArenaChunk.toNat + block.offset.toNat

theorem dvd_alignUp (value : UInt64) (power : ∃ k, alignment.toNat = 2 ^ k) :
    alignment.toNat ∣ (alignUp value alignment).toNat := by
  obtain ⟨k,power⟩ := power
  have positive : 0 < alignment.toNat := by
    rw [power]
    exact Nat.two_pow_pos k
  have mask : (alignment - 1).toNat = 2 ^ k - 1 := by
    have one : (1 : UInt64) ≤ alignment := UInt64.le_iff_toNat_le.mpr (by exact positive)
    rw [UInt64.toNat_sub_of_le _ _ one,power]
    rfl
  have parts := toNat_mask (value + alignment - 1) (alignment - 1)
  rw [UInt64.toNat_and (value + alignment - 1) (alignment - 1),mask,Nat.and_two_pow_sub_one_eq_mod] at parts
  rw [alignUp,power]
  have divided := Nat.div_add_mod (value + alignment - 1).toNat (2 ^ k)
  exact ⟨(value + alignment - 1).toNat / 2 ^ k,by omega⟩

/-- A block begins its chunk or at a place rounded up to the alignment. -/
theorem alloc_offset (given : (arenaAlloc size alignment arena).1 = some block) :
    block.offset = 0 ∨ ∃ used, block.offset = alignUp used (arena.effectiveAlignment alignment) := by
  unfold arenaAlloc at given
  split at given
  · cases given
  split at given
  · cases given
  dsimp only at given
  split at given
  · cases given
  rename_i chunk _
  split at given
  · split at given
    · cases given
    · cases given
      exact .inl rfl
  · cases given
    exact .inr ⟨chunk.used,rfl⟩

/-- In chunks that lie at multiples of 16, a block lies at a multiple of its alignment only up to an alignment of 8:
the header of a chunk has 24 bytes. -/
theorem address_aligned_iff (base : Nat → Nat) (chunks : ∀ number, 16 ∣ base number)
    (power : ∃ k, (arena.effectiveAlignment alignment).toNat = 2 ^ k)
    (given : (arenaAlloc size alignment arena).1 = some block) :
    (arena.effectiveAlignment alignment).toNat ∣ blockAddress base block ↔
      (arena.effectiveAlignment alignment).toNat ≤ 8 := by
  have offset : (arena.effectiveAlignment alignment).toNat ∣ block.offset.toNat := by
    obtain zero | ⟨used,rounded⟩ := alloc_offset given
    · rw [zero]
      exact Nat.dvd_zero _
    · rw [rounded]
      exact dvd_alignUp used power
  obtain ⟨k,power⟩ := power
  rw [power] at offset ⊢
  have header : sizeofArenaChunk.toNat = 24 := rfl
  rw [blockAddress,header,← Nat.dvd_add_iff_left offset]
  by_cases small : k ≤ 3
  · have eight : 2 ^ k ∣ 8 := Nat.pow_dvd_pow 2 small
    have all : 2 ^ k ∣ base block.chunk + 24 :=
      Nat.dvd_add (Nat.dvd_trans eight (Nat.dvd_trans ⟨2,rfl⟩ (chunks _))) (Nat.dvd_trans eight ⟨3,rfl⟩)
    exact ⟨fun _ => Nat.le_of_dvd (by decide) eight,fun _ => all⟩
  · have sixteen : 16 ∣ 2 ^ k := Nat.pow_dvd_pow 2 (by omega : 4 ≤ k)
    constructor
    · intro divides
      have rest := (Nat.dvd_add_iff_right (chunks block.chunk)).mpr (Nat.dvd_trans sixteen divides)
      omega
    · intro most
      have least := Nat.le_of_dvd (Nat.two_pow_pos k) sixteen
      omega

/-- The first block of an arena as it is by default. -/
theorem default_first {arena : Arena} (created : arenaCreateEx {} {} = some arena) (alignment : UInt64)
    (some : alignment = 8 ∨ alignment = 16) : (arenaAlloc 10 alignment arena).1 = .some ⟨1,0,10⟩ ∧
      arena.effectiveAlignment alignment = alignment := by
  obtain rfl := Option.some.inj created
  rcases some with rfl | rfl <;> decide +kernel

theorem default_aligned_eight : ∃ arena, arenaCreateEx {} {} = some arena ∧
    8 ∣ blockAddress (fun number => 4096 * number) ⟨1,0,10⟩ := by
  have created : arenaCreateEx {} {} = some _ := rfl
  have chunks (number : Nat) : 16 ∣ (fun number => 4096 * number) number := ⟨256 * number,by dsimp only; omega⟩
  obtain ⟨given,effective⟩ := default_first created 8 (.inl rfl)
  have aligned := (address_aligned_iff _ chunks ⟨3,by rw [effective]; rfl⟩ given).mpr (by rw [effective]; decide)
  rw [effective] at aligned
  exact ⟨_,created,aligned⟩

/-- A block of the alignment that the arena has by default. -/
theorem default_misaligned : ¬ ∀ (base : Nat → Nat), (∀ number, 16 ∣ base number) →
    ∀ (arena : Arena) (size alignment : UInt64) (block : ArenaBlock), (∃ k, alignment.toNat = 2 ^ k) →
      (arenaAlloc size alignment arena).1 = some block → alignment.toNat ∣ blockAddress base block := by
  intro aligned
  have created : arenaCreateEx {} {} = some _ := rfl
  have first := aligned (fun number => 4096 * number) (fun number => ⟨256 * number,by omega⟩) _ 10 16 _ ⟨4,rfl⟩
    (default_first created 16 (.inr rfl)).1
  revert first
  decide

end Addresses

end Libnmo.Core
