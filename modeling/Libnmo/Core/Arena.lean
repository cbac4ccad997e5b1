import Libnmo.Core.Error
import Mathlib.Data.List.Basic

/-! The arena allocator. A chunk is named by the number of the allocation that made
it, and a block by its chunk and its offset in the data of the chunk; chunks of
different numbers are different memory. The chain of chunks is a list, and `current`
a place in it. -/
namespace Libnmo.Core
open Lib

def arenaDefaultChunkSize : UInt64 := 64 * 1024
def arenaDefaultMaxChunk : UInt64 := 16 * 1024 * 1024
def arenaAlignment : UInt64 := 16

/-- `sizeof(nmo_arena_t)` and `sizeof(nmo_arena_chunk_t)`. -/
def sizeofArena : UInt64 := 96
def sizeofArenaChunk : UInt64 := 24

/-- The backing allocator: whether the allocation with a number gives memory of a size and alignment. -/
structure Allocator where
  grants : Nat → UInt64 → UInt64 → Bool := fun _ _ _ => true

/-- A growth factor by its effect on a size: the product in `float`, converted to `size_t`. -/
structure Growth where
  apply : UInt64 → UInt64
  zero : apply 0 = 0

/-- Without a growth factor the one that is given is below one. -/
structure ArenaConfig where
  initialBlockSize : UInt64 := arenaDefaultChunkSize
  maxBlockSize : UInt64 := arenaDefaultMaxChunk
  growthFactor : Option Growth := none
  alignment : UInt64 := arenaAlignment

structure ArenaChunk where
  number : Nat
  memory : UInt64
  size : UInt64
  used : UInt64 := 0
  deriving DecidableEq, Repr

structure Arena where
  allocator : Allocator
  allocations : Nat
  chunks : List ArenaChunk
  current : Nat := 0
  initialChunkSize : UInt64
  nextChunkSize : UInt64
  maxChunkSize : UInt64
  growthFactor : Growth
  defaultAlignment : UInt64
  totalAllocated : UInt64 := 0
  bytesUsed : UInt64 := 0

structure ArenaBlock where
  chunk : Nat
  offset : UInt64
  size : UInt64
  deriving DecidableEq, Repr

/-- The factor two. -/
def defaultGrowth : Growth := ⟨fun size => size * 2,rfl⟩

/-- `arena_create_chunk`: the total size may wrap. -/
def arenaCreateChunk (allocator : Allocator) (number : Nat) (size : UInt64) : Option ArenaChunk :=
  let totalSize := sizeofArenaChunk + size
  if allocator.grants number totalSize arenaAlignment then some { number := number, memory := totalSize, size := size }
  else none

def arenaCreateEx (allocator : Allocator) (config : ArenaConfig) : Option Arena :=
  let initialBlockSize := if config.initialBlockSize = 0 then arenaDefaultChunkSize else config.initialBlockSize
  let alignment := if config.alignment = 0 then arenaAlignment else config.alignment
  if allocator.grants 0 sizeofArena alignment then match arenaCreateChunk allocator 1 initialBlockSize with
    | none => none
    | some first => some {
        allocator := allocator
        allocations := 2
        chunks := [first]
        initialChunkSize := initialBlockSize
        nextChunkSize := initialBlockSize
        maxChunkSize := config.maxBlockSize
        growthFactor := config.growthFactor.getD defaultGrowth
        defaultAlignment := alignment
        totalAllocated := initialBlockSize }
  else none

def arenaCreate (allocator : Allocator) (initialSize : UInt64) : Option Arena :=
  arenaCreateEx allocator (if initialSize > 0 then { initialBlockSize := initialSize } else {})

/-- `(value + alignment - 1) & ~(alignment - 1)`. -/
def alignUp (value alignment : UInt64) : UInt64 := (value + alignment - 1) &&& ~~~(alignment - 1)

namespace Arena

def effectiveAlignment (arena : Arena) (alignment : UInt64) : UInt64 :=
  if alignment = 0 then arena.defaultAlignment else alignment

/-- The next size by the growth factor, cut to the largest. -/
def grownSize (arena : Arena) : UInt64 :=
  let grown := arena.growthFactor.apply arena.nextChunkSize
  if arena.maxChunkSize > 0 ∧ grown > arena.maxChunkSize then arena.maxChunkSize else grown

/-- The size of a chunk for a request that the current one has no room for. -/
def newChunkSize (arena : Arena) (size alignment : UInt64) : UInt64 :=
  if size > arena.grownSize then alignUp size alignment else arena.grownSize

/-- A chunk linked behind the current one, in place of what was there. -/
def pushChunk (arena : Arena) (chunk : ArenaChunk) : Arena := { arena with
  allocations := arena.allocations + 1
  chunks := arena.chunks.take (arena.current + 1) ++ [chunk]
  current := arena.current + 1
  totalAllocated := arena.totalAllocated + chunk.size
  nextChunkSize := chunk.size }

/-- The block at an offset of the current chunk. -/
def place (arena : Arena) (number : Nat) (offset size : UInt64) : Option ArenaBlock × Arena :=
  (some ⟨number,offset,size⟩,{ arena with
    chunks := arena.chunks.modify arena.current fun chunk => { chunk with used := offset + size }
    bytesUsed := arena.bytesUsed + size })

end Arena

/-- The block that a request gives, none for a null pointer. -/
def arenaAlloc (size alignment : UInt64) (arena : Arena) : Option ArenaBlock × Arena :=
  if size = 0 then (none,arena)
  else if alignment > 0 ∧ alignment &&& (alignment - 1) ≠ 0 then (none,arena)
  else
    let alignment := arena.effectiveAlignment alignment
    match arena.chunks[arena.current]? with
    | none => (none,arena)
    | some chunk =>
      let alignedUsed := alignUp chunk.used alignment
      let remaining := chunk.size - alignedUsed
      if remaining < size then
        match arenaCreateChunk arena.allocator arena.allocations (arena.newChunkSize size alignment) with
        | none => (none,{ arena with allocations := arena.allocations + 1 })
        | some newChunk => (arena.pushChunk newChunk).place newChunk.number 0 size
      else arena.place chunk.number alignedUsed size

theorem size_arenaAlloc {size alignment : UInt64} {arena : Arena} {block : ArenaBlock}
    (given : (arenaAlloc size alignment arena).1 = some block) : block.size = size := by
  simp only [arenaAlloc,Arena.place] at given
  repeat' split at given
  all_goals simp at given
  all_goals rw [← given]

def arenaReset (arena : Arena) : Arena := { arena with
  chunks := arena.chunks.map fun chunk => { chunk with used := 0 }
  current := 0
  bytesUsed := 0 }

/-- The rounds of a reserve, each of a chunk at the end of the chain. A size of zero stays zero, and then the
rounds never end: no more than `needed` of them make progress. -/
def reserveChunks : Nat → UInt64 → Run Arena Unit
  | rounds,needed =>
    if needed = 0 then pure ()
    else match rounds with
      | 0 => Action.stop .endless
      | rounds + 1 => do
        let arena ← Action.read id
        let chunkSize := if arena.grownSize > needed then needed else arena.grownSize
        match arenaCreateChunk arena.allocator arena.allocations chunkSize with
        | none => do
          Action.update fun arena => { arena with allocations := arena.allocations + 1 }
          fail .nomem ""
        | some chunk => do
          Action.update fun arena => { arena with
            allocations := arena.allocations + 1
            chunks := arena.chunks ++ [chunk]
            totalAllocated := arena.totalAllocated + chunkSize
            nextChunkSize := chunkSize }
          reserveChunks rounds (needed - chunkSize)

theorem arenaCreateChunk_made {allocator : Allocator} {number : Nat} {size : UInt64} {made : ArenaChunk}
    (created : arenaCreateChunk allocator number size = some made) : made.number = number ∧ made.size = size := by
  rw [arenaCreateChunk] at created
  split at created
  · cases created
    exact ⟨rfl,rfl⟩
  · cases created

/-- The arena with a chunk more at the end of the chain. -/
def Arena.extended (arena : Arena) (made : ArenaChunk) (chunkSize : UInt64) : Arena := { arena with
  allocations := arena.allocations + 1
  chunks := arena.chunks ++ [made]
  totalAllocated := arena.totalAllocated + chunkSize
  nextChunkSize := chunkSize }

/-- A round of a reserve is the last one, is refused memory, or adds a chunk and goes on. -/
theorem reserveChunks_round (rounds : Nat) (needed : UInt64) (arena : Arena) :
    (reserveChunks (rounds + 1) needed).run arena = (.ok (),arena) ∨
      (reserveChunks (rounds + 1) needed).run arena =
        (.error (.error .nomem ""),{ arena with allocations := arena.allocations + 1 }) ∨
      ∃ chunkSize made, arenaCreateChunk arena.allocator arena.allocations chunkSize = some made ∧
        (reserveChunks (rounds + 1) needed).run arena =
          (reserveChunks rounds (needed - chunkSize)).run (arena.extended made chunkSize) := by
  rw [reserveChunks]
  split
  · exact .inl rfl
  · dsimp only
    rw [Action.bind_ok _ (Action.read_apply _ _)]
    generalize (if (id arena).grownSize > needed then needed else (id arena).grownSize) = chunkSize
    dsimp only [id]
    cases created : arenaCreateChunk arena.allocator arena.allocations chunkSize with
    | none => exact .inr (.inl rfl)
    | some made => exact .inr (.inr ⟨chunkSize,made,created,rfl⟩)

def arenaReserve (totalSize : UInt64) : Run Arena Unit := do
  let currentTotal ← Action.read Arena.totalAllocated
  (if currentTotal ≥ totalSize then pure ()
  else reserveChunks (totalSize - currentTotal).toNat (totalSize - currentTotal))

end Libnmo.Core
