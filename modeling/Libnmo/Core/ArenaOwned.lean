import Libnmo.Core.Arena
import Libnmo.Core.ArenaBlocks
import Libnmo.Lib.Machine

/-! The chunks that an arena owns. A chunk is owned from the allocation that made it;
it is freed when it is on the chain that `destroy` follows. An allocation that links
its new chunk behind a chunk with successors takes these off the chain. -/
namespace Libnmo.Core
open Lib
open scoped List

/-- `nmo_arena_destroy`: the allocations that are freed, the arena itself last. -/
def arenaDestroy (arena : Arena) : List Nat := arena.chunks.map ArenaChunk.number ++ [0]

/-- The numbers of the allocations between two states of an arena, but for the last ones that were refused. -/
def allocationsBetween (arena later : Arena) (refused : Nat) : List Nat :=
  List.range' arena.allocations (later.allocations - arena.allocations - refused)

/-- The refusals in a reserve: one, when it ends with an error. -/
def refusals : Except Stop Unit → Nat
  | .error (.error _ _) => 1
  | _ => 0

/-- A request, with the numbers of the allocations that gave a chunk. A request that is refused an allocation
returns a null pointer or an error at once. -/
def ownedStep (state : Arena × List Nat) : ArenaRequest → Arena × List Nat
  | .alloc size alignment =>
    let out := arenaAlloc size alignment state.1
    (out.2,state.2 ++ allocationsBetween state.1 out.2 (if out.1.isSome then 0 else 1))
  | .reset => (arenaReset state.1,state.2)
  | .reserve totalSize =>
    let out := (arenaReserve totalSize).run state.1
    (out.2,state.2 ++ allocationsBetween state.1 out.2 (refusals out.1))

/-- The chunks owned are the chunks on the chain, whose sizes sum to the reported total
as a `size_t`, and a destroy frees each of them once. -/
structure ChainWhole (state : Arena × List Nat) : Prop where
  reachable : ∀ number ∈ state.2, ∃ chunk ∈ state.1.chunks, chunk.number = number
  total : (state.1.chunks.map fun chunk => chunk.size.toNat).sum % 2 ^ 64 = state.1.totalAllocated.toNat
  destroyed : arenaDestroy state.1 ~ state.2 ++ [0]

/-- The chunk that an allocation makes for a request, if the current one has no room for it. -/
def Arena.makes (arena : Arena) (size alignment : UInt64) : Option ArenaChunk :=
  if size = 0 ∨ (alignment > 0 ∧ alignment &&& (alignment - 1) ≠ 0) then none
  else arena.chunks[arena.current]?.bind fun chunk =>
    if chunk.size - alignUp chunk.used (arena.effectiveAlignment alignment) < size then
      arenaCreateChunk arena.allocator arena.allocations (arena.newChunkSize size (arena.effectiveAlignment alignment))
    else none

/-- A new chunk is made only while the current chunk is the last one. -/
def LinksLast (state : Arena × List Nat) : ArenaRequest → Prop
  | .alloc size alignment => (state.1.makes size alignment).isSome → state.1.current + 1 = state.1.chunks.length
  | .reset | .reserve _ => True

/-- What every request keeps: the chunks on the chain are owned, and numbers are handed out in order. -/
structure ChainKept (state : Arena × List Nat) : Prop where
  current : state.1.current < state.1.chunks.length
  distinct : (state.1.chunks.map ArenaChunk.number).Nodup
  owned : ∀ chunk ∈ state.1.chunks, chunk.number ∈ state.2
  once : state.2.Nodup
  early : ∀ number ∈ state.2, number < state.1.allocations

section
variable {arena later : Arena} {owned : List Nat}

/-- A change of the fill of the chunks, and refused allocations. -/
structure SameChain (arena later : Arena) : Prop where
  numbers : later.chunks.map ArenaChunk.number = arena.chunks.map ArenaChunk.number
  sizes : later.chunks.map ArenaChunk.size = arena.chunks.map ArenaChunk.size
  total : later.totalAllocated = arena.totalAllocated
  current : later.current ≤ arena.current
  allocations : arena.allocations ≤ later.allocations

theorem SameChain.whole (same : SameChain arena later) : ChainWhole (later,owned) ↔ ChainWhole (arena,owned) := by
  have member (number : Nat) : (∃ chunk ∈ later.chunks, chunk.number = number) ↔
      ∃ chunk ∈ arena.chunks, chunk.number = number := by
    rw [← List.mem_map,← List.mem_map,same.numbers]
  have sizes : later.chunks.map (fun chunk => chunk.size.toNat) = arena.chunks.map fun chunk => chunk.size.toNat := by
    have both := congrArg (List.map UInt64.toNat) same.sizes
    rwa [List.map_map,List.map_map] at both
  have freed : arenaDestroy later = arenaDestroy arena := by rw [arenaDestroy,arenaDestroy,same.numbers]
  constructor
  · rintro ⟨reachable,total,destroyed⟩
    refine ⟨fun number inside => (member number).mp (reachable number inside),?_,freed ▸ destroyed⟩
    rw [← sizes,← same.total]
    exact total
  · rintro ⟨reachable,total,destroyed⟩
    refine ⟨fun number inside => (member number).mpr (reachable number inside),?_,freed ▸ destroyed⟩
    rw [sizes,same.total]
    exact total

theorem SameChain.kept (same : SameChain arena later) (kept : ChainKept (arena,owned)) : ChainKept (later,owned) := by
  have length := congrArg List.length same.numbers
  rw [List.length_map,List.length_map] at length
  refine ⟨?_,same.numbers ▸ kept.distinct,fun chunk member => ?_,kept.once,fun number member => ?_⟩
  · exact length ▸ Nat.lt_of_le_of_lt same.current kept.current
  · have number := List.mem_map_of_mem (f := ArenaChunk.number) member
    rw [same.numbers] at number
    obtain ⟨old,present,equal⟩ := List.mem_map.mp number
    exact equal ▸ kept.owned old present
  · exact Nat.lt_of_lt_of_le (kept.early number member) same.allocations

/-- A map that does not see what a modification changes. -/
theorem map_modify {α β : Type} {f : α → β} {g : α → α} (same : ∀ a, f (g a) = f a) (l : List α) (i : Nat) :
    (l.modify i g).map f = l.map f := by
  apply List.ext_getElem?
  intro j
  rw [List.getElem?_map,List.getElem?_map,List.getElem?_modify]
  cases l[j]? with
  | none => rfl
  | some a =>
    change some (f (if i = j then g a else a)) = some (f a)
    split
    · rw [same]
    · rfl

theorem same_place (arena : Arena) (number : Nat) (offset size : UInt64) :
    SameChain arena (arena.place number offset size).2 where
  numbers := by
    dsimp only [Arena.place]
    apply map_modify
    exact fun _ => rfl
  sizes := by
    dsimp only [Arena.place]
    apply map_modify
    exact fun _ => rfl
  total := rfl
  current := Nat.le_refl _
  allocations := Nat.le_refl _

theorem same_reset (arena : Arena) : SameChain arena (arenaReset arena) where
  numbers := by
    rw [arenaReset,List.map_map]
    rfl
  sizes := by
    rw [arenaReset,List.map_map]
    rfl
  total := rfl
  current := Nat.zero_le _
  allocations := Nat.le_refl _

/-- Without a new chunk an allocation leaves the chain, and what is owned. -/
theorem alloc_makes_none {size alignment : UInt64} (none : arena.makes size alignment = none) (owned : List Nat) :
    SameChain arena (ownedStep (arena,owned) (.alloc size alignment)).1 ∧
      (ownedStep (arena,owned) (.alloc size alignment)).2 = owned := by
  have unchanged : SameChain arena arena := ⟨rfl,rfl,rfl,Nat.le_refl _,Nat.le_refl _⟩
  rw [ownedStep,arenaAlloc]
  split
  · exact ⟨unchanged,by simp [allocationsBetween]⟩
  · split
    · exact ⟨unchanged,by simp [allocationsBetween]⟩
    · rename_i sized aligned
      rw [Arena.makes,if_neg (by simp only [sized,aligned,or_self,not_false_eq_true])] at none
      dsimp only
      cases found : arena.chunks[arena.current]? with
      | none => exact ⟨unchanged,by simp [allocationsBetween]⟩
      | some chunk =>
        rw [found,Option.bind_some] at none
        dsimp only
        split
        · rename_i short
          rw [if_pos short] at none
          rw [none]
          exact ⟨⟨rfl,rfl,rfl,Nat.le_refl _,Nat.le_succ _⟩,by simp [allocationsBetween]⟩
        · exact ⟨same_place ..,by simp [allocationsBetween,Arena.place]⟩

theorem alloc_makes_some {size alignment : UInt64} {made : ArenaChunk} (some : arena.makes size alignment = some made) :
    arenaAlloc size alignment arena = (arena.pushChunk made).place made.number 0 size ∧ made.number = arena.allocations := by
  rw [Arena.makes] at some
  split at some
  · cases some
  · rename_i valid
    rw [not_or] at valid
    obtain ⟨chunk,found,created⟩ := Option.bind_eq_some_iff.mp some
    split at created
    · rename_i short
      refine ⟨?_,(arenaCreateChunk_made created).1⟩
      rw [arenaAlloc,if_neg valid.1,if_neg valid.2]
      dsimp only
      rw [found]
      dsimp only
      rw [if_pos short,created]
    · cases created

/-- A new chunk at the end of the chain. -/
structure Extends (arena later : Arena) (made : ArenaChunk) : Prop where
  chunks : later.chunks = arena.chunks ++ [made]
  number : made.number = arena.allocations
  allocations : later.allocations = arena.allocations + 1
  total : later.totalAllocated = arena.totalAllocated + made.size
  current : later.current ≤ arena.chunks.length

section
variable {made : ArenaChunk} (extends' : Extends arena later made)
include extends'

theorem Extends.kept (kept : ChainKept (arena,owned)) : ChainKept (later,owned ++ [arena.allocations]) where
  current := by
    rw [extends'.chunks,List.length_append]
    exact Nat.lt_succ_of_le extends'.current
  distinct := by
    rw [extends'.chunks,List.map_append,List.nodup_append]
    refine ⟨kept.distinct,by simp,?_⟩
    rintro number member _ last rfl
    obtain ⟨chunk,present,equal⟩ := List.mem_map.mp member
    have early := kept.early number (equal ▸ kept.owned chunk present)
    rw [List.map_singleton,List.mem_singleton,extends'.number] at last
    exact absurd last (Nat.ne_of_lt early)
  owned chunk member := by
    rw [extends'.chunks] at member
    rcases List.mem_append.mp member with old | new
    · exact List.mem_append_left _ (kept.owned chunk old)
    · rw [List.mem_singleton.mp new,extends'.number]
      exact List.mem_append_right _ List.mem_cons_self
  once := by
    rw [List.nodup_append]
    refine ⟨kept.once,by simp,?_⟩
    rintro number member _ last rfl
    exact absurd (List.mem_singleton.mp last) (Nat.ne_of_lt (kept.early number member))
  early number member := by
    change number < later.allocations
    rw [extends'.allocations]
    rcases List.mem_append.mp member with old | new
    · exact Nat.lt_succ_of_lt (kept.early number old)
    · rw [List.mem_singleton.mp new]
      exact Nat.lt_succ_self _

theorem Extends.whole (whole : ChainWhole (arena,owned)) : ChainWhole (later,owned ++ [arena.allocations]) where
  reachable number member := by
    change ∃ chunk ∈ later.chunks, _
    rw [extends'.chunks]
    rcases List.mem_append.mp member with old | new
    · obtain ⟨chunk,present,equal⟩ := whole.reachable number old
      exact ⟨chunk,List.mem_append_left _ present,equal⟩
    · refine ⟨made,List.mem_append_right _ List.mem_cons_self,?_⟩
      rw [List.mem_singleton.mp new]
      exact extends'.number
  total := by
    have total := whole.total
    change (later.chunks.map fun chunk => chunk.size.toNat).sum % 2 ^ 64 = later.totalAllocated.toNat
    rw [extends'.chunks,extends'.total,List.map_append,List.sum_append,UInt64.toNat_add,← total]
    simp
  destroyed := by
    have destroyed := (List.perm_append_right_iff _).mp whole.destroyed
    change arenaDestroy later ~ _
    rw [arenaDestroy,extends'.chunks,List.map_append,List.map_singleton,extends'.number]
    exact (destroyed.append_right _).append_right _

end

/-- A chunk pushed behind the last one extends the chain. -/
theorem extends_push {made : ArenaChunk} (number : made.number = arena.allocations)
    (last : arena.current + 1 = arena.chunks.length) : Extends arena (arena.pushChunk made) made where
  chunks := by rw [Arena.pushChunk,last,List.take_length]
  number := number
  allocations := rfl
  total := rfl
  current := Nat.le_of_eq last

/-- A chunk pushed behind another keeps numbers apart, whatever it takes off the chain. -/
theorem kept_push {made : ArenaChunk} (number : made.number = arena.allocations) (kept : ChainKept (arena,owned)) :
    ChainKept (arena.pushChunk made,owned ++ [arena.allocations]) := by
  let cut : Arena := { arena with chunks := arena.chunks.take (arena.current + 1) }
  have inside : arena.current < arena.chunks.length := kept.current
  have length : cut.chunks.length = arena.current + 1 := by
    rw [List.length_take]
    omega
  have taken : ChainKept (cut,owned) := by
    refine ⟨?_,?_,fun chunk member => kept.owned chunk (List.mem_of_mem_take member),kept.once,kept.early⟩
    · exact length ▸ Nat.lt_succ_self _
    · exact kept.distinct.sublist ((List.take_sublist ..).map _)
  have linked : Extends cut (arena.pushChunk made) made := ⟨rfl,number,rfl,rfl,Nat.le_of_eq length.symm⟩
  exact linked.kept taken

/-- What was behind the current chunk is not reachable any more. -/
theorem push_loses {made : ArenaChunk} (number : made.number = arena.allocations) (kept : ChainKept (arena,owned))
    (whole : ChainWhole (arena.pushChunk made,owned ++ [arena.allocations])) :
    arena.current + 1 = arena.chunks.length := by
  refine Nat.le_antisymm kept.current (Nat.le_of_not_lt fun behind => ?_)
  have present := List.getElem_mem behind
  obtain ⟨chunk,member,equal⟩ := whole.reachable _ (List.mem_append_left _ (kept.owned _ present))
  rw [Arena.pushChunk] at member
  rcases List.mem_append.mp member with front | new
  · have same : chunk = arena.chunks[arena.current + 1] :=
      List.inj_on_of_nodup_map kept.distinct (List.mem_of_mem_take front) present equal
    obtain ⟨i,short,here⟩ := List.mem_take_iff_getElem.mp front
    have distinct : arena.chunks.Nodup := List.Nodup.of_map _ kept.distinct
    have index := distinct.getElem_inj_iff.mp (here.trans same)
    omega
  · rw [List.mem_singleton.mp new,number] at equal
    have early := kept.early _ (kept.owned _ present)
    exact absurd equal (Nat.ne_of_gt early)

theorem between_self (arena : Arena) (refused : Nat) : allocationsBetween arena arena refused = [] := by
  simp [allocationsBetween]

theorem between_cons {next : Arena} {refused : Nat} (first : next.allocations = arena.allocations + 1)
    (after : next.allocations + refused ≤ later.allocations) :
    allocationsBetween arena later refused = arena.allocations :: allocationsBetween next later refused := by
  have count : later.allocations - arena.allocations - refused =
      later.allocations - next.allocations - refused + 1 := by omega
  rw [allocationsBetween,allocationsBetween,count,List.range'_succ,first]

/-- Each round of a reserve that is granted puts its chunk at the end of the chain. -/
theorem reserve_extends (rounds : Nat) (needed : UInt64) (kept : ChainKept (arena,owned)) :
    let out := (reserveChunks rounds needed).run arena
    arena.allocations + refusals out.1 ≤ out.2.allocations ∧
      ChainKept (out.2,owned ++ allocationsBetween arena out.2 (refusals out.1)) ∧
      (ChainWhole (arena,owned) → ChainWhole (out.2,owned ++ allocationsBetween arena out.2 (refusals out.1))) := by
  induction rounds generalizing needed arena owned with
  | zero =>
    rw [reserveChunks]
    split
    · refine ⟨Nat.le_refl _,?_⟩
      rw [Action.pure_apply,between_self,List.append_nil]
      exact ⟨kept,id⟩
    · refine ⟨Nat.le_refl _,?_⟩
      rw [Action.stop_apply,between_self,List.append_nil]
      exact ⟨kept,id⟩
  | succ rounds ih =>
    rcases reserveChunks_round rounds needed arena with done | refused | ⟨chunkSize,made,created,goes_on⟩
    · rw [done]
      refine ⟨Nat.le_refl _,?_⟩
      rw [between_self,List.append_nil]
      exact ⟨kept,id⟩
    · have same : SameChain arena { arena with allocations := arena.allocations + 1 } :=
        ⟨rfl,rfl,rfl,Nat.le_refl _,Nat.le_succ _⟩
      rw [refused]
      refine ⟨Nat.le_refl _,?_⟩
      rw [allocationsBetween,refusals,Nat.add_sub_cancel_left,Nat.sub_self,List.range'_zero,List.append_nil]
      exact ⟨same.kept kept,same.whole.mpr⟩
    · obtain ⟨number,size⟩ := arenaCreateChunk_made created
      have linked : Extends arena (arena.extended made chunkSize) made :=
        ⟨rfl,number,rfl,by rw [size]; rfl,Nat.le_of_lt kept.current⟩
      obtain ⟨after,keptAfter,wholeAfter⟩ := ih (needed - chunkSize) (linked.kept kept)
      rw [goes_on]
      dsimp only
      rw [between_cons linked.allocations after,← List.singleton_append,← List.append_assoc]
      exact ⟨by rw [linked.allocations] at after; omega,keptAfter,fun whole => wholeAfter (linked.whole whole)⟩

theorem alloc_owns {size alignment : UInt64} {made : ArenaChunk} (makes : arena.makes size alignment = some made) :
    ∃ later, SameChain (arena.pushChunk made) later ∧
      ownedStep (arena,owned) (.alloc size alignment) = (later,owned ++ [arena.allocations]) := by
  obtain ⟨allocated,-⟩ := alloc_makes_some makes
  refine ⟨_,same_place (arena.pushChunk made) made.number 0 size,?_⟩
  rw [ownedStep,allocated]
  simp [allocationsBetween,Arena.place,Arena.pushChunk]

theorem reserve_owns (totalSize : UInt64) (kept : ChainKept (arena,owned)) :
    ChainKept (ownedStep (arena,owned) (.reserve totalSize)) ∧
      (ChainWhole (arena,owned) → ChainWhole (ownedStep (arena,owned) (.reserve totalSize))) := by
  dsimp only [ownedStep]
  rw [arenaReserve,Action.bind_ok _ (Action.read_apply _ _)]
  split
  · rw [Action.pure_apply,between_self,List.append_nil]
    exact ⟨kept,id⟩
  · exact (reserve_extends _ _ kept).2

/-- What every request keeps. -/
theorem chainKept_step (state : Arena × List Nat) (request : ArenaRequest) (kept : ChainKept state) :
    ChainKept (ownedStep state request) := by
  obtain ⟨arena,owned⟩ := state
  cases request with
  | alloc size alignment =>
    cases makes : arena.makes size alignment with
    | none =>
      obtain ⟨same,equal⟩ := alloc_makes_none makes owned
      have after := same.kept kept
      rwa [← equal] at after
    | some made =>
      obtain ⟨later,same,step⟩ := alloc_owns makes
      rw [step]
      exact same.kept (kept_push (alloc_makes_some makes).2 kept)
  | reset => exact (same_reset arena).kept kept
  | reserve totalSize => exact (reserve_owns totalSize kept).1

/-- A request keeps the chain whole just when it links a new chunk behind the last one. -/
theorem chainWhole_step (state : Arena × List Nat) (request : ArenaRequest) (kept : ChainKept state)
    (whole : ChainWhole state) : ChainWhole (ownedStep state request) ↔ LinksLast state request := by
  obtain ⟨arena,owned⟩ := state
  cases request with
  | alloc size alignment =>
    cases makes : arena.makes size alignment with
    | none =>
      obtain ⟨same,equal⟩ := alloc_makes_none makes owned
      have after := same.whole.mpr whole
      rw [← equal] at after
      refine iff_of_true after ?_
      simp [LinksLast,makes]
    | some made =>
      obtain ⟨later,same,step⟩ := alloc_owns makes
      have number := (alloc_makes_some makes).2
      rw [step,same.whole,LinksLast,makes]
      constructor
      · exact fun pushed _ => push_loses number kept pushed
      · exact fun last => (extends_push number (last rfl)).whole whole
  | reset => exact iff_of_true ((same_reset arena).whole.mpr whole) trivial
  | reserve totalSize => exact iff_of_true ((reserve_owns totalSize kept).2 whole) trivial

theorem chain_created {allocator : Allocator} {config : ArenaConfig}
    (created : arenaCreateEx allocator config = some arena) : ChainKept (arena,[1]) ∧ ChainWhole (arena,[1]) := by
  rw [arenaCreateEx] at created
  generalize (if config.alignment = 0 then arenaAlignment else config.alignment) = alignment at created
  generalize (if config.initialBlockSize = 0 then arenaDefaultChunkSize else config.initialBlockSize) = initialSize
    at created
  split at created
  · split at created
    · cases created
    · rename_i first made
      cases created
      obtain ⟨number,size⟩ := arenaCreateChunk_made made
      refine ⟨⟨Nat.one_pos,List.nodup_singleton _,?_,List.nodup_singleton _,?_⟩,?_,?_,?_⟩
      · simp [number]
      · simp
      · simp [number]
      · simpa [size] using Nat.mod_eq_of_lt initialSize.toNat_lt
      · simp [arenaDestroy,number]
  · cases created

end

/-- In a run of requests every chunk that an arena owns is on the chain, with the
reported total, and is freed by a destroy, in each state reached, just when every
allocation that makes a chunk finds the last chunk current. -/
theorem arena_chain_whole {allocator : Allocator} {config : ArenaConfig} {arena : Arena}
    (created : arenaCreateEx allocator config = some arena) (requests : List ArenaRequest) :
    (∀ done, done <+: requests → ChainWhole (Machine.run ownedStep (arena,[1]) done)) ↔
      ∀ visit ∈ Machine.visits ownedStep (arena,[1]) requests, LinksLast visit.1 visit.2 := by
  obtain ⟨kept,whole⟩ := chain_created created
  exact Machine.reached_iff chainKept_step chainWhole_step kept whole requests

/-- A chunk for a block of 150 bytes, a reset, and a block that fits neither chunk. -/
def outgrownRequests : List ArenaRequest := [.alloc 150 1,.reset,.alloc 500 1]

theorem chain_whole_some : ∃ arena, arenaCreateEx {} {} = some arena ∧
    ∀ done, done <+: [.alloc 100000 0,.alloc 10 16,.reset] → ChainWhole (Machine.run ownedStep (arena,[1]) done) := by
  refine ⟨_,rfl,(arena_chain_whole (show arenaCreateEx {} {} = some _ from rfl) _).mpr ?_⟩
  intro visit member
  rcases List.mem_cons.mp member with rfl | member
  · intro
    rfl
  · rcases List.mem_cons.mp member with rfl | member
    · intro made
      exact absurd made (by decide +kernel)
    · rw [List.mem_singleton.mp member]
      trivial

/-- The second chunk is owned but not on the chain, nor freed by a destroy. -/
theorem outgrown_loses_chunk : ∃ arena, arenaCreate {} 100 = some arena ∧
    ¬ ChainWhole (Machine.run ownedStep (arena,[1]) outgrownRequests) := by
  refine ⟨_,rfl,fun whole => ?_⟩
  obtain ⟨chunk,member,number⟩ := whole.reachable 2 (by decide +kernel)
  have numbers := List.mem_map_of_mem (f := ArenaChunk.number) member
  rw [number] at numbers
  exact absurd numbers (by decide +kernel)

end Libnmo.Core
