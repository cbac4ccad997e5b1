import Libnmo.Format.ChunkTree
import Libnmo.Lib.Machine
import Libnmo.Format.ChunkTreeRoundTrip
import Mathlib.Data.List.Nodup

/-! The pool of chunks. Its entries point at chunks of one arena, and the user of an acquired chunk
makes of it what he likes. Whether the arena has room is a parameter of each acquisition. -/
namespace Libnmo.Format
open Core Lib

/-- `chunk` is the address of the chunk. -/
structure PoolEntry where
  chunk : Nat
  inUse : Bool

/-- `entries` are the first `count` of the array, `slots` is how many it has room for, and `chunks` are
the chunks at the addresses 0, 1 and so on. -/
structure ChunkPool where
  entries : List PoolEntry
  capacity : Nat
  slots : Nat
  available : Nat
  chunks : List Chunk

/-- The entries of 16 bytes that fit an allocation of `capacity * sizeof(nmo_pool_entry_t)`. -/
def entrySlots (capacity : Nat) : Nat := capacity * 16 % 2 ^ 64 / 16

def chunkPoolCreate (initialCapacity : Nat) : Option ChunkPool :=
  if initialCapacity = 0 then none
  else if entrySlots initialCapacity = 0 then none
  else some { entries := [], capacity := initialCapacity, slots := entrySlots initialCapacity, available := 0, chunks := [] }

def resetChunk (c : Chunk) : Chunk :=
  { c with
    data := c.data.map fun _ => []
    spare := List.replicate c.dataCapacity 0
    ids := []
    chunks := []
    managers := []
    classId := 0
    dataVersion := 0
    chunkVersion := 7
    chunkClassId := 0
    chunkOptions := 0
    uncompressedSize := 0
    compressedSize := 0
    isCompressed := false
    unpackSize := 0
    rawData := none
    parserState := c.parserState.map fun _ => {} }

/-- The loop of `acquire`: the chunk of the first entry that is not in use, and the entries with it in use. -/
def takeAvailable : List PoolEntry → Option (Nat × List PoolEntry)
  | [] => none
  | entry :: rest =>
    if ¬ entry.inUse then some (entry.chunk,{ entry with inUse := true } :: rest)
    else (takeAvailable rest).map fun taken => (taken.1,entry :: taken.2)

/-- The loop of `release`: the entries with the one of the chunk no longer in use. -/
def giveBack (chunk : Nat) : List PoolEntry → Option (List PoolEntry)
  | [] => none
  | entry :: rest =>
    if entry.chunk = chunk ∧ entry.inUse then some ({ entry with inUse := false } :: rest)
    else (giveBack chunk rest).map (entry :: ·)

/-- The doubled array. More entries than 2^60 are not to be had: they point at as many chunks. -/
def expandEntries (granted : Bool) (pool : ChunkPool) : Option ChunkPool :=
  if pool.entries.length < pool.capacity then some pool
  else if granted ∧ pool.capacity * 2 * 16 < 2 ^ 64 then
    some { pool with capacity := pool.capacity * 2, slots := pool.capacity * 2 }
  else none

def chunkPoolAcquire (granted created : Bool) : Run ChunkPool (Option Nat) where
  run pool := match takeAvailable pool.entries with
    | some (chunk,entries) =>
      (.ok (some chunk),{ pool with
        entries := entries
        available := (pool.available + (2 ^ 64 - 1)) % 2 ^ 64
        chunks := pool.chunks.modify chunk resetChunk })
    | none => match expandEntries granted pool with
      | none => (.ok none,pool)
      | some pool =>
        if ¬ created then (.ok none,pool)
        else if pool.entries.length < pool.slots then
          (.ok (some pool.chunks.length),{ pool with
            entries := pool.entries ++ [⟨pool.chunks.length,true⟩]
            chunks := pool.chunks ++ [chunkCreate] })
        else (.error (.overwrite pool.slots),pool)

/-- A chunk that is not in the pool, or not in use, fails an assertion; without assertions nothing happens. -/
def chunkPoolRelease (chunk : Nat) : Run ChunkPool Unit :=
  Action.update fun pool => match giveBack chunk pool.entries with
    | some entries => { pool with
        entries := entries
        available := (pool.available + 1) % 2 ^ 64
        chunks := pool.chunks.modify chunk resetChunk }
    | none => pool

def ChunkPool.holds (pool : ChunkPool) (chunk : Nat) : Bool :=
  pool.entries.any fun entry => entry.chunk = chunk ∧ entry.inUse

inductive PoolOp
  | acquire (granted created : Bool)
  | release (chunk : Nat)
  | use (chunk : Nat) (changed : Chunk)

/-- The pool after a call, or after a user changed a chunk that he has acquired. -/
def poolStep (pool : ChunkPool) : PoolOp → ChunkPool
  | .acquire granted created => ((chunkPoolAcquire granted created).run pool).2
  | .release chunk => ((chunkPoolRelease chunk).run pool).2
  | .use chunk changed => if pool.holds chunk then { pool with chunks := pool.chunks.set chunk changed } else pool

/-- The entries that are not in use. -/
def ChunkPool.free (pool : ChunkPool) : Nat := pool.entries.countP fun entry => !entry.inUse

section Entries
variable {entries after : List PoolEntry} {chunk : Nat}

theorem takeAvailable_some (taken : takeAvailable entries = some (chunk,after)) :
    after.map PoolEntry.chunk = entries.map PoolEntry.chunk ∧
      entries.countP (fun entry => !entry.inUse) = after.countP (fun entry => !entry.inUse) + 1 ∧
      ∃ entry ∈ entries, entry.chunk = chunk ∧ entry.inUse = false := by
  induction entries generalizing after with
  | nil => cases taken
  | cons entry rest ih =>
    rw [takeAvailable] at taken
    split at taken
    · rename_i idle
      have free : entry.inUse = false := by simpa using idle
      obtain ⟨rfl,rfl⟩ := Prod.mk.inj (Option.some.inj taken)
      refine ⟨rfl,?_,entry,List.mem_cons_self ..,rfl,free⟩
      simp [free]
    · obtain ⟨⟨found,others⟩,later,same⟩ := Option.map_eq_some_iff.mp taken
      obtain ⟨rfl,rfl⟩ := Prod.mk.inj same
      obtain ⟨chunks,count,other,member,given⟩ := ih later
      refine ⟨?_,?_,other,List.mem_cons_of_mem _ member,given⟩
      · rw [List.map_cons,List.map_cons,chunks]
      · dsimp only at count ⊢
        rw [List.countP_cons,List.countP_cons,count]
        omega

theorem giveBack_some (given : giveBack chunk entries = some after) :
    after.map PoolEntry.chunk = entries.map PoolEntry.chunk ∧
      after.countP (fun entry => !entry.inUse) = entries.countP (fun entry => !entry.inUse) + 1 := by
  induction entries generalizing after with
  | nil => cases given
  | cons entry rest ih =>
    rw [giveBack] at given
    split at given
    · rename_i held
      cases given
      simp [held.2]
    · obtain ⟨others,later,rfl⟩ := Option.map_eq_some_iff.mp given
      obtain ⟨chunks,count⟩ := ih later
      rw [List.map_cons,List.map_cons,chunks,List.countP_cons,List.countP_cons,count]
      exact ⟨rfl,by omega⟩

end Entries

end Libnmo.Format

/-! Runs of a pool of chunks. The entries and the count of those not in use agree in every state, and
what an acquired chunk may still hold of its last user are the positions of its sub-chunks. -/
namespace Libnmo.Format
open Core Lib

/-- The entries point at different chunks of the arena, and the count is that of the entries not in use. -/
structure PoolHolds (pool : ChunkPool) : Prop where
  available : pool.available = pool.free
  distinct : (pool.entries.map PoolEntry.chunk).Nodup
  inside : ∀ entry ∈ pool.entries, entry.chunk < pool.chunks.length
  filled : pool.entries.length ≤ pool.capacity
  some : 0 < pool.capacity
  small : pool.entries.length < 2 ^ 60
  slots : pool.slots < 2 ^ 60

/-- A chunk that both formats write as they write a new one. -/
structure WritesAsNew (c : Chunk) : Prop where
  nested : chunkSerialize c = chunkSerialize chunkCreate
  flat : chunkSerializeVersion1 c = chunkSerializeVersion1 chunkCreate

section Reset
variable (c : Chunk)

theorem words_resetChunk : (resetChunk c).words = [] := by
  simp only [resetChunk,Chunk.words]
  cases c.data <;> rfl

theorem nested_resetChunk : chunkSerialize (resetChunk c) = chunkSerialize chunkCreate := by
  have words : treeWords (resetChunk c) = treeWords chunkCreate := by
    rw [treeWords_eq,words_resetChunk]
    rfl
  rw [chunkSerialize_eq,chunkSerialize_eq,← length_treeWords,← length_treeWords,words]

/-- A new chunk but for the positions of its sub-chunks. -/
def newBut (chunkRefs : List UInt32) : Chunk := { chunkCreate with chunkRefs := chunkRefs }

theorem flat_resetChunk : chunkSerializeVersion1 (resetChunk c) = chunkSerializeVersion1 (newBut c.chunkRefs) := by
  have size : (resetChunk c).dataSize = 0 := congrArg List.length (words_resetChunk c)
  rw [chunkSerializeVersion1,chunkSerializeVersion1,chunkCalcSizeVersion1,chunkCalcSizeVersion1,chunkVersion1Words,
    chunkVersion1Words,size,words_resetChunk]
  rfl

theorem calcSize_newBut (chunkRefs : List UInt32) : chunkCalcSizeVersion1 (newBut chunkRefs) =
    8 + if 0 < chunkRefs.length then 4 + chunkRefs.length * 4 else 0 := by
  have early : ¬ chunkVersion4 < chunkVersion2 := by decide
  have second : ¬ chunkVersion4 = chunkVersion2 := by decide
  have flags (flag : UInt32) : hasFlag 0 flag = false := by simp [hasFlag]
  simp only [chunkCalcSizeVersion1,newBut,chunkCreate,early,second,flags,Chunk.dataSize,Chunk.words]
  cases chunkRefs with
  | nil => rfl
  | cons ref refs => rfl

/-- The reset leaves the references, and the flat format writes them. -/
theorem writesAsNew_resetChunk_iff : WritesAsNew (resetChunk c) ↔ c.chunkRefs = [] := by
  constructor
  · intro same
    by_contra some
    have flat := same.flat
    have length := List.length_pos_iff.mpr some
    rw [flat_resetChunk] at flat
    simp only [chunkSerializeVersion1,calcSize_newBut,if_pos length] at flat
    split at flat
    · cases flat
    · have size := Except.ok.inj (congrArg (Except.map Prod.snd) flat)
      change 8 + (4 + c.chunkRefs.length * 4) = 8 at size
      omega
  · intro none
    exact ⟨nested_resetChunk c,(flat_resetChunk c).trans (congrArg (chunkSerializeVersion1 ∘ newBut) none)⟩

end Reset

section Steps
variable {pool pool' : ChunkPool} {granted created : Bool}

theorem free_lt (holds : PoolHolds pool) : pool.free < 2 ^ 60 :=
  Nat.lt_of_le_of_lt (List.countP_le_length ..) holds.small

/-- The array as it is while it has room, and else twice as many entries. -/
theorem expandEntries_some (expanded : expandEntries granted pool = some pool') :
    (pool' = pool ∧ pool.entries.length < pool.capacity) ∨
      (pool.capacity ≤ pool.entries.length ∧ pool.capacity * 2 < 2 ^ 60 ∧
        pool' = { pool with capacity := pool.capacity * 2, slots := pool.capacity * 2 }) := by
  rw [expandEntries] at expanded
  split at expanded
  · rename_i room
    exact .inl ⟨(Option.some.inj expanded).symm,room⟩
  · rename_i full
    split at expanded
    · rename_i wide
      exact .inr ⟨Nat.not_lt.mp full,by omega,(Option.some.inj expanded).symm⟩
    · cases expanded

theorem holds_expanded (holds : PoolHolds pool) (expanded : expandEntries granted pool = some pool') :
    PoolHolds pool' := by
  rcases expandEntries_some expanded with ⟨rfl,_⟩ | ⟨_,wide,rfl⟩
  · exact holds
  · have filled := holds.filled
    have some := holds.some
    exact ⟨holds.available,holds.distinct,holds.inside,by dsimp only; omega,by dsimp only; omega,holds.small,wide⟩

/-- The pool after the entries of one chunk changed and the chunk was reset. -/
theorem holds_reset (holds : PoolHolds pool) {entries : List PoolEntry} {available chunk : Nat}
    (same : entries.map PoolEntry.chunk = pool.entries.map PoolEntry.chunk)
    (count : available = entries.countP fun entry => !entry.inUse) :
    PoolHolds { pool with entries := entries, available := available, chunks := pool.chunks.modify chunk resetChunk } := by
  have length : entries.length = pool.entries.length := by simpa using congrArg List.length same
  refine ⟨count,?_,?_,?_,holds.some,?_,holds.slots⟩
  · exact same ▸ holds.distinct
  · intro entry member
    have listed : entry.chunk ∈ pool.entries.map PoolEntry.chunk := same ▸ List.mem_map_of_mem member
    obtain ⟨other,present,equal⟩ := List.mem_map.mp listed
    rw [← equal,List.length_modify]
    exact holds.inside other present
  · exact length ▸ holds.filled
  · exact length ▸ holds.small

theorem holds_taken (holds : PoolHolds pool) {chunk : Nat} {entries : List PoolEntry}
    (taken : takeAvailable pool.entries = some (chunk,entries)) :
    PoolHolds { pool with
      entries := entries
      available := (pool.available + (2 ^ 64 - 1)) % 2 ^ 64
      chunks := pool.chunks.modify chunk resetChunk } := by
  obtain ⟨same,count,_⟩ := takeAvailable_some taken
  apply holds_reset holds same
  have free := free_lt holds
  rw [holds.available]
  rw [ChunkPool.free] at free ⊢
  omega

theorem holds_added (holds : PoolHolds pool) (room : pool.entries.length < pool.capacity)
    (fits : pool.entries.length < pool.slots) : PoolHolds { pool with
      entries := pool.entries ++ [⟨pool.chunks.length,true⟩]
      chunks := pool.chunks ++ [chunkCreate] } := by
  have slots := holds.slots
  refine ⟨?_,?_,?_,?_,holds.some,?_,holds.slots⟩
  · rw [holds.available,ChunkPool.free,ChunkPool.free,List.countP_append]
    rfl
  · rw [List.map_append,List.nodup_append]
    refine ⟨holds.distinct,by simp,?_⟩
    intro chunk listed other last
    obtain ⟨entry,member,rfl⟩ := List.mem_map.mp listed
    have inside := holds.inside entry member
    rw [List.mem_singleton.mp last]
    exact Nat.ne_of_lt inside
  · intro entry member
    rw [List.length_append]
    rcases List.mem_append.mp member with old | new
    · exact Nat.lt_succ_of_lt (holds.inside entry old)
    · rw [List.mem_singleton.mp new]
      exact Nat.lt_succ_self _
  · rw [List.length_append]
    exact room
  · rw [List.length_append]
    exact Nat.lt_of_le_of_lt fits slots

theorem room_expanded (holds : PoolHolds pool) (expanded : expandEntries granted pool = some pool') :
    pool'.entries.length < pool'.capacity := by
  rcases expandEntries_some expanded with ⟨rfl,room⟩ | ⟨_,_,rfl⟩
  · exact room
  · have filled := holds.filled
    have some := holds.some
    dsimp only
    omega

theorem holds_acquire (holds : PoolHolds pool) : PoolHolds ((chunkPoolAcquire granted created).run pool).2 := by
  rw [chunkPoolAcquire]
  dsimp only
  split
  · rename_i chunk entries taken
    exact holds_taken holds taken
  · split
    · exact holds
    · rename_i pool' expanded
      have grown := holds_expanded holds expanded
      split
      · exact grown
      · split
        · rename_i fits
          exact holds_added grown (room_expanded holds expanded) fits
        · exact grown

theorem holds_release (holds : PoolHolds pool) (chunk : Nat) : PoolHolds ((chunkPoolRelease chunk).run pool).2 := by
  rw [chunkPoolRelease,Action.update_apply]
  dsimp only
  split
  · rename_i entries given
    obtain ⟨same,count⟩ := giveBack_some given
    apply holds_reset holds same
    have free := free_lt holds
    rw [count,holds.available]
    rw [ChunkPool.free] at free ⊢
    omega
  · exact holds

theorem holds_step (pool : ChunkPool) (op : PoolOp) (holds : PoolHolds pool) : PoolHolds (poolStep pool op) := by
  cases op with
  | acquire granted created => exact holds_acquire holds
  | release chunk => exact holds_release holds chunk
  | use chunk changed =>
    rw [poolStep]
    split
    · refine ⟨holds.available,holds.distinct,fun entry member => ?_,holds.filled,holds.some,holds.small,holds.slots⟩
      rw [List.length_set]
      exact holds.inside entry member
    · exact holds

theorem holds_created {initialCapacity : Nat} (made : chunkPoolCreate initialCapacity = some pool) : PoolHolds pool := by
  rw [chunkPoolCreate] at made
  split at made
  · cases made
  · rename_i some
    split at made
    · cases made
    · cases made
      refine ⟨rfl,List.nodup_nil,nofun,Nat.zero_le _,Nat.pos_of_ne_zero some,Nat.two_pow_pos 60,?_⟩
      dsimp only [entrySlots]
      omega

end Steps

/-- What an acquisition owes: it stays in the array, and a chunk that it returns was in nobody's use and
is written as a new one. -/
structure AcquiresNew (pool : ChunkPool) (granted created : Bool) : Prop where
  inside : ∀ index, ((chunkPoolAcquire granted created).run pool).1 ≠ .error (.overwrite index)
  unused : ∀ chunk, ((chunkPoolAcquire granted created).run pool).1 = .ok (some chunk) → pool.holds chunk = false
  new : ∀ chunk c, ((chunkPoolAcquire granted created).run pool).1 = .ok (some chunk) →
    ((chunkPoolAcquire granted created).run pool).2.chunks[chunk]? = some c → WritesAsNew c

/-- The count of available chunks is that of the entries not in use, and an acquisition gives what it owes. -/
def PoolSound (pool : ChunkPool) (op : PoolOp) : Prop :=
  pool.available = pool.free ∧ ∀ granted created, op = .acquire granted created → AcquiresNew pool granted created

/-- An acquisition finds no sub-chunk positions in a chunk that was released, and room in the array for
an entry that it adds. -/
def PoolClean (pool : ChunkPool) (op : PoolOp) : Prop :=
  ∀ granted created, op = .acquire granted created →
    (∀ chunk entries c, takeAvailable pool.entries = some (chunk,entries) → pool.chunks[chunk]? = some c →
      c.chunkRefs = []) ∧
    (takeAvailable pool.entries = none → created = true → pool.entries.length < pool.capacity →
      pool.entries.length < pool.slots)

section Runs
variable {pool : ChunkPool} {granted created : Bool}

theorem holds_false (distinct : (pool.entries.map PoolEntry.chunk).Nodup) {entry : PoolEntry}
    (member : entry ∈ pool.entries) (free : entry.inUse = false) : pool.holds entry.chunk = false := by
  rw [ChunkPool.holds,List.any_eq_false]
  intro other present
  by_cases same : other.chunk = entry.chunk
  · rw [List.inj_on_of_nodup_map distinct present member same]
    simp [free]
  · simp [same]

theorem acquiresNew_taken (holds : PoolHolds pool) {chunk : Nat} {entries : List PoolEntry}
    (taken : takeAvailable pool.entries = some (chunk,entries)) :
    AcquiresNew pool granted created ↔ ∀ c, pool.chunks[chunk]? = some c → c.chunkRefs = [] := by
  have ran : (chunkPoolAcquire granted created).run pool = (.ok (some chunk),
      ⟨entries,pool.capacity,pool.slots,(pool.available + (2 ^ 64 - 1)) % 2 ^ 64,
        pool.chunks.modify chunk resetChunk⟩) := by
    simp only [chunkPoolAcquire,taken]
  constructor
  · intro owed c found
    have new := owed.new chunk (resetChunk c) (by rw [ran]) (by rw [ran]; simp [found])
    exact (writesAsNew_resetChunk_iff c).mp new
  · intro clean
    obtain ⟨_,_,entry,member,rfl,free⟩ := takeAvailable_some taken
    constructor
    · intro index outside
      rw [ran] at outside
      cases outside
    · intro chunk given
      rw [ran] at given
      cases given
      exact holds_false holds.distinct member free
    · intro chunk c given found
      rw [ran] at given found
      cases given
      dsimp only at found
      rw [List.getElem?_modify_eq] at found
      obtain ⟨before,was,rfl⟩ := Option.map_eq_some_iff.mp found
      exact (writesAsNew_resetChunk_iff before).mpr (clean before was)

/-- The address of a chunk still to be made is in nobody's use. -/
theorem holds_next (holds : PoolHolds pool) : pool.holds pool.chunks.length = false := by
  rw [ChunkPool.holds,List.any_eq_false]
  intro entry member
  have inside := Nat.ne_of_lt (holds.inside entry member)
  simp [inside]

theorem acquiresNew_nothing (nothing : ((chunkPoolAcquire granted created).run pool).1 = .ok none) :
    AcquiresNew pool granted created := by
  constructor
  · intro index outside
    cases nothing.symm.trans outside
  · intro chunk given
    cases nothing.symm.trans given
  · intro chunk c given
    cases nothing.symm.trans given

theorem acquiresNew_added (holds : PoolHolds pool) (full : takeAvailable pool.entries = none) :
    AcquiresNew pool granted created ↔
      (created = true → pool.entries.length < pool.capacity → pool.entries.length < pool.slots) := by
  constructor
  · intro owed made room
    by_contra outside
    apply owed.inside pool.slots
    simp only [chunkPoolAcquire,full,expandEntries,if_pos room,made]
    rw [if_neg outside]
    rfl
  · intro fits
    cases expanded : expandEntries granted pool with
    | none =>
      apply acquiresNew_nothing
      simp only [chunkPoolAcquire,full,expanded]
    | some pool' =>
      cases made : created with
      | false =>
        apply acquiresNew_nothing
        simp only [chunkPoolAcquire,full,expanded]
        rfl
      | true =>
        have inside : pool'.entries.length < pool'.slots := by
          rcases expandEntries_some expanded with ⟨rfl,room⟩ | ⟨_,_,rfl⟩
          · exact fits made room
          · exact room_expanded holds expanded
        have kept : pool'.entries = pool.entries ∧ pool'.chunks = pool.chunks := by
          rcases expandEntries_some expanded with ⟨rfl,_⟩ | ⟨_,_,rfl⟩
          · exact ⟨rfl,rfl⟩
          · exact ⟨rfl,rfl⟩
        have ran : (chunkPoolAcquire granted true).run pool = (.ok (some pool'.chunks.length),
            ⟨pool'.entries ++ [⟨pool'.chunks.length,true⟩],pool'.capacity,pool'.slots,pool'.available,
              pool'.chunks ++ [chunkCreate]⟩) := by
          simp only [chunkPoolAcquire,full,expanded]
          rw [if_neg (by simp),if_pos inside]
        constructor
        · intro index outside
          rw [ran] at outside
          cases outside
        · intro chunk given
          rw [ran] at given
          cases given
          rw [kept.2]
          exact holds_next holds
        · intro chunk c given found
          rw [ran] at given found
          cases given
          dsimp only at found
          rw [List.getElem?_concat_length] at found
          cases found
          exact ⟨rfl,rfl⟩

theorem poolSound_iff (holds : PoolHolds pool) (op : PoolOp) : PoolSound pool op ↔ PoolClean pool op := by
  constructor
  · intro ⟨_,sound⟩ granted created same
    have owed := sound granted created same
    refine ⟨fun chunk entries c taken => (acquiresNew_taken holds taken).mp owed c,fun full => ?_⟩
    exact (acquiresNew_added holds full).mp owed
  · intro clean
    refine ⟨holds.available,fun granted created same => ?_⟩
    obtain ⟨reused,added⟩ := clean granted created same
    cases taken : takeAvailable pool.entries with
    | none => exact (acquiresNew_added holds taken).mpr (added taken)
    | some found => exact (acquiresNew_taken holds taken).mpr fun c => reused found.1 found.2 c taken

theorem pool_sound_iff {initialCapacity : Nat} (made : chunkPoolCreate initialCapacity = some pool) (ops : List PoolOp) :
    (∀ visit ∈ Machine.visits poolStep pool ops, PoolSound visit.1 visit.2) ↔
      ∀ visit ∈ Machine.visits poolStep pool ops, PoolClean visit.1 visit.2 := by
  have holds := Machine.visits_keep holds_step (holds_created made) ops
  constructor
  · intro sound visit member
    exact (poolSound_iff (holds visit member) visit.2).mp (sound visit member)
  · intro clean visit member
    exact (poolSound_iff (holds visit member) visit.2).mpr (clean visit member)

end Runs

def samplePool : ChunkPool := ⟨[],1,1,0,[]⟩

/-- A chunk is acquired, changed and released, and then acquired again. -/
def reuseOps (changed : Chunk) : List PoolOp :=
  [.acquire true true,.use 0 changed,.release 0,.acquire true true]

theorem reuse_sound : chunkPoolCreate 1 = some samplePool ∧
    ∀ visit ∈ Machine.visits poolStep samplePool (reuseOps { chunkCreate with ids := [3] }),
      PoolSound visit.1 visit.2 := by
  have made : chunkPoolCreate 1 = some samplePool := rfl
  refine ⟨made,(pool_sound_iff made _).mpr ?_⟩
  simp only [reuseOps,Machine.visits,List.forall_mem_cons]
  refine ⟨?_,fun _ _ same => (by cases same),fun _ _ same => (by cases same),?_,List.forall_mem_nil _⟩
  · intro granted created same
    exact ⟨fun _ _ _ taken => (by cases taken),fun _ _ room => room⟩
  · intro granted created same
    refine ⟨fun chunk entries c taken found => ?_,fun missing => (by cases missing)⟩
    cases taken
    cases found
    rfl

/-- The last user's sub-chunk positions are written with the next user's chunk. -/
theorem reuse_not_sound :
    ¬ ∀ visit ∈ Machine.visits poolStep samplePool (reuseOps { chunkCreate with chunkRefs := [5] }),
      PoolSound visit.1 visit.2 := by
  intro sound
  simp only [reuseOps,Machine.visits,List.forall_mem_cons] at sound
  have owed := sound.2.2.2.1.2 true true rfl
  have new := owed.new 0 _ rfl rfl
  have none := (writesAsNew_resetChunk_iff _).mp new
  cases none

end Libnmo.Format
