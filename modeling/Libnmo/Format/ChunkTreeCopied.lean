import Libnmo.Format.ChunkTree
import Libnmo.Lib.Abreast

/-! What the reader of the nested format copies. A list of words has the count that
the buffer declares for it, and is copied with a length of 32 bits: from 2^30 words
on the length wraps, and the list says more than was copied. -/
namespace Libnmo.Format
open Core Lib Lib.LittleEndian Lib.Cursor

mutual
/-- The sizes of all lists of a tree: data, IDs, children with theirs, managers. -/
def listSizes : Chunk → List Nat
  | c@{ chunks := children, .. } =>
    [c.dataSize,c.ids.length] ++ (children.length :: childrenListSizes children) ++ [c.managers.length]
termination_by structural c => c
def childrenListSizes : List Chunk → List Nat
  | [] => []
  | child :: children => listSizes child ++ childrenListSizes children
termination_by structural children => children
end

section Walks
variable {α β : Type} (buffer : List UInt8)

/-- The lists of a tree in the order of the buffer, with what is noted of each: of a list of words by its
count, of the children by their count and how many were read. -/
def treeWalk (words : UInt32 → String → Run Nat α) (chunks : UInt32 → Nat → α) : Nat → Run Nat (List α)
  | 0 => Action.stop .endless
  | fuel + 1 => do
    let versionInfo ← readU32 buffer
    let chunkOptions : UInt32 := (versionInfo >>> 24) &&& 0xFF
    let chunkSizeDwords ← readU32 buffer
    let data ← words chunkSizeDwords "Failed to allocate chunk data"
    let ids ← optional chunkOptions optionIds "Failed to allocate IDs"
    let below ← (if hasFlag chunkOptions optionChn then do
      let chunkCount ← readU32 buffer
      let children ← (treeWalk words chunks fuel).times chunkCount.toNat
      pure (chunks chunkCount children.length :: children.flatten)
    else pure [chunks 0 0])
    let managers ← optional chunkOptions optionMan "Failed to allocate managers"
    pure ([data,ids] ++ below ++ [managers])
where
  /-- A list that stands where `flag` is set. -/
  optional (options flag : UInt32) (message : String) : Run Nat α :=
    if hasFlag options flag then do
      let count ← readU32 buffer
      words count message
    else words 0 message

/-- How many words are copied for a count. -/
def copiedWords (count : UInt32) (message : String) : Run Nat Nat :=
  if count > 0 then
    let len : UInt32 := count * 4
    if len = 0 then fail .nomem message
    else do
      let bytes ← readBytes buffer len.toNat
      pure (decodeWords bytes).length
  else pure 0

/-- How many entries of each list come from the buffer. -/
def copiedCounts : Nat → Run Nat (List Nat) := treeWalk buffer (copiedWords buffer) fun _ read => read

inductive DeclaredList
  | words (count : UInt32)
  | chunks (count : UInt32)

/-- The count that the buffer declares for each list. -/
def declaredLists : Nat → Run Nat (List DeclaredList) :=
  treeWalk buffer (fun count message => do
    let _ ← copiedWords buffer count message
    pure (.words count)) fun count _ => .chunks count

end Walks

/-- Each list of each chunk has as many entries as came from the buffer for it. -/
def CopiedWhole (beyond : Nat → UInt32) (buffer : List UInt8) : Prop :=
  ∀ c, chunkDeserialize beyond buffer = .ok c →
    ∃ pos, (copiedCounts buffer buffer.length).run 0 = (.ok (listSizes c),pos)

/-- Wherever a whole tree is declared, no list of words is declared with 2^30 entries or more. -/
def CountsSmall (buffer : List UInt8) : Prop :=
  ∀ declared pos, (declaredLists buffer buffer.length).run 0 = (.ok declared,pos) →
    ∀ count, .words count ∈ declared → count.toNat < 2 ^ 30

namespace DeclaredList

def size : DeclaredList → Nat
  | words count | chunks count => count.toNat

def copied : DeclaredList → Nat
  | words count => count.toNat % 2 ^ 30
  | chunks count => count.toNat

theorem copied_iff (list : DeclaredList) : list.copied = list.size ↔ ∀ count, words count = list → count.toNat < 2 ^ 30 := by
  cases list with
  | words count =>
    constructor
    · intro same count' held
      cases held
      rw [copied,size] at same
      rw [← same]
      exact Nat.mod_lt _ (Nat.two_pow_pos 30)
    · exact fun small => Nat.mod_eq_of_lt (small count rfl)
  | chunks count => exact iff_of_true rfl nofun

end DeclaredList

section Steps
variable {buffer : List UInt8} {α β : Type}

theorem listSizes_eq (c : Chunk) : listSizes c =
    [c.dataSize,c.ids.length] ++ (c.chunks.length :: c.chunks.flatMap listSizes) ++ [c.managers.length] := by
  have children (list : List Chunk) : childrenListSizes list = list.flatMap listSizes := by
    induction list with
    | nil => rfl
    | cons child list ih => rw [childrenListSizes,ih,List.flatMap_cons]
  cases c
  rw [listSizes,children]

theorem readBytes_length {len pos next : Nat} {bytes : List UInt8}
    (ran : (readBytes buffer len).run pos = (.ok bytes,next)) : bytes.length = len := by
  rw [readBytes] at ran
  dsimp only at ran
  split at ran
  · cases ran
  · rename_i room
    cases ran
    exact length_slice buffer pos len (Nat.not_lt.mp room)

theorem wrapped_dwords (count : UInt32) : (count * 4).toNat / 4 = count.toNat % 2 ^ 30 := by
  have product : (count * 4).toNat = count.toNat * 4 % 2 ^ 32 := UInt32.toNat_mul count 4
  rw [product]
  omega

/-- The reader takes the bytes that are copied, and its list is as long as the count. -/
theorem words_lockstep (beyond : Nat → UInt32) (count : UInt32) (message : String) :
    Lockstep (fun list copied => list.length = count.toNat ∧ copied = count.toNat % 2 ^ 30)
      (readDwords beyond buffer count message) (copiedWords buffer count message) := by
  rw [readDwords,copiedWords]
  split
  · dsimp only
    split
    · exact .stop _
    · refine .after (fun _ _ _ ran => readBytes_length ran) fun bytes length => .pure ?_
      have copied : (decodeWords bytes).length = count.toNat % 2 ^ 30 := by
        rw [length_decodeWords,length,wrapped_dwords]
      have fewer := Nat.mod_le count.toNat (2 ^ 30)
      refine ⟨?_,copied⟩
      rw [List.length_append,List.length_map,List.length_range,copied]
      omega
  · rename_i zero
    obtain rfl : count = 0 := by simpa using zero
    exact .pure ⟨rfl,rfl⟩

theorem flatten_noted {f : β → α} {lists : List (List α)} {lists' : List (List β)}
    (same : List.Forall₂ (fun found noted => found = noted.map f) lists lists') :
    lists.flatten = lists'.flatten.map f := by
  induction same with
  | nil => rfl
  | cons head _ ih => rw [List.flatten_cons,List.flatten_cons,List.map_append,head,ih]

theorem flatten_sizes {chunks : List Chunk} {lists : List (List DeclaredList)}
    (same : List.Forall₂ (fun c noted => listSizes c = noted.map DeclaredList.size) chunks lists) :
    chunks.flatMap listSizes = lists.flatten.map DeclaredList.size := by
  rw [List.flatMap_def]
  exact flatten_noted (List.forall₂_map_left_iff.mpr same)

/-- Walks that take the same bytes note related things. -/
theorem walk_lockstep {f : β → α} {words : UInt32 → String → Run Nat α} {words' : UInt32 → String → Run Nat β}
    {chunks : UInt32 → Nat → α} {chunks' : UInt32 → Nat → β}
    (each : ∀ count message, Lockstep (fun a b => a = f b) (words count message) (words' count message))
    (children : ∀ count read, read = count.toNat → chunks count read = f (chunks' count read)) (fuel : Nat) :
    Lockstep (fun found noted => found = noted.map f) (treeWalk buffer words chunks fuel)
      (treeWalk buffer words' chunks' fuel) := by
  have listed (options flag : UInt32) (message : String) : Lockstep (fun a b => a = f b)
      (treeWalk.optional buffer words options flag message) (treeWalk.optional buffer words' options flag message) := by
    rw [treeWalk.optional,treeWalk.optional]
    split
    · exact .first fun count => each count message
    · exact each 0 message
  induction fuel with
  | zero => exact .stop _
  | succ fuel ih =>
    refine .first fun versionInfo => .first fun size => .bind (each size _) fun data data' sameData => ?_
    refine .bind (listed _ _ _) fun ids ids' sameIds => .bind (?_ : Lockstep (fun found noted => found = noted.map f) _ _)
      fun below below' sameBelow => .bind (listed _ _ _) fun managers managers' sameManagers => .pure ?_
    · split
      · refine .first fun chunkCount => .bind (ih.times _) fun lists lists' same => .pure ?_
        rw [List.map_cons,← children chunkCount lists'.length (same.2.length_eq.symm.trans same.1),
          same.2.length_eq,flatten_noted same.2]
      · refine .pure ?_
        rw [children 0 0 rfl]
        rfl
    · rw [sameData,sameIds,sameBelow,sameManagers]
      simp

theorem copied_lockstep (fuel : Nat) :
    Lockstep (fun copied declared => copied = declared.map DeclaredList.copied) (copiedCounts buffer fuel)
      (declaredLists buffer fuel) := by
  refine walk_lockstep (fun count message => ?_) (fun count read same => ?_) fuel
  · refine .note (.self fun s copied t ran => ?_) fun _ _ held => held.1.trans held.2
    obtain ⟨_,_,same⟩ := (words_lockstep (fun _ => 0) count message).symm.ok_left ran
    exact same.2
  · exact same

/-- The reader takes the bytes of the lists that are declared, and its lists have the sizes that are declared. -/
theorem sizes_lockstep (beyond : Nat → UInt32) (fuel : Nat) :
    Lockstep (fun c declared => listSizes c = declared.map DeclaredList.size)
      (chunkDeserializeInternal beyond buffer fuel) (declaredLists buffer fuel) := by
  have words (size : UInt32) (message : String) :
      Lockstep (fun data noted => data.length = size.toNat ∧ noted = DeclaredList.words size)
        (readDwords beyond buffer size message)
        (copiedWords buffer size message >>= fun _ => pure (DeclaredList.words size)) :=
    .note (words_lockstep beyond size message) fun _ _ held => ⟨held.1,rfl⟩
  have listed (options flag : UInt32) (message : String) :
      Lockstep (fun list declared => list.length = DeclaredList.size declared)
        (readList beyond buffer options flag message) (treeWalk.optional buffer (fun count message => do
          let _ ← copiedWords buffer count message
          pure (.words count)) options flag message) := by
    rw [readList,treeWalk.optional]
    split
    · exact .first fun count => .note (words_lockstep beyond count message) fun _ _ held => held.1
    · exact .note (words_lockstep beyond 0 message) fun _ _ held => held.1
  induction fuel with
  | zero => exact .stop _
  | succ fuel ih =>
    refine .first fun versionInfo => .first fun size => .bind (words size _) fun data data' sameData => ?_
    refine .bind (listed _ _ _) fun ids ids' sameIds =>
      .bind (?_ : Lockstep (fun chunks noted => chunks.length :: chunks.flatMap listSizes =
        noted.map DeclaredList.size) _ _) fun below below' sameBelow => .bind (listed _ _ _) fun managers managers' sameManagers => .pure ?_
    · split
      · refine .first fun chunkCount => .note (ih.times _) fun chunks lists same => ?_
        rw [List.map_cons,same.1,← flatten_sizes same.2]
        rfl
      · exact .pure rfl
    · have stored : ((if size > 0 then some data else none).getD []).length = size.toNat := by
        split
        · exact sameData.1
        · rename_i zero
          obtain rfl : size = 0 := by simpa using zero
          rfl
      rw [listSizes_eq,sameData.2]
      simp only [Chunk.dataSize,Chunk.words,stored,sameIds,sameBelow,sameManagers,List.map_append,List.map_cons,List.map_nil]
      rfl

end Steps

section Depth
variable {buffer : List UInt8} {α β : Type}

/-- From a position in the buffer, not before the first bound, the action comes to an end: it stops, or it
comes to such a position for the second bound. -/
def Ends (buffer : List UInt8) (before after : Nat) (action : Run Nat α) : Prop :=
  ∀ pos, before ≤ pos → pos ≤ buffer.length → match action.run pos with
    | (.ok _,next) => after ≤ next ∧ next ≤ buffer.length
    | (.error stop,_) => stop ≠ .endless

theorem ends_pure (bound : Nat) (a : α) : Ends buffer bound bound (pure a : Run Nat α) :=
  fun _ within inside => ⟨within,inside⟩

theorem ends_fail (before after : Nat) (code : ErrorCode) (message : String) :
    Ends buffer before after (fail code message : Run Nat α) := fun _ _ _ => nofun

theorem ends_bind {before between after : Nat} {first : Run Nat α} {next : α → Run Nat β}
    (head : Ends buffer before between first) (tail : ∀ a, Ends buffer between after (next a)) :
    Ends buffer before after (first >>= next) := by
  intro pos within inside
  have reached := head pos within inside
  cases ran : first.run pos with
  | mk outcome pos' =>
    rw [ran] at reached
    cases outcome with
    | ok a =>
      rw [Action.bind_ok next ran]
      exact tail a pos' reached.1 reached.2
    | error stop =>
      rw [Action.bind_error next ran]
      exact reached

theorem ends_times {bound : Nat} {action : Run Nat α} (ends : Ends buffer bound bound action) (count : Nat) :
    Ends buffer bound bound (action.times count) := by
  induction count with
  | zero => exact ends_pure bound []
  | succ count ih => exact ends_bind ends fun value => ends_bind ih fun values => ends_pure bound (value :: values)

theorem ends_readBytes (bound len : Nat) : Ends buffer bound (bound + len) (readBytes buffer len) := by
  intro pos within inside
  by_cases room : pos + len > buffer.length
  · rw [readBytes]
    simp only [if_pos room]
    exact nofun
  · rw [readBytes]
    simp only [if_neg room]
    exact ⟨Nat.add_le_add_right within len,Nat.not_lt.mp room⟩

theorem ends_readU32 (bound : Nat) : Ends buffer bound (bound + 4) (readU32 buffer) :=
  ends_bind (ends_readBytes bound 4) fun _ => ends_pure _ _

theorem ends_mono {before between after : Nat} {action : Run Nat α} (ends : Ends buffer before after action)
    (less : between ≤ after) : Ends buffer before between action := by
  intro pos within inside
  have reached := ends pos within inside
  split at reached
  · exact ⟨Nat.le_trans less reached.1,reached.2⟩
  · exact reached

theorem ends_readDwords (beyond : Nat → UInt32) (bound : Nat) (count : UInt32) (message : String) :
    Ends buffer bound bound (readDwords beyond buffer count message) := by
  rw [readDwords]
  split
  · dsimp only
    split
    · exact ends_fail _ _ _ _
    · exact ends_bind (ends_mono (ends_readBytes bound _) (Nat.le_add_right _ _)) fun _ => ends_pure bound _
  · exact ends_pure bound []

theorem ends_readList (beyond : Nat → UInt32) (bound : Nat) (options flag : UInt32) (message : String) :
    Ends buffer bound bound (readList beyond buffer options flag message) := by
  rw [readList]
  split
  · exact ends_bind (ends_mono (ends_readU32 bound) (Nat.le_add_right _ _)) fun count =>
      ends_readDwords beyond bound count message
  · exact ends_pure bound []

/-- Each level of the recursion takes eight bytes, so the buffer bounds its depth. -/
theorem ends_deserialize (beyond : Nat → UInt32) (fuel : Nat) :
    ∀ bound, buffer.length < bound + 8 * fuel → Ends buffer bound bound (chunkDeserializeInternal beyond buffer fuel) := by
  induction fuel with
  | zero =>
    intro bound deep pos within inside
    omega
  | succ fuel ih =>
    intro bound deep
    refine ends_mono ?_ (by omega : bound ≤ bound + 4 + 4)
    refine ends_bind (ends_readU32 bound) fun versionInfo => ends_bind (ends_readU32 _) fun size =>
      ends_bind (ends_readDwords beyond _ size _) fun data => ends_bind (ends_readList beyond _ _ _ _) fun ids =>
      ends_bind ?_ fun chunks => ends_bind (ends_readList beyond _ _ _ _) fun managers => ends_pure _ _
    split
    · exact ends_bind (ends_mono (ends_readU32 _) (Nat.le_add_right _ _)) fun chunkCount =>
        ends_times (ih _ (by omega)) chunkCount.toNat
    · exact ends_pure _ _

end Depth

section
variable (beyond : Nat → UInt32) (buffer : List UInt8)

theorem deserialize_ends : chunkDeserialize beyond buffer ≠ .error .endless := by
  rw [chunkDeserialize]
  split
  · exact nofun
  · rename_i long
    have deep : buffer.length < 0 + 8 * buffer.length := by omega
    have ends := ends_deserialize beyond buffer.length 0 deep 0 (Nat.le_refl 0) (Nat.zero_le _)
    split at ends
    · rename_i ran
      rw [ran]
      exact nofun
    · rename_i stop pos ran
      rw [ran]
      exact fun endless => ends (Except.error.inj endless)

/-- A tree is declared only in a buffer that holds the header of one. -/
theorem declared_long {fuel pos : Nat} {declared : List DeclaredList}
    (ran : (declaredLists buffer fuel).run 0 = (.ok declared,pos)) : ¬ buffer.length < 8 := by
  cases fuel with
  | zero => cases ran
  | succ fuel =>
    obtain ⟨versionInfo,p,first,ran⟩ := Action.bind_success ran
    obtain ⟨size,q,second,_⟩ := Action.bind_success ran
    have reads (bound : Nat) : Ends buffer bound (bound + 4) (readU32 buffer) := ends_readU32 bound
    have four := reads 0 0 (Nat.le_refl 0) (Nat.zero_le _)
    rw [first] at four
    have eight := reads 4 p four.1 four.2
    rw [second] at eight
    omega

theorem copied_whole_iff : CopiedWhole beyond buffer ↔ CountsSmall buffer := by
  constructor
  · intro whole declared pos ran count member
    obtain ⟨c,read,sizes⟩ := (sizes_lockstep beyond buffer.length).symm.ok_left ran
    have result : chunkDeserialize beyond buffer = .ok c := by
      rw [chunkDeserialize,if_neg (declared_long buffer ran),read]
    obtain ⟨next,counted⟩ := whole c result
    obtain ⟨again,ran',copies⟩ := (copied_lockstep buffer.length).ok_left counted
    rw [ran] at ran'
    cases ran'
    have same : declared.map DeclaredList.copied = declared.map DeclaredList.size := copies.symm.trans sizes
    exact (DeclaredList.copied_iff _).mp (List.map_inj_left.mp same _ member) count rfl
  · intro small c result
    rw [chunkDeserialize] at result
    split at result
    · cases result
    · cases ran : (chunkDeserializeInternal beyond buffer buffer.length).run 0 with
      | mk outcome pos =>
        rw [ran] at result
        obtain rfl : outcome = .ok c := result
        obtain ⟨declared,walked,sizes⟩ := (sizes_lockstep beyond buffer.length).ok_left ran
        obtain ⟨copied,counted,copies⟩ := (copied_lockstep buffer.length).symm.ok_left walked
        refine ⟨pos,counted.trans ?_⟩
        rw [copies,sizes]
        congr 2
        refine List.map_inj_left.mpr fun list member => (DeclaredList.copied_iff list).mpr ?_
        rintro count rfl
        exact small declared pos walked count member

/-- A read of the nested format comes to an end, and each list of its tree has as many entries as were copied
for it just when no list of words is declared with 2^30 entries or more. -/
theorem deserialize_copied : chunkDeserialize beyond buffer ≠ .error .endless ∧
    (CopiedWhole beyond buffer ↔ CountsSmall buffer) :=
  ⟨deserialize_ends beyond buffer,copied_whole_iff beyond buffer⟩

/-- One word of data, which is declared as 2^30 + 1. -/
def wrappedSize : List UInt8 := encodeWords [0,0x40000001,7]

theorem wrappedSize_short : ¬ ∀ (beyond : Nat → UInt32) (buffer : List UInt8), CopiedWhole beyond buffer := by
  intro all
  have small := (copied_whole_iff _ _).mp (all (fun _ => 0) wrappedSize)
  have declared : (declaredLists wrappedSize wrappedSize.length).run 0 =
      (.ok [.words 0x40000001,.words 0,.chunks 0,.words 0],12) := rfl
  exact absurd (small _ 12 declared 0x40000001 (List.mem_cons_self ..)) (by decide)

end

end Libnmo.Format
