import Libnmo.Core.Arena
import Libnmo.Lib.Cursor
import Libnmo.Lib.Doubling

/-! The growable arrays `nmo_array` and `nmo_arena_array`, which differ in where their
blocks come from. Sizes wrap at 64 bits, and a growth checks neither the doubling of the
capacity nor the product with the element size. -/
namespace Libnmo.Core
open Lib Lib.Cursor Lib.Patch Lib.Doubling

/-- What an allocation gives for a size and an alignment, as the allocator is at the call. -/
structure BlockSource where
  give : Nat → Nat → Option (List UInt8)
  length_give : ∀ {size alignment block}, give size alignment = some block → block.length = size

/-- The callback on an element, by the bytes that it leaves there. -/
structure Lifecycle where
  dispose : List UInt8 → List UInt8
  length_dispose : ∀ element, (dispose element).length = element.length

/-- What the callback leaves of an element. -/
def disposed (lifecycle : Option Lifecycle) (element : List UInt8) : List UInt8 :=
  match lifecycle with
  | none => element
  | some lifecycle => lifecycle.dispose element

/-- The data is the whole block, none for a null pointer. -/
structure NmoArray where
  data : Option (List UInt8) := none
  count : Nat := 0
  capacity : Nat := 0
  elementSize : Nat
  lifecycle : Option Lifecycle := none

def NmoArray.bytes (array : NmoArray) : List UInt8 := array.data.getD []

def arrayAlignment (elementSize : Nat) : Nat :=
  let alignment := if elementSize < 8 then 8 else elementSize
  if alignment &&& (alignment - 1) ≠ 0 then 8 else alignment

/-- `memcpy` to the start of a block. -/
def copyBytes (block source : List UInt8) (size : Nat) : Result (List UInt8) :=
  if source.length < size then .error (.overread source.length)
  else if block.length < size then .error (.overwrite block.length)
  else .ok (overwrite block 0 (source.take size))

/-- The elements copied to a new block. -/
def NmoArray.copyTo (array : NmoArray) (block : List UInt8) : Result (List UInt8) :=
  if array.data.isSome ∧ array.count > 0 then copyBytes block array.bytes (array.count * array.elementSize % 2 ^ 64)
  else .ok block

def reserveFrom (source : BlockSource) (capacity : Nat) : Run NmoArray Unit where
  run array :=
    if capacity ≤ array.capacity then (.ok (),array)
    else match source.give (capacity * array.elementSize % 2 ^ 64) (arrayAlignment array.elementSize) with
      | none => (.error (.error .nomem "Failed to allocate array memory"),array)
      | some block => match array.copyTo block with
        | .error stop => (.error stop,array)
        | .ok data => (.ok (),{ array with data := some data, capacity := capacity })

/-- The capacity that the doubling starts from. -/
def NmoArray.startCapacity (array : NmoArray) : Nat := if array.capacity = 0 then 4 else array.capacity

/-- Room for more elements, by a reserve of the capacity that the doubling leads to. Out of fuel, it never ends. -/
def ensureSpaceBy (reserve : Nat → Run NmoArray Unit) (additional : Nat) : Run NmoArray Unit where
  run array :=
    if additional > 0 ∧ array.count > 2 ^ 64 - 1 - additional then (.error (.error .nomem "array size overflow"),array)
    else
      let required := (array.count + additional) % 2 ^ 64
      if required ≤ array.capacity then (.ok (),array)
      else match doubleUntil 64 required 65 array.startCapacity with
        | none => (.error .endless,array)
        | some newCapacity => (reserve newCapacity).run array

def nmoArrayReserve (allocator : BlockSource) (capacity : Nat) : Run NmoArray Unit := reserveFrom allocator capacity

def nmoArrayEnsureSpace (allocator : BlockSource) (additional : Nat) : Run NmoArray Unit :=
  ensureSpaceBy (nmoArrayReserve allocator) additional

/-- The arena is the one that the array points to, if any. -/
def nmoArenaArrayReserve (arena : Option BlockSource) (capacity : Nat) : Run NmoArray Unit :=
  match arena with
  | none => fail .invalidState "array has no arena"
  | some arena => reserveFrom arena capacity

def nmoArenaArrayEnsureSpace (arena : Option BlockSource) (additional : Nat) : Run NmoArray Unit :=
  ensureSpaceBy (nmoArenaArrayReserve arena) additional

/-- The block that an arena gives. -/
def arenaSource (arena : Arena) (holds : Nat → UInt8) : BlockSource where
  give size alignment := if size < 2 ^ 64 then
      (arenaAlloc (.ofNat size) (.ofNat alignment) arena).1.map fun block => (List.range block.size.toNat).map holds
    else none
  length_give := by
    intro size alignment block given
    split at given
    · rename_i small
      obtain ⟨placed,found,rfl⟩ := Option.map_eq_some_iff.mp given
      rw [List.length_map,List.length_range,size_arenaAlloc found,UInt64.toNat_ofNat_of_lt' small]
    · exact absurd given (Option.some_ne_none _).symm

/-- The default allocator, where memory holds zeros. It gives nothing for no bytes, or for more than `PTRDIFF_MAX`. -/
def defaultSource : BlockSource where
  give size _ := if size = 0 ∨ 2 ^ 63 ≤ size then none else some (List.replicate size 0)
  length_give := by
    intro size alignment block given
    split at given
    · exact absurd given (Option.some_ne_none _).symm
    · rw [← Option.some.inj given,List.length_replicate]

/-- The array that its fields describe: the block has the size of the capacity, which does not wrap. -/
structure NmoArray.Sized (array : NmoArray) : Prop where
  element : 0 < array.elementSize
  counted : array.count ≤ array.capacity
  fits : array.capacity * array.elementSize < 2 ^ 64
  block : array.bytes.length = array.capacity * array.elementSize

/-- The call comes back, with an error that it reports or with room for what was asked, in a block whose size is the
product of capacity and element size. -/
def GrowsTo (request : Nat) (call : Run NmoArray Unit) (array : NmoArray) : Prop :=
  match call.run array with
  | (.ok _,after) => request ≤ after.capacity ∧ after.capacity * after.elementSize < 2 ^ 64 ∧
      after.bytes.length = after.capacity * after.elementSize
  | (.error stop,_) => ∃ code message, stop = .error code message

/-- The size of the block does not wrap, or the size that it wraps to is refused. -/
def ReserveFine (array : NmoArray) (source : BlockSource) (capacity : Nat) : Prop :=
  capacity ≤ array.capacity ∨ capacity * array.elementSize < 2 ^ 64 ∨
    source.give (capacity * array.elementSize % 2 ^ 64) (arrayAlignment array.elementSize) = none

/-- The count overflows, which is reported, or has room, or the doubling comes to cover it, first with a capacity that
is fine to reserve. -/
def EnsureFine (array : NmoArray) (fine : Nat → Prop) (additional : Nat) : Prop :=
  2 ^ 64 ≤ array.count + additional ∨ array.count + additional ≤ array.capacity ∨
    ∃ round, CoversFirst 64 (array.count + additional) array.startCapacity round ∧
      fine (doubled 64 array.startCapacity round)

section
variable {array : NmoArray} {source : BlockSource} {block : List UInt8} {capacity covered request additional : Nat}

theorem NmoArray.Sized.small (sized : array.Sized) : array.capacity < 2 ^ 64 :=
  Nat.lt_of_le_of_lt (Nat.le_mul_of_pos_right _ sized.element) sized.fits

theorem NmoArray.Sized.filled (sized : array.Sized) : array.count * array.elementSize ≤ array.bytes.length := by
  rw [sized.block]
  exact Nat.mul_le_mul_right _ sized.counted

/-- Only an array with no capacity has no block. -/
theorem NmoArray.Sized.empty (sized : array.Sized) (null : array.data = none) : array.count = 0 := by
  have filled := sized.filled
  have none_there : array.bytes.length = 0 := by rw [NmoArray.bytes,null]; rfl
  rw [none_there,Nat.le_zero,Nat.mul_eq_zero] at filled
  exact filled.resolve_right (Nat.ne_of_gt sized.element)

theorem copyTo_sized (sized : array.Sized) (room : array.count * array.elementSize ≤ block.length) :
    array.copyTo block = .ok (overwrite block 0 (array.bytes.take (array.count * array.elementSize))) := by
  have used : array.count * array.elementSize < 2 ^ 64 :=
    Nat.lt_of_le_of_lt (Nat.mul_le_mul_right _ sized.counted) sized.fits
  rw [NmoArray.copyTo]
  split
  · rw [Nat.mod_eq_of_lt used,copyBytes,if_neg (Nat.not_lt.mpr sized.filled),if_neg (Nat.not_lt.mpr room)]
  · rename_i nothing
    have none_used : array.count = 0 := by
      by_contra some_used
      cases data : array.data with
      | none => exact some_used (sized.empty data)
      | some bytes => exact nothing ⟨by rw [data]; rfl,Nat.pos_of_ne_zero some_used⟩
    rw [none_used,Nat.zero_mul,List.take_zero,overwrite_nil]

theorem copyTo_fault {stop : Stop} (failed : array.copyTo block = .error stop) : stop.faults = true := by
  rw [NmoArray.copyTo] at failed
  split at failed
  · rw [copyBytes] at failed
    split at failed
    · cases failed
      rfl
    · split at failed
      · cases failed
        rfl
      · cases failed
  · cases failed

theorem reserve_enough (enough : capacity ≤ array.capacity) : (reserveFrom source capacity).run array = (.ok (),array) :=
  if_pos enough

theorem reserve_refused (more : array.capacity < capacity)
    (refused : source.give (capacity * array.elementSize % 2 ^ 64) (arrayAlignment array.elementSize) = none) :
    (reserveFrom source capacity).run array = (.error (.error .nomem "Failed to allocate array memory"),array) := by
  simp only [reserveFrom]
  rw [if_neg (Nat.not_le.mpr more),refused]

theorem reserve_granted (sized : array.Sized) (more : array.capacity < capacity)
    (fits : capacity * array.elementSize < 2 ^ 64)
    (given : source.give (capacity * array.elementSize % 2 ^ 64) (arrayAlignment array.elementSize) = some block) :
    (reserveFrom source capacity).run array = (.ok (),{ array with
      data := some (overwrite block 0 (array.bytes.take (array.count * array.elementSize)))
      capacity := capacity }) := by
  have room : array.count * array.elementSize ≤ block.length := by
    rw [source.length_give given,Nat.mod_eq_of_lt fits]
    exact Nat.mul_le_mul_right _ (Nat.le_trans sized.counted (Nat.le_of_lt more))
  simp only [reserveFrom]
  rw [if_neg (Nat.not_le.mpr more),given]
  simp only [copyTo_sized sized room]

/-- A block of a size that wrapped is never as large as the capacity says. -/
theorem reserve_wrapped (more : array.capacity < capacity) (wraps : 2 ^ 64 ≤ capacity * array.elementSize)
    (given : source.give (capacity * array.elementSize % 2 ^ 64) (arrayAlignment array.elementSize) = some block) :
    ¬ GrowsTo covered (reserveFrom source capacity) array := by
  simp only [GrowsTo,reserveFrom]
  rw [if_neg (Nat.not_le.mpr more),given]
  cases copied : array.copyTo block with
  | error stop =>
    simp only [copied]
    rintro ⟨code,message,rfl⟩
    exact absurd (copyTo_fault copied) Bool.false_ne_true
  | ok data =>
    simp only [copied]
    exact fun grown => Nat.not_lt.mpr wraps grown.2.1

theorem reserve_iff (sized : array.Sized) (covers : covered ≤ capacity) :
    GrowsTo covered (reserveFrom source capacity) array ↔ ReserveFine array source capacity := by
  rcases Nat.lt_or_ge array.capacity capacity with more | enough
  · cases given : source.give (capacity * array.elementSize % 2 ^ 64) (arrayAlignment array.elementSize) with
    | none =>
      rw [GrowsTo,reserve_refused more given]
      exact iff_of_true ⟨_,_,rfl⟩ (.inr (.inr given))
    | some block =>
      rcases Nat.lt_or_ge (capacity * array.elementSize) (2 ^ 64) with fits | wraps
      · rw [GrowsTo,reserve_granted sized more fits given]
        refine iff_of_true ⟨covers,fits,?_⟩ (.inr (.inl fits))
        have size := source.length_give given
        rw [Nat.mod_eq_of_lt fits] at size
        have used : array.count * array.elementSize ≤ capacity * array.elementSize :=
          Nat.mul_le_mul_right _ (Nat.le_trans sized.counted (Nat.le_of_lt more))
        simp only [NmoArray.bytes,Option.getD_some]
        rw [length_overwrite,size]
        rw [Nat.zero_add,size]
        exact Nat.le_trans (List.length_take_le _ _) used
      · refine iff_of_false (reserve_wrapped more wraps given) ?_
        rintro (enough | fits | refused)
        · exact Nat.not_le.mpr more enough
        · exact Nat.not_lt.mpr wraps fits
        · rw [given] at refused
          cases refused
  · rw [GrowsTo,reserve_enough enough]
    exact iff_of_true ⟨Nat.le_trans covers enough,sized.fits,sized.block⟩ (.inl enough)

theorem arenaReserve_iff (sized : array.Sized) (arena : Option BlockSource) (covers : covered ≤ capacity) :
    GrowsTo covered (nmoArenaArrayReserve arena capacity) array ↔ ∀ source ∈ arena, ReserveFine array source capacity := by
  cases arena with
  | none => exact iff_of_true ⟨_,_,rfl⟩ nofun
  | some source => exact (reserve_iff sized covers).trans (by simp)

section
variable {reserve : Nat → Run NmoArray Unit}

theorem ensureSpace_overflow (small : additional < 2 ^ 64) (counted : array.count < 2 ^ 64)
    (overflows : 2 ^ 64 ≤ array.count + additional) :
    (ensureSpaceBy reserve additional).run array = (.error (.error .nomem "array size overflow"),array) :=
  if_pos (by omega)

theorem ensureSpace_below (below : array.count + additional < 2 ^ 64) : (ensureSpaceBy reserve additional).run array =
    if array.count + additional ≤ array.capacity then (.ok (),array)
    else match doubleUntil 64 (array.count + additional) 65 array.startCapacity with
      | none => (.error .endless,array)
      | some newCapacity => (reserve newCapacity).run array := by
  simp only [ensureSpaceBy]
  rw [if_neg (by omega),Nat.mod_eq_of_lt below]

theorem NmoArray.Sized.start (sized : array.Sized) : array.startCapacity < 2 ^ 64 := by
  rw [NmoArray.startCapacity]
  split
  · decide
  · exact sized.small

/-- Room for more elements, for any reserve that is right just when it is fine. -/
theorem ensureSpace_iff (sized : array.Sized) {fine : Nat → Prop}
    (right : ∀ {capacity covered}, covered ≤ capacity → (GrowsTo covered (reserve capacity) array ↔ fine capacity))
    (small : additional < 2 ^ 64) : GrowsTo (array.count + additional) (ensureSpaceBy reserve additional) array ↔
      EnsureFine array fine additional := by
  rcases Nat.lt_or_ge (array.count + additional) (2 ^ 64) with below | overflows
  · rw [GrowsTo,ensureSpace_below below]
    rcases Nat.lt_or_ge array.capacity (array.count + additional) with short | enough
    · rw [if_neg (Nat.not_le.mpr short),EnsureFine,or_iff_right (Nat.not_le.mpr below),or_iff_right (Nat.not_le.mpr short)]
      have ends {reached : Nat} := @doubleUntil_ends _ _ _ _ reached sized.start (Nat.zero_lt_of_lt short)
        (Nat.le_succ 64)
      cases grown : doubleUntil 64 (array.count + additional) 65 array.startCapacity with
      | none =>
        refine iff_of_false (by simp) ?_
        rintro ⟨round,first,_⟩
        have some_end := ends.mpr ⟨round,first,rfl⟩
        rw [grown] at some_end
        cases some_end
      | some newCapacity =>
        obtain ⟨round,first,rfl⟩ := ends.mp grown
        refine (right first.1).trans ⟨fun fine => ⟨round,first,fine⟩,?_⟩
        rintro ⟨other,again,fine⟩
        rw [first.unique again]
        exact fine
    · rw [if_pos enough]
      exact iff_of_true ⟨enough,sized.fits,sized.block⟩ (.inr (.inl enough))
  · rw [GrowsTo,ensureSpace_overflow small (Nat.lt_of_le_of_lt sized.counted sized.small) overflows]
    exact iff_of_true ⟨_,_,rfl⟩ (.inl overflows)

end

/-- Growing ends, and gives as much room as the capacity says, just when the doubling comes to cover the count and the
size of the block does not wrap; what is refused or reported does no harm. -/
theorem growth_covers_iff (sized : array.Sized) (allocator : BlockSource) (arena : Option BlockSource)
    (small : request < 2 ^ 64) :
    (GrowsTo request (nmoArrayReserve allocator request) array ↔ ReserveFine array allocator request) ∧
    (GrowsTo (array.count + request) (nmoArrayEnsureSpace allocator request) array ↔
      EnsureFine array (ReserveFine array allocator) request) ∧
    (GrowsTo request (nmoArenaArrayReserve arena request) array ↔
      ∀ source ∈ arena, ReserveFine array source request) ∧
    (GrowsTo (array.count + request) (nmoArenaArrayEnsureSpace arena request) array ↔
      EnsureFine array (fun capacity => ∀ source ∈ arena, ReserveFine array source capacity) request) :=
  ⟨reserve_iff sized (Nat.le_refl _),ensureSpace_iff sized (reserve_iff sized) small,
    arenaReserve_iff sized arena (Nat.le_refl _),ensureSpace_iff sized (arenaReserve_iff sized arena) small⟩

theorem sized_empty {elementSize : Nat} (lifecycle : Option Lifecycle) (positive : 0 < elementSize) :
    NmoArray.Sized { elementSize := elementSize, lifecycle := lifecycle } where
  element := positive
  counted := Nat.le_refl _
  fits := by simp
  block := by simp [NmoArray.bytes]

/-- It is enough that some doubling covers the count in a block whose size does not wrap. -/
theorem ensureFine_doubling (sized : array.Sized) {round : Nat} (covers : array.count + additional ≤ array.startCapacity * 2 ^ round)
    (fits : array.startCapacity * 2 ^ round * array.elementSize < 2 ^ 64) :
    EnsureFine array (ReserveFine array source) additional := by
  have small : array.startCapacity * 2 ^ round < 2 ^ 64 :=
    Nat.lt_of_le_of_lt (Nat.le_mul_of_pos_right _ sized.element) fits
  obtain ⟨first,early,reaches,same⟩ := coversFirst_of_pow covers small
  refine .inr (.inr ⟨first,reaches,.inr (.inl ?_)⟩)
  rw [same]
  exact Nat.lt_of_le_of_lt (Nat.mul_le_mul_right _ (Nat.mul_le_mul_left _ (Nat.pow_le_pow_right (by decide) early))) fits

theorem five_covered : GrowsTo 5 (nmoArrayReserve defaultSource 5) { elementSize := 8 } ∧
    GrowsTo (0 + 5) (nmoArrayEnsureSpace defaultSource 5) { elementSize := 8 } ∧
    GrowsTo 5 (nmoArenaArrayReserve ((arenaCreate {} 4096).map fun arena => arenaSource arena fun _ => 0) 5)
      { elementSize := 8 } := by
  have sized := sized_empty none (by decide : 0 < 8)
  have each := growth_covers_iff sized defaultSource ((arenaCreate {} 4096).map fun arena => arenaSource arena fun _ => 0)
    (by decide : 5 < 2 ^ 64)
  exact ⟨each.1.mpr (.inr (.inl (by decide))),
    each.2.1.mpr (ensureFine_doubling sized (by decide : 0 + 5 ≤ 4 * 2 ^ 1) (by decide)),
    each.2.2.1.mpr fun source _ => .inr (.inl (by decide))⟩

/-- A reserve that ends with a block of 8 bytes for 2^61 + 1 elements of 8 bytes, and a doubling that never ends. -/
theorem growth_wraps : ¬ GrowsTo (2 ^ 61 + 1) (nmoArrayReserve defaultSource (2 ^ 61 + 1)) { elementSize := 8 } ∧
    ¬ GrowsTo (0 + (2 ^ 64 - 1)) (nmoArrayEnsureSpace defaultSource (2 ^ 64 - 1)) { elementSize := 1 } := by
  constructor
  · intro grown
    exact absurd grown.2.1 (by decide)
  · rintro ⟨code,message,same⟩
    cases same

end

end Libnmo.Core
