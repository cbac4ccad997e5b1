import Libnmo.Core.Error
import Libnmo.Lib.Cursor
import Libnmo.Lib.Files
import Libnmo.Lib.Doubling

/-! The write handle of memory IO. `data` is the whole allocation, so its length is
the capacity and a null pointer is an empty list; sizes wrap at 64 bits. Allocation
may be refused, and what a new allocation holds is not known. -/
namespace Libnmo.Io
open Core Lib Lib.Cursor Lib.Patch

def sizeMod : Nat := 2 ^ 64

/-- The allocator at a call. No allocation exceeds `PTRDIFF_MAX`. -/
structure Heap where
  grants : Nat → Bool := fun size => size < 2 ^ 63
  holds : Nat → UInt8 := fun _ => 0
  limited : ∀ size, grants size → size < 2 ^ 63 := by simp

/-- A new allocation, when there is one. -/
def Heap.alloc (heap : Heap) (size : Nat) : Option (List UInt8) :=
  if size ≠ 0 ∧ heap.grants size then some ((List.range size).map heap.holds) else none

structure MemoryWriteHandle where
  data : List UInt8 := []
  size : Nat := 0
  position : Nat := 0

def MemoryWriteHandle.capacity (h : MemoryWriteHandle) : Nat := h.data.length

inductive SeekOrigin
  | set | cur | ofEnd
  deriving DecidableEq, Repr

/-- The loop that doubles the capacity. A capacity doubled 64 times is zero, and so it stays: out of fuel, the
loop never ends. -/
def doubleUntil (required : Nat) : Nat → Nat → Option Nat
  | 0,_ => none
  | fuel + 1,capacity => if capacity < required then doubleUntil required fuel (capacity * 2 % sizeMod) else some capacity

def grownCapacity (capacity required : Nat) : Option Nat :=
  doubleUntil required 65 (if capacity = 0 then 64 else capacity)

/-- The bytes read, whose number is `*bytes_read`. -/
def memoryWriteIoRead (size : Nat) : Run MemoryWriteHandle (List UInt8) where
  run h :=
    let available := (h.size + sizeMod - h.position) % sizeMod
    let toRead := if size < available then size else available
    if toRead > 0 then
      if h.position + toRead ≤ h.capacity then
        (.ok (slice h.data h.position toRead),{ h with position := h.position + toRead })
      else (.error (.overread (max h.position h.capacity)),h)
    else (.ok [],h)

/-- The allocation after a check for room: the bytes up to the size are copied to a new one. -/
def ensureCapacity (heap : Heap) (required : Nat) : Run MemoryWriteHandle Unit where
  run h :=
    if required > h.capacity then match grownCapacity h.capacity required with
      | none => (.error .endless,h)
      | some newCapacity => match heap.alloc newCapacity with
        | none => (.error (.error .nomem ""),h)
        | some newData => (.ok (),{ h with data := overwrite newData 0 (h.data.take h.size) })
    else (.ok (),h)

/-- The `memcpy` to the position and the update of position and size. -/
def storeBytes (buffer : List UInt8) : Run MemoryWriteHandle Unit where
  run h :=
    if buffer.length > 0 ∧ h.capacity < h.position + buffer.length then
      (.error (.overwrite (max h.position h.capacity)),h)
    else
      let position := (h.position + buffer.length) % sizeMod
      (.ok (),{ data := overwrite h.data h.position buffer, size := max h.size position, position := position })

def memoryWriteIoWrite (heap : Heap) (buffer : List UInt8) : Run MemoryWriteHandle Unit := do
  let required ← Action.read fun h => (h.position + buffer.length) % sizeMod
  ensureCapacity heap required
  storeBytes buffer

/-- A value taken for an `int64_t`. -/
def asInt64 (value : Int) : Int := value.bmod (2 ^ 64)

def memoryWriteIoSeek (offset : Int64) (origin : SeekOrigin) : Run MemoryWriteHandle Unit where
  run h :=
    let newPos : Int := match origin with
      | .set => offset.toInt
      | .cur => asInt64 (asInt64 h.position + offset.toInt)
      | .ofEnd => asInt64 (asInt64 h.size + offset.toInt)
    if newPos < 0 then (.error (.error .invalidOffset ""),h)
    else (.ok (),{ h with position := newPos.toNat })

def memoryWriteIoTell : Run MemoryWriteHandle Int := Action.read fun h => asInt64 h.position

/-- The handle without its interface. -/
def memoryIoOpenWrite (heap : Heap) (initialCapacity : Nat) : Option MemoryWriteHandle :=
  if initialCapacity > 0 then (heap.alloc initialCapacity).map fun data => { data := data }
  else some {}

end Libnmo.Io

/-! The write handle as a byte file. It is one as long as no read starts past the end
and no write leaves a gap in memory that is not zero: neither is guarded, and a gap is
never filled. -/
namespace Libnmo.Io
open Core Lib Lib.Cursor Lib.Patch

inductive MemoryOp
  | read (size : Nat)
  | write (heap : Heap) (buffer : List UInt8)
  | seek (offset : Int64) (origin : SeekOrigin)
  | tell

inductive MemoryAnswer
  | bytes (values : List UInt8)
  | done
  | position (value : Int)
  deriving DecidableEq, Repr

def memoryStep : MemoryOp → Run MemoryWriteHandle MemoryAnswer
  | .read size => do
    let values ← memoryWriteIoRead size
    pure (.bytes values)
  | .write heap buffer => do
    memoryWriteIoWrite heap buffer
    pure .done
  | .seek offset origin => do
    memoryWriteIoSeek offset origin
    pure .done
  | .tell => do
    let value ← memoryWriteIoTell
    pure (.position value)

/-- Where a seek in a byte file leads. -/
def seekTarget (file : ByteFile UInt8) (offset : Int64) : SeekOrigin → Int
  | .set => offset.toInt
  | .cur => file.position + offset.toInt
  | .ofEnd => file.size + offset.toInt

/-- What a byte file answers, and the file after it. A write may be refused for want of memory, and a seek
goes where an offset can say. -/
inductive FileStep : MemoryOp → ByteFile UInt8 → Result MemoryAnswer → ByteFile UInt8 → Prop
  | read (count : Nat) (file : ByteFile UInt8) :
      FileStep (.read count) file (.ok (.bytes (file.available count))) (file.read count)
  | write (heap : Heap) (buffer : List UInt8) (file : ByteFile UInt8) :
      FileStep (.write heap buffer) file (.ok .done) (file.write 0 buffer)
  | refused (heap : Heap) (buffer : List UInt8) (file : ByteFile UInt8) (capacity : Nat)
      (enough : file.position + buffer.length ≤ capacity) (none : heap.grants capacity = false) :
      FileStep (.write heap buffer) file (.error (.error .nomem "")) file
  | seek (offset : Int64) (origin : SeekOrigin) (file : ByteFile UInt8) (low : 0 ≤ seekTarget file offset origin)
      (high : seekTarget file offset origin < 2 ^ 63) :
      FileStep (.seek offset origin) file (.ok .done) { file with position := (seekTarget file offset origin).toNat }
  | outside (offset : Int64) (origin : SeekOrigin) (file : ByteFile UInt8)
      (away : seekTarget file offset origin < 0 ∨ 2 ^ 63 ≤ seekTarget file offset origin) :
      FileStep (.seek offset origin) file (.error (.error .invalidOffset "")) file
  | tell (file : ByteFile UInt8) : FileStep .tell file (.ok (.position file.position)) file

/-- The file that a handle stands for. -/
def MemoryWriteHandle.file (h : MemoryWriteHandle) : ByteFile UInt8 := ⟨h.data.take h.size,h.position⟩

/-- The handle answers every operation, and is changed by it, as the file that it stands for. -/
def BehavesAsFile : List MemoryOp → MemoryWriteHandle → Prop
  | [],_ => True
  | op :: ops,h => FileStep op h.file ((memoryStep op).run h).1 ((memoryStep op).run h).2.file ∧
      BehavesAsFile ops ((memoryStep op).run h).2

/-- The bytes between the end and the position are zero where the write finds them: in the memory of the handle, or
in the allocation that it grows into. -/
def GapZero (h : MemoryWriteHandle) (heap : Heap) (required : Nat) : Prop :=
  if required ≤ h.capacity then ∀ i, h.size ≤ i → i < h.position → h.data[i]? = some 0
  else ∃ capacity, grownCapacity h.capacity required = some capacity ∧
    (heap.grants capacity → ∀ i, h.size ≤ i → i < h.position → heap.holds i = 0)

/-- A read does not start past the end; a write ends below 2^64, its capacity can be reached by doubling, and its
gap is zero. -/
def StepFine (h : MemoryWriteHandle) : MemoryOp → Prop
  | .read size => size = 0 ∨ h.position ≤ h.size
  | .write heap buffer => h.position + buffer.length < 2 ^ 64 ∧ GapZero h heap (h.position + buffer.length)
  | _ => True

def StepsFine : List MemoryOp → MemoryWriteHandle → Prop
  | [],_ => True
  | op :: ops,h => StepFine h op ∧ StepsFine ops ((memoryStep op).run h).2

/-- What every run keeps. -/
structure MemoryWriteHandle.Sound (h : MemoryWriteHandle) : Prop where
  size : h.size ≤ h.capacity
  capacity : h.capacity < 2 ^ 63
  position : h.position < 2 ^ 63

section
variable {h : MemoryWriteHandle} {heap : Heap} {buffer : List UInt8} {required : Nat}

theorem size_file (sound : h.Sound) : h.file.size = h.size := by
  rw [ByteFile.size,MemoryWriteHandle.file,List.length_take]
  exact Nat.min_eq_left sound.size

theorem doubleUntil_eq (fuel capacity : Nat) :
    doubleUntil required fuel capacity = Doubling.doubleUntil 64 required fuel capacity := by
  induction fuel generalizing capacity with
  | zero => rfl
  | succ fuel ih =>
    rw [doubleUntil,Doubling.doubleUntil,ih]
    rfl

theorem doubleUntil_enough {fuel capacity reached : Nat} (small : capacity < 2 ^ 64)
    (found : doubleUntil required fuel capacity = some reached) : required ≤ reached := by
  rw [doubleUntil_eq] at found
  obtain ⟨round,_,first,rfl⟩ := (Doubling.doubleUntil_eq_some small).mp found
  exact first.1

/-- Doubling that has not ended in 65 rounds never ends. -/
theorem doubleUntil_endless {capacity : Nat} (small : capacity < 2 ^ 64) (wanted : 0 < required)
    (never : doubleUntil required 65 capacity = none) (fuel : Nat) : doubleUntil required fuel capacity = none := by
  rw [doubleUntil_eq] at never ⊢
  exact Doubling.doubleUntil_endless small wanted (Nat.le_succ 64) never fuel

theorem step_read (sound : h.Sound) {count : Nat} (fine : StepFine h (.read count)) :
    FileStep (.read count) h.file ((memoryStep (.read count)).run h).1 ((memoryStep (.read count)).run h).2.file ∧
      ((memoryStep (.read count)).run h).2.Sound := by
  obtain ⟨size,capacity,position⟩ := sound
  have got : (memoryWriteIoRead count).run h =
      (.ok (h.file.available count),{ h with position := h.position + (h.file.available count).length }) := by
    have length := h.file.length_available count
    rw [size_file ⟨size,capacity,position⟩] at length
    change _ = min count (h.size - h.position) at length
    have toRead : (if count < (h.size + sizeMod - h.position) % sizeMod then count
        else (h.size + sizeMod - h.position) % sizeMod) = (h.file.available count).length := by
      rcases fine with none | inside
      · rw [length]
        split <;> omega
      · have room : (h.size + sizeMod - h.position) % sizeMod = h.size - h.position := by
          rw [show h.size + sizeMod - h.position = h.size - h.position + sizeMod by omega,Nat.add_mod_right]
          exact Nat.mod_eq_of_lt (by rw [sizeMod]; omega)
        rw [length,room]
        split <;> omega
    have inside : h.position + (h.file.available count).length ≤ h.capacity ∨ (h.file.available count).length = 0 := by
      omega
    simp only [memoryWriteIoRead,toRead]
    split
    · rename_i some
      rw [if_pos (by omega)]
      refine congrArg (fun bytes => (Except.ok bytes,_)) ?_
      rw [slice,length,ByteFile.available,MemoryWriteHandle.file]
      dsimp only
      rw [List.drop_take,List.take_take]
    · rename_i none
      have empty : (h.file.available count).length = 0 := by omega
      rw [empty,List.length_eq_zero_iff.mp empty]
      rfl
  simp only [memoryStep,Action.bind_ok _ got,Action.pure_apply]
  refine ⟨.read count h.file,size,capacity,?_⟩
  have length := h.file.length_available count
  rw [size_file ⟨size,capacity,position⟩] at length
  change _ = min count (h.size - h.position) at length
  dsimp only
  omega

/-- A write into memory that has room for it and whose gap is zero. -/
theorem store_fine (sound : h.Sound) (room : h.position + buffer.length ≤ h.capacity)
    (gap : ∀ i, h.size ≤ i → i < h.position → h.data[i]? = some 0) :
    ∃ after, (storeBytes buffer).run h = (.ok (),after) ∧ after.file = h.file.write 0 buffer ∧ after.Sound := by
  have ends : (h.position + buffer.length) % sizeMod = h.position + buffer.length :=
    Nat.mod_eq_of_lt (by have := sound.capacity; rw [sizeMod]; omega)
  have same := size_file sound
  have length := length_overwrite h.data h.position buffer room
  refine ⟨⟨overwrite h.data h.position buffer,max h.size (h.position + buffer.length),h.position + buffer.length⟩,?_,?_,?_⟩
  · simp only [storeBytes,ends]
    rw [if_neg (by omega)]
  · have content : (overwrite h.data h.position buffer).take (max h.size (h.position + buffer.length)) =
        (h.file.write 0 buffer).content := by
      apply List.ext_getElem?
      intro i
      have size := h.file.size_write 0 buffer
      rw [same] at size
      change _ = max h.size (h.position + buffer.length) at size
      by_cases inside : i < max h.size (h.position + buffer.length)
      · have old (within : i < h.size) : h.file.content[i]? = h.data[i]? := List.getElem?_take_of_lt within
        rw [List.getElem?_take_of_lt inside,getElem?_overwrite h.data h.position buffer room,ByteFile.getElem?_write,same]
        change _ = if i < h.position then _ else if i < h.position + buffer.length then buffer[i - h.position]? else _
        split
        · rename_i before
          split
          · rename_i within
            exact (old within).symm
          · rename_i beyond
            exact gap i (Nat.not_lt.mp beyond) before
        · split
          · rfl
          · exact (old (by omega)).symm
      · rw [List.getElem?_eq_none (by rw [List.length_take]; omega),List.getElem?_eq_none]
        change ByteFile.size _ ≤ i
        omega
    rw [MemoryWriteHandle.file,content]
    rfl
  · have position := sound.position
    have capacity := sound.capacity
    have size := sound.size
    refine ⟨?_,?_,?_⟩
    · change max _ _ ≤ (overwrite h.data h.position buffer).length
      rw [length]
      exact Nat.max_le.mpr ⟨size,room⟩
    · change (overwrite h.data h.position buffer).length < _
      rw [length]
      exact capacity
    · exact Nat.lt_of_le_of_lt room capacity

theorem alloc_some {size : Nat} {data : List UInt8} (given : heap.alloc size = some data) :
    heap.grants size = true ∧ data = (List.range size).map heap.holds := by
  rw [Heap.alloc] at given
  split at given
  · rename_i granted
    exact ⟨granted.2,(Option.some.inj given).symm⟩
  · simp at given

/-- Growing keeps what the handle stands for; it may be refused. -/
theorem grow_fine (sound : h.Sound) (gap : GapZero h heap required) :
    (∃ after, (ensureCapacity heap required).run h = (.ok (),after) ∧ after.file = h.file ∧ after.Sound ∧
      after.size = h.size ∧ required ≤ after.capacity ∧
      ∀ i, h.size ≤ i → i < h.position → i < required → after.data[i]? = some 0) ∨
    ∃ capacity, required ≤ capacity ∧ heap.grants capacity = false ∧
      (ensureCapacity heap required).run h = (.error (.error .nomem ""),h) := by
  rw [GapZero] at gap
  split at gap
  · rename_i enough
    refine .inl ⟨h,?_,rfl,sound,rfl,enough,fun i low high _ => gap i low high⟩
    simp only [ensureCapacity]
    rw [if_neg (by omega)]
  · rename_i short
    obtain ⟨capacity,grown,zero⟩ := gap
    have start : (if h.capacity = 0 then 64 else h.capacity) < 2 ^ 64 := by
      have := sound.capacity
      split <;> omega
    have enough := doubleUntil_enough start grown
    simp only [ensureCapacity]
    rw [if_pos (by omega),grown]
    dsimp only
    have size := sound.size
    cases given : heap.alloc capacity with
    | none =>
      refine .inr ⟨capacity,enough,?_,rfl⟩
      rw [Heap.alloc] at given
      split at given
      · simp at given
      · rename_i refused
        by_contra granted
        exact refused ⟨by omega,by simpa using granted⟩
    | some data =>
      obtain ⟨granted,rfl⟩ := alloc_some given
      have fits := heap.limited capacity granted
      have copied : (h.data.take h.size).length = h.size := by
        rw [List.length_take]
        exact Nat.min_eq_left size
      have room : 0 + (h.data.take h.size).length ≤ ((List.range capacity).map heap.holds).length := by
        rw [copied,List.length_map,List.length_range]
        omega
      have length := length_overwrite _ _ _ room
      rw [List.length_map,List.length_range] at length
      refine .inl ⟨_,rfl,?_,⟨?_,?_,sound.position⟩,rfl,?_,?_⟩
      · have content : (overwrite ((List.range capacity).map heap.holds) 0 (h.data.take h.size)).take h.size =
            h.data.take h.size := by
          rw [overwrite,List.take_zero,List.nil_append,List.take_left' copied]
        exact congrArg (ByteFile.mk · h.position) content
      · change h.size ≤ (overwrite _ _ _).length
        omega
      · change (overwrite _ _ _).length < _
        omega
      · change required ≤ (overwrite _ _ _).length
        omega
      · intro i low high within
        dsimp only
        rw [getElem?_overwrite _ _ _ room,if_neg (Nat.not_lt_zero i),copied,if_neg (by omega),List.getElem?_map,
          List.getElem?_range (by omega),Option.map_some,zero granted i low high]

theorem step_write (sound : h.Sound) (fine : StepFine h (.write heap buffer)) :
    FileStep (.write heap buffer) h.file ((memoryStep (.write heap buffer)).run h).1
        ((memoryStep (.write heap buffer)).run h).2.file ∧
      ((memoryStep (.write heap buffer)).run h).2.Sound := by
  obtain ⟨bound,gap⟩ := fine
  have required : (h.position + buffer.length) % sizeMod = h.position + buffer.length := Nat.mod_eq_of_lt bound
  have step : (memoryStep (.write heap buffer)).run h =
      (ensureCapacity heap (h.position + buffer.length) >>= fun _ => storeBytes buffer >>= fun _ => pure .done).run h := by
    simp only [memoryStep,memoryWriteIoWrite,Action.bind_apply,Action.read_apply,required]
    rcases (ensureCapacity heap (h.position + buffer.length)).run h with ⟨_ | _,_⟩ <;> rfl
  rw [step]
  rcases grow_fine sound gap with ⟨grown,run,file,sound',size,room,zero⟩ | ⟨capacity,enough,refused,run⟩
  · have position : grown.position = h.position := congrArg ByteFile.position file
    obtain ⟨after,stored,same,kept⟩ : ∃ after, (storeBytes buffer).run grown = (.ok (),after) ∧
        after.file = grown.file.write 0 buffer ∧ after.Sound := store_fine sound' (position ▸ room) (by
      intro i low high
      rw [size] at low
      rw [position] at high
      exact zero i low high (by omega))
    rw [Action.bind_ok _ run,Action.bind_ok _ stored,Action.pure_apply]
    dsimp only
    rw [same,file]
    exact ⟨.write heap buffer h.file,kept⟩
  · rw [Action.bind_error _ run]
    exact ⟨.refused heap buffer h.file capacity enough refused,sound⟩

theorem asInt64_small {value : Int} (low : -2 ^ 63 ≤ value) (high : value < 2 ^ 63) : asInt64 value = value := by
  rw [asInt64]
  exact Int.bmod_eq_of_le (by omega) (by omega)

/-- A sum of a position and an offset, taken for an offset: past the largest it is negative. -/
theorem seek_sum (base : Int) {offset : Int} (low : 0 ≤ base) (high : base < 2 ^ 63) (lower : -2 ^ 63 ≤ offset)
    (upper : offset < 2 ^ 63) : (0 ≤ base + offset ∧ base + offset < 2 ^ 63 ∧ asInt64 (asInt64 base + offset) = base + offset) ∨
      ((base + offset < 0 ∨ 2 ^ 63 ≤ base + offset) ∧ asInt64 (asInt64 base + offset) < 0) := by
  rw [asInt64_small (by omega) high]
  by_cases high : 2 ^ 63 ≤ base + offset
  · refine .inr ⟨.inr high,?_⟩
    rw [asInt64,← Int.sub_bmod_right,Int.bmod_eq_of_le] <;> omega
  · rw [asInt64_small (by omega) (by omega)]
    omega

theorem step_seek (sound : h.Sound) (offset : Int64) (origin : SeekOrigin) :
    FileStep (.seek offset origin) h.file ((memoryStep (.seek offset origin)).run h).1
        ((memoryStep (.seek offset origin)).run h).2.file ∧
      ((memoryStep (.seek offset origin)).run h).2.Sound := by
  obtain ⟨size,capacity,position⟩ := sound
  have lower := offset.le_toInt
  have upper := offset.toInt_lt
  have same := size_file ⟨size,capacity,position⟩
  have target : ∃ newPos : Int, (memoryWriteIoSeek offset origin).run h =
      (if newPos < 0 then (.error (.error .invalidOffset ""),h) else (.ok (),{ h with position := newPos.toNat })) ∧
      ((0 ≤ seekTarget h.file offset origin ∧ seekTarget h.file offset origin < 2 ^ 63 ∧
          newPos = seekTarget h.file offset origin) ∨
        ((seekTarget h.file offset origin < 0 ∨ 2 ^ 63 ≤ seekTarget h.file offset origin) ∧ newPos < 0)) := by
    cases origin with
    | set =>
      refine ⟨offset.toInt,by simp only [memoryWriteIoSeek],?_⟩
      by_cases low : 0 ≤ offset.toInt
      · exact .inl ⟨low,upper,rfl⟩
      · exact .inr ⟨.inl (Int.not_le.mp low),Int.not_le.mp low⟩
    | cur =>
      have sum := seek_sum h.position (by omega) (by omega) lower upper
      exact ⟨_,by simp only [memoryWriteIoSeek],sum.imp (fun fit => ⟨fit.1,fit.2.1,fit.2.2⟩) id⟩
    | ofEnd =>
      have sum := seek_sum h.size (by omega) (by omega) lower upper
      rw [← same] at sum
      exact ⟨_,by simp only [memoryWriteIoSeek,same],sum.imp (fun fit => ⟨fit.1,fit.2.1,fit.2.2⟩) id⟩
  obtain ⟨newPos,run,inside | away⟩ := target
  · rw [if_neg (by omega)] at run
    simp only [memoryStep,Action.bind_ok _ run,Action.pure_apply]
    obtain ⟨low,high,rfl⟩ := inside
    exact ⟨.seek offset origin h.file low high,size,capacity,by dsimp only; omega⟩
  · rw [if_pos away.2] at run
    simp only [memoryStep,Action.bind_error _ run]
    exact ⟨.outside offset origin h.file away.1,size,capacity,position⟩

theorem step_tell (sound : h.Sound) :
    FileStep .tell h.file ((memoryStep .tell).run h).1 ((memoryStep .tell).run h).2.file ∧
      ((memoryStep .tell).run h).2.Sound := by
  refine ⟨?_,sound⟩
  have value : asInt64 h.position = h.position := asInt64_small (by omega) (by have := sound.position; omega)
  have run : (memoryStep .tell).run h = (.ok (.position h.position),h) := by
    rw [← value]
    rfl
  rw [run]
  exact .tell h.file

theorem step_fine (sound : h.Sound) {op : MemoryOp} (fine : StepFine h op) :
    FileStep op h.file ((memoryStep op).run h).1 ((memoryStep op).run h).2.file ∧ ((memoryStep op).run h).2.Sound := by
  cases op with
  | read size => exact step_read sound fine
  | write heap buffer => exact step_write sound fine
  | seek offset origin => exact step_seek sound offset origin
  | tell => exact step_tell sound

theorem steps_fine (sound : h.Sound) {ops : List MemoryOp} (fine : StepsFine ops h) : BehavesAsFile ops h := by
  induction ops generalizing h with
  | nil => trivial
  | cons op ops ih =>
    obtain ⟨first,rest⟩ := fine
    obtain ⟨step,kept⟩ := step_fine sound first
    exact ⟨step,ih kept rest⟩

theorem sound_open {initialCapacity : Nat} (opened : memoryIoOpenWrite heap initialCapacity = some h) :
    h.Sound ∧ h.file = {} := by
  rw [memoryIoOpenWrite] at opened
  split at opened
  · obtain ⟨data,given,rfl⟩ := Option.map_eq_some_iff.mp opened
    obtain ⟨granted,rfl⟩ := alloc_some given
    have fits := heap.limited initialCapacity granted
    exact ⟨⟨Nat.zero_le _,by simpa [MemoryWriteHandle.capacity] using fits,Nat.pow_pos Nat.two_pos⟩,rfl⟩
  · obtain rfl := Option.some.inj opened
    exact ⟨⟨Nat.le_refl 0,by decide,by decide⟩,rfl⟩

end

/-- A write and a read of it. -/
def storedOps : List MemoryOp := [.write {} [65,66],.seek 0 .set,.read 4]

/-- Memory that is not zero. -/
def usedHeap : Heap := { holds := fun _ => 7 }

/-- A read that starts past the end. -/
def pastEndOps : List MemoryOp := [.write usedHeap [65],.seek 4 .set,.read 1]

end Libnmo.Io
