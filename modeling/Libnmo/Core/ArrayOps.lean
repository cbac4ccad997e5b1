import Libnmo.Core.NmoArray

/-! The operations of `nmo_array` on the bytes of its block, and the list of elements that
they keep there. An element is given by the bytes that its pointer leads to, apart from
the block. -/
namespace Libnmo.Core
open Lib Lib.Cursor Lib.Patch Lib.Doubling

namespace NmoArray

/-- The bytes at a place of the block. -/
def readBytes (pos size : Nat) : Run NmoArray (List UInt8) where
  run array :=
    if pos + size ≤ array.bytes.length then (.ok (slice array.bytes pos size),array)
    else (.error (.overread (max pos array.bytes.length)),array)

def overwritten (array : NmoArray) (pos : Nat) (values : List UInt8) : NmoArray :=
  { array with data := array.data.map fun bytes => overwrite bytes pos values }

def writeBytes (pos : Nat) (values : List UInt8) : Run NmoArray Unit where
  run array :=
    if pos + values.length ≤ array.bytes.length then (.ok (),array.overwritten pos values)
    else (.error (.overwrite (max pos array.bytes.length)),array)

/-- `memmove` inside the block. -/
def moveBytes (target source size : Nat) : Run NmoArray Unit := do
  let moved ← readBytes source size
  writeBytes target moved

/-- The offset of an element. -/
def offset (array : NmoArray) (index : Nat) : Nat := index * array.elementSize % 2 ^ 64

end NmoArray
open NmoArray

/-- `memcpy` from the pointer of a caller. -/
def bytesAt (memory : List UInt8) (size : Nat) : Result (List UInt8) :=
  if memory.length < size then .error (.overread memory.length) else .ok (memory.take size)

def disposeEach (lifecycle : Lifecycle) (elementSize : Nat) : Nat → Nat → Run NmoArray Unit
  | _,0 => pure ()
  | pos,count + 1 => do
    let element ← readBytes pos elementSize
    writeBytes pos (lifecycle.dispose element)
    disposeEach lifecycle elementSize (pos + elementSize) count

def nmoArrayDisposeRange (start count : Nat) : Run NmoArray Unit := do
  let array ← Action.read id
  match array.lifecycle with
  | none => pure ()
  | some lifecycle =>
    if array.data = none ∨ count = 0 then pure ()
    else if start ≥ array.count then pure ()
    else
      let count := if (start + count) % 2 ^ 64 > array.count then array.count - start else count
      disposeEach lifecycle array.elementSize (array.offset start) count

def nmoArrayAppend (allocator : BlockSource) (element : List UInt8) : Run NmoArray Unit := do
  nmoArrayEnsureSpace allocator 1
  let array ← Action.read id
  let value ← Action.lift (bytesAt element array.elementSize)
  writeBytes (array.offset array.count) value
  Action.update fun array => { array with count := array.count + 1 }

def nmoArrayAppendArray (allocator : BlockSource) (elements : List UInt8) (count : Nat) : Run NmoArray Unit :=
  if count = 0 then pure ()
  else do
    nmoArrayEnsureSpace allocator count
    let array ← Action.read id
    let values ← Action.lift (bytesAt elements (array.offset count))
    writeBytes (array.offset array.count) values
    Action.update fun array => { array with count := array.count + count }

/-- What the pointer to an element leads to, none for a null pointer. -/
def nmoArrayGet (array : NmoArray) (index : Nat) : Option (List UInt8) :=
  if index ≥ array.count then none else some (slice array.bytes (array.offset index) array.elementSize)

def nmoArraySet (index : Nat) (element : List UInt8) : Run NmoArray Unit := do
  let array ← Action.read id
  if index ≥ array.count then fail .invalidArgument "Invalid array set arguments"
  else do
    nmoArrayDisposeRange index 1
    let value ← Action.lift (bytesAt element array.elementSize)
    writeBytes (array.offset index) value

def nmoArrayInsert (allocator : BlockSource) (index : Nat) (element : List UInt8) : Run NmoArray Unit := do
  let before ← Action.read id
  if index > before.count then fail .invalidArgument "Invalid array insert arguments"
  else do
    nmoArrayEnsureSpace allocator 1
    let array ← Action.read id
    (if index < array.count then
      moveBytes (array.offset index + array.elementSize) (array.offset index) (array.offset (array.count - index))
    else pure ())
    let value ← Action.lift (bytesAt element array.elementSize)
    writeBytes (array.offset index) value
    Action.update fun array => { array with count := array.count + 1 }

/-- The element at an offset, when the caller has a place for it. -/
def takeOut (out : Bool) (pos size : Nat) : Run NmoArray (Option (List UInt8)) :=
  if out then do
    let element ← readBytes pos size
    pure (some element)
  else pure none

def nmoArrayRemove (index : Nat) (out : Bool) : Run NmoArray (Option (List UInt8)) := do
  let array ← Action.read id
  if index ≥ array.count then fail .invalidArgument "Invalid array remove arguments"
  else do
    let removed ← takeOut out (array.offset index) array.elementSize
    nmoArrayDisposeRange index 1
    (if index < array.count - 1 then
      moveBytes (array.offset index) (array.offset index + array.elementSize) (array.offset (array.count - index - 1))
    else pure ())
    Action.update fun array => { array with count := array.count - 1 }
    pure removed

def nmoArrayPop (out : Bool) : Run NmoArray (Option (List UInt8)) := do
  let array ← Action.read id
  if array.count = 0 then fail .invalidArgument "Invalid array pop arguments"
  else do
    let removed ← takeOut out (array.offset (array.count - 1)) array.elementSize
    nmoArrayDisposeRange (array.count - 1) 1
    Action.update fun array => { array with count := array.count - 1 }
    pure removed

def nmoArrayClear : Run NmoArray Unit := do
  let array ← Action.read id
  nmoArrayDisposeRange 0 array.count
  Action.update fun array => { array with count := 0 }

def nmoArrayResize (allocator : BlockSource) (newCount : Nat) : Run NmoArray Unit := do
  let array ← Action.read id
  if newCount = array.count then pure ()
  else if newCount < array.count then do
    nmoArrayDisposeRange newCount (array.count - newCount)
    Action.update fun array => { array with count := newCount }
  else do
    nmoArrayEnsureSpace allocator (newCount - array.count)
    let array ← Action.read id
    writeBytes (array.offset array.count) (List.replicate (array.offset (newCount - array.count)) 0)
    Action.update fun array => { array with count := newCount }

inductive ArrayOp
  | append (allocator : BlockSource) (element : List UInt8)
  | appendArray (allocator : BlockSource) (elements : List (List UInt8))
  | insert (allocator : BlockSource) (index : Nat) (element : List UInt8)
  | remove (index : Nat) (out : Bool)
  | pop (out : Bool)
  | set (index : Nat) (element : List UInt8)
  | resize (allocator : BlockSource) (newCount : Nat)
  | clear
  | reserve (allocator : BlockSource) (capacity : Nat)
  | ensureSpace (allocator : BlockSource) (additional : Nat)

/-- A call, with the element that it gives out. -/
def arrayStep : ArrayOp → Run NmoArray (Option (List UInt8))
  | .append allocator element => do
    nmoArrayAppend allocator element
    pure none
  | .appendArray allocator elements => do
    nmoArrayAppendArray allocator elements.flatten elements.length
    pure none
  | .insert allocator index element => do
    nmoArrayInsert allocator index element
    pure none
  | .remove index out => nmoArrayRemove index out
  | .pop out => nmoArrayPop out
  | .set index element => do
    nmoArraySet index element
    pure none
  | .resize allocator newCount => do
    nmoArrayResize allocator newCount
    pure none
  | .clear => do
    nmoArrayClear
    pure none
  | .reserve allocator capacity => do
    nmoArrayReserve allocator capacity
    pure none
  | .ensureSpace allocator additional => do
    nmoArrayEnsureSpace allocator additional
    pure none

/-- What the operation makes of a list of elements of a size. -/
def listStep (elementSize : Nat) (items : List (List UInt8)) : ArrayOp → List (List UInt8)
  | .append _ element => items ++ [element]
  | .appendArray _ elements => items ++ elements
  | .insert _ index element => items.insertIdx index element
  | .remove index _ => items.eraseIdx index
  | .pop _ => items.dropLast
  | .set index element => items.set index element
  | .resize _ newCount => items.take newCount ++ List.replicate (newCount - items.length) (List.replicate elementSize 0)
  | .clear => []
  | .reserve _ _ | .ensureSpace _ _ => items

/-- What the operation gives out of a list. -/
def listAnswer (items : List (List UInt8)) : ArrayOp → Option (List UInt8)
  | .remove index true => items[index]?
  | .pop true => items.getLast?
  | _ => none

/-- The indices are in range and the elements have the size of an element. -/
def InRange (array : NmoArray) : ArrayOp → Prop
  | .append _ element => element.length = array.elementSize
  | .appendArray _ elements => elements.length < 2 ^ 64 ∧ ∀ element ∈ elements, element.length = array.elementSize
  | .insert _ index element => index ≤ array.count ∧ element.length = array.elementSize
  | .remove index _ => index < array.count
  | .pop _ => 0 < array.count
  | .set index element => index < array.count ∧ element.length = array.elementSize
  | .resize _ newCount => newCount < 2 ^ 64
  | .clear => True
  | .reserve _ capacity => capacity < 2 ^ 64
  | .ensureSpace _ additional => additional < 2 ^ 64

/-- The growth in the call covers what it is for, or is refused. -/
def GrowthFine (array : NmoArray) : ArrayOp → Prop
  | .append allocator _ | .insert allocator _ _ => EnsureFine array (ReserveFine array allocator) 1
  | .appendArray allocator elements => EnsureFine array (ReserveFine array allocator) elements.length
  | .resize allocator newCount => EnsureFine array (ReserveFine array allocator) (newCount - array.count)
  | .reserve allocator capacity => ReserveFine array allocator capacity
  | .ensureSpace allocator additional => EnsureFine array (ReserveFine array allocator) additional
  | _ => True

def CallsFine : List ArrayOp → NmoArray → Prop
  | [],_ => True
  | op :: ops,array => InRange array op ∧ GrowthFine array op ∧ CallsFine ops ((arrayStep op).run array).2

/-- The block has elements at its front, one behind the other. -/
structure Laid (array : NmoArray) (items : List (List UInt8)) : Prop where
  sized : array.Sized
  room : items.length ≤ array.capacity
  whole : ∀ item ∈ items, item.length = array.elementSize
  flat : items.flatten <+: array.bytes

/-- The array holds a list: its elements are at the front of the block, and it counts them. -/
structure Holds (array : NmoArray) (items : List (List UInt8)) : Prop extends Laid array items where
  counted : array.count = items.length

/-- What a caller sees of an array that holds a list: the count, and each element by its index. -/
def Shows (array : NmoArray) (items : List (List UInt8)) : Prop :=
  array.count = items.length ∧ ∀ index, nmoArrayGet array index = items[index]?

/-- The array shows a list, and each call answers as the list does and leaves an array that shows what the operation
makes of the list; or memory is refused, which is reported, and the array shows what it did. -/
def FollowsList : List ArrayOp → NmoArray → List (List UInt8) → Prop
  | [],array,items => Shows array items
  | op :: ops,array,items => Shows array items ∧ match (arrayStep op).run array with
    | (.ok answer,after) => answer = listAnswer items op ∧ FollowsList ops after (listStep array.elementSize items op)
    | (.error stop,after) => (∃ message, stop = .error .nomem message) ∧ FollowsList ops after items

section
variable {array : NmoArray} {items before old values after : List (List UInt8)} {start count index : Nat}

theorem Laid.offset (laid : Laid array items) (inside : index ≤ array.capacity) :
    array.offset index = index * array.elementSize :=
  Nat.mod_eq_of_lt (Nat.lt_of_le_of_lt (Nat.mul_le_mul_right _ inside) laid.sized.fits)

theorem Laid.take (laid : Laid array items) (count : Nat) : Laid array (items.take count) where
  sized := laid.sized
  room := Nat.le_trans (List.length_take_le' ..) laid.room
  whole item member := laid.whole item (List.mem_of_mem_take member)
  flat := by
    refine List.IsPrefix.trans ⟨(items.drop count).flatten,?_⟩ laid.flat
    rw [← List.flatten_append,List.take_append_drop]

theorem Laid.counting (laid : Laid array items) : Holds { array with count := items.length } items where
  sized := ⟨laid.sized.element,laid.room,laid.sized.fits,laid.sized.block⟩
  room := laid.room
  whole := laid.whole
  flat := laid.flat
  counted := rfl

theorem Laid.holds (laid : Laid array items) (counted : array.count = items.length) : Holds array items :=
  ⟨laid,counted⟩

theorem shows_of_holds (holds : Holds array items) : Shows array items := by
  refine ⟨holds.counted,fun index => ?_⟩
  rw [nmoArrayGet]
  split
  · rename_i outside
    rw [holds.counted] at outside
    exact (List.getElem?_eq_none outside).symm
  · rename_i inside
    rw [holds.counted,Nat.not_le] at inside
    have next : index + 1 ≤ items.length := inside
    have one := slice_records holds.whole holds.flat next
    rw [Nat.one_mul,List.drop_eq_getElem_cons inside,List.take_succ_cons,List.take_zero,List.flatten_singleton] at one
    rw [holds.offset (Nat.le_trans (Nat.le_of_lt inside) holds.room),one,List.getElem?_eq_getElem inside]

theorem bytes_overwritten {pos : Nat} {written : List UInt8} (inside : pos + written.length ≤ array.bytes.length) :
    (array.overwritten pos written).bytes = overwrite array.bytes pos written := by
  cases data : array.data with
  | some bytes => simp [NmoArray.bytes,NmoArray.overwritten,data]
  | none =>
    have none_there : array.bytes = [] := by rw [NmoArray.bytes,data]; rfl
    rw [none_there,List.length_nil,Nat.le_zero,Nat.add_eq_zero_iff,List.length_eq_zero_iff] at inside
    rw [inside.2,overwrite_nil,none_there,NmoArray.bytes,NmoArray.overwritten,data]
    rfl

/-- The call changes nothing but the data, where these elements are then laid. -/
def Leaves (call : Run NmoArray Unit) (array : NmoArray) (items : List (List UInt8)) : Prop :=
  ∃ data, call.run array = (.ok (),{ array with data := data }) ∧ Laid { array with data := data } items

theorem leaves_pure (laid : Laid array items) : Leaves (pure ()) array items := ⟨array.data,rfl,laid⟩

theorem leaves_bind {first : Run NmoArray Unit} {next : Unit → Run NmoArray Unit} {between : List (List UInt8)}
    (head : Leaves first array between)
    (tail : ∀ data, Laid { array with data := data } between → Leaves (next ()) { array with data := data } items) :
    Leaves (first >>= next) array items := by
  obtain ⟨data,ran,laid⟩ := head
  obtain ⟨data',ran',laid'⟩ := tail data laid
  exact ⟨data',(Action.bind_ok next ran).trans ran',laid'⟩

theorem leaves_after {α : Type} {first : Run NmoArray α} {a : α} {next : α → Run NmoArray Unit}
    (ran : first.run array = (.ok a,array)) (tail : Leaves (next a) array items) : Leaves (first >>= next) array items := by
  obtain ⟨data,ran',laid⟩ := tail
  exact ⟨data,(Action.bind_ok next ran).trans ran',laid⟩

/-- Elements written over others, or behind the last where there is room. -/
theorem leaves_write (values : List (List UInt8)) (laid : Laid array items) (whole : ∀ value ∈ values, value.length = array.elementSize)
    (inside : start ≤ items.length) (room : start + values.length ≤ array.capacity) :
    Leaves (writeBytes (start * array.elementSize) values.flatten) array
      (items.take start ++ values ++ items.drop (start + values.length)) := by
  have reach : start * array.elementSize + values.flatten.length ≤ array.bytes.length := by
    rw [length_flatten_whole whole,← Nat.add_mul,laid.sized.block]
    exact Nat.mul_le_mul_right _ room
  refine ⟨_,if_pos reach,⟨⟨laid.sized.element,laid.sized.counted,laid.sized.fits,?_⟩,?_,?_,?_⟩⟩
  · exact (congrArg List.length (bytes_overwritten reach)).trans ((length_overwrite _ _ _ reach).trans laid.sized.block)
  · have := laid.room
    simp only [List.length_append,List.length_take,List.length_drop]
    omega
  · intro item member
    rcases List.mem_append.mp member with front | behind
    · rcases List.mem_append.mp front with early | written
      · exact laid.whole item (List.mem_of_mem_take early)
      · exact whole item written
    · exact laid.whole item (List.mem_of_mem_drop behind)
  · exact (bytes_overwritten reach).symm ▸ overwrite_records laid.whole laid.flat whole inside

theorem leaves_behind (values : List (List UInt8)) (laid : Laid array items) (whole : ∀ value ∈ values, value.length = array.elementSize)
    (room : items.length + values.length ≤ array.capacity) :
    Leaves (writeBytes (items.length * array.elementSize) values.flatten) array (items ++ values) := by
  have written := leaves_write values laid whole (Nat.le_refl _) room
  rw [List.take_length,List.drop_eq_nil_of_le (Nat.le_add_right _ _),List.append_nil] at written
  exact written

theorem leaves_between (values : List (List UInt8)) (laid : Laid array (before ++ old ++ after))
    (whole : ∀ value ∈ values, value.length = array.elementSize) (same : values.length = old.length) :
    Leaves (writeBytes (before.length * array.elementSize) values.flatten) array (before ++ values ++ after) := by
  have room := laid.room
  rw [List.append_assoc] at laid
  simp only [List.length_append] at room
  have written := leaves_write values laid whole (by simp : before.length ≤ _) (by omega)
  rw [same,List.take_left,List.drop_length_add_append,List.drop_left] at written
  exact written

theorem readBytes_laid (laid : Laid array (before ++ old ++ after)) :
    (readBytes (before.length * array.elementSize) (old.length * array.elementSize)).run array =
      (.ok old.flatten,array) := by
  have room := laid.room
  rw [List.append_assoc] at laid
  simp only [List.length_append] at room
  have reach : before.length * array.elementSize + old.length * array.elementSize ≤ array.bytes.length := by
    rw [← Nat.add_mul,laid.sized.block]
    exact Nat.mul_le_mul_right _ (by omega)
  have read := slice_records laid.whole laid.flat (by simp : before.length + old.length ≤ _)
  rw [List.drop_left,List.take_left] at read
  exact (if_pos reach).trans (by rw [read])

theorem disposeEach_leaves {lifecycle : Lifecycle} (laid : Laid array (before ++ old ++ after)) :
    Leaves (disposeEach lifecycle array.elementSize (before.length * array.elementSize) old.length) array
      (before ++ old.map lifecycle.dispose ++ after) := by
  induction old generalizing array before with
  | nil => exact leaves_pure laid
  | cons element rest ih =>
    have here : Laid array (before ++ [element] ++ (rest ++ after)) := by simpa using laid
    have read := readBytes_laid here
    rw [List.length_singleton,Nat.one_mul,List.flatten_singleton] at read
    have size : element.length = array.elementSize := here.whole element (by simp)
    have wrote := leaves_between [lifecycle.dispose element] here
      (by simp [lifecycle.length_dispose,size]) rfl
    rw [List.flatten_singleton] at wrote
    refine leaves_after read (leaves_bind wrote fun data laid => ?_)
    have joined : Laid { array with data := data } (before ++ [lifecycle.dispose element] ++ rest ++ after) := by
      simpa using laid
    simpa [Nat.add_mul] using ih joined

theorem disposeRange_leaves (holds : Holds array (before ++ old ++ after)) :
    Leaves (nmoArrayDisposeRange before.length old.length) array
      (before ++ old.map (disposed array.lifecycle) ++ after) := by
  refine leaves_after (Action.read_apply id array) ?_
  cases found : array.lifecycle with
  | none =>
    have same : disposed none = id := rfl
    rw [same,List.map_id]
    simp only [id,found]
    exact leaves_pure holds.toLaid
  | some lifecycle =>
    have counted := holds.counted
    simp only [List.length_append] at counted
    have below := holds.sized.small
    have within := holds.sized.counted
    simp only [id,found]
    split
    · rename_i nothing
      have none_there : old = [] := by
        rcases nothing with null | zero
        · have := holds.sized.empty null
          exact List.length_eq_zero_iff.mp (by omega)
        · exact List.length_eq_zero_iff.mp zero
      rw [none_there,List.map_nil]
      rw [none_there] at holds
      exact leaves_pure holds.toLaid
    · rename_i something
      rw [not_or] at something
      rw [if_neg (by omega),Nat.mod_eq_of_lt (by omega),if_neg (by omega),holds.offset (by omega)]
      exact disposeEach_leaves holds.toLaid

/-- The call answers, and leaves an array that holds a list. -/
def Lands {α : Type} (call : Run NmoArray α) (array : NmoArray) (answer : α) (items : List (List UInt8)) : Prop :=
  ∃ after, call.run array = (.ok answer,after) ∧ Holds after items

section
variable {α β : Type} {answer : α}

theorem lands_leaves {call : Run NmoArray Unit} (left : Leaves call array items) (counted : array.count = items.length) :
    Lands call array () items := by
  obtain ⟨data,ran,laid⟩ := left
  exact ⟨_,ran,laid.holds counted⟩

theorem lands_bind {first : Run NmoArray Unit} {next : Unit → Run NmoArray α} (head : Leaves first array before)
    (tail : ∀ data, Laid { array with data := data } before → Lands (next ()) { array with data := data } answer items) :
    Lands (first >>= next) array answer items := by
  obtain ⟨data,ran,laid⟩ := head
  obtain ⟨left,ran',holds⟩ := tail data laid
  exact ⟨left,(Action.bind_ok next ran).trans ran',holds⟩

theorem lands_after {b : β} {first : Run NmoArray β} {next : β → Run NmoArray α} (ran : first.run array = (.ok b,array))
    (tail : Lands (next b) array answer items) : Lands (first >>= next) array answer items := by
  obtain ⟨left,ran',holds⟩ := tail
  exact ⟨left,(Action.bind_ok next ran).trans ran',holds⟩

theorem lands_recount (recount : Nat → Nat) (laid : Laid array items) (within : recount array.count ≤ items.length) :
    Lands (Action.update fun array => { array with count := recount array.count }) array ()
      (items.take (recount array.count)) := by
  have counting := (laid.take (recount array.count)).counting
  rw [List.length_take_of_le within] at counting
  exact ⟨_,rfl,counting⟩

theorem lands_map {call : Run NmoArray Unit} (a : α) (lands : Lands call array () items) :
    Lands (call >>= fun _ => pure a) array a items := by
  obtain ⟨left,ran,holds⟩ := lands
  exact ⟨left,Action.bind_ok _ ran,holds⟩

end

theorem bytesAt_whole {element : List UInt8} {size : Nat} (whole : element.length = size) :
    (Action.lift (bytesAt element size) : Run NmoArray (List UInt8)).run array = (.ok element,array) := by
  rw [Action.lift_apply,bytesAt,if_neg (by omega),List.take_of_length_le (by omega)]

theorem takeOut_laid {element : List UInt8} (out : Bool) (laid : Laid array (before ++ [element] ++ after)) :
    (takeOut out (before.length * array.elementSize) array.elementSize).run array =
      (.ok (if out then some element else none),array) := by
  cases out with
  | false => rfl
  | true =>
    have read := readBytes_laid laid
    rw [List.length_singleton,Nat.one_mul,List.flatten_singleton] at read
    exact Action.bind_ok _ read

theorem set_lands {element last : List UInt8} (holds : Holds array (before ++ [last] ++ after))
    (size : element.length = array.elementSize) :
    Lands (nmoArraySet before.length element) array () (before ++ [element] ++ after) := by
  have counted := holds.counted
  have within := holds.sized.counted
  simp only [List.length_append,List.length_singleton] at counted
  refine lands_after (Action.read_apply id array) ?_
  rw [if_neg (by simp only [id]; omega)]
  refine lands_bind (disposeRange_leaves holds) fun data laid => lands_after (bytesAt_whole size) ?_
  have wrote := leaves_between [element] laid (by simpa using size) rfl
  rw [List.flatten_singleton] at wrote
  have place : array.offset before.length = before.length * array.elementSize := holds.offset (by omega)
  simp only [id,place]
  exact lands_leaves wrote (by simp [counted]; omega)

theorem pop_lands {last : List UInt8} (out : Bool) (holds : Holds array (before ++ [last])) :
    Lands (nmoArrayPop out) array (if out then some last else none) before := by
  have counted := holds.counted
  have within := holds.sized.counted
  rw [← List.append_nil (before ++ [last])] at holds
  simp only [List.length_append,List.length_singleton] at counted
  refine lands_after (Action.read_apply id array) ?_
  have back : array.count - 1 = before.length := by omega
  have place : array.offset before.length = before.length * array.elementSize := holds.offset (by omega)
  simp only [id]
  rw [if_neg (by omega),back,place]
  refine lands_after (takeOut_laid out holds.toLaid) (lands_bind (disposeRange_leaves holds) fun data laid => ?_)
  have recounted := lands_recount (fun count => count - 1) laid (by simp; omega)
  simp only [back,List.append_assoc,List.take_left] at recounted
  exact lands_map _ recounted

theorem clear_lands (holds : Holds array items) : Lands nmoArrayClear array () [] := by
  refine lands_after (Action.read_apply id array) ?_
  have whole : Holds array ([] ++ items ++ []) := by simpa using holds
  simp only [id,holds.counted]
  exact lands_bind (disposeRange_leaves whole) fun data laid => lands_recount (fun _ => 0) laid (Nat.zero_le _)

theorem remove_lands {element : List UInt8} (out : Bool) (holds : Holds array (before ++ [element] ++ after)) :
    Lands (nmoArrayRemove before.length out) array (if out then some element else none) (before ++ after) := by
  have counted := holds.counted
  have within := holds.sized.counted
  simp only [List.length_append,List.length_singleton] at counted
  refine lands_after (Action.read_apply id array) ?_
  have place : array.offset before.length = before.length * array.elementSize := holds.offset (by omega)
  have size : array.offset (array.count - before.length - 1) = after.length * array.elementSize := by
    rw [holds.offset (by omega)]
    congr 1
    omega
  simp only [id]
  rw [if_neg (by omega),place,size]
  refine lands_after (takeOut_laid out holds.toLaid) (lands_bind (disposeRange_leaves holds) fun data laid => ?_)
  have moved : Leaves (if before.length < array.count - 1 then moveBytes (before.length * array.elementSize)
      (before.length * array.elementSize + array.elementSize) (after.length * array.elementSize) else pure ())
      { array with data := data } (before ++ after ++ (before ++ [disposed array.lifecycle element] ++ after).drop
        (before.length + after.length)) := by
    split
    · rename_i more
      have next : Laid { array with data := data } (before ++ [disposed array.lifecycle element] ++ after ++ []) := by
        simpa using laid
      have read := readBytes_laid next
      rw [List.length_append,List.length_singleton,Nat.add_mul,Nat.one_mul] at read
      refine leaves_after read ?_
      have wrote := leaves_write after laid (fun value member => laid.whole value (by simp [member]))
        (by simp : before.length ≤ _) (by simp; omega)
      simpa using wrote
    · rename_i none_more
      have none_after : after = [] := List.length_eq_zero_iff.mp (by omega)
      subst none_after
      simpa using leaves_pure laid
  refine lands_bind moved fun data laid => ?_
  have recounted := lands_recount (fun count => count - 1) laid (by simp; omega)
  have back : array.count - 1 = (before ++ after).length := by simp; omega
  simp only [back,List.take_left] at recounted
  exact lands_map _ recounted

/-- The call makes room for what is wanted and keeps what is laid, or memory is refused and nothing changes. -/
def Grows (call : Run NmoArray Unit) (array : NmoArray) (items : List (List UInt8)) (wanted : Nat) : Prop :=
  (∃ data room, call.run array = (.ok (),{ array with data := data, capacity := room }) ∧
    Laid { array with data := data, capacity := room } items ∧ wanted ≤ room) ∨
  ∃ message, call.run array = (.error (.error .nomem message),array)

/-- The call answers as a list does, or memory is refused and nothing changes. -/
def Serves {α : Type} (call : Run NmoArray α) (array : NmoArray) (answer : α) (items : List (List UInt8)) : Prop :=
  Lands call array answer items ∨ ∃ message, call.run array = (.error (.error .nomem message),array)

variable {allocator : BlockSource} {capacity additional wanted : Nat}

theorem reserve_grows (holds : Holds array items) (fine : ReserveFine array allocator capacity) :
    Grows (nmoArrayReserve allocator capacity) array items capacity := by
  rcases Nat.lt_or_ge array.capacity capacity with more | enough
  · cases given : allocator.give (capacity * array.elementSize % 2 ^ 64) (arrayAlignment array.elementSize) with
    | none => exact .inr ⟨_,reserve_refused more given⟩
    | some block =>
      have fits : capacity * array.elementSize < 2 ^ 64 := by
        rcases fine with enough | fits | refused
        · omega
        · exact fits
        · rw [given] at refused
          cases refused
      have used : array.bytes.take (array.count * array.elementSize) = items.flatten := by
        rw [holds.counted,take_records holds.whole holds.flat (Nat.le_refl _),List.take_length]
      have size : block.length = capacity * array.elementSize := by
        rw [allocator.length_give given,Nat.mod_eq_of_lt fits]
      have within : array.count ≤ capacity := Nat.le_trans holds.sized.counted (Nat.le_of_lt more)
      have reach : 0 + items.flatten.length ≤ block.length := by
        rw [Nat.zero_add,length_flatten_whole holds.whole,size,← holds.counted]
        exact Nat.mul_le_mul_right _ within
      have ran := reserve_granted holds.sized more fits given
      rw [used] at ran
      refine .inl ⟨_,capacity,ran,⟨⟨holds.sized.element,within,fits,?_⟩,holds.counted ▸ within,holds.whole,?_⟩,Nat.le_refl _⟩
      · exact (length_overwrite _ _ _ reach).trans size
      · exact List.prefix_append _ _
  · exact .inl ⟨array.data,array.capacity,reserve_enough enough,holds.toLaid,enough⟩

theorem ensureSpace_grows (holds : Holds array items) (small : additional < 2 ^ 64)
    (fine : EnsureFine array (ReserveFine array allocator) additional) :
    Grows (nmoArrayEnsureSpace allocator additional) array items (array.count + additional) := by
  have counted := Nat.lt_of_le_of_lt holds.sized.counted holds.sized.small
  rcases Nat.lt_or_ge (array.count + additional) (2 ^ 64) with below | overflows
  · have ran := @ensureSpace_below _ _ (nmoArrayReserve allocator) below
    rcases Nat.lt_or_ge array.capacity (array.count + additional) with short | enough
    · rw [EnsureFine,or_iff_right (Nat.not_le.mpr below),or_iff_right (Nat.not_le.mpr short)] at fine
      obtain ⟨round,first,fine⟩ := fine
      have grown := (doubleUntil_ends holds.sized.start (Nat.zero_lt_of_lt short) (Nat.le_succ 64)).mpr ⟨round,first,rfl⟩
      rw [if_neg (Nat.not_le.mpr short),grown] at ran
      rcases reserve_grows holds fine with ⟨data,room,done,laid,covers⟩ | ⟨message,refused⟩
      · exact .inl ⟨data,room,ran.trans done,laid,Nat.le_trans first.1 covers⟩
      · exact .inr ⟨message,ran.trans refused⟩
    · rw [if_pos enough] at ran
      exact .inl ⟨array.data,array.capacity,ran,holds.toLaid,enough⟩
  · exact .inr ⟨_,ensureSpace_overflow small counted overflows⟩

section
variable {α : Type} {answer : α}

theorem serves_grown {call : Run NmoArray Unit} {next : Unit → Run NmoArray α} (grows : Grows call array before wanted)
    (tail : ∀ data room, Laid { array with data := data, capacity := room } before → wanted ≤ room →
      Lands (next ()) { array with data := data, capacity := room } answer items) :
    Serves (call >>= next) array answer items := by
  rcases grows with ⟨data,room,ran,laid,covers⟩ | ⟨message,refused⟩
  · obtain ⟨left,ran',holds⟩ := tail data room laid covers
    exact .inl ⟨left,(Action.bind_ok next ran).trans ran',holds⟩
  · exact .inr ⟨message,Action.bind_error next refused⟩

theorem serves_map {call : Run NmoArray Unit} (a : α) (serves : Serves call array () items) :
    Serves (call >>= fun _ => pure a) array a items := by
  rcases serves with lands | ⟨message,refused⟩
  · exact .inl (lands_map a lands)
  · exact .inr ⟨message,Action.bind_error _ refused⟩

theorem serves_after {β : Type} {b : β} {first : Run NmoArray β} {next : β → Run NmoArray α}
    (ran : first.run array = (.ok b,array)) (tail : Serves (next b) array answer items) :
    Serves (first >>= next) array answer items := by
  rcases tail with lands | ⟨message,refused⟩
  · exact .inl (lands_after ran lands)
  · exact .inr ⟨message,(Action.bind_ok next ran).trans refused⟩

end

theorem behind_lands (values : List (List UInt8)) (laid : Laid array items) (counted : array.count = items.length)
    (whole : ∀ value ∈ values, value.length = array.elementSize) (room : array.count + values.length ≤ array.capacity)
    (recount : Nat → Nat) (total : recount array.count = array.count + values.length) :
    Lands (do
      writeBytes (array.offset array.count) values.flatten
      Action.update fun array => { array with count := recount array.count }) array () (items ++ values) := by
  rw [laid.offset (by omega),counted]
  rw [counted] at room
  refine lands_bind (leaves_behind values laid whole room) fun data laid => ?_
  have all : recount array.count = (items ++ values).length := by rw [total,counted,List.length_append]
  have recounted := lands_recount recount laid (Nat.le_of_eq all)
  rw [all,List.take_length] at recounted
  exact recounted

theorem append_serves {element : List UInt8} (holds : Holds array items) (size : element.length = array.elementSize)
    (fine : EnsureFine array (ReserveFine array allocator) 1) :
    Serves (nmoArrayAppend allocator element) array () (items ++ [element]) := by
  refine serves_grown (ensureSpace_grows holds (by decide) fine) fun data room laid covers => ?_
  refine lands_after (Action.read_apply id _) (lands_after (bytesAt_whole size) ?_)
  have behind := behind_lands [element] laid holds.counted (by simpa using size) covers
    (fun count => count + 1) rfl
  rw [List.flatten_singleton] at behind
  exact behind

theorem appendArray_serves {elements : List (List UInt8)} (holds : Holds array items)
    (whole : ∀ element ∈ elements, element.length = array.elementSize) (small : elements.length < 2 ^ 64)
    (fine : EnsureFine array (ReserveFine array allocator) elements.length) :
    Serves (nmoArrayAppendArray allocator elements.flatten elements.length) array () (items ++ elements) := by
  rw [nmoArrayAppendArray]
  split
  · rename_i none_there
    rw [List.length_eq_zero_iff.mp none_there,List.append_nil]
    exact .inl ⟨array,rfl,holds⟩
  · refine serves_grown (ensureSpace_grows holds small fine) fun data room laid covers => ?_
    refine lands_after (Action.read_apply id _) (lands_after (bytesAt_whole ?_) ?_)
    · rw [length_flatten_whole whole]
      exact (laid.offset (Nat.le_of_add_left_le covers)).symm
    · exact behind_lands elements laid holds.counted whole covers (fun count => count + elements.length) rfl

theorem resize_serves {newCount : Nat} (holds : Holds array items) (small : newCount < 2 ^ 64)
    (fine : EnsureFine array (ReserveFine array allocator) (newCount - array.count)) :
    Serves (nmoArrayResize allocator newCount) array () (items.take newCount ++
      List.replicate (newCount - items.length) (List.replicate array.elementSize 0)) := by
  refine serves_after (Action.read_apply id array) ?_
  simp only [id]
  split
  · rename_i same
    rw [same,holds.counted,List.take_length,Nat.sub_self,List.replicate_zero,List.append_nil]
    exact .inl ⟨array,rfl,holds⟩
  · split
    · rename_i fewer
      rw [holds.counted] at fewer
      rw [Nat.sub_eq_zero_of_le (Nat.le_of_lt fewer),List.replicate_zero,List.append_nil]
      have front : (items.take newCount).length = newCount := List.length_take_of_le (Nat.le_of_lt fewer)
      have cut : Holds array (items.take newCount ++ items.drop newCount ++ []) := by
        rw [List.append_nil,List.take_append_drop]
        exact holds
      have disposes := disposeRange_leaves cut
      rw [front,List.length_drop,← holds.counted] at disposes
      refine .inl (lands_bind disposes fun data laid => ?_)
      have recounted := lands_recount (fun _ => newCount) laid (by simp; omega)
      rw [List.append_nil,List.take_append_of_le_length (Nat.le_of_eq front.symm),List.take_of_length_le
        (Nat.le_of_eq front)] at recounted
      exact recounted
    · rename_i other not_fewer
      have more : array.count ≤ newCount := Nat.not_lt.mp not_fewer
      rw [List.take_of_length_le (holds.counted ▸ more),← holds.counted]
      refine serves_grown (ensureSpace_grows holds (by omega) fine) fun data room laid covers => ?_
      refine lands_after (Action.read_apply id _) ?_
      have behind := behind_lands (List.replicate (newCount - array.count) (List.replicate array.elementSize 0)) laid
        holds.counted (by simp +contextual) (by simpa using covers) (fun _ => newCount) (by simp; omega)
      rw [List.flatten_replicate_replicate] at behind
      simp only [id]
      rw [laid.offset (Nat.le_of_add_left_le covers)]
      exact behind

theorem place_lands {element : List UInt8} {pos : Nat} (wrote : Leaves (writeBytes pos element) array items)
    (size : element.length = array.elementSize) (total : array.count + 1 = items.length) :
    Lands (do
      let value ← Action.lift (bytesAt element array.elementSize)
      writeBytes pos value
      Action.update fun array => { array with count := array.count + 1 }) array () items := by
  refine lands_after (bytesAt_whole size) (lands_bind wrote fun data laid => ?_)
  have recounted := lands_recount (fun count => count + 1) laid (Nat.le_of_eq total)
  rw [total,List.take_length] at recounted
  exact recounted

theorem insert_serves {element : List UInt8} (holds : Holds array (before ++ after))
    (size : element.length = array.elementSize) (fine : EnsureFine array (ReserveFine array allocator) 1) :
    Serves (nmoArrayInsert allocator before.length element) array () (before ++ [element] ++ after) := by
  have counted := holds.counted
  rw [List.length_append] at counted
  refine serves_after (Action.read_apply id array) ?_
  rw [if_neg (by simp only [id]; omega)]
  refine serves_grown (ensureSpace_grows holds (by decide) fine) fun data room laid covers => ?_
  refine lands_after (Action.read_apply id _) ?_
  have place : NmoArray.offset { array with data := data, capacity := room } before.length =
    before.length * array.elementSize := laid.offset (by simp only; omega)
  have rest : NmoArray.offset { array with data := data, capacity := room } (array.count - before.length) =
      after.length * array.elementSize := by
    rw [laid.offset (by simp only; omega)]
    congr 1
    omega
  simp only [id]
  rw [place,rest]
  cases after with
  | nil =>
    rw [if_neg (by simp only [List.length_nil] at counted; omega)]
    rw [List.append_nil] at laid ⊢
    refine lands_bind (leaves_pure laid) fun data laid => ?_
    have wrote := leaves_behind [element] laid (by simpa using size) (by simp only [List.length_singleton]; omega)
    rw [List.flatten_singleton] at wrote
    exact place_lands wrote size (by simp [counted])
  | cons next later =>
    simp only [List.length_cons] at counted
    rw [if_pos (by omega)]
    have moved : Leaves (moveBytes (before.length * array.elementSize + array.elementSize)
        (before.length * array.elementSize) ((next :: later).length * array.elementSize))
        { array with data := data, capacity := room } (before ++ [next] ++ (next :: later)) := by
      have wider : Laid { array with data := data, capacity := room } (before ++ (next :: later) ++ []) := by
        simpa using laid
      have wrote := leaves_write (next :: later) laid (fun value member => laid.whole value (by simp [member]))
        (by simp : before.length + 1 ≤ _) (by simp only [List.length_cons]; omega)
      have none_left : (before ++ next :: later).drop (before.length + 1 + (next :: later).length) = [] :=
        List.drop_eq_nil_of_le (by simp)
      rw [List.take_length_add_append,List.take_succ_cons,List.take_zero,none_left,List.append_nil] at wrote
      refine leaves_after (readBytes_laid wider) ?_
      simpa [Nat.add_mul] using wrote
    refine lands_bind moved fun data laid => ?_
    have wrote := leaves_between [element] laid (by simpa using size) rfl
    rw [List.flatten_singleton] at wrote
    exact place_lands wrote size (by simp; omega)

theorem exists_cut {index : Nat} (inside : index < items.length) :
    ∃ before element after, items = before ++ [element] ++ after ∧ before.length = index := by
  refine ⟨items.take index,items[index],items.drop (index + 1),?_,List.length_take_of_le (Nat.le_of_lt inside)⟩
  rw [List.append_assoc,List.singleton_append,← List.drop_eq_getElem_cons inside,List.take_append_drop]

theorem serves_grows {call : Run NmoArray Unit} (grows : Grows call array items wanted) (counted : array.count = items.length) :
    Serves call array () items := by
  rcases grows with ⟨data,room,ran,laid,_⟩ | refused
  · exact .inl ⟨_,ran,laid.holds counted⟩
  · exact .inr refused

theorem step_serves {op : ArrayOp} (holds : Holds array items) (legal : InRange array op) (fine : GrowthFine array op) :
    Serves (arrayStep op) array (listAnswer items op) (listStep array.elementSize items op) := by
  have counted := holds.counted
  cases op with
  | append allocator element => exact serves_map none (append_serves holds legal fine)
  | appendArray allocator elements => exact serves_map none (appendArray_serves holds legal.2 legal.1 fine)
  | insert allocator index element =>
    obtain ⟨inside,size⟩ := legal
    rw [counted] at inside
    have front : (items.take index).length = index := List.length_take_of_le inside
    have cut : Holds array (items.take index ++ items.drop index) := by rwa [List.take_append_drop]
    have inserted := insert_serves cut size fine
    rw [← insertIdx_between,List.take_append_drop,front] at inserted
    exact serves_map none inserted
  | remove index out =>
    have inside : index < items.length := counted ▸ (legal : index < array.count)
    obtain ⟨before,element,after,rfl,rfl⟩ := exists_cut inside
    have removed := remove_lands out holds
    rw [← eraseIdx_between before element after] at removed
    have answer : listAnswer (before ++ [element] ++ after) (.remove before.length out) =
        if out then some element else none := by cases out <;> simp [listAnswer]
    rw [answer]
    exact .inl removed
  | pop out =>
    have some_there : items ≠ [] := List.ne_nil_of_length_pos (counted ▸ (legal : 0 < array.count))
    obtain ⟨before,last,rfl⟩ := (List.eq_nil_or_concat' items).resolve_left some_there
    have popped := pop_lands out holds
    have answer : listAnswer (before ++ [last]) (.pop out) = if out then some last else none := by
      cases out <;> simp [listAnswer]
    rw [answer,listStep,List.dropLast_concat]
    exact .inl popped
  | set index element =>
    obtain ⟨inside,size⟩ := legal
    obtain ⟨before,last,after,rfl,rfl⟩ := exists_cut (counted ▸ inside)
    have placed := set_lands holds size
    rw [← set_between before last element after] at placed
    exact serves_map none (.inl placed)
  | resize allocator newCount => exact serves_map none (resize_serves holds legal fine)
  | clear => exact serves_map none (.inl (clear_lands holds))
  | reserve allocator capacity => exact serves_map none (serves_grows (reserve_grows holds fine) counted)
  | ensureSpace allocator additional =>
    exact serves_map none (serves_grows (ensureSpace_grows holds legal fine) counted)

theorem holds_empty {elementSize : Nat} (lifecycle : Option Lifecycle) (positive : 0 < elementSize) :
    Holds { elementSize := elementSize, lifecycle := lifecycle } [] where
  sized := sized_empty lifecycle positive
  room := Nat.le_refl _
  whole := nofun
  flat := List.nil_prefix
  counted := rfl

end

end Libnmo.Core
