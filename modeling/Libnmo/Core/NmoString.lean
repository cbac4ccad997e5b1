import Libnmo.Core.ArrayOps
import Mathlib.Data.List.DropRight

/-! The dynamic string, as the block of its bytes with a length and a capacity. A view is
a pointer into memory apart from the block, with a length. What an allocation gives is
asked by its size; what a format prints is given with the call. -/
namespace Libnmo.Core
open Lib Lib.Cursor Lib.Patch Lib.Doubling

/-- The data is the whole block, none for a null pointer. -/
structure NmoString where
  data : Option (List UInt8) := none
  length : Nat := 0
  capacity : Nat := 0
  deriving DecidableEq, Repr

/-- The data is the memory from the pointer on, none for a null pointer. -/
structure StringView where
  data : Option (List UInt8)
  length : Nat

def sizeMax : Nat := 2 ^ 64 - 1

namespace NmoString

def bytes (string : NmoString) : List UInt8 := string.data.getD []

def readBytes (pos size : Nat) : Run NmoString (List UInt8) where
  run string :=
    if pos + size ≤ string.bytes.length then (.ok (slice string.bytes pos size),string)
    else (.error (.overread (max pos string.bytes.length)),string)

def writeBytes (pos : Nat) (values : List UInt8) : Run NmoString Unit where
  run string :=
    if pos + values.length ≤ string.bytes.length then
      (.ok (),{ string with data := string.data.map fun bytes => overwrite bytes pos values })
    else (.error (.overwrite (max pos string.bytes.length)),string)

/-- `memmove` inside the block. -/
def moveBytes (target source size : Nat) : Run NmoString Unit := do
  let moved ← readBytes source size
  writeBytes target moved

def setLength (length : Nat) : Run NmoString Unit := Action.update fun string => { string with length := length }

/-- The copy of the text into a new block. -/
def copyTo (string : NmoString) (block : List UInt8) : Result (List UInt8) :=
  if string.data.isSome ∧ string.length > 0 then copyBytes block string.bytes string.length else .ok block

end NmoString
open NmoString

/-- `memcpy` from a view to a place in the block. -/
def copyView (pos : Nat) (view : StringView) : Run NmoString Unit := do
  let values ← Action.lift (bytesAt (view.data.getD []) view.length)
  writeBytes pos values

/-- The capacity that is asked of the allocator. -/
def stringTarget (capacity needed : Nat) : Option Nat :=
  doubleCapped (sizeMax / 2) needed 64 (if capacity = 0 then 16 else capacity)

def stringEnsureCapacity (allocator : BlockSource) (needed : Nat) : Run NmoString Unit := do
  let string ← Action.read id
  if needed ≤ string.capacity then
    (if string.data.isSome then writeBytes string.length [0] else pure ())
  else match stringTarget string.capacity needed with
    | none => Action.stop .endless
    | some target =>
      if target ≥ sizeMax then fail .nomem "Requested string capacity is too large"
      else match allocator.give (target + 1) 1 with
        | none => fail .nomem "Failed to allocate string buffer"
        | some block => do
          let buffer ← Action.lift (string.copyTo block)
          Action.update fun string => { string with data := some buffer, capacity := target }
          writeBytes string.length [0]

def stringPrepareWrite (allocator : BlockSource) (totalLength : Nat) : Run NmoString Unit := do
  stringEnsureCapacity allocator totalLength
  let string ← Action.read id
  if string.data = none then do
    let bytes := (if string.capacity ≠ 0 then string.capacity else 1) + 1
    match allocator.give bytes 1 with
    | none => fail .nomem "Failed to allocate string buffer"
    | some block => do
      Action.update fun _ => { data := some block, capacity := bytes - 1, length := 0 }
      writeBytes 0 [0]
  else pure ()

def nmoStringReserve (allocator : BlockSource) (capacity : Nat) : Run NmoString Unit :=
  stringEnsureCapacity allocator capacity

def nmoStringShrinkToFit (allocator : BlockSource) : Run NmoString Unit := do
  let string ← Action.read id
  if string.length = 0 then Action.update fun string => { string with data := none, capacity := 0 }
  else if string.length = string.capacity then pure ()
  else match allocator.give (string.length + 1) 1 with
    | none => fail .nomem "Failed to allocate shrink buffer"
    | some block => do
      let buffer ← Action.lift (copyBytes block string.bytes string.length)
      Action.update fun string => { string with data := some buffer, capacity := string.length }
      writeBytes string.length [0]

/-- `nmo_string_c_str` and `nmo_string_data`, which set the terminator. -/
def nmoStringData : Run NmoString Unit := do
  let string ← Action.read id
  if string.data = none then pure () else writeBytes string.length [0]

def nmoStringClear : Run NmoString Unit := do
  setLength 0
  let string ← Action.read id
  if string.data = none then pure () else writeBytes 0 [0]

def nmoStringAssignLen (allocator : BlockSource) (view : StringView) : Run NmoString Unit :=
  if view.length > 0 ∧ view.data = none then fail .invalidArgument "data must not be NULL when length > 0"
  else do
    stringPrepareWrite allocator view.length
    (if view.length > 0 then copyView 0 view else pure ())
    setLength view.length
    writeBytes view.length [0]

/-- The text of a C string and where it stops. -/
def cstrView (cstr : List UInt8) : StringView := ⟨some cstr,cstr.length⟩

def nmoStringAssign (allocator : BlockSource) (cstr : Option (List UInt8)) : Run NmoString Unit :=
  match cstr with
  | none => nmoStringClear
  | some cstr => nmoStringAssignLen allocator (cstrView cstr)

def nmoStringAssignView (allocator : BlockSource) (view : StringView) : Run NmoString Unit :=
  if view.length = 0 then nmoStringAssignLen allocator ⟨none,0⟩ else nmoStringAssignLen allocator view

/-- From another string. -/
def nmoStringCopy (allocator : BlockSource) (src : Option NmoString) : Run NmoString Unit :=
  match src with
  | none => fail .invalidArgument "source string must not be NULL"
  | some src => nmoStringAssignLen allocator ⟨src.data,src.length⟩

def nmoStringAppendLen (allocator : BlockSource) (view : StringView) : Run NmoString Unit :=
  if view.length = 0 then pure ()
  else if view.data = none then fail .invalidArgument "data must not be NULL when length > 0"
  else do
    let string ← Action.read id
    let newLength := (string.length + view.length) % 2 ^ 64
    stringPrepareWrite allocator newLength
    let string ← Action.read id
    copyView string.length view
    setLength newLength
    writeBytes newLength [0]

def nmoStringAppend (allocator : BlockSource) (cstr : Option (List UInt8)) : Run NmoString Unit :=
  match cstr with
  | none => pure ()
  | some cstr => nmoStringAppendLen allocator (cstrView cstr)

def nmoStringAppendView (allocator : BlockSource) (view : StringView) : Run NmoString Unit :=
  nmoStringAppendLen allocator view

def nmoStringAppendChar (allocator : BlockSource) (ch : UInt8) : Run NmoString Unit := do
  let string ← Action.read id
  stringPrepareWrite allocator ((string.length + 1) % 2 ^ 64)
  let string ← Action.read id
  writeBytes string.length [ch]
  setLength ((string.length + 1) % 2 ^ 64)
  writeBytes ((string.length + 1) % 2 ^ 64) [0]

def nmoStringInsert (allocator : BlockSource) (index : Nat) (view : StringView) : Run NmoString Unit := do
  let string ← Action.read id
  if index > string.length then fail .outOfBounds "Insertion index out of bounds"
  else if view.length = 0 then pure ()
  else if view.data = none then fail .invalidArgument "data must not be NULL when length > 0"
  else do
    let newLength := (string.length + view.length) % 2 ^ 64
    stringPrepareWrite allocator newLength
    let string ← Action.read id
    moveBytes (index + view.length) index (string.length - index + 1)
    copyView index view
    setLength newLength

def nmoStringErase (index length : Nat) : Run NmoString Unit := do
  let string ← Action.read id
  if index > string.length then fail .outOfBounds "Erase index out of bounds"
  else if length = 0 then pure ()
  else do
    let available := string.length - index
    let eraseCount := if length > available then available else length
    (if eraseCount = 0 then pure ()
    else do
      moveBytes index (index + eraseCount) (available - eraseCount + 1)
      setLength (string.length - eraseCount))

def nmoStringReplace (allocator : BlockSource) (index length : Nat) (view : StringView) : Run NmoString Unit := do
  let string ← Action.read id
  if index > string.length then fail .outOfBounds "Replace index out of bounds"
  else if view.length > 0 ∧ view.data = none then fail .invalidArgument "data must not be NULL when new_length > 0"
  else do
    let currentSpan := min length (string.length - index)
    let updatedLength := (string.length - currentSpan + view.length) % 2 ^ 64
    stringPrepareWrite allocator updatedLength
    let string ← Action.read id
    let tail := string.length - (index + currentSpan)
    (if view.length ≠ currentSpan then moveBytes (index + view.length) (index + currentSpan) (tail + 1) else pure ())
    (if view.length > 0 then copyView index view else pure ())
    setLength updatedLength
    writeBytes updatedLength [0]

/-- The loop of a search over so many places, from one on. -/
def findFrom (bytes needle : List UInt8) : Nat → Nat → Nat
  | 0,_ => sizeMax
  | rest + 1,place =>
    if slice bytes place needle.length = needle then place else findFrom bytes needle rest (place + 1)

def nmoStringFind (string : NmoString) (needle : StringView) (start : Nat) : Result Nat :=
  match string.data with
  | none => .ok sizeMax
  | some bytes =>
    if needle.length = 0 then .ok (if start ≤ string.length then start else sizeMax)
    else match needle.data with
      | none => .ok sizeMax
      | some memory =>
        if start > string.length ∨ needle.length > string.length ∨ start > string.length - needle.length then .ok sizeMax
        else if bytes.length < string.length then .error (.overread bytes.length)
        else do
          let needle ← bytesAt memory needle.length
          pure (findFrom bytes needle (string.length - needle.length + 1 - start) start)

/-- The loop that replaces what it finds, each time with the allocator as it is then. -/
def replaceFrom (allocators : Nat → BlockSource) (needle replacement : StringView) : Nat → Nat → Nat → Run NmoString Nat
  | 0,_,_ => Action.stop .endless
  | fuel + 1,pos,replaced => do
    let string ← Action.read id
    let found ← Action.lift (nmoStringFind string needle pos)
    if found = sizeMax then pure replaced
    else do
      nmoStringReplace (allocators replaced) found needle.length replacement
      replaceFrom allocators needle replacement fuel ((found + replacement.length) % 2 ^ 64) (replaced + 1)

/-- The answer is the number of replacements. -/
def nmoStringReplaceAll (fuel : Nat) (allocators : Nat → BlockSource) (needle replacement : StringView) : Run NmoString Nat :=
  if needle.length = 0 then fail .invalidArgument "needle must not be empty"
  else replaceFrom allocators needle replacement fuel 0 0

def nmoStringSubstr (allocator : BlockSource) (src : NmoString) (start length : Nat) : Run NmoString Unit :=
  if start > src.length then fail .outOfBounds "Substring range out of bounds"
  else
    let remaining := src.length - start
    let actual := if length > remaining then remaining else length
    if actual = 0 then nmoStringClear
    else nmoStringAssignLen allocator ⟨src.data.map (List.drop start),actual⟩

/-- `toupper` and `tolower` in the C locale. -/
def toupper (byte : UInt8) : UInt8 := if 97 ≤ byte ∧ byte ≤ 122 then byte - 32 else byte

def tolower (byte : UInt8) : UInt8 := if 65 ≤ byte ∧ byte ≤ 90 then byte + 32 else byte

def isspace (byte : UInt8) : Bool := byte = 32 ∨ (9 ≤ byte ∧ byte ≤ 13)

/-- The loop that changes each byte of the text. -/
def changeBytes (f : UInt8 → UInt8) : Run NmoString Unit := do
  let string ← Action.read id
  if string.data = none then pure ()
  else do
    let text ← readBytes 0 string.length
    writeBytes 0 (text.map f)

def nmoStringToUpper : Run NmoString Unit := changeBytes toupper

def nmoStringToLower : Run NmoString Unit := changeBytes tolower

def nmoStringTrimLeft : Run NmoString Unit := do
  let string ← Action.read id
  if string.data = none then pure ()
  else do
    let text ← readBytes 0 string.length
    let i := (text.takeWhile isspace).length
    (if i = 0 then pure ()
    else do
      moveBytes 0 i (string.length - i + 1)
      setLength (string.length - i))

def nmoStringTrimRight : Run NmoString Unit := do
  let string ← Action.read id
  if string.data = none ∨ string.length = 0 then pure ()
  else do
    let text ← readBytes 0 string.length
    let i := (text.rdropWhile isspace).length
    (if i = string.length then pure ()
    else do
      setLength i
      writeBytes i [0])

def nmoStringTrim : Run NmoString Unit := do
  nmoStringTrimRight
  nmoStringTrimLeft

/-- What the format prints, none where `vsnprintf` fails. -/
def stringVformatInternal (allocator : BlockSource) (append : Bool) (printed : Option (List UInt8)) : Run NmoString Unit :=
  match printed with
  | none => fail .invalidFormat "vsnprintf failed"
  | some text => do
    let string ← Action.read id
    let offset := if append then string.length else 0
    let totalLength := (offset + text.length) % 2 ^ 64
    -- the text is given up before there is room for the new one
    (if append then pure () else setLength 0)
    stringPrepareWrite allocator totalLength
    let string ← Action.read id
    writeBytes offset (text.take (string.capacity - offset) ++ [0])
    setLength totalLength
    writeBytes totalLength [0]

def nmoStringFormat (allocator : BlockSource) (printed : Option (List UInt8)) : Run NmoString Unit :=
  stringVformatInternal allocator false printed

def nmoStringAppendFormat (allocator : BlockSource) (printed : Option (List UInt8)) : Run NmoString Unit :=
  stringVformatInternal allocator true printed

def nmoStringPopBack : Run NmoString UInt8 := do
  let string ← Action.read id
  if string.length = 0 ∨ string.data = none then fail .invalidState "Cannot pop from empty string"
  else do
    let last ← readBytes (string.length - 1) 1
    setLength (string.length - 1)
    writeBytes (string.length - 1) [0]
    pure (last.headD 0)

/-- `nmo_string_init` and `nmo_string_dispose`. -/
def nmoStringDispose : Run NmoString Unit := Action.update fun _ => {}

end Libnmo.Core
