import Libnmo.Format.ChunkReads
import Libnmo.Lib.Unrolled
import Mathlib.Data.UInt

/-! Reading by a schema without vtables, and the check of a registry. Types are descriptors that refer to
each other by identity, so a type may lead back to itself. A value goes to a place, an offset in the block the
caller or the arena gave; the offsets are of a 64-bit host and wrap as its pointers do. -/
namespace Libnmo.Schema
open Core Format Lib

inductive TypeKind
  | u8 | u16 | u32 | u64 | i8 | i16 | i32 | i64 | f32 | f64 | bool | string
  | struct | array | fixedArray
  | binary | resourceRef | enum
  deriving DecidableEq, Repr

abbrev TypeId := Nat

structure SchemaField where
  type : TypeId
  offset : UInt64
  deriving DecidableEq, Repr

structure TypeDescriptor where
  kind : TypeKind
  size : UInt64
  fields : List SchemaField := []
  elementType : Option TypeId := none
  arrayLength : UInt64 := 0

abbrev Types := TypeId → TypeDescriptor

section Verifying
variable (types : Types) (root : TypeId)

/-- The walk over fields that are structs, with the number of levels left before the depth passes 100. -/
def checkCircular : Nat → TypeId → Bool
  | 0,_ => false
  | levels + 1,type =>
    if type = root ∧ levels < 100 then false
    else if (types type).kind ≠ .struct then true
    else (types type).fields.all fun field =>
      (types field.type).kind != .struct || checkCircular levels field.type

def verifyCallback (type : TypeId) : Result Unit :=
  if (types type).kind = .struct then
    if checkCircular types type 101 type = false then
      .error (.error .validationFailed "Circular dependency detected in type")
    else if (types type).fields.any fun field =>
        field.offset + (types field.type).size > (types type).size && (types type).size > 0 then
      .error (.error .validationFailed "Field exceeds struct bounds")
    else .ok ()
  else .ok ()

def schemaRegistryVerify (registry : List TypeId) : Result Unit := registry.forM (verifyCallback types)

end Verifying

/-- An offset in a block of some bytes. -/
structure Place where
  blockSize : UInt64
  offset : UInt64

def Place.plus (place : Place) (offset : UInt64) : Place := { place with offset := place.offset + offset }

structure Store where
  place : Place
  width : Nat

def Store.Inside (store : Store) : Prop := store.place.offset.toNat + store.width ≤ store.place.blockSize.toNat

/-- What the stored bytes stand for. Nothing, where a pointer is not left as it was given or its block is not
filled. -/
inductive Value
  | number (bits : UInt32)
  | string (chars : Option (List UInt8))
  | struct (fields : List Value)
  | array (elements : Option (List Value))
  | fixedArray (elements : List Value)
  | binary (bytes : Option (List UInt8))

structure ReadState where
  pos : Nat
  allocations : Nat := 0
  stores : List Store := []

inductive ReadStop
  | chunk (stop : Stop)
  | nullElementType
  | unfinished
  deriving DecidableEq

abbrev Reader (α : Type) := Action ReadStop ReadState α

def fromChunk {α : Type} (action : Run Nat α) : Reader α where
  run s :=
    let (outcome,pos) := action.run s.pos
    (outcome.mapError .chunk,{ s with pos := pos })

def failRead {α : Type} (code : ErrorCode) (message : String) : Reader α :=
  Action.stop (.chunk (.error code message))

def store (place : Place) (width : Nat) : Reader Unit :=
  Action.update fun s => { s with stores := s.stores ++ [⟨place,width⟩] }

/-- `*(void**)out_ptr = pointer; *((uint32_t*)out_ptr + 1) = count`, and what the pointer is then. -/
def storeCounted (place : Place) (pointer : UInt64) (count : UInt32) : Reader UInt64 := do
  store place 8
  store (place.plus 4) 4
  pure (pointer % 2 ^ 32 + count.toUInt64 * 2 ^ 32)

/-- The type's element type, which the code goes through without a check. -/
def elementOf (type : TypeDescriptor) : Reader TypeId :=
  match type.elementType with
  | some element => pure element
  | none => Action.stop .nullElementType

/-- The address the arena gives for its next allocation, if it gives one. -/
abbrev Addresses := Nat → UInt64 → Option UInt64

def allocate (addresses : Addresses) (size : UInt64) (message : String) : Reader UInt64 where
  run s := match if size = 0 then none else addresses s.allocations size with
    | some address => (.ok address,{ s with allocations := s.allocations + 1 })
    | none => (.error (.chunk (.error .nomem message)),s)

def fieldPlaces (type : TypeDescriptor) (place : Place) : List (TypeId × Place) :=
  type.fields.map fun field => (field.type,place.plus field.offset)

def elementPlaces (element : TypeId) (elemSize : UInt64) (count : Nat) (place : Place) : List (TypeId × Place) :=
  (List.range count).map fun i => (element,place.plus (UInt64.ofNat i * elemSize))

section Reading
variable (data spare : List UInt32)

/-- The kinds that are one number, each with its bytes in the struct and its read. -/
def readNumber : TypeKind → Option (Nat × Run Nat UInt32)
  | .u8 | .i8 => some (1,do
    let value ← chunkReadByte data
    pure value.toUInt32)
  | .u16 | .i16 => some (2,do
    let value ← chunkReadWord data
    pure value.toUInt32)
  | .u32 | .i32 | .bool => some (4,chunkReadDword data)
  | .f32 => some (4,chunkReadFloat data)
  | .resourceRef => some (4,chunkReadObjectId data)
  | _ => none

variable (types : Types) (addresses : Addresses)

/-- One level of `read_value`. -/
def readStep (readValue : TypeId × Place → Reader Value) (here : TypeId × Place) : Reader Value :=
  let type := types here.1
  let place := here.2
  match type.kind with
  | .string => do
    let (str,_) ← fromChunk (chunkReadString data spare)
    match str with
    | none => failRead .eof "Failed to read string"
    | some chars => do
      store place 8
      pure (.string (some (chars.takeWhile (· ≠ 0))))
  | .struct => do
    let fields ← Action.each readValue (fieldPlaces type place)
    pure (.struct fields)
  | .array => do
    let count ← fromChunk (chunkReadDword data)
    if count = 0 then do
      let _ ← storeCounted place 0 0
      pure (.array (some []))
    else do
      let element ← elementOf type
      let elemSize := (types element).size
      if elemSize = 0 then failRead .validationFailed "Cannot read array of variable-size elements"
      else do
        let blockSize := elemSize * count.toUInt64
        let array ← allocate addresses blockSize "Failed to allocate array"
        let elements ← Action.each readValue (elementPlaces element elemSize count.toNat ⟨blockSize,0⟩)
        let pointer ← storeCounted place array count
        pure (.array (if pointer = array then some elements else none))
  | .fixedArray => do
    let element ← elementOf type
    let elements ← Action.each readValue
      (elementPlaces element (types element).size type.arrayLength.toNat place)
    pure (.fixedArray elements)
  | .binary => do
    let size ← fromChunk (chunkReadDword data)
    if size = 0 then do
      let _ ← storeCounted place 0 0
      pure (.binary (some []))
    else do
      let block ← allocate addresses size.toUInt64 "Failed to allocate binary buffer"
      let _ ← fromChunk (chunkReadBuffer data spare)
      -- the pointer to the bytes goes to the block that was meant for the bytes
      store ⟨size.toUInt64,0⟩ 8
      let _ ← storeCounted place block size
      pure (.binary none)
  | .enum => do
    let element ← elementOf type
    readValue (element,place)
  | kind => match readNumber data kind with
    | some (width,read) => do
      let value ← fromChunk read
      store place width
      pure (.number value)
    | none => failRead .validationFailed "Unknown type kind in schema"

/-- `read_value` to a depth of recursion. -/
def readValue : Nat → TypeId × Place → Reader Value :=
  Action.unroll .unfinished (readStep data spare types addresses)

def schemaReadStruct (depth : Nat) (type : TypeId) : Reader Value :=
  let place : Place := ⟨(types type).size,0⟩
  if (types type).kind ≠ .struct then failRead .invalidArgument "Type is not a struct"
  else do
    -- memset
    store place (types type).size.toNat
    readValue data spare types addresses depth (type,place)

end Reading

end Libnmo.Schema
