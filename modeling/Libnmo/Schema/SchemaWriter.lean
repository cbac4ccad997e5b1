import Libnmo.Schema.ReaderProgress

/-! Types as the builder makes them, and writing by a schema. A value stands for the bytes it is
given in: the fields of a struct do not overlap, so they are values of their own, and an array or a binary
is its count with what its pointer leads to. -/
namespace Libnmo.Schema
open Core Format Lib

section Builder

def builderScalar (kind : TypeKind) (size : UInt64) : TypeDescriptor := { kind := kind, size := size }

def builderStruct (size : UInt64) (fields : List SchemaField) : TypeDescriptor :=
  { kind := .struct, size := size, fields := fields }

/-- The declared size says that the size varies. -/
def builderArray (element : TypeId) : TypeDescriptor := { kind := .array, size := 0, elementType := some element }

def builderFixedArray (types : Types) (element : TypeId) (length : UInt64) : TypeDescriptor :=
  { kind := .fixedArray, size := (types element).size * length, elementType := some element, arrayLength := length }

/-- The base type goes to `enum_base_type`, which neither the reader nor the writer looks at. -/
def builderEnum (base : TypeKind) : TypeDescriptor where
  kind := .enum
  size := match base with
    | .u8 | .i8 => 1
    | .u16 | .i16 => 2
    | _ => 4

end Builder

inductive WriteStop
  | chunk (stop : Stop)
  | nullElementType
  | unfinished
  /-- The bytes are of another type. -/
  | otherValue
  deriving DecidableEq

abbrev Writer (α : Type) := Action WriteStop Chunk α

def onChunk {α : Type} (action : Run Chunk α) : Writer α where
  run c :=
    let (outcome,c') := action.run c
    (outcome.mapError .chunk,c')

section Writing
variable (types : Types) (around : Surroundings)

def writeNumber (bits : UInt32) : TypeKind → Option (Run Chunk Unit)
  | .u8 | .i8 => some (chunkWriteByte around bits.toUInt8)
  | .u16 | .i16 => some (chunkWriteWord around bits.toUInt16)
  | .u32 | .i32 | .bool => some (chunkWriteDword around bits)
  | .f32 => some (chunkWriteFloat around bits)
  | .resourceRef => some (chunkWriteObjectId around bits)
  | _ => none

def writtenElement (type : TypeDescriptor) : Writer TypeId :=
  match type.elementType with
  | some element => pure element
  | none => Action.stop .nullElementType

/-- One level of `write_value`. -/
def writeStep (writeValue : TypeId × Value → Writer Unit) (here : TypeId × Value) : Writer Unit :=
  let type := types here.1
  match type.kind,here.2 with
  | .string,.string chars => onChunk (chunkWriteString around chars)
  | .struct,.struct fields => do
    let _ ← Action.each writeValue ((type.fields.map SchemaField.type).zip fields)
    pure ()
  | .array,.array (some elements) => do
    let count := UInt32.ofNat elements.length
    onChunk (chunkWriteDword around count)
    if count > 0 then do
      let element ← writtenElement type
      let _ ← Action.each writeValue (elements.map fun value => (element,value))
      pure ()
    else pure ()
  | .fixedArray,.fixedArray elements => do
    let element ← writtenElement type
    let _ ← Action.each writeValue (elements.map fun value => (element,value))
    pure ()
  | .binary,.binary (some bytes) => do
    let size := UInt32.ofNat bytes.length
    onChunk (chunkWriteDword around size)
    if size > 0 then onChunk (chunkWriteBuffer around (some bytes) size.toNat)
    else pure ()
  | .enum,value => do
    let element ← writtenElement type
    writeValue (element,value)
  | kind,.number bits => match writeNumber around bits kind with
    | some write => onChunk write
    | none => Action.stop (.chunk (.error .validationFailed "Unknown type kind in schema"))
  | _,_ => Action.stop .otherValue

/-- `write_value` to a depth of recursion. -/
def writeValue : Nat → TypeId × Value → Writer Unit := Action.unroll .unfinished (writeStep types around)

def schemaWriteStruct (depth : Nat) (type : TypeId) (value : Value) : Writer Unit :=
  if (types type).kind ≠ .struct then Action.stop (.chunk (.error .invalidArgument "Type is not a struct"))
  else writeValue types around depth (type,value)

/-- The write appends to the chunk, and a read from where it began, out of any arena that has room,
gives the value and stops where the write did. -/
def SchemaKept (c : Chunk) (type : TypeId) (value : Value) : Prop :=
  ∃ depth c', (schemaWriteStruct types around depth type value).run c = (.ok (),c') ∧
    ∀ addresses : Addresses, (∀ call size, size ≠ 0 → addresses call size ≠ none) → ∃ depth t,
      (schemaReadStruct c'.words c'.spare types addresses depth type).run { pos := c.dataSize } = (.ok value,t) ∧
        t.pos = c'.dataSize

end Writing

/-- A value of a type that the builder has made, down to its parts. -/
inductive ValueOf (types : Types) : TypeId → Value → Prop
  | number {type : TypeId} {size : UInt64} {kind : TypeKind} {width : Nat} {bits : UInt32}
      (built : types type = builderScalar kind size) (stores : numberWidth kind = some width)
      (fits : bits.toNat < 2 ^ (8 * width)) : ValueOf types type (.number bits)
  | string {type : TypeId} {size : UInt64} {chars : Option (List UInt8)} (built : types type = builderScalar .string size)
      (whole : ∀ text, chars = some text → 0 ∉ text) : ValueOf types type (.string chars)
  | binary {type : TypeId} {size : UInt64} {bytes : List UInt8} (built : types type = builderScalar .binary size)
      (counted : bytes.length < 2 ^ 32) : ValueOf types type (.binary (some bytes))
  | struct {type : TypeId} {size : UInt64} {fields : List SchemaField} {values : List Value}
      (built : types type = builderStruct size fields) (full : values.length = fields.length)
      (each : ∀ pair ∈ (fields.map SchemaField.type).zip values, ValueOf types pair.1 pair.2) :
      ValueOf types type (.struct values)
  | array {type element : TypeId} {elements : List Value} (built : types type = builderArray element)
      (counted : elements.length < 2 ^ 32) (each : ∀ value ∈ elements, ValueOf types element value) :
      ValueOf types type (.array (some elements))
  | fixedArray {type element : TypeId} {length : UInt64} {elements : List Value}
      (built : types type = builderFixedArray types element length) (full : elements.length = length.toNat)
      (each : ∀ value ∈ elements, ValueOf types element value) : ValueOf types type (.fixedArray elements)
  | enum {type : TypeId} {base : TypeKind} {width : Nat} {bits : UInt32} (built : types type = builderEnum base)
      (stores : numberWidth base = some width) (fits : bits.toNat < 2 ^ (8 * width)) : ValueOf types type (.number bits)

end Libnmo.Schema
