import Libnmo.Schema.ParameterStates

/-! The states of render objects, of entities in two and three dimensions and of sprites, and
their chunks. Each class keeps what is left of the chunk as a raw tail, a buffer that is
written without its size. The position counts dwords there, and the size counts bytes. -/
namespace Libnmo.Schema
open Core Format Lib

section CkRenderObject

/-- `nmo_chunk_get_data_size`, the bytes of the data. -/
def chunkGetDataSize (c : Chunk) : Nat := c.dataSize * 4

/-- The rest of the chunk, or none if the buffer that is read is not as long. -/
def loadTail : Run Chunk (List UInt8) := do
  let currentPos ← Action.read chunkGetPosition
  let chunkSize ← Action.read chunkGetDataSize
  (if currentPos < chunkSize then do
    let (tail,bytesRead) ← onPosition fun data spare => chunkReadAndFillBuffer data spare (chunkSize - currentPos)
    pure (if bytesRead = chunkSize - currentPos then tail else [])
  else pure [])

def saveTail (around : Surroundings) (tail : List UInt8) : Run Chunk Unit :=
  if tail.length > 0 then chunkWriteBufferNoSize around tail tail.length else pure ()

structure CkrenderobjectState where
  rawTail : List UInt8 := []
  deriving DecidableEq

def ckRenderObjectDeserialize : Run Chunk CkrenderobjectState := do
  let rawTail ← loadTail
  pure { rawTail }

def ckRenderObjectSerialize (around : Surroundings) (s : CkrenderobjectState) : Run Chunk Unit := saveTail around s.rawTail

end CkRenderObject

section Ck3dEntity

structure Ck3dentityState where
  renderObject : CkrenderobjectState := {}
  worldMatrix : Vector UInt32 16 := Vector.replicate 16 0
  entityFlags : UInt32 := 0
  rawTail : List UInt8 := []
  deriving DecidableEq

/-- The fields up to the flags, the last one that is not of the tail. -/
def load3dFields : Run Chunk Ck3dentityState := do
  let renderObject ← ckRenderObjectDeserialize
  let elements ← (orFail .validationFailed "Failed to read world matrix element" readFloat).times 16
  let entityFlags ← orFail .validationFailed "Failed to read entity flags" readDword
  pure { renderObject, worldMatrix := Vector.ofFn fun i => elements.getD i 0, entityFlags }

def ck3dEntityDeserialize : Run Chunk Ck3dentityState := do
  let s ← load3dFields
  let rawTail ← loadTail
  pure { s with rawTail }

def ck3dEntitySerialize (around : Surroundings) (s : Ck3dentityState) : Run Chunk Unit := do
  ckRenderObjectSerialize around s.renderObject
  writeEach (chunkWriteFloat around) s.worldMatrix.toList
  chunkWriteDword around s.entityFlags
  saveTail around s.rawTail

end Ck3dEntity

section Ck2dEntity

def ck2dentityChunkModern : UInt32 := 0x10F000

def ck2dentityChunkFlags : UInt32 := 0x4000
def ck2dentityChunkOrigin : UInt32 := 0x8000
def ck2dentityChunkSize : UInt32 := 0x2000
def ck2dentityChunkSourceRect : UInt32 := 0x1000
def ck2dentityChunkZOrder : UInt32 := 0x100000

def ck2dentityFlagSourceRect : UInt32 := 0x10000
def ck2dentityFlagZOrder : UInt32 := 0x20000
def ck2dentityFlagParent : UInt32 := 0x40000
def ck2dentityFlagMaterial : UInt32 := 0x200000
def ck2dentityFlagHomogeneous : UInt32 := 0x200
def ck2dentityFlagsMask : UInt32 := 0xFFF8F7FF

structure VxRect where
  x : UInt32 := 0
  y : UInt32 := 0
  width : UInt32 := 0
  height : UInt32 := 0
  deriving DecidableEq

structure Ck2dentityState where
  renderObject : CkrenderobjectState := {}
  rect : VxRect := {}
  hasHomogeneousRect : Bool := false
  homogeneousRect : VxRect := {}
  hasSourceRect : Bool := false
  sourceRect : VxRect := {}
  hasZOrder : Bool := false
  zOrder : UInt32 := 0
  hasParent : Bool := false
  parentId : UInt32 := 0
  hasMaterial : Bool := false
  materialId : UInt32 := 0
  flags : UInt32 := 0
  rawTail : List UInt8 := []
  deriving DecidableEq

def readRect : Run Chunk VxRect := do
  let x ← readFloat
  let y ← readFloat
  let width ← readFloat
  let height ← readFloat
  pure { x, y, width, height }

/-- A block that is there if a flag is set, or else the zeros of the state. -/
def loadOptional {α : Type} (present : Bool) (missing : α) (message : String) (read : Run Chunk α) : Run Chunk α :=
  if present then orFail .validationFailed message read else pure missing

def deserializeModern : Run Chunk Ck2dentityState := do
  let rawFlags ← orFail .validationFailed "Failed to read CK2dEntity flags" readDword
  let flags := rawFlags &&& ck2dentityFlagsMask
  let hasHomogeneousRect := hasFlag flags ck2dentityFlagHomogeneous
  let homogeneousRect ← loadOptional hasHomogeneousRect {} "Failed to read homogeneous rect" readRect
  let rect ← loadOptional (!hasHomogeneousRect) {} "Failed to read rect" readRect
  let sourceRect ← loadOptional (hasFlag rawFlags ck2dentityFlagSourceRect) {} "Failed to read source rect" readRect
  let zOrder ← loadOptional (hasFlag rawFlags ck2dentityFlagZOrder) 0 "Failed to read z-order" readDword
  let parentId ← loadOptional (hasFlag rawFlags ck2dentityFlagParent) 0 "Failed to read parent ID" readObjectId
  let materialId ← loadOptional (hasFlag rawFlags ck2dentityFlagMaterial) 0 "Failed to read material ID" readObjectId
  pure {
    rect, hasHomogeneousRect, homogeneousRect, hasSourceRect := hasFlag rawFlags ck2dentityFlagSourceRect, sourceRect
    hasZOrder := hasFlag rawFlags ck2dentityFlagZOrder, zOrder, hasParent := hasFlag rawFlags ck2dentityFlagParent, parentId
    hasMaterial := hasFlag rawFlags ck2dentityFlagMaterial, materialId, flags }

/-- The float of an integer, by its bits. -/
def floatOf (value : Int32) : UInt32 := value.toFloat32.toBits

def readIntAsFloat (message : String) : Run Chunk UInt32 := do
  let value ← orFail .validationFailed message readInt
  pure (floatOf value)

def deserializeLegacy : Run Chunk Ck2dentityState := do
  let flags ← readSection ck2dentityChunkFlags 0 (do
    let rawFlags ← orFail .validationFailed "Failed to read legacy flags" readDword
    pure (rawFlags &&& ck2dentityFlagsMask))
  let origin ← readSection ck2dentityChunkOrigin (0,0) (do
    let x ← readIntAsFloat "Failed to read origin x"
    let y ← readIntAsFloat "Failed to read origin y"
    pure (x,y))
  let size ← readSection ck2dentityChunkSize (0,0) (do
    let width ← readIntAsFloat "Failed to read size width"
    let height ← readIntAsFloat "Failed to read size height"
    pure (width,height))
  let source ← readSection ck2dentityChunkSourceRect (({} : VxRect),false) (do
    let x ← readIntAsFloat "Failed to read source rect"
    let y ← readIntAsFloat "Failed to read source rect"
    let width ← readIntAsFloat "Failed to read source rect"
    let height ← readIntAsFloat "Failed to read source rect"
    pure (({ x, y, width, height } : VxRect),true))
  let order ← readSection ck2dentityChunkZOrder (0,false) (do
    let zOrder ← orFail .validationFailed "Failed to read z-order" readDword
    pure (zOrder,true))
  pure {
    flags, rect := ⟨origin.1,origin.2,size.1,size.2⟩, sourceRect := source.1, hasSourceRect := source.2, zOrder := order.1
    hasZOrder := order.2 }

/-- The layout is chosen by the version of the data. -/
def load2dFields (dataVersion : UInt32) : Run Chunk Ck2dentityState :=
  if dataVersion ≥ 5 then do
    let present ← found ck2dentityChunkModern
    (if present then deserializeModern
    else fail .validationFailed "Missing modern CK2dEntity chunk (0x10F000)")
  else deserializeLegacy

def ck2dEntityDeserialize : Run Chunk Ck2dentityState := do
  let renderObject ← ckRenderObjectDeserialize
  let dataVersion ← Action.read Chunk.dataVersion
  let s ← load2dFields dataVersion
  let rawTail ← loadTail
  pure { s with renderObject, rawTail }

section Saving
variable (around : Surroundings)

def writeRect (rect : VxRect) : Run Chunk Unit := do
  chunkWriteFloat around rect.x
  chunkWriteFloat around rect.y
  chunkWriteFloat around rect.width
  chunkWriteFloat around rect.height

/-- The flags with those of the optional blocks. -/
def blockFlags (s : Ck2dentityState) : UInt32 :=
  s.flags ||| (if s.hasSourceRect then ck2dentityFlagSourceRect else 0) ||| (if s.hasZOrder then ck2dentityFlagZOrder else 0) |||
    (if s.hasParent then ck2dentityFlagParent else 0) ||| (if s.hasMaterial then ck2dentityFlagMaterial else 0)

def serializeModern (s : Ck2dentityState) : Run Chunk Unit := do
  chunkWriteIdentifier around ck2dentityChunkModern
  chunkWriteDword around (blockFlags s)
  writeRect around (if s.hasHomogeneousRect then s.homogeneousRect else s.rect)
  (if s.hasSourceRect then writeRect around s.sourceRect else pure ())
  (if s.hasZOrder then chunkWriteDword around s.zOrder else pure ())
  (if s.hasParent then chunkWriteObjectId around s.parentId else pure ())
  (if s.hasMaterial then chunkWriteObjectId around s.materialId else pure ())

def ck2dEntitySerialize (s : Ck2dentityState) : Run Chunk Unit := do
  ckRenderObjectSerialize around s.renderObject
  serializeModern around s
  orFail .validationFailed "Failed to write raw tail" (saveTail around s.rawTail)

end Saving

end Ck2dEntity

section CkSprite

def ckspriteChunkSpriteRef : UInt32 := 0x80000
def ckspriteChunkTransparency : UInt32 := 0x20000
def ckspriteChunkSlot : UInt32 := 0x10000
def ckspriteChunkSaveOptions : UInt32 := 0x20000000

/-- The identifier of the transparency, too. -/
def bitmapDimensions : UInt32 := 0x20000

structure CkbitmapData where
  width : UInt32 := 0
  height : UInt32 := 0
  pixelData : List UInt8 := []
  rawData : List UInt8 := []
  deriving DecidableEq

structure CkspriteState where
  entity : Ck2dentityState := {}
  hasSpriteRef : Bool := false
  spriteRefId : UInt32 := 0
  hasBitmapData : Bool := false
  bitmapData : CkbitmapData := {}
  hasTransparency : Bool := false
  isTransparent : Bool := false
  transparentColor : UInt32 := 0
  hasSlot : Bool := false
  currentSlot : UInt32 := 0
  hasSaveOptions : Bool := false
  saveOptions : UInt32 := 0
  bitmapProperties : List UInt8 := []
  rawTail : List UInt8 := []
  deriving DecidableEq

def readBitmapData : Run Chunk CkbitmapData := do
  let dimensions ← readSection bitmapDimensions (0,0) (do
    let width ← readDword
    let height ← readDword
    pure (width,height))
  let rawData ← loadTail
  pure { width := dimensions.1, height := dimensions.2, rawData }

/-- The reference to another sprite, or else a bitmap. -/
def loadBitmap : Run Chunk (Option UInt32 × CkbitmapData) := do
  let present ← found ckspriteChunkSpriteRef
  (if present then do
    let spriteRefId ← orFail .validationFailed "Failed to read sprite reference ID" readObjectId
    pure (some spriteRefId,{})
  else do
    let bitmapData ← orFail .validationFailed "Failed to read bitmap data" readBitmapData
    pure (none,bitmapData))

def loadTransparency : Run Chunk (Option (UInt32 × Bool)) :=
  readSection ckspriteChunkTransparency none (do
    let transparentColor ← orFail .validationFailed "Failed to read transparent color" readDword
    let transparentFlag ← orFail .validationFailed "Failed to read transparency flag" readDword
    pure (some (transparentColor,transparentFlag != 0)))

def loadSlot : Run Chunk (Option UInt32) :=
  readSection ckspriteChunkSlot none (do
    let currentSlot ← orFail .validationFailed "Failed to read current slot" readDword
    pure (some currentSlot))

def loadSaveOptions : Run Chunk (Option UInt32 × List UInt8) :=
  readSection ckspriteChunkSaveOptions (none,[]) (do
    let saveOptions ← orFail .validationFailed "Failed to read save options" readDword
    let dataVersion ← Action.read Chunk.dataVersion
    let bitmapProperties ← (if dataVersion > 6 then loadTail else pure [])
    pure (some saveOptions,bitmapProperties))

def ckSpriteDeserialize : Run Chunk CkspriteState := do
  let entity ← ck2dEntityDeserialize
  let bitmap ← loadBitmap
  let transparency ← loadTransparency
  let slot ← loadSlot
  let options ← loadSaveOptions
  let rawTail ← loadTail
  pure {
    entity, hasSpriteRef := bitmap.1.isSome, spriteRefId := bitmap.1.getD 0, hasBitmapData := bitmap.1.isNone
    bitmapData := bitmap.2, hasTransparency := transparency.isSome, transparentColor := (transparency.getD (0,false)).1
    isTransparent := (transparency.getD (0,false)).2, hasSlot := slot.isSome, currentSlot := slot.getD 0
    hasSaveOptions := options.1.isSome, saveOptions := options.1.getD 0, bitmapProperties := options.2, rawTail }

section Saving
variable (around : Surroundings)

def saveBitmap (s : CkspriteState) : Run Chunk Unit :=
  if s.hasSpriteRef then do
    chunkWriteIdentifier around ckspriteChunkSpriteRef
    chunkWriteObjectId around s.spriteRefId
  else if s.hasBitmapData then
    orFail .validationFailed "Failed to write bitmap data" (saveTail around s.bitmapData.rawData)
  else pure ()

def saveTransparency (s : CkspriteState) : Run Chunk Unit :=
  if s.hasTransparency then do
    chunkWriteIdentifier around ckspriteChunkTransparency
    chunkWriteDword around s.transparentColor
    chunkWriteDword around (if s.isTransparent then 1 else 0)
  else pure ()

def saveSlot (s : CkspriteState) : Run Chunk Unit :=
  if s.hasSlot then do
    chunkWriteIdentifier around ckspriteChunkSlot
    chunkWriteDword around s.currentSlot
  else pure ()

def saveSaveOptions (s : CkspriteState) : Run Chunk Unit :=
  if s.hasSaveOptions then do
    chunkWriteIdentifier around ckspriteChunkSaveOptions
    chunkWriteDword around s.saveOptions
    orFail .validationFailed "Failed to write bitmap properties" (saveTail around s.bitmapProperties)
  else pure ()

def ckSpriteSerialize (s : CkspriteState) : Run Chunk Unit := do
  ck2dEntitySerialize around s.entity
  saveBitmap around s
  saveTransparency around s
  saveSlot around s
  saveSaveOptions around s
  orFail .validationFailed "Failed to write raw tail" (saveTail around s.rawTail)

end Saving

end CkSprite

end Libnmo.Schema
