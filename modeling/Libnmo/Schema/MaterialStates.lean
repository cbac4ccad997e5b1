import Libnmo.Schema.ManagerStates

/-! The states of materials and textures, and their chunks. Each is a few sections that may
be absent, with a flag for each; the fields of a section have their defaults where it is
absent. Floats are given by their bits. -/
namespace Libnmo.Schema
open Core Format Lib

/-- A section that may be absent, and whether it was there. -/
def loadSection {α : Type} (identifier : UInt32) (missing : α) (read : Run Chunk α) : Run Chunk (α × Bool) := do
  let present ← found identifier
  (if present then do
    let value ← read
    pure (value,true)
  else pure (missing,false))

section Material

def materialIdentifierColors : UInt32 := 0x00001000
def materialIdentifierTextures : UInt32 := 0x00002000
def materialIdentifierRendering : UInt32 := 0x00004000

structure MaterialColor where
  r : UInt32
  g : UInt32
  b : UInt32
  a : UInt32
  deriving DecidableEq

structure MaterialColors where
  ambient : MaterialColor := ⟨0x3E99999A,0x3E99999A,0x3E99999A,0x3F800000⟩
  diffuse : MaterialColor := ⟨0x3F333333,0x3F333333,0x3F333333,0x3F800000⟩
  specular : MaterialColor := ⟨0x3F000000,0x3F000000,0x3F000000,0x3F800000⟩
  emissive : MaterialColor := ⟨0,0,0,0x3F800000⟩
  specularPower : UInt32 := 0
  deriving DecidableEq

structure MaterialTextures where
  textureIds : Vector UInt32 4 := Vector.replicate 4 0
  textureCount : UInt32 := 0
  textureBlendMode : UInt32 := 2
  textureMinMode : UInt32 := 2
  textureMagMode : UInt32 := 2
  textureAddressMode : UInt32 := 1
  textureBorderColor : UInt32 := 0xFF000000
  deriving DecidableEq

structure MaterialRendering where
  shadeMode : UInt32 := 2
  fillMode : UInt32 := 3
  alphaTestEnabled : Bool := false
  alphaFunc : UInt32 := 8
  alphaRef : UInt8 := 0
  blendEnabled : Bool := false
  srcBlend : UInt32 := 2
  destBlend : UInt32 := 1
  zwriteEnabled : Bool := true
  ztestEnabled : Bool := true
  twoSided : Bool := false
  deriving DecidableEq

structure CkMaterialState where
  colors : MaterialColors := {}
  textures : MaterialTextures := {}
  rendering : MaterialRendering := {}
  hasColors : Bool := false
  hasTextures : Bool := false
  hasRenderingSettings : Bool := false
  deriving DecidableEq

def readColor : Run Chunk MaterialColor := do
  let r ← readFloat
  let g ← readFloat
  let b ← readFloat
  let a ← readFloat
  pure { r, g, b, a }

def deserializeColors : Run Chunk MaterialColors := do
  let ambient ← readColor
  let diffuse ← readColor
  let specular ← readColor
  let emissive ← readColor
  let specularPower ← readFloat
  pure { ambient, diffuse, specular, emissive, specularPower }

def clampedCount (count : UInt32) : UInt32 := if count > 4 then 4 else count

/-- The entries behind those that were read are zero. -/
def storedIds (ids : List UInt32) : Vector UInt32 4 := Vector.ofFn fun i => ids.getD i 0

def deserializeTextures : Run Chunk MaterialTextures := do
  let count ← readDword
  let ids ← readObjectId.times (clampedCount count).toNat
  let textureBlendMode ← readDword
  let textureMinMode ← readDword
  let textureMagMode ← readDword
  let textureAddressMode ← readDword
  let textureBorderColor ← readDword
  pure {
    textureIds := storedIds ids, textureCount := clampedCount count, textureBlendMode, textureMinMode, textureMagMode
    textureAddressMode, textureBorderColor }

/-- A word that is true where it is not zero. -/
def readFlag : Run Chunk Bool := do
  let temp ← readDword
  pure (temp != 0)

def deserializeRendering : Run Chunk MaterialRendering := do
  let shadeMode ← readDword
  let fillMode ← readDword
  let alphaTestEnabled ← readFlag
  let alphaFunc ← readDword
  let alphaRef ← readDword
  let blendEnabled ← readFlag
  let srcBlend ← readDword
  let destBlend ← readDword
  let zwriteEnabled ← readFlag
  let ztestEnabled ← readFlag
  let twoSided ← readFlag
  pure {
    shadeMode, fillMode, alphaTestEnabled, alphaFunc, alphaRef := alphaRef.toUInt8, blendEnabled, srcBlend, destBlend
    zwriteEnabled, ztestEnabled, twoSided }

def ckmaterialDeserializeModern : Run Chunk CkMaterialState := do
  let colors ← loadSection materialIdentifierColors {} deserializeColors
  let textures ← loadSection materialIdentifierTextures {} deserializeTextures
  let rendering ← loadSection materialIdentifierRendering {} deserializeRendering
  pure {
    colors := colors.1, textures := textures.1, rendering := rendering.1
    hasColors := colors.2, hasTextures := textures.2, hasRenderingSettings := rendering.2 }

section Saving
variable (around : Surroundings)

def writeColor (color : MaterialColor) : Run Chunk Unit := do
  chunkWriteFloat around color.r
  chunkWriteFloat around color.g
  chunkWriteFloat around color.b
  chunkWriteFloat around color.a

def saveColors (s : MaterialColors) : Run Chunk Unit := do
  chunkWriteIdentifier around materialIdentifierColors
  writeColor around s.ambient
  writeColor around s.diffuse
  writeColor around s.specular
  writeColor around s.emissive
  chunkWriteFloat around s.specularPower

def saveTextures (s : MaterialTextures) : Run Chunk Unit := do
  chunkWriteIdentifier around materialIdentifierTextures
  chunkWriteDword around s.textureCount
  writeFirst (chunkWriteObjectId around) s.textureIds.toList s.textureCount.toNat
  chunkWriteDword around s.textureBlendMode
  chunkWriteDword around s.textureMinMode
  chunkWriteDword around s.textureMagMode
  chunkWriteDword around s.textureAddressMode
  chunkWriteDword around s.textureBorderColor

def writeFlag (flag : Bool) : Run Chunk Unit := chunkWriteDword around (if flag then 1 else 0)

def saveRendering (s : MaterialRendering) : Run Chunk Unit := do
  chunkWriteIdentifier around materialIdentifierRendering
  chunkWriteDword around s.shadeMode
  chunkWriteDword around s.fillMode
  writeFlag around s.alphaTestEnabled
  chunkWriteDword around s.alphaFunc
  chunkWriteDword around s.alphaRef.toUInt32
  writeFlag around s.blendEnabled
  chunkWriteDword around s.srcBlend
  chunkWriteDword around s.destBlend
  writeFlag around s.zwriteEnabled
  writeFlag around s.ztestEnabled
  writeFlag around s.twoSided

def ckmaterialSerializeModern (s : CkMaterialState) : Run Chunk Unit := do
  (if s.hasColors then saveColors around s.colors else pure ())
  (if s.hasTextures ∧ s.textures.textureCount > 0 then saveTextures around s.textures else pure ())
  (if s.hasRenderingSettings then saveRendering around s.rendering else pure ())

end Saving

end Material

section Texture

def textureIdentifierPalette : UInt32 := 0x00200000
def textureIdentifierSysmem : UInt32 := 0x10000000
def textureIdentifierVideomem : UInt32 := 0x00800000
def textureIdentifierFilepath : UInt32 := 0x00400000
def textureIdentifierFormat : UInt32 := 0x00040000

structure TextureFormat where
  width : UInt32 := 0
  height : UInt32 := 0
  bitsPerPixel : UInt32 := 0
  bytesPerLine : UInt32 := 0
  imageSize : UInt32 := 0
  redMask : UInt32 := 0
  greenMask : UInt32 := 0
  blueMask : UInt32 := 0
  alphaMask : UInt32 := 0
  deriving DecidableEq

structure MipmapLevel where
  width : UInt32
  height : UInt32
  data : List UInt8
  deriving DecidableEq

/-- Each array is given with its size. The path is a string of C, or a null pointer. -/
structure CkTextureState where
  hasFormat : Bool := false
  format : TextureFormat := {}
  hasPalette : Bool := false
  palette : List UInt32 := []
  hasPixelData : Bool := false
  pixelData : List UInt8 := []
  hasVideoBackup : Bool := false
  videoBackup : List UInt8 := []
  hasFilePath : Bool := false
  filePath : Option (List UInt8) := none
  mipmaps : List MipmapLevel := []
  saveOptions : UInt32 := 0
  flags : UInt32 := 0
  needsMipmapGeneration : Bool := false
  deriving DecidableEq

def deserializeTextureFormat : Run Chunk TextureFormat := do
  let width ← orFail .invalidFormat "Failed to read texture width" readDword
  let height ← orFail .invalidFormat "Failed to read texture height" readDword
  let bitsPerPixel ← orFail .invalidFormat "Failed to read bits per pixel" readDword
  let bytesPerLine ← orFail .invalidFormat "Failed to read bytes per line" readDword
  let imageSize ← orFail .invalidFormat "Failed to read image size" readDword
  let redMask ← readDword
  let greenMask ← readDword
  let blueMask ← readDword
  let alphaMask ← readDword
  pure { width, height, bitsPerPixel, bytesPerLine, imageSize, redMask, greenMask, blueMask, alphaMask }

def deserializePalette : Run Chunk (List UInt32) := do
  let paletteSize ← orFail .invalidFormat "Failed to read palette size" readDword
  (orFail .invalidFormat "Failed to read palette entry" readDword).times paletteSize.toNat

/-- A size, and a buffer of that size. -/
def deserializeBlock (noSize incomplete : String) : Run Chunk (List UInt8) := do
  let size ← orFail .invalidFormat noSize readDword
  (if size > 0 then do
    let (bytes,bytesRead) ← onPosition fun data spare => chunkReadAndFillBuffer data spare size.toNat
    (if bytesRead ≠ size.toNat then fail .invalidFormat incomplete else pure bytes)
  else pure [])

def deserializePixelData : Run Chunk (List UInt8) :=
  deserializeBlock "Failed to read pixel data size" "Incomplete pixel data read"

def deserializeVideoBackup : Run Chunk (List UInt8) :=
  deserializeBlock "Failed to read video backup size" "Incomplete video backup read"

def deserializeFilePath : Run Chunk (Option (List UInt8)) := onPosition readText

def cktextureDeserializeModern : Run Chunk CkTextureState := do
  let format ← loadSection textureIdentifierFormat {} deserializeTextureFormat
  let palette ← loadSection textureIdentifierPalette [] deserializePalette
  let pixelData ← loadSection textureIdentifierSysmem [] deserializePixelData
  let videoBackup ← loadSection textureIdentifierVideomem [] deserializeVideoBackup
  let (filePath,_) ← loadSection textureIdentifierFilepath none deserializeFilePath
  pure {
    format := format.1, hasFormat := format.2, palette := palette.1, hasPalette := palette.2
    pixelData := pixelData.1, hasPixelData := pixelData.2, videoBackup := videoBackup.1, hasVideoBackup := videoBackup.2
    filePath, hasFilePath := filePath.isSome }

section Saving
variable (around : Surroundings)

def saveFormat (s : TextureFormat) : Run Chunk Unit := do
  chunkWriteIdentifier around textureIdentifierFormat
  chunkWriteDword around s.width
  chunkWriteDword around s.height
  chunkWriteDword around s.bitsPerPixel
  chunkWriteDword around s.bytesPerLine
  chunkWriteDword around s.imageSize
  chunkWriteDword around s.redMask
  chunkWriteDword around s.greenMask
  chunkWriteDword around s.blueMask
  chunkWriteDword around s.alphaMask

def savePalette (palette : List UInt32) : Run Chunk Unit := do
  chunkWriteIdentifier around textureIdentifierPalette
  chunkWriteDword around (UInt32.ofNat palette.length)
  writeEach (chunkWriteDword around) palette

def saveBlock (identifier : UInt32) (bytes : List UInt8) : Run Chunk Unit := do
  chunkWriteIdentifier around identifier
  chunkWriteDword around (UInt32.ofNat bytes.length)
  chunkWriteBuffer around (some bytes) bytes.length

def saveFilePath (path : List UInt8) : Run Chunk Unit := do
  chunkWriteIdentifier around textureIdentifierFilepath
  chunkWriteString around (some path)

def cktextureSerializeModern (s : CkTextureState) : Run Chunk Unit := do
  (if s.hasFormat then saveFormat around s.format else pure ())
  (if s.hasPalette ∧ s.palette.length > 0 then savePalette around s.palette else pure ())
  (if s.hasPixelData ∧ s.pixelData.length > 0 then saveBlock around textureIdentifierSysmem s.pixelData else pure ())
  (if s.hasVideoBackup ∧ s.videoBackup.length > 0 then saveBlock around textureIdentifierVideomem s.videoBackup else pure ())
  (match s.filePath with
  | some path => if s.hasFilePath then saveFilePath around path else pure ()
  | none => pure ())

end Saving

end Texture

end Libnmo.Schema
