import Libnmo.Format.ImageCodecs
import Libnmo.Format.RawBitmap

/-! Encoded bitmaps, in the newer and in the legacy layout. A codec gets the pixels with
four channels, or with three when it has no alpha, which the newer layout then stores next
to the encoded colours. -/
namespace Libnmo.Format
open Core Lib Lib.LittleEndian Lib.Cursor Lib.Grid

section Pixels

def bitmapCheckDesc (desc : ImageDesc) : Result Unit :=
  if desc.width.toInt ≤ 0 ∨ desc.height.toInt ≤ 0 ∨ desc.imageData = none then
    .error (.error .invalidArgument "Invalid image descriptor")
  else if dimensionsOverflow desc.width desc.height then .error (.error .invalidArgument "Bitmap dimensions overflow")
  else .ok ()

/-- The channels of a pixel, one byte each. -/
def interleaved (desc : ImageDesc) (channels : Nat) (pixel : UInt32) : List UInt8 :=
  [imageExtractChannel pixel desc.redMask desc.shifts 0,imageExtractChannel pixel desc.greenMask desc.shifts 1,
    imageExtractChannel pixel desc.blueMask desc.shifts 2] ++
  if channels = 4 then [if desc.alphaMask ≠ 0 then imageExtractChannel pixel desc.alphaMask desc.shifts 3 else 0xFF] else []

def bitmapConvertInterleaved (desc : ImageDesc) (channels : Nat) : Result (List UInt8) := do
  (if channels ≠ 3 ∧ channels ≠ 4 then .error (.error .invalidArgument "Invalid conversion arguments") else .ok ())
  bitmapCheckDesc desc
  (if desc.rowStride.toInt ≤ 0 then .error (.error .invalidArgument "Invalid row stride") else .ok ())
  (if desc.bytesPerPixel ≤ 0 ∨ desc.bytesPerPixel > 4 then .error (.error .notSupported "Unsupported source pixel format")
    else .ok ())
  let pixels ← cellsM desc.width.toInt.toNat desc.height.toInt.toNat desc.pixelOf
  .ok (pixels.flatMap (interleaved desc channels))

def bitmapCopyRgbaToRgb : List UInt8 → List UInt8
  | r :: g :: b :: _ :: rest => r :: g :: b :: bitmapCopyRgbaToRgb rest
  | _ => []

def bitmapExtractAlphaPlane : List UInt8 → List UInt8
  | _ :: _ :: _ :: a :: rest => a :: bitmapExtractAlphaPlane rest
  | _ => []

/-- The value of all of them, if there is one. -/
def bitmapAlphaIsConstant (rgba : List UInt8) : Option UInt8 :=
  match bitmapExtractAlphaPlane rgba with
  | [] => some 0xFF
  | first :: rest => if rest.all (· = first) then some first else none

/-- As many pixels of four channels. -/
def mergeRgba : Nat → List UInt8 → Result (List UInt32)
  | 0,_ => .ok []
  | count + 1,r :: g :: b :: a :: rest => do
    let words ← mergeRgba count rest
    .ok (bitmapPackArgb r g b a :: words)
  | _ + 1,short => .error (.overread short.length)

/-- A pixel of three channels for each alpha. -/
def mergeRgb : List UInt8 → List UInt8 → Result (List UInt32)
  | [],_ => .ok []
  | a :: alphas,r :: g :: b :: rest => do
    let words ← mergeRgb alphas rest
    .ok (bitmapPackArgb r g b a :: words)
  | _ :: _,short => .error (.overread short.length)

def mergeGray : Nat → List UInt8 → Result (List UInt32)
  | 0,_ => .ok []
  | count + 1,gray :: rest => do
    let words ← mergeGray count rest
    .ok (bitmapPackArgb gray gray gray 0xFF :: words)
  | _ + 1,[] => .error (.overread 0)

def argbImage (width height : Int32) (words : List UInt32) : ImageDesc × Option (List UInt8) :=
  ({ imageDescInitArgb32 width height with imageData := some (encodeWords words) },some (encodeWords words))

end Pixels

section Encoded
variable (around : Surroundings) (stb : StbAdapter) (table : CodecTable)

/-- Where the alpha of an encoded bitmap is. -/
inductive BitmapAlpha
  | encoded
  | constant (value : UInt8)
  | plane (bytes : List UInt8)

def storeNone : Int32 := 0
def storeEncoded : Int32 := 1
def storeEncodedWithAlpha : Int32 := 2
def alphaConstant : Int32 := 0
def alphaPlaneKind : Int32 := 1

/-- What is computed before the first write. -/
def encodeBitmap (codec : ImageCodec) (desc : ImageDesc) (props : Option BitmapProperties) : Result (List UInt8 × BitmapAlpha) := do
  let rgba ← bitmapConvertInterleaved desc 4
  if codec.supportsAlpha then do
    let encoded ← codec.encode rgba desc.width desc.height 4 props
    .ok (encoded,.encoded)
  else do
    let encoded ← codec.encode (bitmapCopyRgbaToRgb rgba) desc.width desc.height 3 (some { props.getD {} with saveAlpha := false })
    .ok (encoded,match bitmapAlphaIsConstant rgba with
      | some value => .constant value
      | none => .plane (bitmapExtractAlphaPlane rgba))

def BitmapAlpha.store : BitmapAlpha → Int32
  | .encoded => storeEncoded
  | .constant _ | .plane _ => storeEncodedWithAlpha

def writeBitmapAlpha : BitmapAlpha → Run Chunk Unit
  | .encoded => pure ()
  | .constant value => do
    chunkWriteInt around alphaConstant
    chunkWriteByte around value
  | .plane bytes => do
    chunkWriteInt around alphaPlaneKind
    chunkWriteBuffer around (some bytes) bytes.length

def bitmapTag (codec : ImageCodec) : UInt32 := bitmapExtensionTag (bitmapExtensionBytes (bitmapDefaultExtension codec))

def writeEncodedPayload (codec : ImageCodec) (desc : ImageDesc) (payload : List UInt8 × BitmapAlpha) : Run Chunk Unit := do
  chunkWriteInt around payload.2.store
  chunkWriteDword around (bitmapTag codec)
  chunkWriteInt around desc.width
  chunkWriteInt around desc.height
  chunkWriteBuffer around (some payload.1) payload.1.length
  writeBitmapAlpha around payload.2

def chunkWriteEncodedBitmap (desc : ImageDesc) (props : Option BitmapProperties) : Run Chunk Unit :=
  if desc.imageData = none then fail .invalidArgument "Invalid chunk or descriptor"
  else
    let format := (props.map BitmapProperties.format).getD formatPng
    if format = formatRaw then chunkWriteRawBitmap around desc
    else match imageCodecGet stb table format with
      | none => fail .notSupported "Bitmap codec not available"
      | some codec => do
        let payload ← Action.lift (encodeBitmap codec desc props)
        writeEncodedPayload around codec desc payload

variable (data spare : List UInt32)

/-- The alpha of each of the pixels. -/
def readBitmapAlpha (pixelCount : Nat) : Run Nat (List UInt8) := do
  let alphaKind ← chunkReadInt data
  if alphaKind = alphaConstant then do
    let constantAlpha ← chunkReadByte data
    pure (List.replicate pixelCount constantAlpha)
  else if alphaKind = alphaPlaneKind then do
    let alphaData ← chunkReadBuffer data spare
    (if alphaData.1.isNone ∨ alphaData.2 ≠ pixelCount then fail .corrupt "Invalid alpha plane data" else pure ())
    pure (alphaData.1.getD [])
  else fail .corrupt "Unknown alpha storage kind"

def chunkReadEncodedBitmap : Run Nat (ImageDesc × Option (List UInt8)) := do
  let storageType ← chunkReadInt data
  if storageType = storeNone then pure ({},none)
  else do
    let extensionTag ← chunkReadDword data
    let width ← chunkReadInt data
    let height ← chunkReadInt data
    (if width.toInt ≤ 0 ∨ height.toInt ≤ 0 then fail .invalidArgument "Invalid bitmap dimensions" else pure ())
    let encoded ← chunkReadBuffer data spare
    (if encoded.1.isNone ∨ encoded.2 = 0 then fail .corrupt "Encoded bitmap payload missing" else pure ())
    match imageCodecFindByExtension stb table (bitmapTagToString extensionTag) with
    | none => fail .notSupported "Unknown bitmap extension"
    | some codec => do
      let decoded ← Action.lift (codec.decode (encoded.1.getD []) (if storageType = storeEncoded then 4 else 3))
      (if decoded.width ≠ width ∨ decoded.height ≠ height then fail .corrupt "Decoded bitmap dimensions mismatch" else pure ())
      let pixelCount := width.toInt.toNat * height.toInt.toNat
      let words ← (if storageType = storeEncodedWithAlpha then do
          let alphas ← readBitmapAlpha data spare pixelCount
          Action.lift (mergeRgb alphas decoded.pixels)
        else if decoded.channels = 4 then Action.lift (mergeRgba pixelCount decoded.pixels)
        else Action.lift (mergeRgb (List.replicate pixelCount 0xFF) decoded.pixels))
      pure (argbImage width height words)

end Encoded

section Legacy
variable (around : Surroundings) (stb : StbAdapter) (table : CodecTable)

/-- The signature and the encoded bytes, with zeros up to a whole word. -/
def bitmapWriteLegacyPayload (signature encodedData : List UInt8) : Run Chunk Unit := do
  let totalSize := encodedData.length + 5
  let dwords := (totalSize + 3) / 4
  chunkCheckSize around dwords
  storeWords (decodeWords (signature ++ encodedData ++ List.replicate (dwords * 4 - totalSize) 0))

/-- The codec, the extension and the encoded bytes. -/
def encodeLegacy (desc : ImageDesc) (props : Option BitmapProperties) : Result (List UInt8 × List UInt8) := do
  bitmapCheckDesc desc
  match bitmapResolveCodec stb table props with
  | some (codec,some normalizedExt) => do
    let rgba ← bitmapConvertInterleaved desc 4
    let encodePixels := if codec.supportsAlpha then rgba else bitmapCopyRgbaToRgb rgba
    let encodeChannels := if codec.supportsAlpha then 4 else 3
    let effectiveProps := { props.getD {} with
      format := codec.format, extension := some (cString normalizedExt), saveAlpha := codec.supportsAlpha }
    let encoded ← codec.encode encodePixels desc.width desc.height encodeChannels (some effectiveProps)
    (if encoded.length > 2 ^ 31 - 1 - 5 then .error (.error .invalidArgument "Legacy bitmap payload too large") else .ok ())
    .ok (normalizedExt,encoded)
  | _ => .error (.error .notSupported "Legacy bitmap codec unavailable")

def chunkWriteBitmapLegacy (desc : ImageDesc) (props : Option BitmapProperties) : Run Chunk Unit :=
  if desc.imageData = none then fail .invalidArgument "Invalid chunk or descriptor"
  else do
    let (normalizedExt,encoded) ← Action.lift (encodeLegacy stb table desc props)
    let totalSize := Int32.ofInt (encoded.length + 5)
    chunkWriteInt around totalSize
    chunkWriteInt around totalSize
    let signature ← Action.lift (bitmapBuildSignature normalizedExt)
    bitmapWriteLegacyPayload around signature encoded

variable (data spare : List UInt32)

/-- The words of the pixels that were decoded. -/
def mergeDecoded (decoded : DecodedImage) : Result (List UInt32) :=
  let pixelCount := decoded.width.toInt.toNat * decoded.height.toInt.toNat
  if decoded.channels ≥ 4 then mergeRgba pixelCount decoded.pixels
  else if decoded.channels = 3 then mergeRgb (List.replicate pixelCount 0xFF) decoded.pixels
  else if decoded.channels = 1 then mergeGray pixelCount decoded.pixels
  else .error (.error .notSupported "Unsupported decoded channel count")

def decodeLegacy (payload : List UInt8) : Result (ImageDesc × Option (List UInt8)) := do
  (if payload.getD 0 0 ≠ 67 ∨ payload.getD 1 0 ≠ 75 then .error (.error .corrupt "Legacy bitmap signature invalid") else .ok ())
  let extension := bitmapExtensionFromSignature (payload.take 5)
  (if extension = [] then .error (.error .corrupt "Legacy bitmap extension missing") else .ok ())
  match imageCodecFindByExtension stb table extension with
  | none => .error (.error .notSupported "Legacy bitmap codec not available")
  | some codec => do
    (if payload.drop 5 = [] then .error (.error .corrupt "Legacy bitmap payload empty") else .ok ())
    let decoded ← codec.decode (payload.drop 5) 4
    (if decoded.width.toInt ≤ 0 ∨ decoded.height.toInt ≤ 0 then
      .error (.error .corrupt "Legacy bitmap decoded dimensions invalid") else .ok ())
    let words ← mergeDecoded decoded
    .ok (argbImage decoded.width decoded.height words)

def chunkReadBitmapLegacy : Run Nat (ImageDesc × Option (List UInt8)) := do
  let totalA ← chunkReadInt data
  let totalB ← chunkReadInt data
  (if totalA ≠ totalB then fail .corrupt "Legacy bitmap size mismatch" else pure ())
  if totalA.toInt ≤ 0 then pure ({},none)
  else do
    (if totalA.toInt < 5 then fail .corrupt "Legacy bitmap payload too small" else pure ())
    let payload ← chunkBitmapMapBytes data spare totalA.toInt.toNat
    match payload with
    | none => fail .corrupt "Legacy bitmap payload missing"
    | some payload => Action.lift (decodeLegacy stb table payload)

end Legacy

section Channels
variable {desc : ImageDesc}

/-- The alpha of a pixel. -/
def alphaOf (desc : ImageDesc) (pixel : UInt32) : UInt8 :=
  if desc.alphaMask ≠ 0 then imageExtractChannel pixel desc.alphaMask desc.shifts 3 else 0xFF

theorem copy_interleaved (pixels : List UInt32) :
    bitmapCopyRgbaToRgb (pixels.flatMap (interleaved desc 4)) = pixels.flatMap (interleaved desc 3) := by
  induction pixels with
  | nil => rfl
  | cons pixel rest ih =>
    rw [List.flatMap_cons,List.flatMap_cons,← ih]
    rfl

theorem alpha_interleaved (pixels : List UInt32) :
    bitmapExtractAlphaPlane (pixels.flatMap (interleaved desc 4)) = pixels.map (alphaOf desc) := by
  induction pixels with
  | nil => rfl
  | cons pixel rest ih =>
    rw [List.flatMap_cons,List.map_cons,← ih]
    rfl

theorem length_interleaved {channels : Nat} (known : channels = 3 ∨ channels = 4) (pixels : List UInt32) :
    (pixels.flatMap (interleaved desc channels)).length = pixels.length * channels := by
  induction pixels with
  | nil => exact (Nat.zero_mul _).symm
  | cons pixel rest ih =>
    have one : (interleaved desc channels pixel).length = channels := by
      rcases known with rfl | rfl <;> rfl
    rw [List.flatMap_cons,List.length_append,one,ih,List.length_cons,Nat.succ_mul,Nat.add_comm]

theorem mergeRgba_interleaved (pixels : List UInt32) :
    mergeRgba pixels.length (pixels.flatMap (interleaved desc 4)) = .ok (pixels.map desc.argbOf) := by
  induction pixels with
  | nil => rfl
  | cons pixel rest ih =>
    rw [List.flatMap_cons,List.length_cons,List.map_cons]
    change (do
      let words ← mergeRgba rest.length (rest.flatMap (interleaved desc 4))
      .ok (desc.argbOf pixel :: words) : Result (List UInt32)) = _
    rw [ih]
    rfl

theorem mergeRgb_interleaved (pixels : List UInt32) :
    mergeRgb (pixels.map (alphaOf desc)) (pixels.flatMap (interleaved desc 3)) = .ok (pixels.map desc.argbOf) := by
  induction pixels with
  | nil => rfl
  | cons pixel rest ih =>
    rw [List.flatMap_cons,List.map_cons,List.map_cons]
    change (do
      let words ← mergeRgb (rest.map (alphaOf desc)) (rest.flatMap (interleaved desc 3))
      .ok (desc.argbOf pixel :: words) : Result (List UInt32)) = _
    rw [ih]
    rfl

/-- The colours of a word, without its alpha. -/
def colours (word : UInt32) : UInt32 := word &&& 0xFFFFFF

theorem colours_pack (r g b a a' : UInt8) : colours (bitmapPackArgb r g b a) = colours (bitmapPackArgb r g b a') := by
  have low (alpha : UInt8) : (colours (bitmapPackArgb r g b alpha)).toNat = b.toNat + g.toNat * 2 ^ 8 + r.toNat * 2 ^ 16 := by
    have hr := r.toNat_lt
    have hg := g.toNat_lt
    have hb := b.toNat_lt
    rw [colours,UInt32.toNat_and,pack_bytesWord,toNat_bytesWord]
    change _ &&& (2 ^ 24 - 1) = _
    rw [Nat.and_two_pow_sub_one_eq_mod]
    omega
  exact UInt32.toNat_inj.mp ((low a).trans (low a').symm)

/-- Pixels that were widened to four channels keep their colours. -/
theorem mergeRgba_widened {pixels : List UInt32} {rgba : List UInt8} (length : rgba.length = pixels.length * 4)
    (same : bitmapCopyRgbaToRgb rgba = pixels.flatMap (interleaved desc 3)) :
    ∃ words, mergeRgba pixels.length rgba = .ok words ∧
      List.Forall₂ (fun pixel word => colours word = colours (desc.argbOf pixel)) pixels words := by
  induction pixels generalizing rgba with
  | nil => exact ⟨[],rfl,.nil⟩
  | cons pixel rest ih =>
    match rgba,length,same with
    | r :: g :: b :: a :: more,length,same =>
      rw [List.flatMap_cons,bitmapCopyRgbaToRgb] at same
      obtain ⟨red,same⟩ := List.cons.inj same
      obtain ⟨green,same⟩ := List.cons.inj same
      obtain ⟨blue,same⟩ := List.cons.inj same
      obtain ⟨words,merged,all⟩ := @ih more (by simp only [List.length_cons] at length; omega) same
      refine ⟨bitmapPackArgb r g b a :: words,?_,.cons ?_ all⟩
      · rw [List.length_cons,mergeRgba,merged]
        rfl
      · rw [red,green,blue]
        exact colours_pack _ _ _ a (alphaOf desc pixel)
    | [],length,_ | [_],length,_ | [_,_],length,_ | [_,_,_],length,_ =>
      simp only [List.length_cons,List.length_nil] at length
      omega

end Channels

section Codecs

/-- Encoded pixels are decoded as they were, with the channel count they had; colours alone are decoded with four
channels, too. An encoded image has a byte at least, and a size that a decoder takes. -/
structure ImageCodec.Undoes (codec : ImageCodec) : Prop where
  size : ∀ pixels width height channels props encoded, codec.encode pixels width height channels props = .ok encoded →
    encoded ≠ [] ∧ encoded.length < 2 ^ 31
  back : ∀ pixels width height channels props encoded, codec.encode pixels width height channels props = .ok encoded →
    pixels.length = width.toInt.toNat * height.toInt.toNat * channels →
    codec.decode encoded channels = .ok ⟨width,height,pixels,channels⟩
  widened : ∀ pixels width height props encoded, codec.encode pixels width height 3 props = .ok encoded →
    pixels.length = width.toInt.toNat * height.toInt.toNat * 3 →
    ∃ rgba, codec.decode encoded 4 = .ok ⟨width,height,rgba,4⟩ ∧
      rgba.length = width.toInt.toNat * height.toInt.toNat * 4 ∧ bitmapCopyRgbaToRgb rgba = pixels

/-- The picture has the size of the source, and each of its words is what is wanted of the pixel in its place. -/
def Shows (desc : ImageDesc) (wanted : UInt32 → UInt32 → Prop) (result : Result (ImageDesc × Option (List UInt8))) : Prop :=
  ∃ words, result = .ok (argbImage desc.width desc.height words) ∧ Tiles desc.width.toInt.toNat desc.height.toInt.toNat
    (fun x y word => ∃ pixel, desc.pixelOf x y = .ok pixel ∧ wanted (desc.argbOf pixel) word) words

end Codecs

section Converted
variable {desc : ImageDesc} {rgba : List UInt8} {channels : Nat}

theorem bitmapCheckDesc_ok (ok : bitmapCheckDesc desc = .ok ()) :
    0 < desc.width.toInt ∧ 0 < desc.height.toInt ∧ dimensionsOverflow desc.width desc.height = false := by
  unfold bitmapCheckDesc at ok
  split at ok
  · cases ok
  · rename_i there
    split at ok
    · cases ok
    · rename_i apart
      rw [not_or,not_or] at there
      exact ⟨Int.not_le.mp there.1,Int.not_le.mp there.2.1,Bool.eq_false_iff.mpr apart⟩

/-- What the conversion gives, and of which descriptors. -/
theorem convert_ok (ok : bitmapConvertInterleaved desc channels = .ok rgba) : bitmapCheckDesc desc = .ok () ∧
    ∃ pixels, Tiles desc.width.toInt.toNat desc.height.toInt.toNat (fun x y pixel => desc.pixelOf x y = .ok pixel) pixels ∧
      rgba = pixels.flatMap (interleaved desc channels) := by
  obtain ⟨_,_,ok⟩ := bind_result ok
  obtain ⟨_,checked,ok⟩ := bind_result ok
  obtain ⟨_,_,ok⟩ := bind_result ok
  obtain ⟨_,_,ok⟩ := bind_result ok
  obtain ⟨pixels,read,ok⟩ := bind_result ok
  exact ⟨checked,pixels,cellsM_success read,(Except.ok.inj ok).symm⟩

end Converted

section Payloads
variable {desc : ImageDesc} {codec : ImageCodec} {props : Option BitmapProperties} {payload : List UInt8 × BitmapAlpha}

/-- What each pixel's alpha is taken from, when the decoder gives no alpha. -/
def BitmapAlpha.Gives : BitmapAlpha → List UInt8 → Prop
  | .encoded,_ => False
  | .constant value,alphas => alphas = List.replicate alphas.length value
  | .plane bytes,alphas => alphas = bytes ∧ bytes ≠ []

theorem constant_gives {alphas rgba : List UInt8} (some' : alphas ≠ [])
    (plane : bitmapExtractAlphaPlane rgba = alphas) : (match bitmapAlphaIsConstant rgba with
      | some value => BitmapAlpha.constant value
      | none => .plane (bitmapExtractAlphaPlane rgba)).Gives alphas := by
  unfold bitmapAlphaIsConstant
  rw [plane]
  cases alphas with
  | nil => exact absurd rfl some'
  | cons first rest =>
    dsimp only
    by_cases same : rest.all (· = first)
    · rw [if_pos same]
      refine congrArg (first :: ·) (List.eq_replicate_iff.mpr ⟨rfl,fun other member => ?_⟩)
      exact of_decide_eq_true (List.all_eq_true.mp same other member)
    · rw [if_neg same]
      exact ⟨rfl,nofun⟩

/-- The encoded colours, with alpha or next to it. -/
def PayloadHolds (codec : ImageCodec) (desc : ImageDesc) (pixels : List UInt32) (payload : List UInt8 × BitmapAlpha) : Prop :=
  payload.2 = .encoded ∧ codec.decode payload.1 4 = .ok ⟨desc.width,desc.height,pixels.flatMap (interleaved desc 4),4⟩ ∨
    payload.2.Gives (pixels.map (alphaOf desc)) ∧
      codec.decode payload.1 3 = .ok ⟨desc.width,desc.height,pixels.flatMap (interleaved desc 3),3⟩

theorem encodeBitmap_ok (undoes : codec.Undoes) (ok : encodeBitmap codec desc props = .ok payload) :
    bitmapCheckDesc desc = .ok () ∧ payload.1 ≠ [] ∧ payload.1.length < 2 ^ 31 ∧
      ∃ pixels, Tiles desc.width.toInt.toNat desc.height.toInt.toNat (fun x y pixel => desc.pixelOf x y = .ok pixel) pixels ∧
        PayloadHolds codec desc pixels payload := by
  obtain ⟨rgba,converted,ok⟩ := bind_result ok
  obtain ⟨checked,pixels,holds,rfl⟩ := convert_ok converted
  have length {channels : Nat} (known : channels = 3 ∨ channels = 4) : (pixels.flatMap (interleaved desc channels)).length =
      desc.width.toInt.toNat * desc.height.toInt.toNat * channels := by
    rw [length_interleaved known,holds.1]
  split at ok
  · obtain ⟨encoded,ran,ok⟩ := bind_result ok
    obtain rfl := Except.ok.inj ok
    obtain ⟨something,short⟩ := undoes.size _ _ _ _ _ _ ran
    exact ⟨checked,something,short,pixels,holds,.inl ⟨rfl,undoes.back _ _ _ _ _ _ ran (length (.inr rfl))⟩⟩
  · rw [copy_interleaved] at ok
    obtain ⟨encoded,ran,ok⟩ := bind_result ok
    obtain rfl := Except.ok.inj ok
    obtain ⟨something,short⟩ := undoes.size _ _ _ _ _ _ ran
    have some' : pixels.map (alphaOf desc) ≠ [] := by
      obtain ⟨width,height,_⟩ := bitmapCheckDesc_ok checked
      refine List.ne_nil_of_length_pos ?_
      rw [List.length_map,holds.1]
      exact Nat.mul_pos (by omega) (by omega)
    exact ⟨checked,something,short,pixels,holds,
      .inr ⟨constant_gives some' (alpha_interleaved pixels),undoes.back _ _ _ _ _ _ ran (length (.inl rfl))⟩⟩

end Payloads

section Written
variable {around : Surroundings} {desc : ImageDesc} {codec : ImageCodec} {payload : List UInt8 × BitmapAlpha}
variable {data spare : List UInt32} {alpha : BitmapAlpha}

def AlphaWords : BitmapAlpha → List UInt32 → Prop
  | .encoded,words => words = []
  | .constant value,words => words = [alphaConstant.toUInt32,value.toUInt32]
  | .plane bytes,words => ∃ plane, words = alphaPlaneKind.toUInt32 :: plane ∧ PlaneWords bytes plane

def BitmapAlpha.size : BitmapAlpha → Nat
  | .encoded => 0
  | .constant _ => 2
  | .plane bytes => 2 + (bytes.length + 3) / 4

theorem as_bitmapAlpha (alpha : BitmapAlpha) : WritesAs alpha.size (AlphaWords alpha) (writeBitmapAlpha around alpha) := by
  cases alpha with
  | encoded => exact as_pure
  | constant value => exact as_then (as_writeWords [_]) (as_writeWords [_])
  | plane bytes =>
    refine ((as_after (as_writeWords [alphaPlaneKind.toUInt32]) (as_plane rfl)).mono ?_).imp ?_
    · simp only [BitmapAlpha.size,List.length_singleton]
      omega
    · rintro _ ⟨plane,rfl,fits⟩
      exact ⟨plane,rfl,fits⟩

def EncodedWords (codec : ImageCodec) (desc : ImageDesc) (payload : List UInt8 × BitmapAlpha) (words : List UInt32) : Prop :=
  ∃ encoded alpha, words = [payload.2.store.toUInt32,bitmapTag codec,desc.width.toUInt32,desc.height.toUInt32] ++ (encoded ++ alpha) ∧
    PlaneWords payload.1 encoded ∧ AlphaWords payload.2 alpha

theorem as_encodedPayload (codec : ImageCodec) (desc : ImageDesc) (payload : List UInt8 × BitmapAlpha) :
    WritesAs (5 + (payload.1.length + 3) / 4 + payload.2.size) (EncodedWords codec desc payload)
      (writeEncodedPayload around codec desc payload) := by
  have plane : WritesAs _ (PlaneWords payload.1) (chunkWriteBuffer around (some payload.1) payload.1.length) := as_plane rfl
  have alphas : WritesAs payload.2.size (AlphaWords payload.2) (writeBitmapAlpha around payload.2) := as_bitmapAlpha payload.2
  have tail := as_bind plane alphas
  have word (value : UInt32) : WritesAs 1 (· = [value]) (writeWords around [value]) := as_writeWords [value]
  have all := as_after (word payload.2.store.toUInt32) (as_after (word (bitmapTag codec)) (as_after (word desc.width.toUInt32)
    (as_after (word desc.height.toUInt32) tail)))
  refine (all.mono (by omega)).imp ?_
  · rintro _ ⟨_,rfl,_,rfl,_,rfl,_,rfl,encoded,alpha,rfl,plane,alphas⟩
    exact ⟨encoded,alpha,rfl,plane,alphas⟩

theorem reads_lifted {α β : Type} {outcome : Result α} {found : α} {next : α → Run Nat β} {input : List UInt32} {value : β}
    (ok : outcome = .ok found) (tail : Reads data (next found) input value) : Reads data (Action.lift outcome >>= next) input value := by
  subst ok
  exact tail

theorem reads_bitmapAlpha {alphas : List UInt8} {words : List UInt32} (gives : alpha.Gives alphas) (stored : AlphaWords alpha words)
    (few : alphas.length + 3 < 2 ^ 32) : Reads data (readBitmapAlpha data spare alphas.length) words alphas := by
  cases alpha with
  | encoded => exact gives.elim
  | constant value =>
    obtain rfl := stored
    refine reads_cons (reads_int alphaConstant) ?_
    rw [if_pos rfl,show alphas = List.replicate alphas.length value from gives,List.length_replicate]
    exact reads_return (f := List.replicate alphas.length) (reads_chunkReadByte value)
  | plane bytes =>
    obtain ⟨plane,rfl,fits⟩ := stored
    obtain ⟨rfl,some'⟩ := gives
    have pointer : arrayPointer alphas = some alphas := by
      cases alphas with
      | nil => exact absurd rfl some'
      | cons first rest => rfl
    refine reads_cons (reads_int alphaPlaneKind) ?_
    rw [if_neg (by decide),if_pos rfl]
    have last : Reads data (pure ((arrayPointer alphas).getD []) : Run Nat (List UInt8)) [] alphas := by
      rw [pointer]
      exact reads_pure _
    have passed : ¬ ((arrayPointer alphas).isNone = true ∨ alphas.length ≠ alphas.length) := by
      rw [pointer]
      simp
    rw [← List.append_nil plane]
    refine reads_bind (reads_plane fits few) ?_
    exact reads_passed passed last

/-- The words of a bitmap are read as the pixels of its source. -/
theorem reads_encodedBitmap (spare : List UInt32) {stb : StbAdapter} {table : CodecTable} {pixels words : List UInt32}
    (checked : bitmapCheckDesc desc = .ok ()) (something : payload.1 ≠ []) (short : payload.1.length < 2 ^ 31)
    (length : pixels.length = desc.width.toInt.toNat * desc.height.toInt.toNat) (holds : PayloadHolds codec desc pixels payload)
    (finds : TagFinds stb table codec) (stored : EncodedWords codec desc payload words) :
    Reads data (chunkReadEncodedBitmap stb table data spare) words (argbImage desc.width desc.height (pixels.map desc.argbOf)) := by
  obtain ⟨encoded,alpha,rfl,plane,alphas⟩ := stored
  obtain ⟨width,height,apart⟩ := bitmapCheckDesc_ok checked
  have few := plane_small width height apart
  have pointer : arrayPointer payload.1 = some payload.1 := by
    cases bytes : payload.1 with
    | nil => exact absurd bytes something
    | cons first rest => rfl
  have stores : payload.2.store ≠ storeNone := by
    cases payload.2 with
    | encoded => exact show storeEncoded ≠ storeNone by decide
    | constant value => exact show storeEncodedWithAlpha ≠ storeNone by decide
    | plane bytes => exact show storeEncodedWithAlpha ≠ storeNone by decide
  refine reads_cons (reads_int payload.2.store) ?_
  rw [if_neg stores]
  refine reads_cons (reads_chunkReadDword _) (reads_cons (reads_int desc.width) (reads_cons (reads_int desc.height) ?_))
  refine reads_passed (by omega) ?_
  change Reads data _ (encoded ++ alpha) _
  refine reads_bind (reads_plane plane (by omega)) ?_
  dsimp only
  rw [pointer]
  refine reads_passed ?_ ?_
  · rw [not_or]
    exact ⟨nofun,(List.length_pos_of_ne_nil something).ne'⟩
  rw [show imageCodecFindByExtension stb table (bitmapTagToString (bitmapTag codec)) = some codec from finds]
  dsimp only [Option.getD_some]
  rcases holds with ⟨inside,decoded⟩ | ⟨gives,decoded⟩
  · rw [inside] at alphas
    obtain rfl : alpha = [] := alphas
    rw [inside]
    refine reads_lifted decoded (reads_passed (by simp) ?_)
    dsimp only
    rw [if_neg (by decide),if_pos rfl,← length]
    exact reads_lifted (mergeRgba_interleaved pixels) (reads_pure _)
  · have outside : payload.2.store = storeEncodedWithAlpha := by
      cases given : payload.2 with
      | encoded =>
        rw [given] at gives
        exact gives.elim
      | constant value => rfl
      | plane bytes => rfl
    rw [outside,if_neg (by decide)]
    refine reads_lifted decoded (reads_passed (by simp) ?_)
    dsimp only
    have count : (pixels.map (alphaOf desc)).length = desc.width.toInt.toNat * desc.height.toInt.toNat :=
      (List.length_map _).trans length
    have merged : Reads data (Action.lift (mergeRgb (pixels.map (alphaOf desc)) (pixels.flatMap (interleaved desc 3)))) []
        (pixels.map desc.argbOf) := by
      rw [mergeRgb_interleaved]
      exact reads_pure _
    rw [if_pos rfl,← count,← List.append_nil alpha]
    refine reads_return (f := argbImage desc.width desc.height) ?_
    refine reads_bind (reads_bitmapAlpha gives alphas (by omega)) ?_
    exact merged

end Written

section Kept
variable {around : Surroundings} {stb : StbAdapter} {table : CodecTable} {desc : ImageDesc} {codec : ImageCodec}
variable {props : Option BitmapProperties} {c c' : Chunk}

theorem shows_pixels {pixels words : List UInt32} {wanted : UInt32 → UInt32 → Prop}
    (holds : Tiles desc.width.toInt.toNat desc.height.toInt.toNat (fun x y pixel => desc.pixelOf x y = .ok pixel) pixels)
    (all : List.Forall₂ (fun pixel word => wanted (desc.argbOf pixel) word) pixels words) :
    Shows desc wanted (.ok (argbImage desc.width desc.height words)) :=
  ⟨words,rfl,holds.along all fun _ _ pixel _ here fits => ⟨pixel,here,fits⟩⟩

theorem encodedBitmap_shown (chosen : imageCodecGet stb table ((props.map BitmapProperties.format).getD formatPng) = some codec)
    (undoes : codec.Undoes) (finds : TagFinds stb table codec) (filling : Filling c)
    (written : (chunkWriteEncodedBitmap around stb table desc props).run c = (.ok (),c')) (rest spare : List UInt32) :
    Shows desc (fun argb word => word = argb) ((chunkReadEncodedBitmap stb table (c'.words ++ rest) spare).run c.dataSize).1 := by
  have encodes : (props.map BitmapProperties.format).getD formatPng ≠ formatRaw := by
    intro raw
    rw [raw,imageCodecGet,if_pos (.inl rfl)] at chosen
    cases chosen
  unfold chunkWriteEncodedBitmap at written
  split at written
  · cases (Prod.mk.inj written).1
  · dsimp only at written
    rw [if_neg encodes,chosen] at written
    obtain ⟨payload,_,encoded,written⟩ := Action.bind_success written
    rw [Action.lift_apply] at encoded
    obtain ⟨ok,rfl⟩ := Prod.mk.inj encoded
    obtain ⟨checked,something,short,pixels,holds,fits⟩ := encodeBitmap_ok undoes ok
    obtain ⟨words,fills,stored⟩ := (as_encodedPayload codec desc payload).leaves _ _ filling written
    obtain ⟨next,read,_⟩ := reads_encodedBitmap spare checked something short holds.1 fits finds stored _ _ (fills.ahead rest)
    rw [read]
    refine shows_pixels holds ?_
    rw [List.forall₂_map_right_iff]
    exact List.forall₂_same.mpr fun _ _ => rfl

end Kept

section LegacyPayload
variable {bytes : List UInt8}

/-- Bytes with zeros up to a whole word. -/
theorem packs_padded (bytes : List UInt8) :
    Packs (decodeWords (bytes ++ List.replicate ((bytes.length + 3) / 4 * 4 - bytes.length) 0)) bytes := by
  have length : (bytes ++ List.replicate ((bytes.length + 3) / 4 * 4 - bytes.length) (0 : UInt8)).length =
      (bytes.length + 3) / 4 * 4 := by
    rw [List.length_append,List.length_replicate]
    omega
  constructor
  · rw [length_decodeWords,length,Nat.mul_div_cancel _ (by decide)]
  · rw [encodeWords_decodeWords _ (by rw [length]; exact Nat.mul_mod_left _ _)]
    exact List.take_left' rfl

theorem reads_mapBytes {data spare words : List UInt32} (packs : Packs words bytes) (something : bytes ≠ []) :
    Reads data (chunkBitmapMapBytes data spare bytes.length) words (some bytes) := by
  rw [chunkBitmapMapBytes,if_neg (List.length_pos_of_ne_nil something).ne',← packs.1]
  exact reads_requireWords (Nat.le_refl _) (reads_return (reads_copyOut packs))

end LegacyPayload

section LegacyKept
variable {around : Surroundings} {stb : StbAdapter} {table : CodecTable} {desc : ImageDesc} {codec : ImageCodec}
variable {props : Option BitmapProperties} {c c' : Chunk} {extension : List UInt8}

/-- What the reader makes of the decoded pixels, when they are the colours of the source, with alpha if the codec has it. -/
def LegacyDecoded (codec : ImageCodec) (desc : ImageDesc) (pixels : List UInt32) (encoded : List UInt8) : Prop :=
  ∃ rgba words, codec.decode encoded 4 = .ok ⟨desc.width,desc.height,rgba,4⟩ ∧ mergeRgba pixels.length rgba = .ok words ∧
    List.Forall₂ (fun pixel word => colours word = colours (desc.argbOf pixel) ∧
      (codec.supportsAlpha = true → word = desc.argbOf pixel)) pixels words

theorem encodeLegacy_ok {payload : List UInt8 × List UInt8} (chosen : bitmapResolveCodec stb table props = some (codec,some extension))
    (undoes : codec.Undoes) (ok : encodeLegacy stb table desc props = .ok payload) : bitmapCheckDesc desc = .ok () ∧
      payload.1 = extension ∧ payload.2 ≠ [] ∧ payload.2.length + 5 < 2 ^ 31 ∧ ∃ pixels, LegacyDecoded codec desc pixels payload.2 ∧
        Tiles desc.width.toInt.toNat desc.height.toInt.toNat (fun x y pixel => desc.pixelOf x y = .ok pixel) pixels := by
  obtain ⟨_,checked,ok⟩ := bind_result ok
  rw [chosen] at ok
  obtain ⟨rgba,converted,ok⟩ := bind_result ok
  obtain ⟨_,pixels,holds,rfl⟩ := convert_ok converted
  obtain ⟨encoded,ran,ok⟩ := bind_result ok
  obtain ⟨_,small,ok⟩ := bind_result ok
  obtain rfl := Except.ok.inj ok
  have fits : encoded.length + 5 < 2 ^ 31 := by
    split at small
    · cases small
    · omega
  have length {channels : Nat} (known : channels = 3 ∨ channels = 4) : (pixels.flatMap (interleaved desc channels)).length =
      desc.width.toInt.toNat * desc.height.toInt.toNat * channels := by
    rw [length_interleaved known,holds.1]
  have something := (undoes.size _ _ _ _ _ _ ran).1
  refine ⟨checked,rfl,something,fits,pixels,?_,holds⟩
  cases alpha : codec.supportsAlpha with
  | true =>
    rw [alpha] at ran
    refine ⟨_,_,undoes.back _ _ _ _ _ _ ran (length (.inr rfl)),mergeRgba_interleaved pixels,?_⟩
    rw [List.forall₂_map_right_iff]
    exact List.forall₂_same.mpr fun _ _ => ⟨rfl,fun _ => rfl⟩
  | false =>
    rw [alpha,if_neg Bool.false_ne_true,if_neg Bool.false_ne_true,copy_interleaved] at ran
    obtain ⟨wide,decoded,size,same⟩ := undoes.widened _ _ _ _ _ ran (length (.inl rfl))
    rw [← holds.1] at size
    obtain ⟨words,merged,all⟩ := mergeRgba_widened size same
    have none : codec.supportsAlpha ≠ true := by
      rw [alpha]
      exact Bool.false_ne_true
    exact ⟨wide,words,decoded,merged,all.imp fun _ _ colour => ⟨colour,fun given => absurd given none⟩⟩

theorem ok_bind {α β : Type} (value : α) (next : α → Result β) : ((.ok value : Result α) >>= next) = next value := rfl

theorem decodeLegacy_kept {signature encoded : List UInt8} {pixels : List UInt32} (built : bitmapBuildSignature extension = .ok signature)
    (letters : bitmapExtensionFromSignature signature ≠ [])
    (found : imageCodecFindByExtension stb table (bitmapExtensionFromSignature signature) = some codec)
    (checked : bitmapCheckDesc desc = .ok ()) (something : encoded ≠ []) (decoded : LegacyDecoded codec desc pixels encoded)
    (holds : Tiles desc.width.toInt.toNat desc.height.toInt.toNat (fun x y pixel => desc.pixelOf x y = .ok pixel) pixels) :
    Shows desc (fun argb word => colours word = colours argb ∧ (codec.supportsAlpha = true → word = argb))
      (decodeLegacy stb table (signature ++ encoded)) := by
  obtain ⟨rgba,words,decoded,merged,all⟩ := decoded
  obtain ⟨width,height,_⟩ := bitmapCheckDesc_ok checked
  unfold bitmapBuildSignature at built
  split at built
  · cases built
  · rename_i three
    obtain ⟨first,second,third,rfl⟩ : ∃ a b d, [67,75,a,b,d] = signature := by
      match extension,three,built with
      | a :: b :: d :: more,_,built => exact ⟨_,_,_,Except.ok.inj built⟩
      | [],three,_ => exact absurd (show 0 < 3 by decide) three
      | [_],three,_ => exact absurd (show 1 < 3 by decide) three
      | [_,_],three,_ => exact absurd (show 2 < 3 by decide) three
    have text : bitmapExtensionFromSignature (([67,75,first,second,third] ++ encoded).take 5) =
        bitmapExtensionFromSignature [67,75,first,second,third] := rfl
    have behind : ([67,75,first,second,third] ++ encoded).drop 5 = encoded := rfl
    have whole : decodeLegacy stb table ([67,75,first,second,third] ++ encoded) =
        .ok (argbImage desc.width desc.height words) := by
      have start : ¬ (([67,75,first,second,third] ++ encoded).getD 0 0 ≠ 67 ∨ ([67,75,first,second,third] ++ encoded).getD 1 0 ≠ 75) :=
        show ¬ ((67 : UInt8) ≠ 67 ∨ (75 : UInt8) ≠ 75) by decide
      have joined : mergeDecoded ⟨desc.width,desc.height,rgba,4⟩ = .ok words := by
        rw [mergeDecoded,if_pos (Nat.le_refl 4),← holds.1]
        exact merged
      have sized : ¬ ((⟨desc.width,desc.height,rgba,4⟩ : DecodedImage).width.toInt ≤ 0 ∨
          (⟨desc.width,desc.height,rgba,4⟩ : DecodedImage).height.toInt ≤ 0) := by
        dsimp only
        omega
      simp only [decodeLegacy,text,behind,if_neg start,if_neg letters,found,if_neg something,decoded,ok_bind,if_neg sized,joined]
    rw [whole]
    exact shows_pixels holds all

theorem length_signature {signature : List UInt8} (built : bitmapBuildSignature extension = .ok signature) : signature.length = 5 := by
  unfold bitmapBuildSignature at built
  split at built
  · cases built
  · rename_i three
    rw [← Except.ok.inj built,List.length_append,List.length_map,List.length_take]
    simp only [List.length_cons,List.length_nil]
    omega

/-- The size twice, then the signature and the encoded bytes. -/
theorem writeLegacy_success {signature encoded : List UInt8} {totalSize : Int32} (five : signature.length = 5) (filling : Filling c)
    (ok : (do
      chunkWriteInt around totalSize
      chunkWriteInt around totalSize
      bitmapWriteLegacyPayload around signature encoded : Run Chunk Unit).run c = (.ok (),c')) :
    ∃ words, Fills c c' ([totalSize.toUInt32] ++ ([totalSize.toUInt32] ++ words)) ∧ Packs words (signature ++ encoded) := by
  obtain ⟨_,c₁,first,ok⟩ := Action.bind_success ok
  obtain ⟨_,c₂,second,ok⟩ := Action.bind_success ok
  obtain ⟨_,c₃,room,ok⟩ := Action.bind_success ok
  have one := writeWords_success filling first
  have two := writeWords_success one.filling second
  have checks := checkSize_success two.filling room
  have stored := storeWords_success checks.filling ok
  have packs := packs_padded (signature ++ encoded)
  rw [List.length_append,five,Nat.add_comm 5] at packs
  exact ⟨_,one.trans (two.trans (checks.trans stored)),packs⟩

theorem reads_legacyBitmap (spare : List UInt32) {data words : List UInt32} {payload : List UInt8} {found : ImageDesc × Option (List UInt8)}
    (packs : Packs words payload) (enough : 5 ≤ payload.length) (small : payload.length < 2 ^ 31)
    (decoded : decodeLegacy stb table payload = .ok found) : Reads data (chunkReadBitmapLegacy stb table data spare)
      ([(Int32.ofInt payload.length).toUInt32] ++ ([(Int32.ofInt payload.length).toUInt32] ++ words)) found := by
  have size : (Int32.ofInt payload.length).toInt = payload.length := Int32.toInt_ofInt_of_le (by omega) (by omega)
  refine reads_cons (reads_int (Int32.ofInt payload.length)) ?_
  refine reads_cons (reads_int (Int32.ofInt payload.length)) (reads_passed (not_not.mpr rfl) ?_)
  rw [if_neg (by rw [size]; omega)]
  refine reads_passed (by rw [size]; omega) ?_
  change Reads data _ words _
  rw [size,Int.toNat_natCast,← List.append_nil words]
  refine reads_bind (reads_mapBytes packs (List.ne_nil_of_length_pos (by omega))) ?_
  dsimp only
  rw [decoded]
  exact reads_pure _

theorem legacyBitmap_shown (chosen : bitmapResolveCodec stb table props = some (codec,some extension)) (undoes : codec.Undoes)
    (finds : SignatureFinds stb table extension codec) (filling : Filling c)
    (written : (chunkWriteBitmapLegacy around stb table desc props).run c = (.ok (),c')) (rest spare : List UInt32) :
    Shows desc (fun argb word => colours word = colours argb ∧ (codec.supportsAlpha = true → word = argb))
      ((chunkReadBitmapLegacy stb table (c'.words ++ rest) spare).run c.dataSize).1 := by
  obtain ⟨signature,built,letters,found⟩ := finds
  unfold chunkWriteBitmapLegacy at written
  split at written
  · cases (Prod.mk.inj written).1
  · obtain ⟨payload,_,encoded,written⟩ := Action.bind_success written
    rw [Action.lift_apply] at encoded
    obtain ⟨ok,rfl⟩ := Prod.mk.inj encoded
    obtain ⟨checked,same,something,small,pixels,decoded,holds⟩ := encodeLegacy_ok chosen undoes ok
    dsimp only at written
    rw [same,built] at written
    have five := length_signature built
    have total : (signature ++ payload.2).length = payload.2.length + 5 := by
      rw [List.length_append,five,Nat.add_comm]
    obtain ⟨words,fills,packs⟩ := writeLegacy_success five filling written
    have shown := decodeLegacy_kept built letters found checked something decoded holds
    obtain ⟨argb,given,cells⟩ := shown
    have size : ((signature ++ payload.2).length : Int) = payload.2.length + 5 := by exact_mod_cast total
    rw [← size] at fills
    obtain ⟨next,read,_⟩ := reads_legacyBitmap spare packs (by omega) (by omega) given _ _ (fills.ahead rest)
    rw [read]
    exact ⟨argb,rfl,cells⟩

end LegacyKept

section Whole

/-- Encoded bitmaps show the source with its alpha, legacy ones its colours, and its alpha if the codec has it, when the codec
that was chosen undoes its encoding and is found again by its tag or its signature, as each codec of the defaults is. -/
theorem bitmaps_shown (around : Surroundings) (stb : StbAdapter) (table : CodecTable) (desc : ImageDesc)
    (props : Option BitmapProperties) {c : Chunk} (filling : Filling c) (rest spare : List UInt32) :
    (∀ codec c', imageCodecGet stb table ((props.map BitmapProperties.format).getD formatPng) = some codec → codec.Undoes →
      TagFinds stb table codec → (chunkWriteEncodedBitmap around stb table desc props).run c = (.ok (),c') →
      Shows desc (fun argb word => word = argb) ((chunkReadEncodedBitmap stb table (c'.words ++ rest) spare).run c.dataSize).1) ∧
    (∀ codec extension c', bitmapResolveCodec stb table props = some (codec,some extension) → codec.Undoes →
      SignatureFinds stb table extension codec → (chunkWriteBitmapLegacy around stb table desc props).run c = (.ok (),c') →
      Shows desc (fun argb word => colours word = colours argb ∧ (codec.supportsAlpha = true → word = argb))
        ((chunkReadBitmapLegacy stb table (c'.words ++ rest) spare).run c.dataSize).1) ∧
    (∀ codec format, imageCodecGet stb {} format = some codec → TagFinds stb {} codec) ∧
    ∀ codec extension, bitmapResolveCodec stb {} props = some (codec,extension) →
      ∃ text, extension = some text ∧ SignatureFinds stb {} text codec :=
  ⟨fun _ _ chosen undoes finds written => encodedBitmap_shown chosen undoes finds filling written rest spare,
    fun _ _ _ chosen undoes finds written => legacyBitmap_shown chosen undoes finds filling written rest spare,
    fun _ _ got => tags_builtin got,fun _ _ chosen => signatures_builtin chosen⟩

end Whole

section Samples

/-- An alpha of 255 for each pixel. -/
def widen : List UInt8 → List UInt8
  | r :: g :: b :: rest => r :: g :: b :: 0xFF :: widen rest
  | _ => []

/-- An image file of three words and the pixels. -/
def plainStb : StbAdapter where
  writeToMemory _ width height channels pixels _ :=
    if pixels.length + 12 < 2 ^ 31 then some (encodeWords [width.toUInt32,height.toUInt32,UInt32.ofNat channels] ++ pixels) else none
  loadFromMemory encoded desired :=
    match decodeWords (encoded.take 12) with
    | [width,height,channels] => some (width.toInt32,height.toInt32,channels.toNat,
        if channels.toNat = desired then encoded.drop 12 else widen (encoded.drop 12))
    | _ => none

theorem widen_back {count : Nat} {pixels : List UInt8} (length : pixels.length = count * 3) :
    (widen pixels).length = count * 4 ∧ bitmapCopyRgbaToRgb (widen pixels) = pixels := by
  induction count generalizing pixels with
  | zero =>
    obtain rfl := List.length_eq_zero_iff.mp (length.trans (Nat.zero_mul 3))
    exact ⟨rfl,rfl⟩
  | succ count ih =>
    match pixels,length with
    | r :: g :: b :: rest,length =>
      obtain ⟨size,same⟩ := @ih rest (by simp only [List.length_cons] at length; omega)
      constructor
      · simp only [widen,List.length_cons,size]
        omega
      · simp only [widen,bitmapCopyRgbaToRgb,same]
    | [],length | [_],length | [_,_],length =>
      simp only [List.length_cons,List.length_nil] at length
      omega

theorem plain_encoded {format : BitmapFormat} {width height : Int32} {channels : Nat} {pixels encoded : List UInt8}
    {props : Option BitmapProperties} (ok : imageCodecEncodeStb plainStb format pixels width height channels props = .ok encoded) :
    channels ≠ 0 ∧ channels ≤ 4 ∧ pixels.length + 12 < 2 ^ 31 ∧
      encoded = encodeWords [width.toUInt32,height.toUInt32,UInt32.ofNat channels] ++ pixels := by
  unfold imageCodecEncodeStb at ok
  split at ok
  · cases ok
  · rename_i known
    simp only [plainStb] at ok
    by_cases small : pixels.length + 12 < 2 ^ 31
    · rw [if_pos small] at ok
      exact ⟨by omega,by omega,small,(Except.ok.inj ok).symm⟩
    · rw [if_neg small] at ok
      cases ok

theorem plain_decoded {width height : Int32} {channels desired : Nat} {pixels : List UInt8} (some' : desired ≠ 0)
    (few : channels ≤ 4) (small : pixels.length + 12 < 2 ^ 31) :
    imageCodecDecodeStb plainStb (encodeWords [width.toUInt32,height.toUInt32,UInt32.ofNat channels] ++ pixels) desired =
      .ok ⟨width,height,if channels = desired then pixels else widen pixels,desired⟩ := by
  have length : (encodeWords [width.toUInt32,height.toUInt32,UInt32.ofNat channels]).length = 12 := length_encodeWords _
  have count : (UInt32.ofNat channels).toNat = channels := UInt32.toNat_ofNat_of_lt' (by simp only [UInt32.size]; omega)
  rw [imageCodecDecodeStb,if_neg (List.ne_nil_of_length_pos (by rw [List.length_append]; omega)),
    if_neg (by rw [List.length_append]; omega)]
  simp only [plainStb,List.take_left' length,List.drop_left' length,decodeWords_encodeWords,count,if_pos some',Int32.toInt32_toUInt32]

theorem plain_undoes (format : BitmapFormat) (name : List UInt8) (extensions : List (Option (List UInt8))) (supportsAlpha : Bool) :
    (builtinCodec plainStb format name extensions supportsAlpha).Undoes := by
  refine ⟨fun pixels width height channels props encoded ok => ?_,fun pixels width height channels props encoded ok length => ?_,
    fun pixels width height props encoded ok length => ?_⟩
  · obtain ⟨_,_,small,rfl⟩ := plain_encoded ok
    have size : (encodeWords [width.toUInt32,height.toUInt32,UInt32.ofNat channels] ++ pixels).length = 12 + pixels.length :=
      List.length_append
    exact ⟨List.ne_nil_of_length_pos (by omega),by omega⟩
  · obtain ⟨some',few,small,rfl⟩ := plain_encoded ok
    refine (plain_decoded some' few small).trans ?_
    rw [if_pos rfl]
  · obtain ⟨_,few,small,rfl⟩ := plain_encoded ok
    obtain ⟨size,same⟩ := widen_back length
    exact ⟨widen pixels,(plain_decoded (by decide) few small).trans (by rw [if_neg (by decide)]),size,same⟩

/-- Two pixels in the standard places, with an alpha of 4 and of 8. -/
def argbSample : ImageDesc :=
  { imageDescInitArgb32 2 1 with imageData := some [1,2,3,4,5,6,7,8] }

/-- As a BMP the alpha needs a plane of its own. -/
def bmpProperties : BitmapProperties := { format := formatBmp }

theorem argbSample_shown : ∃ c c₁ c₂, (chunkStartWrite {}).run chunkCreate = (.ok (),c) ∧
    (chunkWriteEncodedBitmap {} plainStb {} argbSample (some bmpProperties)).run c = (.ok (),c₁) ∧
    (chunkWriteBitmapLegacy {} plainStb {} argbSample (some bmpProperties)).run c = (.ok (),c₂) ∧
    Shows argbSample (fun argb word => word = argb) ((chunkReadEncodedBitmap plainStb {} (c₁.words ++ []) []).run c.dataSize).1 ∧
    Shows argbSample (fun argb word => colours word = colours argb ∧ ((bmpCodec plainStb).supportsAlpha = true → word = argb))
      ((chunkReadBitmapLegacy plainStb {} (c₂.words ++ []) []).run c.dataSize).1 := by
  obtain ⟨c,c₁,c₂,started,encoded,legacy⟩ : ∃ c c₁ c₂, (chunkStartWrite {}).run chunkCreate = (.ok (),c) ∧
      (chunkWriteEncodedBitmap {} plainStb {} argbSample (some bmpProperties)).run c = (.ok (),c₁) ∧
      (chunkWriteBitmapLegacy {} plainStb {} argbSample (some bmpProperties)).run c = (.ok (),c₂) :=
    ⟨_,_,_,rfl,Prod.ext (by decide +kernel) rfl,Prod.ext (by decide +kernel) rfl⟩
  obtain ⟨encodes,legacies,tags,signatures⟩ :=
    bitmaps_shown {} plainStb {} argbSample (some bmpProperties) (startWrite_success started).1 [] []
  have got : imageCodecGet plainStb {} formatBmp = some (bmpCodec plainStb) := rfl
  have chosen : bitmapResolveCodec plainStb {} (some bmpProperties) = some (bmpCodec plainStb,some [98,109,112,0]) := rfl
  have undoes : (bmpCodec plainStb).Undoes := plain_undoes _ _ _ _
  obtain ⟨text,same,finds⟩ := signatures _ _ chosen
  obtain rfl := Option.some.inj same
  exact ⟨c,c₁,c₂,started,encoded,legacy,encodes _ _ got undoes (tags _ _ got) encoded,legacies _ _ _ chosen undoes finds legacy⟩

/-- A codec whose only extension has four letters. -/
def rgbeCodec : ImageCodec := builtinCodec plainStb 5 [72,68,82] [some [82,71,66,69],none,none,none] true

def rgbeProperties : BitmapProperties := { format := 5 }

def stopped {α : Type} (result : Result α) : Bool :=
  match result with
  | .ok _ => false
  | .error _ => true

theorem stopped_shows {desc : ImageDesc} {wanted : UInt32 → UInt32 → Prop} {result : Result (ImageDesc × Option (List UInt8))}
    (failed : stopped result = true) : ¬ Shows desc wanted result := by
  rintro ⟨words,rfl,_⟩
  cases failed

/-- A raw bitmap is no encoded one, and four letters do not come back from a tag or a signature. -/
theorem argbSample_lost : (∃ c c', (chunkStartWrite {}).run chunkCreate = (.ok (),c) ∧
      (chunkWriteEncodedBitmap {} plainStb {} argbSample (some { format := formatRaw })).run c = (.ok (),c') ∧
      ¬ Shows argbSample (fun argb word => word = argb) ((chunkReadEncodedBitmap plainStb {} c'.words c'.spare).run c.dataSize).1) ∧
    rgbeCodec.Undoes ∧ ∃ table, imageCodecRegister rgbeCodec {} = .ok table ∧ ∃ c c₁ c₂,
      (chunkStartWrite {}).run chunkCreate = (.ok (),c) ∧
      (chunkWriteEncodedBitmap {} plainStb table argbSample (some rgbeProperties)).run c = (.ok (),c₁) ∧
      (chunkWriteBitmapLegacy {} plainStb table argbSample (some rgbeProperties)).run c = (.ok (),c₂) ∧
      ¬ Shows argbSample (fun argb word => word = argb) ((chunkReadEncodedBitmap plainStb table c₁.words c₁.spare).run c.dataSize).1 ∧
      ¬ Shows argbSample (fun argb word => colours word = colours argb)
        ((chunkReadBitmapLegacy plainStb table c₂.words c₂.spare).run c.dataSize).1 := by
  refine ⟨⟨_,_,rfl,Prod.ext (by decide +kernel) rfl,stopped_shows (by decide +kernel)⟩,plain_undoes _ _ _ _,_,rfl,_,_,_,rfl,
    Prod.ext (by decide +kernel) rfl,Prod.ext (by decide +kernel) rfl,stopped_shows (by decide +kernel),
    stopped_shows (by decide +kernel)⟩

end Samples

end Libnmo.Format
