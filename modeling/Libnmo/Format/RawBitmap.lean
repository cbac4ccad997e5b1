import Libnmo.Format.ChunkShapes
import Libnmo.Format.Images
import Libnmo.Lib.Grid

/-! Raw bitmaps: a header, and a plane of bytes for each channel with the rows from the
last one up. What is read has the channels of the source in the standard places, unless its
rows are too long for the 32 bits of a stride. -/
namespace Libnmo.Format
open Core Lib Lib.LittleEndian Lib.Cursor Lib.Grid

section Writer

def writeEmptyBitmapMarker (around : Surroundings) : Run Chunk Unit := chunkWriteInt around 0

/-- The checks of a descriptor that is not empty, in front of the first write. -/
def rawBitmapCheck (desc : ImageDesc) : Result Unit :=
  let bytesPerPixel := desc.bitsPerPixel.toInt / 8
  let planeSize := desc.width.toInt * desc.height.toInt
  if desc.bitsPerPixel.toInt % 8 ≠ 0 ∨ desc.bitsPerPixel.toInt > 32 then
    .error (.error .notSupported "Only up to 32bpp raw bitmaps are supported")
  else if bytesPerPixel ≤ 0 ∨ bytesPerPixel > 4 then .error (.error .notSupported "Unsupported bytes-per-pixel value")
  else if dimensionsOverflow desc.width desc.height then .error (.error .invalidArgument "Bitmap dimensions overflow")
  else if planeSize = 0 ∨ planeSize > 2 ^ 32 - 1 then .error (.error .invalidArgument "Invalid bitmap plane size")
  else if desc.rowStride.toInt ≤ 0 then .error (.error .invalidArgument "Invalid bitmap row stride")
  else if desc.rowStride.toInt < desc.width.toInt * bytesPerPixel then
    .error (.error .invalidArgument "Row stride smaller than image width")
  else .ok ()

def rawBitmapHeader (desc : ImageDesc) : List UInt32 :=
  [desc.bitsPerPixel.toUInt32,desc.width.toUInt32,desc.height.toUInt32,desc.alphaMask,desc.redMask,desc.greenMask,desc.blueMask,0]

/-- The pixels in the order of the planes, which begins with the last row. -/
def rawPixels (desc : ImageDesc) (data : List UInt8) : Result (List UInt32) :=
  let height := desc.height.toInt.toNat
  let stride := desc.rowStride.toInt.toNat
  let bytesPerPixel := desc.bitsPerPixel.toInt.toNat / 8
  cellsM desc.width.toInt.toNat height fun x y => pixelAt data ((height - 1 - y) * stride + x * bytesPerPixel) bytesPerPixel

def writeRawPlanes (around : Surroundings) (desc : ImageDesc) (pixels : List UInt32) : Run Chunk Unit := do
  let planeSize := desc.width.toInt.toNat * desc.height.toInt.toNat
  chunkWriteBuffer around (some (pixels.map fun pixel => imageExtractChannel pixel desc.redMask desc.shifts 0)) planeSize
  chunkWriteBuffer around (some (pixels.map fun pixel => imageExtractChannel pixel desc.greenMask desc.shifts 1)) planeSize
  chunkWriteBuffer around (some (pixels.map fun pixel => imageExtractChannel pixel desc.blueMask desc.shifts 2)) planeSize
  (if desc.alphaMask ≠ 0 then
    chunkWriteBuffer around (some (pixels.map fun pixel => imageExtractChannel pixel desc.alphaMask desc.shifts 3)) planeSize
  else chunkWriteBuffer around none 0)

def chunkWriteRawBitmap (around : Surroundings) (desc : ImageDesc) : Run Chunk Unit :=
  match desc.imageData with
  | none => writeEmptyBitmapMarker around
  | some data =>
    if desc.width.toInt ≤ 0 ∨ desc.height.toInt ≤ 0 ∨ desc.bitsPerPixel.toInt ≤ 0 then writeEmptyBitmapMarker around
    else do
      Action.lift (rawBitmapCheck desc)
      chunkWriteInt around desc.bitsPerPixel
      chunkWriteInt around desc.width
      chunkWriteInt around desc.height
      chunkWriteDword around desc.alphaMask
      chunkWriteDword around desc.redMask
      chunkWriteDword around desc.greenMask
      chunkWriteDword around desc.blueMask
      chunkWriteDword around 0
      let pixels ← Action.lift (rawPixels desc data)
      writeRawPlanes around desc pixels

end Writer

section Reader

/-- A plane as it was read: its bytes, and its size. -/
abbrev Plane := Option (List UInt8) × Nat

structure RawPlanes where
  width : Int32
  height : Int32
  red : Plane
  green : Plane
  blue : Plane
  alpha : Plane

/-- The header and the planes. There are none behind the marker of an empty bitmap. -/
def readRawPlanes (data spare : List UInt32) : Run Nat (Option RawPlanes) := do
  let originalBpp ← chunkReadInt data
  if originalBpp = 0 then pure none
  else do
    let width ← chunkReadInt data
    let height ← chunkReadInt data
    let _alphaMask ← chunkReadDword data
    let _redMask ← chunkReadDword data
    let _greenMask ← chunkReadDword data
    let _blueMask ← chunkReadDword data
    let compression ← chunkReadDword data
    (if compression ≠ 0 then fail .notSupported "Compressed raw bitmaps are not supported" else pure ())
    (if width.toInt ≤ 0 ∨ height.toInt ≤ 0 then fail .invalidArgument "Invalid bitmap dimensions" else pure ())
    (if dimensionsOverflow width height then fail .invalidArgument "Bitmap dimensions overflow" else pure ())
    (if width.toInt * height.toInt = 0 ∨ width.toInt * height.toInt > 2 ^ 32 - 1 then
      fail .invalidArgument "Invalid plane size while reading" else pure ())
    let red ← chunkReadBuffer data spare
    let green ← chunkReadBuffer data spare
    let blue ← chunkReadBuffer data spare
    let alpha ← chunkReadBuffer data spare
    pure (some ⟨width,height,red,green,blue,alpha⟩)

/-- The sizes of the planes were checked, so that every index is inside. -/
def Plane.entry (plane : Plane) (index : Nat) : UInt8 := (plane.1.getD []).getD index 0

def mergedPixel (planes : RawPlanes) (index : Nat) : UInt32 :=
  let planeSize := planes.width.toInt.toNat * planes.height.toInt.toNat
  bitmapPackArgb (planes.red.entry index) (planes.green.entry index) (planes.blue.entry index)
    (if planes.alpha.2 = planeSize ∧ planes.alpha.1.isSome then planes.alpha.entry index else 0xFF)

/-- The rows of the planes from the last one up. Rows of whole words leave no gaps. -/
def mergedPixels (planes : RawPlanes) : List UInt8 :=
  let width := planes.width.toInt.toNat
  let height := planes.height.toInt.toNat
  encodeWords (cells width height fun x y => mergedPixel planes ((height - 1 - y) * width + x))

def mergedImage (planes : RawPlanes) : ImageDesc :=
  { imageDescInitArgb32 planes.width planes.height with
    bytesPerLine := imageCalcBytesPerLine planes.width 32, imageData := some (mergedPixels planes) }

def mergePlanes (planes : RawPlanes) : Result (ImageDesc × Option (List UInt8)) :=
  let planeSize := planes.width.toInt.toNat * planes.height.toInt.toNat
  if planes.red.2 ≠ planeSize ∨ planes.green.2 ≠ planeSize ∨ planes.blue.2 ≠ planeSize then
    .error (.error .corrupt "Bitmap plane size mismatch")
  else if (imageCalcBytesPerLine planes.width 32).toInt ≤ 0 then .error (.error .invalidArgument "Invalid output row stride")
  else .ok (mergedImage planes,some (mergedPixels planes))

def chunkReadRawBitmap (data spare : List UInt32) : Run Nat (ImageDesc × Option (List UInt8)) := do
  let planes ← readRawPlanes data spare
  match planes with
  | none => pure ({},none)
  | some planes => Action.lift (mergePlanes planes)

end Reader

section Planes
variable {around : Surroundings} {bytes : List UInt8}

/-- A plane in the words of a chunk. -/
def PlaneWords (bytes : List UInt8) (words : List UInt32) : Prop :=
  ∃ packed, words = UInt32.ofNat bytes.length :: packed ∧ Packs packed bytes

theorem as_plane {size : Nat} (length : bytes.length = size) :
    WritesAs (1 + (size + 3) / 4) (PlaneWords bytes) (chunkWriteBuffer around (some bytes) size) := by
  subst length
  exact as_buffer bytes

theorem as_noPlane : WritesAs 1 (PlaneWords []) (chunkWriteBuffer around none 0) := by
  have last : (storeWords [0] >>= fun _ => pure ()) = storeWords [0] := by
    refine Action.eq_of_run fun c => ?_
    rw [Action.bind_apply]
    split <;> rename_i ran <;> exact ran.symm
  have words : chunkWriteBuffer around none 0 = writeWords around [0] := congrArg (chunkCheckSize around 1 >>= fun _ => ·) last
  rw [words]
  refine (as_writeWords [0]).imp ?_
  rintro _ rfl
  exact ⟨[],rfl,packs_nil⟩

theorem reads_plane {data spare words : List UInt32} (plane : PlaneWords bytes words) (small : bytes.length + 3 < 2 ^ 32) :
    Reads data (chunkReadBuffer data spare) words (arrayPointer bytes,bytes.length) := by
  obtain ⟨packed,rfl,packs⟩ := plane
  exact reads_chunkReadBuffer packs small

end Planes

section Sizes
variable {desc : ImageDesc}

/-- What the checks of the writer leave. -/
structure RawFits (desc : ImageDesc) : Prop where
  bytes : desc.bitsPerPixel.toInt.toNat / 8 = desc.bytesPerPixel.toNat
  apart : dimensionsOverflow desc.width desc.height = false
  plane : ¬ (desc.width.toInt * desc.height.toInt = 0 ∨ desc.width.toInt * desc.height.toInt > 2 ^ 32 - 1)
  stride : 0 < desc.rowStride.toInt
  row : desc.width.toInt * desc.bytesPerPixel ≤ desc.rowStride.toInt

theorem rawBitmapCheck_ok (ok : rawBitmapCheck desc = .ok ()) (positive : 0 < desc.bitsPerPixel.toInt) : RawFits desc := by
  unfold rawBitmapCheck at ok
  dsimp only at ok
  split at ok
  · cases ok
  · rename_i whole
    split at ok
    · cases ok
    · split at ok
      · cases ok
      · rename_i apart
        split at ok
        · cases ok
        · rename_i plane
          split at ok
          · cases ok
          · rename_i stride
            split at ok
            · cases ok
            · rename_i row
              have bytes : desc.bytesPerPixel = desc.bitsPerPixel.toInt / 8 := by
                have rest : desc.bitsPerPixel.toInt.tmod 8 = 0 := by
                  rw [Int.tmod_eq_emod_of_nonneg (Int.le_of_lt positive)]
                  exact not_not.mp (not_or.mp whole).1
                rw [ImageDesc.bytesPerPixel,rest,if_neg (not_not.mpr rfl),Int.add_zero,Int.tdiv_eq_ediv_of_nonneg (Int.le_of_lt positive)]
              exact ⟨by rw [bytes]; omega,Bool.eq_false_iff.mpr apart,plane,Int.not_le.mp stride,by rw [bytes]; exact Int.not_lt.mp row⟩

/-- A plane has less than 2^31 bytes. -/
theorem plane_small (width : 0 < desc.width.toInt) (height : 0 < desc.height.toInt)
    (apart : dimensionsOverflow desc.width desc.height = false) :
    desc.width.toInt.toNat * desc.height.toInt.toNat < 2 ^ 31 := by
  have most : desc.width.toInt ≤ (2 ^ 31 - 1) / desc.height.toInt := by
    rw [dimensionsOverflow,decide_eq_false_iff_not] at apart
    exact Int.not_lt.mp apart
  have product : desc.width.toInt * desc.height.toInt ≤ 2 ^ 31 - 1 :=
    Int.le_trans (Int.mul_le_mul_of_nonneg_right most (Int.le_of_lt height)) (Int.ediv_mul_le _ (Int.ne_of_gt height))
  have same : ((desc.width.toInt.toNat * desc.height.toInt.toNat : Nat) : Int) = desc.width.toInt * desc.height.toInt := by
    rw [Int.natCast_mul,Int.toNat_of_nonneg (Int.le_of_lt width),Int.toNat_of_nonneg (Int.le_of_lt height)]
  omega

/-- The stride of 32-bit rows has its place in an `int32_t` below 2^29 columns. -/
theorem stride_argb {width : Int32} (positive : 0 < width.toInt) :
    (imageCalcBytesPerLine width 32).toInt = if width.toInt < 2 ^ 29 then 4 * width.toInt else 0 := by
  have depth : (32 : Int32).toInt = 32 := rfl
  rw [imageCalcBytesPerLine,if_neg (by rw [depth]; omega),depth]
  dsimp only
  by_cases narrow : width.toInt < 2 ^ 29
  · rw [if_neg (by omega),if_pos narrow,Int32.toInt_ofInt_of_le (by omega) (by omega)]
    omega
  · rw [if_pos (by omega),if_neg narrow]
    rfl

end Sizes

section Runs
variable {around : Surroundings} {desc : ImageDesc} {bytes : List UInt8} {c c' : Chunk}

/-- The bytes of a channel for each of the pixels. -/
def channelPlane (desc : ImageDesc) (mask : UInt32) (channelIndex : Nat) (pixels : List UInt32) : List UInt8 :=
  pixels.map fun pixel => imageExtractChannel pixel mask desc.shifts channelIndex

def alphaPlane (desc : ImageDesc) (pixels : List UInt32) : List UInt8 :=
  if desc.alphaMask ≠ 0 then channelPlane desc desc.alphaMask 3 pixels else []

/-- The words of the planes behind those of the header. -/
def RawWords (desc : ImageDesc) (pixels words : List UInt32) : Prop :=
  ∃ red green blue alpha, words = rawBitmapHeader desc ++ (red ++ (green ++ (blue ++ alpha))) ∧
    PlaneWords (channelPlane desc desc.redMask 0 pixels) red ∧ PlaneWords (channelPlane desc desc.greenMask 1 pixels) green ∧
    PlaneWords (channelPlane desc desc.blueMask 2 pixels) blue ∧ PlaneWords (alphaPlane desc pixels) alpha

structure ImageDesc.Shown (desc : ImageDesc) (bytes : List UInt8) : Prop where
  there : desc.imageData = some bytes
  width : 0 < desc.width.toInt
  height : 0 < desc.height.toInt
  depth : 0 < desc.bitsPerPixel.toInt

theorem writeRawPlanes_success {pixels : List UInt32} (length : pixels.length = desc.width.toInt.toNat * desc.height.toInt.toNat)
    (filling : Filling c) (ok : (writeRawPlanes around desc pixels).run c = (.ok (),c')) :
    ∃ red green blue alpha, Fills c c' (red ++ (green ++ (blue ++ alpha))) ∧
      PlaneWords (channelPlane desc desc.redMask 0 pixels) red ∧ PlaneWords (channelPlane desc desc.greenMask 1 pixels) green ∧
      PlaneWords (channelPlane desc desc.blueMask 2 pixels) blue ∧ PlaneWords (alphaPlane desc pixels) alpha := by
  have size (mask : UInt32) (channelIndex : Nat) : (channelPlane desc mask channelIndex pixels).length =
      desc.width.toInt.toNat * desc.height.toInt.toNat := (List.length_map _).trans length
  obtain ⟨_,c₁,one,ok⟩ := Action.bind_success ok
  obtain ⟨red,first,reds⟩ := (as_plane (size desc.redMask 0)).leaves _ _ filling one
  obtain ⟨_,c₂,two,ok⟩ := Action.bind_success ok
  obtain ⟨green,second,greens⟩ := (as_plane (size desc.greenMask 1)).leaves _ _ first.filling two
  obtain ⟨_,c₃,three,ok⟩ := Action.bind_success ok
  obtain ⟨blue,third,blues⟩ := (as_plane (size desc.blueMask 2)).leaves _ _ second.filling three
  have last : ∃ alpha, Fills c₃ c' alpha ∧ PlaneWords (alphaPlane desc pixels) alpha := by
    unfold alphaPlane
    split at ok
    · rename_i masked
      rw [if_pos masked]
      exact (as_plane (size desc.alphaMask 3)).leaves _ _ third.filling ok
    · rename_i none
      rw [if_neg none]
      exact as_noPlane.leaves _ _ third.filling ok
  obtain ⟨alpha,fourth,alphas⟩ := last
  exact ⟨red,green,blue,alpha,first.trans (second.trans (third.trans fourth)),reds,greens,blues,alphas⟩

/-- What a bitmap that is not empty leaves. -/
theorem chunkWriteRawBitmap_success (shown : desc.Shown bytes) (filling : Filling c)
    (ok : (chunkWriteRawBitmap around desc).run c = (.ok (),c')) :
    RawFits desc ∧ ∃ pixels words, rawPixels desc bytes = .ok pixels ∧ Fills c c' words ∧ RawWords desc pixels words := by
  have positive : ¬ (desc.width.toInt ≤ 0 ∨ desc.height.toInt ≤ 0 ∨ desc.bitsPerPixel.toInt ≤ 0) := by
    have width := shown.width
    have height := shown.height
    have depth := shown.depth
    omega
  rw [chunkWriteRawBitmap,shown.there] at ok
  dsimp only at ok
  rw [if_neg positive] at ok
  obtain ⟨_,_,checked,ok⟩ := Action.bind_success ok
  rw [Action.lift_apply] at checked
  obtain ⟨sound,rfl⟩ := Prod.mk.inj checked
  obtain ⟨_,c₁,depth,ok⟩ := Action.bind_success ok
  obtain ⟨_,c₂,width,ok⟩ := Action.bind_success ok
  obtain ⟨_,c₃,height,ok⟩ := Action.bind_success ok
  obtain ⟨_,c₄,alpha,ok⟩ := Action.bind_success ok
  obtain ⟨_,c₅,red,ok⟩ := Action.bind_success ok
  obtain ⟨_,c₆,green,ok⟩ := Action.bind_success ok
  obtain ⟨_,c₇,blue,ok⟩ := Action.bind_success ok
  obtain ⟨_,c₈,plain,ok⟩ := Action.bind_success ok
  obtain ⟨pixels,_,read,ok⟩ := Action.bind_success ok
  rw [Action.lift_apply] at read
  obtain ⟨found,rfl⟩ := Prod.mk.inj read
  have w₁ := writeWords_success filling depth
  have w₂ := w₁.trans (writeWords_success w₁.filling width)
  have w₃ := w₂.trans (writeWords_success w₂.filling height)
  have w₄ := w₃.trans (writeWords_success w₃.filling alpha)
  have w₅ := w₄.trans (writeWords_success w₄.filling red)
  have w₆ := w₅.trans (writeWords_success w₅.filling green)
  have w₇ := w₆.trans (writeWords_success w₆.filling blue)
  have header : Fills c c₈ (rawBitmapHeader desc) := w₇.trans (writeWords_success w₇.filling plain)
  obtain ⟨r,g,b,a,planes,reds,greens,blues,alphas⟩ := writeRawPlanes_success (cellsM_success found).1 header.filling ok
  exact ⟨rawBitmapCheck_ok sound shown.depth,pixels,_,found,header.trans planes,r,g,b,a,rfl,reds,greens,blues,alphas⟩

/-- The planes as the reader gets them. -/
def rawPlanes (desc : ImageDesc) (pixels : List UInt32) : RawPlanes where
  width := desc.width
  height := desc.height
  red := (arrayPointer (channelPlane desc desc.redMask 0 pixels),(channelPlane desc desc.redMask 0 pixels).length)
  green := (arrayPointer (channelPlane desc desc.greenMask 1 pixels),(channelPlane desc desc.greenMask 1 pixels).length)
  blue := (arrayPointer (channelPlane desc desc.blueMask 2 pixels),(channelPlane desc desc.blueMask 2 pixels).length)
  alpha := (arrayPointer (alphaPlane desc pixels),(alphaPlane desc pixels).length)

theorem reads_passed {data input : List UInt32} {α : Type} {fault : Prop} [Decidable fault] {code : ErrorCode}
    {message : String} {next : Run Nat α} {value : α} (passed : ¬ fault) (tail : Reads data next input value) :
    Reads data ((if fault then fail code message else pure ()) >>= fun _ => next) input value := by
  rw [if_neg passed]
  exact reads_still (reads_pure ()) tail

theorem reads_int {data : List UInt32} (value : Int32) : Reads data (chunkReadInt data) [value.toUInt32] value := by
  have read : Reads data (chunkReadInt data) [value.toUInt32] _ := reads_chunkReadInt value.toUInt32
  rwa [Int32.toInt32_toUInt32] at read

theorem reads_rawPlanes (spare : List UInt32) {data pixels words : List UInt32} (shown : desc.Shown bytes) (fits : RawFits desc)
    (length : pixels.length = desc.width.toInt.toNat * desc.height.toInt.toNat) (raw : RawWords desc pixels words) :
    Reads data (readRawPlanes data spare) words (some (rawPlanes desc pixels)) := by
  obtain ⟨red,green,blue,alpha,rfl,reds,greens,blues,alphas⟩ := raw
  have few := plane_small shown.width shown.height fits.apart
  have size (mask : UInt32) (channelIndex : Nat) : (channelPlane desc mask channelIndex pixels).length + 3 < 2 ^ 32 := by
    rw [channelPlane,List.length_map,length]
    omega
  have alphaSize : (alphaPlane desc pixels).length + 3 < 2 ^ 32 := by
    rw [alphaPlane]
    split
    · exact size _ _
    · exact show 0 + 3 < 2 ^ 32 by decide
  have depth := shown.depth
  have width := shown.width
  have height := shown.height
  refine reads_cons (reads_int desc.bitsPerPixel) ?_
  rw [if_neg fun zero => by rw [zero] at depth; exact absurd depth (by decide)]
  refine reads_cons (reads_int desc.width) (reads_cons (reads_int desc.height) ?_)
  refine reads_cons (reads_chunkReadDword _) (reads_cons (reads_chunkReadDword _) ?_)
  refine reads_cons (reads_chunkReadDword _) (reads_cons (reads_chunkReadDword _) (reads_cons (reads_chunkReadDword _) ?_))
  refine reads_passed (not_not.mpr rfl) (reads_passed (by omega) (reads_passed (Bool.eq_false_iff.mp fits.apart) ?_))
  refine reads_passed fits.plane ?_
  change Reads data _ (red ++ (green ++ (blue ++ alpha))) _
  refine reads_bind (reads_plane reds (size _ _)) ?_
  refine reads_bind (reads_plane greens (size _ _)) ?_
  refine reads_bind (reads_plane blues (size _ _)) ?_
  exact reads_return (f := fun found => some (⟨desc.width,desc.height,_,_,_,found⟩ : RawPlanes)) (reads_plane alphas alphaSize)

end Runs

section Merged
variable {desc : ImageDesc} {m : ChannelMasks} {bytes : List UInt8} {pixels : List UInt32}

theorem entry_pointer {index : Nat} {size : Nat} : Plane.entry (arrayPointer bytes,size) index = bytes.getD index 0 := by
  cases bytes with
  | nil => rfl
  | cons first rest => rfl

theorem channelPlane_entry {mask value : UInt32} {channelIndex index : Nat} (found : pixels[index]? = some value) :
    (channelPlane desc mask channelIndex pixels).getD index 0 = imageExtractChannel value mask desc.shifts channelIndex := by
  rw [channelPlane,List.getD_eq_getElem?_getD,List.getElem?_map,found]
  rfl

/-- A bitmap that was read has the channels of the source in the standard places, and its pixels where they
were in those places. -/
def RawBack (desc : ImageDesc) (m : ChannelMasks) (result : Result (ImageDesc × Option (List UInt8))) : Prop :=
  ∃ out pixels, result = .ok (out,pixels) ∧ out.imageData = pixels ∧
    ∀ x y, x < desc.width.toInt.toNat → y < desc.height.toInt.toNat →
      out.pixelOf x y = (desc.pixelOf x y).map m.argb ∧ (desc.Standard → out.pixelOf x y = desc.pixelOf x y)

/-- The plane for alpha is there just if there is a mask for it. -/
theorem alphaPlane_there (width : 0 < desc.width.toInt) (height : 0 < desc.height.toInt)
    (length : pixels.length = desc.width.toInt.toNat * desc.height.toInt.toNat) :
    ((rawPlanes desc pixels).alpha.2 =
        (rawPlanes desc pixels).width.toInt.toNat * (rawPlanes desc pixels).height.toInt.toNat ∧
      (rawPlanes desc pixels).alpha.1.isSome = true) ↔ desc.alphaMask ≠ 0 := by
  have positive : 0 < desc.width.toInt.toNat * desc.height.toInt.toNat := Nat.mul_pos (by omega) (by omega)
  by_cases masked : desc.alphaMask = 0
  · refine iff_of_false (fun there => ?_) (not_not.mpr masked)
    have size : (alphaPlane desc pixels).length = desc.width.toInt.toNat * desc.height.toInt.toNat := there.1
    rw [alphaPlane,if_neg (not_not.mpr masked),List.length_nil] at size
    omega
  · refine iff_of_true ?_ masked
    have plane : alphaPlane desc pixels = channelPlane desc desc.alphaMask 3 pixels := if_pos masked
    have size : (alphaPlane desc pixels).length = desc.width.toInt.toNat * desc.height.toInt.toNat := by
      rw [plane,channelPlane,List.length_map,length]
    refine ⟨size,?_⟩
    change (arrayPointer (alphaPlane desc pixels)).isSome = true
    cases content : alphaPlane desc pixels with
    | nil =>
      rw [content,List.length_nil] at size
      omega
    | cons first rest => rfl

/-- The pixel that the planes give, as the source has it. -/
theorem merged_pixel (width : 0 < desc.width.toInt) (height : 0 < desc.height.toInt)
    (length : pixels.length = desc.width.toInt.toNat * desc.height.toInt.toNat) {index : Nat} {value : UInt32}
    (found : pixels[index]? = some value) : mergedPixel (rawPlanes desc pixels) index = desc.argbOf value := by
  have colour (mask : UInt32) (channelIndex : Nat) {size : Nat} :
      Plane.entry (arrayPointer (channelPlane desc mask channelIndex pixels),size) index =
        imageExtractChannel value mask desc.shifts channelIndex := entry_pointer.trans (channelPlane_entry found)
  have red : (rawPlanes desc pixels).red.entry index = _ := colour desc.redMask 0
  have green : (rawPlanes desc pixels).green.entry index = _ := colour desc.greenMask 1
  have blue : (rawPlanes desc pixels).blue.entry index = _ := colour desc.blueMask 2
  rw [mergedPixel,ImageDesc.argbOf,red,green,blue]
  congr 1
  by_cases none : desc.alphaMask = 0
  · rw [if_neg ((alphaPlane_there width height length).not.mpr (not_not.mpr none)),if_neg (not_not.mpr none)]
  · have plane : alphaPlane desc pixels = channelPlane desc desc.alphaMask 3 pixels := if_pos none
    have alpha : (rawPlanes desc pixels).alpha.entry index = (alphaPlane desc pixels).getD index 0 := entry_pointer
    rw [if_pos ((alphaPlane_there width height length).mpr none),if_pos none,alpha,plane,channelPlane_entry found]

/-- The pixels of words that fill the rows. -/
theorem pixelOf_cells {out : ImageDesc} {width height : Nat} {cell : Nat → Nat → UInt32}
    (data : out.imageData = some (encodeWords (cells width height cell))) (stride : out.rowStride.toInt.toNat = 4 * width)
    (depth : out.bitsPerPixel = 32) {x y : Nat} (column : x < width) (row : y < height) : out.pixelOf x y = .ok (cell x y) := by
  obtain ⟨value,found,rfl⟩ := (cells_tiles cell).2 x y column row
  have bytes : out.bytesPerPixel.toNat = 4 := by
    rw [ImageDesc.bytesPerPixel,depth]
    rfl
  have offset : y * (4 * width) + x * 4 = 4 * (y * width + x) := by
    rw [Nat.mul_left_comm,Nat.mul_comm x 4,Nat.mul_add]
  rw [ImageDesc.pixelOf,data]
  dsimp only
  rw [stride,bytes,offset]
  exact pixelAt_word found

/-- The pixels of the picture that was put together. -/
theorem mergedImage_pixel (shown : desc.Shown bytes) (fits : RawFits desc)
    (read : rawPixels desc bytes = .ok pixels) (narrow : desc.width.toInt < 2 ^ 29) {x y : Nat}
    (column : x < desc.width.toInt.toNat) (row : y < desc.height.toInt.toNat) :
    ∃ value, desc.pixelOf x y = .ok value ∧ (mergedImage (rawPlanes desc pixels)).pixelOf x y = .ok (desc.argbOf value) := by
  obtain ⟨length,each⟩ := cellsM_success read
  obtain ⟨mirrored,back⟩ := mirror_lt row
  obtain ⟨value,found,here⟩ := each x (desc.height.toInt.toNat - 1 - y) column mirrored
  rw [back,fits.bytes] at here
  have source : desc.pixelOf x y = .ok value := by
    rw [ImageDesc.pixelOf,shown.there]
    exact here
  have width := shown.width
  have stride := stride_argb shown.width
  rw [if_pos narrow] at stride
  have rows : (mergedImage (rawPlanes desc pixels)).rowStride = imageCalcBytesPerLine desc.width 32 :=
    ImageDesc.rowStride_given (show 0 < (imageCalcBytesPerLine desc.width 32).toInt by omega)
  have data : (mergedImage (rawPlanes desc pixels)).imageData = some (encodeWords (cells desc.width.toInt.toNat
      desc.height.toInt.toNat fun x y => mergedPixel (rawPlanes desc pixels)
        ((desc.height.toInt.toNat - 1 - y) * desc.width.toInt.toNat + x))) := rfl
  have there := pixelOf_cells data (by rw [rows,stride]; omega) rfl column row
  rw [merged_pixel shown.width shown.height length found] at there
  exact ⟨value,source,there⟩

theorem mergePlanes_back (shown : desc.Shown bytes) (fits : RawFits desc) (masked : desc.Masked m)
    (read : rawPixels desc bytes = .ok pixels) : RawBack desc m (mergePlanes (rawPlanes desc pixels)) ↔ desc.width.toInt < 2 ^ 29 := by
  have size (mask : UInt32) (channelIndex : Nat) : (channelPlane desc mask channelIndex pixels).length =
      desc.width.toInt.toNat * desc.height.toInt.toNat := (List.length_map _).trans (cellsM_success read).1
  have whole : mergePlanes (rawPlanes desc pixels) = if (imageCalcBytesPerLine desc.width 32).toInt ≤ 0 then
      .error (.error .invalidArgument "Invalid output row stride")
      else .ok (mergedImage (rawPlanes desc pixels),some (mergedPixels (rawPlanes desc pixels))) :=
    if_neg (not_or.mpr ⟨not_not.mpr (size _ _),not_or.mpr ⟨not_not.mpr (size _ _),not_not.mpr (size _ _)⟩⟩)
  have width := shown.width
  have stride := stride_argb shown.width
  rw [whole]
  by_cases narrow : desc.width.toInt < 2 ^ 29
  · rw [if_pos narrow] at stride
    rw [if_neg (by omega)]
    refine iff_of_true ⟨_,_,rfl,rfl,fun x y column row => ?_⟩ narrow
    obtain ⟨value,source,back⟩ := mergedImage_pixel shown fits read narrow column row
    rw [source,back,ImageDesc.argbOf_masked masked]
    exact ⟨rfl,fun standard => congrArg Except.ok (argb_standard masked standard value)⟩
  · rw [if_neg narrow] at stride
    rw [if_pos (by omega)]
    refine iff_of_false ?_ narrow
    rintro ⟨out,given,same,_⟩
    cases same

end Merged

section Whole
variable {around : Surroundings} {desc : ImageDesc} {m : ChannelMasks} {c c' : Chunk}

theorem emptyBitmap_back (hidden : desc.imageData = none ∨ desc.width.toInt ≤ 0 ∨ desc.height.toInt ≤ 0) :
    RawBack desc m (.ok ({},none)) := by
  refine ⟨{},none,rfl,rfl,fun x y column row => ?_⟩
  rcases hidden with none | flat | flat
  · have source : desc.pixelOf x y = .error (.overread 0) := by
      rw [ImageDesc.pixelOf,none]
    rw [source]
    exact ⟨rfl,fun _ => rfl⟩
  · exact absurd column (by omega)
  · exact absurd row (by omega)

theorem reads_marker {data : List UInt32} (spare : List UInt32) : Reads data (chunkReadRawBitmap data spare) [0] ({},none) := by
  have none : Reads data (readRawPlanes data spare) [0] none := by
    refine reads_cons (reads_chunkReadInt 0) ?_
    rw [if_pos (by decide)]
    exact reads_pure _
  have both : Reads data (chunkReadRawBitmap data spare) ([0] ++ []) ({},Option.none) := reads_bind none (reads_pure _)
  exact both

/-- What was written stands behind what was there. -/
theorem Fills.ahead {words : List UInt32} (fills : Fills c c' words) (rest : List UInt32) :
    Ahead (c'.words ++ rest) c.dataSize (words ++ rest) := by
  rw [fills.words,List.append_assoc]
  exact ahead_after c.words (words ++ rest)

theorem shownBitmap_back {bytes : List UInt8} (shown : desc.Shown bytes) (masked : desc.Masked m) (filling : Filling c)
    (written : (chunkWriteRawBitmap around desc).run c = (.ok (),c')) (rest spare : List UInt32) :
    RawBack desc m ((chunkReadRawBitmap (c'.words ++ rest) spare).run c.dataSize).1 ↔ desc.width.toInt < 2 ^ 29 := by
  obtain ⟨fits,pixels,words,read,fills,raw⟩ := chunkWriteRawBitmap_success shown filling written
  obtain ⟨next,ran,_⟩ := reads_rawPlanes spare shown fits (cellsM_success read).1 raw _ _ (fills.ahead rest)
  rw [chunkReadRawBitmap,Action.bind_ok _ ran]
  exact mergePlanes_back shown fits masked read

/-- A bitmap that was written, whatever stands in front of it and behind it, is read as its pixels in the standard
places just if it is empty or has less than 2^29 columns. -/
theorem rawBitmap_back_iff (masked : desc.Masked m) (depth : 0 < desc.bitsPerPixel.toInt) (filling : Filling c)
    (written : (chunkWriteRawBitmap around desc).run c = (.ok (),c')) (rest spare : List UInt32) :
    RawBack desc m ((chunkReadRawBitmap (c'.words ++ rest) spare).run c.dataSize).1 ↔
      desc.imageData = none ∨ desc.height.toInt ≤ 0 ∨ desc.width.toInt < 2 ^ 29 := by
  by_cases hidden : desc.imageData = none ∨ desc.width.toInt ≤ 0 ∨ desc.height.toInt ≤ 0
  · have marker : chunkWriteRawBitmap around desc = writeEmptyBitmapMarker around := by
      rw [chunkWriteRawBitmap]
      split
      · rfl
      · rename_i there
        rw [there] at hidden
        exact if_pos (by rcases hidden with none | flat | flat; cases none; exact .inl flat; exact .inr (.inl flat))
    rw [marker] at written
    obtain ⟨next,read,_⟩ := reads_marker spare _ _ ((writeWords_success filling written).ahead rest)
    rw [read]
    refine iff_of_true (emptyBitmap_back hidden) ?_
    rcases hidden with none | flat | flat
    · exact .inl none
    · exact .inr (.inr (by omega))
    · exact .inr (.inl flat)
  · obtain ⟨there,width,height⟩ : desc.imageData ≠ none ∧ 0 < desc.width.toInt ∧ 0 < desc.height.toInt := by
      simpa only [not_or,Int.not_le] using hidden
    obtain ⟨bytes,there⟩ := Option.ne_none_iff_exists'.mp there
    refine (shownBitmap_back ⟨there,width,height,depth⟩ masked filling written rest spare).trans ?_
    rw [there,or_iff_right (nofun : ¬ some bytes = none),or_iff_right (Int.not_le.mpr height)]

end Whole

section Room
variable {desc : ImageDesc} {bytes : List UInt8} {pixels : List UInt32}

theorem lift_ok {σ α β : Type} (value : α) (next : α → Run σ β) : (Action.lift (.ok value) >>= next) = next value := rfl

/-- A bitmap whose pixels are there is written wherever there is room. -/
theorem rawBitmap_room (around : Surroundings) (shown : desc.Shown bytes) (sound : rawBitmapCheck desc = .ok ()) (read : rawPixels desc bytes = .ok pixels) :
    WritesUpTo (12 + 4 * ((desc.width.toInt.toNat * desc.height.toInt.toNat + 3) / 4)) (chunkWriteRawBitmap around desc) := by
  have positive : ¬ (desc.width.toInt ≤ 0 ∨ desc.height.toInt ≤ 0 ∨ desc.bitsPerPixel.toInt ≤ 0) := by
    have width := shown.width
    have height := shown.height
    have depth := shown.depth
    omega
  have plane (mask : UInt32) (channelIndex : Nat) : WritesUpTo
      (1 + (desc.width.toInt.toNat * desc.height.toInt.toNat + 3) / 4) (chunkWriteBuffer around
        (some (pixels.map fun pixel => imageExtractChannel pixel mask desc.shifts channelIndex))
        (desc.width.toInt.toNat * desc.height.toInt.toNat)) :=
    (as_plane ((List.length_map _).trans (cellsM_success read).1)).room
  have alpha : WritesUpTo (1 + (desc.width.toInt.toNat * desc.height.toInt.toNat + 3) / 4) (if desc.alphaMask ≠ 0 then
      chunkWriteBuffer around (some (pixels.map fun pixel => imageExtractChannel pixel desc.alphaMask desc.shifts 3))
        (desc.width.toInt.toNat * desc.height.toInt.toNat)
      else chunkWriteBuffer around none 0) := by
    split
    · exact plane _ _
    · have none : WritesUpTo 1 (chunkWriteBuffer around none 0) := as_noPlane.room
      exact none.mono (Nat.le_add_right 1 _)
  have word (value : UInt32) : WritesUpTo 1 (writeWords around [value]) := (as_writeWords [value]).room
  have planes : WritesUpTo _ (writeRawPlanes around desc pixels) :=
    upTo_bind (plane _ _) (upTo_bind (plane _ _) (upTo_bind (plane _ _) alpha))
  have all := upTo_bind (word desc.bitsPerPixel.toUInt32) (upTo_bind (word desc.width.toUInt32) (upTo_bind (word desc.height.toUInt32)
    (upTo_bind (word desc.alphaMask) (upTo_bind (word desc.redMask) (upTo_bind (word desc.greenMask) (upTo_bind (word desc.blueMask)
      (upTo_bind (word 0) planes)))))))
  have written : chunkWriteRawBitmap around desc = (do
      chunkWriteInt around desc.bitsPerPixel
      chunkWriteInt around desc.width
      chunkWriteInt around desc.height
      chunkWriteDword around desc.alphaMask
      chunkWriteDword around desc.redMask
      chunkWriteDword around desc.greenMask
      chunkWriteDword around desc.blueMask
      chunkWriteDword around 0
      writeRawPlanes around desc pixels) := by
    rw [chunkWriteRawBitmap,shown.there]
    dsimp only
    rw [if_neg positive,sound,read]
    rfl
  rw [written]
  exact all.mono (by omega)

end Room

section Samples

/-- Three bits of red and green and two of blue. -/
def rgb332 : ChannelMasks where
  red := ⟨5,3,by decide,by decide⟩
  green := ⟨2,3,by decide,by decide⟩
  blue := ⟨0,2,by decide,by decide⟩
  alpha := ⟨0,0,by decide,by decide⟩

def image332 (width height : Int32) (bytes : List UInt8) : ImageDesc :=
  { width := width, height := height, bitsPerPixel := 8, redMask := 0xE0, greenMask := 0x1C, blueMask := 0x03
    imageData := some bytes }

theorem image332_masked (width height : Int32) (bytes : List UInt8) : (image332 width height bytes).Masked rgb332 :=
  ⟨show (0xE0 : UInt32) = rgb332.red.word by decide,show (0x1C : UInt32) = rgb332.green.word by decide,
    show (0x03 : UInt32) = rgb332.blue.word by decide,show (0 : UInt32) = rgb332.alpha.word by decide⟩

/-- Two rows of three pixels, with a byte more in each row. -/
def smallImage : ImageDesc := image332 3 2 [1,2,3,0,255,254,253,0]

theorem smallImage_back : ∃ c c', (chunkStartWrite {}).run chunkCreate = (.ok (),c) ∧
    (chunkWriteRawBitmap {} smallImage).run c = (.ok (),c') ∧
    RawBack smallImage rgb332 ((chunkReadRawBitmap (c'.words ++ [7]) []).run c.dataSize).1 := by
  obtain ⟨c,c',started,written⟩ : ∃ c c', (chunkStartWrite {}).run chunkCreate = (.ok (),c) ∧
      (chunkWriteRawBitmap {} smallImage).run c = (.ok (),c') := ⟨_,_,rfl,Prod.ext (by decide +kernel) rfl⟩
  have back := (rawBitmap_back_iff (image332_masked 3 2 _) (by decide) (startWrite_success started).1 written [7] []).mpr
    (.inr (.inr (by decide)))
  exact ⟨c,c',started,written,back⟩

/-- A row of 2^29 pixels. -/
def wideImage : ImageDesc := image332 0x20000000 1 (List.replicate (2 ^ 29) 0)

/-- It is written, and what was written cannot be read. -/
theorem wideImage_lost : wideImage.Masked rgb332 ∧ ∃ c c', (chunkStartWrite {}).run chunkCreate = (.ok (),c) ∧
    (chunkWriteRawBitmap {} wideImage).run c = (.ok (),c') ∧
    ¬ RawBack wideImage rgb332 ((chunkReadRawBitmap c'.words c'.spare).run c.dataSize).1 := by
  have shown : wideImage.Shown (List.replicate (2 ^ 29) 0) := ⟨rfl,by decide,by decide,by decide⟩
  have sound : rawBitmapCheck wideImage = .ok () := rfl
  have stride : wideImage.rowStride.toInt.toNat = 2 ^ 29 := rfl
  obtain ⟨pixels,read⟩ : ∃ pixels, rawPixels wideImage (List.replicate (2 ^ 29) 0) = .ok pixels := by
    refine cellsM_full fun x y column row => ⟨_,if_pos ?_⟩
    have last : x < 2 ^ 29 := column
    have only : y < 1 := row
    have depth : wideImage.bitsPerPixel.toInt.toNat / 8 = 1 := rfl
    rw [List.length_replicate,depth,stride]
    change (1 - 1 - y) * 2 ^ 29 + x * 1 + 1 ≤ 2 ^ 29
    omega
  have size : wideImage.width.toInt.toNat * wideImage.height.toInt.toNat = 2 ^ 29 := rfl
  obtain ⟨c,started,roomy,empty⟩ := startWrite_roomy {}
  obtain ⟨c',words,written,fills,_⟩ := rawBitmap_room {} shown sound read c roomy
    (by rw [Chunk.dataSize,empty,List.length_nil,size]; decide)
  refine ⟨image332_masked _ _ _,c,c',started,written,fun back => ?_⟩
  rw [← List.append_nil c'.words] at back
  have narrow := (shownBitmap_back shown (image332_masked _ _ _) roomy.filling written [] c'.spare).mp back
  exact absurd narrow (by decide)

end Samples

end Libnmo.Format
