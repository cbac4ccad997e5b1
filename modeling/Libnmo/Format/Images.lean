import Libnmo.Core.Error
import Libnmo.Lib.Cursor
import Libnmo.Lib.LittleEndian

/-! `nmo_image`: descriptors of images, and the channels that masks cut out of a pixel.
A mask of up to eight bits that lie side by side gives its bits, moved to the top of a byte. -/
namespace Libnmo.Format
open Core Lib Lib.LittleEndian Lib.Cursor

/-- `nmo_pixel_format_t`. -/
inductive PixelFormat
  | unknown
  | argb8888of32 | rgb888of32 | rgb888of24 | rgb565 | rgb555 | argb1555 | argb4444 | rgb332 | argb2222
  | abgr8888 | rgba8888 | bgra8888 | bgr888of32 | bgr888of24 | bgr565 | bgr555 | abgr1555 | abgr4444
  | dxt1 | dxt2 | dxt3 | dxt4 | dxt5
  | v8u8 | v16u16 | l6v5u5 | x8l8v8u8
  deriving DecidableEq

/-- `nmo_image_desc_t` without a palette, which no bitmap function reads. -/
structure ImageDesc where
  format : PixelFormat := .unknown
  width : Int32 := 0
  height : Int32 := 0
  bitsPerPixel : Int32 := 0
  bytesPerLine : Int32 := 0
  redMask : UInt32 := 0
  greenMask : UInt32 := 0
  blueMask : UInt32 := 0
  alphaMask : UInt32 := 0
  imageData : Option (List UInt8) := none
  deriving DecidableEq

/-- `nmo_mask_shifts_t`. -/
structure MaskShifts where
  redShiftLsb : UInt32
  redShiftMsb : UInt32
  greenShiftLsb : UInt32
  greenShiftMsb : UInt32
  blueShiftLsb : UInt32
  blueShiftMsb : UInt32
  alphaShiftLsb : UInt32
  alphaShiftMsb : UInt32

section Masks

/-- The loop that passes over the zeros. A mask that is not zero ends it before the 32 bits are used up. -/
def passZeros (mask : UInt32) : Nat → UInt32 → UInt32
  | 0,lsb => lsb
  | left + 1,lsb => if (mask >>> lsb) &&& 1 = 0 then passZeros mask left (lsb + 1) else lsb

/-- The loop that counts the ones. -/
def countOnes : Nat → UInt32 → UInt32 → UInt32
  | 0,_,count => count
  | left + 1,shifted,count => if shifted &&& 1 ≠ 0 then countOnes left (shifted >>> 1) (count + 1) else count

def analyzeMask (mask : UInt32) : UInt32 × UInt32 :=
  if mask = 0 then (0,0)
  else
    let lsb := passZeros mask 32 0
    (lsb,countOnes 32 (mask >>> lsb) 0)

/-- More than eight bits make the shift wrap. -/
def shiftMsb (bits : UInt32) : UInt32 := if bits > 0 then 8 - bits else 0

def imageCalculateMaskShifts (redMask greenMask blueMask alphaMask : UInt32) : MaskShifts where
  redShiftLsb := (analyzeMask redMask).1
  redShiftMsb := shiftMsb (analyzeMask redMask).2
  greenShiftLsb := (analyzeMask greenMask).1
  greenShiftMsb := shiftMsb (analyzeMask greenMask).2
  blueShiftLsb := (analyzeMask blueMask).1
  blueShiftMsb := shiftMsb (analyzeMask blueMask).2
  alphaShiftLsb := (analyzeMask alphaMask).1
  alphaShiftMsb := shiftMsb (analyzeMask alphaMask).2

def shiftedChannel (pixel mask lsb msb : UInt32) : UInt8 := (((pixel &&& mask) >>> lsb) <<< msb).toUInt8

def imageExtractChannel (pixel mask : UInt32) (shifts : MaskShifts) (channelIndex : Nat) : UInt8 :=
  if mask = 0 then (if channelIndex = 3 then 0xFF else 0)
  else match channelIndex with
    | 0 => shiftedChannel pixel mask shifts.redShiftLsb shifts.redShiftMsb
    | 1 => shiftedChannel pixel mask shifts.greenShiftLsb shifts.greenShiftMsb
    | 2 => shiftedChannel pixel mask shifts.blueShiftLsb shifts.blueShiftMsb
    | 3 => shiftedChannel pixel mask shifts.alphaShiftLsb shifts.alphaShiftMsb
    | _ => 0

end Masks

section Descriptors

/-- `memset` of the descriptor, then the standard masks. -/
def imageDescInitArgb32 (width height : Int32) : ImageDesc where
  format := .argb8888of32
  width := width
  height := height
  bitsPerPixel := 32
  bytesPerLine := width * 4
  alphaMask := 0xFF000000
  redMask := 0x00FF0000
  greenMask := 0x0000FF00
  blueMask := 0x000000FF

def imageCalcBytesPerLine (width bitsPerPixel : Int32) : Int32 :=
  if width.toInt ≤ 0 ∨ bitsPerPixel.toInt ≤ 0 then 0
  else
    let bytes := (width.toInt * bitsPerPixel.toInt + 7) / 8
    let bytes := (bytes + 3) / 4 * 4
    if bytes > 2 ^ 31 - 1 then 0 else Int32.ofInt bytes

/-- `INT32_MAX / height < width`, for a positive height. -/
def dimensionsOverflow (width height : Int32) : Bool := (2 ^ 31 - 1) / height.toInt < width.toInt

/-- The stride that the bitmap writers take. -/
def ImageDesc.rowStride (desc : ImageDesc) : Int32 :=
  if desc.bytesPerLine.toInt ≤ 0 then imageCalcBytesPerLine desc.width desc.bitsPerPixel else desc.bytesPerLine

theorem ImageDesc.rowStride_given {desc : ImageDesc} (positive : 0 < desc.bytesPerLine.toInt) :
    desc.rowStride = desc.bytesPerLine := if_neg (Int.not_le.mpr positive)

end Descriptors

section Pixels

/-- The bytes of a pixel, the least significant first. -/
def bitmapReadPixel : List UInt8 → UInt32
  | [a] => a.toUInt32
  | [a,b] => a.toUInt32 ||| b.toUInt32 <<< 8
  | [a,b,c] => a.toUInt32 ||| b.toUInt32 <<< 8 ||| c.toUInt32 <<< 16
  | [a,b,c,d] => bytesWord a b c d
  | _ => 0

/-- The pixel whose bytes begin at the offset. -/
def pixelAt (data : List UInt8) (offset bytesPerPixel : Nat) : Result UInt32 :=
  if offset + bytesPerPixel ≤ data.length then .ok (bitmapReadPixel (slice data offset bytesPerPixel))
  else .error (.overread data.length)

def bitmapPackArgb (r g b a : UInt8) : UInt32 := a.toUInt32 <<< 24 ||| r.toUInt32 <<< 16 ||| g.toUInt32 <<< 8 ||| b.toUInt32

/-- The pixels of words are the words. -/
theorem pixelAt_word {words : List UInt32} {i : Nat} {word : UInt32} (found : words[i]? = some word) :
    pixelAt (encodeWords words) (4 * i) 4 = .ok word := by
  obtain ⟨bound,same⟩ := List.getElem?_eq_some_iff.mp found
  have split : encodeWords words = encodeWords (words.take i) ++ (wordBytes word ++ encodeWords (words.drop (i + 1))) := by
    rw [← encodeWords_cons,← encodeWords_append,← same,← List.drop_eq_getElem_cons bound,List.take_append_drop]
  have front : (encodeWords (words.take i)).length = 4 * i := by
    rw [length_encodeWords,List.length_take,Nat.min_eq_left (Nat.le_of_lt bound)]
  have cut : slice (encodeWords words) (4 * i) 4 = wordBytes word := by
    rw [slice,split,List.drop_left' front]
    exact List.take_left' (length_wordBytes word)
  have inside : 4 * i + 4 ≤ (encodeWords words).length := by
    rw [length_encodeWords]
    omega
  rw [pixelAt,if_pos inside,cut]
  exact congrArg Except.ok (bytesWord_wordBytes word)

end Pixels

/-- A channel of at most eight bits that lie side by side. -/
structure ChannelMask where
  lsb : Nat
  bits : Nat
  few : bits ≤ 8
  inside : lsb + bits ≤ 32

namespace ChannelMask

def word (m : ChannelMask) : UInt32 := UInt32.ofNat ((2 ^ m.bits - 1) * 2 ^ m.lsb)

/-- The bits of the pixel under the mask, as the top bits of a byte. -/
def channel (m : ChannelMask) (pixel : UInt32) : UInt8 :=
  UInt8.ofNat (pixel.toNat / 2 ^ m.lsb % 2 ^ m.bits * 2 ^ (8 - m.bits))

variable (m : ChannelMask)

theorem toNat_word : m.word.toNat = (2 ^ m.bits - 1) * 2 ^ m.lsb := by
  have below : (2 ^ m.bits - 1) * 2 ^ m.lsb < 2 ^ 32 := by
    calc (2 ^ m.bits - 1) * 2 ^ m.lsb < 2 ^ m.bits * 2 ^ m.lsb :=
          Nat.mul_lt_mul_of_pos_right (Nat.sub_one_lt (Nat.two_pow_pos _).ne') (Nat.two_pow_pos _)
      _ = 2 ^ (m.lsb + m.bits) := by rw [Nat.mul_comm,← Nat.pow_add]
      _ ≤ 2 ^ 32 := Nat.pow_le_pow_right (by decide) m.inside
  rw [word,UInt32.toNat_ofNat']
  exact Nat.mod_eq_of_lt below

theorem word_eq_zero : m.word = 0 ↔ m.bits = 0 := by
  rw [← UInt32.toNat_inj,m.toNat_word,UInt32.toNat_zero,Nat.mul_eq_zero,or_iff_left (Nat.two_pow_pos _).ne']
  constructor
  · intro one
    by_contra some
    have two : 2 ≤ 2 ^ m.bits := Nat.le_self_pow some 2
    omega
  · intro none
    rw [none]
    rfl

theorem passZeros_word (some : 0 < m.bits) {i left : Nat} (before : i ≤ m.lsb) (enough : m.lsb < i + left) :
    passZeros m.word left (UInt32.ofNat i) = UInt32.ofNat m.lsb := by
  have inside := m.inside
  induction left generalizing i with
  | zero => exact absurd enough (by omega)
  | succ left ih =>
    have bit : ((m.word >>> UInt32.ofNat i) &&& 1 = 0) ↔ (2 ^ m.bits - 1) * 2 ^ m.lsb / 2 ^ i % 2 = 0 := by
      rw [← UInt32.toNat_inj,UInt32.toNat_and,UInt32.toNat_shiftRight,m.toNat_word,UInt32.toNat_ofNat',
        Nat.mod_eq_of_lt (show i < 2 ^ 32 by omega),Nat.mod_eq_of_lt (show i < 32 by omega),Nat.shiftRight_eq_div_pow]
      exact iff_of_eq (congrArg (· = 0) (Nat.and_one_is_mod _))
    rw [passZeros]
    rcases Nat.lt_or_eq_of_le before with zeros | rfl
    · have even : (2 ^ m.bits - 1) * 2 ^ m.lsb / 2 ^ i % 2 = 0 := by
        have split : m.lsb = (m.lsb - i - 1) + 1 + i := by omega
        rw [split,Nat.pow_add,← Nat.mul_assoc,Nat.mul_div_cancel _ (Nat.two_pow_pos i),Nat.pow_succ,← Nat.mul_assoc,Nat.mul_mod_left]
      have next : UInt32.ofNat i + 1 = UInt32.ofNat (i + 1) := by rw [UInt32.ofNat_add]; rfl
      rw [if_pos (bit.mpr even),next]
      exact ih zeros (by omega)
    · have odd : (2 ^ m.bits - 1) * 2 ^ m.lsb / 2 ^ m.lsb % 2 = 1 := by
        rw [Nat.mul_div_cancel _ (Nat.two_pow_pos _)]
        have double : 2 ^ m.bits = 2 ^ (m.bits - 1) * 2 := by rw [← Nat.pow_succ,Nat.succ_eq_add_one,Nat.sub_add_cancel some]
        have positive := Nat.two_pow_pos (m.bits - 1)
        omega
      rw [if_neg fun zero => by rw [bit.mp zero] at odd; cases odd]

end ChannelMask

theorem countOnes_run {bits : Nat} (left : Nat) (enough : bits < left) (short : bits ≤ 32) {shifted : UInt32}
    (ones : shifted.toNat = 2 ^ bits - 1) (count : Nat) :
    countOnes left shifted (UInt32.ofNat count) = UInt32.ofNat (count + bits) := by
  induction left generalizing bits shifted count with
  | zero => exact absurd enough (Nat.not_lt_zero bits)
  | succ left ih =>
    have bit : (shifted &&& 1 = 0) ↔ (2 ^ bits - 1) % 2 = 0 := by
      rw [← UInt32.toNat_inj,UInt32.toNat_and,ones]
      exact iff_of_eq (congrArg (· = 0) (Nat.and_one_is_mod _))
    rw [countOnes]
    cases bits with
    | zero => rw [if_neg (not_not.mpr (bit.mpr rfl)),Nat.add_zero]
    | succ bits =>
      have positive := Nat.two_pow_pos bits
      rw [Nat.pow_succ] at ones bit
      have half : (shifted >>> 1).toNat = 2 ^ bits - 1 := by
        rw [UInt32.toNat_shiftRight,ones]
        change (2 ^ bits * 2 - 1) >>> 1 = 2 ^ bits - 1
        rw [Nat.shiftRight_eq_div_pow]
        omega
      have next : UInt32.ofNat count + 1 = UInt32.ofNat (count + 1) := by rw [UInt32.ofNat_add]; rfl
      rw [if_pos (fun zero => by have := bit.mp zero; omega),next,ih (by omega) (by omega) half,Nat.add_assoc,Nat.add_comm 1]

namespace ChannelMask
variable (m : ChannelMask)

theorem analyzeMask_word (some : 0 < m.bits) : analyzeMask m.word = (UInt32.ofNat m.lsb,UInt32.ofNat m.bits) := by
  have inside := m.inside
  have few := m.few
  have lsb : passZeros m.word 32 0 = UInt32.ofNat m.lsb := m.passZeros_word some (Nat.zero_le _) (by omega)
  have ones : (m.word >>> UInt32.ofNat m.lsb).toNat = 2 ^ m.bits - 1 := by
    rw [UInt32.toNat_shiftRight,m.toNat_word,UInt32.toNat_ofNat',Nat.mod_eq_of_lt (show m.lsb < 2 ^ 32 by omega),
      Nat.mod_eq_of_lt (show m.lsb < 32 by omega),Nat.shiftRight_eq_div_pow,Nat.mul_div_cancel _ (Nat.two_pow_pos _)]
  have counted := countOnes_run 32 (by omega) (by omega) ones 0
  rw [Nat.zero_add] at counted
  rw [analyzeMask,if_neg (mt m.word_eq_zero.mp some.ne')]
  dsimp only
  rw [lsb]
  exact congrArg (Prod.mk _) counted

/-- The shifts that the loops find give the bits under the mask. -/
theorem shiftedChannel_word (some : 0 < m.bits) (pixel : UInt32) :
    shiftedChannel pixel m.word (analyzeMask m.word).1 (shiftMsb (analyzeMask m.word).2) = m.channel pixel := by
  have inside := m.inside
  have few := m.few
  have msb : shiftMsb (UInt32.ofNat m.bits) = UInt32.ofNat (8 - m.bits) := by
    rw [shiftMsb,if_pos (by rw [gt_iff_lt,UInt32.lt_iff_toNat_lt,UInt32.toNat_ofNat']; simp only [UInt32.toNat_zero]; omega),
      UInt32.ofNat_sub few]
    rfl
  have under : (pixel.toNat &&& (2 ^ m.bits - 1) * 2 ^ m.lsb) >>> m.lsb = pixel.toNat / 2 ^ m.lsb % 2 ^ m.bits := by
    rw [Nat.shiftRight_and_distrib,Nat.shiftRight_eq_div_pow,Nat.shiftRight_eq_div_pow,
      Nat.mul_div_cancel _ (Nat.two_pow_pos _),Nat.and_two_pow_sub_one_eq_mod]
  rw [m.analyzeMask_word some,shiftedChannel,channel,msb]
  apply UInt8.toNat_inj.mp
  rw [UInt32.toNat_toUInt8,UInt32.toNat_shiftLeft,UInt32.toNat_shiftRight,UInt32.toNat_and,m.toNat_word,UInt32.toNat_ofNat',
    UInt32.toNat_ofNat',Nat.mod_eq_of_lt (show m.lsb < 2 ^ 32 by omega),Nat.mod_eq_of_lt (show m.lsb < 32 by omega),
    Nat.mod_eq_of_lt (show 8 - m.bits < 2 ^ 32 by omega),Nat.mod_eq_of_lt (show 8 - m.bits < 32 by omega),under,
    Nat.shiftLeft_eq,UInt8.toNat_ofNat']
  exact Nat.mod_mod_of_dvd _ (by decide)

theorem channel_none (none : m.bits = 0) (pixel : UInt32) : m.channel pixel = 0 := by
  rw [channel,none,Nat.pow_zero,Nat.mod_one,Nat.zero_mul]
  rfl

/-- Masks with the same bits give the same channel. -/
theorem channel_congr {left right : ChannelMask} (some : 0 < right.bits) (same : left.word = right.word) (pixel : UInt32) :
    left.channel pixel = right.channel pixel := by
  have some' : 0 < left.bits := by
    refine Nat.pos_of_ne_zero fun none => ?_
    have zero := same.symm.trans (left.word_eq_zero.mpr none)
    exact some.ne' (right.word_eq_zero.mp zero)
  rw [← left.shiftedChannel_word some' pixel,← right.shiftedChannel_word some pixel,same]

end ChannelMask

structure ChannelMasks where
  red : ChannelMask
  green : ChannelMask
  blue : ChannelMask
  alpha : ChannelMask

/-- The pixel with its channels in the standard places. -/
def ChannelMasks.argb (m : ChannelMasks) (pixel : UInt32) : UInt32 :=
  bitmapPackArgb (m.red.channel pixel) (m.green.channel pixel) (m.blue.channel pixel)
    (if m.alpha.bits = 0 then 0xFF else m.alpha.channel pixel)

namespace ImageDesc
variable {desc : ImageDesc} {m : ChannelMasks}

structure Masked (desc : ImageDesc) (m : ChannelMasks) : Prop where
  red : desc.redMask = m.red.word
  green : desc.greenMask = m.green.word
  blue : desc.blueMask = m.blue.word
  alpha : desc.alphaMask = m.alpha.word

def shifts (desc : ImageDesc) : MaskShifts :=
  imageCalculateMaskShifts desc.redMask desc.greenMask desc.blueMask desc.alphaMask

/-- A depth that is not of whole bytes takes one more. -/
def bytesPerPixel (desc : ImageDesc) : Int :=
  desc.bitsPerPixel.toInt.tdiv 8 + if desc.bitsPerPixel.toInt.tmod 8 ≠ 0 then 1 else 0

/-- The pixel in a column of a row, counted from the first byte of the image. -/
def pixelOf (desc : ImageDesc) (x y : Nat) : Result UInt32 :=
  match desc.imageData with
  | none => .error (.overread 0)
  | some data => pixelAt data (y * desc.rowStride.toInt.toNat + x * desc.bytesPerPixel.toNat) desc.bytesPerPixel.toNat

/-- The pixel with the channels under its masks in the standard places. -/
def argbOf (desc : ImageDesc) (pixel : UInt32) : UInt32 :=
  bitmapPackArgb (imageExtractChannel pixel desc.redMask desc.shifts 0) (imageExtractChannel pixel desc.greenMask desc.shifts 1)
    (imageExtractChannel pixel desc.blueMask desc.shifts 2)
    (if desc.alphaMask ≠ 0 then imageExtractChannel pixel desc.alphaMask desc.shifts 3 else 0xFF)

/-- 32 bits with the masks of `imageDescInitArgb32`. -/
structure Standard (desc : ImageDesc) : Prop where
  depth : desc.bitsPerPixel = 32
  alpha : desc.alphaMask = 0xFF000000
  red : desc.redMask = 0x00FF0000
  green : desc.greenMask = 0x0000FF00
  blue : desc.blueMask = 0x000000FF

/-- A mask without bits gives what stands for a missing channel, any other its channel. -/
theorem extract_word (mask : ChannelMask) {pixel : UInt32} {shifts : MaskShifts} {channelIndex : Nat}
    (shifted : mask.word ≠ 0 → imageExtractChannel pixel mask.word shifts channelIndex =
      shiftedChannel pixel mask.word (analyzeMask mask.word).1 (shiftMsb (analyzeMask mask.word).2)) :
    imageExtractChannel pixel mask.word shifts channelIndex =
      if mask.bits = 0 then (if channelIndex = 3 then 0xFF else 0) else mask.channel pixel := by
  by_cases none : mask.bits = 0
  · have zero : mask.word = 0 := mask.word_eq_zero.mpr none
    rw [if_pos none]
    unfold imageExtractChannel
    rw [if_pos zero]
  · rw [if_neg none,shifted (mt mask.word_eq_zero.mp none)]
    exact mask.shiftedChannel_word (Nat.pos_of_ne_zero none) pixel

theorem colour_or_none (mask : ChannelMask) (pixel : UInt32) :
    (if mask.bits = 0 then 0 else mask.channel pixel) = mask.channel pixel := by
  by_cases none : mask.bits = 0
  · rw [if_pos none,mask.channel_none none]
  · rw [if_neg none]

variable (masked : desc.Masked m) (pixel : UInt32)
include masked

theorem extract_red : imageExtractChannel pixel desc.redMask desc.shifts 0 = m.red.channel pixel := by
  rw [masked.red]
  refine (extract_word m.red fun some => ?_).trans (colour_or_none m.red pixel)
  rw [imageExtractChannel,if_neg some,shifts,imageCalculateMaskShifts,masked.red]

theorem extract_green : imageExtractChannel pixel desc.greenMask desc.shifts 1 = m.green.channel pixel := by
  rw [masked.green]
  refine (extract_word m.green fun some => ?_).trans (colour_or_none m.green pixel)
  rw [imageExtractChannel,if_neg some,shifts,imageCalculateMaskShifts,masked.green]

theorem extract_blue : imageExtractChannel pixel desc.blueMask desc.shifts 2 = m.blue.channel pixel := by
  rw [masked.blue]
  refine (extract_word m.blue fun some => ?_).trans (colour_or_none m.blue pixel)
  rw [imageExtractChannel,if_neg some,shifts,imageCalculateMaskShifts,masked.blue]

theorem extract_alpha : imageExtractChannel pixel desc.alphaMask desc.shifts 3 =
    if m.alpha.bits = 0 then 0xFF else m.alpha.channel pixel := by
  rw [masked.alpha]
  refine extract_word m.alpha fun some => ?_
  rw [imageExtractChannel,if_neg some,shifts,imageCalculateMaskShifts,masked.alpha]

theorem argbOf_masked : desc.argbOf pixel = m.argb pixel := by
  rw [argbOf,ChannelMasks.argb,extract_red masked,extract_green masked,extract_blue masked,extract_alpha masked,masked.alpha]
  congr 1
  by_cases none : m.alpha.bits = 0
  · rw [if_neg (not_not.mpr (m.alpha.word_eq_zero.mpr none)),if_pos none]
  · rw [if_pos (mt m.alpha.word_eq_zero.mp none)]

end ImageDesc

section Standard

theorem pack_bytesWord (r g b a : UInt8) : bitmapPackArgb r g b a = bytesWord b g r a := by
  rw [bitmapPackArgb,bytesWord,UInt32.or_comm _ b.toUInt32,UInt32.or_assoc,UInt32.or_comm (a.toUInt32 <<< 24),
    UInt32.or_comm _ (g.toUInt32 <<< 8),← UInt32.or_assoc,← UInt32.or_assoc]

/-- The byte of a word as a channel. -/
def byteMask (place : Nat) (inside : place + 8 ≤ 32) : ChannelMask := ⟨place,8,Nat.le_refl 8,inside⟩

theorem byteMask_channel {place : Nat} (inside : place + 8 ≤ 32) (pixel : UInt32) :
    (byteMask place inside).channel pixel = (pixel >>> UInt32.ofNat place).toUInt8 := by
  apply UInt8.toNat_inj.mp
  have small : (UInt32.ofNat place).toNat = place := UInt32.toNat_ofNat_of_lt' (by simp only [UInt32.size]; omega)
  rw [toNat_toUInt8_shift _ _ (by omega),small,ChannelMask.channel,UInt8.toNat_ofNat']
  simp only [byteMask,Nat.sub_self,Nat.pow_zero,Nat.mul_one]
  exact Nat.mod_mod _ _

/-- With the standard masks the channels are where they were. -/
theorem argb_standard {desc : ImageDesc} {m : ChannelMasks} (masked : desc.Masked m) (standard : desc.Standard) (pixel : UInt32) :
    m.argb pixel = pixel := by
  have byte {mask : ChannelMask} (place : Nat) (inside : place + 8 ≤ 32) (same : mask.word = (byteMask place inside).word) :
      mask.channel pixel = (pixel >>> UInt32.ofNat place).toUInt8 :=
    (ChannelMask.channel_congr (show 0 < 8 by decide) same pixel).trans (byteMask_channel inside pixel)
  have red := byte 16 (by decide) ((masked.red.symm.trans standard.red).trans (by decide))
  have green := byte 8 (by decide) ((masked.green.symm.trans standard.green).trans (by decide))
  have blue := byte 0 (by decide) ((masked.blue.symm.trans standard.blue).trans (by decide))
  have alpha := byte 24 (by decide) ((masked.alpha.symm.trans standard.alpha).trans (by decide))
  have visible : m.alpha.bits ≠ 0 := by
    intro none
    have zero := standard.alpha.symm.trans (masked.alpha.trans (m.alpha.word_eq_zero.mpr none))
    exact absurd zero (by decide)
  rw [ChannelMasks.argb,if_neg visible,red,green,blue,alpha,pack_bytesWord,
    show pixel >>> UInt32.ofNat 0 = pixel from UInt32.shiftRight_zero]
  exact bytesWord_wordBytes pixel

end Standard

end Libnmo.Format
