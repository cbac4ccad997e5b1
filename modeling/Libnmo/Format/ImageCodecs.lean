import Libnmo.Core.NmoString
import Libnmo.Format.Images
import Mathlib.Logic.Function.Basic

/-! `nmo_image_codec`: codecs by format and by extension, and how the bitmap functions name
one in a chunk: a tag of three capitals, or a signature of five characters. The library that
encodes and decodes pixels is a parameter. -/
namespace Libnmo.Format
open Core Lib Lib.Patch

/-- `nmo_bitmap_format_t`, of which `RAW` is no codec's. -/
abbrev BitmapFormat := Nat

def formatRaw : BitmapFormat := 0
def formatBmp : BitmapFormat := 1
def formatJpg : BitmapFormat := 2
def formatPng : BitmapFormat := 3
def formatTga : BitmapFormat := 4
def formatCount : BitmapFormat := 10

/-- `nmo_bitmap_properties_t`. -/
structure BitmapProperties where
  format : BitmapFormat := formatRaw
  quality : Int32 := 0
  compressionLevel : Int32 := 0
  saveAlpha : Bool := false
  extension : Option (List UInt8) := none

structure DecodedImage where
  width : Int32
  height : Int32
  pixels : List UInt8
  channels : Nat

/-- `nmo_image_codec_t`, with room for four extensions. -/
structure ImageCodec where
  format : BitmapFormat
  name : Option (List UInt8)
  extensions : List (Option (List UInt8))
  supportsAlpha : Bool
  encode : List UInt8 → Int32 → Int32 → Nat → Option BitmapProperties → Result (List UInt8)
  decode : List UInt8 → Nat → Result DecodedImage

/-- `nmo_stbi_write_to_memory` and `nmo_stbi_load_from_memory`. -/
structure StbAdapter where
  writeToMemory : BitmapFormat → Int32 → Int32 → Nat → List UInt8 → Int32 → Option (List UInt8)
  loadFromMemory : List UInt8 → Nat → Option (Int32 × Int32 × Nat × List UInt8)

/-- `g_codecs` with `g_codec_registered`, and `g_codec_defaults_registered`. -/
structure CodecTable where
  slots : BitmapFormat → Option ImageCodec := fun _ => none
  defaultsRegistered : Bool := false

section Builtin
variable (stb : StbAdapter)

def imageCodecEncodeStb (format : BitmapFormat) (pixels : List UInt8) (width height : Int32) (channels : Nat)
    (props : Option BitmapProperties) : Result (List UInt8) :=
  if width.toInt ≤ 0 ∨ height.toInt ≤ 0 ∨ channels = 0 ∨ channels > 4 then
    .error (.error .invalidArgument "Invalid arguments for image encode")
  else match stb.writeToMemory format width height channels pixels ((props.map BitmapProperties.quality).getD 0) with
    | some (first :: rest) => .ok (first :: rest)
    | _ => .error (.error .invalidFormat "Failed to encode bitmap")

def imageCodecDecodeStb (encodedData : List UInt8) (desiredChannels : Nat) : Result DecodedImage :=
  if encodedData = [] then .error (.error .invalidArgument "Invalid arguments for image decode")
  else if encodedData.length > 2 ^ 31 - 1 then .error (.error .invalidArgument "Encoded bitmap too large")
  else match stb.loadFromMemory encodedData desiredChannels with
    | none => .error (.error .invalidFormat "Failed to decode bitmap")
    | some (width,height,foundChannels,pixels) =>
      .ok ⟨width,height,pixels,if desiredChannels ≠ 0 then desiredChannels else foundChannels⟩

def builtinCodec (format : BitmapFormat) (name : List UInt8) (extensions : List (Option (List UInt8))) (supportsAlpha : Bool) :
    ImageCodec :=
  { format, name := some name, extensions, supportsAlpha
    encode := imageCodecEncodeStb stb format, decode := imageCodecDecodeStb stb }

/-- PNG, png. -/
def pngCodec : ImageCodec := builtinCodec stb formatPng [80,78,71] [some [80,78,71],some [112,110,103],none,none] true

/-- BMP, bmp. -/
def bmpCodec : ImageCodec := builtinCodec stb formatBmp [66,77,80] [some [66,77,80],some [98,109,112],none,none] false

/-- TGA, tga. -/
def tgaCodec : ImageCodec := builtinCodec stb formatTga [84,71,65] [some [84,71,65],some [116,103,97],none,none] true

/-- JPG, JPEG, jpg. -/
def jpgCodec : ImageCodec :=
  builtinCodec stb formatJpg [74,80,71] [some [74,80,71],some [74,80,69,71],some [106,112,103],none] false

def imageCodecRegisterBuiltinEntry (table : CodecTable) (codec : ImageCodec) : CodecTable :=
  if codec.format = formatRaw ∨ codec.format ≥ formatCount then table
  else { table with slots := Function.update table.slots codec.format (some codec) }

def imageCodecRegisterBuiltin (table : CodecTable) : CodecTable :=
  if table.defaultsRegistered then table
  else [pngCodec stb,bmpCodec stb,tgaCodec stb,jpgCodec stb].foldl imageCodecRegisterBuiltinEntry
    { table with defaultsRegistered := true }

def imageCodecRegister (codec : ImageCodec) (table : CodecTable) : Result CodecTable :=
  if codec.format = formatRaw ∨ codec.format ≥ formatCount then .error (.error .invalidArgument "Invalid codec description")
  else .ok { table with slots := Function.update table.slots codec.format (some codec) }

/-- The codecs of the defaults are registered at the first lookup, and stay. -/
def imageCodecGet (table : CodecTable) (format : BitmapFormat) : Option ImageCodec :=
  if format = formatRaw ∨ format ≥ formatCount then none else (imageCodecRegisterBuiltin stb table).slots format

def extensionEquals (lhs rhs : List UInt8) : Bool := (cString lhs).map tolower == (cString rhs).map tolower

/-- The codec of the format, if it has the extension. -/
def namedCodec (table : CodecTable) (extension : List UInt8) (format : BitmapFormat) : Option ImageCodec :=
  ((imageCodecRegisterBuiltin stb table).slots format).bind fun codec =>
    if codec.extensions.any fun own => own.any fun text => extensionEquals text extension then some codec else none

def imageCodecFindByExtension (table : CodecTable) (extension : List UInt8) : Option ImageCodec :=
  (List.range formatCount).findSome? (namedCodec stb table extension)

end Builtin

section Names

def bitmapDefaultExtension (codec : ImageCodec) : Option (List UInt8) :=
  match codec.extensions.findSome? id with
  | some extension => some extension
  | none => codec.name

/-- Up to three capitals, and zeros. -/
def bitmapExtensionBytes (extension : Option (List UInt8)) : List UInt8 :=
  let letters := ((cString (extension.getD [])).take 3).map toupper
  letters ++ List.replicate (4 - letters.length) 0

def bitmapExtensionTag (bytes : List UInt8) : UInt32 :=
  (bytes.getD 0 0).toUInt32 ||| (bytes.getD 1 0).toUInt32 <<< 8 ||| (bytes.getD 2 0).toUInt32 <<< 16

def bitmapTagToString (tag : UInt32) : List UInt8 :=
  [(tag &&& 0xFF).toUInt8,((tag >>> 8) &&& 0xFF).toUInt8,((tag >>> 16) &&& 0xFF).toUInt8,0]

/-- The buffer after the call, and whether a character was kept. What stood in the buffer before can stay behind the terminator. -/
def bitmapNormalizeExtension (extension : Option (List UInt8)) (buffer : List UInt8) : Bool × List UInt8 :=
  match extension with
  | none => (false,overwrite buffer 0 [0])
  | some text =>
    let cursor := if (cString text).head? = some 46 then (cString text).drop 1 else cString text
    let kept := (cursor.take 3).map tolower
    (!kept.isEmpty,overwrite buffer 0 (kept ++ [0]))

/-- The characters at the extension, with the terminator, are read as they lie in memory. -/
def bitmapBuildSignature (extension : List UInt8) : Result (List UInt8) :=
  if extension.length < 3 then .error (.overread extension.length)
  else .ok ([67,75] ++ (extension.take 3).map fun ch => toupper (if ch ≠ 0 then ch else 32))

/-- The small letters up to the first character that is none. -/
def bitmapExtensionFromSignature (signature : List UInt8) : List UInt8 :=
  (((signature.drop 2).take 3).map tolower).takeWhile fun ch => 97 ≤ ch && ch ≤ 122

/-- The codec, and the characters at the extension that it goes under. -/
def bitmapResolveCodec (stb : StbAdapter) (table : CodecTable) (props : Option BitmapProperties) :
    Option (ImageCodec × Option (List UInt8)) :=
  let source := (props.bind BitmapProperties.extension).filter fun text => !(cString text).isEmpty
  let normalized := bitmapNormalizeExtension source [0,0,0,0]
  let named := if normalized.1 then imageCodecFindByExtension stb table normalized.2 else none
  match named with
  | some codec => some (codec,some normalized.2)
  | none =>
    let format := (props.map BitmapProperties.format).getD formatPng
    let requested := if format = formatRaw ∨ format ≥ formatCount then formatPng else format
    (imageCodecGet stb table requested).map fun codec =>
      let default := bitmapNormalizeExtension (bitmapDefaultExtension codec) normalized.2
      (codec,if default.1 then some default.2 else (bitmapDefaultExtension codec).map fun text => cString text ++ [0])

end Names

section Found
variable (stb : StbAdapter) (table : CodecTable)

/-- The tag leads back to the codec. -/
def TagFinds (codec : ImageCodec) : Prop :=
  imageCodecFindByExtension stb table (bitmapTagToString (bitmapExtensionTag (bitmapExtensionBytes (bitmapDefaultExtension codec)))) =
    some codec

/-- The signature leads back to the codec. -/
def SignatureFinds (extension : List UInt8) (codec : ImageCodec) : Prop :=
  ∃ signature, bitmapBuildSignature extension = .ok signature ∧ bitmapExtensionFromSignature signature ≠ [] ∧
    imageCodecFindByExtension stb table (bitmapExtensionFromSignature signature) = some codec

variable {stb} {codec : ImageCodec}

theorem slots_builtin (format : BitmapFormat) : (imageCodecRegisterBuiltin stb {}).slots format =
    if format = formatJpg then some (jpgCodec stb) else if format = formatTga then some (tgaCodec stb)
    else if format = formatBmp then some (bmpCodec stb) else if format = formatPng then some (pngCodec stb) else none := by
  have slots : (imageCodecRegisterBuiltin stb {}).slots = Function.update (Function.update (Function.update (Function.update
      (fun _ => none) formatPng (some (pngCodec stb))) formatBmp (some (bmpCodec stb))) formatTga (some (tgaCodec stb)))
        formatJpg (some (jpgCodec stb)) := rfl
  simp only [slots,Function.update_apply]

theorem findSome_if {α β : Type} {f : α → Option β} {a : α} {rest : List α} {named : Prop} [Decidable named] {b : β}
    (here : f a = if named then some b else none) : (a :: rest).findSome? f = if named then some b else rest.findSome? f := by
  rw [List.findSome?_cons,here]
  by_cases yes : named
  · rw [if_pos yes,if_pos yes]
  · rw [if_neg yes,if_neg yes]

theorem findSome_absent {α β : Type} {f : α → Option β} {a : α} {rest : List α} (here : f a = none) :
    (a :: rest).findSome? f = rest.findSome? f := by
  rw [List.findSome?_cons,here]

/-- A lookup among the codecs that are there from the start goes by the small letters. -/
theorem find_builtin (extension : List UInt8) : imageCodecFindByExtension stb {} extension =
    if (cString extension).map tolower = [98,109,112] then some (bmpCodec stb)
    else if (cString extension).map tolower = [106,112,103] ∨ (cString extension).map tolower = [106,112,101,103] then
      some (jpgCodec stb)
    else if (cString extension).map tolower = [112,110,103] then some (pngCodec stb)
    else if (cString extension).map tolower = [116,103,97] then some (tgaCodec stb)
    else none := by
  have lower (own : List UInt8) (letters : List UInt8) (same : (cString own).map tolower = letters) :
      extensionEquals own extension = decide ((cString extension).map tolower = letters) := by
    rw [extensionEquals,same,Bool.beq_eq_decide_eq,decide_eq_decide]
    exact eq_comm
  have formats : List.range formatCount = [0,formatBmp,formatJpg,formatPng,formatTga,5,6,7,8,9] := rfl
  have bmp : (bmpCodec stb).extensions.any (fun own => own.any fun text => extensionEquals text extension) =
      decide ((cString extension).map tolower = [98,109,112]) := by
    simp only [bmpCodec,builtinCodec,List.any_cons,List.any_nil,Option.any_some,Option.any_none,Bool.or_false,
      lower [66,77,80] [98,109,112] (by decide),lower [98,109,112] [98,109,112] (by decide),Bool.or_self]
  have jpg : (jpgCodec stb).extensions.any (fun own => own.any fun text => extensionEquals text extension) =
      (decide ((cString extension).map tolower = [106,112,103]) || decide ((cString extension).map tolower = [106,112,101,103])) := by
    simp only [jpgCodec,builtinCodec,List.any_cons,List.any_nil,Option.any_some,Option.any_none,Bool.or_false,
      lower [74,80,71] [106,112,103] (by decide),lower [74,80,69,71] [106,112,101,103] (by decide),
      lower [106,112,103] [106,112,103] (by decide)]
    exact Bool.or_comm _ _ |>.trans (by rw [Bool.or_assoc,Bool.or_self]; exact Bool.or_comm _ _)
  have png : (pngCodec stb).extensions.any (fun own => own.any fun text => extensionEquals text extension) =
      decide ((cString extension).map tolower = [112,110,103]) := by
    simp only [pngCodec,builtinCodec,List.any_cons,List.any_nil,Option.any_some,Option.any_none,Bool.or_false,
      lower [80,78,71] [112,110,103] (by decide),lower [112,110,103] [112,110,103] (by decide),Bool.or_self]
  have tga : (tgaCodec stb).extensions.any (fun own => own.any fun text => extensionEquals text extension) =
      decide ((cString extension).map tolower = [116,103,97]) := by
    simp only [tgaCodec,builtinCodec,List.any_cons,List.any_nil,Option.any_some,Option.any_none,Bool.or_false,
      lower [84,71,65] [116,103,97] (by decide),lower [116,103,97] [116,103,97] (by decide),Bool.or_self]
  have step {format : BitmapFormat} {codec : ImageCodec} (there : (imageCodecRegisterBuiltin stb {}).slots format = some codec)
      {named : Prop} [Decidable named]
      (names : codec.extensions.any (fun own => own.any fun text => extensionEquals text extension) = decide named) :
      namedCodec stb {} extension format = if named then some codec else none := by
    rw [namedCodec,there,Option.bind_some,names]
    exact ite_congr (decide_eq_true_iff.eq) (fun _ => rfl) fun _ => rfl
  have absent {format : BitmapFormat} (none' : (imageCodecRegisterBuiltin stb {}).slots format = none) :
      namedCodec stb {} extension format = none := by
    rw [namedCodec,none',Option.bind_none]
  rw [← Bool.decide_or] at jpg
  rw [imageCodecFindByExtension,formats,findSome_absent (absent (slots_builtin 0)),findSome_if (step (slots_builtin formatBmp) bmp),
    findSome_if (step (slots_builtin formatJpg) jpg),findSome_if (step (slots_builtin formatPng) png),
    findSome_if (step (slots_builtin formatTga) tga),findSome_absent (absent (slots_builtin 5)),
    findSome_absent (absent (slots_builtin 6)),findSome_absent (absent (slots_builtin 7)),
    findSome_absent (absent (slots_builtin 8)),findSome_absent (absent (slots_builtin 9)),List.findSome?_nil]

theorem get_builtin {format : BitmapFormat} (got : imageCodecGet stb {} format = some codec) :
    codec = pngCodec stb ∨ codec = bmpCodec stb ∨ codec = tgaCodec stb ∨ codec = jpgCodec stb := by
  unfold imageCodecGet at got
  split at got
  · cases got
  · rw [slots_builtin] at got
    split at got
    · exact .inr (.inr (.inr (Option.some.inj got).symm))
    · split at got
      · exact .inr (.inr (.inl (Option.some.inj got).symm))
      · split at got
        · exact .inr (.inl (Option.some.inj got).symm)
        · split at got
          · exact .inl (Option.some.inj got).symm
          · cases got

theorem tags_builtin {format : BitmapFormat} (got : imageCodecGet stb {} format = some codec) : TagFinds stb {} codec := by
  have tag (name : List UInt8) (default : bitmapDefaultExtension codec = some name) :
      TagFinds stb {} codec ↔ imageCodecFindByExtension stb {} (bitmapTagToString (bitmapExtensionTag
        (bitmapExtensionBytes (some name)))) = some codec := by rw [TagFinds,default]
  rcases get_builtin got with rfl | rfl | rfl | rfl
  · rw [tag [80,78,71] rfl,find_builtin,if_neg (by decide),if_neg (by decide),if_pos (by decide)]
  · rw [tag [66,77,80] rfl,find_builtin,if_pos (by decide)]
  · rw [tag [84,71,65] rfl,find_builtin,if_neg (by decide),if_neg (by decide),if_neg (by decide),if_pos (by decide)]
  · rw [tag [74,80,71] rfl,find_builtin,if_neg (by decide),if_pos (by decide)]

theorem tolower_toNat (byte : UInt8) : (tolower byte).toNat = if 65 ≤ byte.toNat ∧ byte.toNat ≤ 90 then byte.toNat + 32 else byte.toNat := by
  have capital : (65 ≤ byte ∧ byte ≤ 90) ↔ 65 ≤ byte.toNat ∧ byte.toNat ≤ 90 := Iff.rfl
  rw [tolower]
  by_cases big : 65 ≤ byte ∧ byte ≤ 90
  · have bound := (capital.mp big).2
    rw [if_pos big,if_pos (capital.mp big),UInt8.toNat_add]
    exact Nat.mod_eq_of_lt (show byte.toNat + 32 < 2 ^ 8 by omega)
  · rw [if_neg big,if_neg (capital.not.mp big)]

theorem tolower_small (byte : UInt8) : tolower (tolower byte) = tolower byte := by
  apply UInt8.toNat_inj.mp
  rw [tolower_toNat (tolower byte),tolower_toNat byte]
  by_cases capital : 65 ≤ byte.toNat ∧ byte.toNat ≤ 90
  · rw [if_pos capital,if_neg (by omega)]
  · rw [if_neg capital,if_neg capital]

theorem tolower_ne_zero {byte : UInt8} (there : byte ≠ 0) : tolower byte ≠ 0 := by
  intro zero
  have same := congrArg UInt8.toNat zero
  have positive : byte.toNat ≠ 0 := fun none => there (UInt8.toNat_inj.mp none)
  rw [tolower_toNat,UInt8.toNat_zero] at same
  split at same <;> omega

/-- A buffer that was normalized holds up to three small letters, or what else is no capital, with a terminator. -/
theorem normalized_letters (extension : Option (List UInt8)) (buffer : List UInt8) (four : buffer.length = 4) :
    ∃ kept, kept.length ≤ 3 ∧ (∀ ch ∈ kept, tolower ch = ch ∧ ch ≠ 0) ∧
      (bitmapNormalizeExtension extension buffer).2 = kept ++ 0 :: buffer.drop (kept.length + 1) := by
  cases extension with
  | none => exact ⟨[],Nat.zero_le _,List.forall_mem_nil _,by simp [bitmapNormalizeExtension,overwrite]⟩
  | some text =>
    refine ⟨((if (cString text).head? = some 46 then (cString text).drop 1 else cString text).take 3).map tolower,?_,?_,?_⟩
    · rw [List.length_map,List.length_take]
      exact Nat.min_le_left _ _
    · intro ch member
      obtain ⟨own,inside,rfl⟩ := List.mem_map.mp member
      refine ⟨tolower_small own,tolower_ne_zero ?_⟩
      have within : own ∈ cString text := by
        have cursor := List.mem_of_mem_take inside
        split at cursor
        · exact List.mem_of_mem_drop cursor
        · exact cursor
      exact of_decide_eq_true (List.mem_takeWhile_imp (p := fun ch => decide (ch ≠ 0)) within)
    · simp only [bitmapNormalizeExtension,overwrite,List.take_zero,List.nil_append,List.length_append,List.length_singleton,
        Nat.zero_add,List.append_assoc,List.singleton_append]

theorem cString_terminated {kept rest : List UInt8} (letters : ∀ ch ∈ kept, tolower ch = ch ∧ ch ≠ 0) :
    (cString (kept ++ 0 :: rest)).map tolower = kept := by
  have text : cString (kept ++ 0 :: rest) = kept := by
    rw [cString,List.takeWhile_append_of_pos fun ch member => decide_eq_true (letters ch member).2,List.takeWhile_cons_of_neg (by decide),
      List.append_nil]
  rw [text]
  exact (List.map_congr_left fun ch member => (letters ch member).1).trans (List.map_id kept)

theorem built {letters rest signature : List UInt8} (three : letters.length = 3)
    (same : [67,75] ++ (letters.map fun ch => toupper (if ch ≠ 0 then ch else 32)) = signature) :
    bitmapBuildSignature (letters ++ 0 :: rest) = .ok signature := by
  rw [bitmapBuildSignature,if_neg (by rw [List.length_append]; omega),List.take_left' three,same]

/-- The four names in small letters. -/
theorem signature_builtin (letters : List UInt8) {rest : List UInt8} (found : letters = [98,109,112] ∧ codec = bmpCodec stb ∨
    letters = [106,112,103] ∧ codec = jpgCodec stb ∨ letters = [112,110,103] ∧ codec = pngCodec stb ∨
    letters = [116,103,97] ∧ codec = tgaCodec stb) : SignatureFinds stb {} (letters ++ 0 :: rest) codec := by
  rcases found with ⟨rfl,rfl⟩ | ⟨rfl,rfl⟩ | ⟨rfl,rfl⟩ | ⟨rfl,rfl⟩
  · refine ⟨[67,75,66,77,80],?_,by decide,?_⟩
    · exact built rfl (by decide)
    · rw [find_builtin,if_pos (by decide)]
  · refine ⟨[67,75,74,80,71],?_,by decide,?_⟩
    · exact built rfl (by decide)
    · rw [find_builtin,if_neg (by decide),if_pos (by decide)]
  · refine ⟨[67,75,80,78,71],?_,by decide,?_⟩
    · exact built rfl (by decide)
    · rw [find_builtin,if_neg (by decide),if_neg (by decide),if_pos (by decide)]
  · refine ⟨[67,75,84,71,65],?_,by decide,?_⟩
    · exact built rfl (by decide)
    · rw [find_builtin,if_neg (by decide),if_neg (by decide),if_neg (by decide),if_pos (by decide)]

theorem default_builtin {own : ImageCodec} {letters buffer : List UInt8} (name : List UInt8) (default : bitmapDefaultExtension own = some name)
    (plain : (cString name).head? ≠ some 46) (lower : ((cString name).take 3).map tolower = letters) (some' : letters.isEmpty = false)
    (found : ∀ rest, SignatureFinds stb {} (letters ++ 0 :: rest) own) :
    ∃ text, (if (bitmapNormalizeExtension (bitmapDefaultExtension own) buffer).1 then
        some (bitmapNormalizeExtension (bitmapDefaultExtension own) buffer).2
      else (bitmapDefaultExtension own).map fun text => cString text ++ [0]) = some text ∧ SignatureFinds stb {} text own := by
  have normal : bitmapNormalizeExtension (some name) buffer = (true,letters ++ 0 :: buffer.drop (letters.length + 1)) := by
    rw [bitmapNormalizeExtension,if_neg plain,lower,some']
    simp only [overwrite,List.take_zero,List.nil_append,List.length_append,List.length_singleton,Nat.zero_add,List.append_assoc,
      List.singleton_append,Bool.not_false]
  rw [default,normal]
  exact ⟨_,rfl,found _⟩

theorem signatures_builtin {props : Option BitmapProperties} {extension : Option (List UInt8)}
    (chosen : bitmapResolveCodec stb {} props = some (codec,extension)) :
    ∃ text, extension = some text ∧ SignatureFinds stb {} text codec := by
  unfold bitmapResolveCodec at chosen
  dsimp only at chosen
  obtain ⟨kept,short,letters,normal⟩ := normalized_letters
    ((props.bind BitmapProperties.extension).filter fun text => !(cString text).isEmpty) [0,0,0,0] rfl
  split at chosen
  · rename_i found named
    obtain ⟨rfl,rfl⟩ := Prod.mk.inj (Option.some.inj chosen)
    refine ⟨_,rfl,?_⟩
    rw [normal] at named ⊢
    split at named
    · rw [find_builtin,cString_terminated letters] at named
      refine signature_builtin kept ?_
      split at named
      · exact .inl ⟨‹_›,(Option.some.inj named).symm⟩
      · split at named
        · rename_i jpg
          rcases jpg with jpg | jpeg
          · exact .inr (.inl ⟨jpg,(Option.some.inj named).symm⟩)
          · rw [jpeg] at short
            exact absurd short (by decide)
        · split at named
          · exact .inr (.inr (.inl ⟨‹_›,(Option.some.inj named).symm⟩))
          · split at named
            · exact .inr (.inr (.inr ⟨‹_›,(Option.some.inj named).symm⟩))
            · cases named
    · cases named
  · obtain ⟨own,got,same⟩ := Option.map_eq_some_iff.mp chosen
    obtain ⟨rfl,rfl⟩ := Prod.mk.inj same
    rcases get_builtin got with rfl | rfl | rfl | rfl
    · exact default_builtin [80,78,71] rfl (by decide) (by decide) (by decide) fun rest =>
        signature_builtin [112,110,103] (.inr (.inr (.inl ⟨rfl,rfl⟩)))
    · exact default_builtin [66,77,80] rfl (by decide) (by decide) (by decide) fun rest =>
        signature_builtin [98,109,112] (.inl ⟨rfl,rfl⟩)
    · exact default_builtin [84,71,65] rfl (by decide) (by decide) (by decide) fun rest =>
        signature_builtin [116,103,97] (.inr (.inr (.inr ⟨rfl,rfl⟩)))
    · exact default_builtin [74,80,71] rfl (by decide) (by decide) (by decide) fun rest =>
        signature_builtin [106,112,103] (.inr (.inl ⟨rfl,rfl⟩))

end Found

end Libnmo.Format
