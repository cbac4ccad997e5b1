import Libnmo.Schema.MaterialStates
import Libnmo.Schema.ParsedSections

/-! Materials and textures read back. A reader looks for a section in all words of the chunk,
those of the sections before it among them, so that a colour or a palette entry that equals
an identifier moves the section; what the words then hold decides. -/
namespace Libnmo.Schema
open Core Format Lib Lib.LittleEndian Lib.Cursor

section Reads
variable {α : Type} {base : Chunk} {read : Run Chunk α}

theorem determines_section {identifier : UInt32} {missing : α} {fits : α → List UInt32 → Prop}
    (reads : ∀ rest, Determines (Placed base rest) (InMemory base) read (fits · rest)) :
    Determines (InMemory base) (InMemory base) (loadSection identifier missing read)
      (SectionIn identifier base.words missing fits) := by
  refine (determines_found (fun rest => determines_bind (reads rest) fun value => determines_pure (value,true))
    (determines_pure (missing,false))).congr fun found => ?_
  obtain ⟨value,present⟩ := found
  rw [SectionIn]
  cases first : behind identifier base.words with
  | none =>
    have nowhere := behind_none.mp first
    cases present with
    | true => simp
    | false => simp [nowhere]
  | some rest =>
    have there : identifier ∈ base.words := by
      by_contra missing
      rw [behind_none.mpr missing] at first
      cases first
    cases present with
    | true => simp [first]
    | false => simp [there]

end Reads

section Material
variable {around : Surroundings} {base : Chunk}

def MaterialColor.dwords (color : MaterialColor) : List UInt32 := [color.r,color.g,color.b,color.a]

def MaterialColors.dwords (s : MaterialColors) : List UInt32 :=
  s.ambient.dwords ++ (s.diffuse.dwords ++ (s.specular.dwords ++ (s.emissive.dwords ++ [s.specularPower])))

theorem parses_color : Parses (Placed base) readColor fun color input => input = color.dwords := by
  refine (parses_after parses_float fun r => parses_after parses_float fun g => parses_after parses_float fun b =>
    parses_return parses_float).congr fun color input => ⟨?_,?_⟩
  · rintro ⟨r,_,rfl,g,_,rfl,b,_,rfl,a,rfl,rfl⟩
    rfl
  · rintro rfl
    exact ⟨_,_,rfl,_,_,rfl,_,_,rfl,_,rfl,rfl⟩

theorem parses_colors : Parses (Placed base) deserializeColors fun s input => input = s.dwords := by
  refine (parses_after parses_color fun ambient => parses_after parses_color fun diffuse => parses_after parses_color fun specular =>
    parses_after parses_color fun emissive => parses_return parses_float).congr fun s input => ⟨?_,?_⟩
  · rintro ⟨ambient,_,rfl,diffuse,_,rfl,specular,_,rfl,emissive,_,rfl,power,rfl,rfl⟩
    rfl
  · rintro rfl
    exact ⟨_,_,rfl,_,_,rfl,_,_,rfl,_,_,rfl,_,rfl,rfl⟩

/-- The words behind the count. -/
def MaterialTextures.dwords (s : MaterialTextures) : List UInt32 :=
  s.textureIds.toList.take s.textureCount.toNat ++
    [s.textureBlendMode,s.textureMinMode,s.textureMagMode,s.textureAddressMode,s.textureBorderColor]

/-- A count above four stands for four, and the entries behind the count are zero. -/
structure TexturesHold (s : MaterialTextures) (input : List UInt32) : Prop where
  stored : ∃ count, s.textureCount = clampedCount count ∧ input = count :: s.dwords
  unused : ∀ i : Fin 4, s.textureCount.toNat ≤ i → s.textureIds[i] = 0

theorem clampedCount_le (count : UInt32) : (clampedCount count).toNat ≤ 4 := by
  unfold clampedCount
  split
  · decide
  · rename_i small
    exact UInt32.le_iff_toNat_le.mp (UInt32.not_lt.mp small)

theorem storedIds_eq {ids : List UInt32} {entries : Vector UInt32 4} {count : Nat} (few : count ≤ 4) :
    (ids.length = count ∧ storedIds ids = entries) ↔
      ids = entries.toList.take count ∧ ∀ i : Fin 4, count ≤ i → entries[i] = 0 := by
  constructor
  · rintro ⟨rfl,rfl⟩
    refine ⟨?_,fun i unused => ?_⟩
    · refine List.ext_getElem ?_ fun i inside _ => ?_
      · rw [List.length_take,Vector.length_toList,Nat.min_eq_left few]
      · simp only [List.getElem_take,Vector.getElem_toList,storedIds,Vector.getElem_ofFn]
        exact (List.getD_eq_getElem _ _ inside).symm
    · simp only [storedIds,Fin.getElem_fin,Vector.getElem_ofFn]
      exact List.getD_eq_default _ _ unused
  · rintro ⟨rfl,unused⟩
    have length : (entries.toList.take count).length = count := by
      rw [List.length_take,Vector.length_toList,Nat.min_eq_left few]
    refine ⟨length,Vector.ext fun i inside => ?_⟩
    rw [storedIds,Vector.getElem_ofFn]
    by_cases used : i < count
    · rw [List.getD_eq_getElem _ _ (by rw [length]; exact used),List.getElem_take,Vector.getElem_toList]
    · rw [List.getD_eq_default _ _ (by rw [length]; exact Nat.le_of_not_lt used)]
      exact (unused ⟨i,inside⟩ (Nat.le_of_not_lt used)).symm

theorem parses_textures : Parses (Placed base) deserializeTextures TexturesHold := by
  refine (parses_after parses_dword fun count => parses_bind (parses_times parses_objectId _) fun ids =>
    parses_after parses_dword fun blend => parses_after parses_dword fun min => parses_after parses_dword fun mag =>
    parses_after parses_dword fun address => parses_return parses_dword).congr fun s input => ⟨?_,?_⟩
  · rintro ⟨count,_,rfl,ids,_,_,rfl,⟨many,rfl⟩,blend,_,rfl,min,_,rfl,mag,_,rfl,address,_,rfl,border,rfl,rfl⟩
    obtain ⟨first,unused⟩ := (storedIds_eq (clampedCount_le count)).mp ⟨many,rfl⟩
    refine ⟨⟨count,rfl,?_⟩,unused⟩
    rw [MaterialTextures.dwords,← first,List.map_id']
    rfl
  · rintro ⟨⟨count,same,rfl⟩,unused⟩
    rw [same] at unused
    obtain ⟨many,stored⟩ := (storedIds_eq (clampedCount_le count)).mpr ⟨rfl,unused⟩
    refine ⟨count,_,rfl,_,_,_,rfl,⟨many,?_⟩,_,_,rfl,_,_,rfl,_,_,rfl,_,_,rfl,_,?_,rfl⟩
    · rw [List.map_id',same]
    · rw [stored,← same]

/-- Any word but zero is true. -/
def FlagWord (flag : Bool) (word : UInt32) : Prop := flag = true ↔ word ≠ 0

structure RenderingHolds (s : MaterialRendering) (input : List UInt32) : Prop where
  stored : ∃ test ref blend zwrite ztest sides : UInt32, FlagWord s.alphaTestEnabled test ∧ s.alphaRef = ref.toUInt8 ∧
    FlagWord s.blendEnabled blend ∧ FlagWord s.zwriteEnabled zwrite ∧ FlagWord s.ztestEnabled ztest ∧
    FlagWord s.twoSided sides ∧ input = [s.shadeMode,s.fillMode,test,s.alphaFunc,ref,blend,s.srcBlend,s.destBlend,zwrite,ztest,sides]

theorem parses_flag : Parses (Placed base) readFlag fun flag input => ∃ word, FlagWord flag word ∧ input = [word] := by
  refine (parses_return parses_dword).congr fun flag input => ?_
  have whole (word : UInt32) : flag = (word != 0) ↔ FlagWord flag word := by
    rw [FlagWord,Bool.eq_iff_iff,bne_iff_ne]
  constructor
  · rintro ⟨word,same,rfl⟩
    exact ⟨word,(whole word).mp same,rfl⟩
  · rintro ⟨word,same,rfl⟩
    exact ⟨word,(whole word).mpr same,rfl⟩

theorem parses_rendering : Parses (Placed base) deserializeRendering RenderingHolds := by
  refine (parses_after parses_dword fun shade => parses_after parses_dword fun fill => parses_bind parses_flag fun test =>
    parses_after parses_dword fun func => parses_after parses_dword fun ref => parses_bind parses_flag fun blend =>
    parses_after parses_dword fun src => parses_after parses_dword fun dest => parses_bind parses_flag fun zwrite =>
    parses_bind parses_flag fun ztest => parses_return parses_flag).congr fun s input => ⟨?_,?_⟩
  · rintro ⟨shade,_,rfl,fill,_,rfl,_,_,_,rfl,⟨test,test',rfl⟩,func,_,rfl,ref,_,rfl,_,_,_,rfl,⟨blend,blend',rfl⟩,src,_,rfl,
      dest,_,rfl,_,_,_,rfl,⟨zwrite,zwrite',rfl⟩,_,_,_,rfl,⟨ztest,ztest',rfl⟩,_,rfl,⟨sides,sides',rfl⟩⟩
    exact ⟨test,ref,blend,zwrite,ztest,sides,test',rfl,blend',zwrite',ztest',sides',rfl⟩
  · rintro ⟨test,ref,blend,zwrite,ztest,sides,test',ref',blend',zwrite',ztest',sides',rfl⟩
    refine ⟨_,_,rfl,_,_,rfl,_,_,_,rfl,⟨test,test',rfl⟩,_,_,rfl,ref,_,rfl,_,_,_,rfl,⟨blend,blend',rfl⟩,_,_,rfl,_,_,rfl,
      _,_,_,rfl,⟨zwrite,zwrite',rfl⟩,_,_,_,rfl,⟨ztest,ztest',rfl⟩,_,?_,⟨sides,sides',rfl⟩⟩
    rw [← ref']

def flagWord (flag : Bool) : UInt32 := if flag then 1 else 0

def MaterialRendering.dwords (s : MaterialRendering) : List UInt32 :=
  [s.shadeMode,s.fillMode,flagWord s.alphaTestEnabled,s.alphaFunc,s.alphaRef.toUInt32,flagWord s.blendEnabled,s.srcBlend,s.destBlend,
    flagWord s.zwriteEnabled,flagWord s.ztestEnabled,flagWord s.twoSided]

def materialWords (s : CkMaterialState) : List UInt32 :=
  (if s.hasColors then materialIdentifierColors :: s.colors.dwords else []) ++
    ((if s.hasTextures ∧ s.textures.textureCount > 0 then
        materialIdentifierTextures :: s.textures.textureCount :: s.textures.dwords else []) ++
      (if s.hasRenderingSettings then materialIdentifierRendering :: s.rendering.dwords else []))

/-- Where an identifier is first found, among the words of whatever section, the words of its section follow. -/
structure MaterialPlain (s : CkMaterialState) : Prop where
  colors : SectionIn materialIdentifierColors (materialWords s) {} (Begins fun colors input => input = colors.dwords)
    (s.colors,s.hasColors)
  textures : SectionIn materialIdentifierTextures (materialWords s) {} (Begins TexturesHold) (s.textures,s.hasTextures)
  rendering : SectionIn materialIdentifierRendering (materialWords s) {} (Begins RenderingHolds)
    (s.rendering,s.hasRenderingSettings)

def MaterialKept (around : Surroundings) (s : CkMaterialState) : Prop :=
  startedBack around (ckmaterialSerializeModern around s) ckmaterialDeserializeModern = .ok s

theorem determines_material : Determines (InMemory base) (InMemory base) ckmaterialDeserializeModern fun s =>
    SectionIn materialIdentifierColors base.words {} (Begins fun colors input => input = colors.dwords) (s.colors,s.hasColors) ∧
    SectionIn materialIdentifierTextures base.words {} (Begins TexturesHold) (s.textures,s.hasTextures) ∧
    SectionIn materialIdentifierRendering base.words {} (Begins RenderingHolds) (s.rendering,s.hasRenderingSettings) := by
  refine (determines_bind (determines_section (begins parses_colors)) fun colors =>
    determines_bind (determines_section (begins parses_textures)) fun textures =>
    determines_bind (determines_section (begins parses_rendering)) fun rendering => determines_pure _).congr fun s => ⟨?_,?_⟩
  · rintro ⟨colors,coloured,textures,textured,rendering,rendered,rfl⟩
    exact ⟨coloured,textured,rendered⟩
  · rintro ⟨coloured,textured,rendered⟩
    exact ⟨_,coloured,_,textured,_,rendered,rfl⟩

theorem as_color (color : MaterialColor) : WritesAs 4 (· = color.dwords) (writeColor around color) :=
  as_then (as_writeWords [_]) (as_then (as_writeWords [_]) (as_then (as_writeWords [_]) (as_writeWords [_])))

theorem as_colors (s : MaterialColors) : WritesAs 18 (· = materialIdentifierColors :: s.dwords) (saveColors around s) :=
  as_then (as_identifier _) (as_then (as_color _) (as_then (as_color _) (as_then (as_color _) (as_then (as_color _)
    (as_writeWords [_])))))

theorem as_textures {s : MaterialTextures} (few : s.textureCount.toNat ≤ 4) :
    WritesAs 11 (· = materialIdentifierTextures :: s.textureCount :: s.dwords) (saveTextures around s) := by
  have enough : s.textureCount.toNat ≤ s.textureIds.toList.length := by
    rw [Vector.length_toList]
    exact few
  have ids := as_firstOf (@as_objectId around) enough
  rw [List.map_id'] at ids
  refine (as_then (as_identifier _) (as_then (as_writeWords [_]) (as_then ids (as_then (as_writeWords [_]) (as_then
    (as_writeWords [_]) (as_then (as_writeWords [_]) (as_then (as_writeWords [_]) (as_writeWords [_])))))))).mono ?_
  simp only [List.length_singleton]
  omega

theorem as_rendering (s : MaterialRendering) :
    WritesAs 12 (· = materialIdentifierRendering :: s.dwords) (saveRendering around s) :=
  as_then (as_identifier _) (as_then (as_writeWords [_]) (as_then (as_writeWords [_]) (as_then (as_writeWords [_])
    (as_then (as_writeWords [_]) (as_then (as_writeWords [_]) (as_then (as_writeWords [_]) (as_then (as_writeWords [_])
    (as_then (as_writeWords [_]) (as_then (as_writeWords [_]) (as_then (as_writeWords [_]) (as_writeWords [_])))))))))))

theorem as_material {s : CkMaterialState} (few : s.textures.textureCount.toNat ≤ 4) :
    WritesAs 41 (· = materialWords s) (ckmaterialSerializeModern around s) :=
  as_then (as_if fun _ => as_colors s.colors) (as_then (as_if fun _ => as_textures few) (as_if fun _ => as_rendering s.rendering))

theorem few_textures {s : CkMaterialState} {fits : List UInt32}
    (textured : SectionIn materialIdentifierTextures fits {} (Begins TexturesHold) (s.textures,s.hasTextures)) :
    s.textures.textureCount.toNat ≤ 4 := by
  unfold SectionIn at textured
  split at textured
  · obtain ⟨rest,_,input,_,⟨count,same,_⟩,_⟩ := textured
    rw [same]
    exact clampedCount_le count
  · have missing : s.textures = {} := textured.2
    rw [missing]
    decide

theorem materialKept_iff (s : CkMaterialState) : MaterialKept around s ↔ MaterialPlain s := by
  have plain (few : s.textures.textureCount.toNat ≤ 4) : MaterialKept around s ↔ MaterialPlain s := by
    rw [MaterialKept,startedBack_iff (as_material few) (by decide) fun _ => determines_material,
      writtenWords_of (as_material few) (by decide)]
    exact ⟨fun ⟨coloured,textured,rendered⟩ => ⟨coloured,textured,rendered⟩,
      fun plain => ⟨plain.colors,plain.textures,plain.rendering⟩⟩
  constructor
  · intro kept
    obtain ⟨_,c,_,_,fresh,_,ran⟩ := readBack_success kept
    exact (plain (few_textures (determines_material.only (placed_fresh fresh).inMemory ran).1.2.1)).mp kept
  · intro held
    exact (plain (few_textures held.textures)).mpr held

end Material

section Memory
variable {base : Chunk} {rest : List UInt32}

/-- The text of a path, or none where its size is zero, is not there, or goes beyond the data. -/
inductive TextIn (spare : List UInt32) : Option (List UInt8) → List UInt32 → Prop
  | ended : TextIn spare none []
  | missing {size : UInt32} {more : List UInt32} (bad : size = 0 ∨ more.length < roundedDwords size) :
    TextIn spare none (size :: more)
  | text {size : UInt32} {more : List UInt32} {bytes : List UInt8} (some : size ≠ 0)
    (behind : BytesBehind spare size more bytes) : TextIn spare (Option.some (bytes.takeWhile (· ≠ 0))) (size :: more)

theorem determines_text : Determines (Placed base rest) (InMemory base) deserializeFilePath (TextIn base.spare · rest) := by
  have body (size : UInt32) : Threads (Stood base.words) (if size = 0 then pure (none,0) else do
      let enough ← canRead base.words (roundedDwords size)
      (if enough then do
        let str ← copyOut base.words base.spare size.toNat (roundedDwords size)
        pure (some str,size.toNat - 1)
      else pure (none,0)) : Run Nat (Option (List UInt8) × Nat)) fun value more after =>
        (size = 0 ∨ more.length < roundedDwords size) ∧ value = (none,0) ∧ after = more ∨
        size ≠ 0 ∧ ∃ bytes, BytesBehind base.spare size more bytes ∧ value = (some bytes,size.toNat - 1) ∧
          after = more.drop (roundedDwords size) := by
    by_cases zero : size = 0
    · rw [if_pos zero]
      exact (threads_pure _).congr fun value more after => by simp [zero]
    · rw [if_neg zero]
      exact (threads_copy _ _ size).congr fun value more after => by simp [zero]
  have sized : Threads (Stood base.words) (chunkReadString base.words base.spare) _ := threads_sized body
  have threads : Threads (Stood base.words) (readText base.words base.spare) _ :=
    threads_bind sized fun found => threads_pure (found.1.map fun bytes => bytes.takeWhile (· ≠ 0))
  refine ((threads_onPosition threads).determines (fun _ _ placed => placed.inMemory) rest).congr fun text => ⟨?_,?_⟩
  · rintro ⟨after,_,_,⟨rfl,rfl,rfl⟩ | ⟨size,more,rfl,⟨bad,rfl,rfl⟩ | ⟨some,bytes,behind,rfl,rfl⟩⟩,rfl,rfl⟩
    · exact .ended
    · exact .missing bad
    · exact .text some behind
  · intro held
    cases held with
    | ended => exact ⟨_,_,_,.inl ⟨rfl,rfl,rfl⟩,rfl,rfl⟩
    | missing bad => exact ⟨_,_,_,.inr ⟨_,_,rfl,.inl ⟨bad,rfl,rfl⟩⟩,rfl,rfl⟩
    | text some behind => exact ⟨_,_,_,.inr ⟨_,_,rfl,.inr ⟨some,_,behind,rfl,rfl⟩⟩,rfl,rfl⟩

/-- The bytes of a block behind its size, which is there twice where it is not zero. -/
inductive BlockIn (spare : List UInt32) : List UInt8 → List UInt32 → Prop
  | empty (more : List UInt32) : BlockIn spare [] (0 :: more)
  | block {size : UInt32} {more : List UInt32} {bytes : List UInt8} (some : size ≠ 0)
    (behind : BytesBehind spare size more bytes) : BlockIn spare bytes (size :: size :: more)

theorem determines_filled {incomplete : String} {size : UInt32} (some : size ≠ 0) (rest : List UInt32) :
    Determines (Placed base rest) (InMemory base) (do
      let (bytes,bytesRead) ← onPosition fun data spare => chunkReadAndFillBuffer data spare size.toNat
      (if bytesRead ≠ size.toNat then fail .invalidFormat incomplete else pure bytes)) fun bytes =>
        ∃ more, rest = size :: more ∧ BytesBehind base.spare size more bytes := by
  have positive : 0 ≠ size.toNat := fun zero => some (UInt32.toNat_inj.mp zero.symm)
  have filled : Determines (Placed base rest) (InMemory base) (onPosition fun data spare =>
      chunkReadAndFillBuffer data spare size.toNat) fun found => ∃ after, FillStep base.spare size.toNat found rest after :=
    (threads_onPosition (threads_fill size.toNat)).determines (fun _ _ placed => placed.inMemory) rest
  refine (determines_bind filled fun found => determines_check found.1).congr fun bytes => ⟨?_,?_⟩
  · rintro ⟨found,⟨after,held⟩,whole,rfl⟩
    rw [not_not] at whole
    cases held with
    | ended => exact absurd whole positive
    | refused => exact absurd whole positive
    | filled _ _ behind =>
      obtain rfl := UInt32.toNat_inj.mp whole
      exact ⟨_,rfl,behind⟩
  · rintro ⟨more,rfl,behind⟩
    exact ⟨(bytes,size.toNat),⟨_,.filled some (Nat.le_refl _) behind⟩,not_not.mpr rfl,rfl⟩

theorem determines_block {noSize incomplete : String} (rest : List UInt32) :
    Determines (Placed base rest) (InMemory base) (deserializeBlock noSize incomplete) (BlockIn base.spare · rest) := by
  have body (size : UInt32) (rest : List UInt32) : Determines (Placed base rest) (InMemory base)
      (if size > 0 then do
        let (bytes,bytesRead) ← onPosition fun data spare => chunkReadAndFillBuffer data spare size.toNat
        (if bytesRead ≠ size.toNat then fail .invalidFormat incomplete else pure bytes)
      else pure []) fun bytes => if size = 0 then bytes = [] else ∃ more, rest = size :: more ∧ BytesBehind base.spare size more bytes := by
    by_cases zero : size = 0
    · rw [if_neg (by rw [zero]; decide)]
      exact ((determines_pure []).mono (fun _ placed => placed) fun _ placed => placed.inMemory).congr fun bytes => by
        rw [if_pos zero]
    · rw [if_pos (UInt32.pos_iff_ne_zero.mpr zero)]
      exact (determines_filled zero rest).congr fun bytes => by rw [if_neg zero]
  refine (determines_after (parses_orFail parses_dword) body rest).congr fun bytes => ⟨?_,?_⟩
  · rintro ⟨size,_,more,rfl,rfl,held⟩
    split at held
    · rename_i zero
      rw [zero,held]
      exact .empty more
    · rename_i some
      obtain ⟨more,rfl,behind⟩ := held
      exact .block some behind
  · intro held
    cases held with
    | empty more => exact ⟨0,[0],more,rfl,rfl,by rw [if_pos rfl]⟩
    | @block size more _ some behind => exact ⟨size,[size],_,rfl,rfl,by rw [if_neg some]; exact ⟨more,rfl,behind⟩⟩

end Memory

section Texture
variable {around : Surroundings} {base : Chunk}

def TextureFormat.dwords (s : TextureFormat) : List UInt32 :=
  [s.width,s.height,s.bitsPerPixel,s.bytesPerLine,s.imageSize,s.redMask,s.greenMask,s.blueMask,s.alphaMask]

theorem parses_format : Parses (Placed base) deserializeTextureFormat fun s input => input = s.dwords := by
  refine (parses_after (parses_orFail parses_dword) fun width => parses_after (parses_orFail parses_dword) fun height =>
    parses_after (parses_orFail parses_dword) fun bits => parses_after (parses_orFail parses_dword) fun bytes =>
    parses_after (parses_orFail parses_dword) fun image => parses_after parses_dword fun red => parses_after parses_dword fun green =>
    parses_after parses_dword fun blue => parses_return parses_dword).congr fun s input => ⟨?_,?_⟩
  · rintro ⟨width,_,rfl,height,_,rfl,bits,_,rfl,bytes,_,rfl,image,_,rfl,red,_,rfl,green,_,rfl,blue,_,rfl,alpha,rfl,rfl⟩
    rfl
  · rintro rfl
    exact ⟨_,_,rfl,_,_,rfl,_,_,rfl,_,_,rfl,_,_,rfl,_,_,rfl,_,_,rfl,_,_,rfl,_,rfl,rfl⟩

/-- The entries behind their number. -/
def PaletteHolds (palette : List UInt32) (input : List UInt32) : Prop :=
  ∃ size : UInt32, size.toNat = palette.length ∧ input = size :: palette

theorem parses_palette : Parses (Placed base) deserializePalette PaletteHolds := by
  refine (parses_after (parses_orFail parses_dword) fun size => parses_times (parses_orFail parses_dword) _).congr
    fun palette input => ⟨?_,?_⟩
  · rintro ⟨size,_,rfl,many,rfl⟩
    exact ⟨size,many.symm,by rw [List.map_id']; rfl⟩
  · rintro ⟨size,many,rfl⟩
    exact ⟨size,_,rfl,many.symm,(List.map_id' palette).symm⟩

/-- What a chunk holds of a texture where its sections are looked for, and what no chunk holds. -/
structure TextureIn (c : Chunk) (s : CkTextureState) : Prop where
  format : SectionIn textureIdentifierFormat c.words {} (Begins fun format input => input = format.dwords) (s.format,s.hasFormat)
  palette : SectionIn textureIdentifierPalette c.words [] (Begins PaletteHolds) (s.palette,s.hasPalette)
  pixelData : SectionIn textureIdentifierSysmem c.words [] (BlockIn c.spare) (s.pixelData,s.hasPixelData)
  videoBackup : SectionIn textureIdentifierVideomem c.words [] (BlockIn c.spare) (s.videoBackup,s.hasVideoBackup)
  filePath : ∃ present, SectionIn textureIdentifierFilepath c.words none (TextIn c.spare) (s.filePath,present)
  marked : s.hasFilePath = s.filePath.isSome
  unwritten : s.mipmaps = [] ∧ s.saveOptions = 0 ∧ s.flags = 0 ∧ s.needsMipmapGeneration = false

theorem determines_texture :
    Determines (InMemory base) (InMemory base) cktextureDeserializeModern (TextureIn base) := by
  refine (determines_bind (determines_section (begins parses_format)) fun format =>
    determines_bind (determines_section (begins parses_palette)) fun palette =>
    determines_bind (determines_section determines_block) fun pixels =>
    determines_bind (determines_section determines_block) fun backup =>
    determines_bind (determines_section fun _ => determines_text) fun path => determines_pure _).congr fun s => ⟨?_,?_⟩
  · rintro ⟨format,formatted,palette,coloured,pixels,drawn,backup,saved,path,named,rfl⟩
    exact ⟨formatted,coloured,drawn,saved,⟨path.2,named⟩,rfl,rfl,rfl,rfl,rfl⟩
  · rintro ⟨formatted,coloured,drawn,saved,⟨present,named⟩,marked,mipmaps,options,flags,generation⟩
    refine ⟨_,formatted,_,coloured,_,drawn,_,saved,_,named,?_⟩
    cases s
    simp only at marked mipmaps options flags generation
    simp only [marked,mipmaps,options,flags,generation]

def TextureKept (around : Surroundings) (s : CkTextureState) : Prop :=
  startedBack around (cktextureSerializeModern around s) cktextureDeserializeModern = .ok s

/-- Sizes have 32 bits, and a path is a string of C. -/
structure TextureFormed (s : CkTextureState) : Prop where
  palette : s.palette.length < 2 ^ 32
  pixelData : s.pixelData.length < 2 ^ 32
  videoBackup : s.videoBackup.length < 2 ^ 32
  filePath : ∀ path, s.filePath = some path → 0 ∉ path ∧ path.length < 2 ^ 60

/-- The chunk holds the texture that it was written for. -/
def TexturePlain (around : Surroundings) (s : CkTextureState) : Prop :=
  TextureIn (writtenChunk around (cktextureSerializeModern around s)) s

theorem as_format (s : TextureFormat) : WritesAs 10 (· = textureIdentifierFormat :: s.dwords) (saveFormat around s) :=
  as_then (as_identifier _) (as_then (as_writeWords [_]) (as_then (as_writeWords [_]) (as_then (as_writeWords [_])
    (as_then (as_writeWords [_]) (as_then (as_writeWords [_]) (as_then (as_writeWords [_]) (as_then (as_writeWords [_])
    (as_then (as_writeWords [_]) (as_writeWords [_])))))))))

theorem as_palette (palette : List UInt32) : WritesAs (2 + palette.length)
    (· = textureIdentifierPalette :: UInt32.ofNat palette.length :: palette) (savePalette around palette) := by
  have entries := as_eachWord (fun entry => @as_writeWords around [entry]) palette
  rw [List.map_id'] at entries
  refine (as_then (as_identifier _) (as_then (as_writeWords [_]) entries)).mono ?_
  simp only [List.length_singleton]
  omega

theorem as_block (identifier : UInt32) (bytes : List UInt8) : WritesAs (3 + (bytes.length + 3) / 4)
    (fun words => ∃ packed, words = [identifier,UInt32.ofNat bytes.length,UInt32.ofNat bytes.length] ++ packed ∧
      Packs packed bytes) (saveBlock around identifier bytes) := by
  refine ((as_after (as_identifier _) (as_after (as_writeWords [_]) (as_buffer bytes))).mono ?_).imp ?_
  · simp only [List.length_singleton]
    omega
  · rintro _ ⟨_,rfl,_,rfl,packed,rfl,packs⟩
    exact ⟨packed,rfl,packs⟩

theorem as_path (path : List UInt8) : WritesAs (2 + (path.length + 4) / 4)
    (fun words => ∃ packed, words = [textureIdentifierFilepath,UInt32.ofNat (path.length + 1)] ++ packed ∧
      Packs packed (path ++ [0])) (saveFilePath around path) := by
  refine ((as_after (as_identifier _) (as_string path)).mono (by omega)).imp ?_
  rintro _ ⟨_,rfl,packed,rfl,packs⟩
  exact ⟨packed,rfl,packs⟩

def textureBound (s : CkTextureState) : Nat :=
  10 + (2 + s.palette.length + (3 + (s.pixelData.length + 3) / 4 + (3 + (s.videoBackup.length + 3) / 4 +
    (2 + ((s.filePath.getD []).length + 4) / 4))))

theorem as_texture (s : CkTextureState) :
    WritesAs (textureBound s) (fun _ => True) (cktextureSerializeModern around s) := by
  refine as_any (as_bind (as_optional (as_format s.format)) (as_bind (as_optional (as_palette s.palette)) (as_bind
    (as_optional (as_block _ s.pixelData)) (as_bind (as_optional (as_block _ s.videoBackup))
    (?_ : WritesAs _ (fun _ => True) _)))))
  cases s.filePath with
  | none => exact as_any (as_pure.mono (Nat.zero_le _))
  | some path => exact as_optional (as_path path)

theorem textureKept_iff {s : CkTextureState} (formed : TextureFormed s) : TextureKept around s ↔ TexturePlain around s := by
  refine startedBack_iff (as_texture s) ?_ fun _ => determines_texture
  have path : (s.filePath.getD []).length < 2 ^ 60 := by
    cases given : s.filePath with
    | none => exact Nat.two_pow_pos 60
    | some path => exact (formed.filePath path given).2
  have palette := formed.palette
  have pixels := formed.pixelData
  have backup := formed.videoBackup
  rw [textureBound]
  omega

end Texture

def sampleTexture : CkTextureState where
  hasFormat := true
  format := { width := 2, height := 1, bitsPerPixel := 8 }
  hasPalette := true
  palette := [0xFF0000FF,0xFFFFFFFF]
  hasPixelData := true
  pixelData := [0,1]
  hasFilePath := true
  filePath := some [97,46,112,110,103]

def borderedMaterial : CkMaterialState where
  hasTextures := true
  textures := { textureIds := #v[7,0,0,0], textureCount := 1, textureBorderColor := 0x00004000 }
  hasRenderingSettings := true

end Libnmo.Schema
