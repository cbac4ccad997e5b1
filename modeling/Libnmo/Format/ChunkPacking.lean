import Libnmo.Format.ChunkApi
import Libnmo.Lib.Packed
import Libnmo.Lib.StreamDecoder

/-! Packing of a chunk's payload. The deflate library is a parameter, and so is
the comparison of `float` ratios in the conditional form. -/
namespace Libnmo.Format
open Core Lib Lib.LittleEndian

/-- `mz_compress2` into a buffer of `mz_compressBound` bytes and `mz_uncompress` into one of the given
length: what they wrote, or nothing for a result other than `MZ_OK`. -/
structure Miniz where
  compress2 : Int → List UInt8 → Option (List UInt8)
  uncompress : Nat → List UInt8 → Option (List UInt8)

/-- `min_ratio`: whether it lies in (0,1], and whether a compressed size over an original one is within it. -/
structure MinRatio where
  valid : Bool
  admits : Nat → Nat → Bool

section
variable (miniz : Miniz)

def clampCompressionLevel (level : Int) : Int := if level < 0 then 6 else if level > 9 then 9 else level

def chunkGenerateCompressedBytes (c : Chunk) (level : Int) : Result (List UInt8) :=
  if c.dataSize = 0 then .ok []
  else match miniz.compress2 (clampCompressionLevel level) (encodeWords c.words) with
    | none => .error (.error .internal "Compression failed")
    | some bytes => .ok bytes

/-- The compressed bytes, filled up with zeros to a dword. -/
def packedWords (compressed : List UInt8) : List UInt32 :=
  let destDwords := (compressed.length + 3) / 4
  decodeWords (compressed ++ List.replicate (destDwords * 4 - compressed.length) 0)

def chunkCommitCompressedPayload (compressed : List UInt8) : Run Chunk Unit :=
  Action.update fun c =>
    let words := packedWords compressed
    { c.replaceBuffer words words.length with
      chunkOptions := c.chunkOptions ||| optionPacked
      unpackSize := c.dataSize
      compressedSize := compressed.length
      uncompressedSize := c.dataSize * 4
      isCompressed := true }

def chunkCompress (level : Int) : Run Chunk Unit := do
  let c ← Action.read id
  if c.dataSize = 0 then pure ()
  else if hasFlag c.chunkOptions optionPacked then pure ()
  else do
    let compressed ← Action.lift (chunkGenerateCompressedBytes miniz c level)
    (if compressed.length = 0 then pure () else chunkCommitCompressedPayload compressed)

def chunkCompressIfBeneficial (level : Int) (minRatio : MinRatio) : Run Chunk Unit := do
  let c ← Action.read id
  if ¬ minRatio.valid then fail .invalidArgument "min_ratio must be within (0,1]"
  else if hasFlag c.chunkOptions optionPacked then pure ()
  else if c.dataSize = 0 then pure ()
  else do
    let compressed ← Action.lift (chunkGenerateCompressedBytes miniz c level)
    (if compressed.length = 0 then pure ()
    else if minRatio.admits compressed.length (c.dataSize * 4) then chunkCommitCompressedPayload compressed
    else pure ())

def chunkDecompress : Run Chunk Unit where
  run c :=
    if ¬ hasFlag c.chunkOptions optionPacked then (.ok (),c)
    else if c.unpackSize = 0 then (.error (.error .invalidState "No unpack size specified"),c)
    else match miniz.uncompress (c.unpackSize * 4) (encodeWords c.words) with
      | none => (.error (.error .internal "Decompression failed"),c)
      | some bytes =>
        if bytes.length ≠ c.unpackSize * 4 then (.error (.error .corrupt "Decompressed size mismatch"),c)
        else
          let words := decodeWords bytes
          (.ok (),{ c.replaceBuffer words words.length with
            chunkOptions := c.chunkOptions &&& ~~~ optionPacked
            compressedSize := 0
            uncompressedSize := words.length * 4
            isCompressed := false
            unpackSize := 0 })

def chunkPack (level : Int) : Run Chunk Unit := chunkCompress miniz level

def chunkUnpack : Run Chunk Unit := chunkDecompress miniz

end

end Libnmo.Format

/-! What packing and unpacking make of a chunk. Inflating a deflated stream gives back
what was deflated, also when up to three zeros follow that fill its last word. -/
namespace Libnmo.Format
open Core Lib Lib.LittleEndian

/-- Inflating undoes deflating, and stops at the end of the stream. -/
def Miniz.Restores (miniz : Miniz) : Prop :=
  ∀ level bytes packed zeros, miniz.compress2 level bytes = some packed → zeros < 4 →
    miniz.uncompress bytes.length (packed ++ List.replicate zeros 0) = some bytes

/-- The library with stored blocks alone. -/
def storedMiniz : Miniz := ⟨fun _ => StoredStream.deflate,StoredStream.inflate⟩

theorem storedMiniz_restores : storedMiniz.Restores := by
  intro level bytes packed zeros made few
  exact StoredStream.inflate_deflate made _ le_rfl

theorem encodeWords_packedWords (compressed : List UInt8) : ∃ zeros, zeros < 4 ∧
    encodeWords (packedWords compressed) = compressed ++ List.replicate zeros 0 := by
  refine ⟨(compressed.length + 3) / 4 * 4 - compressed.length,by omega,?_⟩
  rw [packedWords,encodeWords_decodeWords]
  rw [List.length_append,List.length_replicate]
  omega

theorem hasFlag_packed (options : UInt32) : hasFlag (options ||| optionPacked) optionPacked = true := by
  rw [hasFlag_or]
  simp [show hasFlag optionPacked optionPacked = true by decide]

section
variable {miniz : Miniz} {level : Int} {c d u : Chunk}

/-- A chunk with its payload replaced by a compressed one. -/
def packedChunk (compressed : List UInt8) (c : Chunk) : Chunk :=
  ((chunkCommitCompressedPayload compressed).run c).2

theorem words_packedChunk (compressed : List UInt8) (c : Chunk) :
    (packedChunk compressed c).words = packedWords compressed :=
  List.take_length

/-- Packing replaces the words of the chunk by what was deflated from them. -/
structure Compresses (miniz : Miniz) (level : Int) (c : Chunk) (compressed : List UInt8) : Prop where
  sized : c.dataSize ≠ 0
  plain : hasFlag c.chunkOptions optionPacked = false
  made : miniz.compress2 (clampCompressionLevel level) (encodeWords c.words) = some compressed
  some : compressed.length ≠ 0

theorem chunkPack_compresses {compressed : List UInt8} (compresses : Compresses miniz level c compressed) :
    (chunkPack miniz level).run c = (.ok (),packedChunk compressed c) := by
  rw [chunkPack,chunkCompress,Action.bind_ok _ (Action.read_apply id c)]
  dsimp only [id]
  rw [if_neg compresses.sized,if_neg (by simp [compresses.plain])]
  rw [chunkGenerateCompressedBytes,if_neg compresses.sized,compresses.made]
  rw [Action.bind_ok _ (Action.lift_apply _ _),if_neg compresses.some]
  rfl

/-- Packing leaves the chunk as it is, or commits what was deflated from its words. -/
theorem chunkPack_cases (miniz : Miniz) (level : Int) (c : Chunk) :
    ((chunkPack miniz level).run c).2 = c ∨ ∃ compressed, Compresses miniz level c compressed := by
  rw [chunkPack,chunkCompress,Action.bind_ok _ (Action.read_apply id c)]
  dsimp only [id]
  split
  · exact .inl rfl
  · rename_i sized
    split
    · exact .inl rfl
    · rename_i plain
      cases made : miniz.compress2 (clampCompressionLevel level) (encodeWords c.words) with
      | none =>
        left
        rw [chunkGenerateCompressedBytes,if_neg sized,made]
        rfl
      | some compressed =>
        rw [chunkGenerateCompressedBytes,if_neg sized,made]
        rw [Action.bind_ok _ (Action.lift_apply _ _)]
        split
        · exact .inl rfl
        · rename_i filled
          exact .inr ⟨compressed,sized,Bool.not_eq_true _ ▸ plain,made,filled⟩

/-- A chunk with its payload replaced by an inflated one. -/
def inflatedChunk (bytes : List UInt8) (c : Chunk) : Chunk :=
  { c.replaceBuffer (decodeWords bytes) (decodeWords bytes).length with
    chunkOptions := c.chunkOptions &&& ~~~ optionPacked
    compressedSize := 0
    uncompressedSize := (decodeWords bytes).length * 4
    isCompressed := false
    unpackSize := 0 }

theorem words_inflatedChunk (bytes : List UInt8) (c : Chunk) : (inflatedChunk bytes c).words = decodeWords bytes :=
  List.take_length

theorem chunkUnpack_plain (plain : hasFlag c.chunkOptions optionPacked = false) :
    (chunkUnpack miniz).run c = (.ok (),c) := by
  simp only [chunkUnpack,chunkDecompress,plain]
  rfl

theorem chunkUnpack_packed (packed : hasFlag c.chunkOptions optionPacked = true) (sized : c.unpackSize ≠ 0)
    {bytes : List UInt8} (inflated : miniz.uncompress (c.unpackSize * 4) (encodeWords c.words) = some bytes)
    (whole : bytes.length = c.unpackSize * 4) :
    (chunkUnpack miniz).run c = (.ok (),inflatedChunk bytes c) := by
  simp only [chunkUnpack,chunkDecompress,packed,inflated,whole]
  rw [if_neg (by simp),if_neg sized,if_neg (by simp)]
  rfl

/-- A chunk that is not packed stays as it is, and one that is packed gets the words that were inflated. -/
theorem chunkUnpack_success (ok : (chunkUnpack miniz).run c = (.ok (),u)) :
    (hasFlag c.chunkOptions optionPacked = false ∧ u = c) ∨
      (hasFlag c.chunkOptions optionPacked = true ∧ c.unpackSize ≠ 0 ∧ ∃ bytes,
        miniz.uncompress (c.unpackSize * 4) (encodeWords c.words) = some bytes ∧
        bytes.length = c.unpackSize * 4 ∧ u = inflatedChunk bytes c) := by
  simp only [chunkUnpack,chunkDecompress] at ok
  split at ok
  · rename_i plain
    exact .inl ⟨Bool.not_eq_true _ ▸ plain,(Prod.mk.inj ok).2.symm⟩
  · rename_i packed
    split at ok
    · cases ok
    · rename_i sized
      split at ok
      · cases ok
      · rename_i bytes inflated
        split at ok
        · cases ok
        · rename_i whole
          exact .inr ⟨not_not.mp packed,sized,bytes,inflated,not_not.mp whole,(Prod.mk.inj ok).2.symm⟩

/-- Unpacking sees the words, the packed flag and the size only. -/
theorem chunkUnpack_alike (options : d.chunkOptions = c.chunkOptions) (size : d.unpackSize = c.unpackSize)
    (words : d.words = c.words) (ok : (chunkUnpack miniz).run c = (.ok (),u)) :
    ∃ v, (chunkUnpack miniz).run d = (.ok (),v) ∧ v.words = u.words := by
  rcases chunkUnpack_success ok with ⟨plain,rfl⟩ | ⟨packed,sized,bytes,inflated,whole,rfl⟩
  · exact ⟨d,chunkUnpack_plain (options ▸ plain),words⟩
  · rw [← options] at packed
    rw [← size] at sized whole inflated
    rw [← words] at inflated
    refine ⟨_,chunkUnpack_packed packed sized inflated whole,?_⟩
    rw [words_inflatedChunk,words_inflatedChunk]

/-- The compressed words are inflated to those that they were deflated from. -/
theorem unpack_compressed {compressed : List UInt8} (restores : miniz.Restores)
    (compresses : Compresses miniz level c compressed) :
    (chunkUnpack miniz).run (packedChunk compressed c) =
      (.ok (),inflatedChunk (encodeWords c.words) (packedChunk compressed c)) := by
  obtain ⟨zeros,few,padded⟩ := encodeWords_packedWords compressed
  have inflated := restores _ _ compressed zeros compresses.made few
  rw [length_encodeWords,Nat.mul_comm,← padded,← words_packedChunk compressed c] at inflated
  have whole : (encodeWords c.words).length = c.dataSize * 4 := by
    rw [length_encodeWords,Nat.mul_comm]
    rfl
  exact chunkUnpack_packed (hasFlag_packed _) compresses.sized inflated whole

/-- Unpacking what was packed gives the words of the unpacked chunk. -/
theorem unpack_pack (level : Int) (restores : miniz.Restores) (unpacked : (chunkUnpack miniz).run c = (.ok (),u)) :
    ∃ v, (chunkUnpack miniz).run ((chunkPack miniz level).run c).2 = (.ok (),v) ∧ v.words = u.words := by
  rcases chunkPack_cases miniz level c with same | ⟨compressed,compresses⟩
  · rw [same]
    exact ⟨u,unpacked,rfl⟩
  · rw [chunkUnpack_plain compresses.plain] at unpacked
    cases unpacked
    refine ⟨inflatedChunk (encodeWords c.words) (packedChunk compressed c),?_,?_⟩
    · rw [chunkPack_compresses compresses]
      exact unpack_compressed restores compresses
    · rw [words_inflatedChunk,decodeWords_encodeWords]

end

end Libnmo.Format
