import Libnmo.Core.Error
import Libnmo.Lib.LittleEndian
import Libnmo.Lib.Parses
import Libnmo.Lib.Reads

/-! The file header: Part0 in every version, Part1 from version 5 on. The fields
that an older version does not store are zero after a parse. -/
namespace Libnmo.Format
open Core Lib Lib.LittleEndian Lib.Cursor

/-- `"Nemo Fi\0"`. -/
def fileSignature : List UInt8 := [78,101,109,111,32,70,105,0]

theorem length_fileSignature : fileSignature.length = 8 := rfl

structure FileHeader where
  signature : List UInt8 := fileSignature
  crc : UInt32 := 0
  ckVersion : UInt32 := 0
  fileVersion : UInt32 := 0
  fileVersion2 : UInt32 := 0
  fileWriteMode : UInt32 := 0
  hdr1PackSize : UInt32 := 0
  dataPackSize : UInt32 := 0
  dataUnpackSize : UInt32 := 0
  managerCount : UInt32 := 0
  objectCount : UInt32 := 0
  maxIdSaved : UInt32 := 0
  productVersion : UInt32 := 0
  productBuild : UInt32 := 0
  hdr1UnpackSize : UInt32 := 0
  signatureSize : signature.length = 8 := by exact length_fileSignature
  deriving DecidableEq, Repr

def writeCompressHeader : UInt32 := 1
def writeCompressData : UInt32 := 2

namespace FileHeader
variable (header : FileHeader)

def part0 : List UInt8 :=
  header.signature ++ encodeWords [header.crc,header.ckVersion,header.fileVersion,header.fileVersion2,
    header.fileWriteMode,header.hdr1PackSize]

def part1 : List UInt8 :=
  encodeWords [header.dataPackSize,header.dataUnpackSize,header.managerCount,header.objectCount,header.maxIdSaved,
    header.productVersion,header.productBuild,header.hdr1UnpackSize]

end FileHeader

def fileHeaderSerialize (header : FileHeader) : List UInt8 :=
  header.part0 ++ (if header.fileVersion ≥ 5 then header.part1 else [])

/-- `nmo_io_read_exact`: a short read moves to the end of the file. -/
def ioReadExact (file : List UInt8) (size : Nat) (message : String) : Run Nat (List UInt8) where
  run pos :=
    let bytes := slice file pos size
    if bytes.length = size then (.ok bytes,pos + size) else (.error (.error .eof message),pos + bytes.length)

def ioReadU32 (file : List UInt8) (message : String) : Run Nat UInt32 where
  run pos := match slice file pos 4 with
    | [a,b,c,d] => (.ok (bytesWord a b c d),pos + 4)
    | bytes => (.error (.error .eof message),pos + bytes.length)

def unsupportedVersion (fileVersion : UInt32) : Bool := fileVersion < 2 || fileVersion > 9

/-- The fields of Part1 after those of Part0. -/
def parsePart1 (file : List UInt8) (header : FileHeader) : Run Nat FileHeader := do
  let dataPackSize ← ioReadU32 file "Failed to read data packed size"
  let dataUnpackSize ← ioReadU32 file "Failed to read data unpacked size"
  let managerCount ← ioReadU32 file "Failed to read manager count"
  let objectCount ← ioReadU32 file "Failed to read object count"
  let maxIdSaved ← ioReadU32 file "Failed to read max ID saved"
  let productVersion ← ioReadU32 file "Failed to read product version"
  let productBuild ← ioReadU32 file "Failed to read product build"
  let hdr1UnpackSize ← ioReadU32 file "Failed to read header1 unpacked size"
  pure { header with
    dataPackSize := dataPackSize, dataUnpackSize := dataUnpackSize, managerCount := managerCount
    objectCount := objectCount, maxIdSaved := maxIdSaved, productVersion := productVersion
    productBuild := productBuild, hdr1UnpackSize := hdr1UnpackSize }

def fileHeaderParse (file : List UInt8) : Run Nat FileHeader := do
  let signature ← ioReadExact file 8 "Failed to read file signature"
  (if signature ≠ fileSignature then fail .invalidSignature "Invalid file signature" else pure ())
  let crc ← ioReadU32 file "Failed to read CRC"
  let ckVersion ← ioReadU32 file "Failed to read CK version"
  let fileVersion ← ioReadU32 file "Failed to read file version"
  (if unsupportedVersion fileVersion then
    fail .unsupportedVersion "Unsupported file version (must be 2-9)" else pure ())
  let fileVersion2 ← ioReadU32 file "Failed to read file version2"
  let fileWriteMode ← ioReadU32 file "Failed to read file write mode"
  let hdr1PackSize ← ioReadU32 file "Failed to read header1 packed size"
  let header : FileHeader := {
    crc := crc, ckVersion := ckVersion, fileVersion := fileVersion, fileVersion2 := fileVersion2
    fileWriteMode := fileWriteMode, hdr1PackSize := hdr1PackSize }
  (if fileVersion ≥ 5 then parsePart1 file header else pure header)

def fileHeaderValidate (header : FileHeader) : Result Unit :=
  if header.signature ≠ fileSignature then .error (.error .invalidSignature "Invalid file signature")
  else if unsupportedVersion header.fileVersion then
    .error (.error .unsupportedVersion "Unsupported file version (must be 2-9)")
  else .ok ()

end Libnmo.Format

/-! A file header that is accepted comes back from the bytes it is written as, which
fill the size of its version. -/
namespace Libnmo.Format
open Core Lib Lib.LittleEndian Lib.Cursor

/-- `nmo_header_get_size`. -/
def headerGetSize (header : FileHeader) : UInt32 := if header.fileVersion ≥ 5 then 64 else 32

/-- The fields of Part1 are zero. -/
structure FileHeader.Part1Zero (header : FileHeader) : Prop where
  dataPackSize : header.dataPackSize = 0
  dataUnpackSize : header.dataUnpackSize = 0
  managerCount : header.managerCount = 0
  objectCount : header.objectCount = 0
  maxIdSaved : header.maxIdSaved = 0
  productVersion : header.productVersion = 0
  productBuild : header.productBuild = 0
  hdr1UnpackSize : header.hdr1UnpackSize = 0

section Reading
variable {file : List UInt8} {α : Type}

theorem reads_ioReadU32 (word : UInt32) (message : String) :
    Reads file (ioReadU32 file message) (wordBytes word) word := by
  intro pos rest ahead
  have piece := ahead.slice_eq
  rw [length_wordBytes] at piece
  refine ⟨pos + 4,?_,ahead.skip⟩
  simp only [ioReadU32,piece,wordBytes,bytesWord_wordBytes]

theorem reads_ioReadExact (bytes : List UInt8) (message : String) :
    Reads file (ioReadExact file bytes.length message) bytes bytes := by
  intro pos rest ahead
  refine ⟨pos + bytes.length,?_,ahead.skip⟩
  simp only [ioReadExact,ahead.slice_eq,if_true]

/-- A word that is read, and what is read behind it. -/
theorem reads_word {word : UInt32} {words : List UInt32} {more : List UInt8} {message : String}
    {next : UInt32 → Run Nat α} {value : α} (rest : Reads file (next word) (encodeWords words ++ more) value) :
    Reads file (ioReadU32 file message >>= next) (encodeWords (word :: words) ++ more) value := by
  rw [encodeWords_cons,List.append_assoc]
  exact reads_bind (reads_ioReadU32 word message) rest

/-- A check that finds no fault. -/
theorem reads_unless {fault : Prop} [Decidable fault] {stop : Run Nat Unit} {next : Unit → Run Nat α}
    {input : List UInt8} {value : α} (absent : ¬ fault) (rest : Reads file (next ()) input value) :
    Reads file ((if fault then stop else pure ()) >>= next) input value := by
  rw [if_neg absent]
  exact reads_still (reads_pure ()) rest

variable {header : FileHeader}

theorem accepted_of_validate (valid : fileHeaderValidate header = .ok ()) :
    header.signature = fileSignature ∧ ¬ unsupportedVersion header.fileVersion := by
  rw [fileHeaderValidate] at valid
  split at valid
  · cases valid
  · rename_i signature
    split at valid
    · cases valid
    · rename_i version
      exact ⟨not_not.mp signature,version⟩

theorem reads_parsePart1 (header earlier : FileHeader) : Reads file (parsePart1 file earlier) header.part1 { earlier with
    dataPackSize := header.dataPackSize, dataUnpackSize := header.dataUnpackSize
    managerCount := header.managerCount, objectCount := header.objectCount, maxIdSaved := header.maxIdSaved
    productVersion := header.productVersion, productBuild := header.productBuild
    hdr1UnpackSize := header.hdr1UnpackSize } := by
  rw [← List.append_nil header.part1]
  refine reads_word (reads_word (reads_word (reads_word (reads_word (reads_word (reads_word (reads_word ?_)))))))
  exact reads_pure _

/-- The bytes of a header that is accepted are read as the header. -/
theorem reads_fileHeaderParse (valid : fileHeaderValidate header = .ok ())
    (old : header.fileVersion < 5 → header.Part1Zero) :
    Reads file (fileHeaderParse file) (fileHeaderSerialize header) header := by
  obtain ⟨signature,version⟩ := accepted_of_validate valid
  rw [fileHeaderSerialize,FileHeader.part0,signature,List.append_assoc]
  refine reads_bind (reads_ioReadExact fileSignature _) (reads_unless (not_not.mpr rfl) ?_)
  refine reads_word (reads_word (reads_word (reads_unless version ?_)))
  refine reads_word (reads_word (reads_word ?_))
  by_cases modern : header.fileVersion ≥ 5
  · rw [if_pos modern,if_pos modern]
    have same : header = { ({
        crc := header.crc, ckVersion := header.ckVersion, fileVersion := header.fileVersion
        fileVersion2 := header.fileVersion2, fileWriteMode := header.fileWriteMode
        hdr1PackSize := header.hdr1PackSize } : FileHeader) with
      dataPackSize := header.dataPackSize, dataUnpackSize := header.dataUnpackSize
      managerCount := header.managerCount, objectCount := header.objectCount, maxIdSaved := header.maxIdSaved
      productVersion := header.productVersion, productBuild := header.productBuild
      hdr1UnpackSize := header.hdr1UnpackSize } := by
      cases header
      cases signature
      rfl
    have fields : Reads file _ header.part1 _ := reads_parsePart1 header {
      crc := header.crc, ckVersion := header.ckVersion, fileVersion := header.fileVersion
      fileVersion2 := header.fileVersion2, fileWriteMode := header.fileWriteMode, hdr1PackSize := header.hdr1PackSize }
    rw [← same] at fields
    exact fields
  · rw [if_neg modern,if_neg modern]
    have zero := old (UInt32.not_le.mp modern)
    have same : header = {
        crc := header.crc, ckVersion := header.ckVersion, fileVersion := header.fileVersion
        fileVersion2 := header.fileVersion2, fileWriteMode := header.fileWriteMode
        hdr1PackSize := header.hdr1PackSize } := by
      obtain ⟨dataPackSize,dataUnpackSize,managerCount,objectCount,maxIdSaved,productVersion,productBuild,hdr1UnpackSize⟩ := zero
      cases header
      cases signature
      simp_all only
      rfl
    rw [← same]
    exact reads_pure header

end Reading

theorem length_fileHeaderSerialize (header : FileHeader) :
    (fileHeaderSerialize header).length = (headerGetSize header).toNat := by
  rw [fileHeaderSerialize,headerGetSize,List.length_append,FileHeader.part0,List.length_append,header.signatureSize]
  split <;> rfl

/-- Wherever it is written, a header that is accepted is parsed back, and both take the size of its version. -/
theorem fileHeader_roundTrip (header : FileHeader) (valid : fileHeaderValidate header = .ok ())
    (old : header.fileVersion < 5 → header.Part1Zero) (before rest : List UInt8) :
    (fileHeaderSerialize header).length = (headerGetSize header).toNat ∧
      (fileHeaderParse (before ++ fileHeaderSerialize header ++ rest)).run before.length =
        (.ok header,before.length + (headerGetSize header).toNat) := by
  have size := length_fileHeaderSerialize header
  refine ⟨size,?_⟩
  have ahead : Ahead (before ++ fileHeaderSerialize header ++ rest) before.length (fileHeaderSerialize header ++ rest) := by
    rw [List.append_assoc]
    exact ahead_after before _
  obtain ⟨next,ran,after⟩ := reads_fileHeaderParse valid old _ rest ahead
  have stop := after.length_eq
  rw [ahead.length_eq,List.length_append] at stop
  have there : next = before.length + (headerGetSize header).toNat := by omega
  rw [ran,there]

/-- A header of the current version, and one of an old version behind other bytes. -/
theorem fileHeaders_roundTrip :
    (fileHeaderParse (fileHeaderSerialize { fileVersion := 8, ckVersion := 0x13022002, objectCount := 3 })).run 0 =
        (.ok { fileVersion := 8, ckVersion := 0x13022002, objectCount := 3 },64) ∧
      (fileHeaderParse ([7] ++ fileHeaderSerialize { fileVersion := 4, crc := 9 } ++ [1,2])).run 1 =
        (.ok { fileVersion := 4, crc := 9 },33) := by
  have modern := (fileHeader_roundTrip { fileVersion := 8, ckVersion := 0x13022002, objectCount := 3 } rfl
    (fun old => absurd old (by decide)) [] []).2
  rw [List.append_nil] at modern
  exact ⟨modern,(fileHeader_roundTrip { fileVersion := 4, crc := 9 } rfl (fun _ => ⟨rfl,rfl,rfl,rfl,rfl,rfl,rfl,rfl⟩)
    [7] [1,2]).2⟩

end Libnmo.Format

/-! A file header that is parsed, from the bytes that it takes. -/
namespace Libnmo.Format
open Core Lib Lib.LittleEndian Lib.Cursor

/-- A header that the loader accepts, and that older versions hold whole. -/
structure FileHeader.Accepted (header : FileHeader) : Prop where
  signature : header.signature = fileSignature
  version : unsupportedVersion header.fileVersion = false
  old : header.fileVersion < 5 → header.Part1Zero

/-- The rest of the file stands at the position. -/
def Rest (file rest : List UInt8) (pos : Nat) : Prop := Ahead file pos rest

section Reading
variable {file : List UInt8} {α : Type}

theorem parses_ioReadU32 (message : String) :
    Parses (Rest file) (ioReadU32 file message) fun word input => input = wordBytes word where
  full := by
    rintro word _ rest pos rfl ahead
    exact reads_ioReadU32 word message pos rest ahead
  only := by
    intro word rest pos next ahead ran
    have piece : slice file pos 4 = rest.take 4 := by rw [slice,ahead.2]
    simp only [ioReadU32,piece] at ran
    split at ran
    · rename_i a b c d four
      obtain ⟨same,rfl⟩ := Prod.mk.inj ran
      obtain rfl := Except.ok.inj same
      have whole : rest = [a,b,c,d] ++ rest.drop 4 := by rw [← four,List.take_append_drop]
      refine ⟨[a,b,c,d],rest.drop 4,whole,(wordBytes_bytesWord a b c d).symm,?_⟩
      rw [whole] at ahead
      exact ahead.skip
    · cases (Prod.mk.inj ran).1

theorem parses_ioReadExact (size : Nat) (message : String) :
    Parses (Rest file) (ioReadExact file size message) fun bytes input => input = bytes ∧ bytes.length = size where
  full := by
    rintro _ bytes rest pos ⟨rfl,rfl⟩ ahead
    exact reads_ioReadExact bytes message pos rest ahead
  only := by
    intro bytes rest pos next ahead ran
    have piece : slice file pos size = rest.take size := by rw [slice,ahead.2]
    simp only [ioReadExact,piece] at ran
    split at ran
    · rename_i whole
      obtain ⟨same,rfl⟩ := Prod.mk.inj ran
      obtain rfl := Except.ok.inj same
      refine ⟨rest.take size,rest.drop size,(List.take_append_drop size rest).symm,⟨rfl,whole⟩,?_⟩
      rw [← List.take_append_drop size rest] at ahead
      have moved := ahead.skip
      rwa [whole] at moved
    · cases (Prod.mk.inj ran).1

theorem parses_lift (outcome : Result α) :
    Parses (Rest file) (Action.lift outcome : Run Nat α) fun value input => outcome = .ok value ∧ input = [] where
  full := by
    rintro value _ rest pos ⟨rfl,rfl⟩ ahead
    exact ⟨pos,rfl,ahead⟩
  only := by
    intro value rest pos next ahead ran
    obtain ⟨same,rfl⟩ := Prod.mk.inj ran
    exact ⟨[],rest,rfl,⟨same,rfl⟩,ahead⟩

theorem parses_unless {fault : Prop} [Decidable fault] (e : Stop) :
    Parses (Rest file) (if fault then Action.stop e else pure () : Run Nat Unit) fun _ input => ¬ fault ∧ input = [] := by
  apply (parses_ite (fun _ => parses_stop e) (fun _ => parses_pure ())).congr
  intro value input
  by_cases there : fault <;> simp [there]

theorem parses_parsePart1 (earlier : FileHeader) :
    Parses (Rest file) (parsePart1 file earlier) fun header input =>
      ∃ fields : FileHeader, input = fields.part1 ∧ header = { earlier with
        dataPackSize := fields.dataPackSize, dataUnpackSize := fields.dataUnpackSize
        managerCount := fields.managerCount, objectCount := fields.objectCount, maxIdSaved := fields.maxIdSaved
        productVersion := fields.productVersion, productBuild := fields.productBuild
        hdr1UnpackSize := fields.hdr1UnpackSize } := by
  unfold parsePart1
  apply (parses_after (parses_ioReadU32 _) fun _ => parses_after (parses_ioReadU32 _) fun _ =>
    parses_after (parses_ioReadU32 _) fun _ => parses_after (parses_ioReadU32 _) fun _ =>
    parses_after (parses_ioReadU32 _) fun _ => parses_after (parses_ioReadU32 _) fun _ =>
    parses_after (parses_ioReadU32 _) fun _ => parses_after (parses_ioReadU32 _) fun _ => parses_pure _).congr
  intro header input
  constructor
  · rintro ⟨a,_,rfl,b,_,rfl,c,_,rfl,d,_,rfl,e,_,rfl,f,_,rfl,g,_,rfl,h,_,rfl,rfl,rfl⟩
    refine ⟨{
      dataPackSize := a, dataUnpackSize := b, managerCount := c, objectCount := d, maxIdSaved := e
      productVersion := f, productBuild := g, hdr1UnpackSize := h },?_,rfl⟩
    simp [FileHeader.part1,encodeWords_cons]
  · rintro ⟨fields,rfl,rfl⟩
    exact ⟨fields.dataPackSize,_,encodeWords_cons _ _,fields.dataUnpackSize,_,encodeWords_cons _ _,
      fields.managerCount,_,encodeWords_cons _ _,fields.objectCount,_,encodeWords_cons _ _,
      fields.maxIdSaved,_,encodeWords_cons _ _,fields.productVersion,_,encodeWords_cons _ _,
      fields.productBuild,_,encodeWords_cons _ _,fields.hdr1UnpackSize,_,encodeWords_cons _ _,rfl,rfl⟩

/-- A header is parsed just where the bytes of a header that is accepted stand. -/
theorem parses_fileHeaderParse : Parses (Rest file) (fileHeaderParse file) fun header input =>
    header.Accepted ∧ input = fileHeaderSerialize header where
  full := by
    rintro header _ rest pos ⟨accepted,rfl⟩ ahead
    have valid : fileHeaderValidate header = .ok () := by
      simp [fileHeaderValidate,accepted.signature,accepted.version]
    exact reads_fileHeaderParse valid accepted.old pos rest ahead
  only := by
    have chain : Parses (Rest file) (fileHeaderParse file) _ :=
      parses_bind (parses_ioReadExact 8 _) fun _ => parses_bind (parses_unless _) fun _ =>
      parses_after (parses_ioReadU32 _) fun _ => parses_after (parses_ioReadU32 _) fun _ =>
      parses_after (parses_ioReadU32 _) fun _ => parses_bind (parses_unless _) fun _ =>
      parses_after (parses_ioReadU32 _) fun _ => parses_after (parses_ioReadU32 _) fun _ =>
      parses_after (parses_ioReadU32 _) fun _ => parses_ite (fun _ => parses_parsePart1 _) fun _ => parses_pure _
    intro header rest pos next ahead ran
    obtain ⟨input,after,split,held,moved⟩ := chain.only ahead ran
    refine ⟨input,after,split,?_,moved⟩
    obtain ⟨signature,_,_,rfl,⟨rfl,_⟩,_,_,_,rfl,⟨known,rfl⟩,crc,_,rfl,ckVersion,_,rfl,fileVersion,_,rfl,_,_,_,rfl,
      ⟨version,rfl⟩,fileVersion2,_,rfl,fileWriteMode,_,rfl,hdr1PackSize,_,rfl,fields⟩ := held
    obtain rfl := not_not.mp known
    have supported : unsupportedVersion fileVersion = false := Bool.eq_false_iff.mpr version
    split at fields
    · rename_i modern
      obtain ⟨fields,rfl,rfl⟩ := fields
      refine ⟨⟨rfl,supported,fun old => absurd modern (UInt32.not_le.mpr old)⟩,?_⟩
      simp [fileHeaderSerialize,FileHeader.part0,FileHeader.part1,modern]
    · rename_i old
      obtain ⟨rfl,rfl⟩ := fields
      refine ⟨⟨rfl,supported,fun _ => ⟨rfl,rfl,rfl,rfl,rfl,rfl,rfl,rfl⟩⟩,?_⟩
      simp [fileHeaderSerialize,FileHeader.part0,old]

end Reading

end Libnmo.Format
