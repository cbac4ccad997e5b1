import Libnmo.Format.ChunkEdits
import Libnmo.Format.PackedSections
import Libnmo.Format.StreamObjects
import Libnmo.Format.StreamWrites

/-! A file that a stream writer has left, opened with a stream reader. The reader returns what was
written, as long as it finds every part where the header says and takes the section for what it is. -/
namespace Libnmo.Format
open Core Lib Lib.LittleEndian Lib.Cursor

/-- What inflates gives back what was deflated. -/
def Inverse {deflater : DeflateLibrary} {zlib : InflateLibrary} (packing : Packing deflater) (unpacking : Unpacking zlib) : Prop :=
  ∀ data stream, packing.streams data stream → ∃ z, zlib.init = some z ∧ unpacking.unpacks z stream data

section OneStream

/-- A stream that is given all of its input before it makes anything: what it was given, and then what
it has left to make. -/
structure WholeState where
  seen : List UInt8 := []
  left : Option (List UInt8) := none

variable (plain packed : List UInt8)

/-- Deflating where one section is known with its stream. -/
def deflateOne (z : WholeState) (finish : Bool) (input : List UInt8) (room : Nat) : DeflateCall WholeState :=
  match z.left with
  | none =>
    if finish = false then
      if input = [] then ⟨.bufError,0,[],z⟩ else ⟨.ok,input.length,[],⟨z.seen ++ input,none⟩⟩
    else if z.seen ++ input = plain then
      ⟨if packed.length ≤ room then .streamEnd else .ok,input.length,packed.take room,⟨plain,some (packed.drop room)⟩⟩
    else ⟨.failed,0,[],z⟩
  | some out =>
    if finish = true ∧ input = [] then
      ⟨if out.length ≤ room then .streamEnd else .ok,0,out.take room,⟨z.seen,some (out.drop room)⟩⟩
    else ⟨.failed,0,[],z⟩

def deflatesOne : DeflateLibrary where
  State := WholeState
  init _ := some {}
  deflate := deflateOne plain packed
  taken_le z finish input room := by
    rw [deflateOne]
    repeat' split
    all_goals first | exact Nat.le_refl _ | exact Nat.zero_le _
  made_le z finish input room := by
    rw [deflateOne]
    repeat' split
    all_goals first | exact Nat.zero_le _ | exact List.length_take_le ..
  idle z finish input room := by
    rw [deflateOne]
    repeat' split
    all_goals first | exact fun _ => ⟨rfl,rfl,rfl⟩ | nofun

def inflateOne (z : WholeState) (input : List UInt8) (room : Nat) : InflateCall WholeState :=
  match z.left with
  | none =>
    if z.seen ++ input = packed then
      ⟨if plain.length ≤ room ∨ room = 0 then .streamEnd else .ok,input.length,plain.take room,⟨packed,some (plain.drop room)⟩⟩
    else if input = [] then ⟨.failed,0,[],z⟩
    else ⟨.ok,input.length,[],⟨z.seen ++ input,none⟩⟩
  | some out => ⟨if out.length ≤ room ∨ room = 0 then .streamEnd else .ok,0,out.take room,⟨z.seen,some (out.drop room)⟩⟩

def inflatesOne : InflateLibrary where
  State := WholeState
  init := some {}
  inflate := inflateOne plain packed
  taken_le z input room := by
    rw [inflateOne]
    repeat' split
    all_goals first | exact Nat.le_refl _ | exact Nat.zero_le _
  made_le z input room := by
    rw [inflateOne]
    repeat' split
    all_goals first | exact Nat.zero_le _ | exact List.length_take_le ..
  progress z input room := by
    have some {out : List UInt8} (fine : (if out.length ≤ room ∨ room = 0 then InflateStatus.streamEnd else .ok) = .ok) :
        out.take room ≠ [] := by
      split at fine
      · cases fine
      · rename_i more
        rw [not_or,Nat.not_le] at more
        rw [ne_eq,List.take_eq_nil_iff,not_or]
        exact ⟨more.2,List.length_pos_iff.mp (Nat.lt_of_le_of_lt (Nat.zero_le _) more.1)⟩
    rw [inflateOne]
    split
    · split
      · exact fun fine => .inr (some fine)
      · split
        · nofun
        · rename_i filled
          exact fun _ => .inl fun none => filled (List.length_eq_zero_iff.mp none)
    · exact fun fine => .inr (some fine)
  stuck z input room := by
    have fails {out : List UInt8} : (if out.length ≤ room ∨ room = 0 then InflateStatus.streamEnd else .ok) ≠ .failed := by
      split <;> nofun
    rw [inflateOne.eq_def plain packed z input room]
    split
    · rename_i unmade
      split
      · exact fun failed => absurd failed fails
      · rename_i other
        split
        · rename_i none
          intro _ input' room' starved
          rw [none] at other
          rw [starved none,inflateOne,unmade]
          dsimp only
          rw [if_neg other,if_pos rfl]
        · nofun
    · exact fun failed => absurd failed fails

variable {plain packed}

/-- What a state has taken and made. -/
def PacksOne (plain packed : List UInt8) (z : WholeState) (taken made : List UInt8) : Prop :=
  match z.left with
  | none => taken = z.seen ∧ made = []
  | some out => taken = plain ∧ packed = made ++ out

/-- What is still to be given to a state, and what it gives for it. -/
def UnpacksOne (plain packed : List UInt8) (z : WholeState) (rest made : List UInt8) : Prop :=
  match z.left with
  | none => packed = z.seen ++ rest ∧ made = plain
  | some out => rest = [] ∧ made = out

theorem deflateOne_step {z : WholeState} {taken made input : List UInt8} {finish : Bool} {room : Nat}
    (packs : PacksOne plain packed z taken made) (fine : (deflateOne plain packed z finish input room).status = .ok) :
    PacksOne plain packed (deflateOne plain packed z finish input room).next
      (taken ++ input.take (deflateOne plain packed z finish input room).taken)
      (made ++ (deflateOne plain packed z finish input room).made) := by
  rw [PacksOne] at packs
  rw [deflateOne] at fine ⊢
  split at packs
  · rename_i unmade
    obtain ⟨rfl,rfl⟩ := packs
    simp only [unmade] at fine ⊢
    split at fine
    · split at fine
      · cases fine
      · rename_i going some
        rw [if_pos going,if_neg some,List.take_length]
        exact ⟨rfl,rfl⟩
    · split at fine
      · rename_i ending whole
        rw [if_neg ending,if_pos whole,List.take_length]
        exact ⟨whole,(List.take_append_drop ..).symm⟩
      · cases fine
  · rename_i out left
    obtain ⟨rfl,rfl⟩ := packs
    simp only [left] at fine ⊢
    split at fine
    · rename_i ending
      rw [if_pos ending,List.take_zero,List.append_nil]
      refine ⟨rfl,?_⟩
      rw [List.append_assoc]
      exact congrArg _ (List.take_append_drop ..).symm
    · cases fine

theorem deflateOne_ended {z : WholeState} {taken made input : List UInt8} {room : Nat}
    (packs : PacksOne plain packed z taken made) (finished : (deflateOne plain packed z true input room).status = .streamEnd) :
    taken ++ input = plain ∧ made ++ (deflateOne plain packed z true input room).made = packed := by
  have whole {out : List UInt8} (finished : (if out.length ≤ room then DeflateStatus.streamEnd else .ok) = .streamEnd) :
      out.take room = out := by
    split at finished
    · rename_i fits
      exact List.take_of_length_le fits
    · cases finished
  rw [PacksOne] at packs
  rw [deflateOne] at finished ⊢
  split at packs
  · rename_i unmade
    obtain ⟨rfl,rfl⟩ := packs
    simp only [unmade,if_neg (by decide : ¬ true = false)] at finished ⊢
    split at finished
    · rename_i given
      rw [if_pos given]
      exact ⟨given,whole finished⟩
    · cases finished
  · rename_i out left
    obtain ⟨rfl,rfl⟩ := packs
    simp only [left] at finished ⊢
    split at finished
    · rename_i ending
      rw [if_pos ending,ending.2,List.append_nil]
      exact ⟨rfl,congrArg _ (whole finished)⟩
    · cases finished

def packingOne (plain packed : List UInt8) : Packing (deflatesOne plain packed) where
  streams data stream := data = plain ∧ stream = packed
  packs := PacksOne plain packed
  started _ z ready := by
    cases ready
    exact ⟨rfl,rfl⟩
  step _ _ _ _ _ _ packs fine := deflateOne_step packs fine
  ended _ _ _ _ _ packs finished := deflateOne_ended packs finished

/-- What a call emits of what there is to make. -/
theorem emits_on {input rest out : List UInt8} {room : Nat} (positive : 0 < room) (last : rest = []) (seen : List UInt8)
    {count : Nat} (all : input.drop count = []) : InflatesOn (UnpacksOne plain packed)
      ⟨if out.length ≤ room ∨ room = 0 then .streamEnd else .ok,count,out.take room,⟨seen,some (out.drop room)⟩⟩
      input rest out room := by
  refine ⟨out.drop room,(List.take_append_drop ..).symm,?_⟩
  dsimp only
  by_cases fits : out.length ≤ room
  · rw [if_pos (.inl fits)]
    exact .inl ⟨rfl,List.drop_of_length_le fits⟩
  · rw [if_neg (not_or.mpr ⟨fits,Nat.ne_of_gt positive⟩)]
    refine .inr ⟨rfl,⟨?_,rfl⟩,fun less => ?_⟩
    · rw [all,last,List.append_nil]
    · rw [List.length_take_of_le (Nat.le_of_not_le fits)] at less
      exact absurd less (Nat.lt_irrefl room)

theorem inflateOne_step {z : WholeState} {input rest made : List UInt8} {room : Nat}
    (unpacks : UnpacksOne plain packed z (input ++ rest) made) (positive : 0 < room) (starved : input = [] → rest = []) :
    InflatesOn (UnpacksOne plain packed) (inflateOne plain packed z input room) input rest made room := by
  rw [UnpacksOne] at unpacks
  rw [inflateOne]
  split at unpacks
  · rename_i unmade
    obtain ⟨parts,rfl⟩ := unpacks
    rw [← List.append_assoc] at parts
    split
    · rename_i whole
      have last : rest = [] := by
        rw [whole] at parts
        exact List.append_right_eq_self.mp parts.symm
      exact emits_on positive last packed List.drop_length
    · rename_i short
      have more : rest ≠ [] := by
        rintro rfl
        rw [List.append_nil] at parts
        exact short parts.symm
      rw [if_neg fun none => more (starved none)]
      refine ⟨made,rfl,.inr ⟨rfl,⟨?_,rfl⟩,fun _ => ⟨rfl,more⟩⟩⟩
      rw [parts,List.drop_length,List.nil_append]
  · rename_i out left
    obtain ⟨nothing,rfl⟩ := unpacks
    obtain ⟨rfl,last⟩ := List.append_eq_nil_iff.mp nothing
    exact emits_on positive last z.seen List.drop_nil

def unpackingOne (plain packed : List UInt8) : Unpacking (inflatesOne plain packed) where
  unpacks := UnpacksOne plain packed
  step _ _ _ _ _ unpacks positive starved := inflateOne_step unpacks positive starved

theorem inverseOne (plain packed : List UInt8) : Inverse (packingOne plain packed) (unpackingOne plain packed) := by
  rintro _ _ ⟨rfl,rfl⟩
  exact ⟨{},rfl,rfl,rfl⟩

end OneStream

section Parts
variable (miniz : Miniz) (header : FileHeader) (options : Option StreamWriterOptions)

def header1Unpacked : Nat := match options with
  | some options => options.header1UncompressedSize
  | none => 0

/-- The descriptors in the bytes that the caller gave, or none of them. -/
def header1Meant : Option Header1 :=
  if header1Given options = [] then some { objectCount := header.objectCount }
  else match unpackHeader1 miniz (header1Unpacked options) (header1Given options) with
    | none => none
    | some plain => (header1Parse plain header.objectCount).toOption

/-- The sizes in the header are those of the Header1 bytes in the file. -/
def Header1Framed : Prop :=
  if header1Given options = [] then
    (headerWritten header options).hdr1PackSize = 0 ∨ (headerWritten header options).hdr1UnpackSize = 0
  else (header1Given options).length < 2 ^ 32 ∧ 0 < header1Unpacked options ∧ header1Unpacked options < 2 ^ 32

end Parts

/-- Each object has the ID that the reader gives it: that of its descriptor, or else the stored one. -/
def IdsKept (header1 : Header1) (fileVersion : UInt32) : UInt32 → List StreamObject → Prop
  | _,[] => True
  | index,object :: rest =>
    (match objectDesc header1 index with
      | some desc => desc.fileId
      | none => (storedId fileVersion object).getD 0) = object.id ∧ IdsKept header1 fileVersion (index + 1) rest

/-- An object that is read has the ID and the chunk bytes of the one that was written. -/
structure SameRecord (object read : StreamObject) : Prop where
  id : read.id = object.id
  bytes : chunkBytes read.chunk = chunkBytes object.chunk

/-- The bytes of a chunk parse. -/
def ChunkParses (object : StreamObject) : Prop :=
  ∀ c, object.chunk = some c → Fits (decodeWords (payload c))

section Records
variable {header1 : Header1} {fileVersion : UInt32} {objects : List StreamObject}

theorem parsedChunk_bytes {bytes : List UInt8} (fits : Fits (decodeWords bytes)) :
    ∃ back, parsedChunk bytes = .ok back ∧ chunkBytes (some back) = bytes := by
  have some : 0 < bytes.length := Nat.pos_of_ne_zero (fits_nonempty bytes fits)
  refine ⟨filled (decodeWords bytes) { chunkCreate with rawData := .some bytes },?_,?_⟩
  · rw [parsedChunk,chunkParse_fits bytes chunkCreate fits]
    rfl
  · have raw : (filled (decodeWords bytes) { chunkCreate with rawData := .some bytes }).rawData = .some bytes := by
      simp only [filled,headed]
      split
      · rfl
      · split <;> rfl
    have cached : cachedBytes (filled (decodeWords bytes) { chunkCreate with rawData := .some bytes }) = .some bytes := by
      rw [cachedBytes,raw]
      exact if_pos some
    rw [chunkBytes,Option.map_some,Option.getD_some,payload,cached]
    rfl

/-- The records of the objects make objects with their IDs and chunk bytes. -/
theorem records_made {header : FileHeader} {index : UInt32} (ids : IdsKept header1 header.fileVersion index objects)
    (parses : ∀ object ∈ objects, ChunkParses object) (few : ∀ object ∈ objects, (chunkBytes object.chunk).length < 2 ^ 32) :
    ∃ records read, records.flatMap StreamRecord.bytes = objects.flatMap (objectRecord header.fileVersion) ∧
      records.length = objects.length ∧ (∀ each ∈ records, StreamRecord.Stored header each) ∧
      Makes header1 index records read ∧ List.Forall₂ SameRecord objects read := by
  induction objects generalizing index with
  | nil => exact ⟨[],[],rfl,rfl,nofun,.nil index,.nil⟩
  | cons object objects ih =>
    rw [List.forall_mem_cons] at parses few
    obtain ⟨id,ids⟩ := ids
    obtain ⟨records,read,bytes,count,stored,makes,same⟩ := ih ids parses.2 few.2
    let record : StreamRecord := ⟨storedId header.fileVersion object,chunkBytes object.chunk,few.1⟩
    obtain ⟨chunk,parsed,kept⟩ : ∃ chunk, record.chunk = .ok chunk ∧ chunkBytes chunk = chunkBytes object.chunk := by
      cases given : object.chunk with
      | none => exact ⟨none,by rw [StreamRecord.chunk]; simp only [record,given]; rfl,rfl⟩
      | some c =>
        obtain ⟨back,parsed,kept⟩ := parsedChunk_bytes (parses.1 c given)
        have some : payload c ≠ [] := List.length_pos_iff.mp (length_payload_pos c)
        refine ⟨.some back,?_,kept⟩
        have payload' : record.payload = payload c := by
          simp only [record,given]
          rfl
        rw [StreamRecord.chunk,payload',if_neg some,parsed]
        rfl
    have kind : record.Stored header := by
      rw [StreamRecord.Stored]
      simp only [record,storedId]
      split
      · rename_i old
        exact iff_of_true rfl old
      · rename_i late
        exact iff_of_false Bool.false_ne_true late
    refine ⟨record :: records,objectOf (objectDesc header1 index) (record.storedId.getD 0) chunk true :: read,?_,?_,?_,?_,?_⟩
    · rw [List.flatMap_cons,List.flatMap_cons,bytes]
      rfl
    · rw [List.length_cons,List.length_cons,count]
    · exact List.forall_mem_cons.mpr ⟨kind,stored⟩
    · refine .cons ?_ makes
      rw [StreamRecord.object,parsed]
      rfl
    · refine .cons ⟨?_,?_⟩ same
      · rw [← id]
        cases objectDesc header1 index <;> rfl
      · rw [← kept]
        cases objectDesc header1 index <;> rfl

end Records

/-- A reader at a position of a file, behind the headers. -/
def openedAt {zlib : InflateLibrary} {bufferSize : Nat} (memory : Memory (streamBufferSize bufferSize)) (content : List UInt8)
    (pos : Nat) (readAs : FileHeader) (header1 : Header1) : StreamReader diskFile zlib :=
  readerOpened (⟨content,pos⟩ : ByteFile UInt8) memory.bytes readAs header1

/-- What is left of a file on disk. -/
def DiskAhead (file : ByteFile UInt8) (bytes : List UInt8) : Prop := file.content.drop file.position = bytes

theorem diskFile_short : ShortReads diskFile DiskAhead := by
  intro (file : ByteFile UInt8) bytes size ahead some enough
  have length : (file.available size).length = size := by
    rw [← ahead,List.length_drop] at enough
    rw [ByteFile.length_available]
    exact Nat.min_eq_left enough
  refine ⟨file.available size,file.read size,bytes.drop size,rfl,?_,?_,?_⟩
  · intro empty
    rw [empty] at length
    exact absurd length.symm (Nat.ne_of_gt some)
  · rw [← ahead]
    exact (List.take_append_drop ..).symm
  · change file.content.drop (file.position + (file.available size).length) = _
    rw [length,← ahead,List.drop_drop]

/-- What a file keeps of a header: a version below 5 has no place for the fields of Part1. -/
def FileHeader.kept (header : FileHeader) : FileHeader :=
  if header.fileVersion ≥ 5 then header
  else { header with
    dataPackSize := 0, dataUnpackSize := 0, managerCount := 0, objectCount := 0, maxIdSaved := 0
    productVersion := 0, productBuild := 0, hdr1UnpackSize := 0 }

theorem kept_part1 (header : FileHeader) : fileHeaderSerialize header.kept = fileHeaderSerialize header ∧
    (header.kept.fileVersion < 5 → header.kept.Part1Zero) := by
  rw [FileHeader.kept]
  split
  · rename_i modern
    exact ⟨rfl,fun old => absurd old (UInt32.not_lt.mpr modern)⟩
  · rename_i old
    refine ⟨?_,fun _ => ⟨rfl,rfl,rfl,rfl,rfl,rfl,rfl,rfl⟩⟩
    rw [fileHeaderSerialize,fileHeaderSerialize,if_neg old,if_neg old]
    rfl

/-- What the checks look at is kept in every version. -/
theorem kept_part0 (header : FileHeader) :
    header.kept.signature = header.signature ∧ header.kept.fileVersion = header.fileVersion := by
  rw [FileHeader.kept]
  split <;> exact ⟨rfl,rfl⟩

theorem kept_validate (header : FileHeader) : fileHeaderValidate header.kept = fileHeaderValidate header := by
  obtain ⟨signature,version⟩ := kept_part0 header
  rw [fileHeaderValidate,fileHeaderValidate,version]
  simp only [signature]

theorem kept_parsed {header : FileHeader} (valid : fileHeaderValidate header = .ok ()) (rest : List UInt8) :
    (fileHeaderParse (fileHeaderSerialize header ++ rest)).run 0 = (.ok header.kept,(fileHeaderSerialize header).length) := by
  obtain ⟨bytes,old⟩ := kept_part1 header
  obtain ⟨length,parsed⟩ := fileHeader_roundTrip header.kept ((kept_validate header).trans valid) old [] rest
  rw [List.nil_append,List.length_nil,Nat.zero_add,← length,bytes] at parsed
  exact parsed

section
variable {deflater : DeflateLibrary} {zlib : InflateLibrary} (miniz : Miniz) (packing : Packing deflater)

/-- What a reader needs to find the parts of a file again: a header that it accepts, with room for the
sizes, without managers, and with the sizes of Header1 and the number of objects; chunks that parse; a
section that 32 bits can count; and a stream that is not as long as the section. -/
structure Readable (header : FileHeader) (options : Option StreamWriterOptions) (bufferSize : Nat)
    (objects : List StreamObject) : Prop where
  accepted : fileHeaderValidate header = .ok ()
  old : header.fileVersion < 5 → objects = [] ∧ header1Given options = [] ∧ header.objectCount = 0
  unmanaged : header.fileVersion < 6 ∨ header.managerCount = 0
  declared : objects ≠ [] → header.objectCount ≠ 0
  framed : header.fileVersion < 5 ∨ Header1Framed header options
  described : ∃ header1, header1Meant miniz header options = some header1 ∧ IdsKept header1 header.fileVersion 0 objects
  parses : ∀ object ∈ objects, ChunkParses object
  small : (sectionOf header objects).length < 2 ^ 32
  packed : writesCompressed header options = true → objects ≠ [] →
    writerBufferSize options < 2 ^ 32 ∧ streamBufferSize bufferSize < 2 ^ 32 ∧
      ∀ stream, packing.streams (sectionOf header objects) stream → stream.length < 2 ^ 32 ∧
        (stream.length = (sectionOf header objects).length → stream = sectionOf header objects)

/-- A reader opened on the file has the Header1 of the caller, returns the objects one by one, and then
reports the end. -/
def StreamReturns (zlib : InflateLibrary) (header : FileHeader) (options : Option StreamWriterOptions) {bufferSize : Nat}
    (memory : Memory (streamBufferSize bufferSize)) (objects : List StreamObject) (content : List UInt8) : Prop :=
  ∃ managers reader read message,
    (streamReaderCreate miniz memory content : Option (List ManagerData × StreamReader diskFile zlib)) = some (managers,reader) ∧
      header1Meant miniz header options = some reader.header1 ∧
      readObjects reader (objects.length + 1) = read.map .ok ++ [.error (.error .eof message)] ∧
      List.Forall₂ SameRecord objects read

variable {miniz} {packing} {header : FileHeader} {options : Option StreamWriterOptions} {bufferSize : Nat}
  {memory : Memory (streamBufferSize bufferSize)} {objects : List StreamObject} {content : List UInt8}

theorem objectBytes_small (small : (sectionOf header objects).length < 2 ^ 32) :
    ∀ object ∈ objects, (chunkBytes object.chunk).length < 2 ^ 32 := by
  intro object member
  refine Nat.lt_of_le_of_lt ?_ small
  have part : objectRecord header.fileVersion object <:+: sectionOf header objects := by
    obtain ⟨before,after,rfl⟩ := List.append_of_mem member
    rw [sectionOf,List.flatMap_append,List.flatMap_cons,← List.append_assoc]
    exact ⟨_,_,rfl⟩
  refine Nat.le_trans ?_ part.length_le
  rw [objectRecord,List.length_append]
  exact Nat.le_add_left ..

/-- The sizes in the header for Header1 bytes that were given. -/
theorem header1_sizes (sized : Header1Sized options) (some : header1Given options ≠ []) :
    (headerWritten header options).hdr1PackSize = UInt32.ofNat (header1Given options).length ∧
      (headerWritten header options).hdr1UnpackSize = UInt32.ofNat (header1Unpacked options) := by
  cases options with
  | none => exact absurd rfl some
  | some options =>
    refine ⟨?_,rfl⟩
    cases given : options.header1Data with
    | none =>
      rw [header1Given,given] at some
      exact absurd rfl some
    | some data =>
      rw [sized data given]
      rfl

/-- The reader finds the Header1 that the caller gave, behind the header. -/
theorem openHeader1_meant {readAs : FileHeader} {front after : List UInt8} {header1 : Header1}
    (framed : header1Given options = [] ∧ (readAs.hdr1PackSize = 0 ∨ readAs.hdr1UnpackSize = 0) ∨
      header1Given options ≠ [] ∧ readAs.hdr1PackSize = UInt32.ofNat (header1Given options).length ∧
        readAs.hdr1UnpackSize = UInt32.ofNat (header1Unpacked options) ∧
        (header1Given options).length < 2 ^ 32 ∧ 0 < header1Unpacked options ∧ header1Unpacked options < 2 ^ 32)
    (count : readAs.objectCount = header.objectCount) (meant : header1Meant miniz header options = some header1) :
    openHeader1 miniz readAs (front ++ header1Given options ++ after) front.length =
      some (header1,front.length + (header1Given options).length) := by
  rw [header1Meant] at meant
  rw [openHeader1]
  rcases framed with ⟨none,absent⟩ | ⟨some,packSize,unpackSize,small,positive,fits⟩
  · rw [if_pos none] at meant
    rw [if_neg (by
      rintro ⟨first,second⟩
      rcases absent with zero | zero
      · rw [zero] at first
        exact absurd first (by decide)
      · rw [zero] at second
        exact absurd second (by decide)),← Option.some.inj meant,none,count]
    rfl
  · rw [if_neg some] at meant
    have packed : readAs.hdr1PackSize.toNat = (header1Given options).length := by
      rw [packSize]
      exact UInt32.toNat_ofNat_of_lt' small
    have unpacked : readAs.hdr1UnpackSize.toNat = header1Unpacked options := by
      rw [unpackSize]
      exact UInt32.toNat_ofNat_of_lt' fits
    have piece : slice (front ++ header1Given options ++ after) front.length (header1Given options).length =
        header1Given options := by
      rw [slice,List.append_assoc,List.drop_left,List.take_left]
    have both : readAs.hdr1PackSize > 0 ∧ readAs.hdr1UnpackSize > 0 := by
      refine ⟨UInt32.lt_iff_toNat_lt.mpr ?_,UInt32.lt_iff_toNat_lt.mpr ?_⟩
      · rw [packed]
        exact List.length_pos_iff.mpr some
      · rw [unpacked]
        exact positive
    rw [if_pos both,packed,unpacked]
    dsimp only
    rw [piece,if_neg (not_not.mpr rfl),count]
    cases gave : unpackHeader1 miniz (header1Unpacked options) (header1Given options) with
    | none =>
      rw [gave] at meant
      cases meant
    | some plain =>
      rw [gave] at meant
      dsimp only at meant ⊢
      cases parsed : header1Parse plain header.objectCount with
      | error stop =>
        rw [parsed] at meant
        cases meant
      | ok found =>
        rw [parsed] at meant
        cases meant
        rfl

/-- The header that the reader has read is that of the section and of the objects. -/
structure ReadAs (header : FileHeader) (data stored : List UInt8) (readAs : FileHeader) : Prop where
  fileVersion : readAs.fileVersion = header.fileVersion
  objectCount : readAs.objectCount = header.objectCount
  unmanaged : readAs.fileVersion < 6 ∨ readAs.managerCount = 0
  dataPackSize : readAs.dataPackSize = UInt32.ofNat stored.length
  dataUnpackSize : readAs.dataUnpackSize = UInt32.ofNat data.length

theorem StoredAs.nothing {compress : Bool} {stored : List UInt8} (storedAs : StoredAs packing compress [] stored) :
    stored = [] := by
  cases storedAs with
  | plain => rfl
  | empty => rfl
  | packed some _ => exact absurd rfl some

theorem Readable.readAs (readable : Readable miniz packing header options bufferSize objects) {stored : List UInt8}
    (storedAs : StoredAs packing (writesCompressed header options) (sectionOf header objects) stored) :
    ReadAs header (sectionOf header objects) stored
      ((headerWritten header options).sized stored.length (sectionOf header objects).length).kept := by
  rw [FileHeader.kept]
  split
  · exact ⟨rfl,rfl,readable.unmanaged,rfl,rfl⟩
  · rename_i old
    obtain ⟨rfl,_,none⟩ := readable.old (UInt32.not_le.mp old)
    have nothing : stored = [] := storedAs.nothing
    refine ⟨rfl,none.symm,.inr rfl,?_,rfl⟩
    rw [nothing]
    rfl

theorem Readable.framedAs (readable : Readable miniz packing header options bufferSize objects) (sized : Header1Sized options)
    (packSize unpackSize : Nat) : let readAs := ((headerWritten header options).sized packSize unpackSize).kept
    header1Given options = [] ∧ (readAs.hdr1PackSize = 0 ∨ readAs.hdr1UnpackSize = 0) ∨
      header1Given options ≠ [] ∧ readAs.hdr1PackSize = UInt32.ofNat (header1Given options).length ∧
        readAs.hdr1UnpackSize = UInt32.ofNat (header1Unpacked options) ∧
        (header1Given options).length < 2 ^ 32 ∧ 0 < header1Unpacked options ∧ header1Unpacked options < 2 ^ 32 := by
  dsimp only
  rw [FileHeader.kept]
  split
  · rename_i modern
    have framed := readable.framed.resolve_left (UInt32.not_lt.mpr modern)
    rw [Header1Framed] at framed
    split at framed
    · rename_i none
      exact .inl ⟨none,framed⟩
    · rename_i some
      obtain ⟨packSize,unpackSize⟩ := header1_sizes sized some
      exact .inr ⟨some,packSize,unpackSize,framed⟩
  · rename_i old
    exact .inl ⟨(readable.old (UInt32.not_le.mp old)).2.1,.inr rfl⟩

/-- A reader opens on the file, behind the header and Header1. -/
theorem Readable.opens (zlib : InflateLibrary) (memory : Memory (streamBufferSize bufferSize)) (readable : Readable miniz packing header options bufferSize objects)
    (left : StreamContent packing header options objects content) : ∃ header1 readAs stored pos,
      header1Meant miniz header options = some header1 ∧ IdsKept header1 header.fileVersion 0 objects ∧
      StoredAs packing (writesCompressed header options) (sectionOf header objects) stored ∧
      ReadAs header (sectionOf header objects) stored readAs ∧ content.drop pos = stored ∧
      streamReaderCreate miniz memory content =
        some ([],(openedAt memory content pos readAs header1 : StreamReader diskFile zlib)) := by
  obtain ⟨stored,storedAs,parts⟩ := left.parts
  obtain ⟨header1,meant,ids⟩ := readable.described
  have readAs := readable.readAs storedAs
  let written := (headerWritten header options).sized stored.length (sectionOf header objects).length
  let front := fileHeaderSerialize written
  have behind : content.drop (front.length + (header1Given options).length) = stored := by
    rw [parts,← List.length_append]
    exact List.drop_left
  refine ⟨header1,written.kept,stored,_,meant,ids,storedAs,readAs,behind,?_⟩
  have valid : fileHeaderValidate written = .ok () := readable.accepted
  have parsed : (fileHeaderParse content).run 0 = (.ok written.kept,front.length) := by
    rw [parts,List.append_assoc]
    exact kept_parsed valid _
  have found : openHeader1 miniz written.kept content front.length =
      some (header1,front.length + (header1Given options).length) := by
    rw [parts]
    exact openHeader1_meant (readable.framedAs left.header1 _ _) readAs.objectCount meant
  have none (reader : StreamReader diskFile zlib) (same : reader.header = written.kept) :
      readerLoadManagers.run reader = (.ok [],reader) := by
    have absent : reader.header.fileVersion < 6 ∨ reader.header.managerCount = 0 := same ▸ readAs.unmanaged
    rw [readerLoadManagers,Action.bind_ok _ (Action.read_apply _ _),if_pos absent]
    rfl
  rw [streamReaderCreate,parsed]
  dsimp only
  rw [kept_validate,valid]
  dsimp only
  rw [found]
  dsimp only
  rw [none _ rfl]
  rfl

variable {readAs : FileHeader} {header1 : Header1} {data stored : List UInt8} {pos : Nat} {unpacking : Unpacking zlib}

theorem memory_some (memory : Memory (streamBufferSize bufferSize)) : memory.bytes ≠ [] := by
  intro empty
  have size := memory.sized
  rw [empty,streamBufferSize,List.length_nil] at size
  split at size
  · rename_i some
    exact some size.symm
  · cases size

/-- A section that is no shorter in the file lies ahead as it is. -/
theorem supplies_plain (read : ReadAs header data data readAs) (small : data.length < 2 ^ 32) (behind : content.drop pos = data) :
    Supplies (SectionAhead DiskAhead []) (openedAt memory content pos readAs header1 : StreamReader diskFile zlib) data := by
  have unpackSize : readAs.dataUnpackSize.toNat = data.length := by
    rw [read.dataUnpackSize]
    exact UInt32.toNat_ofNat_of_lt' small
  have same : readAs.dataPackSize = readAs.dataUnpackSize := read.dataPackSize.trans read.dataUnpackSize.symm
  have plain : decide (readAs.dataPackSize ≠ readAs.dataUnpackSize) = false := decide_eq_false fun packed => packed same
  refine ⟨⟨data,⟨plain,memory_some memory,?_,?_,fun _ => rfl⟩,rfl⟩,unpackSize,?_⟩
  · exact (congrArg UInt32.toNat same).trans unpackSize
  · rw [List.append_nil]
    exact behind
  · exact fun packed => absurd (plain.symm.trans packed) Bool.false_ne_true

/-- A section that was deflated lies ahead of the fills that inflate it. -/
theorem supplies_packed (read : ReadAs header data stored readAs) (small : data.length < 2 ^ 32) (few : stored.length < 2 ^ 32)
    (shorter : stored.length ≠ data.length) (buffer : streamBufferSize bufferSize < 2 ^ 32) (behind : content.drop pos = stored)
    {z : zlib.State} (ready : zlib.init = some z) (gives : unpacking.unpacks z stored data) :
    Supplies (PackedAhead unpacking DiskAhead []) (openedAt memory content pos readAs header1 : StreamReader diskFile zlib) data := by
  have unpackSize : readAs.dataUnpackSize.toNat = data.length := by
    rw [read.dataUnpackSize]
    exact UInt32.toNat_ofNat_of_lt' small
  have packSize : readAs.dataPackSize.toNat = stored.length := by
    rw [read.dataPackSize]
    exact UInt32.toNat_ofNat_of_lt' few
  have packed : decide (readAs.dataPackSize ≠ readAs.dataUnpackSize) = true := by
    refine decide_eq_true fun same => shorter ?_
    rw [← packSize,same,unpackSize]
  have within : memory.bytes.length < 2 ^ 32 := Nat.lt_of_le_of_lt (Nat.le_of_eq memory.sized) buffer
  refine ⟨⟨data,⟨packed,memory_some memory,within,.inr ⟨rfl,z,stored,packSize,?_,.inr ⟨rfl,ready,gives⟩⟩⟩,rfl⟩,unpackSize,
    fun _ => within⟩
  rw [List.append_nil]
  exact behind

/-- Whatever hands out the section, the reader returns the objects. -/
theorem returns_supplied {stock : StreamSource diskFile zlib → List UInt8 → Prop}
    (backs : Backs (sourceNext : Run (StreamSource diskFile zlib) (List UInt8)) stock)
    (read : ReadAs header (sectionOf header objects) stored readAs) (small : (sectionOf header objects).length < 2 ^ 32)
    (ids : IdsKept header1 header.fileVersion 0 objects) (parses : ∀ object ∈ objects, ChunkParses object)
    (within : objects.length ≤ header.objectCount.toNat)
    (supplies : Supplies stock (openedAt memory content pos readAs header1 : StreamReader diskFile zlib) (sectionOf header objects)) :
    ∃ read message, readObjects (openedAt memory content pos readAs header1 : StreamReader diskFile zlib) (objects.length + 1) = read.map .ok ++ [.error (.error .eof message)] ∧
      List.Forall₂ SameRecord objects read := by
  rw [← read.fileVersion] at ids
  rw [← read.objectCount,← Nat.zero_add objects.length] at within
  obtain ⟨records,made,bytes,count,stored,makes,same⟩ := records_made ids parses (objectBytes_small small)
  rw [sectionOf,← read.fileVersion,← bytes] at supplies
  obtain ⟨message,ran⟩ := readObjects_supplied backs stored (count ▸ within) makes supplies
  exact ⟨made,message,count ▸ ran,same⟩

theorem StoredAs.kinds {compress : Bool} (storedAs : StoredAs packing compress data stored) :
    stored = data ∨ (compress = true ∧ data ≠ [] ∧ packing.streams data stored) := by
  cases storedAs with
  | plain => exact .inl rfl
  | empty => exact .inl rfl
  | packed some streams => exact .inr ⟨rfl,some,streams⟩

/-- The section lies ahead of the reader, as it is or packed. -/
theorem Readable.supplies (readable : Readable miniz packing header options bufferSize objects)
    (inverse : Inverse packing unpacking)
    (storedAs : StoredAs packing (writesCompressed header options) (sectionOf header objects) stored)
    (read : ReadAs header (sectionOf header objects) stored readAs) (behind : content.drop pos = stored) :
    ∃ stock, Backs (sourceNext : Run (StreamSource diskFile zlib) (List UInt8)) stock ∧
      Supplies stock (openedAt memory content pos readAs header1 : StreamReader diskFile zlib) (sectionOf header objects) := by
  have asItIs (same : stored = sectionOf header objects) :
      Supplies (SectionAhead DiskAhead []) (openedAt memory content pos readAs header1 : StreamReader diskFile zlib)
        (sectionOf header objects) := by
    subst same
    exact supplies_plain read readable.small behind
  rcases storedAs.kinds with same | ⟨packed,some,streams⟩
  · exact ⟨_,section_backs diskFile_short,asItIs same⟩
  · have some' : objects ≠ [] := by
      rintro rfl
      exact some rfl
    obtain ⟨_,buffer,sizes⟩ := readable.packed packed some'
    obtain ⟨few,coincides⟩ := sizes stored streams
    by_cases shorter : stored.length = (sectionOf header objects).length
    · exact ⟨_,section_backs diskFile_short,asItIs (coincides shorter)⟩
    · obtain ⟨z,ready,gives⟩ := inverse _ _ streams
      exact ⟨_,packed_backs diskFile_short,supplies_packed read readable.small few shorter buffer behind ready gives⟩

/-- A reader returns what a writer was given, where the file is readable, and deflating and inflating are
inverse to each other. -/
theorem stream_returned {sink : FileSink} {fuel : Nat} {output : Memory (writerBufferSize options)}
    (inverse : Inverse packing unpacking)
    (written : streamWritten sink deflater fuel header options output objects = some content)
    (readable : Readable miniz packing header options bufferSize objects) :
    StreamReturns miniz zlib header options memory objects content := by
  have few := objectBytes_small readable.small
  have left := streamWritten_content packing (fun some packed => (readable.packed packed some).1) few written
  obtain ⟨header1,readAs,stored,pos,meant,ids,storedAs,read,behind,opened⟩ := readable.opens zlib memory left
  have within : objects.length ≤ header.objectCount.toNat := by
    cases objects with
    | nil => exact Nat.zero_le _
    | cons object rest => exact left.within (readable.declared (List.cons_ne_nil _ _))
  obtain ⟨stock,backs,supplies⟩ := readable.supplies inverse storedAs read behind
  obtain ⟨made,message,ran,same⟩ := returns_supplied backs read readable.small ids readable.parses within supplies
  exact ⟨[],_,made,message,opened,meant,ran,same⟩

end

/-- A file whose writes all go well. -/
def wholeSink : FileSink where
  write file bytes := (true,file.write 0 bytes)
  whole _ _ _ wrote := (Prod.mk.inj wrote).2.symm

def blank (size : Nat) : Memory size := ⟨List.replicate size 0,List.length_replicate ..⟩

def packedOptions : Option StreamWriterOptions := some { bufferSize := 16, compressData := true }

/-- Two objects in 24 bytes, and the stream of 19 bytes that zlib makes of them. -/
def twoObjects : List StreamObject :=
  [{ id := 1, classId := 0, fileIndex := 1 },{ id := 2, classId := 0, fileIndex := 2, chunk := some chunkCreate }]

def twoSection : List UInt8 := [1,0,0,0, 0,0,0,0, 2,0,0,0, 8,0,0,0, 0,0,7,0, 0,0,0,0]

def twoStream : List UInt8 := [120,156,99,100,128,0,38,32,230,0,179,216,193,36,0,0,218,0,19]

def twoHeader : FileHeader := { fileVersion := 6, objectCount := 2 }

def twoContent : List UInt8 :=
  fileHeaderSerialize { twoHeader with fileWriteMode := 2, dataPackSize := 19, dataUnpackSize := 24 } ++ twoStream

theorem twoObjects_written : streamWritten wholeSink (deflatesOne twoSection twoStream) 5 twoHeader packedOptions (blank 16)
    twoObjects = some twoContent := by
  decide +kernel

def smallMemory : Memory (streamBufferSize 8) := blank 8

theorem twoObjects_readable :
    Readable noMiniz (packingOne twoSection twoStream) twoHeader packedOptions 8 twoObjects where
  accepted := rfl
  old old := absurd old (by decide)
  unmanaged := .inr rfl
  declared _ := by decide
  framed := .inr (.inl rfl)
  described := ⟨{ objectCount := 2 },rfl,rfl,rfl,trivial⟩
  parses := by
    have fits : Fits (decodeWords (payload chunkCreate)) := ⟨by decide +kernel,by decide +kernel⟩
    refine List.forall_mem_cons.mpr ⟨nofun,List.forall_mem_cons.mpr ⟨fun c given => ?_,nofun⟩⟩
    rw [← Option.some.inj given]
    exact fits
  small := by decide +kernel
  packed _ _ := by
    refine ⟨by decide,by decide,fun stream streams => ?_⟩
    obtain ⟨_,rfl⟩ := streams
    exact ⟨by decide,fun same => absurd same (by decide +kernel)⟩

theorem stream_returned_two : StreamReturns noMiniz (inflatesOne twoSection twoStream) twoHeader packedOptions smallMemory twoObjects
    twoContent :=
  stream_returned (inverseOne twoSection twoStream) twoObjects_written twoObjects_readable

/-- Two objects in 16 bytes, of which zlib makes a stream of 16 bytes. -/
def evenObjects : List StreamObject :=
  [{ id := 1, classId := 0, fileIndex := 1 },{ id := 0x20304, classId := 0, fileIndex := 0x20304 }]

def evenSection : List UInt8 := [1,0,0,0, 0,0,0,0, 4,3,2,0, 0,0,0,0]

def evenStream : List UInt8 := [120,156,99,100,128,0,22,102,38,48,13,0,0,97,0,11]

def evenContent : List UInt8 :=
  fileHeaderSerialize { twoHeader with fileWriteMode := 2, dataPackSize := 16, dataUnpackSize := 16 } ++ evenStream

/-- A stream as long as the section is read as if it were the section. -/
theorem evenObjects_lost : Inverse (packingOne evenSection evenStream) (unpackingOne evenSection evenStream) ∧
    streamWritten wholeSink (deflatesOne evenSection evenStream) 5 twoHeader packedOptions (blank 16) evenObjects =
      some evenContent ∧
    ¬ StreamReturns noMiniz (inflatesOne evenSection evenStream) twoHeader packedOptions smallMemory evenObjects evenContent := by
  have lost : (streamReaderCreate noMiniz smallMemory evenContent :
      Option (List ManagerData × StreamReader diskFile (inflatesOne evenSection evenStream))).map
        (fun opened => ((readNextObject {}).run opened.2).1.toBool) = some false := by decide +kernel
  refine ⟨inverseOne _ _,by decide +kernel,?_⟩
  rintro ⟨managers,reader,read,message,opened,_,ran,same⟩
  rw [opened] at lost
  cases same with | cons _ _ =>
  rw [List.map_cons,List.cons_append,readObjects,List.cons.injEq] at ran
  rw [Option.map_some,ran.1] at lost
  cases lost

end Libnmo.Format
