import Libnmo.Format.StreamRequests

/-! An uncompressed section as its requests see it: a position that moves over the bytes of the
section. The reader serves the same slices, whatever its buffer holds and however short the reads
of the file are. -/
namespace Libnmo.Format
open Core Lib Lib.Cursor Lib.Patch

inductive Request
  | copy (size : Nat)
  | skip (size : Nat)
  deriving DecidableEq, Repr

namespace Request

def size : Request → Nat
  | copy size | skip size => size

/-- What a request asks for, at a position of the section. -/
def answer (data : List UInt8) (pos : Nat) : Request → List UInt8
  | copy size => slice data pos size
  | skip _ => []

def refusal : Request → Stop
  | copy _ => .error .eof "Attempted to read beyond data section"
  | skip _ => .error .eof "Attempted to skip beyond data section"

end Request

/-- The consecutive slices of a section. A request for more than there is moves nothing. -/
def slices (data : List UInt8) : Nat → List Request → List (Result (List UInt8))
  | _,[] => []
  | pos,request :: rest =>
    if request.size ≤ data.length - pos then .ok (request.answer data pos) :: slices data (pos + request.size) rest
    else .error request.refusal :: slices data pos rest

section
variable {io : StreamIo} {zlib : InflateLibrary}

def serve : Request → Run (StreamReader io zlib) (List UInt8)
  | .copy size => readerCopyBytes size
  | .skip size => do
    readerSkipBytes size
    pure []

/-- What the reader answers to one request after the other. -/
def served (reader : StreamReader io zlib) : List Request → List (Result (List UInt8))
  | [] => []
  | request :: rest => ((serve request).run reader).1 :: served ((serve request).run reader).2 rest

/-- A read gives some of the bytes that lie ahead in the file, at least one, as long as there are enough of them. -/
def ShortReads (io : StreamIo) (ahead : io.State → List UInt8 → Prop) : Prop :=
  ∀ file bytes size, ahead file bytes → 0 < size → size ≤ bytes.length →
    ∃ piece file' rest, io.read file size = (some piece,file') ∧ piece ≠ [] ∧ bytes = piece ++ rest ∧ ahead file' rest

variable {ahead : io.State → List UInt8 → Prop} {beyond data rest : List UInt8} {pos : Nat}
  {reader : StreamReader io zlib} {s : StreamSource io zlib}

/-- An uncompressed section of which `rest` is still to be read. -/
structure SectionAhead (ahead : io.State → List UInt8 → Prop) (beyond : List UInt8) (s : StreamSource io zlib)
    (rest : List UInt8) : Prop where
  plain : s.dataCompressed = false
  room : s.outBuffer ≠ []
  remaining : s.compressedRemaining = rest.length
  ahead : ahead s.file (rest ++ beyond)
  unfinished : rest ≠ [] → s.streamFinished = false

theorem section_backs (short : ShortReads io ahead) :
    Backs (sourceNext : Run (StreamSource io zlib) (List UInt8)) (SectionAhead ahead beyond) := by
  constructor
  · intro s rest begun some
    have more : s.compressedRemaining ≠ 0 := by
      rw [begun.remaining]
      exact fun none => some (List.length_eq_zero_iff.mp none)
    have wanted : 0 < min s.bufferSize s.compressedRemaining := by
      refine Nat.lt_min.mpr ⟨?_,Nat.pos_of_ne_zero more⟩
      exact List.length_pos_iff.mpr begun.room
    have inside : min s.bufferSize s.compressedRemaining ≤ (rest ++ beyond).length := by
      rw [List.length_append,← begun.remaining]
      exact (Nat.min_le_right ..).trans (Nat.le_add_right ..)
    obtain ⟨piece,file,left,read,filled,parts,follows⟩ := short s.file _ _ begun.ahead wanted inside
    have within := io.within _ _ _ _ read
    rw [Nat.le_min,begun.remaining] at within
    obtain ⟨rest',rfl⟩ : piece <+: rest :=
      List.prefix_of_prefix_length_le ⟨left,parts.symm⟩ (List.prefix_append ..) within.2
    rw [List.append_assoc,List.append_cancel_left_eq] at parts
    rw [← parts] at follows
    have counted : s.compressedRemaining - piece.length = rest'.length := by
      rw [begun.remaining,List.length_append,Nat.add_sub_cancel_left]
    have ran := fillPlain_reads more filled read
    rw [← fillSource_plain begun.plain,← sourceNext_fills (begun.unfinished some)] at ran
    refine ⟨piece,_,rest',ran,rfl,begun.plain,?_,counted,follows,fun some' => ?_⟩
    · intro empty
      have size := length_overwrite s.outBuffer 0 piece (by
        rw [Nat.zero_add]
        exact within.1)
      exact begun.room (List.length_eq_zero_iff.mp (size.symm.trans (congrArg List.length empty)))
    · dsimp only
      rw [begun.unfinished some,counted,Bool.false_or]
      exact decide_eq_false fun none => some' (List.length_eq_zero_iff.mp none)
  · intro s begun
    cases finished : s.streamFinished with
    | true => exact ⟨_,s,sourceNext_finished finished⟩
    | false =>
      have none : s.compressedRemaining = 0 := begun.remaining
      rw [sourceNext_fills finished,fillSource_plain begun.plain,fillPlain,
        Action.bind_ok _ (Action.read_apply _ _),if_pos none]
      exact ⟨_,_,rfl⟩

/-- The reader is at a position of the section: what it holds and what is still to be read follow there. -/
structure Serving (ahead : io.State → List UInt8 → Prop) (beyond data : List UInt8) (reader : StreamReader io zlib)
    (pos : Nat) : Prop where
  inside : pos ≤ data.length
  follows : ∃ rest, SectionAhead ahead beyond reader.source rest ∧ reader.window.held ++ rest = data.drop pos
  remaining : reader.uncompressedRemaining = data.length - pos

theorem Serving.small (serving : Serving ahead beyond data reader pos) : SmallBuffer reader.source := by
  obtain ⟨rest,begun,_⟩ := serving.follows
  intro packed
  rw [begun.plain] at packed
  cases packed

/-- A request within the section is served and moves the position. -/
theorem copyLoop_serves (short : ShortReads io ahead) (serving : Serving ahead beyond data reader pos) {size : Nat}
    (within : size ≤ data.length - pos) : ∃ t, (readerCopyLoop (size + 1) size).run reader =
      (.ok (slice data pos size),t) ∧ Serving ahead beyond data t (pos + size) := by
  obtain ⟨rest,begun,follows⟩ := serving.follows
  have backs : Backs (sourceNext : Run (StreamSource io zlib) _) (SectionAhead ahead beyond) := section_backs short
  have ahead' : size ≤ (data.drop pos).length := by rwa [List.length_drop]
  rcases readerCopyLoop_cases (Nat.lt_succ_self size) serving.small (serving.remaining ▸ within) with
    ⟨taken,t,ran,length,draws⟩ | ⟨stop,t,ran,breaks⟩
  · obtain ⟨rest',parts,begun'⟩ := draws.gives.backed backs begun
    rw [follows] at parts
    have same : slice data pos size = taken := by
      rw [slice,parts,← length,List.take_left]
    refine ⟨t,same ▸ ran,?_,⟨rest',begun',?_⟩,?_⟩
    · have inside := serving.inside
      omega
    · rw [← List.drop_drop,parts,← length,List.drop_left]
    · have counted := draws.counted
      rw [serving.remaining,length] at counted
      omega
  · obtain ⟨taken,s,few,gives,failed⟩ := breaks.short
    obtain ⟨rest',parts,begun'⟩ := gives.backed backs begun
    rw [backs.ended begun' failed,follows,List.append_nil,List.append_nil] at parts
    rw [parts] at ahead'
    exact absurd few (Nat.not_lt.mpr ahead')

theorem serve_within (short : ShortReads io ahead) (serving : Serving ahead beyond data reader pos) {request : Request}
    (within : request.size ≤ data.length - pos) : ∃ t, (serve request).run reader = (.ok (request.answer data pos),t) ∧
      Serving ahead beyond data t (pos + request.size) := by
  obtain ⟨t,ran,serving'⟩ := copyLoop_serves short serving within
  refine ⟨t,?_,serving'⟩
  rw [← serving.remaining] at within
  cases request with
  | copy size => exact (readerCopyBytes_allowed within).trans ran
  | skip size => exact Action.bind_ok _ ((readerSkipBytes_allowed within).trans (Action.bind_ok _ ran))

theorem serve_beyond {request : Request} (beyond : request.size > reader.uncompressedRemaining) :
    (serve request).run reader = (.error request.refusal,reader) := by
  cases request with
  | copy size => exact readerCopyBytes_refused beyond
  | skip size => exact Action.bind_error _ (readerSkipBytes_refused beyond)

theorem served_serving (short : ShortReads io ahead) (serving : Serving ahead beyond data reader pos)
    (requests : List Request) : served reader requests = slices data pos requests := by
  induction requests generalizing reader pos with
  | nil => rfl
  | cons request requests ih =>
    rw [served,slices]
    by_cases within : request.size ≤ data.length - pos
    · obtain ⟨t,ran,serving'⟩ := serve_within short serving within
      rw [if_pos within,ran,ih serving']
    · have refused : (serve request).run reader = _ := serve_beyond (by
        rw [serving.remaining]
        exact Nat.not_le.mp within)
      rw [if_neg within,refused,ih serving]

theorem serving_opened {file : io.State} {outBuffer : List UInt8} {header : FileHeader} (header1 : Header1)
    (room : outBuffer ≠ []) (plain : header.dataPackSize = header.dataUnpackSize)
    (sized : header.dataUnpackSize.toNat = data.length) (starts : ahead file (data ++ beyond)) :
    Serving ahead beyond data (readerOpened file outBuffer header header1 : StreamReader io zlib) 0 := by
  refine ⟨Nat.zero_le _,⟨data,⟨?_,room,?_,starts,fun _ => rfl⟩,rfl⟩,sized⟩
  · exact decide_eq_false fun packed => packed plain
  · exact (congrArg UInt32.toNat plain).trans sized

/-- Requests to a reader that was opened on an uncompressed section are answered with its consecutive slices,
for every output buffer that is not empty and for reads of the file that are short in any way. -/
theorem opened_slices (short : ShortReads io ahead) (file : io.State) (outBuffer : List UInt8) (header : FileHeader)
    (header1 : Header1) (data beyond : List UInt8) (room : outBuffer ≠ [])
    (plain : header.dataPackSize = header.dataUnpackSize) (sized : header.dataUnpackSize.toNat = data.length)
    (starts : ahead file (data ++ beyond)) (requests : List Request) :
    served (readerOpened file outBuffer header header1 : StreamReader io zlib) requests = slices data 0 requests :=
  served_serving short (serving_opened header1 room plain sized starts) requests

end

/-- A file whose reads are cut to the counts of a list, one after the other. -/
def countedFile : StreamIo where
  State := List Nat × List UInt8
  read file size :=
    let count := min size (file.1.headD size)
    (some (file.2.take count),(file.1.tail,file.2.drop count))
  within file size bytes t ran := by
    obtain rfl := Option.some.inj (Prod.mk.inj ran).1
    exact (List.length_take_le ..).trans (Nat.min_le_left ..)

def noInflate : InflateLibrary where
  State := Unit
  init := none
  inflate z _ _ := ⟨.failed,0,[],z⟩
  taken_le _ _ _ := Nat.zero_le _
  made_le _ _ _ := Nat.zero_le _
  progress _ _ _ := nofun
  stuck _ _ _ _ _ _ _ := rfl

theorem countedFile_short :
    ShortReads countedFile fun file bytes => file.2 = bytes ∧ ∀ count ∈ file.1, 0 < count := by
  rintro ⟨counts,data⟩ bytes size ⟨rfl,positive⟩ some enough
  refine ⟨_,_,_,rfl,?_,(List.take_append_drop ..).symm,rfl,fun count member => ?_⟩
  · have taken : 0 < min size (counts.headD size) := by
      refine Nat.lt_min.mpr ⟨some,?_⟩
      cases counts with
      | nil => exact some
      | cons count counts => exact positive count (List.mem_cons_self ..)
    intro empty
    rcases List.take_eq_nil_iff.mp empty with none | none
    · exact absurd taken (none ▸ Nat.lt_irrefl 0)
    · dsimp only at none enough
      rw [none,List.length_nil] at enough
      exact absurd some (Nat.not_lt.mpr enough)
  · exact positive count (List.mem_of_mem_tail member)

/-- Six bytes behind a buffer of four, read in pieces of one, three and two. -/
theorem opened_slices_six :
    served (readerOpened (([1,3],[10,11,12,13,14,15]) : List Nat × List UInt8) [0,0,0,0]
      { dataPackSize := 6, dataUnpackSize := 6 } {} : StreamReader countedFile noInflate)
      [.copy 2,.skip 3,.copy 4,.copy 1] = slices [10,11,12,13,14,15] 0 [.copy 2,.skip 3,.copy 4,.copy 1] :=
  opened_slices countedFile_short ([1,3],[10,11,12,13,14,15]) [0,0,0,0] { dataPackSize := 6, dataUnpackSize := 6 } {}
    [10,11,12,13,14,15] [] nofun rfl rfl ⟨rfl,by decide⟩ [.copy 2,.skip 3,.copy 4,.copy 1]

end Libnmo.Format
