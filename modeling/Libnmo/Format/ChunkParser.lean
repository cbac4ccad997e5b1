import Libnmo.Format.ChunkWriter
import Libnmo.Lib.Reads

/-! `nmo_chunk_parser`: a cursor over the data of a chunk, here with the reading
of sub-chunks. The words are read by actions on the cursor alone. -/
namespace Libnmo.Format
open Core Lib Lib.Cursor

structure ChunkParser where
  chunk : Chunk
  cursor : Nat := 0
  prevIdentifierPos : Nat := 0
  fileContext : Option ChunkFileContext := none
  objectSequenceRemaining : Nat := 0
  managerSequenceRemaining : Nat := 0
  subchunkSequenceRemaining : Nat := 0
  inObjectSequence : Bool := false
  inManagerSequence : Bool := false
  inSubchunkSequence : Bool := false
  currentManagerGuid : Guid := {}

def parserCreate (c : Chunk) : ChunkParser := { chunk := c }

def parserSeek (pos : Nat) : Run ChunkParser Unit where
  run p :=
    if pos > p.chunk.dataSize then (.error (.error .invalidOffset ""),p)
    else (.ok (),{ p with cursor := pos })

section Reading
variable (data : List UInt32)

/-- `check_bounds`, whose failure is the end of the data. -/
def checkBounds (dwordsNeeded : Nat) : Run Nat Unit where
  run cursor :=
    if cursor + dwordsNeeded ≤ data.length then (.ok (),cursor) else (.error (.error .eof ""),cursor)

/-- `data[cursor++]` after its check. -/
def parserDword : Run Nat UInt32 where
  run cursor := match data[cursor]? with
    | some word => (.ok word,cursor + 1)
    | none => (.error (.error .eof ""),cursor)

/-- A list of a positive count, after its check. -/
def parserDwords (count : UInt32) : Run Nat (List UInt32) :=
  if count > 0 then do
    checkBounds data count.toNat
    ⟨fun cursor => (.ok (slice data cursor count.toNat),cursor + count.toNat)⟩
  else pure []

/-- The manager count of a sub-chunk, which has a field only after version 4. -/
def parserManagerCount (chunkVersion : UInt32) : Run Nat UInt32 :=
  if chunkVersion > 4 then parserDword data else pure 0

/-- The sub-chunk after its size field. The positions of its own sub-chunks are skipped. -/
def readSubchunkBody (sizeDwords : UInt32) : Run Nat Chunk := do
  checkBounds data sizeDwords.toNat
  let classId ← parserDword data
  let versionInfo ← parserDword data
  let sub : Chunk := { chunkCreate with
    classId := classId
    dataVersion := versionInfo &&& 0xFF
    chunkClassId := ((versionInfo >>> 8) &&& 0xFF).toUInt8
    chunkVersion := (versionInfo >>> 16) &&& 0xFF
    chunkOptions := (versionInfo >>> 24) &&& 0xFF }
  let chunkSize ← parserDword data
  let _ ← parserDword data
  let idCount ← parserDword data
  let chunkCount ← parserDword data
  let managerCount ← parserManagerCount data sub.chunkVersion
  -- the lists are checked against the whole buffer, not against the declared size
  let words ← parserDwords data chunkSize
  let ids ← parserDwords data idCount
  let _ ← parserDwords data chunkCount
  let managers ← parserDwords data managerCount
  pure { sub with
    data := if chunkSize > 0 then some words else none
    ids := ids, managers := managers }

end Reading

/-- An action on the cursor over the chunk's data. -/
def onCursor {α : Type} (action : List UInt32 → Run Nat α) : Run ChunkParser α where
  run p :=
    let (outcome,cursor) := (action p.chunk.words).run p.cursor
    (outcome,{ p with cursor := cursor })

def requireSubchunkSlot : Run ChunkParser Unit where
  run p :=
    if p.inSubchunkSequence ∧ p.subchunkSequenceRemaining = 0 then (.error (.error .eof ""),p) else (.ok (),p)

def consumeSubchunkSlot : Run ChunkParser Unit :=
  Action.update fun p =>
    if p.inSubchunkSequence ∧ 0 < p.subchunkSequenceRemaining then
      { p with
        subchunkSequenceRemaining := p.subchunkSequenceRemaining - 1
        inSubchunkSequence := p.subchunkSequenceRemaining - 1 ≠ 0 }
    else p

/-- A zero size stands for a null sub-chunk. -/
def parserReadSubchunk : Run ChunkParser (Option Chunk) := do
  requireSubchunkSlot
  let sizeDwords ← onCursor parserDword
  if sizeDwords = 0 then do
    consumeSubchunkSlot
    pure none
  else do
    let sub ← onCursor fun data => readSubchunkBody data sizeDwords
    consumeSubchunkSlot
    pure (some sub)

end Libnmo.Format
