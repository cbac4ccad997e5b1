import Libnmo.Format.IdentifierSeek

/-! The calls that a parser takes and what each of them answers, as one step, and
the runs of such steps. A run goes on after an error that a call reports, and ends
with a call that does not return. -/
namespace Libnmo.Format
open Core Lib

inductive ParserOp
  | setFileContext (ctx : Option ChunkFileContext)
  | tell | remaining | lockReadBuffer
  | seek (pos : Nat)
  | skip (dwords : Nat)
  | byte | word | dword | int | float | guid
  | dwordAsWords
  | dwordArrayAsWords (count : Nat)
  | vector2 | vector | vector4 | matrix | quaternion | color
  | string | buffer
  | bytes (size : Nat)
  | bufferNosize (size : Nat)
  | bufferLendian16 (size : Nat)
  | bufferNosizeLendian16 (valueCount : Nat)
  | arrayLendian | arrayLendian16
  | managerInt | startManagerSequence | managerIntSequence
  | objectId | startObjectSequence
  | identifier
  | seekIdentifier (identifier : UInt32)
  | seekIdentifierWithSize (identifier : UInt32)
  | startReadSequence
  | subchunk

inductive ParserAnswer
  | done
  | size (value : Nat)
  | pointer (offset : Option Nat)
  | byte (value : UInt8)
  | word (value : UInt16)
  | words (values : List UInt16)
  | dword (value : UInt32)
  | dwords (values : List UInt32)
  | int (value : Int32)
  | guid (value : Guid)
  | managerInt (manager : Option Guid) (value : Int32)
  | bytes (values : List UInt8)
  | buffer (values : Option (List UInt8))
  | array (values : Option (List UInt8)) (elementCount : Int32)
  | managerSequence (manager : Guid) (count : Int32)
  | chunk (sub : Option Chunk)

/-- An action with its value as an answer. -/
def answering {σ α : Type} (answer : α → ParserAnswer) (action : Run σ α) : Run σ ParserAnswer := do
  let value ← action
  pure (answer value)

theorem answering_success {σ α : Type} {answer : α → ParserAnswer} {action : Run σ α} {found : ParserAnswer} {s t : σ}
    (ran : (answering answer action).run s = (.ok found,t)) : ∃ value, action.run s = (.ok value,t) ∧ found = answer value := by
  obtain ⟨value,between,read,ran⟩ := Action.bind_success ran
  obtain ⟨same,rfl⟩ := Prod.mk.inj ran
  exact ⟨value,read,(Except.ok.inj same).symm⟩

/-- An action on the cursor with its value as an answer. -/
def reading {α : Type} (answer : α → ParserAnswer) (action : List UInt32 → Run Nat α) : Run ChunkParser ParserAnswer :=
  onCursor fun data => answering answer (action data)

def parserStep : ParserOp → Run ChunkParser ParserAnswer
  | .setFileContext ctx => answering (fun _ => .done) (parserSetFileContext ctx)
  | .tell => answering .size parserTell
  | .remaining => answering .size parserRemaining
  | .lockReadBuffer => answering .pointer parserLockReadBuffer
  | .seek pos => answering (fun _ => .done) (parserSeek pos)
  | .skip dwords => answering (fun _ => .done) (parserSkip dwords)
  | .byte => reading .byte parserByte
  | .word => reading .word parserWord
  | .dword => reading .dword parserDword
  | .int => reading .int parserInt
  | .float => reading .dword parserFloat
  | .guid => reading .guid parserGuid
  | .dwordAsWords => reading .dword parserDwordAsWords
  | .dwordArrayAsWords count => reading .dwords fun data => parserDwordArrayAsWords data count
  | .vector2 => reading .dwords parserVector2
  | .vector => reading .dwords parserVector
  | .vector4 => reading .dwords parserVector4
  | .matrix => reading .dwords parserMatrix
  | .quaternion => reading .dwords parserQuaternion
  | .color => reading .dwords parserColor
  | .string => reading .bytes parserString
  | .buffer => reading .buffer parserBuffer
  | .bytes size => reading .bytes fun data => parserBytes data size
  | .bufferNosize size => reading .bytes fun data => parserBufferNosize data size
  | .bufferLendian16 size => reading .bytes fun data => parserBufferLendian16 data size
  | .bufferNosizeLendian16 valueCount => reading .words fun data => parserBufferNosizeLendian16 data valueCount
  | .arrayLendian => reading (fun found => .array found.1 found.2) parserArrayLendian
  | .arrayLendian16 => reading (fun found => .array found.1 found.2) parserArrayLendian16
  | .managerInt => reading (fun found => .managerInt found.1 found.2) parserManagerInt
  | .startManagerSequence => answering (fun found => .managerSequence found.1 found.2) parserStartManagerSequence
  | .managerIntSequence => answering .int parserManagerIntSequence
  | .objectId => answering .dword parserObjectId
  | .startObjectSequence => answering .int parserStartObjectSequence
  | .identifier => answering .dword parserReadIdentifier
  | .seekIdentifier identifier => answering (fun _ => .done) (parserSeekIdentifier identifier)
  | .seekIdentifierWithSize identifier => answering .size (parserSeekIdentifierWithSize identifier)
  | .startReadSequence => answering .int parserStartReadSequence
  | .subchunk => answering .chunk parserReadSubchunk

/-- The call came back, with a value or with an error code. -/
def returned {α : Type} : Result α → Prop
  | .ok _ | .error (.error _ _) => True
  | .error _ => False

end Libnmo.Format
