import Libnmo.Format.PositionBounds
import Libnmo.Lib.Packed

/-! Reads of a number of bytes that is declared, by the caller or by the words ahead, in
the parser and in the chunk API. The dwords that are checked for come from a rounding
in 32 bits, the bytes that are copied do not, so the two part for the last three lengths
below 2^32. The size of an array is a product in 32 bits, for the check and the copy alike. -/
namespace Libnmo.Format
open Core Lib Lib.LittleEndian Lib.Cursor

/-- The reads of the parser that copy bytes. -/
inductive SizedRead
  | bytes (size : Nat)
  | bufferLendian16 (size : Nat)
  | string | buffer | arrayLendian16

namespace SizedRead
variable (data : List UInt32)

/-- The bytes that come back; a null pointer stands for none. -/
def perform : SizedRead → Run Nat (List UInt8)
  | bytes size => parserBytes data size
  | bufferLendian16 size => parserBufferLendian16 data size
  | string => parserString data
  | buffer => do
    let found ← parserBuffer data
    pure (found.getD [])
  | arrayLendian16 => do
    let found ← parserArrayLendian16 data
    pure (found.1.getD [])

/-- The dwords of the length fields. -/
def header : SizedRead → Nat
  | bytes _ | bufferLendian16 _ => 0
  | string | buffer => 1
  | arrayLendian16 => 2

def declared (pos : Nat) : SizedRead → Nat
  | bytes size | bufferLendian16 size => size
  | string | buffer | arrayLendian16 => (data[pos]?.getD 0).toNat

/-- What becomes of the bytes on their way. -/
def order : SizedRead → List UInt8 → List UInt8
  | bufferLendian16 _ | arrayLendian16 => swap16BitWords
  | bytes _ | string | buffer => id

end SizedRead

/-- So many bytes were copied from the dwords that they fill, all of these in the data, and the cursor is
behind them; or an error was reported. -/
def CopiesDeclared (data : List UInt32) (order : List UInt8 → List UInt8) (start bytes : Nat)
    (ended : Result (List UInt8) × Nat) : Prop :=
  match ended.1 with
  | .ok copied => ended.2 = start + (bytes + 3) / 4 ∧ (∀ i, start ≤ i → i < ended.2 → i < data.length) ∧
      copied = order ((encodeWords (slice data start ((bytes + 3) / 4))).take bytes)
  | .error (.error _ _) => True
  | .error _ => False

/-- The bytes are rounded to the dwords they fill, or the check of the rounded number fails. -/
def RoundedOrRefused (data : List UInt32) (start bytes : Nat) : Prop :=
  bytes + 3 < 2 ^ 32 ∨ data.length < start + alignDword bytes / 4

/-- When a read does as declared: by the length it is told, or the one at the cursor. -/
def SizedRead.Fits (data : List UInt32) (pos : Nat) : SizedRead → Prop
  | bytes size | bufferLendian16 size => RoundedOrRefused data pos size
  -- a string of this length is refused for want of memory
  | string => ∀ length ∈ data[pos]?, length ≠ 0xFFFFFFFF → length.toNat + 3 < 2 ^ 32
  | buffer => ∀ size ∈ data[pos]?, size.toNat + 3 < 2 ^ 32
  -- the bytes of an array without elements are not skipped
  | arrayLendian16 => ∀ size ∈ data[pos]?, ∀ count ∈ data[pos + 1]?,
      if count = 0 then size = 0 else size.toNat + 3 < 2 ^ 32

section Copies
variable {data : List UInt32} {order : List UInt8 → List UInt8} {pos bytes : Nat}

theorem copiesDeclared_reported {start : Nat} {code : ErrorCode} {message : String} {stop : Nat} :
    CopiesDeclared data order start bytes (.error (.error code message),stop) := trivial

theorem takeBytes_refused {dwords : Nat} (short : ¬ pos + dwords ≤ data.length) :
    (takeBytes data bytes dwords).run pos = (.error (.error .eof ""),pos) := by
  have refused : (checkBounds data dwords).run pos = (.error (.error .eof ""),pos) := by
    simp only [checkBounds,if_neg short]
  exact Action.bind_error _ refused

theorem takeBytes_copied {dwords : Nat} (room : pos + dwords ≤ data.length)
    (enough : bytes ≤ 4 * (data.length - pos)) :
    (takeBytes data bytes dwords).run pos = (.ok ((encodeWords (data.drop pos)).take bytes),pos + dwords) := by
  have checked : (checkBounds data dwords).run pos = (.ok (),pos) := by simp only [checkBounds,if_pos room]
  have copied : (copyBytes data bytes).run pos = (.ok ((encodeWords (data.drop pos)).take bytes),pos) := by
    simp only [copyBytes,length_encodeWords,List.length_drop,if_pos enough]
  rw [takeBytes,Action.bind_ok _ checked,Action.bind_ok _ copied]
  rfl

theorem takeBytes_overread {dwords : Nat} (room : pos + dwords ≤ data.length)
    (short : ¬ bytes ≤ 4 * (data.length - pos)) :
    (takeBytes data bytes dwords).run pos = (.error (.overread data.length),pos) := by
  have checked : (checkBounds data dwords).run pos = (.ok (),pos) := by simp only [checkBounds,if_pos room]
  have copied : (copyBytes data bytes).run pos = (.error (.overread data.length),pos) := by
    simp only [copyBytes,length_encodeWords,List.length_drop,if_neg short]
  rw [takeBytes,Action.bind_ok _ checked]
  exact Action.bind_error _ copied

/-- The bytes that dwords hold, read off the words ahead. -/
theorem take_slice {dwords : Nat} (within : bytes ≤ 4 * dwords) :
    (encodeWords (slice data pos dwords)).take bytes = (encodeWords (data.drop pos)).take bytes := by
  rw [slice,encodeWords_take,List.take_take,Nat.min_eq_left within]

/-- Bytes on which a reversible change is made are what was declared when they were before it. -/
theorem copiesDeclared_map {start : Nat} {ended : Result (List UInt8) × Nat} (change : Function.Injective order) :
    CopiesDeclared data order start bytes (ended.1.map order,ended.2) ↔ CopiesDeclared data id start bytes ended := by
  obtain ⟨outcome,stop⟩ := ended
  cases outcome with
  | ok copied =>
    refine and_congr_right fun _ => and_congr_right fun _ => ?_
    exact change.eq_iff
  | error why => cases why <;> exact Iff.rfl

/-- No bytes take no dwords. -/
theorem copiesDeclared_none (same : order [] = []) : CopiesDeclared data order pos 0 (.ok [],pos) := by
  refine ⟨rfl,fun i after before => ?_,?_⟩
  · exact absurd before (Nat.not_lt.mpr after)
  · rw [List.take_zero,same]

theorem takeBytes_declared : CopiesDeclared data id pos bytes ((takeBytes data bytes (alignDword bytes / 4)).run pos) ↔
    RoundedOrRefused data pos bytes := by
  have rounded := alignDword_dwords bytes
  by_cases room : pos + alignDword bytes / 4 ≤ data.length
  · by_cases enough : bytes ≤ 4 * (data.length - pos)
    · rw [takeBytes_copied room enough,RoundedOrRefused,or_iff_left (by omega)]
      constructor
      · rintro ⟨stop,_,_⟩
        have moved : alignDword bytes / 4 = (bytes + 3) / 4 := Nat.add_left_cancel stop
        omega
      · intro small
        rw [alignDword_small small] at room ⊢
        refine ⟨rfl,fun i _ before => ?_,?_⟩
        · exact Nat.lt_of_lt_of_le before room
        · exact (take_slice (by omega)).symm
    · rw [takeBytes_overread room enough]
      refine iff_of_false id fun fits => ?_
      rcases fits with small | beyond
      · rw [alignDword_small small] at room
        omega
      · omega
  · rw [takeBytes_refused room]
    exact iff_of_true copiesDeclared_reported (.inr (Nat.not_le.mp room))

theorem parserBytes_declared : CopiesDeclared data id pos bytes ((parserBytes data bytes).run pos) ↔
    RoundedOrRefused data pos bytes := by
  rw [parserBytes]
  split
  · rename_i empty
    subst empty
    exact iff_of_true (copiesDeclared_none rfl) (.inl (by decide))
  · exact takeBytes_declared

theorem swap16BitWords_injective : Function.Injective swap16BitWords :=
  Function.LeftInverse.injective swap16BitWords_twice

theorem bufferLendian16_declared :
    CopiesDeclared data swap16BitWords pos bytes ((parserBufferLendian16 data bytes).run pos) ↔
      RoundedOrRefused data pos bytes := by
  rw [parserBufferLendian16]
  split
  · rename_i empty
    subst empty
    exact iff_of_true (copiesDeclared_none rfl) (.inl (by decide))
  · rw [Action.map_apply,copiesDeclared_map swap16BitWords_injective]
    exact takeBytes_declared

/-- Behind a length field the check of the three lengths that wrap does not fail. -/
theorem rounded_inside (inside : pos ≤ data.length) (field : bytes < 2 ^ 32) :
    RoundedOrRefused data pos bytes ↔ bytes + 3 < 2 ^ 32 := by
  refine or_iff_left_of_imp fun beyond => ?_
  rw [alignDword_dwords] at beyond
  omega

theorem parserDword_at {word : UInt32} (found : data[pos]? = some word) :
    (parserDword data).run pos = (.ok word,pos + 1) := by
  simp only [parserDword,found]

theorem parserDword_ended (ended : data[pos]? = none) :
    (parserDword data).run pos = (.error (.error .eof ""),pos) := by
  simp only [parserDword,ended]

theorem parserString_declared {length : UInt32} (found : data[pos]? = some length) :
    CopiesDeclared data id (pos + 1) length.toNat ((parserString data).run pos) ↔
      (length ≠ 0xFFFFFFFF → length.toNat + 3 < 2 ^ 32) := by
  have inside : pos + 1 ≤ data.length := (List.getElem?_eq_some_iff.mp found).1
  rw [parserString,Action.bind_ok _ (parserDword_at found)]
  by_cases full : length = 0xFFFFFFFF
  · subst full
    exact iff_of_true copiesDeclared_reported (absurd rfl)
  · have fits : length + 1 ≠ 0 := fun wraps => full (by grind)
    rw [if_neg fits,Action.bind_ok _ (Action.pure_apply () _),parserBytes_declared,
      rounded_inside inside length.toNat_lt]
    exact ⟨fun small _ => small,fun small => small full⟩

theorem parserBuffer_declared {size : UInt32} (found : data[pos]? = some size) :
    CopiesDeclared data id (pos + 1) size.toNat ((SizedRead.perform data .buffer).run pos) ↔
      size.toNat + 3 < 2 ^ 32 := by
  have inside : pos + 1 ≤ data.length := (List.getElem?_eq_some_iff.mp found).1
  rw [SizedRead.perform,Action.map_apply,parserBuffer,Action.bind_ok _ (parserDword_at found)]
  by_cases empty : size = 0
  · subst empty
    exact iff_of_true (copiesDeclared_none rfl) (by decide)
  · rw [if_neg empty,Action.map_apply,← rounded_inside inside size.toNat_lt,← parserBytes_declared]
    rcases (parserBytes data size.toNat).run (pos + 1) with ⟨outcome,stop⟩
    cases outcome <;> rfl

theorem parserArrayLendian16_declared {size count : UInt32} (found : data[pos]? = some size)
    (counted : data[pos + 1]? = some count) :
    CopiesDeclared data swap16BitWords (pos + 2) size.toNat ((SizedRead.perform data .arrayLendian16).run pos) ↔
      if count = 0 then size = 0 else size.toNat + 3 < 2 ^ 32 := by
  have inside : pos + 2 ≤ data.length := (List.getElem?_eq_some_iff.mp counted).1
  rw [SizedRead.perform,Action.map_apply,parserArrayLendian16,Action.bind_ok _ (parserDword_at found),
    Action.bind_ok _ (parserDword_at counted)]
  by_cases empty : size = 0
  · subst empty
    exact iff_of_true (copiesDeclared_none rfl) (by split <;> decide)
  · by_cases none : count = 0
    · rw [if_pos (.inr none),if_pos none]
      refine iff_of_false ?_ empty
      rintro ⟨stop,_,_⟩
      have some : size.toNat ≠ 0 := fun zero => empty (UInt32.toNat_inj.mp zero)
      have moved : pos + 2 = pos + 2 + (size.toNat + 3) / 4 := stop
      omega
    · rw [if_neg (by simp [empty,none]),if_neg none,Action.map_apply,← rounded_inside inside size.toNat_lt,
        ← takeBytes_declared,← copiesDeclared_map swap16BitWords_injective]
      rcases (takeBytes data size.toNat (alignDword size.toNat / 4)).run (pos + 2) with ⟨outcome,stop⟩
      cases outcome <;> rfl

/-- A read that finds no length field reports the end of the data. -/
theorem headed_ended {α : Type} {next : UInt32 → Run Nat α} {start : Nat} {f : α → List UInt8} (ended : data[pos]? = none) :
    CopiesDeclared data order start bytes (((parserDword data >>= next).run pos).1.map f,
      ((parserDword data >>= next).run pos).2) := by
  rw [Action.bind_error _ (parserDword_ended ended)]
  exact copiesDeclared_reported

end Copies

/-- A read copies the bytes that are declared, from the dwords they fill, exactly when these dwords are
rounded without a wrap, or the read is refused, and no bytes are declared of an array without elements. -/
theorem sizedRead_declared (data : List UInt32) (pos : Nat) (read : SizedRead) :
    CopiesDeclared data read.order (pos + read.header) (read.declared data pos) ((read.perform data).run pos) ↔
      read.Fits data pos := by
  cases read with
  | bytes size => exact parserBytes_declared
  | bufferLendian16 size => exact bufferLendian16_declared
  | string =>
    cases found : data[pos]? with
    | none =>
      refine iff_of_true ?_ (by simp [SizedRead.Fits,found])
      rw [SizedRead.perform,parserString,Action.bind_error _ (parserDword_ended found)]
      exact copiesDeclared_reported
    | some length =>
      have fits : SizedRead.Fits data pos .string ↔ (length ≠ 0xFFFFFFFF → length.toNat + 3 < 2 ^ 32) := by
        simp [SizedRead.Fits,found]
      rw [fits,SizedRead.declared,found]
      exact parserString_declared found
  | buffer =>
    cases found : data[pos]? with
    | none =>
      refine iff_of_true ?_ (by simp [SizedRead.Fits,found])
      rw [SizedRead.perform,Action.map_apply,parserBuffer]
      exact headed_ended found
    | some size =>
      have fits : SizedRead.Fits data pos .buffer ↔ size.toNat + 3 < 2 ^ 32 := by simp [SizedRead.Fits,found]
      rw [fits,SizedRead.declared,found]
      exact parserBuffer_declared found
  | arrayLendian16 =>
    cases found : data[pos]? with
    | none =>
      refine iff_of_true ?_ (by simp [SizedRead.Fits,found])
      rw [SizedRead.perform,Action.map_apply,parserArrayLendian16]
      exact headed_ended found
    | some size =>
      cases counted : data[pos + 1]? with
      | none =>
        refine iff_of_true ?_ (by simp [SizedRead.Fits,counted])
        rw [SizedRead.perform,Action.map_apply,parserArrayLendian16,Action.bind_ok _ (parserDword_at found)]
        exact headed_ended counted
      | some count =>
        have fits : SizedRead.Fits data pos .arrayLendian16 ↔
            if count = 0 then size = 0 else size.toNat + 3 < 2 ^ 32 := by
          simp [SizedRead.Fits,found,counted]
        rw [fits,SizedRead.declared,found]
        exact parserArrayLendian16_declared found counted

/-- From the start of 2^30 words a read of 2^32 - 3 bytes copies nearly all of them, and stays where it is. -/
theorem sizedRead_wrapped :
    ¬ CopiesDeclared (List.replicate (2 ^ 30) 0) id 0 (2 ^ 32 - 3)
        ((parserBytes (List.replicate (2 ^ 30) 0) (2 ^ 32 - 3)).run 0) ∧
      ∃ copied, (parserBytes (List.replicate (2 ^ 30) 0) (2 ^ 32 - 3)).run 0 = (.ok copied,0) := by
  have length : (List.replicate (2 ^ 30) (0 : UInt32)).length = 2 ^ 30 := List.length_replicate
  have wraps : alignDword (2 ^ 32 - 3) / 4 = 0 := (alignDword_dwords _).trans rfl
  constructor
  · rw [parserBytes_declared,RoundedOrRefused,length,wraps]
    omega
  · have copied := @takeBytes_copied (List.replicate (2 ^ 30) 0) 0 (2 ^ 32 - 3) 0 (by omega) (by rw [length]; omega)
    rw [parserBytes,if_neg (by decide),wraps]
    exact ⟨_,copied⟩

/-- The reads of the chunk API that return a block of bytes. -/
inductive BlockRead
  | string | buffer
  | fill (bufferSize : Nat)
  | array

namespace BlockRead
variable (data spare : List UInt32)

/-- The block, where there is one. -/
def perform : BlockRead → Run Nat (Option (List UInt8))
  | string => do
    let found ← chunkReadString data spare
    pure found.1
  | buffer => do
    let found ← chunkReadBuffer data spare
    pure found.1
  | fill bufferSize => do
    let found ← chunkReadAndFillBuffer data spare bufferSize
    pure (if found.2 = 0 then none else some found.1)
  | array => do
    let found ← chunkReadArray data spare
    pure (some found.1)

def header : BlockRead → Nat
  | string | buffer | fill _ => 1
  | array => 2

/-- The length field, or the count times the size of an element. -/
def declared (pos : Nat) : BlockRead → Nat
  | string | buffer | fill _ => (data[pos]?.getD 0).toNat
  | array => (data[pos]?.getD 0).toNat * (data[pos + 1]?.getD 0).toNat

end BlockRead

/-- A block that was returned has the declared length, and its bytes are those ahead in the data. -/
def BlockInside (data : List UInt32) (start bytes : Nat) : Result (Option (List UInt8)) → Prop
  | .ok (some block) => block.length = bytes ∧ start + (bytes + 3) / 4 ≤ data.length ∧
      block = (encodeWords (data.drop start)).take bytes
  | .ok none => True
  | .error (.error _ _) => True
  | .error _ => False

/-- The size is rounded to the dwords it fills, or else the data hold so many bytes. -/
def RoundedOrHeld (data : List UInt32) (start : Nat) (size : UInt32) : Prop :=
  size.toNat + 3 < 2 ^ 32 ∨ size.toNat ≤ 4 * (data.length - start)

/-- When a read returns a block as declared. -/
def BlockRead.Fits (data : List UInt32) (pos : Nat) : BlockRead → Prop
  | string | buffer => ∀ size ∈ data[pos]?, RoundedOrHeld data (pos + 1) size
  | fill bufferSize => ∀ size ∈ data[pos]?, size.toNat ≤ bufferSize → RoundedOrHeld data (pos + 1) size
  -- an array is refused where the product is zero, or more than there is
  | array => ∀ count ∈ data[pos]?, ∀ elemSize ∈ data[pos + 1]?,
      count.toNat * elemSize.toNat < 2 ^ 32 ∨ count * elemSize = 0 ∨
        data.length < pos + 2 + ((count * elemSize).toNat + 3) / 4

section Blocks
variable {data spare : List UInt32} {pos bytes dwords : Nat}

theorem nextWord_at {word : UInt32} (found : data[pos]? = some word) : (nextWord data).run pos = (.ok word,pos + 1) := by
  simp only [nextWord,found]

theorem canRead_at {word : UInt32} (found : data[pos]? = some word) : (canRead data 1).run pos = (.ok true,pos) := by
  have room : pos + 1 ≤ data.length := (List.getElem?_eq_some_iff.mp found).1
  rw [canRead_apply,decide_eq_true room]

theorem canRead_ended (ended : data[pos]? = none) : (canRead data 1).run pos = (.ok false,pos) := by
  have short : ¬ pos + 1 ≤ data.length := by
    rw [List.getElem?_eq_none_iff] at ended
    omega
  rw [canRead_apply,decide_eq_false short]

theorem copyOut_held (held : bytes ≤ 4 * (data.length - pos)) (inside : pos ≤ data.length) :
    (copyOut data spare bytes dwords).run pos = (.ok ((encodeWords (data.drop pos)).take bytes),pos + dwords) := by
  have ahead : bytes ≤ (encodeWords (data.drop pos)).length := by
    rw [length_encodeWords,List.length_drop]
    exact held
  have enough : bytes ≤ (encodeWords ((data ++ spare).drop pos)).length := by
    rw [List.drop_append_of_le_length inside,encodeWords_append,List.length_append]
    exact Nat.le_add_right_of_le ahead
  have front : (encodeWords ((data ++ spare).drop pos)).take bytes = (encodeWords (data.drop pos)).take bytes := by
    rw [List.drop_append_of_le_length inside,encodeWords_append,List.take_append_of_le_length ahead]
  simp only [copyOut,if_pos enough,front]

theorem blockInside_held (held : bytes ≤ 4 * (data.length - pos)) (inside : pos ≤ data.length) :
    BlockInside data pos bytes (.ok (some ((encodeWords (data.drop pos)).take bytes))) := by
  refine ⟨?_,by omega,rfl⟩
  rw [List.length_take,length_encodeWords,List.length_drop,Nat.min_eq_left held]

/-- A copy is from the data when they hold the bytes, whatever lies behind them. -/
theorem copyOut_block (some' : 0 < bytes) :
    BlockInside data pos bytes (((copyOut data spare bytes dwords).run pos).1.map some) ↔
      bytes ≤ 4 * (data.length - pos) := by
  by_cases held : bytes ≤ 4 * (data.length - pos)
  · have inside : pos ≤ data.length := by omega
    rw [copyOut_held held inside]
    exact iff_of_true (blockInside_held held inside) held
  · refine iff_of_false (fun block => held ?_) held
    rw [copyOut] at block
    dsimp only at block
    split at block
    · obtain ⟨_,inside,_⟩ := block
      omega
    · exact block.elim

/-- A copy after the check of its rounded size. -/
theorem copyOut_rounded {size : UInt32} (some' : size ≠ 0) (room : pos + roundedDwords size ≤ data.length) :
    BlockInside data pos size.toNat (((copyOut data spare size.toNat (roundedDwords size)).run pos).1.map some) ↔
      RoundedOrHeld data pos size := by
  have positive : 0 < size.toNat := Nat.pos_of_ne_zero fun zero => some' (UInt32.toNat_inj.mp zero)
  rw [roundedDwords_eq] at room
  rw [copyOut_block positive,RoundedOrHeld]
  refine (or_iff_right_of_imp fun small => ?_).symm
  omega

/-- A check that fails is that of a size that does not wrap. -/
theorem rounded_short {size : UInt32} (inside : pos ≤ data.length) (short : ¬ pos + roundedDwords size ≤ data.length) :
    RoundedOrHeld data pos size := by
  have bound := size.toNat_lt
  rw [roundedDwords_eq] at short
  exact .inl (by omega)

theorem zero_rounded (data : List UInt32) (pos : Nat) : RoundedOrHeld data pos 0 := .inl (by decide)

theorem chunkReadDword_at {word : UInt32} (found : data[pos]? = some word) :
    (chunkReadDword data).run pos = (.ok word,pos + 1) := by
  have inside : pos + 1 ≤ data.length := (List.getElem?_eq_some_iff.mp found).1
  rw [chunkReadDword,Action.map_apply,chunkReadInt,Action.bind_ok _ (requireWords_room _ inside),
    Action.bind_ok _ (nextWord_at found)]
  rfl

theorem chunkReadDword_ended (ended : data[pos]? = none) :
    (chunkReadDword data).run pos = (.error (.error .eof "Cannot read beyond data"),pos) := by
  have short : ¬ pos + 1 ≤ data.length := by
    rw [List.getElem?_eq_none_iff] at ended
    omega
  rw [chunkReadDword,Action.map_apply,chunkReadInt,Action.bind_error _ (requireWords_short _ short)]
  rfl

theorem chunkReadString_block {len : UInt32} (found : data[pos]? = some len) :
    BlockInside data (pos + 1) len.toNat ((BlockRead.perform data spare .string).run pos).1 ↔
      RoundedOrHeld data (pos + 1) len := by
  have inside : pos + 1 ≤ data.length := (List.getElem?_eq_some_iff.mp found).1
  rw [BlockRead.perform,Action.map_apply,chunkReadString,Action.bind_ok _ (canRead_at found),if_pos rfl,
    Action.bind_ok _ (nextWord_at found)]
  by_cases empty : len = 0
  · rw [if_pos empty,empty]
    exact iff_of_true trivial (zero_rounded _ _)
  · rw [if_neg empty,Action.bind_ok _ (canRead_apply _ _)]
    by_cases room : pos + 1 + roundedDwords len ≤ data.length
    · rw [if_pos (decide_eq_true room),Action.map_apply,← @copyOut_rounded _ spare _ _ empty room]
      rcases (copyOut data spare len.toNat (roundedDwords len)).run (pos + 1) with ⟨outcome,stop⟩
      cases outcome <;> rfl
    · rw [if_neg (by simpa using room)]
      exact iff_of_true trivial (rounded_short inside room)

theorem chunkReadBuffer_block {size : UInt32} (found : data[pos]? = some size) :
    BlockInside data (pos + 1) size.toNat ((BlockRead.perform data spare .buffer).run pos).1 ↔
      RoundedOrHeld data (pos + 1) size := by
  have inside : pos + 1 ≤ data.length := (List.getElem?_eq_some_iff.mp found).1
  rw [BlockRead.perform,Action.map_apply,chunkReadBuffer,Action.bind_ok _ (requireWords_room _ inside),
    Action.bind_ok _ (nextWord_at found)]
  by_cases empty : size = 0
  · rw [if_pos empty,empty]
    exact iff_of_true trivial (zero_rounded _ _)
  · rw [if_neg empty]
    by_cases room : pos + 1 + roundedDwords size ≤ data.length
    · rw [Action.bind_ok _ (requireWords_room _ room),Action.map_apply,← @copyOut_rounded _ spare _ _ empty room]
      rcases (copyOut data spare size.toNat (roundedDwords size)).run (pos + 1) with ⟨outcome,stop⟩
      cases outcome <;> rfl
    · rw [Action.bind_error _ (requireWords_short _ room)]
      exact iff_of_true trivial (rounded_short inside room)

theorem fillBuffer_block {size : UInt32} {bufferSize : Nat} (found : data[pos]? = some size) :
    BlockInside data (pos + 1) size.toNat ((BlockRead.perform data spare (.fill bufferSize)).run pos).1 ↔
      (size.toNat ≤ bufferSize → RoundedOrHeld data (pos + 1) size) := by
  have inside : pos + 1 ≤ data.length := (List.getElem?_eq_some_iff.mp found).1
  rw [BlockRead.perform,Action.map_apply,chunkReadAndFillBuffer,Action.bind_ok _ (canRead_at found),if_pos rfl,
    Action.bind_ok _ (nextWord_at found)]
  by_cases empty : size = 0
  · rw [if_pos empty,empty]
    exact iff_of_true trivial fun _ => zero_rounded _ _
  · rw [if_neg empty]
    by_cases large : size.toNat > bufferSize
    · rw [if_pos large]
      exact iff_of_true trivial fun fits => absurd fits (Nat.not_le.mpr large)
    · rw [if_neg large,Action.bind_ok _ (canRead_apply _ _),imp_iff_right (Nat.not_lt.mp large)]
      by_cases room : pos + 1 + roundedDwords size ≤ data.length
      · have some' : size.toNat ≠ 0 := fun zero => empty (UInt32.toNat_inj.mp zero)
        rw [if_pos (decide_eq_true room),Action.map_apply,← @copyOut_rounded _ spare _ _ empty room]
        rcases (copyOut data spare size.toNat (roundedDwords size)).run (pos + 1) with ⟨outcome,stop⟩
        cases outcome <;> simp only [Except.map,if_neg some']
      · rw [if_neg (by simpa using room)]
        exact iff_of_true trivial (rounded_short inside room)

/-- The copy of an array stays in the data, but its size is the product only where this does not wrap. -/
theorem chunkReadArray_block {count elemSize : UInt32} (found : data[pos]? = some count)
    (sized : data[pos + 1]? = some elemSize) :
    BlockInside data (pos + 2) (count.toNat * elemSize.toNat) ((BlockRead.perform data spare .array).run pos).1 ↔
      (count.toNat * elemSize.toNat < 2 ^ 32 ∨ count * elemSize = 0 ∨
        data.length < pos + 2 + ((count * elemSize).toNat + 3) / 4) := by
  have first : (chunkReadDword data).run pos = (.ok count,pos + 1) := chunkReadDword_at found
  have second : (chunkReadDword data).run (pos + 1) = (.ok elemSize,pos + 2) := chunkReadDword_at sized
  have product : (count * elemSize).toNat = count.toNat * elemSize.toNat % 2 ^ 32 := UInt32.toNat_mul ..
  rw [BlockRead.perform,Action.map_apply,chunkReadArray,Action.bind_ok _ first,Action.bind_ok _ second]
  dsimp only
  by_cases room : pos + 2 + ((count * elemSize).toNat + 3) / 4 ≤ data.length
  · rw [Action.bind_ok _ (requireWords_room _ room)]
    by_cases empty : (count * elemSize).toNat = 0
    · rw [if_pos empty]
      exact iff_of_true trivial (.inr (.inl (UInt32.toNat_inj.mp empty)))
    · rw [if_neg empty,Action.map_apply]
      have nonzero : ¬ count * elemSize = 0 := fun zero => empty (congrArg UInt32.toNat zero)
      rw [or_iff_left (not_or.mpr ⟨nonzero,Nat.not_lt.mpr room⟩)]
      have held : (count * elemSize).toNat ≤ 4 * (data.length - (pos + 2)) := by omega
      have inside : pos + 2 ≤ data.length := (List.getElem?_eq_some_iff.mp sized).1
      have copied := blockInside_held held inside
      rw [copyOut_held held inside]
      constructor
      · rintro ⟨length,_,_⟩
        exact (length.symm.trans copied.1).trans_lt (count * elemSize).toNat_lt
      · intro small
        rw [Nat.mod_eq_of_lt small] at product
        rw [← product]
        exact copied
  · rw [Action.bind_error _ (requireWords_short _ room)]
    exact iff_of_true trivial (.inr (.inr (Nat.not_le.mp room)))

end Blocks

/-- A read of the chunk API returns the declared block, from inside the data, exactly when its length is
rounded without a wrap or the data hold it all the same, and an array's size is the product that is declared. -/
theorem blockRead_inside (data spare : List UInt32) (pos : Nat) (read : BlockRead) :
    BlockInside data (pos + read.header) (read.declared data pos) ((read.perform data spare).run pos).1 ↔
      read.Fits data pos := by
  cases read with
  | string =>
    cases found : data[pos]? with
    | none =>
      refine iff_of_true ?_ (by simp [BlockRead.Fits,found])
      rw [BlockRead.perform,Action.map_apply,chunkReadString,Action.bind_ok _ (canRead_ended found)]
      trivial
    | some size =>
      have fits : BlockRead.Fits data pos .string ↔ RoundedOrHeld data (pos + 1) size := by simp [BlockRead.Fits,found]
      rw [fits,BlockRead.declared,found]
      exact chunkReadString_block found
  | buffer =>
    cases found : data[pos]? with
    | none =>
      refine iff_of_true ?_ (by simp [BlockRead.Fits,found])
      have short : ¬ pos + 1 ≤ data.length := Nat.not_lt.mpr (List.getElem?_eq_none_iff.mp found)
      rw [BlockRead.perform,Action.map_apply,chunkReadBuffer,Action.bind_error _ (requireWords_short _ short)]
      trivial
    | some size =>
      have fits : BlockRead.Fits data pos .buffer ↔ RoundedOrHeld data (pos + 1) size := by simp [BlockRead.Fits,found]
      rw [fits,BlockRead.declared,found]
      exact chunkReadBuffer_block found
  | fill bufferSize =>
    cases found : data[pos]? with
    | none =>
      refine iff_of_true ?_ (by simp [BlockRead.Fits,found])
      rw [BlockRead.perform,Action.map_apply,chunkReadAndFillBuffer,Action.bind_ok _ (canRead_ended found)]
      trivial
    | some size =>
      have fits : BlockRead.Fits data pos (.fill bufferSize) ↔
          (size.toNat ≤ bufferSize → RoundedOrHeld data (pos + 1) size) := by simp [BlockRead.Fits,found]
      rw [fits,BlockRead.declared,found]
      exact fillBuffer_block found
  | array =>
    cases found : data[pos]? with
    | none =>
      refine iff_of_true ?_ (by simp [BlockRead.Fits,found])
      rw [BlockRead.perform,Action.map_apply,chunkReadArray,Action.bind_error _ (chunkReadDword_ended found)]
      trivial
    | some count =>
      cases sized : data[pos + 1]? with
      | none =>
        refine iff_of_true ?_ (by simp [BlockRead.Fits,sized])
        rw [BlockRead.perform,Action.map_apply,chunkReadArray,Action.bind_ok _ (chunkReadDword_at found),
          Action.bind_error _ (chunkReadDword_ended sized)]
        trivial
      | some elemSize =>
        have fits : BlockRead.Fits data pos .array ↔ (count.toNat * elemSize.toNat < 2 ^ 32 ∨ count * elemSize = 0 ∨
            data.length < pos + 2 + ((count * elemSize).toNat + 3) / 4) := by
          simp [BlockRead.Fits,found,sized]
        rw [fits,BlockRead.declared,found,sized]
        exact chunkReadArray_block found sized

/-- A length of 2^32 - 3 is copied from behind the data, and 2^31 + 1 elements of two bytes come back as two bytes. -/
theorem blockRead_wrapped :
    ¬ BlockInside [0xFFFFFFFD] 1 (2 ^ 32 - 3) ((BlockRead.perform [0xFFFFFFFD] [] .buffer).run 0).1 ∧
      ((BlockRead.perform [0x80000001,2,7] [] .array).run 0).1 = .ok (some [7,0]) ∧
      ¬ BlockInside [0x80000001,2,7] 2 ((2 ^ 31 + 1) * 2) ((BlockRead.perform [0x80000001,2,7] [] .array).run 0).1 := by
  have array : (BlockRead.perform [0x80000001,2,7] [] .array).run 0 = (.ok (some [7,0]),3) := rfl
  have buffer : (BlockRead.perform [0xFFFFFFFD] [] .buffer).run 0 = (.error (.overread 1),1) := rfl
  rw [array,buffer]
  refine ⟨id,rfl,?_⟩
  rintro ⟨length,_⟩
  exact absurd length (by decide)

end Libnmo.Format
