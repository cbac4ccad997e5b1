import Libnmo.Core.Error
import Mathlib.Data.List.TakeDrop

/-! The checksum wrapper. It adds what is read to the checksum after the inner handle has
read it, and only if that reports success; what is written it adds before the inner handle
has written anything. -/
namespace Libnmo.Io
open Core

inductive ChecksumAlgorithm
  | adler32 | crc32
  deriving DecidableEq

/-- The checksums of zlib. A checksum may be taken of the bytes in parts, each going on from the last. -/
structure Checksums where
  update : ChecksumAlgorithm → UInt32 → List UInt8 → UInt32
  nothing : ∀ algorithm sum, update algorithm sum [] = sum
  parts : ∀ algorithm sum left right,
    update algorithm sum (left ++ right) = update algorithm (update algorithm sum left) right

structure ChecksummedIo where
  algorithm : ChecksumAlgorithm
  checksum : UInt32
  /-- Whether the inner handle has the functions. -/
  canRead : Bool := true
  canWrite : Bool := true

/-- The checksum of nothing is 1 for Adler-32 and 0 for CRC-32. -/
def checksummedIoWrap (algorithm : ChecksumAlgorithm) (initialValue : UInt32) : ChecksummedIo where
  algorithm := algorithm
  checksum := if algorithm = .adler32 ∧ initialValue = 0 then 1 else initialValue

/-- The bytes that the inner handle has transferred when it returns, and its status. -/
structure Transfer where
  bytes : List UInt8
  status : Option ErrorCode

variable {sums : Checksums} {io : ChecksummedIo}

/-- The number of bytes is cast to `uInt`. -/
def updateChecksum (sums : Checksums) (data : List UInt8) (io : ChecksummedIo) : ChecksummedIo :=
  if data = [] then io
  else { io with checksum := sums.update io.algorithm io.checksum (data.take (data.length % 2 ^ 32)) }

/-- A read that the inner handle answers so, with the bytes and the status that it returns. -/
def checksummedIoRead (sums : Checksums) (answer : Transfer) (io : ChecksummedIo) : Transfer × ChecksummedIo :=
  if ¬ io.canRead then (⟨[],some .invalidState⟩,io)
  else if answer.status = none ∧ answer.bytes ≠ [] then (answer,updateChecksum sums answer.bytes io)
  else (answer,io)

def checksummedIoWrite (sums : Checksums) (data : List UInt8) (answer : Transfer) (io : ChecksummedIo) :
    Option ErrorCode × ChecksummedIo :=
  if ¬ io.canWrite then (some .invalidState,io)
  else (answer.status,updateChecksum sums data io)

inductive ChecksumOp
  | read (answer : Transfer)
  | write (data : List UInt8) (answer : Transfer)

def checksumStep (sums : Checksums) (io : ChecksummedIo) : ChecksumOp → ChecksummedIo
  | .read answer => (checksummedIoRead sums answer io).2
  | .write data answer => (checksummedIoWrite sums data answer io).2

def checksumRun (sums : Checksums) (ops : List ChecksumOp) (io : ChecksummedIo) : ChecksummedIo :=
  ops.foldl (checksumStep sums) io

/-- The bytes that the operation has moved through the handle. -/
def transferred (io : ChecksummedIo) : ChecksumOp → List UInt8
  | .read answer => if io.canRead then answer.bytes else []
  | .write _ answer => if io.canWrite then answer.bytes else []

/-- The bytes that the operation adds to the checksum. -/
def summed (io : ChecksummedIo) : ChecksumOp → List UInt8
  | .read answer =>
    if io.canRead ∧ answer.status = none then answer.bytes.take (answer.bytes.length % 2 ^ 32) else []
  | .write data _ => if io.canWrite then data.take (data.length % 2 ^ 32) else []

/-- A read transfers less than 4 GiB, and nothing if it fails; a write transfers the bytes that it is given, or of
4 GiB and more as many as their number modulo 4 GiB. -/
def InStep (io : ChecksummedIo) : ChecksumOp → Prop
  | .read answer => io.canRead → if answer.status = none then answer.bytes.length < 2 ^ 32 else answer.bytes = []
  | .write data answer => io.canWrite → answer.bytes = data.take (data.length % 2 ^ 32)

section Running
variable {op : ChecksumOp}

theorem updateChecksum_eq (sums : Checksums) (data : List UInt8) (io : ChecksummedIo) : updateChecksum sums data io =
    { io with checksum := sums.update io.algorithm io.checksum (data.take (data.length % 2 ^ 32)) } := by
  rw [updateChecksum]
  split
  · rename_i empty
    rw [empty,List.take_nil,sums.nothing]
  · rfl

/-- An operation adds to the checksum and changes nothing else. -/
theorem checksumStep_eq (sums : Checksums) (io : ChecksummedIo) (op : ChecksumOp) :
    checksumStep sums io op = { io with checksum := sums.update io.algorithm io.checksum (summed io op) } := by
  have still : io = { io with checksum := sums.update io.algorithm io.checksum [] } := by rw [sums.nothing]
  cases op with
  | read answer =>
    rw [checksumStep,checksummedIoRead,summed]
    by_cases can : io.canRead = true
    · rw [if_neg (not_not.mpr can)]
      by_cases went : answer.status = none
      · by_cases empty : answer.bytes = []
        · rw [if_neg fun both => both.2 empty,if_pos ⟨can,went⟩,empty,List.take_nil]
          exact still
        · rw [if_pos ⟨went,empty⟩,if_pos ⟨can,went⟩]
          exact updateChecksum_eq ..
      · rw [if_neg fun both => went both.1,if_neg fun both => went both.2]
        exact still
    · rw [if_pos can,if_neg fun both => can both.1]
      exact still
  | write data answer =>
    rw [checksumStep,checksummedIoWrite,summed]
    by_cases can : io.canWrite = true
    · rw [if_neg (not_not.mpr can),if_pos can]
      exact updateChecksum_eq ..
    · rw [if_pos can,if_neg can]
      exact still

theorem summed_iff (io : ChecksummedIo) (op : ChecksumOp) : summed io op = transferred io op ↔ InStep io op := by
  have whole (bytes : List UInt8) : bytes.take (bytes.length % 2 ^ 32) = bytes ↔ bytes.length < 2 ^ 32 := by
    rw [List.take_eq_self_iff]
    omega
  cases op with
  | read answer =>
    rw [summed,transferred,InStep]
    by_cases can : io.canRead = true
    · by_cases went : answer.status = none
      · simp only [can,went,and_self,if_true,forall_const]
        exact whole _
      · simp only [can,went,and_false,if_true,if_false,forall_const]
        exact eq_comm
    · simp [can]
  | write data answer =>
    rw [summed,transferred,InStep]
    by_cases can : io.canWrite = true
    · simp only [can,if_true,forall_const]
      exact eq_comm
    · simp [can]

/-- While every operation is in step, the checksum is that of the bytes transferred. -/
theorem checksum_transferred (sums : Checksums) (ops : List ChecksumOp) (io : ChecksummedIo)
    (fine : ∀ op ∈ ops, InStep io op) :
    (checksumRun sums ops io).checksum = sums.update io.algorithm io.checksum (ops.flatMap (transferred io)) := by
  induction ops generalizing io with
  | nil => exact (sums.nothing ..).symm
  | cons op ops ih =>
    have same := (summed_iff io op).mpr (fine op (List.mem_cons_self ..))
    have others := ih (checksumStep sums io op) (by
      rw [checksumStep_eq]
      exact fun other member => fine other (List.mem_cons_of_mem _ member))
    rw [checksumRun,List.foldl_cons,List.flatMap_cons,sums.parts,← same]
    rw [checksumRun] at others
    rw [others,checksumStep_eq]
    rfl

end Running

/-- A sum that goes on byte by byte from a state kept in the sum itself. -/
def ofBytes (into : UInt32 → UInt32) (step : UInt32 → UInt8 → UInt32) (sum : UInt32) (bytes : List UInt8) : UInt32 :=
  into (bytes.foldl step (into sum))

theorem ofBytes_parts {into : UInt32 → UInt32} (back : ∀ word, into (into word) = word) (step : UInt32 → UInt8 → UInt32)
    (sum : UInt32) (left right : List UInt8) :
    ofBytes into step sum (left ++ right) = ofBytes into step (ofBytes into step sum left) right := by
  rw [ofBytes,ofBytes,ofBytes,back,List.foldl_append]

def adler32Step (sum : UInt32) (byte : UInt8) : UInt32 :=
  let low := ((sum &&& 0xffff) + byte.toUInt32) % 65521
  let high := ((sum >>> 16) + low) % 65521
  (high <<< 16) ||| low

/-- Eight places of the register, by the reversed polynomial. -/
def crc32Step (register : UInt32) (byte : UInt8) : UInt32 :=
  (List.range 8).foldl (fun register _ => if register &&& 1 = 1 then (register >>> 1) ^^^ 0xEDB88320 else register >>> 1)
    (register ^^^ byte.toUInt32)

def zlibChecksums : Checksums where
  update
    | .adler32 => ofBytes id adler32Step
    | .crc32 => ofBytes (~~~ ·) crc32Step
  nothing algorithm sum := by
    cases algorithm
    · rfl
    · exact UInt32.not_not
  parts algorithm sum left right := by
    cases algorithm
    · exact ofBytes_parts (fun _ => rfl) ..
    · exact ofBytes_parts (fun _ => UInt32.not_not) ..

theorem checksum_transferred_two : (checksumRun zlibChecksums [.write [97] ⟨[97],none⟩,.read ⟨[98,99],none⟩]
    (checksummedIoWrap .crc32 0)).checksum = 0x352441C2 := by
  rw [checksum_transferred zlibChecksums _ _ (by
    intro op member
    rcases List.mem_cons.mp member with rfl | member
    · exact fun _ => rfl
    · obtain rfl := List.mem_singleton.mp member
      exact fun _ => Nat.lt_of_lt_of_le (by decide) (by decide : 2 ^ 2 ≤ 2 ^ 32))]
  decide +kernel

/-- A write that fails before anything is written is summed all the same. -/
theorem refusedWrite_summed : ¬ ∀ (ops : List ChecksumOp) (io : ChecksummedIo),
    (checksumRun zlibChecksums ops io).checksum =
      zlibChecksums.update io.algorithm io.checksum (ops.flatMap (transferred io)) := by
  intro all
  have wrong := all [.write [97] ⟨[],some .cantWriteFile⟩] (checksummedIoWrap .crc32 0)
  revert wrong
  decide +kernel

end Libnmo.Io
