import Libnmo.Lib.Action
import Mathlib.Data.List.Basic
import Mathlib.Data.Nat.Bitwise

/-! Result codes, and the ways a call can end without a result. An allocation of
a positive size is taken to succeed; one of size zero gives no memory, as the
arena does. A read or write outside a buffer ends the modelled run. -/
namespace Libnmo.Core
open Lib

inductive ErrorCode
  | nomem | bufferOverrun | fileNotFound | cantOpenFile | cantReadFile | cantWriteFile
  | invalidSignature | unsupportedVersion | checksumMismatch | decompressionFailed
  | compressionFailed | validationFailed | invalidFormat | invalidOffset | eof | invalidArgument
  | invalidState | notImplemented | notSupported | unknown | internal | outOfBounds | notFound
  | alreadyExists | corrupt
  deriving DecidableEq, Repr

/-- How a call ends without returning `NMO_OK`: with an error it reports, by
touching memory outside a buffer, or never. -/
inductive Stop
  | error (code : ErrorCode) (message : String)
  | overread (index : Nat)
  | overwrite (index : Nat)
  | endless
  deriving DecidableEq, Repr

abbrev Result (α : Type) := Except Stop α

abbrev Run (σ α : Type) := Action Stop σ α

/-- An access the code makes with no check that covers it. -/
def Stop.faults : Stop → Bool
  | .overread _ | .overwrite _ => true
  | .error _ _ | .endless => false

def fail {σ α : Type} (code : ErrorCode) (message : String) : Run σ α := Action.stop (.error code message)

/-- A chain of results that ends well went well at its first step. -/
theorem bind_result {α β : Type} {first : Result α} {next : α → Result β} {b : β}
    (ok : (first >>= next) = .ok b) : ∃ a, first = .ok a ∧ next a = .ok b := by
  cases first with
  | error stop => simp [bind,Except.bind] at ok
  | ok a => exact ⟨a,rfl,ok⟩

end Libnmo.Core

/-! The inline helpers that readers and writers of chunks share: the rounding of a
size to dwords, and the swap of the bytes of 16-bit words. -/
namespace Libnmo.Core

/-- `(bytes + 3u) & ~3u` in `size_t`. The mask is an `unsigned`, so it clears the upper half too. -/
def alignDword (bytes : Nat) : Nat := (bytes + 3) % 2 ^ 64 &&& 0xFFFFFFFC

/-- `nmo_swap_16bit_words` over all whole words of a buffer. -/
def swap16BitWords : List UInt8 → List UInt8
  | low :: high :: rest => high :: low :: swap16BitWords rest
  | rest => rest

/-- A name up to its terminator. -/
def cString (name : List UInt8) : List UInt8 := name.takeWhile (· ≠ 0)

theorem alignDword_dwords (bytes : Nat) : alignDword bytes / 4 = (bytes + 3) % 2 ^ 32 / 4 := by
  have mask (n : Nat) : (n &&& 0xFFFFFFFC) / 4 = n / 4 % 2 ^ 30 := by
    rw [← Nat.shiftRight_eq_div_pow _ 2,Nat.shiftRight_and_distrib,Nat.shiftRight_eq_div_pow]
    exact Nat.and_two_pow_sub_one_eq_mod (n / 4) 30
  rw [alignDword,mask]
  omega

theorem alignDword_small {bytes : Nat} (small : bytes + 3 < 2 ^ 32) : alignDword bytes / 4 = (bytes + 3) / 4 := by
  rw [alignDword_dwords,Nat.mod_eq_of_lt small]

@[simp] theorem length_swap16BitWords (bytes : List UInt8) : (swap16BitWords bytes).length = bytes.length := by
  induction bytes using swap16BitWords.induct with
  | case1 low high rest ih => simp [swap16BitWords,ih]
  | case2 rest short => rw [swap16BitWords]; exact short

@[simp] theorem swap16BitWords_twice (bytes : List UInt8) : swap16BitWords (swap16BitWords bytes) = bytes := by
  induction bytes using swap16BitWords.induct with
  | case1 low high rest ih => simp [swap16BitWords,ih]
  | case2 rest short => rw [swap16BitWords.eq_2 rest short,swap16BitWords.eq_2 rest short]

end Libnmo.Core
