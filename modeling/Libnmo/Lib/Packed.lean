import Libnmo.Lib.LittleEndian
import Libnmo.Lib.Cursor

/-! Bytes packed in 32-bit words. They fill as many words as they need, and the last
word may have bytes to spare, whatever these hold. -/
namespace Libnmo.Lib.LittleEndian
open Patch

def Packs (words : List UInt32) (bytes : List UInt8) : Prop :=
  words.length = (bytes.length + 3) / 4 ∧ (encodeWords words).take bytes.length = bytes

/-- The words of a memory after bytes were copied to its front. -/
def copiedOver (memory : List UInt32) (bytes : List UInt8) : List UInt32 :=
  decodeWords (overwrite (encodeWords memory) 0 bytes)

theorem packs_nil : Packs [] [] := ⟨rfl,rfl⟩

theorem encodeWords_take (words : List UInt32) (count : Nat) :
    encodeWords (words.take count) = (encodeWords words).take (4 * count) := by
  induction words generalizing count with
  | nil => simp
  | cons word words ih =>
    cases count with
    | zero => simp
    | succ count =>
      rw [List.take_succ_cons,encodeWords_cons,encodeWords_cons,ih,List.take_append,length_wordBytes,
        show 4 * (count + 1) - 4 = 4 * count by omega]
      congr 1
      exact (List.take_of_length_le (by rw [length_wordBytes]; omega)).symm

theorem encodeWords_decodeWords (bytes : List UInt8) (whole : bytes.length % 4 = 0) :
    encodeWords (decodeWords bytes) = bytes := by
  induction bytes using decodeWords.induct with
  | case1 a b c d rest ih =>
    rw [decodeWords,encodeWords_cons,wordBytes_bytesWord,ih (by simp only [List.length_cons] at whole; omega)]
    rfl
  | case2 bytes short =>
    rcases bytes with _ | ⟨a,_ | ⟨b,_ | ⟨c,_ | ⟨d,rest⟩⟩⟩⟩
    · rfl
    · simp at whole
    · simp at whole
    · simp at whole
    · exact absurd rfl (short a b c d rest)

section
variable {memory : List UInt32} {bytes : List UInt8}

theorem length_copiedOver (room : bytes.length ≤ 4 * memory.length) :
    (copiedOver memory bytes).length = memory.length := by
  rw [copiedOver,length_decodeWords,length_overwrite _ _ _ (by rw [length_encodeWords]; omega),length_encodeWords]
  omega

theorem packs_copiedOver (room : bytes.length ≤ 4 * memory.length) :
    Packs ((copiedOver memory bytes).take ((bytes.length + 3) / 4)) bytes := by
  have whole : (overwrite (encodeWords memory) 0 bytes).length % 4 = 0 := by
    rw [length_overwrite _ _ _ (by rw [length_encodeWords]; omega),length_encodeWords]
    omega
  constructor
  · rw [List.length_take,length_copiedOver room]
    omega
  · rw [encodeWords_take,copiedOver,encodeWords_decodeWords _ whole,List.take_take,
      Nat.min_eq_left (by omega),overwrite]
    simp

end

end Libnmo.Lib.LittleEndian
