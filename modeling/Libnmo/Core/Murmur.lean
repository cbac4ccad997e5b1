import Libnmo.Core.Error
import Libnmo.Lib.LittleEndian
import Mathlib.Logic.Function.Basic
import Mathlib.Tactic.IntervalCases

/-! MurmurHash3 of 32 bits, over the memory that begins with the key. The pointer to the
blocks is that of the original, which counts them from the end of the last one; here they
are counted upwards from it, and so lie behind the key. -/
namespace Libnmo.Core
open Lib LittleEndian

def rotl32 (x r : UInt32) : UInt32 := (x <<< r) ||| (x >>> (32 - r))

def fmix32 (h : UInt32) : UInt32 :=
  let h := h ^^^ (h >>> 16)
  let h := h * 0x85ebca6b
  let h := h ^^^ (h >>> 13)
  let h := h * 0xc2b2ae35
  h ^^^ (h >>> 16)

def murmurC1 : UInt32 := 0xcc9e2d51
def murmurC2 : UInt32 := 0x1b873593

def mixKey (k1 : UInt32) : UInt32 := rotl32 (k1 * murmurC1) 15 * murmurC2

def mixBlock (h1 k1 : UInt32) : UInt32 := rotl32 (h1 ^^^ mixKey k1) 13 * 5 + 0xe6546b64

/-- Memory is what there is from the pointer on. -/
def byteAt (memory : List UInt8) (offset : Nat) : Result UInt8 :=
  match memory[offset]? with
  | some byte => .ok byte
  | none => .error (.overread offset)

def blockAt (memory : List UInt8) (offset : Nat) : Result UInt32 := do
  let a ← byteAt memory offset
  let b ← byteAt memory (offset + 1)
  let c ← byteAt memory (offset + 2)
  let d ← byteAt memory (offset + 3)
  pure (bytesWord a b c d)

/-- The loop over the blocks that are left, the next one at an offset. -/
def murmurBody (memory : List UInt8) : Nat → Nat → UInt32 → Result UInt32
  | 0,_,h1 => pure h1
  | left + 1,offset,h1 => do
    let k1 ← blockAt memory offset
    murmurBody memory left (offset + 4) (mixBlock h1 k1)

/-- The cases fall through. -/
def murmurTail (memory : List UInt8) (tail rest : Nat) (h1 : UInt32) : Result UInt32 :=
  if rest = 0 then pure h1
  else do
    let c ← (if rest ≥ 3 then byteAt memory (tail + 2) else pure 0)
    let b ← (if rest ≥ 2 then byteAt memory (tail + 1) else pure 0)
    let a ← byteAt memory tail
    pure (h1 ^^^ mixKey ((c.toUInt32 <<< 16) ^^^ (b.toUInt32 <<< 8) ^^^ a.toUInt32))

/-- `nmo_murmur3_32`. -/
def murmur3 (memory : List UInt8) (len : Nat) (seed : UInt32) : Result UInt32 := do
  let nblocks := len / 4
  let blocks := nblocks * 4
  let h1 ← murmurBody memory nblocks blocks seed
  let h1 ← murmurTail memory (nblocks * 4) (len % 4) h1
  pure (fmix32 (h1 ^^^ UInt32.ofNat len))

section Reference

/-- The blocks of the key and the bytes after the last whole one. -/
def referenceBody : List UInt8 → UInt32 → UInt32
  | a :: b :: c :: d :: key,h1 => referenceBody key (mixBlock h1 (bytesWord a b c d))
  | [c0,c1,c2],h1 => h1 ^^^ mixKey ((c2.toUInt32 <<< 16) ^^^ (c1.toUInt32 <<< 8) ^^^ c0.toUInt32)
  | [c0,c1],h1 => h1 ^^^ mixKey ((c1.toUInt32 <<< 8) ^^^ c0.toUInt32)
  | [c0],h1 => h1 ^^^ mixKey c0.toUInt32
  | [],h1 => h1

/-- MurmurHash3 x86_32. -/
def murmur3X86 (key : List UInt8) (seed : UInt32) : UInt32 :=
  fmix32 (referenceBody key seed ^^^ UInt32.ofNat key.length)

end Reference

section Mixing

theorem rotl32_injective {r s : UInt32} (back : ∀ x, rotl32 (rotl32 x r) s = x) :
    Function.Injective fun x => rotl32 x r := by
  intro x y same
  have turned := congrArg (fun z => rotl32 z s) same
  rwa [back,back] at turned

theorem rotl32_13 (x : UInt32) : rotl32 (rotl32 x 13) 19 = x := by
  unfold rotl32
  apply UInt32.toBitVec_inj.mp
  ext i bound
  simp
  grind

theorem rotl32_15 (x : UInt32) : rotl32 (rotl32 x 15) 17 = x := by
  unfold rotl32
  apply UInt32.toBitVec_inj.mp
  ext i bound
  simp
  grind

theorem mul_injective {factor : UInt32} (inverse : UInt32) (unit : factor * inverse = 1) :
    Function.Injective fun x : UInt32 => x * factor := by
  intro x y same
  have divided := congrArg (· * inverse) same
  dsimp only at divided
  rwa [UInt32.mul_assoc,UInt32.mul_assoc,unit,UInt32.mul_one,UInt32.mul_one] at divided

theorem xorShift16_injective : Function.Injective fun x : UInt32 => x ^^^ (x >>> 16) := by
  have back (x : UInt32) : (x ^^^ (x >>> 16)) ^^^ ((x ^^^ (x >>> 16)) >>> 16) = x := by
    apply UInt32.toBitVec_inj.mp
    ext i bound
    simp
    grind
  intro x y same
  dsimp only at same
  rw [← back x,same,back]

theorem xorShift13_injective : Function.Injective fun x : UInt32 => x ^^^ (x >>> 13) := by
  have back (x : UInt32) :
      (x ^^^ (x >>> 13)) ^^^ ((x ^^^ (x >>> 13)) >>> 13) ^^^ ((x ^^^ (x >>> 13)) >>> 26) = x := by
    apply UInt32.toBitVec_inj.mp
    ext i bound
    simp
    grind
  intro x y same
  dsimp only at same
  rw [← back x,same,back]

theorem fmix32_injective : Function.Injective fmix32 := by
  have first : Function.Injective fun x : UInt32 => x * 0x85ebca6b :=
    mul_injective 0xa5cb9243 (by decide)
  have second : Function.Injective fun x : UInt32 => x * 0xc2b2ae35 :=
    mul_injective 0x7ed1b41d (by decide)
  exact xorShift16_injective.comp (second.comp (xorShift13_injective.comp (first.comp xorShift16_injective)))

theorem mixKey_injective : Function.Injective mixKey := by
  have first : Function.Injective fun x : UInt32 => x * murmurC1 :=
    mul_injective 0xdee13bb1 (by decide)
  have second : Function.Injective fun x : UInt32 => x * murmurC2 :=
    mul_injective 0x56ed309b (by decide)
  exact second.comp ((rotl32_injective rotl32_15).comp first)

theorem xor_injective (h : UInt32) : Function.Injective fun x : UInt32 => h ^^^ x := by
  intro x y same
  exact (UInt32.xor_right_inj h).mp same

theorem mixBlock_injective (h1 : UInt32) : Function.Injective (mixBlock h1) := by
  have scaled : Function.Injective fun x : UInt32 => x * 5 := mul_injective 0xcccccccd (by decide)
  have moved : Function.Injective fun x : UInt32 => x + 0xe6546b64 := fun x y same => (UInt32.add_left_inj _).mp same
  exact moved.comp (scaled.comp ((rotl32_injective rotl32_13).comp ((xor_injective h1).comp mixKey_injective)))

end Mixing

/-- The hash of a key is MurmurHash3 of its bytes, whatever follows them, and nothing behind them is read: the key
may be all the memory there is. -/
def HashesKey (len : Nat) (seed : UInt32) : Prop :=
  ∀ key : List UInt8, key.length = len → ∀ after, murmur3 (key ++ after) len seed = .ok (murmur3X86 key seed)

/-- Equal keys have equal hashes, whatever follows them. -/
def SameHash (len : Nat) (seed : UInt32) : Prop :=
  ∀ key after after' : List UInt8, key.length = len → ∀ hash hash', murmur3 (key ++ after) len seed = .ok hash →
    murmur3 (key ++ after') len seed = .ok hash' → hash = hash'

section Reading
variable {memory memory' : List UInt8} {offset : Nat}

theorem byteAt_ok {byte : UInt8} (there : memory[offset]? = some byte) : byteAt memory offset = .ok byte := by
  rw [byteAt,there]

theorem byteAt_beyond (beyond : memory.length ≤ offset) : byteAt memory offset = .error (.overread offset) := by
  rw [byteAt,List.getElem?_eq_none beyond]

theorem blockAt_ok {a b c d : UInt8} (first : memory[offset]? = some a) (second : memory[offset + 1]? = some b)
    (third : memory[offset + 2]? = some c) (fourth : memory[offset + 3]? = some d) :
    blockAt memory offset = .ok (bytesWord a b c d) := by
  rw [blockAt,byteAt_ok first,byteAt_ok second,byteAt_ok third,byteAt_ok fourth]
  rfl

/-- A block that is not all there is not read. -/
theorem blockAt_beyond (beyond : memory.length < offset + 4) (hash : UInt32) : blockAt memory offset ≠ .ok hash := by
  intro read
  obtain ⟨_,_,read⟩ := bind_result read
  obtain ⟨_,_,read⟩ := bind_result read
  obtain ⟨_,_,read⟩ := bind_result read
  obtain ⟨d,fourth,_⟩ := bind_result read
  rw [byteAt_beyond (by omega)] at fourth
  cases fourth

theorem murmurTail_ok {tail rest : Nat} (some : rest ≠ 0) {a b c : UInt8} (first : byteAt memory tail = .ok a)
    (second : (if rest ≥ 2 then byteAt memory (tail + 1) else pure 0) = .ok b)
    (third : (if rest ≥ 3 then byteAt memory (tail + 2) else pure 0) = .ok c) (h1 : UInt32) :
    murmurTail memory tail rest h1 =
      .ok (h1 ^^^ mixKey ((c.toUInt32 <<< 16) ^^^ (b.toUInt32 <<< 8) ^^^ a.toUInt32)) := by
  rw [murmurTail,if_neg some,third,second,first]
  rfl

theorem murmur3_short {len : Nat} (short : len < 4) {seed hash : UInt32}
    (tailed : murmurTail memory 0 len seed = .ok hash) :
    murmur3 memory len seed = .ok (fmix32 (hash ^^^ UInt32.ofNat len)) := by
  have blocks : len / 4 = 0 := by omega
  have rest : len % 4 = len := by omega
  rw [murmur3,blocks,rest,Nat.zero_mul,murmurBody]
  dsimp only [bind,Except.bind,pure,Except.pure]
  rw [tailed]

theorem short_hash {len : Nat} (short : len < 4) (seed : UInt32) : HashesKey len seed := by
  intro key length after
  subst length
  have high : (0 : UInt8).toUInt32 <<< 16 = 0 := rfl
  have low : (0 : UInt8).toUInt32 <<< 8 = 0 := rfl
  have tailed : murmurTail (key ++ after) 0 key.length seed = .ok (referenceBody key seed) := by
    match key,short with
    | [],_ => rfl
    | [c0],_ =>
      have tail : murmurTail ([c0] ++ after) 0 1 seed = _ := murmurTail_ok (a := c0) (by decide) rfl rfl rfl seed
      rw [high,low,UInt32.zero_xor,UInt32.zero_xor] at tail
      exact tail
    | [c0,c1],_ =>
      have tail : murmurTail ([c0,c1] ++ after) 0 2 seed = _ :=
        murmurTail_ok (a := c0) (b := c1) (by decide) rfl rfl rfl seed
      rw [high,UInt32.zero_xor] at tail
      exact tail
    | [c0,c1,c2],_ =>
      have tail : murmurTail ([c0,c1,c2] ++ after) 0 3 seed = _ :=
        murmurTail_ok (a := c0) (b := c1) (c := c2) (by decide) rfl rfl rfl seed
      exact tail
  exact murmur3_short short tailed

/-- The first block of a longer key is looked for behind it. -/
theorem long_overread (key : List UInt8) (long : 4 ≤ key.length) (seed hash : UInt32) :
    murmur3 key key.length seed ≠ .ok hash := by
  intro hashed
  obtain ⟨_,body,_⟩ := bind_result hashed
  obtain ⟨blocks,count⟩ : ∃ blocks, key.length / 4 = blocks + 1 := ⟨key.length / 4 - 1,by omega⟩
  rw [count,murmurBody] at body
  obtain ⟨k1,first,_⟩ := bind_result body
  exact blockAt_beyond (by omega) k1 first

/-- Memories that differ in the last byte of the last block only leave different states. -/
theorem body_last (left offset : Nat) (h1 : UInt32) {byte byte' : UInt8}
    (inside : offset + 4 * left + 3 < memory.length)
    (before : ∀ i, i < offset + 4 * left + 3 → memory'[i]? = memory[i]?)
    (last : memory[offset + 4 * left + 3]? = some byte) (last' : memory'[offset + 4 * left + 3]? = some byte')
    (different : byte ≠ byte') : ∃ h h', murmurBody memory (left + 1) offset h1 = .ok h ∧
      murmurBody memory' (left + 1) offset h1 = .ok h' ∧ h ≠ h' := by
  induction left generalizing offset h1 with
  | zero =>
    have a := List.getElem?_eq_getElem (by omega : offset < memory.length)
    have b := List.getElem?_eq_getElem (by omega : offset + 1 < memory.length)
    have c := List.getElem?_eq_getElem (by omega : offset + 2 < memory.length)
    have block := blockAt_ok a b c last
    have block' := blockAt_ok ((before _ (by omega)).trans a) ((before _ (by omega)).trans b)
      ((before _ (by omega)).trans c) last'
    refine ⟨_,_,by rw [murmurBody,block]; rfl,by rw [murmurBody,block']; rfl,fun same => different ?_⟩
    · have words := congrArg wordBytes (mixBlock_injective h1 same)
      rw [wordBytes_bytesWord,wordBytes_bytesWord] at words
      simp only [List.cons.injEq] at words
      exact words.2.2.2.1
  | succ left ih =>
    have a := List.getElem?_eq_getElem (by omega : offset < memory.length)
    have b := List.getElem?_eq_getElem (by omega : offset + 1 < memory.length)
    have c := List.getElem?_eq_getElem (by omega : offset + 2 < memory.length)
    have d := List.getElem?_eq_getElem (by omega : offset + 3 < memory.length)
    have block := blockAt_ok a b c d
    have block' := blockAt_ok ((before _ (by omega)).trans a) ((before _ (by omega)).trans b)
      ((before _ (by omega)).trans c) ((before _ (by omega)).trans d)
    have place : offset + 4 * (left + 1) = offset + 4 + 4 * left := by omega
    rw [place] at inside before last last'
    obtain ⟨h,h',body,body',apart⟩ := ih (offset + 4) (mixBlock h1 _) inside before last last'
    refine ⟨h,h',?_,?_,apart⟩
    · rw [murmurBody,block]
      exact body
    · rw [murmurBody,block']
      exact body'

/-- The tail turns the state by a word that only its bytes decide. -/
theorem tail_turns (tail : Nat) {rest : Nat} (small : rest < 4) (inside : tail + rest ≤ memory.length)
    (same : ∀ i, i < tail + rest → memory'[i]? = memory[i]?) : ∃ turn, ∀ h1,
      murmurTail memory tail rest h1 = .ok (h1 ^^^ turn) ∧ murmurTail memory' tail rest h1 = .ok (h1 ^^^ turn) := by
  have byte (i : Nat) (here : i < tail + rest) : ∃ b, byteAt memory i = .ok b ∧ byteAt memory' i = .ok b := by
    have there := List.getElem?_eq_getElem (by omega : i < memory.length)
    exact ⟨_,byteAt_ok there,byteAt_ok ((same i here).trans there)⟩
  by_cases none : rest = 0
  · refine ⟨0,fun h1 => ?_⟩
    rw [murmurTail,murmurTail,if_pos none,if_pos none,UInt32.xor_zero]
    exact ⟨rfl,rfl⟩
  obtain ⟨a,first,first'⟩ := byte tail (by omega)
  have second : ∃ b, (if rest ≥ 2 then byteAt memory (tail + 1) else pure 0) = .ok b ∧
      (if rest ≥ 2 then byteAt memory' (tail + 1) else pure 0) = .ok b := by
    split <;> rename_i more
    · exact byte (tail + 1) (by omega)
    · exact ⟨0,rfl,rfl⟩
  have third : ∃ c, (if rest ≥ 3 then byteAt memory (tail + 2) else pure 0) = .ok c ∧
      (if rest ≥ 3 then byteAt memory' (tail + 2) else pure 0) = .ok c := by
    split <;> rename_i more
    · exact byte (tail + 2) (by omega)
    · exact ⟨0,rfl,rfl⟩
  obtain ⟨b,second,second'⟩ := second
  obtain ⟨c,third,third'⟩ := third
  exact ⟨_,fun h1 => ⟨murmurTail_ok none first second third h1,murmurTail_ok none first' second' third' h1⟩⟩

/-- A longer key has another hash when another byte follows it. -/
theorem long_differs {len : Nat} (long : 4 ≤ len) (seed : UInt32) : ¬ SameHash len seed := by
  intro same
  obtain ⟨blocks,count⟩ : ∃ blocks, len / 4 = blocks + 1 := ⟨len / 4 - 1,by omega⟩
  let key : List UInt8 := List.replicate len 0
  let after (byte : UInt8) : List UInt8 := (List.replicate (8 * (blocks + 1) - len) 0).set (8 * blocks + 7 - len) byte
  have keyLength : key.length = len := List.length_replicate
  have length (byte : UInt8) : (key ++ after byte).length = 8 * (blocks + 1) := by
    rw [List.length_append,keyLength,List.length_set,List.length_replicate]
    omega
  have last (byte : UInt8) : (key ++ after byte)[8 * blocks + 7]? = some byte := by
    rw [List.getElem?_append_right (by omega),keyLength]
    simp only [after]
    rw [List.getElem?_set_self (by rw [List.length_replicate]; omega)]
  have before (i : Nat) (early : i < 8 * blocks + 7) : (key ++ after 1)[i]? = (key ++ after 0)[i]? := by
    by_cases inKey : i < len
    · rw [List.getElem?_append_left (by omega),List.getElem?_append_left (by omega)]
    · rw [List.getElem?_append_right (by omega),List.getElem?_append_right (by omega),keyLength]
      simp only [after]
      rw [List.getElem?_set_ne (by omega),List.getElem?_set_ne (by omega)]
  have place : (blocks + 1) * 4 + 4 * blocks + 3 = 8 * blocks + 7 := by omega
  obtain ⟨h,h',body,body',apart⟩ := body_last blocks ((blocks + 1) * 4) seed (by rw [place,length 0]; omega)
    (by rw [place]; exact before) (by rw [place]; exact last 0) (by rw [place]; exact last 1) (by decide)
  obtain ⟨turn,turned⟩ := tail_turns ((blocks + 1) * 4) (Nat.mod_lt len (by decide : 0 < 4))
    (by rw [length 0]; omega) (fun i early => before i (by omega))
  have hashed : murmur3 (key ++ after 0) len seed = .ok (fmix32 (h ^^^ turn ^^^ UInt32.ofNat len)) := by
    rw [murmur3,count,body]
    dsimp only [bind,Except.bind]
    rw [(turned h).1]
    rfl
  have hashed' : murmur3 (key ++ after 1) len seed = .ok (fmix32 (h' ^^^ turn ^^^ UInt32.ofNat len)) := by
    rw [murmur3,count,body']
    dsimp only [bind,Except.bind]
    rw [(turned h').2]
    rfl
  have equal := fmix32_injective (same key (after 0) (after 1) keyLength _ _ hashed hashed')
  rw [UInt32.xor_left_inj,UInt32.xor_left_inj] at equal
  exact apart equal

/-- Only keys without a whole block are hashed by their own bytes. -/
theorem hashesKey_iff (len : Nat) (seed : UInt32) :
    (HashesKey len seed ↔ len < 4) ∧ (SameHash len seed ↔ len < 4) := by
  have hashes (all : HashesKey len seed) : len < 4 := by
    by_contra long
    have whole := all (List.replicate len 0) List.length_replicate []
    rw [List.append_nil] at whole
    have read := long_overread (List.replicate len 0) (by rw [List.length_replicate]; omega) seed
    rw [List.length_replicate] at read
    exact read _ whole
  have same (short : len < 4) : SameHash len seed := by
    intro key after after' length hash hash' first second
    rw [short_hash short seed key length] at first second
    exact (Except.ok.inj first).symm.trans (Except.ok.inj second)
  refine ⟨⟨hashes,fun short => short_hash short seed⟩,⟨fun all => ?_,same⟩⟩
  by_contra long
  exact long_differs (Nat.le_of_not_lt long) seed all

/-- The hash of a key of four bytes is taken of the four bytes behind it. -/
theorem fourBytes_misread : ¬ ∀ (len : Nat) (seed : UInt32), HashesKey len seed := by
  intro all
  have read := all 4 0 [97,98,99,100] rfl []
  revert read
  decide

end Reading

end Libnmo.Core
