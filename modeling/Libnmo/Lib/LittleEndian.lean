import Mathlib.Data.Nat.Bitwise

/-! Four-byte little-endian words. A word is read through its natural-number
value, so every packing and unpacking question becomes one of linear arithmetic.
The list codec appends and cuts at word boundaries only. -/
namespace Libnmo.Lib.LittleEndian

def bytesWord (a b c d : UInt8) : UInt32 :=
  a.toUInt32 ||| (b.toUInt32 <<< 8) ||| (c.toUInt32 <<< 16) ||| (d.toUInt32 <<< 24)

def wordBytes (word : UInt32) : List UInt8 :=
  [word.toUInt8,(word >>> 8).toUInt8,(word >>> 16).toUInt8,(word >>> 24).toUInt8]

def encodeWords (words : List UInt32) : List UInt8 := words.flatMap wordBytes

/-- The complete words of a byte string; up to three trailing bytes are dropped. -/
def decodeWords : List UInt8 → List UInt32
  | a :: b :: c :: d :: rest => bytesWord a b c d :: decodeWords rest
  | _ => []

private theorem or_shift (a b k : Nat) (small : a < 2 ^ k) : a ||| b <<< k = a + b * 2 ^ k := by
  rw [Nat.or_comm,← Nat.shiftLeft_add_eq_or_of_lt small,Nat.shiftLeft_eq]
  omega

theorem toNat_bytesWord (a b c d : UInt8) :
    (bytesWord a b c d).toNat = a.toNat + b.toNat * 2 ^ 8 + c.toNat * 2 ^ 16 + d.toNat * 2 ^ 24 := by
  have ha := a.toNat_lt
  have hb := b.toNat_lt
  have hc := c.toNat_lt
  have hd := d.toNat_lt
  have shifted (n k : Nat) (bound : n * 2 ^ k < 2 ^ 32) : n <<< k % 2 ^ 32 = n <<< k := by
    rw [Nat.shiftLeft_eq,Nat.mod_eq_of_lt bound]
  simp only [bytesWord,UInt32.toNat_or,UInt32.toNat_shiftLeft,UInt8.toNat_toUInt32]
  change a.toNat ||| b.toNat <<< 8 % 2 ^ 32 ||| c.toNat <<< 16 % 2 ^ 32 ||| d.toNat <<< 24 % 2 ^ 32 = _
  rw [shifted _ _ (by omega),shifted _ _ (by omega),shifted _ _ (by omega)]
  rw [or_shift a.toNat b.toNat 8 (by omega),or_shift _ c.toNat 16 (by omega),
    or_shift _ d.toNat 24 (by omega)]

theorem toNat_toUInt8_shift (word : UInt32) (k : UInt32) (small : k.toNat < 32) :
    (word >>> k).toUInt8.toNat = word.toNat / 2 ^ k.toNat % 2 ^ 8 := by
  rw [UInt32.toNat_toUInt8,UInt32.toNat_shiftRight,Nat.mod_eq_of_lt small,Nat.shiftRight_eq_div_pow]

theorem bytesWord_wordBytes (word : UInt32) :
    bytesWord word.toUInt8 (word >>> 8).toUInt8 (word >>> 16).toUInt8 (word >>> 24).toUInt8 = word := by
  apply UInt32.toNat_inj.mp
  rw [toNat_bytesWord,toNat_toUInt8_shift _ _ (by decide),toNat_toUInt8_shift _ _ (by decide),
    toNat_toUInt8_shift _ _ (by decide),UInt32.toNat_toUInt8]
  have bound := word.toNat_lt
  change word.toNat % 2 ^ 8 + word.toNat / 2 ^ 8 % 2 ^ 8 * 2 ^ 8 + word.toNat / 2 ^ 16 % 2 ^ 8 * 2 ^ 16 +
    word.toNat / 2 ^ 24 % 2 ^ 8 * 2 ^ 24 = word.toNat
  omega

theorem wordBytes_bytesWord (a b c d : UInt8) : wordBytes (bytesWord a b c d) = [a,b,c,d] := by
  have ha := a.toNat_lt
  have hb := b.toNat_lt
  have hc := c.toNat_lt
  have hd := d.toNat_lt
  have value := toNat_bytesWord a b c d
  have byte (k : UInt32) (x : UInt8) (small : k.toNat < 32)
      (same : (bytesWord a b c d).toNat / 2 ^ k.toNat % 2 ^ 8 = x.toNat) :
      (bytesWord a b c d >>> k).toUInt8 = x :=
    UInt8.toNat_inj.mp ((toNat_toUInt8_shift _ _ small).trans same)
  have first : (bytesWord a b c d).toUInt8 = a := by
    apply UInt8.toNat_inj.mp
    rw [UInt32.toNat_toUInt8,value]
    omega
  simp only [wordBytes,first]
  rw [byte 8 b (by decide) (by change _ / 2 ^ 8 % 2 ^ 8 = _; omega),
    byte 16 c (by decide) (by change _ / 2 ^ 16 % 2 ^ 8 = _; omega),
    byte 24 d (by decide) (by change _ / 2 ^ 24 % 2 ^ 8 = _; omega)]

theorem wordBytes_inj {left right : UInt32} (same : wordBytes left = wordBytes right) : left = right := by
  simp only [wordBytes,List.cons.injEq] at same
  obtain ⟨first,second,third,fourth,_⟩ := same
  rw [← bytesWord_wordBytes left,← bytesWord_wordBytes right,first,second,third,fourth]

@[simp] theorem length_wordBytes (word : UInt32) : (wordBytes word).length = 4 := rfl

@[simp] theorem encodeWords_nil : encodeWords [] = [] := rfl

@[simp] theorem encodeWords_cons (word : UInt32) (words : List UInt32) :
    encodeWords (word :: words) = wordBytes word ++ encodeWords words := rfl

@[simp] theorem encodeWords_append (left right : List UInt32) :
    encodeWords (left ++ right) = encodeWords left ++ encodeWords right := by
  simp [encodeWords]

@[simp] theorem length_encodeWords (words : List UInt32) :
    (encodeWords words).length = 4 * words.length := by
  induction words with
  | nil => rfl
  | cons word words ih => simp [ih]; omega

@[simp] theorem decodeWords_cons (word : UInt32) (rest : List UInt8) :
    decodeWords (wordBytes word ++ rest) = word :: decodeWords rest := by
  simp [wordBytes,decodeWords,bytesWord_wordBytes]

theorem decodeWords_append (words : List UInt32) (rest : List UInt8) :
    decodeWords (encodeWords words ++ rest) = words ++ decodeWords rest := by
  induction words with
  | nil => rfl
  | cons word words ih => simp [List.append_assoc,ih]

@[simp] theorem decodeWords_encodeWords (words : List UInt32) :
    decodeWords (encodeWords words) = words := by
  simpa [decodeWords] using decodeWords_append words []

theorem length_decodeWords (bytes : List UInt8) : (decodeWords bytes).length = bytes.length / 4 := by
  induction bytes using decodeWords.induct with
  | case1 a b c d rest ih => simp [decodeWords,ih]; omega
  | case2 bytes short =>
    match bytes,short with
    | [],_ => rfl
    | [_],_ => simp [decodeWords]
    | [_,_],_ => simp [decodeWords]
    | [_,_,_],_ => simp [decodeWords]
    | a :: b :: c :: d :: rest,short => exact absurd rfl (short a b c d rest)

section Masks

private theorem and_byte (n : Nat) : n &&& 255 = n % 256 := Nat.and_two_pow_sub_one_eq_mod n 8

private theorem and_half (n : Nat) : n &&& 65535 = n % 65536 := Nat.and_two_pow_sub_one_eq_mod n 16

private theorem and_high_byte (n : Nat) : (n &&& 65280) / 256 = n / 256 % 256 := by
  rw [← Nat.shiftRight_eq_div_pow _ 8,Nat.shiftRight_and_distrib,Nat.shiftRight_eq_div_pow]
  exact and_byte (n / 256)

private theorem and_high_half (n : Nat) : (n &&& 4294901760) / 65536 = n / 65536 % 65536 := by
  rw [← Nat.shiftRight_eq_div_pow _ 16,Nat.shiftRight_and_distrib,Nat.shiftRight_eq_div_pow]
  exact and_half (n / 65536)

theorem and_low_byte (word : UInt32) : word &&& 0xFF = word.toUInt8.toUInt32 := by
  apply UInt32.toNat_inj.mp
  simp [and_byte]

theorem lowHalf_lowByte (word : UInt32) :
    ((word &&& 0x0000FFFF).toUInt16 &&& 0x00FF).toUInt8 = word.toUInt8 := by
  apply UInt8.toNat_inj.mp
  simp [and_byte]

theorem lowHalf_highByte (word : UInt32) :
    (((word &&& 0x0000FFFF).toUInt16 &&& 0xFF00) >>> 8).toUInt8 = (word >>> 8).toUInt8 := by
  apply UInt8.toNat_inj.mp
  simp [and_half,Nat.shiftRight_eq_div_pow,and_high_byte]
  omega

theorem highHalf_lowByte (word : UInt32) :
    (((word &&& 0xFFFF0000) >>> 16).toUInt16 &&& 0x00FF).toUInt8 = (word >>> 16).toUInt8 := by
  apply UInt8.toNat_inj.mp
  simp [and_byte,and_high_half,Nat.shiftRight_eq_div_pow]

theorem highHalf_highByte (word : UInt32) :
    ((((word &&& 0xFFFF0000) >>> 16).toUInt16 &&& 0xFF00) >>> 8).toUInt8 = (word >>> 24).toUInt8 := by
  apply UInt8.toNat_inj.mp
  simp [Nat.shiftRight_eq_div_pow,and_high_byte,and_high_half]
  omega

theorem toNat_half (low high : UInt8) :
    (low.toUInt16 ||| high.toUInt16 <<< 8).toNat = low.toNat + high.toNat * 2 ^ 8 := by
  have hl := low.toNat_lt
  have hh := high.toNat_lt
  simp only [UInt16.toNat_or,UInt16.toNat_shiftLeft,UInt8.toNat_toUInt16]
  change low.toNat ||| high.toNat <<< 8 % 2 ^ 16 = _
  rw [Nat.mod_eq_of_lt (by rw [Nat.shiftLeft_eq]; omega),or_shift low.toNat high.toNat 8 (by omega)]

theorem halves_bytesWord (a b c d : UInt8) :
    (a.toUInt16 ||| b.toUInt16 <<< 8).toUInt32 ||| (c.toUInt16 ||| d.toUInt16 <<< 8).toUInt32 <<< 16 =
      bytesWord a b c d := by
  have ha := a.toNat_lt
  have hb := b.toNat_lt
  have hc := c.toNat_lt
  have hd := d.toNat_lt
  have low := toNat_half a b
  have high := toNat_half c d
  apply UInt32.toNat_inj.mp
  rw [toNat_bytesWord,UInt32.toNat_or,UInt32.toNat_shiftLeft,UInt16.toNat_toUInt32,UInt16.toNat_toUInt32,
    low,high]
  change _ ||| (c.toNat + d.toNat * 2 ^ 8) <<< 16 % 2 ^ 32 = _
  rw [Nat.mod_eq_of_lt (by rw [Nat.shiftLeft_eq]; omega),or_shift _ _ 16 (by omega)]
  omega

end Masks

section Bytes
variable (a b c d : UInt8)

@[simp] theorem bytesWord_byte0 : (bytesWord a b c d).toUInt8 = a := by
  have := wordBytes_bytesWord a b c d
  simp only [wordBytes,List.cons.injEq] at this
  exact this.1

@[simp] theorem bytesWord_byte1 : (bytesWord a b c d >>> 8).toUInt8 = b := by
  have := wordBytes_bytesWord a b c d
  simp only [wordBytes,List.cons.injEq] at this
  exact this.2.1

@[simp] theorem bytesWord_byte2 : (bytesWord a b c d >>> 16).toUInt8 = c := by
  have := wordBytes_bytesWord a b c d
  simp only [wordBytes,List.cons.injEq] at this
  exact this.2.2.1

@[simp] theorem bytesWord_byte3 : (bytesWord a b c d >>> 24).toUInt8 = d := by
  have := wordBytes_bytesWord a b c d
  simp only [wordBytes,List.cons.injEq] at this
  exact this.2.2.2.1

end Bytes

end Libnmo.Lib.LittleEndian
