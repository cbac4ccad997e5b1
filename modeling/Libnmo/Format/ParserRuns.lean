import Libnmo.Format.ParserReads
import Libnmo.Lib.Packed
import Libnmo.Lib.Reads

/-! What the typed reads of a parser take: the words that lie ahead of the cursor, in
the layout that a writer gives them, are consumed and give the value. -/
namespace Libnmo.Format
open Core Lib Lib.LittleEndian Lib.Cursor

section Reading
variable {data : List UInt32} {bytes : List UInt8}

theorem reads_parserDword (word : UInt32) : Reads data (parserDword data) [word] word := by
  intro pos rest ahead
  refine ⟨pos + 1,?_,ahead.next⟩
  have found : data[pos]? = some word := ahead.getElem?
  simp only [parserDword,found]

theorem reads_checkBounds {α : Type} {action : Run Nat α} {input : List UInt32} {value : α} {dwordsNeeded : Nat}
    (enough : dwordsNeeded ≤ input.length) (reads : Reads data action input value) :
    Reads data (checkBounds data dwordsNeeded >>= fun _ => action) input value := by
  intro pos rest ahead
  have bound := ahead.bound
  have checked : (checkBounds data dwordsNeeded).run pos = (.ok (),pos) := by
    simp only [checkBounds,if_pos (show pos + dwordsNeeded ≤ data.length by omega)]
  rw [Action.bind_ok _ checked]
  exact reads pos rest ahead

theorem reads_parserDwords (list : List UInt32) (count : UInt32) (same : count.toNat = list.length) :
    Reads data (parserDwords data count) list list := by
  unfold parserDwords
  split
  · refine reads_checkBounds (Nat.le_of_eq same) fun pos rest ahead => ?_
    refine ⟨pos + list.length,?_,ahead.skip⟩
    simp only [same,ahead.slice_eq]
  · rename_i zero
    obtain rfl : list = [] := by
      rw [gt_iff_lt,UInt32.lt_iff_toNat_lt,same] at zero
      exact List.length_eq_zero_iff.mp (Nat.eq_zero_of_not_pos zero)
    exact reads_pure []

theorem low_half (word : UInt32) : (word &&& 0xFFFF).toUInt16.toUInt32 = word &&& 0xFFFF := by
  apply UInt32.toNat_inj.mp
  have mask : word.toNat &&& 65535 = word.toNat % 65536 := Nat.and_two_pow_sub_one_eq_mod _ 16
  simp only [UInt16.toNat_toUInt32,UInt32.toNat_toUInt16,UInt32.toNat_and]
  change (word.toNat &&& 65535) % 65536 = word.toNat &&& 65535
  omega

theorem toUInt16_low (value : UInt16) : (value.toUInt32 &&& 0xFFFF).toUInt16 = value := by
  apply UInt16.toNat_inj.mp
  have mask : value.toNat &&& 65535 = value.toNat % 65536 := Nat.and_two_pow_sub_one_eq_mod _ 16
  have bound := value.toNat_lt
  simp only [UInt32.toNat_toUInt16,UInt32.toNat_and,UInt16.toNat_toUInt32]
  change (value.toNat &&& 65535) % 65536 = value.toNat
  omega

theorem toUInt8_low (value : UInt8) : (value.toUInt32 &&& 0xFF).toUInt8 = value := by
  apply UInt8.toNat_inj.mp
  have mask : value.toNat &&& 255 = value.toNat % 256 := Nat.and_two_pow_sub_one_eq_mod _ 8
  have bound := value.toNat_lt
  simp only [UInt32.toNat_toUInt8,UInt32.toNat_and,UInt8.toNat_toUInt32]
  change (value.toNat &&& 255) % 256 = value.toNat
  omega

theorem halves_join (value : UInt32) :
    (((value >>> 16) &&& 0xFFFF).toUInt16).toUInt32 <<< 16 ||| (value &&& 0xFFFF).toUInt16.toUInt32 = value := by
  have bound := value.toNat_lt
  have low := Nat.and_two_pow_sub_one_eq_mod value.toNat 16
  have high := Nat.and_two_pow_sub_one_eq_mod (value.toNat >>> 16) 16
  rw [low_half,low_half]
  apply UInt32.toNat_inj.mp
  simp only [UInt32.toNat_or,UInt32.toNat_shiftLeft,UInt32.toNat_and,UInt32.toNat_shiftRight]
  change (value.toNat >>> 16 &&& 65535) <<< 16 % 2 ^ 32 ||| (value.toNat &&& 65535) = value.toNat
  change (value.toNat >>> 16 &&& 65535) = _ at high
  change (value.toNat &&& 65535) = _ at low
  rw [high,low,Nat.shiftRight_eq_div_pow,Nat.shiftLeft_eq,Nat.mod_eq_of_lt (by omega),← Nat.shiftLeft_eq,
    ← Nat.shiftLeft_add_eq_or_of_lt (by omega),Nat.shiftLeft_eq]
  omega

theorem copyBytes_run {words rest : List UInt32} {pos : Nat} (packs : Packs words bytes)
    (ahead : Ahead data pos (words ++ rest)) : (copyBytes data bytes.length).run pos = (.ok bytes,pos) := by
  have whole : bytes.length ≤ (encodeWords (data.drop pos)).length := by
    rw [ahead.2,length_encodeWords,List.length_append,packs.1]
    omega
  have front : (encodeWords (data.drop pos)).take bytes.length = bytes := by
    rw [ahead.2,encodeWords_append,List.take_append_of_le_length (by rw [length_encodeWords,packs.1]; omega),packs.2]
  simp only [copyBytes,if_pos whole,front]

theorem reads_takeBytes {words : List UInt32} {dwords : Nat} (packs : Packs words bytes)
    (same : dwords = (bytes.length + 3) / 4) : Reads data (takeBytes data bytes.length dwords) words bytes := by
  rw [← packs.1] at same
  subst same
  refine reads_checkBounds (Nat.le_refl _) fun pos rest ahead => ?_
  refine ⟨pos + words.length,?_,ahead.skip⟩
  rw [Action.bind_ok _ (copyBytes_run packs ahead),advance,Action.bind_ok _ (Action.update_apply _ pos)]
  rfl

theorem reads_parserBytes {words : List UInt32} (packs : Packs words bytes) (small : bytes.length + 3 < 2 ^ 32) :
    Reads data (parserBytes data bytes.length) words bytes := by
  unfold parserBytes
  split
  · rename_i empty
    obtain rfl := List.length_eq_zero_iff.mp empty
    obtain rfl := List.length_eq_zero_iff.mp packs.1
    exact reads_pure []
  · exact reads_takeBytes packs (alignDword_small small)

theorem reads_parserString {words : List UInt32} (packs : Packs words bytes) (small : bytes.length + 3 < 2 ^ 32) :
    Reads data (parserString data) (UInt32.ofNat bytes.length :: words) bytes := by
  have length : (UInt32.ofNat bytes.length).toNat = bytes.length := by
    rw [UInt32.toNat_ofNat']
    omega
  have positive : ¬ UInt32.ofNat bytes.length + 1 = 0 := by
    intro zero
    have value := congrArg UInt32.toNat zero
    rw [UInt32.toNat_add,length] at value
    change (bytes.length + 1) % 2 ^ 32 = 0 at value
    omega
  refine reads_cons (reads_parserDword _) (reads_still (show Reads data _ [] () from ?_) ?_)
  · rw [if_neg positive]
    exact reads_pure ()
  · rw [length]
    exact reads_parserBytes packs small

/-- The sum wraps for the three largest sizes. -/
theorem arrayDwords_eq {dataSizeBytes : Int32} (positive : 0 < dataSizeBytes.toInt) : arrayDwords dataSizeBytes =
    if dataSizeBytes.toInt + 3 < 2 ^ 31 then (dataSizeBytes.toInt + 3) / 4
    else (dataSizeBytes.toInt + 3 - 2 ^ 32).tdiv 4 := by
  have bound := dataSizeBytes.toInt_lt
  have sum : (dataSizeBytes + 3).toInt = (dataSizeBytes.toInt + 3).bmod (2 ^ 32) := Int32.toInt_add _ _
  rw [arrayDwords,sum]
  split
  · rename_i small
    rw [Int.bmod_eq_of_le (by omega) (by omega),Int.tdiv_eq_ediv_of_nonneg (by omega)]
  · rename_i large
    congr 1
    rw [Int.bmod_def]
    omega

theorem toInt_ofNat {n : Nat} (small : n < 2 ^ 31) : (UInt32.ofNat n).toInt32.toInt = n := by
  have bits : (UInt32.ofNat n).toInt32.toInt = (BitVec.ofNat 32 n).toInt := rfl
  rw [bits,BitVec.toInt_eq_toNat_bmod,BitVec.toNat_ofNat,Nat.mod_eq_of_lt (by omega),
    Int.bmod_eq_of_le (by omega) (by omega)]

theorem reads_parserInt (value : Int32) : Reads data (parserInt data) [value.toUInt32] value :=
  reads_return (f := UInt32.toInt32) (reads_parserDword value.toUInt32)

theorem reads_roomFor {α : Type} {action : Run Nat α} {absent : α} {input : List UInt32} {value : α} {dwords : Nat}
    (enough : dwords ≤ input.length) (reads : Reads data action input value) :
    Reads data (roomFor data dwords >>= fun room => if room then action else pure absent) input value := by
  intro pos rest ahead
  have bound := ahead.bound
  rw [Action.bind_ok (t := pos) (a := true) _
    (by simp only [roomFor,Action.read_apply,decide_eq_true (show pos + dwords ≤ data.length by omega)]),if_pos rfl]
  exact reads pos rest ahead

theorem reads_arrayEmpty : Reads data (parserArrayLendian data) [0,0] (none,0) := by
  refine reads_roomFor (Nat.le_refl 2) (reads_cons (reads_parserInt 0) (reads_cons (reads_parserInt 0) ?_))
  exact reads_pure _

theorem reads_arrayLendian {words : List UInt32} {elementCount : Int32} (packs : Packs words bytes)
    (small : bytes.length + 3 < 2 ^ 31) (some' : 0 < bytes.length) (positive : 0 < elementCount.toInt) :
    Reads data (parserArrayLendian data) ([UInt32.ofNat bytes.length,elementCount.toUInt32] ++ words)
      (some bytes,elementCount) := by
  have size := toInt_ofNat (n := bytes.length) (by omega)
  have dwords : arrayDwords (UInt32.ofNat bytes.length).toInt32 = ((bytes.length + 3) / 4 : Nat) := by
    rw [arrayDwords_eq (by omega),size,if_pos (by omega)]
    omega
  refine reads_roomFor (by simp) (reads_cons (show Reads data _ _ (UInt32.ofNat bytes.length).toInt32 from ?_)
    (reads_cons (reads_parserInt elementCount) ?_))
  · exact reads_return (f := UInt32.toInt32) (reads_parserDword (UInt32.ofNat bytes.length))
  · rw [if_neg (by simp only [Int32.le_iff_toInt_le,size,Int32.toInt_zero]; omega),dwords,size,Int.toNat_natCast]
    change Reads data _ words _
    intro pos rest ahead
    refine ⟨pos + words.length,?_,ahead.skip⟩
    have bound := ahead.bound
    have stop : ((pos : Int) + ((bytes.length + 3) / 4 : Nat)).toNat = pos + words.length := by
      rw [packs.1]
      omega
    have room : 0 ≤ (pos : Int) + ((bytes.length + 3) / 4 : Nat) ∧
        (pos : Int) + ((bytes.length + 3) / 4 : Nat) ≤ data.length := by
      rw [← packs.1]
      omega
    rw [Action.bind_ok (t := pos) (a := true) _ (by simp only [roomForSigned,Action.read_apply,decide_eq_true room]),
      if_pos rfl,Action.bind_ok _ (copyBytes_run packs ahead),Action.bind_ok _ (Action.update_apply _ pos),stop]
    rfl

theorem reads_arrayEmpty16 : Reads data (parserArrayLendian16 data) [0,0] (none,0) := by
  refine reads_cons (reads_parserDword 0) (reads_cons (reads_parserDword 0) ?_)
  exact reads_pure _

theorem reads_arrayLendian16 {words : List UInt32} {elementCount : Int32} (packs : Packs words (swap16BitWords bytes))
    (small : bytes.length + 3 < 2 ^ 32) (some' : 0 < bytes.length) (positive : 0 < elementCount.toInt) :
    Reads data (parserArrayLendian16 data) ([UInt32.ofNat bytes.length,elementCount.toUInt32] ++ words)
      (some bytes,elementCount) := by
  have size : (UInt32.ofNat bytes.length).toNat = bytes.length := by
    rw [UInt32.toNat_ofNat']
    omega
  have full : ¬ (UInt32.ofNat bytes.length = 0 ∨ elementCount.toUInt32 = 0) := by
    rintro (zero | zero)
    · rw [zero] at size
      exact absurd size (Nat.ne_of_lt some')
    · have value : elementCount = 0 := congrArg UInt32.toInt32 zero
      rw [value] at positive
      exact absurd positive (by decide)
  refine reads_cons (reads_parserDword _) (reads_cons (reads_parserDword _) ?_)
  rw [if_neg full,size]
  have taken : Reads data (takeBytes data bytes.length (alignDword bytes.length / 4)) _ _ :=
    length_swap16BitWords bytes ▸ reads_takeBytes packs (by rw [length_swap16BitWords]; exact alignDword_small small)
  have back := reads_return (f := fun array => (some (swap16BitWords array),elementCount)) taken
  rw [swap16BitWords_twice] at back
  exact back

theorem reads_parserByte (dword : UInt32) : Reads data (parserByte data) [dword] (dword &&& 0xFF).toUInt8 :=
  reads_return (f := fun dword => (dword &&& 0xFF).toUInt8) (reads_parserDword dword)

theorem reads_parserWord (dword : UInt32) : Reads data (parserWord data) [dword] (dword &&& 0xFFFF).toUInt16 :=
  reads_return (f := fun dword => (dword &&& 0xFFFF).toUInt16) (reads_parserDword dword)

theorem reads_dwordAsWords (value : UInt32) :
    Reads data (parserDwordAsWords data) [value &&& 0xFFFF,(value >>> 16) &&& 0xFFFF] value := by
  have both : Reads data (parserDwordAsWords data) ([value &&& 0xFFFF] ++ [(value >>> 16) &&& 0xFFFF]) _ :=
    reads_bind (reads_parserWord _) (reads_return (f := fun high : UInt16 => high.toUInt32 <<< 16 ||| _) (reads_parserWord _))
  rw [UInt32.and_assoc,UInt32.and_assoc,UInt32.and_self,halves_join] at both
  exact both

theorem reads_halves (values : List UInt32) : Reads data (parserDwordArrayAsWords data values.length)
    (values.flatMap fun value => [value &&& 0xFFFF,(value >>> 16) &&& 0xFFFF]) values := by
  have all := reads_times values (fun value => [value &&& 0xFFFF,(value >>> 16) &&& 0xFFFF]) id
    fun value _ => (reads_dwordAsWords value : Reads data _ _ _)
  rw [List.map_id] at all
  exact all

theorem reads_wordsEach (values : List UInt16) :
    Reads data (parserBufferNosizeLendian16 data values.length) (values.map UInt16.toUInt32) values := by
  have all := reads_times values (fun value => [value.toUInt32]) (fun value => (value.toUInt32 &&& 0xFFFF).toUInt16)
    fun value _ => (reads_parserWord value.toUInt32 : Reads data _ _ _)
  rw [← List.map_eq_flatMap] at all
  simp only [toUInt16_low,List.map_id'] at all
  exact all

theorem reads_parserBuffer {words : List UInt32} (packs : Packs words bytes)
    (small : bytes.length + 3 < 2 ^ 32) : Reads data (parserBuffer data) (UInt32.ofNat bytes.length :: words)
      (if bytes = [] then none else some bytes) := by
  have length : (UInt32.ofNat bytes.length).toNat = bytes.length := by
    rw [UInt32.toNat_ofNat']
    omega
  refine reads_cons (reads_parserDword _) ?_
  by_cases empty : bytes = []
  · subst empty
    obtain rfl := List.length_eq_zero_iff.mp packs.1
    exact reads_pure none
  · have some' : ¬ UInt32.ofNat bytes.length = 0 := fun zero =>
      empty (List.length_eq_zero_iff.mp (length.symm.trans (congrArg UInt32.toNat zero)))
    rw [if_neg some',if_neg empty,length]
    exact reads_return (reads_parserBytes packs small)

theorem reads_bufferNosize {words : List UInt32} (packs : Packs words bytes)
    (small : bytes.length + 3 < 2 ^ 32) : Reads data (parserBufferNosize data bytes.length) words bytes := by
  unfold parserBufferNosize
  split
  · rename_i empty
    obtain rfl := List.length_eq_zero_iff.mp empty
    obtain rfl := List.length_eq_zero_iff.mp packs.1
    exact reads_pure []
  · exact reads_takeBytes packs (by omega)

theorem reads_bufferLendian16 {words : List UInt32} (packs : Packs words (swap16BitWords bytes))
    (small : bytes.length + 3 < 2 ^ 32) : Reads data (parserBufferLendian16 data bytes.length) words bytes := by
  unfold parserBufferLendian16
  split
  · rename_i empty
    obtain rfl := List.length_eq_zero_iff.mp empty
    obtain rfl := List.length_eq_zero_iff.mp packs.1
    exact reads_pure []
  · have taken : Reads data (takeBytes data bytes.length (alignDword bytes.length / 4)) _ _ :=
      length_swap16BitWords bytes ▸ reads_takeBytes packs (by rw [length_swap16BitWords]; exact alignDword_small small)
    have back := reads_return (f := swap16BitWords) taken
    rw [swap16BitWords_twice] at back
    exact back

end Reading
end Libnmo.Format
