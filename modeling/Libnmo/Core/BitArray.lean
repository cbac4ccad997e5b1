import Libnmo.Core.Error
import Libnmo.Lib.BitWords
import Mathlib.Data.Nat.Nth

/-! The bit array as a set of numbers. It grows to hold an index, and nothing guards the
rounding of an index near the end of memory, nor the capacity in bits, which is zero again
at 2^64. Whether the allocator gives a block is asked by its size; the block is written
over at once. -/
namespace Libnmo.Core
open Lib BitWords

/-- The words are the whole block, none for a null pointer. -/
structure BitArray where
  words : List UInt32 := []
  bitCapacity : Nat := 0
  wordCapacity : Nat := 0
  deriving DecidableEq, Repr

abbrev bitsPerWord : Nat := 32

def wordsForBits (bits : Nat) : Nat :=
  if bits = 0 then 0 else (bits + (bitsPerWord - 1)) % 2 ^ 64 / bitsPerWord

/-- The loop that doubles the number of words. -/
def growTarget (newWordCount : Nat) : Nat → Nat → Option Nat
  | 0,_ => none
  | fuel + 1,target =>
    if target < newWordCount then
      if target > (2 ^ 64 - 1) / 2 then some newWordCount else growTarget newWordCount fuel (target * 2)
    else some target

def bitArrayGrow (granted : Nat → Bool) (newWordCount : Nat) : Run BitArray Unit where
  run array :=
    if newWordCount ≤ array.wordCapacity then (.ok (),array)
    else match growTarget newWordCount 65 (if array.wordCapacity = 0 then 1 else array.wordCapacity) with
      | none => (.error .endless,array)
      | some target =>
        let bytes := target * 4 % 2 ^ 64
        let existingBytes := array.wordCapacity * 4 % 2 ^ 64
        if granted bytes then
          if bytes < existingBytes then (.error (.overwrite bytes),array)
          else (.ok (),{
            words := array.words.take (existingBytes / 4) ++ List.replicate (bytes / 4 - existingBytes / 4) 0
            wordCapacity := target
            bitCapacity := target * bitsPerWord % 2 ^ 64 })
        else (.error (.error .nomem "Failed to allocate bit array storage"),array)

def bitArrayEnsureIndex (granted : Nat → Bool) (index : Nat) : Run BitArray Unit :=
  bitArrayGrow granted (wordsForBits ((index + 1) % 2 ^ 64))

def bitArrayReserve (granted : Nat → Bool) (bitCount : Nat) : Run BitArray Unit := bitArrayGrow granted (wordsForBits bitCount)

/-- A change of one word in place. -/
def changeWord (word : Nat) (f : UInt32 → UInt32) : Run BitArray Unit where
  run array :=
    if word < array.words.length then (.ok (),{ array with words := array.words.modify word f })
    else (.error (.overwrite word),array)

/-- A loop over words, each changed by what depends on its place. -/
def eachWord (f : Nat → UInt32 → UInt32) : Nat → Nat → Run BitArray Unit
  | _,0 => pure ()
  | word,count + 1 => do
    changeWord word (f word)
    eachWord f (word + 1) count

def bitArraySet (granted : Nat → Bool) (index : Nat) : Run BitArray Unit := do
  bitArrayEnsureIndex granted index
  changeWord (index / bitsPerWord) fun word => word ||| mask (index % bitsPerWord)

def bitArrayClear (index : Nat) : Run BitArray Unit := do
  let array ← Action.read id
  if index ≥ array.bitCapacity ∨ array.words = [] then pure ()
  else changeWord (index / bitsPerWord) fun word => word &&& ~~~mask (index % bitsPerWord)

def bitArrayToggle (granted : Nat → Bool) (index : Nat) : Run BitArray Unit := do
  bitArrayEnsureIndex granted index
  changeWord (index / bitsPerWord) fun word => word ^^^ mask (index % bitsPerWord)

def bitArrayTest (array : BitArray) (index : Nat) : Bool :=
  if array.words = [] ∨ index ≥ array.bitCapacity then false
  else array.words.getD (index / bitsPerWord) 0 &&& mask (index % bitsPerWord) ≠ 0

def bitArrayClearAll : Run BitArray Unit := do
  let array ← Action.read id
  if array.words = [] then pure () else eachWord (fun _ _ => 0) 0 array.wordCapacity

def bitArrayCountSet (array : BitArray) : Nat :=
  if array.words = [] then 0 else ((array.words.take array.wordCapacity).map popcount).sum % 2 ^ 64

/-- The loop over the bits from one on: the bit where those that are wanted reach the ordinal, or else how many of
them were seen. -/
def scanBits (wanted : Nat → Bool) (ordinal : Nat) : Nat → Nat → Nat → Nat ⊕ Nat
  | 0,_,seen => .inr seen
  | rest + 1,bit,seen =>
    if wanted bit then if seen = ordinal then .inl bit else scanBits wanted ordinal rest (bit + 1) (seen + 1)
    else scanBits wanted ordinal rest (bit + 1) seen

def bitArrayFindNthSet (array : BitArray) (ordinal : Nat) : Nat :=
  if array.words = [] then 2 ^ 64 - 1
  else match scanBits (bitArrayTest array) ordinal array.bitCapacity 0 0 with
    | .inl bit => bit
    | .inr _ => 2 ^ 64 - 1

/-- Whether the array could grow to the bit is not looked at. -/
def bitArrayFindNthUnset (granted : Nat → Bool) (ordinal : Nat) : Run BitArray Nat where
  run array :=
    match scanBits (fun bit => !bitArrayTest array bit) ordinal array.bitCapacity 0 0 with
    | .inl bit => (.ok bit,array)
    | .inr seen =>
      let target := (array.bitCapacity + (ordinal - seen)) % 2 ^ 64
      match (bitArrayEnsureIndex granted target).run array with
      | (.ok _,after) | (.error (.error _ _),after) => (.ok target,after)
      | (.error stop,after) => (.error stop,after)

def bitArrayMinWords (array other : BitArray) : Nat :=
  if array.wordCapacity < other.wordCapacity then array.wordCapacity else other.wordCapacity

def bitArrayAnd (granted : Nat → Bool) (other : BitArray) : Run BitArray Unit := do
  bitArrayGrow granted other.wordCapacity
  let array ← Action.read id
  let count := bitArrayMinWords array other
  eachWord (fun word value => value &&& other.words.getD word 0) 0 count
  (if count < array.wordCapacity then eachWord (fun _ _ => 0) count (array.wordCapacity - count) else pure ())

/-- An operation word by word that leaves the words beyond the other array. -/
def combineWith (op : UInt32 → UInt32 → UInt32) (granted : Nat → Bool) (other : BitArray) : Run BitArray Unit := do
  bitArrayGrow granted other.wordCapacity
  let array ← Action.read id
  eachWord (fun word value => op value (other.words.getD word 0)) 0 (bitArrayMinWords array other)

def bitArrayOr : (Nat → Bool) → BitArray → Run BitArray Unit := combineWith (· ||| ·)

def bitArrayXor : (Nat → Bool) → BitArray → Run BitArray Unit := combineWith (· ^^^ ·)

inductive BitOp
  | set (granted : Nat → Bool) (index : Nat)
  | clear (index : Nat)
  | toggle (granted : Nat → Bool) (index : Nat)
  | and (granted : Nat → Bool) (other : BitArray)
  | or (granted : Nat → Bool) (other : BitArray)
  | xor (granted : Nat → Bool) (other : BitArray)
  | clearAll
  | reserve (granted : Nat → Bool) (bitCount : Nat)
  | findNthUnset (granted : Nat → Bool) (ordinal : Nat)

/-- A call, with the number that it gives out. -/
def bitStep : BitOp → Run BitArray (Option Nat)
  | .set granted index => do
    bitArraySet granted index
    pure none
  | .clear index => do
    bitArrayClear index
    pure none
  | .toggle granted index => do
    bitArrayToggle granted index
    pure none
  | .and granted other => do
    bitArrayAnd granted other
    pure none
  | .or granted other => do
    bitArrayOr granted other
    pure none
  | .xor granted other => do
    bitArrayXor granted other
    pure none
  | .clearAll => do
    bitArrayClearAll
    pure none
  | .reserve granted bitCount => do
    bitArrayReserve granted bitCount
    pure none
  | .findNthUnset granted ordinal => do
    let bit ← bitArrayFindNthUnset granted ordinal
    pure (some bit)

/-- What the operation makes of a set of numbers. -/
def setStep (set : Finset Nat) : BitOp → Finset Nat
  | .set _ index => insert index set
  | .clear index => set.erase index
  | .toggle _ index => symmDiff set {index}
  | .and _ other => set ∩ members other.words
  | .or _ other => set ∪ members other.words
  | .xor _ other => symmDiff set (members other.words)
  | .clearAll => ∅
  | .reserve _ _ | .findNthUnset _ _ => set

/-- What the operation gives out of a set. -/
noncomputable def setAnswer (set : Finset Nat) : BitOp → Option Nat
  | .findNthUnset _ ordinal => some (Nat.nth (· ∉ set) ordinal)
  | _ => none

/-- What the queries say of a set. -/
def ShowsSet (array : BitArray) (set : Finset Nat) : Prop :=
  (∀ index, bitArrayTest array index = true ↔ index ∈ set) ∧ bitArrayCountSet array = set.card ∧
    ∀ ordinal, bitArrayFindNthSet array ordinal = if ordinal < set.card then Nat.nth (· ∈ set) ordinal else 2 ^ 64 - 1

/-- The queries show the set, and each call answers as the set does and leaves an array that shows what the operation
makes of the set; or memory is refused, which is reported, and the array shows the set that it did. -/
def FollowsSet : List BitOp → BitArray → Finset Nat → Prop
  | [],array,set => ShowsSet array set
  | op :: ops,array,set => ShowsSet array set ∧ match (bitStep op).run array with
    | (.ok answer,after) => answer = setAnswer set op ∧ FollowsSet ops after (setStep set op)
    | (.error stop,after) => (∃ message, stop = .error .nomem message) ∧ FollowsSet ops after set

/-- The array that its fields describe: the number of words is a power of two, and that of the bits is no more
than 2^63. -/
structure BitArray.Sound (array : BitArray) : Prop where
  words : array.words.length = array.wordCapacity
  bits : array.bitCapacity = 32 * array.wordCapacity
  power : array.wordCapacity = 0 ∨ ∃ k ≤ 58, array.wordCapacity = 2 ^ k

/-- The array is set to hold a set of numbers. -/
structure HoldsSet (array : BitArray) (set : Finset Nat) : Prop where
  sound : array.Sound
  members : members array.words = set

/-- An index that the array can grow to, or that it is refused the block for. -/
def IndexFine (granted : Nat → Bool) (index : Nat) : Prop :=
  index < 2 ^ 63 ∨ index < 2 ^ 64 - 32 ∧ granted (2 ^ 61) = false

/-- Indices are below 2^63, or below 2^64 - 32 and refused the block; so are the bits that are reserved or grown to
for a bit that is not set, unless the rounding up wraps, which asks for nothing. Other arrays are as their fields
describe. -/
def BitsFine (array : BitArray) : BitOp → Prop
  | .set granted index | .toggle granted index => IndexFine granted index
  | .and _ other | .or _ other | .xor _ other => other.Sound
  | .reserve granted bitCount =>
    bitCount < 2 ^ 64 ∧ (bitCount ≤ 2 ^ 63 ∨ 2 ^ 64 - 32 < bitCount ∨ granted (2 ^ 61) = false)
  | .findNthUnset granted ordinal =>
    let bit := Nat.nth (· ∉ members array.words) ordinal
    bit < 2 ^ 64 ∧ (2 ^ 64 - 32 ≤ bit ∨ IndexFine granted bit)
  | _ => True

def BitCallsFine : List BitOp → BitArray → Prop
  | [],_ => True
  | op :: ops,array => BitsFine array op ∧ BitCallsFine ops ((bitStep op).run array).2

section
variable {array other : BitArray} {set : Finset Nat} {granted : Nat → Bool} {index count fuel k m : Nat}

theorem BitArray.Sound.small (sound : array.Sound) : array.wordCapacity ≤ 2 ^ 58 := by
  rcases sound.power with zero | ⟨k,le,power⟩
  · omega
  · rw [power]
    exact Nat.pow_le_pow_right (by decide) le

theorem BitArray.Sound.start (sound : array.Sound) :
    ∃ k ≤ 58, (if array.wordCapacity = 0 then 1 else array.wordCapacity) = 2 ^ k := by
  split
  · exact ⟨0,by decide,rfl⟩
  · rename_i some_there
    exact sound.power.resolve_left some_there

theorem growTarget_pow (le : k ≤ m) (high : m ≤ 63) (covers : count ≤ 2 ^ m) (enough : m < k + fuel) :
    ∃ j ≤ m, growTarget count fuel (2 ^ k) = some (2 ^ j) ∧ count ≤ 2 ^ j := by
  induction fuel generalizing k with
  | zero => omega
  | succ fuel ih =>
    rw [growTarget]
    split
    · rename_i short
      have less : k < m := Nat.lt_of_le_of_ne le fun same => by rw [same] at short; omega
      have low : 2 ^ k ≤ 2 ^ 62 := Nat.pow_le_pow_right (by decide) (by omega)
      rw [if_neg (by omega),← Nat.pow_succ]
      exact ih less (by omega)
    · rename_i enough_there
      exact ⟨k,le,rfl,Nat.le_of_not_lt enough_there⟩

theorem wordsForBits_small {bits : Nat} (small : bits + 31 < 2 ^ 64) : wordsForBits bits = (bits + 31) / 32 := by
  rw [wordsForBits]
  split
  · rename_i none_there
    rw [none_there]
  · change (bits + 31) % 2 ^ 64 / 32 = _
    rw [Nat.mod_eq_of_lt small]

theorem wordsForBits_wraps {bits : Nat} (large : 2 ^ 64 - 32 < bits) (below : bits < 2 ^ 64) : wordsForBits bits = 0 := by
  rw [wordsForBits,if_neg (by omega)]
  change (bits + 31) % 2 ^ 64 / 32 = 0
  omega

/-- The call has room for a number of words and holds the set that it did, or memory is refused and nothing changes. -/
def GrowsBits (call : Run BitArray Unit) (array : BitArray) (count : Nat) : Prop :=
  (∃ after, call.run array = (.ok (),after) ∧ HoldsSet after (members array.words) ∧ count ≤ after.wordCapacity) ∨
    ∃ message, call.run array = (.error (.error .nomem message),array)

theorem grow_enough (enough : count ≤ array.wordCapacity) : (bitArrayGrow granted count).run array = (.ok (),array) :=
  if_pos enough

theorem grow_small (sound : array.Sound) (small : count ≤ 2 ^ 58) : GrowsBits (bitArrayGrow granted count) array count := by
  rcases Nat.lt_or_ge array.wordCapacity count with more | enough
  · obtain ⟨k,low,start⟩ := sound.start
    obtain ⟨j,le,target,covers⟩ := growTarget_pow low (by decide) small (by omega : 58 < k + 65)
    have high : 2 ^ j ≤ 2 ^ 58 := Nat.pow_le_pow_right (by decide) le
    have words := sound.words
    have below := sound.small
    have bytes : 2 ^ j * 4 % 2 ^ 64 = 2 ^ j * 4 := Nat.mod_eq_of_lt (by omega)
    have existing : array.wordCapacity * 4 % 2 ^ 64 = array.wordCapacity * 4 := Nat.mod_eq_of_lt (by omega)
    have ran : (bitArrayGrow granted count).run array = if granted (2 ^ j * 4) then (.ok (),{
        words := array.words ++ List.replicate (2 ^ j - array.wordCapacity) 0
        wordCapacity := 2 ^ j
        bitCapacity := 2 ^ j * 32 }) else (.error (.error .nomem "Failed to allocate bit array storage"),array) := by
      simp only [bitArrayGrow]
      rw [if_neg (Nat.not_le.mpr more),start,target]
      simp only [bytes,existing]
      rw [if_neg (by omega : ¬ 2 ^ j * 4 < array.wordCapacity * 4),Nat.mul_div_cancel _ (by decide),Nat.mul_div_cancel _ (by decide),← words,List.take_length,
        Nat.mod_eq_of_lt (by rw [bitsPerWord]; omega : 2 ^ j * bitsPerWord < 2 ^ 64)]
    rw [GrowsBits,ran]
    split
    · refine .inl ⟨_,rfl,⟨⟨?_,Nat.mul_comm _ _,.inr ⟨j,le,rfl⟩⟩,members_congr (contains_zeros _ _)⟩,covers⟩
      change (array.words ++ _).length = 2 ^ j
      rw [List.length_append,List.length_replicate]
      omega
    · exact .inr ⟨_,rfl⟩
  · exact .inl ⟨array,grow_enough enough,⟨sound,rfl⟩,enough⟩

/-- More words than 2^58 need a block of 2^61 bytes. -/
theorem grow_refused (sound : array.Sound) (more : 2 ^ 58 < count) (le : count ≤ 2 ^ 59)
    (refused : granted (2 ^ 61) = false) :
    (bitArrayGrow granted count).run array = (.error (.error .nomem "Failed to allocate bit array storage"),array) := by
  obtain ⟨k,low,start⟩ := sound.start
  obtain ⟨j,most,target,covers⟩ := growTarget_pow (by omega : k ≤ 59) (by decide) le (by omega : 59 < k + 65)
  have below := sound.small
  have all : j = 59 := by
    by_contra other
    have : 2 ^ j ≤ 2 ^ 58 := Nat.pow_le_pow_right (by decide) (by omega)
    omega
  rw [all] at target
  simp only [bitArrayGrow]
  rw [if_neg (by omega),start,target]
  simp only
  rw [if_neg (by rw [show 2 ^ 59 * 4 % 2 ^ 64 = 2 ^ 61 by decide,refused]; exact Bool.false_ne_true)]

/-- Near the end of memory the rounding wraps, and no room is made. -/
theorem ensureIndex_wraps (large : 2 ^ 64 - 32 ≤ index) (small : index < 2 ^ 64) :
    (bitArrayEnsureIndex granted index).run array = (.ok (),array) := by
  have none_wanted : wordsForBits ((index + 1) % 2 ^ 64) = 0 := by
    rcases Nat.lt_or_ge (index + 1) (2 ^ 64) with below | last
    · rw [Nat.mod_eq_of_lt below]
      exact wordsForBits_wraps (by omega) below
    · rw [show index + 1 = 2 ^ 64 by omega]
      rfl
  rw [bitArrayEnsureIndex,none_wanted]
  exact grow_enough (Nat.zero_le _)

theorem ensureIndex_grows (sound : array.Sound) (fine : IndexFine granted index) :
    GrowsBits (bitArrayEnsureIndex granted index) array (index / 32 + 1) := by
  have words : wordsForBits ((index + 1) % 2 ^ 64) = index / 32 + 1 := by
    have below : index < 2 ^ 64 - 32 := by
      rcases fine with small | ⟨below,_⟩
      · omega
      · exact below
    rw [Nat.mod_eq_of_lt (by omega),wordsForBits_small (by omega)]
    omega
  rw [bitArrayEnsureIndex,words]
  rcases Nat.lt_or_ge index (2 ^ 63) with small | large
  · exact grow_small sound (by omega)
  · rcases fine with small | ⟨below,refused⟩
    · omega
    · exact .inr ⟨_,grow_refused sound (by omega) (by omega) refused⟩

/-- The call answers and leaves an array that holds a set, or memory is refused and nothing changes. -/
def ServesSet {α : Type} (call : Run BitArray α) (array : BitArray) (answer : α) (set : Finset Nat) : Prop :=
  (∃ after, call.run array = (.ok answer,after) ∧ HoldsSet after set) ∨
    ∃ message, call.run array = (.error (.error .nomem message),array)

theorem servesSet_map {α : Type} {call : Run BitArray Unit} (a : α) (serves : ServesSet call array () set) :
    ServesSet (call >>= fun _ => pure a) array a set := by
  rcases serves with ⟨after,ran,holds⟩ | ⟨message,refused⟩
  · exact .inl ⟨after,Action.bind_ok _ ran,holds⟩
  · exact .inr ⟨message,Action.bind_error _ refused⟩

theorem servesSet_grows {call : Run BitArray Unit} (holds : HoldsSet array set) (grows : GrowsBits call array count) :
    ServesSet call array () set := by
  rcases grows with ⟨after,ran,kept,_⟩ | refused
  · exact .inl ⟨after,ran,kept.sound,kept.members.trans holds.members⟩
  · exact .inr refused

theorem servesSet_grown {call : Run BitArray Unit} {next : Unit → Run BitArray Unit} (grows : GrowsBits call array count)
    (tail : ∀ after, HoldsSet after (members array.words) → count ≤ after.wordCapacity →
      ∃ left, (next ()).run after = (.ok (),left) ∧ HoldsSet left set) : ServesSet (call >>= next) array () set := by
  rcases grows with ⟨after,ran,holds,covers⟩ | ⟨message,refused⟩
  · obtain ⟨left,ran',holds'⟩ := tail after holds covers
    exact .inl ⟨left,(Action.bind_ok next ran).trans ran',holds'⟩
  · exact .inr ⟨message,Action.bind_error next refused⟩

theorem BitArray.Sound.change (sound : array.Sound) {words : List UInt32} (same : words.length = array.words.length) :
    BitArray.Sound { array with words := words } :=
  ⟨same.trans sound.words,sound.bits,sound.power⟩

theorem changeWord_holds (sound : array.Sound) (inside : index / 32 < array.wordCapacity) {f : UInt32 → UInt32}
    (changes : members (array.words.modify (index / 32) f) = set) :
    ∃ left, (changeWord (index / bitsPerWord) f).run array = (.ok (),left) ∧ HoldsSet left set :=
  ⟨_,if_pos (sound.words.symm ▸ inside),sound.change (List.length_modify ..),changes⟩

theorem set_serves (holds : HoldsSet array set) (fine : IndexFine granted index) :
    ServesSet (bitArraySet granted index) array () (insert index set) := by
  refine servesSet_grown (ensureIndex_grows holds.sound fine) fun after kept covers => ?_
  refine changeWord_holds kept.sound covers ?_
  rw [members_insert (kept.sound.words.symm ▸ covers),kept.members,holds.members]

theorem toggle_serves (holds : HoldsSet array set) (fine : IndexFine granted index) :
    ServesSet (bitArrayToggle granted index) array () (symmDiff set {index}) := by
  refine servesSet_grown (ensureIndex_grows holds.sound fine) fun after kept covers => ?_
  refine changeWord_holds kept.sound covers ?_
  rw [members_toggle (kept.sound.words.symm ▸ covers),kept.members,holds.members]

/-- Beyond the capacity there is no member. -/
theorem not_member_beyond (holds : HoldsSet array set) (beyond : array.words = [] ∨ array.bitCapacity ≤ index) :
    index ∉ set := by
  rw [← holds.members,mem_members,contains_beyond]
  · exact Bool.false_ne_true
  · rw [holds.sound.words]
    rcases beyond with null | beyond
    · have none_there := holds.sound.words
      rw [null,List.length_nil] at none_there
      omega
    · rw [holds.sound.bits] at beyond
      exact beyond

theorem clear_run (index : Nat) : (bitArrayClear index).run array =
    if index ≥ array.bitCapacity ∨ array.words = [] then (.ok (),array)
    else (changeWord (index / bitsPerWord) fun word => word &&& ~~~mask (index % bitsPerWord)).run array := by
  rw [bitArrayClear,Action.bind_ok _ (Action.read_apply id array)]
  simp only [id]
  split <;> rfl

theorem clear_serves (holds : HoldsSet array set) (index : Nat) :
    ServesSet (bitArrayClear index) array () (set.erase index) := by
  refine .inl ?_
  rw [clear_run]
  split
  · rename_i beyond
    refine ⟨array,rfl,?_⟩
    rw [Finset.erase_eq_of_notMem (not_member_beyond holds beyond.symm)]
    exact holds
  · rename_i within
    have inside : index / 32 < array.wordCapacity := by
      have bits := holds.sound.bits
      omega
    refine changeWord_holds holds.sound inside ?_
    rw [members_erase (holds.sound.words.symm ▸ inside),holds.members]

/-- A loop changes the words it goes over, each by its place, and no others. -/
theorem eachWord_run (f : Nat → UInt32 → UInt32) (word count : Nat) (array : BitArray)
    (inside : word + count ≤ array.words.length) : ∃ words, (eachWord f word count).run array =
      (.ok (),{ array with words := words }) ∧ words.length = array.words.length ∧
      ∀ i, words.getD i 0 = if word ≤ i ∧ i < word + count then f i (array.words.getD i 0) else array.words.getD i 0 := by
  induction count generalizing word array with
  | zero =>
    refine ⟨array.words,rfl,rfl,fun i => ?_⟩
    rw [if_neg (by omega)]
  | succ count ih =>
    obtain ⟨words,ran,same,each⟩ := ih (word + 1) { array with words := array.words.modify word (f word) }
      (by simp only [List.length_modify]; omega)
    refine ⟨words,?_,same.trans (List.length_modify ..),fun i => ?_⟩
    · have first : (changeWord word (f word)).run array = (.ok (),{ array with words := array.words.modify word (f word) }) :=
        if_pos (by omega)
      exact (Action.bind_ok _ first).trans ran
    · rw [each i,getD_modify (by omega)]
      grind

theorem getD_beyond (sound : array.Sound) {i : Nat} (beyond : array.wordCapacity ≤ i) : array.words.getD i 0 = 0 := by
  rw [List.getD_eq_getElem?_getD,List.getElem?_eq_none (sound.words.symm ▸ beyond)]
  rfl

theorem minWords_other (covers : other.wordCapacity ≤ array.wordCapacity) :
    bitArrayMinWords array other = other.wordCapacity := if_neg (Nat.not_lt.mpr covers)

/-- An operation word by word, when a missing word of the other array changes nothing. -/
theorem combine_serves {op : UInt32 → UInt32 → UInt32} {result : Finset Nat} (neutral : ∀ word, op word 0 = word)
    (holds : HoldsSet array set) (sound : other.Sound)
    (combines : ∀ {words combined : List UInt32}, members words = set →
      (∀ i, combined.getD i 0 = op (words.getD i 0) (other.words.getD i 0)) → members combined = result) :
    ServesSet (combineWith op granted other) array () result := by
  refine servesSet_grown (grow_small holds.sound sound.small) fun after kept covers => ?_
  obtain ⟨words,ran,same,each⟩ := eachWord_run (fun word value => op value (other.words.getD word 0)) 0 other.wordCapacity
    after (by rw [kept.sound.words]; omega)
  rw [Action.bind_ok _ (Action.read_apply id after)]
  simp only [id,minWords_other covers]
  refine ⟨_,ran,kept.sound.change same,combines (kept.members.trans holds.members) fun i => ?_⟩
  rw [each i]
  split
  · rfl
  · rename_i outside
    rw [getD_beyond sound (by omega),neutral]

theorem or_serves (holds : HoldsSet array set) (sound : other.Sound) :
    ServesSet (bitArrayOr granted other) array () (set ∪ members other.words) :=
  combine_serves (fun _ => UInt32.or_zero) holds sound fun same each => by rw [members_union each,same]

theorem xor_serves (holds : HoldsSet array set) (sound : other.Sound) :
    ServesSet (bitArrayXor granted other) array () (symmDiff set (members other.words)) :=
  combine_serves (fun _ => UInt32.xor_zero) holds sound fun same each => by rw [members_symmDiff each,same]

theorem and_serves (holds : HoldsSet array set) (sound : other.Sound) :
    ServesSet (bitArrayAnd granted other) array () (set ∩ members other.words) := by
  refine servesSet_grown (grow_small holds.sound sound.small) fun after kept covers => ?_
  have length := kept.sound.words
  obtain ⟨words,ran,same,each⟩ := eachWord_run (fun word value => value &&& other.words.getD word 0) 0 other.wordCapacity
    after (by omega)
  obtain ⟨zeroed,ran',same',each'⟩ := eachWord_run (fun _ _ => 0) other.wordCapacity
    (after.wordCapacity - other.wordCapacity) { after with words := words } (by simp only; omega)
  have both (i : Nat) : zeroed.getD i 0 = after.words.getD i 0 &&& other.words.getD i 0 := by
    rw [each' i,each i]
    rcases Nat.lt_or_ge i other.wordCapacity with common | own
    · rw [if_neg (by omega),if_pos (by omega)]
    · rw [getD_beyond sound own,UInt32.and_zero,if_neg (by omega : ¬ (0 ≤ i ∧ i < 0 + other.wordCapacity))]
      split
      · rfl
      · exact getD_beyond kept.sound (by omega)
  have rest : (if other.wordCapacity < after.wordCapacity then
      eachWord (fun _ _ => 0) other.wordCapacity (after.wordCapacity - other.wordCapacity) else pure ()) =
      eachWord (fun _ _ => 0) other.wordCapacity (after.wordCapacity - other.wordCapacity) := by
    split
    · rfl
    · rw [Nat.sub_eq_zero_of_le (by omega)]
      rfl
  rw [Action.bind_ok _ (Action.read_apply id after)]
  simp only [id,minWords_other covers]
  rw [Action.bind_ok _ ran,rest]
  refine ⟨_,ran',kept.sound.change (same'.trans same),?_⟩
  rw [members_inter both,kept.members,holds.members]

theorem clearAll_serves (holds : HoldsSet array set) : ServesSet bitArrayClearAll array () ∅ := by
  refine .inl ?_
  obtain ⟨words,ran,same,each⟩ := eachWord_run (fun _ _ => 0) 0 array.wordCapacity array
    (by rw [holds.sound.words]; omega)
  rw [bitArrayClearAll,Action.bind_ok _ (Action.read_apply id array)]
  simp only [id]
  split
  · rename_i null
    refine ⟨array,rfl,holds.sound,members_empty fun i => ?_⟩
    rw [null]
    rfl
  · refine ⟨_,ran,holds.sound.change same,members_empty fun i => ?_⟩
    rw [each i]
    split
    · rfl
    · exact getD_beyond holds.sound (by omega)

theorem reserve_serves {bitCount : Nat} (holds : HoldsSet array set) (small : bitCount < 2 ^ 64)
    (fine : bitCount ≤ 2 ^ 63 ∨ 2 ^ 64 - 32 < bitCount ∨ granted (2 ^ 61) = false) :
    ServesSet (bitArrayReserve granted bitCount) array () set := by
  rw [bitArrayReserve]
  rcases fine with within | wraps | refused
  · rw [wordsForBits_small (by omega)]
    exact servesSet_grows holds (grow_small holds.sound (by omega))
  · rw [wordsForBits_wraps wraps small]
    exact servesSet_grows holds (grow_small holds.sound (Nat.zero_le _))
  · rcases Nat.lt_or_ge (2 ^ 64 - 32) bitCount with wraps | low
    · rw [wordsForBits_wraps wraps small]
      exact servesSet_grows holds (grow_small holds.sound (Nat.zero_le _))
    · rw [wordsForBits_small (by omega)]
      rcases Nat.lt_or_ge (2 ^ 63) bitCount with large | within
      · exact .inr ⟨_,grow_refused holds.sound (by omega) (by omega) refused⟩
      · exact servesSet_grows holds (grow_small holds.sound (by omega))

section Scan
variable {wanted : Nat → Bool} {p : Nat → Prop} [DecidablePred p] {ordinal : Nat}

/-- The place where the numbers before it are as many as the ordinal says, or how many there are. -/
def Scanned (p : Nat → Prop) [DecidablePred p] (ordinal bits : Nat) : Nat ⊕ Nat → Prop
  | .inl found => found < bits ∧ p found ∧ Nat.count p found = ordinal
  | .inr total => Nat.count p bits = total ∧ total ≤ ordinal

theorem scanBits_scanned (same : ∀ n, wanted n = true ↔ p n) (rest bit seen : Nat) (before : Nat.count p bit = seen)
    (low : seen ≤ ordinal) : Scanned p ordinal (bit + rest) (scanBits wanted ordinal rest bit seen) := by
  induction rest generalizing bit seen with
  | zero => exact ⟨before,low⟩
  | succ rest ih =>
    have next := Nat.count_succ p bit
    rw [scanBits,show bit + (rest + 1) = bit + 1 + rest by omega]
    by_cases here : wanted bit = true
    · rw [before,if_pos ((same bit).mp here)] at next
      rw [if_pos here]
      by_cases reached : seen = ordinal
      · rw [if_pos reached]
        exact ⟨by omega,(same bit).mp here,before.trans reached⟩
      · rw [if_neg reached]
        exact ih (bit + 1) (seen + 1) next (by omega)
    · rw [before,if_neg fun holds => here ((same bit).mpr holds)] at next
      rw [if_neg here]
      exact ih (bit + 1) seen next low

/-- From the start the loop finds the number with the ordinal, if it is that far. -/
theorem scanBits_nth (same : ∀ n, wanted n = true ↔ p n) (bits : Nat) :
    scanBits wanted ordinal bits 0 0 = .inl (Nat.nth p ordinal) ∧ ordinal < Nat.count p bits ∨
      scanBits wanted ordinal bits 0 0 = .inr (Nat.count p bits) ∧ Nat.count p bits ≤ ordinal := by
  have scanned := scanBits_scanned same bits 0 0 (Nat.count_zero p) (Nat.zero_le ordinal)
  rw [Nat.zero_add] at scanned
  cases outcome : scanBits wanted ordinal bits 0 0 with
  | inl found =>
    rw [outcome] at scanned
    obtain ⟨inside,here,before⟩ := scanned
    rw [← before,Nat.nth_count here]
    exact .inl ⟨rfl,Nat.count_strict_mono here inside⟩
  | inr total =>
    rw [outcome] at scanned
    rw [scanned.1]
    exact .inr ⟨rfl,scanned.2⟩

/-- Where all numbers satisfy it from one on, they follow each other. -/
theorem nth_beyond {bits : Nat} (all : ∀ n, bits ≤ n → p n) (past : Nat.count p bits ≤ ordinal) :
    Nat.nth p ordinal = bits + (ordinal - Nat.count p bits) := by
  have counted : Nat.count p (bits + (ordinal - Nat.count p bits)) = ordinal := by
    rw [Nat.count_add,Nat.count_iff_forall.mpr fun n _ => all _ (Nat.le_add_right bits n)]
    omega
  conv_lhs => rw [← counted]
  exact Nat.nth_count (all _ (Nat.le_add_right ..))

end Scan

theorem test_iff (holds : HoldsSet array set) (index : Nat) : bitArrayTest array index = true ↔ index ∈ set := by
  rw [bitArrayTest]
  split
  · rename_i beyond
    exact iff_of_false Bool.false_ne_true (not_member_beyond holds beyond)
  · rw [decide_eq_true_iff,and_mask (Nat.mod_lt _ (by decide)),← holds.members,mem_members]
    rfl

theorem count_members (holds : HoldsSet array set) : Nat.count (· ∈ set) array.bitCapacity = set.card := by
  rw [Nat.count_eq_card_filter_range]
  refine congrArg Finset.card ?_
  ext index
  rw [Finset.mem_filter,Finset.mem_range]
  refine ⟨fun member => member.2,fun member => ⟨?_,member⟩⟩
  by_contra beyond
  exact not_member_beyond holds (.inr (Nat.le_of_not_lt beyond)) member

theorem countSet_eq (holds : HoldsSet array set) : bitArrayCountSet array = set.card := by
  have most : set.card ≤ array.bitCapacity := by
    rw [← count_members holds]
    exact Nat.count_le _
  have small := holds.sound.small
  have bits := holds.sound.bits
  rw [bitArrayCountSet,← holds.sound.words,List.take_length,← card_members,holds.members,Nat.mod_eq_of_lt (by omega)]
  split
  · rename_i null
    have none_there := holds.sound.words
    rw [null,List.length_nil] at none_there
    omega
  · rfl

theorem findNthSet_eq (holds : HoldsSet array set) (ordinal : Nat) :
    bitArrayFindNthSet array ordinal = if ordinal < set.card then Nat.nth (· ∈ set) ordinal else 2 ^ 64 - 1 := by
  have total := count_members holds
  rw [bitArrayFindNthSet]
  split
  · rename_i null
    have none_there := holds.sound.words
    have bits := holds.sound.bits
    rw [null,List.length_nil] at none_there
    rw [bits,← none_there,Nat.mul_zero,Nat.count_zero] at total
    rw [← total,if_neg (Nat.not_lt_zero _)]
  · rcases scanBits_nth (test_iff holds) array.bitCapacity with ⟨found,inside⟩ | ⟨ended,past⟩
    · rw [found,if_pos (total ▸ inside)]
    · rw [ended,if_neg (Nat.not_lt.mpr (total ▸ past))]

theorem shows_of_holdsSet (holds : HoldsSet array set) : ShowsSet array set :=
  ⟨test_iff holds,countSet_eq holds,findNthSet_eq holds⟩

theorem findNthUnset_serves {ordinal : Nat} (holds : HoldsSet array set) (small : Nat.nth (· ∉ set) ordinal < 2 ^ 64)
    (fine : 2 ^ 64 - 32 ≤ Nat.nth (· ∉ set) ordinal ∨ IndexFine granted (Nat.nth (· ∉ set) ordinal)) :
    ∃ after, (bitArrayFindNthUnset granted ordinal).run array = (.ok (Nat.nth (· ∉ set) ordinal),after) ∧
      HoldsSet after set := by
  have same (index : Nat) : (!bitArrayTest array index) = true ↔ index ∉ set := by
    rw [Bool.not_eq_true',← Bool.not_eq_true,test_iff holds]
  simp only [bitArrayFindNthUnset]
  rcases scanBits_nth same array.bitCapacity with ⟨found,_⟩ | ⟨ended,past⟩
  · rw [found]
    exact ⟨array,rfl,holds⟩
  · have target := nth_beyond (fun index beyond => not_member_beyond holds (.inr beyond)) past
    rw [ended]
    simp only
    rw [← target,Nat.mod_eq_of_lt small]
    rcases fine with wraps | fine
    · rw [ensureIndex_wraps wraps small]
      exact ⟨array,rfl,holds⟩
    · rcases ensureIndex_grows holds.sound fine with ⟨after,ran,kept,_⟩ | ⟨message,refused⟩
      · rw [ran]
        exact ⟨after,rfl,kept.sound,kept.members.trans holds.members⟩
      · rw [refused]
        exact ⟨array,rfl,holds⟩

theorem bitStep_serves {op : BitOp} (holds : HoldsSet array set) (fine : BitsFine array op) :
    ServesSet (bitStep op) array (setAnswer set op) (setStep set op) := by
  cases op with
  | set granted index => exact servesSet_map none (set_serves holds fine)
  | clear index => exact servesSet_map none (clear_serves holds index)
  | toggle granted index => exact servesSet_map none (toggle_serves holds fine)
  | and granted other => exact servesSet_map none (and_serves holds fine)
  | or granted other => exact servesSet_map none (or_serves holds fine)
  | xor granted other => exact servesSet_map none (xor_serves holds fine)
  | clearAll => exact servesSet_map none (clearAll_serves holds)
  | reserve granted bitCount => exact servesSet_map none (reserve_serves holds fine.1 fine.2)
  | findNthUnset granted ordinal =>
    have found := fine
    simp only [BitsFine,holds.members] at found
    obtain ⟨after,ran,kept⟩ := findNthUnset_serves holds found.1 found.2
    exact .inl ⟨after,Action.bind_ok _ ran,kept⟩

theorem holdsSet_empty : HoldsSet {} ∅ := ⟨⟨rfl,rfl,.inl rfl⟩,rfl⟩

end

end Libnmo.Core
