import Libnmo.Core.Error
import Libnmo.Format.DataSection
import Mathlib.Data.List.Forall2
import Mathlib.Data.List.TakeDrop
import Mathlib.Tactic.IntervalCases

/-! The text of a GUID. The parser reads characters by their places; its state is how far it
has read. It goes on for as long as the characters keep to the form, and not one beyond. -/
namespace Libnmo.Format
open Core Lib

/-- A string in memory, up to its terminator. -/
structure TerminatedString where
  chars : List UInt8
  terminated : 0 ∉ chars

section Parser
variable (str : TerminatedString)

/-- The terminator is the last character that can be read. -/
def charAt (place : Nat) : Run Nat UInt8 where
  run reach := match (str.chars ++ [0])[place]? with
    | some c => (.ok c,max reach (place + 1))
    | none => (.error (.overread place),reach)

/-- No digit is -1. -/
def hexCharToInt (c : UInt8) : Option UInt32 :=
  if c ≥ 48 ∧ c ≤ 57 then some (c.toUInt32 - 48)
  else if c ≥ 97 ∧ c ≤ 102 then some (c.toUInt32 - 97 + 10)
  else if c ≥ 65 ∧ c ≤ 70 then some (c.toUInt32 - 65 + 10)
  else none

/-- The loop of `parse_hex_uint32`, with how many digits are missing. The character is read before the count is checked. -/
def hexLoop (place : Nat) : Nat → UInt32 → Run Nat (Nat × UInt32)
  | 0,value => do
    let _ ← charAt str place
    pure (0,value)
  | missing + 1,value => do
    let c ← charAt str place
    (if c = 0 then pure (missing + 1,value)
    else match hexCharToInt c with
      | none => pure (missing + 1,value)
      | some digit => hexLoop (place + 1) missing (value <<< 4 ||| digit))

/-- It must be exactly eight digits. -/
def parseHexUint32 (place : Nat) : Run Nat (Option UInt32) := do
  let (missing,value) ← hexLoop str place 8 0
  pure (if missing = 0 then some value else none)

/-- The dash and what follows it. -/
def parseSecond (d1 : UInt32) : Run Nat Guid := do
  let dash ← charAt str 9
  (if dash ≠ 45 then pure {} else do
    let d2 ← parseHexUint32 str 10
    match d2 with
    | none => pure {}
    | some d2 => do
      let brace ← charAt str 18
      (if brace ≠ 125 then pure {} else do
        let last ← charAt str 19
        pure (if last ≠ 0 then {} else ⟨d1,d2⟩)))

def guidParse : Run Nat Guid := do
  let first ← charAt str 0
  (if first = 0 then pure {} else do
    let brace ← charAt str 0
    (if brace ≠ 123 then pure {} else do
      let d1 ← parseHexUint32 str 1
      match d1 with
      | none => pure {}
      | some d1 => parseSecond str d1))

end Parser

section Formatter

def upperDigit (digit : Nat) : UInt8 := UInt8.ofNat (if digit < 10 then 48 + digit else 55 + digit)

/-- The last so many digits of a number, as `%08X` gives eight. -/
def hexText : Nat → Nat → List UInt8
  | 0,_ => []
  | digits + 1,value => hexText digits (value / 16) ++ [upperDigit (value % 16)]

/-- The characters before the terminator, or an error for a small buffer. -/
def guidFormat (guid : Guid) (size : Nat) : Option (List UInt8) :=
  if size < 21 then none
  else some (123 :: hexText 8 guid.d1.toNat ++ 45 :: hexText 8 guid.d2.toNat ++ [125])

end Formatter

section Form

def isHexDigit (c : UInt8) : Bool := (48 ≤ c && c ≤ 57) || (97 ≤ c && c ≤ 102) || (65 ≤ c && c ≤ 70)

/-- An opening brace, eight hex digits, a dash, eight hex digits, a closing brace and the terminator. -/
def guidForm : List (UInt8 → Bool) :=
  (· == 123) :: List.replicate 8 isHexDigit ++ (· == 45) :: List.replicate 8 isHexDigit ++ [(· == 125),(· == 0)]

def HasForm (text : List UInt8) : Prop := List.Forall₂ (fun fits c => fits c = true) guidForm text

/-- A text of the form begins so. -/
def KeepsToForm (start : List UInt8) : Prop := ∃ text, HasForm text ∧ start <+: text

/-- How many characters fit their conditions before the first that does not. -/
def agreed : List (UInt8 → Bool) → List UInt8 → Nat
  | fits :: form,c :: rest => if fits c then agreed form rest + 1 else 0
  | _,_ => 0

variable {form more : List (UInt8 → Bool)} {text rest : List UInt8}

theorem agreed_next {fits : UInt8 → Bool} {c : UInt8} (fit : fits c = true) :
    agreed (fits :: form) (c :: rest) = agreed form rest + 1 := if_pos fit

theorem agreed_stop {fits : UInt8 → Bool} {c : UInt8} (unfit : fits c ≠ true) : agreed (fits :: form) (c :: rest) = 0 :=
  if_neg unfit

theorem agreed_le (form : List (UInt8 → Bool)) (text : List UInt8) : agreed form text ≤ form.length := by
  induction form generalizing text with
  | nil => exact Nat.zero_le 0
  | cons fits form ih =>
    cases text with
    | nil => exact Nat.zero_le _
    | cons c rest =>
      rw [agreed,List.length_cons]
      split
      · exact Nat.succ_le_succ (ih rest)
      · exact Nat.zero_le _

theorem agreed_append (all : agreed form text = form.length) :
    agreed (form ++ more) text = form.length + agreed more (text.drop form.length) := by
  induction form generalizing text with
  | nil =>
    rw [List.nil_append,List.length_nil,Nat.zero_add,List.drop_zero]
  | cons fits form ih =>
    cases text with
    | nil => cases all
    | cons c rest =>
      rw [agreed] at all
      rw [List.cons_append,agreed,List.length_cons,List.drop_succ_cons]
      by_cases fit : fits c
      · rw [if_pos fit,List.length_cons] at all
        rw [if_pos fit,ih (Nat.succ.inj all)]
        omega
      · rw [if_neg fit] at all
        cases all

theorem agreed_append_of_lt (some : agreed form text < form.length) : agreed (form ++ more) text = agreed form text := by
  induction form generalizing text with
  | nil => exact absurd some (Nat.not_lt_zero _)
  | cons fits form ih =>
    cases text with
    | nil => rfl
    | cons c rest =>
      rw [agreed] at some ⊢
      rw [List.cons_append,agreed]
      by_cases fit : fits c
      · rw [if_pos fit,List.length_cons] at some
        rw [if_pos fit,if_pos fit,ih (Nat.lt_of_succ_lt_succ some)]
      · rw [if_neg fit,if_neg fit]

/-- What fits all conditions has as many characters. -/
theorem forall_agreed (long : text.length ≤ form.length) :
    List.Forall₂ (fun fits c => fits c = true) form text ↔ agreed form text = form.length := by
  induction form generalizing text with
  | nil =>
    rw [List.length_eq_zero_iff.mp (Nat.le_zero.mp long)]
    exact iff_of_true .nil rfl
  | cons fits form ih =>
    cases text with
    | nil => exact iff_of_false nofun nofun
    | cons c rest =>
      rw [List.forall₂_cons,agreed,ih (Nat.le_of_succ_le_succ long),List.length_cons]
      by_cases fit : fits c
      · rw [if_pos fit,Nat.succ_inj]
        exact and_iff_right fit
      · rw [if_neg fit]
        exact iff_of_false (fun both => fit both.1) nofun

/-- The characters that fit are the start of a text that does. -/
theorem agreed_start (can : ∀ fits ∈ form, ∃ c, fits c = true) {count : Nat} (enough : count ≤ agreed form text) :
    ∃ whole, List.Forall₂ (fun fits c => fits c = true) form whole ∧ text.take count <+: whole := by
  induction form generalizing text count with
  | nil =>
    obtain rfl := Nat.le_zero.mp enough
    exact ⟨[],.nil,List.prefix_rfl⟩
  | cons fits form ih =>
    rw [List.forall_mem_cons] at can
    cases count with
    | zero =>
      obtain ⟨whole,fit,_⟩ : ∃ whole, List.Forall₂ (fun fits c => fits c = true) form whole ∧ text.take 0 <+: whole :=
        ih can.2 (Nat.zero_le _)
      obtain ⟨c,here⟩ := can.1
      exact ⟨c :: whole,.cons here fit,List.nil_prefix⟩
    | succ count =>
      cases text with
      | nil => cases enough
      | cons c rest =>
        rw [agreed] at enough
        split at enough
        · rename_i here
          obtain ⟨whole,fit,start⟩ := ih can.2 (Nat.le_of_succ_le_succ enough)
          exact ⟨c :: whole,.cons here fit,List.cons_prefix_cons.mpr ⟨rfl,start⟩⟩
        · cases enough

end Form

section Reading
variable {str : TerminatedString} {place reach : Nat}

/-- The characters from a place on, and the terminator. -/
def following (str : TerminatedString) (place : Nat) : List UInt8 := (str.chars ++ [0]).drop place

theorem charAt_run {c : UInt8} {rest : List UInt8} (here : following str place = c :: rest) :
    (charAt str place).run reach = (.ok c,max reach (place + 1)) := by
  have found : (str.chars ++ [0])[place]? = some c := by
    rw [← Nat.add_zero place,← List.getElem?_drop,← following,here,List.getElem?_cons_zero]
  simp only [charAt,found]

theorem following_succ {c : UInt8} {rest : List UInt8} (here : following str place = c :: rest) :
    following str (place + 1) = rest := by
  rw [following,← List.drop_drop,← following,here,List.drop_one,List.tail_cons]

/-- Behind a character that is not the terminator there is another one. -/
theorem following_next {c : UInt8} {rest : List UInt8} (here : following str place = c :: rest) (more : c ≠ 0) :
    ∃ next others, following str (place + 1) = next :: others := by
  have behind := following_succ here
  cases rest with
  | cons next others => exact ⟨next,others,behind⟩
  | nil =>
    have last : ((str.chars ++ [0]).drop place).getLast? = some c := by
      rw [← following,here,List.getLast?_singleton]
    rw [List.getLast?_drop] at last
    split at last
    · cases last
    · rw [List.getLast?_append,List.getLast?_singleton,Option.some_or] at last
      exact absurd (Option.some.inj last).symm more

theorem isHexDigit_iff {c : UInt8} : isHexDigit c = true ↔ ∃ digit, hexCharToInt c = some digit := by
  rw [← Option.isSome_iff_exists,hexCharToInt]
  split
  · rename_i decimal
    simp [isHexDigit,decimal]
  · rename_i not
    split
    · rename_i lower
      simp [isHexDigit,lower]
    · rename_i other
      split
      · rename_i upper
        simp [isHexDigit,upper]
      · rename_i neither
        simp only [isHexDigit,Bool.or_eq_true,Bool.and_eq_true,decide_eq_true_eq,Option.isSome_none,Bool.false_eq_true,iff_false]
        rintro ((first | second) | third)
        · exact not first
        · exact other second
        · exact neither third

/-- The digits in front of a value. -/
def hexValue (value : UInt32) (digits : List UInt8) : UInt32 :=
  digits.foldl (fun value c => value <<< 4 ||| (hexCharToInt c).getD 0) value

/-- The loop reads the digits that it is to read, or up to the first character that is none. -/
theorem hexLoop_run {text : List UInt8} (missing : Nat) (value : UInt32) (reach : Nat) (within : text ≠ []) (here : following str place = text) :
    ∃ left,(hexLoop str place missing value).run reach =
        (.ok left,max reach (place + agreed (List.replicate missing isHexDigit) text + 1)) ∧
      left.1 = missing - agreed (List.replicate missing isHexDigit) text ∧
      (agreed (List.replicate missing isHexDigit) text = missing →
        left.2 = hexValue value (text.take missing) ∧ following str (place + missing) ≠ []) := by
  induction missing generalizing place value text reach with
  | zero =>
    obtain ⟨c,rest,rfl⟩ := List.exists_cons_of_ne_nil within
    refine ⟨(0,value),?_,rfl,fun _ => ⟨rfl,?_⟩⟩
    · rw [hexLoop,Action.bind_ok _ (charAt_run here)]
      rfl
    · rw [Nat.add_zero,here]
      exact within
  | succ missing ih =>
    obtain ⟨c,rest,rfl⟩ := List.exists_cons_of_ne_nil within
    rw [List.replicate_succ,agreed,hexLoop,Action.bind_ok _ (charAt_run here)]
    cases digit : hexCharToInt c with
    | none =>
      have wrong : ¬ isHexDigit c = true := fun holds => by
        obtain ⟨_,found⟩ := isHexDigit_iff.mp holds
        rw [digit] at found
        cases found
      rw [if_neg wrong]
      refine ⟨(missing + 1,value),?_,rfl,nofun⟩
      split <;> rfl
    | some value' =>
      have fits := isHexDigit_iff.mpr ⟨value',digit⟩
      have more : c ≠ 0 := by
        rintro rfl
        cases fits
      obtain ⟨next,others,behind⟩ := following_next here more
      obtain rfl := (following_succ here).symm.trans behind
      obtain ⟨left,ran,count,all⟩ := ih (value <<< 4 ||| value') (max reach (place + 1)) (List.cons_ne_nil next others) behind
      rw [if_pos fits,if_neg more]
      refine ⟨left,?_,?_,fun every => ?_⟩
      · simp only [ran]
        congr 1
        omega
      · rw [count]
        omega
      · obtain ⟨same,further⟩ := all (Nat.succ.inj every)
        refine ⟨?_,by rwa [Nat.add_comm missing 1,← Nat.add_assoc]⟩
        rw [same,List.take_succ_cons,hexValue,hexValue,List.foldl_cons,digit,Option.getD_some]

/-- Eight digits, or the place of the character that is none. -/
theorem parseHexUint32_run {text : List UInt8} (reach : Nat) (within : text ≠ []) (here : following str place = text) :
    if agreed (List.replicate 8 isHexDigit) text = 8 then
      (parseHexUint32 str place).run reach = (.ok (some (hexValue 0 (text.take 8))),max reach (place + 9)) ∧
        following str (place + 8) ≠ []
    else (parseHexUint32 str place).run reach =
      (.ok none,max reach (place + agreed (List.replicate 8 isHexDigit) text + 1)) := by
  obtain ⟨left,ran,count,all⟩ := hexLoop_run 8 0 reach within here
  have least := agreed_le (List.replicate 8 isHexDigit) text
  rw [List.length_replicate] at least
  rw [parseHexUint32,Action.bind_ok _ ran]
  by_cases every : agreed (List.replicate 8 isHexDigit) text = 8
  · obtain ⟨same,further⟩ := all every
    have none : left.1 = 0 := by omega
    rw [if_pos every]
    refine ⟨?_,further⟩
    simp only [none,same,every,if_true]
    rfl
  · have missing : left.1 ≠ 0 := by omega
    rw [if_neg every]
    simp only [if_neg missing]
    rfl

theorem following_add (count : Nat) : following str (place + count) = (following str place).drop count :=
  List.drop_drop.symm

/-- The form from the dash on. -/
def secondForm : List (UInt8 → Bool) := (· == 45) :: (List.replicate 8 isHexDigit ++ [(· == 125),(· == 0)])

/-- Where the second part ends: all of it fits, or it is read up to the first character that does not. -/
def EndsAt (form : List (UInt8 → Bool)) (text : List UInt8) (place reach : Nat) (guid : Guid) (ran : Result Guid × Nat) : Prop :=
  if agreed form text = form.length then ran = (.ok guid,max reach (place + form.length))
  else ran = (.ok {},max reach (place + agreed form text + 1))

theorem ends_stop {form : List (UInt8 → Bool)} {text : List UInt8} {guid : Guid} {ran : Result Guid × Nat} {count : Nat}
    (fewer : count < form.length) (stops : agreed form text = count) (same : ran = (.ok {},max reach (place + count + 1))) :
    EndsAt form text place reach guid ran := by
  rw [EndsAt,if_neg (by omega),stops]
  exact same

theorem parseSecond_run (reach : Nat) (d1 : UInt32) (within : following str 9 ≠ []) :
    EndsAt secondForm (following str 9) 9 reach ⟨d1,hexValue 0 ((following str 10).take 8)⟩ ((parseSecond str d1).run reach) := by
  obtain ⟨c,rest,first⟩ := List.exists_cons_of_ne_nil within
  have behind : following str 10 = rest := following_succ first
  rw [parseSecond,Action.bind_ok _ (charAt_run first),first,behind]
  by_cases dash : c = 45
  swap
  · refine ends_stop (by decide) (agreed_stop (by simpa using dash)) ?_
    rw [if_pos dash]
    rfl
  obtain ⟨next,others,more⟩ := following_next first (by rw [dash]; decide)
  obtain rfl := behind.symm.trans more
  have opened : agreed secondForm (c :: next :: others) = agreed (List.replicate 8 isHexDigit ++ [(· == 125),(· == 0)]) (next :: others) + 1 :=
    agreed_next (by rw [dash]; rfl)
  have digits := parseHexUint32_run (max reach 10) (List.cons_ne_nil next others) behind
  have least := agreed_le (List.replicate 8 isHexDigit) (next :: others)
  rw [List.length_replicate] at least
  rw [if_neg (not_not.mpr dash)]
  by_cases eight : agreed (List.replicate 8 isHexDigit) (next :: others) = 8
  swap
  · rw [if_neg eight] at digits
    rw [agreed_append_of_lt (by rw [List.length_replicate]; omega)] at opened
    have fewer : agreed (List.replicate 8 isHexDigit) (next :: others) + 1 < secondForm.length := by
      rw [show secondForm.length = 11 from rfl]
      omega
    refine ends_stop fewer opened ?_
    rw [Action.bind_ok _ digits]
    exact Prod.ext rfl (show max _ _ = max _ _ by omega)
  rw [if_pos eight] at digits
  obtain ⟨ran,further⟩ := digits
  obtain ⟨c',rest',last⟩ := List.exists_cons_of_ne_nil further
  have dropped : (next :: others).drop 8 = c' :: rest' := by
    rw [← behind,← following_add,last]
  rw [agreed_append (by rw [List.length_replicate,eight]),List.length_replicate,dropped] at opened
  rw [Action.bind_ok _ ran]
  dsimp only
  rw [Action.bind_ok _ (charAt_run last)]
  by_cases brace : c' = 125
  swap
  · refine ends_stop (by decide) (opened.trans (congrArg (8 + · + 1) (agreed_stop (by simpa using brace)))) ?_
    rw [if_pos brace]
    exact Prod.ext rfl (show max _ _ = max _ _ by omega)
  obtain ⟨c'',rest'',ended⟩ := following_next last (by rw [brace]; decide)
  obtain rfl := (following_succ last).symm.trans ended
  rw [agreed_next (by rw [brace]; rfl)] at opened
  rw [if_neg (not_not.mpr brace),Action.bind_ok _ (charAt_run ended)]
  by_cases zero : c'' = 0
  swap
  · rw [agreed_stop (by simpa using zero)] at opened
    refine ends_stop (by decide) opened ?_
    rw [if_pos zero]
    exact Prod.ext rfl (show max _ _ = max _ _ by omega)
  rw [agreed_next (by rw [zero]; rfl)] at opened
  have all : agreed secondForm (c :: next :: others) = secondForm.length := opened
  rw [EndsAt,if_pos all,if_neg (not_not.mpr zero)]
  exact Prod.ext rfl (show max _ _ = max _ (9 + 11) by omega)

theorem guidParse_run (str : TerminatedString) : EndsAt guidForm (following str 0) 0 0
    ⟨hexValue 0 ((following str 1).take 8),hexValue 0 ((following str 10).take 8)⟩ ((guidParse str).run 0) := by
  have within : following str 0 ≠ [] := List.append_ne_nil_of_right_ne_nil _ (List.cons_ne_nil 0 [])
  obtain ⟨c,rest,first⟩ := List.exists_cons_of_ne_nil within
  have behind : following str 1 = rest := following_succ first
  have split : guidForm = (· == 123) :: (List.replicate 8 isHexDigit ++ secondForm) := rfl
  rw [guidParse,Action.bind_ok _ (charAt_run first),first,behind]
  by_cases brace : c = 123
  swap
  · refine ends_stop (by decide) (agreed_stop (by simpa using brace)) ?_
    split
    · rfl
    · rw [Action.bind_ok _ (charAt_run first),if_pos brace]
      rfl
  have some : c ≠ 0 := by
    rw [brace]
    decide
  obtain ⟨next,others,more⟩ := following_next first some
  obtain rfl := behind.symm.trans more
  have opened : agreed guidForm (c :: next :: others) = agreed (List.replicate 8 isHexDigit ++ secondForm) (next :: others) + 1 :=
    agreed_next (by rw [brace]; rfl)
  have digits := parseHexUint32_run (max (max 0 (0 + 1)) (0 + 1)) (List.cons_ne_nil next others) behind
  have least := agreed_le (List.replicate 8 isHexDigit) (next :: others)
  rw [List.length_replicate] at least
  rw [if_neg some,Action.bind_ok _ (charAt_run first),if_neg (not_not.mpr brace)]
  by_cases eight : agreed (List.replicate 8 isHexDigit) (next :: others) = 8
  swap
  · rw [if_neg eight] at digits
    rw [agreed_append_of_lt (by rw [List.length_replicate]; omega)] at opened
    have fewer : agreed (List.replicate 8 isHexDigit) (next :: others) + 1 < guidForm.length := by
      rw [show guidForm.length = 20 from rfl]
      omega
    refine ends_stop fewer opened ?_
    rw [Action.bind_ok _ digits]
    exact Prod.ext rfl (show max _ _ = max _ _ by omega)
  rw [if_pos eight] at digits
  obtain ⟨ran,further⟩ := digits
  have dropped : (next :: others).drop 8 = following str 9 := by
    rw [← behind,← following_add]
  rw [agreed_append (by rw [List.length_replicate,eight]),List.length_replicate,dropped] at opened
  rw [Action.bind_ok _ ran]
  have second := parseSecond_run (max (max (max 0 (0 + 1)) (0 + 1)) (1 + 9)) (hexValue 0 ((next :: others).take 8)) further
  rw [EndsAt] at second ⊢
  by_cases all : agreed secondForm (following str 9) = secondForm.length
  · rw [if_pos all] at second
    have every : agreed guidForm (c :: next :: others) = guidForm.length := by
      rw [opened,all]
      rfl
    rw [if_pos every]
    exact second
  · rw [if_neg all] at second
    have fewer : agreed guidForm (c :: next :: others) ≠ guidForm.length := by
      rw [opened,show guidForm.length = 8 + secondForm.length + 1 from rfl]
      omega
    rw [if_neg fewer]
    refine second.trans (Prod.ext rfl (show max _ _ = max _ _ by omega))

end Reading

section Values
variable {c : UInt8} {digits : List UInt8}

def digitOf (c : UInt8) : Nat := ((hexCharToInt c).getD 0).toNat

/-- The number that the digits go on with. -/
def numberFrom (number : Nat) (digits : List UInt8) : Nat := digits.foldl (fun number c => number * 16 + digitOf c) number

/-- What holds of the 256 bytes, one after the other. -/
theorem every_byte (holds : UInt8 → Prop) (all : ∀ n < 256, holds (UInt8.ofNat n)) (c : UInt8) : holds c := by
  rw [← UInt8.ofNat_toNat (x := c)]
  exact all c.toNat c.toNat_lt

theorem digitOf_lt : digitOf c < 16 := every_byte (digitOf · < 16) (by decide +kernel) c

/-- Only the digit zero is worth nothing. -/
theorem digitOf_zero (digit : isHexDigit c = true) : digitOf c = 0 ↔ c = 48 :=
  every_byte (fun c => isHexDigit c = true → (digitOf c = 0 ↔ c = 48)) (by decide +kernel) c digit

theorem upperDigit_is {digit : Nat} (small : digit < 16) :
    isHexDigit (upperDigit digit) = true ∧ digitOf (upperDigit digit) = digit := by
  interval_cases digit <;> decide

theorem hexText_digits (count number : Nat) : (hexText count number).length = count ∧ ∀ c ∈ hexText count number, isHexDigit c = true := by
  induction count generalizing number with
  | zero => exact ⟨rfl,nofun⟩
  | succ count ih =>
    obtain ⟨length,all⟩ := ih (number / 16)
    rw [hexText]
    refine ⟨by rw [List.length_append,length,List.length_singleton],fun c member => ?_⟩
    rcases List.mem_append.mp member with early | last
    · exact all c early
    · rw [List.mem_singleton.mp last]
      exact (upperDigit_is (Nat.mod_lt number (Nat.zero_lt_succ 15))).1

/-- The digits that were written give the number again. -/
theorem numberFrom_hexText {count number : Nat} (fits : number < 16 ^ count) : numberFrom 0 (hexText count number) = number := by
  induction count generalizing number with
  | zero =>
    rw [Nat.pow_zero,Nat.lt_one_iff] at fits
    rw [fits]
    rfl
  | succ count ih =>
    have smaller : number / 16 < 16 ^ count := by
      rw [Nat.pow_succ] at fits
      omega
    rw [hexText,numberFrom,List.foldl_append]
    rw [show List.foldl _ 0 (hexText count (number / 16)) = number / 16 from ih smaller,List.foldl_cons,List.foldl_nil,
      (upperDigit_is (Nat.mod_lt number (Nat.zero_lt_succ 15))).2]
    omega

theorem toNat_hexStep {value digit : UInt32} (room : value.toNat * 16 < 2 ^ 32) (small : digit.toNat < 16) :
    (value <<< 4 ||| digit).toNat = value.toNat * 16 + digit.toNat := by
  have shifted : value.toNat <<< 4 = value.toNat * 16 := Nat.shiftLeft_eq _ _
  have apart := Nat.shiftLeft_add_eq_or_of_lt (show digit.toNat < 2 ^ 4 from small) value.toNat
  rw [UInt32.toNat_or,UInt32.toNat_shiftLeft]
  rw [show (4 : UInt32).toNat % 32 = 4 from rfl,shifted,Nat.mod_eq_of_lt room,← shifted,← apart]

/-- The value of the loop is the number of its digits while they fit. -/
theorem toNat_hexValue (value : UInt32) (digits : List UInt8) (fits : value.toNat < 16 ^ (8 - digits.length)) (few : digits.length ≤ 8) :
    (hexValue value digits).toNat = numberFrom value.toNat digits := by
  induction digits generalizing value with
  | nil => rfl
  | cons c digits ih =>
    have small : ((hexCharToInt c).getD 0).toNat < 16 := digitOf_lt
    have power : 16 ^ (8 - digits.length) = 16 ^ (8 - (c :: digits).length) * 16 := by
      rw [← Nat.pow_succ]
      congr 1
      rw [List.length_cons] at few ⊢
      omega
    have whole : 16 ^ (8 - digits.length) ≤ 2 ^ 32 := by
      rw [show 2 ^ 32 = 16 ^ 8 from rfl]
      exact Nat.pow_le_pow_right (by decide) (Nat.sub_le 8 _)
    have step : (value <<< 4 ||| (hexCharToInt c).getD 0).toNat = value.toNat * 16 + ((hexCharToInt c).getD 0).toNat :=
      toNat_hexStep (by omega) small
    rw [List.length_cons] at few
    rw [hexValue,List.foldl_cons,← hexValue,ih _ (by omega) (by omega),step]
    rfl

theorem numberFrom_zero {number : Nat} (all : ∀ c ∈ digits, isHexDigit c = true) :
    numberFrom number digits = 0 ↔ number = 0 ∧ ∀ c ∈ digits, c = 48 := by
  induction digits generalizing number with
  | nil => exact (and_iff_left nofun).symm
  | cons c digits ih =>
    rw [List.forall_mem_cons] at all ⊢
    have digit := digitOf_zero all.1
    rw [numberFrom,List.foldl_cons,← numberFrom,ih all.2,← and_assoc,← digit]
    have sum : number * 16 + digitOf c = 0 ↔ number = 0 ∧ digitOf c = 0 := by omega
    rw [sum]

end Values

section Law
variable {str : TerminatedString} {c : UInt8}

theorem agreed_getElem? {form : List (UInt8 → Bool)} {text : List UInt8} {i : Nat} (inside : i < agreed form text) :
    ∃ fits c, form[i]? = some fits ∧ text[i]? = some c ∧ fits c = true := by
  induction form generalizing text i with
  | nil => cases inside
  | cons fits form ih =>
    cases text with
    | nil => cases inside
    | cons c rest =>
      rw [agreed] at inside
      split at inside
      · rename_i here
        cases i with
        | zero => exact ⟨fits,c,rfl,rfl,here⟩
        | succ i => exact ih (Nat.lt_of_succ_lt_succ inside)
      · cases inside

/-- The conditions on the characters of a string that has the form. -/
theorem fitting {i : Nat} {fits : UInt8 → Bool} (all : agreed guidForm (following str 0) = 20) (place : guidForm[i]? = some fits) :
    ∃ c, (str.chars ++ [0])[i]? = some c ∧ fits c = true := by
  have bound := (List.getElem?_eq_some_iff.mp place).1
  obtain ⟨fits',c,same,found,fit⟩ := agreed_getElem? (show i < agreed guidForm (following str 0) from all ▸ bound)
  obtain rfl := Option.some.inj (same.symm.trans place)
  exact ⟨c,found,fit⟩

theorem hasForm_iff : HasForm (str.chars ++ [0]) ↔ agreed guidForm (following str 0) = 20 := by
  constructor
  · intro form
    exact (forall_agreed (Nat.le_of_eq form.length_eq.symm)).mp form
  · intro all
    refine (forall_agreed ?_).mpr (show agreed guidForm (following str 0) = guidForm.length from all)
    obtain ⟨c,last,zero⟩ := fitting (i := 19) all rfl
    obtain rfl : c = 0 := by simpa using zero
    rw [List.length_append,List.length_singleton,show guidForm.length = 20 from rfl]
    by_contra long
    rw [List.getElem?_append_left (by omega)] at last
    exact str.terminated (List.mem_of_getElem? last)

theorem digit_place {start j : Nat} (few : j < 8) : ((following str start).take 8)[j]? = (str.chars ++ [0])[start + j]? := by
  rw [List.getElem?_take_of_lt few,following,List.getElem?_drop]

theorem digits_fit {start : Nat} (all : agreed guidForm (following str 0) = 20)
    (form : ∀ j < 8, guidForm[start + j]? = some isHexDigit) :
    ((following str start).take 8).length = 8 ∧ ∀ c ∈ (following str start).take 8, isHexDigit c = true := by
  have there (j : Nat) (few : j < 8) : ∃ c, ((following str start).take 8)[j]? = some c ∧ isHexDigit c = true := by
    rw [digit_place few]
    exact fitting all (form j few)
  constructor
  · obtain ⟨c,last,_⟩ := there 7 (by decide)
    have bound := (List.getElem?_eq_some_iff.mp last).1
    exact Nat.le_antisymm (List.length_take_le 8 _) bound
  · intro c member
    obtain ⟨j,bound,rfl⟩ := List.mem_iff_getElem.mp member
    obtain ⟨c,found,digit⟩ := there j (Nat.lt_of_lt_of_le bound (List.length_take_le 8 _))
    rw [List.getElem?_eq_getElem bound] at found
    rwa [Option.some.inj found]

theorem first_form (j : Nat) (few : j < 8) : guidForm[1 + j]? = some isHexDigit := by
  interval_cases j <;> rfl

theorem second_form (j : Nat) (few : j < 8) : guidForm[10 + j]? = some isHexDigit := by
  interval_cases j <;> rfl

/-- The hex digits of a string of the form are those of the two numbers. -/
theorem mem_digits (all : agreed guidForm (following str 0) = 20) (digit : isHexDigit c = true) :
    c ∈ str.chars ↔ c ∈ (following str 1).take 8 ∨ c ∈ (following str 10).take 8 := by
  have inside (start : Nat) (member : c ∈ (following str start).take 8) : c ∈ str.chars := by
    rcases List.mem_append.mp (List.mem_of_mem_drop (List.mem_of_mem_take member)) with here | last
    · exact here
    · rw [List.mem_singleton.mp last] at digit
      cases digit
  constructor
  · intro member
    obtain ⟨i,bound,rfl⟩ := List.mem_iff_getElem.mp member
    have length := (hasForm_iff.mpr all).length_eq
    rw [List.length_append,List.length_singleton,show guidForm.length = 20 from rfl] at length
    have whole : (str.chars ++ [0])[i]? = some str.chars[i] := by
      rw [List.getElem?_append_left bound,List.getElem?_eq_getElem bound]
    have other (fits : UInt8 → Bool) (place : guidForm[i]? = some fits) (never : ∀ c, fits c = true → isHexDigit c = false) : False := by
      obtain ⟨c',same,fit⟩ := fitting all place
      obtain rfl := Option.some.inj (same.symm.trans whole)
      rw [never _ fit] at digit
      cases digit
    have part {start : Nat} (low : start ≤ i) (high : i < start + 8) : str.chars[i] ∈ (following str start).take 8 := by
      apply List.mem_of_getElem? (i := i - start)
      rw [digit_place (by omega),Nat.add_sub_cancel' low,whole]
    rcases (by omega : i = 0 ∨ 1 ≤ i ∧ i < 9 ∨ i = 9 ∨ 10 ≤ i ∧ i < 18 ∨ i = 18) with rfl | first | rfl | second | rfl
    · exact (other (· == 123) rfl fun c same => by rw [beq_iff_eq.mp same]; rfl).elim
    · exact .inl (part first.1 first.2)
    · exact (other (· == 45) rfl fun c same => by rw [beq_iff_eq.mp same]; rfl).elim
    · exact .inr (part second.1 second.2)
    · exact (other (· == 125) rfl fun c same => by rw [beq_iff_eq.mp same]; rfl).elim
  · rintro (first | second)
    · exact inside 1 first
    · exact inside 10 second

theorem hexValue_zero {start : Nat} (all : agreed guidForm (following str 0) = 20)
    (form : ∀ j < 8, guidForm[start + j]? = some isHexDigit) :
    hexValue 0 ((following str start).take 8) = 0 ↔ ∀ c ∈ (following str start).take 8, c = 48 := by
  obtain ⟨length,digits⟩ := digits_fit all form
  have value := toNat_hexValue 0 ((following str start).take 8) (by rw [length]; decide) (Nat.le_of_eq length)
  rw [← UInt32.toNat_inj,value]
  exact (numberFrom_zero digits).trans (and_iff_right rfl)

theorem guidParse_null (str : TerminatedString) : ∃ guid reach,(guidParse str).run 0 = (.ok guid,reach) ∧
    (guid ≠ {} ↔ HasForm (str.chars ++ [0]) ∧ ∃ c ∈ str.chars, isHexDigit c = true ∧ c ≠ 48) ∧
    reach ≤ agreed guidForm (following str 0) + 1 := by
  have ran := guidParse_run str
  rw [EndsAt,show guidForm.length = 20 from rfl] at ran
  by_cases all : agreed guidForm (following str 0) = 20
  · rw [if_pos all] at ran
    refine ⟨_,_,ran,?_,by omega⟩
    rw [and_iff_right (hasForm_iff.mpr all),not_iff_comm]
    have null : (⟨hexValue 0 ((following str 1).take 8),hexValue 0 ((following str 10).take 8)⟩ : Guid) = {} ↔
        (∀ c ∈ (following str 1).take 8, c = 48) ∧ ∀ c ∈ (following str 10).take 8, c = 48 := by
      rw [Guid.mk.injEq,hexValue_zero all first_form,hexValue_zero all second_form]
    rw [null]
    constructor
    · intro zeros
      refine ⟨fun c member => ?_,fun c member => ?_⟩
      · have digit := (digits_fit all first_form).2 c member
        by_contra other
        exact zeros ⟨c,(mem_digits all digit).mpr (.inl member),digit,other⟩
      · have digit := (digits_fit all second_form).2 c member
        by_contra other
        exact zeros ⟨c,(mem_digits all digit).mpr (.inr member),digit,other⟩
    · rintro ⟨first,second⟩ ⟨c,member,digit,other⟩
      rcases (mem_digits all digit).mp member with early | late
      · exact other (first c early)
      · exact other (second c late)
  · rw [if_neg all] at ran
    refine ⟨_,_,ran,?_,by omega⟩
    rw [hasForm_iff]
    exact iff_of_false (not_not.mpr rfl) fun both => all both.1

/-- The conditions can all be met. -/
theorem guidForm_can : ∀ fits ∈ guidForm, ∃ c, fits c = true := by
  have digit : ∃ c, isHexDigit c = true := ⟨48,rfl⟩
  simp [guidForm,digit]

theorem reads_to_break {place : Nat} (breaks : ¬ KeepsToForm ((str.chars ++ [0]).take (place + 1))) :
    agreed guidForm (following str 0) ≤ place := by
  by_contra further
  obtain ⟨whole,form,start⟩ := agreed_start guidForm_can (Nat.lt_of_not_le further)
  exact breaks ⟨whole,form,start⟩

theorem guidFormat_parses (guid : Guid) (more : Nat) : ∃ str : TerminatedString, guidFormat guid (21 + more) = some str.chars ∧
    ((guidParse str).run 0).1 = .ok guid := by
  obtain ⟨length,digits⟩ := hexText_digits 8 guid.d1.toNat
  obtain ⟨length',digits'⟩ := hexText_digits 8 guid.d2.toNat
  have value (number : UInt32) : hexValue 0 (hexText 8 number.toNat) = number := by
    rw [← UInt32.toNat_inj,toNat_hexValue 0 _ (by rw [(hexText_digits 8 number.toNat).1]; decide) (Nat.le_of_eq (hexText_digits 8 number.toNat).1)]
    exact numberFrom_hexText number.toNat_lt
  have fit {count : Nat} {text : List UInt8} (many : text.length = count) (all : ∀ c ∈ text, isHexDigit c = true) :
      List.Forall₂ (fun fits c => fits c = true) (List.replicate count isHexDigit) text := by
    rw [List.forall₂_iff_get]
    refine ⟨by rw [List.length_replicate,many],fun i bound inside => ?_⟩
    rw [List.get_eq_getElem,List.getElem_replicate]
    exact all _ (List.getElem_mem inside)
  have form : HasForm (123 :: hexText 8 guid.d1.toNat ++ 45 :: hexText 8 guid.d2.toNat ++ [125] ++ [0]) := by
    rw [HasForm,List.append_assoc _ [125]]
    have join := List.rel_append (R := fun (fits : UInt8 → Bool) c => fits c = true)
    exact join (join (.cons rfl (fit length digits)) (.cons rfl (fit length' digits'))) (.cons rfl (.cons rfl .nil))
  have terminated : 0 ∉ 123 :: hexText 8 guid.d1.toNat ++ 45 :: hexText 8 guid.d2.toNat ++ [125] := by
    have nonzero {text : List UInt8} (all : ∀ c ∈ text, isHexDigit c = true) : 0 ∉ text := fun member => nomatch all 0 member
    simp [nonzero digits,nonzero digits']
  refine ⟨⟨_,terminated⟩,if_neg (by omega),?_⟩
  have ran := guidParse_run ⟨_,terminated⟩
  have first : (following ⟨_,terminated⟩ 1).take 8 = hexText 8 guid.d1.toNat := by
    rw [following,List.append_assoc,List.append_assoc,List.cons_append,List.drop_succ_cons,List.drop_zero]
    exact List.take_left' length
  have second : (following ⟨_,terminated⟩ 10).take 8 = hexText 8 guid.d2.toNat := by
    have place : following ⟨_,terminated⟩ 10 = hexText 8 guid.d2.toNat ++ ([125] ++ [0]) := by
      have split : 123 :: hexText 8 guid.d1.toNat ++ 45 :: hexText 8 guid.d2.toNat ++ [125] ++ [0] =
          (123 :: hexText 8 guid.d1.toNat ++ [45]) ++ (hexText 8 guid.d2.toNat ++ ([125] ++ [0])) := by simp
      rw [following,split]
      refine List.drop_left' ?_
      rw [List.length_append,List.length_cons,length]
      rfl
    rw [place]
    exact List.take_left' length'
  have whole : HasForm ((⟨_,terminated⟩ : TerminatedString).chars ++ [0]) := form
  have all : agreed guidForm (following ⟨_,terminated⟩ 0) = guidForm.length := hasForm_iff.mp whole
  rw [EndsAt,if_pos all,first,second,value,value] at ran
  rw [ran]

end Law

/-- A text is parsed as a GUID that is not null just if it has the form and a digit that is not zero; it is read
up to the first character that breaks the form, and the text of a GUID gives the GUID. -/
theorem guid_text : (∀ str : TerminatedString, ∃ guid reach,(guidParse str).run 0 = (.ok guid,reach) ∧
      (guid ≠ {} ↔ HasForm (str.chars ++ [0]) ∧ ∃ c ∈ str.chars, isHexDigit c = true ∧ c ≠ 48) ∧
      ∀ place, ¬ KeepsToForm ((str.chars ++ [0]).take (place + 1)) → reach ≤ place + 1) ∧
    ∀ guid more, ∃ str : TerminatedString, guidFormat guid (21 + more) = some str.chars ∧
      ((guidParse str).run 0).1 = .ok guid := by
  refine ⟨fun str => ?_,guidFormat_parses⟩
  obtain ⟨guid,reach,ran,null,read⟩ := guidParse_null str
  exact ⟨guid,reach,ran,null,fun place breaks => read.trans (Nat.succ_le_succ (reads_to_break breaks))⟩

end Libnmo.Format
