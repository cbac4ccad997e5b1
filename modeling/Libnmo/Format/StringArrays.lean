import Libnmo.Format.ChunkPlaces

/-! Arrays of strings, written and read back. An absent string is written with a length
of zero, which a single read gives back as an absent string but the read of an array
takes for a failure. An empty string has a length of one, for its terminator. -/
namespace Libnmo.Format
open Core Lib Lib.LittleEndian Lib.Cursor

/-- The bytes that a string is written with; an absent one has none. -/
def stringBytes (str : Option (List UInt8)) : List UInt8 := (str.map (· ++ [0])).getD []

/-- What lies in the data for a string: its length, and its bytes. -/
def StringWords (str : Option (List UInt8)) (words : List UInt32) : Prop :=
  ∃ packed, words = UInt32.ofNat (stringBytes str).length :: packed ∧ Packs packed (stringBytes str)

/-- The strings that were written come back, with their terminators, and the position is where the write left it. -/
def StringsReturn (c : Chunk) (pos : Nat) (strings : List (Option (List UInt8))) : Prop :=
  (chunkGoto pos >>= fun _ => onPosition chunkReadStringArray).run c =
    (.ok (arrayPointer (strings.map (Option.map (· ++ [0]))),strings.length),c)

/-- A string that is there, and whose length does not wrap when it is rounded. -/
def StringFits (str : Option (List UInt8)) : Prop := ∃ chars, str = some chars ∧ chars.length + 4 < 2 ^ 32

section Writing
variable {around : Surroundings}

theorem putting_stringArray (strings : List (Option (List UInt8))) :
    Putting (fun words => ∃ parts, words = UInt32.ofNat strings.length :: parts.flatten ∧
      List.Forall₂ StringWords strings parts) (chunkWriteStringArray around (some strings) strings.length) := by
  have each := putting_each (@putting_string around) strings
  intro c c' pos place ran
  rw [chunkWriteStringArray,writeCounted,List.take_length,if_neg (Nat.lt_irrefl _)] at ran
  obtain ⟨_,c₁,counted,ran⟩ := Action.bind_success ran
  obtain ⟨_,c₂,entries,ran⟩ := Action.bind_success ran
  cases ran
  obtain ⟨_,rfl,count⟩ := putting_writeWords [_] c c₁ pos place counted
  obtain ⟨_,⟨parts,rfl,all⟩,put⟩ := each c₁ c' _ count.place entries
  exact ⟨_,⟨parts,rfl,all⟩,count.trans put⟩

end Writing

section Reading
variable {data spare : List UInt32}

theorem reads_stringEntry {str : Option (List UInt8)} {words : List UInt32} (fits : StringFits str)
    (stored : StringWords str words) :
    Reads data (readStringEntry data spare) words (str.map (· ++ [0])) := by
  obtain ⟨chars,rfl,small⟩ := fits
  obtain ⟨packed,rfl,packs⟩ := stored
  have read := @reads_chunkReadString data spare _ _ packs (by omega)
  intro pos rest ahead
  obtain ⟨next,run,left⟩ := read pos rest ahead
  refine ⟨next,?_,left⟩
  rw [readStringEntry,Action.bind_ok _ run,if_neg (by simp)]
  rfl

theorem reads_stringEntries {strings : List (Option (List UInt8))} {parts : List (List UInt32)}
    (stored : List.Forall₂ StringWords strings parts) (fits : ∀ str ∈ strings, StringFits str) :
    Reads data ((readStringEntry data spare).times strings.length) parts.flatten (strings.map (Option.map (· ++ [0]))) := by
  induction stored with
  | nil => exact reads_pure []
  | cons first _ ih =>
    rw [List.forall_mem_cons] at fits
    exact reads_bind (reads_stringEntry fits.1 first) (reads_return (ih fits.2))

theorem reads_stringArray {strings : List (Option (List UInt8))} {parts : List (List UInt32)}
    (stored : List.Forall₂ StringWords strings parts) (few : strings.length < 2 ^ 31)
    (fits : ∀ str ∈ strings, StringFits str) :
    Reads data (chunkReadStringArray data spare) (UInt32.ofNat strings.length :: parts.flatten)
      (arrayPointer (strings.map (Option.map (· ++ [0]))),strings.length) := by
  have entries := @reads_stringEntries data spare _ _ stored fits
  refine reads_cons (reads_sequenceStart _ (.inl few)) ?_
  cases stored with
  | nil => exact reads_pure _
  | cons first rest =>
    rw [if_neg (by simp),allocArray,if_pos (by omega)]
    exact reads_still (reads_pure ()) (reads_return (f := fun array => (some array,_)) entries)

/-- A null pointer comes with a length of zero. -/
theorem chunkReadString_null {pos next : Nat} {found : Option (List UInt8) × Nat}
    (run : (chunkReadString data spare).run pos = (.ok found,next)) (null : found.1 = none) : found.2 = 0 := by
  have hollow {start : Nat} (run : (pure (none,0) : Run Nat (Option (List UInt8) × Nat)).run start = (.ok found,next)) :
      found.2 = 0 := by
    simp only [Action.pure_apply,Prod.mk.injEq,Except.ok.injEq] at run
    rw [← run.1]
  obtain ⟨room,_,_,run⟩ := Action.bind_success run
  split at run
  · obtain ⟨len,_,_,run⟩ := Action.bind_success run
    split at run
    · exact hollow run
    · obtain ⟨enough,_,_,run⟩ := Action.bind_success run
      split at run
      · obtain ⟨str,_,rfl⟩ := return_success run
        cases null
      · exact hollow run
  · exact hollow run

/-- A string that was read is there, and was read from no more words than its length rounds to. -/
theorem stringEntry_success {pos next : Nat} {found : Option (List UInt8)}
    (run : (readStringEntry data spare).run pos = (.ok found,next)) :
    found.isSome ∧ (found.getD []).length < 2 ^ 32 ∧ next ≤ pos + (1 + ((found.getD []).length + 3) % 2 ^ 32 / 4) := by
  obtain ⟨answer,between,read,run⟩ := Action.bind_success run
  have moved := chunkReadString_success read
  split at run
  · cases run
  · rename_i there
    simp only [Action.pure_apply,Prod.mk.injEq,Except.ok.injEq] at run
    obtain ⟨rfl,rfl⟩ := run
    refine ⟨?_,moved⟩
    rw [Option.isSome_iff_ne_none]
    exact fun null => there ⟨chunkReadString_null read null,null⟩

theorem stringEntries_success {count pos next : Nat} {found : List (Option (List UInt8))}
    (run : ((readStringEntry data spare).times count).run pos = (.ok found,next)) :
    (∀ str ∈ found, str.isSome ∧ (str.getD []).length < 2 ^ 32) ∧
      next ≤ pos + (found.map fun str => 1 + ((str.getD []).length + 3) % 2 ^ 32 / 4).sum := by
  induction count generalizing pos found with
  | zero =>
    cases run
    exact ⟨nofun,Nat.le_add_right _ _⟩
  | succ count ih =>
    obtain ⟨first,between,one,run⟩ := Action.bind_success run
    obtain ⟨rest,more,rfl⟩ := return_success run
    obtain ⟨there,short,step⟩ := stringEntry_success one
    obtain ⟨others,steps⟩ := ih more
    refine ⟨List.forall_mem_cons.mpr ⟨⟨there,short⟩,others⟩,?_⟩
    rw [List.map_cons,List.sum_cons]
    omega

/-- A count that an `int` carries is allocated only where it is not negative. -/
theorem allocArray_few {count pos next : Nat} {message : String} {answer : Unit}
    (granted : (allocArray count 8 message).run pos = (.ok answer,next)) (fits : IntCount count) :
    count < 2 ^ 31 ∧ next = pos := by
  simp only [allocArray] at granted
  split at granted
  · cases granted
    rw [IntCount] at fits
    exact ⟨by omega,rfl⟩
  · split at granted <;> cases granted

/-- The words of strings, counted without a wrap. -/
theorem length_stringWords {strings : List (Option (List UInt8))} {parts : List (List UInt32)}
    (stored : List.Forall₂ StringWords strings parts) :
    parts.flatten.length = (strings.map fun str => 1 + ((stringBytes str).length + 3) / 4).sum := by
  induction stored with
  | nil => rfl
  | cons first _ ih =>
    obtain ⟨packed,rfl,packs⟩ := first
    rw [List.flatten_cons,List.length_append,List.length_cons,packs.1,ih,List.map_cons,List.sum_cons]
    omega

theorem rounded_sum_le (strings : List (Option (List UInt8))) :
    (strings.map fun str => 1 + ((stringBytes str).length + 3) % 2 ^ 32 / 4).sum ≤
      (strings.map fun str => 1 + ((stringBytes str).length + 3) / 4).sum := by
  induction strings with
  | nil => exact Nat.le_refl 0
  | cons str rest ih =>
    rw [List.map_cons,List.map_cons,List.sum_cons,List.sum_cons]
    omega

/-- Where no string takes more words read than written, and all of them no fewer, each takes the same. -/
theorem fits_of_total {strings : List (Option (List UInt8))}
    (there : ∀ str ∈ strings, str.isSome ∧ (stringBytes str).length < 2 ^ 32)
    (total : (strings.map fun str => 1 + ((stringBytes str).length + 3) / 4).sum ≤
      (strings.map fun str => 1 + ((stringBytes str).length + 3) % 2 ^ 32 / 4).sum) : ∀ str ∈ strings, StringFits str := by
  induction strings with
  | nil => exact nofun
  | cons str rest ih =>
    rw [List.forall_mem_cons] at there ⊢
    have fewer := rounded_sum_le rest
    rw [List.map_cons,List.map_cons,List.sum_cons,List.sum_cons] at total
    refine ⟨?_,ih there.2 (by omega)⟩
    obtain ⟨⟨some',short⟩,_⟩ := there
    obtain ⟨chars,rfl⟩ := Option.isSome_iff_exists.mp some'
    have length : (stringBytes (some chars)).length = chars.length + 1 := List.length_append
    refine ⟨chars,rfl,?_⟩
    omega

end Reading

section Returning
variable {around : Surroundings} {c c' : Chunk}

/-- What an array that was accepted put in the data. A null array with no strings is an empty one. -/
theorem stringArray_put {array : Option (List (Option (List UInt8)))}
    (written : (chunkWriteStringArray around array (array.getD []).length).run c = (.ok (),c')) :
    ∃ parts, List.Forall₂ StringWords (array.getD []) parts ∧
      Put c c' (chunkGetPosition c) (UInt32.ofNat (array.getD []).length :: parts.flatten) := by
  have started : ∃ state, c.parserState = some state := by
    cases held : c.parserState with
    | some state => exact ⟨state,rfl⟩
    | none =>
      have refused := @writeWords_bare around [UInt32.ofNat (array.getD []).length] c held
      cases array with
      | none =>
        rw [show (chunkWriteStringArray around none (Option.getD none []).length).run c = _ from refused] at written
        cases written
      | some strings =>
        obtain ⟨_,_,counted,_⟩ := Action.bind_success written
        rw [show (chunkWriteDword around (UInt32.ofNat ((some strings).getD []).length)).run c = _ from refused] at counted
        cases counted
  obtain ⟨state,held⟩ := started
  have place : c.parserState.map ParserState.currentPos = some (chunkGetPosition c) := by
    rw [chunkGetPosition,held]
    rfl
  cases array with
  | none =>
    obtain ⟨_,rfl,put⟩ := @putting_writeWords around [0] c c' _ place written
    exact ⟨[],.nil,put⟩
  | some strings =>
    obtain ⟨_,⟨parts,rfl,all⟩,put⟩ := putting_stringArray strings c c' _ place written
    exact ⟨parts,all,put⟩

end Returning

/-- The strings that an array was written with come back, and the position with them, exactly when they are
fewer than 2^31, none of them is absent and none has a length that wraps when it is rounded. -/
theorem stringArray_returns_iff (around : Surroundings) (c c' : Chunk) (array : Option (List (Option (List UInt8))))
    (written : (chunkWriteStringArray around array (array.getD []).length).run c = (.ok (),c')) :
    StringsReturn c' (chunkGetPosition c) (array.getD []) ↔
      (array.getD []).length < 2 ^ 31 ∧ ∀ str ∈ array.getD [], StringFits str := by
  obtain ⟨parts,stored,put⟩ := stringArray_put written
  generalize array.getD [] = strings at stored put
  have ahead := put.ahead (List.cons_ne_nil _ _)
  rw [StringsReturn,onPosition_back put (List.cons_ne_nil _ _)]
  constructor
  · intro run
    obtain ⟨count,middle,counted,run⟩ := Action.bind_success run
    have first : (chunkReadObjectSequenceStart c'.words).run (chunkGetPosition c) =
        (.ok (extended (UInt32.ofNat strings.length)),chunkGetPosition c + 1) := Reads.stops (reads_extended _) ahead
    rw [first] at counted
    cases counted
    by_cases none : extended (UInt32.ofNat strings.length) = 0
    · rw [if_pos none] at run
      simp only [Action.pure_apply,Prod.mk.injEq,Except.ok.injEq] at run
      have empty : strings = [] := List.length_eq_zero_iff.mp run.1.2.symm
      rw [empty]
      exact ⟨by decide,nofun⟩
    · rw [if_neg none] at run
      obtain ⟨_,start,granted,run⟩ := Action.bind_success run
      obtain ⟨found,entries,same⟩ := return_success run
      obtain ⟨few,rfl⟩ := allocArray_few granted (intCount_extended _)
      have count := congrArg Prod.snd same
      change strings.length = extended _ at count
      have array := congrArg Prod.fst same
      rw [← count] at few none
      obtain ⟨there,steps⟩ := stringEntries_success entries
      have listed : found = strings.map (Option.map (· ++ [0])) := by
        cases strings with
        | nil => exact absurd rfl none
        | cons first rest => exact (Option.some.inj array).symm
      subst listed
      rw [List.forall_mem_map] at there
      rw [List.length_cons,length_stringWords stored,List.map_map] at steps
      refine ⟨few,fits_of_total (fun str member => ?_) ?_⟩
      · obtain ⟨isSome,short⟩ := there str member
        rw [Option.isSome_map] at isSome
        exact ⟨isSome,short⟩
      · change _ ≤ _ + (strings.map fun str => 1 + ((stringBytes str).length + 3) % 2 ^ 32 / 4).sum at steps
        omega
  · rintro ⟨few,fits⟩
    exact Reads.stops (reads_stringArray stored few fits) ahead

theorem stringArray_returns_started :
    let c := (chunkStartWrite {}).run chunkCreate |>.2
    let c' := ((chunkWriteStringArray {} (some [some [97],some []]) 2).run c).2
    StringsReturn c' (chunkGetPosition c) [some [97],some []] ↔
      [some [97],some []].length < 2 ^ 31 ∧ ∀ str ∈ [some [97],some []], StringFits str :=
  stringArray_returns_iff {} _ _ (some [some [97],some []]) rfl

/-- An absent string is written, and the read of the array fails at it. -/
theorem stringArray_absent :
    let c := (chunkStartWrite {}).run chunkCreate |>.2
    let c' := ((chunkWriteStringArray {} (some [none]) 1).run c).2
    ((chunkWriteStringArray {} (some [none]) 1).run c).1 = .ok () ∧
      ((chunkGoto (chunkGetPosition c) >>= fun _ => onPosition chunkReadStringArray).run c').1 =
        .error (.error .invalidFormat "Failed to read string") ∧
      ¬ StringsReturn c' (chunkGetPosition c) [none] := by
  refine ⟨rfl,rfl,fun same => ?_⟩
  have outcome := congrArg Prod.fst same
  cases outcome

end Libnmo.Format
