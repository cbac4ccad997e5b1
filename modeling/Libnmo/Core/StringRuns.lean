import Libnmo.Core.StringCalls

/-! Runs of calls on a string. The terminator stands behind the text after every call but
a format that is refused memory where an old text stood. -/
namespace Libnmo.Core
open Lib Lib.Occurrences NmoString

/-- The calls that change a string, each with the allocator as it is then. -/
inductive StringOp where
  | dispose
  | reserve (allocator : BlockSource) (capacity : Nat)
  | shrinkToFit (allocator : BlockSource)
  | data
  | clear
  | assign (allocator : BlockSource) (cstr : Option (List UInt8))
  | assignLen (allocator : BlockSource) (view : StringView)
  | assignView (allocator : BlockSource) (view : StringView)
  | copy (allocator : BlockSource) (src : Option NmoString)
  | append (allocator : BlockSource) (cstr : Option (List UInt8))
  | appendLen (allocator : BlockSource) (view : StringView)
  | appendView (allocator : BlockSource) (view : StringView)
  | appendChar (allocator : BlockSource) (ch : UInt8)
  | insert (allocator : BlockSource) (index : Nat) (view : StringView)
  | erase (index length : Nat)
  | replace (allocator : BlockSource) (index length : Nat) (view : StringView)
  | replaceAll (fuel : Nat) (allocators : Nat → BlockSource) (needle replacement : StringView)
  | substr (allocator : BlockSource) (src : NmoString) (start length : Nat)
  | toUpper
  | toLower
  | trimLeft
  | trimRight
  | trim
  | format (allocator : BlockSource) (printed : Option (List UInt8))
  | appendFormat (allocator : BlockSource) (printed : Option (List UInt8))
  | popBack

def stringStep : StringOp → Run NmoString Unit
  | .dispose => nmoStringDispose
  | .reserve allocator capacity => nmoStringReserve allocator capacity
  | .shrinkToFit allocator => nmoStringShrinkToFit allocator
  | .data => nmoStringData
  | .clear => nmoStringClear
  | .assign allocator cstr => nmoStringAssign allocator cstr
  | .assignLen allocator view => nmoStringAssignLen allocator view
  | .assignView allocator view => nmoStringAssignView allocator view
  | .copy allocator src => nmoStringCopy allocator src
  | .append allocator cstr => nmoStringAppend allocator cstr
  | .appendLen allocator view => nmoStringAppendLen allocator view
  | .appendView allocator view => nmoStringAppendView allocator view
  | .appendChar allocator ch => nmoStringAppendChar allocator ch
  | .insert allocator index view => nmoStringInsert allocator index view
  | .erase index length => nmoStringErase index length
  | .replace allocator index length view => nmoStringReplace allocator index length view
  | .replaceAll fuel allocators needle replacement => do
    let _ ← nmoStringReplaceAll fuel allocators needle replacement
    pure ()
  | .substr allocator src start length => nmoStringSubstr allocator src start length
  | .toUpper => nmoStringToUpper
  | .toLower => nmoStringToLower
  | .trimLeft => nmoStringTrimLeft
  | .trimRight => nmoStringTrimRight
  | .trim => nmoStringTrim
  | .format allocator printed => nmoStringFormat allocator printed
  | .appendFormat allocator printed => nmoStringAppendFormat allocator printed
  | .popBack => do
    let _ ← nmoStringPopBack
    pure ()

/-- The memory that a call is given is there, an `int` holds what is printed, and a loop has the fuel for the text. -/
def StringOp.Called (string : NmoString) : StringOp → Prop
  | .reserve allocator _ | .shrinkToFit allocator | .appendChar allocator _ => allocator.Bounded
  | .assign allocator cstr | .append allocator cstr => allocator.Bounded ∧ ∀ text ∈ cstr, text.length < 2 ^ 63
  | .assignLen allocator view | .assignView allocator view | .appendLen allocator view | .appendView allocator view
  | .insert allocator _ view | .replace allocator _ _ view => allocator.Bounded ∧ view.Sound
  | .copy allocator src => allocator.Bounded ∧ ∀ string ∈ src, string.Sound
  | .replaceAll fuel allocators needle replacement =>
    (∀ round, (allocators round).Bounded) ∧ needle.Sound ∧ replacement.Sound ∧ string.length < fuel
  | .substr allocator src _ _ => allocator.Bounded ∧ src.Sound
  | .format allocator printed | .appendFormat allocator printed =>
    allocator.Bounded ∧ ∀ text ∈ printed, text.length < 2 ^ 31
  | _ => True

/-- The call returns, and whatever it reports it leaves a sound string. -/
def KeepsString (op : StringOp) (string : NmoString) : Prop :=
  Action.Ends (stringStep op) string (fun _ after => after.Sound)
    fun stop after => (∃ code message, stop = .error code message) ∧ after.Sound

/-- What is formatted has room, or there is no old text whose first byte would lie where the terminator belongs. -/
def FormatFine (string : NmoString) : StringOp → Prop
  | .format allocator (some printed) =>
    RoomGiven allocator string.capacity printed.length ∨ ∀ bytes ∈ string.data, bytes[0]? = some 0
  | _ => True

section
variable {string : NmoString} {op : StringOp}

/-- A call that makes another text of the string, or changes nothing. -/
theorem keeps_of_ends {α : Type} {action : Run NmoString α} {text : α → List UInt8}
    (ends : Action.Ends action string (fun a after => HoldsText after (text a)) (Unchanged string)) (sound : string.Sound) :
    Action.Ends action string (fun _ after => after.Sound)
      fun stop after => (∃ code message, stop = .error code message) ∧ after.Sound := by
  refine ends.imp (fun _ _ held => held.sound) ?_
  rintro stop after ⟨reports,rfl⟩
  exact ⟨reports,sound⟩

theorem NmoString.Sound.emptied (sound : string.Sound) (first : ∀ bytes ∈ string.data, bytes[0]? = some 0) :
    NmoString.Sound { string with length := 0 } :=
  ⟨⟨sound.small,sound.size,sound.null⟩,Nat.zero_le _,first⟩

theorem cstrView_sound {text : List UInt8} (small : text.length < 2 ^ 63) : (cstrView text).Sound :=
  ⟨fun _ same => Nat.le_of_eq (congrArg List.length (Option.some.inj same)),small⟩

theorem format_keeps {allocator : BlockSource} {printed : List UInt8} (sound : string.Sound) (bounded : allocator.Bounded)
    (small : printed.length < 2 ^ 31) : KeepsString (.format allocator (some printed)) string ↔
      FormatFine string (.format allocator (some printed)) := by
  have ends := format_ends bounded sound.holds small
  rw [Action.Ends] at ends
  rw [KeepsString,stringStep,Action.Ends]
  split at ends
  · exact ⟨fun _ => .inl ends.2,fun _ => ends.1.sound⟩
  · obtain ⟨⟨message,reports⟩,rfl,refused⟩ := ends
    constructor
    · rintro ⟨_,after⟩
      exact .inr after.ended
    · intro fine
      refine ⟨⟨_,message,reports⟩,sound.emptied ?_⟩
      rcases refused with null | never
      · rw [null]
        rintro _ ⟨⟩
      · exact fine.resolve_left never

/-- All calls but the format of a text leave a sound string. -/
theorem step_keeps (sound : string.Sound) (called : op.Called string) (other : ∀ allocator printed, op ≠ .format allocator (some printed)) :
    KeepsString op string := by
  have holds := sound.holds
  cases op with
  | dispose => exact ⟨⟨(by decide : 0 + 1 < 2 ^ 63),nofun,fun _ => rfl⟩,Nat.le_refl _,nofun⟩
  | reserve allocator capacity =>
    refine (ensureCapacity_ends called holds.toLaysText).imp (fun _ _ made => made.1.sound) ?_
    rintro stop after ⟨⟨message,reports⟩,rfl,_⟩
    exact ⟨⟨_,message,reports⟩,sound⟩
  | shrinkToFit allocator => exact keeps_of_ends (shrinkToFit_ends holds) sound
  | data => exact keeps_of_ends (data_ends holds) sound
  | clear => exact keeps_of_ends (clear_ends holds) sound
  | assign allocator cstr =>
    cases cstr with
    | none => exact keeps_of_ends (clear_ends holds) sound
    | some text => exact keeps_of_ends (assignLen_ends called.1 (cstrView_sound (called.2 text rfl)) holds) sound
  | assignLen allocator view => exact keeps_of_ends (assignLen_ends called.1 called.2 holds) sound
  | assignView allocator view =>
    rw [KeepsString,stringStep,nmoStringAssignView]
    split
    · exact keeps_of_ends (assignLen_ends called.1 ⟨nofun,(by decide : 0 < 2 ^ 63)⟩ holds) sound
    · exact keeps_of_ends (assignLen_ends called.1 called.2 holds) sound
  | copy allocator src =>
    cases src with
    | none => exact ⟨⟨_,_,rfl⟩,sound⟩
    | some src =>
      have from_sound := called.2 src rfl
      have room := from_sound.room
      have small := from_sound.small
      have view_sound : StringView.Sound ⟨src.data,src.length⟩ := by
        refine ⟨fun bytes data => ?_,Nat.lt_of_le_of_lt room (Nat.lt_of_succ_lt small)⟩
        rw [from_sound.size bytes data]
        exact Nat.le_succ_of_le room
      exact keeps_of_ends (assignLen_ends called.1 view_sound holds) sound
  | append allocator cstr =>
    cases cstr with
    | none => exact sound
    | some text => exact keeps_of_ends (appendLen_ends called.1 (cstrView_sound (called.2 text rfl)) holds) sound
  | appendLen allocator view => exact keeps_of_ends (appendLen_ends called.1 called.2 holds) sound
  | appendView allocator view => exact keeps_of_ends (appendLen_ends called.1 called.2 holds) sound
  | appendChar allocator ch => exact keeps_of_ends (appendChar_ends called ch holds) sound
  | insert allocator index view => exact keeps_of_ends (insert_ends called.1 called.2 holds) sound
  | erase index length => exact keeps_of_ends (erase_ends holds) sound
  | replace allocator index length view =>
    by_cases given : view.Given
    · by_cases inside : index ≤ string.text.length
      · refine (replace_ends length called.1 called.2 given holds inside).imp (fun _ _ held => held.sound) ?_
        rintro stop after ⟨⟨message,reports⟩,rfl,_⟩
        exact ⟨⟨_,message,reports⟩,sound⟩
      · rw [KeepsString,stringStep]
        refine Action.ends_run (Action.read_apply id string) ?_
        simp only [id]
        rw [if_pos (by rw [holds.length]; exact Nat.lt_of_not_le inside)]
        exact ⟨⟨_,_,rfl⟩,sound⟩
    · rw [StringView.Given,not_or,not_not] at given
      refine (replace_refused ⟨Nat.pos_of_ne_zero given.1,given.2⟩).imp (fun _ _ never => never.elim) ?_
      rintro stop after ⟨reports,rfl⟩
      exact ⟨reports,sound⟩
  | replaceAll fuel allocators needle replacement =>
    obtain ⟨bounded,needle_sound,replacement_sound,enough⟩ := called
    exact Action.ends_bind (replaceAll_sound bounded needle_sound replacement_sound (holds.length ▸ enough) holds)
      fun _ _ kept => kept
  | substr allocator src start length =>
    refine (substr_ends called.1 called.2 start length holds).imp ?_ ?_
    · rintro _ after ⟨text,held⟩
      exact held.sound
    · rintro stop after ⟨reports,rfl⟩
      exact ⟨reports,sound⟩
  | toUpper => exact keeps_of_ends (changeBytes_ends toupper holds) sound
  | toLower => exact keeps_of_ends (changeBytes_ends tolower holds) sound
  | trimLeft => exact keeps_of_ends (trimLeft_ends holds) sound
  | trimRight => exact keeps_of_ends (trimRight_ends holds) sound
  | trim => exact keeps_of_ends (Action.ends_bind (trimRight_ends holds) fun _ _ held => trimLeft_ends held) sound
  | format allocator printed =>
    cases printed with
    | none => exact ⟨⟨_,_,rfl⟩,sound⟩
    | some printed => exact absurd rfl (other allocator printed)
  | appendFormat allocator printed =>
    cases printed with
    | none => exact ⟨⟨_,_,rfl⟩,sound⟩
    | some printed => exact keeps_of_ends (appendFormat_ends called.1 holds (called.2 printed rfl)) sound
  | popBack =>
    exact Action.ends_bind (keeps_of_ends (popBack_ends holds) sound) fun _ _ kept => kept

theorem step_keeps_iff (sound : string.Sound) (called : op.Called string) : KeepsString op string ↔ FormatFine string op := by
  cases op with
  | format allocator printed =>
    cases printed with
    | none => exact iff_of_true (step_keeps sound called nofun) trivial
    | some printed => exact format_keeps sound called.1 (called.2 printed rfl)
  | _ => exact iff_of_true (step_keeps sound called nofun) trivial

/-- The string after a run of calls, whatever they report. -/
def stringRun (string : NmoString) (ops : List StringOp) : NmoString := ops.foldl (fun string op => ((stringStep op).run string).2) string

/-- Each call of a run is made as it should be, and a format is fine where it is made. -/
def RunFine : NmoString → List StringOp → Prop
  | _,[] => True
  | string,op :: ops => op.Called string ∧ FormatFine string op ∧ RunFine ((stringStep op).run string).2 ops

theorem stringRun_sound {ops : List StringOp} (sound : string.Sound) (fine : RunFine string ops) : (stringRun string ops).Sound := by
  induction ops generalizing string with
  | nil => exact sound
  | cons op ops ih =>
    obtain ⟨called,format,rest⟩ := fine
    have kept := (step_keeps_iff sound called).mpr format
    rw [KeepsString,Action.Ends] at kept
    have after : ((stringStep op).run string).2.Sound := by
      split at kept <;> rename_i ran <;> rw [ran]
      · exact kept
      · exact kept.2
    exact ih after rest

end

/-- The allocator that gives nothing. -/
def noBlock : BlockSource := ⟨fun _ _ => none,nofun⟩

end Libnmo.Core
