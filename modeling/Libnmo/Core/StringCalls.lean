import Libnmo.Core.StringEdits

/-! All calls that change a string. Each leaves a string that is sound, whatever it reports;
a format gives up the old text first, and when it is then refused memory the terminator is
where the old text ended. -/
namespace Libnmo.Core
open Lib Lib.Cursor Lib.Patch Lib.Occurrences NmoString

section
variable {string : NmoString} {text bytes printed : List UInt8} {allocator : BlockSource} {view : StringView}
  {stops : Stop → NmoString → Prop}

/-- The length cut back to that of a front of the text, and the terminator written there. -/
theorem cut_run {front : List UInt8} (holds : HoldsText string text) (data : string.data = some bytes) (part : front <+: text) :
    ∃ after, (do
      setLength front.length
      writeBytes front.length [0]).run string = (.ok (),after) ∧ HoldsText after front := by
  have all : string.bytes = bytes := by rw [NmoString.bytes,data]; rfl
  have before : front <+: bytes := part.trans ((List.prefix_append ..).trans (holds.ended bytes data))
  have laid : LaysText { string with length := front.length } front :=
    ⟨⟨holds.small,holds.size,holds.null⟩,rfl,all ▸ before,Nat.le_trans part.length_le holds.room⟩
  obtain ⟨after,ran,holds',_⟩ := terminate_run laid data
  exact ⟨after,ran,holds'⟩

theorem shrinkToFit_ends (holds : HoldsText string text) :
    Action.Ends (nmoStringShrinkToFit allocator) string (fun _ after => HoldsText after text) (Unchanged string) := by
  refine Action.ends_run (Action.read_apply id string) ?_
  simp only [id]
  split
  · rename_i zero
    obtain rfl : text = [] := List.length_eq_zero_iff.mp (holds.length ▸ zero)
    exact ⟨⟨⟨(by decide : 0 + 1 < 2 ^ 63),fun _ same => (by cases same),fun _ => rfl⟩,zero,List.nil_prefix,Nat.zero_le _⟩,
      fun _ same => (by cases same)⟩
  rename_i some_there
  split
  · exact holds
  cases asked : allocator.give (string.length + 1) 1 with
  | none => exact ⟨⟨_,_,rfl⟩,rfl⟩
  | some block =>
    have nonempty : text ≠ [] := fun nothing => some_there (by rw [holds.length,nothing]; rfl)
    obtain ⟨bytes,data⟩ := holds.data_some nonempty
    have all : string.bytes = bytes := by rw [NmoString.bytes,data]; rfl
    have size := allocator.length_give asked
    have whole := holds.size bytes data
    have room := holds.room
    have length := holds.length
    have front : text <+: bytes := (List.prefix_append ..).trans (holds.ended bytes data)
    have same : bytes.take string.length = text := by rw [length,← List.prefix_iff_eq_take.mp front]
    have fits : ([] : List UInt8).length + text.length ≤ block.length := by
      rw [List.length_nil]
      omega
    have copied : copyBytes block string.bytes string.length = .ok (overwrite block ([] : List UInt8).length text) := by
      rw [copyBytes,all,if_neg (by omega),if_neg (by omega),same]
      rfl
    have laid : LaysText { string with data := some (overwrite block ([] : List UInt8).length text), capacity := string.length } text := by
      refine ⟨⟨?_,?_,fun null => (by cases null)⟩,length,prefix_overwrite List.nil_prefix fits,Nat.le_of_eq length.symm⟩
      · exact Nat.lt_of_le_of_lt (Nat.add_le_add_right (length ▸ room) 1) holds.small
      · intro other same
        rw [← Option.some.inj same,length_overwrite _ _ _ fits,size]
    obtain ⟨after,ran,holds',_⟩ := terminate_run laid rfl
    refine Action.ends_run (by rw [Action.lift_apply,copied]) (Action.ends_run (Action.update_apply _ _) ?_)
    rw [← length] at ran
    rw [Action.Ends,ran]
    exact holds'

theorem data_ends (holds : HoldsText string text) :
    Action.Ends nmoStringData string (fun _ after => HoldsText after text) stops := by
  refine Action.ends_run (Action.read_apply id string) ?_
  simp only [id]
  split
  · exact holds
  · rename_i there
    obtain ⟨bytes,data⟩ := Option.ne_none_iff_exists'.mp there
    obtain ⟨after,ran,holds',_⟩ := terminate_run holds.toLaysText data
    rw [holds.length,Action.Ends,ran]
    exact holds'

theorem clear_ends (holds : HoldsText string text) :
    Action.Ends nmoStringClear string (fun _ after => HoldsText after []) stops := by
  refine Action.ends_run (Action.update_apply _ _) (Action.ends_run (Action.read_apply id _) ?_)
  simp only [id]
  split
  · rename_i null
    exact ⟨⟨⟨holds.small,holds.size,holds.null⟩,rfl,List.nil_prefix,Nat.zero_le _⟩,by simp only [null]; exact nofun⟩
  · rename_i there
    obtain ⟨bytes,data⟩ := Option.ne_none_iff_exists'.mp there
    have laid : LaysText { string with length := 0 } [] :=
      ⟨⟨holds.small,holds.size,holds.null⟩,rfl,List.nil_prefix,Nat.zero_le _⟩
    obtain ⟨after,ran,holds',_⟩ := terminate_run laid data
    change Action.Ends (writeBytes ([] : List UInt8).length [0]) _ _ _
    rw [Action.Ends,ran]
    exact holds'

theorem changeBytes_ends (f : UInt8 → UInt8) (holds : HoldsText string text) :
    Action.Ends (changeBytes f) string (fun _ after => HoldsText after (text.map f)) stops := by
  refine Action.ends_run (Action.read_apply id string) ?_
  simp only [id]
  split
  · rename_i null
    obtain rfl := holds.of_null null
    exact holds
  · rename_i there
    obtain ⟨bytes,data⟩ := Option.ne_none_iff_exists'.mp there
    have ended := holds.ended bytes data
    have size := ended.length_le
    rw [List.length_append] at size
    have read := readBytes_run [] data ((List.prefix_append ..).trans ended)
    rw [← holds.length] at read
    have fits : ([] : List UInt8).length + (text.map f).length ≤ bytes.length := by
      rw [List.length_nil,List.length_map]
      omega
    have shaped := holds.toShaped.overwritten data fits
    have ended' : text.map f ++ [0] <+: overwrite bytes ([] : List UInt8).length (text.map f) := by
      obtain ⟨rest,rfl⟩ := ended
      rw [overwrite,List.length_nil,List.length_map,Nat.zero_add,List.append_assoc text,List.drop_left,List.take_zero,
        List.nil_append,← List.append_assoc]
      exact List.prefix_append ..
    refine Action.ends_run read ?_
    rw [Action.Ends,show writeBytes 0 (text.map f) = writeBytes ([] : List UInt8).length (text.map f) from rfl,
      write_run data fits]
    refine ⟨⟨shaped,by rw [List.length_map]; exact holds.length,(List.prefix_append ..).trans ended',?_⟩,?_⟩
    · rw [List.length_map]
      exact holds.room
    · intro other same
      exact Option.some.inj same ▸ ended'

theorem trimLeft_ends (holds : HoldsText string text) :
    Action.Ends nmoStringTrimLeft string (fun _ after => HoldsText after (text.dropWhile isspace)) stops := by
  refine Action.ends_run (Action.read_apply id string) ?_
  simp only [id]
  split
  · rename_i null
    obtain rfl := holds.of_null null
    exact holds
  rename_i there
  obtain ⟨bytes,data⟩ := Option.ne_none_iff_exists'.mp there
  have read := readBytes_run [] data ((List.prefix_append ..).trans (holds.ended bytes data))
  rw [← holds.length] at read
  refine Action.ends_run read ?_
  have cut : text.takeWhile isspace ++ text.dropWhile isspace = text := List.takeWhile_append_dropWhile
  split
  · rename_i zero
    rw [List.length_eq_zero_iff.mp zero,List.nil_append] at cut
    rw [cut]
    exact holds
  · have sizes := congrArg List.length cut
    rw [List.length_append,← holds.length] at sizes
    have left : string.length - (text.takeWhile isspace).length = (text.dropWhile isspace).length := by omega
    have closed := @close_ends _ [] (text.takeWhile isspace) (text.dropWhile isspace) bytes stops (cut.symm ▸ holds) data
    rw [List.length_nil,Nat.zero_add,Nat.zero_add] at closed
    rw [left]
    exact closed

theorem trimRight_ends (holds : HoldsText string text) :
    Action.Ends nmoStringTrimRight string (fun _ after => HoldsText after (text.rdropWhile isspace)) stops := by
  refine Action.ends_run (Action.read_apply id string) ?_
  simp only [id]
  split
  · rename_i nothing
    have empty : text = [] := by
      rcases nothing with null | zero
      · exact holds.of_null null
      · exact List.length_eq_zero_iff.mp (holds.length ▸ zero)
    subst empty
    exact holds
  rename_i there
  obtain ⟨bytes,data⟩ := Option.ne_none_iff_exists'.mp fun null => there (.inl null)
  have read := readBytes_run [] data ((List.prefix_append ..).trans (holds.ended bytes data))
  rw [← holds.length] at read
  refine Action.ends_run read ?_
  have part : text.rdropWhile isspace <+: text := List.rdropWhile_prefix _ _
  split
  · rename_i same
    rw [part.eq_of_length (same.trans holds.length)]
    exact holds
  · obtain ⟨after,ran,holds'⟩ := cut_run holds data part
    rw [Action.Ends,ran]
    exact holds'

theorem popBack_ends (holds : HoldsText string text) :
    Action.Ends nmoStringPopBack string (fun _ after => HoldsText after text.dropLast) (Unchanged string) := by
  refine Action.ends_run (Action.read_apply id string) ?_
  simp only [id]
  split
  · exact ⟨⟨_,_,rfl⟩,rfl⟩
  rename_i there
  have nonempty : text ≠ [] := fun nothing => there (.inl (by rw [holds.length,nothing]; rfl))
  obtain ⟨bytes,data⟩ := holds.data_some nonempty
  have split := List.dropLast_append_getLast nonempty
  have front : text.dropLast ++ [text.getLast nonempty] <+: bytes := by
    rw [split]
    exact (List.prefix_append ..).trans (holds.ended bytes data)
  have shorter : string.length - 1 = text.dropLast.length := by rw [holds.length,List.length_dropLast]
  have read := readBytes_run _ data front
  obtain ⟨after,ran,holds'⟩ := cut_run holds data (List.dropLast_prefix text)
  rw [shorter]
  refine Action.ends_run read ?_
  rw [← Action.bind_assoc]
  exact Action.ends_run ran holds'

theorem substr_ends (bounded : allocator.Bounded) {src : NmoString} (sound : src.Sound) (start length : Nat)
    (holds : HoldsText string text) : Action.Ends (nmoStringSubstr allocator src start length) string
      (fun _ after => ∃ text, HoldsText after text) (Unchanged string) := by
  rw [nmoStringSubstr]
  split
  · exact ⟨⟨_,_,rfl⟩,rfl⟩
  rename_i within
  have room := sound.room
  have small := sound.small
  obtain ⟨actual,least⟩ : ∃ actual, actual = if length > src.length - start then src.length - start else length := ⟨_,rfl⟩
  have inside : actual ≤ src.length - start := by
    rw [least]
    split <;> omega
  simp only [← least]
  split
  · exact (clear_ends holds).imp (fun _ _ cleared => ⟨_,cleared⟩) fun _ _ stopped => stopped
  · have view_sound : StringView.Sound ⟨src.data.map (List.drop start),actual⟩ := by
      refine ⟨fun memory there => ?_,by simp only; omega⟩
      obtain ⟨bytes,data,rfl⟩ := Option.map_eq_some_iff.mp there
      have size := sound.size bytes data
      rw [List.length_drop]
      simp only
      omega
    exact (assignLen_ends bounded view_sound holds).imp (fun _ _ assigned => ⟨_,assigned⟩) fun _ _ stopped => stopped

/-- The old text is given up; the new one stands there where the room for it is given. -/
theorem format_ends (bounded : allocator.Bounded) (holds : HoldsText string text) (small : printed.length < 2 ^ 31) :
    Action.Ends (nmoStringFormat allocator (some printed)) string
      (fun _ after => HoldsText after printed ∧ RoomGiven allocator string.capacity printed.length)
      (fun stop after => (∃ message, stop = .error .nomem message) ∧ after = { string with length := 0 } ∧
        (string.data = none ∨ ¬ RoomGiven allocator string.capacity printed.length)) := by
  refine Action.ends_run (Action.read_apply id string) ?_
  have total : (0 + printed.length) % 2 ^ 64 = printed.length := by omega
  have laid : LaysText { string with length := 0 } [] :=
    ⟨⟨holds.small,holds.size,holds.null⟩,rfl,List.nil_prefix,Nat.zero_le _⟩
  simp only [Bool.false_eq_true,if_false,total]
  refine Action.ends_run (Action.update_apply _ _) (Action.ends_bind ((prepareWrite_ends bounded laid).imp
    (fun _ _ made => made) ?_) ?_)
  · rintro stop after ⟨reports,same,refused,_⟩
    exact ⟨reports,same,refused⟩
  rintro _ after ⟨holds',enough,⟨bytes,data⟩,given⟩
  have size := holds'.size bytes data
  have fits : ([] : List UInt8).length + (printed ++ [0]).length ≤ bytes.length := by
    rw [List.length_append,List.length_nil,List.length_singleton]
    omega
  refine Action.ends_run (Action.read_apply id after) ?_
  simp only [id,Nat.sub_zero]
  rw [List.take_of_length_le enough]
  refine Action.ends_run (write_run data fits) ?_
  have front : printed <+: overwrite bytes ([] : List UInt8).length (printed ++ [0]) :=
    (List.prefix_append ..).trans (prefix_overwrite List.nil_prefix fits)
  exact (finish_ends (holds'.toShaped.overwritten data fits) rfl front enough).imp (fun _ _ held => ⟨held,given⟩)
    fun _ _ stopped => stopped

theorem appendFormat_ends (bounded : allocator.Bounded) (holds : HoldsText string text) (small : printed.length < 2 ^ 31) :
    Action.Ends (nmoStringAppendFormat allocator (some printed)) string (fun _ after => HoldsText after (text ++ printed))
      (Unchanged string) := by
  have room := holds.length_lt
  have total : (text.length + printed.length) % 2 ^ 64 = (text ++ printed).length :=
    length_mod List.length_append.symm (by rw [List.length_append]; omega)
  refine Action.ends_run (Action.read_apply id string) ?_
  simp only [if_true,id,holds.length,total]
  refine Action.ends_run (Action.pure_apply _ _) (Action.ends_bind (prepareWrite_unchanged bounded holds.toLaysText) ?_)
  rintro _ after ⟨holds',enough,bytes,data⟩
  have size := holds'.size bytes data
  have before : text <+: bytes := (List.prefix_append ..).trans (holds'.ended bytes data)
  have sum : (text ++ printed).length = text.length + printed.length := List.length_append
  have fits : text.length + (printed ++ [0]).length ≤ bytes.length := by
    rw [List.length_append,List.length_singleton]
    omega
  refine Action.ends_run (Action.read_apply id after) ?_
  simp only [id]
  rw [List.take_of_length_le (by omega)]
  refine Action.ends_run (write_run data fits) ?_
  have written := prefix_overwrite before fits
  rw [← List.append_assoc] at written
  exact finish_ends (holds'.toShaped.overwritten data fits) rfl ((List.prefix_append ..).trans written) enough

/-- Whatever the needle and the replacement, the string stays sound. -/
theorem replaceAll_sound {allocators : Nat → BlockSource} (bounded : ∀ round, (allocators round).Bounded)
    {needle replacement : StringView} (sound : needle.Sound) (sound' : replacement.Sound) {fuel : Nat} (enough : text.length < fuel)
    (holds : HoldsText string text) : Action.Ends (nmoStringReplaceAll fuel allocators needle replacement) string
      (fun _ after => after.Sound) (fun stop after => (∃ code message, stop = .error code message) ∧ after.Sound) := by
  rw [nmoStringReplaceAll]
  split
  · exact ⟨⟨_,_,rfl⟩,holds.sound⟩
  rename_i positive
  obtain ⟨fuel,rfl⟩ : ∃ more, fuel = more + 1 := ⟨fuel - 1,by omega⟩
  by_cases there : needle.data = none
  · have never : nmoStringFind string needle 0 = .ok sizeMax := by
      rw [nmoStringFind]
      cases string.data with
      | none => rfl
      | some bytes =>
        simp only [there]
        rw [if_neg positive]
    refine Action.ends_run (Action.read_apply id string) (Action.ends_run (by rw [Action.lift_apply,id,never]) ?_)
    rw [if_pos rfl]
    exact holds.sound
  by_cases given : replacement.Given
  · refine (replaceFrom_ends [] bounded sound there positive sound' given enough holds).imp ?_ ?_
    · rintro count after ⟨_,_,held,_⟩
      exact held.sound
    · rintro stop after ⟨⟨message,reports⟩,after_sound,_⟩
      exact ⟨⟨_,message,reports⟩,after_sound⟩
  · -- the first occurrence is met with a null pointer
    have refused : replacement.length > 0 ∧ replacement.data = none := by
      rw [StringView.Given,not_or,not_not] at given
      exact ⟨Nat.pos_of_ne_zero given.1,given.2⟩
    refine Action.ends_run (Action.read_apply id string) ?_
    simp only [id]
    rcases find_spec 0 sound there positive holds (Nat.zero_le _) with ⟨place,found,some_there,first⟩ | ⟨none_there,_⟩
    · refine Action.ends_run (by rw [Action.lift_apply,found]) ?_
      rw [if_neg some_there]
      refine Action.ends_bind ((replace_refused refused).imp (fun _ _ never => never) ?_) fun _ _ never => never.elim
      rintro stop after ⟨reports,rfl⟩
      exact ⟨reports,holds.sound⟩
    · refine Action.ends_run (by rw [Action.lift_apply,none_there]) ?_
      rw [if_pos rfl]
      exact holds.sound

end

end Libnmo.Core
