import Libnmo.Core.NmoString
import Libnmo.Lib.Occurrences

/-! What the calls make of the text of a string. Each keeps the terminator behind the text
and the text within the capacity, but for a format that is refused memory. -/
namespace Libnmo.Core
open Lib Lib.Cursor Lib.Patch Lib.Doubling Lib.Occurrences NmoString

/-- A block of the size of the capacity and one byte more, no larger than `PTRDIFF_MAX`, or none. -/
structure NmoString.Shaped (string : NmoString) : Prop where
  small : string.capacity + 1 < 2 ^ 63
  size : ∀ bytes ∈ string.data, bytes.length = string.capacity + 1
  null : string.data = none → string.capacity = 0

/-- The length is within the capacity, and the terminator stands behind it. -/
structure NmoString.Sound (string : NmoString) : Prop extends NmoString.Shaped string where
  room : string.length ≤ string.capacity
  ended : ∀ bytes ∈ string.data, bytes[string.length]? = some 0

/-- The text at the front of the block. -/
def NmoString.text (string : NmoString) : List UInt8 := string.bytes.take string.length

/-- The text is laid at the front of the block, whatever stands behind it. -/
structure LaysText (string : NmoString) (text : List UInt8) : Prop extends NmoString.Shaped string where
  length : string.length = text.length
  front : text <+: string.bytes
  room : text.length ≤ string.capacity

/-- The text is laid and ends with the terminator. -/
structure HoldsText (string : NmoString) (text : List UInt8) : Prop extends LaysText string text where
  ended : ∀ bytes ∈ string.data, text ++ [0] <+: bytes

/-- The block for a capacity that is needed is there, or given. -/
def RoomGiven (allocator : BlockSource) (capacity needed : Nat) : Prop :=
  needed ≤ capacity ∨ ∃ target, stringTarget capacity needed = some target ∧ (allocator.give (target + 1) 1).isSome

/-- The allocator gives no object that is larger than `PTRDIFF_MAX`. -/
def BlockSource.Bounded (allocator : BlockSource) : Prop := ∀ size block, allocator.give size 1 = some block → size < 2 ^ 63

def BlockSource.Refuses (allocator : BlockSource) : Prop := ∃ size, allocator.give size 1 = none

/-- The bytes that a view shows. -/
def StringView.text (view : StringView) : List UInt8 := (view.data.getD []).take view.length

/-- Only an empty view may have a null pointer. -/
def StringView.Given (view : StringView) : Prop := view.length = 0 ∨ view.data ≠ none

/-- The memory is as long as the view says, and no larger than `PTRDIFF_MAX`. -/
structure StringView.Sound (view : StringView) : Prop where
  reach : ∀ memory ∈ view.data, view.length ≤ memory.length
  small : view.length < 2 ^ 63

/-- An error that is reported, with the string as it was. -/
def Unchanged (string : NmoString) (stop : Stop) (after : NmoString) : Prop :=
  (∃ code message, stop = .error code message) ∧ after = string

section
variable {string : NmoString} {text values bytes : List UInt8} {allocator : BlockSource} {needed : Nat}

theorem LaysText.of_null (laid : LaysText string text) (null : string.data = none) : text = [] := by
  have front := laid.front
  rw [NmoString.bytes,null] at front
  exact List.prefix_nil.mp front

theorem LaysText.text_eq (laid : LaysText string text) : string.text = text := by
  rw [NmoString.text,laid.length]
  exact (List.prefix_iff_eq_take.mp laid.front).symm

theorem HoldsText.sound (holds : HoldsText string text) : string.Sound where
  toShaped := holds.toShaped
  room := holds.length ▸ holds.room
  ended := by
    intro bytes there
    obtain ⟨rest,rfl⟩ := holds.ended bytes there
    rw [holds.length,List.append_assoc,List.getElem?_append_right (Nat.le_refl _),Nat.sub_self]
    rfl

theorem NmoString.Sound.holds (sound : string.Sound) : HoldsText string string.text := by
  have room := sound.room
  cases data : string.data with
  | none =>
    have none_there : string.text = [] := by rw [NmoString.text,NmoString.bytes,data]; exact List.take_nil
    have zero : string.length = 0 := by
      rw [sound.null data] at room
      exact Nat.le_zero.mp room
    rw [none_there]
    exact ⟨⟨sound.toShaped,zero,List.nil_prefix,Nat.zero_le _⟩,by rw [data]; exact nofun⟩
  | some bytes =>
    have all : string.bytes = bytes := by rw [NmoString.bytes,data]; rfl
    have size := sound.size bytes data
    have length : string.text.length = string.length := by
      rw [NmoString.text,List.length_take_of_le (by rw [all]; omega)]
    refine ⟨⟨sound.toShaped,length.symm,List.take_prefix ..,length ▸ room⟩,?_⟩
    intro other same
    obtain rfl : bytes = other := Option.some.inj (data.symm.trans same)
    have here := sound.ended bytes data
    have whole : bytes.take (string.length + 1) = bytes.take string.length ++ [0] := by
      rw [List.take_add_one,here]
      rfl
    rw [NmoString.text,all,← whole]
    exact List.take_prefix ..

/-- What is written behind the front of the block. -/
theorem write_run {front : List UInt8} (data : string.data = some bytes)
    (fits : front.length + values.length ≤ bytes.length) : (writeBytes front.length values).run string =
      (.ok (),{ string with data := some (overwrite bytes front.length values) }) := by
  have all : string.bytes = bytes := by rw [NmoString.bytes,data]; rfl
  rw [← all] at fits
  refine (if_pos fits).trans ?_
  rw [data]
  rfl

theorem NmoString.Shaped.overwritten {pos : Nat} (shaped : string.Shaped) (data : string.data = some bytes)
    (fits : pos + values.length ≤ bytes.length) : NmoString.Shaped { string with data := some (overwrite bytes pos values) } where
  small := shaped.small
  size := by
    intro other same
    rw [← Option.some.inj same,length_overwrite _ _ _ fits]
    exact shaped.size bytes data
  null := nofun

/-- The terminator written behind a text that is laid. -/
theorem terminate_run (laid : LaysText string text) (data : string.data = some bytes) : ∃ after,
    (writeBytes text.length [0]).run string = (.ok (),after) ∧ HoldsText after text ∧ after.data.isSome ∧
      after.capacity = string.capacity := by
  have size := laid.size bytes data
  have room := laid.room
  have front := laid.front
  rw [NmoString.bytes,data] at front
  have fits : text.length + [(0 : UInt8)].length ≤ bytes.length := by rw [List.length_singleton]; omega
  have ended : text ++ [0] <+: overwrite bytes text.length [0] := prefix_overwrite front fits
  refine ⟨_,write_run data fits,⟨⟨laid.toShaped.overwritten data fits,laid.length,?_,laid.room⟩,?_⟩,rfl,rfl⟩
  · exact (List.prefix_append ..).trans ended
  · intro other same
    rw [← Option.some.inj same]
    exact ended

/-- The length set to that of a text at the front, and the terminator written behind it. -/
theorem finish_ends {stops : Stop → NmoString → Prop} (shaped : string.Shaped) (data : string.data = some bytes)
    (front : text <+: bytes) (room : text.length ≤ string.capacity) : Action.Ends (do
      setLength text.length
      writeBytes text.length [0]) string (fun _ after => HoldsText after text) stops := by
  have all : string.bytes = bytes := by rw [NmoString.bytes,data]; rfl
  have laid : LaysText { string with length := text.length } text :=
    ⟨⟨shaped.small,shaped.size,shaped.null⟩,rfl,all ▸ front,room⟩
  obtain ⟨after,ran,holds,_⟩ := terminate_run laid data
  refine Action.ends_run (Action.update_apply _ _) ?_
  rw [Action.Ends,ran]
  exact holds

theorem stringTarget_some {capacity : Nat} (needed : Nat) (small : capacity + 1 < 2 ^ 63) :
    ∃ target, stringTarget capacity needed = some target ∧ needed ≤ target ∧ target ≤ max needed (sizeMax - 1) := by
  have start : 0 < if capacity = 0 then 16 else capacity := by split <;> omega
  have below : (if capacity = 0 then 16 else capacity) < sizeMax := by
    rw [sizeMax]
    split <;> omega
  have enough : sizeMax / 2 < (if capacity = 0 then 16 else capacity) * 2 ^ 63 := by
    rw [sizeMax]
    omega
  obtain ⟨target,ends,covers,bounded⟩ := @doubleCapped_ends needed _ _ _ start enough
  refine ⟨target,ends,covers,?_⟩
  rw [sizeMax] at *
  omega

/-- Room is made for a length that is needed, or refused. -/
theorem ensureCapacity_ends (bounded : allocator.Bounded) (laid : LaysText string text) :
    Action.Ends (stringEnsureCapacity allocator needed) string
      (fun _ after => HoldsText after text ∧ needed ≤ after.capacity ∧ (after.data = none → after = string) ∧
        RoomGiven allocator string.capacity needed)
      (fun stop after => (∃ message, stop = .error .nomem message) ∧ after = string ∧
        ¬ RoomGiven allocator string.capacity needed ∧ (needed < sizeMax → allocator.Refuses)) := by
  refine Action.ends_run (Action.read_apply id string) ?_
  simp only [id]
  split
  · rename_i enough
    cases data : string.data with
    | none => exact ⟨⟨laid,by rw [data]; rintro _ ⟨⟩⟩,enough,fun _ => rfl,.inl enough⟩
    | some bytes =>
      obtain ⟨after,ran,holds,there,same⟩ := terminate_run laid data
      rw [← laid.length] at ran
      change Action.Ends (writeBytes string.length [0]) string _ _
      rw [Action.Ends,ran]
      exact ⟨holds,same ▸ enough,fun null => by simp [null] at there,.inl enough⟩
  · rename_i short
    obtain ⟨target,asked,covers,below⟩ := stringTarget_some needed laid.small
    have refused (never : allocator.give (target + 1) 1 = none) : ¬ RoomGiven allocator string.capacity needed := by
      rintro (enough | ⟨other,same,given⟩)
      · exact short enough
      · rw [asked] at same
        rw [← Option.some.inj same,never] at given
        cases given
    rw [asked]
    simp only
    split
    · rename_i large
      have never : allocator.give (target + 1) 1 = none := by
        cases given : allocator.give (target + 1) 1 with
        | none => rfl
        | some block =>
          have huge := bounded _ _ given
          rw [sizeMax] at large
          omega
      refine ⟨⟨_,rfl⟩,rfl,refused never,fun fits => ?_⟩
      omega
    cases given : allocator.give (target + 1) 1 with
    | none => exact ⟨⟨_,rfl⟩,rfl,refused given,fun _ => ⟨_,given⟩⟩
    | some block =>
      have size := allocator.length_give given
      have room := laid.room
      have copied : ∃ buffer, string.copyTo block = .ok buffer ∧ buffer.length = target + 1 ∧ text <+: buffer := by
        rw [NmoString.copyTo]
        split
        · rename_i held
          obtain ⟨bytes,data⟩ := Option.isSome_iff_exists.mp held.1
          have all : string.bytes = bytes := by rw [NmoString.bytes,data]; rfl
          have front := laid.front
          have whole := front.length_le
          have fits : 0 + (string.bytes.take string.length).length ≤ block.length := by
            rw [List.length_take,laid.length]
            omega
          have same := List.prefix_iff_eq_take.mp front
          refine ⟨_,?_,(length_overwrite _ _ _ fits).trans size,?_⟩
          · rw [copyBytes,if_neg (by rw [laid.length]; omega),if_neg (by rw [laid.length]; omega)]
          · rw [laid.length,← same]
            rw [laid.length,← same] at fits
            exact prefix_overwrite List.nil_prefix (by simpa using fits)
        · rename_i nothing
          have empty : text = [] := by
            rcases Option.eq_none_or_eq_some string.data with null | ⟨bytes,data⟩
            · exact laid.of_null null
            · rw [data,laid.length] at nothing
              exact List.length_eq_zero_iff.mp (by simpa using nothing)
          exact ⟨block,rfl,size,empty ▸ List.nil_prefix⟩
      obtain ⟨buffer,copy,length,front⟩ := copied
      refine Action.ends_run (by rw [Action.lift_apply,copy]) (Action.ends_run (Action.update_apply _ _) ?_)
      have huge := bounded _ _ given
      have laid' : LaysText { string with data := some buffer, capacity := target } text :=
        ⟨⟨huge,fun other same => Option.some.inj same ▸ length,fun null => (by cases null)⟩,laid.length,front,by simp only; omega⟩
      obtain ⟨after,ran,holds,there,same⟩ := terminate_run laid' rfl
      rw [← laid.length] at ran
      rw [Action.Ends,ran]
      exact ⟨holds,same ▸ covers,fun null => by simp [null] at there,.inr ⟨target,asked,by rw [given]; rfl⟩⟩

/-- Room for a text that is written, in a block that is there; or refused, and nothing has changed. -/
theorem prepareWrite_ends (bounded : allocator.Bounded) (laid : LaysText string text) :
    Action.Ends (stringPrepareWrite allocator needed) string
      (fun _ after => HoldsText after text ∧ needed ≤ after.capacity ∧ (∃ bytes, after.data = some bytes) ∧
        RoomGiven allocator string.capacity needed)
      (fun stop after => (∃ message, stop = .error .nomem message) ∧ after = string ∧
        (string.data = none ∨ ¬ RoomGiven allocator string.capacity needed) ∧ (needed < sizeMax → allocator.Refuses)) := by
  refine Action.ends_bind ((ensureCapacity_ends bounded laid).imp (fun _ _ made => made) ?_) ?_
  · rintro stop after ⟨reports,same,never,refuses⟩
    exact ⟨reports,same,.inr never,refuses⟩
  · rintro _ after ⟨holds,enough,null,given⟩
    refine Action.ends_run (Action.read_apply id after) ?_
    simp only [id]
    split
    · rename_i missing
      obtain rfl := null missing
      have zero := holds.null missing
      obtain rfl := holds.of_null missing
      have least : (if after.capacity ≠ 0 then after.capacity else 1) = 1 := if_neg (not_not.mpr zero)
      rw [least]
      cases asked : allocator.give (1 + 1) 1 with
      | none => exact ⟨⟨_,rfl⟩,rfl,.inl missing,fun _ => ⟨_,asked⟩⟩
      | some block =>
        have size := allocator.length_give asked
        have laid' : LaysText { data := some block, capacity := 1 + 1 - 1, length := 0 } [] :=
          ⟨⟨(by decide : 1 + 1 - 1 + 1 < 2 ^ 63),fun other same => Option.some.inj same ▸ size,nofun⟩,rfl,List.nil_prefix,
            Nat.zero_le _⟩
        obtain ⟨made,ran,holds',there,same⟩ := terminate_run laid' rfl
        refine Action.ends_run (Action.update_apply _ _) ?_
        change Action.Ends (writeBytes ([] : List UInt8).length [0]) _ _ _
        rw [Action.Ends,ran]
        refine ⟨holds',?_,Option.isSome_iff_exists.mp there,given⟩
        rw [same]
        exact Nat.le_trans enough (by rw [zero]; exact Nat.zero_le _)
    · rename_i there
      exact ⟨holds,enough,Option.ne_none_iff_exists'.mp there,given⟩

theorem prepareWrite_unchanged (bounded : allocator.Bounded) (laid : LaysText string text) :
    Action.Ends (stringPrepareWrite allocator needed) string
      (fun _ after => HoldsText after text ∧ needed ≤ after.capacity ∧ ∃ bytes, after.data = some bytes)
      (Unchanged string) := by
  refine (prepareWrite_ends bounded laid).imp ?_ ?_
  · rintro _ after ⟨holds,enough,there,_⟩
    exact ⟨holds,enough,there⟩
  · rintro stop after ⟨⟨message,reports⟩,same,_⟩
    exact ⟨⟨_,message,reports⟩,same⟩

end

section
variable {string : NmoString} {text values bytes front : List UInt8} {allocator : BlockSource} {view : StringView} {pos : Nat}

theorem StringView.Sound.length_text (sound : view.Sound) (there : view.Given) :
    view.text.length = view.length := by
  rw [StringView.text]
  rcases there with zero | there
  · rw [zero,List.take_zero,List.length_nil]
  · obtain ⟨memory,data⟩ := Option.ne_none_iff_exists'.mp there
    rw [data]
    exact List.length_take_of_le (sound.reach memory data)

/-- A copy from a view is a write of what it shows. -/
theorem copyView_eq (sound : view.Sound) (there : view.data ≠ none) (pos : Nat) : copyView pos view = writeBytes pos view.text := by
  obtain ⟨memory,data⟩ := Option.ne_none_iff_exists'.mp there
  have reach : ¬ (view.data.getD []).length < view.length := by
    rw [data]
    exact Nat.not_lt.mpr (sound.reach memory data)
  refine Action.eq_of_run fun string => ?_
  rw [copyView,bytesAt,if_neg reach]
  rfl

theorem readBytes_run {values : List UInt8} (front : List UInt8) (data : string.data = some bytes) (there : front ++ values <+: bytes) :
    (readBytes front.length values.length).run string = (.ok values,string) := by
  obtain ⟨rest,rfl⟩ := there
  have all : string.bytes = front ++ values ++ rest := by rw [NmoString.bytes,data]; rfl
  refine (if_pos (by rw [all]; simp)).trans ?_
  rw [all,List.append_assoc,slice,List.drop_left,List.take_left]

theorem moveBytes_run {moved : List UInt8} (data : string.data = some bytes) (there : front ++ moved <+: bytes)
    (fits : pos + moved.length ≤ bytes.length) : (moveBytes pos front.length moved.length).run string =
      (.ok (),{ string with data := some (overwrite bytes pos moved) }) := by
  have all : string.bytes = bytes := by rw [NmoString.bytes,data]; rfl
  rw [moveBytes,Action.bind_ok _ (readBytes_run front data there)]
  refine (if_pos (all ▸ fits)).trans ?_
  rw [data]
  rfl

/-- The copy of a view behind the front of the block; of an empty one there is none. -/
theorem copy_run (sound : view.Sound) (given : view.Given) (data : string.data = some bytes)
    (fits : front.length + view.text.length ≤ bytes.length) :
    (if view.length > 0 then copyView front.length view else pure ()).run string =
      (.ok (),{ string with data := some (overwrite bytes front.length view.text) }) := by
  split
  · rename_i some_there
    rw [copyView_eq sound (given.resolve_left (Nat.ne_of_gt some_there))]
    exact write_run data fits
  · rename_i nothing
    have length := sound.length_text given
    have empty : view.text = [] := List.length_eq_zero_iff.mp (by omega)
    rw [empty,overwrite_nil,← data]
    rfl

/-- What stands behind a span is moved to make room for another size; for the same size it stays. -/
theorem shift_run {span moved : List UInt8} {size : Nat} (data : string.data = some bytes) (there : front ++ span ++ moved <+: bytes)
    (fits : front.length + size + moved.length ≤ bytes.length) :
    (if size ≠ span.length then moveBytes (front.length + size) (front.length + span.length) moved.length else pure ()).run string =
      (.ok (),{ string with data := some (overwrite bytes (front.length + size) moved) }) := by
  rw [← List.length_append]
  split
  · exact moveBytes_run data there fits
  · rename_i same
    obtain rfl : size = span.length := not_not.mp same
    rw [← List.length_append,overwrite_same there,← data]
    rfl

theorem assignLen_ends (bounded : allocator.Bounded) (sound : view.Sound) (holds : HoldsText string text) :
    Action.Ends (nmoStringAssignLen allocator view) string (fun _ after => HoldsText after view.text) (Unchanged string) := by
  rw [nmoStringAssignLen]
  split
  · exact ⟨⟨_,_,rfl⟩,rfl⟩
  · rename_i fine
    have given : view.Given := by
      by_cases zero : view.length = 0
      · exact .inl zero
      · exact .inr fun null => fine ⟨Nat.pos_of_ne_zero zero,null⟩
    have length := sound.length_text given
    refine Action.ends_bind (prepareWrite_unchanged bounded holds.toLaysText) ?_
    rintro _ after ⟨holds',room,bytes,data⟩
    have size := holds'.size bytes data
    have fits : ([] : List UInt8).length + view.text.length ≤ bytes.length := by
      rw [List.length_nil]
      omega
    refine Action.ends_run (copy_run sound given data fits) ?_
    rw [← length] at room ⊢
    exact finish_ends (holds'.toShaped.overwritten data fits) rfl (prefix_overwrite List.nil_prefix fits) room

end

end Libnmo.Core
