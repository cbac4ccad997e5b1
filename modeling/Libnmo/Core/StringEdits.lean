import Libnmo.Core.StringOps

/-! What the editing calls make of the text of a string: a span between a front and a tail
is taken out, and other bytes stand there. -/
namespace Libnmo.Core
open Lib Lib.Cursor Lib.Patch NmoString

section
variable {string : NmoString} {text front span tail bytes : List UInt8} {allocator : BlockSource} {view : StringView}
  {index length : Nat} {stops : Stop → NmoString → Prop}

/-- The length set to that of a text that ends with its terminator already. -/
theorem setLength_ends (shaped : string.Shaped) (data : string.data = some bytes) (ended : text ++ [0] <+: bytes) :
    Action.Ends (setLength text.length) string (fun _ after => HoldsText after text) stops := by
  have all : string.bytes = bytes := by rw [NmoString.bytes,data]; rfl
  have size := shaped.size bytes data
  have fits := ended.length_le
  rw [List.length_append,List.length_singleton] at fits
  refine ⟨⟨⟨shaped.small,shaped.size,shaped.null⟩,rfl,?_,?_⟩,fun other same => ?_⟩
  · exact (List.prefix_append ..).trans (all ▸ ended)
  · exact Nat.le_of_add_le_add_right (size ▸ fits)
  · exact Option.some.inj (data.symm.trans same) ▸ ended

theorem HoldsText.length_lt (holds : HoldsText string text) : text.length + 1 < 2 ^ 63 :=
  Nat.lt_of_le_of_lt (Nat.add_le_add_right holds.room 1) holds.small

/-- A size that fits the address space is not cut by the arithmetic on it. -/
theorem length_mod {text : List UInt8} {size : Nat} (same : size = text.length) (small : text.length < 2 ^ 64) :
    size % 2 ^ 64 = text.length := by
  rw [same,Nat.mod_eq_of_lt small]

theorem appendLen_ends (bounded : allocator.Bounded) (sound : view.Sound) (holds : HoldsText string text) :
    Action.Ends (nmoStringAppendLen allocator view) string (fun _ after => HoldsText after (text ++ view.text))
      (Unchanged string) := by
  have room := holds.length_lt
  have small := sound.small
  rw [nmoStringAppendLen]
  split
  · rename_i zero
    have empty : view.text = [] := List.length_eq_zero_iff.mp ((sound.length_text (.inl zero)).trans zero)
    rw [empty,List.append_nil]
    exact holds
  split
  · exact ⟨⟨_,_,rfl⟩,rfl⟩
  rename_i there
  have length := sound.length_text (.inr there)
  have sum : (string.length + view.length) % 2 ^ 64 = (text ++ view.text).length :=
    length_mod (by rw [List.length_append,holds.length,length]) (by rw [List.length_append]; omega)
  refine Action.ends_run (Action.read_apply id string) ?_
  simp only [id,sum]
  refine Action.ends_bind (prepareWrite_unchanged bounded holds.toLaysText) ?_
  rintro _ after ⟨holds',enough,bytes,data⟩
  have fits := holds'.size bytes data
  have before : text <+: bytes := (List.prefix_append ..).trans (holds'.ended bytes data)
  refine Action.ends_run (Action.read_apply id after) ?_
  rw [copyView_eq sound there,id,holds'.length]
  rw [List.length_append] at enough
  refine Action.ends_run (write_run data (by omega)) ?_
  exact finish_ends (holds'.toShaped.overwritten data (by omega)) rfl (prefix_overwrite before (by omega))
    (by rw [List.length_append]; exact enough)

theorem appendChar_ends (bounded : allocator.Bounded) (ch : UInt8) (holds : HoldsText string text) :
    Action.Ends (nmoStringAppendChar allocator ch) string (fun _ after => HoldsText after (text ++ [ch])) (Unchanged string) := by
  have room := holds.length_lt
  have sum : (string.length + 1) % 2 ^ 64 = (text ++ [ch]).length :=
    length_mod (by rw [List.length_append,holds.length]; rfl) (by rw [List.length_append,List.length_singleton]; omega)
  refine Action.ends_run (Action.read_apply id string) ?_
  simp only [id,sum]
  refine Action.ends_bind (prepareWrite_unchanged bounded holds.toLaysText) ?_
  rintro _ after ⟨holds',enough,bytes,data⟩
  have size := holds'.size bytes data
  have before : text <+: bytes := (List.prefix_append ..).trans (holds'.ended bytes data)
  rw [List.length_append] at enough
  have fits : text.length + [ch].length ≤ bytes.length := by omega
  refine Action.ends_run (Action.read_apply id after) ?_
  rw [id,holds'.length,← holds.length,sum,holds.length]
  refine Action.ends_run (write_run data fits) ?_
  exact finish_ends (holds'.toShaped.overwritten data fits) rfl (prefix_overwrite before fits)
    (by rw [List.length_append]; exact enough)

/-- The text around a span of it. -/
theorem cut_text (length : Nat) (inside : index ≤ text.length) : ∃ front span tail, text = front ++ span ++ tail ∧ front.length = index ∧
    span.length = min length (text.length - index) ∧ text.take index = front ∧ text.drop (index + length) = tail := by
  refine ⟨text.take index,(text.drop index).take length,text.drop (index + length),?_,List.length_take_of_le inside,?_,rfl,rfl⟩
  · rw [← List.drop_drop,List.append_assoc,List.take_append_drop,List.take_append_drop]
  · rw [List.length_take,List.length_drop]

/-- The span is replaced by what a view shows, or memory is refused and nothing has changed. -/
theorem replace_ends (length : Nat) (bounded : allocator.Bounded) (sound : view.Sound) (given : view.Given) (holds : HoldsText string text)
    (inside : index ≤ text.length) : Action.Ends (nmoStringReplace allocator index length view) string
      (fun _ after => HoldsText after (text.take index ++ view.text ++ text.drop (index + length)))
      (fun stop after => (∃ message, stop = .error .nomem message) ∧ after = string ∧ allocator.Refuses) := by
  have room := holds.length_lt
  have small := sound.small
  have shown := sound.length_text given
  obtain ⟨front,span,tail,rfl,rfl,cut,same,behind⟩ := cut_text length inside
  rw [same,behind]
  have total : (front ++ span ++ tail).length = front.length + span.length + tail.length := by
    rw [List.length_append,List.length_append]
  have updated : (front ++ view.text ++ tail).length = front.length + view.text.length + tail.length := by
    rw [List.length_append,List.length_append]
  have sum : (string.length - span.length + view.length) % 2 ^ 64 = (front ++ view.text ++ tail).length :=
    length_mod (by rw [holds.length]; omega) (by omega)
  refine Action.ends_run (Action.read_apply id string) ?_
  have fine : ¬ (view.length > 0 ∧ view.data = none) := by
    rintro ⟨some_there,null⟩
    exact given.elim (Nat.ne_of_gt some_there) fun there => there null
  simp only [id]
  rw [if_neg (by rw [holds.length]; exact Nat.not_lt.mpr inside),if_neg fine]
  simp only [holds.length,← cut]
  rw [← holds.length,sum]
  refine Action.ends_bind ((prepareWrite_ends bounded holds.toLaysText).imp (fun _ _ made => made) ?_) ?_
  · rintro stop after ⟨reports,kept,_,refuses⟩
    exact ⟨reports,kept,refuses (by rw [sizeMax]; omega)⟩
  rintro _ after ⟨holds',enough,⟨bytes,data⟩,_⟩
  have size := holds'.size bytes data
  have ended : front ++ span ++ (tail ++ [0]) <+: bytes := by
    rw [← List.append_assoc]
    exact holds'.ended bytes data
  have before : front <+: bytes := ((List.prefix_append ..).trans (List.prefix_append ..)).trans ended
  have moved : after.length - (front.length + span.length) + 1 = (tail ++ [(0 : UInt8)]).length := by
    rw [holds'.length,total,Nat.add_sub_cancel_left,List.length_append,List.length_singleton]
  refine Action.ends_run (Action.read_apply id after) ?_
  simp only [id]
  rw [moved]
  have fits : front.length + view.text.length + (tail ++ [(0 : UInt8)]).length ≤ bytes.length := by
    rw [List.length_append,List.length_singleton]
    omega
  have shifted := shift_run data ended fits
  have shaped := holds'.toShaped.overwritten data fits
  have whole := length_overwrite _ _ _ fits
  have laid := prefix_gap before fits
  rw [shown] at shifted
  refine Action.ends_run shifted ?_
  rw [shown] at shaped whole laid
  refine Action.ends_run (copy_run sound given rfl (by omega)) ?_
  refine finish_ends (shaped.overwritten rfl (by rw [whole]; omega)) rfl ?_ enough
  refine (List.prefix_append _ [0]).trans ?_
  rw [List.append_assoc]
  exact laid

/-- A null pointer for what is to stand there is refused. -/
theorem replace_refused (refused : view.length > 0 ∧ view.data = none) : Action.Ends (nmoStringReplace allocator index length view)
    string (fun _ _ => False) (Unchanged string) := by
  refine Action.ends_run (Action.read_apply id string) ?_
  simp only [id]
  split
  · exact ⟨⟨_,_,rfl⟩,rfl⟩
  · exact ⟨⟨_,_,rfl⟩,rfl⟩

theorem insert_ends (bounded : allocator.Bounded) (sound : view.Sound) (holds : HoldsText string text) :
    Action.Ends (nmoStringInsert allocator index view) string
      (fun _ after => HoldsText after (text.take index ++ view.text ++ text.drop index)) (Unchanged string) := by
  have room := holds.length_lt
  have small := sound.small
  refine Action.ends_run (Action.read_apply id string) ?_
  simp only [id]
  split
  · exact ⟨⟨_,_,rfl⟩,rfl⟩
  rename_i within
  split
  · rename_i zero
    have empty : view.text = [] := List.length_eq_zero_iff.mp ((sound.length_text (.inl zero)).trans zero)
    rw [empty,List.append_nil,List.take_append_drop]
    exact holds
  split
  · exact ⟨⟨_,_,rfl⟩,rfl⟩
  rename_i there
  have shown := sound.length_text (.inr there)
  obtain ⟨front,span,tail,rfl,rfl,cut,same,behind⟩ := cut_text 0 (Nat.le_of_not_lt (holds.length ▸ within))
  obtain rfl : span = [] := List.length_eq_zero_iff.mp (cut.trans (Nat.zero_min _))
  rw [Nat.add_zero] at behind
  rw [same,behind]
  rw [List.append_nil] at *
  have total : (front ++ tail).length = front.length + tail.length := List.length_append
  have updated : (front ++ view.text ++ tail).length = front.length + view.text.length + tail.length := by
    rw [List.length_append,List.length_append]
  have sum : (string.length + view.length) % 2 ^ 64 = (front ++ view.text ++ tail).length :=
    length_mod (by rw [holds.length]; omega) (by omega)
  rw [sum]
  refine Action.ends_bind (prepareWrite_unchanged bounded holds.toLaysText) ?_
  rintro _ after ⟨holds',enough,bytes,data⟩
  have size := holds'.size bytes data
  have ended : front ++ (tail ++ [0]) <+: bytes := by
    rw [← List.append_assoc]
    exact holds'.ended bytes data
  have before : front <+: bytes := (List.prefix_append ..).trans ended
  have moved : after.length - front.length + 1 = (tail ++ [(0 : UInt8)]).length := by
    rw [holds'.length,total,Nat.add_sub_cancel_left,List.length_append,List.length_singleton]
  have fits : front.length + view.text.length + (tail ++ [(0 : UInt8)]).length ≤ bytes.length := by
    rw [List.length_append,List.length_singleton]
    omega
  have shaped := holds'.toShaped.overwritten data fits
  have fits' : front.length + view.text.length ≤ (overwrite bytes (front.length + view.text.length) (tail ++ [0])).length := by
    rw [length_overwrite _ _ _ fits]
    omega
  refine Action.ends_run (Action.read_apply id after) ?_
  simp only [id]
  rw [moved,copyView_eq sound there,← shown]
  refine Action.ends_run (moveBytes_run data ended fits) (Action.ends_run (write_run rfl fits') ?_)
  refine setLength_ends (shaped.overwritten rfl fits') rfl ?_
  rw [List.append_assoc]
  exact prefix_gap before fits

/-- What stands behind a span is moved over it, with the terminator. -/
theorem close_ends (holds : HoldsText string (front ++ span ++ tail)) (data : string.data = some bytes) :
    Action.Ends (do
      moveBytes front.length (front.length + span.length) (tail.length + 1)
      setLength (front.length + tail.length)) string (fun _ after => HoldsText after (front ++ tail)) stops := by
  have ended : front ++ span ++ (tail ++ [0]) <+: bytes := by
    rw [← List.append_assoc]
    exact holds.ended bytes data
  have reach := ended.length_le
  have fits : front.length + (tail ++ [(0 : UInt8)]).length ≤ bytes.length := by
    rw [List.length_append,List.length_append] at reach
    omega
  have before : front <+: bytes := ((List.prefix_append ..).trans (List.prefix_append ..)).trans ended
  have moved := moveBytes_run data ended fits
  rw [List.length_append,List.length_append,List.length_singleton] at moved
  refine Action.ends_run moved ?_
  rw [← List.length_append]
  refine setLength_ends (holds.toShaped.overwritten data fits) rfl ?_
  rw [List.append_assoc]
  exact prefix_overwrite before fits

theorem HoldsText.data_some (holds : HoldsText string text) (some_there : text ≠ []) : ∃ bytes, string.data = some bytes :=
  Option.ne_none_iff_exists'.mp fun null => some_there (holds.of_null null)

theorem erase_ends (holds : HoldsText string text) : Action.Ends (nmoStringErase index length) string
    (fun _ after => HoldsText after (text.take index ++ text.drop (index + length))) (Unchanged string) := by
  refine Action.ends_run (Action.read_apply id string) ?_
  simp only [id]
  split
  · exact ⟨⟨_,_,rfl⟩,rfl⟩
  rename_i within
  split
  · rename_i zero
    rw [zero,Nat.add_zero,List.take_append_drop]
    exact holds
  obtain ⟨front,span,tail,rfl,rfl,cut,same,behind⟩ := cut_text length (Nat.le_of_not_lt (holds.length ▸ within))
  have total : (front ++ span ++ tail).length = front.length + span.length + tail.length := by
    rw [List.length_append,List.length_append]
  have count : (if length > string.length - front.length then string.length - front.length else length) = span.length := by
    rw [cut,holds.length]
    split <;> omega
  rw [same,behind,count]
  split
  · rename_i zero
    obtain rfl : span = [] := List.length_eq_zero_iff.mp zero
    rw [List.append_nil] at holds
    exact holds
  · rename_i some_there
    have nonempty : front ++ span ++ tail ≠ [] := fun nothing => by
      rw [nothing,List.length_nil] at total
      omega
    obtain ⟨bytes,data⟩ := holds.data_some nonempty
    have rest : string.length - front.length - span.length = tail.length := by
      rw [holds.length]
      omega
    have left : string.length - span.length = front.length + tail.length := by
      rw [holds.length]
      omega
    rw [rest,left]
    exact close_ends holds data

end

end Libnmo.Core

/-! The search of a needle, and the loop that replaces what it finds. Behind each replacement
lies what is still to be searched, which has become shorter. -/
namespace Libnmo.Core
open Lib Lib.Cursor Lib.Patch Lib.Occurrences NmoString

section
variable {string : NmoString} {text front todo bytes needle : List UInt8} {start rest place : Nat}

/-- A needle that fits in the text is compared with the text alone. -/
theorem slice_eq_iff (laid : text <+: bytes) (fits : place + needle.length ≤ text.length) :
    slice bytes place needle.length = needle ↔ needle <+: text.drop place := by
  obtain ⟨rest,rfl⟩ := laid
  have inside : needle.length ≤ (text.drop place).length := by
    rw [List.length_drop]
    omega
  rw [slice,List.drop_append_of_le_length (by omega),List.take_append_of_le_length inside,List.prefix_iff_eq_take]
  exact eq_comm

/-- The loop stops at the first place where the needle stands, or after the last place. -/
theorem findFrom_spec (needle : List UInt8) (place rest : Nat) (laid : text <+: bytes) (fits : place + rest + needle.length ≤ text.length + 1)
    (small : text.length < sizeMax) :
    (findFrom bytes needle rest place ≠ sizeMax ∧ FirstAt needle text place (findFrom bytes needle rest place)) ∨
      (findFrom bytes needle rest place = sizeMax ∧ ∀ other, place ≤ other → other < place + rest → ¬ needle <+: text.drop other) := by
  induction rest generalizing place with
  | zero => exact .inr ⟨rfl,fun other after before => absurd after (Nat.not_le.mpr before)⟩
  | succ rest ih =>
    rw [findFrom]
    have here : slice bytes place needle.length = needle ↔ needle <+: text.drop place := slice_eq_iff laid (by omega)
    split
    · rename_i found
      exact .inl ⟨by omega,Nat.le_refl _,here.mp found,fun other after before => absurd after (Nat.not_le.mpr before)⟩
    · rename_i absent
      rw [here] at absent
      rcases ih (place + 1) (by omega) with ⟨some_there,first⟩ | ⟨none_there,never⟩
      · refine .inl ⟨some_there,Nat.le_of_succ_le first.after,first.here,fun other after before => ?_⟩
        rcases Nat.eq_or_lt_of_le after with rfl | later
        · exact absent
        · exact first.earlier other later before
      · refine .inr ⟨none_there,fun other after before => ?_⟩
        rcases Nat.eq_or_lt_of_le after with rfl | later
        · exact absent
        · exact never other later (by omega)

/-- The search finds the first occurrence from a place on, or there is none. -/
theorem find_spec {view : StringView} (start : Nat) (sound : view.Sound) (there : view.data ≠ none) (positive : view.length ≠ 0)
    (holds : HoldsText string text) (within : start ≤ text.length) :
    (∃ place, nmoStringFind string view start = .ok place ∧ place ≠ sizeMax ∧ FirstAt view.text text start place) ∨
      (nmoStringFind string view start = .ok sizeMax ∧ ∀ other, start ≤ other → ¬ view.text <+: text.drop other) := by
  have small := holds.length_lt
  have shown := sound.length_text (.inr there)
  have beyond (other : Nat) (outside : text.length < other + view.length) : ¬ view.text <+: text.drop other := by
    intro found
    have fits := found.length_le
    rw [List.length_drop,shown] at fits
    omega
  rw [nmoStringFind]
  cases data : string.data with
  | none =>
    obtain rfl := holds.of_null data
    exact .inr ⟨rfl,fun other _ => beyond other (by rw [List.length_nil]; omega)⟩
  | some bytes =>
    obtain ⟨memory,reached⟩ := Option.ne_none_iff_exists'.mp there
    simp only [reached,holds.length]
    rw [if_neg positive]
    split
    · exact .inr ⟨rfl,fun other after => beyond other (by omega)⟩
    rename_i inside
    have room := holds.room
    have size := holds.size bytes data
    have laid : text <+: bytes := (List.prefix_append ..).trans (holds.ended bytes data)
    have view_there : bytesAt memory view.length = .ok view.text := by
      rw [bytesAt,if_neg (Nat.not_lt.mpr (sound.reach memory reached)),StringView.text,reached]
      rfl
    rw [if_neg (Nat.not_lt.mpr laid.length_le),view_there]
    simp only [bind,Except.bind,pure,Except.pure]
    rcases findFrom_spec view.text start (text.length - view.text.length + 1 - start) laid (by omega)
      (by rw [sizeMax]; omega) with ⟨some_there,first⟩ | ⟨none_there,never⟩
    · exact .inl ⟨_,rfl,some_there,first⟩
    · refine .inr ⟨by rw [none_there],fun other after => ?_⟩
      by_cases fits : other < start + (text.length - view.text.length + 1 - start)
      · exact never other after fits
      · exact beyond other (by omega)

/-- The loop, with the text in front of the place done and the rest to do. -/
theorem replaceFrom_ends {allocators : Nat → BlockSource} (front : List UInt8) (bounded : ∀ round, (allocators round).Bounded)
    {needle replacement : StringView} (sound : needle.Sound) (there : needle.data ≠ none) (positive : needle.length ≠ 0)
    (sound' : replacement.Sound) (given : replacement.Given) {fuel replaced : Nat} (enough : todo.length < fuel)
    (holds : HoldsText string (front ++ todo)) :
    Action.Ends (replaceFrom allocators needle replacement fuel front.length replaced) string
      (fun count after => ∃ out more, HoldsText after (front ++ out) ∧ Replaced needle.text replacement.text todo out more ∧
        count = replaced + more)
      (fun stop after => (∃ message, stop = .error .nomem message) ∧ after.Sound ∧ ∃ round, (allocators round).Refuses) := by
  have shown := sound.length_text (.inr there)
  have shown' := sound'.length_text given
  induction fuel generalizing string front todo replaced with
  | zero => exact absurd enough (Nat.not_lt_zero _)
  | succ fuel ih =>
    refine Action.ends_run (Action.read_apply id string) ?_
    simp only [id]
    rcases find_spec front.length sound there positive holds
      (by rw [List.length_append]; exact Nat.le_add_right ..) with ⟨place,found,some_there,first⟩ | ⟨none_there,never⟩
    · refine Action.ends_run (by rw [Action.lift_apply,found]) ?_
      rw [if_neg some_there]
      -- the place lies in what is still to do
      obtain ⟨further,rfl⟩ := Nat.exists_eq_add_of_le first.after
      have first' := firstAt_append.mp first
      have cut := first'.split
      have inside := first'.bound (List.length_pos_iff.mp (by omega))
      obtain ⟨before,before_eq⟩ : ∃ before, before = todo.take further := ⟨_,rfl⟩
      obtain ⟨later,later_eq⟩ : ∃ later, later = todo.drop (further + needle.text.length) := ⟨_,rfl⟩
      have size : before.length = further := by
        rw [before_eq]
        exact List.length_take_of_le (by omega)
      rw [← before_eq,← later_eq] at cut
      subst cut
      have left : (front ++ (before ++ needle.text ++ later)).take (front.length + further) = front ++ before := by
        rw [← size,← List.length_append,List.append_assoc before,← List.append_assoc front,List.take_left]
      have right : (front ++ (before ++ needle.text ++ later)).drop (front.length + further + needle.length) = later := by
        rw [← shown,← size,← List.length_append,← List.length_append,List.append_assoc before,← List.append_assoc front,
          ← List.append_assoc (front ++ before),List.drop_left]
      have within : front.length + further ≤ (front ++ (before ++ needle.text ++ later)).length := by
        rw [List.length_append,List.length_append,List.length_append]
        omega
      have replaces := replace_ends needle.length (bounded replaced) sound' given holds within
      rw [left,right] at replaces
      refine Action.ends_bind (replaces.imp (fun _ _ made => made) ?_) ?_
      · rintro stop after ⟨reports,rfl,refuses⟩
        exact ⟨reports,holds.sound,replaced,refuses⟩
      rintro _ after made
      have small := made.length_lt
      rw [List.length_append,List.length_append,List.length_append] at small
      have next : (front.length + further + replacement.length) % 2 ^ 64 = (front ++ before ++ replacement.text).length :=
        length_mod (by rw [List.length_append,List.length_append]; omega)
          (by rw [List.length_append,List.length_append]; omega)
      rw [next]
      rw [List.length_append,List.length_append] at enough
      refine (ih _ (by omega) made).imp ?_ fun _ _ stopped => stopped
      rintro count last ⟨out,more,held,rest,same⟩
      refine ⟨before ++ replacement.text ++ out,more + 1,?_,?_,by omega⟩
      · rwa [List.append_assoc front,List.append_assoc front] at held
      · exact .step (size ▸ first') rest
    · refine Action.ends_run (by rw [Action.lift_apply,none_there]) ?_
      rw [if_pos rfl]
      refine ⟨todo,0,holds,.done (absent_of_drop fun place => ?_),rfl⟩
      have missing := never (front.length + place) (Nat.le_add_right ..)
      rwa [List.drop_length_add_append] at missing

end

end Libnmo.Core
