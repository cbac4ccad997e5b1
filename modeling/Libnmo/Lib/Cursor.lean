import Mathlib.Data.List.Basic
import Mathlib.Data.List.Infix

/-! A position in a buffer and the part of the buffer that lies ahead of it. A
reader that meets exactly what a writer appended is followed piece by piece:
each rule consumes the front of what is ahead. -/
namespace Libnmo.Lib.Cursor

variable {α : Type}

def slice (buf : List α) (pos count : Nat) : List α := (buf.drop pos).take count

def Ahead (buf : List α) (pos : Nat) (rest : List α) : Prop := pos ≤ buf.length ∧ buf.drop pos = rest

theorem length_slice (buf : List α) (pos count : Nat) (inside : pos + count ≤ buf.length) :
    (slice buf pos count).length = count := by
  simp [slice]
  omega

theorem ahead_start (buf : List α) : Ahead buf 0 buf := ⟨by simp,by simp⟩

theorem ahead_after (before rest : List α) : Ahead (before ++ rest) before.length rest :=
  ⟨by simp,by simp⟩

theorem slice_ahead {buf : List α} {pos count : Nat} (inside : pos + count ≤ buf.length) :
    Ahead buf pos (slice buf pos count ++ buf.drop (pos + count)) ∧
      Ahead buf (pos + count) (buf.drop (pos + count)) := by
  refine ⟨⟨by omega,?_⟩,inside,rfl⟩
  rw [slice,← List.drop_drop,List.take_append_drop]

namespace Ahead
variable {buf rest : List α} {pos : Nat}

theorem length_eq (ahead : Ahead buf pos rest) : buf.length = pos + rest.length := by
  obtain ⟨bound,same⟩ := ahead
  rw [← same,List.length_drop]
  omega

theorem getElem? {a : α} (ahead : Ahead buf pos (a :: rest)) : buf[pos]? = some a := by
  have first : (buf.drop pos)[0]? = some a := by rw [ahead.2]; rfl
  simpa using first

theorem next {a : α} (ahead : Ahead buf pos (a :: rest)) : Ahead buf (pos + 1) rest := by
  have size := ahead.length_eq
  refine ⟨by simp at size; omega,?_⟩
  rw [← List.drop_drop,ahead.2]
  rfl

theorem bound {xs : List α} (ahead : Ahead buf pos (xs ++ rest)) : pos + xs.length ≤ buf.length := by
  have size := ahead.length_eq
  simp at size
  omega

theorem slice_eq {xs : List α} (ahead : Ahead buf pos (xs ++ rest)) : slice buf pos xs.length = xs := by
  simp [slice,ahead.2]

theorem skip {xs : List α} (ahead : Ahead buf pos (xs ++ rest)) : Ahead buf (pos + xs.length) rest := by
  refine ⟨ahead.bound,?_⟩
  rw [← List.drop_drop,ahead.2]
  simp

end Ahead

end Libnmo.Lib.Cursor

/-! In-place changes of a list, for memory that a program writes piece by piece:
a stretch overwritten, or one entry replaced. A change is read off wherever the
list is known as what lies before the place, what lies there and what follows. Records
of one size lie at the multiples of it, and are overwritten in whole numbers. -/
namespace Libnmo.Lib.Patch
open Cursor

variable {α : Type}

/-- The entries from `pos` on replaced by `values`. -/
def overwrite (buffer : List α) (pos : Nat) (values : List α) : List α :=
  buffer.take pos ++ values ++ buffer.drop (pos + values.length)

theorem length_overwrite (buffer : List α) (pos : Nat) (values : List α)
    (inside : pos + values.length ≤ buffer.length) : (overwrite buffer pos values).length = buffer.length := by
  simp only [overwrite,List.length_append,List.length_take,List.length_drop]
  omega

theorem length_overwrite_from (buffer : List α) (pos : Nat) (values : List α) (start : pos ≤ buffer.length) :
    (overwrite buffer pos values).length = max buffer.length (pos + values.length) := by
  simp only [overwrite,List.length_append,List.length_take,List.length_drop]
  omega

/-- The values may go past the end. -/
theorem getElem?_overwrite_from (buffer : List α) (pos : Nat) (values : List α) (start : pos ≤ buffer.length) (i : Nat) :
    (overwrite buffer pos values)[i]? =
      if i < pos then buffer[i]? else if i < pos + values.length then values[i - pos]? else buffer[i]? := by
  have front : (buffer.take pos).length = pos := by
    rw [List.length_take]
    omega
  rw [overwrite,List.append_assoc]
  split
  · rename_i before
    rw [List.getElem?_append_left (by omega),List.getElem?_take_of_lt before]
  · rw [List.getElem?_append_right (by omega),front]
    split
    · rename_i within
      rw [List.getElem?_append_left (by omega)]
    · rename_i beyond
      rw [List.getElem?_append_right (by omega),List.getElem?_drop]
      congr 1
      omega

theorem getElem?_overwrite (buffer : List α) (pos : Nat) (values : List α)
    (inside : pos + values.length ≤ buffer.length) (i : Nat) : (overwrite buffer pos values)[i]? =
      if i < pos then buffer[i]? else if i < pos + values.length then values[i - pos]? else buffer[i]? :=
  getElem?_overwrite_from buffer pos values (Nat.le_of_add_right_le inside) i

/-- The front of a buffer up to the end of what was written over it. -/
theorem take_overwrite (buffer : List α) (pos : Nat) (values : List α) (fits : pos + values.length ≤ buffer.length) :
    (overwrite buffer pos values).take (pos + values.length) = buffer.take pos ++ values := by
  have front : (buffer.take pos).length = pos := List.length_take_of_le (by omega)
  rw [overwrite,List.append_assoc,List.take_append,front,Nat.add_sub_cancel_left,List.take_append_of_le_length (Nat.le_refl _),
    List.take_length,List.take_of_length_le (by omega)]

theorem overwrite_nil (buffer : List α) (pos : Nat) : overwrite buffer pos [] = buffer := by
  rw [overwrite,List.append_nil,List.length_nil,Nat.add_zero,List.take_append_drop]

theorem overwrite_same {front buffer values : List α} (there : front ++ values <+: buffer) :
    overwrite buffer front.length values = buffer := by
  obtain ⟨rest,rfl⟩ := there
  rw [overwrite,List.append_assoc front,List.take_left,← List.length_append,← List.append_assoc,List.drop_left]

/-- What stands before the place, and the values behind it. -/
theorem prefix_overwrite {front buffer values : List α} (before : front <+: buffer)
    (fits : front.length + values.length ≤ buffer.length) : front ++ values <+: overwrite buffer front.length values := by
  have written := take_overwrite buffer front.length values fits
  rw [← List.prefix_iff_eq_take.mp before] at written
  rw [← written]
  exact List.take_prefix ..

/-- A gap opened behind what stands before, and filled. -/
theorem prefix_gap {front buffer values tail : List α} (before : front <+: buffer)
    (fits : front.length + values.length + tail.length ≤ buffer.length) : front ++ values ++ tail <+:
      overwrite (overwrite buffer (front.length + values.length) tail) front.length values := by
  have room : (buffer.take (front.length + values.length)).length = front.length + values.length :=
    List.length_take_of_le (by omega)
  have kept : front <+: overwrite buffer (front.length + values.length) tail := by
    rw [overwrite,List.append_assoc]
    exact (List.prefix_take_iff.mpr ⟨before,Nat.le_add_right ..⟩).trans (List.prefix_append ..)
  have behind : (overwrite buffer (front.length + values.length) tail).drop (front.length + values.length) =
      tail ++ buffer.drop (front.length + values.length + tail.length) := by
    rw [overwrite,List.append_assoc,List.drop_left' room]
  rw [overwrite,behind,← List.prefix_iff_eq_take.mp kept,← List.append_assoc]
  exact List.prefix_append ..

/-- Two stretches, the second right behind the first. -/
theorem overwrite_append (buffer : List α) (pos : Nat) (first second : List α) (start : pos ≤ buffer.length) :
    overwrite (overwrite buffer pos first) (pos + first.length) second = overwrite buffer pos (first ++ second) := by
  have reach : pos + first.length ≤ (overwrite buffer pos first).length := by
    rw [length_overwrite_from buffer pos first start]
    exact Nat.le_max_right _ _
  refine List.ext_getElem? fun i => ?_
  rw [getElem?_overwrite_from _ _ _ reach,getElem?_overwrite_from _ _ _ start,getElem?_overwrite_from _ _ _ start,
    List.length_append]
  by_cases before : i < pos
  · rw [if_pos (by omega),if_pos before,if_pos before]
  · rw [if_neg before,if_neg before]
    by_cases within : i < pos + first.length
    · rw [if_pos within,if_pos within,if_pos (by omega),List.getElem?_append_left (by omega)]
    · rw [if_neg within,if_neg within]
      by_cases later : i < pos + first.length + second.length
      · rw [if_pos later,if_pos (by omega),List.getElem?_append_right (by omega)]
        congr 1
        omega
      · rw [if_neg later,if_neg (by omega)]

theorem modify_between (f : α → α) (before : List α) (a : α) (after : List α) :
    (before ++ a :: after).modify before.length f = before ++ f a :: after := by
  induction before with
  | nil => rfl
  | cons b before ih => rw [List.cons_append,List.length_cons,List.modify_succ_cons,ih,List.cons_append]

theorem insertIdx_between (before : List α) (a : α) (after : List α) :
    (before ++ after).insertIdx before.length a = before ++ [a] ++ after := by
  induction before with
  | nil => rfl
  | cons b before ih =>
    rw [List.cons_append,List.length_cons,List.insertIdx_succ_cons,ih]
    rfl

theorem eraseIdx_between (before : List α) (a : α) (after : List α) :
    (before ++ [a] ++ after).eraseIdx before.length = before ++ after := by
  rw [List.append_assoc,List.eraseIdx_append_of_length_le (Nat.le_refl _),Nat.sub_self]
  rfl

theorem set_between (before : List α) (a b : α) (after : List α) :
    (before ++ [a] ++ after).set before.length b = before ++ [b] ++ after := by
  rw [List.append_assoc,List.set_append_right _ _ (Nat.le_refl _),Nat.sub_self,List.append_assoc]
  rfl

section Records
variable {items values : List (List α)} {buffer : List α} {size start count : Nat}

theorem length_flatten_whole (whole : ∀ item ∈ items, item.length = size) : items.flatten.length = items.length * size := by
  rw [List.length_flatten,List.map_congr_left whole,List.map_const',List.sum_replicate_nat]

/-- The buffer cut between two records. -/
theorem records_split (whole : ∀ item ∈ items, item.length = size) (flat : items.flatten <+: buffer)
    (inside : start ≤ items.length) : ∃ rest, buffer = (items.take start).flatten ++ rest ∧
      (items.take start).flatten.length = start * size ∧ (items.drop start).flatten <+: rest := by
  obtain ⟨spare,rfl⟩ := flat
  refine ⟨(items.drop start).flatten ++ spare,?_,?_,List.prefix_append _ _⟩
  · rw [← List.append_assoc,← List.flatten_append,List.take_append_drop]
  · rw [length_flatten_whole fun item member => whole item (List.mem_of_mem_take member),List.length_take_of_le inside]

theorem take_records (whole : ∀ item ∈ items, item.length = size) (flat : items.flatten <+: buffer)
    (inside : start ≤ items.length) : buffer.take (start * size) = (items.take start).flatten := by
  obtain ⟨rest,same,front,_⟩ := records_split whole flat inside
  rw [same,List.take_left' front]

theorem drop_records (whole : ∀ item ∈ items, item.length = size) (flat : items.flatten <+: buffer) (start : Nat) :
    (items.drop start).flatten <+: buffer.drop (start * size) := by
  rcases Nat.le_total start items.length with inside | beyond
  · obtain ⟨rest,same,front,ahead⟩ := records_split whole flat inside
    rw [same,List.drop_left' front]
    exact ahead
  · rw [List.drop_eq_nil_of_le beyond]
    exact List.nil_prefix

theorem slice_records (whole : ∀ item ∈ items, item.length = size) (flat : items.flatten <+: buffer)
    (inside : start + count ≤ items.length) :
    slice buffer (start * size) (count * size) = ((items.drop start).take count).flatten :=
  take_records (fun item member => whole item (List.mem_of_mem_drop member)) (drop_records whole flat start)
    (by rw [List.length_drop]; omega)

/-- Records written over others, or behind the last. -/
theorem overwrite_records (whole : ∀ item ∈ items, item.length = size) (flat : items.flatten <+: buffer)
    (sized : ∀ value ∈ values, value.length = size) (inside : start ≤ items.length) :
    (items.take start ++ values ++ items.drop (start + values.length)).flatten <+:
      overwrite buffer (start * size) values.flatten := by
  rw [overwrite,take_records whole flat inside,length_flatten_whole sized,← Nat.add_mul,List.flatten_append,
    List.flatten_append]
  exact (List.prefix_append_right_inj _).mpr (drop_records whole flat _)

end Records

end Libnmo.Lib.Patch
