import Mathlib.Data.List.Basic
import Mathlib.Tactic.Common
import Mathlib.Logic.Function.Basic

/-! A file of values with a position. A write replaces what it covers and fills a gap
that a seek has left with a given value; a read returns what there is. -/
namespace Libnmo.Lib

structure ByteFile (α : Type) where
  content : List α := []
  position : Nat := 0
  deriving DecidableEq

namespace ByteFile
variable {α : Type} (file : ByteFile α) (zero : α) (values : List α)

def size : Nat := file.content.length

/-- The content with the gap before the position filled. -/
def padded : List α := file.content ++ List.replicate (file.position - file.size) zero

def write : ByteFile α where
  content := (file.padded zero).take file.position ++ values ++ file.content.drop (file.position + values.length)
  position := file.position + values.length

def available (count : Nat) : List α := (file.content.drop file.position).take count

def read (count : Nat) : ByteFile α := { file with position := file.position + (file.available count).length }

theorem length_padded : (file.padded zero).length = max file.size file.position := by
  rw [padded,List.length_append,List.length_replicate,← size]
  omega

theorem length_front : ((file.padded zero).take file.position).length = file.position := by
  rw [List.length_take,length_padded]
  omega

/-- A write makes the size the larger of what it was and where the write ends. -/
theorem size_write : (file.write zero values).size = max file.size (file.position + values.length) := by
  rw [size,write,List.length_append,List.length_append,length_front,List.length_drop,← size]
  omega

theorem length_available (count : Nat) : (file.available count).length = min count (file.size - file.position) := by
  rw [available,List.length_take,List.length_drop,size]

/-- The values in the file after a write: those written, zeros in the gap, and the old ones elsewhere. -/
theorem getElem?_write (i : Nat) : (file.write zero values).content[i]? =
    if i < file.position then
      if i < file.size then file.content[i]? else some zero
    else if i < file.position + values.length then values[i - file.position]?
    else file.content[i]? := by
  have front := length_front file zero
  rw [write]
  split
  · rename_i before
    rw [List.append_assoc,List.getElem?_append_left (by omega),List.getElem?_take_of_lt before,padded]
    split
    · rename_i inside
      exact List.getElem?_append_left inside
    · rename_i gap
      rw [List.getElem?_append_right (Nat.not_lt.mp gap),List.getElem?_replicate,if_pos]
      change i - file.size < _
      omega
  · rename_i after
    split
    · rename_i within
      rw [List.getElem?_append_left (by rw [List.length_append]; omega),List.getElem?_append_right (by omega),front]
    · rename_i beyond
      rw [List.getElem?_append_right (by rw [List.length_append]; omega),List.getElem?_drop,List.length_append,front]
      congr 1
      omega

/-- One write after the other is a write of both. -/
theorem write_write (first second : List α) :
    (file.write zero first).write zero second = file.write zero (first ++ second) := by
  have front := length_front file zero
  have size := size_write file zero first
  have gapless : (file.write zero first).padded zero = (file.write zero first).content := by
    rw [padded,Nat.sub_eq_zero_of_le (by rw [size]; exact Nat.le_max_right ..),List.replicate_zero,List.append_nil]
  rw [write,gapless,mk.injEq]
  refine ⟨?_,?_⟩
  · have before : ((file.padded zero).take file.position ++ first).length = file.position + first.length := by
      rw [List.length_append,front]
    simp only [write]
    rw [← before,List.take_left,List.append_assoc _ first second,← List.drop_drop,List.drop_left,List.drop_drop,before,
      List.length_append,Nat.add_assoc]
  · simp only [write,List.length_append]
    omega

/-- A file that is at its end. -/
def atEnd (content : List α) : ByteFile α := ⟨content,content.length⟩

theorem write_atEnd (content : List α) : (atEnd content).write zero values = atEnd (content ++ values) := by
  have gapless : (atEnd content).padded zero = content := by
    rw [padded,atEnd,size,Nat.sub_self,List.replicate_zero,List.append_nil]
  rw [write,gapless,atEnd,atEnd,mk.injEq]
  refine ⟨?_,List.length_append.symm⟩
  rw [List.take_length,List.drop_of_length_le (Nat.le_add_right ..),List.append_nil]

/-- A write at the start replaces as much of the content as it has values. -/
theorem write_start (content : List α) : (ByteFile.mk content 0).write zero values =
    ⟨values ++ content.drop values.length,values.length⟩ := by
  simp only [write,List.take_zero,List.nil_append,Nat.zero_add]

end ByteFile

end Libnmo.Lib

/-! Named files and what the calls on them do: a new empty file, bytes added at the
end, a file that takes another's name, and a name removed. -/
namespace Libnmo.Lib

abbrev Files (ν α : Type) := ν → Option (List α)

namespace Files
variable {ν α : Type} [DecidableEq ν] (files : Files ν α) {name other source target : ν} {values more : List α}

def create (name : ν) : Files ν α := Function.update files name (some [])

def append (name : ν) (values : List α) : Files ν α :=
  Function.update files name ((files name).map (· ++ values))

def remove (name : ν) : Files ν α := Function.update files name none

def rename (source target : ν) : Files ν α := Function.update (files.remove source) target (files source)

@[simp] theorem create_same : files.create name name = some [] := Function.update_self ..

theorem create_other (apart : other ≠ name) : files.create name other = files other :=
  Function.update_of_ne apart ..

@[simp] theorem append_same : files.append name values name = (files name).map (· ++ values) :=
  Function.update_self ..

theorem append_other (apart : other ≠ name) : files.append name values other = files other :=
  Function.update_of_ne apart ..

@[simp] theorem remove_same : files.remove name name = none := Function.update_self ..

theorem remove_other (apart : other ≠ name) : files.remove name other = files other :=
  Function.update_of_ne apart ..

@[simp] theorem rename_target : files.rename source target target = files source := Function.update_self ..

theorem rename_other (apart : other ≠ target) (unlike : other ≠ source) :
    files.rename source target other = files other := by
  rw [rename,Function.update_of_ne apart,remove_other _ unlike]

theorem append_nil : files.append name [] = files := by
  funext place
  by_cases same : place = name
  · rw [same,append_same]
    cases files name with
    | none => rfl
    | some content => simp
  · exact append_other _ same

theorem append_append : (files.append name values).append name more = files.append name (values ++ more) := by
  funext place
  by_cases same : place = name
  · rw [same,append_same,append_same,append_same]
    cases files name with
    | none => rfl
    | some content => simp
  · rw [append_other _ same,append_other _ same,append_other _ same]

end Files
end Libnmo.Lib
