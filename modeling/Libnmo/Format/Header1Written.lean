import Mathlib.Algebra.Order.BigOperators.Group.List
import Mathlib.Algebra.Order.Ring.Nat
import Libnmo.Format.Header1Stored

/-! What the serializer of Header1 writes. It succeeds when the GUIDs of no category
are so many that their size wraps, and the size it computes is then that of the bytes
of its three tables. -/
namespace Libnmo.Format
open Core Lib Lib.LittleEndian

/-- From any point inside the buffer the action appends these bytes, or fails where they do not fit. -/
def Puts (bufferSize : Nat) (action : Run (List UInt8) Unit) (bytes : List UInt8) : Prop :=
  ∀ written, written.length ≤ bufferSize →
    (written.length + bytes.length ≤ bufferSize → action.run written = (.ok (),written ++ bytes)) ∧
    ∀ after, action.run written = (.ok (),after) → written.length + bytes.length ≤ bufferSize

section
variable {bufferSize : Nat}

theorem puts_put (bytes : List UInt8) (message : String) : Puts bufferSize (put bufferSize bytes message) bytes := by
  intro written inside
  constructor
  · intro fits
    rw [put]
    simp only [gt_iff_lt,if_neg (Nat.not_lt.mpr fits)]
  · intro after ok
    rw [put] at ok
    dsimp only at ok
    split at ok
    · simp at ok
    · omega

theorem puts_pure : Puts bufferSize (pure ()) [] := by
  intro written inside
  constructor
  · intro _
    rw [List.append_nil]
    rfl
  · intro _ _
    exact inside

theorem Puts.success {action : Run (List UInt8) Unit} {bytes written after : List UInt8} (puts : Puts bufferSize action bytes)
    (inside : written.length ≤ bufferSize) (ok : action.run written = (.ok (),after)) : after = written ++ bytes := by
  have fits := (puts written inside).2 after ok
  rw [(puts written inside).1 fits,Prod.mk.injEq] at ok
  exact ok.2.symm

theorem puts_bind {first next : Run (List UInt8) Unit} {before after : List UInt8} (head : Puts bufferSize first before)
    (tail : Puts bufferSize next after) : Puts bufferSize (first >>= fun _ => next) (before ++ after) := by
  intro written inside
  rw [List.length_append,← Nat.add_assoc]
  constructor
  · intro fits
    have between : (written ++ before).length ≤ bufferSize := by
      rw [List.length_append]
      omega
    rw [Action.bind_ok _ ((head written inside).1 (by omega)),(tail _ between).1 (by rw [List.length_append]; exact fits),
      List.append_assoc]
  · intro last ok
    obtain ⟨_,middle,ran,ok⟩ := Action.bind_success ok
    have room := (head written inside).2 middle ran
    rw [head.success inside ran] at ok
    have between : (written ++ before).length ≤ bufferSize := by
      rw [List.length_append]
      exact room
    have whole := (tail _ between).2 last ok
    rwa [List.length_append] at whole

theorem puts_putEach {α : Type} {step : α → Run (List UInt8) Unit} {bytes : α → List UInt8} (items : List α)
    (each : ∀ a ∈ items, Puts bufferSize (step a) (bytes a)) :
    Puts bufferSize (putEach step items) (items.flatMap bytes) := by
  induction items with
  | nil => exact puts_pure
  | cons a items ih =>
    have rest := ih fun other member => each other (List.mem_cons_of_mem a member)
    exact puts_bind (each a (List.mem_cons_self ..)) rest

/-- The part of the name that is stored. -/
def nameBytes (name : List UInt8) : List UInt8 := name.take (nameLen name).toNat

theorem length_nameBytes (name : List UInt8) : (nameBytes name).length = (nameLen name).toNat := by
  rw [nameBytes,List.length_take,Nat.min_eq_left (nameLen_le name)]

theorem puts_putName (name : List UInt8) (message : String) :
    Puts bufferSize (putName bufferSize name message) (nameBytes name) := by
  rw [putName]
  split
  · exact puts_put _ message
  · rename_i none
    have empty : nameBytes name = [] := by
      rw [gt_iff_lt,UInt32.lt_iff_toNat_lt] at none
      rw [← List.length_eq_zero_iff,length_nameBytes]
      exact Nat.eq_zero_of_not_pos none
    rw [empty]
    exact puts_pure

theorem puts_serializeObject (obj : ObjectDesc) : Puts bufferSize (serializeObject bufferSize obj) (descBytes obj) :=
  puts_bind (puts_put _ _) (puts_bind (puts_put _ _) (puts_bind (puts_put _ _)
    (puts_bind (puts_put _ _) (puts_putName obj.name _))))

def guidBytes (dep : PluginDep) : List UInt8 := wordBytes dep.guid.d1 ++ wordBytes dep.guid.d2

/-- A category that has dependencies, with them. -/
def categoryBytes (category : UInt32) (deps : List PluginDep) : List UInt8 :=
  wordBytes category ++ (wordBytes (count32 deps) ++ deps.flatMap guidBytes)

/-- The categories that are written. -/
def usedCategories (deps : List PluginDep) : List UInt32 :=
  pluginCategories.filter fun category => count32 (inCategory deps category) > 0

def pluginBytes (deps : List PluginDep) : List UInt8 :=
  wordBytes (count32 (usedCategories deps)) ++
    (usedCategories deps).flatMap fun category => categoryBytes category (inCategory deps category)

theorem flatMap_filter {α β : Type} (p : α → Bool) (f : α → List β) (items : List α) :
    (items.filter p).flatMap f = items.flatMap fun a => if p a then f a else [] := by
  induction items with
  | nil => rfl
  | cons a items ih =>
    rw [List.filter_cons,List.flatMap_cons,← ih]
    split <;> rfl

theorem puts_serializeCategory (deps : List PluginDep) (category : UInt32) :
    Puts bufferSize (serializeCategory bufferSize deps category)
      (if count32 (inCategory deps category) > 0 then categoryBytes category (inCategory deps category) else []) := by
  rw [serializeCategory]
  by_cases none : count32 (inCategory deps category) = 0
  · have unused : ¬ count32 (inCategory deps category) > 0 := by
      rw [none]
      exact fun absurd => UInt32.lt_irrefl 0 absurd
    rw [if_pos none,if_neg unused]
    exact puts_pure
  · have used : count32 (inCategory deps category) > 0 := UInt32.pos_iff_ne_zero.mpr none
    rw [if_neg none,if_pos used]
    exact puts_bind (puts_put _ _) (puts_bind (puts_put _ _) (puts_putEach _ fun dep _ => puts_put (guidBytes dep) _))

theorem puts_serializePluginDeps (deps : List PluginDep) :
    Puts bufferSize (serializePluginDeps bufferSize deps) (pluginBytes deps) := by
  have tables : Puts bufferSize (putEach (serializeCategory bufferSize deps) pluginCategories) _ :=
    puts_putEach pluginCategories fun category _ => puts_serializeCategory deps category
  have same := flatMap_filter (fun category => decide (count32 (inCategory deps category) > 0))
    (fun category => categoryBytes category (inCategory deps category)) pluginCategories
  simp only [decide_eq_true_eq] at same
  rw [← same] at tables
  exact puts_bind (puts_put _ _) tables

def fileBytes (file : IncludedFileDesc) : List UInt8 :=
  wordBytes (nameLen file.name) ++ (nameBytes file.name ++ wordBytes file.dataSize)

theorem puts_serializeIncludedFile (file : IncludedFileDesc) :
    Puts bufferSize (serializeIncludedFile bufferSize file) (fileBytes file) :=
  puts_bind (puts_put _ _) (puts_bind (puts_putName file.name _) (puts_put _ _))

end

/-- The arrays have as many entries as the counts say. -/
structure Header1.Filled (header : Header1) : Prop where
  objects : header.objects.length = header.objectCount.toNat
  deps : header.pluginDeps.length = header.pluginDepCount.toNat
  files : header.includedFiles.length = header.includedFileCount.toNat

def filesSize (files : List IncludedFileDesc) : Nat := (files.map includedFileSize).sum

/-- The count of the included files, the size of their table, and the table. -/
def filesBytes (header : Header1) : List UInt8 :=
  wordBytes header.includedFileCount ++ wordBytes (UInt32.ofNat (filesSize header.includedFiles)) ++
    header.includedFiles.flatMap fileBytes

def header1Bytes (header : Header1) : List UInt8 :=
  header.objects.flatMap descBytes ++ (pluginBytes header.pluginDeps ++ filesBytes header)

/-- The GUIDs of each category have a size in 32 bits. -/
def GuidsFit (deps : List PluginDep) : Prop :=
  ∀ category ∈ pluginCategories, (inCategory deps category).length * 8 < 2 ^ 32

theorem sum_map_le_iff {α : Type} {f g : α → Nat} (items : List α) (below : ∀ a ∈ items, g a ≤ f a) :
    (items.map f).sum ≤ (items.map g).sum ↔ ∀ a ∈ items, f a = g a := by
  induction items with
  | nil => simp
  | cons a items ih =>
    have tail : ∀ b ∈ items, g b ≤ f b := fun b member => below b (List.mem_cons_of_mem a member)
    have rest := List.sum_le_sum tail
    have first := below a (List.mem_cons_self ..)
    rw [List.forall_mem_cons,← ih tail,List.map_cons,List.map_cons,List.sum_cons,List.sum_cons]
    omega

theorem length_flatMap_eq {α : Type} {bytes : α → List UInt8} {size : α → Nat} (items : List α)
    (each : ∀ a ∈ items, (bytes a).length = size a) : (items.flatMap bytes).length = (items.map size).sum := by
  rw [List.length_flatMap]
  congr 1
  exact List.map_congr_left each

theorem length_descBytes (obj : ObjectDesc) : (descBytes obj).length = 16 + (nameLen obj.name).toNat := by
  have name := length_nameBytes obj.name
  rw [nameBytes] at name
  simp only [descBytes,List.length_append,length_wordBytes,name]
  omega

theorem length_fileBytes (file : IncludedFileDesc) : (fileBytes file).length = includedFileSize file := by
  simp only [fileBytes,List.length_append,length_wordBytes,length_nameBytes,includedFileSize]
  omega

theorem length_categoryBytes (category : UInt32) (deps : List PluginDep) :
    (categoryBytes category deps).length = 8 + deps.length * 8 := by
  have guids : (deps.flatMap guidBytes).length = (deps.map fun _ => 8).sum :=
    length_flatMap_eq deps fun dep _ => by simp [guidBytes,length_wordBytes]
  rw [List.map_const',List.sum_replicate_nat] at guids
  simp only [categoryBytes,List.length_append,length_wordBytes,guids]
  omega

theorem inCategory_length_le (deps : List PluginDep) (category : UInt32) :
    (inCategory deps category).length ≤ deps.length := List.length_filter_le ..

/-- The size computed for the tables is enough for them exactly when no product of eight wraps. -/
theorem pluginBytes_fits {deps : List PluginDep} (few : deps.length < 2 ^ 32) :
    (pluginBytes deps).length ≤ 4 + (pluginCategories.map fun category =>
      if count32 (inCategory deps category) > 0 then 8 + (count32 (inCategory deps category) * 8).toNat else 0).sum ↔
    GuidsFit deps := by
  have count (category : UInt32) : (count32 (inCategory deps category)).toNat = (inCategory deps category).length :=
    toNat_count32 _ ((inCategory_length_le deps category).trans_lt few)
  have product (category : UInt32) : (count32 (inCategory deps category) * 8).toNat =
      (inCategory deps category).length * 8 % 2 ^ 32 := by
    rw [UInt32.toNat_mul,count]
    rfl
  have written : (pluginBytes deps).length = 4 + (pluginCategories.map fun category =>
      if count32 (inCategory deps category) > 0 then 8 + (inCategory deps category).length * 8 else 0).sum := by
    rw [pluginBytes,List.length_append,length_wordBytes,usedCategories,flatMap_filter]
    congr 1
    refine length_flatMap_eq pluginCategories fun category _ => ?_
    simp only [decide_eq_true_eq]
    split
    · exact length_categoryBytes category _
    · rfl
  rw [written,Nat.add_le_add_iff_left,sum_map_le_iff]
  · refine forall₂_congr fun category _ => ?_
    rw [product]
    have used : count32 (inCategory deps category) > 0 ↔ 0 < (inCategory deps category).length := by
      rw [gt_iff_lt,UInt32.lt_iff_toNat_lt,count]
      rfl
    split
    · omega
    · rename_i unused
      rw [used] at unused
      omega
  · intro category _
    rw [product]
    split
    · have small := Nat.mod_le ((inCategory deps category).length * 8) (2 ^ 32)
      omega
    · exact Nat.le_refl 0

theorem puts_serializeTables (header : Header1) (bufferSize : Nat) : Puts bufferSize (serializeTables bufferSize header.objects
    header.pluginDeps header.includedFileCount header.includedFiles) (header1Bytes header) :=
  puts_bind (puts_putEach _ fun obj _ => puts_serializeObject obj) (puts_bind (puts_serializePluginDeps _)
    (puts_bind (puts_put _ _) (puts_putEach _ fun file _ => puts_serializeIncludedFile file)))

section
variable {header : Header1} (filled : header.Filled)
include filled

theorem header1Bytes_fits : (header1Bytes header).length ≤
    calculateSerializeSize header.objects header.pluginDeps header.includedFiles ↔ GuidsFit header.pluginDeps := by
  have few : header.pluginDeps.length < 2 ^ 32 := by
    rw [filled.deps]
    exact UInt32.toNat_lt _
  rw [← pluginBytes_fits few,header1Bytes,filesBytes,calculateSerializeSize]
  simp only [List.length_append,length_wordBytes,length_flatMap_eq header.objects fun obj _ => length_descBytes obj,
    length_flatMap_eq header.includedFiles fun file _ => length_fileBytes file]
  omega

/-- The serializer succeeds when the sizes of the GUIDs do not wrap, and has then written the three tables. -/
theorem header1Serialize_iff (bytes : List UInt8) :
    header1Serialize header = .ok bytes ↔ GuidsFit header.pluginDeps ∧ bytes = header1Bytes header := by
  have whole {α : Type} {count : UInt32} {table : List α} (all : table.length = count.toNat) :
      tableEntries count table = .ok table := by
    rw [tableEntries,if_neg (by omega),← all,List.take_length]
  rw [← header1Bytes_fits filled,header1Serialize,whole filled.objects,whole filled.deps,whole filled.files]
  have puts := puts_serializeTables header
    (calculateSerializeSize header.objects header.pluginDeps header.includedFiles) [] (Nat.zero_le _)
  rw [List.nil_append,List.length_nil,Nat.zero_add] at puts
  dsimp only [bind,Except.bind]
  constructor
  · intro ok
    split at ok
    · rename_i ran
      have fits := puts.2 _ ran
      rw [puts.1 fits,Prod.mk.injEq] at ran
      rw [← Except.ok.inj ok,← ran.2]
      exact ⟨fits,rfl⟩
    · simp at ok
  · rintro ⟨fits,rfl⟩
    rw [puts.1 fits]

end

end Libnmo.Format
