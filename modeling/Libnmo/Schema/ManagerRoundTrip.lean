import Libnmo.Format.ParserRuns
import Libnmo.Schema.ManagerStates
import Libnmo.Schema.SectionReads

/-! The managers of attributes and messages read back. Entry by entry the reader takes the
words that the writer left, whatever they are, so that nothing but the length of a name
matters: it is stored in 32 bits and rounded to dwords in 32 bits. -/
namespace Libnmo.Schema
open Core Format Lib Lib.LittleEndian Lib.Cursor

section Names

/-- A string of C, which has no zero before its terminator. -/
def Named (name : Option (List UInt8)) : Prop := ∃ chars, name = some chars ∧ 0 ∉ chars

/-- The length with the terminator can be rounded in 32 bits. -/
def Short (name : Option (List UInt8)) : Prop := (name.getD []).length + 4 < 2 ^ 32

/-- The length with the terminator has its place in 32 bits, but its rounding does not. -/
def Wraps (name : Option (List UInt8)) : Prop :=
  2 ^ 32 ≤ (name.getD []).length + 4 ∧ (name.getD []).length + 1 < 2 ^ 32

def TextWords (name : Option (List UInt8)) (words : List UInt32) : Prop :=
  ∃ packed, words = UInt32.ofNat ((name.getD []).length + 1) :: packed ∧ Packs packed (name.getD [] ++ [0])

variable {around : Surroundings} {data spare words rest : List UInt32} {name : Option (List UInt8)} {pos next : Nat}

theorem as_text (name : Option (List UInt8)) :
    WritesAs (1 + ((name.getD []).length + 4) / 4) (TextWords name) (writeText around name) := as_string _

theorem reads_text (named : Named name) (short : Short name) (stored : TextWords name words) :
    Reads data (readText data spare) words name := by
  obtain ⟨chars,rfl,whole⟩ := named
  obtain ⟨packed,rfl,packs⟩ := stored
  rw [Option.getD_some] at packs ⊢
  have length : (chars ++ [(0 : UInt8)]).length = chars.length + 1 := List.length_append
  have read := @reads_chunkReadString data spare _ _ packs short
  rw [length] at read
  have text := reads_return (f := fun found : Option (List UInt8) × Nat => found.1.map (·.takeWhile (· ≠ 0))) read
  have same : (chars ++ [(0 : UInt8)]).takeWhile (· ≠ 0) = chars := by
    rw [List.takeWhile_append_of_pos]
    · rw [List.takeWhile_cons_of_neg (by decide),List.append_nil]
    · exact fun byte member => decide_eq_true fun zero => whole (zero ▸ member)
  rw [Option.map_some,same] at text
  exact text

/-- Of a name that is longer than 32 bits can say the reader gives less. -/
theorem text_kept (named : Named name) (stored : TextWords name words) (ahead : Ahead data pos (words ++ rest))
    (ok : (readText data spare).run pos = (.ok name,next)) : Short name ∨ Wraps name := by
  obtain ⟨chars,rfl,_⟩ := named
  obtain ⟨packed,rfl,_⟩ := stored
  by_cases short : chars.length + 4 < 2 ^ 32
  · exact .inl short
  · refine .inr ⟨Nat.le_of_not_lt short,?_⟩
    rw [Option.getD_some] at ahead ⊢
    obtain ⟨⟨found,taken⟩,between,read,ok⟩ := Action.bind_success ok
    have text : found.map (·.takeWhile (· ≠ 0)) = some chars := Except.ok.inj (Prod.mk.inj ok).1
    obtain ⟨bytes,rfl,rfl⟩ := Option.map_eq_some_iff.mp text
    have fewer := (List.takeWhile_prefix (· ≠ 0) (l := bytes)).length_le
    have small := (chunkReadString_success read).1
    rw [Option.getD_some] at small
    by_contra large
    have exactly : (bytes.takeWhile (· ≠ 0)).length + 1 = 2 ^ 32 := by omega
    rw [exactly,show UInt32.ofNat (2 ^ 32) = 0 from rfl] at ahead
    obtain ⟨_,again,_⟩ := @reads_nullString data spare pos (packed ++ rest) ahead
    rw [read] at again
    cases (Prod.mk.inj again).1

end Names

section Attributes
variable {around : Surroundings} {data spare words rest : List UInt32} {pos next : Nat}

def CategoryWords (category : CkattributeCategory) (words : List UInt32) : Prop :=
  if category.present then ∃ text, words = 1 :: text ++ [category.flags] ∧ TextWords category.name text
  else words = [0]

def DescriptorWords (descriptor : CkattributeDescriptor) (words : List UInt32) : Prop :=
  if descriptor.present then ∃ text, words = 1 :: text ++ [descriptor.parameterTypeGuid.d1,descriptor.parameterTypeGuid.d2,
    descriptor.categoryIndex.toUInt32,descriptor.compatibleClassId.toUInt32,descriptor.flags] ∧ TextWords descriptor.name text
  else words = [0]

theorem as_category (category : CkattributeCategory) : WritesAs (3 + ((category.name.getD []).length + 4) / 4)
    (CategoryWords category) (saveCategory around category) := by
  unfold saveCategory CategoryWords
  cases category.present with
  | true =>
    refine ((as_after (as_writeWords [_]) (as_bind (as_text category.name) (as_writeWords [_]))).mono (by
      simp only [List.length_singleton]
      omega)).imp ?_
    rintro _ ⟨_,rfl,text,_,rfl,fits,rfl⟩
    exact ⟨text,rfl,fits⟩
  | false => exact (as_then (as_writeWords [_]) as_pure).mono (by simp only [List.length_singleton]; omega)

theorem as_descriptor (descriptor : CkattributeDescriptor) : WritesAs (7 + ((descriptor.name.getD []).length + 4) / 4)
    (DescriptorWords descriptor) (saveDescriptor around descriptor) := by
  unfold saveDescriptor DescriptorWords
  cases descriptor.present with
  | true =>
    refine ((as_after (as_writeWords [_]) (as_bind (as_text descriptor.name) (as_then (as_writeWords [_,_])
      (as_then (as_writeWords [_]) (as_then (as_writeWords [_]) (as_writeWords [_])))))).mono (by
      simp only [List.length_cons,List.length_nil]
      omega)).imp ?_
    rintro _ ⟨_,rfl,text,_,rfl,fits,rfl⟩
    exact ⟨text,rfl,fits⟩
  | false => exact (as_then (as_writeWords [_]) as_pure).mono (by simp only [List.length_singleton]; omega)

/-- An absent entry has nothing, a present one has a name. -/
def CategoryValid (category : CkattributeCategory) : Prop :=
  if category.present then Named category.name else category = {}

def DescriptorValid (descriptor : CkattributeDescriptor) : Prop :=
  if descriptor.present then Named descriptor.name else descriptor = {}

theorem reads_category {category : CkattributeCategory} (valid : CategoryValid category)
    (short : Short category.name) (stored : CategoryWords category words) :
    Reads data (readCategory data spare) words category := by
  unfold CategoryValid at valid
  unfold CategoryWords at stored
  obtain ⟨name,flags,present⟩ := category
  cases present with
  | true =>
    obtain ⟨text,rfl,fits⟩ := stored
    exact reads_cons (reads_chunkReadInt 1) (reads_bind (reads_text valid short fits) (reads_return (reads_chunkReadDword flags)))
  | false =>
    rw [if_neg Bool.false_ne_true] at valid stored
    rw [stored,valid]
    exact reads_cons (reads_chunkReadInt 0) (reads_pure _)

theorem reads_descriptor {descriptor : CkattributeDescriptor} (valid : DescriptorValid descriptor)
    (short : Short descriptor.name) (stored : DescriptorWords descriptor words) :
    Reads data (readDescriptor data spare) words descriptor := by
  unfold DescriptorValid at valid
  unfold DescriptorWords at stored
  obtain ⟨name,guid,index,classId,flags,present⟩ := descriptor
  cases present with
  | true =>
    obtain ⟨text,rfl,fits⟩ := stored
    refine reads_cons (reads_chunkReadInt 1) (reads_bind (reads_text valid short fits) ?_)
    refine reads_bind (show Reads _ _ [guid.d1,guid.d2] _ from reads_chunkReadGuid guid) ?_
    exact reads_cons (reads_chunkReadInt _) (reads_cons (reads_chunkReadInt _) (reads_return (reads_chunkReadDword flags)))
  | false =>
    rw [if_neg Bool.false_ne_true] at valid stored
    rw [stored,valid]
    exact reads_cons (reads_chunkReadInt 0) (reads_pure _)

theorem category_kept {category : CkattributeCategory} (valid : CategoryValid category)
    (stored : CategoryWords category words) (ahead : Ahead data pos (words ++ rest))
    (ok : (readCategory data spare).run pos = (.ok category,next)) : Short category.name ∨ Wraps category.name := by
  unfold CategoryValid at valid
  unfold CategoryWords at stored
  obtain ⟨name,flags,present⟩ := category
  cases present with
  | true =>
    obtain ⟨text,rfl,fits⟩ := stored
    obtain ⟨start,first,ahead'⟩ := reads_chunkReadInt 1 pos _ ahead
    rw [readCategory,Action.bind_ok _ first,if_pos (by decide)] at ok
    obtain ⟨found,_,read,ok⟩ := Action.bind_success ok
    obtain ⟨_,_,_,ok⟩ := Action.bind_success ok
    have same := congrArg CkattributeCategory.name (Except.ok.inj (Prod.mk.inj ok).1)
    obtain rfl : found = name := same
    have inside : Ahead data start (text ++ ([flags] ++ rest)) := by
      rw [← List.append_assoc]
      exact ahead'
    exact text_kept valid fits inside read
  | false =>
    rw [if_neg Bool.false_ne_true] at valid
    rw [valid]
    exact .inl (show 0 + 4 < 2 ^ 32 by decide)

theorem descriptor_kept {descriptor : CkattributeDescriptor} (valid : DescriptorValid descriptor)
    (stored : DescriptorWords descriptor words) (ahead : Ahead data pos (words ++ rest))
    (ok : (readDescriptor data spare).run pos = (.ok descriptor,next)) : Short descriptor.name ∨ Wraps descriptor.name := by
  unfold DescriptorValid at valid
  unfold DescriptorWords at stored
  obtain ⟨name,guid,index,classId,flags,present⟩ := descriptor
  cases present with
  | true =>
    obtain ⟨text,rfl,fits⟩ := stored
    obtain ⟨start,first,ahead'⟩ := reads_chunkReadInt 1 pos _ ahead
    rw [readDescriptor,Action.bind_ok _ first,if_pos (by decide)] at ok
    obtain ⟨found,_,read,ok⟩ := Action.bind_success ok
    obtain ⟨_,_,_,ok⟩ := Action.bind_success ok
    obtain ⟨_,_,_,ok⟩ := Action.bind_success ok
    obtain ⟨_,_,_,ok⟩ := Action.bind_success ok
    obtain ⟨_,_,_,ok⟩ := Action.bind_success ok
    have same := congrArg CkattributeDescriptor.name (Except.ok.inj (Prod.mk.inj ok).1)
    obtain rfl : found = name := same
    have inside : Ahead data start (text ++ ([guid.d1,guid.d2,index.toUInt32,classId.toUInt32,flags] ++ rest)) := by
      rw [← List.append_assoc]
      exact ahead'
    exact text_kept valid fits inside read
  | false =>
    rw [if_neg Bool.false_ne_true] at valid
    rw [valid]
    exact .inl (show 0 + 4 < 2 ^ 32 by decide)

end Attributes

section Counts

/-- A count within the limit is read as it is and accepted. -/
theorem count_kept {n limit : Nat} {most : Int32} (same : most.toInt = limit) (few : n ≤ limit) :
    ¬ ((UInt32.ofNat n).toInt32 < 0 ∨ (UInt32.ofNat n).toInt32 > most) ∧ (UInt32.ofNat n).toInt32.toUInt32.toNat = n := by
  have small := most.toInt_lt
  have value := toInt_ofNat (show n < 2 ^ 31 by omega)
  refine ⟨?_,?_⟩
  · rw [gt_iff_lt,Int32.lt_iff_toInt_lt,Int32.lt_iff_toInt_lt,value,same,show Int32.toInt 0 = 0 from rfl]
    omega
  · rw [show (UInt32.ofNat n).toInt32.toUInt32 = UInt32.ofNat n from rfl,UInt32.toNat_ofNat',Nat.mod_eq_of_lt (by omega)]

end Counts

section Managers
variable {around : Surroundings}

/-- Entries as many as the reader takes, and valid. -/
structure AttributesValid (s : CkattributemanagerState) : Prop where
  fewCategories : s.categories.length ≤ 10000
  fewAttributes : s.attributes.length ≤ 100000
  categories : ∀ category ∈ s.categories, CategoryValid category
  attributes : ∀ descriptor ∈ s.attributes, DescriptorValid descriptor

structure MessagesValid (s : CkmessagemanagerState) : Prop where
  few : s.messageTypeNames.length ≤ 10000
  named : ∀ name ∈ s.messageTypeNames, Named name

def CkattributemanagerState.names (s : CkattributemanagerState) : List (Option (List UInt8)) :=
  s.categories.map CkattributeCategory.name ++ s.attributes.map CkattributeDescriptor.name

def AttributesKept (around : Surroundings) (s : CkattributemanagerState) : Prop :=
  startedBack around (ckAttributeManagerSerialize around s) ckAttributeManagerDeserialize = .ok s

def MessagesKept (around : Surroundings) (s : CkmessagemanagerState) : Prop :=
  startedBack around (ckMessageManagerSerialize around s) ckMessageManagerDeserialize = .ok s

def AttributeManagerWords (s : CkattributemanagerState) (words : List UInt32) : Prop :=
  ∃ parts parts', words = stateSaveAttributeManager :: UInt32.ofNat s.categories.length ::
    UInt32.ofNat s.attributes.length :: (parts.flatten ++ parts'.flatten) ∧
    List.Forall₂ CategoryWords s.categories parts ∧ List.Forall₂ DescriptorWords s.attributes parts'

theorem as_attributeManager (s : CkattributemanagerState) : WritesAs
    (3 + (s.categories.map fun category => 3 + ((category.name.getD []).length + 4) / 4).sum +
      (s.attributes.map fun descriptor => 7 + ((descriptor.name.getD []).length + 4) / 4).sum)
    (AttributeManagerWords s) (ckAttributeManagerSerialize around s) := by
  refine ((as_after (as_identifier _) (as_after (as_writeWords [_]) (as_after (as_writeWords [_])
    (as_bind (as_each as_category s.categories) (as_each as_descriptor s.attributes))))).mono ?_).imp ?_
  · simp only [List.length_singleton]
    omega
  · rintro _ ⟨_,rfl,_,rfl,_,rfl,_,_,rfl,⟨parts,rfl,categories⟩,parts',rfl,attributes⟩
    exact ⟨parts,parts',rfl,categories,attributes⟩

theorem as_messageManager {s : CkmessagemanagerState} (some : s.messageTypeNames.length ≠ 0) : WritesAs
    (2 + (s.messageTypeNames.map fun name => 1 + ((name.getD []).length + 4) / 4).sum)
    (fun words => ∃ parts, words = stateSaveMessageManager :: UInt32.ofNat s.messageTypeNames.length :: parts.flatten ∧
      List.Forall₂ TextWords s.messageTypeNames parts) (ckMessageManagerSerialize around s) := by
  rw [ckMessageManagerSerialize,if_neg some]
  refine ((as_after (as_identifier _) (as_after (as_writeWords [_])
    (as_each as_text s.messageTypeNames))).mono ?_).imp ?_
  · simp only [List.length_singleton]
    omega
  · rintro _ ⟨_,rfl,_,rfl,parts,rfl,names⟩
    exact ⟨parts,rfl,names⟩

theorem sum_short {α : Type} {values : List α} (size : α → Nat) {limit : Nat} (most : Nat) (few : values.length ≤ limit)
    (short : ∀ value ∈ values, size value ≤ most) : (values.map size).sum ≤ limit * most := by
  have each : (values.map size).sum ≤ values.length * most := by
    clear few
    induction values with
    | nil => exact Nat.zero_le _
    | cons value rest ih =>
      rw [List.forall_mem_cons] at short
      rw [List.map_cons,List.sum_cons,List.length_cons,Nat.succ_mul,Nat.add_comm]
      exact Nat.add_le_add (ih short.2) short.1
  exact each.trans (Nat.mul_le_mul_right most few)

theorem attributesKept_short {s : CkattributemanagerState} (valid : AttributesValid s)
    (short : ∀ name ∈ s.names, Short name) : AttributesKept around s := by
  have shortCategories (category : CkattributeCategory) (member : category ∈ s.categories) : Short category.name :=
    short _ (List.mem_append_left _ (List.mem_map_of_mem member))
  have shortAttributes (descriptor : CkattributeDescriptor) (member : descriptor ∈ s.attributes) : Short descriptor.name :=
    short _ (List.mem_append_right _ (List.mem_map_of_mem member))
  refine startedBack_of (as_attributeManager s) ?_ ?_
  · have categories := sum_short (fun category => 3 + ((category.name.getD []).length + 4) / 4) (2 ^ 30 + 3)
      valid.fewCategories fun category member => by
        have bound : (category.name.getD []).length + 4 < 2 ^ 32 := shortCategories category member
        omega
    have attributes := sum_short (fun descriptor => 7 + ((descriptor.name.getD []).length + 4) / 4)
      (2 ^ 30 + 7) valid.fewAttributes fun descriptor member => by
        have bound : (descriptor.name.getD []).length + 4 < 2 ^ 32 := shortAttributes descriptor member
        omega
    omega
  · rintro c ⟨parts,parts',words,categories,attributes⟩ fresh
    obtain ⟨ahead,ran⟩ := leading_section {} readAttributeManager words fresh
    rw [ckAttributeManagerDeserialize,ran]
    have reads : Reads c.words (readAttributeManager c.words c.spare) (UInt32.ofNat s.categories.length ::
        UInt32.ofNat s.attributes.length :: (parts.flatten ++ parts'.flatten)) s := by
      obtain ⟨inside,number⟩ := count_kept (show Int32.toInt 10000 = (10000 : Nat) from rfl) valid.fewCategories
      obtain ⟨inside',number'⟩ := count_kept (show Int32.toInt 100000 = (100000 : Nat) from rfl) valid.fewAttributes
      refine reads_cons (reads_chunkReadInt _) (reads_cons (reads_chunkReadInt _) ?_)
      rw [if_neg inside,if_neg inside',number,number']
      refine reads_bind (reads_shaped (fun category member words fits => ?_) categories)
        (reads_return (f := fun attributes => CkattributemanagerState.mk s.categories attributes)
          (reads_shaped (fun descriptor member words fits => ?_) attributes))
      · exact reads_category (valid.categories category member) (shortCategories category member) fits
      · exact reads_descriptor (valid.attributes descriptor member) (shortAttributes descriptor member) fits
    obtain ⟨next,read,_⟩ := reads 1 [] (by rw [List.append_nil]; exact ahead)
    rw [read]

theorem short_of_attributesKept {s : CkattributemanagerState} (valid : AttributesValid s) (kept : AttributesKept around s) :
    (∀ name ∈ s.names, Short name) ∨ ∃ name ∈ s.names, Wraps name := by
  obtain ⟨c,⟨parts,parts',words,categories,attributes⟩,fresh,back⟩ := startedBack_success (as_attributeManager s) kept
  obtain ⟨ahead,ran⟩ := leading_section {} readAttributeManager words fresh
  rw [ckAttributeManagerDeserialize,ran] at back
  obtain ⟨inside,number⟩ := count_kept (show Int32.toInt 10000 = (10000 : Nat) from rfl) valid.fewCategories
  obtain ⟨inside',number'⟩ := count_kept (show Int32.toInt 100000 = (100000 : Nat) from rfl) valid.fewAttributes
  obtain ⟨pos,counted,ahead⟩ := reads_chunkReadInt _ _ _ ahead
  obtain ⟨pos',counted',ahead⟩ := reads_chunkReadInt _ _ _ ahead
  have ok := (Prod.ext back rfl : (readAttributeManager c.words c.spare).run 1 = (.ok s,_))
  rw [readAttributeManager,Action.bind_ok _ counted,Action.bind_ok _ counted',if_neg inside,if_neg inside',number,
    number'] at ok
  obtain ⟨first,between,one,ok⟩ := Action.bind_success ok
  obtain ⟨second,last,two,ok⟩ := Action.bind_success ok
  have same := Except.ok.inj (Prod.mk.inj ok).1
  obtain rfl : first = s.categories := congrArg CkattributemanagerState.categories same
  obtain rfl : second = s.attributes := congrArg CkattributemanagerState.attributes same
  have named (name : Option (List UInt8)) : name ∈ s.names ↔ (∃ category ∈ s.categories, category.name = name) ∨
      ∃ descriptor ∈ s.attributes, descriptor.name = name := by
    rw [CkattributemanagerState.names,List.mem_append,List.mem_map,List.mem_map]
  obtain ⟨short,ahead⟩ | ⟨odd,member,wraps⟩ := good_of_times (fun category => Short category.name)
    (fun category => Wraps category.name)
    (fun category member words short => reads_category (valid.categories category member) short)
    (fun category member words more start stop stored ahead ran =>
      category_kept (valid.categories category member) stored ahead ran) categories ahead one
  · rw [← List.append_nil parts'.flatten] at ahead
    obtain ⟨short',_⟩ | ⟨odd,member,wraps⟩ := good_of_times (fun descriptor => Short descriptor.name)
      (fun descriptor => Wraps descriptor.name)
      (fun descriptor member words short => reads_descriptor (valid.attributes descriptor member) short)
      (fun descriptor member words more start stop stored ahead ran =>
        descriptor_kept (valid.attributes descriptor member) stored ahead ran) attributes ahead two
    · refine .inl fun name member => ?_
      rcases (named name).mp member with ⟨category,inside,rfl⟩ | ⟨descriptor,inside,rfl⟩
      · exact short category inside
      · exact short' descriptor inside
    · exact .inr ⟨_,(named _).mpr (.inr ⟨odd,member,rfl⟩),wraps⟩
  · exact .inr ⟨_,(named _).mpr (.inl ⟨odd,member,rfl⟩),wraps⟩

/-- Without message types nothing is written, and nothing is found. -/
theorem messagesKept_empty : MessagesKept around {} := by
  refine startedBack_of (as_pure : WritesAs 0 (· = []) (pure ())) (by decide) ?_
  intro c empty _
  have nowhere : c.words.findIdx? (· = stateSaveMessageManager) = none := by
    rw [empty]
    rfl
  rw [ckMessageManagerDeserialize,Action.bind_ok _ (found_none nowhere)]
  rfl

theorem readMessageTypes_counted {s : CkmessagemanagerState} {data rest : List UInt32} {pos : Nat} (spare : List UInt32)
    (valid : MessagesValid s) (some : s.messageTypeNames.length ≠ 0)
    (ahead : Ahead data pos (UInt32.ofNat s.messageTypeNames.length :: rest)) :
    ∃ next, Ahead data next rest ∧ (readMessageTypes data spare).run pos = (do
      let messageTypeNames ← (readText data spare).times s.messageTypeNames.length
      pure { messageTypeNames } : Run Nat CkmessagemanagerState).run next := by
  obtain ⟨inside,number⟩ := count_kept (show Int32.toInt 10000 = (10000 : Nat) from rfl) valid.few
  obtain ⟨next,counted,ahead⟩ := reads_chunkReadInt _ _ _ ahead
  have few := valid.few
  have positive : ¬ (UInt32.ofNat s.messageTypeNames.length).toInt32 ≤ 0 := by
    rw [Int32.le_iff_toInt_le,toInt_ofNat (by omega),show Int32.toInt 0 = 0 from rfl]
    omega
  refine ⟨next,ahead,?_⟩
  rw [readMessageTypes,Action.bind_ok _ counted,if_neg positive,if_neg (not_or.mp inside).2,number]

theorem messagesKept_short {s : CkmessagemanagerState} (valid : MessagesValid s)
    (short : ∀ name ∈ s.messageTypeNames, Short name) : MessagesKept around s := by
  by_cases some : s.messageTypeNames.length = 0
  · have empty : s = {} := by
      cases s
      exact congrArg CkmessagemanagerState.mk (List.length_eq_zero_iff.mp some)
    rw [empty]
    exact messagesKept_empty
  · refine startedBack_of (as_messageManager some) ?_ ?_
    · have names := sum_short (fun name : Option (List UInt8) => 1 + ((name.getD []).length + 4) / 4)
        (2 ^ 30 + 1) valid.few fun name member => by
          have bound : (name.getD []).length + 4 < 2 ^ 32 := short name member
          omega
      omega
    · rintro c ⟨parts,words,stored⟩ fresh
      obtain ⟨ahead,ran⟩ := leading_section {} readMessageTypes words fresh
      obtain ⟨next,ahead,counted⟩ := readMessageTypes_counted c.spare valid some ahead
      rw [ckMessageManagerDeserialize,ran,counted]
      have reads : Reads c.words ((readText c.words c.spare).times s.messageTypeNames.length) parts.flatten
          s.messageTypeNames :=
        reads_shaped (fun name member words fits => reads_text (valid.named name member) (short name member) fits) stored
      obtain ⟨last,read,_⟩ := reads next [] (by rw [List.append_nil]; exact ahead)
      rw [Action.bind_ok _ read]
      rfl

theorem short_of_messagesKept {s : CkmessagemanagerState} (valid : MessagesValid s) (kept : MessagesKept around s) :
    (∀ name ∈ s.messageTypeNames, Short name) ∨ ∃ name ∈ s.messageTypeNames, Wraps name := by
  by_cases some : s.messageTypeNames.length = 0
  · rw [List.length_eq_zero_iff.mp some]
    exact .inl nofun
  · obtain ⟨c,⟨parts,words,stored⟩,fresh,back⟩ := startedBack_success (as_messageManager some) kept
    obtain ⟨ahead,ran⟩ := leading_section {} readMessageTypes words fresh
    obtain ⟨next,ahead,counted⟩ := readMessageTypes_counted c.spare valid some ahead
    rw [ckMessageManagerDeserialize,ran,counted] at back
    obtain ⟨names,last,one,ok⟩ := Action.bind_success (Prod.ext back rfl)
    obtain rfl : names = s.messageTypeNames := congrArg CkmessagemanagerState.messageTypeNames
      (Except.ok.inj (Prod.mk.inj ok).1)
    rw [← List.append_nil parts.flatten] at ahead
    obtain ⟨short,_⟩ | odd := good_of_times Short Wraps
      (fun name member words short => reads_text (valid.named name member) short)
      (fun name member words more start stop stored ahead ran => text_kept (valid.named name member) stored ahead ran)
      stored ahead one
    · exact .inl short
    · exact .inr odd

/-- The managers come back where the names are short, and else not, unless a name has one of the three lengths
whose rounding alone wraps: the reader then goes on in the name itself. -/
theorem managersKept (around : Surroundings) :
    (∀ s, AttributesValid s → ((∀ name ∈ s.names, Short name) → AttributesKept around s) ∧
      (AttributesKept around s → (∀ name ∈ s.names, Short name) ∨ ∃ name ∈ s.names, Wraps name)) ∧
    ∀ s, MessagesValid s → ((∀ name ∈ s.messageTypeNames, Short name) → MessagesKept around s) ∧
      (MessagesKept around s → (∀ name ∈ s.messageTypeNames, Short name) ∨ ∃ name ∈ s.messageTypeNames, Wraps name) :=
  ⟨fun _ valid => ⟨attributesKept_short valid,short_of_attributesKept valid⟩,
    fun _ valid => ⟨messagesKept_short valid,short_of_messagesKept valid⟩⟩

/-- A present category and an absent attribute. -/
def sampleAttributes : CkattributemanagerState where
  categories := [{ name := some [71,97], flags := 3, present := true }]
  attributes := [{}]

theorem sampleAttributes_kept : AttributesKept {} sampleAttributes ∧ MessagesKept {} ⟨[some [],some [104,105]]⟩ := by
  have attributes : AttributesValid sampleAttributes := by
    refine ⟨by decide,by decide,?_,?_⟩
    · exact List.forall_mem_singleton.mpr ⟨[71,97],rfl,by decide⟩
    · exact List.forall_mem_singleton.mpr rfl
  have messages : MessagesValid ⟨[some [],some [104,105]]⟩ :=
    ⟨by decide,List.forall_mem_cons.mpr ⟨⟨[],rfl,by decide⟩,List.forall_mem_singleton.mpr ⟨[104,105],rfl,by decide⟩⟩⟩
  refine ⟨((managersKept {}).1 _ attributes).1 ?_,((managersKept {}).2 _ messages).1 ?_⟩
  · exact List.forall_mem_cons.mpr ⟨show 2 + 4 < 2 ^ 32 by decide,
      List.forall_mem_singleton.mpr (show 0 + 4 < 2 ^ 32 by decide)⟩
  · exact List.forall_mem_cons.mpr ⟨show 0 + 4 < 2 ^ 32 by decide,
      List.forall_mem_singleton.mpr (show 2 + 4 < 2 ^ 32 by decide)⟩

/-- A name of 4 GiB, whose length is stored as one. -/
def longName : List UInt8 := List.replicate (2 ^ 32) 97

theorem longName_lost : MessagesValid ⟨[some longName]⟩ ∧ ¬ MessagesKept {} ⟨[some longName]⟩ := by
  have length : ((some longName).getD []).length = 2 ^ 32 := List.length_replicate
  have valid : MessagesValid ⟨[some longName]⟩ := by
    refine ⟨show 1 ≤ 10000 by decide,List.forall_mem_singleton.mpr ⟨longName,rfl,?_⟩⟩
    intro member
    exact absurd (List.eq_of_mem_replicate member) (by decide)
  refine ⟨valid,fun kept => ?_⟩
  rcases short_of_messagesKept valid kept with short | ⟨name,member,_,wraps⟩
  · have few : ((some longName).getD []).length + 4 < 2 ^ 32 := short _ (List.mem_singleton.mpr rfl)
    omega
  · rw [List.mem_singleton.mp member] at wraps
    omega

end Managers

end Libnmo.Schema
