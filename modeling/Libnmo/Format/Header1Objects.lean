import Libnmo.Format.Header1

/-! The object descriptors as Header1 stores them. Every buffer that parses begins
with a list of stored descriptors, and the parse strips bit 23 from the IDs and keeps
it in the flags. -/
namespace Libnmo.Format
open Core Lib Lib.LittleEndian Lib.Cursor

/-- A descriptor in the buffer. Its name leaves room for the terminator in 32 bits. -/
structure StoredDesc where
  fileId : UInt32
  classId : UInt32
  fileIndex : UInt32
  name : List UInt8
  nameFits : name.length + 1 < 2 ^ 32

namespace StoredDesc

def bytes (stored : StoredDesc) : List UInt8 :=
  wordBytes stored.fileId ++ (wordBytes stored.classId ++ (wordBytes stored.fileIndex ++
    (wordBytes (UInt32.ofNat stored.name.length) ++ stored.name)))

/-- Bit 23 of the stored ID. -/
def referenceOnly (stored : StoredDesc) : Bool := hasFlag stored.fileId objectReferenceFlag

def parsed (stored : StoredDesc) : ObjectDesc where
  fileId := stored.fileId &&& ~~~objectReferenceFlag
  classId := stored.classId
  fileIndex := stored.fileIndex
  name := stored.name
  flags := if stored.referenceOnly then objectReferenceFlag else 0

end StoredDesc

/-- The test of the loader never meets the bit that the parse has stripped. -/
theorem referenceFlag_parsed (stored : StoredDesc) : hasFlag stored.parsed.fileId objectReferenceFlag = false := by
  simp only [StoredDesc.parsed,hasFlag,UInt32.and_assoc,bne_eq_false_iff_eq]
  rw [show ~~~objectReferenceFlag &&& objectReferenceFlag = 0 from rfl,UInt32.and_zero]

section Reading
variable {buffer : List UInt8}

theorem checkHeader1Size_run {pos needed : Nat} (inside : pos + needed ≤ buffer.length) :
    (checkHeader1Size buffer needed).run pos = (.ok (),pos) := by
  simp only [checkHeader1Size,if_pos (show pos ≤ buffer.length ∧ needed ≤ buffer.length - pos by omega)]

theorem reads_header1Field (word : UInt32) : Reads buffer (header1Field buffer) (wordBytes word) word := by
  intro pos rest ahead
  have bound := ahead.bound
  rw [length_wordBytes] at bound
  rw [header1Field,Action.bind_ok _ (checkHeader1Size_run bound)]
  exact reads_nextU32Le word pos rest ahead

theorem toNat_nameLen (stored : StoredDesc) : (UInt32.ofNat stored.name.length).toNat = stored.name.length := by
  rw [UInt32.toNat_ofNat']
  have fits := stored.nameFits
  omega

theorem reads_parseName (stored : StoredDesc) : Reads buffer (parseName buffer)
    (wordBytes (UInt32.ofNat stored.name.length) ++ stored.name) stored.name := by
  refine reads_bind (reads_header1Field _) ?_
  have length := toNat_nameLen stored
  have room : ¬ UInt32.ofNat stored.name.length + 1 = 0 := by
    intro zero
    have value := congrArg UInt32.toNat zero
    rw [UInt32.toNat_add,length] at value
    change (stored.name.length + 1) % 2 ^ 32 = 0 at value
    have fits := stored.nameFits
    omega
  rw [if_neg room]
  intro pos rest ahead
  rw [Action.bind_ok _ (Action.pure_apply _ _)]
  split
  · rw [Action.bind_ok _ (checkHeader1Size_run (by rw [length]; exact ahead.bound)),length]
    exact ⟨_,by simp only [nextBytes,ahead.slice_eq],ahead.skip⟩
  · rename_i none
    have empty : stored.name = [] := by
      rw [gt_iff_lt,UInt32.lt_iff_toNat_lt,length] at none
      exact List.length_eq_zero_iff.mp (Nat.eq_zero_of_not_pos none)
    rw [empty] at ahead ⊢
    exact ⟨pos,rfl,ahead⟩

theorem reads_parseObject (stored : StoredDesc) : Reads buffer (parseObject buffer) stored.bytes stored.parsed := by
  refine reads_bind (reads_header1Field _) (reads_bind (reads_header1Field _) (reads_bind (reads_header1Field _) ?_))
  exact reads_return (f := fun name => { stored.parsed with name := name }) (reads_parseName stored)

theorem reads_parseObjects (descs : List StoredDesc) (objectCount : UInt32) (count : descs.length = objectCount.toNat) :
    Reads buffer (parseObjects buffer objectCount) (descs.flatMap StoredDesc.bytes) (descs.map StoredDesc.parsed) := by
  rw [parseObjects]
  split
  · rename_i zero
    obtain rfl : descs = [] := List.length_eq_zero_iff.mp (by rw [count,zero]; rfl)
    exact reads_pure []
  · rw [← count]
    exact reads_times descs _ _ fun stored _ => reads_parseObject stored

end Reading

section Taking
variable {buffer : List UInt8}

theorem takes_checkHeader1Size (needed : Nat) : Takes buffer (checkHeader1Size buffer needed) fun input _ => input = [] := by
  intro pos value next inside run
  simp only [checkHeader1Size] at run
  split at run
  · simp only [Prod.mk.injEq,true_and] at run
    subst run
    exact ⟨[],buffer.drop pos,rfl,⟨inside,rfl⟩,⟨inside,rfl⟩⟩
  · simp at run

theorem takes_header1Field : Takes buffer (header1Field buffer) fun input word => input = wordBytes word := by
  exact takes_check (takes_checkHeader1Size 4) fun _ => takes_nextU32Le

/-- A copy behind its check takes as many bytes as it was asked for. -/
theorem takes_nextBytes (count : Nat) : Takes buffer (checkHeader1Size buffer count >>= fun _ => nextBytes buffer count)
    fun input bytes => input = bytes ∧ bytes.length = count := by
  intro pos bytes next inside run
  obtain ⟨_,_,checked,run⟩ := Action.bind_success run
  simp only [checkHeader1Size] at checked
  split at checked
  · rename_i room
    simp only [Prod.mk.injEq,true_and] at checked
    simp only [nextBytes,← checked,Prod.mk.injEq,Except.ok.injEq] at run
    obtain ⟨rfl,rfl⟩ := run
    have whole : pos + count ≤ buffer.length := by omega
    exact ⟨_,_,⟨rfl,length_slice buffer pos count whole⟩,slice_ahead whole⟩
  · simp at checked

theorem takes_parseName : Takes buffer (parseName buffer) fun input name =>
    name.length + 1 < 2 ^ 32 ∧ input = wordBytes (UInt32.ofNat name.length) ++ name := by
  have body (nameLen : UInt32) : Takes buffer (do
      (if nameLen + 1 = 0 then fail .nomem "Failed to allocate object name" else pure ())
      (if nameLen > 0 then do
        checkHeader1Size buffer nameLen.toNat
        nextBytes buffer nameLen.toNat
      else pure [])) fun input name => nameLen + 1 ≠ 0 ∧ input = name ∧ name.length = nameLen.toNat := by
    intro pos name next inside run
    obtain ⟨some,left⟩ := Action.check_success run
    split at left
    · obtain ⟨input,rest,same,ahead⟩ := takes_nextBytes _ pos name next inside left
      exact ⟨input,rest,⟨some,same⟩,ahead⟩
    · rename_i none
      obtain ⟨input,rest,⟨same,empty⟩,ahead⟩ := takes_pure [] pos name next inside left
      refine ⟨input,rest,⟨some,same.trans empty.symm,?_⟩,ahead⟩
      rw [gt_iff_lt,UInt32.lt_iff_toNat_lt] at none
      rw [empty]
      exact (Nat.eq_zero_of_not_pos none).symm
  refine (takes_field takes_header1Field body).imp ?_
  rintro input name ⟨nameLen,_,rfl,some,rfl,length⟩
  refine ⟨?_,by rw [length,UInt32.ofNat_toNat]⟩
  have value : (nameLen + 1).toNat ≠ 0 := fun zero => some (UInt32.toNat_inj.mp zero)
  rw [UInt32.toNat_add] at value
  change (nameLen.toNat + 1) % 2 ^ 32 ≠ 0 at value
  have bound := nameLen.toNat_lt
  omega

theorem takes_parseObject : Takes buffer (parseObject buffer) fun input desc =>
    ∃ stored : StoredDesc, input = stored.bytes ∧ desc = stored.parsed := by
  refine (takes_field takes_header1Field fun _ => takes_field takes_header1Field fun _ =>
    takes_field takes_header1Field fun _ => takes_return _ takes_parseName).imp ?_
  rintro input desc ⟨fileId,_,rfl,classId,_,rfl,fileIndex,_,rfl,name,⟨fits,rfl⟩,rfl⟩
  exact ⟨⟨fileId,classId,fileIndex,name,fits⟩,by simp [StoredDesc.bytes],rfl⟩

end Taking

/-- A buffer that parses begins with a stored descriptor for each object. -/
theorem header1Parse_stored {buffer : List UInt8} {objectCount : UInt32} {header : Header1}
    (ok : header1Parse buffer objectCount = .ok header) : ∃ (descs : List StoredDesc) (rest : List UInt8),
      descs.length = objectCount.toNat ∧ buffer = descs.flatMap StoredDesc.bytes ++ rest := by
  have all : Takes buffer (parseObjects buffer objectCount) fun input _ =>
      ∃ descs : List StoredDesc, descs.length = objectCount.toNat ∧ input = descs.flatMap StoredDesc.bytes := by
    rw [parseObjects]
    split
    · rename_i zero
      refine (takes_pure []).imp fun input _ none => ⟨[],?_,none.1⟩
      rw [zero]
      rfl
    · refine (takes_times StoredDesc.bytes StoredDesc.parsed takes_parseObject _).imp ?_
      rintro input _ ⟨descs,count,same,_⟩
      exact ⟨descs,count,same⟩
  rw [header1Parse] at ok
  generalize run : (header1Fields buffer objectCount).run 0 = out at ok
  obtain ⟨outcome,stop⟩ := out
  obtain rfl : outcome = .ok header := ok
  obtain ⟨objects,middle,first,_⟩ := Action.bind_success run
  obtain ⟨input,rest,⟨descs,count,rfl⟩,ahead,_⟩ := all 0 objects middle (Nat.zero_le _) first
  exact ⟨descs,rest,count,ahead.2⟩

/-- The descriptors are parsed as they are stored, whatever follows them. -/
theorem header1Parse_objects {descs : List StoredDesc} {rest : List UInt8} {objectCount : UInt32} {header : Header1}
    (count : descs.length = objectCount.toNat)
    (ok : header1Parse (descs.flatMap StoredDesc.bytes ++ rest) objectCount = .ok header) :
    header.objects = descs.map StoredDesc.parsed := by
  have start : Ahead (descs.flatMap StoredDesc.bytes ++ rest) 0 (descs.flatMap StoredDesc.bytes ++ rest) := ahead_start _
  obtain ⟨next,run,_⟩ := reads_parseObjects descs objectCount count 0 rest start
  rw [header1Parse,header1Fields,Action.bind_ok _ run] at ok
  generalize left : (Action.run _ next) = out at ok
  obtain ⟨outcome,stop⟩ := out
  obtain rfl : outcome = .ok header := ok
  obtain ⟨_,_,_,left⟩ := Action.bind_success left
  obtain ⟨_,_,_,left⟩ := Action.bind_success left
  obtain ⟨_,_,_,left⟩ := Action.bind_success left
  simp only [Action.pure_apply,Prod.mk.injEq,Except.ok.injEq] at left
  rw [← left.1]

end Libnmo.Format
