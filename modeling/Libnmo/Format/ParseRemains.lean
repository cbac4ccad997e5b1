import Libnmo.Format.ChunkParseBounds

/-! What a parse leaves in the chunk, also when it stops early. A field is written when the buffer has
it, and a list when it is not empty and lies in the buffer; the rest of the chunk is as it was. -/
namespace Libnmo.Format
open Core Lib Lib.LittleEndian Lib.Cursor

/-- A list of a known version that is not empty and lies in the buffer. -/
def Landed (buf : List UInt32) (span : Span) : Prop :=
  versionByte buf ≤ 7 ∧ span.count ≠ 0 ∧ span.stop ≤ buf.length

instance (buf : List UInt32) (span : Span) : Decidable (Landed buf span) := inferInstanceAs (Decidable (_ ∧ _ ∧ _))

/-- The buffer has the class of versions 4 and 5. -/
def HasClass (buf : List UInt32) : Prop := 6 ≤ buf.length

/-- The buffer has a header of version 6 or 7. -/
def Compact (buf : List UInt32) : Prop := 1 ≤ buf.length ∧ ¬ versionByte buf ≤ 5 ∧ versionByte buf ≤ 7

instance (buf : List UInt32) : Decidable (HasClass buf) := inferInstanceAs (Decidable (_ ≤ _))

instance (buf : List UInt32) : Decidable (Compact buf) := inferInstanceAs (Decidable (_ ∧ _ ∧ _))

def versioned (buf : List UInt32) (c : Chunk) : Chunk :=
  { c with dataVersion := (dwordAt buf 0).toUInt8.toUInt32, chunkVersion := (versionByte buf).toUInt32 }

/-- The chunk once the header fields that the buffer has are stored. -/
def headedBy (buf : List UInt32) (c : Chunk) : Chunk :=
  { c with
    classId := if versionByte buf < 5 ∧ HasClass buf then dwordAt buf 1 else c.classId
    dataVersion := if 1 ≤ buf.length then (dwordAt buf 0).toUInt8.toUInt32 else c.dataVersion
    chunkVersion := if 1 ≤ buf.length then (versionByte buf).toUInt32 else c.chunkVersion
    chunkClassId :=
      if Compact buf then (dwordAt buf 0 >>> 8).toUInt8
      else if versionByte buf ≤ 5 ∧ HasClass buf then (dwordAt buf 1).toUInt8
      else c.chunkClassId
    chunkOptions := if Compact buf then (optionByte buf).toUInt32 else c.chunkOptions }

/-- The store of a list that landed. -/
def landIn (store : List UInt32 → Chunk → Chunk) (buf : List UInt32) (span : Span) (c : Chunk) : Chunk :=
  if Landed buf span then store (slice buf span.offset span.count) c else c

/-- The lists that landed, one after the other. -/
def listsIn (buf : List UInt32) : Chunk → Chunk :=
  ((landIn (storing buf optionMan storeManagers) buf (declared buf).managers ∘
    landIn (storing buf optionChn storeChunkRefs) buf (declared buf).chunkRefs) ∘
    landIn (storing buf optionIds storeIds) buf (declared buf).ids) ∘ landIn storeData buf (declared buf).data

/-- What a parse of `buf` into `c` leaves. -/
def remains (buf : List UInt32) (c : Chunk) : Chunk := listsIn buf (headedBy buf c)

section Stages
variable {buf : List UInt32} {store : List UInt32 → Chunk → Chunk} {span : Span} {pos : Nat} {c : Chunk}

theorem landIn_beyond (beyond : buf.length < span.stop) : landIn store buf span c = c := by
  rw [landIn,if_neg]
  intro landed
  exact Nat.not_lt.mpr landed.2.2 beyond

/-- The parse went on to `stop`, inside the buffer, or it stopped before because `stop` lies beyond, and in both
cases it made `stage c` of the chunk. -/
def Reaches (buf : List UInt32) (stage : Chunk → Chunk) (stop : Nat) (c : Chunk) (result : Except Stop Unit × Parse) :
    Prop :=
  (result = (.ok (),⟨stop,stage c⟩) ∧ stop ≤ buf.length) ∨
    ∃ failed s, result = (.error failed,s) ∧ s.chunk = stage c ∧ buf.length < stop

theorem Reaches.chunk {stage : Chunk → Chunk} {stop : Nat} {result : Except Stop Unit × Parse}
    (reaches : Reaches buf stage stop c result) : result.2.chunk = stage c := by
  rcases reaches with ⟨run,_⟩ | ⟨failed,s,run,same,_⟩
  · rw [run]
  · rw [run]
    exact same

theorem reaches_bind {first : Run Parse Unit} {next : Unit → Run Parse Unit} {stage later : Chunk → Chunk}
    {between stop : Nat} (head : Reaches buf stage between c (first.run ⟨pos,c⟩)) (forward : between ≤ stop)
    (beyond : buf.length < between → ∀ c, later c = c)
    (tail : between ≤ buf.length → ∀ c, Reaches buf later stop c ((next ()).run ⟨between,c⟩)) :
    Reaches buf (later ∘ stage) stop c ((first >>= next).run ⟨pos,c⟩) := by
  rcases head with ⟨run,inside⟩ | ⟨failed,s,run,same,outside⟩
  · rw [Action.bind_ok _ run]
    exact tail inside (stage c)
  · rw [Action.bind_error _ run]
    exact .inr ⟨failed,s,rfl,by rw [same,Function.comp_apply,beyond outside],by omega⟩

theorem placeAt_landed (known : versionByte buf ≤ 7) (inside : span.stop ≤ buf.length) :
    placeAt store buf span.offset span.count c = landIn store buf span c := by
  rw [placeAt,landIn]
  split
  · rename_i empty
    rw [if_neg fun landed => landed.2.1 empty]
  · rename_i some
    rw [if_pos ⟨known,some,inside⟩]

theorem reaches_array (known : versionByte buf ≤ 7) {count : UInt32} (spans : span = ⟨pos,count.toNat⟩)
    (message : String) (within : pos ≤ buf.length) :
    Reaches buf (landIn store buf span) span.stop c ((parseArray buf count message store).run ⟨pos,c⟩) := by
  subst spans
  rcases parseArray_cases buf count message store pos c with ⟨run,inside⟩ | ⟨run,_,outside⟩
  · have room : (Span.mk pos count.toNat).stop ≤ buf.length := by
      simp only [Span.stop]
      omega
    left
    rw [run,← placeAt_landed known room]
    exact ⟨rfl,room⟩
  · exact .inr ⟨_,_,run,(landIn_beyond outside).symm,outside⟩

theorem reaches_section (known : versionByte buf ≤ 7) {flag : UInt32} (spans : span = declaredSection buf flag pos)
    (countMessage arrayMessage : String) (within : pos ≤ buf.length) :
    Reaches buf (landIn store buf span) span.stop c
      ((parseSection buf (optionByte buf).toUInt32 flag countMessage arrayMessage store).run ⟨pos,c⟩) := by
  subst spans
  unfold parseSection declaredSection
  cases flagged : hasFlag (optionByte buf).toUInt32 flag with
  | false =>
    have empty : landIn store buf ⟨pos,0⟩ c = c := if_neg fun landed => landed.2.1 rfl
    left
    simp only [Bool.false_eq_true,if_false,empty]
    exact ⟨rfl,within⟩
  | true =>
    simp only [if_true]
    by_cases room : pos < buf.length
    · rw [Action.bind_ok _ (require_inside _ (by simpa using room)),Action.bind_ok _ (nextDword_inside buf pos c room)]
      exact reaches_array known rfl _ room
    · have outside : buf.length < (Span.mk (pos + 1) (dwordAt buf pos).toNat).stop := by
        simp only [Span.stop]
        omega
      exact .inr ⟨_,_,Action.bind_error _ (require_outside _ (by simpa using room)),
        (landIn_beyond outside).symm,outside⟩

theorem remains_short (short : buf.length < (declared buf).data.stop) (c : Chunk) : remains buf c = headedBy buf c := by
  obtain ⟨first,second,third⟩ := declared_ordered buf
  simp only [remains,listsIn,Function.comp_apply]
  rw [landIn_beyond short,landIn_beyond (by omega),landIn_beyond (by omega),landIn_beyond (by omega)]

theorem storing_early (low : versionByte buf ≤ 5) (option : UInt32) (store : List UInt32 → Chunk → Chunk) :
    storing buf option store = fun list c => addOption option (store list c) := by
  funext list c
  exact if_pos low

theorem storing_late (late : ¬ versionByte buf ≤ 5) (option : UInt32) (store : List UInt32 → Chunk → Chunk) :
    storing buf option store = store := by
  funext list c
  exact if_neg late

theorem remains_version1 (early : versionByte buf < 5) (some : 1 ≤ buf.length) (c : Chunk) :
    ((parseVersion1 buf).run ⟨1,versioned buf c⟩).2.chunk = remains buf c := by
  have layout := declared_version1 early
  have low : versionByte buf ≤ 5 := UInt8.le_of_lt early
  have known : versionByte buf ≤ 7 := UInt8.le_trans low (by decide)
  obtain ⟨first,second,_⟩ := declared_ordered buf
  by_cases header : 6 ≤ buf.length
  · have head : headedBy buf c =
        { versioned buf c with classId := dwordAt buf 1, chunkClassId := (dwordAt buf 1 &&& 0xFF).toUInt8 } := by
      rw [and_low_byte,UInt8.toUInt8_toUInt32]
      simp [headedBy,versioned,Compact,HasClass,early,header,low,some]
    have managers : landIn (storing buf optionMan storeManagers) buf (declared buf).managers = id := by
      funext c
      rw [layout]
      exact if_neg fun landed => landed.2.1 rfl
    rw [remains,listsIn,managers,Function.id_comp,head,storing_early low,storing_early low]
    rw [parseVersion1,earlyHeader_run _ _ header]
    have data : (declared buf).data = ⟨6,(dwordAt buf 2).toNat⟩ := by rw [layout]; rfl
    have ids : (declared buf).ids = ⟨(declared buf).data.stop,(dwordAt buf 4).toNat⟩ := by rw [layout]; rfl
    have refs : (declared buf).chunkRefs = ⟨(declared buf).ids.stop,(dwordAt buf 5).toNat⟩ := by rw [layout]; rfl
    apply Reaches.chunk
    refine reaches_bind (reaches_array known data _ header) (first.trans second) (fun beyond c => ?_) fun inside c => ?_
    · rw [Function.comp_apply,landIn_beyond (by omega),landIn_beyond (by omega)]
    refine reaches_bind (reaches_array known ids _ inside) second (fun beyond c => ?_) fun inside c => ?_
    · exact landIn_beyond (by omega)
    · exact reaches_array known refs _ inside
  · have short : buf.length < (declared buf).data.stop := by
      rw [layout]
      simp only [declaredAfter,Span.stop]
      omega
    rw [remains_short short,parseVersion1,Action.bind_error _ (require_outside _ (by simpa using header))]
    simp [headedBy,versioned,Compact,HasClass,header,low,some]

theorem remains_version2 (second : versionByte buf = 5) (some : 1 ≤ buf.length) (c : Chunk) :
    ((parseVersion2 buf).run ⟨1,versioned buf c⟩).2.chunk = remains buf c := by
  have layout := declared_version2 second
  have low : versionByte buf ≤ 5 := by rw [second]; decide
  have late : ¬ versionByte buf < 5 := by rw [second]; decide
  have known : versionByte buf ≤ 7 := UInt8.le_trans low (by decide)
  obtain ⟨afterData,afterIds,afterRefs⟩ := declared_ordered buf
  have start : 7 ≤ (declared buf).data.stop := by
    rw [layout]
    simp only [declaredAfter,Span.stop]
    omega
  by_cases header : 6 ≤ buf.length
  · have head : headedBy buf c = { versioned buf c with chunkClassId := (dwordAt buf 1).toUInt8 } := by
      simp [headedBy,versioned,Compact,HasClass,late,header,low,some]
    rw [parseVersion2,earlyHeader_run _ _ header]
    by_cases whole : 7 ≤ buf.length
    · rw [remains,listsIn,head,storing_early low,storing_early low,storing_early low]
      rw [Action.bind_ok _ (nextDword_inside buf 6 _ (by omega))]
      have data : (declared buf).data = ⟨7,(dwordAt buf 2).toNat⟩ := by rw [layout]; rfl
      have ids : (declared buf).ids = ⟨(declared buf).data.stop,(dwordAt buf 4).toNat⟩ := by rw [layout]; rfl
      have refs : (declared buf).chunkRefs = ⟨(declared buf).ids.stop,(dwordAt buf 5).toNat⟩ := by rw [layout]; rfl
      have managers : (declared buf).managers = ⟨(declared buf).chunkRefs.stop,(dwordAt buf 6).toNat⟩ := by
        rw [layout]
        rfl
      apply Reaches.chunk
      refine reaches_bind (reaches_array known data _ whole) (afterData.trans (afterIds.trans afterRefs))
        (fun beyond c => ?_) fun inside c => ?_
      · simp only [Function.comp_apply]
        rw [landIn_beyond (by omega),landIn_beyond (by omega),landIn_beyond (by omega)]
      refine reaches_bind (reaches_array known ids _ inside) (afterIds.trans afterRefs)
        (fun beyond c => ?_) fun inside c => ?_
      · rw [Function.comp_apply,landIn_beyond (by omega),landIn_beyond (by omega)]
      refine reaches_bind (reaches_array known refs _ inside) afterRefs (fun beyond c => ?_) fun inside c => ?_
      · exact landIn_beyond (by omega)
      · exact reaches_array known managers _ inside
    · rw [remains_short (by omega),head,Action.bind_error _ (nextDword_outside buf 6 _ (by omega))]
  · rw [remains_short (by omega),parseVersion2,Action.bind_error _ (require_outside _ (by simpa using header))]
    simp [headedBy,versioned,Compact,HasClass,header,low,some]

theorem remains_compact (late : ¬ versionByte buf ≤ 5) (known : versionByte buf ≤ 7) (some : 1 ≤ buf.length) (c : Chunk) :
    ((parseCompact buf (dwordAt buf 0 &&& 0x0000FFFF).toUInt16
      ((dwordAt buf 0 &&& 0xFFFF0000) >>> 16).toUInt16).run ⟨1,versioned buf c⟩).2.chunk = remains buf c := by
  have layout := declared_compact late
  have early : ¬ versionByte buf < 5 := fun early => late (UInt8.le_of_lt early)
  obtain ⟨afterData,afterIds,afterRefs⟩ := declared_ordered buf
  have head : headedBy buf c = { versioned buf c with
      chunkClassId := (dwordAt buf 0 >>> 8).toUInt8, chunkOptions := (optionByte buf).toUInt32 } := by
    simp [headedBy,versioned,Compact,early,late,known,some]
  rw [parseCompact,highHalf_highByte,Action.bind_ok _ (setChunk_apply _ _),lowHalf_highByte,lowHalf_lowByte,
    highHalf_lowByte]
  by_cases room : 2 ≤ buf.length
  · rw [remains,listsIn,head,storing_late late,storing_late late,storing_late late]
    rw [Action.bind_ok _ (require_inside _ (decide_eq_true (Nat.lt_of_succ_le room))),
      Action.bind_ok _ (nextDword_inside buf 1 _ (by omega))]
    have data : (declared buf).data = ⟨2,(dwordAt buf 1).toNat⟩ := by rw [layout]
    have ids : (declared buf).ids = declaredSection buf optionIds (declared buf).data.stop := by rw [layout]
    have refs : (declared buf).chunkRefs = declaredSection buf optionChn (declared buf).ids.stop := by rw [layout]
    have managers : (declared buf).managers = declaredSection buf optionMan (declared buf).chunkRefs.stop := by
      rw [layout]
    apply Reaches.chunk
    refine reaches_bind (reaches_array known data _ room) (afterData.trans (afterIds.trans afterRefs))
      (fun beyond c => ?_) fun inside c => ?_
    · simp only [Function.comp_apply]
      rw [landIn_beyond (by omega),landIn_beyond (by omega),landIn_beyond (by omega)]
    refine reaches_bind (reaches_section known ids _ _ inside) (afterIds.trans afterRefs)
      (fun beyond c => ?_) fun inside c => ?_
    · rw [Function.comp_apply,landIn_beyond (by omega),landIn_beyond (by omega)]
    refine reaches_bind (reaches_section known refs _ _ inside) afterRefs (fun beyond c => ?_) fun inside c => ?_
    · exact landIn_beyond (by omega)
    · exact reaches_section known managers _ _ inside
  · have short : buf.length < (declared buf).data.stop := by
      rw [layout]
      simp only [Span.stop]
      omega
    rw [remains_short short,head,Action.bind_error _ (require_outside _ (decide_eq_false room))]
    rfl

theorem data_behind (buf : List UInt32) : 1 ≤ (declared buf).data.stop := by
  rw [declared]
  split
  · simp only [declaredAfter,Span.stop]
    omega
  · split
    · simp only [declaredAfter,Span.stop]
      omega
    · simp only [Span.stop]
      omega

theorem remains_nil (c : Chunk) : remains [] c = c := by
  have short : ([] : List UInt32).length < (declared []).data.stop := data_behind []
  rw [remains_short short]
  cases c
  rfl

theorem remains_dwords (c : Chunk) : ((parseDwords buf).run ⟨0,c⟩).2.chunk = remains buf c := by
  by_cases some : 1 ≤ buf.length
  · rw [parseDwords_versions some]
    split
    · rename_i early
      exact remains_version1 early some c
    · rename_i later
      split
      · rename_i second
        exact remains_version2 second some c
      · rename_i third
        have late : ¬ versionByte buf ≤ 5 := fun low => (UInt8.lt_or_eq_of_le low).elim later third
        split
        · rename_i known
          exact remains_compact late known some c
        · rename_i unknown
          have none (store : List UInt32 → Chunk → Chunk) (span : Span) : landIn store buf span = id := by
            funext c
            exact if_neg fun landed => unknown landed.1
          rw [remains,listsIn,none,none,none,none]
          simp [headedBy,Compact,unknown,some,later,late]
          rfl
  · obtain rfl : buf = [] := List.length_eq_zero_iff.mp (by omega)
    rw [remains_nil]
    rfl

/-- Where the parse begins at all, it leaves the remains, whatever its outcome. -/
theorem chunkParse_remains (bytes : List UInt8) (filled : bytes.length ≠ 0) (c : Chunk) :
    ((chunkParse bytes).run c).2 = remains (decodeWords bytes) { c with rawData := some bytes } := by
  rw [chunkParse]
  dsimp only
  rw [if_neg filled]
  exact remains_dwords _

end Stages

/-- The list that landed, or the old one. -/
def landedList (buf : List UInt32) (span : Span) (before : List UInt32) : List UInt32 :=
  if Landed buf span then slice buf span.offset span.count else before

/-- The flag that versions 4 and 5 add for a list that landed. -/
def landedFlag (buf : List UInt32) (option : UInt32) (span : Span) : UInt32 :=
  if Landed buf span ∧ versionByte buf ≤ 5 then option else 0

section Fields
variable (buf : List UInt32) (span : Span) (c : Chunk)

theorem landIn_data : (landIn storeData buf span c).words = landedList buf span c.words ∧
    landIn storeData buf span c =
      { c with data := (landIn storeData buf span c).data, spare := (landIn storeData buf span c).spare } := by
  cases c
  unfold landIn landedList
  split
  · exact ⟨rfl,rfl⟩
  · exact ⟨rfl,rfl⟩

theorem landIn_ids : landIn (storing buf optionIds storeIds) buf span c =
    { c with ids := landedList buf span c.ids, chunkOptions := c.chunkOptions ||| landedFlag buf optionIds span } := by
  cases c
  unfold landIn landedList landedFlag storing
  split
  · split <;> simp [*,storeIds,addOption]
  · simp [*]

theorem landIn_chunkRefs : landIn (storing buf optionChn storeChunkRefs) buf span c =
    { c with
      chunkRefs := landedList buf span c.chunkRefs
      chunkOptions := c.chunkOptions ||| landedFlag buf optionChn span } := by
  cases c
  unfold landIn landedList landedFlag storing
  split
  · split <;> simp [*,storeChunkRefs,addOption]
  · simp [*]

theorem landIn_managers : landIn (storing buf optionMan storeManagers) buf span c =
    { c with
      managers := landedList buf span c.managers
      chunkOptions := c.chunkOptions ||| landedFlag buf optionMan span } := by
  cases c
  unfold landIn landedList landedFlag storing
  split
  · split <;> simp [*,storeManagers,addOption]
  · simp [*]

end Fields

/-- The flags that a parse adds to the options. -/
def landedFlags (buf : List UInt32) : UInt32 :=
  landedFlag buf optionIds (declared buf).ids ||| landedFlag buf optionChn (declared buf).chunkRefs |||
    landedFlag buf optionMan (declared buf).managers

/-- The fields that a parse is asked for. -/
structure ParsedAlike (c d : Chunk) : Prop where
  classId : c.classId = d.classId
  dataVersion : c.dataVersion = d.dataVersion
  chunkVersion : c.chunkVersion = d.chunkVersion
  chunkOptions : c.chunkOptions = d.chunkOptions
  words : c.words = d.words
  ids : c.ids = d.ids
  chunkRefs : c.chunkRefs = d.chunkRefs
  managers : c.managers = d.managers

/-- The chunks agree in what the buffer does not replace: a class where it has none, a list that does not
land, and options that no compact header sets, up to the flags that are added. -/
structure KeptAlike (buf : List UInt32) (c d : Chunk) : Prop where
  classId : ¬ (versionByte buf < 5 ∧ HasClass buf) → c.classId = d.classId
  dataVersion : ¬ 1 ≤ buf.length → c.dataVersion = d.dataVersion
  chunkVersion : ¬ 1 ≤ buf.length → c.chunkVersion = d.chunkVersion
  chunkOptions : ¬ Compact buf → c.chunkOptions ||| landedFlags buf = d.chunkOptions ||| landedFlags buf
  words : ¬ Landed buf (declared buf).data → c.words = d.words
  ids : ¬ Landed buf (declared buf).ids → c.ids = d.ids
  chunkRefs : ¬ Landed buf (declared buf).chunkRefs → c.chunkRefs = d.chunkRefs
  managers : ¬ Landed buf (declared buf).managers → c.managers = d.managers

section
variable {buf : List UInt32} {c d : Chunk}

theorem words_remains (buf : List UInt32) (c : Chunk) :
    (remains buf c).words = landedList buf (declared buf).data c.words := by
  rw [remains,listsIn]
  simp only [Function.comp_apply,landIn_managers,landIn_chunkRefs,landIn_ids]
  exact (landIn_data buf (declared buf).data (headedBy buf c)).1

theorem fields_remains (buf : List UInt32) (c : Chunk) :
    (remains buf c).classId = (headedBy buf c).classId ∧
      (remains buf c).dataVersion = (headedBy buf c).dataVersion ∧
      (remains buf c).chunkVersion = (headedBy buf c).chunkVersion ∧
      (remains buf c).chunkOptions = (headedBy buf c).chunkOptions ||| landedFlags buf ∧
      (remains buf c).ids = landedList buf (declared buf).ids c.ids ∧
      (remains buf c).chunkRefs = landedList buf (declared buf).chunkRefs c.chunkRefs ∧
      (remains buf c).managers = landedList buf (declared buf).managers c.managers := by
  rw [remains,listsIn]
  simp only [Function.comp_apply,landIn_managers,landIn_chunkRefs,landIn_ids]
  rw [(landIn_data buf (declared buf).data (headedBy buf c)).2]
  refine ⟨rfl,rfl,rfl,?_,rfl,rfl,rfl⟩
  rw [landedFlags,← UInt32.or_assoc,← UInt32.or_assoc]

theorem ite_alike {α : Type} {written : Prop} [Decidable written] {value left right : α} :
    (if written then value else left) = (if written then value else right) ↔ (¬ written → left = right) := by
  split
  · rename_i holds
    exact ⟨fun _ kept => absurd holds kept,fun _ => rfl⟩
  · rename_i kept
    exact ⟨fun same _ => same,fun same => same kept⟩

theorem remainsAlike_iff : ParsedAlike (remains buf c) (remains buf d) ↔ KeptAlike buf c d := by
  obtain ⟨classId,dataVersion,chunkVersion,chunkOptions,ids,chunkRefs,managers⟩ := fields_remains buf c
  obtain ⟨classId',dataVersion',chunkVersion',chunkOptions',ids',chunkRefs',managers'⟩ := fields_remains buf d
  have options : (headedBy buf c).chunkOptions ||| landedFlags buf = (headedBy buf d).chunkOptions ||| landedFlags buf ↔
      (¬ Compact buf → c.chunkOptions ||| landedFlags buf = d.chunkOptions ||| landedFlags buf) := by
    simp only [headedBy,apply_ite (· ||| landedFlags buf)]
    exact ite_alike
  constructor
  · intro alike
    exact {
      classId := ite_alike.mp (classId.symm.trans (alike.classId.trans classId'))
      dataVersion := ite_alike.mp (dataVersion.symm.trans (alike.dataVersion.trans dataVersion'))
      chunkVersion := ite_alike.mp (chunkVersion.symm.trans (alike.chunkVersion.trans chunkVersion'))
      chunkOptions := options.mp (chunkOptions.symm.trans (alike.chunkOptions.trans chunkOptions'))
      words := ite_alike.mp ((words_remains buf c).symm.trans (alike.words.trans (words_remains buf d)))
      ids := ite_alike.mp (ids.symm.trans (alike.ids.trans ids'))
      chunkRefs := ite_alike.mp (chunkRefs.symm.trans (alike.chunkRefs.trans chunkRefs'))
      managers := ite_alike.mp (managers.symm.trans (alike.managers.trans managers')) }
  · intro kept
    exact {
      classId := classId.trans ((ite_alike.mpr kept.classId).trans classId'.symm)
      dataVersion := dataVersion.trans ((ite_alike.mpr kept.dataVersion).trans dataVersion'.symm)
      chunkVersion := chunkVersion.trans ((ite_alike.mpr kept.chunkVersion).trans chunkVersion'.symm)
      chunkOptions := chunkOptions.trans ((options.mpr kept.chunkOptions).trans chunkOptions'.symm)
      words := (words_remains buf c).trans ((ite_alike.mpr kept.words).trans (words_remains buf d).symm)
      ids := ids.trans ((ite_alike.mpr kept.ids).trans ids'.symm)
      chunkRefs := chunkRefs.trans ((ite_alike.mpr kept.chunkRefs).trans chunkRefs'.symm)
      managers := managers.trans ((ite_alike.mpr kept.managers).trans managers'.symm) }

/-- Two chunks agree after a parse of the same bytes exactly where they agreed in what the bytes do not replace. -/
theorem parsedAlike_iff (bytes : List UInt8) (c d : Chunk) :
    ParsedAlike ((chunkParse bytes).run c).2 ((chunkParse bytes).run d).2 ↔ KeptAlike (decodeWords bytes) c d := by
  by_cases empty : bytes.length = 0
  · obtain rfl := List.length_eq_zero_iff.mp empty
    have alike : ParsedAlike (remains [] c) (remains [] d) ↔ KeptAlike [] c d := remainsAlike_iff
    rw [remains_nil,remains_nil] at alike
    exact alike
  · rw [chunkParse_remains bytes empty,chunkParse_remains bytes empty,remainsAlike_iff]
    constructor
    · intro kept
      exact { kept with }
    · intro kept
      exact { kept with }

end

/-- A version-7 header without data. -/
def emptyHeader : List UInt8 := [0,0,7,0,0,0,0,0]

/-- A chunk that had data and sub-chunk positions has them after the parse of an empty one. -/
theorem emptyHeader_remains : ¬ ParsedAlike ((chunkParse emptyHeader).run chunkCreate).2
    ((chunkParse emptyHeader).run { chunkCreate with data := some [9], chunkRefs := [5] }).2 := by
  intro alike
  have words := alike.words
  cases words

end Libnmo.Format
