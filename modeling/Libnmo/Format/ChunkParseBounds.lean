import Libnmo.Format.ChunkVersion1

/-! What `nmo_chunk_parse` reads. The lists a buffer declares are computed from
its words alone; a parse that succeeds copied exactly these, and the only read
past the end is the sixth header word of version 5. -/
namespace Libnmo.Format
open Core Lib Lib.LittleEndian Lib.Cursor

structure Span where
  offset : Nat
  count : Nat
  deriving DecidableEq, Repr

def Span.stop (span : Span) : Nat := span.offset + span.count

structure Declared where
  data : Span
  ids : Span
  chunkRefs : Span
  managers : Span
  deriving DecidableEq, Repr

def dwordAt (buf : List UInt32) (i : Nat) : UInt32 := buf.getD i 0

def versionByte (buf : List UInt32) : UInt8 := (dwordAt buf 0 >>> 16).toUInt8

def optionByte (buf : List UInt32) : UInt8 := (dwordAt buf 0 >>> 24).toUInt8

/-- Lists one after the other behind a header of fixed size. -/
def declaredAfter (header data ids chunkRefs managers : Nat) : Declared where
  data := ⟨header,data⟩
  ids := ⟨header + data,ids⟩
  chunkRefs := ⟨header + data + ids,chunkRefs⟩
  managers := ⟨header + data + ids + chunkRefs,managers⟩

def declaredSection (buf : List UInt32) (flag : UInt32) (pos : Nat) : Span :=
  if hasFlag (optionByte buf).toUInt32 flag then ⟨pos + 1,(dwordAt buf pos).toNat⟩ else ⟨pos,0⟩

/-- The lists a buffer announces in its header and counts. -/
def declared (buf : List UInt32) : Declared :=
  let count := fun i => (dwordAt buf i).toNat
  if versionByte buf < 5 then declaredAfter 6 (count 2) (count 4) (count 5) 0
  else if versionByte buf = 5 then declaredAfter 7 (count 2) (count 4) (count 5) (count 6)
  else
    let data : Span := ⟨2,count 1⟩
    let ids := declaredSection buf optionIds data.stop
    let chunkRefs := declaredSection buf optionChn ids.stop
    ⟨data,ids,chunkRefs,declaredSection buf optionMan chunkRefs.stop⟩

/-- The piece of the buffer a span covers, or the old list where the span is empty. -/
def taken (buf : List UInt32) (span : Span) (before : List UInt32) : List UInt32 :=
  if span.count = 0 then before else slice buf span.offset span.count

/-- A list is left alone for a count of zero, else it is the declared piece of the buffer. -/
def Copied (buf : List UInt32) (span : Span) (before after : List UInt32) : Prop :=
  if span.count = 0 then after = before
  else span.stop ≤ buf.length ∧ after.length = span.count ∧ after = slice buf span.offset span.count

structure ListsCopied (buf : List UInt32) (before after : Chunk) : Prop where
  data : Copied buf (declared buf).data before.words after.words
  ids : Copied buf (declared buf).ids before.ids after.ids
  chunkRefs : Copied buf (declared buf).chunkRefs before.chunkRefs after.chunkRefs
  managers : Copied buf (declared buf).managers before.managers after.managers

def placeAt (store : List UInt32 → Chunk → Chunk) (buf : List UInt32) (pos count : Nat) (c : Chunk) : Chunk :=
  if count = 0 then c else store (slice buf pos count) c

theorem nextDword_inside (buf : List UInt32) (pos : Nat) (c : Chunk) (inside : pos < buf.length) :
    (nextDword buf).run ⟨pos,c⟩ = (.ok (dwordAt buf pos),⟨pos + 1,c⟩) := by
  simp [nextDword,dwordAt,List.getElem?_eq_getElem inside]

theorem nextDword_outside (buf : List UInt32) (pos : Nat) (c : Chunk) (outside : buf.length ≤ pos) :
    (nextDword buf).run ⟨pos,c⟩ = (.error (.overread pos),⟨pos,c⟩) := by
  simp [nextDword,List.getElem?_eq_none outside]

theorem parseArray_cases (buf : List UInt32) (count : UInt32) (message : String)
    (store : List UInt32 → Chunk → Chunk) (pos : Nat) (c : Chunk) :
    ((parseArray buf count message store).run ⟨pos,c⟩ =
        (.ok (),⟨pos + count.toNat,placeAt store buf pos count.toNat c⟩) ∧
      (count.toNat = 0 ∨ pos + count.toNat ≤ buf.length)) ∨
    ((parseArray buf count message store).run ⟨pos,c⟩ = (.error (.error .invalidState message),⟨pos,c⟩) ∧
      0 < count.toNat ∧ buf.length < pos + count.toNat) := by
  by_cases zero : count = 0
  · subst zero
    left
    simp [parseArray,placeAt]
  · have positive : count > 0 := UInt32.pos_iff_ne_zero.mpr zero
    have value : 0 < count.toNat := UInt32.lt_iff_toNat_lt.mp positive
    by_cases inside : pos + count.toNat ≤ buf.length
    · left
      refine ⟨?_,.inr inside⟩
      simp [parseArray,positive,Action.bind_apply,require,copyDwords,inside,setChunk,placeAt,
        Nat.ne_of_gt value]
    · right
      refine ⟨?_,value,by omega⟩
      simp [parseArray,positive,Action.bind_apply,require,inside]

theorem parseSection_cases (buf : List UInt32) (options flag : UInt32) (countMessage arrayMessage : String)
    (store : List UInt32 → Chunk → Chunk) (pos : Nat) (c : Chunk) (within : pos ≤ buf.length)
    (same : hasFlag options flag = hasFlag (optionByte buf).toUInt32 flag) :
    ((parseSection buf options flag countMessage arrayMessage store).run ⟨pos,c⟩ =
        (.ok (),⟨(declaredSection buf flag pos).stop,
          placeAt store buf (declaredSection buf flag pos).offset (declaredSection buf flag pos).count c⟩) ∧
      (declaredSection buf flag pos).stop ≤ buf.length) ∨
    (∃ message s, (parseSection buf options flag countMessage arrayMessage store).run ⟨pos,c⟩ =
        (.error (.error .invalidState message),s) ∧ buf.length < (declaredSection buf flag pos).stop) := by
  unfold parseSection declaredSection
  rw [same]
  cases flagged : hasFlag (optionByte buf).toUInt32 flag with
  | false =>
    left
    simpa [placeAt,Span.stop] using within
  | true =>
    by_cases room : pos < buf.length
    · have counted : (require (fun s => s.pos < buf.length) countMessage >>= fun _ => do
          let count ← nextDword buf
          parseArray buf count arrayMessage store).run ⟨pos,c⟩ =
          (parseArray buf (dwordAt buf pos) arrayMessage store).run ⟨pos + 1,c⟩ := by
        rw [Action.bind_ok _ (show (require _ countMessage).run ⟨pos,c⟩ = (.ok (),⟨pos,c⟩) by simp [require,room]),
          Action.bind_ok _ (nextDword_inside buf pos c room)]
      simp only [if_true,counted,Span.stop]
      rcases parseArray_cases buf (dwordAt buf pos) arrayMessage store (pos + 1) c with
        ⟨run,inside⟩ | ⟨run,positive,outside⟩
      · exact .inl ⟨run,by omega⟩
      · exact .inr ⟨arrayMessage,_,run,outside⟩
    · right
      refine ⟨countMessage,⟨pos,c⟩,?_,by simp only [if_true,Span.stop]; omega⟩
      simp [require,room,Action.bind_apply]

/-- The chunk once the header fields of its version are stored. -/
def headed (buf : List UInt32) (c : Chunk) : Chunk :=
  let word := dwordAt buf 1
  let c := { c with
    dataVersion := (dwordAt buf 0).toUInt8.toUInt32
    chunkVersion := (versionByte buf).toUInt32 }
  if versionByte buf < 5 then { c with classId := word, chunkClassId := (word &&& 0xFF).toUInt8 }
  else if versionByte buf = 5 then { c with chunkClassId := word.toUInt8 }
  else { c with
    chunkClassId := (dwordAt buf 0 >>> 8).toUInt8
    chunkOptions := (optionByte buf).toUInt32 }

/-- Versions 4 and 5 record a list that is present in the options. -/
def storing (buf : List UInt32) (option : UInt32) (store : List UInt32 → Chunk → Chunk)
    (list : List UInt32) (c : Chunk) : Chunk :=
  if versionByte buf ≤ 5 then addOption option (store list c) else store list c

/-- The stages of a parse: the header fields, then list after list. -/
def staged (buf : List UInt32) (c : Chunk) : Chunk :=
  let d := declared buf
  placeAt (storing buf optionMan storeManagers) buf d.managers.offset d.managers.count
    (placeAt (storing buf optionChn storeChunkRefs) buf d.chunkRefs.offset d.chunkRefs.count
      (placeAt (storing buf optionIds storeIds) buf d.ids.offset d.ids.count
        (placeAt storeData buf d.data.offset d.data.count (headed buf c))))

/-- The buffer holds everything it declares, in a version that is known. -/
def Fits (buf : List UInt32) : Prop := versionByte buf ≤ 7 ∧ (declared buf).managers.stop ≤ buf.length

/-- The run went on to `final` at `stop`, inside the buffer, or reported that `stop` lies outside. -/
def Settled (buf : List UInt32) (final : Chunk) (stop : Nat) (result : Except Stop Unit × Parse) : Prop :=
  (result = (.ok (),⟨stop,final⟩) ∧ stop ≤ buf.length) ∨
    ∃ message s, result = (.error (.error .invalidState message),s) ∧ buf.length < stop

section
variable {buf : List UInt32} {final : Chunk} {stop pos : Nat} {c : Chunk}

theorem settled_array (count : UInt32) (message : String) (store : List UInt32 → Chunk → Chunk)
    (within : pos ≤ buf.length) :
    Settled buf (placeAt store buf pos count.toNat c) (pos + count.toNat)
      ((parseArray buf count message store).run ⟨pos,c⟩) := by
  rcases parseArray_cases buf count message store pos c with ⟨run,inside⟩ | ⟨run,positive,outside⟩
  · exact .inl ⟨run,by omega⟩
  · exact .inr ⟨message,_,run,outside⟩

theorem settled_section (options flag : UInt32) (countMessage arrayMessage : String)
    (store : List UInt32 → Chunk → Chunk) (within : pos ≤ buf.length)
    (same : hasFlag options flag = hasFlag (optionByte buf).toUInt32 flag) :
    Settled buf (placeAt store buf (declaredSection buf flag pos).offset (declaredSection buf flag pos).count c)
      (declaredSection buf flag pos).stop
      ((parseSection buf options flag countMessage arrayMessage store).run ⟨pos,c⟩) :=
  parseSection_cases buf options flag countMessage arrayMessage store pos c within same

theorem settled_bind {first : Run Parse Unit} {next : Unit → Run Parse Unit} {s : Parse} {middle : Chunk}
    {between : Nat} (head : Settled buf middle between (first.run s)) (forward : between ≤ stop)
    (tail : between ≤ buf.length → Settled buf final stop ((next ()).run ⟨between,middle⟩)) :
    Settled buf final stop ((first >>= next).run s) := by
  rcases head with ⟨run,inside⟩ | ⟨message,s',run,outside⟩
  · rw [Action.bind_ok _ run]
    exact tail inside
  · rw [Action.bind_error _ run]
    exact .inr ⟨message,s',rfl,by omega⟩

theorem require_inside {inside : Parse → Bool} {s : Parse} (message : String) (ok : inside s = true) :
    (require inside message).run s = (.ok (),s) := by
  simp [require,ok]

theorem require_outside {inside : Parse → Bool} {s : Parse} (message : String) (short : inside s = false) :
    (require inside message).run s = (.error (.error .invalidState message),s) := by
  simp [require,short]

/-- An early header that lies in the buffer, as both early layouts begin. -/
theorem earlyHeader_run {β : Type} {message : String} (set : UInt32 → Chunk → Chunk)
    (next : UInt32 → UInt32 → UInt32 → Run Parse β) (header : 6 ≤ buf.length) (c : Chunk) : (do
      require (fun s => s.pos + 5 ≤ buf.length) message
      let classId ← nextDword buf
      setChunk fun c => set classId c
      let chunkSize ← nextDword buf
      skipDword
      let idCount ← nextDword buf
      let chunkCount ← nextDword buf
      next chunkSize idCount chunkCount).run ⟨1,c⟩ =
    (next (dwordAt buf 2) (dwordAt buf 4) (dwordAt buf 5)).run ⟨6,set (dwordAt buf 1) c⟩ := by
  rw [Action.bind_ok _ (require_inside _ (by simp only [decide_eq_true_eq]; omega)),
    Action.bind_ok _ (nextDword_inside buf 1 _ (by omega)),
    Action.bind_ok _ (setChunk_apply _ _),
    Action.bind_ok _ (nextDword_inside buf 2 _ (by omega)),
    Action.bind_ok _ (skipDword_apply _),
    Action.bind_ok _ (nextDword_inside buf 4 _ (by omega)),
    Action.bind_ok _ (nextDword_inside buf 5 _ (by omega))]

theorem declared_version1 (early : versionByte buf < 5) :
    declared buf = declaredAfter 6 (dwordAt buf 2).toNat (dwordAt buf 4).toNat (dwordAt buf 5).toNat 0 := by
  simp [declared,early]

theorem declared_version2 (second : versionByte buf = 5) :
    declared buf = declaredAfter 7 (dwordAt buf 2).toNat (dwordAt buf 4).toNat (dwordAt buf 5).toNat
      (dwordAt buf 6).toNat := by
  simp [declared,second]

theorem settled_version1 (early : versionByte buf < 5) (header : 6 ≤ buf.length) (c : Chunk) :
    Settled buf (staged buf c) (declared buf).managers.stop
      ((parseVersion1 buf).run ⟨1,{ c with
        dataVersion := (dwordAt buf 0).toUInt8.toUInt32
        chunkVersion := (versionByte buf).toUInt32 }⟩) := by
  have low : versionByte buf ≤ 5 := UInt8.le_of_lt early
  have stored (option : UInt32) (store : List UInt32 → Chunk → Chunk) :
      storing buf option store = fun list d => addOption option (store list d) := by
    funext list d
    simp [storing,low]
  rw [parseVersion1,earlyHeader_run _ _ header]
  simp only [staged,declared_version1 early,declaredAfter,stored,headed,if_pos early,Span.stop,
    Nat.add_zero]
  refine settled_bind (settled_array _ _ _ header) (by omega) fun inside => ?_
  refine settled_bind (settled_array _ _ _ inside) (by omega) fun inside => ?_
  exact settled_array _ _ _ inside

theorem settled_version2 (second : versionByte buf = 5) (header : 7 ≤ buf.length) (c : Chunk) :
    Settled buf (staged buf c) (declared buf).managers.stop
      ((parseVersion2 buf).run ⟨1,{ c with
        dataVersion := (dwordAt buf 0).toUInt8.toUInt32
        chunkVersion := (versionByte buf).toUInt32 }⟩) := by
  have low : versionByte buf ≤ 5 := by rw [second]; decide
  have late : ¬ versionByte buf < 5 := by rw [second]; decide
  have stored (option : UInt32) (store : List UInt32 → Chunk → Chunk) :
      storing buf option store = fun list d => addOption option (store list d) := by
    funext list d
    simp [storing,low]
  rw [parseVersion2,earlyHeader_run _ _ (Nat.le_of_succ_le header),
    Action.bind_ok _ (nextDword_inside buf 6 _ (by omega))]
  simp only [staged,declared_version2 second,declaredAfter,stored,headed,if_neg late,if_pos second,Span.stop]
  refine settled_bind (settled_array _ _ _ header) (by omega) fun inside => ?_
  refine settled_bind (settled_array _ _ _ inside) (by omega) fun inside => ?_
  refine settled_bind (settled_array _ _ _ inside) (by omega) fun inside => ?_
  exact settled_array _ _ _ inside

/-- The header check of version 5 covers five dwords, the reads that follow are six. -/
theorem version2_overread (header : buf.length = 6) (c : Chunk) :
    ∃ s, (parseVersion2 buf).run ⟨1,c⟩ = (.error (.overread 6),s) := by
  rw [parseVersion2,earlyHeader_run _ _ (Nat.le_of_eq header.symm),
    Action.bind_error _ (nextDword_outside buf 6 _ (by omega))]
  exact ⟨_,rfl⟩

theorem declared_compact (late : ¬ versionByte buf ≤ 5) :
    declared buf =
      let data : Span := ⟨2,(dwordAt buf 1).toNat⟩
      let ids := declaredSection buf optionIds data.stop
      let chunkRefs := declaredSection buf optionChn ids.stop
      ⟨data,ids,chunkRefs,declaredSection buf optionMan chunkRefs.stop⟩ := by
  have third : ¬ versionByte buf < 5 := fun early => late (UInt8.le_of_lt early)
  have fourth : ¬ versionByte buf = 5 := fun same => late (by rw [same]; decide)
  simp [declared,third,fourth]

theorem section_forward (buf : List UInt32) (flag : UInt32) (pos : Nat) :
    pos ≤ (declaredSection buf flag pos).stop := by
  unfold declaredSection Span.stop
  split
  · show pos ≤ pos + 1 + _
    omega
  · exact Nat.le_refl pos

theorem settled_compact (late : ¬ versionByte buf ≤ 5) (header : 1 ≤ buf.length) (c : Chunk) :
    Settled buf (staged buf c) (declared buf).managers.stop
      ((parseCompact buf (dwordAt buf 0 &&& 0x0000FFFF).toUInt16
        ((dwordAt buf 0 &&& 0xFFFF0000) >>> 16).toUInt16).run ⟨1,{ c with
          dataVersion := (dwordAt buf 0).toUInt8.toUInt32
          chunkVersion := (versionByte buf).toUInt32 }⟩) := by
  have third : ¬ versionByte buf < 5 := fun early => late (UInt8.le_of_lt early)
  have fourth : ¬ versionByte buf = 5 := fun same => late (by rw [same]; decide)
  have stored (option : UInt32) (store : List UInt32 → Chunk → Chunk) :
      storing buf option store = store := by
    funext list d
    simp [storing,late]
  have forward := section_forward buf
  by_cases room : 2 ≤ buf.length
  · rw [parseCompact,highHalf_highByte,Action.bind_ok _ (setChunk_apply _ _),
      Action.bind_ok _ (require_inside _ (by simp only [decide_eq_true_eq]; omega)),
      Action.bind_ok _ (nextDword_inside buf 1 _ (by omega))]
    simp only [staged,declared_compact late,stored,headed,if_neg third,if_neg fourth,lowHalf_highByte,
      lowHalf_lowByte,highHalf_lowByte]
    refine settled_bind (settled_array _ _ _ room) ?_ fun inside => ?_
    · exact (forward _ _).trans ((forward _ _).trans (forward _ _))
    refine settled_bind (settled_section _ _ _ _ _ inside rfl) ?_ fun inside => ?_
    · exact (forward _ _).trans (forward _ _)
    refine settled_bind (settled_section _ _ _ _ _ inside rfl) (forward _ _) fun inside => ?_
    exact settled_section _ _ _ _ _ inside rfl
  · have start : 2 ≤ (declared buf).managers.stop := by
      rw [declared_compact late]
      exact (Nat.le_add_right 2 _).trans ((forward _ _).trans ((forward _ _).trans (forward _ _)))
    rw [parseCompact,Action.bind_ok _ (setChunk_apply _ _)]
    exact .inr ⟨_,_,Action.bind_error _ (require_outside _ (by simp only [decide_eq_false_iff_not]; omega)),
      by omega⟩

theorem extent_header (buf : List UInt32) :
    (if versionByte buf < 5 then 6 else if versionByte buf = 5 then 7 else 2) ≤
      (declared buf).managers.stop := by
  by_cases early : versionByte buf < 5
  · simp [early,declared_version1 early,declaredAfter,Span.stop]
    omega
  · by_cases second : versionByte buf = 5
    · simp [second,declared_version2 second,declaredAfter,Span.stop]
      omega
    · have late : ¬ versionByte buf ≤ 5 := fun low =>
        (UInt8.lt_or_eq_of_le low).elim early second
      have forward := section_forward buf
      rw [if_neg early,if_neg second,declared_compact late]
      exact (Nat.le_add_right 2 _).trans ((forward _ _).trans ((forward _ _).trans (forward _ _)))

theorem versionByte_early : (dwordAt buf 0 >>> 16).toUInt8.toUInt32 < chunkVersion2 ↔ versionByte buf < 5 := by
  simp [versionByte,chunkVersion2,UInt32.lt_iff_toNat_lt,UInt8.lt_iff_toNat_lt]

theorem versionByte_second : (dwordAt buf 0 >>> 16).toUInt8.toUInt32 = chunkVersion2 ↔ versionByte buf = 5 := by
  simp [versionByte,chunkVersion2,← UInt32.toNat_inj,← UInt8.toNat_inj]

theorem versionByte_known : (dwordAt buf 0 >>> 16).toUInt8.toUInt32 ≤ chunkVersion4 ↔ versionByte buf ≤ 7 := by
  simp [versionByte,chunkVersion4,UInt32.le_iff_toNat_le,UInt8.le_iff_toNat_le]

/-- A buffer that has a first word is parsed in the layout of the version there. -/
theorem parseDwords_versions (some : 1 ≤ buf.length) (c : Chunk) : (parseDwords buf).run ⟨0,c⟩ =
    (if versionByte buf < 5 then parseVersion1 buf
      else if versionByte buf = 5 then parseVersion2 buf
      else if versionByte buf ≤ 7 then parseCompact buf (dwordAt buf 0 &&& 0x0000FFFF).toUInt16
        ((dwordAt buf 0 &&& 0xFFFF0000) >>> 16).toUInt16
      else fail .unsupportedVersion "Unsupported chunk version").run ⟨1,{ c with
        dataVersion := (dwordAt buf 0).toUInt8.toUInt32
        chunkVersion := (versionByte buf).toUInt32 }⟩ := by
  rw [parseDwords,Action.bind_ok _ (require_inside _ (by simpa using some)),
    Action.bind_ok _ (nextDword_inside buf 0 _ (by omega))]
  simp only [lowHalf_lowByte,highHalf_lowByte]
  rw [Action.bind_ok _ (setChunk_apply _ _)]
  simp only [versionByte_early,versionByte_second,versionByte_known]
  rfl

/-- Up to version 7 the parse fills the chunk from inside the buffer or reports that it is too small. -/
theorem settled_dwords (known : versionByte buf ≤ 7) (covered : ¬ (buf.length = 6 ∧ versionByte buf = 5))
    (c : Chunk) :
    Settled buf (staged buf c) (declared buf).managers.stop ((parseDwords buf).run ⟨0,c⟩) := by
  have header := extent_header buf
  by_cases some : 1 ≤ buf.length
  · rw [parseDwords_versions some]
    by_cases early : versionByte buf < 5
    · rw [if_pos early] at header ⊢
      by_cases room : 6 ≤ buf.length
      · exact settled_version1 early room c
      · rw [parseVersion1]
        exact .inr ⟨_,_,Action.bind_error _ (require_outside _ (by simp only [decide_eq_false_iff_not]; omega)),
          by omega⟩
    · rw [if_neg early] at header ⊢
      by_cases second : versionByte buf = 5
      · rw [if_pos second] at header ⊢
        by_cases room : 7 ≤ buf.length
        · exact settled_version2 second room c
        · have short : ¬ buf.length = 6 := fun six => covered ⟨six,second⟩
          rw [parseVersion2]
          exact .inr ⟨_,_,Action.bind_error _ (require_outside _ (by simp only [decide_eq_false_iff_not]; omega)),
            by omega⟩
      · have late : ¬ versionByte buf ≤ 5 := fun low =>
          (UInt8.lt_or_eq_of_le low).elim early second
        rw [if_neg second,if_pos known]
        exact settled_compact late some c
  · rw [parseDwords]
    refine .inr ⟨_,_,Action.bind_error _ (require_outside _ (by simp only [decide_eq_false_iff_not]; omega)),?_⟩
    split at header
    · omega
    · split at header <;> omega

theorem unknown_version (unknown : ¬ versionByte buf ≤ 7) (c : Chunk) :
    ∃ code message s, (parseDwords buf).run ⟨0,c⟩ = (.error (.error code message),s) := by
  by_cases some : 1 ≤ buf.length
  · have low : ¬ versionByte buf < 5 := fun early => unknown (UInt8.le_trans (UInt8.le_of_lt early) (by decide))
    have five : versionByte buf ≠ 5 := fun same => unknown (by rw [same]; decide)
    rw [parseDwords_versions some,if_neg low,if_neg five,if_neg unknown]
    exact ⟨_,_,_,rfl⟩
  · rw [parseDwords]
    exact ⟨_,_,_,Action.bind_error _ (require_outside _ (by simp only [decide_eq_false_iff_not]; omega))⟩

theorem short_version2_overread (six : buf.length = 6) (second : versionByte buf = 5) (c : Chunk) :
    ∃ s, (parseDwords buf).run ⟨0,c⟩ = (.error (.overread 6),s) := by
  have late : ¬ versionByte buf < 5 := by rw [second]; decide
  rw [parseDwords_versions (by omega),if_neg late,if_pos second]
  exact version2_overread six _

/-- The four lists lie one behind the other. -/
theorem declared_ordered (buf : List UInt32) :
    (declared buf).data.stop ≤ (declared buf).ids.stop ∧
      (declared buf).ids.stop ≤ (declared buf).chunkRefs.stop ∧
      (declared buf).chunkRefs.stop ≤ (declared buf).managers.stop := by
  by_cases early : versionByte buf < 5
  · simp [declared_version1 early,declaredAfter,Span.stop]
  · by_cases second : versionByte buf = 5
    · simp [declared_version2 second,declaredAfter,Span.stop]
    · rw [declared_compact fun low => (UInt8.lt_or_eq_of_le low).elim early second]
      exact ⟨section_forward _ _ _,section_forward _ _ _,section_forward _ _ _⟩

/-- The options after a list: versions 4 and 5 flag the lists that are present. -/
def marked (buf : List UInt32) (option : UInt32) (span : Span) (options : UInt32) : UInt32 :=
  if span.count ≠ 0 ∧ versionByte buf ≤ 5 then options ||| option else options

/-- The chunk that a parse of `buf` into `c` leaves. -/
def filled (buf : List UInt32) (c : Chunk) : Chunk :=
  let d := declared buf
  let head := headed buf c
  { head with
    data := if d.data.count = 0 then c.data else some (slice buf d.data.offset d.data.count)
    spare := if d.data.count = 0 then c.spare else []
    ids := taken buf d.ids c.ids
    chunkRefs := taken buf d.chunkRefs c.chunkRefs
    managers := taken buf d.managers c.managers
    chunkOptions := marked buf optionMan d.managers (marked buf optionChn d.chunkRefs
      (marked buf optionIds d.ids head.chunkOptions)) }

theorem headed_lists (buf : List UInt32) (c : Chunk) :
    (headed buf c).data = c.data ∧ (headed buf c).spare = c.spare ∧ (headed buf c).ids = c.ids ∧
      (headed buf c).chunkRefs = c.chunkRefs ∧ (headed buf c).managers = c.managers := by
  unfold headed
  split
  · simp
  · split <;> simp

theorem placeAt_data (buf : List UInt32) (span : Span) (c : Chunk) :
    placeAt storeData buf span.offset span.count c = { c with
      data := if span.count = 0 then c.data else some (slice buf span.offset span.count)
      spare := if span.count = 0 then c.spare else [] } := by
  cases c
  unfold placeAt
  split <;> rfl

theorem placeAt_ids (buf : List UInt32) (span : Span) (c : Chunk) :
    placeAt (storing buf optionIds storeIds) buf span.offset span.count c = { c with
      ids := taken buf span c.ids
      chunkOptions := marked buf optionIds span c.chunkOptions } := by
  cases c
  unfold placeAt storing marked taken
  split
  · simp [*]
  · split <;> simp [*,storeIds,addOption]

theorem placeAt_chunkRefs (buf : List UInt32) (span : Span) (c : Chunk) :
    placeAt (storing buf optionChn storeChunkRefs) buf span.offset span.count c = { c with
      chunkRefs := taken buf span c.chunkRefs
      chunkOptions := marked buf optionChn span c.chunkOptions } := by
  cases c
  unfold placeAt storing marked taken
  split
  · simp [*]
  · split <;> simp [*,storeChunkRefs,addOption]

theorem placeAt_managers (buf : List UInt32) (span : Span) (c : Chunk) :
    placeAt (storing buf optionMan storeManagers) buf span.offset span.count c = { c with
      managers := taken buf span c.managers
      chunkOptions := marked buf optionMan span c.chunkOptions } := by
  cases c
  unfold placeAt storing marked taken
  split
  · simp [*]
  · split <;> simp [*,storeManagers,addOption]

theorem staged_eq (buf : List UInt32) (c : Chunk) : staged buf c = filled buf c := by
  obtain ⟨data,spare,ids,chunkRefs,managers⟩ := headed_lists buf c
  simp only [staged,placeAt_data,placeAt_ids,placeAt_chunkRefs,placeAt_managers,filled,
    data,spare,ids,chunkRefs,managers]

theorem copied_taken (buf : List UInt32) (span : Span) (before : List UInt32) (inside : span.stop ≤ buf.length) :
    Copied buf span before (taken buf span before) := by
  unfold Copied taken
  split
  · rfl
  · exact ⟨inside,length_slice buf _ _ inside,rfl⟩

theorem words_filled (buf : List UInt32) (c : Chunk) :
    (filled buf c).words = taken buf (declared buf).data c.words := by
  simp only [filled,Chunk.words,taken]
  split <;> rfl

theorem listsCopied_filled (fits : Fits buf) (c : Chunk) : ListsCopied buf c (filled buf c) := by
  obtain ⟨first,second,third⟩ := declared_ordered buf
  have stop := fits.2
  constructor
  · rw [words_filled]
    exact copied_taken buf _ _ (by omega)
  · exact copied_taken buf _ _ (by omega)
  · exact copied_taken buf _ _ (by omega)
  · exact copied_taken buf _ _ stop
end

section
variable (bytes : List UInt8) (c : Chunk)

theorem fits_covered {buf : List UInt32} (fits : Fits buf) : ¬ (buf.length = 6 ∧ versionByte buf = 5) := by
  rintro ⟨six,second⟩
  have header := extent_header buf
  have stop := fits.2
  rw [second,if_neg (by decide),if_pos rfl] at header
  omega

theorem fits_nonempty (fits : Fits (decodeWords bytes)) : bytes.length ≠ 0 := by
  intro empty
  have header := extent_header (decodeWords bytes)
  have stop := fits.2
  rw [length_decodeWords,empty] at stop
  split at header
  · omega
  · split at header <;> omega

theorem chunkParse_fits (fits : Fits (decodeWords bytes)) :
    (chunkParse bytes).run c = (.ok (),filled (decodeWords bytes) { c with rawData := some bytes }) := by
  rcases settled_dwords fits.1 (fits_covered fits) { c with rawData := some bytes } with
    ⟨run,inside⟩ | ⟨message,s,run,outside⟩
  · simp only [chunkParse,if_neg (fits_nonempty bytes fits),run,staged_eq]
  · have stop := fits.2
    omega

/-- Short of the over-read of version 5, a buffer that does not fit is reported. -/
theorem chunkParse_unfit (unfit : ¬ Fits (decodeWords bytes))
    (covered : ¬ ((decodeWords bytes).length = 6 ∧ versionByte (decodeWords bytes) = 5)) :
    ∃ code message s, (chunkParse bytes).run c = (.error (.error code message),s) := by
  by_cases empty : bytes.length = 0
  · exact ⟨.invalidArgument,_,_,by simp only [chunkParse,if_pos empty]; rfl⟩
  · by_cases known : versionByte (decodeWords bytes) ≤ 7
    · rcases settled_dwords known covered { c with rawData := some bytes } with
        ⟨run,inside⟩ | ⟨message,s,run,outside⟩
      · exact absurd ⟨known,inside⟩ unfit
      · exact ⟨_,_,_,by simp only [chunkParse,if_neg empty,run]; rfl⟩
    · obtain ⟨code,message,s,run⟩ := unknown_version known { c with rawData := some bytes }
      exact ⟨_,_,_,by simp only [chunkParse,if_neg empty,run]; rfl⟩

theorem chunkParse_overread (six : (decodeWords bytes).length = 6)
    (second : versionByte (decodeWords bytes) = 5) : ((chunkParse bytes).run c).1 = .error (.overread 6) := by
  obtain ⟨s,run⟩ := short_version2_overread six second { c with rawData := some bytes }
  have some : bytes.length ≠ 0 := by
    rw [length_decodeWords] at six
    omega
  simp only [chunkParse,if_neg some,run]

theorem chunkParse_ok_iff : ((chunkParse bytes).run c).1 = .ok () ↔ Fits (decodeWords bytes) := by
  constructor
  · intro ok
    by_contra unfit
    by_cases covered : (decodeWords bytes).length = 6 ∧ versionByte (decodeWords bytes) = 5
    · rw [chunkParse_overread bytes c covered.1 covered.2] at ok
      simp at ok
    · obtain ⟨code,message,s,run⟩ := chunkParse_unfit bytes c unfit covered
      simp [run] at ok
  · intro fits
    rw [chunkParse_fits bytes c fits]

/-- Every dword read lies in the buffer, and success means that the declared lists were copied. -/
structure ParsedInside : Prop where
  reads : ∀ index, ((chunkParse bytes).run c).1 ≠ .error (.overread index)
  lists : ((chunkParse bytes).run c).1 = .ok () →
    ListsCopied (decodeWords bytes) c ((chunkParse bytes).run c).2

theorem versionByte_decodeWords (enough : 4 ≤ bytes.length) :
    bytes[2]? = some (versionByte (decodeWords bytes)) := by
  match bytes,enough with
  | _ :: _ :: _ :: _ :: _,_ => simp [decodeWords,versionByte,dwordAt]

/-- The parse stays inside every buffer but those of six dwords in version 5. -/
theorem parsedInside_iff : ParsedInside bytes c ↔ ¬ (bytes.length / 4 = 6 ∧ bytes[2]? = some 5) := by
  have byte (six : bytes.length / 4 = 6) :
      bytes[2]? = some 5 ↔ versionByte (decodeWords bytes) = 5 := by
    rw [versionByte_decodeWords bytes (by omega),Option.some.injEq]
  have size := length_decodeWords bytes
  constructor
  · rintro inside ⟨six,second⟩
    exact inside.reads 6 (chunkParse_overread bytes c (by omega) ((byte six).mp second))
  · intro covered
    have covered : ¬ ((decodeWords bytes).length = 6 ∧ versionByte (decodeWords bytes) = 5) := by
      rintro ⟨six,second⟩
      exact covered ⟨by omega,(byte (by omega)).mpr second⟩
    by_cases fits : Fits (decodeWords bytes)
    · have run := chunkParse_fits bytes c fits
      refine ⟨fun index => by simp [run],fun ok => ?_⟩
      rw [run]
      have copied := listsCopied_filled fits { c with rawData := some bytes }
      exact ⟨copied.data,copied.ids,copied.chunkRefs,copied.managers⟩
    · obtain ⟨code,message,s,run⟩ := chunkParse_unfit bytes c fits covered
      exact ⟨fun index => by simp [run],fun ok => by simp [run] at ok⟩

end

/-- A header of version 5 cut after its fifth field: the manager count is read past the end. -/
theorem version2_header_not_inside :
    ¬ ParsedInside [0,0,5,0, 0,0,0,0, 0,0,0,0, 0,0,0,0, 0,0,0,0, 0,0,0,0] chunkCreate :=
  fun inside => inside.reads 6 (by decide)

end Libnmo.Format
