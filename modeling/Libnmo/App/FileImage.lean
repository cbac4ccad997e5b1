import Libnmo.App.IncludedReload
import Libnmo.App.PluginDependencies
import Libnmo.Lib.Parses

/-! The bytes of a whole file, as a save writes them and a load takes them apart: the
file header, the two sections with the sizes it states for them, and the area of the
included files. -/
namespace Libnmo.App
open Core Format Session Lib Lib.LittleEndian Lib.Cursor

variable {State : Type}

/-- Phases 13 and 15 of a save. A section is written with the size in the header. -/
def fileImage (file : SavedFile) (area : List UInt8) : List UInt8 :=
  fileHeaderSerialize file.header ++ (file.hdr1Packed.take file.header.hdr1PackSize.toNat ++
    (file.dataPacked.take file.header.dataPackSize.toNat ++ area))

/-- An error that the loader replaces by `NMO_ERR_INVALID_ARGUMENT`. -/
def asInvalid : Stop → Stop
  | .error _ _ => .error .invalidArgument ""
  | stop => stop

def orInvalid {α : Type} (action : Run Nat α) : Run Nat α where
  run pos :=
    let out := action.run pos
    (out.1.mapError asInvalid,out.2)

/-- What a load has taken from a file before it creates objects. -/
structure OpenedFile where
  header : FileHeader
  header1 : Header1
  managers : List ManagerData
  objects : List ObjectData
  hasData : Bool

section Opening
variable (miniz : Miniz)

/-- A section whose sizes differ is taken for compressed. -/
def unpackSection (packSize unpackSize : UInt32) (packed : List UInt8) : Result (List UInt8) :=
  if packSize ≠ unpackSize then match miniz.uncompress unpackSize.toNat packed with
    | none => .error (.error .invalidArgument "")
    | some bytes => if bytes.length ≠ unpackSize.toNat then .error (.error .invalidArgument "") else .ok bytes
  else .ok packed

/-- Phases 3 and 8; none is a section that is skipped. -/
def readSection (file : List UInt8) (packSize unpackSize : UInt32) : Run Nat (Option (List UInt8)) :=
  if packSize = 0 ∨ unpackSize = 0 then pure none
  else do
    let packed ← orInvalid (ioReadExact file packSize.toNat "")
    let bytes ← Action.lift (unpackSection miniz packSize unpackSize packed)
    pure (some bytes)

/-- Phase 4. -/
def parseHeader1 (objectCount : UInt32) : Option (List UInt8) → Result Header1
  | none => .ok { objectCount := objectCount }
  | some bytes => (header1Parse bytes objectCount).mapError asInvalid

def parseData (header : FileHeader) : Option (List UInt8) → Result (List ManagerData × List ObjectData)
  | none => .ok ([],[])
  | some bytes => dataSectionParse bytes header.fileVersion header.managerCount header.objectCount

variable (plugins : Option PluginManager) (flags : UInt32) (file : List UInt8)

/-- Phases 2 to 8 of a load, up to the included files. -/
def openFile : Run Nat OpenedFile := do
  let header ← orInvalid (fileHeaderParse file)
  Action.lift ((fileHeaderValidate header).mapError asInvalid)
  let hdr1 ← readSection miniz file header.hdr1PackSize header.hdr1UnpackSize
  let header1 ← Action.lift (parseHeader1 header.objectCount hdr1)
  Action.lift (checkPluginDependencies plugins flags header1.pluginDeps)
  let data ← readSection miniz file header.dataPackSize header.dataUnpackSize
  let records ← Action.lift (parseData header data)
  pure { header := header, header1 := header1, managers := records.1, objects := records.2, hasData := data.isSome }

/-- The load of a file into an empty session, through phase 14, with the included files that it finds. -/
def loadFile (ctx : LoadContext State) : Result (LoadState State × List IncludedFile) :=
  match (openFile miniz plugins flags file).run 0 with
  | (.error stop,_) => .error stop
  | (.ok opened,pos) =>
    let included := if opened.hasData then ((loadIncludedFiles (file.drop pos) opened.header1).run {}).2.files else []
    let start : LoadState State := {
      session := loadSessionStart ({} : ObjectRepository State) opened.header.maxIdSaved, managers := opened.managers }
    match (loadObjects ctx opened.header1.objects opened.objects).run start with
    | (.ok (),state) => .ok (state,included)
    | (.error stop,_) => .error stop

end Opening

end Libnmo.App

/-! What lies in a file that a load opens. -/
namespace Libnmo.App
open Core Format Session Lib Lib.LittleEndian Lib.Cursor

variable {State : Type}

section Reading
variable {file : List UInt8} {α : Type}

theorem parses_orInvalid {action : Run Nat α} {holds : α → List UInt8 → Prop} (parses : Parses (Rest file) action holds) :
    Parses (Rest file) (orInvalid action) holds where
  full := by
    intro value input rest pos held ahead
    obtain ⟨next,ran,moved⟩ := parses.full held ahead
    exact ⟨next,by simp [orInvalid,ran,Except.mapError],moved⟩
  only := by
    intro value rest pos next ahead ran
    apply parses.only ahead
    simp only [orInvalid,Prod.mk.injEq] at ran
    obtain ⟨same,rfl⟩ := ran
    cases out : (action.run pos).1 with
    | error stop => simp [out,Except.mapError] at same
    | ok found =>
      rw [out,Except.mapError,Except.ok.injEq] at same
      rw [← same,← out]

end Reading

/-- What a file holds of a section: nothing when one of its sizes is zero, and else as many bytes as the first size
says, which are the section itself or unpack to it. -/
def Stored (miniz : Miniz) (packSize unpackSize : UInt32) (unpacked : Option (List UInt8)) (stored : List UInt8) : Prop :=
  if packSize = 0 ∨ unpackSize = 0 then unpacked = none ∧ stored = []
  else stored.length = packSize.toNat ∧ ∃ bytes, unpacked = some bytes ∧ bytes.length = unpackSize.toNat ∧
    if packSize = unpackSize then bytes = stored else miniz.uncompress unpackSize.toNat stored = some bytes

/-- The bytes in front of the included files, as they are opened. -/
def Laid (miniz : Miniz) (plugins : Option PluginManager) (flags : UInt32) (opened : OpenedFile) (front : List UInt8) : Prop :=
  ∃ hdr1 data hdr1Stored dataStored,
    front = fileHeaderSerialize opened.header ++ (hdr1Stored ++ dataStored) ∧ opened.header.Accepted ∧
    Stored miniz opened.header.hdr1PackSize opened.header.hdr1UnpackSize hdr1 hdr1Stored ∧
    parseHeader1 opened.header.objectCount hdr1 = .ok opened.header1 ∧
    checkPluginDependencies plugins flags opened.header1.pluginDeps = .ok () ∧
    Stored miniz opened.header.dataPackSize opened.header.dataUnpackSize data dataStored ∧
    parseData opened.header data = .ok (opened.managers,opened.objects) ∧ opened.hasData = data.isSome

section Opened
variable {miniz : Miniz} {plugins : Option PluginManager} {flags : UInt32} {file : List UInt8} {opened : OpenedFile} {pos : Nat}

theorem unpackSection_iff {packSize unpackSize : UInt32} {packed bytes : List UInt8} (size : packed.length = packSize.toNat) :
    unpackSection miniz packSize unpackSize packed = .ok bytes ↔ bytes.length = unpackSize.toNat ∧
      if packSize = unpackSize then bytes = packed else miniz.uncompress unpackSize.toNat packed = some bytes := by
  unfold unpackSection
  by_cases same : packSize = unpackSize
  · subst same
    simp only [ne_eq,not_true_eq_false,if_false,if_true,Except.ok.injEq]
    constructor
    · intro equal
      exact ⟨equal ▸ size,equal.symm⟩
    · intro both
      exact both.2.symm
  · rw [if_pos same,if_neg same]
    cases miniz.uncompress unpackSize.toNat packed with
    | none => simp
    | some found =>
      dsimp only
      split
      · rename_i other
        simp only [reduceCtorEq,Option.some.injEq,false_iff,not_and]
        intro length equal
        exact other (equal ▸ length)
      · rename_i whole
        simp only [Except.ok.injEq,Option.some.injEq]
        constructor
        · intro equal
          exact ⟨equal ▸ not_not.mp whole,equal⟩
        · exact And.right

theorem parses_readSection (packSize unpackSize : UInt32) : Parses (Rest file) (readSection miniz file packSize unpackSize)
    (Stored miniz packSize unpackSize) := by
  unfold readSection Stored
  by_cases empty : packSize = 0 ∨ unpackSize = 0
  · simp only [if_pos empty]
    exact parses_pure none
  · simp only [if_neg empty]
    apply (parses_bind (parses_orInvalid (parses_ioReadExact _ _)) fun _ => parses_return (parses_lift _)).congr
    intro found input
    constructor
    · rintro ⟨packed,_,_,rfl,⟨rfl,size⟩,bytes,rfl,unpacked,rfl⟩
      rw [List.append_nil]
      exact ⟨size,bytes,rfl,(unpackSection_iff size).mp unpacked⟩
    · rintro ⟨size,bytes,rfl,unpacked⟩
      exact ⟨input,input,[],(List.append_nil input).symm,⟨rfl,size⟩,bytes,rfl,(unpackSection_iff size).mpr unpacked,rfl⟩

theorem accepted_valid {header : FileHeader} (accepted : header.Accepted) :
    (fileHeaderValidate header).mapError asInvalid = .ok () := by
  simp [fileHeaderValidate,accepted.signature,accepted.version,Except.mapError]

theorem parses_openFile : Parses (Rest file) (openFile miniz plugins flags file) (Laid miniz plugins flags) := by
  unfold openFile Laid
  apply (parses_bind (parses_orInvalid parses_fileHeaderParse) fun _ => parses_bind (parses_lift _) fun _ =>
    parses_bind (parses_readSection _ _) fun _ => parses_bind (parses_lift _) fun _ => parses_bind (parses_lift _) fun _ =>
    parses_bind (parses_readSection _ _) fun _ => parses_bind (parses_lift _) fun _ => parses_pure _).congr
  intro opened input
  constructor
  · rintro ⟨header,_,_,rfl,⟨accepted,rfl⟩,_,_,_,rfl,⟨_,rfl⟩,hdr1,stored,_,rfl,first,header1,_,_,rfl,⟨parsed,rfl⟩,
      _,_,_,rfl,⟨checked,rfl⟩,data,stored',_,rfl,second,records,_,_,rfl,⟨read,rfl⟩,rfl,rfl⟩
    exact ⟨hdr1,data,stored,stored',by simp,accepted,first,parsed,checked,second,read,rfl⟩
  · rintro ⟨hdr1,data,stored,stored',rfl,accepted,first,parsed,checked,second,read,present⟩
    refine ⟨opened.header,_,_,rfl,⟨accepted,rfl⟩,(),[],_,rfl,⟨accepted_valid accepted,rfl⟩,hdr1,stored,stored',rfl,first,
      opened.header1,[],_,rfl,⟨parsed,rfl⟩,(),[],_,rfl,⟨checked,rfl⟩,data,stored',[],by simp,second,
      (opened.managers,opened.objects),[],[],rfl,⟨read,rfl⟩,?_,rfl⟩
    rw [← present]

/-- A file is opened just when it begins with a layout of what it is opened as. -/
theorem opened_iff (miniz : Miniz) (plugins : Option PluginManager) (flags : UInt32) (file : List UInt8)
    (opened : OpenedFile) (pos : Nat) : (openFile miniz plugins flags file).run 0 = (.ok opened,pos) ↔
      ∃ front area, file = front ++ area ∧ pos = front.length ∧ Laid miniz plugins flags opened front := by
  constructor
  · intro ran
    obtain ⟨front,area,rfl,laid,moved⟩ := parses_openFile.only (ahead_start file) ran
    have size := moved.length_eq
    rw [List.length_append] at size
    exact ⟨front,area,rfl,by omega,laid⟩
  · rintro ⟨front,area,rfl,rfl,laid⟩
    obtain ⟨next,ran,moved⟩ := parses_openFile.full laid (ahead_start (front ++ area))
    have size := moved.length_eq
    rw [List.length_append] at size
    rw [ran,show next = front.length by omega]

/-- No file that is cut off inside its front is opened. -/
theorem front_not_cut {front : List UInt8} (laid : Laid miniz plugins flags opened front) {k : Nat} (early : k < front.length)
    (other : OpenedFile) : ((openFile miniz plugins flags (front.take k)).run 0).1 ≠ .ok other := by
  intro cut
  have whole : (openFile miniz plugins flags (front.take k)).run 0 =
      (.ok other,((openFile miniz plugins flags (front.take k)).run 0).2) := Prod.ext cut rfl
  obtain ⟨front',area,split,_,laid'⟩ := (opened_iff ..).mp whole
  -- the whole front begins with what the cut one begins with, and a run has one end
  have again : (openFile miniz plugins flags front).run 0 = (.ok other,front'.length) := by
    apply (opened_iff ..).mpr
    refine ⟨front',area ++ front.drop k,?_,rfl,laid'⟩
    rw [← List.append_assoc,← split,List.take_append_drop]
  have run : (openFile miniz plugins flags front).run 0 = (.ok opened,front.length) := by
    apply (opened_iff ..).mpr
    exact ⟨front,[],(List.append_nil front).symm,rfl,laid⟩
  have same := (Prod.mk.inj (run.symm.trans again)).2
  have length := congrArg List.length split
  simp only [List.length_take,List.length_append] at length
  omega

/-- A file is opened just when it begins with a layout of what it is opened as. Whatever follows this front, the file is
opened alike, and cut off anywhere inside it the file is not opened at all. -/
theorem opened_by_front (miniz : Miniz) (plugins : Option PluginManager) (flags : UInt32) (file : List UInt8)
    (opened : OpenedFile) (pos : Nat) : (openFile miniz plugins flags file).run 0 = (.ok opened,pos) ↔
      ∃ front area, file = front ++ area ∧ pos = front.length ∧ Laid miniz plugins flags opened front ∧
        (∀ more, (openFile miniz plugins flags (front ++ more)).run 0 = (.ok opened,pos)) ∧
        ∀ k < pos, ∀ other, ((openFile miniz plugins flags (front.take k)).run 0).1 ≠ .ok other := by
  constructor
  · intro ran
    obtain ⟨front,area,rfl,rfl,laid⟩ := (opened_iff miniz plugins flags file opened pos).mp ran
    refine ⟨front,area,rfl,rfl,laid,?_,?_⟩
    · intro more
      exact (opened_iff ..).mpr ⟨front,more,rfl,rfl,laid⟩
    · intro k early other
      exact front_not_cut laid early other
  · rintro ⟨front,area,rfl,rfl,laid,_,_⟩
    exact (opened_iff ..).mpr ⟨front,area,rfl,rfl,laid⟩

end Opened

end Libnmo.App

/-! A saved file and its load. The sizes in the header lead the loader to the sections
and to the included files, in the versions whose header has them. -/
namespace Libnmo.App
open Core Format Session Lib Lib.LittleEndian Lib.Cursor

variable {State : Type}

/-- What the deflate library promises: a stream is never empty, and it gives back what was deflated. -/
structure Streams (miniz : Miniz) : Prop where
  restores : miniz.Restores
  nonempty : ∀ level bytes, miniz.compress2 level bytes ≠ some []

/-- The sections of a saved file and their sizes in its header. -/
structure Packed (ctx : SaveContext State) (file : SavedFile) : Prop where
  signature : file.header.signature = fileSignature
  hdr1 : ∃ compress kept, packSection ctx.miniz compress file.hdr1Bytes = .ok (kept,file.hdr1Packed)
  data : ∃ compress kept, packSection ctx.miniz compress file.dataBytes = .ok (kept,file.dataPacked)
  hdr1PackSize : file.header.hdr1PackSize = UInt32.ofNat file.hdr1Packed.length
  hdr1UnpackSize : file.header.hdr1UnpackSize = UInt32.ofNat file.hdr1Bytes.length
  dataPackSize : file.header.dataPackSize = UInt32.ofNat file.dataPacked.length
  dataUnpackSize : file.header.dataUnpackSize = UInt32.ofNat (dataSectionCalculateSize file.dataSect 8)

section Saved
variable {ctx : SaveContext State} {session : SaveSession State} {flags : UInt32} {file : SavedFile}

theorem saveFile_packed (ok : saveFile ctx session flags = .ok file) : Packed ctx file := by
  unfold saveFile at ok
  split at ok
  · cases ok
  · split at ok
    · cases ok
    · split at ok
      · split at ok
        · cases ok
        · split at ok
          · cases ok
          · split at ok
            · obtain ⟨dataBytes,_,ok⟩ := bind_result ok
              obtain ⟨data,dataPacked,ok⟩ := bind_result ok
              obtain ⟨descs,_,ok⟩ := bind_result ok
              obtain ⟨hdr1Bytes,_,ok⟩ := bind_result ok
              obtain ⟨hdr1,hdr1Packed,ok⟩ := bind_result ok
              rw [← Except.ok.inj ok]
              exact ⟨rfl,⟨_,_,hdr1Packed⟩,⟨_,_,dataPacked⟩,rfl,rfl,rfl,rfl⟩
            · cases ok
      · cases ok

theorem toNat_small {n : Nat} (small : n < 2 ^ 32) : (UInt32.ofNat n).toNat = n := by
  rw [UInt32.toNat_ofNat']
  exact Nat.mod_eq_of_lt small

theorem ofNat_eq_zero {n : Nat} (small : n < 2 ^ 32) : UInt32.ofNat n = 0 ↔ n = 0 := by
  rw [← UInt32.toNat_inj,toNat_small small]
  rfl

/-- A section that is not empty and whose size is one of 32 bits is found again in what is stored of it. -/
theorem stored_packed {miniz : Miniz} (streams : Streams miniz) {compress kept : Bool} {bytes packed : List UInt8}
    (ok : packSection miniz compress bytes = .ok (kept,packed)) (given : bytes ≠ []) (small : bytes.length < 2 ^ 32) :
    Stored miniz (UInt32.ofNat packed.length) (UInt32.ofNat bytes.length) (some bytes)
      (packed.take (UInt32.ofNat packed.length).toNat) ∧ packed.length < 2 ^ 32 ∧ packed ≠ [] := by
  have cases : packed = bytes ∨
      (packed.length < bytes.length ∧ packed ≠ [] ∧ miniz.uncompress bytes.length packed = some bytes) := by
    unfold packSection at ok
    split at ok
    · cases made : miniz.compress2 saveCompressionLevel bytes with
      | none => simp [made] at ok
      | some stream =>
        simp only [made] at ok
        split at ok
        · rename_i shorter
          obtain ⟨_,rfl⟩ := Prod.mk.inj (Except.ok.inj ok)
          have restored := streams.restores _ _ _ 0 made (by decide)
          rw [List.replicate_zero,List.append_nil] at restored
          refine .inr ⟨shorter,?_,restored⟩
          intro empty
          exact streams.nonempty _ _ (empty ▸ made)
        · exact .inl (Prod.mk.inj (Except.ok.inj ok)).2.symm
    · exact .inl (Prod.mk.inj (Except.ok.inj ok)).2.symm
  have positive : bytes.length ≠ 0 := by
    intro zero
    exact given (List.length_eq_zero_iff.mp zero)
  cases cases with
  | inl same =>
    subst same
    have nonzero : ¬ (UInt32.ofNat packed.length = 0 ∨ UInt32.ofNat packed.length = 0) := by
      simpa only [ofNat_eq_zero small,or_self] using positive
    refine ⟨?_,small,given⟩
    rw [Stored,if_neg nonzero,toNat_small small,List.take_length]
    exact ⟨rfl,packed,rfl,rfl,by rw [if_pos rfl]⟩
  | inr stream =>
    obtain ⟨shorter,filled,restored⟩ := stream
    have fits : packed.length < 2 ^ 32 := shorter.trans small
    have length : packed.length ≠ 0 := by
      intro zero
      exact filled (List.length_eq_zero_iff.mp zero)
    have nonzero : ¬ (UInt32.ofNat packed.length = 0 ∨ UInt32.ofNat bytes.length = 0) := by
      simp only [ofNat_eq_zero small,ofNat_eq_zero fits]
      omega
    have other : UInt32.ofNat packed.length ≠ UInt32.ofNat bytes.length := by
      rw [ne_eq,← UInt32.toNat_inj,toNat_small fits,toNat_small small]
      omega
    refine ⟨?_,fits,filled⟩
    rw [Stored,if_neg nonzero,toNat_small fits,toNat_small small,List.take_length]
    exact ⟨rfl,bytes,rfl,rfl,by rw [if_neg other]; exact restored⟩

theorem saved_sections_filled (ok : saveFile ctx session flags = .ok file) : file.hdr1Bytes ≠ [] ∧ file.dataBytes ≠ [] := by
  have whole := saveFile_success ok
  obtain ⟨entries,objects⟩ := saveFile_objects ok
  have each := objectDescriptors_success objects.descriptors
  have count : file.header1.objects.length = file.header1.objectCount.toNat := by
    rw [objects.count,DataSection.objectCount,toNat_count32 _ file.dataSect.objectsFit,objects.records,
      List.length_map,each.length_eq]
  constructor
  · obtain ⟨rest,front⟩ := header1Serialize_success count objects.bytes
    rw [front]
    have length : file.header1.objects.length = session.objects.length := by
      rw [← each.length_eq,objects.length]
    cases descs : file.header1.objects with
    | nil =>
      rw [descs] at length
      exact absurd (List.length_eq_zero_iff.mp length.symm) whole.nonempty
    | cons desc descs => simp [descBytes,wordBytes]
  · have written := dataSectionSerialize_success (by decide) whole.bytes
    rw [written]
    cases records : file.dataSect.objects with
    | nil => exact absurd records whole.objects_nonempty
    | cons record records => simp [recordBytes,wordBytes]

end Saved

section Loading
variable {ctx : SaveContext State} {session : FilesSession State} {flags : UInt32} {file : SavedFile} {area : List UInt8}
  {loadCtx : LoadContext State} {state : LoadState State} {load : IncludedLoad} {plugins : Option PluginManager}
  {loadFlags : UInt32}

/-- The image of a file up to the included files. -/
def fileFront (file : SavedFile) : List UInt8 :=
  fileHeaderSerialize file.header ++ (file.hdr1Packed.take file.header.hdr1PackSize.toNat ++
    file.dataPacked.take file.header.dataPackSize.toNat)

theorem fileImage_eq (file : SavedFile) (area : List UInt8) : fileImage file area = fileFront file ++ area := by
  simp [fileImage,fileFront]

/-- A saved image in a version whose header has the sizes of the sections. -/
theorem image_laid (saved : saveFile ctx session.session flags = .ok file) (streams : Streams ctx.miniz)
    (sized : dataSectionCalculateSize file.dataSect 8 = file.dataBytes.length)
    (hdr1Small : file.hdr1Bytes.length < 2 ^ 32) (dataSmall : file.dataBytes.length < 2 ^ 32)
    (modern : 5 ≤ file.header.fileVersion) (known : file.header.fileVersion ≤ 9) {header1 : Header1}
    {records : List ManagerData × List ObjectData}
    (parsed : header1Parse file.hdr1Bytes file.header.objectCount = .ok header1)
    (read : dataSectionParse file.dataBytes file.header.fileVersion file.header.managerCount file.header.objectCount = .ok records)
    (checked : checkPluginDependencies plugins loadFlags header1.pluginDeps = .ok ()) :
    Laid ctx.miniz plugins loadFlags ⟨file.header,header1,records.1,records.2,true⟩ (fileFront file) := by
  have packed := saveFile_packed saved
  obtain ⟨hdr1Filled,dataFilled⟩ := saved_sections_filled saved
  obtain ⟨_,_,hdr1⟩ := packed.hdr1
  obtain ⟨_,_,data⟩ := packed.data
  have first := (stored_packed streams hdr1 hdr1Filled hdr1Small).1
  have second := (stored_packed streams data dataFilled dataSmall).1
  rw [← sized,← packed.dataUnpackSize,← packed.dataPackSize] at second
  rw [← packed.hdr1UnpackSize,← packed.hdr1PackSize] at first
  refine ⟨some file.hdr1Bytes,some file.dataBytes,_,_,rfl,⟨packed.signature,?_,?_⟩,first,?_,checked,second,read,rfl⟩
  · have low : ¬ file.header.fileVersion < 2 := UInt32.not_lt.mpr (UInt32.le_trans (by decide) modern)
    have high : ¬ file.header.fileVersion > 9 := UInt32.not_lt.mpr known
    simp [unsupportedVersion,low,high]
  · intro old
    exact absurd old (UInt32.not_lt.mpr modern)
  · simp [parseHeader1,parsed,Except.mapError]

theorem version_of_front {left right : FileHeader} {more rest : List UInt8}
    (same : fileHeaderSerialize left ++ more = fileHeaderSerialize right ++ rest) : left.fileVersion = right.fileVersion := by
  simp only [fileHeaderSerialize,FileHeader.part0,encodeWords_cons,List.append_assoc] at same
  have first := (List.append_inj same (left.signatureSize.trans right.signatureSize.symm)).2
  have second := (List.append_inj first (by simp)).2
  have third := (List.append_inj second (by simp)).2
  exact wordBytes_inj (List.append_inj third (by simp)).1

/-- Phase 10 leaves an entry for each descriptor. -/
theorem length_created {descs : List ObjectDesc} {s after : LoadState State}
    (ok : (createObjects descs).run s = (.ok (),after)) :
    after.createdObjects.length = s.createdObjects.length + descs.length := by
  induction descs generalizing s with
  | nil =>
    simp only [createObjects,Action.pure_apply,Prod.mk.injEq,true_and] at ok
    rw [ok,List.length_nil,Nat.add_zero]
  | cons desc rest ih =>
    obtain ⟨_,middle,one,others⟩ := Action.bind_success ok
    have single : middle.createdObjects.length = s.createdObjects.length + 1 := by
      unfold createObject at one
      split at one
      · simp only [recordCreated,Action.update_apply,Prod.mk.injEq,true_and] at one
        simp [← one]
      · obtain ⟨id,_,added,one⟩ := Action.bind_success one
        obtain ⟨repo,_,rfl⟩ := onRepo_success added
        obtain ⟨_,_,registered,one⟩ := Action.bind_success one
        obtain ⟨session,rfl⟩ := onSession_success registered
        simp only [recordCreated,Action.update_apply,Prod.mk.injEq,true_and] at one
        simp [← one]
    rw [ih others,single,List.length_cons]
    omega

theorem length_loaded {descs : List ObjectDesc} {records : List ObjectData} {s after : LoadState State}
    (ok : (loadObjects loadCtx descs records).run s = (.ok (),after)) :
    after.createdObjects.length = s.createdObjects.length + descs.length := by
  unfold loadObjects at ok
  split at ok
  · rename_i none
    simp only [Action.pure_apply,Prod.mk.injEq,true_and] at ok
    rw [← ok,none,Nat.add_zero]
  · obtain ⟨_,ready,prepared,last⟩ := Action.bind_success ok
    obtain ⟨_,made,creation,prepared⟩ := Action.bind_success prepared
    rw [Action.bind_ok _ (Action.update_apply _ _),Action.bind_ok _ (Action.update_apply _ _),Action.update_apply] at prepared
    obtain ⟨repo,_,rfl⟩ := onRepo_success last
    rw [← (Prod.mk.inj prepared).2]
    simpa using length_created creation

/-- In an older version the header states no sizes, and the load finds no objects. -/
theorem old_opens_empty {opened : OpenedFile} {miniz : Miniz} {front : List UInt8}
    (laid : Laid miniz plugins loadFlags opened front) (old : opened.header.fileVersion < 5) :
    opened.header1.objects = [] := by
  obtain ⟨hdr1,_,_,_,_,accepted,stored,parsed,_⟩ := laid
  have zero := (accepted.old old).hdr1UnpackSize
  rw [Stored,if_pos (.inr zero)] at stored
  rw [stored.1,parseHeader1,Except.ok.injEq] at parsed
  rw [← parsed]

theorem parsed_some {whole : SavedFile} (written : saveFile ctx session.session flags = .ok whole) {header1 : Header1}
    (parsed : header1Parse whole.hdr1Bytes whole.header.objectCount = .ok header1) : 0 < header1.objects.length := by
  have saved := saveFile_success written
  obtain ⟨descs,rest,count,layout⟩ := header1Parse_stored parsed
  rw [layout] at parsed
  rw [header1Parse_objects count parsed,List.length_map,count,saved.objectCount,DataSection.objectCount,
    toNat_count32 _ whole.dataSect.objectsFit]
  exact List.length_pos_of_ne_nil saved.objects_nonempty

/-- A file that is read back from its sections is read back alike from its bytes, with its included files, exactly in
the versions whose header states the sizes of the sections; in the others the load fails or finds nothing. -/
theorem image_loads_iff (saved : saveFileWithIncluded ctx session flags = .ok (file,area)) (streams : Streams ctx.miniz)
    (sized : dataSectionCalculateSize file.dataSect 8 = file.dataBytes.length)
    (hdr1Small : file.hdr1Bytes.length < 2 ^ 32) (dataSmall : file.dataBytes.length < 2 ^ 32)
    (loaded : reloadFile loadCtx file = .ok state) (included : reloadIncluded file area = .ok load)
    (checked : ∀ header1, header1Parse file.hdr1Bytes file.header.objectCount = .ok header1 →
      checkPluginDependencies plugins loadFlags header1.pluginDeps = .ok ()) :
    loadFile ctx.miniz plugins loadFlags (fileImage file area) loadCtx = .ok (state,load.files) ↔
      session.session.fileInfo.fileVersion = 0 ∨
        5 ≤ session.session.fileInfo.fileVersion ∧ session.session.fileInfo.fileVersion ≤ 9 := by
  obtain ⟨whole,written,rest⟩ := bind_result saved
  obtain ⟨rfl,areas⟩ := Prod.mk.inj (Except.ok.inj rest)
  have version := (saveFile_success written).fileVersion
  have between : (session.session.fileInfo.fileVersion = 0 ∨
      5 ≤ session.session.fileInfo.fileVersion ∧ session.session.fileInfo.fileVersion ≤ 9) ↔
      5 ≤ whole.header.fileVersion ∧ whole.header.fileVersion ≤ 9 := by
    rw [version]
    by_cases zero : session.session.fileInfo.fileVersion = 0
    · simp [zero]
    · simp [zero]
  obtain ⟨header1,records,parsed,read,run⟩ := reloadFile_success loaded
  rw [between]
  have packed := saveFile_packed written
  constructor
  · intro ok
    unfold loadFile at ok
    split at ok
    · cases ok
    · rename_i opened pos ran
      obtain ⟨front,left,split,_,laid⟩ := (opened_iff ..).mp ran
      have laid' := laid
      obtain ⟨_,_,_,_,layout,accepted,_⟩ := laid'
      rw [layout,fileImage,List.append_assoc] at split
      have same := version_of_front split
      have supported : ¬ opened.header.fileVersion < 2 ∧ ¬ opened.header.fileVersion > 9 := by
        simpa [unsupportedVersion] using accepted.version
      rw [same]
      refine ⟨?_,UInt32.not_lt.mp supported.2⟩
      by_contra old
      have empty := old_opens_empty laid (UInt32.not_le.mp old)
      dsimp only at ok
      split at ok
      · rename_i found again
        obtain ⟨rfl,_⟩ := Prod.mk.inj (Except.ok.inj ok)
        have none := length_loaded again
        have some := length_loaded run
        rw [empty] at none
        have positive := parsed_some written parsed
        simp only [List.length_nil] at none some
        omega
      · cases ok
  · intro ⟨modern,known⟩
    have laid := image_laid written streams sized hdr1Small dataSmall modern known parsed read (checked header1 parsed)
    have ran := (opened_iff ctx.miniz plugins loadFlags (fileImage whole area) _ _).mpr
      ⟨fileFront whole,area,fileImage_eq whole area,rfl,laid⟩
    have behind : (fileImage whole area).drop (fileFront whole).length = area := by
      rw [fileImage_eq,List.drop_left]
    obtain ⟨hdr1Filled,dataFilled⟩ := saved_sections_filled written
    obtain ⟨_,_,data⟩ := packed.data
    obtain ⟨_,dataFits,dataSome⟩ := stored_packed streams data dataFilled dataSmall
    have present : ¬ (whole.header.dataPackSize = 0 ∨ whole.header.dataUnpackSize = 0) := by
      rw [packed.dataPackSize,packed.dataUnpackSize,sized,ofNat_eq_zero dataSmall,ofNat_eq_zero dataFits]
      simp [dataSome,dataFilled]
    rw [reloadIncluded,parsed] at included
    change (if _ then _ else _ : Result IncludedLoad) = .ok load at included
    rw [if_neg present,Except.ok.injEq] at included
    simp only [loadFile,ran,behind,if_true,included,run]

end Loading

section Samples

theorem storedMiniz_streams : Streams storedMiniz where
  restores := storedMiniz_restores
  nonempty := by
    intro level bytes made
    change StoredStream.deflate bytes = some [] at made
    unfold StoredStream.deflate at made
    split at made
    · have length := congrArg List.length (Option.some.inj made)
      simp [StoredStream.length_stream] at length
    · cases made

/-- The session of two included files, with a library that is asked to compress. -/
def packingContext : SaveContext Unit := { plainContext with miniz := storedMiniz }

/-- A save and a load from the sections: the sizes of these, and the included files that are found. -/
def imageTrip (session : FilesSession Unit) :
    Result ((Nat × Nat × Nat) × List (List UInt8 × Option (List UInt8))) := do
  let saved ← saveFileWithIncluded packingContext session saveCompressed
  let _ ← reloadFile ({} : LoadContext Unit) saved.1
  let load ← reloadIncluded saved.1 saved.2
  .ok ((dataSectionCalculateSize saved.1.dataSect 8,saved.1.dataBytes.length,saved.1.hdr1Bytes.length),
    load.files.map fun file => (file.name,file.data))

theorem payloads_loaded : ∃ file area state files,
    saveFileWithIncluded packingContext (filesSession bytePayload bytePayload) saveCompressed = .ok (file,area) ∧
      loadFile storedMiniz none 0 (fileImage file area) ({} : LoadContext Unit) = .ok (state,files) ∧
      files.map (fun file => (file.name,file.data)) = [([98],some [7]),([98],some [7])] := by
  have run : imageTrip (filesSession bytePayload bytePayload) =
      .ok ((4,4,46),[([98],some [7]),([98],some [7])]) := by decide +kernel
  obtain ⟨⟨file,area⟩,saved,run⟩ := bind_result run
  obtain ⟨state,loaded,run⟩ := bind_result run
  obtain ⟨load,included,run⟩ := bind_result run
  obtain ⟨sizes,files⟩ := Prod.mk.inj (Except.ok.inj run)
  obtain ⟨calculated,sizes⟩ := Prod.mk.inj sizes
  obtain ⟨data,hdr1⟩ := Prod.mk.inj sizes
  dsimp only at calculated data hdr1
  refine ⟨file,area,state,load.files,saved,?_,files⟩
  apply (image_loads_iff saved storedMiniz_streams (calculated.trans data.symm) (by omega) (by omega) loaded included ?_).mpr
  · exact .inl rfl
  · intro header1 _
    simp [checkPluginDependencies,hasFlag]

end Samples

end Libnmo.App
