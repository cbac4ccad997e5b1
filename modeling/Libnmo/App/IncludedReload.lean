import Libnmo.App.IncludedFiles
import Libnmo.App.References

/-! Included files over a save and a load. The reader takes a payload for every entry
of positive size, so an entry without one is followed by the wrong bytes. -/
namespace Libnmo.App
open Core Format Session Lib Lib.LittleEndian Lib.Cursor

variable {State : Type}

structure SameFile (file back : IncludedFile) : Prop where
  name : back.name = file.name
  data : back.data = file.data
  size : back.size = file.size

/-- An entry whose payload is there when its size says so, and whose name has a length that the reader accepts. -/
structure Carried (file : IncludedFile) : Prop where
  payload : file.size > 0 → file.data ≠ none
  name : file.name.length + 1 < 2 ^ 32

theorem cString_of_terminated {name : List UInt8} (terminated : 0 ∉ name) : cString name = name := by
  rw [cString,List.takeWhile_eq_self_iff]
  intro c member
  exact decide_eq_true fun zero => terminated (zero ▸ member)

section
variable {area : List UInt8} {s : IncludedLoad}

theorem ioReadU32_run {word : UInt32} {rest : List UInt8} (ahead : Ahead area s.pos (wordBytes word ++ rest)) :
    (ioReadU32 area).run s = (.ok word,{ s with pos := s.pos + 4 }) := by
  have piece := ahead.slice_eq
  rw [length_wordBytes] at piece
  simp only [ioReadU32,piece,wordBytes,bytesWord_wordBytes]

theorem ioReadBytes_run {bytes rest : List UInt8} {size : Nat} (ahead : Ahead area s.pos (bytes ++ rest))
    (length : bytes.length = size) : (ioReadBytes area size).run s = (.ok bytes,{ s with pos := s.pos + size }) := by
  subst length
  simp only [ioReadBytes,ahead.slice_eq,if_pos]

theorem ahead_word {word : UInt32} {rest : List UInt8} {pos : Nat} (ahead : Ahead area pos (wordBytes word ++ rest)) :
    Ahead area (pos + 4) rest := by
  have next := ahead.skip
  rwa [length_wordBytes] at next

theorem addIncluded_run (source : IncludedSource) (given : source.size > 0 → source.data ≠ none) :
    (addIncluded (sessionStoreIncludedFile source false none)).run s =
      (.ok (),{ s with files := s.files ++ [includedEntry source false none] }) := by
  have accepted : ¬ (source.size > 0 ∧ source.data = none ∧ metadataOnly none = false) :=
    fun both => given both.1 both.2.1
  rw [addIncluded,sessionStoreIncludedFile]
  simp only [if_neg accepted]
  rfl

theorem ioReadBytes_cases (area : List UInt8) (s : IncludedLoad) (size : Nat) :
    (∃ bytes, bytes.length = size ∧ (ioReadBytes area size).run s = (.ok bytes,{ s with pos := s.pos + size })) ∨
      (ioReadBytes area size).run s = (.error (.error .eof ""),s) := by
  rw [ioReadBytes]
  dsimp only
  split
  · rename_i length
    exact .inl ⟨_,length,rfl⟩
  · exact .inr rfl

theorem size_pos {file : IncludedFile} {payload : List UInt8} (found : file.data = some payload) : file.size > 0 :=
  UInt32.lt_iff_toNat_lt.mpr (file.whole payload found).2

theorem cString_nameBytes (file : IncludedFile) : cString (nameBytes file.name) = nameBytes file.name :=
  cString_of_terminated fun member => file.terminated (List.mem_of_mem_take member)

theorem nameBytes_same (file : IncludedFile) : nameBytes file.name = file.name ↔ file.name.length < 2 ^ 32 := by
  constructor
  · intro same
    have length := length_nameBytes file.name
    rw [same] at length
    rw [length]
    exact UInt32.toNat_lt _
  · intro small
    have whole := cString_of_terminated file.terminated
    rw [(nameBytes_cString (by rwa [whole])).2,whole]

/-- An entry made of the stored name and the entry's own payload is the entry, if its name was stored whole. -/
theorem sameFile_iff {file : IncludedFile} {source : IncludedSource} (name : source.name = nameBytes file.name)
    (data : source.data = file.data) (size : source.size = file.size) :
    SameFile file (includedEntry source false none) ↔ file.name.length < 2 ^ 32 := by
  rw [← nameBytes_same]
  have named : (includedEntry source false none).name = nameBytes file.name := by
    change cString source.name = _
    rw [name,cString_nameBytes]
  constructor
  · intro same
    rw [← named]
    exact same.name
  · intro same
    refine ⟨named.trans same,?_,size⟩
    change (if source.size > 0 ∧ metadataOnly none = false then source.data else none) = file.data
    cases found : file.data with
    | none =>
      rw [data,found]
      exact ite_self ..
    | some payload => rw [if_pos ⟨size ▸ size_pos found,rfl⟩,data,found]

/-- What the reader makes of an entry: it adds the entry and goes on behind it, or it takes something else for it. -/
structure EntryRead (area : List UInt8) (file : IncludedFile) (rest : List UInt8) (s : IncludedLoad)
    (out : Result Unit × IncludedLoad) : Prop where
  carried : Carried file → ∃ pos back, out = (.ok (),⟨pos,s.files ++ [back]⟩) ∧ SameFile file back ∧ Ahead area pos rest
  mistaken : ¬ Carried file → (∃ pos back, out = (.ok (),⟨pos,s.files ++ [back]⟩) ∧ ¬ SameFile file back) ∨
    ∃ pos stop, out = (.error stop,⟨pos,s.files⟩)

/-- An entry read with its own payload is what it was but for a name that is too long. -/
theorem entryRead_own {file : IncludedFile} {source : IncludedSource} {rest : List UInt8} {pos : Nat}
    (name : source.name = nameBytes file.name) (data : source.data = file.data) (size : source.size = file.size)
    (given : file.size > 0 → file.data ≠ none) (room : nameLen file.name + 1 ≠ 0) (ahead : Ahead area pos rest) :
    EntryRead area file rest s (.ok (),⟨pos,s.files ++ [includedEntry source false none]⟩) := by
  have same := sameFile_iff name data size
  constructor
  · intro carried
    exact ⟨pos,_,rfl,same.mpr (Nat.lt_of_succ_lt carried.name),ahead⟩
  · intro other
    refine .inl ⟨pos,_,rfl,fun equal => other ⟨given,?_⟩⟩
    have small := same.mp equal
    have length := length_nameBytes file.name
    rw [(nameBytes_same file).mpr small] at length
    have positive : (nameLen file.name + 1).toNat ≠ 0 := fun zero => room (UInt32.toNat_inj.mp zero)
    rw [UInt32.toNat_add,← length] at positive
    change (file.name.length + 1) % 2 ^ 32 ≠ 0 at positive
    omega

/-- The reader at an entry, behind the length of its name. -/
theorem loadIncludedEntry_read (file : IncludedFile) (rest : List UInt8)
    (ahead : Ahead area s.pos (nameBytes file.name ++ (wordBytes file.size ++
      ((if file.size > 0 then file.data.getD [] else []) ++ rest)))) :
    EntryRead area file rest s ((loadIncludedEntry area (nameLen file.name)).run s) := by
  have length := length_nameBytes file.name
  by_cases room : nameLen file.name + 1 = 0
  · have stopped : (loadIncludedEntry area (nameLen file.name)).run s = (.error (.error .nomem ""),s) := by
      rw [loadIncludedEntry,if_pos room]
      rfl
    rw [stopped]
    refine ⟨fun carried => absurd room (nameLen_small ?_),fun _ => .inr ⟨s.pos,_,rfl⟩⟩
    rw [cString_of_terminated file.terminated]
    exact carried.name
  · have name := ioReadBytes_run ahead length
    have left := ahead.skip
    rw [length] at left
    have size : (ioReadU32 area).run { s with pos := s.pos + (nameLen file.name).toNat } = _ := ioReadU32_run left
    have payload := ahead_word left
    rw [loadIncludedEntry,if_neg room,Action.bind_ok _ (Action.pure_apply _ _),Action.bind_ok _ name,
      Action.bind_ok _ size]
    by_cases sized : file.size > 0
    · rw [if_pos sized] at payload ⊢
      cases found : file.data with
      | some bytes =>
        have whole := (file.whole bytes found).1
        rw [found,Option.getD_some] at payload
        have read : (ioReadBytes area file.size.toNat).run
            { s with pos := s.pos + (nameLen file.name).toNat + 4 } = _ := ioReadBytes_run payload whole
        have behind := payload.skip
        rw [whole] at behind
        rw [Action.bind_ok _ read,dif_pos whole,addIncluded_run _ (fun _ => Option.some_ne_none bytes)]
        exact entryRead_own rfl found.symm rfl (fun _ absent => by rw [found] at absent; cases absent) room behind
      | none =>
        have missing : ¬ Carried file := fun carried => carried.payload sized found
        refine ⟨fun carried => absurd carried missing,fun _ => ?_⟩
        rcases ioReadBytes_cases area { s with pos := s.pos + (nameLen file.name).toNat + 4 } file.size.toNat with
          ⟨bytes,whole,read⟩ | read
        · rw [Action.bind_ok _ read,dif_pos whole,addIncluded_run _ (fun _ => Option.some_ne_none bytes)]
          refine .inl ⟨_,_,rfl,fun same => ?_⟩
          have data := same.data
          rw [found] at data
          change (if file.size > 0 ∧ metadataOnly none = false then some bytes else none) = none at data
          rw [if_pos ⟨sized,rfl⟩] at data
          cases data
        · rw [Action.bind_error _ read]
          exact .inr ⟨_,_,rfl⟩
    · have none : file.data = none := by
        cases found : file.data with
        | none => rfl
        | some bytes => exact absurd (size_pos found) sized
      rw [if_neg sized] at payload ⊢
      rw [addIncluded_run _ (fun some => absurd some sized)]
      exact entryRead_own rfl none.symm rfl (fun some => absurd some sized) room payload

/-- The entries that were loaded before stay at the front. -/
theorem keeps_addIncluded (start : List IncludedFile) (source : IncludedSource) (info : Option IncludedFileMetadata) :
    Action.Keeps (fun s : IncludedLoad => start <+: s.files) (addIncluded (sessionStoreIncludedFile source false info)) := by
  intro s before
  rw [addIncluded,sessionStoreIncludedFile]
  split
  · exact before
  · exact before.trans (List.prefix_append ..)

theorem keeps_ioReadBytes (start : List IncludedFile) (size : Nat) :
    Action.Keeps (fun s : IncludedLoad => start <+: s.files) (ioReadBytes area size) := by
  intro s before
  rw [ioReadBytes]
  dsimp only
  split <;> exact before

theorem keeps_ioReadU32 (area : List UInt8) (start : List IncludedFile) :
    Action.Keeps (fun s : IncludedLoad => start <+: s.files) (ioReadU32 area) := by
  intro s before
  rw [ioReadU32]
  dsimp only
  split <;> exact before

theorem keeps_loadIncludedEntry (start : List IncludedFile) (nameLen : UInt32) :
    Action.Keeps (fun s : IncludedLoad => start <+: s.files) (loadIncludedEntry area nameLen) := by
  rw [loadIncludedEntry]
  refine Action.keeps_bind ?_ fun _ => Action.keeps_bind (keeps_ioReadBytes start _) fun name =>
    Action.keeps_bind (keeps_ioReadU32 area start) fun dataSize => ?_
  · split
    · exact Action.keeps_stop _
    · exact Action.keeps_pure ()
  · split
    · refine Action.keeps_bind (keeps_ioReadBytes start _) fun payload => ?_
      split
      · exact keeps_addIncluded start _ none
      · exact Action.keeps_stop _
    · exact keeps_addIncluded start _ none

theorem keeps_loadIncludedEntries (start : List IncludedFile) (fuel : Nat) :
    Action.Keeps (fun s : IncludedLoad => start <+: s.files) (loadIncludedEntries area fuel) := by
  induction fuel with
  | zero => exact Action.keeps_stop _
  | succ fuel ih =>
    intro s before
    have next := keeps_ioReadU32 area start s before
    rw [loadIncludedEntries]
    dsimp only
    split
    · rename_i nameLen s' read
      rw [read] at next
      exact Action.keeps_bind (keeps_loadIncludedEntry start nameLen) (fun _ => ih) s' next
    · rename_i stop s' read
      rw [read] at next
      exact next

theorem keeps_registerIncludedMetadata (start : List IncludedFile) (descs : List IncludedFileDesc) :
    Action.Keeps (fun s : IncludedLoad => start <+: s.files) (registerIncludedMetadata descs) := by
  induction descs with
  | nil => exact Action.keeps_pure ()
  | cons desc descs ih => exact Action.keeps_bind (keeps_addIncluded start _ _) fun _ => ih

theorem loadIncludedEntries_step {file : IncludedFile} {rest : List UInt8} (fuel : Nat)
    (ahead : Ahead area s.pos (includedFileArea file ++ rest)) : ∃ out, EntryRead area file rest s out ∧
      (loadIncludedEntries area (fuel + 1)).run s = match out with
        | (.ok (),s') => (loadIncludedEntries area fuel).run s'
        | (.error stop,s') => (.error stop,s') := by
  rw [includedFileArea,List.append_assoc,List.append_assoc,List.append_assoc] at ahead
  have length := ioReadU32_run ahead
  have entry := loadIncludedEntry_read (s := { s with pos := s.pos + 4 }) file rest (ahead_word ahead)
  refine ⟨_,⟨entry.carried,entry.mistaken⟩,?_⟩
  rw [loadIncludedEntries]
  simp only [length]
  rw [Action.bind_apply]
  generalize (loadIncludedEntry area (nameLen file.name)).run { s with pos := s.pos + 4 } = out
  obtain ⟨result,after⟩ := out
  cases result <;> rfl

/-- At the end of the area there is no length to read. -/
theorem loadIncludedEntries_end {fuel : Nat} (some : 0 < fuel) (ahead : Ahead area s.pos []) :
    (loadIncludedEntries area fuel).run s = (.ok (),s) ∧ s.pos = area.length := by
  have last := ahead.length_eq
  have short : slice area s.pos 4 = [] := by rw [slice,ahead.2,List.take_nil]
  obtain ⟨fuel,rfl⟩ := Nat.exists_eq_succ_of_ne_zero some.ne'
  have none : (ioReadU32 area).run s = (.error (.error .eof ""),s) := by
    rw [ioReadU32]
    simp only [short]
  refine ⟨?_,last.symm⟩
  rw [loadIncludedEntries]
  simp only [none]

theorem loadIncludedEntries_carried {files : List IncludedFile} (carried : ∀ file ∈ files, Carried file) {fuel : Nat}
    (enough : files.length < fuel) (ahead : Ahead area s.pos (files.flatMap includedFileArea)) :
    ∃ backs, (loadIncludedEntries area fuel).run s = (.ok (),⟨area.length,s.files ++ backs⟩) ∧
      List.Forall₂ SameFile files backs := by
  induction files generalizing s fuel with
  | nil =>
    obtain ⟨run,last⟩ := loadIncludedEntries_end (Nat.zero_lt_of_lt enough) ahead
    refine ⟨[],?_,.nil⟩
    rw [run,← last,List.append_nil]
  | cons file files ih =>
    obtain ⟨fuel,rfl⟩ := Nat.exists_eq_succ_of_ne_zero (Nat.ne_zero_of_lt enough)
    obtain ⟨out,entry,run⟩ := loadIncludedEntries_step fuel ahead
    obtain ⟨pos,back,rfl,same,ahead⟩ := entry.carried (carried file (List.mem_cons_self ..))
    obtain ⟨backs,rest,others⟩ := ih (s := ⟨pos,s.files ++ [back]⟩)
      (fun other member => carried other (List.mem_cons_of_mem file member)) (Nat.lt_of_succ_lt_succ enough) ahead
    refine ⟨back :: backs,?_,.cons same others⟩
    rw [run]
    change (loadIncludedEntries area fuel).run ⟨pos,s.files ++ [back]⟩ = _
    rw [rest,List.append_assoc,List.singleton_append]

/-- What follows the entries read so far does not repair an entry that was mistaken. -/
theorem mistaken_stays {before files final : List IncludedFile} {back file : IncludedFile}
    (length : s.files.length = before.length) (other : ¬ SameFile file back) (front : s.files ++ [back] <+: final) :
    ¬ List.Forall₂ SameFile (before ++ file :: files) final := by
  intro same
  obtain ⟨tail,rfl⟩ := front
  have inside : before.length < (before ++ file :: files).length := by
    rw [List.length_append,List.length_cons]
    omega
  have inside' : before.length < (s.files ++ [back] ++ tail).length := by
    simp only [List.length_append,List.length_singleton,length]
    omega
  have both := List.Forall₂.get same inside inside'
  have first : (before ++ file :: files)[before.length] = file := by simp
  have second : (s.files ++ [back] ++ tail)[before.length] = back := by simp [← length]
  simp only [List.get_eq_getElem,first,second] at both
  exact other both

/-- With an entry that is not carried over, the load stops with fewer entries or has a wrong one for good. -/
theorem loadIncludedEntries_mistaken {files : List IncludedFile} (missing : ¬ ∀ file ∈ files, Carried file)
    (before : List IncludedFile) (length : s.files.length = before.length) (fuel : Nat)
    (ahead : Ahead area s.pos (files.flatMap includedFileArea)) :
    ((∃ stop, ((loadIncludedEntries area fuel).run s).1 = .error stop) ∧
      ((loadIncludedEntries area fuel).run s).2.files.length < (before ++ files).length) ∨
    ∀ final, ((loadIncludedEntries area fuel).run s).2.files <+: final →
      ¬ List.Forall₂ SameFile (before ++ files) final := by
  induction files generalizing s before fuel with
  | nil => exact absurd (fun _ member => by cases member) missing
  | cons file files ih =>
    cases fuel with
    | zero =>
      refine .inl ⟨⟨_,rfl⟩,?_⟩
      change s.files.length < _
      rw [List.length_append,List.length_cons]
      omega
    | succ fuel =>
      obtain ⟨out,entry,run⟩ := loadIncludedEntries_step fuel ahead
      rw [run]
      by_cases carried : Carried file
      · obtain ⟨pos,back,rfl,same,ahead⟩ := entry.carried carried
        have rest : ¬ ∀ other ∈ files, Carried other := fun all => missing fun other member =>
          (List.mem_cons.mp member).elim (fun equal => equal ▸ carried) (all other)
        have left := ih (s := ⟨pos,s.files ++ [back]⟩) rest (before ++ [file]) (by simp [length]) fuel ahead
        rwa [List.append_assoc,List.singleton_append] at left
      · rcases entry.mistaken carried with ⟨pos,back,rfl,other⟩ | ⟨pos,stop,rfl⟩
        · refine .inr fun final front => mistaken_stays length other (.trans ?_ front)
          exact keeps_loadIncludedEntries _ fuel ⟨pos,s.files ++ [back]⟩ (List.prefix_refl _)
        · refine .inl ⟨⟨stop,rfl⟩,?_⟩
          change s.files.length < _
          rw [List.length_append,List.length_cons]
          omega

theorem length_includedFileArea (file : IncludedFile) : 0 < (includedFileArea file).length := by
  rw [includedFileArea,List.length_append,length_wordBytes]
  omega

theorem length_files_area (files : List IncludedFile) : files.length ≤ (files.flatMap includedFileArea).length := by
  induction files with
  | nil => exact Nat.le_refl 0
  | cons file files ih =>
    have some := length_includedFileArea file
    rw [List.flatMap_cons,List.length_append,List.length_cons]
    omega

/-- The load of an area finds the entries it was written for, all of them, exactly when each is carried over. -/
theorem loadIncludedFiles_iff {files : List IncludedFile} {header1 : Header1} (few : files.length < 2 ^ 32)
    (count : header1.includedFileCount = count32 files) :
    (List.Forall₂ SameFile files ((loadIncludedFiles (files.flatMap includedFileArea) header1).run {}).2.files ∧
      ((loadIncludedFiles (files.flatMap includedFileArea) header1).run {}).2.pos =
        (files.flatMap includedFileArea).length) ↔ ∀ file ∈ files, Carried file := by
  have start : Ahead (files.flatMap includedFileArea) ({} : IncludedLoad).pos (files.flatMap includedFileArea) :=
    ahead_start _
  constructor
  · rintro ⟨same,_⟩
    by_contra missing
    rw [loadIncludedFiles] at same
    rcases loadIncludedEntries_mistaken (s := {}) missing [] rfl ((files.flatMap includedFileArea).length + 1) start with
      ⟨⟨stop,failed⟩,fewer⟩ | wrong
    · rw [Action.bind_error _ (Prod.ext failed rfl)] at same
      have length := same.length_eq
      rw [List.nil_append,← length] at fewer
      exact Nat.lt_irrefl _ fewer
    · refine wrong _ ?_ same
      rw [Action.bind_apply]
      split
      · rename_i after ran
        rw [ran]
        exact Action.keeps_bind (Action.keeps_read _) (fun _ => keeps_registerIncludedMetadata _ _) after
          (List.prefix_refl _)
      · rename_i stop after ran
        have held : after.files <+: after.files := List.prefix_refl _
        simpa only [ran] using held
  · intro carried
    obtain ⟨backs,run,same⟩ := loadIncludedEntries_carried (s := {}) carried
      (Nat.lt_succ_of_le (length_files_area files)) start
    have none : (header1.includedFiles.take header1.includedFileCount.toNat).drop backs.length = [] := by
      rw [List.drop_eq_nil_iff,List.length_take,count,toNat_count32 files few,same.length_eq]
      exact Nat.min_le_left ..
    rw [loadIncludedFiles,Action.bind_ok _ run,Action.bind_ok _ (Action.read_apply _ _)]
    change List.Forall₂ SameFile files ((registerIncludedMetadata
      ((header1.includedFiles.take header1.includedFileCount.toNat).drop backs.length)).run _).2.files ∧
      ((registerIncludedMetadata
        ((header1.includedFiles.take header1.includedFileCount.toNat).drop backs.length)).run _).2.pos = _
    rw [none]
    exact ⟨same,rfl⟩

end

section
variable {ctx : SaveContext State} {session : FilesSession State} {flags : UInt32} {file : SavedFile}
  {area : List UInt8} {loadCtx : LoadContext State} {state : LoadState State}

/-- The load of the file finds the included files of the session that was saved, and the area holds no more. -/
def IncludedPreserved (session : FilesSession State) (file : SavedFile) (area : List UInt8) : Prop :=
  ∃ load, reloadIncluded file area = .ok load ∧ List.Forall₂ SameFile session.files load.files ∧
    load.pos = area.length

/-- There are included files to be written and read again only if the save does not strip them and the data section
is not taken for empty. -/
structure Transported (session : FilesSession State) (flags : UInt32) (file : SavedFile) : Prop where
  kept : hasFlag flags saveStripIncludedFiles = false
  packed : file.header.dataPackSize ≠ 0
  unpacked : file.header.dataUnpackSize ≠ 0
  carried : ∀ included ∈ session.files, Carried included

theorem saved_filled {entries : List (Bool × Object State)}
    (objects : SavedObjects ctx session.session flags file entries) : file.header1.Filled where
  objects := by
    have each := objectDescriptors_success objects.descriptors
    rw [objects.count,DataSection.objectCount,toNat_count32 _ file.dataSect.objectsFit,objects.records,
      List.length_map,each.length_eq]
  deps := by rw [objects.depCount,objects.deps,toNat_count32 _ session.fewDeps]
  files := by
    have few : file.header1.includedFiles.length < 2 ^ 32 := by
      rw [objects.files]
      split
      · exact Nat.two_pow_pos 32
      · rw [session.described,List.length_map]
        exact session.few
    rw [objects.fileCount,toNat_count32 _ few]

end

section Samples

/-- An included file of one byte. -/
def bytePayload : IncludedFile where
  name := [98]
  data := some [7]
  size := 1
  terminated := by decide
  whole := by
    intro payload found
    cases found
    decide

/-- An entry that is known by its size only. -/
def sizeOnly : IncludedFile where
  name := [97]
  data := none
  size := 5
  attributes := includedFileAttrMetadataOnly
  terminated := by decide
  whole _ absent := by cases absent

/-- A session of one reference with two included files. -/
def filesSession (first second : IncludedFile) : FilesSession Unit where
  session := { referenceSession with includedFiles := [first.desc,second.desc] }
  files := [first,second]
  described := rfl
  few := by
    change 2 < 2 ^ 32
    decide
  fewDeps := Nat.two_pow_pos 32

/-- A save and a load: the sizes of the data section in the header, and the included files that are found. -/
def includedTrip (session : FilesSession Unit) : Result ((UInt32 × UInt32) × List (List UInt8 × Option (List UInt8))) := do
  let saved ← saveFileWithIncluded plainContext session 0
  let _ ← reloadFile ({} : LoadContext Unit) saved.1
  let load ← reloadIncluded saved.1 saved.2
  .ok ((saved.1.header.dataPackSize,saved.1.header.dataUnpackSize),load.files.map fun file => (file.name,file.data))

end Samples

end Libnmo.App
