import Libnmo.Format.Header1Recovered

/-! Where the parse of Header1 stores and how far it advances. It allocates the plugin
dependencies for a total that a first pass adds up in 32 bits, and stores in a second
pass what the buffer holds; the other arrays are as long as their loops. -/
namespace Libnmo.Format
open Core Lib Lib.LittleEndian Lib.Cursor

section Stored
variable {α : Type} (buffer : List UInt8)

/-- A loop that stores what it reads at the next index of an array of so many entries. -/
def storeEach (capacity : Nat) (read : Run Nat α) : Nat → List α → Run Nat (List α)
  | 0,stored => pure stored
  | count + 1,stored => do
    let value ← read
    (if stored.length < capacity then pure () else Action.stop (.overwrite stored.length))
    storeEach capacity read count (stored ++ [value])

/-- `parse_objects` with its array. -/
def storeObjects (objectCount : UInt32) : Run Nat (List ObjectDesc) :=
  if objectCount = 0 then pure [] else storeEach objectCount.toNat (parseObject buffer) objectCount.toNat []

/-- The table of included files with its array. -/
def storeIncludedFiles : Run Nat (UInt32 × List IncludedFileDesc) := do
  let pos ← Action.read id
  (if pos + 8 ≤ buffer.length then do
    let includedCount ← nextU32Le buffer
    let includedTableSize ← nextU32Le buffer
    let start ← Action.read id
    let tableEnd := start + includedTableSize.toNat
    (if includedTableSize > 0 ∧ tableEnd > buffer.length then
      fail .bufferOverrun "Buffer too small for included file table" else pure ())
    let files ← (if includedCount = 0 ∨ includedTableSize = 0 then pure []
      else storeEach includedCount.toNat (parseIncludedFile buffer tableEnd) includedCount.toNat [])
    Action.update fun _ => tableEnd
    pure (includedCount,files)
  else pure (0,[]))

/-- `nmo_header1_parse` with each store to its array. -/
def header1Stored (objectCount : UInt32) : Run Nat Header1 := do
  let objects ← storeObjects buffer objectCount
  let pos ← Action.read id
  let plugins ← (if pos < buffer.length then parsePluginDeps buffer else pure (0,[]))
  let included ← storeIncludedFiles buffer
  pure {
    objectCount := objectCount
    objects := objects
    pluginDepCount := plugins.1
    pluginDeps := plugins.2
    includedFileCount := included.1
    includedFiles := included.2 }

/-- How many GUIDs the buffer holds for the categories from a position on, when each has as many as it declares. -/
def heldGuids : Nat → Nat → Nat
  | 0,_ => 0
  | count + 1,pos =>
    let declared := match slice buffer (pos + 4) 4 with
      | [a,b,c,d] => (bytesWord a b c d).toNat
      | _ => 0
    let held := (buffer.length - (pos + 8)) / 8
    if declared ≤ held then declared + heldGuids count (pos + 8 + declared * 8) else held

/-- No store lies behind its array. -/
def StoresFit (objectCount : UInt32) : Prop :=
  ∀ index, ((header1Stored buffer objectCount).run 0).1 ≠ .error (.overwrite index)

/-- The position goes back once, after the first pass; neither there nor at the end it is past the buffer. -/
def StaysInside (objectCount : UInt32) : Prop :=
  (∀ categoryCount start, start ≤ buffer.length → ((countPlugins buffer categoryCount 0).run start).2 ≤ buffer.length) ∧
    ((header1Stored buffer objectCount).run 0).2 ≤ buffer.length

/-- The dependencies at a position are allocated for as many GUIDs as the buffer holds, or for none. -/
def PluginsFitAt (pos : Nat) : Prop :=
  ∀ categoryCount start totalPlugins stop, (header1Field buffer).run pos = (.ok categoryCount,start) →
    (countPlugins buffer categoryCount.toNat 0).run start = (.ok totalPlugins,stop) → totalPlugins ≠ 0 →
      heldGuids buffer categoryCount.toNat start ≤ totalPlugins.toNat

def PluginsFit (objectCount : UInt32) : Prop :=
  ∀ objects pos, (parseObjects buffer objectCount).run 0 = (.ok objects,pos) → PluginsFitAt buffer pos

end Stored

section Arrays
variable {α : Type} {buffer : List UInt8}

/-- A loop over an array that is long enough stores every value that it reads. -/
theorem storeEach_run {capacity : Nat} (read : Run Nat α) (count : Nat) (stored : List α)
    (room : stored.length + count ≤ capacity) (pos : Nat) : (storeEach capacity read count stored).run pos =
      (read.times count >>= fun values => pure (stored ++ values)).run pos := by
  induction count generalizing stored pos with
  | zero => exact congrArg (fun all => (Except.ok all,pos)) (List.append_nil stored).symm
  | succ count ih =>
    rw [storeEach,Action.times]
    cases ran : read.run pos with
    | mk outcome next =>
      cases outcome with
      | error stop =>
        rw [Action.bind_error _ ran,Action.bind_error _ (Action.bind_error _ ran)]
      | ok value =>
        have free : stored.length < capacity := by omega
        have longer : (stored ++ [value]).length + count ≤ capacity := by
          rw [List.length_append,List.length_singleton]
          omega
        rw [Action.bind_ok _ ran,if_pos free,Action.bind_ok _ (Action.pure_apply () next),ih _ longer next]
        cases rest : (read.times count).run next with
        | mk outcome stop =>
          cases outcome with
          | error e => rw [Action.bind_error _ rest,Action.bind_error _ ((Action.bind_ok _ ran).trans (Action.bind_error _ rest))]
          | ok values =>
            rw [Action.bind_ok _ rest,Action.bind_ok _ ((Action.bind_ok _ ran).trans (Action.bind_ok _ rest))]
            simp

theorem storeEach_times {capacity : Nat} (read : Run Nat α) (count : Nat) (room : count ≤ capacity) :
    storeEach capacity read count [] = read.times count := by
  refine Action.eq_of_run fun pos => ?_
  rw [storeEach_run read count [] (by simpa using room)]
  cases ran : (read.times count).run pos with
  | mk outcome next =>
    cases outcome with
    | error e => exact Action.bind_error _ ran
    | ok values => exact Action.bind_ok _ ran

theorem header1Stored_eq (objectCount : UInt32) : header1Stored buffer objectCount = header1Fields buffer objectCount := by
  have objects : storeObjects buffer objectCount = parseObjects buffer objectCount := by
    rw [storeObjects,parseObjects,storeEach_times _ _ (Nat.le_refl _)]
  have files : storeIncludedFiles buffer = parseIncludedFiles buffer := by
    simp only [storeIncludedFiles,parseIncludedFiles,storeEach_times _ _ (Nat.le_refl _)]
  rw [header1Stored,header1Fields,objects,files]

end Arrays

section Tame
variable {α β : Type} {buffer : List UInt8}

/-- The action stores nothing behind an array, and ends in the buffer. -/
def TameAt (buffer : List UInt8) (out : Result α × Nat) : Prop :=
  (∀ index, out.1 ≠ .error (.overwrite index)) ∧ out.2 ≤ buffer.length

/-- So it does from every position in the buffer. -/
def Tame (buffer : List UInt8) (action : Run Nat α) : Prop :=
  ∀ pos, pos ≤ buffer.length → TameAt buffer (action.run pos)

theorem tameAt_stop {stop : Stop} {next : Nat} (tame : TameAt buffer ((.error stop,next) : Result α × Nat)) :
    TameAt buffer ((.error stop,next) : Result β × Nat) :=
  ⟨fun index same => tame.1 index (congrArg Except.error (Except.error.inj same)),tame.2⟩

theorem tameAt_ok (a : α) {next : Nat} (inside : next ≤ buffer.length) : TameAt buffer ((.ok a,next) : Result α × Nat) :=
  ⟨fun _ same => (by cases same),inside⟩

theorem tameAt_error (code : ErrorCode) (message : String) {next : Nat} (inside : next ≤ buffer.length) :
    TameAt buffer ((.error (.error code message),next) : Result α × Nat) :=
  ⟨fun _ same => (by cases same),inside⟩

theorem tame_pure (a : α) : Tame buffer (pure a : Run Nat α) := fun _ inside => tameAt_ok a inside

theorem tame_fail (code : ErrorCode) (message : String) : Tame buffer (fail code message : Run Nat α) :=
  fun _ inside => tameAt_error code message inside

theorem tame_read (f : Nat → α) : Tame buffer (Action.read f : Run Nat α) := fun _ inside => tameAt_ok _ inside

theorem tame_bind {first : Run Nat α} {next : α → Run Nat β} (head : Tame buffer first)
    (tail : ∀ a, Tame buffer (next a)) : Tame buffer (first >>= next) := by
  intro pos inside
  have reached := head pos inside
  cases ran : first.run pos with
  | mk outcome between =>
    rw [ran] at reached
    cases outcome with
    | ok a =>
      rw [Action.bind_ok next ran]
      exact tail a between reached.2
    | error stop =>
      rw [Action.bind_error next ran]
      exact tameAt_stop reached

theorem tame_times {action : Run Nat α} (tame : Tame buffer action) (count : Nat) : Tame buffer (action.times count) := by
  induction count with
  | zero => exact tame_pure []
  | succ count ih => exact tame_bind tame fun value => tame_bind ih fun values => tame_pure (value :: values)

theorem tame_check (needed : Nat) : Tame buffer (checkHeader1Size buffer needed) := by
  intro pos inside
  rw [checkHeader1Size]
  dsimp only
  split
  · exact tameAt_ok () inside
  · exact tameAt_error _ _ inside

theorem tame_nextU32Le : Tame buffer (nextU32Le buffer) := by
  intro pos inside
  rw [nextU32Le]
  dsimp only
  split
  · rename_i a b c d four
    have held : (slice buffer pos 4).length = 4 := by rw [four]; rfl
    have room : pos + 4 ≤ buffer.length := by
      rw [slice,List.length_take,List.length_drop] at held
      omega
    exact tameAt_ok _ room
  · exact ⟨fun _ same => (by cases same),inside⟩

theorem tame_field : Tame buffer (header1Field buffer) := tame_bind (tame_check 4) fun _ => tame_nextU32Le

/-- What moves over so many bytes does so behind a check of them. -/
theorem tame_checked {needed : Nat} {next : Run Nat α}
    (enough : ∀ pos, pos + needed ≤ buffer.length → TameAt buffer (next.run pos)) :
    Tame buffer (checkHeader1Size buffer needed >>= fun _ => next) := by
  intro pos inside
  by_cases room : pos + needed ≤ buffer.length
  · rw [Action.bind_ok _ (checkHeader1Size_run room)]
    exact enough pos room
  · have short : (checkHeader1Size buffer needed).run pos =
        (.error (.error .bufferOverrun "Buffer overrun while reading Header1"),pos) := by
      rw [checkHeader1Size]
      exact if_neg (by omega)
    rw [Action.bind_error _ short]
    exact tameAt_error _ _ inside

theorem tame_skip {needed : Nat} {next : Run Nat α} (tail : Tame buffer next) :
    Tame buffer (checkHeader1Size buffer needed >>= fun _ => skipBytes needed >>= fun _ => next) :=
  tame_checked fun pos room => by
    have skipped : (skipBytes needed).run pos = (.ok (),pos + needed) := rfl
    rw [Action.bind_ok _ skipped]
    exact tail _ room

theorem tame_name : Tame buffer (parseName buffer) := by
  refine tame_bind tame_field fun nameLen => tame_bind ?_ fun _ => ?_
  · split
    · exact tame_fail _ _
    · exact tame_pure ()
  · split
    · exact tame_checked fun pos room => tameAt_ok _ room
    · exact tame_pure []

theorem tame_object : Tame buffer (parseObject buffer) :=
  tame_bind tame_field fun _ => tame_bind tame_field fun _ => tame_bind tame_field fun _ =>
    tame_bind tame_name fun _ => tame_pure _

theorem tame_objects (objectCount : UInt32) : Tame buffer (parseObjects buffer objectCount) := by
  rw [parseObjects]
  split
  · exact tame_pure []
  · exact tame_times tame_object _

theorem tame_countPlugins (count : Nat) (totalPlugins : UInt32) : Tame buffer (countPlugins buffer count totalPlugins) := by
  induction count generalizing totalPlugins with
  | zero => exact tame_pure totalPlugins
  | succ count ih => exact tame_skip (tame_bind tame_field fun guidCount => tame_skip (ih _))

theorem tame_checkTable (tableEnd needed : Nat) (message : String) : Tame buffer (checkTable tableEnd needed message) := by
  intro pos inside
  rw [checkTable]
  dsimp only
  split
  · exact tameAt_error _ _ inside
  · exact tameAt_ok () inside

/-- In a table that lies in the buffer a check against its end is one against the buffer. -/
theorem tame_tabled {tableEnd needed : Nat} {message : String} {next : Run Nat α}
    (enough : ∀ pos, pos + needed ≤ tableEnd → TameAt buffer (next.run pos)) :
    Tame buffer (checkTable tableEnd needed message >>= fun _ => next) := by
  intro pos inside
  by_cases past : pos + needed > tableEnd
  · have short : (checkTable tableEnd needed message).run pos = (.error (.error .bufferOverrun message),pos) := by
      rw [checkTable]
      exact if_pos past
    rw [Action.bind_error _ short]
    exact tameAt_error _ _ inside
  · have room : (checkTable tableEnd needed message).run pos = (.ok (),pos) := by
      rw [checkTable]
      exact if_neg past
    rw [Action.bind_ok _ room]
    exact enough pos (Nat.not_lt.mp past)

theorem tame_includedFile {tableEnd : Nat} (whole : tableEnd ≤ buffer.length) :
    Tame buffer (parseIncludedFile buffer tableEnd) := by
  refine tame_bind (tame_checkTable _ _ _) fun _ => tame_bind tame_nextU32Le fun nameLen => tame_bind ?_ fun name =>
    tame_bind (tame_checkTable _ _ _) fun _ => tame_bind tame_nextU32Le fun dataSize => tame_pure _
  split
  · refine tame_tabled fun pos room => ?_
    split
    · exact ⟨nofun,Nat.le_trans (Nat.le_add_right _ _) (Nat.le_trans room whole)⟩
    · rw [Action.bind_ok _ (Action.pure_apply () pos)]
      exact ⟨nofun,Nat.le_trans room whole⟩
  · exact tame_pure []

theorem tame_includedFiles : Tame buffer (parseIncludedFiles buffer) := by
  refine tame_bind (tame_read id) fun pos => ?_
  split
  · refine tame_bind tame_nextU32Le fun includedCount => tame_bind tame_nextU32Le fun includedTableSize => ?_
    intro start inside
    rw [Action.bind_ok _ (Action.read_apply id start)]
    by_cases past : includedTableSize > 0 ∧ start + includedTableSize.toNat > buffer.length
    · dsimp only [id]
      rw [if_pos past]
      exact ⟨nofun,inside⟩
    · have whole : start + includedTableSize.toNat ≤ buffer.length := by
        by_cases empty : includedTableSize = 0
        · rw [empty]
          exact inside
        · exact Nat.not_lt.mp fun beyond => past ⟨UInt32.pos_iff_ne_zero.mpr empty,beyond⟩
      dsimp only [id]
      rw [if_neg past,Action.bind_ok _ (Action.pure_apply () start)]
      refine tame_bind ?_ (fun files => ?_) start inside
      · split
        · exact tame_pure []
        · exact tame_times (tame_includedFile whole) _
      · exact tame_bind (fun _ _ => ⟨nofun,whole⟩) fun _ => tame_pure _
  · exact tame_pure _

end Tame

section SecondPass
variable {α : Type} {buffer : List UInt8} {pos : Nat}

theorem nextU32Le_room (room : pos + 4 ≤ buffer.length) : ∃ a b c d, slice buffer pos 4 = [a,b,c,d] ∧
    (nextU32Le buffer).run pos = (.ok (bytesWord a b c d),pos + 4) := by
  have held := length_slice buffer pos 4 room
  match four : slice buffer pos 4 with
  | [a,b,c,d] => exact ⟨a,b,c,d,rfl,by rw [nextU32Le]; simp only [four]⟩
  | [] | [_] | [_,_] | [_,_,_] | _ :: _ :: _ :: _ :: _ :: _ =>
    rw [four] at held
    simp at held

theorem header1Field_room (room : pos + 4 ≤ buffer.length) : ∃ a b c d, slice buffer pos 4 = [a,b,c,d] ∧
    (header1Field buffer).run pos = (.ok (bytesWord a b c d),pos + 4) := by
  obtain ⟨a,b,c,d,four,read⟩ := nextU32Le_room room
  exact ⟨a,b,c,d,four,(Action.bind_ok _ (checkHeader1Size_run room)).trans read⟩

theorem check_short {needed : Nat} (short : buffer.length < pos + needed) : (checkHeader1Size buffer needed).run pos =
    (.error (.error .bufferOverrun "Buffer overrun while reading Header1"),pos) := by
  rw [checkHeader1Size]
  exact if_neg (by omega)

/-- A category is stored whole; or it is stored as far as the buffer goes; or a store falls behind the array. -/
theorem readGuids_cases (category totalPlugins : UInt32) (count : Nat) (deps : List PluginDep)
    (room : deps.length ≤ totalPlugins.toNat) (inside : pos ≤ buffer.length) :
    (∃ stored, (readGuids buffer category totalPlugins count deps).run pos = (.ok stored,pos + count * 8) ∧
      stored.length = deps.length + count ∧ stored.length ≤ totalPlugins.toNat ∧ count ≤ (buffer.length - pos) / 8) ∨
    (∃ next, (readGuids buffer category totalPlugins count deps).run pos =
      (.error (.error .bufferOverrun "Buffer overrun while reading Header1"),next) ∧ next ≤ buffer.length ∧
      (buffer.length - pos) / 8 < count ∧ deps.length + (buffer.length - pos) / 8 ≤ totalPlugins.toNat) ∨
    ∃ index next, (readGuids buffer category totalPlugins count deps).run pos = (.error (.overwrite index),next) ∧
      next ≤ buffer.length ∧ totalPlugins.toNat < deps.length + min count ((buffer.length - pos) / 8) := by
  induction count generalizing pos deps with
  | zero => exact .inl ⟨deps,rfl,rfl,room,Nat.zero_le _⟩
  | succ count ih =>
    rw [readGuids]
    by_cases enough : pos + 8 ≤ buffer.length
    · rw [Action.bind_ok _ (checkHeader1Size_run enough)]
      by_cases free : deps.length < totalPlugins.toNat
      · have front : pos + 4 ≤ buffer.length := by omega
        obtain ⟨a,b,c,d,_,first⟩ := nextU32Le_room front
        obtain ⟨a',b',c',d',_,second⟩ := nextU32Le_room enough
        rw [if_pos free,Action.bind_ok _ (Action.pure_apply () pos),Action.bind_ok _ first,Action.bind_ok _ second]
        have one : (buffer.length - pos) / 8 = (buffer.length - (pos + 4 + 4)) / 8 + 1 := by omega
        have longer (dep : PluginDep) : (deps ++ [dep]).length = deps.length + 1 := List.length_append
        rcases ih (deps ++ [{ guid := ⟨bytesWord a b c d,bytesWord a' b' c' d'⟩, category := category }])
          (by rw [longer]; exact free) (enough : pos + 4 + 4 ≤ buffer.length) with ⟨stored,run,size,fits,held⟩ | ⟨next,run,within,short,fits⟩ |
            ⟨index,next,run,within,past⟩
        · rw [longer] at size
          exact .inl ⟨stored,by rw [run,show pos + 4 + 4 + count * 8 = pos + (count + 1) * 8 by omega],by omega,fits,by omega⟩
        · rw [longer] at fits
          exact .inr (.inl ⟨next,run,within,by omega,by omega⟩)
        · rw [longer] at past
          exact .inr (.inr ⟨index,next,run,within,by omega⟩)
      · rw [if_neg free,Action.bind_error _ (Action.stop_apply _ pos)]
        exact .inr (.inr ⟨_,pos,rfl,inside,by omega⟩)
    · rw [Action.bind_error _ (check_short (by omega))]
      exact .inr (.inl ⟨pos,rfl,inside,by omega,by omega⟩)

/-- The outcome is a store behind the array just when the condition holds. -/
def OverrunsIff (buffer : List UInt8) (past : Prop) (out : Result α × Nat) : Prop :=
  ((∃ index, out.1 = .error (.overwrite index)) ↔ past) ∧ out.2 ≤ buffer.length

theorem overrunsIff_tame {past : Prop} {out : Result α × Nat} (tame : TameAt buffer out) (calm : ¬ past) :
    OverrunsIff buffer past out :=
  ⟨iff_of_false (fun ⟨index,same⟩ => tame.1 index same) calm,tame.2⟩

theorem heldGuids_succ (count : Nat) {a b c d : UInt8} (four : slice buffer (pos + 4) 4 = [a,b,c,d]) :
    heldGuids buffer (count + 1) pos =
      if (bytesWord a b c d).toNat ≤ (buffer.length - (pos + 8)) / 8 then
        (bytesWord a b c d).toNat + heldGuids buffer count (pos + 8 + (bytesWord a b c d).toNat * 8)
      else (buffer.length - (pos + 8)) / 8 := by
  rw [heldGuids,four]

/-- Behind the last header that fits there is nothing. -/
theorem heldGuids_short (count : Nat) (short : buffer.length < pos + 8) : heldGuids buffer count pos = 0 := by
  induction count generalizing pos with
  | zero => rfl
  | succ count ih =>
    have none : (slice buffer (pos + 4) 4).length < 4 := by
      rw [slice,List.length_take,List.length_drop]
      omega
    have held : (buffer.length - (pos + 8)) / 8 = 0 := by omega
    rw [heldGuids,held]
    split
    · rename_i four
      rw [four] at none
      exact absurd none (by simp)
    · rw [if_pos (Nat.le_refl 0),ih (by omega)]

theorem readCategories_overruns (totalPlugins : UInt32) (count : Nat) (deps : List PluginDep)
    (room : deps.length ≤ totalPlugins.toNat) (inside : pos ≤ buffer.length) :
    OverrunsIff buffer (totalPlugins.toNat < deps.length + heldGuids buffer count pos)
      ((readCategories buffer totalPlugins count deps).run pos) := by
  induction count generalizing pos deps with
  | zero => exact overrunsIff_tame (tame_pure deps pos inside) (Nat.not_lt.mpr room)
  | succ count ih =>
    rw [readCategories]
    by_cases header : pos + 8 ≤ buffer.length
    · have front : pos + 4 ≤ buffer.length := by omega
      obtain ⟨_,_,_,_,_,first⟩ := header1Field_room front
      obtain ⟨a,b,c,d,four,second⟩ := header1Field_room header
      rw [Action.bind_ok _ first,Action.bind_ok _ second,heldGuids_succ count four]
      generalize bytesWord a b c d = declared
      rcases readGuids_cases _ totalPlugins declared.toNat deps room header with
        ⟨stored,run,size,fits,held⟩ | ⟨next,run,within,short,fits⟩ | ⟨index,next,run,within,past⟩
      · have within : pos + 8 + declared.toNat * 8 ≤ buffer.length := by omega
        have rest := ih stored fits within
        rw [size,Nat.add_assoc] at rest
        rw [if_pos held,Action.bind_ok _ run]
        exact rest
      · rw [if_neg (Nat.not_le.mpr short),Action.bind_error _ run]
        exact overrunsIff_tame (tameAt_error _ _ within) (Nat.not_lt.mpr fits)
      · rw [Action.bind_error _ run]
        refine ⟨iff_of_true ⟨index,rfl⟩ ?_,within⟩
        split <;> omega
    · have none : heldGuids buffer (count + 1) pos = 0 := heldGuids_short _ (Nat.not_le.mp header)
      refine overrunsIff_tame ?_ (by omega)
      by_cases category : pos + 4 ≤ buffer.length
      · obtain ⟨_,_,_,_,_,first⟩ := header1Field_room category
        rw [Action.bind_ok _ first,header1Field,Action.bind_error _ (Action.bind_error _ (check_short (by omega)))]
        exact tameAt_error _ _ category
      · rw [header1Field,Action.bind_error _ (Action.bind_error _ (check_short (by omega)))]
        exact tameAt_error _ _ inside

/-- What follows stores nothing behind an array. -/
theorem overrunsIff_bind {β : Type} {past : Prop} {action : Run Nat α} {next : α → Run Nat β}
    (overruns : OverrunsIff buffer past (action.run pos)) (tail : ∀ a, Tame buffer (next a)) :
    OverrunsIff buffer past ((action >>= next).run pos) := by
  cases ran : action.run pos with
  | mk outcome between =>
    rw [ran] at overruns
    cases outcome with
    | ok value =>
      have calm : ¬ past := fun held => nomatch overruns.1.mpr held
      rw [Action.bind_ok _ ran]
      exact overrunsIff_tame (tail value between overruns.2) calm
    | error stop =>
      rw [Action.bind_error _ ran]
      refine ⟨Iff.trans ?_ overruns.1,overruns.2⟩
      exact exists_congr fun index => ⟨fun same => congrArg Except.error (Except.error.inj same),
        fun same => congrArg Except.error (Except.error.inj same)⟩

/-- The plugin dependencies at a position are stored behind their array just when they do not fit. -/
theorem parsePluginDeps_overruns (inside : pos ≤ buffer.length) :
    OverrunsIff buffer (¬ PluginsFitAt buffer pos) ((parsePluginDeps buffer).run pos) := by
  rw [parsePluginDeps]
  have field := tame_field pos inside
  cases first : (header1Field buffer).run pos with
  | mk outcome start =>
    rw [first] at field
    cases outcome with
    | error stop =>
      rw [Action.bind_error _ first]
      refine overrunsIff_tame (tameAt_stop field) (not_not.mpr ?_)
      intro _ _ _ _ again
      rw [first] at again
      cases again
    | ok categoryCount =>
      have fits_iff {total : UInt32} {stop : Nat}
          (counted : (countPlugins buffer categoryCount.toNat 0).run start = (.ok total,stop)) : PluginsFitAt buffer pos ↔
            (total ≠ 0 → heldGuids buffer categoryCount.toNat start ≤ total.toNat) := by
        constructor
        · exact fun fits => fits categoryCount start total stop first counted
        · intro fits _ _ _ _ again recounted
          rw [first] at again
          cases again
          rw [counted] at recounted
          cases recounted
          exact fits
      rw [Action.bind_ok _ first]
      by_cases zero : categoryCount = 0
      · subst zero
        refine overrunsIff_tame (tame_pure _ start field.2) (not_not.mpr ((fits_iff rfl).mpr ?_))
        exact fun some => absurd rfl some
      · rw [if_neg zero,Action.bind_ok _ (Action.read_apply id start)]
        have passed := tame_countPlugins categoryCount.toNat 0 start field.2
        cases counted : (countPlugins buffer categoryCount.toNat 0).run start with
        | mk outcome stop =>
          rw [counted] at passed
          cases outcome with
          | error fault =>
            rw [Action.bind_error _ counted]
            refine overrunsIff_tame (tameAt_stop passed) (not_not.mpr ?_)
            intro _ _ _ _ again recounted
            rw [first] at again
            cases again
            rw [counted] at recounted
            cases recounted
          | ok total =>
            rw [Action.bind_ok _ counted,Action.bind_ok _ (Action.update_apply _ stop),fits_iff counted]
            by_cases none : total = 0
            · rw [if_pos none]
              exact overrunsIff_tame (tame_pure _ start field.2) (not_not.mpr fun some => absurd none some)
            · rw [if_neg none]
              have stored := overrunsIff_bind
                (readCategories_overruns total categoryCount.toNat [] (Nat.zero_le _) field.2) fun deps => tame_pure (total,deps)
              refine ⟨stored.1.trans ?_,stored.2⟩
              rw [List.length_nil,Nat.zero_add,← Nat.not_le]
              exact not_congr ⟨fun fits _ => fits,fun fits => fits none⟩

end SecondPass

section
variable (buffer : List UInt8) (objectCount : UInt32)

theorem header1Fields_overruns :
    OverrunsIff buffer (¬ PluginsFit buffer objectCount) ((header1Fields buffer objectCount).run 0) := by
  rw [header1Fields]
  have objects := tame_objects objectCount 0 (Nat.zero_le buffer.length)
  cases parsed : (parseObjects buffer objectCount).run 0 with
  | mk outcome pos =>
    rw [parsed] at objects
    cases outcome with
    | error stop =>
      rw [Action.bind_error _ parsed]
      refine overrunsIff_tame (tameAt_stop objects) (not_not.mpr ?_)
      intro _ _ again
      rw [parsed] at again
      cases again
    | ok descs =>
      have fits_iff : PluginsFit buffer objectCount ↔ PluginsFitAt buffer pos := by
        constructor
        · exact fun fits => fits descs pos parsed
        · intro fits _ _ again
          rw [parsed] at again
          cases again
          exact fits
      rw [Action.bind_ok _ parsed,Action.bind_ok _ (Action.read_apply id pos),fits_iff]
      refine overrunsIff_bind ?_ fun plugins => tame_bind tame_includedFiles fun included => tame_pure _
      by_cases more : pos < buffer.length
      · rw [id,if_pos more]
        exact parsePluginDeps_overruns objects.2
      · rw [id,if_neg more]
        refine overrunsIff_tame (tame_pure _ pos objects.2) (not_not.mpr ?_)
        intro categoryCount start _ _ field
        rw [header1Field,Action.bind_error _ (check_short (by omega))] at field
        cases field

/-- Two categories of 2^31 + 1 and 2^31 GUIDs, which add up to one, in a buffer that holds two. -/
def wrappedTotal : List UInt8 := encodeWords [2,0,0x80000001,5,6,0,0x80000000]

end

end Libnmo.Format
