import Libnmo.Format.ChunkVersion1RoundTrip
import Libnmo.Format.Header1Written
import Mathlib.Data.List.Nodup

/-! A parse of what the serializer of Header1 wrote. The dependencies come back category
by category; a reference bit in an ID, a name of 2^32 - 1 bytes or more and a table of
included files of 2^32 bytes or more do not come back as they were. -/
namespace Libnmo.Format
open Core Lib Lib.LittleEndian Lib.Cursor

section Plugins
variable {buffer : List UInt8} {β : Type}

theorem reads_check {action : Run Nat β} {input : List UInt8} {value : β} {needed : Nat} (enough : needed ≤ input.length)
    (reads : Reads buffer action input value) : Reads buffer (checkHeader1Size buffer needed >>= fun _ => action) input value := by
  intro pos rest ahead
  have inside : pos + needed ≤ buffer.length := (Nat.add_le_add_left enough pos).trans ahead.bound
  rw [Action.bind_ok _ (checkHeader1Size_run inside)]
  exact reads pos rest ahead

theorem reads_skipBytes (input : List UInt8) : Reads buffer (skipBytes input.length) input () :=
  fun pos _ ahead => ⟨pos + input.length,rfl,ahead.skip⟩

/-- A category and its dependencies as they are in the buffer. -/
abbrev PluginGroup := UInt32 × List PluginDep

def groupBytes (group : PluginGroup) : List UInt8 := categoryBytes group.1 group.2

/-- A dependency as it is read: without its version. -/
def readDep (category : UInt32) (dep : PluginDep) : PluginDep := { guid := dep.guid, category }

def readGroup (group : PluginGroup) : List PluginDep := group.2.map (readDep group.1)

theorem length_guids (deps : List PluginDep) : (deps.flatMap guidBytes).length = deps.length * 8 := by
  have whole := length_categoryBytes 0 deps
  simp only [categoryBytes,List.length_append,length_wordBytes] at whole
  omega

theorem guids_size {deps : List PluginDep} (fit : deps.length * 8 < 2 ^ 32) :
    (count32 deps * 8).toNat = (deps.flatMap guidBytes).length := by
  have count := toNat_count32 deps (by omega)
  rw [UInt32.toNat_mul,count,length_guids]
  exact Nat.mod_eq_of_lt fit

theorem reads_countPlugins (groups : List PluginGroup) (total : UInt32)
    (fit : ∀ group ∈ groups, group.2.length * 8 < 2 ^ 32) :
    Reads buffer (countPlugins buffer groups.length total) (groups.flatMap groupBytes)
      (groups.foldl (fun sum group => sum + count32 group.2) total) := by
  induction groups generalizing total with
  | nil => exact reads_pure total
  | cons group groups ih =>
    have rest := ih (total + count32 group.2) fun other member => fit other (List.mem_cons_of_mem group member)
    have size := guids_size (fit group (List.mem_cons_self ..))
    have guids : Reads buffer (do
        checkHeader1Size buffer (count32 group.2 * 8).toNat
        skipBytes (count32 group.2 * 8).toNat
        countPlugins buffer groups.length (total + count32 group.2))
        (group.2.flatMap guidBytes ++ groups.flatMap groupBytes)
        (groups.foldl (fun sum group => sum + count32 group.2) (total + count32 group.2)) := by
      rw [size]
      exact reads_check (by rw [List.length_append]; exact Nat.le_add_right ..) (reads_bind (reads_skipBytes _) rest)
    have skipped : Reads buffer (skipBytes 4) (wordBytes group.1) () := reads_skipBytes _
    rw [List.flatMap_cons,groupBytes,categoryBytes,List.append_assoc,List.append_assoc]
    refine reads_check ?_ (reads_bind skipped (reads_bind (reads_header1Field (count32 group.2)) guids))
    rw [List.length_append,length_wordBytes]
    exact Nat.le_add_right ..

theorem reads_readGuids (category total : UInt32) (deps found : List PluginDep)
    (room : found.length + deps.length ≤ total.toNat) : Reads buffer
      (readGuids buffer category total deps.length found) (deps.flatMap guidBytes)
      (found ++ deps.map (readDep category)) := by
  induction deps generalizing found with
  | nil =>
    rw [List.map_nil,List.append_nil]
    exact reads_pure found
  | cons dep deps ih =>
    rw [List.length_cons] at room
    have rest := ih (found ++ [readDep category dep]) (by rw [List.length_append,List.length_singleton]; omega)
    rw [List.append_assoc,List.singleton_append] at rest
    have free : found.length < total.toNat := by omega
    rw [List.flatMap_cons,guidBytes,List.append_assoc,List.length_cons,readGuids,if_pos free]
    refine reads_check ?_ (reads_still (reads_pure ()) (reads_bind (reads_nextU32Le dep.guid.d1)
      (reads_bind (reads_nextU32Le dep.guid.d2) rest)))
    rw [List.length_append,List.length_append,length_wordBytes,length_wordBytes]
    omega

theorem reads_readCategories (total : UInt32) (groups : List PluginGroup) (found : List PluginDep)
    (fit : ∀ group ∈ groups, group.2.length * 8 < 2 ^ 32)
    (room : found.length + (groups.map fun group => group.2.length).sum ≤ total.toNat) : Reads buffer
      (readCategories buffer total groups.length found) (groups.flatMap groupBytes) (found ++ groups.flatMap readGroup) := by
  induction groups generalizing found with
  | nil =>
    rw [List.flatMap_nil,List.flatMap_nil,List.append_nil]
    exact reads_pure found
  | cons group groups ih =>
    rw [List.map_cons,List.sum_cons] at room
    have small := fit group (List.mem_cons_self ..)
    have rest := ih (found ++ readGroup group) (fun other member => fit other (List.mem_cons_of_mem group member))
      (by rw [List.length_append,readGroup,List.length_map]; omega)
    have guids : Reads buffer (readGuids buffer group.1 total group.2.length found) (group.2.flatMap guidBytes)
        (found ++ readGroup group) := reads_readGuids group.1 total group.2 found (by omega)
    have count := toNat_count32 group.2 (by omega)
    rw [List.append_assoc] at rest
    rw [List.flatMap_cons,List.flatMap_cons,groupBytes,categoryBytes,List.append_assoc,List.append_assoc,
      List.length_cons,readCategories]
    refine reads_bind (reads_header1Field group.1) (reads_bind (reads_header1Field _) ?_)
    rw [count]
    exact reads_bind guids rest

/-- The dependencies of the groups that are written, in the order of the categories. -/
def pluginGroups (deps : List PluginDep) : List PluginGroup :=
  (usedCategories deps).map fun category => (category,inCategory deps category)

def regrouped (deps : List PluginDep) : List PluginDep := (pluginGroups deps).flatMap readGroup

theorem pluginBytes_groups (deps : List PluginDep) : pluginBytes deps =
    wordBytes (count32 (usedCategories deps)) ++ (pluginGroups deps).flatMap groupBytes := by
  rw [pluginBytes,pluginGroups,List.flatMap_map]
  rfl

theorem usedCategories_sub (deps : List PluginDep) : ∀ category ∈ usedCategories deps, category ∈ pluginCategories :=
  fun _ member => List.mem_of_mem_filter member

theorem inCategory_sum (deps : List PluginDep) (categories : List UInt32) (distinct : categories.Nodup) :
    (categories.map fun category => (inCategory deps category).length).sum ≤ deps.length := by
  induction deps with
  | nil => simp [inCategory]
  | cons dep deps ih =>
    have one : (categories.map fun category => (inCategory (dep :: deps) category).length).sum =
        (categories.map fun category => (inCategory deps category).length).sum + categories.count dep.category := by
      clear ih distinct
      induction categories with
      | nil => rfl
      | cons category categories ih =>
        rw [List.map_cons,List.map_cons,List.sum_cons,List.sum_cons,ih,List.count_cons,inCategory,inCategory,
          List.filter_cons]
        by_cases same : dep.category = category
        · simp [same]
          omega
        · have other : ¬ category = dep.category := fun equal => same equal.symm
          simp [same,other]
          omega
    have once := List.nodup_iff_count_le_one.mp distinct dep.category
    rw [one,List.length_cons]
    omega

theorem total_groups {groups : List PluginGroup} {total : UInt32}
    (small : total.toNat + (groups.map fun group => group.2.length).sum < 2 ^ 32) :
    (groups.foldl (fun sum group => sum + count32 group.2) total).toNat =
      total.toNat + (groups.map fun group => group.2.length).sum := by
  induction groups generalizing total with
  | nil => rfl
  | cons group groups ih =>
    rw [List.map_cons,List.sum_cons] at small ⊢
    have count := toNat_count32 group.2 (by omega)
    have step : (total + count32 group.2).toNat = total.toNat + group.2.length := by
      rw [UInt32.toNat_add,count]
      exact Nat.mod_eq_of_lt (by omega)
    rw [List.foldl_cons,ih (by rw [step]; omega),step]
    omega

theorem pluginGroups_sum (deps : List PluginDep) :
    ((pluginGroups deps).map fun group => group.2.length).sum ≤ deps.length := by
  have distinct : (usedCategories deps).Nodup := List.Nodup.filter _ (by decide)
  have sum := inCategory_sum deps (usedCategories deps) distinct
  rw [pluginGroups,List.map_map]
  exact sum

theorem pluginGroups_nonempty {deps : List PluginDep} {group : PluginGroup} (member : group ∈ pluginGroups deps) :
    0 < group.2.length := by
  rw [pluginGroups,List.mem_map] at member
  obtain ⟨category,used,rfl⟩ := member
  rw [usedCategories,List.mem_filter,decide_eq_true_eq] at used
  rw [List.length_pos_iff]
  intro empty
  have none : count32 (inCategory deps category) = 0 := by
    change inCategory deps category = [] at empty
    rw [empty]
    rfl
  rw [none] at used
  exact UInt32.lt_irrefl 0 used.2

theorem length_regrouped (deps : List PluginDep) :
    (regrouped deps).length = ((pluginGroups deps).map fun group => group.2.length).sum := by
  rw [regrouped,List.length_flatMap]
  congr 1
  exact List.map_congr_left fun group _ => List.length_map _

/-- The dependencies come back in the order of their categories, with their number. -/
theorem reads_parsePluginDeps_counted {deps : List PluginDep} (few : deps.length < 2 ^ 32) (fit : GuidsFit deps) :
    ∃ total : UInt32, total.toNat = (regrouped deps).length ∧
      Reads buffer (parsePluginDeps buffer) (pluginBytes deps) (total,regrouped deps) := by
  have size : (count32 (usedCategories deps)).toNat = (pluginGroups deps).length := by
    have length : (usedCategories deps).length ≤ 5 := List.length_filter_le ..
    rw [toNat_count32 _ (by omega),pluginGroups,List.length_map]
  have fits : ∀ group ∈ pluginGroups deps, group.2.length * 8 < 2 ^ 32 := by
    intro group member
    rw [pluginGroups,List.mem_map] at member
    obtain ⟨category,used,rfl⟩ := member
    exact fit category (usedCategories_sub deps category used)
  rw [pluginBytes_groups]
  by_cases none : count32 (usedCategories deps) = 0
  · have empty : pluginGroups deps = [] := by
      rw [← List.length_eq_zero_iff,← size,none]
      rfl
    refine ⟨0,by rw [length_regrouped,empty]; rfl,?_⟩
    rw [regrouped,empty]
    refine reads_bind (reads_header1Field _) ?_
    rw [if_pos none]
    exact reads_pure _
  · have small := (pluginGroups_sum deps).trans_lt few
    have value : ((pluginGroups deps).foldl (fun sum group => sum + count32 group.2) 0).toNat =
        (0 : UInt32).toNat + ((pluginGroups deps).map fun group => group.2.length).sum :=
      total_groups (by simpa using small)
    have positive : (pluginGroups deps).foldl (fun sum group => sum + count32 group.2) 0 ≠ 0 := by
      intro zero
      rw [zero] at value
      cases groups : pluginGroups deps with
      | nil =>
        apply none
        rw [← UInt32.toNat_inj,size,groups]
        rfl
      | cons group rest =>
        have member : group ∈ pluginGroups deps := by
          rw [groups]
          exact List.mem_cons_self ..
        have some := pluginGroups_nonempty member
        rw [groups,List.map_cons,List.sum_cons] at value
        change 0 = 0 + _ at value
        omega
    refine ⟨(pluginGroups deps).foldl (fun sum group => sum + count32 group.2) 0,?_,
      reads_bind (reads_header1Field _) ?_⟩
    · rw [value,length_regrouped,UInt32.toNat_zero,Nat.zero_add]
    rw [if_neg none,size]
    refine reads_again (reads_countPlugins (pluginGroups deps) 0 fits) ?_
    rw [if_neg positive]
    refine reads_return (f := fun found => (_,found)) (reads_readCategories _ (pluginGroups deps) [] fits ?_)
    rw [value]
    exact Nat.le_refl _

end Plugins

section Files
variable {buffer : List UInt8} {tableEnd : Nat}

def readFile (file : IncludedFileDesc) : IncludedFileDesc := { name := nameBytes file.name, dataSize := file.dataSize }

theorem readsTo_checkTable {α : Type} {action : Run Nat α} {input : List UInt8} {value : α} {needed : Nat}
    {message : String} (enough : needed ≤ input.length) (reads : ReadsTo buffer tableEnd action input value) :
    ReadsTo buffer tableEnd (checkTable tableEnd needed message >>= fun _ => action) input value := by
  intro pos rest inside ahead
  have checked : (checkTable tableEnd needed message).run pos = (.ok (),pos) := by
    simp only [checkTable,gt_iff_lt,if_neg (show ¬ tableEnd < pos + needed by omega)]
  rw [Action.bind_ok _ checked]
  exact reads pos rest inside ahead

theorem reads_nextBytes (input : List UInt8) : Reads buffer (nextBytes buffer input.length) input input :=
  fun pos _ ahead => ⟨pos + input.length,by simp only [nextBytes,ahead.slice_eq],ahead.skip⟩

/-- An included file is read where its descriptor lies inside the table. -/
theorem readsTo_parseIncludedFile {file : IncludedFileDesc} (room : nameLen file.name + 1 ≠ 0) :
    ReadsTo buffer tableEnd (parseIncludedFile buffer tableEnd) (fileBytes file) (readFile file) := by
  have length := length_nameBytes file.name
  have name : ReadsTo buffer tableEnd (if nameLen file.name > 0 then do
      checkTable tableEnd (nameLen file.name).toNat "Buffer too small for included filename"
      (if nameLen file.name + 1 = 0 then fail .nomem "Failed to allocate included filename" else pure ())
      nextBytes buffer (nameLen file.name).toNat
    else pure []) (nameBytes file.name) (nameBytes file.name) := by
    split
    · rw [← length]
      exact readsTo_checkTable (Nat.le_refl _) (reads_still (reads_pure ()) (reads_nextBytes _)).to
    · rename_i none
      have empty : nameBytes file.name = [] := by
        rw [gt_iff_lt,UInt32.lt_iff_toNat_lt] at none
        rw [← List.length_eq_zero_iff,length]
        exact Nat.eq_zero_of_not_pos none
      rw [empty]
      exact (reads_pure []).to
  have size : ReadsTo buffer tableEnd (do
      checkTable tableEnd 4 "Buffer too small for included size"
      let dataSize ← nextU32Le buffer
      pure { name := nameBytes file.name, dataSize := dataSize }) (wordBytes file.dataSize) (readFile file) := by
    refine readsTo_checkTable (by rw [length_wordBytes]) ?_
    have described : Reads buffer (nextU32Le buffer >>= fun dataSize =>
        pure ({ name := nameBytes file.name, dataSize := dataSize } : IncludedFileDesc)) (wordBytes file.dataSize)
        (readFile file) := reads_return (reads_nextU32Le file.dataSize)
    exact described.to
  refine readsTo_checkTable ?_ (readsTo_bind (reads_nextU32Le _).to (readsTo_bind name size))
  rw [fileBytes,List.length_append,length_wordBytes]
  exact Nat.le_add_right ..

end Files

end Libnmo.Format

/-! The end of a plugin table in Header1. The parser walks the categories twice; between
the walks it goes back to the first category, where a table without a GUID leaves it. -/
namespace Libnmo.Format
open Core Lib Lib.LittleEndian Lib.Cursor

/-- The categories with their GUIDs behind the number of categories. -/
def tableBytes (groups : List PluginGroup) : List UInt8 := wordBytes (count32 groups) ++ groups.flatMap groupBytes

section Sizes
variable {groups : List PluginGroup}

theorem length_groupBytes (group : PluginGroup) : (groupBytes group).length = 8 + group.2.length * 8 :=
  length_categoryBytes group.1 group.2

theorem length_groups (groups : List PluginGroup) : (groups.flatMap groupBytes).length =
    groups.length * 8 + (groups.map fun group => group.2.length).sum * 8 := by
  induction groups with
  | nil => rfl
  | cons group rest ih =>
    rw [List.flatMap_cons,List.length_append,ih,length_groupBytes,List.length_cons,List.map_cons,List.sum_cons]
    omega

theorem sum_pos_iff : 0 < (groups.map fun group => group.2.length).sum ↔ ∃ group ∈ groups, group.2 ≠ [] := by
  rw [List.sum_pos_iff_exists_pos_nat]
  constructor
  · rintro ⟨size,listed,positive⟩
    obtain ⟨group,member,rfl⟩ := List.mem_map.mp listed
    exact ⟨group,member,List.ne_nil_of_length_pos positive⟩
  · rintro ⟨group,member,some⟩
    exact ⟨_,List.mem_map_of_mem member,List.length_pos_iff.mpr some⟩

theorem length_tableBytes (groups : List PluginGroup) : (tableBytes groups).length =
    4 + groups.length * 8 + (groups.map fun group => group.2.length).sum * 8 := by
  rw [tableBytes,List.length_append,length_wordBytes,length_groups,Nat.add_assoc]

theorem length_le_sum {group : PluginGroup} (member : group ∈ groups) :
    group.2.length ≤ (groups.map fun group => group.2.length).sum :=
  List.le_sum_of_mem (List.mem_map_of_mem member)

end Sizes

section Positions
variable {buffer rest : List UInt8} {pos : Nat} {groups : List PluginGroup}

/-- A reader of the whole input stops behind it. -/
theorem reads_stop {α : Type} {action : Run Nat α} {input : List UInt8} {value : α}
    (reads : Reads buffer action input value) (ahead : Ahead buffer pos (input ++ rest)) :
    action.run pos = (.ok value,pos + input.length) := by
  obtain ⟨next,ran,after⟩ := reads pos rest ahead
  have stop := after.length_eq
  rw [ahead.length_eq,List.length_append] at stop
  have there : next = pos + input.length := by omega
  rw [ran,there]

/-- A table in a buffer whose size has 32 bits is parsed, and the position is then at its end just when the
table has a GUID or no category at all. -/
theorem pluginTable_end_iff (small : buffer.length < 2 ^ 32) (ahead : Ahead buffer pos (tableBytes groups ++ rest)) :
    ∃ found stop, (parsePluginDeps buffer).run pos = (.ok found,stop) ∧
      (stop = pos + (tableBytes groups).length ↔ groups = [] ∨ ∃ group ∈ groups, group.2 ≠ []) := by
  have bound := ahead.bound
  rw [length_tableBytes] at bound
  have fits (group : PluginGroup) (member : group ∈ groups) : group.2.length * 8 < 2 ^ 32 := by
    have one := length_le_sum member
    omega
  have count : (count32 groups).toNat = groups.length := toNat_count32 groups (by omega)
  have total : (groups.foldl (fun sum group => sum + count32 group.2) 0).toNat =
      (0 : UInt32).toNat + (groups.map fun group => group.2.length).sum :=
    total_groups (by rw [UInt32.toNat_zero]; omega)
  rw [UInt32.toNat_zero,Nat.zero_add] at total
  have behind := ahead
  rw [tableBytes,List.append_assoc] at behind
  have field := reads_stop (reads_header1Field (count32 groups)) behind
  rw [length_wordBytes] at field
  have first := behind.skip
  rw [length_wordBytes] at first
  rw [parsePluginDeps,Action.bind_ok _ field]
  by_cases none : groups = []
  · rw [none]
    exact ⟨_,_,rfl,iff_of_true rfl (.inl rfl)⟩
  · have some : count32 groups ≠ 0 := by
      intro zero
      rw [zero] at count
      exact none (List.length_eq_zero_iff.mp count.symm)
    have walked := reads_stop (reads_countPlugins groups 0 fits) first
    rw [if_neg some,Action.bind_ok _ (Action.read_apply ..),count,Action.bind_ok _ walked,
      Action.bind_ok _ (Action.update_apply ..),id_eq]
    by_cases empty : ∃ group ∈ groups, group.2 ≠ []
    · have positive := sum_pos_iff.mpr empty
      have counted : groups.foldl (fun sum group => sum + count32 group.2) 0 ≠ 0 := by
        intro zero
        rw [zero] at total
        exact absurd total (Nat.ne_of_lt positive)
      have categories := reads_stop (reads_readCategories _ groups [] fits (by rw [total]; exact Nat.le_of_eq (Nat.zero_add _))) first
      rw [if_neg counted,Action.bind_ok _ categories]
      refine ⟨_,_,rfl,iff_of_true ?_ (.inr empty)⟩
      rw [tableBytes,List.length_append,length_wordBytes,Nat.add_assoc]
    · have counted : groups.foldl (fun sum group => sum + count32 group.2) 0 = 0 := by
        rw [← UInt32.toNat_inj,total]
        exact Nat.eq_zero_of_not_pos fun positive => empty (sum_pos_iff.mp positive)
      rw [if_pos counted]
      refine ⟨_,_,rfl,iff_of_false (fun same => ?_) (not_or.mpr ⟨none,empty⟩)⟩
      have more : 0 < groups.length := List.length_pos_iff.mpr none
      rw [length_tableBytes] at same
      omega

end Positions

/-- A category with a GUID, behind which the table of included files begins. -/
theorem oneGuid_ends : ∃ found stop,
    (parsePluginDeps ([1,0,0,0, 2,0,0,0, 1,0,0,0, 5,0,0,0, 6,0,0,0] ++ [0,0,0,0])).run 0 = (.ok found,stop) ∧
      (stop = 0 + (tableBytes [(2,[{ guid := ⟨5,6⟩, category := 2 }])]).length ↔
        [((2 : UInt32),[({ guid := ⟨5,6⟩, category := 2 } : PluginDep)])] = [] ∨
          ∃ group ∈ [((2 : UInt32),[({ guid := ⟨5,6⟩, category := 2 } : PluginDep)])], group.2 ≠ []) :=
  pluginTable_end_iff (by decide) (ahead_start _)

/-- The only category is empty, and the position stays before it. -/
theorem emptyCategory_early : ¬ ∀ (groups : List PluginGroup) buffer pos rest found stop,
    Ahead buffer pos (tableBytes groups ++ rest) → (parsePluginDeps buffer).run pos = (.ok found,stop) →
      stop = pos + (tableBytes groups).length := by
  intro ends
  have early := ends [(2,[])] [1,0,0,0, 2,0,0,0, 0,0,0,0] 0 [] (0,[]) 4 (ahead_start _) rfl
  cases early

end Libnmo.Format
