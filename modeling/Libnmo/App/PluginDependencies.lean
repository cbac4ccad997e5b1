import Libnmo.App.PluginManager
import Libnmo.Format.Header1Recovered

/-! The plugin dependencies of a file against the plugins that are registered. A save
lists the plugins with their versions; the file keeps the GUIDs of five categories
only, so that a load can miss a plugin and never finds one too old. -/
namespace Libnmo.App
open Core Format Lib

def pluginDepStatusMissing : UInt32 := 1
def pluginDepStatusVersionTooOld : UInt32 := 2
def pluginDepStatusManagerUnavailable : UInt32 := 4

/-- `NMO_LOAD_CHECK_DEPENDENCIES`. -/
def loadCheckDependencies : UInt32 := 0x0020

structure PluginDependencyStatus where
  guid : Guid
  category : UInt32
  requiredVersion : UInt32
  resolvedVersion : UInt32 := 0
  resolvedName : Option (List UInt8) := none
  statusFlags : UInt32 := 0

structure PluginDiagnostics where
  entries : List PluginDependencyStatus := []
  missingCount : Nat := 0
  outdatedCount : Nat := 0
  pluginManagerAvailable : Bool := false

section
variable (manager : Option PluginManager)

/-- The body of the loop of `nmo_session_build_plugin_diagnostics`. -/
def diagnoseDependency (diag : PluginDiagnostics) (dep : PluginDep) : PluginDiagnostics :=
  let entry : PluginDependencyStatus := { guid := dep.guid, category := dep.category, requiredVersion := dep.version }
  match manager.bind fun manager => pluginManagerFindByGuid manager dep.guid with
  | none =>
    let flags := if manager.isNone then pluginDepStatusMissing ||| pluginDepStatusManagerUnavailable
      else pluginDepStatusMissing
    { diag with
      entries := diag.entries ++ [{ entry with statusFlags := flags }]
      missingCount := diag.missingCount + 1 }
  | some registered =>
    let resolved := { entry with resolvedVersion := registered.version, resolvedName := registered.name }
    if registered.version < dep.version then { diag with
      entries := diag.entries ++ [{ resolved with statusFlags := pluginDepStatusVersionTooOld }]
      outdatedCount := diag.outdatedCount + 1 }
    else { diag with entries := diag.entries ++ [resolved] }

def sessionBuildPluginDiagnostics (deps : List PluginDep) : PluginDiagnostics :=
  deps.foldl (diagnoseDependency manager) { pluginManagerAvailable := manager.isSome }

/-- Phase 6 of a load. -/
def checkPluginDependencies (flags : UInt32) (deps : List PluginDep) : Result Unit :=
  if (sessionBuildPluginDiagnostics manager deps).missingCount > 0 ∧ hasFlag flags loadCheckDependencies then
    .error (.error .notFound "")
  else .ok ()

def pluginDependency (plugin : Plugin) : PluginDep :=
  { guid := plugin.guid, category := plugin.category, version := plugin.version }

/-- Phase 8 of a save: the dependencies of the session, or else the plugins that are registered. -/
def savedPluginDependencies (stored : List PluginDep) : List PluginDep :=
  if stored = [] then match manager with
    | none => []
    | some manager => manager.instances.map fun info => pluginDependency info.plugin
  else stored

end

section Finding
variable {manager after : PluginManager} {guid : Guid} {plugin : Plugin}

theorem findByGuid_eq (manager : PluginManager) (guid : Guid) : pluginManagerFindByGuid manager guid =
    (manager.instances.map PluginInstance.plugin).find? fun plugin => plugin.guid = guid := by
  rw [pluginManagerFindByGuid,pluginManagerFindIndexByGuid]
  induction manager.instances with
  | nil => rfl
  | cons info rest ih =>
    rw [List.map_cons,List.find?_cons,List.findIdx?_cons]
    by_cases same : info.plugin.guid = guid
    · simp [same]
    · simp only [same,decide_false]
      rw [← ih]
      cases rest.findIdx? fun info => decide (info.plugin.guid = guid) <;> simp

theorem findByGuid_none : pluginManagerFindByGuid manager guid = none ↔ guid ∉ manager.instances.map PluginInstance.guid := by
  rw [findByGuid_eq,List.find?_eq_none]
  simp only [List.mem_map,decide_eq_true_eq,forall_exists_index,and_imp,forall_apply_eq_imp_iff₂,not_exists,not_and]
  rfl

/-- What is registered stays, in its order. -/
def Stays (before after : PluginManager) : Prop :=
  before.instances.map PluginInstance.plugin <+: after.instances.map PluginInstance.plugin

theorem stays_extends {library : Option Nat} (extended : Extends library manager after) : Stays manager after := by
  obtain ⟨more,instances,_⟩ := extended.added
  rw [Stays,instances,List.map_append]
  exact List.prefix_append ..

theorem plugins_modify (instances : List PluginInstance) (index : Nat) :
    (instances.modify index PluginInstance.own).map PluginInstance.plugin = instances.map PluginInstance.plugin := by
  induction instances generalizing index with
  | nil => cases index <;> rfl
  | cons info rest ih =>
    cases index with
    | zero => rfl
    | succ index => rw [List.modify_succ_cons,List.map_cons,List.map_cons,ih]

theorem stays_settle (library firstIndex : Nat) : Stays manager ((settleLibrary library firstIndex).run manager).2 := by
  unfold settleLibrary
  rw [Action.bind_ok _ (Action.read_apply _ _)]
  split
  · simp [Stays,plugins_modify]
  · simp [Stays,sharedLibraryClose]

theorem stays_pluginStep (manager : PluginManager) (call : PluginCall) : Stays manager (pluginStep manager call) := by
  cases call with
  | register plugins =>
    simp only [pluginStep,pluginCall,pluginManagerRegister]
    split
    · exact List.prefix_rfl
    · exact stays_extends (keeps_registerPlugins manager plugins manager (Extends.refl none manager))
  | loadLibrary file =>
    cases file with
    | refused code => exact List.prefix_rfl
    | noSymbol code => exact List.prefix_rfl
    | noQuery => exact List.prefix_rfl
    | queried plugins =>
      have start := Extends.refl (some manager.opened) { manager with opened := manager.opened + 1 }
      obtain ⟨after,ran,extended⟩ := loadPlugins_extends manager.opened plugins start
      have run : pluginStep manager (.loadLibrary (.queried plugins)) =
          ((loadQueried manager.opened plugins).run { manager with opened := manager.opened + 1 }).2 := rfl
      rw [run,loadQueried]
      split
      · exact List.prefix_rfl
      · rw [Action.bind_ok _ (Action.read_apply _ _),Action.bind_ok _ ran]
        exact (stays_extends extended).trans (stays_settle _ _)

theorem stays_run (manager : PluginManager) (calls : List PluginCall) :
    Stays manager (Machine.run pluginStep manager calls) := by
  apply Machine.run_keeps (fun middle call stays => stays.trans (stays_pluginStep middle call))
  exact List.prefix_rfl

end Finding

section Diagnosing
variable {manager : Option PluginManager}

/-- No plugin is registered under the GUID of the dependency. -/
def unresolved (manager : Option PluginManager) (dep : PluginDep) : Bool :=
  (manager.bind fun manager => pluginManagerFindByGuid manager dep.guid).isNone

def outdated (manager : Option PluginManager) (dep : PluginDep) : Bool :=
  (manager.bind fun manager => pluginManagerFindByGuid manager dep.guid).any fun plugin => plugin.version < dep.version

theorem diagnoseDependency_counts (manager : Option PluginManager) (diag : PluginDiagnostics) (dep : PluginDep) :
    (diagnoseDependency manager diag dep).missingCount = diag.missingCount + (if unresolved manager dep then 1 else 0) ∧
      (diagnoseDependency manager diag dep).outdatedCount = diag.outdatedCount + (if outdated manager dep then 1 else 0) := by
  unfold diagnoseDependency unresolved outdated
  cases manager.bind fun manager => pluginManagerFindByGuid manager dep.guid with
  | none => simp
  | some plugin =>
    by_cases older : plugin.version < dep.version <;> simp [older]

theorem diagnostics_counts (manager : Option PluginManager) (deps : List PluginDep) :
    (sessionBuildPluginDiagnostics manager deps).missingCount = deps.countP (unresolved manager) ∧
      (sessionBuildPluginDiagnostics manager deps).outdatedCount = deps.countP (outdated manager) := by
  have folded (diag : PluginDiagnostics) :
      (deps.foldl (diagnoseDependency manager) diag).missingCount = diag.missingCount + deps.countP (unresolved manager) ∧
        (deps.foldl (diagnoseDependency manager) diag).outdatedCount = diag.outdatedCount + deps.countP (outdated manager) := by
    induction deps generalizing diag with
    | nil => simp
    | cons dep rest ih =>
      have first := diagnoseDependency_counts manager diag dep
      have others := ih (diagnoseDependency manager diag dep)
      rw [List.foldl_cons,others.1,others.2,first.1,first.2,List.countP_cons,List.countP_cons]
      omega
  simpa [sessionBuildPluginDiagnostics] using folded { pluginManagerAvailable := manager.isSome }

/-- A dependency without a version is never found too old. -/
theorem never_outdated {deps : List PluginDep} (plain : ∀ dep ∈ deps, dep.version = 0) :
    (sessionBuildPluginDiagnostics manager deps).outdatedCount = 0 := by
  rw [(diagnostics_counts manager deps).2,List.countP_eq_zero]
  intro dep member
  unfold outdated
  rw [plain dep member]
  cases manager.bind fun manager => pluginManagerFindByGuid manager dep.guid <;> simp

theorem check_iff {flags : UInt32} (checked : hasFlag flags loadCheckDependencies = true) (deps : List PluginDep) :
    checkPluginDependencies manager flags deps = .ok () ↔ ∀ dep ∈ deps, unresolved manager dep = false := by
  simp only [checkPluginDependencies,checked,and_true,(diagnostics_counts manager deps).1]
  split
  · rename_i missing
    simpa using missing
  · rename_i none
    simpa using none

theorem resolved_iff {other : PluginManager} (dep : PluginDep) :
    unresolved (some other) dep = false ↔ dep.guid ∈ other.instances.map PluginInstance.guid := by
  have none : pluginManagerFindByGuid other dep.guid = none ↔ dep.guid ∉ other.instances.map PluginInstance.guid :=
    findByGuid_none
  rw [unresolved,Option.bind_some]
  cases found : pluginManagerFindByGuid other dep.guid with
  | none => simpa [found] using none
  | some plugin => simpa [found] using none

end Diagnosing

section Reloading
variable {calls other : List PluginCall} {header back : Header1} {bytes : List UInt8} {flags : UInt32}

/-- The dependencies that come back from a file: the GUIDs of the five categories it stores, without versions. -/
theorem mem_regrouped {deps : List PluginDep} (few : deps.length < 2 ^ 32) (dep : PluginDep) :
    dep ∈ regrouped deps ↔ dep.version = 0 ∧ dep.category ∈ pluginCategories ∧
      ∃ written ∈ deps, written.category = dep.category ∧ written.guid = dep.guid := by
  simp only [regrouped,pluginGroups,List.flatMap_map,List.mem_flatMap,readGroup,List.mem_map,inCategory,List.mem_filter,
    decide_eq_true_eq]
  constructor
  · rintro ⟨category,used,written,⟨member,same⟩,rfl⟩
    exact ⟨rfl,usedCategories_sub deps category used,written,member,same,rfl⟩
  · rintro ⟨plain,standard,written,member,category,guid⟩
    refine ⟨dep.category,?_,written,⟨member,category⟩,?_⟩
    · rw [usedCategories,List.mem_filter,decide_eq_true_eq]
      refine ⟨standard,?_⟩
      have there : written ∈ inCategory deps dep.category := List.mem_filter.mpr ⟨member,decide_eq_true category⟩
      have count := toNat_count32 _ ((inCategory_length_le deps dep.category).trans_lt few)
      rw [gt_iff_lt,UInt32.lt_iff_toNat_lt,count]
      exact List.length_pos_of_mem there
    · rw [readDep,guid,← plain]

/-- The plugins of a session are written into its file. A load elsewhere that checks the dependencies goes on just when
the plugins of the stored categories are all registered there, whatever their versions; where the session's own calls
were followed by more, it always does. -/
theorem dependency_check_iff (filled : header.Filled)
    (derived : header.pluginDeps = savedPluginDependencies (some (pluginsAfter calls)) [])
    (serialized : header1Serialize header = .ok bytes) (parsed : header1Parse bytes header.objectCount = .ok back)
    (checked : hasFlag flags loadCheckDependencies = true) :
    (checkPluginDependencies (some (pluginsAfter other)) flags back.pluginDeps = .ok () ↔
        ∀ info ∈ (pluginsAfter calls).instances, info.plugin.category ∈ pluginCategories →
          info.guid ∈ (pluginsAfter other).instances.map PluginInstance.guid) ∧
      (sessionBuildPluginDiagnostics (some (pluginsAfter other)) back.pluginDeps).outdatedCount = 0 ∧
      ∀ more, checkPluginDependencies (some (pluginsAfter (calls ++ more))) flags back.pluginDeps = .ok () := by
  have few : header.pluginDeps.length < 2 ^ 32 := by
    rw [filled.deps]
    exact UInt32.toNat_lt _
  have read (dep : PluginDep) := header1Parse_deps filled serialized parsed ▸ mem_regrouped few dep
  have listed : header.pluginDeps = (pluginsAfter calls).instances.map fun info => pluginDependency info.plugin := derived
  have exact (manager : PluginManager) : checkPluginDependencies (some manager) flags back.pluginDeps = .ok () ↔
      ∀ info ∈ (pluginsAfter calls).instances, info.plugin.category ∈ pluginCategories →
        info.guid ∈ manager.instances.map PluginInstance.guid := by
    simp only [check_iff checked,resolved_iff]
    constructor
    · intro found info member standard
      have stored := (read { guid := info.guid, category := info.plugin.category }).mpr ⟨rfl,standard,
        pluginDependency info.plugin,listed ▸ List.mem_map_of_mem member,rfl,rfl⟩
      exact found _ stored
    · intro found dep member
      obtain ⟨_,standard,written,there,category,guid⟩ := (read dep).mp member
      rw [listed] at there
      obtain ⟨info,taken,rfl⟩ := List.mem_map.mp there
      rw [← guid]
      apply found info taken
      rw [← category] at standard
      exact standard
  refine ⟨exact _,?_,?_⟩
  · apply never_outdated
    intro dep member
    exact ((read dep).mp member).1
  · intro more
    rw [exact]
    intro info member _
    have stays : Stays (pluginsAfter calls) (pluginsAfter (calls ++ more)) := by
      have run : pluginsAfter (calls ++ more) = Machine.run pluginStep (pluginsAfter calls) more := List.foldl_append
      rw [run]
      exact stays_run _ more
    have guids (manager : PluginManager) : manager.instances.map PluginInstance.guid =
        (manager.instances.map PluginInstance.plugin).map Plugin.guid := by
      rw [List.map_map]
      rfl
    rw [guids]
    apply (stays.map Plugin.guid).subset
    rw [← guids]
    exact List.mem_map_of_mem member

/-- One plugin, in a version. -/
def onePlugin (version : UInt32) : List PluginCall := [.register [{ guid := ⟨1,2⟩, version := version }]]

def onePluginHeader : Header1 := { pluginDepCount := 1, pluginDeps := [{ guid := ⟨1,2⟩, category := 0, version := 3 }] }

/-- A plugin of version 3 is written; where it is registered in version 1, it counts as found. -/
theorem older_plugin_accepted : ∃ bytes back, header1Serialize onePluginHeader = .ok bytes ∧
    header1Parse bytes 0 = .ok back ∧
    checkPluginDependencies (some (pluginsAfter (onePlugin 1))) loadCheckDependencies back.pluginDeps = .ok () := by
  have written : header1Serialize onePluginHeader =
      .ok [1,0,0,0, 0,0,0,0, 1,0,0,0, 1,0,0,0, 2,0,0,0, 0,0,0,0, 0,0,0,0] := by decide +kernel
  obtain ⟨back,parsed⟩ : ∃ back, header1Parse [1,0,0,0, 0,0,0,0, 1,0,0,0, 1,0,0,0, 2,0,0,0, 0,0,0,0, 0,0,0,0]
    onePluginHeader.objectCount = .ok back := ⟨_,rfl⟩
  have derived : onePluginHeader.pluginDeps = savedPluginDependencies (some (pluginsAfter (onePlugin 3))) [] := rfl
  have checked : hasFlag loadCheckDependencies loadCheckDependencies = true := by decide
  refine ⟨_,back,written,parsed,(dependency_check_iff ⟨rfl,rfl,rfl⟩ derived written parsed checked).1.mpr ?_⟩
  intro info member _
  change info ∈ [_] at member
  rw [List.mem_singleton.mp member]
  decide

end Reloading

end Libnmo.App
