import Libnmo.Format.Header1
import Libnmo.Lib.Cursor
import Libnmo.Lib.Machine
import Mathlib.Data.List.Nodup
import Mathlib.Data.List.Perm.Basic

/-! The plugin manager: plugins that are registered from arrays and from shared
libraries, the hooks it calls, and the libraries it keeps open until it is destroyed.
A hook acts on the manager by its answer only. -/
namespace Libnmo.App
open Core Format Lib

/-- The answer of the init hook may depend on the hook calls before it; none is `NMO_OK`. -/
structure Plugin where
  name : Option (List UInt8) := some []
  version : UInt32 := 0
  guid : Guid := {}
  category : UInt32 := 0
  init : Option (Nat → Option ErrorCode) := none
  hasShutdown : Bool := false

structure PluginInstance where
  plugin : Plugin
  library : Option Nat := none
  ownsLibrary : Bool := false

/-- `NMO_PLUGIN_INSTANCE_FLAG_OWNS_LIBRARY`. -/
def PluginInstance.own (info : PluginInstance) : PluginInstance := { info with ownsLibrary := true }

/-- A call of a hook; that of an init hook with its answer. -/
inductive HookCall
  | init (guid : Guid) (refusal : Option ErrorCode)
  | shutdown (guid : Guid)
  deriving DecidableEq, Repr

/-- The instances, and what the manager has done so far: how many libraries it has opened, which of them it has
closed and which hooks it has called. A library is known by the number of those opened before it. -/
structure PluginManager where
  instances : List PluginInstance := []
  opened : Nat := 0
  closed : List Nat := []
  hooks : List HookCall := []

/-- What a path and a symbol name lead to. -/
inductive LibraryFile
  | refused (code : ErrorCode)
  | noSymbol (code : ErrorCode)
  | noQuery
  | queried (plugins : List Plugin)

def pluginManagerFindIndexByGuid (instances : List PluginInstance) (guid : Guid) : Option Nat :=
  instances.findIdx? fun info => info.plugin.guid = guid

def pluginManagerFindByGuid (manager : PluginManager) (guid : Guid) : Option Plugin :=
  (pluginManagerFindIndexByGuid manager.instances guid).bind fun index =>
    (manager.instances[index]?).map PluginInstance.plugin

/-- The slot of a plugin and the call of its init hook. A hook that fails takes the slot back. -/
def initInstance (plugin : Plugin) (library : Option Nat) : Run PluginManager (Option ErrorCode) where
  run manager :=
    let slot : PluginInstance := { plugin := plugin, library := library }
    match plugin.init with
    | none => (.ok none,{ manager with instances := manager.instances ++ [slot] })
    | some hook =>
      let refusal := hook manager.hooks.length
      let hooks := manager.hooks ++ [.init plugin.guid refusal]
      if refusal.isNone then (.ok refusal,{ manager with instances := manager.instances ++ [slot], hooks := hooks })
      else (.ok refusal,{ manager with hooks := hooks })

/-- The body of the loop of `nmo_plugin_manager_register`. -/
def registerPlugin (plugin : Plugin) : Run PluginManager Unit := do
  (if plugin.name = none then fail .invalidArgument "" else pure ())
  let index ← Action.read fun manager => pluginManagerFindIndexByGuid manager.instances plugin.guid
  (if index ≠ none then fail .invalidState "" else pure ())
  let refusal ← initInstance plugin none
  (match refusal with
  | none => pure ()
  | some code => fail code "")

def registerPlugins : List Plugin → Run PluginManager Unit
  | [] => pure ()
  | plugin :: rest => do
    registerPlugin plugin
    registerPlugins rest

def pluginManagerRegister (plugins : List Plugin) : Run PluginManager Unit :=
  if plugins = [] then fail .invalidArgument "" else registerPlugins plugins

/-- The body of the loop of `nmo_plugin_manager_load_library`, which passes over what it cannot add. -/
def loadPlugin (library : Nat) (plugin : Plugin) : Run PluginManager Unit := do
  let index ← Action.read fun manager => pluginManagerFindIndexByGuid manager.instances plugin.guid
  (if index ≠ none then pure () else do
    let _ ← initInstance plugin (some library)
    pure ())

def loadPlugins (library : Nat) : List Plugin → Run PluginManager Unit
  | [] => pure ()
  | plugin :: rest => do
    loadPlugin library plugin
    loadPlugins library rest

def sharedLibraryOpen : Run PluginManager Nat where
  run manager := (.ok manager.opened,{ manager with opened := manager.opened + 1 })

def sharedLibraryClose (library : Nat) : Run PluginManager Unit :=
  Action.update fun manager => { manager with closed := manager.closed ++ [library] }

/-- The first instance of a library becomes its owner; a library without instances is closed. -/
def settleLibrary (library firstIndex : Nat) : Run PluginManager Unit := do
  let count ← Action.read fun manager => manager.instances.length
  (if count > firstIndex then
    Action.update fun manager => { manager with
      instances := manager.instances.modify firstIndex PluginInstance.own }
  else sharedLibraryClose library)

def closeAndFail (library : Nat) (code : ErrorCode) : Run PluginManager Unit := do
  sharedLibraryClose library
  fail code ""

/-- The plugins that the query of an open library returns. -/
def loadQueried (library : Nat) (plugins : List Plugin) : Run PluginManager Unit :=
  if plugins = [] then closeAndFail library .invalidState
  else do
    let firstIndex ← Action.read fun manager => manager.instances.length
    loadPlugins library plugins
    settleLibrary library firstIndex

def pluginManagerLoadLibrary : LibraryFile → Run PluginManager Unit
  | .refused code => fail code ""
  | .noSymbol code => sharedLibraryOpen >>= fun library => closeAndFail library code
  | .noQuery => sharedLibraryOpen >>= fun library => closeAndFail library .invalidState
  | .queried plugins => sharedLibraryOpen >>= fun library => loadQueried library plugins

/-- The body of the loop of `nmo_plugin_manager_destroy`. The plugin of an instance lies in its library, so it can be
read only while that is open. -/
def shutdownInstance (info : PluginInstance) : Run PluginManager Unit := do
  let closed ← Action.read PluginManager.closed
  (match info.library with
  | none => pure ()
  | some library => if library ∈ closed then Action.stop (.overread library) else pure ())
  (if info.plugin.hasShutdown then
    Action.update fun manager => { manager with hooks := manager.hooks ++ [.shutdown info.plugin.guid] }
  else pure ())
  (match info.library with
  | none => pure ()
  | some library => if info.ownsLibrary then sharedLibraryClose library else pure ())

def shutdownInstances : List PluginInstance → Run PluginManager Unit
  | [] => pure ()
  | info :: rest => do
    shutdownInstance info
    shutdownInstances rest

def pluginManagerDestroy : Run PluginManager Unit := do
  let instances ← Action.read PluginManager.instances
  shutdownInstances instances
  Action.update fun manager => { manager with instances := [] }

inductive PluginCall
  | register (plugins : List Plugin)
  | loadLibrary (file : LibraryFile)

def pluginCall : PluginCall → Run PluginManager Unit
  | .register plugins => pluginManagerRegister plugins
  | .loadLibrary file => pluginManagerLoadLibrary file

/-- The manager after calls, whether they succeed or not. -/
def pluginStep (manager : PluginManager) (call : PluginCall) : PluginManager := ((pluginCall call).run manager).2

def pluginsAfter (calls : List PluginCall) : PluginManager := Machine.run pluginStep {} calls

end Libnmo.App

/-! What a run of calls leaves: GUIDs that are distinct, and an owner for each library
that is open, the first of its instances. The owner takes its library with it when the
manager is destroyed, so the other instances of the library can no longer be read. -/
namespace Libnmo.App
open Core Format Lib

def PluginInstance.guid (info : PluginInstance) : Guid := info.plugin.guid

def PluginInstance.owned (info : PluginInstance) : Option Nat := if info.ownsLibrary then info.library else none

def PluginInstance.started (info : PluginInstance) : Bool := info.plugin.init.isSome

@[simp] theorem PluginInstance.guid_own (info : PluginInstance) : info.own.guid = info.guid := rfl

@[simp] theorem PluginInstance.library_own (info : PluginInstance) : info.own.library = info.library := rfl

@[simp] theorem PluginInstance.started_own (info : PluginInstance) : info.own.started = info.started := rfl

@[simp] theorem PluginInstance.owned_own (info : PluginInstance) : info.own.owned = info.library := rfl

/-- The GUID of an init hook that succeeded. -/
def HookCall.accepted : HookCall → Option Guid
  | .init guid none => some guid
  | _ => none

def HookCall.ended : HookCall → Option Guid
  | .shutdown guid => some guid
  | _ => none

/-- The later call adds instances of a library, or of none, and touches no library. -/
structure Extends (library : Option Nat) (before after : PluginManager) : Prop where
  opened : after.opened = before.opened
  closed : after.closed = before.closed
  added : ∃ more, after.instances = before.instances ++ more ∧
    ∀ info ∈ more, info.library = library ∧ info.ownsLibrary = false
  distinct : (before.instances.map PluginInstance.guid).Nodup → (after.instances.map PluginInstance.guid).Nodup
  accepted : before.hooks.filterMap HookCall.accepted =
      (before.instances.filter PluginInstance.started).map PluginInstance.guid →
    after.hooks.filterMap HookCall.accepted =
      (after.instances.filter PluginInstance.started).map PluginInstance.guid
  ended : after.hooks.filterMap HookCall.ended = before.hooks.filterMap HookCall.ended

section Extending
variable {library : Option Nat} {before middle after : PluginManager} {plugin : Plugin}

theorem Extends.refl (library : Option Nat) (manager : PluginManager) : Extends library manager manager where
  opened := rfl
  closed := rfl
  added := ⟨[],by simp⟩
  distinct := id
  accepted := id
  ended := rfl

theorem Extends.trans (first : Extends library before middle) (second : Extends library middle after) :
    Extends library before after where
  opened := second.opened.trans first.opened
  closed := second.closed.trans first.closed
  added := by
    obtain ⟨some,early,plain⟩ := first.added
    obtain ⟨more,late,simple⟩ := second.added
    refine ⟨some ++ more,by rw [late,early,List.append_assoc],?_⟩
    intro info member
    cases List.mem_append.mp member with
    | inl there => exact plain info there
    | inr there => exact simple info there
  distinct := second.distinct ∘ first.distinct
  accepted := second.accepted ∘ first.accepted
  ended := second.ended.trans first.ended

theorem findIndex_none {instances : List PluginInstance} {guid : Guid} :
    pluginManagerFindIndexByGuid instances guid = none ↔ guid ∉ instances.map PluginInstance.guid := by
  simp only [pluginManagerFindIndexByGuid,List.findIdx?_eq_none_iff,decide_eq_false_iff_not,List.mem_map,not_exists,
    not_and,PluginInstance.guid]

theorem initInstance_ends (plugin : Plugin) (library : Option Nat) (manager : PluginManager) :
    (initInstance plugin library).run manager =
      (.ok (plugin.init.bind fun hook => hook manager.hooks.length),((initInstance plugin library).run manager).2) := by
  simp only [initInstance]
  cases plugin.init with
  | none => rfl
  | some hook =>
    rw [Option.bind_some]
    dsimp only
    split <;> rfl

/-- A plugin under a new GUID gets an instance exactly when its init hook does not fail. -/
theorem initInstance_extends (library : Option Nat)
    (fresh : pluginManagerFindIndexByGuid before.instances plugin.guid = none) :
    Extends library before ((initInstance plugin library).run before).2 := by
  have fresh := findIndex_none.mp fresh
  have apart : (before.instances.map PluginInstance.guid).Nodup →
      ((before.instances ++ [({ plugin := plugin, library := library } : PluginInstance)]).map PluginInstance.guid).Nodup := by
    intro distinct
    rw [List.map_append,List.map_singleton,← List.concat_eq_append]
    exact distinct.concat fresh
  simp only [initInstance]
  cases started : plugin.init with
  | none =>
    exact {
      opened := rfl
      closed := rfl
      added := ⟨_,rfl,by simp⟩
      distinct := apart
      accepted := fun same => by simp [same,PluginInstance.started,started]
      ended := rfl }
  | some hook =>
    dsimp only
    cases answer : hook before.hooks.length with
    | none =>
      exact {
        opened := rfl
        closed := rfl
        added := ⟨_,rfl,by simp⟩
        distinct := apart
        accepted := fun same => by simp [same,PluginInstance.started,started,HookCall.accepted,PluginInstance.guid]
        ended := by simp [HookCall.ended] }
    | some code =>
      exact {
        opened := rfl
        closed := rfl
        added := ⟨[],by simp⟩
        distinct := id
        accepted := fun same => by simp [same,HookCall.accepted]
        ended := by simp [HookCall.ended] }

theorem keeps_registerPlugin (start : PluginManager) (plugin : Plugin) :
    Action.Keeps (Extends none start) (registerPlugin plugin) := by
  unfold registerPlugin
  apply Action.keeps_bind
  · split
    · exact Action.keeps_stop _
    · exact Action.keeps_pure _
  · intro _
    apply Action.keeps_inspect
    intro manager extended
    by_cases fresh : pluginManagerFindIndexByGuid manager.instances plugin.guid = none
    · rw [if_neg (not_not.mpr fresh),Action.bind_ok _ (Action.pure_apply _ _)]
      have entered := extended.trans (initInstance_extends none fresh)
      rw [Action.bind_apply]
      split
      · rename_i refusal after ran
        rw [ran] at entered
        cases refusal <;> exact entered
      · rename_i ran
        rwa [ran] at entered
    · rw [if_pos fresh]
      exact extended

theorem keeps_registerPlugins (start : PluginManager) (plugins : List Plugin) :
    Action.Keeps (Extends none start) (registerPlugins plugins) := by
  induction plugins with
  | nil => exact Action.keeps_pure _
  | cons plugin rest ih =>
    apply Action.keeps_bind
    · exact keeps_registerPlugin start plugin
    · intro _
      exact ih

theorem loadPlugin_extends (library : Nat) (plugin : Plugin) (extended : Extends (some library) before middle) :
    ∃ after, (loadPlugin library plugin).run middle = (.ok (),after) ∧ Extends (some library) before after := by
  unfold loadPlugin
  rw [Action.bind_ok _ (Action.read_apply _ _)]
  by_cases fresh : pluginManagerFindIndexByGuid middle.instances plugin.guid = none
  · rw [if_neg (not_not.mpr fresh),Action.bind_ok _ (initInstance_ends plugin (some library) middle)]
    exact ⟨_,rfl,extended.trans (initInstance_extends (some library) fresh)⟩
  · rw [if_pos fresh]
    exact ⟨middle,rfl,extended⟩

theorem loadPlugins_extends (library : Nat) (plugins : List Plugin) (extended : Extends (some library) before middle) :
    ∃ after, (loadPlugins library plugins).run middle = (.ok (),after) ∧ Extends (some library) before after := by
  induction plugins generalizing middle with
  | nil => exact ⟨middle,rfl,extended⟩
  | cons plugin rest ih =>
    obtain ⟨next,ran,extended⟩ := loadPlugin_extends library plugin extended
    obtain ⟨after,last,extended⟩ := ih extended
    exact ⟨after,(Action.bind_ok _ ran).trans last,extended⟩

end Extending

/-- Each open library belongs to one instance, the first of those that come from it. -/
structure PluginManager.Sound (manager : PluginManager) : Prop where
  distinct : (manager.instances.map PluginInstance.guid).Nodup
  held : ∀ info ∈ manager.instances, ∀ library, info.library = some library →
    library < manager.opened ∧ library ∉ manager.closed
  owners : ∀ library, library ∈ manager.instances.filterMap PluginInstance.owned ↔
    library < manager.opened ∧ library ∉ manager.closed
  once : (manager.instances.filterMap PluginInstance.owned).Nodup
  first : manager.instances.Pairwise fun before info =>
    ∀ library, info.owned = some library → before.library ≠ some library
  closedOnce : manager.closed.Nodup
  closedOpened : ∀ library ∈ manager.closed, library < manager.opened
  accepted : manager.hooks.filterMap HookCall.accepted =
    (manager.instances.filter PluginInstance.started).map PluginInstance.guid
  ended : manager.hooks.filterMap HookCall.ended = []

section Sound
variable {manager after : PluginManager}

theorem sound_empty : ({} : PluginManager).Sound where
  distinct := List.nodup_nil
  held := by simp
  owners := by simp
  once := List.nodup_nil
  first := List.Pairwise.nil
  closedOnce := List.nodup_nil
  closedOpened := by simp
  accepted := rfl
  ended := rfl

theorem unowned {more : List PluginInstance} {library : Option Nat}
    (plain : ∀ info ∈ more, info.library = library ∧ info.ownsLibrary = false) {info : PluginInstance}
    (member : info ∈ more) : info.owned = none := by
  simp [PluginInstance.owned,(plain info member).2]

theorem owned_plain {more : List PluginInstance} {library : Option Nat}
    (plain : ∀ info ∈ more, info.library = library ∧ info.ownsLibrary = false) :
    more.filterMap PluginInstance.owned = [] := by
  apply List.filterMap_eq_nil_iff.mpr
  intro info member
  exact unowned plain member

/-- Instances without a library change nothing about the libraries. -/
theorem PluginManager.Sound.extended (sound : manager.Sound) (extended : Extends none manager after) : after.Sound := by
  obtain ⟨more,instances,plain⟩ := extended.added
  have same : after.instances.filterMap PluginInstance.owned = manager.instances.filterMap PluginInstance.owned := by
    rw [instances,List.filterMap_append,owned_plain plain,List.append_nil]
  exact {
    distinct := extended.distinct sound.distinct
    held := by
      intro info member library found
      rw [extended.opened,extended.closed]
      rw [instances] at member
      cases List.mem_append.mp member with
      | inl there => exact sound.held info there library found
      | inr there => rw [(plain info there).1] at found; cases found
    owners := by
      rw [same,extended.opened,extended.closed]
      exact sound.owners
    once := same ▸ sound.once
    first := by
      rw [instances,List.pairwise_append]
      refine ⟨sound.first,List.pairwise_of_forall_mem_list ?_,?_⟩
      · intro _ _ info member library found
        simp [unowned plain member] at found
      · intro _ _ info member library found
        simp [unowned plain member] at found
    closedOnce := extended.closed ▸ sound.closedOnce
    closedOpened := by
      rw [extended.closed,extended.opened]
      exact sound.closedOpened
    accepted := extended.accepted sound.accepted
    ended := extended.ended.trans sound.ended }

/-- A library without instances is closed again. -/
theorem PluginManager.Sound.released (sound : manager.Sound)
    (extended : Extends (some manager.opened) { manager with opened := manager.opened + 1 } after)
    (none : after.instances = manager.instances) :
    PluginManager.Sound { after with closed := after.closed ++ [manager.opened] } where
  distinct := extended.distinct sound.distinct
  held := by
    intro info member library found
    rw [none] at member
    obtain ⟨early,there⟩ := sound.held info member library found
    have opened : after.opened = manager.opened + 1 := extended.opened
    have closed : after.closed = manager.closed := extended.closed
    simp only [opened,closed,List.mem_append,List.mem_singleton,not_or]
    exact ⟨by omega,there,by omega⟩
  owners := by
    intro library
    have small := sound.closedOpened library
    simp only [none,sound.owners,extended.opened,extended.closed,List.mem_append,List.mem_singleton]
    by_cases there : library ∈ manager.closed
    · simp [there]
    · simp only [there,not_false_eq_true,and_true,false_or]
      omega
  once := none ▸ sound.once
  first := none ▸ sound.first
  closedOnce := by
    rw [extended.closed,← List.concat_eq_append]
    apply sound.closedOnce.concat
    intro member
    exact Nat.lt_irrefl _ (sound.closedOpened _ member)
  closedOpened := by
    intro library member
    simp only [extended.opened,extended.closed,List.mem_append,List.mem_singleton] at member ⊢
    cases member with
    | inl there => exact Nat.lt_succ_of_lt (sound.closedOpened library there)
    | inr last => omega
  accepted := extended.accepted sound.accepted
  ended := extended.ended.trans sound.ended

/-- The first instance of a library becomes its owner. -/
theorem PluginManager.Sound.taken (sound : manager.Sound) {info : PluginInstance} {more : List PluginInstance}
    (extended : Extends (some manager.opened) { manager with opened := manager.opened + 1 } after)
    (instances : after.instances = manager.instances ++ info :: more)
    (plain : ∀ other ∈ info :: more, other.library = some manager.opened ∧ other.ownsLibrary = false) :
    PluginManager.Sound { after with
      instances := after.instances.modify manager.instances.length PluginInstance.own } := by
  have later : ∀ other ∈ more, other.library = some manager.opened ∧ other.ownsLibrary = false := by
    intro other member
    exact plain other (List.mem_cons_of_mem info member)
  have library := (plain info (List.mem_cons_self ..)).1
  have opened : after.opened = manager.opened + 1 := extended.opened
  have closed : after.closed = manager.closed := extended.closed
  have unopened : manager.opened ∉ manager.closed := by
    intro member
    exact Nat.lt_irrefl _ (sound.closedOpened _ member)
  have modified : after.instances.modify manager.instances.length PluginInstance.own =
      manager.instances ++ info.own :: more := by
    rw [instances]
    exact Patch.modify_between _ _ _ _
  have owners : (manager.instances ++ info.own :: more).filterMap PluginInstance.owned =
      manager.instances.filterMap PluginInstance.owned ++ [manager.opened] := by
    rw [List.filterMap_append,List.filterMap_cons,owned_plain later,PluginInstance.owned_own,library]
  rw [modified]
  exact {
    distinct := by
      have distinct := extended.distinct sound.distinct
      rw [instances] at distinct
      simpa using distinct
    held := by
      intro other member library found
      simp only [opened,closed]
      cases List.mem_append.mp member with
      | inl there =>
        obtain ⟨early,kept⟩ := sound.held other there library found
        exact ⟨by omega,kept⟩
      | inr new =>
        have same : other.library = some manager.opened := by
          cases List.mem_cons.mp new with
          | inl first => rwa [first]
          | inr rest => exact (later other rest).1
        cases same.symm.trans found
        exact ⟨Nat.lt_succ_self _,unopened⟩
    owners := by
      intro library
      simp only [owners,opened,closed,List.mem_append,List.mem_singleton,sound.owners]
      constructor
      · intro either
        cases either with
        | inl old => exact ⟨by omega,old.2⟩
        | inr new => exact ⟨by omega,new ▸ unopened⟩
      · intro ⟨bound,kept⟩
        by_cases last : library = manager.opened
        · exact .inr last
        · exact .inl ⟨by omega,kept⟩
    once := by
      simp only [owners,← List.concat_eq_append]
      apply sound.once.concat
      intro member
      exact Nat.lt_irrefl _ ((sound.owners _).mp member).1
    first := by
      have others : ∀ other ∈ more, ∀ library, other.owned ≠ some library := by
        intro other member library
        simp [unowned later member]
      simp only [List.pairwise_append,List.pairwise_cons,List.mem_cons]
      refine ⟨sound.first,⟨?_,?_⟩,?_⟩
      · intro other member library found
        exact absurd found (others other member library)
      · apply List.pairwise_of_forall_mem_list
        intro _ _ other member library found
        exact absurd found (others other member library)
      · intro before there other member other_library found same
        cases member with
        | inl first =>
          rw [first,PluginInstance.owned_own,library,Option.some.injEq] at found
          have early := (sound.held before there _ same).1
          omega
        | inr rest => exact others other rest _ found
    closedOnce := by
      rw [closed]
      exact sound.closedOnce
    closedOpened := by
      intro library member
      rw [closed] at member
      rw [opened]
      exact Nat.lt_succ_of_lt (sound.closedOpened library member)
    accepted := by
      have accepted := extended.accepted sound.accepted
      rw [instances] at accepted
      rw [accepted]
      have same : ((info.own :: more).filter PluginInstance.started).map PluginInstance.guid =
          ((info :: more).filter PluginInstance.started).map PluginInstance.guid := by
        cases started : info.started <;> simp [started]
      rw [List.filter_append,List.filter_append,List.map_append,List.map_append,same]
    ended := extended.ended.trans sound.ended }

theorem sound_loadQueried (sound : manager.Sound) (plugins : List Plugin) :
    ((loadQueried manager.opened plugins).run { manager with opened := manager.opened + 1 }).2.Sound := by
  have start := Extends.refl (some manager.opened) { manager with opened := manager.opened + 1 }
  unfold loadQueried
  split
  · exact sound.released start rfl
  · obtain ⟨after,ran,extended⟩ := loadPlugins_extends manager.opened plugins start
    obtain ⟨more,instances,plain⟩ := extended.added
    rw [Action.bind_ok _ (Action.read_apply _ _),Action.bind_ok _ ran,settleLibrary,
      Action.bind_ok _ (Action.read_apply _ _)]
    cases more with
    | nil =>
      rw [List.append_nil] at instances
      rw [instances,if_neg (Nat.lt_irrefl _)]
      exact sound.released extended instances
    | cons info more =>
      have grown : after.instances.length > manager.instances.length := by
        simp [instances]
      rw [if_pos grown]
      exact sound.taken extended instances plain

theorem sound_pluginStep (sound : manager.Sound) (call : PluginCall) : (pluginStep manager call).Sound := by
  cases call with
  | register plugins =>
    have extended : Extends none manager ((pluginManagerRegister plugins).run manager).2 := by
      unfold pluginManagerRegister
      split
      · exact Extends.refl none manager
      · exact keeps_registerPlugins manager plugins manager (Extends.refl none manager)
    exact sound.extended extended
  | loadLibrary file =>
    have start := Extends.refl (some manager.opened) { manager with opened := manager.opened + 1 }
    cases file with
    | refused code => exact sound
    | noSymbol code => exact sound.released start rfl
    | noQuery => exact sound.released start rfl
    | queried plugins => exact sound_loadQueried sound plugins

/-- After every run of calls the GUIDs are distinct, and each open library has one owner. -/
theorem plugins_sound (calls : List PluginCall) : (pluginsAfter calls).Sound := by
  have kept : ∀ (manager : PluginManager) (call : PluginCall), manager.Sound → (pluginStep manager call).Sound := by
    intro manager call sound
    exact sound_pluginStep sound call
  exact Machine.run_keeps kept sound_empty calls

/-- In every state that calls lead to, the GUIDs are distinct, a library that is open has one owner and one that is
closed has none, and the init hooks that succeeded are those of the instances, in their order. -/
theorem plugins_owned (calls : List PluginCall) :
    ((pluginsAfter calls).instances.map PluginInstance.guid).Nodup ∧
      (∀ library, ((pluginsAfter calls).instances.filterMap PluginInstance.owned).count library =
        if library < (pluginsAfter calls).opened ∧ library ∉ (pluginsAfter calls).closed then 1 else 0) ∧
      (pluginsAfter calls).hooks.filterMap HookCall.accepted =
        ((pluginsAfter calls).instances.filter PluginInstance.started).map PluginInstance.guid := by
  have sound := plugins_sound calls
  refine ⟨sound.distinct,?_,sound.accepted⟩
  intro library
  have owner := sound.owners library
  split
  · rename_i held
    exact List.count_eq_one_of_mem sound.once (owner.mpr held)
  · rename_i gone
    apply List.count_eq_zero.mpr
    rwa [owner]

end Sound

section Destroying
variable {info : PluginInstance} {infos : List PluginInstance} {manager : PluginManager}

def PluginInstance.farewell (info : PluginInstance) : Option HookCall :=
  if info.plugin.hasShutdown then some (.shutdown info.guid) else none

/-- The manager after the instances have been shut down. -/
def PluginManager.shut (manager : PluginManager) (infos : List PluginInstance) : PluginManager :=
  { manager with
    closed := manager.closed ++ infos.filterMap PluginInstance.owned
    hooks := manager.hooks ++ infos.filterMap PluginInstance.farewell }

/-- Instance after instance, the plugin is still there when its turn comes. -/
structure Lasts (closed : List Nat) (infos : List PluginInstance) : Prop where
  readable : ∀ info ∈ infos, ∀ library, info.library = some library → library ∉ closed
  apart : infos.Pairwise fun before info => ∀ library, before.owned = some library → info.library ≠ some library

theorem lasts_cons {closed : List Nat} {rest : List PluginInstance} : Lasts closed (info :: rest) ↔
    (∀ library, info.library = some library → library ∉ closed) ∧
      Lasts (closed ++ [info].filterMap PluginInstance.owned) rest := by
  have gone (library : Nat) : library ∈ closed ++ [info].filterMap PluginInstance.owned ↔
      library ∈ closed ∨ info.owned = some library := by
    simp
  constructor
  · intro lasts
    obtain ⟨head,tail⟩ := List.forall_mem_cons.mp lasts.readable
    obtain ⟨first,others⟩ := List.pairwise_cons.mp lasts.apart
    refine ⟨head,⟨?_,others⟩⟩
    intro other member library found
    rw [gone,not_or]
    exact ⟨tail other member library found,fun owner => first other member library owner found⟩
  · intro ⟨head,lasts⟩
    have tail : ∀ other ∈ rest, ∀ library, other.library = some library → library ∉ closed ∧ info.owned ≠ some library := by
      intro other member library found
      have kept := lasts.readable other member library found
      rwa [gone,not_or] at kept
    constructor
    · exact List.forall_mem_cons.mpr ⟨head,fun other member library found => (tail other member library found).1⟩
    · apply List.pairwise_cons.mpr
      refine ⟨?_,lasts.apart⟩
      intro other member library owner found
      exact (tail other member library found).2 owner

theorem shutdownInstance_run (readable : ∀ library, info.library = some library → library ∉ manager.closed) :
    (shutdownInstance info).run manager = (.ok (),manager.shut [info]) := by
  unfold shutdownInstance
  rw [Action.bind_ok _ (Action.read_apply _ _)]
  cases found : info.library with
  | none =>
    cases ends : info.plugin.hasShutdown <;>
      simp [Action.bind_apply,PluginManager.shut,PluginInstance.owned,PluginInstance.farewell,PluginInstance.guid,found,ends]
  | some library =>
    have there := readable library found
    cases ends : info.plugin.hasShutdown <;> cases owner : info.ownsLibrary <;>
      simp [Action.bind_apply,sharedLibraryClose,PluginManager.shut,PluginInstance.owned,PluginInstance.farewell,
        PluginInstance.guid,found,ends,owner,there]

theorem shutdownInstance_stop {library : Nat} (found : info.library = some library) (gone : library ∈ manager.closed) :
    (shutdownInstance info).run manager = (.error (.overread library),manager) := by
  unfold shutdownInstance
  rw [Action.bind_ok _ (Action.read_apply _ _),found]
  simp [Action.bind_apply,gone]

theorem shut_shut (manager : PluginManager) (first rest : List PluginInstance) :
    (manager.shut first).shut rest = manager.shut (first ++ rest) := by
  simp [PluginManager.shut]

theorem shutdownInstances_run (lasts : Lasts manager.closed infos) :
    (shutdownInstances infos).run manager = (.ok (),manager.shut infos) := by
  induction infos generalizing manager with
  | nil => simp [shutdownInstances,PluginManager.shut]
  | cons info rest ih =>
    obtain ⟨readable,lasts⟩ := lasts_cons.mp lasts
    rw [shutdownInstances,Action.bind_ok _ (shutdownInstance_run readable),ih lasts,shut_shut]
    rfl

theorem shutdownInstances_stop (ends : ¬ Lasts manager.closed infos) :
    ∃ library, ((shutdownInstances infos).run manager).1 = .error (.overread library) := by
  induction infos generalizing manager with
  | nil => exact absurd ⟨by simp,List.Pairwise.nil⟩ ends
  | cons info rest ih =>
    rw [lasts_cons,not_and_or] at ends
    by_cases readable : ∀ library, info.library = some library → library ∉ manager.closed
    · have later : ¬ Lasts (manager.shut [info]).closed rest := ends.resolve_left (not_not.mpr readable)
      obtain ⟨library,stopped⟩ := ih later
      refine ⟨library,?_⟩
      rw [shutdownInstances,Action.bind_ok _ (shutdownInstance_run readable)]
      exact stopped
    · push Not at readable
      obtain ⟨library,found,gone⟩ := readable
      refine ⟨library,?_⟩
      rw [shutdownInstances,Action.bind_error _ (shutdownInstance_stop found gone)]

/-- The plugins outlast their turn just when no two instances come from one library. -/
theorem PluginManager.Sound.lasts_iff (sound : manager.Sound) :
    Lasts manager.closed manager.instances ↔ (manager.instances.filterMap PluginInstance.library).Nodup := by
  have readable : ∀ info ∈ manager.instances, ∀ library, info.library = some library → library ∉ manager.closed := by
    intro info member library found
    exact (sound.held info member library found).2
  rw [List.Nodup,List.pairwise_filterMap]
  constructor
  · intro lasts
    rw [List.pairwise_iff_getElem]
    intro i j left right before first found second again same
    subst same
    -- the owner of the library is neither behind the first of the two instances nor before the second
    have member := List.getElem_mem left
    obtain ⟨owner,there,owned⟩ := List.mem_filterMap.mp ((sound.owners first).mpr (sound.held _ member _ found))
    obtain ⟨k,bound,rfl⟩ := List.getElem_of_mem there
    have library : manager.instances[k].library = some first := by
      rw [PluginInstance.owned] at owned
      split at owned
      · exact owned
      · cases owned
    rcases Nat.lt_trichotomy k j with early | rfl | late
    · exact List.pairwise_iff_getElem.mp lasts.apart k j bound right early first owned again
    · exact List.pairwise_iff_getElem.mp sound.first i k left bound before first owned found
    · exact List.pairwise_iff_getElem.mp sound.first i k left bound (by omega) first owned found
  · intro distinct
    refine ⟨readable,distinct.imp ?_⟩
    intro before info apart library owned found
    rw [PluginInstance.owned] at owned
    split at owned
    · exact apart library owned library found rfl
    · cases owned

/-- Destroying the manager after any run of calls either reads a plugin of a library that it has closed, or, just when
no two instances come from one library, closes every library that was opened once and calls the shutdown hook of
each plugin that was taken in once, in their order. -/
theorem plugins_released_iff (calls : List PluginCall) :
    (((pluginManagerDestroy.run (pluginsAfter calls)).1 = .ok () ↔
        ((pluginsAfter calls).instances.filterMap PluginInstance.library).Nodup) ∧
      ((pluginManagerDestroy.run (pluginsAfter calls)).1 ≠ .ok () →
        ∃ library, (pluginManagerDestroy.run (pluginsAfter calls)).1 = .error (.overread library))) ∧
      ((pluginManagerDestroy.run (pluginsAfter calls)).1 = .ok () →
        (pluginManagerDestroy.run (pluginsAfter calls)).2.closed.Perm (List.range (pluginsAfter calls).opened) ∧
          (pluginManagerDestroy.run (pluginsAfter calls)).2.hooks.filterMap HookCall.ended =
            ((pluginsAfter calls).instances.filter fun info => info.plugin.hasShutdown).map PluginInstance.guid) := by
  have sound := plugins_sound calls
  have whole : pluginManagerDestroy.run (pluginsAfter calls) =
      (shutdownInstances (pluginsAfter calls).instances >>= fun _ =>
        Action.update fun manager => { manager with instances := [] }).run (pluginsAfter calls) := rfl
  by_cases lasts : Lasts (pluginsAfter calls).closed (pluginsAfter calls).instances
  · have run := shutdownInstances_run lasts
    rw [whole,Action.bind_ok _ run,Action.update_apply]
    refine ⟨⟨by simp [sound.lasts_iff.mp lasts],by simp⟩,fun _ => ⟨?_,?_⟩⟩
    · apply (List.perm_ext_iff_of_nodup ?_ List.nodup_range).mpr
      · intro library
        simp only [PluginManager.shut,List.mem_append,List.mem_range,sound.owners]
        constructor
        · intro either
          cases either with
          | inl early => exact sound.closedOpened library early
          | inr now => exact now.1
        · intro bound
          by_cases early : library ∈ (pluginsAfter calls).closed
          · exact .inl early
          · exact .inr ⟨bound,early⟩
      · apply List.nodup_append.mpr
        refine ⟨sound.closedOnce,sound.once,?_⟩
        intro library early other now same
        exact ((sound.owners other).mp now).2 (same ▸ early)
    · simp only [PluginManager.shut,List.filterMap_append,sound.ended,List.nil_append,List.filterMap_filterMap]
      induction (pluginsAfter calls).instances with
      | nil => rfl
      | cons info rest ih =>
        cases ends : info.plugin.hasShutdown <;>
          simp [PluginInstance.farewell,HookCall.ended,ends] at ih ⊢ <;> exact ih
  · obtain ⟨library,stopped⟩ := shutdownInstances_stop lasts
    have run : (pluginManagerDestroy.run (pluginsAfter calls)).1 = .error (.overread library) := by
      rw [whole,Action.bind_apply]
      split
      · rename_i ran
        rw [ran] at stopped
        cases stopped
      · rename_i ran
        rw [ran] at stopped
        exact stopped
    rw [run]
    have shared : ¬ ((pluginsAfter calls).instances.filterMap PluginInstance.library).Nodup := by
      rwa [← sound.lasts_iff]
    simp [shared]

end Destroying

end Libnmo.App
