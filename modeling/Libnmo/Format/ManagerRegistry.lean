import Libnmo.Core.Error
import Libnmo.Format.DataSection
import Libnmo.Lib.Machine
import Mathlib.Data.List.Nodup
import Mathlib.Logic.Function.Basic

/-! The manager registry: two maps to the same managers, by ID and by GUID. The registry owns
the managers that are in it, and a manager that was destroyed is no longer in memory. The
maps behave as finite maps; an insert may fail. -/
namespace Libnmo.Format
open Core Lib

structure NmoManager where
  guid : Guid
  name : Option (List UInt8) := none
  deriving DecidableEq

/-- The managers in memory by their addresses, and the two maps. -/
structure ManagerRegistry where
  heap : Nat → Option NmoManager := fun _ => none
  managersById : List (UInt32 × Nat) := []
  managersByGuid : List (Guid × Nat) := []

section Maps
variable {κ : Type} [DecidableEq κ]

def mapRemove (map : List (κ × Nat)) (key : κ) : List (κ × Nat) := map.filter fun entry => entry.1 ≠ key

def mapInsert (map : List (κ × Nat)) (key : κ) (manager : Nat) : List (κ × Nat) := mapRemove map key ++ [(key,manager)]

end Maps

section Calls

/-- A field of a manager is read: not of one that was destroyed. -/
def managerAt (manager : Nat) : Run ManagerRegistry NmoManager where
  run s := match s.heap manager with
    | some m => (.ok m,s)
    | none => (.error (.overread manager),s)

/-- `nmo_manager_destroy`, which reads the name and gives back the memory. -/
def managerDestroy (manager : Nat) : Run ManagerRegistry Unit := do
  let _ ← managerAt manager
  Action.update fun s => { s with heap := Function.update s.heap manager none }

def invalid : Run ManagerRegistry Unit := fail .invalidArgument ""

/-- The insert by GUID, which is undone for the ID if it fails. -/
def insertByGuid (managerId : UInt32) (manager : Nat) (fails : Option ErrorCode) : Run ManagerRegistry Unit := do
  let mgr ← managerAt manager
  match fails with
  | some code => do
    Action.update fun s => { s with managersById := mapRemove s.managersById managerId }
    fail code ""
  | none => Action.update fun s => { s with managersByGuid := mapInsert s.managersByGuid mgr.guid manager }

/-- Each of the two inserts may fail with a code. -/
def registryRegister (managerId : UInt32) (manager : Option Nat) (idFails guidFails : Option ErrorCode) : Run ManagerRegistry Unit :=
  match manager with
  | none => invalid
  | some manager => do
    let known ← Action.read fun s => (s.managersById.lookup managerId).isSome
    (if known then invalid else do
      let mgr ← managerAt manager
      let same ← Action.read fun s => (s.managersByGuid.lookup mgr.guid).isSome
      (if same then invalid else match idFails with
        | some code => fail code ""
        | none => do
          Action.update fun s => { s with managersById := mapInsert s.managersById managerId manager }
          insertByGuid managerId manager guidFails))

/-- The GUID is asked of the manager after it was destroyed. -/
def registryUnregister (managerId : UInt32) : Run ManagerRegistry Unit := do
  let found ← Action.read fun s => s.managersById.lookup managerId
  match found with
  | none => invalid
  | some manager => do
    managerDestroy manager
    Action.update fun s => { s with managersById := mapRemove s.managersById managerId }
    let mgr ← managerAt manager
    Action.update fun s => { s with managersByGuid := mapRemove s.managersByGuid mgr.guid }

def destroyAll : List Nat → Run ManagerRegistry Unit
  | [] => pure ()
  | manager :: rest => do
    managerDestroy manager
    destroyAll rest

def registryClear : Run ManagerRegistry Unit := do
  let managers ← Action.read fun s => s.managersById.map Prod.snd
  destroyAll managers
  Action.update fun s => { s with managersById := [], managersByGuid := [] }

/-- What a user of the registry does: managers are created on their own. -/
inductive RegistryOp
  | create (manager : Nat) (m : NmoManager)
  | register (managerId : UInt32) (manager : Option Nat) (idFails guidFails : Option ErrorCode)
  | unregister (managerId : UInt32)
  | clear

def registryCall : RegistryOp → Run ManagerRegistry Unit
  | .create manager m => Action.update fun s => { s with heap := Function.update s.heap manager (some m) }
  | .register managerId manager idFails guidFails => registryRegister managerId manager idFails guidFails
  | .unregister managerId => registryUnregister managerId
  | .clear => registryClear

end Calls

section Purpose

/-- A manager with the ID and the GUID that it was registered with. -/
structure Registration where
  id : UInt32
  guid : Guid
  manager : Nat

/-- The registrations that a call leaves, by whether it went well. -/
def afterCall (s : ManagerRegistry) (entries : List Registration) : RegistryOp → Result Unit → List Registration
  | _,.error _ => entries
  | .register managerId (some manager) _ _,.ok _ => entries ++ [⟨managerId,((s.heap manager).map NmoManager.guid).getD {},manager⟩]
  | .unregister managerId,.ok _ => entries.filter fun entry => entry.id ≠ managerId
  | .clear,.ok _ => []
  | _,.ok _ => entries

/-- The registry with the registrations it should have. -/
def registryStep (before : ManagerRegistry × List Registration) (op : RegistryOp) : ManagerRegistry × List Registration :=
  (((registryCall op).run before.1).2,afterCall before.1 before.2 op ((registryCall op).run before.1).1)

/-- Both maps hold the managers that are registered, each once. -/
structure HoldsManagers (s : ManagerRegistry) (entries : List Registration) : Prop where
  byId : s.managersById = entries.map fun entry => (entry.id,entry.manager)
  byGuid : s.managersByGuid = entries.map fun entry => (entry.guid,entry.manager)
  ids : (entries.map Registration.id).Nodup
  guids : (entries.map Registration.guid).Nodup
  managers : (entries.map Registration.manager).Nodup

/-- The call uses no manager that was destroyed, changes no map if it fails, and leaves both maps with the same managers. -/
structure KeepsIndexes (before : ManagerRegistry × List Registration) (op : RegistryOp) : Prop where
  used : ∀ stop, ((registryCall op).run before.1).1 = .error stop → stop.faults = false
  failed : ∀ stop, ((registryCall op).run before.1).1 = .error stop →
    (registryStep before op).1.managersById = before.1.managersById ∧ (registryStep before op).1.managersByGuid = before.1.managersByGuid
  same : HoldsManagers (registryStep before op).1 (registryStep before op).2

/-- A manager is created where there is none, and one that is registered is in memory. -/
def Usable (before : ManagerRegistry × List Registration) : RegistryOp → Prop
  | .create manager _ => before.1.heap manager = none
  | .register _ (some manager) _ _ => before.1.heap manager ≠ none
  | _ => True

/-- No manager is unregistered. -/
def LeavesManagers (before : ManagerRegistry × List Registration) : RegistryOp → Prop
  | .unregister managerId => before.1.managersById.lookup managerId = none
  | _ => True

end Purpose

section Steps
variable {s : ManagerRegistry} {entries : List Registration} {managerId : UInt32} {manager : Nat} {m : NmoManager}

/-- The registered managers are in memory, with their GUIDs. -/
structure Registered (before : ManagerRegistry × List Registration) : Prop where
  holds : HoldsManagers before.1 before.2
  live : ∀ entry ∈ before.2, ∃ m, before.1.heap entry.manager = some m ∧ m.guid = entry.guid

theorem registered_empty : Registered ({},[]) := ⟨⟨rfl,rfl,.nil,.nil,.nil⟩,nofun⟩

theorem lookup_none {κ : Type} [DecidableEq κ] {key : Registration → κ} {k : κ} :
    (entries.map fun entry => (key entry,entry.manager)).lookup k = none ↔ k ∉ entries.map key := by
  rw [List.lookup_eq_none_iff]
  simp only [List.mem_map,bne_iff_ne]
  constructor
  · rintro all ⟨entry,member,rfl⟩
    exact all _ ⟨entry,member,rfl⟩ rfl
  · rintro absent _ ⟨entry,member,rfl⟩ same
    exact absent ⟨entry,member,same.symm⟩

theorem mapRemove_absent {κ : Type} [DecidableEq κ] {map : List (κ × Nat)} {key : κ} (absent : map.lookup key = none) :
    mapRemove map key = map := by
  rw [List.lookup_eq_none_iff] at absent
  rw [mapRemove,List.filter_eq_self]
  intro entry member
  have other := bne_iff_ne.mp (absent entry member)
  exact decide_eq_true fun same => other same.symm

/-- What was inserted new and is removed again leaves the map as it was. -/
theorem remove_insert {κ : Type} [DecidableEq κ] {map : List (κ × Nat)} {key : κ} (absent : map.lookup key = none) :
    mapRemove (mapInsert map key manager) key = map := by
  have kept := mapRemove_absent absent
  rw [mapInsert,kept,mapRemove,List.filter_append,← mapRemove,kept,List.filter_singleton]
  simp

theorem managerAt_live (live : s.heap manager = some m) : (managerAt manager).run s = (.ok m,s) := by
  simp only [managerAt,live]

/-- A call that ends with an error and leaves the registry as it was keeps everything. -/
theorem kept_refused {before : ManagerRegistry × List Registration} {op : RegistryOp} (stop : Stop) (registered : Registered before)
    (ran : (registryCall op).run before.1 = (.error stop,before.1)) (reported : stop.faults = false) :
    KeepsIndexes before op ∧ Registered (registryStep before op) := by
  have same : registryStep before op = before := by
    rw [registryStep,ran]
    cases op with
    | register managerId manager idFails guidFails => cases manager <;> rfl
    | _ => rfl
  refine ⟨⟨fun stop' stopped => ?_,fun _ _ => by rw [same]; exact ⟨rfl,rfl⟩,by rw [same]; exact registered.holds⟩,by rwa [same]⟩
  rw [ran] at stopped
  rwa [← Except.error.inj stopped]

theorem registered_create (registered : Registered (s,entries)) (fresh : s.heap manager = none) :
    KeepsIndexes (s,entries) (.create manager m) ∧ Registered (registryStep (s,entries) (.create manager m)) := by
  have live : Registered (registryStep (s,entries) (.create manager m)) := by
    refine ⟨⟨registered.holds.byId,registered.holds.byGuid,registered.holds.ids,registered.holds.guids,registered.holds.managers⟩,?_⟩
    intro entry member
    obtain ⟨m',there,guid⟩ := registered.live entry member
    refine ⟨m',?_,guid⟩
    have other : entry.manager ≠ manager := by
      intro same
      rw [same] at there
      cases fresh.symm.trans there
    exact (Function.update_of_ne other _ _).trans there
  exact ⟨⟨nofun,nofun,live.holds⟩,live⟩

/-- The four ways a registration is refused leave the registry as it was. -/
theorem register_run (registered : Registered (s,entries)) (live : s.heap manager = some m) (idFails guidFails : Option ErrorCode) :
    (∃ code message,(registryRegister managerId (some manager) idFails guidFails).run s = (.error (.error code message),s)) ∨
    managerId ∉ entries.map Registration.id ∧ m.guid ∉ entries.map Registration.guid ∧
      (registryRegister managerId (some manager) idFails guidFails).run s = (.ok (),{ s with
        managersById := s.managersById ++ [(managerId,manager)], managersByGuid := s.managersByGuid ++ [(m.guid,manager)] }) := by
  have here := managerAt_live live
  unfold registryRegister
  dsimp only
  rw [Action.bind_ok _ (Action.read_apply _ s)]
  cases byId : s.managersById.lookup managerId with
  | some other => exact .inl ⟨_,_,rfl⟩
  | none =>
    rw [Option.isSome_none,if_neg Bool.false_ne_true,Action.bind_ok _ here,Action.bind_ok _ (Action.read_apply _ s)]
    cases byGuid : s.managersByGuid.lookup m.guid with
    | some other => exact .inl ⟨_,_,rfl⟩
    | none =>
      rw [Option.isSome_none,if_neg Bool.false_ne_true]
      cases idFails with
      | some code => exact .inl ⟨_,_,rfl⟩
      | none =>
        have still := managerAt_live (s := { s with managersById := mapInsert s.managersById managerId manager }) live
        dsimp only
        rw [Action.bind_ok _ (Action.update_apply _ s),insertByGuid,Action.bind_ok _ still]
        cases guidFails with
        | some code =>
          refine .inl ⟨code,"",?_⟩
          dsimp only
          rw [Action.bind_ok _ (Action.update_apply _ _),remove_insert byId]
          rfl
        | none =>
          refine .inr ⟨?_,?_,?_⟩
          · rw [registered.holds.byId,lookup_none] at byId
            exact byId
          · rw [registered.holds.byGuid,lookup_none] at byGuid
            exact byGuid
          · dsimp only
            rw [Action.update_apply,mapInsert,mapInsert,mapRemove_absent byId,mapRemove_absent byGuid]

theorem registered_register (registered : Registered (s,entries)) (live : s.heap manager = some m) (idFails guidFails : Option ErrorCode) :
    KeepsIndexes (s,entries) (.register managerId (some manager) idFails guidFails) ∧
      Registered (registryStep (s,entries) (.register managerId (some manager) idFails guidFails)) := by
  rcases register_run registered live idFails guidFails with ⟨code,message,ran⟩ | ⟨newId,newGuid,ran⟩
  · exact kept_refused _ registered ran rfl
  have step : registryStep (s,entries) (.register managerId (some manager) idFails guidFails) =
      ({ s with managersById := s.managersById ++ [(managerId,manager)], managersByGuid := s.managersByGuid ++ [(m.guid,manager)] },
        entries ++ [⟨managerId,m.guid,manager⟩]) := by
    rw [registryStep,registryCall,ran,afterCall,live]
    rfl
  have newManager : manager ∉ entries.map Registration.manager := by
    rintro member
    obtain ⟨entry,there,rfl⟩ := List.mem_map.mp member
    obtain ⟨m',found,guid⟩ := registered.live entry there
    obtain rfl := Option.some.inj (live.symm.trans found)
    exact newGuid (List.mem_map.mpr ⟨entry,there,guid.symm⟩)
  have added {α : Type} {f : Registration → α} (distinct : (entries.map f).Nodup) (absent : f ⟨managerId,m.guid,manager⟩ ∉ entries.map f) :
      ((entries ++ [(⟨managerId,m.guid,manager⟩ : Registration)]).map f).Nodup := by
    rw [List.map_append,List.map_singleton,List.nodup_append]
    refine ⟨distinct,List.nodup_singleton _,?_⟩
    intro a member b last same
    rw [same,List.mem_singleton.mp last] at member
    exact absent member
  have kept : Registered (registryStep (s,entries) (.register managerId (some manager) idFails guidFails)) := by
    rw [step]
    refine ⟨⟨?_,?_,added registered.holds.ids newId,added registered.holds.guids newGuid,added registered.holds.managers newManager⟩,?_⟩
    · rw [registered.holds.byId,List.map_append,List.map_singleton]
    · rw [registered.holds.byGuid,List.map_append,List.map_singleton]
    · intro entry member
      rcases List.mem_append.mp member with older | newest
      · exact registered.live entry older
      · rw [List.mem_singleton.mp newest]
        exact ⟨m,live,rfl⟩
  have good (stop : Stop) : ((registryCall (.register managerId (some manager) idFails guidFails)).run s).1 ≠ .error stop := by
    rw [registryCall,ran]
    nofun
  exact ⟨⟨fun stop stopped => absurd stopped (good stop),fun stop stopped => absurd stopped (good stop),kept.holds⟩,kept⟩

/-- All managers are in memory, and none comes twice. -/
theorem destroyAll_run {managers : List Nat} (distinct : managers.Nodup) (live : ∀ manager ∈ managers, s.heap manager ≠ none) :
    ∃ heap,(destroyAll managers).run s = (.ok (),{ s with heap := heap }) := by
  induction managers generalizing s with
  | nil => exact ⟨s.heap,rfl⟩
  | cons manager rest ih =>
    rw [List.nodup_cons] at distinct
    rw [List.forall_mem_cons] at live
    obtain ⟨m,there⟩ := Option.ne_none_iff_exists'.mp live.1
    have destroyed : (managerDestroy manager).run s = (.ok (),{ s with heap := Function.update s.heap manager none }) := by
      rw [managerDestroy,Action.bind_ok _ (managerAt_live there),Action.update_apply]
    have others : ∀ other ∈ rest, Function.update s.heap manager none other ≠ none := by
      intro other member
      have apart : other ≠ manager := fun same => distinct.1 (same ▸ member)
      rw [Function.update_of_ne apart]
      exact live.2 other member
    obtain ⟨heap,ran⟩ := ih (s := { s with heap := Function.update s.heap manager none }) distinct.2 others
    exact ⟨heap,by rw [destroyAll,Action.bind_ok _ destroyed,ran]⟩

theorem registered_clear (registered : Registered (s,entries)) :
    KeepsIndexes (s,entries) .clear ∧ Registered (registryStep (s,entries) .clear) := by
  have managers : s.managersById.map Prod.snd = entries.map Registration.manager := by
    rw [registered.holds.byId,List.map_map]
    rfl
  obtain ⟨heap,ran⟩ := destroyAll_run (s := s) registered.holds.managers fun manager member => by
    obtain ⟨entry,there,rfl⟩ := List.mem_map.mp member
    obtain ⟨m,found,_⟩ := registered.live entry there
    exact found ▸ Option.some_ne_none m
  have cleared : registryClear.run s = (.ok (),{ heap := heap, managersById := [], managersByGuid := [] }) := by
    rw [registryClear,Action.bind_ok _ (Action.read_apply _ s),managers,Action.bind_ok _ ran,Action.update_apply]
  have step : registryStep (s,entries) .clear = ({ heap := heap, managersById := [], managersByGuid := [] },[]) := by
    rw [registryStep,registryCall,cleared,afterCall]
  have kept : Registered (registryStep (s,entries) .clear) := by
    rw [step]
    exact ⟨⟨rfl,rfl,.nil,.nil,.nil⟩,nofun⟩
  have good (stop : Stop) : ((registryCall .clear).run s).1 ≠ .error stop := by
    rw [registryCall,cleared]
    nofun
  exact ⟨⟨fun stop stopped => absurd stopped (good stop),fun stop stopped => absurd stopped (good stop),kept.holds⟩,kept⟩

theorem registered_unknown (registered : Registered (s,entries)) (unknown : s.managersById.lookup managerId = none) :
    KeepsIndexes (s,entries) (.unregister managerId) ∧ Registered (registryStep (s,entries) (.unregister managerId)) := by
  refine kept_refused (.error .invalidArgument "") registered ?_ rfl
  rw [registryCall,registryUnregister,Action.bind_ok _ (Action.read_apply _ s),unknown]
  rfl

/-- The manager that is unregistered is used after it was destroyed. -/
theorem unregister_faults (registered : Registered (s,entries)) (known : s.managersById.lookup managerId = some manager) :
    ((registryCall (.unregister managerId)).run s).1 = .error (.overread manager) := by
  obtain ⟨front,back,split,_⟩ := List.lookup_eq_some_iff.mp known
  have member : (managerId,manager) ∈ s.managersById := by
    rw [split]
    exact List.mem_append_right front List.mem_cons_self
  rw [registered.holds.byId] at member
  obtain ⟨entry,there,same⟩ := List.mem_map.mp member
  obtain ⟨rfl,rfl⟩ := Prod.mk.inj same
  obtain ⟨m,found,_⟩ := registered.live entry there
  have destroyed : (managerDestroy entry.manager).run s = (.ok (),{ s with heap := Function.update s.heap entry.manager none }) := by
    rw [managerDestroy,Action.bind_ok _ (managerAt_live found),Action.update_apply]
  rw [registryCall,registryUnregister,Action.bind_ok _ (Action.read_apply _ s),known]
  dsimp only
  rw [Action.bind_ok _ destroyed,Action.bind_ok _ (Action.update_apply _ _)]
  have gone : (managerAt entry.manager).run { s with
      heap := Function.update s.heap entry.manager none, managersById := mapRemove s.managersById entry.id } =
        (.error (.overread entry.manager),{ s with
          heap := Function.update s.heap entry.manager none, managersById := mapRemove s.managersById entry.id }) := by
    simp only [managerAt,Function.update_self]
  rw [Action.bind_error _ gone]

/-- One call of a registry as it should be: it keeps the law just if it unregisters no manager, and then the next one does, too. -/
theorem call_kept {before : ManagerRegistry × List Registration} {op : RegistryOp} (registered : Registered before) (usable : Usable before op) :
    (KeepsIndexes before op ↔ LeavesManagers before op) ∧ (LeavesManagers before op → Registered (registryStep before op)) := by
  have always (both : KeepsIndexes before op ∧ Registered (registryStep before op)) (leaves : LeavesManagers before op) :
      (KeepsIndexes before op ↔ LeavesManagers before op) ∧ (LeavesManagers before op → Registered (registryStep before op)) :=
    ⟨iff_of_true both.1 leaves,fun _ => both.2⟩
  cases op with
  | create manager m => exact always (registered_create registered usable) trivial
  | register managerId manager idFails guidFails =>
    cases manager with
    | none => exact always (kept_refused (.error .invalidArgument "") registered rfl rfl) trivial
    | some manager =>
      obtain ⟨m,live⟩ := Option.ne_none_iff_exists'.mp usable
      exact always (registered_register registered live idFails guidFails) trivial
  | clear => exact always (registered_clear registered) trivial
  | unregister managerId =>
    cases known : before.1.managersById.lookup managerId with
    | none => exact always (registered_unknown registered known) known
    | some manager =>
      have leaves : ¬ LeavesManagers before (.unregister managerId) := by
        rw [LeavesManagers,known]
        nofun
      refine ⟨iff_of_false (fun keeps => ?_) leaves,fun none => absurd none leaves⟩
      have wrong := keeps.used _ (unregister_faults registered known)
      cases wrong

end Steps

section Runs
open Machine

/-- Before every call of a run the maps hold the managers that are registered, as long as none is unregistered. -/
theorem registered_visits {before : ManagerRegistry × List Registration} (registered : Registered before) {ops : List RegistryOp}
    (usable : ∀ visit ∈ visits registryStep before ops, Usable visit.1 visit.2) :
    (∀ visit ∈ visits registryStep before ops, KeepsIndexes visit.1 visit.2) ↔
      ∀ visit ∈ visits registryStep before ops, LeavesManagers visit.1 visit.2 := by
  induction ops generalizing before with
  | nil => exact iff_of_true (List.forall_mem_nil _) (List.forall_mem_nil _)
  | cons op rest ih =>
    rw [visits,List.forall_mem_cons] at usable
    rw [visits,List.forall_mem_cons,List.forall_mem_cons]
    obtain ⟨first,next⟩ := call_kept registered usable.1
    rw [first]
    exact and_congr_right fun leaves => ih (next leaves) usable.2

end Runs

/-- In a run of calls from an empty registry all keep the two maps alike and use only managers that are there just if
no call unregisters a manager. -/
theorem registry_kept_iff (ops : List RegistryOp) (usable : ∀ visit ∈ Machine.visits registryStep ({},[]) ops, Usable visit.1 visit.2) :
    (∀ visit ∈ Machine.visits registryStep ({},[]) ops, KeepsIndexes visit.1 visit.2) ↔
      ∀ visit ∈ Machine.visits registryStep ({},[]) ops, LeavesManagers visit.1 visit.2 :=
  registered_visits registered_empty usable

/-- A manager that is registered, and refused under another ID. -/
def sampleCalls : List RegistryOp :=
  [.create 1 ⟨⟨7,0⟩,none⟩,.register 1 (some 1) none none,.register 2 (some 1) none none,.clear]

def SampleKept : Prop :=
  ∀ visit ∈ Machine.visits registryStep ({},[]) sampleCalls, KeepsIndexes visit.1 visit.2

theorem sampleCalls_kept : SampleKept := by
  refine (registry_kept_iff sampleCalls ?_).mpr ?_
  · simp only [sampleCalls,Machine.visits,List.forall_mem_cons,Usable]
    exact ⟨trivial,by decide +kernel,by decide +kernel,trivial,List.forall_mem_nil _⟩
  · simp only [sampleCalls,Machine.visits,List.forall_mem_cons,LeavesManagers]
    exact ⟨trivial,trivial,trivial,trivial,List.forall_mem_nil _⟩

/-- The GUID of the only manager is read where the manager was. -/
theorem unregistered_used : ¬ ∀ ops : List RegistryOp, (∀ visit ∈ Machine.visits registryStep ({},[]) ops, Usable visit.1 visit.2) →
    ∀ visit ∈ Machine.visits registryStep ({},[]) ops, KeepsIndexes visit.1 visit.2 := by
  intro all
  have usable : ∀ visit ∈ Machine.visits registryStep ({},[])
      [.create 1 ⟨⟨7,0⟩,none⟩,.register 1 (some 1) none none,.unregister 1], Usable visit.1 visit.2 := by
    simp only [Machine.visits,List.forall_mem_cons,Usable]
    exact ⟨trivial,by decide +kernel,trivial,List.forall_mem_nil _⟩
  have last := (List.forall_mem_cons.mp (List.forall_mem_cons.mp (List.forall_mem_cons.mp (all _ usable)).2).2).1
  have wrong := last.used (.overread 1) (by decide +kernel)
  cases wrong

end Libnmo.Format
