import Libnmo.Session.IndexTracked
import Libnmo.Session.ObjectRepository
import Libnmo.Session.ReferenceResolver

/-! The finish of a load: references, indexes, hooks of the managers, statistics. The
references that are resolved are those of a resolver of its own, never those of the
resolver that the session hands out. -/
namespace Libnmo.App
open Core Format Session Lib

variable {State : Type}

def finishLoadResolveReferences : UInt32 := 0x0001
def finishLoadStrictReferences : UInt32 := 0x0002
def finishLoadBuildIndexes : UInt32 := 0x0004
def finishLoadIndexClass : UInt32 := 0x0008
def finishLoadIndexName : UInt32 := 0x0010
def finishLoadIndexGuid : UInt32 := 0x0020
def finishLoadManagerPostload : UInt32 := 0x0040

structure ReferenceTotals where
  total : UInt32 := 0
  resolved : UInt32 := 0
  unresolved : UInt32 := 0
  ambiguous : UInt32 := 0

structure IndexTotals where
  classEntries : Nat := 0
  nameEntries : Nat := 0
  guidEntries : Nat := 0

structure FinishLoadingStats where
  totalObjects : Nat := 0
  flags : UInt32 := 0
  references : ReferenceTotals := {}
  indexes : IndexTotals := {}
  managerErrors : UInt32 := 0

/-- What the finish of a load sees of the session; without statistics they are not valid. -/
structure LoadedSession (State : Type) where
  repo : ObjectRepository State := {}
  referenceResolver : Option (ReferenceResolver State) := none
  objectIndex : Option (ObjectIndex State) := none
  finishStats : Option FinishLoadingStats := none

/-- `nmo_session_ensure_reference_resolver`. -/
def ensureReferenceResolver (session : LoadedSession State) : ReferenceResolver State × LoadedSession State :=
  match session.referenceResolver with
  | some resolver => (resolver,session)
  | none => ({},{ session with referenceResolver := some {} })

/-- A reference registered on the resolver of the session. -/
def registerReference (ref : ObjectRef) (session : LoadedSession State) : LoadedSession State :=
  let (resolver,session) := ensureReferenceResolver session
  { session with referenceResolver := some (resolver.registerReference ref) }

def registerReferences (refs : List ObjectRef) (session : LoadedSession State) : LoadedSession State :=
  refs.foldl (fun session ref => registerReference ref session) session

structure FinishLoadingContext (State : Type) where
  session : LoadedSession State
  resolver : Option (ReferenceResolver State) := none
  index : Option (ObjectIndex State) := none
  flags : UInt32
  stats : FinishLoadingStats := {}
  managerErrors : UInt32 := 0

def referenceTotals (stats : ReferenceStats) : ReferenceTotals where
  total := stats.totalCount
  resolved := stats.resolvedCount
  unresolved := stats.unresolvedCount
  ambiguous := stats.ambiguousCount

/-- Phase 9. -/
def resolveReferences : Run (FinishLoadingContext State) Unit := do
  let ctx ← Action.read id
  (if ctx.flags &&& finishLoadResolveReferences = 0 then pure ()
  else do
    let resolver := ReferenceResolver.resolveAll ctx.session.repo {}
    Action.update fun ctx => { ctx with resolver := some resolver }
    (if resolver.stats.totalCount = 0 then pure ()
    else do
      Action.update fun ctx => { ctx with
        stats := { ctx.stats with references := referenceTotals resolver.stats } }
      (if resolver.stats.unresolvedCount > 0 ∧ ctx.flags &&& finishLoadStrictReferences ≠ 0 then
        fail .validationFailed ""
      else pure ())))

/-- The tables to build, which are all of them unless some are named. -/
def indexFlags (flags : UInt32) : UInt32 :=
  let named := (if flags &&& finishLoadIndexClass ≠ 0 then IndexKind.byClass.flag else 0) |||
    (if flags &&& finishLoadIndexName ≠ 0 then IndexKind.byName.flag else 0) |||
    (if flags &&& finishLoadIndexGuid ≠ 0 then IndexKind.byGuid.flag else 0)
  if named = 0 then indexBuildAll else named

def tableEntries (index : ObjectIndex State) (kind : IndexKind) : Nat := ((index.table kind).map List.length).getD 0

def indexTotals (index : ObjectIndex State) : IndexTotals where
  classEntries := tableEntries index .byClass
  nameEntries := tableEntries index .byName
  guidEntries := tableEntries index .byGuid

/-- Phase 10, with every allocation granted. -/
def buildIndexes : Run (FinishLoadingContext State) Unit where
  run ctx :=
    if ctx.flags &&& finishLoadBuildIndexes = 0 then (.ok (),ctx)
    else match (objectIndexBuild (fun _ => {}) ctx.session.repo.objects (indexFlags ctx.flags)).run {} with
      | (.error stop,index) => (.error stop,{ ctx with index := some index })
      | (.ok (),index) => (.ok (),{ ctx with
          index := some index
          stats := { ctx.stats with
            indexes := indexTotals index
            totalObjects := ctx.session.repo.objects.length } })

/-- The hooks, and how many of them fail. -/
def invokePostLoads : List (Manager State) → ObjectRepository State → UInt32 × ObjectRepository State
  | [],repo => (0,repo)
  | manager :: rest,repo =>
    match manager.postLoad with
    | none => invokePostLoads rest repo
    | some hook =>
      let out := hook.run repo
      let others := invokePostLoads rest out.2
      ((match out.1 with
        | .ok () => others.1
        | .error _ => others.1 + 1),others.2)

/-- Phase 11, which reports success whatever the hooks return. -/
def managerPostload (registry : Option (List (Manager State))) : Run (FinishLoadingContext State) Unit :=
  Action.update fun ctx =>
    if ctx.flags &&& finishLoadManagerPostload = 0 then ctx
    else match registry with
      | none => ctx
      | some managers =>
        let out := invokePostLoads managers ctx.session.repo
        { ctx with managerErrors := out.1, session := { ctx.session with repo := out.2 } }

/-- Phase 12. -/
def gatherStats : Run (FinishLoadingContext State) Unit :=
  Action.update fun ctx =>
    let stats := { ctx.stats with
      flags := ctx.flags
      totalObjects := ctx.session.repo.objects.length
      managerErrors := ctx.managerErrors }
    { ctx with stats := stats, session := { ctx.session with finishStats := some stats } }

def storeIndex : Run (FinishLoadingContext State) Unit :=
  Action.update fun ctx => match ctx.index with
    | none => ctx
    | some index => { ctx with session := { ctx.session with objectIndex := some index } }

def finishLoadingPhases (registry : Option (List (Manager State))) : Run (FinishLoadingContext State) Unit := do
  resolveReferences
  buildIndexes
  storeIndex
  managerPostload registry
  gatherStats

/-- `nmo_session_finish_loading`. -/
def finishLoading (registry : Option (List (Manager State))) (flags : UInt32) : Run (LoadedSession State) Unit where
  run session :=
    let out := (finishLoadingPhases registry).run { session := session, flags := flags }
    (out.1,out.2.session)

section Registered
variable {session : LoadedSession State}

/-- The references that were registered on the resolver of the session. -/
def registered (session : LoadedSession State) : List ObjectRef :=
  match session.referenceResolver with
  | none => []
  | some resolver => resolver.settled ++ resolver.pending

theorem registered_one (ref : ObjectRef) (session : LoadedSession State) :
    registered (registerReference ref session) = registered session ++ [ref] := by
  unfold registerReference ensureReferenceResolver registered
  cases session.referenceResolver with
  | none => rfl
  | some resolver => exact (List.append_assoc ..).symm

theorem registered_each (refs : List ObjectRef) (session : LoadedSession State) :
    registered (registerReferences refs session) = registered session ++ refs := by
  induction refs generalizing session with
  | nil => exact (List.append_nil _).symm
  | cons ref rest ih =>
    have others := ih (registerReference ref session)
    rw [registered_one,List.append_assoc] at others
    exact others

end Registered

section Phases
variable (ctx : FinishLoadingContext State)

/-- The resolver of phase 9 has nothing to resolve. -/
theorem resolveReferences_run : ∃ resolver, resolveReferences.run ctx = (.ok (),{ ctx with resolver := resolver }) := by
  rw [resolveReferences,Action.bind_ok _ (Action.read_apply ..),id_eq]
  split
  · exact ⟨ctx.resolver,rfl⟩
  · exact ⟨some (ReferenceResolver.resolveAll ctx.session.repo {}),rfl⟩

theorem buildIndexes_run : ∃ index stats, buildIndexes.run ctx = (.ok (),{ ctx with index := index, stats := stats }) ∧
    stats.references = ctx.stats.references := by
  unfold buildIndexes
  dsimp only
  split
  · exact ⟨ctx.index,ctx.stats,rfl,rfl⟩
  · obtain ⟨index,built,_⟩ := objectIndexBuild_run ctx.session.repo.objects (indexFlags ctx.flags) ({} : ObjectIndex State)
    rw [built]
    exact ⟨_,_,rfl,rfl⟩

theorem storeIndex_run : ∃ index, storeIndex.run ctx =
    (.ok (),{ ctx with session := { ctx.session with objectIndex := index } }) := by
  unfold storeIndex
  rw [Action.update_apply]
  split
  · exact ⟨ctx.session.objectIndex,rfl⟩
  · rename_i index _
    exact ⟨some index,rfl⟩

theorem managerPostload_run (registry : Option (List (Manager State))) : ∃ errors repo,
    (managerPostload registry).run ctx =
      (.ok (),{ ctx with managerErrors := errors, session := { ctx.session with repo := repo } }) := by
  unfold managerPostload
  rw [Action.update_apply]
  split
  · exact ⟨ctx.managerErrors,ctx.session.repo,rfl⟩
  · cases registry with
    | none => exact ⟨ctx.managerErrors,ctx.session.repo,rfl⟩
    | some managers => exact ⟨_,_,rfl⟩

/-- The finish succeeds, leaves the resolver of the session alone and stores statistics without a reference. -/
theorem finishLoading_run (registry : Option (List (Manager State))) (flags : UInt32) (session : LoadedSession State) :
    ∃ after stats, (finishLoading registry flags).run session = (.ok (),after) ∧
      after.referenceResolver = session.referenceResolver ∧ after.finishStats = some stats ∧ stats.references = {} := by
  obtain ⟨resolver,first⟩ := resolveReferences_run ({ session := session, flags := flags } : FinishLoadingContext State)
  obtain ⟨index,stats,second,same⟩ := buildIndexes_run
    ({ session := session, flags := flags, resolver := resolver } : FinishLoadingContext State)
  obtain ⟨stored,third⟩ := storeIndex_run
    ({ session := session, flags := flags, resolver := resolver, index := index, stats := stats } :
      FinishLoadingContext State)
  obtain ⟨errors,repo,fourth⟩ := managerPostload_run
    ({ session := { session with objectIndex := stored }, flags := flags, resolver := resolver, index := index,
       stats := stats } : FinishLoadingContext State) registry
  unfold finishLoading finishLoadingPhases
  dsimp only
  rw [Action.bind_ok _ first,Action.bind_ok _ second,Action.bind_ok _ third,
    Action.bind_ok _ fourth]
  exact ⟨_,_,rfl,rfl,rfl,same⟩

end Phases

section Accounting

def resolvedIn (repo : ObjectRepository State) (ref : ObjectRef) : Bool :=
  match ref.resolvedObject with
  | some id => repo.contains id
  | none => false

/-- What the resolver of the session finds for the reference. -/
def findsObject (session : LoadedSession State) (ref : ObjectRef) : Option UInt32 :=
  ((ensureReferenceResolver session).1.resolve session.repo ref).1

/-- Each registered reference is resolved or counted, and the strict finish reports each one that nothing is
found for. -/
structure Accounted (registry : Option (List (Manager State))) (flags : UInt32) (session : LoadedSession State) :
    Prop where
  counted : ∀ after, (finishLoading registry flags).run session = (.ok (),after) → ∃ stats,
    after.finishStats = some stats ∧ stats.references.total.toNat = (registered session).length ∧
    stats.references.total = stats.references.resolved + stats.references.unresolved ∧
    ((registered after).filter fun ref => !resolvedIn session.repo ref).length = stats.references.unresolved.toNat
  strict : flags &&& finishLoadStrictReferences ≠ 0 → (∃ ref ∈ registered session, findsObject session ref = none) →
    ∃ stop after, (finishLoading registry flags).run session = (.error stop,after)

/-- References are accounted for only where none was ever registered on the resolver of the session. -/
theorem accounted_iff (registry : Option (List (Manager State))) (flags : UInt32) (refs : List ObjectRef)
    (session : LoadedSession State) :
    Accounted registry flags (registerReferences refs session) ↔ registered session = [] ∧ refs = [] := by
  rw [← List.append_eq_nil_iff,← registered_each]
  generalize registerReferences refs session = session
  obtain ⟨after,stats,run,kept,stored,none⟩ := finishLoading_run registry flags session
  constructor
  · intro accounted
    obtain ⟨found,same,total,_⟩ := accounted.counted after run
    obtain rfl := Option.some.inj (same.symm.trans stored)
    rw [none] at total
    exact List.length_eq_zero_iff.mp total.symm
  · intro empty
    refine ⟨?_,?_⟩
    · intro final ran
      rw [run] at ran
      obtain ⟨_,rfl⟩ := Prod.mk.inj ran
      have nobody : registered after = [] := by
        rw [registered,kept]
        exact empty
      refine ⟨stats,stored,?_,?_,?_⟩
      · rw [none,empty]
        rfl
      · rw [none]
        rfl
      · rw [none,nobody]
        rfl
    · rintro _ ⟨ref,member,_⟩
      rw [empty] at member
      cases member

/-- A reference to an object that nobody has: the strict finish of the load succeeds. -/
theorem missingObject_accepted : ¬ ∀ refs : List ObjectRef,
    Accounted none (finishLoadResolveReferences ||| finishLoadStrictReferences)
      (registerReferences refs ({} : LoadedSession Unit)) := by
  intro accounted
  have missing := accounted [{ classId := 1, name := some [65] }]
  obtain ⟨after,_,run,_⟩ := finishLoading_run none (finishLoadResolveReferences ||| finishLoadStrictReferences)
    (registerReferences [{ classId := 1, name := some [65] }] ({} : LoadedSession Unit))
  obtain ⟨stop,other,failed⟩ := missing.strict (by decide) ⟨_,List.mem_singleton_self _,rfl⟩
  rw [run] at failed
  cases failed

end Accounting

end Libnmo.App
