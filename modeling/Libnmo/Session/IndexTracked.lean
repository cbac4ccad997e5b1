import Libnmo.Session.IndexLoops
import Libnmo.Session.RepositoryNames

/-! The object index over a whole run of the repository it is attached to. It stays
what a rebuild would make of it as long as every object that is stored gets into each
table, and one that is refused into none. A clear takes the tables away for good. -/
namespace Libnmo.Session
open Core Format Lib

variable {State : Type}

/-- The index with its tables rebuilt from the objects that are stored. -/
def rebuilt (flags : UInt32) (s : Attached State) : ObjectIndex State :=
  ((objectIndexRebuild (fun _ => {}) s.repo.objects flags).run s.index).2

/-- For every class, name and GUID the index has the objects that it would have if it were rebuilt. -/
def IndexTracks (flags : UInt32) (s : Attached State) : Prop :=
  ∀ kind key, (s.index.objectsAt kind key).Perm ((rebuilt flags s).objectsAt kind key)

/-- A repository with objects, to which an index is attached that was built for the flags. -/
def attachIndex (earlier : List (RepositoryOp State)) (flags : UInt32) : Attached State :=
  let repo := Machine.run repositoryStep {} earlier
  ⟨repo,((objectIndexBuild (fun _ => {}) repo.objects flags).run {}).2⟩

/-- An object that comes to the index gets into every table of the flags that has a key for it, or
is refused before it got into one. -/
def IndexClean (flags : UInt32) (s : Attached State) : AttachedOp State → Prop
  | .add obj calls entries => Reaches { calls with index := none } s.repo (s.repo.numbered obj) →
      ∀ kind, flags &&& kind.flag ≠ 0 → kind.keyOf obj ≠ none →
        (kind ∈ s.index.addedTo entries obj indexKinds ↔ ¬ s.index.refuses entries obj indexKinds)
  | .remove _ | .clear => True

/-- The flags of the index name its tables, of which it has no others than it was built with. -/
structure IndexHolds (flags : UInt32) (s : Attached State) : Prop where
  repo : RepositoryHolds s.repo
  agrees : s.index.Agrees
  within : ∀ kind, s.index.table kind ≠ none → flags &&& kind.flag ≠ 0

section Rebuilding

theorem objectIndexBuild_kinds (calls : IndexKind → BuildCalls) (objects : List (Object State)) (flags : UInt32) :
    objectIndexBuild calls objects flags = eachKind flags (fun kind => buildIndex kind (calls kind) objects) indexKinds := by
  rw [objectIndexBuild]
  refine congrArg (eachKind flags · indexKinds) (funext fun kind => ?_)
  cases kind <;> rfl

theorem objectIndexBuild_run (objects : List (Object State)) (flags : UInt32) (index : ObjectIndex State) :
    ∃ after, (objectIndexBuild (fun _ => {}) objects flags).run index = (.ok (),after) ∧ ∀ kind, after.table kind =
      if flags &&& kind.flag ≠ 0 then some (builtTable kind objects) else index.table kind := by
  have own (kind : IndexKind) (index : ObjectIndex State) : ∃ after, (buildIndex kind {} objects).run index = (.ok (),after) ∧
      after.table = Function.update index.table kind (some (builtTable kind objects)) := by
    refine ⟨_,buildIndex_granted objects index,?_⟩
    rfl
  obtain ⟨after,ran,tables⟩ := eachKind_own (fun kind _ => some (builtTable kind objects)) own indexKinds_distinct index
  refine ⟨after,objectIndexBuild_kinds _ objects flags ▸ ran,fun kind => (tables kind).trans ?_⟩
  exact if_congr (and_iff_right (mem_indexKinds kind)) rfl rfl

theorem clearTable_run (kind : IndexKind) (index : ObjectIndex State) :
    ∃ after, (clearTable kind).run index = (.ok (),after) ∧ after.table = Function.update index.table kind none := by
  refine ⟨_,rfl,?_⟩
  cases held : index.table kind with
  | none =>
    rw [← held,Function.update_eq_self]
    simp only [held]
  | some table =>
    simp only [held]
    rfl

theorem objectIndexClear_run (flags : UInt32) (index : ObjectIndex State) :
    ∃ after, (objectIndexClear flags).run index = (.ok (),after) ∧ ∀ kind, after.table kind =
      if flags &&& kind.flag ≠ 0 then none else index.table kind := by
  obtain ⟨after,ran,tables⟩ := eachKind_own (fun _ _ => none) clearTable_run indexKinds_distinct index
  refine ⟨after,ran,fun kind => (tables kind).trans ?_⟩
  exact if_congr (and_iff_right (mem_indexKinds kind)) rfl rfl

theorem objectsAt_built {index : ObjectIndex State} {kind : IndexKind} {objects : List (Object State)}
    (table : index.table kind = some (builtTable kind objects)) (key : IndexKey) :
    index.objectsAt kind key = objectsOf kind key objects := by
  rw [objectsAt_some table,objectsIn_built]

theorem objectsAt_rebuilt (flags : UInt32) (s : Attached State) (kind : IndexKind) (key : IndexKey) :
    (rebuilt flags s).objectsAt kind key =
      if flags &&& kind.flag ≠ 0 then objectsOf kind key s.repo.objects else s.index.objectsAt kind key := by
  obtain ⟨cleared,first,tables⟩ := objectIndexClear_run flags s.index
  obtain ⟨last,second,built⟩ := objectIndexBuild_run s.repo.objects flags cleared
  have ran : rebuilt flags s = last := by rw [rebuilt,objectIndexRebuild,Action.bind_ok _ first,second]
  rw [ran]
  have table := built kind
  split
  · rename_i flagged
    rw [if_pos flagged] at table
    exact objectsAt_built table key
  · rename_i unflagged
    rw [if_neg unflagged,tables kind,if_neg unflagged] at table
    exact objectsAt_congr table key

theorem indexTracks_iff {flags : UInt32} {s : Attached State} : IndexTracks flags s ↔
    ∀ kind, flags &&& kind.flag ≠ 0 → ∀ key, (s.index.objectsAt kind key).Perm (objectsOf kind key s.repo.objects) := by
  constructor
  · intro tracks kind flagged key
    have same := tracks kind key
    rwa [objectsAt_rebuilt,if_pos flagged] at same
  · intro same kind key
    rw [objectsAt_rebuilt]
    split
    · rename_i flagged
      exact same kind flagged key
    · exact List.Perm.refl _

end Rebuilding

section Removing

theorem objectIndexRemove_run {repo : ObjectRepository State} {id : UInt32} {obj : Object State}
    (found : repo.find id = some obj) (flags : UInt32) {index : ObjectIndex State}
    (flagged : ∀ kind, index.table kind ≠ none → flags &&& kind.flag ≠ 0) :
    ∃ after, (objectIndexRemoveObject repo id flags).run index = (.ok (),after) ∧
      (∀ kind, after.table kind ≠ none ↔ index.table kind ≠ none) ∧
      ∀ kind key, after.objectsAt kind key = if kind.keyOf obj = some key
        then (index.objectsAt kind key).eraseP fun obj => obj.id = id else index.objectsAt kind key := by
  have own (kind : IndexKind) (index : ObjectIndex State) :
      ∃ after, (onTable kind (leaveObject kind id obj)).run index = (.ok (),after) ∧ after.table =
        Function.update index.table kind ((index.table kind).map fun table => ((leaveObject kind id obj).run table).2) := by
    cases held : index.table kind with
    | none =>
      refine ⟨index,by simp only [onTable,held],?_⟩
      rw [Option.map_none,← held,Function.update_eq_self]
    | some table =>
      obtain ⟨after,ran,_⟩ := leaveObject_run kind id obj table
      refine ⟨index.setTable kind (some after),by simp only [onTable,held,ran],?_⟩
      rw [Option.map_some,ran]
      rfl
  obtain ⟨after,ran,tables⟩ := eachKind_own
    (fun kind table => table.map fun table => ((leaveObject kind id obj).run table).2) own indexKinds_distinct index
  refine ⟨after,?_,fun kind => ?_,fun kind key => ?_⟩
  · rw [objectIndexRemoveObject,found]
    exact ran
  · rw [tables kind]
    split
    · rw [ne_eq,Option.map_eq_none_iff]
    · rfl
  · cases held : index.table kind with
    | none =>
      have missing : after.table kind = none := by
        rw [tables kind,held]
        split <;> rfl
      rw [objectsAt_none missing,objectsAt_none held]
      split <;> rfl
    | some table =>
      obtain ⟨left,leaves,objects⟩ := leaveObject_run kind id obj table
      have there : after.table kind = some left := by
        rw [tables kind,if_pos ⟨mem_indexKinds kind,flagged kind (held ▸ Option.some_ne_none table)⟩,held,Option.map_some,leaves]
      rw [objectsAt_some there,objectsAt_some held]
      exact objects key

/-- Of the objects of a key the one that is removed leaves. -/
theorem objectsOf_removed {objects : List (Object State)} {id : UInt32} {obj : Object State}
    (found : objects.find? (fun obj => obj.id = id) = some obj) (kind : IndexKind) (key : IndexKey) :
    objectsOf kind key (objects.eraseP fun obj => obj.id = id) = if kind.keyOf obj = some key
      then (objectsOf kind key objects).eraseP fun obj => obj.id = id else objectsOf kind key objects := by
  rw [objectsOf,filter_eraseP _ found]
  exact if_congr decide_eq_true_iff rfl rfl

end Removing

section Steps
variable {flags : UInt32} {s : Attached State}

theorem keyOf_numbered (kind : IndexKind) (repo : ObjectRepository State) (obj : Object State) :
    kind.keyOf (repo.numbered obj) = kind.keyOf obj := by
  rw [ObjectRepository.numbered]
  split <;> cases kind <;> rfl

theorem entryAt_numbered (index : ObjectIndex State) (entries : IndexKind → EntryCalls) (repo : ObjectRepository State)
    (obj : Object State) (kind : IndexKind) :
    index.entryAt entries (repo.numbered obj) kind = index.entryAt entries obj kind := by
  simp only [ObjectIndex.entryAt,entryOf,keyOf_numbered]

theorem addedTo_numbered (index : ObjectIndex State) (entries : IndexKind → EntryCalls) (repo : ObjectRepository State)
    (obj : Object State) (kinds : List IndexKind) :
    index.addedTo entries (repo.numbered obj) kinds = index.addedTo entries obj kinds := by
  induction kinds with
  | nil => rfl
  | cons kind rest ih => rw [ObjectIndex.addedTo,ObjectIndex.addedTo,entryAt_numbered,ih]

theorem refuses_numbered (index : ObjectIndex State) (entries : IndexKind → EntryCalls) (repo : ObjectRepository State)
    (obj : Object State) (kinds : List IndexKind) :
    index.refuses entries (repo.numbered obj) kinds = index.refuses entries obj kinds := by
  simp only [ObjectIndex.refuses,entryAt_numbered]

theorem eachKind_zero (action : IndexKind → Run (ObjectIndex State) Unit) (kinds : List IndexKind)
    (index : ObjectIndex State) : (eachKind 0 action kinds).run index = (.ok (),index) := by
  induction kinds with
  | nil => rfl
  | cons kind rest ih =>
    rw [eachKind,if_neg fun flagged => flagged UInt32.zero_and,Action.bind_ok _ (Action.pure_apply ..),ih]

/-- Without a table the repository does not tell the index, which would do nothing. -/
theorem notify_run (action : IndexKind → Run (ObjectIndex State) Unit) (index : ObjectIndex State) :
    (Action.read ObjectIndex.activeIndexes >>= fun flags =>
      if flags = 0 then pure () else eachKind flags action indexKinds).run index =
    (eachKind index.activeIndexes action indexKinds).run index := by
  rw [Action.bind_ok _ (Action.read_apply ..)]
  split
  · rename_i none
    rw [none,eachKind_zero,Action.pure_apply]
  · rfl

theorem notifyAdd_run {index : ObjectIndex State} (agrees : index.Agrees) (entries : IndexKind → EntryCalls)
    (obj : Object State) : ∃ after, (objectRepositoryNotifyAdd entries obj).run index =
      (if index.refuses entries obj indexKinds then .error (.error .nomem "") else .ok (),after) ∧
    index.SameTables after ∧ ∀ kind key, after.objectsAt kind key = index.objectsAt kind key ++
      if kind ∈ index.addedTo entries obj indexKinds ∧ kind.keyOf obj = some key then [obj] else [] := by
  have flagged (kind : IndexKind) (held : index.table kind ≠ none) : index.activeIndexes &&& kind.flag ≠ 0 :=
    (agrees kind).mpr held
  obtain ⟨after,ran,same,_,objects⟩ := eachKind_enter entries obj indexKinds_distinct flagged
  exact ⟨after,(notify_run _ index).trans ran,same,objects⟩

theorem notifyRemove_run {repo : ObjectRepository State} {id : UInt32} {obj : Object State}
    (found : repo.find id = some obj) {index : ObjectIndex State} (agrees : index.Agrees) :
    ∃ after, (objectRepositoryNotifyRemove repo id).run index = (.ok (),after) ∧ after.Agrees ∧
      (∀ kind, after.table kind ≠ none ↔ index.table kind ≠ none) ∧
      ∀ kind key, after.objectsAt kind key = if kind.keyOf obj = some key
        then (index.objectsAt kind key).eraseP fun obj => obj.id = id else index.objectsAt kind key := by
  have flagged (kind : IndexKind) (held : index.table kind ≠ none) : index.activeIndexes &&& kind.flag ≠ 0 :=
    (agrees kind).mpr held
  obtain ⟨after,ran,present,objects⟩ := objectIndexRemove_run found index.activeIndexes flagged
  rw [objectIndexRemoveObject,found] at ran
  have told : (objectRepositoryNotifyRemove repo id).run index = (.ok (),after) := by
    rw [objectRepositoryNotifyRemove]
    simp only [objectIndexRemoveObject,found]
    exact (notify_run _ index).trans ran
  have kept : ((eachKind index.activeIndexes _ indexKinds).run index).2.Agrees :=
    eachKind_keeps (fun kind => agrees_onTable kind (leaveObject kind id obj)) indexKinds index agrees
  rw [ran] at kept
  exact ⟨after,told,kept,present,objects⟩

/-- What an add does to the repository and to its index. -/
theorem addAttached_cases (holds : IndexHolds flags s) (obj : Object State) (calls : AddCalls)
    (entries : IndexKind → EntryCalls) :
    (¬ Reaches { calls with index := none } s.repo (s.repo.numbered obj) ∧
      attachedStep s (.add obj calls entries) = { s with repo := s.repo.counted obj }) ∨
    (Reaches { calls with index := none } s.repo (s.repo.numbered obj) ∧ ∃ repo index,
      attachedStep s (.add obj calls entries) = ⟨repo,index⟩ ∧ RepositoryHolds repo ∧
      (repo.objects = s.repo.objects ++
        if ¬ s.index.refuses entries obj indexKinds then [s.repo.numbered obj] else []) ∧
      s.index.SameTables index ∧ ∀ kind key, index.objectsAt kind key = s.index.objectsAt kind key ++
        if kind ∈ s.index.addedTo entries obj indexKinds ∧ kind.keyOf obj = some key
          then [s.repo.numbered obj] else []) := by
  rcases add_cases holds.repo.counter obj { calls with index := none } with
    ⟨early,stop,ran⟩ | ⟨_,refused,_⟩ | ⟨reaches,_,ran⟩
  · refine .inl ⟨early,?_⟩
    simp only [attachedStep,addAttached,ran]
  · exact absurd rfl refused
  · have absent : (s.repo.counted obj).contains (s.repo.numbered obj).id = false := (reaches_counted.mpr reaches).absent
    have stored := holds_store (holds_counted holds.repo obj) absent
    obtain ⟨index,told,same,objects⟩ := notifyAdd_run holds.agrees entries (s.repo.numbered obj)
    rw [refuses_numbered] at told
    simp only [addedTo_numbered,keyOf_numbered] at objects
    refine .inr ⟨reaches,?_⟩
    cases refuses : s.index.refuses entries obj indexKinds with
    | false =>
      rw [refuses] at told
      refine ⟨_,index,by simp only [attachedStep,addAttached,ran,told]; rfl,stored,?_,same,objects⟩
      rw [if_pos Bool.false_ne_true]
      exact congrArg (· ++ [_]) counted_objects
    | true =>
      rw [refuses] at told
      refine ⟨_,index,by simp only [attachedStep,addAttached,ran,told]; rfl,?_,?_,same,objects⟩
      · exact (drop_store absent).symm ▸ holds_leaveName (holds_counted holds.repo obj) _
      · rw [if_neg fun goes => goes rfl,List.append_nil]
        exact (congrArg ObjectRepository.objects (drop_store absent)).trans counted_objects

/-- What a removal does to the repository and to its index. -/
theorem removeAttached_cases (holds : IndexHolds flags s) (id : UInt32) :
    attachedStep s (.remove id) = s ∨ ∃ obj index, s.repo.find id = some obj ∧ attachedStep s (.remove id) =
        ⟨(s.repo.leaveName (cString obj.name)).drop id,index⟩ ∧ index.Agrees ∧
      (∀ kind, index.table kind ≠ none ↔ s.index.table kind ≠ none) ∧
      ∀ kind key, index.objectsAt kind key = if kind.keyOf obj = some key
        then (s.index.objectsAt kind key).eraseP fun obj => obj.id = id else s.index.objectsAt kind key := by
  cases found : s.repo.find id with
  | none =>
    refine .inl ?_
    simp only [attachedStep,removeAttached,found]
  | some obj =>
    obtain ⟨index,told,agrees,present,objects⟩ := notifyRemove_run found holds.agrees
    refine .inr ⟨obj,index,rfl,?_,agrees,present,objects⟩
    have removed : ((objectRepositoryRemove none id).run s.repo).2 = (s.repo.leaveName (cString obj.name)).drop id := by
      rw [objectRepositoryRemove,Action.bind_ok _ (Action.read_apply ..)]
      simp only [found]
      rfl
    simp only [attachedStep,removeAttached,found,told,removed]

theorem clearAttached_run (holds : IndexHolds flags s) : ∃ index, attachedStep s .clear = ⟨{},index⟩ ∧
    index.Agrees ∧ ∀ kind, index.table kind = none := by
  obtain ⟨index,ran,tables⟩ := objectIndexClear_run indexBuildAll s.index
  have kept : ((objectIndexClear indexBuildAll).run s.index).2.Agrees :=
    eachKind_keeps agrees_clearTable indexKinds s.index holds.agrees
  rw [ran] at kept
  refine ⟨index,by simp only [attachedStep,clearAttached,ran]; rfl,kept,fun kind => (tables kind).trans ?_⟩
  exact if_pos (by cases kind <;> decide)

theorem indexHolds_step (s : Attached State) (op : AttachedOp State) (holds : IndexHolds flags s) :
    IndexHolds flags (attachedStep s op) := by
  cases op with
  | add obj calls entries =>
    rcases addAttached_cases holds obj calls entries with ⟨_,after⟩ | ⟨_,repo,index,after,stored,_,same,_⟩
    · rw [after]
      exact ⟨holds_counted holds.repo obj,holds.agrees,holds.within⟩
    · rw [after]
      exact ⟨stored,same.agrees holds.agrees,fun kind held => holds.within kind ((same.present kind).mp held)⟩
  | remove id =>
    rcases removeAttached_cases holds id with same | ⟨obj,index,found,after,agrees,present,_⟩
    · rwa [same]
    · obtain ⟨member,rfl⟩ := find_some found
      rw [after]
      exact ⟨holds_removed holds.repo member,agrees,fun kind held => holds.within kind ((present kind).mp held)⟩
  | clear =>
    obtain ⟨index,after,agrees,missing⟩ := clearAttached_run holds
    rw [after]
    exact ⟨holds_created,agrees,fun kind held => absurd (missing kind) held⟩

theorem tracks_add (holds : IndexHolds flags s) (tracks : IndexTracks flags s) (obj : Object State) (calls : AddCalls)
    (entries : IndexKind → EntryCalls) : IndexTracks flags (attachedStep s (.add obj calls entries)) ↔
      IndexClean flags s (.add obj calls entries) := by
  rw [IndexClean]
  rw [indexTracks_iff] at tracks ⊢
  rcases addAttached_cases holds obj calls entries with ⟨early,after⟩ | ⟨reaches,repo,index,after,_,stored,_,objects⟩
  · rw [after]
    refine iff_of_true (fun kind flagged key => ?_) fun reaches => absurd reaches early
    have same : (s.repo.counted obj).objects = s.repo.objects := counted_objects
    rw [same]
    exact tracks kind flagged key
  · rw [after]
    have grown (kind : IndexKind) (key : IndexKey) : objectsOf kind key repo.objects = objectsOf kind key s.repo.objects ++
        if ¬ s.index.refuses entries obj indexKinds ∧ kind.keyOf obj = some key then [s.repo.numbered obj] else [] := by
      rw [stored,objectsOf,List.filter_append]
      refine congrArg _ ?_
      by_cases goes : ¬ s.index.refuses entries obj indexKinds
      · rw [if_pos goes,List.filter_cons,List.filter_nil,keyOf_numbered]
        exact if_congr (decide_eq_true_iff.trans (and_iff_right goes).symm) rfl rfl
      · rw [if_neg goes,if_neg fun both => goes both.1,List.filter_nil]
    have each (kind : IndexKind) (flagged : flags &&& kind.flag ≠ 0) (key : IndexKey) :
        (index.objectsAt kind key).Perm (objectsOf kind key repo.objects) ↔
          (kind ∈ s.index.addedTo entries obj indexKinds ∧ kind.keyOf obj = some key ↔
            ¬ s.index.refuses entries obj indexKinds ∧ kind.keyOf obj = some key) := by
      rw [objects,grown]
      exact perm_added_iff (tracks kind flagged key) _ _ _
    constructor
    · intro still _ kind flagged keyed
      obtain ⟨key,named⟩ := Option.ne_none_iff_exists'.mp keyed
      have both := (each kind flagged key).mp (still kind flagged key)
      rwa [and_iff_left named,and_iff_left named] at both
    · intro clean kind flagged key
      refine (each kind flagged key).mpr (and_congr_left fun named => ?_)
      exact clean reaches kind flagged (named ▸ Option.some_ne_none key)

theorem tracks_remove (holds : IndexHolds flags s) (tracks : IndexTracks flags s) (id : UInt32) :
    IndexTracks flags (attachedStep s (.remove id)) := by
  rcases removeAttached_cases holds id with same | ⟨obj,index,found,after,_,_,objects⟩
  · rwa [same]
  · rw [indexTracks_iff] at tracks
    rw [after,indexTracks_iff]
    intro kind flagged key
    have left : (objectsOf kind key (removeKey Object.id s.repo.objects id)).Perm
        (objectsOf kind key (s.repo.objects.eraseP fun obj => obj.id = id)) :=
      (removeKey_perm Object.id s.repo.objects id).filter _
    rw [objectsOf_removed found] at left
    have once : (objectsOf kind key s.repo.objects).Pairwise fun one other => one.id ≠ other.id :=
      (List.pairwise_map.mp holds.repo.distinct).filter _
    refine List.Perm.trans ?_ left.symm
    rw [objects]
    split
    · refine (tracks kind flagged key).eraseP _ ((tracks kind flagged key).symm.pairwise once ?_ |>.imp ?_)
      · exact fun different => Ne.symm different
      · intro one other different first second
        exact different ((of_decide_eq_true first).trans (of_decide_eq_true second).symm)
    · exact tracks kind flagged key

theorem tracks_step (s : Attached State) (op : AttachedOp State) (holds : IndexHolds flags s)
    (tracks : IndexTracks flags s) : IndexTracks flags (attachedStep s op) ↔ IndexClean flags s op := by
  cases op with
  | add obj calls entries => exact tracks_add holds tracks obj calls entries
  | remove id => exact iff_of_true (tracks_remove holds tracks id) trivial
  | clear =>
    refine iff_of_true ?_ trivial
    obtain ⟨index,after,_,missing⟩ := clearAttached_run holds
    rw [after,indexTracks_iff]
    intro kind _ key
    rw [objectsAt_none (missing kind)]
    exact List.Perm.refl _

theorem repositoryHolds_run (ops : List (RepositoryOp State)) : RepositoryHolds (Machine.run repositoryStep {} ops) :=
  Machine.run_keeps holds_step holds_created ops

theorem holds_attached (earlier : List (RepositoryOp State)) (flags : UInt32) :
    IndexHolds flags (attachIndex earlier flags) ∧ IndexTracks flags (attachIndex earlier flags) := by
  have repo := repositoryHolds_run earlier
  obtain ⟨index,ran,tables⟩ := objectIndexBuild_run (Machine.run repositoryStep {} earlier).objects flags {}
  have start : attachIndex earlier flags = ⟨Machine.run repositoryStep {} earlier,index⟩ := by
    rw [attachIndex,ran]
  have none : ObjectIndex.Agrees ({} : ObjectIndex State) :=
    fun kind => iff_of_false (fun flagged => flagged UInt32.zero_and) fun held => held rfl
  have kept : ((eachKind flags _ indexKinds).run {}).2.Agrees :=
    eachKind_keeps (fun kind => agrees_buildIndex kind (Machine.run repositoryStep {} earlier).objects) indexKinds {} none
  rw [objectIndexBuild_kinds] at ran
  rw [ran] at kept
  rw [start]
  refine ⟨⟨repo,kept,fun kind held => ?_⟩,indexTracks_iff.mpr fun kind flagged key => ?_⟩
  · intro unflagged
    rw [tables kind,if_neg (not_not.mpr unflagged)] at held
    exact held rfl
  · rw [objectsAt_built ((tables kind).trans (if_pos flagged))]

end Steps

/-- The index is what a rebuild would make of it after every operation of a run just when no object that
comes to it gets into some of its tables only. -/
theorem index_tracks_iff (earlier : List (RepositoryOp State)) (flags : UInt32) (ops : List (AttachedOp State)) :
    (∀ done, done <+: ops → IndexTracks flags (Machine.run attachedStep (attachIndex earlier flags) done)) ↔
      ∀ visit ∈ Machine.visits attachedStep (attachIndex earlier flags) ops, IndexClean flags visit.1 visit.2 := by
  obtain ⟨holds,tracks⟩ := holds_attached earlier flags
  exact Machine.reached_iff indexHolds_step tracks_step holds tracks ops

/-- Once the repository was cleared an object that is added is in no table. -/
theorem cleared_untracked : ¬ ∀ ops : List (AttachedOp Unit),
    IndexTracks indexBuildAll (Machine.run attachedStep (attachIndex [] indexBuildAll) ops) := by
  intro tracks
  have after := (tracks [.clear,.add { id := 1, classId := 5 } {} fun _ => {}] .byClass (.classId 5)).length_eq
  cases after

end Libnmo.Session
