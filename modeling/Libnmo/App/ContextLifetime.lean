import Libnmo.Core.Error
import Libnmo.Lib.Machine
import Mathlib.Logic.Function.Basic

/-! The parts of a context: they are made one after another, and what was made is
destroyed again when one cannot be had. -/
namespace Libnmo.App
open Core Lib

inductive ContextPart
  | context | arena | schemaRegistry | managerRegistry | pluginManager
  deriving DecidableEq

inductive PartEvent
  | made (part : ContextPart)
  | gone (part : ContextPart)

def makePart (available : ContextPart → Bool) (part : ContextPart) : Run (List PartEvent) Bool where
  run log := if available part then (.ok true,log ++ [.made part]) else (.ok false,log)

def destroyPart (part : ContextPart) : Run (List PartEvent) Unit := Action.update fun log => log ++ [.gone part]

/-- What an error path of `nmo_context_create` destroys, written out there at each failure. -/
def destroyParts : List ContextPart → Run (List PartEvent) Bool
  | [] => pure false
  | part :: rest => do
    destroyPart part
    destroyParts rest

def contextCreate (available : ContextPart → Bool) : Run (List PartEvent) Bool := do
  let context ← makePart available .context
  (if context then do
    let arena ← makePart available .arena
    (if arena then do
      let schemaRegistry ← makePart available .schemaRegistry
      (if schemaRegistry then do
        let managerRegistry ← makePart available .managerRegistry
        (if managerRegistry then do
          let pluginManager ← makePart available .pluginManager
          (if pluginManager then pure true
          else destroyParts [.managerRegistry,.schemaRegistry,.arena,.context])
        else destroyParts [.schemaRegistry,.arena,.context])
      else destroyParts [.arena,.context])
    else destroyParts [.context])
  else pure false)

/-- What the last release destroys, in this order. -/
def releasedParts : List ContextPart := [.pluginManager,.managerRegistry,.schemaRegistry,.arena,.context]

end Libnmo.App

/-! The references to a context. A call is a step of its thread, but for the last release,
whose thread destroys the parts in further steps, with steps of other threads between.
Who calls holds a reference, as users of the context do. -/
namespace Libnmo.App
open Core Lib

structure ContextState where
  refcount : Int32 := 1
  /-- The references, by the threads that hold them. -/
  holders : List Nat
  /-- What a thread still has to destroy. -/
  cleaning : Nat → List ContextPart := fun _ => []
  destroyed : List ContextPart := []
  /-- Accesses to a context that is gone. -/
  faults : Nat := 0

namespace ContextState

def touch (s : ContextState) : ContextState :=
  if .context ∈ s.destroyed then { s with faults := s.faults + 1 } else s

def contextRetain (s : ContextState) (thread : Nat) : ContextState :=
  { s.touch with refcount := s.refcount + 1, holders := thread :: s.holders }

def contextRelease (s : ContextState) (thread : Nat) : ContextState :=
  let oldRefcount := s.refcount
  { s.touch with
    refcount := s.refcount - 1
    holders := s.holders.erase thread
    cleaning := if oldRefcount = 1 then Function.update s.cleaning thread releasedParts else s.cleaning }

def destroyFirst (s : ContextState) (thread : Nat) (part : ContextPart) (rest : List ContextPart) : ContextState :=
  { s.touch with
    destroyed := s.destroyed ++ [part]
    cleaning := Function.update s.cleaning thread rest }

def destroyNext (s : ContextState) (thread : Nat) : ContextState :=
  match s.cleaning thread with
  | [] => s
  | part :: rest => s.destroyFirst thread part rest

/-- A thread calls with a reference of its own, and not from within a release. -/
def Calls (s : ContextState) (thread : Nat) : Prop := thread ∈ s.holders ∧ s.cleaning thread = []

instance (s : ContextState) (thread : Nat) : Decidable (s.Calls thread) := inferInstanceAs (Decidable (_ ∧ _))

end ContextState

/-- The calls; a reference may be handed to another thread; `get` stands for the functions that read the context. -/
inductive ContextCall
  | retain (thread : Nat)
  | release (thread : Nat)
  | get (thread : Nat)
  | hand (thread other : Nat)
  | destroy (thread : Nat)

def contextStep (s : ContextState) : ContextCall → ContextState
  | .retain thread => if s.Calls thread then s.contextRetain thread else s
  | .release thread => if s.Calls thread then s.contextRelease thread else s
  | .get thread => if s.Calls thread then s.touch else s
  | .hand thread other => if s.Calls thread then { s with holders := other :: s.holders.erase thread } else s
  | .destroy thread => s.destroyNext thread

/-- The first thread has created the context. -/
def newContext : ContextState := { holders := [0] }

def contextAfter (calls : List ContextCall) : ContextState := Machine.run contextStep newContext calls

end Libnmo.App

/-! While there are references nothing is destroyed, and without any the parts are destroyed
by one thread, each once and in order. The count says whether there are references as
long as it does not come round to one with others left. -/
namespace Libnmo.App
open Core Lib

theorem destroyParts_run (parts : List ContextPart) (log : List PartEvent) :
    (destroyParts parts).run log = (.ok false,log ++ parts.map PartEvent.gone) := by
  induction parts generalizing log with
  | nil => simp [destroyParts]
  | cons part rest ih =>
    rw [destroyParts,destroyPart,Action.bind_ok _ (Action.update_apply _ _),ih]
    simp

theorem makePart_yes {available : ContextPart → Bool} {part : ContextPart} (has : available part = true) (log : List PartEvent) :
    (makePart available part).run log = (.ok true,log ++ [.made part]) := if_pos has

theorem makePart_no {available : ContextPart → Bool} {part : ContextPart} (lacks : available part = false) (log : List PartEvent) :
    (makePart available part).run log = (.ok false,log) := if_neg (by simp [lacks])

/-- Either all parts are there that a release destroys, or those that were made have been destroyed, the last first. -/
def PartsBalanced (created : Bool) (log : List PartEvent) : Prop :=
  if created then log = releasedParts.reverse.map PartEvent.made
  else ∃ parts : List ContextPart, log = parts.map PartEvent.made ++ parts.reverse.map PartEvent.gone

theorem contextCreate_balanced (available : ContextPart → Bool) :
    ∃ created log, (contextCreate available).run [] = (.ok created,log) ∧ PartsBalanced created log := by
  unfold contextCreate
  cases context : available .context with
  | false =>
    rw [Action.bind_ok _ (makePart_no context _)]
    exact ⟨false,[],rfl,[],rfl⟩
  | true =>
  rw [Action.bind_ok _ (makePart_yes context _),if_pos rfl]
  cases arena : available .arena with
  | false =>
    rw [Action.bind_ok _ (makePart_no arena _),if_neg Bool.false_ne_true,destroyParts_run]
    exact ⟨false,_,rfl,[.context],rfl⟩
  | true =>
  rw [Action.bind_ok _ (makePart_yes arena _),if_pos rfl]
  cases schemaRegistry : available .schemaRegistry with
  | false =>
    rw [Action.bind_ok _ (makePart_no schemaRegistry _),if_neg Bool.false_ne_true,destroyParts_run]
    exact ⟨false,_,rfl,[.context,.arena],rfl⟩
  | true =>
  rw [Action.bind_ok _ (makePart_yes schemaRegistry _),if_pos rfl]
  cases managerRegistry : available .managerRegistry with
  | false =>
    rw [Action.bind_ok _ (makePart_no managerRegistry _),if_neg Bool.false_ne_true,destroyParts_run]
    exact ⟨false,_,rfl,[.context,.arena,.schemaRegistry],rfl⟩
  | true =>
  rw [Action.bind_ok _ (makePart_yes managerRegistry _),if_pos rfl]
  cases pluginManager : available .pluginManager with
  | false =>
    rw [Action.bind_ok _ (makePart_no pluginManager _),if_neg Bool.false_ne_true,destroyParts_run]
    exact ⟨false,_,rfl,[.context,.arena,.schemaRegistry,.managerRegistry],rfl⟩
  | true =>
    rw [Action.bind_ok _ (makePart_yes pluginManager _),if_pos rfl]
    exact ⟨true,_,rfl,rfl⟩

/-- The count is that of the references, in 32 bits. -/
def ContextState.Counted (s : ContextState) : Prop := s.refcount = Int32.ofNat s.holders.length

structure ContextState.Sound (s : ContextState) : Prop where
  alive : s.holders ≠ [] → s.destroyed = [] ∧ ∀ thread, s.cleaning thread = []
  ending : s.holders = [] → ∃ thread, s.destroyed ++ s.cleaning thread = releasedParts ∧
    ∀ other, other ≠ thread → s.cleaning other = []
  faultless : s.faults = 0

/-- A release that finds a count of one is the last. -/
def ContextState.InCount (s : ContextState) : ContextCall → Prop
  | .release thread => s.Calls thread → s.holders.length % 2 ^ 32 = 1 → s.holders.length = 1
  | _ => True

section Steps
variable {s : ContextState} (thread : Nat)

@[simp] theorem touch_refcount : s.touch.refcount = s.refcount := by
  unfold ContextState.touch
  split <;> rfl

@[simp] theorem touch_holders : s.touch.holders = s.holders := by
  unfold ContextState.touch
  split <;> rfl

@[simp] theorem touch_cleaning : s.touch.cleaning = s.cleaning := by
  unfold ContextState.touch
  split <;> rfl

@[simp] theorem touch_destroyed : s.touch.destroyed = s.destroyed := by
  unfold ContextState.touch
  split <;> rfl

theorem touch_there (there : ContextPart.context ∉ s.destroyed) : s.touch = s := if_neg there

@[simp] theorem release_holders : (s.contextRelease thread).holders = s.holders.erase thread := rfl

@[simp] theorem release_destroyed : (s.contextRelease thread).destroyed = s.destroyed := touch_destroyed

theorem counted_one : Int32.ofNat s.holders.length = 1 ↔ s.holders.length % 2 ^ 32 = 1 := by
  rw [← Int32.toBitVec_inj]
  simp [← BitVec.toNat_inj]

theorem length_erased (holds : thread ∈ s.holders) : (s.holders.erase thread).length + 1 = s.holders.length := by
  rw [List.length_erase_of_mem holds]
  have some := List.length_pos_of_mem holds
  omega

/-- What a step does: a call by a thread that may make it, the next part of a release, or nothing. -/
inductive ContextState.Does (s : ContextState) : ContextCall → ContextState → Prop
  | idle {call : ContextCall} (quiet : ∀ thread, call = .release thread → ¬ s.Calls thread) : s.Does call s
  | retain {thread : Nat} (calls : s.Calls thread) : s.Does (.retain thread) (s.contextRetain thread)
  | release {thread : Nat} (calls : s.Calls thread) : s.Does (.release thread) (s.contextRelease thread)
  | get {thread : Nat} (calls : s.Calls thread) : s.Does (.get thread) s.touch
  | hand {thread other : Nat} (calls : s.Calls thread) :
    s.Does (.hand thread other) { s with holders := other :: s.holders.erase thread }
  | destroy {thread : Nat} {part : ContextPart} {rest : List ContextPart} (next : s.cleaning thread = part :: rest) :
    s.Does (.destroy thread) (s.destroyFirst thread part rest)

theorem contextStep_does (call : ContextCall) : s.Does call (contextStep s call) := by
  cases call with
  | retain thread =>
    rw [contextStep]
    split
    · exact .retain ‹_›
    · exact .idle (by simp)
  | release thread =>
    rw [contextStep]
    split
    · exact .release ‹_›
    · rename_i refused
      exact .idle (by simpa using refused)
  | get thread =>
    rw [contextStep]
    split
    · exact .get ‹_›
    · exact .idle (by simp)
  | hand thread other =>
    rw [contextStep]
    split
    · exact .hand ‹_›
    · exact .idle (by simp)
  | destroy thread =>
    rw [contextStep,ContextState.destroyNext]
    split
    · exact .idle (by simp)
    · exact .destroy ‹_›

theorem counted_does {call : ContextCall} {after : ContextState} (does : s.Does call after) (counted : s.Counted) :
    after.Counted := by
  unfold ContextState.Counted at counted ⊢
  cases does with
  | idle => exact counted
  | retain =>
    simp only [ContextState.contextRetain,List.length_cons,Int32.ofNat_add,counted]
    rfl
  | @release thread calls =>
    simp only [ContextState.contextRelease,counted]
    rw [← length_erased thread calls.1,Int32.ofNat_add]
    simp
  | get => simpa using counted
  | @hand thread _ calls =>
    simp only [List.length_cons,length_erased thread calls.1]
    exact counted
  | destroy => simpa [ContextState.destroyFirst] using counted

end Steps

section Laws
variable {s after : ContextState} {call : ContextCall} {thread : Nat}

theorem ContextState.Sound.there (sound : s.Sound) (calls : s.Calls thread) : s.touch = s ∧ s.destroyed = [] ∧ ∀ other, s.cleaning other = [] := by
  obtain ⟨nothing,idle⟩ := sound.alive (List.ne_nil_of_mem calls.1)
  refine ⟨touch_there ?_,nothing,idle⟩
  rw [nothing]
  exact List.not_mem_nil

theorem sound_alive (some : after.holders ≠ []) (nothing : after.destroyed = []) (idle : ∀ thread, after.cleaning thread = [])
    (faultless : after.faults = 0) : after.Sound where
  alive _ := ⟨nothing,idle⟩
  ending none := absurd none some
  faultless := faultless

/-- A release keeps the law just when a count of one means the last reference. -/
theorem sound_release_iff (counted : s.Counted) (sound : s.Sound) (calls : s.Calls thread) :
    (s.contextRelease thread).Sound ↔ (s.holders.length % 2 ^ 32 = 1 → s.holders.length = 1) := by
  obtain ⟨there,nothing,idle⟩ := sound.there calls
  have length := length_erased thread calls.1
  have last : s.refcount = 1 ↔ s.holders.length % 2 ^ 32 = 1 := by rw [counted,counted_one]
  by_cases one : s.refcount = 1
  · have started : (s.contextRelease thread).cleaning = Function.update s.cleaning thread releasedParts := if_pos one
    constructor
    · intro after _
      by_contra others
      have left : (s.contextRelease thread).holders ≠ [] := by
        intro none
        rw [release_holders] at none
        rw [none,List.length_nil] at length
        exact others length.symm
      have idle' := (after.alive left).2 thread
      rw [started,Function.update_self] at idle'
      cases idle'
    · intro only
      have none : (s.contextRelease thread).holders = [] := by
        have alone := only (last.mp one)
        rw [release_holders]
        exact List.length_eq_zero_iff.mp (by omega)
      refine ⟨fun left => absurd none left,fun _ => ⟨thread,?_,?_⟩,?_⟩
      · rw [started,Function.update_self]
        simp [nothing]
      · intro other apart
        rw [started,Function.update_of_ne apart,idle]
      · simp only [ContextState.contextRelease,there]
        exact sound.faultless
  · have kept : (s.contextRelease thread).cleaning = s.cleaning := if_neg one
    rw [last] at one
    constructor
    · intro _ counts
      exact absurd counts one
    · intro _
      apply sound_alive
      · intro none
        rw [release_holders] at none
        rw [none,List.length_nil] at length
        rw [← length] at one
        exact one rfl
      · rw [release_destroyed,nothing]
      · rw [kept]
        exact idle
      · simp only [ContextState.contextRelease,there]
        exact sound.faultless

/-- The thread of the last release destroys one part more, and the context itself is the last of them. -/
theorem sound_destroy (sound : s.Sound) {part : ContextPart} {rest : List ContextPart} (next : s.cleaning thread = part :: rest) :
    (s.destroyFirst thread part rest).Sound := by
  have none : s.holders = [] := by
    by_contra some
    have idle := (sound.alive some).2 thread
    rw [next] at idle
    cases idle
  obtain ⟨last,parts,others⟩ := sound.ending none
  have same : thread = last := by
    by_contra apart
    have idle := others thread apart
    rw [next] at idle
    cases idle
  rw [← same,next] at parts
  have there : ContextPart.context ∉ s.destroyed := by
    intro gone
    have once : (s.destroyed ++ part :: rest).Nodup := by
      rw [parts]
      decide
    have final : (s.destroyed ++ part :: rest).getLast (by simp) = .context := by
      simp only [parts]
      rfl
    rw [List.getLast_append_of_ne_nil _ (List.cons_ne_nil part rest)] at final
    have again : ContextPart.context ∈ part :: rest := by
      rw [← final]
      exact List.getLast_mem _
    exact (List.nodup_append.mp once).2.2 _ gone _ again rfl
  rw [ContextState.destroyFirst,touch_there there]
  refine ⟨fun some => absurd none some,fun _ => ⟨thread,?_,?_⟩,sound.faultless⟩
  · simpa using parts
  · intro other apart
    simp only [Function.update_of_ne apart]
    exact others other (by rwa [← same])

theorem sound_does_iff (counted : s.Counted) (sound : s.Sound) (does : s.Does call after) :
    after.Sound ↔ s.InCount call := by
  have always (kept : after.Sound) (other : ∀ thread, call = .release thread → ¬ s.Calls thread) : after.Sound ↔ s.InCount call := by
    refine ⟨fun _ => ?_,fun _ => kept⟩
    cases call with
    | release thread =>
      intro calls
      exact absurd calls (other thread rfl)
    | _ => trivial
  cases does with
  | idle quiet => exact always sound quiet
  | retain calls =>
    obtain ⟨there,nothing,idle⟩ := sound.there calls
    apply always _ (by simp)
    apply sound_alive
    · simp [ContextState.contextRetain]
    · simp [ContextState.contextRetain,nothing]
    · simp [ContextState.contextRetain,idle]
    · simp [ContextState.contextRetain,there,sound.faultless]
  | release calls =>
    rw [sound_release_iff counted sound calls]
    exact ⟨fun only _ => only,fun only => only calls⟩
  | get calls =>
    have there := (sound.there calls).1
    apply always _ (by simp)
    rwa [there]
  | hand calls =>
    obtain ⟨_,nothing,idle⟩ := sound.there calls
    apply always _ (by simp)
    exact sound_alive (by simp) nothing idle sound.faultless
  | destroy next => exact always (sound_destroy sound next) (by simp)

theorem counted_new : newContext.Counted := rfl

theorem sound_new : newContext.Sound := sound_alive (by simp [newContext]) rfl (fun _ => rfl) rfl

end Laws

/-- In a run of interleaved calls, no part is destroyed while there are references, none twice and the context last, and
the context is not used after that, just as long as no release comes to a count of one by a multiple of 2^32 others. -/
theorem context_released_iff (calls : List ContextCall) : (∀ done, done <+: calls → (contextAfter done).Sound) ↔
    ∀ visit ∈ Machine.visits contextStep newContext calls, visit.1.InCount visit.2 := by
  have kept (s : ContextState) (call : ContextCall) (counted : s.Counted) : (contextStep s call).Counted :=
    counted_does (contextStep_does call) counted
  have each (s : ContextState) (call : ContextCall) (counted : s.Counted) (sound : s.Sound) :
      (contextStep s call).Sound ↔ s.InCount call := sound_does_iff counted sound (contextStep_does call)
  exact Machine.reached_iff kept each counted_new sound_new calls

end Libnmo.App
