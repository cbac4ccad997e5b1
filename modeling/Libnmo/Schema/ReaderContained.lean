import Libnmo.Lib.Stopping
import Libnmo.Schema.ReaderProgress

/-! Where the reader stores and whether it ends, for a registered type and any words. The places it can
come to are those behind passable parts; what happens at each is decided by the types alone. -/
namespace Libnmo.Schema
open Core Format Lib Lib.Cursor

/-- A place that some words bring the reader to, with the type it reads there. -/
inductive Reached (types : Types) (root : TypeId) : TypeId × Place → Prop
  | root : Reached types root (root,⟨(types root).size,0⟩)
  | part {here part : TypeId × Place} {before after : List (TypeId × Place)} (reached : Reached types root here)
      (read : Parts types here.1 here.2 (before ++ part :: after))
      (passes : ∀ earlier ∈ before, Passable types earlier.1) : Reached types root part
  | element {here part : TypeId × Place} {before after : List (TypeId × Place)} {count : UInt32}
      (reached : Reached types root here) (read : Elements types here.1 count (before ++ part :: after))
      (passes : ∀ earlier ∈ before, Passable types earlier.1) : Reached types root part

/-- What the types have to be for the reader to stay inside and to end. -/
structure Contained (types : Types) (root : TypeId) : Prop where
  fits : ∀ here, Reached types root here → ∀ width, storedWidth (types here.1).kind = some width →
    here.2.offset.toNat + width ≤ here.2.blockSize.toNat
  typed : ∀ here, Reached types root here → (types here.1).kind = .array ∨ (types here.1).kind = .fixedArray ∨
    (types here.1).kind = .enum → (types here.1).elementType ≠ none
  unbuffered : ∀ here, Reached types root here → (types here.1).kind ≠ .binary
  ends : ∀ here, Reached types root here → Acc (fun inner outer => Leads types outer inner) here.1

def ReadStop.reported : ReadStop → Bool
  | .chunk _ => true
  | .nullElementType | .unfinished => false

def StoresInside (s : ReadState) : Prop := ∀ store ∈ s.stores, store.Inside

/-- The run has ended by itself, and all it has stored is inside. -/
def Safe {α : Type} (final : Except ReadStop α × ReadState) : Prop :=
  Ensures (fun stop => stop.reported = true) (fun _ => True) final.1 ∧ StoresInside final.2

/-- The call ends, whatever the chunk and the arena, and stores only in the struct and in the blocks it was given. -/
def ReadsInside (types : Types) (root : TypeId) : Prop :=
  ∀ addresses data spare pos, ∃ depth,
    Safe ((schemaReadStruct data spare types addresses depth root).run { pos := pos })

section Safety
variable {α β : Type} {s t : ReadState}

theorem safe_bind {first : Reader α} {next : α → Reader β} (head : Safe (first.run s))
    (tail : ∀ a t, first.run s = (.ok a,t) → StoresInside t → Safe ((next a).run t)) :
    Safe ((first >>= next).run s) := by
  rcases ran : first.run s with ⟨stop | a,t⟩
  · rw [Action.bind_error _ ran]
    rw [ran] at head
    exact head
  · rw [Action.bind_ok _ ran]
    rw [ran] at head
    exact tail a t ran head.2

/-- From stores that are inside, the action only makes such. -/
def Guarded (action : Reader α) : Prop := ∀ s, StoresInside s → Safe (action.run s)

theorem guarded_pure (a : α) : Guarded (pure a : Reader α) := fun s inside => ⟨trivial,inside⟩

theorem guarded_fail (code : ErrorCode) (message : String) : Guarded (failRead code message : Reader α) :=
  fun s inside => ⟨rfl,inside⟩

theorem guarded_bind {first : Reader α} {next : α → Reader β} (head : Guarded first)
    (tail : ∀ a, Guarded (next a)) : Guarded (first >>= next) :=
  fun s inside => safe_bind (head s inside) fun a t _ inside => tail a t inside

theorem guarded_fromChunk (action : Run Nat α) : Guarded (fromChunk action) := by
  intro s inside
  rcases ran : action.run s.pos with ⟨stop | a,next⟩
  · simp only [fromChunk,ran]
    exact ⟨rfl,inside⟩
  · rw [fromChunk_ok ran]
    exact ⟨trivial,inside⟩

theorem stores_inside {place : Place} {width : Nat} (inside : StoresInside s)
    (fits : place.offset.toNat + width ≤ place.blockSize.toNat) :
    ∀ store ∈ s.stores ++ [⟨place,width⟩], store.Inside := by
  intro store member
  rcases List.mem_append.mp member with old | new
  · exact inside store old
  · rw [List.mem_singleton.mp new]
    exact fits

theorem guarded_store {place : Place} {width : Nat} (fits : place.offset.toNat + width ≤ place.blockSize.toNat) :
    Guarded (store place width) :=
  fun s inside => ⟨trivial,stores_inside inside fits⟩

theorem guarded_storeCounted {place : Place} (pointer : UInt64) (count : UInt32)
    (fits : place.offset.toNat + 8 ≤ place.blockSize.toNat) : Guarded (storeCounted place pointer count) := by
  refine guarded_bind (guarded_store fits) fun _ => guarded_bind (guarded_store ?_) fun _ => guarded_pure _
  have bound := place.blockSize.toNat_lt
  have moved : (place.offset + 4).toNat = (place.offset.toNat + 4) % 2 ^ 64 := UInt64.toNat_add _ _
  rw [Nat.mod_eq_of_lt (by omega)] at moved
  show (place.offset + 4).toNat + 4 ≤ place.blockSize.toNat
  omega

theorem guarded_allocate (addresses : Addresses) (size : UInt64) (message : String) :
    Guarded (allocate addresses size message) := by
  intro s inside
  simp only [allocate]
  split
  · exact ⟨trivial,inside⟩
  · exact ⟨rfl,inside⟩

end Safety

section Ending
variable {data spare : List UInt32} {types : Types} {addresses : Addresses} {root : TypeId}

/-- Deep enough the reader ends at the place, safely. -/
def Ends (data spare : List UInt32) (types : Types) (addresses : Addresses) (here : TypeId × Place) (s : ReadState) : Prop :=
  ∃ depth, Safe ((readValue data spare types addresses depth here).run s)

theorem Safe.finished {α : Type} {final : Except ReadStop α × ReadState} (safe : Safe final) :
    final.1 ≠ .error .unfinished := by
  intro cut
  have ensured := safe.1
  rw [cut] at ensured
  cases ensured

theorem readValue_deeper {here : TypeId × Place} {s : ReadState} {depth deeper : Nat} (deep : depth ≤ deeper)
    (safe : Safe ((readValue data spare types addresses depth here).run s)) :
    (readValue data spare types addresses deeper here).run s =
      (readValue data spare types addresses depth here).run s :=
  steady_readStep.stable deep safe.finished

theorem each_deeper {parts : List (TypeId × Place)} {s : ReadState} {depth deeper : Nat} (deep : depth ≤ deeper)
    (safe : Safe ((Action.each (readValue data spare types addresses depth) parts).run s)) :
    (Action.each (readValue data spare types addresses deeper) parts).run s =
      (Action.each (readValue data spare types addresses depth) parts).run s := by
  obtain ⟨more,rfl⟩ := Nat.exists_eq_add_of_le deep
  exact (outlasts_each (steady_readStep.outlasts depth more) parts s).resolve_left safe.finished

/-- The parts are read one after the other, with an invariant of the parts that are behind. -/
theorem each_ends {parts : List (TypeId × Place)} (inv : List (TypeId × Place) → ReadState → Prop)
    (ends : ∀ before part after s, parts = before ++ part :: after → (∀ earlier ∈ before, Passable types earlier.1) →
      inv before s → StoresInside s → Ends data spare types addresses part s)
    (keeps : ∀ before part s t, inv before s → Progressed types data.length part.1 s t → inv (before ++ [part]) t)
    {before rest : List (TypeId × Place)} {s : ReadState} (split : parts = before ++ rest)
    (passes : ∀ earlier ∈ before, Passable types earlier.1) (holds : inv before s) (inside : StoresInside s) :
    ∃ depth, Safe ((Action.each (readValue data spare types addresses depth) rest).run s) := by
  induction rest generalizing before s with
  | nil => exact ⟨0,trivial,inside⟩
  | cons part rest ih =>
    obtain ⟨depth,safe⟩ := ends before part rest s split passes holds inside
    rcases ran : (readValue data spare types addresses depth part).run s with ⟨stop | value,t⟩
    · refine ⟨depth,?_⟩
      rw [Action.each,Action.bind_error _ ran]
      rw [ran] at safe
      exact safe
    · have progress := readValue_progress depth part s value t ran
      have further : ∀ earlier ∈ before ++ [part], Passable types earlier.1 :=
        List.forall_mem_append.mpr ⟨passes,fun earlier member => by
          rw [List.mem_singleton.mp member]
          exact progress.1⟩
      have after : StoresInside t := by
        rw [ran] at safe
        exact safe.2
      obtain ⟨depth',safe'⟩ := ih (by rw [split,List.append_assoc]; rfl) further (keeps before part s t holds progress) after
      refine ⟨max depth depth',?_⟩
      rw [Action.each,Action.bind_ok _ ((readValue_deeper (Nat.le_max_left ..) safe).trans ran)]
      refine safe_bind ?_ fun values last _ inside => ⟨trivial,inside⟩
      rw [each_deeper (Nat.le_max_right ..) safe']
      exact safe'

theorem elements_end {here : TypeId × Place} {count : UInt32} {s : ReadState} (inside : StoresInside s)
    (kind : (types here.1).kind = .array) (typed : (types here.1).elementType ≠ none)
    (fits : here.2.offset.toNat + 8 ≤ here.2.blockSize.toNat)
    (ends : ∀ parts t, Elements types here.1 count parts → t.pos = s.pos → StoresInside t →
      ∃ depth, Safe ((Action.each (readValue data spare types addresses depth) parts).run t)) :
    ∃ depth, Safe ((readElements types addresses (readValue data spare types addresses depth) here count).run s) := by
  unfold readElements
  by_cases zero : count = 0
  · refine ⟨0,?_⟩
    rw [if_pos zero]
    exact guarded_bind (guarded_storeCounted 0 0 fits) (fun _ => guarded_pure _) s inside
  obtain ⟨element,elementType⟩ := Option.ne_none_iff_exists'.mp typed
  simp only [if_neg zero,Action.bind_ok _ (elementOf_run elementType s)]
  by_cases sized : (types element).size = 0
  · refine ⟨0,?_⟩
    rw [if_pos sized]
    exact guarded_fail _ _ s inside
  simp only [if_neg sized]
  rcases ran : (allocate addresses ((types element).size * count.toUInt64) "Failed to allocate array").run s with ⟨stop | array,t⟩
  · refine ⟨0,?_⟩
    have safe := guarded_allocate addresses ((types element).size * count.toUInt64) "Failed to allocate array" s inside
    rw [Action.bind_error _ ran]
    rw [ran] at safe
    exact safe
  · obtain ⟨block,rfl⟩ := allocate_success ran
    obtain ⟨depth,safe⟩ := ends _ { s with allocations := s.allocations + 1 }
      (.mk kind elementType sized zero block) rfl inside
    refine ⟨depth,?_⟩
    rw [Action.bind_ok _ ran]
    refine safe_bind safe fun elements last _ inside => ?_
    exact guarded_bind (guarded_storeCounted array count fits) (fun pointer => guarded_pure _) last inside

/-- The words that are left decrease, or the types lead on, which they cannot do for ever. -/
theorem ends_of_contained (contained : Contained types root) (left : Nat) (type : TypeId)
    (well : Acc (fun inner outer => Leads types outer inner) type) (place : Place)
    (reached : Reached types root (type,place)) (s : ReadState) (inside : StoresInside s)
    (same : data.length - s.pos = left) : Ends data spare types addresses (type,place) s := by
  induction left using Nat.strongRecOn generalizing type place s with
  | ind left fewer =>
    induction well generalizing place s with
    | intro type _ inner =>
      have fits := contained.fits _ reached
      cases shape types type with
      | number stores =>
        obtain ⟨read,_,_,step⟩ := @step_number data spare types addresses (type,place) _ stores
        refine ⟨1,?_⟩
        rw [readValue,Action.unroll,step]
        exact guarded_bind (guarded_fromChunk _) (fun bits => guarded_bind (guarded_store
          (fits _ (storedWidth_number stores))) fun _ => guarded_pure _) s inside
      | string kind =>
        refine ⟨1,?_⟩
        rw [readValue,Action.unroll,step_string kind]
        refine guarded_bind (guarded_fromChunk _) (fun found => ?_) s inside
        unfold storeString
        split
        · exact guarded_fail _ _
        · exact guarded_bind (guarded_store (fits 8 (by rw [kind]; rfl))) fun _ => guarded_pure _
      | array kind =>
        have typed := contained.typed _ reached (.inl kind)
        have room := fits 8 (by rw [kind]; rfl)
        rcases ran : (fromChunk (chunkReadDword data)).run s with ⟨stop | count,t⟩
        · refine ⟨1,?_⟩
          have safe := guarded_fromChunk (chunkReadDword data) s inside
          rw [readValue,Action.unroll,step_array kind,Action.bind_error _ ran]
          rw [ran] at safe
          exact safe
        · obtain ⟨word,moved⟩ := fromChunk_success ran
          obtain ⟨before,on⟩ := consumes_dword _ _ _ word
          have still : StoresInside t := by
            rw [moved]
            exact inside
          obtain ⟨depth,safe⟩ := @elements_end data spare types addresses (type,place) count t still kind typed room
            fun parts u elements same inside => by
              refine each_ends (fun _ v => t.pos ≤ v.pos) (fun before part after v split passes onward inside => ?_)
                (fun before part v w onward progress => ?_) (List.nil_append parts).symm (by simp)
                (Nat.le_of_eq same.symm) inside
              · rw [split] at elements
                have there := reached.element elements passes
                exact fewer _ (by omega) part.1 (contained.ends _ there) part.2 there v inside rfl
              · rcases progress.2 with ⟨same,_⟩ | ⟨_,further⟩ <;> omega
          refine ⟨depth + 1,?_⟩
          rw [readValue,Action.unroll,step_array kind,Action.bind_ok _ ran]
          exact safe
      | binary kind => exact absurd kind (contained.unbuffered _ reached)
      | parts read =>
        obtain ⟨parts,isRead⟩ := read place
        obtain ⟨wrap,step⟩ := @step_parts data spare types addresses (type,place) _ isRead
        have all : ∃ depth, Safe ((Action.each (readValue data spare types addresses depth) parts).run s) := by
          refine each_ends (fun before v => v.pos = s.pos ∧ (∀ earlier ∈ before, Still types earlier.1) ∨
              s.pos < data.length ∧ s.pos < v.pos) (fun before part after v split passes behind inside => ?_)
            (fun before part v w behind progress => ?_) (List.nil_append parts).symm (by simp)
            (.inl ⟨rfl,by simp⟩) inside
          · rw [split] at isRead
            have there := reached.part isRead passes
            rcases behind with ⟨same,still⟩ | ⟨room,on⟩
            · exact inner part.1 ⟨place,before,part,after,isRead,still,rfl⟩ part.2 there v inside (by omega)
            · exact fewer _ (by omega) part.1 (contained.ends _ there) part.2 there v inside rfl
          · rcases behind with ⟨same,still⟩ | ⟨room,on⟩
            · rcases progress.2 with ⟨same',still'⟩ | ⟨room,on⟩
              · exact .inl ⟨same'.trans same,List.forall_mem_append.mpr ⟨still,by simpa using still'⟩⟩
              · exact .inr (by omega)
            · rcases progress.2 with ⟨same,_⟩ | ⟨_,further⟩ <;> exact .inr (by omega)
        obtain ⟨depth,safe⟩ := all
        refine ⟨depth + 1,?_⟩
        rw [readValue,Action.unroll,step]
        exact safe_bind safe fun values last _ inside => ⟨trivial,inside⟩
      | untyped kind missing => exact absurd missing (contained.typed _ reached (.inr kind))
      | unknown kind =>
        refine ⟨1,?_⟩
        rw [readValue,Action.unroll,step_unknown kind]
        exact guarded_fail _ _ s inside

theorem readsInside_of_contained (contained : Contained types root) : ReadsInside types root := by
  intro addresses data spare pos
  by_cases kind : (types root).kind = .struct
  · have cleared : StoresInside ⟨pos,0,[⟨⟨(types root).size,0⟩,(types root).size.toNat⟩]⟩ := by
      intro store member
      rw [List.mem_singleton.mp member]
      exact Nat.le_of_eq (Nat.zero_add _)
    obtain ⟨depth,safe⟩ := @ends_of_contained data spare types addresses root contained _ root
      (contained.ends _ .root) _ .root _ cleared rfl
    refine ⟨depth,?_⟩
    unfold schemaReadStruct
    rw [if_neg (not_not_intro kind)]
    exact safe
  · refine ⟨0,?_⟩
    unfold schemaReadStruct
    rw [if_pos kind]
    exact guarded_fail _ _ _ fun store member => nomatch member

end Ending

end Libnmo.Schema
