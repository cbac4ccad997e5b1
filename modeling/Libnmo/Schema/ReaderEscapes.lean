import Mathlib.Logic.Relation
import Libnmo.Schema.ReaderContained

/-! Words on which the reader does not stay inside, or does not end. They bring it to a place that its type
spoils, and what has gone wrong there is not mended by what is read after it. -/
namespace Libnmo.Schema
open Core Format Lib Lib.Cursor Lib.LittleEndian

def Outside (s : ReadState) : Prop := ∃ store ∈ s.stores, ¬ store.Inside

section Keeping
variable {α β : Type} {s t : ReadState}

theorem keeps_fromChunk (action : Run Nat α) : Action.Keeps Outside (fromChunk action) := fun _ outside => outside

theorem keeps_store (place : Place) (width : Nat) : Action.Keeps Outside (store place width) := by
  rintro s ⟨store,member,outside⟩
  exact ⟨store,List.mem_append_left _ member,outside⟩

theorem keeps_storeCounted (place : Place) (pointer : UInt64) (count : UInt32) :
    Action.Keeps Outside (storeCounted place pointer count) :=
  Action.keeps_bind (keeps_store place 8) fun _ =>
    Action.keeps_bind (keeps_store (place.plus 4) 4) fun _ => Action.keeps_pure _

theorem keeps_elementOf (type : TypeDescriptor) : Action.Keeps Outside (elementOf type) := by
  unfold elementOf
  split
  · exact Action.keeps_pure _
  · exact Action.keeps_stop _

theorem keeps_allocate (addresses : Addresses) (size : UInt64) (message : String) :
    Action.Keeps Outside (allocate addresses size message) := by
  intro s outside
  simp only [allocate]
  split <;> exact outside

variable {data spare : List UInt32} {types : Types} {addresses : Addresses}

theorem keeps_elements {readValue : TypeId × Place → Reader Value} (inner : ∀ part, Action.Keeps Outside (readValue part))
    (here : TypeId × Place) (count : UInt32) :
    Action.Keeps Outside (readElements types addresses readValue here count) := by
  unfold readElements
  split
  · exact Action.keeps_bind (keeps_storeCounted _ _ _) fun _ => Action.keeps_pure _
  · refine Action.keeps_bind (keeps_elementOf _) fun element => ?_
    split
    · exact Action.keeps_stop _
    · refine Action.keeps_bind (keeps_allocate _ _ _) fun array => ?_
      refine Action.keeps_bind (Action.keeps_each inner _) fun elements => ?_
      exact Action.keeps_bind (keeps_storeCounted _ _ _) fun pointer => Action.keeps_pure _

theorem keeps_bytes (place : Place) (size : UInt32) :
    Action.Keeps Outside (readBytesOf data spare addresses place size) := by
  unfold readBytesOf
  split
  · exact Action.keeps_bind (keeps_storeCounted _ _ _) fun _ => Action.keeps_pure _
  · refine Action.keeps_bind (keeps_allocate _ _ _) fun block => Action.keeps_bind (keeps_fromChunk _) fun bytes => ?_
    refine Action.keeps_bind (keeps_store _ _) fun _ => ?_
    exact Action.keeps_bind (keeps_storeCounted _ _ _) fun pointer => Action.keeps_pure _

theorem keeps_step {readValue : TypeId × Place → Reader Value} (inner : ∀ part, Action.Keeps Outside (readValue part))
    (here : TypeId × Place) : Action.Keeps Outside (readStep data spare types addresses readValue here) := by
  cases shape types here.1 with
  | number stores =>
    obtain ⟨read,_,_,step⟩ := step_number data spare addresses stores
    rw [step]
    exact Action.keeps_bind (keeps_fromChunk _) fun bits =>
      Action.keeps_bind (keeps_store _ _) fun _ => Action.keeps_pure _
  | string kind =>
    rw [step_string kind]
    refine Action.keeps_bind (keeps_fromChunk _) fun found => ?_
    unfold storeString
    split
    · exact Action.keeps_stop _
    · exact Action.keeps_bind (keeps_store _ _) fun _ => Action.keeps_pure _
  | array kind =>
    rw [step_array kind]
    exact Action.keeps_bind (keeps_fromChunk _) (keeps_elements inner here)
  | binary kind =>
    rw [step_binary kind]
    exact Action.keeps_bind (keeps_fromChunk _) (keeps_bytes here.2)
  | parts read =>
    obtain ⟨parts,isRead⟩ := read here.2
    obtain ⟨wrap,step⟩ := step_parts data spare addresses isRead
    rw [step]
    exact Action.keeps_bind (Action.keeps_each inner parts) fun values => Action.keeps_pure _
  | untyped kind missing =>
    intro s outside
    rw [step_untyped kind missing]
    exact outside
  | unknown kind =>
    rw [step_unknown kind]
    exact Action.keeps_stop _

theorem keeps_readValue (depth : Nat) (here : TypeId × Place) :
    Action.Keeps Outside (readValue data spare types addresses depth here) :=
  Action.keeps_unroll (fun _ inner => keeps_step inner) depth here

theorem wrong_of_outside {final : Except ReadStop α × ReadState} (outside : Outside final.2) : ¬ Safe final := by
  obtain ⟨store,member,outside⟩ := outside
  exact fun safe => outside (safe.2 store member)

theorem wrong_bind {first : Reader α} {next : α → Reader β} (head : ¬ Safe (first.run s))
    (tail : ∀ a, Action.Keeps Outside (next a)) : ¬ Safe ((first >>= next).run s) := by
  rcases ran : first.run s with ⟨stop | a,t⟩
  · rw [Action.bind_error _ ran]
    rw [ran] at head
    exact head
  · rw [Action.bind_ok _ ran]
    rw [ran] at head
    apply wrong_of_outside
    apply tail a t
    by_contra inside
    refine head ⟨trivial,fun store member => ?_⟩
    by_contra outside
    exact inside ⟨store,member,outside⟩

/-- What goes wrong at a part is wrong with the whole. -/
theorem each_wrong {body : TypeId × Place → Reader Value} (keeps : ∀ part, Action.Keeps Outside (body part))
    {before after : List (TypeId × Place)} {part : TypeId × Place} {values : List Value}
    (ran : (Action.each body before).run s = (.ok values,t)) (wrong : ¬ Safe ((body part).run t)) :
    ¬ Safe ((Action.each body (before ++ part :: after)).run s) := by
  induction before generalizing s values with
  | nil =>
    obtain ⟨_,rfl⟩ := Prod.mk.inj ran
    exact wrong_bind wrong fun value =>
      Action.keeps_bind (Action.keeps_each keeps after) fun values => Action.keeps_pure _
  | cons earlier before ih =>
    obtain ⟨value,between,others,first,later⟩ := Action.each_success ran
    rw [List.cons_append,Action.each,Action.bind_ok _ first]
    exact wrong_bind (ih later) fun values => Action.keeps_pure _

end Keeping

section Exposing
variable {types : Types} {root : TypeId} {here : TypeId × Place}

/-- Some words bring the reader from the root to the place, in a state where what goes wrong goes wrong for good. -/
def Exposed (types : Types) (root : TypeId) (here : TypeId × Place) : Prop :=
  ∃ words depth least, ∀ deeper, least ≤ deeper → ∀ data spare s rest, Ahead data s.pos (words ++ rest) →
    ∃ t, Ahead data t.pos rest ∧ (¬ Safe ((readValue data spare types generous deeper here).run t) →
      ¬ Safe ((readValue data spare types generous (deeper + depth) (root,⟨(types root).size,0⟩)).run s))

theorem carries_before {before : List (TypeId × Place)} (passes : ∀ earlier ∈ before, Passable types earlier.1) :
    ∃ words depth, CarriesEach types (before.map Prod.fst) words depth := by
  apply carries_each
  intro type member
  obtain ⟨earlier,isEarlier,rfl⟩ := List.mem_map.mp member
  exact (passes earlier isEarlier).carries

/-- One step further: what the words before it take the reader past, and one level of depth. -/
theorem Exposed.further {part : TypeId × Place} (exposed : Exposed types root here) (words : List UInt32) (least : Nat)
    (passes : ∀ deeper, least ≤ deeper → ∀ data spare s rest, Ahead data s.pos (words ++ rest) →
      ∃ t, Ahead data t.pos rest ∧ (¬ Safe ((readValue data spare types generous deeper part).run t) →
        ¬ Safe ((readValue data spare types generous (deeper + 1) here).run s))) : Exposed types root part := by
  obtain ⟨words',depth,least',reaches⟩ := exposed
  refine ⟨words' ++ words,depth + 1,max least least',fun deeper deep data spare s rest ahead => ?_⟩
  have deep' := Nat.le_trans (Nat.le_max_right ..) deep
  rw [List.append_assoc] at ahead
  obtain ⟨t,ahead,outer⟩ := reaches (deeper + 1) (Nat.le_succ_of_le deep') data spare s _ ahead
  obtain ⟨u,ahead,inner⟩ := passes deeper (Nat.le_trans (Nat.le_max_left ..) deep) data spare t rest ahead
  refine ⟨u,ahead,fun wrong => ?_⟩
  rw [Nat.add_comm depth 1,← Nat.add_assoc]
  exact outer (inner wrong)

theorem Reached.exposed (reached : Reached types root here) : Exposed types root here := by
  induction reached with
  | root => exact ⟨[],0,0,fun deeper _ data spare s rest ahead => ⟨s,ahead,id⟩⟩
  | @part here part before after _ read passes ih =>
    obtain ⟨words,least,carries⟩ := carries_before passes
    refine ih.further words least fun deeper deep data spare s rest ahead => ?_
    obtain ⟨values,t,ran,ahead⟩ := carries deeper deep before rfl data spare s rest ahead
    refine ⟨t,ahead,fun wrong => ?_⟩
    obtain ⟨wrap,step⟩ := step_parts data spare generous read
    rw [readValue,Action.unroll,step]
    exact wrong_bind (each_wrong (keeps_readValue deeper) ran wrong) fun values => Action.keeps_pure _
  | @element here part before after count _ read passes ih =>
    obtain ⟨words,least,carries⟩ := carries_before passes
    refine ih.further (count :: words) least fun deeper deep data spare s rest ahead => ?_
    obtain ⟨next,counted,ahead⟩ := reads_chunkReadDword count s.pos _ ahead
    obtain ⟨values,t,ran,ahead⟩ := carries deeper deep before rfl data spare ⟨next,s.allocations + 1,s.stores⟩ rest ahead
    refine ⟨t,ahead,fun wrong => ?_⟩
    have whole : ¬ Safe ((Action.each _ (before ++ part :: after)).run ⟨next,s.allocations + 1,s.stores⟩) :=
      each_wrong (keeps_readValue deeper) ran wrong
    generalize before ++ part :: after = parts at read whole
    cases read with
    | mk kind elementType sized counts block =>
      rw [readValue,Action.unroll,step_array kind,Action.bind_ok _ (fromChunk_ok counted),readElements,if_neg counts,
        Action.bind_ok _ (elementOf_run elementType _),if_neg sized,Action.bind_ok _ (allocate_generous block _ _)]
      exact wrong_bind whole fun elements =>
        Action.keeps_bind (keeps_storeCounted _ _ _) fun pointer => Action.keeps_pure _

end Exposing

section Spoiling
variable {data spare : List UInt32} {types : Types} {addresses : Addresses} {root : TypeId} {here : TypeId × Place}

/-- On these words, and however deep, the read at the place goes wrong. -/
def Spoiled (types : Types) (here : TypeId × Place) : Prop :=
  ∃ words least, ∀ depth, least ≤ depth → ∀ data spare s rest, Ahead data s.pos (words ++ rest) →
    ¬ Safe ((readValue data spare types generous depth here).run s)

theorem not_readsInside (kind : (types root).kind = .struct) (reached : Reached types root here)
    (spoiled : Spoiled types here) : ¬ ReadsInside types root := by
  intro inside
  obtain ⟨words,depth,least,reaches⟩ := reached.exposed
  obtain ⟨words',least',goesWrong⟩ := spoiled
  obtain ⟨ended,safe⟩ := inside generous (words ++ words') [] 0
  unfold schemaReadStruct at safe
  rw [if_neg (not_not_intro kind),Action.bind_ok _ (store_run ..)] at safe
  have front : Ahead (words ++ words') 0 (words ++ (words' ++ [])) := by
    rw [List.append_nil]
    exact ahead_start _
  obtain ⟨t,ahead,outer⟩ := reaches (max ended (max least least')) (by omega) (words ++ words') []
    ⟨0,0,[⟨⟨(types root).size,0⟩,(types root).size.toNat⟩]⟩ _ front
  have deep : ended ≤ max ended (max least least') + depth := by omega
  exact outer (goesWrong _ (by omega) _ _ t _ ahead) ((congrArg Safe (readValue_deeper deep safe)).mpr safe)

theorem elements_stored {readValue : TypeId × Place → Reader Value} {count : UInt32} {value : Value} {s t : ReadState}
    (ok : (readElements types addresses readValue here count).run s = (.ok value,t)) : ⟨here.2,8⟩ ∈ t.stores := by
  rw [readElements] at ok
  split at ok
  · obtain ⟨_,rfl⟩ := Prod.mk.inj ok
    simp
  · obtain ⟨element,_,_,sized⟩ := Action.bind_success ok
    split at sized
    · cases sized
    · obtain ⟨array,_,_,filled⟩ := Action.bind_success sized
      obtain ⟨elements,_,_,stored⟩ := Action.bind_success filled
      obtain ⟨_,rfl⟩ := Prod.mk.inj stored
      simp

theorem bytes_stored {place : Place} {size : UInt32} {value : Value} {s t : ReadState}
    (ok : (readBytesOf data spare addresses place size).run s = (.ok value,t)) : ⟨place,8⟩ ∈ t.stores := by
  rw [readBytesOf] at ok
  split at ok
  · obtain ⟨_,rfl⟩ := Prod.mk.inj ok
    simp
  · obtain ⟨block,_,_,filled⟩ := Action.bind_success ok
    obtain ⟨bytes,_,_,stored⟩ := Action.bind_success filled
    obtain ⟨_,rfl⟩ := Prod.mk.inj stored
    simp

theorem step_stored {readValue : TypeId × Place → Reader Value} {width : Nat} {value : Value} {s t : ReadState}
    (stores : storedWidth (types here.1).kind = some width)
    (ok : (readStep data spare types addresses readValue here).run s = (.ok value,t)) :
    ⟨here.2,width⟩ ∈ t.stores := by
  cases shape types here.1 with
  | number stores' =>
    obtain rfl := Option.some.inj ((storedWidth_number stores').symm.trans stores)
    obtain ⟨read,_,_,step⟩ := step_number data spare addresses stores'
    rw [step] at ok
    obtain ⟨bits,_,_,stored⟩ := Action.bind_success ok
    obtain ⟨_,rfl⟩ := Prod.mk.inj stored
    simp
  | string kind =>
    rw [kind] at stores
    cases stores
    rw [step_string kind] at ok
    obtain ⟨⟨str,length⟩,_,_,stored⟩ := Action.bind_success ok
    cases str with
    | none => cases stored
    | some chars =>
      obtain ⟨_,rfl⟩ := Prod.mk.inj stored
      simp
  | array kind =>
    rw [kind] at stores
    cases stores
    rw [step_array kind] at ok
    obtain ⟨count,_,_,stored⟩ := Action.bind_success ok
    exact elements_stored stored
  | binary kind =>
    rw [kind] at stores
    cases stores
    rw [step_binary kind] at ok
    obtain ⟨size,_,_,stored⟩ := Action.bind_success ok
    exact bytes_stored stored
  | parts read =>
    obtain ⟨parts,isRead⟩ := read here.2
    rw [isRead.unstored] at stores
    cases stores
  | untyped kind missing => rcases kind with kind | kind <;> rw [kind] at stores <;> cases stores
  | unknown kind => rcases kind with kind | kind | kind <;> rw [kind] at stores <;> cases stores

theorem spoiled_misfit {width : Nat} (stores : storedWidth (types here.1).kind = some width)
    (misfit : ¬ here.2.offset.toNat + width ≤ here.2.blockSize.toNat) : Spoiled types here := by
  obtain ⟨words,least,carries⟩ := (Passable.stored stores).carries
  refine ⟨words,least + 1,fun depth deep data spare s rest ahead => ?_⟩
  obtain ⟨value,t,ran,_⟩ := carries depth (Nat.le_of_succ_le deep) here.2 data spare s rest ahead
  obtain ⟨below,rfl⟩ := Nat.exists_eq_add_of_le' deep
  rw [ran]
  exact wrong_of_outside ⟨_,step_stored stores ran,misfit⟩

theorem spoiled_untyped (kind : (types here.1).kind = .fixedArray ∨ (types here.1).kind = .enum)
    (missing : (types here.1).elementType = none) : Spoiled types here := by
  refine ⟨[],1,fun depth deep data spare s rest ahead safe => ?_⟩
  obtain ⟨below,rfl⟩ := Nat.exists_eq_add_of_le' deep
  rw [readValue,Action.unroll,step_untyped kind missing] at safe
  cases safe.1

theorem spoiled_untypedArray (kind : (types here.1).kind = .array) (missing : (types here.1).elementType = none) :
    Spoiled types here := by
  refine ⟨[1],1,fun depth deep data spare s rest ahead safe => ?_⟩
  obtain ⟨below,rfl⟩ := Nat.exists_eq_add_of_le' deep
  obtain ⟨next,counted,_⟩ := reads_chunkReadDword 1 s.pos rest ahead
  rw [readValue,Action.unroll,step_array kind,Action.bind_ok _ (fromChunk_ok counted),readElements,
    if_neg (by decide),elementOf,missing] at safe
  cases safe.1

/-- A binary of one byte gets a block of one byte, and a pointer is stored there. -/
theorem spoiled_binary (kind : (types here.1).kind = .binary) : Spoiled types here := by
  refine ⟨[1,0],1,fun depth deep data spare s rest ahead safe => ?_⟩
  obtain ⟨below,rfl⟩ := Nat.exists_eq_add_of_le' deep
  obtain ⟨next,sized,ahead'⟩ := reads_chunkReadDword 1 s.pos _ ahead
  have packs : Packs [] ([] : List UInt8) := ⟨rfl,rfl⟩
  obtain ⟨last,bytes,_⟩ := @reads_chunkReadBuffer data spare _ _ packs (by decide) next _ ahead'
  rw [readValue,Action.unroll,step_binary kind,Action.bind_ok _ (fromChunk_ok sized),readBytesOf,
    if_neg (by decide),Action.bind_ok _ (allocate_generous (by decide) _ _),Action.bind_ok _ (fromChunk_ok bytes),
    Action.bind_ok _ (store_run ..),Action.bind_ok _ (storeCounted_run ..)] at safe
  have outside := safe.2 ⟨⟨1,0⟩,8⟩ (by simp)
  revert outside
  unfold Store.Inside
  decide

theorem each_cut {body : TypeId × Place → Reader Value} {before after : List (TypeId × Place)} {part : TypeId × Place}
    {s : ReadState} (cut : ((body part).run s).1 = .error .unfinished) (each : ∀ earlier ∈ before,
      ((body earlier).run s).1 = .error .unfinished ∨ ∃ value, (body earlier).run s = (.ok value,s)) :
    ((Action.each body (before ++ part :: after)).run s).1 = .error .unfinished := by
  induction before with
  | nil => exact cut_bind cut
  | cons earlier before ih =>
    obtain ⟨head,tail⟩ := List.forall_mem_cons.mp each
    rw [List.cons_append,Action.each]
    rcases head with cut | ⟨value,ran⟩
    · exact cut_bind cut
    · rw [Action.bind_ok _ ran]
      exact cut_bind (ih tail)

theorem still_each {body : TypeId × Place → Reader Value} {parts : List (TypeId × Place)} {s : ReadState}
    (each : ∀ part ∈ parts, ((body part).run s).1 = .error .unfinished ∨ ∃ value, (body part).run s = (.ok value,s)) :
    ((Action.each body parts).run s).1 = .error .unfinished ∨
      ∃ values, (Action.each body parts).run s = (.ok values,s) := by
  induction parts with
  | nil => exact .inr ⟨[],rfl⟩
  | cons part rest ih =>
    obtain ⟨head,tail⟩ := List.forall_mem_cons.mp each
    rw [Action.each]
    rcases head with cut | ⟨value,ran⟩
    · exact .inl (cut_bind cut)
    · rw [Action.bind_ok _ ran]
      rcases ih tail with cut | ⟨values,later⟩
      · exact .inl (cut_bind cut)
      · exact .inr ⟨value :: values,by rw [Action.bind_ok _ later]; rfl⟩

/-- What is still changes nothing. -/
theorem still_run {type : TypeId} (still : Still types type) (depth : Nat) (place : Place) (s : ReadState) :
    ((readValue data spare types addresses depth (type,place)).run s).1 = .error .unfinished ∨
      ∃ value, (readValue data spare types addresses depth (type,place)).run s = (.ok value,s) := by
  induction still generalizing depth place with
  | @parts type elsewhere parts read _ ih =>
    cases depth with
    | zero => exact .inl rfl
    | succ depth =>
      obtain ⟨parts',isRead,same⟩ := read.moved place
      obtain ⟨wrap,step⟩ := @step_parts data spare types addresses (type,place) _ isRead
      rw [readValue,Action.unroll,step]
      have each : ∀ part ∈ parts', ((readValue data spare types addresses depth part).run s).1 = .error .unfinished ∨
          ∃ value, (readValue data spare types addresses depth part).run s = (.ok value,s) := by
        intro part member
        obtain ⟨part',member',equal⟩ := List.mem_map.mp (same ▸ List.mem_map_of_mem member)
        have inner := ih part' member' depth part.2
        rwa [equal] at inner
      rcases still_each each with cut | ⟨values,ran⟩
      · exact .inl (cut_bind cut)
      · exact .inr ⟨wrap values,Action.bind_ok _ ran⟩

/-- A type that leads on for ever is never got through. -/
theorem never_ends {type : TypeId} (stuck : ¬ Acc (fun inner outer => Leads types outer inner) type) (depth : Nat)
    (place : Place) (s : ReadState) :
    ((readValue data spare types addresses depth (type,place)).run s).1 = .error .unfinished := by
  induction depth generalizing type place s with
  | zero => rfl
  | succ depth ih =>
    obtain ⟨inner,leads,stuck'⟩ : ∃ inner, Leads types type inner ∧
        ¬ Acc (fun inner outer => Leads types outer inner) inner := by
      by_contra none
      exact stuck ⟨_,fun inner leads => by_contra fun stuck' => none ⟨inner,leads,stuck'⟩⟩
    obtain ⟨elsewhere,before,part,after,read,still,rfl⟩ := leads
    obtain ⟨parts',isRead,same⟩ := read.moved place
    rw [List.map_append,List.map_cons] at same
    obtain ⟨before',rest',rfl,front,back⟩ := List.map_eq_append_iff.mp same
    obtain ⟨part',after',rfl,equal,_⟩ := List.map_eq_cons_iff.mp back
    obtain ⟨wrap,step⟩ := @step_parts data spare types addresses (type,place) _ isRead
    rw [readValue,Action.unroll,step]
    refine cut_bind (each_cut (ih (equal ▸ stuck') part'.2 s) fun earlier member => ?_)
    obtain ⟨earlier',member',same⟩ := List.mem_map.mp (front ▸ List.mem_map_of_mem member)
    exact still_run (same ▸ still earlier' member') depth earlier.2 s

end Spoiling

section Verified
variable {types : Types} {root : TypeId}

theorem contained_of_readsInside (kind : (types root).kind = .struct) (inside : ReadsInside types root) :
    Contained types root where
  fits here reached width stores := by
    by_contra misfit
    exact not_readsInside kind reached (spoiled_misfit stores misfit) inside
  typed here reached composite missing := by
    apply not_readsInside kind reached _ inside
    rcases composite with isArray | others
    · exact spoiled_untypedArray isArray missing
    · exact spoiled_untyped others missing
  unbuffered here reached isBinary := not_readsInside kind reached (spoiled_binary isBinary) inside
  ends here reached := by
    by_contra stuck
    refine not_readsInside kind reached ⟨[],0,fun depth _ data spare s rest _ safe => ?_⟩ inside
    exact safe.finished (never_ends stuck depth here.2 s)

/-- The type is a struct of a registry that has passed its check. -/
structure Registered (types : Types) (registry : List TypeId) (root : TypeId) : Prop where
  accepted : schemaRegistryVerify types registry = .ok ()
  member : root ∈ registry
  kind : (types root).kind = .struct

theorem verify_each {registry : List TypeId} :
    schemaRegistryVerify types registry = .ok () ↔ ∀ type ∈ registry, verifyCallback types type = .ok () := by
  unfold schemaRegistryVerify
  induction registry with
  | nil => exact iff_of_true rfl fun type none => absurd none List.not_mem_nil
  | cons first rest ih =>
    rw [List.forall_mem_cons,← ih]
    constructor
    · intro accepted
      obtain ⟨_,passed,accepted⟩ := bind_result accepted
      exact ⟨passed,accepted⟩
    · rintro ⟨passed,accepted⟩
      change (verifyCallback types first >>= fun _ => rest.forM (verifyCallback types)) = .ok ()
      rw [passed]
      exact accepted

/-- A struct with a field that is a struct, as the check walks them. -/
def StructField (types : Types) (outer inner : TypeId) : Prop :=
  (types outer).kind = .struct ∧ (types inner).kind = .struct ∧ ∃ field ∈ (types outer).fields, field.type = inner

/-- So many structs stand in one another below the type. -/
def Nests (types : Types) : Nat → TypeId → Prop
  | 0,_ => True
  | levels + 1,outer => ∃ inner, StructField types outer inner ∧ Nests types levels inner

/-- What leads to a struct that is in itself nests without end. -/
theorem nests_cycle {outer : TypeId} (path : Relation.ReflTransGen (StructField types) outer root)
    (cycle : Relation.TransGen (StructField types) root root) (levels : Nat) : Nests types levels outer := by
  induction levels generalizing outer with
  | zero => trivial
  | succ levels ih =>
    obtain ⟨inner,field,rest⟩ := Relation.TransGen.head'_iff.mp (Relation.TransGen.trans_right path cycle)
    exact ⟨inner,field,ih rest⟩

theorem checkCircular_walk {levels : Nat} {outer : TypeId} (isStruct : (types outer).kind = .struct) :
    checkCircular types root (levels + 1) outer = true ↔ ¬ (outer = root ∧ levels < 100) ∧
      ∀ inner, StructField types outer inner → checkCircular types root levels inner = true := by
  rw [checkCircular,if_neg (not_not_intro isStruct)]
  split
  · rename_i met
    exact iff_of_false Bool.false_ne_true fun both => both.1 met
  · rename_i other
    rw [and_iff_right other,List.all_eq_true]
    constructor
    · rintro all inner ⟨_,innerStruct,field,member,rfl⟩
      simpa [innerStruct] using all field member
    · intro all field member
      by_cases innerStruct : (types field.type).kind = .struct
      · simpa [innerStruct] using all field.type ⟨isStruct,innerStruct,field,member,rfl⟩
      · simp [innerStruct]

theorem not_nests_of_check {levels : Nat} {outer : TypeId} (isStruct : (types outer).kind = .struct)
    (accepted : checkCircular types root levels outer = true) : ¬ Nests types levels outer := by
  induction levels generalizing outer with
  | zero => cases accepted
  | succ levels ih =>
    rintro ⟨inner,field,nests⟩
    exact ih field.2.1 (((checkCircular_walk isStruct).mp accepted).2 inner field) nests

/-- A walk is broken off at the last level or at the root. -/
theorem nests_of_check {levels : Nat} {outer : TypeId} (isStruct : (types outer).kind = .struct)
    (refused : checkCircular types root levels outer = false) :
    Nests types levels outer ∨ Relation.ReflTransGen (StructField types) outer root := by
  induction levels generalizing outer with
  | zero => exact .inl trivial
  | succ levels ih =>
    by_contra neither
    rw [not_or] at neither
    have accepted : checkCircular types root (levels + 1) outer = true := by
      refine (checkCircular_walk isStruct).mpr ⟨fun met => neither.2 (met.1 ▸ .refl),fun inner field => ?_⟩
      by_contra refused
      rcases ih field.2.1 (Bool.eq_false_of_not_eq_true refused) with nests | path
      · exact neither.1 ⟨inner,field,nests⟩
      · exact neither.2 (path.head field)
    rw [refused] at accepted
    cases accepted

/-- The look for the root adds nothing to the bound on the levels. -/
theorem checkCircular_iff {type : TypeId} (isStruct : (types type).kind = .struct) :
    checkCircular types type 101 type = true ↔ ¬ Nests types 101 type := by
  refine ⟨not_nests_of_check isStruct,fun flat => ?_⟩
  refine (checkCircular_walk isStruct).mpr ⟨fun met => absurd met.2 (Nat.lt_irrefl 100),fun inner field => ?_⟩
  by_contra refused
  rcases nests_of_check field.2.1 (Bool.eq_false_of_not_eq_true refused) with nests | path
  · exact flat ⟨inner,field,nests⟩
  · exact flat (nests_cycle .refl (.head' field path) 101)

/-- No field exceeds the bounds of a struct, where the ends of fields wrap and a size of zero bounds nothing. -/
theorem no_field_exceeds {type : TypeId} : (¬ (types type).fields.any fun field =>
      field.offset + (types field.type).size > (types type).size && (types type).size > 0) ↔
    (types type).size = 0 ∨ ∀ field ∈ (types type).fields, field.offset + (types field.type).size ≤ (types type).size := by
  simp only [List.any_eq_true,not_exists,not_and,gt_iff_lt,Bool.and_eq_true,decide_eq_true_eq]
  by_cases empty : (types type).size = 0
  · exact iff_of_true (fun field _ _ sized => absurd empty (UInt64.pos_iff_ne_zero.mp sized)) (.inl empty)
  · rw [or_iff_right empty]
    refine forall₂_congr fun field _ => ?_
    rw [← UInt64.not_lt]
    exact ⟨fun bounded beyond => bounded beyond (UInt64.pos_iff_ne_zero.mpr empty),fun within beyond => absurd beyond within⟩

theorem verifyCallback_struct {type : TypeId} (isStruct : (types type).kind = .struct) :
    verifyCallback types type = .ok () ↔ ¬ Nests types 101 type ∧ ((types type).size = 0 ∨
      ∀ field ∈ (types type).fields, field.offset + (types field.type).size ≤ (types type).size) := by
  rw [verifyCallback,if_pos isStruct,← checkCircular_iff isStruct,← no_field_exceeds]
  split
  · rename_i refused
    exact iff_of_false (fun ok => by cases ok) fun both => Bool.false_ne_true (refused.symm.trans both.1)
  · rename_i walked
    rw [and_iff_right (Bool.eq_true_of_not_eq_false walked)]
    split
    · rename_i beyond
      exact iff_of_false (fun ok => by cases ok) fun within => within beyond
    · rename_i within
      exact iff_of_true rfl within

/-- What the check is good for: in no registered struct do more than a hundred stand in one another, as they would in a
struct that is in itself, and unless its size is zero its fields end, as pointers wrap, before it does. -/
theorem registry_verified_iff (types : Types) (registry : List TypeId) :
    schemaRegistryVerify types registry = .ok () ↔ ∀ type ∈ registry, (types type).kind = .struct →
      ¬ Nests types 101 type ∧ ((types type).size = 0 ∨ ∀ field ∈ (types type).fields,
        field.offset + (types field.type).size ≤ (types type).size) := by
  refine verify_each.trans (forall₂_congr fun type _ => ?_)
  by_cases isStruct : (types type).kind = .struct
  · rw [forall_prop_of_true isStruct,verifyCallback_struct isStruct]
  · rw [verifyCallback,if_neg isStruct]
    exact iff_of_true rfl fun other => absurd other isStruct

/-- The check of the registry is no part of the answer: what decides is where the types lead. -/
theorem readsInside_iff_contained (types : Types) (registry : List TypeId) (root : TypeId) :
    (Registered types registry root → ReadsInside types root) ↔
      (Registered types registry root → Contained types root) := by
  constructor
  · intro inside registered
    exact contained_of_readsInside registered.kind (inside registered)
  · intro contained registered
    exact readsInside_of_contained (contained registered)

/-- An array at the end of a struct, where the check counts no bytes for it. -/
def trailingArray : Types
  | 0 => { kind := .u32, size := 4 }
  | 1 => { kind := .array, size := 0, elementType := some 0 }
  | _ => { kind := .struct, size := 4, fields := [⟨0,0⟩,⟨1,4⟩] }

theorem trailingArray_outside : ¬ ∀ (types : Types) (registry : List TypeId) (root : TypeId),
    Registered types registry root → ReadsInside types root := by
  intro all
  have registered : Registered trailingArray [0,1,2] 2 := ⟨by decide,by decide,rfl⟩
  have passes : ∀ earlier ∈ [((0 : TypeId),(⟨4,0⟩ : Place))], Passable trailingArray earlier.1 := by
    intro earlier member
    rw [List.mem_singleton.mp member]
    exact .stored rfl
  have reached : Reached trailingArray 2 (1,⟨4,4⟩) := .part .root (.struct rfl) passes
  exact not_readsInside rfl reached (spoiled_misfit rfl (by decide)) (all trailingArray [0,1,2] 2 registered)

end Verified

end Libnmo.Schema
