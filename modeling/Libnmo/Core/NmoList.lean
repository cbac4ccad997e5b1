import Libnmo.Core.ArenaBlocks
import Libnmo.Core.NmoArray
import Libnmo.Lib.Chains

/-! The doubly linked list, on the links of its nodes. Nodes come from an arena and, once
released, from a chain of free nodes. A node is named by its address; a field of the nodes
is a function of the address. -/
namespace Libnmo.Core
open Lib Chains

structure NmoList (α : Type) where
  elementSize : Nat
  count : Nat := 0
  head : Option α := none
  tail : Option α := none
  freeNodes : Option α := none
  lifecycle : Option Lifecycle := none
  next : α → Option α
  prev : α → Option α
  data : α → List UInt8

/-- `sizeof(nmo_list_node_t)`, without the data. -/
def sizeofListNode : Nat := 16

open NmoList

section
variable {α : Type}

section
variable [DecidableEq α]

namespace NmoList

def setNext (list : NmoList α) (node : α) (target : Option α) : NmoList α :=
  { list with next := Function.update list.next node target }

def setPrev (list : NmoList α) (node : α) (target : Option α) : NmoList α :=
  { list with prev := Function.update list.prev node target }

/-- The node from the free chain or else the one that the arena gives, if any. -/
def acquireNode (fresh : Option α) : Run (NmoList α) (Option α) where
  run list :=
    match list.freeNodes with
    | some node => (.ok (some node),(NmoList.setNext { list with freeNodes := list.next node } node none).setPrev node none)
    | none => match fresh with
      | some node => (.ok (some node),(list.setNext node none).setPrev node none)
      | none => (.ok none,list)

def releaseNode (node : α) (list : NmoList α) : NmoList α :=
  { (list.setNext node list.freeNodes).setPrev node none with freeNodes := some node }

def runDispose (node : α) (list : NmoList α) : NmoList α :=
  { list with data := Function.update list.data node (disposed list.lifecycle (list.data node)) }

def attachFront (node : α) (list : NmoList α) : NmoList α :=
  let list := (list.setNext node list.head).setPrev node none
  let list := match list.head with
    | some head => list.setPrev head (some node)
    | none => { list with tail := some node }
  { list with head := some node, count := list.count + 1 }

def attachBack (node : α) (list : NmoList α) : NmoList α :=
  let list := (list.setPrev node list.tail).setNext node none
  let list := match list.tail with
    | some tail => list.setNext tail (some node)
    | none => { list with head := some node }
  { list with tail := some node, count := list.count + 1 }

def attachAfter (pos : Option α) (node : α) (list : NmoList α) : NmoList α :=
  match pos with
  | none => list.attachFront node
  | some pos =>
    let list := list.setPrev node (some pos)
    let list := list.setNext node (list.next pos)
    let list := match list.next pos with
      | some after => list.setPrev after (some node)
      | none => { list with tail := some node }
    { list.setNext pos (some node) with count := list.count + 1 }

def attachBefore (pos : Option α) (node : α) (list : NmoList α) : NmoList α :=
  match pos with
  | none => list.attachBack node
  | some pos =>
    let list := list.setNext node (some pos)
    let list := list.setPrev node (list.prev pos)
    let list := match list.prev pos with
      | some before => list.setNext before (some node)
      | none => { list with head := some node }
    { list.setPrev pos (some node) with count := list.count + 1 }

def detach (node : α) (list : NmoList α) : NmoList α :=
  let list := match list.prev node with
    | some before => list.setNext before (list.next node)
    | none => { list with head := list.next node }
  let list := match list.next node with
    | some after => list.setPrev after (list.prev node)
    | none => { list with tail := list.prev node }
  let list := { list with count := if list.count > 0 then list.count - 1 else list.count }
  (list.setNext node none).setPrev node none

/-- `memcpy` to the data of a node, whose block has the size of a node and an element, which may wrap. -/
def fillNode (node : α) (element : List UInt8) : Run (NmoList α) Unit where
  run list :=
    if element.length < list.elementSize then (.error (.overread element.length),list)
    else if (sizeofListNode + list.elementSize) % 2 ^ 64 < sizeofListNode + list.elementSize then
      (.error (.overwrite ((sizeofListNode + list.elementSize) % 2 ^ 64)),list)
    else (.ok (),{ list with data := Function.update list.data node (element.take list.elementSize) })

/-- A new node with an element, attached in some way; none when no node is to be had. -/
def insertBy (attach : α → NmoList α → NmoList α) (fresh : Option α) (element : List UInt8) :
    Run (NmoList α) (Option α) := do
  let node ← acquireNode fresh
  match node with
  | none => pure none
  | some node => do
    fillNode node element
    Action.update (attach node)
    pure (some node)

/-- A node taken out and released, and its element when the caller has a place for it. -/
def takeNode (node : α) (out : Bool) : Run (NmoList α) (Option (List UInt8)) := do
  let list ← Action.read id
  Action.update fun list => ((list.runDispose node).detach node).releaseNode node
  pure (if out then some (list.data node) else none)

end NmoList

def nmoListPushBack (fresh : Option α) (element : List UInt8) : Run (NmoList α) (Option α) :=
  insertBy attachBack fresh element

def nmoListPushFront (fresh : Option α) (element : List UInt8) : Run (NmoList α) (Option α) :=
  insertBy attachFront fresh element

def nmoListInsertAfter (fresh pos : Option α) (element : List UInt8) : Run (NmoList α) (Option α) :=
  insertBy (attachAfter pos) fresh element

def nmoListInsertBefore (fresh pos : Option α) (element : List UInt8) : Run (NmoList α) (Option α) :=
  insertBy (attachBefore pos) fresh element

/-- The answer says whether there was an element. -/
def nmoListPopBack (out : Bool) : Run (NmoList α) (Bool × Option (List UInt8)) := do
  let list ← Action.read id
  match list.tail with
  | none => pure (false,none)
  | some node => do
    let element ← takeNode node out
    pure (true,element)

def nmoListPopFront (out : Bool) : Run (NmoList α) (Bool × Option (List UInt8)) := do
  let list ← Action.read id
  match list.head with
  | none => pure (false,none)
  | some node => do
    let element ← takeNode node out
    pure (true,element)

def nmoListRemove (node : α) (out : Bool) : Run (NmoList α) (Option (List UInt8)) := takeNode node out

/-- The loop of a clear, from a node on. -/
def clearFrom : Nat → Option α → Run (NmoList α) Unit
  | _,none => pure ()
  | 0,some _ => Action.stop .endless
  | fuel + 1,some node => do
    let list ← Action.read id
    Action.update fun list => (list.runDispose node).releaseNode node
    clearFrom fuel (list.next node)

def nmoListClear (fuel : Nat) : Run (NmoList α) Unit := do
  let list ← Action.read id
  clearFrom fuel list.head
  Action.update fun list => { list with head := none, tail := none, count := 0 }

end

/-- The nodes of a sequence of nodes with their elements. -/
abbrev nodesOf (entries : List (α × List UInt8)) : List α := entries.map Prod.fst

/-- The list links its nodes both ways, from head to tail, and counts them; each has its element. The free nodes are a
chain of others. -/
structure ListSound (list : NmoList α) (entries : List (α × List UInt8)) (free : List α) : Prop where
  forward : Chained list.next (nodesOf entries) none
  backward : Chained list.prev (nodesOf entries).reverse none
  head : list.head = (nodesOf entries).head?
  tail : list.tail = (nodesOf entries).getLast?
  count : list.count = entries.length
  held : ∀ entry ∈ entries, list.data entry.1 = entry.2
  spare : Chained list.next free none
  first : list.freeNodes = free.head?
  distinct : (nodesOf entries ++ free).Nodup

theorem nodesOf_append (before after : List (α × List UInt8)) : nodesOf (before ++ after) = nodesOf before ++ nodesOf after :=
  List.map_append

theorem nodesOf_between (before : List (α × List UInt8)) (entry : α × List UInt8) (after : List (α × List UInt8)) :
    nodesOf (before ++ entry :: after) = nodesOf before ++ entry.1 :: nodesOf after := by
  rw [nodesOf,List.map_append,List.map_cons]

/-- A node of the chain that starts at a pointer. -/
def OnChain (link : α → Option α) (start : Option α) (node : α) : Prop :=
  ∃ chain, Chained link chain none ∧ chain.head? = start ∧ node ∈ chain

theorem onChain_iff {link : α → Option α} {chain : List α} {start : Option α} {node : α} (chained : Chained link chain none)
    (starts : start = chain.head?) : OnChain link start node ↔ node ∈ chain := by
  constructor
  · rintro ⟨other,chained',starts',member⟩
    rwa [chained_unique chained' chained (starts'.trans starts)] at member
  · exact fun member => ⟨chain,chained,starts.symm,member⟩

/-- What the arena gives is no node of the list, neither a linked nor a free one. -/
def NewNode (list : NmoList α) (fresh : Option α) : Prop :=
  ∀ node ∈ fresh, ¬ OnChain list.next list.head node ∧ ¬ OnChain list.next list.freeNodes node

/-- The element is an object of the size of an element; none is larger than `PTRDIFF_MAX`. -/
def ElementFits (list : NmoList α) (element : List UInt8) : Prop :=
  element.length = list.elementSize ∧ element.length < 2 ^ 63

/-- The list is as it should be and holds a sequence; its forward and backward links are inverse to each other. -/
def HoldsSequence (list : NmoList α) (entries : List (α × List UInt8)) : Prop :=
  (∃ free, ListSound list entries free) ∧
    ∀ x ∈ nodesOf entries, ∀ y ∈ nodesOf entries, list.next x = some y ↔ list.prev y = some x

section
variable {list : NmoList α} {entries : List (α × List UInt8)} {free : List α}

theorem holds_of_listSound (sound : ListSound list entries free) : HoldsSequence list entries :=
  ⟨⟨free,sound⟩,fun _ first _ second => links_inverse sound.forward sound.backward first second⟩

theorem exists_entry (sound : ListSound list entries free) {node : α} (linked : OnChain list.next list.head node) :
    ∃ before value after, entries = before ++ (node,value) :: after := by
  rw [onChain_iff sound.forward sound.head] at linked
  obtain ⟨entry,member,rfl⟩ := List.mem_map.mp linked
  obtain ⟨before,after,rfl⟩ := List.append_of_mem member
  exact ⟨before,entry.2,after,rfl⟩

theorem newNode_chains {chain : List α} {fresh : Option α} (linked : Chained list.next chain none)
    (head : list.head = chain.head?) (spare : Chained list.next free none) (first : list.freeNodes = free.head?)
    (absent : ∀ node ∈ fresh, node ∉ chain ∧ node ∉ free) : NewNode list fresh := by
  intro node given
  rw [onChain_iff linked head,onChain_iff spare first]
  exact absent node given

end

theorem listSound_empty (elementSize : Nat) (lifecycle : Option Lifecycle) (next prev : α → Option α)
    (data : α → List UInt8) : ListSound
      { elementSize := elementSize, lifecycle := lifecycle, next := next, prev := prev, data := data } [] [] :=
  ⟨trivial,trivial,rfl,rfl,rfl,nofun,trivial,rfl,List.nodup_nil⟩

variable [DecidableEq α]

section
variable {list : NmoList α} {entries before after : List (α × List UInt8)} {free : List α} {node pos : α}
  {left right : Option α} {element : List UInt8}

/-- A node put between two others, or at an end. -/
def spliced (list : NmoList α) (left : Option α) (node : α) (right : Option α) : NmoList α := { list with
  next := relink (Function.update list.next node right) left (some node)
  prev := relink (Function.update list.prev node left) right (some node)
  head := if left = none then some node else list.head
  tail := if right = none then some node else list.tail
  count := list.count + 1 }

theorem attachFront_eq (list : NmoList α) (node : α) : list.attachFront node = spliced list none node list.head := by
  cases head : list.head <;> simp [attachFront,spliced,setNext,setPrev,relink,head]

theorem attachBack_eq (list : NmoList α) (node : α) : list.attachBack node = spliced list list.tail node none := by
  cases tail : list.tail <;> simp [attachBack,spliced,setNext,setPrev,relink,tail]

theorem attachAfter_eq (other : pos ≠ node) : list.attachAfter (some pos) node = spliced list (some pos) node (list.next pos) := by
  cases behind : list.next pos <;>
    simp [attachAfter,spliced,setNext,setPrev,relink,Function.update_of_ne other,behind]

theorem attachBefore_eq (other : pos ≠ node) :
    list.attachBefore (some pos) node = spliced list (list.prev pos) node (some pos) := by
  cases ahead : list.prev pos <;>
    simp [attachBefore,spliced,setNext,setPrev,relink,Function.update_of_ne other,ahead]

/-- A node taken out from between two others, or from an end. -/
def cutOut (list : NmoList α) (left : Option α) (node : α) (right : Option α) : NmoList α := { list with
  next := Function.update (relink list.next left right) node none
  prev := Function.update (relink list.prev right left) node none
  head := if left = none then right else list.head
  tail := if right = none then left else list.tail
  count := list.count - 1 }

theorem detach_eq (ahead : list.prev node = left) (behind : list.next node = right) (other : left ≠ some node) :
    list.detach node = cutOut list left node right := by
  have positive : (if list.count > 0 then list.count - 1 else list.count) = list.count - 1 := by
    split
    · rfl
    · omega
  cases left with
  | none => cases right <;> simp [detach,cutOut,setNext,setPrev,relink,ahead,behind,positive]
  | some l =>
    have apart : node ≠ l := fun same => other (congrArg some same.symm)
    cases right <;>
      simp [detach,cutOut,setNext,setPrev,relink,ahead,behind,positive,Function.update_of_ne apart]

/-- The nodes lie apart: those before a place, the one there, those behind it and the free ones. -/
theorem distinct_split (distinct : (nodesOf (before ++ (node,element) :: after) ++ free).Nodup) :
    (nodesOf before ++ node :: nodesOf after).Nodup ∧ node ∉ free ∧ (nodesOf (before ++ after) ++ free).Nodup ∧
      ∀ x ∈ free, x ∉ nodesOf before ∧ x ∉ nodesOf after := by
  simp only [nodesOf,List.map_append,List.map_cons,List.append_assoc,List.cons_append] at distinct ⊢
  grind

theorem reverse_between {β : Type} (before : List β) (b : β) (after : List β) :
    (before ++ b :: after).reverse = after.reverse ++ b :: before.reverse := by simp

theorem splice_sound (before : List (α × List UInt8)) (sound : ListSound list (before ++ after) free) (absent : node ∉ nodesOf (before ++ after) ++ free)
    (filled : list.data node = element) : ListSound
      (spliced list (nodesOf before).getLast? node (nodesOf after).head?) (before ++ (node,element) :: after) free := by
  have distinct : (nodesOf (before ++ (node,element) :: after) ++ free).Nodup := by
    have apart := sound.distinct
    simp only [nodesOf,List.map_append,List.map_cons,List.append_assoc,List.cons_append] at apart absent ⊢
    grind
  obtain ⟨here,unused,_,away⟩ := distinct_split distinct
  have forward := sound.forward
  have backward := sound.backward
  have count := sound.count
  rw [nodesOf_append] at forward backward
  rw [List.reverse_append] at backward
  refine ⟨?_,?_,?_,?_,?_,?_,?_,sound.first,distinct⟩
  · have inserted := chained_insert forward here
    rw [Option.or_none] at inserted
    rw [nodesOf_between]
    exact inserted
  · have turned := List.nodup_reverse.mpr here
    rw [reverse_between] at turned
    have inserted := chained_insert backward turned
    rw [Option.or_none,List.head?_reverse,List.getLast?_reverse,← reverse_between,← nodesOf_between _ (node,element)] at inserted
    exact inserted
  · rw [nodesOf_between,head?_between,← nodesOf_append,← sound.head]
    rfl
  · rw [nodesOf_between,getLast?_between,← nodesOf_append,← sound.tail]
    rfl
  · simp only [spliced,List.length_append,List.length_cons] at count ⊢
    omega
  · intro entry member
    rcases List.mem_append.mp member with early | late
    · exact sound.held entry (List.mem_append_left _ early)
    · rcases List.mem_cons.mp late with rfl | later
      · exact filled
      · exact sound.held entry (List.mem_append_right _ later)
  · refine chained_congr (fun x member => ?_) sound.spare
    have apart : x ≠ node := fun same => unused (same ▸ member)
    exact (relink_other (getLast?_ne (away x member).1)).trans (Function.update_of_ne apart ..)

theorem cutOut_sound (sound : ListSound list (before ++ (node,element) :: after) free) (value : List UInt8) : ListSound
    (releaseNode node { cutOut list (nodesOf before).getLast? node (nodesOf after).head? with
      data := Function.update list.data node value }) (before ++ after) (node :: free) := by
  obtain ⟨here,unused,rest,away⟩ := distinct_split sound.distinct
  have forward := sound.forward
  have backward := sound.backward
  have count := sound.count
  rw [nodesOf_between] at forward backward
  rw [reverse_between] at backward
  have turned := List.nodup_reverse.mpr here
  rw [reverse_between] at turned
  have absent : node ∉ nodesOf (before ++ after) := by
    rw [nodesOf,List.map_append]
    grind
  have other {x : α} (member : x ∈ nodesOf (before ++ after)) : x ≠ node := fun same => absent (same ▸ member)
  refine ⟨?_,?_,?_,?_,?_,?_,?_,rfl,?_⟩
  · have removed := chained_remove forward here
    rw [Option.or_none,← nodesOf_append] at removed
    exact chained_congr (fun x member => (Function.update_of_ne (other member) ..).trans
      (Function.update_of_ne (other member) ..)) removed
  · have removed := chained_remove backward turned
    rw [Option.or_none,List.head?_reverse,List.getLast?_reverse,← List.reverse_append,← nodesOf_append] at removed
    exact chained_congr (fun x member => (Function.update_of_ne (other (List.mem_reverse.mp member)) ..).trans
      (Function.update_of_ne (other (List.mem_reverse.mp member)) ..)) removed
  · rw [nodesOf_append,head?_without _ _ node,← nodesOf_between _ (node,element),← sound.head]
    rfl
  · rw [nodesOf_append,getLast?_without _ _ node,← nodesOf_between _ (node,element),← sound.tail]
    rfl
  · simp only [List.length_append,List.length_cons] at count ⊢
    exact (congrArg (· - 1) count).trans (by omega)
  · intro entry member
    have kept : list.data entry.1 = entry.2 := sound.held entry (by grind)
    exact (Function.update_of_ne (other (List.mem_map_of_mem member)) ..).trans kept
  · refine ⟨?_,chained_congr (fun x member => ?_) sound.spare⟩
    · exact (Function.update_self ..).trans (sound.first.trans (Option.or_none ..).symm)
    · have apart : x ≠ node := fun same => unused (same ▸ member)
      refine (Function.update_of_ne apart ..).trans ((Function.update_of_ne apart ..).trans ?_)
      exact relink_other (getLast?_ne (away x member).1)
  · have apart := sound.distinct
    simp only [nodesOf,List.map_append,List.map_cons,List.append_assoc,List.cons_append] at apart ⊢
    grind

theorem unlinked_sound (sound : ListSound list entries free) (absent : node ∉ nodesOf entries ++ free) :
    ListSound ((list.setNext node none).setPrev node none) entries free := by
  rw [List.mem_append,not_or] at absent
  refine ⟨chained_congr (fun x member => ?_) sound.forward,chained_congr (fun x member => ?_) sound.backward,sound.head,
    sound.tail,sound.count,sound.held,chained_congr (fun x member => ?_) sound.spare,sound.first,sound.distinct⟩
  · exact Function.update_of_ne (fun same : x = node => absent.1 (same ▸ member)) ..
  · exact Function.update_of_ne (fun same : x = node => absent.1 (same ▸ List.mem_reverse.mp member)) ..
  · exact Function.update_of_ne (fun same : x = node => absent.2 (same ▸ member)) ..

/-- A node is had that is not one of the others, unless the free chain is empty and the arena gives none. -/
theorem acquireNode_sound (sound : ListSound list entries free) {fresh : Option α} (new : NewNode list fresh) :
    fresh = none ∧ (acquireNode fresh).run list = (.ok none,list) ∨
      ∃ node after free', (acquireNode fresh).run list = (.ok (some node),after) ∧ ListSound after entries free' ∧
        node ∉ nodesOf entries ++ free' ∧ after.elementSize = list.elementSize := by
  have first := sound.first
  cases free with
  | nil =>
    cases fresh with
    | none =>
      refine .inl ⟨rfl,?_⟩
      simp only [acquireNode,first,List.head?_nil]
    | some node =>
      obtain ⟨unlinked,unused⟩ := new node rfl
      rw [onChain_iff sound.forward sound.head] at unlinked
      have absent : node ∉ nodesOf entries ++ [] := by rwa [List.append_nil]
      refine .inr ⟨node,_,[],?_,unlinked_sound sound absent,absent,rfl⟩
      simp only [acquireNode,first,List.head?_nil]
  | cons node rest =>
    have distinct := sound.distinct
    have absent : node ∉ nodesOf entries ++ rest := by grind
    have shorter : ListSound { list with freeNodes := list.next node } entries rest := { sound with
      spare := sound.spare.2
      first := sound.spare.1.trans (Option.or_none ..)
      distinct := by grind }
    refine .inr ⟨node,_,rest,?_,unlinked_sound shorter absent,absent,rfl⟩
    simp only [acquireNode,first,List.head?_cons]

theorem fillNode_sound (sound : ListSound list entries free) (absent : node ∉ nodesOf entries ++ free)
    (fits : ElementFits list element) : ∃ after, (fillNode node element).run list = (.ok (),after) ∧
      ListSound after entries free ∧ after.data node = element := by
  obtain ⟨size,small⟩ := fits
  refine ⟨{ list with data := Function.update list.data node element },?_,?_,Function.update_self ..⟩
  · have whole : ¬ (sizeofListNode + list.elementSize) % 2 ^ 64 < sizeofListNode + list.elementSize := by
      rw [sizeofListNode]
      omega
    simp only [fillNode]
    rw [if_neg (by omega : ¬ element.length < list.elementSize),if_neg whole,List.take_of_length_le (Nat.le_of_eq size)]
  · refine { sound with held := fun entry member => ?_ }
    have other : entry.1 ≠ node := fun same =>
      absent (List.mem_append_left _ (same ▸ List.mem_map_of_mem member))
    exact (Function.update_of_ne other ..).trans (sound.held entry member)

/-- A node with an element attached to a list, in a way that puts it among the others, or none is to be had. -/
theorem insertBy_sound {attach : α → NmoList α → NmoList α} {fresh : Option α} {inserted : α → List (α × List UInt8)}
    (sound : ListSound list entries free) (new : NewNode list fresh) (fits : ElementFits list element)
    (attaches : ∀ {list free} node, ListSound list entries free → node ∉ nodesOf entries ++ free →
      list.data node = element → ListSound (attach node list) (inserted node) free) :
    fresh = none ∧ (insertBy attach fresh element).run list = (.ok none,list) ∨
      ∃ node after free', (insertBy attach fresh element).run list = (.ok (some node),after) ∧
        ListSound after (inserted node) free' := by
  rcases acquireNode_sound sound new with ⟨refused,ran⟩ | ⟨node,acquired,free',ran,sound',absent,size⟩
  · exact .inl ⟨refused,Action.bind_ok _ ran⟩
  · have fits' : ElementFits acquired element := ⟨fits.1.trans size.symm,fits.2⟩
    obtain ⟨filled,ran',sound'',held⟩ := fillNode_sound sound' absent fits'
    refine .inr ⟨node,attach node filled,free',?_,attaches node sound'' absent held⟩
    exact (Action.bind_ok _ ran).trans (Action.bind_ok _ ran')

theorem attachFront_sound (sound : ListSound list entries free) (absent : node ∉ nodesOf entries ++ free)
    (held : list.data node = element) : ListSound (list.attachFront node) ((node,element) :: entries) free := by
  rw [attachFront_eq,sound.head]
  exact splice_sound [] sound absent held

theorem attachBack_sound (sound : ListSound list entries free) (absent : node ∉ nodesOf entries ++ free)
    (held : list.data node = element) : ListSound (list.attachBack node) (entries ++ [(node,element)]) free := by
  rw [attachBack_eq,sound.tail]
  rw [← List.append_nil entries] at sound absent
  exact splice_sound _ sound absent held

theorem attachAfter_sound {value : List UInt8} (sound : ListSound list (before ++ (pos,value) :: after) free)
    (absent : node ∉ nodesOf (before ++ (pos,value) :: after) ++ free) (held : list.data node = element) :
    ListSound (list.attachAfter (some pos) node) (before ++ (pos,value) :: (node,element) :: after) free := by
  have forward := sound.forward
  rw [nodesOf_between] at forward
  have behind := (chained_link forward).trans (Option.or_none ..)
  have other : pos ≠ node := by
    rintro rfl
    exact absent (by simp [nodesOf])
  rw [attachAfter_eq other,behind]
  have spliced := @splice_sound _ _ _ after _ _ _ (before ++ [(pos,value)]) (by simpa using sound)
    (by simpa using absent) held
  simpa [nodesOf] using spliced

theorem attachBefore_sound {value : List UInt8} (sound : ListSound list (before ++ (pos,value) :: after) free)
    (absent : node ∉ nodesOf (before ++ (pos,value) :: after) ++ free) (held : list.data node = element) :
    ListSound (list.attachBefore (some pos) node) (before ++ (node,element) :: (pos,value) :: after) free := by
  have backward := sound.backward
  rw [nodesOf_between,reverse_between] at backward
  have ahead := (chained_link backward).trans (Option.or_none ..)
  rw [List.head?_reverse] at ahead
  have other : pos ≠ node := by
    rintro rfl
    exact absent (by simp [nodesOf])
  rw [attachBefore_eq other,ahead]
  exact splice_sound _ sound absent held

theorem takeNode_sound (out : Bool) (sound : ListSound list (before ++ (node,element) :: after) free) :
    ∃ left, (takeNode node out).run list = (.ok (if out then some element else none),left) ∧
      ListSound left (before ++ after) (node :: free) := by
  have forward := sound.forward
  have backward := sound.backward
  rw [nodesOf_between] at forward backward
  rw [reverse_between] at backward
  have behind := (chained_link forward).trans (Option.or_none ..)
  have ahead := (chained_link backward).trans (Option.or_none ..)
  rw [List.head?_reverse] at ahead
  have here := (distinct_split sound.distinct).1
  have other : (nodesOf before).getLast? ≠ some node := getLast?_ne (by grind)
  have held : list.data node = element := sound.held (node,element) (by simp)
  have detached : (list.runDispose node).detach node =
      cutOut (list.runDispose node) (nodesOf before).getLast? node (nodesOf after).head? := detach_eq ahead behind other
  refine ⟨((list.runDispose node).detach node).releaseNode node,by rw [← held]; rfl,?_⟩
  rw [detached]
  exact cutOut_sound sound _

/-- The loop of a clear moves all nodes from one on to the free chain. -/
theorem clearFrom_sound (fuel : Nat) (rest : List α) (list : NmoList α) (enough : rest.length ≤ fuel)
    (linked : Chained list.next rest none) (spare : Chained list.next free none) (first : list.freeNodes = free.head?)
    (distinct : (rest ++ free).Nodup) : ∃ left free', (clearFrom fuel rest.head?).run list = (.ok (),left) ∧
      Chained left.next free' none ∧ left.freeNodes = free'.head? ∧ free'.Nodup := by
  induction rest generalizing fuel list free with
  | nil =>
    refine ⟨list,free,?_,spare,first,distinct⟩
    cases fuel <;> rfl
  | cons node rest ih =>
    cases fuel with
    | zero => simp at enough
    | succ fuel =>
      have absent : node ∉ rest ∧ node ∉ free := by grind
      have behind := linked.1.trans (Option.or_none ..)
      have later {x : α} (member : x ∈ rest) : x ≠ node := fun same => absent.1 (same ▸ member)
      have unused {x : α} (member : x ∈ free) : x ≠ node := fun same => absent.2 (same ▸ member)
      have released : Chained ((list.runDispose node).releaseNode node).next (node :: free) none :=
        ⟨(Function.update_self ..).trans (first.trans (Option.or_none ..).symm),
          chained_congr (fun x member => Function.update_of_ne (unused member) ..) spare⟩
      have apart : (rest ++ node :: free).Nodup := by grind
      obtain ⟨left,free',ran,kept⟩ := ih fuel ((list.runDispose node).releaseNode node) (Nat.le_of_succ_le_succ enough)
        (chained_congr (fun x member => Function.update_of_ne (later member) ..) linked.2) released rfl apart
      refine ⟨left,free',?_,kept⟩
      rw [List.head?_cons,clearFrom,Action.bind_ok _ (Action.read_apply id list),Action.bind_ok _ (Action.update_apply _ list)]
      simp only [id,behind]
      exact ran

theorem clear_sound (fuel : Nat) (sound : ListSound list entries free) (enough : list.count ≤ fuel) :
    ∃ left free', (nmoListClear fuel).run list = (.ok (),left) ∧ ListSound left [] free' := by
  have size : (nodesOf entries).length ≤ fuel := by rwa [List.length_map,← sound.count]
  obtain ⟨left,free',ran,spare,first,distinct⟩ := clearFrom_sound fuel _ list size sound.forward sound.spare sound.first
    sound.distinct
  refine ⟨{ left with head := none, tail := none, count := 0 },free',?_,
    ⟨trivial,trivial,rfl,rfl,rfl,nofun,spare,first,distinct⟩⟩
  rw [nmoListClear,Action.bind_ok _ (Action.read_apply id list)]
  simp only [id,sound.head]
  rw [Action.bind_ok _ ran]
  rfl

end

inductive ListOp (α : Type)
  | pushBack (fresh : Option α) (element : List UInt8)
  | pushFront (fresh : Option α) (element : List UInt8)
  | insertAfter (fresh pos : Option α) (element : List UInt8)
  | insertBefore (fresh pos : Option α) (element : List UInt8)
  | popBack (out : Bool)
  | popFront (out : Bool)
  | remove (node : α) (out : Bool)
  | clear (fuel : Nat)

inductive ListAnswer (α : Type)
  | node (pointer : Option α)
  | popped (found : Bool) (element : Option (List UInt8))
  | removed (element : Option (List UInt8))
  | cleared

def nmoListStep : ListOp α → Run (NmoList α) (ListAnswer α)
  | .pushBack fresh element => do
    let node ← nmoListPushBack fresh element
    pure (.node node)
  | .pushFront fresh element => do
    let node ← nmoListPushFront fresh element
    pure (.node node)
  | .insertAfter fresh pos element => do
    let node ← nmoListInsertAfter fresh pos element
    pure (.node node)
  | .insertBefore fresh pos element => do
    let node ← nmoListInsertBefore fresh pos element
    pure (.node node)
  | .popBack out => do
    let (found,element) ← nmoListPopBack out
    pure (.popped found element)
  | .popFront out => do
    let (found,element) ← nmoListPopFront out
    pure (.popped found element)
  | .remove node out => do
    let element ← nmoListRemove node out
    pure (.removed element)
  | .clear fuel => do
    nmoListClear fuel
    pure .cleared

/-- An insertion for which the arena gives no node. -/
def ListOp.Refused : ListOp α → Prop
  | .pushBack fresh _ | .pushFront fresh _ | .insertAfter fresh _ _ | .insertBefore fresh _ _ => fresh = none
  | _ => False

/-- What a sequence answers, and the sequence after it. -/
inductive SequenceStep : ListOp α → List (α × List UInt8) → ListAnswer α → List (α × List UInt8) → Prop
  | pushBack (fresh : Option α) (element : List UInt8) (entries : List (α × List UInt8)) (node : α) :
      SequenceStep (.pushBack fresh element) entries (.node (some node)) (entries ++ [(node,element)])
  | pushFront (fresh : Option α) (element : List UInt8) (entries : List (α × List UInt8)) (node : α) :
      SequenceStep (.pushFront fresh element) entries (.node (some node)) ((node,element) :: entries)
  | insertFirst (fresh : Option α) (element : List UInt8) (entries : List (α × List UInt8)) (node : α) :
      SequenceStep (.insertAfter fresh none element) entries (.node (some node)) ((node,element) :: entries)
  | insertAfter (fresh : Option α) (element : List UInt8) (before after : List (α × List UInt8)) (pos : α)
      (value : List UInt8) (node : α) : SequenceStep (.insertAfter fresh (some pos) element)
        (before ++ (pos,value) :: after) (.node (some node)) (before ++ (pos,value) :: (node,element) :: after)
  | insertLast (fresh : Option α) (element : List UInt8) (entries : List (α × List UInt8)) (node : α) :
      SequenceStep (.insertBefore fresh none element) entries (.node (some node)) (entries ++ [(node,element)])
  | insertBefore (fresh : Option α) (element : List UInt8) (before after : List (α × List UInt8)) (pos : α)
      (value : List UInt8) (node : α) : SequenceStep (.insertBefore fresh (some pos) element)
        (before ++ (pos,value) :: after) (.node (some node)) (before ++ (node,element) :: (pos,value) :: after)
  | refused (op : ListOp α) (entries : List (α × List UInt8)) (refused : op.Refused) :
      SequenceStep op entries (.node none) entries
  | popBack (out : Bool) (before : List (α × List UInt8)) (node : α) (element : List UInt8) :
      SequenceStep (.popBack out) (before ++ [(node,element)]) (.popped true (if out then some element else none)) before
  | popNone (out : Bool) : SequenceStep (.popBack out) [] (.popped false none) []
  | popFront (out : Bool) (after : List (α × List UInt8)) (node : α) (element : List UInt8) :
      SequenceStep (.popFront out) ((node,element) :: after) (.popped true (if out then some element else none)) after
  | popFrontNone (out : Bool) : SequenceStep (.popFront out) [] (.popped false none) []
  | remove (out : Bool) (before after : List (α × List UInt8)) (node : α) (element : List UInt8) :
      SequenceStep (.remove node out) (before ++ (node,element) :: after)
        (.removed (if out then some element else none)) (before ++ after)
  | clear (fuel : Nat) (entries : List (α × List UInt8)) : SequenceStep (.clear fuel) entries .cleared []

/-- The arena gives new nodes, the elements fit, a position is a linked node, and a clear has turns enough. -/
def ListOpFine (list : NmoList α) : ListOp α → Prop
  | .pushBack fresh element | .pushFront fresh element => NewNode list fresh ∧ ElementFits list element
  | .insertAfter fresh pos element | .insertBefore fresh pos element =>
    NewNode list fresh ∧ ElementFits list element ∧ ∀ node ∈ pos, OnChain list.next list.head node
  | .popBack _ | .popFront _ => True
  | .remove node _ => OnChain list.next list.head node
  | .clear fuel => list.count ≤ fuel

def ListCallsFine : List (ListOp α) → NmoList α → Prop
  | [],_ => True
  | op :: ops,list => ListOpFine list op ∧ ListCallsFine ops ((nmoListStep op).run list).2

/-- The list holds a sequence, and each call answers, and leaves a list that holds, what the sequence does. -/
def FollowsSequence : List (ListOp α) → NmoList α → List (α × List UInt8) → Prop
  | [],list,entries => HoldsSequence list entries
  | op :: ops,list,entries => HoldsSequence list entries ∧ ∃ answer after entries', (nmoListStep op).run list = (.ok answer,after) ∧
      SequenceStep op entries answer entries' ∧ FollowsSequence ops after entries'

section
variable {list : NmoList α} {entries : List (α × List UInt8)} {free : List α}

/-- The list steps as the sequence does. -/
def StepsAlong (list : NmoList α) (entries : List (α × List UInt8)) (op : ListOp α) : Prop :=
  ∃ answer after entries' free, (nmoListStep op).run list = (.ok answer,after) ∧ SequenceStep op entries answer entries' ∧
    ListSound after entries' free

theorem insertion_steps {op : ListOp α} {insertion : Run (NmoList α) (Option α)} {fresh : Option α}
    {inserted : α → List (α × List UInt8)} (sound : ListSound list entries free)
    (outcome : fresh = none ∧ insertion.run list = (.ok none,list) ∨
      ∃ node after free', insertion.run list = (.ok (some node),after) ∧ ListSound after (inserted node) free')
    (made : nmoListStep op = insertion >>= fun node => pure (.node node)) (refuses : fresh = none → op.Refused)
    (steps : ∀ node, SequenceStep op entries (.node (some node)) (inserted node)) : StepsAlong list entries op := by
  rw [StepsAlong,made]
  rcases outcome with ⟨refused,ran⟩ | ⟨node,after,free',ran,sound'⟩
  · exact ⟨_,list,entries,free,Action.bind_ok _ ran,.refused op entries (refuses refused),sound⟩
  · exact ⟨_,after,_,free',Action.bind_ok _ ran,steps node,sound'⟩

theorem listStep_sound {op : ListOp α} (sound : ListSound list entries free) (fine : ListOpFine list op) :
    StepsAlong list entries op := by
  cases op with
  | pushBack fresh element =>
    exact insertion_steps sound (insertBy_sound sound fine.1 fine.2 fun node => attachBack_sound) rfl id
      (.pushBack fresh element entries)
  | pushFront fresh element =>
    exact insertion_steps sound (insertBy_sound sound fine.1 fine.2 fun node => attachFront_sound) rfl id
      (.pushFront fresh element entries)
  | insertAfter fresh pos element =>
    obtain ⟨new,fits,linked⟩ := fine
    cases pos with
    | none =>
      exact insertion_steps sound (insertBy_sound sound new fits fun node => attachFront_sound) rfl id
        (.insertFirst fresh element entries)
    | some pos =>
      obtain ⟨before,value,after,rfl⟩ := exists_entry sound (linked pos rfl)
      exact insertion_steps sound (insertBy_sound sound new fits fun node => attachAfter_sound) rfl id
        (.insertAfter fresh element before after pos value)
  | insertBefore fresh pos element =>
    obtain ⟨new,fits,linked⟩ := fine
    cases pos with
    | none =>
      exact insertion_steps sound (insertBy_sound sound new fits fun node => attachBack_sound) rfl id
        (.insertLast fresh element entries)
    | some pos =>
      obtain ⟨before,value,after,rfl⟩ := exists_entry sound (linked pos rfl)
      exact insertion_steps sound (insertBy_sound sound new fits fun node => attachBefore_sound) rfl id
        (.insertBefore fresh element before after pos value)
  | popBack out =>
    rcases List.eq_nil_or_concat' entries with rfl | ⟨before,⟨node,element⟩,rfl⟩
    · have ran : (nmoListPopBack out).run list = (.ok (false,none),list) := by
        rw [nmoListPopBack,Action.bind_ok _ (Action.read_apply id list)]
        simp only [id,sound.tail]
        rfl
      exact ⟨_,list,[],free,Action.bind_ok _ ran,.popNone out,sound⟩
    · have tail : list.tail = some node := by rw [sound.tail,nodesOf_append]; exact List.getLast?_concat
      obtain ⟨left,ran,sound'⟩ := takeNode_sound out sound
      have popped : (nmoListPopBack out).run list = (.ok (true,if out then some element else none),left) := by
        rw [nmoListPopBack,Action.bind_ok _ (Action.read_apply id list)]
        simp only [id,tail]
        exact Action.bind_ok _ ran
      rw [List.append_nil] at sound'
      exact ⟨_,left,before,_,Action.bind_ok _ popped,.popBack out before node element,sound'⟩
  | popFront out =>
    cases entries with
    | nil =>
      have ran : (nmoListPopFront out).run list = (.ok (false,none),list) := by
        rw [nmoListPopFront,Action.bind_ok _ (Action.read_apply id list)]
        simp only [id,sound.head]
        rfl
      exact ⟨_,list,[],free,Action.bind_ok _ ran,.popFrontNone out,sound⟩
    | cons entry after =>
      obtain ⟨node,element⟩ := entry
      obtain ⟨left,ran,sound'⟩ := @takeNode_sound _ _ list [] after free node element out sound
      have popped : (nmoListPopFront out).run list = (.ok (true,if out then some element else none),left) := by
        rw [nmoListPopFront,Action.bind_ok _ (Action.read_apply id list)]
        simp only [id,sound.head]
        exact Action.bind_ok _ ran
      exact ⟨_,left,after,_,Action.bind_ok _ popped,.popFront out after node element,sound'⟩
  | remove node out =>
    obtain ⟨before,element,after,rfl⟩ := exists_entry sound fine
    obtain ⟨left,ran,sound'⟩ := takeNode_sound out sound
    exact ⟨_,left,_,_,Action.bind_ok _ ran,.remove out before after node element,sound'⟩
  | clear fuel =>
    obtain ⟨left,free',ran,sound'⟩ := clear_sound fuel sound fine
    exact ⟨_,left,_,free',Action.bind_ok _ ran,.clear fuel entries,sound'⟩

/-- A list is the sequence that is made of it: whatever is done to it in order, its links stay as they should be. -/
theorem list_follows_sequence (ops : List (ListOp α)) (sound : ListSound list entries free) (fine : ListCallsFine ops list) :
    FollowsSequence ops list entries := by
  induction ops generalizing list entries free with
  | nil => exact holds_of_listSound sound
  | cons op ops ih =>
    obtain ⟨answer,after,entries',free',ran,step,sound'⟩ := listStep_sound sound fine.1
    have others := fine.2
    rw [ran] at others
    exact ⟨holds_of_listSound sound,answer,after,entries',ran,step,ih sound' others⟩

end

end

/-- Blocks of an arena that lie apart are at different places, so that the place of a block names a new node. -/
theorem block_new {arena : Arena} {blocks : List ArenaBlock} {block : ArenaBlock}
    (apart : BlocksApart arena (blocks ++ [block])) (positive : ∀ other ∈ blocks ++ [block], other.size ≠ 0) :
    (block.chunk,block.offset) ∉ blocks.map fun other => (other.chunk,other.offset) := by
  intro member
  obtain ⟨other,before,same⟩ := List.mem_map.mp member
  rw [Prod.mk.injEq] at same
  have separate := (List.pairwise_append.mp apart.2).2.2 other before block (List.mem_singleton_self block) same.1
  have size (block' : ArenaBlock) (there : block' ∈ blocks ++ [block]) : block'.size.toNat ≠ 0 := fun zero =>
    positive block' there (UInt64.toNat_inj.mp zero)
  have first := size other (List.mem_append_left _ before)
  have second := size block (by simp)
  rw [same.2] at separate
  omega

theorem fourCalls_follow : FollowsSequence [.pushBack (some 1) [7],.insertBefore (some 2) (some 1) [5],.popBack true,
    .pushFront none [6],.clear 2] { elementSize := 1, next := fun _ => none, prev := fun _ => none, data := fun _ => [] } [] := by
  refine list_follows_sequence _ (listSound_empty 1 none (fun _ : Nat => none) _ _) ⟨⟨?_,rfl,by decide⟩,⟨?_,⟨rfl,by decide⟩,?_⟩,
    trivial,⟨nofun,rfl,by decide⟩,?_,trivial⟩
  · exact @newNode_chains Nat _ [] [] _ trivial rfl trivial rfl (by decide)
  · exact @newNode_chains Nat _ [] [1] _ ⟨rfl,trivial⟩ rfl trivial rfl (by decide)
  · rintro node given
    obtain rfl := Option.some.inj given
    exact ⟨[1],⟨rfl,trivial⟩,rfl,List.mem_singleton_self 1⟩
  · exact (by decide : 2 ≤ 2)

end Libnmo.Core
