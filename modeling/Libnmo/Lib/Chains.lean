import Mathlib.Data.List.Nodup
import Mathlib.Logic.Function.Basic

/-! Chains of links from node to node, and the surgery on them: a node put between two
others, and a node taken out. A chain with links both ways is a chain, and its reverse a
chain of the links back, so that each operation is one fact used twice. -/
namespace Libnmo.Lib.Chains
variable {α : Type} {link link' next prev : α → Option α} {nodes others before after : List α} {stop stop' : Option α}
  {a x y : α}

/-- Each node links to the one behind it, and the last to where the chain stops. -/
def Chained (link : α → Option α) : List α → Option α → Prop
  | [],_ => True
  | a :: rest,stop => link a = rest.head?.or stop ∧ Chained link rest stop

theorem chained_append : Chained link (before ++ after) stop ↔
    Chained link before (after.head?.or stop) ∧ Chained link after stop := by
  induction before with
  | nil => exact ⟨fun chained => ⟨trivial,chained⟩,fun both => both.2⟩
  | cons a rest ih => simp only [List.cons_append,Chained,List.head?_append,Option.or_assoc,ih,and_assoc]

theorem chained_congr (same : ∀ x ∈ nodes, link' x = link x) (chained : Chained link nodes stop) :
    Chained link' nodes stop := by
  induction nodes with
  | nil => trivial
  | cons a rest ih =>
    rw [List.forall_mem_cons] at same
    exact ⟨same.1.trans chained.1,ih same.2 chained.2⟩

theorem chained_link (chained : Chained link (before ++ a :: after) stop) : link a = after.head?.or stop :=
  (chained_append.mp chained).2.1

/-- A chain that ends is known by its links and its first node. -/
theorem chained_unique (first : Chained link nodes none) (second : Chained link others none)
    (same : nodes.head? = others.head?) : nodes = others := by
  induction nodes generalizing others with
  | nil => exact (List.head?_eq_none_iff.mp same.symm).symm
  | cons a rest ih =>
    cases others with
    | nil => cases same
    | cons b more =>
      obtain rfl := Option.some.inj same
      have behind := first.1.symm.trans second.1
      rw [Option.or_none,Option.or_none] at behind
      rw [ih first.2 second.2 behind]

theorem links_before (chained : Chained link nodes none) (member : x ∈ nodes) (linked : link x = some y) :
    ∃ before after, nodes = before ++ x :: y :: after := by
  obtain ⟨before,rest,rfl⟩ := List.append_of_mem member
  have behind := chained_link chained
  rw [linked,Option.or_none] at behind
  obtain ⟨after,rfl⟩ := List.head?_eq_some_iff.mp behind.symm
  exact ⟨before,after,rfl⟩

/-- The links of a chain and of its reverse are inverse to each other. -/
theorem links_inverse (forward : Chained next nodes none) (backward : Chained prev nodes.reverse none) (first : x ∈ nodes)
    (second : y ∈ nodes) : next x = some y ↔ prev y = some x := by
  constructor
  · intro linked
    obtain ⟨before,after,rfl⟩ := links_before forward first linked
    have turned : (before ++ x :: y :: after).reverse = after.reverse ++ y :: (x :: before.reverse) := by simp
    rw [turned] at backward
    exact chained_link backward
  · intro linked
    obtain ⟨before,after,same⟩ := links_before backward (List.mem_reverse.mpr second) linked
    have turned : nodes = after.reverse ++ x :: (y :: before.reverse) := by
      rw [← List.reverse_reverse nodes,same]
      simp
    rw [turned] at forward
    exact chained_link forward

section Ends
variable (before after : List α) (a : α)

theorem head?_between [DecidableEq α] : (before ++ a :: after).head? =
    if before.getLast? = none then some a else (before ++ after).head? := by
  cases before with
  | nil => rfl
  | cons b rest => rw [if_neg (by simp)]; rfl

theorem getLast?_between [DecidableEq α] : (before ++ a :: after).getLast? =
    if after.head? = none then some a else (before ++ after).getLast? := by
  cases after with
  | nil => exact List.getLast?_concat
  | cons b rest => rw [if_neg (by simp),List.getLast?_append,List.getLast?_append,List.getLast?_cons_cons]

theorem head?_without [DecidableEq α] : (before ++ after).head? =
    if before.getLast? = none then after.head? else (before ++ a :: after).head? := by
  cases before with
  | nil => rfl
  | cons b rest => rw [if_neg (by simp)]; rfl

theorem getLast?_without [DecidableEq α] : (before ++ after).getLast? =
    if after.head? = none then before.getLast? else (before ++ a :: after).getLast? := by
  cases after with
  | nil => rw [List.append_nil]; rfl
  | cons b rest => rw [if_neg (by simp),List.getLast?_append,List.getLast?_append,List.getLast?_cons_cons]

end Ends

theorem getLast?_ne (absent : x ∉ nodes) : nodes.getLast? ≠ some x := fun same => absent (List.mem_of_getLast? same)

section
variable [DecidableEq α]

/-- The link of a node led elsewhere, if there is a node. -/
def relink (link : α → Option α) (source target : Option α) : α → Option α :=
  match source with
  | none => link
  | some a => Function.update link a target

theorem relink_other {source target : Option α} (other : source ≠ some x) : relink link source target x = link x := by
  cases source with
  | none => rfl
  | some a => exact Function.update_of_ne (fun same => other (congrArg some same.symm)) ..

theorem chained_relink (chained : Chained link nodes stop) (distinct : nodes.Nodup) :
    Chained (relink link nodes.getLast? stop') nodes stop' := by
  rcases List.eq_nil_or_concat' nodes with rfl | ⟨front,last,rfl⟩
  · trivial
  · rw [List.getLast?_concat]
    obtain ⟨ahead,_⟩ := chained_append.mp chained
    refine chained_append.mpr ⟨chained_congr (fun x member => relink_other ?_) ahead,?_,trivial⟩
    · rintro same
      rw [Option.some.inj same] at distinct
      exact (List.nodup_append.mp distinct).2.2 x member x (List.mem_singleton_self x) rfl
    · exact Function.update_self ..

theorem chained_insert (chained : Chained link (before ++ after) stop) (distinct : (before ++ a :: after).Nodup) :
    Chained (relink (Function.update link a (after.head?.or stop)) before.getLast? (some a)) (before ++ a :: after) stop := by
  obtain ⟨front,back⟩ := chained_append.mp chained
  obtain ⟨fore,aft,apart⟩ := List.nodup_append.mp distinct
  rw [List.nodup_cons] at aft
  have not_before : a ∉ before := fun member => apart a member a List.mem_cons_self rfl
  have ahead : Chained (Function.update link a (after.head?.or stop)) before (after.head?.or stop) :=
    chained_congr (fun x member => Function.update_of_ne (fun same : x = a => not_before (same ▸ member)) ..) front
  refine chained_append.mpr ⟨chained_relink ahead fore,?_,?_⟩
  · rw [relink_other (getLast?_ne not_before),Function.update_self]
  · refine chained_congr (fun x member => ?_) back
    rw [relink_other (getLast?_ne fun early => apart x early x (List.mem_cons_of_mem a member) rfl),Function.update_of_ne]
    rintro rfl
    exact aft.1 member

theorem chained_remove (chained : Chained link (before ++ a :: after) stop) (distinct : (before ++ a :: after).Nodup) :
    Chained (relink link before.getLast? (after.head?.or stop)) (before ++ after) stop := by
  obtain ⟨front,back⟩ := chained_append.mp chained
  obtain ⟨fore,_,apart⟩ := List.nodup_append.mp distinct
  refine chained_append.mpr ⟨chained_relink front fore,chained_congr (fun x member => relink_other ?_) back.2⟩
  exact getLast?_ne fun early => apart x early x (List.mem_cons_of_mem a member) rfl

end

end Libnmo.Lib.Chains
