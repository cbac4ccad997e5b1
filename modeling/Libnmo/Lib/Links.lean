import Mathlib.Data.Set.Card
import Mathlib.Logic.Relation

/-! Nodes with at most one link each. What is reached by links is reached by no more than there
are nodes with a link, for a longer way has met a node twice. -/
namespace Libnmo.Lib.Links
variable {α : Type} {next : α → Option α} {a b c : α} {m n : Nat}

/-- The node so many links on. -/
def follow (next : α → Option α) : Nat → α → Option α
  | 0,a => some a
  | n + 1,a => (next a).bind (follow next n)

def LinksTo (next : α → Option α) (a b : α) : Prop := next a = some b

theorem follow_add : follow next (m + n) a = (follow next m a).bind (follow next n) := by
  induction m generalizing a with
  | zero => rw [Nat.zero_add,follow,Option.bind_some]
  | succ m ih =>
    rw [Nat.succ_add,follow,follow]
    cases next a with
    | none => rfl
    | some b => exact ih

theorem transGen_iff : Relation.TransGen (LinksTo next) a b ↔ ∃ n, follow next (n + 1) a = some b := by
  constructor
  · intro reached
    induction reached using Relation.TransGen.head_induction_on with
    | single link => exact ⟨0,by rw [follow,link]; rfl⟩
    | head link _ ih =>
      obtain ⟨n,rest⟩ := ih
      exact ⟨n + 1,by rw [follow,link]; exact rest⟩
  · rintro ⟨n,reached⟩
    induction n generalizing a with
    | zero =>
      obtain ⟨c,link,same⟩ := Option.bind_eq_some_iff.mp reached
      obtain rfl := Option.some.inj same
      exact .single link
    | succ n ih =>
      obtain ⟨c,link,rest⟩ := Option.bind_eq_some_iff.mp reached
      exact .head link (ih rest)

/-- The links of the chain that starts at a node, by the nodes that have them. -/
def chain (next : α → Option α) (a : α) : Set α := {c | Relation.ReflTransGen (LinksTo next) a c ∧ ∃ b, LinksTo next c b}

theorem reached_follow (reached : follow next n a = some c) : Relation.ReflTransGen (LinksTo next) a c := by
  induction n generalizing a with
  | zero =>
    obtain rfl := Option.some.inj reached
    exact .refl
  | succ n ih =>
    obtain ⟨b,link,rest⟩ := Option.bind_eq_some_iff.mp reached
    exact .head link (ih rest)

/-- The nodes on the way to another one have links. -/
theorem follow_prefix (reached : follow next (m + (n + 1)) a = some b) : ∃ c, follow next m a = some c ∧ c ∈ chain next a := by
  rw [follow_add] at reached
  obtain ⟨c,before,rest⟩ := Option.bind_eq_some_iff.mp reached
  obtain ⟨d,link,_⟩ := Option.bind_eq_some_iff.mp rest
  exact ⟨c,before,reached_follow before,d,link⟩

/-- With a node met twice, the way between is left out. -/
theorem follow_shorter {first second : Nat} (order : first < second) (inside : second ≤ n)
    (same : follow next first a = follow next second a) (reached : follow next (n + 1) a = some b) :
    ∃ m, m < n ∧ follow next (m + 1) a = some b := by
  have rest : follow next (second + (n + 1 - second)) a = some b := by rwa [show second + (n + 1 - second) = n + 1 by omega]
  rw [follow_add,← same,← follow_add] at rest
  refine ⟨first + (n - second),by omega,?_⟩
  rwa [show first + (n - second) + 1 = first + (n + 1 - second) by omega]

theorem follow_within {bound : Nat} (few : (chain next a).encard ≤ bound) (reached : follow next (n + 1) a = some b) :
    ∃ m, m < bound ∧ follow next (m + 1) a = some b := by
  induction n using Nat.strongRecOn with
  | _ n ih =>
    by_cases short : n < bound
    · exact ⟨n,short,reached⟩
    have passed (i : Nat) (inside : i ≤ n) : ∃ c, follow next i a = some c ∧ c ∈ chain next a := by
      apply follow_prefix (n := n - i) (b := b)
      rwa [show i + (n - i + 1) = n + 1 by omega]
    have maps : Set.MapsTo (fun i => (follow next i a).getD a) (Finset.range (n + 1) : Set Nat) (chain next a) := by
      intro i inside
      obtain ⟨c,before,member⟩ := passed i (Nat.le_of_lt_succ (Finset.mem_range.mp inside))
      simpa only [before,Option.getD_some] using member
    have more : (chain next a).encard < (Finset.range (n + 1) : Set Nat).encard := by
      rw [Set.encard_coe_eq_coe_finsetCard,Finset.card_range]
      exact few.trans_lt (Nat.cast_lt.mpr (by omega))
    obtain ⟨first,first_in,second,second_in,differ,same⟩ := Set.exists_ne_map_eq_of_encard_lt_of_maps_to more maps
    obtain ⟨c,before,_⟩ := passed first (Nat.le_of_lt_succ (Finset.mem_range.mp first_in))
    obtain ⟨d,after,_⟩ := passed second (Nat.le_of_lt_succ (Finset.mem_range.mp second_in))
    simp only [before,after,Option.getD_some] at same
    subst same
    have again := before.trans after.symm
    rcases Nat.lt_or_gt_of_ne differ with order | order
    · obtain ⟨m,fewer,there⟩ := follow_shorter order (Nat.le_of_lt_succ (Finset.mem_range.mp second_in)) again reached
      exact ih m fewer there
    · obtain ⟨m,fewer,there⟩ := follow_shorter order (Nat.le_of_lt_succ (Finset.mem_range.mp first_in)) again.symm reached
      exact ih m fewer there

end Libnmo.Lib.Links

/-! Links that are set and cleared. A new link from a node without one closes a round just
when its target leads back to the node. -/
namespace Libnmo.Lib.Links
variable {α : Type} {next next' : α → Option α} {a b x y : α}

/-- No node leads back to itself. -/
def Acyclic (next : α → Option α) : Prop := ∀ a, ¬ Relation.TransGen (LinksTo next) a a

/-- With fewer links there is no new way. -/
theorem Acyclic.sub (acyclic : Acyclic next) (sub : ∀ a b, LinksTo next' a b → LinksTo next a b) : Acyclic next' := by
  intro a round
  exact acyclic a (Relation.TransGen.mono sub a a round)

/-- The links are those there were and one more, from a node that had none. -/
structure Added (next next' : α → Option α) (a b : α) : Prop where
  root : next a = none
  linked : next' a = some b
  other : ∀ x, x ≠ a → next' x = next x

theorem Added.old (added : Added next next' a b) (link : LinksTo next x y) : LinksTo next' x y := by
  have apart : x ≠ a := by
    intro same
    rw [LinksTo,same,added.root] at link
    cases link
  rw [LinksTo,added.other x apart]
  exact link

/-- A way to the node uses the links that were there. -/
theorem Added.before (added : Added next next' a b) (way : Relation.ReflTransGen (LinksTo next') x a) :
    Relation.ReflTransGen (LinksTo next) x a := by
  induction way using Relation.ReflTransGen.head_induction_on with
  | refl => exact .refl
  | @head x y link _ ih =>
    by_cases same : x = a
    · rw [same]
    · rw [LinksTo,added.other x same] at link
      exact .head link ih

/-- A way either was there or takes the new link. -/
theorem Added.split (added : Added next next' a b) (way : Relation.TransGen (LinksTo next') x y) :
    Relation.TransGen (LinksTo next) x y ∨
      Relation.ReflTransGen (LinksTo next') x a ∧ Relation.ReflTransGen (LinksTo next') b y := by
  induction way with
  | @single y link =>
    by_cases same : x = a
    · rw [same,LinksTo,added.linked,Option.some.injEq] at link
      rw [same,link]
      exact .inr ⟨.refl,.refl⟩
    · rw [LinksTo,added.other x same] at link
      exact .inl (.single link)
  | @tail y z way link ih =>
    cases ih with
    | inr through => exact .inr ⟨through.1,through.2.tail link⟩
    | inl before =>
      by_cases same : y = a
      · rw [same] at way
        rw [same,LinksTo,added.linked,Option.some.injEq] at link
        rw [link]
        exact .inr ⟨way.to_reflTransGen,.refl⟩
      · rw [LinksTo,added.other y same] at link
        exact .inl (before.tail link)

theorem Added.acyclic_iff (added : Added next next' a b) (acyclic : Acyclic next) :
    Acyclic next' ↔ ¬ Relation.ReflTransGen (LinksTo next) b a := by
  constructor
  · intro still back
    have way : Relation.ReflTransGen (LinksTo next') b a := Relation.ReflTransGen.mono (fun _ _ => added.old) b a back
    exact still a (.head' added.linked way)
  · intro apart x round
    cases added.split round with
    | inl before => exact acyclic x before
    | inr through => exact apart (added.before (through.2.trans through.1))

end Libnmo.Lib.Links

/-! The lowest node that two nodes lead to: on the way from the one, the first that the other leads to. -/
namespace Libnmo.Lib.Links
variable {α : Type} {next : α → Option α} {a b c d current : α}

theorem linksTo_unique : Relator.RightUnique (LinksTo next) := by
  intro x y z first second
  rw [LinksTo] at first second
  exact Option.some.inj (first.symm.trans second)

/-- Both nodes lead to this one, and it leads to every other that both do. -/
structure Lowest (next : α → Option α) (a b c : α) : Prop where
  left : Relation.ReflTransGen (LinksTo next) a c
  right : Relation.ReflTransGen (LinksTo next) b c
  least : ∀ d, Relation.ReflTransGen (LinksTo next) a d → Relation.ReflTransGen (LinksTo next) b d →
    Relation.ReflTransGen (LinksTo next) c d

/-- Without rounds, two nodes that lead to each other are one. -/
theorem Acyclic.antisymm (acyclic : Acyclic next) (there : Relation.ReflTransGen (LinksTo next) a b)
    (back : Relation.ReflTransGen (LinksTo next) b a) : a = b := by
  cases Relation.reflTransGen_iff_eq_or_transGen.mp there with
  | inl same => exact same.symm
  | inr way => exact absurd (way.trans_left back) (acyclic a)

theorem Lowest.unique (acyclic : Acyclic next) (first : Lowest next a b c) (second : Lowest next a b d) : c = d := by
  apply acyclic.antisymm
  · exact first.least d second.left second.right
  · exact second.least c first.left first.right

/-- A node that both lead to is lowest as soon as one of them leads there by it alone. -/
theorem lowest_of_reached (reached : Relation.ReflTransGen (LinksTo next) a b) : Lowest next a b b where
  left := reached
  right := .refl
  least _ _ way := way

theorem Lowest.symm (lowest : Lowest next a b c) : Lowest next b a c where
  left := lowest.right
  right := lowest.left
  least d second first := lowest.least d first second

/-- The walk from the second node has not passed any node that both lead to. -/
structure Before (next : α → Option α) (a b current : α) : Prop where
  reached : Relation.ReflTransGen (LinksTo next) b current
  ahead : ∀ d, Relation.ReflTransGen (LinksTo next) a d → Relation.ReflTransGen (LinksTo next) b d →
    Relation.ReflTransGen (LinksTo next) current d

theorem before_start : Before next a b b where
  reached := .refl
  ahead _ _ way := way

theorem Before.lowest (before : Before next a b current) (shared : Relation.ReflTransGen (LinksTo next) a current) :
    Lowest next a b current where
  left := shared
  right := before.reached
  least := before.ahead

/-- Past a node that only the second leads to, nothing shared is passed. -/
theorem Before.step (before : Before next a b current) (apart : ¬ Relation.ReflTransGen (LinksTo next) a current)
    (link : next current = some c) : Before next a b c where
  reached := before.reached.tail link
  ahead d first second := by
    cases Relation.ReflTransGen.cases_head (before.ahead d first second) with
    | inl same =>
      rw [same] at apart
      exact absurd first apart
    | inr further =>
      obtain ⟨e,step,rest⟩ := further
      rwa [linksTo_unique step link] at rest

theorem Before.apart (before : Before next a b current) (apart : ¬ Relation.ReflTransGen (LinksTo next) a current)
    (root : next current = none) (first : Relation.ReflTransGen (LinksTo next) a d)
    (second : Relation.ReflTransGen (LinksTo next) b d) : False := by
  cases Relation.ReflTransGen.cases_head (before.ahead d first second) with
  | inl same =>
    rw [same] at apart
    exact apart first
  | inr further =>
    obtain ⟨e,step,_⟩ := further
    rw [LinksTo,root] at step
    cases step

/-- A measure that every link lowers leaves no round. -/
theorem acyclic_of_lower (depth : α → Nat) (lower : ∀ x y, LinksTo next x y → depth y < depth x) : Acyclic next := by
  have below {x y : α} (way : Relation.TransGen (LinksTo next) x y) : depth y < depth x := by
    induction way with
    | single link => exact lower _ _ link
    | tail _ link ih => exact (lower _ _ link).trans ih
  intro x round
  exact Nat.lt_irrefl _ (below round)

end Libnmo.Lib.Links
