import Libnmo.Core.HashTable
import Libnmo.Core.HashSet
import Libnmo.Core.IndexedMap
import Libnmo.Lib.Machine

/-! Probes of the hash table, the hash set and the indexed map end in every state that
runs reach whose insertions leave an empty slot. Tombstones alone can fill the slots. -/
namespace Libnmo.Core
open Lib OpenAddressing Hashing

/-- Where each insertion leaves an empty slot, one is empty in every state reached:
the probe for every key ends, and so does every call. -/
theorem probes_end {κ ν : Type} (keys : Keys κ) :
    (∀ keySize valueSize initialCapacity granted (table : HashTable κ ν) log last,
      HashTable.create keySize valueSize initialCapacity granted = some table →
      Reached (HashTable.call keys) (HashTable.LeavesEmpty keys) table log last →
      ProbesEnd keys (fun entry => some entry.1) last.slots ∧ ∀ op, HashTable.call keys last op ≠ .error .endless) ∧
    (∀ keySize initialCapacity granted (set : HashSet κ) log last,
      HashSet.create keySize initialCapacity granted = some set →
      Reached (HashSet.call keys) (HashSet.LeavesEmpty keys) set log last →
      ProbesEnd keys some last.slots ∧ ∀ op, HashSet.call keys last op ≠ .error .endless) ∧
    (∀ keySize valueSize initialCapacity granted grantedDense (map : IndexedMap κ ν) log last,
      IndexedMap.create keySize valueSize initialCapacity granted grantedDense = some map →
      Reached (IndexedMap.call keys) (IndexedMap.LeavesEmpty keys) map log last →
      ProbesEnd keys (IndexedMap.keyAt last.dense) last.slots ∧
        ∀ op, IndexedMap.call keys last op ≠ .error .endless) := by
  refine ⟨?_,?_,?_⟩
  · intro keySize valueSize initialCapacity granted table log last created reached
    have roomy := reached.keeps (fun table => Roomy table.slots) (HashTable.create_room created)
      fun table op after answer roomy clean returned => (HashTable.call_room roomy op).of_ok returned clean
    exact ⟨probesEnd roomy.ring roomy.room,fun op endless => (HashTable.call_room roomy op).of_error endless rfl⟩
  · intro keySize initialCapacity granted set log last created reached
    have roomy := reached.keeps (fun set => Roomy set.slots) (HashSet.create_room created)
      fun set op after answer roomy clean returned => (HashSet.call_room roomy op).of_ok returned clean
    exact ⟨probesEnd roomy.ring roomy.room,fun op endless => (HashSet.call_room roomy op).of_error endless rfl⟩
  · intro keySize valueSize initialCapacity granted grantedDense map log last created reached
    have roomier := reached.keeps IndexedMap.Roomier (IndexedMap.create_room created)
      fun map op after answer roomier clean returned => (IndexedMap.call_room roomier op).of_ok returned clean
    exact ⟨probesEnd roomier.roomy.ring roomier.roomy.room,
      fun op endless => (IndexedMap.call_room roomier op).of_error endless rfl⟩

theorem probes_end_some : ∃ last : HashTable UInt32 UInt32,
    HashTable.call wordKeys ⟨4,4,List.replicate 16 .empty,0⟩ (.insert 7 9 true) = .ok (last,.status none) ∧
    ProbesEnd wordKeys (fun entry => some entry.1) last.slots := by
  refine ⟨⟨4,4,(List.replicate 16 .empty).set 7 (.occupied (7,9)),1⟩,by decide +kernel,?_⟩
  refine ((probes_end wordKeys).1 4 4 0 true ⟨4,4,List.replicate 16 .empty,0⟩ [(.insert 7 9 true,.status none)] _ rfl ?_).1
  exact Reached.start.call (Or.inr (Or.inl (by decide +kernel))) (by decide +kernel)

theorem tombstones_endless {α κ : Type} (keys : Keys κ) (key : α → Option κ) {n : Nat} {slots : List (Slot α)}
    (all : slots = List.replicate n .tombstone) : (¬ ∃ i : Nat, slots[i]? = some .empty) ∧ ∀ k fuel,
      probe slots (hasKey keys key k) fuel (keys.hash k &&& (slots.length - 1)) none = none := by
  refine ⟨?_,fun k fuel => probe_tombstones all fuel _ none⟩
  rintro ⟨i,empty⟩
  rw [all,List.getElem?_replicate] at empty
  split at empty <;> cases empty

theorem reached_last {σ ι ρ : Type} {call : σ → ι → Result (σ × ρ)} {start last : σ} {ops : List ι}
    (ran : (callAll call start ops).map Prod.fst = .ok last) :
    ∃ log, Reached call (fun _ _ => True) start log last := by
  cases all : callAll call start ops with
  | error stop =>
    rw [all] at ran
    cases ran
  | ok final =>
    rw [all] at ran
    cases ran
    exact ⟨_,reached_callAll .start all⟩

/-- Sixteen keys that come and go one after the other leave sixteen tombstones. -/
theorem probes_run_on :
    (∃ (table last : HashTable UInt32 UInt32) (log : _), HashTable.create 4 4 0 true = some table ∧
      Reached (HashTable.call wordKeys) (fun _ _ => True) table log last ∧
      (¬ ∃ i : Nat, last.slots[i]? = some .empty) ∧ ∀ k fuel, probe last.slots
        (hasKey wordKeys (fun entry => some entry.1) k) fuel (wordKeys.hash k &&& (last.slots.length - 1)) none = none) ∧
    (∃ (set last : HashSet UInt32) (log : _), HashSet.create 4 0 true = some set ∧
      Reached (HashSet.call wordKeys) (fun _ _ => True) set log last ∧
      (¬ ∃ i : Nat, last.slots[i]? = some .empty) ∧ ∀ k fuel, probe last.slots
        (hasKey wordKeys some k) fuel (wordKeys.hash k &&& (last.slots.length - 1)) none = none) ∧
    (∃ (map last : IndexedMap UInt32 UInt32) (log : _), IndexedMap.create 4 4 0 true true = some map ∧
      Reached (IndexedMap.call wordKeys) (fun _ _ => True) map log last ∧
      (¬ ∃ i : Nat, last.slots[i]? = some .empty) ∧ ∀ k fuel, probe last.slots
        (hasKey wordKeys (IndexedMap.keyAt last.dense) k) fuel (wordKeys.hash k &&& (last.slots.length - 1)) none = none) := by
  refine ⟨?_,?_,?_⟩
  · have ran : (callAll (HashTable.call wordKeys) ⟨4,4,List.replicate 16 .empty,0⟩ ((List.range 16).flatMap fun k =>
        [.insert k.toUInt32 (0 : UInt32) true,.remove k.toUInt32])).map Prod.fst =
        .ok ⟨4,4,List.replicate 16 .tombstone,0⟩ := by decide +kernel
    obtain ⟨log,reached⟩ := reached_last ran
    exact ⟨_,_,log,rfl,reached,tombstones_endless wordKeys _ rfl⟩
  · have ran : (callAll (HashSet.call wordKeys) ⟨4,List.replicate 16 .empty,0⟩ ((List.range 16).flatMap fun k =>
        [.insert k.toUInt32 true,.remove k.toUInt32])).map Prod.fst =
        .ok ⟨4,List.replicate 16 .tombstone,0⟩ := by decide +kernel
    obtain ⟨log,reached⟩ := reached_last ran
    exact ⟨_,_,log,rfl,reached,tombstones_endless wordKeys _ rfl⟩
  · have ran : (callAll (IndexedMap.call wordKeys) ⟨4,4,List.replicate 16 .empty,16,[]⟩ ((List.range 16).flatMap fun k =>
        [.insert k.toUInt32 (0 : UInt32) true true,.remove k.toUInt32])).map Prod.fst =
        .ok ⟨4,4,List.replicate 16 .tombstone,16,[]⟩ := by decide +kernel
    obtain ⟨log,reached⟩ := reached_last ran
    exact ⟨_,_,log,rfl,reached,tombstones_endless wordKeys _ rfl⟩

end Libnmo.Core
