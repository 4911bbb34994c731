import Stroemnet.GuardedRuns
import Stroemnet.SwapNode
import Mathlib.Data.Finset.Card
import Mathlib.Data.List.DropRight

/-! # The digests that a node remembers

The set by which a node tells what it has seen and the queue by which it forgets hold the same
digests: the latest ones that were new, as many as there is room for. -/
namespace Stroemnet

namespace SeenSet

def step (s : SeenSet) (hash : Bytes32) : SeenSet := (s.insert hash).2

def taken (s : SeenSet) (hash : Bytes32) : List Bytes32 := if (s.insert hash).1 then [hash] else []

def accepted (cap : ℕ) (hashes : List Bytes32) : List Bytes32 :=
  Runs.outputs step taken (new cap) hashes

/-- The set after a number of insertions. -/
def after (cap : ℕ) (hashes : List Bytes32) : SeenSet := Runs.final step (new cap) hashes

/-- What the set and the queue hold once some digests were accepted. -/
structure Remembers (s : SeenSet) (cap : ℕ) (accepted : List Bytes32) : Prop where
  cap_eq : s.cap = cap
  order_eq : s.order = accepted.rtake cap
  set_eq : s.set = s.order.toFinset
  nodup : s.order.Nodup

variable {s : SeenSet} {cap : ℕ} {accepted : List Bytes32}

theorem length_rtake_le {α : Type} (n : ℕ) (l : List α) : (l.rtake n).length ≤ n := by
  rw [List.rtake, List.length_drop]
  omega

/-- A queue that is full loses its first element to the next one. -/
theorem rtake_concat {α : Type} (n : ℕ) (l : List α) (a : α) : (l ++ [a]).rtake n =
    if (l.rtake n).length < n then l.rtake n ++ [a] else (l.rtake n ++ [a]).tail := by
  cases n with
  | zero => simp
  | succ n =>
    rw [List.rtake_concat_succ]
    split_ifs with hlt
    · have hshort : l.length ≤ n := by
        rw [List.rtake, List.length_drop] at hlt
        omega
      have hall : ∀ m, n ≤ m → l.rtake m = l := by
        intro m hm
        rw [List.rtake, Nat.sub_eq_zero_of_le (hshort.trans hm), List.drop_zero]
      rw [hall n le_rfl, hall (n + 1) (Nat.le_succ n)]
    · have hlong : n + 1 ≤ l.length := by
        rw [List.rtake, List.length_drop] at hlt
        omega
      have hne : l.rtake (n + 1) ≠ [] := by
        intro hnil
        rw [hnil] at hlt
        exact hlt (Nat.succ_pos n)
      rw [List.tail_append_of_ne_nil hne, List.rtake, List.rtake, List.tail_drop]
      congr 2
      omega

theorem insert_of_mem {hash : Bytes32} (h : hash ∈ s.set) : s.insert hash = (false, s) :=
  if_pos h

/-- A new digest joins the queue, whose first element goes when there is no room for both. -/
theorem insert_of_notMem {hash : Bytes32} (h : hash ∉ s.set) : s.insert hash = (true,
    if s.cap < (Insert.insert hash s.set).card then
      ⟨s.cap, (Insert.insert hash s.set).erase ((s.order ++ [hash]).head (by simp)),
        (s.order ++ [hash]).tail⟩
    else ⟨s.cap, Insert.insert hash s.set, s.order ++ [hash]⟩) := by
  rw [SeenSet.insert, if_neg h]
  cases s.order with
  | nil => split_ifs <;> simp_all
  | cons oldest rest => split_ifs <;> simp_all

theorem insert_fst (s : SeenSet) (hash : Bytes32) : (s.insert hash).1 = false ↔ hash ∈ s.set := by
  by_cases hmem : hash ∈ s.set
  · simp [insert_of_mem hmem, hmem]
  · simp [insert_of_notMem hmem, hmem]

theorem remembers_new (cap : ℕ) : Remembers (new cap) cap [] where
  cap_eq := rfl
  order_eq := by simp [new]
  set_eq := rfl
  nodup := List.nodup_nil

/-- Erasing the first element of a list without repetitions leaves its tail. -/
theorem toFinset_erase_head {l : List Bytes32} (hne : l ≠ []) (hnodup : l.Nodup) :
    l.toFinset.erase (l.head hne) = l.tail.toFinset := by
  cases l with
  | nil => exact absurd rfl hne
  | cons oldest rest =>
    have hnotMem : oldest ∉ rest.toFinset := by
      rw [List.mem_toFinset]
      exact (List.nodup_cons.mp hnodup).1
    rw [List.head_cons, List.tail_cons, List.toFinset_cons, Finset.erase_insert hnotMem]

theorem Remembers.step (h : Remembers s cap accepted) (hash : Bytes32) :
    Remembers (s.step hash) cap (accepted ++ s.taken hash) := by
  by_cases hmem : hash ∈ s.set
  · rw [SeenSet.step, taken, insert_of_mem hmem]
    simpa using h
  · have hnew : hash ∉ s.order := by
      rwa [h.set_eq, List.mem_toFinset] at hmem
    have hnodup : (s.order ++ [hash]).Nodup := by
      rw [List.nodup_append]
      refine ⟨h.nodup, List.nodup_singleton hash, ?_⟩
      intro a ha b hb
      rw [List.mem_singleton.mp hb]
      intro heq
      exact hnew (heq ▸ ha)
    have hset : Insert.insert hash s.set = (s.order ++ [hash]).toFinset := by
      rw [h.set_eq]
      ext a
      simp
    have hcard : (Insert.insert hash s.set).card = s.order.length + 1 := by
      rw [hset, List.toFinset_card_of_nodup hnodup, List.length_append, List.length_singleton]
    have hlength : s.order.length = (accepted.rtake cap).length := congrArg List.length h.order_eq
    rw [SeenSet.step, taken, insert_of_notMem hmem, hcard, h.cap_eq]
    simp only [if_true]
    by_cases hroom : s.order.length < cap
    · rw [if_neg (by omega)]
      refine ⟨rfl, ?_, hset, hnodup⟩
      rw [rtake_concat, ← h.order_eq, if_pos hroom]
    · rw [if_pos (by omega)]
      refine ⟨rfl, ?_, ?_, hnodup.tail⟩
      · rw [rtake_concat, ← h.order_eq, if_neg hroom]
      · rw [hset]
        exact toFinset_erase_head _ hnodup

theorem Remembers.run (h : Remembers s cap accepted) (hashes : List Bytes32) :
    Remembers (Runs.final SeenSet.step s hashes) cap
      (accepted ++ Runs.outputs SeenSet.step taken s hashes) := by
  induction hashes generalizing s accepted with
  | nil => simpa [Runs.outputs] using h
  | cons hash hashes ih =>
    have hrun := ih (h.step hash)
    rwa [List.append_assoc] at hrun

theorem remembers_after (cap : ℕ) (hashes : List Bytes32) :
    Remembers (after cap hashes) cap (SeenSet.accepted cap hashes) :=
  (remembers_new cap).run hashes

/-- The set and the queue hold the same digests, no more than there is room for, and these are
the last ones that were accepted; a digest is refused exactly when it is one of them. -/
theorem seen_are_last_accepted (cap : ℕ) (hashes : List Bytes32) :
    (after cap hashes).set = (after cap hashes).order.toFinset ∧
    (after cap hashes).order.Nodup ∧
    (after cap hashes).set.card ≤ cap ∧
    (after cap hashes).order.length ≤ cap ∧
    (after cap hashes).order = (SeenSet.accepted cap hashes).rtake cap ∧
    ∀ hash, ((after cap hashes).insert hash).1 = false ↔
      hash ∈ (SeenSet.accepted cap hashes).rtake cap := by
  have h := remembers_after cap hashes
  have hlength : (after cap hashes).order.length ≤ cap := by
    rw [h.order_eq]
    exact length_rtake_le cap _
  refine ⟨h.set_eq, h.nodup, ?_, hlength, h.order_eq, ?_⟩
  · rw [h.set_eq]
    exact (List.toFinset_card_le _).trans hlength
  · intro hash
    rw [insert_fst, h.set_eq, List.mem_toFinset, h.order_eq]

end SeenSet

end Stroemnet
