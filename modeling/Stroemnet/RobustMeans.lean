import Mathlib.Algebra.BigOperators.Ring.List
import Mathlib.Algebra.Order.BigOperators.Group.List
import Mathlib.Algebra.Order.Field.Basic
import Mathlib.Data.List.Sort

/-! # Middles and means of lists

In a sorted list most of which lies in an interval, the middle lies there too. A mean with weights
that are not negative lies in every interval that holds all its values. -/
namespace RobustMeans

section Sorted

variable {α : Type*} [LinearOrder α] {l : List α} {lo hi : α} {i : ℕ}

def inside (lo hi : α) (l : List α) : ℕ := l.countP fun a => lo ≤ a ∧ a ≤ hi

theorem inside_append (lo hi : α) (a b : List α) :
    inside lo hi (a ++ b) = inside lo hi a + inside lo hi b :=
  List.countP_append

theorem inside_le_length (lo hi : α) (l : List α) : inside lo hi l ≤ l.length :=
  List.countP_le_length

theorem inside_perm {l' : List α} (h : l.Perm l') : inside lo hi l = inside lo hi l' :=
  h.countP_eq _

theorem inside_eq_zero (h : ∀ a ∈ l, a < lo ∨ hi < a) : inside lo hi l = 0 := by
  rw [inside, List.countP_eq_zero]
  intro a ha hin
  obtain ⟨hlo, hhi⟩ := of_decide_eq_true hin
  rcases h a ha with hlt | hlt
  · exact absurd hlo (not_le.mpr hlt)
  · exact absurd hhi (not_le.mpr hlt)

theorem take_le (hsorted : l.SortedLE) {a : α} (ha : l[i]? = some a) :
    ∀ b ∈ l.take (i + 1), b ≤ a := by
  intro b hb
  obtain ⟨j, hj, rfl⟩ := List.mem_take_iff_getElem.mp hb
  obtain ⟨hi, rfl⟩ := List.getElem?_eq_some_iff.mp ha
  exact hsorted.getElem_le_getElem_of_le (by omega)

theorem le_drop (hsorted : l.SortedLE) {a : α} (ha : l[i]? = some a) :
    ∀ b ∈ l.drop i, a ≤ b := by
  intro b hb
  obtain ⟨j, hj, rfl⟩ := List.mem_drop_iff_getElem.mp hb
  obtain ⟨hi, rfl⟩ := List.getElem?_eq_some_iff.mp ha
  exact hsorted.getElem_le_getElem_of_le (by omega)

/-- With more than half of a sorted list in an interval, an element in the middle is there. -/
theorem middle_mem_of_majority (hsorted : l.SortedLE)
    (hmajority : l.length < 2 * inside lo hi l) {a : α} (ha : l[i]? = some a)
    (hafter : l.length ≤ 2 * i + 2) (hbefore : 2 * i ≤ l.length) : lo ≤ a ∧ a ≤ hi := by
  obtain ⟨hlt, -⟩ := List.getElem?_eq_some_iff.mp ha
  constructor
  · by_contra hlo
    have hzero : inside lo hi (l.take (i + 1)) = 0 := inside_eq_zero fun b hb =>
      .inl ((take_le hsorted ha b hb).trans_lt (not_le.mp hlo))
    have hsplit := inside_append lo hi (l.take (i + 1)) (l.drop (i + 1))
    have hrest := inside_le_length lo hi (l.drop (i + 1))
    rw [List.take_append_drop] at hsplit
    rw [List.length_drop] at hrest
    omega
  · by_contra hhi
    have hzero : inside lo hi (l.drop i) = 0 := inside_eq_zero fun b hb =>
      .inr ((not_le.mp hhi).trans_le (le_drop hsorted ha b hb))
    have hsplit := inside_append lo hi (l.take i) (l.drop i)
    have hrest := inside_le_length lo hi (l.take i)
    rw [List.take_append_drop] at hsplit
    rw [List.length_take] at hrest
    omega

end Sorted

section Means

variable {ι K : Type*} [Field K] [LinearOrder K] [IsStrictOrderedRing K]
  {l : List ι} {v w : ι → K} {lo hi : K}

theorem weightedMean_mem (hweight : ∀ i ∈ l, 0 ≤ w i) (htotal : 0 < (l.map w).sum)
    (hvalue : ∀ i ∈ l, lo ≤ v i ∧ v i ≤ hi) :
    lo ≤ (l.map fun i => v i * w i).sum / (l.map w).sum ∧
      (l.map fun i => v i * w i).sum / (l.map w).sum ≤ hi := by
  rw [le_div_iff₀ htotal, div_le_iff₀ htotal, ← List.sum_map_mul_left, ← List.sum_map_mul_left]
  constructor
  · apply List.sum_le_sum
    intro i hi
    exact mul_le_mul_of_nonneg_right (hvalue i hi).1 (hweight i hi)
  · apply List.sum_le_sum
    intro i hi
    exact mul_le_mul_of_nonneg_right (hvalue i hi).2 (hweight i hi)

theorem mean_mem (hne : l ≠ []) (hvalue : ∀ i ∈ l, lo ≤ v i ∧ v i ≤ hi) :
    lo ≤ (l.map v).sum / l.length ∧ (l.map v).sum / l.length ≤ hi := by
  have hlength : (l.map fun _ => (1 : K)).sum = l.length := by
    simp
  have hpos : (0 : K) < l.length := by
    exact_mod_cast List.length_pos_iff.mpr hne
  have hmem := weightedMean_mem (w := fun _ => 1) (fun _ _ => zero_le_one) (hlength ▸ hpos) hvalue
  simpa [hlength] using hmem

end Means

end RobustMeans
