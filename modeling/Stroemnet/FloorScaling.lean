import Mathlib.Algebra.BigOperators.Group.List.Basic
import Mathlib.Algebra.Order.Field.Basic
import Mathlib.Data.Nat.Cast.Order.Field
import Mathlib.Data.Rat.Cast.Order
import Mathlib.Tactic.Linarith
import Mathlib.Tactic.Positivity
import Mathlib.Tactic.Ring

/-! # Scaling with whole numbers

A number is scaled by ratios, one after the other, and what is left of the whole is dropped every
time. The result is at most the exact product, misses it by less than the dropped parts can come
to, and grows with every numerator and with the number itself. -/
namespace FloorScaling

/-- The number `x` scaled by the ratios `n / d`, rounded down after each. -/
def scaled : List (ℕ × ℕ) → ℕ → ℕ
  | [], x => x
  | (n, d) :: rs, x => scaled rs (x * n / d)

def ratio : List (ℕ × ℕ) → ℚ
  | [] => 1
  | (n, d) :: rs => n / d * ratio rs

/-- What the parts that are dropped come to at most: each is less than one, and is scaled by the
ratios after it. -/
def slack : List (ℕ × ℕ) → ℚ
  | [] => 0
  | _ :: rs => ratio rs + slack rs

variable {rs rs' : List (ℕ × ℕ)} {x x' : ℕ}

theorem ratio_nonneg (rs : List (ℕ × ℕ)) : 0 ≤ ratio rs := by
  induction rs with
  | nil => exact zero_le_one
  | cons r rs ih => exact mul_nonneg (by positivity) ih

theorem scaled_le (rs : List (ℕ × ℕ)) (x : ℕ) : (scaled rs x : ℚ) ≤ x * ratio rs := by
  induction rs generalizing x with
  | nil => simp [scaled, ratio]
  | cons r rs ih =>
    obtain ⟨n, d⟩ := r
    have hfloor : ((x * n / d : ℕ) : ℚ) ≤ x * (n / d) := by
      have hdiv := Nat.cast_div_le (m := x * n) (n := d) (α := ℚ)
      rwa [Nat.cast_mul, mul_div_assoc] at hdiv
    calc (scaled rs (x * n / d) : ℚ)
        ≤ (x * n / d : ℕ) * ratio rs := ih _
      _ ≤ x * (n / d) * ratio rs := mul_le_mul_of_nonneg_right hfloor (ratio_nonneg rs)
      _ = x * ratio ((n, d) :: rs) := by rw [ratio, mul_assoc]

theorem sub_scaled_lt (hne : rs ≠ []) (hpos : ∀ r ∈ rs, 0 < r.2) (x : ℕ) :
    x * ratio rs - scaled rs x < slack rs := by
  induction rs generalizing x with
  | nil => exact absurd rfl hne
  | cons r rs ih =>
    obtain ⟨n, d⟩ := r
    rw [List.forall_mem_cons] at hpos
    have hd : (0 : ℚ) < d := Nat.cast_pos.mpr hpos.1
    have hfloor : (x : ℚ) * (n / d) - (x * n / d : ℕ) < 1 := by
      have hlt : x * n < d * (x * n / d + 1) := Nat.lt_mul_div_succ _ hpos.1
      have hcast : (x : ℚ) * n < d * ((x * n / d : ℕ) + 1) := by exact_mod_cast hlt
      rw [← mul_div_assoc, sub_lt_iff_lt_add', div_lt_iff₀ hd]
      linarith
    -- the part that is dropped here, scaled by the rest, and what the rest drops
    have hsplit : (x : ℚ) * ratio ((n, d) :: rs) - scaled ((n, d) :: rs) x =
        (x * (n / d) - (x * n / d : ℕ)) * ratio rs +
          ((x * n / d : ℕ) * ratio rs - scaled rs (x * n / d)) := by
      rw [ratio, scaled]
      ring
    rw [hsplit, slack]
    cases rs with
    | nil => simpa [ratio, slack, scaled] using hfloor
    | cons r' rs =>
      have hrest := ih (List.cons_ne_nil _ _) hpos.2 (x * n / d)
      have hone := mul_le_of_le_one_left (ratio_nonneg (r' :: rs)) hfloor.le
      linarith

/-- Larger numerators and smaller denominators scale further. -/
theorem scaled_mono (hrs : List.Forall₂ (fun r r' => r.1 ≤ r'.1 ∧ r'.2 ≤ r.2 ∧ 0 < r'.2) rs rs')
    (hx : x ≤ x') : scaled rs x ≤ scaled rs' x' := by
  induction hrs generalizing x x' with
  | nil => exact hx
  | cons h _ ih =>
    obtain ⟨hn, hd, hpos⟩ := h
    exact ih (Nat.div_le_div (Nat.mul_le_mul hx hn) hd hpos.ne')

end FloorScaling
