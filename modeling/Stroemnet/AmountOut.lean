import Stroemnet.EthereumHtlc
import Stroemnet.FloorScaling
import Mathlib.Algebra.Order.Field.Power
import Mathlib.Tactic.FieldSimp
import Mathlib.Tactic.NormNum

/-! # The output of a swap

The amount that is paid for an amount of another token, from fixed point prices and a spread in
hundredths of a percent. Every product is checked against the width of a word, and every division
rounds down. -/
namespace Stroemnet.Amounts
open Evm (Uint256)
open FloorScaling

inductive AmountError
  | arithmeticOverflow (amount : Uint256)
  | divisionByZero (divisor : Uint256)
  | amountOverflow (amount : Uint256)
  | amountUnderflow (amount : Uint256)
deriving DecidableEq

def checkedMul (a b : Uint256) : Option Uint256 :=
  if a.toNat * b.toNat < 2 ^ 256 then some (a * b) else none

def checkedDiv (a b : Uint256) : Option Uint256 := if b = 0 then none else some (a / b)

def pow10 (n : ℕ) : Uint256 := BitVec.ofNat 256 (10 ^ n)

/-- Rescales a value up or down to `toDecimals`. -/
def rescale (amount : Uint256) (fromDecimals toDecimals : UInt8) : Except AmountError Uint256 :=
  let diff : ℤ := toDecimals.toNat - fromDecimals.toNat
  if diff > 0 then okOr (.amountOverflow amount) (checkedMul amount (pow10 diff.toNat))
  else if diff < 0 then okOr (.amountUnderflow amount) (checkedDiv amount (pow10 (-diff).toNat))
  else .ok amount

/-- The output amount, from prices that are whole numbers already. -/
def amountOut (amountIn sourcePriceFixed : Uint256) (sourceDecimals : UInt8)
    (destPriceFixed : Uint256) (destinationDecimals : UInt8) (spreadBps : UInt32) :
    Except AmountError Uint256 := do
  let value ← okOr (.arithmeticOverflow amountIn) (checkedMul amountIn sourcePriceFixed)
  let output ← okOr (.divisionByZero destPriceFixed) (checkedDiv value destPriceFixed)
  let spreadMultiplier : Uint256 := BitVec.ofNat 256 (10000 - spreadBps.toNat)
  let kept ← okOr (.arithmeticOverflow output) (checkedMul output spreadMultiplier)
  let afterSpread ← okOr (.divisionByZero 10000) (checkedDiv kept 10000)
  rescale afterSpread sourceDecimals destinationDecimals

theorem checkedMul_eq_some {a b c : Uint256} : checkedMul a b = some c ↔
    a.toNat * b.toNat < 2 ^ 256 ∧ c.toNat = a.toNat * b.toNat := by
  unfold checkedMul
  split_ifs with h
  · rw [Option.some.injEq, eq_comm, ← BitVec.toNat_inj, BitVec.toNat_mul, Nat.mod_eq_of_lt h]
    exact ⟨fun hc => ⟨h, hc⟩, And.right⟩
  · exact ⟨nofun, fun hc => absurd hc.1 h⟩

theorem checkedDiv_eq_some {a b c : Uint256} : checkedDiv a b = some c ↔
    b.toNat ≠ 0 ∧ c.toNat = a.toNat / b.toNat := by
  have hzero : b = 0 ↔ b.toNat = 0 := by
    rw [← BitVec.toNat_inj]
    rfl
  unfold checkedDiv
  split_ifs with h
  · exact ⟨nofun, fun hc => absurd (hzero.mp h) hc.1⟩
  · rw [Option.some.injEq, eq_comm, ← BitVec.toNat_inj, BitVec.toNat_udiv]
    exact ⟨fun hc => ⟨fun hb => h (hzero.mpr hb), hc⟩, And.right⟩

theorem toNat_pow10 {n : ℕ} (h : n ≤ 77) : (pow10 n).toNat = 10 ^ n := by
  have hle : 10 ^ n ≤ 10 ^ 77 := Nat.pow_le_pow_right (by norm_num) h
  have hlt : (10 : ℕ) ^ 77 < 2 ^ 256 := by norm_num
  rw [pow10, BitVec.toNat_ofNat, Nat.mod_eq_of_lt (hle.trans_lt hlt)]

/-- Between decimals that are close enough the powers are exact: one of the two is one. -/
theorem rescale_eq_ok {amount r : Uint256} {fd td : UInt8} (hup : td.toNat ≤ fd.toNat + 77)
    (hdown : fd.toNat ≤ td.toNat + 77) : rescale amount fd td = .ok r ↔
      amount.toNat * 10 ^ (td.toNat - fd.toNat) < 2 ^ 256 ∧
      r.toNat = amount.toNat * 10 ^ (td.toNat - fd.toNat) / 10 ^ (fd.toNat - td.toNat) := by
  simp only [rescale]
  split_ifs with hpos hneg
  · have hdiff : ((td.toNat : ℤ) - fd.toNat).toNat = td.toNat - fd.toNat := by omega
    have hzero : fd.toNat - td.toNat = 0 := by omega
    rw [okOr_eq_ok, checkedMul_eq_some, hdiff, toNat_pow10 (by omega), hzero, pow_zero, Nat.div_one]
  · have hdiff : (-((td.toNat : ℤ) - fd.toNat)).toNat = fd.toNat - td.toNat := by omega
    have hzero : td.toNat - fd.toNat = 0 := by omega
    have hpow : (10 : ℕ) ^ (fd.toNat - td.toNat) ≠ 0 := by positivity
    rw [okOr_eq_ok, checkedDiv_eq_some, hdiff, toNat_pow10 (by omega), hzero, pow_zero, mul_one]
    exact ⟨fun h => ⟨amount.isLt, h.2⟩, fun h => ⟨hpow, h.2⟩⟩
  · have hup' : td.toNat - fd.toNat = 0 := by omega
    have hdown' : fd.toNat - td.toNat = 0 := by omega
    rw [hup', hdown', pow_zero, mul_one, Nat.div_one, Except.ok.injEq, eq_comm,
      ← BitVec.toNat_inj]
    exact ⟨fun h => ⟨amount.isLt, h⟩, And.right⟩

def spreadMultiplier (spreadBps : UInt32) : ℕ := 10000 - spreadBps.toNat

def priceRatios (s d : Uint256) (spreadBps : UInt32) : List (ℕ × ℕ) :=
  [(s.toNat, d.toNat), (spreadMultiplier spreadBps, 10000)]

def swapRatios (s : Uint256) (fd : UInt8) (d : Uint256) (td : UInt8) (spreadBps : UInt32) :
    List (ℕ × ℕ) :=
  priceRatios s d spreadBps ++ [(10 ^ (td.toNat - fd.toNat), 10 ^ (fd.toNat - td.toNat))]

/-- The products that are made on the way all fit in a word. -/
structure Fits (amountIn s : Uint256) (fd : UInt8) (d : Uint256) (td : UInt8)
    (spreadBps : UInt32) : Prop where
  value : amountIn.toNat * s.toNat < 2 ^ 256
  spread : amountIn.toNat * s.toNat / d.toNat * spreadMultiplier spreadBps < 2 ^ 256
  rescaled : scaled (priceRatios s d spreadBps) amountIn.toNat * 10 ^ (td.toNat - fd.toNat) <
    2 ^ 256

section Result

variable {amountIn s d r : Uint256} {fd td : UInt8} {spreadBps : UInt32}

/-- A result is computed exactly when there is something to divide by and the products fit, and it
is that of whole numbers. -/
theorem amountOut_eq_ok (hup : td.toNat ≤ fd.toNat + 77) (hdown : fd.toNat ≤ td.toNat + 77) :
    amountOut amountIn s fd d td spreadBps = .ok r ↔
      d.toNat ≠ 0 ∧ Fits amountIn s fd d td spreadBps ∧
      r.toNat = scaled (priceRatios s d spreadBps) amountIn.toNat *
        10 ^ (td.toNat - fd.toNat) / 10 ^ (fd.toNat - td.toNat) := by
  have hmultiplier : (BitVec.ofNat 256 (10000 - spreadBps.toNat)).toNat =
      spreadMultiplier spreadBps := by
    rw [BitVec.toNat_ofNat, Nat.mod_eq_of_lt (by omega)]
    rfl
  have hdivisor : (10000 : Uint256).toNat = 10000 := rfl
  simp only [amountOut, bind_eq_ok, okOr_eq_ok, checkedMul_eq_some, checkedDiv_eq_some,
    hmultiplier, hdivisor, rescale_eq_ok hup hdown]
  constructor
  · rintro ⟨value, ⟨hvalue, hv⟩, output, ⟨hd, ho⟩, kept, ⟨hkept, hk⟩, after, ⟨-, ha⟩, hfits, hr⟩
    have hafter : after.toNat = scaled (priceRatios s d spreadBps) amountIn.toNat := by
      rw [ha, hk, ho, hv]
      rfl
    rw [ho, hv] at hkept
    rw [hafter] at hfits hr
    exact ⟨hd, ⟨hvalue, hkept, hfits⟩, hr⟩
  · rintro ⟨hd, hfits, hr⟩
    have hword : ∀ n < 2 ^ 256, ∃ w : Uint256, w.toNat = n :=
      fun n hn => ⟨.ofNat 256 n, by rw [BitVec.toNat_ofNat, Nat.mod_eq_of_lt hn]⟩
    obtain ⟨value, hv⟩ := hword _ hfits.value
    obtain ⟨output, ho⟩ := hword (value.toNat / d.toNat)
      ((Nat.div_le_self _ _).trans_lt value.isLt)
    have hkept : output.toNat * spreadMultiplier spreadBps < 2 ^ 256 := by
      rw [ho, hv]
      exact hfits.spread
    obtain ⟨kept, hk⟩ := hword _ hkept
    obtain ⟨after, ha⟩ := hword (kept.toNat / 10000) ((Nat.div_le_self _ _).trans_lt kept.isLt)
    have hafter : after.toNat = scaled (priceRatios s d spreadBps) amountIn.toNat := by
      rw [ha, hk, ho, hv]
      rfl
    refine ⟨value, ⟨hfits.value, hv⟩, output, ⟨hd, ho⟩, kept, ⟨hkept, hk⟩, after,
      ⟨by norm_num, ha⟩, ?_, ?_⟩
    · rw [hafter]
      exact hfits.rescaled
    · rw [hafter]
      exact hr

end Result

def exactOut (amountIn s : Uint256) (fd : UInt8) (d : Uint256) (td : UInt8)
    (spreadBps : UInt32) : ℚ :=
  amountIn.toNat * s.toNat * spreadMultiplier spreadBps * 10 ^ ((td.toNat : ℤ) - fd.toNat) /
    (d.toNat * 10000)

section Bounds

variable {amountIn s d r : Uint256} {fd td : UInt8} {spreadBps : UInt32}

private theorem ratio_priceRatios : ratio (priceRatios s d spreadBps) =
    s.toNat * spreadMultiplier spreadBps / (d.toNat * 10000) := by
  simp only [priceRatios, ratio, Nat.cast_ofNat]
  ring

private theorem slack_priceRatios_le : slack (priceRatios s d spreadBps) ≤ 2 := by
  have hle : (spreadMultiplier spreadBps : ℚ) ≤ 10000 := by
    exact_mod_cast Nat.sub_le 10000 spreadBps.toNat
  simp only [priceRatios, slack, ratio, Nat.cast_ofNat]
  linarith

theorem exactOut_eq : exactOut amountIn s fd d td spreadBps =
    amountIn.toNat * ratio (priceRatios s d spreadBps) * 10 ^ ((td.toNat : ℤ) - fd.toNat) := by
  rw [exactOut, ratio_priceRatios]
  ring

/-- The power between the decimals, as the two powers that the code uses. -/
theorem zpow_decimals (fd td : UInt8) : (10 : ℚ) ^ ((td.toNat : ℤ) - fd.toNat) =
    10 ^ (td.toNat - fd.toNat) / 10 ^ (fd.toNat - td.toNat) := by
  rcases le_total fd.toNat td.toNat with h | h
  · have hzero : fd.toNat - td.toNat = 0 := by omega
    have hdiff : (td.toNat : ℤ) - fd.toNat = (td.toNat - fd.toNat : ℕ) := by omega
    rw [hdiff, hzero, zpow_natCast, pow_zero, div_one]
  · have hzero : td.toNat - fd.toNat = 0 := by omega
    have hdiff : (td.toNat : ℤ) - fd.toNat = -(fd.toNat - td.toNat : ℕ) := by omega
    rw [hdiff, hzero, zpow_neg, zpow_natCast, pow_zero, one_div]

theorem rescaled_eq_scaled (x : ℕ) :
    scaled (priceRatios s d spreadBps) x * 10 ^ (td.toNat - fd.toNat) / 10 ^ (fd.toNat - td.toNat) =
      scaled (swapRatios s fd d td spreadBps) x := rfl

theorem ratio_swapRatios : ratio (swapRatios s fd d td spreadBps) =
    ratio (priceRatios s d spreadBps) * 10 ^ ((td.toNat : ℤ) - fd.toNat) := by
  rw [zpow_decimals]
  simp only [swapRatios, priceRatios, List.cons_append, List.nil_append, ratio]
  push_cast
  ring

private theorem slack_swapRatios_le (h : td.toNat < fd.toNat) :
    slack (swapRatios s fd d td spreadBps) ≤ 1 + 2 / 10 ^ (fd.toNat - td.toNat) := by
  have hle : (spreadMultiplier spreadBps : ℚ) ≤ 10000 := by
    exact_mod_cast Nat.sub_le 10000 spreadBps.toNat
  have hpow : (0 : ℚ) < 1 / 10 ^ (fd.toNat - td.toNat) := by positivity
  have hzero : td.toNat - fd.toNat = 0 := by omega
  have hspread : (spreadMultiplier spreadBps : ℚ) / 10000 * (1 / 10 ^ (fd.toNat - td.toNat)) ≤
      1 / 10 ^ (fd.toNat - td.toNat) :=
    mul_le_of_le_one_left hpow.le (by rw [div_le_one (by norm_num)]; exact hle)
  simp only [swapRatios, priceRatios, hzero, List.cons_append, List.nil_append, slack, ratio]
  push_cast
  simp only [mul_one, add_zero] at *
  rw [← mul_one_div (2 : ℚ)]
  linarith

end Bounds

/-- A result is at most the exact output and misses it by less than two units of the source, or by
less than one unit of the destination more than that. -/
structure Near (r : Uint256) (exact : ℚ) (fd td : UInt8) : Prop where
  le : (r.toNat : ℚ) ≤ exact
  up : fd ≤ td → exact - r.toNat < 2 * 10 ^ (td.toNat - fd.toNat)
  down : td < fd → exact - r.toNat < 1 + 2 / 10 ^ (fd.toNat - td.toNat)

section Conservative

variable {amountIn s d r : Uint256} {fd td : UInt8} {spreadBps : UInt32}

theorem pos_of_mem_priceRatios (hd : d.toNat ≠ 0) :
    ∀ q ∈ priceRatios s d spreadBps, 0 < q.2 := by
  simpa [priceRatios] using Nat.pos_of_ne_zero hd

private theorem pos_of_mem_swapRatios (hd : d.toNat ≠ 0) :
    ∀ q ∈ swapRatios s fd d td spreadBps, 0 < q.2 := by
  intro q hq
  rcases List.mem_append.mp hq with hq | hq
  · exact pos_of_mem_priceRatios hd q hq
  · rw [List.mem_singleton.mp hq]
    positivity

theorem le_exactOut (hup : td.toNat ≤ fd.toNat + 77) (hdown : fd.toNat ≤ td.toNat + 77)
    (h : amountOut amountIn s fd d td spreadBps = .ok r) :
    (r.toNat : ℚ) ≤ exactOut amountIn s fd d td spreadBps := by
  obtain ⟨-, -, hr⟩ := (amountOut_eq_ok hup hdown).mp h
  rw [hr, rescaled_eq_scaled, exactOut_eq, mul_assoc, ← ratio_swapRatios]
  exact scaled_le _ _

private theorem near_amountOut (hup : td.toNat ≤ fd.toNat + 77) (hdown : fd.toNat ≤ td.toNat + 77)
    (h : amountOut amountIn s fd d td spreadBps = .ok r) :
    Near r (exactOut amountIn s fd d td spreadBps) fd td := by
  obtain ⟨hd, -, hr⟩ := (amountOut_eq_ok hup hdown).mp h
  refine ⟨le_exactOut hup hdown h, fun hle => ?_, fun hlt => ?_⟩
  · have hle' : fd.toNat ≤ td.toNat := UInt8.le_iff_toNat_le.mp hle
    have hzero : fd.toNat - td.toNat = 0 := by omega
    have hpow : (0 : ℚ) < 10 ^ (td.toNat - fd.toNat) := by positivity
    have hne : priceRatios s d spreadBps ≠ [] := List.cons_ne_nil _ _
    have hlost := sub_scaled_lt hne (pos_of_mem_priceRatios hd) amountIn.toNat
    rw [hr, exactOut_eq, zpow_decimals, hzero, pow_zero, pow_zero, div_one, Nat.div_one]
    push_cast
    rw [← sub_mul]
    exact mul_lt_mul_of_pos_right (hlost.trans_le slack_priceRatios_le) hpow
  · have hlt' : td.toNat < fd.toNat := UInt8.lt_iff_toNat_lt.mp hlt
    have hne : swapRatios s fd d td spreadBps ≠ [] := List.cons_ne_nil _ _
    have hlost := sub_scaled_lt hne (pos_of_mem_swapRatios hd) amountIn.toNat
    rw [ratio_swapRatios, ← mul_assoc, ← exactOut_eq, ← rescaled_eq_scaled, ← hr] at hlost
    exact hlost.trans_le (slack_swapRatios_le hlt')

/-- More of the input or a better price never gives less. -/
theorem amountOut_mono (hup : td.toNat ≤ fd.toNat + 77) (hdown : fd.toNat ≤ td.toNat + 77)
    (h : amountOut amountIn s fd d td spreadBps = .ok r) {amountIn' s' d' r' : Uint256}
    {spreadBps' : UInt32} (h' : amountOut amountIn' s' fd d' td spreadBps' = .ok r')
    (hamount : amountIn ≤ amountIn') (hs : s ≤ s') (hd : d' ≤ d)
    (hspread : spreadBps' ≤ spreadBps) :
    r ≤ r' := by
  obtain ⟨-, -, hr⟩ := (amountOut_eq_ok hup hdown).mp h
  obtain ⟨hd', -, hr'⟩ := (amountOut_eq_ok hup hdown).mp h'
  rw [BitVec.le_def] at hamount hs hd
  rw [UInt32.le_iff_toNat_le] at hspread
  rw [BitVec.le_def, hr, hr', rescaled_eq_scaled, rescaled_eq_scaled]
  refine scaled_mono ?_ hamount
  have hmultiplier : spreadMultiplier spreadBps ≤ spreadMultiplier spreadBps' := by
    unfold spreadMultiplier
    omega
  exact .cons ⟨hs, hd, Nat.pos_of_ne_zero hd'⟩ (.cons ⟨hmultiplier, le_rfl, by norm_num⟩
    (.cons ⟨le_rfl, le_rfl, by positivity⟩ .nil))

/-- Exact conversions there and back leave what the two spreads leave. -/
theorem exactOut_back_le (hd : d.toNat ≠ 0) (hs : s.toNat ≠ 0)
    (hr : (r.toNat : ℚ) ≤ exactOut amountIn s fd d td spreadBps) (spreadBps' : UInt32) :
    exactOut r d td s fd spreadBps' ≤ amountIn.toNat := by
  have hd' : (0 : ℚ) < d.toNat := Nat.cast_pos.mpr (Nat.pos_of_ne_zero hd)
  have hs' : (0 : ℚ) < s.toNat := Nat.cast_pos.mpr (Nat.pos_of_ne_zero hs)
  have hle : ∀ bps, (spreadMultiplier bps : ℚ) / 10000 ≤ 1 := fun bps => by
    rw [div_le_one (by norm_num)]
    exact_mod_cast Nat.sub_le 10000 bps.toNat
  have hinverse :
      (10 : ℚ) ^ ((td.toNat : ℤ) - fd.toNat) * 10 ^ ((fd.toNat : ℤ) - td.toNat) = 1 := by
    rw [← zpow_add₀ (by norm_num), sub_add_sub_cancel, sub_self, zpow_zero]
  calc exactOut r d td s fd spreadBps'
      = r.toNat * (d.toNat * spreadMultiplier spreadBps' * 10 ^ ((fd.toNat : ℤ) - td.toNat) /
          (s.toNat * 10000)) := by rw [exactOut]; ring
    _ ≤ exactOut amountIn s fd d td spreadBps *
          (d.toNat * spreadMultiplier spreadBps' * 10 ^ ((fd.toNat : ℤ) - td.toNat) /
            (s.toNat * 10000)) := mul_le_mul_of_nonneg_right hr (by positivity)
    _ = amountIn.toNat * ((spreadMultiplier spreadBps / 10000) *
          (spreadMultiplier spreadBps' / 10000)) *
          (10 ^ ((td.toNat : ℤ) - fd.toNat) * 10 ^ ((fd.toNat : ℤ) - td.toNat)) := by
        rw [exactOut]
        field_simp
    _ ≤ amountIn.toNat := by
        rw [hinverse, mul_one]
        exact mul_le_of_le_one_right (by positivity)
          (mul_le_one₀ (hle _) (by positivity) (hle _))

private theorem round_trip_le (hup : td.toNat ≤ fd.toNat + 77) (hdown : fd.toNat ≤ td.toNat + 77)
    (h : amountOut amountIn s fd d td spreadBps = .ok r) {spreadBps' : UInt32} {back : Uint256}
    (hback : amountOut r d td s fd spreadBps' = .ok back) : back ≤ amountIn := by
  obtain ⟨hd, -, -⟩ := (amountOut_eq_ok hup hdown).mp h
  obtain ⟨hs, -, -⟩ := (amountOut_eq_ok hdown hup).mp hback
  have hexact := (le_exactOut hdown hup hback).trans
    (exactOut_back_le hd hs (le_exactOut hup hdown h) spreadBps')
  rw [BitVec.le_def]
  exact_mod_cast hexact

end Conservative

/-- The output is conservative. Between decimals that are at most 77 apart it is computed exactly
when the destination has a price and no product exceeds a word; it is then near the exact output
and not above it, moves with the input and the prices the way it should, and cannot be converted
back at a profit. -/
theorem amount_out_conservative (amountIn s d : Uint256) (fd td : UInt8) (spreadBps : UInt32)
    (hdecimals : |(fd.toNat : ℤ) - td.toNat| ≤ 77) :
    ((∃ r, amountOut amountIn s fd d td spreadBps = .ok r) ↔
      d ≠ 0 ∧ Fits amountIn s fd d td spreadBps) ∧
    ∀ r, amountOut amountIn s fd d td spreadBps = .ok r →
      Near r (exactOut amountIn s fd d td spreadBps) fd td ∧
      (∀ amountIn' s' d' spreadBps' r', amountOut amountIn' s' fd d' td spreadBps' = .ok r' →
        amountIn ≤ amountIn' → s ≤ s' → d' ≤ d → spreadBps' ≤ spreadBps → r ≤ r') ∧
      ∀ spreadBps' back, amountOut r d td s fd spreadBps' = .ok back → back ≤ amountIn := by
  rw [abs_le] at hdecimals
  have hup : td.toNat ≤ fd.toNat + 77 := by omega
  have hdown : fd.toNat ≤ td.toNat + 77 := by omega
  have hzero : d = 0 ↔ d.toNat = 0 := by
    rw [← BitVec.toNat_inj]
    rfl
  refine ⟨⟨?_, ?_⟩, fun r h => ⟨near_amountOut hup hdown h, ?_, ?_⟩⟩
  · rintro ⟨r, h⟩
    obtain ⟨hd, hfits, -⟩ := (amountOut_eq_ok hup hdown).mp h
    exact ⟨fun heq => hd (hzero.mp heq), hfits⟩
  · rintro ⟨hd, hfits⟩
    refine ⟨.ofNat 256 (scaled (priceRatios s d spreadBps) amountIn.toNat *
      10 ^ (td.toNat - fd.toNat) / 10 ^ (fd.toNat - td.toNat)), (amountOut_eq_ok hup hdown).mpr
      ⟨fun heq => hd (hzero.mpr heq), hfits, ?_⟩⟩
    rw [BitVec.toNat_ofNat, Nat.mod_eq_of_lt ((Nat.div_le_self _ _).trans_lt hfits.rescaled)]
  · exact fun amountIn' s' d' spreadBps' r' h' hamount hs hd hspread =>
      amountOut_mono hup hdown h h' hamount hs hd hspread
  · exact fun spreadBps' back hback => round_trip_le hup hdown h hback

/-- A thousand coins of eight decimals at 0.15, for one of eighteen decimals at 3000, with a spread
of 0.3 percent, and back. -/
theorem amount_out_conservative_sample :
    amountOut 100000000000 15000000 8 300000000000 18 30 = .ok 49850000000000000 ∧
    amountOut 49850000000000000 300000000000 18 15000000 8 30 = .ok 99400900000 ∧
    (99400900000 : Uint256) ≤ 100000000000 := by
  have hout : amountOut 100000000000 15000000 8 300000000000 18 30 = .ok 49850000000000000 := by
    decide +kernel
  have hback : amountOut 49850000000000000 300000000000 18 15000000 8 30 = .ok 99400900000 := by
    decide +kernel
  exact ⟨hout, hback, ((amount_out_conservative 100000000000 15000000 300000000000 8 18 30
    (by decide)).2 _ hout).2.2 30 _ hback⟩

end Stroemnet.Amounts
