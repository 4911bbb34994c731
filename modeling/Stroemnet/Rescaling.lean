import Stroemnet.AmountOut
import Mathlib.Algebra.Order.Floor.Semifield
import Mathlib.Data.Rat.Floor

/-! # Rescaling between decimals

An amount is multiplied or divided by a power of ten that is computed in a word of 256 bits and
wraps around beyond the seventy-seventh. What comes of it is the exact value where the power is
exact, or where the remainder that takes its place makes no difference. -/
namespace Stroemnet.Amounts
open Evm (Uint256)

def exactRescaled (amount : Uint256) (fd td : UInt8) : ℕ :=
  ⌊(amount.toNat : ℚ) * 10 ^ ((td.toNat : ℤ) - fd.toNat)⌋₊

/-- The exact value if it fits in a word, and otherwise an overflow. -/
def RescalesExactly (amount : Uint256) (fd td : UInt8) : Prop :=
  rescale amount fd td =
    if exactRescaled amount fd td < 2 ^ 256 then .ok (.ofNat 256 (exactRescaled amount fd td))
    else .error (.amountOverflow amount)

/-- What is scaled up comes back when it is scaled down again. -/
def ScalesBack (amount : Uint256) (fd td : UInt8) : Prop :=
  fd ≤ td → ∀ r, rescale amount fd td = .ok r → rescale r td fd = .ok amount

/-- The power of ten is exact, or what is left of it in a word leads to an overflow or to zero as
the power itself would. -/
def FactorHarmless (amount : Uint256) (fd td : UInt8) : Prop :=
  if fd.toNat + 77 < td.toNat then
    amount.toNat = 0 ∨ 2 ^ 256 ≤ amount.toNat * (10 ^ (td.toNat - fd.toNat) % 2 ^ 256)
  else if td.toNat + 77 < fd.toNat then amount.toNat < 10 ^ (fd.toNat - td.toNat) % 2 ^ 256
  else True

variable {amount : Uint256} {fd td : UInt8}

theorem exactRescaled_eq (amount : Uint256) (fd td : UInt8) : exactRescaled amount fd td =
    amount.toNat * 10 ^ (td.toNat - fd.toNat) / 10 ^ (fd.toNat - td.toNat) := by
  rw [exactRescaled, zpow_decimals, ← mul_div_assoc]
  exact_mod_cast Nat.floor_div_eq_div (K := ℚ) (amount.toNat * 10 ^ (td.toNat - fd.toNat))
    (10 ^ (fd.toNat - td.toNat))

theorem two_pow_256_lt {n : ℕ} (h : 77 < n) : 2 ^ 256 < 10 ^ n := by
  have hle : 10 ^ 78 ≤ 10 ^ n := Nat.pow_le_pow_right (by norm_num) h
  have hlt : (2 : ℕ) ^ 256 < 10 ^ 78 := by norm_num
  exact hlt.trans_le hle

/-- A power of ten below the two hundred and fifty-sixth leaves something in a word. -/
theorem pow10_ne_zero {n : ℕ} (h : n < 256) : 10 ^ n % 2 ^ 256 ≠ 0 := by
  intro hzero
  have hdvd : 2 ^ 256 ∣ 2 ^ n * 5 ^ n := by
    rw [← mul_pow]
    exact Nat.dvd_of_mod_eq_zero hzero
  have hcoprime : Nat.Coprime (2 ^ 256) (5 ^ n) := Nat.Coprime.pow _ _ (by decide)
  have hpow := hcoprime.dvd_of_dvd_mul_right hdvd
  rw [Nat.pow_dvd_pow_iff_le_right (by norm_num)] at hpow
  omega

theorem rescale_up (h : fd.toNat < td.toNat) : rescale amount fd td =
    okOr (.amountOverflow amount) (checkedMul amount (pow10 (td.toNat - fd.toNat))) := by
  have hdiff : ((td.toNat : ℤ) - fd.toNat).toNat = td.toNat - fd.toNat := by omega
  rw [rescale, if_pos (by omega), hdiff]

private theorem rescale_down (h : td.toNat < fd.toNat) : rescale amount fd td =
    okOr (.amountUnderflow amount) (checkedDiv amount (pow10 (fd.toNat - td.toNat))) := by
  have hdiff : (-((td.toNat : ℤ) - fd.toNat)).toNat = fd.toNat - td.toNat := by omega
  simp only [rescale]
  rw [if_neg (by omega), if_pos (by omega), hdiff]

theorem toNat_pow10_mod (n : ℕ) : (pow10 n).toNat = 10 ^ n % 2 ^ 256 := BitVec.toNat_ofNat _ _

/-- Scaled up, an amount is multiplied by what a word holds of the power. -/
theorem rescale_up_eq_ok {r : Uint256} (h : fd.toNat < td.toNat) : rescale amount fd td = .ok r ↔
    amount.toNat * (10 ^ (td.toNat - fd.toNat) % 2 ^ 256) < 2 ^ 256 ∧
      r.toNat = amount.toNat * (10 ^ (td.toNat - fd.toNat) % 2 ^ 256) := by
  rw [rescale_up h, okOr_eq_ok, checkedMul_eq_some, toNat_pow10_mod]

/-- Scaled down, it is divided by what a word holds of the power, which is never zero. -/
theorem rescale_down_eq_ok {r : Uint256} (h : td.toNat < fd.toNat) : rescale amount fd td = .ok r ↔
    r.toNat = amount.toNat / (10 ^ (fd.toNat - td.toNat) % 2 ^ 256) := by
  have hlt := fd.toNat_lt
  have hne := pow10_ne_zero (n := fd.toNat - td.toNat) (by omega)
  rw [rescale_down h, okOr_eq_ok, checkedDiv_eq_some, toNat_pow10_mod]
  exact ⟨And.right, fun hr => ⟨hne, hr⟩⟩

theorem rescale_up_eq_error (h : fd.toNat < td.toNat)
    (hover : 2 ^ 256 ≤ amount.toNat * (10 ^ (td.toNat - fd.toNat) % 2 ^ 256)) :
    rescale amount fd td = .error (.amountOverflow amount) := by
  rw [rescale_up h, checkedMul, toNat_pow10_mod, if_neg (Nat.not_lt.mpr hover)]
  rfl

private theorem scalesBack (amount : Uint256) (fd td : UInt8) : ScalesBack amount fd td := by
  intro hle r hr
  rw [UInt8.le_iff_toNat_le] at hle
  rcases hle.lt_or_eq with hlt | heq
  · rw [rescale_up_eq_ok hlt] at hr
    rw [rescale_down_eq_ok hlt, hr.2]
    have hlt' := td.toNat_lt
    have hpos := Nat.pos_of_ne_zero (pow10_ne_zero (n := td.toNat - fd.toNat) (by omega))
    exact (Nat.mul_div_cancel _ hpos).symm
  · have hsame : fd = td := UInt8.toNat.inj heq
    subst hsame
    have hid : ∀ x, rescale x fd fd = .ok x := fun x => by simp [rescale]
    rw [hid, Except.ok.injEq] at hr
    rw [hid, hr]

theorem rescalesExactly_iff_ok (h : exactRescaled amount fd td < 2 ^ 256) :
    RescalesExactly amount fd td ↔
      rescale amount fd td = .ok (.ofNat 256 (exactRescaled amount fd td)) := by
  rw [RescalesExactly, if_pos h]

theorem rescalesExactly_iff_error (h : 2 ^ 256 ≤ exactRescaled amount fd td) :
    RescalesExactly amount fd td ↔ rescale amount fd td = .error (.amountOverflow amount) := by
  rw [RescalesExactly, if_neg (Nat.not_lt.mpr h)]

/-- Between decimals that are close enough the result is exact. -/
theorem rescalesExactly_of_close (hup : td.toNat ≤ fd.toNat + 77)
    (hdown : fd.toNat ≤ td.toNat + 77) : RescalesExactly amount fd td := by
  have hexact := exactRescaled_eq amount fd td
  rcases lt_or_ge (exactRescaled amount fd td) (2 ^ 256) with hlt | hge
  · rw [rescalesExactly_iff_ok hlt, rescale_eq_ok hup hdown, BitVec.toNat_ofNat,
      Nat.mod_eq_of_lt hlt]
    refine ⟨?_, hexact⟩
    rcases le_total fd.toNat td.toNat with hle | hle
    · rw [Nat.sub_eq_zero_of_le hle, pow_zero, Nat.div_one] at hexact
      rwa [← hexact]
    · rw [Nat.sub_eq_zero_of_le hle, pow_zero, mul_one]
      exact amount.isLt
  · have hlt : fd.toNat < td.toNat := by
      rcases Nat.lt_or_ge fd.toNat td.toNat with hlt | hle
      · exact hlt
      · rw [Nat.sub_eq_zero_of_le hle, pow_zero, mul_one] at hexact
        exact absurd (hexact ▸ hge) (Nat.not_le.mpr ((Nat.div_le_self _ _).trans_lt amount.isLt))
    rw [rescalesExactly_iff_error hge]
    apply rescale_up_eq_error hlt
    rw [Nat.sub_eq_zero_of_le hlt.le, pow_zero, Nat.div_one] at hexact
    rwa [← toNat_pow10_mod, toNat_pow10 (by omega), ← hexact]

/-- Beyond that, scaling up, the result is exact for zero and where the product overflows. -/
theorem rescalesExactly_up_iff (hfar : fd.toNat + 77 < td.toNat) : RescalesExactly amount fd td ↔
    amount.toNat = 0 ∨
      2 ^ 256 ≤ amount.toNat * (10 ^ (td.toNat - fd.toNat) % 2 ^ 256) := by
  have hlt : fd.toNat < td.toNat := by omega
  have hexact := exactRescaled_eq amount fd td
  rw [Nat.sub_eq_zero_of_le hlt.le, pow_zero, Nat.div_one] at hexact
  rcases Nat.eq_zero_or_pos amount.toNat with hzero | hpos
  · rw [hzero, Nat.zero_mul] at hexact
    rw [rescalesExactly_iff_ok (by rw [hexact]; positivity), rescale_up_eq_ok hlt, hzero, hexact]
    simp
  · have hpow := two_pow_256_lt (n := td.toNat - fd.toNat) (by omega)
    have hbig : 2 ^ 256 ≤ exactRescaled amount fd td := by
      rw [hexact]
      exact hpow.le.trans (Nat.le_mul_of_pos_left _ hpos)
    rw [rescalesExactly_iff_error hbig]
    constructor
    · intro herror
      right
      by_contra hfits
      rw [Nat.not_le] at hfits
      have hok := (rescale_up_eq_ok (r := .ofNat 256 (amount.toNat *
        (10 ^ (td.toNat - fd.toNat) % 2 ^ 256))) hlt).mpr
        ⟨hfits, by rw [BitVec.toNat_ofNat, Nat.mod_eq_of_lt hfits]⟩
      rw [herror] at hok
      cases hok
    · rintro (hzero | hover)
      · omega
      · exact rescale_up_eq_error hlt hover

/-- Scaling down, it is exact for amounts below what a word holds of the power. -/
theorem rescalesExactly_down_iff (hfar : td.toNat + 77 < fd.toNat) :
    RescalesExactly amount fd td ↔ amount.toNat < 10 ^ (fd.toNat - td.toNat) % 2 ^ 256 := by
  have hlt : td.toNat < fd.toNat := by omega
  have hpow := two_pow_256_lt (n := fd.toNat - td.toNat) (by omega)
  have hzero : exactRescaled amount fd td = 0 := by
    rw [exactRescaled_eq, Nat.sub_eq_zero_of_le hlt.le, pow_zero, mul_one]
    exact Nat.div_eq_of_lt (amount.isLt.trans hpow)
  have hlt' := fd.toNat_lt
  have hpos := Nat.pos_of_ne_zero (pow10_ne_zero (n := fd.toNat - td.toNat) (by omega))
  rw [rescalesExactly_iff_ok (by rw [hzero]; positivity), rescale_down_eq_ok hlt, hzero]
  constructor
  · intro h
    exact (Nat.div_eq_zero_iff_lt hpos).mp h.symm
  · intro h
    exact (Nat.div_eq_of_lt h).symm

/-- Rescaling gives the exact value rounded down, or an overflow where that does not fit in a word,
and scaling up and back again gives the amount, exactly if the decimals differ by at most
seventy-seven or the remainder of the power makes no difference. -/
theorem rescale_exact_iff (amount : Uint256) (fd td : UInt8) :
    RescalesExactly amount fd td ∧ ScalesBack amount fd td ↔ FactorHarmless amount fd td := by
  have hback := scalesBack amount fd td
  unfold FactorHarmless
  split_ifs with hup hdown
  · rw [rescalesExactly_up_iff hup]
    exact and_iff_left hback
  · rw [rescalesExactly_down_iff hdown]
    exact and_iff_left hback
  · exact iff_of_true ⟨rescalesExactly_of_close (by omega) (by omega), hback⟩ trivial

/-- One unit is scaled up by seventy-eight decimals to what a word holds of the power. -/
theorem wrapped_power_not_exact : ¬ RescalesExactly 1 0 78 ∧
    rescale 1 0 78 = .ok (.ofNat 256 (10 ^ 78 % 2 ^ 256)) := by
  have hpow : (1 : ℕ) * (10 ^ (78 - 0) % 2 ^ 256) < 2 ^ 256 := by norm_num
  refine ⟨fun h => ?_, ?_⟩
  · rw [rescalesExactly_up_iff (by decide)] at h
    rcases h with hzero | hover
    · cases hzero
    · exact absurd hpow (Nat.not_lt.mpr hover)
  · rw [rescale_up_eq_ok (by decide)]
    exact ⟨hpow, by decide +kernel⟩

end Stroemnet.Amounts
