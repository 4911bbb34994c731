import Stroemnet.RobustMeans
import Stroemnet.SwapProtocol
import Mathlib.Data.List.MinMax
import Mathlib.Tactic.Linarith

/-! # Prices from several exchanges

The price of a token is the mean of what the exchanges report, weighted by the volume that they
report with it, once the reports far from the median are dropped. As long as most of the reports
are honest, the others can neither move the median away from the honest ones nor the mean far from
the median, whatever volume they claim. Numbers are rational here. -/
namespace Stroemnet.Oracle
open RobustMeans (inside)

/-- What an exchange reports; `none` is a number that is not finite. -/
structure PriceSample where
  price : Option ℚ
  volumeUsd : Option ℚ

/-- A report that can be used. -/
structure ValidSample where
  price : ℚ
  volumeUsd : ℚ
  price_pos : 0 < price
  volumeUsd_nonneg : 0 ≤ volumeUsd

/-- A browser has one exchange to ask. -/
inductive Target
  | native | wasm32
deriving DecidableEq

def maxDeviation : ℚ := 1 / 10

def minSources : Target → ℕ
  | .native => 2
  | .wasm32 => 1

theorem minSources_pos (target : Target) : 0 < minSources target := by
  cases target with
  | native => exact Nat.two_pos
  | wasm32 => exact Nat.one_pos

def PriceSample.valid (s : PriceSample) : Option ValidSample :=
  match s.price, s.volumeUsd with
  | some price, some volumeUsd =>
    if h : 0 < price ∧ 0 ≤ volumeUsd then some ⟨price, volumeUsd, h.1, h.2⟩ else none
  | _, _ => none

def validSamples (samples : List PriceSample) : List ValidSample :=
  samples.filterMap PriceSample.valid

def weightedPrice (samples : List ValidSample) : ℚ :=
  if 0 < (samples.map ValidSample.volumeUsd).sum then
    (samples.map fun s => s.price * s.volumeUsd).sum / (samples.map ValidSample.volumeUsd).sum
  else (samples.map ValidSample.price).sum / samples.length

def median (prices : List ℚ) : Option ℚ :=
  let prices := prices.insertionSort (· ≤ ·)
  let n := prices.length
  if n % 2 = 1 then prices[n / 2]?
  else
    match prices[n / 2 - 1]?, prices[n / 2]? with
    | some lo, some hi => some ((lo + hi) / 2)
    | _, _ => none

/-- The samples that are close enough to the median. -/
def keptSamples (med : ℚ) (valid : List ValidSample) : List ValidSample :=
  valid.filter fun s => |(s.price - med) / med| ≤ maxDeviation

def robustPrice (target : Target) (samples : List PriceSample) : Option ℚ :=
  let valid := validSamples samples
  if valid.length < minSources target then none
  else
    match median (valid.map ValidSample.price) with
    | none => none
    | some med =>
      if med ≤ 0 then none
      else
        let kept := keptSamples med valid
        if kept.length < minSources target then none
        else
          let p := weightedPrice kept
          if 0 < p then some p else none

private theorem median_mem_of_majority {prices : List ℚ} {lo hi med : ℚ}
    (hmajority : prices.length < 2 * inside lo hi prices) (h : median prices = some med) :
    lo ≤ med ∧ med ≤ hi := by
  have hsorted : (prices.insertionSort (· ≤ ·)).SortedLE := List.sortedLE_insertionSort
  have hperm := List.perm_insertionSort (· ≤ ·) prices
  rw [← hperm.length_eq, ← RobustMeans.inside_perm hperm] at hmajority
  unfold median at h
  generalize prices.insertionSort (· ≤ ·) = sorted at *
  have hmiddle : ∀ {i a}, sorted[i]? = some a → sorted.length ≤ 2 * i + 2 →
      2 * i ≤ sorted.length → lo ≤ a ∧ a ≤ hi :=
    fun ha => RobustMeans.middle_mem_of_majority hsorted hmajority ha
  simp only at h
  split_ifs at h with hodd
  · exact hmiddle h (by omega) (by omega)
  · cases hlow : sorted[sorted.length / 2 - 1]? with
    | none =>
      rw [hlow] at h
      cases h
    | some low =>
      cases hhigh : sorted[sorted.length / 2]? with
      | none =>
        rw [hlow, hhigh] at h
        cases h
      | some high =>
        rw [hlow, hhigh] at h
        obtain ⟨hlo, hhi⟩ := hmiddle hlow (by omega) (by omega)
        obtain ⟨hlo', hhi'⟩ := hmiddle hhigh (by omega) (by omega)
        rw [← Option.some_inj.mp h]
        constructor <;> linarith

theorem weightedPrice_mem {kept : List ValidSample} {lo hi : ℚ} (hne : kept ≠ [])
    (h : ∀ s ∈ kept, lo ≤ s.price ∧ s.price ≤ hi) :
    lo ≤ weightedPrice kept ∧ weightedPrice kept ≤ hi := by
  unfold weightedPrice
  split_ifs with htotal
  · exact RobustMeans.weightedMean_mem (fun s _ => s.volumeUsd_nonneg) htotal h
  · exact RobustMeans.mean_mem hne h

private theorem deviation_le_iff {med price : ℚ} (hmed : 0 < med) :
    |(price - med) / med| ≤ maxDeviation ↔ |price - med| ≤ med / 10 := by
  rw [abs_div, abs_of_pos hmed, div_le_iff₀ hmed, maxDeviation, one_div_mul_eq_div]

private theorem mem_keptSamples {med : ℚ} (hmed : 0 < med) {valid : List ValidSample}
    {s : ValidSample} :
    s ∈ keptSamples med valid ↔ s ∈ valid ∧ |s.price - med| ≤ med / 10 := by
  rw [keptSamples, List.mem_filter, decide_eq_true_iff, deviation_le_iff hmed]

theorem robustPrice_eq_some {target : Target} {samples : List PriceSample} {p : ℚ}
    (h : robustPrice target samples = some p) :
    ∃ med, median ((validSamples samples).map ValidSample.price) = some med ∧ 0 < med ∧
      keptSamples med (validSamples samples) ≠ [] ∧
      p = weightedPrice (keptSamples med (validSamples samples)) := by
  unfold robustPrice at h
  simp only at h
  split_ifs at h
  cases hmed : median ((validSamples samples).map ValidSample.price) with
  | none =>
    rw [hmed] at h
    cases h
  | some med =>
    rw [hmed] at h
    simp only at h
    split_ifs at h with hpos hkept hp
    refine ⟨med, rfl, not_le.mp hpos, ?_, (Option.some_inj.mp h).symm⟩
    intro hnil
    rw [hnil] at hkept
    exact hkept (minSources_pos target)

theorem robustPrice_checked {target : Target} {samples : List PriceSample} {p : ℚ}
    (h : robustPrice target samples = some p) :
    ∃ med, 0 < med ∧ minSources target ≤ (keptSamples med (validSamples samples)).length ∧
      p = weightedPrice (keptSamples med (validSamples samples)) ∧ 0 < p := by
  unfold robustPrice at h
  simp only at h
  split_ifs at h
  cases hmed : median ((validSamples samples).map ValidSample.price) with
  | none =>
    rw [hmed] at h
    cases h
  | some med =>
    rw [hmed] at h
    simp only at h
    split_ifs at h with hpos hkept hp
    cases h
    exact ⟨med, not_le.mp hpos, Nat.not_lt.mp hkept, rfl, hp⟩

private theorem weightedPrice_between {kept : List ValidSample} (hne : kept ≠ []) :
    (kept.map ValidSample.price).minimum ≤ weightedPrice kept ∧
      weightedPrice kept ≤ (kept.map ValidSample.price).maximum := by
  have hprices : kept.map ValidSample.price ≠ [] := by
    rwa [Ne, List.map_eq_nil_iff]
  obtain ⟨lo, hlo⟩ := WithTop.ne_top_iff_exists.mp (List.minimum_ne_top_of_ne_nil hprices)
  obtain ⟨hi, hhi⟩ := WithBot.ne_bot_iff_exists.mp (List.maximum_ne_bot_of_ne_nil hprices)
  have hmem : ∀ s ∈ kept, lo ≤ s.price ∧ s.price ≤ hi := by
    intro s hs
    have hprice := List.mem_map_of_mem (f := ValidSample.price) hs
    exact ⟨List.minimum_le_of_mem hprice hlo.symm, List.le_maximum_of_mem hprice hhi.symm⟩
  obtain ⟨hle, hge⟩ := weightedPrice_mem hne hmem
  rw [← hlo, ← hhi]
  exact ⟨WithTop.coe_le_coe.mpr hle, WithBot.coe_le_coe.mpr hge⟩

theorem weightedPrice_near {med : ℚ} (hmed : 0 < med) {valid : List ValidSample}
    (hne : keptSamples med valid ≠ []) :
    |weightedPrice (keptSamples med valid) - med| ≤ med / 10 := by
  have hmem : ∀ s ∈ keptSamples med valid, med - med / 10 ≤ s.price ∧ s.price ≤ med + med / 10 := by
    intro s hs
    have hnear := abs_le.mp ((mem_keptSamples hmed).mp hs).2
    constructor <;> linarith
  obtain ⟨hle, hge⟩ := weightedPrice_mem hne hmem
  rw [abs_le]
  constructor <;> linarith

/-- When most of the valid samples have prices in an interval, so has the median, and the price is
within a tenth of it. -/
theorem weightedPrice_near_majority {valid : List ValidSample} {med lo hi : ℚ}
    (hmedian : median (valid.map ValidSample.price) = some med) (hmed : 0 < med)
    (hne : keptSamples med valid ≠ [])
    (hmajority : valid.length < 2 * valid.countP (fun s => lo ≤ s.price ∧ s.price ≤ hi)) :
    9 / 10 * lo ≤ weightedPrice (keptSamples med valid) ∧
      weightedPrice (keptSamples med valid) ≤ 11 / 10 * hi := by
  have hinside : inside lo hi (valid.map ValidSample.price) =
      valid.countP fun s => lo ≤ s.price ∧ s.price ≤ hi := by
    rw [inside, List.countP_map]
    rfl
  obtain ⟨hlo, hhi⟩ := median_mem_of_majority (by rwa [hinside, List.length_map]) hmedian
  obtain ⟨hbelow, habove⟩ := abs_le.mp (weightedPrice_near hmed hne)
  constructor <;> linarith

/-- A price lies between the prices that are kept and within a tenth of the median. When most of
the valid samples have prices in an interval, it is within a tenth of that interval. -/
theorem robust_price_bounds (target : Target) (samples : List PriceSample) (p : ℚ)
    (h : robustPrice target samples = some p) :
    ∃ med, median ((validSamples samples).map ValidSample.price) = some med ∧
      ((keptSamples med (validSamples samples)).map ValidSample.price).minimum ≤ p ∧
      p ≤ ((keptSamples med (validSamples samples)).map ValidSample.price).maximum ∧
      |p - med| ≤ med / 10 ∧
      ∀ lo hi : ℚ, 0 < lo →
        (validSamples samples).length <
          2 * (validSamples samples).countP (fun s => lo ≤ s.price ∧ s.price ≤ hi) →
        9 / 10 * lo ≤ p ∧ p ≤ 11 / 10 * hi := by
  obtain ⟨med, hmedian, hmed, hne, rfl⟩ := robustPrice_eq_some h
  obtain ⟨hmin, hmax⟩ := weightedPrice_between hne
  refine ⟨med, hmedian, hmin, hmax, weightedPrice_near hmed hne, ?_⟩
  intro lo hi _ hmajority
  exact weightedPrice_near_majority hmedian hmed hne hmajority

/-- Two honest exchanges, one that lies with a large volume, and one whose price is no number. -/
def lyingSamples : List PriceSample :=
  [⟨some 100, some 10⟩, ⟨some 101, some 10⟩, ⟨some 500, some 1000000⟩, ⟨none, some 10⟩]

theorem robust_price_bounds_lying :
    robustPrice .native lyingSamples = some (201 / 2) ∧
    ∃ med, median ((validSamples lyingSamples).map ValidSample.price) = some med ∧
      |201 / 2 - med| ≤ med / 10 ∧
      (9 / 10 : ℚ) * 100 ≤ 201 / 2 ∧ (201 / 2 : ℚ) ≤ 11 / 10 * 101 := by
  have hprice : robustPrice .native lyingSamples = some (201 / 2) := by
    decide +kernel
  obtain ⟨med, hmedian, -, -, hnear, hmajority⟩ :=
    robust_price_bounds .native lyingSamples (201 / 2) hprice
  exact ⟨hprice, med, hmedian, hnear, hmajority 100 101 (by norm_num) (by decide +kernel)⟩

/-- The samples for a channel from the exchanges that answered. -/
def channelSamples (sources : List (Option (List (ChannelId × PriceSample)))) (c : ChannelId) :
    List PriceSample :=
  (sources.flatMap fun source => source.getD []).filterMap fun sample =>
    if sample.1 = c then some sample.2 else none

/-- Computes the price of each channel's native token. -/
def aggregate (target : Target) (sources : List (Option (List (ChannelId × PriceSample))))
    (channels : List ChannelId) : Except String (List (ChannelId × ℚ)) :=
  match channels.filterMap fun c =>
    (robustPrice target (channelSamples sources c)).map fun p => (c, p) with
  | [] => .error "All exchanges failed or produced insufficient agreeing sources"
  | prices => .ok prices

theorem mem_of_aggregate {target : Target}
    {sources : List (Option (List (ChannelId × PriceSample)))} {channels : List ChannelId}
    {prices : List (ChannelId × ℚ)} (h : aggregate target sources channels = .ok prices)
    {c : ChannelId} {p : ℚ} (hp : (c, p) ∈ prices) :
    c ∈ channels ∧ robustPrice target (channelSamples sources c) = some p := by
  have hprices : prices = channels.filterMap fun c =>
      (robustPrice target (channelSamples sources c)).map fun p => (c, p) := by
    unfold aggregate at h
    split at h
    · cases h
    · exact (Except.ok.inj h).symm
  rw [hprices, List.mem_filterMap] at hp
  obtain ⟨c', hc', heq⟩ := hp
  obtain ⟨p', hp', heq⟩ := Option.map_eq_some_iff.mp heq
  obtain ⟨rfl, rfl⟩ := Prod.mk.inj heq
  exact ⟨hc', hp'⟩

end Stroemnet.Oracle
