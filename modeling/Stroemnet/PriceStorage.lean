import Stroemnet.GuardedRuns
import Stroemnet.PriceOracle
import Mathlib.Data.Finset.Insert
import Mathlib.Tactic.Ring
import Mathlib.Tactic.Positivity

/-! # The prices that are served

The oracle asks the exchanges again and again and keeps one price for each channel, with the time
at which it was accepted. A price is served while it is fresh. While a fresh price is held, one
that is too far from it is turned down; once it is stale, any price is taken. Numbers are rational
here. -/
namespace Stroemnet.Oracle

def defaultMaxAgeSecs : UInt64 := 300

def maxJumpRatio : ℚ := 1 / 2

def jumps (last : Option ℚ) (price : ℚ) : Bool :=
  match last with
  | some last => decide (maxJumpRatio < |price - last| / last)
  | none => false

structure PriceStorage where
  channels : Finset ChannelId
  prices : ChannelId → Option (ℚ × UInt64)
  maxAgeSecs : UInt64

namespace PriceStorage

def withMaxAge (channels : List ChannelId) (maxAgeSecs : UInt64) : PriceStorage :=
  ⟨channels.toFinset, fun _ => none, maxAgeSecs⟩

def new (channels : List ChannelId) : PriceStorage := withMaxAge channels defaultMaxAgeSecs

/-- The price of a channel, if it is valid and not too old. -/
def get (st : PriceStorage) (now : UInt64) (c : ChannelId) : Option ℚ :=
  match st.prices c with
  | none => none
  | some (price, ts) =>
    if 0 < price ∧ now.toNat - ts.toNat ≤ st.maxAgeSecs.toNat then some price else none

/-- Sets the price of a channel; a price that is no number, not positive or too far from the last
one is left out. The clock is read for the last price, and again when the price is written. -/
def set (st : PriceStorage) (readAt writtenAt : UInt64) (c : ChannelId) (price : Option ℚ) :
    PriceStorage :=
  match price with
  | none => st
  | some price =>
    if price ≤ 0 then st
    else if jumps (st.get readAt c) price then st
    else { st with
      channels := insert c st.channels
      prices := Function.update st.prices c (some (price, writtenAt)) }

end PriceStorage

/-- What one round of the oracle meets: the order in which the channels are listed, the samples of
the exchanges, and for each channel the two readings of the clock. -/
structure Round where
  channels : List ChannelId
  sources : List (Option (List (ChannelId × PriceSample)))
  readAt : ChannelId → UInt64
  writtenAt : ChannelId → UInt64

def PriceStorage.setAll (st : PriceStorage) (round : Round) (prices : List (ChannelId × ℚ)) :
    PriceStorage :=
  prices.foldl (fun st e => st.set (round.readAt e.1) (round.writtenAt e.1) e.1 (some e.2)) st

/-- One round of the oracle. When it fails, the prices stay as they are. -/
def updateAllPrices (target : Target) (st : PriceStorage) (round : Round) : PriceStorage :=
  match aggregate target round.sources round.channels with
  | .error _ => st
  | .ok prices => st.setAll round prices

def Round.price (target : Target) (round : Round) (c : ChannelId) : Option ℚ :=
  if c ∈ round.channels then robustPrice target (channelSamples round.sources c) else none

/-- The channels of a round are listed once, as they come from a set. -/
def Round.Listed (round : Round) : Prop := round.channels.Nodup

section Updates

variable {target : Target} {st : PriceStorage} {round : Round} {c : ChannelId} {p : ℚ}

theorem robustPrice_pos {samples : List PriceSample} (h : robustPrice target samples = some p) :
    0 < p := by
  obtain ⟨med, -, -, -, hp⟩ := robustPrice_checked h
  exact hp

theorem prices_set_of_ne {c' : ChannelId} (hne : c ≠ c') (readAt writtenAt : UInt64)
    (price : Option ℚ) : (st.set readAt writtenAt c' price).prices c = st.prices c := by
  unfold PriceStorage.set
  split
  · rfl
  · split_ifs
    · rfl
    · rfl
    · exact Function.update_of_ne hne _ _

theorem maxAgeSecs_set (c' : ChannelId) (readAt writtenAt : UInt64) (price : Option ℚ) :
    (st.set readAt writtenAt c' price).maxAgeSecs = st.maxAgeSecs := by
  unfold PriceStorage.set
  split
  · rfl
  · split_ifs <;> rfl

def PriceStorage.held (st : PriceStorage) (readAt writtenAt : UInt64) (c : ChannelId)
    (price : Option ℚ) : Option (ℚ × UInt64) :=
  match price with
  | none => st.prices c
  | some price =>
    if jumps (st.get readAt c) price then st.prices c else some (price, writtenAt)

private theorem prices_set_self (readAt writtenAt : UInt64) (hp : 0 < p) :
    (st.set readAt writtenAt c (some p)).prices c = st.held readAt writtenAt c (some p) := by
  simp only [PriceStorage.set, PriceStorage.held, if_neg (not_le.mpr hp)]
  split_ifs
  · rfl
  · exact Function.update_self _ _ _

private theorem get_set_of_ne {c' : ChannelId} (hne : c ≠ c') (now readAt writtenAt : UInt64)
    (price : Option ℚ) : (st.set readAt writtenAt c' price).get now c = st.get now c := by
  rw [PriceStorage.get, prices_set_of_ne hne, maxAgeSecs_set, PriceStorage.get]

private theorem maxAgeSecs_setAll (prices : List (ChannelId × ℚ)) :
    (st.setAll round prices).maxAgeSecs = st.maxAgeSecs := by
  induction prices generalizing st with
  | nil => rfl
  | cons e prices ih => exact ih.trans (maxAgeSecs_set _ _ _ _)

private theorem prices_setAll {prices : List (ChannelId × ℚ)} (hnodup : (prices.map Prod.fst).Nodup)
    (hpos : ∀ e ∈ prices, 0 < e.2) (c : ChannelId) :
    (st.setAll round prices).prices c = st.held (round.readAt c) (round.writtenAt c) c
      ((prices.find? (·.1 = c)).map Prod.snd) := by
  induction prices generalizing st with
  | nil => rfl
  | cons e prices ih =>
    obtain ⟨hnot, hrest⟩ := List.nodup_cons.mp hnodup
    have hfirst : 0 < e.2 := hpos e List.mem_cons_self
    change ((st.set _ _ e.1 (some e.2)).setAll round prices).prices c = _
    rw [ih hrest fun e' he' => hpos e' (List.mem_cons_of_mem _ he')]
    by_cases hc : e.1 = c
    · subst hc
      have hnone : prices.find? (·.1 = e.1) = none := by
        rw [List.find?_eq_none]
        intro e' he' heq
        exact hnot (List.mem_map.mpr ⟨e', he', of_decide_eq_true heq⟩)
      rw [hnone, List.find?_cons_of_pos (by simp)]
      exact prices_set_self _ _ hfirst
    · rw [List.find?_cons_of_neg (by simpa using hc)]
      unfold PriceStorage.held
      rw [prices_set_of_ne (Ne.symm hc), get_set_of_ne (Ne.symm hc)]

theorem find?_filterMap_prices {f : ChannelId → Option ℚ} (channels : List ChannelId)
    (c : ChannelId) :
    ((channels.filterMap fun c => (f c).map fun p => (c, p)).find? (·.1 = c)).map Prod.snd =
      if c ∈ channels then f c else none := by
  induction channels with
  | nil => rfl
  | cons c' channels ih =>
    by_cases hc : c' = c
    · subst hc
      cases hf : f c' with
      | none => simpa [hf] using ih
      | some p => simp [hf]
    · cases hf : f c' with
      | none => simpa [hf, Ne.symm hc] using ih
      | some p => simpa [hf, hc, Ne.symm hc] using ih

private theorem map_fst_filterMap_prices (f : ChannelId → Option ℚ) (channels : List ChannelId) :
    (channels.filterMap fun c => (f c).map fun p => (c, p)).map Prod.fst =
      channels.filter fun c => (f c).isSome := by
  induction channels with
  | nil => rfl
  | cons c channels ih =>
    cases hf : f c with
    | none => simpa [hf] using ih
    | some p => simpa [hf] using ih

theorem prices_updateAllPrices (h : round.Listed) (c : ChannelId) :
    (updateAllPrices target st round).prices c =
      st.held (round.readAt c) (round.writtenAt c) c (round.price target c) := by
  have hfind := find?_filterMap_prices
    (f := fun c => robustPrice target (channelSamples round.sources c)) round.channels c
  unfold updateAllPrices aggregate
  cases hprices : round.channels.filterMap fun c =>
      (robustPrice target (channelSamples round.sources c)).map fun p => (c, p) with
  | nil =>
    rw [hprices] at hfind
    rw [Round.price, ← hfind]
    rfl
  | cons e prices =>
    simp only
    rw [prices_setAll ?_ ?_ c, Round.price, ← hfind, hprices]
    · rw [← hprices, map_fst_filterMap_prices]
      exact h.filter _
    · intro e' he'
      rw [← hprices, List.mem_filterMap] at he'
      obtain ⟨c', -, heq⟩ := he'
      obtain ⟨p, hp, rfl⟩ := Option.map_eq_some_iff.mp heq
      exact robustPrice_pos hp

private theorem maxAgeSecs_updateAllPrices :
    (updateAllPrices target st round).maxAgeSecs = st.maxAgeSecs := by
  unfold updateAllPrices
  split
  · rfl
  · exact maxAgeSecs_setAll _

theorem Round.price_pos (h : round.price target c = some p) : 0 < p := by
  unfold Round.price at h
  split_ifs at h
  exact robustPrice_pos h

/-- A round leaves what is held, or accepts its price. -/
theorem held_cases {readAt writtenAt : UInt64} {price : Option ℚ} {e : ℚ × UInt64}
    (h : st.held readAt writtenAt c price = some e) :
    st.prices c = some e ∨ ∃ p, price = some p ∧ jumps (st.get readAt c) p = false ∧
      e = (p, writtenAt) := by
  unfold PriceStorage.held at h
  cases price with
  | none => exact .inl h
  | some p =>
    simp only at h
    split_ifs at h with hjump
    · exact .inl h
    · exact .inr ⟨p, rfl, Bool.eq_false_iff.mpr hjump, (Option.some.inj h).symm⟩

end Updates

section Runs

variable {target : Target} {st : PriceStorage} {rounds : List Round} {c : ChannelId}

def pricesAfter (target : Target) (st : PriceStorage) (rounds : List Round) : PriceStorage :=
  Runs.final (updateAllPrices target) st rounds

theorem maxAgeSecs_pricesAfter : (pricesAfter target st rounds).maxAgeSecs = st.maxAgeSecs := by
  induction rounds generalizing st with
  | nil => rfl
  | cons round rounds ih => exact ih.trans maxAgeSecs_updateAllPrices

private theorem accepted_of_held (hlisted : ∀ r ∈ rounds, r.Listed) {e : ℚ × UInt64}
    (h : (pricesAfter target st rounds).prices c = some e) :
    st.prices c = some e ∨ ∃ before round after, rounds = before ++ round :: after ∧
      round.price target c = some e.1 ∧ e.2 = round.writtenAt c ∧
      jumps ((pricesAfter target st before).get (round.readAt c) c) e.1 = false := by
  induction rounds using List.reverseRecOn with
  | nil => exact .inl h
  | append_singleton rounds round ih =>
    rw [pricesAfter, Runs.final_append] at h
    change (updateAllPrices target (pricesAfter target st rounds) round).prices c = some e at h
    rw [prices_updateAllPrices (hlisted round (by simp))] at h
    rcases held_cases h with h | ⟨p, hprice, hjump, rfl⟩
    · rcases ih (fun r hr => hlisted r (List.mem_append_left _ hr)) h with h |
        ⟨before, r, after, rfl, hr⟩
      · exact .inl h
      · exact .inr ⟨before, r, after ++ [round], by simp, hr⟩
    · exact .inr ⟨rounds, round, [], rfl, hprice, rfl, hjump⟩

theorem get_eq_some {now : UInt64} {p : ℚ} :
    st.get now c = some p ↔ 0 < p ∧ ∃ ts, st.prices c = some (p, ts) ∧
      now.toNat - ts.toNat ≤ st.maxAgeSecs.toNat := by
  unfold PriceStorage.get
  cases hprice : st.prices c with
  | none => simp
  | some e =>
    obtain ⟨price, ts⟩ := e
    simp only [Option.ite_none_right_eq_some, Option.some.injEq, Prod.mk.injEq]
    constructor
    · rintro ⟨⟨hpos, hage⟩, rfl⟩
      exact ⟨hpos, ts, ⟨rfl, rfl⟩, hage⟩
    · rintro ⟨hpos, ts', ⟨rfl, rfl⟩, hage⟩
      exact ⟨⟨hpos, hage⟩, rfl⟩

theorem jumps_eq_false {last p : ℚ} (hlast : 0 < last) :
    jumps (some last) p = false ↔ |p - last| ≤ last / 2 := by
  rw [jumps, decide_eq_false_iff_not, not_lt, div_le_iff₀ hlast, maxJumpRatio,
    one_div_mul_eq_div]

/-- Every price that is ever served is positive and no older than it may be, and comes from a round
of the oracle: it is the robust price of the samples of that round, near to most of them, and was
within half of the price that was served before. -/
theorem served_price_is_robust (target : Target) (channels : List ChannelId) (maxAgeSecs : UInt64)
    (rounds : List Round) (hlisted : ∀ r ∈ rounds, r.Listed) (now : UInt64) (c : ChannelId) (p : ℚ)
    (h : (pricesAfter target (.withMaxAge channels maxAgeSecs) rounds).get now c = some p) :
    0 < p ∧ ∃ before round after, rounds = before ++ round :: after ∧
      now.toNat - (round.writtenAt c).toNat ≤ maxAgeSecs.toNat ∧ c ∈ round.channels ∧
      robustPrice target (channelSamples round.sources c) = some p ∧
      (∀ lo hi : ℚ, (validSamples (channelSamples round.sources c)).length <
          2 * (validSamples (channelSamples round.sources c)).countP
            (fun s => lo ≤ s.price ∧ s.price ≤ hi) →
        9 / 10 * lo ≤ p ∧ p ≤ 11 / 10 * hi) ∧
      ∀ last, (pricesAfter target (.withMaxAge channels maxAgeSecs) before).get (round.readAt c) c =
        some last → |p - last| ≤ last / 2 := by
  obtain ⟨hpos, ts, hheld, hage⟩ := get_eq_some.mp h
  rw [maxAgeSecs_pricesAfter] at hage
  rcases accepted_of_held hlisted hheld with hstart |
    ⟨before, round, after, hrounds, hprice, rfl, hjump⟩
  · cases hstart
  · unfold Round.price at hprice
    split_ifs at hprice with hmem
    refine ⟨hpos, before, round, after, hrounds, hage, hmem, hprice, ?_, ?_⟩
    · intro lo hi hmajority
      obtain ⟨med, hmedian, hmed, hne, rfl⟩ := robustPrice_eq_some hprice
      exact weightedPrice_near_majority hmedian hmed hne hmajority
    · intro last hlast
      rw [hlast] at hjump
      exact (jumps_eq_false (get_eq_some.mp hlast).1).mp hjump

/-- While a price is fresh, one round moves it by half at the most. -/
theorem held_within (target : Target) {round : Round} (h : round.Listed) {p ts}
    (hheld : st.prices c = some (p, ts)) (hfresh : (st.get (round.readAt c) c).isSome) :
    ∃ p' ts', (updateAllPrices target st round).prices c = some (p', ts') ∧ 0 < p' ∧
      1 / 2 * p ≤ p' ∧ p' ≤ 3 / 2 * p := by
  obtain ⟨last, hget⟩ := Option.isSome_iff_exists.mp hfresh
  obtain ⟨hpos, ts', hlast, -⟩ := get_eq_some.mp hget
  rw [hheld, Option.some.injEq, Prod.mk.injEq] at hlast
  obtain ⟨rfl, rfl⟩ := hlast
  rw [prices_updateAllPrices h]
  unfold PriceStorage.held
  cases hprice : round.price target c with
  | none => exact ⟨p, ts, hheld, hpos, by linarith, by linarith⟩
  | some p' =>
    simp only
    split_ifs with hjump
    · exact ⟨p, ts, hheld, hpos, by linarith, by linarith⟩
    · rw [hget, Bool.not_eq_true, jumps_eq_false hpos, abs_le] at hjump
      exact ⟨p', _, rfl, Round.price_pos hprice, by linarith, by linarith⟩

/-- A price that all rounds agree on is held from the first round on that accepts it. -/
theorem held_of_agreed {p : ℚ} (e : Option (ℚ × UInt64))
    (hrounds : ∀ r ∈ rounds, r.Listed ∧ r.price target c = some p)
    (hheld : st.prices c = e ∨ ∃ ts, st.prices c = some (p, ts)) :
    (pricesAfter target st rounds).prices c = e ∨
      ∃ ts, (pricesAfter target st rounds).prices c = some (p, ts) := by
  induction rounds generalizing st with
  | nil => exact hheld
  | cons round rounds ih =>
    obtain ⟨hlisted, hprice⟩ := hrounds round List.mem_cons_self
    refine ih (fun r hr => hrounds r (List.mem_cons_of_mem _ hr)) ?_
    rw [prices_updateAllPrices hlisted, hprice]
    simp only [PriceStorage.held]
    split_ifs
    · exact hheld
    · exact .inr ⟨_, rfl⟩

private theorem jumps_self {p : ℚ} (now : UInt64) {ts : UInt64}
    (hheld : st.prices c = some (p, ts)) :
    jumps (st.get now c) p = false := by
  cases hget : st.get now c with
  | none => rfl
  | some last =>
    obtain ⟨hpos, ts', hlast, -⟩ := get_eq_some.mp hget
    rw [hheld, Option.some.injEq, Prod.mk.injEq] at hlast
    obtain ⟨rfl, rfl⟩ := hlast
    rw [jumps_eq_false hpos, sub_self, abs_zero]
    linarith

/-- The circuit breaker. As long as the price of a channel never gets stale between rounds, `n` of
them move it by a factor between `(1/2)^n` and `(3/2)^n`, whatever the exchanges report. And a
price that all rounds report is served after the first round that comes when the old one is stale,
however far from it. -/
theorem breaker_bounds_and_releases (target : Target) (st : PriceStorage) (c : ChannelId) (p : ℚ)
    (ts : UInt64) (hheld : st.prices c = some (p, ts)) (hpos : 0 < p) (rounds : List Round)
    (hlisted : ∀ r ∈ rounds, r.Listed) :
    (Runs.Along (updateAllPrices target) (fun st r => (st.get (r.readAt c) c).isSome) st rounds →
      ∃ p' ts', (pricesAfter target st rounds).prices c = some (p', ts') ∧
        (1 / 2) ^ rounds.length * p ≤ p' ∧ p' ≤ (3 / 2) ^ rounds.length * p) ∧
    ∀ before last p', rounds = before ++ [last] → (∀ r ∈ rounds, r.price target c = some p') →
      st.maxAgeSecs.toNat < (last.readAt c).toNat - ts.toNat →
      (pricesAfter target st rounds).prices c = some (p', last.writtenAt c) := by
  constructor
  · intro hfresh
    induction rounds generalizing st p ts with
    | nil => exact ⟨p, ts, hheld, by simp, by simp⟩
    | cons round rounds ih =>
      obtain ⟨p₁, ts₁, hheld₁, hpos₁, hlow, hhigh⟩ :=
        held_within target (hlisted round List.mem_cons_self) hheld hfresh.1
      obtain ⟨p', ts', hheld', hlow', hhigh'⟩ := ih _ p₁ ts₁ hheld₁ hpos₁
        (fun r hr => hlisted r (List.mem_cons_of_mem _ hr)) hfresh.2
      refine ⟨p', ts', hheld', ?_, ?_⟩
      · calc (1 / 2 : ℚ) ^ (rounds.length + 1) * p
            = (1 / 2) ^ rounds.length * (1 / 2 * p) := by ring
          _ ≤ (1 / 2) ^ rounds.length * p₁ := mul_le_mul_of_nonneg_left hlow (by positivity)
          _ ≤ p' := hlow'
      · calc p' ≤ (3 / 2) ^ rounds.length * p₁ := hhigh'
          _ ≤ (3 / 2) ^ rounds.length * (3 / 2 * p) :=
            mul_le_mul_of_nonneg_left hhigh (by positivity)
          _ = (3 / 2 : ℚ) ^ (rounds.length + 1) * p := by ring
  · rintro before last p' rfl hagreed hstale
    have hbefore := held_of_agreed (some (p, ts))
      (fun r hr => ⟨hlisted r (List.mem_append_left _ hr), hagreed r (List.mem_append_left _ hr)⟩)
      (.inl hheld)
    rw [pricesAfter, Runs.final_append]
    change (updateAllPrices target (pricesAfter target st before) last).prices c = _
    rw [prices_updateAllPrices (hlisted last (by simp)), hagreed last (by simp)]
    refine if_neg (Bool.eq_false_iff.mp ?_)
    rcases hbefore with hold | ⟨ts', hnew⟩
    · have hnone : (pricesAfter target st before).get (last.readAt c) c = none := by
        rw [PriceStorage.get, hold, maxAgeSecs_pricesAfter]
        exact if_neg fun h => Nat.not_lt.mpr h.2 hstale
      rw [hnone]
      rfl
    · exact jumps_self _ hnew

end Runs

def agreeingRound (price : ℚ) (now : UInt64) : Round where
  channels := [.kaspaTn10]
  sources := [some [(.kaspaTn10, ⟨some price, some 10⟩)],
    some [(.kaspaTn10, ⟨some price, some 20⟩)], none]
  readAt _ := now
  writtenAt _ := now

def doublingRounds : List Round :=
  [agreeingRound 1 1000, agreeingRound 2 1060, agreeingRound 2 1310]

theorem served_price_sample :
    ∃ before round after, doublingRounds = before ++ round :: after ∧
      robustPrice .native (channelSamples round.sources .kaspaTn10) = some 2 ∧
      (1320 : UInt64).toNat - (round.writtenAt .kaspaTn10).toNat ≤ defaultMaxAgeSecs.toNat := by
  have hlisted : ∀ r ∈ doublingRounds, r.Listed := by
    simp [doublingRounds, agreeingRound, Round.Listed]
  obtain ⟨-, before, round, after, hsplit, hage, -, hprice, -⟩ :=
    served_price_is_robust .native [.kaspaTn10] defaultMaxAgeSecs doublingRounds hlisted 1320
      .kaspaTn10 2 (by decide +kernel)
  exact ⟨before, round, after, hsplit, hprice, hage⟩

/-- The jump is turned down while the old price is fresh, and taken when it is stale. -/
theorem breaker_sample :
    ((pricesAfter .native (.new [.kaspaTn10]) (doublingRounds.take 2)).prices .kaspaTn10) =
        some (1, 1000) ∧
      (pricesAfter .native (pricesAfter .native (.new [.kaspaTn10]) (doublingRounds.take 1))
        (doublingRounds.drop 1)).prices .kaspaTn10 = some (2, 1310) := by
  refine ⟨by decide +kernel, ?_⟩
  have hlisted : ∀ r ∈ doublingRounds.drop 1, r.Listed := by
    simp [doublingRounds, agreeingRound, Round.Listed]
  have hheld : (pricesAfter .native (.new [.kaspaTn10]) (doublingRounds.take 1)).prices .kaspaTn10 =
      some (1, 1000) := by
    decide +kernel
  exact (breaker_bounds_and_releases .native _ .kaspaTn10 1 1000 hheld (by norm_num) _ hlisted).2
    [agreeingRound 2 1060] (agreeingRound 2 1310) 2 rfl (by decide +kernel) (by decide +kernel)

end Stroemnet.Oracle
