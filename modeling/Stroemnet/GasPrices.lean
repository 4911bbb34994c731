import Stroemnet.EvmSettlement
import Stroemnet.GuardedRuns
import Mathlib.Data.List.Chain

/-! # The gas prices of replacements

A transaction replaces an earlier one with the same nonce only if it pays an eighth more. The
prices that are chosen for a key rise at least that fast until they reach the highest price there
is. Sums that do not fit in 128 bits are far above that price, so the same prices come out of
unbounded numbers. -/
namespace Stroemnet.Evm

/-- A gas price that is raised by fifteen percent, without a bound. -/
def raised (gas : ℕ) : ℕ := gas * 115 / 100

/-- The gas price of an attempt in unbounded numbers. -/
def unboundedGas (attemptCount : ℕ) (lastGas : Option ℕ) (base : ℕ) : ℕ :=
  let gas := min (raised^[min attemptCount maxGasBumps] base) maxGasPriceWei.toNat
  match lastGas with
  | some prev => min (max gas (raised prev)) maxGasPriceWei.toNat
  | none => gas

private theorem toNat_maxGasPriceWei : maxGasPriceWei.toNat = 5000000000000 := rfl

private theorem toNat_bumpGas (gas : BitVec 128) :
    (bumpGas gas).toNat = min (gas.toNat * 115) (2 ^ 128 - 1) / 100 := by
  rw [bumpGas, BitVec.toNat_ofNat]
  omega

theorem toNat_capGas (gas : BitVec 128) :
    (capGas gas).toNat = min gas.toNat maxGasPriceWei.toNat := by
  rw [capGas]
  split_ifs with hle
  · exact (min_eq_left hle).symm
  · exact (min_eq_right (Nat.le_of_lt (not_le.mp hle))).symm

/-- Two prices that are equal, or too high to be paid both. -/
def SamePrice (gas exact : ℕ) : Prop :=
  gas = exact ∨ maxGasPriceWei.toNat ≤ gas ∧ maxGasPriceWei.toNat ≤ exact

private theorem SamePrice.min_eq {gas exact : ℕ} (h : SamePrice gas exact) :
    min gas maxGasPriceWei.toNat = min exact maxGasPriceWei.toNat := by
  rcases h with heq | ⟨hgas, hexact⟩
  · rw [heq]
  · rw [min_eq_right hgas, min_eq_right hexact]

theorem samePrice_bumpGas {gas : BitVec 128} {exact : ℕ} (h : SamePrice gas.toNat exact) :
    SamePrice (bumpGas gas).toNat (raised exact) := by
  unfold SamePrice raised at *
  rw [toNat_bumpGas]
  rw [toNat_maxGasPriceWei] at *
  omega

private theorem samePrice_iterate {gas : BitVec 128} {exact : ℕ} (h : SamePrice gas.toNat exact)
    (n : ℕ) :
    SamePrice (bumpGas^[n] gas).toNat (raised^[n] exact) := by
  induction n with
  | zero => exact h
  | succ n ih =>
    rw [Function.iterate_succ_apply', Function.iterate_succ_apply']
    exact samePrice_bumpGas ih

theorem toNat_escalatedGas (base : BitVec 128) (attemptCount : UInt32) :
    (escalatedGas base attemptCount).toNat =
      min (raised^[min attemptCount.toNat maxGasBumps] base.toNat) maxGasPriceWei.toNat := by
  rw [escalatedGas, toNat_capGas]
  exact (samePrice_iterate (.inl rfl) _).min_eq

/-- No overflow changes the gas price of an attempt. -/
theorem toNat_replacementGas (attempt : AttemptState) (base : BitVec 128) :
    (replacementGas attempt base).toNat = unboundedGas attempt.attemptCount.toNat
      (attempt.lastGas.map BitVec.toNat) base.toNat := by
  cases hlast : attempt.lastGas with
  | none =>
    simp only [replacementGas, unboundedGas, hlast, Option.map_none]
    exact toNat_escalatedGas base attempt.attemptCount
  | some prev =>
    have hsame : SamePrice (bumpGas prev).toNat (raised prev.toNat) := samePrice_bumpGas (.inl rfl)
    simp only [replacementGas, unboundedGas, hlast, Option.map_some]
    rw [← toNat_escalatedGas, toNat_capGas]
    generalize escalatedGas base attempt.attemptCount = gas
    split_ifs with hle
    · have hmax : gas.toNat ≤ (bumpGas prev).toNat := hle
      unfold SamePrice at hsame
      omega
    · have hmax : (bumpGas prev).toNat < gas.toNat := not_le.mp hle
      unfold SamePrice at hsame
      omega

/-- What may be said of a gas price that is chosen when `prev` is remembered. -/
def Follows (prev gas : ℕ) : Prop := min (raised prev) maxGasPriceWei.toNat ≤ gas

private theorem unboundedGas_le (attemptCount : ℕ) (lastGas : Option ℕ) (base : ℕ) :
    unboundedGas attemptCount lastGas base ≤ maxGasPriceWei.toNat := by
  cases lastGas with
  | none => exact min_le_right _ _
  | some prev => exact min_le_right _ _

private theorem follows_unboundedGas (attemptCount prev base : ℕ) :
    Follows prev (unboundedGas attemptCount (some prev) base) :=
  min_le_min_right _ (le_max_right _ _)

theorem Follows.le {prev gas : ℕ} (h : Follows prev gas) (hprev : prev ≤ maxGasPriceWei.toNat) :
    prev ≤ gas := by
  unfold Follows raised at h
  omega

/-- From forty wei on, fifteen percent rounded down are no less than an eighth. -/
theorem Follows.bump {prev gas : ℕ} (h : Follows prev gas) (hprev : 40 ≤ prev) :
    min maxGasPriceWei.toNat (prev * 1125 / 1000) ≤ gas ∧
      (gas < maxGasPriceWei.toNat → 1125 * prev ≤ 1000 * gas) := by
  unfold Follows raised at h
  omega

/-- A call of `replacement`, with the attempts that its key has by then. -/
structure ReplacementCall where
  key : ActionKey
  attemptCount : UInt32
  answers : SettleAnswers

namespace State

variable {st : State} {k : ActionKey} {c : ReplacementCall}

def withAttemptCount (st : State) (k : ActionKey) (attemptCount : UInt32) : State :=
  { st with queue := st.queue.modify k fun s => { s with attemptCount := attemptCount } }

def called (st : State) (c : ReplacementCall) : Option Replacement × State :=
  (st.withAttemptCount c.key c.attemptCount).replacement c.answers c.key

def afterCall (st : State) (c : ReplacementCall) : State := (st.called c).2

def chosenGas (k : ActionKey) (st : State) (c : ReplacementCall) : List ℕ :=
  if c.key = k then (st.called c).1.toList.map (·.gas.toNat) else []

/-- The gas prices that successive calls choose for a key. -/
def gasPrices (st : State) (k : ActionKey) (calls : List ReplacementCall) : List ℕ :=
  Runs.outputs afterCall (chosenGas k) st calls

def rememberedGas (st : State) (k : ActionKey) : Option ℕ :=
  ((st.queue k).bind AttemptState.lastGas).map BitVec.toNat

theorem queue_withAttemptCount_of_ne {k' : ActionKey} (h : k' ≠ k) (attemptCount : UInt32) :
    (st.withAttemptCount k attemptCount).queue k' = st.queue k' :=
  RetryQueue.modify_of_ne h

private theorem rememberedGas_withAttemptCount (st : State) (k k' : ActionKey)
    (attemptCount : UInt32) :
    (st.withAttemptCount k attemptCount).rememberedGas k' = st.rememberedGas k' := by
  by_cases heq : k' = k
  · subst heq
    simp only [rememberedGas, withAttemptCount, RetryQueue.modify_self, Option.bind_map]
    rfl
  · rw [rememberedGas, rememberedGas, queue_withAttemptCount_of_ne heq]

private theorem queue_replacement_of_ne {k' : ActionKey} (h : k' ≠ k) (answers : SettleAnswers) :
    (st.replacement answers k).2.queue k' = st.queue k' := by
  unfold replacement
  cases (st.queue k).bind (planReplacement answers) with
  | none => rfl
  | some r =>
    simp only [persistSwap_queue]
    rw [reserve_eq_modify, RetryQueue.modify_of_ne h]

/-- A plan takes its gas price from the attempt, the remembered price and the chain's price. -/
theorem gas_of_planReplacement {answers : SettleAnswers} {attempt : AttemptState} {r : Replacement}
    (h : planReplacement answers attempt = some r) :
    ∃ base, r.gas = replacementGas attempt base := by
  simp only [planReplacement, Option.bind_eq_bind, Option.bind_eq_some_iff] at h
  obtain ⟨base, -, confirmed, -, ⟨nonce, fresh⟩, -, hr⟩ := h
  exact ⟨base, congrArg Replacement.gas (Option.some_inj.mp hr).symm⟩

/-- A call remembers the price that it chooses, and without a choice the price stays. -/
theorem replacement_cases (st : State) (k : ActionKey) (answers : SettleAnswers) :
    ((st.replacement answers k).1 = none ∧ (st.replacement answers k).2 = st) ∨
    ∃ r attemptCount base, (st.replacement answers k).1 = some r ∧
      r.gas.toNat = unboundedGas attemptCount (st.rememberedGas k) base ∧
      (st.replacement answers k).2.rememberedGas k = some r.gas.toNat := by
  unfold replacement
  cases hplan : (st.queue k).bind (planReplacement answers) with
  | none => exact .inl ⟨rfl, rfl⟩
  | some r =>
    obtain ⟨attempt, hqueue, hr⟩ := Option.bind_eq_some_iff.mp hplan
    obtain ⟨base, hgas⟩ := gas_of_planReplacement hr
    refine .inr ⟨r, attempt.attemptCount.toNat, base.toNat, rfl, ?_, ?_⟩
    · rw [hgas, toNat_replacementGas, rememberedGas, hqueue, Option.bind_some]
    · simp only [rememberedGas, persistSwap_queue]
      rw [reserve_eq_modify, RetryQueue.modify_self, hqueue]
      rfl

/-- What a call does to the price of a key: it keeps it and chooses none, or it chooses one. -/
theorem call_cases (st : State) (k : ActionKey) (c : ReplacementCall) :
    (chosenGas k st c = [] ∧ (st.afterCall c).rememberedGas k = st.rememberedGas k) ∨
    ∃ attemptCount base gas, gas = unboundedGas attemptCount (st.rememberedGas k) base ∧
      chosenGas k st c = [gas] ∧ (st.afterCall c).rememberedGas k = some gas := by
  by_cases heq : c.key = k
  · subst heq
    rw [chosenGas, if_pos rfl, afterCall, called,
      ← rememberedGas_withAttemptCount st c.key c.key c.attemptCount]
    rcases replacement_cases (st.withAttemptCount c.key c.attemptCount) c.key c.answers with
      ⟨hnone, hst⟩ | ⟨r, attemptCount, base, hsome, hgas, hlast⟩
    · refine .inl ⟨?_, ?_⟩
      · rw [hnone]
        rfl
      · rw [hst]
    · refine .inr ⟨attemptCount, base, r.gas.toNat, hgas, ?_, hlast⟩
      rw [hsome]
      rfl
  · refine .inl ⟨if_neg heq, ?_⟩
    have hne : k ≠ c.key := Ne.symm heq
    rw [rememberedGas, afterCall, called, queue_replacement_of_ne hne,
      queue_withAttemptCount_of_ne hne]
    rfl

private theorem gasPrices_le (st : State) (k : ActionKey) (calls : List ReplacementCall) :
    ∀ gas ∈ st.gasPrices k calls, gas ≤ maxGasPriceWei.toNat := by
  induction calls generalizing st with
  | nil => nofun
  | cons c calls ih =>
    intro gas hgas
    rcases List.mem_append.mp hgas with hnow | hlater
    · rcases call_cases st k c with ⟨hnone, -⟩ | ⟨attemptCount, base, chosen, heq, hchosen, -⟩
      · rw [hnone] at hnow
        cases hnow
      · rw [hchosen, List.mem_singleton] at hnow
        rw [hnow, heq]
        exact unboundedGas_le _ _ _
    · exact ih (st.afterCall c) gas hlater

private theorem isChain_gasPrices (st : State) (k : ActionKey) (calls : List ReplacementCall) :
    ((st.rememberedGas k).toList ++ st.gasPrices k calls).IsChain Follows := by
  induction calls generalizing st with
  | nil => cases st.rememberedGas k <;> simp [gasPrices, Runs.outputs]
  | cons c calls ih =>
    have hrest := ih (st.afterCall c)
    have hcons : st.gasPrices k (c :: calls) =
      chosenGas k st c ++ (st.afterCall c).gasPrices k calls := rfl
    rw [hcons]
    rcases call_cases st k c with ⟨hnone, hlast⟩ | ⟨attemptCount, base, gas, hgas, hchosen, hlast⟩
    · rwa [hnone, List.nil_append, ← hlast]
    · rw [hlast] at hrest
      rw [hchosen]
      cases hprev : st.rememberedGas k with
      | none => exact hrest
      | some prev =>
        rw [hprev] at hgas
        refine List.isChain_cons_cons.mpr ⟨?_, hrest⟩
        rw [hgas]
        exact follows_unboundedGas attemptCount prev base

/-- The gas prices of a key never fall and stay below the highest price, each is an eighth above
the one before it unless it is the highest, and unbounded numbers give the same prices. -/
theorem gas_prices_escalate (st : State) (k : ActionKey) (calls : List ReplacementCall) :
    (st.gasPrices k calls).Pairwise (· ≤ ·) ∧
    (∀ gas ∈ st.gasPrices k calls, gas ≤ maxGasPriceWei.toNat) ∧
    ((st.rememberedGas k).toList ++ st.gasPrices k calls).IsChain (fun prev gas => 40 ≤ prev →
      min maxGasPriceWei.toNat (prev * 1125 / 1000) ≤ gas ∧
        (gas < maxGasPriceWei.toNat → 1125 * prev ≤ 1000 * gas)) ∧
    ∀ attempt base, (replacementGas attempt base).toNat =
      unboundedGas attempt.attemptCount.toNat (attempt.lastGas.map BitVec.toNat) base.toNat := by
  have hchain := isChain_gasPrices st k calls
  have hle := gasPrices_le st k calls
  refine ⟨?_, hle, ?_, toNat_replacementGas⟩
  · apply List.isChain_iff_pairwise.mp
    apply hchain.right_of_append.imp_of_mem_imp
    intro prev gas hprev _ hfollows
    exact hfollows.le (hle prev hprev)
  · apply hchain.imp
    intro prev gas hfollows hprev
    exact hfollows.bump hprev

end State

end Stroemnet.Evm
