import Stroemnet.GuardedRuns
import Stroemnet.Settlement

/-! # How late a retry may come

A failed attempt waits about as long as all the attempts before it took together, so that the time
since the first one at most doubles. The first attempt after a swap unlocks is then no later than
twice the time that it took to unlock. -/
namespace Stroemnet.AttemptState

/-- A failed attempt: when it was made, and a number that spreads the next one. -/
structure Failure where
  now : UInt64
  jitter : UInt64

variable {s : AttemptState} {t0 : UInt64}

def failed (s : AttemptState) (f : Failure) : AttemptState := s.onFailure f.now f.jitter

def delay (s : AttemptState) (jitter : UInt64) : ℕ :=
  5 * 2 ^ min s.attemptCount.toNat 13 + jitter.toNat % 60

theorem toNat_shift (s : AttemptState) :
    (min s.attemptCount maxBackoffShift).toNat = min s.attemptCount.toNat 13 := by
  have hshift : maxBackoffShift.toNat = 13 := rfl
  simp only [Min.min, UInt32.le_iff_toNat_le, hshift]
  split_ifs <;> rfl

theorem delay_le (s : AttemptState) (jitter : UInt64) : s.delay jitter ≤ 40960 + 59 := by
  have hpow : 2 ^ min s.attemptCount.toNat 13 ≤ 2 ^ 13 :=
    Nat.pow_le_pow_right (by omega) (min_le_right _ _)
  unfold delay
  omega

theorem delay_pos (s : AttemptState) (jitter : UInt64) : 0 < s.delay jitter := by
  have hpow : 1 ≤ 2 ^ min s.attemptCount.toNat 13 := Nat.one_le_two_pow
  unfold delay
  omega

/-- The longest delay that there may be is never reached. -/
theorem toNat_nextAttemptAt_onFailure (s : AttemptState) (now jitter : UInt64) :
    (s.onFailure now jitter).nextAttemptAt.toNat =
      min (now.toNat + s.delay jitter) (2 ^ 64 - 1) := by
  have hbase : baseDelaySecs.toNat = 5 := rfl
  have hmax : maxDelaySecs.toNat = 86400 := rfl
  have hjitter : jitterMaxSecs.toNat = 60 := rfl
  have hpow : 2 ^ min s.attemptCount.toNat 13 ≤ 2 ^ 13 :=
    Nat.pow_le_pow_right (by omega) (min_le_right _ _)
  have hlt : min (5 * 2 ^ min s.attemptCount.toNat 13) (2 ^ 64 - 1) < UInt64.size := by
    simp only [UInt64.size]
    omega
  simp only [onFailure, toNat_saturatingAdd, toNat_min, UInt64.toNat_mod, toNat_shift, hbase, hmax,
    hjitter, UInt64.toNat_ofNat_of_lt' hlt]
  unfold delay
  omega

theorem toNat_attemptCount_onFailure (s : AttemptState) (now jitter : UInt64) :
    (s.onFailure now jitter).attemptCount.toNat =
      min (s.attemptCount.toNat + 1) (2 ^ 32 - 1) := by
  have hlt : min (s.attemptCount.toNat + 1) (2 ^ 32 - 1) < UInt32.size := by
    simp only [UInt32.size]
    omega
  rw [onFailure, UInt32.toNat_ofNat_of_lt' hlt]

/-- An attempt that is due when it is made, and whose next one has a time. -/
def Timely (s : AttemptState) (f : Failure) : Prop :=
  s.nextAttemptAt ≤ f.now ∧ f.now.toNat + s.delay f.jitter < 2 ^ 64

/-- The time since the first attempt dominates the delay that comes next. -/
def Elapsed (t0 : UInt64) (s : AttemptState) : Prop :=
  t0.toNat + 5 * 2 ^ min s.attemptCount.toNat 13 ≤ s.nextAttemptAt.toNat + 5

theorem elapsed_new (t0 : UInt64) : Elapsed t0 (new t0) := le_rfl

theorem Elapsed.le (h : Elapsed t0 s) : t0.toNat ≤ s.nextAttemptAt.toNat := by
  have hpow : 1 ≤ 2 ^ min s.attemptCount.toNat 13 := Nat.one_le_two_pow
  unfold Elapsed at h
  omega

/-- A delay is no longer than the time since the first attempt, up to a minute. -/
theorem Elapsed.delay_le (h : Elapsed t0 s) (jitter : UInt64) :
    s.delay jitter + t0.toNat ≤ s.nextAttemptAt.toNat + 64 := by
  unfold Elapsed at h
  unfold delay
  omega

theorem Elapsed.failed (h : Elapsed t0 s) {f : Failure} (hf : Timely s f) :
    Elapsed t0 (s.failed f) := by
  obtain ⟨hdue, hfits⟩ := hf
  rw [UInt64.le_iff_toNat_le] at hdue
  unfold Elapsed AttemptState.failed at *
  rw [toNat_nextAttemptAt_onFailure, toNat_attemptCount_onFailure]
  unfold delay at *
  by_cases hcap : s.attemptCount.toNat < 13
  · have hsucc : min (min (s.attemptCount.toNat + 1) (2 ^ 32 - 1)) 13 =
      min s.attemptCount.toNat 13 + 1 := by omega
    rw [hsucc, pow_succ]
    omega
  · have hsame : min (min (s.attemptCount.toNat + 1) (2 ^ 32 - 1)) 13 =
      min s.attemptCount.toNat 13 := by omega
    rw [hsame]
    omega

/-- What holds of a failure: the next attempt comes later, but not much later than twice the time
since the first one, and the attempts are counted without a wrap. -/
structure Bounded (t0 : UInt64) (s : AttemptState) (f : Failure) : Prop where
  since : t0 ≤ f.now
  later : f.now < (s.failed f).nextAttemptAt
  overshoot : (s.failed f).nextAttemptAt.toNat - t0.toNat ≤ 2 * (f.now.toNat - t0.toNat) + 64
  delayed : (s.failed f).nextAttemptAt.toNat - f.now.toNat ≤ 40960 + 59
  counted : (s.failed f).attemptCount.toNat = min (s.attemptCount.toNat + 1) (2 ^ 32 - 1)

theorem Elapsed.bounded (h : Elapsed t0 s) {f : Failure} (hf : Timely s f) : Bounded t0 s f := by
  obtain ⟨hdue, hfits⟩ := hf
  have hsince := h.le
  have hdelay := h.delay_le f.jitter
  have hmost := AttemptState.delay_le s f.jitter
  have hleast := s.delay_pos f.jitter
  rw [UInt64.le_iff_toNat_le] at hdue
  refine ⟨?_, ?_, ?_, ?_, toNat_attemptCount_onFailure s f.now f.jitter⟩
  · rw [UInt64.le_iff_toNat_le]
    omega
  all_goals
    simp only [AttemptState.failed, UInt64.lt_iff_toNat_lt, toNat_nextAttemptAt_onFailure]
    omega

theorem toNat_attemptCount_final (s : AttemptState) (failures : List Failure) :
    (Runs.final AttemptState.failed s failures).attemptCount.toNat =
      min (s.attemptCount.toNat + failures.length) (2 ^ 32 - 1) := by
  induction failures generalizing s with
  | nil =>
    have hlt := s.attemptCount.toNat_lt
    rw [Runs.final_nil, List.length_nil]
    omega
  | cons f failures ih =>
    rw [Runs.final_cons, ih, AttemptState.failed, toNat_attemptCount_onFailure, List.length_cons]
    omega

/-- The state after a number of failed attempts, each made when it was due. -/
def punctual (t0 : UInt64) (jitters : ℕ → UInt64) : ℕ → AttemptState
  | 0 => new t0
  | n + 1 => (punctual t0 jitters n).failed ⟨(punctual t0 jitters n).nextAttemptAt, jitters n⟩

variable {jitters : ℕ → UInt64}

theorem toNat_nextAttemptAt_punctual (t0 : UInt64) (jitters : ℕ → UInt64) (n : ℕ) :
    (punctual t0 jitters (n + 1)).nextAttemptAt.toNat =
      min ((punctual t0 jitters n).nextAttemptAt.toNat + (punctual t0 jitters n).delay (jitters n))
        (2 ^ 64 - 1) :=
  toNat_nextAttemptAt_onFailure _ _ _

theorem le_nextAttemptAt_punctual (t0 : UInt64) (jitters : ℕ → UInt64) (n : ℕ) :
    min (t0.toNat + n) (2 ^ 64 - 1) ≤ (punctual t0 jitters n).nextAttemptAt.toNat := by
  induction n with
  | zero => exact min_le_left _ _
  | succ n ih =>
    have hpos := (punctual t0 jitters n).delay_pos (jitters n)
    rw [toNat_nextAttemptAt_punctual]
    omega

/-- Some attempt is due once the swap is unlocked. -/
theorem exists_due (t0 : UInt64) (jitters : ℕ → UInt64) (unlock : UInt64) :
    ∃ n, unlock ≤ (punctual t0 jitters n).nextAttemptAt := by
  refine ⟨unlock.toNat, ?_⟩
  have hle := le_nextAttemptAt_punctual t0 jitters unlock.toNat
  have hlt := unlock.toNat_lt
  rw [UInt64.le_iff_toNat_le]
  omega

/-- An attempt that is due before the last possible time has not lost a part of its delay. -/
theorem elapsed_punctual {unlock : UInt64} {n : ℕ}
    (h : ∀ m ≤ n, (punctual t0 jitters m).nextAttemptAt < unlock) :
    Elapsed t0 (punctual t0 jitters n) := by
  induction n with
  | zero => exact elapsed_new t0
  | succ n ih =>
    have hbefore := ih fun m hm => h m (by omega)
    have hnext := h (n + 1) le_rfl
    have hlt := unlock.toNat_lt
    rw [UInt64.lt_iff_toNat_lt, toNat_nextAttemptAt_punctual] at hnext
    refine hbefore.failed ⟨UInt64.le_refl _, ?_⟩
    dsimp only
    omega

theorem first_due_le {unlock : UInt64} (ht0 : t0 ≤ unlock) {n : ℕ}
    (h : ∀ m < n, (punctual t0 jitters m).nextAttemptAt < unlock) :
    (punctual t0 jitters n).nextAttemptAt.toNat ≤
      t0.toNat + 2 * (unlock.toNat - t0.toNat) + 64 := by
  rw [UInt64.le_iff_toNat_le] at ht0
  cases n with
  | zero =>
    have hfirst : (punctual t0 jitters 0).nextAttemptAt = t0 := rfl
    rw [hfirst]
    omega
  | succ n =>
    have helapsed : Elapsed t0 (punctual t0 jitters n) :=
      elapsed_punctual fun m hm => h m (Nat.lt_succ_of_le hm)
    have hdelay := helapsed.delay_le (jitters n)
    have hlast := h n n.lt_succ_self
    rw [UInt64.lt_iff_toNat_lt] at hlast
    rw [toNat_nextAttemptAt_punctual]
    omega

/-- Each failure at most doubles the time since the first attempt, up to a minute. Attempts that
are made when they are due thus come at most that late after a swap is unlocked. -/
theorem retries_overshoot_twice (t0 : UInt64) :
    (∀ failures, Runs.Along AttemptState.failed Timely (new t0) failures →
      Runs.Along AttemptState.failed (Bounded t0) (new t0) failures ∧
      (Runs.final AttemptState.failed (new t0) failures).attemptCount.toNat =
        min failures.length (2 ^ 32 - 1)) ∧
    ∀ (jitters : ℕ → UInt64) (unlock : UInt64), t0 ≤ unlock →
      ∃ n, unlock ≤ (punctual t0 jitters n).nextAttemptAt ∧
        (∀ m < n, (punctual t0 jitters m).nextAttemptAt < unlock) ∧
        (punctual t0 jitters n).nextAttemptAt.toNat ≤
          t0.toNat + 2 * (unlock.toNat - t0.toNat) + 64 := by
  constructor
  · intro failures htimely
    constructor
    · apply Runs.Along.of_invariant _ (elapsed_new t0) htimely
      intro s f helapsed hf
      exact ⟨helapsed.bounded hf, helapsed.failed hf⟩
    · have hcount := toNat_attemptCount_final (new t0) failures
      have hzero : (new t0).attemptCount.toNat = 0 := rfl
      rwa [hzero, Nat.zero_add] at hcount
  · intro jitters unlock ht0
    have hdue := exists_due t0 jitters unlock
    have hbefore : ∀ m < Nat.find hdue, (punctual t0 jitters m).nextAttemptAt < unlock := by
      intro m hm
      exact UInt64.not_le.mp (Nat.find_min hdue hm)
    exact ⟨Nat.find hdue, Nat.find_spec hdue, hbefore, first_due_le ht0 hbefore⟩

/-- A first attempt at second 1000 whose swap unlocks a hundred seconds later. -/
theorem retries_overshoot_twice_at_1000 :
    Runs.Along AttemptState.failed (Bounded 1000) (new 1000) [⟨1000, 7⟩, ⟨1030, 61⟩] ∧
    ∃ n, 1100 ≤ (punctual 1000 (fun _ => 7) n).nextAttemptAt ∧
      (∀ m < n, (punctual 1000 (fun _ => 7) m).nextAttemptAt < 1100) ∧
      (punctual 1000 (fun _ => 7) n).nextAttemptAt.toNat ≤ 1000 + 2 * (1100 - 1000) + 64 :=
  ⟨((retries_overshoot_twice 1000).1 [⟨1000, 7⟩, ⟨1030, 61⟩]
      ⟨⟨by decide, by decide⟩, ⟨by decide, by decide⟩, trivial⟩).1,
    (retries_overshoot_twice 1000).2 (fun _ => 7) 1100 (by decide)⟩

end Stroemnet.AttemptState
