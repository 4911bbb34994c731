import Stroemnet.Backoff
import Stroemnet.EvmSettlement
import Stroemnet.Restart

/-! # The settlement loop

A tick of the loop goes over the keys that were due when it began and attempts them one after the
other. It waits for answers in between, and meanwhile other tasks track events and queue claims.
No attempt is given up: a key leaves the queue when its swap is seen to be settled. -/
namespace Stroemnet

theorem AttemptState.lt_onFailure (s : AttemptState) {now : UInt64}
    (hnow : now.toNat < 2 ^ 64 - 1) (jitter : UInt64) :
    now < (s.onFailure now jitter).nextAttemptAt := by
  have hpos := s.delay_pos jitter
  rw [UInt64.lt_iff_toNat_lt, toNat_nextAttemptAt_onFailure]
  omega

open Kaspa (SettleOutcome)

/-- A channel as the loop sees it. An attempt begins with what it reads and ends, after it has got
its answers, with what it does to the state. The last two say which swap the input of another
task is about and whether it shows that swap to be settled. -/
structure Settler (σ α ω : Type) where
  queue : σ → RetryQueue
  recordSuccess : σ → ActionKey → σ
  recordFailure : σ → ActionKey → UInt64 → σ
  settle : α → σ → ActionKey → SettleOutcome × (σ → σ)
  other : σ → ω → σ
  swapOf : ω → SwapId
  resolves : ω → Bool

/-- What comes to pass during the attempt of one key. -/
structure Turn (α ω : Type) where
  observed : Observation
  whileObserving : List ω
  answers : α
  whileSettling : List ω
  timedOut : Bool

inductive Recorded
  | success
  | failure
deriving DecidableEq

/-- What the loop did with one key: what it was shown of it, if it looked, and what it recorded. -/
structure Entry where
  key : ActionKey
  observed : Option Observation
  recorded : Option Recorded
deriving DecidableEq

namespace Settler

variable {σ α ω : Type} (S : Settler σ α ω)

/-- Attempts a key and records that it is not settled yet, whatever the outcome. -/
def attempt (now : UInt64) (s : σ) (k : ActionKey) (turn : Turn α ω) : σ :=
  let (outcome, effect) := S.settle turn.answers s k
  let s := effect (turn.whileSettling.foldl S.other s)
  match if turn.timedOut then .retry "timeout" else outcome with
  | .retry _ => S.recordFailure s k now
  | .fatal _ => S.recordFailure s k now

/-- The turn of one key. One that is past its deadline is looked up first. -/
def driveKey (now : UInt64) (s : σ) (k : ActionKey) (turn : Turn α ω) : σ × Entry :=
  if (S.queue s).isStuck k now then
    let s := turn.whileObserving.foldl S.other s
    match turn.observed with
    | .settled => (S.recordSuccess s k, ⟨k, some turn.observed, some .success⟩)
    | _ => (S.attempt now s k turn, ⟨k, some turn.observed, some .failure⟩)
  else (S.attempt now s k turn, ⟨k, none, some .failure⟩)

def drive (now : UInt64) : List (ActionKey × Turn α ω) → σ → σ × List Entry
  | [], s => (s, [])
  | (k, turn) :: turns, s =>
    let (s, entry) := S.driveKey now s k turn
    let (s, entries) := drive now turns s
    (s, entry :: entries)

/-- Looks up the keys that are due and drops those that are settled. -/
def reconcile : List (ActionKey × Turn α ω) → σ → σ × List Entry
  | [], s => (s, [])
  | (k, turn) :: turns, s =>
    let s := turn.whileObserving.foldl S.other s
    match turn.observed with
    | .settled =>
      let (s, entries) := reconcile turns (S.recordSuccess s k)
      (s, ⟨k, some turn.observed, some .success⟩ :: entries)
    | _ =>
      let (s, entries) := reconcile turns s
      (s, ⟨k, some turn.observed, none⟩ :: entries)

end Settler

/-- A tick of the loop, the reconciliation on boot, or another task. -/
inductive LoopInput (α ω : Type)
  | tick (now : UInt64) (turns : List (ActionKey × Turn α ω))
  | boot (now : UInt64) (turns : List (ActionKey × Turn α ω))
  | other (input : ω)

def LoopInput.others {α ω : Type} : LoopInput α ω → List ω
  | .tick _ turns => turns.flatMap fun x => x.2.whileObserving ++ x.2.whileSettling
  | .boot _ turns => turns.flatMap fun x => x.2.whileObserving
  | .other input => [input]

def RetryQueue.isDue (q : RetryQueue) (k : ActionKey) (now : UInt64) : Bool := (q k).any (·.due now)

namespace Settler

variable {σ α ω : Type} (S : Settler σ α ω)

def step (s : σ) : LoopInput α ω → σ
  | .tick now turns => (S.drive now turns s).1
  | .boot _ turns => (S.reconcile turns s).1
  | .other input => S.other s input

def log (s : σ) : LoopInput α ω → List Entry
  | .tick now turns => (S.drive now turns s).2
  | .boot _ turns => (S.reconcile turns s).2
  | .other _ => []

/-- A list of turns has the due keys of a queue, each once. -/
def Lists (q : RetryQueue) (now : UInt64) (turns : List (ActionKey × Turn α ω)) : Prop :=
  (turns.map Prod.fst).Nodup ∧ ∀ k, k ∈ turns.map Prod.fst ↔ q.isDue k now = true

/-- The keys of a tick are those that the queue has due. -/
def Snapshot (s : σ) : LoopInput α ω → Prop
  | .tick now turns => Lists (S.queue s) now turns
  | .boot now turns => Lists (S.queue s) now turns
  | .other _ => True

/-- What the loop relies on of a channel. -/
structure Lawful : Prop where
  success : ∀ s k k', k' ≠ k → S.queue (S.recordSuccess s k) k' = S.queue s k'
  failure : ∀ s k now, S.queue (S.recordFailure s k now) = (S.queue s).recordFailure k now k.jitter
  settle : ∀ a s k, ∃ f : AttemptState → AttemptState,
    (∀ x, (f x).firstSeen = x.firstSeen ∧ (f x).deadline = x.deadline) ∧
      ∀ s', S.queue ((S.settle a s k).2 s') = (S.queue s').modify k f
  other : ∀ s i k, S.swapOf i ≠ k.swapId → S.queue (S.other s i) k = S.queue s k
  kept : ∀ s i k, S.resolves i = false → (S.queue s k).isSome → (S.queue (S.other s i) k).isSome

namespace Lawful

variable {S : Settler σ α ω} {s : σ} {k k' : ActionKey}

/-- Other tasks leave the keys of other swaps alone. -/
theorem foldl_other (h : S.Lawful) {inputs : List ω} (hne : ∀ i ∈ inputs, S.swapOf i ≠ k.swapId) :
    S.queue (inputs.foldl S.other s) k = S.queue s k := by
  induction inputs generalizing s with
  | nil => rfl
  | cons i inputs ih =>
    rw [List.forall_mem_cons] at hne
    rw [List.foldl_cons, ih hne.2, h.other s i k hne.1]

/-- Other tasks take a key out only when they see its swap settled. -/
theorem foldl_kept (h : S.Lawful) {inputs : List ω}
    (hopen : ∀ i ∈ inputs, S.resolves i = true → S.swapOf i ≠ k.swapId)
    (hk : (S.queue s k).isSome) : (S.queue (inputs.foldl S.other s) k).isSome := by
  induction inputs generalizing s with
  | nil => exact hk
  | cons i inputs ih =>
    rw [List.forall_mem_cons] at hopen
    apply ih hopen.2
    cases hres : S.resolves i with
    | false => exact h.kept s i k hres hk
    | true => rwa [h.other s i k (hopen.1 hres)]

/-- The end of an attempt: it changes nothing but the attempts of its own key. -/
theorem queue_attempt (h : S.Lawful) (now : UInt64) (s : σ) (k : ActionKey) (turn : Turn α ω) :
    ∃ f : AttemptState → AttemptState,
      (∀ x, (f x).firstSeen = x.firstSeen ∧ (f x).deadline = x.deadline) ∧
      S.queue (S.attempt now s k turn) =
        ((S.queue (turn.whileSettling.foldl S.other s)).modify k f).recordFailure k now
          k.jitter := by
  obtain ⟨f, hf, hqueue⟩ := h.settle turn.answers s k
  refine ⟨f, hf, ?_⟩
  rw [← hqueue, ← h.failure]
  unfold attempt
  simp only
  split
  · rfl
  · rfl

theorem attempt_of_ne (h : S.Lawful) (now : UInt64) (turn : Turn α ω) (hne : k' ≠ k) :
    S.queue (S.attempt now s k turn) k' =
      S.queue (turn.whileSettling.foldl S.other s) k' := by
  obtain ⟨f, -, hqueue⟩ := h.queue_attempt now s k turn
  rw [hqueue, RetryQueue.recordFailure_eq_modify, RetryQueue.modify_of_ne hne,
    RetryQueue.modify_of_ne hne]

theorem attempt_kept (h : S.Lawful) (now : UInt64) (turn : Turn α ω) :
    (S.queue (S.attempt now s k turn) k').isSome =
      (S.queue (turn.whileSettling.foldl S.other s) k').isSome := by
  obtain ⟨f, -, hqueue⟩ := h.queue_attempt now s k turn
  rw [hqueue, RetryQueue.isSome_recordFailure, RetryQueue.isSome_modify]

/-- After a failed attempt the key waits, with what it had. -/
theorem attempt_self (h : S.Lawful) {now : UInt64} (hnow : now.toNat < 2 ^ 64 - 1)
    (turn : Turn α ω) {x : AttemptState}
    (hx : S.queue (turn.whileSettling.foldl S.other s) k = some x) :
    ∃ y, S.queue (S.attempt now s k turn) k = some y ∧ now < y.nextAttemptAt ∧
      y.firstSeen = x.firstSeen ∧ y.deadline = x.deadline := by
  obtain ⟨f, hf, hqueue⟩ := h.queue_attempt now s k turn
  refine ⟨(f x).onFailure now k.jitter, ?_, (f x).lt_onFailure hnow _, (hf x).1, (hf x).2⟩
  rw [hqueue, RetryQueue.recordFailure_eq_modify, RetryQueue.modify_self, RetryQueue.modify_self,
    hx]
  rfl

/-- In its turn a key is seen to be settled, or other tasks and an attempt come to pass. -/
theorem driveKey_cases (S : Settler σ α ω) (now : UInt64) (s : σ) (k : ActionKey)
    (turn : Turn α ω) :
    (S.driveKey now s k turn = (S.recordSuccess (turn.whileObserving.foldl S.other s) k,
        ⟨k, some .settled, some .success⟩)) ∨
      ∃ (observing : List ω) (observed : Option Observation),
        (∀ i ∈ observing, i ∈ turn.whileObserving) ∧
        S.driveKey now s k turn = (S.attempt now (observing.foldl S.other s) k turn,
          ⟨k, observed, some .failure⟩) := by
  unfold driveKey
  split_ifs
  · cases hobserved : turn.observed with
    | settled => exact .inl rfl
    | notSettled => exact .inr ⟨turn.whileObserving, _, fun _ hi => hi, rfl⟩
    | unknown => exact .inr ⟨turn.whileObserving, _, fun _ hi => hi, rfl⟩
  · exact .inr ⟨[], none, nofun, rfl⟩

theorem driveKey_key (S : Settler σ α ω) (now : UInt64) (s : σ) (k : ActionKey)
    (turn : Turn α ω) : (S.driveKey now s k turn).2.key = k := by
  rcases driveKey_cases S now s k turn with h | ⟨_, _, -, h⟩
  · rw [h]
  · rw [h]

theorem map_key_drive (S : Settler σ α ω) (now : UInt64) (turns : List (ActionKey × Turn α ω))
    (s : σ) : (S.drive now turns s).2.map Entry.key = turns.map Prod.fst := by
  induction turns generalizing s with
  | nil => rfl
  | cons x turns ih => rw [drive, List.map_cons, List.map_cons, ih, driveKey_key]

theorem recorded_drive (S : Settler σ α ω) (now : UInt64) (turns : List (ActionKey × Turn α ω))
    (s : σ) : ∀ e ∈ (S.drive now turns s).2, e.recorded = some .failure ∨
      e.recorded = some .success ∧ e.observed = some .settled := by
  induction turns generalizing s with
  | nil => exact nofun
  | cons x turns ih =>
    rw [drive, List.forall_mem_cons]
    refine ⟨?_, ih _⟩
    rcases driveKey_cases S now s x.1 x.2 with h | ⟨_, _, -, h⟩
    · rw [h]
      exact .inr ⟨rfl, rfl⟩
    · rw [h]
      exact .inl rfl

theorem driveKey_kept (h : S.Lawful) (now : UInt64) (turn : Turn α ω)
    (hopen : ∀ i ∈ turn.whileObserving ++ turn.whileSettling, S.resolves i = true →
      S.swapOf i ≠ k'.swapId)
    (hseen : ¬ ((S.driveKey now s k turn).2.key = k' ∧
      (S.driveKey now s k turn).2.observed = some .settled))
    (hk : (S.queue s k').isSome) : (S.queue (S.driveKey now s k turn).1 k').isSome := by
  rw [List.forall_mem_append] at hopen
  rcases driveKey_cases S now s k turn with hturn | ⟨observing, observed, hsub, hturn⟩
  · rw [hturn] at hseen ⊢
    have hne : k' ≠ k := fun heq => hseen ⟨heq.symm, rfl⟩
    rw [h.success _ _ _ hne]
    exact h.foldl_kept hopen.1 hk
  · rw [hturn, h.attempt_kept]
    exact h.foldl_kept hopen.2 (h.foldl_kept (fun i hi => hopen.1 i (hsub i hi)) hk)

/-- A turn of another key, with nothing of the swap in between, changes nothing. -/
theorem driveKey_of_ne (h : S.Lawful) (now : UInt64) (turn : Turn α ω)
    (hswap : ∀ i ∈ turn.whileObserving ++ turn.whileSettling, S.swapOf i ≠ k'.swapId)
    (hne : k' ≠ k) : S.queue (S.driveKey now s k turn).1 k' = S.queue s k' := by
  rw [List.forall_mem_append] at hswap
  rcases driveKey_cases S now s k turn with hturn | ⟨observing, observed, hsub, hturn⟩
  · rw [hturn, h.success _ _ _ hne, h.foldl_other hswap.1]
  · rw [hturn, h.attempt_of_ne now turn hne, h.foldl_other hswap.2,
      h.foldl_other fun i hi => hswap.1 i (hsub i hi)]

theorem drive_kept (h : S.Lawful) (now : UInt64) (turns : List (ActionKey × Turn α ω))
    (hopen : ∀ i ∈ turns.flatMap fun x => x.2.whileObserving ++ x.2.whileSettling,
      S.resolves i = true → S.swapOf i ≠ k.swapId)
    (hseen : ∀ e ∈ (S.drive now turns s).2, ¬ (e.key = k ∧ e.observed = some .settled))
    (hk : (S.queue s k).isSome) : (S.queue (S.drive now turns s).1 k).isSome := by
  induction turns generalizing s with
  | nil => exact hk
  | cons x turns ih =>
    rw [List.flatMap_cons, List.forall_mem_append] at hopen
    rw [drive, List.forall_mem_cons] at hseen
    exact ih hopen.2 hseen.2 (h.driveKey_kept now x.2 hopen.1 hseen.1 hk)

theorem drive_untouched (h : S.Lawful) (now : UInt64) (turns : List (ActionKey × Turn α ω))
    (hswap : ∀ i ∈ turns.flatMap fun x => x.2.whileObserving ++ x.2.whileSettling,
      S.swapOf i ≠ k.swapId)
    (hk : k ∉ turns.map Prod.fst) : S.queue (S.drive now turns s).1 k = S.queue s k := by
  induction turns generalizing s with
  | nil => rfl
  | cons x turns ih =>
    rw [List.flatMap_cons, List.forall_mem_append] at hswap
    rw [List.map_cons, List.mem_cons, not_or] at hk
    have hturn : S.queue (S.driveKey now s x.1 x.2).1 k = S.queue s k :=
      h.driveKey_of_ne now x.2 hswap.1 hk.1
    exact (ih hswap.2 hk.2).trans hturn

/-- A key that is recorded as failed waits at the end of the tick. -/
theorem drive_failed (h : S.Lawful) {now : UInt64} (hnow : now.toNat < 2 ^ 64 - 1)
    (turns : List (ActionKey × Turn α ω)) (hnodup : (turns.map Prod.fst).Nodup) {e : Entry}
    (he : e ∈ (S.drive now turns s).2) (hfailed : e.recorded = some .failure)
    (hswap : ∀ i ∈ turns.flatMap fun x => x.2.whileObserving ++ x.2.whileSettling,
      S.swapOf i ≠ e.key.swapId) {x : AttemptState} (hx : S.queue s e.key = some x) :
    ∃ y, S.queue (S.drive now turns s).1 e.key = some y ∧ now < y.nextAttemptAt ∧
      y.firstSeen = x.firstSeen ∧ y.deadline = x.deadline := by
  induction turns generalizing s with
  | nil => cases he
  | cons head turns ih =>
    obtain ⟨k, turn⟩ := head
    rw [List.map_cons, List.nodup_cons] at hnodup
    rw [List.flatMap_cons, List.forall_mem_append] at hswap
    rw [drive] at he ⊢
    rcases List.mem_cons.mp he with rfl | he
    · rcases driveKey_cases S now s k turn with hturn | ⟨observing, observed, hsub, hturn⟩
      · rw [hturn] at hfailed
        cases hfailed
      · rw [hturn] at hx hswap ⊢
        rw [List.forall_mem_append] at hswap
        have hstart : S.queue (turn.whileSettling.foldl S.other (observing.foldl S.other s)) k =
            some x := by
          rw [h.foldl_other hswap.1.2, h.foldl_other fun i hi => hswap.1.1 i (hsub i hi)]
          exact hx
        obtain ⟨y, hy, hlater⟩ := h.attempt_self hnow turn hstart
        refine ⟨y, ?_, hlater⟩
        rw [← hy]
        exact h.drive_untouched now turns hswap.2 hnodup.1
    · have hlater : e.key ∈ turns.map Prod.fst := by
        rw [← map_key_drive S now turns]
        exact List.mem_map_of_mem he
      have hne : e.key ≠ k := fun heq => hnodup.1 (heq ▸ hlater)
      refine ih hnodup.2 he hswap.2 ?_
      rw [h.driveKey_of_ne now turn hswap.1 hne]
      exact hx

theorem reconcile_kept (h : S.Lawful) (turns : List (ActionKey × Turn α ω))
    (hopen : ∀ i ∈ turns.flatMap fun x => x.2.whileObserving, S.resolves i = true →
      S.swapOf i ≠ k.swapId)
    (hseen : ∀ e ∈ (S.reconcile turns s).2, ¬ (e.key = k ∧ e.observed = some .settled))
    (hk : (S.queue s k).isSome) : (S.queue (S.reconcile turns s).1 k).isSome := by
  induction turns generalizing s with
  | nil => exact hk
  | cons x turns ih =>
    rw [List.flatMap_cons, List.forall_mem_append] at hopen
    have hkept := h.foldl_kept hopen.1 hk
    rw [reconcile] at hseen ⊢
    cases hobserved : x.2.observed with
    | settled =>
      simp only [hobserved, List.forall_mem_cons] at hseen
      have hne : k ≠ x.1 := fun heq => hseen.1 ⟨heq.symm, trivial⟩
      refine ih hopen.2 hseen.2 ?_
      rwa [h.success _ _ _ hne]
    | notSettled =>
      simp only [hobserved, List.forall_mem_cons] at hseen
      exact ih hopen.2 hseen.2 hkept
    | unknown =>
      simp only [hobserved, List.forall_mem_cons] at hseen
      exact ih hopen.2 hseen.2 hkept

theorem reconcile_untouched (h : S.Lawful) (turns : List (ActionKey × Turn α ω))
    (hswap : ∀ i ∈ turns.flatMap fun x => x.2.whileObserving, S.swapOf i ≠ k.swapId)
    (hk : k ∉ turns.map Prod.fst) : S.queue (S.reconcile turns s).1 k = S.queue s k := by
  induction turns generalizing s with
  | nil => rfl
  | cons x turns ih =>
    rw [List.flatMap_cons, List.forall_mem_append] at hswap
    rw [List.map_cons, List.mem_cons, not_or] at hk
    have hothers : S.queue (x.2.whileObserving.foldl S.other s) k = S.queue s k :=
      h.foldl_other hswap.1
    rw [reconcile]
    cases x.2.observed with
    | settled => exact (ih hswap.2 hk.2).trans ((h.success _ _ _ hk.1).trans hothers)
    | notSettled => exact (ih hswap.2 hk.2).trans hothers
    | unknown => exact (ih hswap.2 hk.2).trans hothers

end Lawful

/-- A key may leave the queue: it was looked up and seen to be settled, or another task saw its
swap settled. -/
def Releases (S : Settler σ α ω) (s : σ) (input : LoopInput α ω) (k : ActionKey) : Prop :=
  (∃ e ∈ S.log s input, e.key = k ∧ e.observed = some .settled) ∨
    ∃ i ∈ input.others, S.resolves i = true ∧ S.swapOf i = k.swapId

structure Keeps (S : Settler σ α ω) (s : σ) (input : LoopInput α ω) : Prop where
  leaves : ∀ k, (S.queue s k).isSome → S.queue (S.step s input) k = none → S.Releases s input k
  /-- Every key that is due gets one of the two results, once, and no other key gets any. -/
  once : ∀ now turns, input = .tick now turns → ∀ k,
    ((S.log s input).countP fun e => e.key = k ∧ e.recorded.isSome) =
      if (S.queue s).isDue k now then 1 else 0
  /-- A failed key waits and keeps its age and its deadline. -/
  failed : ∀ now turns, input = .tick now turns → now.toNat < 2 ^ 64 - 1 → ∀ e ∈ S.log s input,
    e.recorded = some .failure → (∀ i ∈ input.others, S.swapOf i ≠ e.key.swapId) →
    ∃ x y, S.queue s e.key = some x ∧ S.queue (S.step s input) e.key = some y ∧
      now < y.nextAttemptAt ∧ y.firstSeen = x.firstSeen ∧ y.deadline = x.deadline
  untouched : ∀ now turns, input = .tick now turns ∨ input = .boot now turns → ∀ k,
    (S.queue s).isDue k now = false → (∀ i ∈ input.others, S.swapOf i ≠ k.swapId) →
    S.queue (S.step s input) k = S.queue s k

/-- What a run of the loop does to the queue. -/
structure NeverAbandons (S : Settler σ α ω) (s : σ) (ins : List (LoopInput α ω)) : Prop where
  steps : Runs.Along S.step S.Keeps s ins
  leaves : ∀ k, (S.queue s k).isSome → S.queue (Runs.final S.step s ins) k = none →
    ∃ pre input post, ins = pre ++ input :: post ∧ S.Releases (Runs.final S.step s pre) input k
  /-- A failure that is recorded in any state leaves the key queued for later. -/
  failure : ∀ s k x, S.queue s k = some x → ∀ now : UInt64, now.toNat < 2 ^ 64 - 1 →
    ∃ y, S.queue (S.recordFailure s k now) k = some y ∧ now < y.nextAttemptAt ∧
      y.firstSeen = x.firstSeen ∧ y.deadline = x.deadline ∧ y.nonce = x.nonce

namespace Lawful

variable {S : Settler σ α ω} {s : σ}

theorem leaves (h : S.Lawful) {input : LoopInput α ω} {k : ActionKey}
    (hk : (S.queue s k).isSome) (hgone : S.queue (S.step s input) k = none) :
    S.Releases s input k := by
  by_contra hreleases
  rw [Releases, not_or] at hreleases
  obtain ⟨hseen, hresolved⟩ := hreleases
  have hseen : ∀ e ∈ S.log s input, ¬ (e.key = k ∧ e.observed = some .settled) :=
    fun e he hsettled => hseen ⟨e, he, hsettled⟩
  have hopen : ∀ i ∈ input.others, S.resolves i = true → S.swapOf i ≠ k.swapId :=
    fun i hi hres hswap => hresolved ⟨i, hi, hres, hswap⟩
  have hkept : (S.queue (S.step s input) k).isSome := by
    cases input with
    | tick now turns => exact h.drive_kept now turns hopen hseen hk
    | boot now turns => exact h.reconcile_kept turns hopen hseen hk
    | other i =>
      have hopen' : ∀ j ∈ [i], S.resolves j = true → S.swapOf j ≠ k.swapId := hopen
      exact h.foldl_kept hopen' hk
  rw [hgone] at hkept
  cases hkept

theorem once (S : Settler σ α ω) (s : σ) {now : UInt64} {turns : List (ActionKey × Turn α ω)}
    (hlists : Lists (S.queue s) now turns) (k : ActionKey) :
    ((S.drive now turns s).2.countP fun e => e.key = k ∧ e.recorded.isSome) =
      if (S.queue s).isDue k now then 1 else 0 := by
  have hcount : ((S.drive now turns s).2.countP fun e => e.key = k ∧ e.recorded.isSome) =
      (turns.map Prod.fst).count k := by
    rw [← map_key_drive S now turns s, List.count, List.countP_map]
    refine List.countP_congr fun e he => ?_
    have hrecorded : e.recorded.isSome = true := by
      rcases recorded_drive S now turns s e he with hfailed | ⟨hsettled, -⟩
      · rw [hfailed]
        rfl
      · rw [hsettled]
        rfl
    simp [hrecorded]
  rw [hcount, hlists.1.count]
  simp only [hlists.2]

theorem keeps (h : S.Lawful) {input : LoopInput α ω} (hsnapshot : S.Snapshot s input) :
    S.Keeps s input where
  leaves _ hk hgone := h.leaves hk hgone
  once now turns htick k := by
    subst htick
    exact once S s hsnapshot k
  failed now turns htick hnow e he hfailed hswap := by
    subst htick
    have hdue : e.key ∈ turns.map Prod.fst := by
      rw [← map_key_drive S now turns s]
      exact List.mem_map_of_mem he
    obtain ⟨x, hx, -⟩ := (Option.any_eq_true _ _).mp ((hsnapshot.2 e.key).mp hdue)
    obtain ⟨y, hy⟩ := h.drive_failed hnow turns hsnapshot.1 he hfailed hswap hx
    exact ⟨x, y, hx, hy⟩
  untouched now turns hinput k hdue hswap := by
    have hnot : Lists (S.queue s) now turns → k ∉ turns.map Prod.fst := by
      intro hlists hk
      rw [(hlists.2 k).mp hk] at hdue
      cases hdue
    rcases hinput with rfl | rfl
    · exact h.drive_untouched now turns hswap (hnot hsnapshot)
    · exact h.reconcile_untouched turns hswap (hnot hsnapshot)

/-- A key that is gone at the end of a run was released at one of its inputs. -/
theorem leaves_run (h : S.Lawful) {ins : List (LoopInput α ω)} {k : ActionKey}
    (hk : (S.queue s k).isSome) (hgone : S.queue (Runs.final S.step s ins) k = none) :
    ∃ pre input post, ins = pre ++ input :: post ∧
      S.Releases (Runs.final S.step s pre) input k := by
  induction ins generalizing s with
  | nil =>
    rw [Runs.final_nil] at hgone
    rw [hgone] at hk
    cases hk
  | cons input ins ih =>
    by_cases hnext : (S.queue (S.step s input) k).isSome
    · obtain ⟨pre, input', post, rfl, hreleases⟩ := ih hnext hgone
      exact ⟨input :: pre, input', post, rfl, hreleases⟩
    · exact ⟨[], input, ins, rfl, h.leaves hk (Option.not_isSome_iff_eq_none.mp hnext)⟩

/-- The loop abandons no key of a channel that keeps the laws. -/
theorem neverAbandons (h : S.Lawful) {ins : List (LoopInput α ω)}
    (hsnapshots : Runs.Along S.step S.Snapshot s ins) : S.NeverAbandons s ins where
  steps := hsnapshots.mono fun _ _ => h.keeps
  leaves _ hk hgone := h.leaves_run hk hgone
  failure s k x hx now hnow := by
    refine ⟨x.onFailure now k.jitter, ?_, x.lt_onFailure hnow _, rfl, rfl, rfl⟩
    rw [h.failure, RetryQueue.recordFailure_eq_modify, RetryQueue.modify_self, hx]
    rfl

end Lawful
end Settler

namespace RetryQueue

variable {q : RetryQueue} {k : ActionKey} {id : SwapId} {now : UInt64}

theorem ensure_of_ne {k' : ActionKey} (h : k ≠ k') : q.ensure k' now k = q k := by
  unfold ensure
  split_ifs
  · rfl
  · exact Function.update_of_ne h _ _

theorem settled_of_ne (h : id ≠ k.swapId) :
    (q.recordSuccess (.claim id)).recordSuccess (.refund id) k = q k := by
  have hclaim : k ≠ .claim id := fun heq => h (heq ▸ rfl)
  have hrefund : k ≠ .refund id := fun heq => h (heq ▸ rfl)
  rw [recordSuccess_of_ne hrefund, recordSuccess_of_ne hclaim]

/-- What another task may do to the queue: nothing, enter a key of its swap, or drop the keys of a
swap that it sees settled. -/
inductive Touched (q : RetryQueue) (id : SwapId) (resolves : Bool) : RetryQueue → Prop
  | same : Touched q id resolves q
  | entered (action : Action) (now : UInt64) : Touched q id resolves (q.ensure ⟨id, action⟩ now)
  | settled (h : resolves = true) :
    Touched q id resolves ((q.recordSuccess (.claim id)).recordSuccess (.refund id))

namespace Touched

variable {q' : RetryQueue} {resolves : Bool}

theorem of_ne (h : Touched q id resolves q') (hswap : id ≠ k.swapId) : q' k = q k := by
  cases h with
  | same => rfl
  | entered action now => exact ensure_of_ne fun heq => hswap (heq ▸ rfl)
  | settled _ => exact settled_of_ne hswap

theorem isSome (h : Touched q id resolves q') (hres : resolves = false) (hk : (q k).isSome) :
    (q' k).isSome := by
  cases h with
  | same => exact hk
  | entered action now => exact isSome_ensure hk
  | settled h =>
    rw [hres] at h
    cases h

end Touched

end RetryQueue

namespace Evm

/-- What another task does to a channel of an account chain. -/
inductive TaskInput
  | track (now : UInt64) (event : ChainEvent)
  | emit (now : UInt64) (sent : Except DataError Unit) (event : ChainEvent)

/-- An attempt of an account chain: it reads the pending work and the attempts, and stores its
nonce and gas price when the answers are there. -/
def State.beginSettle (cfg : Config) (sha256 : Bytes → Bytes32) (answers : SettleAnswers)
    (st : State) (k : ActionKey) : SettleOutcome × (State → State) :=
  match st.prepare cfg sha256 answers k with
  | .error outcome => (outcome, id)
  | .ok (_, result) =>
    match (st.queue k).bind (planReplacement answers) with
    | none => (.retry "replacement_unavailable", id)
    | some r => (submittedOutcome result,
        fun st => { st with queue := reserve st.queue k r }.persistSwap k.swapId)

/-- With nothing in between it is the whole attempt. -/
theorem State.beginSettle_eq (cfg : Config) (sha256 : Bytes → Bytes32) (answers : SettleAnswers)
    (st : State) (k : ActionKey) :
    (st.beginSettle cfg sha256 answers k).1 = (st.settle cfg sha256 answers k).1 ∧
      (st.beginSettle cfg sha256 answers k).2 st = (st.settle cfg sha256 answers k).2.2 := by
  unfold beginSettle settle
  cases st.prepare cfg sha256 answers k with
  | error outcome => exact ⟨rfl, rfl⟩
  | ok submission =>
    unfold replacement
    cases (st.queue k).bind (planReplacement answers) with
    | none => exact ⟨rfl, rfl⟩
    | some r => exact ⟨rfl, rfl⟩

def settler (cfg : Config) (sha256 : Bytes → Bytes32) : Settler State SettleAnswers TaskInput where
  queue := State.queue
  recordSuccess := State.recordSuccess
  recordFailure := State.recordFailure
  settle := fun answers st k => st.beginSettle cfg sha256 answers k
  other := fun st => fun
    | .track now event => st.trackActionableEvent cfg now event
    | .emit now sent event => (st.emitEvent cfg now sent event).2
  swapOf := fun
    | .track _ event => event.swapId
    | .emit _ _ event => event.swapId
  resolves := fun
    | .track _ event => event.isResolving
    | .emit .. => false

theorem touched_other (cfg : Config) (sha256 : Bytes → Bytes32) (st : State) (i : TaskInput) :
    st.queue.Touched ((settler cfg sha256).swapOf i) ((settler cfg sha256).resolves i)
      ((settler cfg sha256).other st i).queue := by
  cases i with
  | track now event =>
    cases event with
    | commitment c =>
      simp only [settler, State.trackActionableEvent]
      split_ifs
      · exact .entered .refund now
      · exact .same
    | reveal r => exact .settled rfl
    | refund r => exact .settled rfl
  | emit now sent event =>
    cases event with
    | commitment c =>
      simp only [settler, State.emitEvent]
      split_ifs
      · cases submitCommitment c with
        | error e => exact .same
        | ok call => exact .same
      · exact .same
    | reveal r =>
      simp only [settler, State.emitEvent]
      split_ifs
      · exact .entered .claim now
      · exact .same
    | refund r => exact .same

theorem settler_lawful (cfg : Config) (sha256 : Bytes → Bytes32) : (settler cfg sha256).Lawful where
  success st k k' hne := by
    obtain ⟨id, action⟩ := k
    cases action with
    | claim => exact RetryQueue.recordSuccess_of_ne hne
    | refund => exact RetryQueue.recordSuccess_of_ne hne
  failure _ _ _ := rfl
  settle answers st k := by
    simp only [settler, State.beginSettle]
    cases st.prepare cfg sha256 answers k with
    | error outcome =>
      exact ⟨id, fun _ => ⟨rfl, rfl⟩, fun st => (RetryQueue.modify_id st.queue k).symm⟩
    | ok submission =>
      cases (st.queue k).bind (planReplacement answers) with
      | none => exact ⟨id, fun _ => ⟨rfl, rfl⟩, fun st => (RetryQueue.modify_id st.queue k).symm⟩
      | some r =>
        refine ⟨fun s => { s with
          nonce := if r.fresh then some r.nonce else s.nonce
          lastGas := some r.gas }, fun _ => ⟨rfl, rfl⟩, fun st => reserve_eq_modify st.queue k r⟩
  other st i _ hswap := (touched_other cfg sha256 st i).of_ne hswap
  kept st i _ hres hk := (touched_other cfg sha256 st i).isSome hres hk

end Evm

namespace Kaspa

/-- What another task does to a channel of the UTXO chain. -/
inductive TaskInput
  | schedule (now : UInt64) (refund : SwapId × UInt64)
  | track (event : ChainEvent)
  | emit (now : UInt64) (network : Except KaspaError Network) (event : ChainEvent)

def State.settleClaim (cfg : Config) (submitted : Bool) (st : State) (id : SwapId) :
    SettleOutcome :=
  match st.commitments id with
  | none => .fatal "missing commitment or key"
  | some _ =>
    if ¬ cfg.hasKey then .fatal "missing commitment or key"
    else
      match st.pendingClaims.find? (·.swapId = id) with
      | none => .retry "no_reveal"
      | some _ => if submitted then .retry "submitted_awaiting_inclusion" else
        .retry "broadcast_error"

/-- An attempt changes nothing here. The answers are the median time and whether the transaction
was taken. -/
def settler (cfg : Config) : Settler State (Option UInt64 × Bool) TaskInput where
  queue := State.queue
  recordSuccess := State.recordSuccess
  recordFailure := State.recordFailure
  settle := fun (pmt, submitted) st k =>
    match k.action with
    | .refund => ((st.settleRefund cfg pmt submitted k.swapId).1, id)
    | .claim => (st.settleClaim cfg submitted k.swapId, id)
  other := fun st => fun
    | .schedule now refund => st.scheduleRefund now refund
    | .track event => st.trackActionableEvent cfg event
    | .emit now network event => (st.emitEvent cfg now network event).2
  swapOf := fun
    | .schedule _ refund => refund.1
    | .track event => event.swapId
    | .emit _ _ event => event.swapId
  resolves := fun
    | .track event => event.isResolving
    | _ => false

theorem touched_other (cfg : Config) (st : State) (i : TaskInput) :
    st.queue.Touched ((settler cfg).swapOf i) ((settler cfg).resolves i)
      ((settler cfg).other st i).queue := by
  cases i with
  | schedule now refund =>
    simp only [settler, State.scheduleRefund]
    split
    · exact .entered .refund now
    · exact .same
  | track event =>
    cases event with
    | commitment c => exact .same
    | reveal r => exact .settled rfl
    | refund r => exact .settled rfl
  | emit now network event =>
    cases event with
    | commitment c =>
      simp only [settler, State.emitEvent]
      split_ifs
      · cases submitCommitment cfg network c with
        | error e => exact .same
        | ok sent => exact .same
      · exact .same
    | reveal r =>
      simp only [settler, State.emitEvent]
      split_ifs
      · exact .entered .claim now
      · exact .same
    | refund r => exact .same

theorem settler_lawful (cfg : Config) : (settler cfg).Lawful where
  success st k k' hne := by
    obtain ⟨id, action⟩ := k
    cases action with
    | claim => exact RetryQueue.recordSuccess_of_ne hne
    | refund => exact RetryQueue.recordSuccess_of_ne hne
  failure _ _ _ := rfl
  settle answers st k := by
    refine ⟨id, fun _ => ⟨rfl, rfl⟩, fun st' => ?_⟩
    rw [RetryQueue.modify_id]
    obtain ⟨id, action⟩ := k
    cases action with
    | claim => rfl
    | refund => rfl
  other st i _ hswap := (touched_other cfg st i).of_ne hswap
  kept st i _ hres hk := (touched_other cfg st i).isSome hres hk

end Kaspa

/-- In every run of the loop over either kind of channel, with any answers and any inputs of other
tasks in between, no key is abandoned. -/
theorem settlement_never_abandoned (evm : Evm.Config) (sha256 : Bytes → Bytes32)
    (kaspa : Kaspa.Config) (st : Evm.State) (st' : Kaspa.State)
    (ins : List (LoopInput Evm.SettleAnswers Evm.TaskInput))
    (ins' : List (LoopInput (Option UInt64 × Bool) Kaspa.TaskInput))
    (hsnapshots : Runs.Along (Evm.settler evm sha256).step (Evm.settler evm sha256).Snapshot st ins)
    (hsnapshots' : Runs.Along (Kaspa.settler kaspa).step (Kaspa.settler kaspa).Snapshot st' ins') :
    (Evm.settler evm sha256).NeverAbandons st ins ∧ (Kaspa.settler kaspa).NeverAbandons st' ins' :=
  ⟨(Evm.settler_lawful evm sha256).neverAbandons hsnapshots,
    (Kaspa.settler_lawful kaspa).neverAbandons hsnapshots'⟩

/-- A commitment is tracked, and its refund is attempted before it unlocks. -/
def earlyRefundInputs : List (LoopInput Evm.SettleAnswers Evm.TaskInput) :=
  [.other (.track 100 (.commitment Kaspa.sampleCommitment)),
    .tick 100 [(.refund Kaspa.sampleCommitment.swapId, ⟨.unknown, [],
      ⟨some 50, none, none, none, none, none, false, .ok ()⟩, [], false⟩)]]

theorem settlement_never_abandoned_early :
    (Runs.final (Evm.settler (sampleNode.evm .ethereumSepolia) sampleNode.handler.sha256).step
      (Evm.State.empty 0) earlyRefundInputs).queue (.refund Kaspa.sampleCommitment.swapId) ≠ none ∧
    (Evm.settler (sampleNode.evm .ethereumSepolia) sampleNode.handler.sha256).NeverAbandons
      (.empty 0) earlyRefundInputs := by
  refine ⟨by decide +kernel, (settlement_never_abandoned _ _ sampleNode.kaspa (.empty 0) .empty
    earlyRefundInputs [] ⟨trivial, ⟨by decide +kernel, fun k => ?_⟩, trivial⟩ trivial).1⟩
  by_cases hk : k = .refund Kaspa.sampleCommitment.swapId
  · subst hk
    decide +kernel
  · have hnone : RetryQueue.ensure (fun _ => none) (.refund Kaspa.sampleCommitment.swapId) 100 k =
        none := RetryQueue.ensure_of_ne hk
    refine iff_of_false (by simpa using hk) fun hdue => ?_
    obtain ⟨x, hx, -⟩ := (Option.any_eq_true _ _).mp hdue
    cases hnone.symm.trans hx

end Stroemnet
