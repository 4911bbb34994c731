import Stroemnet.SwapProtocol
import Mathlib.Logic.Function.Basic

/-! # Pending work and its retries

What a channel still has to settle: refunds with the time they unlock, claims with their
secret, and for each of them the state of its attempts. -/
namespace Stroemnet

def saturatingAdd (a b : UInt64) : UInt64 :=
  UInt64.ofNat (min (a.toNat + b.toNat) (2 ^ 64 - 1))

theorem toNat_saturatingAdd (a b : UInt64) :
    (saturatingAdd a b).toNat = min (a.toNat + b.toNat) (2 ^ 64 - 1) := by
  have hlt : min (a.toNat + b.toNat) (2 ^ 64 - 1) < UInt64.size := by
    simp only [UInt64.size]
    omega
  rw [saturatingAdd, UInt64.toNat_ofNat_of_lt' hlt]

theorem toNat_min (a b : UInt64) : (min a b).toNat = min a.toNat b.toNat := by
  simp only [Min.min, UInt64.le_iff_toNat_le]
  split <;> rfl

inductive DataError
  | unknownChannel (c : ChannelId)
  | rpc (text : String)
  | broadcast (text : String)
  | missingKey (c : ChannelId)
  | other (text : String)
deriving DecidableEq

def baseDelaySecs : UInt64 := 5
def maxDelaySecs : UInt64 := 24 * 3600
def jitterMaxSecs : UInt64 := 60
def maxBackoffShift : UInt32 := 13
def deadlineSecs : UInt64 := 7 * 24 * 3600

/-- Tracks an attempt and when it should be retried. -/
structure AttemptState where
  firstSeen : UInt64
  nextAttemptAt : UInt64
  attemptCount : UInt32
  deadline : UInt64
  nonce : Option UInt64
  lastGas : Option (BitVec 128)
deriving DecidableEq

namespace AttemptState

def new (now : UInt64) : AttemptState :=
  ⟨now, now, 0, saturatingAdd now deadlineSecs, none, none⟩

def due (s : AttemptState) (now : UInt64) : Bool := s.nextAttemptAt ≤ now

def expired (s : AttemptState) (now : UInt64) : Bool := s.deadline ≤ now

/-- Delays the next attempt, twice as long with each failure up to a bound. -/
def onFailure (s : AttemptState) (now jitter : UInt64) : AttemptState :=
  let shift := min s.attemptCount maxBackoffShift
  let delay := saturatingAdd
    (min (UInt64.ofNat (min (baseDelaySecs.toNat * 2 ^ shift.toNat) (2 ^ 64 - 1))) maxDelaySecs)
    (jitter % jitterMaxSecs)
  { s with
    attemptCount := UInt32.ofNat (min (s.attemptCount.toNat + 1) (2 ^ 32 - 1))
    nextAttemptAt := saturatingAdd now delay }

end AttemptState

inductive Action
  | claim | refund
deriving DecidableEq

structure ActionKey where
  swapId : SwapId
  action : Action
deriving DecidableEq

namespace ActionKey

def claim (id : SwapId) : ActionKey := ⟨id, .claim⟩

def refund (id : SwapId) : ActionKey := ⟨id, .refund⟩

def jitter (k : ActionKey) : UInt64 :=
  UInt64.ofNat (k.swapId.data.map UInt8.toNat).sum

end ActionKey

abbrev RetryQueue := ActionKey → Option AttemptState

namespace RetryQueue

def ensure (q : RetryQueue) (k : ActionKey) (now : UInt64) : RetryQueue :=
  if (q k).isSome then q else Function.update q k (some (AttemptState.new now))

def recordSuccess (q : RetryQueue) (k : ActionKey) : RetryQueue := Function.update q k none

def recordFailure (q : RetryQueue) (k : ActionKey) (now jitter : UInt64) : RetryQueue :=
  match q k with
  | some s => Function.update q k (some (s.onFailure now jitter))
  | none => q

def isStuck (q : RetryQueue) (k : ActionKey) (now : UInt64) : Bool :=
  match q k with
  | some s => s.expired now
  | none => false

@[simp] theorem isSome_ensure_self (q : RetryQueue) (k : ActionKey) (now : UInt64) :
    (q.ensure k now k).isSome := by
  unfold ensure
  split_ifs with h
  · exact h
  · simp

theorem isSome_ensure {q : RetryQueue} {k k' : ActionKey} {now : UInt64}
    (h : (q k').isSome) : (q.ensure k now k').isSome := by
  unfold ensure
  split_ifs with hk
  · exact h
  · by_cases heq : k' = k
    · subst heq
      exact absurd h hk
    · rwa [Function.update_of_ne heq]

theorem isSome_ensure_iff {q : RetryQueue} {k k' : ActionKey} {now : UInt64} :
    (q.ensure k now k').isSome ↔ (q k').isSome ∨ k' = k := by
  constructor
  · intro h
    unfold ensure at h
    split_ifs at h
    · exact .inl h
    · by_cases heq : k' = k
      · exact .inr heq
      · rw [Function.update_of_ne heq] at h
        exact .inl h
  · rintro (h | rfl)
    · exact isSome_ensure h
    · exact isSome_ensure_self q k' now

@[simp] theorem recordSuccess_of_ne {q : RetryQueue} {k k' : ActionKey} (h : k' ≠ k) :
    q.recordSuccess k k' = q k' := Function.update_of_ne h _ _

/-- A failed attempt leaves every key in the queue. -/
theorem isSome_recordFailure (q : RetryQueue) (k k' : ActionKey) (now jitter : UInt64) :
    (q.recordFailure k now jitter k').isSome = (q k').isSome := by
  cases hs : q k with
  | none => simp [recordFailure, hs]
  | some s =>
    simp only [recordFailure, hs]
    by_cases heq : k' = k
    · subst heq
      simp [hs]
    · rw [Function.update_of_ne heq]

end RetryQueue

abbrev PendingRefunds := List (RefundV1 × UInt64)

def ChainEvent.isResolving : ChainEvent → Bool
  | .commitment _ => false
  | .reveal _ => true
  | .refund _ => true

/-- Schedules the refund of a commitment, and drops it once the swap is settled. -/
def queueDequeueRefundEvent (pending : PendingRefunds) (event : ChainEvent)
    (participateCcr : Bool) : PendingRefunds :=
  match event with
  | .commitment c =>
    if participateCcr ∧ ¬ pending.any (·.1.swapId = c.swapId) then
      pending ++ [(⟨c.swapId⟩, c.unlockTs)]
    else pending
  | .reveal r => pending.filter (·.1.swapId ≠ r.swapId)
  | .refund r => pending.filter (·.1.swapId ≠ r.swapId)

/-- A commitment takes nothing away from the pending refunds. -/
theorem mem_queueDequeueRefundEvent_commitment {pending : PendingRefunds} {p : RefundV1 × UInt64}
    (c : CommitmentV1) (participateCcr : Bool) (h : p ∈ pending) :
    p ∈ queueDequeueRefundEvent pending (.commitment c) participateCcr := by
  simp only [queueDequeueRefundEvent]
  split_ifs
  · exact List.mem_append_left _ h
  · exact h

/-- Adds a reveal to the pending queue if its swap has none there. -/
def pushPendingClaim (pending : List RevealV1) (reveal : RevealV1) : List RevealV1 :=
  if pending.any (·.swapId = reveal.swapId) then pending else pending ++ [reveal]

/-- Adds a refund to the pending ones if its swap has none there, and says whether it did. -/
def pushPendingRefund (pending : PendingRefunds) (id : SwapId) (unlock : UInt64) :
    PendingRefunds × Bool :=
  if pending.any (·.1.swapId = id) then (pending, false)
  else (pending ++ [(⟨id⟩, unlock)], true)

theorem mem_pushPendingClaim {pending : List RevealV1} {reveal r : RevealV1}
    (h : r ∈ pushPendingClaim pending reveal) : r ∈ pending ∨ r = reveal := by
  unfold pushPendingClaim at h
  split_ifs at h
  · exact .inl h
  · simpa using h

theorem mem_pushPendingClaim_of_mem {pending : List RevealV1} {r r' : RevealV1}
    (h : r ∈ pending) : r ∈ pushPendingClaim pending r' := by
  unfold pushPendingClaim
  split_ifs
  · exact h
  · exact List.mem_append_left _ h

theorem exists_pushPendingClaim (pending : List RevealV1) (reveal : RevealV1) :
    ∃ r ∈ pushPendingClaim pending reveal, r.swapId = reveal.swapId := by
  unfold pushPendingClaim
  split_ifs with h
  · simpa using h
  · exact ⟨reveal, by simp, rfl⟩

/-- A redeem script that a channel watches for. -/
structure UtxoScript where
  redeemScript : Bytes
  unlockTs : UInt64
  depositTarget : String
deriving DecidableEq

structure ScriptAnnouncement where
  address : String
  swapId : SwapId
  script : UtxoScript
deriving DecidableEq

structure PersistedSwap where
  script : Option UtxoScript
  pendingRefund : Option (RefundV1 × UInt64)
  pendingClaim : Option RevealV1
  claimAttempt : Option AttemptState
  refundAttempt : Option AttemptState
deriving DecidableEq

def PersistedSwap.isEmpty (p : PersistedSwap) : Bool :=
  p.script.isNone && p.pendingRefund.isNone && p.pendingClaim.isNone &&
    p.claimAttempt.isNone && p.refundAttempt.isNone

abbrev SwapRows := SwapId → Option PersistedSwap

/-- Writes the row of a swap, or deletes it when there is nothing left to keep. -/
def SwapRows.persist (rows : SwapRows) (id : SwapId) (record : PersistedSwap) : SwapRows :=
  Function.update rows id (if record.isEmpty then none else some record)

end Stroemnet
