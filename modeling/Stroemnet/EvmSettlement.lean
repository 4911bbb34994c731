import Stroemnet.EthereumHtlc
import Stroemnet.EvmChannel
import Stroemnet.KaspaChannel

/-! # Settling on an account chain

A claim or a refund is sent with a nonce and a gas price of its own. The nonce is taken once and
used again by later attempts, so that they replace the transaction of an earlier one. -/
namespace Stroemnet

namespace RetryQueue

def modify (q : RetryQueue) (k : ActionKey) (f : AttemptState → AttemptState) : RetryQueue :=
  match q k with
  | some s => Function.update q k (some (f s))
  | none => q

/-- Set the nonce that later attempts use again. -/
def setNonce (q : RetryQueue) (k : ActionKey) (nonce : UInt64) : RetryQueue :=
  q.modify k fun s => { s with nonce := some nonce }

def setLastGas (q : RetryQueue) (k : ActionKey) (gas : BitVec 128) : RetryQueue :=
  q.modify k fun s => { s with lastGas := some gas }

variable {q : RetryQueue} {k k' : ActionKey} {f : AttemptState → AttemptState}

theorem modify_self (q : RetryQueue) (k : ActionKey) (f : AttemptState → AttemptState) :
    q.modify k f k = (q k).map f := by
  unfold modify
  cases hs : q k with
  | none => simp [hs]
  | some s => simp

theorem modify_of_ne (h : k' ≠ k) : q.modify k f k' = q k' := by
  unfold modify
  cases hs : q k with
  | none => rfl
  | some s => exact Function.update_of_ne h _ _

theorem isSome_modify (q : RetryQueue) (k k' : ActionKey) (f : AttemptState → AttemptState) :
    (q.modify k f k').isSome = (q k').isSome := by
  by_cases h : k' = k
  · subst h
    rw [modify_self, Option.isSome_map]
  · rw [modify_of_ne h]

private theorem modify_modify (q : RetryQueue) (k : ActionKey) (f g : AttemptState → AttemptState) :
    (q.modify k f).modify k g = q.modify k (g ∘ f) := by
  funext k'
  by_cases h : k' = k
  · subst h
    rw [modify_self, modify_self, modify_self, Option.map_map]
  · rw [modify_of_ne h, modify_of_ne h, modify_of_ne h]

theorem modify_id (q : RetryQueue) (k : ActionKey) : q.modify k id = q := by
  funext k'
  by_cases h : k' = k
  · subst h
    rw [modify_self, Option.map_id, id]
  · rw [modify_of_ne h]

theorem recordFailure_eq_modify (q : RetryQueue) (k : ActionKey) (now jitter : UInt64) :
    q.recordFailure k now jitter = q.modify k fun s => s.onFailure now jitter := rfl

end RetryQueue

namespace Evm
open Kaspa (SettleOutcome)

/-- How many times the gas price of a transaction is raised. -/
def maxGasBumps : ℕ := 12

def maxGasPriceWei : BitVec 128 := 5000000000000

def bumpGas (gas : BitVec 128) : BitVec 128 :=
  BitVec.ofNat 128 (min (gas.toNat * 115) (2 ^ 128 - 1) / 100)

def capGas (gas : BitVec 128) : BitVec 128 :=
  if gas ≤ maxGasPriceWei then gas else maxGasPriceWei

def escalatedGas (base : BitVec 128) (attemptCount : UInt32) : BitVec 128 :=
  capGas (bumpGas^[min attemptCount.toNat maxGasBumps] base)

/-- What the chain's node answers during one attempt; `none` is a request that failed. Of the
transaction itself it says whether it was mined and, to no one, whether it was accepted. -/
structure SettleAnswers where
  blockTimestamp : Option UInt64
  gasPrice : Option (BitVec 128)
  /-- The number of confirmed transactions of the account. -/
  confirmed : Option UInt64
  /-- The same with those that wait in the node. -/
  pending : Option UInt64
  swap : Option Swap
  chainNow : Option UInt64
  accepted : Bool
  mined : Except DataError Unit

def replacementGas (attempt : AttemptState) (base : BitVec 128) : BitVec 128 :=
  let gas := escalatedGas base attempt.attemptCount
  match attempt.lastGas with
  | some prev => capGas (if gas ≤ bumpGas prev then bumpGas prev else gas)
  | none => gas

def replacementNonce (attempt : AttemptState) (confirmed : UInt64) (pending : Option UInt64) :
    Option (UInt64 × Bool) :=
  match attempt.nonce with
  | some n =>
    if confirmed ≤ n then some (n, false) else pending.map fun p => (max p confirmed, true)
  | none => pending.map fun p => (max p confirmed, true)

/-- The nonce and the gas price of a replacement, and whether the nonce is taken anew. -/
structure Replacement where
  nonce : UInt64
  fresh : Bool
  gas : BitVec 128

def planReplacement (answers : SettleAnswers) (attempt : AttemptState) : Option Replacement := do
  let base ← answers.gasPrice
  let confirmed ← answers.confirmed
  let (nonce, fresh) ← replacementNonce attempt confirmed answers.pending
  return ⟨nonce, fresh, replacementGas attempt base⟩

/-- Remembers the nonce and the gas price of a replacement. -/
def reserve (q : RetryQueue) (k : ActionKey) (r : Replacement) : RetryQueue :=
  (if r.fresh then q.setNonce k r.nonce else q).setLastGas k r.gas

/-- A reservation changes the nonce and the gas price of its key only. -/
theorem reserve_eq_modify (q : RetryQueue) (k : ActionKey) (r : Replacement) :
    reserve q k r = q.modify k fun s =>
      { s with nonce := if r.fresh then some r.nonce else s.nonce, lastGas := some r.gas } := by
  unfold reserve RetryQueue.setLastGas RetryQueue.setNonce
  cases r.fresh with
  | true => exact RetryQueue.modify_modify q k _ _
  | false => rfl

/-- Computes the next nonce and gas price of a key and stores them. -/
def State.replacement (answers : SettleAnswers) (st : State) (k : ActionKey) :
    Option Replacement × State :=
  match (st.queue k).bind (planReplacement answers) with
  | some r => (some r, { st with queue := reserve st.queue k r }.persistSwap k.swapId)
  | none => (none, st)

def claimSkipReason (initialized finalized secretOk : Bool) (chainNow : Option UInt64)
    (timelock : UInt64) : Option String :=
  if !initialized || finalized then some "not claimable"
  else if !secretOk then some "revealed secret does not match on-chain hash"
  else
    match chainNow with
    | some now => if timelock ≤ now then some "timelock expired" else none
    | none => none

/-- Submits a claim: whether a transaction is sent, and the result. A claim that is skipped sends
nothing and is no failure. -/
def submitClaim (sha256 : Bytes → Bytes32) (answers : SettleAnswers) (reveal : RevealV1) :
    Bool × Except DataError Unit :=
  match answers.swap with
  | none => (false, .error (.broadcast "swaps lookup: timed out"))
  | some swap =>
    let secretOk : Bool := sha256 reveal.secret.data = swap.secretHash
    let timelock := UInt64.ofNat (min swap.timelock.toNat (2 ^ 64 - 1))
    match claimSkipReason swap.initialized swap.finalized secretOk answers.chainNow timelock with
    | some _ => (false, .ok ())
    | none => (true, answers.mined)

def submitRefund (answers : SettleAnswers) : Bool × Except DataError Unit := (true, answers.mined)

/-- The outcome of an attempt that got as far as the submission. -/
def submittedOutcome : Except DataError Unit → SettleOutcome
  | .ok () => .retry "submitted_awaiting_inclusion"
  | .error _ => .retry "broadcast_error"

namespace State

/-- What an attempt does before it asks for a replacement: it ends, or goes on with whether the
transaction is sent and what becomes of it. -/
def prepare (cfg : Config) (sha256 : Bytes → Bytes32) (answers : SettleAnswers) (st : State)
    (k : ActionKey) : Except SettleOutcome (Bool × Except DataError Unit) :=
  if ¬ cfg.signed then .error (.fatal "missing key")
  else
    match k.action with
    | .refund =>
      match (st.pendingRefunds.find? (·.1.swapId = k.swapId)).map Prod.snd with
      | none => .error (.retry "no_refund_intent")
      | some unlock =>
        match answers.blockTimestamp with
        | some ts => if ts < unlock then .error (.retry "not_yet_unlocked") else
          .ok (submitRefund answers)
        | none => .error (.retry "block_ts_timeout")
    | .claim =>
      match st.pendingClaims.find? (·.swapId = k.swapId) with
      | none => .error (.retry "no_reveal")
      | some reveal => .ok (submitClaim sha256 answers reveal)

/-- Attempts to settle a key: the outcome, the replacement whose transaction was sent, and the
state. -/
def settle (cfg : Config) (sha256 : Bytes → Bytes32) (answers : SettleAnswers) (st : State)
    (k : ActionKey) : SettleOutcome × Option Replacement × State :=
  match st.prepare cfg sha256 answers k with
  | .error outcome => (outcome, none, st)
  | .ok (sends, result) =>
    match st.replacement answers k with
    | (none, st) => (.retry "replacement_unavailable", none, st)
    | (some r, st) => (submittedOutcome result, if sends then some r else none, st)

end State
end Evm
end Stroemnet
