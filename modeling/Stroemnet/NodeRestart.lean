import Stroemnet.SwapNode
import Mathlib.Data.List.Dedup

/-! # Starting again

A node that starts again reads the rows and the cursors that its channels have stored. The swap
tracker and the watched addresses are not stored. A node runs through steps and restarts in any
order. -/
namespace Stroemnet

/-- Swaps that have been restored from disk after a restart. -/
structure RestoredSwaps where
  scripts : SwapId → Option UtxoScript
  pendingRefunds : PendingRefunds
  pendingClaims : List RevealV1
  claimAttempts : SwapId → Option AttemptState
  refundAttempts : SwapId → Option AttemptState

def restore (rows : SwapRows) (order : List SwapId) : RestoredSwaps where
  scripts id := if id ∈ order then (rows id).bind (·.script) else none
  pendingRefunds := order.filterMap fun id => (rows id).bind (·.pendingRefund)
  pendingClaims := order.filterMap fun id => (rows id).bind (·.pendingClaim)
  claimAttempts id := if id ∈ order then (rows id).bind (·.claimAttempt) else none
  refundAttempts id := if id ∈ order then (rows id).bind (·.refundAttempt) else none

def seedQueue (restored : RestoredSwaps) (now : UInt64) : RetryQueue :=
  let queue : RetryQueue := fun k => match k.action with
    | .claim => restored.claimAttempts k.swapId
    | .refund => restored.refundAttempts k.swapId
  let queue := restored.pendingClaims.foldl (fun q c => q.ensure (.claim c.swapId) now) queue
  restored.pendingRefunds.foldl (fun q r => q.ensure (.refund r.1.swapId) now) queue

/-- What the outside world answers when a channel connects: the time, the head of the chain, the
order of the rows in the store, and for each swap whether the contract has it finalized and
initialized. -/
structure Boot where
  now : UInt64
  head : UInt64
  order : List SwapId
  swaps : SwapId → Option (Bool × Bool)

def Boot.Lists (boot : Boot) (rows : SwapRows) : Prop := ∀ id, id ∈ boot.order ↔ (rows id).isSome

inductive Observation
  | settled
  | notSettled
  | unknown
deriving DecidableEq

namespace Evm

def observationFrom (finalized initialized : Bool) : Observation :=
  if finalized then .settled else if initialized then .notSettled else .unknown

def observeOnchain (boot : Boot) (k : ActionKey) : Observation :=
  match boot.swaps k.swapId with
  | some (finalized, initialized) => observationFrom finalized initialized
  | none => .unknown

def reconciled (boot : Boot) (rows : SwapRows) : List ActionKey :=
  let restored := restore rows boot.order
  let queue := seedQueue restored boot.now
  let keys := boot.order.map .claim ++ boot.order.map .refund ++
    restored.pendingClaims.map (fun c => .claim c.swapId) ++
    restored.pendingRefunds.map (fun r => .refund r.1.swapId)
  keys.dedup.filter fun k => (queue k).any (·.due boot.now) && observeOnchain boot k = .settled

/-- Connects to the channel, restores the cursor and reconciles pending swap data. -/
def connect (cfg : Config) (boot : Boot) (stored : State) : State :=
  let fallbackCursor := saturatingAdd
    (UInt64.ofNat (boot.head.toNat - cfg.minimumBlockConfirmations.toNat)) 1
  let restored := restore stored.rows boot.order
  let st : State :=
    { poll := ⟨stored.storedCursor.getD fallbackCursor⟩
      pendingRefunds := restored.pendingRefunds
      pendingClaims := restored.pendingClaims
      nextPollSecs := 0
      lastBlockTs := none
      queue := seedQueue restored boot.now
      rows := stored.rows
      storedCursor := stored.storedCursor }
  (reconciled boot stored.rows).foldl State.recordSuccess st

end Evm

namespace Kaspa

def reconstruct (cfg : Config) (script : UtxoScript) : Except KaspaError CommitmentV1 := do
  let ops ← parseOpcodes script.redeemScript
  extractCommitment cfg.codec ops script.depositTarget cfg.network cfg.channelId

def commitmentsFromScripts (cfg : Config) (scripts : SwapId → Option UtxoScript) :
    SwapId → Option CommitmentV1 := fun id =>
  match scripts id with
  | none => none
  | some script =>
    match reconstruct cfg script with
    | .ok c => some c
    | .error _ => none

/-- Connects to the channel. No address is watched at first, and no swap is ever observed to be
settled, so that there is nothing to reconcile. -/
def connect (cfg : Config) (boot : Boot) (stored : State) : State :=
  let restored := restore stored.rows boot.order
  { utxoScripts := fun _ => none
    safeBlocks := []
    commitments := commitmentsFromScripts cfg restored.scripts
    pendingRefunds := restored.pendingRefunds
    pendingClaims := restored.pendingClaims
    announcements := []
    scripts := restored.scripts
    queue := seedQueue restored boot.now
    rows := stored.rows }

end Kaspa

/-- Rebuilds a node from what its channels have stored. -/
def Node.restart {RpcLog : Type} (cfg : NodeConfig RpcLog) (boot : ChannelId → Boot) (n : Node) :
    Node where
  tracker _ := none
  evm c := Evm.connect (cfg.evm c) (boot c) (n.evm c)
  kaspa := Kaspa.connect cfg.kaspa (boot .kaspaTn10) n.kaspa
  events := []
  outbox := []
  seen := .new n.seen.cap
  halted := false

def Node.rows (n : Node) (c : ChannelId) : SwapRows :=
  if c.isEvm then (n.evm c).rows else n.kaspa.rows

/-- States that a node can reach, with restarts at any time. -/
inductive Node.Reachable {RpcLog : Type} (cfg : NodeConfig RpcLog) : Node → Prop
  | start (cursor : ChannelId → UInt64) (cap : ℕ) : Reachable cfg (Node.start cursor cap)
  | step {n : Node} (now : UInt64) (i : NodeInput RpcLog) (h : Reachable cfg n) :
    Reachable cfg (n.step cfg now i)
  | restart {n : Node} (boot : ChannelId → Boot) (h : Reachable cfg n) :
    Reachable cfg (n.restart cfg boot)

/-- What happens to a node over its lives. -/
inductive LifeInput (RpcLog : Type)
  | step (now : UInt64) (i : NodeInput RpcLog)
  | restart (boot : ChannelId → Boot)

def Node.live {RpcLog : Type} (cfg : NodeConfig RpcLog) (n : Node) : LifeInput RpcLog → Node
  | .step now i => n.step cfg now i
  | .restart boot => n.restart cfg boot

end Stroemnet
