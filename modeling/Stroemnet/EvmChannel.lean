import Stroemnet.EvmLogDecoding

/-! # The channel of an account chain

The state a channel keeps between polls, and every way in which it changes: polled logs,
broadcast events and the results of settlement attempts. -/
namespace Stroemnet.Evm

/-- Tracks the next block to poll. -/
structure PollState where
  cursor : UInt64
deriving DecidableEq

/-- The next range of blocks to poll, without its end. -/
def PollState.nextRange (s : PollState) (currentBlock confirmations maxBlocksPerPoll : UInt64) :
    Option (UInt64 × UInt64) :=
  if currentBlock < confirmations then none
  else if currentBlock - confirmations = UInt64.ofNat (2 ^ 64 - 1) then none
  else
    let confirmedEnd := currentBlock - confirmations + 1
    if confirmedEnd ≤ s.cursor then none
    else some (s.cursor, min confirmedEnd (saturatingAdd s.cursor (max maxBlocksPerPoll 1)))

variable {RpcLog : Type}

/-- The answers of the chain's node during one poll; `none` is a failed request. -/
structure Rpc (RpcLog : Type) where
  blockNumber : Option UInt64
  getLogs : UInt64 → UInt64 → Option (List RpcLog)
  blockTimestamp : Option UInt64

/-- Fetches the logs of the next range; the cursor moves only with a successful answer. -/
def PollState.pollOnce (s : PollState) (rpc : Rpc RpcLog) (confirmations maxBlocks : UInt64) :
    List RpcLog × PollState :=
  match rpc.blockNumber with
  | none => ([], s)
  | some current =>
    match s.nextRange current confirmations maxBlocks with
    | none => ([], s)
    | some (start, stop) =>
      match rpc.getLogs start (stop - 1) with
      | none => ([], s)
      | some logs => (logs, ⟨stop⟩)

structure Config where
  channelId : ChannelId
  minimumBlockConfirmations : UInt64
  pollIntervalSecs : UInt64
  maxBlocksPerPoll : UInt64
  participateCcr : Bool
  signed : Bool
  keccak256 : Bytes → Bytes32

structure State where
  poll : PollState
  pendingRefunds : PendingRefunds
  pendingClaims : List RevealV1
  nextPollSecs : UInt64
  lastBlockTs : Option (UInt64 × UInt64)
  queue : RetryQueue
  rows : SwapRows
  storedCursor : Option UInt64

namespace State

def empty (cursor : UInt64) : State :=
  ⟨⟨cursor⟩, [], [], 0, none, fun _ => none, fun _ => none, none⟩

def swapRecord (st : State) (id : SwapId) : PersistedSwap where
  script := none
  pendingRefund := st.pendingRefunds.find? (·.1.swapId = id)
  pendingClaim := st.pendingClaims.find? (·.swapId = id)
  claimAttempt := st.queue (.claim id)
  refundAttempt := st.queue (.refund id)

def persistSwap (st : State) (id : SwapId) : State :=
  { st with rows := st.rows.persist id (st.swapRecord id) }

@[simp] theorem persistSwap_pendingClaims (st : State) (id : SwapId) :
    (st.persistSwap id).pendingClaims = st.pendingClaims := rfl

@[simp] theorem persistSwap_queue (st : State) (id : SwapId) :
    (st.persistSwap id).queue = st.queue := rfl

/-- A commitment schedules a refund; a settled swap leaves nothing to do. -/
def trackActionableEvent (cfg : Config) (now : UInt64) (st : State) (event : ChainEvent) :
    State :=
  let id := event.swapId
  let st := { st with
    pendingRefunds := queueDequeueRefundEvent st.pendingRefunds event cfg.participateCcr }
  let st := match event with
    | .commitment _ =>
      if cfg.participateCcr then { st with queue := st.queue.ensure (.refund id) now } else st
    | _ => { st with
        pendingClaims := st.pendingClaims.filter (·.swapId ≠ id)
        queue := (st.queue.recordSuccess (.claim id)).recordSuccess (.refund id) }
  st.persistSwap id

/-- Emits an event: a commitment is sent to the contract, for a reveal a claim is queued.
`sent` is what became of the transaction. -/
def emitEvent (cfg : Config) (now : UInt64) (sent : Except DataError Unit) (st : State)
    (event : ChainEvent) : Except DataError Unit × State :=
  match event with
  | .commitment c =>
    if cfg.signed then
      match submitCommitment c with
      | .error e => (.error e, st)
      | .ok _ => (sent, st)
    else (.error (.missingKey cfg.channelId), st)
  | .reveal r =>
    if cfg.participateCcr then
      (.ok (), { st with
        pendingClaims := pushPendingClaim st.pendingClaims r
        queue := st.queue.ensure (.claim r.swapId) now }.persistSwap r.swapId)
    else (.ok (), st)
  | .refund _ => (.ok (), st)

/-- Decodes the logs one after the other and tracks their events. A conversion that aborts
leaves what was tracked before it. -/
def trackLogs (codec : LogCodec RpcLog) (cfg : Config) (now : UInt64) :
    List RpcLog → State → List (ChannelId × ChainEvent) →
      Except Panic (List (ChannelId × ChainEvent)) × State
  | [], st, events => (.ok events, st)
  | log :: logs, st, events =>
    match decodeLog codec cfg.keccak256 log cfg.channelId with
    | .error p => (.error p, st)
    | .ok none => trackLogs codec cfg now logs st events
    | .ok (some event) =>
      trackLogs codec cfg now logs (st.trackActionableEvent cfg now event)
        (events ++ [(cfg.channelId, event)])

/-- Polls the finalized blocks when it is time to; the cursor is moved and stored before the
logs are decoded. -/
def pollFinalized (codec : LogCodec RpcLog) (cfg : Config) (now : UInt64) (rpc : Rpc RpcLog)
    (st : State) : Except Panic (List (ChannelId × ChainEvent)) × State :=
  if now < st.nextPollSecs then (.ok [], st)
  else
    let (logs, poll) :=
      st.poll.pollOnce rpc cfg.minimumBlockConfirmations cfg.maxBlocksPerPoll
    let st := { st with
      nextPollSecs := now + cfg.pollIntervalSecs
      poll := poll
      storedCursor := some poll.cursor }
    match trackLogs codec cfg now logs st [] with
    | (.error p, st) => (.error p, st)
    | (.ok events, st) =>
      match rpc.blockTimestamp with
      | some ts => (.ok events, { st with lastBlockTs := some (ts, now) })
      | none => (.ok events, st)

/-- An action that was seen to be settled is not tried again. -/
def recordSuccess (st : State) (k : ActionKey) : State :=
  let st := { st with queue := st.queue.recordSuccess k }
  let st := match k.action with
    | .claim => { st with pendingClaims := st.pendingClaims.filter (·.swapId ≠ k.swapId) }
    | .refund => { st with pendingRefunds := st.pendingRefunds.filter (·.1.swapId ≠ k.swapId) }
  st.persistSwap k.swapId

def recordFailure (st : State) (k : ActionKey) (now : UInt64) : State :=
  { st with queue := st.queue.recordFailure k now k.jitter }.persistSwap k.swapId

end State
end Stroemnet.Evm
