import Stroemnet.KaspaBlocks

/-! # The channel of the UTXO chain

The maps a channel keeps by swap and by address, and every way in which they change:
announced scripts, own commitments, decoded blocks and the results of settlement attempts. -/
namespace Stroemnet.Kaspa
open Script Htlc

structure State where
  utxoScripts : WatchedScripts
  safeBlocks : List Block
  commitments : SwapId → Option CommitmentV1
  pendingRefunds : PendingRefunds
  pendingClaims : List RevealV1
  announcements : List ScriptAnnouncement
  scripts : SwapId → Option UtxoScript
  queue : RetryQueue
  rows : SwapRows

namespace State

def empty : State :=
  ⟨fun _ => none, [], fun _ => none, [], [], [], fun _ => none, fun _ => none, fun _ => none⟩

def swapRecord (st : State) (id : SwapId) : PersistedSwap where
  script := st.scripts id
  pendingRefund := st.pendingRefunds.find? (·.1.swapId = id)
  pendingClaim := st.pendingClaims.find? (·.swapId = id)
  claimAttempt := st.queue (.claim id)
  refundAttempt := st.queue (.refund id)

def persistSwap (st : State) (id : SwapId) : State :=
  { st with rows := st.rows.persist id (st.swapRecord id) }

def cacheCommitment (st : State) (c : CommitmentV1) : State :=
  { st with commitments := Function.update st.commitments c.swapId (some c) }

def pruneScripts (cfg : Config) (now : UInt64) (st : State) : State :=
  { st with utxoScripts := fun addr => (st.utxoScripts addr).filter fun s =>
      now ≤ saturatingAdd s.unlockTs cfg.scriptTtlSecs }

def registerInternal (st : State) (address : String) (script : UtxoScript) : State :=
  { st with utxoScripts := Function.update st.utxoScripts address (some script) }

/-- Registers an announced script, which replaces what the swap had before. -/
def registerScript (cfg : Config) (now : UInt64) (st : State) (address : String)
    (redeem : Bytes) (id : SwapId) (unlockTs : UInt64) (depositTarget : String) :
    Except KaspaError Unit × State :=
  match validateScriptAnnounce cfg.codec cfg.blake2b cfg.networkId cfg.channelId address redeem id
      unlockTs with
  | .error e => (.error e, st)
  | .ok () =>
    let script : UtxoScript := ⟨redeem, unlockTs, depositTarget⟩
    let st := { st with scripts := Function.update st.scripts id (some script) }
    (.ok (), ((st.registerInternal address script).pruneScripts cfg now).persistSwap id)

end State

def addressTryFrom (codec : AddressCodec) (text : String) : Except KaspaError Address :=
  match codec.tryFrom text with
  | .ok a => .ok a
  | .error e => .error (.addressParse e)

def htlcScriptFromCommitment (cfg : Config) (c : CommitmentV1) : Except KaspaError Bytes := do
  let sender ← addressTryFrom cfg.codec c.addresses.sender
  let receiver ← addressTryFrom cfg.codec c.addresses.receiver
  buildHtlc (htlcParams sender receiver c)

/-- Funds the script of a commitment. `network` is the network the server reports, or the
failure of a request or of the funding. -/
def submitCommitment (cfg : Config) (network : Except KaspaError Network) (c : CommitmentV1) :
    Except KaspaError (String × Bytes) := do
  let network ← network
  let redeem ← htlcScriptFromCommitment cfg c
  match parseUnsigned (2 ^ 64) c.amount.value with
  | none => throw (.other ("amount " ++ c.amount.value))
  | some _ =>
    let address ← p2shAddress cfg.codec cfg.blake2b network redeem "p2sh address derive"
    return (address, redeem)

inductive EmitError
  | data (e : DataError)
  | kaspa (e : KaspaError)
deriving DecidableEq

inductive SettleOutcome
  | retry (reason : String)
  | fatal (reason : String)
deriving DecidableEq

namespace State

/-- Emits an event: a commitment is cached, funded and announced; for a reveal a claim is
queued when the swap has a commitment here. -/
def emitEvent (cfg : Config) (now : UInt64) (network : Except KaspaError Network) (st : State)
    (event : ChainEvent) : Except EmitError Unit × State :=
  match event with
  | .commitment c =>
    let st := st.cacheCommitment c
    if ¬ cfg.hasKey then (.error (.data (.missingKey cfg.channelId)), st)
    else
      match submitCommitment cfg network c with
      | .error e => (.error (.kaspa e), st)
      | .ok (address, redeem) =>
        let script : UtxoScript := ⟨redeem, c.unlockTs, c.amount.value⟩
        let st := { st with scripts := Function.update st.scripts c.swapId (some script) }
        let st := st.registerInternal address script
        let announcement : ScriptAnnouncement := ⟨address, c.swapId, script⟩
        let st := { st with announcements := st.announcements ++ [announcement] }
        (.ok (), st.persistSwap c.swapId)
  | .reveal r =>
    if cfg.participateCcr && (st.commitments r.swapId).isSome then
      (.ok (), { st with
        pendingClaims := pushPendingClaim st.pendingClaims r
        queue := st.queue.ensure (.claim r.swapId) now }.persistSwap r.swapId)
    else (.ok (), st)
  | .refund _ => (.ok (), st)

def untrack (st : State) (id : SwapId) : State :=
  { st with
    queue := (st.queue.recordSuccess (.claim id)).recordSuccess (.refund id)
    pendingClaims := st.pendingClaims.filter (·.swapId ≠ id)
    commitments := Function.update st.commitments id none
    scripts := Function.update st.scripts id none }

def trackActionableEvent (cfg : Config) (st : State) (event : ChainEvent) : State :=
  let st := match event with
    | .commitment c => st.cacheCommitment c
    | _ => st
  let st := { st with
    pendingRefunds := queueDequeueRefundEvent st.pendingRefunds event cfg.participateCcr }
  let st := match event with
    | .commitment _ => st
    | .reveal _ => st.untrack event.swapId
    | .refund _ => st.untrack event.swapId
  st.persistSwap event.swapId

/-- Schedules the refund of a deposit that was not scheduled before. -/
def scheduleRefund (now : UInt64) (st : State) (refund : SwapId × UInt64) : State :=
  match pushPendingRefund st.pendingRefunds refund.1 refund.2 with
  | (pending, true) =>
    { st with pendingRefunds := pending, queue := st.queue.ensure (.refund refund.1) now }.persistSwap
      refund.1
  | (_, false) => st

def processBlock (cfg : Config) (now : UInt64) (st : State) (block : Block) :
    Except KaspaError (List ChainEvent) × State :=
  match handleBlockAdded cfg block st.utxoScripts with
  | (.error e, scripts) => (.error e, { st with utxoScripts := scripts })
  | (.ok outcomes, scripts) =>
    let st := { st with utxoScripts := scripts }
    let st := if cfg.participateCcr then outcomes.refunds.foldl (scheduleRefund now) st else st
    (.ok outcomes.events, outcomes.events.foldl (trackActionableEvent cfg) st)

def processBlocks (cfg : Config) (now : UInt64) :
    List Block → State → List (ChannelId × ChainEvent) →
      Except KaspaError (List (ChannelId × ChainEvent)) × State
  | [], st, events => (.ok events, st.pruneScripts cfg now)
  | block :: blocks, st, events =>
    match st.processBlock cfg now block with
    | (.error e, st) => (.error e, st)
    | (.ok found, st) =>
      processBlocks cfg now blocks st (events ++ found.map fun e => (cfg.channelId, e))

/-- What every block and the pruning keep, the blocks of a poll keep. -/
theorem processBlocks_induction {cfg : Config} {now : UInt64} {P : State → Prop}
    (hblock : ∀ st block, P st → P (st.processBlock cfg now block).2)
    (hprune : ∀ st, P st → P (st.pruneScripts cfg now)) (blocks : List Block) {st : State}
    (h : P st) (events : List (ChannelId × ChainEvent)) :
    P (processBlocks cfg now blocks st events).2 := by
  induction blocks generalizing st events with
  | nil => exact hprune st h
  | cons block blocks ih =>
    have hkept := hblock st block h
    rw [processBlocks]
    split
    · rename_i hprocess
      rwa [hprocess] at hkept
    · rename_i hprocess
      rw [hprocess] at hkept
      exact ih hkept _

/-- Drains the confirmed blocks and tracks what they contain. -/
def pollFinalized (cfg : Config) (now : UInt64) (st : State) :
    Except KaspaError (List (ChannelId × ChainEvent)) × State :=
  processBlocks cfg now st.safeBlocks { st with safeBlocks := [] } []

/-- Tries to refund a swap: the outcome, and the commitment whose output was spent. `pmt` is
the median time of the chain when the node answers. -/
def settleRefund (cfg : Config) (pmt : Option UInt64) (submitted : Bool) (st : State)
    (id : SwapId) : SettleOutcome × Option CommitmentV1 :=
  match st.commitments id with
  | none => (.fatal "missing commitment or key", none)
  | some c =>
    if ¬ cfg.hasKey then (.fatal "missing commitment or key", none)
    else
      match pmt with
      | none => (.retry "dag_info_timeout", none)
      | some pmt =>
        if pmt ≤ saturatingMul c.unlockTs 1000 then (.retry "not_yet_unlocked", none)
        else if submitted then (.retry "submitted_awaiting_inclusion", some c)
        else (.retry "broadcast_error", none)

/-- An action that was seen to be settled is not tried again. -/
def recordSuccess (st : State) (k : ActionKey) : State :=
  let st := { st with queue := st.queue.recordSuccess k }
  let st := match k.action with
    | .claim => { st with pendingClaims := st.pendingClaims.filter (·.swapId ≠ k.swapId) }
    | .refund => { st with pendingRefunds := st.pendingRefunds.filter (·.1.swapId ≠ k.swapId) }
  st.persistSwap k.swapId

def recordFailure (st : State) (k : ActionKey) (now : UInt64) : State :=
  { st with queue := st.queue.recordFailure k now k.jitter }.persistSwap k.swapId

end State
end Stroemnet.Kaspa
