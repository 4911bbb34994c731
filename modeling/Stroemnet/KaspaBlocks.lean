import Stroemnet.HtlcExtraction
import Stroemnet.Settlement

/-! # Events in blocks

A confirmed block is scanned for outputs that fund a watched script and for inputs that
spend one. What is watched is keyed by the script hash address. -/
namespace Stroemnet.Kaspa
open Script Htlc

structure Block where
  hash : Bytes32
  daaScore : UInt64
  transactions : List Transaction
deriving DecidableEq

/-- The fixed data of a channel. -/
structure Config where
  codec : AddressCodec
  blake2b : Bytes → Bytes32
  channelId : ChannelId
  networkId : String
  network : Network
  scriptTtlSecs : UInt64
  participateCcr : Bool
  hasKey : Bool

abbrev WatchedScripts := String → Option UtxoScript

/-- The data of the last opcode of a signature script, where a redeem script would stand. -/
def lastRedeem (sig : Bytes) : Option Bytes :=
  match parseScript sig with
  | .error _ => none
  | .ok ops =>
    match ops.getLast? with
    | none => none
    | some o => if o.data = [] then none else some o.data

def deriveP2shAddr (cfg : Config) (redeem : Bytes) : Option String :=
  match extractScriptPubKeyAddress ⟨0, payToScriptHashScript (cfg.blake2b redeem)⟩ cfg.network with
  | .ok a => some (cfg.codec.toString a)
  | .error _ => none

/-- Classify a spend by its signature script, and whether it closes the swap. -/
def classifySpend (cfg : Config) (sig : Bytes) (script : UtxoScript) :
    Except KaspaError (Option ChainEvent × Bool) := do
  let sigOpcodes ← parseOpcodes sig
  let redeemOpcodes ← parseOpcodes script.redeemScript
  let swapId := match extractCommitment cfg.codec redeemOpcodes script.depositTarget cfg.network
      cfg.channelId with
    | .ok c => some c.swapId
    | .error _ => none
  match extractRevealSecret sigOpcodes with
  | .ok secret =>
    match swapId with
    | some id => return (some (.reveal ⟨id, secret⟩), true)
    | none => return (none, false)
  | .error _ =>
    match validateRefundSig sigOpcodes with
    | .ok _ =>
      match swapId with
      | some id => return (some (.refund ⟨id⟩), true)
      | none => return (none, false)
    | .error _ => return (none, false)

/-- What the inputs of one transaction have yielded so far: addresses to forget, swaps with an
event, and the events. -/
structure InputScan where
  closed : List String
  emitted : List SwapId
  events : List ChainEvent

/-- One input; a swap yields at most one event in a transaction. -/
def scanInput (cfg : Config) (scripts : WatchedScripts) (acc : InputScan)
    (input : TransactionInput) : InputScan :=
  match (lastRedeem input.signatureScript).bind (deriveP2shAddr cfg) with
  | none => acc
  | some addr =>
    match scripts addr with
    | none => acc
    | some script =>
      match classifySpend cfg input.signatureScript script with
      | .ok (some event, closed) =>
        { closed := if closed then acc.closed ++ [addr] else acc.closed
          emitted := acc.emitted ++ [event.swapId]
          events := if event.swapId ∈ acc.emitted then acc.events else acc.events ++ [event] }
      | .ok (none, _) => acc
      | .error _ => acc

/-- Scan all the inputs of a transaction; the addresses of closed swaps are not watched any
more. -/
def scanInputs (cfg : Config) (scripts : WatchedScripts) (tx : Transaction) :
    List ChainEvent × WatchedScripts :=
  let scan := tx.inputs.foldl (scanInput cfg scripts) ⟨[], [], []⟩
  (scan.events, fun addr => if addr ∈ scan.closed then none else scripts addr)

def depositTargetValid (target : String) : Option ℕ :=
  match parseUnsigned (2 ^ 64) target with
  | some v => if 0 < v then some v else none
  | none => none

structure BlockOutcomes where
  events : List ChainEvent
  refunds : List (SwapId × UInt64)

def BlockOutcomes.append (a b : BlockOutcomes) : BlockOutcomes :=
  ⟨a.events ++ b.events, a.refunds ++ b.refunds⟩

/-- One output: a deposit schedules a refund, and is a commitment when it reaches the target. -/
def scanOutput (cfg : Config) (scripts : WatchedScripts) (output : TransactionOutput) :
    Except KaspaError BlockOutcomes :=
  match extractScriptPubKeyAddress output.scriptPublicKey cfg.network with
  | .error _ => .ok ⟨[], []⟩
  | .ok address =>
    match scripts (cfg.codec.toString address) with
    | none => .ok ⟨[], []⟩
    | some script => do
      let ops ← parseOpcodes script.redeemScript
      match extractCommitment cfg.codec ops script.depositTarget cfg.network cfg.channelId with
      | .error _ => return ⟨[], []⟩
      | .ok c =>
        match depositTargetValid script.depositTarget with
        | none => return ⟨[], []⟩
        | some target =>
          return ⟨if target ≤ output.value.toNat then [.commitment c] else [],
            [(c.swapId, c.unlockTs)]⟩

def scanOutputs (cfg : Config) (scripts : WatchedScripts) (tx : Transaction) :
    Except KaspaError BlockOutcomes := do
  let found ← tx.outputs.mapM (scanOutput cfg scripts)
  return found.foldl BlockOutcomes.append ⟨[], []⟩

/-- Scans the transactions of a block in order; outputs come before inputs. A script that does
not parse ends the scan, and what was closed before stays closed. -/
def handleTransactions (cfg : Config) :
    List Transaction → WatchedScripts → BlockOutcomes →
      Except KaspaError BlockOutcomes × WatchedScripts
  | [], scripts, outcomes => (.ok outcomes, scripts)
  | tx :: txs, scripts, outcomes =>
    match scanOutputs cfg scripts tx with
    | .error e => (.error e, scripts)
    | .ok found =>
      let (events, scripts') := scanInputs cfg scripts tx
      handleTransactions cfg txs scripts'
        ((outcomes.append found).append ⟨events, []⟩)

def handleBlockAdded (cfg : Config) (block : Block) (scripts : WatchedScripts) :
    Except KaspaError BlockOutcomes × WatchedScripts :=
  handleTransactions cfg block.transactions scripts ⟨[], []⟩

end Stroemnet.Kaspa
