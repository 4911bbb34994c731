import Stroemnet.ByteStrings
import Mathlib.Logic.Function.Basic

/-! # The swap contract on an account chain

The contract's three functions, over the part of the chain they touch: its storage, the
ether every account holds and the logs. A payout hands control to the account that is paid,
whose code may call the contract again before it returns or reverts, so a run is a tree of
calls. -/
namespace Stroemnet.Evm

abbrev Address := BitVec 160

abbrev Uint256 := BitVec 256

/-- The record of one swap; a key that was never written holds the zero record. -/
structure Swap where
  sender : Address
  senderDestinationAddress : Bytes
  receiver : Address
  amount : Uint256
  secretHash : Bytes32
  timelock : Uint256
  initialized : Bool
  finalized : Bool

def Swap.zero : Swap := ⟨0, [], 0, 0, Bytes32.filled 0, 0, false, false⟩

/-- The solver's share divides the amount by this. -/
def bpsDenominator : Uint256 := 1000

def solverReward (amount : Uint256) : Uint256 := amount / bpsDenominator

def receiverAmount (amount : Uint256) : Uint256 := amount - solverReward amount

structure NewSwapLog where
  swapId : Bytes32
  sender : Address
  receiver : Address
  senderDestinationAddress : Bytes
  amount : Uint256
  secretHash : Bytes32
  timelock : Uint256
  destination : UInt8
deriving DecidableEq

structure ClaimLog where
  swapId : Bytes32
  secret : Bytes32
  solver : Address
  receiverAmount : Uint256
  solverReward : Uint256
deriving DecidableEq

inductive Log
  | commitment (l : NewSwapLog)
  | refund (swapId : Bytes32)
  | claim (l : ClaimLog)
  | solverReward (swapId : Bytes32) (solver : Address) (reward : Uint256)
deriving DecidableEq

/-- One transfer of ether out of the contract, and the swap it was made for. -/
structure Payout where
  swapId : Bytes32
  payee : Address
  amount : ℕ
deriving DecidableEq

/-- Storage, balances and logs, with the transfers the contract has made so far. -/
structure World where
  swaps : Bytes32 → Swap
  secretHashes : Bytes32 → Bool
  balances : Address → ℕ
  logs : List Log
  payouts : List Payout

namespace World

def emit (w : World) (l : Log) : World := { w with logs := w.logs ++ [l] }

def setSwap (w : World) (id : Bytes32) (s : Swap) : World :=
  { w with swaps := Function.update w.swaps id s }

/-- Moves ether between two accounts; the source must hold the amount. -/
def move (w : World) (source target : Address) (amount : ℕ) : World :=
  let debited := Function.update w.balances source (w.balances source - amount)
  { w with balances := Function.update debited target (debited target + amount) }

/-- Pays an account for a swap out of the contract's ether. -/
def pay (w : World) (self payee : Address) (amount : ℕ) (id : Bytes32) : World :=
  { w.move self payee amount with payouts := w.payouts ++ [⟨id, payee, amount⟩] }

/-- The writes of a successful creation: the value received, the hash marked as used, the
record and its log. -/
def storeSwap (w : World) (self sender : Address) (l : NewSwapLog) : World :=
  let w := w.move sender self l.amount.toNat
  let w := { w with secretHashes := Function.update w.secretHashes l.secretHash true }
  let w := w.setSwap l.swapId ⟨l.sender, l.senderDestinationAddress, l.receiver, l.amount,
    l.secretHash, l.timelock, true, false⟩
  w.emit (.commitment l)

end World

/-- The contract's address and the hash precompile. -/
structure Contract where
  self : Address
  sha256 : Bytes → Bytes32

/-- One call of the contract and what became of it: `error` is the reason of a revert. -/
inductive Call
  | newSwap (value : Uint256) (onBehalfOf receiver : Address) (senderDestination : Bytes)
      (secretHash : Bytes32) (timelock : Uint256) (destination : UInt8) (swapId : Bytes32)
  | claim (swapId secret : Bytes32)
  | refund (swapId : Bytes32)

structure CallRecord where
  timestamp : ℕ
  sender : Address
  call : Call
  before : World
  error : Option String
  after : World

/-- The end of an execution, every world in which foreign code had control on the way, and
every call of the contract on the way, both also from parts that were rolled back. -/
structure Outcome where
  result : Except String World
  seen : List World
  calls : List CallRecord

namespace Outcome

def reverted (reason : String) : Outcome := ⟨.error reason, [], []⟩

/-- The world an execution leaves to its caller: a revert rolls everything back. -/
def left (o : Outcome) (w : World) : World :=
  match o.result with
  | .ok w' => w'
  | .error _ => w

def reason (o : Outcome) : Option String :=
  match o.result with
  | .ok _ => none
  | .error e => some e

/-- Goes on with the contract's code after a part that must succeed. -/
def require (o : Outcome) (reason : String) (next : World → Outcome) : Outcome :=
  match o.result with
  | .ok w =>
    let rest := next w
    ⟨rest.result, o.seen ++ rest.seen, o.calls ++ rest.calls⟩
  | .error _ => ⟨.error reason, o.seen, o.calls⟩

def seeing (w : World) (o : Outcome) : Outcome := { o with seen := w :: o.seen }

/-- Goes on with foreign code after a part that may have reverted. -/
def resume (o : Outcome) (w : World) (next : World → Outcome) : Outcome :=
  let rest := next (o.left w)
  ⟨rest.result, o.seen ++ rest.seen, o.calls ++ rest.calls⟩

end Outcome

section Functions

variable (C : Contract) (timestamp : ℕ) (sender : Address)

/-- Calls an account with ether and no data: it fails when the contract cannot pay or is
itself the payee, having no function that takes plain ether. -/
def transfer (id : Bytes32) (payee : Address) (amount : Uint256) (react : World → Outcome)
    (w : World) : Outcome :=
  if w.balances C.self < amount.toNat then .reverted "insufficient balance"
  else if payee = C.self then .reverted "no receive function"
  else react (w.pay C.self payee amount.toNat id)

/-- The two transfers that end a swap, to the party it is settled for and to the caller. -/
def payOut (id : Bytes32) (payee : Address) (amount : Uint256)
    (onPayee onSolver : World → Outcome) (w : World) : Outcome :=
  (transfer C id payee (receiverAmount amount) onPayee w).require
    "Receiver transfer failed" fun w =>
  (transfer C id sender (solverReward amount) onSolver w).require
    "Solver transfer failed" fun w =>
  ⟨.ok (w.emit (.solverReward id sender (solverReward amount))), [], []⟩

def newSwap (value : Uint256) (onBehalfOf receiver : Address) (senderDestination : Bytes)
    (secretHash : Bytes32) (timelock : Uint256) (destination : UInt8) (swapId : Bytes32)
    (w : World) : Outcome :=
  if w.balances sender < value.toNat then .reverted "insufficient balance"
  else if ¬ bpsDenominator < value then .reverted "Amount must be greater than 0"
  else if ¬ timestamp < timelock.toNat then .reverted "Timelock must be in the future"
  else if receiver = 0 then .reverted "Invalid receiver address"
  else if secretHash = Bytes32.filled 0 then .reverted "Invalid secret hash"
  else if (w.swaps swapId).initialized then .reverted "Swap ID already exists"
  else if swapId = Bytes32.filled 0 then .reverted "Invalid swap ID"
  else if w.secretHashes secretHash then .reverted "Secret hash already used"
  else
    ⟨.ok (w.storeSwap C.self sender ⟨swapId, onBehalfOf, receiver, senderDestination, value,
      secretHash, timelock, destination⟩), [], []⟩

def claim (swapId secret : Bytes32) (onReceiver onSolver : World → Outcome) (w : World) :
    Outcome :=
  let swap := w.swaps swapId
  if ¬ swap.initialized then .reverted "Swap does not exist"
  else if swap.finalized then .reverted "Already finalized"
  else if C.sha256 secret.data ≠ swap.secretHash then .reverted "Invalid secret"
  else if ¬ timestamp < swap.timelock.toNat then .reverted "Timelock expired"
  else
    let w := w.setSwap swapId { swap with finalized := true }
    payOut C sender swapId swap.receiver swap.amount onReceiver onSolver
      (w.emit (.claim ⟨swapId, secret, sender, receiverAmount swap.amount,
        solverReward swap.amount⟩))

def refund (swapId : Bytes32) (onSender onSolver : World → Outcome) (w : World) : Outcome :=
  let swap := w.swaps swapId
  if ¬ swap.initialized then .reverted "Swap does not exist"
  else if swap.finalized then .reverted "Already finalized"
  else if ¬ swap.timelock.toNat ≤ timestamp then .reverted "Timelock not yet expired"
  else
    let w := w.setSwap swapId { swap with finalized := true }
    payOut C sender swapId swap.sender swap.amount onSender onSolver
      (w.emit (.refund swapId))

end Functions

/-- What foreign code does once it has control: it returns or reverts in the end, moves
ether that is not the contract's, runs a part that may revert on its own, or calls the
contract, with the code of the two accounts that the contract pays during that call. -/
inductive Code
  | stop
  | revert
  | move (source target : Address) (amount : ℕ) (next : Code)
  | attempt (inner next : Code)
  | call (sender : Address) (call : Call) (onPayee onSolver next : Code)

section Runs

variable (C : Contract) (timestamp : ℕ)

/-- Dispatches one call to the contract's function. -/
def dispatch (sender : Address) (onPayee onSolver : World → Outcome) (w : World) :
    Call → Outcome
  | .newSwap value onBehalfOf receiver senderDestination secretHash timelock destination id =>
    newSwap C timestamp sender value onBehalfOf receiver senderDestination secretHash timelock
      destination id w
  | .claim id secret => claim C timestamp sender id secret onPayee onSolver w
  | .refund id => refund C timestamp sender id onPayee onSolver w

/-- Notes a call and its result behind the calls made during it. -/
def recorded (sender : Address) (call : Call) (w : World) (o : Outcome) : Outcome :=
  { o with calls := o.calls ++ [⟨timestamp, sender, call, w, o.reason, o.left w⟩] }

/-- Foreign code cannot spend the contract's ether, nor can it call in the contract's name:
steps that would are passed over. -/
def exec : Code → World → Outcome
  | .stop, w => ⟨.ok w, [w], []⟩
  | .revert, w => ⟨.error "reverted", [w], []⟩
  | .move source target amount next, w =>
    if source = C.self ∨ w.balances source < amount then exec next w
    else (exec next (w.move source target amount)).seeing w
  | .attempt inner next, w => (exec inner w).resume w (exec next)
  | .call sender call onPayee onSolver next, w =>
    if sender = C.self then exec next w
    else
      ((recorded timestamp sender call w
        (dispatch C timestamp sender (exec onPayee) (exec onSolver) w call)).resume w
        (exec next)).seeing w

end Runs

structure Transaction where
  timestamp : ℕ
  code : Code

/-- Transactions run one after the other; one that reverts is rolled back as a whole. -/
def run (C : Contract) : List Transaction → World → Outcome
  | [], w => ⟨.ok w, [w], []⟩
  | tx :: txs, w => (exec C tx.timestamp tx.code w).resume w (run C txs)

/-- The chain when the contract is deployed: no swap and no payout yet, over arbitrary
balances, its own included. -/
def World.deployed (balances : Address → ℕ) : World :=
  ⟨fun _ => Swap.zero, fun _ => false, balances, [], []⟩

end Stroemnet.Evm
