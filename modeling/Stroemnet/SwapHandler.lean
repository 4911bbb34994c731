import Stroemnet.EvmLogDecoding
import Stroemnet.SwapTracker

/-! # Reacting to chain events

Every event of a chain updates the tracker and yields effects: a counter commitment when a
commitment is addressed to this node, and the reveal on the other leg of a swap. -/
namespace Stroemnet

inductive HandlerError
  | parseAmount (text : String)
  | missingPriceData (c : ChannelId)
  | tradeTooSmall (amountIn : String)
  | tradeTooLarge (amountIn : String)
  | missingAddress (c : ChannelId)
  | swapTracker (e : SwapTrackerError)
  | swapNotFound (id : SwapId)
  | invalidState (id : SwapId)
  | invalidChannelId (c : ChannelId)
  | notAddressedToUs (id : SwapId)
  | invalidAmount (amount : Evm.Uint256)
  | invalidLockTimeDuration (secs : UInt64)
  | chainTimeUnavailable (c : ChannelId)
  | price (amount : Evm.Uint256)
  | unknownChannel (c : ChannelId)
  | other (text : String)
deriving DecidableEq

inductive Effect
  | broadcast (channel : ChannelId) (event : ChainEvent)
  | transmitReveal (c : CommitmentV1)
deriving DecidableEq

/-- The part of the prices that a handler asks for; the floating point arithmetic behind the
answers is not modelled. -/
structure Pricing where
  hasPrice : ChannelId → Bool
  /-- Whether an amount, in its own unit, is worth less than the smallest trade. -/
  belowMinimum : Evm.Uint256 → UInt8 → ChannelId → Bool
  aboveMaximum : Evm.Uint256 → UInt8 → ChannelId → Bool
  amountOut : Evm.Uint256 → ChannelId → ChannelId → Option Evm.Uint256

structure Handler where
  sha256 : Bytes → Bytes32
  pricing : Pricing
  commitBufferSecs : UInt64
  addressLookupTable : ChannelId → Option String

/-- The times the channels report, and the time of the node itself. -/
structure ChainClock where
  times : ChannelId → Option UInt64
  systemNow : UInt64

def ChainClock.nowChecked (clock : ChainClock) (c : ChannelId) : Option UInt64 :=
  match clock.times c with
  | some ts => some ts
  | none => if c.usesSyntheticClock then none else some clock.systemNow

/-- What an event finds when it is handled: the times and the prices of that moment. -/
structure Moment where
  clock : ChainClock
  pricing : Pricing

def requiredInitLockSecs (destination : ChannelId) (commitBufferSecs : UInt64)
    (withBuffer : Bool) : UInt64 :=
  if withBuffer then UInt64.ofNat destination.lockTimeSecs * 2 + commitBufferSecs
  else UInt64.ofNat destination.lockTimeSecs * 2

/-- The characters that are trimmed from both ends of a text. -/
def isWhiteSpace (c : Char) : Bool :=
  let n := c.toNat
  (0x09 ≤ n && n ≤ 0x0d) || [0x20, 0x85, 0xa0, 0x1680].contains n ||
    (0x2000 ≤ n && n ≤ 0x200a) || [0x2028, 0x2029, 0x202f, 0x205f, 0x3000].contains n

def trim (s : String) : List Char :=
  ((s.toList.dropWhile isWhiteSpace).reverse.dropWhile isWhiteSpace).reverse

def normalisedAddressEq (channel : ChannelId) (a b : String) : Bool :=
  let a := trim a
  let b := trim b
  if a = b then true
  else if channel.isEvm then
    match Evm.parseAddress (String.ofList a), Evm.parseAddress (String.ofList b) with
    | some x, some y => x = y
    | _, _ => false
  else false

def ChannelId.tryFrom (b : UInt8) : Except HandlerError ChannelId :=
  match ChannelId.ofByte b with
  | some c => .ok c
  | none => .error (.other "Invalid ChannelId")

namespace Handler

def priced (h : Handler) (pricing : Pricing) : Handler := { h with pricing := pricing }

@[simp] theorem sha256_priced (h : Handler) (pricing : Pricing) :
    (h.priced pricing).sha256 = h.sha256 := rfl

def lift {α : Type} : Except SwapTrackerError α → Except HandlerError α
  | .ok a => .ok a
  | .error e => .error (.swapTracker e)

/-- Build a counter commitment based on the user's initial commitment. -/
def buildCounterCommitment (h : Handler) (id : SwapId) (init : CommitmentV1)
    (source destination : ChannelId) (clock : ChainClock) : Except HandlerError CommitmentV1 := do
  let amountIn ← okOr (.parseAmount init.amount.value) (Evm.parseValue init.amount.value)
  if ¬ h.pricing.hasPrice source then throw (.missingPriceData source)
  if h.pricing.belowMinimum amountIn init.amount.decimals source ∨
      h.pricing.aboveMaximum amountIn init.amount.decimals source then
    throw (.invalidAmount amountIn)
  if ¬ h.pricing.hasPrice destination then throw (.missingPriceData destination)
  let amountOut ← okOr (.price amountIn) (h.pricing.amountOut amountIn source destination)
  let sourceNow ← okOr (.chainTimeUnavailable source) (clock.nowChecked source)
  let remaining := UInt64.ofNat (init.unlockTs.toNat - sourceNow.toNat)
  if remaining < requiredInitLockSecs destination h.commitBufferSecs false then
    throw (.invalidLockTimeDuration remaining)
  let destNow ← okOr (.chainTimeUnavailable destination) (clock.nowChecked destination)
  let mmDestination ← okOr (.missingAddress destination)
    (h.addressLookupTable destination)
  let mmSource ← okOr (.missingAddress source) (h.addressLookupTable source)
  return {
    swapId := id
    addresses := ⟨mmDestination, init.addresses.senderDestination, mmSource⟩
    amount := ⟨toString amountOut.toNat, destination.decimals⟩
    secretHash := init.secretHash
    unlockTs := destNow + UInt64.ofNat destination.lockTimeSecs
    source := destination.toByte
    destination := source.toByte }

/-- Answer a commitment that was made to this node with a counter commitment. -/
def handleInternalCommitment (h : Handler) (t : SwapTracker) (c : CommitmentV1)
    (channel : ChannelId) (clock : ChainClock) : Except HandlerError CommitmentV1 := do
  let r ← okOr (.swapNotFound c.swapId) (t c.swapId)
  if r.counterCommitment.isSome ∨ r.resolution.isSome then throw (.invalidState c.swapId)
  let init := r.initCommitment
  let source ← ChannelId.tryFrom init.source
  let destination ← ChannelId.tryFrom init.destination
  if destination ≠ channel then throw (.invalidChannelId destination)
  let ours ← okOr (.missingAddress source) (h.addressLookupTable source)
  if ¬ normalisedAddressEq source init.addresses.receiver ours then
    throw (.notAddressedToUs c.swapId)
  h.buildCounterCommitment c.swapId init source destination clock

/-- Handle a commitment that came from an external chain. -/
def handleExternalCommitment (t : SwapTracker) (c : CommitmentV1) (now : UInt64) :
    Except HandlerError SwapTracker :=
  match t c.swapId with
  | none => lift (t.setInitCommitment c.swapId c now)
  | some r =>
    if r.initCommitment = c ∨ r.counterCommitment = some c ∨
        r.initCommitment.source = c.source then .ok t
    else lift (t.setCounterCommitment c.swapId c)

structure SwapRequest where
  origin : UInt8
  destination : UInt8
  amount : String
deriving DecidableEq

/-- A quote; origin and destination are those of the leg that the quoting node locks. -/
structure TradeProposal where
  origin : ChannelId
  destination : ChannelId
  amountIn : String
  amountOut : String
  senderDestinationAddress : String
  commitUnlockOffsetSecs : UInt64
deriving DecidableEq

def createProposal (h : Handler) (request : SwapRequest) : Except HandlerError TradeProposal := do
  let origin ← ChannelId.tryFrom request.origin
  let destination ← ChannelId.tryFrom request.destination
  if ¬ h.pricing.hasPrice origin then throw (.missingPriceData origin)
  if ¬ h.pricing.hasPrice destination then throw (.missingPriceData destination)
  let amountIn ← okOr (.parseAmount request.amount) (Evm.parseValue request.amount)
  if h.pricing.belowMinimum amountIn origin.decimals origin then
    throw (.tradeTooSmall request.amount)
  if h.pricing.aboveMaximum amountIn origin.decimals origin then
    throw (.tradeTooLarge request.amount)
  let output ← okOr (.price amountIn) (h.pricing.amountOut amountIn origin destination)
  let address ← okOr (.unknownChannel origin) (h.addressLookupTable origin)
  return {
    destination := origin
    origin := destination
    amountOut := request.amount
    amountIn := toString output.toNat
    senderDestinationAddress := address
    commitUnlockOffsetSecs := requiredInitLockSecs destination h.commitBufferSecs true }

def handleExternalReveal (h : Handler) (t : SwapTracker) (r : RevealV1) :
    Except HandlerError SwapTracker := lift (t.setRevealed h.sha256 r.swapId r.secret)

@[simp] theorem handleExternalReveal_priced (h : Handler) (pricing : Pricing) :
    (h.priced pricing).handleExternalReveal = h.handleExternalReveal := rfl

def handleExternalRefund (t : SwapTracker) (r : RefundV1) : Except HandlerError SwapTracker :=
  lift (t.setRefunded r.swapId)

/-- The channel of the other leg, once the swap is locked. -/
def getCounterpartyChannelId (t : SwapTracker) (id : SwapId) (ours : ChannelId) :
    Except HandlerError (Option ChannelId) :=
  match t id with
  | none => .ok none
  | some r => do
    let initSource ← ChannelId.tryFrom r.initCommitment.source
    match r.counterCommitment with
    | none => return none
    | some counter =>
      let counterSource ← ChannelId.tryFrom counter.source
      if initSource = ours then return some counterSource else return some initSource

def getCommitmentForChannel (t : SwapTracker) (id : SwapId) (channel : ChannelId) :
    Except HandlerError (Option CommitmentV1) :=
  match t id with
  | none => .ok none
  | some r => do
    let initSource ← ChannelId.tryFrom r.initCommitment.source
    if initSource = channel then return some r.initCommitment
    match r.counterCommitment with
    | none => return none
    | some counter =>
      let counterSource ← ChannelId.tryFrom counter.source
      if counterSource = channel then return some counter else return none

def revealEffects (h : Handler) (t : SwapTracker) (source : ChannelId) (r : RevealV1) :
    Except HandlerError (List Effect) := do
  match ← getCounterpartyChannelId t r.swapId source with
  | none => return []
  | some counterparty =>
    match ← getCommitmentForChannel t r.swapId counterparty with
    | none => return []
    | some c =>
      if h.sha256 r.secret.data = c.secretHash then
        return [.broadcast counterparty (.reveal r)]
      else return []

def commitmentEffects (h : Handler) (t : SwapTracker) (source : ChannelId) (c : CommitmentV1)
    (clock : ChainClock) : Except HandlerError (List Effect) := do
  let destination ← ChannelId.tryFrom c.destination
  if destination = source then return [.transmitReveal c]
  match h.handleInternalCommitment t c destination clock with
  | .ok counter => return [.transmitReveal c, .broadcast destination (.commitment counter)]
  | .error _ => return [.transmitReveal c]

/-- An event of a chain: the tracker first, then the effects. -/
def onChainEvent (h : Handler) (t : SwapTracker) (source : ChannelId) (event : ChainEvent)
    (clock : ChainClock) : Except HandlerError (List Effect) × SwapTracker :=
  match event with
  | .commitment c =>
    match handleExternalCommitment t c clock.systemNow with
    | .error e => (.error e, t)
    | .ok t => (h.commitmentEffects t source c clock, t)
  | .reveal r =>
    match h.handleExternalReveal t r with
    | .error e => (.error e, t)
    | .ok t => (h.revealEffects t source r, t)
  | .refund r =>
    match handleExternalRefund t r with
    | .error e => (.error e, t)
    | .ok t => (.ok [], t)

def handle (h : Handler) (t : SwapTracker) (source : ChannelId) (event : ChainEvent)
    (moment : Moment) : Except HandlerError (List Effect) × SwapTracker :=
  (h.priced moment.pricing).onChainEvent t source event moment.clock

end Handler
end Stroemnet
