import Stroemnet.GuardedRuns
import Stroemnet.NodeConfiguration
import Stroemnet.RevealForwarding

/-! # When a taker gives its secret away

A taker registers its own commitment together with the secret. The secret leaves the node when
a commitment is detected that matches what the taker waits for. -/
namespace Stroemnet

def ChainClock.now (clock : ChainClock) (c : ChannelId) : UInt64 :=
  (clock.times c).getD clock.systemNow

structure PendingClaim where
  secret : Bytes32
  expectedCounterChain : ChannelId
  expectedSecretHash : Bytes32
  expectedDestinationAddress : String
  expectedAmountOut : AmountV1
deriving DecidableEq

def pendingClaimMatches (claim : PendingClaim) (detected : CommitmentV1) : Bool :=
  claim.expectedSecretHash = detected.secretHash &&
    detected.source = claim.expectedCounterChain.toByte &&
    normalisedAddressEq claim.expectedCounterChain detected.addresses.receiver
      claim.expectedDestinationAddress &&
    detected.amount.atLeast claim.expectedAmountOut

inductive StroemnetError
  | lpModeForbidsInitiation
  | secretHashMismatch
  | other (text : String)
  | depositDerive (e : Kaspa.EmitError)
  | registerScript (e : Kaspa.EmitError)
deriving DecidableEq

/-- What the taker pays into: an address, or the parameters of a contract call. -/
inductive Deposit
  | params (c : CommitmentV1)
  | address (p2sh : String)
deriving DecidableEq

structure TakerConfig (RpcLog : Type) extends NodeConfig RpcLog where
  role : Daemon.Role

/-- A node with the claims of its user. -/
structure Taker where
  node : Node
  pendingClaims : SwapId → Option PendingClaim
  /-- The reveals whose broadcast was spawned and has not run yet. -/
  spawned : List RevealV1

namespace Taker

variable {RpcLog : Type} (cfg : TakerConfig RpcLog)

def start (cursor : ChannelId → UInt64) (cap : ℕ) : Taker :=
  ⟨Node.start cursor cap, fun _ => none, []⟩

def channelOf (name : String) (b : UInt8) : Except StroemnetError ChannelId :=
  match ChannelId.ofByte b with
  | some c => .ok c
  | none => .error (.other (name ++ " channel id: Invalid ChannelId"))

/-- The checks of a registration: the channel of the deposit and the claim. -/
def claimOf (c : CommitmentV1) (secret : Bytes32) (expectedAmountOut : String) :
    Except StroemnetError (ChannelId × PendingClaim) := do
  if cfg.role = .lp then throw .lpModeForbidsInitiation
  if cfg.handler.sha256 secret.data ≠ c.secretHash then throw .secretHashMismatch
  let source ← channelOf "source" c.source
  let destination ← channelOf "destination" c.destination
  match parseUnsigned (2 ^ 128) expectedAmountOut with
  | none =>
    throw (.other ("expected_amount_out must be a base-unit integer: " ++ expectedAmountOut))
  | some value =>
    if value = 0 then throw (.other "expected_amount_out must be greater than zero")
    return (source,
      { secret := secret
        expectedCounterChain := destination
        expectedSecretHash := c.secretHash
        expectedDestinationAddress := c.addresses.senderDestination
        expectedAmountOut := ⟨expectedAmountOut, destination.decimals⟩ })

/-- Marks a message of our own as seen. -/
def observe (msg : Gossip.P2pMsg) (t : Taker) : Taker :=
  { t with node := { t.node with seen := (t.node.seen.insert (cfg.digest msg)).2 } }

/-- Registers a utxo script and announces the address where funds should be sent to. -/
def registerKaspaDeposit (now : UInt64) (source : ChannelId) (c : CommitmentV1) (t : Taker) :
    Except StroemnetError Deposit × Taker :=
  if source ∉ cfg.channels then (.error (.depositDerive (.data (.unknownChannel source))), t)
  else
    match Kaspa.p2shComponents cfg.kaspa.codec cfg.kaspa.blake2b cfg.kaspa.networkId c with
    | .error e => (.error (.depositDerive (.kaspa e)), t)
    | .ok (p2sh, redeem) =>
      match t.node.kaspa.registerScript cfg.kaspa now p2sh redeem c.swapId c.unlockTs
          c.amount.value with
      | (.error e, st) =>
        (.error (.registerScript (.kaspa e)), { t with node := { t.node with kaspa := st } })
      | (.ok (), st) =>
        let t := { t with node := { t.node with kaspa := st } }
        (.ok (.address p2sh),
          t.observe cfg (.scriptAnnounce ⟨p2sh, c.swapId, redeem, c.unlockTs, c.amount.value⟩))

/-- Register the commitment with ourselves: the claim is kept also when its deposit cannot be
derived. -/
def registerCommitment (now : UInt64) (c : CommitmentV1) (secret : Bytes32)
    (expectedAmountOut : String) (t : Taker) : Except StroemnetError Deposit × Taker :=
  match claimOf cfg c secret expectedAmountOut with
  | .error e => (.error e, t)
  | .ok (source, claim) =>
    let t := { t with pendingClaims := Function.update t.pendingClaims c.swapId (some claim) }
    match source with
    | .kaspaTn10 => t.registerKaspaDeposit cfg now source c
    | _ => (.ok (.params c), t)

/-- A reveal that is given away, with what made the taker do so. -/
structure Fired where
  claim : PendingClaim
  detected : CommitmentV1
  source : ChannelId
  clock : ChainClock

def transmitted (t : Taker) (moment : Moment) : List (ChannelId × CommitmentV1) :=
  match t.node.next with
  | none => []
  | some (source, event) =>
    match (cfg.handler.handle t.node.tracker source event moment).1 with
    | .ok effects => effects.filterMap fun
      | .transmitReveal c => some (source, c)
      | .broadcast _ _ => none
    | .error _ => []

def claimToFire (t : Taker) (c : CommitmentV1) : Option PendingClaim :=
  (t.pendingClaims c.swapId).filter (pendingClaimMatches · c)

def spawnRevealBroadcast (t : Taker) (c : CommitmentV1) (claim : PendingClaim) : Taker :=
  { t with
    pendingClaims := Function.update t.pendingClaims c.swapId none
    spawned := t.spawned ++ [⟨c.swapId, claim.secret⟩] }

def transmitReveals (clock : ChainClock) :
    List (ChannelId × CommitmentV1) → Taker → List Fired × Taker
  | [], t => ([], t)
  | (source, c) :: rest, t =>
    match t.claimToFire c with
    | none => transmitReveals clock rest t
    | some claim =>
      let (fired, t) := transmitReveals clock rest (t.spawnRevealBroadcast c claim)
      (⟨claim, c, source, clock⟩ :: fired, t)

end Taker

inductive TakerInput (RpcLog : Type)
  | register (c : CommitmentV1) (secret : Bytes32) (expectedAmountOut : String)
  | node (i : NodeInput RpcLog)
  /-- A spawned broadcast runs. -/
  | runSpawned (i : ℕ)

namespace Taker

variable {RpcLog : Type} (cfg : TakerConfig RpcLog)

def stepFired (t : Taker) (i : UInt64 × TakerInput RpcLog) : List Fired × Taker :=
  match i.2 with
  | .register c secret amount => ([], (t.registerCommitment cfg i.1 c secret amount).2)
  | .node (.applyEvent moment) =>
    transmitReveals moment.clock (t.transmitted cfg moment)
      { t with node := t.node.step cfg.toNodeConfig i.1 (.applyEvent moment) }
  | .node j => ([], { t with node := t.node.step cfg.toNodeConfig i.1 j })
  | .runSpawned j =>
    match t.spawned[j]? with
    | none => ([], t)
    | some r => ([], { t with spawned := t.spawned.eraseIdx j }.observe cfg (.reveal r))

def step (t : Taker) (i : UInt64 × TakerInput RpcLog) : Taker := (t.stepFired cfg i).2

def fired (t : Taker) (i : UInt64 × TakerInput RpcLog) : List Fired := (t.stepFired cfg i).1

variable {cfg} {t : Taker}

def Registered (cfg : TakerConfig RpcLog) (ins : List (UInt64 × TakerInput RpcLog)) (id : SwapId)
    (claim : PendingClaim) : Prop :=
  ∃ now c amount source, (now, .register c claim.secret amount) ∈ ins ∧ c.swapId = id ∧
    claimOf cfg c claim.secret amount = .ok (source, claim)

/-- What the taker relies on when it gives its secret away. -/
structure SafeReveal (cfg : TakerConfig RpcLog) (ins : List (UInt64 × TakerInput RpcLog))
    (f : Fired) : Prop where
  registered : Registered cfg ins f.detected.swapId f.claim
  chain : f.source = f.claim.expectedCounterChain ∧ f.detected.source = f.source.toByte
  secretHash : f.detected.secretHash = f.claim.expectedSecretHash ∧
    cfg.handler.sha256 f.claim.secret.data = f.detected.secretHash
  receiver : normalisedAddressEq f.source f.detected.addresses.receiver
    f.claim.expectedDestinationAddress
  decimals : f.detected.amount.decimals = f.source.decimals
  amount : ∃ paid expected, parseUnsigned (2 ^ 128) f.detected.amount.value = some paid ∧
    parseUnsigned (2 ^ 128) f.claim.expectedAmountOut.value = some expected ∧ 0 < expected ∧
    expected ≤ paid
  unlockTs : f.clock.now f.source < f.detected.unlockTs

/-- No commitment that a claim waits for is applied after its lock time is over. -/
def InTime (t : Taker) (i : UInt64 × TakerInput RpcLog) : Prop :=
  ∀ moment source c claim, i.2 = .node (.applyEvent moment) →
    t.node.next = some (source, .commitment c) → t.pendingClaims c.swapId = some claim →
    pendingClaimMatches claim c → moment.clock.now source < c.unlockTs

theorem claimOf_eq_ok {c : CommitmentV1} {secret : Bytes32} {amount : String} {source : ChannelId}
    {claim : PendingClaim} (h : claimOf cfg c secret amount = .ok (source, claim)) :
    ∃ destination value, cfg.handler.sha256 secret.data = c.secretHash ∧
      parseUnsigned (2 ^ 128) amount = some value ∧ value ≠ 0 ∧
      claim = ⟨secret, destination, c.secretHash, c.addresses.senderDestination,
        ⟨amount, destination.decimals⟩⟩ := by
  unfold claimOf at h
  simp only [bind_eq_ok, guard_eq_ok] at h
  obtain ⟨-, hsecret, source', -, destination, -, h⟩ := h
  split at h
  · cases h
  · rename_i value hvalue
    obtain ⟨hpos, h⟩ := guard_eq_ok.mp h
    cases h
    exact ⟨destination, value, not_not.mp hsecret, hvalue, hpos, rfl⟩

theorem transmitReveal_mem {h : Handler} {tracker tracker' : SwapTracker} {source : ChannelId}
    {event : ChainEvent} {clock : ChainClock} {effects : List Effect} {c : CommitmentV1}
    (hok : h.onChainEvent tracker source event clock = (.ok effects, tracker'))
    (hc : .transmitReveal c ∈ effects) : event = .commitment c := by
  cases event with
  | commitment c' =>
    simp only [Handler.onChainEvent] at hok
    split at hok
    · cases hok
    · rw [Prod.mk.injEq] at hok
      obtain ⟨destination, -, heffects⟩ := bind_eq_ok.mp hok.1
      split_ifs at heffects
      · cases heffects
        simpa [eq_comm] using hc
      · split at heffects <;> cases heffects <;> simpa [eq_comm] using hc
  | reveal r =>
    simp only [Handler.onChainEvent] at hok
    split at hok
    · cases hok
    · rw [Prod.mk.injEq] at hok
      obtain ⟨counterparty, -, heffects⟩ := bind_eq_ok.mp hok.1
      split at heffects
      · cases heffects
        cases hc
      · obtain ⟨c', -, heffects⟩ := bind_eq_ok.mp heffects
        split at heffects
        · cases heffects
          cases hc
        · split_ifs at heffects <;> cases heffects <;> simp at hc
  | refund r =>
    simp only [Handler.onChainEvent] at hok
    split at hok <;> cases hok
    cases hc

private theorem mem_transmitted {moment : Moment} {source : ChannelId} {c : CommitmentV1}
    (h : (source, c) ∈ t.transmitted cfg moment) :
    t.node.next = some (source, .commitment c) := by
  unfold transmitted at h
  split at h
  · cases h
  · rename_i source' event hnext
    split at h
    · rename_i effects heffects
      obtain ⟨effect, heffect, hsome⟩ := List.mem_filterMap.mp h
      split at hsome
      · cases hsome
        rw [hnext, transmitReveal_mem (Prod.ext heffects rfl) heffect]
      · cases hsome
    · cases h

theorem claimToFire_eq_some {c : CommitmentV1} {claim : PendingClaim} :
    t.claimToFire c = some claim ↔
      t.pendingClaims c.swapId = some claim ∧ pendingClaimMatches claim c := by
  simp [claimToFire, Option.filter_eq_some_iff]

theorem pendingClaims_spawn {c : CommitmentV1} {claim claim' : PendingClaim} {id : SwapId}
    (h : (t.spawnRevealBroadcast c claim).pendingClaims id = some claim') :
    t.pendingClaims id = some claim' := by
  simp only [spawnRevealBroadcast, Function.update_apply] at h
  split_ifs at h
  exact h

@[simp] theorem node_transmitReveals (clock : ChainClock) (l : List (ChannelId × CommitmentV1))
    (t : Taker) : (transmitReveals clock l t).2.node = t.node := by
  induction l generalizing t with
  | nil => rfl
  | cons x l ih =>
    unfold transmitReveals
    split
    · exact ih t
    · exact ih _

private theorem pendingClaims_transmitReveals {clock : ChainClock}
    {l : List (ChannelId × CommitmentV1)}
    {id : SwapId} {claim : PendingClaim}
    (h : (transmitReveals clock l t).2.pendingClaims id = some claim) :
    t.pendingClaims id = some claim := by
  induction l generalizing t with
  | nil => exact h
  | cons x l ih =>
    unfold transmitReveals at h
    split at h
    · exact ih h
    · exact pendingClaims_spawn (ih h)

/-- A reveal that is given away is for a claim that waited and that its commitment matches. -/
theorem mem_transmitReveals {clock : ChainClock} {l : List (ChannelId × CommitmentV1)} {f : Fired}
    (h : f ∈ (transmitReveals clock l t).1) :
    (f.source, f.detected) ∈ l ∧ f.clock = clock ∧
      t.pendingClaims f.detected.swapId = some f.claim ∧
      pendingClaimMatches f.claim f.detected := by
  induction l generalizing t with
  | nil => cases h
  | cons x l ih =>
    unfold transmitReveals at h
    split at h
    · obtain ⟨hmem, hrest⟩ := ih h
      exact ⟨List.mem_cons_of_mem _ hmem, hrest⟩
    · rename_i claim hclaim
      obtain ⟨hpending, hmatches⟩ := claimToFire_eq_some.mp hclaim
      rcases List.mem_cons.mp h with rfl | h
      · exact ⟨List.mem_cons_self, rfl, hpending, hmatches⟩
      · obtain ⟨hmem, hclock, hpending', hmatches'⟩ := ih h
        exact ⟨List.mem_cons_of_mem _ hmem, hclock, pendingClaims_spawn hpending', hmatches'⟩

/-- A waiting claim can be given away once. -/
def credit (id : SwapId) (t : Taker) : ℕ := if (t.pendingClaims id).isSome then 1 else 0

private theorem transmitReveals_credit (id : SwapId) (clock : ChainClock)
    (l : List (ChannelId × CommitmentV1)) (t : Taker) :
    (transmitReveals clock l t).1.countP (·.detected.swapId = id) +
      credit id (transmitReveals clock l t).2 ≤ credit id t := by
  induction l generalizing t with
  | nil => simp [transmitReveals]
  | cons x l ih =>
    unfold transmitReveals
    split
    · exact ih t
    · rename_i claim hclaim
      have hrest := ih (t.spawnRevealBroadcast x.2 claim)
      simp only [List.countP_cons]
      by_cases hid : x.2.swapId = id
      · subst hid
        have hbefore : credit x.2.swapId t = 1 := by
          simp [credit, (claimToFire_eq_some.mp hclaim).1]
        have hafter : credit x.2.swapId (t.spawnRevealBroadcast x.2 claim) = 0 := by
          simp [credit, spawnRevealBroadcast]
        simp only [decide_true, if_true]
        omega
      · have hsame : credit id (t.spawnRevealBroadcast x.2 claim) = credit id t := by
          simp [credit, spawnRevealBroadcast, Function.update_of_ne (Ne.symm hid)]
        simp only [hid, decide_false, Bool.false_eq_true, if_false]
        omega

private theorem registerKaspaDeposit_frame (cfg : TakerConfig RpcLog) (now : UInt64)
    (source : ChannelId)
    (c : CommitmentV1) (t : Taker) :
    (t.registerKaspaDeposit cfg now source c).2.pendingClaims = t.pendingClaims ∧
      (t.registerKaspaDeposit cfg now source c).2.node.events = t.node.events ∧
      (t.registerKaspaDeposit cfg now source c).2.node.tracker = t.node.tracker := by
  unfold registerKaspaDeposit
  split_ifs
  · split
    · exact ⟨rfl, rfl, rfl⟩
    · split <;> exact ⟨rfl, rfl, rfl⟩
  · exact ⟨rfl, rfl, rfl⟩

/-- A registration keeps the events and the tracker and adds its claim when its checks hold. -/
theorem registerCommitment_frame (cfg : TakerConfig RpcLog) (now : UInt64) (c : CommitmentV1)
    (secret : Bytes32) (amount : String) (t : Taker) :
    (t.registerCommitment cfg now c secret amount).2.node.events = t.node.events ∧
      (t.registerCommitment cfg now c secret amount).2.node.tracker = t.node.tracker ∧
      (t.registerCommitment cfg now c secret amount).2.pendingClaims =
        match claimOf cfg c secret amount with
        | .ok (_, claim) => Function.update t.pendingClaims c.swapId (some claim)
        | .error _ => t.pendingClaims := by
  unfold registerCommitment
  cases claimOf cfg c secret amount with
  | error e => exact ⟨rfl, rfl, rfl⟩
  | ok x =>
    obtain ⟨source, claim⟩ := x
    cases source with
    | kaspaTn10 =>
      obtain ⟨hclaims, hevents, htracker⟩ := registerKaspaDeposit_frame cfg now .kaspaTn10 c
        { t with pendingClaims := Function.update t.pendingClaims c.swapId (some claim) }
      exact ⟨hevents, htracker, hclaims⟩
    | ethereumSepolia => exact ⟨rfl, rfl, rfl⟩
    | igraGalleon => exact ⟨rfl, rfl, rfl⟩

/-- The registrations of a swap that pass their checks. -/
def grant (cfg : TakerConfig RpcLog) (id : SwapId) (i : UInt64 × TakerInput RpcLog) : ℕ :=
  match i.2 with
  | .register c secret amount =>
    match claimOf cfg c secret amount with
    | .ok _ => if c.swapId = id then 1 else 0
    | .error _ => 0
  | _ => 0

/-- Every waiting claim was registered, and the node is sound. -/
structure Consistent (cfg : TakerConfig RpcLog) (ins : List (UInt64 × TakerInput RpcLog))
    (t : Taker) : Prop where
  node : t.node.Sound
  claims : ∀ id claim, t.pendingClaims id = some claim → Registered cfg ins id claim

theorem Consistent.step {ins : List (UInt64 × TakerInput RpcLog)} (h : Consistent cfg ins t)
    {i : UInt64 × TakerInput RpcLog} (hi : i ∈ ins) : Consistent cfg ins (t.step cfg i) := by
  obtain ⟨now, i⟩ := i
  cases i with
  | register c secret amount =>
    obtain ⟨hevents, htracker, hclaims⟩ := registerCommitment_frame cfg now c secret amount t
    refine ⟨⟨?_, ?_⟩, ?_⟩
    · simp only [Taker.step, stepFired, hevents]
      exact h.node.events
    · simp only [Taker.step, stepFired, htracker]
      exact h.node.records
    · intro id claim hclaim
      simp only [Taker.step, stepFired, hclaims] at hclaim
      split at hclaim
      · rename_i source claim' hok
        rw [Function.update_apply] at hclaim
        split_ifs at hclaim with hid
        · cases hclaim
          obtain ⟨destination, value, -, -, -, rfl⟩ := claimOf_eq_ok hok
          exact ⟨now, c, amount, source, hi, hid.symm, hok⟩
        · exact h.claims id claim hclaim
      · exact h.claims id claim hclaim
  | node j =>
    have hnode : (t.node.step cfg.toNodeConfig now j).Sound := h.node.step now j
    cases j with
    | applyEvent moment =>
      refine ⟨?_, fun id claim hclaim => h.claims id claim ?_⟩
      · simp only [Taker.step, stepFired, node_transmitReveals]
        exact hnode
      · exact pendingClaims_transmitReveals
          (t := { t with node := t.node.step cfg.toNodeConfig now (.applyEvent moment) }) hclaim
    | _ => exact ⟨hnode, h.claims⟩
  | runSpawned j =>
    simp only [Taker.step, stepFired]
    split
    · exact h
    · exact ⟨⟨h.node.events, h.node.records⟩, h.claims⟩

/-- A taker pays for what it gives away with its registrations. -/
theorem fired_credit (cfg : TakerConfig RpcLog) (id : SwapId) (t : Taker)
    (i : UInt64 × TakerInput RpcLog) :
    (t.fired cfg i).countP (·.detected.swapId = id) + credit id (t.step cfg i) ≤
      credit id t + grant cfg id i := by
  obtain ⟨now, i⟩ := i
  cases i with
  | register c secret amount =>
    obtain ⟨-, -, hclaims⟩ := registerCommitment_frame cfg now c secret amount t
    simp only [fired, Taker.step, stepFired, List.countP_nil, credit, hclaims, grant]
    cases claimOf cfg c secret amount with
    | error e => simp
    | ok x =>
      by_cases hid : c.swapId = id
      · subst hid
        simp
      · simp [hid, Function.update_of_ne (Ne.symm hid)]
  | node j =>
    cases j with
    | applyEvent moment => exact transmitReveals_credit id moment.clock _ _
    | _ => exact (Nat.zero_add (credit id t)).le
  | runSpawned j =>
    simp only [fired, Taker.step, stepFired]
    split <;> exact (Nat.zero_add (credit id t)).le

private theorem pendingClaimMatches_iff {claim : PendingClaim} {c : CommitmentV1} :
    pendingClaimMatches claim c ↔ claim.expectedSecretHash = c.secretHash ∧
      c.source = claim.expectedCounterChain.toByte ∧
      normalisedAddressEq claim.expectedCounterChain c.addresses.receiver
        claim.expectedDestinationAddress ∧
      c.amount.atLeast claim.expectedAmountOut := by
  simp [pendingClaimMatches, and_assoc]

private theorem atLeast_iff {paid required : AmountV1} :
    paid.atLeast required ↔ paid.decimals = required.decimals ∧
      ∃ p r, parseUnsigned (2 ^ 128) paid.value = some p ∧
        parseUnsigned (2 ^ 128) required.value = some r ∧ r ≤ p := by
  unfold AmountV1.atLeast
  cases parseUnsigned (2 ^ 128) paid.value <;> cases parseUnsigned (2 ^ 128) required.value <;> simp

/-- What is given away in a step that is in time, is given away safely. -/
theorem Consistent.safeReveal {ins : List (UInt64 × TakerInput RpcLog)}
    (h : Consistent cfg ins t) {i : UInt64 × TakerInput RpcLog} (hi : InTime t i) {f : Fired}
    (hf : f ∈ t.fired cfg i) : SafeReveal cfg ins f := by
  obtain ⟨now, i⟩ := i
  cases i with
  | node j =>
    cases j with
    | applyEvent moment =>
      obtain ⟨hsignal, hclock, hpending, hmatches⟩ := mem_transmitReveals hf
      have hnext := mem_transmitted hsignal
      obtain ⟨-, rest, hevents⟩ := Node.next_eq_some.mp hnext
      have hsource : f.detected.source = f.source.toByte :=
        h.node.events _ (hevents ▸ List.mem_cons_self) f.detected rfl
      obtain ⟨hhash, hchain, hreceiver, hamount⟩ := pendingClaimMatches_iff.mp hmatches
      obtain ⟨hdecimals, paid, expected, hpaid, hexpected, hle⟩ := atLeast_iff.mp hamount
      have hregistered := h.claims _ _ hpending
      obtain ⟨now', c, amount, source, -, -, hok⟩ := hregistered
      obtain ⟨destination, value, hsecret, hvalue, hpos, hclaim⟩ := claimOf_eq_ok hok
      have hsame : f.source = f.claim.expectedCounterChain :=
        ChannelId.toByte_injective (hsource.symm.trans hchain)
      refine ⟨h.claims _ _ hpending, ⟨hsame, hsource⟩, ⟨hhash.symm, ?_⟩, ?_, ?_, ?_, ?_⟩
      · rw [hsecret, ← hhash, hclaim]
      · rw [hsame]
        exact hreceiver
      · rw [hdecimals, hsame, hclaim]
      · refine ⟨paid, expected, hpaid, hexpected, ?_, hle⟩
        rw [hclaim, hvalue, Option.some.injEq] at hexpected
        omega
      · rw [hclock]
        exact hi moment f.source f.detected f.claim rfl hnext hpending hmatches
    | _ => cases hf
  | register c secret amount => cases hf
  | runSpawned j =>
    simp only [fired, stepFired] at hf
    split at hf <;> cases hf

/-- In every run in which no commitment that a claim waits for is applied after its lock time,
a secret is given away only against a registered claim, and safely; and no claim is given away
twice. -/
theorem taker_reveals_safely (cfg : TakerConfig RpcLog) (cursor : ChannelId → UInt64) (cap : ℕ)
    (ins : List (UInt64 × TakerInput RpcLog))
    (htime : Runs.Along (step cfg) InTime (start cursor cap) ins) :
    (∀ f ∈ Runs.outputs (step cfg) (fired cfg) (start cursor cap) ins, SafeReveal cfg ins f) ∧
      ∀ id, (Runs.outputs (step cfg) (fired cfg) (start cursor cap) ins).countP
        (·.detected.swapId = id) ≤ (ins.map (grant cfg id)).sum := by
  constructor
  · have hstart : Consistent cfg ins (start cursor cap) :=
      ⟨Node.sound_start cursor cap, nofun⟩
    exact htime.and_mem.forall_outputs (fun _ _ hs hi => hs.step hi.2)
      (fun _ _ hs hi _ hf => hs.safeReveal hi.1 hf) hstart
  · intro id
    have hle := htime.countP_outputs_le (credit id) (grant cfg id)
      fun t i _ => fired_credit cfg id t i
    simpa [credit, start] using hle

def sampleTaker : TakerConfig Evm.Log := { sampleNode with role := .observer }

/-- The user's own commitment of the sample swap. -/
def sampleInit : CommitmentV1 where
  swapId := .filled 3
  addresses := ⟨userAddress, providerAddress, userAddress⟩
  amount := ⟨"2000", 18⟩
  secretHash := Htlc.sampleSecretHash
  unlockTs := 10000
  source := 1
  destination := 2

/-- The user registers its commitment, and the provider's is polled and applied at a given time
of all chains. -/
def takerRun (time : UInt64) : List (UInt64 × TakerInput Evm.Log) :=
  [(90, .register sampleInit (.filled 7) "1000"),
    (time, .node (samplePoll .igraGalleon 50 sampleCounterLog)),
    (time, .node (.applyEvent ⟨⟨fun _ => some time, time⟩, samplePricing⟩))]

/-- The secret is given away for a commitment that its owner can already take back. -/
theorem secret_given_for_expired_counter :
    (Runs.outputs (step sampleTaker) (fired sampleTaker) (start (fun _ => 0) 50000)
      (takerRun 5000)).map (fun f => (f.claim.secret, f.source, f.detected.unlockTs,
        decide (f.clock.now f.source < f.detected.unlockTs))) =
          [(.filled 7, .igraGalleon, 3700, false)] := by
  decide +kernel

theorem taker_reveals_safely_sample :
    (Runs.outputs (step sampleTaker) (fired sampleTaker) (start (fun _ => 0) 50000)
        (takerRun 100)).length = 1 ∧
      (∀ f ∈ Runs.outputs (step sampleTaker) (fired sampleTaker) (start (fun _ => 0) 50000)
        (takerRun 100), SafeReveal sampleTaker (takerRun 100) f) ∧
      ∀ id, (Runs.outputs (step sampleTaker) (fired sampleTaker) (start (fun _ => 0) 50000)
        (takerRun 100)).countP (·.detected.swapId = id) ≤
          ((takerRun 100).map (grant sampleTaker id)).sum := by
  refine ⟨by decide +kernel, ?_⟩
  refine taker_reveals_safely sampleTaker (fun _ => 0) 50000 (takerRun 100) ⟨?_, ?_, ?_, trivial⟩
  · rintro moment source c claim h
    cases h
  · rintro moment source c claim h
    cases h
  · rintro moment source c claim h hnext - -
    cases h
    have hcounter : (Runs.final (step sampleTaker) (start (fun _ => 0) 50000)
        ((takerRun 100).take 2)).node.next = some (.igraGalleon, .commitment sampleCounter) := by
      decide +kernel
    have heq := hcounter.symm.trans hnext
    cases heq
    decide

end Taker
end Stroemnet
