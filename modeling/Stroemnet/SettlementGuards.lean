import Stroemnet.ClaimIntegrity
import Stroemnet.EthereumSolvency
import Stroemnet.PendingWork
import Mathlib.Data.BitVec

/-! # The guards of a settlement and the checks of the contract

Before it sends a claim or a refund, a node checks what the contract is going to check: a claim
against the swap in the storage of the contract, a refund against the timelock that was read off
the log of the swap. The contract compares words of 256 bits, the node cuts them down to 64. -/
namespace Stroemnet.Evm

/-- The reasons for which the contract turns a claim down before it pays anything. -/
def claimChecks : List String :=
  ["Swap does not exist", "Already finalized", "Invalid secret", "Timelock expired"]

/-- The checks of a claim on the swap, the secret and the timelock pass. -/
def ClaimPasses (C : Contract) (w : World) (timestamp : ℕ) (id secret : Bytes32) : Prop :=
  ∀ (sender : Address) (onReceiver onSolver : World → Outcome) (reason : String),
    (claim C timestamp sender id secret onReceiver onSolver w).result = .error reason →
      reason ∉ claimChecks

/-- The timelock check of a refund passes, whatever becomes of the checks before it. -/
def RefundUnlocked (C : Contract) (w : World) (timestamp : ℕ) (id : Bytes32) : Prop :=
  ∀ (sender : Address) (onSender onSolver : World → Outcome),
    (refund C timestamp sender id onSender onSolver
      (w.setSwap id { w.swaps id with initialized := true, finalized := false })).result ≠
        .error "Timelock not yet expired"

section Contract

variable {C : Contract} {w : World} {timestamp : ℕ} {id secret : Bytes32}

theorem payOut_error {sender payee : Address} {amount : Uint256}
    {onPayee onSolver : World → Outcome} {reason : String}
    (h : (payOut C sender id payee amount onPayee onSolver w).result = .error reason) :
    reason = "Receiver transfer failed" ∨ reason = "Solver transfer failed" := by
  unfold payOut Outcome.require at h
  cases hreceiver : (transfer C id payee (receiverAmount amount) onPayee w).result with
  | error e =>
    rw [hreceiver] at h
    exact .inl (Except.error.inj h).symm
  | ok w' =>
    simp only [hreceiver] at h
    cases hsolver : (transfer C id sender (solverReward amount) onSolver w').result with
    | error e =>
      simp only [hsolver] at h
      exact .inr (Except.error.inj h).symm
    | ok w'' =>
      simp only [hsolver] at h
      cases h

private theorem claimPasses_iff :
    ClaimPasses C w timestamp id secret ↔
      (w.swaps id).Open ∧ C.sha256 secret.data = (w.swaps id).secretHash ∧
        timestamp < (w.swaps id).timelock.toNat := by
  constructor
  · intro h
    have hchecks := h 0 (fun _ => .reverted "") (fun _ => .reverted "")
    unfold claim at hchecks
    simp only at hchecks
    split_ifs at hchecks with hinit hfinal hsecret htime
    · exact absurd (hchecks _ rfl) (by decide)
    · exact absurd (hchecks _ rfl) (by decide)
    · exact ⟨⟨hinit, Bool.eq_false_iff.mpr hfinal⟩, not_not.mp hsecret, htime⟩
    · exact absurd (hchecks _ rfl) (by decide)
    · exact absurd (hchecks _ rfl) (by decide)
  · rintro ⟨⟨hinit, hfinal⟩, hsecret, htime⟩ sender onReceiver onSolver reason h
    simp only [claim, hinit, hfinal, hsecret, htime, not_true, ne_eq, Bool.false_eq_true,
      if_false] at h
    rcases payOut_error h with rfl | rfl <;> decide

private theorem refundUnlocked_iff :
    RefundUnlocked C w timestamp id ↔ (w.swaps id).timelock.toNat ≤ timestamp := by
  have hself : (w.setSwap id { w.swaps id with initialized := true, finalized := false }).swaps id =
      { w.swaps id with initialized := true, finalized := false } := Function.update_self _ _ _
  constructor
  · intro h
    by_contra htime
    refine h 0 (fun _ => .reverted "") (fun _ => .reverted "") ?_
    simp [refund, hself, htime, Outcome.reverted]
  · intro htime sender onSender onSolver h
    simp only [refund, hself, htime, not_true, Bool.false_eq_true, if_false] at h
    rcases payOut_error h with hreason | hreason <;> exact absurd hreason (by decide)

end Contract

/-- A pending refund carries the timelock of a log of the contract. -/
def FromLog (w : World) (p : RefundV1 × UInt64) : Prop :=
  ∃ l ∈ commitments w, l.swapId = p.1.swapId ∧ toU64 l.timelock = .ok p.2

/-- The refunds that are pending and those that are stored carry timelocks of the logs. -/
structure State.RefundsFromLogs (w : World) (st : State) : Prop where
  pending : ∀ p ∈ st.pendingRefunds, FromLog w p
  rows : ∀ id r p, st.rows id = some r → r.pendingRefund = some p → FromLog w p

variable {RpcLog : Type}

/-- The node of the chain answers with logs of the contract. -/
def LogsOf (codec : LogCodec RpcLog) (w : World) (logs : List RpcLog) : Prop :=
  ∀ log ∈ logs, ∃ l ∈ w.logs, log = codec.ofLog l

/-- A poll that is answered is answered with logs of the contract. -/
def Fetched (codec : LogCodec RpcLog) (w : World) : WorkInput RpcLog → Prop
  | .poll _ rpc => ∀ start stop logs, rpc.getLogs start stop = some logs → LogsOf codec w logs
  | _ => True

namespace State.RefundsFromLogs

variable {codec : LogCodec RpcLog} {cfg : Config} {w : World} {st : State}

theorem empty (w : World) (cursor : UInt64) : (State.empty cursor).RefundsFromLogs w := by
  refine ⟨List.forall_mem_nil _, ?_⟩
  intro id r p hrow
  cases hrow

/-- A row that is written holds a refund that is pending. -/
theorem persistSwap (h : st.RefundsFromLogs w) (id : SwapId) :
    (st.persistSwap id).RefundsFromLogs w := by
  refine ⟨h.pending, fun id' r p hrow hp => ?_⟩
  by_cases heq : id' = id
  · subst heq
    simp only [State.persistSwap, SwapRows.persist, Function.update_self] at hrow
    split_ifs at hrow
    cases hrow
    exact h.pending p (List.mem_of_find?_eq_some hp)
  · simp only [State.persistSwap, SwapRows.persist, Function.update_of_ne heq] at hrow
    exact h.rows id' r p hrow hp

/-- A change of the pending refunds that adds none from elsewhere. -/
theorem of_pending (h : st.RefundsFromLogs w) {st' : State} (hrows : st'.rows = st.rows)
    (hpending : ∀ p ∈ st'.pendingRefunds, FromLog w p) : st'.RefundsFromLogs w :=
  ⟨hpending, fun id r p hrow => h.rows id r p (hrows ▸ hrow)⟩

theorem recordFailure (h : st.RefundsFromLogs w) (k : ActionKey) (now : UInt64) :
    (st.recordFailure k now).RefundsFromLogs w := by
  apply State.RefundsFromLogs.persistSwap
  exact h.of_pending rfl h.pending

theorem replacement (h : st.RefundsFromLogs w) (answers : SettleAnswers) (k : ActionKey) :
    (st.replacement answers k).2.RefundsFromLogs w := by
  unfold State.replacement
  cases (st.queue k).bind (planReplacement answers) with
  | none => exact h
  | some r =>
    apply State.RefundsFromLogs.persistSwap
    exact h.of_pending rfl h.pending

theorem recordSuccess (h : st.RefundsFromLogs w) (k : ActionKey) :
    (st.recordSuccess k).RefundsFromLogs w := by
  obtain ⟨id, action⟩ := k
  cases action with
  | claim =>
    apply State.RefundsFromLogs.persistSwap
    exact h.of_pending rfl h.pending
  | refund =>
    apply State.RefundsFromLogs.persistSwap
    exact h.of_pending rfl fun p hp => h.pending p (List.mem_of_mem_filter hp)

/-- A tracked commitment has to come from a log; other events add no refund. -/
theorem trackActionableEvent (h : st.RefundsFromLogs w) (now : UInt64) {event : ChainEvent}
    (hevent : ∀ c, event = .commitment c → FromLog w (⟨c.swapId⟩, c.unlockTs)) :
    (st.trackActionableEvent cfg now event).RefundsFromLogs w := by
  have hpending : ∀ p ∈ queueDequeueRefundEvent st.pendingRefunds event cfg.participateCcr,
      FromLog w p := by
    intro p hp
    cases event with
    | commitment c =>
      simp only [queueDequeueRefundEvent] at hp
      split_ifs at hp
      · rcases List.mem_append.mp hp with hp | hp
        · exact h.pending p hp
        · rw [List.mem_singleton.mp hp]
          exact hevent c rfl
      · exact h.pending p hp
    | reveal r => exact h.pending p (List.mem_of_mem_filter hp)
    | refund r => exact h.pending p (List.mem_of_mem_filter hp)
  apply State.RefundsFromLogs.persistSwap
  cases event with
  | commitment c =>
    simp only
    split_ifs
    · exact h.of_pending rfl hpending
    · exact h.of_pending rfl hpending
  | reveal r => exact h.of_pending rfl hpending
  | refund r => exact h.of_pending rfl hpending

/-- The commitment of a decoded log carries the timelock of the log. -/
theorem fromLog_decodeLog {keccak256 : Bytes → Bytes32} {channel : ChannelId} {l : Log}
    {c : CommitmentV1} (hl : l ∈ w.logs)
    (h : decodeLog codec keccak256 (codec.ofLog l) channel = .ok (some (.commitment c))) :
    FromLog w (⟨c.swapId⟩, c.unlockTs) := by
  unfold decodeLog at h
  cases l with
  | commitment n =>
    simp only [codec.commitment_ofLog] at h
    obtain ⟨unlockTs, hunlock, h⟩ := bind_eq_ok.mp h
    cases h
    exact ⟨n, List.mem_filterMap.mpr ⟨_, hl, rfl⟩, rfl, hunlock⟩
  | refund id => simp [codec.commitment_ofLog, codec.claim_ofLog, codec.refund_ofLog] at h
  | claim n => simp [codec.commitment_ofLog, codec.claim_ofLog] at h
  | solverReward id a r =>
    simp [codec.commitment_ofLog, codec.claim_ofLog, codec.refund_ofLog] at h

theorem trackLogs (h : st.RefundsFromLogs w) (cfg : Config) (now : UInt64) {logs : List RpcLog}
    (hlogs : LogsOf codec w logs) (events : List (ChannelId × ChainEvent)) :
    (State.trackLogs codec cfg now logs st events).2.RefundsFromLogs w := by
  induction logs generalizing st events with
  | nil => exact h
  | cons log logs ih =>
    have hrest : LogsOf codec w logs := fun x hx => hlogs x (List.mem_cons_of_mem _ hx)
    rw [State.trackLogs]
    cases hdecoded : decodeLog codec cfg.keccak256 log cfg.channelId with
    | error p => exact h
    | ok found =>
      cases found with
      | none => exact ih h hrest events
      | some event =>
        refine ih (h.trackActionableEvent now fun c hc => ?_) hrest _
        obtain ⟨l, hl, rfl⟩ := hlogs log List.mem_cons_self
        rw [hc] at hdecoded
        exact fromLog_decodeLog hl hdecoded

private theorem logsOf_pollOnce {rpc : Rpc RpcLog} (poll : PollState)
    (confirmations maxBlocks : UInt64)
    (hrpc : ∀ start stop logs, rpc.getLogs start stop = some logs → LogsOf codec w logs) :
    LogsOf codec w (poll.pollOnce rpc confirmations maxBlocks).1 := by
  unfold PollState.pollOnce
  cases rpc.blockNumber with
  | none => exact nofun
  | some current =>
    simp only
    cases poll.nextRange current confirmations maxBlocks with
    | none => exact nofun
    | some range =>
      simp only
      cases hlogs : rpc.getLogs range.1 (range.2 - 1) with
      | none => exact nofun
      | some logs => exact hrpc _ _ _ hlogs

theorem pollFinalized (h : st.RefundsFromLogs w) (now : UInt64) {rpc : Rpc RpcLog}
    (hrpc : ∀ start stop logs, rpc.getLogs start stop = some logs → LogsOf codec w logs) :
    (st.pollFinalized codec cfg now rpc).2.RefundsFromLogs w := by
  unfold State.pollFinalized
  split_ifs
  · exact h
  · have hlogs := logsOf_pollOnce st.poll cfg.minimumBlockConfirmations cfg.maxBlocksPerPoll hrpc
    rcases hpoll : st.poll.pollOnce rpc cfg.minimumBlockConfirmations cfg.maxBlocksPerPoll with
      ⟨logs, poll⟩
    rw [hpoll] at hlogs
    have hpolled : { st with
        nextPollSecs := now + cfg.pollIntervalSecs
        poll := poll
        storedCursor := some poll.cursor }.RefundsFromLogs w := ⟨h.pending, h.rows⟩
    have htracked := hpolled.trackLogs cfg now hlogs []
    simp only
    cases hresult : State.trackLogs codec cfg now logs _ [] with
    | mk result last =>
      rw [hresult] at htracked
      cases result with
      | error p => exact htracked
      | ok events =>
        cases rpc.blockTimestamp with
        | none => exact htracked
        | some ts => exact ⟨htracked.pending, htracked.rows⟩

theorem emitEvent (h : st.RefundsFromLogs w) (now : UInt64) (sent : Except DataError Unit)
    (event : ChainEvent) : (st.emitEvent cfg now sent event).2.RefundsFromLogs w := by
  cases event with
  | commitment c =>
    simp only [State.emitEvent]
    split_ifs
    · cases submitCommitment c with
      | error e => exact h
      | ok call => exact h
    · exact h
  | reveal r =>
    simp only [State.emitEvent]
    split_ifs
    · apply State.RefundsFromLogs.persistSwap
      exact h.of_pending rfl h.pending
    · exact h
  | refund r => exact h

theorem connect (h : st.RefundsFromLogs w) (boot : Boot) :
    (Evm.connect cfg boot st).RefundsFromLogs w := by
  have hfold : ∀ (keys : List ActionKey) {st : State}, st.RefundsFromLogs w →
      (keys.foldl State.recordSuccess st).RefundsFromLogs w := by
    intro keys
    induction keys with
    | nil => exact id
    | cons k keys ih => exact fun h => ih (h.recordSuccess k)
  refine hfold _ ⟨fun p hp => ?_, h.rows⟩
  obtain ⟨id, -, hp⟩ := List.mem_filterMap.mp hp
  obtain ⟨r, hr, hp⟩ := Option.bind_eq_some_iff.mp hp
  exact h.rows id r p hr hp

/-- Whatever a channel is asked to do, its refunds carry timelocks of the logs. -/
theorem work (h : st.RefundsFromLogs w) {input : WorkInput RpcLog}
    (hinput : Fetched codec w input) : (st.work codec cfg input).RefundsFromLogs w := by
  cases input with
  | poll now rpc => exact h.pollFinalized now hinput
  | emit now sent event => exact h.emitEvent now sent event
  | replace answers k => exact h.replacement answers k
  | success k => exact h.recordSuccess k
  | failure k now => exact h.recordFailure k now
  | restart boot => exact h.connect boot

theorem final (cfg : Config) (cursor : UInt64) {inputs : List (WorkInput RpcLog)}
    (hinputs : ∀ input ∈ inputs, Fetched codec w input) :
    (Runs.final (State.work codec cfg) (State.empty cursor) inputs).RefundsFromLogs w :=
  (Runs.along_true _ inputs).and_mem.invariant (fun _ i h hi => h.work (hinputs i hi.2))
    (.empty w cursor)

end State.RefundsFromLogs

/-- What a node attempts at a timestamp of the chain is what the contract would let pass. -/
structure GuardsAgree (C : Contract) (cfg : Config) (w : World) (st : State) (id secret : Bytes32)
    (timestamp : UInt64) : Prop where
  /-- When both requests are answered, a claim is sent if its checks pass, and only then. -/
  claim : ∀ answers : SettleAnswers, answers.swap = some (w.swaps id) →
    answers.chainNow = some timestamp →
    ((submitClaim C.sha256 answers ⟨id, secret⟩).1 = true ↔
      ClaimPasses C w timestamp.toNat id secret)
  /-- A refund that is pending goes on if its timelock check passes, and only then. -/
  refund : cfg.signed = true → st.pendingRefunds.any (·.1.swapId = id) = true →
    ∀ answers : SettleAnswers, answers.blockTimestamp = some timestamp →
    ((st.prepare cfg C.sha256 answers (.refund id)).isOk = true ↔
      RefundUnlocked C w timestamp.toNat id)
  /-- At the timelock itself it is the refund that goes on, and no claim is sent. -/
  boundary : (w.swaps id).timelock.toNat = timestamp.toNat →
    (∀ answers : SettleAnswers, answers.swap = some (w.swaps id) →
      answers.chainNow = some timestamp →
      (submitClaim C.sha256 answers ⟨id, secret⟩).1 = false) ∧
    (cfg.signed = true → st.pendingRefunds.any (·.1.swapId = id) = true →
      ∀ answers : SettleAnswers, answers.blockTimestamp = some timestamp →
      (st.prepare cfg C.sha256 answers (.refund id)).isOk = true)

/-- A claim that the contract would take at the last timestamp of all, because its timelock is
beyond every timestamp. -/
structure BeyondTimestamps (C : Contract) (w : World) (id secret : Bytes32) (timestamp : UInt64) :
    Prop where
  isOpen : (w.swaps id).Open
  opens : C.sha256 secret.data = (w.swaps id).secretHash
  beyond : 2 ^ 64 ≤ (w.swaps id).timelock.toNat
  last : timestamp.toNat = 2 ^ 64 - 1

section Agreement

variable {C : Contract} {cfg : Config} {w : World} {st : State} {id secret : Bytes32}
  {timestamp : UInt64}

private theorem claimSkipReason_eq_none (initialized finalized secretOk : Bool)
    (now timelock : UInt64) :
    claimSkipReason initialized finalized secretOk (some now) timelock = none ↔
      (initialized = true ∧ finalized = false) ∧ secretOk = true ∧ now < timelock := by
  cases initialized <;> cases finalized <;> cases secretOk <;> simp [claimSkipReason]

/-- The timelock is cut off at the largest timestamp. -/
theorem submitClaim_sends {answers : SettleAnswers} {swap : Swap} (hswap : answers.swap = some swap)
    (hnow : answers.chainNow = some timestamp) :
    (submitClaim C.sha256 answers ⟨id, secret⟩).1 = true ↔
      swap.Open ∧ C.sha256 secret.data = swap.secretHash ∧
        timestamp.toNat < min swap.timelock.toNat (2 ^ 64 - 1) := by
  have hcut : (UInt64.ofNat (min swap.timelock.toNat (2 ^ 64 - 1))).toNat =
      min swap.timelock.toNat (2 ^ 64 - 1) := by
    apply UInt64.toNat_ofNat_of_lt'
    simp only [UInt64.size]
    omega
  have hguard := claimSkipReason_eq_none swap.initialized swap.finalized
    (decide (C.sha256 secret.data = swap.secretHash)) timestamp
    (UInt64.ofNat (min swap.timelock.toNat (2 ^ 64 - 1)))
  rw [decide_eq_true_eq, UInt64.lt_iff_toNat_lt, hcut] at hguard
  rw [Swap.Open, ← hguard]
  simp only [submitClaim, hswap, hnow]
  cases claimSkipReason swap.initialized swap.finalized
      (decide (C.sha256 secret.data = swap.secretHash)) (some timestamp)
      (UInt64.ofNat (min swap.timelock.toNat (2 ^ 64 - 1))) with
  | none => simp
  | some reason => simp

theorem claim_guard_iff {answers : SettleAnswers} (hswap : answers.swap = some (w.swaps id))
    (hnow : answers.chainNow = some timestamp) :
    ((submitClaim C.sha256 answers ⟨id, secret⟩).1 = true ↔
      ClaimPasses C w timestamp.toNat id secret) ↔
        ¬ BeyondTimestamps C w id secret timestamp := by
  have hbound := timestamp.toNat_lt
  rw [submitClaim_sends hswap hnow, claimPasses_iff]
  constructor
  · intro hagree hbeyond
    obtain ⟨-, -, htime⟩ := hagree.mpr ⟨hbeyond.isOpen, hbeyond.opens, by
      have hlast := hbeyond.last
      have htimelock := hbeyond.beyond
      omega⟩
    have hlast := hbeyond.last
    omega
  · intro hbeyond
    refine ⟨fun ⟨hopen, hsecret, htime⟩ => ⟨hopen, hsecret, by omega⟩,
      fun ⟨hopen, hsecret, htime⟩ => ⟨hopen, hsecret, ?_⟩⟩
    by_contra hcut
    exact hbeyond ⟨hopen, hsecret, by omega, by omega⟩

private theorem unlock_eq_timelock (hused : UsedOnce w) (hst : st.RefundsFromLogs w)
    {p : RefundV1 × UInt64}
    (hp : p ∈ st.pendingRefunds) : p.2.toNat = (w.swaps p.1.swapId).timelock.toNat := by
  obtain ⟨l, hl, hid, htimelock⟩ := hst.pending p hp
  obtain ⟨finalized, hstored⟩ := hused.stored l hl
  rw [← hid, hstored]
  unfold toU64 at htimelock
  split_ifs at htimelock with hfits
  rw [← Except.ok.inj htimelock]
  exact UInt64.toNat_ofNat_of_lt' hfits

theorem refund_guard_iff (hused : UsedOnce w) (hst : st.RefundsFromLogs w)
    (hsigned : cfg.signed = true) (hpending : st.pendingRefunds.any (·.1.swapId = id) = true)
    {answers : SettleAnswers} (hnow : answers.blockTimestamp = some timestamp) :
    (st.prepare cfg C.sha256 answers (.refund id)).isOk = true ↔
      (w.swaps id).timelock.toNat ≤ timestamp.toNat := by
  obtain ⟨p, hfind⟩ : ∃ p, st.pendingRefunds.find? (·.1.swapId = id) = some p :=
    Option.isSome_iff_exists.mp (by simpa using hpending)
  have hid : p.1.swapId = id := by simpa using List.find?_some hfind
  have hunlock := unlock_eq_timelock hused hst (List.mem_of_find?_eq_some hfind)
  rw [hid] at hunlock
  have hfound : (st.pendingRefunds.find? (·.1.swapId = (ActionKey.refund id).swapId)).map Prod.snd =
      some p.2 := congrArg (Option.map Prod.snd) hfind
  unfold State.prepare
  rw [hfound]
  simp only [hsigned, not_true, if_false, ActionKey.refund, hnow, UInt64.lt_iff_toNat_lt, hunlock]
  rw [← Nat.not_lt]
  split_ifs with htime
  · refine iff_of_false ?_ (not_not.mpr htime)
    intro hok
    cases hok
  · exact iff_of_true rfl htime

end Agreement

/-- For every state of the contract on any run of it, after whatever the node did with the logs of
that run, restarts included, and for every secret and timestamp: the guards of the node agree with
the checks of the contract, unless the timelock is beyond every timestamp and the timestamp is the
last. -/
theorem settlement_guards_agree_iff {RpcLog : Type} (C : Contract) (balances : Address → ℕ)
    (txs : List Transaction) (w : World) (hw : w ∈ (run C txs (World.deployed balances)).seen)
    (codec : LogCodec RpcLog) (cfg : Config) (cursor : UInt64) (inputs : List (WorkInput RpcLog))
    (hinputs : ∀ input ∈ inputs, Fetched codec w input) (id secret : Bytes32)
    (timestamp : UInt64) :
    GuardsAgree C cfg w (Runs.final (State.work codec cfg) (State.empty cursor) inputs) id secret
        timestamp ↔
      ¬ BeyondTimestamps C w id secret timestamp := by
  have hused : UsedOnce w := ((contract_solvent_and_pays_once C balances txs).1 w hw).2.2
  have hst := State.RefundsFromLogs.final cfg cursor hinputs
  constructor
  · intro h
    have hanswered : ∃ answers : SettleAnswers, answers.swap = some (w.swaps id) ∧
        answers.chainNow = some timestamp :=
      ⟨⟨none, none, none, none, some (w.swaps id), some timestamp, false, .ok ()⟩, rfl, rfl⟩
    obtain ⟨answers, hswap, hnow⟩ := hanswered
    exact (claim_guard_iff hswap hnow).mp (h.claim answers hswap hnow)
  · intro hbeyond
    refine ⟨fun answers hswap hnow => (claim_guard_iff hswap hnow).mpr hbeyond,
      fun hsigned hpending answers hnow => ?_, fun heq => ⟨fun answers hswap hnow => ?_,
      fun hsigned hpending answers hnow => ?_⟩⟩
    · rw [refund_guard_iff hused hst hsigned hpending hnow, refundUnlocked_iff]
    · rw [Bool.eq_false_iff, Ne, submitClaim_sends hswap hnow]
      omega
    · rw [refund_guard_iff hused hst hsigned hpending hnow]
      omega

def guardedContract : Contract := ⟨0x9999999999999999999999999999999999999999, sampleSha256⟩

/-- The sample swap is created with a timelock of its own. -/
def creation (timelock : Uint256) : Transaction :=
  ⟨100, .call 0x1111111111111111111111111111111111111111
    (.newSwap 2000 0x1111111111111111111111111111111111111111
      0x2222222222222222222222222222222222222222 (utf8Bytes userAddress) Htlc.sampleSecretHash
      timelock 2 (.filled 3)) .stop .stop .stop⟩

def created (timelock : Uint256) : World :=
  (exec guardedContract 100 (creation timelock).code (World.deployed fun _ => 1000000)).left
    (World.deployed fun _ => 1000000)

theorem created_seen (timelock : Uint256) : created timelock ∈
    (run guardedContract [creation timelock] (World.deployed fun _ => 1000000)).seen :=
  List.mem_append_right _ List.mem_cons_self

/-- The node has polled the log of the swap. -/
def polledCreation (timelock : Uint256) : List (WorkInput Log) :=
  [.poll 1000 ⟨some 20, fun _ _ => some (created timelock).logs, some 120⟩]

def createdSecret : Bytes32 := ⟨Htlc.sampleSecret, rfl⟩

/-- The timelock is one past the largest timestamp: at that timestamp the contract takes a claim
and the node sends none. -/
theorem last_timestamp_unclaimed :
    created (2 ^ 64) ∈ (run guardedContract [creation (2 ^ 64)]
      (World.deployed fun _ => 1000000)).seen ∧
    ¬ GuardsAgree guardedContract (sampleNode.evm .ethereumSepolia) (created (2 ^ 64))
      (State.empty 0) (.filled 3) createdSecret 18446744073709551615 := by
  refine ⟨created_seen _, fun h => ?_⟩
  have hagree := (claim_guard_iff (C := guardedContract) rfl rfl).mp (h.claim
    ⟨none, none, none, none, some ((created (2 ^ 64)).swaps (.filled 3)), some 18446744073709551615,
      false, .ok ()⟩ rfl rfl)
  exact hagree ⟨by decide +kernel, by decide +kernel, by decide +kernel, by decide +kernel⟩

/-- At the timelock of a swap that was polled. -/
theorem guards_agree_at_timelock :
    (Runs.final (State.work plainCodec (sampleNode.evm .ethereumSepolia)) (State.empty 0)
      (polledCreation 10000)).pendingRefunds.any (·.1.swapId = .filled 3) = true ∧
    GuardsAgree guardedContract (sampleNode.evm .ethereumSepolia) (created 10000)
      (Runs.final (State.work plainCodec (sampleNode.evm .ethereumSepolia)) (State.empty 0)
        (polledCreation 10000)) (.filled 3) createdSecret 10000 := by
  refine ⟨by decide +kernel, ?_⟩
  refine (settlement_guards_agree_iff guardedContract (fun _ => 1000000) [creation 10000]
    (created 10000) (created_seen 10000) plainCodec _ 0 (polledCreation 10000)
    (fun input hinput => ?_) (.filled 3) createdSecret 10000).mpr fun h => ?_
  · rw [List.mem_singleton.mp hinput]
    intro start stop logs hlogs
    cases hlogs
    exact fun log hlog => ⟨log, hlog, rfl⟩
  · exact absurd h.last (by decide)

end Stroemnet.Evm
