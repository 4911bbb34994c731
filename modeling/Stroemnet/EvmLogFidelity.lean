import Stroemnet.EvmChannel

/-! # Faithful logs

A call that the contract accepts emits one log of its own, and the channel reads the call's
data back from it. The timelock is the one field that is wider on the chain than in the
event: a log with a timelock of 64 bits or more aborts the poll that meets it. -/
namespace Stroemnet.Evm

/-- The event that a call of the contract emits for itself. -/
def emittedLog (sender : Address) (w : World) : Call → Log
  | .newSwap value onBehalfOf receiver senderDestination secretHash timelock destination id =>
    .commitment ⟨id, onBehalfOf, receiver, senderDestination, value, secretHash, timelock,
      destination⟩
  | .claim id secret => .claim ⟨id, secret, sender, receiverAmount (w.swaps id).amount,
      solverReward (w.swaps id).amount⟩
  | .refund id => .refund id

theorem result_require {o : Outcome} {reason : String} {next : World → Outcome} {w' : World}
    (h : (o.require reason next).result = .ok w') :
    ∃ v, o.result = .ok v ∧ (next v).result = .ok w' := by
  unfold Outcome.require at h
  split at h
  · exact ⟨_, ‹_›, h⟩
  · cases h

def LogsGrow (react : World → Outcome) : Prop :=
  ∀ w w', (react w).result = .ok w' → w.logs <+: w'.logs

section Logs

variable {C : Contract} {timestamp : ℕ} {sender : Address} {w w' : World}
  {onPayee onSolver : World → Outcome}

theorem transfer_logs (hreact : LogsGrow onPayee) {id : Bytes32} {payee : Address}
    {amount : Uint256} (h : (transfer C id payee amount onPayee w).result = .ok w') :
    w.logs <+: w'.logs := by
  unfold transfer at h
  split_ifs at h
  · cases h
  · cases h
  · exact hreact (w.pay C.self payee amount.toNat id) w' h

theorem payOut_logs (hreact : LogsGrow onPayee) (hreact' : LogsGrow onSolver) {id : Bytes32}
    {payee : Address} {amount : Uint256}
    (h : (payOut C sender id payee amount onPayee onSolver w).result = .ok w') :
    w.logs <+: w'.logs := by
  obtain ⟨v, hv, h⟩ := result_require h
  obtain ⟨u, hu, h⟩ := result_require h
  cases h
  exact ((transfer_logs hreact hv).trans (transfer_logs hreact' hu)).trans
    (List.prefix_append _ _)

/-- An accepted call emits its log before anything else happens. -/
theorem dispatch_logs (hreact : LogsGrow onPayee) (hreact' : LogsGrow onSolver) {call : Call}
    (h : (dispatch C timestamp sender onPayee onSolver w call).result = .ok w') :
    w.logs ++ [emittedLog sender w call] <+: w'.logs := by
  cases call with
  | newSwap value onBehalfOf receiver senderDestination secretHash timelock destination id =>
    simp only [dispatch, newSwap] at h
    split_ifs at h
    any_goals cases h
    exact List.prefix_rfl
  | claim id secret =>
    simp only [dispatch, claim] at h
    split_ifs at h
    any_goals cases h
    exact payOut_logs hreact hreact' h
  | refund id =>
    simp only [dispatch, refund] at h
    split_ifs at h
    any_goals cases h
    exact payOut_logs hreact hreact' h

theorem logs_left {o : Outcome} (h : ∀ v, o.result = .ok v → w.logs <+: v.logs) :
    w.logs <+: (o.left w).logs := by
  unfold Outcome.left
  split
  · exact h _ ‹_›
  · exact List.prefix_rfl

theorem exec_logs (timestamp : ℕ) (code : Code) : LogsGrow (exec C timestamp code) := by
  induction code with
  | stop =>
    intro w w' h
    cases h
    exact List.prefix_rfl
  | revert =>
    intro w w' h
    cases h
  | move source target amount next ih =>
    intro w w' h
    simp only [exec] at h
    split_ifs at h
    · exact ih w w' h
    · exact ih (w.move source target amount) w' h
  | attempt inner next ihi ihn =>
    intro w w' h
    exact (logs_left (ihi w)).trans (ihn _ w' h)
  | call sender call onPayee onSolver next ihp ihs ihn =>
    intro w w' h
    simp only [exec] at h
    split_ifs at h
    · exact ihn w w' h
    · refine (logs_left fun v hv => ?_).trans (ihn _ w' h)
      exact (List.prefix_append _ _).trans (dispatch_logs ihp ihs hv)

end Logs

section Reading

variable {RpcLog : Type} {codec : LogCodec RpcLog} {keccak256 : Bytes → Bytes32}
  {channel : ChannelId}

/-- The event says what the call said. -/
def Reads (keccak256 : Bytes → Bytes32) (channel : ChannelId) : Call → ChainEvent → Prop
  | .newSwap value onBehalfOf receiver senderDestination secretHash timelock destination id,
      .commitment c =>
    c.swapId = id ∧ c.amount = ⟨toString value.toNat, channel.decimals⟩ ∧
      c.secretHash = secretHash ∧ c.unlockTs.toNat = timelock.toNat ∧
      c.source = channel.toByte ∧ c.destination = destination ∧
      c.addresses.sender = toChecksum keccak256 onBehalfOf ∧
      c.addresses.receiver = toChecksum keccak256 receiver ∧
      ∀ s, stringOfUtf8 senderDestination = some s → c.addresses.senderDestination = s
  | .claim id secret, .reveal r => r = ⟨id, secret⟩
  | .refund id, .refund r => r = ⟨id⟩
  | _, _ => False

/-- The timelock of a new swap fits the event. -/
def Call.TimelockFits : Call → Prop
  | .newSwap _ _ _ _ _ timelock _ _ => timelock.toNat < 2 ^ 64
  | _ => True

theorem fromUtf8Lossy_of_valid {b : Bytes} {s : String} (h : stringOfUtf8 b = some s) :
    fromUtf8Lossy b = s := by
  rw [fromUtf8Lossy, h]

theorem decodeLog_commitment (l : NewSwapLog) :
    decodeLog codec keccak256 (codec.ofLog (.commitment l)) channel =
      (toU64 l.timelock).map fun unlockTs => some (.commitment
        ⟨l.swapId, ⟨toChecksum keccak256 l.sender, toChecksum keccak256 l.receiver,
          fromUtf8Lossy l.senderDestinationAddress⟩, ⟨toString l.amount.toNat, channel.decimals⟩,
          l.secretHash, unlockTs, channel.toByte, l.destination⟩) := by
  simp only [decodeLog, codec.commitment_ofLog]
  cases toU64 l.timelock <;> rfl

theorem decodeLog_claim (l : ClaimLog) :
    decodeLog codec keccak256 (codec.ofLog (.claim l)) channel =
      .ok (some (.reveal ⟨l.swapId, l.secret⟩)) := by
  simp only [decodeLog, codec.commitment_ofLog, codec.claim_ofLog]

private theorem decodeLog_refund (id : Bytes32) :
    decodeLog codec keccak256 (codec.ofLog (.refund id)) channel =
      .ok (some (.refund ⟨id⟩)) := by
  simp only [decodeLog, codec.commitment_ofLog, codec.claim_ofLog, codec.refund_ofLog]

private theorem reads_emittedLog (sender : Address) (w : World) (call : Call) :
    (∃ event, decodeLog codec keccak256 (codec.ofLog (emittedLog sender w call)) channel =
        .ok (some event) ∧ Reads keccak256 channel call event) ↔ call.TimelockFits := by
  cases call with
  | newSwap value onBehalfOf receiver senderDestination secretHash timelock destination id =>
    simp only [emittedLog, decodeLog_commitment, Call.TimelockFits]
    unfold toU64
    split_ifs with hfits
    · refine iff_of_true ⟨_, rfl, rfl, rfl, rfl, ?_, rfl, rfl, rfl, rfl, ?_⟩ hfits
      · rw [UInt64.toNat_ofNat', Nat.mod_eq_of_lt hfits]
      · intro s hs
        exact fromUtf8Lossy_of_valid hs
    · refine iff_of_false ?_ hfits
      rintro ⟨event, hevent, -⟩
      cases hevent
  | claim id secret =>
    rw [emittedLog, decodeLog_claim]
    exact iff_of_true ⟨_, rfl, rfl⟩ trivial
  | refund id =>
    rw [emittedLog, decodeLog_refund]
    exact iff_of_true ⟨_, rfl, rfl⟩ trivial

/-- A commitment with its addresses as the chain renders them. -/
def rendered (keccak256 : Bytes → Bytes32) (c : CommitmentV1) (sender receiver : Address) :
    CommitmentV1 :=
  { c with addresses := { c.addresses with
      sender := toChecksum keccak256 sender
      receiver := toChecksum keccak256 receiver } }

/-- The parts of a commitment that the chain does not store: the unit and the channel must be
the channel's own, and the amount must be written as the chain prints it. -/
structure Canonical (channel : ChannelId) (c : CommitmentV1) (value : Uint256) : Prop where
  amount : c.amount.value = toString value.toNat
  decimals : c.amount.decimals = channel.decimals
  source : c.source = channel.toByte

theorem submitCommitment_eq_ok {c : CommitmentV1} {call : Call}
    (h : submitCommitment c = .ok call) :
    ∃ sender receiver value, parseAddress c.addresses.sender = some sender ∧
      parseAddress c.addresses.receiver = some receiver ∧
      parseValue c.amount.value = some value ∧
      call = .newSwap value sender receiver (utf8Bytes c.addresses.senderDestination)
        c.secretHash (BitVec.ofNat 256 c.unlockTs.toNat) c.destination c.swapId := by
  unfold submitCommitment at h
  split at h
  · cases h
  · split at h
    · cases h
    · split at h
      · cases h
      · cases h
        exact ⟨_, _, _, ‹_›, ‹_›, ‹_›, rfl⟩

private theorem toU64_unlockTs (t : UInt64) : toU64 (BitVec.ofNat 256 t.toNat) = .ok t := by
  have hlt : t.toNat < 2 ^ 64 := t.toNat_lt
  have hnat : (BitVec.ofNat 256 t.toNat).toNat = t.toNat := by
    rw [BitVec.toNat_ofNat, Nat.mod_eq_of_lt (by omega)]
  rw [toU64, hnat, if_pos hlt, UInt64.ofNat_toNat]

private theorem decodeLog_submitted (w : World) (sender : Address) (c : CommitmentV1)
    (party counterparty : Address) (value : Uint256) :
    decodeLog codec keccak256 (codec.ofLog (emittedLog sender w (.newSwap value party counterparty
        (utf8Bytes c.addresses.senderDestination) c.secretHash
        (BitVec.ofNat 256 c.unlockTs.toNat) c.destination c.swapId))) channel =
      .ok (some (.commitment (rendered keccak256 c party counterparty))) ↔
        Canonical channel c value := by
  simp only [emittedLog, decodeLog_commitment, toU64_unlockTs, Except.map]
  rw [fromUtf8Lossy_of_valid (stringOfUtf8_eq_some.mpr rfl)]
  constructor
  · intro h
    simp only [Except.ok.injEq, Option.some.injEq, ChainEvent.commitment.injEq, rendered,
      CommitmentV1.mk.injEq] at h
    obtain ⟨-, -, hamount, -, -, hsource, -⟩ := h
    exact ⟨(congrArg AmountV1.value hamount).symm, (congrArg AmountV1.decimals hamount).symm,
      hsource.symm⟩
  · rintro ⟨hamount, hdecimals, hsource⟩
    simp only [rendered]
    rw [← hsource, ← hamount, ← hdecimals]

private theorem decodeLog_total {log : RpcLog} :
    (∃ e, decodeLog codec keccak256 log channel = .ok e) ↔
      ∀ l, codec.commitment log = some l → l.timelock.toNat < 2 ^ 64 := by
  unfold decodeLog
  cases hl : codec.commitment log with
  | some l =>
    simp only [toU64]
    split_ifs with hfits
    · exact iff_of_true ⟨_, rfl⟩ (by rintro _ ⟨⟩; exact hfits)
    · refine iff_of_false ?_ (fun h => hfits (h l rfl))
      rintro ⟨e, he⟩
      cases he
  | none =>
    refine iff_of_true ?_ (by simp)
    simp only
    split
    · exact ⟨_, rfl⟩
    · split <;> exact ⟨_, rfl⟩

theorem trackLogs_total (cfg : Config) (now : UInt64) (logs : List RpcLog) (st : State)
    (events : List (ChannelId × ChainEvent)) :
    (∃ evs, (State.trackLogs codec cfg now logs st events).1 = .ok evs) ↔
      ∀ log ∈ logs, ∀ l, codec.commitment log = some l → l.timelock.toNat < 2 ^ 64 := by
  induction logs generalizing st events with
  | nil => simp [State.trackLogs]
  | cons log logs ih =>
    have hlog : (∃ e, decodeLog codec cfg.keccak256 log cfg.channelId = .ok e) ↔ _ :=
      decodeLog_total
    rw [List.forall_mem_cons, ← hlog]
    unfold State.trackLogs
    split
    · rename_i p hp
      simp [hp]
    · rename_i hp
      simp [hp, ih]
    · rename_i event hp
      simp [hp, ih]

/-- The logs that a poll fetches, when it is time for one. -/
def polledLogs (cfg : Config) (now : UInt64) (rpc : Rpc RpcLog) (st : State) : List RpcLog :=
  if now < st.nextPollSecs then []
  else (st.poll.pollOnce rpc cfg.minimumBlockConfirmations cfg.maxBlocksPerPoll).1

private theorem pollFinalized_total {cfg : Config} {now : UInt64} {rpc : Rpc RpcLog} {st : State} :
    (∃ evs, (State.pollFinalized codec cfg now rpc st).1 = .ok evs) ↔
      ∀ log ∈ polledLogs cfg now rpc st, ∀ l, codec.commitment log = some l →
        l.timelock.toNat < 2 ^ 64 := by
  unfold State.pollFinalized polledLogs
  split_ifs with hdue
  · simp
  · simp only
    rw [← trackLogs_total cfg now _ { st with
      nextPollSecs := now + cfg.pollIntervalSecs
      poll := (st.poll.pollOnce rpc cfg.minimumBlockConfirmations cfg.maxBlocksPerPoll).2
      storedCursor := some
        (st.poll.pollOnce rpc cfg.minimumBlockConfirmations cfg.maxBlocksPerPoll).2.cursor } []]
    split
    · rename_i p st' h
      simp [h]
    · rename_i evs st' h
      rw [h]
      split <;> simp

/-- Logs and events agree up to the width of the timelock: an accepted call is read back
whole exactly when its timelock fits; a commitment that is sent comes back, up to the rendering
of its addresses, exactly when its amount, unit and channel are the channel's own; and a poll
goes through exactly when every log it fetched has a timelock that fits. -/
theorem log_decoding_iff (codec : LogCodec RpcLog) (keccak256 : Bytes → Bytes32)
    (C : Contract) (timestamp : ℕ) (sender : Address) (payee solver : Code) (w w' : World)
    (channel : ChannelId) :
    (∀ call, (dispatch C timestamp sender (exec C timestamp payee) (exec C timestamp solver) w
        call).result = .ok w' →
      w.logs ++ [emittedLog sender w call] <+: w'.logs ∧
      ((∃ event, decodeLog codec keccak256 (codec.ofLog (emittedLog sender w call)) channel =
        .ok (some event) ∧ Reads keccak256 channel call event) ↔ call.TimelockFits)) ∧
    (∀ c call, submitCommitment c = .ok call →
      ∃ party counterparty value, parseAddress c.addresses.sender = some party ∧
        parseAddress c.addresses.receiver = some counterparty ∧
        parseValue c.amount.value = some value ∧
        (decodeLog codec keccak256 (codec.ofLog (emittedLog sender w call)) channel =
          .ok (some (.commitment (rendered keccak256 c party counterparty))) ↔
            Canonical channel c value)) ∧
    ∀ cfg now rpc st, (∃ evs, (State.pollFinalized codec cfg now rpc st).1 = .ok evs) ↔
      ∀ log ∈ polledLogs cfg now rpc st, ∀ l, codec.commitment log = some l →
        l.timelock.toNat < 2 ^ 64 := by
  refine ⟨?_, ?_, ?_⟩
  · intro call hcall
    exact ⟨dispatch_logs (exec_logs timestamp payee) (exec_logs timestamp solver) hcall,
      reads_emittedLog sender w call⟩
  · intro c call hcall
    obtain ⟨party, counterparty, value, hp, hr, hv, rfl⟩ := submitCommitment_eq_ok hcall
    exact ⟨party, counterparty, value, hp, hr, hv, decodeLog_submitted w sender c _ _ value⟩
  · intro cfg now rpc st
    exact pollFinalized_total

end Reading

/-- Logs as the contract emits them, without an encoding. -/
def plainCodec : LogCodec Log where
  ofLog := id
  commitment
    | .commitment c => some c
    | _ => none
  claim
    | .claim c => some c
    | _ => none
  refund
    | .refund id => some id
    | _ => none
  commitment_ofLog l := by cases l <;> rfl
  claim_ofLog l := by cases l <;> rfl
  refund_ofLog l := by cases l <;> rfl

def sampleContract : Contract := ⟨0x9999999999999999999999999999999999999999, fun _ => default⟩

def sampleWorld : World := World.deployed fun _ => 1000000

/-- A new swap of two thousand units, open until the given time. -/
def sampleCall (timelock : Uint256) : Call :=
  .newSwap 2000 0x1111111111111111111111111111111111111111
    0x2222222222222222222222222222222222222222 [0x61] (.filled 7) timelock 0 (.filled 3)

theorem late_log_not_decoded :
    ∃ w', (dispatch sampleContract 0 5 (exec sampleContract 0 .stop) (exec sampleContract 0 .stop)
        sampleWorld (sampleCall (BitVec.ofNat 256 (2 ^ 64)))).result = .ok w' ∧
      decodeLog plainCodec (fun _ => default)
        (emittedLog 5 sampleWorld (sampleCall (BitVec.ofNat 256 (2 ^ 64)))) .ethereumSepolia =
          .error .uintConversion :=
  ⟨_, rfl, rfl⟩

theorem log_decoding_sample :
    ∃ event, decodeLog plainCodec (fun _ => default)
      (plainCodec.ofLog (emittedLog 5 sampleWorld (sampleCall 100))) .ethereumSepolia =
        .ok (some event) ∧ Reads (fun _ => default) .ethereumSepolia (sampleCall 100) event :=
  ((log_decoding_iff plainCodec (fun _ => default) sampleContract 0 5 .stop .stop sampleWorld _
    .ethereumSepolia).1 (sampleCall 100) rfl).2.mpr (show (100 : Uint256).toNat < 2 ^ 64 by decide)

end Stroemnet.Evm
