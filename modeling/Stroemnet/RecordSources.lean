import Stroemnet.NodeRestart
import Stroemnet.TrackerMoves

/-! # Where records come from

A decoded commitment names the channel it was polled from. So do the commitments of every
record of a node, and the effects of a reveal can be told from the record alone. -/
namespace Stroemnet

def Sourced (channel : ChannelId) (event : ChainEvent) : Prop :=
  ∀ m, event = .commitment m → m.source = channel.toByte

namespace Evm

variable {RpcLog : Type} {codec : LogCodec RpcLog} {cfg : Config} {now : UInt64}

private theorem decodeLog_sourced {keccak256 : Bytes → Bytes32} {log : RpcLog} {channel : ChannelId}
    {event : ChainEvent} (h : decodeLog codec keccak256 log channel = .ok (some event)) :
    Sourced channel event := by
  rintro m rfl
  unfold decodeLog at h
  split at h
  · obtain ⟨unlockTs, -, h⟩ := bind_eq_ok.mp h
    cases h
    rfl
  · split at h
    · cases h
    · split at h <;> cases h

private theorem State.trackLogs_sourced {logs : List RpcLog} {st st' : State}
    {events events' : List (ChannelId × ChainEvent)}
    (h : trackLogs codec cfg now logs st events = (.ok events', st'))
    (hold : ∀ x ∈ events, Sourced x.1 x.2) : ∀ x ∈ events', Sourced x.1 x.2 := by
  induction logs generalizing st events with
  | nil =>
    cases h
    exact hold
  | cons log logs ih =>
    unfold trackLogs at h
    split at h
    · cases h
    · exact ih h hold
    · rename_i event hevent
      refine ih h ?_
      rw [List.forall_mem_append]
      refine ⟨hold, ?_⟩
      rw [List.forall_mem_singleton]
      exact decodeLog_sourced hevent

private theorem State.pollFinalized_sourced {rpc : Rpc RpcLog} {st st' : State}
    {events : List (ChannelId × ChainEvent)}
    (h : st.pollFinalized codec cfg now rpc = (.ok events, st')) :
    ∀ x ∈ events, Sourced x.1 x.2 := by
  unfold pollFinalized at h
  split_ifs at h
  · cases h
    simp
  · simp only at h
    split at h
    · cases h
    · rename_i hlogs
      have hsourced := trackLogs_sourced hlogs (by simp)
      split at h <;> cases h <;> exact hsourced

end Evm

namespace Kaspa
open Script Htlc

variable {cfg : Config} {now : UInt64}

theorem extractCommitment_source {codec : AddressCodec} {script : List Opcode} {amount : String}
    {network : Network} {channel : ChannelId} {c : CommitmentV1}
    (h : extractCommitment codec script amount network channel = .ok c) :
    c.source = channel.toByte := by
  unfold extractCommitment at h
  obtain ⟨found, -, h⟩ := bind_eq_ok.mp h
  obtain ⟨swapId, -, h⟩ := bind_eq_ok.mp h
  obtain ⟨sender, -, h⟩ := bind_eq_ok.mp h
  obtain ⟨receiver, -, h⟩ := bind_eq_ok.mp h
  obtain ⟨secretHash, -, h⟩ := bind_eq_ok.mp h
  obtain ⟨timelock, -, h⟩ := bind_eq_ok.mp h
  obtain ⟨senderDestination, -, h⟩ := bind_eq_ok.mp h
  obtain ⟨destination, -, h⟩ := bind_eq_ok.mp h
  obtain ⟨senderAddress, -, h⟩ := bind_eq_ok.mp h
  obtain ⟨receiverAddress, -, h⟩ := bind_eq_ok.mp h
  split at h
  · cases h
  · cases h
    rfl

private theorem scanOutput_sourced {scripts : WatchedScripts} {output : TransactionOutput}
    {found : BlockOutcomes} (h : scanOutput cfg scripts output = .ok found) :
    ∀ e ∈ found.events, Sourced cfg.channelId e := by
  unfold scanOutput at h
  split at h
  · cases h
    simp
  · split at h
    · cases h
      simp
    · obtain ⟨ops, -, h⟩ := bind_eq_ok.mp h
      split at h
      · cases h
        simp
      · rename_i c hc
        split at h
        · cases h
          simp
        · cases h
          intro e he
          simp only at he
          split_ifs at he
          · rw [List.mem_singleton] at he
            rintro m rfl
            cases he
            exact extractCommitment_source hc
          · simp at he

theorem appendOutcomes_events (found : List BlockOutcomes) (acc : BlockOutcomes) :
    (found.foldl BlockOutcomes.append acc).events =
      acc.events ++ found.flatMap BlockOutcomes.events := by
  induction found generalizing acc with
  | nil => simp
  | cons o found ih => simp [ih, BlockOutcomes.append]

private theorem scanOutputs_sourced {scripts : WatchedScripts} {tx : Transaction}
    {found : BlockOutcomes}
    (h : scanOutputs cfg scripts tx = .ok found) :
    ∀ e ∈ found.events, Sourced cfg.channelId e := by
  unfold scanOutputs at h
  obtain ⟨all, hall, h⟩ := bind_eq_ok.mp h
  cases h
  intro e he
  rw [appendOutcomes_events, List.nil_append, List.mem_flatMap] at he
  obtain ⟨o, ho, he⟩ := he
  obtain ⟨output, -, houtput⟩ := mem_of_mapM_eq_ok hall ho
  exact scanOutput_sourced houtput e he

/-- The event of a spend: a reveal or a refund of the swap that its script is read as. -/
theorem classifySpend_eq_ok {sig : Bytes} {script : UtxoScript} {event : ChainEvent}
    {closed : Bool} (h : classifySpend cfg sig script = .ok (some event, closed)) :
    ∃ sigOpcodes redeemOpcodes c, parseOpcodes sig = .ok sigOpcodes ∧
      parseOpcodes script.redeemScript = .ok redeemOpcodes ∧
      extractCommitment cfg.codec redeemOpcodes script.depositTarget cfg.network cfg.channelId =
        .ok c ∧
      ((∃ secret, extractRevealSecret sigOpcodes = .ok secret ∧
          event = .reveal ⟨c.swapId, secret⟩) ∨
        validateRefundSig sigOpcodes = .ok () ∧ event = .refund ⟨c.swapId⟩) := by
  unfold classifySpend at h
  obtain ⟨sigOpcodes, hsig, h⟩ := bind_eq_ok.mp h
  obtain ⟨redeemOpcodes, hredeem, h⟩ := bind_eq_ok.mp h
  cases hc : extractCommitment cfg.codec redeemOpcodes script.depositTarget cfg.network
      cfg.channelId with
  | error e =>
    simp only [hc] at h
    split at h
    · cases h
    · split at h <;> cases h
  | ok c =>
    refine ⟨sigOpcodes, redeemOpcodes, c, hsig, hredeem, hc, ?_⟩
    simp only [hc] at h
    split at h
    · rename_i secret hsecret
      cases h
      exact .inl ⟨secret, hsecret, rfl⟩
    · split at h
      · rename_i hrefund
        cases h
        exact .inr ⟨hrefund, rfl⟩
      · cases h

/-- One input adds at most an event that is its own classification. -/
theorem scanInput_events {scripts : WatchedScripts} {acc : InputScan} {input : TransactionInput}
    {e : ChainEvent} (h : e ∈ (scanInput cfg scripts acc input).events) :
    e ∈ acc.events ∨ ∃ redeem addr script closed, lastRedeem input.signatureScript = some redeem ∧
      deriveP2shAddr cfg redeem = some addr ∧ scripts addr = some script ∧
      classifySpend cfg input.signatureScript script = .ok (some e, closed) := by
  unfold scanInput at h
  split at h
  · exact .inl h
  · rename_i addr haddr
    obtain ⟨redeem, hredeem, haddr⟩ := Option.bind_eq_some_iff.mp haddr
    split at h
    · exact .inl h
    · rename_i script hscript
      split at h
      · rename_i event closed hevent
        simp only at h
        split_ifs at h
        · exact .inl h
        · rcases List.mem_append.mp h with h | h
          · exact .inl h
          · rw [List.mem_singleton] at h
            subst h
            exact .inr ⟨redeem, addr, script, closed, hredeem, haddr, hscript, hevent⟩
      · exact .inl h
      · exact .inl h

theorem scanInputs_events {scripts : WatchedScripts} {tx : Transaction} {e : ChainEvent}
    (h : e ∈ (scanInputs cfg scripts tx).1) :
    ∃ input ∈ tx.inputs, ∃ redeem addr script closed,
      lastRedeem input.signatureScript = some redeem ∧ deriveP2shAddr cfg redeem = some addr ∧
      scripts addr = some script ∧
      classifySpend cfg input.signatureScript script = .ok (some e, closed) := by
  have hfold : ∀ (inputs : List TransactionInput) (acc : InputScan),
      e ∈ (inputs.foldl (scanInput cfg scripts) acc).events → e ∈ acc.events ∨
        ∃ input ∈ inputs, ∃ redeem addr script closed,
          lastRedeem input.signatureScript = some redeem ∧ deriveP2shAddr cfg redeem = some addr ∧
          scripts addr = some script ∧
          classifySpend cfg input.signatureScript script = .ok (some e, closed) := by
    intro inputs
    induction inputs with
    | nil => exact fun acc he => .inl he
    | cons input inputs ih =>
      intro acc he
      rcases ih _ he with he | ⟨input', hinput', hspend⟩
      · rcases scanInput_events he with he | hspend
        · exact .inl he
        · exact .inr ⟨input, by simp, hspend⟩
      · exact .inr ⟨input', by simp [hinput'], hspend⟩
  rcases hfold tx.inputs ⟨[], [], []⟩ h with h | h
  · cases h
  · exact h

private theorem scanInputs_sourced {scripts : WatchedScripts} {tx : Transaction} :
    ∀ e ∈ (scanInputs cfg scripts tx).1, Sourced cfg.channelId e := by
  intro e he m hm
  obtain ⟨input, -, redeem, addr, script, closed, -, -, -, hspend⟩ := scanInputs_events he
  obtain ⟨sigOpcodes, redeemOpcodes, c, -, -, -, ⟨secret, -, rfl⟩ | ⟨-, rfl⟩⟩ :=
    classifySpend_eq_ok hspend
  · cases hm
  · cases hm

private theorem handleTransactions_sourced {txs : List Transaction}
    {scripts scripts' : WatchedScripts}
    {acc outcomes : BlockOutcomes}
    (h : handleTransactions cfg txs scripts acc = (.ok outcomes, scripts'))
    (hacc : ∀ e ∈ acc.events, Sourced cfg.channelId e) :
    ∀ e ∈ outcomes.events, Sourced cfg.channelId e := by
  induction txs generalizing scripts acc with
  | nil =>
    cases h
    exact hacc
  | cons tx txs ih =>
    unfold handleTransactions at h
    split at h
    · cases h
    · rename_i found hfound
      refine ih h ?_
      simp only [BlockOutcomes.append, List.forall_mem_append]
      exact ⟨⟨hacc, scanOutputs_sourced hfound⟩, scanInputs_sourced⟩

private theorem State.processBlocks_sourced {blocks : List Block} {st st' : State}
    {events events' : List (ChannelId × ChainEvent)}
    (h : processBlocks cfg now blocks st events = (.ok events', st'))
    (hold : ∀ x ∈ events, Sourced x.1 x.2) : ∀ x ∈ events', Sourced x.1 x.2 := by
  induction blocks generalizing st events with
  | nil =>
    cases h
    exact hold
  | cons block blocks ih =>
    unfold processBlocks at h
    split at h
    · cases h
    · rename_i found st₁ hblock
      refine ih h ?_
      rw [List.forall_mem_append]
      refine ⟨hold, ?_⟩
      intro x hx
      obtain ⟨e, he, rfl⟩ := List.mem_map.mp hx
      unfold processBlock at hblock
      split at hblock
      · cases hblock
      · rename_i outcomes scripts hadded
        cases hblock
        exact handleTransactions_sourced hadded (by simp) e he

end Kaspa

/-- The two channels of a locked swap that is not resolved yet. -/
structure SwapRecord.Open (r : SwapRecord) (counter : CommitmentV1) (a b : ChannelId) : Prop where
  counterCommitment : r.counterCommitment = some counter
  resolution : r.resolution = none
  init_source : r.initCommitment.source = a.toByte
  counter_source : counter.source = b.toByte
  secretHash : r.initCommitment.secretHash = counter.secretHash
  ne : a ≠ b

theorem SwapRecord.Sound.open {r : SwapRecord} (h : r.Sound) {counter : CommitmentV1}
    (hcounter : r.counterCommitment = some counter) (hres : r.resolution = none) :
    ∃ a b, r.Open counter a b := by
  obtain ⟨a, ha⟩ := h.init_source
  obtain ⟨b, hb⟩ := h.counter_source counter hcounter
  obtain ⟨hmirror, hne⟩ := h.mirrors counter hcounter
  refine ⟨a, b, hcounter, hres, ha, hb, hmirror.secretHash, ?_⟩
  rintro rfl
  exact hne (ha.trans hb.symm)

theorem ChannelId.tryFrom_toByte (c : ChannelId) : ChannelId.tryFrom c.toByte = .ok c := by
  simp [ChannelId.tryFrom]

namespace Handler
open SwapTracker

variable {h : Handler} {t : SwapTracker} {rec : SwapRecord} {counter : CommitmentV1}
  {a b : ChannelId}

/-- The right secret of an open swap resolves it and is broadcast to the other leg. -/
theorem onChainEvent_open (hopen : rec.Open counter a b) {r : RevealV1}
    (ht : t r.swapId = some rec) (hsecret : h.sha256 r.secret.data = counter.secretHash)
    (source : ChannelId) (clock : ChainClock) :
    h.onChainEvent t source (.reveal r) clock =
      (.ok [.broadcast (if a = source then b else a) (.reveal r)],
        t.insert r.swapId { rec with resolution := some (Resolution.revealed r.secret).text }) := by
  have hrevealed : h.handleExternalReveal t r =
      .ok (t.insert r.swapId { rec with resolution := some (Resolution.revealed r.secret).text }) :=
    lift_eq_ok.mpr (setRevealed_eq_ok.mpr
      ⟨rec, counter, ht, hopen.counterCommitment, hopen.resolution, hsecret, rfl⟩)
  have hinit := hopen.init_source
  have hcounter := hopen.counter_source
  have hhash := hopen.secretHash
  simp only [onChainEvent, hrevealed, Prod.mk.injEq, and_true]
  by_cases hsource : a = source
  · subst hsource
    simp [revealEffects, getCounterpartyChannelId, getCommitmentForChannel,
      hopen.counterCommitment, hinit, hcounter, ChannelId.tryFrom_toByte, hopen.ne, hsecret, bind,
      Except.bind, pure, Except.pure]
  · simp [revealEffects, getCounterpartyChannelId, getCommitmentForChannel,
      hopen.counterCommitment, hinit, hcounter, ChannelId.tryFrom_toByte, hsource, hhash, hsecret,
      bind, Except.bind, pure, Except.pure]

end Handler

namespace Node

variable {RpcLog : Type} {cfg : NodeConfig RpcLog} {n : Node}

/-- Waiting commitments name their channel, and the records are sound. -/
structure Sound (n : Node) : Prop where
  events : ∀ x ∈ n.events, Sourced x.1 x.2
  records : RecordsSound n.tracker

theorem events_step {now : UInt64} {i : NodeInput RpcLog} (h : ∀ x ∈ n.events, Sourced x.1 x.2) :
    ∀ x ∈ (n.step cfg now i).events, Sourced x.1 x.2 := by
  cases i with
  | gossipReveal r => rwa [step, events_onReveal]
  | gossipScript s =>
    obtain ⟨seen, kaspa, heq⟩ := onScriptAnnounce_eq cfg now s n
    rwa [step, heq]
  | pollEvm c rpc =>
    simp only [step, pollEvm]
    split_ifs
    · exact h
    · split
      · exact h
      · rename_i events st hpoll
        rw [List.forall_mem_append]
        exact ⟨h, Evm.State.pollFinalized_sourced hpoll⟩
  | pollKaspa =>
    simp only [step, pollKaspa]
    split_ifs
    · exact h
    · split
      · exact h
      · rename_i events st hpoll
        rw [List.forall_mem_append]
        exact ⟨h, Kaspa.State.processBlocks_sourced hpoll (by simp)⟩
  | applyEvent moment =>
    simp only [step, applyEvent]
    split_ifs
    · exact h
    · split
      · exact h
      · rename_i source event events hevents
        rw [hevents, List.forall_mem_cons] at h
        split <;> exact h.2
  | broadcast j sent network =>
    simp only [step]
    split
    · exact h
    · rename_i c event _
      obtain ⟨evm, kaspa, heq⟩ := broadcastEvent_eq cfg now sent network c event
        { n with outbox := n.outbox.eraseIdx j }
      rwa [heq]
  | receiveBlock b => exact h
  | settledEvm c k => exact h
  | failedEvm c k => exact h
  | failedKaspa k => exact h
  | cleanup => exact h

theorem Sound.step (h : n.Sound) (now : UInt64) (i : NodeInput RpcLog) :
    (n.step cfg now i).Sound := by
  refine ⟨events_step h.events, ?_⟩
  rcases step_move cfg n now i with hmove | ⟨-, hcleanup⟩
  · refine hmove.recordsSound ?_ h.records
    rintro c ⟨source, hc⟩
    exact ⟨source, h.events _ hc c rfl⟩
  · rw [hcleanup]
    exact forall_cleanup h.records _ _

theorem Sound.run (h : n.Sound) (cfg : NodeConfig RpcLog) (ins : List (UInt64 × NodeInput RpcLog)) :
    (n.run cfg ins).Sound :=
  run_induction cfg (Q := fun _ => True) h (fun _ now i hn _ => hn.step now i) ins
    fun _ _ => trivial

theorem sound_start (cursor : ChannelId → UInt64) (cap : ℕ) : (start cursor cap).Sound := by
  refine ⟨?_, ?_⟩
  · simp [start]
  · intro id r hr
    cases hr

theorem Sound.live (h : n.Sound) (x : LifeInput RpcLog) : (n.live cfg x).Sound := by
  cases x with
  | step now i => exact h.step now i
  | restart boot =>
    refine ⟨nofun, ?_⟩
    intro id r hr
    cases hr

end Node
end Stroemnet
