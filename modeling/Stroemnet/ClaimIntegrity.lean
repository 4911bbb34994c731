import Stroemnet.AnnouncedScripts
import Stroemnet.GuardedRuns
import Stroemnet.EvmLogFidelity
import Stroemnet.RecordSources

/-! # Secrets of pending claims

A claim enters a channel only through a broadcast, and a reveal is broadcast for a chain event
with the right secret or for whatever a peer sent. So the claims of a swap carry right secrets
as long as its gossiped reveals do. -/
namespace Stroemnet

/-- What an emitted event may do to the pending claims and the attempts of a channel: a reveal is
queued, and nothing else changes them. -/
inductive Emitted (now : UInt64) (claims : List RevealV1) (queue : RetryQueue) :
    ChainEvent → List RevealV1 → RetryQueue → Prop
  | same (event : ChainEvent) : Emitted now claims queue event claims queue
  | queued (r : RevealV1) : Emitted now claims queue (.reveal r) (pushPendingClaim claims r)
      (queue.ensure (.claim r.swapId) now)

theorem Emitted.source {now : UInt64} {claims claims' : List RevealV1} {queue queue' : RetryQueue}
    {event : ChainEvent} (h : Emitted now claims queue event claims' queue') {r : RevealV1}
    (hr : r ∈ claims') : r ∈ claims ∨ event = .reveal r := by
  cases h with
  | same => exact .inl hr
  | queued r' =>
    rcases mem_pushPendingClaim hr with hr | rfl
    · exact .inl hr
    · exact .inr rfl

theorem Emitted.kept {now : UInt64} {claims claims' : List RevealV1} {queue queue' : RetryQueue}
    {event : ChainEvent} (h : Emitted now claims queue event claims' queue') {r : RevealV1}
    {k : ActionKey} (hkept : r ∈ claims ∧ (queue k).isSome) :
    r ∈ claims' ∧ (queue' k).isSome := by
  cases h with
  | same => exact hkept
  | queued r' => exact ⟨mem_pushPendingClaim_of_mem hkept.1, RetryQueue.isSome_ensure hkept.2⟩

namespace Evm.State

variable {RpcLog : Type} {cfg : Config} {now : UInt64}

theorem trackActionableEvent_claims (st : State) (event : ChainEvent) :
    (st.trackActionableEvent cfg now event).pendingClaims ⊆ st.pendingClaims := by
  cases event with
  | commitment c =>
    simp only [trackActionableEvent, persistSwap_pendingClaims]
    split_ifs <;> exact List.Subset.refl _
  | reveal r => exact List.filter_subset_self _
  | refund r => exact List.filter_subset_self _

private theorem trackLogs_claims (cfg : Config) (now : UInt64) (codec : LogCodec RpcLog)
    (logs : List RpcLog) (st : State) (events : List (ChannelId × ChainEvent)) :
    (trackLogs codec cfg now logs st events).2.pendingClaims ⊆ st.pendingClaims := by
  induction logs generalizing st events with
  | nil => exact List.Subset.refl _
  | cons log logs ih =>
    unfold trackLogs
    split
    · exact List.Subset.refl _
    · exact ih st events
    · exact List.Subset.trans (ih _ _) (st.trackActionableEvent_claims _)

private theorem pollFinalized_claims (cfg : Config) (now : UInt64) (codec : LogCodec RpcLog)
    (rpc : Rpc RpcLog) (st : State) :
    (st.pollFinalized codec cfg now rpc).2.pendingClaims ⊆ st.pendingClaims := by
  unfold pollFinalized
  split_ifs
  · exact List.Subset.refl _
  · have hlogs := trackLogs_claims cfg now codec
      (st.poll.pollOnce rpc cfg.minimumBlockConfirmations cfg.maxBlocksPerPoll).1
      { st with
        nextPollSecs := now + cfg.pollIntervalSecs
        poll := (st.poll.pollOnce rpc cfg.minimumBlockConfirmations cfg.maxBlocksPerPoll).2
        storedCursor := some
          (st.poll.pollOnce rpc cfg.minimumBlockConfirmations cfg.maxBlocksPerPoll).2.cursor } []
    simp only
    split
    · rename_i h
      rwa [h] at hlogs
    · rename_i h
      rw [h] at hlogs
      split <;> exact hlogs

private theorem recordSuccess_claims (st : State) (k : ActionKey) :
    (st.recordSuccess k).pendingClaims ⊆ st.pendingClaims := by
  unfold recordSuccess
  cases k.action with
  | claim => exact List.filter_subset_self _
  | refund => exact List.Subset.refl _

theorem emitEvent_emitted (cfg : Config) (now : UInt64) (sent : Except DataError Unit) (st : State)
    (event : ChainEvent) : Emitted now st.pendingClaims st.queue event
      (st.emitEvent cfg now sent event).2.pendingClaims
      (st.emitEvent cfg now sent event).2.queue := by
  cases event with
  | commitment c =>
    simp only [emitEvent]
    split_ifs
    · split <;> exact .same _
    · exact .same _
  | reveal r =>
    simp only [emitEvent]
    split_ifs
    · exact .queued r
    · exact .same _
  | refund r => exact .same _

end Evm.State

namespace Kaspa.State

variable {cfg : Config} {now : UInt64}

theorem trackActionableEvent_claims (st : State) (event : ChainEvent) :
    (st.trackActionableEvent cfg event).pendingClaims ⊆ st.pendingClaims := by
  cases event with
  | commitment c => exact List.Subset.refl _
  | reveal r => exact List.filter_subset_self _
  | refund r => exact List.filter_subset_self _

private theorem trackEvents_claims (events : List ChainEvent) (st : State) :
    (events.foldl (trackActionableEvent cfg) st).pendingClaims ⊆ st.pendingClaims := by
  induction events generalizing st with
  | nil => exact List.Subset.refl _
  | cons event events ih => exact List.Subset.trans (ih _) (st.trackActionableEvent_claims event)

@[simp] theorem scheduleRefund_claims (st : State) (refund : SwapId × UInt64) :
    (st.scheduleRefund now refund).pendingClaims = st.pendingClaims := by
  unfold scheduleRefund
  split <;> rfl

private theorem scheduleRefunds_claims (refunds : List (SwapId × UInt64)) (st : State) :
    (refunds.foldl (scheduleRefund now) st).pendingClaims = st.pendingClaims := by
  induction refunds generalizing st with
  | nil => rfl
  | cons refund refunds ih => rw [List.foldl_cons, ih, scheduleRefund_claims]

private theorem processBlock_claims (cfg : Config) (now : UInt64) (st : State) (block : Block) :
    (st.processBlock cfg now block).2.pendingClaims ⊆ st.pendingClaims := by
  unfold processBlock
  split
  · exact List.Subset.refl _
  · rename_i outcomes scripts h
    simp only
    refine List.Subset.trans (trackEvents_claims _ _) ?_
    split_ifs
    · rw [scheduleRefunds_claims]
      exact List.Subset.refl _
    · exact List.Subset.refl _

private theorem processBlocks_claims (cfg : Config) (now : UInt64) (blocks : List Block)
    (st : State)
    (events : List (ChannelId × ChainEvent)) :
    (processBlocks cfg now blocks st events).2.pendingClaims ⊆ st.pendingClaims := by
  refine processBlocks_induction (P := fun st' => st'.pendingClaims ⊆ st.pendingClaims)
    (fun st' block h => ?_) (fun st' h => h) blocks (List.Subset.refl _) events
  exact List.Subset.trans (st'.processBlock_claims cfg now block) h

private theorem registerScript_claims (st : State) (address : String) (redeem : Bytes) (id : SwapId)
    (unlockTs : UInt64) (depositTarget : String) :
    (st.registerScript cfg now address redeem id unlockTs depositTarget).2.pendingClaims =
      st.pendingClaims := by
  unfold registerScript
  split <;> rfl

theorem emitEvent_emitted (cfg : Config) (now : UInt64) (network : Except KaspaError Network)
    (st : State) (event : ChainEvent) : Emitted now st.pendingClaims st.queue event
      (st.emitEvent cfg now network event).2.pendingClaims
      (st.emitEvent cfg now network event).2.queue := by
  cases event with
  | commitment c =>
    simp only [emitEvent]
    split_ifs
    · split <;> exact .same _
    · exact .same _
  | reveal r =>
    simp only [emitEvent]
    split_ifs
    · exact .queued r
    · exact .same _
  | refund r => exact .same _

end Kaspa.State

namespace Node

variable {RpcLog : Type} {cfg : NodeConfig RpcLog} {n : Node} {c : ChannelId} {r : RevealV1}

theorem pendingClaims_setEvm {c' : ChannelId} {st : Evm.State}
    (h : r ∈ (n.setEvm c' st).pendingClaims c) :
    r ∈ n.pendingClaims c ∨ c' = c ∧ c.isEvm ∧ r ∈ st.pendingClaims := by
  unfold pendingClaims at h ⊢
  split_ifs at h ⊢ with hevm
  · by_cases heq : c = c'
    · subst heq
      simp only [setEvm, Function.update_self] at h
      exact .inr ⟨rfl, hevm, h⟩
    · simp only [setEvm, Function.update_of_ne heq] at h
      exact .inl h
  · exact .inl h

theorem pendingClaims_of_kaspa {n' : Node} (h : r ∈ n'.pendingClaims c)
    (hevm : n'.evm = n.evm) (hkaspa : n'.kaspa.pendingClaims ⊆ n.kaspa.pendingClaims) :
    r ∈ n.pendingClaims c := by
  unfold pendingClaims at h ⊢
  split_ifs at h ⊢
  · rwa [hevm] at h
  · exact hkaspa h

private theorem pendingClaims_pollEvm {now : UInt64} {c' : ChannelId} {rpc : Evm.Rpc RpcLog}
    (h : r ∈ (n.pollEvm cfg now c' rpc).pendingClaims c) : r ∈ n.pendingClaims c := by
  have hpoll := (n.evm c').pollFinalized_claims (cfg.evm c') now cfg.codec rpc
  have hset : ∀ st, st.pendingClaims ⊆ (n.evm c').pendingClaims →
      r ∈ (n.setEvm c' st).pendingClaims c → r ∈ n.pendingClaims c := by
    intro st hst hr
    rcases pendingClaims_setEvm hr with hr | ⟨rfl, hevm, hr⟩
    · exact hr
    · simp only [pendingClaims, hevm, if_true]
      exact hst hr
  unfold pollEvm at h
  split_ifs at h
  · exact h
  · split at h
    · rename_i hp
      rw [hp] at hpoll
      exact hset _ hpoll h
    · rename_i hp
      rw [hp] at hpoll
      exact hset _ hpoll h

private theorem pendingClaims_pollKaspa {now : UInt64}
    (h : r ∈ (n.pollKaspa cfg now).pendingClaims c) : r ∈ n.pendingClaims c := by
  have hpoll := Kaspa.State.processBlocks_claims cfg.kaspa now
    n.kaspa.safeBlocks { n.kaspa with safeBlocks := [] } []
  unfold pollKaspa at h
  split_ifs at h
  · exact h
  · unfold Kaspa.State.pollFinalized at h
    split at h
    · rename_i st hp
      rw [hp] at hpoll
      exact pendingClaims_of_kaspa h rfl hpoll
    · rename_i st hp
      rw [hp] at hpoll
      exact pendingClaims_of_kaspa h rfl hpoll

theorem pendingClaims_broadcastEvent {now : UInt64} {sent : Except DataError Unit}
    {network : Except Kaspa.KaspaError Kaspa.Network} {c' : ChannelId} {event : ChainEvent}
    (h : r ∈ (n.broadcastEvent cfg now sent network c' event).pendingClaims c) :
    r ∈ n.pendingClaims c ∨ c' = c ∧ event = .reveal r := by
  unfold broadcastEvent at h
  split_ifs at h with hmem hevm
  · rcases pendingClaims_setEvm h with h | ⟨rfl, hevm', h⟩
    · exact .inl h
    · simp only [pendingClaims, hevm', if_true, true_and]
      exact (Evm.State.emitEvent_emitted _ _ _ _ _).source h
  · unfold pendingClaims at h ⊢
    split_ifs at h ⊢ with hc
    · exact .inl h
    · have hcc : c' = c :=
        (ChannelId.eq_kaspaTn10_of_not_isEvm hevm).trans
          (ChannelId.eq_kaspaTn10_of_not_isEvm hc).symm
      exact ((Kaspa.State.emitEvent_emitted _ _ _ _ _).source h).imp_right fun he => ⟨hcc, he⟩
  · exact .inl h

/-- A step adds a claim to a channel only by the broadcast of that reveal to it. -/
theorem pendingClaims_step {now : UInt64} {i : NodeInput RpcLog}
    (h : r ∈ (n.step cfg now i).pendingClaims c) :
    r ∈ n.pendingClaims c ∨ (c, .reveal r) ∈ n.outbox := by
  cases i with
  | gossipReveal r' =>
    unfold pendingClaims at h ⊢
    rw [step, evm_onReveal, kaspa_onReveal] at h
    exact .inl h
  | gossipScript s =>
    left
    simp only [step, onScriptAnnounce] at h
    split_ifs at h
    · exact h
    · split at h
      · exact h
      · refine pendingClaims_of_kaspa h rfl ?_
        rw [Kaspa.State.registerScript_claims]
        exact List.Subset.refl _
    · split at h <;> exact h
  | pollEvm c' rpc => exact .inl (pendingClaims_pollEvm h)
  | receiveBlock b => exact .inl h
  | pollKaspa => exact .inl (pendingClaims_pollKaspa h)
  | applyEvent moment =>
    unfold pendingClaims at h ⊢
    rw [step, evm_applyEvent, kaspa_applyEvent] at h
    exact .inl h
  | broadcast j sent network =>
    simp only [step] at h
    split at h
    · exact .inl h
    · rename_i c' event hj
      rcases pendingClaims_broadcastEvent h with h | ⟨rfl, rfl⟩
      · exact .inl h
      · exact .inr (List.mem_of_getElem? hj)
  | settledEvm c' k =>
    rcases pendingClaims_setEvm h with h | ⟨rfl, hevm, h⟩
    · exact .inl h
    · left
      simp only [pendingClaims, hevm, if_true]
      exact Evm.State.recordSuccess_claims _ _ h
  | failedEvm c' k =>
    rcases pendingClaims_setEvm h with h | ⟨rfl, hevm, h⟩
    · exact .inl h
    · left
      simp only [pendingClaims, hevm, if_true]
      exact h
  | failedKaspa k => exact .inl h
  | cleanup => exact .inl h

/-- A reveal is put into the outbox because a peer sent it or because it opens a locked
record. -/
theorem outbox_step {now : UInt64} {i : NodeInput RpcLog}
    (h : (c, .reveal r) ∈ (n.step cfg now i).outbox) :
    (c, .reveal r) ∈ n.outbox ∨
      i = .gossipReveal r ∧ (n.seen.insert (cfg.digest (.reveal r))).1 = true ∨
      ∃ rec counter, n.tracker r.swapId = some rec ∧ rec.counterCommitment = some counter ∧
        cfg.handler.sha256 r.secret.data = counter.secretHash := by
  cases i with
  | gossipReveal r' =>
    simp only [step, onReveal] at h
    split at h
    · exact .inl h
    · rename_i hfresh
      rcases List.mem_append.mp h with h | h
      · exact .inl h
      · obtain ⟨c', -, hc'⟩ := List.mem_map.mp h
        cases hc'
        exact .inr (.inl ⟨rfl, by rw [hfresh]⟩)
  | applyEvent moment =>
    simp only [step, applyEvent] at h
    split_ifs at h
    · exact .inl h
    · split at h
      · exact .inl h
      · split at h
        · exact .inl h
        · rename_i effects t ht
          rcases List.mem_append.mp h with h | h
          · exact .inl h
          · obtain ⟨-, rec, counter, hrec, hcounter, -, hsecret⟩ :=
              Handler.onChainEvent_reveal ht (Effect.mem_broadcasts.mp h)
            exact .inr (.inr ⟨rec, counter, hrec, hcounter, hsecret⟩)
  | gossipScript s =>
    obtain ⟨seen, kaspa, heq⟩ := onScriptAnnounce_eq cfg now s n
    rw [step, heq] at h
    exact .inl h
  | pollEvm c' rpc =>
    rw [step, outbox_pollEvm] at h
    exact .inl h
  | pollKaspa =>
    rw [step, outbox_pollKaspa] at h
    exact .inl h
  | broadcast j sent network =>
    simp only [step] at h
    split at h
    · exact .inl h
    · rename_i c' event _
      obtain ⟨evm, kaspa, heq⟩ := broadcastEvent_eq cfg now sent network c' event
        { n with outbox := n.outbox.eraseIdx j }
      rw [heq] at h
      exact .inl (List.mem_of_mem_eraseIdx h)
  | receiveBlock b => exact .inl h
  | settledEvm c' k => exact .inl h
  | failedEvm c' k => exact .inl h
  | failedKaspa k => exact .inl h
  | cleanup => exact .inl h

/-- A record has been there before with the same first commitment, or the step applies the
commitment that it is made of. -/
theorem record_step {now : UInt64} {i : NodeInput RpcLog} {id : SwapId} {rec : SwapRecord}
    (h : (n.step cfg now i).tracker id = some rec) :
    (∃ rec₀, n.tracker id = some rec₀ ∧ rec.initCommitment = rec₀.initCommitment) ∨
      n.tracker id = none ∧ ∃ moment source rest, i = .applyEvent moment ∧
        n.events = (source, .commitment rec.initCommitment) :: rest ∧
        rec.initCommitment.swapId = id := by
  cases i with
  | gossipReveal r =>
    left
    simp only [step, onReveal] at h
    split at h
    · exact ⟨rec, h, rfl⟩
    · cases hr : cfg.handler.handleExternalReveal n.tracker r with
      | error e =>
        rw [hr] at h
        exact ⟨rec, h, rfl⟩
      | ok t =>
        rw [hr] at h
        have hmove : TrackerMove cfg.handler.sha256 (fun _ => False) n.tracker t :=
          Handler.handleExternalReveal_move hr
        obtain ⟨rec₀, hrec₀, hinit⟩ | ⟨-, c, hfalse, -⟩ := hmove.init_source h
        · exact ⟨rec₀, hrec₀, hinit⟩
        · exact hfalse.elim
  | applyEvent moment =>
    simp only [step, applyEvent] at h
    split_ifs at h
    · exact .inl ⟨rec, h, rfl⟩
    · split at h
      · exact .inl ⟨rec, h, rfl⟩
      · rename_i source event rest hevents
        have hmove : TrackerMove cfg.handler.sha256 (fun c => event = .commitment c) n.tracker
            (cfg.handler.handle n.tracker source event moment).2 :=
          Handler.onChainEvent_move (h := cfg.handler.priced moment.pricing) source event
            moment.clock fun c hc => hc
        have hafter : (cfg.handler.handle n.tracker source event moment).2 id = some rec := by
          split at h
          · rename_i heq
            rwa [heq]
          · rename_i heq
            rwa [heq]
        refine (hmove.init_source hafter).imp_right ?_
        rintro ⟨hnone, c, rfl, hid, rfl⟩
        exact ⟨hnone, moment, source, rest, rfl, hevents, hid⟩
  | gossipScript s =>
    rw [step, tracker_onScriptAnnounce] at h
    exact .inl ⟨rec, h, rfl⟩
  | pollEvm c rpc =>
    rw [step, tracker_pollEvm] at h
    exact .inl ⟨rec, h, rfl⟩
  | pollKaspa =>
    rw [step, tracker_pollKaspa] at h
    exact .inl ⟨rec, h, rfl⟩
  | broadcast j sent network =>
    left
    simp only [step] at h
    split at h
    · exact ⟨rec, h, rfl⟩
    · rw [tracker_broadcastEvent] at h
      exact ⟨rec, h, rfl⟩
  | receiveBlock b => exact .inl ⟨rec, h, rfl⟩
  | settledEvm c k => exact .inl ⟨rec, h, rfl⟩
  | failedEvm c k => exact .inl ⟨rec, h, rfl⟩
  | failedKaspa k => exact .inl ⟨rec, h, rfl⟩
  | cleanup => exact .inl ⟨rec, (Option.filter_eq_some_iff.mp h).1, rfl⟩

/-- Every claim of a swap, pending on a channel or on its way to one, opens a hash. -/
structure ClaimsOpen (cfg : NodeConfig RpcLog) (id : SwapId) (hash : Bytes32) (n : Node) :
    Prop where
  outbox : ∀ c r, (c, .reveal r) ∈ n.outbox → r.swapId = id →
    cfg.handler.sha256 r.secret.data = hash
  claims : ∀ c, ∀ r ∈ n.pendingClaims c, r.swapId = id → cfg.handler.sha256 r.secret.data = hash

/-- Once a swap has a record, its claims open the hash of the record. -/
def Clean (cfg : NodeConfig RpcLog) (id : SwapId) (n : Node) : Prop :=
  ∀ rec, n.tracker id = some rec → n.ClaimsOpen cfg id rec.initCommitment.secretHash

/-- The steps that keep the claims of a swap right: a new reveal of the swap from a peer opens the
hash of the record, if there is one; and when a commitment is about to make the record, the claims
that are left of the swap open its hash. -/
def Careful (cfg : NodeConfig RpcLog) (id : SwapId) (n : Node) : LifeInput RpcLog → Prop
  | .step _ (.gossipReveal r) => (n.seen.insert (cfg.digest (.reveal r))).1 = true → r.swapId = id →
      ∀ rec, n.tracker id = some rec →
        cfg.handler.sha256 r.secret.data = rec.initCommitment.secretHash
  | .step _ (.applyEvent _) => ∀ source c rest, n.events = (source, .commitment c) :: rest →
      c.swapId = id → n.tracker id = none → n.ClaimsOpen cfg id c.secretHash
  | _ => True

private theorem clean_start (cursor : ChannelId → UInt64) (cap : ℕ) (id : SwapId) :
    Clean cfg id (start cursor cap) := by
  intro rec hrec
  cases hrec

/-- The claims of a swap open the hash that its record has after a step. -/
theorem Clean.before {id : SwapId} {rec : SwapRecord} (h : Clean cfg id n) {now : UInt64}
    {i : NodeInput RpcLog} (hcareful : n.Careful cfg id (.step now i))
    (hrec : (n.step cfg now i).tracker id = some rec) :
    n.ClaimsOpen cfg id rec.initCommitment.secretHash := by
  rcases record_step hrec with ⟨rec₀, hrec₀, hinit⟩ |
    ⟨hnone, moment, source, rest, rfl, hevents, hid⟩
  · rw [hinit]
    exact h rec₀ hrec₀
  · exact hcareful source _ rest hevents hid hnone

theorem Clean.live {id : SwapId} (h : Clean cfg id n) (hsound : n.Sound) (x : LifeInput RpcLog)
    (hcareful : n.Careful cfg id x) : Clean cfg id (n.live cfg x) := by
  cases x with
  | restart boot =>
    intro rec hrec
    cases hrec
  | step now i =>
    intro rec hrec
    have hbefore := h.before hcareful hrec
    refine ⟨fun c r hr hid => ?_, fun c r hr hid => ?_⟩
    · rcases outbox_step hr with hr | ⟨rfl, hfresh⟩ | ⟨rec₀, counter, hrec₀, hcounter, hsecret⟩
      · exact hbefore.outbox c r hr hid
      · rcases record_step hrec with ⟨rec₀, hrec₀, hinit⟩ | ⟨-, _, _, _, happly, -⟩
        · rw [hinit]
          exact hcareful hfresh hid rec₀ hrec₀
        · cases happly
      · subst hid
        rcases record_step hrec with ⟨rec₁, hrec₁, hinit⟩ | ⟨hnone, -⟩
        · rw [hrec₀, Option.some.injEq] at hrec₁
          subst hrec₁
          rw [hsecret, hinit,
            ← ((hsound.records _ _ hrec₀).mirrors counter hcounter).1.secretHash]
        · rw [hnone] at hrec₀
          cases hrec₀
    · rcases pendingClaims_step hr with hr | hr
      · exact hbefore.claims c r hr hid
      · exact hbefore.outbox c r hr hid

private theorem clean_run (cursor : ChannelId → UInt64) (cap : ℕ) {id : SwapId}
    (ins : List (LifeInput RpcLog))
    (hcareful : Runs.Along (live cfg) (Careful cfg id) (start cursor cap) ins) :
    (Runs.final (live cfg) (start cursor cap) ins).Sound ∧
      Clean cfg id (Runs.final (live cfg) (start cursor cap) ins) :=
  Runs.Along.invariant (I := fun n => n.Sound ∧ Clean cfg id n)
    (fun _ x h hx => ⟨h.1.live x, h.2.live h.1 x hx⟩)
    ⟨sound_start cursor cap, clean_start cursor cap id⟩ hcareful

/-- A channel that queues a claim when a reveal of the swap is broadcast to it. -/
def TakesClaims (cfg : NodeConfig RpcLog) (n : Node) (c : ChannelId) (id : SwapId) : Prop :=
  c ∈ cfg.channels ∧ (c.isEvm → (cfg.evm c).participateCcr) ∧
    (¬ c.isEvm → cfg.kaspa.participateCcr ∧ (n.kaspa.commitments id).isSome)

/-- The first claim of a swap on a channel, which the settler works on, opens the hash. -/
def ClaimReady (cfg : NodeConfig RpcLog) (n : Node) (c : ChannelId) (id : SwapId)
    (hash : Bytes32) : Prop :=
  (∃ r, (n.pendingClaims c).find? (·.swapId = id) = some r ∧
    cfg.handler.sha256 r.secret.data = hash) ∧ (n.queue c (.claim id)).isSome

theorem broadcastEvent_reveal (now : UInt64) (sent : Except DataError Unit)
    (network : Except Kaspa.KaspaError Kaspa.Network) (h : n.TakesClaims cfg c r.swapId) :
    (n.broadcastEvent cfg now sent network c (.reveal r)).pendingClaims c =
        pushPendingClaim (n.pendingClaims c) r ∧
      ((n.broadcastEvent cfg now sent network c (.reveal r)).queue c (.claim r.swapId)).isSome := by
  obtain ⟨hc, hevmTakes, hkaspaTakes⟩ := h
  by_cases hevm : c.isEvm
  · simp [broadcastEvent, hc, hevm, Evm.State.emitEvent, hevmTakes hevm, pendingClaims, queue,
      setEvm]
  · obtain ⟨hccr, hcommitted⟩ := hkaspaTakes hevm
    simp [broadcastEvent, hc, hevm, Kaspa.State.emitEvent, hccr, hcommitted, pendingClaims, queue,
      Kaspa.State.persistSwap]

/-- In a run whose steps are careful of a swap, with clean-ups and restarts at any time, every claim
of the swap is right once it has a record, and a right reveal reaches the channels and is what they
claim with. -/
theorem claims_carry_right_secret (cfg : NodeConfig RpcLog) (cursor : ChannelId → UInt64)
    (cap : ℕ) (ins : List (LifeInput RpcLog)) (id : SwapId) (rec : SwapRecord)
    (hrec : (Runs.final (live cfg) (start cursor cap) ins).tracker id = some rec)
    (hcareful : Runs.Along (live cfg) (Careful cfg id) (start cursor cap) ins) :
    let n := Runs.final (live cfg) (start cursor cap) ins
    let hash := rec.initCommitment.secretHash
    (∀ c, ∀ r ∈ n.pendingClaims c, r.swapId = id → cfg.handler.sha256 r.secret.data = hash) ∧
      (∀ r now, r.swapId = id → cfg.handler.sha256 r.secret.data = hash →
        (n.seen.insert (cfg.digest (.reveal r))).1 = true →
        ∀ c ∈ cfg.channels, (c, .reveal r) ∈ (n.step cfg now (.gossipReveal r)).outbox) ∧
      (∀ r counter source events now moment, r.swapId = id →
        cfg.handler.sha256 r.secret.data = hash → rec.counterCommitment = some counter →
        rec.resolution = none → n.halted = false → n.events = (source, .reveal r) :: events →
        ∃ a b : ChannelId, rec.initCommitment.source = a.toByte ∧ counter.source = b.toByte ∧
          ((if a = source then b else a), .reveal r) ∈
            (n.step cfg now (.applyEvent moment)).outbox) ∧
      (∀ i c r now sent network, n.outbox[i]? = some (c, .reveal r) → r.swapId = id →
        n.TakesClaims cfg c id →
        (n.step cfg now (.broadcast i sent network)).ClaimReady cfg c id hash) := by
  intro n hash
  obtain ⟨hsound, hclean⟩ : n.Sound ∧ Clean cfg id n := clean_run cursor cap ins hcareful
  have hopen : n.ClaimsOpen cfg id hash := hclean rec hrec
  refine ⟨hopen.claims, ?_, ?_, ?_⟩
  · intro r now hid hsecret hfresh c hc
    simp only [step, onReveal]
    split
    · rename_i heq
      rw [heq] at hfresh
      cases hfresh
    · exact List.mem_append_right _ (List.mem_map_of_mem hc)
  · intro r counter source events now moment hid hsecret hcounter hres hhalted hevents
    obtain ⟨a, b, hlocked⟩ := (hsound.records id rec hrec).open hcounter hres
    subst hid
    have heffects : cfg.handler.handle n.tracker source (.reveal r) moment = _ :=
      Handler.onChainEvent_open (h := cfg.handler.priced moment.pricing) hlocked hrec
        (hsecret.trans hlocked.secretHash) source moment.clock
    refine ⟨a, b, hlocked.init_source, hlocked.counter_source, ?_⟩
    simp only [step, applyEvent, hhalted, Bool.false_eq_true, if_false, hevents, heffects]
    exact List.mem_append_right _ (by simp [Effect.broadcasts])
  · intro i c r now sent network hi hid htakes
    subst hid
    have hright := hopen.outbox c r (List.mem_of_getElem? hi) rfl
    simp only [step, hi]
    obtain ⟨hclaims, hqueue⟩ :=
      broadcastEvent_reveal (n := { n with outbox := n.outbox.eraseIdx i }) now sent network htakes
    refine ⟨?_, hqueue⟩
    rw [hclaims]
    obtain ⟨r', hr', hid'⟩ := exists_pushPendingClaim (n.pendingClaims c) r
    obtain ⟨r₀, hr₀⟩ := Option.isSome_iff_exists.mp
      ((List.find?_isSome (p := fun x => x.swapId = r.swapId)).mpr ⟨r', hr', by simpa using hid'⟩)
    refine ⟨r₀, hr₀, ?_⟩
    rcases mem_pushPendingClaim (List.mem_of_find?_eq_some hr₀) with hmem | rfl
    · exact hopen.claims c r₀ hmem (by simpa using List.find?_some hr₀)
    · exact hright

end Node

def sampleWrongSecret : Bytes32 := .filled 8

/-- The digests of the sample secret and of a wrong one. -/
def sampleSha256 (b : Bytes) : Bytes32 :=
  if b = Htlc.sampleSecret then Htlc.sampleSecretHash
  else if b = sampleWrongSecret.data then
    ⟨[37, 120, 204, 248, 100, 91, 45, 29, 193, 12, 70, 94, 255, 132, 53, 133, 151, 15, 58, 126, 34,
      41, 106, 146, 202, 213, 93, 72, 154, 39, 32, 114], rfl⟩
  else default

def userAddress : String := "0x1111111111111111111111111111111111111111"

def providerAddress : String := "0x2222222222222222222222222222222222222222"

def samplePricing : Pricing :=
  ⟨fun _ => true, fun _ _ _ => false, fun _ _ _ => false, fun _ _ _ => some 1000⟩

/-- A liquidity provider on all channels. -/
def sampleNode : NodeConfig Evm.Log where
  handler :=
    { sha256 := sampleSha256
      pricing := samplePricing
      commitBufferSecs := 60
      addressLookupTable := fun
        | .kaspaTn10 => some "kaspatest:qqqszqgpqyqszqgpqyqszqgpqyqszqgpqyqszqgpqyqszqgpqyqszapw00vun"
        | _ => some providerAddress }
  channels := ChannelId.all
  codec := Evm.plainCodec
  evm c := ⟨c, 1, 0, 100, true, true, fun _ => default⟩
  evm_channelId _ := rfl
  kaspa :=
    ⟨Kaspa.sampleCodec, Kaspa.sampleBlake2b, .kaspaTn10, "testnet-10", .testnet, 604800, true, true⟩
  kaspa_channelId := rfl
  digest
    | .reveal r => r.secret
    | .scriptAnnounce s => s.swapId
    | _ => default

/-- The first commitment of a swap, made to the provider. -/
def sampleInitLog : Evm.Log :=
  .commitment ⟨.filled 3, 0x1111111111111111111111111111111111111111,
    0x2222222222222222222222222222222222222222, utf8Bytes userAddress, 2000, Htlc.sampleSecretHash,
    10000, 2⟩

/-- The provider's own commitment for the same swap. -/
def sampleCounterLog : Evm.Log :=
  .commitment ⟨.filled 3, 0x2222222222222222222222222222222222222222,
    0x1111111111111111111111111111111111111111, utf8Bytes providerAddress, 1000,
    Htlc.sampleSecretHash, 3700, 1⟩

/-- A poll that finds the given logs. -/
def samplePoll (c : ChannelId) (block : UInt64) (log : Evm.Log) : NodeInput Evm.Log :=
  .pollEvm c ⟨some block, fun _ _ => some [log], some 100⟩

def sampleApply : NodeInput Evm.Log := .applyEvent ⟨⟨fun _ => some 100, 100⟩, samplePricing⟩

def sampleBroadcast : NodeInput Evm.Log := .broadcast 0 (.ok ()) (.ok .testnet)

/-- Both commitments are observed and the provider has made its own. -/
def lockingRun : List (UInt64 × NodeInput Evm.Log) :=
  [(100, samplePoll .ethereumSepolia 50 sampleInitLog), (100, sampleApply), (100, sampleBroadcast),
    (110, samplePoll .igraGalleon 50 sampleCounterLog), (110, sampleApply)]

/-- A reveal from a peer, and its broadcasts to all channels. -/
def gossipRun (secret : Bytes32) : List (UInt64 × NodeInput Evm.Log) :=
  [(120, .gossipReveal ⟨.filled 3, secret⟩), (120, sampleBroadcast), (120, sampleBroadcast),
    (120, sampleBroadcast)]

def sampleStart : Node := Node.start (fun _ => 0) 50000

namespace Node

/-- A wrong reveal that comes first is what the channels claim with, also after the right one. -/
theorem wrong_reveal_poisons_claims :
    (((sampleStart.run sampleNode lockingRun).tracker (.filled 3)).map fun rec =>
        (rec.initCommitment.secretHash, rec.counterCommitment.isSome)) =
          some (Htlc.sampleSecretHash, true) ∧
      (sampleStart.run sampleNode
        (lockingRun ++ gossipRun sampleWrongSecret ++ gossipRun (.filled 7))).pendingClaims
          .ethereumSepolia = [⟨.filled 3, sampleWrongSecret⟩] ∧
      sampleSha256 sampleWrongSecret.data ≠ Htlc.sampleSecretHash ∧
      sampleSha256 (Bytes32.filled 7).data = Htlc.sampleSecretHash := by
  decide +kernel

/-- With nothing pending and nothing to be broadcast, an event may be applied. -/
theorem careful_apply {RpcLog : Type} {cfg : NodeConfig RpcLog} {n : Node} (id : SwapId)
    (now : UInt64) (moment : Moment) (houtbox : n.outbox = [])
    (hclaims : ∀ c ∈ ChannelId.all, n.pendingClaims c = []) :
    n.Careful cfg id (.step now (.applyEvent moment)) := by
  intro source c rest hevents hid hnone
  refine ⟨fun c' r hr => ?_, fun c' r hr => ?_⟩
  · rw [houtbox] at hr
    cases hr
  · rw [hclaims c' (by cases c' <;> decide)] at hr
    cases hr

/-- A life that starts again, locks a swap, cleans up and hears of the secret. -/
def sampleLife : List (LifeInput Evm.Log) :=
  .restart (fun _ => ⟨90, 0, [], fun _ => none⟩) ::
    (lockingRun ++ (115, .cleanup) :: gossipRun (.filled 7)).map fun x => .step x.1 x.2

private theorem sampleLife_careful :
    Runs.Along (live sampleNode) (Careful sampleNode (.filled 3)) sampleStart sampleLife := by
  refine ⟨trivial, trivial, careful_apply _ _ _ (by decide +kernel) (by decide +kernel), trivial,
    trivial, careful_apply _ _ _ (by decide +kernel) (by decide +kernel), trivial, ?_, trivial,
    trivial, trivial, trivial⟩
  intro hfresh hid rec hrec
  have hhash : ((Runs.final (live sampleNode) sampleStart (sampleLife.take 7)).tracker
      (.filled 3)).map (·.initCommitment.secretHash) = some Htlc.sampleSecretHash := by
    decide +kernel
  obtain ⟨rec', hrec', hsecretHash⟩ := Option.map_eq_some_iff.mp hhash
  obtain rfl : rec' = rec := Option.some.inj (hrec'.symm.trans hrec)
  rw [hsecretHash]
  decide +kernel

theorem claims_carry_right_secret_sample :
    (Runs.final (live sampleNode) sampleStart sampleLife).pendingClaims .ethereumSepolia ≠ [] ∧
      ∀ r ∈ (Runs.final (live sampleNode) sampleStart sampleLife).pendingClaims .ethereumSepolia,
        r.swapId = .filled 3 → sampleSha256 r.secret.data = Htlc.sampleSecretHash := by
  have hhash : ((Runs.final (live sampleNode) sampleStart sampleLife).tracker (.filled 3)).map
      (·.initCommitment.secretHash) = some Htlc.sampleSecretHash := by
    decide +kernel
  obtain ⟨rec, hrec, hrecHash⟩ := Option.map_eq_some_iff.mp hhash
  refine ⟨by decide +kernel, ?_⟩
  rw [← hrecHash]
  exact (claims_carry_right_secret sampleNode (fun _ => 0) 50000 sampleLife (.filled 3) rec hrec
    sampleLife_careful).1 .ethereumSepolia

end Node
end Stroemnet
