import Stroemnet.AcceptedTransactions
import Stroemnet.DeliveryOrder
import Stroemnet.NodeRestart

/-! # Restarts

A node that starts again reads the rows and the cursors that its channels have stored. The
swap tracker and the watched addresses are not stored, so that a claim of the own commitment
is forwarded only when it had been queued before. -/
namespace Stroemnet

theorem mem_restore_pendingClaims {rows : SwapRows} {boot : Boot} (hboot : boot.Lists rows)
    {r : RevealV1} : r ∈ (restore rows boot.order).pendingClaims ↔
      ∃ id p, rows id = some p ∧ p.pendingClaim = some r := by
  simp only [restore, List.mem_filterMap, Option.bind_eq_some_iff]
  constructor
  · rintro ⟨id, -, p, hp, hr⟩
    exact ⟨id, p, hp, hr⟩
  · rintro ⟨id, p, hp, hr⟩
    exact ⟨id, (hboot id).mpr (by rw [hp]; rfl), p, hp, hr⟩

theorem isSome_foldl_ensure {α : Type} (key : α → ActionKey) (now : UInt64) {k : ActionKey}
    (xs : List α) (q : RetryQueue) :
    (xs.foldl (fun q x => q.ensure (key x) now) q k).isSome ↔
      (q k).isSome ∨ ∃ x ∈ xs, key x = k := by
  induction xs generalizing q with
  | nil => simp
  | cons x xs ih =>
    rw [List.foldl_cons, ih, RetryQueue.isSome_ensure_iff, List.exists_mem_cons_iff, or_assoc,
      eq_comm (a := k)]

theorem isSome_seedQueue {restored : RestoredSwaps} {r : RevealV1}
    (h : r ∈ restored.pendingClaims) (now : UInt64) :
    (seedQueue restored now (.claim r.swapId)).isSome :=
  (isSome_foldl_ensure (fun p : RefundV1 × UInt64 => .refund p.1.swapId) now _ _).mpr
    (.inl ((isSome_foldl_ensure (fun c : RevealV1 => .claim c.swapId) now _ _).mpr
      (.inr ⟨r, h, rfl⟩)))

namespace Evm.State

private theorem mem_foldl_recordSuccess {keys : List ActionKey} {st : State} {r : RevealV1} :
    r ∈ (keys.foldl recordSuccess st).pendingClaims ↔
      r ∈ st.pendingClaims ∧ ActionKey.claim r.swapId ∉ keys := by
  induction keys generalizing st with
  | nil => simp
  | cons k keys ih =>
    have hk : r ∈ (st.recordSuccess k).pendingClaims ↔
        r ∈ st.pendingClaims ∧ ActionKey.claim r.swapId ≠ k := by
      obtain ⟨id, action⟩ := k
      cases action with
      | claim => simp [recordSuccess, ActionKey.claim]
      | refund => simp [recordSuccess, ActionKey.claim]
    rw [List.foldl_cons, ih, hk, List.mem_cons, not_or, and_assoc]

private theorem queue_foldl_recordSuccess {keys : List ActionKey} {st : State} {k : ActionKey}
    (hk : k ∉ keys) : (keys.foldl recordSuccess st).queue k = st.queue k := by
  induction keys generalizing st with
  | nil => rfl
  | cons k' keys ih =>
    rw [List.mem_cons, not_or] at hk
    rw [List.foldl_cons, ih hk.2]
    obtain ⟨id, action⟩ := k'
    cases action with
    | claim => exact RetryQueue.recordSuccess_of_ne hk.1
    | refund => exact RetryQueue.recordSuccess_of_ne hk.1

end Evm.State

def Node.Queued (a : ChannelId) (r : RevealV1) (n : Node) : Prop :=
  r ∈ n.pendingClaims a ∧ (n.queue a (.claim r.swapId)).isSome

/-- A claim is stored on a channel, and the chain does not say on boot that it is settled. -/
def Node.ClaimStored (boot : ChannelId → Boot) (a : ChannelId) (r : RevealV1) (n : Node) : Prop :=
  (∃ id p, n.rows a id = some p ∧ p.pendingClaim = some r) ∧
    (a.isEvm → ActionKey.claim r.swapId ∉ Evm.reconciled (boot a) (n.rows a))

namespace Node

variable {RpcLog : Type} {cfg : NodeConfig RpcLog} {n : Node} {boot : ChannelId → Boot}

theorem mem_restart_pendingClaims {a : ChannelId} (hboot : (boot a).Lists (n.rows a))
    {r : RevealV1} :
    r ∈ (n.restart cfg boot).pendingClaims a ↔ n.ClaimStored boot a r := by
  unfold ClaimStored
  by_cases ha : a.isEvm
  · simp only [rows, ha, if_true, forall_const] at hboot ⊢
    simp only [pendingClaims, ha, if_true, restart, Evm.connect,
      Evm.State.mem_foldl_recordSuccess, mem_restore_pendingClaims hboot]
  · obtain rfl := ChannelId.eq_kaspaTn10_of_not_isEvm ha
    simp only [rows, ha] at hboot ⊢
    simp only [pendingClaims, ha, restart, Kaspa.connect]
    simpa using mem_restore_pendingClaims hboot

private theorem queued_restart {a : ChannelId} (hboot : (boot a).Lists (n.rows a)) {r : RevealV1}
    (h : n.ClaimStored boot a r) : (n.restart cfg boot).Queued a r := by
  refine ⟨(mem_restart_pendingClaims hboot).mpr h, ?_⟩
  obtain ⟨hrow, hopen⟩ := h
  by_cases ha : a.isEvm
  · simp only [rows, ha, if_true] at hboot hrow hopen
    simp only [queue, ha, if_true, restart, Evm.connect]
    rw [Evm.State.queue_foldl_recordSuccess (hopen trivial)]
    exact isSome_seedQueue ((mem_restore_pendingClaims hboot).mpr hrow) _
  · obtain rfl := ChannelId.eq_kaspaTn10_of_not_isEvm ha
    simp only [rows, ha] at hboot hrow
    simp only [queue, ha, restart, Kaspa.connect]
    exact isSome_seedQueue ((mem_restore_pendingClaims hboot).mpr hrow) _

end Node

theorem RetryQueue.isSome_settled {q : RetryQueue} {id id' : SwapId} (hne : id ≠ id')
    (h : (q (.claim id')).isSome) :
    ((q.recordSuccess (.claim id)).recordSuccess (.refund id) (.claim id')).isSome := by
  have hclaim : ActionKey.claim id' ≠ .claim id := fun heq =>
    hne (congrArg ActionKey.swapId heq).symm
  have hrefund : ActionKey.claim id' ≠ .refund id := fun heq =>
    hne (congrArg ActionKey.swapId heq).symm
  rw [recordSuccess_of_ne hrefund, recordSuccess_of_ne hclaim]
  exact h

namespace Evm.State

variable {RpcLog : Type} {codec : LogCodec RpcLog} {cfg : Config} {now : UInt64} {st : State}
  {r : RevealV1}

def Holds (r : RevealV1) (st : State) : Prop :=
  r ∈ st.pendingClaims ∧ (st.queue (.claim r.swapId)).isSome

def fetched (cfg : Config) (rpc : Rpc RpcLog) (st : State) : List RpcLog :=
  (st.poll.pollOnce rpc cfg.minimumBlockConfirmations cfg.maxBlocksPerPoll).1

theorem Holds.trackActionableEvent (h : st.Holds r) {event : ChainEvent}
    (hne : event.swapId ≠ r.swapId) : (st.trackActionableEvent cfg now event).Holds r := by
  have hclaim : r ∈ st.pendingClaims.filter (·.swapId ≠ event.swapId) :=
    List.mem_filter.mpr ⟨h.1, by simpa using hne.symm⟩
  have hqueue := RetryQueue.isSome_settled hne h.2
  cases event with
  | commitment c =>
    simp only [State.trackActionableEvent]
    split_ifs
    · exact ⟨h.1, RetryQueue.isSome_ensure h.2⟩
    · exact h
  | reveal r' => exact ⟨hclaim, hqueue⟩
  | refund r' => exact ⟨hclaim, hqueue⟩

theorem Holds.trackLogs {logs : List RpcLog} (h : st.Holds r)
    (hlogs : ∀ log ∈ logs, ∀ e, decodeLog codec cfg.keccak256 log cfg.channelId = .ok (some e) →
      e.swapId ≠ r.swapId) (events : List (ChannelId × ChainEvent)) :
    (State.trackLogs codec cfg now logs st events).2.Holds r := by
  induction logs generalizing st events with
  | nil => exact h
  | cons log logs ih =>
    obtain ⟨hlog, hlogs⟩ := List.forall_mem_cons.mp hlogs
    rw [State.trackLogs]
    split
    · exact h
    · exact ih h hlogs events
    · rename_i event hevent
      exact ih (h.trackActionableEvent (hlog event hevent)) hlogs _

theorem Holds.pollFinalized {rpc : Rpc RpcLog} (h : st.Holds r)
    (hlogs : ∀ log ∈ st.fetched cfg rpc, ∀ e,
      decodeLog codec cfg.keccak256 log cfg.channelId = .ok (some e) → e.swapId ≠ r.swapId) :
    (st.pollFinalized codec cfg now rpc).2.Holds r := by
  unfold State.pollFinalized
  split_ifs
  · exact h
  · have htracked : ∀ p, (State.trackLogs codec cfg now (st.fetched cfg rpc) (st.setPoll p)
        []).2.Holds r := by
      intro p
      have hset : (st.setPoll p).Holds r := h
      exact hset.trackLogs hlogs []
    have hpolled := htracked ⟨(st.poll.pollOnce rpc cfg.minimumBlockConfirmations
      cfg.maxBlocksPerPoll).2, now + cfg.pollIntervalSecs, st.lastBlockTs,
      some (st.poll.pollOnce rpc cfg.minimumBlockConfirmations cfg.maxBlocksPerPoll).2.cursor⟩
    simp only [setPoll, fetched] at hpolled ⊢
    split
    · rename_i heq
      rwa [heq] at hpolled
    · rename_i heq
      rw [heq] at hpolled
      split <;> exact hpolled

/-- Logs that can all be decoded are all tracked, and their events returned. -/
theorem trackLogs_total (now : UInt64) {logs : List RpcLog}
    (hlogs : ∀ log ∈ logs, ∃ e, decodeLog codec cfg.keccak256 log cfg.channelId = .ok e)
    (st : State) (events : List (ChannelId × ChainEvent)) :
    ∃ events' st', State.trackLogs codec cfg now logs st events = (.ok events', st') ∧
      events ⊆ events' ∧ ∀ log ∈ logs, ∀ e,
        decodeLog codec cfg.keccak256 log cfg.channelId = .ok (some e) →
          (cfg.channelId, e) ∈ events' := by
  induction logs generalizing st events with
  | nil => exact ⟨events, st, rfl, List.Subset.refl _, by simp⟩
  | cons log logs ih =>
    obtain ⟨⟨found, hfound⟩, hlogs⟩ := List.forall_mem_cons.mp hlogs
    cases found with
    | none =>
      obtain ⟨events', st', htrack, hsub, hmem⟩ := ih hlogs st events
      refine ⟨events', st', by simp only [State.trackLogs, hfound, htrack], hsub, ?_⟩
      refine List.forall_mem_cons.mpr ⟨fun e he => ?_, hmem⟩
      rw [hfound] at he
      cases he
    | some event =>
      obtain ⟨events', st', htrack, hsub, hmem⟩ :=
        ih hlogs (st.trackActionableEvent cfg now event) (events ++ [(cfg.channelId, event)])
      refine ⟨events', st', by simp only [State.trackLogs, hfound, htrack], ?_, ?_⟩
      · exact fun x hx => hsub (List.mem_append_left _ hx)
      · refine List.forall_mem_cons.mpr ⟨fun e he => ?_, hmem⟩
        rw [hfound] at he
        cases he
        exact hsub (List.mem_append_right _ List.mem_cons_self)

theorem pollFinalized_total (codec : LogCodec RpcLog) {rpc : Rpc RpcLog}
    (hdue : st.nextPollSecs ≤ now) (hlogs : ∀ log ∈ st.fetched cfg rpc, ∃ e,
      decodeLog codec cfg.keccak256 log cfg.channelId = .ok e) :
    ∃ events st', st.pollFinalized codec cfg now rpc = (.ok events, st') ∧
      ∀ log ∈ st.fetched cfg rpc, ∀ e,
        decodeLog codec cfg.keccak256 log cfg.channelId = .ok (some e) →
          (cfg.channelId, e) ∈ events := by
  obtain ⟨events, st', htrack, -, hmem⟩ := trackLogs_total now hlogs
    (st.setPoll ⟨(st.poll.pollOnce rpc cfg.minimumBlockConfirmations cfg.maxBlocksPerPoll).2,
      now + cfg.pollIntervalSecs, st.lastBlockTs, some (st.poll.pollOnce rpc
        cfg.minimumBlockConfirmations cfg.maxBlocksPerPoll).2.cursor⟩) []
  simp only [setPoll, fetched] at htrack
  simp only [State.pollFinalized, if_neg (UInt64.not_lt.mpr hdue), htrack]
  split
  · exact ⟨events, _, rfl, hmem⟩
  · exact ⟨events, _, rfl, hmem⟩

/-- Where a poll fetches a log, it can fetch this log alone. -/
theorem fetched_alone {rpc : Rpc RpcLog} {log : RpcLog} (h : log ∈ st.fetched cfg rpc) :
    st.fetched cfg { rpc with getLogs := fun _ _ => some [log] } = [log] := by
  simp only [fetched, PollState.pollOnce] at h ⊢
  split at h
  · cases h
  · split at h
    · cases h
    · rfl

private theorem pollFinalized_alone {rpc : Rpc RpcLog} {log : RpcLog} {e : ChainEvent}
    (hdue : st.nextPollSecs ≤ now) (hfetched : st.fetched cfg rpc = [log])
    (hlog : decodeLog codec cfg.keccak256 log cfg.channelId = .ok (some e)) :
    ∃ st', st.pollFinalized codec cfg now rpc = (.ok [(cfg.channelId, e)], st') := by
  rw [fetched] at hfetched
  simp only [State.pollFinalized, if_neg (UInt64.not_lt.mpr hdue), hfetched, State.trackLogs, hlog]
  split <;> exact ⟨_, rfl⟩

theorem Holds.recordSuccess (h : st.Holds r) {k : ActionKey} (hk : k ≠ .claim r.swapId) :
    (st.recordSuccess k).Holds r := by
  have hqueue : (st.queue.recordSuccess k (.claim r.swapId)).isSome := by
    rw [RetryQueue.recordSuccess_of_ne hk.symm]
    exact h.2
  obtain ⟨id, action⟩ := k
  cases action with
  | claim =>
    have hne : r.swapId ≠ id := fun heq => hk (heq ▸ rfl)
    exact ⟨List.mem_filter.mpr ⟨h.1, by simpa using hne⟩, hqueue⟩
  | refund => exact ⟨h.1, hqueue⟩

theorem Holds.recordFailure (h : st.Holds r) (k : ActionKey) : (st.recordFailure k now).Holds r :=
  ⟨h.1, (RetryQueue.isSome_recordFailure _ _ _ _ _).trans h.2⟩

end Evm.State

namespace Kaspa

theorem Yields.watched {cfg : Config} {scripts : WatchedScripts} {tx : Script.Transaction}
    {e : ChainEvent} (h : Yields cfg scripts tx e) : ∃ addr s, scripts addr = some s := by
  cases h with
  | commitment houtput hpaid hparse hread htarget hvalue =>
    unfold paidScript at hpaid
    split at hpaid
    · exact ⟨_, _, hpaid⟩
    · cases hpaid
  | spend hinput hshown hspend =>
    obtain ⟨addr, -, hs⟩ := Option.bind_eq_some_iff.mp hshown
    exact ⟨addr, _, hs⟩

def Passes (cfg : Config) (id : SwapId) (scripts : WatchedScripts) (blocks : List Block) : Prop :=
  ∀ block ∈ blocks, ∀ tx ∈ block.transactions, ∀ e, Yields cfg scripts tx e → e.swapId ≠ id

namespace State

variable {cfg : Config} {now : UInt64} {st : State} {r : RevealV1}

structure Holds (r : RevealV1) (st : State) : Prop where
  claim : r ∈ st.pendingClaims
  queue : (st.queue (.claim r.swapId)).isSome

theorem Holds.trackActionableEvent (h : st.Holds r) {event : ChainEvent}
    (hne : event.swapId ≠ r.swapId) : (st.trackActionableEvent cfg event).Holds r := by
  have hclaim : r ∈ st.pendingClaims.filter (·.swapId ≠ event.swapId) :=
    List.mem_filter.mpr ⟨h.claim, by simpa using hne.symm⟩
  have hqueue := RetryQueue.isSome_settled hne h.queue
  cases event with
  | commitment c => exact ⟨h.claim, h.queue⟩
  | reveal r' => exact ⟨hclaim, hqueue⟩
  | refund r' => exact ⟨hclaim, hqueue⟩

theorem Holds.trackEvents (h : st.Holds r) {events : List ChainEvent}
    (hne : ∀ e ∈ events, e.swapId ≠ r.swapId) :
    (events.foldl (State.trackActionableEvent cfg) st).Holds r := by
  induction events generalizing st with
  | nil => exact h
  | cons event events ih =>
    obtain ⟨hevent, hne⟩ := List.forall_mem_cons.mp hne
    exact ih (h.trackActionableEvent hevent) hne

theorem Holds.scheduleRefunds (h : st.Holds r) (refunds : List (SwapId × UInt64)) :
    (refunds.foldl (State.scheduleRefund now) st).Holds r := by
  induction refunds generalizing st with
  | nil => exact h
  | cons refund refunds ih =>
    apply ih
    refine ⟨?_, isSome_queue_scheduleRefund h.queue now refund⟩
    rw [scheduleRefund_claims]
    exact h.claim

theorem Holds.processBlock (h : st.Holds r) {block : Block}
    (hpasses : Passes cfg r.swapId st.utxoScripts [block]) :
    (st.processBlock cfg now block).2.Holds r := by
  unfold State.processBlock
  cases hadded : handleBlockAdded cfg block st.utxoScripts with
  | mk result scripts =>
    rw [handleBlockAdded] at hadded
    have hkept : Holds r { st with utxoScripts := scripts } := ⟨h.claim, h.queue⟩
    cases result with
    | error e => exact hkept
    | ok outcomes =>
      have hne : ∀ e ∈ outcomes.events, e.swapId ≠ r.swapId := by
        intro e he
        rcases handleTransactions_yields hadded e he with hnil | ⟨tx, htx, hyields⟩
        · cases hnil
        · exact hpasses block List.mem_cons_self tx htx e hyields
      apply Holds.trackEvents _ hne
      split_ifs
      · exact hkept.scheduleRefunds outcomes.refunds
      · exact hkept

theorem Holds.processBlocks (h : st.Holds r) (blocks : List Block)
    (hpasses : Passes cfg r.swapId st.utxoScripts blocks)
    (events : List (ChannelId × ChainEvent)) :
    (State.processBlocks cfg now blocks st events).2.Holds r := by
  induction blocks generalizing st events with
  | nil => exact ⟨h.claim, h.queue⟩
  | cons block blocks ih =>
    have hfirst : Passes cfg r.swapId st.utxoScripts [block] := by
      intro b hb
      rw [List.mem_singleton.mp hb]
      exact hpasses block List.mem_cons_self
    have hkept : (st.processBlock cfg now block).2.Holds r := h.processBlock hfirst
    have hscripts : ∀ addr s, (st.processBlock cfg now block).2.utxoScripts addr = some s →
      st.utxoScripts addr = some s := processBlock_scripts block
    rw [State.processBlocks]
    split
    · rename_i hprocess
      rwa [hprocess] at hkept
    · rename_i hprocess
      rw [hprocess] at hkept hscripts
      refine ih hkept ?_ _
      exact fun b hb tx htx e hyields =>
        hpasses b (List.mem_cons_of_mem _ hb) tx htx e (hyields.mono hscripts)

theorem Holds.registerScript (h : st.Holds r) (address : String) (redeem : Bytes) (id : SwapId)
    (unlockTs : UInt64) (target : String) :
    (st.registerScript cfg now address redeem id unlockTs target).2.Holds r := by
  unfold State.registerScript
  split
  · exact h
  · exact ⟨h.claim, h.queue⟩

theorem Holds.emitEvent (h : st.Holds r) (network : Except KaspaError Network)
    (event : ChainEvent) : (st.emitEvent cfg now network event).2.Holds r := by
  obtain ⟨hclaim, hqueue⟩ := (emitEvent_emitted cfg now network st event).kept ⟨h.claim, h.queue⟩
  exact ⟨hclaim, hqueue⟩

theorem Holds.recordFailure (h : st.Holds r) (k : ActionKey) : (st.recordFailure k now).Holds r :=
  ⟨h.claim, (RetryQueue.isSome_recordFailure _ _ _ _ _).trans h.queue⟩

end State
end Kaspa

namespace Node

variable {RpcLog : Type} {cfg : NodeConfig RpcLog} {n : Node} {a : ChannelId} {r : RevealV1}

/-- The inputs that leave the commitment of a swap on a channel unsettled: the channel finds no
event of it. -/
def Leaves (cfg : NodeConfig RpcLog) (a : ChannelId) (id : SwapId) (n : Node)
    (x : UInt64 × NodeInput RpcLog) : Prop :=
  match x.2 with
  | .pollEvm c rpc => c = a → ∀ log ∈ (n.evm a).fetched (cfg.evm a) rpc, ∀ e,
      Evm.decodeLog cfg.codec (cfg.evm a).keccak256 log a = .ok (some e) → e.swapId ≠ id
  | .settledEvm c k => c = a → k ≠ .claim id
  | .pollKaspa => a = .kaspaTn10 →
      Kaspa.Passes cfg.kaspa id n.kaspa.utxoScripts n.kaspa.safeBlocks
  | _ => True

theorem holds_evm_step {x : UInt64 × NodeInput RpcLog} (h : (n.evm a).Holds r)
    (hleaves : n.Leaves cfg a r.swapId x) : ((n.step cfg x.1 x.2).evm a).Holds r := by
  obtain ⟨now, i⟩ := x
  have hset : ∀ c st, (c = a → st.Holds r) → ((n.setEvm c st).evm a).Holds r := by
    intro c st hst
    by_cases hc : c = a
    · subst hc
      simp only [setEvm, Function.update_self]
      exact hst rfl
    · simp only [setEvm, Function.update_of_ne (Ne.symm hc)]
      exact h
  cases i with
  | gossipReveal r' => rwa [step, evm_onReveal]
  | gossipScript s =>
    obtain ⟨seen, kaspa, heq⟩ := onScriptAnnounce_eq cfg now s n
    rwa [step, heq]
  | pollEvm c rpc =>
    rw [step, evm_pollEvm]
    split_ifs
    · exact h
    · apply hset
      rintro rfl
      apply h.pollFinalized
      rw [cfg.evm_channelId]
      exact hleaves rfl
  | receiveBlock b => exact h
  | pollKaspa => rwa [step, evm_pollKaspa]
  | applyEvent moment => rwa [step, evm_applyEvent]
  | broadcast i sent network =>
    simp only [step]
    split
    · exact h
    · rename_i c event _
      unfold broadcastEvent
      split_ifs
      · refine hset c _ ?_
        rintro rfl
        exact (Evm.State.emitEvent_emitted _ now sent _ event).kept h
      · exact h
      · exact h
  | settledEvm c k =>
    refine hset c _ ?_
    rintro rfl
    exact h.recordSuccess (hleaves rfl)
  | failedEvm c k =>
    refine hset c _ ?_
    rintro rfl
    exact h.recordFailure k
  | failedKaspa k => exact h
  | cleanup => exact h

theorem holds_kaspa_step {x : UInt64 × NodeInput RpcLog} (h : n.kaspa.Holds r)
    (hleaves : n.Leaves cfg .kaspaTn10 r.swapId x) : (n.step cfg x.1 x.2).kaspa.Holds r := by
  obtain ⟨now, i⟩ := x
  cases i with
  | gossipReveal r' => rwa [step, kaspa_onReveal]
  | gossipScript s =>
    simp only [step, onScriptAnnounce]
    split_ifs
    · exact h
    · split
      · exact h
      · exact h.registerScript _ _ _ _ _
    · split <;> exact h
  | pollEvm c rpc => rwa [step, kaspa_pollEvm]
  | receiveBlock b => exact ⟨h.claim, h.queue⟩
  | pollKaspa =>
    rw [step, kaspa_pollKaspa]
    split_ifs
    · exact h
    · have hdrained : Kaspa.State.Holds r { n.kaspa with safeBlocks := [] } :=
        ⟨h.claim, h.queue⟩
      exact hdrained.processBlocks _ (hleaves rfl) _
  | applyEvent moment => rwa [step, kaspa_applyEvent]
  | broadcast i sent network =>
    simp only [step]
    split
    · exact h
    · unfold broadcastEvent
      split_ifs
      · exact h
      · exact h.emitEvent network _
      · exact h
  | settledEvm c k => exact h
  | failedEvm c k => exact h
  | failedKaspa k => exact h.recordFailure k
  | cleanup => exact h

/-- A poll of a channel meets a claim of the counter commitment: a log of the contract, or an input
that shows the script of the commitment and its secret. -/
def CounterClaimed (cfg : NodeConfig RpcLog) (b : ChannelId) (counter : CommitmentV1)
    (r : RevealV1) (n : Node) (x : UInt64 × NodeInput RpcLog) : Prop :=
  cfg.handler.sha256 r.secret.data = counter.secretHash ∧ b ∈ cfg.channels ∧ n.halted = false ∧
    match x.2 with
    | .pollEvm c rpc => c = b ∧ b.isEvm ∧ (n.evm b).nextPollSecs ≤ x.1 ∧
        (∃ l : Evm.ClaimLog, l.swapId = r.swapId ∧ l.secret = r.secret ∧
          cfg.codec.ofLog (.claim l) ∈ (n.evm b).fetched (cfg.evm b) rpc) ∧
        ∀ log ∈ (n.evm b).fetched (cfg.evm b) rpc, ∃ e,
          Evm.decodeLog cfg.codec (cfg.evm b).keccak256 log b = .ok e
    | .pollKaspa => b = .kaspaTn10 ∧ ∃ block ∈ n.kaspa.safeBlocks, ∃ tx ∈ block.transactions,
        ∃ input ∈ tx.inputs, ∃ redeem ops,
          Script.signaturePushes input.signatureScript = some [r.secret.data, [1], redeem] ∧
          Kaspa.parseOpcodes redeem = .ok ops ∧
          Kaspa.extractCommitment cfg.kaspa.codec ops counter.amount.value cfg.kaspa.network
            cfg.kaspa.channelId = .ok counter
    | _ => False

/-- In every run in which the counter commitment is claimed and the first one is left unsettled,
the claim is detected, and waits on the channel of the first one when all is done. -/
def ClaimKept (cfg : NodeConfig RpcLog) (a b : ChannelId) (counter : CommitmentV1) (r : RevealV1)
    (n : Node) : Prop :=
  ∀ before x after,
    Runs.Along (fun n x => n.step cfg x.1 x.2) (Leaves cfg a r.swapId) n (before ++ x :: after) →
    (n.run cfg before).CounterClaimed cfg b counter r x →
      (b, .reveal r) ∈ (n.run cfg (before ++ [x])).events ∧
        ((n.run cfg (before ++ x :: after)).events = [] →
          (n.run cfg (before ++ x :: after)).outbox = [] →
            (n.run cfg (before ++ x :: after)).Queued a r)

/-- An address is watched for a swap that is not resolved. -/
def WatchedFor (n : Node) (addr : String) : Prop :=
  ∃ s id, n.kaspa.utxoScripts addr = some s ∧ Kaspa.CarriesId s.redeemScript id ∧
    ∀ rec, n.tracker id = some rec → rec.resolution = none

def receiveBlocks (blocks : List (UInt64 × Kaspa.Block)) : List (UInt64 × NodeInput RpcLog) :=
  blocks.map fun y => (y.1, .receiveBlock y.2)

/-- Blocks that are only received change nothing else. -/
theorem receiveBlocks_frame (cfg : NodeConfig RpcLog) (n : Node)
    (blocks : List (UInt64 × Kaspa.Block)) :
    (n.run cfg (receiveBlocks blocks)).tracker = n.tracker ∧
      (n.run cfg (receiveBlocks blocks)).events = n.events ∧
      (n.run cfg (receiveBlocks blocks)).outbox = n.outbox ∧
      (n.run cfg (receiveBlocks blocks)).kaspa.utxoScripts = n.kaspa.utxoScripts ∧
      (n.run cfg (receiveBlocks blocks)).pendingClaims = n.pendingClaims := by
  induction blocks generalizing n with
  | nil => exact ⟨rfl, rfl, rfl, rfl, rfl⟩
  | cons y blocks ih => exact ih (n.step cfg y.1 (.receiveBlock y.2))

/-- Where no script is watched, no event is found. -/
theorem pollKaspa_unwatched (h : ∀ addr, n.kaspa.utxoScripts addr = none) (now : UInt64) :
    (n.pollKaspa cfg now).events = n.events := by
  unfold pollKaspa
  split_ifs
  · rfl
  · split
    · rfl
    · rename_i events st heq
      have hnone : ∀ x ∈ events, False := by
        intro x hx
        rcases Kaspa.processBlocks_yields heq x hx with hnil | ⟨block, -, tx, -, hyields⟩
        · cases hnil
        · obtain ⟨addr, s, hs⟩ := hyields.watched
          rw [h addr] at hs
          cases hs
      rw [List.eq_nil_iff_forall_not_mem.mpr hnone]
      exact List.append_nil _

theorem CounterClaimed.detected {b : ChannelId} {counter : CommitmentV1}
    {x : UInt64 × NodeInput RpcLog} (h : n.CounterClaimed cfg b counter r x) (hb : b.isEvm) :
    (b, .reveal r) ∈ (n.step cfg x.1 x.2).events := by
  obtain ⟨now, i⟩ := x
  obtain ⟨-, hconfigured, hhalted, h⟩ := h
  cases i with
  | pollEvm c rpc =>
    obtain ⟨rfl, -, hdue, ⟨l, hid, hsecret, hl⟩, hlogs⟩ := h
    have hchannel := cfg.evm_channelId c
    obtain ⟨events, st, hpoll, hmem⟩ := Evm.State.pollFinalized_total cfg.codec hdue
      (by rwa [hchannel])
    have hevent := hmem _ hl (.reveal r) (by
      rw [hchannel, Evm.decodeLog_claim, hid, hsecret])
    rw [hchannel] at hevent
    simp only [step, pollEvm, hpoll]
    rw [if_neg (by simp [hhalted, hconfigured, hb])]
    exact List.mem_append_right _ hevent
  | pollKaspa =>
    obtain ⟨rfl, -⟩ := h
    cases hb
  | _ => exact h.elim

theorem Reachable.sound (h : Reachable cfg n) : n.Sound := by
  induction h with
  | start cursor cap => exact sound_start cursor cap
  | step now i _ ih => exact ih.step now i
  | restart boot _ ih => exact ih.live (.restart boot)

/-- A stored claim waits as long as the first commitment is unsettled. -/
theorem queued_run {boot : ChannelId → Boot} (hboot : (boot a).Lists (n.rows a))
    (hstored : n.ClaimStored boot a r) {ins : List (UInt64 × NodeInput RpcLog)}
    (hins : Runs.Along (fun n x => n.step cfg x.1 x.2) (Leaves cfg a r.swapId)
      (n.restart cfg boot) ins) : ((n.restart cfg boot).run cfg ins).Queued a r := by
  have hqueued : (n.restart cfg boot).Queued a r := queued_restart hboot hstored
  by_cases ha : a.isEvm
  · simp only [Queued, pendingClaims, queue, ha, if_true] at hqueued ⊢
    exact Runs.Along.invariant (I := fun n => (n.evm a).Holds r)
      (fun _ _ hn hx => holds_evm_step hn hx) hqueued hins
  · obtain rfl := ChannelId.eq_kaspaTn10_of_not_isEvm ha
    simp only [Queued, pendingClaims, queue, ha] at hqueued ⊢
    have hholds : (n.restart cfg boot).kaspa.Holds r := ⟨hqueued.1, hqueued.2⟩
    have hfinal := Runs.Along.invariant (I := fun n => n.kaspa.Holds r)
      (fun _ _ hn hx => holds_kaspa_step hn hx) hholds hins
    exact ⟨hfinal.claim, hfinal.queue⟩

/-- The counter commitment may be claimed by one log, with nothing else in the poll. -/
theorem CounterClaimed.alone {b : ChannelId} {counter : CommitmentV1}
    {x : UInt64 × NodeInput RpcLog} (h : n.CounterClaimed cfg b counter r x) (hb : b.isEvm) :
    ∃ rpc st, n.CounterClaimed cfg b counter r (x.1, .pollEvm b rpc) ∧
      n.pollEvm cfg x.1 b rpc =
        { n.setEvm b st with events := n.events ++ [(b, .reveal r)] } := by
  obtain ⟨now, i⟩ := x
  obtain ⟨hsecret, hconfigured, hhalted, h⟩ := h
  cases i with
  | pollEvm c rpc =>
    obtain ⟨rfl, -, hdue, ⟨l, hlid, hlsecret, hl⟩, -⟩ := h
    have hfetched := Evm.State.fetched_alone hl
    have hdecode : Evm.decodeLog cfg.codec (cfg.evm c).keccak256 (cfg.codec.ofLog (.claim l)) c =
        .ok (some (.reveal r)) := by
      rw [Evm.decodeLog_claim, hlid, hlsecret]
    obtain ⟨st, hpoll⟩ := Evm.State.pollFinalized_alone hdue hfetched (by
      rw [cfg.evm_channelId]
      exact hdecode)
    refine ⟨{ rpc with getLogs := fun _ _ => some [cfg.codec.ofLog (.claim l)] }, st,
      ⟨hsecret, hconfigured, hhalted, rfl, hb, hdue, ⟨l, hlid, hlsecret, ?_⟩, ?_⟩, ?_⟩
    · rw [hfetched]
      exact List.mem_cons_self
    · rw [hfetched, List.forall_mem_singleton]
      exact ⟨_, hdecode⟩
    · unfold pollEvm
      rw [if_neg (by simp [hhalted, hconfigured, hb]), hpoll, cfg.evm_channelId]
  | pollKaspa =>
    obtain ⟨rfl, -⟩ := h
    cases hb
  | _ => exact h.elim

/-- A reveal of a swap that the tracker does not know is dropped. -/
theorem applyEvent_unknown (source : ChannelId) (hevents : n.events = [(source, .reveal r)])
    (hhalted : n.halted = false) (htracker : n.tracker r.swapId = none) (moment : Moment) :
    n.applyEvent cfg moment = { n with events := [] } := by
  have hrefused : ∃ e, cfg.handler.handle n.tracker source (.reveal r) moment =
      (.error e, n.tracker) := by
    simp only [Handler.handle, Handler.onChainEvent, Handler.handleExternalReveal_priced]
    cases hok : cfg.handler.handleExternalReveal n.tracker r with
    | error e => exact ⟨e, rfl⟩
    | ok t =>
      obtain ⟨rec, counter, hrec, -⟩ := SwapTracker.setRevealed_eq_ok.mp (Handler.lift_eq_ok.mp hok)
      rw [htracker] at hrec
      cases hrec
  obtain ⟨e, he⟩ := hrefused
  simp only [applyEvent, hhalted, hevents, he]
  simp

theorem leaves_receiveBlocks (id : SwapId) (blocks : List (UInt64 × Kaspa.Block)) (n : Node) :
    Runs.Along (fun n x => n.step cfg x.1 x.2) (Leaves cfg a id) n (receiveBlocks blocks) := by
  induction blocks generalizing n with
  | nil => trivial
  | cons y blocks ih => exact ⟨trivial, ih _⟩

/-- Where nothing is watched, only a claim on an account chain is detected. -/
theorem isEvm_of_claimKept {b : ChannelId} {counter : CommitmentV1}
    (hunwatched : ∀ addr, n.kaspa.utxoScripts addr = none) (hevents : n.events = [])
    {blocks : List (UInt64 × Kaspa.Block)} {x : UInt64 × NodeInput RpcLog}
    (hx : (n.run cfg (receiveBlocks blocks)).CounterClaimed cfg b counter r x)
    (hkept : n.ClaimKept cfg a b counter r) : b.isEvm := by
  obtain ⟨now, i⟩ := x
  have hclaimed := hx
  obtain ⟨-, -, -, hpoll⟩ := hx
  cases i with
  | pollEvm c rpc => exact hpoll.2.1
  | pollKaspa =>
    obtain ⟨-, hevents', -, hscripts, -⟩ := receiveBlocks_frame cfg n blocks
    have hpasses : (n.run cfg (receiveBlocks blocks)).Leaves cfg a r.swapId (now, .pollKaspa) := by
      intro _ block _ tx _ e hyields
      obtain ⟨addr, s, hs⟩ := hyields.watched
      rw [hscripts, hunwatched addr] at hs
      cases hs
    have hdetected := (hkept (receiveBlocks blocks) (now, .pollKaspa) []
      (Runs.along_append.mpr ⟨leaves_receiveBlocks _ blocks n, hpasses, trivial⟩) hclaimed).1
    rw [run_concat, step, pollKaspa_unwatched (by rw [hscripts]; exact hunwatched), hevents',
      hevents] at hdetected
    cases hdetected
  | _ => exact hpoll.elim

/-- A node that does not know the swap queues no claim when the counter commitment is claimed. -/
theorem mem_of_claimKept {b : ChannelId} {counter : CommitmentV1} (hevents : n.events = [])
    (houtbox : n.outbox = []) (htracker : n.tracker r.swapId = none) (hne : a ≠ b) (hevm : b.isEvm)
    {blocks : List (UInt64 × Kaspa.Block)} {x : UInt64 × NodeInput RpcLog}
    (hx : (n.run cfg (receiveBlocks blocks)).CounterClaimed cfg b counter r x)
    (hkept : n.ClaimKept cfg a b counter r) : r ∈ n.pendingClaims a := by
  obtain ⟨rpc, st, hclaimed, hpoll⟩ := hx.alone hevm
  have hhalted := hclaimed.2.2.1
  let moment : Moment := ⟨⟨fun _ => none, 0⟩, cfg.handler.pricing⟩
  have hleaves : Runs.Along (fun n x => n.step cfg x.1 x.2) (Leaves cfg a r.swapId) n
      (receiveBlocks blocks ++ [(x.1, .pollEvm b rpc), (0, .applyEvent moment)]) :=
    Runs.along_append.mpr
      ⟨leaves_receiveBlocks _ blocks n, fun heq => absurd heq.symm hne, trivial, trivial⟩
  have hqueued := (hkept _ _ _ hleaves hclaimed).2
  obtain ⟨htracker', hevents', houtbox', -, hclaims⟩ := receiveBlocks_frame cfg n blocks
  rw [hevents', hevents] at hpoll
  have hrun : n.run cfg (receiveBlocks blocks ++ [(x.1, .pollEvm b rpc), (0, .applyEvent moment)]) =
      { (n.run cfg (receiveBlocks blocks)).setEvm b st with events := [] } := by
    have happend : n.run cfg (receiveBlocks blocks ++
        [(x.1, .pollEvm b rpc), (0, .applyEvent moment)]) =
          ((n.run cfg (receiveBlocks blocks)).pollEvm cfg x.1 b rpc).applyEvent cfg moment := by
      rw [run_append]
      rfl
    rw [happend, hpoll]
    have hunknown : (n.run cfg (receiveBlocks blocks)).tracker r.swapId = none := by
      rw [htracker', htracker]
    apply applyEvent_unknown b (r := r)
    · rfl
    · exact hhalted
    · exact hunknown
  rw [hrun] at hqueued
  obtain ⟨hmem, -⟩ := hqueued rfl (houtbox'.trans houtbox)
  rcases pendingClaims_setEvm (c := a) hmem with hmem | ⟨heq, -⟩
  · rwa [hclaims] at hmem
  · exact absurd heq.symm hne

/-- The claim of the counter commitment after a restart is forwarded, and the watched addresses
are kept, exactly when the claim was stored before, on a chain that needs no watching, and no
address was watched. -/
theorem restart_keeps_obligation_iff (cfg : NodeConfig RpcLog) (n : Node)
    (hn : Reachable cfg n) (boot : ChannelId → Boot) (hboot : ∀ c, (boot c).Lists (n.rows c))
    (id : SwapId) (rec : SwapRecord) (counter : CommitmentV1) (a b : ChannelId) (s : Bytes32)
    (hrec : n.tracker id = some rec) (hcounter : rec.counterCommitment = some counter)
    (hres : rec.resolution = none) (ha : rec.initCommitment.source = a.toByte)
    (hb : counter.source = b.toByte) (blocks : List (UInt64 × Kaspa.Block))
    (x : UInt64 × NodeInput RpcLog)
    (hx : ((n.restart cfg boot).run cfg (receiveBlocks blocks)).CounterClaimed cfg b counter
      ⟨id, s⟩ x) :
    (n.restart cfg boot).ClaimKept cfg a b counter ⟨id, s⟩ ∧
        (∀ addr, n.WatchedFor addr → ((n.restart cfg boot).kaspa.utxoScripts addr).isSome) ↔
      (b.isEvm ∧ n.ClaimStored boot a ⟨id, s⟩) ∧ ∀ addr, ¬ n.WatchedFor addr := by
  have hne : a ≠ b := by
    obtain ⟨a', b', hopen⟩ := (hn.sound.records id rec hrec).open hcounter hres
    rw [ChannelId.toByte_injective (ha.symm.trans hopen.init_source),
      ChannelId.toByte_injective (hb.symm.trans hopen.counter_source)]
    exact hopen.ne
  refine and_congr ⟨fun hkept => ?_, fun ⟨hevm, hstored⟩ => ?_⟩ ?_
  · have hevm := isEvm_of_claimKept (fun _ => rfl) rfl hx hkept
    exact ⟨hevm, (mem_restart_pendingClaims (hboot a)).mp
      (mem_of_claimKept rfl rfl rfl hne hevm hx hkept)⟩
  · intro before x after hleaves hclaimed
    refine ⟨?_, fun _ _ => queued_run (hboot a) hstored hleaves⟩
    rw [run_append]
    exact hclaimed.detected hevm
  · refine forall_congr' fun addr => ⟨fun hwatched h => ?_, fun hno h => absurd h hno⟩
    cases hwatched h

theorem Reachable.run (h : Reachable cfg n) (ins : List (UInt64 × NodeInput RpcLog)) :
    Reachable cfg (n.run cfg ins) := by
  induction ins generalizing n with
  | nil => exact h
  | cons x ins ih => exact ih (.step x.1 x.2 h)

/-- The stores of the account chains list the sample swap. -/
def sampleBoot (c : ChannelId) : Boot :=
  ⟨200, 0, if c.isEvm then [.filled 3] else [], fun _ => some (false, true)⟩

theorem lists_single {boot : Boot} {rows : SwapRows} {id : SwapId} (horder : boot.order = [id])
    (ps : List (Option PersistedSwap))
    (hrows : rows = ps.foldl (fun rows p => Function.update rows id p) fun _ => none)
    (hid : (rows id).isSome) : boot.Lists rows := by
  have hother : ∀ id', id' ≠ id → rows id' = none := by
    intro id' hne
    rw [hrows]
    have hfold : ∀ (ps : List (Option PersistedSwap)) (f : SwapRows),
        ps.foldl (fun rows p => Function.update rows id p) f id' = f id' := by
      intro ps
      induction ps with
      | nil => exact fun _ => rfl
      | cons p ps ih => exact fun f => (ih _).trans (Function.update_of_ne hne _ _)
    exact hfold ps _
  intro id'
  rw [horder, List.mem_singleton]
  constructor
  · rintro rfl
    exact hid
  · intro hsome
    by_contra hne
    rw [hother id' hne] at hsome
    cases hsome

def sampleClaimLog : Evm.ClaimLog := ⟨.filled 3, .filled 7, 5, 999, 1⟩

def claimAfterRestart : UInt64 × NodeInput Evm.Log :=
  (210, samplePoll .igraGalleon 60 (.claim sampleClaimLog))

/-- The node locked the swap and starts again. -/
def lockedRestart : Node := (sampleStart.run sampleNode lockingRun).restart sampleNode sampleBoot

/-- A reveal reaches the node before its own commitment is observed. -/
def earlyGossipRun : List (UInt64 × NodeInput Evm.Log) :=
  lockingRun.take 3 ++ gossipRun (.filled 7) ++ lockingRun.drop 3

theorem sample_claimed {n : Node} (hhalted : n.halted = false)
    (hdue : (n.evm .igraGalleon).nextPollSecs ≤ 210)
    (hcursor : (n.evm .igraGalleon).poll.nextRange 60 1 100 = some (50, 60)) :
    n.CounterClaimed sampleNode .igraGalleon sampleCounter ⟨.filled 3, .filled 7⟩
      claimAfterRestart := by
  have hfetched : (n.evm .igraGalleon).fetched (sampleNode.evm .igraGalleon)
      ⟨some 60, fun _ _ => some [Evm.Log.claim sampleClaimLog], some 100⟩ =
        [Evm.Log.claim sampleClaimLog] := by
    simp only [Evm.State.fetched, Evm.PollState.pollOnce, sampleNode, hcursor]
  refine ⟨by decide +kernel, by decide, hhalted, rfl, rfl, hdue, ⟨sampleClaimLog, rfl, rfl, ?_⟩, ?_⟩
  · rw [hfetched]
    exact List.mem_cons_self
  · rw [hfetched, List.forall_mem_singleton]
    exact ⟨_, Evm.decodeLog_claim sampleClaimLog⟩

/-- The swap was locked, its counter commitment is claimed after the restart, and nothing is
claimed on the first chain. -/
theorem restart_forgets_locked_swap :
    Reachable sampleNode (sampleStart.run sampleNode lockingRun) ∧
      (∀ c, (sampleBoot c).Lists ((sampleStart.run sampleNode lockingRun).rows c)) ∧
      (((sampleStart.run sampleNode lockingRun).tracker (.filled 3)).map fun rec =>
        (rec.initCommitment.source, rec.counterCommitment, rec.resolution)) =
          some (1, some sampleCounter, none) ∧
      lockedRestart.CounterClaimed sampleNode .igraGalleon sampleCounter
        ⟨.filled 3, .filled 7⟩ claimAfterRestart ∧
      (lockedRestart.run sampleNode [claimAfterRestart, (210, sampleApply)]).events = [] ∧
      (lockedRestart.run sampleNode [claimAfterRestart, (210, sampleApply)]).outbox = [] ∧
      (lockedRestart.run sampleNode [claimAfterRestart, (210, sampleApply)]).pendingClaims
        .ethereumSepolia = [] := by
  have hfacts : (((sampleStart.run sampleNode lockingRun).tracker (.filled 3)).map fun rec =>
        (rec.initCommitment.source, rec.counterCommitment, rec.resolution)) =
          some (1, some sampleCounter, none) ∧
      ((sampleStart.run sampleNode lockingRun).rows .ethereumSepolia (.filled 3)).isSome ∧
      ((sampleStart.run sampleNode lockingRun).rows .igraGalleon (.filled 3)).isSome ∧
      (lockedRestart.evm .igraGalleon).nextPollSecs ≤ 210 ∧
      (lockedRestart.evm .igraGalleon).poll.nextRange 60 1 100 = some (50, 60) ∧
      (lockedRestart.run sampleNode [claimAfterRestart, (210, sampleApply)]).events = [] ∧
      (lockedRestart.run sampleNode [claimAfterRestart, (210, sampleApply)]).outbox = [] ∧
      (lockedRestart.run sampleNode [claimAfterRestart, (210, sampleApply)]).pendingClaims
        .ethereumSepolia = [] := by
    decide +kernel
  obtain ⟨hlocked, hsepolia, higra, hdue, hcursor, hdone⟩ := hfacts
  refine ⟨(Reachable.start _ _).run _, ?_, hlocked, sample_claimed rfl hdue hcursor, hdone⟩
  intro c
  cases c with
  | kaspaTn10 => exact fun id => iff_of_false List.not_mem_nil Bool.false_ne_true
  | ethereumSepolia => exact lists_single rfl [_] rfl hsepolia
  | igraGalleon => exact lists_single rfl [_] rfl higra

/-- The node with the early reveal, once the swap is locked. -/
def earlyLocked : Node := sampleStart.run sampleNode earlyGossipRun

private theorem earlyLocked_facts :
    ((earlyLocked.tracker (.filled 3)).map fun rec =>
        (rec.initCommitment.source, rec.counterCommitment, rec.resolution)) =
          some (1, some sampleCounter, none) ∧
      (earlyLocked.rows .ethereumSepolia (.filled 3)).isSome ∧
      (earlyLocked.rows .igraGalleon (.filled 3)).isSome ∧
      (earlyLocked.rows .ethereumSepolia (.filled 3)).bind (·.pendingClaim) =
        some ⟨.filled 3, .filled 7⟩ ∧
      ActionKey.claim (.filled 3) ∉ Evm.reconciled (sampleBoot .ethereumSepolia)
        (earlyLocked.rows .ethereumSepolia) ∧
      ((earlyLocked.restart sampleNode sampleBoot).evm .igraGalleon).nextPollSecs ≤ 210 ∧
      ((earlyLocked.restart sampleNode sampleBoot).evm .igraGalleon).poll.nextRange 60 1 100 =
        some (50, 60) := by
  decide +kernel

private theorem earlyLocked_rows_sepolia : ∃ p q, earlyLocked.rows .ethereumSepolia =
    [p, q].foldl (fun rows p => Function.update rows (.filled 3) p) fun _ => none :=
  ⟨_, _, rfl⟩

private theorem earlyLocked_rows_igra : ∃ p q, earlyLocked.rows .igraGalleon =
    [p, q].foldl (fun rows p => Function.update rows (.filled 3) p) fun _ => none :=
  ⟨_, _, rfl⟩

/-- The claim was stored before the restart. -/
theorem restart_keeps_obligation_sample :
    (earlyLocked.restart sampleNode sampleBoot).ClaimKept sampleNode .ethereumSepolia .igraGalleon
      sampleCounter ⟨.filled 3, .filled 7⟩ := by
  obtain ⟨hlocked, hsepolia, higra, hstored, hopen, hdue, hcursor⟩ := earlyLocked_facts
  obtain ⟨rec, hrec, hfields⟩ := Option.map_eq_some_iff.mp hlocked
  simp only [Prod.mk.injEq] at hfields
  obtain ⟨hsource, hcounter, hres⟩ := hfields
  obtain ⟨row, hrow, hclaim⟩ := Option.bind_eq_some_iff.mp hstored
  have hboot : ∀ c, (sampleBoot c).Lists (earlyLocked.rows c) := by
    intro c
    cases c with
    | kaspaTn10 => exact fun id => iff_of_false List.not_mem_nil Bool.false_ne_true
    | ethereumSepolia =>
      obtain ⟨p, q, hrows⟩ := earlyLocked_rows_sepolia
      exact lists_single rfl [p, q] hrows hsepolia
    | igraGalleon =>
      obtain ⟨p, q, hrows⟩ := earlyLocked_rows_igra
      exact lists_single rfl [p, q] hrows higra
  refine ((restart_keeps_obligation_iff sampleNode earlyLocked
    ((Reachable.start _ _).run earlyGossipRun) sampleBoot hboot (.filled 3) rec sampleCounter
    .ethereumSepolia .igraGalleon (.filled 7) hrec hcounter hres hsource rfl [] claimAfterRestart
    (sample_claimed rfl hdue hcursor)).mpr
      ⟨⟨rfl, ⟨_, row, hrow, hclaim⟩, fun _ => hopen⟩, ?_⟩).1
  rintro addr ⟨s, id, hs, -⟩
  cases hs

end Node
end Stroemnet
