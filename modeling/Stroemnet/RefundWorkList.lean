import Stroemnet.BlockCoverage
import Stroemnet.ContractLegs
import Stroemnet.EvmLogFidelity
import Stroemnet.PendingWork

/-! # The refunds of a node and the swaps of the contract

A node that polls the logs of the contract keeps a list of the refunds that are still to be made.
The logs of a swap are the moves of its leg, so that after every poll the list holds exactly the
swaps that are open at the block up to which the node has polled, but for those that it saw settled
further ahead. -/
namespace Stroemnet.Evm

open HashTimelocks (Leg Move)

def entries (pending : PendingRefunds) (id : SwapId) : PendingRefunds :=
  pending.filter (·.1.swapId = id)

def owed (id : SwapId) : Leg Bytes32 Bytes32 ℕ → PendingRefunds
  | .locked terms => [(⟨id⟩, UInt64.ofNat terms.opens)]
  | _ => []

def trackLog (pending : PendingRefunds) : Log → PendingRefunds
  | .commitment l =>
    if pending.any (·.1.swapId = l.swapId) then pending
    else pending ++ [(⟨l.swapId⟩, UInt64.ofNat l.timelock.toNat)]
  | .claim l => pending.filter (·.1.swapId ≠ l.swapId)
  | .refund id => pending.filter (·.1.swapId ≠ id)
  | .solverReward _ _ _ => pending

section Entries

variable {pending : PendingRefunds} {id id' : SwapId}

theorem mem_entries {p : RefundV1 × UInt64} :
    p ∈ entries pending id ↔ p ∈ pending ∧ p.1.swapId = id := by
  simp [entries]

theorem entries_append (pending more : PendingRefunds) (id : SwapId) :
    entries (pending ++ more) id = entries pending id ++ entries more id := List.filter_append ..

theorem entries_drop_self (pending : PendingRefunds) (id : SwapId) :
    entries (pending.filter (·.1.swapId ≠ id)) id = [] := by
  simp [entries]

theorem entries_drop (pending : PendingRefunds) (h : id' ≠ id) :
    entries (pending.filter (·.1.swapId ≠ id)) id' = entries pending id' := by
  rw [entries, entries, List.filter_filter]
  apply List.filter_congr
  intro p _
  by_cases hp : p.1.swapId = id'
  · simp [hp, h]
  · simp [hp]

private theorem any_iff_entries : pending.any (·.1.swapId = id) = true ↔ entries pending id ≠
    [] := by
  simp [entries]

/-- Of entries that stand under their own identifiers those of one swap are found by looking it
up. -/
theorem entries_filterMap {f : SwapId → Option (RefundV1 × UInt64)} {order : List SwapId}
    (hf : ∀ id p, f id = some p → p.1.swapId = id) (hnodup : order.Nodup) (id : SwapId) :
    entries (order.filterMap f) id = if id ∈ order then (f id).toList else [] := by
  induction order with
  | nil => rfl
  | cons id' order ih =>
    obtain ⟨hnot, hrest⟩ := List.nodup_cons.mp hnodup
    have hfirst : entries (f id').toList id = if id' = id then (f id').toList else [] := by
      cases hp : f id' with
      | none => simp [entries]
      | some p => simp [entries, hf id' p hp, List.filter_cons]
    have hcons : (id' :: order).filterMap f = (f id').toList ++ order.filterMap f := by
      cases hp : f id' <;> simp [hp]
    rw [hcons, entries_append, hfirst, ih hrest]
    by_cases hid : id' = id
    · subst hid
      simp [hnot]
    · simp [hid, Ne.symm hid]

/-- A log of another swap changes nothing. -/
theorem entries_trackLog_of_none {l : Log} (hl : l.move? id = none) :
    entries (trackLog pending l) id = entries pending id := by
  cases l with
  | commitment l =>
    have hne : l.swapId ≠ id := by simpa [Log.move?] using hl
    simp only [trackLog]
    split_ifs
    · rfl
    · rw [entries_append]
      simp [entries, hne]
  | claim l =>
    have hne : l.swapId ≠ id := by simpa [Log.move?] using hl
    exact entries_drop pending hne.symm
  | refund id' =>
    have hne : id' ≠ id := by simpa [Log.move?] using hl
    exact entries_drop pending hne.symm
  | solverReward _ _ _ => rfl

def Owes (settled : Prop) (pending : PendingRefunds) (id : SwapId) (leg : Leg Bytes32 Bytes32 ℕ) :
    Prop :=
  entries pending id = owed id leg ∨ entries pending id = [] ∧ settled

private theorem Owes.eq_toList {settled : Prop} {leg : Leg Bytes32 Bytes32 ℕ}
    (h : Owes settled pending id leg) :
    (entries pending id).head?.toList = entries pending id := by
  rcases h with h | ⟨h, -⟩
  · rw [h]
    cases leg <;> rfl
  · rw [h]
    rfl

theorem Owes.trackLog_of_move {settled : Prop} {hash : Bytes32 → Bytes32} {t : ℕ} {l : Log}
    {m : Move Bytes32 Bytes32 ℕ} {leg leg' : Leg Bytes32 Bytes32 ℕ}
    (h : Owes settled pending id leg) (hl : l.move? id = some m)
    (hmove : leg.move hash t m = some leg') : Owes settled (trackLog pending l) id leg' := by
  refine .inl ?_
  cases l with
  | commitment l =>
    simp only [Log.move?, Option.ite_none_right_eq_some, Option.some.injEq] at hl
    obtain ⟨rfl, rfl⟩ := hl
    obtain ⟨_, rfl, hm, rfl⟩ | ⟨_, _, -, hm, -⟩ | ⟨_, -, hm, -⟩ := HashTimelocks.move_cases hmove
    · cases hm
      have hnone : entries pending l.swapId = [] := by
        rcases h with h | h
        · exact h
        · exact h.1
      rw [trackLog, if_neg (by rw [any_iff_entries]; exact not_not.mpr hnone), entries_append,
        hnone]
      simp [entries, owed]
    · cases hm
    · cases hm
  | claim l =>
    simp only [Log.move?, Option.ite_none_right_eq_some, Option.some.injEq] at hl
    obtain ⟨rfl, rfl⟩ := hl
    obtain ⟨_, -, hm, -⟩ | ⟨_, _, -, -, -, -, rfl⟩ | ⟨_, -, hm, -⟩ := HashTimelocks.move_cases hmove
    · cases hm
    · exact entries_drop_self pending _
    · cases hm
  | refund id' =>
    simp only [Log.move?, Option.ite_none_right_eq_some, Option.some.injEq] at hl
    obtain ⟨rfl, rfl⟩ := hl
    obtain ⟨_, -, hm, -⟩ | ⟨_, _, -, hm, -⟩ | ⟨_, -, -, -, rfl⟩ := HashTimelocks.move_cases hmove
    · cases hm
    · cases hm
    · exact entries_drop_self pending _
  | solverReward _ _ _ => cases hl

theorem Owes.trackLogs {settled : Prop} {hash : Bytes32 → Bytes32} {logs : List Log}
    {ms : List (ℕ × Move Bytes32 Bytes32 ℕ)} {leg leg' : Leg Bytes32 Bytes32 ℕ}
    (h : Owes settled pending id leg) (hms : moves id logs = ms.map Prod.snd)
    (hplay : leg.play hash ms = some leg') :
    Owes settled (logs.foldl trackLog pending) id leg' := by
  induction logs generalizing pending ms leg with
  | nil =>
    obtain rfl : ms = [] := List.map_eq_nil_iff.mp hms.symm
    cases hplay
    exact h
  | cons l logs ih =>
    rw [moves, List.filterMap_cons] at hms
    cases hl : l.move? id with
    | none =>
      rw [hl] at hms
      refine ih ?_ hms hplay
      rw [Owes, entries_trackLog_of_none hl]
      exact h
    | some m =>
      rw [hl] at hms
      obtain ⟨⟨t, m'⟩, ms, rfl, rfl, hrest⟩ := List.map_eq_cons_iff.mp hms.symm
      obtain ⟨mid, hmove, hplay⟩ := HashTimelocks.play_cons_eq_some.mp hplay
      exact ih (h.trackLog_of_move hl hmove) hrest.symm hplay

end Entries

/-- A chain with the contract: the balances at its deployment and the transactions of every
block. -/
structure Chain where
  contract : Contract
  balances : Address → ℕ
  blocks : ℕ → List Transaction

namespace Chain

variable (chain : Chain)

def worldAt : ℕ → World
  | 0 => World.deployed chain.balances
  | n + 1 => worldAfter chain.contract (chain.blocks n) (worldAt n)

def logsIn (start stop : ℕ) : List Log :=
  (chain.worldAt stop).logs.drop (chain.worldAt start).logs.length

/-- Every timelock fits into the timestamps of the node. -/
def Readable : Prop :=
  ∀ n, ∀ l : NewSwapLog, .commitment l ∈ (chain.worldAt n).logs → l.timelock.toNat < 2 ^ 64

def SettledBy (head : ℕ) (id : SwapId) : Prop :=
  ((chain.worldAt head).swaps id).finalized = true

variable {chain}

theorem exists_worldAfter (chain : Chain) {start stop : ℕ} (h : start ≤ stop) :
    ∃ txs, chain.worldAt stop = worldAfter chain.contract txs (chain.worldAt start) := by
  induction stop, h using Nat.le_induction with
  | base => exact ⟨[], rfl⟩
  | succ stop _ ih =>
    obtain ⟨txs, htxs⟩ := ih
    refine ⟨txs ++ chain.blocks stop, ?_⟩
    rw [worldAt, htxs, worldAfter, worldAfter, worldAfter, List.foldl_append]

private theorem logs_worldAfter (C : Contract) (txs : List Transaction) (w : World) :
    w.logs <+: (worldAfter C txs w).logs := by
  induction txs generalizing w with
  | nil => exact List.prefix_rfl
  | cons tx txs ih =>
    have hlogs := (tx.advances C w (.filled 0)).logs
    exact (hlogs ▸ List.prefix_append _ _).trans (ih (tx.after C w))

private theorem logs_append_logsIn {start stop : ℕ} (h : start ≤ stop) :
    (chain.worldAt start).logs ++ chain.logsIn start stop = (chain.worldAt stop).logs := by
  obtain ⟨txs, htxs⟩ := exists_worldAfter chain h
  obtain ⟨new, hnew⟩ := logs_worldAfter chain.contract txs (chain.worldAt start)
  rw [logsIn, htxs, ← hnew, List.drop_left]

/-- The logs of a range of blocks are the moves of every leg over these blocks. -/
theorem leg_logsIn (chain : Chain) {start stop : ℕ} (h : start ≤ stop) {id : SwapId}
    {leg : Leg Bytes32 Bytes32 ℕ} (hleg : Accounted (chain.worldAt start) id leg) :
    ∃ ms leg', moves id (chain.logsIn start stop) = ms.map Prod.snd ∧
      leg.play chain.contract.hash ms = some leg' ∧ Accounted (chain.worldAt stop) id leg' := by
  obtain ⟨txs, htxs⟩ := exists_worldAfter chain h
  obtain ⟨leg', hplay, hacc⟩ := history_play (C := chain.contract) txs hleg
  refine ⟨_, leg', ?_, hplay, htxs ▸ hacc⟩
  have hmoves : moves id (worldAfter chain.contract txs (chain.worldAt start)).logs = _ :=
    moves_logs txs (chain.worldAt start)
  rw [← htxs, ← logs_append_logsIn h, moves_append] at hmoves
  exact List.append_cancel_left hmoves

private theorem readable_logsIn (h : chain.Readable) {start stop : ℕ} {l : NewSwapLog}
    (hl : .commitment l ∈ chain.logsIn start stop) : l.timelock.toNat < 2 ^ 64 :=
  h stop l (List.mem_of_mem_drop hl)

theorem SettledBy.mono {n m : ℕ} (hle : n ≤ m) {id : SwapId} (h : chain.SettledBy n id) :
    chain.SettledBy m id := by
  have hsound : ∀ n, Sound chain.contract 0 (chain.worldAt n) := by
    intro n
    obtain ⟨txs, htxs⟩ := exists_worldAfter chain n.zero_le
    rw [htxs]
    exact ((run_keeps txs 0 _ (sound_deployed chain.balances)).result _ (result_run _ _)).1
  obtain ⟨txs, htxs⟩ := exists_worldAfter chain hle
  have hkeeps := ((run_keeps txs 0 _ (hsound n)).result _ (result_run _ _)).2
  rw [SettledBy, htxs, (hkeeps id h).1]
  exact h

end Chain

section Polls

variable {RpcLog : Type} {codec : LogCodec RpcLog} {cfg : Config} {chain : Chain} {head : ℕ}
  {st : State}

def State.RowsCurrent (st : State) : Prop :=
  ∀ id, (st.rows id).bind (·.pendingRefund) = (entries st.pendingRefunds id).head?

theorem State.rowsCurrent_persistSwap {id : SwapId}
    (h : ∀ id' ≠ id, (st.rows id').bind (·.pendingRefund) = (entries st.pendingRefunds id').head?) :
    (st.persistSwap id).RowsCurrent := by
  intro id'
  change (Function.update st.rows id _ id').bind _ = (entries st.pendingRefunds id').head?
  by_cases hid : id' = id
  · subst hid
    have hfind : (st.swapRecord id').pendingRefund = (entries st.pendingRefunds id').head? :=
      List.head?_filter.symm
    rw [Function.update_self, ← hfind]
    split_ifs with hempty
    · simp only [PersistedSwap.isEmpty, Bool.and_eq_true, Option.isNone_iff_eq_none] at hempty
      exact hempty.1.1.1.2.symm
    · rfl
  · rw [Function.update_of_ne hid]
    exact h id' hid

private theorem entries_queueDequeueRefundEvent {pending : PendingRefunds} {event : ChainEvent}
    {ccr : Bool} {id : SwapId} (h : id ≠ event.swapId) :
    entries (queueDequeueRefundEvent pending event ccr) id = entries pending id := by
  cases event with
  | commitment c =>
    simp only [queueDequeueRefundEvent]
    split_ifs
    · have hne : c.swapId ≠ id := h.symm
      rw [entries_append]
      simp [entries, hne]
    · rfl
  | reveal r => exact entries_drop pending h
  | refund r => exact entries_drop pending h

structure State.Tracked (f : PendingRefunds → PendingRefunds) (st st' : State) : Prop where
  pending : st'.pendingRefunds = f st.pendingRefunds
  rows : st'.RowsCurrent
  poll : st'.poll = st.poll
  storedCursor : st'.storedCursor = st.storedCursor

theorem State.RowsCurrent.trackActionableEvent (h : st.RowsCurrent) (cfg : Config) (now : UInt64)
    (event : ChainEvent) :
    State.Tracked (queueDequeueRefundEvent · event cfg.participateCcr) st
      (st.trackActionableEvent cfg now event) := by
  have hothers : ∀ id' ≠ event.swapId, (st.rows id').bind (·.pendingRefund) =
      (entries (queueDequeueRefundEvent st.pendingRefunds event cfg.participateCcr) id').head? := by
    intro id' hid
    rw [entries_queueDequeueRefundEvent hid]
    exact h id'
  cases event with
  | commitment c =>
    simp only [State.trackActionableEvent]
    split_ifs
    · exact ⟨rfl, State.rowsCurrent_persistSwap hothers, rfl, rfl⟩
    · exact ⟨rfl, State.rowsCurrent_persistSwap hothers, rfl, rfl⟩
  | reveal r => exact ⟨rfl, State.rowsCurrent_persistSwap hothers, rfl, rfl⟩
  | refund r => exact ⟨rfl, State.rowsCurrent_persistSwap hothers, rfl, rfl⟩

/-- A log of the contract is read back as what it does to the refunds. -/
theorem decodeLog_ofLog (codec : LogCodec RpcLog) (keccak256 : Bytes → Bytes32)
    (channel : ChannelId) {l : Log}
    (hl : ∀ n, l = .commitment n → n.timelock.toNat < 2 ^ 64) :
    decodeLog codec keccak256 (codec.ofLog l) channel = .ok none ∧
        (∀ pending, trackLog pending l = pending) ∨
      ∃ event, decodeLog codec keccak256 (codec.ofLog l) channel = .ok (some event) ∧
        ∀ pending, queueDequeueRefundEvent pending event true = trackLog pending l := by
  unfold decodeLog
  cases l with
  | commitment n =>
    simp only [codec.commitment_ofLog, toU64, if_pos (hl n rfl)]
    refine .inr ⟨_, rfl, fun pending => ?_⟩
    simp only [queueDequeueRefundEvent, trackLog, true_and]
    split_ifs
    · rfl
    · rfl
  | claim n =>
    simp only [codec.commitment_ofLog, codec.claim_ofLog]
    exact .inr ⟨_, rfl, fun pending => rfl⟩
  | refund id =>
    simp only [codec.commitment_ofLog, codec.claim_ofLog, codec.refund_ofLog]
    exact .inr ⟨_, rfl, fun pending => rfl⟩
  | solverReward _ _ _ =>
    simp only [codec.commitment_ofLog, codec.claim_ofLog, codec.refund_ofLog]
    exact .inl ⟨trivial, fun pending => rfl⟩

theorem State.RowsCurrent.trackLogs (h : st.RowsCurrent) (codec : LogCodec RpcLog)
    (hccr : cfg.participateCcr = true) (now : UInt64) {logs : List Log}
    (hlogs : ∀ l : NewSwapLog, .commitment l ∈ logs → l.timelock.toNat < 2 ^ 64)
    (events : List (ChannelId × ChainEvent)) :
    ∃ events' st', State.trackLogs codec cfg now (logs.map codec.ofLog) st events =
      (.ok events', st') ∧ State.Tracked (logs.foldl trackLog ·) st st' := by
  induction logs generalizing st events with
  | nil => exact ⟨events, st, rfl, rfl, h, rfl, rfl⟩
  | cons l logs ih =>
    have hrest : ∀ l : NewSwapLog, .commitment l ∈ logs → l.timelock.toNat < 2 ^ 64 :=
      fun l hl => hlogs l (List.mem_cons_of_mem _ hl)
    rw [List.map_cons, State.trackLogs]
    obtain ⟨hdecoded, hnone⟩ | ⟨event, hdecoded, hevent⟩ := decodeLog_ofLog codec
      cfg.keccak256 cfg.channelId fun n hn => hlogs n (hn ▸ List.mem_cons_self)
    · simp only [hdecoded]
      obtain ⟨events', st', htrack, htracked⟩ := ih h hrest events
      refine ⟨events', st', htrack, ?_, htracked.rows, htracked.poll, htracked.storedCursor⟩
      rw [htracked.pending, List.foldl_cons, hnone]
    · simp only [hdecoded]
      have hfirst := h.trackActionableEvent cfg now event
      obtain ⟨events', st', htrack, htracked⟩ := ih hfirst.rows hrest
        (events ++ [(cfg.channelId, event)])
      refine ⟨events', st', htrack, ?_, htracked.rows, htracked.poll.trans hfirst.poll,
        htracked.storedCursor.trans hfirst.storedCursor⟩
      rw [htracked.pending, hfirst.pending, hccr, hevent, List.foldl_cons]

/-- The pending refunds are the swaps that are open at the cursor, but for those that were seen
settled ahead of it; what is stored says the same. -/
structure State.Mirrors (chain : Chain) (head : ℕ) (st : State) : Prop where
  legs : ∀ id, ∃ leg, Accounted (chain.worldAt st.poll.cursor.toNat) id leg ∧
    Owes (chain.SettledBy head id) st.pendingRefunds id leg
  rows : st.RowsCurrent
  storedCursor : ∀ c, st.storedCursor = some c → c = st.poll.cursor

/-- The chain's node answers with the logs of the chain, what is observed to be settled has been
settled before the block `head`, and a restart comes after a poll and finds all rows. -/
def Faithful (codec : LogCodec RpcLog) (chain : Chain) (head : ℕ) (st : State) :
    WorkInput RpcLog → Prop
  | .poll _ rpc => ∀ start stop logs, rpc.getLogs start stop = some logs →
      logs = (chain.logsIn start.toNat (stop.toNat + 1)).map codec.ofLog
  | .success k => ∃ n ≤ head, chain.SettledBy n k.swapId
  | .restart boot => st.storedCursor.isSome ∧ boot.order.Nodup ∧ boot.Lists st.rows ∧
      ∀ id initialized, boot.swaps id = some (true, initialized) →
        ∃ n ≤ head, chain.SettledBy n id
  | _ => True

namespace State.Mirrors

/-- A step that leaves the refunds and the cursor alone and writes a row. -/
theorem same (h : st.Mirrors chain head) (claims : List RevealV1) (queue : RetryQueue)
    (id : SwapId) :
    ({ st with pendingClaims := claims, queue := queue }.persistSwap id).Mirrors chain head :=
  ⟨h.legs, State.rowsCurrent_persistSwap fun id' _ => h.rows id', h.storedCursor⟩

theorem recordFailure (h : st.Mirrors chain head) (k : ActionKey) (now : UInt64) :
    (st.recordFailure k now).Mirrors chain head := h.same _ _ k.swapId

theorem replacement (h : st.Mirrors chain head) (answers : SettleAnswers) (k : ActionKey) :
    (st.replacement answers k).2.Mirrors chain head := by
  unfold State.replacement
  cases (st.queue k).bind (planReplacement answers) with
  | none => exact h
  | some r => exact h.same _ _ k.swapId

theorem emitEvent (h : st.Mirrors chain head) (now : UInt64) (sent : Except DataError Unit)
    (event : ChainEvent) : (st.emitEvent cfg now sent event).2.Mirrors chain head := by
  cases event with
  | commitment c =>
    simp only [State.emitEvent]
    split_ifs
    · cases submitCommitment c with
      | error e => exact h
      | ok call => exact h
    · exact h
  | reveal r =>
    simp only [State.emitEvent]
    split_ifs
    · exact h.same _ _ r.swapId
    · exact h
  | refund r => exact h

theorem recordSuccess (h : st.Mirrors chain head) {k : ActionKey}
    (hsettled : ∃ n ≤ head, chain.SettledBy n k.swapId) :
    (st.recordSuccess k).Mirrors chain head := by
  obtain ⟨id, action⟩ := k
  obtain ⟨n, hn, hsettled⟩ := hsettled
  cases action with
  | claim => exact h.same _ _ id
  | refund =>
    refine ⟨fun id' => ?_, State.rowsCurrent_persistSwap fun id' hid => ?_, h.storedCursor⟩
    · obtain ⟨leg, hacc, howes⟩ := h.legs id'
      refine ⟨leg, hacc, ?_⟩
      by_cases hid : id' = id
      · subst hid
        exact .inr ⟨entries_drop_self st.pendingRefunds id', hsettled.mono hn⟩
      · have hsame : entries (st.recordSuccess ⟨id, .refund⟩).pendingRefunds id' =
            entries st.pendingRefunds id' := entries_drop st.pendingRefunds hid
        rw [Owes, hsame]
        exact howes
    · have hsame := entries_drop st.pendingRefunds hid
      exact (h.rows id').trans (congrArg List.head? hsame.symm)

/-- A poll brings the refunds from one cursor to the next. -/
theorem pollOnce (h : st.Mirrors chain head) (hreadable : chain.Readable) {now : UInt64}
    {rpc : Rpc RpcLog} (hrpc : Faithful codec chain head st (.poll now rpc))
    (confirmations maxBlocks : UInt64) {logs : List RpcLog} {poll : PollState}
    (hpoll : st.poll.pollOnce rpc confirmations maxBlocks = (logs, poll)) :
    ∃ found : List Log, logs = found.map codec.ofLog ∧
      (∀ l : NewSwapLog, .commitment l ∈ found → l.timelock.toNat < 2 ^ 64) ∧
      ∀ id, ∃ leg, Accounted (chain.worldAt poll.cursor.toNat) id leg ∧
        Owes (chain.SettledBy head id) (found.foldl trackLog st.pendingRefunds) id leg := by
  have hidle : (logs, poll) = (([] : List RpcLog), st.poll) → ∃ found : List Log,
      logs = found.map codec.ofLog ∧
      (∀ l : NewSwapLog, .commitment l ∈ found → l.timelock.toNat < 2 ^ 64) ∧
      ∀ id, ∃ leg, Accounted (chain.worldAt poll.cursor.toNat) id leg ∧
        Owes (chain.SettledBy head id) (found.foldl trackLog st.pendingRefunds) id leg := by
    intro hnone
    cases hnone
    exact ⟨[], rfl, fun l hl => absurd hl List.not_mem_nil, h.legs⟩
  rw [PollState.pollOnce] at hpoll
  cases hnumber : rpc.blockNumber with
  | none =>
    rw [hnumber] at hpoll
    exact hidle hpoll.symm
  | some current =>
    simp only [hnumber] at hpoll
    cases hrange : st.poll.nextRange current confirmations maxBlocks with
    | none =>
      simp only [hrange] at hpoll
      exact hidle hpoll.symm
    | some range =>
      obtain ⟨start, stop⟩ := range
      simp only [hrange] at hpoll
      cases hlogs : rpc.getLogs start (stop - 1) with
      | none =>
        simp only [hlogs] at hpoll
        exact hidle hpoll.symm
      | some answer =>
        simp only [hlogs, Prod.mk.injEq] at hpoll
        obtain ⟨rfl, rfl⟩ := hpoll
        obtain ⟨rfl, -, -, -, -, hlt, hlast⟩ := PollState.nextRange_spec hrange
        have hstop : (stop - 1).toNat + 1 = stop.toNat := by omega
        have hanswer := hrpc _ _ _ hlogs
        rw [hstop] at hanswer
        refine ⟨_, hanswer, fun l hl => Chain.readable_logsIn hreadable hl, fun id => ?_⟩
        obtain ⟨leg, hacc, howes⟩ := h.legs id
        obtain ⟨ms, leg', hms, hplay, hacc'⟩ := chain.leg_logsIn hlt.le hacc
        exact ⟨leg', hacc', howes.trackLogs hms hplay⟩

theorem pollFinalized (h : st.Mirrors chain head) (hccr : cfg.participateCcr = true)
    (hreadable : chain.Readable) {now : UInt64} {rpc : Rpc RpcLog}
    (hrpc : Faithful codec chain head st (.poll now rpc)) :
    (st.pollFinalized codec cfg now rpc).2.Mirrors chain head := by
  unfold State.pollFinalized
  split_ifs
  · exact h
  · rcases hpoll : st.poll.pollOnce rpc cfg.minimumBlockConfirmations cfg.maxBlocksPerPoll with
      ⟨logs, poll⟩
    obtain ⟨found, rfl, hfound, hlegs⟩ := h.pollOnce hreadable hrpc _ _ hpoll
    have hrows : { st with
        nextPollSecs := now + cfg.pollIntervalSecs
        poll := poll
        storedCursor := some poll.cursor }.RowsCurrent := h.rows
    obtain ⟨events, st', htrack, htracked⟩ := hrows.trackLogs codec hccr now hfound []
    have hmirrors : st'.Mirrors chain head := by
      refine ⟨?_, htracked.rows, ?_⟩
      · rw [htracked.pending, htracked.poll]
        exact hlegs
      · rw [htracked.poll, htracked.storedCursor]
        exact fun c hc => (Option.some.inj hc).symm
    simp only [htrack]
    cases rpc.blockTimestamp with
    | none => exact hmirrors
    | some ts => exact ⟨hmirrors.legs, hmirrors.rows, hmirrors.storedCursor⟩

theorem entries_restore (h : st.Mirrors chain head) {boot : Boot} (hnodup : boot.order.Nodup)
    (hlists : boot.Lists st.rows) (id : SwapId) :
    entries (restore st.rows boot.order).pendingRefunds id = entries st.pendingRefunds id := by
  obtain ⟨leg, -, howes⟩ := h.legs id
  have hrows : ∀ id p, (st.rows id).bind (·.pendingRefund) = some p → p.1.swapId = id := by
    intro id p hp
    rw [h.rows id] at hp
    exact (mem_entries.mp (List.mem_of_head? hp)).2
  change entries (boot.order.filterMap fun id => (st.rows id).bind (·.pendingRefund)) id = _
  rw [entries_filterMap hrows hnodup id]
  split_ifs with hid
  · rw [h.rows id, howes.eq_toList]
  · have hnone : st.rows id = none := by
      simpa using mt (hlists id).mpr hid
    have hhead := h.rows id
    rw [hnone] at hhead
    exact (List.head?_eq_none_iff.mp hhead.symm).symm

private theorem foldl_recordSuccess (h : st.Mirrors chain head) {keys : List ActionKey}
    (hkeys : ∀ k ∈ keys, ∃ n ≤ head, chain.SettledBy n k.swapId) :
    (keys.foldl State.recordSuccess st).Mirrors chain head := by
  induction keys generalizing st with
  | nil => exact h
  | cons k keys ih =>
    exact ih (h.recordSuccess (hkeys k List.mem_cons_self))
      fun k' hk' => hkeys k' (List.mem_cons_of_mem _ hk')

/-- A restart goes on from the cursor that was stored, with the refunds that were pending. -/
theorem connect (h : st.Mirrors chain head) {boot : Boot}
    (hboot : Faithful codec chain head st (.restart boot)) :
    (Evm.connect cfg boot st).Mirrors chain head := by
  obtain ⟨hstored, hnodup, hlists, hobserved⟩ := hboot
  obtain ⟨cursor, hcursor⟩ := Option.isSome_iff_exists.mp hstored
  unfold Evm.connect
  apply foldl_recordSuccess
  · refine ⟨fun id => ?_, fun id => ?_, fun c hc => ?_⟩
    · obtain ⟨leg, hacc, howes⟩ := h.legs id
      refine ⟨leg, ?_, ?_⟩
      · simp only [hcursor, Option.getD_some, h.storedCursor cursor hcursor]
        exact hacc
      · rw [Owes, h.entries_restore hnodup hlists id]
        exact howes
    · rw [h.entries_restore hnodup hlists id]
      exact h.rows id
    · simp only at hc ⊢
      rw [hc, Option.getD_some]
  · intro k hk
    obtain ⟨-, hobserve⟩ := Bool.and_eq_true_iff.mp (List.mem_filter.mp hk).2
    have hsettled := of_decide_eq_true hobserve
    unfold observeOnchain at hsettled
    cases hswap : boot.swaps k.swapId with
    | none =>
      rw [hswap] at hsettled
      cases hsettled
    | some flags =>
      obtain ⟨finalized, initialized⟩ := flags
      rw [hswap] at hsettled
      cases finalized with
      | true => exact hobserved k.swapId initialized hswap
      | false => cases initialized <;> cases hsettled

theorem work (h : st.Mirrors chain head) (hccr : cfg.participateCcr = true)
    (hreadable : chain.Readable) {input : WorkInput RpcLog}
    (hinput : Faithful codec chain head st input) :
    (st.work codec cfg input).Mirrors chain head := by
  cases input with
  | poll now rpc => exact h.pollFinalized hccr hreadable hinput
  | emit now sent event => exact h.emitEvent now sent event
  | replace answers k => exact h.replacement answers k
  | success k => exact h.recordSuccess hinput
  | failure k now => exact h.recordFailure k now
  | restart boot => exact h.connect hinput

end State.Mirrors

private theorem State.mirrors_empty {cursor : UInt64}
    (hnew : ∀ id, ((chain.worldAt cursor.toNat).swaps id).initialized = false) :
    (State.empty cursor).Mirrors chain head := by
  refine ⟨fun id => ?_, fun id => rfl, fun c hc => by cases hc⟩
  obtain ⟨-, leg, -, -, hacc⟩ := chain.leg_logsIn cursor.toNat.zero_le
    (accounted_deployed chain.balances id)
  obtain rfl := eq_unused_of_fresh (hnew id) hacc
  exact ⟨.unused, hacc, .inl rfl⟩

/-- The refunds of a node are the open swaps of the contract. -/
structure RefundsOfContract (chain : Chain) (head : ℕ) (st : State) : Prop where
  /-- Every pending refund is of a swap that is open at the cursor, with its timelock. -/
  sound : ∀ p ∈ st.pendingRefunds,
    ((chain.worldAt st.poll.cursor.toNat).swaps p.1.swapId).Open ∧
      p.2 = UInt64.ofNat ((chain.worldAt st.poll.cursor.toNat).swaps p.1.swapId).timelock.toNat
  /-- Every swap that is open at the cursor and not settled ahead of it is pending once and
  queued. -/
  complete : ∀ id, ((chain.worldAt st.poll.cursor.toNat).swaps id).Open →
    ¬ chain.SettledBy head id →
      (st.pendingRefunds.map (·.1.swapId)).count id = 1 ∧ (st.queue (.refund id)).isSome

theorem State.Mirrors.refundsOfContract (h : st.Mirrors chain head) (hagrees : st.Agrees) :
    RefundsOfContract chain head st := by
  constructor
  · intro p hp
    have hmem : p ∈ entries st.pendingRefunds p.1.swapId := mem_entries.mpr ⟨hp, rfl⟩
    obtain ⟨leg, hacc, howes⟩ := h.legs p.1.swapId
    rcases howes with howes | ⟨hnone, -⟩
    · rw [howes] at hmem
      cases leg with
      | unused => cases hmem
      | locked terms =>
        obtain ⟨hopen, rfl, -⟩ := hacc
        exact ⟨hopen, congrArg Prod.snd (List.mem_singleton.mp hmem)⟩
      | claimed terms s => cases hmem
      | refunded terms => cases hmem
    · rw [hnone] at hmem
      cases hmem
  · intro id hopen hsettled
    obtain ⟨leg, hacc, howes⟩ := h.legs id
    obtain rfl := eq_locked_of_open hopen hacc
    have hentries : entries st.pendingRefunds id = owed id (.locked _) :=
      howes.resolve_right fun hnone => hsettled hnone.2
    have hne : entries st.pendingRefunds id ≠ [] := by
      rw [hentries]
      exact List.cons_ne_nil _ _
    obtain ⟨p, hp⟩ := List.exists_mem_of_ne_nil _ hne
    have hmem : id ∈ st.pendingRefunds.map (·.1.swapId) :=
      List.mem_map.mpr ⟨p, mem_entries.mp hp⟩
    have hqueued := hagrees.pending.refunds.mem_iff.mp hmem
    refine ⟨?_, hqueued⟩
    rw [hagrees.pending.refunds id, if_pos hqueued]

/-- Over every run of polls, broadcasts, settlement attempts and restarts, against every chain on
which the timelocks can be read: the refunds that a node still wants to make are the swaps that the
contract holds open at the block up to which it has polled, without those that it saw settled
later. -/
theorem refunds_mirror_contract (codec : LogCodec RpcLog) (cfg : Config)
    (hccr : cfg.participateCcr = true) (chain : Chain) (hreadable : chain.Readable) (head : ℕ)
    (cursor : UInt64) (hnew : ∀ id, ((chain.worldAt cursor.toNat).swaps id).initialized = false)
    (inputs : List (WorkInput RpcLog))
    (hinputs : Runs.Along (State.work codec cfg) (Faithful codec chain head) (State.empty cursor)
      inputs) :
    RefundsOfContract chain head
      (Runs.final (State.work codec cfg) (State.empty cursor) inputs) := by
  have hrun : (Runs.final (State.work codec cfg) (State.empty cursor) inputs).Mirrors chain head ∧
      (Runs.final (State.work codec cfg) (State.empty cursor) inputs).Agrees := by
    refine hinputs.invariant (I := fun st => st.Mirrors chain head ∧ st.Agrees)
      (fun st input h hinput => ⟨h.1.work hccr hreadable hinput, h.2.work hccr ?_⟩)
      ⟨State.mirrors_empty hnew, State.agrees_empty cursor⟩
    rintro boot rfl
    exact hinput.2.1
  exact hrun.1.refundsOfContract hrun.2

end Polls

/-- The first block opens a swap, and nothing happens after it. -/
def openChain : Chain where
  contract := sampleContract
  balances _ := 1000000
  blocks n := if n = 0 then [⟨0, .call 5 (sampleCall 100) .stop .stop .stop⟩] else []

def pollingConfig : Config := ⟨.ethereumSepolia, 0, 1, 10, true, true, fun _ => default⟩

def openRpc : Rpc Log :=
  ⟨some 1, fun start stop => some (openChain.logsIn start.toNat (stop.toNat + 1)), none⟩

def openState : State :=
  Runs.final (State.work plainCodec pollingConfig) (State.empty 0) [.poll 7 openRpc]

private theorem openChain_readable : openChain.Readable := by
  have hworld : ∀ n, openChain.worldAt (n + 1) = openChain.worldAt 1 := by
    intro n
    induction n with
    | zero => rfl
    | succ n ih => exact ih
  intro n l hl
  cases n with
  | zero => cases hl
  | succ n =>
    rw [hworld n] at hl
    have hlogs : ∀ log ∈ (openChain.worldAt 1).logs, ∀ n : NewSwapLog,
        log = .commitment n → n.timelock = 100 := by
      intro log hlog n hn
      cases List.mem_singleton.mp hlog
      cases hn
      rfl
    rw [hlogs _ hl l rfl]
    decide

theorem refunds_mirror_contract_sample :
    openState.pendingRefunds = [(⟨.filled 3⟩, 100)] ∧ RefundsOfContract openChain 2 openState := by
  refine ⟨by decide +kernel, ?_⟩
  refine refunds_mirror_contract plainCodec pollingConfig rfl openChain openChain_readable 2 0
    (fun id => rfl) _ ⟨?_, trivial⟩
  intro start stop logs hlogs
  cases hlogs
  exact (List.map_id _).symm

end Stroemnet.Evm
