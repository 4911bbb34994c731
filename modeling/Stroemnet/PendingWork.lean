import Stroemnet.EvmSettlement
import Stroemnet.GuardedRuns
import Stroemnet.Restart

/-! # Pending work and the retry queue

What a channel has still to settle is kept twice: as an entry of a pending list, which says what
to do, and as a key of the retry queue, which says when. An entry without its key is never tried.
The UTXO chain schedules the refunds of a block before it tracks the events of the block, so that
a commitment that follows the end of its swap in one block leaves an entry without a key. -/
namespace Stroemnet

/-- A swap has one entry in a list of pending work if its key is queued, and none otherwise. -/
def Matches (ids : List SwapId) (key : SwapId → ActionKey) (q : RetryQueue) : Prop :=
  ∀ id, ids.count id = if (q (key id)).isSome then 1 else 0

/-- The pending work of a channel and its queue agree. -/
structure PendingAgrees (refunds : PendingRefunds) (claims : List RevealV1) (q : RetryQueue) :
    Prop where
  refunds : Matches (refunds.map (·.1.swapId)) .refund q
  claims : Matches (claims.map (·.swapId)) .claim q

namespace Matches

variable {ids : List SwapId} {key : SwapId → ActionKey} {q q' : RetryQueue} {id : SwapId}

theorem congr (h : Matches ids key q) (hq : ∀ id, (q' (key id)).isSome = (q (key id)).isSome) :
    Matches ids key q' := by
  intro id
  rw [hq]
  exact h id

theorem mem_iff (h : Matches ids key q) : id ∈ ids ↔ (q (key id)).isSome := by
  rw [← List.count_pos_iff, h id]
  split_ifs with hq
  · simp [hq]
  · simp [hq]

theorem push (h : Matches ids key q) (hkey : Function.Injective key) (id : SwapId) (now : UInt64) :
    Matches (if id ∈ ids then ids else ids ++ [id]) key (q.ensure (key id) now) := by
  intro id'
  have hid' := h id'
  by_cases heq : id' = id
  · subst heq
    rw [if_pos (RetryQueue.isSome_ensure_self q _ now)]
    split_ifs with hmem
    · rw [hid', if_pos (h.mem_iff.mp hmem)]
    · rw [List.count_append, List.count_singleton_self, List.count_eq_zero_of_not_mem hmem]
  · have hsame : (q.ensure (key id) now (key id')).isSome ↔ (q (key id')).isSome := by
      rw [RetryQueue.isSome_ensure_iff, or_iff_left (fun h => heq (hkey h))]
    simp only [hsame, ← hid']
    split_ifs
    · rfl
    · rw [List.count_append, List.count_singleton, if_neg (by simpa using Ne.symm heq),
        Nat.add_zero]

theorem remove (h : Matches ids key q) (hkey : Function.Injective key) (id : SwapId) :
    Matches (ids.filter (· ≠ id)) key (q.recordSuccess (key id)) := by
  intro id'
  by_cases heq : id' = id
  · subst heq
    rw [RetryQueue.recordSuccess, Function.update_self, List.count_eq_zero_of_not_mem]
    · rfl
    · simp
  · rw [RetryQueue.recordSuccess_of_ne fun h => heq (hkey h), ← h id']
    exact List.count_filter (by simpa using heq)

end Matches

theorem ActionKey.claim_injective : Function.Injective ActionKey.claim := fun _ _ h => by
  cases h
  rfl

theorem ActionKey.refund_injective : Function.Injective ActionKey.refund := fun _ _ h => by
  cases h
  rfl

theorem ActionKey.claim_ne_refund (id id' : SwapId) : ActionKey.claim id ≠ ActionKey.refund id' :=
  fun h => by cases h

private theorem map_pushPendingClaim (pending : List RevealV1) (r : RevealV1) :
    (pushPendingClaim pending r).map (·.swapId) =
      if r.swapId ∈ pending.map (·.swapId) then pending.map (·.swapId)
      else pending.map (·.swapId) ++ [r.swapId] := by
  have hany : pending.any (·.swapId = r.swapId) = true ↔ r.swapId ∈ pending.map (·.swapId) := by
    simp
  simp only [pushPendingClaim, hany]
  split_ifs
  · rfl
  · simp

theorem map_queueDequeueRefundEvent (pending : PendingRefunds) (event : ChainEvent) :
    (queueDequeueRefundEvent pending event true).map (·.1.swapId) =
      match event with
      | .commitment c => if c.swapId ∈ pending.map (·.1.swapId) then pending.map (·.1.swapId)
        else pending.map (·.1.swapId) ++ [c.swapId]
      | _ => (pending.map (·.1.swapId)).filter (· ≠ event.swapId) := by
  have hfilter : ∀ id, (pending.filter (·.1.swapId ≠ id)).map (·.1.swapId) =
      (pending.map (·.1.swapId)).filter (· ≠ id) := by
    intro id
    rw [List.filter_map]
    rfl
  cases event with
  | commitment c =>
    have hany : pending.any (·.1.swapId = c.swapId) = true ↔
        c.swapId ∈ pending.map (·.1.swapId) := by
      simp
    simp only [queueDequeueRefundEvent, hany, true_and]
    split_ifs
    · rfl
    · simp
  | reveal r => exact hfilter r.swapId
  | refund r => exact hfilter r.swapId

theorem map_filter_claims (claims : List RevealV1) (id : SwapId) :
    (claims.filter (·.swapId ≠ id)).map (·.swapId) = (claims.map (·.swapId)).filter (· ≠ id) := by
  rw [List.filter_map]
  rfl

theorem map_filter_refunds (refunds : PendingRefunds) (id : SwapId) :
    (refunds.filter (·.1.swapId ≠ id)).map (·.1.swapId) =
      (refunds.map (·.1.swapId)).filter (· ≠ id) := by
  rw [List.filter_map]
  rfl

namespace PendingAgrees

variable {refunds : PendingRefunds} {claims : List RevealV1} {q : RetryQueue}

theorem congr (h : PendingAgrees refunds claims q) {q' : RetryQueue}
    (hq : ∀ k, (q' k).isSome = (q k).isSome) : PendingAgrees refunds claims q' :=
  ⟨h.refunds.congr fun _ => hq _, h.claims.congr fun _ => hq _⟩

theorem dropClaim (h : PendingAgrees refunds claims q) (id : SwapId) :
    PendingAgrees refunds (claims.filter (·.swapId ≠ id)) (q.recordSuccess (.claim id)) where
  refunds := by
    refine h.refunds.congr fun id' => ?_
    rw [RetryQueue.recordSuccess_of_ne (ActionKey.claim_ne_refund _ _).symm]
  claims := by
    rw [map_filter_claims]
    exact h.claims.remove ActionKey.claim_injective id

theorem dropRefund (h : PendingAgrees refunds claims q) (id : SwapId) :
    PendingAgrees (refunds.filter (·.1.swapId ≠ id)) claims (q.recordSuccess (.refund id)) where
  refunds := by
    rw [map_filter_refunds]
    exact h.refunds.remove ActionKey.refund_injective id
  claims := by
    refine h.claims.congr fun id' => ?_
    rw [RetryQueue.recordSuccess_of_ne (ActionKey.claim_ne_refund _ _)]

/-- A settled swap leaves neither work nor keys. -/
theorem settled (h : PendingAgrees refunds claims q) (id : SwapId) :
    PendingAgrees (refunds.filter (·.1.swapId ≠ id)) (claims.filter (·.swapId ≠ id))
      ((q.recordSuccess (.claim id)).recordSuccess (.refund id)) :=
  (h.dropClaim id).dropRefund id

theorem pushClaim (h : PendingAgrees refunds claims q) (r : RevealV1) (now : UInt64) :
    PendingAgrees refunds (pushPendingClaim claims r) (q.ensure (.claim r.swapId) now) where
  refunds := by
    refine h.refunds.congr fun id => ?_
    rw [Bool.eq_iff_iff, RetryQueue.isSome_ensure_iff,
      or_iff_left (ActionKey.claim_ne_refund _ _).symm]
  claims := by
    rw [map_pushPendingClaim]
    exact h.claims.push ActionKey.claim_injective r.swapId now

/-- A refund that is scheduled together with its key, unless it is pending already. -/
theorem pushRefund (h : PendingAgrees refunds claims q) {refunds' : PendingRefunds} {id : SwapId}
    (hrefunds : refunds'.map (·.1.swapId) = if id ∈ refunds.map (·.1.swapId) then
      refunds.map (·.1.swapId) else refunds.map (·.1.swapId) ++ [id]) (now : UInt64) :
    PendingAgrees refunds' claims (q.ensure (.refund id) now) where
  refunds := by
    rw [hrefunds]
    exact h.refunds.push ActionKey.refund_injective id now
  claims := by
    refine h.claims.congr fun id' => ?_
    rw [Bool.eq_iff_iff, RetryQueue.isSome_ensure_iff, or_iff_left (ActionKey.claim_ne_refund _ _)]

end PendingAgrees

/-- A row names its own swap, and has no attempt without the work that is attempted. -/
structure PersistedSwap.Sound (id : SwapId) (p : PersistedSwap) : Prop where
  refundId : ∀ r, p.pendingRefund = some r → r.1.swapId = id
  claimId : ∀ r, p.pendingClaim = some r → r.swapId = id
  refund : p.refundAttempt.isSome → p.pendingRefund.isSome
  claim : p.claimAttempt.isSome → p.pendingClaim.isSome

def SwapRows.Sound (rows : SwapRows) : Prop := ∀ id p, rows id = some p → p.Sound id

theorem SwapRows.sound_empty : SwapRows.Sound fun _ => none := by
  intro id p hrow
  cases hrow

theorem SwapRows.Sound.persist {rows : SwapRows} (h : rows.Sound) {id : SwapId} {p : PersistedSwap}
    (hp : p.Sound id) : (rows.persist id p).Sound := by
  intro id' p' hrow
  by_cases heq : id' = id
  · subst heq
    rw [SwapRows.persist, Function.update_self] at hrow
    split_ifs at hrow
    cases hrow
    exact hp
  · rw [SwapRows.persist, Function.update_of_ne heq] at hrow
    exact h id' p' hrow

/-- A row is sound as long as no key is queued without its work. -/
theorem sound_record {refunds : PendingRefunds} {claims : List RevealV1} {q : RetryQueue}
    {id : SwapId} (script : Option UtxoScript)
    (hrefund : (q (.refund id)).isSome → id ∈ refunds.map (·.1.swapId))
    (hclaim : (q (.claim id)).isSome → id ∈ claims.map (·.swapId)) :
    PersistedSwap.Sound id ⟨script, refunds.find? (·.1.swapId = id), claims.find? (·.swapId = id),
      q (.claim id), q (.refund id)⟩ where
  refundId r hr := by simpa using List.find?_some hr
  claimId r hr := by simpa using List.find?_some hr
  refund hq := by
    obtain ⟨r, hr, hid⟩ := List.mem_map.mp (hrefund hq)
    exact List.find?_isSome.mpr ⟨r, hr, decide_eq_true hid⟩
  claim hq := by
    obtain ⟨r, hr, hid⟩ := List.mem_map.mp (hclaim hq)
    exact List.find?_isSome.mpr ⟨r, hr, decide_eq_true hid⟩

private theorem map_filterMap_rows {α : Type} {rows : SwapRows} (work : PersistedSwap → Option α)
    (swap : α → SwapId) (hwork : ∀ id p x, rows id = some p → work p = some x → swap x = id)
    (order : List SwapId) :
    (order.filterMap fun id => (rows id).bind work).map swap =
      order.filter fun id => ((rows id).bind work).isSome := by
  induction order with
  | nil => rfl
  | cons id order ih =>
    cases hx : (rows id).bind work with
    | none =>
      rw [List.filterMap_cons, hx, List.filter_cons_of_neg (by simp [hx])]
      exact ih
    | some x =>
      obtain ⟨p, hp, hx'⟩ := Option.bind_eq_some_iff.mp hx
      rw [List.filterMap_cons, hx, List.filter_cons_of_pos (by simp [hx])]
      simp only [List.map_cons, ih, hwork id p x hp hx']

/-- Work that is restored from rows matches a queue that holds the stored attempts and a key for
all of the work. -/
theorem restored_matches {α : Type} {rows : SwapRows} (work : PersistedSwap → Option α)
    (attempt : PersistedSwap → Option AttemptState) {swap : α → SwapId} {order : List SwapId}
    {key : SwapId → ActionKey} {q : RetryQueue}
    (hwork : ∀ id p x, rows id = some p → work p = some x → swap x = id)
    (hattempt : ∀ id p, rows id = some p → (attempt p).isSome → (work p).isSome)
    (hnodup : order.Nodup)
    (hq : ∀ id, (q (key id)).isSome ↔
      (if id ∈ order then (rows id).bind attempt else none).isSome ∨
        ∃ x ∈ order.filterMap fun id => (rows id).bind work, swap x = id) :
    Matches ((order.filterMap fun id => (rows id).bind work).map swap) key q := by
  have hmap := map_filterMap_rows work swap hwork order
  intro id
  have hqueued : (q (key id)).isSome ↔
      id ∈ order.filter fun id => ((rows id).bind work).isSome := by
    rw [hq, ← hmap, ← List.mem_map]
    refine or_iff_right_of_imp fun hattempted => ?_
    split_ifs at hattempted with hin
    · rw [hmap, List.mem_filter]
      cases hrow : rows id with
      | none => simp [hrow] at hattempted
      | some p =>
        rw [hrow, Option.bind_some] at hattempted
        exact ⟨hin, hattempt id p hrow hattempted⟩
    · cases hattempted
  rw [hmap, (hnodup.filter _).count]
  simp only [hqueued]

theorem restored_agrees {rows : SwapRows} (hrows : rows.Sound) {order : List SwapId}
    (hnodup : order.Nodup) (now : UInt64) :
    PendingAgrees (restore rows order).pendingRefunds (restore rows order).pendingClaims
      (seedQueue (restore rows order) now) where
  refunds := by
    refine restored_matches (·.pendingRefund) (·.refundAttempt)
      (fun id p x hp hx => (hrows id p hp).refundId x hx)
      (fun id p hp => (hrows id p hp).refund) hnodup fun id => ?_
    rw [seedQueue, isSome_foldl_ensure, isSome_foldl_ensure]
    simp only [ActionKey.claim_ne_refund, and_false, exists_false, or_false,
      ActionKey.refund_injective.eq_iff]
    rfl
  claims := by
    refine restored_matches (·.pendingClaim) (·.claimAttempt)
      (fun id p x hp hx => (hrows id p hp).claimId x hx)
      (fun id p hp => (hrows id p hp).claim) hnodup fun id => ?_
    rw [seedQueue, isSome_foldl_ensure, isSome_foldl_ensure]
    simp only [(ActionKey.claim_ne_refund _ _).symm, and_false, exists_false, or_false,
      ActionKey.claim_injective.eq_iff]
    rfl

namespace Evm

/-- What a channel of an account chain is asked to do. -/
inductive WorkInput (RpcLog : Type)
  | poll (now : UInt64) (rpc : Rpc RpcLog)
  | emit (now : UInt64) (sent : Except DataError Unit) (event : ChainEvent)
  | replace (answers : SettleAnswers) (k : ActionKey)
  | success (k : ActionKey)
  | failure (k : ActionKey) (now : UInt64)
  | restart (boot : Boot)

namespace State

variable {RpcLog : Type}

def work (codec : LogCodec RpcLog) (cfg : Config) (st : State) : WorkInput RpcLog → State
  | .poll now rpc => (st.pollFinalized codec cfg now rpc).2
  | .emit now sent event => (st.emitEvent cfg now sent event).2
  | .replace answers k => (st.replacement answers k).2
  | .success k => st.recordSuccess k
  | .failure k now => st.recordFailure k now
  | .restart boot => connect cfg boot st

/-- The pending work agrees with the queue, and the rows are sound. -/
structure Agrees (st : State) : Prop where
  pending : PendingAgrees st.pendingRefunds st.pendingClaims st.queue
  rows : st.rows.Sound

variable {codec : LogCodec RpcLog} {cfg : Config} {st : State}

theorem agrees_persistSwap (hpending : PendingAgrees st.pendingRefunds st.pendingClaims st.queue)
    (hrows : st.rows.Sound) (id : SwapId) : (st.persistSwap id).Agrees :=
  ⟨hpending, hrows.persist (sound_record none hpending.refunds.mem_iff.mpr
    hpending.claims.mem_iff.mpr)⟩

theorem agrees_empty (cursor : UInt64) : (empty cursor).Agrees :=
  ⟨⟨fun _ => rfl, fun _ => rfl⟩, SwapRows.sound_empty⟩

namespace Agrees

/-- A change of attempts that enters and drops no key. -/
theorem attempts (h : st.Agrees) {q : RetryQueue} (hq : ∀ k, (q k).isSome = (st.queue k).isSome)
    (id : SwapId) : ({ st with queue := q }.persistSwap id).Agrees := by
  apply agrees_persistSwap
  · exact h.pending.congr hq
  · exact h.rows

theorem recordFailure (h : st.Agrees) (k : ActionKey) (now : UInt64) :
    (st.recordFailure k now).Agrees :=
  h.attempts (RetryQueue.isSome_recordFailure st.queue k · now k.jitter) k.swapId

theorem replacement (h : st.Agrees) (answers : SettleAnswers) (k : ActionKey) :
    (st.replacement answers k).2.Agrees := by
  unfold State.replacement
  cases hplan : (st.queue k).bind (planReplacement answers) with
  | none => exact h
  | some r =>
    refine h.attempts (fun k' => ?_) k.swapId
    rw [reserve_eq_modify, RetryQueue.isSome_modify]

theorem recordSuccess (h : st.Agrees) (k : ActionKey) : (st.recordSuccess k).Agrees := by
  obtain ⟨id, action⟩ := k
  cases action with
  | claim =>
    apply agrees_persistSwap
    · exact h.pending.dropClaim id
    · exact h.rows
  | refund =>
    apply agrees_persistSwap
    · exact h.pending.dropRefund id
    · exact h.rows

theorem trackActionableEvent (h : st.Agrees) (hccr : cfg.participateCcr = true) (now : UInt64)
    (event : ChainEvent) : (st.trackActionableEvent cfg now event).Agrees := by
  cases event with
  | commitment c =>
    simp only [State.trackActionableEvent, hccr, if_true]
    apply agrees_persistSwap
    · exact h.pending.pushRefund (map_queueDequeueRefundEvent st.pendingRefunds (.commitment c)) now
    · exact h.rows
  | reveal r =>
    apply agrees_persistSwap
    · exact h.pending.settled r.swapId
    · exact h.rows
  | refund r =>
    apply agrees_persistSwap
    · exact h.pending.settled r.swapId
    · exact h.rows

theorem trackLogs (codec : LogCodec RpcLog) (h : st.Agrees) (hccr : cfg.participateCcr = true)
    (now : UInt64) (logs : List RpcLog) (events : List (ChannelId × ChainEvent)) :
    (State.trackLogs codec cfg now logs st events).2.Agrees := by
  induction logs generalizing st events with
  | nil => exact h
  | cons log logs ih =>
    rw [State.trackLogs]
    cases hlog : decodeLog codec cfg.keccak256 log cfg.channelId with
    | error p => exact h
    | ok found =>
      cases found with
      | none => exact ih h events
      | some event => exact ih (h.trackActionableEvent hccr now event) _

theorem pollFinalized (h : st.Agrees) (hccr : cfg.participateCcr = true) (now : UInt64)
    (rpc : Rpc RpcLog) : (st.pollFinalized codec cfg now rpc).2.Agrees := by
  unfold State.pollFinalized
  split_ifs
  · exact h
  · rcases hpoll : st.poll.pollOnce rpc cfg.minimumBlockConfirmations cfg.maxBlocksPerPoll with
      ⟨logs, poll⟩
    have hpolled : { st with
        nextPollSecs := now + cfg.pollIntervalSecs
        poll := poll
        storedCursor := some poll.cursor }.Agrees := ⟨h.pending, h.rows⟩
    have htracked := hpolled.trackLogs codec hccr now logs []
    simp only
    cases hlogs : State.trackLogs codec cfg now logs _ [] with
    | mk result last =>
      rw [hlogs] at htracked
      cases result with
      | error p => exact htracked
      | ok events =>
        cases hts : rpc.blockTimestamp with
        | none => exact htracked
        | some ts => exact ⟨htracked.pending, htracked.rows⟩

theorem emitEvent (h : st.Agrees) (now : UInt64) (sent : Except DataError Unit)
    (event : ChainEvent) : (st.emitEvent cfg now sent event).2.Agrees := by
  cases event with
  | commitment c =>
    unfold State.emitEvent
    simp only
    split_ifs
    · split
      · exact h
      · exact h
    · exact h
  | reveal r =>
    unfold State.emitEvent
    simp only
    split_ifs
    · apply agrees_persistSwap
      · exact h.pending.pushClaim r now
      · exact h.rows
    · exact h
  | refund r => exact h

theorem connect (h : st.Agrees) {boot : Boot} (hnodup : boot.order.Nodup) :
    (Evm.connect cfg boot st).Agrees := by
  have hfold : ∀ (keys : List ActionKey) {st : State}, st.Agrees →
      (keys.foldl State.recordSuccess st).Agrees := by
    intro keys
    induction keys with
    | nil => exact id
    | cons k keys ih => exact fun h => ih (h.recordSuccess k)
  exact hfold _ ⟨restored_agrees h.rows hnodup boot.now, h.rows⟩

/-- Whatever a channel of an account chain is asked to do, its work and its queue agree. -/
theorem work (h : st.Agrees) (hccr : cfg.participateCcr = true) {input : WorkInput RpcLog}
    (hboot : ∀ boot, input = .restart boot → boot.order.Nodup) :
    (st.work codec cfg input).Agrees := by
  cases input with
  | poll now rpc => exact h.pollFinalized hccr now rpc
  | emit now sent event => exact h.emitEvent now sent event
  | replace answers k => exact h.replacement answers k
  | success k => exact h.recordSuccess k
  | failure k now => exact h.recordFailure k now
  | restart boot => exact h.connect (hboot boot rfl)

end Agrees
end State
end Evm

namespace Kaspa

/-- The last event of a swap is a commitment though an earlier one settled it. -/
def reopens (events : List ChainEvent) (id : SwapId) : Bool :=
  match (events.filter (·.swapId = id)).getLast? with
  | some (.commitment _) => events.any fun e => e.swapId = id && e.isResolving
  | _ => false

private theorem reopens_eq_false {events : List ChainEvent}
    (h : (events.all fun e => !reopens events e.swapId) = true) (id : SwapId) :
    reopens events id = false := by
  by_cases hid : ∃ e ∈ events, e.swapId = id
  · obtain ⟨e, he, rfl⟩ := hid
    simpa using List.all_eq_true.mp h e he
  · have hnone : events.filter (·.swapId = id) = [] := by
      rw [List.filter_eq_nil_iff]
      intro e he heq
      exact hid ⟨e, he, of_decide_eq_true heq⟩
    rw [reopens, hnone]
    rfl

/-- What the tracking of an event does to the refund of one swap: how often it is pending, and
whether its key is queued. -/
def slotStep (id : SwapId) (slot : ℕ × Bool) (event : ChainEvent) : ℕ × Bool :=
  if event.swapId ≠ id then slot
  else if event.isResolving then (0, false)
  else (max slot.1 1, slot.2)

theorem foldl_slotStep (id : SwapId) (slot : ℕ × Bool) (events : List ChainEvent)
    (hslot : slot.1 ≤ 1) :
    events.foldl (slotStep id) slot =
      match (events.filter (·.swapId = id)).getLast? with
      | none => slot
      | some e => if e.isResolving then (0, false)
        else (1, slot.2 && !events.any fun e => e.swapId = id && e.isResolving) := by
  -- from the end, since only the last event of the swap matters
  induction events using List.reverseRecOn with
  | nil => rfl
  | append_singleton events e ih =>
    rw [List.foldl_append, List.foldl_cons, List.foldl_nil, ih, slotStep, List.filter_append]
    by_cases hid : e.swapId = id
    · rw [if_neg (not_not.mpr hid), List.filter_cons_of_pos (by simpa using hid),
        List.filter_nil, List.getLast?_concat]
      cases hres : e.isResolving with
      | true => simp [hres]
      | false =>
        simp only [Bool.false_eq_true, if_false, List.any_append, List.any_cons, List.any_nil, hid,
          hres, decide_true, Bool.and_false, Bool.or_false]
        cases hlast : (events.filter (·.swapId = id)).getLast? with
        | none =>
          have hnone : events.any (fun e => e.swapId = id && e.isResolving) = false := by
            rw [List.getLast?_eq_none_iff, List.filter_eq_nil_iff] at hlast
            rw [List.any_eq_false]
            intro e' he'
            have hne := hlast e' he'
            simp only [decide_eq_true_eq] at hne
            simp [hne]
          simp only [hnone, Bool.not_false, Bool.and_true]
          congr 1
          omega
        | some e' =>
          cases hres' : e'.isResolving with
          | true =>
            have hmem : e' ∈ events.filter (·.swapId = id) := List.mem_of_getLast? hlast
            have hany : events.any (fun e => e.swapId = id && e.isResolving) = true := by
              rw [List.mem_filter] at hmem
              exact List.any_eq_true.mpr ⟨e', hmem.1, by simp_all⟩
            simp [hany, hres']
          | false => simp [hres']
    · rw [if_pos hid, List.filter_cons_of_neg (by simpa using hid), List.filter_nil,
        List.append_nil]
      simp [hid]

namespace State

variable {cfg : Config} {st : State}

/-- How often the refund of a swap is pending, and whether its key is queued. -/
def slot (st : State) (id : SwapId) : ℕ × Bool :=
  ((st.pendingRefunds.map (·.1.swapId)).count id, (st.queue (.refund id)).isSome)

theorem slot_trackActionableEvent (hccr : cfg.participateCcr = true) (event : ChainEvent)
    (id : SwapId) :
    (st.trackActionableEvent cfg event).slot id = slotStep id (st.slot id) event := by
  have hsettled : ∀ id', ((st.pendingRefunds.filter (·.1.swapId ≠ id')).map (·.1.swapId)).count id =
      if id' ≠ id then (st.pendingRefunds.map (·.1.swapId)).count id else 0 := by
    intro id'
    rw [map_filter_refunds]
    split_ifs with hne
    · exact List.count_filter (by simpa using Ne.symm hne)
    · exact List.count_eq_zero_of_not_mem (by simp [not_not.mp hne])
  have hqueue : ∀ id', ((st.queue.recordSuccess (.claim id')).recordSuccess (.refund id')
      (.refund id)).isSome = if id' ≠ id then (st.queue (.refund id)).isSome else false := by
    intro id'
    split_ifs with hne
    · rw [RetryQueue.recordSuccess_of_ne (fun h => hne (ActionKey.refund_injective h).symm),
        RetryQueue.recordSuccess_of_ne (ActionKey.claim_ne_refund _ _).symm]
    · rw [not_not.mp hne, RetryQueue.recordSuccess, Function.update_self]
      rfl
  cases event with
  | commitment c =>
    have hcount := map_queueDequeueRefundEvent st.pendingRefunds (.commitment c)
    simp only at hcount
    simp only [slot, trackActionableEvent, cacheCommitment, persistSwap, hccr, hcount, slotStep,
      ChainEvent.swapId, ChainEvent.isResolving, Bool.false_eq_true, if_false]
    split_ifs with hmem hne hne
    · rfl
    · rw [not_not.mp hne] at hmem
      rw [Nat.max_eq_left (List.count_pos_iff.mpr hmem)]
    · rw [List.count_append, List.count_singleton, if_neg (by simpa using hne), Nat.add_zero]
    · rw [not_not.mp hne] at hmem ⊢
      rw [List.count_append, List.count_singleton_self, List.count_eq_zero_of_not_mem hmem]
      rfl
  | reveal r =>
    simp only [slot, trackActionableEvent, persistSwap, untrack, queueDequeueRefundEvent,
      ChainEvent.swapId, hsettled, hqueue, slotStep, ChainEvent.isResolving, if_true]
    split_ifs
    · rfl
    · rfl
  | refund r =>
    simp only [slot, trackActionableEvent, persistSwap, untrack, queueDequeueRefundEvent,
      ChainEvent.swapId, hsettled, hqueue, slotStep, ChainEvent.isResolving, if_true]
    split_ifs
    · rfl
    · rfl

private theorem slot_foldl_trackActionableEvent (hccr : cfg.participateCcr = true)
    (events : List ChainEvent) (id : SwapId) :
    (events.foldl (trackActionableEvent cfg) st).slot id =
      events.foldl (slotStep id) (st.slot id) := by
  induction events generalizing st with
  | nil => rfl
  | cons event events ih =>
    rw [List.foldl_cons, List.foldl_cons, ih, slot_trackActionableEvent hccr]

/-- The pending work agrees with the queue, and the rows are sound. -/
structure Agrees (st : State) : Prop where
  pending : PendingAgrees st.pendingRefunds st.pendingClaims st.queue
  rows : st.rows.Sound

/-- What holds while the events of a block are tracked: a refund may be pending without its key,
but no key is without its refund. -/
structure Tracked (st : State) : Prop where
  claims : Matches (st.pendingClaims.map (·.swapId)) .claim st.queue
  covered : ∀ id, (st.slot id).2 = true → 0 < (st.slot id).1
  rows : st.rows.Sound

theorem Agrees.tracked (h : st.Agrees) : st.Tracked := by
  refine ⟨h.pending.claims, fun id hqueued => ?_, h.rows⟩
  exact List.count_pos_iff.mpr (h.pending.refunds.mem_iff.mpr hqueued)

private theorem Tracked.agrees_iff (h : st.Tracked) :
    st.Agrees ↔ ∀ id, (st.slot id).1 = if (st.slot id).2 then 1 else 0 :=
  ⟨fun hagrees => hagrees.pending.refunds, fun hslot => ⟨⟨hslot, h.claims⟩, h.rows⟩⟩

theorem tracked_persistSwap (hclaims : Matches (st.pendingClaims.map (·.swapId)) .claim st.queue)
    (hcovered : ∀ id, (st.slot id).2 = true → 0 < (st.slot id).1) (hrows : st.rows.Sound)
    (id : SwapId) : (st.persistSwap id).Tracked :=
  ⟨hclaims, hcovered, hrows.persist (sound_record _
    (fun hqueued => List.count_pos_iff.mp (hcovered id hqueued)) hclaims.mem_iff.mpr)⟩

theorem agrees_persistSwap (hpending : PendingAgrees st.pendingRefunds st.pendingClaims st.queue)
    (hrows : st.rows.Sound) (id : SwapId) : (st.persistSwap id).Agrees :=
  ⟨hpending, hrows.persist (sound_record _ hpending.refunds.mem_iff.mpr
    hpending.claims.mem_iff.mpr)⟩

theorem agrees_empty : empty.Agrees := ⟨⟨fun _ => rfl, fun _ => rfl⟩, SwapRows.sound_empty⟩

theorem Tracked.trackActionableEvent (h : st.Tracked) (hccr : cfg.participateCcr = true)
    (event : ChainEvent) : (st.trackActionableEvent cfg event).Tracked := by
  have hcovered : ∀ id, ((st.trackActionableEvent cfg event).slot id).2 = true →
      0 < ((st.trackActionableEvent cfg event).slot id).1 := by
    intro id
    rw [slot_trackActionableEvent hccr, slotStep]
    split_ifs
    · exact h.covered id
    · exact nofun
    · exact fun _ => Nat.lt_of_lt_of_le Nat.zero_lt_one (Nat.le_max_right _ _)
  have hdropped : ∀ id, Matches ((st.pendingClaims.filter (·.swapId ≠ id)).map (·.swapId)) .claim
      ((st.queue.recordSuccess (.claim id)).recordSuccess (.refund id)) := by
    intro id
    rw [map_filter_claims]
    refine (h.claims.remove ActionKey.claim_injective id).congr fun id' => ?_
    rw [RetryQueue.recordSuccess_of_ne (ActionKey.claim_ne_refund _ _)]
  cases event with
  | commitment c =>
    apply tracked_persistSwap
    · exact h.claims
    · exact hcovered
    · exact h.rows
  | reveal r =>
    apply tracked_persistSwap
    · exact hdropped r.swapId
    · exact hcovered
    · exact h.rows
  | refund r =>
    apply tracked_persistSwap
    · exact hdropped r.swapId
    · exact hcovered
    · exact h.rows

theorem Tracked.trackEvents (h : st.Tracked) (hccr : cfg.participateCcr = true)
    (events : List ChainEvent) : (events.foldl (State.trackActionableEvent cfg) st).Tracked := by
  induction events generalizing st with
  | nil => exact h
  | cons event events ih => exact ih (h.trackActionableEvent hccr event)

/-- The events of a block whose commitments are scheduled keep the agreement exactly if no swap is
reopened. -/
theorem Agrees.trackEvents_iff (h : st.Agrees) (hccr : cfg.participateCcr = true)
    {events : List ChainEvent}
    (hscheduled : ∀ c, .commitment c ∈ events → (st.queue (.refund c.swapId)).isSome) :
    (events.foldl (State.trackActionableEvent cfg) st).Agrees ↔
      ∀ id, reopens events id = false := by
  rw [(h.tracked.trackEvents hccr events).agrees_iff]
  refine forall_congr' fun id => ?_
  have hstart : (st.slot id).1 = if (st.slot id).2 then 1 else 0 := h.pending.refunds id
  have hle : (st.slot id).1 ≤ 1 := by
    rw [hstart]
    split_ifs
    · exact Nat.le_refl 1
    · exact Nat.zero_le 1
  rw [slot_foldl_trackActionableEvent hccr, foldl_slotStep id _ events hle, reopens]
  cases hlast : (events.filter (·.swapId = id)).getLast? with
  | none => simpa using hstart
  | some e =>
    have hmem : e ∈ events.filter (·.swapId = id) := List.mem_of_getLast? hlast
    rw [List.mem_filter, decide_eq_true_eq] at hmem
    cases e with
    | commitment c =>
      have hkey : (st.slot id).2 = true := by
        have hqueued := hscheduled c hmem.1
        rwa [show c.swapId = id from hmem.2] at hqueued
      simp only [ChainEvent.isResolving, Bool.false_eq_true, if_false, hkey, Bool.true_and]
      cases events.any fun e => e.swapId = id && e.isResolving with
      | false => simp
      | true => simp
    | reveal r => simp [ChainEvent.isResolving]
    | refund r => simp [ChainEvent.isResolving]

theorem Agrees.scheduleRefund (h : st.Agrees) (now : UInt64) (refund : SwapId × UInt64) :
    (st.scheduleRefund now refund).Agrees ∧
      ((st.scheduleRefund now refund).queue (.refund refund.1)).isSome := by
  unfold State.scheduleRefund pushPendingRefund
  have hany : st.pendingRefunds.any (·.1.swapId = refund.1) = true ↔
      refund.1 ∈ st.pendingRefunds.map (·.1.swapId) := by
    simp
  by_cases hmem : refund.1 ∈ st.pendingRefunds.map (·.1.swapId)
  · rw [if_pos (hany.mpr hmem)]
    exact ⟨h, h.pending.refunds.mem_iff.mp hmem⟩
  · rw [if_neg (fun h => hmem (hany.mp h))]
    refine ⟨?_, RetryQueue.isSome_ensure_self _ _ now⟩
    apply agrees_persistSwap
    · apply h.pending.pushRefund
      rw [if_neg hmem, List.map_append]
      rfl
    · exact h.rows

private theorem isSome_scheduleRefund {now : UInt64} {refund : SwapId × UInt64} {k : ActionKey}
    (h : (st.queue k).isSome) : ((st.scheduleRefund now refund).queue k).isSome := by
  unfold State.scheduleRefund
  split
  · exact RetryQueue.isSome_ensure h
  · exact h

/-- The refunds of a block are scheduled together with their keys. -/
theorem Agrees.scheduleRefunds (h : st.Agrees) (now : UInt64) (refunds : List (SwapId × UInt64)) :
    (refunds.foldl (State.scheduleRefund now) st).Agrees ∧
      (∀ k, (st.queue k).isSome →
        ((refunds.foldl (State.scheduleRefund now) st).queue k).isSome) ∧
      ∀ r ∈ refunds,
        ((refunds.foldl (State.scheduleRefund now) st).queue (.refund r.1)).isSome := by
  induction refunds generalizing st with
  | nil => exact ⟨h, fun _ hk => hk, nofun⟩
  | cons refund refunds ih =>
    obtain ⟨hagrees, hqueued⟩ := h.scheduleRefund now refund
    obtain ⟨hrest, hkept, hall⟩ := ih hagrees
    refine ⟨hrest, fun k hk => hkept k (isSome_scheduleRefund hk), ?_⟩
    rw [List.forall_mem_cons]
    exact ⟨hkept _ hqueued, hall⟩

end State

open Script

/-- Every commitment of a block comes with a refund to schedule. -/
def BlockOutcomes.Scheduled (o : BlockOutcomes) : Prop :=
  ∀ c, .commitment c ∈ o.events → ∃ r ∈ o.refunds, r.1 = c.swapId

variable {cfg : Config}

theorem BlockOutcomes.Scheduled.append {a b : BlockOutcomes} (ha : a.Scheduled)
    (hb : b.Scheduled) : (a.append b).Scheduled := by
  intro c hc
  rcases List.mem_append.mp hc with hc | hc
  · obtain ⟨r, hr, hid⟩ := ha c hc
    exact ⟨r, List.mem_append_left _ hr, hid⟩
  · obtain ⟨r, hr, hid⟩ := hb c hc
    exact ⟨r, List.mem_append_right _ hr, hid⟩

private theorem scanOutput_scheduled {scripts : WatchedScripts} {output : TransactionOutput}
    {found : BlockOutcomes} (h : scanOutput cfg scripts output = .ok found) : found.Scheduled := by
  unfold scanOutput at h
  split at h
  · cases h
    exact nofun
  · split at h
    · cases h
      exact nofun
    · obtain ⟨ops, -, h⟩ := bind_eq_ok.mp h
      split at h
      · cases h
        exact nofun
      · split at h
        · cases h
          exact nofun
        · cases h
          intro c hc
          refine ⟨_, List.mem_singleton_self _, ?_⟩
          split_ifs at hc
          · cases List.mem_singleton.mp hc
            rfl
          · cases hc

private theorem scanOutputs_scheduled {scripts : WatchedScripts} {tx : Transaction}
    {found : BlockOutcomes}
    (h : scanOutputs cfg scripts tx = .ok found) : found.Scheduled := by
  unfold scanOutputs at h
  obtain ⟨all, hall, h⟩ := bind_eq_ok.mp h
  cases h
  have hscheduled : ∀ o ∈ all, o.Scheduled := by
    intro o ho
    obtain ⟨output, -, houtput⟩ := mem_of_mapM_eq_ok hall ho
    exact scanOutput_scheduled houtput
  have hfold : ∀ (found : List BlockOutcomes) (acc : BlockOutcomes), acc.Scheduled →
      (∀ o ∈ found, o.Scheduled) → (found.foldl BlockOutcomes.append acc).Scheduled := by
    intro found
    induction found with
    | nil => exact fun _ hacc _ => hacc
    | cons o found ih =>
      intro acc hacc hfound
      rw [List.forall_mem_cons] at hfound
      exact ih _ (hacc.append hfound.1) hfound.2
  exact hfold all _ nofun hscheduled

private theorem scanInputs_scheduled (scripts : WatchedScripts) (tx : Transaction) :
    BlockOutcomes.Scheduled ⟨(scanInputs cfg scripts tx).1, []⟩ := by
  intro c hc
  obtain ⟨input, -, redeem, addr, script, closed, -, -, -, hspend⟩ := scanInputs_events hc
  obtain ⟨sigOpcodes, redeemOpcodes, c', -, -, -, ⟨secret, -, hevent⟩ | ⟨-, hevent⟩⟩ :=
    classifySpend_eq_ok hspend
  · cases hevent
  · cases hevent

private theorem handleTransactions_scheduled {txs : List Transaction}
    {scripts scripts' : WatchedScripts}
    {acc outcomes : BlockOutcomes}
    (h : handleTransactions cfg txs scripts acc = (.ok outcomes, scripts'))
    (hacc : acc.Scheduled) : outcomes.Scheduled := by
  induction txs generalizing scripts acc with
  | nil =>
    cases h
    exact hacc
  | cons tx txs ih =>
    rw [handleTransactions] at h
    cases hfound : scanOutputs cfg scripts tx with
    | error e =>
      rw [hfound] at h
      cases h
    | ok found =>
      rw [hfound] at h
      exact ih h ((hacc.append (scanOutputs_scheduled hfound)).append
        (scanInputs_scheduled scripts tx))

/-- What a channel of the UTXO chain is asked to do. -/
inductive WorkInput
  | receive (blocks : List Block)
  | poll (now : UInt64)
  | announce (now : UInt64) (address : String) (redeem : Bytes) (id : SwapId) (unlockTs : UInt64)
      (target : String)
  | emit (now : UInt64) (network : Except KaspaError Network) (event : ChainEvent)
  | success (k : ActionKey)
  | failure (k : ActionKey) (now : UInt64)
  | restart (boot : Boot)

namespace State

def work (cfg : Config) (st : State) : WorkInput → State
  | .receive blocks => { st with safeBlocks := st.safeBlocks ++ blocks }
  | .poll now => (st.pollFinalized cfg now).2
  | .announce now address redeem id unlockTs target =>
    (st.registerScript cfg now address redeem id unlockTs target).2
  | .emit now network event => (st.emitEvent cfg now network event).2
  | .success k => st.recordSuccess k
  | .failure k now => st.recordFailure k now
  | .restart boot => connect cfg boot st

/-- None of the blocks of a poll commits to a swap again after it settles it. -/
def neverReopens (cfg : Config) (now : UInt64) : List Block → State → Bool
  | [], _ => true
  | block :: blocks, st =>
    match handleBlockAdded cfg block st.utxoScripts with
    | (.error _, _) => true
    | (.ok outcomes, _) =>
      (outcomes.events.all fun e => !reopens outcomes.events e.swapId) &&
        neverReopens cfg now blocks (st.processBlock cfg now block).2

/-- A poll reopens no swap, and a restart finds every row once. -/
def Regular (cfg : Config) (st : State) : WorkInput → Prop
  | .poll now => neverReopens cfg now st.safeBlocks { st with safeBlocks := [] } = true
  | .restart boot => boot.order.Nodup
  | _ => True

instance (cfg : Config) (st : State) (input : WorkInput) : Decidable (st.Regular cfg input) :=
  match input with
  | .poll _ => inferInstanceAs (Decidable (_ = true))
  | .restart boot => inferInstanceAs (Decidable boot.order.Nodup)
  | .receive _ | .announce .. | .emit .. | .success _ | .failure .. => .isTrue trivial

variable {st : State}

namespace Agrees

/-- A block keeps the agreement exactly if it reopens no swap. -/
theorem processBlock_iff (h : st.Agrees) (hccr : cfg.participateCcr = true) (now : UInt64)
    {block : Block} {outcomes : BlockOutcomes} {scripts : WatchedScripts}
    (hblock : handleBlockAdded cfg block st.utxoScripts = (.ok outcomes, scripts)) :
    (st.processBlock cfg now block).2.Agrees ↔ ∀ id, reopens outcomes.events id = false := by
  have hwatched : { st with utxoScripts := scripts }.Agrees := ⟨h.pending, h.rows⟩
  obtain ⟨hscheduled, -, hall⟩ := hwatched.scheduleRefunds now outcomes.refunds
  have hfunded : outcomes.Scheduled := handleTransactions_scheduled hblock nofun
  simp only [processBlock, hblock, hccr, if_true]
  refine hscheduled.trackEvents_iff hccr fun c hc => ?_
  obtain ⟨r, hr, hid⟩ := hfunded c hc
  rw [← hid]
  exact hall r hr

theorem pruneScripts (h : st.Agrees) (now : UInt64) : (st.pruneScripts cfg now).Agrees :=
  ⟨h.pending, h.rows⟩

theorem processBlocks (h : st.Agrees) (hccr : cfg.participateCcr = true) (now : UInt64)
    (blocks : List Block) (events : List (ChannelId × ChainEvent))
    (hkept : neverReopens cfg now blocks st = true) :
    (State.processBlocks cfg now blocks st events).2.Agrees := by
  induction blocks generalizing st events with
  | nil => exact h.pruneScripts now
  | cons block blocks ih =>
    rw [neverReopens] at hkept
    rw [State.processBlocks]
    cases hblock : handleBlockAdded cfg block st.utxoScripts with
    | mk result scripts =>
      cases result with
      | error e =>
        simp only [State.processBlock, hblock]
        exact ⟨h.pending, h.rows⟩
      | ok outcomes =>
        rw [hblock] at hkept
        obtain ⟨hopen, hrest⟩ := Bool.and_eq_true_iff.mp hkept
        have hnext := (h.processBlock_iff hccr now hblock).mpr (reopens_eq_false hopen)
        simp only [State.processBlock, hblock] at hnext hrest ⊢
        exact ih hnext _ hrest

theorem registerScript (h : st.Agrees) (now : UInt64) (address : String) (redeem : Bytes)
    (id : SwapId) (unlockTs : UInt64) (target : String) :
    (st.registerScript cfg now address redeem id unlockTs target).2.Agrees := by
  unfold State.registerScript
  split
  · exact h
  · apply agrees_persistSwap
    · exact h.pending
    · exact h.rows

theorem emitEvent (h : st.Agrees) (now : UInt64) (network : Except KaspaError Network)
    (event : ChainEvent) : (st.emitEvent cfg now network event).2.Agrees := by
  cases event with
  | commitment c =>
    unfold State.emitEvent
    simp only
    split_ifs
    · cases submitCommitment cfg network c with
      | error e => exact ⟨h.pending, h.rows⟩
      | ok sent =>
        apply agrees_persistSwap
        · exact h.pending
        · exact h.rows
    · exact ⟨h.pending, h.rows⟩
  | reveal r =>
    unfold State.emitEvent
    simp only
    split_ifs
    · apply agrees_persistSwap
      · exact h.pending.pushClaim r now
      · exact h.rows
    · exact h
  | refund r => exact h

theorem recordSuccess (h : st.Agrees) (k : ActionKey) : (st.recordSuccess k).Agrees := by
  obtain ⟨id, action⟩ := k
  cases action with
  | claim =>
    apply agrees_persistSwap
    · exact h.pending.dropClaim id
    · exact h.rows
  | refund =>
    apply agrees_persistSwap
    · exact h.pending.dropRefund id
    · exact h.rows

theorem recordFailure (h : st.Agrees) (k : ActionKey) (now : UInt64) :
    (st.recordFailure k now).Agrees := by
  apply agrees_persistSwap
  · exact h.pending.congr (RetryQueue.isSome_recordFailure st.queue k · now k.jitter)
  · exact h.rows

theorem work (h : st.Agrees) (hccr : cfg.participateCcr = true) {input : WorkInput}
    (hregular : st.Regular cfg input) : (st.work cfg input).Agrees := by
  cases input with
  | receive blocks => exact ⟨h.pending, h.rows⟩
  | poll now =>
    have hdrained : { st with safeBlocks := [] }.Agrees := ⟨h.pending, h.rows⟩
    exact hdrained.processBlocks hccr now _ _ hregular
  | announce now address redeem id unlockTs target => exact h.registerScript ..
  | emit now network event => exact h.emitEvent now network event
  | success k => exact h.recordSuccess k
  | failure k now => exact h.recordFailure k now
  | restart boot => exact ⟨restored_agrees h.rows hregular boot.now, h.rows⟩

end Agrees
end State
end Kaspa

/-- In every run of the two kinds of channel in which no block of the UTXO chain reopens a swap,
the pending work and the queue agree. -/
theorem pending_work_agrees {RpcLog : Type} (codec : Evm.LogCodec RpcLog) (evm : Evm.Config)
    (kaspa : Kaspa.Config) (hevm : evm.participateCcr = true)
    (hkaspa : kaspa.participateCcr = true) (cursor : UInt64)
    (evmInputs : List (Evm.WorkInput RpcLog))
    (hboots : ∀ boot, .restart boot ∈ evmInputs → boot.order.Nodup)
    (kaspaInputs : List Kaspa.WorkInput)
    (hregular : Runs.Along (Kaspa.State.work kaspa) (Kaspa.State.Regular kaspa) .empty
      kaspaInputs) :
    let st := Runs.final (Evm.State.work codec evm) (.empty cursor) evmInputs
    let st' := Runs.final (Kaspa.State.work kaspa) .empty kaspaInputs
    PendingAgrees st.pendingRefunds st.pendingClaims st.queue ∧
      PendingAgrees st'.pendingRefunds st'.pendingClaims st'.queue := by
  constructor
  · have hrun : ∀ (ins : List (Evm.WorkInput RpcLog)) (st : Evm.State), st.Agrees →
        (∀ boot, .restart boot ∈ ins → boot.order.Nodup) →
        (Runs.final (Evm.State.work codec evm) st ins).Agrees := by
      intro ins
      induction ins with
      | nil => exact fun st h _ => h
      | cons input ins ih =>
        intro st h hins
        refine ih _ (h.work hevm fun boot hboot => ?_) fun boot hin => hins boot (.tail _ hin)
        exact hins boot (hboot ▸ List.mem_cons_self)
    exact (hrun evmInputs _ (Evm.State.agrees_empty cursor) hboots).pending
  · exact (Runs.Along.invariant (I := Kaspa.State.Agrees)
      (fun _ _ h hregular => h.work hkaspa hregular) Kaspa.State.agrees_empty hregular).pending

open Kaspa Htlc Script

def ownPayment : Transaction :=
  ⟨[⟨⟨.filled 51, 0⟩, [], 0⟩], [⟨1000, ⟨0, payToScriptHashScript ownRedeemHash⟩⟩], 0⟩

/-- Two scripts with one id are announced and the first is funded. -/
def twoScriptsInputs : List Kaspa.WorkInput :=
  [.announce 100 sampleAddress sampleRedeem (.filled 3) 1000 "100000000",
    .announce 100 ownAddress ownRedeem (.filled 3) 280 "1000",
    .receive [⟨.filled 40, 0, [fundingTx.toTransaction]⟩], .poll 110]

/-- The claim of the first script and the funding of the second in two blocks. -/
def apartInputs : List Kaspa.WorkInput :=
  twoScriptsInputs ++ [.receive [⟨.filled 41, 0, [sampleClaim.tx.toTransaction]⟩,
    ⟨.filled 42, 0, [ownPayment]⟩], .poll 120, .restart ⟨130, 0, [.filled 3], fun _ => none⟩]

theorem pending_work_agrees_apart :
    PendingAgrees
      (Runs.final (Kaspa.State.work ownNode.kaspa) .empty apartInputs).pendingRefunds
      (Runs.final (Kaspa.State.work ownNode.kaspa) .empty apartInputs).pendingClaims
      (Runs.final (Kaspa.State.work ownNode.kaspa) .empty apartInputs).queue ∧
    ((Runs.final (Kaspa.State.work ownNode.kaspa) .empty apartInputs).queue
      (.refund (.filled 3))).isSome := by
  refine ⟨(pending_work_agrees Evm.plainCodec (sampleNode.evm .ethereumSepolia) ownNode.kaspa rfl
    rfl 0 [] nofun apartInputs ?_).2, by decide +kernel⟩
  exact ⟨trivial, trivial, trivial, by decide +kernel, trivial, by decide +kernel, by decide,
    trivial⟩

/-- One block has the claim of the first script and the funding of the second. -/
def reopeningInputs : List Kaspa.WorkInput :=
  twoScriptsInputs ++ [.receive [⟨.filled 41, 0, [sampleClaim.tx.toTransaction, ownPayment]⟩],
    .poll 120]

/-- The refund is pending, but nothing will attempt it. -/
theorem reopened_refund_not_queued :
    ownNode.kaspa.participateCcr = true ∧
      (Runs.final (Kaspa.State.work ownNode.kaspa) .empty reopeningInputs).pendingRefunds =
        [(⟨.filled 3⟩, 280)] ∧
      (Runs.final (Kaspa.State.work ownNode.kaspa) .empty reopeningInputs).queue
        (.refund (.filled 3)) = none ∧
      ¬ PendingAgrees
        (Runs.final (Kaspa.State.work ownNode.kaspa) .empty reopeningInputs).pendingRefunds
        (Runs.final (Kaspa.State.work ownNode.kaspa) .empty reopeningInputs).pendingClaims
        (Runs.final (Kaspa.State.work ownNode.kaspa) .empty reopeningInputs).queue := by
  have hfacts : ownNode.kaspa.participateCcr = true ∧
      (Runs.final (Kaspa.State.work ownNode.kaspa) .empty reopeningInputs).pendingRefunds =
        [(⟨.filled 3⟩, 280)] ∧
      (Runs.final (Kaspa.State.work ownNode.kaspa) .empty reopeningInputs).queue
        (.refund (.filled 3)) = none := by
    decide +kernel
  refine ⟨hfacts.1, hfacts.2.1, hfacts.2.2, fun hagrees => ?_⟩
  have hcount := hagrees.refunds (.filled 3)
  rw [hfacts.2.1, hfacts.2.2] at hcount
  revert hcount
  decide

end Stroemnet
