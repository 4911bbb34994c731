import Stroemnet.ClaimIntegrity
import Stroemnet.EvmSettlement
import Stroemnet.SnapshotWrites

/-! # Rows of two tasks

The task that settles and the task that follows the chain both write the rows of swaps, each
after its own updates and from a snapshot that it takes under several locks. -/
namespace Stroemnet
open Snapshots

inductive RowField
  | script | pendingRefund | pendingClaim | claimAttempt | refundAttempt
deriving DecidableEq

namespace RowField

def Value : RowField → Type
  | .script => Option UtxoScript
  | .pendingRefund => Option (RefundV1 × UInt64)
  | .pendingClaim => Option RevealV1
  | .claimAttempt => Option AttemptState
  | .refundAttempt => Option AttemptState

instance (f : RowField) : DecidableEq f.Value :=
  match f with
  | .script => inferInstanceAs (DecidableEq (Option UtxoScript))
  | .pendingRefund => inferInstanceAs (DecidableEq (Option (RefundV1 × UInt64)))
  | .pendingClaim => inferInstanceAs (DecidableEq (Option RevealV1))
  | .claimAttempt => inferInstanceAs (DecidableEq (Option AttemptState))
  | .refundAttempt => inferInstanceAs (DecidableEq (Option AttemptState))

instance (f : RowField) : Inhabited f.Value :=
  match f with
  | .script => ⟨(none : Option UtxoScript)⟩
  | .pendingRefund => ⟨(none : Option (RefundV1 × UInt64))⟩
  | .pendingClaim => ⟨(none : Option RevealV1)⟩
  | .claimAttempt => ⟨(none : Option AttemptState)⟩
  | .refundAttempt => ⟨(none : Option AttemptState)⟩

end RowField

namespace PersistedSwap

def field (p : PersistedSwap) : (f : RowField) → f.Value
  | .script => p.script
  | .pendingRefund => p.pendingRefund
  | .pendingClaim => p.pendingClaim
  | .claimAttempt => p.claimAttempt
  | .refundAttempt => p.refundAttempt

def ofFields (c : (f : RowField) → f.Value) : PersistedSwap :=
  ⟨c .script, c .pendingRefund, c .pendingClaim, c .claimAttempt, c .refundAttempt⟩

@[simp] theorem ofFields_field (p : PersistedSwap) : ofFields p.field = p := rfl

/-- What is stored of a record: nothing when it is empty. -/
def stored (p : PersistedSwap) : Option PersistedSwap := if p.isEmpty then none else some p

end PersistedSwap

/-- A row on disk says what the memory holds: it is the record, it is absent exactly when the
record is empty, and the pending claim on disk is the one in memory. -/
structure Records (row : Option PersistedSwap) (record : PersistedSwap) : Prop where
  row_eq : row.all (· = record)
  absent_iff : row = none ↔ record.isEmpty
  pendingClaim_eq : row.bind (·.pendingClaim) = record.pendingClaim

theorem records_iff {row : Option PersistedSwap} {p : PersistedSwap} :
    Records row p ↔ row = p.stored := by
  unfold PersistedSwap.stored
  constructor
  · intro h
    cases hrow : row with
    | none => rw [if_pos (h.absent_iff.mp hrow)]
    | some r =>
      have hr : r = p := by simpa [hrow] using h.row_eq
      have hempty : ¬ p.isEmpty := by simp [← h.absent_iff, hrow]
      rw [if_neg hempty, hr]
  · rintro rfl
    split_ifs with hempty
    · refine ⟨rfl, by simp [hempty], ?_⟩
      simp only [PersistedSwap.isEmpty, Bool.and_eq_true, Option.isNone_iff_eq_none] at hempty
      exact hempty.1.1.2.symm
    · exact ⟨by simp, by simp [hempty], rfl⟩

def rowLayout {M : Type} (record : M → SwapId → PersistedSwap) (rows : M → SwapRows)
    (write : M → SwapRows → M)
    (hrecord : ∀ m r, record (write m r) = record m) (hrows : ∀ m r, rows (write m r) = r) :
    Layout M SwapId RowField PersistedSwap RowField.Value where
  project m id := (record m id).field
  encode c := (PersistedSwap.ofFields c).stored
  rows := rows
  save m id c := write m ((rows m).persist id (.ofFields c))
  project_save m id c := by rw [hrecord]
  rows_save m id c := hrows m _

section
variable {id j : SwapId}

theorem find?_filter_ne {α : Type} (swap : α → SwapId) (h : j ≠ id) (l : List α) :
    (l.filter (swap · ≠ id)).find? (swap · = j) = l.find? (swap · = j) := by
  rw [List.find?_filter]
  congr 1
  funext x
  by_cases hx : swap x = j
  · simp [hx, h]
  · simp [hx]

theorem find?_append_ne {α : Type} (swap : α → SwapId) (h : j ≠ id) (l : List α) {x : α}
    (hx : swap x = id) : (l ++ [x]).find? (swap · = j) = l.find? (swap · = j) := by
  simp [hx, Ne.symm h]

theorem find?_pushPendingClaim {r : RevealV1} (h : j ≠ r.swapId) (l : List RevealV1) :
    (pushPendingClaim l r).find? (·.swapId = j) = l.find? (·.swapId = j) := by
  unfold pushPendingClaim
  split_ifs
  · rfl
  · exact find?_append_ne (·.swapId) h l rfl

theorem find?_queueDequeueRefundEvent {event : ChainEvent} (h : j ≠ event.swapId) (ccr : Bool)
    (l : PendingRefunds) : (queueDequeueRefundEvent l event ccr).find? (·.1.swapId = j) =
      l.find? (·.1.swapId = j) := by
  cases event with
  | commitment c =>
    simp only [queueDequeueRefundEvent]
    split_ifs
    · exact find?_append_ne (·.1.swapId) h l (x := (⟨c.swapId⟩, c.unlockTs)) rfl
    · rfl
  | reveal r => exact find?_filter_ne (·.1.swapId) h l
  | refund r => exact find?_filter_ne (·.1.swapId) h l

def QueueConfined (id : SwapId) (g : RetryQueue → RetryQueue) : Prop :=
  ∀ q (k : ActionKey), k.swapId ≠ id → g q k = q k

theorem ne_of_swapId_ne {k k' : ActionKey} (h : k'.swapId ≠ k.swapId) : k' ≠ k :=
  fun heq => h (heq ▸ rfl)

theorem queueConfined_recordSuccess (k : ActionKey) :
    QueueConfined k.swapId (·.recordSuccess k) :=
  fun _ _ hne => RetryQueue.recordSuccess_of_ne (ne_of_swapId_ne hne)

theorem queueConfined_modify (k : ActionKey) (f : AttemptState → AttemptState) :
    QueueConfined k.swapId (·.modify k f) :=
  fun _ _ hne => RetryQueue.modify_of_ne (ne_of_swapId_ne hne)

theorem queueConfined_ensure (k : ActionKey) (now : UInt64) :
    QueueConfined k.swapId (·.ensure k now) := by
  intro q k' hne
  simp only [RetryQueue.ensure]
  split_ifs
  · rfl
  · exact Function.update_of_ne (ne_of_swapId_ne hne) _ _

end

inductive Task
  | settler | driver
deriving DecidableEq

instance : Fintype Task := ⟨{.settler, .driver}, fun t => by cases t <;> decide⟩

/-- What happens next: a call begins, or a task takes its next step. -/
inductive RowInput (Call : Type)
  | call (c : Call)
  | step (t : Task)

/-- The calls that write rows: the task that makes them, what they go on to do by what they find in
memory when they begin, and what a call does when nothing comes in between. -/
structure RowCalls {M : Type} (Call : Type)
    (L : Layout M SwapId RowField PersistedSwap RowField.Value) where
  task : Call → Task
  operation : Call → M → Option (Operation L)
  alone : Call → M → M
  alone_eq (c : Call) (m : M) : alone c m = ((operation c m).map (·.result m)).getD m

namespace RowCalls

variable {M Call : Type} {L : Layout M SwapId RowField PersistedSwap RowField.Value}

def input (calls : RowCalls Call L) : RowInput Call → Input Task L
  | .call c => .start (calls.task c) (calls.operation c)
  | .step t => .step t

/-- The calls and steps of the tasks, from a memory on which no call is under way. -/
def interleave (calls : RowCalls Call L) (m : M) (ins : List (RowInput Call)) : System Task L :=
  Runs.final System.step (.idle m) (ins.map calls.input)

/-- Every write of an interleaving is of a copy that was not overtaken, or precedes another one. -/
def WritesFresh (calls : RowCalls Call L) (m : M) (ins : List (RowInput Call)) : Prop :=
  Runs.Along System.step System.WritesFresh (.idle m) (ins.map calls.input)

instance (calls : RowCalls Call L) (m : M) (ins : List (RowInput Call)) :
    Decidable (calls.WritesFresh m ins) :=
  inferInstanceAs (Decidable (Runs.Along _ _ _ _))

/-- The steps of a call that runs alone do what the call does. -/
theorem interleave_alone (calls : RowCalls Call L) (m : M) {c : Call} {op : Operation L}
    (hop : calls.operation c m = some op) :
    calls.interleave m (.call c ::
      List.replicate (op.updates.length + (op.reads.length + 1)) (.step (calls.task c))) =
      .idle (calls.alone c m) := by
  rw [interleave, List.map_cons, List.map_replicate, calls.alone_eq, hop]
  exact System.final_alone (calls.task c) m hop

/-- The rows are current whenever the tasks are done with them. -/
theorem current_interleave {calls : RowCalls Call L} {m : M} {ins : List (RowInput Call)}
    (hstart : ∀ id, Current L m id) (hfresh : calls.WritesFresh m ins) {id : SwapId}
    (hquiet : (calls.interleave m ins).Quiet id) : Current L (calls.interleave m ins).mem id :=
  System.current_of_writesFresh (.idle hstart) hfresh hquiet

end RowCalls

namespace Evm

def layout : Layout State SwapId RowField PersistedSwap RowField.Value :=
  rowLayout State.swapRecord State.rows (fun st rows => { st with rows := rows }) (fun _ _ => rfl)
    fun _ _ => rfl

def onQueue (g : RetryQueue → RetryQueue) : Update State :=
  ⟨false, fun st => { st with queue := g st.queue }⟩

def onState (refunds : PendingRefunds → PendingRefunds) (claims : List RevealV1 → List RevealV1) :
    Update State :=
  ⟨true, fun st => { st with
    pendingRefunds := refunds st.pendingRefunds, pendingClaims := claims st.pendingClaims }⟩

theorem confined_onQueue {id : SwapId} {g : RetryQueue → RetryQueue} (hg : QueueConfined id g) :
    (onQueue g).Confined layout id where
  rows _ := rfl
  project st j hne := by
    have hclaim := hg st.queue (.claim j) hne
    have hrefund := hg st.queue (.refund j) hne
    funext f
    cases f with
    | script => rfl
    | pendingRefund => rfl
    | pendingClaim => rfl
    | claimAttempt => exact hclaim
    | refundAttempt => exact hrefund

theorem confined_onState {id : SwapId} {refunds : PendingRefunds → PendingRefunds}
    {claims : List RevealV1 → List RevealV1}
    (hrefunds : ∀ l, ∀ j ≠ id, (refunds l).find? (·.1.swapId = j) = l.find? (·.1.swapId = j))
    (hclaims : ∀ l, ∀ j ≠ id, (claims l).find? (·.swapId = j) = l.find? (·.swapId = j)) :
    (onState refunds claims).Confined layout id where
  rows _ := rfl
  project st j hne := by
    funext f
    cases f with
    | script => rfl
    | pendingRefund => exact hrefunds st.pendingRefunds j hne
    | pendingClaim => exact hclaims st.pendingClaims j hne
    | claimAttempt => rfl
    | refundAttempt => rfl

/-- The pending work is copied under the lock of the state, which is held until the attempts are
copied as well. -/
def persisting (id : SwapId) (updates : List (Update State))
    (confined : ∀ u ∈ updates, u.Confined layout id) : Operation layout where
  id := id
  updates := updates
  reads := [[.script, .pendingRefund, .pendingClaim], [.claimAttempt], [.refundAttempt]]
  holds := true
  confined := confined
  covers f := by cases f <;> decide

/-- The calls that write a row: the results of attempts and the replacements by the settler, the
tracked events and the emitted reveals by the driver. -/
inductive RowCall
  | recordFailure (k : ActionKey) (now : UInt64)
  | recordSuccess (k : ActionKey)
  | replacement (answers : SettleAnswers) (k : ActionKey)
  | trackActionableEvent (now : UInt64) (event : ChainEvent)
  | emitReveal (now : UInt64) (r : RevealV1)

namespace RowCall

def task : RowCall → Task
  | recordFailure _ _ | recordSuccess _ | replacement _ _ => .settler
  | trackActionableEvent _ _ | emitReveal _ _ => .driver

def recordFailureOp (k : ActionKey) (now : UInt64) : Operation layout :=
  persisting k.swapId [onQueue (·.recordFailure k now k.jitter)] (by
    rw [List.forall_mem_singleton]
    exact confined_onQueue (queueConfined_modify k _))

def recordSuccessOp (k : ActionKey) : Operation layout :=
  persisting k.swapId
    [onQueue (·.recordSuccess k),
      match k.action with
      | .claim => onState id (·.filter (·.swapId ≠ k.swapId))
      | .refund => onState (·.filter (·.1.swapId ≠ k.swapId)) id] (by
    rw [List.forall_mem_cons, List.forall_mem_singleton]
    refine ⟨confined_onQueue (queueConfined_recordSuccess k), ?_⟩
    cases k.action with
    | claim => exact confined_onState (fun _ _ _ => rfl) fun l _ h => find?_filter_ne (·.swapId) h l
    | refund =>
      exact confined_onState (fun l _ h => find?_filter_ne (·.1.swapId) h l) fun _ _ _ => rfl)

def replacementOp (k : ActionKey) (r : Replacement) : Operation layout :=
  persisting k.swapId
    ((if r.fresh then [onQueue (·.setNonce k r.nonce)] else []) ++ [onQueue (·.setLastGas k r.gas)])
    (by
      rw [List.forall_mem_append, List.forall_mem_singleton]
      refine ⟨?_, confined_onQueue (queueConfined_modify k _)⟩
      split_ifs
      · rw [List.forall_mem_singleton]
        exact confined_onQueue (queueConfined_modify k _)
      · exact fun _ => nofun)

def trackActionableEventOp (cfg : Config) (now : UInt64) (event : ChainEvent) : Operation layout :=
  persisting event.swapId
    (onState (queueDequeueRefundEvent · event cfg.participateCcr)
        (fun l => if event.isResolving then l.filter (·.swapId ≠ event.swapId) else l) ::
      if event.isResolving then
        [onQueue (·.recordSuccess (.claim event.swapId)),
          onQueue (·.recordSuccess (.refund event.swapId))]
      else if cfg.participateCcr then [onQueue (·.ensure (.refund event.swapId) now)]
      else []) (by
    rw [List.forall_mem_cons]
    refine ⟨confined_onState (fun l _ h => find?_queueDequeueRefundEvent h _ l) fun l j h => ?_, ?_⟩
    · split_ifs
      · exact find?_filter_ne (·.swapId) h l
      · rfl
    · split_ifs
      · rw [List.forall_mem_cons, List.forall_mem_singleton]
        exact ⟨confined_onQueue (queueConfined_recordSuccess (.claim event.swapId)),
          confined_onQueue (queueConfined_recordSuccess (.refund event.swapId))⟩
      · rw [List.forall_mem_singleton]
        exact confined_onQueue (queueConfined_ensure (.refund event.swapId) now)
      · exact fun _ => nofun)

def emitRevealOp (now : UInt64) (r : RevealV1) : Operation layout :=
  persisting r.swapId
    [onState id (pushPendingClaim · r), onQueue (·.ensure (.claim r.swapId) now)] (by
    rw [List.forall_mem_cons, List.forall_mem_singleton]
    exact ⟨confined_onState (fun _ _ _ => rfl) fun l _ h => find?_pushPendingClaim h l,
      confined_onQueue (queueConfined_ensure (.claim r.swapId) now)⟩)

/-- What a call goes on to do, by what it finds in memory when it begins. -/
def operation (cfg : Config) : RowCall → State → Option (Operation layout)
  | recordFailure k now, _ => some (recordFailureOp k now)
  | recordSuccess k, _ => some (recordSuccessOp k)
  | replacement answers k, st =>
    ((st.queue k).bind (planReplacement answers)).map (replacementOp k)
  | trackActionableEvent now event, _ => some (trackActionableEventOp cfg now event)
  | emitReveal now r, _ => if cfg.participateCcr then some (emitRevealOp now r) else none

def alone (cfg : Config) : RowCall → State → State
  | recordFailure k now, st => st.recordFailure k now
  | recordSuccess k, st => st.recordSuccess k
  | replacement answers k, st => (st.replacement answers k).2
  | trackActionableEvent now event, st => st.trackActionableEvent cfg now event
  | emitReveal now r, st => (st.emitEvent cfg now (.ok ()) (.reveal r)).2

/-- The steps of a call do what the channel does when nothing comes in between. -/
theorem alone_eq (cfg : Config) (call : RowCall) (st : State) :
    call.alone cfg st = ((call.operation cfg st).map (·.result st)).getD st := by
  cases call with
  | recordFailure k now => rfl
  | recordSuccess k =>
    obtain ⟨i, action⟩ := k
    cases action with
    | claim => rfl
    | refund => rfl
  | replacement answers k =>
    simp only [alone, operation, State.replacement]
    cases (st.queue k).bind (planReplacement answers) with
    | none => rfl
    | some r =>
      obtain ⟨nonce, fresh, gas⟩ := r
      cases fresh with
      | true => rfl
      | false => rfl
  | trackActionableEvent now event =>
    cases event with
    | commitment c =>
      cases hccr : cfg.participateCcr with
      | true => simp [alone, operation, State.trackActionableEvent, hccr, trackActionableEventOp,
          Operation.result, persisting, onState, onQueue, ChainEvent.isResolving, layout, rowLayout,
          State.persistSwap]
      | false => simp [alone, operation, State.trackActionableEvent, hccr, trackActionableEventOp,
          Operation.result, persisting, onState, ChainEvent.isResolving, layout, rowLayout,
          State.persistSwap]
    | reveal r => rfl
    | refund r => rfl
  | emitReveal now r =>
    simp only [alone, operation, State.emitEvent]
    cases cfg.participateCcr with
    | true => rfl
    | false => rfl

end RowCall

def rowCalls (cfg : Config) : RowCalls RowCall layout where
  task := RowCall.task
  operation := RowCall.operation cfg
  alone := RowCall.alone cfg
  alone_eq := RowCall.alone_eq cfg

end Evm

namespace Kaspa

def layout : Layout State SwapId RowField PersistedSwap RowField.Value :=
  rowLayout State.swapRecord State.rows (fun st rows => { st with rows := rows }) (fun _ _ => rfl)
    fun _ _ => rfl

def atomic (run : State → State) : Update State := ⟨false, run⟩

theorem confined_atomic {id : SwapId} {run : State → State} (hrows : ∀ st, (run st).rows = st.rows)
    (hrecord : ∀ st, ∀ j ≠ id, (run st).swapRecord j = st.swapRecord j) :
    (atomic run).Confined layout id where
  rows := hrows
  project st j hne := congrArg PersistedSwap.field (hrecord st j hne)

def onQueue (g : RetryQueue → RetryQueue) : Update State :=
  atomic fun st => { st with queue := g st.queue }

def onRefunds (g : PendingRefunds → PendingRefunds) : Update State :=
  atomic fun st => { st with pendingRefunds := g st.pendingRefunds }

def onClaims (g : List RevealV1 → List RevealV1) : Update State :=
  atomic fun st => { st with pendingClaims := g st.pendingClaims }

theorem confined_onQueue {id : SwapId} {g : RetryQueue → RetryQueue} (hg : QueueConfined id g) :
    (onQueue g).Confined layout id := by
  refine confined_atomic (fun _ => rfl) fun st j hne => ?_
  have hclaim := hg st.queue (.claim j) hne
  have hrefund := hg st.queue (.refund j) hne
  simp only [State.swapRecord, hclaim, hrefund]

theorem confined_onRefunds {id : SwapId} {g : PendingRefunds → PendingRefunds}
    (hg : ∀ l, ∀ j ≠ id, (g l).find? (·.1.swapId = j) = l.find? (·.1.swapId = j)) :
    (onRefunds g).Confined layout id := by
  refine confined_atomic (fun _ => rfl) fun st j hne => ?_
  simp only [State.swapRecord, hg st.pendingRefunds j hne]

theorem confined_onClaims {id : SwapId} {g : List RevealV1 → List RevealV1}
    (hg : ∀ l, ∀ j ≠ id, (g l).find? (·.swapId = j) = l.find? (·.swapId = j)) :
    (onClaims g).Confined layout id := by
  refine confined_atomic (fun _ => rfl) fun st j hne => ?_
  simp only [State.swapRecord, hg st.pendingClaims j hne]

/-- Every field is copied under a lock of its own. -/
def persisting (id : SwapId) (updates : List (Update State))
    (confined : ∀ u ∈ updates, u.Confined layout id) : Operation layout where
  id := id
  updates := updates
  reads := [[.pendingRefund], [.pendingClaim], [.script], [.claimAttempt], [.refundAttempt]]
  holds := false
  confined := confined
  covers f := by cases f <;> decide

/-- The calls that write a row: the results of attempts by the settler, the tracked events and the
emitted reveals by the driver. -/
inductive RowCall
  | recordFailure (k : ActionKey) (now : UInt64)
  | recordSuccess (k : ActionKey)
  | trackActionableEvent (event : ChainEvent)
  | emitReveal (now : UInt64) (r : RevealV1)

namespace RowCall

def task : RowCall → Task
  | recordFailure _ _ | recordSuccess _ => .settler
  | trackActionableEvent _ | emitReveal _ _ => .driver

def recordFailureOp (k : ActionKey) (now : UInt64) : Operation layout :=
  persisting k.swapId [onQueue (·.recordFailure k now k.jitter)] (by
    rw [List.forall_mem_singleton]
    exact confined_onQueue (queueConfined_modify k _))

def recordSuccessOp (k : ActionKey) : Operation layout :=
  persisting k.swapId
    [onQueue (·.recordSuccess k),
      match k.action with
      | .claim => onClaims (·.filter (·.swapId ≠ k.swapId))
      | .refund => onRefunds (·.filter (·.1.swapId ≠ k.swapId))] (by
    rw [List.forall_mem_cons, List.forall_mem_singleton]
    refine ⟨confined_onQueue (queueConfined_recordSuccess k), ?_⟩
    cases k.action with
    | claim => exact confined_onClaims fun l _ h => find?_filter_ne (·.swapId) h l
    | refund => exact confined_onRefunds fun l _ h => find?_filter_ne (·.1.swapId) h l)

/-- A settled swap is taken from the trackers one after the other. -/
def untracking (id : SwapId) : List (Update State) :=
  [onQueue (·.recordSuccess (.claim id)), onQueue (·.recordSuccess (.refund id)),
    onClaims (·.filter (·.swapId ≠ id)),
    atomic fun st => { st with commitments := Function.update st.commitments id none },
    atomic fun st => { st with scripts := Function.update st.scripts id none }]

private theorem confined_untracking (id : SwapId) : ∀ u ∈ untracking id, u.Confined layout id := by
  simp only [untracking, List.forall_mem_cons]
  refine ⟨confined_onQueue (queueConfined_recordSuccess (.claim id)),
    confined_onQueue (queueConfined_recordSuccess (.refund id)),
    confined_onClaims fun l _ h => find?_filter_ne (·.swapId) h l,
    confined_atomic (fun _ => rfl) (fun _ _ _ => rfl),
    confined_atomic (fun _ => rfl) (fun st j hne => ?_), fun _ => nofun⟩
  simp only [State.swapRecord, Function.update_of_ne hne]

def trackActionableEventOp (cfg : Config) (event : ChainEvent) : Operation layout :=
  persisting event.swapId
    ((match event with
      | .commitment c => [atomic (·.cacheCommitment c)]
      | _ => []) ++ onRefunds (queueDequeueRefundEvent · event cfg.participateCcr) ::
        if event.isResolving then untracking event.swapId else []) (by
    rw [List.forall_mem_append, List.forall_mem_cons]
    refine ⟨?_, confined_onRefunds fun l _ h => find?_queueDequeueRefundEvent h _ l, ?_⟩
    · cases event with
      | commitment c =>
        rw [List.forall_mem_singleton]
        exact confined_atomic (fun _ => rfl) (fun _ _ _ => rfl)
      | reveal r => exact fun _ => nofun
      | refund r => exact fun _ => nofun
    · split_ifs
      · exact confined_untracking event.swapId
      · exact fun _ => nofun)

def emitRevealOp (now : UInt64) (r : RevealV1) : Operation layout :=
  persisting r.swapId
    [onClaims (pushPendingClaim · r), onQueue (·.ensure (.claim r.swapId) now)] (by
    rw [List.forall_mem_cons, List.forall_mem_singleton]
    exact ⟨confined_onClaims fun l _ h => find?_pushPendingClaim h l,
      confined_onQueue (queueConfined_ensure (.claim r.swapId) now)⟩)

/-- What a call goes on to do, by what it finds in memory when it begins. -/
def operation (cfg : Config) : RowCall → State → Option (Operation layout)
  | recordFailure k now, _ => some (recordFailureOp k now)
  | recordSuccess k, _ => some (recordSuccessOp k)
  | trackActionableEvent event, _ => some (trackActionableEventOp cfg event)
  | emitReveal now r, st =>
    if cfg.participateCcr && (st.commitments r.swapId).isSome then some (emitRevealOp now r)
    else none

def alone (cfg : Config) : RowCall → State → State
  | recordFailure k now, st => st.recordFailure k now
  | recordSuccess k, st => st.recordSuccess k
  | trackActionableEvent event, st => st.trackActionableEvent cfg event
  | emitReveal now r, st => (st.emitEvent cfg now (.error (.other "")) (.reveal r)).2

/-- The steps of a call do what the channel does when nothing comes in between. -/
theorem alone_eq (cfg : Config) (call : RowCall) (st : State) :
    call.alone cfg st = ((call.operation cfg st).map (·.result st)).getD st := by
  cases call with
  | recordFailure k now => rfl
  | recordSuccess k =>
    obtain ⟨i, action⟩ := k
    cases action with
    | claim => rfl
    | refund => rfl
  | trackActionableEvent event =>
    cases event with
    | commitment c => rfl
    | reveal r => rfl
    | refund r => rfl
  | emitReveal now r =>
    simp only [alone, operation, State.emitEvent]
    cases cfg.participateCcr && (st.commitments r.swapId).isSome with
    | true => rfl
    | false => rfl

end RowCall

def rowCalls (cfg : Config) : RowCalls RowCall layout where
  task := RowCall.task
  operation := RowCall.operation cfg
  alone := RowCall.alone cfg
  alone_eq := RowCall.alone_eq cfg

end Kaspa

/-- On either chain, in every interleaving of the settler and the driver that writes no overtaken
copy last, the row of a swap is current whenever no call on the swap is under way. -/
theorem stored_rows_current (evm : Evm.Config) (kaspa : Kaspa.Config) :
    (∀ (st : Evm.State) (ins : List (RowInput Evm.RowCall)),
      (∀ id, Records (st.rows id) (st.swapRecord id)) → (Evm.rowCalls evm).WritesFresh st ins →
      ∀ id, ((Evm.rowCalls evm).interleave st ins).Quiet id →
        Records (((Evm.rowCalls evm).interleave st ins).mem.rows id)
          (((Evm.rowCalls evm).interleave st ins).mem.swapRecord id)) ∧
    (∀ (st : Kaspa.State) (ins : List (RowInput Kaspa.RowCall)),
      (∀ id, Records (st.rows id) (st.swapRecord id)) → (Kaspa.rowCalls kaspa).WritesFresh st ins →
      ∀ id, ((Kaspa.rowCalls kaspa).interleave st ins).Quiet id →
        Records (((Kaspa.rowCalls kaspa).interleave st ins).mem.rows id)
          (((Kaspa.rowCalls kaspa).interleave st ins).mem.swapRecord id)) := by
  constructor
  · intro st ins hstart hfresh id hquiet
    have hcurrent : ∀ i, Current Evm.layout st i := fun i => records_iff.mp (hstart i)
    exact records_iff.mpr (RowCalls.current_interleave hcurrent hfresh hquiet)
  · intro st ins hstart hfresh id hquiet
    have hcurrent : ∀ i, Current Kaspa.layout st i := fun i => records_iff.mp (hstart i)
    exact records_iff.mpr (RowCalls.current_interleave hcurrent hfresh hquiet)

namespace Evm

def rowReveal : RevealV1 := ⟨.filled 3, .filled 7⟩

/-- A claim is pending and its row written; an attempt fails, and its row is copied; the reveal is
then seen on the chain, and the driver makes its updates. -/
def failedThenRevealed : List (RowInput RowCall) :=
  .call (.emitReveal 100 rowReveal) :: List.replicate 6 (.step .driver) ++
    .call (.recordFailure (.claim (.filled 3)) 200) :: List.replicate 4 (.step .settler) ++
    .call (.trackActionableEvent 300 (.reveal rowReveal)) :: List.replicate 3 (.step .driver)

def sampleRowCalls : RowCalls RowCall layout := rowCalls (sampleNode.evm .ethereumSepolia)

/-- The driver deletes the row and the settler then writes the one it has copied before. -/
def settlerLast : List (RowInput RowCall) :=
  failedThenRevealed ++ List.replicate 4 (.step .driver) ++ [.step .settler]

def settlerFirst : List (RowInput RowCall) :=
  failedThenRevealed ++ .step .settler :: List.replicate 4 (.step .driver)

def afterSettlerLast : System Task layout := sampleRowCalls.interleave (.empty 0) settlerLast

def afterSettlerFirst : System Task layout := sampleRowCalls.interleave (.empty 0) settlerFirst

theorem records_empty (id : SwapId) :
    Records ((State.empty 0).rows id) ((State.empty 0).swapRecord id) := records_iff.mpr rfl

theorem quiet_of_done {s : System Task layout} (hsettler : (s.running .settler).isNone)
    (hdriver : (s.running .driver).isNone) (id : SwapId) : s.Quiet id := by
  intro t p hp
  cases t with
  | settler => simp [hp] at hsettler
  | driver => simp [hp] at hdriver

end Evm

/-- The settler was overtaken: no call is under way, nothing is left to settle in memory, and the
row still holds the claim. -/
theorem overtaken_settler_restores_claim :
    (∀ id, Records ((Evm.State.empty 0).rows id) ((Evm.State.empty 0).swapRecord id)) ∧
    (∀ id, Evm.afterSettlerLast.Quiet id) ∧
    (Evm.afterSettlerLast.mem.swapRecord (.filled 3)).isEmpty ∧
    (Evm.afterSettlerLast.mem.rows (.filled 3)).bind (·.pendingClaim) = some Evm.rowReveal ∧
    ¬ Records (Evm.afterSettlerLast.mem.rows (.filled 3))
      (Evm.afterSettlerLast.mem.swapRecord (.filled 3)) := by
  have hdone : (Evm.afterSettlerLast.running .settler).isNone ∧
      (Evm.afterSettlerLast.running .driver).isNone ∧
      (Evm.afterSettlerLast.mem.swapRecord (.filled 3)).isEmpty ∧
      (Evm.afterSettlerLast.mem.rows (.filled 3)).bind (·.pendingClaim) = some Evm.rowReveal := by
    decide +kernel
  obtain ⟨hsettler, hdriver, hempty, hclaim⟩ := hdone
  refine ⟨Evm.records_empty, Evm.quiet_of_done hsettler hdriver, hempty, hclaim, fun h => ?_⟩
  rw [h.absent_iff.mpr hempty] at hclaim
  cases hclaim

/-- The settler is overtaken but writes before the driver does: the row is deleted. -/
theorem stored_rows_current_driver_last :
    Evm.sampleRowCalls.WritesFresh (.empty 0) Evm.settlerFirst ∧
    ∀ id, Records (Evm.afterSettlerFirst.mem.rows id)
      (Evm.afterSettlerFirst.mem.swapRecord id) := by
  have hdone : Evm.sampleRowCalls.WritesFresh (.empty 0) Evm.settlerFirst ∧
      (Evm.afterSettlerFirst.running .settler).isNone ∧
      (Evm.afterSettlerFirst.running .driver).isNone := by decide +kernel
  obtain ⟨hfresh, hsettler, hdriver⟩ := hdone
  exact ⟨hfresh, fun id => (stored_rows_current (sampleNode.evm .ethereumSepolia)
    sampleNode.kaspa).1 _ _ Evm.records_empty hfresh id (Evm.quiet_of_done hsettler hdriver id)⟩

end Stroemnet
