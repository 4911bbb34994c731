import Stroemnet.RetryLoop

/-! # Nonces of settlement transactions

A key takes its nonce before its transaction is known to be accepted, and keeps it when the
transaction is skipped or lost. The node then still counts that nonce as free: the next key takes
it too, and so may the transaction that makes a swap. -/
namespace Stroemnet.Evm

/-- What the account has sent a transaction for. -/
inductive Sender
  | settle (k : ActionKey)
  | newSwap (id : SwapId)
deriving DecidableEq

/-- The account of a node as the chain's node sees it. -/
structure Account where
  /-- The number of confirmed transactions. -/
  confirmed : UInt64
  /-- The number of accepted transactions. -/
  pending : UInt64
  owner : UInt64 → Option Sender

/-- The node takes a transaction with the next nonce, or in place of one that is not confirmed.
The last nonce is never used. -/
def Account.accept (a : Account) (sender : Sender) (nonce : UInt64) : Account :=
  if nonce < a.confirmed ∨ a.pending < nonce ∨ nonce = UInt64.ofNat (2 ^ 64 - 1) then a
  else
    { a with
      pending := if nonce = a.pending then nonce + 1 else a.pending
      owner := Function.update a.owner nonce (some sender) }

/-- The transaction that makes a swap may be accepted. -/
def Account.acceptSwap (a : Account) (swap : Option SwapId) (accepted : Option UInt64) : Account :=
  match swap, accepted with
  | some id, some nonce => a.accept (.newSwap id) nonce
  | _, _ => a

/-- Some of the accepted transactions are confirmed. -/
def Account.mine (a : Account) (confirmed : UInt64) : Account :=
  if a.confirmed ≤ confirmed ∧ confirmed ≤ a.pending then { a with confirmed } else a

inductive Phase
  | begun
  | answered (answers : SettleAnswers)
  | stored (answers : SettleAnswers)

/-- An attempt under way, with the state that it has read. -/
structure Attempt where
  key : ActionKey
  reads : State
  phase : Phase

structure Settlement where
  st : State
  account : Account
  attempt : Option Attempt

/-- What comes to pass. An attempt begins, gets its answers, stores its replacement, sends its
transaction and ends with the record of a result, which may come early. In between another task does
something, with the nonce of the transaction if one is accepted that makes a swap; blocks are made;
the node stops and starts again. -/
inductive SettlementInput
  | attempt (k : ActionKey)
  | answer (answers : SettleAnswers)
  | store
  | send
  | success (k : ActionKey)
  | failure (k : ActionKey) (now : UInt64)
  | other (input : TaskInput) (accepted : Option UInt64)
  | mine (confirmed : UInt64)
  | restart (boot : Boot)

/-- The replacement that an attempt stores. -/
def State.reservation (cfg : Config) (sha256 : Bytes → Bytes32) (answers : SettleAnswers)
    (st : State) (k : ActionKey) : Option Replacement :=
  match st.prepare cfg sha256 answers k with
  | .ok _ => (st.queue k).bind (planReplacement answers)
  | .error _ => none

/-- The transaction that an attempt sends. -/
def State.transaction (cfg : Config) (sha256 : Bytes → Bytes32) (answers : SettleAnswers)
    (st : State) (k : ActionKey) : Option Replacement :=
  (st.settle cfg sha256 answers k).2.1

/-- The swap that a task sends a transaction for. -/
def TaskInput.newSwap (cfg : Config) : TaskInput → Option SwapId
  | .emit _ _ (.commitment c) =>
    if cfg.signed then
      match submitCommitment c with
      | .ok _ => some c.swapId
      | .error _ => none
    else none
  | _ => none

/-- The nonce that a key has in the queue. -/
def State.nonce (st : State) (k : ActionKey) : Option UInt64 := (st.queue k).bind (·.nonce)

/-- The nonce of a key in the row of its swap. -/
def State.storedNonce (st : State) (k : ActionKey) : Option UInt64 :=
  (st.rows k.swapId).bind fun row => match k.action with
    | .claim => row.claimAttempt.bind (·.nonce)
    | .refund => row.refundAttempt.bind (·.nonce)

namespace Settlement

variable (cfg : Config) (sha256 : Bytes → Bytes32)

def step (s : Settlement) : SettlementInput → Settlement
  | .attempt k =>
    match s.attempt with
    | none => { s with attempt := some ⟨k, s.st, .begun⟩ }
    | some _ => s
  | .answer answers =>
    match s.attempt with
    | some ⟨k, reads, .begun⟩ => { s with attempt := some ⟨k, reads, .answered answers⟩ }
    | _ => s
  | .store =>
    match s.attempt with
    | some ⟨k, reads, .answered answers⟩ =>
      { s with
        st := (reads.beginSettle cfg sha256 answers k).2 s.st
        attempt := some ⟨k, reads, .stored answers⟩ }
    | _ => s
  | .send =>
    match s.attempt with
    | some ⟨k, reads, .stored answers⟩ =>
      { s with
        account := match reads.transaction cfg sha256 answers k with
          | some r => if answers.accepted then s.account.accept (.settle k) r.nonce else s.account
          | none => s.account
        attempt := none }
    | _ => s
  | .success k => { s with st := s.st.recordSuccess k, attempt := none }
  | .failure k now => { s with st := s.st.recordFailure k now, attempt := none }
  | .other input accepted =>
    { s with
      st := (settler cfg sha256).other s.st input
      account := s.account.acceptSwap (input.newSwap cfg) accepted }
  | .mine confirmed => { s with account := s.account.mine confirmed }
  | .restart boot => { s with st := connect cfg boot s.st, attempt := none }

/-- The nonces that an attempt may yet use. -/
def MayUse (attempt : Attempt) (nonce : UInt64) : Prop :=
  match attempt.phase with
  | .begun => attempt.reads.nonce attempt.key = some nonce
  | .answered answers => ∃ r,
    attempt.reads.reservation cfg sha256 answers attempt.key = some r ∧ r.nonce = nonce
  | .stored answers => ∃ r,
    attempt.reads.reservation cfg sha256 answers attempt.key = some r ∧ r.nonce = nonce

/-- A nonce belongs to a key: the key holds it in the queue, or its attempt may use it. -/
def Belongs (s : Settlement) (k : ActionKey) (nonce : UInt64) : Prop :=
  s.st.nonce k = some nonce ∨
    ∃ attempt, s.attempt = some attempt ∧ attempt.key = k ∧ MayUse cfg sha256 attempt nonce

/-- The node answers with its counts; a count of confirmed transactions may be out of date. The
store lists every row. -/
def Honest (s : Settlement) : SettlementInput → Prop
  | .answer answers => (∀ c, answers.confirmed = some c → c ≤ s.account.confirmed) ∧
    ∀ p, answers.pending = some p → p = s.account.pending
  | .restart boot => boot.Lists s.st.rows
  | _ => True

/-- When a key takes a nonce anew, the nonces of all other keys have been accepted; and a swap is
made with a nonce that belongs to no key. -/
def Apart (s : Settlement) : SettlementInput → Prop
  | .answer answers => ∀ k reads r, s.attempt = some ⟨k, reads, .begun⟩ →
      reads.reservation cfg sha256 answers k = some r → r.fresh = true →
      ∀ k' nonce, k' ≠ k → s.st.nonce k' = some nonce → nonce < s.account.pending
  | .other input (some nonce) => (input.newSwap cfg).isSome → s.account.confirmed ≤ nonce →
      ∀ k, ¬ s.Belongs cfg sha256 k nonce
  | _ => True

/-- No two keys hold the same nonce above those that are confirmed. -/
def Exclusive (s : Settlement) : Prop :=
  ∀ k k' nonce, k ≠ k' → s.st.nonce k = some nonce → s.st.nonce k' = some nonce →
    nonce < s.account.confirmed

/-- A transaction that takes the place of another one was sent for the same key. -/
def ReplacesOwn (s : Settlement) : SettlementInput → Prop
  | .send => ∀ k reads answers r, s.attempt = some ⟨k, reads, .stored answers⟩ →
      reads.transaction cfg sha256 answers k = some r →
      s.account.confirmed ≤ r.nonce → r.nonce < s.account.pending →
        s.account.owner r.nonce = some (.settle k)
  | _ => True

/-- A settler that has used no nonce yet. -/
structure Unused (s : Settlement) : Prop where
  counts : s.account.confirmed ≤ s.account.pending
  attempt : s.attempt = none
  queue : ∀ k, s.st.nonce k = none
  rows : ∀ k, s.st.storedNonce k = none

/-- The invariant of the good runs. -/
structure Sound (s : Settlement) : Prop where
  counts : s.account.confirmed ≤ s.account.pending
  rows : ∀ k nonce, s.st.storedNonce k = some nonce → s.st.nonce k = some nonce
  bounded : ∀ k nonce, s.Belongs cfg sha256 k nonce → nonce ≤ s.account.pending
  exclusive : ∀ k k' nonce, k ≠ k' → s.Belongs cfg sha256 k nonce →
    s.Belongs cfg sha256 k' nonce → nonce < s.account.confirmed
  owned : ∀ k nonce, s.Belongs cfg sha256 k nonce → s.account.confirmed ≤ nonce →
    nonce < s.account.pending → s.account.owner nonce = some (.settle k)

end Settlement

variable {cfg : Config} {sha256 : Bytes → Bytes32} {st st' : State} {k : ActionKey}
  {answers : SettleAnswers}

/-- A replacement keeps the nonce of its key or takes the next one. -/
theorem planReplacement_nonce {a : AttemptState} {r : Replacement}
    (h : planReplacement answers a = some r) :
    r.fresh = false ∧ a.nonce = some r.nonce ∨
      r.fresh = true ∧ ∃ c p, answers.confirmed = some c ∧ answers.pending = some p ∧
        r.nonce = max p c := by
  unfold planReplacement at h
  obtain ⟨base, -, h⟩ := Option.bind_eq_some_iff.mp h
  obtain ⟨c, hc, h⟩ := Option.bind_eq_some_iff.mp h
  obtain ⟨⟨n, fresh⟩, hnonce, h⟩ := Option.bind_eq_some_iff.mp h
  cases h
  have hfresh : ∀ {x : Option UInt64}, (x.map fun p => (max p c, true)) = some (n, fresh) →
      fresh = true ∧ ∃ p, x = some p ∧ n = max p c := by
    intro x hx
    obtain ⟨p, hp, heq⟩ := Option.map_eq_some_iff.mp hx
    cases heq
    exact ⟨rfl, p, hp, rfl⟩
  unfold replacementNonce at hnonce
  split at hnonce
  · rename_i n' hn'
    split_ifs at hnonce
    · cases hnonce
      exact .inl ⟨rfl, hn'⟩
    · obtain ⟨htrue, p, hp, heq⟩ := hfresh hnonce
      exact .inr ⟨htrue, c, p, hc, hp, heq⟩
  · obtain ⟨htrue, p, hp, heq⟩ := hfresh hnonce
    exact .inr ⟨htrue, c, p, hc, hp, heq⟩

private theorem reservation_nonce {r : Replacement}
    (h : st.reservation cfg sha256 answers k = some r) :
    st.nonce k = some r.nonce ∨
      r.fresh = true ∧ ∃ c p, answers.confirmed = some c ∧ answers.pending = some p ∧
        r.nonce = max p c := by
  unfold State.reservation at h
  split at h
  · obtain ⟨a, ha, hr⟩ := Option.bind_eq_some_iff.mp h
    refine (planReplacement_nonce hr).imp_left fun hkept => ?_
    rw [State.nonce, ha]
    exact hkept.2
  · cases h

theorem beginSettle_cases (cfg : Config) (sha256 : Bytes → Bytes32) (answers : SettleAnswers)
    (st : State) (k : ActionKey) :
    (∀ st', (st.beginSettle cfg sha256 answers k).2 st' = st') ∨
      ∃ r, st.reservation cfg sha256 answers k = some r ∧
        ∀ st', (st.beginSettle cfg sha256 answers k).2 st' =
          { st' with queue := reserve st'.queue k r }.persistSwap k.swapId := by
  unfold State.beginSettle State.reservation
  cases st.prepare cfg sha256 answers k with
  | error outcome => exact .inl fun _ => rfl
  | ok submission =>
    cases hplan : (st.queue k).bind (planReplacement answers) with
    | none => exact .inl fun _ => rfl
    | some r => exact .inr ⟨r, rfl, fun _ => rfl⟩

private theorem reservation_of_transaction {r : Replacement}
    (h : st.transaction cfg sha256 answers k = some r) :
    st.reservation cfg sha256 answers k = some r := by
  unfold State.transaction State.settle at h
  unfold State.reservation
  cases hprepare : st.prepare cfg sha256 answers k with
  | error outcome =>
    rw [hprepare] at h
    cases h
  | ok submission =>
    obtain ⟨sends, result⟩ := submission
    rw [hprepare] at h
    unfold State.replacement at h
    cases hplan : (st.queue k).bind (planReplacement answers) with
    | none =>
      rw [hplan] at h
      cases h
    | some r' =>
      rw [hplan] at h
      cases sends with
      | true => exact h
      | false => cases h

/-- No key gets a nonce that it did not have before. -/
def KeepsNonces (q q' : RetryQueue) : Prop :=
  ∀ k n, (q' k).bind (·.nonce) = some n → (q k).bind (·.nonce) = some n

namespace KeepsNonces

variable {q q' q'' : RetryQueue}

theorem refl (q : RetryQueue) : KeepsNonces q q := fun _ _ hn => hn

theorem trans (h : KeepsNonces q q') (h' : KeepsNonces q' q'') : KeepsNonces q q'' :=
  fun k n hn => h k n (h' k n hn)

theorem ensure (q : RetryQueue) (k : ActionKey) (now : UInt64) :
    KeepsNonces q (q.ensure k now) := by
  intro k' n hn
  by_cases heq : k' = k
  · subst heq
    unfold RetryQueue.ensure at hn
    split_ifs at hn
    · exact hn
    · rw [Function.update_self] at hn
      cases hn
  · rwa [RetryQueue.ensure_of_ne heq] at hn

theorem foldl_ensure {α : Type} (key : α → ActionKey) (now : UInt64) (xs : List α)
    (q : RetryQueue) : KeepsNonces q (xs.foldl (fun q x => q.ensure (key x) now) q) := by
  induction xs generalizing q with
  | nil => exact refl q
  | cons x xs ih => exact (ensure q (key x) now).trans (ih _)

theorem recordSuccess (q : RetryQueue) (k : ActionKey) : KeepsNonces q (q.recordSuccess k) := by
  intro k' n hn
  by_cases heq : k' = k
  · subst heq
    rw [RetryQueue.recordSuccess, Function.update_self] at hn
    cases hn
  · rwa [RetryQueue.recordSuccess_of_ne heq] at hn

theorem recordFailure (q : RetryQueue) (k : ActionKey) (now jitter : UInt64) :
    KeepsNonces q (q.recordFailure k now jitter) := by
  intro k' n hn
  rw [RetryQueue.recordFailure_eq_modify] at hn
  by_cases heq : k' = k
  · subst heq
    rw [RetryQueue.modify_self] at hn
    cases hq : q k' with
    | none =>
      rw [hq] at hn
      cases hn
    | some a =>
      rw [hq] at hn
      exact hn
  · rwa [RetryQueue.modify_of_ne heq] at hn

theorem touched {id : SwapId} {resolves : Bool} (h : q.Touched id resolves q') :
    KeepsNonces q q' := by
  cases h with
  | same => exact refl _
  | entered action now => exact ensure _ _ _
  | settled _ => exact (recordSuccess _ _).trans (recordSuccess _ _)

end KeepsNonces

/-- A seeded queue keeps the attempts that are there already. -/
theorem foldl_ensure_nonce {α : Type} (key : α → ActionKey) (now : UInt64) (xs : List α)
    {q : RetryQueue} {n : UInt64} (h : (q k).bind (·.nonce) = some n) :
    (xs.foldl (fun q x => q.ensure (key x) now) q k).bind (·.nonce) = some n := by
  induction xs generalizing q with
  | nil => exact h
  | cons x xs ih =>
    refine ih (q := q.ensure (key x) now) ?_
    unfold RetryQueue.ensure
    split_ifs with hx
    · exact h
    · by_cases heq : k = key x
      · subst heq
        rw [Option.not_isSome_iff_eq_none.mp hx] at h
        cases h
      · rwa [Function.update_of_ne heq]

namespace State

/-- The nonces of the rows are those of the queue. -/
def StoredHeld (st : State) : Prop :=
  ∀ k nonce, st.storedNonce k = some nonce → st.nonce k = some nonce

/-- A step leaves the queue and the rows, or changes the attempts of one swap and writes its row. -/
inductive Writes (id : SwapId) (st st' : State) : Prop
  | same (hqueue : st'.queue = st.queue) (hrows : st'.rows = st.rows)
  | row (hqueue : ∀ k : ActionKey, id ≠ k.swapId → st'.queue k = st.queue k)
    (hrows : st'.rows = st.rows.persist id (st'.swapRecord id))

theorem Writes.storedHeld {id : SwapId} (h : Writes id st st') (hst : st.StoredHeld) :
    st'.StoredHeld := by
  intro k n hn
  cases h with
  | same hqueue hrows =>
    rw [nonce, hqueue]
    refine hst k n ?_
    rwa [storedNonce, hrows] at hn
  | row hqueue hrows =>
    rw [storedNonce, hrows, SwapRows.persist] at hn
    by_cases heq : id = k.swapId
    · obtain ⟨id', action⟩ := k
      obtain rfl : id = id' := heq
      rw [Function.update_self] at hn
      split_ifs at hn
      · cases hn
      · cases action with
        | claim => exact hn
        | refund => exact hn
    · rw [Function.update_of_ne (Ne.symm heq)] at hn
      rw [nonce, hqueue k heq]
      exact hst k n hn

theorem writes_recordSuccess (st : State) (k : ActionKey) :
    Writes k.swapId st (st.recordSuccess k) := by
  obtain ⟨id, action⟩ := k
  have hqueue : ∀ k' : ActionKey, id ≠ k'.swapId →
      (st.recordSuccess ⟨id, action⟩).queue k' = st.queue k' := by
    intro k' hne
    have hne' : k' ≠ ⟨id, action⟩ := fun heq => hne (heq ▸ rfl)
    cases action with
    | claim => exact RetryQueue.recordSuccess_of_ne hne'
    | refund => exact RetryQueue.recordSuccess_of_ne hne'
  cases action with
  | claim => exact .row hqueue rfl
  | refund => exact .row hqueue rfl

private theorem writes_recordFailure (st : State) (k : ActionKey) (now : UInt64) :
    Writes k.swapId st (st.recordFailure k now) := by
  refine .row (fun k' hne => ?_) rfl
  have hne' : k' ≠ k := fun heq => hne (heq ▸ rfl)
  exact RetryQueue.modify_of_ne hne'

private theorem writes_reserve (st : State) (k : ActionKey) (r : Replacement) :
    Writes k.swapId st ({ st with queue := reserve st.queue k r }.persistSwap k.swapId) := by
  refine .row (fun k' hne => ?_) rfl
  have hne' : k' ≠ k := fun heq => hne (heq ▸ rfl)
  exact (congrFun (reserve_eq_modify st.queue k r) k').trans (RetryQueue.modify_of_ne hne')

theorem writes_other (cfg : Config) (sha256 : Bytes → Bytes32) (st : State) (i : TaskInput) :
    Writes ((settler cfg sha256).swapOf i) st ((settler cfg sha256).other st i) := by
  have hqueue := fun (k : ActionKey) (hne : (settler cfg sha256).swapOf i ≠ k.swapId) =>
    (touched_other cfg sha256 st i).of_ne hne
  cases i with
  | track now event =>
    refine .row hqueue ?_
    cases event with
    | commitment c =>
      simp only [settler, trackActionableEvent]
      split_ifs <;> rfl
    | reveal r => rfl
    | refund r => rfl
  | emit now sent event =>
    cases event with
    | commitment c =>
      simp only [settler, emitEvent]
      split_ifs
      · split <;> exact .same rfl rfl
      · exact .same rfl rfl
    | reveal r =>
      simp only [settler, emitEvent] at hqueue ⊢
      split_ifs at hqueue ⊢
      · exact .row hqueue rfl
      · exact .same rfl rfl
    | refund r => exact .same rfl rfl

theorem keepsNonces_recordSuccess (st : State) (k : ActionKey) :
    KeepsNonces st.queue (st.recordSuccess k).queue := by
  obtain ⟨id, action⟩ := k
  cases action with
  | claim => exact KeepsNonces.recordSuccess _ _
  | refund => exact KeepsNonces.recordSuccess _ _

private theorem foldl_recordSuccess_nonces (keys : List ActionKey) (st : State)
    (hst : st.StoredHeld) :
    (keys.foldl recordSuccess st).StoredHeld ∧
      KeepsNonces st.queue (keys.foldl recordSuccess st).queue := by
  induction keys generalizing st with
  | nil => exact ⟨hst, .refl _⟩
  | cons k keys ih =>
    obtain ⟨hstored, hkeeps⟩ := ih _ ((st.writes_recordSuccess k).storedHeld hst)
    exact ⟨hstored, (st.keepsNonces_recordSuccess k).trans hkeeps⟩

theorem seedQueue_nonce {boot : Boot} {n : UInt64} (hboot : boot.Lists st.rows) (k : ActionKey) :
    (seedQueue (restore st.rows boot.order) boot.now k).bind (·.nonce) = some n ↔
      st.storedNonce k = some n := by
  obtain ⟨id, action⟩ := k
  have hrow : (match action with
      | .claim => (restore st.rows boot.order).claimAttempts id
      | .refund => (restore st.rows boot.order).refundAttempts id).bind (·.nonce) =
        st.storedNonce ⟨id, action⟩ := by
    have hnone : id ∉ boot.order → st.rows id = none := fun hid =>
      Option.not_isSome_iff_eq_none.mp fun hsome => hid ((hboot id).mpr hsome)
    by_cases hid : id ∈ boot.order
    · cases action <;> simp [restore, storedNonce, hid, Option.bind_assoc]
    · cases action <;> simp [restore, storedNonce, hid, hnone hid]
  rw [← hrow]
  constructor
  · intro hn
    exact KeepsNonces.foldl_ensure _ _ _ _ _ _ (KeepsNonces.foldl_ensure _ _ _ _ _ _ hn)
  · intro hn
    exact foldl_ensure_nonce _ _ _ (foldl_ensure_nonce _ _ _ hn)

/-- After a restart a key has no other nonce than before. -/
theorem connect_nonces {boot : Boot} (hst : st.StoredHeld) (hboot : boot.Lists st.rows) :
    (connect cfg boot st).StoredHeld ∧ KeepsNonces st.queue (connect cfg boot st).queue := by
  unfold connect
  obtain ⟨hstored, hkeeps⟩ := foldl_recordSuccess_nonces (reconciled boot st.rows)
      { poll := ⟨st.storedCursor.getD (saturatingAdd (UInt64.ofNat
          (boot.head.toNat - cfg.minimumBlockConfirmations.toNat)) 1)⟩
        pendingRefunds := (restore st.rows boot.order).pendingRefunds
        pendingClaims := (restore st.rows boot.order).pendingClaims
        nextPollSecs := 0
        lastBlockTs := none
        queue := seedQueue (restore st.rows boot.order) boot.now
        rows := st.rows
        storedCursor := st.storedCursor }
      fun k n hn => (seedQueue_nonce hboot k).mpr hn
  exact ⟨hstored, fun k n hn => hst k n ((seedQueue_nonce hboot k).mp (hkeeps k n hn))⟩

end State

namespace Settlement

variable {s : Settlement}

/-- What keeps the account and gives no key a nonce that did not belong to it, keeps the nonces
apart. -/
theorem Sound.mono (h : s.Sound cfg sha256) {st : State} {attempt : Option Attempt}
    (hrows : st.StoredHeld)
    (hbelongs : ∀ k n, Belongs cfg sha256 ⟨st, s.account, attempt⟩ k n → s.Belongs cfg sha256 k n) :
    Sound cfg sha256 ⟨st, s.account, attempt⟩ where
  counts := h.counts
  rows := hrows
  bounded k n hk := h.bounded k n (hbelongs k n hk)
  exclusive k k' n hne hk hk' := h.exclusive k k' n hne (hbelongs k n hk) (hbelongs k' n hk')
  owned k n hk := h.owned k n (hbelongs k n hk)

theorem belongs_ended {st : State} (hkeeps : KeepsNonces s.st.queue st.queue) {account : Account}
    {k : ActionKey} {n : UInt64} (h : Belongs cfg sha256 ⟨st, account, none⟩ k n) :
    s.Belongs cfg sha256 k n := by
  rcases h with hn | ⟨attempt, hattempt, -⟩
  · exact .inl (hkeeps k n hn)
  · cases hattempt

private theorem accept_eq (a : Account) (sender : Sender) (nonce : UInt64) :
    a.accept sender nonce = a ∨ a.confirmed ≤ nonce ∧ ∃ pending, a.pending ≤ pending ∧
      (∀ n, n ≠ nonce → n < pending → n < a.pending) ∧
      a.accept sender nonce =
        ⟨a.confirmed, pending, Function.update a.owner nonce (some sender)⟩ := by
  unfold Account.accept
  split_ifs with hrejected hnext
  · exact .inl rfl
  · simp only [not_or] at hrejected
    obtain ⟨hconfirmed, -, hlast⟩ := hrejected
    have hadd : (nonce + 1).toNat = nonce.toNat + 1 := by
      have hne : nonce.toNat ≠ 2 ^ 64 - 1 := fun heq =>
        hlast (UInt64.toNat_inj.mp (by rw [heq]; rfl))
      have hlt := nonce.toNat_lt
      rw [UInt64.toNat_add]
      exact Nat.mod_eq_of_lt (by simp only [UInt64.toNat_one]; omega)
    refine .inr ⟨UInt64.not_lt.mp hconfirmed, nonce + 1, ?_, fun n hne hn => ?_, rfl⟩
    · rw [← hnext, UInt64.le_iff_toNat_le, hadd]
      omega
    · have hne' : n.toNat ≠ nonce.toNat := fun heq => hne (UInt64.toNat_inj.mp heq)
      rw [← hnext]
      rw [UInt64.lt_iff_toNat_lt, hadd] at hn
      rw [UInt64.lt_iff_toNat_lt]
      omega
  · simp only [not_or] at hrejected
    exact .inr ⟨UInt64.not_lt.mp hrejected.1, a.pending, UInt64.le_refl _, fun _ _ hn => hn, rfl⟩

/-- A transaction is accepted that was sent for the key that its nonce belongs to, if to any. -/
theorem Sound.accept (h : s.Sound cfg sha256) {sender : Sender} {nonce : UInt64}
    (hsender : ∀ k, s.Belongs cfg sha256 k nonce → s.account.confirmed ≤ nonce →
      sender = .settle k) :
    Sound cfg sha256 { s with account := s.account.accept sender nonce } := by
  rcases accept_eq s.account sender nonce with hsame | ⟨hconfirmed, pending, hle, hbelow, haccept⟩
  · rw [hsame]
    exact h
  · rw [haccept]
    refine ⟨UInt64.le_trans h.counts hle, h.rows,
      fun k n hk => UInt64.le_trans (h.bounded k n hk) hle, h.exclusive, ?_⟩
    intro k n hk hn hlt
    by_cases heq : n = nonce
    · subst heq
      exact (Function.update_self _ _ _).trans (congrArg some (hsender k hk hn))
    · exact (Function.update_of_ne heq _ _).trans (h.owned k n hk hn (hbelow n heq hlt))

theorem Sound.mine (h : s.Sound cfg sha256) (confirmed : UInt64) :
    Sound cfg sha256 { s with account := s.account.mine confirmed } := by
  unfold Account.mine
  split_ifs with hbounds
  · refine ⟨hbounds.2, h.rows, h.bounded, fun k k' n hne hk hk' => ?_, fun k n hk hn => ?_⟩
    · exact UInt64.lt_of_lt_of_le (h.exclusive k k' n hne hk hk') hbounds.1
    · exact h.owned k n hk (UInt64.le_trans hbounds.1 hn)
  · exact h

theorem Sound.attempt (h : s.Sound cfg sha256) (k : ActionKey) :
    (s.step cfg sha256 (.attempt k)).Sound cfg sha256 := by
  simp only [step]
  split
  · refine h.mono h.rows ?_
    rintro k' n (hn | ⟨attempt, hattempt, rfl, huse⟩)
    · exact .inl hn
    · cases hattempt
      exact .inl huse
  · exact h

/-- The nonce that an attempt takes anew is the next one. -/
theorem fresh_nonce (h : s.Sound cfg sha256) (hhonest : s.Honest (.answer answers)) {n c p : UInt64}
    (hc : answers.confirmed = some c) (hp : answers.pending = some p) (hn : n = max p c) :
    n = s.account.pending := by
  have hle : c ≤ s.account.pending := UInt64.le_trans (hhonest.1 c hc) h.counts
  rw [hn, hhonest.2 p hp]
  simp only [Max.max]
  split_ifs with hmax
  · exact UInt64.le_antisymm hle hmax
  · rfl

/-- Once its answers are there, the nonce of an attempt belonged to its key before or is the next
one, which belongs to no other key. -/
theorem belongs_answered (h : s.Sound cfg sha256) {reads : State}
    (hattempt : s.attempt = some ⟨k, reads, .begun⟩) (hhonest : s.Honest (.answer answers))
    (hapart : s.Apart cfg sha256 (.answer answers)) {k' : ActionKey} {n : UInt64}
    (hbelongs : Belongs cfg sha256 ⟨s.st, s.account, some ⟨k, reads, .answered answers⟩⟩ k' n) :
    s.Belongs cfg sha256 k' n ∨ k' = k ∧ n = s.account.pending ∧
      ∀ k'' n', k'' ≠ k → s.st.nonce k'' = some n' → n' < s.account.pending := by
  rcases hbelongs with hn | ⟨attempt, hsome, rfl, huse⟩
  · exact .inl (.inl hn)
  · cases hsome
    obtain ⟨r, hr, rfl⟩ := huse
    rcases reservation_nonce hr with hkept | ⟨hfresh, c, p, hc, hp, hnonce⟩
    · exact .inl (.inr ⟨_, hattempt, rfl, hkept⟩)
    · exact .inr ⟨rfl, fresh_nonce h hhonest hc hp hnonce, hapart _ _ r hattempt hr hfresh⟩

theorem Sound.answer (h : s.Sound cfg sha256) (hhonest : s.Honest (.answer answers))
    (hapart : s.Apart cfg sha256 (.answer answers)) :
    (s.step cfg sha256 (.answer answers)).Sound cfg sha256 := by
  simp only [step]
  split
  · rename_i k reads hattempt
    have hbelongs := fun (k' : ActionKey) (n : UInt64)
        (hk : Belongs cfg sha256 ⟨s.st, s.account, some ⟨k, reads, .answered answers⟩⟩ k' n) =>
      belongs_answered h hattempt hhonest hapart hk
    have hother : ∀ k', k' ≠ k → ∀ n, Belongs cfg sha256
        ⟨s.st, s.account, some ⟨k, reads, .answered answers⟩⟩ k' n → s.st.nonce k' = some n := by
      rintro k' hne n (hn | ⟨attempt, hsome, rfl, -⟩)
      · exact hn
      · cases hsome
        exact absurd rfl hne
    refine ⟨h.counts, h.rows, fun k' n hk => ?_, fun k₁ k₂ n hne h₁ h₂ => ?_,
      fun k' n hk hn hlt => ?_⟩
    · rcases hbelongs k' n hk with hk | ⟨-, rfl, -⟩
      · exact h.bounded k' n hk
      · exact UInt64.le_refl _
    · rcases hbelongs k₁ n h₁ with h₁' | ⟨rfl, rfl, hbelow⟩
      · rcases hbelongs k₂ n h₂ with h₂' | ⟨rfl, rfl, hbelow⟩
        · exact h.exclusive k₁ k₂ n hne h₁' h₂'
        · exact absurd (hbelow k₁ _ hne (hother k₁ hne _ h₁)) (UInt64.lt_irrefl _)
      · exact absurd (hbelow k₂ _ hne.symm (hother k₂ hne.symm _ h₂)) (UInt64.lt_irrefl _)
    · rcases hbelongs k' n hk with hk | ⟨-, rfl, -⟩
      · exact h.owned k' n hk hn hlt
      · exact absurd hlt (UInt64.lt_irrefl _)
  · exact h

private theorem nonce_reserve {q : RetryQueue} {r : Replacement} {k' : ActionKey} {n : UInt64}
    (hn : (reserve q k r k').bind (·.nonce) = some n) :
    (q k').bind (·.nonce) = some n ∨ k' = k ∧ n = r.nonce := by
  rw [reserve_eq_modify] at hn
  by_cases hk : k' = k
  · subst hk
    rw [RetryQueue.modify_self] at hn
    cases hq : q k' with
    | none =>
      rw [hq] at hn
      cases hn
    | some a =>
      rw [hq] at hn
      simp only [Option.map_some, Option.bind_some] at hn
      split_ifs at hn
      · cases hn
        exact .inr ⟨rfl, rfl⟩
      · exact .inl hn
  · rw [RetryQueue.modify_of_ne hk] at hn
    exact .inl hn

theorem Sound.store (h : s.Sound cfg sha256) :
    (s.step cfg sha256 .store).Sound cfg sha256 := by
  simp only [step]
  split
  · rename_i k reads answers hattempt
    rcases beginSettle_cases cfg sha256 answers reads k with hid | ⟨r, hr, hstore⟩
    · rw [hid]
      refine h.mono h.rows ?_
      rintro k' n (hn | ⟨attempt, hsome, rfl, huse⟩)
      · exact .inl hn
      · cases hsome
        exact .inr ⟨_, hattempt, rfl, huse⟩
    · rw [hstore]
      refine h.mono ((s.st.writes_reserve k r).storedHeld h.rows) ?_
      rintro k' n (hn | ⟨attempt, hsome, rfl, huse⟩)
      · rcases nonce_reserve hn with hn | ⟨rfl, rfl⟩
        · exact .inl hn
        · exact .inr ⟨_, hattempt, rfl, r, hr, rfl⟩
      · cases hsome
        exact .inr ⟨_, hattempt, rfl, huse⟩
  · exact h

theorem belongs_transaction {reads : State} {r : Replacement}
    (hattempt : s.attempt = some ⟨k, reads, .stored answers⟩)
    (hr : reads.transaction cfg sha256 answers k = some r) : s.Belongs cfg sha256 k r.nonce :=
  .inr ⟨_, hattempt, rfl, r, reservation_of_transaction hr, rfl⟩

theorem Sound.send (h : s.Sound cfg sha256) : (s.step cfg sha256 .send).Sound cfg sha256 := by
  have hended : ∀ s' : Settlement, s'.Sound cfg sha256 →
      Sound cfg sha256 ⟨s'.st, s'.account, none⟩ :=
    fun _ h' => h'.mono h'.rows fun _ _ => belongs_ended (.refl _)
  simp only [step]
  split
  · rename_i k reads answers hattempt
    cases htx : reads.transaction cfg sha256 answers k with
    | none => exact hended s h
    | some r =>
      simp only
      split_ifs
      · have hown := belongs_transaction hattempt htx
        refine hended { s with account := s.account.accept (.settle k) r.nonce }
          (h.accept fun k' hk' hconfirmed => ?_)
        by_contra hne
        have hne' : k ≠ k' := fun heq => hne (heq ▸ rfl)
        exact absurd (h.exclusive k k' _ hne' hown hk') (UInt64.not_lt.mpr hconfirmed)
      · exact hended s h
  · exact h

/-- Another task does something, and the transaction that makes a swap may be accepted. -/
theorem Sound.other (h : s.Sound cfg sha256) {input : TaskInput} {accepted : Option UInt64}
    (hapart : s.Apart cfg sha256 (.other input accepted)) :
    (s.step cfg sha256 (.other input accepted)).Sound cfg sha256 := by
  have hkeeps : KeepsNonces s.st.queue ((settler cfg sha256).other s.st input).queue :=
    .touched (touched_other cfg sha256 s.st input)
  have haccount : Sound cfg sha256
      { s with account := s.account.acceptSwap (input.newSwap cfg) accepted } := by
    unfold Account.acceptSwap
    split
    · rename_i id nonce hid
      refine h.accept fun k hk hconfirmed => ?_
      exact absurd hk (hapart (by rw [hid]; rfl) hconfirmed k)
    · exact h
  refine haccount.mono ((s.st.writes_other cfg sha256 input).storedHeld h.rows) ?_
  rintro k n (hn | ⟨attempt, hattempt, hkey, huse⟩)
  · exact .inl (hkeeps k n hn)
  · exact .inr ⟨attempt, hattempt, hkey, huse⟩

theorem Sound.step (h : s.Sound cfg sha256) {input : SettlementInput} (hhonest : s.Honest input)
    (hapart : s.Apart cfg sha256 input) : (s.step cfg sha256 input).Sound cfg sha256 := by
  cases input with
  | attempt k => exact h.attempt k
  | answer answers => exact h.answer hhonest hapart
  | store => exact h.store
  | send => exact h.send
  | success k =>
    exact h.mono ((s.st.writes_recordSuccess k).storedHeld h.rows) fun _ _ =>
      belongs_ended (s.st.keepsNonces_recordSuccess k)
  | failure k now =>
    exact h.mono ((s.st.writes_recordFailure k now).storedHeld h.rows) fun _ _ =>
      belongs_ended (KeepsNonces.recordFailure _ _ _ _)
  | other input accepted => exact h.other hapart
  | mine confirmed => exact h.mine confirmed
  | restart boot =>
    have hnonces : (Evm.connect cfg boot s.st).StoredHeld ∧
        KeepsNonces s.st.queue (Evm.connect cfg boot s.st).queue :=
      State.connect_nonces h.rows hhonest
    exact h.mono hnonces.1 fun _ _ => belongs_ended hnonces.2

private theorem Sound.replacesOwn (h : s.Sound cfg sha256) (input : SettlementInput) :
    s.ReplacesOwn cfg sha256 input := by
  cases input with
  | send =>
    intro k reads answers r hattempt hr
    exact h.owned k _ (belongs_transaction hattempt hr)
  | _ => trivial

theorem Unused.sound (h : s.Unused) : s.Sound cfg sha256 := by
  have hnone : ∀ k n, ¬ s.Belongs cfg sha256 k n := by
    rintro k n (hn | ⟨attempt, hattempt, -⟩)
    · rw [h.queue k] at hn
      cases hn
    · rw [h.attempt] at hattempt
      cases hattempt
  refine ⟨h.counts, fun k n hn => ?_, fun k n hk => absurd hk (hnone k n),
    fun k _ n _ hk _ => absurd hk (hnone k n), fun k n hk => absurd hk (hnone k n)⟩
  rw [h.rows k] at hn
  cases hn

private theorem Sound.keepsApart (h : s.Sound cfg sha256) : s.Exclusive :=
  fun k k' n hne hk hk' => h.exclusive k k' n hne (.inl hk) (.inl hk')

/-- With nothing in between, the steps of an attempt are the whole attempt. -/
theorem attempt_eq_settle (cfg : Config) (sha256 : Bytes → Bytes32) (s : Settlement)
    (hattempt : s.attempt = none) (k : ActionKey) (answers : SettleAnswers) :
    Runs.final (Settlement.step cfg sha256) s [.attempt k, .answer answers, .store, .send] =
      { s with
        st := (s.st.settle cfg sha256 answers k).2.2
        account := match (s.st.settle cfg sha256 answers k).2.1 with
          | some r => if answers.accepted then s.account.accept (.settle k) r.nonce else s.account
          | none => s.account } := by
  obtain ⟨st, account, attempt⟩ := s
  obtain rfl : attempt = none := hattempt
  simp only [Runs.final, List.foldl_cons, List.foldl_nil, Settlement.step, State.transaction,
    (State.beginSettle_eq cfg sha256 answers st k).2]

/-- In every run of the settler, with restarts and with swaps made in between: as long as a nonce is
taken only when the nonces of all other keys are accepted, and no swap is made with the nonce of a
key, no two keys hold the same nonce, and a transaction only takes the place of one of the same
key. -/
theorem nonces_exclusive (cfg : Config) (sha256 : Bytes → Bytes32) (s : Settlement)
    (hstart : s.Unused) (ins : List SettlementInput)
    (hrun : Runs.Along (Settlement.step cfg sha256)
      (fun s input => s.Honest input ∧ s.Apart cfg sha256 input) s ins) :
    (Runs.final (Settlement.step cfg sha256) s ins).Exclusive ∧
      Runs.Along (Settlement.step cfg sha256) (fun s input => s.ReplacesOwn cfg sha256 input) s
        ins := by
  have hstep : ∀ (s : Settlement) (input : SettlementInput), s.Sound cfg sha256 →
      s.Honest input ∧ s.Apart cfg sha256 input → (s.step cfg sha256 input).Sound cfg sha256 :=
    fun _ _ hs hi => hs.step hi.1 hi.2
  exact ⟨(Runs.Along.invariant hstep hstart.sound hrun).keepsApart,
    Runs.Along.of_invariant (fun s input hs hi => ⟨hs.replacesOwn input, hstep s input hs hi⟩)
      hstart.sound hrun⟩

/-- A whole attempt of a key. -/
def attemptInputs (k : ActionKey) (answers : SettleAnswers) (now : UInt64) : List SettlementInput :=
  [.attempt k, .answer answers, .store, .send, .failure k now]

/-- An attempt leaves the other keys of the queue alone. -/
theorem nonce_attemptInputs (cfg : Config) (sha256 : Bytes → Bytes32) (hattempt : s.attempt = none)
    {k k' : ActionKey} (hne : k' ≠ k) (answers : SettleAnswers) (now : UInt64) :
    (Runs.final (Settlement.step cfg sha256) s (attemptInputs k answers now)).st.nonce k' =
      s.st.nonce k' := by
  obtain ⟨st, account, attempt⟩ := s
  obtain rfl : attempt = none := hattempt
  have hfinal : (Runs.final (Settlement.step cfg sha256) ⟨st, account, none⟩
      (attemptInputs k answers now)).st =
        State.recordFailure ((st.beginSettle cfg sha256 answers k).2 st) k now := rfl
  have hfailure : ∀ st : State, (st.recordFailure k now).queue k' = st.queue k' :=
    fun st => RetryQueue.modify_of_ne hne
  rw [hfinal, State.nonce, hfailure]
  rcases beginSettle_cases cfg sha256 answers st k with hid | ⟨r, -, hstore⟩
  · rw [hid]
    rfl
  · have hreserve : reserve st.queue k r k' = st.queue k' := by
      rw [reserve_eq_modify, RetryQueue.modify_of_ne hne]
    rw [hstore]
    exact congrArg (Option.bind · fun a => a.nonce) hreserve

def sampleSigner : Config := sampleNode.evm .ethereumSepolia

/-- Two commitments are tracked; the account has sent five transactions. -/
def twoRefunds : Settlement where
  st := [(.filled 3 : SwapId), .filled 4].foldl (fun st id =>
    st.trackActionableEvent sampleSigner 100
      (.commitment { Kaspa.sampleCommitment with swapId := id })) (State.empty 0)
  account := ⟨5, 5, fun _ => none⟩
  attempt := none

def refundAnswers (pending : UInt64) (accepted : Bool) : SettleAnswers :=
  ⟨some 20000, some 100, some 5, some pending, none, none, accepted, .ok ()⟩

/-- The refund of a swap is attempted after it has unlocked. -/
def refundAttempt (id : SwapId) (pending : UInt64) (accepted : Bool) : List SettlementInput :=
  attemptInputs (.refund id) (refundAnswers pending accepted) 100

/-- The node makes a swap of its own. -/
def newSwapInput (nonce : UInt64) : SettlementInput :=
  .other (.emit 100 (.ok ()) (.commitment { sampleCounter with swapId := .filled 5 })) (some nonce)

theorem honest_refundAttempt {s : Settlement} (id : SwapId) {pending : UInt64} (accepted : Bool)
    (hconfirmed : 5 ≤ s.account.confirmed) (hpending : pending = s.account.pending) :
    Runs.Along (Settlement.step sampleSigner sampleSha256) Honest s
      (refundAttempt id pending accepted) := by
  refine ⟨trivial, ⟨fun c hc => ?_, fun p hp => ?_⟩, trivial, trivial, trivial, trivial⟩
  · cases hc
    simp only [Settlement.step]
    split <;> exact hconfirmed
  · cases hp
    simp only [Settlement.step]
    split <;> exact hpending

/-- The first transaction is lost; then the second key takes the same nonce, or a swap is made with
it. -/
def lostInputs : List SettlementInput := refundAttempt (.filled 3) 5 false

/-- The next attempt of the first key, up to its transaction. -/
def againInputs : List SettlementInput := (refundAttempt (.filled 3) 6 true).take 3

def afterLoss (ins : List SettlementInput) : Settlement :=
  Runs.final (Settlement.step sampleSigner sampleSha256) twoRefunds (lostInputs ++ ins)

/-- The transaction that an attempt is about to send, and what its nonce was used for. -/
def aboutToReplace (s : Settlement) : Option (ActionKey × UInt64 × Option Sender) :=
  match s.attempt with
  | some ⟨k, reads, .stored answers⟩ =>
    (reads.transaction sampleSigner sampleSha256 answers k).map fun r =>
      (k, r.nonce, s.account.owner r.nonce)
  | _ => none

theorem not_replacesOwn {s : Settlement} {k : ActionKey} {nonce : UInt64} {owner : Option Sender}
    (h : aboutToReplace s = some (k, nonce, owner)) (hconfirmed : s.account.confirmed ≤ nonce)
    (hpending : nonce < s.account.pending) (howner : owner ≠ some (.settle k)) :
    ¬ s.ReplacesOwn sampleSigner sampleSha256 .send := by
  unfold aboutToReplace at h
  split at h
  · rename_i k' reads answers hattempt
    obtain ⟨r, hr, heq⟩ := Option.map_eq_some_iff.mp h
    cases heq
    exact fun hown => howner (hown _ _ _ r hattempt hr hconfirmed hpending)
  · cases h

/-- A lost transaction leaves its nonce to two keys, and the next attempt replaces the transaction
of the other key; or it replaces the transaction that made a swap. -/
theorem lost_transaction_shares_nonce :
    Runs.Along (Settlement.step sampleSigner sampleSha256) Honest twoRefunds
        (lostInputs ++ refundAttempt (.filled 4) 5 true ++ againInputs) ∧
      ¬ (afterLoss (refundAttempt (.filled 4) 5 true)).Exclusive ∧
      ¬ (afterLoss (refundAttempt (.filled 4) 5 true ++ againInputs)).ReplacesOwn sampleSigner
        sampleSha256 .send ∧
      ¬ (afterLoss (newSwapInput 5 :: againInputs)).ReplacesOwn sampleSigner sampleSha256
        .send := by
  have hboth : (afterLoss (refundAttempt (.filled 4) 5 true)).st.nonce (.refund (.filled 3)) =
        some 5 ∧
      (afterLoss (refundAttempt (.filled 4) 5 true)).st.nonce (.refund (.filled 4)) = some 5 ∧
      (afterLoss (refundAttempt (.filled 4) 5 true)).account.confirmed = 5 ∧
      (afterLoss (refundAttempt (.filled 4) 5 true)).account.pending = 6 := by
    decide +kernel
  obtain ⟨hfirst, hsecond, hconfirmed, hpending⟩ := hboth
  refine ⟨?_, fun hexclusive => ?_, ?_, ?_⟩
  · refine Runs.along_append.mpr ⟨Runs.along_append.mpr ⟨honest_refundAttempt _ _ (by decide) rfl,
      honest_refundAttempt _ _ (by decide +kernel) (by decide +kernel)⟩, ?_⟩
    have hagain := honest_refundAttempt (s := afterLoss (refundAttempt (.filled 4) 5 true))
      (.filled 3) true (hconfirmed ▸ UInt64.le_refl 5) hpending.symm
    exact ⟨hagain.1, hagain.2.1, hagain.2.2.1, trivial⟩
  · have hlt := hexclusive (.refund (.filled 3)) (.refund (.filled 4)) 5 (by decide) hfirst hsecond
    rw [hconfirmed] at hlt
    exact absurd hlt (by decide)
  · have habout : aboutToReplace
        (afterLoss (refundAttempt (.filled 4) 5 true ++ againInputs)) =
          some (.refund (.filled 3), 5, some (.settle (.refund (.filled 4)))) := by
      decide +kernel
    exact not_replacesOwn habout (by decide +kernel) (by decide +kernel) (by decide)
  · have habout : aboutToReplace (afterLoss (newSwapInput 5 :: againInputs)) =
        some (.refund (.filled 3), 5, some (.newSwap (.filled 5))) := by
      decide +kernel
    exact not_replacesOwn habout (by decide +kernel) (by decide +kernel) (by decide)

private theorem queue_twoRefunds {k : ActionKey} (h : k ≠ .refund (.filled 3))
    (h' : k ≠ .refund (.filled 4)) : twoRefunds.st.queue k = none := by
  have hsecond : ((RetryQueue.ensure (fun _ => none) (.refund (.filled 3)) 100).ensure
      (.refund (.filled 4)) 100) k = none := by
    rw [RetryQueue.ensure_of_ne h', RetryQueue.ensure_of_ne h]
  exact hsecond

theorem unused_twoRefunds : twoRefunds.Unused := by
  have hqueue : ∀ k, twoRefunds.st.nonce k = none := by
    intro k
    by_cases h : k = .refund (.filled 3)
    · rw [h]
      decide +kernel
    · by_cases h' : k = .refund (.filled 4)
      · rw [h']
        decide +kernel
      · rw [State.nonce, queue_twoRefunds h h']
        rfl
  have hstored : twoRefunds.st.StoredHeld := by
    have hfirst := ((State.empty 0).writes_other sampleSigner sampleSha256 (.track 100 (.commitment
      { Kaspa.sampleCommitment with swapId := .filled 3 }))).storedHeld fun k n hn => by cases hn
    exact (State.writes_other sampleSigner sampleSha256 _ (.track 100 (.commitment
      { Kaspa.sampleCommitment with swapId := .filled 4 }))).storedHeld hfirst
  refine ⟨by decide, rfl, hqueue, fun k => ?_⟩
  by_contra hne
  obtain ⟨n, hn⟩ := Option.ne_none_iff_exists'.mp hne
  have hheld := hstored k n hn
  rw [hqueue k] at hheld
  cases hheld

/-- Both refunds are accepted, and a swap is made in between. -/
def orderlyInputs : List SettlementInput :=
  refundAttempt (.filled 3) 5 true ++ (newSwapInput 6 :: refundAttempt (.filled 4) 7 true)

theorem nonces_exclusive_sample :
    (Runs.final (Settlement.step sampleSigner sampleSha256) twoRefunds
      orderlyInputs).Exclusive := by
  let first := Runs.final (Settlement.step sampleSigner sampleSha256) twoRefunds
    (refundAttempt (.filled 3) 5 true)
  let second := first.step sampleSigner sampleSha256 (newSwapInput 6)
  have hfacts : first.attempt.isNone ∧ second.attempt.isNone ∧
      first.st.nonce (.refund (.filled 3)) = some 5 ∧ first.account.confirmed = 5 ∧
      second.account.confirmed = 5 ∧ second.account.pending = 7 := by
    decide +kernel
  obtain ⟨hidle, hidle', hnonce, -, hconfirmed, hpending⟩ := hfacts
  have hfirst : ∀ k n, first.st.nonce k = some n → n = 5 := by
    intro k n hn
    by_cases hk : k = .refund (.filled 3)
    · rw [hk, hnonce, Option.some.injEq] at hn
      exact hn.symm
    · have hsame := nonce_attemptInputs sampleSigner sampleSha256 (s := twoRefunds) rfl hk
        (refundAnswers 5 true) 100
      rw [unused_twoRefunds.queue k] at hsame
      cases hsame.symm.trans hn
  have hsecond : ∀ k n, second.st.nonce k = some n → n = 5 :=
    fun k n hn => hfirst k n (KeepsNonces.touched (touched_other sampleSigner sampleSha256 first.st
      (.emit 100 (.ok ()) (.commitment { sampleCounter with swapId := .filled 5 }))) k n hn)
  refine (nonces_exclusive sampleSigner sampleSha256 twoRefunds unused_twoRefunds orderlyInputs
    ?_).1
  have hhonest : Runs.Along (Settlement.step sampleSigner sampleSha256) Honest twoRefunds
      orderlyInputs :=
    Runs.along_append.mpr ⟨honest_refundAttempt _ _ (by decide) rfl, trivial,
      honest_refundAttempt (s := second) _ _ (hconfirmed ▸ UInt64.le_refl 5) hpending.symm⟩
  refine hhonest.and (Runs.along_append.mpr ⟨⟨trivial, ?_, trivial, trivial, trivial, trivial⟩, ?_,
    trivial, ?_, trivial, trivial, trivial, trivial⟩)
  · rintro k reads r - - - k' n - hn
    rw [show (twoRefunds.step sampleSigner sampleSha256 (.attempt (.refund (.filled 3)))).st =
      twoRefunds.st from rfl, unused_twoRefunds.queue k'] at hn
    cases hn
  · rintro - - k (hn | ⟨attempt, hattempt, -⟩)
    · exact absurd (hfirst k 6 hn) (by decide)
    · rw [show first.attempt = none from Option.isNone_iff_eq_none.mp hidle] at hattempt
      cases hattempt
  · rintro k reads r - - - k' n - hn
    have hst : (second.step sampleSigner sampleSha256 (.attempt (.refund (.filled 4)))).st =
        second.st ∧ (second.step sampleSigner sampleSha256
          (.attempt (.refund (.filled 4)))).account = second.account := by
      simp only [Settlement.step]
      split <;> exact ⟨rfl, rfl⟩
    rw [hst.2, hpending, hsecond k' n (hst.1 ▸ hn)]
    decide

end Settlement
end Stroemnet.Evm
