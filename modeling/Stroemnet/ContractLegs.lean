import Stroemnet.EthereumSolvency
import Stroemnet.EvmLogFidelity
import Stroemnet.TwoChains

/-! # The swaps of a contract as hash timelocks

Each identifier of the contract is a leg under a hash timelock of its own, and the logs are its
history: a commitment locks it, a claim or a refund settles it. Whatever calls are nested in each
other, the logs that a transaction leaves are moves that the leg allows at the time of the block,
and storage and payouts are what the leg says they are. -/
namespace Stroemnet.Evm

open HashTimelocks (Terms Leg Move LegChain)

/-- The terms that a swap is held under: it is closed to claims when it opens to refunds. -/
def Swap.terms (s : Swap) : Terms Bytes32 ℕ :=
  ⟨s.secretHash, (s.timelock.toNat : ℕ), s.timelock.toNat⟩

def Contract.hash (C : Contract) (secret : Bytes32) : Bytes32 := C.sha256 secret.data

def Log.move? (id : Bytes32) : Log → Option (Move Bytes32 Bytes32 ℕ)
  | .commitment l =>
    if l.swapId = id then some (.lock ⟨l.secretHash, (l.timelock.toNat : ℕ), l.timelock.toNat⟩)
    else none
  | .claim l => if l.swapId = id then some (.claim l.secret) else none
  | .refund id' => if id' = id then some .refund else none
  | .solverReward _ _ _ => none

def moves (id : Bytes32) (logs : List Log) : List (Move Bytes32 Bytes32 ℕ) :=
  logs.filterMap (Log.move? id)

def timed (t : ℕ) (ms : List (Move Bytes32 Bytes32 ℕ)) : List (ℕ × Move Bytes32 Bytes32 ℕ) :=
  ms.map fun m => (t, m)

/-- What storage and payouts hold for a leg. -/
def Accounted (w : World) (id : Bytes32) : Leg Bytes32 Bytes32 ℕ → Prop
  | .unused => (w.swaps id).initialized = false ∧ paid w id = []
  | .locked terms => (w.swaps id).Open ∧ (w.swaps id).terms = terms ∧ paid w id = []
  | .claimed terms _ => (w.swaps id).initialized = true ∧ (w.swaps id).finalized = true ∧
      (w.swaps id).terms = terms ∧
      ∃ solver, paid w id = settlement id (w.swaps id) (w.swaps id).receiver solver
  | .refunded terms => (w.swaps id).initialized = true ∧ (w.swaps id).finalized = true ∧
      (w.swaps id).terms = terms ∧
      ∃ solver, paid w id = settlement id (w.swaps id) (w.swaps id).sender solver

def Swap.Done (s : Swap) : Prop := s.initialized = true ∧ s.finalized = true

def Swap.deal (s : Swap) : Swap := { s with finalized := true }

theorem Swap.of_deal_eq {s s' : Swap} (h : s.deal = s'.deal) : s.receiver = s'.receiver ∧
    s.amount = s'.amount ∧ s.secretHash = s'.secretHash ∧ s.timelock = s'.timelock := by
  simp only [Swap.deal, Swap.mk.injEq] at h
  exact ⟨h.2.2.1, h.2.2.2.1, h.2.2.2.2.1, h.2.2.2.2.2.1⟩

section Advances

variable {C : Contract} {t : ℕ} {id : Bytes32} {u v w : World} {new new' : List Log}

/-- Code that runs in a block leaves logs which move a leg along. A leg that is being paid out is
accounted for later; until then the code leaves it alone. -/
structure Advances (C : Contract) (t : ℕ) (id : Bytes32) (w v : World) (new : List Log) : Prop where
  logs : v.logs = w.logs ++ new
  final : (w.swaps id).Done →
    moves id new = [] ∧ v.swaps id = w.swaps id ∧ paid v id = paid w id
  deal : (w.swaps id).initialized = true → (v.swaps id).deal = (w.swaps id).deal
  leg : ∀ leg, Accounted w id leg →
    ∃ leg', leg.play C.hash (timed t (moves id new)) = some leg' ∧ Accounted v id leg'

theorem moves_append (id : Bytes32) (a b : List Log) :
    moves id (a ++ b) = moves id a ++ moves id b := List.filterMap_append

private theorem timed_append (t : ℕ) (a b : List (Move Bytes32 Bytes32 ℕ)) :
    timed t (a ++ b) = timed t a ++ timed t b := List.map_append

private theorem accounted_congr (hswap : v.swaps id = w.swaps id) (hpaid : paid v id = paid w id)
    {leg : Leg Bytes32 Bytes32 ℕ} : Accounted v id leg ↔ Accounted w id leg := by
  cases leg <;> simp only [Accounted, hswap, hpaid]

/-- A step that does nothing to the leg and leaves no log of it. -/
theorem Advances.quiet (hlogs : v.logs = w.logs ++ new) (hnew : moves id new = [])
    (hswap : v.swaps id = w.swaps id) (hpaid : paid v id = paid w id) :
    Advances C t id w v new := by
  refine ⟨hlogs, fun _ => ⟨hnew, hswap, hpaid⟩, fun _ => by rw [hswap],
    fun leg hleg => ⟨leg, ?_, ?_⟩⟩
  · rw [hnew]
    rfl
  · exact (accounted_congr hswap hpaid).mpr hleg

theorem Advances.refl (w : World) : Advances C t id w w [] :=
  .quiet (List.append_nil _).symm rfl rfl rfl

theorem Advances.trans (h : Advances C t id u v new) (h' : Advances C t id v w new') :
    Advances C t id u w (new ++ new') := by
  refine ⟨by rw [h'.logs, h.logs, List.append_assoc], fun hdone => ?_, fun hinit => ?_,
    fun leg hleg => ?_⟩
  · obtain ⟨hnew, hswap, hpaid⟩ := h.final hdone
    obtain ⟨hnew', hswap', hpaid'⟩ := h'.final (hswap ▸ hdone)
    exact ⟨by rw [moves_append, hnew, hnew', List.append_nil], hswap'.trans hswap,
      hpaid'.trans hpaid⟩
  · have hmid : (v.swaps id).initialized = true :=
      (congrArg Swap.initialized (h.deal hinit)).trans hinit
    exact (h'.deal hmid).trans (h.deal hinit)
  · obtain ⟨mid, hmid, hacc⟩ := h.leg leg hleg
    obtain ⟨leg', hplay, hacc'⟩ := h'.leg mid hacc
    refine ⟨leg', ?_, hacc'⟩
    rw [moves_append, timed_append, HashTimelocks.play_append, hmid]
    exact hplay

/-- A leg moves along when it is accounted for before and after. -/
theorem Advances.of_move {m : Move Bytes32 Bytes32 ℕ} {leg : Leg Bytes32 Bytes32 ℕ}
    (leg' : Leg Bytes32 Bytes32 ℕ) (hlogs : v.logs = w.logs ++ new) (hnew : moves id new = [m])
    (hopen : ¬ (w.swaps id).Done)
    (hdeal : (w.swaps id).initialized = true → (v.swaps id).deal = (w.swaps id).deal)
    (honly : ∀ other, Accounted w id other → other = leg)
    (hmove : leg.move C.hash t m = some leg') (hacc : Accounted w id leg → Accounted v id leg') :
    Advances C t id w v new := by
  refine ⟨hlogs, fun hdone => absurd hdone hopen, hdeal, fun other hother => ⟨leg', ?_, ?_⟩⟩
  · rw [honly other hother, hnew]
    exact HashTimelocks.play_cons_eq_some.mpr ⟨leg', hmove, rfl⟩
  · exact hacc (honly other hother ▸ hother)

/-- Foreign code, as far as it comes to an end. -/
def Leads (C : Contract) (t : ℕ) (react : World → Outcome) : Prop :=
  ∀ w v, (react w).result = .ok v → ∀ id, ∃ new, Advances C t id w v new

end Advances

section Payouts

variable {C : Contract} {t : ℕ} {id id' : Bytes32} {v w : World} {payee sender : Address}
  {amount : Uint256} {onPayee onSolver : World → Outcome}

theorem transfer_eq_ok {react : World → Outcome}
    (h : (transfer C id payee amount react w).result = .ok v) :
    (react (w.pay C.self payee amount.toNat id)).result = .ok v := by
  unfold transfer at h
  split_ifs at h
  · cases h
  · cases h
  · exact h

theorem transfer_advances {react : World → Outcome} (hreact : Leads C t react) (hne : id' ≠ id)
    (h : (transfer C id payee amount react w).result = .ok v) :
    ∃ new, Advances C t id' w v new := by
  obtain ⟨new, hnew⟩ := hreact _ v (transfer_eq_ok h) id'
  have hpay : Advances C t id' w (w.pay C.self payee amount.toNat id) [] :=
    .quiet (List.append_nil _).symm rfl rfl (sameOff_pay payee amount.toNat id' hne).2
  exact ⟨_, hpay.trans hnew⟩

/-- A payout of a swap that is settled: the code that it runs adds nothing. -/
theorem transfer_own {react : World → Outcome} (hreact : Leads C t react)
    (hdone : (w.swaps id).Done) (h : (transfer C id payee amount react w).result = .ok v) :
    ∃ new, v.logs = w.logs ++ new ∧ moves id new = [] ∧ v.swaps id = w.swaps id ∧
      paid v id = paid w id ++ [⟨id, payee, amount.toNat⟩] := by
  obtain ⟨new, hnew⟩ := hreact _ v (transfer_eq_ok h) id
  obtain ⟨hmoves, hswap, hpaid⟩ := hnew.final hdone
  exact ⟨new, hnew.logs, hmoves, hswap, hpaid.trans (paid_pay payee amount.toNat)⟩

private theorem payOut_advances (hpayee : Leads C t onPayee) (hsolver : Leads C t onSolver)
    (hne : id' ≠ id) (h : (payOut C sender id payee amount onPayee onSolver w).result = .ok v) :
    ∃ new, Advances C t id' w v new := by
  obtain ⟨w₁, hw₁, h⟩ := result_require h
  obtain ⟨w₂, hw₂, h⟩ := result_require h
  cases h
  obtain ⟨new₁, h₁⟩ := transfer_advances hpayee hne hw₁
  obtain ⟨new₂, h₂⟩ := transfer_advances hsolver hne hw₂
  exact ⟨_, (h₁.trans h₂).trans (.quiet rfl rfl rfl rfl)⟩

private theorem payOut_own (hpayee : Leads C t onPayee) (hsolver : Leads C t onSolver)
    (hdone : (w.swaps id).Done)
    (h : (payOut C sender id payee (w.swaps id).amount onPayee onSolver w).result = .ok v) :
    ∃ new, v.logs = w.logs ++ new ∧ moves id new = [] ∧ v.swaps id = w.swaps id ∧
      paid v id = paid w id ++ settlement id (w.swaps id) payee sender := by
  obtain ⟨w₁, hw₁, h⟩ := result_require h
  obtain ⟨w₂, hw₂, h⟩ := result_require h
  cases h
  obtain ⟨new₁, hlogs₁, hmoves₁, hswap₁, hpaid₁⟩ := transfer_own hpayee hdone hw₁
  obtain ⟨new₂, hlogs₂, hmoves₂, hswap₂, hpaid₂⟩ := transfer_own hsolver (hswap₁ ▸ hdone) hw₂
  refine ⟨new₁ ++ new₂ ++ [.solverReward id sender (solverReward (w.swaps id).amount)], ?_, ?_,
    hswap₂.trans hswap₁, ?_⟩
  · change w₂.logs ++ _ = _
    rw [hlogs₂, hlogs₁]
    simp only [List.append_assoc]
  · rw [moves_append, moves_append, hmoves₁, hmoves₂]
    rfl
  · change paid w₂ id = _
    rw [hpaid₂, hpaid₁, List.append_assoc]
    simp [settlement]

theorem eq_locked_of_open (hopen : (w.swaps id).Open) {leg : Leg Bytes32 Bytes32 ℕ}
    (hleg : Accounted w id leg) : leg = .locked (w.swaps id).terms := by
  cases leg with
  | unused => simp [Accounted, hopen.1] at hleg
  | locked terms => rw [hleg.2.1]
  | claimed terms s => simp [Accounted, hopen.2] at hleg
  | refunded terms => simp [Accounted, hopen.2] at hleg

theorem eq_unused_of_fresh (hfresh : (w.swaps id).initialized = false) {leg : Leg Bytes32 Bytes32 ℕ}
    (hleg : Accounted w id leg) : leg = .unused := by
  cases leg with
  | unused => rfl
  | locked terms => simp [Accounted, Swap.Open, hfresh] at hleg
  | claimed terms s => simp [Accounted, hfresh] at hleg
  | refunded terms => simp [Accounted, hfresh] at hleg

/-- Settling an open swap: the log of it is the move, all the rest belongs to other swaps. -/
theorem settle_advances (hpayee : Leads C t onPayee) (hsolver : Leads C t onSolver)
    (hopen : (w.swaps id).Open) {l : Log} {m : Move Bytes32 Bytes32 ℕ}
    {leg' : Leg Bytes32 Bytes32 ℕ} (hl : ∀ id', l.move? id' = if id = id' then some m else none)
    (hmove : (Leg.locked (w.swaps id).terms).move C.hash t m = some leg')
    (hacc : ∀ v, v.swaps id = { w.swaps id with finalized := true } →
      paid v id = settlement id (w.swaps id) payee sender → Accounted v id leg')
    (h : (payOut C sender id payee (w.swaps id).amount onPayee onSolver
      ((w.setSwap id { w.swaps id with finalized := true }).emit l)).result = .ok v)
    (id' : Bytes32) : ∃ new, Advances C t id' w v new := by
  set w₁ := (w.setSwap id { w.swaps id with finalized := true }).emit l with hw₁
  by_cases hid : id' = id
  · subst hid
    have hself : w₁.swaps id' = { w.swaps id' with finalized := true } :=
      Function.update_self _ _ _
    have hdone : (w₁.swaps id').Done := by
      rw [hself]
      exact ⟨hopen.1, rfl⟩
    have hamount : (w.swaps id').amount = (w₁.swaps id').amount := by
      rw [hself]
    rw [hamount] at h
    obtain ⟨new, hlogs, hmoves, hswap, hpaid⟩ := payOut_own hpayee hsolver hdone h
    refine ⟨[l] ++ new, .of_move _ ?_ ?_ ?_ ?_ (fun _ => eq_locked_of_open hopen) hmove
      fun hleg => hacc v (hswap.trans hself) ?_⟩
    · rw [hlogs, ← List.append_assoc]
      rfl
    · rw [moves_append, hmoves, List.append_nil, moves, List.filterMap_cons, hl, if_pos rfl]
      rfl
    · rintro ⟨-, hfinal⟩
      rw [hopen.2] at hfinal
      cases hfinal
    · intro _
      rw [hswap, hself]
      rfl
    · have hunpaid : paid w₁ id' = [] := hleg.2.2
      rw [hpaid, hunpaid, hself]
      rfl
  · have hquiet : Advances C t id' w w₁ [l] := by
      refine .quiet rfl ?_ (Function.update_of_ne hid _ _) rfl
      rw [moves, List.filterMap_cons, hl, if_neg (Ne.symm hid)]
      rfl
    obtain ⟨new, hnew⟩ := payOut_advances hpayee hsolver hid h
    exact ⟨_, hquiet.trans hnew⟩

end Payouts

section Calls

variable {C : Contract} {t : ℕ} {v w : World} {sender : Address}
  {onPayee onSolver : World → Outcome}

private theorem newSwap_advances {value : Uint256} {onBehalfOf receiver : Address}
    {senderDestination : Bytes} {secretHash : Bytes32} {timelock : Uint256} {destination : UInt8}
    {id : Bytes32} (h : (newSwap C t sender value onBehalfOf receiver senderDestination secretHash
      timelock destination id w).result = .ok v) (id' : Bytes32) :
    ∃ new, Advances C t id' w v new := by
  unfold newSwap at h
  split_ifs at h with hbalance hvalue htime hreceiver hhash hinit hzero hused
  any_goals cases h
  set l : NewSwapLog := ⟨id, onBehalfOf, receiver, senderDestination, value, secretHash, timelock,
    destination⟩ with hl
  rw [Bool.not_eq_true] at hinit
  refine ⟨[.commitment l], ?_⟩
  by_cases hid : id' = id
  · subst hid
    have hself : (w.storeSwap C.self sender l).swaps id' = ⟨onBehalfOf, senderDestination, receiver,
        value, secretHash, timelock, true, false⟩ := Function.update_self _ _ _
    have hnew : ¬ (w.swaps id').initialized = true := Bool.eq_false_iff.mp hinit
    refine .of_move (.locked ⟨secretHash, (timelock.toNat : ℕ), timelock.toNat⟩) rfl
      (by simp [moves, Log.move?, hl]) (fun hdone => hnew hdone.1)
      (fun hinit' => absurd hinit' hnew)
      (fun _ => eq_unused_of_fresh hinit) (HashTimelocks.move_lock ?_) ?_
    · exact WithTop.coe_lt_coe.mpr (by omega)
    · rintro ⟨-, hunpaid⟩
      refine ⟨?_, ?_, hunpaid⟩
      · rw [hself]
        exact ⟨rfl, rfl⟩
      · rw [hself]
        rfl
  · refine .quiet rfl ?_ (Function.update_of_ne hid _ _) rfl
    simp [moves, Log.move?, hl, Ne.symm hid]

private theorem claim_advances (hpayee : Leads C t onPayee) (hsolver : Leads C t onSolver)
    {id secret : Bytes32} (h : (claim C t sender id secret onPayee onSolver w).result = .ok v) :
    ∀ id', ∃ new, Advances C t id' w v new := by
  simp only [claim] at h
  split_ifs at h with hinit hfinal hsecret htime
  any_goals cases h
  have hopen : (w.swaps id).Open := ⟨hinit, Bool.eq_false_iff.mpr hfinal⟩
  refine settle_advances hpayee hsolver hopen (fun id' => rfl)
    (HashTimelocks.move_claim (not_not.mp hsecret) (WithTop.coe_lt_coe.mpr htime)) ?_ h
  intro v hswap hpaid
  simp only [Accounted, hswap]
  exact ⟨hopen.1, trivial, rfl, sender, hpaid⟩

private theorem refund_advances (hpayee : Leads C t onPayee) (hsolver : Leads C t onSolver)
    {id : Bytes32} (h : (refund C t sender id onPayee onSolver w).result = .ok v) :
    ∀ id', ∃ new, Advances C t id' w v new := by
  simp only [refund] at h
  split_ifs at h with hinit hfinal htime
  any_goals cases h
  have hopen : (w.swaps id).Open := ⟨hinit, Bool.eq_false_iff.mpr hfinal⟩
  refine settle_advances hpayee hsolver hopen (fun id' => rfl)
    (HashTimelocks.move_refund htime) ?_ h
  intro v hswap hpaid
  simp only [Accounted, hswap]
  exact ⟨hopen.1, trivial, rfl, sender, hpaid⟩

private theorem dispatch_advances (hpayee : Leads C t onPayee) (hsolver : Leads C t onSolver)
    (call : Call)
    (h : (dispatch C t sender onPayee onSolver w call).result = .ok v) :
    ∀ id, ∃ new, Advances C t id w v new := by
  cases call with
  | newSwap value onBehalfOf receiver senderDestination secretHash timelock destination id =>
    exact newSwap_advances h
  | claim id secret => exact claim_advances hpayee hsolver h
  | refund id => exact refund_advances hpayee hsolver h

/-- What is rolled back does not count. -/
theorem left_advances {o : Outcome}
    (h : ∀ v, o.result = .ok v → ∀ id, ∃ new, Advances C t id w v new) (id : Bytes32) :
    ∃ new, Advances C t id w (o.left w) new := by
  unfold Outcome.left
  cases hresult : o.result with
  | ok v => exact h v hresult id
  | error e => exact ⟨[], .refl w⟩

/-- Nested code, by induction on the tree of calls that it makes. -/
theorem exec_leads (C : Contract) (t : ℕ) (code : Code) : Leads C t (exec C t code) := by
  induction code with
  | stop =>
    intro w v h id
    cases h
    exact ⟨[], .refl w⟩
  | revert =>
    intro w v h
    cases h
  | move source target amount next ih =>
    intro w v h id
    simp only [exec] at h
    split_ifs at h
    · exact ih w v h id
    · obtain ⟨new, hnew⟩ := ih (w.move source target amount) v h id
      have hmove : Advances C t id w (w.move source target amount) [] :=
        .quiet (List.append_nil _).symm rfl rfl rfl
      exact ⟨_, hmove.trans hnew⟩
  | attempt inner next ihi ihn =>
    intro w v h id
    obtain ⟨new, hnew⟩ := left_advances (ihi w) id
    obtain ⟨new', hnew'⟩ := ihn _ v h id
    exact ⟨_, hnew.trans hnew'⟩
  | call sender call onPayee onSolver next ihp ihs ihn =>
    intro w v h id
    simp only [exec] at h
    split_ifs at h
    · exact ihn w v h id
    · obtain ⟨new, hnew⟩ := left_advances (fun v hv => dispatch_advances ihp ihs call hv) id
      obtain ⟨new', hnew'⟩ := ihn _ v h id
      exact ⟨_, hnew.trans hnew'⟩

def Transaction.after (C : Contract) (tx : Transaction) (w : World) : World :=
  (exec C tx.timestamp tx.code w).left w

/-- The moves of a swap in a transaction: those of the logs that it leaves. -/
def Transaction.history (C : Contract) (id : Bytes32) (tx : Transaction) (w : World) :
    List (ℕ × Move Bytes32 Bytes32 ℕ) :=
  timed tx.timestamp (moves id ((tx.after C w).logs.drop w.logs.length))

theorem Transaction.advances (C : Contract) (tx : Transaction) (w : World) (id : Bytes32) :
    Advances C tx.timestamp id w (tx.after C w) ((tx.after C w).logs.drop w.logs.length) := by
  obtain ⟨new, hnew⟩ := left_advances (exec_leads C tx.timestamp tx.code w) id
  have hdrop : (tx.after C w).logs.drop w.logs.length = new := by
    rw [Transaction.after, hnew.logs, List.drop_left]
  rw [hdrop]
  exact hnew

theorem Transaction.play (C : Contract) (tx : Transaction) {id : Bytes32} {w : World}
    {leg : Leg Bytes32 Bytes32 ℕ} (h : Accounted w id leg) :
    ∃ leg', leg.play C.hash (tx.history C id w) = some leg' ∧ Accounted (tx.after C w) id leg' :=
  (tx.advances C w id).leg leg h

end Calls

def worldAfter (C : Contract) (txs : List Transaction) (w : World) : World :=
  txs.foldl (fun w tx => tx.after C w) w

def contractChain (C : Contract) (id : Bytes32) :
    LegChain World Transaction Bytes32 Bytes32 ℕ where
  step w tx := tx.after C w
  clock := Transaction.timestamp
  moves w tx := moves id ((tx.after C w).logs.drop w.logs.length)
  hash := C.hash
  Holds w leg := Accounted w id leg
  Sane _ := True
  holds_step h _ := Transaction.play C _ h

/-- The history of a swap over a run. -/
def history (C : Contract) (id : Bytes32) (txs : List Transaction) (w : World) :
    List (ℕ × Move Bytes32 Bytes32 ℕ) := (contractChain C id).history w txs

section Runs

variable {C : Contract} {id : Bytes32}

theorem result_run (txs : List Transaction) (w : World) :
    (run C txs w).result = .ok (worldAfter C txs w) := by
  induction txs generalizing w with
  | nil => rfl
  | cons tx txs ih => exact ih (tx.after C w)

theorem history_play (txs : List Transaction) {w : World} {leg : Leg Bytes32 Bytes32 ℕ}
    (h : Accounted w id leg) : ∃ leg', leg.play C.hash (history C id txs w) = some leg' ∧
      Accounted (worldAfter C txs w) id leg' :=
  (contractChain C id).holds_run h fun _ _ => trivial

theorem moves_logs (txs : List Transaction) (w : World) :
    moves id (worldAfter C txs w).logs =
      moves id w.logs ++ (history C id txs w).map Prod.snd := by
  induction txs generalizing w with
  | nil => exact (List.append_nil _).symm
  | cons tx txs ih =>
    have hlogs := (tx.advances C w id).logs
    have hfirst : moves id (tx.after C w).logs =
        moves id w.logs ++ (tx.history C id w).map Prod.snd := by
      rw [hlogs, moves_append, Transaction.history, timed, List.map_map]
      exact congrArg (_ ++ ·) (List.map_id _).symm
    have hcons : history C id (tx :: txs) w =
        tx.history C id w ++ history C id txs (tx.after C w) := rfl
    rw [hcons, List.map_append, ← List.append_assoc, ← hfirst]
    exact ih (tx.after C w)

theorem deal_worldAfter (txs : List Transaction) {w : World} (h : (w.swaps id).initialized = true) :
    ((worldAfter C txs w).swaps id).deal = (w.swaps id).deal := by
  induction txs generalizing w with
  | nil => rfl
  | cons tx txs ih =>
    have hdeal := (tx.advances C w id).deal h
    exact (ih ((congrArg Swap.initialized hdeal).trans h)).trans hdeal

theorem accounted_deployed (balances : Address → ℕ) (id : Bytes32) :
    Accounted (World.deployed balances) id .unused := ⟨rfl, rfl⟩

/-- Over every run from deployment, with calls nested in the payouts and reverts at any depth, the
logs of every swap are a history that its hash timelock allows, each at the time of its block, and
the contract holds and has paid what the leg at the end of that history says. -/
theorem contract_refines_hash_timelocks (C : Contract) (balances : Address → ℕ)
    (txs : List Transaction) (id : Bytes32) :
    ∃ w leg, (run C txs (World.deployed balances)).result = .ok w ∧
      moves id w.logs = (history C id txs (World.deployed balances)).map Prod.snd ∧
      Leg.unused.play C.hash (history C id txs (World.deployed balances)) = some leg ∧
      Accounted w id leg := by
  obtain ⟨leg, hplay, hacc⟩ := history_play (C := C) txs (accounted_deployed balances id)
  exact ⟨_, leg, result_run txs _, moves_logs txs _, hplay, hacc⟩

end Runs

end Stroemnet.Evm
