import Stroemnet.ContractLegs
import Stroemnet.HtlcSpendingCondition
import Stroemnet.TimelockMargin

/-! # Swaps between two contracts

The two legs of a swap stand in contracts of two chains, whose blocks come in any order. Anyone
may call either contract, and contracts may call each other's callers back. A provider locks the
counter leg under the hash of the first one and long before the first can be refunded, so that
whoever claims the counter shows the provider how to claim the first leg, and leaves it the time
to do so. -/
namespace Stroemnet.Evm

open HashTimelocks (Terms Leg Move LegChain)

section Enabled

variable {C : Contract} {w : World} {id secret : Bytes32} {t : ℕ} {sender : Address}

/-- A call in which none of the accounts that are paid runs code. -/
def plainTx (t : ℕ) (sender : Address) (call : Call) : Transaction :=
  ⟨t, .call sender call .stop .stop .stop⟩

def claimTx (t : ℕ) (sender : Address) (id secret : Bytes32) : Transaction :=
  plainTx t sender (.claim id secret)

/-- A transfer to an account without code goes through if the contract can pay. -/
theorem transfer_stop {payee : Address} {amount : Uint256}
    (hbalance : amount.toNat ≤ w.balances C.self) (hpayee : payee ≠ C.self) :
    (transfer C id payee amount (exec C t .stop) w).result =
      .ok (w.pay C.self payee amount.toNat id) := by
  rw [transfer, if_neg (Nat.not_lt.mpr hbalance), if_neg hpayee]
  rfl

private theorem balances_pay_self {payee : Address} (hpayee : payee ≠ C.self) (amount : ℕ) :
    (w.pay C.self payee amount id).balances C.self = w.balances C.self - amount := by
  simp [World.pay, World.move, Function.update_of_ne hpayee.symm]

/-- The contract can pay for every swap that is open. -/
theorem amount_le_balance {k : ℕ} (h : Sound C k w) (hopen : (w.swaps id).Open) :
    (w.swaps id).amount.toNat ≤ w.balances C.self := by
  have hfinalize := liabilities_finalize w id hopen
  have hsolvent := h.solvent
  omega

private theorem payOut_stop (C : Contract) (t : ℕ) (id : Bytes32) {payee : Address}
    {amount : Uint256}
    (hbalance : amount.toNat ≤ w.balances C.self) (hpayee : payee ≠ C.self)
    (hsender : sender ≠ C.self) :
    ∃ v, (payOut C sender id payee amount (exec C t .stop) (exec C t .stop) w).result = .ok v := by
  have hdiv := Nat.div_le_self amount.toNat 1000
  have hfirst : (receiverAmount amount).toNat ≤ w.balances C.self := by
    rw [toNat_receiverAmount]
    omega
  have hsecond : (solverReward amount).toNat ≤
      (w.pay C.self payee (receiverAmount amount).toNat id).balances C.self := by
    rw [balances_pay_self hpayee, toNat_receiverAmount, toNat_solverReward]
    omega
  simp only [payOut, Outcome.require, transfer_stop hfirst hpayee, transfer_stop hsecond hsender]
  exact ⟨_, rfl⟩

/-- A transaction that is one call leaves the world as the call does. -/
theorem plainTx_after {call : Call} (hsender : sender ≠ C.self) :
    (plainTx t sender call).after C w =
      (dispatch C t sender (exec C t .stop) (exec C t .stop) w call).left w := by
  rw [Transaction.after, plainTx, exec, if_neg hsender]
  rfl

private theorem claimTx_settles {k : ℕ} (h : Sound C k w) (hopen : (w.swaps id).Open)
    (hsecret : C.hash secret = (w.swaps id).secretHash) (htime : t < (w.swaps id).timelock.toNat)
    (hreceiver : (w.swaps id).receiver ≠ C.self) (hsender : sender ≠ C.self) :
    paid ((claimTx t sender id secret).after C w) id =
      settlement id (w.swaps id) (w.swaps id).receiver sender := by
  have hbalance : (w.swaps id).amount.toNat ≤ w.balances C.self := amount_le_balance h hopen
  obtain ⟨v, hv⟩ := payOut_stop C t id
    (w := (w.setSwap id { w.swaps id with finalized := true }).emit (.claim ⟨id, secret, sender,
      receiverAmount (w.swaps id).amount, solverReward (w.swaps id).amount⟩))
    hbalance hreceiver hsender
  have hclaim : (dispatch C t sender (exec C t .stop) (exec C t .stop) w
      (.claim id secret)).result = .ok v := by
    have hlock : ¬ C.sha256 secret.data ≠ (w.swaps id).secretHash := not_not.mpr hsecret
    rw [dispatch, claim, if_neg (not_not.mpr hopen.1), if_neg (Bool.eq_false_iff.mp hopen.2),
      if_neg hlock, if_neg (not_not.mpr htime)]
    exact hv
  rw [claimTx, plainTx_after hsender, Outcome.left, hclaim]
  have hkeeps : Keeps C k (Succeeds C t sender (.claim id secret) w)
      (dispatch C t sender (exec C t .stop) (exec C t .stop) w (.claim id secret)) :=
    dispatch_keeps (exec_keeps t .stop) (exec_keeps t .stop) h hsender (.claim id secret)
  obtain ⟨-, -, -, hsettled⟩ := (hkeeps.result v hclaim).2
  exact hsettled.paid_all

end Enabled

/-- Both chains after transactions on either; those of the first one are on the left. -/
def worldsAfter (C C' : Contract) (txs : List (Transaction ⊕ Transaction)) (w : World × World) :
    World × World :=
  (worldAfter C (txs.filterMap Sum.getLeft?) w.1, worldAfter C' (txs.filterMap Sum.getRight?) w.2)

/-- Clocks of the transactions: when one is made on the second chain, the first has not come
further than `late` says. -/
def InStep (late : ℕ → ℕ) (txs : List (Transaction ⊕ Transaction)) : Prop :=
  txs.Pairwise fun x y => ∀ tx tx', x = .inl tx → y = .inr tx' → tx.timestamp ≤ late tx'.timestamp

/-- The chain shows a secret of the swap. -/
def Shown (w : World) (id secret : Bytes32) : Prop :=
  ∃ l : ClaimLog, .claim l ∈ w.logs ∧ l.swapId = id ∧ l.secret = secret

/-- Whoever claims the swap with the secret before it can be refunded has its receiver paid. -/
def Claimable (C : Contract) (w : World) (id : Bytes32) (s : Swap) (secret : Bytes32) : Prop :=
  ∀ t sender, t < s.timelock.toNat → sender ≠ C.self →
    paid ((claimTx t sender id secret).after C w) id = settlement id s s.receiver sender

/-- A swap on the chain that makes good a commitment. -/
structure Commits (c : CommitmentV1) (s : Swap) : Prop where
  secretHash : s.secretHash = c.secretHash
  unlockTs : s.timelock.toNat = c.unlockTs.toNat

theorem mem_moves_claim {logs : List Log} {id secret : Bytes32} :
    .claim secret ∈ moves id logs ↔
      ∃ l : ClaimLog, .claim l ∈ logs ∧ l.swapId = id ∧ l.secret = secret := by
  constructor
  · intro h
    obtain ⟨log, hlog, hmove⟩ := List.mem_filterMap.mp h
    cases log with
    | commitment l =>
      simp only [Log.move?] at hmove
      split_ifs at hmove
      cases hmove
    | refund id' =>
      simp only [Log.move?] at hmove
      split_ifs at hmove
      cases hmove
    | claim l =>
      simp only [Log.move?, Option.ite_none_right_eq_some, Option.some.injEq] at hmove
      exact ⟨l, hlog, hmove.1, by cases hmove.2; rfl⟩
    | solverReward _ _ _ => cases hmove
  · rintro ⟨l, hl, rfl, rfl⟩
    exact List.mem_filterMap.mpr ⟨_, hl, if_pos rfl⟩

private theorem claimable_of_open {C : Contract} {k : ℕ} {w : World} {s : Swap}
    {id secret : Bytes32}
    (h : Sound C k w) (hopen : (w.swaps id).Open) (hdeal : (w.swaps id).deal = s.deal)
    (hsecret : C.hash secret = s.secretHash) (hreceiver : s.receiver ≠ C.self) :
    Claimable C w id s secret := by
  obtain ⟨hreceiver', hamount, hhash, htimelock⟩ := Swap.of_deal_eq hdeal
  intro t sender ht hsender
  have hpaid := claimTx_settles h hopen (hsecret.trans hhash.symm) (htimelock ▸ ht)
    (hreceiver' ▸ hreceiver) hsender
  rw [hpaid, settlement, settlement, hamount, hreceiver']

section Chain

variable {C : Contract} {id : Bytes32} {balances : Address → ℕ}

private theorem worldAfter_append (txs txs' : List Transaction) (w : World) :
    worldAfter C (txs ++ txs') w = worldAfter C txs' (worldAfter C txs w) := List.foldl_append

private theorem sound_worldAfter (txs : List Transaction) :
    Sound C 0 (worldAfter C txs (World.deployed balances)) :=
  ((run_keeps _ 0 _ (sound_deployed balances)).result _ (result_run _ _)).1

private theorem accounted_open {txs : List Transaction}
    (hopen : ((worldAfter C txs (World.deployed balances)).swaps id).Open) :
    Accounted (worldAfter C txs (World.deployed balances)) id
      (.locked ((worldAfter C txs (World.deployed balances)).swaps id).terms) := by
  obtain ⟨leg, -, hacc⟩ := history_play (C := C) txs (accounted_deployed balances id)
  exact eq_locked_of_open hopen hacc ▸ hacc

theorem accounted_fresh {txs : List Transaction}
    (hfresh : ((worldAfter C txs (World.deployed balances)).swaps id).initialized = false) :
    Accounted (worldAfter C txs (World.deployed balances)) id .unused ∧
      moves id (worldAfter C txs (World.deployed balances)).logs = [] := by
  obtain ⟨leg, hplay, hacc⟩ := history_play (C := C) txs (accounted_deployed balances id)
  obtain rfl := eq_unused_of_fresh hfresh hacc
  refine ⟨hacc, ?_⟩
  rw [moves_logs, HashTimelocks.nil_of_unused_play hplay]
  rfl

/-- A secret that the chain comes to show is that of a claim in time. -/
theorem claim_of_shown {txs : List Transaction} {w : World} {secret : Bytes32}
    (hunused : Accounted w id .unused) (hnone : moves id w.logs = [])
    (hshown : Shown (worldAfter C txs w) id secret) :
    C.hash secret = ((worldAfter C txs w).swaps id).secretHash ∧
      ∃ t, (t, .claim secret) ∈ history C id txs w ∧
        t < ((worldAfter C txs w).swaps id).timelock.toNat := by
  obtain ⟨leg, hplay, hacc⟩ := history_play (C := C) txs hunused
  have hmem := mem_moves_claim.mpr hshown
  rw [moves_logs, hnone, List.nil_append] at hmem
  obtain ⟨⟨t, m⟩, hclaim, rfl⟩ := List.mem_map.mp hmem
  obtain ⟨terms, rfl⟩ := HashTimelocks.eq_claimed_of_mem hplay hclaim
  obtain ⟨-, -, rfl, -⟩ := hacc
  obtain ⟨hhash, t', hclaim', ht'⟩ := HashTimelocks.claim_mem_of_play hplay (by simp)
  exact ⟨hhash, t', hclaim', WithTop.coe_lt_coe.mp ht'⟩

theorem shown_of_claim {txs : List Transaction} {w : World} {secret : Bytes32} {t : ℕ}
    (h : (t, .claim secret) ∈ history C id txs w) : Shown (worldAfter C txs w) id secret := by
  apply mem_moves_claim.mp
  rw [moves_logs]
  exact List.mem_append_right _ (List.mem_map_of_mem h)

end Chain

section Provider

variable {C C' : Contract} {id : Bytes32} {balances balances' : Address → ℕ}

/-- What the receiver of the first leg can count on once the other leg's secret was shown. -/
inductive Recoverable (C C' : Contract) (w : World × World)
    (rest : List (Transaction ⊕ Transaction)) (id : Bytes32) (s : Swap) (secret : Bytes32) : Prop
  /-- The receiver has been paid. -/
  | paid (solver : Address)
      (hpaid : paid (worldsAfter C C' rest w).1 id = settlement id s s.receiver solver)
  /-- The receiver will be paid on the next claim in time. -/
  | claimable (h : Claimable C (worldsAfter C C' rest w).1 id s secret)
  /-- The secret was on the chain while the receiver could use it, and no one did until it was
  time for the refund. -/
  | late (before after : List (Transaction ⊕ Transaction)) (hsplit : rest = before ++ after)
      (hshown : Shown (worldsAfter C C' before w).2 id secret)
      (hclaimable : Claimable C (worldsAfter C C' before w).1 id s secret)
      (tx : Transaction) (htx : .inl tx ∈ after) (htime : s.timelock.toNat ≤ tx.timestamp)

theorem recoverable_of_shown {seen rest : List (Transaction ⊕ Transaction)} {w : World × World}
    {secret : Bytes32} {late : ℕ → ℕ}
    (hw : w = worldsAfter C C' seen (World.deployed balances, World.deployed balances'))
    (hhash : C'.sha256 = C.sha256) (hopen : (w.1.swaps id).Open)
    (hreceiver : (w.1.swaps id).receiver ≠ C.self)
    (hfresh : (w.2.swaps id).initialized = false)
    (hlock : ((worldsAfter C C' rest w).2.swaps id).secretHash = (w.1.swaps id).secretHash)
    (hstep : InStep late rest)
    (hmargin : ∀ t < ((worldsAfter C C' rest w).2.swaps id).timelock.toNat,
      late t < (w.1.swaps id).timelock.toNat)
    (hshown : Shown (worldsAfter C C' rest w).2 id secret) :
    Recoverable C C' w rest id (w.1.swaps id) secret := by
  have hw₁ : w.1 = worldAfter C (seen.filterMap Sum.getLeft?) (World.deployed balances) :=
    congrArg Prod.fst hw
  have hw₂ : w.2 = worldAfter C' (seen.filterMap Sum.getRight?) (World.deployed balances') :=
    congrArg Prod.snd hw
  have hinit : Accounted w.1 id (.locked (w.1.swaps id).terms) := by
    rw [hw₁] at hopen ⊢
    exact accounted_open hopen
  have hcounter : Accounted w.2 id .unused ∧ moves id w.2.logs = [] := by
    rw [hw₂] at hfresh ⊢
    exact accounted_fresh hfresh
  obtain ⟨hsecret, t, hclaim, ht⟩ := claim_of_shown hcounter.1 hcounter.2 hshown
  have hhash' : C'.hash secret = C.hash secret := congrFun hhash secret.data
  have hdeal : ∀ txs, ((worldAfter C txs w.1).swaps id).deal = (w.1.swaps id).deal :=
    fun txs => deal_worldAfter txs hopen.1
  have hclaimable : ∀ txs terms, Accounted (worldAfter C txs w.1) id (.locked terms) →
      Claimable C (worldAfter C txs w.1) id (w.1.swaps id) secret := by
    intro txs terms hstill
    have hsound : Sound C 0 (worldAfter C txs w.1) := by
      rw [hw₁, ← worldAfter_append]
      exact sound_worldAfter _
    exact claimable_of_open hsound hstill.1 (hdeal txs)
      (hhash'.symm.trans (hsecret.trans hlock)) hreceiver
  have houtcome := LegChain.outcome_of_claim (M := contractChain C id) (N := contractChain C' id)
    (fun _ _ => trivial) hinit hclaim hstep (hmargin t ht)
  cases houtcome with
  | claimed secret' h =>
    rw [LegChain.final_both] at h
    have hend : Accounted (worldAfter C (rest.filterMap Sum.getLeft?) w.1) id
        (.claimed (w.1.swaps id).terms secret') := h
    obtain ⟨-, -, -, solver, hpaid⟩ := hend
    obtain ⟨hreceiver', hamount, -, -⟩ := Swap.of_deal_eq (hdeal (rest.filterMap Sum.getLeft?))
    rw [settlement, hamount, hreceiver'] at hpaid
    exact .paid solver hpaid
  | claimable h =>
    rw [LegChain.final_both] at h
    exact .claimable (hclaimable _ _ h)
  | late before after hsplit hshown hlocked tx htx htime =>
    rw [LegChain.final_both] at hlocked
    obtain ⟨t', hshown⟩ := hshown
    exact .late before after hsplit (shown_of_claim hshown) (hclaimable _ _ hlocked) tx htx htime

/-- Whoever claims the leg that a provider has locked leaves the provider its money: the first leg
is paid to it, or it can still claim it with the secret that was shown, or it could do so while
the secret was shown and let the time for it go by. This holds of every run of both chains in
which the clock of the first one gains no more than one lock time on the other. -/
theorem counter_claim_leaves_init_recoverable (h : Handler) (init c : CommitmentV1)
    (source destination : ChannelId) (clock : ChainClock) (sourceNow destNow : UInt64)
    (hok : h.buildCounterCommitment id init source destination clock = .ok c)
    (hsource : clock.nowChecked source = some sourceNow)
    (hdest : clock.nowChecked destination = some destNow)
    (C C' : Contract) (hhash : C'.sha256 = C.sha256) (balances balances' : Address → ℕ)
    (seen rest : List (Transaction ⊕ Transaction)) (w : World × World)
    (hw : w = worldsAfter C C' seen (World.deployed balances, World.deployed balances'))
    (hopen : (w.1.swaps id).Open) (hinit : Commits init (w.1.swaps id))
    (hreceiver : (w.1.swaps id).receiver ≠ C.self)
    (hfresh : (w.2.swaps id).initialized = false)
    (hcounter : Commits c ((worldsAfter C C' rest w).2.swaps id))
    (hclocks : InStep (fun t => sourceNow.toNat + destination.lockTimeSecs + t - destNow.toNat)
      rest)
    (secret : Bytes32) (hshown : Shown (worldsAfter C C' rest w).2 id secret) :
    Recoverable C C' w rest id (w.1.swaps id) secret := by
  obtain ⟨hsecretHash, hunlock, hlocked⟩ := Handler.counter_of_init hok hsource hdest
  refine recoverable_of_shown hw hhash hopen hreceiver hfresh ?_ hclocks ?_ hshown
  · rw [hcounter.secretHash, hsecretHash, hinit.secretHash]
  · intro t ht
    have hpos : 0 < destination.lockTimeSecs := by
      cases destination <;> decide
    rw [hcounter.unlockTs] at ht
    rw [hinit.unlockTs]
    omega

end Provider

def bridgeHandler : Handler where
  sha256 b := if b = Htlc.sampleSecret then Htlc.sampleSecretHash else default
  pricing := ⟨fun _ => true, fun _ _ _ => false, fun _ _ _ => false, fun _ _ _ => some 2000⟩
  commitBufferSecs := 960
  addressLookupTable := fun
    | .kaspaTn10 => none
    | _ => some "0x2222222222222222222222222222222222222222"

def bridgeInit : CommitmentV1 :=
  ⟨.filled 3, ⟨"0x1111111111111111111111111111111111111111",
    "0x2222222222222222222222222222222222222222", "0x1111111111111111111111111111111111111111"⟩,
    ⟨"2000", 18⟩, Htlc.sampleSecretHash, 5000, 2, 1⟩

def bridgeClock : ChainClock :=
  ⟨fun c => if c = .igraGalleon then some 1000 else some 2000, 2000⟩

def bridgeContract (self : Address) : Contract := ⟨self, bridgeHandler.sha256⟩

def bridgeFirst : Contract := bridgeContract 0x8888888888888888888888888888888888888888

def bridgeSecond : Contract := bridgeContract 0x9999999999999999999999999999999999999999

def bridgeSeen : List (Transaction ⊕ Transaction) :=
  [.inl (plainTx 900 0x1111111111111111111111111111111111111111
    (.newSwap 2000 0x1111111111111111111111111111111111111111
      0x2222222222222222222222222222222222222222 [0x61] Htlc.sampleSecretHash 5000 1 (.filled 3)))]

/-- The provider locks the other leg, and the taker claims it. -/
def bridgeRest : List (Transaction ⊕ Transaction) :=
  [.inr (plainTx 2010 0x2222222222222222222222222222222222222222
    (.newSwap 2000 0x2222222222222222222222222222222222222222
      0x1111111111111111111111111111111111111111 [0x62] Htlc.sampleSecretHash 2900 2 (.filled 3))),
    .inr (plainTx 2100 0x1111111111111111111111111111111111111111
      (.claim (.filled 3) (.filled 7)))]

def bridgeWorlds : World × World :=
  worldsAfter bridgeFirst bridgeSecond bridgeSeen
    (World.deployed fun _ => 1000000, World.deployed fun _ => 1000000)

theorem counter_claim_sample :
    Recoverable bridgeFirst bridgeSecond bridgeWorlds bridgeRest (.filled 3)
      (bridgeWorlds.1.swaps (.filled 3)) (.filled 7) := by
  refine counter_claim_leaves_init_recoverable bridgeHandler bridgeInit _ .igraGalleon
    .ethereumSepolia bridgeClock 1000 2000 rfl rfl rfl bridgeFirst bridgeSecond rfl
    (fun _ => 1000000) (fun _ => 1000000) bridgeSeen bridgeRest bridgeWorlds rfl ?_ ?_ ?_ ?_ ?_ ?_
    (.filled 7) ?_
  · exact ⟨by decide +kernel, by decide +kernel⟩
  · exact ⟨by decide +kernel, by decide +kernel⟩
  · decide +kernel
  · decide +kernel
  · exact ⟨by decide +kernel, by decide +kernel⟩
  · simp [InStep, bridgeRest]
  · exact ⟨⟨.filled 3, .filled 7, 0x1111111111111111111111111111111111111111, 1998, 2⟩,
      by decide +kernel, rfl, rfl⟩

end Stroemnet.Evm
