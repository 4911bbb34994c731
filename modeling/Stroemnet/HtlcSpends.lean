import Stroemnet.KaspaFunding

/-! # Spending an output of a script

The way from a commitment to the transactions that take its outputs from the chain. All outputs
under the address of the script are listed and spent one after the other, each together with the
same output of the node, which pays the fee. -/
namespace Stroemnet.Kaspa
open Script Htlc

/-- The answers to the requests of one call. The fee estimate and the submission are requested
once for every output of the script, in the order of the listing. -/
structure SpendRpc where
  serverNetwork : Option Network
  utxos : Address → Option (List RpcUtxo)
  virtualDaaScore : Option UInt64
  priorityFee : ℕ → Transaction → UInt64 → Except KaspaError UInt64
  submitTransaction : ℕ → Option (Except KaspaError Bytes32)

structure HtlcSpend where
  ours : Address
  htlcScript : Bytes
  senderSpk : ScriptPublicKey
  receiverSpk : ScriptPublicKey
  unlockTsMs : UInt64
  htlcUtxos : List RpcUtxo
  feeUtxo : RpcUtxo
deriving DecidableEq

/-- The script of a commitment, with the scripts of its two parties and its timelock in
milliseconds. -/
def htlcPartsFromCommitment (cfg : Config) (c : CommitmentV1) :
    Except KaspaError (Bytes × ScriptPublicKey × ScriptPublicKey × UInt64) := do
  let sender ← addressTryFrom cfg.codec c.addresses.sender
  let receiver ← addressTryFrom cfg.codec c.addresses.receiver
  let script ← buildHtlc (htlcParams sender receiver c)
  return (script, payToAddressScript sender, payToAddressScript receiver,
    saturatingMul c.unlockTs 1000)

def htlcAddress (network : Network) (hash : Bytes32) : Except KaspaError Address :=
  match extractScriptPubKeyAddress ⟨0, payToScriptHashScript hash⟩ network with
  | .ok a => .ok a
  | .error e => .error (.txScript e)

def prepareHtlcSpend (cfg : Config) (wallet : Wallet) (rpc : SpendRpc) (c : CommitmentV1) :
    Except KaspaError HtlcSpend := do
  let network ← requireAnswer "get_server_info" rpc.serverNetwork
  let ours ← wallet.derive network
  let (htlcScript, senderSpk, receiverSpk, unlockTsMs) ← htlcPartsFromCommitment cfg c
  let address ← htlcAddress network (cfg.blake2b htlcScript)
  let htlcUtxos ← requireAnswer "get_utxos htlc" (rpc.utxos address)
  if htlcUtxos = [] then throw (.htlcUtxoNotFound c.swapId)
  let ourUtxos ← requireAnswer "get_utxos self" (rpc.utxos ours)
  let currentDaa ← requireAnswer "get_block_dag_info" rpc.virtualDaaScore
  let feeUtxo ← okOr .noUtxos (ourUtxos.find? (utxoIsMature wallet.coinbaseMaturity currentDaa))
  return ⟨ours, htlcScript, senderSpk, receiverSpk, unlockTsMs, htlcUtxos, feeUtxo⟩

/-- What sets one kind of spend apart from another. -/
structure SpendParams where
  destSpk : ScriptPublicKey
  lockTime : UInt64
  extraSigBytes : UInt64
  branchSigScript : Bytes

def solverRewardSompi : UInt64 := .ofNat solverReward.toNat

def minRewardOutputSompi : UInt64 := 10000

def checkedAdd (a b : UInt64) : Option UInt64 :=
  if a.toNat + b.toNat < 2 ^ 64 then some (a + b) else none

def checkedSub (a b : UInt64) : Option UInt64 := if b ≤ a then some (a - b) else none

def spendInputs (htlcUtxo feeUtxo : RpcUtxo) : List TransactionInput :=
  [⟨htlcUtxo.outpoint, [], 0⟩, ⟨feeUtxo.outpoint, [], 0⟩]

def spendOutputs (destAmount reward : UInt64) (destSpk ourSpk : ScriptPublicKey) :
    List TransactionOutput :=
  [⟨destAmount, destSpk⟩, ⟨reward, ourSpk⟩]

def spendTx (ctx : HtlcSpend) (params : SpendParams) (u : RpcUtxo) (destAmount reward : UInt64) :
    Transaction :=
  ⟨spendInputs u ctx.feeUtxo,
    spendOutputs destAmount reward params.destSpk (payToAddressScript ctx.ours), params.lockTime⟩

def setSignatureScripts (htlcSig feeSig : Bytes) (tx : Transaction) :
    Except KaspaError Transaction :=
  match tx.inputs with
  | [htlcIn, feeIn] =>
    .ok { tx with inputs :=
      [{ htlcIn with signatureScript := htlcSig }, { feeIn with signatureScript := feeSig }] }
  | _ => .error (.other "htlc spend tx must have exactly 2 inputs")

def buildSpend (wallet : Wallet) (priorityFee : Transaction → UInt64 → Except KaspaError UInt64)
    (ctx : HtlcSpend) (params : SpendParams) (u : RpcUtxo) : Except KaspaError Transaction := do
  let destAmount ← okOr (.insufficientFunds solverRewardSompi u.amount)
    (checkedSub u.amount solverRewardSompi)
  let rewardPre ← okOr (.other "Solver reward + fee UTXO overflow")
    (checkedAdd solverRewardSompi ctx.feeUtxo.amount)
  let fee ← priorityFee (spendTx ctx params u destAmount rewardPre) params.extraSigBytes
  let reward ← okOr (.insufficientFunds fee rewardPre) (checkedSub rewardPre fee)
  if reward < minRewardOutputSompi then throw (.insufficientFunds minRewardOutputSompi reward)
  let tx := spendTx ctx params u destAmount reward
  let feeSig ← wallet.signInput tx [u, ctx.feeUtxo] 1
  setSignatureScripts params.branchSigScript feeSig tx

/-- The outcome for the outputs from a position of the listing on, with the transactions that
were sent for them. -/
def submitSpends (wallet : Wallet) (rpc : SpendRpc) (ctx : HtlcSpend) (params : SpendParams) :
    ℕ → List RpcUtxo → Except KaspaError Unit × List Transaction
  | _, [] => (.ok (), [])
  | i, u :: utxos =>
    match buildSpend wallet (rpc.priorityFee i) ctx params u with
    | .error e => (.error e, [])
    | .ok tx =>
      match rpc.submitTransaction i with
      | none => (.error (.other "submit_transaction: timed out"), [tx])
      | some (.error e) => (.error e, [tx])
      | some (.ok _) =>
        let (outcome, sent) := submitSpends wallet rpc ctx params (i + 1) utxos
        (outcome, tx :: sent)

def submitHtlcSpend (wallet : Wallet) (rpc : SpendRpc) (ctx : HtlcSpend) (params : SpendParams) :
    Except KaspaError Unit × List Transaction :=
  submitSpends wallet rpc ctx params 0 ctx.htlcUtxos

/-- The signature script that chooses a branch and shows the script. -/
def branchSig (choice : List BuilderCall) (htlcScript : Bytes) : Except ScriptBuilderError Bytes :=
  build (choice ++ [.data htlcScript])

def revealChoice (secret : Bytes32) : List BuilderCall := [.data secret.data, .op opTrue]

def refundChoice : List BuilderCall := [.op opFalse]

def revealParams (ctx : HtlcSpend) (branchSigScript : Bytes) : SpendParams :=
  ⟨ctx.receiverSpk, 0, 300, branchSigScript⟩

def refundParams (ctx : HtlcSpend) (branchSigScript : Bytes) : SpendParams :=
  ⟨ctx.senderSpk, ctx.unlockTsMs, 260, branchSigScript⟩

/-- Spends the outputs of a commitment through the branch of a signature script. -/
def submitBranch (cfg : Config) (wallet : Wallet) (rpc : SpendRpc) (c : CommitmentV1)
    (choice : List BuilderCall) (params : HtlcSpend → Bytes → SpendParams) :
    Except KaspaError Unit × List Transaction :=
  match prepareHtlcSpend cfg wallet rpc c with
  | .error e => (.error e, [])
  | .ok ctx =>
    match branchSig choice ctx.htlcScript with
    | .error e => (.error (.scriptBuilder e), [])
    | .ok sig => submitHtlcSpend wallet rpc ctx (params ctx sig)

def submitReveal (cfg : Config) (wallet : Wallet) (rpc : SpendRpc) (c : CommitmentV1)
    (reveal : RevealV1) : Except KaspaError Unit × List Transaction :=
  submitBranch cfg wallet rpc c (revealChoice reveal.secret) revealParams

def submitRefund (cfg : Config) (wallet : Wallet) (rpc : SpendRpc) (c : CommitmentV1) :
    Except KaspaError Unit × List Transaction :=
  submitBranch cfg wallet rpc c refundChoice refundParams

/-- The amounts of the transaction for an output: the destination gets all but the reward, the
reward with the output of the node pays the fee, and at least the minimum is left. -/
structure SpendAmounts (priorityFee : Transaction → UInt64 → Except KaspaError UInt64)
    (ctx : HtlcSpend) (params : SpendParams) (u : RpcUtxo)
    (destAmount rewardPre fee reward : UInt64) : Prop where
  destination : destAmount.toNat + solverRewardSompi.toNat = u.amount.toNat
  available : rewardPre.toNat = solverRewardSompi.toNat + ctx.feeUtxo.amount.toNat
  estimate : priorityFee (spendTx ctx params u destAmount rewardPre) params.extraSigBytes = .ok fee
  remainder : reward.toNat + fee.toNat = rewardPre.toNat
  minimum : minRewardOutputSompi.toNat ≤ reward.toNat

@[simp] theorem toNat_solverRewardSompi : solverRewardSompi.toNat = 10000000 := rfl

@[simp] theorem toNat_minRewardOutputSompi : minRewardOutputSompi.toNat = 10000 := rfl

theorem checkedAdd_eq_some {a b s : UInt64} :
    checkedAdd a b = some s ↔ s.toNat = a.toNat + b.toNat := by
  have hs := s.toNat_lt
  unfold checkedAdd
  split_ifs with h
  · rw [Option.some.injEq, ← UInt64.toNat_inj, UInt64.toNat_add, Nat.mod_eq_of_lt h]
    exact eq_comm
  · constructor
    · intro h'
      cases h'
    · intro h'
      omega

private theorem checkedSub_eq_some {a b d : UInt64} :
    checkedSub a b = some d ↔ d.toNat + b.toNat = a.toNat := by
  unfold checkedSub
  split_ifs with h
  · rw [Option.some.injEq, ← UInt64.toNat_inj, UInt64.toNat_sub_of_le _ _ h]
    have hle := UInt64.le_iff_toNat_le.mp h
    omega
  · have hlt := UInt64.lt_iff_toNat_lt.mp (UInt64.not_le.mp h)
    constructor
    · intro h'
      cases h'
    · intro h'
      omega

section Built

variable {wallet : Wallet} {priorityFee : Transaction → UInt64 → Except KaspaError UInt64}
  {ctx : HtlcSpend} {params : SpendParams} {u : RpcUtxo} {tx : Transaction}

def signedSpendTx (ctx : HtlcSpend) (params : SpendParams) (u : RpcUtxo)
    (destAmount reward : UInt64) (feeSig : Bytes) : Transaction :=
  { spendTx ctx params u destAmount reward with
    inputs := [⟨u.outpoint, params.branchSigScript, 0⟩, ⟨ctx.feeUtxo.outpoint, feeSig, 0⟩] }

theorem buildSpend_eq_ok :
    buildSpend wallet priorityFee ctx params u = .ok tx ↔
      ∃ destAmount rewardPre fee reward feeSig,
        SpendAmounts priorityFee ctx params u destAmount rewardPre fee reward ∧
        wallet.signInput (spendTx ctx params u destAmount reward) [u, ctx.feeUtxo] 1 =
          .ok feeSig ∧
        tx = signedSpendTx ctx params u destAmount reward feeSig := by
  unfold buildSpend
  simp only [bind_eq_ok, guard_eq_ok, okOr_eq_ok, checkedAdd_eq_some, checkedSub_eq_some,
    UInt64.not_lt, UInt64.le_iff_toNat_le]
  constructor
  · rintro ⟨dest, hdest, pre, hpre, fee, hfee, reward, hreward, hmin, sig, hsig, htx⟩
    cases htx
    exact ⟨dest, pre, fee, reward, sig, ⟨hdest, hpre, hfee, hreward, hmin⟩, hsig, rfl⟩
  · rintro ⟨dest, pre, fee, reward, sig, ⟨hdest, hpre, hfee, hreward, hmin⟩, hsig, rfl⟩
    exact ⟨dest, hdest, pre, hpre, fee, hfee, reward, hreward, hmin, sig, hsig, rfl⟩

end Built

/-- An output that can be settled: it is worth the reward, and the reward covers the fee and the
minimum. -/
def Eligible (rpc : SpendRpc) (ctx : HtlcSpend) (params : SpendParams) (i : ℕ) (u : RpcUtxo) :
    Prop :=
  ∃ destAmount rewardPre fee reward,
    SpendAmounts (rpc.priorityFee i) ctx params u destAmount rewardPre fee reward

/-- An output that can be settled, with a transaction that the wallet signs. -/
def Signable (wallet : Wallet) (rpc : SpendRpc) (ctx : HtlcSpend) (params : SpendParams) (i : ℕ)
    (u : RpcUtxo) : Prop :=
  ∃ destAmount rewardPre fee reward feeSig,
    SpendAmounts (rpc.priorityFee i) ctx params u destAmount rewardPre fee reward ∧
      wallet.signInput (spendTx ctx params u destAmount reward) [u, ctx.feeUtxo] 1 = .ok feeSig

def outpoints (tx : Transaction) : List TransactionOutpoint := tx.inputs.map (·.previousOutpoint)

/-- Every eligible output of the listing has a transaction of its own, and no two of the
transactions that are sent share an input. -/
structure SettledIndependently (eligible : ℕ → RpcUtxo → Prop) (utxos : List RpcUtxo)
    (sent : List Transaction) : Prop where
  each : ∃ own : ℕ → ℕ,
    (∀ i u, utxos[i]? = some u → eligible i u →
      ∃ tx, sent[own i]? = some tx ∧ u.outpoint ∈ outpoints tx) ∧
    (∀ i u j v, utxos[i]? = some u → utxos[j]? = some v → eligible i u → eligible j v →
      own i = own j → i = j)
  disjoint : sent.Pairwise fun tx tx' => (outpoints tx).Disjoint (outpoints tx')

section Submitted

variable {wallet : Wallet} {rpc : SpendRpc} {ctx : HtlcSpend} {params : SpendParams} {i : ℕ}
  {u : RpcUtxo} {utxos : List RpcUtxo} {tx : Transaction}

theorem signable_iff_built :
    Signable wallet rpc ctx params i u ↔
      ∃ tx, buildSpend wallet (rpc.priorityFee i) ctx params u = .ok tx := by
  simp only [buildSpend_eq_ok]
  constructor
  · rintro ⟨dest, pre, fee, reward, sig, hamounts, hsig⟩
    exact ⟨_, dest, pre, fee, reward, sig, hamounts, hsig, rfl⟩
  · rintro ⟨_, dest, pre, fee, reward, sig, hamounts, hsig, -⟩
    exact ⟨dest, pre, fee, reward, sig, hamounts, hsig⟩

theorem Signable.eligible (h : Signable wallet rpc ctx params i u) :
    Eligible rpc ctx params i u := by
  obtain ⟨dest, pre, fee, reward, -, hamounts, -⟩ := h
  exact ⟨dest, pre, fee, reward, hamounts⟩

/-- A transaction spends its output of the script and the output that pays the fee. -/
theorem outpoints_buildSpend (h : buildSpend wallet (rpc.priorityFee i) ctx params u = .ok tx) :
    outpoints tx = [u.outpoint, ctx.feeUtxo.outpoint] := by
  obtain ⟨dest, pre, fee, reward, sig, -, -, rfl⟩ := buildSpend_eq_ok.mp h
  rfl

/-- The first output that cannot be settled ends the call. -/
theorem submitSpends_unsignable (h : ¬ Signable wallet rpc ctx params i u) :
    (submitSpends wallet rpc ctx params i (u :: utxos)).2 = [] := by
  cases hbuild : buildSpend wallet (rpc.priorityFee i) ctx params u with
  | error e => simp only [submitSpends, hbuild]
  | ok tx => exact absurd (signable_iff_built.mpr ⟨tx, hbuild⟩) h

/-- An output that is settled is followed by the ones after it, or by none. -/
theorem submitSpends_signable (utxos : List RpcUtxo)
    (h : buildSpend wallet (rpc.priorityFee i) ctx params u = .ok tx) :
    (submitSpends wallet rpc ctx params i (u :: utxos)).2 = [tx] ∨
      (submitSpends wallet rpc ctx params i (u :: utxos)).2 =
        tx :: (submitSpends wallet rpc ctx params (i + 1) utxos).2 := by
  simp only [submitSpends, h]
  cases hsubmit : rpc.submitTransaction i with
  | none => exact .inl rfl
  | some answer =>
    cases answer with
    | error e => exact .inl rfl
    | ok id => exact .inr rfl

/-- All transactions of a call spend the same output of the node. -/
theorem feeUtxo_mem_outpoints (wallet : Wallet) (rpc : SpendRpc) (ctx : HtlcSpend)
    (params : SpendParams) (i : ℕ) (utxos : List RpcUtxo) :
    ∀ tx ∈ (submitSpends wallet rpc ctx params i utxos).2,
      ctx.feeUtxo.outpoint ∈ outpoints tx := by
  induction utxos generalizing i with
  | nil => exact fun _ h => absurd h List.not_mem_nil
  | cons u utxos ih =>
    cases hbuild : buildSpend wallet (rpc.priorityFee i) ctx params u with
    | error e =>
      simp only [submitSpends, hbuild]
      exact fun _ h => absurd h List.not_mem_nil
    | ok tx =>
      have htx : ctx.feeUtxo.outpoint ∈ outpoints tx := by
        rw [outpoints_buildSpend hbuild]
        exact List.mem_cons_of_mem _ (List.mem_singleton_self _)
      rcases submitSpends_signable utxos hbuild with hsent | hsent
      · rw [hsent, List.forall_mem_singleton]
        exact htx
      · rw [hsent, List.forall_mem_cons]
        exact ⟨htx, ih (i + 1)⟩

/-- Without a shared input a call sends one transaction at most. -/
theorem length_le_one_of_disjoint
    (h : (submitSpends wallet rpc ctx params i utxos).2.Pairwise fun tx tx' =>
      (outpoints tx).Disjoint (outpoints tx')) :
    (submitSpends wallet rpc ctx params i utxos).2.length ≤ 1 := by
  have hfee := feeUtxo_mem_outpoints wallet rpc ctx params i utxos
  match hsent : (submitSpends wallet rpc ctx params i utxos).2 with
  | [] => exact Nat.zero_le 1
  | [_] => exact le_refl 1
  | tx :: tx' :: rest =>
    rw [hsent] at h hfee
    have hdisjoint := List.rel_of_pairwise_cons h (List.mem_cons_self ..)
    have hshared := hfee tx (List.mem_cons_self ..)
    have hshared' := hfee tx' (List.mem_cons_of_mem _ (List.mem_cons_self ..))
    exact absurd hshared' (hdisjoint hshared)

/-- Where no output is eligible nothing is sent. -/
theorem submitSpends_ineligible
    (h : ∀ j v, utxos[j]? = some v → ¬ Eligible rpc ctx params (i + j) v) :
    (submitSpends wallet rpc ctx params i utxos).2 = [] := by
  cases utxos with
  | nil => rfl
  | cons u utxos => exact submitSpends_unsignable fun hsign => h 0 u rfl hsign.eligible

/-- One transaction alone settles the listing of whose outputs only the first is eligible. -/
theorem settledIndependently_singleton
    (hbuild : buildSpend wallet (rpc.priorityFee 0) ctx params u = .ok tx)
    (hothers : ∀ i v, utxos[i]? = some v → ¬ Eligible rpc ctx params (i + 1) v) :
    SettledIndependently (Eligible rpc ctx params) (u :: utxos) [tx] := by
  have hfirst : ∀ i v, (u :: utxos)[i]? = some v → Eligible rpc ctx params i v → i = 0 := by
    intro i v hv heligible
    cases i with
    | zero => rfl
    | succ i => exact absurd heligible (hothers i v hv)
  refine ⟨⟨fun _ => 0, ?_, ?_⟩, List.pairwise_singleton _ _⟩
  · intro i v hv heligible
    obtain rfl := hfirst i v hv heligible
    obtain rfl := Option.some.inj hv
    refine ⟨tx, rfl, ?_⟩
    rw [outpoints_buildSpend hbuild]
    exact List.mem_cons_self ..
  · intro i v j w hv hw heligible heligible' _
    rw [hfirst i v hv heligible, hfirst j w hw heligible']

end Submitted

/-- The outputs are settled independently exactly when none of them can be settled, or the first
one can be settled and signed for and no other. -/
theorem spends_independent_iff (wallet : Wallet) (rpc : SpendRpc) (ctx : HtlcSpend)
    (params : SpendParams) :
    SettledIndependently (Eligible rpc ctx params) ctx.htlcUtxos
        (submitHtlcSpend wallet rpc ctx params).2 ↔
      (∀ i u, ctx.htlcUtxos[i]? = some u → ¬ Eligible rpc ctx params i u) ∨
      ((∃ u, ctx.htlcUtxos[0]? = some u ∧ Signable wallet rpc ctx params 0 u) ∧
        ∀ i u, ctx.htlcUtxos[i + 1]? = some u → ¬ Eligible rpc ctx params (i + 1) u) := by
  unfold submitHtlcSpend
  generalize ctx.htlcUtxos = utxos
  constructor
  · rintro ⟨⟨own, heach, hown⟩, hdisjoint⟩
    have hlength := length_le_one_of_disjoint hdisjoint
    -- an eligible output has the only transaction there is
    have hzero : ∀ i u, utxos[i]? = some u → Eligible rpc ctx params i u → own i = 0 := by
      intro i u hu heligible
      obtain ⟨tx, htx, -⟩ := heach i u hu heligible
      have hlt := (List.getElem?_eq_some_iff.mp htx).1
      omega
    by_cases hnone : ∀ i u, utxos[i]? = some u → ¬ Eligible rpc ctx params i u
    · exact .inl hnone
    · simp only [not_forall, not_not] at hnone
      obtain ⟨i, u, hu, heligible⟩ := hnone
      obtain ⟨tx, htx, -⟩ := heach i u hu heligible
      cases utxos with
      | nil => cases hu
      | cons first rest =>
        have hsign : Signable wallet rpc ctx params 0 first := by
          by_contra hunsignable
          rw [submitSpends_unsignable hunsignable] at htx
          cases htx
        refine .inr ⟨⟨first, rfl, hsign⟩, ?_⟩
        intro j v hv heligible'
        have heq := (hzero 0 first rfl hsign.eligible).trans (hzero (j + 1) v hv heligible').symm
        cases hown 0 first (j + 1) v rfl hv hsign.eligible heligible' heq
  · rintro (hnone | ⟨⟨u, hu, hsign⟩, hothers⟩)
    · have hsent : (submitSpends wallet rpc ctx params 0 utxos).2 = [] := by
        apply submitSpends_ineligible
        intro j v hv
        rw [Nat.zero_add]
        exact hnone j v hv
      rw [hsent]
      refine ⟨⟨id, ?_, fun _ _ _ _ _ _ _ _ h => h⟩, List.Pairwise.nil⟩
      intro i u hu heligible
      exact absurd heligible (hnone i u hu)
    · cases utxos with
      | nil => cases hu
      | cons first rest =>
        obtain rfl := Option.some.inj hu
        obtain ⟨tx, hbuild⟩ := signable_iff_built.mp hsign
        have hrest : (submitSpends wallet rpc ctx params (0 + 1) rest).2 = [] := by
          apply submitSpends_ineligible
          intro j v hv
          rw [Nat.zero_add, Nat.add_comm]
          exact hothers j v hv
        have hsent : (submitSpends wallet rpc ctx params 0 (first :: rest)).2 = [tx] := by
          rcases submitSpends_signable rest hbuild with hsent | hsent
          · exact hsent
          · rw [hsent, hrest]
        rw [hsent]
        exact settledIndependently_singleton hbuild hothers

/-- A server that lists the given outputs under the address of the script. -/
def listing (htlcUtxos : List RpcUtxo) : SpendRpc where
  serverNetwork := some .testnet
  utxos a :=
    if a = pubKeyAddress 1 then
      some [⟨⟨.filled 40, 0⟩, 1000000000, payToAddressScript (pubKeyAddress 1), 5, false⟩]
    else some htlcUtxos
  virtualDaaScore := some 1000
  priorityFee _ _ _ := .ok 2000
  submitTransaction _ := some (.ok (.filled 50))

def sampleOutput (id : UInt8) (amount : UInt64) : RpcUtxo :=
  ⟨⟨.filled id, 0⟩, amount, ⟨0, payToScriptHashScript (sampleBlake2b sampleRedeem)⟩, 5, false⟩

/-- Somebody has paid one sompi to the address before the deposit. -/
def smallFirst : SpendRpc := listing [sampleOutput 41 1, sampleOutput 42 100000000]

def smallFirstSpend : HtlcSpend where
  ours := pubKeyAddress 1
  htlcScript := sampleRedeem
  senderSpk := payToAddressScript (pubKeyAddress 1)
  receiverSpk := payToAddressScript (pubKeyAddress 2)
  unlockTsMs := 1000000
  htlcUtxos := [sampleOutput 41 1, sampleOutput 42 100000000]
  feeUtxo := ⟨⟨.filled 40, 0⟩, 1000000000, payToAddressScript (pubKeyAddress 1), 5, false⟩

def smallFirstReveal : SpendParams :=
  revealParams smallFirstSpend
    (serialize [canonicalPush sampleSecret, ⟨opTrue, []⟩, canonicalPush sampleRedeem])

/-- The small output ends the call before the deposit is reached, which stays unclaimed. -/
theorem small_output_blocks_deposit :
    prepareHtlcSpend sampleNode.kaspa sampleWallet smallFirst sampleCommitment =
        .ok smallFirstSpend ∧
      branchSig (revealChoice ⟨sampleSecret, rfl⟩) sampleRedeem =
        .ok smallFirstReveal.branchSigScript ∧
      ¬ SettledIndependently (Eligible smallFirst smallFirstSpend smallFirstReveal)
        smallFirstSpend.htlcUtxos
        (submitHtlcSpend sampleWallet smallFirst smallFirstSpend smallFirstReveal).2 := by
  refine ⟨by decide +kernel, by decide +kernel, ?_⟩
  intro h
  obtain ⟨own, heach, -⟩ := h.each
  have heligible : Eligible smallFirst smallFirstSpend smallFirstReveal 1
      (sampleOutput 42 100000000) :=
    ⟨90000000, 1010000000, 2000, 1009998000, rfl, rfl, rfl, rfl, by decide⟩
  obtain ⟨tx, htx, -⟩ := heach 1 _ rfl heligible
  cases htx

end Stroemnet.Kaspa
