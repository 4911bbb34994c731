import Stroemnet.HtlcSpends

/-! # The own spends under the script engine

The transactions of a reveal and of a refund, judged by the engine that decides about them on
the chain: the signature script, the layout, the amounts and the lock time have to meet every
check of the script at once. -/
namespace Stroemnet.Kaspa
open Script Htlc Numbers

section Signature

variable {script sig : Bytes} {secret : Bytes32}

theorem pushed_canonicalPush {d : Bytes} (h : d.length ≤ maxScriptElementSize) :
    (canonicalPush d).pushed = some (pushedData d) := by
  obtain ⟨hlinear, hinstr⟩ := canonicalPush_linear h
  simp only [Opcode.pushed, hinstr, hlinear, if_true]

private theorem pushedData_bytes32 (d : Bytes32) : pushedData d.data = d.data := by
  have hlength := d.length_data
  rw [pushedData, if_neg]
  intro h
  rw [h] at hlength
  cases hlength

private theorem revealChoice_plain : ∀ c ∈ revealChoice secret, c.Plain := by
  simp [revealChoice, BuilderCall.Plain, lengthWidth, directLength, opTrue]

private theorem refundChoice_plain : ∀ c ∈ refundChoice, c.Plain := by
  simp [refundChoice, BuilderCall.Plain, lengthWidth, directLength, opFalse]

private theorem secret_fits : secret.data.length ≤ maxScriptElementSize := by
  rw [Bytes32.length_data]
  decide

structure Choice (choice : List BuilderCall) (pushes : List Bytes) : Prop where
  plain : ∀ c ∈ choice, c.Plain
  accepted : ∀ c ∈ choice, c.Accepted
  size : (choice.map (5 + ·.size)).sum ≤ 1000
  length : choice.length ≤ 2
  pushed : (opcodes choice).mapM Opcode.pushed = some pushes

theorem Choice.reveal (secret : Bytes32) : Choice (revealChoice secret) [secret.data, [1]] where
  plain := revealChoice_plain
  accepted := by simp [revealChoice, BuilderCall.Accepted, maxScriptElementSize]
  size := by simp [revealChoice, BuilderCall.size]
  length := le_refl 2
  pushed := by
    have htrue : (⟨opTrue, []⟩ : Opcode).pushed = some [1] := by decide
    simp only [opcodes, revealChoice, List.map_cons, List.map_nil, BuilderCall.opcode,
      List.mapM_cons, List.mapM_nil, pushed_canonicalPush secret_fits, htrue, pushedData_bytes32]
    rfl

theorem Choice.refund : Choice refundChoice [[]] where
  plain := refundChoice_plain
  accepted := by simp [refundChoice, BuilderCall.Accepted]
  size := by simp [refundChoice, BuilderCall.size]
  length := one_le_two
  pushed := by decide

variable {choice : List BuilderCall} {pushes : List Bytes}

theorem Choice.plain_append (h : Choice choice pushes) :
    ∀ c ∈ choice ++ [.data script], c.Plain := by
  simp only [List.forall_mem_append, List.forall_mem_singleton]
  exact ⟨h.plain, trivial⟩

/-- A branch can be opened exactly when the script fits in one element. -/
theorem branchSig_eq_ok (h : Choice choice pushes) :
    branchSig choice script = .ok sig ↔ script.length ≤ maxScriptElementSize ∧
      sig = serialize (opcodes (choice ++ [.data script])) := by
  have hbytes := length_serialize_calls_le (choice ++ [.data script])
  have hsize := h.size
  rw [branchSig, build_eq_ok h.plain_append]
  simp only [List.forall_mem_append, List.forall_mem_singleton, BuilderCall.accepted_data]
  constructor
  · rintro ⟨⟨-, hscript⟩, -, hsig⟩
    exact ⟨hscript, hsig⟩
  · rintro ⟨hscript, rfl⟩
    refine ⟨⟨h.accepted, hscript⟩, hbytes.trans ?_, rfl⟩
    simp only [maxScriptElementSize] at hscript
    simp only [List.map_append, List.sum_append, List.map_cons, List.map_nil, List.sum_cons,
      List.sum_nil, BuilderCall.size_data, maxScriptsSize]
    omega

theorem signaturePushes_branchSig (h : Choice choice pushes)
    (hsig : branchSig choice script = .ok sig) (hscript : pushedData script = script) :
    signaturePushes sig = some (pushes ++ [script]) := by
  have hfits := ((branchSig_eq_ok h).mp hsig).1
  have hparse := parseScript_build h.plain_append hsig
  obtain ⟨-, hsize, -⟩ := (build_eq_ok h.plain_append).mp hsig
  have hlength : (List.map BuilderCall.opcode (choice ++ [.data script])).length ≤
      maxStackSize := by
    have hchoice := h.length
    simp only [List.length_map, List.length_append, List.length_singleton, maxStackSize]
    omega
  have hpushed := h.pushed
  simp only [opcodes] at hpushed
  simp only [signaturePushes, hparse]
  rw [if_pos ⟨hsize, hlength⟩]
  simp only [List.map_append, List.map_cons, List.map_nil, List.mapM_append, hpushed,
    List.mapM_cons, List.mapM_nil, BuilderCall.opcode, pushed_canonicalPush hfits, hscript]
  rfl

theorem pushedData_built {p : HtlcParams} (h : createHtlcScript p = .ok script) :
    pushedData script = script := by
  obtain ⟨-, -, rfl⟩ := (build_eq_ok (htlcCalls_plain p)).mp h
  rw [pushedData, if_neg]
  intro hzero
  have hhead := congrArg List.head? hzero
  cases hhead

end Signature

/-- The outputs before a position are settled, and their transactions are confirmed. -/
def Reached (wallet : Wallet) (rpc : SpendRpc) (ctx : HtlcSpend) (params : SpendParams) (i : ℕ)
    (utxos : List RpcUtxo) (k : ℕ) : Prop :=
  ∀ j < k, ∃ u tx id, utxos[j]? = some u ∧
    buildSpend wallet (rpc.priorityFee (i + j)) ctx params u = .ok tx ∧
    rpc.submitTransaction (i + j) = some (.ok id)

section Sent

variable {wallet : Wallet} {rpc : SpendRpc} {ctx : HtlcSpend} {params : SpendParams} {i k : ℕ}
  {u : RpcUtxo} {utxos : List RpcUtxo} {tx : Transaction}

theorem reached_succ : Reached wallet rpc ctx params i (u :: utxos) (k + 1) ↔
    (∃ tx id, buildSpend wallet (rpc.priorityFee i) ctx params u = .ok tx ∧
      rpc.submitTransaction i = some (.ok id)) ∧
      Reached wallet rpc ctx params (i + 1) utxos k := by
  constructor
  · intro h
    obtain ⟨u', tx, id, hu, hbuild, hsubmit⟩ := h 0 (Nat.zero_lt_succ k)
    obtain rfl := Option.some.inj hu
    refine ⟨⟨tx, id, hbuild, hsubmit⟩, ?_⟩
    intro j hj
    rw [Nat.add_assoc, Nat.add_comm 1]
    exact h (j + 1) (Nat.succ_lt_succ hj)
  · rintro ⟨⟨tx, id, hbuild, hsubmit⟩, h⟩ j hj
    cases j with
    | zero => exact ⟨u, tx, id, rfl, hbuild, hsubmit⟩
    | succ j =>
      have hrest := h j (Nat.lt_of_succ_lt_succ hj)
      rw [Nat.add_assoc, Nat.add_comm 1] at hrest
      exact hrest

/-- What a call sends for an output: its transaction, once it is reached. -/
theorem getElem?_submitSpends :
    (submitSpends wallet rpc ctx params i utxos).2[k]? = some tx ↔
      Reached wallet rpc ctx params i utxos k ∧ ∃ u, utxos[k]? = some u ∧
        buildSpend wallet (rpc.priorityFee (i + k)) ctx params u = .ok tx := by
  induction utxos generalizing i k with
  | nil => simp [submitSpends]
  | cons u utxos ih =>
    cases hbuild : buildSpend wallet (rpc.priorityFee i) ctx params u with
    | error e =>
      simp only [submitSpends, hbuild, List.getElem?_nil, reduceCtorEq, false_iff]
      rintro ⟨hreached, u', hu', hbuild'⟩
      cases k with
      | zero =>
        obtain rfl := Option.some.inj hu'
        rw [Nat.add_zero, hbuild] at hbuild'
        cases hbuild'
      | succ k =>
        obtain ⟨⟨_, _, hfirst, -⟩, -⟩ := reached_succ.mp hreached
        rw [hbuild] at hfirst
        cases hfirst
    | ok first =>
      cases k with
      | zero =>
        have hsent : (submitSpends wallet rpc ctx params i (u :: utxos)).2[0]? = some first := by
          rcases submitSpends_signable utxos hbuild with hsent | hsent
          · rw [hsent, List.getElem?_cons_zero]
          · rw [hsent, List.getElem?_cons_zero]
        rw [hsent, Option.some.injEq]
        constructor
        · rintro rfl
          exact ⟨fun j hj => absurd hj (Nat.not_lt_zero j), u, rfl, hbuild⟩
        · rintro ⟨-, u', hu', hbuild'⟩
          obtain rfl := Option.some.inj hu'
          rw [Nat.add_zero, hbuild, Except.ok.injEq] at hbuild'
          exact hbuild'
      | succ k =>
        rw [reached_succ, List.getElem?_cons_succ]
        simp only [submitSpends, hbuild]
        cases hsubmit : rpc.submitTransaction i with
        | none => simp
        | some answer =>
          cases answer with
          | error e => simp
          | ok id =>
            simp only [List.getElem?_cons_succ, ih]
            rw [Nat.add_assoc, Nat.add_comm 1]
            constructor
            · rintro ⟨hreached, hrest⟩
              exact ⟨⟨⟨first, id, rfl, rfl⟩, hreached⟩, hrest⟩
            · rintro ⟨⟨-, hreached⟩, hrest⟩
              exact ⟨hreached, hrest⟩

end Sent

def rpcUtxoToEntry (u : RpcUtxo) : UtxoEntry := ⟨u.amount, u.scriptPublicKey⟩

/-- The first input of a transaction, with the outputs of the script and of the node that it
spends. -/
structure SpendsFirst (ctx : HtlcSpend) (u : RpcUtxo) (tx : Transaction) (spend : Spend) :
    Prop where
  tx_eq : spend.tx.toTransaction = tx
  entries : spend.tx.entries = [rpcUtxoToEntry u, rpcUtxoToEntry ctx.feeUtxo]
  index : (spend.index : ℕ) = 0

def branchTx (wallet : Wallet) (rpc : SpendRpc) (ctx : HtlcSpend) (choice : List BuilderCall)
    (params : HtlcSpend → Bytes → SpendParams) (i : ℕ) (u : RpcUtxo) :
    Except KaspaError Transaction :=
  match branchSig choice ctx.htlcScript with
  | .error e => .error (.scriptBuilder e)
  | .ok sig => buildSpend wallet (rpc.priorityFee i) ctx (params ctx sig) u

/-- The estimate for a spend leaves the minimum of the reward. -/
structure FeeLeavesReward (rpc : SpendRpc) (ctx : HtlcSpend)
    (params : HtlcSpend → Bytes → SpendParams) (i : ℕ) (u : RpcUtxo) (fee : UInt64) : Prop where
  estimate : ∀ sig, rpc.priorityFee i (spendTx ctx (params ctx sig) u
    (u.amount - solverRewardSompi) (solverRewardSompi + ctx.feeUtxo.amount))
      (params ctx sig).extraSigBytes = .ok fee
  leaves : fee.toNat + minRewardOutputSompi.toNat ≤
    solverRewardSompi.toNat + ctx.feeUtxo.amount.toNat

section Verdict

variable {E : Engine} {ctx : HtlcSpend} {params : SpendParams} {u : RpcUtxo} {tx : Transaction}
  {spend : Spend} {destAmount reward : UInt64} {feeSig : Bytes}

theorem SpendsFirst.entry_eq (h : SpendsFirst ctx u tx spend) :
    spend.entry = rpcUtxoToEntry u := by
  have hentry : spend.tx.entries[(spend.index : ℕ)]? = some spend.entry := by
    rw [List.getElem?_eq_getElem (by rw [spend.tx.populated]; exact spend.index.isLt)]
    rfl
  rw [h.entries, h.index] at hentry
  exact (Option.some.inj hentry).symm

/-- The built transaction has a first input to be verified. -/
theorem exists_spendsFirst (ctx : HtlcSpend) (params : SpendParams) (u : RpcUtxo)
    (destAmount reward : UInt64) (feeSig : Bytes) :
    ∃ spend, SpendsFirst ctx u (signedSpendTx ctx params u destAmount reward feeSig) spend ∧
      spend.input = ⟨u.outpoint, params.branchSigScript, 0⟩ :=
  ⟨{ tx :=
        { signedSpendTx ctx params u destAmount reward feeSig with
          entries := [rpcUtxoToEntry u, rpcUtxoToEntry ctx.feeUtxo]
          populated := rfl }
     index := ⟨0, Nat.zero_lt_succ _⟩ }, ⟨rfl, rfl, rfl⟩, rfl⟩

/-- The destination is paid as the script wants it, as long as the engine can read the
amount. -/
theorem paysPayee_iff
    (h : SpendsFirst ctx u (signedSpendTx ctx params u destAmount reward feeSig) spend)
    (hdest : destAmount.toNat + solverRewardSompi.toNat = u.amount.toNat) :
    PaysPayee spend params.destSpk.toBytes ↔ u.amount.toNat < 2 ^ 63 := by
  have hentry : spend.entry.amount = u.amount := congrArg UtxoEntry.amount h.entry_eq
  have houtputs : spend.tx.outputs =
      spendOutputs destAmount reward params.destSpk (payToAddressScript ctx.ours) :=
    congrArg Transaction.outputs h.tx_eq
  have hinputs : spend.tx.inputs.length = 2 := by
    have hinputs := congrArg (List.length ∘ Transaction.inputs) h.tx_eq
    exact hinputs
  rw [toNat_solverRewardSompi] at hdest
  constructor
  · rintro ⟨-, -, _, _, amount, -, -, -, hamount, -⟩
    rw [hentry] at hamount
    exact (toI64_eq_some.mp hamount).1
  · intro hlt
    have hlow : destAmount.toNat < 2 ^ 63 := by omega
    refine ⟨hinputs, by rw [houtputs]; rfl, ⟨destAmount, params.destSpk⟩, destAmount.toNat,
      u.amount.toNat, by rw [houtputs]; rfl, rfl, toI64_eq_some.mpr ⟨hlow, rfl⟩, ?_, ?_⟩
    · rw [hentry]
      exact toI64_eq_some.mpr ⟨hlt, rfl⟩
    · simp only [solverReward]
      omega

theorem noCollision_of_pushes {redeem : Bytes} (pushes : List Bytes)
    (h : signaturePushes spend.input.signatureScript = some (pushes ++ [redeem])) :
    NoCollision E spend redeem := by
  intro l r hl _
  rw [h, Option.some.injEq] at hl
  exact (List.append_inj_right' hl rfl).symm |> List.singleton_injective

end Verdict

/-- A branch builds a transaction for an output and sends it when it is reached; the engine
accepts it through the branch, and what its inputs are worth above its outputs is the fee. -/
structure BranchPasses (E : Engine) (wallet : Wallet) (rpc : SpendRpc) (ctx : HtlcSpend)
    (choice : List BuilderCall) (params : HtlcSpend → Bytes → SpendParams)
    (submitted : Except KaspaError Unit × List Transaction) (i : ℕ) (u : RpcUtxo) (fee : UInt64)
    (branch : Spend → Prop) (tx : Transaction) : Prop where
  built : branchTx wallet rpc ctx choice params i u = .ok tx
  sent : ∀ sig, branchSig choice ctx.htlcScript = .ok sig →
    Reached wallet rpc ctx (params ctx sig) 0 ctx.htlcUtxos i → submitted.2[i]? = some tx
  verified : ∃ spend, SpendsFirst ctx u tx spend ∧ verifyInput E spend = .ok () ∧ branch spend
  balanced : (tx.outputs.map (·.value.toNat)).sum + fee.toNat =
    u.amount.toNat + ctx.feeUtxo.amount.toNat

/-- The script fits in one element, and the amounts in the numbers that are used for them. -/
structure Payable (ctx : HtlcSpend) (u : RpcUtxo) : Prop where
  script : ctx.htlcScript.length ≤ maxScriptElementSize
  amount : u.amount.toNat < 2 ^ 63
  reward : solverRewardSompi.toNat + ctx.feeUtxo.amount.toNat < 2 ^ 64

section Branch

variable {E : Engine} {cfg : Config} {wallet : Wallet} {rpc : SpendRpc} {c : CommitmentV1}
  {ctx : HtlcSpend} {choice : List BuilderCall} {params : HtlcSpend → Bytes → SpendParams}
  {i : ℕ} {u : RpcUtxo} {fee : UInt64} {tx : Transaction}
  {pushes : List Bytes}

theorem branchTx_eq_ok :
    branchTx wallet rpc ctx choice params i u = .ok tx ↔ ∃ sig,
      branchSig choice ctx.htlcScript = .ok sig ∧
        buildSpend wallet (rpc.priorityFee i) ctx (params ctx sig) u = .ok tx := by
  unfold branchTx
  cases branchSig choice ctx.htlcScript with
  | error e => simp
  | ok sig => simp

private theorem spendAmounts_of_fee (sig : Bytes) (hfunded : solverRewardSompi ≤ u.amount)
    (hfee : FeeLeavesReward rpc ctx params i u fee)
    (hreward : solverRewardSompi.toNat + ctx.feeUtxo.amount.toNat < 2 ^ 64) :
    SpendAmounts (rpc.priorityFee i) ctx (params ctx sig) u (u.amount - solverRewardSompi)
      (solverRewardSompi + ctx.feeUtxo.amount) fee
      (solverRewardSompi + ctx.feeUtxo.amount - fee) := by
  have hpre : (solverRewardSompi + ctx.feeUtxo.amount).toNat =
      solverRewardSompi.toNat + ctx.feeUtxo.amount.toNat := by
    rw [UInt64.toNat_add, Nat.mod_eq_of_lt hreward]
  have hleaves := hfee.leaves
  have hle : fee ≤ solverRewardSompi + ctx.feeUtxo.amount := by
    rw [UInt64.le_iff_toNat_le, hpre]
    omega
  have hsub := UInt64.toNat_sub_of_le _ _ hle
  have hamount := UInt64.le_iff_toNat_le.mp hfunded
  refine ⟨?_, hpre, hfee.estimate sig, ?_, ?_⟩
  · rw [UInt64.toNat_sub_of_le _ _ hfunded]
    omega
  · rw [hsub, hpre]
    omega
  · rw [hsub, hpre]
    omega

private theorem balanced_of_amounts {priorityFee : Transaction → UInt64 → Except KaspaError UInt64}
    {params : SpendParams} {destAmount rewardPre reward : UInt64} (feeSig : Bytes)
    (h : SpendAmounts priorityFee ctx params u destAmount rewardPre fee reward) :
    ((signedSpendTx ctx params u destAmount reward feeSig).outputs.map (·.value.toNat)).sum +
      fee.toNat = u.amount.toNat + ctx.feeUtxo.amount.toNat := by
  have hdest := h.destination
  have havailable := h.available
  have hremainder := h.remainder
  simp only [signedSpendTx, spendTx, spendOutputs, List.map_cons, List.map_nil, List.sum_cons,
    List.sum_nil]
  omega

/-- What is built for a position is sent when the position is reached. -/
theorem sent_of_built (hprepare : prepareHtlcSpend cfg wallet rpc c = .ok ctx)
    (hu : ctx.htlcUtxos[i]? = some u) {sig : Bytes}
    (hsig : branchSig choice ctx.htlcScript = .ok sig)
    (hbuild : buildSpend wallet (rpc.priorityFee i) ctx (params ctx sig) u = .ok tx)
    (hreached : Reached wallet rpc ctx (params ctx sig) 0 ctx.htlcUtxos i) :
    (submitBranch cfg wallet rpc c choice params).2[i]? = some tx := by
  simp only [submitBranch, hprepare, hsig, submitHtlcSpend]
  refine getElem?_submitSpends.mpr ⟨hreached, u, hu, ?_⟩
  rw [Nat.zero_add]
  exact hbuild

/-- A branch that the engine follows whenever it is chosen and the payee is paid passes exactly
for payable outputs. -/
theorem branchPasses_iff (branch : Spend → Prop) (hchoice : Choice choice pushes)
    (hprepare : prepareHtlcSpend cfg wallet rpc c = .ok ctx) (hu : ctx.htlcUtxos[i]? = some u)
    (hfunded : solverRewardSompi ≤ u.amount) (hfee : FeeLeavesReward rpc ctx params i u fee)
    (hsign : ∀ tx, ∃ sig, wallet.signInput tx [u, ctx.feeUtxo] 1 = .ok sig)
    (hparams : ∀ sig, (params ctx sig).branchSigScript = sig)
    (hscript : pushedData ctx.htlcScript = ctx.htlcScript)
    (hpasses : ∀ sig destAmount reward feeSig spend,
      SpendsFirst ctx u (signedSpendTx ctx (params ctx sig) u destAmount reward feeSig) spend →
      spend.input = ⟨u.outpoint, sig, 0⟩ → signaturePushes sig = some (pushes ++ [ctx.htlcScript]) →
      PaysPayee spend (params ctx sig).destSpk.toBytes →
        verifyInput E spend = .ok () ∧ branch spend)
    (hpays : ∀ sig spend, branch spend → PaysPayee spend (params ctx sig).destSpk.toBytes) :
    (∃ tx, BranchPasses E wallet rpc ctx choice params
      (submitBranch cfg wallet rpc c choice params) i u fee branch tx) ↔ Payable ctx u := by
  constructor
  · rintro ⟨tx, h⟩
    obtain ⟨sig, hsig, hbuild⟩ := branchTx_eq_ok.mp h.built
    obtain ⟨dest, pre, _, reward, feeSig, hamounts, -, rfl⟩ := buildSpend_eq_ok.mp hbuild
    obtain ⟨spend, hspend, -, hbranch⟩ := h.verified
    refine ⟨((branchSig_eq_ok hchoice).mp hsig).1, ?_, ?_⟩
    · exact (paysPayee_iff hspend hamounts.destination).mp (hpays sig spend hbranch)
    · rw [← hamounts.available]
      exact pre.toNat_lt
  · intro h
    have hsig := (branchSig_eq_ok hchoice).mpr ⟨h.script, rfl⟩
    generalize serialize (opcodes (choice ++ [.data ctx.htlcScript])) = sig at hsig
    have hamounts := spendAmounts_of_fee sig hfunded hfee h.reward
    obtain ⟨feeSig, hfeeSig⟩ := hsign (spendTx ctx (params ctx sig) u
      (u.amount - solverRewardSompi) (solverRewardSompi + ctx.feeUtxo.amount - fee))
    have hbuild := buildSpend_eq_ok.mpr ⟨_, _, _, _, feeSig, hamounts, hfeeSig, rfl⟩
    obtain ⟨spend, hspend, hinput⟩ := exists_spendsFirst ctx (params ctx sig) u
      (u.amount - solverRewardSompi) (solverRewardSompi + ctx.feeUtxo.amount - fee) feeSig
    rw [hparams] at hinput
    have hpaid := (paysPayee_iff hspend hamounts.destination).mpr h.amount
    have hpushes := signaturePushes_branchSig hchoice hsig hscript
    refine ⟨_, branchTx_eq_ok.mpr ⟨sig, hsig, hbuild⟩, ?_, ⟨spend, hspend, ?_⟩,
      balanced_of_amounts feeSig hamounts⟩
    · intro sig' hsig' hreached
      rw [hsig, Except.ok.injEq] at hsig'
      subst hsig'
      exact sent_of_built hprepare hu hsig hbuild hreached
    · exact hpasses sig _ _ _ spend hspend hinput hpushes hpaid

end Branch

/-- A transaction that a block may contain: its lock time is zero or has passed, as a score or as
a time, or all of its inputs are final. -/
def IsFinal (tx : Transaction) (daaScore pastMedianTime : UInt64) : Prop :=
  tx.lockTime = 0 ∨
    (if tx.lockTime.toNat < lockTimeThreshold then tx.lockTime < daaScore
      else tx.lockTime < pastMedianTime) ∨
    ∀ input ∈ tx.inputs, input.sequence.toNat = 2 ^ 64 - 1

/-- The reveal passes through the claim branch and the refund through the refund branch; and
once the guard of a settlement is met, the lock time of the refund has passed. -/
structure OwnSpendsPass (E : Engine) (cfg : Config) (wallet : Wallet) (rpc : SpendRpc)
    (c : CommitmentV1) (p : HtlcParams) (ctx : HtlcSpend) (secret : Bytes32) (i : ℕ) (u : RpcUtxo)
    (revealFee refundFee : UInt64) : Prop where
  reveal : ∃ tx, BranchPasses E wallet rpc ctx (revealChoice secret) revealParams
    (submitReveal cfg wallet rpc c ⟨c.swapId, secret⟩) i u revealFee
    (ClaimSpend E · p ctx.htlcScript secret.data) tx
  refund : ∃ tx, BranchPasses E wallet rpc ctx refundChoice refundParams
      (submitRefund cfg wallet rpc c) i u refundFee (RefundSpend · p ctx.htlcScript) tx ∧
    ∀ daaScore pastMedianTime, ¬ pastMedianTime ≤ saturatingMul c.unlockTs 1000 →
      lockTimeThreshold ≤ c.unlockTs.toNat * 1000 → IsFinal tx daaScore pastMedianTime

section Both

variable {E : Engine} {cfg : Config} {wallet : Wallet} {rpc : SpendRpc} {c : CommitmentV1}
  {ctx : HtlcSpend} {sender receiver : Address} {secret : Bytes32} {i : ℕ} {u : RpcUtxo}
  {tx : Transaction} {spend : Spend}

structure Prepared (c : CommitmentV1) (sender receiver : Address) (ctx : HtlcSpend) : Prop where
  built : createHtlcScript (htlcParams sender receiver c) = .ok ctx.htlcScript
  senderSpk : ctx.senderSpk = payToAddressScript sender
  receiverSpk : ctx.receiverSpk = payToAddressScript receiver
  unlockTsMs : ctx.unlockTsMs = saturatingMul c.unlockTs 1000

private theorem prepared_of_prepareHtlcSpend (h : prepareHtlcSpend cfg wallet rpc c = .ok ctx)
    (hsender : cfg.codec.tryFrom c.addresses.sender = .ok sender)
    (hreceiver : cfg.codec.tryFrom c.addresses.receiver = .ok receiver) :
    Prepared c sender receiver ctx := by
  unfold prepareHtlcSpend at h
  obtain ⟨network, -, h⟩ := bind_eq_ok.mp h
  obtain ⟨ours, -, h⟩ := bind_eq_ok.mp h
  obtain ⟨⟨script, senderSpk, receiverSpk, unlockTsMs⟩, hparts, h⟩ := bind_eq_ok.mp h
  simp only [bind_eq_ok, guard_eq_ok] at h
  obtain ⟨address, -, utxos, -, -, ours', -, daa, -, feeUtxo, -, h⟩ := h
  cases h
  unfold htlcPartsFromCommitment at hparts
  obtain ⟨sender', hsender', hparts⟩ := bind_eq_ok.mp hparts
  obtain ⟨receiver', hreceiver', hparts⟩ := bind_eq_ok.mp hparts
  obtain ⟨script', hscript, hparts⟩ := bind_eq_ok.mp hparts
  rw [addressTryFrom_eq_ok, hsender, Except.ok.injEq] at hsender'
  rw [addressTryFrom_eq_ok, hreceiver, Except.ok.injEq] at hreceiver'
  subst hsender' hreceiver'
  cases hparts
  refine ⟨?_, rfl, rfl, rfl⟩
  unfold buildHtlc at hscript
  split at hscript
  · rename_i built hbuilt
    cases hscript
    exact hbuilt
  · cases hscript

theorem toNat_saturatingMul_thousand (h : c.unlockTs.toNat * 1000 < 2 ^ 63) :
    (saturatingMul c.unlockTs 1000).toNat = c.unlockTs.toNat * 1000 := by
  have hthousand : (1000 : UInt64).toNat = 1000 := rfl
  rw [saturatingMul, hthousand, UInt64.toNat_ofNat']
  omega

/-- The engine follows the claim branch of a reveal that pays the receiver. -/
theorem claim_passes (hprepared : Prepared c sender receiver ctx)
    (hlocked : LockedBy E spend ctx.htlcScript)
    (hpushes : signaturePushes spend.input.signatureScript =
      some [secret.data, [1], ctx.htlcScript])
    (hsecret : E.sha256 secret.data = c.secretHash)
    (hpays : PaysPayee spend ctx.receiverSpk.toBytes) :
    verifyInput E spend = .ok () ∧
      ClaimSpend E spend (htlcParams sender receiver c) ctx.htlcScript secret.data := by
  have hclaim : ClaimSpend E spend (htlcParams sender receiver c) ctx.htlcScript secret.data := by
    refine ⟨hpushes, congrArg Bytes32.data hsecret, ?_⟩
    rw [hprepared.receiverSpk] at hpays
    exact hpays
  have hcollision : NoCollision E spend ctx.htlcScript :=
    noCollision_of_pushes [secret.data, [1]] hpushes
  exact ⟨(verifyInput_htlc hprepared.built hlocked hcollision).mpr (.inl ⟨_, hclaim⟩), hclaim⟩

/-- The engine follows the refund branch of a refund that pays the sender and whose lock time is
the timelock. -/
theorem refund_passes (hprepared : Prepared c sender receiver ctx)
    (htimelock : c.unlockTs.toNat * 1000 < 2 ^ 63) (hlocked : LockedBy E spend ctx.htlcScript)
    (hpushes : signaturePushes spend.input.signatureScript = some [[], ctx.htlcScript])
    (hlockTime : spend.tx.lockTime = ctx.unlockTsMs) (hsequence : spend.input.sequence = 0)
    (hpays : PaysPayee spend ctx.senderSpk.toBytes) :
    verifyInput E spend = .ok () ∧
      RefundSpend spend (htlcParams sender receiver c) ctx.htlcScript := by
  have hunlock := hlockTime.trans hprepared.unlockTsMs
  have hrefund : RefundSpend spend (htlcParams sender receiver c) ctx.htlcScript := by
    refine ⟨hpushes, (lockTimeReached_timelock ?_).mpr ?_, ?_⟩
    · rw [htlcParams, toNat_saturatingMul_thousand htimelock]
      exact htimelock
    · rw [hunlock, hsequence]
      exact ⟨Iff.rfl, le_refl _, by decide⟩
    · rw [hprepared.senderSpk] at hpays
      exact hpays
  have hcollision : NoCollision E spend ctx.htlcScript :=
    noCollision_of_pushes [[]] hpushes
  exact ⟨(verifyInput_htlc hprepared.built hlocked hcollision).mpr (.inr hrefund), hrefund⟩

private theorem isFinal_of_guard {daaScore pastMedianTime : UInt64}
    (htimelock : c.unlockTs.toNat * 1000 < 2 ^ 63)
    (hlockTime : tx.lockTime = saturatingMul c.unlockTs 1000)
    (hguard : ¬ pastMedianTime ≤ saturatingMul c.unlockTs 1000)
    (hrange : lockTimeThreshold ≤ c.unlockTs.toNat * 1000) :
    IsFinal tx daaScore pastMedianTime := by
  refine .inr (.inl ?_)
  rw [if_neg, hlockTime]
  · exact UInt64.not_le.mp hguard
  · rw [hlockTime, toNat_saturatingMul_thousand htimelock]
    omega

end Both

/-- The own spends of an output pass exactly when the script fits in one element and the amounts
in their numbers. -/
theorem own_spends_pass_iff (E : Engine) (cfg : Config) (wallet : Wallet) (rpc : SpendRpc)
    (c : CommitmentV1) (ctx : HtlcSpend) (sender receiver : Address) (secret : Bytes32) (i : ℕ)
    (u : RpcUtxo) (revealFee refundFee : UInt64)
    (hsender : cfg.codec.tryFrom c.addresses.sender = .ok sender)
    (hreceiver : cfg.codec.tryFrom c.addresses.receiver = .ok receiver)
    (htimelock : c.unlockTs.toNat * 1000 < 2 ^ 63)
    (hprepare : prepareHtlcSpend cfg wallet rpc c = .ok ctx) (hu : ctx.htlcUtxos[i]? = some u)
    (hfunded : solverRewardSompi ≤ u.amount)
    (hlocked : u.scriptPublicKey = ⟨0, payToScriptHashScript (E.blake2b ctx.htlcScript)⟩)
    (hsecret : E.sha256 secret.data = c.secretHash)
    (hreveal : FeeLeavesReward rpc ctx revealParams i u revealFee)
    (hrefund : FeeLeavesReward rpc ctx refundParams i u refundFee)
    (hsign : ∀ tx, ∃ sig, wallet.signInput tx [u, ctx.feeUtxo] 1 = .ok sig) :
    OwnSpendsPass E cfg wallet rpc c (htlcParams sender receiver c) ctx secret i u revealFee
        refundFee ↔
      Payable ctx u := by
  have hprepared := prepared_of_prepareHtlcSpend hprepare hsender hreceiver
  have hscript := pushedData_built hprepared.built
  have hlockedBy : ∀ {tx spend}, SpendsFirst ctx u tx spend → LockedBy E spend ctx.htlcScript := by
    intro tx spend h
    rw [LockedBy, h.entry_eq]
    exact hlocked
  have hclaims := branchPasses_iff (E := E) (c := c)
    (ClaimSpend E · (htlcParams sender receiver c) ctx.htlcScript secret.data)
    (Choice.reveal secret) hprepare hu hfunded hreveal hsign (fun _ => rfl) hscript
    (fun sig _ _ _ spend hspend hinput hpushes hpays =>
      claim_passes hprepared (hlockedBy hspend) (by rw [hinput]; exact hpushes) hsecret hpays)
    (fun _ spend hbranch => by
      have hpays := hbranch.pays
      rwa [htlcParams, spkToVec, ← hprepared.receiverSpk] at hpays)
  have hrefunds := branchPasses_iff (E := E) (c := c)
    (RefundSpend · (htlcParams sender receiver c) ctx.htlcScript)
    Choice.refund hprepare hu hfunded hrefund hsign (fun _ => rfl) hscript
    (fun sig _ _ _ spend hspend hinput hpushes hpays =>
      refund_passes hprepared htimelock (hlockedBy hspend) (by rw [hinput]; exact hpushes)
        (congrArg Transaction.lockTime hspend.tx_eq) (by rw [hinput]) hpays)
    (fun _ spend hbranch => by
      have hpays := hbranch.pays
      rwa [htlcParams, spkToVec, ← hprepared.senderSpk] at hpays)
  constructor
  · intro h
    exact hclaims.mp h.reveal
  · intro h
    obtain ⟨tx, hpasses⟩ := hrefunds.mpr h
    refine ⟨hclaims.mpr h, tx, hpasses, ?_⟩
    intro daaScore pastMedianTime hguard hrange
    refine isFinal_of_guard htimelock ?_ hguard hrange
    obtain ⟨sig, -, hbuild⟩ := branchTx_eq_ok.mp hpasses.built
    obtain ⟨_, _, _, _, _, -, -, rfl⟩ := buildSpend_eq_ok.mp hbuild
    exact hprepared.unlockTsMs

def singleSpend : HtlcSpend := { smallFirstSpend with htlcUtxos := [sampleOutput 42 100000000] }

theorem own_spends_pass_sample :
    OwnSpendsPass sampleEngine sampleNode.kaspa sampleWallet (listing [sampleOutput 42 100000000])
      sampleCommitment (htlcParams (pubKeyAddress 1) (pubKeyAddress 2) sampleCommitment) singleSpend
      ⟨sampleSecret, rfl⟩ 0 (sampleOutput 42 100000000) 2000 2000 := by
  have hfacts : sampleNode.kaspa.codec.tryFrom sampleCommitment.addresses.sender =
        .ok (pubKeyAddress 1) ∧
      sampleNode.kaspa.codec.tryFrom sampleCommitment.addresses.receiver =
        .ok (pubKeyAddress 2) ∧
      prepareHtlcSpend sampleNode.kaspa sampleWallet (listing [sampleOutput 42 100000000])
        sampleCommitment = .ok singleSpend ∧
      sampleEngine.sha256 sampleSecret = sampleCommitment.secretHash ∧
      sampleBlake2b sampleRedeem = sampleEngine.blake2b sampleRedeem ∧
      sampleRedeem.length ≤ maxScriptElementSize := by
    decide +kernel
  obtain ⟨hsender, hreceiver, hprepare, hsecret, hdigest, hfits⟩ := hfacts
  refine (own_spends_pass_iff _ _ _ _ _ _ _ _ _ _ _ _ _ hsender hreceiver (by decide) hprepare rfl
    (by decide) ?_ hsecret ⟨fun _ => rfl, by decide⟩ ⟨fun _ => rfl, by decide⟩
    (fun _ => ⟨_, rfl⟩)).mpr ⟨hfits, by decide, by decide⟩
  exact congrArg (fun d => (⟨0, payToScriptHashScript d⟩ : ScriptPublicKey)) hdigest

/-- The sample swap with a destination of four hundred characters. -/
def longCommitment : CommitmentV1 :=
  { sampleCommitment with addresses :=
    { sampleCommitment.addresses with
      senderDestination := String.ofList (List.replicate 400 'a') } }

def longRedeem : Bytes :=
  serialize (opcodes (htlcCalls
    { sampleParams with senderReceiverAddress := List.replicate 400 97 }))

def longRedeemHash : Bytes32 :=
  ⟨[69, 49, 32, 179, 21, 25, 85, 235, 228, 19, 40, 239, 149, 177, 238, 16, 151, 72, 14, 252, 115,
    249, 95, 6, 180, 99, 111, 55, 189, 142, 34, 133], rfl⟩

def longBlake2b (b : Bytes) : Bytes32 := if b = longRedeem then longRedeemHash else sampleBlake2b b

def longConfig : Config := { sampleNode.kaspa with blake2b := longBlake2b }

def longEngine : Engine := { sampleEngine with blake2b := longBlake2b }

def longOutput : RpcUtxo :=
  ⟨⟨.filled 43, 0⟩, 100000000, ⟨0, payToScriptHashScript longRedeemHash⟩, 5, false⟩

def longSpend : HtlcSpend :=
  { smallFirstSpend with htlcScript := longRedeem, htlcUtxos := [longOutput] }

/-- The script of the long destination is built and funded, and neither branch can be opened. -/
theorem long_destination_unspendable :
    (longConfig.codec.tryFrom longCommitment.addresses.sender = .ok (pubKeyAddress 1) ∧
      longConfig.codec.tryFrom longCommitment.addresses.receiver = .ok (pubKeyAddress 2) ∧
      longCommitment.unlockTs.toNat * 1000 < 2 ^ 63 ∧
      prepareHtlcSpend longConfig sampleWallet (listing [longOutput]) longCommitment =
        .ok longSpend ∧
      solverRewardSompi ≤ longOutput.amount ∧
      longOutput.scriptPublicKey =
        ⟨0, payToScriptHashScript (longEngine.blake2b longSpend.htlcScript)⟩ ∧
      longEngine.sha256 sampleSecret = longCommitment.secretHash) ∧
    FeeLeavesReward (listing [longOutput]) longSpend revealParams 0 longOutput 2000 ∧
    FeeLeavesReward (listing [longOutput]) longSpend refundParams 0 longOutput 2000 ∧
    ¬ OwnSpendsPass longEngine longConfig sampleWallet (listing [longOutput]) longCommitment
      (htlcParams (pubKeyAddress 1) (pubKeyAddress 2) longCommitment) longSpend
      ⟨sampleSecret, rfl⟩ 0 longOutput 2000 2000 := by
  refine ⟨by decide +kernel, ⟨fun _ => rfl, by decide⟩, ⟨fun _ => rfl, by decide⟩, ?_⟩
  intro h
  obtain ⟨tx, hpasses⟩ := h.reveal
  obtain ⟨sig, hsig, -⟩ := branchTx_eq_ok.mp hpasses.built
  have hfits := ((branchSig_eq_ok (Choice.reveal _)).mp hsig).1
  have hlong : ¬ longRedeem.length ≤ maxScriptElementSize := by decide +kernel
  exact hlong hfits

end Stroemnet.Kaspa
