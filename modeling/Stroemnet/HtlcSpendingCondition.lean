import Stroemnet.HtlcScript
import Stroemnet.ScriptHashSpends

/-! # What spends a hash time-locked output

The complete spending condition of the redeem script under the engine: the script is executed
piece by piece on an arbitrary stack, and only the two intended signature scripts survive. -/
namespace Stroemnet.Htlc
open Script Numbers

variable {E : Engine} {c : Spend} {p : HtlcParams} {st st' : List Bytes}

/-- The engine's conversion of an amount to a signed number. -/
def toI64 (n : UInt64) : Option ℤ := if n.toNat < 2 ^ 63 then some n.toNat else none

/-- The first output goes to the payee and, as signed numbers, is worth no less than this
input after the reward, in a transaction of two inputs and two outputs. -/
structure PaysPayee (c : Spend) (payeeSpk : Bytes) : Prop where
  inputs : c.tx.inputs.length = 2
  outputs : c.tx.outputs.length = 2
  paid : ∃ out o i, c.tx.outputs[0]? = some out ∧ out.scriptPublicKey.toBytes = payeeSpk ∧
    toI64 out.value = some o ∧ toI64 c.entry.amount = some i ∧ i - solverReward ≤ o

def PayoutVerdict (c : Spend) (payeeSpk : Bytes) (st st' : List Bytes) : Prop :=
  c.tx.inputs.length = 2 ∧ c.tx.outputs.length = 2 ∧ ∃ out o i, c.tx.outputs[0]? = some out ∧
    out.scriptPublicKey.toBytes = payeeSpk ∧ toI64 out.value = some o ∧
    toI64 c.entry.amount = some i ∧ st' = ofBool (i - solverReward ≤ o) :: st

theorem toI64_eq_some {n : UInt64} {k : ℤ} :
    toI64 n = some k ↔ n.toNat < 2 ^ 63 ∧ k = n.toNat := by
  unfold toI64
  split_ifs with h
  · simp only [Option.some.injEq, h, true_and, eq_comm]
  · simp only [h, false_and]

private theorem toI64_bounds {n : UInt64} {k : ℤ} (h : toI64 n = some k) : 0 ≤ k ∧ k < 2 ^ 63 := by
  obtain ⟨hlt, rfl⟩ := toI64_eq_some.mp h
  omega

private theorem pushNumber_amount {n : UInt64} :
    pushNumber n.toNat st = .ok st' ↔ ∃ k, toI64 n = some k ∧ st' = serializeI64 k :: st := by
  simp only [pushNumber_eq_ok, Int.natAbs_natCast, toI64_eq_some]
  constructor
  · rintro ⟨hlt, rfl⟩
    exact ⟨_, ⟨hlt, rfl⟩, rfl⟩
  · rintro ⟨-, ⟨hlt, rfl⟩, rfl⟩
    exact ⟨hlt, rfl⟩

private theorem effect_txOutputSpk :
    effect E c .txOutputSpk ([] :: st) = .ok st' ↔
      ∃ out, c.tx.outputs[0]? = some out ∧ st' = out.scriptPublicKey.toBytes :: st := by
  have hindex : index [] = .ok 0 := rfl
  simp only [effect, hindex, bind, Except.bind, le_refl, ↓reduceIte, Int.toNat_zero]
  cases c.tx.outputs[0]? with
  | none => simp
  | some out => simp [eq_comm]

private theorem effect_txOutputAmount :
    effect E c .txOutputAmount ([] :: st) = .ok st' ↔
      ∃ out o, c.tx.outputs[0]? = some out ∧ toI64 out.value = some o ∧
        st' = serializeI64 o :: st := by
  have hindex : index [] = .ok 0 := rfl
  simp only [effect, hindex, bind, Except.bind, le_refl, ↓reduceIte, Int.toNat_zero]
  cases c.tx.outputs[0]? with
  | none => simp
  | some out => simp [pushNumber_amount]

private theorem effect_txInputAmount (h : c.tx.inputs.length = 2) :
    effect E c .txInputAmount (serializeI64 c.index :: st) = .ok st' ↔
      ∃ i, toI64 c.entry.amount = some i ∧ st' = serializeI64 i :: st := by
  have hlt : (c.index : ℕ) < 2 := by
    have := c.index.isLt
    omega
  have hindex : index (serializeI64 (c.index : ℕ)) = .ok ((c.index : ℕ) : ℤ) :=
    index_serializeI64 (by simp only [Int.natAbs_natCast]; omega)
  have hentry : c.tx.entries[(c.index : ℕ)]? = some c.entry := by
    rw [List.getElem?_eq_getElem (by rw [c.tx.populated]; exact c.index.isLt)]
    rfl
  simp only [effect, hindex, bind, Except.bind, Int.natCast_nonneg, ↓reduceIte, Int.toNat_natCast,
    hentry, pushNumber_amount]

private theorem effect_difference {i o : ℤ} (hi : 0 ≤ i ∧ i < 2 ^ 63) (ho : 0 ≤ o ∧ o < 2 ^ 63)
    {mid : List Bytes} :
    (effect E c .sub (serializeI64 solverReward :: serializeI64 i :: serializeI64 o :: st) =
        .ok mid ∧ effect E c .greaterThanOrEqual mid = .ok st') ↔
      mid = serializeI64 (i - solverReward) :: serializeI64 o :: st ∧
        st' = ofBool (i - solverReward ≤ o) :: st := by
  have hr : (solverReward).natAbs < 2 ^ 63 := by decide
  have hd : (i - solverReward).natAbs < 2 ^ 63 := by
    simp only [solverReward]
    omega
  have hsub : effect E c .sub (serializeI64 solverReward :: serializeI64 i ::
      serializeI64 o :: st) = .ok (serializeI64 (i - solverReward) :: serializeI64 o :: st) := by
    simp only [effect, number_serializeI64 hr, number_serializeI64 (n := i) (by omega), bind,
      Except.bind]
    exact pushNumber_eq_ok.mpr ⟨hd, rfl⟩
  have hge : effect E c .greaterThanOrEqual (serializeI64 (i - solverReward) ::
      serializeI64 o :: st) = .ok (ofBool (i - solverReward ≤ o) :: st) := by
    simp only [effect, number_serializeI64 hd, number_serializeI64 (n := o) (by omega), bind,
      Except.bind]
  rw [hsub, Except.ok.injEq]
  constructor
  · rintro ⟨rfl, h⟩
    rw [hge, Except.ok.injEq] at h
    exact ⟨rfl, h.symm⟩
  · rintro ⟨rfl, rfl⟩
    exact ⟨rfl, hge⟩

private theorem runLine_amountCheck {o₁ o₂ o₃ o₄ o₅ o₆ o₇ : Opcode}
    (hinputs : c.tx.inputs.length = 2) (h₁ : o₁.instr = .push [])
    (h₂ : o₂.instr = .data .txOutputAmount) (h₃ : o₃.instr = .data .txInputIndex)
    (h₄ : o₄.instr = .data .txInputAmount) (h₅ : o₅.instr = .push (serializeI64 solverReward))
    (h₆ : o₆.instr = .data .sub) (h₇ : o₇.instr = .data .greaterThanOrEqual) :
    runLine E c [o₁, o₂, o₃, o₄, o₅, o₆, o₇] st = .ok st' ↔
      ∃ out o i, c.tx.outputs[0]? = some out ∧ toI64 out.value = some o ∧
        toI64 c.entry.amount = some i ∧ st' = ofBool (i - solverReward ≤ o) :: st := by
  have hindex : ∀ st st', effect E c .txInputIndex st = .ok st' ↔
      st' = serializeI64 c.index :: st := by
    intro st st'
    have hlt := c.index.isLt
    have hn : ((c.index : ℕ) : ℤ).natAbs < 2 ^ 63 := by
      simp only [Int.natAbs_natCast]
      omega
    simp only [effect, pushNumber_eq_ok, hn, true_and]
  simp only [runLine_push h₁, runLine_data h₂, runLine_data h₃, runLine_data h₄,
    runLine_push h₅, runLine_data h₆, runLine_data h₇, runLine_nil, effect_txOutputAmount, hindex]
  constructor
  · rintro ⟨_, ⟨out, o, hout, ho, rfl⟩, _, rfl, _, hamount, mid, hsub, _, hge, rfl⟩
    obtain ⟨i, hi, rfl⟩ := (effect_txInputAmount hinputs).mp hamount
    obtain ⟨-, rfl⟩ := (effect_difference (toI64_bounds hi) (toI64_bounds ho)).mp ⟨hsub, hge⟩
    exact ⟨out, o, i, hout, ho, hi, rfl⟩
  · rintro ⟨out, o, i, hout, ho, hi, rfl⟩
    obtain ⟨hsub, hge⟩ := (effect_difference (E := E) (c := c) (toI64_bounds hi)
      (toI64_bounds ho)).mpr ⟨rfl, rfl⟩
    exact ⟨_, ⟨out, o, hout, ho, rfl⟩, _, rfl, _, (effect_txInputAmount hinputs).mpr ⟨i, hi, rfl⟩,
      _, hsub, _, hge, rfl⟩

private theorem toBytes_ne_short (k : ScriptPublicKey) : k.toBytes ≠ [] ∧ k.toBytes ≠ [0] := by
  have hlen : 2 ≤ k.toBytes.length := by simp [ScriptPublicKey.toBytes]
  constructor
  · intro h
    simp [h] at hlen
  · intro h
    simp [h] at hlen

/-- Pushing the payee's script and comparing is a comparison of the bytes themselves. -/
private theorem pushedData_eq_toBytes {d : Bytes} {k : ScriptPublicKey} :
    pushedData d = k.toBytes ↔ k.toBytes = d := by
  obtain ⟨hnil, hzero⟩ := toBytes_ne_short k
  unfold pushedData
  split_ifs with h
  · subst h
    exact ⟨fun h => absurd h.symm hnil, fun h => absurd h hzero⟩
  · exact eq_comm

theorem runLine_payoutChecks {payeeSpk : Bytes} (h : payeeSpk.length ≤ maxScriptElementSize) :
    runLine E c (opcodes (payoutChecks payeeSpk)) st = .ok st' ↔
      PayoutVerdict c payeeSpk st st' := by
  have hcount : ∀ {v₁ : UInt8} {i : DataInstr} {n : ℕ} {ops : List Opcode},
      Opcode.instr ⟨v₁, []⟩ = .data i → (∀ st, effect E c i st = pushNumber n st) →
      (runLine E c ((⟨v₁, []⟩ : Opcode) :: numberPush 2 :: ⟨opNumEqualVerify, []⟩ :: ops) st =
        .ok st' ↔ n = 2 ∧ runLine E c ops st = .ok st') := fun h₁ hi =>
    runLine_countCheck h₁ hi (numberPush_linear (by decide)).2 (by norm_num) rfl
  simp only [opcodes, payoutChecks, List.map_cons, List.map_nil, BuilderCall.opcode]
  rw [hcount (i := .txInputCount) rfl (fun _ => rfl), hcount (i := .txOutputCount) rfl
    (fun _ => rfl), PayoutVerdict]
  refine and_congr_right fun hinputs => and_congr_right fun _ => ?_
  rw [runLine_push (canonicalPush_linear h).2, runLine_push (d := []) rfl,
    runLine_data (i := .txOutputSpk) rfl]
  simp only [effect_txOutputSpk, runLine_data (o := ⟨opEqualVerify, []⟩) (i := .equalVerify) rfl]
  have hamount : ∀ st, runLine E c [numberPush 0, ⟨opTxOutputAmount, []⟩, ⟨opTxInputIndex, []⟩,
      ⟨opTxInputAmount, []⟩, numberPush solverReward, ⟨opSub, []⟩,
      ⟨opGreaterThanOrEqual, []⟩] st = .ok st' ↔ _ := fun st =>
    runLine_amountCheck hinputs rfl rfl rfl rfl (numberPush_linear (by decide +kernel)).2 rfl rfl
  constructor
  · rintro ⟨_, ⟨out, hout, rfl⟩, mid, hverify, hrest⟩
    obtain ⟨hspk, rfl⟩ := effect_equalVerify.mp hverify
    obtain ⟨out', o, i, hout', ho, hi, hst⟩ := (hamount _).mp hrest
    rw [hout, Option.some.injEq] at hout'
    subst hout'
    exact ⟨out, o, i, hout, pushedData_eq_toBytes.mp hspk, ho, hi, hst⟩
  · rintro ⟨out, o, i, hout, hspk, ho, hi, hst⟩
    exact ⟨_, ⟨out, hout, rfl⟩, st, effect_equalVerify.mpr ⟨pushedData_eq_toBytes.mpr hspk, rfl⟩,
      (hamount _).mpr ⟨out, o, i, hout, ho, hi, hst⟩⟩

theorem runLine_claimBranch {s : Bytes} (ha : p.Accepted) :
    runLine E c (opcodes (claimBranch p)) (s :: st) = .ok st' ↔
      (E.sha256 s).data = p.secretHash ∧ PayoutVerdict c p.receiverSpk st st' := by
  have hdigest : (E.sha256 s).data ≠ [] ∧ (E.sha256 s).data ≠ [0] := by
    have hlen := (E.sha256 s).length_data
    constructor <;> (intro h; simp [h] at hlen)
  have hpushed : (E.sha256 s).data = pushedData p.secretHash ↔
      (E.sha256 s).data = p.secretHash := by
    unfold pushedData
    split_ifs with h
    · simp [h, hdigest]
    · rfl
  have hops : opcodes (claimBranch p) = ⟨opSha256, []⟩ :: canonicalPush p.secretHash ::
      ⟨opEqualVerify, []⟩ :: opcodes (payoutChecks p.receiverSpk) := rfl
  rw [hops, runLine_data (i := .sha256) rfl]
  simp only [effect, Except.ok.injEq, exists_eq_left', runLine_push (canonicalPush_linear
    ha.secretHash).2, runLine_data (o := ⟨opEqualVerify, []⟩) (i := .equalVerify) rfl]
  rw [← hpushed]
  constructor
  · rintro ⟨mid, hverify, hrest⟩
    split_ifs at hverify with heq
    cases hverify
    exact ⟨heq, (runLine_payoutChecks ha.receiverSpk).mp hrest⟩
  · rintro ⟨heq, hrest⟩
    exact ⟨st, if_pos heq, (runLine_payoutChecks ha.receiverSpk).mpr hrest⟩

theorem runLine_refundBranch (ha : p.Accepted) :
    runLine E c (opcodes (refundBranch p)) st = .ok st' ↔
      LockTimeReached c (serializeI64 (asI64 p.timelock)) ∧
        PayoutVerdict c p.senderSpk st st' := by
  have hops : opcodes (refundBranch p) = numberPush (asI64 p.timelock) ::
      ⟨opCheckLockTimeVerify, []⟩ :: opcodes (payoutChecks p.senderSpk) := rfl
  rw [hops, runLine_push (numberPush_linear ha.timelock).2,
    runLine_data (i := .checkLockTimeVerify) rfl]
  simp only [effect]
  constructor
  · rintro ⟨mid, hverify, hrest⟩
    split_ifs at hverify with heq
    cases hverify
    exact ⟨heq, (runLine_payoutChecks ha.senderSpk).mp hrest⟩
  · rintro ⟨heq, hrest⟩
    exact ⟨st, if_pos heq, (runLine_payoutChecks ha.senderSpk).mpr hrest⟩

/-- The part of the script before its metadata. -/
def spendingCalls (p : HtlcParams) : List BuilderCall :=
  [.op opIf] ++ claimBranch p ++ [.op opElse] ++ refundBranch p ++ [.op opEndIf]

def metadataBlock (p : HtlcParams) : List BuilderCall :=
  [.op opFalse, .op opIf] ++ metadata p ++ [.op opEndIf]

private theorem htlcCalls_eq (p : HtlcParams) :
    htlcCalls p = spendingCalls p ++ metadataBlock p := by
  simp [htlcCalls, spendingCalls, metadataBlock]

def BranchVerdict (E : Engine) (c : Spend) (p : HtlcParams) (st st' : List Bytes) : Prop :=
  (∃ s r, st = [1] :: s :: r ∧ (E.sha256 s).data = p.secretHash ∧
      PayoutVerdict c p.receiverSpk r st') ∨
    ∃ r, st = [] :: r ∧ LockTimeReached c (serializeI64 (asI64 p.timelock)) ∧
      PayoutVerdict c p.senderSpk r st'

private theorem payoutChecks_linear {payeeSpk : Bytes}
    (h : payeeSpk.length ≤ maxScriptElementSize) :
    ∀ o ∈ opcodes (payoutChecks payeeSpk), o.linear = true := by
  have hnum : ∀ n ∈ [(0 : ℤ), 2, solverReward], (numberPush n).linear = true := by decide +kernel
  simp only [opcodes, payoutChecks, List.map_cons, List.map_nil, BuilderCall.opcode,
    List.forall_mem_cons, (canonicalPush_linear h).1, hnum 0 (by simp), hnum 2 (by simp),
    hnum solverReward (by simp), List.not_mem_nil, false_implies, implies_true, and_true, true_and]
  decide

private theorem claimBranch_linear (ha : p.Accepted) :
    ∀ o ∈ opcodes (claimBranch p), o.linear = true := by
  have hrest := payoutChecks_linear ha.receiverSpk
  simp only [opcodes, claimBranch, List.map_append, List.forall_mem_append, List.map_cons,
    List.map_nil, List.forall_mem_cons, BuilderCall.opcode] at hrest ⊢
  exact ⟨⟨by decide, (canonicalPush_linear ha.secretHash).1, by decide, by simp⟩, hrest⟩

private theorem refundBranch_linear (ha : p.Accepted) :
    ∀ o ∈ opcodes (refundBranch p), o.linear = true := by
  have hrest := payoutChecks_linear ha.senderSpk
  simp only [opcodes, refundBranch, List.map_append, List.forall_mem_append, List.map_cons,
    List.map_nil, List.forall_mem_cons, BuilderCall.opcode] at hrest ⊢
  exact ⟨⟨(numberPush_linear ha.timelock).1, by decide, by simp⟩, hrest⟩

private theorem metadata_linear (ha : p.Accepted) :
    ∀ o ∈ opcodes (metadata p), o.linear = true := by
  simp only [opcodes, metadata, List.map_cons, List.map_nil, List.forall_mem_cons,
    BuilderCall.opcode]
  exact ⟨(canonicalPush_linear (by simp [maxScriptElementSize])).1,
    (canonicalPush_linear ha.senderReceiverAddress).1,
    (canonicalPush_linear (by simp [maxScriptElementSize])).1, by simp⟩

private theorem spending_opcodes (p : HtlcParams) : opcodes (spendingCalls p) =
    ifElse (opcodes (claimBranch p)) (opcodes (refundBranch p)) := by
  simp [opcodes, spendingCalls, BuilderCall.opcode, ifElse, opIf, opElse, opEndIf]

private theorem metadata_opcodes (p : HtlcParams) :
    opcodes (metadataBlock p) = deadBlock (opcodes (metadata p)) := by
  simp [opcodes, metadataBlock, BuilderCall.opcode, deadBlock, opFalse, opIf, opEndIf]

private theorem length_claimBranch (p : HtlcParams) : (opcodes (claimBranch p)).length = 20 := rfl
private theorem length_refundBranch (p : HtlcParams) : (opcodes (refundBranch p)).length = 19 := rfl
private theorem length_metadata (p : HtlcParams) : (opcodes (metadata p)).length = 3 := rfl

private def spendingCost (p : HtlcParams) : ℕ :=
  0 + 1 + cost (opcodes (claimBranch p)) + 1 + cost (opcodes (refundBranch p)) + 1

private theorem spendingCost_le (p : HtlcParams) : spendingCost p ≤ 42 := by
  have hclaim := cost_le_length (opcodes (claimBranch p))
  have hrefund := cost_le_length (opcodes (refundBranch p))
  rw [length_claimBranch] at hclaim
  rw [length_refundBranch] at hrefund
  unfold spendingCost
  omega

private theorem branchVerdict_iff (ha : p.Accepted) :
    BranchVerdict E c p st st' ↔ ∃ b r, st = ofBool b :: r ∧
      runLine E c (if b then opcodes (claimBranch p) else opcodes (refundBranch p)) r = .ok st' := by
  constructor
  · rintro (⟨s, r, rfl, hdigest, hpay⟩ | ⟨r, rfl, hlock, hpay⟩)
    · exact ⟨true, s :: r, rfl, (runLine_claimBranch ha).mpr ⟨hdigest, hpay⟩⟩
    · exact ⟨false, r, rfl, (runLine_refundBranch ha).mpr ⟨hlock, hpay⟩⟩
  · rintro ⟨b, r, rfl, hline⟩
    cases b with
    | false =>
      obtain ⟨hlock, hpay⟩ := (runLine_refundBranch ha).mp hline
      exact .inr ⟨r, rfl, hlock, hpay⟩
    | true =>
      cases r with
      | nil =>
        cases hline
      | cons s r =>
        obtain ⟨hdigest, hpay⟩ := (runLine_claimBranch ha).mp hline
        exact .inl ⟨s, r, rfl, hdigest, hpay⟩

/-- A run of the branches reaches one of their verdicts, with every conditional closed. -/
private theorem runOpcodes_spending_sound (ha : p.Accepted) {vm' : Vm}
    (h : runOpcodes E c (opcodes (spendingCalls p)) ⟨st, [], [], 0⟩ = .ok vm') :
    BranchVerdict E c p st vm'.stack ∧ vm' = ⟨vm'.stack, [], [], spendingCost p⟩ := by
  rw [spending_opcodes] at h
  obtain ⟨b, r, rfl, hline, hvm⟩ :=
    runOpcodes_ifElse_sound (claimBranch_linear ha) (refundBranch_linear ha) h
  exact ⟨(branchVerdict_iff ha).mpr ⟨b, r, rfl, hline⟩, hvm⟩

private theorem runOpcodes_spending_complete (ha : p.Accepted) (hst : st.length ≤ 100)
    (h : BranchVerdict E c p st st') :
    runOpcodes E c (opcodes (spendingCalls p)) ⟨st, [], [], 0⟩ =
      .ok ⟨st', [], [], spendingCost p⟩ := by
  obtain ⟨b, r, rfl, hline⟩ := (branchVerdict_iff ha).mp h
  simp only [List.length_cons] at hst
  rw [spending_opcodes]
  refine runOpcodes_ifElse_complete (claimBranch_linear ha) (refundBranch_linear ha) hline ?_ ?_
  · rw [length_claimBranch, length_refundBranch]
    decide
  · rw [length_claimBranch, length_refundBranch]
    simp only [maxStackSize]
    omega

private theorem payoutVerdict_true {payeeSpk : Bytes} {r : List Bytes} :
    (∃ a, PayoutVerdict c payeeSpk r [a] ∧ truthy a = true) ↔ r = [] ∧ PaysPayee c payeeSpk := by
  constructor
  · rintro ⟨a, ⟨hin, hout, out, o, i, h1, h2, h3, h4, hst⟩, htrue⟩
    simp only [List.cons.injEq] at hst
    obtain ⟨rfl, rfl⟩ := hst
    rw [truthy_ofBool, decide_eq_true_eq] at htrue
    exact ⟨rfl, hin, hout, out, o, i, h1, h2, h3, h4, htrue⟩
  · rintro ⟨rfl, hin, hout, out, o, i, h1, h2, h3, h4, hpaid⟩
    exact ⟨_, ⟨hin, hout, out, o, i, h1, h2, h3, h4, rfl⟩, by simpa using hpaid⟩

theorem accepts_spending (ha : p.Accepted) :
    Accepts E c (opcodes (spendingCalls p)) st ↔
      (∃ s, st = [[1], s] ∧ (E.sha256 s).data = p.secretHash ∧ PaysPayee c p.receiverSpk) ∨
        st = [[]] ∧ LockTimeReached c (serializeI64 (asI64 p.timelock)) ∧
          PaysPayee c p.senderSpk := by
  constructor
  · rintro ⟨vm, hvm, -, hcheck⟩
    obtain ⟨a, hstack, htrue⟩ := checkErrorCondition_final.mp hcheck
    obtain ⟨hverdict, -⟩ := runOpcodes_spending_sound ha hvm
    rw [hstack] at hverdict
    rcases hverdict with ⟨s, r, rfl, hdigest, hpay⟩ | ⟨r, rfl, hlock, hpay⟩
    · obtain ⟨rfl, hpays⟩ := payoutVerdict_true.mp ⟨a, hpay, htrue⟩
      exact .inl ⟨s, rfl, hdigest, hpays⟩
    · obtain ⟨rfl, hpays⟩ := payoutVerdict_true.mp ⟨a, hpay, htrue⟩
      exact .inr ⟨rfl, hlock, hpays⟩
  · rintro (⟨s, rfl, hdigest, hpays⟩ | ⟨rfl, hlock, hpays⟩)
    · obtain ⟨a, hpay, htrue⟩ := payoutVerdict_true.mpr ⟨rfl, hpays⟩
      exact ⟨_, runOpcodes_spending_complete ha (by simp) (.inl ⟨s, [], rfl, hdigest, hpay⟩), rfl,
        checkErrorCondition_final.mpr ⟨a, rfl, htrue⟩⟩
    · obtain ⟨a, hpay, htrue⟩ := payoutVerdict_true.mpr ⟨rfl, hpays⟩
      exact ⟨_, runOpcodes_spending_complete ha (by simp) (.inr ⟨[], rfl, hlock, hpay⟩), rfl,
        checkErrorCondition_final.mpr ⟨a, rfl, htrue⟩⟩

/-- The metadata does not change the verdict. -/
theorem accepts_htlc (ha : p.Accepted) :
    Accepts E c (opcodes (htlcCalls p)) st ↔ Accepts E c (opcodes (spendingCalls p)) st := by
  have happend : opcodes (htlcCalls p) =
      opcodes (spendingCalls p) ++ deadBlock (opcodes (metadata p)) := by
    rw [htlcCalls_eq, opcodes, List.map_append, ← opcodes, ← opcodes, metadata_opcodes]
  unfold Accepts
  rw [happend]
  constructor
  · rintro ⟨vm, hvm, hcond, hcheck⟩
    obtain ⟨mid, hmid, hdead⟩ := runOpcodes_append.mp hvm
    obtain ⟨-, hstate⟩ := runOpcodes_spending_sound ha hmid
    rw [hstate] at hdead
    have hend := runOpcodes_deadBlock_sound (metadata_linear ha) hdead
    subst hend
    exact ⟨mid, hmid, by rw [hstate], hcheck⟩
  · rintro ⟨vm, hvm, hcond, hcheck⟩
    obtain ⟨a, hstack, -⟩ := checkErrorCondition_final.mp hcheck
    obtain ⟨-, hstate⟩ := runOpcodes_spending_sound ha hvm
    have hcost := spendingCost_le p
    have hsize : vm.stack.length + 1 ≤ maxStackSize := by
      rw [hstack]
      simp [maxStackSize]
    have hdead := runOpcodes_deadBlock_complete (E := E) (c := c) (n := spendingCost p)
      (metadata_linear ha) (by rw [length_metadata]; simp only [maxOpsPerScript]; omega) hsize
    rw [← hstate] at hdead
    exact ⟨_, runOpcodes_append.mpr ⟨vm, hvm, hdead⟩, rfl, hcheck⟩

/-- A spend through the claim branch with the preimage `s`. -/
structure ClaimSpend (E : Engine) (c : Spend) (p : HtlcParams) (redeem s : Bytes) : Prop where
  pushes : signaturePushes c.input.signatureScript = some [s, [1], redeem]
  preimage : (E.sha256 s).data = p.secretHash
  pays : PaysPayee c p.receiverSpk

/-- A spend through the refund branch, whatever the timelock. -/
structure RefundSpend (c : Spend) (p : HtlcParams) (redeem : Bytes) : Prop where
  pushes : signaturePushes c.input.signatureScript = some [[], redeem]
  unlocked : LockTimeReached c (serializeI64 (asI64 p.timelock))
  pays : PaysPayee c p.senderSpk

/-- No other script that this input could have pushed has the digest of the redeem script. -/
def NoCollision (E : Engine) (c : Spend) (redeem : Bytes) : Prop :=
  ∀ l r, signaturePushes c.input.signatureScript = some (l ++ [r]) →
    E.blake2b r = E.blake2b redeem → r = redeem

/-- An output locked to the hash of a redeem script. -/
def LockedBy (E : Engine) (c : Spend) (redeem : Bytes) : Prop :=
  c.entry.scriptPublicKey = ⟨0, payToScriptHashScript (E.blake2b redeem)⟩

instance (E : Engine) (c : Spend) (redeem : Bytes) : Decidable (LockedBy E c redeem) :=
  inferInstanceAs (Decidable (_ = _))

theorem verifyInput_htlc {redeem : Bytes} (hbuild : createHtlcScript p = .ok redeem)
    (hlocked : LockedBy E c redeem) (hcollision : NoCollision E c redeem) :
    verifyInput E c = .ok () ↔ (∃ s, ClaimSpend E c p redeem s) ∨ RefundSpend c p redeem := by
  have hall := (build_eq_ok (htlcCalls_plain p)).mp hbuild
  have ha : p.Accepted := htlcCalls_accepted.mp hall.1
  have hparse : parseScript redeem = .ok (opcodes (htlcCalls p)) :=
    parseScript_build (htlcCalls_plain p) hbuild
  constructor
  · intro h
    obtain ⟨l, r, ops, hpushes, hdigest, hops, haccepts⟩ := verifyInput_scriptHash_sound hlocked h
    have hr := hcollision l r hpushes hdigest
    subst hr
    rw [hparse, Except.ok.injEq] at hops
    subst hops
    rw [accepts_htlc ha, accepts_spending ha] at haccepts
    rcases haccepts with ⟨s, hl, hpre, hpays⟩ | ⟨hl, hlock, hpays⟩
    · have hlist : l = [s, [1]] := by simpa using congrArg List.reverse hl
      subst hlist
      exact .inl ⟨s, hpushes, hpre, hpays⟩
    · have hlist : l = [[]] := by simpa using congrArg List.reverse hl
      subst hlist
      exact .inr ⟨hpushes, hlock, hpays⟩
  · rintro (⟨s, hpushes, hpre, hpays⟩ | ⟨hpushes, hlock, hpays⟩)
    · refine verifyInput_scriptHash_complete (l := [s, [1]]) hlocked hpushes
        (by simp [maxStackSize]) rfl hparse ?_
      exact (accepts_htlc ha).mpr ((accepts_spending ha).mpr (.inl ⟨s, rfl, hpre, hpays⟩))
    · refine verifyInput_scriptHash_complete (l := [[]]) hlocked hpushes (by decide) rfl hparse ?_
      exact (accepts_htlc ha).mpr ((accepts_spending ha).mpr (.inr ⟨rfl, hlock, hpays⟩))

/-- A refund in terms of the timelock itself: the lock time has reached it on the same side of
the threshold, and the input is not final. -/
structure TimedRefund (c : Spend) (p : HtlcParams) (redeem : Bytes) : Prop where
  pushes : signaturePushes c.input.signatureScript = some [[], redeem]
  reached : p.timelock.toNat ≤ c.tx.lockTime.toNat
  sameSide : c.tx.lockTime.toNat < lockTimeThreshold ↔ p.timelock.toNat < lockTimeThreshold
  notFinal : c.input.sequence.toNat ≠ 2 ^ 64 - 1
  pays : PaysPayee c p.senderSpk

theorem lockTimeReached_timelock (h : p.timelock.toNat < 2 ^ 63) :
    LockTimeReached c (serializeI64 (asI64 p.timelock)) ↔
      (c.tx.lockTime.toNat < lockTimeThreshold ↔ p.timelock.toNat < lockTimeThreshold) ∧
        p.timelock.toNat ≤ c.tx.lockTime.toNat ∧ c.input.sequence.toNat ≠ 2 ^ 64 - 1 := by
  have hlen : (serializeI64 (p.timelock.toNat : ℤ)).length ≤ 8 :=
    length_serializeI64_le (by simp only [Int.natAbs_natCast]; norm_num; omega)
  rw [asI64, if_pos h, LockTimeReached, leNat_serializeI64, and_iff_right hlen]

/-- The spending condition of the script, for every transaction and signature script: a claim
with the preimage or a refund after the timelock, both paying the payee. What the metadata
block holds plays no part in it. -/
theorem htlc_spending_condition (E : Engine) (c : Spend) (p : HtlcParams) (redeem : Bytes)
    (htimelock : p.timelock.toNat < 2 ^ 63) (hbuild : createHtlcScript p = .ok redeem)
    (hlocked : LockedBy E c redeem) (hcollision : NoCollision E c redeem) :
    (verifyInput E c = .ok () ↔
        (∃ s, ClaimSpend E c p redeem s) ∨ TimedRefund c p redeem) ∧
      ∀ st, Accepts E c (opcodes (htlcCalls p)) st ↔
        Accepts E c (opcodes (spendingCalls p)) st := by
  have ha : p.Accepted := htlcCalls_accepted.mp ((build_eq_ok (htlcCalls_plain p)).mp hbuild).1
  refine ⟨?_, fun st => accepts_htlc ha⟩
  rw [verifyInput_htlc hbuild hlocked hcollision]
  refine or_congr_right ?_
  constructor
  · rintro ⟨hpushes, hlock, hpays⟩
    obtain ⟨hside, hreached, hfinal⟩ := (lockTimeReached_timelock htimelock).mp hlock
    exact ⟨hpushes, hreached, hside, hfinal, hpays⟩
  · rintro ⟨hpushes, hreached, hside, hfinal, hpays⟩
    exact ⟨hpushes, (lockTimeReached_timelock htimelock).mpr ⟨hside, hreached, hfinal⟩, hpays⟩

def sampleSecret : Bytes := List.replicate 32 7

def sampleSecretHash : Bytes32 :=
  ⟨[75, 176, 111, 142, 78, 58, 119, 21, 210, 1, 213, 115, 208, 170, 66, 55, 98, 229, 93, 171,
    214, 26, 44, 2, 39, 143, 165, 108, 198, 210, 148, 224], rfl⟩

def payToPubKey (key : UInt8) : ScriptPublicKey := ⟨0, 0x20 :: (List.replicate 32 key ++ [0xac])⟩

def sampleParams : HtlcParams where
  senderSpk := (payToPubKey 1).toBytes
  senderReceiverAddress := [48, 120, 100, 101, 115, 116]
  receiverSpk := (payToPubKey 2).toBytes
  secretHash := sampleSecretHash.data
  timelock := 1000000
  destination := 1
  swapId := .filled 3

def sampleRedeem : Bytes := serialize (opcodes (htlcCalls sampleParams))

def sampleRedeemHash : Bytes32 :=
  ⟨[138, 191, 34, 193, 145, 232, 66, 50, 163, 233, 61, 86, 96, 120, 148, 224, 86, 233, 155, 148,
    169, 177, 224, 181, 93, 186, 52, 238, 24, 156, 49, 124], rfl⟩

/-- An engine with the digests of the sample secret and of the sample script. -/
def sampleEngine : Engine where
  sha256 b := if b = sampleSecret then sampleSecretHash else default
  blake2b b := if b = sampleRedeem then sampleRedeemHash else default
  other _ _ _ := .error (.other 0)

/-- A transaction that spends the sample output together with a funding output. -/
def sampleSpend (signatureScript : Bytes) (payee : ScriptPublicKey) (lockTime : UInt64) :
    Spend where
  tx :=
    { inputs := [⟨⟨.filled 9, 0⟩, signatureScript, 0⟩, ⟨⟨.filled 8, 1⟩, [], 0⟩]
      outputs := [⟨90000000, payee⟩, ⟨9000000, payToPubKey 5⟩]
      lockTime := lockTime
      entries := [⟨100000000, ⟨0, payToScriptHashScript sampleRedeemHash⟩⟩,
        ⟨1000000, payToPubKey 5⟩]
      populated := rfl }
  index := ⟨0, Nat.zero_lt_succ _⟩

def sampleClaim : Spend :=
  sampleSpend (serialize [canonicalPush sampleSecret, ⟨opTrue, []⟩, canonicalPush sampleRedeem])
    (payToPubKey 2) 0

private theorem sampleRedeem_built : createHtlcScript sampleParams = .ok sampleRedeem := by
  decide +kernel

theorem htlc_spending_condition_sample :
    verifyInput sampleEngine sampleClaim = .ok () := by
  have hpushes : signaturePushes sampleClaim.input.signatureScript =
      some [sampleSecret, [1], sampleRedeem] := by decide +kernel
  refine (htlc_spending_condition sampleEngine sampleClaim sampleParams sampleRedeem
    (by decide) sampleRedeem_built (by decide +kernel) ?_).1.mpr (.inl ⟨sampleSecret, hpushes,
      by decide, by decide, by decide, ?_⟩)
  · intro l r h _
    rw [hpushes, Option.some.injEq] at h
    have hlast := congrArg List.getLast? h
    simpa using hlast.symm
  · exact ⟨_, 90000000, 100000000, rfl, rfl, by decide, by decide, by decide⟩

end Stroemnet.Htlc
