import Stroemnet.StraightLineScripts

/-! # The hash time-locked script

The redeem script of a swap on Kaspa, as the calls made to the script builder: a claim branch
opened by the preimage of the secret hash, a refund branch opened by the lock time, and a
block of metadata that is never executed. Both branches end in the same checks of the
spending transaction, which pay the whole amount less the solver's reward to the payee. -/
namespace Stroemnet.Htlc
open Script Numbers

def opFalse : UInt8 := 0x00
def opTrue : UInt8 := 0x51
def opIf : UInt8 := 0x63
def opElse : UInt8 := 0x67
def opEndIf : UInt8 := 0x68
def opEqualVerify : UInt8 := 0x88
def opSub : UInt8 := 0x94
def opNumEqualVerify : UInt8 := 0x9d
def opGreaterThanOrEqual : UInt8 := 0xa2
def opSha256 : UInt8 := 0xa8
def opCheckLockTimeVerify : UInt8 := 0xb0
def opTxInputCount : UInt8 := 0xb3
def opTxOutputCount : UInt8 := 0xb4
def opTxInputIndex : UInt8 := 0xb9
def opTxInputAmount : UInt8 := 0xbe
def opTxOutputAmount : UInt8 := 0xc2
def opTxOutputSpk : UInt8 := 0xc3

def solverReward : ℤ := 10000000

structure HtlcParams where
  senderSpk : Bytes
  senderReceiverAddress : Bytes
  receiverSpk : Bytes
  secretHash : Bytes
  timelock : UInt64
  destination : UInt8
  swapId : Bytes32
deriving DecidableEq

/-- The two's complement reading of an unsigned number. -/
def asI64 (n : UInt64) : ℤ := if n.toNat < 2 ^ 63 then n.toNat else (n.toNat : ℤ) - 2 ^ 64

/-- Two inputs, two outputs, the first output to the payee, and of no less than the amount of
this input after the reward. -/
def payoutChecks (payeeSpk : Bytes) : List BuilderCall :=
  [.op opTxInputCount, .i64 2, .op opNumEqualVerify,
    .op opTxOutputCount, .i64 2, .op opNumEqualVerify,
    .data payeeSpk, .i64 0, .op opTxOutputSpk, .op opEqualVerify,
    .i64 0, .op opTxOutputAmount,
    .op opTxInputIndex, .op opTxInputAmount, .i64 solverReward, .op opSub,
    .op opGreaterThanOrEqual]

def claimBranch (p : HtlcParams) : List BuilderCall :=
  [.op opSha256, .data p.secretHash, .op opEqualVerify] ++ payoutChecks p.receiverSpk

def refundBranch (p : HtlcParams) : List BuilderCall :=
  [.i64 (asI64 p.timelock), .op opCheckLockTimeVerify] ++ payoutChecks p.senderSpk

def metadata (p : HtlcParams) : List BuilderCall :=
  [.data p.swapId.data, .data p.senderReceiverAddress, .data [p.destination]]

def htlcCalls (p : HtlcParams) : List BuilderCall :=
  [.op opIf] ++ claimBranch p ++ [.op opElse] ++ refundBranch p ++
    [.op opEndIf, .op opFalse, .op opIf] ++ metadata p ++ [.op opEndIf]

/-- Create a htlc script smart contract with the provided params. -/
def createHtlcScript (p : HtlcParams) : Except ScriptBuilderError Bytes := build (htlcCalls p)

private theorem payoutChecks_plain (payeeSpk : Bytes) : ∀ c ∈ payoutChecks payeeSpk, c.Plain := by
  simp [payoutChecks, lengthWidth, directLength, opTxInputCount, opNumEqualVerify, opTxOutputCount,
    opTxOutputSpk, opEqualVerify, opTxOutputAmount, opTxInputIndex, opTxInputAmount, opSub,
    opGreaterThanOrEqual]

theorem htlcCalls_plain (p : HtlcParams) : ∀ c ∈ htlcCalls p, c.Plain := by
  simp only [htlcCalls, claimBranch, refundBranch, metadata, List.forall_mem_append]
  simp only [List.forall_mem_cons, BuilderCall.plain_op, BuilderCall.plain_data,
    BuilderCall.plain_i64, List.not_mem_nil, false_implies, implies_true, and_true, true_and]
  and_intros
  all_goals first | rfl | exact payoutChecks_plain _

def opcodes (calls : List BuilderCall) : List Opcode := calls.map BuilderCall.opcode

/-- What the builder checks of the parameters. -/
structure HtlcParams.Accepted (p : HtlcParams) : Prop where
  secretHash : p.secretHash.length ≤ maxScriptElementSize
  receiverSpk : p.receiverSpk.length ≤ maxScriptElementSize
  timelock : (serializeI64 (asI64 p.timelock)).length ≤ 8
  senderSpk : p.senderSpk.length ≤ maxScriptElementSize
  senderReceiverAddress : p.senderReceiverAddress.length ≤ maxScriptElementSize

theorem htlcCalls_accepted {p : HtlcParams} :
    (∀ c ∈ htlcCalls p, c.Accepted) ↔ p.Accepted := by
  have hzero : (serializeI64 0).length ≤ 8 := by decide
  have htwo : (serializeI64 2).length ≤ 8 := by decide
  have hreward : (serializeI64 solverReward).length ≤ 8 := by decide +kernel
  have hid : p.swapId.data.length ≤ maxScriptElementSize := by simp [maxScriptElementSize]
  have hdest : [p.destination].length ≤ maxScriptElementSize := by simp [maxScriptElementSize]
  simp only [htlcCalls, claimBranch, refundBranch, metadata, payoutChecks,
    List.forall_mem_append, List.forall_mem_cons, List.not_mem_nil, false_implies, implies_true,
    and_true, true_and, BuilderCall.accepted_op, BuilderCall.accepted_data,
    BuilderCall.accepted_i64, hzero, htwo, hreward, hid, hdest]
  constructor
  · rintro h
    exact ⟨h.1.1.1, h.1.1.2, h.1.2.1, h.1.2.2, h.2⟩
  · rintro ⟨h1, h2, h3, h4, h5⟩
    exact ⟨by tauto, h5⟩

end Stroemnet.Htlc
