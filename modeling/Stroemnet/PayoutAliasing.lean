import Stroemnet.HtlcSpendingCondition
import Mathlib.Algebra.BigOperators.Fin
import Mathlib.Algebra.Order.BigOperators.Group.Finset

/-! # Several hash time-locked inputs in one transaction

Each script looks at its own amount and at the first output only. When one transaction spends
two such outputs, both scripts are satisfied by the same first output. The payouts of a
transaction are compared here with what its inputs demand together. -/
namespace Stroemnet.Htlc
open Script

/-- A set of inputs of a transaction that spend outputs locked by htlc scripts, each with
parameters of its own. -/
structure HtlcInputs (E : Engine) (P : PopulatedTransaction) where
  indices : Finset (Fin P.inputs.length)
  params : Fin P.inputs.length → HtlcParams
  redeem : Fin P.inputs.length → Bytes
  built : ∀ i ∈ indices, createHtlcScript (params i) = .ok (redeem i)
  locked : ∀ i ∈ indices, LockedBy E ⟨P, i⟩ (redeem i)
  noCollision : ∀ i ∈ indices, NoCollision E ⟨P, i⟩ (redeem i)

namespace HtlcInputs

variable {E : Engine} {P : PopulatedTransaction} (H : HtlcInputs E P)

def Succeed : Prop := ∀ i ∈ H.indices, verifyInput E ⟨P, i⟩ = .ok ()

/-- The payee an input designates: the receiver when its signature script pushes a preimage,
the sender when it does not. -/
def payee (i : Fin P.inputs.length) : Bytes :=
  if (signaturePushes (P.inputs.get i).signatureScript).map List.length = some 3 then
    (H.params i).receiverSpk
  else (H.params i).senderSpk

def due (P : PopulatedTransaction) (i : Fin P.inputs.length) : ℤ :=
  ((⟨P, i⟩ : Spend).entry.amount.toNat : ℤ) - solverReward

def spk (P : PopulatedTransaction) (o : Fin P.outputs.length) : Bytes :=
  (P.outputs.get o).scriptPublicKey.toBytes

def value (P : PopulatedTransaction) (o : Fin P.outputs.length) : ℕ := (P.outputs.get o).value.toNat

/-- A division of the outputs among the inputs: an output only serves the payees it pays, and
no part of it serves two inputs. -/
structure Allocation where
  share : Fin P.inputs.length → Fin P.outputs.length → ℕ
  toPayee : ∀ i ∈ H.indices, ∀ o, share i o ≠ 0 → spk P o = H.payee i
  once : ∀ o, ∑ i ∈ H.indices, share i o ≤ value P o

/-- The outputs pay the payees, in total, all that the inputs leave for them. -/
def Paid : Prop :=
  ∃ a : H.Allocation, ∑ i ∈ H.indices, due P i ≤ (∑ i ∈ H.indices, ∑ o, a.share i o : ℕ)

/-- The value of the outputs with the script of the first one. -/
def paidLikeFirst (P : PopulatedTransaction) : ℕ :=
  ∑ o, if P.outputs.head?.map (·.scriptPublicKey.toBytes) = some (spk P o) then value P o else 0

variable {H}

/-- A successful input pays its payee by the first output. -/
theorem paysPayee (hs : H.Succeed) {i : Fin P.inputs.length} (hi : i ∈ H.indices) :
    PaysPayee ⟨P, i⟩ (H.payee i) := by
  have hverdict := (verifyInput_htlc (H.built i hi) (H.locked i hi) (H.noCollision i hi)).mp
    (hs i hi)
  unfold payee
  rcases hverdict with ⟨s, hpushes, -, hpays⟩ | ⟨hpushes, -, hpays⟩
  · have hthree : signaturePushes (P.inputs.get i).signatureScript = some _ := hpushes
    rw [hthree]
    exact hpays
  · have htwo : signaturePushes (P.inputs.get i).signatureScript = some _ := hpushes
    rw [htwo]
    exact hpays

private theorem payee_eq_first (hs : H.Succeed) {i : Fin P.inputs.length} (hi : i ∈ H.indices) :
    P.outputs.head?.map (·.scriptPublicKey.toBytes) = some (H.payee i) := by
  obtain ⟨-, -, out, o, k, hout, hspk, -⟩ := paysPayee hs hi
  have hhead : P.outputs.head? = some out := by
    rw [List.head?_eq_getElem?]
    exact hout
  rw [hhead, Option.map_some, hspk]

private theorem due_le_paidLikeFirst (hs : H.Succeed) {i : Fin P.inputs.length}
    (hi : i ∈ H.indices) : due P i ≤ paidLikeFirst P := by
  have hfirst := payee_eq_first hs hi
  obtain ⟨-, houtputs, out, o, k, hout, hspk, ho, hk, hpaid⟩ := paysPayee hs hi
  obtain ⟨-, rfl⟩ := toI64_eq_some.mp ho
  obtain ⟨-, rfl⟩ := toI64_eq_some.mp hk
  have hlt : 0 < P.outputs.length := by
    simp only at houtputs
    omega
  have hget : P.outputs.get ⟨0, hlt⟩ = out := by
    rw [List.getElem?_eq_getElem hlt, Option.some.injEq] at hout
    exact hout
  have hterm := Finset.single_le_sum (s := Finset.univ) (f := fun o : Fin P.outputs.length =>
    if P.outputs.head?.map (·.scriptPublicKey.toBytes) = some (spk P o) then value P o else 0)
    (fun _ _ => Nat.zero_le _) (Finset.mem_univ ⟨0, hlt⟩)
  have hfirstSpk : spk P ⟨0, hlt⟩ = H.payee i := by rw [spk, hget, hspk]
  simp only [hfirst, hfirstSpk, if_true] at hterm
  have hvalue : value P ⟨0, hlt⟩ = out.value.toNat := by rw [value, hget]
  rw [hvalue] at hterm
  have hle : (out.value.toNat : ℤ) ≤ paidLikeFirst P := by
    rw [paidLikeFirst, hfirst]
    exact_mod_cast hterm
  exact hpaid.trans hle

/-- No division of the outputs is worth more than the outputs with the script of the first. -/
private theorem allocation_le (hs : H.Succeed) (a : H.Allocation) :
    ∑ i ∈ H.indices, ∑ o, a.share i o ≤ paidLikeFirst P := by
  rw [Finset.sum_comm]
  refine Finset.sum_le_sum fun o _ => ?_
  split_ifs with hspk
  · exact a.once o
  · refine (Finset.sum_eq_zero fun i hi => ?_).le
    by_contra hne
    have hpay := a.toPayee i hi o hne
    rw [payee_eq_first hs hi, hpay] at hspk
    exact hspk rfl

/-- All of it can be allocated to a single input of the set. -/
private theorem exists_allocation (hs : H.Succeed) {j : Fin P.inputs.length}
    (hj : j ∈ H.indices) :
    ∃ a : H.Allocation, ∑ i ∈ H.indices, ∑ o, a.share i o = paidLikeFirst P := by
  have hfirst := payee_eq_first hs hj
  refine ⟨⟨fun i o => if i = j ∧ some (H.payee j) = some (spk P o) then value P o else 0, ?_, ?_⟩,
    ?_⟩
  · rintro i - o hne
    simp only [ne_eq, ite_eq_right_iff, not_forall] at hne
    obtain ⟨⟨rfl, hspk⟩, -⟩ := hne
    exact (Option.some.inj hspk).symm
  · intro o
    refine (Finset.sum_eq_single j ?_ fun h => absurd hj h).le.trans ?_
    · intro i _ hij
      rw [if_neg fun h => hij h.1]
    · split_ifs
      · exact le_rfl
      · exact Nat.zero_le _
  · simp only
    rw [Finset.sum_eq_single j, paidLikeFirst, hfirst]
    · simp
    · intro i _ hij
      exact Finset.sum_eq_zero fun o _ => if_neg fun h => hij h.1
    · exact fun h => absurd hj h

/-- More than one successful input is every input of the transaction. -/
private theorem indices_eq_univ (hs : H.Succeed) (hcard : 1 < H.indices.card) :
    H.indices = Finset.univ := by
  obtain ⟨i, hi⟩ := Finset.card_pos.mp (by omega : 0 < H.indices.card)
  have hinputs := (paysPayee hs hi).inputs
  apply Finset.eq_univ_of_card
  have hle := Finset.card_le_univ H.indices
  simp only [Fintype.card_fin] at hle hinputs ⊢
  omega

/-- The scripts of a transaction, all successful, see to the payees exactly when only one of
them is at work or when the outputs like the first one are worth both inputs. -/
theorem htlc_inputs_paid_iff (E : Engine) (P : PopulatedTransaction) (H : HtlcInputs E P)
    (hs : H.Succeed) :
    H.Paid ↔ H.indices.card ≤ 1 ∨ ∑ i, due P i ≤ paidLikeFirst P := by
  constructor
  · rintro ⟨a, ha⟩
    by_cases hcard : H.indices.card ≤ 1
    · exact .inl hcard
    · have huniv := indices_eq_univ hs (by omega)
      have hle := allocation_le hs a
      refine .inr ?_
      calc ∑ i, due P i = ∑ i ∈ H.indices, due P i := by rw [huniv]
        _ ≤ (∑ i ∈ H.indices, ∑ o, a.share i o : ℕ) := ha
        _ ≤ paidLikeFirst P := by exact_mod_cast hle
  · intro h
    rcases H.indices.eq_empty_or_nonempty with hempty | ⟨j, hj⟩
    · refine ⟨⟨fun _ _ => 0, fun _ _ _ h => absurd rfl h, fun _ => by simp⟩, ?_⟩
      simp [hempty]
    · obtain ⟨a, ha⟩ := exists_allocation hs hj
      refine ⟨a, ?_⟩
      rw [ha]
      by_cases hcard : H.indices.card ≤ 1
      · have hone : H.indices = {j} := Finset.eq_singleton_iff_unique_mem.mpr
          ⟨hj, fun k hk => Finset.card_le_one.mp hcard k hk j hj⟩
        rw [hone, Finset.sum_singleton]
        exact due_le_paidLikeFirst hs hj
      · rw [indices_eq_univ hs (by omega)]
        exact h.resolve_left hcard

def sampleSignature : Bytes :=
  serialize [canonicalPush sampleSecret, ⟨opTrue, []⟩, canonicalPush sampleRedeem]

private theorem sampleSignature_pushes :
    signaturePushes sampleSignature = some [sampleSecret, [1], sampleRedeem] := by
  decide +kernel

private theorem noCollision_sample {c : Spend} (h : c.input.signatureScript = sampleSignature) :
    NoCollision sampleEngine c sampleRedeem := by
  intro l r hpushes _
  rw [h, sampleSignature_pushes, Option.some.injEq] at hpushes
  have hlast := congrArg List.getLast? hpushes
  simpa using hlast.symm

/-- Two outputs of one coin each, locked by the sample script and claimed together; the first
output pays one of them, the second one goes elsewhere. -/
def doubleClaim : PopulatedTransaction where
  inputs := [⟨⟨.filled 9, 0⟩, sampleSignature, 0⟩, ⟨⟨.filled 8, 0⟩, sampleSignature, 0⟩]
  outputs := [⟨90000000, payToPubKey 2⟩, ⟨109000000, payToPubKey 5⟩]
  lockTime := 0
  entries := [⟨100000000, ⟨0, payToScriptHashScript sampleRedeemHash⟩⟩,
    ⟨100000000, ⟨0, payToScriptHashScript sampleRedeemHash⟩⟩]
  populated := rfl

def doubleClaimInputs : HtlcInputs sampleEngine doubleClaim where
  indices := Finset.univ
  params _ := sampleParams
  redeem _ := sampleRedeem
  built _ _ := by decide +kernel
  locked := by decide +kernel
  noCollision i _ := noCollision_sample (by revert i; decide +kernel)

theorem htlc_inputs_not_paid : doubleClaimInputs.Succeed ∧ ¬ doubleClaimInputs.Paid := by
  have hs : doubleClaimInputs.Succeed := by
    intro i _
    revert i
    decide +kernel
  refine ⟨hs, ?_⟩
  rintro ⟨a, ha⟩
  have hle := allocation_le hs a
  have hdue : ∑ i ∈ doubleClaimInputs.indices, due doubleClaim i = 180000000 := by decide +kernel
  have hpaid : paidLikeFirst doubleClaim = 90000000 := by decide +kernel
  rw [hdue] at ha
  rw [hpaid] at hle
  omega

private theorem zero_lt_sampleClaim_inputs : 0 < sampleClaim.tx.inputs.length := Nat.zero_lt_succ _

def singleClaimInputs : HtlcInputs sampleEngine sampleClaim.tx where
  indices := {⟨0, zero_lt_sampleClaim_inputs⟩}
  params _ := sampleParams
  redeem _ := sampleRedeem
  built _ _ := by decide +kernel
  locked := by decide +kernel
  noCollision i hi := noCollision_sample (by
    rw [Finset.mem_singleton] at hi
    subst hi
    rfl)

theorem htlc_inputs_paid_sample : singleClaimInputs.Paid := by
  refine (htlc_inputs_paid_iff sampleEngine sampleClaim.tx singleClaimInputs ?_).mpr
    (.inl (Finset.card_singleton _).le)
  intro i hi
  have hi' : i = ⟨0, Nat.zero_lt_succ _⟩ := Finset.mem_singleton.mp hi
  subst hi'
  decide +kernel

end HtlcInputs
end Stroemnet.Htlc
