import Stroemnet.EthereumHtlc
import Stroemnet.HtlcExtraction
import Stroemnet.HtlcSpendingCondition

/-! # One secret for both legs

The script hashes whatever element the claimant pushes, the contract takes a secret of 32
bytes, and the reader of spends looks for 32 bytes too. The three agree exactly on the
preimages of that length. -/
namespace Stroemnet

open Script Htlc Kaspa

section Pushes

variable {o : Opcode} {d : Bytes}

/-- The ways to push an element that the engine lets pass. -/
theorem pushed_cases (h : o.pushed = some d) :
    (o.value = 0 ∧ d = []) ∨ (o.data = d ∧ o.value = minimalValue d ∧ o.value.toNat ≤ 0x4e) ∨
      0x4e < o.value.toNat ∧ d.length = 1 ∧
        (o.value = 0x4f ∧ d = [0x81] ∨ d = [o.value - 0x50]) := by
  have hlinear : o.instr = .push d ∧ o.linear = true := by
    unfold Opcode.pushed at h
    split at h
    · split_ifs at h with hl
      cases h
      exact ⟨‹_›, hl⟩
    · cases h
  obtain ⟨hinstr, hl⟩ := hlinear
  have hmin : o.minimal = true := by
    rw [Opcode.linear, hinstr, Bool.and_eq_true] at hl
    exact hl.2
  unfold Opcode.instr at hinstr
  split_ifs at hinstr with h0 h1 h2 h3 h4 h5 h6 h7
  · cases hinstr
    exact .inl ⟨h0, rfl⟩
  · cases hinstr
    have hpos : 1 ≤ o.value.toNat := by
      rw [Nat.one_le_iff_ne_zero]
      intro hz
      exact h0 (UInt8.toNat.inj hz)
    rw [Opcode.minimal, if_pos ⟨hpos, h1⟩, decide_eq_true_eq] at hmin
    exact .inr (.inl ⟨rfl, hmin, h1⟩)
  · cases hinstr
    exact .inr (.inr ⟨not_le.mp h1, rfl, .inl ⟨h2, rfl⟩⟩)
  · cases hinstr
    exact .inr (.inr ⟨not_le.mp h1, rfl, .inr rfl⟩)
  · split at hinstr <;> cases hinstr

/-- The selector of the claim branch can only be pushed by the opcode for one. -/
theorem value_of_pushed_one (h : o.pushed = some [1]) : o.value = opTrue := by
  rcases pushed_cases h with ⟨-, hd⟩ | ⟨-, hv, hle⟩ | ⟨-, -, ⟨-, hd⟩ | hd⟩
  · cases hd
  · rw [hv] at hle
    exact absurd hle (by decide)
  · cases hd
  · have hsub : 1 = o.value - 0x50 := (List.cons.inj hd).1
    rw [show o.value = (o.value - 0x50) + 0x50 by simp, ← hsub]
    rfl

private theorem data_of_pushed (h : o.pushed = some d) (hlen : 1 < d.length) : o.data = d := by
  rcases pushed_cases h with ⟨-, hd⟩ | ⟨hdata, -⟩ | ⟨-, hd, -⟩
  · rw [hd] at hlen
    cases hlen
  · exact hdata
  · omega

theorem extractOpcodeData_of_pushed (h : o.pushed = some d) (hlen : 1 < d.length) :
    extractOpcodeData o = d := by
  have hdata := data_of_pushed h hlen
  have hne : o.data ≠ [] := by
    rw [hdata]
    exact List.ne_nil_of_length_pos (by omega)
  rw [extractOpcodeData, if_pos hne, hdata]

/-- What the reader takes for data of more than a byte is what was pushed. -/
theorem pushed_of_extractOpcodeData (hwf : o.WellFormed) (h : o.pushed = some d)
    (hlen : 1 < (extractOpcodeData o).length) : d = extractOpcodeData o := by
  have hne : o.data ≠ [] := by
    intro hnil
    rw [extractOpcodeData, if_neg (not_not.mpr hnil), valueToBytes] at hlen
    split_ifs at hlen <;> simp at hlen
  have hdirect : 0x4e < o.value.toNat ∨ o.value = 0 → False := by
    intro hvalue
    have hwidth : lengthWidth o.value = 0 ∧ directLength o.value = 0 := by
      rcases hvalue with hvalue | hvalue
      · have hnot : ∀ v : UInt8, v.toNat ≤ 0x4e → o.value ≠ v := by
          rintro v hv rfl
          omega
        simp only [lengthWidth, directLength, hnot 0x4c (by decide), hnot 0x4d (by decide),
          hnot 0x4e (by decide), if_false, true_and]
        rw [if_neg (by omega)]
      · rw [hvalue]
        decide
    rw [Opcode.WellFormed, if_pos hwidth.1, hwidth.2] at hwf
    exact hne (List.eq_nil_of_length_eq_zero hwf)
  rw [extractOpcodeData, if_pos hne]
  rcases pushed_cases h with ⟨hzero, -⟩ | ⟨hdata, -⟩ | ⟨hlarge, -⟩
  · exact (hdirect (.inr hzero)).elim
  · exact hdata.symm
  · exact (hdirect (.inl hlarge)).elim

end Pushes

theorem signaturePushes_opcodes {sig : Bytes} {l : List Bytes} (h : signaturePushes sig = some l) :
    ∃ ops, parseScript sig = .ok ops ∧
      List.Forall₂ (fun (o : Opcode) d => o.pushed = some d) ops l := by
  unfold signaturePushes at h
  split at h
  · cases h
  · rename_i ops hparse
    split_ifs at h with hlimits
    refine ⟨ops, hparse, ?_⟩
    clear hparse hlimits
    induction ops generalizing l with
    | nil =>
      cases h
      exact .nil
    | cons o ops ih =>
      simp only [List.mapM_cons, Option.bind_eq_bind, Option.bind_eq_some_iff] at h
      obtain ⟨d, hd, l', hl', hl⟩ := h
      cases hl
      exact .cons hd (ih hl')

theorem length_le_length_serialize (ops : List Opcode) :
    ops.length ≤ (serialize ops).length := by
  induction ops with
  | nil => exact le_rfl
  | cons o ops ih =>
    simp only [serialize_cons, List.length_append, List.length_cons, Opcode.serialize]
    omega

/-- The reader finds the pushed secret of a claim when it has 32 bytes. -/
theorem extractRevealSecret_of_pushes {sig redeem : Bytes} (secret : Bytes32)
    (h : signaturePushes sig = some [secret.data, [1], redeem]) (hredeem : 1 < redeem.length) :
    ∃ ops, parseScript sig = .ok ops ∧ extractRevealSecret ops = .ok secret := by
  obtain ⟨ops, hparse, hops⟩ := signaturePushes_opcodes h
  rcases hops with _ | ⟨hs, _ | ⟨hb, _ | ⟨hr, _ | _⟩⟩⟩
  have hsecret := extractOpcodeData_of_pushed hs (by simp)
  have hscript := extractOpcodeData_of_pushed hr hredeem
  have hsne : secret.data ≠ [] := List.ne_nil_of_length_pos (by simp)
  have hrne : redeem ≠ [] := List.ne_nil_of_length_pos (by omega)
  refine ⟨_, hparse, ?_⟩
  simp [extractRevealSecret, value_of_pushed_one hb, hsecret, hscript, hsne, hrne]

/-- Once the secret hashes right, no part of a claim complains about it. -/
theorem claim_secret_accepted {C : Evm.Contract} {secret : Bytes32} {id : Bytes32} {w : Evm.World}
    (h : C.sha256 secret.data = (w.swaps id).secretHash) (timestamp : ℕ) (sender : Evm.Address)
    (onReceiver onSolver : Evm.World → Evm.Outcome) :
    (Evm.claim C timestamp sender id secret onReceiver onSolver w).result ≠
      .error "Invalid secret" := by
  have hrequire : ∀ (o : Evm.Outcome) reason next, reason ≠ "Invalid secret" →
      (∀ v, (next v : Evm.Outcome).result ≠ .error "Invalid secret") →
      (o.require reason next).result ≠ .error "Invalid secret" := by
    intro o reason next hreason hnext
    unfold Evm.Outcome.require
    split
    · exact hnext _
    · simpa using hreason
  simp only [Evm.claim, Evm.payOut]
  split_ifs with hinit hfinal hhash htime
  · simp [Evm.Outcome.reverted]
  · exact absurd h hhash
  · refine hrequire _ _ _ (show "Receiver transfer failed" ≠ _ by decide) fun v => ?_
    exact hrequire _ _ _ (show "Solver transfer failed" ≠ _ by decide) fun v' => by simp
  · simp [Evm.Outcome.reverted]
  · simp [Evm.Outcome.reverted]

/-- What the preimage `s` that a spend pushed has to be for the other leg: a secret that the
contract accepts for every swap with the same hash, and that is read off the spend. -/
def OpensOtherLeg (E : Engine) (c : Spend) (p : HtlcParams) (s : Bytes) : Prop :=
  ∃ secret : Bytes32, secret.data = s ∧
    (∀ (C : Evm.Contract) (w : Evm.World) (id : Bytes32) (timestamp : ℕ) (sender : Evm.Address)
        (onReceiver onSolver : Evm.World → Evm.Outcome),
      C.sha256 = E.sha256 → (w.swaps id).secretHash.data = p.secretHash →
        (Evm.claim C timestamp sender id secret onReceiver onSolver w).result ≠
          .error "Invalid secret") ∧
    ∃ ops, parseScript c.input.signatureScript = .ok ops ∧ extractRevealSecret ops = .ok secret

/-- Every claim the engine accepts reveals a secret for the other leg exactly when the
preimage it pushes has 32 bytes; the script itself does not look at the length. -/
theorem claim_opens_other_leg_iff (E : Engine) (c : Spend) (p : HtlcParams) (redeem s : Bytes)
    (hbuild : createHtlcScript p = .ok redeem) (hlocked : LockedBy E c redeem)
    (hpushes : signaturePushes c.input.signatureScript = some [s, [1], redeem])
    (hverify : verifyInput E c = .ok ()) :
    OpensOtherLeg E c p s ↔ s.length = 32 := by
  constructor
  · rintro ⟨secret, rfl, -⟩
    exact secret.length_data
  · intro hlen
    have hcollision : NoCollision E c redeem := by
      intro l r h _
      rw [hpushes, Option.some.injEq] at h
      have hlast := congrArg List.getLast? h
      simpa using hlast.symm
    have hclaim : ClaimSpend E c p redeem s := by
      rcases (verifyInput_htlc hbuild hlocked hcollision).mp hverify with ⟨s', hs'⟩ | hrefund
      · have heq := hpushes.symm.trans hs'.pushes
        cases heq
        exact hs'
      · have heq := hpushes.symm.trans hrefund.pushes
        cases heq
    refine ⟨⟨s, hlen⟩, rfl, ?_, ?_⟩
    · intro C w id timestamp sender onReceiver onSolver hsha hhash
      apply claim_secret_accepted
      apply Bytes32.ext
      rw [hsha, hhash]
      exact hclaim.preimage
    · refine extractRevealSecret_of_pushes ⟨s, hlen⟩ hpushes ?_
      obtain ⟨-, -, hredeem⟩ := (build_eq_ok (htlcCalls_plain p)).mp hbuild
      have hlength := length_le_length_serialize (opcodes (htlcCalls p))
      rw [opcodes, ← hredeem, List.length_map] at hlength
      exact lt_of_lt_of_le (by simp [htlcCalls]) hlength

def shortSecret : Bytes := List.replicate 31 7

def shortSecretHash : Bytes32 :=
  ⟨[156, 69, 206, 22, 70, 56, 76, 149, 80, 38, 51, 95, 61, 81, 206, 134, 118, 44, 101, 198, 119,
    220, 219, 216, 36, 113, 45, 64, 150, 128, 210, 177], rfl⟩

def shortParams : HtlcParams := { sampleParams with secretHash := shortSecretHash.data }

def shortRedeem : Bytes := serialize (opcodes (htlcCalls shortParams))

def shortRedeemHash : Bytes32 :=
  ⟨[66, 227, 95, 160, 117, 89, 88, 208, 132, 29, 254, 74, 85, 33, 37, 198, 195, 175, 58, 0, 196,
    204, 252, 138, 130, 159, 121, 186, 139, 163, 85, 88], rfl⟩

def shortEngine : Engine where
  sha256 b := if b = shortSecret then shortSecretHash else default
  blake2b b := if b = shortRedeem then shortRedeemHash else default
  other _ _ _ := .error (.other 0)

def shortClaim : Spend where
  tx :=
    { inputs := [⟨⟨.filled 9, 0⟩, serialize [canonicalPush shortSecret, ⟨opTrue, []⟩,
        canonicalPush shortRedeem], 0⟩, ⟨⟨.filled 8, 1⟩, [], 0⟩]
      outputs := [⟨90000000, payToPubKey 2⟩, ⟨9000000, payToPubKey 5⟩]
      lockTime := 0
      entries := [⟨100000000, ⟨0, payToScriptHashScript shortRedeemHash⟩⟩,
        ⟨1000000, payToPubKey 5⟩]
      populated := rfl }
  index := ⟨0, by decide⟩

/-- A preimage of 31 bytes takes the coin and opens nothing else. -/
theorem short_claim_opens_nothing :
    createHtlcScript shortParams = .ok shortRedeem ∧ LockedBy shortEngine shortClaim shortRedeem ∧
      signaturePushes shortClaim.input.signatureScript = some [shortSecret, [1], shortRedeem] ∧
      verifyInput shortEngine shortClaim = .ok () ∧
      ¬ OpensOtherLeg shortEngine shortClaim shortParams shortSecret := by
  refine ⟨by decide +kernel, by decide +kernel, by decide +kernel, by decide +kernel, ?_⟩
  rintro ⟨secret, hsecret, -⟩
  have hlen := secret.length_data
  rw [hsecret] at hlen
  cases hlen

theorem claim_opens_other_leg_sample :
    OpensOtherLeg sampleEngine sampleClaim sampleParams sampleSecret :=
  (claim_opens_other_leg_iff sampleEngine sampleClaim sampleParams sampleRedeem sampleSecret
    (by decide +kernel) (by decide +kernel) (by decide +kernel) (by decide +kernel)).mpr rfl

end Stroemnet
