import Stroemnet.CrossChainSwaps
import Stroemnet.ScriptLegs

/-! # Swaps from a script to a contract

The first leg of a swap is an output of the script on one chain, and a provider answers it with a
swap of the contract on another. The secret is a string of any length for the one and a word for the
other, the clocks run in milliseconds and in seconds; still whoever claims the swap of the contract
shows the provider how to claim the output. -/
namespace Stroemnet.Htlc
open Script
open HashTimelocks (Terms Leg Move LegChain)

/-- Both chains after transactions on either; those of the script are on the left. -/
def chainsAfter (E : Engine) (C : Evm.Contract) (steps : List (BlockTx ⊕ Evm.Transaction))
    (s : Ledger × Evm.World) : Ledger × Evm.World :=
  (Runs.final (Ledger.step E) s.1 (steps.filterMap Sum.getLeft?),
    Evm.worldAfter C (steps.filterMap Sum.getRight?) s.2)

/-- When a transaction is made on the second chain, the clock of the first has not come further than
`late` says. -/
def ClocksInStep (late : ℕ → ℕ) (steps : List (BlockTx ⊕ Evm.Transaction)) : Prop :=
  steps.Pairwise fun x y =>
    ∀ b tx, x = .inl b → y = .inr tx → b.pastMedianTime.toNat ≤ late tx.timestamp

/-- Every transaction that shows the secret and pays the receiver may spend the output. -/
def OpensWith (E : Engine) (p : HtlcParams) (redeem : Bytes) (o : TransactionOutpoint) (L : Ledger)
    (secret : Bytes32) : Prop :=
  ∃ e, L.utxos o = some e ∧ ∀ c : Spend, c.entry = e →
    signaturePushes c.input.signatureScript = some [secret.data, [1], redeem] →
    PaysPayee c p.receiverSpk → verifyInput E c = .ok ()

/-- What the receiver of an output can count on once the secret of the swap was shown. -/
inductive OutputRecoverable (E : Engine) (C : Evm.Contract) (p : HtlcParams) (redeem : Bytes)
    (o : TransactionOutpoint) (s : Ledger × Evm.World) (rest : List (BlockTx ⊕ Evm.Transaction))
    (id secret : Bytes32) : Prop
  /-- A claim has paid the receiver. -/
  | claimed (secret' : Bytes)
      (h : SpentBy (chainsAfter E C rest s).1 o (ClaimSpend E · p redeem secret'))
  /-- The secret opens the output. -/
  | claimable (h : OpensWith E p redeem o (chainsAfter E C rest s).1 secret)
  /-- The secret was on the chain while it opened the output, and no one used it until it was time
  for the refund. -/
  | late (before after : List (BlockTx ⊕ Evm.Transaction)) (hsplit : rest = before ++ after)
      (hshown : Evm.Shown (chainsAfter E C before s).2 id secret)
      (hopens : OpensWith E p redeem o (chainsAfter E C before s).1 secret)
      (b : BlockTx) (hb : .inl b ∈ after) (htime : p.timelock.toNat ≤ b.pastMedianTime.toNat)

section Swap

variable {E : Engine} {C : Evm.Contract} {p : HtlcParams} {redeem : Bytes}
  {o : TransactionOutpoint} {L : Ledger} {id secret : Bytes32} {leg : Leg Bytes Bytes ℕ}

private theorem eq_locked_of_utxo (h : Holds E p redeem o L leg)
    (hlock : (L.utxos o).map UtxoEntry.scriptPublicKey = some (scriptLock E redeem)) :
    leg = .locked p.terms := by
  cases leg with
  | unused => exact absurd hlock h
  | locked terms => rw [h.1]
  | claimed terms s =>
    rw [h.2.1] at hlock
    cases hlock
  | refunded terms =>
    rw [h.2.1] at hlock
    cases hlock

theorem opensWith_of_locked (hbuild : createHtlcScript p = .ok redeem)
    (hsecret : preimageHash E secret.data = p.secretHash)
    (h : Holds E p redeem o L (.locked p.terms)) : OpensWith E p redeem o L secret := by
  obtain ⟨-, e, he, hlock, -⟩ := h
  refine ⟨e, he, ?_⟩
  rintro c rfl hpushes hpays
  exact (verifyInput_htlc hbuild hlock (Kaspa.noCollision_of_pushes [secret.data, [1]] hpushes)).mpr
    (.inl ⟨secret.data, hpushes, hsecret, hpays⟩)

/-- The swap of a contract, with its secrets and hashes as strings. -/
def contractInBytes (E : Engine) (C : Evm.Contract) (hsha256 : C.sha256 = E.sha256)
    (id : Bytes32) : LegChain Evm.World Evm.Transaction Bytes Bytes ℕ :=
  (Evm.contractChain C id).map Bytes32.data Bytes32.data (preimageHash E) fun s => by
    rw [preimageHash, ← hsha256]
    rfl

theorem mem_history_inBytes {hsha256 : C.sha256 = E.sha256} {w : Evm.World}
    {txs : List Evm.Transaction} {t : ℕ} :
    (t, .claim secret.data) ∈ (contractInBytes E C hsha256 id).history w txs ↔
      (t, .claim secret) ∈ Evm.history C id txs w := by
  rw [contractInBytes, LegChain.history_map]
  constructor
  · intro h
    obtain ⟨⟨t', m⟩, hm, heq⟩ := List.mem_map.mp h
    cases m with
    | lock terms => cases heq
    | refund => cases heq
    | claim secret' =>
      simp only [Move.map, Prod.mk.injEq, Move.claim.injEq] at heq
      rw [← heq.1, ← Bytes32.ext heq.2]
      exact hm
  · intro h
    exact List.mem_map.mpr ⟨_, h, rfl⟩

theorem outputRecoverable_of_shown {balances : Evm.Address → ℕ}
    {seen rest : List (BlockTx ⊕ Evm.Transaction)} {s : Ledger × Evm.World} {late : ℕ → ℕ}
    (hs : s = chainsAfter E C seen (.empty, Evm.World.deployed balances))
    (hsha256 : C.sha256 = E.sha256) (hbuild : createHtlcScript p = .ok redeem)
    (htimelock : p.timelock.toNat < 2 ^ 63) (hmillis : lockTimeThreshold ≤ p.timelock.toNat)
    (honly : ∀ b, .inl b ∈ seen ++ rest → ShowsOnly E redeem b)
    (hutxo : (s.1.utxos o).map UtxoEntry.scriptPublicKey = some (scriptLock E redeem))
    (hfresh : (s.2.swaps id).initialized = false)
    (hlock : ((chainsAfter E C rest s).2.swaps id).secretHash.data = p.secretHash)
    (hstep : ClocksInStep late rest)
    (hmargin : ∀ t < ((chainsAfter E C rest s).2.swaps id).timelock.toNat,
      late t < p.timelock.toNat)
    (hshown : Evm.Shown (chainsAfter E C rest s).2 id secret) :
    OutputRecoverable E C p redeem o s rest id secret := by
  have hs₁ : s.1 = Runs.final (Ledger.step E) .empty (seen.filterMap Sum.getLeft?) :=
    congrArg Prod.fst hs
  have hs₂ : s.2 = Evm.worldAfter C (seen.filterMap Sum.getRight?) (Evm.World.deployed balances) :=
    congrArg Prod.snd hs
  have hinit : Holds E p redeem o s.1 (.locked p.terms) := by
    have honlySeen : ∀ b ∈ seen.filterMap Sum.getLeft?, ShowsOnly E redeem b := by
      intro b hb
      obtain ⟨x, hx, hleft⟩ := List.mem_filterMap.mp hb
      exact honly b (List.mem_append_left _ (Sum.getLeft?_eq_some_iff.mp hleft ▸ hx))
    have hempty : (scriptChain E p redeem hbuild htimelock o).Holds .empty .unused :=
      holds_empty E p redeem o
    obtain ⟨leg, -, hholds⟩ := LegChain.holds_run _ hempty honlySeen
    have hleg : Holds E p redeem o s.1 leg := hs₁ ▸ hholds
    exact eq_locked_of_utxo hleg hutxo ▸ hleg
  have hcounter : Evm.Accounted s.2 id .unused ∧ Evm.moves id s.2.logs = [] := by
    rw [hs₂] at hfresh ⊢
    exact Evm.accounted_fresh hfresh
  obtain ⟨hsecret, t, hclaim, ht⟩ := Evm.claim_of_shown hcounter.1 hcounter.2 hshown
  have hpreimage : preimageHash E secret.data = p.secretHash := by
    rw [preimageHash, ← hsha256]
    exact (congrArg Bytes32.data hsecret).trans hlock
  have hclock : ∀ b : BlockTx, b.clock p = b.pastMedianTime.toNat :=
    fun b => if_neg (Nat.not_lt.mpr hmillis)
  have hinStep : LegChain.InStep (scriptChain E p redeem hbuild htimelock o)
      (contractInBytes E C hsha256 id) late rest := by
    refine List.Pairwise.imp (fun {x y} hxy b tx hx hy => ?_) hstep
    exact (hclock b).le.trans (hxy b tx hx hy)
  have houtcome := LegChain.outcome_of_claim (fun b hb => honly b (List.mem_append_right _ hb))
    hinit (mem_history_inBytes.mpr hclaim) hinStep (hmargin t ht)
  cases houtcome with
  | claimed secret' h =>
    rw [LegChain.final_both] at h
    exact .claimed secret' h.2.2
  | claimable h =>
    rw [LegChain.final_both] at h
    exact .claimable (opensWith_of_locked hbuild hpreimage h)
  | late before after hsplit hshown hlocked b hb htime =>
    rw [LegChain.final_both] at hlocked
    obtain ⟨t', hshown⟩ := hshown
    exact .late before after hsplit (Evm.shown_of_claim (mem_history_inBytes.mp hshown))
      (opensWith_of_locked hbuild hpreimage hlocked) b hb (htime.trans (hclock b).le)

/-- Whoever claims the swap of the contract that a provider has locked leaves it the output of the
script: it is claimed for the provider, or the secret that was shown opens it, or it did so and no
one used it until it was time for the refund. This holds of every run of both chains in which the
clock of the first one gains no more than one lock time on the other. -/
theorem counter_claim_leaves_output_recoverable (h : Handler) (init c : CommitmentV1)
    (destination : ChannelId) (clock : ChainClock) (sourceNow destNow : UInt64)
    (hok : h.buildCounterCommitment id init .kaspaTn10 destination clock = .ok c)
    (hsource : clock.nowChecked .kaspaTn10 = some sourceNow)
    (hdest : clock.nowChecked destination = some destNow)
    (E : Engine) (sender receiver : Kaspa.Address) (redeem : Bytes)
    (hbuild : createHtlcScript (Kaspa.htlcParams sender receiver init) = .ok redeem)
    (hmillis : lockTimeThreshold ≤ init.unlockTs.toNat * 1000)
    (htimelock : init.unlockTs.toNat * 1000 < 2 ^ 63)
    (C : Evm.Contract) (hsha256 : C.sha256 = E.sha256) (balances : Evm.Address → ℕ)
    (seen rest : List (BlockTx ⊕ Evm.Transaction))
    (honly : ∀ b, .inl b ∈ seen ++ rest → ShowsOnly E redeem b)
    (s : Ledger × Evm.World) (hs : s = chainsAfter E C seen (.empty, Evm.World.deployed balances))
    (o : TransactionOutpoint)
    (hutxo : (s.1.utxos o).map UtxoEntry.scriptPublicKey = some (scriptLock E redeem))
    (hfresh : (s.2.swaps id).initialized = false)
    (hcounter : Evm.Commits c ((chainsAfter E C rest s).2.swaps id))
    (hclocks : ClocksInStep
      (fun t => (sourceNow.toNat + destination.lockTimeSecs + t - destNow.toNat) * 1000) rest)
    (secret : Bytes32) (hshown : Evm.Shown (chainsAfter E C rest s).2 id secret) :
    OutputRecoverable E C (Kaspa.htlcParams sender receiver init) redeem o s rest id secret := by
  obtain ⟨hsecretHash, hcounterUnlock, hlocked⟩ := Handler.counter_of_init hok hsource hdest
  have hunlock : (Kaspa.htlcParams sender receiver init).timelock.toNat =
      init.unlockTs.toNat * 1000 := Kaspa.toNat_saturatingMul_thousand htimelock
  refine outputRecoverable_of_shown hs hsha256 hbuild ?_ ?_ honly hutxo hfresh ?_ hclocks ?_ hshown
  · exact lt_of_eq_of_lt hunlock htimelock
  · exact le_of_le_of_eq hmillis hunlock.symm
  · rw [hcounter.secretHash, hsecretHash]
    rfl
  · intro t ht
    have hpos : 0 < destination.lockTimeSecs := by
      cases destination <;> decide
    rw [hcounter.unlockTs] at ht
    rw [hunlock]
    have hlate : sourceNow.toNat + destination.lockTimeSecs + t - destNow.toNat <
        init.unlockTs.toNat := by
      omega
    exact Nat.mul_lt_mul_of_pos_right hlate (by norm_num)

end Swap

def swapAddress (key : UInt8) : Kaspa.Address := ⟨.testnet, .pubKey, List.replicate 32 key, rfl⟩

def outputInit : CommitmentV1 :=
  ⟨.filled 3, ⟨"kaspatest:sender", "kaspatest:receiver",
    "0x1111111111111111111111111111111111111111"⟩, ⟨"2000", 8⟩, sampleSecretHash, 1700005000, 0, 1⟩

def outputRedeem : Bytes :=
  serialize (opcodes (htlcCalls (Kaspa.htlcParams (swapAddress 1) (swapAddress 2) outputInit)))

def outputRedeemHash : Bytes32 :=
  ⟨[123, 236, 252, 49, 38, 245, 69, 216, 14, 216, 127, 253, 37, 150, 243, 14, 94, 227, 238, 144, 36,
    106, 52, 84, 112, 127, 210, 12, 93, 94, 142, 10], rfl⟩

def outputEngine : Engine :=
  { sampleEngine with blake2b := fun b => if b = outputRedeem then outputRedeemHash else default }

def outputHandler : Handler :=
  { Evm.bridgeHandler with
    addressLookupTable := fun _ => some "0x2222222222222222222222222222222222222222" }

def outputClock : ChainClock :=
  ⟨fun c => if c = .kaspaTn10 then some 1700000000 else some 1700000100, 1700000100⟩

def outputContract : Evm.Contract :=
  ⟨0x9999999999999999999999999999999999999999, outputEngine.sha256⟩

def outputSeen : List (BlockTx ⊕ Evm.Transaction) :=
  [.inl ⟨.filled 9, ⟨[], [⟨100000000, ⟨0, payToScriptHashScript outputRedeemHash⟩⟩], 0⟩, 100,
    1700000000000⟩]

/-- The provider locks the other leg, and the taker claims it. -/
def outputRest : List (BlockTx ⊕ Evm.Transaction) :=
  [.inr (Evm.plainTx 1700000110 0x2222222222222222222222222222222222222222
    (.newSwap 2000 0x2222222222222222222222222222222222222222
      0x1111111111111111111111111111111111111111 [0x62] sampleSecretHash 1700001000 0
      (.filled 3))),
    .inr (Evm.plainTx 1700000200 0x1111111111111111111111111111111111111111
      (.claim (.filled 3) (.filled 7)))]

def outputChains : Ledger × Evm.World :=
  chainsAfter outputEngine outputContract outputSeen
    (.empty, Evm.World.deployed fun _ => 1000000)

theorem output_claim_sample :
    OutputRecoverable outputEngine outputContract
      (Kaspa.htlcParams (swapAddress 1) (swapAddress 2) outputInit) outputRedeem ⟨.filled 9, 0⟩
      outputChains outputRest (.filled 3) (.filled 7) := by
  have honly : ∀ b, .inl b ∈ outputSeen ++ outputRest → ShowsOnly outputEngine outputRedeem b := by
    intro b hb
    simp only [outputSeen, outputRest, List.cons_append, List.nil_append, List.mem_cons,
      Sum.inl.injEq, List.not_mem_nil, reduceCtorEq, or_false] at hb
    rw [hb]
    intro input hinput
    cases hinput
  refine counter_claim_leaves_output_recoverable outputHandler outputInit _ .ethereumSepolia
    outputClock 1700000000 1700000100 rfl rfl rfl outputEngine (swapAddress 1)
    (swapAddress 2) outputRedeem (by decide +kernel) (by decide) (by decide) outputContract rfl
    (fun _ => 1000000) outputSeen outputRest honly outputChains rfl ⟨.filled 9, 0⟩ ?_ ?_ ?_ ?_
    (.filled 7) ?_
  · decide +kernel
  · decide +kernel
  · exact ⟨by decide +kernel, by decide +kernel⟩
  · simp [ClocksInStep, outputRest]
  · exact ⟨⟨.filled 3, .filled 7, 0x1111111111111111111111111111111111111111, 1998, 2⟩,
      by decide +kernel, rfl, rfl⟩

end Stroemnet.Htlc
