import Stroemnet.TwoChains
import Stroemnet.OwnSpends

/-! # The outputs of a script as hash timelocks

On a chain of outputs nothing keeps a record of a swap: there is an output that is locked by the
script of the swap, until some transaction spends it. Which of the branches it went through can be
told from the signature script. Whatever transactions there are, the fate of such an output is the
history of a hash timelock, one whose claims never close. -/
namespace Stroemnet.Htlc
open Script
open HashTimelocks (Terms Leg Move LegChain)

/-- A transaction of a block, with its identifier and the clocks of the block. -/
structure BlockTx where
  id : Bytes32
  tx : Transaction
  daaScore : UInt64
  pastMedianTime : UInt64

def outputEntry (out : TransactionOutput) : UtxoEntry := ⟨out.value, out.scriptPublicKey⟩

/-- The outputs that are not spent, and the transactions so far. -/
structure Ledger where
  utxos : TransactionOutpoint → Option UtxoEntry
  included : List BlockTx

namespace Ledger

def empty : Ledger := ⟨fun _ => none, []⟩

def populate (L : Ledger) (tx : Transaction) : PopulatedTransaction :=
  { tx with
    entries := tx.inputs.map fun input => (L.utxos input.previousOutpoint).getD ⟨0, ⟨0, []⟩⟩
    populated := List.length_map _ }

/-- Of the rules of the chain, those that the fate of an output rests on. -/
structure Admits (E : Engine) (L : Ledger) (b : BlockTx) : Prop where
  fresh : ∀ b' ∈ L.included, b'.id ≠ b.id
  unspent : ∀ input ∈ b.tx.inputs, (L.utxos input.previousOutpoint).isSome
  distinct : (Kaspa.outpoints b.tx).Nodup
  verified : ∀ i, verifyInput E ⟨L.populate b.tx, i⟩ = .ok ()
  final : Kaspa.IsFinal b.tx b.daaScore b.pastMedianTime

instance (tx : Transaction) (daaScore pastMedianTime : UInt64) :
    Decidable (Kaspa.IsFinal tx daaScore pastMedianTime) :=
  inferInstanceAs (Decidable (_ ∨ _ ∨ ∀ input ∈ tx.inputs, _))

private theorem admits_iff {E : Engine} {L : Ledger} {b : BlockTx} :
    ((∀ b' ∈ L.included, b'.id ≠ b.id) ∧
        (∀ input ∈ b.tx.inputs, (L.utxos input.previousOutpoint).isSome) ∧
        (Kaspa.outpoints b.tx).Nodup ∧ (∀ i, verifyInput E ⟨L.populate b.tx, i⟩ = .ok ()) ∧
        Kaspa.IsFinal b.tx b.daaScore b.pastMedianTime) ↔ L.Admits E b := by
  constructor
  · rintro ⟨hfresh, hunspent, hdistinct, hverified, hfinal⟩
    exact ⟨hfresh, hunspent, hdistinct, hverified, hfinal⟩
  · intro h
    exact ⟨h.fresh, h.unspent, h.distinct, h.verified, h.final⟩

instance (E : Engine) (L : Ledger) (b : BlockTx) : Decidable (L.Admits E b) :=
  decidable_of_iff _ admits_iff

/-- The outputs after a transaction: its own ones are new, those that it spends are gone. -/
def after (L : Ledger) (b : BlockTx) : Ledger where
  utxos o :=
    if o.transactionId = b.id then (b.tx.outputs[o.index]?).map outputEntry
    else if o ∈ Kaspa.outpoints b.tx then none
    else L.utxos o
  included := L.included ++ [b]

/-- A transaction that breaks a rule leaves no trace. -/
def step (E : Engine) (L : Ledger) (b : BlockTx) : Ledger := if L.Admits E b then L.after b else L

end Ledger

def scriptLock (E : Engine) (redeem : Bytes) : ScriptPublicKey :=
  ⟨0, payToScriptHashScript (E.blake2b redeem)⟩

def HtlcParams.terms (p : HtlcParams) : Terms Bytes ℕ := ⟨p.secretHash, ⊤, p.timelock.toNat⟩

def preimageHash (E : Engine) (s : Bytes) : Bytes := (E.sha256 s).data

def BlockTx.clock (p : HtlcParams) (b : BlockTx) : ℕ :=
  if p.timelock.toNat < lockTimeThreshold then b.daaScore.toNat else b.pastMedianTime.toNat

/-- The secret that a signature script shows for a script. -/
def shownSecret (redeem sig : Bytes) : Option Bytes :=
  match signaturePushes sig with
  | some [s, choice, r] => if choice = [1] ∧ r = redeem then some s else none
  | _ => none

/-- The branch that a signature script goes through. -/
def spendMove (redeem sig : Bytes) : Move Bytes Bytes ℕ :=
  match shownSecret redeem sig with
  | some s => .claim s
  | none => .refund

def movesOf (E : Engine) (p : HtlcParams) (redeem : Bytes) (o : TransactionOutpoint) (L : Ledger)
    (b : BlockTx) : List (Move Bytes Bytes ℕ) :=
  if L.Admits E b then
    if o.transactionId = b.id then
      if (b.tx.outputs[o.index]?).map TransactionOutput.scriptPublicKey =
        some (scriptLock E redeem) then [.lock p.terms]
      else []
    else if (L.utxos o).map UtxoEntry.scriptPublicKey = some (scriptLock E redeem) then
      match b.tx.inputs.find? (fun input => input.previousOutpoint = o) with
      | some input => [spendMove redeem input.signatureScript]
      | none => []
    else []
  else []

/-- The history of an output, each move at the time of its block. -/
def scriptHistory (E : Engine) (p : HtlcParams) (redeem : Bytes) (o : TransactionOutpoint)
    (L : Ledger) (blocks : List BlockTx) : List (ℕ × Move Bytes Bytes ℕ) :=
  Runs.outputs (Ledger.step E) (fun L b => (movesOf E p redeem o L b).map (Prod.mk (b.clock p))) L
    blocks

def Made (L : Ledger) (o : TransactionOutpoint) (e : UtxoEntry) : Prop :=
  ∃ b ∈ L.included, o.transactionId = b.id ∧
    (b.tx.outputs[o.index]?).map outputEntry = some e

/-- The output was spent by a transaction of the chain, in a certain way. -/
def SpentBy (L : Ledger) (o : TransactionOutpoint) (P : Spend → Prop) : Prop :=
  ∃ b ∈ L.included, ∃ c : Spend, c.tx.toTransaction = b.tx ∧ c.input.previousOutpoint = o ∧
    Made L o c.entry ∧ P c

/-- What the chain holds of an output whose leg has come to a point. -/
def Holds (E : Engine) (p : HtlcParams) (redeem : Bytes) (o : TransactionOutpoint) (L : Ledger) :
    Leg Bytes Bytes ℕ → Prop
  | .unused => (L.utxos o).map UtxoEntry.scriptPublicKey ≠ some (scriptLock E redeem)
  | .locked terms => terms = p.terms ∧
      ∃ e, L.utxos o = some e ∧ e.scriptPublicKey = scriptLock E redeem ∧ Made L o e
  | .claimed terms s => terms = p.terms ∧ L.utxos o = none ∧
      SpentBy L o (ClaimSpend E · p redeem s)
  | .refunded terms => terms = p.terms ∧ L.utxos o = none ∧ SpentBy L o (TimedRefund · p redeem)

section Steps

variable {E : Engine} {p : HtlcParams} {redeem : Bytes} {o : TransactionOutpoint} {L : Ledger}
  {b : BlockTx} {e : UtxoEntry} {P : Spend → Prop} {leg : Leg Bytes Bytes ℕ}

theorem Made.after (h : Made L o e) (b : BlockTx) : Made (L.after b) o e := by
  obtain ⟨b', hb', hmade⟩ := h
  exact ⟨b', List.mem_append_left _ hb', hmade⟩

theorem SpentBy.after (h : SpentBy L o P) (b : BlockTx) : SpentBy (L.after b) o P := by
  obtain ⟨b', hb', c, htx, hinput, hmade, hc⟩ := h
  exact ⟨b', List.mem_append_left _ hb', c, htx, hinput, hmade.after b, hc⟩

theorem Made.ne_id (h : Made L o e) (hadmits : L.Admits E b) : o.transactionId ≠ b.id := by
  obtain ⟨b', hb', hid, -⟩ := h
  exact hid ▸ hadmits.fresh b' hb'

theorem SpentBy.ne_id (h : SpentBy L o P) (hadmits : L.Admits E b) : o.transactionId ≠ b.id := by
  obtain ⟨_, _, _, _, _, hmade, _⟩ := h
  exact hmade.ne_id hadmits

theorem utxos_after_of_ne (hid : o.transactionId ≠ b.id) (ho : o ∉ Kaspa.outpoints b.tx) :
    (L.after b).utxos o = L.utxos o := (if_neg hid).trans (if_neg ho)

theorem utxos_after_spent (hid : o.transactionId ≠ b.id) (ho : o ∈ Kaspa.outpoints b.tx) :
    (L.after b).utxos o = none := (if_neg hid).trans (if_pos ho)

theorem utxos_after_none (hid : o.transactionId ≠ b.id) (ho : L.utxos o = none) :
    (L.after b).utxos o = none := by
  by_cases hspent : o ∈ Kaspa.outpoints b.tx
  · exact utxos_after_spent hid hspent
  · rw [utxos_after_of_ne hid hspent, ho]

theorem Holds.after_settled (h : Holds E p redeem o L leg) (hadmits : L.Admits E b)
    (hsettled : leg ≠ .unused ∧ ∀ terms, leg ≠ .locked terms) :
    o.transactionId ≠ b.id ∧ L.utxos o = none ∧ Holds E p redeem o (L.after b) leg := by
  cases leg with
  | unused => exact absurd rfl hsettled.1
  | locked terms => exact absurd rfl (hsettled.2 terms)
  | claimed terms s =>
    obtain ⟨hterms, hnone, hspent⟩ := h
    have hid := hspent.ne_id hadmits
    exact ⟨hid, hnone, hterms, utxos_after_none hid hnone, hspent.after b⟩
  | refunded terms =>
    obtain ⟨hterms, hnone, hspent⟩ := h
    have hid := hspent.ne_id hadmits
    exact ⟨hid, hnone, hterms, utxos_after_none hid hnone, hspent.after b⟩

private theorem exists_spend {input : TransactionInput} (hadmits : L.Admits E b)
    (hinput : input ∈ b.tx.inputs) (he : L.utxos input.previousOutpoint = some e) :
    ∃ c : Spend, c.tx.toTransaction = b.tx ∧ c.input = input ∧ c.entry = e ∧
      verifyInput E c = .ok () := by
  obtain ⟨i, hi⟩ := List.mem_iff_get.mp hinput
  refine ⟨⟨L.populate b.tx, i⟩, rfl, hi, ?_, hadmits.verified i⟩
  have hentry : (⟨L.populate b.tx, i⟩ : Spend).entry =
      (L.utxos (b.tx.inputs.get i).previousOutpoint).getD ⟨0, ⟨0, []⟩⟩ := by
    simp only [Spend.entry, Ledger.populate, List.get_eq_getElem, List.getElem_map]
    rfl
  rw [hentry, hi, he, Option.getD_some]

private theorem spendMove_claim {sig s : Bytes} (h : signaturePushes sig = some [s, [1], redeem]) :
    spendMove redeem sig = .claim s := by
  simp [spendMove, shownSecret, h]

private theorem spendMove_refund {sig : Bytes} (h : signaturePushes sig = some [[], redeem]) :
    spendMove redeem sig = .refund := by
  simp [spendMove, shownSecret, h]

private theorem timelock_le_clock {c : Spend} (hc : TimedRefund c p redeem)
    (htx : c.tx.toTransaction = b.tx) (hfinal : Kaspa.IsFinal b.tx b.daaScore b.pastMedianTime) :
    p.timelock.toNat ≤ b.clock p := by
  have hreached := hc.reached
  have hside := hc.sameSide
  rw [htx] at hreached hside
  rcases hfinal with hzero | hpassed | hall
  · rw [hzero] at hreached
    exact hreached.trans (Nat.zero_le _)
  · unfold BlockTx.clock
    split_ifs at hpassed ⊢ with htime hlock hlock
    · exact hreached.trans (UInt64.lt_iff_toNat_lt.mp hpassed).le
    · exact absurd (hside.mpr htime) hlock
    · exact absurd (hside.mp hlock) htime
    · exact hreached.trans (UInt64.lt_iff_toNat_lt.mp hpassed).le
  · exact absurd (hall c.input (htx ▸ List.get_mem _ _)) hc.notFinal

/-- No other script that a transaction shows has the digest of the script. -/
def ShowsOnly (E : Engine) (redeem : Bytes) (b : BlockTx) : Prop :=
  ∀ input ∈ b.tx.inputs, ∀ l r, signaturePushes input.signatureScript = some (l ++ [r]) →
    E.blake2b r = E.blake2b redeem → r = redeem

variable (hbuild : createHtlcScript p = .ok redeem) (htimelock : p.timelock.toNat < 2 ^ 63)
include hbuild htimelock

/-- A spend of an output of the script is a claim or a refund. -/
theorem spend_cases {c : Spend} (hverify : verifyInput E c = .ok ())
    (hlock : c.entry.scriptPublicKey = scriptLock E redeem)
    (honly : NoCollision E c redeem) :
    (∃ s, ClaimSpend E c p redeem s) ∨ TimedRefund c p redeem := by
  rcases (verifyInput_htlc hbuild hlock honly).mp hverify with hclaim | ⟨hpushes, hlocktime, hpays⟩
  · exact .inl hclaim
  · obtain ⟨hside, hreached, hfinal⟩ := (lockTimeReached_timelock htimelock).mp hlocktime
    exact .inr ⟨hpushes, hreached, hside, hfinal, hpays⟩

/-- A transaction that spends an output of the script moves its leg. -/
theorem Holds.after_spend {input : TransactionInput} (hadmits : L.Admits E b)
    (honly : ShowsOnly E redeem b) (hinput : input ∈ b.tx.inputs)
    (he : L.utxos input.previousOutpoint = some e) (hlock : e.scriptPublicKey = scriptLock E redeem)
    (hmade : Made L input.previousOutpoint e) :
    ∃ leg', (Leg.locked p.terms).move (preimageHash E) (b.clock p)
        (spendMove redeem input.signatureScript) = some leg' ∧
      Holds E p redeem input.previousOutpoint (L.after b) leg' := by
  obtain ⟨c, htx, rfl, rfl, hverify⟩ := exists_spend hadmits hinput he
  have hid := hmade.ne_id hadmits
  have hnone : (L.after b).utxos c.input.previousOutpoint = none :=
    utxos_after_spent hid (List.mem_map_of_mem hinput)
  have hspent : ∀ P : Spend → Prop, P c → SpentBy (L.after b) c.input.previousOutpoint P :=
    fun P hP => ⟨b, by simp [Ledger.after], c, htx, rfl, hmade.after b, hP⟩
  have hcollision : NoCollision E c redeem := honly c.input hinput
  rcases spend_cases hbuild htimelock hverify hlock hcollision with ⟨s, hclaim⟩ | hrefund
  · refine ⟨.claimed p.terms s, ?_, rfl, hnone, hspent _ hclaim⟩
    rw [spendMove_claim hclaim.pushes]
    exact HashTimelocks.move_claim hclaim.preimage (WithTop.coe_lt_top _)
  · refine ⟨.refunded p.terms, ?_, rfl, hnone, hspent _ hrefund⟩
    rw [spendMove_refund hrefund.pushes]
    exact HashTimelocks.move_refund (timelock_le_clock hrefund htx hadmits.final)

/-- Every transaction moves the leg of every output as the hash timelock allows. -/
theorem Holds.step (h : Holds E p redeem o L leg) (honly : ShowsOnly E redeem b) :
    ∃ leg', leg.play (preimageHash E) ((movesOf E p redeem o L b).map (Prod.mk (b.clock p))) =
        some leg' ∧ Holds E p redeem o (L.step E b) leg' := by
  unfold Ledger.step movesOf
  by_cases hadmits : L.Admits E b
  · rw [if_pos hadmits, if_pos hadmits]
    cases leg with
    | unused =>
      by_cases hid : o.transactionId = b.id
      · have hnew : (L.after b).utxos o = (b.tx.outputs[o.index]?).map outputEntry :=
          if_pos hid
        rw [if_pos hid]
        by_cases hlock : (b.tx.outputs[o.index]?).map TransactionOutput.scriptPublicKey =
          some (scriptLock E redeem)
        · rw [if_pos hlock]
          obtain ⟨out, hout, hspk⟩ := Option.map_eq_some_iff.mp hlock
          refine ⟨.locked p.terms, ?_, rfl, outputEntry out, ?_, hspk, b, by simp [Ledger.after],
            hid, ?_⟩
          · exact HashTimelocks.play_cons_eq_some.mpr
              ⟨_, HashTimelocks.move_lock (WithTop.coe_lt_top _), rfl⟩
          · rw [hnew, hout, Option.map_some]
          · rw [hout, Option.map_some]
        · rw [if_neg hlock]
          refine ⟨.unused, rfl, ?_⟩
          rw [Holds, hnew, Option.map_map]
          exact hlock
      · rw [if_neg hid, if_neg h]
        refine ⟨.unused, rfl, ?_⟩
        by_cases hspent : o ∈ Kaspa.outpoints b.tx
        · rw [Holds, utxos_after_spent hid hspent]
          simp
        · rw [Holds, utxos_after_of_ne hid hspent]
          exact h
    | locked terms =>
      obtain ⟨rfl, e, he, hlock, hmade⟩ := h
      have hid := hmade.ne_id hadmits
      have hutxo : (L.utxos o).map UtxoEntry.scriptPublicKey = some (scriptLock E redeem) := by
        rw [he, Option.map_some, hlock]
      rw [if_neg hid, if_pos hutxo]
      cases hfind : b.tx.inputs.find? (fun input => input.previousOutpoint = o) with
      | none =>
        refine ⟨.locked p.terms, rfl, rfl, e, ?_, hlock, hmade.after b⟩
        have hspent : o ∉ Kaspa.outpoints b.tx := by
          intro ho
          obtain ⟨input, hinput, hprev⟩ := List.mem_map.mp ho
          exact List.find?_eq_none.mp hfind input hinput (decide_eq_true hprev)
        rw [utxos_after_of_ne hid hspent, he]
      | some input =>
        obtain rfl : input.previousOutpoint = o := by simpa using List.find?_some hfind
        obtain ⟨leg', hmove, hholds⟩ := Holds.after_spend hbuild htimelock hadmits honly
          (List.mem_of_find?_eq_some hfind) he hlock hmade
        exact ⟨leg', HashTimelocks.play_cons_eq_some.mpr ⟨leg', hmove, rfl⟩, hholds⟩
    | claimed terms s =>
      obtain ⟨hid, hnone, hafter⟩ := h.after_settled hadmits (by simp)
      rw [if_neg hid, if_neg (by simp [hnone])]
      exact ⟨_, rfl, hafter⟩
    | refunded terms =>
      obtain ⟨hid, hnone, hafter⟩ := h.after_settled hadmits (by simp)
      rw [if_neg hid, if_neg (by simp [hnone])]
      exact ⟨_, rfl, hafter⟩
  · rw [if_neg hadmits, if_neg hadmits]
    exact ⟨leg, rfl, h⟩

end Steps

def scriptChain (E : Engine) (p : HtlcParams) (redeem : Bytes)
    (hbuild : createHtlcScript p = .ok redeem) (htimelock : p.timelock.toNat < 2 ^ 63)
    (o : TransactionOutpoint) : LegChain Ledger BlockTx Bytes Bytes ℕ where
  step := Ledger.step E
  clock := BlockTx.clock p
  moves := movesOf E p redeem o
  hash := preimageHash E
  Holds := Holds E p redeem o
  Sane := ShowsOnly E redeem
  holds_step h honly := Holds.step hbuild htimelock h honly

theorem holds_empty (E : Engine) (p : HtlcParams) (redeem : Bytes) (o : TransactionOutpoint) :
    Holds E p redeem o .empty .unused := by
  simp [Holds, Ledger.empty]

/-- Whatever transactions come into the blocks of the chain, the fate of every output of the script
is a history that its hash timelock allows, and the chain holds and has paid what the leg at the end
of that history says. -/
theorem script_outputs_refine_hash_timelocks (E : Engine) (p : HtlcParams) (redeem : Bytes)
    (hbuild : createHtlcScript p = .ok redeem) (htimelock : p.timelock.toNat < 2 ^ 63)
    (blocks : List BlockTx) (honly : ∀ b ∈ blocks, ShowsOnly E redeem b)
    (o : TransactionOutpoint) :
    ∃ leg, Leg.unused.play (preimageHash E) (scriptHistory E p redeem o .empty blocks) = some leg ∧
      Holds E p redeem o (Runs.final (Ledger.step E) .empty blocks) leg := by
  have hempty : (scriptChain E p redeem hbuild htimelock o).Holds .empty .unused :=
    holds_empty E p redeem o
  exact LegChain.holds_run _ hempty honly

/-- The sample engine, for outputs of a key that are spent with a valid signature. -/
def ledgerEngine : Engine :=
  { sampleEngine with
    other := fun _ _ vm =>
      match vm.stack with
      | _ :: _ :: st => .ok { vm with stack := [1] :: st }
      | _ => .error .emptyStack }

def ledgerDeposit : BlockTx where
  id := .filled 9
  tx := ⟨[], [⟨100000000, ⟨0, payToScriptHashScript sampleRedeemHash⟩⟩], 0⟩
  daaScore := 100
  pastMedianTime := 1000

def ledgerFunding : BlockTx where
  id := .filled 8
  tx := ⟨[], [⟨1, payToPubKey 5⟩, ⟨1000000, payToPubKey 5⟩], 0⟩
  daaScore := 101
  pastMedianTime := 1001

/-- The claim of the sample swap, signed for the output that pays the fee. -/
def ledgerClaim : BlockTx where
  id := .filled 10
  tx :=
    { sampleClaim.tx.toTransaction with
      inputs := [⟨⟨.filled 9, 0⟩, sampleClaim.input.signatureScript, 0⟩,
        ⟨⟨.filled 8, 1⟩, serialize [canonicalPush (List.replicate 65 3)], 0⟩] }
  daaScore := 102
  pastMedianTime := 1002

def ledgerBlocks : List BlockTx := [ledgerDeposit, ledgerFunding, ledgerClaim]

private theorem ledger_facts :
    scriptHistory ledgerEngine sampleParams sampleRedeem ⟨.filled 9, 0⟩ .empty ledgerBlocks =
        [(100, .lock sampleParams.terms), (102, .claim sampleSecret)] ∧
      createHtlcScript sampleParams = .ok sampleRedeem := by
  decide +kernel

theorem script_output_claimed :
    Holds ledgerEngine sampleParams sampleRedeem ⟨.filled 9, 0⟩
      (Runs.final (Ledger.step ledgerEngine) .empty ledgerBlocks)
      (.claimed sampleParams.terms sampleSecret) := by
  obtain ⟨hhistory, hbuild⟩ := ledger_facts
  have honly : ∀ b ∈ ledgerBlocks, ShowsOnly ledgerEngine sampleRedeem b := by
    intro _ _ _ _ _ r _ hdigest
    by_contra hne
    simp only [ledgerEngine, sampleEngine, if_neg hne, if_true] at hdigest
    exact absurd hdigest (by decide)
  obtain ⟨leg, hplay, hholds⟩ := script_outputs_refine_hash_timelocks ledgerEngine sampleParams
    sampleRedeem hbuild (by decide) ledgerBlocks honly ⟨.filled 9, 0⟩
  rw [hhistory] at hplay
  have hleg : Leg.unused.play (preimageHash ledgerEngine)
      [(100, .lock sampleParams.terms), (102, .claim sampleSecret)] =
        some (.claimed sampleParams.terms sampleSecret) := by decide +kernel
  rw [hleg, Option.some.injEq] at hplay
  exact hplay ▸ hholds

end Stroemnet.Htlc
