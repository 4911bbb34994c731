import Stroemnet.KaspaIntake
import Stroemnet.OwnHtlcRefund

/-! # Which transactions events come from

The channel reads its events off whole blocks. They come from accepted transactions, and a
revealed secret has satisfied its script, as long as every transaction that pays or shows a
watched script was accepted and spends the scripts it shows. -/
namespace Stroemnet.Kaspa
open Script Htlc

/-- What the consensus of the chain has decided: the accepted transactions with the outputs
they spent. Their scripts were verified and no output is spent twice. -/
structure Ledger (cfg : Config) where
  engine : Engine
  blake2b : engine.blake2b = cfg.blake2b
  accepted : List PopulatedTransaction
  verified : ∀ tx ∈ accepted, ∀ i, verifyInput engine ⟨tx, i⟩ = .ok ()
  spentOnce : (accepted.flatMap fun tx => tx.inputs.map (·.previousOutpoint)).Nodup

section Scan

variable (cfg : Config) (scripts : WatchedScripts)

def paidScript (output : TransactionOutput) : Option UtxoScript :=
  match extractScriptPubKeyAddress output.scriptPublicKey cfg.network with
  | .ok a => scripts (cfg.codec.toString a)
  | .error _ => none

def shownScript (input : TransactionInput) : Option UtxoScript :=
  ((lastRedeem input.signatureScript).bind (deriveP2shAddr cfg)).bind scripts

def Touches (tx : Transaction) : Prop :=
  (∃ output ∈ tx.outputs, (paidScript cfg scripts output).isSome) ∨
    ∃ input ∈ tx.inputs, (shownScript cfg scripts input).isSome

inductive Yields (tx : Transaction) : ChainEvent → Prop
  | commitment {output : TransactionOutput} {s : UtxoScript} {ops : List Opcode} {c : CommitmentV1}
      {target : ℕ} (houtput : output ∈ tx.outputs) (hpaid : paidScript cfg scripts output = some s)
      (hparse : parseOpcodes s.redeemScript = .ok ops)
      (hread : extractCommitment cfg.codec ops s.depositTarget cfg.network cfg.channelId = .ok c)
      (htarget : depositTargetValid s.depositTarget = some target)
      (hvalue : target ≤ output.value.toNat) : Yields tx (.commitment c)
  | spend {input : TransactionInput} {s : UtxoScript} {e : ChainEvent} {closed : Bool}
      (hinput : input ∈ tx.inputs) (hshown : shownScript cfg scripts input = some s)
      (hspend : classifySpend cfg input.signatureScript s = .ok (some e, closed)) : Yields tx e

end Scan

section Scanned

variable {cfg : Config} {scripts scripts' : WatchedScripts}

private theorem paidScript_mono (hsub : ∀ addr s, scripts' addr = some s → scripts addr = some s)
    {output : TransactionOutput} {s : UtxoScript} (h : paidScript cfg scripts' output = some s) :
    paidScript cfg scripts output = some s := by
  unfold paidScript at h ⊢
  split at h
  · exact hsub _ _ h
  · cases h

private theorem shownScript_mono (hsub : ∀ addr s, scripts' addr = some s → scripts addr = some s)
    {input : TransactionInput} {s : UtxoScript} (h : shownScript cfg scripts' input = some s) :
    shownScript cfg scripts input = some s := by
  unfold shownScript at h ⊢
  obtain ⟨addr, haddr, hs⟩ := Option.bind_eq_some_iff.mp h
  exact Option.bind_eq_some_iff.mpr ⟨addr, haddr, hsub addr s hs⟩

theorem Yields.mono (hsub : ∀ addr s, scripts' addr = some s → scripts addr = some s)
    {tx : Transaction} {e : ChainEvent} (h : Yields cfg scripts' tx e) :
    Yields cfg scripts tx e := by
  cases h with
  | commitment houtput hpaid hparse hread htarget hvalue =>
    exact .commitment houtput (paidScript_mono hsub hpaid) hparse hread htarget hvalue
  | spend hinput hshown hspend => exact .spend hinput (shownScript_mono hsub hshown) hspend

private theorem scanOutput_yields {output : TransactionOutput} {found : BlockOutcomes}
    (h : scanOutput cfg scripts output = .ok found) {tx : Transaction}
    (houtput : output ∈ tx.outputs) : ∀ e ∈ found.events, Yields cfg scripts tx e := by
  unfold scanOutput at h
  split at h
  · cases h
    simp
  · rename_i address haddress
    split at h
    · cases h
      simp
    · rename_i s hs
      obtain ⟨ops, hops, h⟩ := bind_eq_ok.mp h
      split at h
      · cases h
        simp
      · rename_i c hc
        split at h
        · cases h
          simp
        · rename_i target htarget
          cases h
          intro e he
          simp only at he
          split_ifs at he with hvalue
          · obtain rfl := List.mem_singleton.mp he
            exact .commitment houtput (by simp only [paidScript, haddress, hs]) hops hc htarget
              hvalue
          · cases he

/-- A scan only forgets scripts, whether it goes through or not. -/
theorem handleTransactions_scripts (txs : List Transaction) (acc : BlockOutcomes) {addr : String}
    {s : UtxoScript} (h : (handleTransactions cfg txs scripts acc).2 addr = some s) :
    scripts addr = some s := by
  induction txs generalizing scripts acc with
  | nil => exact h
  | cons tx txs ih =>
    unfold handleTransactions at h
    split at h
    · exact h
    · exact scanInputs_scripts (ih _ h)

/-- The events of a scan are among those its transactions can yield. -/
theorem handleTransactions_yields {txs : List Transaction} {acc outcomes : BlockOutcomes}
    (h : handleTransactions cfg txs scripts acc = (.ok outcomes, scripts')) :
    ∀ e ∈ outcomes.events, e ∈ acc.events ∨ ∃ tx ∈ txs, Yields cfg scripts tx e := by
  induction txs generalizing scripts acc with
  | nil =>
    cases h
    exact fun e he => .inl he
  | cons tx txs ih =>
    unfold handleTransactions at h
    split at h
    · cases h
    · rename_i found hfound
      have hclosed : ∀ addr s, (scanInputs cfg scripts tx).2 addr = some s →
          scripts addr = some s := fun _ _ => scanInputs_scripts
      intro e he
      rcases ih h e he with he | ⟨tx', htx', hyields⟩
      · rcases List.mem_append.mp he with he | he
        · rcases List.mem_append.mp he with he | he
          · exact .inl he
          · obtain ⟨all, hall, hok⟩ := bind_eq_ok.mp hfound
            cases hok
            rw [appendOutcomes_events, List.nil_append, List.mem_flatMap] at he
            obtain ⟨o, ho, he⟩ := he
            obtain ⟨output, houtput, hscan⟩ := mem_of_mapM_eq_ok hall ho
            exact .inr ⟨tx, List.mem_cons_self, scanOutput_yields hscan houtput e he⟩
        · obtain ⟨input, hinput, redeem, addr, s, closed, hredeem, haddr, hs, hspend⟩ :=
            scanInputs_events he
          exact .inr ⟨tx, List.mem_cons_self,
            .spend hinput (by simp [shownScript, hredeem, haddr, hs]) hspend⟩
      · exact .inr ⟨tx', List.mem_cons_of_mem _ htx', hyields.mono hclosed⟩

end Scanned

section Polls

variable {cfg : Config} {now : UInt64} {st : State}

theorem utxoScripts_scheduleRefunds (refunds : List (SwapId × UInt64)) (st : State) :
    (refunds.foldl (State.scheduleRefund now) st).utxoScripts = st.utxoScripts := by
  induction refunds generalizing st with
  | nil => rfl
  | cons refund refunds ih =>
    rw [List.foldl_cons, ih]
    unfold State.scheduleRefund
    split <;> rfl

theorem utxoScripts_trackEvents (events : List ChainEvent) (st : State) :
    (events.foldl (State.trackActionableEvent cfg) st).utxoScripts = st.utxoScripts := by
  induction events generalizing st with
  | nil => rfl
  | cons event events ih =>
    rw [List.foldl_cons, ih]
    cases event <;> rfl

/-- The addresses that are watched after a block are those its scan leaves. -/
theorem utxoScripts_processBlock (st : State) (now : UInt64) (block : Block) :
    (st.processBlock cfg now block).2.utxoScripts =
      (handleTransactions cfg block.transactions st.utxoScripts ⟨[], []⟩).2 := by
  unfold State.processBlock handleBlockAdded
  split
  · rename_i hadded
    rw [hadded]
  · rename_i hadded
    simp only [utxoScripts_trackEvents]
    split_ifs
    · rw [utxoScripts_scheduleRefunds, hadded]
    · rw [hadded]

theorem processBlock_scripts (block : Block) :
    ∀ addr s, (st.processBlock cfg now block).2.utxoScripts addr = some s →
      st.utxoScripts addr = some s := by
  intro addr s h
  rw [utxoScripts_processBlock] at h
  exact handleTransactions_scripts _ _ h

private theorem processBlock_yields {block : Block} {found : List ChainEvent} {st' : State}
    (h : st.processBlock cfg now block = (.ok found, st')) :
    ∀ e ∈ found, ∃ tx ∈ block.transactions, Yields cfg st.utxoScripts tx e := by
  unfold State.processBlock at h
  split at h
  · cases h
  · rename_i outcomes scripts hadded
    cases h
    intro e he
    rcases handleTransactions_yields hadded e he with hnil | htx
    · cases hnil
    · exact htx

private theorem processBlocks_scripts (blocks : List Block)
    (events : List (ChannelId × ChainEvent)) :
    ∀ addr s, (State.processBlocks cfg now blocks st events).2.utxoScripts addr = some s →
      st.utxoScripts addr = some s := by
  refine State.processBlocks_induction
    (P := fun st' => ∀ addr s, st'.utxoScripts addr = some s → st.utxoScripts addr = some s)
    (fun st' block hsub addr s h => ?_) (fun st' hsub addr s h => ?_) blocks (fun _ _ h => h) events
  · exact hsub addr s (processBlock_scripts block addr s h)
  · exact hsub addr s (Option.filter_eq_some_iff.mp h).1

/-- The events of a poll are among those the transactions of its blocks can yield. -/
theorem processBlocks_yields {blocks : List Block} {st' : State}
    {events events' : List (ChannelId × ChainEvent)}
    (h : State.processBlocks cfg now blocks st events = (.ok events', st')) :
    ∀ x ∈ events', x ∈ events ∨
      ∃ block ∈ blocks, ∃ tx ∈ block.transactions, Yields cfg st.utxoScripts tx x.2 := by
  induction blocks generalizing st events with
  | nil =>
    cases h
    exact fun x hx => .inl hx
  | cons block blocks ih =>
    have hscripts : ∀ addr s, (st.processBlock cfg now block).2.utxoScripts addr = some s →
      st.utxoScripts addr = some s := processBlock_scripts block
    unfold State.processBlocks at h
    split at h
    · cases h
    · rename_i found st₁ hblock
      rw [hblock] at hscripts
      intro x hx
      rcases ih h x hx with hx | ⟨block', hblock', tx, htx, hyields⟩
      · rcases List.mem_append.mp hx with hx | hx
        · exact .inl hx
        · obtain ⟨e, he, rfl⟩ := List.mem_map.mp hx
          obtain ⟨tx, htx, hyields⟩ := processBlock_yields hblock e he
          exact .inr ⟨block, List.mem_cons_self, tx, htx, hyields⟩
      · exact .inr ⟨block', List.mem_cons_of_mem _ hblock', tx, htx, hyields.mono hscripts⟩

def Keyed (cfg : Config) (scripts : WatchedScripts) : Prop :=
  ∀ addr s, scripts addr = some s → ∃ network,
    addr = cfg.codec.toString (scriptHashAddress network (cfg.blake2b s.redeemScript))

theorem Keyed.mono {scripts scripts' : WatchedScripts} (h : Keyed cfg scripts)
    (hsub : ∀ addr s, scripts' addr = some s → scripts addr = some s) : Keyed cfg scripts' :=
  fun addr s hs => h addr s (hsub addr s hs)

theorem Keyed.update {scripts : WatchedScripts} (h : Keyed cfg scripts) (network : Network)
    (s : UtxoScript) :
    Keyed cfg (Function.update scripts
      (cfg.codec.toString (scriptHashAddress network (cfg.blake2b s.redeemScript))) (some s)) := by
  intro addr s' hs'
  by_cases heq : addr = cfg.codec.toString (scriptHashAddress network (cfg.blake2b s.redeemScript))
  · subst heq
    rw [Function.update_self, Option.some.injEq] at hs'
    subst hs'
    exact ⟨network, rfl⟩
  · rw [Function.update_of_ne heq] at hs'
    exact h addr s' hs'

theorem Keyed.prune (h : Keyed cfg st.utxoScripts) :
    Keyed cfg (st.pruneScripts cfg now).utxoScripts :=
  h.mono fun _ _ hs => (Option.filter_eq_some_iff.mp hs).1

theorem Keyed.registerScript (h : Keyed cfg st.utxoScripts) (address : String) (redeem : Bytes)
    (id : SwapId) (unlockTs : UInt64) (target : String) :
    Keyed cfg (st.registerScript cfg now address redeem id unlockTs target).2.utxoScripts := by
  unfold State.registerScript
  cases hvalid : validateScriptAnnounce cfg.codec cfg.blake2b cfg.networkId cfg.channelId address
      redeem id unlockTs with
  | error e => exact h
  | ok _ =>
    obtain ⟨network, -, -, -, -, -, -, -, haddress⟩ := validateScriptAnnounce_eq_ok hvalid
    obtain rfl := p2shAddress_eq_ok.mp (haddress "")
    exact (h.update network ⟨redeem, unlockTs, target⟩).mono fun _ _ hs =>
      (Option.filter_eq_some_iff.mp hs).1

theorem Keyed.emitEvent (h : Keyed cfg st.utxoScripts) (network : Except KaspaError Network)
    (event : ChainEvent) : Keyed cfg (st.emitEvent cfg now network event).2.utxoScripts := by
  cases event with
  | commitment c =>
    simp only [State.emitEvent]
    split_ifs
    · split
      · exact h
      · rename_i address redeem hsubmit
        obtain ⟨network', -, -, rfl⟩ := submitCommitment_eq_ok hsubmit
        exact h.update network' ⟨redeem, c.unlockTs, c.amount.value⟩
    · exact h
  | reveal r =>
    simp only [State.emitEvent]
    split_ifs <;> exact h
  | refund r => exact h

end Polls

/-- The pushed element that the reader of spends takes for the secret. -/
theorem secret_of_pushes {sig : Bytes} {ops : List Opcode} {secret : Bytes32} {l : List Bytes}
    (hparse : parseScript sig = .ok ops) (hsecret : extractRevealSecret ops = .ok secret)
    (hpushes : signaturePushes sig = some l) : ∃ b r, l = [secret.data, b, r] := by
  obtain ⟨ops', hparse', hops⟩ := signaturePushes_opcodes hpushes
  rw [hparse, Except.ok.injEq] at hparse'
  subst hparse'
  have hwf := (parseScript_sound hparse).1
  unfold extractRevealSecret at hsecret
  split at hsecret
  · rename_i secretOp selectorOp redeemOp
    split_ifs at hsecret with hselector hmissing hredeem
    · split at hsecret <;> cases hsecret
    · split at hsecret
      · cases hsecret
      · rename_i data hdata
        cases hsecret
        rcases hops with _ | ⟨hs, _ | ⟨hb, _ | ⟨hr, _ | _⟩⟩⟩
        rename_i s b r
        have hextract : extractOpcodeData secretOp = secret.data :=
          (Bytes32.ofBytes_eq_some.mp hdata).symm
        have hpushed := pushed_of_extractOpcodeData (hwf secretOp List.mem_cons_self) hs
          (by simp [hextract])
        exact ⟨b, r, by rw [hpushed, hextract]⟩
  · cases hsecret

variable {cfg : Config}

/-- An accepted transaction that spends the watched scripts its inputs show. -/
def Ledger.Backs (L : Ledger cfg) (scripts : WatchedScripts) (tx : Transaction) : Prop :=
  ∃ ptx ∈ L.accepted, ptx.toTransaction = tx ∧ ∀ i s,
    shownScript cfg scripts (Spend.mk ptx i).input = some s →
      LockedBy L.engine ⟨ptx, i⟩ s.redeemScript

/-- How an event comes from a transaction: an output to the script of the commitment that
reaches the target, or an input that spends the script of the swap and was verified. The secret
of a reveal then opens the hash of a script that the builder made. -/
inductive Origin (L : Ledger cfg) (tx : PopulatedTransaction) : ChainEvent → Prop
  | commitment {output : TransactionOutput} {s : UtxoScript} {ops : List Opcode} {c : CommitmentV1}
      {target : ℕ} (houtput : output ∈ tx.outputs)
      (hpays : output.scriptPublicKey =
        ⟨0, payToScriptHashScript (cfg.blake2b s.redeemScript)⟩)
      (hparse : parseOpcodes s.redeemScript = .ok ops)
      (hread : extractCommitment cfg.codec ops s.depositTarget cfg.network cfg.channelId = .ok c)
      (htarget : depositTargetValid s.depositTarget = some target)
      (hvalue : target ≤ output.value.toNat) : Origin L tx (.commitment c)
  | reveal {i : Fin tx.inputs.length} {redeem : Bytes} {ops : List Opcode} {r : RevealV1}
      (hlocked : LockedBy L.engine ⟨tx, i⟩ redeem) (hid : CarriesId redeem r.swapId)
      (hparse : parseScript (Spend.mk tx i).input.signatureScript = .ok ops)
      (hsecret : extractRevealSecret ops = .ok r.secret)
      (hverified : verifyInput L.engine ⟨tx, i⟩ = .ok ())
      (hopens : ∀ p, createHtlcScript p = .ok redeem → NoCollision L.engine ⟨tx, i⟩ redeem →
        (L.engine.sha256 r.secret.data).data = p.secretHash) : Origin L tx (.reveal r)
  | refund {i : Fin tx.inputs.length} {redeem : Bytes} {ops : List Opcode} {r : RefundV1}
      (hlocked : LockedBy L.engine ⟨tx, i⟩ redeem) (hid : CarriesId redeem r.swapId)
      (hparse : parseScript (Spend.mk tx i).input.signatureScript = .ok ops)
      (hbranch : validateRefundSig ops = .ok ())
      (hverified : verifyInput L.engine ⟨tx, i⟩ = .ok ()) : Origin L tx (.refund r)

/-- A secret that was read off a verified spend of a built script opens its hash. -/
theorem secret_opens {E : Engine} {spend : Spend} {redeem : Bytes} {ops : List Opcode}
    {secret : Bytes32} {p : HtlcParams} (hlocked : LockedBy E spend redeem)
    (hverified : verifyInput E spend = .ok ())
    (hparse : parseScript spend.input.signatureScript = .ok ops)
    (hsecret : extractRevealSecret ops = .ok secret) (hbuilt : createHtlcScript p = .ok redeem)
    (hcollision : NoCollision E spend redeem) : (E.sha256 secret.data).data = p.secretHash := by
  rcases (verifyInput_htlc hbuilt hlocked hcollision).mp hverified with ⟨s, hclaim⟩ | hrefund
  · obtain ⟨b, r, hl⟩ := secret_of_pushes hparse hsecret hclaim.pushes
    simp only [List.cons.injEq] at hl
    rw [← hl.1]
    exact hclaim.preimage
  · obtain ⟨b, r, hl⟩ := secret_of_pushes hparse hsecret hrefund.pushes
    simp at hl

private theorem pays_of_paidScript {scripts : WatchedScripts} (hkeyed : Keyed cfg scripts)
    {output : TransactionOutput} {s : UtxoScript} (h : paidScript cfg scripts output = some s) :
    output.scriptPublicKey = ⟨0, payToScriptHashScript (cfg.blake2b s.redeemScript)⟩ := by
  unfold paidScript at h
  split at h
  · rename_i a ha
    obtain ⟨network, haddr⟩ := hkeyed _ s h
    obtain ⟨-, hpay⟩ := extractScriptPubKeyAddress_eq_ok.mp ha
    rw [← hpay, cfg.codec.toString_injective haddr, payToAddressScript_scriptHash]
  · cases h

theorem Yields.origin {L : Ledger cfg} {scripts : WatchedScripts} (hkeyed : Keyed cfg scripts)
    {tx : Transaction} (hbacks : L.Backs scripts tx) {e : ChainEvent}
    (h : Yields cfg scripts tx e) :
    ∃ ptx ∈ L.accepted, ptx.toTransaction = tx ∧ Origin L ptx e := by
  obtain ⟨ptx, hptx, rfl, hshows⟩ := hbacks
  refine ⟨ptx, hptx, rfl, ?_⟩
  cases h with
  | commitment houtput hpaid hparse hread htarget hvalue =>
    exact .commitment houtput (pays_of_paidScript hkeyed hpaid) hparse hread htarget hvalue
  | spend hinput hshown hspend =>
    obtain ⟨i, rfl⟩ := List.mem_iff_get.mp hinput
    have hlocked := hshows i _ hshown
    have hverified := L.verified ptx hptx i
    have hid := classifySpend_carriesId hspend
    obtain ⟨sigOpcodes, redeemOpcodes, c, hsig, -, -, ⟨secret, hsecret, rfl⟩ | ⟨hrefund, rfl⟩⟩ :=
      classifySpend_eq_ok hspend
    · have hparse := parseOpcodes_eq_ok.mp hsig
      exact .reveal hlocked hid hparse hsecret hverified fun p hbuilt hcollision =>
        secret_opens hlocked hverified hparse hsecret hbuilt hcollision
    · exact .refund hlocked hid (parseOpcodes_eq_ok.mp hsig) hrefund hverified

private theorem Yields.touches {scripts : WatchedScripts} {tx : Transaction} {e : ChainEvent}
    (h : Yields cfg scripts tx e) : Touches cfg scripts tx := by
  cases h with
  | commitment houtput hpaid => exact .inl ⟨_, houtput, by rw [hpaid]; rfl⟩
  | spend hinput hshown => exact .inr ⟨_, hinput, by rw [hshown]; rfl⟩

structure Channel where
  intake : Intake
  state : State

/-- What can happen to the channel, with the answers of the outside world. -/
inductive ChannelInput
  | readBlocks (rpc : IntakeRpc)
  | announce (address : String) (redeem : Bytes) (id : SwapId) (unlockTs : UInt64)
      (depositTarget : String)
  | emit (network : Except KaspaError Network) (event : ChainEvent)
  | poll
  | failed (k : ActionKey)

namespace Channel

def start (minimumBlockConfirmations : UInt64) (cursor : Option Bytes32) : Channel :=
  ⟨.new minimumBlockConfirmations cursor, .empty⟩

def step (cfg : Config) (now : UInt64) (ch : Channel) : ChannelInput → Channel
  | .readBlocks rpc =>
    let (_, sent, intake) := ch.intake.pollOnce rpc
    ⟨intake, { ch.state with safeBlocks := ch.state.safeBlocks ++ sent }⟩
  | .announce address redeem id unlockTs target =>
    { ch with state := (ch.state.registerScript cfg now address redeem id unlockTs target).2 }
  | .emit network event => { ch with state := (ch.state.emitEvent cfg now network event).2 }
  | .poll => { ch with state := (ch.state.pollFinalized cfg now).2 }
  | .failed k => { ch with state := ch.state.recordFailure k now }

def returned (cfg : Config) (now : UInt64) (ch : Channel) :
    ChannelInput → List (ChannelId × ChainEvent)
  | .poll =>
    match (ch.state.pollFinalized cfg now).1 with
    | .ok events => events
    | .error _ => []
  | _ => []

/-- The events that the polls of a run return. -/
def events (cfg : Config) (ch : Channel) :
    List (UInt64 × ChannelInput) → List (ChannelId × ChainEvent)
  | [] => []
  | (now, i) :: ins => ch.returned cfg now i ++ (ch.step cfg now i).events cfg ins

/-- In every poll of the run, the transactions that pay or show a watched script are backed. -/
def Backed (L : Ledger cfg) (ch : Channel) : List (UInt64 × ChannelInput) → Prop
  | [] => True
  | (now, i) :: ins =>
    (i = .poll → ∀ block ∈ ch.state.safeBlocks, ∀ tx ∈ block.transactions,
      Touches cfg ch.state.utxoScripts tx → L.Backs ch.state.utxoScripts tx) ∧
      (ch.step cfg now i).Backed L ins

/-- Scripts are keyed by their address, and the waiting blocks were fetched and confirmed. -/
structure Fed (cfg : Config) (threshold : UInt64) (seen : IntakeRpc → Prop) (ch : Channel) :
    Prop where
  keyed : Keyed cfg ch.state.utxoScripts
  depth : ch.intake.minimumBlockConfirmations = threshold
  blocks : ∀ b ∈ ch.state.safeBlocks, ∃ rpc, seen rpc ∧ Intake.Confirmed threshold rpc b

variable {ch : Channel} {threshold : UInt64} {seen : IntakeRpc → Prop}

theorem safeBlocks_scheduleRefunds {now : UInt64} (refunds : List (SwapId × UInt64)) (st : State) :
    (refunds.foldl (State.scheduleRefund now) st).safeBlocks = st.safeBlocks := by
  induction refunds generalizing st with
  | nil => rfl
  | cons refund refunds ih =>
    rw [List.foldl_cons, ih]
    unfold State.scheduleRefund
    split <;> rfl

theorem safeBlocks_trackEvents (events : List ChainEvent) (st : State) :
    (events.foldl (State.trackActionableEvent cfg) st).safeBlocks = st.safeBlocks := by
  induction events generalizing st with
  | nil => rfl
  | cons event events ih =>
    rw [List.foldl_cons, ih]
    cases event <;> rfl

private theorem safeBlocks_processBlocks {now : UInt64} (blocks : List Block) (st : State)
    (events : List (ChannelId × ChainEvent)) :
    (State.processBlocks cfg now blocks st events).2.safeBlocks = st.safeBlocks := by
  refine State.processBlocks_induction (P := fun st' => st'.safeBlocks = st.safeBlocks)
    (fun st' block h => ?_) (fun st' h => h) blocks rfl events
  rw [← h]
  unfold State.processBlock
  split
  · rfl
  · simp only [safeBlocks_trackEvents]
    split_ifs
    · rw [safeBlocks_scheduleRefunds]
    · rfl

theorem Fed.step (h : ch.Fed cfg threshold seen) (now : UInt64) {i : ChannelInput}
    (hseen : ∀ rpc, i = .readBlocks rpc → seen rpc) :
    (ch.step cfg now i).Fed cfg threshold seen := by
  cases i with
  | readBlocks rpc =>
    refine ⟨h.keyed, ?_, ?_⟩
    · exact (ch.intake.minimumBlockConfirmations_pollOnce rpc).trans h.depth
    · intro b hb
      rcases List.mem_append.mp hb with hb | hb
      · exact h.blocks b hb
      · refine ⟨rpc, hseen rpc rfl, ?_⟩
        rw [← h.depth]
        exact Intake.confirmed_of_pollOnce hb
  | announce address redeem id unlockTs target =>
    refine ⟨h.keyed.registerScript _ _ _ _ _, h.depth, ?_⟩
    simp only [Channel.step, State.registerScript]
    split <;> exact h.blocks
  | emit network event =>
    refine ⟨h.keyed.emitEvent _ _, h.depth, ?_⟩
    cases event with
    | commitment c =>
      simp only [Channel.step, State.emitEvent]
      split_ifs
      · split <;> exact h.blocks
      · exact h.blocks
    | reveal r =>
      simp only [Channel.step, State.emitEvent]
      split_ifs <;> exact h.blocks
    | refund r => exact h.blocks
  | poll =>
    refine ⟨h.keyed.mono (processBlocks_scripts _ _), h.depth, ?_⟩
    simp [Channel.step, State.pollFinalized, safeBlocks_processBlocks]
  | failed k => exact ⟨h.keyed, h.depth, h.blocks⟩

private theorem returned_accepted {L : Ledger cfg} (h : ch.Fed cfg threshold seen) {now : UInt64}
    {i : ChannelInput}
    (hbacked : i = .poll → ∀ block ∈ ch.state.safeBlocks, ∀ tx ∈ block.transactions,
      Touches cfg ch.state.utxoScripts tx → L.Backs ch.state.utxoScripts tx) :
    ∀ x ∈ ch.returned cfg now i, ∃ block, (∃ rpc, seen rpc ∧ Intake.Confirmed threshold rpc block) ∧
      ∃ tx ∈ L.accepted, tx.toTransaction ∈ block.transactions ∧ Origin L tx x.2 := by
  cases i with
  | poll =>
    intro x hx
    simp only [returned] at hx
    split at hx
    · rename_i events hevents
      rcases processBlocks_yields (Prod.ext hevents rfl) x hx with
        hnil | ⟨block, hblock, tx, htx, hyields⟩
      · cases hnil
      · obtain ⟨ptx, hptx, heq, horigin⟩ :=
          hyields.origin h.keyed (hbacked rfl block hblock tx htx hyields.touches)
        exact ⟨block, h.blocks block hblock, ptx, hptx, by rwa [heq], horigin⟩
    · cases hx
  | _ => exact fun x hx => by cases hx

private theorem fed_start (cfg : Config) (threshold : UInt64) (cursor : Option Bytes32)
    (seen : IntakeRpc → Prop) : (start threshold cursor).Fed cfg threshold seen :=
  ⟨nofun, rfl, nofun⟩

private theorem Fed.events_accepted {L : Ledger cfg} {ins : List (UInt64 × ChannelInput)}
    (h : ch.Fed cfg threshold seen) (hbacked : ch.Backed L ins)
    (hseen : ∀ now rpc, (now, .readBlocks rpc) ∈ ins → seen rpc) :
    ∀ x ∈ ch.events cfg ins, ∃ block, (∃ rpc, seen rpc ∧ Intake.Confirmed threshold rpc block) ∧
      ∃ tx ∈ L.accepted, tx.toTransaction ∈ block.transactions ∧ Origin L tx x.2 := by
  induction ins generalizing ch with
  | nil => exact fun x hx => by cases hx
  | cons i ins ih =>
    obtain ⟨hpoll, hbacked⟩ := hbacked
    intro x hx
    rcases List.mem_append.mp hx with hx | hx
    · exact returned_accepted h hpoll x hx
    · refine ih (h.step i.1 fun rpc hi => hseen i.1 rpc ?_) hbacked
        (fun now rpc hi => hseen now rpc (List.mem_cons_of_mem _ hi)) x hx
      rw [← hi]
      exact List.mem_cons_self

/-- Every event that a run returns comes from an accepted transaction in a block that the intake
fetched and found confirmed, as long as the touched transactions are backed. -/
theorem polled_events_accepted (L : Ledger cfg) (threshold : UInt64) (cursor : Option Bytes32)
    (ins : List (UInt64 × ChannelInput)) (hbacked : (start threshold cursor).Backed L ins) :
    ∀ x ∈ (start threshold cursor).events cfg ins, ∃ block,
      (∃ now rpc, (now, .readBlocks rpc) ∈ ins ∧ Intake.Confirmed threshold rpc block) ∧
      ∃ tx ∈ L.accepted, tx.toTransaction ∈ block.transactions ∧ Origin L tx x.2 := by
  intro x hx
  obtain ⟨block, ⟨rpc, ⟨now, hmem⟩, hconfirmed⟩, htx⟩ :=
    (fed_start cfg threshold cursor fun rpc => ∃ now, (now, .readBlocks rpc) ∈ ins).events_accepted
      hbacked (fun now rpc hi => ⟨now, hi⟩) x hx
  exact ⟨block, ⟨now, rpc, hmem, hconfirmed⟩, htx⟩

end Channel

def openEntry : UtxoEntry := ⟨100000000, ⟨0, [0x51]⟩⟩

def rivalTx (payee : ScriptPublicKey) : PopulatedTransaction where
  inputs := [⟨⟨.filled 50, 0⟩, [], 0⟩]
  outputs := [⟨100000000, payee⟩]
  lockTime := 0
  entries := [openEntry]
  populated := rfl

def fundingTx : PopulatedTransaction := rivalTx ⟨0, payToScriptHashScript sampleRedeemHash⟩

def winningTx : PopulatedTransaction := rivalTx (payToPubKey 9)

def sampleLedger (tx : PopulatedTransaction)
    (h : ∀ i, verifyInput { sampleEngine with blake2b := sampleBlake2b } ⟨tx, i⟩ = .ok ())
    (hnodup : (tx.inputs.map (·.previousOutpoint)).Nodup) : Ledger sampleNode.kaspa where
  engine := { sampleEngine with blake2b := sampleBlake2b }
  blake2b := rfl
  accepted := [tx]
  verified := by simpa using h
  spentOnce := by simpa using hnodup

/-- The winner was accepted; the loser is in a merged block. -/
def doubleSpendLedger : Ledger sampleNode.kaspa :=
  sampleLedger winningTx (by decide +kernel) (by decide +kernel)

def fundedLedger : Ledger sampleNode.kaspa :=
  sampleLedger fundingTx (by decide +kernel) (by decide +kernel)

/-- Two parallel blocks over the cursor and a chain block that merges both. -/
def mergedBlocks (txs txs' : List Transaction) : IntakeRpc where
  dagInfo := some (1000, .filled 4)
  getBlocks _ _ := some
    ([⟨.filled 1, 9, []⟩, ⟨.filled 2, 10, txs⟩, ⟨.filled 3, 10, txs'⟩, ⟨.filled 4, 11, []⟩],
      [.filled 1, .filled 2, .filled 3, .filled 4])
  virtualChain _ := some ([], [.filled 3, .filled 4])

/-- The sample script is announced, the blocks are taken in and polled. -/
def mergedRun (txs txs' : List Transaction) : List (UInt64 × ChannelInput) :=
  [(100, .announce sampleAddress sampleRedeem (.filled 3) 1000 "100000000"),
    (110, .readBlocks (mergedBlocks txs txs')), (120, .poll)]

namespace Channel

/-- The funding that lost the double spend is returned as a commitment, though no accepted
transaction pays the script. -/
theorem lost_funding_returned :
    (start 10 (some (.filled 1))).events sampleNode.kaspa
        (mergedRun [fundingTx.toTransaction] [winningTx.toTransaction]) =
      [(.kaspaTn10, .commitment { sampleCommitment with amount := ⟨"100000000", 8⟩ })] ∧
      fundingTx.inputs.map (·.previousOutpoint) = winningTx.inputs.map (·.previousOutpoint) ∧
      ∀ tx ∈ doubleSpendLedger.accepted, ∀ output ∈ tx.outputs, output.scriptPublicKey ≠
        ⟨0, payToScriptHashScript sampleRedeemHash⟩ := by
  decide +kernel

theorem polled_events_accepted_sample :
    (start 10 (some (.filled 1))).events sampleNode.kaspa
        (mergedRun [fundingTx.toTransaction] []) ≠ [] ∧
      ∀ x ∈ (start 10 (some (.filled 1))).events sampleNode.kaspa
        (mergedRun [fundingTx.toTransaction] []), ∃ tx ∈ fundedLedger.accepted,
          Origin fundedLedger tx x.2 := by
  refine ⟨by decide +kernel, fun x hx => ?_⟩
  have honly : ∀ block ∈ (((start 10 (some (.filled 1))).step sampleNode.kaspa 100 (.announce
      sampleAddress sampleRedeem (.filled 3) 1000 "100000000")).step sampleNode.kaspa 110
        (.readBlocks (mergedBlocks [fundingTx.toTransaction] []))).state.safeBlocks,
      ∀ tx ∈ block.transactions, tx = fundingTx.toTransaction := by
    decide +kernel
  have hbacked : (start 10 (some (.filled 1))).Backed fundedLedger
      (mergedRun [fundingTx.toTransaction] []) := by
    refine ⟨nofun, nofun, fun _ block hblock tx htx _ => ?_, trivial⟩
    obtain rfl := honly block hblock tx htx
    refine ⟨fundingTx, List.mem_singleton_self _, rfl, fun i s hshown => ?_⟩
    have hempty : ∀ input ∈ fundingTx.inputs, lastRedeem input.signatureScript = none := by
      decide +kernel
    have hsig : lastRedeem (Spend.mk fundingTx i).input.signatureScript = none :=
      hempty _ (List.get_mem _ i)
    rw [shownScript, hsig] at hshown
    cases hshown
  obtain ⟨block, -, tx, htx, -, horigin⟩ :=
    polled_events_accepted fundedLedger 10 (some (.filled 1)) _ hbacked x hx
  exact ⟨tx, htx, horigin⟩

end Channel
end Stroemnet.Kaspa
