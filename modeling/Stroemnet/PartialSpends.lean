import Stroemnet.AcceptedTransactions
import Stroemnet.GuardedRuns

/-! # Scripts that are spent in part

Anyone may pay to the address of a script, any number of times. A swap is untracked at the first
input that reveals or refunds it, and what is still unspent at its addresses is forgotten. -/
namespace Stroemnet.Kaspa
open Script Htlc

/-- What the chain decides: the ids of transactions, and which ones of a block are accepted. -/
structure UtxoRules where
  transactionId : Transaction → Bytes32
  accepted : Block → Transaction → Bool

abbrev Utxos := List (TransactionOutpoint × ScriptPublicKey)

namespace Utxos

variable (rules : UtxoRules)

def addTransaction (utxos : Utxos) (tx : Transaction) : Utxos :=
  (utxos.filter fun u => u.1 ∉ tx.inputs.map (·.previousOutpoint)) ++
    tx.outputs.zipIdx.map fun x => (⟨rules.transactionId tx, x.2⟩, x.1.scriptPublicKey)

def addBlock (utxos : Utxos) (block : Block) : Utxos :=
  (block.transactions.filter (rules.accepted block)).foldl (addTransaction rules) utxos

/-- The unspent outputs at an address. -/
def lockedAt (cfg : Config) (utxos : Utxos) (addr : String) : Utxos :=
  utxos.filter fun u =>
    match extractScriptPubKeyAddress u.2 cfg.network with
    | .ok a => cfg.codec.toString a = addr
    | .error _ => false

end Utxos

inductive SwapPart
  | commitment
  | script
  | pendingClaim
  | pendingRefund
  | claimKey
  | refundKey

namespace State

def HoldsPart (st : State) (id : SwapId) : SwapPart → Prop
  | .commitment => (st.commitments id).isSome
  | .script => (st.scripts id).isSome
  | .pendingClaim => ∃ r ∈ st.pendingClaims, r.swapId = id
  | .pendingRefund => st.Scheduled id
  | .claimKey => (st.queue (.claim id)).isSome
  | .refundKey => (st.queue (.refund id)).isSome

/-- The addresses of a swap: where a script with its id is watched, and where the stored script
and the cached commitment of the swap lock their outputs. -/
inductive HtlcAddress (cfg : Config) (st : State) (id : SwapId) (addr : String) : Prop
  | watched {s : UtxoScript} (h : st.utxoScripts addr = some s) (hid : CarriesId s.redeemScript id)
  | stored {s : UtxoScript} (h : st.scripts id = some s)
      (haddr : deriveP2shAddr cfg s.redeemScript = some addr)
  | committed {c : CommitmentV1} {redeem : Bytes} (h : st.commitments id = some c)
      (hredeem : htlcScriptFromCommitment cfg c = .ok redeem)
      (haddr : deriveP2shAddr cfg redeem = some addr)

end State

/-- A channel, with the unspent outputs after the blocks it has processed. -/
structure UtxoTracker where
  state : State
  utxos : Utxos

inductive TrackerInput
  | block (now : UInt64) (block : Block)
  | prune (now : UInt64)
  | announce (now : UInt64) (address : String) (redeem : Bytes) (id : SwapId) (unlockTs : UInt64)
      (target : String)
  | emit (now : UInt64) (network : Except KaspaError Network) (event : ChainEvent)
  | failed (k : ActionKey) (now : UInt64)

/-- An input among some transactions that shows the script watched at an address and reveals or
refunds its swap. -/
def Resolved (cfg : Config) (scripts : WatchedScripts) (txs : List Transaction) (addr : String)
    (id : SwapId) : Prop :=
  ∃ tx ∈ txs, ∃ input ∈ tx.inputs, ∃ s e closed,
    (lastRedeem input.signatureScript).bind (deriveP2shAddr cfg) = some addr ∧
      scripts addr = some s ∧ classifySpend cfg input.signatureScript s = .ok (some e, closed) ∧
      e.swapId = id

/-- Every watched script that is older than its time to live has nothing left at its address. -/
def LapsesSpent (cfg : Config) (now : UInt64) (scripts : WatchedScripts) (utxos : Utxos) : Prop :=
  ∀ addr s, scripts addr = some s → ¬ now ≤ saturatingAdd s.unlockTs cfg.scriptTtlSecs →
    utxos.lockedAt cfg addr = []

namespace UtxoTracker

variable (cfg : Config) (rules : UtxoRules)

def step (t : UtxoTracker) : TrackerInput → UtxoTracker
  | .block now block => ⟨(t.state.processBlock cfg now block).2, t.utxos.addBlock rules block⟩
  | .prune now => { t with state := t.state.pruneScripts cfg now }
  | .announce now address redeem id unlockTs target =>
    { t with state := (t.state.registerScript cfg now address redeem id unlockTs target).2 }
  | .emit now network event => { t with state := (t.state.emitEvent cfg now network event).2 }
  | .failed k now => { t with state := t.state.recordFailure k now }

/-- A block that resolves a swap leaves nothing at the address that was spent from, nor at any
other address of the swap if it is tracked; and no script lapses with outputs at its address. -/
def ResolvesSpent (t : UtxoTracker) : TrackerInput → Prop
  | .block _ block => ∀ addr id, Resolved cfg t.state.utxoScripts block.transactions addr id →
      ∀ addr', addr' = addr ∨
          t.state.HtlcAddress cfg id addr' ∧ (∃ part, t.state.HoldsPart id part) →
        (t.utxos.addBlock rules block).lockedAt cfg addr' = []
  | .prune now => LapsesSpent cfg now t.state.utxoScripts t.utxos
  | .announce now address redeem id unlockTs target =>
    validateScriptAnnounce cfg.codec cfg.blake2b cfg.networkId cfg.channelId address redeem id
      unlockTs = .ok () →
        LapsesSpent cfg now
          (t.state.registerInternal address ⟨redeem, unlockTs, target⟩).utxoScripts t.utxos
  | _ => True

/-- A step forgets something of a swap, or an address, only when nothing is left there. -/
def UntracksSpent (t : UtxoTracker) (i : TrackerInput) : Prop :=
  (∀ id part addr, t.state.HoldsPart id part → ¬ (t.step cfg rules i).state.HoldsPart id part →
      t.state.HtlcAddress cfg id addr → (t.step cfg rules i).utxos.lockedAt cfg addr = []) ∧
    ∀ addr, (t.state.utxoScripts addr).isSome → (t.step cfg rules i).state.utxoScripts addr = none →
      (t.step cfg rules i).utxos.lockedAt cfg addr = []

end UtxoTracker

section Scanned

variable {cfg : Config} {scripts scripts' : WatchedScripts} {txs : List Transaction}
  {addr : String} {id : SwapId}

theorem Resolved.mono (hsub : ∀ addr s, scripts' addr = some s → scripts addr = some s)
    (h : Resolved cfg scripts' txs addr id) : Resolved cfg scripts txs addr id := by
  obtain ⟨tx, htx, input, hinput, s, e, closed, haddr, hs, hspend, hid⟩ := h
  exact ⟨tx, htx, input, hinput, s, e, closed, haddr, hsub addr s hs, hspend, hid⟩

theorem Resolved.cons (tx : Transaction) (h : Resolved cfg scripts txs addr id) :
    Resolved cfg scripts (tx :: txs) addr id := by
  obtain ⟨tx', htx', hinput⟩ := h
  exact ⟨tx', List.mem_cons_of_mem _ htx', hinput⟩

theorem Yields.resolved {tx : Transaction} {e : ChainEvent} (h : Yields cfg scripts tx e)
    (htx : tx ∈ txs) (hresolving : ∀ c, e ≠ .commitment c) :
    ∃ addr, Resolved cfg scripts txs addr e.swapId := by
  cases h with
  | commitment => exact absurd rfl (hresolving _)
  | @spend input s e closed hinput hshown hspend =>
    obtain ⟨addr, haddr, hs⟩ := Option.bind_eq_some_iff.mp hshown
    exact ⟨addr, tx, htx, input, hinput, s, e, closed, haddr, hs, hspend, rfl⟩

private theorem scanInput_closed {acc : InputScan} {input : TransactionInput}
    (h : addr ∈ (scanInput cfg scripts acc input).closed) :
    addr ∈ acc.closed ∨ ∃ s e closed,
      (lastRedeem input.signatureScript).bind (deriveP2shAddr cfg) = some addr ∧
        scripts addr = some s ∧
        classifySpend cfg input.signatureScript s = .ok (some e, closed) := by
  unfold scanInput at h
  split at h
  · exact .inl h
  · rename_i addr' haddr
    split at h
    · exact .inl h
    · rename_i s hs
      split at h
      · rename_i e closed hspend
        simp only at h
        split_ifs at h
        · rcases List.mem_append.mp h with h | h
          · exact .inl h
          · obtain rfl := List.mem_singleton.mp h
            exact .inr ⟨s, e, closed, haddr, hs, hspend⟩
        · exact .inl h
      · exact .inl h
      · exact .inl h

private theorem scanInputs_closed {tx : Transaction} {s : UtxoScript} (hs : scripts addr = some s)
    (hclosed : (scanInputs cfg scripts tx).2 addr = none) :
    ∃ id, Resolved cfg scripts [tx] addr id := by
  have hfold : ∀ (inputs : List TransactionInput) (acc : InputScan),
      addr ∈ (inputs.foldl (scanInput cfg scripts) acc).closed → addr ∈ acc.closed ∨
        ∃ input ∈ inputs, ∃ s e closed,
          (lastRedeem input.signatureScript).bind (deriveP2shAddr cfg) = some addr ∧
            scripts addr = some s ∧
            classifySpend cfg input.signatureScript s = .ok (some e, closed) := by
    intro inputs
    induction inputs with
    | nil => exact fun acc h => .inl h
    | cons input inputs ih =>
      intro acc h
      rcases ih _ h with h | ⟨input', hinput', hspend⟩
      · exact (scanInput_closed h).imp_right fun hspend => ⟨input, List.mem_cons_self, hspend⟩
      · exact .inr ⟨input', List.mem_cons_of_mem _ hinput', hspend⟩
  simp only [scanInputs, hs] at hclosed
  split_ifs at hclosed with hmem
  rcases hfold tx.inputs _ hmem with hnil | ⟨input, hinput, s, e, closed, hspend⟩
  · cases hnil
  · exact ⟨e.swapId, tx, List.mem_cons_self, input, hinput, s, e, closed, hspend.1, hspend.2.1,
      hspend.2.2, rfl⟩

/-- An address that a scan forgets was spent from. -/
theorem handleTransactions_closed {acc : BlockOutcomes} {s : UtxoScript}
    (hs : scripts addr = some s)
    (hclosed : (handleTransactions cfg txs scripts acc).2 addr = none) :
    ∃ id, Resolved cfg scripts txs addr id := by
  induction txs generalizing scripts acc with
  | nil => cases hs.symm.trans hclosed
  | cons tx txs ih =>
    unfold handleTransactions at hclosed
    split at hclosed
    · cases hs.symm.trans hclosed
    · cases hrest : (scanInputs cfg scripts tx).2 addr with
      | none =>
        obtain ⟨id, tx', htx', hinput⟩ := scanInputs_closed hs hrest
        obtain rfl := List.mem_singleton.mp htx'
        exact ⟨id, tx', List.mem_cons_self, hinput⟩
      | some s' =>
        obtain rfl := Option.some.inj ((scanInputs_scripts hrest).symm.trans hs)
        obtain ⟨id, hresolved⟩ := ih hrest hclosed
        exact ⟨id, (hresolved.mono fun _ _ => scanInputs_scripts).cons tx⟩

end Scanned

def KeepsParts (id : SwapId) (st st' : State) : Prop :=
  ∀ part, st.HoldsPart id part → st'.HoldsPart id part

namespace KeepsParts

variable {cfg : Config} {id : SwapId} {st st' st'' : State} {now : UInt64}

theorem refl (id : SwapId) (st : State) : KeepsParts id st st := fun _ h => h

theorem trans (h : KeepsParts id st st') (h' : KeepsParts id st' st'') : KeepsParts id st st'' :=
  fun part hpart => h' part (h part hpart)

theorem persist (h : KeepsParts id st st') (id' : SwapId) :
    KeepsParts id st (st'.persistSwap id') := by
  intro part hpart
  have hkept := h part hpart
  cases part <;> exact hkept

theorem registerScript (address : String) (redeem : Bytes) (id' : SwapId) (unlockTs : UInt64)
    (target : String) :
    KeepsParts id st (st.registerScript cfg now address redeem id' unlockTs target).2 := by
  unfold State.registerScript
  split
  · exact refl id st
  · apply persist
    intro part hpart
    cases part with
    | script => exact isSome_update hpart
    | _ => exact hpart

theorem emitEvent (network : Except KaspaError Network) (event : ChainEvent) :
    KeepsParts id st (st.emitEvent cfg now network event).2 := by
  cases event with
  | commitment c =>
    have hcached : KeepsParts id st (st.cacheCommitment c) := by
      intro part hpart
      cases part with
      | commitment => exact isSome_update hpart
      | _ => exact hpart
    simp only [State.emitEvent]
    split_ifs
    · split
      · exact hcached
      · apply persist
        refine hcached.trans fun part hpart => ?_
        cases part with
        | script => exact isSome_update hpart
        | _ => exact hpart
    · exact hcached
  | reveal r =>
    simp only [State.emitEvent]
    split_ifs
    · apply persist
      intro part hpart
      cases part with
      | pendingClaim =>
        obtain ⟨r', hr', hid⟩ := hpart
        exact ⟨r', mem_pushPendingClaim_of_mem hr', hid⟩
      | claimKey => exact RetryQueue.isSome_ensure hpart
      | refundKey => exact RetryQueue.isSome_ensure hpart
      | _ => exact hpart
    · exact refl id st
  | refund r => exact refl id st

theorem recordFailure (k : ActionKey) : KeepsParts id st (st.recordFailure k now) := by
  apply persist
  intro part hpart
  cases part with
  | claimKey => exact (RetryQueue.isSome_recordFailure _ _ _ _ _).trans hpart
  | refundKey => exact (RetryQueue.isSome_recordFailure _ _ _ _ _).trans hpart
  | _ => exact hpart

theorem scheduleRefund (refund : SwapId × UInt64) :
    KeepsParts id st (st.scheduleRefund now refund) := by
  unfold State.scheduleRefund pushPendingRefund
  by_cases hany : st.pendingRefunds.any (·.1.swapId = refund.1)
  · rw [if_pos hany]
    exact refl id st
  · rw [if_neg hany]
    apply persist
    intro part hpart
    cases part with
    | pendingRefund =>
      obtain ⟨p, hp, hid⟩ := hpart
      exact ⟨p, List.mem_append_left _ hp, hid⟩
    | claimKey => exact RetryQueue.isSome_ensure hpart
    | refundKey => exact RetryQueue.isSome_ensure hpart
    | _ => exact hpart

theorem scheduleRefunds (refunds : List (SwapId × UInt64)) :
    KeepsParts id st (refunds.foldl (State.scheduleRefund now) st) := by
  induction refunds generalizing st with
  | nil => exact refl id st
  | cons refund refunds ih => exact (scheduleRefund refund).trans ih

/-- A swap that is resolved takes nothing of another swap with it. -/
theorem untrack {id' : SwapId} (hne : id ≠ id') :
    KeepsParts id st
      ({ st with pendingRefunds := st.pendingRefunds.filter (·.1.swapId ≠ id') }.untrack id') := by
  have hkey : ∀ k : ActionKey, k.swapId = id →
      ((st.queue.recordSuccess (.claim id')).recordSuccess (.refund id')) k = st.queue k := by
    rintro ⟨id'', action⟩ rfl
    rw [RetryQueue.recordSuccess_of_ne, RetryQueue.recordSuccess_of_ne]
    · exact fun heq => hne (congrArg ActionKey.swapId heq)
    · exact fun heq => hne (congrArg ActionKey.swapId heq)
  intro part hpart
  cases part with
  | commitment =>
    simp only [State.HoldsPart, State.untrack, Function.update_of_ne hne]
    exact hpart
  | script =>
    simp only [State.HoldsPart, State.untrack, Function.update_of_ne hne]
    exact hpart
  | pendingClaim =>
    obtain ⟨r, hr, hid⟩ := hpart
    exact ⟨r, List.mem_filter.mpr ⟨hr, by simpa [hid] using hne⟩, hid⟩
  | pendingRefund =>
    obtain ⟨p, hp, hid⟩ := hpart
    exact ⟨p, List.mem_filter.mpr ⟨hp, by simpa [hid] using hne⟩, hid⟩
  | claimKey =>
    simp only [State.HoldsPart, State.untrack]
    rw [hkey _ rfl]
    exact hpart
  | refundKey =>
    simp only [State.HoldsPart, State.untrack]
    rw [hkey _ rfl]
    exact hpart

theorem trackActionableEvent {event : ChainEvent}
    (hkeeps : event.swapId = id → ∃ c, event = .commitment c) :
    KeepsParts id st (st.trackActionableEvent cfg event) := by
  cases event with
  | commitment c =>
    apply persist
    intro part hpart
    cases part with
    | commitment => exact isSome_update hpart
    | pendingRefund =>
      obtain ⟨p, hp, hid⟩ := hpart
      exact ⟨p, mem_queueDequeueRefundEvent_commitment c _ hp, hid⟩
    | _ => exact hpart
  | reveal r =>
    have hne : id ≠ r.swapId := by
      rintro rfl
      obtain ⟨c, hc⟩ := hkeeps rfl
      cases hc
    exact (untrack hne).persist r.swapId
  | refund r =>
    have hne : id ≠ r.swapId := by
      rintro rfl
      obtain ⟨c, hc⟩ := hkeeps rfl
      cases hc
    exact (untrack hne).persist r.swapId

theorem trackEvents {events : List ChainEvent}
    (hkeeps : ∀ e ∈ events, e.swapId = id → ∃ c, e = .commitment c) :
    KeepsParts id st (events.foldl (State.trackActionableEvent cfg) st) := by
  induction events generalizing st with
  | nil => exact refl id st
  | cons event events ih =>
    obtain ⟨hevent, hevents⟩ := List.forall_mem_cons.mp hkeeps
    exact (trackActionableEvent hevent).trans (ih hevents)

end KeepsParts

namespace UtxoTracker

variable {cfg : Config} {rules : UtxoRules} {t : UtxoTracker}

private theorem keepsParts_processBlock {st : State} {now : UInt64} {block : Block} {id : SwapId}
    (hno : ∀ addr, ¬ Resolved cfg st.utxoScripts block.transactions addr id) :
    KeepsParts id st (st.processBlock cfg now block).2 := by
  unfold State.processBlock handleBlockAdded
  split
  · exact fun part hpart => by cases part <;> exact hpart
  · rename_i outcomes scripts hadded
    have hevents : ∀ e ∈ outcomes.events, e.swapId = id → ∃ c, e = .commitment c := by
      intro e he hid
      by_contra hresolving
      rcases handleTransactions_yields hadded e he with hnil | ⟨tx, htx, hyields⟩
      · cases hnil
      · obtain ⟨addr, hresolved⟩ := hyields.resolved htx (not_exists.mp hresolving)
        rw [hid] at hresolved
        exact hno addr hresolved
    have hscripts : KeepsParts id st { st with utxoScripts := scripts } :=
      fun part hpart => by cases part <;> exact hpart
    simp only
    split_ifs
    · exact (hscripts.trans (.scheduleRefunds _)).trans (.trackEvents hevents)
    · exact hscripts.trans (.trackEvents hevents)

theorem lapsed_of_pruned {scripts : WatchedScripts} {utxos : Utxos} {now : UInt64} {addr : String}
    (h : LapsesSpent cfg now scripts utxos) (hsome : (scripts addr).isSome)
    (hnone : (scripts addr).filter
      (fun s => now ≤ saturatingAdd s.unlockTs cfg.scriptTtlSecs) = none) :
    utxos.lockedAt cfg addr = [] := by
  obtain ⟨s, hs⟩ := Option.isSome_iff_exists.mp hsome
  refine h addr s hs fun hle => ?_
  rw [hs, Option.filter_some, if_pos (decide_eq_true hle)] at hnone
  cases hnone

private theorem isSome_utxoScripts_emitEvent (cfg : Config) {st : State} {addr : String}
    (now : UInt64)
    (network : Except KaspaError Network) (event : ChainEvent)
    (h : (st.utxoScripts addr).isSome) :
    ((st.emitEvent cfg now network event).2.utxoScripts addr).isSome := by
  cases event with
  | commitment c =>
    simp only [State.emitEvent]
    split_ifs
    · split
      · exact h
      · exact isSome_update h
    · exact h
  | reveal r =>
    simp only [State.emitEvent]
    split_ifs <;> exact h
  | refund r => exact h

theorem ResolvesSpent.untracks {i : TrackerInput} (h : t.ResolvesSpent cfg rules i) :
    t.UntracksSpent cfg rules i := by
  cases i with
  | block now block =>
    constructor
    · intro id part addr hpart hgone haddr
      by_contra hleft
      refine hgone (keepsParts_processBlock (fun addr' hresolved => hleft ?_) part hpart)
      exact h addr' id hresolved addr (.inr ⟨haddr, part, hpart⟩)
    · intro addr hsome hnone
      obtain ⟨s, hs⟩ := Option.isSome_iff_exists.mp hsome
      simp only [step, utxoScripts_processBlock] at hnone
      obtain ⟨id, hresolved⟩ := handleTransactions_closed hs hnone
      exact h addr id hresolved addr (.inl rfl)
  | prune now =>
    refine ⟨fun id part addr hpart hgone => absurd ?_ hgone, fun addr => lapsed_of_pruned h⟩
    cases part <;> exact hpart
  | announce now address redeem id unlockTs target =>
    refine ⟨fun id' part addr hpart hgone => ?_, fun addr hsome hnone => ?_⟩
    · exact absurd (KeepsParts.registerScript address redeem id unlockTs target part hpart) hgone
    · simp only [step, State.registerScript] at hnone
      split at hnone
      · rw [hnone] at hsome
        cases hsome
      · rename_i hvalid
        exact lapsed_of_pruned (h hvalid) (isSome_update hsome) hnone
  | emit now network event =>
    refine ⟨fun id part addr hpart hgone => ?_, fun addr hsome hnone => ?_⟩
    · exact absurd (KeepsParts.emitEvent network event part hpart) hgone
    · have hkept := isSome_utxoScripts_emitEvent cfg now network event hsome
      exact absurd hnone (Option.isSome_iff_ne_none.mp hkept)
  | failed k now =>
    refine ⟨fun id part addr hpart hgone => ?_, fun addr hsome hnone => ?_⟩
    · exact absurd (KeepsParts.recordFailure k part hpart) hgone
    · exact absurd hnone (Option.isSome_iff_ne_none.mp hsome)

/-- A poll is a run over the blocks it takes, with a pruning at the end. -/
theorem final_pollFinalized {now : UInt64} {st : State} {events : List (ChannelId × ChainEvent)}
    (hok : t.state.pollFinalized cfg now = (.ok events, st)) :
    (Runs.final (step cfg rules) { t with state := { t.state with safeBlocks := [] } }
      (t.state.safeBlocks.map (.block now) ++ [.prune now])).state = st := by
  have hblocks : ∀ (blocks : List Block) (t : UtxoTracker)
      (found : List (ChannelId × ChainEvent)),
      State.processBlocks cfg now blocks t.state found = (.ok events, st) →
        (Runs.final (step cfg rules) t (blocks.map (.block now) ++ [.prune now])).state = st := by
    intro blocks
    induction blocks with
    | nil =>
      intro t found hok
      cases hok
      rfl
    | cons block blocks ih =>
      intro t found hok
      rw [State.processBlocks] at hok
      split at hok
      · cases hok
      · rename_i found' st' hblock
        have hstate : (t.step cfg rules (.block now block)).state = st' :=
          congrArg Prod.snd hblock
        rw [← hstate] at hok
        exact ih _ _ hok
  exact hblocks _ _ _ hok

/-- In every run in which resolving spends leave nothing behind, swaps and addresses are only
forgotten when they are fully spent. -/
theorem untracked_only_when_spent (cfg : Config) (rules : UtxoRules) (t : UtxoTracker)
    (ins : List TrackerInput)
    (h : Runs.Along (step cfg rules) (ResolvesSpent cfg rules) t ins) :
    Runs.Along (step cfg rules) (UntracksSpent cfg rules) t ins :=
  h.mono fun _ _ => ResolvesSpent.untracks

def payments (values : List UInt64) : Transaction where
  inputs := [⟨⟨.filled 50, 0⟩, [], 0⟩]
  outputs := values.map fun v => ⟨v, ⟨0, payToScriptHashScript sampleRedeemHash⟩⟩
  lockTime := 0

/-- The claim has an id of its own, and everything is accepted. -/
def sampleRules : UtxoRules where
  transactionId tx := if tx = sampleClaim.tx.toTransaction then .filled 11 else .filled 9
  accepted _ _ := true

def sampleTracker : UtxoTracker :=
  ⟨.empty, [(⟨.filled 50, 0⟩, ⟨0, [0x51]⟩), (⟨.filled 8, 1⟩, payToPubKey 5)]⟩

def announceInput : TrackerInput :=
  .announce 100 sampleAddress sampleRedeem (.filled 3) 1000 "100000000"

def payInput (values : List UInt64) : TrackerInput :=
  .block 130 ⟨.filled 60, 0, [payments values]⟩

def claimInput : TrackerInput := .block 140 ⟨.filled 61, 0, [sampleClaim.tx.toTransaction]⟩

/-- The sample script is announced and paid. -/
def paid (values : List UInt64) : UtxoTracker :=
  Runs.final (step sampleNode.kaspa sampleRules) sampleTracker [announceInput, payInput values]

def claimed (values : List UInt64) : UtxoTracker :=
  (paid values).step sampleNode.kaspa sampleRules claimInput

/-- The claim of one output is valid; after it nothing of the swap is tracked and its address is
not watched, though the second output is unspent. -/
theorem claim_forgets_second_output :
    verifyInput sampleEngine sampleClaim = .ok () ∧
      (((paid [100000000, 100000000]).state.commitments (.filled 3)).isSome ∧
        ((paid [100000000, 100000000]).state.scripts (.filled 3)).isSome ∧
        ((paid [100000000, 100000000]).state.queue (.refund (.filled 3))).isSome ∧
        ((paid [100000000, 100000000]).state.utxoScripts sampleAddress).isSome ∧
        (claimed [100000000, 100000000]).state.commitments (.filled 3) = none ∧
        (claimed [100000000, 100000000]).state.scripts (.filled 3) = none ∧
        (claimed [100000000, 100000000]).state.pendingRefunds = [] ∧
        (claimed [100000000, 100000000]).state.queue (.refund (.filled 3)) = none ∧
        (claimed [100000000, 100000000]).state.utxoScripts sampleAddress = none ∧
        (claimed [100000000, 100000000]).utxos.lockedAt sampleNode.kaspa sampleAddress =
          [(⟨.filled 9, 1⟩, ⟨0, payToScriptHashScript sampleRedeemHash⟩)]) ∧
      ¬ Runs.Along (step sampleNode.kaspa sampleRules) (UntracksSpent sampleNode.kaspa sampleRules)
        sampleTracker ([announceInput, payInput [100000000, 100000000]] ++ [claimInput]) := by
  refine and_assoc.mp ⟨by decide +kernel, ?_⟩
  rw [Runs.along_append]
  rintro ⟨-, ⟨-, hspent⟩, -⟩
  have hwatched : ((paid [100000000, 100000000]).state.utxoScripts sampleAddress).isSome ∧
      (claimed [100000000, 100000000]).state.utxoScripts sampleAddress = none ∧
      (claimed [100000000, 100000000]).utxos.lockedAt sampleNode.kaspa sampleAddress ≠ [] := by
    decide +kernel
  unfold claimed paid at hwatched
  exact hwatched.2.2 (hspent sampleAddress hwatched.1 hwatched.2.1)

theorem watched_registerInternal {st : State} {address addr : String} {script s : UtxoScript}
    (h : (st.registerInternal address script).utxoScripts addr = some s) :
    st.utxoScripts addr = some s ∨ addr = address ∧ s = script := by
  simp only [State.registerInternal] at h
  by_cases heq : addr = address
  · subst heq
    rw [Function.update_self, Option.some.injEq] at h
    exact .inr ⟨rfl, h.symm⟩
  · rw [Function.update_of_ne heq] at h
    exact .inl h

theorem watched_registerScript {st : State} {now unlockTs : UInt64} {address target addr : String}
    {redeem : Bytes} {id : SwapId} {s : UtxoScript}
    (h : (st.registerScript cfg now address redeem id unlockTs target).2.utxoScripts addr =
      some s) : st.utxoScripts addr = some s ∨ addr = address ∧ s = ⟨redeem, unlockTs, target⟩ := by
  unfold State.registerScript at h
  split at h
  · exact .inl h
  · exact watched_registerInternal (Option.filter_eq_some_iff.mp h).1

theorem watched_paid {values : List UInt64} {addr : String} {s : UtxoScript}
    (h : (paid values).state.utxoScripts addr = some s) :
    addr = sampleAddress ∧ s = ⟨sampleRedeem, 1000, "100000000"⟩ := by
  simp only [paid, Runs.final_cons, Runs.final_nil, announceInput, payInput, step,
    sampleTracker] at h
  rcases watched_registerScript (processBlock_scripts _ _ _ h) with hempty | hsample
  · cases hempty
  · exact hsample

/-- What the single payment leaves for the claim to resolve. -/
theorem paid_once_facts :
    ((paid [100000000]).utxos.addBlock sampleRules
        ⟨.filled 61, 0, [sampleClaim.tx.toTransaction]⟩).lockedAt sampleNode.kaspa sampleAddress =
          [] ∧
      ((paid [100000000]).state.scripts (.filled 3)).map (·.redeemScript) = some sampleRedeem ∧
      ((paid [100000000]).state.commitments (.filled 3)).map
        (htlcScriptFromCommitment sampleNode.kaspa) = some (.ok sampleRedeem) ∧
      deriveP2shAddr sampleNode.kaspa sampleRedeem = some sampleAddress ∧
      htlcScriptFromCommitment sampleNode.kaspa sampleCommitment = .ok sampleRedeem := by
  decide +kernel

private theorem htlcAddress_paid_once {addr : String}
    (h : (paid [100000000]).state.HtlcAddress sampleNode.kaspa (.filled 3) addr) :
    addr = sampleAddress := by
  obtain ⟨-, hstored, hcommitted, hsample, -⟩ := paid_once_facts
  cases h with
  | watched h _ => exact (watched_paid h).1
  | stored h haddr =>
    rw [h, Option.map_some, Option.some.injEq] at hstored
    rw [hstored] at haddr
    exact Option.some.inj (haddr.symm.trans hsample)
  | committed h hredeem haddr =>
    rw [h, Option.map_some, Option.some.injEq, hredeem, Except.ok.injEq] at hcommitted
    rw [hcommitted] at haddr
    exact Option.some.inj (haddr.symm.trans hsample)

private theorem resolved_paid_once {txs : List Transaction} {addr : String} {id : SwapId}
    (h : Resolved sampleNode.kaspa (paid [100000000]).state.utxoScripts txs addr id) :
    addr = sampleAddress ∧ id = .filled 3 := by
  obtain ⟨tx, -, input, -, s, e, closed, -, hs, hspend, rfl⟩ := h
  obtain ⟨haddr, rfl⟩ := watched_paid hs
  obtain ⟨-, -, -, -, hbuilt⟩ := paid_once_facts
  exact ⟨haddr, (classifySpend_carriesId hspend).unique (carriesId_built hbuilt)⟩

/-- The only output at the address is claimed. -/
theorem untracked_only_when_spent_sample :
    Runs.Along (step sampleNode.kaspa sampleRules) (UntracksSpent sampleNode.kaspa sampleRules)
      sampleTracker ([announceInput, payInput [100000000]] ++ [claimInput]) := by
  refine untracked_only_when_spent _ _ _ _ (Runs.along_append.mpr
    ⟨⟨fun _ addr s hs hlapsed => ?_, fun addr id hresolved => ?_, trivial⟩, ?_, trivial⟩)
  · rcases watched_registerInternal hs with hempty | ⟨-, rfl⟩
    · cases hempty
    · exact absurd (by decide) hlapsed
  · obtain ⟨tx, htx, input, hinput, s, e, closed, haddr, -⟩ := hresolved
    obtain rfl := List.mem_singleton.mp htx
    obtain rfl := List.mem_singleton.mp hinput
    cases haddr
  · intro addr id hresolved addr' haddr'
    obtain ⟨rfl, rfl⟩ := resolved_paid_once hresolved
    have hsame : addr' = sampleAddress := by
      rcases haddr' with heq | ⟨haddr, -⟩
      · exact heq
      · exact htlcAddress_paid_once haddr
    rw [hsame]
    exact paid_once_facts.1

end UtxoTracker
end Stroemnet.Kaspa
