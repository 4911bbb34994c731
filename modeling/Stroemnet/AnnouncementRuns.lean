import Stroemnet.EvmSettlement
import Stroemnet.PartialSpends
import Stroemnet.TwoRuns

/-! # Runs that differ in announcements

What a channel makes of the deposits of a swap depends on the scripts of the swap that it
watches. Two runs with the same blocks and different announcements make the same of them as long
as the announcements leave these scripts alone. -/
namespace Stroemnet.Kaspa
open Script Htlc

def ofSwap (cfg : Config) (id : SwapId) (script : UtxoScript) : Bool :=
  match parseOpcodes script.redeemScript with
  | .error _ => false
  | .ok ops =>
    match extractCommitment cfg.codec ops script.depositTarget cfg.network cfg.channelId with
    | .ok c => c.swapId = id
    | .error _ => false

def swapScripts (cfg : Config) (id : SwapId) (skip : String → Bool) (scripts : WatchedScripts) :
    WatchedScripts :=
  fun addr => if skip addr then none else (scripts addr).filter (ofSwap cfg id)

def paidAddress (cfg : Config) (output : TransactionOutput) : Option String :=
  match extractScriptPubKeyAddress output.scriptPublicKey cfg.network with
  | .ok a => some (cfg.codec.toString a)
  | .error _ => none

def shownAddress (cfg : Config) (input : TransactionInput) : Option String :=
  (lastRedeem input.signatureScript).bind (deriveP2shAddr cfg)

/-- A transaction neither pays to nor spends from the addresses that are left out. -/
def Untouched (cfg : Config) (skip : String → Bool) (tx : Transaction) : Prop :=
  (∀ output ∈ tx.outputs, (paidAddress cfg output).all fun addr => !skip addr) ∧
    ∀ input ∈ tx.inputs, (shownAddress cfg input).all fun addr => !skip addr

def Parsed (scripts : WatchedScripts) : Prop :=
  ∀ addr s, scripts addr = some s → ∃ ops, parseOpcodes s.redeemScript = .ok ops

def BlockOutcomes.of (o : BlockOutcomes) (id : SwapId) : BlockOutcomes :=
  ⟨o.events.filter (·.swapId = id), o.refunds.filter (·.1 = id)⟩

@[simp] theorem BlockOutcomes.of_append (a b : BlockOutcomes) (id : SwapId) :
    (a.append b).of id = (a.of id).append (b.of id) := by
  simp [BlockOutcomes.of, BlockOutcomes.append]

section
variable {cfg : Config} {id : SwapId} {skip : String → Bool} {scripts scripts' : WatchedScripts}

theorem swapScripts_of_skip {addr : String} (h : skip addr = true) :
    swapScripts cfg id skip scripts addr = none := by simp [swapScripts, h]

theorem swapScripts_of_not_skip {addr : String} (h : skip addr = false) :
    swapScripts cfg id skip scripts addr = (scripts addr).filter (ofSwap cfg id) := by
  simp [swapScripts, h]

theorem swapScripts_eq_some {addr : String} {s : UtxoScript} :
    swapScripts cfg id skip scripts addr = some s ↔
      skip addr = false ∧ scripts addr = some s ∧ ofSwap cfg id s = true := by
  cases hskip : skip addr with
  | true => simp [swapScripts, hskip]
  | false => simp [swapScripts, hskip, Option.filter_eq_some_iff]

theorem Parsed.of_le (h : Parsed scripts)
    (hsub : ∀ addr s, scripts' addr = some s → scripts addr = some s) : Parsed scripts' :=
  fun addr s hs => h addr s (hsub addr s hs)

theorem Parsed.swapScripts (h : Parsed scripts) : Parsed (swapScripts cfg id skip scripts) :=
  h.of_le fun _ _ hs => (swapScripts_eq_some.mp hs).2.1

theorem ofSwap_eq_true {s : UtxoScript} : ofSwap cfg id s = true ↔
    ∃ ops c, parseOpcodes s.redeemScript = .ok ops ∧
      extractCommitment cfg.codec ops s.depositTarget cfg.network cfg.channelId = .ok c ∧
      c.swapId = id := by
  unfold ofSwap
  cases hops : parseOpcodes s.redeemScript with
  | error e => simp
  | ok ops =>
    cases hc : extractCommitment cfg.codec ops s.depositTarget cfg.network cfg.channelId with
    | error e => simp [hc]
    | ok c => simp [hc]

theorem scanOutput_of (id : SwapId) (hparsed : Parsed scripts) {output : TransactionOutput}
    (huntouched : (paidAddress cfg output).all fun addr => !skip addr) :
    ∃ found found', scanOutput cfg scripts output = .ok found ∧
      scanOutput cfg (swapScripts cfg id skip scripts) output = .ok found' ∧
      found.of id = found'.of id := by
  unfold scanOutput
  cases haddr : extractScriptPubKeyAddress output.scriptPublicKey cfg.network with
  | error e => exact ⟨_, _, rfl, rfl, rfl⟩
  | ok a =>
    have hskip : skip (cfg.codec.toString a) = false := by
      simpa [paidAddress, haddr] using huntouched
    simp only [swapScripts_of_not_skip hskip]
    cases hs : scripts (cfg.codec.toString a) with
    | none => exact ⟨_, _, rfl, rfl, rfl⟩
    | some s =>
      obtain ⟨ops, hops⟩ := hparsed _ s hs
      cases hswap : ofSwap cfg id s with
      | true =>
        rw [Option.filter_some, if_pos hswap]
        obtain ⟨ops', c, hops', hc, -⟩ := ofSwap_eq_true.mp hswap
        obtain rfl : ops = ops' := Except.ok.inj (hops.symm.trans hops')
        simp only [hops, bind, Except.bind, hc, pure, Except.pure]
        cases depositTargetValid s.depositTarget with
        | none => exact ⟨_, _, rfl, rfl, rfl⟩
        | some target => exact ⟨_, _, rfl, rfl, rfl⟩
      | false =>
        have hother : ∀ c, extractCommitment cfg.codec ops s.depositTarget cfg.network
            cfg.channelId = .ok c → c.swapId ≠ id := by
          intro c hc heq
          have := ofSwap_eq_true.mpr ⟨ops, c, hops, hc, heq⟩
          simp [hswap] at this
        rw [Option.filter_some, if_neg (by simp [hswap])]
        simp only [hops, bind, Except.bind, pure, Except.pure]
        cases hc : extractCommitment cfg.codec ops s.depositTarget cfg.network cfg.channelId with
        | error e => exact ⟨_, _, rfl, rfl, rfl⟩
        | ok c =>
          cases depositTargetValid s.depositTarget with
          | none => exact ⟨_, _, rfl, rfl, rfl⟩
          | some target =>
            refine ⟨_, _, rfl, rfl, ?_⟩
            have hne := hother c hc
            simp only [BlockOutcomes.of, BlockOutcomes.mk.injEq, List.filter_nil]
            constructor
            · split_ifs
              · simp [ChainEvent.swapId, hne]
              · rfl
            · simp [hne]

private theorem mapM_scanOutput_of (id : SwapId) (hparsed : Parsed scripts)
    {outputs : List TransactionOutput}
    (huntouched : ∀ output ∈ outputs, (paidAddress cfg output).all fun addr => !skip addr) :
    ∃ found found', outputs.mapM (scanOutput cfg scripts) = .ok found ∧
      outputs.mapM (scanOutput cfg (swapScripts cfg id skip scripts)) = .ok found' ∧
      found.map (·.of id) = found'.map (·.of id) := by
  induction outputs with
  | nil => exact ⟨[], [], rfl, rfl, rfl⟩
  | cons output outputs ih =>
    rw [List.forall_mem_cons] at huntouched
    obtain ⟨o, o', ho, ho', hof⟩ := scanOutput_of id hparsed huntouched.1
    obtain ⟨l, l', hl, hl', hmap⟩ := ih huntouched.2
    refine ⟨o :: l, o' :: l', ?_, ?_, by rw [List.map_cons, List.map_cons, hof, hmap]⟩
    · rw [List.mapM_cons, ho, hl]
      rfl
    · rw [List.mapM_cons, ho', hl']
      rfl

theorem foldl_append_of (l : List BlockOutcomes) (acc : BlockOutcomes) :
    (l.foldl BlockOutcomes.append acc).of id =
      (l.map (·.of id)).foldl BlockOutcomes.append (acc.of id) := by
  induction l generalizing acc with
  | nil => rfl
  | cons o l ih => rw [List.foldl_cons, ih, BlockOutcomes.of_append, List.map_cons, List.foldl_cons]

private theorem scanOutputs_of (id : SwapId) (hparsed : Parsed scripts) {tx : Transaction}
    (huntouched : Untouched cfg skip tx) :
    ∃ found found', scanOutputs cfg scripts tx = .ok found ∧
      scanOutputs cfg (swapScripts cfg id skip scripts) tx = .ok found' ∧
      found.of id = found'.of id := by
  obtain ⟨l, l', hl, hl', hmap⟩ := mapM_scanOutput_of id hparsed huntouched.1
  refine ⟨l.foldl BlockOutcomes.append ⟨[], []⟩, l'.foldl BlockOutcomes.append ⟨[], []⟩, ?_, ?_, ?_⟩
  · rw [scanOutputs, hl]
    rfl
  · rw [scanOutputs, hl']
    rfl
  · rw [foldl_append_of, foldl_append_of, hmap]

theorem classifySpend_swapId (id : SwapId) {sig : Bytes} {s : UtxoScript} {e : ChainEvent}
    {closed : Bool} (h : classifySpend cfg sig s = .ok (some e, closed)) :
    ofSwap cfg id s = decide (e.swapId = id) := by
  unfold classifySpend at h
  obtain ⟨sigOps, -, h⟩ := bind_eq_ok.mp h
  obtain ⟨ops, hops, h⟩ := bind_eq_ok.mp h
  simp only [ofSwap, hops]
  cases hc : extractCommitment cfg.codec ops s.depositTarget cfg.network cfg.channelId with
  | error err =>
    simp only [hc] at h
    cases hsecret : extractRevealSecret sigOps with
    | ok secret => simp [hsecret, pure, Except.pure] at h
    | error err =>
      cases hrefund : validateRefundSig sigOps with
      | ok u => simp [hsecret, hrefund, pure, Except.pure] at h
      | error err => simp [hsecret, hrefund, pure, Except.pure] at h
  | ok c =>
    simp only [hc] at h
    cases hsecret : extractRevealSecret sigOps with
    | ok secret =>
      simp only [hsecret, pure, Except.pure, Except.ok.injEq, Prod.mk.injEq, Option.some.injEq] at h
      rw [← h.1]
      rfl
    | error err =>
      cases hrefund : validateRefundSig sigOps with
      | ok u =>
        simp only [hsecret, hrefund, pure, Except.pure, Except.ok.injEq, Prod.mk.injEq,
          Option.some.injEq] at h
        rw [← h.1]
        rfl
      | error err => simp [hsecret, hrefund, pure, Except.pure] at h

structure InputScan.Restricts (id : SwapId) (watched : WatchedScripts) (a b : InputScan) :
    Prop where
  events : a.events.filter (·.swapId = id) = b.events.filter (·.swapId = id)
  emitted : id ∈ a.emitted ↔ id ∈ b.emitted
  closed : ∀ addr s, watched addr = some s → (addr ∈ a.closed ↔ addr ∈ b.closed)

theorem scanInput_restricts {a b : InputScan}
    (h : InputScan.Restricts id (swapScripts cfg id skip scripts) a b) {input : TransactionInput}
    (huntouched : (shownAddress cfg input).all fun addr => !skip addr) :
    InputScan.Restricts id (swapScripts cfg id skip scripts) (scanInput cfg scripts a input)
      (scanInput cfg (swapScripts cfg id skip scripts) b input) := by
  unfold scanInput
  cases haddr : (lastRedeem input.signatureScript).bind (deriveP2shAddr cfg) with
  | none => exact h
  | some addr =>
    have hskip : skip addr = false := by simpa [shownAddress, haddr] using huntouched
    simp only [swapScripts_of_not_skip hskip]
    cases hs : scripts addr with
    | none => exact h
    | some s =>
      cases hspend : classifySpend cfg input.signatureScript s with
      | error err =>
        cases hswap : ofSwap cfg id s with
        | true => simpa [Option.filter_some, hswap, hspend] using h
        | false => simpa [Option.filter_some, hswap, hspend] using h
      | ok found =>
        obtain ⟨e, closed⟩ := found
        cases e with
        | none =>
          cases hswap : ofSwap cfg id s with
          | true => simpa [Option.filter_some, hswap, hspend] using h
          | false => simpa [Option.filter_some, hswap, hspend] using h
        | some e =>
          have hid := classifySpend_swapId id hspend
          by_cases heq : e.swapId = id
          · rw [Option.filter_some, if_pos (hid.trans (decide_eq_true heq))]
            simp only [hspend]
            refine ⟨?_, ?_, fun addr' s' hs' => ?_⟩
            · simp only [heq, h.emitted]
              split_ifs
              · exact h.events
              · simp [h.events]
            · simp [heq]
            · have hclosed := h.closed addr' s' hs'
              cases closed with
              | true => simp [hclosed]
              | false => exact hclosed
          · rw [Option.filter_some, if_neg (by simp [hid, heq])]
            simp only [hspend]
            refine ⟨?_, ?_, fun addr' s' hs' => ?_⟩
            · dsimp only
              split_ifs
              · exact h.events
              · simp [h.events, heq]
            · simp [Ne.symm heq, h.emitted]
            · have hne : addr' ≠ addr := by
                rintro rfl
                rw [swapScripts_of_not_skip hskip, hs, Option.filter_some,
                  if_neg (by simp [hid, heq])] at hs'
                cases hs'
              have hclosed := h.closed addr' s' hs'
              cases closed with
              | true => simp [hclosed, hne]
              | false => exact hclosed

theorem scanInputs_restricts (id : SwapId) (scripts : WatchedScripts) {tx : Transaction}
    (huntouched : Untouched cfg skip tx) :
    (scanInputs cfg scripts tx).1.filter (·.swapId = id) =
        (scanInputs cfg (swapScripts cfg id skip scripts) tx).1.filter (·.swapId = id) ∧
      swapScripts cfg id skip (scanInputs cfg scripts tx).2 =
        (scanInputs cfg (swapScripts cfg id skip scripts) tx).2 := by
  have hfold : ∀ (inputs : List TransactionInput) (a b : InputScan),
      (∀ input ∈ inputs, (shownAddress cfg input).all fun addr => !skip addr) →
      InputScan.Restricts id (swapScripts cfg id skip scripts) a b →
      InputScan.Restricts id (swapScripts cfg id skip scripts)
        (inputs.foldl (scanInput cfg scripts) a)
        (inputs.foldl (scanInput cfg (swapScripts cfg id skip scripts)) b) := by
    intro inputs
    induction inputs with
    | nil => exact fun _ _ _ h => h
    | cons input inputs ih =>
      intro a b hinputs h
      rw [List.forall_mem_cons] at hinputs
      exact ih _ _ hinputs.2 (scanInput_restricts h hinputs.1)
  have hscan := hfold tx.inputs ⟨[], [], []⟩ ⟨[], [], []⟩ huntouched.2
    ⟨rfl, Iff.rfl, fun _ _ _ => Iff.rfl⟩
  refine ⟨hscan.events, funext fun addr => ?_⟩
  simp only [scanInputs]
  cases hs : swapScripts cfg id skip scripts addr with
  | none =>
    rw [ite_self]
    cases hskip : skip addr with
    | true => exact swapScripts_of_skip hskip
    | false =>
      rw [swapScripts_of_not_skip hskip] at hs ⊢
      split_ifs
      · rfl
      · exact hs
  | some s =>
    obtain ⟨hskip, -, -⟩ := swapScripts_eq_some.mp hs
    rw [swapScripts_of_not_skip hskip] at hs ⊢
    simp only [hscan.closed addr s (by rw [swapScripts_of_not_skip hskip, hs])]
    split_ifs
    · rfl
    · exact hs

/-- A block yields for a swap what it yields with the scripts of the swap alone. -/
theorem handleTransactions_of {txs : List Transaction} {acc acc' : BlockOutcomes}
    (hparsed : Parsed scripts) (huntouched : ∀ tx ∈ txs, Untouched cfg skip tx)
    (hacc : acc.of id = acc'.of id) :
    ∃ o o', (handleTransactions cfg txs scripts acc).1 = .ok o ∧
      (handleTransactions cfg txs (swapScripts cfg id skip scripts) acc').1 = .ok o' ∧
      o.of id = o'.of id ∧ swapScripts cfg id skip (handleTransactions cfg txs scripts acc).2 =
        (handleTransactions cfg txs (swapScripts cfg id skip scripts) acc').2 := by
  induction txs generalizing scripts acc acc' with
  | nil => exact ⟨acc, acc', rfl, rfl, hacc, rfl⟩
  | cons tx txs ih =>
    rw [List.forall_mem_cons] at huntouched
    obtain ⟨found, found', hfound, hfound', hof⟩ := scanOutputs_of id hparsed huntouched.1
    obtain ⟨hevents, hscripts⟩ := scanInputs_restricts id scripts huntouched.1
    have hkept : Parsed (scanInputs cfg scripts tx).2 :=
      hparsed.of_le fun _ _ => scanInputs_scripts
    have hnext : ((acc.append found).append ⟨(scanInputs cfg scripts tx).1, []⟩).of id =
        ((acc'.append found').append
          ⟨(scanInputs cfg (swapScripts cfg id skip scripts) tx).1, []⟩).of id := by
      rw [BlockOutcomes.of_append, BlockOutcomes.of_append, BlockOutcomes.of_append,
        BlockOutcomes.of_append, hacc, hof]
      simp only [BlockOutcomes.of, hevents]
    have hrest := ih hkept huntouched.2 hnext
    rw [hscripts] at hrest
    simp only [handleTransactions, hfound, hfound']
    exact hrest

private theorem swapScripts_update
    (h : swapScripts cfg id skip scripts = swapScripts cfg id skip scripts')
    (address : String) (o : Option UtxoScript) :
    swapScripts cfg id skip (Function.update scripts address o) =
      swapScripts cfg id skip (Function.update scripts' address o) := by
  funext addr
  by_cases heq : addr = address
  · subst heq
    simp only [swapScripts, Function.update_self]
  · have haddr := congrFun h addr
    simpa only [swapScripts, Function.update_of_ne heq] using haddr

theorem swapScripts_filter (h : swapScripts cfg id skip scripts = swapScripts cfg id skip scripts')
    (keep : UtxoScript → Bool) :
    swapScripts cfg id skip (fun addr => (scripts addr).filter keep) =
      swapScripts cfg id skip (fun addr => (scripts' addr).filter keep) := by
  have hcomm : ∀ o : Option UtxoScript, (o.filter keep).filter (ofSwap cfg id) =
      (o.filter (ofSwap cfg id)).filter keep := by
    intro o
    rw [Option.filter_filter, Option.filter_filter]
    simp only [Bool.and_comm]
  funext addr
  have haddr := congrFun h addr
  cases hskip : skip addr with
  | true => rw [swapScripts_of_skip hskip, swapScripts_of_skip hskip]
  | false =>
    rw [swapScripts_of_not_skip hskip, swapScripts_of_not_skip hskip] at haddr ⊢
    rw [hcomm, hcomm, haddr]

end

@[ext] structure SwapView where
  commitment : Option CommitmentV1
  refunds : PendingRefunds
  claims : List RevealV1
  claimAttempt : Option AttemptState
  refundAttempt : Option AttemptState
deriving DecidableEq

def State.swapView (st : State) (id : SwapId) : SwapView where
  commitment := st.commitments id
  refunds := st.pendingRefunds.filter (·.1.swapId = id)
  claims := st.pendingClaims.filter (·.swapId = id)
  claimAttempt := st.queue (.claim id)
  refundAttempt := st.queue (.refund id)

section
variable {id : SwapId}

theorem any_filter_self {α : Type} (p : α → Bool) (l : List α) :
    (l.filter p).any p = l.any p := by
  rw [List.any_filter]
  simp only [Bool.and_self]

theorem filter_queueDequeueRefundEvent (id : SwapId) (l : PendingRefunds) (event : ChainEvent)
    (ccr : Bool) :
    (queueDequeueRefundEvent l event ccr).filter (·.1.swapId = id) =
      if event.swapId = id then
        queueDequeueRefundEvent (l.filter (·.1.swapId = id)) event ccr
      else l.filter (·.1.swapId = id) := by
  have hfilter : ∀ i, (l.filter (·.1.swapId ≠ i)).filter (·.1.swapId = id) =
      if i = id then (l.filter (·.1.swapId = id)).filter (·.1.swapId ≠ i)
      else l.filter (·.1.swapId = id) := by
    intro i
    rw [List.filter_filter]
    split_ifs with heq
    · rw [List.filter_filter]
      simp only [Bool.and_comm]
    · congr 1
      funext p
      by_cases hp : p.1.swapId = id
      · simp [hp, Ne.symm heq]
      · simp [hp]
  cases event with
  | commitment c =>
    by_cases heq : (ChainEvent.commitment c).swapId = id
    · rw [if_pos heq]
      obtain rfl : c.swapId = id := heq
      simp only [queueDequeueRefundEvent, any_filter_self]
      split_ifs
      · simp
      · rfl
    · rw [if_neg heq]
      simp only [queueDequeueRefundEvent]
      split_ifs
      · simpa [ChainEvent.swapId] using heq
      · rfl
  | reveal r => exact hfilter r.swapId
  | refund r => exact hfilter r.swapId

private theorem filter_pushPendingClaim (id : SwapId) (l : List RevealV1) (r : RevealV1) :
    (pushPendingClaim l r).filter (·.swapId = id) =
      if r.swapId = id then pushPendingClaim (l.filter (·.swapId = id)) r
      else l.filter (·.swapId = id) := by
  unfold pushPendingClaim
  by_cases heq : r.swapId = id
  · rw [if_pos heq]
    subst heq
    simp only [any_filter_self]
    split_ifs
    · rfl
    · simp
  · rw [if_neg heq]
    split_ifs
    · rfl
    · simp [heq]

theorem filter_settled {α : Type} (swap : α → SwapId) (i : SwapId) (l : List α) :
    (l.filter (swap · ≠ i)).filter (swap · = id) =
      if i = id then [] else l.filter (swap · = id) := by
  rw [List.filter_filter]
  split_ifs with heq
  · subst heq
    simp
  · congr 1
    funext x
    by_cases hx : swap x = id
    · simp [hx, Ne.symm heq]
    · simp [hx]

theorem ensure_apply (q : RetryQueue) (k k' : ActionKey) (now : UInt64) :
    q.ensure k now k' = if k' = k then some ((q k).getD (AttemptState.new now)) else q k' := by
  unfold RetryQueue.ensure
  split_ifs with hsome heq heq
  · obtain ⟨a, ha⟩ := Option.isSome_iff_exists.mp hsome
    rw [heq, ha, Option.getD_some]
  · rfl
  · have hnone : q k = none := by simpa using hsome
    rw [heq, Function.update_self, hnone, Option.getD_none]
  · exact Function.update_of_ne heq _ _

namespace SwapView

/-- What an event makes of the work of its swap. -/
def track (cfg : Config) (event : ChainEvent) (v : SwapView) : SwapView :=
  let refunds := queueDequeueRefundEvent v.refunds event cfg.participateCcr
  match event with
  | .commitment c => { v with commitment := some c, refunds := refunds }
  | _ => ⟨none, refunds, [], none, none⟩

def schedule (now : UInt64) (refund : SwapId × UInt64) (v : SwapView) : SwapView :=
  if v.refunds.any (·.1.swapId = refund.1) then v
  else { v with
    refunds := v.refunds ++ [(⟨refund.1⟩, refund.2)]
    refundAttempt := some (v.refundAttempt.getD (AttemptState.new now)) }

/-- What an emitted reveal makes of the work of its swap. -/
def claim (cfg : Config) (now : UInt64) (r : RevealV1) (v : SwapView) : SwapView :=
  if cfg.participateCcr && v.commitment.isSome then
    { v with
      claims := pushPendingClaim v.claims r
      claimAttempt := some (v.claimAttempt.getD (AttemptState.new now)) }
  else v

def settled (action : Action) (v : SwapView) : SwapView :=
  match action with
  | .claim => { v with claims := [], claimAttempt := none }
  | .refund => { v with refunds := [], refundAttempt := none }

def failed (k : ActionKey) (now : UInt64) (v : SwapView) : SwapView :=
  match k.action with
  | .claim => { v with claimAttempt := v.claimAttempt.map (·.onFailure now k.jitter) }
  | .refund => { v with refundAttempt := v.refundAttempt.map (·.onFailure now k.jitter) }

end SwapView

namespace State

variable {cfg : Config} {st st' : State} {now : UInt64}

@[simp] theorem swapView_persistSwap (st : State) (id id' : SwapId) :
    (st.persistSwap id').swapView id = st.swapView id := rfl

/-- Nothing but its refunds is left of a settled swap; other swaps are as before. -/
theorem swapView_untrack (st : State) (i id : SwapId) : (st.untrack i).swapView id =
    if i = id then ⟨none, (st.swapView id).refunds, [], none, none⟩ else st.swapView id := by
  by_cases heq : i = id
  · subst heq
    rw [if_pos rfl]
    ext1
    · exact Function.update_self ..
    · rfl
    · exact (filter_settled (·.swapId) i st.pendingClaims).trans (if_pos rfl)
    · simp [swapView, untrack, RetryQueue.recordSuccess, ActionKey.claim, ActionKey.refund]
    · simp [swapView, untrack, RetryQueue.recordSuccess]
  · rw [if_neg heq]
    ext1
    · exact Function.update_of_ne (Ne.symm heq) _ _
    · rfl
    · exact (filter_settled (·.swapId) i st.pendingClaims).trans (if_neg heq)
    · simp [swapView, untrack, RetryQueue.recordSuccess, ActionKey.claim, ActionKey.refund,
        Ne.symm heq]
    · simp [swapView, untrack, RetryQueue.recordSuccess, ActionKey.claim, ActionKey.refund,
        Ne.symm heq]

theorem swapView_resolved {event : ChainEvent} {l : PendingRefunds} (hresolving : event.isResolving)
    (hrefunds : l.filter (·.1.swapId = id) = if event.swapId = id then
      queueDequeueRefundEvent (st.swapView id).refunds event cfg.participateCcr
      else (st.swapView id).refunds) :
    ({ st with pendingRefunds := l }.untrack event.swapId).swapView id =
      if event.swapId = id then (st.swapView id).track cfg event else st.swapView id := by
  rw [swapView_untrack]
  split_ifs at hrefunds ⊢ with heq
  · cases event with
    | commitment c => cases hresolving
    | reveal r => exact congrArg (SwapView.mk none · [] none none) hrefunds
    | refund r => exact congrArg (SwapView.mk none · [] none none) hrefunds
  · exact congrArg (fun refunds => { st.swapView id with refunds := refunds }) hrefunds

theorem swapView_trackActionableEvent (cfg : Config) (st : State) (event : ChainEvent)
    (id : SwapId) : (st.trackActionableEvent cfg event).swapView id =
      if event.swapId = id then (st.swapView id).track cfg event else st.swapView id := by
  have hrefunds := filter_queueDequeueRefundEvent id st.pendingRefunds event cfg.participateCcr
  cases event with
  | commitment c =>
    by_cases heq : (ChainEvent.commitment c).swapId = id
    · rw [if_pos heq] at hrefunds ⊢
      obtain rfl : c.swapId = id := heq
      ext1
      · exact Function.update_self ..
      · exact hrefunds
      · rfl
      · rfl
      · rfl
    · rw [if_neg heq] at hrefunds ⊢
      ext1
      · exact Function.update_of_ne (Ne.symm heq) _ _
      · exact hrefunds
      · rfl
      · rfl
      · rfl
  | reveal r => exact swapView_resolved rfl hrefunds
  | refund r => exact swapView_resolved rfl hrefunds

theorem swapView_scheduleRefund (now : UInt64) (st : State) (refund : SwapId × UInt64)
    (id : SwapId) : (st.scheduleRefund now refund).swapView id =
      if refund.1 = id then (st.swapView id).schedule now refund else st.swapView id := by
  obtain ⟨i, unlock⟩ := refund
  have hany : (st.swapView i).refunds.any (·.1.swapId = i) =
      st.pendingRefunds.any (·.1.swapId = i) := any_filter_self _ _
  unfold scheduleRefund pushPendingRefund SwapView.schedule
  cases hpending : st.pendingRefunds.any (·.1.swapId = i) with
  | true =>
    rw [hpending] at hany
    simp only [if_true]
    split_ifs with heq hother
    · rfl
    · exact absurd (heq ▸ hany) hother
    · rfl
  | false =>
    rw [hpending] at hany
    simp only [Bool.false_eq_true, if_false, swapView_persistSwap]
    by_cases heq : i = id
    · subst heq
      rw [if_pos rfl, if_neg (by simp [hany])]
      ext1
      · rfl
      · simp [swapView]
      · rfl
      · exact (ensure_apply ..).trans (if_neg (by simp [ActionKey.claim, ActionKey.refund]))
      · exact (ensure_apply ..).trans (if_pos rfl)
    · rw [if_neg heq]
      ext1
      · rfl
      · simp [swapView, heq]
      · rfl
      · exact (ensure_apply ..).trans (if_neg (by simp [ActionKey.claim, ActionKey.refund]))
      · exact (ensure_apply ..).trans (if_neg (by simp [ActionKey.refund, Ne.symm heq]))

theorem swapView_emitReveal (cfg : Config) (now : UInt64) (network : Except KaspaError Network)
    (st : State) (r : RevealV1) (id : SwapId) :
    (st.emitEvent cfg now network (.reveal r)).2.swapView id =
      if r.swapId = id then (st.swapView id).claim cfg now r else st.swapView id := by
  have hclaims := filter_pushPendingClaim id st.pendingClaims r
  by_cases heq : r.swapId = id
  · subst heq
    rw [if_pos rfl] at hclaims ⊢
    have hcommitment : (st.swapView r.swapId).commitment = st.commitments r.swapId := rfl
    simp only [emitEvent, SwapView.claim, hcommitment]
    split_ifs
    · ext1
      · rfl
      · rfl
      · exact hclaims
      · exact (ensure_apply ..).trans (if_pos rfl)
      · exact (ensure_apply ..).trans (if_neg (by simp [ActionKey.claim, ActionKey.refund]))
    · rfl
  · rw [if_neg heq] at hclaims ⊢
    simp only [emitEvent]
    split_ifs
    · ext1
      · rfl
      · rfl
      · exact hclaims
      · exact (ensure_apply ..).trans (if_neg (by simp [ActionKey.claim, Ne.symm heq]))
      · exact (ensure_apply ..).trans (if_neg (by simp [ActionKey.claim, ActionKey.refund]))
    · rfl

theorem swapView_recordSuccess (st : State) (k : ActionKey) (id : SwapId) :
    (st.recordSuccess k).swapView id =
      if k.swapId = id then (st.swapView id).settled k.action else st.swapView id := by
  obtain ⟨i, action⟩ := k
  have hqueue : ∀ k' : ActionKey, st.queue.recordSuccess ⟨i, action⟩ k' =
      if k' = ⟨i, action⟩ then none else st.queue k' :=
    fun k' => Function.update_apply ..
  by_cases heq : i = id
  · subst heq
    rw [if_pos rfl]
    cases action with
    | claim =>
      ext1
      · rfl
      · rfl
      · exact (filter_settled (·.swapId) i st.pendingClaims).trans (if_pos rfl)
      · exact (hqueue _).trans (if_pos rfl)
      · exact (hqueue _).trans (if_neg (by simp [ActionKey.refund]))
    | refund =>
      ext1
      · rfl
      · exact (filter_settled (·.1.swapId) i st.pendingRefunds).trans (if_pos rfl)
      · rfl
      · exact (hqueue _).trans (if_neg (by simp [ActionKey.claim]))
      · exact (hqueue _).trans (if_pos rfl)
  · rw [if_neg heq]
    cases action with
    | claim =>
      ext1
      · rfl
      · rfl
      · exact (filter_settled (·.swapId) i st.pendingClaims).trans (if_neg heq)
      · exact (hqueue _).trans (if_neg (by simp [ActionKey.claim, Ne.symm heq]))
      · exact (hqueue _).trans (if_neg (by simp [ActionKey.refund]))
    | refund =>
      ext1
      · rfl
      · exact (filter_settled (·.1.swapId) i st.pendingRefunds).trans (if_neg heq)
      · rfl
      · exact (hqueue _).trans (if_neg (by simp [ActionKey.claim]))
      · exact (hqueue _).trans (if_neg (by simp [ActionKey.refund, Ne.symm heq]))

private theorem recordFailure_apply (q : RetryQueue) (k k' : ActionKey) (now jitter : UInt64) :
    q.recordFailure k now jitter k' =
      if k' = k then (q k').map (·.onFailure now jitter) else q k' := by
  rw [RetryQueue.recordFailure_eq_modify]
  split_ifs with heq
  · rw [heq, RetryQueue.modify_self]
  · exact RetryQueue.modify_of_ne heq

theorem swapView_recordFailure (st : State) (k : ActionKey) (now : UInt64) (id : SwapId) :
    (st.recordFailure k now).swapView id =
      if k.swapId = id then (st.swapView id).failed k now else st.swapView id := by
  have hqueue := fun k' => recordFailure_apply st.queue k k' now k.jitter
  have hview : (st.recordFailure k now).swapView id = { st.swapView id with
      claimAttempt := if ActionKey.claim id = k then
        (st.queue (.claim id)).map (·.onFailure now k.jitter) else st.queue (.claim id)
      refundAttempt := if ActionKey.refund id = k then
        (st.queue (.refund id)).map (·.onFailure now k.jitter) else st.queue (.refund id) } := by
    ext1
    · rfl
    · rfl
    · rfl
    · exact hqueue _
    · exact hqueue _
  rw [hview]
  obtain ⟨i, action⟩ := k
  by_cases heq : i = id
  · subst heq
    cases action with
    | claim => simp [SwapView.failed, ActionKey.claim, ActionKey.refund, swapView]
    | refund => simp [SwapView.failed, ActionKey.claim, ActionKey.refund, swapView]
  · simp [ActionKey.claim, ActionKey.refund, heq, Ne.symm heq, swapView]

/-- Tracking keeps two channels equal in a swap when they have the same events of it. -/
theorem swapView_trackEvents {events events' : List ChainEvent}
    (hview : st.swapView id = st'.swapView id)
    (hevents : events.filter (·.swapId = id) = events'.filter (·.swapId = id)) :
    (events.foldl (trackActionableEvent cfg) st).swapView id =
      (events'.foldl (trackActionableEvent cfg) st').swapView id := by
  have hunwind : Runs.Unwinding (trackActionableEvent cfg) (fun _ _ => ([] : List Unit))
      (fun e => decide (e.swapId = id)) (fun _ _ => True)
      (fun st st' => st.swapView id = st'.swapView id) := by
    refine ⟨Eq.symm, fun h hi _ => ⟨?_, rfl⟩, fun h _ _ _ => ⟨?_, rfl⟩⟩
    · rw [swapView_trackActionableEvent, if_neg (of_decide_eq_false hi), h]
    · rw [swapView_trackActionableEvent, swapView_trackActionableEvent, h]
  exact (hunwind.runs hview hevents (Runs.along_true _ _) (Runs.along_true _ _)).1

private theorem swapView_scheduleRefunds {refunds refunds' : List (SwapId × UInt64)}
    (hview : st.swapView id = st'.swapView id)
    (hrefunds : refunds.filter (·.1 = id) = refunds'.filter (·.1 = id)) :
    (refunds.foldl (scheduleRefund now) st).swapView id =
      (refunds'.foldl (scheduleRefund now) st').swapView id := by
  have hunwind : Runs.Unwinding (scheduleRefund now) (fun _ _ => ([] : List Unit))
      (fun r => decide (r.1 = id)) (fun _ _ => True)
      (fun st st' => st.swapView id = st'.swapView id) := by
    refine ⟨Eq.symm, fun h hi _ => ⟨?_, rfl⟩, fun h _ _ _ => ⟨?_, rfl⟩⟩
    · rw [swapView_scheduleRefund, if_neg (of_decide_eq_false hi), h]
    · rw [swapView_scheduleRefund, swapView_scheduleRefund, h]
  exact (hunwind.runs hview hrefunds (Runs.along_true _ _) (Runs.along_true _ _)).1

def applyOutcomes (cfg : Config) (now : UInt64) (st : State) (o : BlockOutcomes) : State :=
  o.events.foldl (trackActionableEvent cfg)
    (if cfg.participateCcr then o.refunds.foldl (scheduleRefund now) st else st)

theorem processBlock_eq_ok (now : UInt64) {block : Block} {o : BlockOutcomes}
    (h : (handleBlockAdded cfg block st.utxoScripts).1 = .ok o) :
    st.processBlock cfg now block = (.ok o.events,
      { st with utxoScripts := (handleBlockAdded cfg block st.utxoScripts).2 }.applyOutcomes cfg
        now o) := by
  have hadded : handleBlockAdded cfg block st.utxoScripts =
      (.ok o, (handleBlockAdded cfg block st.utxoScripts).2) := Prod.ext h rfl
  unfold processBlock
  rw [hadded]
  rfl

@[simp] theorem utxoScripts_applyOutcomes (cfg : Config) (now : UInt64) (st : State)
    (o : BlockOutcomes) : (st.applyOutcomes cfg now o).utxoScripts = st.utxoScripts := by
  simp only [applyOutcomes, utxoScripts_trackEvents]
  split_ifs
  · exact utxoScripts_scheduleRefunds _ _
  · rfl

@[simp] theorem safeBlocks_applyOutcomes (cfg : Config) (now : UInt64) (st : State)
    (o : BlockOutcomes) : (st.applyOutcomes cfg now o).safeBlocks = st.safeBlocks := by
  simp only [applyOutcomes, Channel.safeBlocks_trackEvents]
  split_ifs
  · exact Channel.safeBlocks_scheduleRefunds _ _
  · rfl

private theorem swapView_applyOutcomes {o o' : BlockOutcomes}
    (hview : st.swapView id = st'.swapView id)
    (hof : o.of id = o'.of id) :
    (st.applyOutcomes cfg now o).swapView id = (st'.applyOutcomes cfg now o').swapView id := by
  simp only [BlockOutcomes.of, BlockOutcomes.mk.injEq] at hof
  refine swapView_trackEvents ?_ hof.1
  split_ifs
  · exact swapView_scheduleRefunds hview hof.2
  · exact hview

end State
end

/-- Two channels that make the same of the deposits of a swap, except at the addresses that are
left out. -/
structure State.Same (cfg : Config) (id : SwapId) (skip : String → Bool) (st st' : State) :
    Prop where
  watched : swapScripts cfg id skip st.utxoScripts = swapScripts cfg id skip st'.utxoScripts
  view : st.swapView id = st'.swapView id
  blocks : st.safeBlocks = st'.safeBlocks
  parsed : Parsed st.utxoScripts
  parsed' : Parsed st'.utxoScripts

namespace State.Same

variable {cfg : Config} {id : SwapId} {skip : String → Bool} {st st' : State}

theorem symm (h : Same cfg id skip st st') : Same cfg id skip st' st :=
  ⟨h.watched.symm, h.view.symm, h.blocks.symm, h.parsed', h.parsed⟩

/-- A change of both channels that leaves scripts and blocks alone. -/
theorem of_kept (h : Same cfg id skip st st') {f : State → State}
    (hkept : ∀ st, (f st).utxoScripts = st.utxoScripts ∧ (f st).safeBlocks = st.safeBlocks)
    (hview : (f st).swapView id = (f st').swapView id) : Same cfg id skip (f st) (f st') := by
  obtain ⟨hscripts, hblocks⟩ := hkept st
  obtain ⟨hscripts', hblocks'⟩ := hkept st'
  refine ⟨?_, hview, ?_, ?_, ?_⟩
  · rw [hscripts, hscripts']
    exact h.watched
  · rw [hblocks, hblocks']
    exact h.blocks
  · rw [hscripts]
    exact h.parsed
  · rw [hscripts']
    exact h.parsed'

theorem pruneScripts (h : Same cfg id skip st st') (now : UInt64) :
    Same cfg id skip (st.pruneScripts cfg now) (st'.pruneScripts cfg now) := by
  have hsub : ∀ (st : State) addr s, (st.pruneScripts cfg now).utxoScripts addr = some s →
      st.utxoScripts addr = some s :=
    fun _ _ _ hs => (Option.filter_eq_some_iff.mp hs).1
  exact ⟨swapScripts_filter h.watched _, h.view, h.blocks, h.parsed.of_le (hsub st),
    h.parsed'.of_le (hsub st')⟩

theorem registerInternal (h : Same cfg id skip st st') (address : String) (script : UtxoScript)
    (hscript : ∃ ops, parseOpcodes script.redeemScript = .ok ops) :
    Same cfg id skip (st.registerInternal address script)
      (st'.registerInternal address script) := by
  have hparsed : ∀ {st : State}, Parsed st.utxoScripts →
      Parsed (st.registerInternal address script).utxoScripts := by
    intro st hst addr s hs
    rcases UtxoTracker.watched_registerInternal hs with hs | ⟨-, rfl⟩
    · exact hst addr s hs
    · exact hscript
  exact ⟨swapScripts_update h.watched address _, h.view, h.blocks, hparsed h.parsed,
    hparsed h.parsed'⟩

theorem processBlock (h : Same cfg id skip st st') (now : UInt64) {block : Block}
    (huntouched : ∀ tx ∈ block.transactions, Untouched cfg skip tx) :
    ∃ events events', (st.processBlock cfg now block).1 = .ok events ∧
      (st'.processBlock cfg now block).1 = .ok events' ∧
      events.filter (·.swapId = id) = events'.filter (·.swapId = id) ∧
      Same cfg id skip (st.processBlock cfg now block).2 (st'.processBlock cfg now block).2 := by
  have hnil : (⟨[], []⟩ : BlockOutcomes).of id = (⟨[], []⟩ : BlockOutcomes).of id := rfl
  obtain ⟨o, m, ho, hm, hof, hscripts⟩ := handleTransactions_of h.parsed huntouched hnil
  obtain ⟨o', m', ho', hm', hof', hscripts'⟩ := handleTransactions_of h.parsed' huntouched hnil
  rw [← h.watched] at hm' hscripts'
  obtain rfl : m = m' := Except.ok.inj (hm.symm.trans hm')
  have heq : o.of id = o'.of id := hof.trans hof'.symm
  rw [processBlock_eq_ok now ho, processBlock_eq_ok now ho']
  refine ⟨o.events, o'.events, rfl, rfl, congrArg BlockOutcomes.events heq, ?_, ?_, ?_, ?_, ?_⟩
  · rw [utxoScripts_applyOutcomes, utxoScripts_applyOutcomes]
    exact hscripts.trans hscripts'.symm
  · exact swapView_applyOutcomes h.view heq
  · rw [safeBlocks_applyOutcomes, safeBlocks_applyOutcomes]
    exact h.blocks
  · rw [utxoScripts_applyOutcomes]
    exact h.parsed.of_le fun _ _ => handleTransactions_scripts _ _
  · rw [utxoScripts_applyOutcomes]
    exact h.parsed'.of_le fun _ _ => handleTransactions_scripts _ _

theorem processBlocks (h : Same cfg id skip st st') (now : UInt64) {blocks : List Block}
    (huntouched : ∀ b ∈ blocks, ∀ tx ∈ b.transactions, Untouched cfg skip tx)
    {acc acc' : List (ChannelId × ChainEvent)}
    (hacc : (acc.map (·.2)).filter (·.swapId = id) = (acc'.map (·.2)).filter (·.swapId = id)) :
    ∃ events events', (State.processBlocks cfg now blocks st acc).1 = .ok events ∧
      (State.processBlocks cfg now blocks st' acc').1 = .ok events' ∧
      (events.map (·.2)).filter (·.swapId = id) = (events'.map (·.2)).filter (·.swapId = id) ∧
      Same cfg id skip (State.processBlocks cfg now blocks st acc).2
        (State.processBlocks cfg now blocks st' acc').2 := by
  induction blocks generalizing st st' acc acc' with
  | nil => exact ⟨acc, acc', rfl, rfl, hacc, h.pruneScripts now⟩
  | cons block blocks ih =>
    rw [List.forall_mem_cons] at huntouched
    obtain ⟨events, events', hevents, hevents', heq, hnext⟩ := h.processBlock now huntouched.1
    have hblock : st.processBlock cfg now block = (.ok events, (st.processBlock cfg now block).2) :=
      Prod.ext hevents rfl
    have hblock' : st'.processBlock cfg now block =
        (.ok events', (st'.processBlock cfg now block).2) := Prod.ext hevents' rfl
    rw [State.processBlocks, State.processBlocks, hblock, hblock']
    apply ih hnext huntouched.2
    simp [hacc, heq, List.map_map, Function.comp_def]

theorem pollFinalized (h : Same cfg id skip st st') (now : UInt64)
    (huntouched : ∀ b ∈ st.safeBlocks, ∀ tx ∈ b.transactions, Untouched cfg skip tx) :
    ∃ events events', (st.pollFinalized cfg now).1 = .ok events ∧
      (st'.pollFinalized cfg now).1 = .ok events' ∧
      (events.map (·.2)).filter (·.swapId = id) = (events'.map (·.2)).filter (·.swapId = id) ∧
      Same cfg id skip (st.pollFinalized cfg now).2 (st'.pollFinalized cfg now).2 := by
  have hdrained : Same cfg id skip { st with safeBlocks := [] } { st' with safeBlocks := [] } :=
    ⟨h.watched, h.view, rfl, h.parsed, h.parsed'⟩
  unfold State.pollFinalized
  rw [← h.blocks]
  exact hdrained.processBlocks now huntouched rfl

theorem emitEvent (h : Same cfg id skip st st') (now : UInt64)
    (network : Except KaspaError Network) (event : ChainEvent) :
    Same cfg id skip (st.emitEvent cfg now network event).2
      (st'.emitEvent cfg now network event).2 := by
  have hview := SwapView.ext_iff.mp h.view
  cases event with
  | commitment c =>
    have hcached : Same cfg id skip (st.cacheCommitment c) (st'.cacheCommitment c) := by
      refine ⟨h.watched, SwapView.ext ?_ hview.2.1 hview.2.2.1 hview.2.2.2.1 hview.2.2.2.2,
        h.blocks, h.parsed, h.parsed'⟩
      simp only [swapView, cacheCommitment, Function.update_apply]
      split_ifs
      · rfl
      · exact hview.1
    unfold State.emitEvent
    dsimp only
    split_ifs
    · cases hsubmit : submitCommitment cfg network c with
      | error e => exact hcached
      | ok submitted =>
        obtain ⟨address, redeem⟩ := submitted
        obtain ⟨n, -, hbuilt, -⟩ := submitCommitment_eq_ok hsubmit
        obtain ⟨_, _, -, -, hcreate⟩ := htlcScriptFromCommitment_eq_ok hbuilt
        have hregistered := hcached.registerInternal address ⟨redeem, c.unlockTs, c.amount.value⟩
          ⟨_, parseOpcodes_eq_ok.mpr (parseScript_built hcreate)⟩
        exact ⟨hregistered.watched, hregistered.view, hregistered.blocks, hregistered.parsed,
          hregistered.parsed'⟩
    · exact hcached
  | reveal r =>
    apply h.of_kept (f := fun st => (st.emitEvent cfg now network (.reveal r)).2)
    · intro st
      simp only [State.emitEvent]
      split_ifs
      · exact ⟨rfl, rfl⟩
      · exact ⟨rfl, rfl⟩
    · rw [swapView_emitReveal, swapView_emitReveal, h.view]
  | refund r => exact h

theorem recordSuccess (h : Same cfg id skip st st') (k : ActionKey) :
    Same cfg id skip (st.recordSuccess k) (st'.recordSuccess k) := by
  apply h.of_kept (f := fun st => st.recordSuccess k)
  · intro st
    obtain ⟨i, action⟩ := k
    cases action with
    | claim => exact ⟨rfl, rfl⟩
    | refund => exact ⟨rfl, rfl⟩
  · rw [swapView_recordSuccess, swapView_recordSuccess, h.view]

theorem recordFailure (h : Same cfg id skip st st') (k : ActionKey) (now : UInt64) :
    Same cfg id skip (st.recordFailure k now) (st'.recordFailure k now) := by
  apply h.of_kept (f := fun st => st.recordFailure k now)
  · intro st
    exact ⟨rfl, rfl⟩
  · rw [swapView_recordFailure, swapView_recordFailure, h.view]

end State.Same

/-- What a channel is given: an announcement that reached it, or anything else. -/
inductive WatchInput
  | announce (now : UInt64) (s : ScriptAnnounce)
  | receive (blocks : List Block)
  | poll (now : UInt64)
  | emit (now : UInt64) (network : Except KaspaError Network) (event : ChainEvent)
  | success (k : ActionKey)
  | failure (k : ActionKey) (now : UInt64)

namespace WatchInput

/-- What two runs have in common: everything but the announcements, which may differ in any way, for
this swap and for others. -/
def shared : WatchInput → Bool
  | .announce _ _ => false
  | _ => true

end WatchInput

def announcedScript (s : ScriptAnnounce) : UtxoScript :=
  ⟨s.redeemScript, s.unlockTs, s.depositTarget⟩

def Accepts (cfg : Config) (s : ScriptAnnounce) : Prop :=
  validateScriptAnnounce cfg.codec cfg.blake2b cfg.networkId cfg.channelId s.address s.redeemScript
    s.swapId s.unlockTs = .ok ()

instance (cfg : Config) (s : ScriptAnnounce) : Decidable (Accepts cfg s) :=
  inferInstanceAs (Decidable (_ = _))

namespace State

def watch (cfg : Config) (st : State) : WatchInput → State
  | .announce now s =>
    (st.registerScript cfg now s.address s.redeemScript s.swapId s.unlockTs s.depositTarget).2
  | .receive blocks => { st with safeBlocks := st.safeBlocks ++ blocks }
  | .poll now => (st.pollFinalized cfg now).2
  | .emit now network event => (st.emitEvent cfg now network event).2
  | .success k => st.recordSuccess k
  | .failure k now => st.recordFailure k now

/-- The events of a swap that a poll returns. -/
def swapEvents (cfg : Config) (id : SwapId) (st : State) : WatchInput → List ChainEvent
  | .poll now =>
    match (st.pollFinalized cfg now).1 with
    | .ok events => (events.map (·.2)).filter (·.swapId = id)
    | .error _ => []
  | _ => []

/-- An accepted announcement leaves the scripts of a swap alone: it finds none of them at the end
of its time to live, and at its own address it finds the script of the swap that it announces, or
none when it announces none. -/
def LeavesAlone (cfg : Config) (id : SwapId) (skip : String → Bool) (st : State) :
    WatchInput → Prop
  | .announce now s => Accepts cfg s →
      (∀ addr script, swapScripts cfg id skip st.utxoScripts addr = some script →
        now ≤ saturatingAdd script.unlockTs cfg.scriptTtlSecs) ∧
      (skip s.address = true ∨ swapScripts cfg id skip st.utxoScripts s.address =
        (some (announcedScript s)).filter (ofSwap cfg id))
  | _ => True

def Unfunded (cfg : Config) (address : String) (st : State) : WatchInput → Prop
  | .poll _ => ∀ b ∈ st.safeBlocks, ∀ tx ∈ b.transactions, Untouched cfg (· = address) tx
  | _ => True

variable {cfg : Config} {id : SwapId} {skip : String → Bool} {st st' : State}

/-- An announced script takes the place of what was known before. -/
def registered (st : State) (s : ScriptAnnounce) : State :=
  { st with
    scripts := Function.update st.scripts s.swapId (some (announcedScript s))
    utxoScripts := Function.update st.utxoScripts s.address (some (announcedScript s)) }

theorem watch_announce {now : UInt64} {s : ScriptAnnounce} (h : Accepts cfg s) :
    st.watch cfg (.announce now s) =
      ((st.registered s).pruneScripts cfg now).persistSwap s.swapId := by
  unfold Accepts at h
  simp only [watch, registerScript, h]
  rfl

theorem watch_announce_rejected {now : UInt64} {s : ScriptAnnounce} (h : ¬ Accepts cfg s) :
    st.watch cfg (.announce now s) = st := by
  unfold Accepts at h
  simp only [watch, registerScript]
  cases hvalid : validateScriptAnnounce cfg.codec cfg.blake2b cfg.networkId cfg.channelId s.address
      s.redeemScript s.swapId s.unlockTs with
  | error e => rfl
  | ok u => exact absurd hvalid h

private theorem parses_of_accepts {s : ScriptAnnounce} (h : Accepts cfg s) :
    ∃ ops, parseOpcodes (announcedScript s).redeemScript = .ok ops := by
  obtain ⟨_, slots, -, -, hparse, -⟩ := validateScriptAnnounce_eq_ok h
  exact ⟨slots.opcodes, parseOpcodes_eq_ok.mpr hparse⟩

private theorem parsed_registered {s : ScriptAnnounce} (haccepts : Accepts cfg s)
    (h : Parsed st.utxoScripts) : Parsed (st.registered s).utxoScripts := by
  intro addr script hscript
  simp only [registered, Function.update_apply] at hscript
  split_ifs at hscript
  · cases hscript
    exact parses_of_accepts haccepts
  · exact h addr script hscript

theorem parsed_announce {s : ScriptAnnounce} (now : UInt64) (h : Parsed st.utxoScripts) :
    Parsed (st.watch cfg (.announce now s)).utxoScripts := by
  by_cases haccepts : Accepts cfg s
  · rw [watch_announce haccepts]
    exact (parsed_registered haccepts h).of_le fun _ _ hs => (Option.filter_eq_some_iff.mp hs).1
  · rwa [watch_announce_rejected haccepts]

theorem Same.genuine {s : ScriptAnnounce} (h : Same cfg id (· = s.address) st st')
    (haccepts : Accepts cfg s) (now : UInt64) : Same cfg id (fun _ => false)
      (st.watch cfg (.announce now s)) (st'.watch cfg (.announce now s)) := by
  refine ⟨?_, ?_, ?_, parsed_announce now h.parsed, parsed_announce now h.parsed'⟩
  · rw [watch_announce haccepts, watch_announce haccepts]
    refine swapScripts_filter (funext fun addr => ?_) _
    simp only [registered, swapScripts, Bool.false_eq_true, if_false, Function.update_apply]
    split_ifs with heq
    · rfl
    · simpa [swapScripts, heq] using congrFun h.watched addr
  · rw [watch_announce haccepts, watch_announce haccepts]
    exact h.view
  · rw [watch_announce haccepts, watch_announce haccepts]
    exact h.blocks

theorem Same.further (h : Same cfg id skip st st') {now : UInt64} {s : ScriptAnnounce}
    (halone : st.LeavesAlone cfg id skip (.announce now s)) :
    Same cfg id skip (st.watch cfg (.announce now s)) st' := by
  by_cases haccepts : Accepts cfg s
  · obtain ⟨hlive, haddress⟩ := halone haccepts
    refine ⟨?_, ?_, ?_, parsed_announce now h.parsed, h.parsed'⟩
    · rw [← h.watched, watch_announce haccepts]
      funext addr
      cases hskip : skip addr with
      | true => rw [swapScripts_of_skip hskip, swapScripts_of_skip hskip]
      | false =>
        have hkept : ((swapScripts cfg id skip st.utxoScripts addr).filter fun script =>
            now ≤ saturatingAdd script.unlockTs cfg.scriptTtlSecs) =
            swapScripts cfg id skip st.utxoScripts addr := by
          cases hs : swapScripts cfg id skip st.utxoScripts addr with
          | none => rfl
          | some script => simpa [Option.filter_some] using hlive addr script hs
        have hfound : ((st.registered s).utxoScripts addr).filter (ofSwap cfg id) =
            swapScripts cfg id skip st.utxoScripts addr := by
          simp only [registered, Function.update_apply]
          split_ifs with heq
          · subst heq
            exact (haddress.resolve_left (by simp [hskip])).symm
          · exact (swapScripts_of_not_skip hskip).symm
        rw [swapScripts_of_not_skip hskip, ← hkept, ← hfound]
        change (((st.registered s).utxoScripts addr).filter _).filter _ = _
        rw [Option.filter_filter, Option.filter_filter]
        simp only [Bool.and_comm]
    · rw [watch_announce haccepts]
      exact h.view
    · rw [watch_announce haccepts]
      exact h.blocks
  · rwa [watch_announce_rejected haccepts]

/-- What a run may meet: announcements that leave the swap alone, and polls that find nothing at
the addresses that are left out. -/
def Undisturbed (cfg : Config) (id : SwapId) (skip : String → Bool) (st : State) (i : WatchInput) :
    Prop :=
  st.LeavesAlone cfg id skip i ∧ ∀ now, i = .poll now →
    ∀ b ∈ st.safeBlocks, ∀ tx ∈ b.transactions, Untouched cfg skip tx

theorem unwinding_watch (cfg : Config) (id : SwapId) (skip : String → Bool) :
    Runs.Unwinding (watch cfg) (swapEvents cfg id) WatchInput.shared (Undisturbed cfg id skip)
      (Same cfg id skip) where
  symm h := h.symm
  hidden {st st' i} h hi halone := by
    cases i with
    | announce now s => exact ⟨h.further halone.1, rfl⟩
    | _ => cases hi
  seen {st st' i} h hi halone _ := by
    cases i with
    | announce now s => cases hi
    | receive blocks =>
      exact ⟨⟨h.watched, h.view, congrArg (· ++ blocks) h.blocks, h.parsed, h.parsed'⟩, rfl⟩
    | poll now =>
      obtain ⟨events, events', hevents, hevents', heq, hsame⟩ :=
        h.pollFinalized now (halone.2 now rfl)
      refine ⟨hsame, ?_⟩
      simp only [swapEvents, hevents, hevents']
      exact heq
    | emit now network event => exact ⟨h.emitEvent now network event, rfl⟩
    | success k => exact ⟨h.recordSuccess k, rfl⟩
    | failure k now => exact ⟨h.recordFailure k now, rfl⟩

/-- A run in which the genuine announcement comes before anything is found at its address, and in
which every other announcement leaves its swap alone. -/
structure HeedsGenuine (cfg : Config) (st : State) (genuine : ScriptAnnounce) (now : UInt64)
    (before after : List WatchInput) : Prop where
  unfunded : Runs.Along (watch cfg) (Unfunded cfg genuine.address) st before
  early : Runs.Along (watch cfg) (LeavesAlone cfg genuine.swapId (· = genuine.address)) st before
  late : Runs.Along (watch cfg) (LeavesAlone cfg genuine.swapId fun _ => false)
    ((Runs.final (watch cfg) st before).watch cfg (.announce now genuine)) after

end State

open State in
/-- Two runs with the same inputs but for announcements, in which the genuine announcement comes
before its address is funded and every other one leaves the swap alone: they yield the same events
of the swap, and end with the same refund, claim and attempts for it. -/
theorem announcements_do_not_interfere (cfg : Config) (st : State) (hparsed : Parsed st.utxoScripts)
    (genuine : ScriptAnnounce) (now : UInt64) (hgenuine : Accepts cfg genuine)
    (before before' after after' : List WatchInput)
    (hbefore : before.filter WatchInput.shared = before'.filter WatchInput.shared)
    (hafter : after.filter WatchInput.shared = after'.filter WatchInput.shared)
    (hheeds : HeedsGenuine cfg st genuine now before after)
    (hheeds' : HeedsGenuine cfg st genuine now before' after') :
    Runs.outputs (watch cfg) (swapEvents cfg genuine.swapId) st
        (before ++ .announce now genuine :: after) =
      Runs.outputs (watch cfg) (swapEvents cfg genuine.swapId) st
        (before' ++ .announce now genuine :: after') ∧
    (Runs.final (watch cfg) st (before ++ .announce now genuine :: after)).swapView
        genuine.swapId =
      (Runs.final (watch cfg) st (before' ++ .announce now genuine :: after')).swapView
        genuine.swapId := by
  have hstart : Same cfg genuine.swapId (· = genuine.address) st st :=
    ⟨rfl, rfl, rfl, hparsed, hparsed⟩
  have hearly : ∀ ins, Runs.Along (watch cfg) (Unfunded cfg genuine.address) st ins →
      Runs.Along (watch cfg) (LeavesAlone cfg genuine.swapId (· = genuine.address)) st ins →
      Runs.Along (watch cfg) (Undisturbed cfg genuine.swapId (· = genuine.address)) st ins := by
    intro ins hunfunded halone
    refine (halone.and hunfunded).mono fun st i h => ⟨h.1, ?_⟩
    rintro now rfl
    exact h.2
  have hlate : ∀ (st : State) ins,
      Runs.Along (watch cfg) (LeavesAlone cfg genuine.swapId fun _ => false) st ins →
      Runs.Along (watch cfg) (Undisturbed cfg genuine.swapId fun _ => false) st ins := by
    intro st ins halone
    refine halone.mono fun st i h => ⟨h, fun _ _ _ _ _ _ => ⟨fun _ _ => ?_, fun _ _ => ?_⟩⟩
    · simp
    · simp
  obtain ⟨hsame, houtputs⟩ := (unwinding_watch cfg genuine.swapId (· = genuine.address)).runs hstart
    hbefore (hearly before hheeds.unfunded hheeds.early)
    (hearly before' hheeds'.unfunded hheeds'.early)
  obtain ⟨hend, houtputs'⟩ := (unwinding_watch cfg genuine.swapId fun _ => false).runs
    (hsame.genuine hgenuine now) hafter (hlate _ after hheeds.late) (hlate _ after' hheeds'.late)
  rw [Runs.outputs_append, Runs.outputs_append, Runs.final_append, Runs.final_append]
  refine ⟨?_, hend.view⟩
  rw [houtputs, Runs.outputs, Runs.outputs, houtputs']
  rfl

def genuineAnnounce : ScriptAnnounce := ⟨sampleAddress, .filled 3, sampleRedeem, 1000, "100000000"⟩

def lowTargetAnnounce : ScriptAnnounce := { genuineAnnounce with depositTarget := "1" }

/-- The address is funded with the genuine target. -/
def fundedInputs : List WatchInput :=
  [.receive [⟨.filled 60, 0, [UtxoTracker.payments [100000000]]⟩], .poll 130]

/-- The events of the genuine swap in a run that begins with the genuine announcement. -/
def genuineEvents (after : List WatchInput) : List ChainEvent :=
  Runs.outputs (State.watch sampleNode.kaspa) (State.swapEvents sampleNode.kaspa (.filled 3)) .empty
    (.announce 100 genuineAnnounce :: after)

def committedAmounts (events : List ChainEvent) : List String :=
  events.filterMap fun
    | .commitment c => some c.amount.value
    | _ => none

/-- The same deposit is a commitment to the genuine amount in one run and to the amount of the last
announcement in the other. -/
theorem low_target_changes_amount :
    Accepts sampleNode.kaspa genuineAnnounce ∧
    fundedInputs.filter WatchInput.shared =
      (.announce 120 lowTargetAnnounce :: fundedInputs).filter WatchInput.shared ∧
    committedAmounts (genuineEvents fundedInputs) = ["100000000"] ∧
    committedAmounts (genuineEvents (.announce 120 lowTargetAnnounce :: fundedInputs)) = ["1"] ∧
    genuineEvents fundedInputs ≠
      genuineEvents (.announce 120 lowTargetAnnounce :: fundedInputs) := by
  have hfacts : Accepts sampleNode.kaspa genuineAnnounce ∧
      committedAmounts (genuineEvents fundedInputs) = ["100000000"] ∧
      committedAmounts (genuineEvents (.announce 120 lowTargetAnnounce :: fundedInputs)) =
        ["1"] := by decide +kernel
  refine ⟨hfacts.1, rfl, hfacts.2.1, hfacts.2.2, fun heq => ?_⟩
  have hamounts := hfacts.2.2
  rw [← heq, hfacts.2.1] at hamounts
  exact absurd hamounts (by decide)

private theorem watched_announce {cfg : Config} {st : State} {now : UInt64} {s : ScriptAnnounce}
    {addr : String} {script : UtxoScript}
    (h : (st.watch cfg (.announce now s)).utxoScripts addr = some script) :
    st.utxoScripts addr = some script ∨ script = announcedScript s :=
  (UtxoTracker.watched_registerScript h).imp_right And.right

private theorem parsed_empty : Parsed State.empty.utxoScripts := fun _ _ => nofun

private theorem leavesAlone_repeated : State.LeavesAlone sampleNode.kaspa (.filled 3)
    (fun _ => false)
    (State.empty.watch sampleNode.kaspa (.announce 100 genuineAnnounce))
    (.announce 120 genuineAnnounce) := by
  have hfacts : swapScripts sampleNode.kaspa (.filled 3) (fun _ => false)
      (State.empty.watch sampleNode.kaspa (.announce 100 genuineAnnounce)).utxoScripts
      sampleAddress = some (announcedScript genuineAnnounce) ∧
      ofSwap sampleNode.kaspa (.filled 3) (announcedScript genuineAnnounce) = true ∧
      (120 : UInt64) ≤ saturatingAdd (announcedScript genuineAnnounce).unlockTs
        sampleNode.kaspa.scriptTtlSecs := by decide +kernel
  intro _
  refine ⟨fun addr script hs => ?_, .inr ?_⟩
  · rcases watched_announce (swapScripts_eq_some.mp hs).2.1 with hempty | rfl
    · cases hempty
    · exact hfacts.2.2
  · rw [Option.filter_some, if_pos hfacts.2.1]
    exact hfacts.1

theorem announcements_do_not_interfere_repeated :
    genuineEvents fundedInputs = genuineEvents (.announce 120 genuineAnnounce :: fundedInputs) ∧
    committedAmounts (genuineEvents fundedInputs) = ["100000000"] := by
  have hfacts : Accepts sampleNode.kaspa genuineAnnounce ∧
      committedAmounts (genuineEvents fundedInputs) = ["100000000"] := by decide +kernel
  have halone : State.HeedsGenuine sampleNode.kaspa .empty genuineAnnounce 100 [] fundedInputs :=
    ⟨trivial, trivial, trivial, trivial, trivial⟩
  have halone' : State.HeedsGenuine sampleNode.kaspa .empty genuineAnnounce 100 []
      (.announce 120 genuineAnnounce :: fundedInputs) :=
    ⟨trivial, trivial, leavesAlone_repeated, trivial, trivial, trivial⟩
  exact ⟨(announcements_do_not_interfere sampleNode.kaspa .empty parsed_empty genuineAnnounce 100
    hfacts.1 [] [] fundedInputs (.announce 120 genuineAnnounce :: fundedInputs) rfl rfl halone
    halone').1, hfacts.2⟩

end Stroemnet.Kaspa
