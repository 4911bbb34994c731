import Stroemnet.AnnouncementRuns
import Stroemnet.CounterRecognition

/-! # What a block is decoded to

The scan of a block against its description: the deposits among the outputs, in order, and the
canonical spends among the inputs, while the scripts that are spent are forgotten from one
transaction to the next. The swap and the time of each are those under which the script was
announced, or the own commitment emitted: a script is watched only if it can be read, and is read
as what it was registered for. -/
namespace Stroemnet.Kaspa
open Script Htlc Numbers

/-- What a script says of a swap: the slots of the template, and the time and the target that the
script was registered with. -/
structure Reads (cfg : Config) (id : SwapId) (s : UtxoScript) (c : CommitmentV1) : Prop where
  slots : ∃ slots : HtlcSlots, parseScript s.redeemScript = .ok slots.opcodes ∧
    ReadAs cfg.codec cfg.network slots c
  swapId : c.swapId = id
  unlockTs : c.unlockTs = s.unlockTs
  amount : c.amount = ⟨s.depositTarget, 8⟩
  source : c.source = cfg.channelId.toByte

/-- An output to a watched script, with the target of the script as a number. -/
structure Deposit where
  address : String
  script : UtxoScript
  target : ℕ
  value : UInt64

/-- The output reaches the target of its script. -/
def Deposit.reached (d : Deposit) : Bool := d.target ≤ d.value.toNat

/-- An output that pays a watched address with a valid target. -/
def depositOf (cfg : Config) (watched : WatchedScripts) (output : TransactionOutput) :
    Option Deposit :=
  (paidAddress cfg output).bind fun address => (watched address).bind fun s =>
    (depositTargetValid s.depositTarget).map fun target => ⟨address, s, target, output.value⟩

def deposits (cfg : Config) (watched : WatchedScripts) (tx : Transaction) : List Deposit :=
  tx.outputs.filterMap (depositOf cfg watched)

/-- The two canonical ways to open a script. -/
inductive Opening
  | claim (secret : Bytes32)
  | refund

def Opening.event (id : SwapId) : Opening → ChainEvent
  | .claim secret => .reveal ⟨id, secret⟩
  | .refund => .refund ⟨id⟩

/-- The script that a signature script shows last, and how it opens it. -/
def openingOf (sig : Bytes) : Option (Bytes × Opening) :=
  match parseScript sig with
  | .ok [secretOp, selectorOp, redeemOp] =>
    if selectorOp.value = opTrue ∧ redeemOp.data ≠ [] then
      (Bytes32.ofBytes (extractOpcodeData secretOp)).map fun secret =>
        (redeemOp.data, .claim secret)
    else none
  | .ok [selectorOp, redeemOp] =>
    if selectorOp.value = opFalse ∧ redeemOp.data ≠ [] then some (redeemOp.data, .refund) else none
  | _ => none

/-- An input that opens a watched script. -/
structure SpentScript where
  address : String
  script : UtxoScript
  opening : Opening

def spentScript (cfg : Config) (watched : WatchedScripts) (input : TransactionInput) :
    Option SpentScript :=
  match openingOf input.signatureScript with
  | none => none
  | some (redeem, opening) =>
    match deriveP2shAddr cfg redeem with
    | none => none
    | some address => (watched address).map fun s => ⟨address, s, opening⟩

def spentScripts (cfg : Config) (watched : WatchedScripts) (tx : Transaction) : List SpentScript :=
  tx.inputs.filterMap (spentScript cfg watched)

/-- The first event of every swap. -/
def firstPerSwap : List ChainEvent → List ChainEvent
  | [] => []
  | e :: es => e :: (firstPerSwap es).filter (·.swapId ≠ e.swapId)

/-- The swaps that scripts at addresses are registered for. -/
abbrev Registry := String → UtxoScript → SwapId → Prop

/-- The refund that is noted for a deposit. -/
def RefundOf (reg : Registry) (d : Deposit) (refund : SwapId × UInt64) : Prop :=
  ∃ id, reg d.address d.script id ∧ refund = (id, d.script.unlockTs)

/-- The commitment that a deposit makes, of the amount of its target. -/
def CommitmentOf (cfg : Config) (reg : Registry) (d : Deposit) (e : ChainEvent) : Prop :=
  ∃ id c, reg d.address d.script id ∧ Reads cfg id d.script c ∧ e = .commitment c ∧
    parseUnsigned (2 ^ 64) c.amount.value = some d.target ∧ d.target ≤ d.value.toNat

/-- The event of a script that is opened. -/
def EventOf (reg : Registry) (s : SpentScript) (e : ChainEvent) : Prop :=
  ∃ id, reg s.address s.script id ∧ e = s.opening.event id

/-- What a transaction is decoded to: one refund for every deposit, one commitment for every
deposit that reaches its target and of that amount, and one event of every swap whose script is
opened; and the scripts that are opened are forgotten. -/
structure TxDecoded (cfg : Config) (reg : Registry) (watched : WatchedScripts) (tx : Transaction)
    (found : BlockOutcomes) (watched' : WatchedScripts) : Prop where
  refunds : List.Forall₂ (RefundOf reg) (deposits cfg watched tx) found.refunds
  events : ∃ commitments opened, found.events = commitments ++ firstPerSwap opened ∧
    List.Forall₂ (CommitmentOf cfg reg) ((deposits cfg watched tx).filter Deposit.reached)
      commitments ∧
    List.Forall₂ (EventOf reg) (spentScripts cfg watched tx) opened
  unwatched : ∀ address, watched' address =
    if address ∈ (spentScripts cfg watched tx).map SpentScript.address then none
    else watched address

/-- What the transactions of a block are decoded to, one after the other. -/
inductive BlockDecoded (cfg : Config) (reg : Registry) :
    WatchedScripts → List Transaction → BlockOutcomes → WatchedScripts → Prop
  | nil (watched : WatchedScripts) : BlockDecoded cfg reg watched [] ⟨[], []⟩ watched
  | cons {watched watched' watched'' : WatchedScripts} {tx : Transaction}
      {txs : List Transaction} {found rest : BlockOutcomes}
      (htx : TxDecoded cfg reg watched tx found watched')
      (htxs : BlockDecoded cfg reg watched' txs rest watched'') :
      BlockDecoded cfg reg watched (tx :: txs) (found.append rest) watched''

/-- Every watched script is registered, and is read as what it is registered for. -/
def Tied (cfg : Config) (reg : Registry) (watched : WatchedScripts) : Prop :=
  ∀ address s, watched address = some s → ∃ id c, reg address s id ∧ Reads cfg id s c

section Scan

variable {cfg : Config} {reg : Registry} {watched watched' : WatchedScripts} {s : UtxoScript}
  {c : CommitmentV1} {id : SwapId}

/-- What a script says is what the code reads off it. -/
theorem Reads.extract (h : Reads cfg id s c) :
    ∃ ops, parseOpcodes s.redeemScript = .ok ops ∧
      extractCommitment cfg.codec ops s.depositTarget cfg.network cfg.channelId = .ok c := by
  obtain ⟨slots, hparse, hread⟩ := h.slots
  refine ⟨slots.opcodes, parseOpcodes_eq_ok.mpr hparse, ?_⟩
  rw [extractCommitment_of_readAs hread, ← h.amount, ← h.source]

theorem Tied.of_le (h : Tied cfg reg watched)
    (hsub : ∀ address s, watched' address = some s → watched address = some s) :
    Tied cfg reg watched' :=
  fun address s hs => h address s (hsub address s hs)

private theorem scanOutput_eq (h : Tied cfg reg watched) (output : TransactionOutput) :
    ∃ found, scanOutput cfg watched output = .ok found ∧
      match depositOf cfg watched output with
      | none => found = ⟨[], []⟩
      | some d => ∃ id c, reg d.address d.script id ∧ Reads cfg id d.script c ∧
        found = ⟨if d.reached then [.commitment c] else [], [(id, d.script.unlockTs)]⟩ := by
  cases haddress : extractScriptPubKeyAddress output.scriptPublicKey cfg.network with
  | error e => simp [scanOutput, depositOf, paidAddress, haddress]
  | ok address =>
    cases hs : watched (cfg.codec.toString address) with
    | none => simp [scanOutput, depositOf, paidAddress, haddress, hs]
    | some s =>
      obtain ⟨id, c, hreg, hreads⟩ := h _ _ hs
      obtain ⟨ops, hops, hread⟩ := hreads.extract
      cases htarget : depositTargetValid s.depositTarget with
      | none =>
        simp [scanOutput, depositOf, paidAddress, haddress, hs, hops, hread, htarget, bind,
          Except.bind, pure, Except.pure]
      | some target =>
        refine ⟨⟨if target ≤ output.value.toNat then [.commitment c] else [],
          [(c.swapId, c.unlockTs)]⟩, ?_, ?_⟩
        · simp [scanOutput, haddress, hs, hops, hread, htarget, bind, Except.bind, pure,
            Except.pure]
        · simp only [depositOf, paidAddress, haddress, hs, htarget, Option.bind_some,
            Option.map_some]
          refine ⟨id, c, hreg, hreads, ?_⟩
          simp [Deposit.reached, hreads.swapId, hreads.unlockTs]

private theorem target_of_deposit {output : TransactionOutput} {d : Deposit}
    (h : depositOf cfg watched output = some d) :
    parseUnsigned (2 ^ 64) d.script.depositTarget = some d.target := by
  obtain ⟨address, -, h⟩ := Option.bind_eq_some_iff.mp h
  obtain ⟨s, -, h⟩ := Option.bind_eq_some_iff.mp h
  obtain ⟨target, htarget, rfl⟩ := Option.map_eq_some_iff.mp h
  unfold depositTargetValid at htarget
  split at htarget
  · split_ifs at htarget
    cases htarget
    assumption
  · cases htarget

theorem mapM_scanOutput_eq (h : Tied cfg reg watched) (outputs : List TransactionOutput) :
    ∃ found, outputs.mapM (scanOutput cfg watched) = .ok found ∧
      List.Forall₂ (RefundOf reg) (outputs.filterMap (depositOf cfg watched))
        (found.flatMap BlockOutcomes.refunds) ∧
      List.Forall₂ (CommitmentOf cfg reg)
        ((outputs.filterMap (depositOf cfg watched)).filter Deposit.reached)
        (found.flatMap BlockOutcomes.events) := by
  induction outputs with
  | nil => exact ⟨[], rfl, .nil, .nil⟩
  | cons output outputs ih =>
    obtain ⟨rest, hrest, hrefunds, hevents⟩ := ih
    obtain ⟨found, hfound, hone⟩ := scanOutput_eq h output
    refine ⟨found :: rest, ?_, ?_⟩
    · simp only [List.mapM_cons, hfound, hrest, bind, Except.bind, pure, Except.pure]
    · cases hdeposit : depositOf cfg watched output with
      | none =>
        rw [hdeposit] at hone
        subst hone
        rw [List.filterMap_cons_none hdeposit]
        exact ⟨hrefunds, hevents⟩
      | some d =>
        rw [hdeposit] at hone
        obtain ⟨id, c, hreg, hreads, rfl⟩ := hone
        rw [List.filterMap_cons_some hdeposit]
        refine ⟨.cons ⟨id, hreg, rfl⟩ hrefunds, ?_⟩
        cases hreached : d.reached with
        | false =>
          rw [List.filter_cons_of_neg (by simp [hreached])]
          exact hevents
        | true =>
          rw [List.filter_cons_of_pos hreached]
          refine .cons ⟨id, c, hreg, hreads, rfl, ?_, of_decide_eq_true hreached⟩ hevents
          rw [hreads.amount]
          exact target_of_deposit hdeposit

theorem foldl_append_outcomes (found : List BlockOutcomes) (acc : BlockOutcomes) :
    found.foldl BlockOutcomes.append acc =
      acc.append ⟨found.flatMap BlockOutcomes.events, found.flatMap BlockOutcomes.refunds⟩ := by
  induction found generalizing acc with
  | nil => simp [BlockOutcomes.append]
  | cons o found ih => simp [ih, BlockOutcomes.append]

private theorem lastRedeem_of_openingOf {sig redeem : Bytes} {opening : Opening}
    (h : openingOf sig = some (redeem, opening)) : lastRedeem sig = some redeem := by
  unfold openingOf at h
  split at h
  · rename_i secretOp selectorOp redeemOp hparse
    split_ifs at h with hform
    obtain ⟨secret, -, heq⟩ := Option.map_eq_some_iff.mp h
    cases heq
    simp [lastRedeem, hparse, hform.2]
  · rename_i selectorOp redeemOp hparse
    split_ifs at h with hform
    cases h
    simp [lastRedeem, hparse, hform.2]
  · cases h

theorem extractOpcodeData_ne {o : Opcode} (h : o.data ≠ []) : extractOpcodeData o ≠ [] := by
  rw [extractOpcodeData, if_pos h]
  exact h

/-- A spend that shows a readable script is classified by its opening. -/
theorem classifySpend_eq {sig redeem : Bytes} (hreads : Reads cfg id s c)
    (hlast : lastRedeem sig = some redeem) :
    classifySpend cfg sig s = .ok (match openingOf sig with
      | some (_, opening) => (some (opening.event id), true)
      | none => (none, false)) := by
  obtain ⟨redeemOps, hredeem, hread⟩ := hreads.extract
  cases hparse : parseScript sig with
  | error e => simp [lastRedeem, hparse] at hlast
  | ok ops =>
    simp only [lastRedeem, hparse] at hlast
    simp only [classifySpend, openingOf, hparse, parseOpcodes_eq_ok.mpr hparse, hredeem, hread,
      bind, Except.bind, pure, Except.pure]
    rcases ops with _ | ⟨a, _ | ⟨b, _ | ⟨d, _ | ⟨e, rest⟩⟩⟩⟩
    · simp at hlast
    · simp [extractRevealSecret, validateRefundSig]
    · have hb : b.data ≠ [] := by
        intro hnil
        simp [hnil] at hlast
      simp only [extractRevealSecret, validateRefundSig, hb, ne_eq, not_false_eq_true, and_true,
        extractOpcodeData_ne hb, if_false]
      by_cases hselector : a.value = opFalse
      · simp [hselector, Opening.event, hreads.swapId]
      · simp [hselector]
    · have hd : d.data ≠ [] := by
        intro hnil
        simp [hnil] at hlast
      simp only [extractRevealSecret, validateRefundSig, hd, ne_eq, not_false_eq_true, and_true,
        extractOpcodeData_ne hd, if_false]
      by_cases hselector : b.value = opTrue
      · simp only [hselector, not_true_eq_false, if_false, if_true]
        cases hsecret : Bytes32.ofBytes (extractOpcodeData a) with
        | none => split_ifs <;> simp
        | some secret =>
          have hne : extractOpcodeData a ≠ [] := by
            rw [← Bytes32.ofBytes_eq_some.mp hsecret]
            exact List.ne_nil_of_length_pos (by simp)
          simp [hne, Opening.event, hreads.swapId]
      · simp [hselector]
    · simp [extractRevealSecret, validateRefundSig]

/-- How a readable script is spent, if its opening is canonical. -/
theorem scanInput_eq (h : Tied cfg reg watched) (acc : InputScan) (input : TransactionInput) :
    match spentScript cfg watched input with
    | none => scanInput cfg watched acc input = acc
    | some spent => ∃ id, reg spent.address spent.script id ∧
      scanInput cfg watched acc input =
        { closed := acc.closed ++ [spent.address]
          emitted := acc.emitted ++ [id]
          events := if id ∈ acc.emitted then acc.events
            else acc.events ++ [spent.opening.event id] } := by
  cases hopening : openingOf input.signatureScript with
  | none =>
    simp only [spentScript, hopening]
    cases hlast : lastRedeem input.signatureScript with
    | none => simp [scanInput, hlast]
    | some redeem =>
      cases haddress : deriveP2shAddr cfg redeem with
      | none => simp [scanInput, hlast, haddress]
      | some address =>
        cases hs : watched address with
        | none => simp [scanInput, hlast, haddress, hs]
        | some s =>
          obtain ⟨id, c, -, hreads⟩ := h address s hs
          have hspend := classifySpend_eq hreads hlast
          rw [hopening] at hspend
          simp [scanInput, hlast, haddress, hs, hspend]
  | some p =>
    obtain ⟨redeem, opening⟩ := p
    have hlast := lastRedeem_of_openingOf hopening
    simp only [spentScript, hopening]
    cases haddress : deriveP2shAddr cfg redeem with
    | none => simp [scanInput, hlast, haddress]
    | some address =>
      cases hs : watched address with
      | none => simp [scanInput, hlast, haddress, hs]
      | some s =>
        obtain ⟨id, c, hreg, hreads⟩ := h address s hs
        have hspend := classifySpend_eq hreads hlast
        rw [hopening] at hspend
        have hid : (opening.event id).swapId = id := by cases opening <;> rfl
        simp only [hs, Option.map_some]
        refine ⟨id, hreg, ?_⟩
        simp [scanInput, hlast, haddress, hs, hspend, hid]

/-- The scan of some inputs: what they open, and the first event of every swap that had none. -/
theorem foldl_scanInput_eq (h : Tied cfg reg watched) (inputs : List TransactionInput)
    (acc : InputScan) :
    ∃ opened, List.Forall₂ (EventOf reg) (inputs.filterMap (spentScript cfg watched)) opened ∧
      (inputs.foldl (scanInput cfg watched) acc).closed =
        acc.closed ++ (inputs.filterMap (spentScript cfg watched)).map SpentScript.address ∧
      (inputs.foldl (scanInput cfg watched) acc).events =
        acc.events ++ (firstPerSwap opened).filter (·.swapId ∉ acc.emitted) := by
  induction inputs generalizing acc with
  | nil => exact ⟨[], .nil, by simp, by simp [firstPerSwap]⟩
  | cons input inputs ih =>
    have hone := scanInput_eq h acc input
    rw [List.foldl_cons]
    cases hspent : spentScript cfg watched input with
    | none =>
      rw [hspent] at hone
      rw [hone, List.filterMap_cons_none hspent]
      exact ih acc
    | some spent =>
      rw [hspent] at hone
      obtain ⟨id, hreg, hscan⟩ := hone
      rw [hscan, List.filterMap_cons_some hspent]
      obtain ⟨opened, hopened, hclosed, hevents⟩ := ih
        { closed := acc.closed ++ [spent.address]
          emitted := acc.emitted ++ [id]
          events := if id ∈ acc.emitted then acc.events
            else acc.events ++ [spent.opening.event id] }
      have hid : (spent.opening.event id).swapId = id := by
        cases spent.opening <;> rfl
      refine ⟨spent.opening.event id :: opened, .cons ⟨id, hreg, rfl⟩ hopened, ?_, ?_⟩
      · rw [hclosed, List.map_cons, List.append_assoc, List.singleton_append]
      · have hrest : (firstPerSwap opened).filter (·.swapId ∉ acc.emitted ++ [id]) =
            ((firstPerSwap opened).filter (·.swapId ≠ id)).filter
              (·.swapId ∉ acc.emitted) := by
          rw [List.filter_filter]
          refine List.filter_congr fun e _ => ?_
          simp [not_or]
        rw [hevents, hrest, firstPerSwap, hid]
        by_cases hemitted : id ∈ acc.emitted
        · rw [if_pos hemitted, List.filter_cons_of_neg (by simp [hid, hemitted])]
        · rw [if_neg hemitted, List.filter_cons_of_pos (by simp [hid, hemitted]),
            List.append_assoc, List.singleton_append]

private theorem scanInputs_subset {tx : Transaction} {address : String} {s : UtxoScript}
    (h : (scanInputs cfg watched tx).2 address = some s) : watched address = some s := by
  simp only [scanInputs] at h
  split_ifs at h
  exact h

private theorem txDecoded (h : Tied cfg reg watched) (tx : Transaction) :
    ∃ found, scanOutputs cfg watched tx = .ok found ∧
      TxDecoded cfg reg watched tx (found.append ⟨(scanInputs cfg watched tx).1, []⟩)
        (scanInputs cfg watched tx).2 := by
  obtain ⟨found, hfound, hrefunds, hcommitments⟩ := mapM_scanOutput_eq h tx.outputs
  obtain ⟨opened, hopened, hclosed, hevents⟩ := foldl_scanInput_eq h tx.inputs ⟨[], [], []⟩
  refine ⟨found.foldl BlockOutcomes.append ⟨[], []⟩, ?_, ?_,
    ⟨found.flatMap BlockOutcomes.events, opened, ?_, hcommitments, hopened⟩, ?_⟩
  · simp only [scanOutputs, hfound, bind, Except.bind, pure, Except.pure]
  · simpa [foldl_append_outcomes, BlockOutcomes.append, deposits] using hrefunds
  · simp [foldl_append_outcomes, BlockOutcomes.append, scanInputs, hevents]
  · intro address
    simp only [scanInputs, hclosed, List.nil_append]
    rfl

private theorem handleTransactions_decoded (h : Tied cfg reg watched) (txs : List Transaction)
    (acc : BlockOutcomes) :
    ∃ outcomes watched', handleTransactions cfg txs watched acc =
        (.ok (acc.append outcomes), watched') ∧
      BlockDecoded cfg reg watched txs outcomes watched' ∧ Tied cfg reg watched' := by
  induction txs generalizing watched acc with
  | nil =>
    refine ⟨⟨[], []⟩, watched, ?_, .nil watched, h⟩
    simp [handleTransactions, BlockOutcomes.append]
  | cons tx txs ih =>
    obtain ⟨found, hfound, hdecoded⟩ := txDecoded h tx
    have hkept : Tied cfg reg (scanInputs cfg watched tx).2 :=
      h.of_le fun _ _ => scanInputs_subset
    obtain ⟨rest, watched', hrest, hblock, htied⟩ := ih hkept
      ((acc.append found).append ⟨(scanInputs cfg watched tx).1, []⟩)
    refine ⟨_, watched', ?_, .cons hdecoded hblock, htied⟩
    simp only [handleTransactions, hfound, hrest]
    simp [BlockOutcomes.append]

/-- A block is decoded exactly when every watched script is read as what it is registered for. -/
theorem handleBlockAdded_decoded (h : Tied cfg reg watched) (block : Block) :
    ∃ outcomes watched', handleBlockAdded cfg block watched = (.ok outcomes, watched') ∧
      BlockDecoded cfg reg watched block.transactions outcomes watched' ∧
      Tied cfg reg watched' := by
  obtain ⟨outcomes, watched', hhandle, hdecoded, htied⟩ :=
    handleTransactions_decoded h block.transactions ⟨[], []⟩
  refine ⟨outcomes, watched', ?_, hdecoded, htied⟩
  rw [handleBlockAdded, hhandle]
  simp [BlockOutcomes.append]

theorem BlockDecoded.append {watched'' : WatchedScripts} {txs txs' : List Transaction}
    {found found' : BlockOutcomes} (h : BlockDecoded cfg reg watched txs found watched')
    (h' : BlockDecoded cfg reg watched' txs' found' watched'') :
    BlockDecoded cfg reg watched (txs ++ txs') (found.append found') watched'' := by
  induction h with
  | nil watched => simpa [BlockOutcomes.append] using h'
  | cons htx htxs ih =>
    have hcons := BlockDecoded.cons htx (ih h')
    simpa [BlockOutcomes.append] using hcons

end Scan

section Poll

variable {cfg : Config} {reg : Registry}

/-- The blocks of a poll are decoded one after the other. -/
theorem processBlocks_decoded (now : UInt64) (blocks : List Block) (st : State)
    (h : Tied cfg reg st.utxoScripts) (events : List (ChannelId × ChainEvent)) :
    ∃ outcomes watched', (State.processBlocks cfg now blocks st events).1 =
        .ok (events ++ outcomes.events.map fun e => (cfg.channelId, e)) ∧
      BlockDecoded cfg reg st.utxoScripts (blocks.flatMap Block.transactions) outcomes watched' ∧
      Tied cfg reg (State.processBlocks cfg now blocks st events).2.utxoScripts := by
  induction blocks generalizing st events with
  | nil =>
    refine ⟨⟨[], []⟩, st.utxoScripts, by simp [State.processBlocks], .nil _, ?_⟩
    exact h.of_le fun _ _ hs => (Option.filter_eq_some_iff.mp hs).1
  | cons block blocks ih =>
    obtain ⟨found, watched', hadded, hdecoded, htied⟩ := handleBlockAdded_decoded h block
    have hblock : st.processBlock cfg now block = _ :=
      State.processBlock_eq_ok now (congrArg Prod.fst hadded)
    rw [hadded] at hblock
    have hscripts : (({ st with utxoScripts := watched' } : State).applyOutcomes cfg now
        found).utxoScripts = watched' := by
      simp
    obtain ⟨rest, watched'', hrest, hblocks, hkept⟩ := ih _ (hscripts ▸ htied)
      (events ++ found.events.map fun e => (cfg.channelId, e))
    rw [hscripts] at hblocks
    refine ⟨found.append rest, watched'', ?_, hdecoded.append hblocks, ?_⟩
    · rw [State.processBlocks, hblock]
      simp only [hrest, BlockOutcomes.append, List.map_append, List.append_assoc]
    · rw [State.processBlocks, hblock]
      exact hkept

theorem pollFinalized_decoded (now : UInt64) {st : State} (h : Tied cfg reg st.utxoScripts) :
    ∃ outcomes watched', (st.pollFinalized cfg now).1 =
        .ok (outcomes.events.map fun e => (cfg.channelId, e)) ∧
      BlockDecoded cfg reg st.utxoScripts (st.safeBlocks.flatMap Block.transactions) outcomes
        watched' ∧
      Tied cfg reg (st.pollFinalized cfg now).2.utxoScripts := by
  obtain ⟨outcomes, watched', hpoll, hdecoded, hkept⟩ :=
    processBlocks_decoded now st.safeBlocks { st with safeBlocks := [] } h []
  exact ⟨outcomes, watched', hpoll, hdecoded, hkept⟩

end Poll

section Readings

variable {cfg : Config} {network : Network} {slots : HtlcSlots} {c : CommitmentV1}

/-- What can be read for one network can be read for any, and is the same swap and time. -/
theorem ReadAs.reads (h : ReadAs cfg.codec network slots c) {s : UtxoScript}
    (hparse : parseScript s.redeemScript = .ok slots.opcodes) (htime : c.unlockTs = s.unlockTs) :
    ∃ c', Reads cfg c.swapId s c' := by
  obtain ⟨sender, -, -, hsender⟩ := h.sender
  obtain ⟨receiver, -, -, hreceiver⟩ := h.receiver
  have hread : ReadAs cfg.codec cfg.network slots { c with
      addresses := { c.addresses with
        sender := cfg.codec.toString { sender with network := cfg.network }
        receiver := cfg.codec.toString { receiver with network := cfg.network } } } :=
    { h with
      sender := ⟨{ sender with network := cfg.network }, rfl, rfl, hsender⟩
      receiver := ⟨{ receiver with network := cfg.network }, rfl, rfl, hreceiver⟩ }
  exact ⟨{ c with
      addresses := { c.addresses with
        sender := cfg.codec.toString { sender with network := cfg.network }
        receiver := cfg.codec.toString { receiver with network := cfg.network } }
      amount := ⟨s.depositTarget, 8⟩
      source := cfg.channelId.toByte },
    ⟨⟨slots, hparse, { hread with }⟩, rfl, htime, rfl, rfl⟩⟩

/-- The builder writes the commitment so that it can be read: the byte of the destination is not
pushed as minus one, and the milliseconds of the timelock fit a signed number. -/
def Legible (c : CommitmentV1) : Prop :=
  c.destination ≠ 0x81 ∧ 1000 * c.unlockTs.toNat < 2 ^ 63

/-- The time that the builder writes is read back. -/
theorem time_of_built (h : 1000 * c.unlockTs.toNat < 2 ^ 63) :
    let o := numberPush (asI64 (saturatingMul c.unlockTs 1000))
    extractOpcodeData o ≠ [] ∧ decodeU64FromScript (extractOpcodeData o) / 1000 = c.unlockTs := by
  intro o
  have ho : o = numberPush (1000 * c.unlockTs.toNat : ℕ) := by
    simp only [o, asI64_saturatingMul h]
  have hseconds := seconds_of_timelock h ho
  refine ⟨fun hnil => ?_, UInt64.toNat_inj.mp hseconds⟩
  have hzero : c.unlockTs.toNat = 0 := by
    rw [← hseconds, hnil]
    rfl
  rw [ho, hzero] at hnil
  revert hnil
  decide

private theorem senderDestination_reading (text : String) :
    ∃ text', utf8Bytes text' = extractOpcodeData (canonicalPush (utf8Bytes text)) ∧
      extractOpcodeData (canonicalPush (utf8Bytes text)) ≠ [] := by
  by_cases hne : text = ""
  · subst hne
    exact ⟨"\x00", by decide +kernel, by decide +kernel⟩
  · have hextract := extract_canonicalPush (utf8Bytes_ne_nil hne) (utf8Bytes_ne_continuation text)
    exact ⟨text, hextract.symm, by rw [hextract]; exact utf8Bytes_ne_nil hne⟩

/-- The slots that the builder fills for a legible commitment are read as its swap and time. -/
theorem readAs_of_legible (cfg : Config) (h : Legible c) (sender receiver : Address) :
    ∃ c', ReadAs cfg.codec cfg.network (.built (htlcParams sender receiver c)) c' ∧
      c'.swapId = c.swapId ∧ c'.unlockTs = c.unlockTs := by
  obtain ⟨text, htext, htext_ne⟩ := senderDestination_reading c.addresses.senderDestination
  obtain ⟨htime_ne, htime⟩ := time_of_built h.2
  refine ⟨{ c with
      addresses := { c.addresses with
        sender := cfg.codec.toString { sender with network := cfg.network }
        receiver := cfg.codec.toString { receiver with network := cfg.network }
        senderDestination := text } }, ?_, rfl, rfl⟩
  constructor
  case swapId => exact (extract_canonicalPush (Bytes32.ne_nil _) (Bytes32.ne_singleton _ _)).symm
  case secretHash =>
    exact (extract_canonicalPush (Bytes32.ne_nil _) (Bytes32.ne_singleton _ _)).symm
  case sender =>
    exact ⟨{ sender with network := cfg.network }, rfl, rfl, (extract_spkToVec sender).symm⟩
  case receiver =>
    exact ⟨{ receiver with network := cfg.network }, rfl, rfl, (extract_spkToVec receiver).symm⟩
  case timelock => exact htime_ne
  case unlockTs => exact htime.symm
  case senderDestination => exact htext
  case senderDestination_ne => exact htext_ne
  case destination =>
    have hbyte : ([c.destination] : Bytes) ≠ [0x81] := by simpa using h.1
    exact congrArg List.head? (extract_canonicalPush (List.cons_ne_nil _ _) hbyte)

end Readings

/-- A commitment that the handler has asked this channel for. This channel reports no time of its
own, so the clock is that of the host, whose milliseconds are within the range of signed numbers. -/
def HandlerEmits (c : CommitmentV1) : Prop :=
  ∃ (h : Handler) (t : SwapTracker) (source : ChannelId) (event : ChainEvent) (moment : Moment)
    (effects : List Effect), (h.handle t source event moment).1 = .ok effects ∧
      .broadcast .kaspaTn10 (.commitment c) ∈ effects ∧ moment.clock.times .kaspaTn10 = none ∧
      1000 * (moment.clock.systemNow.toNat + ChannelId.kaspaTn10.lockTimeSecs) < 2 ^ 63

/-- The commitments that are emitted come from the handler. -/
def FromHandler : WatchInput → Prop
  | .emit _ _ (.commitment c) => HandlerEmits c
  | _ => True

/-- An input registers a script at an address for a swap: a peer announces it, and it is accepted;
or an own commitment is emitted. -/
def Registers (cfg : Config) (address : String) (s : UtxoScript) (id : SwapId) : WatchInput → Prop
  | .announce _ a => Accepts cfg a ∧ address = a.address ∧ s = announcedScript a ∧ id = a.swapId
  | .emit _ network (.commitment c) => ∃ redeem,
    submitCommitment cfg network c = .ok (address, redeem) ∧
      s = ⟨redeem, c.unlockTs, c.amount.value⟩ ∧ id = c.swapId
  | _ => False

/-- A script at an address has been registered for one swap, and for no other. -/
def RegisteredFor (cfg : Config) (inputs : List WatchInput) : Registry := fun address s id =>
  (∃ i ∈ inputs, Registers cfg address s id i) ∧
    ∀ i ∈ inputs, ∀ id', Registers cfg address s id' i → id' = id

section Registrations

variable {cfg : Config} {c : CommitmentV1} {address : String} {s : UtxoScript} {id : SwapId}

/-- What the handler asks for names a channel and a time that the builder can write. -/
theorem HandlerEmits.legible (h : HandlerEmits c) : Legible c := by
  obtain ⟨handler, t, source, event, moment, effects, hok, hc, htimes, hrange⟩ := h
  obtain ⟨id, init, origin, hbuild⟩ := Handler.buildCounterCommitment_of_effects hok hc
  obtain ⟨amountOut, sourceNow, destNow, mmDestination, mmSource, -, -, -, hdest, -, -, rfl⟩ :=
    Handler.buildCounterCommitment_eq_ok.mp hbuild
  have hnow : destNow = moment.clock.systemNow := by
    simp only [ChainClock.nowChecked, htimes, ChannelId.usesSyntheticClock] at hdest
    exact (Option.some.inj hdest).symm
  refine ⟨?_, ?_⟩
  · cases origin <;> exact nofun
  · have hadd : (destNow + UInt64.ofNat ChannelId.kaspaTn10.lockTimeSecs).toNat ≤
        moment.clock.systemNow.toNat + ChannelId.kaspaTn10.lockTimeSecs := by
      rw [UInt64.toNat_add, Handler.toNat_lockTimeSecs, hnow]
      exact Nat.mod_le _ _
    exact lt_of_le_of_lt (Nat.mul_le_mul_left 1000 hadd) hrange

theorem Registers.reads {i : WatchInput} (h : Registers cfg address s id i)
    (hown : FromHandler i) : ∃ c, Reads cfg id s c := by
  cases i with
  | announce now a =>
    obtain ⟨haccepts, rfl, rfl, rfl⟩ := h
    obtain ⟨network, slots, c, -, hparse, hread, hid, htime, -⟩ :=
      validateScriptAnnounce_eq_ok haccepts
    exact hid ▸ (extractCommitment_readAs hread).reads hparse htime
  | emit now network event =>
    cases event with
    | commitment c =>
      obtain ⟨redeem, hsubmit, rfl, rfl⟩ := h
      obtain ⟨network', -, hbuilt, -⟩ := submitCommitment_eq_ok hsubmit
      obtain ⟨sender, receiver, -, -, hcreated⟩ := htlcScriptFromCommitment_eq_ok hbuilt
      obtain ⟨c', hread, hid, htime⟩ :=
        readAs_of_legible cfg (HandlerEmits.legible hown) sender receiver
      have hreads := hread.reads (s := ⟨redeem, c.unlockTs, c.amount.value⟩)
        (parseScript_built hcreated) htime
      exact hid ▸ hreads
    | reveal r => exact h.elim
    | refund r => exact h.elim
  | receive blocks => exact h.elim
  | poll now => exact h.elim
  | success k => exact h.elim
  | failure k now => exact h.elim

theorem Registers.unique {i i' : WatchInput} {id' : SwapId} (h : Registers cfg address s id i)
    (h' : Registers cfg address s id' i') (hown : FromHandler i) (hown' : FromHandler i') :
    id' = id := by
  obtain ⟨c, hreads⟩ := h.reads hown
  obtain ⟨c', hreads'⟩ := h'.reads hown'
  obtain ⟨ops, hops, hc⟩ := hreads.extract
  obtain ⟨ops', hops', hc'⟩ := hreads'.extract
  obtain rfl : ops' = ops := Except.ok.inj (hops'.symm.trans hops)
  obtain rfl : c' = c := Except.ok.inj (hc'.symm.trans hc)
  exact hreads'.swapId.symm.trans hreads.swapId

end Registrations

section Run

variable {cfg : Config} {st : State} {inputs : List WatchInput}

theorem Tied.update {watched : WatchedScripts} (h : Tied cfg (RegisteredFor cfg inputs) watched)
    (hown : ∀ i ∈ inputs, FromHandler i) {i : WatchInput} (hi : i ∈ inputs) {address : String}
    {s : UtxoScript} {id : SwapId} (hregisters : Registers cfg address s id i) :
    Tied cfg (RegisteredFor cfg inputs) (Function.update watched address (some s)) := by
  intro address' s' hs'
  by_cases heq : address' = address
  · subst heq
    rw [Function.update_self, Option.some.injEq] at hs'
    subst hs'
    obtain ⟨c, hreads⟩ := hregisters.reads (hown i hi)
    exact ⟨id, c, ⟨⟨i, hi, hregisters⟩, fun i' hi' id' h' =>
      hregisters.unique h' (hown i hi) (hown i' hi')⟩, hreads⟩
  · rw [Function.update_of_ne heq] at hs'
    exact h address' s' hs'

theorem Tied.announce (h : Tied cfg (RegisteredFor cfg inputs) st.utxoScripts)
    (hown : ∀ i ∈ inputs, FromHandler i) {now : UInt64} {a : ScriptAnnounce}
    (hi : .announce now a ∈ inputs) :
    Tied cfg (RegisteredFor cfg inputs) (st.watch cfg (.announce now a)).utxoScripts := by
  by_cases haccepts : Accepts cfg a
  · rw [State.watch_announce haccepts]
    have hregisters : Registers cfg a.address (announcedScript a) a.swapId (.announce now a) :=
      ⟨haccepts, rfl, rfl, rfl⟩
    have hupdated := h.update hown hi hregisters
    exact hupdated.of_le fun _ _ hs => (Option.filter_eq_some_iff.mp hs).1
  · rwa [State.watch_announce_rejected haccepts]

theorem Tied.emit (h : Tied cfg (RegisteredFor cfg inputs) st.utxoScripts)
    (hown : ∀ i ∈ inputs, FromHandler i) {now : UInt64} {network : Except KaspaError Network}
    {event : ChainEvent} (hi : .emit now network event ∈ inputs) :
    Tied cfg (RegisteredFor cfg inputs) (st.emitEvent cfg now network event).2.utxoScripts := by
  cases event with
  | commitment c =>
    simp only [State.emitEvent]
    split_ifs
    · cases hsubmit : submitCommitment cfg network c with
      | error e => exact h
      | ok found =>
        obtain ⟨address, redeem⟩ := found
        have hregisters : Registers cfg address ⟨redeem, c.unlockTs, c.amount.value⟩ c.swapId
            (.emit now network (.commitment c)) := ⟨redeem, hsubmit, rfl, rfl⟩
        exact h.update hown hi hregisters
    · exact h
  | reveal r =>
    simp only [State.emitEvent]
    split_ifs <;> exact h
  | refund r => exact h

/-- Every step keeps the watched scripts tied to their registrations. -/
theorem Tied.watch (h : Tied cfg (RegisteredFor cfg inputs) st.utxoScripts)
    (hown : ∀ i ∈ inputs, FromHandler i) {i : WatchInput} (hi : i ∈ inputs) :
    Tied cfg (RegisteredFor cfg inputs) (st.watch cfg i).utxoScripts := by
  cases i with
  | announce now a => exact h.announce hown hi
  | receive blocks => exact h
  | poll now =>
    obtain ⟨_, _, -, -, hkept⟩ := pollFinalized_decoded now h
    exact hkept
  | emit now network event => exact h.emit hown hi
  | success k =>
    obtain ⟨id, action⟩ := k
    cases action <;> exact h
  | failure k now => exact h

/-- From a channel that watches nothing, as it does after every start: whatever is announced and
seen, and whatever the handler asks for, every block is decoded exactly, to the swaps and times that
were registered, and a poll returns what its blocks are decoded to. -/
theorem blocks_are_decoded (cfg : Config) (start : State)
    (hstart : ∀ address, start.utxoScripts address = none) (inputs : List WatchInput)
    (hown : ∀ i ∈ inputs, FromHandler i) :
    let st := Runs.final (State.watch cfg) start inputs
    let reg := RegisteredFor cfg inputs
    (∀ block : Block, ∃ outcomes watched',
      handleBlockAdded cfg block st.utxoScripts = (.ok outcomes, watched') ∧
      BlockDecoded cfg reg st.utxoScripts block.transactions outcomes watched') ∧
    ∀ now, ∃ outcomes watched', (st.pollFinalized cfg now).1 =
        .ok (outcomes.events.map fun e => (cfg.channelId, e)) ∧
      BlockDecoded cfg reg st.utxoScripts (st.safeBlocks.flatMap Block.transactions) outcomes
        watched' := by
  intro st reg
  have hempty : Tied cfg reg start.utxoScripts := by
    intro address s hs
    rw [hstart] at hs
    cases hs
  have htied : Tied cfg reg st.utxoScripts :=
    Runs.Along.invariant (I := fun st => Tied cfg reg st.utxoScripts)
      (fun _ i hst hi => hst.watch hown hi.2) hempty (Runs.along_true start inputs).and_mem
  refine ⟨fun block => ?_, fun now => ?_⟩
  · obtain ⟨outcomes, watched', hadded, hdecoded, -⟩ := handleBlockAdded_decoded htied block
    exact ⟨outcomes, watched', hadded, hdecoded⟩
  · obtain ⟨outcomes, watched', hpoll, hdecoded, -⟩ := pollFinalized_decoded now htied
    exact ⟨outcomes, watched', hpoll, hdecoded⟩

end Run

/-- A provider whose first sample address is its own, with an account on the other chain. -/
def readProvider : Handler :=
  { sampleNode.handler with
    addressLookupTable := fun
      | .kaspaTn10 => some sampleCommitment.addresses.sender
      | _ => some sampleCommitment.addresses.senderDestination }

/-- A first commitment to the provider, for the sample script on this channel. -/
def askedInit : CommitmentV1 where
  swapId := .filled 3
  addresses :=
    { sender := userAddress
      receiver := sampleCommitment.addresses.senderDestination
      senderDestination := sampleCommitment.addresses.receiver }
  amount := ⟨"2000000000000000000", 18⟩
  secretHash := sampleSecretHash
  unlockTs := 10000
  source := 1
  destination := 0

/-- The commitment that the provider asks for, to the sample script. -/
def askedCommitment : CommitmentV1 := { sampleCommitment with amount := ⟨"1000", 8⟩ }

/-- A genuine announcement, and the own commitment to the same script. -/
def readInputs : List WatchInput :=
  [.announce 100 genuineAnnounce, .emit 110 (.ok .testnet) (.commitment askedCommitment)]

/-- Two deposits of the sample script. -/
def depositBlock : Block := ⟨.filled 60, 0, [UtxoTracker.payments [100000000, 5]]⟩

theorem blocks_are_decoded_sample :
    (∀ i ∈ readInputs, FromHandler i) ∧
    ((Runs.final (State.watch sampleNode.kaspa) .empty readInputs).utxoScripts sampleAddress).map
      UtxoScript.depositTarget = some "1000" ∧
    ∃ outcomes watched',
      handleBlockAdded sampleNode.kaspa depositBlock
        (Runs.final (State.watch sampleNode.kaspa) .empty readInputs).utxoScripts =
          (.ok outcomes, watched') ∧
      BlockDecoded sampleNode.kaspa (RegisteredFor sampleNode.kaspa readInputs)
        (Runs.final (State.watch sampleNode.kaspa) .empty readInputs).utxoScripts
        depositBlock.transactions outcomes watched' := by
  have hasked : HandlerEmits askedCommitment :=
    ⟨readProvider, fun _ => none, .ethereumSepolia, .commitment askedInit,
      ⟨⟨fun c => if c = .kaspaTn10 then none else some 820, 820⟩, samplePricing⟩,
      [.transmitReveal askedInit, .broadcast .kaspaTn10 (.commitment askedCommitment)],
      by decide +kernel, by simp, rfl,
      by decide⟩
  have hown : ∀ i ∈ readInputs, FromHandler i := by
    intro i hi
    simp only [readInputs, List.mem_cons, List.not_mem_nil, or_false] at hi
    rcases hi with rfl | rfl
    · trivial
    · exact hasked
  exact ⟨hown, by decide +kernel,
    (blocks_are_decoded sampleNode.kaspa .empty (fun _ => rfl) readInputs hown).1 depositBlock⟩

end Stroemnet.Kaspa
