import Stroemnet.OwnHtlcRefund

/-! # Funding a commitment

The way from a commitment to a transaction that funds its script: one request to the server
after the other, each of which may fail, and a submission whose answer may get lost. What is
written down before and after decides whether the channel knows what is on the chain. -/
namespace Stroemnet.Kaspa
open Script Htlc

/-- An unspent output as the server lists it. -/
structure RpcUtxo where
  outpoint : TransactionOutpoint
  amount : UInt64
  scriptPublicKey : ScriptPublicKey
  blockDaaScore : UInt64
  isCoinbase : Bool
deriving DecidableEq

/-- The key of the node, with the cryptography behind it. -/
structure Wallet where
  coinbaseMaturity : UInt64
  derive : Network → Except KaspaError Address
  signInput : Transaction → List RpcUtxo → ℕ → Except KaspaError Bytes

/-- The answers to the requests of one submission; a request without an answer has timed out. -/
structure FundingRpc where
  serverNetwork : Option Network
  utxos : Address → Except KaspaError (List RpcUtxo)
  virtualDaaScore : Option UInt64
  priorityFee : Transaction → Except KaspaError UInt64
  /-- What is answered to the transaction. -/
  submitTransaction : Option (Except KaspaError Bytes32)
  /-- Whether the network accepts the transaction, at once or later. -/
  accepts : Bool

def requireAnswer {α : Type} (request : String) (o : Option α) : Except KaspaError α :=
  okOr (.other (request ++ ": timed out")) o

private theorem requireAnswer_eq_ok {α : Type} {request : String} {o : Option α} {a : α} :
    requireAnswer request o = .ok a ↔ o = some a := okOr_eq_ok

def utxoIsMature (coinbaseMaturity currentDaa : UInt64) (u : RpcUtxo) : Bool :=
  !u.isCoinbase || u.blockDaaScore + coinbaseMaturity ≤ currentDaa

def selectLoop (amount coinbaseMaturity currentDaa : UInt64) :
    List RpcUtxo → List RpcUtxo → UInt64 → List RpcUtxo × UInt64
  | [], selected, total => (selected, total)
  | u :: utxos, selected, total =>
    if ¬ utxoIsMature coinbaseMaturity currentDaa u then
      selectLoop amount coinbaseMaturity currentDaa utxos selected total
    else if amount ≤ total + u.amount then (selected ++ [u], total + u.amount)
    else
      selectLoop amount coinbaseMaturity currentDaa utxos (selected ++ [u]) (total + u.amount)

def selectFundingUtxos (utxos : List RpcUtxo) (amount coinbaseMaturity currentDaa : UInt64) :
    Except KaspaError (List RpcUtxo × UInt64) :=
  let (selected, total) := selectLoop amount coinbaseMaturity currentDaa utxos [] 0
  if total < amount then .error (.insufficientFunds amount total) else .ok (selected, total)

def toInputs (utxos : List RpcUtxo) : List TransactionInput :=
  utxos.mapIdx fun seq u => ⟨u.outpoint, [], UInt64.ofNat seq⟩

def saturatingSub (a b : UInt64) : UInt64 := UInt64.ofNat (a.toNat - b.toNat)

/-- The script is paid first; what is left goes back to the node. -/
def buildFundingTx (selected : List RpcUtxo) (amount change : UInt64)
    (htlcSpk ourSpk : ScriptPublicKey) : Transaction :=
  ⟨toInputs selected,
    ⟨amount, htlcSpk⟩ :: (if 0 < change then [⟨change, ourSpk⟩] else []), 0⟩

def signInputs (wallet : Wallet) (tx : Transaction) (selected : List RpcUtxo) :
    Except KaspaError Transaction := do
  let scripts ← (List.range selected.length).mapM (wallet.signInput tx selected)
  return { tx with
    inputs := tx.inputs.zipWith (fun i script => { i with signatureScript := script }) scripts }

/-- Everything up to the submission: the network of the server, the script and the signed
transaction. -/
def prepareFunding (cfg : Config) (wallet : Wallet) (rpc : FundingRpc) (c : CommitmentV1) :
    Except KaspaError (Network × Bytes × Transaction) := do
  let network ← requireAnswer "get_server_info" rpc.serverNetwork
  let ours ← wallet.derive network
  let redeem ← htlcScriptFromCommitment cfg c
  let htlcSpk : ScriptPublicKey := ⟨0, payToScriptHashScript (cfg.blake2b redeem)⟩
  let ourSpk := payToAddressScript ours
  let utxos ← rpc.utxos ours
  if utxos = [] then throw .noUtxos
  let currentDaa ← requireAnswer "get_block_dag_info" rpc.virtualDaaScore
  match parseUnsigned (2 ^ 64) c.amount.value with
  | none => throw (.other ("amount " ++ c.amount.value))
  | some value =>
    let amount := UInt64.ofNat value
    let (selected, total) ← selectFundingUtxos utxos amount wallet.coinbaseMaturity currentDaa
    let fee ← rpc.priorityFee
      (buildFundingTx selected amount (saturatingSub total amount) htlcSpk ourSpk)
    if total < amount + fee then throw (.insufficientFunds (amount + fee) total)
    let tx := buildFundingTx selected amount (saturatingSub (saturatingSub total amount) fee)
      htlcSpk ourSpk
    let signed ← signInputs wallet tx selected
    return (network, redeem, signed)

/-- Submits a commitment: the address and script to announce, and the transaction that was sent,
also when its answer is an error or none. -/
def fundCommitment (cfg : Config) (wallet : Wallet) (rpc : FundingRpc) (c : CommitmentV1) :
    Except KaspaError (String × Bytes) × Option Transaction :=
  match prepareFunding cfg wallet rpc c with
  | .error e => (.error e, none)
  | .ok (network, redeem, tx) =>
    match rpc.submitTransaction with
    | none => (.error (.other "submit_transaction: timed out"), some tx)
    | some (.error e) => (.error e, some tx)
    | some (.ok _) =>
      match p2shAddress cfg.codec cfg.blake2b network redeem "p2sh address derive" with
      | .error e => (.error e, some tx)
      | .ok address => (.ok (address, redeem), some tx)

/-- What a channel writes down once its own script is funded. -/
def State.announceOwn (st : State) (c : CommitmentV1) (address : String) (redeem : Bytes) : State :=
  let script : UtxoScript := ⟨redeem, c.unlockTs, c.amount.value⟩
  let st := { st with scripts := Function.update st.scripts c.swapId (some script) }
  let st := st.registerInternal address script
  let announcement : ScriptAnnouncement := ⟨address, c.swapId, script⟩
  { st with announcements := st.announcements ++ [announcement] }.persistSwap c.swapId

/-- Emits a commitment, with the transaction that was sent for it. -/
def State.emitCommitment (cfg : Config) (wallet : Wallet) (rpc : FundingRpc) (st : State)
    (c : CommitmentV1) : Except EmitError Unit × State × Option Transaction :=
  let st := st.cacheCommitment c
  if ¬ cfg.hasKey then (.error (.data (.missingKey cfg.channelId)), st, none)
  else
    match fundCommitment cfg wallet rpc c with
    | (.error e, tx) => (.error (.kaspa e), st, tx)
    | (.ok (address, redeem), tx) => (.ok (), st.announceOwn c address redeem, tx)

/-- The node can pay for the script, with its fee, and sign. -/
structure HasFunds (cfg : Config) (wallet : Wallet) (rpc : FundingRpc) (c : CommitmentV1)
    (network : Network) (redeem : Bytes) (tx : Transaction) : Prop where
  funds : ∃ ours utxos currentDaa value selected total fee, wallet.derive network = .ok ours ∧
    rpc.utxos ours = .ok utxos ∧ utxos ≠ [] ∧ rpc.virtualDaaScore = some currentDaa ∧
    parseUnsigned (2 ^ 64) c.amount.value = some value ∧
    selectFundingUtxos utxos (UInt64.ofNat value) wallet.coinbaseMaturity currentDaa =
      .ok (selected, total) ∧
    rpc.priorityFee (buildFundingTx selected (UInt64.ofNat value)
      (saturatingSub total (UInt64.ofNat value))
      ⟨0, payToScriptHashScript (cfg.blake2b redeem)⟩ (payToAddressScript ours)) = .ok fee ∧
    ¬ total < UInt64.ofNat value + fee ∧
    signInputs wallet (buildFundingTx selected (UInt64.ofNat value)
      (saturatingSub (saturatingSub total (UInt64.ofNat value)) fee)
      ⟨0, payToScriptHashScript (cfg.blake2b redeem)⟩ (payToAddressScript ours)) selected = .ok tx

/-- A transaction is sent: there is a key, all requests before are answered, the script can be
built and there are funds for it. -/
structure Fundable (cfg : Config) (wallet : Wallet) (rpc : FundingRpc) (c : CommitmentV1)
    (network : Network) (redeem : Bytes) (tx : Transaction) : Prop
    extends HasFunds cfg wallet rpc c network redeem tx where
  hasKey : cfg.hasKey
  serverNetwork : rpc.serverNetwork = some network
  script : htlcScriptFromCommitment cfg c = .ok redeem

def FundingRpc.Confirms (rpc : FundingRpc) : Prop := ∃ id, rpc.submitTransaction = some (.ok id)

section Cases

variable {cfg : Config} {wallet : Wallet} {rpc : FundingRpc} {st : State} {c : CommitmentV1}
  {network : Network} {redeem : Bytes} {tx : Transaction}

theorem prepareFunding_eq_ok :
    prepareFunding cfg wallet rpc c = .ok (network, redeem, tx) ↔
      rpc.serverNetwork = some network ∧ htlcScriptFromCommitment cfg c = .ok redeem ∧
        HasFunds cfg wallet rpc c network redeem tx := by
  unfold prepareFunding
  simp only [bind_eq_ok, guard_eq_ok, requireAnswer_eq_ok]
  constructor
  · rintro ⟨network', hnetwork, ours, hours, redeem', hscript, utxos, hutxos, hne, daa, hdaa, h⟩
    split at h
    · cases h
    · rename_i value hvalue
      obtain ⟨⟨selected, total⟩, hselected, h⟩ := bind_eq_ok.mp h
      simp only [bind_eq_ok, guard_eq_ok] at h
      obtain ⟨fee, hfee, henough, signed, hsigned, h⟩ := h
      cases h
      exact ⟨hnetwork, hscript, ours, utxos, daa, value, selected, total, fee, hours, hutxos, hne,
        hdaa, hvalue, hselected, hfee, henough, hsigned⟩
  · rintro ⟨hnetwork, hscript, ours, utxos, daa, value, selected, total, fee, hours, hutxos, hne,
      hdaa, hvalue, hselected, hfee, henough, hsigned⟩
    refine ⟨network, hnetwork, ours, hours, redeem, hscript, utxos, hutxos, hne, daa, hdaa, ?_⟩
    simp only [hvalue, bind_eq_ok, guard_eq_ok]
    exact ⟨(selected, total), hselected, fee, hfee, henough, tx, hsigned, rfl⟩

/-- Nothing is sent: the commitment is cached and nothing else happens. -/
theorem emitCommitment_unsent (st : State)
    (h : ¬ ∃ network redeem tx, Fundable cfg wallet rpc c network redeem tx) :
    ∃ e, st.emitCommitment cfg wallet rpc c = (.error e, st.cacheCommitment c, none) := by
  unfold State.emitCommitment
  simp only
  split_ifs with hkey
  · cases hprepare : prepareFunding cfg wallet rpc c with
    | error e => exact ⟨.kaspa e, by simp only [fundCommitment, hprepare]⟩
    | ok p =>
      obtain ⟨network, redeem, tx⟩ := p
      obtain ⟨hnetwork, hscript, hfunds⟩ := prepareFunding_eq_ok.mp hprepare
      exact absurd ⟨network, redeem, tx, hfunds, hkey, hnetwork, hscript⟩ h
  · exact ⟨_, rfl⟩

/-- The transaction is sent and not confirmed: the commitment is cached and nothing else
happens. -/
theorem emitCommitment_unconfirmed (st : State) (h : Fundable cfg wallet rpc c network redeem tx)
    (hconfirms : ¬ rpc.Confirms) :
    ∃ e, st.emitCommitment cfg wallet rpc c = (.error e, st.cacheCommitment c, some tx) := by
  have hprepare := prepareFunding_eq_ok.mpr ⟨h.serverNetwork, h.script, h.toHasFunds⟩
  simp only [State.emitCommitment, h.hasKey, not_true, if_false, fundCommitment, hprepare]
  cases hsubmit : rpc.submitTransaction with
  | none => exact ⟨_, rfl⟩
  | some answer =>
    cases answer with
    | error e => exact ⟨_, rfl⟩
    | ok id => exact absurd ⟨id, hsubmit⟩ hconfirms

/-- The transaction is sent and confirmed: the script is written down and announced. -/
theorem emitCommitment_confirmed (h : Fundable cfg wallet rpc c network redeem tx)
    (hconfirms : rpc.Confirms) :
    st.emitCommitment cfg wallet rpc c =
      (.ok (), (st.cacheCommitment c).announceOwn c
        (cfg.codec.toString (scriptHashAddress network (cfg.blake2b redeem))) redeem, some tx) := by
  have hprepare := prepareFunding_eq_ok.mpr ⟨h.serverNetwork, h.script, h.toHasFunds⟩
  obtain ⟨id, hsubmit⟩ := hconfirms
  have haddress : p2shAddress cfg.codec cfg.blake2b network redeem "p2sh address derive" = .ok _ :=
    p2shAddress_eq_ok.mpr rfl
  simp only [State.emitCommitment, h.hasKey, not_true, if_false, fundCommitment, hprepare, hsubmit,
    haddress]

/-- What is announced is what a submission to the server's network gives. -/
theorem submitCommitment_of_funded {address : String} {sent : Option Transaction}
    (h : fundCommitment cfg wallet rpc c = (.ok (address, redeem), sent)) :
    ∃ network, submitCommitment cfg (.ok network) c = .ok (address, redeem) := by
  unfold fundCommitment at h
  split at h
  · cases h
  · rename_i network redeem' tx hprepare
    split at h
    · cases h
    · cases h
    · split at h
      · cases h
      · rename_i address' haddress
        cases h
        obtain ⟨-, hscript, ⟨-, -, -, value, -, -, -, -, -, -, -, hvalue, -⟩⟩ :=
          prepareFunding_eq_ok.mp hprepare
        refine ⟨network, bind_eq_ok.mpr ⟨network, rfl, bind_eq_ok.mpr ⟨redeem, hscript, ?_⟩⟩⟩
        simp only [hvalue]
        exact bind_eq_ok.mpr ⟨address, haddress, rfl⟩

/-- The requests in detail do what one answer for all of them does. -/
theorem emitCommitment_refines (now : UInt64) :
    ∃ network, ((st.emitCommitment cfg wallet rpc c).1, (st.emitCommitment cfg wallet rpc c).2.1) =
      st.emitEvent cfg now network (.commitment c) := by
  rcases hfunded : fundCommitment cfg wallet rpc c with ⟨e | ⟨address, redeem⟩, sent⟩
  · refine ⟨.error e, ?_⟩
    have hsubmit : submitCommitment cfg (.error e) c = .error e := rfl
    simp only [State.emitCommitment, State.emitEvent, hfunded, hsubmit]
    split_ifs <;> rfl
  · obtain ⟨network, hsubmit⟩ := submitCommitment_of_funded hfunded
    refine ⟨.ok network, ?_⟩
    simp only [State.emitCommitment, State.emitEvent, hfunded, hsubmit]
    split_ifs <;> rfl

end Cases

/-- A script stands under the address that the scan of blocks derives for it. -/
def Watches (cfg : Config) (redeem : Bytes) (scripts : WatchedScripts) : Prop :=
  ∃ address script, deriveP2shAddr cfg redeem = some address ∧ scripts address = some script ∧
    script.redeemScript = redeem

structure Registered (cfg : Config) (redeem : Bytes) (id : SwapId) (st : State) : Prop where
  scripts : ∃ script, st.scripts id = some script ∧ script.redeemScript = redeem
  utxoScripts : Watches cfg redeem st.utxoScripts
  rows : ∃ row script, st.rows id = some row ∧ row.script = some script ∧
    script.redeemScript = redeem

/-- A funded script is registered; a failure that funds nothing changes nothing. -/
structure AllOrNothing (cfg : Config) (rpc : FundingRpc) (st : State) (c : CommitmentV1)
    (outcome : Except EmitError Unit × State × Option Transaction) : Prop where
  all : outcome.2.2.isSome → rpc.accepts →
    ∃ redeem, htlcScriptFromCommitment cfg c = .ok redeem ∧
      Registered cfg redeem c.swapId outcome.2.1
  nothing : (∃ e, outcome.1 = .error e) → ¬ (outcome.2.2.isSome ∧ rpc.accepts) → outcome.2.1 = st

/-- An accepted transaction is confirmed by a server of the configured network, unless its
script was registered before; and where nothing is accepted or confirmed, the commitment was
cached before. -/
structure SafeOutcome (cfg : Config) (wallet : Wallet) (rpc : FundingRpc) (st : State)
    (c : CommitmentV1) : Prop where
  accepted : ∀ network redeem tx, Fundable cfg wallet rpc c network redeem tx → rpc.accepts →
    rpc.Confirms ∧ (network = cfg.network ∨ Watches cfg redeem st.utxoScripts) ∨
      Registered cfg redeem c.swapId st
  unaccepted : (¬ ∃ network redeem tx, Fundable cfg wallet rpc c network redeem tx ∧
    (rpc.accepts ∨ rpc.Confirms)) → st.commitments c.swapId = some c

section Outcome

variable {cfg : Config} {wallet : Wallet} {rpc : FundingRpc} {st : State} {c : CommitmentV1}
  {network : Network} {redeem : Bytes} {tx : Transaction}

theorem Fundable.unique (h : Fundable cfg wallet rpc c network redeem tx) {network' : Network}
    {redeem' : Bytes} {tx' : Transaction} (h' : Fundable cfg wallet rpc c network' redeem' tx') :
    network' = network ∧ redeem' = redeem ∧ tx' = tx := by
  have hprepare := prepareFunding_eq_ok.mpr ⟨h.serverNetwork, h.script, h.toHasFunds⟩
  rw [prepareFunding_eq_ok.mpr ⟨h'.serverNetwork, h'.script, h'.toHasFunds⟩, Except.ok.injEq,
    Prod.mk.injEq, Prod.mk.injEq] at hprepare
  exact hprepare

theorem cacheCommitment_eq_self : st.cacheCommitment c = st ↔ st.commitments c.swapId = some c := by
  constructor
  · intro h
    rw [← h]
    exact Function.update_self _ _ _
  · intro h
    unfold State.cacheCommitment
    rw [← h, Function.update_eq_self]

theorem registered_cacheCommitment {id : SwapId} :
    Registered cfg redeem id (st.cacheCommitment c) ↔ Registered cfg redeem id st :=
  ⟨fun ⟨hscripts, hwatches, hrows⟩ => ⟨hscripts, hwatches, hrows⟩,
    fun ⟨hscripts, hwatches, hrows⟩ => ⟨hscripts, hwatches, hrows⟩⟩

private theorem rows_persistSwap {id : SwapId} {script : UtxoScript}
    (h : st.scripts id = some script) :
    ∃ row, (st.persistSwap id).rows id = some row ∧ row.script = some script := by
  refine ⟨st.swapRecord id, ?_, h⟩
  simp only [State.persistSwap, SwapRows.persist, Function.update_self]
  rw [if_neg]
  simp [State.swapRecord, PersistedSwap.isEmpty, h]

private theorem watches_update (cfg : Config) (network : Network) (script : UtxoScript)
    (hscript : script.redeemScript = redeem) (scripts : WatchedScripts) :
    Watches cfg redeem (Function.update scripts
        (cfg.codec.toString (scriptHashAddress network (cfg.blake2b redeem))) (some script)) ↔
      network = cfg.network ∨ Watches cfg redeem scripts := by
  by_cases hnetwork : network = cfg.network
  · subst hnetwork
    refine iff_of_true
      ⟨_, script, deriveP2shAddr_eq cfg redeem, Function.update_self _ _ _, hscript⟩ (.inl rfl)
  · have hne : cfg.codec.toString (scriptHashAddress cfg.network (cfg.blake2b redeem)) ≠
        cfg.codec.toString (scriptHashAddress network (cfg.blake2b redeem)) := by
      intro heq
      have haddress := cfg.codec.toString_injective heq
      exact hnetwork (congrArg Address.network haddress).symm
    simp only [Watches, deriveP2shAddr_eq, Option.some.injEq, hnetwork, false_or]
    constructor <;> rintro ⟨address, s, rfl, hs, hredeem⟩
    · rw [Function.update_of_ne hne] at hs
      exact ⟨_, s, rfl, hs, hredeem⟩
    · exact ⟨_, s, rfl, by rw [Function.update_of_ne hne, hs], hredeem⟩

/-- After its announcement an own script is registered, up to the network of its address. -/
theorem registered_announceOwn (cfg : Config) (st : State) (c : CommitmentV1) (network : Network)
    (redeem : Bytes) :
    Registered cfg redeem c.swapId (st.announceOwn c
        (cfg.codec.toString (scriptHashAddress network (cfg.blake2b redeem))) redeem) ↔
      network = cfg.network ∨ Watches cfg redeem st.utxoScripts := by
  let script : UtxoScript := ⟨redeem, c.unlockTs, c.amount.value⟩
  have hwatches := watches_update cfg network script rfl st.utxoScripts
  have hscript : Function.update st.scripts c.swapId (some script) c.swapId = some script :=
    Function.update_self _ _ _
  constructor
  · intro h
    exact hwatches.mp h.utxoScripts
  · intro h
    obtain ⟨row, hrow, hrowScript⟩ : ∃ row, (st.announceOwn c (cfg.codec.toString
        (scriptHashAddress network (cfg.blake2b redeem))) redeem).rows c.swapId = some row ∧
          row.script = some script := rows_persistSwap hscript
    exact ⟨⟨script, hscript, rfl⟩, hwatches.mpr h, ⟨row, script, hrow, hrowScript, rfl⟩⟩

/-- Emitting a commitment is all or nothing exactly when an accepted transaction is confirmed
(or its script was registered before), and a commitment that is not funded was cached before. -/
theorem emit_commitment_all_or_nothing_iff (cfg : Config) (wallet : Wallet) (rpc : FundingRpc)
    (st : State) (c : CommitmentV1) :
    AllOrNothing cfg rpc st c (st.emitCommitment cfg wallet rpc c) ↔
      SafeOutcome cfg wallet rpc st c := by
  by_cases hfundable : ∃ network redeem tx, Fundable cfg wallet rpc c network redeem tx
  · obtain ⟨network, redeem, tx, hfund⟩ := hfundable
    by_cases hconfirms : rpc.Confirms
    · rw [emitCommitment_confirmed hfund hconfirms]
      have hregistered := registered_announceOwn cfg (st.cacheCommitment c) c network redeem
      constructor
      · rintro ⟨hall, -⟩
        refine ⟨fun network' redeem' tx' hfund' haccepts => .inl ⟨hconfirms, ?_⟩, fun hno => ?_⟩
        · obtain ⟨rfl, rfl, rfl⟩ := hfund.unique hfund'
          obtain ⟨redeem₀, hredeem₀, hreg⟩ := hall rfl haccepts
          rw [hfund.script, Except.ok.injEq] at hredeem₀
          subst hredeem₀
          exact hregistered.mp hreg
        · exact absurd ⟨network, redeem, tx, hfund, .inr hconfirms⟩ hno
      · rintro ⟨haccepted, -⟩
        refine ⟨fun _ haccepts => ⟨redeem, hfund.script, hregistered.mpr ?_⟩, ?_⟩
        · rcases haccepted network redeem tx hfund haccepts with ⟨-, h⟩ | h
          · exact h
          · exact .inr h.utxoScripts
        · rintro ⟨e, he⟩
          cases he
    · obtain ⟨e, hemit⟩ := emitCommitment_unconfirmed st hfund hconfirms
      rw [hemit]
      constructor
      · rintro ⟨hall, hnothing⟩
        refine ⟨fun network' redeem' tx' hfund' haccepts => .inr ?_, fun hno => ?_⟩
        · obtain ⟨rfl, rfl, rfl⟩ := hfund.unique hfund'
          obtain ⟨redeem₀, hredeem₀, hreg⟩ := hall rfl haccepts
          rw [hfund.script, Except.ok.injEq] at hredeem₀
          subst hredeem₀
          exact registered_cacheCommitment.mp hreg
        · refine cacheCommitment_eq_self.mp (hnothing ⟨e, rfl⟩ ?_)
          exact fun hboth => hno ⟨network, redeem, tx, hfund, .inl hboth.2⟩
      · rintro ⟨haccepted, hunaccepted⟩
        refine ⟨fun _ haccepts => ⟨redeem, hfund.script, registered_cacheCommitment.mpr ?_⟩,
          fun _ hno => cacheCommitment_eq_self.mpr (hunaccepted ?_)⟩
        · rcases haccepted network redeem tx hfund haccepts with ⟨h, -⟩ | h
          · exact absurd h hconfirms
          · exact h
        · rintro ⟨_, _, _, -, haccepts | h⟩
          · exact hno ⟨rfl, haccepts⟩
          · exact hconfirms h
  · obtain ⟨e, hemit⟩ := emitCommitment_unsent st hfundable
    rw [hemit]
    constructor
    · rintro ⟨-, hnothing⟩
      refine ⟨fun network redeem tx hfund => absurd ⟨network, redeem, tx, hfund⟩ hfundable,
        fun _ => cacheCommitment_eq_self.mp (hnothing ⟨e, rfl⟩ ?_)⟩
      rintro ⟨hsent, -⟩
      cases hsent
    · rintro ⟨-, hunaccepted⟩
      refine ⟨(nomatch ·), fun _ _ => cacheCommitment_eq_self.mpr (hunaccepted ?_)⟩
      rintro ⟨network, redeem, tx, hfund, -⟩
      exact hfundable ⟨network, redeem, tx, hfund⟩

end Outcome

/-- A wallet with one large output and a server that takes every transaction. -/
def sampleWallet : Wallet := ⟨100, fun _ => .ok (pubKeyAddress 1), fun _ _ _ => .ok []⟩

def lostAnswer : FundingRpc where
  serverNetwork := some .testnet
  utxos _ := .ok [⟨⟨.filled 40, 0⟩, 1000000000, payToAddressScript (pubKeyAddress 1), 5, false⟩]
  virtualDaaScore := some 1000
  priorityFee _ := .ok 2000
  submitTransaction := none
  accepts := true

/-- The network takes the transaction and its answer is lost: nothing knows the script. -/
theorem lost_answer_unregistered :
    ¬ AllOrNothing ownNode.kaspa lostAnswer State.empty ownCommitment
      (State.empty.emitCommitment ownNode.kaspa sampleWallet lostAnswer ownCommitment) := by
  intro h
  obtain ⟨redeem, -, hregistered⟩ := h.all (by decide +kernel) rfl
  obtain ⟨script, hscript, -⟩ := hregistered.scripts
  have hnone : (State.empty.emitCommitment ownNode.kaspa sampleWallet lostAnswer
      ownCommitment).2.1.scripts ownCommitment.swapId = none := by
    decide +kernel
  rw [hnone] at hscript
  cases hscript

end Stroemnet.Kaspa
