import Stroemnet.RevealForwarding

/-! # Refunding one's own script

The maps of the UTXO channel are keyed by the swap. What they hold for a swap is the node's own
script as long as no other script with the same id is announced or emitted, and no input shows
the own script without spending its output. -/
namespace Stroemnet.Kaspa
open Script Htlc

/-- The id that stands in a script that follows the template. -/
def CarriesId (redeem : Bytes) (id : SwapId) : Prop :=
  ∃ s : HtlcSlots, parseScript redeem = .ok s.opcodes ∧ id.data = extractOpcodeData s.swapId

theorem CarriesId.unique {redeem : Bytes} {id id' : SwapId} (h : CarriesId redeem id)
    (h' : CarriesId redeem id') : id = id' := by
  obtain ⟨s, hs, hid⟩ := h
  obtain ⟨s', hs', hid'⟩ := h'
  rw [hs, Except.ok.injEq] at hs'
  obtain rfl := HtlcSlots.opcodes_injective hs'
  exact Bytes32.ext (hid.trans hid'.symm)

private theorem extractCommitment_slots {codec : AddressCodec} {redeem : Bytes} {ops : List Opcode}
    {amount : String} {network : Network} {channelId : ChannelId} {c : CommitmentV1}
    (hparse : parseScript redeem = .ok ops)
    (h : extractCommitment codec ops amount network channelId = .ok c) :
    ∃ s : HtlcSlots, ops = s.opcodes ∧ ReadAs codec network s c := by
  obtain ⟨found, hfound, -⟩ := bind_eq_ok.mp h
  obtain ⟨s, rfl, -⟩ := collectData_eq_ok (parseScript_sound hparse).1 hfound
  exact ⟨s, rfl, extractCommitment_readAs h⟩

theorem carriesId_of_extractCommitment {codec : AddressCodec} {redeem : Bytes}
    {ops : List Opcode} {amount : String} {network : Network} {channelId : ChannelId}
    {c : CommitmentV1} (hparse : parseScript redeem = .ok ops)
    (h : extractCommitment codec ops amount network channelId = .ok c) :
    CarriesId redeem c.swapId := by
  obtain ⟨s, rfl, hread⟩ := extractCommitment_slots hparse h
  exact ⟨s, hparse, hread.swapId⟩

theorem addressTryFrom_eq_ok {codec : AddressCodec} {text : String} {a : Address} :
    addressTryFrom codec text = .ok a ↔ codec.tryFrom text = .ok a := by
  unfold addressTryFrom
  cases codec.tryFrom text <;> simp

section Built

variable {cfg : Config} {c c' : CommitmentV1} {redeem : Bytes}

/-- The script of a commitment is the template, filled by the builder. -/
theorem htlcScriptFromCommitment_eq_ok (h : htlcScriptFromCommitment cfg c = .ok redeem) :
    ∃ sender receiver, cfg.codec.tryFrom c.addresses.sender = .ok sender ∧
      cfg.codec.tryFrom c.addresses.receiver = .ok receiver ∧
      createHtlcScript (htlcParams sender receiver c) = .ok redeem := by
  unfold htlcScriptFromCommitment at h
  obtain ⟨sender, hsender, h⟩ := bind_eq_ok.mp h
  obtain ⟨receiver, hreceiver, h⟩ := bind_eq_ok.mp h
  refine ⟨sender, receiver, addressTryFrom_eq_ok.mp hsender,
    addressTryFrom_eq_ok.mp hreceiver, ?_⟩
  unfold buildHtlc at h
  split at h
  · rename_i built hbuilt
    cases h
    exact hbuilt
  · cases h

theorem parseScript_built {p : HtlcParams} (h : createHtlcScript p = .ok redeem) :
    parseScript redeem = .ok (HtlcSlots.built p).opcodes :=
  parseScript_build (htlcCalls_plain p) h

theorem carriesId_built (h : htlcScriptFromCommitment cfg c = .ok redeem) :
    CarriesId redeem c.swapId := by
  obtain ⟨sender, receiver, -, -, hbuilt⟩ := htlcScriptFromCommitment_eq_ok h
  refine ⟨_, parseScript_built hbuilt, (extract_canonicalPush ?_ ?_).symm⟩
  · exact List.ne_nil_of_length_pos (by simp)
  · intro heq
    have hlen := congrArg List.length heq
    simp at hlen

private theorem rebuilt_of_extractCommitment (h : htlcScriptFromCommitment cfg c = .ok redeem)
    (hfits : 1000 * c.unlockTs.toNat < 2 ^ 63) {ops : List Opcode} {amount : String}
    {network : Network} {channelId : ChannelId} (hparse : parseScript redeem = .ok ops)
    (hread : extractCommitment cfg.codec ops amount network channelId = .ok c') :
    htlcScriptFromCommitment cfg c' = .ok redeem ∧ c'.unlockTs = c.unlockTs := by
  obtain ⟨sender, receiver, -, -, hbuilt⟩ := htlcScriptFromCommitment_eq_ok h
  set p := htlcParams sender receiver c with hp
  rw [parseScript_built hbuilt, Except.ok.injEq] at hparse
  subst hparse
  have hreadAs := extractCommitment_readAs hread
  have htimelock : (HtlcSlots.built p).timelock = numberPush (1000 * c.unlockTs.toNat : ℕ) := by
    rw [← asI64_saturatingMul hfits]
    rfl
  have ha : p.Accepted :=
    htlcCalls_accepted.mp ((build_eq_ok (htlcCalls_plain p)).mp hbuilt).1
  have hcanonical : (HtlcSlots.built p).Canonical :=
    ⟨⟨_, rfl⟩, built_payout_canonical _, ⟨_, hfits, htimelock⟩, built_payout_canonical _,
      ⟨_, rfl⟩, ⟨_, ha.senderReceiverAddress, rfl⟩, ⟨_, rfl⟩⟩
  obtain ⟨sender', -, hsenderText, hsender⟩ := hreadAs.sender
  obtain ⟨receiver', -, hreceiverText, hreceiver⟩ := hreadAs.receiver
  have hrebuilt := (createHtlcScript_iff_canonical (parseScript_built hbuilt) hreadAs hsender
    hreceiver).mpr hcanonical
  refine ⟨?_, ?_⟩
  · simp only [htlcScriptFromCommitment, addressTryFrom, hsenderText, hreceiverText,
      cfg.codec.tryFrom_toString, bind_eq_ok, Except.ok.injEq, exists_eq_left']
    rw [buildHtlc, hrebuilt]
  · rw [hreadAs.unlockTs]
    exact UInt64.toNat_inj.mp (seconds_of_timelock hfits htimelock)

end Built

theorem p2shAddress_eq_ok {codec : AddressCodec} {blake2b : Bytes → Bytes32} {network : Network}
    {redeem : Bytes} {text address : String} :
    p2shAddress codec blake2b network redeem text = .ok address ↔
      address = codec.toString (scriptHashAddress network (blake2b redeem)) := by
  have hextract :=
    extractScriptPubKeyAddress_payToAddressScript (scriptHashAddress network (blake2b redeem))
  rw [payToAddressScript_scriptHash, scriptHashAddress] at hextract
  simp only [p2shAddress, hextract, Except.ok.injEq]
  exact eq_comm

/-- A submission that goes through funds the script of the commitment at its address. -/
theorem submitCommitment_eq_ok {cfg : Config} {network : Except KaspaError Network}
    {c : CommitmentV1} {address : String} {redeem : Bytes}
    (h : submitCommitment cfg network c = .ok (address, redeem)) :
    ∃ network', network = .ok network' ∧ htlcScriptFromCommitment cfg c = .ok redeem ∧
      address = cfg.codec.toString (scriptHashAddress network' (cfg.blake2b redeem)) := by
  unfold submitCommitment at h
  obtain ⟨network', hnetwork, h⟩ := bind_eq_ok.mp h
  obtain ⟨redeem', hbuilt, h⟩ := bind_eq_ok.mp h
  split at h
  · cases h
  · obtain ⟨address', haddress, h⟩ := bind_eq_ok.mp h
    cases h
    exact ⟨network', hnetwork, hbuilt, p2shAddress_eq_ok.mp haddress⟩

theorem deriveP2shAddr_eq (cfg : Config) (redeem : Bytes) :
    deriveP2shAddr cfg redeem =
      some (cfg.codec.toString (scriptHashAddress cfg.network (cfg.blake2b redeem))) := by
  have hextract := extractScriptPubKeyAddress_payToAddressScript
    (scriptHashAddress cfg.network (cfg.blake2b redeem))
  rw [payToAddressScript_scriptHash, scriptHashAddress] at hextract
  simp only [deriveP2shAddr, hextract]
  rfl

theorem AddressCodec.toString_injective (codec : AddressCodec) :
    Function.Injective codec.toString := by
  intro a b h
  have hab := codec.tryFrom_toString a
  rw [h, codec.tryFrom_toString, Except.ok.injEq] at hab
  exact hab.symm

/-- The commitment that a node has made, with its script and the output that funds it. -/
structure OwnHtlc (cfg : Config) where
  commitment : CommitmentV1
  redeem : Bytes
  built : htlcScriptFromCommitment cfg commitment = .ok redeem
  fits : 1000 * commitment.unlockTs.toNat < 2 ^ 63
  outpoint : TransactionOutpoint

namespace OwnHtlc

variable {cfg : Config} (own : OwnHtlc cfg)

def id : SwapId := own.commitment.swapId

/-- A commitment from which the own script is rebuilt, with the own unlock time. -/
def Is (c : CommitmentV1) : Prop :=
  htlcScriptFromCommitment cfg c = .ok own.redeem ∧ c.unlockTs = own.commitment.unlockTs

/-- An input that shows a script with the hash of the own script. -/
def Revealed (input : TransactionInput) : Prop :=
  ∃ r, lastRedeem input.signatureScript = some r ∧ cfg.blake2b r = cfg.blake2b own.redeem

def Unrevealed (b : Block) : Prop :=
  ∀ tx ∈ b.transactions, ∀ input ∈ tx.inputs, ¬ own.Revealed input

/-- Among the watched scripts only the own one carries the own id, under its own address. -/
def Watched (scripts : WatchedScripts) : Prop :=
  ∀ addr s, scripts addr = some s → CarriesId s.redeemScript own.id →
    s.redeemScript = own.redeem ∧
      ∃ network, addr = cfg.codec.toString (scriptHashAddress network (cfg.blake2b own.redeem))

variable {own}

private theorem is_self : own.Is own.commitment := ⟨own.built, rfl⟩

theorem Watched.mono {scripts scripts' : WatchedScripts} (h : own.Watched scripts)
    (hsub : ∀ addr s, scripts' addr = some s → scripts addr = some s) : own.Watched scripts' :=
  fun addr s hs => h addr s (hsub addr s hs)

theorem Watched.update {scripts : WatchedScripts} (h : own.Watched scripts) (script : UtxoScript)
    {network : Network} {id : SwapId} (hcarries : CarriesId script.redeemScript id)
    (hown : id = own.id → script.redeemScript = own.redeem) :
    own.Watched (Function.update scripts
      (cfg.codec.toString (scriptHashAddress network (cfg.blake2b script.redeemScript)))
      (some script)) := by
  intro addr s hs hid
  by_cases heq : addr =
      cfg.codec.toString (scriptHashAddress network (cfg.blake2b script.redeemScript))
  · subst heq
    rw [Function.update_self, Option.some.injEq] at hs
    subst hs
    have hredeem := hown (hcarries.unique hid)
    exact ⟨hredeem, network, by rw [hredeem]⟩
  · rw [Function.update_of_ne heq] at hs
    exact h addr s hs hid

end OwnHtlc

/-- What a block may yield for the own swap while the own script is not shown: its own
commitment, together with its own refund. -/
structure OwnOutcomes {cfg : Config} (own : OwnHtlc cfg) (o : BlockOutcomes) : Prop where
  commitments : ∀ c, .commitment c ∈ o.events → c.swapId = own.id →
    own.Is c ∧ ∃ p ∈ o.refunds, p.1 = own.id
  unresolved : ∀ e ∈ o.events, e.swapId = own.id → ∃ c, e = .commitment c
  refunds : ∀ p ∈ o.refunds, p.1 = own.id → p.2 = own.commitment.unlockTs

section Blocks

variable {cfg : Config} {own : OwnHtlc cfg} {scripts : WatchedScripts}

theorem OwnOutcomes.nil : OwnOutcomes own ⟨[], []⟩ := by
  constructor <;> simp

theorem OwnOutcomes.append {a b : BlockOutcomes} (ha : OwnOutcomes own a)
    (hb : OwnOutcomes own b) : OwnOutcomes own (a.append b) := by
  refine ⟨fun c hc hid => ?_, fun e he hid => ?_, fun p hp hid => ?_⟩
  · rcases List.mem_append.mp hc with hc | hc
    · obtain ⟨his, p, hp, hpid⟩ := ha.commitments c hc hid
      exact ⟨his, p, List.mem_append_left _ hp, hpid⟩
    · obtain ⟨his, p, hp, hpid⟩ := hb.commitments c hc hid
      exact ⟨his, p, List.mem_append_right _ hp, hpid⟩
  · rcases List.mem_append.mp he with he | he
    · exact ha.unresolved e he hid
    · exact hb.unresolved e he hid
  · rcases List.mem_append.mp hp with hp | hp
    · exact ha.refunds p hp hid
    · exact hb.refunds p hp hid

theorem OwnOutcomes.foldl {found : List BlockOutcomes} (h : ∀ o ∈ found, OwnOutcomes own o)
    {acc : BlockOutcomes} (hacc : OwnOutcomes own acc) :
    OwnOutcomes own (found.foldl BlockOutcomes.append acc) := by
  induction found generalizing acc with
  | nil => exact hacc
  | cons o found ih =>
    obtain ⟨ho, hfound⟩ := List.forall_mem_cons.mp h
    exact ih hfound (hacc.append ho)

theorem scanOutput_own (hw : own.Watched scripts) {output : TransactionOutput}
    {found : BlockOutcomes} (h : scanOutput cfg scripts output = .ok found) :
    OwnOutcomes own found := by
  unfold scanOutput at h
  split at h
  · cases h
    exact .nil
  · split at h
    · cases h
      exact .nil
    · rename_i script hscript
      obtain ⟨ops, hops, h⟩ := bind_eq_ok.mp h
      split at h
      · cases h
        exact .nil
      · rename_i c hc
        split at h
        · cases h
          exact .nil
        · cases h
          have hparse := parseOpcodes_eq_ok.mp hops
          have his : c.swapId = own.id → own.Is c := by
            intro hid
            have hcarries := carriesId_of_extractCommitment hparse hc
            rw [hid] at hcarries
            rw [(hw _ _ hscript hcarries).1] at hparse
            exact rebuilt_of_extractCommitment own.built own.fits hparse hc
          refine ⟨fun c' hc' hid => ?_, fun e he _ => ?_, fun p hp hid => ?_⟩
          · simp only at hc'
            split_ifs at hc'
            · simp only [List.mem_singleton, ChainEvent.commitment.injEq] at hc'
              subst hc'
              exact ⟨his hid, _, List.mem_singleton_self _, hid⟩
            · cases hc'
          · simp only at he
            split_ifs at he
            · exact ⟨c, List.mem_singleton.mp he⟩
            · cases he
          · rw [List.mem_singleton] at hp
            subst hp
            exact (his hid).2

private theorem scanOutputs_own (hw : own.Watched scripts) {tx : Transaction}
    {found : BlockOutcomes}
    (h : scanOutputs cfg scripts tx = .ok found) : OwnOutcomes own found := by
  unfold scanOutputs at h
  obtain ⟨all, hall, h⟩ := bind_eq_ok.mp h
  cases h
  refine OwnOutcomes.foldl (fun o ho => ?_) .nil
  obtain ⟨output, -, houtput⟩ := mem_of_mapM_eq_ok hall ho
  exact scanOutput_own hw houtput

theorem classifySpend_carriesId {sig : Bytes} {script : UtxoScript} {e : ChainEvent}
    {closed : Bool} (h : classifySpend cfg sig script = .ok (some e, closed)) :
    CarriesId script.redeemScript e.swapId := by
  obtain ⟨sigOpcodes, redeemOpcodes, c, -, hredeem, hc, hevent⟩ := classifySpend_eq_ok h
  have hcarries := carriesId_of_extractCommitment (parseOpcodes_eq_ok.mp hredeem) hc
  rcases hevent with ⟨secret, -, rfl⟩ | ⟨-, rfl⟩ <;> exact hcarries

/-- An input that yields an event of the own swap shows the own script. -/
theorem scanInputs_own (hw : own.Watched scripts) {tx : Transaction}
    (hun : ∀ input ∈ tx.inputs, ¬ own.Revealed input) :
    OwnOutcomes own ⟨(scanInputs cfg scripts tx).1, []⟩ := by
  have hne : ∀ e ∈ (scanInputs cfg scripts tx).1, e.swapId ≠ own.id := by
    intro e he hid
    obtain ⟨input, hinput, redeem, addr, script, closed, hredeem, haddr, hscript, hspend⟩ :=
      scanInputs_events he
    have hcarries := classifySpend_carriesId hspend
    rw [hid] at hcarries
    obtain ⟨-, network, hnetwork⟩ := hw addr script hscript hcarries
    rw [deriveP2shAddr_eq, Option.some.injEq, hnetwork] at haddr
    have hpayload := congrArg Address.payload (cfg.codec.toString_injective haddr)
    exact hun input hinput ⟨redeem, hredeem, Bytes32.ext hpayload⟩
  refine ⟨fun c hc hid => absurd hid (hne _ hc), fun e he hid => absurd hid (hne e he), ?_⟩
  simp

theorem scanInputs_scripts {tx : Transaction} {addr : String} {s : UtxoScript}
    (h : (scanInputs cfg scripts tx).2 addr = some s) : scripts addr = some s := by
  simp only [scanInputs] at h
  split_ifs at h
  exact h

private theorem handleTransactions_own {txs : List Transaction} {acc : BlockOutcomes}
    (hw : own.Watched scripts) (hun : ∀ tx ∈ txs, ∀ input ∈ tx.inputs, ¬ own.Revealed input)
    (hacc : OwnOutcomes own acc) :
    own.Watched (handleTransactions cfg txs scripts acc).2 ∧
      ∀ outcomes, (handleTransactions cfg txs scripts acc).1 = .ok outcomes →
        OwnOutcomes own outcomes := by
  induction txs generalizing scripts acc with
  | nil =>
    refine ⟨hw, ?_⟩
    rintro _ ⟨⟩
    exact hacc
  | cons tx txs ih =>
    obtain ⟨htx, htxs⟩ := List.forall_mem_cons.mp hun
    unfold handleTransactions
    split
    · exact ⟨hw, nofun⟩
    · rename_i found hfound
      exact ih (hw.mono fun _ _ => scanInputs_scripts) htxs
        ((hacc.append (scanOutputs_own hw hfound)).append (scanInputs_own hw htx))

end Blocks

def State.Scheduled (st : State) (id : SwapId) : Prop :=
  ∃ p ∈ st.pendingRefunds, p.1.swapId = id

/-- What the maps hold for the own swap, where they hold anything. -/
structure Kept {cfg : Config} (own : OwnHtlc cfg) (st : State) : Prop where
  watched : own.Watched st.utxoScripts
  blocks : ∀ b ∈ st.safeBlocks, own.Unrevealed b
  commitments : ∀ c, st.commitments own.id = some c → own.Is c
  scripts : ∀ s, st.scripts own.id = some s → s.redeemScript = own.redeem
  refunds : ∀ p ∈ st.pendingRefunds, p.1.swapId = own.id → p.2 = own.commitment.unlockTs
  queue : st.Scheduled own.id → (st.queue (.refund own.id)).isSome

structure Advances (id : SwapId) (st st' : State) : Prop where
  commitments : (st.commitments id).isSome → (st'.commitments id).isSome
  scripts : (st.scripts id).isSome → (st'.scripts id).isSome
  scheduled : st.Scheduled id → st'.Scheduled id

theorem Advances.refl (id : SwapId) (st : State) : Advances id st st :=
  ⟨fun h => h, fun h => h, fun h => h⟩

theorem Advances.trans {id : SwapId} {a b c : State} (hab : Advances id a b)
    (hbc : Advances id b c) : Advances id a c :=
  ⟨fun h => hbc.commitments (hab.commitments h), fun h => hbc.scripts (hab.scripts h),
    fun h => hbc.scheduled (hab.scheduled h)⟩

def Keeps {cfg : Config} (own : OwnHtlc cfg) (st st' : State) : Prop :=
  Kept own st' ∧ Advances own.id st st'

section Steps

variable {cfg : Config} {own : OwnHtlc cfg} {st : State} {now : UInt64}

theorem Kept.prune (h : Kept own st) : Kept own (st.pruneScripts cfg now) :=
  ⟨h.watched.mono fun _ _ hs => (Option.filter_eq_some_iff.mp hs).1, h.blocks, h.commitments,
    h.scripts, h.refunds, h.queue⟩

theorem Kept.persist (h : Kept own st) (id : SwapId) : Kept own (st.persistSwap id) :=
  ⟨h.watched, h.blocks, h.commitments, h.scripts, h.refunds, h.queue⟩

theorem Keeps.persist {st' : State} (h : Keeps own st st') (id : SwapId) :
    Keeps own st (st'.persistSwap id) :=
  ⟨h.1.persist id, ⟨h.2.commitments, h.2.scripts, h.2.scheduled⟩⟩

theorem isSome_update {α β : Type} [DecidableEq α] {f : α → Option β} {a b : α} {y : β}
    (h : (f b).isSome) : (Function.update f a (some y) b).isSome := by
  by_cases heq : b = a
  · subst heq
    simp
  · rwa [Function.update_of_ne heq]

/-- An accepted announcement keeps the own swap unless it is another script with its id. -/
theorem Kept.registerScript (h : Kept own st) {address : String} {redeem : Bytes} {id : SwapId}
    {unlockTs : UInt64} {target : String}
    (hown : validateScriptAnnounce cfg.codec cfg.blake2b cfg.networkId cfg.channelId address redeem
      id unlockTs = .ok () → id = own.id → redeem = own.redeem) :
    Keeps own st (st.registerScript cfg now address redeem id unlockTs target).2 := by
  unfold State.registerScript
  cases hvalid : validateScriptAnnounce cfg.codec cfg.blake2b cfg.networkId cfg.channelId address
      redeem id unlockTs with
  | error e => exact ⟨h, .refl _ _⟩
  | ok _ =>
    obtain ⟨network, s, c, -, hparse, hc, hid, -, haddress⟩ := validateScriptAnnounce_eq_ok hvalid
    have hcarries : CarriesId redeem id := hid ▸ carriesId_of_extractCommitment hparse hc
    obtain rfl := p2shAddress_eq_ok.mp (haddress "")
    have hregistered : Kept own
        ({ st with scripts := Function.update st.scripts id (some ⟨redeem, unlockTs, target⟩) }.registerInternal
          (cfg.codec.toString (scriptHashAddress network (cfg.blake2b redeem)))
          ⟨redeem, unlockTs, target⟩) := by
      refine ⟨h.watched.update ⟨redeem, unlockTs, target⟩ hcarries (hown hvalid),
        h.blocks, h.commitments, fun s hs => ?_, h.refunds, h.queue⟩
      by_cases heq : own.id = id
      · simp only [State.registerInternal, heq, Function.update_self, Option.some.injEq] at hs
        subst hs
        exact hown hvalid heq.symm
      · simp only [State.registerInternal, Function.update_of_ne heq] at hs
        exact h.scripts s hs
    exact ⟨hregistered.prune.persist id, ⟨fun hs => hs, isSome_update, fun hs => hs⟩⟩

theorem Kept.cacheCommitment (h : Kept own st) {c : CommitmentV1}
    (hown : c.swapId = own.id → own.Is c) : Keeps own st (st.cacheCommitment c) := by
  refine ⟨⟨h.watched, h.blocks, fun c' hc' => ?_, h.scripts, h.refunds, h.queue⟩,
    ⟨isSome_update, fun hs => hs, fun hs => hs⟩⟩
  by_cases heq : own.id = c.swapId
  · simp only [State.cacheCommitment, heq, Function.update_self, Option.some.injEq] at hc'
    subst hc'
    exact hown heq.symm
  · simp only [State.cacheCommitment, Function.update_of_ne heq] at hc'
    exact h.commitments c' hc'

/-- An emission keeps the own swap unless it is another commitment with its id. -/
theorem Kept.emitEvent (h : Kept own st) {network : Except KaspaError Network}
    {event : ChainEvent}
    (hown : ∀ c, event = .commitment c → c.swapId = own.id → own.Is c) :
    Keeps own st (st.emitEvent cfg now network event).2 := by
  cases event with
  | commitment c =>
    obtain ⟨hcached, hadvances⟩ := h.cacheCommitment (hown c rfl)
    simp only [State.emitEvent]
    split_ifs
    · split
      · exact ⟨hcached, hadvances⟩
      · rename_i address redeem hsubmit
        obtain ⟨network', -, hbuilt, rfl⟩ := submitCommitment_eq_ok hsubmit
        have hredeem : c.swapId = own.id → redeem = own.redeem := by
          intro hid
          have his := (hown c rfl hid).1
          rw [hbuilt, Except.ok.injEq] at his
          exact his
        refine ⟨⟨hcached.watched.update ⟨redeem, c.unlockTs, c.amount.value⟩
          (carriesId_built hbuilt) hredeem, h.blocks, hcached.commitments, fun s hs => ?_,
          h.refunds, h.queue⟩, hadvances.trans ⟨fun hs => hs, isSome_update, fun hs => hs⟩⟩
        by_cases heq : own.id = c.swapId
        · simp only [State.persistSwap, State.registerInternal, heq, Function.update_self,
            Option.some.injEq] at hs
          subst hs
          exact hredeem heq.symm
        · simp only [State.persistSwap, State.registerInternal, Function.update_of_ne heq] at hs
          exact h.scripts s hs
    · exact ⟨hcached, hadvances⟩
  | reveal r =>
    simp only [State.emitEvent]
    split_ifs
    · exact ⟨⟨h.watched, h.blocks, h.commitments, h.scripts, h.refunds,
        fun hp => RetryQueue.isSome_ensure (h.queue hp)⟩,
        ⟨fun hs => hs, fun hs => hs, fun hs => hs⟩⟩
    · exact ⟨h, .refl _ _⟩
  | refund r => exact ⟨h, .refl _ _⟩

/-- After a successful submission there is a commitment and a script for the swap. -/
theorem emitEvent_submitted {network : Except KaspaError Network} {c : CommitmentV1}
    (h : (st.emitEvent cfg now network (.commitment c)).1 = .ok ()) :
    ((st.emitEvent cfg now network (.commitment c)).2.commitments c.swapId).isSome ∧
      ((st.emitEvent cfg now network (.commitment c)).2.scripts c.swapId).isSome := by
  simp only [State.emitEvent] at h ⊢
  split_ifs at h ⊢
  · split at h
    · cases h
    · simp [State.persistSwap, State.registerInternal, State.cacheCommitment]

theorem Kept.recordFailure (h : Kept own st) (k : ActionKey) :
    Keeps own st (st.recordFailure k now) := by
  refine ⟨⟨h.watched, h.blocks, h.commitments, h.scripts, h.refunds, fun hp => ?_⟩,
    ⟨fun hs => hs, fun hs => hs, fun hs => hs⟩⟩
  simp only [State.recordFailure, State.persistSwap, RetryQueue.isSome_recordFailure]
  exact h.queue hp

theorem Kept.scheduleRefund (h : Kept own st) (now : UInt64) {refund : SwapId × UInt64}
    (hown : refund.1 = own.id → refund.2 = own.commitment.unlockTs) :
    Keeps own st (st.scheduleRefund now refund) ∧
      (refund.1 = own.id → (st.scheduleRefund now refund).Scheduled own.id) := by
  unfold State.scheduleRefund pushPendingRefund
  by_cases hany : st.pendingRefunds.any (·.1.swapId = refund.1)
  · rw [if_pos hany]
    refine ⟨⟨h, .refl _ _⟩, fun hid => ?_⟩
    obtain ⟨p, hp, hpid⟩ := List.any_eq_true.mp hany
    exact ⟨p, hp, (of_decide_eq_true hpid).trans hid⟩
  · rw [if_neg hany]
    refine ⟨⟨⟨h.watched, h.blocks, h.commitments, h.scripts, fun p hp hid => ?_, ?_⟩,
      ⟨fun hs => hs, fun hs => hs, fun ⟨p, hp, hpid⟩ => ⟨p, List.mem_append_left _ hp, hpid⟩⟩⟩,
      fun hid => ⟨_, List.mem_append_right _ (List.mem_singleton_self _), hid⟩⟩
    · rcases List.mem_append.mp hp with hp | hp
      · exact h.refunds p hp hid
      · rw [List.mem_singleton] at hp
        subst hp
        exact hown hid
    · rintro ⟨p, hp, hpid⟩
      rcases List.mem_append.mp hp with hp | hp
      · exact RetryQueue.isSome_ensure (h.queue ⟨p, hp, hpid⟩)
      · rw [List.mem_singleton] at hp
        subst hp
        have hid : refund.1 = own.id := hpid
        rw [← hid]
        exact RetryQueue.isSome_ensure_self _ _ _

theorem Kept.scheduleRefunds (h : Kept own st) (now : UInt64) {refunds : List (SwapId × UInt64)}
    (hown : ∀ p ∈ refunds, p.1 = own.id → p.2 = own.commitment.unlockTs) :
    Keeps own st (refunds.foldl (State.scheduleRefund now) st) ∧
      ((∃ p ∈ refunds, p.1 = own.id) →
        (refunds.foldl (State.scheduleRefund now) st).Scheduled own.id) := by
  induction refunds generalizing st with
  | nil => exact ⟨⟨h, .refl _ _⟩, by simp⟩
  | cons refund refunds ih =>
    obtain ⟨hrefund, hrefunds⟩ := List.forall_mem_cons.mp hown
    obtain ⟨⟨hkept, hadvances⟩, hself⟩ := h.scheduleRefund now hrefund
    obtain ⟨⟨hkept', hadvances'⟩, hrest⟩ := ih hkept hrefunds
    refine ⟨⟨hkept', hadvances.trans hadvances'⟩, ?_⟩
    rintro ⟨p, hp, hid⟩
    rcases List.mem_cons.mp hp with rfl | hp
    · exact hadvances'.scheduled (hself hid)
    · exact hrest ⟨p, hp, hid⟩

/-- A resolved swap leaves the maps of every other swap alone. -/
theorem Kept.untrack (h : Kept own st) {id : SwapId} (hne : own.id ≠ id) :
    Keeps own st
      ({ st with pendingRefunds := st.pendingRefunds.filter (·.1.swapId ≠ id) }.untrack id) := by
  have hmem : ∀ p : RefundV1 × UInt64, p ∈ st.pendingRefunds.filter (·.1.swapId ≠ id) →
      p ∈ st.pendingRefunds := fun p hp => (List.mem_filter.mp hp).1
  have hcommitments : Function.update st.commitments id none own.id = st.commitments own.id :=
    Function.update_of_ne hne _ _
  have hscripts : Function.update st.scripts id none own.id = st.scripts own.id :=
    Function.update_of_ne hne _ _
  have hqueue : ((st.queue.recordSuccess (.claim id)).recordSuccess (.refund id)) (.refund own.id) =
      st.queue (.refund own.id) := by
    rw [RetryQueue.recordSuccess_of_ne (by simpa [ActionKey.refund] using hne),
      RetryQueue.recordSuccess_of_ne (by simp [ActionKey.refund, ActionKey.claim])]
  refine ⟨⟨h.watched, h.blocks, fun c hc => h.commitments c (hcommitments ▸ hc),
    fun s hs => h.scripts s (hscripts ▸ hs), fun p hp => h.refunds p (hmem p hp), ?_⟩, ?_⟩
  · rintro ⟨p, hp, hid⟩
    have hsome := h.queue ⟨p, hmem p hp, hid⟩
    rw [← hqueue] at hsome
    exact hsome
  · refine ⟨fun hc => ?_, fun hs => ?_, ?_⟩
    · rw [← hcommitments] at hc
      exact hc
    · rw [← hscripts] at hs
      exact hs
    rintro ⟨p, hp, hid⟩
    exact ⟨p, List.mem_filter.mpr ⟨hp, decide_eq_true fun heq => hne (hid.symm.trans heq)⟩, hid⟩

/-- Tracking an event keeps the own swap: its commitments are own and scheduled already, and
nothing resolves it. -/
theorem Kept.trackActionableEvent (h : Kept own st) {event : ChainEvent}
    (hcommitment : ∀ c, event = .commitment c → c.swapId = own.id →
      own.Is c ∧ (cfg.participateCcr → st.Scheduled own.id))
    (hresolve : event.swapId = own.id → ∃ c, event = .commitment c) :
    Keeps own st (st.trackActionableEvent cfg event) := by
  cases event with
  | commitment c =>
    obtain ⟨hcached, hadvances⟩ := h.cacheCommitment fun hid => (hcommitment c rfl hid).1
    have hmem : ∀ p ∈ queueDequeueRefundEvent st.pendingRefunds (.commitment c) cfg.participateCcr,
        p.1.swapId = own.id → p ∈ st.pendingRefunds ∨ st.Scheduled own.id ∧
          p.2 = own.commitment.unlockTs := by
      intro p hp hid
      simp only [queueDequeueRefundEvent] at hp
      split_ifs at hp with hpush
      · rcases List.mem_append.mp hp with hp | hp
        · exact .inl hp
        · rw [List.mem_singleton] at hp
          subst hp
          obtain ⟨his, hccr⟩ := hcommitment c rfl hid
          exact .inr ⟨hccr hpush.1, his.2⟩
      · exact .inl hp
    refine ⟨⟨h.watched, h.blocks, hcached.commitments, h.scripts, ?_, ?_⟩,
      hadvances.trans ⟨fun hs => hs, fun hs => hs, ?_⟩⟩
    · intro p hp hid
      rcases hmem p hp hid with hp | ⟨-, hunlock⟩
      · exact h.refunds p hp hid
      · exact hunlock
    · rintro ⟨p, hp, hid⟩
      rcases hmem p hp hid with hp | ⟨hsched, -⟩
      · exact h.queue ⟨p, hp, hid⟩
      · exact h.queue hsched
    · rintro ⟨p, hp, hid⟩
      exact ⟨p, mem_queueDequeueRefundEvent_commitment c _ hp, hid⟩
  | reveal r =>
    have hne : own.id ≠ r.swapId := fun heq => by
      obtain ⟨c, hc⟩ := hresolve heq.symm
      cases hc
    exact (h.untrack hne).persist r.swapId
  | refund r =>
    have hne : own.id ≠ r.swapId := fun heq => by
      obtain ⟨c, hc⟩ := hresolve heq.symm
      cases hc
    exact (h.untrack hne).persist r.swapId

theorem Kept.trackEvents (h : Kept own st) {events : List ChainEvent}
    (hcommitment : ∀ c, .commitment c ∈ events → c.swapId = own.id →
      own.Is c ∧ (cfg.participateCcr → st.Scheduled own.id))
    (hresolve : ∀ e ∈ events, e.swapId = own.id → ∃ c, e = .commitment c) :
    Keeps own st (events.foldl (State.trackActionableEvent cfg) st) := by
  induction events generalizing st with
  | nil => exact ⟨h, .refl _ _⟩
  | cons event events ih =>
    obtain ⟨hkept, hadvances⟩ := h.trackActionableEvent
      (fun c hc => hcommitment c (hc ▸ List.mem_cons_self)) (hresolve event List.mem_cons_self)
    obtain ⟨hkept', hadvances'⟩ := ih hkept
      (fun c hc hid => by
        obtain ⟨his, hsched⟩ := hcommitment c (List.mem_cons_of_mem _ hc) hid
        exact ⟨his, fun hccr => hadvances.scheduled (hsched hccr)⟩)
      (fun e he => hresolve e (List.mem_cons_of_mem _ he))
    exact ⟨hkept', hadvances.trans hadvances'⟩

/-- A block that does not show the own script keeps the own swap, and a commitment of it leaves
its refund scheduled. -/
theorem Kept.processBlock (h : Kept own st) (now : UInt64) {block : Block}
    (hblock : own.Unrevealed block) :
    Keeps own st (st.processBlock cfg now block).2 ∧
      ∀ events, (st.processBlock cfg now block).1 = .ok events → cfg.participateCcr →
        ∀ c, .commitment c ∈ events → c.swapId = own.id →
          (st.processBlock cfg now block).2.Scheduled own.id := by
  obtain ⟨hw, hok⟩ := handleTransactions_own h.watched hblock .nil
  unfold State.processBlock handleBlockAdded
  split
  · rename_i e scripts hadded
    rw [hadded] at hw
    exact ⟨⟨⟨hw, h.blocks, h.commitments, h.scripts, h.refunds, h.queue⟩,
      ⟨fun hs => hs, fun hs => hs, fun hs => hs⟩⟩, nofun⟩
  · rename_i outcomes scripts hadded
    rw [hadded] at hw hok
    have houtcomes := hok outcomes rfl
    have hscripts : Kept own { st with utxoScripts := scripts } :=
      ⟨hw, h.blocks, h.commitments, h.scripts, h.refunds, h.queue⟩
    obtain ⟨⟨hkept, hadvances⟩, hsched⟩ :=
      hscripts.scheduleRefunds now houtcomes.refunds
    simp only
    split_ifs with hccr
    · obtain ⟨hkept', hadvances'⟩ := hkept.trackEvents
        (fun c hc hid => by
          obtain ⟨his, hp⟩ := houtcomes.commitments c hc hid
          exact ⟨his, fun _ => hsched hp⟩) houtcomes.unresolved
      refine ⟨⟨hkept', .trans ⟨hadvances.1, hadvances.2, hadvances.3⟩ hadvances'⟩, ?_⟩
      rintro _ ⟨⟩ - c hc hid
      exact hadvances'.scheduled (hsched (houtcomes.commitments c hc hid).2)
    · obtain ⟨hkept', hadvances'⟩ := hscripts.trackEvents
        (fun c hc hid => ⟨(houtcomes.commitments c hc hid).1, fun h => absurd h hccr⟩)
        houtcomes.unresolved
      exact ⟨⟨hkept', ⟨hadvances'.1, hadvances'.2, hadvances'.3⟩⟩, fun _ _ h => absurd h hccr⟩

theorem Kept.processBlocks (h : Kept own st) (now : UInt64) {blocks : List Block}
    (hblocks : ∀ b ∈ blocks, own.Unrevealed b) (events : List (ChannelId × ChainEvent))
    (hevents : cfg.participateCcr → ∀ channel c, (channel, .commitment c) ∈ events →
      c.swapId = own.id → st.Scheduled own.id) :
    Keeps own st (State.processBlocks cfg now blocks st events).2 ∧
      ∀ found, (State.processBlocks cfg now blocks st events).1 = .ok found →
        cfg.participateCcr → ∀ channel c, (channel, .commitment c) ∈ found → c.swapId = own.id →
          (State.processBlocks cfg now blocks st events).2.Scheduled own.id := by
  induction blocks generalizing st events with
  | nil =>
    refine ⟨⟨h.prune, ⟨fun hs => hs, fun hs => hs, fun hs => hs⟩⟩, ?_⟩
    rintro _ ⟨⟩
    exact hevents
  | cons block blocks ih =>
    obtain ⟨hblock, hblocks⟩ := List.forall_mem_cons.mp hblocks
    obtain ⟨⟨hkept, hadvances⟩, hsched⟩ := h.processBlock now hblock
    unfold State.processBlocks
    split
    · rename_i e st' hprocess
      rw [hprocess] at hkept hadvances
      exact ⟨⟨hkept, hadvances⟩, nofun⟩
    · rename_i found st' hprocess
      rw [hprocess] at hkept hadvances hsched
      obtain ⟨⟨hkept', hadvances'⟩, hfound⟩ := ih hkept hblocks
        (events ++ found.map fun e => (cfg.channelId, e))
        (fun hccr channel c hc hid => by
          rcases List.mem_append.mp hc with hc | hc
          · exact hadvances.scheduled (hevents hccr channel c hc hid)
          · obtain ⟨e, he, heq⟩ := List.mem_map.mp hc
            cases heq
            exact hsched found rfl hccr c he hid)
      exact ⟨⟨hkept', hadvances.trans hadvances'⟩, hfound⟩

/-- A poll keeps the own swap; a commitment of it among the events leaves its refund scheduled. -/
theorem Kept.pollFinalized (h : Kept own st) (now : UInt64) :
    Keeps own st (st.pollFinalized cfg now).2 ∧
      ∀ found, (st.pollFinalized cfg now).1 = .ok found → cfg.participateCcr →
        ∀ channel c, (channel, .commitment c) ∈ found → c.swapId = own.id →
          (st.pollFinalized cfg now).2.Scheduled own.id := by
  have hdrained : Kept own { st with safeBlocks := [] } :=
    ⟨h.watched, by simp, h.commitments, h.scripts, h.refunds, h.queue⟩
  obtain ⟨⟨hkept, hadvances⟩, hfound⟩ := hdrained.processBlocks now h.blocks [] (by simp)
  exact ⟨⟨hkept, ⟨hadvances.1, hadvances.2, hadvances.3⟩⟩, hfound⟩

/-- Everything that is needed to refund the own script is there. -/
structure Refundable {cfg : Config} (own : OwnHtlc cfg) (st : State) : Prop where
  commitment : ∃ c, st.commitments own.id = some c ∧ own.Is c
  script : ∃ s, st.scripts own.id = some s ∧ s.redeemScript = own.redeem
  refund : st.pendingRefunds.find? (·.1.swapId = own.id) =
    some (⟨own.id⟩, own.commitment.unlockTs)
  queue : (st.queue (.refund own.id)).isSome
  settle : ∀ pmt, cfg.hasKey → saturatingMul own.commitment.unlockTs 1000 < pmt →
    ∃ c, st.settleRefund cfg (some pmt) true own.id =
      (.retry "submitted_awaiting_inclusion", some c) ∧ own.Is c

private theorem Kept.refundable (h : Kept own st) (hcommitment : (st.commitments own.id).isSome)
    (hscript : (st.scripts own.id).isSome) (hscheduled : st.Scheduled own.id) :
    Refundable own st := by
  obtain ⟨c, hc⟩ := Option.isSome_iff_exists.mp hcommitment
  obtain ⟨s, hs⟩ := Option.isSome_iff_exists.mp hscript
  have his := h.commitments c hc
  refine ⟨⟨c, hc, his⟩, ⟨s, hs, h.scripts s hs⟩, ?_, h.queue hscheduled, fun pmt hkey hpmt => ?_⟩
  · obtain ⟨p, hp, hpid⟩ := hscheduled
    obtain ⟨⟨⟨id⟩, unlock⟩, hfound⟩ := Option.isSome_iff_exists.mp
      ((List.find?_isSome (p := fun x => x.1.swapId = own.id)).mpr ⟨p, hp, by simpa using hpid⟩)
    have hid : id = own.id := by simpa using List.find?_some hfound
    have hunlock : unlock = own.commitment.unlockTs :=
      h.refunds _ (List.mem_of_find?_eq_some hfound) hid
    rw [hfound, hid, hunlock]
  · refine ⟨c, ?_, his⟩
    have hlate : ¬ pmt ≤ saturatingMul c.unlockTs 1000 := by
      rw [his.2]
      exact UInt64.not_le.mpr hpmt
    simp [State.settleRefund, hc, hkey, hlate]

end Steps
end Stroemnet.Kaspa

namespace Stroemnet.Node

variable {RpcLog : Type} {cfg : NodeConfig RpcLog} {n : Node}

/-- Every step of a run meets a condition on the state before it. -/
def Along (cfg : NodeConfig RpcLog) (P : Node → NodeInput RpcLog → Prop) (n : Node)
    (ins : List (UInt64 × NodeInput RpcLog)) : Prop :=
  ∀ pre now i post, ins = pre ++ (now, i) :: post → P (n.run cfg pre) i

private theorem along_nil {P : Node → NodeInput RpcLog → Prop} : Along cfg P n [] := by
  intro pre now i post heq
  simp at heq

theorem along_cons {P : Node → NodeInput RpcLog → Prop} {x : UInt64 × NodeInput RpcLog}
    {ins : List (UInt64 × NodeInput RpcLog)} (hx : P n x.2)
    (hins : Along cfg P (n.step cfg x.1 x.2) ins) : Along cfg P n (x :: ins) := by
  intro pre now i post heq
  cases pre with
  | nil =>
    cases heq
    exact hx
  | cons y pre =>
    rw [List.cons_append, List.cons.injEq] at heq
    obtain ⟨rfl, heq⟩ := heq
    exact hins pre now i post heq

theorem Along.left {P : Node → NodeInput RpcLog → Prop} {a b : List (UInt64 × NodeInput RpcLog)}
    (h : Along cfg P n (a ++ b)) : Along cfg P n a :=
  fun pre now i post heq => h pre now i (post ++ b) (by simp [heq])

theorem Along.right {P : Node → NodeInput RpcLog → Prop} {a b : List (UInt64 × NodeInput RpcLog)}
    (h : Along cfg P n (a ++ b)) : Along cfg P (n.run cfg a) b := by
  intro pre now i post heq
  rw [← run_append]
  exact h (a ++ pre) now i post (by simp [heq])

/-- What one step keeps under the condition, a whole run keeps. -/
theorem Along.run {P : Node → NodeInput RpcLog → Prop} {I : Node → Node → Prop}
    (hrefl : ∀ n, I n n) (htrans : ∀ a b c, I a b → I b c → I a c) {K : Node → Prop}
    (hstep : ∀ n now i, K n → P n i → K (n.step cfg now i) ∧ I n (n.step cfg now i))
    {ins : List (UInt64 × NodeInput RpcLog)} (hK : K n) (h : Along cfg P n ins) :
    K (n.run cfg ins) ∧ I n (n.run cfg ins) := by
  induction ins generalizing n with
  | nil => exact ⟨hK, hrefl n⟩
  | cons i ins ih =>
    obtain ⟨hK', hI⟩ := hstep n i.1 i.2 hK (h [] i.1 i.2 ins rfl)
    obtain ⟨hK'', hI'⟩ := ih hK' (Along.right (a := [i]) h)
    exact ⟨hK'', htrans _ _ _ hI hI'⟩

/-- The steps after which the own script is still what the node refunds: no other script or
commitment with its id is taken up, and an input that shows it spends its output. -/
def SparesOwn (cfg : NodeConfig RpcLog) (own : Kaspa.OwnHtlc cfg.kaspa) (n : Node) :
    NodeInput RpcLog → Prop
  | .gossipScript s => s.redeemScript.length ≤ maxRedeemScriptBytes →
      Kaspa.validateScriptAnnounce cfg.kaspa.codec cfg.kaspa.blake2b cfg.kaspa.networkId
        cfg.kaspa.channelId s.address s.redeemScript s.swapId s.unlockTs = .ok () →
      s.swapId = own.id → s.redeemScript = own.redeem
  | .broadcast j _ _ => ∀ c, n.outbox[j]? = some (.kaspaTn10, .commitment c) →
      c.swapId = own.id → own.Is c
  | .receiveBlock b => ∀ tx ∈ b.transactions, ∀ input ∈ tx.inputs, own.Revealed input →
      input.previousOutpoint = own.outpoint
  | _ => True

/-- The steps that bring no block with a spend of the own output. -/
def LeavesUnspent (outpoint : Script.TransactionOutpoint) : NodeInput RpcLog → Prop
  | .receiveBlock b => ∀ tx ∈ b.transactions, ∀ input ∈ tx.inputs,
      input.previousOutpoint ≠ outpoint
  | _ => True

instance (outpoint : Script.TransactionOutpoint) :
    DecidablePred (LeavesUnspent outpoint : NodeInput RpcLog → Prop)
  | .receiveBlock b => inferInstanceAs (Decidable (∀ tx ∈ b.transactions, ∀ input ∈ tx.inputs,
      input.previousOutpoint ≠ outpoint))
  | .gossipReveal _ | .gossipScript _ | .pollEvm _ _ | .pollKaspa | .applyEvent _
  | .broadcast _ _ _ | .settledEvm _ _ | .failedEvm _ _ | .failedKaspa _ | .cleanup =>
    isTrue trivial

theorem keeps_step {own : Kaspa.OwnHtlc cfg.kaspa} (h : Kaspa.Kept own n.kaspa) (now : UInt64)
    {i : NodeInput RpcLog} (hspares : n.SparesOwn cfg own i)
    (hunspent : LeavesUnspent own.outpoint i) :
    Kaspa.Keeps own n.kaspa (n.step cfg now i).kaspa := by
  have hsame : Kaspa.Keeps own n.kaspa n.kaspa := ⟨h, .refl _ _⟩
  cases i with
  | gossipReveal r => rwa [step, kaspa_onReveal]
  | gossipScript s =>
    simp only [step, onScriptAnnounce]
    split_ifs with hlen hchannel
    · exact hsame
    · split
      · exact hsame
      · exact h.registerScript (hspares (not_lt.mp hlen))
    · split <;> exact hsame
  | pollEvm c rpc => rwa [step, kaspa_pollEvm]
  | receiveBlock b =>
    refine ⟨⟨h.watched, ?_, h.commitments, h.scripts, h.refunds, h.queue⟩,
      ⟨fun hs => hs, fun hs => hs, fun hs => hs⟩⟩
    intro block hblock
    rcases List.mem_append.mp hblock with hblock | hblock
    · exact h.blocks block hblock
    · rw [List.mem_singleton] at hblock
      subst hblock
      exact fun tx htx input hinput hrevealed =>
        hunspent tx htx input hinput (hspares tx htx input hinput hrevealed)
  | pollKaspa =>
    rw [step, kaspa_pollKaspa]
    split_ifs
    · exact hsame
    · exact (h.pollFinalized now).1
  | applyEvent moment => rwa [step, kaspa_applyEvent]
  | broadcast j sent network =>
    simp only [step]
    split
    · exact hsame
    · rename_i c event hj
      unfold broadcastEvent
      split_ifs with hc hevm
      · exact hsame
      · refine h.emitEvent fun c' hc' => hspares c' ?_
        rw [hj, hc', ChannelId.eq_kaspaTn10_of_not_isEvm hevm]
      · exact hsame
  | settledEvm c k => exact hsame
  | failedEvm c k => exact hsame
  | failedKaspa k => exact h.recordFailure k
  | cleanup => exact hsame

private theorem kept_start (own : Kaspa.OwnHtlc cfg.kaspa) (cursor : ChannelId → UInt64) (cap : ℕ) :
    Kaspa.Kept own (start cursor cap).kaspa := by
  refine ⟨?_, List.forall_mem_nil _, ?_, ?_, List.forall_mem_nil _, ?_⟩
  · intro address s hwatched
    cases hwatched
  · intro c hc
    cases hc
  · intro s hs
    cases hs
  · rintro ⟨p, hp, -⟩
    cases hp

theorem keeps_run {own : Kaspa.OwnHtlc cfg.kaspa} (h : Kaspa.Kept own n.kaspa)
    {ins : List (UInt64 × NodeInput RpcLog)}
    (halong : Along cfg (fun n i => n.SparesOwn cfg own i ∧ LeavesUnspent own.outpoint i) n ins) :
    Kaspa.Keeps own n.kaspa (n.run cfg ins).kaspa :=
  Along.run (I := fun a b => Kaspa.Advances own.id a.kaspa b.kaspa)
    (K := fun n => Kaspa.Kept own n.kaspa) (fun _ => .refl _ _) (fun _ _ _ => .trans)
    (fun _ now _ hkept hi => keeps_step hkept now hi.1 hi.2) h halong

/-- A run in which the own commitment is submitted and, later, found by a poll. -/
structure ConfirmedRun (cfg : NodeConfig RpcLog) (own : Kaspa.OwnHtlc cfg.kaspa) where
  cursor : ChannelId → UInt64
  cap : ℕ
  before : List (UInt64 × NodeInput RpcLog)
  submitAt : UInt64
  index : ℕ
  sent : Except DataError Unit
  network : Except Kaspa.KaspaError Kaspa.Network
  mid : List (UInt64 × NodeInput RpcLog)
  confirmAt : UInt64
  after : List (UInt64 × NodeInput RpcLog)
  configured : .kaspaTn10 ∈ cfg.channels
  emitted : ((start cursor cap).run cfg before).outbox[index]? =
    some (.kaspaTn10, .commitment own.commitment)
  submitted : (((start cursor cap).run cfg before).kaspa.emitEvent cfg.kaspa submitAt network
    (.commitment own.commitment)).1 = .ok ()
  running : ((start cursor cap).run cfg
    (before ++ (submitAt, .broadcast index sent network) :: mid)).halted = false
  confirmed : ∃ events c, (((start cursor cap).run cfg
      (before ++ (submitAt, .broadcast index sent network) :: mid)).kaspa.pollFinalized cfg.kaspa
        confirmAt).1 = .ok events ∧
    (.kaspaTn10, .commitment c) ∈ events ∧ c.swapId = own.id

namespace ConfirmedRun

variable {own : Kaspa.OwnHtlc cfg.kaspa} (r : ConfirmedRun cfg own)

def submission : UInt64 × NodeInput RpcLog := (r.submitAt, .broadcast r.index r.sent r.network)

def inputs : List (UInt64 × NodeInput RpcLog) :=
  (r.before ++ r.submission :: r.mid) ++ (r.confirmAt, .pollKaspa) :: r.after

def initial : Node := start r.cursor r.cap

/-- The steps of the run spare the own script and leave its output unspent. -/
def Spared (own : Kaspa.OwnHtlc cfg.kaspa) (n : Node) (ins : List (UInt64 × NodeInput RpcLog)) :
    Prop :=
  Along cfg (fun n i => n.SparesOwn cfg own i ∧ LeavesUnspent own.outpoint i) n ins

private theorem after_submission
    (h : Spared own r.initial (r.before ++ r.submission :: r.mid)) :
    Kaspa.Kept own (r.initial.run cfg (r.before ++ r.submission :: r.mid)).kaspa ∧
      ((r.initial.run cfg (r.before ++ r.submission :: r.mid)).kaspa.commitments own.id).isSome ∧
      ((r.initial.run cfg (r.before ++ r.submission :: r.mid)).kaspa.scripts own.id).isSome := by
  have hemit : ((r.initial.run cfg r.before).step cfg r.submitAt
      (.broadcast r.index r.sent r.network)).kaspa =
        ((r.initial.run cfg r.before).kaspa.emitEvent cfg.kaspa r.submitAt r.network
          (.commitment own.commitment)).2 := by
    have hemitted := r.emitted
    simp only [initial, step, hemitted]
    simp [broadcastEvent, r.configured, ChannelId.isEvm]
  have hbefore := (keeps_run (kept_start own r.cursor r.cap) h.left).1
  have hrest := h.right
  have hsubmission := hrest [] _ _ r.mid rfl
  have hsubmit := (keeps_step hbefore r.submitAt hsubmission.1 hsubmission.2).1
  obtain ⟨hkept, hadvances⟩ := keeps_run hsubmit (Along.right (a := [r.submission]) hrest)
  obtain ⟨hcommitment, hscript⟩ := Kaspa.emitEvent_submitted r.submitted
  rw [run_append]
  refine ⟨hkept, hadvances.commitments ?_, hadvances.scripts ?_⟩
  · exact hemit ▸ hcommitment
  · exact hemit ▸ hscript

/-- The poll that finds the commitment schedules its refund. -/
theorem scheduled (hccr : cfg.kaspa.participateCcr)
    (h : Kaspa.Kept own (r.initial.run cfg (r.before ++ r.submission :: r.mid)).kaspa) :
    Kaspa.Keeps own (r.initial.run cfg (r.before ++ r.submission :: r.mid)).kaspa
        ((r.initial.run cfg (r.before ++ r.submission :: r.mid)).step cfg r.confirmAt
          .pollKaspa).kaspa ∧
      ((r.initial.run cfg (r.before ++ r.submission :: r.mid)).step cfg r.confirmAt
        .pollKaspa).kaspa.Scheduled own.id := by
  obtain ⟨events, c, hpolled, hc, hid⟩ := r.confirmed
  have hrunning : (r.initial.run cfg (r.before ++ r.submission :: r.mid)).halted = false :=
    r.running
  have hpoll : ((r.initial.run cfg (r.before ++ r.submission :: r.mid)).step cfg r.confirmAt
      .pollKaspa).kaspa = ((r.initial.run cfg
        (r.before ++ r.submission :: r.mid)).kaspa.pollFinalized cfg.kaspa r.confirmAt).2 := by
    simp only [step, pollKaspa, hrunning, r.configured, Bool.false_eq_true, not_true, or_self,
      if_false]
    split <;> simp_all
  obtain ⟨hkeeps, hscheduled⟩ := h.pollFinalized r.confirmAt
  rw [hpoll]
  exact ⟨hkeeps, hscheduled events hpolled hccr _ c hc hid⟩

end ConfirmedRun

end Stroemnet.Node

namespace Stroemnet
open Kaspa Htlc Script

def ownRedeemHash : Bytes32 :=
  ⟨[160, 58, 117, 70, 28, 27, 175, 223, 90, 228, 128, 38, 174, 71, 40, 61, 127, 78, 31, 124, 235,
    93, 128, 213, 16, 77, 51, 237, 61, 82, 73, 232], rfl⟩

def ownAddress : String :=
  "kaspatest:pzsr5a2xrsd6lh66ujqzdtj89q7h7nsl0n44mqx4zpxn8mfa2fy7srhxnslnu"

/-- The provider's commitment on the UTXO chain. -/
def ownCommitment : CommitmentV1 where
  swapId := .filled 3
  addresses :=
    { sender := "kaspatest:qqqszqgpqyqszqgpqyqszqgpqyqszqgpqyqszqgpqyqszqgpqyqszapw00vun"
      receiver := "kaspatest:qqpqyqszqgpqyqszqgpqyqszqgpqyqszqgpqyqszqgpqyqszqgpqy5knqwd3y"
      senderDestination := providerAddress }
  amount := ⟨"1000", 8⟩
  secretHash := sampleSecretHash
  unlockTs := 280
  source := 0
  destination := 1

def ownRedeem : Bytes :=
  serialize (opcodes (htlcCalls (htlcParams (pubKeyAddress 1) (pubKeyAddress 2) ownCommitment)))

def ownNode : NodeConfig Evm.Log :=
  { sampleNode with
    kaspa :=
      { sampleNode.kaspa with
        codec := tableCodec ((scriptHashAddress .testnet ownRedeemHash, ownAddress) :: sampleTable)
          (by decide +kernel)
        blake2b := fun b => if b = ownRedeem then ownRedeemHash else sampleBlake2b b }
    kaspa_channelId := rfl }

def ownHtlc : OwnHtlc ownNode.kaspa where
  commitment := ownCommitment
  redeem := ownRedeem
  built := by decide +kernel
  fits := by decide
  outpoint := ⟨.filled 31, 0⟩

/-- A first commitment to the provider that asks for the UTXO chain. -/
def ownInitLog : Evm.Log :=
  .commitment ⟨.filled 3, 0x1111111111111111111111111111111111111111,
    0x2222222222222222222222222222222222222222, utf8Bytes ownCommitment.addresses.receiver, 2000,
    sampleSecretHash, 10000, 0⟩

/-- The provider answers the commitment and funds its own script. -/
def ownRun : Node.ConfirmedRun ownNode ownHtlc where
  cursor _ := 0
  cap := 50000
  before := [(100, samplePoll .ethereumSepolia 50 ownInitLog), (100, sampleApply)]
  submitAt := 100
  index := 0
  sent := .ok ()
  network := .ok .testnet
  mid := [(110, .receiveBlock (sampleBlock 30 [] ⟨0, payToScriptHashScript ownRedeemHash⟩))]
  confirmAt := 120
  after := []
  configured := by decide
  emitted := by decide +kernel
  submitted := by decide +kernel
  running := by decide +kernel
  confirmed := ⟨[(.kaspaTn10, .commitment ownCommitment)], ownCommitment, by decide +kernel,
    by decide +kernel, rfl⟩

/-- Then someone else announces and funds another script with the same id. -/
def takenOverRun : Node.ConfirmedRun ownNode ownHtlc :=
  { ownRun with
    after :=
      [(130, .gossipScript ⟨sampleAddress, .filled 3, sampleRedeem, 1000, "1"⟩),
        (140, .receiveBlock (sampleBlock 20 [] ⟨0, payToScriptHashScript sampleRedeemHash⟩)),
        (150, .pollKaspa)] }

namespace Node

end Node
end Stroemnet
