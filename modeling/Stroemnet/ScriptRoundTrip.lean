import Stroemnet.CounterRecognition
import Stroemnet.OwnSpends
import Stroemnet.RevealForwarding

/-! # From a commitment to its script and back

The script of a commitment holds everything the other side has to know. The builder writes small
values as opcodes of their own and numbers without leading zeros, and the parser has to undo
each of these forms; what is read is the commitment again, and the spends of the script are read
for what they are. -/
namespace Stroemnet.Kaspa
open Script Htlc Numbers

section Script

variable {cfg : Config} {c : CommitmentV1} {redeem : Bytes}

private theorem parseAddress_eq_ok {codec : AddressCodec} {role text : String} {a : Address} :
    parseAddress codec role text = .ok a ↔ codec.tryFrom text = .ok a := by
  unfold parseAddress
  cases codec.tryFrom text <;> simp

/-- The script that is announced is the script that is funded and spent. -/
theorem p2shComponents_script (hnetwork : networkOf cfg.networkId = .ok cfg.network) :
    (∃ address, p2shComponents cfg.codec cfg.blake2b cfg.networkId c = .ok (address, redeem)) ↔
      htlcScriptFromCommitment cfg c = .ok redeem := by
  simp only [p2shComponents, htlcScriptFromCommitment, bind_eq_ok, parseAddress_eq_ok,
    addressTryFrom_eq_ok, p2shAddress_eq_ok]
  constructor
  · rintro ⟨address, network, -, sender, hsender, receiver, hreceiver, script, hscript, _, -, h⟩
    cases h
    exact ⟨sender, hsender, receiver, hreceiver, hscript⟩
  · rintro ⟨sender, hsender, receiver, hreceiver, hscript⟩
    exact ⟨_, cfg.network, hnetwork, sender, hsender, receiver, hreceiver, redeem, hscript, _, rfl,
      rfl⟩

end Script

/-- A commitment that can be written down: addresses of the network in their usual form, a
destination that the builder takes, and a timelock that is a signed number of milliseconds. -/
structure Encodable (cfg : Config) (c : CommitmentV1) : Prop where
  sender : ∃ a : Address, a.network = cfg.network ∧ c.addresses.sender = cfg.codec.toString a
  receiver : ∃ a : Address, a.network = cfg.network ∧ c.addresses.receiver = cfg.codec.toString a
  senderDestination_ne : c.addresses.senderDestination ≠ ""
  senderDestination_fits :
    (utf8Bytes c.addresses.senderDestination).length ≤ maxScriptElementSize
  destination : ∃ channel : ChannelId, c.destination = channel.toByte
  unlockTs_pos : 1 ≤ c.unlockTs.toNat
  unlockTs_fits : c.unlockTs.toNat * 1000 < 2 ^ 63

section Read

variable {cfg : Config} {c : CommitmentV1} {sender receiver : Address}

private theorem channelByte_ne (channel : ChannelId) : channel.toByte ≠ 0x81 := by
  cases channel <;> decide

private theorem built_of_encodable (sender receiver : Address) (h : Encodable cfg c) :
    createHtlcScript (htlcParams sender receiver c) =
      .ok (serialize (opcodes (htlcCalls (htlcParams sender receiver c)))) := by
  have hsender := length_spkToVec_le sender
  have hreceiver := length_spkToVec_le receiver
  have hfits : 1000 * c.unlockTs.toNat < 2 ^ 63 := by
    have hlt := h.unlockTs_fits
    omega
  have ha : (htlcParams sender receiver c).Accepted := by
    refine ⟨?_, ?_, ?_, ?_, h.senderDestination_fits⟩
    · simp [htlcParams, maxScriptElementSize]
    · simp only [htlcParams, maxScriptElementSize]
      omega
    · simp only [htlcParams, asI64_saturatingMul hfits]
      exact length_serializeI64_le (by simp only [Int.natAbs_natCast]; norm_num; omega)
    · simp only [htlcParams, maxScriptElementSize]
      omega
  refine (build_eq_ok (htlcCalls_plain _)).mpr ⟨htlcCalls_accepted.mpr ha, ?_, rfl⟩
  exact length_htlc_le (Bytes32.length_data _) hreceiver hsender ha

/-- The parser reads the slots of the built script as the commitment. -/
theorem readAs_built (h : Encodable cfg c)
    (hsender : sender.network = cfg.network ∧ c.addresses.sender = cfg.codec.toString sender)
    (hreceiver : receiver.network = cfg.network ∧
      c.addresses.receiver = cfg.codec.toString receiver) :
    ReadAs cfg.codec cfg.network (.built (htlcParams sender receiver c)) c := by
  obtain ⟨channel, hchannel⟩ := h.destination
  have hfits : 1000 * c.unlockTs.toNat < 2 ^ 63 := by
    have hlt := h.unlockTs_fits
    omega
  have hpos := h.unlockTs_pos
  have htimelock : (HtlcSlots.built (htlcParams sender receiver c)).timelock =
      numberPush (1000 * c.unlockTs.toNat : ℕ) := by
    rw [← asI64_saturatingMul hfits]
    rfl
  have hdestination := extract_canonicalPush (utf8Bytes_ne_nil h.senderDestination_ne)
    (utf8Bytes_ne_continuation c.addresses.senderDestination)
  constructor
  case swapId => exact (extract_canonicalPush (Bytes32.ne_nil _) (Bytes32.ne_singleton _ _)).symm
  case secretHash =>
    exact (extract_canonicalPush (Bytes32.ne_nil _) (Bytes32.ne_singleton _ _)).symm
  case sender => exact ⟨sender, hsender.1, hsender.2, (extract_spkToVec sender).symm⟩
  case receiver => exact ⟨receiver, hreceiver.1, hreceiver.2, (extract_spkToVec receiver).symm⟩
  case timelock =>
    rw [htimelock, extract_numberPush (by omega) (by omega)]
    intro hnil
    have hvalue := (signedValue_serializeI64 (1000 * c.unlockTs.toNat : ℕ)).2
    have hzero : signedValue [] = 0 := by simp [signedValue]
    rw [hnil, hzero] at hvalue
    omega
  case unlockTs => exact (UInt64.toNat_inj.mp (seconds_of_timelock hfits htimelock)).symm
  case senderDestination => exact hdestination.symm
  case senderDestination_ne =>
    intro hnil
    exact utf8Bytes_ne_nil h.senderDestination_ne (hdestination.symm.trans hnil)
  case destination =>
    have hbyte : ([c.destination] : Bytes) ≠ [0x81] := by
      rw [hchannel]
      simpa using channelByte_ne channel
    exact congrArg List.head? (extract_canonicalPush (List.cons_ne_nil _ _) hbyte)

end Read

/-- A commitment survives its script: the parser reads it back, up to the amount and the channel
it is told; and every signature script that the node builds for the script is read as the reveal
of its secret or as the refund. One is built exactly when the script fits in one element. -/
structure RoundTrips (cfg : Config) (c : CommitmentV1) (redeem : Bytes) : Prop where
  commitment : ∃ ops, parseScript redeem = .ok ops ∧ ∀ amount channelId,
    extractCommitment cfg.codec ops amount cfg.network channelId =
      .ok { c with amount := ⟨amount, 8⟩, source := channelId.toByte }
  reveal : ∀ secret sig unlockTs target, branchSig (revealChoice secret) redeem = .ok sig →
    classifySpend cfg sig ⟨redeem, unlockTs, target⟩ =
      .ok (some (.reveal ⟨c.swapId, secret⟩), true)
  refund : ∀ sig unlockTs target, branchSig refundChoice redeem = .ok sig →
    classifySpend cfg sig ⟨redeem, unlockTs, target⟩ = .ok (some (.refund ⟨c.swapId⟩), true)
  opened : ∀ secret, (∃ sig, branchSig (revealChoice secret) redeem = .ok sig) ∧
    (∃ sig, branchSig refundChoice redeem = .ok sig) ↔ redeem.length ≤ maxScriptElementSize

section Spends

variable {cfg : Config} {c : CommitmentV1} {sig redeem : Bytes} {ops : List Opcode}

private theorem one_lt_length_built {p : HtlcParams} (h : createHtlcScript p = .ok redeem) :
    1 < redeem.length := by
  have hserialize := length_le_length_serialize (HtlcSlots.built p).opcodes
  rw [(parseScript_sound (parseScript_built h)).2] at hserialize
  have hopcodes : (HtlcSlots.built p).opcodes.length = expectedOpcodes.length := rfl
  have hexpected : 1 < expectedOpcodes.length := by decide
  omega

/-- A refund of a watched script is read as the refund of its swap. -/
theorem classifySpend_refund {unlockTs : UInt64} {target : String}
    (hsig : branchSig refundChoice redeem = .ok sig) (hne : 1 < redeem.length)
    (hparse : parseScript redeem = .ok ops)
    (hread : extractCommitment cfg.codec ops target cfg.network cfg.channelId = .ok c) :
    classifySpend cfg sig ⟨redeem, unlockTs, target⟩ =
      .ok (some (.refund ⟨c.swapId⟩), true) := by
  have hsigParse : parseScript sig = .ok [⟨opFalse, []⟩, canonicalPush redeem] :=
    parseScript_build Choice.refund.plain_append hsig
  have hdata : extractOpcodeData (canonicalPush redeem) = redeem := by
    refine extract_canonicalPush ?_ ?_
    · exact List.ne_nil_of_length_pos (by omega)
    · rintro rfl
      simp at hne
  have hvalid : validateRefundSig [⟨opFalse, []⟩, canonicalPush redeem] = .ok () := by
    simp only [validateRefundSig, hdata, not_true, if_false, ne_eq]
    rw [if_neg (List.ne_nil_of_length_pos (by omega))]
  simp only [classifySpend, parseOpcodes_eq_ok.mpr hsigParse, parseOpcodes_eq_ok.mpr hparse, hread,
    bind, Except.bind, extractRevealSecret, hvalid, pure, Except.pure]

end Spends

/-- Announcing, funding and spending use one script; and the script of every commitment that can
be written down is built, and read back as the commitment, with its spends. -/
theorem htlc_script_round_trip (cfg : Config)
    (hnetwork : networkOf cfg.networkId = .ok cfg.network) :
    (∀ c redeem,
      (∃ address, p2shComponents cfg.codec cfg.blake2b cfg.networkId c = .ok (address, redeem)) ↔
        htlcScriptFromCommitment cfg c = .ok redeem) ∧
    ∀ c, Encodable cfg c → ∃ address redeem,
      p2shComponents cfg.codec cfg.blake2b cfg.networkId c = .ok (address, redeem) ∧
        RoundTrips cfg c redeem := by
  refine ⟨fun c redeem => p2shComponents_script hnetwork, ?_⟩
  intro c h
  obtain ⟨sender, hsender⟩ := h.sender
  obtain ⟨receiver, hreceiver⟩ := h.receiver
  have hbuilt := built_of_encodable sender receiver h
  generalize serialize (opcodes (htlcCalls (htlcParams sender receiver c))) = redeem at hbuilt
  have hscript : htlcScriptFromCommitment cfg c = .ok redeem := by
    simp only [htlcScriptFromCommitment, addressTryFrom, hsender.2, hreceiver.2,
      cfg.codec.tryFrom_toString, bind_eq_ok, Except.ok.injEq, exists_eq_left']
    rw [buildHtlc, hbuilt]
  obtain ⟨address, hcomponents⟩ := (p2shComponents_script hnetwork).mpr hscript
  have hparse := parseScript_built hbuilt
  have hread := extractCommitment_of_readAs (readAs_built h hsender hreceiver)
  have hpushed := pushedData_built hbuilt
  refine ⟨address, redeem, hcomponents, ⟨_, hparse, hread⟩, ?_, ?_, ?_⟩
  · intro secret sig unlockTs target hsig
    have hclaim : classifySpend cfg sig ⟨redeem, unlockTs, target⟩ = _ :=
      classifySpend_claim (signaturePushes_branchSig (Choice.reveal secret) hsig hpushed)
        (parseOpcodes_eq_ok.mpr hparse) (hread target cfg.channelId)
    exact hclaim
  · intro sig unlockTs target hsig
    have hrefund : classifySpend cfg sig ⟨redeem, unlockTs, target⟩ = _ :=
      classifySpend_refund hsig (one_lt_length_built hbuilt) hparse (hread target cfg.channelId)
    exact hrefund
  · intro secret
    simp only [branchSig_eq_ok (Choice.reveal secret), branchSig_eq_ok Choice.refund,
      exists_and_left, exists_eq, and_true, and_self]

/-- The sample swap with a destination of one byte, which the builder writes as an opcode. -/
def oneByteCommitment : CommitmentV1 :=
  { sampleCommitment with addresses :=
    { sampleCommitment.addresses with senderDestination := String.ofList [Char.ofNat 5] } }

theorem htlc_script_round_trip_one_byte :
    ∃ address redeem,
      p2shComponents sampleNode.kaspa.codec sampleNode.kaspa.blake2b sampleNode.kaspa.networkId
        oneByteCommitment = .ok (address, redeem) ∧
      RoundTrips sampleNode.kaspa oneByteCommitment redeem := by
  have hfacts : networkOf sampleNode.kaspa.networkId = .ok sampleNode.kaspa.network ∧
      oneByteCommitment.addresses.sender = sampleNode.kaspa.codec.toString (pubKeyAddress 1) ∧
      oneByteCommitment.addresses.receiver = sampleNode.kaspa.codec.toString (pubKeyAddress 2) ∧
      oneByteCommitment.addresses.senderDestination ≠ "" ∧
      (utf8Bytes oneByteCommitment.addresses.senderDestination).length ≤
        maxScriptElementSize := by
    decide +kernel
  obtain ⟨hnetwork, hsender, hreceiver, hne, hfits⟩ := hfacts
  exact (htlc_script_round_trip sampleNode.kaspa hnetwork).2 oneByteCommitment
    ⟨⟨pubKeyAddress 1, rfl, hsender⟩, ⟨pubKeyAddress 2, rfl, hreceiver⟩, hne, hfits,
      ⟨.ethereumSepolia, rfl⟩, by decide, by decide⟩

end Stroemnet.Kaspa
