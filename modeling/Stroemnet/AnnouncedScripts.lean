import Stroemnet.HtlcExtraction
import Stroemnet.HtlcSpendingCondition

/-! # Which announced scripts are the script they are read as

A script that passes the announcement check has the opcodes of the template, but only the
labelled data slots are looked at. The slots are made explicit here, and the accepted scripts
that rebuild to themselves are those whose slots hold the canonical pushes. -/
namespace Stroemnet.Kaspa
open Script Numbers Htlc

structure PayoutSlots where
  inputCount : Opcode
  outputCount : Opcode
  payee : Opcode
  spkIndex : Opcode
  amountIndex : Opcode
  reward : Opcode

/-- The data slots of a script that follows the template. -/
structure HtlcSlots where
  secretHash : Opcode
  claim : PayoutSlots
  timelock : Opcode
  refund : PayoutSlots
  swapId : Opcode
  senderReceiverAddress : Opcode
  destination : Opcode

def PayoutSlots.opcodes (s : PayoutSlots) : List Opcode :=
  [⟨opTxInputCount, []⟩, s.inputCount, ⟨opNumEqualVerify, []⟩,
    ⟨opTxOutputCount, []⟩, s.outputCount, ⟨opNumEqualVerify, []⟩,
    s.payee, s.spkIndex, ⟨opTxOutputSpk, []⟩, ⟨opEqualVerify, []⟩,
    s.amountIndex, ⟨opTxOutputAmount, []⟩,
    ⟨opTxInputIndex, []⟩, ⟨opTxInputAmount, []⟩, s.reward, ⟨opSub, []⟩,
    ⟨opGreaterThanOrEqual, []⟩]

def HtlcSlots.opcodes (s : HtlcSlots) : List Opcode :=
  [⟨opIf, []⟩, ⟨opSha256, []⟩, s.secretHash, ⟨opEqualVerify, []⟩] ++ s.claim.opcodes ++
    [⟨opElse, []⟩, s.timelock, ⟨opCheckLockTimeVerify, []⟩] ++ s.refund.opcodes ++
    [⟨opEndIf, []⟩, ⟨opFalse, []⟩, ⟨opIf, []⟩, s.swapId, s.senderReceiverAddress, s.destination,
      ⟨opEndIf, []⟩]

def HtlcSlots.found (s : HtlcSlots) : ScriptData
  | .opcode => none
  | .secretHash => some (extractOpcodeData s.secretHash)
  | .swapId => some (extractOpcodeData s.swapId)
  | .receiverSpk => some (extractOpcodeData s.claim.payee)
  | .senderSpk => some (extractOpcodeData s.refund.payee)
  | .timelock => some (extractOpcodeData s.timelock)
  | .senderReceiverAddress => some (extractOpcodeData s.senderReceiverAddress)
  | .destination => some (extractOpcodeData s.destination)

def PayoutSlots.built (payeeSpk : Bytes) : PayoutSlots where
  inputCount := numberPush 2
  outputCount := numberPush 2
  payee := canonicalPush payeeSpk
  spkIndex := numberPush 0
  amountIndex := numberPush 0
  reward := numberPush solverReward

def HtlcSlots.built (p : HtlcParams) : HtlcSlots where
  secretHash := canonicalPush p.secretHash
  claim := .built p.receiverSpk
  timelock := numberPush (asI64 p.timelock)
  refund := .built p.senderSpk
  swapId := canonicalPush p.swapId.data
  senderReceiverAddress := canonicalPush p.senderReceiverAddress
  destination := canonicalPush [p.destination]

private theorem built_opcodes (p : HtlcParams) :
    (HtlcSlots.built p).opcodes = opcodes (htlcCalls p) := rfl

theorem HtlcSlots.opcodes_injective : Function.Injective HtlcSlots.opcodes := by
  rintro ⟨h, ⟨c1, c2, c3, c4, c5, c6⟩, t, ⟨r1, r2, r3, r4, r5, r6⟩, i, a, d⟩
    ⟨h', ⟨c1', c2', c3', c4', c5', c6'⟩, t', ⟨r1', r2', r3', r4', r5', r6'⟩, i', a', d'⟩ heq
  simp only [HtlcSlots.opcodes, PayoutSlots.opcodes, List.cons_append, List.nil_append,
    List.cons.injEq, true_and, and_true] at heq
  obtain ⟨rfl, rfl, rfl, rfl, rfl, rfl, rfl, rfl, rfl, rfl, rfl, rfl, rfl, rfl, rfl, rfl, rfl⟩ := heq
  rfl

/-- The opcodes of a script at the data positions of a template. -/
def dataSlots : List (ExpectedOpCode × DataType) → List Opcode → List Opcode
  | (.opCode _, _) :: expected, _ :: script => dataSlots expected script
  | (.data, _) :: expected, o :: script => o :: dataSlots expected script
  | _, _ => []

def fillSlots : List (ExpectedOpCode × DataType) → List Opcode → List Opcode
  | (.opCode v, _) :: expected, slots => ⟨v, []⟩ :: fillSlots expected slots
  | (.data, _) :: expected, o :: slots => o :: fillSlots expected slots
  | _, _ => []

def plainPosition : ExpectedOpCode × DataType → Bool
  | (.opCode v, _) => lengthWidth v = 0 && directLength v = 0
  | (.data, _) => true

theorem collectLoop_fill {expected : List (ExpectedOpCode × DataType)} {script : List Opcode}
    {i : ℕ} {found found' : ScriptData} (hplain : ∀ e ∈ expected, plainPosition e = true)
    (hlen : script.length = expected.length) (hwf : ∀ o ∈ script, o.WellFormed)
    (h : collectLoop i expected script found = .ok found') :
    script = fillSlots expected (dataSlots expected script) := by
  induction expected generalizing script i found with
  | nil =>
    rw [List.length_nil, List.length_eq_zero_iff] at hlen
    subst hlen
    rfl
  | cons e expected ih =>
    obtain ⟨e, label⟩ := e
    cases script with
    | nil => cases hlen
    | cons o script =>
      have htail : ∀ e ∈ expected, plainPosition e = true :=
        fun e he => hplain e (List.mem_cons_of_mem _ he)
      have hlen' : script.length = expected.length := by simpa using hlen
      have hwf' : ∀ a ∈ script, a.WellFormed := fun a ha => hwf a (List.mem_cons_of_mem _ ha)
      cases e with
      | opCode v =>
        simp only [collectLoop] at h
        split_ifs at h with hv
        have hdata : o.data = [] := by
          obtain ⟨hw, hd⟩ : lengthWidth v = 0 ∧ directLength v = 0 := by
            simpa [plainPosition] using hplain (.opCode v, label) List.mem_cons_self
          have ho := hwf o List.mem_cons_self
          rw [Opcode.WellFormed, hv, hw, hd, if_pos rfl] at ho
          exact List.length_eq_zero_iff.mp ho
        have ho : o = ⟨v, []⟩ := by
          cases o
          simp_all
        rw [dataSlots, fillSlots, ← ih htail hlen' hwf' h, ho]
      | data =>
        simp only [collectLoop] at h
        rw [dataSlots, fillSlots, ← ih htail hlen' hwf' h]

private theorem length_dataSlots {expected : List (ExpectedOpCode × DataType)}
    {script : List Opcode}
    (hlen : script.length = expected.length) :
    (dataSlots expected script).length = expected.countP (·.1 = .data) := by
  induction expected generalizing script with
  | nil => cases script <;> rfl
  | cons e expected ih =>
    obtain ⟨e, label⟩ := e
    cases script with
    | nil => cases hlen
    | cons o script =>
      have hrest : (dataSlots expected script).length = expected.countP (·.1 = .data) :=
        ih (by simpa using hlen)
      cases e <;> simp [dataSlots, hrest]

theorem collectData_opcodes (s : HtlcSlots) : collectData s.opcodes = .ok s.found := by
  have hlen : s.opcodes.length = expectedOpcodes.length := rfl
  rw [collectData, if_neg (not_not.mpr hlen)]
  simp only [HtlcSlots.opcodes, PayoutSlots.opcodes, expectedOpcodes, expectedPayout, code, hole,
    List.cons_append, List.nil_append, collectLoop, if_true, reduceCtorEq, if_false,
    Except.ok.injEq]
  funext label
  cases label <;> rfl

/-- An accepted script is the template with seventeen slots, of which the parser keeps seven. -/
theorem collectData_eq_ok {script : List Opcode} {found : ScriptData}
    (hwf : ∀ o ∈ script, o.WellFormed) (h : collectData script = .ok found) :
    ∃ s : HtlcSlots, script = s.opcodes ∧ found = s.found := by
  have hcollect := h
  unfold collectData at h
  split_ifs at h with hlen
  rw [not_not] at hlen
  have hfill := collectLoop_fill (by decide) hlen hwf h
  have hcount := length_dataSlots hlen
  suffices hs : ∃ s : HtlcSlots, script = s.opcodes by
    obtain ⟨s, rfl⟩ := hs
    rw [collectData_opcodes, Except.ok.injEq] at hcollect
    exact ⟨s, rfl, hcollect.symm⟩
  generalize dataSlots expectedOpcodes script = slots at hfill hcount
  match slots, hcount with
  | [h, c1, c2, c3, c4, c5, c6, t, r1, r2, r3, r4, r5, r6, i, a, d], _ =>
    exact ⟨⟨h, ⟨c1, c2, c3, c4, c5, c6⟩, t, ⟨r1, r2, r3, r4, r5, r6⟩, i, a, d⟩, hfill⟩

theorem spkFromBytes_eq_ok {b : Bytes} {k : ScriptPublicKey} :
    spkFromBytes b = .ok k ↔ k.toBytes = b := by
  constructor
  · intro h
    match b, h with
    | v0 :: v1 :: script, h =>
      cases h
      have hlt := leNat_lt [v1, v0]
      have hbytes := leBytes_leNat [v1, v0]
      simp only [List.length_cons, List.length_nil] at hlt hbytes
      have hval : (UInt16.ofNat (leNat [v1, v0])).toNat = leNat [v1, v0] := by
        rw [UInt16.toNat_ofNat']
        omega
      simp only [ScriptPublicKey.toBytes, hval, hbytes]
      rfl
  · rintro rfl
    obtain ⟨version, script⟩ := k
    have hlt := version.toNat_lt
    have hback : leNat (leBytes 2 version.toNat) = version.toNat := leNat_leBytes (by omega)
    simp only [leBytes] at hback
    simp only [ScriptPublicKey.toBytes, leBytes, List.reverse_cons, List.reverse_nil,
      List.nil_append, List.cons_append, spkFromBytes, hback, UInt16.ofNat_toNat]

structure ReadAs (codec : AddressCodec) (network : Network) (s : HtlcSlots) (c : CommitmentV1) :
    Prop where
  swapId : c.swapId.data = extractOpcodeData s.swapId
  secretHash : c.secretHash.data = extractOpcodeData s.secretHash
  sender : ∃ a, a.network = network ∧ c.addresses.sender = codec.toString a ∧
    spkToVec (payToAddressScript a) = extractOpcodeData s.refund.payee
  receiver : ∃ a, a.network = network ∧ c.addresses.receiver = codec.toString a ∧
    spkToVec (payToAddressScript a) = extractOpcodeData s.claim.payee
  timelock : extractOpcodeData s.timelock ≠ []
  unlockTs : c.unlockTs = decodeU64FromScript (extractOpcodeData s.timelock) / 1000
  senderDestination :
    utf8Bytes c.addresses.senderDestination = extractOpcodeData s.senderReceiverAddress
  senderDestination_ne : extractOpcodeData s.senderReceiverAddress ≠ []
  destination : (extractOpcodeData s.destination).head? = some c.destination

private theorem nonEmpty_eq_ok {found : ScriptData} {t : DataType} {b : Bytes} :
    found.nonEmpty t = .ok b ↔ found t = some b ∧ b ≠ [] := by
  unfold ScriptData.nonEmpty
  cases found t with
  | none => simp
  | some x =>
    simp only [Option.some.injEq]
    split_ifs with hx
    · simp only [false_iff, not_and, not_not]
      rintro rfl
      exact hx
    · simp only [Except.ok.injEq]
      exact ⟨fun h => ⟨h, h ▸ hx⟩, fun h => h.1⟩

private theorem bytes32_eq_ok {found : ScriptData} {t : DataType} {e : KaspaError} {d : Bytes32}
    (h : found.bytes32 t e = .ok d) : found t = some d.data := by
  unfold ScriptData.bytes32 at h
  split at h
  · cases h
  · rename_i b hb
    split at h
    · rename_i d' hd
      cases h
      rw [hb, Bytes32.ofBytes_eq_some.mp hd]
    · cases h

private theorem addressOfSpk_eq_ok {codec : AddressCodec} {network : Network} {spk : Bytes}
    {text : String} (h : addressOfSpk codec network spk = .ok text) :
    ∃ a, a.network = network ∧ text = codec.toString a ∧ spkToVec (payToAddressScript a) = spk := by
  unfold addressOfSpk at h
  obtain ⟨k, hk, h⟩ := bind_eq_ok.mp h
  split at h
  · rename_i a ha
    cases h
    obtain ⟨hnetwork, hpay⟩ := extractScriptPubKeyAddress_eq_ok.mp ha
    exact ⟨a, hnetwork, rfl, by rw [hpay]; exact spkFromBytes_eq_ok.mp hk⟩
  · cases h

theorem extractCommitment_readAs {codec : AddressCodec} {network : Network} {s : HtlcSlots}
    {amount : String} {channelId : ChannelId} {c : CommitmentV1}
    (h : extractCommitment codec s.opcodes amount network channelId = .ok c) :
    ReadAs codec network s c := by
  unfold extractCommitment at h
  obtain ⟨found, hfound, h⟩ := bind_eq_ok.mp h
  rw [collectData_opcodes, Except.ok.injEq] at hfound
  subst hfound
  obtain ⟨swapId, hswapId, h⟩ := bind_eq_ok.mp h
  obtain ⟨sender, hsender, h⟩ := bind_eq_ok.mp h
  obtain ⟨receiver, hreceiver, h⟩ := bind_eq_ok.mp h
  obtain ⟨secretHash, hsecretHash, h⟩ := bind_eq_ok.mp h
  obtain ⟨timelock, htimelock, h⟩ := bind_eq_ok.mp h
  obtain ⟨senderDestination, hsenderDestination, h⟩ := bind_eq_ok.mp h
  obtain ⟨destination, hdestination, h⟩ := bind_eq_ok.mp h
  obtain ⟨senderAddress, hsenderAddress, h⟩ := bind_eq_ok.mp h
  obtain ⟨receiverAddress, hreceiverAddress, hbuilt⟩ := bind_eq_ok.mp h
  obtain ⟨hsender, -⟩ := nonEmpty_eq_ok.mp hsender
  obtain ⟨hreceiver, -⟩ := nonEmpty_eq_ok.mp hreceiver
  obtain ⟨htimelock, htimelock_ne⟩ := nonEmpty_eq_ok.mp htimelock
  obtain ⟨hdest, hdest_ne⟩ := nonEmpty_eq_ok.mp hsenderDestination
  have hswapId := bytes32_eq_ok hswapId
  have hsecretHash := bytes32_eq_ok hsecretHash
  simp only [HtlcSlots.found, Option.some.injEq] at hsender hreceiver htimelock hdest
  simp only [HtlcSlots.found, Option.some.injEq] at hswapId hsecretHash
  subst hsender hreceiver htimelock hdest
  cases htext : stringOfUtf8 (extractOpcodeData s.senderReceiverAddress) with
  | none =>
    rw [htext] at hbuilt
    cases hbuilt
  | some text =>
    rw [htext] at hbuilt
    cases hbuilt
    refine ⟨hswapId.symm, hsecretHash.symm, addressOfSpk_eq_ok hsenderAddress,
      addressOfSpk_eq_ok hreceiverAddress, htimelock_ne, rfl, stringOfUtf8_eq_some.mp htext,
      hdest_ne, ?_⟩
    unfold ScriptData.firstByte at hdestination
    simp only [HtlcSlots.found] at hdestination
    split at hdestination
    · rename_i b rest hb
      cases hdestination
      simp only [Option.some.injEq] at hb
      rw [hb]
      rfl
    · cases hdestination

/-- The other way round: what can be read is what the parser returns. -/
theorem extractCommitment_of_readAs {codec : AddressCodec} {network : Network} {s : HtlcSlots}
    {c : CommitmentV1} (h : ReadAs codec network s c) (amount : String) (channelId : ChannelId) :
    extractCommitment codec s.opcodes amount network channelId =
      .ok { c with amount := ⟨amount, 8⟩, source := channelId.toByte } := by
  have haddress : ∀ {spk : Bytes} {text : String},
      (∃ a : Address, a.network = network ∧ text = codec.toString a ∧
        spkToVec (payToAddressScript a) = spk) →
      spk ≠ [] ∧ addressOfSpk codec network spk = .ok text := by
    rintro spk text ⟨a, hnetwork, rfl, rfl⟩
    refine ⟨?_, ?_⟩
    · simp [spkToVec, ScriptPublicKey.toBytes, leBytes]
    · have hspk : spkFromBytes (spkToVec (payToAddressScript a)) = .ok (payToAddressScript a) :=
        spkFromBytes_eq_ok.mpr rfl
      have hextract := extractScriptPubKeyAddress_eq_ok.mpr ⟨hnetwork, rfl⟩
      simp only [addressOfSpk, hspk, bind, Except.bind, hextract]
  obtain ⟨hsender_ne, hsender⟩ := haddress h.sender
  obtain ⟨hreceiver_ne, hreceiver⟩ := haddress h.receiver
  have hswapId : s.found.bytes32 .swapId .invalidSwapIdLength = .ok c.swapId := by
    simp only [ScriptData.bytes32, HtlcSlots.found, ← h.swapId, Bytes32.ofBytes_data]
  have hsecretHash : s.found.bytes32 .secretHash .invalidSecretHashLength = .ok c.secretHash := by
    simp only [ScriptData.bytes32, HtlcSlots.found, ← h.secretHash, Bytes32.ofBytes_data]
  have hdestination : s.found.firstByte .destination = .ok c.destination := by
    have hhead := h.destination
    simp only [ScriptData.firstByte, HtlcSlots.found]
    cases hdata : extractOpcodeData s.destination with
    | nil =>
      rw [hdata] at hhead
      cases hhead
    | cons b rest =>
      rw [hdata, List.head?_cons, Option.some.injEq] at hhead
      rw [hhead]
  have hfound : ∀ {t : DataType} {b : Bytes}, s.found t = some b → b ≠ [] →
      s.found.nonEmpty t = .ok b := fun hb hne => nonEmpty_eq_ok.mpr ⟨hb, hne⟩
  have htext := stringOfUtf8_eq_some.mpr h.senderDestination
  simp only [extractCommitment, collectData_opcodes, hswapId, hsecretHash, hdestination,
    hfound (t := .senderSpk) rfl hsender_ne, hfound (t := .receiverSpk) rfl hreceiver_ne,
    hfound (t := .timelock) rfl h.timelock,
    hfound (t := .senderReceiverAddress) rfl h.senderDestination_ne,
    hsender, hreceiver, htext, bind, Except.bind, pure, Except.pure]
  rw [← h.unlockTs]

theorem extract_canonicalPush {d : Bytes} (hne : d ≠ []) (hneg : d ≠ [0x81]) :
    extractOpcodeData (canonicalPush d) = d := by
  by_cases hzero : d = [0]
  · subst hzero
    rfl
  · by_cases hsmall : d.length = 1 ∧ d.headI.toNat ≤ 16
    · obtain ⟨b, rfl⟩ := List.length_eq_one_iff.mp hsmall.1
      have hb : b.toNat ≤ 16 := hsmall.2
      have hpos : b ≠ 0 := fun h => hzero (by rw [h])
      have hb0 : b.toNat ≠ 0 := fun h => hpos (UInt8.toNat_inj.mp h)
      have hval : (0x50 + b).toNat = 80 + b.toNat := by
        rw [UInt8.toNat_add]
        simp only [UInt8.reduceToNat]
        omega
      have hv0 : 0x50 + b ≠ 0 := by
        intro h
        rw [h] at hval
        simp only [UInt8.toNat_zero] at hval
        omega
      have hsub : 0x50 + b - 0x50 = b := by
        rw [UInt8.add_comm]
        exact UInt8.add_sub_cancel b 0x50
      have hpush : canonicalPush [b] = ⟨0x50 + b, []⟩ := by
        simp [canonicalPush, hpos, hb]
      rw [hpush, extractOpcodeData, if_neg (by simp), valueToBytes, if_neg hv0,
        if_pos (by simp only [hval]; omega), hsub]
    · have hdata : (canonicalPush d).data = d := by
        unfold canonicalPush
        rw [if_neg (by simp [hne, hzero]), if_neg hsmall, if_neg hneg]
        split_ifs <;> rfl
      rw [extractOpcodeData, hdata, if_pos hne]

theorem canonicalPush_extract {d : Bytes} (h : extractOpcodeData (canonicalPush d) ≠ []) :
    canonicalPush (extractOpcodeData (canonicalPush d)) = canonicalPush d ∧
      (extractOpcodeData (canonicalPush d)).length ≤ max 1 d.length := by
  by_cases hne : d = []
  · subst hne
    decide
  · by_cases hneg : d = [0x81]
    · subst hneg
      exact absurd rfl h
    · rw [extract_canonicalPush hne hneg]
      exact ⟨rfl, le_max_right _ _⟩

private theorem serializeI64_ne_of_signedValue {n : ℤ} {b : Bytes} (h : signedValue b ≠ n) :
    serializeI64 n ≠ b := by
  rintro rfl
  exact h (signedValue_serializeI64 n).2

private theorem extract_numberPush_small : ∀ n ∈ Finset.Icc (1 : ℤ) 16,
    extractOpcodeData (numberPush n) = serializeI64 n := by
  decide +kernel

theorem extract_numberPush {n : ℤ} (hzero : n ≠ 0) (hneg : n ≠ -1) :
    extractOpcodeData (numberPush n) = serializeI64 n := by
  by_cases hs : SmallNumber n
  · apply extract_numberPush_small
    rw [Finset.mem_Icc]
    rcases hs with rfl | rfl | hs
    · exact absurd rfl hzero
    · exact absurd rfl hneg
    · exact hs
  · rw [numberPush_large hs]
    exact extract_canonicalPush
      (serializeI64_ne_of_signedValue (by simpa [signedValue] using hzero.symm))
      (serializeI64_ne_of_signedValue (by
        have hv : signedValue [0x81] = -1 := by decide
        rw [hv]
        exact hneg.symm))

theorem decodeU64FromScript_toNat {b : Bytes} (h : b.length ≤ 8) :
    (decodeU64FromScript b).toNat = leNat b := by
  have hlt := leNat_lt b
  have hpow : 256 ^ b.length ≤ 256 ^ 8 := Nat.pow_le_pow_right (by norm_num) h
  rw [decodeU64FromScript, List.take_of_length_le h, UInt64.toNat_ofNat']
  exact Nat.mod_eq_of_lt (by norm_num at hpow ⊢; omega)

structure PayoutSlots.Canonical (s : PayoutSlots) : Prop where
  inputCount : s.inputCount = numberPush 2
  outputCount : s.outputCount = numberPush 2
  payee : ∃ d, s.payee = canonicalPush d
  spkIndex : s.spkIndex = numberPush 0
  amountIndex : s.amountIndex = numberPush 0
  reward : s.reward = numberPush solverReward

/-- Every slot holds the canonical push of its constant or of its data; the timelock is a
whole number of seconds, and the sender's address is not longer than an element may be. -/
structure HtlcSlots.Canonical (s : HtlcSlots) : Prop where
  secretHash : ∃ d, s.secretHash = canonicalPush d
  claim : s.claim.Canonical
  timelock : ∃ t : ℕ, 1000 * t < 2 ^ 63 ∧ s.timelock = numberPush (1000 * t : ℕ)
  refund : s.refund.Canonical
  swapId : ∃ d, s.swapId = canonicalPush d
  senderReceiverAddress :
    ∃ d, d.length ≤ maxScriptElementSize ∧ s.senderReceiverAddress = canonicalPush d
  destination : ∃ b, s.destination = canonicalPush [b]

def CanonicalScript (redeem : Bytes) : Prop :=
  ∃ s : HtlcSlots, parseScript redeem = .ok s.opcodes ∧ s.Canonical

private theorem payoutSlots_eq_built {s : PayoutSlots} {spk : Bytes} (hs : s.Canonical)
    (hspk : spk = extractOpcodeData s.payee) (hne : spk ≠ []) : s = .built spk := by
  obtain ⟨s1, s2, s3, s4, s5, s6⟩ := s
  obtain ⟨rfl, rfl, ⟨d, rfl⟩, rfl, rfl, rfl⟩ := hs
  simp only at hspk
  rw [hspk] at hne ⊢
  simp [PayoutSlots.built, (canonicalPush_extract hne).1]

theorem built_payout_canonical (spk : Bytes) : (PayoutSlots.built spk).Canonical :=
  ⟨rfl, rfl, ⟨spk, rfl⟩, rfl, rfl, rfl⟩

/-- A canonical whole number of seconds is read as that number. -/
theorem seconds_of_timelock {o : Opcode} {t : ℕ} (ht : 1000 * t < 2 ^ 63)
    (ho : o = numberPush (1000 * t : ℕ)) :
    (decodeU64FromScript (extractOpcodeData o) / 1000).toNat = t := by
  have hdecode : (decodeU64FromScript (extractOpcodeData o)).toNat = 1000 * t := by
    by_cases hzero : t = 0
    · subst hzero ho
      decide +kernel
    · rw [ho, extract_numberPush (by omega) (by omega), decodeU64FromScript_toNat,
        leNat_serializeI64]
      exact length_serializeI64_le (by simp only [Int.natAbs_natCast]; norm_num; omega)
  rw [UInt64.toNat_div, hdecode]
  simp

theorem asI64_saturatingMul {u : UInt64} (h : 1000 * u.toNat < 2 ^ 63) :
    asI64 (saturatingMul u 1000) = (1000 * u.toNat : ℕ) := by
  have hthousand : (1000 : UInt64).toNat = 1000 := rfl
  have hmul : (saturatingMul u 1000).toNat = 1000 * u.toNat := by
    rw [saturatingMul, hthousand, UInt64.toNat_ofNat']
    omega
  rw [asI64, hmul, if_pos h]

/-- Rounding the timelock to seconds and back changes no canonical whole number of seconds. -/
private theorem timelock_rebuilt {o : Opcode} {t : ℕ} (ht : 1000 * t < 2 ^ 63)
    (ho : o = numberPush (1000 * t : ℕ)) :
    asI64 (saturatingMul (decodeU64FromScript (extractOpcodeData o) / 1000) 1000) =
      (1000 * t : ℕ) := by
  have hquot := seconds_of_timelock ht ho
  rw [asI64_saturatingMul (by rwa [hquot]), hquot]

/-- A rebuilt timelock slot holds a whole number of seconds below `2 ^ 63` milliseconds: the
sign bit of a larger one would not survive the rounding. -/
private theorem timelock_of_rebuilt {o : Opcode}
    (hlen : (serializeI64 (asI64 (saturatingMul
      (decodeU64FromScript (extractOpcodeData o) / 1000) 1000))).length ≤ 8)
    (ho : o = numberPush (asI64 (saturatingMul
      (decodeU64FromScript (extractOpcodeData o) / 1000) 1000))) :
    ∃ t : ℕ, 1000 * t < 2 ^ 63 ∧ o = numberPush (1000 * t : ℕ) := by
  set ms := decodeU64FromScript (extractOpcodeData o) with hms
  set T := saturatingMul (ms / 1000) 1000 with hT
  have hthousand : (1000 : UInt64).toNat = 1000 := rfl
  have hlt := ms.toNat_lt
  have hTval : T.toNat = 1000 * (ms.toNat / 1000) := by
    rw [hT, saturatingMul, UInt64.toNat_div, hthousand, UInt64.toNat_ofNat']
    omega
  by_cases hsmall : T.toNat < 2 ^ 63
  · refine ⟨ms.toNat / 1000, by omega, ?_⟩
    rw [ho, asI64, if_pos hsmall, hTval]
  · exfalso
    have hn : asI64 T = (T.toNat : ℤ) - 2 ^ 64 := by rw [asI64, if_neg hsmall]
    have hTlt := T.toNat_lt
    have hneg : asI64 T < 0 := by
      rw [hn]
      omega
    have hextract : extractOpcodeData o = serializeI64 (asI64 T) := by
      rw [ho]
      exact extract_numberPush (by omega) (by omega)
    have hvalue : ms.toNat =
        (asI64 T).natAbs + 128 * 256 ^ ((serializeI64 (asI64 T)).length - 1) := by
      rw [hms, hextract, decodeU64FromScript_toNat hlen, leNat_serializeI64_neg hneg]
    have hbound : ms.toNat < 256 ^ (serializeI64 (asI64 T)).length := by
      rw [hms, hextract, decodeU64FromScript_toNat hlen]
      exact leNat_lt _
    have height : (serializeI64 (asI64 T)).length = 8 := by
      by_contra hne
      have hpow : 256 ^ (serializeI64 (asI64 T)).length ≤ 256 ^ 7 :=
        Nat.pow_le_pow_right (by norm_num) (by omega)
      omega
    rw [height] at hvalue
    omega

theorem length_spkToVec_le (a : Address) :
    (spkToVec (payToAddressScript a)).length ≤ 37 := by
  have hlen := a.length_eq
  cases hv : a.version <;> rw [hv] at hlen <;>
    simp [spkToVec, ScriptPublicKey.toBytes, payToAddressScript, hv, hlen, Version.opening,
      Version.closing, Version.payloadLength]

private theorem size_payoutChecks (spk : Bytes) :
    ((payoutChecks spk).map (5 + ·.size)).sum = 91 + spk.length := by
  have hzero : (serializeI64 0).length = 0 := rfl
  have htwo : (serializeI64 2).length = 1 := by decide
  have hreward : (serializeI64 solverReward).length = 4 := by decide +kernel
  simp only [payoutChecks, List.map_cons, List.map_nil, List.sum_cons, List.sum_nil,
    BuilderCall.size, hzero, htwo, hreward]
  omega

/-- The script of parameters of the usual sizes is far below the builder's limit. -/
theorem length_htlc_le {p : HtlcParams} (hsecret : p.secretHash.length = 32)
    (hreceiver : p.receiverSpk.length ≤ 37) (hsender : p.senderSpk.length ≤ 37)
    (ha : p.Accepted) : (serialize (opcodes (htlcCalls p))).length ≤ maxScriptsSize := by
  have haddress : p.senderReceiverAddress.length ≤ 520 := ha.senderReceiverAddress
  have htimelock := ha.timelock
  refine (length_serialize_calls_le (htlcCalls p)).trans ?_
  simp only [htlcCalls, claimBranch, refundBranch, metadata, List.map_append, List.sum_append,
    size_payoutChecks, List.map_cons, List.map_nil, List.sum_cons, List.sum_nil,
    BuilderCall.size_op, BuilderCall.size_data, BuilderCall.size_i64, Bytes32.length_data,
    List.length_singleton, maxScriptsSize]
  omega

variable {codec : AddressCodec} {network : Network} {s : HtlcSlots} {c : CommitmentV1}

private theorem slots_eq_built {senderAddr receiverAddr : Address} (hs : s.Canonical)
    (hread : ReadAs codec network s c)
    (hsender : spkToVec (payToAddressScript senderAddr) = extractOpcodeData s.refund.payee)
    (hreceiver : spkToVec (payToAddressScript receiverAddr) = extractOpcodeData s.claim.payee) :
    s = .built (htlcParams senderAddr receiverAddr c) := by
  have hspk : ∀ a : Address, spkToVec (payToAddressScript a) ≠ [] := by
    intro a
    simp [spkToVec, ScriptPublicKey.toBytes, leBytes]
  have h32 : ∀ d : Bytes32, d.data ≠ [] := by
    intro d h
    have hlen := d.length_eq
    simp [h] at hlen
  have hclaim := payoutSlots_eq_built hs.claim hreceiver (hspk _)
  have hrefund := payoutSlots_eq_built hs.refund hsender (hspk _)
  obtain ⟨hsecret, hswap, haddress⟩ : _ ∧ _ ∧ _ :=
    ⟨hread.secretHash, hread.swapId, hread.senderDestination⟩
  obtain ⟨t, ht, htimelock⟩ := hs.timelock
  have htime := timelock_rebuilt ht htimelock
  obtain ⟨d1, hd1⟩ := hs.secretHash
  obtain ⟨d2, hd2⟩ := hs.swapId
  obtain ⟨d3, -, hd3⟩ := hs.senderReceiverAddress
  obtain ⟨b, hb⟩ := hs.destination
  have hdest : canonicalPush [c.destination] = s.destination := by
    have hhead := hread.destination
    by_cases hneg : b = 0x81
    · rw [hb, hneg] at hhead
      cases hhead
    · rw [hb, extract_canonicalPush (by simp) (by simpa using hneg)] at hhead
      simp only [List.head?_cons, Option.some.injEq] at hhead
      rw [hb, hhead]
  obtain ⟨o1, p1, o2, p2, o3, o4, o5⟩ := s
  simp only at hclaim hrefund hsecret hswap haddress htimelock htime hd1 hd2 hd3 hdest
  have hne := hread.senderDestination_ne
  simp only at hne
  subst hd1 hd2 hd3
  simp only [HtlcSlots.built, htlcParams, HtlcSlots.mk.injEq]
  refine ⟨?_, hclaim, ?_, hrefund, ?_, ?_, hdest.symm⟩
  · rw [hsecret, (canonicalPush_extract (hsecret ▸ h32 _)).1]
  · rw [hread.unlockTs, htime]
    exact htimelock
  · rw [hswap, (canonicalPush_extract (hswap ▸ h32 _)).1]
  · rw [haddress, (canonicalPush_extract hne).1]

theorem createHtlcScript_iff_canonical {redeem : Bytes} {senderAddr receiverAddr : Address}
    (hparse : parseScript redeem = .ok s.opcodes) (hread : ReadAs codec network s c)
    (hsender : spkToVec (payToAddressScript senderAddr) = extractOpcodeData s.refund.payee)
    (hreceiver : spkToVec (payToAddressScript receiverAddr) = extractOpcodeData s.claim.payee) :
    createHtlcScript (htlcParams senderAddr receiverAddr c) = .ok redeem ↔ s.Canonical := by
  set p := htlcParams senderAddr receiverAddr c with hp
  have hplain := htlcCalls_plain p
  have hserialize := (parseScript_sound hparse).2
  constructor
  · intro hbuild
    have ha : p.Accepted := htlcCalls_accepted.mp ((build_eq_ok hplain).mp hbuild).1
    have hparse' := parseScript_build hplain hbuild
    rw [hparse, Except.ok.injEq] at hparse'
    have hs : s = .built p := HtlcSlots.opcodes_injective hparse'
    have htimelock : s.timelock = numberPush (asI64 p.timelock) := by rw [hs]; rfl
    have hp' : p.timelock = saturatingMul
        (decodeU64FromScript (extractOpcodeData s.timelock) / 1000) 1000 := by
      rw [← hread.unlockTs]
      rfl
    have htime := timelock_of_rebuilt (hp' ▸ ha.timelock) (hp' ▸ htimelock)
    refine ⟨⟨_, by rw [hs]; rfl⟩, by rw [hs]; exact built_payout_canonical _, htime,
      by rw [hs]; exact built_payout_canonical _, ⟨_, by rw [hs]; rfl⟩,
      ⟨_, ha.senderReceiverAddress, by rw [hs]; rfl⟩, ⟨_, by rw [hs]; rfl⟩⟩
  · intro hs
    have hbuilt := slots_eq_built hs hread hsender hreceiver
    obtain ⟨t, ht, htimelock⟩ := hs.timelock
    obtain ⟨d, hd, haddress⟩ := hs.senderReceiverAddress
    have ha : p.Accepted := by
      refine ⟨by simp [hp, htlcParams, maxScriptElementSize], ?_, ?_, ?_, ?_⟩
      · exact (length_spkToVec_le receiverAddr).trans (by decide)
      · have hp' : asI64 p.timelock = (1000 * t : ℕ) := by
          rw [← timelock_rebuilt ht htimelock, ← hread.unlockTs]
          rfl
        rw [hp']
        exact length_serializeI64_le (by simp only [Int.natAbs_natCast]; norm_num; omega)
      · exact (length_spkToVec_le senderAddr).trans (by decide)
      · have hlen := (canonicalPush_extract (d := d) (by
          rw [← haddress]
          exact hread.senderDestination_ne)).2
        rw [← haddress, ← hread.senderDestination] at hlen
        exact hlen.trans (by simpa [maxScriptElementSize] using hd)
    have hlength := length_htlc_le (by simp [hp, htlcParams]) (length_spkToVec_le receiverAddr)
      (length_spkToVec_le senderAddr) ha
    have hredeem : redeem = serialize (opcodes (htlcCalls p)) := by
      rw [← hserialize, hbuilt, built_opcodes]
    exact (build_eq_ok hplain).mpr ⟨htlcCalls_accepted.mpr ha, hredeem ▸ hlength, hredeem⟩

/-- The commitment that the announcement check reads from a script. -/
def readCommitment (codec : AddressCodec) (networkId : String) (channelId : ChannelId)
    (redeem : Bytes) : Except KaspaError CommitmentV1 := do
  let network ← networkOf networkId
  let ops ← parseOpcodes redeem
  extractCommitment codec ops "0" network channelId

theorem parseOpcodes_eq_ok {script : Bytes} {ops : List Opcode} :
    parseOpcodes script = .ok ops ↔ parseScript script = .ok ops := by
  unfold parseOpcodes
  cases parseScript script <;> simp

theorem validateScriptAnnounce_eq_ok {blake2b : Bytes → Bytes32} {networkId address : String}
    {channelId : ChannelId} {redeem : Bytes} {swapId : SwapId} {expiration : UInt64}
    (h : validateScriptAnnounce codec blake2b networkId channelId address redeem swapId expiration =
      .ok ()) :
    ∃ network, ∃ s : HtlcSlots, ∃ c, networkOf networkId = .ok network ∧
      parseScript redeem = .ok s.opcodes ∧
      extractCommitment codec s.opcodes "0" network channelId = .ok c ∧ c.swapId = swapId ∧
      c.unlockTs = expiration ∧
      ∀ text, p2shAddress codec blake2b network redeem text = .ok address := by
  unfold validateScriptAnnounce at h
  obtain ⟨network, hnetwork, h⟩ := bind_eq_ok.mp h
  obtain ⟨ops, hops, h⟩ := bind_eq_ok.mp h
  obtain ⟨c, hc, h⟩ := bind_eq_ok.mp h
  split_ifs at h with hid hts
  obtain ⟨derived, hderived, h⟩ := bind_eq_ok.mp h
  split_ifs at h with haddress
  rw [parseOpcodes_eq_ok] at hops
  obtain ⟨s, rfl⟩ : ∃ s : HtlcSlots, ops = s.opcodes := by
    obtain ⟨found, hfound, -⟩ := bind_eq_ok.mp hc
    obtain ⟨s, hs, -⟩ := collectData_eq_ok (parseScript_sound hops).1 hfound
    exact ⟨s, hs⟩
  refine ⟨network, s, c, hnetwork, hops, hc, not_not.mp hid, not_not.mp hts, fun text => ?_⟩
  rw [not_not] at haddress
  subst haddress
  unfold p2shAddress at hderived ⊢
  split at hderived
  · exact hderived
  · cases hderived

/-- An accepted announcement rebuilds to itself exactly when its script is canonical. -/
theorem announced_script_rebuilds_iff_canonical (codec : AddressCodec)
    (blake2b : Bytes → Bytes32) (networkId address : String) (channelId : ChannelId)
    (redeem : Bytes) (swapId : SwapId) (expiration : UInt64)
    (haccepted : validateScriptAnnounce codec blake2b networkId channelId address redeem swapId
      expiration = .ok ()) :
    (∃ c, readCommitment codec networkId channelId redeem = .ok c ∧
        p2shComponents codec blake2b networkId c = .ok (address, redeem)) ↔
      CanonicalScript redeem := by
  obtain ⟨network, s, c, hnetwork, hparse, hc, -, -, haddress⟩ :=
    validateScriptAnnounce_eq_ok haccepted
  have hread := extractCommitment_readAs hc
  have hreadCommitment : readCommitment codec networkId channelId redeem = .ok c :=
    bind_eq_ok.mpr ⟨network, hnetwork, bind_eq_ok.mpr ⟨_, parseOpcodes_eq_ok.mpr hparse, hc⟩⟩
  obtain ⟨senderAddr, -, hsenderText, hsender⟩ := hread.sender
  obtain ⟨receiverAddr, -, hreceiverText, hreceiver⟩ := hread.receiver
  have hrebuild : p2shComponents codec blake2b networkId c = .ok (address, redeem) ↔
      createHtlcScript (htlcParams senderAddr receiverAddr c) = .ok redeem := by
    simp only [p2shComponents, parseAddress, hsenderText, hreceiverText, codec.tryFrom_toString,
      bind_eq_ok, hnetwork, Except.ok.injEq, exists_eq_left']
    constructor
    · rintro ⟨built, hbuilt, derived, hderived, h⟩
      cases h
      unfold buildHtlc at hbuilt
      split at hbuilt
      · rename_i r hr
        cases hbuilt
        exact hr
      · cases hbuilt
    · intro hbuilt
      exact ⟨redeem, by rw [buildHtlc, hbuilt], address, haddress _, rfl⟩
  have hcanonical := createHtlcScript_iff_canonical hparse hread hsender hreceiver
  constructor
  · rintro ⟨c', hc', hp2sh⟩
    rw [hreadCommitment, Except.ok.injEq] at hc'
    subst hc'
    exact ⟨s, hparse, hcanonical.mp (hrebuild.mp hp2sh)⟩
  · rintro ⟨s', hs', hs⟩
    rw [hparse, Except.ok.injEq] at hs'
    have := HtlcSlots.opcodes_injective hs'
    subst this
    exact ⟨c, hreadCommitment, hrebuild.mpr (hcanonical.mpr hs)⟩

private theorem length_replicate_pubKey (key : UInt8) :
    (List.replicate 32 key).length = Version.pubKey.payloadLength := List.length_replicate

def pubKeyAddress (key : UInt8) : Address :=
  ⟨.testnet, .pubKey, List.replicate 32 key, length_replicate_pubKey key⟩

/-- The slots of the sample script, with a reward of the whole coin in its claim branch. -/
def foreignSlots : HtlcSlots :=
  { HtlcSlots.built sampleParams with
    claim := { PayoutSlots.built sampleParams.receiverSpk with reward := numberPush 100000000 } }

def foreignRedeem : Bytes := serialize foreignSlots.opcodes

def foreignRedeemHash : Bytes32 :=
  ⟨[76, 146, 138, 112, 187, 9, 82, 123, 23, 157, 110, 244, 128, 114, 35, 181, 203, 196, 188, 94,
    52, 122, 169, 223, 202, 97, 143, 87, 75, 70, 57, 213], rfl⟩

def sampleBlake2b (b : Bytes) : Bytes32 :=
  if b = sampleRedeem then sampleRedeemHash
  else if b = foreignRedeem then foreignRedeemHash
  else default

def sampleAddress : String :=
  "kaspatest:pz9t7gkpj85yyv4ray74vcrcjns9d6vmjj5mrc94tkarfmscnschc6hpn7lgk"

def foreignAddress : String :=
  "kaspatest:ppxf9znshvy4y7chn4h0fqrjyw6uh39utc6842wlefsc746tgcua2ce8kgdx3"

def sampleTable : List (Address × String) :=
  [(pubKeyAddress 1, "kaspatest:qqqszqgpqyqszqgpqyqszqgpqyqszqgpqyqszqgpqyqszqgpqyqszapw00vun"),
    (pubKeyAddress 2, "kaspatest:qqpqyqszqgpqyqszqgpqyqszqgpqyqszqgpqyqszqgpqyqszqgpqy5knqwd3y"),
    (scriptHashAddress .testnet sampleRedeemHash, sampleAddress),
    (scriptHashAddress .testnet foreignRedeemHash, foreignAddress)]

def sampleCodec : AddressCodec := tableCodec sampleTable (by decide +kernel)

def sampleCommitment : CommitmentV1 where
  swapId := .filled 3
  addresses :=
    { sender := "kaspatest:qqqszqgpqyqszqgpqyqszqgpqyqszqgpqyqszqgpqyqszqgpqyqszapw00vun"
      receiver := "kaspatest:qqpqyqszqgpqyqszqgpqyqszqgpqyqszqgpqyqszqgpqyqszqgpqy5knqwd3y"
      senderDestination := "0xdest" }
  amount := ⟨"0", 8⟩
  secretHash := sampleSecretHash
  unlockTs := 1000
  source := 0
  destination := 1

/-- The foreign script is accepted and read as the sample swap, whose script is another one. -/
theorem announced_script_not_rebuilt :
    validateScriptAnnounce sampleCodec sampleBlake2b "testnet-10" .kaspaTn10 foreignAddress
        foreignRedeem (.filled 3) 1000 = .ok () ∧
      readCommitment sampleCodec "testnet-10" .kaspaTn10 foreignRedeem = .ok sampleCommitment ∧
      p2shComponents sampleCodec sampleBlake2b "testnet-10" sampleCommitment =
        .ok (sampleAddress, sampleRedeem) ∧
      (sampleAddress, sampleRedeem) ≠ (foreignAddress, foreignRedeem) := by
  decide +kernel

theorem announced_script_rebuilds_sample :
    p2shComponents sampleCodec sampleBlake2b "testnet-10" sampleCommitment =
      .ok (sampleAddress, sampleRedeem) := by
  have haccepted : validateScriptAnnounce sampleCodec sampleBlake2b "testnet-10" .kaspaTn10
      sampleAddress sampleRedeem (.filled 3) 1000 = .ok () := by decide +kernel
  have hread : readCommitment sampleCodec "testnet-10" .kaspaTn10 sampleRedeem =
      .ok sampleCommitment := by decide +kernel
  have hparse : parseScript sampleRedeem = .ok (HtlcSlots.built sampleParams).opcodes := by
    decide +kernel
  have hcanonical : CanonicalScript sampleRedeem :=
    ⟨_, hparse, ⟨⟨sampleParams.secretHash, rfl⟩, built_payout_canonical _,
      ⟨1000, by norm_num, rfl⟩, built_payout_canonical _, ⟨sampleParams.swapId.data, rfl⟩,
      ⟨sampleParams.senderReceiverAddress, by decide, rfl⟩,
      ⟨sampleParams.destination, rfl⟩⟩⟩
  obtain ⟨c, hc, hrebuilt⟩ := (announced_script_rebuilds_iff_canonical sampleCodec sampleBlake2b
    "testnet-10" sampleAddress .kaspaTn10 sampleRedeem (.filled 3) 1000 haccepted).mpr hcanonical
  rw [hread, Except.ok.injEq] at hc
  subst hc
  exact hrebuilt

end Stroemnet.Kaspa
