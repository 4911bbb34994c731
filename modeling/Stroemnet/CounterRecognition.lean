import Stroemnet.CounterBroadcasts
import Stroemnet.EvmLogFidelity
import Stroemnet.OwnHtlcRefund

/-! # Recognising the own counter commitment

The counter commitment of a node comes back from the other chain, with its addresses written
the way that chain writes them. The tracker compares texts, so the way back decides whether the
swap is locked. -/
namespace Stroemnet

variable {RpcLog : Type} {cfg : NodeConfig RpcLog}

/-- What is read from the destination chain of a commitment that was submitted to it. -/
inductive Rendering (cfg : NodeConfig RpcLog) (k c : CommitmentV1) : ChannelId → Prop
  | evm (channel : ChannelId) (hevm : channel.isEvm) (call : Evm.Call) (sender : Evm.Address)
      (w : Evm.World) (hsubmit : Evm.submitCommitment k = .ok call)
      (hdecode : Evm.decodeLog cfg.codec (cfg.evm channel).keccak256
        (cfg.codec.ofLog (Evm.emittedLog sender w call)) channel = .ok (some (.commitment c))) :
      Rendering cfg k c channel
  | kaspa (network : Except Kaspa.KaspaError Kaspa.Network) (address : String) (redeem : Bytes)
      (ops : List Script.Opcode) (target : String)
      (hsubmit : Kaspa.submitCommitment cfg.kaspa network k = .ok (address, redeem))
      (hparse : Kaspa.parseOpcodes redeem = .ok ops)
      (hread : Kaspa.extractCommitment cfg.kaspa.codec ops target cfg.kaspa.network
        cfg.kaspa.channelId = .ok c) : Rendering cfg k c .kaspaTn10

def CanonicalAddress (cfg : NodeConfig RpcLog) (channel : ChannelId) (text : String) : Prop :=
  if channel.isEvm then
    ∀ a, Evm.parseAddress text = some a → Evm.toChecksum (cfg.evm channel).keccak256 a = text
  else
    ∀ a, cfg.kaspa.codec.tryFrom text = .ok a →
      cfg.kaspa.codec.toString { a with network := cfg.kaspa.network } = text

/-- An empty text comes back from a script as a zero. -/
def textOnChain (channel : ChannelId) (text : String) : String :=
  if channel = .kaspaTn10 ∧ text = "" then "\x00" else text

structure RenderedAs (cfg : NodeConfig RpcLog) (channel : ChannelId) (k c : CommitmentV1) :
    Prop where
  swapId : c.swapId = k.swapId
  secretHash : c.secretHash = k.secretHash
  source : c.source = channel.toByte
  destination : c.destination = k.destination
  receiver : c.addresses.receiver = k.addresses.receiver ↔
    CanonicalAddress cfg channel k.addresses.receiver
  senderDestination :
    c.addresses.senderDestination = textOnChain channel k.addresses.senderDestination

theorem utf8Bytes_ne_nil {s : String} (h : s ≠ "") : utf8Bytes s ≠ [] := by
  intro heq
  apply h
  exact utf8Bytes_injective heq

theorem utf8Bytes_ne_continuation (s : String) : utf8Bytes s ≠ [0x81] := by
  intro heq
  have hsome := stringOfUtf8_eq_some.mpr heq
  have hnone : stringOfUtf8 [0x81] = none := by decide +kernel
  rw [hnone] at hsome
  cases hsome

theorem Bytes32.ne_singleton (d : Bytes32) (b : UInt8) : d.data ≠ [b] := by
  intro h
  have hlen := congrArg List.length h
  simp at hlen

theorem Bytes32.ne_nil (d : Bytes32) : d.data ≠ [] := List.ne_nil_of_length_pos (by simp)

namespace Kaspa

private theorem spkToVec_injective {j k : Script.ScriptPublicKey} (h : spkToVec j = spkToVec k) :
    j = k := by
  have hj : spkFromBytes (spkToVec j) = .ok j := spkFromBytes_eq_ok.mpr rfl
  have hk : spkFromBytes (spkToVec k) = .ok k := spkFromBytes_eq_ok.mpr rfl
  rw [h, hk, Except.ok.injEq] at hj
  exact hj.symm

private theorem length_spkToVec_gt (k : Script.ScriptPublicKey) : 1 < (spkToVec k).length := by
  simp only [spkToVec, Script.ScriptPublicKey.toBytes, List.length_append, List.length_reverse,
    Numbers.length_leBytes]
  omega

theorem extract_spkToVec (a : Address) :
    extractOpcodeData (Script.canonicalPush (spkToVec (payToAddressScript a))) =
      spkToVec (payToAddressScript a) := by
  have hlen := length_spkToVec_gt (payToAddressScript a)
  refine extract_canonicalPush ?_ ?_
  · intro h
    rw [h] at hlen
    simp at hlen
  · intro h
    rw [h] at hlen
    simp at hlen

end Kaspa

private theorem renderedAs_evm {channel : ChannelId} (hevm : channel.isEvm) {k c : CommitmentV1}
    {call : Evm.Call} {sender : Evm.Address} {w : Evm.World}
    (hsubmit : Evm.submitCommitment k = .ok call)
    (hdecode : Evm.decodeLog cfg.codec (cfg.evm channel).keccak256
      (cfg.codec.ofLog (Evm.emittedLog sender w call)) channel = .ok (some (.commitment c))) :
    RenderedAs cfg channel k c := by
  obtain ⟨party, receiver, value, -, hreceiver, -, rfl⟩ := Evm.submitCommitment_eq_ok hsubmit
  simp only [Evm.emittedLog, Evm.decodeLog_commitment] at hdecode
  rw [Evm.fromUtf8Lossy_of_valid (stringOfUtf8_eq_some.mpr rfl)] at hdecode
  cases hts : Evm.toU64 (BitVec.ofNat 256 k.unlockTs.toNat) with
  | error e =>
    rw [hts] at hdecode
    cases hdecode
  | ok unlockTs =>
    rw [hts] at hdecode
    cases hdecode
    have hkaspa : ¬ (channel = .kaspaTn10 ∧ k.addresses.senderDestination = "") := by
      rintro ⟨rfl, -⟩
      cases hevm
    refine ⟨rfl, rfl, rfl, rfl, ?_, (if_neg hkaspa).symm⟩
    simp [CanonicalAddress, hevm, hreceiver]

theorem renderedAs_kaspa {k c : CommitmentV1} {network : Except Kaspa.KaspaError Kaspa.Network}
    {address : String} {redeem : Bytes} {ops : List Script.Opcode} {target : String}
    (hdest : k.destination ≠ 0x81)
    (hsubmit : Kaspa.submitCommitment cfg.kaspa network k = .ok (address, redeem))
    (hparse : Kaspa.parseOpcodes redeem = .ok ops)
    (hread : Kaspa.extractCommitment cfg.kaspa.codec ops target cfg.kaspa.network
      cfg.kaspa.channelId = .ok c) : RenderedAs cfg .kaspaTn10 k c := by
  obtain ⟨network', -, hscript, -⟩ := Kaspa.submitCommitment_eq_ok hsubmit
  obtain ⟨sender, receiver, -, hreceiver, hbuilt⟩ := Kaspa.htlcScriptFromCommitment_eq_ok hscript
  have hsource := Kaspa.extractCommitment_source hread
  rw [Kaspa.parseOpcodes_eq_ok, Kaspa.parseScript_built hbuilt, Except.ok.injEq] at hparse
  subst hparse
  have hfields := Kaspa.extractCommitment_readAs hread
  have hswapId := hfields.swapId
  have hsecretHash := hfields.secretHash
  have hdestination := hfields.destination
  have htext := hfields.senderDestination
  simp only [Kaspa.HtlcSlots.built, Kaspa.htlcParams] at hswapId hsecretHash hdestination htext
  rw [Kaspa.extract_canonicalPush (Bytes32.ne_nil _) (Bytes32.ne_singleton _ _)] at hswapId
  rw [Kaspa.extract_canonicalPush (Bytes32.ne_nil _) (Bytes32.ne_singleton _ _)] at hsecretHash
  rw [Kaspa.extract_canonicalPush (by simp) (by simpa using hdest)] at hdestination
  refine ⟨Bytes32.ext hswapId, Bytes32.ext hsecretHash, hsource.trans (by rw [cfg.kaspa_channelId]),
    by simpa using hdestination.symm, ?_, ?_⟩
  · obtain ⟨a, hnetwork, hatext, haspk⟩ := hfields.receiver
    have hspk := haspk.trans (Kaspa.extract_spkToVec receiver)
    have ha : a = { receiver with network := cfg.kaspa.network } :=
      Kaspa.payToAddressScript_injective hnetwork (Kaspa.spkToVec_injective hspk)
    rw [hatext, ha]
    simp [CanonicalAddress, ChannelId.isEvm, hreceiver]
  · apply utf8Bytes_injective
    rw [htext, textOnChain]
    by_cases hempty : k.addresses.senderDestination = ""
    · rw [hempty]
      rfl
    · rw [if_neg (by simp [hempty])]
      exact Kaspa.extract_canonicalPush (utf8Bytes_ne_nil hempty) (utf8Bytes_ne_continuation _)

private theorem Rendering.renderedAs {k c : CommitmentV1} {channel : ChannelId}
    (h : Rendering cfg k c channel) (hdest : k.destination ≠ 0x81) :
    RenderedAs cfg channel k c := by
  cases h with
  | evm _ hevm call sender w hsubmit hdecode => exact renderedAs_evm hevm hsubmit hdecode
  | kaspa network address redeem ops target hsubmit hparse hread =>
    exact renderedAs_kaspa hdest hsubmit hparse hread

def RecordsKeyed (t : SwapTracker) : Prop := ∀ id r, t id = some r → r.initCommitment.swapId = id

theorem RecordsKeyed.insert {t : SwapTracker} (h : RecordsKeyed t) {id : SwapId} {r : SwapRecord}
    (hr : r.initCommitment.swapId = id) : RecordsKeyed (t.insert id r) := by
  intro id' r' hr'
  by_cases heq : id' = id
  · subst heq
    rw [SwapTracker.insert_self, Option.some.injEq] at hr'
    rw [← hr', hr]
  · rw [SwapTracker.insert_of_ne _ heq] at hr'
    exact h id' r' hr'

private theorem TrackerMove.recordsKeyed {sha256 : Bytes → Bytes32} {polled : CommitmentV1 → Prop}
    {t t' : SwapTracker} (h : TrackerMove sha256 polled t t') (hok : RecordsKeyed t) :
    RecordsKeyed t' := by
  cases h with
  | same => exact hok
  | opened c now hpolled hnone => exact hok.insert rfl
  | locked c r hpolled hr hcounter hres hmirror hsource => exact hok.insert (hok _ r hr)
  | resolved id r counter res hr hcounter hres hsecret => exact hok.insert (hok _ r hr)

private theorem Node.recordsKeyed_run (cfg : NodeConfig RpcLog) (cursor : ChannelId → UInt64)
    (cap : ℕ)
    (ins : List (UInt64 × NodeInput RpcLog)) :
    RecordsKeyed ((start cursor cap).run cfg ins).tracker := by
  refine run_induction cfg (P := fun n => RecordsKeyed n.tracker) (Q := fun _ => True) ?_ ?_ ins
    fun _ _ => trivial
  · intro id r hr
    cases hr
  · intro n now i hn _
    rcases step_move cfg n now i with hmove | ⟨-, hcleanup⟩
    · exact hmove.recordsKeyed hn
    · rw [hcleanup]
      exact forall_cleanup hn _ _

namespace Handler
open SwapTracker

/-- The commitment locks its swap, and the right secret is then broadcast to the first leg. -/
def Recognised (h : Handler) (t : SwapTracker) (id : SwapId) (source destination : ChannelId)
    (c : CommitmentV1) : Prop :=
  ∀ now, ∃ t' r, handleExternalCommitment t c now = .ok t' ∧ t' id = some r ∧
    stage r = .locked ∧ ∀ t'' secret clock, t'' id = some r → h.sha256 secret.data = c.secretHash →
      (h.onChainEvent t'' destination (.reveal ⟨id, secret⟩) clock).1 =
        .ok [.broadcast source (.reveal ⟨id, secret⟩)]

/-- The first commitment names its addresses the way they will come back, and asks for another
chain than its own. -/
structure Recognisable (cfg : NodeConfig RpcLog) (init : CommitmentV1)
    (source destination : ChannelId) : Prop where
  senderDestination : CanonicalAddress cfg destination init.addresses.senderDestination
  receiver : cfg.handler.addressLookupTable source = some init.addresses.receiver
  receiver_ne : destination = .kaspaTn10 → init.addresses.receiver ≠ ""
  channels : source ≠ destination

section Locking

variable {t t' : SwapTracker} {c : CommitmentV1} {now : UInt64} {r r' : SwapRecord}

/-- A waiting swap is locked by a commitment that mirrors the first one from another channel. -/
theorem handleExternalCommitment_mirror (hr : t c.swapId = some r) (hwaiting : Waiting r)
    (hmirror : Mirrors r.initCommitment c) (hsource : r.initCommitment.source ≠ c.source) :
    handleExternalCommitment t c now =
      .ok (t.insert c.swapId { r with counterCommitment := some c }) := by
  have hnew : ¬ (r.initCommitment = c ∨ r.counterCommitment = some c ∨
      r.initCommitment.source = c.source) := by
    rintro (hinit | hcounter | hsame)
    · exact hsource (by rw [hinit])
    · rw [hwaiting.1] at hcounter
      cases hcounter
    · exact hsource hsame
  simp only [handleExternalCommitment, hr, if_neg hnew]
  exact lift_eq_ok.mpr
    (setCounterCommitment_eq_ok.mpr ⟨r, hr, hwaiting.1, hwaiting.2, hmirror, rfl⟩)

private theorem mirrors_of_locked (hr : t c.swapId = some r) (hwaiting : Waiting r)
    (hok : handleExternalCommitment t c now = .ok t') (hr' : t' c.swapId = some r')
    (hlocked : stage r' = .locked) :
    Mirrors r.initCommitment c ∧ r.initCommitment.source ≠ c.source := by
  unfold handleExternalCommitment at hok
  rw [hr] at hok
  simp only at hok
  split_ifs at hok with hknown
  · cases hok
    rw [hr, Option.some.injEq] at hr'
    subst hr'
    simp [stage, hwaiting.1, hwaiting.2] at hlocked
  · rw [not_or, not_or] at hknown
    obtain ⟨r₀, hr₀, -, -, hmirror, -⟩ := setCounterCommitment_eq_ok.mp (lift_eq_ok.mp hok)
    rw [hr, Option.some.injEq] at hr₀
    subst hr₀
    exact ⟨hmirror, hknown.2.2⟩

end Locking

/-- A zero is no way to write an empty address. -/
theorem normalisedAddressEq_zero (source : ChannelId) :
    normalisedAddressEq source "\x00" "" = false := by
  cases source <;> decide +kernel

/-- What comes back mirrors the first commitment exactly when that is recognisable. -/
theorem mirrors_iff_recognisable {h : Handler} {init k c : CommitmentV1}
    {source destination : ChannelId} {id : SwapId} {mmSource : String}
    (hhandler : cfg.handler = h) (hc : RenderedAs cfg destination k c)
    (hinit : init.swapId = id) (hsource : init.source = source.toByte)
    (hdestination : init.destination = destination.toByte)
    (hours : h.addressLookupTable source = some mmSource)
    (haddress : normalisedAddressEq source init.addresses.receiver mmSource)
    (hk : k.swapId = id ∧ k.secretHash = init.secretHash ∧ k.destination = source.toByte ∧
      k.addresses.receiver = init.addresses.senderDestination ∧
      k.addresses.senderDestination = mmSource) :
    Mirrors init c ∧ init.source ≠ c.source ↔ Recognisable cfg init source destination := by
  subst hhandler
  obtain ⟨hkid, hkhash, hkdest, hkreceiver, hktext⟩ := hk
  have htext := hc.senderDestination
  rw [hktext] at htext
  have hreceiver := hc.receiver
  rw [hkreceiver] at hreceiver
  constructor
  · rintro ⟨hmirror, hne⟩
    have hback : init.addresses.receiver = textOnChain destination mmSource :=
      hmirror.senderDestination.trans htext
    have hplain : ¬ (destination = .kaspaTn10 ∧ mmSource = "") := by
      rintro ⟨rfl, rfl⟩
      rw [hback] at haddress
      simp [textOnChain, normalisedAddressEq_zero] at haddress
    rw [textOnChain, if_neg hplain] at hback
    refine ⟨hreceiver.mp hmirror.receiver.symm, by rw [hback]; exact hours, ?_, ?_⟩
    · intro hkaspa hempty
      exact hplain ⟨hkaspa, hback.symm.trans hempty⟩
    · rintro rfl
      exact hne (hsource.trans hc.source.symm)
  · rintro ⟨hcanonical, hours', hempty, hne⟩
    obtain rfl : mmSource = init.addresses.receiver := by
      rw [hours, Option.some.injEq] at hours'
      exact hours'
    have hplain : ¬ (destination = .kaspaTn10 ∧ init.addresses.receiver = "") :=
      fun hboth => hempty hboth.1 hboth.2
    rw [textOnChain, if_neg hplain] at htext
    refine ⟨⟨?_, (hreceiver.mpr hcanonical).symm, htext.symm, ?_, ?_, ?_⟩, ?_⟩
    · rw [hinit, hc.swapId, hkid]
    · rw [hc.secretHash, hkhash]
    · rw [hsource, hc.destination, hkdest]
    · rw [hdestination, hc.source]
    · rw [hsource, hc.source]
      exact fun heq => hne (ChannelId.toByte_injective heq)

/-- The counter commitment of a node, as it comes back from the other chain, locks its swap
exactly when the first commitment names the user's address the way that chain writes it, names
the node's own address the way the node writes it, and asks for another chain than its own. -/
theorem counter_recognised_iff (cfg : NodeConfig RpcLog) (cursor : ChannelId → UInt64) (cap : ℕ)
    (ins : List (UInt64 × NodeInput RpcLog)) (event k c : CommitmentV1) (channel : ChannelId)
    (clock : ChainClock) (t : SwapTracker)
    (hk : cfg.handler.handleInternalCommitment ((Node.start cursor cap).run cfg ins).tracker event
      channel clock = .ok k)
    (hc : Rendering cfg k c channel)
    (ht : t event.swapId = ((Node.start cursor cap).run cfg ins).tracker event.swapId) :
    ∃ r source, t event.swapId = some r ∧ r.initCommitment.source = source.toByte ∧
      (cfg.handler.Recognised t event.swapId source channel c ↔
        Recognisable cfg r.initCommitment source channel) := by
  obtain ⟨r, hr, hwaiting, ⟨source, ours, hsource, hours, haddress⟩, source', hsource', hdest,
    hbuild⟩ := handleInternalCommitment_eq_ok hk
  rw [hsource, Option.some.injEq] at hsource'
  subst hsource'
  obtain ⟨amountOut, sourceNow, destNow, mmDestination, mmSource, -, -, -, -, -, hmm, rfl⟩ :=
    buildCounterCommitment_eq_ok.mp hbuild
  rw [hours, Option.some.injEq] at hmm
  subst hmm
  have hsourceByte := ChannelId.toByte_of_ofByte hsource
  have hdestByte := ChannelId.toByte_of_ofByte hdest
  have hkeyed : r.initCommitment.swapId = event.swapId :=
    Node.recordsKeyed_run cfg cursor cap ins _ r hr
  have hbyte : source.toByte ≠ 0x81 := by cases source <;> decide
  have hrendered := hc.renderedAs hbyte
  have hiff := mirrors_iff_recognisable rfl hrendered hkeyed hsourceByte hdestByte hours haddress
    ⟨rfl, rfl, rfl, rfl, rfl⟩
  have hid : c.swapId = event.swapId := hrendered.swapId
  rw [hr, ← hid] at ht
  rw [← hid]
  refine ⟨r, source, ht, hsourceByte, ?_⟩
  rw [← hiff]
  constructor
  · intro hrecognised
    obtain ⟨t', r', hok, hr', hlocked, -⟩ := hrecognised 0
    exact mirrors_of_locked ht hwaiting hok hr' hlocked
  · rintro ⟨hmirror, hne⟩ now
    refine ⟨_, _, handleExternalCommitment_mirror ht hwaiting hmirror hne, insert_self _ _ _,
      by simp [stage, hwaiting.2], ?_⟩
    intro t'' secret clock' ht'' hsecret
    have hopen : SwapRecord.Open { r with counterCommitment := some c } c source channel :=
      ⟨rfl, hwaiting.2, hsourceByte, hrendered.source, hmirror.secretHash,
        fun heq => hne (by rw [hsourceByte, heq, hrendered.source])⟩
    rw [onChainEvent_open hopen ht'' hsecret channel clock',
      if_neg (fun heq => hne (by rw [hsourceByte, heq, hrendered.source]))]

end Handler

/-- The digest that decides the case of the letters of one address. -/
def checksumKeccak (b : Bytes) : Bytes32 :=
  if b = utf8Bytes "5aaeb6053f3e94c9b9a09f33669435e7ef1beaed" then
    ⟨[211, 133, 101, 12, 232, 253, 198, 219, 126, 227, 160, 145, 211, 72, 20, 219, 196, 206, 24, 33,
      159, 250, 229, 33, 130, 239, 255, 64, 52, 215, 7, 229], rfl⟩
  else default

def checksumNode : NodeConfig Evm.Log :=
  { sampleNode with
    evm := fun c => ⟨c, 1, 0, 100, true, true, checksumKeccak⟩
    evm_channelId := fun _ => rfl }

/-- A first commitment whose destination address is written in the given way. -/
def writtenInit (text : String) : CommitmentV1 where
  swapId := .filled 3
  addresses := ⟨userAddress, providerAddress, text⟩
  amount := ⟨"2000", 18⟩
  secretHash := Htlc.sampleSecretHash
  unlockTs := 10000
  source := 1
  destination := 2

def writtenCounter (text : String) : CommitmentV1 :=
  { sampleCounter with addresses := { sampleCounter.addresses with receiver := text } }

def writtenRun (text : String) : List (UInt64 × NodeInput Evm.Log) :=
  [(100, samplePoll .ethereumSepolia 50 (.commitment ⟨.filled 3,
      0x1111111111111111111111111111111111111111, 0x2222222222222222222222222222222222222222,
      utf8Bytes text, 2000, Htlc.sampleSecretHash, 10000, 2⟩)), (100, sampleApply)]

def checksummed : String := "0x5aAeb6053F3E94C9b9A09f33669435E7Ef1BeAed"

def smallLetters : String := "0x5aaeb6053f3e94c9b9a09f33669435e7ef1beaed"

theorem rendering_written {text : String}
    (hparse : Evm.parseAddress text = some 0x5aaeb6053f3e94c9b9a09f33669435e7ef1beaed) :
    Rendering checksumNode (writtenCounter text) (writtenCounter checksummed) .igraGalleon := by
  refine .evm .igraGalleon rfl (.newSwap 1000 0x2222222222222222222222222222222222222222
    0x5aaeb6053f3e94c9b9a09f33669435e7ef1beaed (utf8Bytes providerAddress) Htlc.sampleSecretHash
    3700 1 (.filled 3)) 0 (Evm.World.deployed fun _ => 0) ?_ (by decide +kernel)
  have hsender : Evm.parseAddress providerAddress =
      some 0x2222222222222222222222222222222222222222 := by decide +kernel
  have hvalue : Evm.parseValue "1000" = some 1000 := by decide +kernel
  simp only [Evm.submitCommitment, writtenCounter, sampleCounter, hsender, hvalue, hparse]
  rfl

namespace Handler

/-- The answer to a commitment that names its address in small letters is not recognised, and
the secret on it is not taken to the first leg. -/
theorem small_letters_not_recognised :
    checksumNode.handler.handleInternalCommitment
        (sampleStart.run checksumNode (writtenRun smallLetters)).tracker (writtenInit smallLetters)
        .igraGalleon ⟨fun _ => some 100, 100⟩ = .ok (writtenCounter smallLetters) ∧
      Rendering checksumNode (writtenCounter smallLetters) (writtenCounter checksummed)
        .igraGalleon ∧
      (handleExternalCommitment (sampleStart.run checksumNode (writtenRun smallLetters)).tracker
        (writtenCounter checksummed) 110).map (fun t => t (.filled 3)) =
          .error (.swapTracker (.validationFailed (.filled 3)
            "Commitment receiver does not match InitLock sender_destination")) ∧
      (checksumNode.handler.onChainEvent
        (sampleStart.run checksumNode (writtenRun smallLetters)).tracker .igraGalleon
        (.reveal ⟨.filled 3, .filled 7⟩) ⟨fun _ => some 120, 120⟩).1 =
          .error (.swapTracker (.notCounterLocked (.filled 3))) :=
  ⟨by decide +kernel, rendering_written (by decide +kernel), by decide +kernel,
    by decide +kernel⟩

theorem counter_recognised_sample :
    ∃ r source,
      (sampleStart.run checksumNode (writtenRun checksummed)).tracker (.filled 3) = some r ∧
        r.initCommitment.source = source.toByte ∧
        checksumNode.handler.Recognised
          (sampleStart.run checksumNode (writtenRun checksummed)).tracker (.filled 3) source
          .igraGalleon (writtenCounter checksummed) := by
  obtain ⟨r, source, hr, hsource, hiff⟩ := counter_recognised_iff checksumNode (fun _ => 0) 50000
    (writtenRun checksummed) (writtenInit checksummed) (writtenCounter checksummed)
    (writtenCounter checksummed) .igraGalleon ⟨fun _ => some 100, 100⟩ _ (by decide +kernel)
    (rendering_written (by decide +kernel)) rfl
  have hinit : ((sampleStart.run checksumNode (writtenRun checksummed)).tracker (.filled 3)).map
      (·.initCommitment) = some (writtenInit checksummed) := by
    decide +kernel
  refine ⟨r, source, hr, hsource, hiff.mpr ?_⟩
  obtain ⟨r', hr', hfields⟩ := Option.map_eq_some_iff.mp hinit
  obtain rfl : r' = r := Option.some.inj (hr'.symm.trans hr)
  rw [hfields] at hsource ⊢
  obtain rfl : source = .ethereumSepolia := ChannelId.toByte_injective hsource.symm
  refine ⟨?_, by decide +kernel, by decide, by decide⟩
  have hparse : Evm.parseAddress (writtenInit checksummed).addresses.senderDestination =
      some 0x5aaeb6053f3e94c9b9a09f33669435e7ef1beaed := by decide +kernel
  intro a ha
  rw [hparse, Option.some.injEq] at ha
  subst ha
  decide +kernel

end Handler
end Stroemnet
