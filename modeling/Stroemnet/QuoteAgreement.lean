import Stroemnet.ClaimIntegrity
import Stroemnet.TimelockMargin

/-! # Quotes and counter commitments

A quote and the counter commitment for it are computed apart, from a request and from the
commitment that follows. They agree on the amount and on the limits; what can come between them
is the sum of the time of the destination and its lock time, which is not checked. -/
namespace Stroemnet.Handler

/-- How a call can end without a counter commitment. -/
inductive Abort
  | panicked
  | failed (e : HandlerError)
deriving DecidableEq

def orFail {α : Type} (e : HandlerError) (o : Option α) : Except Abort α := okOr (.failed e) o

def checkedPow10 (n : UInt8) : Except Abort ℕ :=
  if 10 ^ n.toNat < 2 ^ 128 then .ok (10 ^ n.toNat) else .error .panicked

def checkedAdd (a b : UInt64) : Except Abort UInt64 :=
  if a.toNat + b.toNat < 2 ^ 64 then .ok (a + b) else .error .panicked

/-- The counter commitment, with an end for every operation that panics on overflow. -/
def checkedCounterCommitment (h : Handler) (id : SwapId) (init : CommitmentV1)
    (source destination : ChannelId) (clock : ChainClock) : Except Abort CommitmentV1 := do
  let amountIn ← orFail (.parseAmount init.amount.value) (Evm.parseValue init.amount.value)
  if ¬ h.pricing.hasPrice source then throw (.failed (.missingPriceData source))
  let _scale ← checkedPow10 init.amount.decimals
  if h.pricing.belowMinimum amountIn init.amount.decimals source ∨
      h.pricing.aboveMaximum amountIn init.amount.decimals source then
    throw (.failed (.invalidAmount amountIn))
  if ¬ h.pricing.hasPrice destination then throw (.failed (.missingPriceData destination))
  let amountOut ← orFail (.price amountIn) (h.pricing.amountOut amountIn source destination)
  let sourceNow ← orFail (.chainTimeUnavailable source) (clock.nowChecked source)
  let remaining := UInt64.ofNat (init.unlockTs.toNat - sourceNow.toNat)
  if remaining < requiredInitLockSecs destination h.commitBufferSecs false then
    throw (.failed (.invalidLockTimeDuration remaining))
  let destNow ← orFail (.chainTimeUnavailable destination) (clock.nowChecked destination)
  let mmDestination ← orFail (.missingAddress destination) (h.addressLookupTable destination)
  let mmSource ← orFail (.missingAddress source) (h.addressLookupTable source)
  let unlockTs ← checkedAdd destNow (UInt64.ofNat destination.lockTimeSecs)
  return {
    swapId := id
    addresses := ⟨mmDestination, init.addresses.senderDestination, mmSource⟩
    amount := ⟨toString amountOut.toNat, destination.decimals⟩
    secretHash := init.secretHash
    unlockTs := unlockTs
    source := destination.toByte
    destination := source.toByte }

section Checked

theorem orFail_eq_ok {α : Type} {e : HandlerError} {o : Option α} {a : α} :
    orFail e o = .ok a ↔ o = some a := okOr_eq_ok

private theorem orFail_eq_error {α : Type} {e : HandlerError} {o : Option α} {x : Abort} :
    orFail e o = .error x ↔ o = none ∧ x = .failed e := by
  rw [orFail, okOr_eq_error]
  exact and_congr_right fun _ => eq_comm

variable {h : Handler} {id : SwapId} {init c : CommitmentV1} {source destination : ChannelId}
  {clock : ChainClock} {sourceNow destNow : UInt64}

private theorem checkedAdd_lockTime {unlockTs : UInt64} :
    checkedAdd destNow (UInt64.ofNat destination.lockTimeSecs) = .ok unlockTs ↔
      destNow.toNat + destination.lockTimeSecs < 2 ^ 64 ∧
      unlockTs = destNow + UInt64.ofNat destination.lockTimeSecs := by
  rw [checkedAdd, toNat_lockTimeSecs]
  split_ifs with hfits
  · rw [Except.ok.injEq, eq_comm]
    exact ⟨fun heq => ⟨hfits, heq⟩, And.right⟩
  · exact ⟨nofun, fun hle => absurd hle.1 hfits⟩

private theorem checkedAdd_panicked :
    checkedAdd destNow (UInt64.ofNat destination.lockTimeSecs) = .error .panicked ↔
      2 ^ 64 ≤ destNow.toNat + destination.lockTimeSecs := by
  rw [checkedAdd, toNat_lockTimeSecs]
  split_ifs with hfits
  · exact ⟨nofun, fun hle => absurd hfits (Nat.not_lt.mpr hle)⟩
  · exact ⟨fun _ => Nat.not_lt.mp hfits, fun _ => rfl⟩

/-- Both clocks are there, and the own addresses on both channels. -/
structure Equipped (h : Handler) (clock : ChainClock) (source destination : ChannelId)
    (sourceNow destNow : UInt64) : Prop where
  sourceNow : clock.nowChecked source = some sourceNow
  destNow : clock.nowChecked destination = some destNow
  addresses : ∃ mmSource mmDestination, h.addressLookupTable source = some mmSource ∧
    h.addressLookupTable destination = some mmDestination

theorem checkedPow10_eq_ok {n : UInt8} {x : ℕ} :
    checkedPow10 n = .ok x ↔ 10 ^ n.toNat < 2 ^ 128 ∧ x = 10 ^ n.toNat := by
  unfold checkedPow10
  split_ifs with hfits
  · rw [Except.ok.injEq, eq_comm]
    exact ⟨fun heq => ⟨hfits, heq⟩, And.right⟩
  · exact ⟨nofun, fun hle => absurd hle.1 hfits⟩

private theorem checkedPow10_eq_error {n : UInt8} {x : Abort} (hfits : 10 ^ n.toNat < 2 ^ 128) :
    checkedPow10 n ≠ .error x := by
  rw [checkedPow10, if_pos hfits]
  exact nofun

/-- What is checked does what is built, as long as nothing overflows. -/
theorem checkedCounterCommitment_eq_ok
    (hequipped : Equipped h clock source destination sourceNow destNow) :
    h.checkedCounterCommitment id init source destination clock = .ok c ↔
      10 ^ init.amount.decimals.toNat < 2 ^ 128 ∧
      destNow.toNat + destination.lockTimeSecs < 2 ^ 64 ∧
      h.buildCounterCommitment id init source destination clock = .ok c := by
  obtain ⟨hsourceNow, hdestNow, mmSource, mmDestination, hmmSource, hmmDestination⟩ := hequipped
  unfold checkedCounterCommitment buildCounterCommitment
  simp only [bind_eq_ok, guard_eq_ok, orFail_eq_ok, okOr_eq_ok, checkedPow10_eq_ok,
    checkedAdd_lockTime, hsourceNow, hdestNow, hmmSource, hmmDestination, Option.some.injEq,
    exists_eq_left']
  constructor
  · rintro ⟨amountIn, hin, hsource, _, ⟨hpow, rfl⟩, hlimits, hdest, amountOut, hout, hlock, _,
      ⟨hfits, rfl⟩, hc⟩
    cases hc
    exact ⟨hpow, hfits, amountIn, hin, hsource, hlimits, hdest, amountOut, hout, hlock, rfl⟩
  · rintro ⟨hpow, hfits, amountIn, hin, hsource, hlimits, hdest, amountOut, hout, hlock, hc⟩
    cases hc
    exact ⟨amountIn, hin, hsource, _, ⟨hpow, rfl⟩, hlimits, hdest, amountOut, hout, hlock, _,
      ⟨hfits, rfl⟩, rfl⟩

/-- With few decimals the last sum is the only one that panics, and it is reached exactly when
the amount is priced and the first leg stays locked for long enough. -/
theorem checkedCounterCommitment_panicked
    (hequipped : Equipped h clock source destination sourceNow destNow)
    (hpow : 10 ^ init.amount.decimals.toNat < 2 ^ 128) :
    h.checkedCounterCommitment id init source destination clock = .error .panicked ↔
      (∃ amountOut, Priced h init source destination amountOut) ∧
      ¬ remaining init sourceNow < requiredInitLockSecs destination h.commitBufferSecs false ∧
      2 ^ 64 ≤ destNow.toNat + destination.lockTimeSecs := by
  obtain ⟨hsourceNow, hdestNow, mmSource, mmDestination, hmmSource, hmmDestination⟩ := hequipped
  unfold checkedCounterCommitment
  simp only [bind_eq_error, guard_eq_error, orFail_eq_ok, orFail_eq_error, checkedPow10_eq_ok,
    checkedPow10_eq_error hpow, checkedAdd_panicked, hsourceNow, hdestNow, hmmSource,
    hmmDestination, Option.some.injEq, exists_eq_left', reduceCtorEq, and_false, false_or]
  constructor
  · rintro ⟨amountIn, hin, hsource, _, -, hlimits, hdest, amountOut, hout, hlock, hsum⟩
    rw [not_or, Bool.not_eq_true, Bool.not_eq_true] at hlimits
    refine ⟨⟨amountOut, ⟨amountIn, hin, hlimits.1, hlimits.2, hout⟩, not_not.mp hsource,
      not_not.mp hdest⟩, hlock, ?_⟩
    rcases hsum with hsum | ⟨_, -, hpure⟩
    · exact hsum
    · cases hpure
  · rintro ⟨⟨amountOut, ⟨amountIn, hin, hbelow, habove, hout⟩, hsource, hdest⟩, hlock, hsum⟩
    exact ⟨amountIn, hin, not_not.mpr hsource, _, ⟨hpow, rfl⟩, by simp [hbelow, habove],
      not_not.mpr hdest, amountOut, hout, hlock, .inl hsum⟩

private theorem checkedCounterCommitment_invalidAmount {amountIn : Evm.Uint256}
    (hpow : 10 ^ init.amount.decimals.toNat < 2 ^ 128)
    (hin : Evm.parseValue init.amount.value = some amountIn)
    (hsource : h.pricing.hasPrice source = true)
    (hlimits : h.pricing.belowMinimum amountIn init.amount.decimals source = true ∨
      h.pricing.aboveMaximum amountIn init.amount.decimals source = true) :
    h.checkedCounterCommitment id init source destination clock =
      .error (.failed (.invalidAmount amountIn)) := by
  have hscale := checkedPow10_eq_ok.mpr ⟨hpow, rfl⟩
  simp [checkedCounterCommitment, hin, hsource, hlimits, orFail, okOr, hscale, bind, Except.bind,
    throw, throwThe, MonadExceptOf.throw]

end Checked

/-- A commitment that is read from a log or from a script. -/
inductive Decoded (c : CommitmentV1) : Prop
  | log {RpcLog : Type} (codec : Evm.LogCodec RpcLog) (keccak256 : Bytes → Bytes32) (log : RpcLog)
      (channel : ChannelId)
      (h : Evm.decodeLog codec keccak256 log channel = .ok (some (.commitment c)))
  | script (codec : Kaspa.AddressCodec) (ops : List Script.Opcode) (amount : String)
      (network : Kaspa.Network) (channel : ChannelId)
      (h : Kaspa.extractCommitment codec ops amount network channel = .ok c)

theorem pow_decimals (channel : ChannelId) : 10 ^ channel.decimals.toNat < 2 ^ 128 := by
  cases channel <;> decide

/-- The decimals are those of a channel, not the sender's. -/
theorem Decoded.pow_decimals {c : CommitmentV1} (h : Decoded c) :
    10 ^ c.amount.decimals.toNat < 2 ^ 128 := by
  cases h with
  | log codec keccak256 log channel h =>
    unfold Evm.decodeLog at h
    split at h
    · obtain ⟨unlockTs, -, h⟩ := bind_eq_ok.mp h
      cases h
      exact Handler.pow_decimals channel
    · split at h
      · cases h
      · split at h <;> cases h
  | script codec ops amount network channel h =>
    unfold Kaspa.extractCommitment at h
    simp only [bind_eq_ok] at h
    obtain ⟨_, -, _, -, _, -, _, -, _, -, _, -, _, -, _, -, _, -, _, -, h⟩ := h
    split at h
    · cases h
    · cases h
      exact Handler.pow_decimals .kaspaTn10

/-- The commitment is to the amount that was asked for, in the decimals of its channel. -/
structure SameAmount (request : SwapRequest) (origin : ChannelId) (init : CommitmentV1) : Prop where
  value : Evm.parseValue init.amount.value = Evm.parseValue request.amount
  decimals : init.amount.decimals = origin.decimals

section Agreement

variable {h : Handler} {request : SwapRequest} {p : TradeProposal} {init : CommitmentV1}
  {origin destination : ChannelId}

/-- What is quoted is the output that the commitment is priced at. -/
theorem createProposal_priced (horigin : ChannelId.ofByte request.origin = some origin)
    (hdestination : ChannelId.ofByte request.destination = some destination)
    (hok : h.createProposal request = .ok p) (hsame : SameAmount request origin init) :
    ∃ amountOut, Priced h init origin destination amountOut ∧
      p.amountIn = toString amountOut.toNat := by
  unfold createProposal at hok
  simp only [bind_eq_ok, guard_eq_ok, okOr_eq_ok, tryFrom_eq_ok, horigin, hdestination,
    Option.some.injEq, exists_eq_left'] at hok
  obtain ⟨hpriceOrigin, hpriceDestination, amountIn, hin, hbelow, habove, output, hout, address, -,
    hp⟩ := hok
  cases hp
  rw [Bool.not_eq_true] at hbelow habove
  refine ⟨output, ⟨⟨amountIn, ?_, ?_, ?_, hout⟩, not_not.mp hpriceOrigin,
    not_not.mp hpriceDestination⟩, rfl⟩
  · rw [hsame.value, hin]
  · rw [hsame.decimals, hbelow]
  · rw [hsame.decimals, habove]

private theorem createProposal_limits (horigin : ChannelId.ofByte request.origin = some origin)
    (hdestination : ChannelId.ofByte request.destination = some destination)
    (hrefused : h.createProposal request = .error (.tradeTooSmall request.amount) ∨
      h.createProposal request = .error (.tradeTooLarge request.amount)) :
    ∃ amountIn, Evm.parseValue request.amount = some amountIn ∧
      h.pricing.hasPrice origin = true ∧
      (h.pricing.belowMinimum amountIn origin.decimals origin = true ∨
        h.pricing.aboveMaximum amountIn origin.decimals origin = true) := by
  have horigin' := tryFrom_eq_ok.mpr horigin
  have hdestination' := tryFrom_eq_ok.mpr hdestination
  unfold createProposal at hrefused
  simp only [bind_eq_error, guard_eq_error, okOr_eq_ok, okOr_eq_error, horigin',
    hdestination', Except.ok.injEq, exists_eq_left', reduceCtorEq, and_false, and_true,
    false_or] at hrefused
  rcases hrefused with ⟨hprice, -, amountIn, hin, hlimits⟩ | ⟨hprice, -, amountIn, hin, -, hlimits⟩
  · refine ⟨amountIn, hin, not_not.mp hprice, ?_⟩
    rcases hlimits with hbelow | ⟨-, -, _, -, _, -, hpure⟩
    · exact .inl hbelow
    · cases hpure
  · refine ⟨amountIn, hin, not_not.mp hprice, ?_⟩
    rcases hlimits with habove | ⟨-, _, -, _, -, hpure⟩
    · exact .inr habove
    · cases hpure

/-- With the clocks and the addresses at hand: what is quoted is what is locked for a commitment
that stays locked for long enough, exactly when the time of the destination and its lock time add
up in 64 bits; a size that is refused for the quote is refused for the commitment; and no
commitment that is decoded makes the call panic, except where it gets as far as that sum and the
sum overflows. -/
theorem quote_agreement_iff (h : Handler) (request : SwapRequest) (origin destination : ChannelId)
    (horigin : ChannelId.ofByte request.origin = some origin)
    (hdestination : ChannelId.ofByte request.destination = some destination)
    (clock : ChainClock) (sourceNow destNow : UInt64)
    (hequipped : Equipped h clock origin destination sourceNow destNow) (id : SwapId)
    (init : CommitmentV1) :
    (∀ p, h.createProposal request = .ok p → SameAmount request origin init →
      ¬ remaining init sourceNow < requiredInitLockSecs destination h.commitBufferSecs false →
      ((∃ c, h.checkedCounterCommitment id init origin destination clock = .ok c ∧
          c.amount = ⟨p.amountIn, destination.decimals⟩) ↔
        destNow.toNat + destination.lockTimeSecs < 2 ^ 64)) ∧
    (SameAmount request origin init →
      h.createProposal request = .error (.tradeTooSmall request.amount) ∨
        h.createProposal request = .error (.tradeTooLarge request.amount) →
      ∃ amountIn, h.checkedCounterCommitment id init origin destination clock =
        .error (.failed (.invalidAmount amountIn))) ∧
    (Decoded init →
      (h.checkedCounterCommitment id init origin destination clock ≠ .error .panicked ↔
        destNow.toNat + destination.lockTimeSecs < 2 ^ 64 ∨
        (¬ ∃ amountOut, Priced h init origin destination amountOut) ∨
        remaining init sourceNow < requiredInitLockSecs destination h.commitBufferSecs false)) := by
  have hpow : ∀ {init : CommitmentV1}, SameAmount request origin init →
      10 ^ init.amount.decimals.toNat < 2 ^ 128 := fun hsame => by
    rw [hsame.decimals]
    exact pow_decimals origin
  refine ⟨fun p hok hsame hlock => ⟨?_, fun hfits => ?_⟩, fun hsame hrefused => ?_,
    fun hdecoded => ?_⟩
  · rintro ⟨c, hc, -⟩
    exact ((checkedCounterCommitment_eq_ok hequipped).mp hc).2.1
  · obtain ⟨amountOut, hpriced, hquoted⟩ :=
      createProposal_priced horigin hdestination hok hsame
    obtain ⟨mmSource, mmDestination, hmmSource, hmmDestination⟩ := hequipped.addresses
    refine ⟨_, (checkedCounterCommitment_eq_ok hequipped).mpr ⟨hpow hsame, hfits,
      buildCounterCommitment_eq_ok.mpr ⟨amountOut, sourceNow, destNow, mmDestination, mmSource,
        hpriced, hequipped.sourceNow, hlock, hequipped.destNow, hmmDestination, hmmSource, rfl⟩⟩, ?_⟩
    rw [hquoted]
    rfl
  · obtain ⟨amountIn, hin, hprice, hlimits⟩ :=
      createProposal_limits horigin hdestination hrefused
    rw [← hsame.decimals] at hlimits
    exact ⟨amountIn, checkedCounterCommitment_invalidAmount (hpow hsame)
      (hsame.value.trans hin) hprice hlimits⟩
  · rw [Ne, checkedCounterCommitment_panicked hequipped hdecoded.pow_decimals]
    simp only [not_and_or, not_not, Nat.not_le]
    tauto

end Agreement

def sampleRequest : SwapRequest := ⟨1, 2, "2000"⟩

/-- The clocks of both channels, with a given time of the destination. -/
def quoteClock (destNow : UInt64) : ChainClock :=
  ⟨fun c => if c = .igraGalleon then some destNow else some 1000, 1000⟩

/-- The first commitment of the sample swap, as it is decoded. -/
def decodedInit : CommitmentV1 :=
  ⟨.filled 3, ⟨Evm.toChecksum (fun _ => default) 0x1111111111111111111111111111111111111111,
      Evm.toChecksum (fun _ => default) 0x2222222222222222222222222222222222222222, userAddress⟩,
    ⟨"2000", 18⟩, Htlc.sampleSecretHash, 10000, 1, 2⟩

private theorem decoded_decodedInit : Decoded decodedInit :=
  .log Evm.plainCodec (fun _ => default) sampleInitLog .ethereumSepolia (by decide +kernel)

private theorem equipped_quoteClock (destNow : UInt64) :
    Equipped sampleNode.handler (quoteClock destNow) .ethereumSepolia .igraGalleon 1000 destNow :=
  ⟨rfl, rfl, _, _, rfl, rfl⟩

/-- The last block of the destination is close to the largest time: the request is quoted, and the
call panics on the commitment that follows. -/
theorem late_clock_panics :
    (sampleNode.handler.createProposal sampleRequest).toOption.map TradeProposal.amountIn =
        some "1000" ∧
      Decoded decodedInit ∧ SameAmount sampleRequest .ethereumSepolia decodedInit ∧
      ¬ remaining decodedInit 1000 <
        requiredInitLockSecs .igraGalleon sampleNode.handler.commitBufferSecs false ∧
      sampleNode.handler.checkedCounterCommitment (.filled 3) decodedInit .ethereumSepolia
        .igraGalleon (quoteClock (UInt64.ofNat (2 ^ 64 - 100))) = .error .panicked :=
  ⟨by decide +kernel, decoded_decodedInit, ⟨rfl, rfl⟩, by decide +kernel, by decide +kernel⟩

theorem quote_agreement_sample :
    ∃ c, sampleNode.handler.checkedCounterCommitment (.filled 3) decodedInit .ethereumSepolia
        .igraGalleon (quoteClock 1000) = .ok c ∧ c.amount = ⟨"1000", 18⟩ := by
  obtain ⟨hquoted, -⟩ := quote_agreement_iff sampleNode.handler sampleRequest .ethereumSepolia
    .igraGalleon rfl rfl (quoteClock 1000) 1000 1000 (equipped_quoteClock 1000) (.filled 3)
    decodedInit
  exact (hquoted _ rfl ⟨rfl, rfl⟩ (by decide +kernel)).mpr (by decide)

end Stroemnet.Handler
