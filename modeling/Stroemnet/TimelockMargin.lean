import Stroemnet.NodeConfiguration
import Stroemnet.SwapHandler

/-! # The margin between the two legs

A counter commitment is made only when the first leg stays locked for twice its own lock time,
and a quote asks for enough time for the commitment to arrive. -/
namespace Stroemnet.Handler

variable {h : Handler} {id : SwapId} {init c : CommitmentV1} {source destination : ChannelId}
  {clock : ChainClock}

/-- The counter commitment of a first commitment, once amounts, times and addresses are known. -/
def counterOf (id : SwapId) (init : CommitmentV1) (source destination : ChannelId)
    (amountOut : Evm.Uint256) (destNow : UInt64) (mmDestination mmSource : String) :
    CommitmentV1 where
  swapId := id
  addresses := ⟨mmDestination, init.addresses.senderDestination, mmSource⟩
  amount := ⟨toString amountOut.toNat, destination.decimals⟩
  secretHash := init.secretHash
  unlockTs := destNow + UInt64.ofNat destination.lockTimeSecs
  source := destination.toByte
  destination := source.toByte

/-- The conditions on amounts and prices that come before the one on time. -/
structure Priced (h : Handler) (init : CommitmentV1) (source destination : ChannelId)
    (amountOut : Evm.Uint256) : Prop where
  amount : ∃ amountIn, Evm.parseValue init.amount.value = some amountIn ∧
    h.pricing.belowMinimum amountIn init.amount.decimals source = false ∧
    h.pricing.aboveMaximum amountIn init.amount.decimals source = false ∧
    h.pricing.amountOut amountIn source destination = some amountOut
  source : h.pricing.hasPrice source
  destination : h.pricing.hasPrice destination

/-- The time for which the first leg stays locked. -/
def remaining (init : CommitmentV1) (sourceNow : UInt64) : UInt64 :=
  UInt64.ofNat (init.unlockTs.toNat - sourceNow.toNat)

theorem toNat_remaining (init : CommitmentV1) (sourceNow : UInt64) :
    (remaining init sourceNow).toNat = init.unlockTs.toNat - sourceNow.toNat := by
  have hlt := init.unlockTs.toNat_lt
  rw [remaining, UInt64.toNat_ofNat_of_lt' (by simp only [UInt64.size]; omega)]

theorem toNat_lockTimeSecs (c : ChannelId) :
    (UInt64.ofNat c.lockTimeSecs).toNat = c.lockTimeSecs := by
  cases c <;> rfl

theorem toNat_requiredInitLockSecs (destination : ChannelId) (buffer : UInt64) :
    (requiredInitLockSecs destination buffer false).toNat = 2 * destination.lockTimeSecs := by
  cases destination <;> rfl

theorem buildCounterCommitment_eq_ok :
    h.buildCounterCommitment id init source destination clock = .ok c ↔
      ∃ amountOut sourceNow destNow mmDestination mmSource,
        Priced h init source destination amountOut ∧
        clock.nowChecked source = some sourceNow ∧
        ¬ remaining init sourceNow < requiredInitLockSecs destination h.commitBufferSecs false ∧
        clock.nowChecked destination = some destNow ∧
        h.addressLookupTable destination = some mmDestination ∧
        h.addressLookupTable source = some mmSource ∧
        c = counterOf id init source destination amountOut destNow mmDestination mmSource := by
  unfold buildCounterCommitment
  simp only [bind_eq_ok, guard_eq_ok, okOr_eq_ok]
  constructor
  · rintro ⟨amountIn, hin, hsource, hlimits, hdest, amountOut, hout, sourceNow, hnow, hlock,
      destNow, hdestNow, mmDestination, hmd, mmSource, hms, hc⟩
    rw [not_or, Bool.not_eq_true, Bool.not_eq_true] at hlimits
    cases hc
    exact ⟨amountOut, sourceNow, destNow, mmDestination, mmSource,
      ⟨⟨amountIn, hin, hlimits.1, hlimits.2, hout⟩, not_not.mp hsource, not_not.mp hdest⟩,
      hnow, hlock, hdestNow, hmd, hms, rfl⟩
  · rintro ⟨amountOut, sourceNow, destNow, mmDestination, mmSource,
      ⟨⟨amountIn, hin, hbelow, habove, hout⟩, hsource, hdest⟩, hnow, hlock, hdestNow, hmd, hms, rfl⟩
    exact ⟨amountIn, hin, not_not.mpr hsource, by simp [hbelow, habove], not_not.mpr hdest,
      amountOut, hout, sourceNow, hnow, hlock, destNow, hdestNow, mmDestination, hmd, mmSource, hms,
      rfl⟩

/-- A commitment is refused for its lock time exactly when all before is in order and too little
time remains. -/
theorem buildCounterCommitment_lockTime {secs : UInt64} :
    h.buildCounterCommitment id init source destination clock =
        .error (.invalidLockTimeDuration secs) ↔
      ∃ amountOut sourceNow, Priced h init source destination amountOut ∧
        clock.nowChecked source = some sourceNow ∧ secs = remaining init sourceNow ∧
        secs < requiredInitLockSecs destination h.commitBufferSecs false := by
  unfold buildCounterCommitment
  simp only [bind_eq_error, guard_eq_error, okOr_eq_ok, okOr_eq_error, reduceCtorEq,
    and_false, false_or, HandlerError.invalidLockTimeDuration.injEq]
  constructor
  · rintro ⟨amountIn, hin, hsource, hlimits, hdest, amountOut, hout, sourceNow, hnow, hlock⟩
    rw [not_or, Bool.not_eq_true, Bool.not_eq_true] at hlimits
    rcases hlock with ⟨hlock, rfl⟩ | ⟨-, destNow, -, mmDestination, -, mmSource, -, hpure⟩
    · exact ⟨amountOut, sourceNow, ⟨⟨amountIn, hin, hlimits.1, hlimits.2, hout⟩,
        not_not.mp hsource, not_not.mp hdest⟩, hnow, rfl, hlock⟩
    · cases hpure
  · rintro ⟨amountOut, sourceNow, ⟨⟨amountIn, hin, hbelow, habove, hout⟩, hsource, hdest⟩, hnow,
      rfl, hlock⟩
    exact ⟨amountIn, hin, not_not.mpr hsource, by simp [hbelow, habove], not_not.mpr hdest,
      amountOut, hout, sourceNow, hnow, .inl ⟨hlock, rfl⟩⟩

theorem tryFrom_eq_ok {b : UInt8} {c : ChannelId} :
    ChannelId.tryFrom b = .ok c ↔ ChannelId.ofByte b = some c := by
  unfold ChannelId.tryFrom
  cases ChannelId.ofByte b <;> simp

/-- What a quote promises: the amount is priced, and the offset leaves time for the buffer. -/
theorem createProposal_eq_ok {request : SwapRequest} {p : TradeProposal}
    (hok : h.createProposal request = .ok p) :
    (∃ amountOut, ∀ init : CommitmentV1,
        init.amount = ⟨request.amount, p.destination.decimals⟩ →
          Priced h init p.destination p.origin amountOut) ∧
      p.commitUnlockOffsetSecs = requiredInitLockSecs p.origin h.commitBufferSecs true := by
  unfold createProposal at hok
  simp only [bind_eq_ok, guard_eq_ok, okOr_eq_ok] at hok
  obtain ⟨origin, -, destination, -, horigin, hdestination, amountIn, hin, hbelow, habove, output,
    hout, address, -, hp⟩ := hok
  cases hp
  rw [Bool.not_eq_true] at hbelow habove
  refine ⟨⟨output, fun init hinit => ?_⟩, rfl⟩
  refine ⟨⟨amountIn, ?_, ?_, ?_, hout⟩, not_not.mp horigin, not_not.mp hdestination⟩ <;>
    rw [hinit] <;> assumption

/-- A counter commitment that leaves the first leg locked for its own lock time after it can be
refunded, as long as both clocks advance alike. -/
structure SafeMargin (h : Handler) (id : SwapId) (init : CommitmentV1)
    (source destination : ChannelId) (sourceNow destNow : UInt64) (c : CommitmentV1) : Prop where
  locked : sourceNow.toNat + 2 * destination.lockTimeSecs ≤ init.unlockTs.toNat
  unlockTs : c.unlockTs.toNat = destNow.toNat + destination.lockTimeSecs
  swapId : c.swapId = id
  secretHash : c.secretHash = init.secretHash
  receiver : c.addresses.receiver = init.addresses.senderDestination
  senderDestination : h.addressLookupTable source = some c.addresses.senderDestination
  channels : c.source = destination.toByte ∧ c.destination = source.toByte
  margin : ∀ elapsed, destNow.toNat + elapsed ≤ c.unlockTs.toNat + destination.lockTimeSecs →
    sourceNow.toNat + elapsed ≤ init.unlockTs.toNat

/-- A commitment made with the quoted offset is never refused for its lock time while it arrives
within the buffer. -/
def Honoured (h : Handler) (p : TradeProposal) (buffer : UInt64) : Prop :=
  ∀ id init clock t0 sourceNow secs,
    init.unlockTs.toNat = UInt64.toNat t0 + p.commitUnlockOffsetSecs.toNat →
    ChainClock.nowChecked clock p.destination = some sourceNow →
    sourceNow.toNat ≤ t0.toNat + buffer.toNat →
    h.buildCounterCommitment id init p.destination p.origin clock ≠
      .error (.invalidLockTimeDuration secs)

/-- The lock of the first commitment is long enough for two of the destination. -/
theorem locked_of_not_lt {sourceNow : UInt64} (hlock :
    ¬ remaining init sourceNow < requiredInitLockSecs destination h.commitBufferSecs false) :
    sourceNow.toNat + 2 * destination.lockTimeSecs ≤ init.unlockTs.toNat := by
  rw [UInt64.not_lt, UInt64.le_iff_toNat_le, toNat_requiredInitLockSecs,
    toNat_remaining] at hlock
  have hpos : 0 < destination.lockTimeSecs := by cases destination <;> decide
  omega

/-- What an answer has in common with the first commitment, on clocks of any size. -/
theorem counter_of_init {sourceNow destNow : UInt64}
    (hok : h.buildCounterCommitment id init source destination clock = .ok c)
    (hsource : clock.nowChecked source = some sourceNow)
    (hdest : clock.nowChecked destination = some destNow) :
    c.secretHash = init.secretHash ∧
      c.unlockTs.toNat ≤ destNow.toNat + destination.lockTimeSecs ∧
      sourceNow.toNat + 2 * destination.lockTimeSecs ≤ init.unlockTs.toNat := by
  obtain ⟨amountOut, sourceNow', destNow', mmDestination, mmSource, -, hsource', hlock, hdest', -, -,
    rfl⟩ := buildCounterCommitment_eq_ok.mp hok
  obtain rfl := Option.some.inj (hsource.symm.trans hsource')
  obtain rfl := Option.some.inj (hdest.symm.trans hdest')
  refine ⟨rfl, ?_, locked_of_not_lt hlock⟩
  rw [counterOf, UInt64.toNat_add, toNat_lockTimeSecs]
  exact Nat.mod_le _ _

private theorem safeMargin_iff
    (hok : h.buildCounterCommitment id init source destination clock = .ok c) :
    ∃ sourceNow destNow, clock.nowChecked source = some sourceNow ∧
      clock.nowChecked destination = some destNow ∧
      (SafeMargin h id init source destination sourceNow destNow c ↔
        destNow.toNat + destination.lockTimeSecs < 2 ^ 64) := by
  obtain ⟨amountOut, sourceNow, destNow, mmDestination, mmSource, -, hsource, hlock, hdest, -, hms,
    rfl⟩ := buildCounterCommitment_eq_ok.mp hok
  refine ⟨sourceNow, destNow, hsource, hdest, ?_⟩
  have hlong := locked_of_not_lt hlock
  have hunlock : (counterOf id init source destination amountOut destNow mmDestination
      mmSource).unlockTs.toNat = (destNow.toNat + destination.lockTimeSecs) % 2 ^ 64 := by
    rw [counterOf, UInt64.toNat_add, toNat_lockTimeSecs]
  constructor
  · intro hsafe
    rw [← hsafe.unlockTs]
    exact UInt64.toNat_lt _
  · intro hfits
    rw [Nat.mod_eq_of_lt hfits] at hunlock
    refine ⟨hlong, hunlock, rfl, rfl, rfl, hms, ⟨rfl, rfl⟩, fun elapsed helapsed => ?_⟩
    omega

theorem honoured_iff {request : SwapRequest} {p : TradeProposal}
    (hok : h.createProposal request = .ok p) :
    Honoured h p h.commitBufferSecs ↔
      2 * p.origin.lockTimeSecs + h.commitBufferSecs.toNat < 2 ^ 64 := by
  obtain ⟨⟨amountOut, hpriced⟩, hoffset⟩ := createProposal_eq_ok hok
  have htoNat : p.commitUnlockOffsetSecs.toNat =
      (2 * p.origin.lockTimeSecs + h.commitBufferSecs.toNat) % 2 ^ 64 := by
    have hbuffered : requiredInitLockSecs p.origin h.commitBufferSecs true =
        requiredInitLockSecs p.origin h.commitBufferSecs false + h.commitBufferSecs := rfl
    rw [hoffset, hbuffered, UInt64.toNat_add, toNat_requiredInitLockSecs]
  constructor
  · intro hhonoured
    by_contra hover
    -- the wrapped offset is shorter than what is asked for, so the commitment comes too late
    let init : CommitmentV1 := ⟨default, ⟨"", "", ""⟩, ⟨request.amount, p.destination.decimals⟩,
      default, p.commitUnlockOffsetSecs, 0, 0⟩
    let clock : ChainClock := ⟨fun _ => some 0, 0⟩
    refine hhonoured default init clock 0 0 (remaining init 0) (by simp [init]) rfl (by simp) ?_
    refine buildCounterCommitment_lockTime.mpr ⟨amountOut, 0, hpriced init rfl, rfl, rfl, ?_⟩
    rw [UInt64.lt_iff_toNat_lt, toNat_remaining, toNat_requiredInitLockSecs]
    have hlt := h.commitBufferSecs.toNat_lt
    simp only [init, htoNat]
    simp only [UInt64.toNat_zero]
    omega
  · intro hfits id init clock t0 sourceNow secs hinit hnow harrived herror
    obtain ⟨amountOut', sourceNow', -, hnow', rfl, hshort⟩ :=
      buildCounterCommitment_lockTime.mp herror
    rw [hnow, Option.some.injEq] at hnow'
    subst hnow'
    rw [UInt64.lt_iff_toNat_lt, toNat_remaining, toNat_requiredInitLockSecs, hinit, htoNat,
      Nat.mod_eq_of_lt hfits] at hshort
    omega

/-- For every configuration that is accepted: a counter commitment has a safe margin exactly when
its unlock time fits into 64 bits, and a quote is honoured exactly when its offset does. -/
theorem timelock_margin_iff {F : Type} [Zero F] (daemon : Daemon.DaemonConfig F)
    (peers : List String) (node : Daemon.NodeConfig F)
    (hnode : daemon.intoNodeConfig peers = .ok node) (h : Handler)
    (hbuffer : h.commitBufferSecs = node.handler.commitBufferSecs) :
    (∀ id init source destination clock c,
      h.buildCounterCommitment id init source destination clock = .ok c →
      ∃ sourceNow destNow, clock.nowChecked source = some sourceNow ∧
        clock.nowChecked destination = some destNow ∧
        (SafeMargin h id init source destination sourceNow destNow c ↔
          destNow.toNat + destination.lockTimeSecs < 2 ^ 64)) ∧
      ∀ request p, h.createProposal request = .ok p →
        (Honoured h p daemon.commitBufferSecs ↔
          2 * p.origin.lockTimeSecs + daemon.commitBufferSecs.toNat < 2 ^ 64) := by
  refine ⟨fun id init source destination clock c hok => safeMargin_iff hok,
    fun request p hok => ?_⟩
  rw [← Daemon.intoNodeConfig_commitBufferSecs hnode, ← hbuffer]
  exact honoured_iff hok

def sampleDaemon : Daemon.DaemonConfig ℕ where
  bindAddr := ⟨0, 9000⟩
  externalHostname := "wss://x/"
  minTradeUsd := some 1
  maxTradeUsd := some 2
  spreadPercent := some 0
  priceOracleUpdateIntervalSecs := 60
  commitBufferSecs := 960
  bootstrapPeers := []
  lp := true
  channels :=
    [("kaspa-tn10", ⟨some "deadbeef", true, some 30, none, none, none, some "testnet-10", none,
        none⟩),
      ("ethereum-sepolia", ⟨some "deadbeef", true, some 12, some "rpc", some "0xhtlc", none, none,
        none, none⟩)]

def marginHandler : Handler where
  sha256 _ := default
  pricing := ⟨fun _ => true, fun _ _ _ => false, fun _ _ _ => false, fun _ _ _ => some 1000⟩
  commitBufferSecs := 960
  addressLookupTable
    | .kaspaTn10 => some "kaspatest:lp"
    | .ethereumSepolia => some "0xLp"
    | .igraGalleon => none

def marginInit : CommitmentV1 :=
  ⟨.filled 3, ⟨"kaspatest:taker", "kaspatest:lp", "0xTaker"⟩, ⟨"100000000", 8⟩, .filled 9, 5000, 0, 1⟩

/-- The clocks of both channels, the second one as its last block reports it. -/
def marginClock (destNow : UInt64) : ChainClock :=
  ⟨fun c => if c = .ethereumSepolia then some destNow else none, 1000⟩

/-- With a block time just below the largest one, the counter commitment can be refunded at once. -/
theorem late_clock_wraps :
    (sampleDaemon.intoNodeConfig []).toOption.map (·.handler.commitBufferSecs) =
        some marginHandler.commitBufferSecs ∧
      ∃ c, marginHandler.buildCounterCommitment (.filled 3) marginInit .kaspaTn10 .ethereumSepolia
          (marginClock (UInt64.ofNat (2 ^ 64 - 100))) = .ok c ∧ c.unlockTs = 800 ∧
        c.unlockTs.toNat ≠ 2 ^ 64 - 100 + ChannelId.ethereumSepolia.lockTimeSecs :=
  ⟨by decide +kernel, _, rfl, rfl, by decide +kernel⟩

theorem timelock_margin_sample :
    ∃ c sourceNow destNow, marginHandler.buildCounterCommitment (.filled 3) marginInit .kaspaTn10
        .ethereumSepolia (marginClock 2000) = .ok c ∧
      SafeMargin marginHandler (.filled 3) marginInit .kaspaTn10 .ethereumSepolia sourceNow destNow
        c := by
  have hnode : ∃ node, sampleDaemon.intoNodeConfig [] = .ok node ∧
      marginHandler.commitBufferSecs = node.handler.commitBufferSecs := ⟨_, rfl, rfl⟩
  obtain ⟨node, hnode, hbuffer⟩ := hnode
  obtain ⟨hmargin, -⟩ := timelock_margin_iff sampleDaemon [] node hnode marginHandler hbuffer
  obtain ⟨sourceNow, destNow, -, hdest, hiff⟩ := hmargin (.filled 3) marginInit .kaspaTn10
    .ethereumSepolia (marginClock 2000) _ rfl
  cases hdest
  exact ⟨_, sourceNow, _, rfl, hiff.mpr (by decide)⟩

end Stroemnet.Handler
