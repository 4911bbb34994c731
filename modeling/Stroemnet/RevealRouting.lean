import Stroemnet.DeliveryOrder

/-! # Routing a reveal

Which commitment of a swap is kept as the first depends on the order of arrival. Nothing that
follows does: the swap is locked in both orders or in none, and the reveal of either leg goes to
the other one. -/
namespace Stroemnet
namespace Handler
open SwapTracker

/-- The tracker after a commitment; one that is refused changes nothing. -/
def received (t : SwapTracker) (c : CommitmentV1) (now : UInt64) : SwapTracker :=
  match handleExternalCommitment t c now with
  | .ok t' => t'
  | .error _ => t

def IsLocked (t : SwapTracker) (id : SwapId) : Prop := ∃ r, t id = some r ∧ stage r = .locked

structure Locks (r : SwapRecord) (c : CommitmentV1) : Prop where
  counterCommitment : r.counterCommitment = none
  resolution : r.resolution = none
  source : r.initCommitment.source ≠ c.source
  mirrors : Mirrors r.initCommitment c

section Order

variable {t : SwapTracker} {r : SwapRecord} {a b c : CommitmentV1} {now : UInt64}

private theorem received_unknown (h : t c.swapId = none) :
    received t c now = t.insert c.swapId ⟨c, none, none, now⟩ := by
  have hinit : handleExternalCommitment t c now =
      .ok (t.insert c.swapId ⟨c, none, none, now⟩) := by
    simp only [handleExternalCommitment, h]
    exact lift_eq_ok.mpr (setInitCommitment_eq_ok.mpr ⟨h, rfl⟩)
  rw [received, hinit]

theorem received_of_locks (hr : t c.swapId = some r) (h : Locks r c) :
    received t c now = t.insert c.swapId { r with counterCommitment := some c } := by
  have hnew : ¬ (r.initCommitment = c ∨ r.counterCommitment = some c ∨
      r.initCommitment.source = c.source) := by
    rintro (heq | heq | heq)
    · exact h.source (congrArg CommitmentV1.source heq)
    · rw [h.counterCommitment] at heq
      cases heq
    · exact h.source heq
  have hcounter : handleExternalCommitment t c now =
      .ok (t.insert c.swapId { r with counterCommitment := some c }) := by
    simp only [handleExternalCommitment, hr, if_neg hnew]
    exact lift_eq_ok.mpr (setCounterCommitment_eq_ok.mpr
      ⟨r, hr, h.counterCommitment, h.resolution, h.mirrors, rfl⟩)
  rw [received, hcounter]

theorem received_of_not_locks (hr : t c.swapId = some r) (h : ¬ Locks r c) :
    received t c now = t := by
  unfold received
  cases hc : handleExternalCommitment t c now with
  | error e => rfl
  | ok t' =>
    simp only [handleExternalCommitment, hr] at hc
    split_ifs at hc with hknown
    · cases hc
      rfl
    · obtain ⟨r', hr', hcounter, hres, hmirror, -⟩ :=
        setCounterCommitment_eq_ok.mp (lift_eq_ok.mp hc)
      rw [hr, Option.some.injEq] at hr'
      subst hr'
      rw [not_or, not_or] at hknown
      exact absurd ⟨hcounter, hres, hknown.2.2, hmirror⟩ h

/-- One commitment locks a known swap exactly when it was locked or the commitment is one for
it. -/
theorem isLocked_received (hr : t c.swapId = some r) :
    IsLocked (received t c now) c.swapId ↔ stage r = .locked ∨ Locks r c := by
  by_cases h : Locks r c
  · rw [received_of_locks hr h]
    refine iff_of_true ⟨_, insert_self _ _ _, ?_⟩ (.inr h)
    simp [stage, h.resolution]
  · rw [received_of_not_locks hr h]
    simp [IsLocked, hr, h]

/-- The same for two commitments of a known swap. -/
theorem isLocked_received_both (hr : t a.swapId = some r) (hid : b.swapId = a.swapId)
    (now now' : UInt64) : IsLocked (received (received t a now) b now') a.swapId ↔
      stage r = .locked ∨ Locks r a ∨ Locks r b := by
  rw [← hid]
  by_cases h : Locks r a
  · have hlocked : stage { r with counterCommitment := some a } = .locked := by
      simp [stage, h.resolution]
    rw [received_of_locks hr h, ← hid, isLocked_received (insert_self _ _ _)]
    exact iff_of_true (.inl hlocked) (.inr (.inl h))
  · rw [received_of_not_locks hr h, isLocked_received (by rw [hid, hr])]
    simp [h]

/-- Two commitments of a new swap lock it exactly when they mirror each other. -/
theorem isLocked_received_new (hr : t a.swapId = none) (hid : b.swapId = a.swapId)
    (hsource : a.source ≠ b.source) (now now' : UInt64) :
    IsLocked (received (received t a now) b now') a.swapId ↔ Mirrors a b := by
  rw [received_unknown hr, ← hid, isLocked_received (insert_self _ _ _)]
  constructor
  · rintro (hlocked | h)
    · simp [stage] at hlocked
    · exact h.mirrors
  · exact fun h => .inr ⟨rfl, rfl, hsource, h⟩

private theorem isLocked_received_comm (t : SwapTracker) (hid : b.swapId = a.swapId)
    (hsource : a.source ≠ b.source) (now now' later later' : UInt64) :
    IsLocked (received (received t a now) b now') a.swapId ↔
      IsLocked (received (received t b later) a later') a.swapId := by
  cases hr : t a.swapId with
  | none =>
    have hback := isLocked_received_new (t := t) (a := b) (b := a) (by rw [hid, hr]) hid.symm
      hsource.symm later later'
    rw [hid] at hback
    rw [isLocked_received_new hr hid hsource, hback]
    exact ⟨Mirrors.symm, Mirrors.symm⟩
  | some r =>
    have hback := isLocked_received_both (t := t) (a := b) (b := a) (by rw [hid, hr]) hid.symm
      later later'
    rw [hid] at hback
    rw [isLocked_received_both hr hid, hback, or_comm (a := Locks r b)]

end Order

/-- The record has the two commitments as its legs, in one of the orders. -/
def HasLegs (r : SwapRecord) (a b : CommitmentV1) : Prop :=
  r.initCommitment = a ∧ r.counterCommitment = some b ∨
    r.initCommitment = b ∧ r.counterCommitment = some a

/-- Every reveal of a swap with two legs goes where it belongs: one with the right secret from
the channel of a leg to that of the other leg and nowhere else, and one with a wrong secret
nowhere. -/
structure Routes (h : Handler) (t : SwapTracker) (id : SwapId) (hash : Bytes32)
    (a b : ChannelId) : Prop where
  ne : a ≠ b
  fromFirst : ∀ secret clock, h.sha256 secret.data = hash →
    (h.onChainEvent t a (.reveal ⟨id, secret⟩) clock).1 =
      .ok [.broadcast b (.reveal ⟨id, secret⟩)]
  fromSecond : ∀ secret clock, h.sha256 secret.data = hash →
    (h.onChainEvent t b (.reveal ⟨id, secret⟩) clock).1 =
      .ok [.broadcast a (.reveal ⟨id, secret⟩)]
  wrong : ∀ source secret clock, h.sha256 secret.data ≠ hash →
    h.onChainEvent t source (.reveal ⟨id, secret⟩) clock =
      (.error (.swapTracker (.secretHashMismatch id)), t)

section Reveals

variable {h : Handler} {t : SwapTracker} {id : SwapId} {rec : SwapRecord} {counter : CommitmentV1}
  {a b : ChannelId}

theorem Routes.symm {hash : Bytes32} (hroutes : Routes h t id hash a b) :
    Routes h t id hash b a :=
  ⟨hroutes.ne.symm, hroutes.fromSecond, hroutes.fromFirst, hroutes.wrong⟩

private theorem onChainEvent_wrong (hopen : rec.Open counter a b) (ht : t id = some rec)
    {secret : Bytes32}
    (hwrong : h.sha256 secret.data ≠ counter.secretHash) (source : ChannelId)
    (clock : ChainClock) : h.onChainEvent t source (.reveal ⟨id, secret⟩) clock =
      (.error (.swapTracker (.secretHashMismatch id)), t) := by
  have hlocked : t.lockedUnresolved id = .ok (rec, counter) :=
    lockedUnresolved_eq_ok.mpr ⟨ht, hopen.counterCommitment, hopen.resolution⟩
  simp [onChainEvent, handleExternalReveal, setRevealed, hlocked, bind, Except.bind, hwrong, lift]

theorem routes_of_open (hopen : rec.Open counter a b) (ht : t id = some rec) :
    Routes h t id counter.secretHash a b := by
  refine ⟨hopen.ne, fun secret clock hsecret => ?_, fun secret clock hsecret => ?_,
    fun source secret clock hwrong => onChainEvent_wrong hopen ht hwrong source clock⟩
  · rw [onChainEvent_open (r := ⟨id, secret⟩) hopen ht hsecret, if_pos rfl]
  · rw [onChainEvent_open (r := ⟨id, secret⟩) hopen ht hsecret, if_neg hopen.ne]

theorem open_of_locked {r : SwapRecord} (hlawful : Lawful h.sha256 r) (hstage : stage r = .locked)
    (hcounter : r.counterCommitment = some counter) (ha : r.initCommitment.source = a.toByte)
    (hb : counter.source = b.toByte) (hne : a ≠ b) : r.Open counter a b := by
  refine ⟨hcounter, ?_, ha, hb, (hlawful.mirrors counter hcounter).secretHash, hne⟩
  unfold stage at hstage
  split at hstage
  · split_ifs at hstage
  · assumption

end Reveals

/-- Two commitments of a swap from different channels lock it in both orders of their arrival or
in none, whatever is known of the swap; and in every tracker where the swap is locked by the two,
its reveals are routed between their channels. -/
theorem reveals_are_routed (h : Handler) (a b : CommitmentV1) (hid : b.swapId = a.swapId)
    (ca cb : ChannelId) (ha : a.source = ca.toByte) (hb : b.source = cb.toByte) (hne : ca ≠ cb) :
    (∀ t now now' later later', IsLocked (received (received t a now) b now') a.swapId ↔
      IsLocked (received (received t b later) a later') a.swapId) ∧
    ∀ calls r, runCalls h.sha256 .empty calls a.swapId = some r → stage r = .locked →
      HasLegs r a b → Routes h (runCalls h.sha256 .empty calls) a.swapId a.secretHash ca cb := by
  refine ⟨fun t => isLocked_received_comm t hid ?_, fun calls r hr hstage hlegs => ?_⟩
  · rw [ha, hb]
    exact fun heq => hne (ChannelId.toByte_injective heq)
  · have hempty : ∀ id r, SwapTracker.empty id = some r → Lawful h.sha256 r := nofun
    have hlawful := lawful_runCalls calls hempty a.swapId r hr
    rcases hlegs with ⟨rfl, hcounter⟩ | ⟨rfl, hcounter⟩
    · have hopen := open_of_locked hlawful hstage hcounter ha hb hne
      rw [hopen.secretHash]
      exact routes_of_open hopen hr
    · exact (routes_of_open (open_of_locked hlawful hstage hcounter hb ha hne.symm) hr).symm

/-- The second commitment of the sample swap arrives before the first. -/
def counterFirstCalls : List TrackerCall :=
  [.setInitCommitment (.filled 3) sampleCounter 100,
    .setCounterCommitment (.filled 3) Taker.sampleInit]

theorem reveals_are_routed_sample :
    IsLocked (received (received .empty Taker.sampleInit 100) sampleCounter 100) (.filled 3) ∧
    IsLocked (received (received .empty sampleCounter 100) Taker.sampleInit 100) (.filled 3) ∧
    Routes sampleNode.handler (runCalls sampleNode.handler.sha256 .empty counterFirstCalls)
      (.filled 3) Taker.sampleInit.secretHash .ethereumSepolia .igraGalleon := by
  have hmirrors : Mirrors Taker.sampleInit sampleCounter := ⟨rfl, rfl, rfl, rfl, rfl, rfl⟩
  have hrouted := reveals_are_routed sampleNode.handler Taker.sampleInit sampleCounter rfl
    .ethereumSepolia .igraGalleon rfl rfl (by decide)
  have hlocked : IsLocked (received (received .empty Taker.sampleInit 100) sampleCounter 100)
      Taker.sampleInit.swapId :=
    (isLocked_received_new (a := Taker.sampleInit) (b := sampleCounter) rfl rfl (by decide) 100
      100).mpr hmirrors
  refine ⟨hlocked, (hrouted.1 .empty 100 100 100 100).mp hlocked, ?_⟩
  exact hrouted.2 counterFirstCalls ⟨sampleCounter, some Taker.sampleInit, none, 100⟩
    (by decide +kernel) rfl (.inr ⟨rfl, rfl⟩)

end Handler
end Stroemnet
