import Stroemnet.SwapNode

/-! # What can happen to a record

Every step of a node moves the tracker in one of four ways. The invariants of records follow
from that, and so does what the handler asks to be broadcast. -/
namespace Stroemnet
open SwapTracker

/-- The moves of a tracker: nothing, a record is opened, locked, or resolved. Commitments are
taken from `polled`. -/
inductive TrackerMove (sha256 : Bytes → Bytes32) (polled : CommitmentV1 → Prop)
    (t : SwapTracker) : SwapTracker → Prop
  | same : TrackerMove sha256 polled t t
  | opened (c : CommitmentV1) (now : UInt64) (hpolled : polled c) (h : t c.swapId = none) :
      TrackerMove sha256 polled t (t.insert c.swapId ⟨c, none, none, now⟩)
  | locked (c : CommitmentV1) (r : SwapRecord) (hpolled : polled c) (h : t c.swapId = some r)
      (hcounter : r.counterCommitment = none) (hres : r.resolution = none)
      (hmirror : Mirrors r.initCommitment c) (hsource : r.initCommitment.source ≠ c.source) :
      TrackerMove sha256 polled t (t.insert c.swapId { r with counterCommitment := some c })
  | resolved (id : SwapId) (r : SwapRecord) (counter : CommitmentV1) (res : Resolution)
      (h : t id = some r) (hcounter : r.counterCommitment = some counter)
      (hres : r.resolution = none)
      (hsecret : ∀ s, res = .revealed s → sha256 s.data = counter.secretHash) :
      TrackerMove sha256 polled t (t.insert id { r with resolution := some res.text })

/-- The commitments of a record come from two channels, and the second mirrors the first. -/
structure SwapRecord.Sound (r : SwapRecord) : Prop where
  init_source : ∃ a : ChannelId, r.initCommitment.source = a.toByte
  counter_source : ∀ c, r.counterCommitment = some c → ∃ b : ChannelId, c.source = b.toByte
  mirrors : ∀ c, r.counterCommitment = some c →
    Mirrors r.initCommitment c ∧ r.initCommitment.source ≠ c.source

def RecordsSound (t : SwapTracker) : Prop := ∀ id r, t id = some r → r.Sound

section Moves

variable {sha256 : Bytes → Bytes32} {polled : CommitmentV1 → Prop} {t t' : SwapTracker}

/-- A property of records is kept by an update that keeps it. -/
theorem forall_insert {P : SwapRecord → Prop} {id : SwapId} {r : SwapRecord}
    (h : ∀ id r, t id = some r → P r) (hr : P r) :
    ∀ id' r', t.insert id r id' = some r' → P r' := by
  intro id' r' hr'
  by_cases heq : id' = id
  · subst heq
    rw [insert_self, Option.some.injEq] at hr'
    exact hr' ▸ hr
  · rw [insert_of_ne _ heq] at hr'
    exact h id' r' hr'

/-- A property of records is kept by a clean-up, which only drops some. -/
theorem forall_cleanup {P : SwapId → SwapRecord → Prop} (h : ∀ id r, t id = some r → P id r)
    (now maxAgeSecs : UInt64) :
    ∀ id r, t.cleanupOldSwaps now maxAgeSecs id = some r → P id r :=
  fun id r hr => h id r (Option.filter_eq_some_iff.mp hr).1

theorem cleanup_unresolved {id : SwapId} {r : SwapRecord} (hr : t id = some r)
    (hres : r.resolution = none) (now maxAgeSecs : UInt64) :
    t.cleanupOldSwaps now maxAgeSecs id = some r := by
  rw [SwapTracker.cleanupOldSwaps, hr, Option.filter_some, hres]
  rfl

theorem TrackerMove.keeps_init (h : TrackerMove sha256 polled t t') {id : SwapId}
    {r : SwapRecord} (hr : t id = some r) :
    ∃ r', t' id = some r' ∧ r'.initCommitment = r.initCommitment := by
  have hinsert : ∀ (id₀ : SwapId) (r₀ r' : SwapRecord), t id₀ = some r₀ →
      r'.initCommitment = r₀.initCommitment →
      ∃ r'', t.insert id₀ r' id = some r'' ∧ r''.initCommitment = r.initCommitment := by
    intro id₀ r₀ r' h₀ hinit
    by_cases heq : id = id₀
    · subst heq
      rw [h₀, Option.some.injEq] at hr
      subst hr
      exact ⟨r', insert_self _ _ _, hinit⟩
    · exact ⟨r, by rw [insert_of_ne _ heq, hr], rfl⟩
  cases h with
  | same => exact ⟨r, hr, rfl⟩
  | opened c now hpolled hnone =>
    have hne : id ≠ c.swapId := by
      rintro rfl
      rw [hnone] at hr
      cases hr
    exact ⟨r, by rw [insert_of_ne _ hne, hr], rfl⟩
  | locked c r₀ hpolled h₀ hcounter hres hmirror hsource => exact hinsert _ r₀ _ h₀ rfl
  | resolved id₀ r₀ counter res h₀ hcounter hres hsecret => exact hinsert _ r₀ _ h₀ rfl

/-- After a move, a record has been there before with the same first commitment, or is made of a
commitment. -/
theorem TrackerMove.init_source (h : TrackerMove sha256 polled t t') {id : SwapId}
    {r' : SwapRecord} (hr' : t' id = some r') :
    (∃ r, t id = some r ∧ r'.initCommitment = r.initCommitment) ∨
      t id = none ∧ ∃ c, polled c ∧ c.swapId = id ∧ r'.initCommitment = c := by
  have hinsert : ∀ (id₀ : SwapId) (r₀ r : SwapRecord), t id₀ = some r₀ →
      t.insert id₀ r id = some r' → r.initCommitment = r₀.initCommitment →
      ∃ r, t id = some r ∧ r'.initCommitment = r.initCommitment := by
    intro id₀ r₀ r h₀ hr' hinit
    by_cases heq : id = id₀
    · subst heq
      rw [insert_self, Option.some.injEq] at hr'
      exact ⟨r₀, h₀, hr' ▸ hinit⟩
    · rw [insert_of_ne _ heq] at hr'
      exact ⟨r', hr', rfl⟩
  cases h with
  | same => exact .inl ⟨r', hr', rfl⟩
  | opened c now hpolled hnone =>
    by_cases heq : id = c.swapId
    · subst heq
      rw [insert_self, Option.some.injEq] at hr'
      exact .inr ⟨hnone, c, hpolled, rfl, hr' ▸ rfl⟩
    · rw [insert_of_ne _ heq] at hr'
      exact .inl ⟨r', hr', rfl⟩
  | locked c r₀ hpolled h₀ hcounter hres hmirror hsource =>
    exact .inl (hinsert _ r₀ _ h₀ hr' rfl)
  | resolved id₀ r₀ counter res h₀ hcounter hres hsecret => exact .inl (hinsert _ r₀ _ h₀ hr' rfl)

/-- The moves keep records sound, as long as the commitments come from channels. -/
theorem TrackerMove.recordsSound (h : TrackerMove sha256 polled t t')
    (hpolled : ∀ c, polled c → ∃ a : ChannelId, c.source = a.toByte) (hok : RecordsSound t) :
    RecordsSound t' := by
  cases h with
  | same => exact hok
  | opened c now hc hnone =>
    refine forall_insert hok ⟨hpolled c hc, ?_, ?_⟩ <;> exact nofun
  | locked c r₀ hc h₀ hcounter hres hmirror hsource =>
    refine forall_insert hok ⟨(hok _ _ h₀).init_source, ?_, ?_⟩
    · rintro _ ⟨⟩
      exact hpolled c hc
    · rintro _ ⟨⟩
      exact ⟨hmirror, hsource⟩
  | resolved id₀ r₀ counter res h₀ hcounter hres hsecret =>
    have hsound := hok _ _ h₀
    exact forall_insert hok ⟨hsound.init_source, hsound.counter_source, hsound.mirrors⟩

end Moves

namespace Handler

theorem lift_eq_ok {α : Type} {x : Except SwapTrackerError α} {a : α} :
    lift x = .ok a ↔ x = .ok a := by
  cases x <;> simp [lift]

variable {h : Handler} {polled : CommitmentV1 → Prop} {t t' : SwapTracker}

private theorem handleExternalCommitment_move {c : CommitmentV1} {now : UInt64} (hpolled : polled c)
    (hok : handleExternalCommitment t c now = .ok t') : TrackerMove h.sha256 polled t t' := by
  unfold handleExternalCommitment at hok
  split at hok
  · rename_i hnone
    obtain ⟨-, rfl⟩ := setInitCommitment_eq_ok.mp (lift_eq_ok.mp hok)
    exact .opened c now hpolled hnone
  · rename_i r hr
    split_ifs at hok with hknown
    · cases hok
      exact .same
    · rw [not_or, not_or] at hknown
      obtain ⟨r', hr', hcounter, hres, hmirror, rfl⟩ :=
        setCounterCommitment_eq_ok.mp (lift_eq_ok.mp hok)
      rw [hr, Option.some.injEq] at hr'
      subst hr'
      exact .locked c r hpolled hr hcounter hres hmirror hknown.2.2

theorem handleExternalReveal_move {r : RevealV1}
    (hok : h.handleExternalReveal t r = .ok t') : TrackerMove h.sha256 polled t t' := by
  obtain ⟨rec, counter, hr, hcounter, hres, hsecret, rfl⟩ :=
    setRevealed_eq_ok.mp (lift_eq_ok.mp hok)
  refine .resolved r.swapId rec counter _ hr hcounter hres ?_
  rintro s hs
  cases hs
  exact hsecret

private theorem handleExternalRefund_move {r : RefundV1}
    (hok : handleExternalRefund t r = .ok t') : TrackerMove h.sha256 polled t t' := by
  obtain ⟨rec, counter, hr, hcounter, hres, rfl⟩ := setRefunded_eq_ok.mp (lift_eq_ok.mp hok)
  refine .resolved r.swapId rec counter _ hr hcounter hres ?_
  intro s hs
  cases hs

theorem onChainEvent_move (source : ChannelId) (event : ChainEvent) (clock : ChainClock)
    (hpolled : ∀ c, event = .commitment c → polled c) :
    TrackerMove h.sha256 polled t (h.onChainEvent t source event clock).2 := by
  cases event with
  | commitment c =>
    simp only [onChainEvent]
    cases hc : handleExternalCommitment t c clock.systemNow with
    | error e => exact .same
    | ok t' => exact handleExternalCommitment_move (hpolled c rfl) hc
  | reveal r =>
    simp only [onChainEvent]
    cases hr : h.handleExternalReveal t r with
    | error e => exact .same
    | ok t' => exact handleExternalReveal_move hr
  | refund r =>
    simp only [onChainEvent]
    cases hr : handleExternalRefund t r with
    | error e => exact .same
    | ok t' => exact handleExternalRefund_move hr

private theorem commitmentEffects_not_reveal {source : ChannelId} {c : CommitmentV1}
    {clock : ChainClock}
    {effects : List Effect} (hok : h.commitmentEffects t source c clock = .ok effects)
    {channel : ChannelId} {r : RevealV1} : .broadcast channel (.reveal r) ∉ effects := by
  unfold commitmentEffects at hok
  obtain ⟨destination, -, hok⟩ := bind_eq_ok.mp hok
  split_ifs at hok
  · cases hok
    simp
  · split at hok <;> cases hok <;> simp

private theorem revealEffects_eq {source : ChannelId} {r r' : RevealV1} {effects : List Effect}
    (hok : h.revealEffects t source r = .ok effects) {channel : ChannelId}
    (hmem : .broadcast channel (.reveal r') ∈ effects) : r' = r := by
  unfold revealEffects at hok
  obtain ⟨counterparty, -, hok⟩ := bind_eq_ok.mp hok
  split at hok
  · cases hok
    simp at hmem
  · obtain ⟨c, -, hok⟩ := bind_eq_ok.mp hok
    split at hok
    · cases hok
      simp at hmem
    · split_ifs at hok
      · cases hok
        simp only [List.mem_singleton, Effect.broadcast.injEq, ChainEvent.reveal.injEq] at hmem
        exact hmem.2
      · cases hok
        simp at hmem

/-- A reveal that is broadcast is the event itself, and its secret opens the record. -/
theorem onChainEvent_reveal {source : ChannelId} {event : ChainEvent} {clock : ChainClock}
    {effects : List Effect} (hok : h.onChainEvent t source event clock = (.ok effects, t'))
    {channel : ChannelId} {r : RevealV1} (hmem : .broadcast channel (.reveal r) ∈ effects) :
    event = .reveal r ∧ ∃ rec counter, t r.swapId = some rec ∧
      rec.counterCommitment = some counter ∧ rec.resolution = none ∧
      h.sha256 r.secret.data = counter.secretHash := by
  cases event with
  | commitment c =>
    simp only [onChainEvent] at hok
    split at hok
    · cases hok
    · rw [Prod.mk.injEq] at hok
      exact absurd hmem (commitmentEffects_not_reveal hok.1)
  | reveal r₀ =>
    simp only [onChainEvent] at hok
    split at hok
    · cases hok
    · rename_i t₁ ht₁
      rw [Prod.mk.injEq] at hok
      have heq := revealEffects_eq hok.1 hmem
      subst heq
      obtain ⟨rec, counter, hr, hcounter, hres, hsecret, -⟩ :=
        setRevealed_eq_ok.mp (lift_eq_ok.mp ht₁)
      exact ⟨rfl, rec, counter, hr, hcounter, hres, hsecret⟩
  | refund r₀ =>
    simp only [onChainEvent] at hok
    split at hok
    · cases hok
    · cases hok
      simp at hmem

end Handler

namespace Node

variable {RpcLog : Type} {cfg : NodeConfig RpcLog}

@[simp] theorem tracker_setEvm (n : Node) (c : ChannelId) (st : Evm.State) :
    (n.setEvm c st).tracker = n.tracker := rfl

@[simp] theorem tracker_broadcastEvent (n : Node) (now : UInt64) (sent : Except DataError Unit)
    (network : Except Kaspa.KaspaError Kaspa.Network) (c : ChannelId) (event : ChainEvent) :
    (n.broadcastEvent cfg now sent network c event).tracker = n.tracker := by
  unfold broadcastEvent
  split_ifs <;> rfl

@[simp] theorem tracker_pollEvm (n : Node) (now : UInt64) (c : ChannelId) (rpc : Evm.Rpc RpcLog) :
    (n.pollEvm cfg now c rpc).tracker = n.tracker := by
  unfold pollEvm
  split_ifs
  · rfl
  · split <;> rfl

@[simp] theorem tracker_pollKaspa (n : Node) (now : UInt64) :
    (n.pollKaspa cfg now).tracker = n.tracker := by
  unfold pollKaspa
  split_ifs
  · rfl
  · split <;> rfl

@[simp] theorem tracker_onScriptAnnounce (n : Node) (now : UInt64) (s : ScriptAnnounce) :
    (n.onScriptAnnounce cfg now s).tracker = n.tracker := by
  unfold onScriptAnnounce
  split_ifs
  · rfl
  · split <;> rfl
  · split <;> rfl

def polled (n : Node) (c : CommitmentV1) : Prop := ∃ source, (source, .commitment c) ∈ n.events

private theorem onReveal_move (n : Node) (r : RevealV1) :
    TrackerMove cfg.handler.sha256 n.polled n.tracker (n.onReveal cfg r).tracker := by
  unfold onReveal
  split
  · exact .same
  · cases hr : cfg.handler.handleExternalReveal n.tracker r with
    | error e => exact .same
    | ok t => exact Handler.handleExternalReveal_move hr

private theorem applyEvent_move (n : Node) (moment : Moment) :
    TrackerMove cfg.handler.sha256 n.polled n.tracker (n.applyEvent cfg moment).tracker := by
  unfold applyEvent
  split_ifs
  · exact .same
  · split
    · exact .same
    · rename_i source event events hevents
      have hmove : TrackerMove cfg.handler.sha256 n.polled n.tracker
          (cfg.handler.handle n.tracker source event moment).2 := by
        refine Handler.onChainEvent_move (h := cfg.handler.priced moment.pricing) source event
          moment.clock ?_
        rintro c rfl
        exact ⟨source, by rw [hevents]; exact List.mem_cons_self⟩
      split
      · rename_i e t ht
        rwa [ht] at hmove
      · rename_i effects t ht
        rwa [ht] at hmove

theorem step_move (cfg : NodeConfig RpcLog) (n : Node) (now : UInt64) (i : NodeInput RpcLog) :
    TrackerMove cfg.handler.sha256 n.polled n.tracker (n.step cfg now i).tracker ∨
      i = .cleanup ∧
        (n.step cfg now i).tracker = n.tracker.cleanupOldSwaps now resolvedMaxAgeSecs := by
  cases i with
  | cleanup => exact .inr ⟨rfl, rfl⟩
  | gossipReveal r => exact .inl (n.onReveal_move r)
  | applyEvent moment => exact .inl (n.applyEvent_move moment)
  | gossipScript s =>
    left
    rw [step, tracker_onScriptAnnounce]
    exact .same
  | pollEvm c rpc =>
    left
    rw [step, tracker_pollEvm]
    exact .same
  | pollKaspa =>
    left
    rw [step, tracker_pollKaspa]
    exact .same
  | broadcast i sent network =>
    left
    simp only [step]
    split
    · exact .same
    · rw [tracker_broadcastEvent]
      exact .same
  | receiveBlock b => exact .inl .same
  | settledEvm c k => exact .inl .same
  | failedEvm c k => exact .inl .same
  | failedKaspa k => exact .inl .same

end Node
end Stroemnet
