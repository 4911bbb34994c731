import Stroemnet.GuardedRuns
import Stroemnet.NodeRestart
import Stroemnet.TimelockMargin
import Stroemnet.TrackerMoves

/-! # How often a swap is answered

A commitment that is addressed to this node is answered by a counter commitment. Nothing is
written down when the answer is given: the record stays open until the answer comes back from
the other chain, and until then every further commitment of the swap is answered again. -/
namespace Stroemnet

/-- An event as it is delivered, with what it finds. -/
structure Delivery where
  source : ChannelId
  event : ChainEvent
  moment : Moment

/-- What happens to the tracker of a node. -/
inductive MemoryInput
  | deliver (d : Delivery)
  | gossipReveal (r : RevealV1)
  | cleanup (now maxAgeSecs : UInt64)
  | restart

/-- What a node knows of its swaps, and the swaps that were made to it and of which it has dropped
the record. Nothing in a node keeps the latter. -/
structure Memory where
  tracker : SwapTracker
  forgotten : SwapId → Prop

namespace Handler

variable {h : Handler} {t : SwapTracker} {id : SwapId}

def deliver (h : Handler) (t : SwapTracker) (d : Delivery) : SwapTracker :=
  (h.handle t d.source d.event d.moment).2

/-- The effects of a delivery; an event that is refused has none. -/
def effects (h : Handler) (t : SwapTracker) (d : Delivery) : List Effect :=
  match (h.handle t d.source d.event d.moment).1 with
  | .ok effects => effects
  | .error _ => []

/-- The broadcast of a counter commitment of a swap. -/
def answers (id : SwapId) : Effect → Bool
  | .broadcast _ (.commitment c) => c.swapId = id
  | _ => false

/-- The first commitment of a record was made to this node. -/
def Addressed (h : Handler) (init : CommitmentV1) : Prop :=
  ∃ source ours, ChannelId.ofByte init.source = some source ∧
    h.addressLookupTable source = some ours ∧
    normalisedAddressEq source init.addresses.receiver ours

/-- A record that waits for its counter commitment. -/
def Waiting (r : SwapRecord) : Prop := r.counterCommitment = none ∧ r.resolution = none

end Handler

namespace Memory

/-- The memory of a node that has just been set up. -/
def empty : Memory := ⟨fun _ => none, fun _ => False⟩

/-- The tracker becomes another one; the swaps made to this node that it drops are forgotten. -/
def become (h : Handler) (m : Memory) (t : SwapTracker) : Memory where
  tracker := t
  forgotten id := m.forgotten id ∨
    ∃ r, m.tracker id = some r ∧ h.Addressed r.initCommitment ∧ t id = none

def step (h : Handler) (m : Memory) : MemoryInput → Memory
  | .deliver d => m.become h (h.deliver m.tracker d)
  | .gossipReveal r =>
    match h.handleExternalReveal m.tracker r with
    | .ok t => m.become h t
    | .error _ => m
  | .cleanup now maxAgeSecs => m.become h (m.tracker.cleanupOldSwaps now maxAgeSecs)
  | .restart => m.become h fun _ => none

def effects (h : Handler) (m : Memory) : MemoryInput → List Effect
  | .deliver d => h.effects m.tracker d
  | .gossipReveal _ | .cleanup _ _ | .restart => []

/-- The steps that keep a swap answered once at most: a commitment of a waiting swap that was made
to this node is the counter commitment itself, and a commitment of a forgotten swap is not made to
this node again. -/
def Fresh (h : Handler) (m : Memory) : MemoryInput → Prop
  | .deliver d => ∀ c, d.event = .commitment c →
      (∀ r, m.tracker c.swapId = some r → Handler.Waiting r → h.Addressed r.initCommitment →
        SwapTracker.Mirrors r.initCommitment c ∧ r.initCommitment.source ≠ c.source) ∧
      (m.tracker c.swapId = none → m.forgotten c.swapId → ¬ h.Addressed c)
  | _ => True

end Memory

namespace Handler

variable {h : Handler} {t : SwapTracker} {id : SwapId}

theorem handleInternalCommitment_eq_ok {c k : CommitmentV1} {channel : ChannelId}
    {clock : ChainClock} (hok : h.handleInternalCommitment t c channel clock = .ok k) :
    ∃ r, t c.swapId = some r ∧ Waiting r ∧ h.Addressed r.initCommitment ∧
      ∃ source, ChannelId.ofByte r.initCommitment.source = some source ∧
        ChannelId.ofByte r.initCommitment.destination = some channel ∧
        h.buildCounterCommitment c.swapId r.initCommitment source channel clock = .ok k := by
  unfold handleInternalCommitment at hok
  simp only [bind_eq_ok, guard_eq_ok, okOr_eq_ok, tryFrom_eq_ok] at hok
  obtain ⟨r, hr, hopen, source, hsource, destination, hdest, hchannel, ours, hours, haddress,
    hbuild⟩ := hok
  rw [not_or, Option.not_isSome_iff_eq_none, Option.not_isSome_iff_eq_none] at hopen
  obtain rfl := not_not.mp hchannel
  exact ⟨r, hr, hopen, ⟨source, ours, hsource, hours, not_not.mp haddress⟩, source, hsource, hdest,
    hbuild⟩

private theorem swapId_buildCounterCommitment {init c : CommitmentV1}
    {source destination : ChannelId}
    {clock : ChainClock}
    (hok : h.buildCounterCommitment id init source destination clock = .ok c) : c.swapId = id := by
  obtain ⟨amountOut, sourceNow, destNow, mmDestination, mmSource, -, -, -, -, -, -, rfl⟩ :=
    buildCounterCommitment_eq_ok.mp hok
  rfl

/-- A counter commitment among the effects was built for the channel that it is broadcast to. -/
theorem buildCounterCommitment_of_effects {source channel : ChannelId} {event : ChainEvent}
    {moment : Moment} {effects : List Effect} {k : CommitmentV1}
    (hok : (h.handle t source event moment).1 = .ok effects)
    (hk : .broadcast channel (.commitment k) ∈ effects) :
    ∃ id init origin, (h.priced moment.pricing).buildCounterCommitment id init origin channel
      moment.clock = .ok k := by
  cases event with
  | commitment c =>
    simp only [handle, onChainEvent] at hok
    split at hok
    · cases hok
    · obtain ⟨destination, -, heffects⟩ := bind_eq_ok.mp hok
      split_ifs at heffects
      · cases heffects
        simp at hk
      · split at heffects
        · rename_i counter hcounter
          cases heffects
          obtain ⟨r, -, -, -, origin, -, -, hbuild⟩ := handleInternalCommitment_eq_ok hcounter
          obtain ⟨rfl, rfl⟩ : channel = destination ∧ k = counter := by simpa using hk
          exact ⟨c.swapId, r.initCommitment, origin, hbuild⟩
        · cases heffects
          simp at hk
  | reveal r =>
    simp only [handle, onChainEvent] at hok
    split at hok
    · cases hok
    · obtain ⟨counterparty, -, heffects⟩ := bind_eq_ok.mp hok
      split at heffects
      · cases heffects
        cases hk
      · obtain ⟨c, -, heffects⟩ := bind_eq_ok.mp heffects
        split at heffects
        · cases heffects
          cases hk
        · split_ifs at heffects <;> cases heffects <;> simp at hk
  | refund r =>
    simp only [handle, onChainEvent] at hok
    split at hok <;> cases hok
    cases hk

/-- An answer is given for a commitment of a waiting swap that was made to this node, and only
one. -/
theorem commitmentEffects_answers (id : SwapId) {source : ChannelId} {c : CommitmentV1}
    {clock : ChainClock} {effects : List Effect}
    (hok : h.commitmentEffects t source c clock = .ok effects) :
    effects.countP (answers id) = 0 ∨
      effects.countP (answers id) = 1 ∧ c.swapId = id ∧
        ∃ r, t id = some r ∧ Waiting r ∧ h.Addressed r.initCommitment := by
  unfold commitmentEffects at hok
  obtain ⟨destination, -, hok⟩ := bind_eq_ok.mp hok
  split_ifs at hok
  · cases hok
    exact .inl rfl
  · split at hok
    · rename_i k hk
      cases hok
      obtain ⟨r, hr, hwaiting, haddressed, s, -, -, hbuild⟩ := handleInternalCommitment_eq_ok hk
      have hid := swapId_buildCounterCommitment hbuild
      by_cases heq : c.swapId = id
      · subst heq
        exact .inr ⟨by simp [answers, hid], rfl, r, hr, hwaiting, haddressed⟩
      · exact .inl (by simp [answers, hid, heq])
    · cases hok
      exact .inl rfl

private theorem revealEffects_answers {source : ChannelId} {r : RevealV1} {effects : List Effect}
    (hok : h.revealEffects t source r = .ok effects) : effects.countP (answers id) = 0 := by
  unfold revealEffects at hok
  obtain ⟨counterparty, -, hok⟩ := bind_eq_ok.mp hok
  split at hok
  · cases hok
    rfl
  · obtain ⟨c, -, hok⟩ := bind_eq_ok.mp hok
    split at hok
    · cases hok
      rfl
    · split_ifs at hok <;> cases hok <;> rfl

/-- After a commitment of a swap that was not refused, the swap has a record; where it waits, it is
new, or was there before and has not changed. -/
theorem handleExternalCommitment_waiting {c : CommitmentV1} {now : UInt64} {t' : SwapTracker}
    (hok : handleExternalCommitment t c now = .ok t') {r' : SwapRecord}
    (hr' : t' c.swapId = some r') (hwaiting : Waiting r') :
    t c.swapId = none ∧ r'.initCommitment = c ∨ t c.swapId = some r' ∧
      ¬ (SwapTracker.Mirrors r'.initCommitment c ∧ r'.initCommitment.source ≠ c.source) := by
  unfold handleExternalCommitment at hok
  split at hok
  · rename_i hnone
    obtain ⟨-, rfl⟩ := SwapTracker.setInitCommitment_eq_ok.mp (lift_eq_ok.mp hok)
    rw [SwapTracker.insert_self, Option.some.injEq] at hr'
    exact .inl ⟨hnone, hr' ▸ rfl⟩
  · rename_i r hr
    split_ifs at hok with hknown
    · cases hok
      rw [hr, Option.some.injEq] at hr'
      subst hr'
      refine .inr ⟨hr, ?_⟩
      rintro ⟨-, hsource⟩
      rcases hknown with hinit | hcounter | hsame
      · exact hsource (by rw [hinit])
      · rw [hwaiting.1] at hcounter
        cases hcounter
      · exact hsource hsame
    · obtain ⟨r₀, hr₀, hcounter, hres, hmirror, rfl⟩ :=
        SwapTracker.setCounterCommitment_eq_ok.mp (lift_eq_ok.mp hok)
      rw [SwapTracker.insert_self, Option.some.injEq] at hr'
      subst hr'
      cases hwaiting.1

/-- A commitment is answered, if at all, when it is delivered: the first one of a swap, or one that
finds a waiting record and does not complete it. -/
theorem effects_answers (id : SwapId) (d : Delivery) :
    (h.effects t d).countP (answers id) = 0 ∨
      (h.effects t d).countP (answers id) = 1 ∧ ∃ c r, d.event = .commitment c ∧ c.swapId = id ∧
        h.Addressed r.initCommitment ∧
        (t id = none ∧ h.deliver t d id = some r ∧ r.initCommitment = c ∨
          t id = some r ∧ Waiting r ∧
            ¬ (SwapTracker.Mirrors r.initCommitment c ∧ r.initCommitment.source ≠ c.source)) := by
  obtain ⟨source, event, moment⟩ := d
  cases event with
  | commitment c =>
    simp only [effects, deliver, handle, onChainEvent]
    cases hext : handleExternalCommitment t c moment.clock.systemNow with
    | error e => exact .inl rfl
    | ok t' =>
      simp only
      split
      · rename_i effects heffects
        refine (commitmentEffects_answers id heffects).imp_right ?_
        rintro ⟨hone, rfl, r, hr, hwaiting, haddr⟩
        refine ⟨hone, c, r, rfl, rfl, haddr, ?_⟩
        rcases handleExternalCommitment_waiting hext hr hwaiting with ⟨hnone, hinit⟩ | ⟨hold, hno⟩
        · exact .inl ⟨hnone, hr, hinit⟩
        · exact .inr ⟨hold, hwaiting, hno⟩
      · exact .inl rfl
  | reveal r =>
    left
    simp only [effects, handle, onChainEvent]
    cases (h.priced moment.pricing).handleExternalReveal t r with
    | error e => rfl
    | ok t' =>
      simp only
      split
      · rename_i effects heffects
        exact revealEffects_answers heffects
      · rfl
  | refund r =>
    left
    simp only [effects, handle, onChainEvent]
    cases handleExternalRefund t r with
    | error e => rfl
    | ok t' => rfl

end Handler

namespace Memory
open Handler

variable {h : Handler} {m : Memory} {id : SwapId}

/-- A swap was made to this node. -/
def Made (h : Handler) (id : SwapId) (m : Memory) : Prop :=
  m.forgotten id ∨ ∃ r, m.tracker id = some r ∧ h.Addressed r.initCommitment

open scoped Classical in
/-- A swap that was never made to this node can be answered once. -/
noncomputable def credit (h : Handler) (id : SwapId) (m : Memory) : ℕ :=
  if m.Made h id then 0 else 1

/-- A swap that was made to this node stays so, as long as records keep their first commitment. -/
theorem Made.become {t : SwapTracker} (hmade : m.Made h id)
    (hkeeps : ∀ r r', m.tracker id = some r → t id = some r' →
      r'.initCommitment = r.initCommitment) : (m.become h t).Made h id := by
  rcases hmade with hforgotten | ⟨r, hr, haddr⟩
  · exact .inl (.inl hforgotten)
  · cases ht : t id with
    | none => exact .inl (.inr ⟨r, hr, haddr, ht⟩)
    | some r' => exact .inr ⟨r', ht, hkeeps r r' hr ht ▸ haddr⟩

theorem credit_become {t : SwapTracker}
    (hkeeps : ∀ r r', m.tracker id = some r → t id = some r' →
      r'.initCommitment = r.initCommitment) :
    (m.become h t).credit h id ≤ m.credit h id := by
  unfold credit
  split_ifs with hafter hbefore hbefore
  · exact Nat.le_refl 0
  · exact Nat.zero_le 1
  · exact absurd (hbefore.become hkeeps) hafter
  · exact Nat.le_refl 1

theorem same_init {polled : CommitmentV1 → Prop} {t t' : SwapTracker}
    (hmove : TrackerMove h.sha256 polled t t') {r r' : SwapRecord} (hr : t id = some r)
    (hr' : t' id = some r') : r'.initCommitment = r.initCommitment := by
  obtain ⟨r'', hr'', hinit⟩ := hmove.keeps_init hr
  rw [hr', Option.some.injEq] at hr''
  exact hr'' ▸ hinit

private theorem deliver_credit {d : Delivery} (hfresh : m.Fresh h (.deliver d)) :
    (h.effects m.tracker d).countP (answers id) +
      (m.become h (h.deliver m.tracker d)).credit h id ≤ m.credit h id := by
  have hmove : TrackerMove h.sha256 (fun _ => True) m.tracker (h.deliver m.tracker d) :=
    onChainEvent_move (h := h.priced d.moment.pricing) d.source d.event d.moment.clock
      fun _ _ => trivial
  have hcredit : (m.become h (h.deliver m.tracker d)).credit h id ≤ m.credit h id :=
    credit_become fun r r' => same_init hmove
  rcases effects_answers (h := h) (t := m.tracker) id d with hzero |
    ⟨hone, c, r, hc, rfl, haddr, ⟨hnone, hafter, hinit⟩ | ⟨hr, hwaiting, hno⟩⟩
  · omega
  · have hnew : ¬ m.Made h c.swapId := by
      rintro (hforgotten | ⟨r', hr', -⟩)
      · exact (hfresh c hc).2 hnone hforgotten (hinit ▸ haddr)
      · rw [hnone] at hr'
        cases hr'
    have hmade : (m.become h (h.deliver m.tracker d)).Made h c.swapId := .inr ⟨r, hafter, haddr⟩
    rw [hone, credit, credit, if_neg hnew, if_pos hmade]
  · exact absurd ((hfresh c hc).1 r hr hwaiting haddr) hno

private theorem step_credit {i : MemoryInput} (hfresh : m.Fresh h i) :
    (m.effects h i).countP (answers id) + (m.step h i).credit h id ≤ m.credit h id := by
  cases i with
  | deliver d => exact deliver_credit hfresh
  | gossipReveal r =>
    rw [effects, List.countP_nil, Nat.zero_add]
    simp only [step]
    split
    · rename_i t ht
      have hmove : TrackerMove h.sha256 (fun _ => True) m.tracker t :=
        handleExternalReveal_move ht
      exact credit_become fun r r' => same_init hmove
    · exact Nat.le_refl _
  | cleanup now maxAgeSecs =>
    rw [effects, List.countP_nil, Nat.zero_add]
    refine credit_become fun r r' hr hr' => ?_
    obtain ⟨hold, -⟩ := Option.filter_eq_some_iff.mp hr'
    rw [hr, Option.some.injEq] at hold
    rw [hold]
  | restart =>
    rw [effects, List.countP_nil, Nat.zero_add]
    exact credit_become nofun

theorem credit_empty : empty.credit h id = 1 := by
  rw [credit, if_neg]
  rintro (hforgotten | ⟨r, hr, -⟩)
  · exact hforgotten
  · cases hr

end Memory

namespace Handler

/-- Over every sequence of events, reveals from peers, clean-ups and restarts: as long as no
commitment of a waiting swap made to this node arrives but the counter commitment itself, and no
swap is made to this node again whose record it has dropped, every swap is answered once at most. -/
theorem at_most_one_answer (h : Handler) (inputs : List MemoryInput)
    (hfresh : Runs.Along (Memory.step h) (Memory.Fresh h) .empty inputs) (id : SwapId) :
    (Runs.outputs (Memory.step h) (Memory.effects h) .empty inputs).countP (answers id) ≤ 1 := by
  have hle := hfresh.countP_outputs_le (Memory.credit h id) (fun _ => 0)
    fun _ _ hi => Memory.step_credit hi
  simpa [Memory.credit_empty] using hle

/-- What the sample provider finds. -/
def marginMoment : Moment := ⟨marginClock 2000, marginHandler.pricing⟩

/-- The answer to the sample commitment. -/
def marginCounter : CommitmentV1 :=
  counterOf (.filled 3) marginInit .kaspaTn10 .ethereumSepolia 1000 2000 "0xLp" "kaspatest:lp"

def deliverInit : MemoryInput := .deliver ⟨.kaspaTn10, .commitment marginInit, marginMoment⟩

def deliverCounter : MemoryInput :=
  .deliver ⟨.ethereumSepolia, .commitment marginCounter, marginMoment⟩

/-- The same commitment is answered twice: delivered twice in a row, as by two outputs of one
transaction, or delivered once more a day after the swap was refunded. -/
theorem repeated_commitment_answered_twice :
    (Runs.outputs (Memory.step marginHandler) (Memory.effects marginHandler) .empty
      [deliverInit, deliverInit]).countP (answers (.filled 3)) = 2 ∧
    (Runs.outputs (Memory.step marginHandler) (Memory.effects marginHandler) .empty
      [deliverInit, deliverCounter, .deliver ⟨.kaspaTn10, .refund ⟨.filled 3⟩, marginMoment⟩,
        .cleanup 87400 86400, deliverInit]).countP (answers (.filled 3)) = 2 := by
  decide +kernel

/-- The answer comes back before the commitment is seen again, and the record is kept. -/
def orderlyInputs : List MemoryInput :=
  [deliverInit, deliverCounter, .gossipReveal ⟨.filled 3, .filled 7⟩, .cleanup 1000 86400,
    deliverInit]

theorem at_most_one_answer_sample :
    (Runs.outputs (Memory.step marginHandler) (Memory.effects marginHandler) .empty
      orderlyInputs).countP (answers (.filled 3)) ≤ 1 := by
  refine at_most_one_answer marginHandler orderlyInputs ⟨?_, ?_, trivial, trivial, ?_, trivial⟩
    (.filled 3)
  · rintro c hc
    cases hc
    exact ⟨nofun, fun _ hforgotten => hforgotten.elim⟩
  · rintro c hc
    cases hc
    refine ⟨?_, nofun⟩
    rintro r hr - -
    cases hr
    exact ⟨⟨rfl, rfl, rfl, rfl, rfl, rfl⟩, by decide⟩
  · rintro c hc
    cases hc
    refine ⟨?_, nofun⟩
    rintro r hr hwaiting -
    cases hr
    cases hwaiting.1

end Handler

namespace Node
open Handler

variable {RpcLog : Type} {cfg : NodeConfig RpcLog} {n : Node} {m : Memory} {id : SwapId}

/-- What happens to the tracker in a step of a node's life. -/
def memoryInputs (cfg : NodeConfig RpcLog) (n : Node) : LifeInput RpcLog → List MemoryInput
  | .step _ (.gossipReveal r) =>
    if (n.seen.insert (cfg.digest (.reveal r))).1 then [.gossipReveal r] else []
  | .step _ (.applyEvent moment) =>
    if n.halted then []
    else
      match n.events with
      | [] => []
      | (source, event) :: _ => [.deliver ⟨source, event, moment⟩]
  | .step now .cleanup => [.cleanup now resolvedMaxAgeSecs]
  | .step _ _ => []
  | .restart _ => [.restart]

/-- What a step adds to the outbox. -/
def asks (cfg : NodeConfig RpcLog) (n : Node) (i : LifeInput RpcLog) :
    List (ChannelId × ChainEvent) :=
  (n.live cfg i).outbox.drop n.outbox.length

def answersTo (id : SwapId) : ChannelId × ChainEvent → Bool
  | (_, .commitment c) => c.swapId = id
  | _ => false

theorem countP_broadcasts (effects : List Effect) :
    (Effect.broadcasts effects).countP (answersTo id) = effects.countP (answers id) := by
  induction effects with
  | nil => rfl
  | cons e effects ih =>
    cases e with
    | transmitReveal c => simpa [Effect.broadcasts, answers] using ih
    | broadcast c event =>
      cases event <;> simp [Effect.broadcasts, List.countP_cons, ih, answers, answersTo]

/-- A step is a run of the memory that moves it to the tracker of the next state, and the node asks
for the answers of that run. -/
def Recalled (cfg : NodeConfig RpcLog) (n : Node) (m : Memory) (id : SwapId)
    (i : LifeInput RpcLog) : Prop :=
  (Runs.final (Memory.step cfg.handler) m (n.memoryInputs cfg i)).tracker = (n.live cfg i).tracker ∧
    (n.asks cfg i).countP (answersTo id) = (Runs.outputs (Memory.step cfg.handler)
      (Memory.effects cfg.handler) m (n.memoryInputs cfg i)).countP (answers id)

/-- The tracker is left alone, and nothing is asked for. -/
private theorem recalled_of_quiet {i : LifeInput RpcLog} (hm : m.tracker = n.tracker)
    (hins : n.memoryInputs cfg i = []) (htracker : (n.live cfg i).tracker = n.tracker)
    (houtbox : (n.live cfg i).outbox.length ≤ n.outbox.length) : Recalled cfg n m id i := by
  unfold Recalled asks
  rw [hins, htracker, List.drop_eq_nil_of_le houtbox]
  exact ⟨hm, rfl⟩

private theorem recalled_gossipReveal (hm : m.tracker = n.tracker) (now : UInt64) (r : RevealV1) :
    Recalled cfg n m id (.step now (.gossipReveal r)) := by
  cases hseen : n.seen.insert (cfg.digest (.reveal r)) with
  | mk fresh seen =>
    cases fresh with
    | false =>
      have hsame : n.onReveal cfg r = n := by rw [onReveal, hseen]
      refine recalled_of_quiet hm ?_ ?_ ?_
      · simp [memoryInputs, hseen]
      · rw [live, step, hsame]
      · rw [live, step, hsame]
    | true =>
      have hins : n.memoryInputs cfg (.step now (.gossipReveal r)) = [.gossipReveal r] := by
        simp [memoryInputs, hseen]
      have hasks : (n.asks cfg (.step now (.gossipReveal r))).countP (answersTo id) = 0 := by
        simp only [asks, live, step, onReveal, hseen, List.drop_left]
        rw [List.countP_map, List.countP_eq_zero]
        exact fun _ _ => Bool.false_ne_true
      unfold Recalled
      rw [hins, hasks]
      refine ⟨?_, rfl⟩
      simp only [Runs.final_cons, Runs.final_nil, Memory.step, live, step, onReveal, hseen, hm]
      cases cfg.handler.handleExternalReveal n.tracker r with
      | error e => exact hm
      | ok t => rfl

private theorem recalled_applyEvent (hm : m.tracker = n.tracker) (now : UInt64)
    (moment : Moment) : Recalled cfg n m id (.step now (.applyEvent moment)) := by
  by_cases hhalted : n.halted
  · have hsame : n.applyEvent cfg moment = n := by rw [applyEvent, if_pos hhalted]
    refine recalled_of_quiet hm ?_ ?_ ?_
    · rw [memoryInputs, if_pos hhalted]
    · rw [live, step, hsame]
    · rw [live, step, hsame]
  cases hevents : n.events with
  | nil =>
    have hsame : n.applyEvent cfg moment = n := by rw [applyEvent, if_neg hhalted, hevents]
    refine recalled_of_quiet hm ?_ ?_ ?_
    · rw [memoryInputs, if_neg hhalted, hevents]
    · rw [live, step, hsame]
    · rw [live, step, hsame]
  | cons next events =>
    obtain ⟨source, event⟩ := next
    unfold Recalled asks
    rw [memoryInputs, if_neg hhalted, hevents]
    simp only [live, step, applyEvent, hevents, if_neg hhalted, Runs.final_cons, Runs.final_nil,
      Runs.outputs, Memory.step, Memory.become, Memory.effects, Handler.deliver, Handler.effects,
      List.append_nil, hm]
    cases hok : cfg.handler.handle n.tracker source event moment with
    | mk result t =>
      cases result with
      | error e => simp
      | ok effects => simp [countP_broadcasts]

theorem recalled (hm : m.tracker = n.tracker) (i : LifeInput RpcLog) :
    Recalled cfg n m id i := by
  cases i with
  | restart boot => exact ⟨rfl, congrArg _ List.drop_nil⟩
  | step now i =>
    cases i with
    | gossipReveal r => exact recalled_gossipReveal hm now r
    | applyEvent moment => exact recalled_applyEvent hm now moment
    | cleanup =>
      refine ⟨congrArg (fun t : SwapTracker => t.cleanupOldSwaps now resolvedMaxAgeSecs) hm, ?_⟩
      exact congrArg _ (List.drop_length)
    | gossipScript s =>
      obtain ⟨seen, kaspa, heq⟩ := onScriptAnnounce_eq cfg now s n
      exact recalled_of_quiet hm rfl (by rw [live, step, heq]) (by rw [live, step, heq])
    | pollEvm c rpc =>
      exact recalled_of_quiet hm rfl (tracker_pollEvm n now c rpc)
        (outbox_pollEvm cfg now c rpc n ▸ Nat.le_refl _)
    | pollKaspa =>
      exact recalled_of_quiet hm rfl (tracker_pollKaspa n now)
        (outbox_pollKaspa cfg now n ▸ Nat.le_refl _)
    | broadcast j sent network =>
      cases hnext : n.outbox[j]? with
      | none =>
        have hsame : n.step cfg now (.broadcast j sent network) = n := by
          simp only [step, hnext]
        exact recalled_of_quiet hm rfl (by rw [live, hsame]) (by rw [live, hsame])
      | some next =>
        obtain ⟨c, event⟩ := next
        obtain ⟨evm, kaspa, heq⟩ := broadcastEvent_eq cfg now sent network c event
          { n with outbox := n.outbox.eraseIdx j }
        have hstep : n.step cfg now (.broadcast j sent network) =
            { n with outbox := n.outbox.eraseIdx j, evm := evm, kaspa := kaspa } := by
          simp only [step, hnext, heq]
        refine recalled_of_quiet hm rfl (by rw [live, hstep]) ?_
        rw [live, hstep]
        exact (List.eraseIdx_sublist n.outbox j).length_le
    | receiveBlock b => exact recalled_of_quiet hm rfl rfl (Nat.le_refl _)
    | settledEvm c k => exact recalled_of_quiet hm rfl rfl (Nat.le_refl _)
    | failedEvm c k => exact recalled_of_quiet hm rfl rfl (Nat.le_refl _)
    | failedKaspa k => exact recalled_of_quiet hm rfl rfl (Nat.le_refl _)

/-- Over the lives of a node, whose inputs its tracker meets as the memory does, a swap is answered
once at most. -/
theorem at_most_one_asked (cursor : ChannelId → UInt64) (cap : ℕ)
    (inputs : List (LifeInput RpcLog)) (id : SwapId)
    (hfresh : Runs.Along (Memory.step cfg.handler) (Memory.Fresh cfg.handler) .empty
      (Runs.outputs (live cfg) (memoryInputs cfg) (Node.start cursor cap) inputs)) :
    (Runs.outputs (live cfg) (asks cfg) (Node.start cursor cap) inputs).countP (answersTo id) ≤
      1 := by
  have hsim : (Runs.outputs (live cfg) (asks cfg) (Node.start cursor cap) inputs).countP
        (answersTo id) =
      (Runs.outputs (Memory.step cfg.handler) (Memory.effects cfg.handler) .empty
        (Runs.outputs (live cfg) (memoryInputs cfg) (Node.start cursor cap) inputs)).countP
          (answers id) := by
    refine Runs.countP_outputs_simulated
      (R := fun (n : Node) (m : Memory) => m.tracker = n.tracker) ?_ rfl inputs
    intro n m i hm
    exact recalled hm i
  have hle := hfresh.countP_outputs_le (Memory.credit cfg.handler id) (fun _ => 0)
    fun _ _ hi => Memory.step_credit hi
  rw [hsim]
  simpa [Memory.credit_empty] using hle

end Node
end Stroemnet
