import Stroemnet.CounterRecognition
import Stroemnet.TakerReveals
import Stroemnet.TrackerLifecycle

/-! # The order of deliveries

Channels are polled on their own, and gossip comes at any time. An event that the tracker
refuses is not tried again, so the order in which the events of the two legs of a swap are
applied decides whether the swap is completed. -/
namespace Stroemnet

/-- A swap with its two commitments, on `chan true` and `chan false`, and the reveal of its
secret on the latter. -/
structure TwoLegs (RpcLog : Type) where
  cfg : NodeConfig RpcLog
  chan : Bool → ChannelId
  commit : Bool → CommitmentV1
  reveal : RevealV1
  ne : chan true ≠ chan false
  source : ∀ l, (commit l).source = (chan l).toByte
  mirrors : SwapTracker.Mirrors (commit true) (commit false)
  reveal_id : reveal.swapId = (commit true).swapId
  reveal_secret : cfg.handler.sha256 reveal.secret.data = (commit true).secretHash
  configured : chan true ∈ cfg.channels
  evm_ccr : (chan true).isEvm → (cfg.evm (chan true)).participateCcr
  kaspa_ccr : ¬ (chan true).isEvm → cfg.kaspa.participateCcr

theorem SwapTracker.Mirrors.symm {a b : CommitmentV1} (h : SwapTracker.Mirrors a b) :
    SwapTracker.Mirrors b a :=
  ⟨h.swapId.symm, h.senderDestination.symm, h.receiver.symm, h.secretHash.symm,
    h.destination.symm, h.source.symm⟩

namespace TwoLegs

variable {RpcLog : Type} (L : TwoLegs RpcLog)

def id : SwapId := L.reveal.swapId

def event (l : Bool) : ChannelId × ChainEvent := (L.chan l, .commitment (L.commit l))

def claim : ChannelId × ChainEvent := (L.chan false, .reveal L.reveal)

def text : String := (Resolution.revealed L.reveal.secret).text

theorem commit_id (l : Bool) : (L.commit l).swapId = L.id := by
  cases l with
  | true => exact L.reveal_id.symm
  | false => exact L.mirrors.swapId.symm.trans L.reveal_id.symm

theorem commit_mirrors (l : Bool) : SwapTracker.Mirrors (L.commit !l) (L.commit l) := by
  cases l with
  | true => exact L.mirrors.symm
  | false => exact L.mirrors

theorem commit_source_ne (l : Bool) : (L.commit !l).source ≠ (L.commit l).source := by
  rw [L.source, L.source]
  intro h
  have hchan := ChannelId.toByte_injective h
  cases l with
  | true => exact L.ne hchan.symm
  | false => exact L.ne hchan

theorem commit_secretHash (l : Bool) :
    L.cfg.handler.sha256 L.reveal.secret.data = (L.commit l).secretHash := by
  cases l with
  | true => exact L.reveal_secret
  | false => exact L.reveal_secret.trans L.mirrors.secretHash

private theorem event_injective {l l' : Bool} (h : L.event l = L.event l') : l = l' := by
  have hchan : L.chan l = L.chan l' := congrArg Prod.fst h
  cases l <;> cases l'
  · rfl
  · exact absurd hchan.symm L.ne
  · exact absurd hchan L.ne
  · rfl

/-- The record of the swap after a list of applied events; `resolved` says whether the reveal
was among them when both commitments were. -/
structure Tracks (applied : List (ChannelId × ChainEvent)) (resolved : Prop)
    (r : Option SwapRecord) : Prop where
  unknown : (∀ l, L.event l ∉ applied) → r = none
  initialized : ∀ l, L.event l ∈ applied → L.event (!l) ∉ applied →
    ∃ now, r = some ⟨L.commit l, none, none, now⟩
  locked : (∀ l, L.event l ∈ applied) → ∃ l now res,
    r = some ⟨L.commit l, some (L.commit !l), res, now⟩ ∧ (resolved → res = some L.text) ∧
      (¬ resolved → res = none)
  resolved_locked : resolved → ∀ l, L.event l ∈ applied

variable {L} {applied : List (ChannelId × ChainEvent)} {resolved : Prop} {t : SwapTracker}

private theorem both_of {l : Bool} (h : L.event l ∈ applied) (h' : L.event (!l) ∈ applied) :
    ∀ l, L.event l ∈ applied := by
  intro l'
  rcases Bool.eq_or_eq_not l' l with rfl | rfl
  · exact h
  · exact h'

theorem Tracks.congr {applied' : List (ChannelId × ChainEvent)} {r : Option SwapRecord}
    (h : L.Tracks applied resolved r)
    (hiff : ∀ l, L.event l ∈ applied' ↔ L.event l ∈ applied) : L.Tracks applied' resolved r := by
  refine ⟨fun hno => h.unknown fun l => ?_, fun l hl hno => h.initialized l ?_ ?_,
    fun hall => h.locked fun l => ?_, fun hres l => ?_⟩
  · rw [← hiff]
    exact hno l
  · rw [← hiff]
    exact hl
  · rw [← hiff]
    exact hno
  · rw [← hiff]
    exact hall l
  · rw [hiff]
    exact h.resolved_locked hres l

/-- A commitment that was applied before changes nothing. -/
theorem Tracks.known (h : L.Tracks applied resolved (t L.id)) {l : Bool}
    (hl : L.event l ∈ applied) (now : UInt64) :
    Handler.handleExternalCommitment t (L.commit l) now = .ok t := by
  unfold Handler.handleExternalCommitment
  rw [L.commit_id]
  by_cases hother : L.event (!l) ∈ applied
  · obtain ⟨l', now', res, hr, -⟩ := h.locked (both_of hl hother)
    rw [hr]
    rcases Bool.eq_or_eq_not l l' with rfl | rfl
    · simp
    · simp
  · obtain ⟨now', hr⟩ := h.initialized l hl hother
    rw [hr]
    simp

/-- A commitment that was not applied before opens the record or locks it. -/
theorem Tracks.fresh (h : L.Tracks applied resolved (t L.id)) {l : Bool}
    (hl : L.event l ∉ applied) (now : UInt64) :
    ∃ t', Handler.handleExternalCommitment t (L.commit l) now = .ok t' ∧
      L.Tracks (applied ++ [L.event l]) resolved (t' L.id) := by
  have hunresolved : ¬ resolved := fun hres => hl (h.resolved_locked hres l)
  have hmem : ∀ l', L.event l' ∈ applied ++ [L.event l] ↔ L.event l' ∈ applied ∨ l' = l := by
    intro l'
    rw [List.mem_append, List.mem_singleton]
    exact or_congr_right ⟨L.event_injective, congrArg L.event⟩
  by_cases hother : L.event (!l) ∈ applied
  · obtain ⟨now', hr⟩ := h.initialized (!l) hother (by rwa [Bool.not_not])
    have hr' : t (L.commit l).swapId = some ⟨L.commit !l, none, none, now'⟩ := by
      rw [L.commit_id, hr]
    refine ⟨_, Handler.handleExternalCommitment_mirror hr' ⟨rfl, rfl⟩ (L.commit_mirrors l)
      (L.commit_source_ne l), ?_⟩
    rw [← L.commit_id l, SwapTracker.insert_self]
    refine ⟨fun hno => ?_, fun l' hl' hno => ?_, fun _ => ⟨!l, now', none, ?_, ?_, fun _ => rfl⟩,
      fun hres => absurd hres hunresolved⟩
    · exact absurd ((hmem l).mpr (.inr rfl)) (hno l)
    · rcases Bool.eq_or_eq_not l' l with rfl | rfl
      · exact absurd ((hmem _).mpr (.inl hother)) hno
      · rw [Bool.not_not] at hno
        exact absurd ((hmem l).mpr (.inr rfl)) hno
    · rw [Bool.not_not]
    · exact fun hres => absurd hres hunresolved
  · have hr : t L.id = none := by
      refine h.unknown fun l' => ?_
      rcases Bool.eq_or_eq_not l' l with rfl | rfl
      · exact hl
      · exact hother
    refine ⟨t.insert L.id ⟨L.commit l, none, none, now⟩, ?_, ?_⟩
    · simp only [Handler.handleExternalCommitment, L.commit_id, hr]
      exact Handler.lift_eq_ok.mpr (SwapTracker.setInitCommitment_eq_ok.mpr ⟨hr, rfl⟩)
    · rw [SwapTracker.insert_self]
      refine ⟨fun hno => ?_, fun l' hl' hno => ?_, fun hall => ?_,
        fun hres => absurd hres hunresolved⟩
      · exact absurd ((hmem l).mpr (.inr rfl)) (hno l)
      · rcases (hmem l').mp hl' with hold | rfl
        · rcases Bool.eq_or_eq_not l' l with rfl | rfl
          · exact absurd hold hl
          · exact absurd hold hother
        · exact ⟨now, rfl⟩
      · rcases (hmem (!l)).mp (hall !l) with hold | heq
        · exact absurd hold hother
        · cases l <;> cases heq

theorem Tracks.commitment (h : L.Tracks applied resolved (t L.id)) (l : Bool) (moment : Moment) :
    L.Tracks (applied ++ [L.event l]) resolved
      ((L.cfg.handler.handle t (L.chan l) (.commitment (L.commit l)) moment).2 L.id) := by
  simp only [Handler.handle, Handler.onChainEvent]
  by_cases hl : L.event l ∈ applied
  · rw [h.known hl]
    refine h.congr fun l' => ?_
    rw [List.mem_append, List.mem_singleton]
    exact or_iff_left_of_imp fun heq => heq ▸ hl
  · obtain ⟨t', hok, htracks⟩ := h.fresh hl moment.clock.systemNow
    rw [hok]
    exact htracks

/-- The channels of the record, once it has both commitments and is not resolved. -/
theorem Tracks.open (h : L.Tracks applied resolved (t L.id)) (hall : ∀ l, L.event l ∈ applied)
    (hres : ¬ resolved) : ∃ l rec, t L.id = some rec ∧
      rec.Open (L.commit !l) (L.chan l) (L.chan !l) := by
  obtain ⟨l, now, res, hr, -, hnone⟩ := h.locked hall
  refine ⟨l, _, hr, rfl, hnone hres, L.source l, L.source _, ?_, ?_⟩
  · exact ((L.commit_mirrors l).secretHash).symm
  · intro heq
    apply L.commit_source_ne l
    rw [L.source, L.source, heq]

def afterReveal (h : Handler) (t : SwapTracker) (r : RevealV1) : SwapTracker :=
  match h.handleExternalReveal t r with
  | .ok t' => t'
  | .error _ => t

/-- A reveal resolves the swap exactly when both commitments were applied. -/
theorem Tracks.reveal (h : L.Tracks applied resolved (t L.id)) :
    L.Tracks applied (resolved ∨ ∀ l, L.event l ∈ applied)
      (afterReveal L.cfg.handler t L.reveal L.id) := by
  unfold afterReveal
  cases hok : L.cfg.handler.handleExternalReveal t L.reveal with
  | error e =>
    refine ⟨h.unknown, h.initialized, fun hall => ?_,
      fun hor => hor.elim h.resolved_locked (fun h => h)⟩
    obtain ⟨l, now, res, hr, hsome, -⟩ := h.locked hall
    by_cases hres : resolved
    · exact ⟨l, now, res, hr, fun _ => hsome hres, fun hno => absurd (.inl hres) hno⟩
    · obtain ⟨l', rec, hrec, hopen⟩ := h.open hall hres
      have hok' := ((Handler.handleExternalReveal_open hopen hrec L.reveal).2
        ⟨rfl, L.commit_secretHash _⟩)
      rw [hok] at hok'
      cases hok'
  | ok t' =>
    obtain ⟨rec, counter, hrec, hcounter, hnone, -, rfl⟩ :=
      SwapTracker.setRevealed_eq_ok.mp (Handler.lift_eq_ok.mp hok)
    have hall : ∀ l, L.event l ∈ applied := by
      by_contra hno
      rw [not_forall] at hno
      obtain ⟨l, hl⟩ := hno
      by_cases hother : L.event (!l) ∈ applied
      · obtain ⟨now, hr⟩ := h.initialized (!l) hother (by rwa [Bool.not_not])
        rw [TwoLegs.id, hrec, Option.some.injEq] at hr
        rw [hr] at hcounter
        cases hcounter
      · have hr := h.unknown fun l' => by
          rcases Bool.eq_or_eq_not l' l with rfl | rfl
          · exact hl
          · exact hother
        rw [TwoLegs.id, hrec] at hr
        cases hr
    obtain ⟨l, now, res, hr, -⟩ := h.locked hall
    rw [TwoLegs.id, hrec, Option.some.injEq] at hr
    refine ⟨fun hno => absurd (hall true) (hno true), fun l _ hno => absurd (hall _) hno,
      fun _ => ⟨l, now, some L.text, ?_, fun _ => rfl, fun hno => absurd (.inr hall) hno⟩,
      fun _ => hall⟩
    simp only [TwoLegs.id, SwapTracker.insert_self, hr]
    rfl

end TwoLegs

def Node.found {RpcLog : Type} (cfg : NodeConfig RpcLog) (now : UInt64) (c : ChannelId)
    (event : ChainEvent) (n : Node) : Node :=
  if c.isEvm then
    { n.setEvm c ((n.evm c).trackActionableEvent (cfg.evm c) now event) with
      events := n.events ++ [(c, event)] }
  else
    { n with
      kaspa := n.kaspa.trackActionableEvent cfg.kaspa event
      events := n.events ++ [(c, event)] }

inductive Arrival
  | found (c : ChannelId) (event : ChainEvent)
  | schedule (refund : SwapId × UInt64)
  | apply (moment : Moment)
  | broadcast (i : ℕ) (sent : Except DataError Unit)
      (network : Except Kaspa.KaspaError Kaspa.Network)
  | gossip (r : RevealV1)

namespace Node

variable {RpcLog : Type} (cfg : NodeConfig RpcLog)

def arrive (n : Node) (x : UInt64 × Arrival) : Node :=
  match x.2 with
  | .found c event => n.found cfg x.1 c event
  | .schedule refund => { n with kaspa := n.kaspa.scheduleRefund x.1 refund }
  | .apply moment => n.step cfg x.1 (.applyEvent moment)
  | .broadcast i sent network => n.step cfg x.1 (.broadcast i sent network)
  | .gossip r => n.step cfg x.1 (.gossipReveal r)

def appliedNow (n : Node) (x : UInt64 × Arrival) : List (ChannelId × ChainEvent) :=
  match x.2 with
  | .apply _ => n.next.toList
  | _ => []

def applied (n : Node) (ins : List (UInt64 × Arrival)) : List (ChannelId × ChainEvent) :=
  Runs.outputs (arrive cfg) appliedNow n ins

end Node

/-- The events that the channels find along a run. -/
def foundEvents (ins : List (UInt64 × Arrival)) : List (ChannelId × ChainEvent) :=
  ins.filterMap fun x => match x.2 with
    | .found c event => some (c, event)
    | _ => none

namespace TwoLegs

variable {RpcLog : Type} (L : TwoLegs RpcLog)

/-- Each channel finds its own events in their own order. -/
structure Interleaves (found : List (ChannelId × ChainEvent)) : Prop where
  first : found.filter (·.1 = L.chan true) = [L.event true]
  second : found.filter (·.1 = L.chan false) = [L.event false, L.claim]
  only : ∀ x ∈ found, x.1 = L.chan true ∨ x.1 = L.chan false

/-- A step that brings the reveal: from its channel, or from a peer for the first time. -/
def Brings (n : Node) (x : UInt64 × Arrival) : Prop :=
  match x.2 with
  | .apply _ => n.next = some L.claim
  | .gossip r => r = L.reveal ∧ (n.seen.insert (L.cfg.digest (.reveal r))).1 = true
  | _ => False

/-- The reveal is brought at a time when both commitments were applied. -/
def RevealedAfterBoth (n : Node) (ins : List (UInt64 × Arrival)) : Prop :=
  ∃ before x after, ins = before ++ x :: after ∧ (∀ l, L.event l ∈ n.applied L.cfg before) ∧
    L.Brings (Runs.final (Node.arrive L.cfg) n before) x

/-- A running node that has nothing to do and does not know the swap. -/
structure Untouched (n : Node) : Prop where
  halted : n.halted = false
  events : n.events = []
  outbox : n.outbox = []
  tracker : n.tracker L.id = none
  claims : ∀ r ∈ n.pendingClaims (L.chan true), r.swapId ≠ L.id

/-- The claim with the secret waits on the first channel. -/
def ClaimQueued (n : Node) : Prop :=
  L.reveal ∈ n.pendingClaims (L.chan true) ∧ (n.queue (L.chan true) (.claim L.id)).isSome

variable {L} {n : Node} {ins : List (UInt64 × Arrival)}

private theorem applied_concat (x : UInt64 × Arrival) :
    n.applied L.cfg (ins ++ [x]) =
      n.applied L.cfg ins ++ (Runs.final (Node.arrive L.cfg) n ins).appliedNow x := by
  rw [Node.applied, Runs.outputs_append]
  simp [Node.applied, Runs.outputs]

private theorem revealedAfterBoth_concat (x : UInt64 × Arrival) :
    L.RevealedAfterBoth n (ins ++ [x]) ↔ L.RevealedAfterBoth n ins ∨
      (∀ l, L.event l ∈ n.applied L.cfg ins) ∧
        L.Brings (Runs.final (Node.arrive L.cfg) n ins) x := by
  constructor
  · rintro ⟨before, y, after, heq, hboth, hbrings⟩
    rcases List.eq_nil_or_concat after with rfl | ⟨after, z, rfl⟩
    · obtain ⟨rfl, hlast⟩ := List.append_inj' heq rfl
      cases hlast
      exact .inr ⟨hboth, hbrings⟩
    · rw [List.concat_eq_append, ← List.cons_append, ← List.append_assoc] at heq
      obtain ⟨rfl, -⟩ := List.append_inj' heq rfl
      exact .inl ⟨before, y, after, rfl, hboth, hbrings⟩
  · rintro (⟨before, y, after, rfl, hboth, hbrings⟩ | ⟨hboth, hbrings⟩)
    · exact ⟨before, y, after ++ [x], by simp, hboth, hbrings⟩
    · exact ⟨ins, x, [], rfl, hboth, hbrings⟩

end TwoLegs

private theorem Evm.State.trackLogs_eq_ok {RpcLog : Type} {codec : LogCodec RpcLog} {cfg : Config}
    {now : UInt64} {logs : List RpcLog} {st st' : State}
    {events events' : List (ChannelId × ChainEvent)}
    (h : trackLogs codec cfg now logs st events = (.ok events', st')) :
    ∃ found : List ChainEvent, events' = events ++ found.map (fun e => (cfg.channelId, e)) ∧
      st' = found.foldl (trackActionableEvent cfg now) st := by
  induction logs generalizing st events with
  | nil =>
    cases h
    exact ⟨[], by simp, rfl⟩
  | cons log logs ih =>
    rw [trackLogs] at h
    split at h
    · cases h
    · exact ih h
    · rename_i event _
      obtain ⟨found, rfl, rfl⟩ := ih h
      exact ⟨event :: found, by simp, rfl⟩

namespace Evm.State

def setPoll (st : State)
    (p : PollState × UInt64 × Option (UInt64 × UInt64) × Option UInt64) : State :=
  { st with
    poll := p.1
    nextPollSecs := p.2.1
    lastBlockTs := p.2.2.1
    storedCursor := p.2.2.2 }

/-- The time of the last block plays no part in what is tracked. -/
theorem foldl_trackActionableEvent_ts {cfg : Config} {now : UInt64}
    (found : List ChainEvent) (st : State) (ts : Option (UInt64 × UInt64)) :
    { found.foldl (trackActionableEvent cfg now) st with lastBlockTs := ts } =
      found.foldl (trackActionableEvent cfg now) { st with lastBlockTs := ts } := by
  induction found generalizing st with
  | nil => rfl
  | cons event found ih =>
    have hstep : trackActionableEvent cfg now { st with lastBlockTs := ts } event =
        { trackActionableEvent cfg now st event with lastBlockTs := ts } := by
      cases event with
      | commitment c =>
        unfold trackActionableEvent
        split_ifs <;> rfl
      | reveal r => rfl
      | refund r => rfl
    rw [List.foldl_cons, List.foldl_cons, hstep, ih]

private theorem pollFinalized_eq_ok {RpcLog : Type} {codec : LogCodec RpcLog} {cfg : Config}
    {now : UInt64} {rpc : Rpc RpcLog} {st st' : State} {events : List (ChannelId × ChainEvent)}
    (h : st.pollFinalized codec cfg now rpc = (.ok events, st')) :
    ∃ (found : List ChainEvent) (p : _), events = found.map (fun e => (cfg.channelId, e)) ∧
      st' = found.foldl (trackActionableEvent cfg now) (st.setPoll p) := by
  unfold pollFinalized at h
  split_ifs at h
  · cases h
    exact ⟨[], ⟨st.poll, st.nextPollSecs, st.lastBlockTs, st.storedCursor⟩, rfl, rfl⟩
  · simp only at h
    split at h
    · cases h
    · rename_i events' st' htrack
      obtain ⟨found, rfl, rfl⟩ := trackLogs_eq_ok htrack
      split at h
      · rw [foldl_trackActionableEvent_ts] at h
        cases h
        exact ⟨found, ⟨_, _, _, _⟩, rfl, rfl⟩
      · cases h
        exact ⟨found, ⟨_, _, st.lastBlockTs, _⟩, rfl, rfl⟩

end Evm.State

namespace Node

variable {RpcLog : Type} {cfg : NodeConfig RpcLog} {n : Node}

private theorem final_found_evm {c : ChannelId} (hevm : c.isEvm) (now : UInt64)
    (found : List ChainEvent)
    (n : Node) (st : Evm.State) :
    Runs.final (arrive cfg) (n.setEvm c st) (found.map fun e => (now, .found c e)) =
      { n.setEvm c (found.foldl (Evm.State.trackActionableEvent (cfg.evm c) now) st) with
        events := n.events ++ found.map fun e => (c, e) } := by
  induction found generalizing n st with
  | nil => simp [setEvm]
  | cons event found ih =>
    have hstep : arrive cfg (n.setEvm c st) (now, .found c event) =
        { n with events := n.events ++ [(c, event)] }.setEvm c
          (st.trackActionableEvent (cfg.evm c) now event) := by
      simp [arrive, Node.found, hevm, setEvm]
    rw [List.map_cons, Runs.final_cons, hstep, ih]
    simp [setEvm]

/-- A poll of an account chain finds its events one after the other; the times and the cursor
of the channel apart, it does nothing else. -/
theorem pollEvm_arrivals {c : ChannelId} {now : UInt64} {rpc : Evm.Rpc RpcLog} {st : Evm.State}
    {events : List (ChannelId × ChainEvent)} (hhalted : n.halted = false)
    (hc : c ∈ cfg.channels) (hevm : c.isEvm)
    (hok : (n.evm c).pollFinalized cfg.codec (cfg.evm c) now rpc = (.ok events, st)) :
    ∃ (found : List ChainEvent) (poll : _), events = found.map (fun e => (c, e)) ∧
      n.pollEvm cfg now c rpc = Runs.final (arrive cfg) (n.setEvm c ((n.evm c).setPoll poll))
        (found.map fun e => (now, .found c e)) := by
  obtain ⟨found, poll, rfl, rfl⟩ := Evm.State.pollFinalized_eq_ok hok
  rw [cfg.evm_channelId] at hok ⊢
  refine ⟨found, poll, rfl, ?_⟩
  unfold pollEvm
  rw [if_neg (by simp [hhalted, hc, hevm]), hok, final_found_evm hevm]

def setWatched (n : Node) (scripts : Kaspa.WatchedScripts) (blocks : List Kaspa.Block) : Node :=
  { n with kaspa := { n.kaspa with utxoScripts := scripts, safeBlocks := blocks } }

def blockArrivals (cfg : NodeConfig RpcLog) (now : UInt64) (o : Kaspa.BlockOutcomes) :
    List (UInt64 × Arrival) :=
  (if cfg.kaspa.participateCcr then o.refunds.map fun r => (now, .schedule r) else []) ++
    o.events.map fun e => (now, .found .kaspaTn10 e)

private theorem final_schedule (now : UInt64) (refunds : List (SwapId × UInt64)) (n : Node) :
    Runs.final (arrive cfg) n (refunds.map fun r => (now, .schedule r)) =
      { n with kaspa := refunds.foldl (Kaspa.State.scheduleRefund now) n.kaspa } := by
  induction refunds generalizing n with
  | nil => rfl
  | cons refund refunds ih =>
    rw [List.map_cons, Runs.final_cons, ih]
    rfl

private theorem final_found_kaspa (now : UInt64) (found : List ChainEvent) (n : Node) :
    Runs.final (arrive cfg) n (found.map fun e => (now, .found .kaspaTn10 e)) =
      { n with
        kaspa := found.foldl (Kaspa.State.trackActionableEvent cfg.kaspa) n.kaspa
        events := n.events ++ found.map fun e => (.kaspaTn10, e) } := by
  induction found generalizing n with
  | nil => simp
  | cons event found ih =>
    rw [List.map_cons, Runs.final_cons, ih]
    simp [arrive, Node.found, ChannelId.isEvm]

/-- A block of the UTXO chain schedules its refunds and finds its events. -/
theorem processBlock_arrivals {now : UInt64} {block : Kaspa.Block} {o : Kaspa.BlockOutcomes}
    {scripts : Kaspa.WatchedScripts}
    (h : Kaspa.handleBlockAdded cfg.kaspa block n.kaspa.utxoScripts = (.ok o, scripts)) :
    { n with
      kaspa := (n.kaspa.processBlock cfg.kaspa now block).2
      events := n.events ++ o.events.map fun e => (.kaspaTn10, e) } =
      Runs.final (arrive cfg) (n.setWatched scripts n.kaspa.safeBlocks)
        (blockArrivals cfg now o) := by
  unfold blockArrivals Kaspa.State.processBlock
  rw [Runs.final_append, final_found_kaspa, h]
  split_ifs
  · rw [final_schedule]
    rfl
  · rfl

end Node

private theorem Kaspa.State.committed_emitEvent {cfg : Config} {st : State} {id : SwapId}
    (h : (st.commitments id).isSome) (now : UInt64) (network : Except KaspaError Network)
    (event : ChainEvent) : ((st.emitEvent cfg now network event).2.commitments id).isSome := by
  cases event with
  | commitment c =>
    have hcached : ((st.cacheCommitment c).commitments id).isSome := isSome_update h
    simp only [emitEvent]
    split_ifs
    · split <;> exact hcached
    · exact hcached
  | reveal r' =>
    simp only [emitEvent]
    split_ifs <;> exact h
  | refund r' => exact h

private theorem Kaspa.State.scheduleRefund_commitments (st : State) (now : UInt64)
    (refund : SwapId × UInt64) : (st.scheduleRefund now refund).commitments = st.commitments := by
  unfold scheduleRefund
  split <;> rfl

theorem Kaspa.State.isSome_queue_scheduleRefund {st : State} {k : ActionKey}
    (h : (st.queue k).isSome) (now : UInt64) (refund : SwapId × UInt64) :
    ((st.scheduleRefund now refund).queue k).isSome := by
  unfold scheduleRefund
  split
  · exact RetryQueue.isSome_ensure h
  · exact h

namespace Node

variable {RpcLog : Type} {cfg : NodeConfig RpcLog} {n : Node}

private theorem applyEvent_frame (cfg : NodeConfig RpcLog) {x : ChannelId × ChainEvent}
    (h : n.next = some x) (moment : Moment) :
    (n.applyEvent cfg moment).evm = n.evm ∧ (n.applyEvent cfg moment).kaspa = n.kaspa ∧
      (n.applyEvent cfg moment).halted = false ∧
      n.events = x :: (n.applyEvent cfg moment).events := by
  obtain ⟨hhalted, rest, hevents⟩ := next_eq_some.mp h
  simp only [applyEvent, hhalted, Bool.false_eq_true, if_false, hevents]
  split <;> exact ⟨rfl, rfl, rfl, rfl⟩

private theorem queued_broadcastEvent {a c : ChannelId} {r : RevealV1} {id : SwapId}
    (h : r ∈ n.pendingClaims a ∧ (n.queue a (.claim id)).isSome) (now : UInt64)
    (sent : Except DataError Unit) (network : Except Kaspa.KaspaError Kaspa.Network)
    (event : ChainEvent) :
    r ∈ (n.broadcastEvent cfg now sent network c event).pendingClaims a ∧
      ((n.broadcastEvent cfg now sent network c event).queue a (.claim id)).isSome := by
  unfold broadcastEvent
  split_ifs with hevm
  · by_cases ha : a.isEvm
    · simp only [pendingClaims, queue, ha, if_true, setEvm] at h ⊢
      by_cases heq : a = c
      · subst heq
        rw [Function.update_self]
        exact (Evm.State.emitEvent_emitted _ now sent _ event).kept h
      · rw [Function.update_of_ne heq]
        exact h
    · simp only [pendingClaims, queue, ha, setEvm] at h ⊢
      exact h
  · by_cases ha : a.isEvm
    · simp only [pendingClaims, queue, ha, if_true] at h ⊢
      exact h
    · simp only [pendingClaims, queue, ha] at h ⊢
      exact (Kaspa.State.emitEvent_emitted _ now network _ event).kept h
  · exact h

private theorem committed_broadcastEvent {c : ChannelId} {id : SwapId}
    (h : (n.kaspa.commitments id).isSome) (now : UInt64) (sent : Except DataError Unit)
    (network : Except Kaspa.KaspaError Kaspa.Network) (event : ChainEvent) :
    ((n.broadcastEvent cfg now sent network c event).kaspa.commitments id).isSome := by
  unfold broadcastEvent
  split_ifs
  · exact h
  · exact Kaspa.State.committed_emitEvent h now network event
  · exact h

private theorem broadcastEvent_frame (cfg : NodeConfig RpcLog) (n : Node) (c : ChannelId)
    (now : UInt64)
    (sent : Except DataError Unit) (network : Except Kaspa.KaspaError Kaspa.Network)
    (event : ChainEvent) :
    (n.broadcastEvent cfg now sent network c event).outbox = n.outbox ∧
      (n.broadcastEvent cfg now sent network c event).events = n.events ∧
      (n.broadcastEvent cfg now sent network c event).halted = n.halted := by
  unfold broadcastEvent
  split_ifs <;> exact ⟨rfl, rfl, rfl⟩

/-- What a channel finds changes nothing but the state of the channel and the waiting events. -/
theorem found_frame (cfg : NodeConfig RpcLog) (now : UInt64) (c : ChannelId) (event : ChainEvent)
    (n : Node) :
    (n.found cfg now c event).tracker = n.tracker ∧ (n.found cfg now c event).outbox = n.outbox ∧
      (n.found cfg now c event).halted = n.halted ∧
      (n.found cfg now c event).events = n.events ++ [(c, event)] := by
  unfold found
  split_ifs <;> exact ⟨rfl, rfl, rfl, rfl⟩

private theorem pendingClaims_found {now : UInt64} {a c : ChannelId} {event : ChainEvent}
    {r : RevealV1}
    (h : r ∈ (n.found cfg now c event).pendingClaims a) : r ∈ n.pendingClaims a := by
  unfold found at h
  split_ifs at h with hevm
  · rcases pendingClaims_setEvm (c := a) h with h | ⟨rfl, ha, h⟩
    · exact h
    · simp only [pendingClaims, ha, if_true]
      exact Evm.State.trackActionableEvent_claims _ _ h
  · exact pendingClaims_of_kaspa h rfl (Kaspa.State.trackActionableEvent_claims _ _)

/-- A claim stays queued when another channel finds an event. -/
theorem queued_found_other {a c : ChannelId} {r : RevealV1} {k : ActionKey} (hne : c ≠ a)
    (h : r ∈ n.pendingClaims a ∧ (n.queue a k).isSome) (now : UInt64) (event : ChainEvent) :
    r ∈ (n.found cfg now c event).pendingClaims a ∧
      ((n.found cfg now c event).queue a k).isSome := by
  unfold found
  by_cases hc : c.isEvm
  · simp only [hc, if_true, pendingClaims, queue, setEvm, Function.update_of_ne hne.symm] at h ⊢
    exact h
  · have ha : a.isEvm := by
      by_contra ha
      exact hne ((ChannelId.eq_kaspaTn10_of_not_isEvm hc).trans
        (ChannelId.eq_kaspaTn10_of_not_isEvm ha).symm)
    simp only [hc, pendingClaims, queue, ha, if_true] at h ⊢
    exact h

/-- A claim stays queued when its own channel finds a commitment. -/
theorem queued_found_commitment {a : ChannelId} {r : RevealV1} {k : ActionKey}
    (h : r ∈ n.pendingClaims a ∧ (n.queue a k).isSome) (now : UInt64) (c : CommitmentV1) :
    r ∈ (n.found cfg now a (.commitment c)).pendingClaims a ∧
      ((n.found cfg now a (.commitment c)).queue a k).isSome := by
  unfold found
  by_cases ha : a.isEvm
  · simp only [ha, if_true, pendingClaims, queue, setEvm, Function.update_self,
      Evm.State.trackActionableEvent, Evm.State.persistSwap_pendingClaims,
      Evm.State.persistSwap_queue] at h ⊢
    split_ifs
    · exact ⟨h.1, RetryQueue.isSome_ensure h.2⟩
    · exact h
  · simp only [ha, pendingClaims, queue] at h ⊢
    exact h

/-- The commitments of the UTXO channel are kept by what others find, and by commitments. -/
theorem committed_found {id : SwapId} {c : ChannelId} {event : ChainEvent}
    (h : (n.kaspa.commitments id).isSome) (now : UInt64)
    (hother : c.isEvm ∨ ∃ k, event = .commitment k) :
    ((n.found cfg now c event).kaspa.commitments id).isSome := by
  unfold found
  split_ifs with hc
  · exact h
  · rcases hother with hevm | ⟨k, rfl⟩
    · exact absurd hevm hc
    · exact Kaspa.isSome_update h

end Node

namespace TwoLegs

variable {RpcLog : Type} {L : TwoLegs RpcLog} {n : Node}
  {polled applied : List (ChannelId × ChainEvent)} {resolved : Prop}

def IsEvent (L : TwoLegs RpcLog) (x : ChannelId × ChainEvent) : Prop :=
  (∃ l, x = L.event l) ∨ x = L.claim

/-- The node after some events were found and some of them applied. -/
structure Delivered (L : TwoLegs RpcLog) (polled applied : List (ChannelId × ChainEvent))
    (resolved : Prop) (n : Node) : Prop where
  halted : n.halted = false
  split : polled = applied ++ n.events
  record : L.Tracks applied resolved (n.tracker L.id)
  outbox : ∀ c r, (c, .reveal r) ∈ n.outbox → r = L.reveal
  claims : ∀ r ∈ n.pendingClaims (L.chan true), r.swapId = L.id → r = L.reveal
  ready : resolved → (L.chan true, .reveal L.reveal) ∈ n.outbox ∨ L.ClaimQueued n
  committed : L.event true ∈ polled → ¬ (L.chan true).isEvm → (n.kaspa.commitments L.id).isSome

theorem event_ne_claim (l : Bool) : L.event l ≠ L.claim := by
  intro h
  cases congrArg Prod.snd h

theorem Delivered.found (h : L.Delivered polled applied resolved n) {x : ChannelId × ChainEvent}
    (hx : L.IsEvent x) (now : UInt64) :
    L.Delivered (polled ++ [x]) applied resolved (n.found L.cfg now x.1 x.2) := by
  obtain ⟨htracker, houtbox, hhalted, hevents⟩ := Node.found_frame L.cfg now x.1 x.2 n
  refine ⟨by rw [hhalted, h.halted], ?_, by rw [htracker]; exact h.record, ?_, ?_, ?_, ?_⟩
  · rw [hevents, h.split, List.append_assoc]
  · rw [houtbox]
    exact h.outbox
  · exact fun r hr => h.claims r (Node.pendingClaims_found hr)
  · intro hres
    rw [houtbox]
    refine (h.ready hres).imp_right fun hqueued => ?_
    rcases hx with ⟨l, rfl⟩ | rfl
    · cases l with
      | true => exact Node.queued_found_commitment hqueued now (L.commit true)
      | false => exact Node.queued_found_other L.ne.symm hqueued now _
    · exact Node.queued_found_other L.ne.symm hqueued now _
  · intro hmem hkaspa
    have hevm : (L.chan false).isEvm := by
      by_contra hfalse
      apply L.ne
      rw [ChannelId.eq_kaspaTn10_of_not_isEvm hfalse, ChannelId.eq_kaspaTn10_of_not_isEvm hkaspa]
    have hkept : L.event true ∈ polled →
        ((n.found L.cfg now x.1 x.2).kaspa.commitments L.id).isSome := by
      intro hold
      refine Node.committed_found (h.committed hold hkaspa) now ?_
      rcases hx with ⟨l, rfl⟩ | rfl
      · exact .inr ⟨_, rfl⟩
      · exact .inl hevm
    rcases List.mem_append.mp hmem with hold | hnew
    · exact hkept hold
    · rw [List.mem_singleton] at hnew
      subst hnew
      simp only [Node.found, event, hkaspa]
      rw [← L.commit_id true]
      exact Option.isSome_iff_exists.mpr ⟨L.commit true, Function.update_self _ _ _⟩

/-- A deposit on the UTXO channel schedules its refund. -/
theorem Delivered.schedule (h : L.Delivered polled applied resolved n) (now : UInt64)
    (refund : SwapId × UInt64) : L.Delivered polled applied resolved
      { n with kaspa := n.kaspa.scheduleRefund now refund } := by
  have hclaims : (n.kaspa.scheduleRefund now refund).pendingClaims = n.kaspa.pendingClaims :=
    Kaspa.State.scheduleRefund_claims _ _
  refine ⟨h.halted, h.split, h.record, h.outbox, ?_, ?_, ?_⟩
  · intro r hr
    apply h.claims r
    simp only [Node.pendingClaims, hclaims] at hr ⊢
    exact hr
  · intro hres
    refine (h.ready hres).imp_right fun hqueued => ?_
    simp only [ClaimQueued, Node.pendingClaims, Node.queue, hclaims] at hqueued ⊢
    split_ifs at hqueued ⊢
    · exact hqueued
    · exact ⟨hqueued.1, Kaspa.State.isSome_queue_scheduleRefund hqueued.2 now refund⟩
  · intro hmem hkaspa
    rw [Kaspa.State.scheduleRefund_commitments]
    exact h.committed hmem hkaspa

private theorem Delivered.takesClaims (h : L.Delivered polled applied resolved n)
    (hres : resolved) :
    n.TakesClaims L.cfg (L.chan true) L.id := by
  refine ⟨L.configured, L.evm_ccr, fun hkaspa => ⟨L.kaspa_ccr hkaspa, h.committed ?_ hkaspa⟩⟩
  rw [h.split]
  exact List.mem_append_left _ (h.record.resolved_locked hres true)

private theorem mem_eraseIdx_or {α : Type} {l : List α} {i : ℕ} {x : α} (h : x ∈ l) :
    l[i]? = some x ∨ x ∈ l.eraseIdx i := by
  rw [List.eraseIdx_eq_take_drop_succ]
  have hsplit : l = l.take i ++ l.drop i := (List.take_append_drop i l).symm
  rw [hsplit, List.mem_append] at h
  rcases h with h | h
  · exact .inr (List.mem_append_left _ h)
  · cases hdrop : l.drop i with
    | nil =>
      rw [hdrop] at h
      cases h
    | cons y rest =>
      have hget : l[i]? = some y := by
        rw [← List.head?_drop, hdrop]
        rfl
      have hrest : l.drop (i + 1) = rest := by
        rw [← List.tail_drop, hdrop]
        rfl
      rw [hdrop] at h
      rcases List.mem_cons.mp h with rfl | h
      · exact .inl hget
      · exact .inr (List.mem_append_right _ (hrest ▸ h))

/-- A broadcast is made; the one to the first channel queues the claim. -/
theorem Delivered.broadcast (h : L.Delivered polled applied resolved n) (now : UInt64) (i : ℕ)
    (sent : Except DataError Unit) (network : Except Kaspa.KaspaError Kaspa.Network) :
    L.Delivered polled applied resolved (n.step L.cfg now (.broadcast i sent network)) := by
  simp only [Node.step]
  split
  · exact h
  · rename_i c event hi
    let m : Node := { n with outbox := n.outbox.eraseIdx i }
    obtain ⟨houtbox, hevents, hhalted⟩ :=
      Node.broadcastEvent_frame L.cfg m c now sent network event
    refine ⟨hhalted.trans h.halted, ?_, ?_, ?_, ?_, ?_, ?_⟩
    · rw [hevents]
      exact h.split
    · rw [Node.tracker_broadcastEvent]
      exact h.record
    · intro c' r hr
      rw [houtbox] at hr
      exact h.outbox c' r (List.mem_of_mem_eraseIdx hr)
    · intro r hr hid
      rcases Node.pendingClaims_broadcastEvent hr with hr | ⟨rfl, rfl⟩
      · exact h.claims r hr hid
      · exact h.outbox _ r (List.mem_of_getElem? hi)
    · intro hres
      rw [houtbox]
      rcases h.ready hres with hmem | hqueued
      · rcases mem_eraseIdx_or (i := i) hmem with hget | hmem
        · rw [hi, Option.some.injEq] at hget
          cases hget
          right
          obtain ⟨hclaims, hqueue⟩ := Node.broadcastEvent_reveal (n := m) now sent network
            (h.takesClaims hres)
          refine ⟨?_, hqueue⟩
          obtain ⟨r, hr, hid⟩ := exists_pushPendingClaim (m.pendingClaims (L.chan true)) L.reveal
          rw [hclaims]
          rcases mem_pushPendingClaim hr with hold | rfl
          · have heq := h.claims r hold hid
            subst heq
            exact hr
          · exact hr
        · exact .inl hmem
      · exact .inr (Node.queued_broadcastEvent (n := m) hqueued now sent network event)
    · exact fun hmem hkaspa =>
        Node.committed_broadcastEvent (n := m) (h.committed hmem hkaspa) now sent network event

theorem Tracks.congr_resolved {r : Option SwapRecord} {resolved' : Prop}
    (h : L.Tracks applied resolved r) (hiff : resolved' ↔ resolved) :
    L.Tracks applied resolved' r := propext hiff ▸ h

private theorem handle_reveal_tracker (h : Handler) (t : SwapTracker) (source : ChannelId)
    (r : RevealV1) (moment : Moment) :
    (h.handle t source (.reveal r) moment).2 = afterReveal h t r := by
  simp only [Handler.handle, Handler.onChainEvent, Handler.handleExternalReveal_priced, afterReveal]
  cases h.handleExternalReveal t r <;> rfl

/-- The reveal is applied when both commitments were: it goes to the first channel. -/
theorem effects_claim (h : L.Delivered polled applied resolved n)
    (hall : ∀ l, L.event l ∈ applied) (hres : ¬ resolved) (hnext : n.next = some L.claim)
    (moment : Moment) :
    (L.chan true, .reveal L.reveal) ∈ n.effects L.cfg (.applyEvent moment) := by
  obtain ⟨l, rec, hrec, hopen⟩ := h.record.open hall hres
  have hevent : L.cfg.handler.handle n.tracker (L.chan false) (.reveal L.reveal) moment = _ :=
    Handler.onChainEvent_open (h := L.cfg.handler.priced moment.pricing) hopen hrec
      (L.commit_secretHash _) (L.chan false) moment.clock
  rw [claim] at hnext
  simp only [Node.effects, hnext, hevent, Effect.broadcasts, List.mem_singleton]
  cases l with
  | true => rw [if_neg L.ne]
  | false => rw [if_pos rfl, Bool.not_false]

theorem Delivered.apply (h : L.Delivered polled applied resolved n)
    (hpolled : ∀ x ∈ polled, L.IsEvent x) (now : UInt64) (moment : Moment) :
    L.Delivered polled (applied ++ n.next.toList)
      (resolved ∨ (∀ l, L.event l ∈ applied) ∧ n.next = some L.claim)
      (n.step L.cfg now (.applyEvent moment)) := by
  cases hnext : n.next with
  | none =>
    have hsame : n.step L.cfg now (.applyEvent moment) = n :=
      Node.applyEvent_of_next_none hnext moment
    have hiff : resolved ∨ (∀ l, L.event l ∈ applied) ∧ none = some L.claim ↔ resolved := by simp
    rw [hsame, Option.toList_none, List.append_nil, propext hiff]
    exact h
  | some x =>
    obtain ⟨htracker, houtbox⟩ := Node.applyEvent_next L.cfg hnext moment
    obtain ⟨hevm, hkaspa, hhalted, hevents⟩ := Node.applyEvent_frame L.cfg hnext moment
    have hx : L.IsEvent x := hpolled x (by rw [h.split, hevents]; simp)
    have hclaims : ∀ c, (n.applyEvent L.cfg moment).pendingClaims c = n.pendingClaims c := by
      intro c
      simp only [Node.pendingClaims, hevm, hkaspa]
    have hqueue : ∀ c, (n.applyEvent L.cfg moment).queue c = n.queue c := by
      intro c
      simp only [Node.queue, hevm, hkaspa]
    simp only [Node.step, Option.toList_some, Option.some.injEq]
    refine ⟨hhalted, ?_, ?_, ?_, ?_, ?_, ?_⟩
    · rw [h.split, hevents]
      simp
    · rw [htracker]
      rcases hx with ⟨l, rfl⟩ | rfl
      · have hno : L.event l ≠ L.claim := L.event_ne_claim l
        exact (h.record.commitment l moment).congr_resolved (by simp [hno])
      · rw [claim, handle_reveal_tracker]
        refine (h.record.reveal.congr fun l => ?_).congr_resolved (by simp)
        have hno : L.event l ≠ (L.chan false, .reveal L.reveal) := L.event_ne_claim l
        simp [hno]
    · intro c r hr
      rw [houtbox, List.mem_append] at hr
      rcases hr with hr | hr
      · exact h.outbox c r hr
      · obtain ⟨source, -, -, hnext', -⟩ := Node.effects_reveal hr
        rw [hnext, Option.some.injEq] at hnext'
        rcases hx with ⟨l, rfl⟩ | rfl
        · cases hnext'
        · cases hnext'
          rfl
    · intro r hr
      rw [hclaims] at hr
      exact h.claims r hr
    · intro hor
      rw [houtbox, ClaimQueued, hclaims, hqueue]
      by_cases hres : resolved
      · exact (h.ready hres).imp_left (List.mem_append_left _)
      · obtain ⟨hall, rfl⟩ := hor.resolve_left hres
        exact .inl (List.mem_append_right _ (effects_claim h hall hres hnext moment))
    · rw [hkaspa]
      exact h.committed

theorem Delivered.gossip (h : L.Delivered polled applied resolved n) (now : UInt64) :
    L.Delivered polled applied (resolved ∨ (∀ l, L.event l ∈ applied) ∧
        (n.seen.insert (L.cfg.digest (.reveal L.reveal))).1 = true)
      (n.step L.cfg now (.gossipReveal L.reveal)) := by
  simp only [Node.step, Node.onReveal]
  rcases n.seen.insert (L.cfg.digest (.reveal L.reveal)) with ⟨_ | _, seen⟩
  · have hiff : resolved ∨ (∀ l, L.event l ∈ applied) ∧ false = true ↔ resolved := by simp
    rw [propext hiff]
    exact h
  · refine ⟨h.halted, h.split, h.record.reveal.congr_resolved (by simp), ?_, h.claims, ?_,
      h.committed⟩
    · intro c r hr
      rcases List.mem_append.mp hr with hr | hr
      · exact h.outbox c r hr
      · obtain ⟨c', -, hc'⟩ := List.mem_map.mp hr
        cases hc'
        rfl
    · intro _
      exact .inl (List.mem_append_right _ (List.mem_map_of_mem L.configured))

theorem foundEvents_concat (ins : List (UInt64 × Arrival)) (x : UInt64 × Arrival) :
    foundEvents (ins ++ [x]) = foundEvents ins ++ foundEvents [x] := List.filterMap_append

/-- After every run the node stands where the found and the applied events have brought it. -/
theorem delivered_run (hn : L.Untouched n) (ins : List (UInt64 × Arrival))
    (hfound : ∀ x ∈ foundEvents ins, L.IsEvent x)
    (hgossip : ∀ now r, (now, .gossip r) ∈ ins → r = L.reveal) :
    L.Delivered (foundEvents ins) (n.applied L.cfg ins) (L.RevealedAfterBoth n ins)
      (Runs.final (Node.arrive L.cfg) n ins) := by
  induction ins using List.reverseRecOn with
  | nil =>
    have hno : ¬ L.RevealedAfterBoth n [] := by
      rintro ⟨before, x, after, heq, -⟩
      simp at heq
    refine ⟨hn.halted, by rw [Runs.final_nil, hn.events]; rfl, ?_, ?_, ?_, ?_, ?_⟩
    · rw [Runs.final_nil, hn.tracker]
      exact ⟨fun _ => rfl, fun l hl => absurd hl List.not_mem_nil,
        fun hall => absurd (hall true) List.not_mem_nil, fun hres => absurd hres hno⟩
    · intro c r hr
      rw [Runs.final_nil, hn.outbox] at hr
      cases hr
    · exact fun r hr hid => absurd hid (hn.claims r hr)
    · exact fun hres => absurd hres hno
    · intro hmem
      cases hmem
  | append_singleton ins x ih =>
    rw [foundEvents_concat, List.forall_mem_append] at hfound
    have hins := ih hfound.1 fun now r hr => hgossip now r (List.mem_append_left _ hr)
    rw [foundEvents_concat, applied_concat, Runs.final_append, propext (revealedAfterBoth_concat x)]
    obtain ⟨now, x⟩ := x
    cases x with
    | found c event =>
      have hx := hins.found (hfound.2 (c, event) List.mem_cons_self) now
      simpa [Brings, Node.appliedNow, foundEvents, Node.arrive] using hx
    | schedule refund =>
      have hx := hins.schedule now refund
      simpa [Brings, Node.appliedNow, foundEvents, Node.arrive] using hx
    | apply moment =>
      have hx := hins.apply hfound.1 now moment
      simpa [Brings, Node.appliedNow, foundEvents, Node.arrive] using hx
    | broadcast i sent network =>
      have hx := hins.broadcast now i sent network
      simpa [Brings, Node.appliedNow, foundEvents, Node.arrive] using hx
    | gossip r =>
      obtain rfl : r = L.reveal := hgossip now r (by simp)
      have hx := hins.gossip now
      simpa [Brings, Node.appliedNow, foundEvents, Node.arrive] using hx

private theorem Interleaves.isEvent {found : List (ChannelId × ChainEvent)}
    (h : L.Interleaves found) :
    ∀ x ∈ found, L.IsEvent x := by
  intro x hx
  rcases h.only x hx with hchan | hchan
  · have hmem : x ∈ found.filter (·.1 = L.chan true) := List.mem_filter.mpr ⟨hx, by simp [hchan]⟩
    rw [h.first, List.mem_singleton] at hmem
    exact .inl ⟨true, hmem⟩
  · have hmem : x ∈ found.filter (·.1 = L.chan false) := List.mem_filter.mpr ⟨hx, by simp [hchan]⟩
    rw [h.second, List.mem_pair] at hmem
    exact hmem.imp (fun heq => ⟨false, heq⟩) (fun heq => heq)

private theorem Interleaves.event_mem {found : List (ChannelId × ChainEvent)}
    (h : L.Interleaves found)
    (l : Bool) : L.event l ∈ found := by
  cases l with
  | true =>
    apply List.mem_of_mem_filter
    rw [h.first]
    exact List.mem_cons_self
  | false =>
    apply List.mem_of_mem_filter
    rw [h.second]
    exact List.mem_cons_self

/-- After all events are applied and all broadcasts made, the swap is completed and its claim
waits on the first channel exactly when the reveal was brought after both commitments. -/
theorem delivery_order_iff (L : TwoLegs RpcLog) (n : Node) (hn : L.Untouched n)
    (ins : List (UInt64 × Arrival)) (hstreams : L.Interleaves (foundEvents ins))
    (hgossip : ∀ now r, (now, .gossip r) ∈ ins → r = L.reveal)
    (happlied : (Runs.final (Node.arrive L.cfg) n ins).events = [])
    (hsent : (Runs.final (Node.arrive L.cfg) n ins).outbox = []) :
    (∃ rec, (Runs.final (Node.arrive L.cfg) n ins).tracker L.id = some rec ∧
        SwapTracker.stage rec = .completed) ∧ L.ClaimQueued (Runs.final (Node.arrive L.cfg) n ins) ↔
      L.RevealedAfterBoth n ins := by
  have hrun := delivered_run hn ins hstreams.isEvent hgossip
  have hall : ∀ l, L.event l ∈ n.applied L.cfg ins := by
    intro l
    have hmem := hstreams.event_mem l
    rwa [hrun.split, happlied, List.append_nil] at hmem
  obtain ⟨l, now, res, hrec, hsome, hnone⟩ := hrun.record.locked hall
  constructor
  · rintro ⟨⟨rec, hrec', hstage⟩, -⟩
    by_contra hno
    rw [hrec, Option.some.injEq] at hrec'
    subst hrec'
    simp [SwapTracker.stage, hnone hno] at hstage
  · intro hrevealed
    refine ⟨⟨_, hrec, ?_⟩, ?_⟩
    · have htext : res = some (Resolution.revealed L.reveal.secret).text := hsome hrevealed
      rw [SwapTracker.stage_resolved htext]
    · rcases hrun.ready hrevealed with hmem | hqueued
      · rw [hsent] at hmem
        cases hmem
      · exact hqueued

def sampleLegs : TwoLegs Evm.Log where
  cfg := sampleNode
  chan
    | true => .ethereumSepolia
    | false => .igraGalleon
  commit
    | true => Taker.sampleInit
    | false => sampleCounter
  reveal := ⟨.filled 3, .filled 7⟩
  ne := by decide
  source l := by cases l <;> rfl
  mirrors := ⟨rfl, rfl, rfl, rfl, rfl, rfl⟩
  reveal_id := rfl
  reveal_secret := by decide +kernel
  configured := by decide
  evm_ccr _ := rfl
  kaspa_ccr _ := rfl

def sampleFound (x : ChannelId × ChainEvent) : UInt64 × Arrival := (100, .found x.1 x.2)

def sampleArrival : UInt64 × Arrival := (100, .apply ⟨⟨fun _ => some 100, 100⟩, samplePricing⟩)

def sampleSent : UInt64 × Arrival := (100, .broadcast 0 (.ok ()) (.ok .testnet))

/-- The second channel is ahead of the first: the claim of the second commitment is found and
applied before the first commitment is. -/
def secondChannelFirst : List (UInt64 × Arrival) :=
  [sampleFound (sampleLegs.event false), sampleArrival, sampleFound sampleLegs.claim, sampleArrival,
    sampleFound (sampleLegs.event true), sampleArrival]

def firstChannelFirst : List (UInt64 × Arrival) :=
  [sampleFound (sampleLegs.event true), sampleArrival, sampleSent,
    sampleFound (sampleLegs.event false), sampleFound sampleLegs.claim, sampleArrival,
    sampleArrival, sampleSent]

/-- The swap stays locked and nothing is claimed. -/
theorem early_reveal_lost :
    sampleLegs.Interleaves (foundEvents secondChannelFirst) ∧
      (Runs.final (Node.arrive sampleNode) sampleStart secondChannelFirst).events = [] ∧
      (Runs.final (Node.arrive sampleNode) sampleStart secondChannelFirst).outbox = [] ∧
      ((Runs.final (Node.arrive sampleNode) sampleStart secondChannelFirst).tracker
        sampleLegs.id).map SwapTracker.stage = some .locked ∧
      (Runs.final (Node.arrive sampleNode) sampleStart secondChannelFirst).pendingClaims
        .ethereumSepolia = [] := by
  refine ⟨⟨?_, ?_, ?_⟩, ?_⟩ <;> decide +kernel

theorem delivery_order_sample :
    sampleLegs.ClaimQueued
      (Runs.final (Node.arrive sampleNode) sampleStart firstChannelFirst) := by
  have hn : sampleLegs.Untouched sampleStart :=
    ⟨rfl, rfl, rfl, rfl, fun r hr => absurd hr List.not_mem_nil⟩
  have hstreams : sampleLegs.Interleaves (foundEvents firstChannelFirst) := by
    refine ⟨?_, ?_, ?_⟩ <;> decide +kernel
  have hgossip : ∀ now r, (now, .gossip r) ∈ firstChannelFirst → r = sampleLegs.reveal := by
    intro now r hr
    simp [firstChannelFirst, sampleFound, sampleArrival, sampleSent] at hr
  refine ((delivery_order_iff sampleLegs sampleStart hn firstChannelFirst hstreams hgossip
    (by decide +kernel) (by decide +kernel)).mpr ?_).2
  refine ⟨firstChannelFirst.take 6, sampleArrival, [sampleSent], rfl, ?_, ?_⟩
  · decide +kernel
  · show Node.next _ = _
    decide +kernel

end TwoLegs
end Stroemnet
