import Stroemnet.ClaimIntegrity
import Stroemnet.PreimageAgreement

/-! # Forwarding the secret of a claim

A locked swap is resolved by the first right reveal or refund that carries its id, whatever
script or contract it comes from. The claim of the counter commitment is forwarded to the
channel of the first commitment exactly when nothing else resolved the swap before. -/
namespace Stroemnet

namespace Handler
open SwapTracker

/-- The events that resolve a locked swap: only the id and the secret count. -/
def Resolves (h : Handler) (id : SwapId) (hash : Bytes32) : ChainEvent → Prop
  | .commitment _ => False
  | .reveal r => r.swapId = id ∧ h.sha256 r.secret.data = hash
  | .refund r => r.swapId = id

variable {h : Handler} {t t' : SwapTracker} {id : SwapId} {rec : SwapRecord}
  {counter : CommitmentV1} {a b : ChannelId}

theorem handleExternalReveal_open (hopen : rec.Open counter a b) (ht : t id = some rec)
    (r : RevealV1) :
    (¬ h.Resolves id counter.secretHash (.reveal r) → ∀ t', h.handleExternalReveal t r = .ok t' →
        t' id = some rec) ∧
      (h.Resolves id counter.secretHash (.reveal r) → h.handleExternalReveal t r =
        .ok (t.insert id { rec with resolution := some (Resolution.revealed r.secret).text })) := by
  refine ⟨fun hno t' hok => ?_, fun hres => ?_⟩
  · obtain ⟨rec', counter', hrec', hcounter', -, hsecret, rfl⟩ :=
      setRevealed_eq_ok.mp (lift_eq_ok.mp hok)
    have hne : id ≠ r.swapId := by
      rintro rfl
      rw [ht, Option.some.injEq] at hrec'
      subst hrec'
      rw [hopen.counterCommitment, Option.some.injEq] at hcounter'
      subst hcounter'
      exact hno ⟨rfl, hsecret⟩
    rw [insert_of_ne _ hne, ht]
  · obtain ⟨rfl, hsecret⟩ := hres
    exact lift_eq_ok.mpr (setRevealed_eq_ok.mpr
      ⟨rec, counter, ht, hopen.counterCommitment, hopen.resolution, hsecret, rfl⟩)

private theorem handleExternalRefund_open (hopen : rec.Open counter a b) (ht : t id = some rec)
    (r : RefundV1) :
    (r.swapId ≠ id → ∀ t', handleExternalRefund t r = .ok t' → t' id = some rec) ∧
      (r.swapId = id → handleExternalRefund t r =
        .ok (t.insert id { rec with resolution := some Resolution.refunded.text })) := by
  refine ⟨fun hne t' hok => ?_, fun heq => ?_⟩
  · obtain ⟨rec', counter', -, -, -, rfl⟩ := setRefunded_eq_ok.mp (lift_eq_ok.mp hok)
    rw [insert_of_ne _ (Ne.symm hne), ht]
  · subst heq
    exact lift_eq_ok.mpr (setRefunded_eq_ok.mpr
      ⟨rec, counter, ht, hopen.counterCommitment, hopen.resolution, rfl⟩)

private theorem handleExternalCommitment_open (hopen : rec.Open counter a b) (ht : t id = some rec)
    {c : CommitmentV1} {now : UInt64} (hok : handleExternalCommitment t c now = .ok t') :
    t' id = some rec := by
  unfold handleExternalCommitment at hok
  split at hok
  · rename_i hnone
    obtain ⟨-, rfl⟩ := setInitCommitment_eq_ok.mp (lift_eq_ok.mp hok)
    have hne : id ≠ c.swapId := by
      rintro rfl
      rw [hnone] at ht
      cases ht
    rw [insert_of_ne _ hne, ht]
  · split_ifs at hok
    · cases hok
      exact ht
    · obtain ⟨rec', hrec', hcounter, -, -, rfl⟩ := setCounterCommitment_eq_ok.mp (lift_eq_ok.mp hok)
      have hne : id ≠ c.swapId := by
        rintro rfl
        rw [ht, Option.some.injEq] at hrec'
        subst hrec'
        rw [hopen.counterCommitment] at hcounter
        cases hcounter
      rw [insert_of_ne _ hne, ht]

/-- What an event does to an open record: nothing, unless it resolves the swap. -/
theorem onChainEvent_tracker_open (hopen : rec.Open counter a b) (ht : t id = some rec)
    (source : ChannelId) (event : ChainEvent) (clock : ChainClock) :
    (¬ h.Resolves id counter.secretHash event →
        (h.onChainEvent t source event clock).2 id = some rec) ∧
      (h.Resolves id counter.secretHash event →
        ∃ res, (h.onChainEvent t source event clock).2 id =
          some { rec with resolution := some res }) := by
  cases event with
  | commitment c =>
    refine ⟨fun _ => ?_, fun hres => hres.elim⟩
    simp only [onChainEvent]
    cases hc : handleExternalCommitment t c clock.systemNow with
    | error e => exact ht
    | ok t' => exact handleExternalCommitment_open hopen ht hc
  | reveal r =>
    obtain ⟨hother, hours⟩ := handleExternalReveal_open (h := h) hopen ht r
    refine ⟨fun hno => ?_, fun hres => ⟨(Resolution.revealed r.secret).text, ?_⟩⟩
    · simp only [onChainEvent]
      cases hr : h.handleExternalReveal t r with
      | error e => exact ht
      | ok t' => exact hother hno t' hr
    · simp only [onChainEvent, hours hres]
      exact insert_self _ _ _
  | refund r =>
    obtain ⟨hother, hours⟩ := handleExternalRefund_open hopen ht r
    refine ⟨fun hno => ?_, fun hres => ⟨Resolution.refunded.text, ?_⟩⟩
    · simp only [onChainEvent]
      cases hr : handleExternalRefund t r with
      | error e => exact ht
      | ok t' => exact hother hno t' hr
    · simp only [onChainEvent, hours hres]
      exact insert_self _ _ _

end Handler

private theorem TrackerMove.keeps_resolved {sha256 : Bytes → Bytes32} {polled : CommitmentV1 → Prop}
    {t t' : SwapTracker} (h : TrackerMove sha256 polled t t') {id : SwapId} {rec : SwapRecord}
    (ht : t id = some rec) (hres : rec.resolution.isSome) : t' id = some rec := by
  have hother : ∀ id' rec', t id' = some rec' → rec'.resolution = none → id ≠ id' := by
    rintro id' rec' hrec' hnone rfl
    rw [ht, Option.some.injEq] at hrec'
    subst hrec'
    rw [hnone] at hres
    cases hres
  cases h with
  | same => exact ht
  | opened c now hpolled hnone =>
    have hne : id ≠ c.swapId := by
      rintro rfl
      rw [hnone] at ht
      cases ht
    rw [SwapTracker.insert_of_ne _ hne, ht]
  | locked c rec' hpolled hrec' hcounter hnone hmirror hsource =>
    rw [SwapTracker.insert_of_ne _ (hother _ _ hrec' hnone), ht]
  | resolved id' rec' counter res hrec' hcounter hnone hsecret =>
    rw [SwapTracker.insert_of_ne _ (hother _ _ hrec' hnone), ht]

/-- A claim of a watched script is read as the reveal of its secret. -/
theorem Kaspa.classifySpend_claim {cfg : Config} {sig redeem : Bytes} {secret : Bytes32}
    {unlockTs : UInt64} {target : String} {ops : List Script.Opcode} {c : CommitmentV1}
    (hsig : Script.signaturePushes sig = some [secret.data, [1], redeem])
    (hparse : parseOpcodes redeem = .ok ops)
    (hread : extractCommitment cfg.codec ops target cfg.network cfg.channelId = .ok c) :
    classifySpend cfg sig ⟨redeem, unlockTs, target⟩ =
      .ok (some (.reveal ⟨c.swapId, secret⟩), true) := by
  have hlen : 1 < redeem.length := by
    obtain ⟨found, hfound, -⟩ := bind_eq_ok.mp hread
    have hops : ops.length = expectedOpcodes.length := by
      unfold collectData at hfound
      split_ifs at hfound with hne
      exact not_not.mp hne
    have hserialize := length_le_length_serialize ops
    rw [(Script.parseScript_sound (parseOpcodes_eq_ok.mp hparse)).2] at hserialize
    have hexpected : 1 < expectedOpcodes.length := by decide
    omega
  obtain ⟨sigOps, hsigParse, hsecret⟩ := extractRevealSecret_of_pushes _ hsig hlen
  simp [classifySpend, parseOpcodes_eq_ok.mpr hsigParse, hparse, hread, hsecret, bind, Except.bind,
    pure, Except.pure]

namespace Node

variable {RpcLog : Type} {cfg : NodeConfig RpcLog} {n : Node} {id : SwapId} {rec : SwapRecord}
  {counter : CommitmentV1} {a b : ChannelId}

def next (n : Node) : Option (ChannelId × ChainEvent) := if n.halted then none else n.events.head?

/-- The broadcasts that the handler asks for in one step. -/
def effects (cfg : NodeConfig RpcLog) (n : Node) : NodeInput RpcLog → List (ChannelId × ChainEvent)
  | .applyEvent moment =>
    match n.next with
    | none => []
    | some (source, event) =>
      match (cfg.handler.handle n.tracker source event moment).1 with
      | .ok effects => Effect.broadcasts effects
      | .error _ => []
  | _ => []

/-- The broadcasts that the handler asks for along a run. -/
def emitted (cfg : NodeConfig RpcLog) (n : Node) :
    List (UInt64 × NodeInput RpcLog) → List (ChannelId × ChainEvent)
  | [] => []
  | (now, i) :: ins => n.effects cfg i ++ (n.step cfg now i).emitted cfg ins

/-- The broadcasts that the handler asks for as long as a swap keeps its record. -/
def emittedFor (cfg : NodeConfig RpcLog) (id : SwapId) (n : Node) :
    List (UInt64 × NodeInput RpcLog) → List (ChannelId × ChainEvent)
  | [] => []
  | (now, i) :: ins =>
    n.effects cfg i ++
      if ((n.step cfg now i).tracker id).isSome then (n.step cfg now i).emittedFor cfg id ins
      else []

/-- The steps that resolve a locked swap. -/
def Resolves (cfg : NodeConfig RpcLog) (n : Node) (id : SwapId) (hash : Bytes32) :
    NodeInput RpcLog → Prop
  | .gossipReveal r => (n.seen.insert (cfg.digest (.reveal r))).1 = true ∧
      cfg.handler.Resolves id hash (.reveal r)
  | .applyEvent _ => ∃ x, n.next = some x ∧ cfg.handler.Resolves id hash x.2
  | _ => False

/-- The steps that apply a reveal of the secret from another channel than `a`. -/
def Forwards (n : Node) (a : ChannelId) (id : SwapId) (s : Bytes32) : NodeInput RpcLog → Prop
  | .applyEvent _ => ∃ source, n.next = some (source, .reveal ⟨id, s⟩) ∧ source ≠ a
  | _ => False

/-- If a step of the run resolves the swap, then the first one that does applies a reveal of the
secret from another channel than `a`. -/
def FirstResolutionForwards (cfg : NodeConfig RpcLog) (a : ChannelId) (id : SwapId)
    (hash s : Bytes32) (n : Node) : List (UInt64 × NodeInput RpcLog) → Prop
  | [] => True
  | (now, i) :: ins =>
    (n.Resolves cfg id hash i → n.Forwards a id s i) ∧
      (¬ n.Resolves cfg id hash i →
        (n.step cfg now i).FirstResolutionForwards cfg a id hash s ins)

theorem next_eq_some {x : ChannelId × ChainEvent} :
    n.next = some x ↔ n.halted = false ∧ ∃ rest, n.events = x :: rest := by
  unfold next
  split_ifs with h
  · simp [h]
  · rw [List.head?_eq_some_iff]
    simp [Bool.eq_false_iff.mpr h]

/-- Applying an event updates the tracker and adds its effects to the outbox. -/
theorem applyEvent_next (cfg : NodeConfig RpcLog) {source : ChannelId} {event : ChainEvent}
    (h : n.next = some (source, event)) (moment : Moment) :
    (n.applyEvent cfg moment).tracker =
        (cfg.handler.handle n.tracker source event moment).2 ∧
      (n.applyEvent cfg moment).outbox = n.outbox ++ n.effects cfg (.applyEvent moment) := by
  obtain ⟨hhalted, rest, hevents⟩ := next_eq_some.mp h
  simp only [applyEvent, hhalted, Bool.false_eq_true, if_false, hevents, effects, h]
  rcases cfg.handler.handle n.tracker source event moment with ⟨effects | e, t⟩ <;> simp

theorem applyEvent_of_next_none (h : n.next = none) (moment : Moment) :
    n.applyEvent cfg moment = n := by
  unfold next at h
  unfold applyEvent
  split_ifs at h ⊢
  · rfl
  · rw [List.head?_eq_none_iff.mp h]

/-- A step changes an open record exactly when it resolves the swap. -/
theorem tracker_step_open (cfg : NodeConfig RpcLog) (hopen : rec.Open counter a b)
    (hrec : n.tracker id = some rec) (now : UInt64) (i : NodeInput RpcLog) :
    (¬ n.Resolves cfg id counter.secretHash i → (n.step cfg now i).tracker id = some rec) ∧
      (n.Resolves cfg id counter.secretHash i → ∃ res, (n.step cfg now i).tracker id =
        some { rec with resolution := some res }) := by
  cases i with
  | gossipReveal r =>
    obtain ⟨hother, hours⟩ := Handler.handleExternalReveal_open (h := cfg.handler) hopen hrec r
    simp only [Resolves, step, onReveal]
    rcases n.seen.insert (cfg.digest (.reveal r)) with ⟨_ | _, seen⟩
    · simp [hrec]
    · refine ⟨fun hno => ?_, fun hres => ⟨(Resolution.revealed r.secret).text, ?_⟩⟩
      · cases hr : cfg.handler.handleExternalReveal n.tracker r with
        | error e => exact hrec
        | ok t' => exact hother (fun hres => hno ⟨rfl, hres⟩) t' hr
      · simp only [hours hres.2]
        exact SwapTracker.insert_self _ _ _
  | cleanup =>
    exact ⟨fun _ => cleanup_unresolved hrec hopen.resolution now resolvedMaxAgeSecs, False.elim⟩
  | applyEvent moment =>
    cases hnext : n.next with
    | none => simp [Resolves, hnext, step, applyEvent_of_next_none hnext, hrec]
    | some x =>
      obtain ⟨hother, hours⟩ := Handler.onChainEvent_tracker_open
        (h := cfg.handler.priced moment.pricing) hopen hrec x.1 x.2 moment.clock
      simp only [Resolves, hnext, step, (applyEvent_next cfg hnext moment).1, Option.some.injEq,
        exists_eq_left']
      exact ⟨hother, hours⟩
  | gossipScript s => simp [Resolves, step, hrec]
  | pollEvm c rpc => simp [Resolves, step, hrec]
  | pollKaspa => simp [Resolves, step, hrec]
  | broadcast j sent network =>
    simp only [Resolves, step, not_false_eq_true, true_implies, false_implies, and_true]
    split
    · exact hrec
    · rw [tracker_broadcastEvent]
      exact hrec
  | receiveBlock block => exact ⟨fun _ => hrec, False.elim⟩
  | settledEvm c k => exact ⟨fun _ => hrec, False.elim⟩
  | failedEvm c k => exact ⟨fun _ => hrec, False.elim⟩
  | failedKaspa k => exact ⟨fun _ => hrec, False.elim⟩

/-- A reveal among the effects is the event itself, and its swap was open. -/
theorem effects_reveal {i : NodeInput RpcLog} {c : ChannelId} {r : RevealV1}
    (h : (c, .reveal r) ∈ n.effects cfg i) :
    ∃ source rec counter, n.next = some (source, .reveal r) ∧ n.tracker r.swapId = some rec ∧
      rec.counterCommitment = some counter ∧ rec.resolution = none ∧
      cfg.handler.sha256 r.secret.data = counter.secretHash := by
  cases i with
  | applyEvent moment =>
    simp only [effects] at h
    split at h
    · cases h
    · rename_i source event hnext
      split at h
      · rename_i effects heffects
        obtain ⟨rfl, rec, counter, hrec, hcounter, hres, hsecret⟩ := Handler.onChainEvent_reveal
          (Prod.ext heffects rfl) (Effect.mem_broadcasts.mp h)
        exact ⟨source, rec, counter, hnext, hrec, hcounter, hres, hsecret⟩
      · cases h
  | _ => cases h

/-- From an open record, the secret is broadcast to the first channel exactly when a reveal of
it from another channel is applied. -/
theorem mem_effects_open (hopen : rec.Open counter a b) (hrec : n.tracker id = some rec)
    {s : Bytes32} (hsecret : cfg.handler.sha256 s.data = counter.secretHash)
    (i : NodeInput RpcLog) : (a, .reveal ⟨id, s⟩) ∈ n.effects cfg i ↔ n.Forwards a id s i := by
  have heffects : ∀ source moment, n.next = some (source, .reveal ⟨id, s⟩) →
      n.effects cfg (.applyEvent moment) =
        [((if a = source then b else a), .reveal ⟨id, s⟩)] := by
    intro source moment hnext
    have hevent : cfg.handler.handle n.tracker source (.reveal ⟨id, s⟩) moment = _ :=
      Handler.onChainEvent_open (h := cfg.handler.priced moment.pricing) (r := ⟨id, s⟩) hopen hrec
        hsecret source moment.clock
    simp [effects, hnext, hevent, Effect.broadcasts]
  constructor
  · intro h
    obtain ⟨source, -, -, hnext, -⟩ := effects_reveal h
    cases i with
    | applyEvent moment =>
      refine ⟨source, hnext, ?_⟩
      rintro rfl
      rw [heffects _ moment hnext, if_pos rfl, List.mem_singleton, Prod.mk.injEq] at h
      exact hopen.ne h.1
    | _ => cases h
  · intro h
    cases i with
    | applyEvent moment =>
      obtain ⟨source, hnext, hne⟩ := h
      rw [heffects source moment hnext, if_neg (Ne.symm hne)]
      exact List.mem_singleton_self _
    | _ => cases h

theorem Forwards.resolves {s hash : Bytes32} {i : NodeInput RpcLog} (h : n.Forwards a id s i)
    (hsecret : cfg.handler.sha256 s.data = hash) : n.Resolves cfg id hash i := by
  cases i with
  | applyEvent moment =>
    obtain ⟨source, hnext, -⟩ := h
    exact ⟨_, hnext, rfl, hsecret⟩
  | _ => cases h

/-- Nothing is broadcast for a resolved swap as long as it keeps its record. -/
theorem emittedFor_resolved (cfg : NodeConfig RpcLog) (hrec : n.tracker id = some rec)
    (hres : rec.resolution.isSome)
    (c : ChannelId) (s : Bytes32) (ins : List (UInt64 × NodeInput RpcLog)) :
    (c, .reveal ⟨id, s⟩) ∉ n.emittedFor cfg id ins := by
  induction ins generalizing n with
  | nil => exact List.not_mem_nil
  | cons i ins ih =>
    rw [emittedFor, List.mem_append, not_or]
    constructor
    · intro h
      obtain ⟨source, rec', counter', -, hrec', -, hnone, -⟩ := effects_reveal h
      rw [hrec, Option.some.injEq] at hrec'
      subst hrec'
      rw [hnone] at hres
      cases hres
    · split_ifs with hkept
      · refine ih ?_
        rcases step_move cfg n i.1 i.2 with hmove | ⟨-, hcleanup⟩
        · exact hmove.keeps_resolved hrec hres
        · obtain ⟨rec', hrec'⟩ := Option.isSome_iff_exists.mp hkept
          rw [hcleanup] at hrec' ⊢
          obtain ⟨hsame, -⟩ := Option.filter_eq_some_iff.mp hrec'
          rw [hrec, Option.some.injEq] at hsame
          rwa [hsame]
      · exact List.not_mem_nil

private theorem emittedFor_subset (cfg : NodeConfig RpcLog) (id : SwapId) (n : Node)
    (ins : List (UInt64 × NodeInput RpcLog)) : n.emittedFor cfg id ins ⊆ n.emitted cfg ins := by
  induction ins generalizing n with
  | nil => exact List.Subset.refl _
  | cons i ins ih =>
    rw [emittedFor, emitted]
    split_ifs
    · exact List.append_subset.mpr ⟨List.subset_append_left _ _,
        List.Subset.trans (ih _) (List.subset_append_right _ _)⟩
    · rw [List.append_nil]
      exact List.subset_append_left _ _

/-- Without a clean-up a swap keeps its record. -/
theorem emittedFor_eq_emitted (cfg : NodeConfig RpcLog) (hrec : n.tracker id = some rec)
    (ins : List (UInt64 × NodeInput RpcLog)) (hkept : ∀ x ∈ ins, x.2 ≠ .cleanup) :
    n.emittedFor cfg id ins = n.emitted cfg ins := by
  induction ins generalizing n rec with
  | nil => rfl
  | cons i ins ih =>
    obtain ⟨hi, hins⟩ := List.forall_mem_cons.mp hkept
    obtain hmove | ⟨hcleanup, -⟩ := step_move cfg n i.1 i.2
    · obtain ⟨rec', hrec', -⟩ := hmove.keeps_init hrec
      rw [emittedFor, emitted, if_pos (Option.isSome_of_eq_some hrec'), ih hrec' hins]
    · exact absurd hcleanup hi

/-- Along a run that ends with the claim of the counter commitment, the secret is broadcast to
the first channel for the record exactly when nothing else resolved the swap first. -/
theorem mem_emittedFor_open (hopen : rec.Open counter a b) (hrec : n.tracker id = some rec)
    {s : Bytes32} (hsecret : cfg.handler.sha256 s.data = counter.secretHash)
    (ins : List (UInt64 × NodeInput RpcLog)) (now : UInt64) (moment : Moment)
    (hlast : (n.run cfg ins).next = some (b, .reveal ⟨id, s⟩)) :
    (a, .reveal ⟨id, s⟩) ∈ n.emittedFor cfg id (ins ++ [(now, .applyEvent moment)]) ↔
      n.FirstResolutionForwards cfg a id counter.secretHash s ins := by
  induction ins generalizing n with
  | nil =>
    have hforwards : n.Forwards a id s (.applyEvent moment : NodeInput RpcLog) :=
      ⟨b, hlast, hopen.ne.symm⟩
    simp [emittedFor, mem_effects_open hopen hrec hsecret, FirstResolutionForwards, hforwards]
  | cons i ins ih =>
    obtain ⟨hsame, hresolved⟩ := tracker_step_open cfg hopen hrec i.1 i.2
    rw [List.cons_append, emittedFor, List.mem_append, mem_effects_open hopen hrec hsecret,
      FirstResolutionForwards]
    by_cases hres : n.Resolves cfg id counter.secretHash i.2
    · obtain ⟨res, hrec'⟩ := hresolved hres
      have hrest := emittedFor_resolved cfg hrec' rfl a s (ins ++ [(now, .applyEvent moment)])
      simp [hres, hrec', hrest]
    · have hno : ¬ n.Forwards a id s i.2 := fun h => hres (h.resolves hsecret)
      simp [hres, hno, hsame hres, ih (hsame hres) hlast]

/-- For a locked swap that is not resolved yet, and a run after which the claim of its counter
commitment is applied: the secret is broadcast to the channel of the first commitment, for this
record, exactly when no other step resolved the swap first, or the one that did revealed the same
secret on another channel; without a clean-up it is broadcast at all exactly then. The resolution
changes exactly at the steps that carry the id of the swap. -/
theorem counter_claim_forwarded_iff (cfg : NodeConfig RpcLog) (cursor : ChannelId → UInt64)
    (cap : ℕ) (before ins : List (UInt64 × NodeInput RpcLog)) (id : SwapId) (rec : SwapRecord)
    (counter : CommitmentV1) (b : ChannelId) (s : Bytes32) (now : UInt64) (moment : Moment)
    (hrec : ((start cursor cap).run cfg before).tracker id = some rec)
    (hcounter : rec.counterCommitment = some counter) (hres : rec.resolution = none)
    (hb : counter.source = b.toByte) (hsecret : cfg.handler.sha256 s.data = counter.secretHash)
    (hlast : ((start cursor cap).run cfg (before ++ ins)).next = some (b, .reveal ⟨id, s⟩)) :
    ∃ a : ChannelId, rec.initCommitment.source = a.toByte ∧
      ((a, .reveal ⟨id, s⟩) ∈ ((start cursor cap).run cfg before).emittedFor cfg id
          (ins ++ [(now, .applyEvent moment)]) ↔
        ((start cursor cap).run cfg before).FirstResolutionForwards cfg a id
          rec.initCommitment.secretHash s ins) ∧
      (((start cursor cap).run cfg before).FirstResolutionForwards cfg a id
          rec.initCommitment.secretHash s ins →
        (a, .reveal ⟨id, s⟩) ∈ ((start cursor cap).run cfg before).emitted cfg
          (ins ++ [(now, .applyEvent moment)])) ∧
      ((∀ x ∈ ins, x.2 ≠ .cleanup) →
        ((a, .reveal ⟨id, s⟩) ∈ ((start cursor cap).run cfg before).emitted cfg
            (ins ++ [(now, .applyEvent moment)]) ↔
          ((start cursor cap).run cfg before).FirstResolutionForwards cfg a id
            rec.initCommitment.secretHash s ins)) ∧
      (∀ (n : Node) (now : UInt64) (i : NodeInput RpcLog), n.tracker id = some rec →
        ((n.step cfg now i).tracker id ≠ some rec ↔
          n.Resolves cfg id rec.initCommitment.secretHash i)) ∧
      (∀ l : Evm.ClaimLog, Evm.decodeLog cfg.codec (cfg.evm b).keccak256
        (cfg.codec.ofLog (.claim l)) b = .ok (some (.reveal ⟨l.swapId, l.secret⟩))) ∧
      ∀ sig redeem unlockTs target ops c,
        Script.signaturePushes sig = some [s.data, [1], redeem] →
        Kaspa.parseOpcodes redeem = .ok ops →
        Kaspa.extractCommitment cfg.kaspa.codec ops target cfg.kaspa.network cfg.kaspa.channelId =
          .ok c →
        Kaspa.classifySpend cfg.kaspa sig ⟨redeem, unlockTs, target⟩ =
          .ok (some (.reveal ⟨c.swapId, s⟩), true) := by
  have hsound := ((sound_start cursor cap).run cfg before).records id rec hrec
  obtain ⟨a, b', hopen⟩ := hsound.open hcounter hres
  obtain rfl : b' = b := ChannelId.toByte_injective (hopen.counter_source.symm.trans hb)
  rw [run_append] at hlast
  have hiff := mem_emittedFor_open hopen hrec hsecret ins now moment hlast
  rw [← hopen.secretHash] at hiff
  refine ⟨a, hopen.init_source, hiff, fun h => emittedFor_subset _ _ _ _ (hiff.mpr h),
    fun hkept => ?_, ?_, fun l => Evm.decodeLog_claim l, ?_⟩
  · rw [← emittedFor_eq_emitted cfg hrec _ ?_, hiff]
    rw [List.forall_mem_append, List.forall_mem_singleton]
    exact ⟨hkept, nofun⟩
  · intro n now i hn
    obtain ⟨hsame, hresolved⟩ := tracker_step_open cfg hopen hn now i
    rw [hopen.secretHash]
    constructor
    · intro hne
      by_contra hno
      exact hne (hsame hno)
    · intro hyes heq
      obtain ⟨res, hafter⟩ := hresolved hyes
      rw [heq, Option.some.injEq] at hafter
      have hnone := hopen.resolution
      rw [hafter] at hnone
      cases hnone
  · intro sig redeem unlockTs target ops c hsig hparse hread
    exact Kaspa.classifySpend_claim hsig hparse hread

end Node

/-- The provider's own commitment of the sample swap. -/
def sampleCounter : CommitmentV1 where
  swapId := .filled 3
  addresses := ⟨providerAddress, userAddress, providerAddress⟩
  amount := ⟨"1000", 18⟩
  secretHash := Htlc.sampleSecretHash
  unlockTs := 3700
  source := 2
  destination := 1

def sampleBlock (hash : UInt8) (sig : Bytes) (payee : Script.ScriptPublicKey) : Kaspa.Block :=
  ⟨.filled hash, 0, [⟨[⟨⟨.filled hash, 0⟩, sig, 0⟩], [⟨100000000, payee⟩], 0⟩]⟩

/-- Someone else announces, funds and refunds a script with the id of the sample swap on a
third channel. -/
def foreignRefundRun : List (UInt64 × NodeInput Evm.Log) :=
  [(120, .gossipScript ⟨Kaspa.sampleAddress, .filled 3, Htlc.sampleRedeem, 1000, "100000000"⟩),
    (130, .receiveBlock
      (sampleBlock 20 [] ⟨0, Script.payToScriptHashScript Htlc.sampleRedeemHash⟩)),
    (130, .receiveBlock
      (sampleBlock 21 (Script.serialize [⟨Htlc.opFalse, []⟩, Script.canonicalPush Htlc.sampleRedeem])
        (Htlc.payToPubKey 1))),
    (140, .pollKaspa), (140, sampleApply), (140, sampleApply)]

/-- The claim of the provider's own commitment is polled. -/
def counterClaimRun : List (UInt64 × NodeInput Evm.Log) :=
  [(150, samplePoll .igraGalleon 60 (.claim ⟨.filled 3, .filled 7, 5, 999, 1⟩))]

namespace Node

/-- After the foreign refund the claim of the provider's own commitment is not forwarded. -/
theorem foreign_refund_stops_forwarding :
    (.igraGalleon, .commitment sampleCounter) ∈ sampleStart.emitted sampleNode lockingRun ∧
      (((sampleStart.run sampleNode lockingRun).tracker (.filled 3)).map fun rec =>
        (rec.initCommitment.source, rec.counterCommitment, rec.resolution)) =
          some (1, some sampleCounter, none) ∧
      (sampleStart.run sampleNode (lockingRun ++ foreignRefundRun ++ counterClaimRun)).next =
        some (.igraGalleon, .reveal ⟨.filled 3, .filled 7⟩) ∧
      sampleSha256 (Bytes32.filled 7).data = sampleCounter.secretHash ∧
      (.ethereumSepolia, .reveal ⟨.filled 3, .filled 7⟩) ∉ sampleStart.emitted sampleNode
        (lockingRun ++ foreignRefundRun ++ counterClaimRun ++ [(160, sampleApply)]) := by
  decide +kernel

theorem counter_claim_forwarded_sample :
    (.ethereumSepolia, .reveal ⟨.filled 3, .filled 7⟩) ∈
      (sampleStart.run sampleNode lockingRun).emitted sampleNode
        ((145, .cleanup) :: counterClaimRun ++ [(160, sampleApply)]) := by
  have hlocked : ((sampleStart.run sampleNode lockingRun).tracker (.filled 3)).map (fun rec =>
      (rec.initCommitment.source, rec.counterCommitment, rec.resolution)) =
        some (1, some sampleCounter, none) := by
    decide +kernel
  obtain ⟨rec, hrec, hfields⟩ := Option.map_eq_some_iff.mp hlocked
  simp only [Prod.mk.injEq] at hfields
  obtain ⟨hsource, hcounter, hres⟩ := hfields
  obtain ⟨a, ha, -, hemitted, -⟩ := counter_claim_forwarded_iff sampleNode (fun _ => 0) 50000
    lockingRun ((145, .cleanup) :: counterClaimRun) (.filled 3) rec sampleCounter .igraGalleon
    (.filled 7) 160 ⟨⟨fun _ => some 100, 100⟩, samplePricing⟩ hrec hcounter hres rfl
    (by decide +kernel) (by decide +kernel)
  obtain rfl : a = .ethereumSepolia := ChannelId.toByte_injective (ha.symm.trans hsource)
  exact hemitted ⟨False.elim, fun _ => ⟨False.elim, fun _ => trivial⟩⟩

end Node
end Stroemnet
