import Stroemnet.FloodCompleteness
import Stroemnet.QuoteSignatures

/-! # Quotes of a network

A user asks the whole network for quotes, as nodes pass requests on. A provider answers over the
connection that brought it the request, and nobody passes an answer on: a node that asked for
nothing lets it drop. So a user sees the quotes of those providers only that it has asked itself. -/
namespace Stroemnet.Gossip

open Quotes

/-- An answer to a request, and the connection that it is sent over. -/
structure Reply (ν : Type) where
  provider : ν
  request : ProposalRequest
  msg : P2pMsg
  link : Link ν
deriving DecidableEq

/-- A quote as it is shown, and the name of the connection that it came over. -/
structure Shown (ν : Type) where
  node : ν
  source : String
  response : ProposalResponse
  quote : CheckedQuote

inductive QuoteEvent (ν : Type)
  | gossip (h : Happening ν)
  | answered (reply : Reply ν)
  | quoted (shown : Shown ν)

/-- A step of the network, with the nodes as they are at that time. -/
structure QuoteInput (ν : Type) where
  input : NetInput ν
  coordinators : ν → Coordinator

section Steps

variable {ν : Type} [DecidableEq ν] (T : Topology ν)

def delivered (net : Network ν) : NetInput ν → Option (Packet ν × P2pMsg)
  | .deliver i =>
    match net.inFlight[i]? with
    | some p =>
      match decode p.payload with
      | .ok msg => some (p, msg)
      | .error _ => none
    | none => none
  | _ => none

/-- The connection of a node that `send_to` finds for a name. -/
def linkTo (n : ν) (url : String) : Option (Link ν) :=
  (T.links n).find? fun link => link.url = url

/-- The answer of a provider that acts on a request: it goes to where the request came from. -/
def replies (net : Network ν) (i : QuoteInput ν) : List (Reply ν) :=
  match delivered net i.input with
  | some (p, .proposalRequest req) =>
    if .acted p.target (.proposalRequest req) ∈ net.out T i.input then
      match ((i.coordinators p.target).handleProposal T.sha256 req).sent,
        linkTo T p.target p.source with
      | some msg, some link => [⟨p.target, req, msg, link⟩]
      | _, _ => []
    else []
  | _ => []

def Reply.packet? (reply : Reply ν) : Option (Packet ν) :=
  match encode reply.msg with
  | .ok bytes => some ⟨reply.link.peer, reply.link.name, bytes⟩
  | .error _ => none

/-- The quote of a response that gets to a browser; other nodes have no use for it. -/
def quotes (browser : ν → Bool) (net : Network ν) (i : QuoteInput ν) : List (Shown ν) :=
  match delivered net i.input with
  | some (p, .proposalResponse r) =>
    if browser p.target then
      match (i.coordinators p.target).onProposalResponse T.sha256 r with
      | some (_, quote) => [⟨p.target, p.source, r, quote⟩]
      | none => []
    else []
  | _ => []

def quoteStep (net : Network ν) (i : QuoteInput ν) : Network ν :=
  { net.step T i.input with
    inFlight := (net.step T i.input).inFlight ++ (replies T net i).filterMap Reply.packet? }

def quoteEvents (browser : ν → Bool) (net : Network ν) (i : QuoteInput ν) : List (QuoteEvent ν) :=
  (net.out T i.input).map .gossip ++ (replies T net i).map .answered ++
    (quotes T browser net i).map .quoted

end Steps

variable {ν : Type} [DecidableEq ν] {T : Topology ν} {net : Network ν}

/-- A packet comes of a message that a node has sent over one of its connections. -/
def SentAs (T : Topology ν) (hs : List (Happening ν)) (p : Packet ν) : Prop :=
  ∃ n msg, ∃ link ∈ T.links n, .sent n msg link ∈ hs ∧ encode msg = .ok p.payload ∧
    p.target = link.peer ∧ p.source = link.name

omit [DecidableEq ν] in
theorem sentAs_of_targets {n : ν} {msg : P2pMsg} {bytes : Bytes} {exclude : Option String}
    {hs : List (Happening ν)} {p : Packet ν} (hencode : encode msg = .ok bytes)
    (hp : p ∈ (targets T n exclude).map fun link => ⟨link.peer, link.name, bytes⟩)
    (hhs : ∀ link ∈ targets T n exclude, .sent n msg link ∈ hs) : SentAs T hs p := by
  obtain ⟨link, hlink, rfl⟩ := List.mem_map.mp hp
  exact ⟨n, msg, link, (List.mem_filter.mp hlink).1, hhs link hlink, hencode, rfl, rfl⟩

theorem mem_inFlight_step {input : NetInput ν} {p : Packet ν}
    (hp : p ∈ (net.step T input).inFlight) :
    p ∈ net.inFlight ∨ input = .arrive p ∨ SentAs T (net.out T input) p := by
  unfold Network.step at hp
  unfold Network.out
  cases input with
  | broadcast n msg =>
    simp only [Network.act, Network.broadcast, Network.observe] at hp ⊢
    cases hencode : encode msg with
    | error e =>
      rw [hencode] at hp
      exact .inl hp
    | ok bytes =>
      simp only [hencode, Network.sendBytesToAll] at hp
      rcases List.mem_append.mp hp with hp | hp
      · exact .inl hp
      · exact .inr (.inr (sentAs_of_targets hencode hp fun link hlink => by simp [hlink]))
  | deliver i =>
    simp only [Network.act] at hp ⊢
    cases hq : net.inFlight[i]? with
    | none =>
      rw [hq] at hp
      exact .inl hp
    | some q =>
      simp only [hq] at hp ⊢
      cases hmsg : decode q.payload with
      | error e =>
        rw [hmsg] at hp
        exact .inl (List.mem_of_mem_eraseIdx hp)
      | ok msg =>
        have hencode := encode_of_decode hmsg
        simp only [hmsg, handleIncoming_eq, forwardAnd_eq hencode] at hp ⊢
        by_cases hnew : relays T q.target msg = true ∧ T.sha256 q.payload ∉ (net.seen q.target).set
        · rw [if_pos hnew.1, if_neg hnew.2] at hp ⊢
          rcases List.mem_append.mp hp with hp | hp
          · exact .inl (List.mem_of_mem_eraseIdx hp)
          · exact .inr (.inr (sentAs_of_targets hencode hp fun link hlink => by simp [hlink]))
        · left
          rw [not_and_not_right] at hnew
          split_ifs at hp with hrelays hseen
          · exact List.mem_of_mem_eraseIdx hp
          · exact absurd (hnew hrelays) hseen
          · exact absurd (hnew hrelays) hseen
          · exact List.mem_of_mem_eraseIdx hp
  | drop i => exact .inl (List.mem_of_mem_eraseIdx hp)
  | arrive q =>
    rcases List.mem_append.mp hp with hp | hp
    · exact .inl hp
    · exact .inr (.inl (by rw [List.mem_singleton.mp hp]))

omit [DecidableEq ν] in
theorem eq_of_sent_targets {n m : ν} {msg msg' : P2pMsg} {link : Link ν} {exclude : Option String}
    (h : .sent n msg link ∈ (targets T m exclude).map (Happening.sent m msg')) :
    n = m ∧ msg = msg' ∧ link ∈ T.links m := by
  obtain ⟨link', hlink, heq⟩ := List.mem_map.mp h
  obtain ⟨rfl, rfl, rfl⟩ := Happening.sent.inj heq
  exact ⟨rfl, rfl, (List.mem_filter.mp hlink).1⟩

/-- What a node sends it has broadcast, or passes on. -/
theorem sent_step {input : NetInput ν} {n : ν} {msg : P2pMsg} {link : Link ν}
    (h : .sent n msg link ∈ net.out T input) :
    link ∈ T.links n ∧ (input = .broadcast n msg ∨ relays T n msg = true) := by
  unfold Network.out at h
  cases input with
  | broadcast m msg' =>
    simp only [Network.act, Network.broadcast, Network.observe] at h
    cases hencode : encode msg' with
    | error e => simp [hencode] at h
    | ok bytes =>
      simp only [hencode, List.mem_cons, reduceCtorEq, false_or] at h
      obtain ⟨rfl, rfl, hlink⟩ := eq_of_sent_targets h
      exact ⟨hlink, .inl rfl⟩
  | deliver i =>
    simp only [Network.act] at h
    cases hq : net.inFlight[i]? with
    | none => simp [hq] at h
    | some q =>
      simp only [hq] at h
      cases hmsg : decode q.payload with
      | error e => simp [hmsg] at h
      | ok msg' =>
        simp only [hmsg, handleIncoming_eq, forwardAnd_eq (encode_of_decode hmsg)] at h
        by_cases hrelays : relays T q.target msg' = true
        · rw [if_pos hrelays] at h
          by_cases hseen : T.sha256 q.payload ∈ (net.seen q.target).set
          · simp [if_pos hseen] at h
          · simp only [if_neg hseen, List.mem_cons, reduceCtorEq, false_or, List.mem_append] at h
            rcases h with h | h
            · obtain ⟨rfl, rfl, hlink⟩ := eq_of_sent_targets h
              exact ⟨hlink, .inr hrelays⟩
            · split_ifs at h <;> simp at h
        · rw [if_neg hrelays] at h
          cases h
  | drop i => cases h
  | arrive q => cases h

section Deliveries

variable {i : QuoteInput ν}

omit [DecidableEq ν] in
theorem delivered_eq_some {input : NetInput ν} {p : Packet ν} {msg : P2pMsg}
    (h : delivered net input = some (p, msg)) :
    p ∈ net.inFlight ∧ decode p.payload = .ok msg := by
  cases input with
  | deliver i =>
    simp only [delivered] at h
    cases hp : net.inFlight[i]? with
    | none => simp [hp] at h
    | some q =>
      simp only [hp] at h
      cases hmsg : decode q.payload with
      | error e => simp [hmsg] at h
      | ok msg' =>
        simp only [hmsg, Option.some.injEq, Prod.mk.injEq] at h
        obtain ⟨rfl, rfl⟩ := h
        exact ⟨List.mem_of_getElem? hp, hmsg⟩
  | _ => cases h

theorem replies_eq (h : replies T net i ≠ []) :
    ∃ p ∈ net.inFlight, ∃ req msg, ∃ link ∈ T.links p.target,
      replies T net i = [⟨p.target, req, msg, link⟩] ∧
      decode p.payload = .ok (.proposalRequest req) ∧ link.url = p.source ∧
      .acted p.target (.proposalRequest req) ∈ net.out T i.input ∧
      ((i.coordinators p.target).handleProposal T.sha256 req).sent = some msg := by
  unfold replies at h ⊢
  split at h
  · rename_i p req hdelivered
    obtain ⟨hp, hdecode⟩ := delivered_eq_some hdelivered
    split_ifs at h with hacted
    · rw [if_pos hacted]
      cases hsent : ((i.coordinators p.target).handleProposal T.sha256 req).sent with
      | none => simp [hsent] at h
      | some msg =>
        cases hlink : linkTo T p.target p.source with
        | none => simp [hsent, hlink] at h
        | some link =>
          have hurl :=
            List.find?_some (p := fun link : Link ν => decide (link.url = p.source)) hlink
          exact ⟨p, hp, req, msg, link, List.mem_of_find?_eq_some hlink, rfl, hdecode,
            of_decide_eq_true hurl, hacted, hsent⟩
    · exact absurd rfl h
  · exact absurd rfl h

omit [DecidableEq ν] in
private theorem mem_quotes {browser : ν → Bool} {shown : Shown ν}
    (h : shown ∈ quotes T browser net i) :
    ∃ p ∈ net.inFlight, decode p.payload = .ok (.proposalResponse shown.response) ∧
      shown.node = p.target ∧ shown.source = p.source := by
  unfold quotes at h
  split at h
  · rename_i p r hdelivered
    obtain ⟨hp, hdecode⟩ := delivered_eq_some hdelivered
    split_ifs at h
    · split at h
      · rw [List.mem_singleton.mp h]
        exact ⟨p, hp, hdecode, rfl, rfl⟩
      · cases h
    · cases h
  · cases h

end Deliveries

/-- A provider answers with a quote for the swap, or says why there is none. -/
theorem handleProposal_sent {c : Coordinator} {sha256 : Bytes → Bytes32} {req : ProposalRequest}
    {msg : P2pMsg} (h : (c.handleProposal sha256 req).sent = some msg) :
    (∃ e, msg = .proposalError e) ∨ ∃ r, msg = .proposalResponse r ∧ r.swapId = req.swapId := by
  unfold Coordinator.handleProposal at h
  split at h
  · split at h
    · exact .inl ⟨_, (Option.some.inj h).symm⟩
    · cases h
  · simp only at h
    split at h
    · cases h
    · split at h
      · cases h
      · exact .inr ⟨_, (Option.some.inj h).symm, rfl⟩

/-- The same connection at the other end. -/
def Link.back (n : ν) (link : Link ν) : Link ν := ⟨link.name, n, link.url⟩

/-- Both ends of a connection have it, under a name that none of their others has. -/
structure Topology.Paired (T : Topology ν) : Prop where
  back : ∀ n, ∀ link ∈ T.links n, link.back n ∈ T.links link.peer
  unique : ∀ n, ∀ link ∈ T.links n, ∀ other ∈ T.links n, other.url = link.url → other = link

/-- Nodes broadcast no answers, and what comes from outside comes over connections of its own. -/
def Proper (T : Topology ν) : NetInput ν → Prop
  | .broadcast _ msg => ∀ r, msg ≠ .proposalResponse r
  | .arrive p => ∀ link ∈ T.links p.target, link.url ≠ p.source
  | _ => True

/-- Packets, answers and quotes have been sent by the node at the other end. -/
structure Traced (T : Topology ν) (net : Network ν) (log : List (QuoteEvent ν)) : Prop where
  packets : ∀ p ∈ net.inFlight, ∀ link ∈ T.links p.target, link.url = p.source →
    ∀ msg, decode p.payload = .ok msg →
      .gossip (.sent link.peer msg (link.back p.target)) ∈ log ∨
        ∃ req, .answered ⟨link.peer, req, msg, link.back p.target⟩ ∈ log
  sent : ∀ n msg link, .gossip (.sent n msg link) ∈ log → ∀ r, msg ≠ .proposalResponse r
  answered : ∀ a, .answered a ∈ log →
    .gossip (.sent a.link.peer (.proposalRequest a.request) (a.link.back a.provider)) ∈ log ∧
      ∃ c : Coordinator, (c.handleProposal T.sha256 a.request).sent = some a.msg
  quoted : ∀ shown, .quoted shown ∈ log → ∀ link ∈ T.links shown.node, link.url = shown.source →
    ∃ req, .answered ⟨link.peer, req, .proposalResponse shown.response, link.back shown.node⟩ ∈ log

section Tracing

variable {log : List (QuoteEvent ν)} {browser : ν → Bool} {i : QuoteInput ν}

omit [DecidableEq ν] in
/-- Whoever is at the other end of the connection that a packet came over has sent it. -/
theorem Topology.Paired.eq_back (hpaired : T.Paired) {n : ν} {link other : Link ν}
    (hlink : link ∈ T.links n) (hother : other ∈ T.links link.peer) (hurl : other.url = link.name) :
    other = link.back n :=
  hpaired.unique link.peer _ (hpaired.back n link hlink) other hother hurl

omit [DecidableEq ν] in
private theorem traced_new (T : Topology ν) (cap : ℕ) : Traced T (Network.new cap) [] where
  packets _ hp := absurd hp List.not_mem_nil
  sent _ _ _ h := absurd h List.not_mem_nil
  answered _ h := absurd h List.not_mem_nil
  quoted _ h := absurd h List.not_mem_nil

theorem packets_step (hpaired : T.Paired) (h : Traced T net log) (hproper : Proper T i.input) :
    ∀ p ∈ (quoteStep T net i).inFlight, ∀ link ∈ T.links p.target, link.url = p.source →
      ∀ msg, decode p.payload = .ok msg →
        .gossip (.sent link.peer msg (link.back p.target)) ∈ log ++ quoteEvents T browser net i ∨
          ∃ req, .answered ⟨link.peer, req, msg, link.back p.target⟩ ∈
            log ++ quoteEvents T browser net i := by
  intro p hp link hlink hurl msg hdecode
  rcases List.mem_append.mp hp with hp | hp
  · rcases mem_inFlight_step hp with
      hp | harrive | ⟨n, msg', conn, hconn, hsent, hencode, htarget, hname⟩
    · rcases h.packets p hp link hlink hurl msg hdecode with hsent | ⟨req, hanswered⟩
      · exact .inl (List.mem_append_left _ hsent)
      · exact .inr ⟨req, List.mem_append_left _ hanswered⟩
    · rw [harrive] at hproper
      exact absurd hurl (hproper link hlink)
    · left
      obtain rfl := eq_of_encode hdecode hencode
      rw [htarget] at hlink ⊢
      obtain rfl := hpaired.eq_back hconn hlink (hurl.trans hname)
      exact List.mem_append_right _ (by simp [quoteEvents, Link.back, hsent])
  · right
    obtain ⟨a, ha, hpacket⟩ := List.mem_filterMap.mp hp
    obtain ⟨q, -, req, msg', conn, hconn, hreplies, -⟩ := replies_eq (List.ne_nil_of_mem ha)
    obtain rfl := List.mem_singleton.mp (hreplies ▸ ha)
    simp only [Reply.packet?] at hpacket
    cases hencode : encode msg' with
    | error e => simp [hencode] at hpacket
    | ok bytes =>
      simp only [hencode, Option.some.injEq] at hpacket
      subst hpacket
      obtain rfl := eq_of_encode hdecode hencode
      obtain rfl := hpaired.eq_back hconn hlink hurl
      exact ⟨req, List.mem_append_right _ (by simp [quoteEvents, Link.back, hreplies])⟩

theorem traced_step (hpaired : T.Paired) (h : Traced T net log) (hproper : Proper T i.input) :
    Traced T (quoteStep T net i) (log ++ quoteEvents T browser net i) where
  packets := packets_step hpaired h hproper
  sent := by
    intro n msg link hsent
    rcases List.mem_append.mp hsent with hsent | hsent
    · exact h.sent n msg link hsent
    · have hout : .sent n msg link ∈ net.out T i.input := by simpa [quoteEvents] using hsent
      obtain ⟨-, hbroadcast | hrelays⟩ := sent_step hout
      · rw [hbroadcast] at hproper
        exact hproper
      · rintro r rfl
        cases hrelays
  answered := by
    intro a ha
    rcases List.mem_append.mp ha with ha | ha
    · obtain ⟨hsent, hmade⟩ := h.answered a ha
      exact ⟨List.mem_append_left _ hsent, hmade⟩
    · have ha : a ∈ replies T net i := by simpa [quoteEvents] using ha
      obtain ⟨p, hp, req, msg, link, hlink, hreplies, hdecode, hurl, -, hmade⟩ :=
        replies_eq (List.ne_nil_of_mem ha)
      obtain rfl := List.mem_singleton.mp (hreplies ▸ ha)
      refine ⟨List.mem_append_left _ ?_, _, hmade⟩
      rcases h.packets p hp link hlink hurl _ hdecode with hsent | ⟨req', hanswered⟩
      · exact hsent
      · obtain ⟨-, c, hsent⟩ := h.answered _ hanswered
        rcases handleProposal_sent hsent with ⟨e, he⟩ | ⟨r, hr, -⟩
        · cases he
        · cases hr
  quoted := by
    intro shown hshown link hlink hurl
    rcases List.mem_append.mp hshown with hshown | hshown
    · obtain ⟨req, hanswered⟩ := h.quoted shown hshown link hlink hurl
      exact ⟨req, List.mem_append_left _ hanswered⟩
    · have hshown : shown ∈ quotes T browser net i := by simpa [quoteEvents] using hshown
      obtain ⟨p, hp, hdecode, hnode, hsource⟩ := mem_quotes hshown
      rw [hnode] at hlink ⊢
      rcases h.packets p hp link hlink (hurl.trans hsource) _ hdecode with hsent | ⟨req, hanswered⟩
      · exact absurd rfl (h.sent _ _ _ hsent shown.response)
      · exact ⟨req, List.mem_append_left _ hanswered⟩

end Tracing

namespace QuoteEvent

def gossip? : QuoteEvent ν → Option (Happening ν)
  | .gossip h => some h
  | _ => none

def answers (n : ν) (req : ProposalRequest) : QuoteEvent ν → Bool
  | .answered a => a.provider = n ∧ a.request = req
  | _ => false

end QuoteEvent

section Answering

variable {cap : ℕ} {S : ν → Finset Bytes32} {browser : ν → Bool} {i : QuoteInput ν}
  {inputs : List (QuoteInput ν)}

private theorem countP_answers_le (n : ν) (req : ProposalRequest) :
    (quoteEvents T browser net i).countP (QuoteEvent.answers n req) ≤
      (net.out T i.input).count (.acted n (.proposalRequest req)) := by
  have hgossip : QuoteEvent.answers n req ∘ QuoteEvent.gossip = fun _ => false := rfl
  have hquoted : QuoteEvent.answers n req ∘ QuoteEvent.quoted = fun _ => false := rfl
  simp only [quoteEvents, List.countP_append, List.countP_map, hgossip, hquoted, List.countP_false]
  by_cases hnone : replies T net i = []
  · rw [hnone]
    exact Nat.zero_le _
  · obtain ⟨p, -, req', msg, link, -, hreplies, -, -, hacted, -⟩ := replies_eq hnone
    rw [hreplies, List.countP_singleton]
    split_ifs with hsame
    · obtain ⟨rfl, rfl⟩ := of_decide_eq_true hsame
      exact List.count_pos_iff.mpr hacted
    · exact Nat.zero_le _

private theorem along_kept_quotes (browser : ν → Bool) (hcard : ∀ n, (S n).card ≤ cap)
    (h : Bounded cap S net.seen)
    (hwithin : ∀ x ∈ Runs.outputs (quoteStep T) (quoteEvents T browser) net inputs,
      ∀ happening ∈ x.gossip?, Within S happening) :
    Runs.Along (quoteStep T) (fun net i => Kept T cap S net i.input) net inputs := by
  refine (Runs.along_outputs hwithin).of_invariant (I := fun net => Bounded cap S net.seen)
    (fun net i h hevents => ?_) h
  have hout : ∀ x ∈ net.out T i.input, Within S x := fun x hx =>
    hevents (.gossip x) (by simp [quoteEvents, hx]) x rfl
  exact ⟨⟨hout, h⟩, bounded_step hcard net i.input h hout⟩

private theorem countP_answers_outputs_le (hcard : ∀ n, (S n).card ≤ cap)
    (h : Runs.Along (quoteStep T) (fun net i => Kept T cap S net i.input) net inputs) (n : ν)
    (req : ProposalRequest) :
    (Runs.outputs (quoteStep T) (quoteEvents T browser) net inputs).countP
      (QuoteEvent.answers n req) ≤ 1 := by
  have hstep : ∀ net i, Kept T cap S net i.input →
      (quoteEvents T browser net i).countP (QuoteEvent.answers n req) +
        (if marked T (quoteStep T net i).seen n (.proposalRequest req) then 0 else 1) ≤
      (if marked T net.seen n (.proposalRequest req) then 0 else 1) + 0 := fun net i hkept =>
    (Nat.add_le_add_right (countP_answers_le n req) _).trans
      ((emission_act net i.input).count_le hcard hkept.2 hkept.1 n _ (.inl rfl))
  have hle := h.countP_outputs_le
    (fun net => if marked T net.seen n (.proposalRequest req) then 0 else 1) (fun _ => 0) hstep
  rw [List.map_const', List.sum_replicate, smul_eq_mul, Nat.mul_zero, Nat.add_zero] at hle
  exact hle.trans (by split_ifs <;> decide)

/-- A quote that is shown came from the provider at the other end of the connection, in answer to a
request that the user's node itself had sent over it; no node sends on a response that it got; and
in a run in which no node looks up more digests than its set has room for, a provider answers a
request at most once. -/
theorem quotes_travel_one_hop (T : Topology ν) (hpaired : T.Paired) (browser : ν → Bool) (cap : ℕ)
    (inputs : List (QuoteInput ν)) (hproper : ∀ i ∈ inputs, Proper T i.input) :
    let log := Runs.outputs (quoteStep T) (quoteEvents T browser) (Network.new cap) inputs
    (∀ shown, .quoted shown ∈ log → ∀ link ∈ T.links shown.node, link.url = shown.source →
      ∃ req, .gossip (.sent shown.node (.proposalRequest req) link) ∈ log ∧
        .answered ⟨link.peer, req, .proposalResponse shown.response, link.back shown.node⟩ ∈ log ∧
        shown.response.swapId = req.swapId) ∧
    (∀ n r link, .gossip (.sent n (.proposalResponse r) link) ∉ log) ∧
    ((∀ n, (observedAt n (log.filterMap QuoteEvent.gossip?)).card ≤ cap) →
      ∀ n req, log.countP (QuoteEvent.answers n req) ≤ 1) := by
  intro log
  have hany : Runs.Along (quoteStep T) (fun _ _ => True) (Network.new cap) inputs :=
    Runs.along_true _ _
  have hall : Runs.Along (quoteStep T) (fun _ i => i ∈ inputs) (Network.new cap) inputs :=
    hany.and_mem.mono fun _ _ h => h.2
  have htraced : Traced T (Runs.final (quoteStep T) (Network.new cap) inputs) log :=
    hall.invariant_outputs (I := Traced T)
      (fun _ i _ h hi => traced_step hpaired h (hproper i hi)) (traced_new T cap)
  refine ⟨?_, fun n r link hsent => htraced.sent n _ link hsent r rfl, ?_⟩
  · intro shown hshown link hlink hurl
    obtain ⟨req, hanswered⟩ := htraced.quoted shown hshown link hlink hurl
    obtain ⟨hsent, c, hmade⟩ := htraced.answered _ hanswered
    refine ⟨req, hsent, hanswered, ?_⟩
    rcases handleProposal_sent hmade with ⟨e, he⟩ | ⟨r, hr, hid⟩
    · cases he
    · rw [P2pMsg.proposalResponse.inj hr]
      exact hid
  · intro hcap n req
    have hbounded : Bounded cap (fun n => observedAt n (log.filterMap QuoteEvent.gossip?))
        (Network.new cap).seen := fun n => ⟨rfl, Finset.empty_subset _⟩
    refine countP_answers_outputs_le hcap (along_kept_quotes browser hcap hbounded ?_) n req
    intro x hx happening hgossip
    cases happening with
    | observed n d =>
      refine List.mem_toFinset.mpr (List.mem_filterMap.mpr
        ⟨_, List.mem_filterMap.mpr ⟨x, hx, hgossip⟩, ?_⟩)
      simp
    | _ => trivial

end Answering

/-- The digests of the sample request and of the terms of its quote. -/
def quoteSha256 (bytes : Bytes) : Bytes32 :=
  if encode (.proposalRequest Coordinator.sampleProposalRequest) = .ok bytes then
    ⟨[164, 118, 166, 174, 3, 84, 121, 146, 41, 250, 4, 18, 216, 38, 109, 249, 120, 185, 28, 133, 53,
      160, 51, 135, 28, 170, 98, 167, 212, 204, 153, 165], rfl⟩
  else if Coordinator.sampleTerms.bytes = bytes then
    ⟨[61, 8, 57, 195, 173, 187, 250, 82, 25, 246, 20, 241, 200, 219, 238, 47, 203, 186, 186, 163,
      121, 134, 193, 180, 224, 0, 63, 106, 214, 11, 191, 3], rfl⟩
  else default

def quoteTopology : Topology Bool where
  links n := [⟨"ws://peer", !n, "ws://peer"⟩]
  knowsChannel _ _ := true
  lp n := n
  scriptChannel _ := true
  sha256 := quoteSha256

private theorem quoteTopology_paired : quoteTopology.Paired where
  back n link hlink := by
    rw [List.mem_singleton.mp hlink]
    cases n <;> exact List.mem_singleton_self _
  unique n link hlink other hother _ := by
    rw [List.mem_singleton.mp hlink, List.mem_singleton.mp hother]

def withSample {ν : Type} (input : NetInput ν) : QuoteInput ν :=
  ⟨input, fun _ => Coordinator.sampleCoordinator⟩

def askedOnce : List (QuoteInput Bool) :=
  [.broadcast false (.proposalRequest Coordinator.sampleProposalRequest), .deliver 0,
    .deliver 0].map withSample

def shown? {ν : Type} : QuoteEvent ν → Option (ν × String × ProposalResponse)
  | .quoted shown => some (shown.node, shown.source, shown.response)
  | _ => none

def askedOnceLog : List (QuoteEvent Bool) :=
  Runs.outputs (quoteStep quoteTopology) (quoteEvents quoteTopology fun n => !n)
    (Network.new 50000) askedOnce

private theorem askedOnce_facts :
    askedOnceLog.filterMap shown? = [(false, "ws://peer",
      { Coordinator.sampleResponse with
        lpSignature := (quoteSha256 Coordinator.sampleTerms.bytes).data })] ∧
      ∀ n, (observedAt n (askedOnceLog.filterMap QuoteEvent.gossip?)).card ≤ 50000 := by
  decide +kernel

theorem askedOnce_one_hop :
    (∃ shown, .quoted shown ∈ askedOnceLog ∧ ∃ req,
      .gossip (.sent false (.proposalRequest req) ⟨"ws://peer", true, "ws://peer"⟩) ∈
        askedOnceLog ∧ shown.response.swapId = req.swapId) ∧
      ∀ n req, askedOnceLog.countP (QuoteEvent.answers n req) ≤ 1 := by
  obtain ⟨hshown, hcap⟩ := askedOnce_facts
  have hproper : ∀ i ∈ askedOnce, Proper quoteTopology i.input := by
    intro i hi
    simp only [askedOnce, withSample, List.map_cons, List.map_nil, List.mem_cons,
      List.not_mem_nil, or_false] at hi
    rcases hi with rfl | rfl | rfl
    · exact nofun
    · trivial
    · trivial
  obtain ⟨hquoted, -, hanswers⟩ := quotes_travel_one_hop quoteTopology quoteTopology_paired
    (fun n => !n) 50000 askedOnce hproper
  refine ⟨?_, hanswers hcap⟩
  obtain ⟨event, hevent, hsome⟩ := List.mem_filterMap.mp (hshown ▸ List.mem_singleton_self _)
  cases event with
  | quoted shown =>
    rw [shown?, Option.some.injEq, Prod.mk.injEq, Prod.mk.injEq] at hsome
    obtain ⟨hnode, hsource, -⟩ := hsome
    obtain ⟨req, hsent, -, hid⟩ := hquoted shown hevent ⟨"ws://peer", true, "ws://peer"⟩
      (hnode ▸ List.mem_singleton_self _) hsource.symm
    exact ⟨shown, hevent, req, hnode ▸ hsent, hid⟩
  | _ => cases hsome

/-- A user, a node that passes on, and a provider that knows only the latter. -/
def lineTopology : Topology (Fin 3) where
  links
    | 0 => [⟨"ws://middle", 1, "ws://user"⟩]
    | 1 => [⟨"ws://user", 0, "ws://middle"⟩, ⟨"ws://provider", 2, "ws://middle"⟩]
    | 2 => [⟨"ws://middle", 1, "ws://provider"⟩]
  knowsChannel _ _ := true
  lp n := n = 2
  scriptChannel _ := true
  sha256 := quoteSha256

-- The provider answers the node in the middle, and the user never sees the quote.
example :
    let log := Runs.outputs (quoteStep lineTopology) (quoteEvents lineTopology fun n => n = 0)
      (Network.new 50000) ([.broadcast 0 (.proposalRequest Coordinator.sampleProposalRequest),
        .deliver 0, .deliver 0, .deliver 0].map withSample)
    log.countP (QuoteEvent.answers 2 Coordinator.sampleProposalRequest) = 1 ∧
      log.filterMap shown? = [] := by
  decide +kernel

end Stroemnet.Gossip
