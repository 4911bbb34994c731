import Stroemnet.PeerDiscovery

/-! # The dials of a node

Two things hold of the addresses that a node has heard of, however its connections, its dialler and
the drivers take turns. Those in flight are the ones that drivers hold, so that a node has only so
many discovered peers, and one connection of its own making to each address. And those that it has
asked for are settled in turn, each with a peer that named it. -/
namespace Stroemnet.Gossip

structure Leased (inFlight : Finset String) (drivers : List DialDriver) : Prop where
  distinct : ((drivers.filter DialDriver.live).map DialDriver.urlNorm).Nodup
  held : inFlight = ((drivers.filter DialDriver.live).map DialDriver.urlNorm).toFinset

section Leases

variable {inFlight : Finset String} {drivers drivers' rest : List DialDriver} {d d' : DialDriver}

theorem Leased.perm (h : Leased inFlight drivers) (hperm : drivers.Perm drivers') :
    Leased inFlight drivers' := by
  have hkeys := (hperm.filter DialDriver.live).map DialDriver.urlNorm
  exact ⟨hkeys.nodup_iff.mp h.distinct, by rw [h.held, List.toFinset_eq_of_perm _ _ hkeys]⟩

theorem Leased.start (h : Leased inFlight drivers) (hlive : d.live = true)
    (hfree : d.urlNorm ∉ inFlight) : Leased (insert d.urlNorm inFlight) (d :: drivers) := by
  rw [h.held, List.mem_toFinset] at hfree
  constructor
  · rw [List.filter_cons_of_pos hlive, List.map_cons]
    exact List.nodup_cons.mpr ⟨hfree, h.distinct⟩
  · rw [List.filter_cons_of_pos hlive, List.map_cons, List.toFinset_cons, h.held]

theorem Leased.serve (h : Leased inFlight (d :: rest)) (hlive : d.live = true)
    (hlive' : d'.live = true) (hurl : d'.urlNorm = d.urlNorm) : Leased inFlight (d' :: rest) := by
  have hkeys : ((d' :: rest).filter DialDriver.live).map DialDriver.urlNorm =
      ((d :: rest).filter DialDriver.live).map DialDriver.urlNorm := by
    rw [List.filter_cons_of_pos hlive, List.filter_cons_of_pos hlive', List.map_cons, List.map_cons,
      hurl]
  exact ⟨hkeys ▸ h.distinct, hkeys ▸ h.held⟩

/-- The address of a driver that ends is free, as no other driver holds it. -/
theorem Leased.finish (h : Leased inFlight (d :: rest)) (hlive : d.live = true) :
    Leased (inFlight.erase d.urlNorm) (d.finish :: rest) := by
  have hdistinct := h.distinct
  rw [List.filter_cons_of_pos hlive, List.map_cons, List.nodup_cons] at hdistinct
  have hended : (d.finish :: rest).filter DialDriver.live = rest.filter DialDriver.live :=
    List.filter_cons_of_neg (by simp [DialDriver.live, DialDriver.finish])
  constructor
  · rw [hended]
    exact hdistinct.2
  · rw [hended, h.held, List.filter_cons_of_pos hlive, List.map_cons, List.toFinset_cons,
      Finset.erase_insert (by rw [List.mem_toFinset]; exact hdistinct.1)]

theorem Leased.card (h : Leased inFlight drivers) :
    inFlight.card = (drivers.filter DialDriver.live).length := by
  rw [h.held, List.toFinset_card_of_nodup h.distinct, List.length_map]

end Leases

/-- Where a peer listens is not where the node does. -/
def Elsewhere (ourListen : Option String) (peer : ConnectedPeer) : Prop :=
  ∀ url ∈ peer.advertisedListen, ourListen ≠ some (normalizeListenAddr url)

def ServedBy (node : PeerNode) (d : DialDriver) (task : ℕ) : Prop :=
  ∃ t, node.tasks[task]? = some t ∧ t.peer.url = d.url ∧ t.peer.isInbound = false ∧
    Elsewhere node.shared.p2p.ourListen t.peer

/-- Every driver that serves has a connection of its own. -/
structure Serves (node : PeerNode) (drivers : List DialDriver) : Prop where
  served : ∀ d ∈ drivers, ∀ task, d.stage = .serving task → ServedBy node d task
  apart : drivers.Pairwise fun d e => ∀ task, d.stage = .serving task → e.stage ≠ .serving task

section Serving

variable {node : PeerNode} {drivers drivers' rest : List DialDriver} {d : DialDriver} {task : ℕ}

theorem Move.config {peer : ConnectedPeer} {s s' : Shared} {phase phase' : Phase}
    (hmove : Move peer s phase phase' s') : s'.p2p.config = s.p2p.config := by
  cases hmove <;> rfl

theorem config_step (node : PeerNode) (input : PeerInput) :
    (node.step input).shared.p2p.config = node.shared.p2p.config :=
  step_induction (P := fun node' => node'.shared.p2p.config = node.shared.p2p.config) node input
    (fun _ => rfl) (fun _ => rfl) fun _ _ _ _ _ _ _ _ hmove => hmove.config

theorem ServedBy.step (h : ServedBy node d task) (input : PeerInput) :
    ServedBy (node.step input) d task := by
  obtain ⟨t, ht, hurl, hinbound, helsewhere⟩ := h
  obtain ⟨t', ht', hpeer⟩ := peer_step ht input
  refine ⟨t', ht', hpeer ▸ hurl, hpeer ▸ hinbound, ?_⟩
  rw [hpeer, P2p.ourListen, config_step]
  exact helsewhere

theorem Serves.run (h : Serves node drivers) (inputs : List PeerInput) :
    Serves (Runs.final PeerNode.step node inputs) drivers := by
  refine ⟨fun d hd task hstage => ?_, h.apart⟩
  exact Runs.Along.invariant (P := fun _ _ => True) (I := fun node => ServedBy node d task)
    (fun _ input h _ => h.step input) (h.served d hd task hstage) (Runs.along_true _ _)

theorem Serves.perm (h : Serves node drivers) (hperm : drivers.Perm drivers') :
    Serves node drivers' where
  served d hd := h.served d (hperm.mem_iff.mpr hd)
  apart := (hperm.pairwise_iff fun hde task he hd => hde task hd he).mp h.apart

/-- A driver that has no connection, beside the others. -/
theorem Serves.cons (h : Serves node drivers) (hstage : ∀ task, d.stage ≠ .serving task) :
    Serves node (d :: drivers) where
  served := List.forall_mem_cons.mpr ⟨fun task hd => absurd hd (hstage task), h.served⟩
  apart := List.pairwise_cons.mpr ⟨fun _ _ task hd => absurd hd (hstage task), h.apart⟩

theorem Serves.tail (h : Serves node (d :: rest)) : Serves node rest where
  served := (List.forall_mem_cons.mp h.served).2
  apart := (List.pairwise_cons.mp h.apart).2

/-- A driver whose connection is served by a task that serves no other driver. -/
theorem Serves.serve (h : Serves node rest) (hserved : ServedBy node d task)
    (hstage : d.stage = .serving task) (hother : ∀ e ∈ rest, e.stage ≠ .serving task) :
    Serves node (d :: rest) where
  served := by
    refine List.forall_mem_cons.mpr ⟨fun task' hd => ?_, h.served⟩
    rw [hstage, DialStage.serving.injEq] at hd
    exact hd ▸ hserved
  apart := by
    refine List.pairwise_cons.mpr ⟨fun e he task' hd => ?_, h.apart⟩
    rw [hstage, DialStage.serving.injEq] at hd
    exact hd ▸ hother e he

end Serving

theorem checkSelfLoop_eq_ok {peer : NodeState} {ourNodeId : Bytes32} {ourListen : Option String}
    (h : checkSelfLoop peer ourNodeId ourListen = .ok ()) :
    peer.nodeId ≠ ourNodeId ∧
      ∀ ours ∈ ourListen, ∀ theirs ∈ peer.listenAddr,
        normalizeListenAddr ours ≠ normalizeListenAddr theirs := by
  unfold checkSelfLoop at h
  split_ifs at h with hid
  refine ⟨hid, fun ours hours theirs htheirs heq => ?_⟩
  rw [Option.mem_def] at hours htheirs
  simp [hours, htheirs, (listenAddrsEqual_iff ours theirs).mpr heq] at h

section Handshakes

variable {node : PeerNode} {url : String} {transport : ℕ} {isInbound : Bool}
  {sent : Except StroemnetP2pError Unit} {received : Except StroemnetP2pError Bytes}
  {now : UInt64} {peer : ConnectedPeer}

private theorem servedPeer_nodeId
    (h : node.servedPeer url transport isInbound sent received now = some peer) :
    peer.nodeId ≠ node.shared.p2p.config.nodeId := by
  obtain ⟨-, -, bytes, state, -, -, hcheck, rfl⟩ :=
    handshake_eq_ok.mp (PeerNode.servedPeer_eq_some h)
  exact (checkSelfLoop_eq_ok hcheck).1

/-- A peer that does not say where it listens is taken to listen where it was dialled. -/
theorem servedPeer_elsewhere
    (h : node.servedPeer url transport false sent received now = some peer)
    (hurl : node.shared.p2p.ourListen ≠ some (normalizeListenAddr url)) :
    peer.url = url ∧ Elsewhere node.shared.p2p.ourListen peer := by
  obtain ⟨-, -, bytes, state, -, -, hcheck, rfl⟩ :=
    handshake_eq_ok.mp (PeerNode.servedPeer_eq_some h)
  refine ⟨rfl, fun theirs htheirs heq => ?_⟩
  obtain rfl : state.listenAddr.getD url = theirs := Option.some.inj htheirs
  cases hlisten : state.listenAddr with
  | none => exact hurl (by rw [heq, hlisten, Option.getD_none])
  | some theirs =>
    obtain ⟨ours, hours, heq⟩ := Option.map_eq_some_iff.mp heq
    rw [hlisten, Option.getD_some] at heq
    exact (checkSelfLoop_eq_ok hcheck).2 ours hours theirs hlisten heq

private theorem nodeId_step (h : ∀ t ∈ node.tasks, t.peer.nodeId ≠ node.shared.p2p.config.nodeId)
    (input : PeerInput) :
    ∀ t ∈ (node.step input).tasks, t.peer.nodeId ≠ (node.step input).shared.p2p.config.nodeId := by
  rw [config_step]
  cases input with
  | connect url transport isInbound sent received now =>
    rcases step_connect node url transport isInbound sent received now with
      ⟨peer, hpeer, -, heq⟩ | ⟨closed, -, heq⟩
    · rw [heq]
      intro t ht
      rcases List.mem_append.mp ht with ht | ht
      · exact h t ht
      · rw [List.mem_singleton.mp ht]
        exact servedPeer_nodeId hpeer
    · rw [heq]
      exact h
  | run i now recv =>
    cases ht : node.tasks[i]? with
    | none =>
      rw [step_run_none ht]
      exact h
    | some t =>
      obtain ⟨phase, s', -, -, heq⟩ := step_run ht now recv
      rw [heq]
      intro u hu
      rcases List.mem_or_eq_of_mem_set hu with hu | rfl
      · exact h u hu
      · exact h t (List.mem_of_getElem? ht)

end Handshakes

/-- An address that a node may ask for. -/
def Worth (config : P2pConfig) (url : String) : Prop :=
  isWsUrl (normalizeListenAddr url) = true ∧
    config.advertisedListenAddr.map normalizeListenAddr ≠ some (normalizeListenAddr url)

/-- What a node has made so far of the addresses that it has heard of. -/
structure Dials (config : P2pConfig) (s : DiscoveryNode) (log : List DialEvent) : Prop where
  configured : s.node.shared.p2p.config = config
  inTurn : log.filterMap DialEvent.asked? =
    log.filterMap DialEvent.settled? ++ s.takenUp.toList ++ s.dialQueue
  started : s.drivers.map DialDriver.url = log.filterMap DialEvent.started?
  asked : ∀ url, .asked url ∈ log →
    (∃ addr, .heard addr ∈ log ∧ addr.url = url) ∧ Worth config url

structure Drives (s : DiscoveryNode) : Prop where
  leased : Leased s.inFlight s.drivers
  room : s.inFlight.card ≤ maxInflightDials
  serves : Serves s.node s.drivers

section Discovering

variable {config : P2pConfig} {s : DiscoveryNode} {log : List DialEvent}

theorem mem_asked? {url : String} :
    url ∈ log.filterMap DialEvent.asked? ↔ .asked url ∈ log := by
  simp only [List.mem_filterMap]
  constructor
  · rintro ⟨e, he, heq⟩
    cases e <;> cases heq
    exact he
  · intro he
    exact ⟨.asked url, he, rfl⟩

private theorem started_subset_settled (log : List DialEvent) :
    log.filterMap DialEvent.started? ⊆ log.filterMap DialEvent.settled? := by
  intro url hurl
  obtain ⟨e, he, heq⟩ := List.mem_filterMap.mp hurl
  cases e with
  | started url' => exact List.mem_filterMap.mpr ⟨_, he, heq⟩
  | _ => cases heq

private theorem Dials.asked_url (h : Dials config s log) {d : DialDriver} (hd : d ∈ s.drivers) :
    .asked d.url ∈ log := by
  have hstarted : d.url ∈ log.filterMap DialEvent.started? :=
    h.started ▸ List.mem_map_of_mem hd
  rw [← mem_asked?, h.inTurn, List.append_assoc]
  exact List.mem_append_left _ (started_subset_settled log hstarted)

theorem config_run (node : PeerNode) (inputs : List PeerInput) :
    (Runs.final PeerNode.step node inputs).shared.p2p.config = node.shared.p2p.config :=
  Runs.Along.invariant (P := fun _ _ => True)
    (I := fun node' => node'.shared.p2p.config = node.shared.p2p.config)
    (fun node' input h _ => (config_step node' input).trans h) rfl (Runs.along_true _ _)

theorem events_asked (s : DiscoveryNode) (input : DiscoveryInput) :
    (s.events input).filterMap DialEvent.asked? = s.processPeerAddrs (s.heard input) ++
      (s.settles input).filterMap DialEvent.asked? := by
  rw [DiscoveryNode.events, List.filterMap_append, List.filterMap_append, List.filterMap_map,
    List.filterMap_map]
  congr 1
  have hheard : DialEvent.asked? ∘ DialEvent.heard = fun _ => none := rfl
  have hasked : DialEvent.asked? ∘ DialEvent.asked = some := rfl
  rw [hheard, hasked, List.filterMap_none, List.filterMap_some, List.nil_append]

theorem events_settled (s : DiscoveryNode) (input : DiscoveryInput) (f : DialEvent → Option String)
    (hheard : ∀ addr, f (.heard addr) = none) (hasked : ∀ url, f (.asked url) = none) :
    (s.events input).filterMap f = (s.settles input).filterMap f := by
  rw [DiscoveryNode.events, List.filterMap_append, List.filterMap_append, List.filterMap_map,
    List.filterMap_map]
  have hheard : f ∘ DialEvent.heard = fun _ => none := funext hheard
  have hasked : f ∘ DialEvent.asked = fun _ => none := funext hasked
  rw [hheard, hasked, List.filterMap_none, List.filterMap_none]
  rfl

theorem asked_settles (s : DiscoveryNode) (input : DiscoveryInput) :
    (s.settles input).filterMap DialEvent.asked? = [] := by
  cases input with
  | receive =>
    simp only [DiscoveryNode.settles]
    split
    · split_ifs <;> rfl
    · rfl
  | startDriver =>
    simp only [DiscoveryNode.settles]
    split
    · rfl
    · split_ifs <;> rfl
  | _ => rfl

/-- The addresses are settled in the order in which they are asked for. -/
theorem inTurn_step (s : DiscoveryNode) (input : DiscoveryInput) :
    s.takenUp.toList ++ s.dialQueue ++ s.processPeerAddrs (s.heard input) =
      (s.settles input).filterMap DialEvent.settled? ++ (s.step input).takenUp.toList ++
        (s.step input).dialQueue := by
  have hnothing : s.processPeerAddrs [] = [] := rfl
  have hturn := turn s input
  generalize s.step input = s' at hturn
  cases hturn with
  | hear node hsettles => simp [hsettles]
  | passNext url dialQueue htaken hqueue hheard hsettles =>
    simp [htaken, hqueue, hheard, hsettles, hnothing, DialEvent.settled?]
  | takeUp url dialQueue htaken hqueue hheard hsettles =>
    simp [htaken, hqueue, hheard, hsettles, hnothing]
  | pass url htaken hheard hsettles =>
    simp [htaken, hheard, hsettles, hnothing, DialEvent.settled?]
  | start url htaken hroom hfree hheard hsettles =>
    simp [htaken, hheard, hsettles, hnothing, DialEvent.settled?]
  | idle hheard hsettles => simp [hheard, hsettles, hnothing]
  | serve k d peer transport sent received now hd hstage hpeer hheard hsettles =>
    simp [hheard, hsettles, hnothing, DiscoveryNode.setDriver]
  | finish k d closed hd hlive hheard hsettles =>
    simp [hheard, hsettles, hnothing, DiscoveryNode.finish, DiscoveryNode.setDriver]

private theorem started_step (s : DiscoveryNode) (input : DiscoveryInput) :
    (s.step input).drivers.map DialDriver.url =
      s.drivers.map DialDriver.url ++ (s.settles input).filterMap DialEvent.started? := by
  have hset {k : ℕ} {d d' : DialDriver} (hd : s.drivers[k]? = some d) (hurl : d'.url = d.url) :
      (s.drivers.set k d').map DialDriver.url = s.drivers.map DialDriver.url := by
    obtain ⟨hlt, rfl⟩ := List.getElem?_eq_some_iff.mp hd
    rw [List.map_set, hurl, ← List.getElem_map DialDriver.url (h := by simpa using hlt),
      List.set_getElem_self]
  have hturn := turn s input
  generalize s.step input = s' at hturn
  cases hturn with
  | start url htaken hroom hfree hheard hsettles => simp [hsettles, DialEvent.started?]
  | serve k d peer transport sent received now hd hstage hpeer hheard hsettles =>
    simp only [DiscoveryNode.setDriver, hsettles, List.filterMap_nil, List.append_nil]
    exact hset hd rfl
  | finish k d closed hd hlive hheard hsettles =>
    simp only [DiscoveryNode.finish, DiscoveryNode.setDriver, hsettles, List.filterMap_nil,
      List.append_nil]
    exact hset hd rfl
  | passNext url dialQueue htaken hqueue hheard hsettles => simp [hsettles, DialEvent.started?]
  | pass url htaken hheard hsettles => simp [hsettles, DialEvent.started?]
  | hear node hsettles => simp [hsettles]
  | idle hheard hsettles => simp [hsettles]
  | takeUp url dialQueue htaken hqueue hheard hsettles => simp [hsettles]

private theorem dials_step (h : Dials config s log) (input : DiscoveryInput) :
    Dials config (s.step input) (log ++ s.events input) where
  configured := by rw [node_step, config_run, h.configured]
  inTurn := by
    rw [List.filterMap_append, List.filterMap_append, h.inTurn, events_asked, asked_settles,
      events_settled s input _ (fun _ => rfl) fun _ => rfl, List.append_nil]
    have hstep := inTurn_step s input
    simp only [List.append_assoc] at hstep ⊢
    rw [hstep]
  started := by
    rw [started_step, h.started, List.filterMap_append,
      events_settled s input _ (fun _ => rfl) fun _ => rfl]
  asked := by
    intro url hurl
    rcases List.mem_append.mp hurl with hurl | hurl
    · obtain ⟨⟨addr, haddr, heq⟩, hworth⟩ := h.asked url hurl
      exact ⟨⟨addr, List.mem_append_left _ haddr, heq⟩, hworth⟩
    · rw [← mem_asked?, events_asked, asked_settles, List.append_nil] at hurl
      obtain ⟨⟨addr, haddr, heq⟩, hws, hours, -⟩ := mem_wantedAddrs hurl
      rw [P2p.ourListen, h.configured] at hours
      refine ⟨⟨addr, List.mem_append_right _ ?_, heq⟩, hws, hours⟩
      rw [DiscoveryNode.events, List.append_assoc]
      exact List.mem_append_left _ (List.mem_map_of_mem haddr)

private theorem target_step (s : DiscoveryNode) (input : DiscoveryInput) :
    (s.step input).targetOutbound = s.targetOutbound := by
  have hturn := turn s input
  generalize s.step input = s' at hturn
  cases hturn <;> rfl

theorem perm_drivers {k : ℕ} {d : DialDriver} (hd : s.drivers[k]? = some d) (d' : DialDriver) :
    s.drivers.Perm (d :: s.drivers.eraseIdx k) ∧
      (s.drivers.set k d').Perm (d' :: s.drivers.eraseIdx k) := by
  obtain ⟨hlt, rfl⟩ := List.getElem?_eq_some_iff.mp hd
  exact ⟨(List.getElem_cons_eraseIdx_perm hlt).symm, List.set_perm_cons_eraseIdx hlt d'⟩

private theorem leased_step (h : Leased s.inFlight s.drivers)
    (hroom : s.inFlight.card ≤ maxInflightDials)
    (input : DiscoveryInput) :
    Leased (s.step input).inFlight (s.step input).drivers ∧
      (s.step input).inFlight.card ≤ maxInflightDials := by
  have hturn := turn s input
  generalize s.step input = s' at hturn
  cases hturn with
  | start url htaken hspace hfree hheard hsettles =>
    refine ⟨(h.start (d := ⟨url, _, .dialling⟩) rfl hfree).perm
      (List.perm_append_singleton _ _).symm, ?_⟩
    rw [Finset.card_insert_of_notMem hfree]
    exact hspace
  | serve k d peer transport sent received now hd hstage hpeer hheard hsettles =>
    obtain ⟨hbefore, hafter⟩ := perm_drivers hd
      { d with stage := .serving s.node.tasks.length }
    have hlive : d.live = true := DialDriver.live_of_stage hstage nofun
    have hserve : Leased s.inFlight
        ({ d with stage := .serving s.node.tasks.length } :: s.drivers.eraseIdx k) :=
      (h.perm hbefore).serve hlive rfl rfl
    exact ⟨hserve.perm hafter.symm, hroom⟩
  | finish k d closed hd hlive hheard hsettles =>
    obtain ⟨hbefore, hafter⟩ := perm_drivers hd d.finish
    exact ⟨((h.perm hbefore).finish hlive).perm hafter.symm,
      (Finset.card_erase_le).trans hroom⟩
  | _ => exact ⟨h, hroom⟩

private theorem serves_step (h : Serves s.node s.drivers)
    (hworth : ∀ d ∈ s.drivers, s.node.shared.p2p.ourListen ≠ some (normalizeListenAddr d.url))
    (input : DiscoveryInput) : Serves (s.step input).node (s.step input).drivers := by
  have hrun : Serves (s.step input).node s.drivers := node_step s input ▸ h.run _
  have hturn := turn s input
  generalize s.step input = s' at hrun hturn
  cases hturn with
  | start url htaken hspace hfree hheard hsettles =>
    exact (hrun.cons (d := ⟨url, _, .dialling⟩) nofun).perm (List.perm_append_singleton _ _).symm
  | serve k d peer transport sent received now hd hstage hpeer hheard hsettles =>
    obtain ⟨hbefore, hafter⟩ := perm_drivers hd
      { d with stage := .serving s.node.tasks.length }
    obtain ⟨hurl, helsewhere⟩ := servedPeer_elsewhere hpeer (hworth d (List.mem_of_getElem? hd))
    refine Serves.perm ((hrun.perm hbefore).tail.serve ?_ rfl fun e he hstage => ?_) hafter.symm
    · exact ⟨⟨peer, .starting⟩, List.getElem?_concat_length, hurl,
        (PeerNode.servedPeer_transport hpeer).2, helsewhere⟩
    · obtain ⟨t, ht, -⟩ := h.served e (List.mem_of_mem_eraseIdx he) _ hstage
      rw [List.getElem?_eq_none (Nat.le_refl _)] at ht
      cases ht
  | finish k d closed hd hlive hheard hsettles =>
    obtain ⟨hbefore, hafter⟩ := perm_drivers hd d.finish
    have hended : ∀ task, d.finish.stage ≠ .serving task := fun task => DialStage.noConfusion
    exact ((hrun.perm hbefore).tail.cons hended).perm hafter.symm
  | _ => exact hrun

private theorem drives_step (hdials : Dials config s log) (h : Drives s) (input : DiscoveryInput) :
    Drives (s.step input) := by
  obtain ⟨hleased, hroom⟩ := leased_step h.leased h.room input
  refine ⟨hleased, hroom, serves_step h.serves (fun d hd => ?_) input⟩
  rw [P2p.ourListen, hdials.configured]
  exact (hdials.asked d.url (hdials.asked_url hd)).2.2

theorem discovers_run (config : P2pConfig) (target : ℕ) (inputs : List DiscoveryInput) :
    Dials config (Runs.final DiscoveryNode.step (.new config target) inputs)
        (Runs.outputs DiscoveryNode.step DiscoveryNode.events (.new config target) inputs) ∧
      Drives (Runs.final DiscoveryNode.step (.new config target) inputs) := by
  have hnew : Dials config (.new config target) [] ∧ Drives (.new config target) :=
    ⟨⟨rfl, rfl, rfl, nofun⟩, ⟨⟨List.nodup_nil, rfl⟩, Nat.zero_le _, nofun, .nil⟩⟩
  exact Runs.Along.invariant_outputs (P := fun _ _ => True)
    (I := fun s log => Dials config s log ∧ Drives s)
    (fun s input log h _ => ⟨dials_step h.1 input, drives_step h.1 h.2 input⟩) hnew
    (Runs.along_true _ _)

/-- At any time the drivers that dial or serve a discovered peer are at most as many as may be in
flight, each with an address of its own, and with a connection of its own if it serves one. An
address is in flight exactly while such a driver has it. -/
theorem discovered_connections_bounded (config : P2pConfig) (target : ℕ)
    (inputs : List DiscoveryInput) :
    let s := Runs.final DiscoveryNode.step (.new config target) inputs
    (s.live.map DialDriver.urlNorm).Nodup ∧
      s.inFlight = (s.live.map DialDriver.urlNorm).toFinset ∧
      s.live.length ≤ maxInflightDials ∧ Serves s.node s.drivers := by
  obtain ⟨-, hdrives⟩ := discovers_run config target inputs
  refine ⟨hdrives.leased.distinct, hdrives.leased.held, ?_, hdrives.serves⟩
  exact hdrives.leased.card ▸ hdrives.room

-- Of two spellings of an address one is dialled, and the node's own is not asked for.
example :
    (Runs.final DiscoveryNode.step (.new (sampleConfig false) 8)
      [.state [⟨"WS://B.example:3000", 0⟩, ⟨"ws://b.example:3000/", 0⟩,
          ⟨"ws://A.example:3000/", 0⟩],
        .receive, .startDriver, .receive, .startDriver]).drivers =
      [⟨"WS://B.example:3000", "ws://b.example:3000", .dialling⟩] := by
  decide +kernel

/-- The addresses that a node asks for are dialled or passed over in the order in which it asks for
them. Each was named by a peer, can be dialled, and is not the node's own; no more are asked for at
a time than the target leaves; and no connection leads back to the node. -/
theorem discovery_in_turn (config : P2pConfig) (target : ℕ) (inputs : List DiscoveryInput) :
    let s := Runs.final DiscoveryNode.step (.new config target) inputs
    let log := Runs.outputs DiscoveryNode.step DiscoveryNode.events (.new config target) inputs
    log.filterMap DialEvent.asked? =
        log.filterMap DialEvent.settled? ++ s.takenUp.toList ++ s.dialQueue ∧
      s.drivers.map DialDriver.url = log.filterMap DialEvent.started? ∧
      (∀ url, .asked url ∈ log → (∃ addr, .heard addr ∈ log ∧ addr.url = url) ∧ Worth config url) ∧
      Runs.Along DiscoveryNode.step (fun s input => (s.processPeerAddrs (s.heard input)).length ≤
        target - s.node.shared.p2p.connectedAddrs.card) (.new config target) inputs ∧
      ∀ t ∈ s.node.tasks, t.peer.nodeId ≠ config.nodeId := by
  obtain ⟨hdials, -⟩ := discovers_run config target inputs
  refine ⟨hdials.inTurn, hdials.started, hdials.asked, ?_, ?_⟩
  · refine Runs.Along.of_invariant (I := fun s => s.targetOutbound = target)
      (P := fun _ _ => True) (fun s input h _ => ⟨?_, ?_⟩) rfl (Runs.along_true _ _)
    · exact h ▸ length_wantedAddrs _ _ _ 0 _
    · exact (target_step s input).trans h
  · have hself := Runs.Along.invariant (P := fun _ _ => True)
      (I := fun node : PeerNode => ∀ t ∈ node.tasks,
        t.peer.nodeId ≠ node.shared.p2p.config.nodeId)
      (fun _ input h _ => nodeId_step h input) (s := .new config) nofun
      (Runs.along_true _
        (Runs.outputs DiscoveryNode.step DiscoveryNode.nodeInputs (.new config target) inputs))
    rw [config_run] at hself
    rw [node_run]
    exact hself

end Discovering

end Stroemnet.Gossip
