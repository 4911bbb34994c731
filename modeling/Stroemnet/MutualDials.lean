import Stroemnet.OnePerPeer

/-! # Nodes that dial each other

Two nodes dial each other at the same time, so that each of them has two connections to the other.
Both keep the one that was initiated by the node with the lower identifier. -/
namespace Stroemnet.Gossip

/-- The identifiers of two nodes, and the transport of the connection that each of them dials. -/
structure Encounter where
  ids : Bool → Bytes32
  conn : Bool → ℕ
  ids_ne : ids false ≠ ids true
  conn_ne : conn false ≠ conn true

namespace Encounter

def lower (E : Encounter) : Bool := (E.ids true).data < (E.ids false).data

def low (E : Encounter) : ℕ := E.conn E.lower

end Encounter

def stepPair (nodes : Bool → PeerNode) (input : Bool × PeerInput) : Bool → PeerNode :=
  Function.update nodes input.1 ((nodes input.1).step input.2)

/-- A task that is done with adding its connection. -/
def Phase.settled : Phase → Bool
  | .starting => false
  | .checking => false
  | .evicting _ => false
  | .disconnecting _ => false
  | .adding => false
  | _ => true

def Phase.serving : Phase → Bool
  | .discovering => true
  | .reading _ _ => true
  | _ => false

/-- The connection between the nodes that is kept is not given up: neither node has blacklisted the
other, and reading goes on unless the other node has closed the connection. -/
def Continues (E : Encounter) (nodes : Bool → PeerNode) (n : Bool) (t : ReadTask) (now : UInt64)
    (recv : Received) : Prop :=
  match t.phase with
  | .starting => (nodes n).shared.p2p.isBlacklisted t.peer.nodeId = false
  | .reading _ _ =>
    (readFromPeerTracked t.peer t.phase now recv (nodes n).shared).1.serving = true ∨
      E.low ∈ (nodes !n).shared.closed
  | _ => True

instance (E : Encounter) (nodes : Bool → PeerNode) (n : Bool) (t : ReadTask) (now : UInt64)
    (recv : Received) : Decidable (Continues E nodes n t now recv) :=
  match t with
  | ⟨_, .starting⟩ => inferInstanceAs (Decidable (_ = _))
  | ⟨_, .reading _ _⟩ => inferInstanceAs (Decidable (_ ∨ _))
  | ⟨_, .checking⟩ => instDecidableTrue
  | ⟨_, .evicting _⟩ => instDecidableTrue
  | ⟨_, .disconnecting _⟩ => instDecidableTrue
  | ⟨_, .adding⟩ => instDecidableTrue
  | ⟨_, .discovering⟩ => instDecidableTrue
  | ⟨_, .blacklisting⟩ => instDecidableTrue
  | ⟨_, .leaving⟩ => instDecidableTrue
  | ⟨_, .done⟩ => instDecidableTrue

/-- The nodes dial each other once, and both handshakes succeed. -/
def Meets (E : Encounter) (nodes : Bool → PeerNode) : Bool × PeerInput → Prop
  | (n, .connect url transport isInbound sent received now) =>
    ((nodes n).servedPeer url transport isInbound sent received now = none → transport ≠ E.low) ∧
      ∀ peer ∈ (nodes n).servedPeer url transport isInbound sent received now,
        (peer.nodeId = E.ids !n ↔ ∃ dialler, transport = E.conn dialler) ∧
          ∀ dialler, transport = E.conn dialler → isInbound = (dialler != n)
  | (n, .run i now recv) =>
    ∀ t ∈ (nodes n).tasks[i]?, t.peer.transport = E.low → Continues E nodes n t now recv

instance (E : Encounter) (nodes : Bool → PeerNode) (input : Bool × PeerInput) :
    Decidable (Meets E nodes input) :=
  match input with
  | (_, .connect _ _ _ _ _ _) => inferInstanceAs (Decidable ((_ → _) ∧ ∀ peer ∈ _, _))
  | (n, .run i _ _) => inferInstanceAs (Decidable (∀ t ∈ (nodes n).tasks[i]?, _))

/-- Once the task for the connection that the lower node has dialled is done with adding it, it is
the only connection to the other node. -/
def KeepsLower (E : Encounter) (nodes : Bool → PeerNode) : Prop :=
  ∀ n, ∀ t ∈ (nodes n).tasks, t.peer.transport = E.low → t.phase.settled = true →
    (nodes n).shared.p2p.connectedPeers.filter (fun peer => peer.nodeId = E.ids !n) = [t.peer]

private theorem resolve_eq_keep {p : P2p} {id : Bytes32} {isInbound : Bool}
    (h : resolve p id isInbound = .keep) :
    ∃ e ∈ p.connectedPeers, e.nodeId = id ∧
      (lowerInitiated isInbound (p.config.nodeId.data < id.data) = false ∨
        lowerInitiated e.isInbound (p.config.nodeId.data < id.data) = true) := by
  unfold resolve at h
  cases hidx : p.connectedPeers.findIdx? fun peer => peer.nodeId = id with
  | none => simp [hidx] at h
  | some idx =>
    obtain ⟨hlt, hid, -⟩ := List.findIdx?_eq_some_iff_getElem.mp hidx
    simp only [hidx, List.getElem?_eq_getElem hlt] at h
    refine ⟨p.connectedPeers[idx], List.getElem_mem hlt, of_decide_eq_true hid, ?_⟩
    split_ifs at h with hcond
    simpa using hcond

private theorem resolve_eq_replace {p : P2p} {id : Bytes32} {isInbound : Bool} {idx : ℕ}
    (h : resolve p id isInbound = .replace idx) :
    lowerInitiated isInbound (p.config.nodeId.data < id.data) = true := by
  unfold resolve at h
  cases hidx : p.connectedPeers.findIdx? fun peer => peer.nodeId = id with
  | none => simp [hidx] at h
  | some idx' =>
    obtain ⟨hlt, -⟩ := List.findIdx?_eq_some_iff_getElem.mp hidx
    simp only [hidx, List.getElem?_eq_getElem hlt] at h
    split_ifs at h with hcond
    simp only [Bool.or_eq_true, not_or, Bool.not_eq_true', Bool.not_eq_false] at hcond
    exact hcond.1

/-- What a node has of the connections to the node `id`, of which `low` is to be kept. -/
structure Holds (own id : Bytes32) (low : ℕ) (s : Shared) (tasks : List ReadTask) : Prop where
  configured : s.p2p.config.nodeId = own
  distinct : tasks.Pairwise fun t u => t.peer.transport ≠ u.peer.transport
  served : ∀ e ∈ s.p2p.connectedPeers, ∃ t ∈ tasks, t.peer = e ∧ t.phase.connected = true
  dialled : ∀ t ∈ tasks, t.peer.nodeId = id →
    (t.peer.transport = low ↔ lowerInitiated t.peer.isInbound (own.data < id.data) = true)
  known : ∀ t ∈ tasks, t.peer.transport = low → t.peer.nodeId = id
  kept : ∀ t ∈ tasks, t.peer.transport = low → t.phase.settled = true →
    t.phase.serving = true ∧ t.peer ∈ s.p2p.connectedPeers
  evicts : ∀ t ∈ tasks, ∀ idx, t.phase = .evicting idx → t.peer.nodeId = id →
    t.peer.transport = low
  disconnects : ∀ t ∈ tasks, ∀ transport, t.phase = .disconnecting transport → transport ≠ low
  unclosed : low ∉ s.closed

section Node

variable {own id : Bytes32} {low : ℕ} {s s' : Shared} {tasks tasks' rest : List ReadTask}
  {t : ReadTask} {phase : Phase}

theorem Holds.perm (h : Holds own id low s tasks) (hperm : tasks.Perm tasks') :
    Holds own id low s tasks' where
  configured := h.configured
  distinct := (hperm.pairwise_iff fun {_ _} hne => hne.symm).mp h.distinct
  served e he := by
    obtain ⟨t, ht, hpeer⟩ := h.served e he
    exact ⟨t, hperm.mem_iff.mp ht, hpeer⟩
  dialled t ht := h.dialled t (hperm.mem_iff.mpr ht)
  known t ht := h.known t (hperm.mem_iff.mpr ht)
  kept t ht := h.kept t (hperm.mem_iff.mpr ht)
  evicts t ht := h.evicts t (hperm.mem_iff.mpr ht)
  disconnects t ht := h.disconnects t (hperm.mem_iff.mpr ht)
  unclosed := h.unclosed

theorem Holds.spawn (h : Holds own id low s tasks) (peer : ConnectedPeer)
    (hfresh : ∀ t ∈ tasks, t.peer.transport ≠ peer.transport)
    (hdialled : peer.nodeId = id →
      (peer.transport = low ↔ lowerInitiated peer.isInbound (own.data < id.data) = true))
    (hknown : peer.transport = low → peer.nodeId = id) :
    Holds own id low s (tasks ++ [⟨peer, .starting⟩]) := by
  have hperm : (⟨peer, .starting⟩ :: tasks).Perm (tasks ++ [⟨peer, .starting⟩]) :=
    (List.perm_append_singleton _ _).symm
  refine Holds.perm ?_ hperm
  refine ⟨h.configured, List.pairwise_cons.mpr ⟨fun t ht => (hfresh t ht).symm, h.distinct⟩, ?_,
    List.forall_mem_cons.mpr ⟨hdialled, h.dialled⟩, List.forall_mem_cons.mpr ⟨hknown, h.known⟩,
    List.forall_mem_cons.mpr ⟨fun _ => nofun, h.kept⟩,
    List.forall_mem_cons.mpr ⟨nofun, h.evicts⟩,
    List.forall_mem_cons.mpr ⟨nofun, h.disconnects⟩, h.unclosed⟩
  intro e he
  obtain ⟨t, ht, hpeer⟩ := h.served e he
  exact ⟨t, List.mem_cons_of_mem _ ht, hpeer⟩

theorem Holds.update (h : Holds own id low s (t :: rest)) (phase : Phase)
    (hconfig : s'.p2p.config = s.p2p.config)
    (hserved : ∀ e ∈ s'.p2p.connectedPeers,
      (t.peer = e ∧ phase.connected = true) ∨ ∃ u ∈ rest, u.peer = e ∧ u.phase.connected = true)
    (hothers : ∀ u ∈ rest, u.peer.transport = low → u.peer ∈ s.p2p.connectedPeers →
      u.peer ∈ s'.p2p.connectedPeers)
    (hkept : t.peer.transport = low → phase.settled = true →
      phase.serving = true ∧ t.peer ∈ s'.p2p.connectedPeers)
    (hevicts : ∀ idx, phase = .evicting idx → t.peer.nodeId = id → t.peer.transport = low)
    (hdisconnects : ∀ transport, phase = .disconnecting transport → transport ≠ low)
    (hunclosed : low ∉ s'.closed) : Holds own id low s' ({ t with phase := phase } :: rest) := by
  have hdistinct := List.pairwise_cons.mp h.distinct
  have hdialled := List.forall_mem_cons.mp h.dialled
  have hknown := List.forall_mem_cons.mp h.known
  refine ⟨by rw [hconfig, h.configured], List.pairwise_cons.mpr hdistinct, ?_,
    List.forall_mem_cons.mpr hdialled, List.forall_mem_cons.mpr hknown,
    List.forall_mem_cons.mpr ⟨hkept, ?_⟩,
    List.forall_mem_cons.mpr ⟨hevicts, (List.forall_mem_cons.mp h.evicts).2⟩,
    List.forall_mem_cons.mpr ⟨hdisconnects, (List.forall_mem_cons.mp h.disconnects).2⟩, hunclosed⟩
  · intro e he
    rcases hserved e he with ⟨hpeer, hphase⟩ | ⟨u, hu, hpeer⟩
    · exact ⟨_, List.mem_cons_self, hpeer, hphase⟩
    · exact ⟨u, List.mem_cons_of_mem _ hu, hpeer⟩
  · intro u hu hlow hsettled
    obtain ⟨hserving, hmem⟩ := (List.forall_mem_cons.mp h.kept).2 u hu hlow hsettled
    exact ⟨hserving, hothers u hu hlow hmem⟩

theorem Holds.advance (h : Holds own id low s (t :: rest)) (phase : Phase)
    (hconfig : s'.p2p.config = s.p2p.config)
    (hpeers : s'.p2p.connectedPeers = s.p2p.connectedPeers)
    (hconnected : t.phase.connected = true → phase.connected = true)
    (hkept : t.peer.transport = low → phase.settled = true →
      phase.serving = true ∧ t.peer ∈ s.p2p.connectedPeers)
    (hevicts : ∀ idx, phase = .evicting idx → t.peer.nodeId = id → t.peer.transport = low)
    (hdisconnects : ∀ transport, phase = .disconnecting transport → transport ≠ low)
    (hunclosed : low ∉ s'.closed) : Holds own id low s' ({ t with phase := phase } :: rest) := by
  refine h.update phase hconfig ?_ ?_ (hpeers ▸ hkept) hevicts hdisconnects hunclosed
  · intro e he
    rw [hpeers] at he
    obtain ⟨u, hu, hpeer, hphase⟩ := h.served e he
    rcases List.mem_cons.mp hu with rfl | hu
    · exact .inl ⟨hpeer, hconnected hphase⟩
    · exact .inr ⟨u, hu, hpeer, hphase⟩
  · intro u _ _ hmem
    rwa [hpeers]

/-- A second task for the connection that is kept does not exist. -/
theorem Holds.eq_of_low (h : Holds own id low s (t :: rest)) (hlow : t.peer.transport = low)
    {u : ReadTask} (hu : u ∈ t :: rest) (hulow : u.peer.transport = low) : u = t := by
  rcases List.mem_cons.mp hu with rfl | hu
  · rfl
  · exact absurd (hlow.trans hulow.symm) ((List.pairwise_cons.mp h.distinct).1 u hu)

private theorem Holds.not_rejected (h : Holds own id low s (t :: rest))
    (hphase : t.phase = .checking)
    (hkeep : resolve s.p2p t.peer.nodeId t.peer.isInbound = .keep) : t.peer.transport ≠ low := by
  intro hlow
  have hid := h.known t List.mem_cons_self hlow
  obtain ⟨e, he, heid, hlower⟩ := resolve_eq_keep hkeep
  obtain ⟨u, hu, rfl, hconnected⟩ := h.served e he
  rw [h.configured, hid] at hlower
  rcases hlower with hnew | hold
  · rw [(h.dialled t List.mem_cons_self hid).mp hlow] at hnew
    cases hnew
  · rw [h.eq_of_low hlow hu ((h.dialled u hu (heid.trans hid)).mpr hold), hphase] at hconnected
    cases hconnected

private theorem Holds.not_evicted (h : Holds own id low s (t :: rest)) {idx : ℕ}
    (hphase : t.phase = .evicting idx) {e : ConnectedPeer} (he : e ∈ s.p2p.connectedPeers)
    (hid : e.nodeId = t.peer.nodeId) : e.transport ≠ low := by
  intro hlow
  obtain ⟨u, hu, rfl, hconnected⟩ := h.served e he
  have htlow := h.evicts t List.mem_cons_self idx hphase (hid.symm.trans (h.known u hu hlow))
  rw [h.eq_of_low htlow hu hlow, hphase] at hconnected
  cases hconnected

theorem Holds.served_by_others (h : Holds own id low s (t :: rest))
    (hphase : t.phase.connected = false) {e : ConnectedPeer} (he : e ∈ s.p2p.connectedPeers) :
    ∃ u ∈ rest, u.peer = e ∧ u.phase.connected = true := by
  obtain ⟨u, hu, hpeer, hconnected⟩ := h.served e he
  rcases List.mem_cons.mp hu with rfl | hu
  · rw [hphase] at hconnected
    cases hconnected
  · exact ⟨u, hu, hpeer, hconnected⟩

theorem Holds.unclosed_cons (h : Holds own id low s tasks) {transport : ℕ}
    (hne : transport ≠ low) : low ∉ transport :: s.closed := by
  intro hmem
  rcases List.mem_cons.mp hmem with heq | hmem
  · exact hne heq.symm
  · exact h.unclosed hmem

theorem Holds.evict (h : Holds own id low s (t :: rest)) {idx : ℕ} {old : ConnectedPeer}
    (hphase : t.phase = .evicting idx) (hold : s.p2p.connectedPeers[idx]? = some old)
    (hid : old.nodeId = t.peer.nodeId) :
    Holds own id low { s with p2p.connectedPeers := s.p2p.connectedPeers.eraseIdx idx }
      ({ t with phase := .disconnecting old.transport } :: rest) := by
  obtain ⟨hlt, rfl⟩ := List.getElem?_eq_some_iff.mp hold
  have hne := h.not_evicted hphase (List.getElem_mem hlt) hid
  have hperm := List.getElem_cons_eraseIdx_perm hlt
  have hserved : t.phase.connected = false := by rw [hphase]; rfl
  refine h.update _ rfl ?_ ?_ (fun _ => nofun) nofun ?_ h.unclosed
  · exact fun e he => .inr (h.served_by_others hserved ((List.eraseIdx_sublist _ _).subset he))
  · intro u _ hulow hmem
    rcases List.mem_cons.mp (hperm.mem_iff.mpr hmem) with heq | hmem
    · exact absurd (heq ▸ hulow) hne
    · exact hmem
  · intro transport heq
    cases heq
    exact hne

theorem Holds.add (h : Holds own id low s (t :: rest)) (hphase : t.phase = .adding) :
    Holds own id low { s with p2p := s.p2p.addConnectedPeer t.peer, counter := s.counter + 1 }
      ({ t with phase := .discovering } :: rest) := by
  have hserved : t.phase.connected = false := by rw [hphase]; rfl
  refine h.update _ rfl ?_ (fun _ _ _ => List.mem_append_left _) ?_ nofun nofun h.unclosed
  · intro e he
    rcases List.mem_append.mp he with he | he
    · exact .inr (h.served_by_others hserved he)
    · exact .inl ⟨(List.mem_singleton.mp he).symm, rfl⟩
  · exact fun _ _ => ⟨rfl, List.mem_append_right _ (List.mem_singleton_self _)⟩

/-- Another connection than the one that is kept is left, and no connection has its name. -/
theorem Holds.leave (h : Holds own id low s (t :: rest)) (hne : t.peer.transport ≠ low)
    (hnames : ∀ e ∈ s.p2p.connectedPeers, e.url = t.peer.url →
      e.transport = t.peer.transport) :
    Holds own id low
      { p2p := s.p2p.removeConnectedPeer t.peer.url, counter := s.counter - 1,
        closed := t.peer.transport :: s.closed } ({ t with phase := .done } :: rest) := by
  refine h.update _ rfl ?_ ?_ (fun hlow => absurd hlow hne) nofun nofun (h.unclosed_cons hne)
  · intro e he
    obtain ⟨hmem, hurl⟩ := List.mem_filter.mp he
    obtain ⟨u, hu, rfl, hconnected⟩ := h.served e hmem
    rcases List.mem_cons.mp hu with rfl | hu
    · exact absurd rfl (of_decide_eq_true hurl)
    · exact .inr ⟨u, hu, rfl, hconnected⟩
  · intro u _ hulow hmem
    refine List.mem_filter.mpr ⟨hmem, decide_eq_true fun hurl => hne ?_⟩
    rw [← hnames u.peer hmem hurl]
    exact hulow

/-- Every step of a task leaves the connection that is kept where it is. -/
theorem Holds.move (h : Holds own id low s (t :: rest))
    (hundisturbed : TaskUndisturbed s.p2p t rest) (hmove : Move t.peer s t.phase phase s')
    (hstart : t.peer.transport = low → t.phase = .starting →
      s.p2p.isBlacklisted t.peer.nodeId = false)
    (hreading : t.peer.transport = low → ∀ start count, t.phase = .reading start count →
      phase.serving = true) :
    Holds own id low s' ({ t with phase := phase } :: rest) := by
  have hkept := h.kept t List.mem_cons_self
  have hdisconnects := h.disconnects t List.mem_cons_self
  have hadvance := @Holds.advance own id low s s' rest t h
  unfold TaskUndisturbed at hundisturbed
  obtain ⟨before, hphase⟩ : ∃ before, t.phase = before := ⟨_, rfl⟩
  simp only [hphase] at hmove hundisturbed hkept hstart hreading hdisconnects hadvance
  cases hmove with
  | refuse hblacklisted =>
    have hne : t.peer.transport ≠ low := by
      intro hlow
      rw [hstart hlow rfl] at hblacklisted
      cases hblacklisted
    exact hadvance .done rfl rfl nofun (fun hlow => absurd hlow hne) nofun nofun
      (h.unclosed_cons hne)
  | start => exact hadvance .checking rfl rfl nofun (fun _ => nofun) nofun nofun h.unclosed
  | reject hkeep =>
    have hne := h.not_rejected hphase hkeep
    exact hadvance .done rfl rfl nofun (fun hlow => absurd hlow hne) nofun nofun
      (h.unclosed_cons hne)
  | pass _ => exact hadvance .adding rfl rfl nofun (fun _ => nofun) nofun nofun h.unclosed
  | find idx hreplace =>
    refine hadvance (.evicting idx) rfl rfl nofun (fun _ => nofun) (fun _ _ hid => ?_) nofun
      h.unclosed
    have hlower := resolve_eq_replace hreplace
    rw [h.configured, hid] at hlower
    exact (h.dialled t List.mem_cons_self hid).mpr hlower
  | evict idx old hold hid => exact h.evict hphase hold hid
  | lose idx _ => exact hadvance .adding rfl rfl nofun (fun _ => nofun) nofun nofun h.unclosed
  | disconnect transport =>
    exact hadvance .adding rfl rfl nofun (fun _ => nofun) nofun nofun
      (h.unclosed_cons (hdisconnects transport rfl))
  | add => exact h.add hphase
  | discover now =>
    exact hadvance _ rfl rfl (fun _ => rfl) (fun hlow _ => ⟨rfl, (hkept hlow rfl).2⟩) nofun nofun
      h.unclosed
  | read start start' count count' =>
    exact hadvance _ rfl rfl (fun _ => rfl) (fun hlow _ => ⟨rfl, (hkept hlow rfl).2⟩) nofun nofun
      h.unclosed
  | flood start count =>
    exact hadvance _ rfl rfl (fun _ => rfl)
      (fun hlow _ => absurd (hreading hlow start count rfl) nofun) nofun nofun h.unclosed
  | stop start count =>
    exact hadvance _ rfl rfl (fun _ => rfl)
      (fun hlow _ => absurd (hreading hlow start count rfl) nofun) nofun nofun h.unclosed
  | blacklist =>
    have hne : t.peer.transport ≠ low := fun hlow => absurd (hkept hlow rfl).1 nofun
    exact hadvance _ rfl rfl (fun _ => rfl) (fun hlow => absurd hlow hne) nofun nofun
      (h.unclosed_cons hne)
  | leave =>
    have hne : t.peer.transport ≠ low := fun hlow => absurd (hkept hlow rfl).1 nofun
    exact h.leave hne hundisturbed
  | idle => exact hadvance _ rfl rfl nofun hkept nofun nofun h.unclosed

private theorem Holds.filter_eq (h : Holds own id low s tasks)
    (hcoherent : Coherent s.p2p.connectedPeers tasks) (ht : t ∈ tasks)
    (hlow : t.peer.transport = low) (hsettled : t.phase.settled = true) :
    s.p2p.connectedPeers.filter (fun peer => peer.nodeId = id) = [t.peer] := by
  have hmem := (h.kept t ht hlow hsettled).2
  obtain ⟨before, after, hsplit⟩ := List.append_of_mem hmem
  have hunique := hcoherent.unique
  rw [hsplit, List.map_append, List.map_cons, List.nodup_middle, List.nodup_cons,
    List.mem_append, not_or, h.known t ht hlow] at hunique
  have hnone : ∀ peers : List ConnectedPeer, id ∉ peers.map ConnectedPeer.nodeId →
      peers.filter (fun peer => peer.nodeId = id) = [] := by
    intro peers hnot
    rw [List.filter_eq_nil_iff]
    intro e he heq
    exact hnot (of_decide_eq_true heq ▸ List.mem_map_of_mem he)
  rw [hsplit, List.filter_append, List.filter_cons, hnone _ hunique.1.1, hnone _ hunique.1.2,
    h.known t ht hlow]
  simp

end Node

namespace Encounter

variable (E : Encounter)

private theorem weAreLower_eq (n : Bool) :
    decide ((E.ids n).data < (E.ids !n).data) = (n == E.lower) := by
  have hne : (E.ids false).data ≠ (E.ids true).data := fun h => E.ids_ne (Bytes32.ext h)
  cases n with
  | true => simp [lower]
  | false =>
    rcases lt_or_gt_of_ne hne with hlt | hgt
    · simp [lower, hlt, not_lt_of_gt hlt]
    · simp [lower, hgt, not_lt_of_gt hgt]

private theorem lowerInitiated_eq (n dialler : Bool) :
    lowerInitiated (dialler != n) ((E.ids n).data < (E.ids !n).data) = (dialler == E.lower) := by
  rw [weAreLower_eq]
  cases n <;> cases dialler <;> cases E.lower <;> rfl

private theorem conn_eq_low (dialler : Bool) : E.conn dialler = E.low ↔ dialler = E.lower := by
  have hne := E.conn_ne
  rw [low]
  cases dialler <;> cases E.lower <;> simp [hne, hne.symm]

end Encounter

/-- Each of the nodes keeps its list and the connection that the lower node has dialled. -/
def PairHolds (E : Encounter) (nodes : Bool → PeerNode) : Prop :=
  ∀ n, Coherent (nodes n).shared.p2p.connectedPeers (nodes n).tasks ∧
    Holds (E.ids n) (E.ids !n) E.low (nodes n).shared (nodes n).tasks

def PairUndisturbed (nodes : Bool → PeerNode) (input : Bool × PeerInput) : Prop :=
  Undisturbed (nodes input.1) input.2

instance (nodes : Bool → PeerNode) (input : Bool × PeerInput) :
    Decidable (PairUndisturbed nodes input) := inferInstanceAs (Decidable (Undisturbed _ _))

section Pair

variable {E : Encounter} {nodes : Bool → PeerNode}

private theorem holds_connect {n : Bool} (h : PairHolds E nodes) (url : String) (transport : ℕ)
    (isInbound : Bool) (sent : Except StroemnetP2pError Unit)
    (received : Except StroemnetP2pError Bytes) (now : UInt64)
    (hmeets : Meets E nodes (n, .connect url transport isInbound sent received now)) :
    Holds (E.ids n) (E.ids !n) E.low
      ((nodes n).step (.connect url transport isInbound sent received now)).shared
      ((nodes n).step (.connect url transport isInbound sent received now)).tasks := by
  have hn := (h n).2
  obtain ⟨hrefused, hserved⟩ := hmeets
  rcases step_connect (nodes n) url transport isInbound sent received now with
    ⟨peer, hpeer, hfresh, heq⟩ | ⟨closed, hclosed, heq⟩
  · rw [heq]
    obtain ⟨hid, hinbound⟩ := hserved peer hpeer
    obtain ⟨rfl, rfl⟩ := PeerNode.servedPeer_transport hpeer
    refine hn.spawn peer hfresh (fun heqid => ?_) fun hlow => hid.mpr ⟨_, hlow⟩
    obtain ⟨dialler, hconn⟩ := hid.mp heqid
    rw [hinbound dialler hconn, E.lowerInitiated_eq, hconn, E.conn_eq_low, beq_iff_eq]
  · rw [heq]
    rcases hclosed with rfl | ⟨hnone, rfl⟩
    · exact hn
    · refine { hn with unclosed := ?_ }
      intro hmem
      rcases List.mem_cons.mp hmem with heqlow | hmem
      · exact hrefused hnone heqlow.symm
      · exact hn.unclosed hmem

theorem holds_run {n : Bool} (h : PairHolds E nodes) (i : ℕ) (now : UInt64) (recv : Received)
    (hundisturbed : Undisturbed (nodes n) (.run i now recv))
    (hmeets : Meets E nodes (n, .run i now recv)) :
    Holds (E.ids n) (E.ids !n) E.low ((nodes n).step (.run i now recv)).shared
      ((nodes n).step (.run i now recv)).tasks := by
  have hn := (h n).2
  cases ht : (nodes n).tasks[i]? with
  | none =>
    rw [step_run_none ht]
    exact hn
  | some t =>
    obtain ⟨phase, s', hmove, rfl, heq⟩ := step_run ht now recv
    obtain ⟨hperm, hset⟩ := perm_tasks ht { t with phase := _ }
    have hcontinues := hmeets t ht
    rw [heq]
    refine Holds.perm (Holds.move (hn.perm hperm) (hundisturbed t ht) hmove ?_ ?_) hset.symm
    · intro hlow hstarting
      have hc := hcontinues hlow
      rw [Continues, hstarting] at hc
      exact hc
    · intro hlow start count hreading
      have hc := hcontinues hlow
      simp only [Continues, hreading] at hc
      rw [hreading]
      rcases hc with hserving | hclosed
      · exact hserving
      · have hother := (h !n).2.unclosed
        exact absurd hclosed hother

private theorem pairHolds_step (h : PairHolds E nodes) (input : Bool × PeerInput)
    (hundisturbed : PairUndisturbed nodes input) (hmeets : Meets E nodes input) :
    PairHolds E (stepPair nodes input) := by
  obtain ⟨n, input⟩ := input
  intro m
  by_cases hm : m = n
  · subst hm
    rw [stepPair, Function.update_self]
    refine ⟨coherent_step (h m).1 input hundisturbed, ?_⟩
    cases input with
    | connect url transport isInbound sent received now =>
      exact holds_connect h url transport isInbound sent received now hmeets
    | run i now recv => exact holds_run h i now recv hundisturbed hmeets
  · rw [stepPair, Function.update_of_ne hm]
    exact h m

end Pair

/-- Two nodes of their own. -/
def newPair (config : Bool → P2pConfig) (n : Bool) : PeerNode := .new (config n)

theorem coherent_new (config : P2pConfig) :
    Coherent (PeerNode.new config).shared.p2p.connectedPeers (PeerNode.new config).tasks where
  unique := List.nodup_nil
  exclusive := .nil
  cleared := nofun

private theorem pairHolds_new (E : Encounter) (config : Bool → P2pConfig)
    (hids : ∀ n, (config n).nodeId = E.ids n) : PairHolds E (newPair config) := fun n =>
  ⟨coherent_new (config n),
    { configured := hids n
      distinct := .nil
      served := nofun
      dialled := nofun
      known := nofun
      kept := nofun
      evicts := nofun
      disconnects := nofun
      unclosed := nofun }⟩

private theorem countP_le_one {peers : List ConnectedPeer}
    (h : (peers.map ConnectedPeer.nodeId).Nodup)
    (id : Bytes32) : peers.countP (fun peer => peer.nodeId = id) ≤ 1 := by
  have hcount := List.nodup_iff_count_le_one.mp h id
  rw [List.count, List.countP_map] at hcount
  refine le_of_eq_of_le (List.countP_congr fun peer _ => ?_) hcount
  simp

/-- In every run in which no task is disturbed between its check and its end, there is at most one
connection for each peer, a task that ends takes out its own connection only, and the counter is the
number of the tasks between their add and their removal; and in every such run of two nodes that
dial each other, both keep the connection that was dialled by the lower one. -/
theorem one_connection_per_peer (config : P2pConfig) (inputs : List PeerInput) :
    (Runs.Along PeerNode.step Undisturbed (.new config) inputs →
      OneConnectionPerPeer (.new config) inputs) ∧
    ∀ (E : Encounter) (config : Bool → P2pConfig), (∀ n, (config n).nodeId = E.ids n) →
      ∀ inputs, Runs.Along stepPair (fun nodes input => PairUndisturbed nodes input ∧
        Meets E nodes input) (newPair config) inputs →
      KeepsLower E (Runs.final stepPair (newPair config) inputs) := by
  constructor
  · intro h
    have hcoherent := h.invariant
      (I := fun node => Coherent node.shared.p2p.connectedPeers node.tasks)
      (fun node input hnode hundisturbed => coherent_step hnode input hundisturbed)
      (coherent_new config)
    refine ⟨countP_le_one hcoherent.unique, ?_, ?_⟩
    · exact h.mono fun node input => removesOwn_of_undisturbed input
    · exact h.invariant
        (I := fun node => node.shared.counter = node.tasks.countP fun t => t.phase.connected)
        (fun node input hnode _ => counter_step node input hnode) rfl
  · intro E config hids inputs h n t ht hlow hsettled
    have hpair := h.invariant (I := PairHolds E)
      (fun nodes input hnodes hcond => pairHolds_step hnodes input hcond.1 hcond.2)
      (pairHolds_new E config hids)
    exact (hpair n).2.filter_eq (hpair n).1 ht hlow hsettled

def sampleEncounter : Encounter where
  ids n := .filled (if n then 2 else 1)
  conn n := if n then 20 else 10
  ids_ne := by decide
  conn_ne := by decide

def listenAddr (n : Bool) : String := if n then "ws://b.example:3000" else "ws://a.example:3000"

def sampleConfig (n : Bool) : P2pConfig where
  nodeId := sampleEncounter.ids n
  maxInbound := 125
  advertisedListenAddr := some (listenAddr n)

/-- What a node sends in the handshake while it has no peers. -/
def firstState (n : Bool) : Except StroemnetP2pError Bytes :=
  encode (.state ⟨sampleEncounter.ids n, some (listenAddr n), []⟩)

def dialInput (n : Bool) (transport : ℕ) : PeerInput :=
  .connect (listenAddr !n) transport false (.ok ()) (firstState !n) 0

def acceptInput (n : Bool) (transport : ℕ) : PeerInput :=
  .connect "ws://192.0.2.1:50000" transport true (.ok ()) (firstState !n) 0

def runInputs (order : List ℕ) : List PeerInput := order.map fun i => .run i 0 (.message true)

/-- Both tasks of a node get through the check before either adds its connection. -/
def raceInputs (n : Bool) : List PeerInput :=
  [dialInput n (sampleEncounter.conn n), acceptInput n (sampleEncounter.conn !n)] ++
    runInputs [0, 1, 0, 1, 0, 1]

/-- The same at two nodes. -/
def pairRace : List (Bool × PeerInput) :=
  (raceInputs false).map (fun input => (false, input)) ++
    (raceInputs true).map fun input => (true, input)

/-- A node dials the same address twice, and one of the connections fails. -/
def sameUrlInputs : List PeerInput :=
  [dialInput false 10, dialInput false 11] ++ runInputs [0, 1, 0, 1, 0, 1, 0] ++
    [.run 0 0 .failed]

private theorem race_facts :
    (Runs.final PeerNode.step (.new (sampleConfig false))
      (raceInputs false)).shared.p2p.connectedPeers.countP
        (fun peer => peer.nodeId = sampleEncounter.ids true) = 2 ∧
    (let node := Runs.final PeerNode.step (.new (sampleConfig false)) sameUrlInputs
     node.tasks[0]?.map ReadTask.phase = some .leaving ∧
       node.tasks[0]?.map (fun t => t.peer.transport) = some 10 ∧
       node.shared.p2p.connectedPeers.map ConnectedPeer.transport = [10, 11] ∧
       (node.step (.run 0 0 .failed)).shared.p2p.connectedPeers = []) ∧
    Runs.Along stepPair (Meets sampleEncounter) (newPair sampleConfig) pairRace ∧
    ∃ t ∈ (Runs.final stepPair (newPair sampleConfig) pairRace false).tasks,
      t.peer.transport = sampleEncounter.low ∧ t.phase.settled = true ∧
      ((Runs.final stepPair (newPair sampleConfig) pairRace
        false).shared.p2p.connectedPeers.filter
          (fun peer => peer.nodeId = sampleEncounter.ids !false)).length = 2 := by
  decide +kernel

/-- Two tasks that get through the check together leave two connections to one peer, and two nodes
that dial each other keep both; a task that ends takes out a connection of another task. -/
theorem two_tasks_at_once :
    ¬ OneConnectionPerPeer (.new (sampleConfig false)) (raceInputs false) ∧
      ¬ OneConnectionPerPeer (.new (sampleConfig false))
        (sameUrlInputs ++ [.run 0 0 .failed]) ∧
      Runs.Along stepPair (Meets sampleEncounter) (newPair sampleConfig) pairRace ∧
      ¬ KeepsLower sampleEncounter (Runs.final stepPair (newPair sampleConfig) pairRace) := by
  obtain ⟨htwo, ⟨hleaving, htransport, hpeers, hgone⟩, hmeets, t, ht, hlow, hsettled, hboth⟩ :=
    race_facts
  refine ⟨fun h => ?_, fun h => ?_, hmeets, fun h => ?_⟩
  · have hle := h.unique (sampleEncounter.ids true)
    rw [htwo] at hle
    omega
  · have hown := (Runs.along_append.mp h.own).2.1
    rw [Option.map_eq_some_iff] at hleaving htransport
    obtain ⟨u, hu, hphase⟩ := hleaving
    obtain ⟨u', hu', htransport⟩ := htransport
    rw [hu, Option.some.injEq] at hu'
    subst hu'
    have hother : (11 : ℕ) ∈ (Runs.final PeerNode.step (.new (sampleConfig false))
        sameUrlInputs).shared.p2p.connectedPeers.map ConnectedPeer.transport := by
      rw [hpeers]
      decide
    obtain ⟨e, he, heq⟩ := List.mem_map.mp hother
    have howned := hown 0 0 .failed u rfl hu hphase e he (by rw [hgone]; nofun)
    rw [heq, htransport] at howned
    omega
  · rw [h false t ht hlow hsettled] at hboth
    cases hboth

/-- At the lower node the connection that it has dialled replaces the other one; at the other node
it comes first and the other one is rejected. -/
def orderlyInputs (n : Bool) : List PeerInput :=
  [dialInput n (sampleEncounter.conn n), acceptInput n (sampleEncounter.conn !n)] ++
    if n then runInputs [1, 1, 1, 1, 0, 0]
    else runInputs [1, 1, 1, 1, 0, 0, 0, 0, 0, 0] ++ [.run 1 0 .failed, .run 1 0 .failed]

def orderlyPair : List (Bool × PeerInput) :=
  (orderlyInputs false).map (fun input => (false, input)) ++
    (orderlyInputs true).map fun input => (true, input)

private theorem orderly_facts :
    Runs.Along PeerNode.step Undisturbed (.new (sampleConfig false)) (orderlyInputs false) ∧
    Runs.Along stepPair (fun nodes input => PairUndisturbed nodes input ∧
      Meets sampleEncounter nodes input) (newPair sampleConfig) orderlyPair ∧
    (∀ n, (sampleConfig n).nodeId = sampleEncounter.ids n) ∧
    ∀ n, (Runs.final stepPair (newPair sampleConfig)
      orderlyPair n).shared.p2p.connectedPeers.map ConnectedPeer.transport = [10] := by
  decide +kernel

theorem orderly_one_connection_per_peer :
    OneConnectionPerPeer (.new (sampleConfig false)) (orderlyInputs false) ∧
      KeepsLower sampleEncounter (Runs.final stepPair (newPair sampleConfig) orderlyPair) ∧
      ∀ n, (Runs.final stepPair (newPair sampleConfig)
        orderlyPair n).shared.p2p.connectedPeers.map ConnectedPeer.transport = [10] := by
  obtain ⟨halone, hpair, hids, hkept⟩ := orderly_facts
  obtain ⟨hone, hboth⟩ := one_connection_per_peer (sampleConfig false) (orderlyInputs false)
  exact ⟨hone halone, hboth sampleEncounter sampleConfig hids _ hpair, hkept⟩

end Stroemnet.Gossip
