import Stroemnet.PeerConnections
import Mathlib.Data.List.Perm.Basic
import Mathlib.Data.List.Nodup

/-! # One connection for each peer

A task checks that its peer has no connection yet, takes out an older one and adds its own in three
separate steps, and a task that ends takes out what has its address. The list holds one connection
for each peer as long as no other task for the peer gets through the check before the connection is
added, the older connection has not moved when it is taken out, and no other connection has the
address of one that ends. -/
namespace Stroemnet.Gossip

def Phase.resolving : Phase → Bool
  | .evicting _ => true
  | .disconnecting _ => true
  | .adding => true
  | _ => false

/-- Nothing of the peer is left in the list, and nothing is added yet. -/
def Phase.cleared : Phase → Bool
  | .disconnecting _ => true
  | .adding => true
  | _ => false

def Phase.connected : Phase → Bool
  | .discovering => true
  | .reading _ _ => true
  | .blacklisting => true
  | .leaving => true
  | _ => false

/-- A task is let through the check only while no other task for the peer is; the connection that it
replaces has not moved; and no other connection has the address of one that ends. -/
def TaskUndisturbed (p : P2p) (t : ReadTask) (others : List ReadTask) : Prop :=
  match t.phase with
  | .checking =>
    resolve p t.peer.nodeId t.peer.isInbound ≠ .keep →
      ∀ u ∈ others, u.peer.nodeId = t.peer.nodeId → u.phase.resolving = false
  | .evicting idx =>
    ∀ e ∈ p.connectedPeers, e.nodeId = t.peer.nodeId →
      (p.connectedPeers[idx]?.map ConnectedPeer.nodeId) = some t.peer.nodeId
  | .leaving => ∀ e ∈ p.connectedPeers, e.url = t.peer.url → e.transport = t.peer.transport
  | _ => True

instance (p : P2p) (t : ReadTask) (others : List ReadTask) :
    Decidable (TaskUndisturbed p t others) :=
  match t with
  | ⟨_, .checking⟩ => inferInstanceAs (Decidable (_ → ∀ u ∈ others, _))
  | ⟨_, .evicting _⟩ => inferInstanceAs (Decidable (∀ e ∈ p.connectedPeers, _))
  | ⟨_, .leaving⟩ => inferInstanceAs (Decidable (∀ e ∈ p.connectedPeers, _))
  | ⟨_, .starting⟩ => instDecidableTrue
  | ⟨_, .disconnecting _⟩ => instDecidableTrue
  | ⟨_, .adding⟩ => instDecidableTrue
  | ⟨_, .discovering⟩ => instDecidableTrue
  | ⟨_, .reading _ _⟩ => instDecidableTrue
  | ⟨_, .blacklisting⟩ => instDecidableTrue
  | ⟨_, .done⟩ => instDecidableTrue

def Undisturbed (node : PeerNode) : PeerInput → Prop
  | .connect _ _ _ _ _ _ => True
  | .run i _ _ => ∀ t ∈ node.tasks[i]?, TaskUndisturbed node.shared.p2p t (node.tasks.eraseIdx i)

instance (node : PeerNode) (input : PeerInput) : Decidable (Undisturbed node input) :=
  match input with
  | .connect _ _ _ _ _ _ => instDecidableTrue
  | .run i _ _ => inferInstanceAs (Decidable (∀ t ∈ node.tasks[i]?, _))

/-- A task that ends takes out its own connection only. -/
def RemovesOwn (node : PeerNode) (input : PeerInput) : Prop :=
  ∀ i now recv t, input = .run i now recv → node.tasks[i]? = some t → t.phase = .leaving →
    ∀ e ∈ node.shared.p2p.connectedPeers,
      e ∉ (node.step input).shared.p2p.connectedPeers → e.transport = t.peer.transport

structure OneConnectionPerPeer (node : PeerNode) (inputs : List PeerInput) : Prop where
  unique : ∀ id, (Runs.final PeerNode.step node inputs).shared.p2p.connectedPeers.countP
    (fun peer => peer.nodeId = id) ≤ 1
  own : Runs.Along PeerNode.step RemovesOwn node inputs
  counted : (Runs.final PeerNode.step node inputs).shared.counter =
    (Runs.final PeerNode.step node inputs).tasks.countP fun t => t.phase.connected

private theorem evict_cases (p : P2p) (id : Bytes32) (idx : ℕ) :
    (∃ old, p.connectedPeers[idx]? = some old ∧ old.nodeId = id ∧
      evict p id idx = (some old, { p with connectedPeers := p.connectedPeers.eraseIdx idx })) ∨
    p.connectedPeers[idx]?.map ConnectedPeer.nodeId ≠ some id ∧ evict p id idx = (none, p) := by
  unfold evict
  cases hold : p.connectedPeers[idx]? with
  | none => exact .inr ⟨nofun, rfl⟩
  | some old =>
    simp only
    split_ifs with hid
    · exact .inl ⟨old, rfl, hid, rfl⟩
    · exact .inr ⟨by simpa using hid, rfl⟩

inductive Move (peer : ConnectedPeer) (s : Shared) : Phase → Phase → Shared → Prop
  | refuse (h : s.p2p.isBlacklisted peer.nodeId = true) :
    Move peer s .starting .done { s with closed := peer.transport :: s.closed }
  | start : Move peer s .starting .checking s
  | reject (h : resolve s.p2p peer.nodeId peer.isInbound = .keep) :
    Move peer s .checking .done { s with closed := peer.transport :: s.closed }
  | pass (h : resolve s.p2p peer.nodeId peer.isInbound = .none) :
    Move peer s .checking .adding s
  | find (idx : ℕ) (h : resolve s.p2p peer.nodeId peer.isInbound = .replace idx) :
    Move peer s .checking (.evicting idx) s
  | evict (idx : ℕ) (old : ConnectedPeer) (hold : s.p2p.connectedPeers[idx]? = some old)
    (hid : old.nodeId = peer.nodeId) :
    Move peer s (.evicting idx) (.disconnecting old.transport)
      { s with p2p.connectedPeers := s.p2p.connectedPeers.eraseIdx idx }
  | lose (idx : ℕ)
    (h : s.p2p.connectedPeers[idx]?.map ConnectedPeer.nodeId ≠ some peer.nodeId) :
    Move peer s (.evicting idx) .adding s
  | disconnect (transport : ℕ) :
    Move peer s (.disconnecting transport) .adding { s with closed := transport :: s.closed }
  | add :
    Move peer s .adding .discovering
      { s with p2p := s.p2p.addConnectedPeer peer, counter := s.counter + 1 }
  | discover (now : UInt64) : Move peer s .discovering (.reading now 0) s
  | read (start start' : UInt64) (count count' : ℕ) :
    Move peer s (.reading start count) (.reading start' count') s
  | flood (start : UInt64) (count : ℕ) : Move peer s (.reading start count) .blacklisting s
  | stop (start : UInt64) (count : ℕ) : Move peer s (.reading start count) .leaving s
  | blacklist :
    Move peer s .blacklisting .leaving
      { s with p2p := s.p2p.blacklistPeer peer.nodeId, closed := peer.transport :: s.closed }
  | leave :
    Move peer s .leaving .done
      { p2p := s.p2p.removeConnectedPeer peer.url, counter := s.counter - 1,
        closed := peer.transport :: s.closed }
  | idle : Move peer s .done .done s

theorem move (peer : ConnectedPeer) (phase : Phase) (now : UInt64) (recv : Received) (s : Shared) :
    Move peer s phase (readFromPeerTracked peer phase now recv s).1
      (readFromPeerTracked peer phase now recv s).2 := by
  cases phase with
  | starting =>
    simp only [readFromPeerTracked]
    split_ifs with hblacklisted
    · exact .refuse hblacklisted
    · exact .start
  | checking =>
    simp only [readFromPeerTracked]
    cases hresolve : resolve s.p2p peer.nodeId peer.isInbound with
    | none => exact .pass hresolve
    | keep => exact .reject hresolve
    | replace idx => exact .find idx hresolve
  | evicting idx =>
    simp only [readFromPeerTracked]
    rcases evict_cases s.p2p peer.nodeId idx with ⟨old, hold, hid, hevict⟩ | ⟨hmoved, hevict⟩
    · rw [hevict]
      exact .evict idx old hold hid
    · rw [hevict]
      exact .lose idx hmoved
  | disconnecting transport => exact .disconnect transport
  | adding => exact .add
  | discovering => exact .discover now
  | reading start count =>
    simp only [readFromPeerTracked]
    cases recv with
    | failed => exact .stop start count
    | message taken =>
      simp only
      split_ifs
      · exact .flood start count
      · exact .read start _ count _
      · exact .stop start count
  | blacklisting => exact .blacklist
  | leaving => exact .leave
  | done => exact .idle

variable {node : PeerNode} {s s' : Shared} {t : ReadTask} {phase : Phase} {rest : List ReadTask}
  {now : UInt64} {recv : Received} {i : ℕ}

theorem step_run (h : node.tasks[i]? = some t) (now : UInt64) (recv : Received) :
    ∃ phase s', Move t.peer node.shared t.phase phase s' ∧
      (readFromPeerTracked t.peer t.phase now recv node.shared).1 = phase ∧
      node.step (.run i now recv) = ⟨s', node.tasks.set i { t with phase := phase }⟩ := by
  refine ⟨_, _, move t.peer t.phase now recv node.shared, rfl, ?_⟩
  simp only [PeerNode.step, h]

theorem perm_tasks (h : node.tasks[i]? = some t) (t' : ReadTask) :
    node.tasks.Perm (t :: node.tasks.eraseIdx i) ∧
      (node.tasks.set i t').Perm (t' :: node.tasks.eraseIdx i) := by
  obtain ⟨hlt, rfl⟩ := List.getElem?_eq_some_iff.mp h
  exact ⟨(List.getElem_cons_eraseIdx_perm hlt).symm, List.set_perm_cons_eraseIdx hlt t'⟩

theorem step_run_none (h : node.tasks[i]? = none) : node.step (.run i now recv) = node := by
  simp only [PeerNode.step, h]

/-- What a connection attempt does: at most one task more, or one transport given up. -/
theorem step_connect (node : PeerNode) (url : String) (transport : ℕ) (isInbound : Bool)
    (sent : Except StroemnetP2pError Unit) (received : Except StroemnetP2pError Bytes)
    (now : UInt64) :
    (∃ peer, node.servedPeer url transport isInbound sent received now = some peer ∧
      (∀ t ∈ node.tasks, t.peer.transport ≠ transport) ∧
      node.step (.connect url transport isInbound sent received now) =
        { node with tasks := node.tasks ++ [⟨peer, .starting⟩] }) ∨
    (∃ closed, (closed = node.shared.closed ∨
        node.servedPeer url transport isInbound sent received now = none ∧
          closed = transport :: node.shared.closed) ∧
      node.step (.connect url transport isInbound sent received now) =
        { node with shared.closed := closed }) := by
  simp only [PeerNode.step]
  split_ifs with hused
  · exact .inr ⟨_, .inl rfl, rfl⟩
  · cases hpeer : node.servedPeer url transport isInbound sent received now with
    | none => exact .inr ⟨_, .inr ⟨rfl, rfl⟩, rfl⟩
    | some peer => exact .inl ⟨peer, rfl, by simpa using hused, rfl⟩

/-- What every step of a node leads to: a task more, a transport given up, or a task moved on. -/
theorem step_induction {P : PeerNode → Prop} (node : PeerNode) (input : PeerInput)
    (hspawn : ∀ peer, P { node with tasks := node.tasks ++ [⟨peer, .starting⟩] })
    (hclosed : ∀ closed, P { node with shared.closed := closed })
    (hmove : ∀ i now recv t phase s', input = .run i now recv → node.tasks[i]? = some t →
      Move t.peer node.shared t.phase phase s' →
      P ⟨s', node.tasks.set i { t with phase := phase }⟩) : P (node.step input) := by
  cases input with
  | connect url transport isInbound sent received now =>
    rcases step_connect node url transport isInbound sent received now with
      ⟨peer, -, -, heq⟩ | ⟨closed, -, heq⟩
    · rw [heq]
      exact hspawn peer
    · rw [heq]
      exact hclosed closed
  | run i now recv =>
    cases ht : node.tasks[i]? with
    | none =>
      rw [step_run_none ht]
      exact hclosed node.shared.closed
    | some t =>
      obtain ⟨phase, s', hstep, -, heq⟩ := step_run ht now recv
      rw [heq]
      exact hmove i now recv t phase s' rfl ht hstep

structure Coherent (peers : List ConnectedPeer) (tasks : List ReadTask) : Prop where
  unique : (peers.map ConnectedPeer.nodeId).Nodup
  exclusive : tasks.Pairwise fun t u =>
    t.peer.nodeId = u.peer.nodeId → t.phase.resolving = true → u.phase.resolving = false
  cleared : ∀ t ∈ tasks, t.phase.cleared = true → ∀ e ∈ peers, e.nodeId ≠ t.peer.nodeId

section List

variable {peers peers' : List ConnectedPeer} {tasks tasks' : List ReadTask}

theorem Coherent.perm (h : Coherent peers tasks) (hperm : tasks.Perm tasks') :
    Coherent peers tasks' where
  unique := h.unique
  exclusive := by
    refine (hperm.pairwise_iff fun {t u} htu => ?_).mp h.exclusive
    intro heq hu
    cases ht : t.phase.resolving with
    | false => rfl
    | true => rw [htu heq.symm ht] at hu; cases hu
  cleared t ht := h.cleared t (hperm.mem_iff.mpr ht)

theorem Coherent.spawn (h : Coherent peers tasks) (peer : ConnectedPeer) :
    Coherent peers (tasks ++ [⟨peer, .starting⟩]) := by
  have hperm : (⟨peer, .starting⟩ :: tasks).Perm (tasks ++ [⟨peer, .starting⟩]) :=
    (List.perm_append_singleton _ _).symm
  refine Coherent.perm ?_ hperm
  refine ⟨h.unique, List.pairwise_cons.mpr ⟨fun _ _ _ => nofun, h.exclusive⟩, ?_⟩
  intro t ht
  rcases List.mem_cons.mp ht with rfl | ht
  · nofun
  · exact h.cleared t ht

/-- A step that takes nothing but connections out of the list. -/
theorem Coherent.update (h : Coherent peers (t :: rest)) (hsub : peers'.Sublist peers)
    (phase : Phase)
    (hresolving : phase.resolving = true → ∀ u ∈ rest, u.peer.nodeId = t.peer.nodeId →
      u.phase.resolving = false)
    (hcleared : phase.cleared = true → ∀ e ∈ peers', e.nodeId ≠ t.peer.nodeId) :
    Coherent peers' ({ t with phase := phase } :: rest) := by
  have hrest := List.pairwise_cons.mp h.exclusive
  refine ⟨h.unique.sublist (hsub.map _), List.pairwise_cons.mpr ⟨?_, hrest.2⟩, ?_⟩
  · intro u hu heq hphase
    exact hresolving hphase u hu heq.symm
  · intro u hu
    rcases List.mem_cons.mp hu with rfl | hu
    · exact hcleared
    · intro hphase e he
      exact h.cleared u (List.mem_cons_of_mem _ hu) hphase e (hsub.subset he)

/-- The connection is added where no other for its peer is left. -/
theorem Coherent.add (h : Coherent peers (t :: rest)) (hphase : t.phase = .adding) (phase : Phase)
    (hresolving : phase.resolving = false) (hcleared : phase.cleared = false) :
    Coherent (peers ++ [t.peer]) ({ t with phase := phase } :: rest) := by
  have hnone := h.cleared t List.mem_cons_self (by rw [hphase]; rfl)
  have hrest := List.pairwise_cons.mp h.exclusive
  refine ⟨?_, List.pairwise_cons.mpr ⟨?_, hrest.2⟩, ?_⟩
  · rw [List.map_append, List.nodup_append']
    refine ⟨h.unique, List.nodup_singleton _, ?_⟩
    intro id hid hsingle
    obtain ⟨e, he, rfl⟩ := List.mem_map.mp hid
    exact hnone e he (List.mem_singleton.mp hsingle)
  · intro u _ _ hu
    rw [hresolving] at hu
    cases hu
  · intro u hu hu'
    rcases List.mem_cons.mp hu with rfl | hu
    · rw [hcleared] at hu'
      cases hu'
    · intro e he
      rcases List.mem_append.mp he with he | he
      · exact h.cleared u (List.mem_cons_of_mem _ hu) hu' e he
      · -- a second task for the peer would have been let through the check
        rw [List.mem_singleton.mp he]
        intro heq
        have hfalse := hrest.1 u hu heq (by rw [hphase]; rfl)
        cases hp : u.phase <;> rw [hp] at hfalse hu' <;> cases hfalse <;> cases hu'

end List

private theorem resolve_eq_none {p : P2p} {id : Bytes32} {isInbound : Bool}
    (h : resolve p id isInbound = .none) : ∀ e ∈ p.connectedPeers, e.nodeId ≠ id := by
  unfold resolve at h
  cases hidx : p.connectedPeers.findIdx? fun peer => peer.nodeId = id with
  | none => simpa using hidx
  | some idx =>
    obtain ⟨hlt, -⟩ := List.findIdx?_eq_some_iff_getElem.mp hidx
    simp only [hidx, List.getElem?_eq_getElem hlt] at h
    split_ifs at h

/-- Every step of a task keeps the list free of a second connection to a peer. -/
theorem Coherent.move (h : Coherent s.p2p.connectedPeers (t :: rest))
    (hundisturbed : TaskUndisturbed s.p2p t rest) (hmove : Move t.peer s t.phase phase s') :
    Coherent s'.p2p.connectedPeers ({ t with phase := phase } :: rest) := by
  have hown : t.phase.resolving = true →
      ∀ u ∈ rest, u.peer.nodeId = t.peer.nodeId → u.phase.resolving = false :=
    fun hres u hu heq => (List.pairwise_cons.mp h.exclusive).1 u hu heq.symm hres
  have hcleared := h.cleared t List.mem_cons_self
  have hrefl := List.Sublist.refl s.p2p.connectedPeers
  unfold TaskUndisturbed at hundisturbed
  generalize hphase : t.phase = before at hmove hundisturbed hown hcleared
  cases hmove with
  | pass hresolve =>
    exact h.update hrefl _ (fun _ => hundisturbed (by rw [hresolve]; nofun))
      (fun _ => resolve_eq_none hresolve)
  | find idx hresolve =>
    exact h.update hrefl _ (fun _ => hundisturbed (by rw [hresolve]; nofun)) nofun
  | evict idx old hold hid =>
    refine h.update (List.eraseIdx_sublist _ _) _ (fun _ => hown rfl) fun _ e he heq => ?_
    obtain ⟨hlt, rfl⟩ := List.getElem?_eq_some_iff.mp hold
    have hnodup := ((List.getElem_cons_eraseIdx_perm hlt).map ConnectedPeer.nodeId).nodup_iff.mpr
      h.unique
    rw [List.map_cons, List.nodup_cons, hid] at hnodup
    exact hnodup.1 (heq ▸ List.mem_map_of_mem he)
  | lose idx hmoved =>
    exact h.update hrefl _ (fun _ => hown rfl) fun _ e he heq => hmoved (hundisturbed e he heq)
  | disconnect transport => exact h.update hrefl _ (fun _ => hown rfl) fun _ => hcleared rfl
  | add => exact h.add hphase _ rfl rfl
  | leave => exact h.update List.filter_sublist _ nofun nofun
  | _ => exact h.update hrefl _ nofun nofun

theorem coherent_step (h : Coherent node.shared.p2p.connectedPeers node.tasks) (input : PeerInput)
    (hundisturbed : Undisturbed node input) :
    Coherent (node.step input).shared.p2p.connectedPeers (node.step input).tasks := by
  refine step_induction
    (P := fun node' => Coherent node'.shared.p2p.connectedPeers node'.tasks) node
    input h.spawn (fun _ => h) ?_
  rintro i now recv t phase s' rfl ht hmove
  obtain ⟨hperm, hset⟩ := perm_tasks ht { t with phase := phase }
  exact ((h.perm hperm).move (hundisturbed t ht) hmove).perm hset.symm

/-- A step moves the counter exactly when the task enters or leaves the span between its add and
its removal. -/
theorem Move.counter {peer : ConnectedPeer} {before : Phase} (hmove : Move peer s before phase s')
    (hpos : before.connected = true → 0 < s.counter) :
    s'.counter + (if before.connected then 1 else 0) =
      s.counter + if phase.connected then 1 else 0 := by
  cases hmove with
  | leave => exact Nat.sub_add_cancel (hpos rfl)
  | _ => rfl

theorem counter_step (node : PeerNode) (input : PeerInput)
    (h : node.shared.counter = node.tasks.countP fun t => t.phase.connected) :
    (node.step input).shared.counter =
      (node.step input).tasks.countP fun t => t.phase.connected := by
  refine step_induction (P := fun node' => node'.shared.counter =
    node'.tasks.countP fun t => t.phase.connected) node input ?_ (fun _ => h) ?_
  · intro peer
    simpa [Phase.connected] using h
  · intro i now recv t phase s' _ ht hmove
    obtain ⟨hperm, hset⟩ := perm_tasks ht { t with phase := phase }
    rw [hperm.countP_eq, List.countP_cons] at h
    have hcounter := hmove.counter fun hphase => by
      rw [h, hphase]
      exact Nat.succ_pos _
    simp only at hcounter ⊢
    rw [hset.countP_eq, List.countP_cons]
    simp only
    omega

theorem removesOwn_of_undisturbed (input : PeerInput) (h : Undisturbed node input) :
    RemovesOwn node input := by
  rintro i now recv t rfl ht hphase e he hgone
  have hend := h t ht
  simp only [TaskUndisturbed, hphase] at hend
  simp only [PeerNode.step, ht, hphase, readFromPeerTracked, P2p.removeConnectedPeer,
    List.mem_filter, he, true_and, decide_eq_true_eq, not_not] at hgone
  exact hend e he hgone

end Stroemnet.Gossip
