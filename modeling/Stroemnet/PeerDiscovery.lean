import Stroemnet.RateLimits

/-! # Discovery of peers

A peer tells a node where the peers that it knows listen, in the handshake and in messages later.
The node asks for those addresses to be dialled that it has a use for. One task takes these requests
up in turn, and starts a driver for an address that is neither connected nor held by another driver.
The driver holds its address until the dial has failed or the connection is over. -/
namespace Stroemnet.Gossip

def normalizeListenAddr (s : String) : String :=
  String.ofList ((trimEndSlashes s).map Char.toLower)

theorem listenAddrsEqual_iff (a b : String) :
    listenAddrsEqual a b = true ↔ normalizeListenAddr a = normalizeListenAddr b := by
  unfold listenAddrsEqual normalizeListenAddr
  rw [decide_eq_true_iff, String.ofList_inj]

def isWsUrl (urlNorm : String) : Bool :=
  "ws://".toList.isPrefixOf urlNorm.toList || "wss://".toList.isPrefixOf urlNorm.toList

namespace P2p

def ourListen (p : P2p) : Option String := p.config.advertisedListenAddr.map normalizeListenAddr

def isConnectedPeer (p : P2p) (listenUrlNorm : String) : Bool :=
  p.connectedPeers.any fun peer =>
    (peer.advertisedListen.map (listenAddrsEqual · listenUrlNorm)).getD false

/-- Where the connected peers listen. -/
def connectedAddrs (p : P2p) : Finset String :=
  (p.connectedPeers.filterMap fun peer => peer.advertisedListen.map normalizeListenAddr).toFinset

end P2p

/-- The loop of `process_peer_addrs`: the addresses that are asked for, up to the target. -/
def wantedAddrs (ourListen : Option String) (connected : Finset String) (target : ℕ) :
    ℕ → List PeerAddr → List String
  | _, [] => []
  | requested, entry :: addrs =>
    if target ≤ connected.card + requested then []
    else
      let urlNorm := normalizeListenAddr entry.url
      if ourListen = some urlNorm ∨ urlNorm ∈ connected then
        wantedAddrs ourListen connected target requested addrs
      else if ¬isWsUrl urlNorm then wantedAddrs ourListen connected target requested addrs
      else entry.url :: wantedAddrs ourListen connected target (requested + 1) addrs

section Wanted

variable {ourListen : Option String} {connected : Finset String} {target requested : ℕ}
  {addrs : List PeerAddr} {url : String}

theorem mem_wantedAddrs (h : url ∈ wantedAddrs ourListen connected target requested addrs) :
    (∃ entry ∈ addrs, entry.url = url) ∧ isWsUrl (normalizeListenAddr url) = true ∧
      ourListen ≠ some (normalizeListenAddr url) ∧ normalizeListenAddr url ∉ connected := by
  induction addrs generalizing requested with
  | nil => cases h
  | cons entry addrs ih =>
    have hrest (requested : ℕ)
        (h : url ∈ wantedAddrs ourListen connected target requested addrs) :
        (∃ found ∈ entry :: addrs, found.url = url) ∧ isWsUrl (normalizeListenAddr url) = true ∧
          ourListen ≠ some (normalizeListenAddr url) ∧ normalizeListenAddr url ∉ connected := by
      obtain ⟨⟨found, hfound, hurl⟩, hwanted⟩ := ih h
      exact ⟨⟨found, List.mem_cons_of_mem entry hfound, hurl⟩, hwanted⟩
    simp only [wantedAddrs] at h
    split_ifs at h with hfull hknown hws
    · cases h
    · exact hrest _ h
    · rcases List.mem_cons.mp h with rfl | h
      · rw [not_or] at hknown
        exact ⟨⟨entry, List.mem_cons_self, rfl⟩, hws, hknown⟩
      · exact hrest _ h
    · exact hrest _ h

theorem length_wantedAddrs (ourListen : Option String) (connected : Finset String)
    (target requested : ℕ) (addrs : List PeerAddr) :
    (wantedAddrs ourListen connected target requested addrs).length ≤
      target - (connected.card + requested) := by
  induction addrs generalizing requested with
  | nil => exact Nat.zero_le _
  | cons entry addrs ih =>
    simp only [wantedAddrs]
    split_ifs with hfull hknown hws
    · exact Nat.zero_le _
    · exact ih requested
    · have hlength := ih (requested + 1)
      rw [List.length_cons]
      omega
    · exact ih requested

end Wanted

def maxInflightDials : ℕ := 64

inductive DialStage
  | dialling
  /-- The connection is served by the task at this place. -/
  | serving (task : ℕ)
  | ended
deriving DecidableEq

structure DialDriver where
  url : String
  urlNorm : String
  stage : DialStage
deriving DecidableEq

namespace DialDriver

def live (d : DialDriver) : Bool := d.stage ≠ .ended

theorem live_of_stage {d : DialDriver} {stage : DialStage} (h : d.stage = stage)
    (hstage : stage ≠ .ended) : d.live = true := by
  subst h
  exact decide_eq_true hstage

/-- The driver comes to its end and drops the guard of its address. -/
def finish (d : DialDriver) : DialDriver := { d with stage := .ended }

end DialDriver

structure DiscoveryNode where
  targetOutbound : ℕ
  node : PeerNode
  /-- The addresses to be dialled, the next one first. -/
  dialQueue : List String
  /-- An address that the dialler has found not to be connected. -/
  takenUp : Option String
  inFlight : Finset String
  drivers : List DialDriver

inductive DiscoveryInput
  /-- A connection that discovery has no part in is dialled or accepted, or a task takes a step. -/
  | peer (input : PeerInput)
  /-- A message with the state of a peer is handled. -/
  | state (peers : List PeerAddr)
  /-- The dialler takes up the next address, unless it is connected. -/
  | receive
  /-- The dialler starts a driver for the address, unless it is held or too many are. -/
  | startDriver
  /-- The dial of a driver gets through to a handshake. -/
  | dialled (k transport : ℕ) (sent : Except StroemnetP2pError Unit)
    (received : Except StroemnetP2pError Bytes) (now : UInt64)
  /-- The dial of a driver fails or takes too long. -/
  | undialled (k : ℕ)
  /-- A driver whose task is over ends. -/
  | release (k : ℕ)

/-- The addresses that a task has its node look at, when its peer has been added. -/
def PeerNode.learned (node : PeerNode) : PeerInput → List PeerAddr
  | .run i _ _ =>
    match node.tasks[i]? with
    | some t => if t.phase = .discovering then t.peer.knownPeers else []
    | none => []
  | .connect .. => []

namespace DiscoveryNode

def new (config : P2pConfig) (targetOutbound : ℕ) : DiscoveryNode :=
  ⟨targetOutbound, .new config, [], none, ∅, []⟩

def processPeerAddrs (s : DiscoveryNode) (addrs : List PeerAddr) : List String :=
  wantedAddrs s.node.shared.p2p.ourListen s.node.shared.p2p.connectedAddrs s.targetOutbound 0 addrs

/-- The addresses that peers tell a node about. -/
def heard (s : DiscoveryNode) : DiscoveryInput → List PeerAddr
  | .peer input => s.node.learned input
  | .state peers => peers
  | _ => []

def setDriver (s : DiscoveryNode) (k : ℕ) (d : DialDriver) : DiscoveryNode :=
  { s with drivers := s.drivers.set k d }

/-- A driver ends, and its address is free again. -/
def finish (s : DiscoveryNode) (k : ℕ) (d : DialDriver) : DiscoveryNode :=
  { s.setDriver k d.finish with inFlight := s.inFlight.erase d.urlNorm }

def receive (s : DiscoveryNode) : DiscoveryNode :=
  match s.takenUp, s.dialQueue with
  | none, url :: dialQueue =>
    if s.node.shared.p2p.isConnectedPeer (normalizeListenAddr url) then
      { s with dialQueue := dialQueue }
    else { s with dialQueue := dialQueue, takenUp := some url }
  | _, _ => s

def startDriver (s : DiscoveryNode) : DiscoveryNode :=
  match s.takenUp with
  | none => s
  | some url =>
    let urlNorm := normalizeListenAddr url
    if maxInflightDials ≤ s.inFlight.card ∨ urlNorm ∈ s.inFlight then { s with takenUp := none }
    else
      { s with
        takenUp := none
        inFlight := insert urlNorm s.inFlight
        drivers := s.drivers ++ [⟨url, urlNorm, .dialling⟩] }

/-- The handshake of a driver's connection, which a task serves if it succeeds. -/
def dialled (s : DiscoveryNode) (k : ℕ) (d : DialDriver) (transport : ℕ)
    (sent : Except StroemnetP2pError Unit) (received : Except StroemnetP2pError Bytes)
    (now : UInt64) : DiscoveryNode :=
  let node := s.node.step (.connect d.url transport false sent received now)
  let s' := { s with node := node }
  if node.tasks.length = s.node.tasks.length then s'.finish k d
  else s'.setDriver k { d with stage := .serving s.node.tasks.length }

def step (s : DiscoveryNode) : DiscoveryInput → DiscoveryNode
  | .peer input =>
    { s with
      node := s.node.step input
      dialQueue := s.dialQueue ++ s.processPeerAddrs (s.node.learned input) }
  | .state peers => { s with dialQueue := s.dialQueue ++ s.processPeerAddrs peers }
  | .receive => s.receive
  | .startDriver => s.startDriver
  | .dialled k transport sent received now =>
    match s.drivers[k]? with
    | some d => if d.stage = .dialling then s.dialled k d transport sent received now else s
    | none => s
  | .undialled k =>
    match s.drivers[k]? with
    | some d => if d.stage = .dialling then s.finish k d else s
    | none => s
  | .release k =>
    match s.drivers[k]? with
    | some d =>
      match d.stage with
      | .serving task => if s.node.phaseOf task = some .done then s.finish k d else s
      | _ => s
    | none => s

/-- The steps that the connections and their tasks take in a step of the node. -/
def nodeInputs (s : DiscoveryNode) : DiscoveryInput → List PeerInput
  | .peer input => [input]
  | .dialled k transport sent received now =>
    match s.drivers[k]? with
    | some d =>
      if d.stage = .dialling then [.connect d.url transport false sent received now] else []
    | none => []
  | _ => []

def live (s : DiscoveryNode) : List DialDriver := s.drivers.filter DialDriver.live

end DiscoveryNode

inductive DialEvent
  | heard (addr : PeerAddr)
  | asked (url : String)
  /-- The dialler passes over an address that is connected or held, or while too many are held. -/
  | passed (url : String)
  /-- A driver is started. -/
  | started (url : String)
deriving DecidableEq

namespace DialEvent

def asked? : DialEvent → Option String
  | .asked url => some url
  | _ => none

def started? : DialEvent → Option String
  | .started url => some url
  | _ => none

def settled? : DialEvent → Option String
  | .passed url => some url
  | .started url => some url
  | _ => none

end DialEvent

namespace DiscoveryNode

def settles (s : DiscoveryNode) : DiscoveryInput → List DialEvent
  | .receive =>
    match s.takenUp, s.dialQueue with
    | none, url :: _ =>
      if s.node.shared.p2p.isConnectedPeer (normalizeListenAddr url) then [.passed url] else []
    | _, _ => []
  | .startDriver =>
    match s.takenUp with
    | none => []
    | some url =>
      if maxInflightDials ≤ s.inFlight.card ∨ normalizeListenAddr url ∈ s.inFlight then
        [.passed url]
      else [.started url]
  | _ => []

def events (s : DiscoveryNode) (input : DiscoveryInput) : List DialEvent :=
  (s.heard input).map .heard ++ (s.processPeerAddrs (s.heard input)).map .asked ++ s.settles input

end DiscoveryNode

inductive Turn (s : DiscoveryNode) (input : DiscoveryInput) : DiscoveryNode → Prop
  | idle (hheard : s.heard input = []) (hsettles : s.settles input = []) : Turn s input s
  | hear (node : PeerNode) (hsettles : s.settles input = []) :
    Turn s input
      { s with
        node := node
        dialQueue := s.dialQueue ++ s.processPeerAddrs (s.heard input) }
  | passNext (url : String) (dialQueue : List String) (htaken : s.takenUp = none)
    (hqueue : s.dialQueue = url :: dialQueue) (hheard : s.heard input = [])
    (hsettles : s.settles input = [.passed url]) :
    Turn s input { s with dialQueue := dialQueue }
  | takeUp (url : String) (dialQueue : List String) (htaken : s.takenUp = none)
    (hqueue : s.dialQueue = url :: dialQueue) (hheard : s.heard input = [])
    (hsettles : s.settles input = []) :
    Turn s input { s with dialQueue := dialQueue, takenUp := some url }
  | pass (url : String) (htaken : s.takenUp = some url) (hheard : s.heard input = [])
    (hsettles : s.settles input = [.passed url]) :
    Turn s input { s with takenUp := none }
  | start (url : String) (htaken : s.takenUp = some url)
    (hroom : s.inFlight.card < maxInflightDials) (hfree : normalizeListenAddr url ∉ s.inFlight)
    (hheard : s.heard input = []) (hsettles : s.settles input = [.started url]) :
    Turn s input
      { s with
        takenUp := none
        inFlight := insert (normalizeListenAddr url) s.inFlight
        drivers := s.drivers ++ [⟨url, normalizeListenAddr url, .dialling⟩] }
  | serve (k : ℕ) (d : DialDriver) (peer : ConnectedPeer) (transport : ℕ)
    (sent : Except StroemnetP2pError Unit) (received : Except StroemnetP2pError Bytes)
    (now : UInt64) (hd : s.drivers[k]? = some d) (hstage : d.stage = .dialling)
    (hpeer : s.node.servedPeer d.url transport false sent received now = some peer)
    (hheard : s.heard input = []) (hsettles : s.settles input = []) :
    Turn s input
      (DiscoveryNode.setDriver { s with node.tasks := s.node.tasks ++ [⟨peer, .starting⟩] } k
        { d with stage := .serving s.node.tasks.length })
  | finish (k : ℕ) (d : DialDriver) (closed : List ℕ) (hd : s.drivers[k]? = some d)
    (hlive : d.live = true) (hheard : s.heard input = []) (hsettles : s.settles input = []) :
    Turn s input (DiscoveryNode.finish { s with node.shared.closed := closed } k d)

section Steps

variable {s s' : DiscoveryNode} {input : DiscoveryInput}

private theorem turn_receive (s : DiscoveryNode) : Turn s .receive s.receive := by
  unfold DiscoveryNode.receive
  cases htaken : s.takenUp with
  | some url => exact .idle rfl (by simp only [DiscoveryNode.settles, htaken])
  | none =>
    cases hqueue : s.dialQueue with
    | nil => exact .idle rfl (by simp only [DiscoveryNode.settles, htaken, hqueue])
    | cons url dialQueue =>
      simp only
      split_ifs with hconnected
      · exact htaken ▸ .passNext url dialQueue htaken hqueue rfl
          (by simp only [DiscoveryNode.settles, htaken, hqueue, hconnected, if_true])
      · exact .takeUp url dialQueue htaken hqueue rfl
          (by simp only [DiscoveryNode.settles, htaken, hqueue, hconnected]; rfl)

private theorem turn_startDriver (s : DiscoveryNode) : Turn s .startDriver s.startDriver := by
  unfold DiscoveryNode.startDriver
  cases htaken : s.takenUp with
  | none => exact .idle rfl (by simp only [DiscoveryNode.settles, htaken])
  | some url =>
    simp only
    split_ifs with hheld
    · exact .pass url htaken rfl (by simp only [DiscoveryNode.settles, htaken, if_pos hheld])
    · have hsettles : s.settles .startDriver = [.started url] := by
        simp only [DiscoveryNode.settles, htaken, if_neg hheld]
      rw [not_or, not_le] at hheld
      exact .start url htaken hheld.1 hheld.2 rfl hsettles

private theorem turn_dialled {k : ℕ} {d : DialDriver} (hd : s.drivers[k]? = some d)
    (hstage : d.stage = .dialling) (transport : ℕ) (sent : Except StroemnetP2pError Unit)
    (received : Except StroemnetP2pError Bytes) (now : UInt64) :
    Turn s (.dialled k transport sent received now)
      (s.dialled k d transport sent received now) := by
  unfold DiscoveryNode.dialled
  rcases step_connect s.node d.url transport false sent received now with
    ⟨peer, hpeer, -, heq⟩ | ⟨closed, -, heq⟩
  · simp only [heq, List.length_append, List.length_singleton]
    rw [if_neg (Nat.succ_ne_self _)]
    exact .serve k d peer transport sent received now hd hstage hpeer rfl rfl
  · simp only [heq, if_true]
    exact .finish k d closed hd (DialDriver.live_of_stage hstage nofun) rfl rfl

theorem turn (s : DiscoveryNode) (input : DiscoveryInput) : Turn s input (s.step input) := by
  cases input with
  | peer input => exact .hear (s.node.step input) rfl
  | state peers => exact .hear s.node rfl
  | receive => exact turn_receive s
  | startDriver => exact turn_startDriver s
  | dialled k transport sent received now =>
    simp only [DiscoveryNode.step]
    cases hd : s.drivers[k]? with
    | none => exact .idle rfl rfl
    | some d =>
      simp only
      split_ifs with hstage
      · exact turn_dialled hd hstage transport sent received now
      · exact .idle rfl rfl
  | undialled k =>
    simp only [DiscoveryNode.step]
    cases hd : s.drivers[k]? with
    | none => exact .idle rfl rfl
    | some d =>
      simp only
      split_ifs with hstage
      · exact .finish k d s.node.shared.closed hd (DialDriver.live_of_stage hstage nofun) rfl rfl
      · exact .idle rfl rfl
  | release k =>
    simp only [DiscoveryNode.step]
    cases hd : s.drivers[k]? with
    | none => exact .idle rfl rfl
    | some d =>
      simp only
      cases hstage : d.stage with
      | serving task =>
        simp only
        split_ifs
        · exact .finish k d s.node.shared.closed hd (DialDriver.live_of_stage hstage nofun) rfl rfl
        · exact .idle rfl rfl
      | _ => exact .idle rfl rfl

/-- The connections of a discovering node and their tasks go on as those of any node. -/
theorem node_step (s : DiscoveryNode) (input : DiscoveryInput) :
    (s.step input).node = Runs.final PeerNode.step s.node (s.nodeInputs input) := by
  cases input with
  | peer input => rfl
  | state peers => rfl
  | receive =>
    simp only [DiscoveryNode.step, DiscoveryNode.receive]
    split
    · split_ifs <;> rfl
    · rfl
  | startDriver =>
    simp only [DiscoveryNode.step, DiscoveryNode.startDriver]
    split
    · rfl
    · split_ifs <;> rfl
  | dialled k transport sent received now =>
    simp only [DiscoveryNode.step, DiscoveryNode.nodeInputs, DiscoveryNode.dialled]
    cases s.drivers[k]? with
    | none => rfl
    | some d =>
      simp only
      split_ifs <;> rfl
  | undialled k =>
    simp only [DiscoveryNode.step]
    split
    · split_ifs <;> rfl
    · rfl
  | release k =>
    simp only [DiscoveryNode.step]
    split
    · split
      · split_ifs <;> rfl
      · rfl
    · rfl

theorem node_run (s : DiscoveryNode) (inputs : List DiscoveryInput) :
    (Runs.final DiscoveryNode.step s inputs).node =
      Runs.final PeerNode.step s.node
        (Runs.outputs DiscoveryNode.step DiscoveryNode.nodeInputs s inputs) := by
  induction inputs generalizing s with
  | nil => rfl
  | cons input inputs ih =>
    rw [Runs.final_cons, ih, node_step, Runs.outputs, Runs.final_append]

end Steps

end Stroemnet.Gossip
