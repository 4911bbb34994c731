import Stroemnet.GossipWire
import Stroemnet.GuardedRuns
import Stroemnet.OrderedTables
import Mathlib.Data.Finset.Insert
import Mathlib.Data.List.Lex

/-! # The connections of a node

A connection that a node has dialled or accepted is served by a task of its own from the handshake
to the end. The tasks share the list of connected peers, which they take a lock for each time that
they look at it or change it, so that any other task may run between two such steps. -/
namespace Stroemnet.Gossip

def trimEndSlashes (s : String) : List Char := (s.toList.reverse.dropWhile (· = '/')).reverse

def listenAddrsEqual (a b : String) : Bool :=
  (trimEndSlashes a).map Char.toLower = (trimEndSlashes b).map Char.toLower

structure P2pConfig where
  nodeId : Bytes32
  maxInbound : ℕ
  advertisedListenAddr : Option String

/-- A peer after the handshake. The transport tells its connection from all others. -/
structure ConnectedPeer where
  url : String
  transport : ℕ
  nodeId : Bytes32
  advertisedListen : Option String
  connectedAt : UInt64
  isInbound : Bool
  knownPeers : List PeerAddr
deriving DecidableEq

structure P2p where
  config : P2pConfig
  connectedPeers : List ConnectedPeer
  blacklist : Finset Bytes32

namespace P2p

def new (config : P2pConfig) : P2p := ⟨config, [], ∅⟩

def blacklistPeer (p : P2p) (nodeId : Bytes32) : P2p :=
  { p with blacklist := insert nodeId p.blacklist }

def isBlacklisted (p : P2p) (nodeId : Bytes32) : Bool := nodeId ∈ p.blacklist

def addConnectedPeer (p : P2p) (peer : ConnectedPeer) : P2p :=
  { p with connectedPeers := p.connectedPeers ++ [peer] }

def removeConnectedPeer (p : P2p) (url : String) : P2p :=
  { p with connectedPeers := p.connectedPeers.filter fun peer => peer.url ≠ url }

/-- What a node passes on of a peer: where the peer listens, unless that is where the node does. -/
def peerAddr? (p : P2p) (peer : ConnectedPeer) : Option PeerAddr :=
  match peer.advertisedListen, p.config.advertisedListenAddr with
  | none, _ => none
  | some url, none => some ⟨url, peer.connectedAt⟩
  | some url, some ours =>
    if listenAddrsEqual url ours then none else some ⟨url, peer.connectedAt⟩

def connectedPeerAddrs (p : P2p) : List PeerAddr := p.connectedPeers.filterMap p.peerAddr?

def currentState (p : P2p) : NodeState :=
  ⟨p.config.nodeId, p.config.advertisedListenAddr, p.connectedPeerAddrs⟩

end P2p

def checkSelfLoop (peer : NodeState) (ourNodeId : Bytes32) (ourListen : Option String) :
    Except StroemnetP2pError Unit :=
  if peer.nodeId = ourNodeId then .error (.handshakeFailed .selfLoop)
  else
    match ourListen, peer.listenAddr with
    | some ours, some theirs =>
      if listenAddrsEqual ours theirs then .error (.handshakeFailed (.ourListenAddr theirs))
      else .ok ()
    | _, _ => .ok ()

def peerOfState (url : String) (transport : ℕ) (isInbound : Bool) (now : UInt64)
    (state : NodeState) : ConnectedPeer where
  url := url
  transport := transport
  nodeId := state.nodeId
  advertisedListen := if isInbound then state.listenAddr else some (state.listenAddr.getD url)
  connectedAt := now
  isInbound := isInbound
  knownPeers := state.peers

/-- Both sides send their state; `sent` and `received` are what the transport makes of that. -/
def handshake (url : String) (transport : ℕ) (ourState : NodeState) (isInbound : Bool)
    (sent : Except StroemnetP2pError Unit) (received : Except StroemnetP2pError Bytes)
    (now : UInt64) : Except StroemnetP2pError ConnectedPeer := do
  let _ ← encode (.state ourState)
  sent
  let bytes ← received
  match ← decode bytes with
  | .state peerState =>
    checkSelfLoop peerState ourState.nodeId ourState.listenAddr
    .ok (peerOfState url transport isInbound now peerState)
  | other => .error (.handshakeFailed (.expectedState other))

theorem handshake_eq_ok {url : String} {transport : ℕ} {ourState : NodeState} {isInbound : Bool}
    {sent : Except StroemnetP2pError Unit} {received : Except StroemnetP2pError Bytes}
    {now : UInt64} {peer : ConnectedPeer} :
    handshake url transport ourState isInbound sent received now = .ok peer ↔
      (∃ b, encode (.state ourState) = .ok b) ∧ sent = .ok () ∧
      ∃ bytes state, received = .ok bytes ∧ decode bytes = .ok (.state state) ∧
        checkSelfLoop state ourState.nodeId ourState.listenAddr = .ok () ∧
        peer = peerOfState url transport isInbound now state := by
  rw [handshake, bind_eq_ok, exists_and_right]
  refine and_congr_right fun _ => ?_
  rw [bind_eq_ok]
  constructor
  · rintro ⟨_, hsent, h⟩
    rw [bind_eq_ok] at h
    obtain ⟨bytes, hreceived, h⟩ := h
    rw [bind_eq_ok] at h
    obtain ⟨msg, hdecode, h⟩ := h
    cases msg with
    | state state =>
      rw [bind_eq_ok] at h
      obtain ⟨_, hcheck, h⟩ := h
      exact ⟨hsent, bytes, state, hreceived, hdecode, hcheck, (Except.ok.inj h).symm⟩
    | _ => cases h
  · rintro ⟨rfl, bytes, state, rfl, hdecode, hcheck, rfl⟩
    refine ⟨(), rfl, ?_⟩
    rw [bind_eq_ok]
    refine ⟨bytes, rfl, ?_⟩
    rw [bind_eq_ok]
    refine ⟨.state state, hdecode, ?_⟩
    rw [bind_eq_ok]
    exact ⟨(), hcheck, rfl⟩

def maxMessagesPerSecond : ℕ := 100

/-- Whether a connection was initiated by the node with the lower identifier. -/
def lowerInitiated (isInbound weAreLower : Bool) : Bool :=
  !isInbound && weAreLower || isInbound && !weAreLower

/-- Where a task stands between two of its steps. -/
inductive Phase
  | starting
  | checking
  /-- An older connection at this place of the list is to be replaced. -/
  | evicting (idx : ℕ)
  | disconnecting (transport : ℕ)
  | adding
  | discovering
  | reading (windowStart : UInt64) (countInWindow : ℕ)
  | blacklisting
  | leaving
  | done
deriving DecidableEq

structure ReadTask where
  peer : ConnectedPeer
  phase : Phase
deriving DecidableEq

/-- What the tasks of a node share. The closed transports are those that it has given up. -/
structure Shared where
  p2p : P2p
  counter : ℕ
  closed : List ℕ

/-- What comes of reading from a peer; a message may find nobody to take it. -/
inductive Received
  | failed
  | message (taken : Bool)
deriving DecidableEq

/-- What is found of a peer when a new connection to it is checked. -/
inductive Existing
  | none
  | keep
  | replace (idx : ℕ)
deriving DecidableEq

/-- The first part of `should_proceed`: the decision on what the list holds. -/
def resolve (p : P2p) (peerNodeId : Bytes32) (isInbound : Bool) : Existing :=
  let weAreLower := decide (p.config.nodeId.data < peerNodeId.data)
  match p.connectedPeers.findIdx? fun peer => peer.nodeId = peerNodeId with
  | .none => .none
  | some idx =>
    match p.connectedPeers[idx]? with
    | .none => .none
    | some existing =>
      if !lowerInitiated isInbound weAreLower || lowerInitiated existing.isInbound weAreLower then
        .keep
      else .replace idx

/-- The second part: the older connection is removed if it is still at its place. -/
def evict (p : P2p) (peerNodeId : Bytes32) (idx : ℕ) : Option ConnectedPeer × P2p :=
  match p.connectedPeers[idx]? with
  | some old =>
    if old.nodeId = peerNodeId then
      (some old, { p with connectedPeers := p.connectedPeers.eraseIdx idx })
    else (none, p)
  | none => (none, p)

def countMessage (windowStart now : UInt64) (countInWindow : ℕ) : UInt64 × ℕ :=
  if 1000 ≤ now.toNat - windowStart.toNat ∨ now < windowStart then (now, 1)
  else (windowStart, countInWindow + 1)

/-- The next step of a task, up to where it takes a lock again. The counter is moved together with
the list. -/
def readFromPeerTracked (peer : ConnectedPeer) (phase : Phase) (now : UInt64) (recv : Received)
    (s : Shared) : Phase × Shared :=
  match phase with
  | .starting =>
    if s.p2p.isBlacklisted peer.nodeId then
      (.done, { s with closed := peer.transport :: s.closed })
    else (.checking, s)
  | .checking =>
    match resolve s.p2p peer.nodeId peer.isInbound with
    | .none => (.adding, s)
    | .keep => (.done, { s with closed := peer.transport :: s.closed })
    | .replace idx => (.evicting idx, s)
  | .evicting idx =>
    match evict s.p2p peer.nodeId idx with
    | (some old, p2p) => (.disconnecting old.transport, { s with p2p := p2p })
    | (none, p2p) => (.adding, { s with p2p := p2p })
  | .disconnecting transport => (.adding, { s with closed := transport :: s.closed })
  | .adding =>
    (.discovering, { s with p2p := s.p2p.addConnectedPeer peer, counter := s.counter + 1 })
  | .discovering => (.reading now 0, s)
  | .reading windowStart countInWindow =>
    match recv with
    | .failed => (.leaving, s)
    | .message taken =>
      let (windowStart, countInWindow) := countMessage windowStart now countInWindow
      if maxMessagesPerSecond < countInWindow then (.blacklisting, s)
      else if taken then (.reading windowStart countInWindow, s)
      else (.leaving, s)
  | .blacklisting =>
    (.leaving, { s with p2p := s.p2p.blacklistPeer peer.nodeId
                        closed := peer.transport :: s.closed })
  | .leaving =>
    (.done, { p2p := s.p2p.removeConnectedPeer peer.url, counter := s.counter - 1
              closed := peer.transport :: s.closed })
  | .done => (.done, s)

structure PeerNode where
  shared : Shared
  tasks : List ReadTask

inductive PeerInput
  /-- A connection is dialled or accepted. -/
  | connect (url : String) (transport : ℕ) (isInbound : Bool)
    (sent : Except StroemnetP2pError Unit) (received : Except StroemnetP2pError Bytes)
    (now : UInt64)
  /-- A task takes its next step. -/
  | run (i : ℕ) (now : UInt64) (recv : Received)

namespace PeerNode

def new (config : P2pConfig) : PeerNode := ⟨⟨.new config, 0, []⟩, []⟩

def servedInbound (node : PeerNode) : ℕ :=
  node.tasks.countP fun t => t.peer.isInbound ∧ t.phase ≠ .done

/-- The peer that a connection leads to: one that passes the handshake, unless there are too many
already. -/
def servedPeer (node : PeerNode) (url : String) (transport : ℕ) (isInbound : Bool)
    (sent : Except StroemnetP2pError Unit) (received : Except StroemnetP2pError Bytes)
    (now : UInt64) : Option ConnectedPeer :=
  match handshake url transport node.shared.p2p.currentState isInbound sent received now with
  | .error _ => none
  | .ok peer =>
    if isInbound ∧ node.shared.p2p.config.maxInbound ≤ node.servedInbound then none else some peer

def step (node : PeerNode) : PeerInput → PeerNode
  | .connect url transport isInbound sent received now =>
    if node.tasks.any fun t => t.peer.transport = transport then node
    else
      match node.servedPeer url transport isInbound sent received now with
      | some peer => { node with tasks := node.tasks ++ [⟨peer, .starting⟩] }
      | none => { node with shared.closed := transport :: node.shared.closed }
  | .run i now recv =>
    match node.tasks[i]? with
    | none => node
    | some t =>
      let (phase, shared) := readFromPeerTracked t.peer t.phase now recv node.shared
      ⟨shared, node.tasks.set i { t with phase := phase }⟩

/-- A peer that a connection leads to has passed the handshake. -/
theorem servedPeer_eq_some {node : PeerNode} {url : String} {transport : ℕ} {isInbound : Bool}
    {sent : Except StroemnetP2pError Unit} {received : Except StroemnetP2pError Bytes}
    {now : UInt64} {peer : ConnectedPeer}
    (h : node.servedPeer url transport isInbound sent received now = some peer) :
    handshake url transport node.shared.p2p.currentState isInbound sent received now =
      .ok peer := by
  unfold servedPeer at h
  cases hpeer : handshake url transport node.shared.p2p.currentState isInbound sent received
    now with
  | error e => simp [hpeer] at h
  | ok peer' =>
    simp only [hpeer, Option.ite_none_left_eq_some, Option.some.injEq] at h
    rw [h.2]

theorem servedPeer_transport {node : PeerNode} {url : String} {transport : ℕ} {isInbound : Bool}
    {sent : Except StroemnetP2pError Unit} {received : Except StroemnetP2pError Bytes}
    {now : UInt64} {peer : ConnectedPeer}
    (h : node.servedPeer url transport isInbound sent received now = some peer) :
    peer.transport = transport ∧ peer.isInbound = isInbound := by
  obtain ⟨-, -, bytes, state, -, -, -, rfl⟩ := handshake_eq_ok.mp (servedPeer_eq_some h)
  exact ⟨rfl, rfl⟩

end PeerNode

end Stroemnet.Gossip
