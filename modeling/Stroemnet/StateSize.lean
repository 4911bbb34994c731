import Stroemnet.OnePerPeer
import Mathlib.Algebra.Group.Action.Defs
import Mathlib.Algebra.Order.BigOperators.Group.List

/-! # The size of a state message

A node tells every peer where the others listen, in one message that grows with the addresses they
have advertised. Nodes refuse what is larger than a fixed size, but do not look at the size of what
they send. -/
namespace Stroemnet.Gossip

open Borsh Record

def addrBytes (a : PeerAddr) : ℕ := 12 + (utf8Bytes a.url).length

/-- What a node's own address takes. -/
def listenBytes (listen : Option String) : ℕ :=
  (listen.map fun url => 4 + (utf8Bytes url).length).getD 0

def stateBytes (s : NodeState) : ℕ :=
  38 + listenBytes s.listenAddr + (s.peers.map addrBytes).sum

theorem sized_text : text.Sized fun s => 4 + (utf8Bytes s).length := by
  intro s b h
  have hsize : b.length = 4 + ((utf8Bytes s).map fun _ => 1).sum :=
    Codec.sized_u8.list.emap _ _ _ _ s b h
  rwa [List.map_const', List.sum_replicate, smul_eq_mul, Nat.mul_one] at hsize

private theorem sized_peerAddr : peerAddr.Sized addrBytes := by
  intro a b h
  have hsize : b.length = 4 + (utf8Bytes a.url).length + 8 :=
    (sized_text.pair Codec.sized_u64).iso _ _ _ _ a b h
  rw [hsize, addrBytes]
  omega

private theorem sized_nodeState : nodeState.Sized fun s => 37 + listenBytes s.listenAddr +
    (s.peers.map addrBytes).sum := by
  intro s b h
  have hid : bytes32.Sized fun _ => 32 := (Codec.sized_fixed 32).iso _ _ _ _
  have hsize : b.length = 32 + (1 + listenBytes s.listenAddr + (4 + (s.peers.map addrBytes).sum)) :=
    (hid.pair (sized_text.option.pair sized_peerAddr.list)).iso _ _ _ _ s b h
  simp only
  omega

theorem length_encode_state {s : NodeState} {b : Bytes} (h : encode (.state s) = .ok b) :
    b.length = stateBytes s := by
  have hsize := Codec.Sized.variants (c := payload) (i := 0) sized_nodeState (by decide)
    (encode_eq_ok.mp h)
  rw [hsize, stateBytes]
  omega

theorem encodable_text {s : String} : text.Encodable s ↔ (utf8Bytes s).length < 2 ^ 32 := by
  simp [text]

/-- A state message that would not be too large can be written. -/
theorem encodable_state {s : NodeState} (h : stateBytes s ≤ maxMessageBytes) :
    ∃ b, encode (.state s) = .ok b := by
  have hmax : maxMessageBytes < 2 ^ 32 := by decide
  rw [stateBytes] at h
  have hpeers : ∀ a ∈ s.peers, addrBytes a ≤ (s.peers.map addrBytes).sum := fun a ha =>
    List.single_le_sum (by simp) _ (List.mem_map_of_mem ha)
  have hlength : s.peers.length ≤ (s.peers.map addrBytes).sum := by
    refine le_trans (le_of_eq (List.length_map addrBytes).symm) (List.length_le_sum_of_one_le _ ?_)
    intro n hn
    obtain ⟨a, -, rfl⟩ := List.mem_map.mp hn
    rw [addrBytes]
    omega
  have hlisten : text.option.Encodable s.listenAddr := by
    refine Codec.encodable_option.mpr fun url hurl => encodable_text.mpr ?_
    have hown : listenBytes s.listenAddr = 4 + (utf8Bytes url).length := by
      rw [listenBytes, Option.mem_def.mp hurl]
      rfl
    omega
  have hlist : peerAddr.list.Encodable s.peers := by
    refine Codec.encodable_list.mpr ⟨by omega, fun a ha => ?_⟩
    have htext : text.Encodable a.url := by
      have ha' := hpeers a ha
      rw [addrBytes] at ha'
      exact encodable_text.mpr (by omega)
    exact Codec.encodable_pair.mpr ⟨htext, Codec.encodable_u64 _⟩
  have hstate : nodeState.Encodable s :=
    Codec.encodable_pair.mpr ⟨⟨_, rfl⟩, Codec.encodable_pair.mpr ⟨hlisten, hlist⟩⟩
  obtain ⟨b, hb⟩ := hstate
  exact ⟨0 :: b, encode_eq_ok.mpr (by
    simp only [p2pMsg, Codec.iso, Codec.emap, Codec.variants, P2pMsg.toPayload, payload, hb]
    rfl)⟩

/-- The message that tells of a state is accepted by whoever receives it. -/
def Accepted (s : NodeState) : Prop :=
  ∃ b, encode (.state s) = .ok b ∧ b.length ≤ maxMessageBytes ∧ decode b = .ok (.state s)

theorem accepted_iff {s : NodeState} : Accepted s ↔ stateBytes s ≤ maxMessageBytes := by
  constructor
  · rintro ⟨b, hb, hle, -⟩
    rwa [← length_encode_state hb]
  · intro h
    obtain ⟨b, hb⟩ := encodable_state h
    rw [← length_encode_state hb] at h
    exact ⟨b, hb, h, decode_eq_ok.mpr ⟨hb, h⟩⟩

/-- What a peer adds to the state message: its address, if it has told one and the node does not
listen there itself. -/
def passedOnBytes (config : P2pConfig) (peer : ConnectedPeer) : ℕ :=
  match peer.advertisedListen with
  | none => 0
  | some url =>
    if config.advertisedListenAddr.any (listenAddrsEqual url) then 0
    else 12 + (utf8Bytes url).length

/-- What a node's own part and a list of peers take. -/
def totalBytes (config : P2pConfig) (peers : List ConnectedPeer) : ℕ :=
  38 + listenBytes config.advertisedListenAddr + (peers.map (passedOnBytes config)).sum

/-- A task adds its connection only if the address of the peer still fits next to those of the
peers that are connected. -/
def HasRoom (node : PeerNode) : PeerInput → Prop
  | .connect _ _ _ _ _ _ => True
  | .run i _ _ => ∀ t ∈ node.tasks[i]?, t.phase = .adding →
    totalBytes node.shared.p2p.config node.shared.p2p.connectedPeers +
      passedOnBytes node.shared.p2p.config t.peer ≤ maxMessageBytes

instance (node : PeerNode) (input : PeerInput) : Decidable (HasRoom node input) :=
  match input with
  | .connect _ _ _ _ _ _ => instDecidableTrue
  | .run i _ _ => inferInstanceAs (Decidable (∀ t ∈ node.tasks[i]?, _ → _))

theorem stateBytes_currentState (p : P2p) :
    stateBytes p.currentState = totalBytes p.config p.connectedPeers := by
  have hpeers : ∀ peers : List ConnectedPeer, ((peers.filterMap p.peerAddr?).map addrBytes).sum =
      (peers.map (passedOnBytes p.config)).sum := by
    intro peers
    induction peers with
    | nil => rfl
    | cons peer peers ih =>
      rw [List.map_cons, List.sum_cons, ← ih]
      have hpeer : passedOnBytes p.config peer = ((p.peerAddr? peer).map addrBytes).getD 0 := by
        unfold passedOnBytes P2p.peerAddr?
        cases peer.advertisedListen with
        | none => rfl
        | some url =>
          cases p.config.advertisedListenAddr with
          | none => rfl
          | some ours =>
            simp only [Option.any_some]
            split_ifs <;> rfl
      rw [hpeer, List.filterMap_cons]
      cases p.peerAddr? peer with
      | none => exact (Nat.zero_add _).symm
      | some a => rfl
  rw [stateBytes, totalBytes]
  exact congrArg _ (hpeers p.connectedPeers)

variable {node : PeerNode}

private theorem step_adding {i : ℕ} {t : ReadTask} (ht : node.tasks[i]? = some t)
    (hphase : t.phase = .adding) (now : UInt64) (recv : Received) :
    (node.step (.run i now recv)).shared.p2p = node.shared.p2p.addConnectedPeer t.peer := by
  simp only [PeerNode.step, ht, hphase, readFromPeerTracked]

theorem totalBytes_append (config : P2pConfig) (peers : List ConnectedPeer) (peer : ConnectedPeer) :
    totalBytes config (peers ++ [peer]) = totalBytes config peers + passedOnBytes config peer := by
  rw [totalBytes, totalBytes, List.map_append, List.sum_append, List.map_singleton,
    List.sum_singleton]
  omega

theorem totalBytes_le_of_sublist (config : P2pConfig) {peers peers' : List ConnectedPeer}
    (h : peers'.Sublist peers) : totalBytes config peers' ≤ totalBytes config peers := by
  have hsum := (h.map (passedOnBytes config)).sum_le_sum fun _ _ => Nat.zero_le _
  rw [totalBytes, totalBytes]
  omega

/-- The state message stays within the limit exactly over the steps that have room. -/
theorem accepted_step_iff (h : Accepted node.shared.p2p.currentState) (input : PeerInput) :
    Accepted (node.step input).shared.p2p.currentState ↔ HasRoom node input := by
  rw [accepted_iff, stateBytes_currentState] at h ⊢
  constructor
  · intro hafter
    cases input with
    | connect url transport isInbound sent received now => trivial
    | run i now recv =>
      intro t ht hphase
      rwa [step_adding ht hphase, P2p.addConnectedPeer, totalBytes_append] at hafter
  · intro hroom
    refine step_induction (P := fun node' => totalBytes node'.shared.p2p.config
      node'.shared.p2p.connectedPeers ≤ maxMessageBytes) node input (fun _ => h) (fun _ => h) ?_
    rintro i now recv t phase s' rfl ht hmove
    have hadding := hroom t ht
    generalize t.phase = before at hmove hadding
    cases hmove with
    | add =>
      simp only [P2p.addConnectedPeer, totalBytes_append]
      exact hadding rfl
    | evict idx old _ _ =>
      exact (totalBytes_le_of_sublist _ (List.eraseIdx_sublist _ _)).trans h
    | leave => exact (totalBytes_le_of_sublist _ List.filter_sublist).trans h
    | _ => exact h

/-- In every state that a run reaches the state message is one that an honest peer accepts, exactly
if the node's own part of it fits and every connection is added where there is room for the address
of its peer. -/
theorem state_accepted_iff (config : P2pConfig) (inputs : List PeerInput) :
    (∀ before after, inputs = before ++ after →
      Accepted (Runs.final PeerNode.step (.new config) before).shared.p2p.currentState) ↔
    38 + listenBytes config.advertisedListenAddr ≤ maxMessageBytes ∧
      Runs.Along PeerNode.step HasRoom (.new config) inputs := by
  have hnew : Accepted (PeerNode.new config).shared.p2p.currentState ↔
      38 + listenBytes config.advertisedListenAddr ≤ maxMessageBytes := by
    rw [accepted_iff, stateBytes_currentState]
    rfl
  rw [← hnew]
  exact Runs.forall_final_iff (I := fun node : PeerNode => Accepted node.shared.p2p.currentState)
    (fun node input h => accepted_step_iff h input) (PeerNode.new config) inputs

def listeningNowhere : P2pConfig := ⟨.filled 1, 125, none⟩

/-- What a peer says of itself. -/
def advertising (id : UInt8) (url : String) : NodeState := ⟨.filled id, some url, []⟩

/-- The steps by which two tasks add their connections, one after the other. -/
def addBoth : List PeerInput :=
  [.run 0 0 .failed, .run 0 0 .failed, .run 0 0 .failed, .run 1 0 .failed, .run 1 0 .failed,
    .run 1 0 .failed]

/-- Two peers connect, advertise an address and are added. -/
def twoPeers (url : String) : List PeerInput :=
  [.connect "ws://192.0.2.1:50000" 10 true (.ok ()) (encode (.state (advertising 2 url))) 0,
    .connect "ws://192.0.2.2:50000" 11 true (.ok ()) (encode (.state (advertising 3 url))) 0] ++
    addBoth

def firstPeer (url : String) : ConnectedPeer :=
  peerOfState "ws://192.0.2.1:50000" 10 true 0 (advertising 2 url)

def secondPeer (url : String) : ConnectedPeer :=
  peerOfState "ws://192.0.2.2:50000" 11 true 0 (advertising 3 url)

theorem handshake_advertising {id : UInt8} {url : String} (hid : Bytes32.filled id ≠ .filled 1)
    (haccepted : Accepted (advertising id url)) (source : String) (transport : ℕ) :
    handshake source transport (P2p.new listeningNowhere).currentState true (.ok ())
      (encode (.state (advertising id url))) 0 =
        .ok (peerOfState source transport true 0 (advertising id url)) := by
  obtain ⟨b, hb, -, hdecode⟩ := haccepted
  exact handshake_eq_ok.mpr ⟨encodable_state (by decide), rfl, b, _, hb, hdecode,
    (if_neg hid).trans rfl, rfl⟩

/-- A peer that passes the handshake is served, as long as there are not too many. -/
theorem step_connect_of_ok (node : PeerNode) {source : String} {transport : ℕ} {isInbound : Bool}
    {sent : Except StroemnetP2pError Unit} {received : Except StroemnetP2pError Bytes}
    {now : UInt64} {peer : ConnectedPeer}
    (hfresh : (node.tasks.any fun t => t.peer.transport = transport) = false)
    (hroom : node.servedInbound < node.shared.p2p.config.maxInbound)
    (h : handshake source transport node.shared.p2p.currentState isInbound sent received now =
      .ok peer) :
    node.step (.connect source transport isInbound sent received now) =
      { node with tasks := node.tasks ++ [⟨peer, .starting⟩] } := by
  have hpeer : node.servedPeer source transport isInbound sent received now = some peer := by
    simp only [PeerNode.servedPeer, h]
    rw [if_neg fun hfull => absurd hroom (Nat.not_lt.mpr hfull.2)]
  simp only [PeerNode.step, hfresh, hpeer, Bool.false_eq_true, if_false]

private theorem final_addBoth {config : P2pConfig} {p q : ConnectedPeer}
    (hne : p.nodeId ≠ q.nodeId) :
    (Runs.final PeerNode.step ⟨(PeerNode.new config).shared, [⟨p, .starting⟩, ⟨q, .starting⟩]⟩
      addBoth).shared.p2p = { P2p.new config with connectedPeers := [p, q] } := by
  simp [addBoth, Runs.final, PeerNode.step, readFromPeerTracked, PeerNode.new, P2p.new,
    P2p.isBlacklisted, P2p.addConnectedPeer, resolve, List.findIdx?_cons, hne]

private theorem final_twoPeers {url : String} (hfirst : Accepted (advertising 2 url))
    (hsecond : Accepted (advertising 3 url)) :
    (Runs.final PeerNode.step (.new listeningNowhere) (twoPeers url)).shared.p2p =
      { P2p.new listeningNowhere with connectedPeers := [firstPeer url, secondPeer url] } := by
  have hone := step_connect_of_ok (.new listeningNowhere) rfl (by decide)
    (handshake_advertising (by decide) hfirst "ws://192.0.2.1:50000" 10)
  have hfresh : ([⟨firstPeer url, .starting⟩] : List ReadTask).any
      (fun t => t.peer.transport = 11) = false := by
    simp [firstPeer, peerOfState]
  have hroom : (⟨(PeerNode.new listeningNowhere).shared,
      [⟨firstPeer url, .starting⟩]⟩ : PeerNode).servedInbound < 125 := by
    simp [PeerNode.servedInbound, firstPeer, peerOfState]
  have htwo := step_connect_of_ok _ hfresh hroom
    (handshake_advertising (by decide) hsecond "ws://192.0.2.2:50000" 11)
  rw [twoPeers, Runs.final_append, Runs.final_cons, Runs.final_cons, Runs.final_nil, hone]
  have hne : (firstPeer url).nodeId ≠ (secondPeer url).nodeId :=
    show Bytes32.filled 2 ≠ Bytes32.filled 3 by decide
  rw [← final_addBoth hne]
  exact congrArg (fun node => (Runs.final PeerNode.step node addBoth).shared.p2p) htwo

private theorem length_utf8Bytes_replicate (n : ℕ) :
    (utf8Bytes (String.ofList (List.replicate n 'a'))).length = n := by
  have hchars : ((List.replicate n 'a').flatMap String.utf8EncodeChar).length = n := by
    induction n with
    | zero => rfl
    | succ n ih =>
      rw [List.replicate_succ, List.flatMap_cons, List.length_append, ih,
        String.length_utf8EncodeChar]
      exact Nat.add_comm 1 n
  rw [utf8Bytes, String.toByteArray_ofList, List.utf8Encode, List.data_toByteArray]
  exact hchars

def longUrl : String := String.ofList (List.replicate 150000 'a')

private theorem stateBytes_advertising (id : UInt8) (url : String) :
    stateBytes (advertising id url) = 42 + (utf8Bytes url).length := by
  have hlisten : listenBytes (some url) = 4 + (utf8Bytes url).length := rfl
  have hpeers : (([] : List PeerAddr).map addrBytes).sum = 0 := rfl
  rw [stateBytes, advertising, hlisten, hpeers]
  omega

private theorem totalBytes_twoPeers (url : String) :
    totalBytes listeningNowhere [firstPeer url, secondPeer url] =
      38 + 0 + (12 + (utf8Bytes url).length + (12 + (utf8Bytes url).length + 0)) := rfl

/-- Two peers that advertise an address of 150000 bytes can, and the node then cannot. -/
theorem twoPeers_refused {url : String} (hurl : (utf8Bytes url).length = 150000) :
    Accepted (advertising 2 url) ∧ Accepted (advertising 3 url) ∧
      ¬ Accepted (Runs.final PeerNode.step (.new listeningNowhere)
        (twoPeers url)).shared.p2p.currentState := by
  have hmax : maxMessageBytes = 262144 := rfl
  have haccepted : ∀ id, Accepted (advertising id url) := by
    intro id
    rw [accepted_iff, stateBytes_advertising]
    omega
  have hrefused : ¬ Accepted (Runs.final PeerNode.step (.new listeningNowhere)
      (twoPeers url)).shared.p2p.currentState := by
    rw [final_twoPeers (haccepted 2) (haccepted 3), accepted_iff, stateBytes_currentState]
    simp only [P2p.new, totalBytes_twoPeers]
    omega
  exact ⟨haccepted 2, haccepted 3, hrefused⟩

/-- Two peers whose own messages are accepted make the node send one that is not. -/
theorem long_addresses_refused :
    Accepted (advertising 2 longUrl) ∧ Accepted (advertising 3 longUrl) ∧
      ¬ Accepted (Runs.final PeerNode.step (.new listeningNowhere)
        (twoPeers longUrl)).shared.p2p.currentState := by
  apply twoPeers_refused
  exact length_utf8Bytes_replicate 150000

private theorem short_addresses_facts :
    (Runs.final PeerNode.step (.new listeningNowhere)
        (twoPeers "ws://a.example:3000")).shared.p2p.connectedPeers.length = 2 ∧
      38 + listenBytes listeningNowhere.advertisedListenAddr ≤ maxMessageBytes ∧
      Runs.Along PeerNode.step HasRoom (.new listeningNowhere)
        (twoPeers "ws://a.example:3000") := by
  decide +kernel

theorem short_addresses_accepted :
    (Runs.final PeerNode.step (.new listeningNowhere)
        (twoPeers "ws://a.example:3000")).shared.p2p.connectedPeers.length = 2 ∧
      Accepted (Runs.final PeerNode.step (.new listeningNowhere)
        (twoPeers "ws://a.example:3000")).shared.p2p.currentState := by
  obtain ⟨hlength, hroom⟩ := short_addresses_facts
  have haccepted := (state_accepted_iff listeningNowhere (twoPeers "ws://a.example:3000")).mpr hroom
  exact ⟨hlength, haccepted _ [] (List.append_nil _).symm⟩

end Stroemnet.Gossip
