import Stroemnet.GossipFlood
import Stroemnet.SeenDigests

/-! # Flooding reaches everyone

A message that a node has broadcast or relayed has reached all its peers or is on its way to them,
also the one that it is not sent back to. When nothing of it is on its way any more, it has reached
every node that is connected to the first one by nodes that pass it on. Nodes may forget what they
have seen, and handle it again. -/
namespace Stroemnet.Gossip

open Borsh

variable {ν : Type} [DecidableEq ν] {T : Topology ν}

/-- A node passes a message on when it is sent it for the first time. -/
def relays (T : Topology ν) (n : ν) : P2pMsg → Bool
  | .proposalRequest req =>
    match ChannelId.ofByte req.origin, ChannelId.ofByte req.destination with
    | some o, some d => T.knowsChannel n o && T.knowsChannel n d
    | _, _ => false
  | .reveal _ => true
  | .scriptAnnounce s => decide (¬ maxRedeemScriptBytes < s.redeemScript.length)
  | _ => false

/-- A node has a use of its own for a message. -/
def uses (T : Topology ν) (n : ν) : P2pMsg → Bool
  | .proposalRequest _ => T.lp n
  | .reveal _ => true
  | .scriptAnnounce _ => T.scriptChannel n
  | _ => false

theorem handleIncoming_eq (net : Network ν) (n : ν) (source : String) (msg : P2pMsg) :
    net.handleIncoming T n source msg =
      if relays T n msg then net.forwardAnd T n source msg (uses T n msg) else (net, []) := by
  cases msg with
  | proposalRequest req =>
    cases ho : ChannelId.ofByte req.origin with
    | none => simp [Network.handleIncoming, relays, ho]
    | some o =>
      cases hd : ChannelId.ofByte req.destination with
      | none => simp [Network.handleIncoming, relays, ho, hd]
      | some d => simp [Network.handleIncoming, relays, uses, ho, hd]
  | reveal r => rfl
  | scriptAnnounce s =>
    simp only [Network.handleIncoming, relays, uses, decide_eq_true_eq, ite_not]
  | state s => rfl
  | proposalResponse r => rfl
  | proposalError e => rfl

/-- What a node does with a message that is sent to it. -/
theorem forwardAnd_eq {msg : P2pMsg} {bytes : Bytes} (hencode : encode msg = .ok bytes)
    (net : Network ν) (n : ν) (source : String) (acts : Bool) :
    net.forwardAnd T n source msg acts =
      if T.sha256 bytes ∈ (net.seen n).set then (net, [.observed n (T.sha256 bytes)])
      else (⟨Function.update net.seen n ((net.seen n).insert (T.sha256 bytes)).2, net.inFlight ++
          (targets T n (some source)).map fun link => ⟨link.peer, link.name, bytes⟩⟩,
        .observed n (T.sha256 bytes) :: .relayed n msg ::
          ((targets T n (some source)).map (.sent n msg) ++
            if acts then [.acted n msg] else [])) := by
  unfold Network.forwardAnd Network.forward Network.observe
  by_cases hmem : T.sha256 bytes ∈ (net.seen n).set
  · simp only [hencode, SeenSet.insert_of_mem hmem, if_pos hmem, Function.update_eq_self,
      Bool.false_eq_true, false_and, if_false]
  · simp only [hencode, SeenSet.insert_of_notMem hmem, if_neg hmem, true_and]
    cases acts with
    | true => rfl
    | false => simp [Network.sendBytesToAll]

/-- A node has sent the message on to its peers. -/
def Handled (hs : List (Happening ν)) (n : ν) (msg : P2pMsg) : Prop :=
  (∃ again, .originated n msg again ∈ hs) ∨ .relayed n msg ∈ hs

def Clean (T : Topology ν) (bytes b : Bytes) : Prop := T.sha256 b = T.sha256 bytes → b = bytes

def Underway (net : Network ν) (bytes : Bytes) (n : ν) : Prop :=
  ∃ p ∈ net.inFlight, p.target = n ∧ p.payload = bytes

/-- Both ends of a connection know it by the names that they have for each other. -/
def Topology.Named (T : Topology ν) : Prop :=
  ∀ n, ∀ link ∈ T.links n, ∀ back ∈ T.links link.peer, back.url = link.name → back.peer = n

/-- A node that has handled the message has left none of its peers behind, but for those to which
it is just being delivered. -/
structure Spread (T : Topology ν) (msg : P2pMsg) (bytes : Bytes) (due : ν → Prop)
    (net : Network ν) (hs : List (Happening ν)) : Prop where
  seen : ∀ n, T.sha256 bytes ∈ (net.seen n).set → Handled hs n msg
  sent : ∀ n, Handled hs n msg → ∀ link ∈ T.links n, relays T link.peer msg →
    Handled hs link.peer msg ∨ Underway net bytes link.peer ∨ due link.peer
  /-- A packet comes from a node that has handled the message. -/
  source : ∀ p ∈ net.inFlight, p.payload = bytes → ∀ link ∈ T.links p.target,
    link.url = p.source → Handled hs link.peer msg
  clean : ∀ p ∈ net.inFlight, Clean T bytes p.payload
  acted : ∀ n, .relayed n msg ∈ hs → uses T n msg → .acted n msg ∈ hs

section Steps

variable {msg : P2pMsg} {bytes : Bytes} {due : ν → Prop} {net : Network ν}
  {hs more : List (Happening ν)} {n : ν}

omit [DecidableEq ν] in
theorem Handled.append_left (h : Handled hs n msg) (more : List (Happening ν)) :
    Handled (hs ++ more) n msg :=
  h.imp (fun ⟨again, h⟩ => ⟨again, List.mem_append_left _ h⟩) (List.mem_append_left _)

omit [DecidableEq ν] in
theorem handled_append :
    Handled (hs ++ more) n msg ↔ Handled hs n msg ∨ Handled more n msg := by
  simp only [Handled, List.mem_append, exists_or]
  exact or_or_or_comm

omit [DecidableEq ν] in
theorem Underway.append (h : Underway net bytes n) (seen : ν → SeenSet)
    (packets : List (Packet ν)) : Underway ⟨seen, net.inFlight ++ packets⟩ bytes n := by
  obtain ⟨p, hp, htarget⟩ := h
  exact ⟨p, List.mem_append_left _ hp, htarget⟩

omit [DecidableEq ν] in
theorem mem_insert_set {s : SeenSet} {d d' : Bytes32} (h : d ∈ (s.insert d').2.set) :
    d = d' ∨ d ∈ s.set := by
  by_cases hmem : d' ∈ s.set
  · rw [SeenSet.insert_of_mem hmem] at h
    exact .inr h
  · rw [SeenSet.insert_of_notMem hmem] at h
    simp only at h
    split_ifs at h
    · exact Finset.mem_insert.mp (Finset.mem_of_mem_erase h)
    · exact Finset.mem_insert.mp h

namespace Spread

omit [DecidableEq ν] in
theorem mono_due (h : Spread T msg bytes due net hs) {due' : ν → Prop}
    (hdue : ∀ n, due n → due' n) : Spread T msg bytes due' net hs :=
  ⟨h.seen, fun n hn link hlink hrelays =>
    (h.sent n hn link hlink hrelays).imp_right (Or.imp_right (hdue _)), h.source, h.clean, h.acted⟩

omit [DecidableEq ν] in
/-- Events that have nothing to do with the message. -/
theorem log (h : Spread T msg bytes due net hs) (hmore : ∀ n, ¬ Handled more n msg) :
    Spread T msg bytes due net (hs ++ more) := by
  refine ⟨fun n hn => (h.seen n hn).append_left more, fun n hn link hlink hrelays => ?_,
    fun p hp hbytes link hlink hurl => (h.source p hp hbytes link hlink hurl).append_left more,
    h.clean, fun n hn huses => ?_⟩
  · have hold := (handled_append.mp hn).resolve_right (hmore n)
    exact (h.sent n hold link hlink hrelays).imp_left (·.append_left more)
  · rcases List.mem_append.mp hn with hn | hn
    · exact List.mem_append_left _ (h.acted n hn huses)
    · exact absurd (.inr hn) (hmore n)

/-- A node observes and sends another payload. -/
theorem other (h : Spread T msg bytes due net hs) (n : ν) {b : Bytes}
    (hb : T.sha256 b ≠ T.sha256 bytes) {packets : List (Packet ν)}
    (hpackets : ∀ p ∈ packets, p.payload = b) (hmore : ∀ n, ¬ Handled more n msg) :
    Spread T msg bytes due
      ⟨Function.update net.seen n ((net.seen n).insert (T.sha256 b)).2, net.inFlight ++ packets⟩
      (hs ++ more) := by
  refine Spread.log ⟨fun n' hn' => ?_, fun n' hn' link hlink hrelays => ?_,
    fun p hp hbytes => ?_, fun p hp => ?_, h.acted⟩ hmore
  · apply h.seen n'
    by_cases hne : n' = n
    · subst hne
      simp only [Function.update_self] at hn'
      exact (mem_insert_set hn').resolve_left hb.symm
    · simpa only [Function.update_of_ne hne] using hn'
  · exact (h.sent n' hn' link hlink hrelays).imp_right (Or.imp_left fun hway => hway.append _ _)
  · rcases List.mem_append.mp hp with hp | hp
    · exact h.source p hp hbytes
    · rw [hpackets p hp] at hbytes
      exact absurd (congrArg T.sha256 hbytes) hb
  · rcases List.mem_append.mp hp with hp | hp
    · exact h.clean p hp
    · intro hdigest
      rw [hpackets p hp] at hdigest
      exact absurd hdigest hb

/-- A node handles the message: it is sent over all connections but the one to a peer that has
handled it. -/
theorem handle (h : Spread T msg bytes due net hs) (hnamed : T.Named) (exclude : Option String)
    (hexclude : ∀ link ∈ T.links n, some link.url = exclude → Handled hs link.peer msg)
    (hhandled : Handled more n msg) (honly : ∀ n', Handled more n' msg → n' = n)
    (hacted : .relayed n msg ∈ more → uses T n msg → .acted n msg ∈ more) :
    Spread T msg bytes (fun n' => due n' ∧ n' ≠ n)
      ⟨Function.update net.seen n ((net.seen n).insert (T.sha256 bytes)).2, net.inFlight ++
        (targets T n exclude).map fun link => ⟨link.peer, link.name, bytes⟩⟩ (hs ++ more) := by
  have hn : Handled (hs ++ more) n msg := handled_append.mpr (.inr hhandled)
  refine ⟨fun n' hn' => ?_, fun n' hn' link hlink hrelays => ?_,
    fun p hp hbytes link hlink hurl => ?_, fun p hp => ?_, fun n' hn' huses => ?_⟩
  · by_cases hne : n' = n
    · exact hne ▸ hn
    · simp only [Function.update_of_ne hne] at hn'
      exact (h.seen n' hn').append_left more
  · rcases handled_append.mp hn' with hold | hnew
    · rcases h.sent n' hold link hlink hrelays with hpeer | hway | hdue
      · exact .inl (hpeer.append_left more)
      · exact .inr (.inl (hway.append _ _))
      · by_cases hpeer : link.peer = n
        · exact .inl (hpeer ▸ hn)
        · exact .inr (.inr ⟨hdue, hpeer⟩)
    · obtain rfl := honly n' hnew
      by_cases hurl : some link.url = exclude
      · exact .inl ((hexclude link hlink hurl).append_left more)
      · have htarget : link ∈ targets T n' exclude :=
          List.mem_filter.mpr ⟨hlink, by simpa using hurl⟩
        exact .inr (.inl ⟨_, List.mem_append_right _ (List.mem_map.mpr ⟨link, htarget, rfl⟩), rfl,
          rfl⟩)
  · rcases List.mem_append.mp hp with hp | hp
    · exact (h.source p hp hbytes link hlink hurl).append_left more
    · obtain ⟨out, hout, rfl⟩ := List.mem_map.mp hp
      rw [hnamed n out (List.mem_of_mem_filter hout) link hlink hurl]
      exact hn
  · rcases List.mem_append.mp hp with hp | hp
    · exact h.clean p hp
    · obtain ⟨out, -, rfl⟩ := List.mem_map.mp hp
      exact fun _ => rfl
  · rcases List.mem_append.mp hn' with hold | hnew
    · exact List.mem_append_left _ (h.acted n' hold huses)
    · obtain rfl := honly n' (.inr hnew)
      exact List.mem_append_right _ (hacted hnew huses)

omit [DecidableEq ν] in
theorem erase (h : Spread T msg bytes (fun _ => False) net hs) {i : ℕ} {p : Packet ν}
    (hp : net.inFlight[i]? = some p) :
    Spread T msg bytes (fun n => p.payload = bytes ∧ n = p.target)
      { net with inFlight := net.inFlight.eraseIdx i } hs := by
  refine ⟨h.seen, fun n hn link hlink hrelays => ?_,
    fun q hq => h.source q (List.mem_of_mem_eraseIdx hq),
    fun q hq => h.clean q (List.mem_of_mem_eraseIdx hq), h.acted⟩
  rcases h.sent n hn link hlink hrelays with hpeer | ⟨q, hq, htarget, hbytes⟩ | hdue
  · exact .inl hpeer
  · obtain ⟨j, hj⟩ := List.mem_iff_getElem?.mp hq
    by_cases hij : j = i
    · subst hij
      obtain rfl : q = p := Option.some.inj (hj.symm.trans hp)
      exact .inr (.inr ⟨hbytes, htarget.symm⟩)
    · exact .inr (.inl ⟨q, List.mem_eraseIdx_iff_getElem?.mpr ⟨j, hij, hj⟩, htarget, hbytes⟩)
  · exact hdue.elim

omit [DecidableEq ν] in
/-- A node that has handled the message, or does not pass it on, is due nothing. -/
theorem settle (h : Spread T msg bytes due net hs)
    (hn : Handled hs n msg ∨ ¬ relays T n msg) :
    Spread T msg bytes (fun n' => due n' ∧ n' ≠ n) net hs := by
  refine ⟨h.seen, fun n' hn' link hlink hrelays => ?_, h.source, h.clean, h.acted⟩
  rcases h.sent n' hn' link hlink hrelays with hpeer | hway | hdue
  · exact .inl hpeer
  · exact .inr (.inl hway)
  · by_cases hpeer : link.peer = n
    · exact .inl (hpeer ▸ hn.resolve_right fun hnot => hnot (hpeer ▸ hrelays))
    · exact .inr (.inr ⟨hdue, hpeer⟩)

/-- A node is sent another message. -/
theorem forwardAnd_other (h : Spread T msg bytes due net hs) (n : ν) (source : String)
    {msg' : P2pMsg} {b : Bytes} (hencode : encode msg' = .ok b)
    (hb : T.sha256 b ≠ T.sha256 bytes) (hmsg : msg' ≠ msg) (acts : Bool) :
    Spread T msg bytes due (net.forwardAnd T n source msg' acts).1
      (hs ++ (net.forwardAnd T n source msg' acts).2) := by
  rw [forwardAnd_eq hencode]
  split_ifs with hmem
  · apply h.log
    simp [Handled]
  · apply h.other n hb
    · simp
    · simp [Handled, hmsg.symm]
  · apply h.other n hb
    · simp
    · simp [Handled, hmsg.symm]

/-- A node is sent the message by a peer that has handled it. -/
theorem forwardAnd_self (h : Spread T msg bytes due net hs) (hnamed : T.Named) {source : String}
    (hencode : encode msg = .ok bytes)
    (hsource : ∀ link ∈ T.links n, link.url = source → Handled hs link.peer msg) :
    Spread T msg bytes (fun n' => due n' ∧ n' ≠ n)
      (net.forwardAnd T n source msg (uses T n msg)).1
      (hs ++ (net.forwardAnd T n source msg (uses T n msg)).2) := by
  rw [forwardAnd_eq hencode]
  by_cases hmem : T.sha256 bytes ∈ (net.seen n).set
  · rw [if_pos hmem]
    apply Spread.log
    · exact h.settle (.inl (h.seen n hmem))
    · simp [Handled]
  · rw [if_neg hmem]
    apply h.handle hnamed
    · intro link hlink hurl
      exact hsource link hlink (Option.some.inj hurl)
    · exact .inr (by simp)
    · cases uses T n msg <;> simp [Handled]
    · intro _ huses
      simp [huses]

end Spread

/-- Nothing of the message gets lost, and what comes from outside has a digest of its own and comes
from none of the peers that the target sends to. -/
def Reliable (T : Topology ν) (bytes : Bytes) (net : Network ν) : NetInput ν → Prop
  | .broadcast _ m => ∀ b, encode m = .ok b → Clean T bytes b
  | .deliver _ => True
  | .drop i => ∀ p, net.inFlight[i]? = some p → p.payload ≠ bytes
  | .arrive p => Clean T bytes p.payload ∧
      (p.payload = bytes → ∀ link ∈ T.links p.target, link.url ≠ p.source)

variable (hdecode : decode bytes = .ok msg)
include hdecode

theorem encode_of_decode : encode msg = .ok bytes := (decode_eq_ok.mp hdecode).1

omit [DecidableEq ν] in
theorem ne_of_digest {msg' : P2pMsg} {b : Bytes} (hencode : encode msg' = .ok b)
    (hb : T.sha256 b ≠ T.sha256 bytes) : msg' ≠ msg := by
  rintro rfl
  rw [encode_of_decode hdecode] at hencode
  cases hencode
  exact hb rfl

theorem eq_of_encode {msg' : P2pMsg} (hencode : encode msg' = .ok bytes) : msg' = msg := by
  have hsame := decode_eq_ok.mpr ⟨hencode, (decode_eq_ok.mp hdecode).2⟩
  rw [hdecode] at hsame
  exact (Except.ok.inj hsame).symm

theorem Spread.broadcast (h : Spread T msg bytes (fun _ => False) net hs) (hnamed : T.Named) (n : ν)
    {msg' : P2pMsg} (hclean : ∀ b, encode msg' = .ok b → Clean T bytes b) :
    Spread T msg bytes (fun _ => False) (net.broadcast T n msg').1
      (hs ++ (net.broadcast T n msg').2) := by
  unfold Network.broadcast
  cases hencode : encode msg' with
  | error e => simpa using h
  | ok b =>
    by_cases hb : T.sha256 b = T.sha256 bytes
    · obtain rfl := hclean b hencode hb
      obtain rfl := eq_of_encode hdecode hencode
      refine (h.handle hnamed (n := n) none ?_ ?_ ?_ ?_).mono_due fun _ hdue => hdue.1
      · intro link _ hurl
        cases hurl
      · exact .inl (by simp)
      · simp [Handled]
      · simp
    · refine h.other n hb ?_ ?_
      · simp
      · simp [Handled, (ne_of_digest hdecode hencode hb).symm]

theorem Spread.deliver (h : Spread T msg bytes (fun _ => False) net hs) (hnamed : T.Named) (i : ℕ) :
    Spread T msg bytes (fun _ => False) (net.step T (.deliver i))
      (hs ++ net.out T (.deliver i)) := by
  unfold Network.step Network.out
  simp only [Network.act]
  cases hp : net.inFlight[i]? with
  | none => simpa using h
  | some p =>
    have hmem : p ∈ net.inFlight := List.mem_of_getElem? hp
    have herase := h.erase hp
    cases hmsg : decode p.payload with
    | error e =>
      have hne : p.payload ≠ bytes := by
        intro heq
        rw [heq, hdecode] at hmsg
        cases hmsg
      simp only [hmsg, List.append_nil]
      exact herase.mono_due fun _ hdue => hne hdue.1
    | ok msg' =>
      have hencode := encode_of_decode hmsg
      simp only [hmsg, handleIncoming_eq]
      by_cases hb : T.sha256 p.payload = T.sha256 bytes
      · have hbytes := h.clean p hmem hb
        obtain rfl : msg' = msg := eq_of_encode hdecode (hbytes ▸ hencode)
        by_cases hrelays : relays T p.target msg'
        · rw [if_pos hrelays]
          have hforward := herase.forwardAnd_self hnamed (n := p.target) (encode_of_decode hdecode)
            (h.source p hmem hbytes)
          exact hforward.mono_due fun _ hdue => hdue.2 hdue.1.2
        · rw [if_neg hrelays]
          simp only [List.append_nil]
          exact (herase.settle (.inr hrelays)).mono_due fun _ hdue => hdue.2 hdue.1.2
      · have hne : p.payload ≠ bytes := fun heq => hb (congrArg T.sha256 heq)
        have hidle : Spread T msg bytes (fun _ => False)
            { net with inFlight := net.inFlight.eraseIdx i } hs :=
          herase.mono_due fun _ hdue => hne hdue.1
        split_ifs
        · exact hidle.forwardAnd_other p.target p.source hencode hb
            (ne_of_digest hdecode hencode hb) _
        · simp only [List.append_nil]
          exact hidle

theorem Spread.step (h : Spread T msg bytes (fun _ => False) net hs) (hnamed : T.Named)
    {input : NetInput ν} (hinput : Reliable T bytes net input) :
    Spread T msg bytes (fun _ => False) (net.step T input) (hs ++ net.out T input) := by
  cases input with
  | broadcast n msg' => exact h.broadcast hdecode hnamed n hinput
  | deliver i => exact h.deliver hdecode hnamed i
  | drop i =>
    change Spread T msg bytes _ { net with inFlight := net.inFlight.eraseIdx i } (hs ++ [])
    rw [List.append_nil]
    cases hp : net.inFlight[i]? with
    | none =>
      rw [List.eraseIdx_of_length_le (List.getElem?_eq_none_iff.mp hp)]
      exact h
    | some p => exact (h.erase hp).mono_due fun _ hdue => hinput p hp hdue.1
  | arrive p =>
    change Spread T msg bytes _ { net with inFlight := net.inFlight ++ [p] } (hs ++ [])
    rw [List.append_nil]
    refine ⟨h.seen, fun n hn link hlink hrelays => ?_, fun q hq hbytes link hlink hurl => ?_,
      fun q hq => ?_, h.acted⟩
    · exact (h.sent n hn link hlink hrelays).imp_right (Or.imp_left fun hway => hway.append _ _)
    · rcases List.mem_append.mp hq with hq | hq
      · exact h.source q hq hbytes link hlink hurl
      · obtain rfl := List.mem_singleton.mp hq
        exact absurd hurl (hinput.2 hbytes link hlink)
    · rcases List.mem_append.mp hq with hq | hq
      · exact h.clean q hq
      · exact List.mem_singleton.mp hq ▸ hinput.1

end Steps

/-- A message that one node passes on gets to another one. -/
def Hop (T : Topology ν) (msg : P2pMsg) (n m : ν) : Prop :=
  (∃ link ∈ T.links n, link.peer = m) ∧ relays T m msg

/-- In every run in which nothing of a message is lost, with any order of deliveries, any other
traffic and sets of digests of any size: once nothing of the message is on its way, every node
that is connected to one that has handled it by nodes that pass it on has broadcast it itself, or
has been sent it and has acted on it if it has a use for it. -/
theorem flood_reaches_everyone (T : Topology ν) (hnamed : T.Named) (cap : ℕ) (msg : P2pMsg)
    (bytes : Bytes) (hdecode : decode bytes = .ok msg) (inputs : List (NetInput ν))
    (hinputs : Runs.Along (Network.step T) (Reliable T bytes) (Network.new cap) inputs)
    (hquiet : ∀ p ∈ (Runs.final (Network.step T) (Network.new cap) inputs).inFlight,
      p.payload ≠ bytes)
    (n m : ν) (hn : Handled ((Network.new cap).happenings T inputs) n msg)
    (hpath : Relation.ReflTransGen (Hop T msg) n m) :
    (∃ again, .originated m msg again ∈ (Network.new cap).happenings T inputs) ∨
      .relayed m msg ∈ (Network.new cap).happenings T inputs ∧
        (uses T m msg → .acted m msg ∈ (Network.new cap).happenings T inputs) := by
  have hstart : Spread T msg bytes (fun _ => False) (Network.new cap) [] := by
    refine ⟨fun n hn => ?_, fun n hn => ?_, fun p hp => ?_, fun p hp => ?_, fun n hn => ?_⟩
    · simp [Network.new, SeenSet.new] at hn
    · simp [Handled] at hn
    · cases hp
    · cases hp
    · cases hn
  have hspread : Spread T msg bytes (fun _ => False) _
      ([] ++ (Network.new cap).happenings T inputs) :=
    hinputs.invariant_outputs (fun net input hs h hinput => h.step hdecode hnamed hinput) hstart
  rw [List.nil_append] at hspread
  have hm : Handled ((Network.new cap).happenings T inputs) m msg := by
    induction hpath with
    | refl => exact hn
    | tail _ hop ih =>
      obtain ⟨⟨link, hlink, rfl⟩, hrelays⟩ := hop
      rcases hspread.sent _ ih link hlink hrelays with hpeer | ⟨p, hp, -, hbytes⟩ | hdue
      · exact hpeer
      · exact absurd hbytes (hquiet p hp)
      · exact hdue.elim
  exact hm.imp_right fun hrelayed => ⟨hrelayed, hspread.acted m hrelayed⟩

def requestBytes : Bytes := (encode repeatedRequest).toOption.getD []

def once : List (NetInput Bool) := [.broadcast false repeatedRequest, .deliver 0]

theorem flood_reaches_peer :
    .acted true repeatedRequest ∈ (Network.new 50000).happenings pairTopology once := by
  have hencode : encode repeatedRequest = .ok requestBytes := by decide +kernel
  have hclean : ∀ b, Clean pairTopology requestBytes b := by
    intro b hb
    simp only [pairTopology, hencode, Except.ok.injEq, if_true] at hb
    split_ifs at hb with hsame
    · exact hsame.symm
    · exact absurd hb (by decide +kernel)
  have hnamed : pairTopology.Named := by
    intro n link hlink back hback _
    rw [List.mem_singleton.mp hback, List.mem_singleton.mp hlink]
    exact Bool.not_not n
  have hreached := flood_reaches_everyone pairTopology hnamed 50000 repeatedRequest requestBytes
    (decode_eq_ok.mpr ⟨hencode, by decide +kernel⟩) once ⟨fun b _ => hclean b, trivial, trivial⟩
    (by decide +kernel) false true (.inl ⟨false, by decide +kernel⟩)
    (.single ⟨⟨_, List.mem_singleton_self _, rfl⟩, by decide +kernel⟩)
  rcases hreached with ⟨again, horiginated⟩ | ⟨-, hacted⟩
  · cases again <;> exact absurd horiginated (by decide +kernel)
  · exact hacted (by decide +kernel)

end Stroemnet.Gossip
