import Stroemnet.GossipWire
import Stroemnet.GuardedRuns
import Stroemnet.SwapNode
import Mathlib.Algebra.BigOperators.Group.Finset.Basic
import Mathlib.Algebra.Order.BigOperators.Group.Finset
import Mathlib.Algebra.Group.Action.Defs

/-! # Flooding the network

A node sends what it broadcasts over all its connections, and what it is sent and has not seen
before over all of them but one. Packets are delivered in any order, or never, and anything may
arrive from outside. A broadcast marks its message as seen but goes out whether or not it was seen
before. -/
namespace Stroemnet.Gossip

open Borsh

/-- A connection as a node holds it: the name it has there, the peer, and the name that the node
has at the peer. -/
structure Link (ν : Type) where
  url : String
  peer : ν
  name : String
deriving DecidableEq

/-- The nodes: their connections, and what decides whether they act on a message. -/
structure Topology (ν : Type) where
  links : ν → List (Link ν)
  knowsChannel : ν → ChannelId → Bool
  lp : ν → Bool
  scriptChannel : ν → Bool
  sha256 : Bytes → Bytes32

structure Packet (ν : Type) where
  target : ν
  source : String
  payload : Bytes

structure Network (ν : Type) where
  seen : ν → SeenSet
  inFlight : List (Packet ν)

inductive Happening (ν : Type)
  /-- A node looks a digest up among those it has seen, and adds it. -/
  | observed (n : ν) (digest : Bytes32)
  /-- A node broadcasts a message of its own, which it may have seen before. -/
  | originated (n : ν) (msg : P2pMsg) (again : Bool)
  | relayed (n : ν) (msg : P2pMsg)
  | acted (n : ν) (msg : P2pMsg)
  | sent (n : ν) (msg : P2pMsg) (link : Link ν)
deriving DecidableEq

inductive NetInput (ν : Type)
  | broadcast (n : ν) (msg : P2pMsg)
  | deliver (i : ℕ)
  | drop (i : ℕ)
  | arrive (p : Packet ν)

section Steps

variable {ν : Type} [DecidableEq ν] (T : Topology ν)

def Network.new (cap : ℕ) : Network ν := ⟨fun _ => .new cap, []⟩

/-- Marks a payload as seen at a node, and says whether it is new there. -/
def Network.observe (net : Network ν) (n : ν) (payload : Bytes) : Bool × Network ν :=
  let (new, seen) := (net.seen n).insert (T.sha256 payload)
  (new, { net with seen := Function.update net.seen n seen })

def targets (n : ν) (exclude : Option String) : List (Link ν) :=
  (T.links n).filter fun link => some link.url ≠ exclude

def Network.sendBytesToAll (net : Network ν) (n : ν) (bytes : Bytes) (exclude : Option String) :
    Network ν :=
  { net with inFlight := net.inFlight ++
      (targets T n exclude).map fun link => ⟨link.peer, link.name, bytes⟩ }

def Network.broadcast (net : Network ν) (n : ν) (msg : P2pMsg) :
    Network ν × List (Happening ν) :=
  match encode msg with
  | .error _ => (net, [])
  | .ok bytes =>
    let (new, net) := net.observe T n bytes
    (net.sendBytesToAll T n bytes none, .observed n (T.sha256 bytes) ::
      .originated n msg (!new) :: (targets T n none).map (.sent n msg))

def Network.forward (net : Network ν) (n : ν) (source : String) (msg : P2pMsg) :
    Bool × Network ν × List (Happening ν) :=
  match encode msg with
  | .error _ => (false, net, [])
  | .ok bytes =>
    match net.observe T n bytes with
    | (false, net) => (false, net, [.observed n (T.sha256 bytes)])
    | (true, net) => (true, net.sendBytesToAll T n bytes (some source),
        .observed n (T.sha256 bytes) :: .relayed n msg ::
          (targets T n (some source)).map (.sent n msg))

/-- Relays a message and, if it was new and the node has a use for it, acts on it. -/
def Network.forwardAnd (net : Network ν) (n : ν) (source : String) (msg : P2pMsg) (acts : Bool) :
    Network ν × List (Happening ν) :=
  let (new, net, log) := net.forward T n source msg
  (net, if new ∧ acts then log ++ [.acted n msg] else log)

def Network.handleIncoming (net : Network ν) (n : ν) (source : String) (msg : P2pMsg) :
    Network ν × List (Happening ν) :=
  match msg with
  | .proposalRequest req =>
    match ChannelId.ofByte req.origin, ChannelId.ofByte req.destination with
    | some o, some d =>
      if T.knowsChannel n o && T.knowsChannel n d then net.forwardAnd T n source msg (T.lp n)
      else (net, [])
    | _, _ => (net, [])
  | .reveal _ => net.forwardAnd T n source msg true
  | .scriptAnnounce s =>
    if maxRedeemScriptBytes < s.redeemScript.length then (net, [])
    else net.forwardAnd T n source msg (T.scriptChannel n)
  | _ => (net, [])

def Network.act (net : Network ν) : NetInput ν → Network ν × List (Happening ν)
  | .broadcast n msg => net.broadcast T n msg
  | .deliver i =>
    match net.inFlight[i]? with
    | none => (net, [])
    | some p =>
      let net := { net with inFlight := net.inFlight.eraseIdx i }
      match decode p.payload with
      | .ok msg => net.handleIncoming T p.target p.source msg
      | .error _ => (net, [])
  | .drop i => ({ net with inFlight := net.inFlight.eraseIdx i }, [])
  | .arrive p => ({ net with inFlight := net.inFlight ++ [p] }, [])

def Network.step (net : Network ν) (input : NetInput ν) : Network ν := (net.act T input).1

def Network.out (net : Network ν) (input : NetInput ν) : List (Happening ν) := (net.act T input).2

def Network.happenings (net : Network ν) (inputs : List (NetInput ν)) : List (Happening ν) :=
  Runs.outputs (Network.step T) (Network.out T) net inputs

end Steps

variable {ν : Type} [DecidableEq ν] {T : Topology ν} {net : Network ν}

inductive Emission (T : Topology ν) (seen : ν → SeenSet) :
    (ν → SeenSet) → List (Happening ν) → Prop
  | silent : Emission T seen seen []
  | broadcast (n : ν) (msg : P2pMsg) (bytes : Bytes) (h : encode msg = .ok bytes) :
    Emission T seen (Function.update seen n ((seen n).insert (T.sha256 bytes)).2)
      (.observed n (T.sha256 bytes) ::
        .originated n msg (!((seen n).insert (T.sha256 bytes)).1) ::
        (targets T n none).map (.sent n msg))
  | known (n : ν) (msg : P2pMsg) (bytes : Bytes) (h : encode msg = .ok bytes)
    (hold : ((seen n).insert (T.sha256 bytes)).1 = false) :
    Emission T seen (Function.update seen n ((seen n).insert (T.sha256 bytes)).2)
      [.observed n (T.sha256 bytes)]
  | relay (n : ν) (msg : P2pMsg) (bytes : Bytes) (h : encode msg = .ok bytes)
    (hnew : ((seen n).insert (T.sha256 bytes)).1 = true) (source : String)
    (acts : List (Happening ν)) (hacts : acts = [] ∨ acts = [.acted n msg]) :
    Emission T seen (Function.update seen n ((seen n).insert (T.sha256 bytes)).2)
      (.observed n (T.sha256 bytes) :: .relayed n msg ::
        ((targets T n (some source)).map (.sent n msg) ++ acts))

theorem emission_forwardAnd (net : Network ν) (n : ν) (source : String) (msg : P2pMsg)
    (acts : Bool) :
    Emission T net.seen (net.forwardAnd T n source msg acts).1.seen
      (net.forwardAnd T n source msg acts).2 := by
  unfold Network.forwardAnd Network.forward Network.observe
  cases hencode : encode msg with
  | error e => simpa using Emission.silent
  | ok bytes =>
    simp only
    rcases hinsert : (net.seen n).insert (T.sha256 bytes) with ⟨new, seen⟩
    cases new with
    | false =>
      have hknown := Emission.known (T := T) n msg bytes hencode (congrArg Prod.fst hinsert)
      rw [hinsert] at hknown
      simpa using hknown
    | true =>
      have hrelay := Emission.relay (T := T) n msg bytes hencode (congrArg Prod.fst hinsert) source
      rw [hinsert] at hrelay
      cases acts with
      | false => simpa [Network.sendBytesToAll] using hrelay [] (.inl rfl)
      | true => simpa [Network.sendBytesToAll] using hrelay [.acted n msg] (.inr rfl)

private theorem emission_handleIncoming (net : Network ν) (n : ν) (source : String) (msg : P2pMsg) :
    Emission T net.seen (net.handleIncoming T n source msg).1.seen
      (net.handleIncoming T n source msg).2 := by
  cases msg with
  | proposalRequest req =>
    simp only [Network.handleIncoming]
    cases ChannelId.ofByte req.origin with
    | none => exact .silent
    | some o =>
      cases ChannelId.ofByte req.destination with
      | none => exact .silent
      | some d =>
        simp only
        split_ifs
        · exact emission_forwardAnd _ _ _ _ _
        · exact .silent
  | reveal r => exact emission_forwardAnd _ _ _ _ _
  | scriptAnnounce s =>
    simp only [Network.handleIncoming]
    split_ifs
    · exact .silent
    · exact emission_forwardAnd _ _ _ _ _
  | state s => exact .silent
  | proposalResponse r => exact .silent
  | proposalError e => exact .silent

theorem emission_act (net : Network ν) (input : NetInput ν) :
    Emission T net.seen (net.step T input).seen (net.out T input) := by
  unfold Network.step Network.out
  cases input with
  | broadcast n msg =>
    simp only [Network.act, Network.broadcast, Network.observe]
    cases hencode : encode msg with
    | error e => exact .silent
    | ok bytes => exact .broadcast n msg bytes hencode
  | deliver i =>
    simp only [Network.act]
    cases net.inFlight[i]? with
    | none => exact .silent
    | some p =>
      simp only
      cases decode p.payload with
      | error e => exact .silent
      | ok msg =>
        exact emission_handleIncoming (T := T) { net with inFlight := net.inFlight.eraseIdx i }
          p.target p.source msg
  | drop i => exact .silent
  | arrive p => exact .silent

/-- No more digests than a set of them has room for: then nothing is forgotten. -/
theorem insert_of_subset {s : SeenSet} {S : Finset Bytes32} {d : Bytes32} (hcard : S.card ≤ s.cap)
    (hsub : s.set ⊆ S) (hd : d ∈ S) :
    (s.insert d).1 = decide (d ∉ s.set) ∧ (s.insert d).2.set = Insert.insert d s.set ∧
      (s.insert d).2.cap = s.cap := by
  unfold SeenSet.insert
  split_ifs with hmem
  · exact ⟨by simp [hmem], (Finset.insert_eq_of_mem hmem).symm, rfl⟩
  · have hle : (Insert.insert d s.set).card ≤ s.cap :=
      (Finset.card_le_card (Finset.insert_subset hd hsub)).trans hcard
    simp only
    cases horder : s.order ++ [d] with
    | nil => exact ⟨by simp [hmem], rfl, rfl⟩
    | cons oldest rest =>
      simp only
      rw [if_neg (Nat.not_lt.mpr hle)]
      exact ⟨by simp [hmem], rfl, rfl⟩

def marked (T : Topology ν) (seen : ν → SeenSet) (n : ν) (msg : P2pMsg) : Bool :=
  match encode msg with
  | .ok bytes => T.sha256 bytes ∈ (seen n).set
  | .error _ => false

/-- The digests that a node has seen stay within its share of a run. -/
def Bounded (cap : ℕ) (S : ν → Finset Bytes32) (seen : ν → SeenSet) : Prop :=
  ∀ n, (seen n).cap = cap ∧ (seen n).set ⊆ S n

/-- A digest that a node looks up belongs to its share. -/
def Within (S : ν → Finset Bytes32) : Happening ν → Prop
  | .observed n d => d ∈ S n
  | _ => True

section Marks

variable {cap : ℕ} {S : ν → Finset Bytes32} {seen : ν → SeenSet} {n : ν} {msg : P2pMsg}
  {bytes : Bytes} {d : Bytes32}

theorem bounded_update (hcard : ∀ n, (S n).card ≤ cap) (h : Bounded cap S seen) (hd : d ∈ S n) :
    Bounded cap S (Function.update seen n ((seen n).insert d).2) := by
  obtain ⟨hcap, hsub⟩ := h n
  obtain ⟨-, hset, hcap'⟩ := insert_of_subset (hcap ▸ hcard n) hsub hd
  intro n'
  by_cases heq : n' = n
  · subst heq
    rw [Function.update_self, hcap', hset]
    exact ⟨hcap, Finset.insert_subset hd hsub⟩
  · rw [Function.update_of_ne heq]
    exact h n'

theorem marked_update (hcard : ∀ n, (S n).card ≤ cap) (h : Bounded cap S seen) (hd : d ∈ S n)
    (n' : ν) (hmarked : marked T seen n' msg = true) :
    marked T (Function.update seen n ((seen n).insert d).2) n' msg = true := by
  obtain ⟨hcap, hsub⟩ := h n
  obtain ⟨-, hset, -⟩ := insert_of_subset (hcap ▸ hcard n) hsub hd
  unfold marked at hmarked ⊢
  cases hencode : encode msg with
  | error e => simp [hencode] at hmarked
  | ok b =>
    simp only [hencode, decide_eq_true_eq] at hmarked ⊢
    by_cases heq : n' = n
    · subst heq
      rw [Function.update_self, hset]
      exact Finset.mem_insert_of_mem hmarked
    · rwa [Function.update_of_ne heq]

theorem marked_update_self (hcard : ∀ n, (S n).card ≤ cap) (h : Bounded cap S seen)
    (hencode : encode msg = .ok bytes) (hd : T.sha256 bytes ∈ S n) :
    marked T (Function.update seen n ((seen n).insert (T.sha256 bytes)).2) n msg = true := by
  obtain ⟨hcap, hsub⟩ := h n
  obtain ⟨-, hset, -⟩ := insert_of_subset (hcap ▸ hcard n) hsub hd
  simp [marked, hencode, hset]

omit [DecidableEq ν] in
theorem insert_eq_not_marked (hcard : ∀ n, (S n).card ≤ cap) (h : Bounded cap S seen)
    (hencode : encode msg = .ok bytes) (hd : T.sha256 bytes ∈ S n) :
    ((seen n).insert (T.sha256 bytes)).1 = !marked T seen n msg := by
  obtain ⟨hcap, hsub⟩ := h n
  obtain ⟨hnew, -, -⟩ := insert_of_subset (hcap ▸ hcard n) hsub hd
  simp [marked, hencode, hnew]

end Marks

def cost (msg : P2pMsg) : Happening ν → ℕ
  | .sent _ m _ => if m = msg then 1 else 0
  | _ => 0

/-- The connections of a node that broadcasts a message it has seen before. -/
def repeated (T : Topology ν) (msg : P2pMsg) : Happening ν → ℕ
  | .originated n m again => if m = msg ∧ again = true then (T.links n).length else 0
  | _ => 0

/-- A message can be relayed by the nodes that have not seen it, over all their connections. -/
def credit [Fintype ν] (T : Topology ν) (msg : P2pMsg) (seen : ν → SeenSet) : ℕ :=
  ∑ n, if marked T seen n msg then 0 else (T.links n).length

section Costs

variable {cap : ℕ} {S : ν → Finset Bytes32} {seen seen' : ν → SeenSet} {hs : List (Happening ν)}

theorem Emission.bounded (he : Emission T seen seen' hs) (hcard : ∀ n, (S n).card ≤ cap)
    (h : Bounded cap S seen) (hwithin : ∀ x ∈ hs, Within S x) : Bounded cap S seen' := by
  cases he with
  | silent => exact h
  | broadcast n msg bytes _ => exact bounded_update hcard h (hwithin _ List.mem_cons_self)
  | known n msg bytes _ _ => exact bounded_update hcard h (hwithin _ List.mem_cons_self)
  | relay n msg bytes _ _ _ _ _ => exact bounded_update hcard h (hwithin _ List.mem_cons_self)

theorem Emission.marked_mono (he : Emission T seen seen' hs) (hcard : ∀ n, (S n).card ≤ cap)
    (h : Bounded cap S seen) (hwithin : ∀ x ∈ hs, Within S x) (n : ν) (msg : P2pMsg)
    (hmarked : marked T seen n msg = true) : marked T seen' n msg = true := by
  cases he with
  | silent => exact hmarked
  | broadcast _ _ _ _ => exact marked_update hcard h (hwithin _ List.mem_cons_self) n hmarked
  | known _ _ _ _ _ => exact marked_update hcard h (hwithin _ List.mem_cons_self) n hmarked
  | relay _ _ _ _ _ _ _ _ => exact marked_update hcard h (hwithin _ List.mem_cons_self) n hmarked

/-- A message that a node acts on or relays was new to it, and is not any more. -/
theorem Emission.count_le (he : Emission T seen seen' hs) (hcard : ∀ n, (S n).card ≤ cap)
    (h : Bounded cap S seen) (hwithin : ∀ x ∈ hs, Within S x) (n : ν) (msg : P2pMsg)
    {x : Happening ν} (hx : x = .acted n msg ∨ x = .relayed n msg) :
    hs.count x + (if marked T seen' n msg then 0 else 1) ≤
      if marked T seen n msg then 0 else 1 := by
  have hmono := he.marked_mono hcard h hwithin n msg
  have hsent : ∀ (m : ν) (msg' : P2pMsg) (links : List (Link ν)),
      (links.map (Happening.sent m msg')).count x = 0 := by
    intro m msg' links
    rw [List.count_eq_zero, List.mem_map]
    rintro ⟨link, -, rfl⟩
    rcases hx with hx | hx <;> cases hx
  have hbefore : hs.count x = 0 → hs.count x + (if marked T seen' n msg then 0 else 1) ≤
      if marked T seen n msg then 0 else 1 := by
    intro hzero
    rw [hzero, Nat.zero_add]
    cases hm : marked T seen n msg with
    | true => simp [hmono hm]
    | false =>
      rw [if_neg Bool.false_ne_true]
      split_ifs <;> decide
  cases he with
  | silent => exact hbefore rfl
  | broadcast m msg' bytes _ =>
    apply hbefore
    rcases hx with rfl | rfl <;> simp [hsent]
  | known m msg' bytes _ _ =>
    apply hbefore
    rcases hx with rfl | rfl <;> simp
  | relay m msg' bytes hencode hnew source acts hacts =>
    by_cases hsame : m = n ∧ msg' = msg
    · obtain ⟨rfl, rfl⟩ := hsame
      have hd : T.sha256 bytes ∈ S m := hwithin _ List.mem_cons_self
      have hmarked : marked T seen m msg' = false := by
        rw [insert_eq_not_marked hcard h hencode hd] at hnew
        simpa using hnew
      rw [marked_update_self hcard h hencode hd, hmarked]
      rcases hacts with rfl | rfl <;> rcases hx with rfl | rfl <;>
        simp [hsent]
    · apply hbefore
      rw [not_and] at hsame
      rcases hacts with rfl | rfl <;> rcases hx with rfl | rfl <;>
        simp_all

omit [DecidableEq ν] in
theorem sum_cost_sent (msg msg' : P2pMsg) (n : ν) (links : List (Link ν)) :
    ((links.map (Happening.sent n msg')).map (cost msg)).sum =
      if msg' = msg then links.length else 0 := by
  induction links with
  | nil => simp
  | cons link links ih =>
    rw [List.map_cons, List.map_cons, List.sum_cons, ih, cost, List.length_cons]
    split_ifs <;> omega

omit [DecidableEq ν] in
private theorem sum_repeated_sent (msg msg' : P2pMsg) (n : ν) (links : List (Link ν)) :
    ((links.map (Happening.sent n msg')).map (repeated T msg)).sum = 0 := by
  induction links with
  | nil => rfl
  | cons link links ih =>
    rw [List.map_cons, List.map_cons, List.sum_cons, ih]
    rfl

omit [DecidableEq ν] in
theorem length_targets_le (n : ν) (exclude : Option String) :
    (targets T n exclude).length ≤ (T.links n).length := List.length_filter_le _ _

omit [DecidableEq ν] in
private theorem credit_le [Fintype ν] {msg : P2pMsg}
    (hmono : ∀ n, marked T seen n msg = true → marked T seen' n msg = true) :
    credit T msg seen' ≤ credit T msg seen := by
  refine Finset.sum_le_sum fun n _ => ?_
  cases hm : marked T seen n msg with
  | true => simp [hmono n hm]
  | false =>
    rw [if_neg Bool.false_ne_true]
    split_ifs <;> omega

/-- A node that comes to see a message gives up its share of the credit. -/
theorem credit_add_le [Fintype ν] {msg : P2pMsg} {n : ν}
    (hmono : ∀ n, marked T seen n msg = true → marked T seen' n msg = true)
    (hold : marked T seen n msg = false) (hnew : marked T seen' n msg = true) :
    (T.links n).length + credit T msg seen' ≤ credit T msg seen := by
  have hrest : ∑ m ∈ Finset.univ.erase n, (if marked T seen' m msg then 0 else (T.links m).length) ≤
      ∑ m ∈ Finset.univ.erase n, if marked T seen m msg then 0 else (T.links m).length := by
    refine Finset.sum_le_sum fun m _ => ?_
    cases hm : marked T seen m msg with
    | true => simp [hmono m hm]
    | false =>
      rw [if_neg Bool.false_ne_true]
      split_ifs <;> omega
  rw [credit, credit, ← Finset.add_sum_erase _ _ (Finset.mem_univ n),
    ← Finset.add_sum_erase _ _ (Finset.mem_univ n), hold, hnew]
  simp only [if_true, Bool.false_eq_true, if_false]
  omega

/-- What a step sends is paid for by the node that comes to see the message, or is sent again. -/
theorem Emission.cost_le [Fintype ν] (he : Emission T seen seen' hs)
    (hcard : ∀ n, (S n).card ≤ cap) (h : Bounded cap S seen) (hwithin : ∀ x ∈ hs, Within S x)
    (msg : P2pMsg) :
    (hs.map (cost msg)).sum + credit T msg seen' ≤
      credit T msg seen + (hs.map (repeated T msg)).sum := by
  have hmono := fun n => he.marked_mono hcard h hwithin n msg
  have hcredit := credit_le hmono
  cases he with
  | silent => exact le_of_eq (Nat.add_comm _ _)
  | known n msg' bytes _ _ =>
    simp only [List.map_cons, List.map_nil, List.sum_cons, List.sum_nil, cost, repeated]
    omega
  | broadcast n msg' bytes hencode =>
    have hd : T.sha256 bytes ∈ S n := hwithin _ List.mem_cons_self
    have hlinks := length_targets_le (T := T) n none
    simp only [List.map_cons, List.sum_cons, sum_cost_sent, sum_repeated_sent, cost, repeated,
      insert_eq_not_marked hcard h hencode hd, Bool.not_not]
    by_cases hsame : msg' = msg
    · subst hsame
      cases hm : marked T seen n msg' with
      | true =>
        simp only [if_true, and_self]
        omega
      | false =>
        have hpaid := credit_add_le hmono hm (marked_update_self hcard h hencode hd)
        simp only [if_true, Bool.false_eq_true, and_false, if_false]
        omega
    · simp only [hsame, false_and, if_false]
      omega
  | relay n msg' bytes hencode hnew source acts hacts =>
    have hd : T.sha256 bytes ∈ S n := hwithin _ List.mem_cons_self
    have hlinks := length_targets_le (T := T) n (some source)
    have hactsCost : (acts.map (cost msg)).sum = 0 := by
      rcases hacts with rfl | rfl <;> rfl
    simp only [List.map_cons, List.map_append, List.sum_append, List.sum_cons, sum_cost_sent, cost,
      hactsCost]
    by_cases hsame : msg' = msg
    · subst hsame
      have hm : marked T seen n msg' = false := by
        rw [insert_eq_not_marked hcard h hencode hd] at hnew
        simpa using hnew
      have hpaid := credit_add_le hmono hm (marked_update_self hcard h hencode hd)
      simp only [if_true]
      omega
    · simp only [hsame, if_false]
      omega

end Costs

/-- The number of connections, counted at both ends. -/
def Topology.directedLinks [Fintype ν] (T : Topology ν) : ℕ := ∑ n, (T.links n).length

/-- The number of times that a message is sent over a connection. -/
def transmissions (msg : P2pMsg) (hs : List (Happening ν)) : ℕ := (hs.map (cost msg)).sum

/-- The same for the broadcasts by nodes that had seen the message before. -/
def retransmissions (T : Topology ν) (msg : P2pMsg) (hs : List (Happening ν)) : ℕ :=
  (hs.map (repeated T msg)).sum

/-- The digests that a node looks up. -/
def observedAt (n : ν) (hs : List (Happening ν)) : Finset Bytes32 :=
  (hs.filterMap fun
    | .observed m d => if m = n then some d else none
    | _ => none).toFinset

/-- What becomes of one message in a run. -/
structure FloodControlled [Fintype ν] (T : Topology ν) (net : Network ν)
    (inputs : List (NetInput ν)) (msg : P2pMsg) (extra : ℕ) : Prop where
  acts : ∀ n, (net.happenings T inputs).count (.acted n msg) ≤ 1
  relays : ∀ n, (net.happenings T inputs).count (.relayed n msg) ≤ 1
  /-- A node that has broadcast the message does not act on it afterwards. -/
  own : ∀ n again before after, inputs = before ++ after →
    .originated n msg again ∈ net.happenings T before →
    .acted n msg ∉ (Runs.final (Network.step T) net before).happenings T after
  transmitted : transmissions msg (net.happenings T inputs) ≤ T.directedLinks + extra

section Runs

variable {cap : ℕ} {S : ν → Finset Bytes32} {inputs : List (NetInput ν)}

/-- The steps of a run whose nodes keep within their shares. -/
def Kept (T : Topology ν) (cap : ℕ) (S : ν → Finset Bytes32) (net : Network ν)
    (input : NetInput ν) : Prop :=
  (∀ x ∈ net.out T input, Within S x) ∧ Bounded cap S net.seen

theorem bounded_step (hcard : ∀ n, (S n).card ≤ cap) (net : Network ν) (input : NetInput ν)
    (h : Bounded cap S net.seen) (hwithin : ∀ x ∈ net.out T input, Within S x) :
    Bounded cap S (net.step T input).seen :=
  (emission_act net input).bounded hcard h hwithin

private theorem along_kept (hcard : ∀ n, (S n).card ≤ cap) (h : Bounded cap S net.seen)
    (hwithin : ∀ x ∈ net.happenings T inputs, Within S x) :
    Runs.Along (Network.step T) (Kept T cap S) net inputs :=
  (Runs.along_outputs hwithin).of_invariant (I := fun net => Bounded cap S net.seen)
    (fun net input h hw => ⟨⟨hw, h⟩, bounded_step hcard net input h hw⟩) h

/-- Over a run a node acts on a message once, and relays it once; neither if it has seen it. -/
theorem count_happenings_le (hcard : ∀ n, (S n).card ≤ cap)
    (h : Runs.Along (Network.step T) (Kept T cap S) net inputs) (n : ν) (msg : P2pMsg)
    {x : Happening ν} (hx : x = .acted n msg ∨ x = .relayed n msg) :
    (net.happenings T inputs).count x ≤ if marked T net.seen n msg then 0 else 1 := by
  have hstep : ∀ net input, Kept T cap S net input →
      (net.out T input).countP (· == x) +
        (if marked T (net.step T input).seen n msg then 0 else 1) ≤
      (if marked T net.seen n msg then 0 else 1) + 0 := fun net input hkept =>
    (emission_act net input).count_le hcard hkept.2 hkept.1 n msg hx
  have hle := h.countP_outputs_le (fun net => if marked T net.seen n msg then 0 else 1)
    (fun _ => 0) hstep
  rwa [List.map_const', List.sum_replicate, smul_eq_mul, Nat.mul_zero, Nat.add_zero] at hle

private theorem transmissions_le [Fintype ν] (hcard : ∀ n, (S n).card ≤ cap)
    (h : Runs.Along (Network.step T) (Kept T cap S) net inputs) (msg : P2pMsg) :
    transmissions msg (net.happenings T inputs) ≤
      credit T msg net.seen + retransmissions T msg (net.happenings T inputs) := by
  have hstep : ∀ net input, Kept T cap S net input →
      ((net.out T input).map (cost msg)).sum + credit T msg (net.step T input).seen ≤
        credit T msg net.seen + ((net.out T input).map (repeated T msg)).sum :=
    fun net input hkept => (emission_act net input).cost_le hcard hkept.2 hkept.1 msg
  have hsum := @Runs.Along.sum_outputs_le (Network ν) (NetInput ν) (Happening ν) (Network.step T)
    (Network.out T) (Kept T cap S) (cost msg) (repeated T msg) (fun net => credit T msg net.seen)
    hstep
  exact hsum h

/-- After a broadcast the node has seen the message. -/
theorem marked_of_originated (hcard : ∀ n, (S n).card ≤ cap)
    (h : Runs.Along (Network.step T) (Kept T cap S) net inputs) {n : ν} {msg : P2pMsg}
    {again : Bool} (hmem : .originated n msg again ∈ net.happenings T inputs) :
    marked T (Runs.final (Network.step T) net inputs).seen n msg = true := by
  induction inputs generalizing net with
  | nil => cases hmem
  | cons input inputs ih =>
    rw [Network.happenings, Runs.outputs, List.mem_append] at hmem
    rcases hmem with hmem | hmem
    · have hmarked : marked T (net.step T input).seen n msg = true := by
        have hemission := emission_act (T := T) net input
        have hkept := h.1
        unfold Kept at hkept
        generalize (net.step T input).seen = seen' at hemission ⊢
        generalize net.out T input = hs at hemission hmem hkept
        cases hemission with
        | silent => cases hmem
        | broadcast m msg' bytes hencode =>
          have hd : T.sha256 bytes ∈ S m := hkept.1 _ List.mem_cons_self
          simp only [List.mem_cons, List.mem_map, reduceCtorEq, false_or, and_false, exists_false,
            or_false, Happening.originated.injEq] at hmem
          obtain ⟨rfl, rfl, -⟩ := hmem
          exact marked_update_self hcard hkept.2 hencode hd
        | known m msg' bytes _ _ => simp at hmem
        | relay m msg' bytes _ _ _ acts hacts => rcases hacts with rfl | rfl <;> simp at hmem
      exact h.2.invariant (I := fun net => marked T net.seen n msg = true)
        (fun net input hm hkept => (emission_act net input).marked_mono hcard hkept.2 hkept.1 n msg
          hm) hmarked
    · exact ih h.2 hmem

end Runs

/-- Every message has one encoding, and is read only from it; and in every run over any topology,
with any order of deliveries, losses and arrivals from outside, in which no node looks up more
digests than its set has room for: a node acts on a message at most once, relays it at most once
and never acts on what it has broadcast itself, and a message is sent over no more connections than
there are, apart from the broadcasts of it by nodes that had seen it before. -/
theorem gossip_flood_controlled [Fintype ν] (T : Topology ν) (cap : ℕ)
    (inputs : List (NetInput ν))
    (hcap : ∀ n, (observedAt n ((Network.new cap).happenings T inputs)).card ≤ cap) :
    (∀ msg bytes, encode msg = .ok bytes → bytes.length ≤ maxMessageBytes →
      decode bytes = .ok msg) ∧
    (∀ bytes msg, decode bytes = .ok msg → encode msg = .ok bytes) ∧
    ∀ msg, FloodControlled T (Network.new cap) inputs msg
      (retransmissions T msg ((Network.new cap).happenings T inputs)) := by
  refine ⟨fun msg bytes h hsize => decode_eq_ok.mpr ⟨h, hsize⟩,
    fun bytes msg h => (decode_eq_ok.mp h).1, fun msg => ?_⟩
  have hwithin : ∀ x ∈ (Network.new cap).happenings T inputs,
      Within (fun n => observedAt n ((Network.new cap).happenings T inputs)) x := by
    intro x hx
    cases x with
    | observed n d =>
      refine List.mem_toFinset.mpr (List.mem_filterMap.mpr ⟨_, hx, ?_⟩)
      simp
    | _ => trivial
  have hbounded : Bounded cap (fun n => observedAt n ((Network.new cap).happenings T inputs))
      (Network.new cap).seen := fun n => ⟨rfl, Finset.empty_subset _⟩
  have hkept := along_kept hcap hbounded hwithin
  have hunmarked : ∀ n, marked T (Network.new cap).seen n msg = false := by
    intro n
    rw [marked]
    cases encode msg <;> simp [Network.new, SeenSet.new]
  refine ⟨fun n => ?_, fun n => ?_, fun n again before after heq hmem => ?_, ?_⟩
  · have hle := count_happenings_le hcap hkept n msg (.inl rfl)
    rwa [hunmarked n] at hle
  · have hle := count_happenings_le hcap hkept n msg (.inr rfl)
    rwa [hunmarked n] at hle
  · subst heq
    rw [Runs.along_append] at hkept
    have hmarked := marked_of_originated hcap hkept.1 hmem
    have hle := count_happenings_le hcap hkept.2 n msg (.inl rfl)
    rw [hmarked, if_pos rfl, Nat.le_zero, List.count_eq_zero] at hle
    exact hle
  · have hle := transmissions_le hcap hkept msg
    have hcredit : credit T msg (Network.new cap).seen = T.directedLinks :=
      Finset.sum_congr rfl fun n _ => by rw [hunmarked n]; rfl
    rwa [hcredit] at hle

def repeatedRequest : P2pMsg :=
  .proposalRequest
    { swapId := .filled 7, origin := 1, destination := 2, amount := "2000",
      extraData := [] }

def repeatedDigest : Bytes32 :=
  ⟨[53, 252, 124, 175, 31, 238, 146, 91, 57, 234, 97, 171, 213, 83, 174, 35, 2, 68, 45, 152, 97,
    226, 70, 79, 97, 41, 53, 100, 255, 196, 216, 79], rfl⟩

/-- Two nodes with a connection between them. -/
def pairTopology : Topology Bool where
  links n := [⟨"ws://peer", !n, "ws://peer"⟩]
  knowsChannel _ _ := true
  lp _ := true
  scriptChannel _ := true
  sha256 bytes := if encode repeatedRequest = .ok bytes then repeatedDigest else default

/-- A request that is broadcast three times, and arrives three times. -/
def thrice : List (NetInput Bool) :=
  [.broadcast false repeatedRequest, .broadcast false repeatedRequest,
    .broadcast false repeatedRequest, .deliver 0, .deliver 0, .deliver 0]

theorem thrice_facts :
    (∀ n, (observedAt n ((Network.new 50000).happenings pairTopology thrice)).card ≤ 50000) ∧
      transmissions repeatedRequest ((Network.new 50000).happenings pairTopology thrice) = 3 ∧
      pairTopology.directedLinks = 2 ∧
      .acted true repeatedRequest ∈ (Network.new 50000).happenings pairTopology thrice := by
  decide +kernel

/-- More transmissions than connections, though no node sees more than one message. -/
theorem repeated_broadcast_exceeds_links :
    (∀ n, (observedAt n ((Network.new 50000).happenings pairTopology thrice)).card ≤ 50000) ∧
      ¬ FloodControlled pairTopology (Network.new 50000) thrice repeatedRequest 0 := by
  obtain ⟨hcap, hsent, hlinks, -⟩ := thrice_facts
  refine ⟨hcap, fun h => ?_⟩
  have hle := h.transmitted
  rw [hsent, hlinks] at hle
  omega

theorem thrice_flood_controlled :
    .acted true repeatedRequest ∈ (Network.new 50000).happenings pairTopology thrice ∧
      FloodControlled pairTopology (Network.new 50000) thrice repeatedRequest
        (retransmissions pairTopology repeatedRequest
          ((Network.new 50000).happenings pairTopology thrice)) := by
  obtain ⟨hcap, -, -, hacted⟩ := thrice_facts
  exact ⟨hacted, (gossip_flood_controlled pairTopology 50000 thrice hcap).2.2 repeatedRequest⟩

end Stroemnet.Gossip
