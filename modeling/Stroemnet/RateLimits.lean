import Stroemnet.MutualDials
import Mathlib.Algebra.Group.Action.Defs

/-! # The rate of a peer

The task of a connection counts the messages of its peer, and starts again a second after it began
to count. A peer that goes over the limit is put on the blacklist, and is not served again. So the
messages that a node takes over a connection in some time are bounded by that time and two seconds
more, and no peer gets on the blacklist that keeps to the limit in every second. -/
namespace Stroemnet.Gossip

def PeerInput.now : PeerInput → UInt64
  | .connect _ _ _ _ _ now => now
  | .run _ now _ => now

namespace PeerNode

def phaseOf (node : PeerNode) (i : ℕ) : Option Phase := (node.tasks[i]?).map ReadTask.phase

/-- The messages that come in: the task and the time. -/
def received (node : PeerNode) : PeerInput → List (ℕ × UInt64)
  | .run i now (.message _) =>
    match node.phaseOf i with
    | some (.reading _ _) => [(i, now)]
    | _ => []
  | _ => []

/-- Those that are within the limit. -/
def accepted (node : PeerNode) : PeerInput → List (ℕ × UInt64)
  | .run i now (.message _) =>
    match node.phaseOf i with
    | some (.reading windowStart count) =>
      if maxMessagesPerSecond < (countMessage windowStart now count).2 then [] else [(i, now)]
    | _ => []
  | _ => []

end PeerNode

def inSecond (i w : ℕ) (x : ℕ × UInt64) : Bool := x.1 = i ∧ w ≤ x.2.toNat ∧ x.2.toNat < w + 1000

section Phases

variable {node : PeerNode} {i j : ℕ} {now : UInt64} {recv : Received}

theorem phaseOf_connect (url : String) (transport : ℕ) (isInbound : Bool)
    (sent : Except StroemnetP2pError Unit) (bytes : Except StroemnetP2pError Bytes) :
    (node.step (.connect url transport isInbound sent bytes now)).phaseOf i = node.phaseOf i ∨
      node.phaseOf i = none ∧
        (node.step (.connect url transport isInbound sent bytes now)).phaseOf i =
          some .starting := by
  rcases step_connect node url transport isInbound sent bytes now with
    ⟨peer, -, -, heq⟩ | ⟨closed, -, heq⟩
  · rw [heq]
    unfold PeerNode.phaseOf
    by_cases hlt : i < node.tasks.length
    · exact .inl (by rw [List.getElem?_append_left hlt])
    · rw [List.getElem?_eq_none (Nat.not_lt.mp hlt), List.getElem?_append_right (Nat.not_lt.mp hlt)]
      by_cases heq : i - node.tasks.length = 0
      · exact .inr ⟨rfl, by rw [heq]; rfl⟩
      · exact .inl (by rw [List.getElem?_eq_none (by simp; omega)])
  · rw [heq]
    exact .inl rfl

theorem phaseOf_run_ne (hne : j ≠ i) :
    (node.step (.run j now recv)).phaseOf i = node.phaseOf i := by
  cases ht : node.tasks[j]? with
  | none => rw [step_run_none ht]
  | some t =>
    obtain ⟨phase, s', -, -, heq⟩ := step_run ht now recv
    rw [heq, PeerNode.phaseOf, List.getElem?_set_ne hne]
    rfl

theorem phaseOf_run_self {t : ReadTask} (ht : node.tasks[i]? = some t) :
    (node.step (.run i now recv)).phaseOf i =
      some (readFromPeerTracked t.peer t.phase now recv node.shared).1 := by
  obtain ⟨phase, s', -, hphase, heq⟩ := step_run ht now recv
  obtain ⟨hlt, -⟩ := List.getElem?_eq_some_iff.mp ht
  rw [heq, PeerNode.phaseOf, List.getElem?_set_self hlt, hphase]
  rfl

theorem phaseOf_step_cases (node : PeerNode) (input : PeerInput) (i : ℕ) :
    (node.step input).phaseOf i = node.phaseOf i ∨
      (node.step input).phaseOf i = some .starting ∨
      ∃ t now recv, input = .run i now recv ∧ node.tasks[i]? = some t ∧
        node.phaseOf i = some t.phase ∧
        (node.step input).phaseOf i =
          some (readFromPeerTracked t.peer t.phase now recv node.shared).1 := by
  cases input with
  | connect url transport isInbound sent bytes now =>
    rcases phaseOf_connect url transport isInbound sent bytes with heq | ⟨-, heq⟩
    · exact .inl heq
    · exact .inr (.inl heq)
  | run j now recv =>
    by_cases hij : j = i
    · subst hij
      cases ht : node.tasks[j]? with
      | none =>
        rw [step_run_none ht]
        exact .inl rfl
      | some t =>
        refine .inr (.inr ⟨t, now, recv, rfl, rfl, ?_, phaseOf_run_self ht⟩)
        rw [PeerNode.phaseOf, ht]
        rfl
    · exact .inl (phaseOf_run_ne hij)

/-- How a task comes to read: it begins, or it goes on within the limit. -/
theorem reading_of_tracked {peer : ConnectedPeer} {phase : Phase} {s : Shared}
    {windowStart : UInt64} {count : ℕ}
    (h : (readFromPeerTracked peer phase now recv s).1 = .reading windowStart count) :
    phase = .discovering ∧ windowStart = now ∧ count = 0 ∨
      ∃ start before, phase = .reading start before ∧ recv = .message true ∧
        (windowStart, count) = countMessage start now before := by
  have hmove := move peer phase now recv s
  rw [h] at hmove
  generalize (readFromPeerTracked peer phase now recv s).2 = s' at hmove
  cases hmove with
  | discover =>
    simp only [readFromPeerTracked, Phase.reading.injEq] at h
    exact .inl ⟨rfl, h.1.symm, rfl⟩
  | read start _ before =>
    simp only [readFromPeerTracked] at h
    cases recv with
    | failed => cases h
    | message taken =>
      simp only at h
      split_ifs at h with hlimit htaken
      rw [Phase.reading.injEq] at h
      rw [htaken]
      exact .inr ⟨start, before, rfl, rfl, Prod.ext h.1.symm h.2.symm⟩

/-- How a task comes to put its peer on the blacklist. -/
theorem blacklisting_of_tracked {peer : ConnectedPeer} {phase : Phase} {s : Shared}
    (h : (readFromPeerTracked peer phase now recv s).1 = .blacklisting) :
    ∃ start before taken, phase = .reading start before ∧ recv = .message taken ∧
      maxMessagesPerSecond < (countMessage start now before).2 := by
  have hmove := move peer phase now recv s
  rw [h] at hmove
  generalize (readFromPeerTracked peer phase now recv s).2 = s' at hmove
  cases hmove with
  | flood start before =>
    simp only [readFromPeerTracked] at h
    cases recv with
    | failed => cases h
    | message taken =>
      simp only at h
      split_ifs at h with hlimit
      exact ⟨start, before, taken, rfl, rfl, hlimit⟩

end Phases

section Bound

variable {node : PeerNode} {i a e : ℕ} {input : PeerInput} {inputs : List PeerInput}

/-- What a task may still take up to the time `e`. -/
def allowance (a e : ℕ) : Option Phase → ℕ
  | some (.reading windowStart count) =>
    (maxMessagesPerSecond - count) +
      if a ≤ windowStart.toNat then maxMessagesPerSecond * ((e - windowStart.toNat) / 1000)
      else maxMessagesPerSecond * ((e - a) / 1000 + 1)
  | some .blacklisting => 0
  | some .leaving => 0
  | some .done => 0
  | _ => maxMessagesPerSecond * ((e - a) / 1000 + 2)

theorem allowance_le (a e : ℕ) (phase : Option Phase) :
    allowance a e phase ≤ maxMessagesPerSecond * ((e - a) / 1000 + 2) := by
  unfold allowance
  split
  · split_ifs with hstart
    · rename_i windowStart count
      have hle : (e - windowStart.toNat) / 1000 ≤ (e - a) / 1000 :=
        Nat.div_le_div_right (Nat.sub_le_sub_left hstart e)
      simp only [maxMessagesPerSecond]
      omega
    · simp only [maxMessagesPerSecond]
      omega
  · omega
  · omega
  · omega
  · exact le_refl _

theorem allowance_message {windowStart now : UInt64} {count : ℕ} (hfrom : a ≤ now.toNat)
    (hto : now.toNat ≤ e) (hclock : windowStart ≤ now)
    (htaken : ¬ maxMessagesPerSecond < (countMessage windowStart now count).2) :
    1 + allowance a e (some (.reading (countMessage windowStart now count).1
      (countMessage windowStart now count).2)) ≤
      allowance a e (some (.reading windowStart count)) := by
  unfold countMessage at htaken ⊢
  split_ifs at htaken ⊢ with hreset
  · simp only [allowance, if_pos hfrom]
    split_ifs with hstart
    · have hle := UInt64.le_iff_toNat_le.mp hclock
      have hgap : 1000 ≤ now.toNat - windowStart.toNat :=
        hreset.resolve_right (UInt64.not_lt.mpr hclock)
      have hdiv : (e - now.toNat) / 1000 + 1 ≤ (e - windowStart.toNat) / 1000 := by
        rw [← Nat.add_div_right _ (by norm_num)]
        exact Nat.div_le_div_right (by omega)
      simp only [maxMessagesPerSecond]
      omega
    · have hdiv : (e - now.toNat) / 1000 ≤ (e - a) / 1000 :=
        Nat.div_le_div_right (Nat.sub_le_sub_left hfrom e)
      simp only [maxMessagesPerSecond]
      omega
  · simp only [allowance]
    omega

private theorem allowance_run {t : ReadTask} {now : UInt64} {recv : Received} (s : Shared)
    (hfrom : a ≤ now.toNat) (hto : now.toNat ≤ e)
    (hclock : ∀ windowStart count, t.phase = .reading windowStart count → windowStart ≤ now)
    (ht : node.tasks[i]? = some t) :
    (node.accepted (.run i now recv)).length +
        allowance a e (some (readFromPeerTracked t.peer t.phase now recv s).1) ≤
      allowance a e (some t.phase) := by
  have hphase : node.phaseOf i = some t.phase := by rw [PeerNode.phaseOf, ht]; rfl
  cases hreading : t.phase with
  | reading windowStart count =>
    rw [hreading] at hphase
    cases recv with
    | failed => exact Nat.zero_le _
    | message taken =>
      simp only [PeerNode.accepted, hphase, readFromPeerTracked]
      split_ifs with hlimit htaken
      · exact Nat.zero_le _
      · exact allowance_message hfrom hto (hclock _ _ hreading) hlimit
      · exact le_trans (Nat.le_add_right _ _)
          (allowance_message hfrom hto (hclock _ _ hreading) hlimit)
  | _ =>
    have hnone : node.accepted (.run i now recv) = [] := by
      cases recv <;> simp only [PeerNode.accepted, hphase, hreading]
    rw [hnone, List.length_nil, Nat.zero_add]
    first
      | exact allowance_le a e _
      | exact le_refl _

private theorem accepted_fst {x : ℕ × UInt64} (hx : x ∈ node.accepted input) :
    ∃ recv, input = .run x.1 x.2 recv := by
  cases input with
  | connect => cases hx
  | run j now recv =>
    cases recv with
    | failed => cases hx
    | message taken =>
      simp only [PeerNode.accepted] at hx
      split at hx
      · split_ifs at hx
        · cases hx
        · rw [List.mem_singleton.mp hx]
          exact ⟨_, rfl⟩
      · cases hx

def Begun (node : PeerNode) (c : UInt64) : Prop :=
  ∀ i windowStart count, node.phaseOf i = some (.reading windowStart count) → windowStart ≤ c

private theorem begun_step (h : Begun node input.now) : Begun (node.step input) input.now := by
  intro i windowStart count hphase
  rcases phaseOf_step_cases node input i with heq | heq | ⟨t, now, recv, rfl, -, hbefore, heq⟩
  · exact h i windowStart count (heq ▸ hphase)
  · rw [heq] at hphase
    cases hphase
  · rw [heq, Option.some.injEq] at hphase
    rcases reading_of_tracked hphase with ⟨-, rfl, -⟩ | ⟨start, before, hstart, -, hcount⟩
    · exact UInt64.le_refl _
    · have hle := h i start before (hstart ▸ hbefore)
      unfold countMessage at hcount
      split_ifs at hcount
      · rw [(Prod.mk.inj hcount).1]
        exact UInt64.le_refl _
      · rw [(Prod.mk.inj hcount).1]
        exact hle

/-- While the clock does not go back, no window begins in the future. -/
theorem along_begun {c : UInt64} (h : Begun node c)
    (hfrom : ∀ x ∈ inputs, c ≤ x.now) (hclock : inputs.Pairwise fun x y => x.now ≤ y.now) :
    Runs.Along PeerNode.step (fun node input => Begun node input.now) node inputs := by
  induction inputs generalizing node c with
  | nil => trivial
  | cons x inputs ih =>
    rw [List.pairwise_cons] at hclock
    have hx : Begun node x.now := fun i windowStart count hphase =>
      UInt64.le_trans (h i windowStart count hphase) (hfrom x List.mem_cons_self)
    exact ⟨hx, ih (begun_step hx) hclock.1 hclock.2⟩

theorem allowance_step (hfrom : a ≤ input.now.toNat) (hto : input.now.toNat ≤ e)
    (hbegun : Begun node input.now) :
    (node.accepted input).countP (fun x => x.1 = i) + allowance a e ((node.step input).phaseOf i) ≤
      allowance a e (node.phaseOf i) := by
  cases input with
  | connect url transport isInbound sent bytes now =>
    rcases phaseOf_connect url transport isInbound sent bytes with heq | ⟨hnone, heq⟩
    · rw [heq]
      exact le_of_eq (Nat.zero_add _)
    · rw [heq, hnone]
      exact le_of_eq (Nat.zero_add _)
  | run j now recv =>
    by_cases hij : j = i
    · subst hij
      cases ht : node.tasks[j]? with
      | none =>
        have hphase : node.phaseOf j = none := by rw [PeerNode.phaseOf, ht]; rfl
        have hnone : node.accepted (.run j now recv) = [] := by
          cases recv <;> simp only [PeerNode.accepted, hphase]
        rw [step_run_none ht, hnone]
        exact le_of_eq (Nat.zero_add _)
      | some t =>
        have hphase : node.phaseOf j = some t.phase := by rw [PeerNode.phaseOf, ht]; rfl
        rw [phaseOf_run_self ht, hphase]
        refine le_trans (Nat.add_le_add_right List.countP_le_length _) ?_
        refine allowance_run node.shared hfrom hto (fun windowStart count hreading => ?_) ht
        exact hbegun j windowStart count (hreading ▸ hphase)
    · have hnone : (node.accepted (.run j now recv)).countP (fun x => x.1 = i) = 0 := by
        refine List.countP_eq_zero.mpr fun x hx => ?_
        obtain ⟨_, heq⟩ := accepted_fst hx
        rw [PeerInput.run.injEq] at heq
        simpa [← heq.1] using hij
      rw [phaseOf_run_ne hij, hnone, Nat.zero_add]

/-- Over any span of a run in which the clock does not go back, the messages that the task of a
connection takes are at most a hundred for each second of the span and two more. -/
theorem accepted_within_rate (config : P2pConfig) (before span : List PeerInput) (i : ℕ)
    (hclock : (before ++ span).Pairwise fun x y => x.now ≤ y.now)
    (hspan : ∀ x ∈ span, a ≤ x.now.toNat ∧ x.now.toNat ≤ e) :
    (Runs.outputs PeerNode.step PeerNode.accepted
        (Runs.final PeerNode.step (.new config) before) span).countP (fun x => x.1 = i) ≤
      maxMessagesPerSecond * ((e - a) / 1000 + 2) := by
  have hnew : Begun (.new config) 0 := by
    intro i windowStart count hphase
    cases hphase
  have hbegun := (Runs.along_append.mp
    (along_begun hnew (fun x _ => UInt64.le_iff_toNat_le.mpr (Nat.zero_le _)) hclock)).2
  have hstep : ∀ node input, Begun node input.now ∧ input ∈ span →
      (node.accepted input).countP (fun x => x.1 = i) +
        allowance a e ((node.step input).phaseOf i) ≤ allowance a e (node.phaseOf i) + 0 := by
    rintro node input ⟨hbegun, hmem⟩
    obtain ⟨hfrom, hto⟩ := hspan input hmem
    exact allowance_step hfrom hto hbegun
  have hcount := hbegun.and_mem.countP_outputs_le (fun node => allowance a e (node.phaseOf i))
    (fun _ => 0) hstep
  rw [List.map_const', List.sum_replicate, smul_eq_mul, Nat.mul_zero, Nat.add_zero] at hcount
  exact le_trans hcount (allowance_le a e _)

/-- A peer is dialled, sends a message too many within a second, and its task ends. -/
def greetInputs : List PeerInput := dialInput false 10 :: runInputs [0, 0, 0, 0]

def floodInputs : List PeerInput := List.replicate 101 (.run 0 500 (.message true))

def endInputs : List PeerInput := [.run 0 500 .failed, .run 0 500 .failed]

private theorem flood_facts :
    (greetInputs ++ floodInputs).Pairwise (fun x y : PeerInput => x.now ≤ y.now) ∧
      (∀ x ∈ floodInputs, 500 ≤ x.now.toNat ∧ x.now.toNat ≤ 500) ∧
      (Runs.outputs PeerNode.step PeerNode.accepted
        (Runs.final PeerNode.step (.new (sampleConfig false)) greetInputs)
        floodInputs).countP (fun x => x.1 = 0) = 100 := by
  decide +kernel

theorem flood_within_rate :
    (Runs.outputs PeerNode.step PeerNode.accepted
        (Runs.final PeerNode.step (.new (sampleConfig false)) greetInputs)
        floodInputs).countP (fun x => x.1 = 0) = 100 ∧
      (Runs.outputs PeerNode.step PeerNode.accepted
        (Runs.final PeerNode.step (.new (sampleConfig false)) greetInputs)
        floodInputs).countP (fun x => x.1 = 0) ≤
          maxMessagesPerSecond * ((500 - 500) / 1000 + 2) := by
  obtain ⟨hclock, hspan, hcount⟩ := flood_facts
  exact ⟨hcount, accepted_within_rate (sampleConfig false) greetInputs floodInputs 0 hclock hspan⟩

end Bound

section Blacklist

variable {node : PeerNode} {i : ℕ} {id : Bytes32} {xs : List (ℕ × UInt64)} {input : PeerInput}

/-- A task of the peer has had more messages within a second than the limit allows. -/
def Flooded (node : PeerNode) (xs : List (ℕ × UInt64)) (id : Bytes32) : Prop :=
  ∃ i t w, node.tasks[i]? = some t ∧ t.peer.nodeId = id ∧
    maxMessagesPerSecond < xs.countP (inSecond i w)

structure Counted (node : PeerNode) (xs : List (ℕ × UInt64)) : Prop where
  counts : ∀ i windowStart count, node.phaseOf i = some (.reading windowStart count) →
    count ≤ xs.countP (inSecond i windowStart.toNat)
  flooded : ∀ i, node.phaseOf i = some .blacklisting →
    ∃ w, maxMessagesPerSecond < xs.countP (inSecond i w)
  listed : ∀ id ∈ node.shared.p2p.blacklist, Flooded node xs id

theorem countP_le_append (p : ℕ × UInt64 → Bool) (xs ys : List (ℕ × UInt64)) :
    xs.countP p ≤ (xs ++ ys).countP p := by
  rw [List.countP_append]
  exact Nat.le_add_right _ _

theorem peer_step {t : ReadTask} (ht : node.tasks[i]? = some t) (input : PeerInput) :
    ∃ t', (node.step input).tasks[i]? = some t' ∧ t'.peer = t.peer := by
  obtain ⟨hlt, -⟩ := List.getElem?_eq_some_iff.mp ht
  refine step_induction (P := fun node' => ∃ t', node'.tasks[i]? = some t' ∧ t'.peer = t.peer)
    node input ?_ ?_ ?_
  · intro peer
    exact ⟨t, by rw [List.getElem?_append_left hlt, ht], rfl⟩
  · intro closed
    exact ⟨t, ht, rfl⟩
  · intro j now recv u phase s' _ hu _
    by_cases hij : j = i
    · subst hij
      obtain rfl : u = t := Option.some.inj (hu.symm.trans ht)
      exact ⟨_, List.getElem?_set_self hlt, rfl⟩
    · exact ⟨t, by rw [List.getElem?_set_ne hij, ht], rfl⟩

theorem Flooded.step (h : Flooded node xs id) (input : PeerInput) :
    Flooded (node.step input) (xs ++ node.received input) id := by
  obtain ⟨i, t, w, ht, hid, hlimit⟩ := h
  obtain ⟨t', ht', hpeer⟩ := peer_step ht input
  exact ⟨i, t', w, ht', hpeer ▸ hid, lt_of_lt_of_le hlimit (countP_le_append _ _ _)⟩

theorem count_le_received {start : UInt64} {before : ℕ} (now : UInt64) (taken : Bool)
    (hphase : node.phaseOf i = some (.reading start before))
    (h : before ≤ xs.countP (inSecond i start.toNat)) :
    (countMessage start now before).2 ≤ (xs ++ node.received (.run i now (.message taken))).countP
      (inSecond i (countMessage start now before).1.toNat) := by
  have hreceived : node.received (.run i now (.message taken)) = [(i, now)] := by
    simp only [PeerNode.received, hphase]
  rw [hreceived, List.countP_append, List.countP_singleton]
  unfold countMessage
  split_ifs with hreset hin hin
  · exact Nat.le_add_left _ _
  · exact absurd (by simp [inSecond]) hin
  · exact Nat.add_le_add_right h 1
  · rw [not_or, UInt64.not_lt, UInt64.le_iff_toNat_le] at hreset
    have hwithin : now.toNat < start.toNat + 1000 := by omega
    exact absurd (by simp [inSecond, hreset.2, hwithin]) hin

private theorem counted_new (config : P2pConfig) : Counted (.new config) [] where
  counts _ _ _ hphase := by cases hphase
  flooded _ hphase := by cases hphase
  listed id hid := absurd hid (Finset.notMem_empty id)

/-- A step puts at most the peer of its own task on the blacklist. -/
theorem blacklist_step (hid : id ∈ (node.step input).shared.p2p.blacklist) :
    id ∈ node.shared.p2p.blacklist ∨ ∃ i t, node.tasks[i]? = some t ∧ t.peer.nodeId = id ∧
      node.phaseOf i = some .blacklisting := by
  refine step_induction (P := fun node' => id ∈ node'.shared.p2p.blacklist → _) node input
    (fun _ => .inl) (fun _ => .inl) ?_ hid
  intro i now recv t phase s' _ ht hmove hid
  generalize hphase : t.phase = before at hmove
  cases hmove with
  | blacklist =>
    rcases Finset.mem_insert.mp hid with rfl | hid
    · exact .inr ⟨i, t, ht, rfl, by rw [PeerNode.phaseOf, ht, ← hphase]; rfl⟩
    · exact .inl hid
  | _ => exact .inl hid

private theorem counted_step (h : Counted node xs) (input : PeerInput) :
    Counted (node.step input) (xs ++ node.received input) where
  counts i windowStart count hphase := by
    rcases phaseOf_step_cases node input i with heq | heq | ⟨t, now, recv, rfl, -, hbefore, heq⟩
    · exact le_trans (h.counts i windowStart count (heq ▸ hphase)) (countP_le_append _ _ _)
    · rw [heq] at hphase
      cases hphase
    · rw [heq, Option.some.injEq] at hphase
      rcases reading_of_tracked hphase with ⟨-, -, rfl⟩ | ⟨start, before, hstart, rfl, hcount⟩
      · exact Nat.zero_le _
      · rw [hstart] at hbefore
        have hle := count_le_received now true hbefore (h.counts i start before hbefore)
        rwa [← hcount] at hle
  flooded i hphase := by
    rcases phaseOf_step_cases node input i with heq | heq | ⟨t, now, recv, rfl, -, hbefore, heq⟩
    · obtain ⟨w, hw⟩ := h.flooded i (heq ▸ hphase)
      exact ⟨w, lt_of_lt_of_le hw (countP_le_append _ _ _)⟩
    · rw [heq] at hphase
      cases hphase
    · rw [heq, Option.some.injEq] at hphase
      obtain ⟨start, before, taken, hstart, rfl, hlimit⟩ := blacklisting_of_tracked hphase
      rw [hstart] at hbefore
      exact ⟨_, lt_of_lt_of_le hlimit
        (count_le_received now taken hbefore (h.counts i start before hbefore))⟩
  listed id hid := by
    rcases blacklist_step hid with hid | ⟨i, t, ht, hid, hphase⟩
    · exact (h.listed id hid).step input
    · obtain ⟨w, hw⟩ := h.flooded i hphase
      exact Flooded.step ⟨i, t, w, ht, hid, hw⟩ input

/-- The peer is on the blacklist, no task of it is under way, and it is not connected. -/
structure StaysOut (id : Bytes32) (node : PeerNode) : Prop where
  listed : node.shared.p2p.isBlacklisted id = true
  finished : ∀ t ∈ node.tasks, t.peer.nodeId = id → t.phase = .starting ∨ t.phase = .done
  absent : ∀ e ∈ node.shared.p2p.connectedPeers, e.nodeId ≠ id

/-- The connections after a step of a task: those before, and the peer's own where it is added. -/
theorem Move.connectedPeers {peer : ConnectedPeer} {s s' : Shared} {phase phase' : Phase}
    (hmove : Move peer s phase phase' s') {e : ConnectedPeer}
    (he : e ∈ s'.p2p.connectedPeers) :
    e ∈ s.p2p.connectedPeers ∨ phase = .adding ∧ e = peer := by
  cases hmove with
  | evict idx old hold hid => exact .inl (List.mem_of_mem_eraseIdx he)
  | add =>
    rcases List.mem_append.mp he with he | he
    · exact .inl he
    · exact .inr ⟨rfl, List.mem_singleton.mp he⟩
  | leave => exact .inl (List.mem_filter.mp he).1
  | _ => exact .inl he

theorem Move.isBlacklisted {peer : ConnectedPeer} {s s' : Shared} {phase phase' : Phase}
    (hmove : Move peer s phase phase' s') (h : s.p2p.isBlacklisted id = true) :
    s'.p2p.isBlacklisted id = true := by
  cases hmove with
  | blacklist => exact decide_eq_true (Finset.mem_insert_of_mem (of_decide_eq_true h))
  | _ => exact h

theorem staysOut_step (h : StaysOut id node) (input : PeerInput) :
    StaysOut id (node.step input) := by
  cases input with
  | connect url transport isInbound sent bytes now =>
    rcases step_connect node url transport isInbound sent bytes now with
      ⟨peer, -, -, heq⟩ | ⟨closed, -, heq⟩
    · rw [heq]
      refine ⟨h.listed, fun t ht hid => ?_, h.absent⟩
      rcases List.mem_append.mp ht with ht | ht
      · exact h.finished t ht hid
      · rw [List.mem_singleton.mp ht]
        exact .inl rfl
    · rw [heq]
      exact ⟨h.listed, h.finished, h.absent⟩
  | run i now recv =>
    cases ht : node.tasks[i]? with
    | none =>
      rw [step_run_none ht]
      exact h
    | some t =>
      have hmem := List.mem_of_getElem? ht
      obtain ⟨phase, s', hmove, hphase, heq⟩ := step_run ht now recv
      rw [heq]
      refine ⟨hmove.isBlacklisted h.listed, fun u hu hid => ?_, fun e he hid => ?_⟩
      · rcases List.mem_or_eq_of_mem_set hu with hu | rfl
        · exact h.finished u hu hid
        · right
          rcases h.finished t hmem hid with hstart | hdone
          · rw [hstart] at hphase
            rw [← hphase, readFromPeerTracked, if_pos]
            exact hid ▸ h.listed
          · rw [hdone] at hphase
            exact hphase.symm
      · rcases hmove.connectedPeers he with he | ⟨hadding, rfl⟩
        · exact h.absent e he hid
        · rcases h.finished t hmem hid with hother | hother
          all_goals
            rw [hother] at hadding
            cases hadding

private theorem received_of_staysOut (h : StaysOut id node) {x : ℕ × UInt64}
    (hx : x ∈ node.received input) : ∀ t, node.tasks[x.1]? = some t → t.peer.nodeId ≠ id := by
  intro t ht hid
  cases input with
  | connect => cases hx
  | run j now recv =>
    cases recv with
    | failed => cases hx
    | message taken =>
      simp only [PeerNode.received] at hx
      split at hx
      · rename_i windowStart count hphase
        rw [List.mem_singleton.mp hx] at ht
        rw [PeerNode.phaseOf, ht] at hphase
        rcases h.finished t (List.mem_of_getElem? ht) hid with hother | hother <;>
          rw [Option.map_some, hother] at hphase <;> cases hphase
      · cases hx

/-- Whoever is on the blacklist has sent more messages over a connection within a second than the
limit allows; and once its tasks are over it is not connected and not heard again. -/
theorem blacklist_earned_and_final (config : P2pConfig) (before after : List PeerInput)
    (id : Bytes32)
    (hlisted : (Runs.final PeerNode.step (.new config) before).shared.p2p.isBlacklisted id = true) :
    Flooded (Runs.final PeerNode.step (.new config) before)
        (Runs.outputs PeerNode.step PeerNode.received (.new config) before) id ∧
      (StaysOut id (Runs.final PeerNode.step (.new config) before) →
        StaysOut id (Runs.final PeerNode.step (.new config) (before ++ after)) ∧
        Runs.Along PeerNode.step
          (fun node input => ∀ x ∈ node.received input, ∀ t, node.tasks[x.1]? = some t →
            t.peer.nodeId ≠ id)
          (Runs.final PeerNode.step (.new config) before) after) := by
  constructor
  · have hall : Runs.Along PeerNode.step (fun _ _ => True) (.new config) before :=
      Runs.along_true _ _
    have hcounted := Runs.Along.invariant_outputs (I := Counted)
      (fun _ input _ h _ => counted_step h input) (counted_new config) hall
    exact hcounted.listed id (of_decide_eq_true hlisted)
  · intro hout
    have hall : Runs.Along PeerNode.step (fun _ _ => True)
        (Runs.final PeerNode.step (.new config) before) after := Runs.along_true _ _
    constructor
    · rw [Runs.final_append]
      exact Runs.Along.invariant (I := StaysOut id) (fun _ input h _ => staysOut_step h input)
        hout hall
    · exact hall.of_invariant (fun _ input h _ =>
        ⟨fun _ hx => received_of_staysOut h hx, staysOut_step h input⟩) hout

/-- The peer of the flood tries again. -/
def retryInputs : List PeerInput :=
  [dialInput false 11, .run 1 2000 (.message true), .run 1 2000 (.message true)]

private theorem flood_listed :
    (Runs.final PeerNode.step (.new (sampleConfig false))
        (greetInputs ++ floodInputs ++ endInputs)).shared.p2p.isBlacklisted
          (sampleEncounter.ids true) = true ∧
      (∀ t ∈ (Runs.final PeerNode.step (.new (sampleConfig false))
        (greetInputs ++ floodInputs ++ endInputs)).tasks, t.phase = .done) ∧
      (Runs.final PeerNode.step (.new (sampleConfig false))
        (greetInputs ++ floodInputs ++ endInputs)).shared.p2p.connectedPeers = [] := by
  decide +kernel

theorem flood_is_final :
    StaysOut (sampleEncounter.ids true) (Runs.final PeerNode.step (.new (sampleConfig false))
      (greetInputs ++ floodInputs ++ endInputs ++ retryInputs)) := by
  obtain ⟨hlisted, hdone, hnone⟩ := flood_listed
  obtain ⟨-, hstays⟩ := blacklist_earned_and_final (sampleConfig false)
    (greetInputs ++ floodInputs ++ endInputs) retryInputs (sampleEncounter.ids true) hlisted
  refine (hstays ⟨hlisted, fun t ht _ => .inr (hdone t ht), fun e he => ?_⟩).1
  rw [hnone] at he
  cases he

end Blacklist

end Stroemnet.Gossip
