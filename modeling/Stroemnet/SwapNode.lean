import Stroemnet.EvmChannel
import Stroemnet.KaspaChannel
import Stroemnet.SwapHandler
import Mathlib.Data.Finset.Basic

/-! # A node

The tasks of a node and the state they share: gossip is handled message by message, polled
events are applied in order, and the broadcasts that either of them asks for are made one at
a time, in any order with respect to everything else. -/
namespace Stroemnet

/-- The digests of the latest messages. -/
structure SeenSet where
  cap : ℕ
  set : Finset Bytes32
  order : List Bytes32

def SeenSet.new (cap : ℕ) : SeenSet := ⟨cap, ∅, []⟩

/-- Adds a digest and says whether it is new; beyond the capacity the oldest one goes. -/
def SeenSet.insert (s : SeenSet) (hash : Bytes32) : Bool × SeenSet :=
  if hash ∈ s.set then (false, s)
  else
    let set := Insert.insert hash s.set
    match s.order ++ [hash] with
    | oldest :: rest =>
      if s.cap < set.card then (true, ⟨s.cap, set.erase oldest, rest⟩)
      else (true, ⟨s.cap, set, oldest :: rest⟩)
    | [] => (true, ⟨s.cap, set, []⟩)

def maxRedeemScriptBytes : ℕ := 512

def resolvedMaxAgeSecs : UInt64 := 86400

structure NodeConfig (RpcLog : Type) where
  handler : Handler
  channels : List ChannelId
  codec : Evm.LogCodec RpcLog
  evm : ChannelId → Evm.Config
  evm_channelId (c : ChannelId) : (evm c).channelId = c
  kaspa : Kaspa.Config
  kaspa_channelId : kaspa.channelId = .kaspaTn10
  /-- The digest of an encoded message. -/
  digest : Gossip.P2pMsg → Bytes32

structure Node where
  tracker : SwapTracker
  evm : ChannelId → Evm.State
  kaspa : Kaspa.State
  /-- Events that were polled and are not applied yet. -/
  events : List (ChannelId × ChainEvent)
  /-- Broadcasts that were asked for and are not made yet. -/
  outbox : List (ChannelId × ChainEvent)
  seen : SeenSet
  /-- Whether the task that polls and applies events has died. -/
  halted : Bool

def Effect.broadcasts : List Effect → List (ChannelId × ChainEvent)
  | [] => []
  | .broadcast c e :: effects => (c, e) :: broadcasts effects
  | .transmitReveal _ :: effects => broadcasts effects

theorem Effect.mem_broadcasts {effects : List Effect} {c : ChannelId} {e : ChainEvent} :
    (c, e) ∈ broadcasts effects ↔ .broadcast c e ∈ effects := by
  induction effects with
  | nil => simp [broadcasts]
  | cons effect effects ih =>
    cases effect with
    | broadcast c' e' => simp [broadcasts, ih]
    | transmitReveal c' => simp [broadcasts, ih]

namespace Node

variable {RpcLog : Type} (cfg : NodeConfig RpcLog)

/-- A node that has just connected to its channels. -/
def start (cursor : ChannelId → UInt64) (cap : ℕ) : Node where
  tracker _ := none
  evm c := Evm.State.empty (cursor c)
  kaspa := Kaspa.State.empty
  events := []
  outbox := []
  seen := .new cap
  halted := false

def setEvm (n : Node) (c : ChannelId) (st : Evm.State) : Node :=
  { n with evm := Function.update n.evm c st }

/-- A reveal from a peer: the tracker may refuse it, the broadcast to all channels is made in
any case. -/
def onReveal (r : RevealV1) (n : Node) : Node :=
  match n.seen.insert (cfg.digest (.reveal r)) with
  | (false, _) => n
  | (true, seen) =>
    let tracker := match cfg.handler.handleExternalReveal n.tracker r with
      | .ok t => t
      | .error _ => n.tracker
    { n with
      seen := seen
      tracker := tracker
      outbox := n.outbox ++ cfg.channels.map fun c => (c, .reveal r) }

/-- A script from a peer goes to the channel that watches for scripts. -/
def onScriptAnnounce (now : UInt64) (s : ScriptAnnounce) (n : Node) : Node :=
  if maxRedeemScriptBytes < s.redeemScript.length then n
  else
    match n.seen.insert (cfg.digest (.scriptAnnounce s)) with
    | (false, _) => n
    | (true, seen) =>
      if .kaspaTn10 ∈ cfg.channels then
        { n with
          seen := seen
          kaspa := (n.kaspa.registerScript cfg.kaspa now s.address s.redeemScript s.swapId
            s.unlockTs s.depositTarget).2 }
      else { n with seen := seen }

def pollEvm (now : UInt64) (c : ChannelId) (rpc : Evm.Rpc RpcLog) (n : Node) : Node :=
  if n.halted ∨ c ∉ cfg.channels ∨ ¬ c.isEvm then n
  else
    match (n.evm c).pollFinalized cfg.codec (cfg.evm c) now rpc with
    | (.error _, st) => { n.setEvm c st with halted := true }
    | (.ok events, st) => { n.setEvm c st with events := n.events ++ events }

def pollKaspa (now : UInt64) (n : Node) : Node :=
  if n.halted ∨ .kaspaTn10 ∉ cfg.channels then n
  else
    match n.kaspa.pollFinalized cfg.kaspa now with
    | (.error _, st) => { n with kaspa := st }
    | (.ok events, st) => { n with kaspa := st, events := n.events ++ events }

/-- Applies the next event; the broadcasts among its effects are put into the outbox. -/
def applyEvent (moment : Moment) (n : Node) : Node :=
  if n.halted then n
  else
    match n.events with
    | [] => n
    | (source, event) :: events =>
      match cfg.handler.handle n.tracker source event moment with
      | (.error _, t) => { n with events := events, tracker := t }
      | (.ok effects, t) =>
        { n with
          events := events
          tracker := t
          outbox := n.outbox ++ Effect.broadcasts effects }

/-- Makes a broadcast; a channel that is not configured is an error and changes nothing. -/
def broadcastEvent (now : UInt64) (sent : Except DataError Unit)
    (network : Except Kaspa.KaspaError Kaspa.Network) (c : ChannelId) (event : ChainEvent)
    (n : Node) : Node :=
  if c ∉ cfg.channels then n
  else if c.isEvm then n.setEvm c ((n.evm c).emitEvent (cfg.evm c) now sent event).2
  else { n with kaspa := (n.kaspa.emitEvent cfg.kaspa now network event).2 }

end Node

/-- What can happen to a node, with the answers of the outside world. -/
inductive NodeInput (RpcLog : Type)
  | gossipReveal (r : RevealV1)
  | gossipScript (s : ScriptAnnounce)
  | pollEvm (c : ChannelId) (rpc : Evm.Rpc RpcLog)
  | receiveBlock (b : Kaspa.Block)
  | pollKaspa
  | applyEvent (moment : Moment)
  | broadcast (i : ℕ) (sent : Except DataError Unit)
      (network : Except Kaspa.KaspaError Kaspa.Network)
  | settledEvm (c : ChannelId) (k : ActionKey)
  | failedEvm (c : ChannelId) (k : ActionKey)
  | failedKaspa (k : ActionKey)
  /-- The hourly clean-up of the tracker. -/
  | cleanup

namespace Node

variable {RpcLog : Type} (cfg : NodeConfig RpcLog)

def step (now : UInt64) (n : Node) : NodeInput RpcLog → Node
  | .gossipReveal r => n.onReveal cfg r
  | .gossipScript s => n.onScriptAnnounce cfg now s
  | .pollEvm c rpc => n.pollEvm cfg now c rpc
  | .receiveBlock b =>
    { n with kaspa := { n.kaspa with safeBlocks := n.kaspa.safeBlocks ++ [b] } }
  | .pollKaspa => n.pollKaspa cfg now
  | .applyEvent moment => n.applyEvent cfg moment
  | .broadcast i sent network =>
    match n.outbox[i]? with
    | none => n
    | some (c, event) =>
      { n with outbox := n.outbox.eraseIdx i }.broadcastEvent cfg now sent network c event
  | .settledEvm c k => n.setEvm c ((n.evm c).recordSuccess k)
  | .failedEvm c k => n.setEvm c ((n.evm c).recordFailure k now)
  | .failedKaspa k => { n with kaspa := n.kaspa.recordFailure k now }
  | .cleanup => { n with tracker := n.tracker.cleanupOldSwaps now resolvedMaxAgeSecs }

/-- A run: timed inputs, one after the other. -/
def run (n : Node) (ins : List (UInt64 × NodeInput RpcLog)) : Node :=
  ins.foldl (fun n i => n.step cfg i.1 i.2) n

@[simp] theorem run_nil (n : Node) : n.run cfg [] = n := rfl

@[simp] theorem run_append (n : Node) (a b : List (UInt64 × NodeInput RpcLog)) :
    n.run cfg (a ++ b) = (n.run cfg a).run cfg b := List.foldl_append

theorem run_concat (n : Node) (ins : List (UInt64 × NodeInput RpcLog)) (now : UInt64)
    (i : NodeInput RpcLog) : n.run cfg (ins ++ [(now, i)]) = (n.run cfg ins).step cfg now i := by
  rw [run_append]
  rfl

/-- Invariants of runs: what holds at the start and is kept by every step holds at the end. -/
theorem run_induction {P : Node → Prop} {Q : NodeInput RpcLog → Prop} {n : Node} (h : P n)
    (hstep : ∀ n now i, P n → Q i → P (n.step cfg now i))
    (ins : List (UInt64 × NodeInput RpcLog)) (hins : ∀ i ∈ ins, Q i.2) : P (n.run cfg ins) := by
  induction ins generalizing n with
  | nil => exact h
  | cons i ins ih =>
    obtain ⟨hi, hins⟩ := List.forall_mem_cons.mp hins
    exact ih (hstep n i.1 i.2 h hi) hins

theorem evm_onReveal (r : RevealV1) (n : Node) : (n.onReveal cfg r).evm = n.evm := by
  unfold onReveal
  split <;> rfl

theorem kaspa_onReveal (r : RevealV1) (n : Node) : (n.onReveal cfg r).kaspa = n.kaspa := by
  unfold onReveal
  split <;> rfl

theorem events_onReveal (r : RevealV1) (n : Node) : (n.onReveal cfg r).events = n.events := by
  unfold onReveal
  split <;> rfl

/-- A script that is announced changes no more than what was seen and the channel for scripts. -/
theorem onScriptAnnounce_eq (now : UInt64) (s : ScriptAnnounce) (n : Node) :
    ∃ seen kaspa, n.onScriptAnnounce cfg now s = { n with seen := seen, kaspa := kaspa } := by
  unfold onScriptAnnounce
  split_ifs
  · exact ⟨_, _, rfl⟩
  · split
    · exact ⟨_, _, rfl⟩
    · exact ⟨_, _, rfl⟩
  · split
    · exact ⟨_, _, rfl⟩
    · exact ⟨_, _, rfl⟩

theorem evm_pollEvm (now : UInt64) (c : ChannelId) (rpc : Evm.Rpc RpcLog) (n : Node) :
    (n.pollEvm cfg now c rpc).evm = if n.halted ∨ c ∉ cfg.channels ∨ ¬ c.isEvm then n.evm
      else (n.setEvm c ((n.evm c).pollFinalized cfg.codec (cfg.evm c) now rpc).2).evm := by
  unfold pollEvm
  split_ifs
  · rfl
  · split
    · rename_i heq
      rw [heq]
    · rename_i heq
      rw [heq]

theorem kaspa_pollEvm (now : UInt64) (c : ChannelId) (rpc : Evm.Rpc RpcLog) (n : Node) :
    (n.pollEvm cfg now c rpc).kaspa = n.kaspa := by
  unfold pollEvm
  split_ifs
  · rfl
  · split <;> rfl

theorem evm_pollKaspa (now : UInt64) (n : Node) : (n.pollKaspa cfg now).evm = n.evm := by
  unfold pollKaspa
  split_ifs
  · rfl
  · split <;> rfl

theorem kaspa_pollKaspa (now : UInt64) (n : Node) :
    (n.pollKaspa cfg now).kaspa = if n.halted ∨ .kaspaTn10 ∉ cfg.channels then n.kaspa
      else (n.kaspa.pollFinalized cfg.kaspa now).2 := by
  unfold pollKaspa
  split_ifs
  · rfl
  · split
    · rename_i heq
      rw [heq]
    · rename_i heq
      rw [heq]

theorem evm_applyEvent (moment : Moment) (n : Node) : (n.applyEvent cfg moment).evm = n.evm := by
  unfold applyEvent
  split_ifs
  · rfl
  · split
    · rfl
    · split <;> rfl

theorem kaspa_applyEvent (moment : Moment) (n : Node) :
    (n.applyEvent cfg moment).kaspa = n.kaspa := by
  unfold applyEvent
  split_ifs
  · rfl
  · split
    · rfl
    · split <;> rfl

theorem outbox_pollEvm (now : UInt64) (c : ChannelId) (rpc : Evm.Rpc RpcLog) (n : Node) :
    (n.pollEvm cfg now c rpc).outbox = n.outbox := by
  unfold pollEvm
  split_ifs
  · rfl
  · split <;> rfl

theorem outbox_pollKaspa (now : UInt64) (n : Node) :
    (n.pollKaspa cfg now).outbox = n.outbox := by
  unfold pollKaspa
  split_ifs
  · rfl
  · split <;> rfl

theorem broadcastEvent_eq (now : UInt64) (sent : Except DataError Unit)
    (network : Except Kaspa.KaspaError Kaspa.Network) (c : ChannelId) (event : ChainEvent)
    (n : Node) : ∃ evm kaspa, n.broadcastEvent cfg now sent network c event =
      { n with evm := evm, kaspa := kaspa } := by
  unfold broadcastEvent
  split_ifs
  · exact ⟨_, _, rfl⟩
  · exact ⟨_, _, rfl⟩
  · exact ⟨_, _, rfl⟩

def pendingClaims (n : Node) (c : ChannelId) : List RevealV1 :=
  if c.isEvm then (n.evm c).pendingClaims else n.kaspa.pendingClaims

def queue (n : Node) (c : ChannelId) : RetryQueue :=
  if c.isEvm then (n.evm c).queue else n.kaspa.queue

end Node
end Stroemnet
