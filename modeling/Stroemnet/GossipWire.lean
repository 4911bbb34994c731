import Stroemnet.RecordCodec
import Mathlib.Tactic.FinCases

/-! # Messages on the wire

Every message between nodes has one encoding, so that the digest by which a node tells what it has
seen is the same at every hop. -/
namespace Stroemnet.Gossip

open Borsh Record

def peerAddr : Codec PeerAddr :=
  (text.pair Codec.u64).iso (fun p => ⟨p.1, p.2⟩) (fun a => (a.url, a.lastSeen)) (fun _ => rfl)
    (fun _ => rfl)

def nodeState : Codec NodeState :=
  (bytes32.pair (text.option.pair peerAddr.list)).iso (fun p => ⟨p.1, p.2.1, p.2.2⟩)
    (fun s => (s.nodeId, s.listenAddr, s.peers)) (fun _ => rfl) (fun _ => rfl)

def proposalRequest : Codec ProposalRequest :=
  (bytes32.pair (Codec.u8.pair (Codec.u8.pair (text.pair Codec.u8.list)))).iso
    (fun p => ⟨p.1, p.2.1, p.2.2.1, p.2.2.2.1, p.2.2.2.2⟩)
    (fun r => (r.swapId, r.origin, r.destination, r.amount, r.extraData)) (fun _ => rfl)
    (fun _ => rfl)

def proposalResponse : Codec ProposalResponse :=
  (bytes32.pair (Codec.u8.pair (Codec.u8.pair (text.pair (text.pair (text.pair (Codec.u64.pair
    (text.pair (Codec.u8.list.pair (Codec.u64.pair Codec.u8.list)))))))))).iso
    (fun p => ⟨p.1, p.2.1, p.2.2.1, p.2.2.2.1, p.2.2.2.2.1, p.2.2.2.2.2.1, p.2.2.2.2.2.2.1,
      p.2.2.2.2.2.2.2.1, p.2.2.2.2.2.2.2.2.1, p.2.2.2.2.2.2.2.2.2.1, p.2.2.2.2.2.2.2.2.2.2⟩)
    (fun r => (r.swapId, r.origin, r.destination, r.amountIn, r.amountOut,
      r.senderDestinationAddress, r.commitUnlockOffsetSecs, r.lpSenderAddress, r.lpSignature,
      r.lpBlockConfirmations, r.extraData))
    (fun _ => rfl) (fun _ => rfl)

def scriptAnnounce : Codec ScriptAnnounce :=
  (text.pair (bytes32.pair (Codec.u8.list.pair (Codec.u64.pair text)))).iso
    (fun p => ⟨p.1, p.2.1, p.2.2.1, p.2.2.2.1, p.2.2.2.2⟩)
    (fun s => (s.address, s.swapId, s.redeemScript, s.unlockTs, s.depositTarget)) (fun _ => rfl)
    (fun _ => rfl)

def proposalError : Codec ProposalError :=
  (bytes32.pair (Codec.u8.pair (Codec.u8.pair text))).iso
    (fun p => ⟨p.1, p.2.1, p.2.2.1, p.2.2.2⟩)
    (fun e => (e.swapId, e.origin, e.destination, e.reason)) (fun _ => rfl) (fun _ => rfl)

def Payload : Fin 6 → Type
  | 0 => NodeState
  | 1 => ProposalRequest
  | 2 => ProposalResponse
  | 3 => RevealV1
  | 4 => ScriptAnnounce
  | 5 => ProposalError

def payload : ∀ i, Codec (Payload i)
  | 0 => nodeState
  | 1 => proposalRequest
  | 2 => proposalResponse
  | 3 => Record.reveal
  | 4 => scriptAnnounce
  | 5 => proposalError

def P2pMsg.ofPayload : (Σ i, Payload i) → P2pMsg
  | ⟨0, s⟩ => .state s
  | ⟨1, r⟩ => .proposalRequest r
  | ⟨2, r⟩ => .proposalResponse r
  | ⟨3, r⟩ => .reveal r
  | ⟨4, s⟩ => .scriptAnnounce s
  | ⟨5, e⟩ => .proposalError e

def P2pMsg.toPayload : P2pMsg → Σ i, Payload i
  | .state s => ⟨0, s⟩
  | .proposalRequest r => ⟨1, r⟩
  | .proposalResponse r => ⟨2, r⟩
  | .reveal r => ⟨3, r⟩
  | .scriptAnnounce s => ⟨4, s⟩
  | .proposalError e => ⟨5, e⟩

def p2pMsg : Codec P2pMsg :=
  (Codec.variants (by decide) payload).iso P2pMsg.ofPayload P2pMsg.toPayload
    (fun m => by cases m <;> rfl)
    (fun p => by
      obtain ⟨i, a⟩ := p
      fin_cases i <;> rfl)

def maxMessageBytes : ℕ := 256 * 1024

/-- Why a peer is refused although it answered. -/
inductive HandshakeFailure
  | expectedState (got : P2pMsg)
  | selfLoop
  | ourListenAddr (theirs : String)
deriving DecidableEq

inductive StroemnetP2pError
  | codec (e : Error)
  | messageTooLarge (size max : ℕ)
  | io (reason : String)
  | transportClosed
  | handshakeFailed (reason : HandshakeFailure)
deriving DecidableEq

def encode (msg : P2pMsg) : Except StroemnetP2pError Bytes :=
  match p2pMsg.encode msg with
  | .ok b => .ok b
  | .error e => .error (.codec e)

/-- Only messages up to the size limit are read. -/
def decode (bytes : Bytes) : Except StroemnetP2pError P2pMsg :=
  if maxMessageBytes < bytes.length then .error (.messageTooLarge bytes.length maxMessageBytes)
  else
    match p2pMsg.tryFromSlice bytes with
    | .ok msg => .ok msg
    | .error e => .error (.codec e)

theorem encode_eq_ok {msg : P2pMsg} {b : Bytes} :
    encode msg = .ok b ↔ p2pMsg.encode msg = .ok b := by
  rw [encode]
  cases p2pMsg.encode msg <;> simp

/-- A message is read exactly from its own encoding, if that is not too large. -/
theorem decode_eq_ok {b : Bytes} {msg : P2pMsg} :
    decode b = .ok msg ↔ encode msg = .ok b ∧ b.length ≤ maxMessageBytes := by
  rw [encode_eq_ok, ← Codec.tryFromSlice_eq_ok, decode]
  split_ifs with hsize
  · exact iff_of_false nofun fun h => absurd h.2 (Nat.not_le.mpr hsize)
  · rw [Nat.not_lt] at hsize
    simp only [hsize, and_true]
    cases p2pMsg.tryFromSlice b <;> simp

end Stroemnet.Gossip
