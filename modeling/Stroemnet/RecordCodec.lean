import Stroemnet.CanonicalCodecs
import Stroemnet.Settlement

/-! # The records of swaps as bytes

What is kept of a swap across restarts is written in the binary format behind a magic byte and a
version. A record that cannot be read is told apart by the reason. -/
namespace Stroemnet.Record

open Borsh

def bytes32 : Codec Bytes32 :=
  (Codec.fixed 32).iso (fun b => ⟨b.1, b.2⟩) (fun b => ⟨b.data, b.length_eq⟩) (fun _ => rfl)
    (fun _ => rfl)

/-- Text is written as its bytes, and read only if they are valid. -/
def text : Codec String :=
  (Codec.list Codec.u8).emap .invalidUtf8 stringOfUtf8 utf8Bytes fun _ _ => stringOfUtf8_eq_some

def reveal : Codec RevealV1 :=
  (bytes32.pair bytes32).iso (fun p => ⟨p.1, p.2⟩) (fun r => (r.swapId, r.secret)) (fun _ => rfl)
    (fun _ => rfl)

def refund : Codec RefundV1 := bytes32.iso (fun id => ⟨id⟩) (fun r => r.swapId) (fun _ => rfl)
  (fun _ => rfl)

def utxoScript : Codec UtxoScript :=
  ((Codec.list Codec.u8).pair (Codec.u64.pair text)).iso (fun p => ⟨p.1, p.2.1, p.2.2⟩)
    (fun s => (s.redeemScript, s.unlockTs, s.depositTarget)) (fun _ => rfl) (fun _ => rfl)

def attemptState : Codec AttemptState :=
  (Codec.u64.pair (Codec.u64.pair (Codec.u32.pair (Codec.u64.pair
    (Codec.u64.option.pair Codec.u128.option))))).iso
    (fun p => ⟨p.1, p.2.1, p.2.2.1, p.2.2.2.1, p.2.2.2.2.1, p.2.2.2.2.2⟩)
    (fun a => (a.firstSeen, a.nextAttemptAt, a.attemptCount, a.deadline, a.nonce, a.lastGas))
    (fun _ => rfl) (fun _ => rfl)

def persistedSwap : Codec PersistedSwap :=
  (utxoScript.option.pair ((refund.pair Codec.u64).option.pair (reveal.option.pair
    (attemptState.option.pair attemptState.option)))).iso
    (fun p => ⟨p.1, p.2.1, p.2.2.1, p.2.2.2.1, p.2.2.2.2⟩)
    (fun p => (p.script, p.pendingRefund, p.pendingClaim, p.claimAttempt, p.refundAttempt))
    (fun _ => rfl) (fun _ => rfl)

inductive RecordError
  | decode (e : Error)
  | unknownVersion (version : UInt8)
  | truncated
deriving DecidableEq

def magic : UInt8 := 0x53

def version1 : UInt8 := 1

inductive DecodeOutcome
  | current (swap : PersistedSwap)
  | corrupt (e : RecordError)
deriving DecidableEq

def encode (swap : PersistedSwap) : Except RecordError Bytes :=
  match persistedSwap.encode swap with
  | .ok body => .ok (magic :: version1 :: body)
  | .error e => .error (.decode e)

def decodeVersioned : Bytes → DecodeOutcome
  | [] => .corrupt .truncated
  | version :: body =>
    if version = version1 then
      match persistedSwap.tryFromSlice body with
      | .ok swap => .current swap
      | .error e => .corrupt (.decode e)
    else .corrupt (.unknownVersion version)

/-- Decodes by the magic byte and the version. -/
def decode : Bytes → DecodeOutcome
  | [] => .corrupt .truncated
  | b :: rest => if b = magic then decodeVersioned rest else .corrupt .truncated

/-- A record is read exactly from its own encoding. -/
theorem decode_eq_current {bytes : Bytes} {swap : PersistedSwap} :
    decode bytes = .current swap ↔ encode swap = .ok bytes := by
  constructor
  · intro h
    match bytes with
    | [] => cases h
    | [b] =>
      rw [decode] at h
      split_ifs at h
      cases h
    | b :: version :: body =>
      simp only [decode, decodeVersioned] at h
      split_ifs at h with hmagic hversion
      cases hbody : persistedSwap.tryFromSlice body with
      | error e => simp [hbody] at h
      | ok swap' =>
        simp only [hbody, DecodeOutcome.current.injEq] at h
        subst h
        rw [encode, Codec.tryFromSlice_eq_ok.mp hbody, hmagic, hversion]
  · intro h
    rw [encode] at h
    cases hbody : persistedSwap.encode swap with
    | error e => simp [hbody] at h
    | ok body =>
      simp only [hbody, Except.ok.injEq] at h
      subst h
      simp only [decode, decodeVersioned, if_true, Codec.tryFromSlice_eq_ok.mpr hbody]

/-- The lengths that the format has room for. -/
def Fits (swap : PersistedSwap) : Prop :=
  ∀ s ∈ swap.script, s.redeemScript.length < 2 ^ 32 ∧ (utf8Bytes s.depositTarget).length < 2 ^ 32

/-- Nothing else keeps a record from being written. -/
theorem encode_eq_ok_iff_fits {swap : PersistedSwap} : (∃ b, encode swap = .ok b) ↔ Fits swap := by
  have hencodable : (∃ b, encode swap = .ok b) ↔ persistedSwap.Encodable swap := by
    rw [Codec.Encodable]
    simp only [encode]
    cases persistedSwap.encode swap <;> simp
  rw [hencodable]
  simp [persistedSwap, utxoScript, refund, reveal, attemptState, bytes32, text, Fits]

end Stroemnet.Record
