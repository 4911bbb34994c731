import Stroemnet.ByteStrings

/-! # The vocabulary of a swap

Channels, commitments and the events that chains report about them, version one, and the messages
that nodes send each other. -/
namespace Stroemnet

inductive ChannelId
  | kaspaTn10 | ethereumSepolia | igraGalleon
deriving DecidableEq

namespace ChannelId

def all : List ChannelId := [kaspaTn10, ethereumSepolia, igraGalleon]

/-- The byte that stands for a channel on the wire. -/
def toByte : ChannelId → UInt8
  | kaspaTn10 => 0
  | ethereumSepolia => 1
  | igraGalleon => 2

def ofByte (b : UInt8) : Option ChannelId := all.find? (·.toByte = b)

@[simp] theorem ofByte_toByte (c : ChannelId) : ofByte c.toByte = some c := by
  cases c <;> decide

theorem toByte_of_ofByte {b : UInt8} {c : ChannelId} (h : ofByte b = some c) : b = c.toByte := by
  have hc := List.find?_some h
  exact (of_decide_eq_true hc).symm

theorem toByte_injective : Function.Injective toByte := by
  intro a b h
  have hab := congrArg ofByte h
  simpa using hab

def decimals : ChannelId → UInt8
  | kaspaTn10 => 8
  | ethereumSepolia => 18
  | igraGalleon => 18

def lockTimeSecs : ChannelId → ℕ
  | kaspaTn10 => 180
  | ethereumSepolia => 15 * 60
  | igraGalleon => 3600

def usesSyntheticClock : ChannelId → Bool
  | igraGalleon => true
  | _ => false

def isEvm : ChannelId → Bool
  | kaspaTn10 => false
  | _ => true

theorem eq_kaspaTn10_of_not_isEvm {c : ChannelId} (h : ¬ c.isEvm) : c = kaspaTn10 := by
  cases c with
  | kaspaTn10 => rfl
  | ethereumSepolia => exact absurd rfl h
  | igraGalleon => exact absurd rfl h

end ChannelId

abbrev SwapId := Bytes32

structure AddressesV1 where
  sender : String
  receiver : String
  senderDestination : String
deriving DecidableEq

structure AmountV1 where
  value : String
  decimals : UInt8
deriving DecidableEq

structure CommitmentV1 where
  swapId : SwapId
  addresses : AddressesV1
  amount : AmountV1
  secretHash : Bytes32
  unlockTs : UInt64
  source : UInt8
  destination : UInt8
deriving DecidableEq

structure RevealV1 where
  swapId : SwapId
  secret : Bytes32
deriving DecidableEq

structure RefundV1 where
  swapId : SwapId
deriving DecidableEq

inductive ChainEvent
  | commitment (c : CommitmentV1)
  | reveal (r : RevealV1)
  | refund (r : RefundV1)
deriving DecidableEq

def ChainEvent.swapId : ChainEvent → SwapId
  | commitment c => c.swapId
  | reveal r => r.swapId
  | refund r => r.swapId

def utf8Bytes (s : String) : Bytes := s.toByteArray.data.toList

/-- Decodes text; bytes that are not valid UTF-8 are refused. -/
def stringOfUtf8 (b : Bytes) : Option String := String.fromUTF8? ⟨b.toArray⟩

theorem utf8Bytes_injective : Function.Injective utf8Bytes := by
  intro a b h
  have hbytes : a.toByteArray = b.toByteArray := ByteArray.ext (Array.toList_inj.mp h)
  exact String.toByteArray_inj.mp hbytes

theorem stringOfUtf8_eq_some {b : Bytes} {s : String} :
    stringOfUtf8 b = some s ↔ utf8Bytes s = b := by
  unfold stringOfUtf8 String.fromUTF8?
  constructor
  · intro h
    split_ifs at h with hvalid
    cases h
    rfl
  · rintro rfl
    have hvalid : ByteArray.IsValidUTF8 ⟨(utf8Bytes s).toArray⟩ := by
      simpa [utf8Bytes] using s.isValidUTF8
    rw [dif_pos hvalid, Option.some.injEq]
    apply utf8Bytes_injective
    rfl

def hexDigit (upper : Bool) (n : ℕ) : Char :=
  if n < 10 then Char.ofNat (0x30 + n)
  else if upper then Char.ofNat (0x37 + n)
  else Char.ofNat (0x57 + n)

/-- Two digits for each byte, in small letters. -/
def hexEncode (b : Bytes) : String :=
  String.ofList (b.flatMap fun x => [hexDigit false (x.toNat / 16), hexDigit false (x.toNat % 16)])

theorem length_hexEncode (b : Bytes) : (hexEncode b).toList.length = 2 * b.length := by
  simp [hexEncode, Nat.mul_comm]

def digitValue (c : Char) : Option ℕ :=
  if '0'.toNat ≤ c.toNat ∧ c.toNat ≤ '9'.toNat then some (c.toNat - '0'.toNat) else none

def parseDigits : List Char → ℕ → Option ℕ
  | [], acc => some acc
  | c :: cs, acc => do
    let d ← digitValue c
    parseDigits cs (acc * 10 + d)

/-- Parses an unsigned number below `bound`: an optional plus sign and at least one digit. -/
def parseUnsigned (bound : ℕ) (s : String) : Option ℕ :=
  let digits := match s.toList with
    | '+' :: rest => rest
    | cs => cs
  if digits = [] then none
  else match parseDigits digits 0 with
    | some n => if n < bound then some n else none
    | none => none

/-- An amount is large enough only in the same unit and when both sides are numbers. -/
def AmountV1.atLeast (have_ required : AmountV1) : Bool :=
  have_.decimals = required.decimals &&
    match parseUnsigned (2 ^ 128) have_.value, parseUnsigned (2 ^ 128) required.value with
    | some h, some n => n ≤ h
    | _, _ => false

structure ScriptAnnounce where
  address : String
  swapId : SwapId
  redeemScript : Bytes
  unlockTs : UInt64
  depositTarget : String
deriving DecidableEq

namespace Gossip

structure PeerAddr where
  url : String
  lastSeen : UInt64
deriving DecidableEq

structure NodeState where
  nodeId : Bytes32
  listenAddr : Option String
  peers : List PeerAddr
deriving DecidableEq

structure ProposalRequest where
  swapId : SwapId
  origin : UInt8
  destination : UInt8
  amount : String
  extraData : Bytes
deriving DecidableEq

structure ProposalResponse where
  swapId : SwapId
  origin : UInt8
  destination : UInt8
  amountIn : String
  amountOut : String
  senderDestinationAddress : String
  commitUnlockOffsetSecs : UInt64
  lpSenderAddress : String
  lpSignature : Bytes
  lpBlockConfirmations : UInt64
  extraData : Bytes
deriving DecidableEq

structure ProposalError where
  swapId : SwapId
  origin : UInt8
  destination : UInt8
  reason : String
deriving DecidableEq

inductive P2pMsg
  | state (s : NodeState)
  | proposalRequest (r : ProposalRequest)
  | proposalResponse (r : ProposalResponse)
  | reveal (r : RevealV1)
  | scriptAnnounce (s : ScriptAnnounce)
  | proposalError (e : ProposalError)
deriving DecidableEq

end Gossip

end Stroemnet
