import Stroemnet.EthereumHtlc
import Stroemnet.Settlement

/-! # From commitments to calls and from logs to events

What an account chain channel sends for a commitment, and how it reads the logs of the
contract back. -/
namespace Stroemnet.Evm

def hexValue (c : Char) : Option ℕ :=
  if '0' ≤ c ∧ c ≤ '9' then some (c.toNat - 0x30)
  else if 'A' ≤ c ∧ c ≤ 'F' then some (c.toNat - 0x37)
  else if 'a' ≤ c ∧ c ≤ 'f' then some (c.toNat - 0x57)
  else none

/-- The forty hexadecimal digits of an address, the most significant one first. -/
def addressDigits (a : Address) : List ℕ :=
  (List.range 40).map fun i => a.toNat / 16 ^ (39 - i) % 16

def digestDigit (h : Bytes32) (i : ℕ) : ℕ :=
  let b := (h.data.getD (i / 2) 0).toNat
  if i % 2 = 0 then b / 16 else b % 16

/-- The checksummed text of an address: a letter is written large where the digest of the
plain text has a digit of at least eight. -/
def toChecksum (keccak256 : Bytes → Bytes32) (a : Address) : String :=
  let digits := addressDigits a
  let hash := keccak256 (digits.map fun n => (hexDigit false n).toNat.toUInt8)
  String.ofList ('0' :: 'x' :: digits.mapIdx fun i n => hexDigit (8 ≤ digestDigit hash i) n)

def parseAddress (s : String) : Option Address :=
  let digits := match s.toList with
    | '0' :: 'x' :: rest => rest
    | cs => cs
  if digits.length = 40 then
    (digits.mapM hexValue).map fun ds => BitVec.ofNat 160 (Nat.ofDigits 16 ds.reverse)
  else none

def isContinuation (b : UInt8) : Bool := b.toNat / 64 = 2

/-- The length of the first sequence of a byte string and whether it is a scalar value; an
ill-formed sequence ends at the first byte that cannot continue it. -/
def scanSequence (b0 : UInt8) (rest : Bytes) : ℕ × Bool :=
  let b1 := rest.getD 0 0
  let b2 := rest.getD 1 0
  let b3 := rest.getD 2 0
  let n := b0.toNat
  let second3 := (n = 0xe0 ∧ 0xa0 ≤ b1.toNat ∧ b1.toNat ≤ 0xbf) ∨
    (((0xe1 ≤ n ∧ n ≤ 0xec) ∨ 0xee ≤ n) ∧ 0x80 ≤ b1.toNat ∧ b1.toNat ≤ 0xbf) ∨
    (n = 0xed ∧ 0x80 ≤ b1.toNat ∧ b1.toNat ≤ 0x9f)
  let second4 := (n = 0xf0 ∧ 0x90 ≤ b1.toNat ∧ b1.toNat ≤ 0xbf) ∨
    ((0xf1 ≤ n ∧ n ≤ 0xf3) ∧ 0x80 ≤ b1.toNat ∧ b1.toNat ≤ 0xbf) ∨
    (n = 0xf4 ∧ 0x80 ≤ b1.toNat ∧ b1.toNat ≤ 0x8f)
  if n < 0x80 then (1, true)
  else if 0xc2 ≤ n ∧ n ≤ 0xdf then if isContinuation b1 then (2, true) else (1, false)
  else if 0xe0 ≤ n ∧ n ≤ 0xef then
    if second3 then if isContinuation b2 then (3, true) else (2, false) else (1, false)
  else if 0xf0 ≤ n ∧ n ≤ 0xf4 then
    if second4 then
      if isContinuation b2 then if isContinuation b3 then (4, true) else (3, false)
      else (2, false)
    else (1, false)
  else (1, false)

/-- The bytes with every ill-formed sequence replaced by the replacement character. -/
def replaceInvalid : ℕ → Bytes → Bytes
  | 0, _ => []
  | _ + 1, [] => []
  | fuel + 1, b0 :: rest =>
    let (n, valid) := scanSequence b0 rest
    (if valid then (b0 :: rest).take n else [0xef, 0xbf, 0xbd]) ++
      replaceInvalid fuel ((b0 :: rest).drop n)

def fromUtf8Lossy (b : Bytes) : String :=
  match stringOfUtf8 b with
  | some s => s
  | none => (stringOfUtf8 (replaceInvalid b.length b)).getD ""

/-- The encoding of the contract's events as logs of the chain: each kind is recognised by
its signature and read back whole. -/
structure LogCodec (RpcLog : Type) where
  ofLog : Log → RpcLog
  commitment : RpcLog → Option NewSwapLog
  claim : RpcLog → Option ClaimLog
  refund : RpcLog → Option Bytes32
  commitment_ofLog : ∀ l, commitment (ofLog l) = match l with
    | .commitment c => some c
    | _ => none
  claim_ofLog : ∀ l, claim (ofLog l) = match l with
    | .claim c => some c
    | _ => none
  refund_ofLog : ∀ l, refund (ofLog l) = match l with
    | .refund id => some id
    | _ => none

/-- A conversion that aborts the task because the value does not fit. -/
inductive Panic
  | uintConversion
deriving DecidableEq

def toU64 (x : Uint256) : Except Panic UInt64 :=
  if x.toNat < 2 ^ 64 then .ok (UInt64.ofNat x.toNat) else .error .uintConversion

variable {RpcLog : Type}

/-- Decodes a log into a chain event. -/
def decodeLog (codec : LogCodec RpcLog) (keccak256 : Bytes → Bytes32) (log : RpcLog)
    (channel : ChannelId) : Except Panic (Option ChainEvent) :=
  match codec.commitment log with
  | some l => do
    let unlockTs ← toU64 l.timelock
    return some (.commitment
      { swapId := l.swapId
        addresses := ⟨toChecksum keccak256 l.sender, toChecksum keccak256 l.receiver,
          fromUtf8Lossy l.senderDestinationAddress⟩
        amount := ⟨toString l.amount.toNat, channel.decimals⟩
        secretHash := l.secretHash
        unlockTs := unlockTs
        source := channel.toByte
        destination := l.destination })
  | none =>
    match codec.claim log with
    | some l => .ok (some (.reveal ⟨l.swapId, l.secret⟩))
    | none =>
      match codec.refund log with
      | some id => .ok (some (.refund ⟨id⟩))
      | none => .ok none

/-- Parses a decimal amount; underscores are passed over and overflow is an error. -/
def parseValue (s : String) : Option Uint256 :=
  match parseDigits (s.toList.filter (· ≠ '_')) 0 with
  | some n => if n < 2 ^ 256 then some (BitVec.ofNat 256 n) else none
  | none => none

def submitCommitment (c : CommitmentV1) : Except DataError Call :=
  match parseAddress c.addresses.sender with
  | none => .error (.broadcast ("sender address " ++ c.addresses.sender))
  | some sender =>
    match parseAddress c.addresses.receiver with
    | none => .error (.broadcast ("receiver address " ++ c.addresses.receiver))
    | some receiver =>
      match parseValue c.amount.value with
      | none => .error (.broadcast ("amount " ++ c.amount.value))
      | some value => .ok (.newSwap value sender receiver
          (utf8Bytes c.addresses.senderDestination) c.secretHash
          (BitVec.ofNat 256 c.unlockTs.toNat) c.destination c.swapId)

end Stroemnet.Evm
