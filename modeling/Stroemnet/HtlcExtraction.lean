import Stroemnet.KaspaAddresses

/-! # Reading a swap back from its scripts

The parsers that turn the opcodes of a redeem script into a commitment and those of a
signature script into the secret it reveals, with all their error paths. -/
namespace Stroemnet.Kaspa
open Script Numbers Htlc

inductive DataType
  | opcode | secretHash | swapId | receiverSpk | senderSpk | timelock | senderReceiverAddress
  | destination
deriving DecidableEq

inductive KaspaError
  | txScript (e : TxScriptError)
  | tooManyOpcodes
  | opcodeMismatch (position : ℕ)
  | missingData (t : DataType)
  | invalidSecretHashLength
  | invalidSwapIdLength
  | invalidSigScriptLength (expected got : ℕ)
  | wrongBranchSelector (expected got : UInt8)
  | missingSecret
  | missingRedeemScript
  | invalidSecretLength
  | fromUtf8
  | scriptBuilder (e : ScriptBuilderError)
  | addressParse (text : String)
  | scriptAnnounceAddressMismatch (announced derived : String)
  | scriptAnnounceSwapIdMismatch (script announced : SwapId)
  | scriptAnnounceTimelockMismatch (scriptSecs announcedSecs : UInt64)
  | rpc (text : String)
  | htlcUtxoNotFound (id : SwapId)
  | noUtxos
  | insufficientFunds (needed available : UInt64)
  | other (text : String)
deriving DecidableEq

inductive ExpectedOpCode
  | opCode (value : UInt8)
  | data
deriving DecidableEq

def code (v : UInt8) : ExpectedOpCode × DataType := (.opCode v, .opcode)

def hole (label : DataType) : ExpectedOpCode × DataType := (.data, label)

/-- The checks of the spending transaction, in which only the payee is labelled. -/
def expectedPayout (payee : DataType) : List (ExpectedOpCode × DataType) :=
  [code opTxInputCount, hole .opcode, code opNumEqualVerify,
    code opTxOutputCount, hole .opcode, code opNumEqualVerify,
    hole payee, hole .opcode, code opTxOutputSpk, code opEqualVerify,
    hole .opcode, code opTxOutputAmount,
    code opTxInputIndex, code opTxInputAmount, hole .opcode, code opSub,
    code opGreaterThanOrEqual]

def expectedOpcodes : List (ExpectedOpCode × DataType) :=
  [code opIf, code opSha256, hole .secretHash, code opEqualVerify] ++
    expectedPayout .receiverSpk ++
  [code opElse, hole .timelock, code opCheckLockTimeVerify] ++ expectedPayout .senderSpk ++
  [code opEndIf, code opFalse, code opIf, hole .swapId, hole .senderReceiverAddress,
    hole .destination, code opEndIf]

/-- Small data is pushed by an opcode of its own, whose value carries it. -/
def valueToBytes (v : UInt8) : Bytes :=
  if v = 0 then [0]
  else if 0x51 ≤ v.toNat ∧ v.toNat ≤ 0x60 then [v - 0x50]
  else []

def extractOpcodeData (o : Opcode) : Bytes :=
  if o.data ≠ [] then o.data else valueToBytes o.value

abbrev ScriptData := DataType → Option Bytes

def collectLoop : ℕ → List (ExpectedOpCode × DataType) → List Opcode → ScriptData →
    Except KaspaError ScriptData
  | _, _, [], found => .ok found
  | _, [], _ :: _, _ => .error .tooManyOpcodes
  | i, (.opCode v, _) :: expected, o :: script, found =>
    if o.value = v then collectLoop (i + 1) expected script found
    else .error (.opcodeMismatch i)
  | i, (.data, label) :: expected, o :: script, found =>
    collectLoop (i + 1) expected script
      (if label = .opcode then found
        else Function.update found label (some (extractOpcodeData o)))

def collectData (script : List Opcode) : Except KaspaError ScriptData :=
  if script.length ≠ expectedOpcodes.length then .error .tooManyOpcodes
  else collectLoop 0 expectedOpcodes script fun _ => none

/-- Decodes a number of at most eight bytes; longer data is cut off. -/
def decodeU64FromScript (b : Bytes) : UInt64 := UInt64.ofNat (leNat (b.take 8))

/-- The public key script with its version, most significant byte first. -/
def spkFromBytes : Bytes → Except KaspaError ScriptPublicKey
  | v0 :: v1 :: script => .ok ⟨UInt16.ofNat (leNat [v1, v0]), script⟩
  | b => .error (.invalidSigScriptLength 2 b.length)

def ScriptData.nonEmpty (found : ScriptData) (t : DataType) : Except KaspaError Bytes :=
  match found t with
  | some b => if b = [] then .error (.missingData t) else .ok b
  | none => .error (.missingData t)

def ScriptData.bytes32 (found : ScriptData) (t : DataType) (e : KaspaError) :
    Except KaspaError Bytes32 :=
  match found t with
  | none => .error (.missingData t)
  | some b => match Bytes32.ofBytes b with
    | some d => .ok d
    | none => .error e

def ScriptData.firstByte (found : ScriptData) (t : DataType) : Except KaspaError UInt8 :=
  match found t with
  | some (b :: _) => .ok b
  | _ => .error (.missingData t)

def addressOfSpk (codec : AddressCodec) (network : Network) (spk : Bytes) :
    Except KaspaError String := do
  let k ← spkFromBytes spk
  match extractScriptPubKeyAddress k network with
  | .ok a => .ok (codec.toString a)
  | .error e => .error (.txScript e)

/-- Extract a htlc v1 commitment from the script. -/
def extractCommitment (codec : AddressCodec) (script : List Opcode) (amount : String)
    (network : Network) (sourceChannelId : ChannelId) : Except KaspaError CommitmentV1 := do
  let found ← collectData script
  let swapId ← found.bytes32 .swapId .invalidSwapIdLength
  let sender ← found.nonEmpty .senderSpk
  let receiver ← found.nonEmpty .receiverSpk
  let secretHash ← found.bytes32 .secretHash .invalidSecretHashLength
  let timelock ← found.nonEmpty .timelock
  let unlockTs := decodeU64FromScript timelock / 1000
  let senderDestination ← found.nonEmpty .senderReceiverAddress
  let destination ← found.firstByte .destination
  let senderAddress ← addressOfSpk codec network sender
  let receiverAddress ← addressOfSpk codec network receiver
  match stringOfUtf8 senderDestination with
  | none => .error .fromUtf8
  | some text =>
    return { swapId := swapId
             addresses := ⟨senderAddress, receiverAddress, text⟩
             amount := ⟨amount, 8⟩
             secretHash := secretHash
             unlockTs := unlockTs
             source := sourceChannelId.toByte
             destination := destination }

def extractRevealSecret : List Opcode → Except KaspaError Bytes32
  | [secretOp, selectorOp, redeemOp] =>
    if selectorOp.value ≠ opTrue then .error (.wrongBranchSelector opTrue selectorOp.value)
    else if extractOpcodeData secretOp = [] then .error .missingSecret
    else match Bytes32.ofBytes (extractOpcodeData secretOp) with
      | none => .error .invalidSecretLength
      | some secret =>
        if extractOpcodeData redeemOp = [] then .error .missingRedeemScript else .ok secret
  | script => .error (.invalidSigScriptLength 3 script.length)

/-- Validate that a signature script takes the refund branch of a swap. -/
def validateRefundSig : List Opcode → Except KaspaError Unit
  | [selectorOp, redeemOp] =>
    if selectorOp.value ≠ opFalse then .error (.wrongBranchSelector opFalse selectorOp.value)
    else if extractOpcodeData redeemOp = [] then .error .missingRedeemScript
    else .ok ()
  | script => .error (.invalidSigScriptLength 2 script.length)

def spkToVec (k : ScriptPublicKey) : Bytes := k.toBytes

def parseAddress (codec : AddressCodec) (role text : String) : Except KaspaError Address :=
  match codec.tryFrom text with
  | .ok a => .ok a
  | .error e => .error (.other (role ++ " address: " ++ e))

def networkOf (networkId : String) : Except KaspaError Network :=
  match parseNetworkPrefix networkId with
  | some n => .ok n
  | none => .error (.other ("unknown kaspa network id: " ++ networkId))

/-- The script hash address of a redeem script; the text opens the message of a failure. -/
def p2shAddress (codec : AddressCodec) (blake2b : Bytes → Bytes32) (network : Network)
    (redeem : Bytes) (text : String) : Except KaspaError String :=
  match extractScriptPubKeyAddress ⟨0, payToScriptHashScript (blake2b redeem)⟩ network with
  | .ok a => .ok (codec.toString a)
  | .error _ => .error (.other (text ++ ": PubKeyFormat"))

def saturatingMul (a b : UInt64) : UInt64 :=
  UInt64.ofNat (min (a.toNat * b.toNat) (2 ^ 64 - 1))

/-- The parameters with which the script of a commitment is built. -/
def htlcParams (senderAddr receiverAddr : Address) (c : CommitmentV1) : HtlcParams where
  senderSpk := spkToVec (payToAddressScript senderAddr)
  senderReceiverAddress := utf8Bytes c.addresses.senderDestination
  receiverSpk := spkToVec (payToAddressScript receiverAddr)
  secretHash := c.secretHash.data
  timelock := saturatingMul c.unlockTs 1000
  destination := c.destination
  swapId := c.swapId

def buildHtlc (p : HtlcParams) : Except KaspaError Bytes :=
  match createHtlcScript p with
  | .ok redeem => .ok redeem
  | .error e => .error (.scriptBuilder e)

/-- Compute the p2sh address and redeem script from a network id and commitment. -/
def p2shComponents (codec : AddressCodec) (blake2b : Bytes → Bytes32) (networkId : String)
    (c : CommitmentV1) : Except KaspaError (String × Bytes) := do
  let network ← networkOf networkId
  let senderAddr ← parseAddress codec "sender" c.addresses.sender
  let receiverAddr ← parseAddress codec "receiver" c.addresses.receiver
  let redeem ← buildHtlc (htlcParams senderAddr receiverAddr c)
  let address ← p2shAddress codec blake2b network redeem "p2sh address derive"
  return (address, redeem)

def parseOpcodes (script : Bytes) : Except KaspaError (List Opcode) :=
  match parseScript script with
  | .ok ops => .ok ops
  | .error e => .error (.txScript e)

/-- Validate that an announced script matches the redeem script. -/
def validateScriptAnnounce (codec : AddressCodec) (blake2b : Bytes → Bytes32) (networkId : String)
    (channelId : ChannelId) (announcedAddress : String) (redeem : Bytes) (expectedSwapId : SwapId)
    (expectedExpirationSecs : UInt64) : Except KaspaError Unit := do
  let network ← networkOf networkId
  let ops ← parseOpcodes redeem
  let extracted ← extractCommitment codec ops "0" network channelId
  if extracted.swapId ≠ expectedSwapId then
    .error (.scriptAnnounceSwapIdMismatch extracted.swapId expectedSwapId)
  else if extracted.unlockTs ≠ expectedExpirationSecs then
    .error (.scriptAnnounceTimelockMismatch extracted.unlockTs expectedExpirationSecs)
  else do
    let derived ← p2shAddress codec blake2b network redeem "p2sh derive"
    if derived ≠ announcedAddress then
      .error (.scriptAnnounceAddressMismatch announcedAddress derived)
    else .ok ()

end Stroemnet.Kaspa
