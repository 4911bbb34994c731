import Stroemnet.GossipWire
import Stroemnet.QuoteAgreement
import Stroemnet.SelfDelimiting

/-! # Signed quotes

A liquidity provider signs the digest of all the terms of its quote, and a browser recomputes that
digest from the message it receives. The bytes that are hashed can be split into the terms in one
way only, so a signature for one quote is none for another unless two byte strings collide. -/
namespace Stroemnet.Quotes

open Borsh Gossip

def u64Bytes (n : ℕ) : Bytes := leBytes 8 n

def framedText (s : String) : Bytes := u64Bytes (utf8Bytes s).length ++ utf8Bytes s

def proposalBytes (swapId : SwapId) (origin destination : UInt8)
    (amountIn amountOut senderDestinationAddress lpSenderAddress : String)
    (commitUnlockOffsetSecs lpBlockConfirmations : UInt64) : Bytes :=
  utf8Bytes "stroemnet:proposal:v3" ++ swapId.data ++ [origin, destination] ++
    framedText amountIn ++ framedText amountOut ++ framedText senderDestinationAddress ++
    framedText lpSenderAddress ++ u64Bytes commitUnlockOffsetSecs.toNat ++
    u64Bytes lpBlockConfirmations.toNat

def proposalDigest (sha256 : Bytes → Bytes32) (swapId : SwapId) (origin destination : UInt8)
    (amountIn amountOut senderDestinationAddress lpSenderAddress : String)
    (commitUnlockOffsetSecs lpBlockConfirmations : UInt64) : Bytes32 :=
  sha256 (proposalBytes swapId origin destination amountIn amountOut senderDestinationAddress
    lpSenderAddress commitUnlockOffsetSecs lpBlockConfirmations)

/-- The terms of a quote. The texts are in memory, so that their lengths are numbers of 64 bits. -/
structure Terms where
  swapId : SwapId
  origin : UInt8
  destination : UInt8
  amountIn : String
  amountOut : String
  senderDestinationAddress : String
  lpSenderAddress : String
  commitUnlockOffsetSecs : UInt64
  lpBlockConfirmations : UInt64
  lengths : ∀ s ∈ [amountIn, amountOut, senderDestinationAddress, lpSenderAddress],
    (utf8Bytes s).length < 2 ^ 64

namespace Terms

def bytes (t : Terms) : Bytes :=
  proposalBytes t.swapId t.origin t.destination t.amountIn t.amountOut t.senderDestinationAddress
    t.lpSenderAddress t.commitUnlockOffsetSecs t.lpBlockConfirmations

def digest (sha256 : Bytes → Bytes32) (t : Terms) : Bytes32 :=
  proposalDigest sha256 t.swapId t.origin t.destination t.amountIn t.amountOut
    t.senderDestinationAddress t.lpSenderAddress t.commitUnlockOffsetSecs t.lpBlockConfirmations

def fields (t : Terms) : SwapId × (UInt8 × UInt8) × String × String × String × String ×
    UInt64 × UInt64 :=
  (t.swapId, (t.origin, t.destination), t.amountIn, t.amountOut, t.senderDestinationAddress,
    t.lpSenderAddress, t.commitUnlockOffsetSecs, t.lpBlockConfirmations)

private theorem fields_injective : Function.Injective fields := by
  intro t t' h
  cases t
  cases t'
  simp only [fields, Prod.mk.injEq] at h
  obtain ⟨rfl, ⟨rfl, rfl⟩, rfl, rfl, rfl, rfl, rfl, rfl⟩ := h
  rfl

end Terms

section Bytes

open SelfDelimiting

theorem on_u64Bytes : On {n | n < 2 ^ 64} u64Bytes := by
  apply on_of_length fun n _ => length_leBytes 8 n
  intro m hm n hn heq
  have hvalue : leNat (leBytes 8 m) = leNat (leBytes 8 n) := congrArg leNat heq
  rwa [leNat_leBytes hm, leNat_leBytes hn] at hvalue

theorem on_framedText : On {s | (utf8Bytes s).length < 2 ^ 64} framedText :=
  on_u64Bytes.framed (fun _ hs => hs) utf8Bytes_injective.injOn

theorem on_toNat : On Set.univ fun n : UInt64 => u64Bytes n.toNat :=
  on_u64Bytes.comap (fun _ _ => UInt64.toNat.inj) fun n _ => n.toNat_lt

private theorem on_swapId : On Set.univ Bytes32.data := by
  apply on_of_length fun id _ => id.length_eq
  intro a _ b _ heq
  cases a
  cases b
  cases heq
  rfl

private theorem on_channels : On Set.univ fun p : UInt8 × UInt8 => [p.1, p.2] := by
  refine on_of_length (n := 2) (fun _ _ => rfl) ?_
  rintro ⟨a, b⟩ _ ⟨a', b'⟩ _ heq
  cases heq
  rfl

theorem bytes_injective : Function.Injective Terms.bytes := by
  have hon := on_swapId.append (on_channels.append (on_framedText.append (on_framedText.append
    (on_framedText.append (on_framedText.append (on_toNat.append on_toNat))))))
  have hterms := hon.comap (E := Set.univ) Terms.fields_injective (by
    intro t _
    have hlengths := t.lengths
    simp only [List.forall_mem_cons] at hlengths
    obtain ⟨hin, hout, hsender, hlp, -⟩ := hlengths
    exact ⟨trivial, trivial, hin, hout, hsender, hlp, trivial, trivial⟩)
  intro t t' heq
  apply hterms.injOn (Set.mem_univ t) (Set.mem_univ t')
  simp only [Terms.bytes, proposalBytes, List.append_assoc] at heq
  exact List.append_cancel_left heq

end Bytes

/-- Two quotes with one digest are the same, or their bytes collide. -/
theorem digest_collision (sha256 : Bytes → Bytes32) {t t' : Terms}
    (h : t.digest sha256 = t'.digest sha256) :
    t = t' ∨ t.bytes ≠ t'.bytes ∧ sha256 t.bytes = sha256 t'.bytes := by
  by_cases heq : t.bytes = t'.bytes
  · exact .inl (bytes_injective heq)
  · exact .inr ⟨heq, h⟩

structure ProposalVerification where
  addressMatches : Bool
  balanceSufficient : Bool

/-- What is asked of the channels. Keys, signatures and balances are theirs. -/
structure Sink where
  lpAddress : ChannelId → Except DataError String
  /-- Signs a digest if the signer has the balance, and says who signed. -/
  signMessage : ChannelId → Bytes32 → String → Except DataError (String × Bytes)
  /-- Checks a signature of a claimed address and the balance of that address. -/
  verifyMessage : ChannelId → Bytes32 → String → Bytes → String →
    Except DataError ProposalVerification

inductive CoordinatorError
  | handler (e : HandlerError)
  | data (e : DataError)
  | network (e : StroemnetP2pError)
deriving DecidableEq

structure Coordinator where
  handler : Handler
  blockConfirmations : ChannelId → Option UInt64
  sink : Sink
  /-- The text of an error; it shows amounts in floating point, which are not modelled. -/
  display : HandlerError → String
  /-- What becomes of a message to the peer that asked. -/
  sendTo : Gossip.P2pMsg → Except StroemnetP2pError Unit

def rejectionReason (display : HandlerError → String) (e : HandlerError) : Option String :=
  match e with
  | .tradeTooSmall _ => some (display e)
  | .tradeTooLarge _ => some (display e)
  | _ => none

structure Signing where
  channel : ChannelId
  digest : Bytes32
  requiredBalance : String
deriving DecidableEq

/-- What is done for a request: what is signed, what is sent, and how it ends. -/
structure ProposalRun where
  signed : Option Signing
  sent : Option Gossip.P2pMsg
  result : Except CoordinatorError Unit

structure Verifying where
  channel : ChannelId
  digest : Bytes32
  claimedAddress : String
  signature : Bytes
  requiredBalance : String
deriving DecidableEq

/-- A quote as the user sees it: origin and destination are those of the user's own leg. -/
structure CheckedQuote where
  swapId : SwapId
  origin : UInt8
  destination : UInt8
  amountIn : String
  amountOut : String
  senderDestinationAddress : String
  commitUnlockOffsetSecs : UInt64
  lpSenderAddress : String
  lpSignature : Bytes
  lpBlockConfirmations : UInt64
  signatureValid : Bool
  balanceSufficient : Bool

namespace Coordinator

variable {c receiver : Coordinator} {sha256 : Bytes → Bytes32} {req : ProposalRequest}
  {r : ProposalResponse}

def knowsChannel (c : Coordinator) (id : ChannelId) : Bool := (c.blockConfirmations id).isSome

/-- Handles an incoming proposal request. -/
def handleProposal (c : Coordinator) (sha256 : Bytes → Bytes32) (req : ProposalRequest) :
    ProposalRun :=
  match c.handler.createProposal ⟨req.origin, req.destination, req.amount⟩ with
  | .error e =>
    match rejectionReason c.display e with
    | some reason =>
      let rejection := .proposalError ⟨req.swapId, req.origin, req.destination, reason⟩
      ⟨none, some rejection, (c.sendTo rejection).mapError .network⟩
    | none => ⟨none, none, .error (.handler e)⟩
  | .ok proposal =>
    let originU8 := proposal.origin.toByte
    let destinationU8 := proposal.destination.toByte
    let lpBlockConfirmations := (c.blockConfirmations proposal.destination).getD 0
    match c.sink.lpAddress proposal.origin with
    | .error e => ⟨none, none, .error (.data e)⟩
    | .ok lpSenderAddress =>
      let digest := proposalDigest sha256 req.swapId originU8 destinationU8 proposal.amountIn
        proposal.amountOut proposal.senderDestinationAddress lpSenderAddress
        proposal.commitUnlockOffsetSecs lpBlockConfirmations
      let signing := ⟨proposal.origin, digest, proposal.amountIn⟩
      match c.sink.signMessage proposal.origin digest proposal.amountIn with
      | .error e => ⟨some signing, none, .error (.data e)⟩
      | .ok (_, lpSignature) =>
        let resp := .proposalResponse {
          swapId := req.swapId
          origin := originU8
          destination := destinationU8
          amountIn := proposal.amountIn
          amountOut := proposal.amountOut
          senderDestinationAddress := proposal.senderDestinationAddress
          commitUnlockOffsetSecs := proposal.commitUnlockOffsetSecs
          lpSenderAddress := lpSenderAddress
          lpSignature := lpSignature
          lpBlockConfirmations := lpBlockConfirmations
          extraData := [] }
        ⟨some signing, some resp, (c.sendTo resp).mapError .network⟩

/-- Reacts to a response as a browser does: what is verified, and the quote that comes of it. A
response for unknown channels is dropped. -/
def onProposalResponse (c : Coordinator) (sha256 : Bytes → Bytes32) (r : ProposalResponse) :
    Option (Verifying × CheckedQuote) :=
  match ChannelId.ofByte r.origin, ChannelId.ofByte r.destination with
  | some o, some d =>
    if c.knowsChannel o && c.knowsChannel d then
      let digest := proposalDigest sha256 r.swapId r.origin r.destination r.amountIn r.amountOut
        r.senderDestinationAddress r.lpSenderAddress r.commitUnlockOffsetSecs
        r.lpBlockConfirmations
      let (signatureValid, balanceSufficient) :=
        match c.sink.verifyMessage o digest r.lpSenderAddress r.lpSignature r.amountIn with
        | .ok v => (v.addressMatches, v.balanceSufficient)
        | .error _ => (false, false)
      some (⟨o, digest, r.lpSenderAddress, r.lpSignature, r.amountIn⟩,
        { swapId := r.swapId
          origin := r.destination
          destination := r.origin
          amountIn := r.amountOut
          amountOut := r.amountIn
          senderDestinationAddress := r.senderDestinationAddress
          commitUnlockOffsetSecs := r.commitUnlockOffsetSecs
          lpSenderAddress := r.lpSenderAddress
          lpSignature := r.lpSignature
          lpBlockConfirmations := r.lpBlockConfirmations
          signatureValid := signatureValid
          balanceSufficient := balanceSufficient })
    else none
  | _, _ => none

theorem signed_of_sent (h : (c.handleProposal sha256 req).sent = some (.proposalResponse r)) :
    ∃ origin destination : ChannelId, r.origin = origin.toByte ∧
      r.destination = destination.toByte ∧
      (c.handleProposal sha256 req).signed = some ⟨origin,
        proposalDigest sha256 r.swapId r.origin r.destination r.amountIn r.amountOut
          r.senderDestinationAddress r.lpSenderAddress r.commitUnlockOffsetSecs
          r.lpBlockConfirmations, r.amountIn⟩ := by
  unfold handleProposal at h ⊢
  cases hproposal : c.handler.createProposal ⟨req.origin, req.destination, req.amount⟩ with
  | error e =>
    rw [hproposal] at h
    simp only at h
    cases hreason : rejectionReason c.display e with
    | none => simp [hreason] at h
    | some reason => simp [hreason] at h
  | ok proposal =>
    rw [hproposal] at h
    simp only at h ⊢
    cases haddress : c.sink.lpAddress proposal.origin with
    | error e => simp [haddress] at h
    | ok lpSenderAddress =>
      simp only [haddress] at h ⊢
      cases hsign : c.sink.signMessage proposal.origin (proposalDigest sha256 req.swapId
          proposal.origin.toByte proposal.destination.toByte proposal.amountIn proposal.amountOut
          proposal.senderDestinationAddress lpSenderAddress proposal.commitUnlockOffsetSecs
          ((c.blockConfirmations proposal.destination).getD 0)) proposal.amountIn with
      | error e => simp [hsign] at h
      | ok signature =>
        simp only [hsign, Option.some.injEq, Gossip.P2pMsg.proposalResponse.injEq] at h ⊢
        subst h
        exact ⟨proposal.origin, proposal.destination, rfl, rfl, rfl⟩

private theorem onProposalResponse_eq_some {origin destination : ChannelId}
    (horigin : r.origin = origin.toByte) (hdestination : r.destination = destination.toByte)
    (hknows : receiver.knowsChannel origin) (hknows' : receiver.knowsChannel destination) :
    ∃ quote, receiver.onProposalResponse sha256 r = some (⟨origin,
      proposalDigest sha256 r.swapId r.origin r.destination r.amountIn r.amountOut
        r.senderDestinationAddress r.lpSenderAddress r.commitUnlockOffsetSecs
        r.lpBlockConfirmations, r.lpSenderAddress, r.lpSignature, r.amountIn⟩, quote) := by
  have ho : ChannelId.ofByte r.origin = some origin := by
    rw [horigin, ChannelId.ofByte_toByte]
  have hd : ChannelId.ofByte r.destination = some destination := by
    rw [hdestination, ChannelId.ofByte_toByte]
  simp only [onProposalResponse, ho, hd, hknows, hknows', Bool.and_self, if_true]
  exact ⟨_, rfl⟩

/-- The bytes of a quote determine its terms, equal digests of different quotes are a collision,
and a browser checks the signature of a response against the digest that was signed. -/
theorem quotes_bind_every_field (sha256 : Bytes → Bytes32) :
    (∀ t t' : Terms, t.bytes = t'.bytes → t = t') ∧
    (∀ t t' : Terms, t.digest sha256 = t'.digest sha256 →
      t = t' ∨ t.bytes ≠ t'.bytes ∧ sha256 t.bytes = sha256 t'.bytes) ∧
    ∀ (c : Coordinator) (req : ProposalRequest) (r : ProposalResponse),
      (c.handleProposal sha256 req).sent = some (.proposalResponse r) →
      ∃ (s : Signing) (destination : ChannelId),
        (c.handleProposal sha256 req).signed = some s ∧ r.origin = s.channel.toByte ∧
        r.destination = destination.toByte ∧
        ∀ b r', encode (.proposalResponse r) = .ok b → decode b = .ok (.proposalResponse r') →
          ∀ receiver : Coordinator, receiver.knowsChannel s.channel →
            receiver.knowsChannel destination →
            ∃ quote, receiver.onProposalResponse sha256 r' = some
              (⟨s.channel, s.digest, r.lpSenderAddress, r.lpSignature, s.requiredBalance⟩,
                quote) := by
  refine ⟨fun t t' h => bytes_injective h, fun t t' h => digest_collision sha256 h, ?_⟩
  intro c req r hsent
  obtain ⟨origin, destination, horigin, hdestination, hsigned⟩ := signed_of_sent hsent
  refine ⟨_, destination, hsigned, horigin, hdestination, ?_⟩
  intro b r' hencode hdecode receiver hknows hknows'
  obtain ⟨hencode', -⟩ := decode_eq_ok.mp hdecode
  have hsame := p2pMsg.encode_injective (encode_eq_ok.mp hencode) (encode_eq_ok.mp hencode')
  obtain rfl := Gossip.P2pMsg.proposalResponse.inj hsame
  exact onProposalResponse_eq_some horigin hdestination hknows hknows'

/-- A provider whose signature is the digest itself, and browsers that accept exactly that. -/
def sampleCoordinator : Coordinator where
  handler := sampleNode.handler
  blockConfirmations _ := some 12
  sink :=
    { lpAddress := fun _ => .ok providerAddress
      signMessage := fun _ digest _ => .ok (providerAddress, digest.data)
      verifyMessage := fun _ digest address signature _ =>
        .ok ⟨address = providerAddress ∧ signature = digest.data, true⟩ }
  display _ := "below minimum"
  sendTo _ := .ok ()

def sampleProposalRequest : ProposalRequest := ⟨.filled 3, 1, 2, "2000", []⟩

def sampleResponse : ProposalResponse where
  swapId := .filled 3
  origin := 2
  destination := 1
  amountIn := "1000"
  amountOut := "2000"
  senderDestinationAddress := providerAddress
  commitUnlockOffsetSecs := 7260
  lpSenderAddress := providerAddress
  lpSignature := (default : Bytes32).data
  lpBlockConfirmations := 12
  extraData := []

def sampleTerms : Terms where
  swapId := .filled 3
  origin := 2
  destination := 1
  amountIn := "1000"
  amountOut := "2000"
  senderDestinationAddress := providerAddress
  lpSenderAddress := providerAddress
  commitUnlockOffsetSecs := 7260
  lpBlockConfirmations := 12
  lengths := by decide +kernel

theorem quotes_bind_every_field_sample :
    (∀ t : Terms, t.bytes = sampleTerms.bytes → t = sampleTerms) ∧
    ∃ (s : Signing) (destination : ChannelId),
      (sampleCoordinator.handleProposal sampleSha256 sampleProposalRequest).signed = some s ∧
      sampleResponse.origin = s.channel.toByte ∧
      sampleResponse.destination = destination.toByte ∧
      ∃ quote, sampleCoordinator.onProposalResponse sampleSha256 sampleResponse = some
        (⟨s.channel, s.digest, providerAddress, sampleResponse.lpSignature, s.requiredBalance⟩,
          quote) := by
  obtain ⟨hbytes, -, hresponse⟩ := quotes_bind_every_field sampleSha256
  obtain ⟨s, destination, hsigned, horigin, hdestination, hreceived⟩ :=
    hresponse sampleCoordinator sampleProposalRequest sampleResponse (by decide +kernel)
  obtain ⟨b, hencode, hdecode⟩ : ∃ b, encode (.proposalResponse sampleResponse) = .ok b ∧
      decode b = .ok (.proposalResponse sampleResponse) := by
    refine ⟨((encode (.proposalResponse sampleResponse)).toOption.getD []), ?_, ?_⟩
    · decide +kernel
    · decide +kernel
  exact ⟨fun t => hbytes t sampleTerms, s, destination, hsigned, horigin, hdestination,
    hreceived b sampleResponse hencode hdecode sampleCoordinator rfl rfl⟩

end Coordinator

end Stroemnet.Quotes
