import Stroemnet.HtlcScript
import Stroemnet.SwapProtocol

/-! # Kaspa addresses and the scripts they stand for

Rendering and parsing an address is left to a codec; what an address pays to, and which
address a script pays, is explicit. -/
namespace Stroemnet.Kaspa
open Script Numbers

/-- The networks an address can belong to. -/
inductive Network
  | mainnet | testnet | simnet | devnet
deriving DecidableEq

inductive Version
  | pubKey | pubKeyEcdsa | scriptHash
deriving DecidableEq

def Version.payloadLength : Version → ℕ
  | pubKey => 32
  | pubKeyEcdsa => 33
  | scriptHash => 32

structure Address where
  network : Network
  version : Version
  payload : Bytes
  length_eq : payload.length = version.payloadLength
deriving DecidableEq

/-- The textual form of addresses: every rendered address is read back. -/
structure AddressCodec where
  toString : Address → String
  tryFrom : String → Except String Address
  tryFrom_toString : ∀ a, tryFrom (toString a) = .ok a

/-- What stands before and after the payload in the script of a version. -/
def Version.opening : Version → Bytes
  | pubKey => [0x20]
  | pubKeyEcdsa => [0x21]
  | scriptHash => [0xaa, 0x20]

def Version.closing : Version → Bytes
  | pubKey => [0xac]
  | pubKeyEcdsa => [0xab]
  | scriptHash => [0x87]

def payToAddressScript (a : Address) : ScriptPublicKey :=
  ⟨0, a.version.opening ++ (a.payload ++ a.version.closing)⟩

def addressOfVersion (network : Network) (script : Bytes) (v : Version) : Option Address :=
  let payload := (script.drop v.opening.length).take v.payloadLength
  if h : payload.length = v.payloadLength ∧ script = v.opening ++ (payload ++ v.closing) then
    some ⟨network, v, payload, h.1⟩
  else none

/-- The address a script pays; scripts of any other form have none. -/
def extractScriptPubKeyAddress (k : ScriptPublicKey) (network : Network) :
    Except TxScriptError Address :=
  if k.version ≠ 0 then .error .pubKeyFormat
  else match [Version.pubKey, .pubKeyEcdsa, .scriptHash].findSome?
      (addressOfVersion network k.script) with
    | some a => .ok a
    | none => .error .pubKeyFormat

theorem addressOfVersion_eq_some {network : Network} {v : Version} {script : Bytes} {a : Address} :
    addressOfVersion network script v = some a ↔
      a.network = network ∧ a.version = v ∧ script = v.opening ++ (a.payload ++ v.closing) := by
  unfold addressOfVersion
  constructor
  · intro h
    simp only at h
    split_ifs at h with hform
    cases h
    exact ⟨rfl, rfl, hform.2⟩
  · obtain ⟨n, w, payload, hlen⟩ := a
    rintro ⟨rfl, rfl, rfl⟩
    have htake : ((w.opening ++ (payload ++ w.closing)).drop w.opening.length).take
        w.payloadLength = payload := by
      rw [List.drop_left, ← hlen, List.take_left]
    simp only [htake]
    rw [dif_pos ⟨hlen, trivial⟩]

private theorem addressOfVersion_eq_none {network : Network} {v w : Version} {rest : Bytes}
    (h : v ≠ w) : addressOfVersion network (w.opening ++ rest) v = none := by
  rw [Option.eq_none_iff_forall_ne_some]
  intro a ha
  obtain ⟨-, -, hscript⟩ := addressOfVersion_eq_some.mp ha
  cases v <;> cases w <;> simp [Version.opening] at hscript <;> exact h rfl

theorem extractScriptPubKeyAddress_eq_ok {k : ScriptPublicKey} {network : Network} {a : Address} :
    extractScriptPubKeyAddress k network = .ok a ↔
      a.network = network ∧ payToAddressScript a = k := by
  obtain ⟨version, script⟩ := k
  unfold extractScriptPubKeyAddress payToAddressScript
  constructor
  · intro h
    split_ifs at h with hversion
    split at h
    case h_1 a' hfound =>
      cases h
      obtain ⟨v, -, hv⟩ := List.exists_of_findSome?_eq_some hfound
      obtain ⟨hnetwork, rfl, hscript⟩ := addressOfVersion_eq_some.mp hv
      simp only [ne_eq, not_not] at hversion hscript
      exact ⟨hnetwork, by rw [hscript, hversion]⟩
    case h_2 => cases h
  · rintro ⟨hnetwork, hpay⟩
    cases hpay
    have hown : addressOfVersion network (a.version.opening ++ (a.payload ++ a.version.closing))
        a.version = some a := addressOfVersion_eq_some.mpr ⟨hnetwork, rfl, rfl⟩
    simp only [ne_eq, not_true, if_false, List.findSome?]
    cases hv : a.version <;> rw [hv] at hown <;> simp [addressOfVersion_eq_none, hown]

theorem extractScriptPubKeyAddress_payToAddressScript (a : Address) :
    extractScriptPubKeyAddress (payToAddressScript a) a.network = .ok a :=
  extractScriptPubKeyAddress_eq_ok.mpr ⟨rfl, rfl⟩

def scriptHashAddress (network : Network) (digest : Bytes32) : Address :=
  ⟨network, .scriptHash, digest.data, digest.length_eq⟩

theorem payToAddressScript_scriptHash (network : Network) (digest : Bytes32) :
    payToAddressScript (scriptHashAddress network digest) = ⟨0, payToScriptHashScript digest⟩ := rfl

theorem payToAddressScript_injective {a b : Address} (hnetwork : a.network = b.network)
    (h : payToAddressScript a = payToAddressScript b) : a = b := by
  have ha := extractScriptPubKeyAddress_payToAddressScript a
  rw [h, hnetwork, extractScriptPubKeyAddress_payToAddressScript b, Except.ok.injEq] at ha
  exact ha.symm

def parseNetworkPrefix (networkId : String) : Option Network :=
  if "mainnet".toList.isPrefixOf networkId.toList then some .mainnet
  else if "testnet".toList.isPrefixOf networkId.toList then some .testnet
  else if "simnet".toList.isPrefixOf networkId.toList then some .simnet
  else if "devnet".toList.isPrefixOf networkId.toList then some .devnet
  else none

def networkChar : Network → Char
  | .mainnet => 'm'
  | .testnet => 't'
  | .simnet => 's'
  | .devnet => 'd'

def versionChar : Version → Char
  | .pubKey => 'p'
  | .pubKeyEcdsa => 'e'
  | .scriptHash => 'h'

def byteChar (b : UInt8) : Char := Char.ofNat b.toNat

def plainText (a : Address) : String :=
  String.ofList ('?' :: networkChar a.network :: versionChar a.version :: a.payload.map byteChar)

def readPlainText : List Char → Except String Address
  | '?' :: n :: v :: rest =>
    match [Network.mainnet, .testnet, .simnet, .devnet].find? (networkChar · = n),
      [Version.pubKey, .pubKeyEcdsa, .scriptHash].find? (versionChar · = v) with
    | some network, some version =>
      let payload := rest.map fun c => UInt8.ofNat c.toNat
      if h : payload.length = version.payloadLength then .ok ⟨network, version, payload, h⟩
      else .error "payload length"
    | _, _ => .error "unknown address"
  | _ => .error "unknown address"

private theorem toNat_byteChar (b : UInt8) : (byteChar b).toNat = b.toNat := by
  have hb := b.toNat_lt
  have hvalid : b.toNat.isValidChar := .inl (by omega)
  unfold byteChar Char.ofNat
  rw [dif_pos hvalid]
  rfl

private theorem readPlainText_plainText (a : Address) :
    readPlainText (plainText a).toList = .ok a := by
  obtain ⟨network, version, payload, hlen⟩ := a
  have hpayload : (payload.map byteChar).map (fun c => UInt8.ofNat c.toNat) = payload := by
    rw [List.map_map]
    conv_rhs => rw [← List.map_id payload]
    refine List.map_congr_left fun b _ => ?_
    simp [toNat_byteChar]
  have hnetwork : [Network.mainnet, .testnet, .simnet, .devnet].find?
      (networkChar · = networkChar network) = some network := by
    cases network <;> decide
  have hversion : [Version.pubKey, .pubKeyEcdsa, .scriptHash].find?
      (versionChar · = versionChar version) = some version := by
    cases version <;> decide
  rw [plainText, String.toList_ofList]
  simp only [readPlainText, hnetwork, hversion, hpayload]
  rw [dif_pos hlen]

def tableText (table : List (Address × String)) (a : Address) : String :=
  match table.find? (·.1 = a) with
  | some row => row.2
  | none => plainText a

def readTable (table : List (Address × String)) (text : String) : Except String Address :=
  match table.find? (·.2 = text) with
  | some row => .ok row.1
  | none => readPlainText text.toList

/-- The texts of a table are distinct and none is a plain text. -/
def TableOk (table : List (Address × String)) : Prop :=
  (table.map Prod.snd).Nodup ∧ ∀ row ∈ table, row.2.toList.head? ≠ some '?'

instance (table : List (Address × String)) : Decidable (TableOk table) :=
  inferInstanceAs (Decidable (_ ∧ _))

private theorem readTable_tableText {table : List (Address × String)} (h : TableOk table)
    (a : Address) : readTable table (tableText table a) = .ok a := by
  unfold tableText
  cases hrow : table.find? (·.1 = a) with
  | some row =>
    have hmem := List.mem_of_find?_eq_some hrow
    have ha : row.1 = a := by simpa using List.find?_some hrow
    unfold readTable
    cases hfound : table.find? (·.2 = row.2) with
    | some found =>
      have htext : found.2 = row.2 := by simpa using List.find?_some hfound
      have heq := List.inj_on_of_nodup_map h.1 (List.mem_of_find?_eq_some hfound) hmem htext
      simp only [heq, ha]
    | none =>
      have hnone := List.find?_eq_none.mp hfound row hmem
      simp at hnone
  | none =>
    have hfresh : table.find? (·.2 = plainText a) = none := by
      rw [List.find?_eq_none]
      intro row hmem
      have hhead := h.2 row hmem
      simp only [decide_eq_true_eq]
      intro htext
      rw [htext, plainText, String.toList_ofList] at hhead
      exact hhead rfl
    simp only [readTable, hfresh, readPlainText_plainText]

def tableCodec (table : List (Address × String)) (h : TableOk table) : AddressCodec where
  toString := tableText table
  tryFrom := readTable table
  tryFrom_toString := readTable_tableText h

end Stroemnet.Kaspa
