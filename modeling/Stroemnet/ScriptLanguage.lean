import Stroemnet.ByteStrings
import Mathlib.Data.Int.ConditionallyCompleteOrder
import Mathlib.Data.Int.Interval

/-! # The byte language of stack scripts

Opcodes as a parser delivers them, the parser, and the builder that writes a script one
opcode at a time. An opcode carries its value byte and the data it pushes; parsing inverts
serialization, and the builder emits one canonical opcode for each call. -/
namespace Stroemnet.Script
open Numbers

/-- An opcode as it is parsed: the value byte and the bytes it pushes. -/
structure Opcode where
  value : UInt8
  data : Bytes
deriving DecidableEq

inductive TxScriptError
  | malformedPushSize (got : Bytes)
  | malformedPush (expected got : ℕ)
  | signatureScriptNotPushOnly
  | opcodeReserved (value : UInt8)
  | tooManyOperations (limit : ℕ)
  | elementTooBig (size limit : ℕ)
  | notMinimalData
  | stackSizeExceeded (size limit : ℕ)
  | unbalancedConditional
  | emptyStack
  | invalidState
  | verifyError
  | numberTooBig
  | unsatisfiedLockTime
  | invalidInputIndex
  | invalidOutputIndex
  | cleanStack
  | evalFalse
  | scriptSize (size limit : ℕ)
  | pubKeyFormat
  | other (code : ℕ)
deriving DecidableEq

/-- How many bytes after the value byte hold the length of the data. -/
def lengthWidth (v : UInt8) : ℕ :=
  if v = 0x4c then 1 else if v = 0x4d then 2 else if v = 0x4e then 4 else 0

def directLength (v : UInt8) : ℕ := if v.toNat ≤ 75 then v.toNat else 0

def dataLength (v : UInt8) (field : Bytes) : ℕ :=
  if lengthWidth v = 0 then directLength v else leNat field

/-- The data fits the value byte, as it does in every parsed opcode. -/
def Opcode.WellFormed (o : Opcode) : Prop :=
  if lengthWidth o.value = 0 then o.data.length = directLength o.value
  else o.data.length < 256 ^ lengthWidth o.value

instance (o : Opcode) : Decidable o.WellFormed := by
  unfold Opcode.WellFormed
  exact inferInstance

def Opcode.serialize (o : Opcode) : Bytes :=
  o.value :: (leBytes (lengthWidth o.value) o.data.length ++ o.data)

def serialize (ops : List Opcode) : Bytes := ops.flatMap Opcode.serialize

@[simp] theorem serialize_nil : serialize [] = [] := rfl

@[simp] theorem serialize_cons (o : Opcode) (ops : List Opcode) :
    serialize (o :: ops) = o.serialize ++ serialize ops := rfl

/-- Reads the opcode that starts with the value byte `v`. -/
def deserializeOpcode (v : UInt8) (rest : Bytes) : Except TxScriptError (Opcode × Bytes) :=
  let field := rest.take (lengthWidth v)
  let body := rest.drop (lengthWidth v)
  let n := dataLength v field
  if rest.length < lengthWidth v then .error (.malformedPushSize rest)
  else if body.length < n then .error (.malformedPush n body.length)
  else .ok (⟨v, body.take n⟩, body.drop n)

def parseWith : ℕ → Bytes → Except TxScriptError (List Opcode)
  | _, [] => .ok []
  | 0, v :: _ => .error (.malformedPushSize [v])
  | fuel + 1, v :: rest => do
    let (o, tail) ← deserializeOpcode v rest
    let ops ← parseWith fuel tail
    return o :: ops

/-- Parses a whole script; every opcode takes at least one byte, so its length bounds the
number of steps. -/
def parseScript (b : Bytes) : Except TxScriptError (List Opcode) := parseWith b.length b

theorem dataLength_serialized {o : Opcode} (h : o.WellFormed) :
    dataLength o.value (leBytes (lengthWidth o.value) o.data.length) = o.data.length := by
  unfold Opcode.WellFormed at h
  unfold dataLength
  split_ifs at h ⊢ with hw
  · exact h.symm
  · exact leNat_leBytes h

theorem deserializeOpcode_serialize {o : Opcode} (h : o.WellFormed) (rest : Bytes) :
    deserializeOpcode o.value
      (leBytes (lengthWidth o.value) o.data.length ++ o.data ++ rest) = .ok (o, rest) := by
  simp [deserializeOpcode, dataLength_serialized h]

theorem deserializeOpcode_sound {v : UInt8} {rest tail : Bytes} {o : Opcode}
    (h : deserializeOpcode v rest = .ok (o, tail)) :
    o.WellFormed ∧ v :: rest = o.serialize ++ tail := by
  simp only [deserializeOpcode] at h
  split_ifs at h with hfield hbody
  simp only [Except.ok.injEq, Prod.mk.injEq] at h
  obtain ⟨rfl, rfl⟩ := h
  have hfieldLength : (rest.take (lengthWidth v)).length = lengthWidth v := by
    simp only [List.length_take]
    omega
  have hdata : ((rest.drop (lengthWidth v)).take
      (dataLength v (rest.take (lengthWidth v)))).length =
      dataLength v (rest.take (lengthWidth v)) := by
    simp only [List.length_take]
    omega
  have hvalue := leNat_lt (rest.take (lengthWidth v))
  have hback := leBytes_leNat (rest.take (lengthWidth v))
  rw [hfieldLength] at hvalue hback
  constructor
  · unfold Opcode.WellFormed
    rw [hdata, dataLength]
    split_ifs
    · rfl
    · exact hvalue
  · have hlen : leBytes (lengthWidth v) (dataLength v (rest.take (lengthWidth v))) =
        rest.take (lengthWidth v) := by
      by_cases hw : lengthWidth v = 0
      · simp [hw, leBytes]
      · simpa [dataLength, hw] using hback
    simp only [Opcode.serialize, hdata, hlen, List.cons_append, List.append_assoc,
      List.take_append_drop]

theorem length_tail_lt {v : UInt8} {rest tail : Bytes} {o : Opcode}
    (h : deserializeOpcode v rest = .ok (o, tail)) : tail.length < (v :: rest).length := by
  rw [(deserializeOpcode_sound h).2]
  simp only [Opcode.serialize, List.length_append, List.length_cons]
  omega

/-- Spare steps do not change what is parsed. -/
theorem parseWith_of_le {k : ℕ} {b : Bytes} (h : b.length ≤ k) : parseWith k b = parseScript b := by
  suffices hgen : ∀ n k (b : Bytes), b.length ≤ n → b.length ≤ k →
      parseWith k b = parseWith b.length b from hgen b.length k b le_rfl h
  intro n
  induction n with
  | zero =>
    intro k b hn _
    have hb : b = [] := List.length_eq_zero_iff.mp (by omega)
    subst hb
    cases k <;> rfl
  | succ n ih =>
    intro k b hn hk
    cases b with
    | nil => cases k <;> rfl
    | cons v rest =>
      obtain ⟨j, rfl⟩ : ∃ j, k = j + 1 := ⟨k - 1, by simp at hk; omega⟩
      simp only [List.length_cons, parseWith]
      cases hd : deserializeOpcode v rest with
      | error e => rfl
      | ok p =>
        obtain ⟨o, tail⟩ := p
        have ht := length_tail_lt hd
        simp only [List.length_cons] at ht hn hk
        simp only [bind, Except.bind]
        rw [ih j tail (by omega) (by omega), ih rest.length tail (by omega) (by omega)]

theorem parseScript_cons {v : UInt8} {rest : Bytes} :
    parseScript (v :: rest) = (do
      let (o, tail) ← deserializeOpcode v rest
      let ops ← parseScript tail
      return o :: ops) := by
  show parseWith (rest.length + 1) (v :: rest) = _
  simp only [parseWith]
  cases hd : deserializeOpcode v rest with
  | error e => rfl
  | ok p =>
    obtain ⟨o, tail⟩ := p
    have ht := length_tail_lt hd
    simp only [bind, Except.bind]
    rw [parseWith_of_le (by simpa [Nat.lt_succ_iff] using ht)]

theorem parseScript_serialize {ops : List Opcode} (h : ∀ o ∈ ops, o.WellFormed) :
    parseScript (serialize ops) = .ok ops := by
  induction ops with
  | nil => rfl
  | cons o ops ih =>
    have hread := deserializeOpcode_serialize (h o List.mem_cons_self) (serialize ops)
    rw [serialize_cons, Opcode.serialize, List.cons_append, parseScript_cons, hread]
    simp only [bind, Except.bind]
    rw [ih fun a ha => h a (List.mem_cons_of_mem _ ha)]
    rfl

/-- What parses is the serialization of the well-formed opcodes it parses to. -/
theorem parseScript_sound {b : Bytes} {ops : List Opcode} (h : parseScript b = .ok ops) :
    (∀ o ∈ ops, o.WellFormed) ∧ serialize ops = b := by
  induction ops generalizing b with
  | nil =>
    cases b with
    | nil => simp
    | cons v rest =>
      rw [parseScript_cons] at h
      obtain ⟨p, -, h⟩ := bind_eq_ok.mp h
      obtain ⟨ops, -, h⟩ := bind_eq_ok.mp h
      cases h
  | cons o ops ih =>
    cases b with
    | nil => cases h
    | cons v rest =>
      rw [parseScript_cons] at h
      obtain ⟨⟨o', tail⟩, hd, h⟩ := bind_eq_ok.mp h
      obtain ⟨ops', hops, h⟩ := bind_eq_ok.mp h
      cases h
      obtain ⟨hwf, hbytes⟩ := deserializeOpcode_sound hd
      obtain ⟨htail, hser⟩ := ih hops
      refine ⟨?_, by rw [serialize_cons, hser, hbytes]⟩
      intro a ha
      rcases List.mem_cons.mp ha with rfl | ha
      · exact hwf
      · exact htail a ha

def maxScriptsSize : ℕ := 10000
def maxScriptElementSize : ℕ := 520

inductive ScriptBuilderError
  | opCodeRejected (value : UInt8)
  | dataRejected (size : ℕ)
  | elementExceedsMaxSize (size : ℕ)
  | integerRejected (n : ℤ)
  | serialization (n : ℤ)
deriving DecidableEq

/-- The opcode that pushes `d` when small numbers have opcodes of their own. -/
def canonicalPush (d : Bytes) : Opcode :=
  if d = [] ∨ d = [0] then ⟨0, []⟩
  else if d.length = 1 ∧ d.headI.toNat ≤ 16 then ⟨0x50 + d.headI, []⟩
  else if d = [0x81] then ⟨0x4f, []⟩
  else if d.length ≤ 75 then ⟨UInt8.ofNat d.length, d⟩
  else if d.length ≤ 255 then ⟨0x4c, d⟩
  else if d.length ≤ 65535 then ⟨0x4d, d⟩
  else ⟨0x4e, d⟩

def numberPush (n : ℤ) : Opcode :=
  if n = 0 then ⟨0, []⟩
  else if n = -1 then ⟨0x4f, []⟩
  else if 1 ≤ n ∧ n ≤ 16 then ⟨UInt8.ofNat (0x50 + n.toNat), []⟩
  else canonicalPush (serializeI64 n)

inductive BuilderCall
  | op (value : UInt8)
  | data (d : Bytes)
  | i64 (n : ℤ)
deriving DecidableEq

def BuilderCall.opcode : BuilderCall → Opcode
  | .op v => ⟨v, []⟩
  | .data d => canonicalPush d
  | .i64 n => numberPush n

def addOp (script : Bytes) (v : UInt8) : Except ScriptBuilderError Bytes :=
  if maxScriptsSize ≤ script.length then .error (.opCodeRejected v) else .ok (script ++ [v])

def addData (script : Bytes) (d : Bytes) : Except ScriptBuilderError Bytes :=
  let size := (canonicalPush d).serialize.length
  if maxScriptsSize < script.length + size then .error (.dataRejected size)
  else if maxScriptElementSize < d.length then .error (.elementExceedsMaxSize d.length)
  else .ok (script ++ (canonicalPush d).serialize)

def addI64 (script : Bytes) (n : ℤ) : Except ScriptBuilderError Bytes :=
  if maxScriptsSize < script.length + 1 then .error (.integerRejected n)
  else if n = 0 ∨ n = -1 ∨ 1 ≤ n ∧ n ≤ 16 then .ok (script ++ (numberPush n).serialize)
  else if 8 < (serializeI64 n).length then .error (.serialization n)
  else addData script (serializeI64 n)

def addCall (script : Bytes) : BuilderCall → Except ScriptBuilderError Bytes
  | .op v => addOp script v
  | .data d => addData script d
  | .i64 n => addI64 script n

def build (calls : List BuilderCall) : Except ScriptBuilderError Bytes :=
  calls.foldlM addCall []

/-- The value byte of a direct opcode call announces no data of its own. -/
def BuilderCall.Plain : BuilderCall → Prop
  | .op v => lengthWidth v = 0 ∧ directLength v = 0
  | .data _ => True
  | .i64 _ => True

/-- The limits the builder puts on one call. -/
def BuilderCall.Accepted : BuilderCall → Prop
  | .op _ => True
  | .data d => d.length ≤ maxScriptElementSize
  | .i64 n => (serializeI64 n).length ≤ 8

namespace BuilderCall

@[simp] theorem plain_op (v : UInt8) :
    (op v).Plain ↔ lengthWidth v = 0 ∧ directLength v = 0 := Iff.rfl
@[simp] theorem plain_data (d : Bytes) : (data d).Plain := trivial
@[simp] theorem plain_i64 (n : ℤ) : (i64 n).Plain := trivial

@[simp] theorem accepted_op (v : UInt8) : (op v).Accepted := trivial
@[simp] theorem accepted_data (d : Bytes) :
    (data d).Accepted ↔ d.length ≤ maxScriptElementSize := Iff.rfl
@[simp] theorem accepted_i64 (n : ℤ) :
    (i64 n).Accepted ↔ (serializeI64 n).length ≤ 8 := Iff.rfl

end BuilderCall

theorem canonicalPush_wellFormed {d : Bytes} (h : d.length < 2 ^ 32) :
    (canonicalPush d).WellFormed := by
  unfold canonicalPush
  split_ifs with h0 h1 h2 h3 h4 h5
  · decide
  · obtain ⟨b, rfl⟩ := List.length_eq_one_iff.mp h1.1
    have hb : b.toNat ≤ 16 := h1.2
    have hval : (0x50 + b).toNat = 80 + b.toNat := by
      rw [UInt8.toNat_add]
      simp only [UInt8.reduceToNat]
      omega
    have hne : ∀ v : UInt8, v.toNat < 80 → 0x50 + b ≠ v := by
      rintro v hv rfl
      omega
    have hw : lengthWidth (0x50 + b) = 0 := by
      simp [lengthWidth, hne 0x4c (by decide), hne 0x4d (by decide), hne 0x4e (by decide)]
    show Opcode.WellFormed ⟨0x50 + b, []⟩
    simp only [Opcode.WellFormed, hw, ↓reduceIte, List.length_nil, directLength, hval]
    split_ifs
    · omega
    · rfl
  · decide
  · have hval : (UInt8.ofNat d.length).toNat = d.length := by
      rw [UInt8.toNat_ofNat']
      omega
    have hne : ∀ v : UInt8, 75 < v.toNat → UInt8.ofNat d.length ≠ v := by
      rintro v hv rfl
      omega
    have hw : lengthWidth (UInt8.ofNat d.length) = 0 := by
      simp [lengthWidth, hne 0x4c (by decide), hne 0x4d (by decide), hne 0x4e (by decide)]
    simp [Opcode.WellFormed, hw, directLength, hval, h3]
  · show d.length < 256 ^ 1
    omega
  · show d.length < 256 ^ 2
    omega
  · show d.length < 256 ^ 4
    omega

def SmallNumber (n : ℤ) : Prop := n = 0 ∨ n = -1 ∨ 1 ≤ n ∧ n ≤ 16

instance (n : ℤ) : Decidable (SmallNumber n) := by
  unfold SmallNumber
  exact inferInstance

private theorem smallNumber_cases {n : ℤ} (h : SmallNumber n) : n ∈ Finset.Icc (-1) 16 := by
  rw [Finset.mem_Icc]
  rcases h with rfl | rfl | h
  · decide
  · decide
  · omega

private theorem numberPush_small_all : ∀ n ∈ Finset.Icc (-1 : ℤ) 16,
    (numberPush n).WellFormed ∧ (numberPush n).serialize.length = 1 ∧
      (serializeI64 n).length ≤ 8 := by
  decide +kernel

theorem numberPush_small {n : ℤ} (h : SmallNumber n) :
    (numberPush n).WellFormed ∧ (numberPush n).serialize.length = 1 ∧
      (serializeI64 n).length ≤ 8 :=
  numberPush_small_all n (smallNumber_cases h)

theorem numberPush_large {n : ℤ} (h : ¬ SmallNumber n) :
    numberPush n = canonicalPush (serializeI64 n) := by
  simp only [SmallNumber, not_or] at h
  simp [numberPush, h.1, h.2.1, h.2.2]

theorem BuilderCall.opcode_wellFormed {c : BuilderCall} (hp : c.Plain) (ha : c.Accepted) :
    c.opcode.WellFormed := by
  cases c with
  | op v => simpa [BuilderCall.opcode, Opcode.WellFormed, hp.1] using hp.2.symm
  | data d =>
    have hd : d.length ≤ 520 := ha
    exact canonicalPush_wellFormed (by omega)
  | i64 n =>
    by_cases hs : SmallNumber n
    · exact (numberPush_small hs).1
    · have hn : (serializeI64 n).length ≤ 8 := ha
      show (numberPush n).WellFormed
      rw [numberPush_large hs]
      exact canonicalPush_wellFormed (by omega)

private theorem addData_eq_ok {script d s : Bytes} :
    addData script d = .ok s ↔ d.length ≤ maxScriptElementSize ∧
      (script ++ (canonicalPush d).serialize).length ≤ maxScriptsSize ∧
      s = script ++ (canonicalPush d).serialize := by
  simp only [addData, refuse_eq_ok, Nat.not_lt, Except.ok.injEq, List.length_append]
  constructor
  · rintro ⟨hsize, helement, rfl⟩
    exact ⟨helement, hsize, rfl⟩
  · rintro ⟨helement, hsize, rfl⟩
    exact ⟨hsize, helement, rfl⟩

theorem addCall_eq_ok {script s : Bytes} {c : BuilderCall} (hp : c.Plain) :
    addCall script c = .ok s ↔ c.Accepted ∧
      (script ++ c.opcode.serialize).length ≤ maxScriptsSize ∧
      s = script ++ c.opcode.serialize := by
  cases c with
  | op v =>
    have hser : Opcode.serialize ⟨v, []⟩ = [v] := by simp [Opcode.serialize, hp.1, leBytes]
    simp only [addCall, addOp, BuilderCall.Accepted, BuilderCall.opcode, hser, true_and,
      List.length_append, List.length_cons, List.length_nil, refuse_eq_ok, Nat.not_le,
      Except.ok.injEq]
    exact and_congr_right fun _ => eq_comm
  | data d => exact addData_eq_ok
  | i64 n =>
    simp only [addCall, addI64, BuilderCall.Accepted, BuilderCall.opcode]
    by_cases hs : SmallNumber n
    · obtain ⟨-, hlen, hbytes⟩ := numberPush_small hs
      rw [if_pos (show n = 0 ∨ n = -1 ∨ 1 ≤ n ∧ n ≤ 16 from hs), refuse_eq_ok, Nat.not_lt,
        Except.ok.injEq, List.length_append, hlen]
      constructor
      · rintro ⟨hsize, rfl⟩
        exact ⟨hbytes, hsize, rfl⟩
      · rintro ⟨-, hsize, rfl⟩
        exact ⟨hsize, rfl⟩
    · rw [if_neg (show ¬ (n = 0 ∨ n = -1 ∨ 1 ≤ n ∧ n ≤ 16) from hs), numberPush_large hs]
      have hpos : 0 < (canonicalPush (serializeI64 n)).serialize.length := by
        simp [Opcode.serialize]
      split_ifs with hfull hlong
      · simp only [false_iff, List.length_append]
        omega
      · simp only [false_iff]
        omega
      · rw [addData_eq_ok]
        constructor
        · rintro ⟨-, hsize, rfl⟩
          exact ⟨by omega, hsize, rfl⟩
        · rintro ⟨hshort, hsize, rfl⟩
          refine ⟨?_, hsize, rfl⟩
          simp only [maxScriptElementSize]
          omega

private theorem foldlM_addCall {script s : Bytes} {calls : List BuilderCall}
    (hp : ∀ c ∈ calls, c.Plain) (hs : script.length ≤ maxScriptsSize) :
    calls.foldlM addCall script = .ok s ↔ (∀ c ∈ calls, c.Accepted) ∧
      (script ++ serialize (calls.map BuilderCall.opcode)).length ≤ maxScriptsSize ∧
      s = script ++ serialize (calls.map BuilderCall.opcode) := by
  induction calls generalizing script with
  | nil =>
    simp only [List.foldlM_nil, pure, Except.pure, Except.ok.injEq, List.map_nil, serialize_nil,
      List.append_nil, List.not_mem_nil, false_implies, implies_true, true_and]
    exact ⟨fun h => ⟨hs, h.symm⟩, fun h => h.2.symm⟩
  | cons c calls ih =>
    rw [List.foldlM_cons, bind_eq_ok]
    simp only [addCall_eq_ok (hp c List.mem_cons_self), List.map_cons, serialize_cons,
      List.forall_mem_cons]
    have hrest : ∀ a ∈ calls, a.Plain := fun a ha => hp a (List.mem_cons_of_mem _ ha)
    constructor
    · rintro ⟨-, ⟨hc, hlen, rfl⟩, hfold⟩
      obtain ⟨hall, htotal, rfl⟩ := (ih hrest hlen).mp hfold
      exact ⟨⟨hc, hall⟩, by simpa using htotal, by simp⟩
    · rintro ⟨⟨hc, hall⟩, htotal, rfl⟩
      have hlen : (script ++ c.opcode.serialize).length ≤ maxScriptsSize := by
        simp only [List.length_append] at htotal ⊢
        omega
      refine ⟨_, ⟨hc, hlen, rfl⟩, (ih hrest hlen).mpr ⟨hall, by simpa using htotal, by simp⟩⟩

/-- The builder writes one opcode for each call, exactly when no limit is exceeded. -/
theorem build_eq_ok {s : Bytes} {calls : List BuilderCall} (hp : ∀ c ∈ calls, c.Plain) :
    build calls = .ok s ↔ (∀ c ∈ calls, c.Accepted) ∧ s.length ≤ maxScriptsSize ∧
      s = serialize (calls.map BuilderCall.opcode) := by
  have hempty : ([] : Bytes).length ≤ maxScriptsSize := Nat.zero_le _
  rw [build, foldlM_addCall hp hempty, List.nil_append]
  constructor
  · rintro ⟨hall, hlen, rfl⟩
    exact ⟨hall, hlen, rfl⟩
  · rintro ⟨hall, hlen, rfl⟩
    exact ⟨hall, hlen, rfl⟩

/-- The bytes a call puts into the script, besides at most five that announce them. -/
def BuilderCall.size : BuilderCall → ℕ
  | .op _ => 0
  | .data d => d.length
  | .i64 n => (serializeI64 n).length

@[simp] theorem BuilderCall.size_op (v : UInt8) : (op v).size = 0 := rfl
@[simp] theorem BuilderCall.size_data (d : Bytes) : (data d).size = d.length := rfl
@[simp] theorem BuilderCall.size_i64 (n : ℤ) : (i64 n).size = (serializeI64 n).length := rfl

private theorem length_canonicalPush_le (d : Bytes) : (canonicalPush d).data.length ≤ d.length := by
  unfold canonicalPush
  split_ifs <;> simp

private theorem length_serialize_le (o : Opcode) : o.serialize.length ≤ 5 + o.data.length := by
  have hw : lengthWidth o.value ≤ 4 := by
    unfold lengthWidth
    split_ifs <;> omega
  simp only [Opcode.serialize, List.length_cons, List.length_append, length_leBytes]
  omega

private theorem length_call_le (c : BuilderCall) : c.opcode.serialize.length ≤ 5 + c.size := by
  have hserialize := length_serialize_le c.opcode
  suffices hdata : c.opcode.data.length ≤ c.size by omega
  cases c with
  | op v => exact le_rfl
  | data d => exact length_canonicalPush_le d
  | i64 n =>
    show (numberPush n).data.length ≤ (serializeI64 n).length
    unfold numberPush
    split_ifs
    · simp
    · simp
    · simp
    · exact length_canonicalPush_le _

theorem length_serialize_calls_le (calls : List BuilderCall) :
    (serialize (calls.map BuilderCall.opcode)).length ≤ (calls.map (5 + ·.size)).sum := by
  induction calls with
  | nil => simp
  | cons c calls ih =>
    have hc := length_call_le c
    simp only [List.map_cons, serialize_cons, List.length_append, List.sum_cons]
    omega

/-- A built script parses back to the opcodes that were asked for. -/
theorem parseScript_build {s : Bytes} {calls : List BuilderCall} (hp : ∀ c ∈ calls, c.Plain)
    (h : build calls = .ok s) : parseScript s = .ok (calls.map BuilderCall.opcode) := by
  obtain ⟨hall, -, rfl⟩ := (build_eq_ok hp).mp h
  apply parseScript_serialize
  intro o ho
  obtain ⟨c, hc, rfl⟩ := List.mem_map.mp ho
  exact c.opcode_wellFormed (hp c hc) (hall c hc)

end Stroemnet.Script
