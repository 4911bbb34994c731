import Stroemnet.ScriptLanguage

/-! # The stack machine that decides whether an input may be spent

The documented behaviour of the script engine: data pushes, conditionals, transaction
introspection, digests and 64-bit numbers, with its limits, and the three scripts of a
pay-to-script-hash input. The opcodes no modelled script contains are a parameter. -/
namespace Stroemnet.Script
open Numbers

structure ScriptPublicKey where
  version : UInt16
  script : Bytes
deriving DecidableEq

/-- The versioned bytes of a public key script, the version most significant byte first. -/
def ScriptPublicKey.toBytes (k : ScriptPublicKey) : Bytes :=
  (leBytes 2 k.version.toNat).reverse ++ k.script

structure TransactionOutpoint where
  transactionId : Bytes32
  index : ℕ
deriving DecidableEq

structure TransactionInput where
  previousOutpoint : TransactionOutpoint
  signatureScript : Bytes
  sequence : UInt64
deriving DecidableEq

structure TransactionOutput where
  value : UInt64
  scriptPublicKey : ScriptPublicKey
deriving DecidableEq

structure Transaction where
  inputs : List TransactionInput
  outputs : List TransactionOutput
  lockTime : UInt64
deriving DecidableEq

structure UtxoEntry where
  amount : UInt64
  scriptPublicKey : ScriptPublicKey
deriving DecidableEq

/-- A transaction together with the outputs its inputs spend. -/
structure PopulatedTransaction extends Transaction where
  entries : List UtxoEntry
  populated : entries.length = inputs.length

/-- One input of a populated transaction, the one whose scripts are run. -/
structure Spend where
  tx : PopulatedTransaction
  index : Fin tx.inputs.length

def Spend.input (c : Spend) : TransactionInput := c.tx.inputs.get c.index

def Spend.entry (c : Spend) : UtxoEntry := c.tx.entries.get (c.index.cast c.tx.populated.symm)

/-- The instructions that only read and write the data stack. -/
inductive DataInstr
  | equal | equalVerify | sub | numEqualVerify | greaterThanOrEqual
  | sha256 | blake2b | checkLockTimeVerify
  | txInputCount | txOutputCount | txInputIndex | txInputAmount | txOutputAmount | txOutputSpk
deriving DecidableEq

inductive Instr
  | push (d : Bytes)
  | reserved
  | ifOp | elseOp | endIf
  | data (i : DataInstr)
  | other
deriving DecidableEq

def dataInstr (v : UInt8) : Option DataInstr :=
  [(0x87, DataInstr.equal), (0x88, .equalVerify), (0x94, .sub), (0x9d, .numEqualVerify),
    (0xa2, .greaterThanOrEqual), (0xa8, .sha256), (0xaa, .blake2b),
    (0xb0, .checkLockTimeVerify), (0xb3, .txInputCount), (0xb4, .txOutputCount),
    (0xb9, .txInputIndex), (0xbe, .txInputAmount), (0xc2, .txOutputAmount),
    (0xc3, .txOutputSpk)].lookup v

def Opcode.instr (o : Opcode) : Instr :=
  if o.value = 0 then .push []
  else if o.value.toNat ≤ 0x4e then .push o.data
  else if o.value = 0x4f then .push [0x81]
  else if o.value = 0x50 then .reserved
  else if o.value.toNat ≤ 0x60 then .push [o.value - 0x50]
  else if o.value = 0x63 then .ifOp
  else if o.value = 0x67 then .elseOp
  else if o.value = 0x68 then .endIf
  else match dataInstr o.value with
    | some i => .data i
    | none => .other

/-- The opcodes a signature script may contain, the reserved one among them. -/
def Opcode.isPush (o : Opcode) : Bool := o.value.toNat ≤ 0x60

def minimalValue (d : Bytes) : UInt8 :=
  if d = [] then 0
  else if d.length = 1 ∧ 1 ≤ d.headI.toNat ∧ d.headI.toNat ≤ 16 then 0x50 + d.headI
  else if d = [0x81] then 0x4f
  else if d.length ≤ 75 then UInt8.ofNat d.length
  else if d.length ≤ 255 then 0x4c
  else if d.length < 65535 then 0x4d
  else 0x4e

def Opcode.minimal (o : Opcode) : Bool :=
  if 1 ≤ o.value.toNat ∧ o.value.toNat ≤ 0x4e then o.value = minimalValue o.data else true

inductive Cond
  | taken | notTaken | skip
deriving DecidableEq

/-- The state of the engine; the tops of its stacks come first. -/
structure Vm where
  stack : List Bytes
  altStack : List Bytes
  cond : List Cond
  numOps : ℕ
deriving DecidableEq

def Vm.init : Vm := ⟨[], [], [], 0⟩

def Vm.executing (vm : Vm) : Bool :=
  match vm.cond with
  | [] => true
  | c :: _ => c = .taken

/-- The digests of the engine and the opcodes that are left to it. -/
structure Engine where
  sha256 : Bytes → Bytes32
  blake2b : Bytes → Bytes32
  other : Spend → Opcode → Vm → Except TxScriptError Vm

def maxOpsPerScript : ℕ := 201
def maxStackSize : ℕ := 244
def lockTimeThreshold : ℕ := 500000000000

def number (b : Bytes) : Except TxScriptError ℤ :=
  match deserializeI64 8 b with
  | some n => .ok n
  | none => .error .numberTooBig

def index (b : Bytes) : Except TxScriptError ℤ :=
  match deserializeI64 4 b with
  | some n => .ok n
  | none => .error .numberTooBig

def pushNumber (n : ℤ) (st : List Bytes) : Except TxScriptError (List Bytes) :=
  if n.natAbs < 2 ^ 63 then .ok (serializeI64 n :: st) else .error .numberTooBig

def ofBool (b : Bool) : Bytes := if b then [1] else []

/-- Whether an element counts as true; a negative zero does not. -/
def truthy (b : Bytes) : Bool :=
  match b.getLast? with
  | none => false
  | some last => last.toNat % 128 ≠ 0 || b.dropLast.any (· ≠ 0)

/-- The lock time check: at most eight bytes, on the same side of the threshold as the
transaction's lock time, not above it, and the input not final. -/
def LockTimeReached (c : Spend) (b : Bytes) : Prop :=
  b.length ≤ 8 ∧ (c.tx.lockTime.toNat < lockTimeThreshold ↔ leNat b < lockTimeThreshold) ∧
    leNat b ≤ c.tx.lockTime.toNat ∧ c.input.sequence.toNat ≠ 2 ^ 64 - 1

instance (c : Spend) (b : Bytes) : Decidable (LockTimeReached c b) := by
  unfold LockTimeReached
  exact inferInstance

def effect (E : Engine) (c : Spend) :
    DataInstr → List Bytes → Except TxScriptError (List Bytes)
  | .equal, b :: a :: st => .ok (ofBool (a = b) :: st)
  | .equalVerify, b :: a :: st => if a = b then .ok st else .error .verifyError
  | .sub, b :: a :: st => do
    let x ← number a
    let y ← number b
    pushNumber (x - y) st
  | .numEqualVerify, b :: a :: st => do
    let x ← number a
    let y ← number b
    if x = y then .ok st else .error .verifyError
  | .greaterThanOrEqual, b :: a :: st => do
    let x ← number a
    let y ← number b
    .ok (ofBool (y ≤ x) :: st)
  | .sha256, a :: st => .ok ((E.sha256 a).data :: st)
  | .blake2b, a :: st => .ok ((E.blake2b a).data :: st)
  | .checkLockTimeVerify, a :: st =>
    if LockTimeReached c a then .ok st else .error .unsatisfiedLockTime
  | .txInputCount, st => pushNumber c.tx.inputs.length st
  | .txOutputCount, st => pushNumber c.tx.outputs.length st
  | .txInputIndex, st => pushNumber c.index st
  | .txInputAmount, a :: st => do
    let i ← index a
    match if 0 ≤ i then c.tx.entries[i.toNat]? else none with
    | some entry => pushNumber entry.amount.toNat st
    | none => .error .invalidInputIndex
  | .txOutputAmount, a :: st => do
    let i ← index a
    match if 0 ≤ i then c.tx.outputs[i.toNat]? else none with
    | some output => pushNumber output.value.toNat st
    | none => .error .invalidOutputIndex
  | .txOutputSpk, a :: st => do
    let i ← index a
    match if 0 ≤ i then c.tx.outputs[i.toNat]? else none with
    | some output => .ok (output.scriptPublicKey.toBytes :: st)
    | none => .error .invalidOutputIndex
  | _, _ => .error .emptyStack

/-- Enters a conditional; a branch that is not executing nests as a skipped one. -/
def enterIf (vm : Vm) : Except TxScriptError Vm :=
  if vm.executing then
    match vm.stack with
    | [] => .error .emptyStack
    | a :: st =>
      if a = [] then .ok { vm with stack := st, cond := .notTaken :: vm.cond }
      else if a = [1] then .ok { vm with stack := st, cond := .taken :: vm.cond }
      else .error .invalidState
  else .ok { vm with cond := .skip :: vm.cond }

def switchBranch (vm : Vm) : Except TxScriptError Vm :=
  match vm.cond with
  | [] => .error .unbalancedConditional
  | .taken :: rest => .ok { vm with cond := .notTaken :: rest }
  | .notTaken :: rest => .ok { vm with cond := .taken :: rest }
  | .skip :: rest => .ok { vm with cond := .skip :: rest }

def leaveIf (vm : Vm) : Except TxScriptError Vm :=
  match vm.cond with
  | [] => .error .unbalancedConditional
  | _ :: rest => .ok { vm with cond := rest }

def countOp (vm : Vm) : Except TxScriptError Vm :=
  if maxOpsPerScript < vm.numOps + 1 then .error (.tooManyOperations maxOpsPerScript)
  else .ok { vm with numOps := vm.numOps + 1 }

def executeOpcode (E : Engine) (c : Spend) (vm : Vm) (o : Opcode) : Except TxScriptError Vm :=
  match o.instr with
  | .push d =>
    if maxScriptElementSize < o.data.length then
      .error (.elementTooBig o.data.length maxScriptElementSize)
    else if vm.executing then
      if o.minimal then .ok { vm with stack := d :: vm.stack } else .error .notMinimalData
    else .ok vm
  | .reserved => if vm.executing then .error (.opcodeReserved o.value) else .ok vm
  | .ifOp => countOp vm >>= enterIf
  | .elseOp => countOp vm >>= switchBranch
  | .endIf => countOp vm >>= leaveIf
  | .data i => do
    let vm ← countOp vm
    if vm.executing then do
      let st ← effect E c i vm.stack
      .ok { vm with stack := st }
    else .ok vm
  | .other => E.other c o vm

def stepOpcode (E : Engine) (c : Spend) (vm : Vm) (o : Opcode) : Except TxScriptError Vm := do
  let vm ← executeOpcode E c vm o
  if maxStackSize < vm.altStack.length + vm.stack.length then
    .error (.stackSizeExceeded (vm.altStack.length + vm.stack.length) maxStackSize)
  else .ok vm

def runOpcodes (E : Engine) (c : Spend) (ops : List Opcode) (vm : Vm) :
    Except TxScriptError Vm :=
  ops.foldlM (stepOpcode E c) vm

/-- Runs one script; no conditional may be left open, and the alternative stack and the
operation count do not outlive it. -/
def executeScript (E : Engine) (c : Spend) (script : Bytes) (onlyPush : Bool) (vm : Vm) :
    Except TxScriptError Vm := do
  let ops ← parseScript script
  if onlyPush && !ops.all Opcode.isPush then .error .signatureScriptNotPushOnly
  else do
    let vm ← runOpcodes E c ops vm
    if vm.cond = [] then .ok { vm with altStack := [], numOps := 0 }
    else .error .unbalancedConditional

/-- The verdict on a stack; the last one also demands that nothing else is left on it. -/
def checkErrorCondition (final : Bool) (st : List Bytes) : Except TxScriptError Unit :=
  if final && 1 < st.length then .error .cleanStack
  else match st with
    | [] => .error .emptyStack
    | a :: _ => if truthy a then .ok () else .error .evalFalse

def payToScriptHashScript (digest : Bytes32) : Bytes := 0xaa :: 0x20 :: (digest.data ++ [0x87])

def isPayToScriptHash (script : Bytes) : Bool :=
  script.length = 35 && script.take 2 = [0xaa, 0x20] && script.drop 34 = [0x87]

/-- Runs the scripts of an input: its signature script, the script of the output it spends
and, for a script hash, the script the signature script pushed last. -/
def verifyInput (E : Engine) (c : Spend) : Except TxScriptError Unit :=
  let sig := c.input.signatureScript
  let spk := c.entry.scriptPublicKey
  if 0 < spk.version.toNat then .ok ()
  else if sig = [] ∧ spk.script = [] then .error .evalFalse
  else if maxScriptsSize < sig.length then .error (.scriptSize sig.length maxScriptsSize)
  else if maxScriptsSize < spk.script.length then
    .error (.scriptSize spk.script.length maxScriptsSize)
  else do
    let vm ← executeScript E c sig true Vm.init
    let vm' ← executeScript E c spk.script false vm
    if isPayToScriptHash spk.script then do
      checkErrorCondition false vm'.stack
      match vm.stack with
      | [] => .error .emptyStack
      | redeem :: st => do
        let vm'' ← executeScript E c redeem false { vm' with stack := st }
        checkErrorCondition true vm''.stack
    else checkErrorCondition true vm'.stack

end Stroemnet.Script
