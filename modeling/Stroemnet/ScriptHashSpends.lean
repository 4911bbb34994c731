import Stroemnet.StraightLineScripts

/-! # Spending an output locked to a script hash

The verdict of the engine on a pay-to-script-hash input, reduced to the pushes of its
signature script and to one run of the script that was pushed last. -/
namespace Stroemnet.Script
open Numbers

variable {E : Engine} {c : Spend}

/-- The opcodes run on a stack, close their conditionals and leave a single true element. -/
def Accepts (E : Engine) (c : Spend) (ops : List Opcode) (st : List Bytes) : Prop :=
  ∃ vm, runOpcodes E c ops ⟨st, [], [], 0⟩ = .ok vm ∧ vm.cond = [] ∧
    checkErrorCondition true vm.stack = .ok ()

@[simp] theorem truthy_ofBool (b : Bool) : truthy (ofBool b) = b := by
  cases b <;> decide

theorem checkErrorCondition_final {st : List Bytes} :
    checkErrorCondition true st = .ok () ↔ ∃ a, st = [a] ∧ truthy a = true := by
  rcases st with - | ⟨a, - | ⟨b, st⟩⟩
  · simp [checkErrorCondition]
  · simp only [checkErrorCondition]
    split_ifs with h ht
    · simp at h
    · simp [ht]
    · simp [ht]
  · simp [checkErrorCondition]

theorem executeScript_false {script : Bytes} {vm vm' : Vm} :
    executeScript E c script false vm = .ok vm' ↔ ∃ ops mid, parseScript script = .ok ops ∧
      runOpcodes E c ops vm = .ok mid ∧ mid.cond = [] ∧
      vm' = ⟨mid.stack, [], [], 0⟩ := by
  simp only [executeScript, bind_eq_ok, Bool.false_and, Bool.false_eq_true, if_false]
  constructor
  · rintro ⟨ops, hops, mid, hmid, h⟩
    split_ifs at h with hcond
    cases h
    exact ⟨ops, mid, hops, hmid, hcond, by rw [hcond]⟩
  · rintro ⟨ops, mid, hops, hmid, hcond, rfl⟩
    exact ⟨ops, hops, mid, hmid, by rw [if_pos hcond, hcond]⟩

private theorem canonicalPush_bytes32 (d : Bytes32) :
    canonicalPush d.data = ⟨0x20, d.data⟩ := by
  have hlen := d.length_eq
  have hne : ∀ b : Bytes, b.length ≠ 32 → d.data ≠ b := by
    rintro b hb rfl
    exact hb hlen
  simp [canonicalPush, hne [] (by decide), hne [0] (by decide), hne [0x81] (by decide)]

private def hashOpcodes (digest : Bytes32) : List Opcode :=
  [⟨0xaa, []⟩, ⟨0x20, digest.data⟩, ⟨0x87, []⟩]

private theorem parseScript_scriptHash (digest : Bytes32) :
    parseScript (payToScriptHashScript digest) = .ok (hashOpcodes digest) := by
  have hser : serialize (hashOpcodes digest) = payToScriptHashScript digest := by
    simp [hashOpcodes, serialize, Opcode.serialize, lengthWidth, leBytes, payToScriptHashScript]
  rw [← hser]
  apply parseScript_serialize
  simp [hashOpcodes, Opcode.WellFormed, lengthWidth, directLength]

private theorem isPayToScriptHash_script (digest : Bytes32) :
    isPayToScriptHash (payToScriptHashScript digest) = true := by
  have hdrop : (digest.data ++ [0x87]).drop 32 = [0x87] := List.drop_left' digest.length_eq
  simp [isPayToScriptHash, payToScriptHashScript, hdrop]

private theorem hashOpcodes_linear (digest : Bytes32) :
    ∀ o ∈ hashOpcodes digest, o.linear = true := by
  have hpush := (canonicalPush_linear (d := digest.data) (by simp [maxScriptElementSize])).1
  rw [canonicalPush_bytes32] at hpush
  simp only [hashOpcodes, List.forall_mem_cons, hpush, true_and]
  exact ⟨rfl, rfl, by simp⟩

private theorem runLine_hashOpcodes {digest : Bytes32} {r : Bytes} {st : List Bytes} :
    runLine E c (hashOpcodes digest) (r :: st) =
      .ok (ofBool ((E.blake2b r).data = digest.data) :: st) := rfl

/-- The script of the spent output leaves whether the last push has its digest. -/
private theorem executeScript_scriptHash_sound {digest : Bytes32} {r : Bytes} {st : List Bytes}
    {vm' : Vm} (h : executeScript E c (payToScriptHashScript digest) false ⟨r :: st, [], [], 0⟩ =
      .ok vm') : vm' = ⟨ofBool ((E.blake2b r).data = digest.data) :: st, [], [], 0⟩ := by
  obtain ⟨ops, mid, hops, hmid, hcond, rfl⟩ := executeScript_false.mp h
  rw [parseScript_scriptHash, Except.ok.injEq] at hops
  subst hops
  obtain ⟨hline, -⟩ := runOpcodes_linear_sound (hashOpcodes_linear digest) rfl hmid
  rw [runLine_hashOpcodes, Except.ok.injEq] at hline
  rw [hline]

private theorem executeScript_scriptHash_complete {digest : Bytes32} {r : Bytes} {st : List Bytes}
    (hsize : st.length + 4 ≤ maxStackSize) :
    executeScript E c (payToScriptHashScript digest) false ⟨r :: st, [], [], 0⟩ =
      .ok ⟨ofBool ((E.blake2b r).data = digest.data) :: st, [], [], 0⟩ := by
  have hrun := runOpcodes_linear_complete (hashOpcodes_linear digest)
    (show Vm.executing ⟨r :: st, [], [], 0⟩ = true from rfl)
    (runLine_hashOpcodes (E := E) (c := c))
    (by simp [hashOpcodes, maxOpsPerScript])
    (by simp only [hashOpcodes, List.length_cons, List.length_nil]; omega)
  exact executeScript_false.mpr ⟨_, _, parseScript_scriptHash digest, hrun, rfl, rfl⟩

private theorem executeScript_scriptHash_nil {digest : Bytes32} {vm' : Vm} :
    executeScript E c (payToScriptHashScript digest) false ⟨[], [], [], 0⟩ ≠ .ok vm' := by
  intro h
  obtain ⟨ops, mid, hops, hmid, hcond, rfl⟩ := executeScript_false.mp h
  rw [parseScript_scriptHash, Except.ok.injEq] at hops
  subst hops
  obtain ⟨hline, -⟩ := runOpcodes_linear_sound (hashOpcodes_linear digest) rfl hmid
  cases hline

private theorem checkErrorCondition_digest {r : Bytes} {digest : Bytes32} {st : List Bytes} :
    checkErrorCondition false (ofBool ((E.blake2b r).data = digest.data) :: st) = .ok () ↔
      E.blake2b r = digest := by
  have hdata : (E.blake2b r).data = digest.data ↔ E.blake2b r = digest :=
    ⟨Bytes32.ext, fun h => by rw [h]⟩
  simp only [checkErrorCondition, Bool.false_and, Bool.false_eq_true, if_false, truthy_ofBool,
    decide_eq_true_eq, hdata]
  split_ifs with h <;> simp [h]

private theorem accepts_of_executeScript {redeem : Bytes} {st : List Bytes} {vm' : Vm}
    (h : executeScript E c redeem false ⟨st, [], [], 0⟩ = .ok vm')
    (hcheck : checkErrorCondition true vm'.stack = .ok ()) :
    ∃ ops, parseScript redeem = .ok ops ∧ Accepts E c ops st := by
  obtain ⟨ops, mid, hops, hmid, hcond, rfl⟩ := executeScript_false.mp h
  exact ⟨ops, hops, mid, hmid, hcond, hcheck⟩

variable {digest : Bytes32}

/-- An accepted input pushed a script with the right digest, and that script accepts what was
pushed before it. -/
theorem verifyInput_scriptHash_sound
    (hspk : c.entry.scriptPublicKey = ⟨0, payToScriptHashScript digest⟩)
    (h : verifyInput E c = .ok ()) :
    ∃ l r ops, signaturePushes c.input.signatureScript = some (l ++ [r]) ∧ E.blake2b r = digest ∧
      parseScript r = .ok ops ∧ Accepts E c ops l.reverse := by
  simp only [verifyInput, hspk, UInt16.toNat_zero, lt_self_iff_false, if_false,
    isPayToScriptHash_script, if_true] at h
  split_ifs at h with hempty hsig hlong
  obtain ⟨vm, hvm, h⟩ := bind_eq_ok.mp h
  obtain ⟨vm', hvm', h⟩ := bind_eq_ok.mp h
  obtain ⟨pushes, hpushes, rfl⟩ := (executeScript_signature (Nat.not_lt.mp hsig)).mp hvm
  obtain ⟨_, hdigest, h⟩ := bind_eq_ok.mp h
  cases hrev : pushes.reverse with
  | nil =>
    rw [hrev] at hvm'
    exact absurd hvm' executeScript_scriptHash_nil
  | cons r st =>
    simp only [hrev] at hvm' h
    have hstate := executeScript_scriptHash_sound hvm'
    subst hstate
    obtain ⟨vm'', hvm'', hfinal⟩ := bind_eq_ok.mp h
    obtain ⟨ops, hops, haccepts⟩ := accepts_of_executeScript hvm'' hfinal
    have hl : pushes = st.reverse ++ [r] := by
      rw [← List.reverse_reverse pushes, hrev, List.reverse_cons]
    exact ⟨st.reverse, r, ops, hl ▸ hpushes, checkErrorCondition_digest.mp hdigest, hops,
      by rwa [List.reverse_reverse]⟩

theorem verifyInput_scriptHash_complete
    (hspk : c.entry.scriptPublicKey = ⟨0, payToScriptHashScript digest⟩) {l : List Bytes}
    {r : Bytes} {ops : List Opcode}
    (hpushes : signaturePushes c.input.signatureScript = some (l ++ [r]))
    (hsize : l.length + 4 ≤ maxStackSize) (hdigest : E.blake2b r = digest)
    (hops : parseScript r = .ok ops) (haccepts : Accepts E c ops l.reverse) :
    verifyInput E c = .ok () := by
  have hsig : c.input.signatureScript.length ≤ maxScriptsSize := by
    unfold signaturePushes at hpushes
    split at hpushes
    · cases hpushes
    · split_ifs at hpushes with hlimits
      exact hlimits.1
  have hspkLength : (payToScriptHashScript digest).length ≤ maxScriptsSize := by
    simp [payToScriptHashScript, maxScriptsSize]
  have hne : payToScriptHashScript digest ≠ [] := by simp [payToScriptHashScript]
  obtain ⟨vm, hvm, hcond, hfinal⟩ := haccepts
  simp only [verifyInput, hspk, UInt16.toNat_zero, lt_self_iff_false, if_false, hne, and_false,
    Nat.not_lt.mpr hsig, Nat.not_lt.mpr hspkLength, isPayToScriptHash_script, if_true]
  refine bind_eq_ok.mpr ⟨_, (executeScript_signature hsig).mpr ⟨_, hpushes, rfl⟩, ?_⟩
  simp only [List.reverse_append, List.reverse_singleton, List.singleton_append]
  refine bind_eq_ok.mpr ⟨_, executeScript_scriptHash_complete (by simpa using hsize), ?_⟩
  refine bind_eq_ok.mpr ⟨(), checkErrorCondition_digest.mpr hdigest, ?_⟩
  exact bind_eq_ok.mpr ⟨_, executeScript_false.mpr ⟨ops, vm, hops, hvm, hcond, rfl⟩, hfinal⟩

end Stroemnet.Script
