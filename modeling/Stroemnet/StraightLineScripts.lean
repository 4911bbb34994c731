import Stroemnet.ScriptMachine

/-! # Straight-line pieces of a script

A piece without conditionals either runs, and then only its effect on the data stack
matters, or is passed over in a branch that is not taken. Both are stated for whole pieces,
so that a script is executed piece by piece. A signature script is such a piece too. -/
namespace Stroemnet.Script
open Numbers

/-- A data push within the engine's rules, or an instruction on the data stack. -/
def Opcode.linear (o : Opcode) : Bool :=
  match o.instr with
  | .push _ => o.data.length ≤ maxScriptElementSize && o.minimal
  | .data _ => true
  | _ => false

def Opcode.cost (o : Opcode) : ℕ :=
  match o.instr with
  | .push _ => 0
  | _ => 1

def cost (ops : List Opcode) : ℕ := (ops.map Opcode.cost).sum

def lineEffect (E : Engine) (c : Spend) (st : List Bytes) (o : Opcode) :
    Except TxScriptError (List Bytes) :=
  match o.instr with
  | .push d => .ok (d :: st)
  | .data i => effect E c i st
  | _ => .error .invalidState

/-- The effect of a piece on the data stack alone. -/
def runLine (E : Engine) (c : Spend) (ops : List Opcode) (st : List Bytes) :
    Except TxScriptError (List Bytes) :=
  ops.foldlM (lineEffect E c) st

theorem Opcode.cost_le_one (o : Opcode) : o.cost ≤ 1 := by
  unfold Opcode.cost
  split <;> omega

theorem cost_le_length (ops : List Opcode) : cost ops ≤ ops.length := by
  induction ops with
  | nil => exact le_rfl
  | cons o ops ih =>
    have ho := o.cost_le_one
    simp only [cost, List.map_cons, List.sum_cons, List.length_cons] at ih ⊢
    omega

@[simp] theorem cost_nil : cost [] = 0 := rfl

@[simp] theorem cost_cons (o : Opcode) (ops : List Opcode) :
    cost (o :: ops) = o.cost + cost ops := rfl

variable {E : Engine} {c : Spend} {vm vm' : Vm} {o : Opcode} {ops : List Opcode}

theorem runOpcodes_nil : runOpcodes E c [] vm = .ok vm := rfl

theorem runOpcodes_cons :
    runOpcodes E c (o :: ops) vm = .ok vm' ↔
      ∃ mid, stepOpcode E c vm o = .ok mid ∧ runOpcodes E c ops mid = .ok vm' := by
  rw [runOpcodes, List.foldlM_cons, bind_eq_ok]
  rfl

theorem runOpcodes_append {ops₁ ops₂ : List Opcode} :
    runOpcodes E c (ops₁ ++ ops₂) vm = .ok vm' ↔
      ∃ mid, runOpcodes E c ops₁ vm = .ok mid ∧ runOpcodes E c ops₂ mid = .ok vm' := by
  rw [runOpcodes, List.foldlM_append, bind_eq_ok]
  rfl

theorem stepOpcode_eq_ok :
    stepOpcode E c vm o = .ok vm' ↔ executeOpcode E c vm o = .ok vm' ∧
      vm'.altStack.length + vm'.stack.length ≤ maxStackSize := by
  rw [stepOpcode, bind_eq_ok]
  constructor
  · rintro ⟨mid, hmid, h⟩
    split_ifs at h with hsize
    cases h
    exact ⟨hmid, by omega⟩
  · rintro ⟨h, hsize⟩
    refine ⟨vm', h, ?_⟩
    rw [if_neg (by omega)]

theorem countOp_eq_ok :
    countOp vm = .ok vm' ↔ vm.numOps + 1 ≤ maxOpsPerScript ∧
      vm' = { vm with numOps := vm.numOps + 1 } := by
  rw [countOp, refuse_eq_ok, Nat.not_lt, Except.ok.injEq]
  exact and_congr_right fun _ => eq_comm

private theorem executeOpcode_linear (hl : o.linear = true) (he : vm.executing = true) :
    executeOpcode E c vm o = .ok vm' ↔ ∃ st, lineEffect E c vm.stack o = .ok st ∧
      (o.cost = 1 → vm.numOps + 1 ≤ maxOpsPerScript) ∧
      vm' = { vm with stack := st, numOps := vm.numOps + o.cost } := by
  unfold Opcode.linear at hl
  unfold executeOpcode lineEffect Opcode.cost
  cases hi : o.instr with
  | push d =>
    simp only [hi, Bool.and_eq_true, decide_eq_true_eq] at hl
    simp only [Nat.not_lt.mpr hl.1, if_false, he, hl.2, if_true, Except.ok.injEq]
    constructor
    · rintro rfl
      exact ⟨_, rfl, by simp, rfl⟩
    · rintro ⟨st, rfl, -, rfl⟩
      rfl
  | data i =>
    simp only [bind_eq_ok, countOp_eq_ok]
    constructor
    · rintro ⟨mid, ⟨hcount, rfl⟩, h⟩
      rw [if_pos (by simpa [Vm.executing] using he), bind_eq_ok] at h
      obtain ⟨st, hst, h⟩ := h
      cases h
      exact ⟨st, hst, fun _ => hcount, rfl⟩
    · rintro ⟨st, hst, hcount, rfl⟩
      refine ⟨_, ⟨hcount trivial, rfl⟩, ?_⟩
      rw [if_pos (by simpa [Vm.executing] using he), bind_eq_ok]
      exact ⟨st, hst, rfl⟩
  | reserved => simp [hi] at hl
  | ifOp => simp [hi] at hl
  | elseOp => simp [hi] at hl
  | endIf => simp [hi] at hl
  | other => simp [hi] at hl

/-- A piece that runs has the effect of its instructions and leaves everything else. -/
theorem runOpcodes_linear_sound (hl : ∀ o ∈ ops, o.linear = true) (he : vm.executing = true)
    (h : runOpcodes E c ops vm = .ok vm') :
    runLine E c ops vm.stack = .ok vm'.stack ∧
      vm' = { vm with stack := vm'.stack, numOps := vm.numOps + cost ops } := by
  induction ops generalizing vm with
  | nil =>
    cases h
    exact ⟨rfl, rfl⟩
  | cons o ops ih =>
    obtain ⟨mid, hstep, hrest⟩ := runOpcodes_cons.mp h
    obtain ⟨st, hst, -, rfl⟩ :=
      (executeOpcode_linear (hl o List.mem_cons_self) he).mp (stepOpcode_eq_ok.mp hstep).1
    have he' : Vm.executing { vm with stack := st, numOps := vm.numOps + o.cost } = true := he
    obtain ⟨hline, hvm⟩ := ih (fun a ha => hl a (List.mem_cons_of_mem _ ha)) he' hrest
    constructor
    · rw [runLine, List.foldlM_cons, bind_eq_ok]
      exact ⟨st, hst, hline⟩
    · rw [hvm]
      simp [Nat.add_assoc]

private theorem pushNumber_length {n : ℤ} {st st' : List Bytes}
    (h : pushNumber n st = .ok st') : st'.length = st.length + 1 := by
  unfold pushNumber at h
  split_ifs at h
  cases h
  rfl

/-- No instruction makes the stack more than one element taller. -/
private theorem effect_length {i : DataInstr} {st st' : List Bytes}
    (h : effect E c i st = .ok st') : st'.length ≤ st.length + 1 := by
  unfold effect at h
  split at h
  case h_1 => cases h; simp
  case h_2 =>
    split_ifs at h
    cases h
    simp only [List.length_cons]
    omega
  case h_3 =>
    simp only [bind_eq_ok] at h
    obtain ⟨x, -, y, -, h⟩ := h
    have := pushNumber_length h
    simp only [List.length_cons]
    omega
  case h_4 =>
    simp only [bind_eq_ok] at h
    obtain ⟨x, -, y, -, h⟩ := h
    split_ifs at h
    cases h
    simp only [List.length_cons]
    omega
  case h_5 =>
    simp only [bind_eq_ok] at h
    obtain ⟨x, -, y, -, h⟩ := h
    cases h
    simp
  case h_6 => cases h; simp
  case h_7 => cases h; simp
  case h_8 =>
    split_ifs at h
    cases h
    simp only [List.length_cons]
    omega
  case h_9 => exact (pushNumber_length h).le
  case h_10 => exact (pushNumber_length h).le
  case h_11 => exact (pushNumber_length h).le
  case h_12 =>
    obtain ⟨x, -, h⟩ := bind_eq_ok.mp h
    split at h
    · have := pushNumber_length h
      simp only [List.length_cons]
      omega
    · cases h
  case h_13 =>
    obtain ⟨x, -, h⟩ := bind_eq_ok.mp h
    split at h
    · have := pushNumber_length h
      simp only [List.length_cons]
      omega
    · cases h
  case h_14 =>
    obtain ⟨x, -, h⟩ := bind_eq_ok.mp h
    split at h
    · cases h
      simp
    · cases h
  case h_15 => cases h

private theorem lineEffect_length {st st' : List Bytes} (h : lineEffect E c st o = .ok st') :
    st'.length ≤ st.length + 1 := by
  unfold lineEffect at h
  split at h
  · cases h
    simp
  · exact effect_length h
  · cases h

theorem runLine_length {st st' : List Bytes} (h : runLine E c ops st = .ok st') :
    st'.length ≤ st.length + ops.length := by
  induction ops generalizing st with
  | nil =>
    cases h
    exact le_rfl
  | cons o ops ih =>
    rw [runLine, List.foldlM_cons, bind_eq_ok] at h
    obtain ⟨mid, hmid, hrest⟩ := h
    have hgrow := lineEffect_length hmid
    have htail := ih hrest
    simp only [List.length_cons]
    omega

/-- A piece whose instructions succeed runs, as long as the limits are far enough. -/
theorem runOpcodes_linear_complete {st : List Bytes} (hl : ∀ o ∈ ops, o.linear = true)
    (he : vm.executing = true) (h : runLine E c ops vm.stack = .ok st)
    (hcount : vm.numOps + ops.length ≤ maxOpsPerScript)
    (hsize : vm.altStack.length + vm.stack.length + ops.length ≤ maxStackSize) :
    runOpcodes E c ops vm = .ok { vm with stack := st, numOps := vm.numOps + cost ops } := by
  induction ops generalizing vm with
  | nil =>
    cases h
    rfl
  | cons o ops ih =>
    rw [runLine, List.foldlM_cons, bind_eq_ok] at h
    obtain ⟨mid, hmid, hrest⟩ := h
    have hgrow := lineEffect_length hmid
    have hcost := o.cost_le_one
    simp only [List.length_cons] at hcount hsize
    have he' : Vm.executing { vm with stack := mid, numOps := vm.numOps + o.cost } = true := he
    rw [runOpcodes_cons]
    refine ⟨{ vm with stack := mid, numOps := vm.numOps + o.cost }, ?_, ?_⟩
    · refine stepOpcode_eq_ok.mpr ⟨(executeOpcode_linear (hl o List.mem_cons_self) he).mpr
        ⟨mid, hmid, fun _ => by omega, rfl⟩, ?_⟩
      show vm.altStack.length + mid.length ≤ maxStackSize
      omega
    · rw [ih (fun a ha => hl a (List.mem_cons_of_mem _ ha)) he' hrest (by simp only; omega)
        (by simp only; omega)]
      simp [Nat.add_assoc]

section Lines

variable {st st' : List Bytes} {i : DataInstr} {d : Bytes}

theorem runLine_nil : runLine E c [] st = .ok st' ↔ st' = st := by
  simp only [runLine, List.foldlM_nil, pure, Except.pure, Except.ok.injEq]
  exact eq_comm

theorem runLine_push (h : o.instr = .push d) :
    runLine E c (o :: ops) st = .ok st' ↔ runLine E c ops (d :: st) = .ok st' := by
  simp only [runLine, List.foldlM_cons, bind_eq_ok, lineEffect, h, Except.ok.injEq,
    exists_eq_left']

theorem runLine_data (h : o.instr = .data i) :
    runLine E c (o :: ops) st = .ok st' ↔
      ∃ mid, effect E c i st = .ok mid ∧ runLine E c ops mid = .ok st' := by
  simp only [runLine, List.foldlM_cons, bind_eq_ok, lineEffect, h]

theorem number_serializeI64 {n : ℤ} (h : n.natAbs < 2 ^ 63) : number (serializeI64 n) = .ok n := by
  rw [number, deserializeI64_serializeI64 (by norm_num; omega)]

theorem index_serializeI64 {n : ℤ} (h : n.natAbs < 2 ^ 31) : index (serializeI64 n) = .ok n := by
  rw [index, deserializeI64_serializeI64 (by norm_num; omega)]

theorem pushNumber_eq_ok {n : ℤ} :
    pushNumber n st = .ok st' ↔ n.natAbs < 2 ^ 63 ∧ st' = serializeI64 n :: st := by
  unfold pushNumber
  split_ifs with h
  · simp only [Except.ok.injEq, h, true_and, eq_comm]
  · simp only [h, false_and]

theorem effect_equalVerify {a b : Bytes} :
    effect E c .equalVerify (b :: a :: st) = .ok st' ↔ a = b ∧ st' = st := by
  simp only [effect]
  split_ifs with h
  · simp only [Except.ok.injEq, h, true_and, eq_comm]
  · simp only [h, false_and]

/-- A count pushed by an introspection, compared with a small number. -/
theorem runLine_countCheck {o₁ o₂ o₃ : Opcode} {n k : ℕ} (h₁ : o₁.instr = .data i)
    (hi : ∀ st, effect E c i st = pushNumber n st) (h₂ : o₂.instr = .push (serializeI64 k))
    (hk : k < 2 ^ 63) (h₃ : o₃.instr = .data .numEqualVerify) :
    runLine E c (o₁ :: o₂ :: o₃ :: ops) st = .ok st' ↔
      n = k ∧ runLine E c ops st = .ok st' := by
  simp only [runLine_data h₁, hi, pushNumber_eq_ok, runLine_push h₂, runLine_data h₃]
  have hnum : ∀ m : ℕ, m < 2 ^ 63 → number (serializeI64 m) = .ok (m : ℤ) :=
    fun m hm => number_serializeI64 (by simpa using hm)
  constructor
  · rintro ⟨-, ⟨hn, rfl⟩, mid, heq, hrest⟩
    have hn' : n < 2 ^ 63 := by simpa using hn
    simp only [effect, hnum n hn', hnum k hk, bind, Except.bind] at heq
    split_ifs at heq with hnk
    cases heq
    exact ⟨by exact_mod_cast hnk, hrest⟩
  · rintro ⟨rfl, hrest⟩
    refine ⟨_, ⟨by simpa using hk, rfl⟩, st, ?_, hrest⟩
    simp [effect, hnum n hk, bind, Except.bind]

end Lines

private theorem executeOpcode_skip (hl : o.linear = true) (he : vm.executing = false) :
    executeOpcode E c vm o = .ok vm' ↔ (o.cost = 1 → vm.numOps + 1 ≤ maxOpsPerScript) ∧
      vm' = { vm with numOps := vm.numOps + o.cost } := by
  unfold Opcode.linear at hl
  unfold executeOpcode Opcode.cost
  cases hi : o.instr with
  | push d =>
    simp only [hi, Bool.and_eq_true, decide_eq_true_eq] at hl
    simp only [Nat.not_lt.mpr hl.1, he, if_false, Bool.false_eq_true, Except.ok.injEq]
    simpa using eq_comm
  | data i =>
    simp only [bind_eq_ok, countOp_eq_ok]
    have hskip : ∀ n, ¬ Vm.executing { vm with numOps := n } = true := by
      intro n
      simpa [Vm.executing] using he
    constructor
    · rintro ⟨mid, ⟨hcount, rfl⟩, h⟩
      rw [if_neg (hskip _)] at h
      cases h
      exact ⟨fun _ => hcount, rfl⟩
    · rintro ⟨hcount, rfl⟩
      exact ⟨_, ⟨hcount trivial, rfl⟩, if_neg (hskip _)⟩
  | reserved => simp [hi] at hl
  | ifOp => simp [hi] at hl
  | elseOp => simp [hi] at hl
  | endIf => simp [hi] at hl
  | other => simp [hi] at hl

/-- A piece in a branch that is not taken only counts its operations. -/
theorem runOpcodes_skip_sound (hl : ∀ o ∈ ops, o.linear = true) (he : vm.executing = false)
    (h : runOpcodes E c ops vm = .ok vm') :
    vm' = { vm with numOps := vm.numOps + cost ops } := by
  induction ops generalizing vm with
  | nil =>
    cases h
    rfl
  | cons o ops ih =>
    obtain ⟨mid, hstep, hrest⟩ := runOpcodes_cons.mp h
    obtain ⟨-, rfl⟩ :=
      (executeOpcode_skip (hl o List.mem_cons_self) he).mp (stepOpcode_eq_ok.mp hstep).1
    have he' : Vm.executing { vm with numOps := vm.numOps + o.cost } = false := he
    rw [ih (fun a ha => hl a (List.mem_cons_of_mem _ ha)) he' hrest]
    simp [Nat.add_assoc]

theorem runOpcodes_skip_complete (hl : ∀ o ∈ ops, o.linear = true) (he : vm.executing = false)
    (hcount : vm.numOps + ops.length ≤ maxOpsPerScript)
    (hsize : vm.altStack.length + vm.stack.length ≤ maxStackSize) :
    runOpcodes E c ops vm = .ok { vm with numOps := vm.numOps + cost ops } := by
  induction ops generalizing vm with
  | nil => rfl
  | cons o ops ih =>
    have hcost := o.cost_le_one
    simp only [List.length_cons] at hcount
    have he' : Vm.executing { vm with numOps := vm.numOps + o.cost } = false := he
    rw [runOpcodes_cons]
    refine ⟨{ vm with numOps := vm.numOps + o.cost }, ?_, ?_⟩
    · exact stepOpcode_eq_ok.mpr ⟨(executeOpcode_skip (hl o List.mem_cons_self) he).mpr
        ⟨fun _ => by omega, rfl⟩, hsize⟩
    · rw [ih (fun a ha => hl a (List.mem_cons_of_mem _ ha)) he' (by simp only; omega) hsize]
      simp [Nat.add_assoc]

theorem stepOpcode_ifOp (h : o.instr = .ifOp) (he : vm.executing = true)
    (hstep : stepOpcode E c vm o = .ok vm') :
    ∃ a st, vm.stack = a :: st ∧
      (a = [] ∧ vm' = ⟨st, vm.altStack, .notTaken :: vm.cond, vm.numOps + 1⟩ ∨
        a = [1] ∧ vm' = ⟨st, vm.altStack, .taken :: vm.cond, vm.numOps + 1⟩) := by
  have hexec := (stepOpcode_eq_ok.mp hstep).1
  simp only [executeOpcode, h, bind_eq_ok, countOp_eq_ok] at hexec
  obtain ⟨-, ⟨-, rfl⟩, henter⟩ := hexec
  rw [enterIf, if_pos (by simpa [Vm.executing] using he)] at henter
  cases hst : vm.stack with
  | nil => simp [hst] at henter
  | cons a st =>
    simp only [hst] at henter
    split_ifs at henter with hfalse htrue
    · cases henter
      exact ⟨a, st, rfl, .inl ⟨hfalse, rfl⟩⟩
    · cases henter
      exact ⟨a, st, rfl, .inr ⟨htrue, rfl⟩⟩

private theorem stepOpcode_control {f : Vm → Except TxScriptError Vm}
    (hexec : executeOpcode E c vm o = (countOp vm >>= f)) (hcount : vm.numOps + 1 ≤ maxOpsPerScript)
    (hf : f { vm with numOps := vm.numOps + 1 } = .ok vm')
    (hsize : vm'.altStack.length + vm'.stack.length ≤ maxStackSize) :
    stepOpcode E c vm o = .ok vm' := by
  rw [stepOpcode_eq_ok, hexec, bind_eq_ok]
  exact ⟨⟨_, countOp_eq_ok.mpr ⟨hcount, rfl⟩, hf⟩, hsize⟩

theorem stepOpcode_ifOp_complete {b : Bool} {st : List Bytes} (h : o.instr = .ifOp)
    (he : vm.executing = true) (hst : vm.stack = ofBool b :: st)
    (hcount : vm.numOps + 1 ≤ maxOpsPerScript)
    (hsize : vm.altStack.length + st.length ≤ maxStackSize) :
    stepOpcode E c vm o = .ok ⟨st, vm.altStack, (if b then .taken else .notTaken) :: vm.cond,
      vm.numOps + 1⟩ := by
  refine stepOpcode_control (by rw [executeOpcode, h]) hcount ?_ hsize
  rw [enterIf, if_pos (by simpa [Vm.executing] using he)]
  cases b <;> simp [hst, ofBool]

/-- The condition an `else` or an end leaves behind. -/
theorem stepOpcode_elseOp {b : Bool} {rest : List Cond} (h : o.instr = .elseOp)
    (hcond : vm.cond = (if b then .taken else .notTaken) :: rest)
    (hstep : stepOpcode E c vm o = .ok vm') :
    vm' = ⟨vm.stack, vm.altStack, (if b then .notTaken else .taken) :: rest, vm.numOps + 1⟩ := by
  have hexec := (stepOpcode_eq_ok.mp hstep).1
  simp only [executeOpcode, h, bind_eq_ok, countOp_eq_ok] at hexec
  obtain ⟨-, ⟨-, rfl⟩, hswitch⟩ := hexec
  cases b <;> simp_all [switchBranch]

theorem stepOpcode_elseOp_complete {b : Bool} {rest : List Cond} (h : o.instr = .elseOp)
    (hcond : vm.cond = (if b then .taken else .notTaken) :: rest)
    (hcount : vm.numOps + 1 ≤ maxOpsPerScript)
    (hsize : vm.altStack.length + vm.stack.length ≤ maxStackSize) :
    stepOpcode E c vm o =
      .ok ⟨vm.stack, vm.altStack, (if b then .notTaken else .taken) :: rest, vm.numOps + 1⟩ := by
  refine stepOpcode_control (by rw [executeOpcode, h]) hcount ?_ hsize
  cases b <;> simp [switchBranch, hcond]

theorem stepOpcode_endIf {a : Cond} {rest : List Cond} (h : o.instr = .endIf)
    (hcond : vm.cond = a :: rest) (hstep : stepOpcode E c vm o = .ok vm') :
    vm' = ⟨vm.stack, vm.altStack, rest, vm.numOps + 1⟩ := by
  have hexec := (stepOpcode_eq_ok.mp hstep).1
  simp only [executeOpcode, h, bind_eq_ok, countOp_eq_ok] at hexec
  obtain ⟨-, ⟨-, rfl⟩, hleave⟩ := hexec
  simp only [leaveIf, hcond, Except.ok.injEq] at hleave
  exact hleave.symm

theorem stepOpcode_endIf_complete {a : Cond} {rest : List Cond} (h : o.instr = .endIf)
    (hcond : vm.cond = a :: rest) (hcount : vm.numOps + 1 ≤ maxOpsPerScript)
    (hsize : vm.altStack.length + vm.stack.length ≤ maxStackSize) :
    stepOpcode E c vm o = .ok ⟨vm.stack, vm.altStack, rest, vm.numOps + 1⟩ := by
  refine stepOpcode_control (by rw [executeOpcode, h]) hcount ?_ hsize
  simp [leaveIf, hcond]

/-- A conditional of two straight-line branches. -/
def ifElse (xs ys : List Opcode) : List Opcode :=
  ⟨0x63, []⟩ :: (xs ++ ⟨0x67, []⟩ :: (ys ++ [⟨0x68, []⟩]))

section IfElse

variable {xs ys : List Opcode} {st st' : List Bytes} {n : ℕ}

/-- Only the branch that the top of the stack selects has an effect. -/
theorem runOpcodes_ifElse_sound (hx : ∀ o ∈ xs, o.linear = true) (hy : ∀ o ∈ ys, o.linear = true)
    (h : runOpcodes E c (ifElse xs ys) ⟨st, [], [], n⟩ = .ok vm') :
    ∃ b r, st = ofBool b :: r ∧ runLine E c (if b then xs else ys) r = .ok vm'.stack ∧
      vm' = ⟨vm'.stack, [], [], n + 1 + cost xs + 1 + cost ys + 1⟩ := by
  obtain ⟨vm₁, hif, h⟩ := runOpcodes_cons.mp h
  obtain ⟨vm₂, hfirst, h⟩ := runOpcodes_append.mp h
  obtain ⟨vm₃, helse, h⟩ := runOpcodes_cons.mp h
  obtain ⟨vm₄, hsecond, h⟩ := runOpcodes_append.mp h
  obtain ⟨vm₅, hend, h⟩ := runOpcodes_cons.mp h
  cases h
  obtain ⟨a, r, rfl, ⟨rfl, rfl⟩ | ⟨rfl, rfl⟩⟩ := stepOpcode_ifOp rfl rfl hif
  · have hskip := runOpcodes_skip_sound hx rfl hfirst
    subst hskip
    have hswitch := stepOpcode_elseOp (b := false) rfl rfl helse
    subst hswitch
    obtain ⟨hline, hvm⟩ := runOpcodes_linear_sound hy rfl hsecond
    rw [hvm] at hend
    have hleave := stepOpcode_endIf rfl rfl hend
    subst hleave
    exact ⟨false, r, rfl, hline, rfl⟩
  · obtain ⟨hline, hvm⟩ := runOpcodes_linear_sound hx rfl hfirst
    rw [hvm] at helse
    have hswitch := stepOpcode_elseOp (b := true) rfl rfl helse
    subst hswitch
    have hskip := runOpcodes_skip_sound hy rfl hsecond
    subst hskip
    have hleave := stepOpcode_endIf rfl rfl hend
    subst hleave
    exact ⟨true, r, rfl, hline, rfl⟩

theorem runOpcodes_ifElse_complete {b : Bool} (hx : ∀ o ∈ xs, o.linear = true)
    (hy : ∀ o ∈ ys, o.linear = true) (h : runLine E c (if b then xs else ys) st = .ok st')
    (hcount : n + xs.length + ys.length + 3 ≤ maxOpsPerScript)
    (hsize : st.length + xs.length + ys.length ≤ maxStackSize) :
    runOpcodes E c (ifElse xs ys) ⟨ofBool b :: st, [], [], n⟩ =
      .ok ⟨st', [], [], n + 1 + cost xs + 1 + cost ys + 1⟩ := by
  have hcx := cost_le_length xs
  have hcy := cost_le_length ys
  have hlen := runLine_length h
  have hif := stepOpcode_ifOp_complete (E := E) (c := c) (o := ⟨0x63, []⟩) (b := b) rfl
    (show Vm.executing ⟨ofBool b :: st, [], [], n⟩ = true from rfl) rfl (by simp only; omega)
    (by simp only [List.length_nil]; omega)
  cases b with
  | true =>
    have hfirst := runOpcodes_linear_complete hx
      (show Vm.executing ⟨st, [], [.taken], n + 1⟩ = true from rfl) h
      (by simp only; omega) (by simp only [List.length_nil]; omega)
    have helse := stepOpcode_elseOp_complete (E := E) (c := c) (o := ⟨0x67, []⟩) (b := true) rfl
      (show Vm.cond ⟨st', [], [.taken], n + 1 + cost xs⟩ = _ from rfl)
      (by simp only; omega) (by simp only [List.length_nil, if_true] at hlen ⊢; omega)
    have hsecond := runOpcodes_skip_complete (E := E) (c := c) hy
      (show Vm.executing ⟨st', [], [.notTaken], n + 1 + cost xs + 1⟩ = false from rfl)
      (by simp only; omega) (by simp only [List.length_nil, if_true] at hlen ⊢; omega)
    have hend := stepOpcode_endIf_complete (E := E) (c := c) (o := ⟨0x68, []⟩) rfl
      (show Vm.cond ⟨st', [], [.notTaken], n + 1 + cost xs + 1 + cost ys⟩ = .notTaken :: []
        from rfl)
      (by simp only; omega) (by simp only [List.length_nil, if_true] at hlen ⊢; omega)
    exact runOpcodes_cons.mpr ⟨_, hif, runOpcodes_append.mpr ⟨_, hfirst, runOpcodes_cons.mpr
      ⟨_, helse, runOpcodes_append.mpr ⟨_, hsecond, runOpcodes_cons.mpr ⟨_, hend,
        runOpcodes_nil⟩⟩⟩⟩⟩
  | false =>
    have hfirst := runOpcodes_skip_complete (E := E) (c := c) hx
      (show Vm.executing ⟨st, [], [.notTaken], n + 1⟩ = false from rfl)
      (by simp only; omega) (by simp only [List.length_nil]; omega)
    have helse := stepOpcode_elseOp_complete (E := E) (c := c) (o := ⟨0x67, []⟩) (b := false) rfl
      (show Vm.cond ⟨st, [], [.notTaken], n + 1 + cost xs⟩ = _ from rfl)
      (by simp only; omega) (by simp only [List.length_nil]; omega)
    have hsecond := runOpcodes_linear_complete hy
      (show Vm.executing ⟨st, [], [.taken], n + 1 + cost xs + 1⟩ = true from rfl) h
      (by simp only; omega) (by simp only [List.length_nil]; omega)
    have hend := stepOpcode_endIf_complete (E := E) (c := c) (o := ⟨0x68, []⟩) rfl
      (show Vm.cond ⟨st', [], [.taken], n + 1 + cost xs + 1 + cost ys⟩ = .taken :: [] from rfl)
      (by simp only; omega)
      (by simp only [List.length_nil, Bool.false_eq_true, if_false] at hlen ⊢; omega)
    exact runOpcodes_cons.mpr ⟨_, hif, runOpcodes_append.mpr ⟨_, hfirst, runOpcodes_cons.mpr
      ⟨_, helse, runOpcodes_append.mpr ⟨_, hsecond, runOpcodes_cons.mpr ⟨_, hend,
        runOpcodes_nil⟩⟩⟩⟩⟩

/-- A block behind a false condition that is never executed. -/
def deadBlock (xs : List Opcode) : List Opcode :=
  ⟨0, []⟩ :: ⟨0x63, []⟩ :: (xs ++ [⟨0x68, []⟩])

theorem runOpcodes_deadBlock_sound (hx : ∀ o ∈ xs, o.linear = true)
    (h : runOpcodes E c (deadBlock xs) ⟨st, [], [], n⟩ = .ok vm') :
    vm' = ⟨st, [], [], n + 1 + cost xs + 1⟩ := by
  obtain ⟨vm₁, hfalse, h⟩ := runOpcodes_cons.mp h
  obtain ⟨vm₂, hif, h⟩ := runOpcodes_cons.mp h
  obtain ⟨vm₃, hbody, h⟩ := runOpcodes_append.mp h
  obtain ⟨vm₄, hend, h⟩ := runOpcodes_cons.mp h
  cases h
  have hpush := (stepOpcode_eq_ok.mp hfalse).1
  cases hpush
  obtain ⟨a, r, hst, ⟨rfl, rfl⟩ | ⟨rfl, rfl⟩⟩ := stepOpcode_ifOp rfl rfl hif
  · cases hst
    have hskip := runOpcodes_skip_sound hx rfl hbody
    subst hskip
    exact stepOpcode_endIf rfl rfl hend
  · cases hst

theorem runOpcodes_deadBlock_complete (hx : ∀ o ∈ xs, o.linear = true)
    (hcount : n + xs.length + 2 ≤ maxOpsPerScript) (hsize : st.length + 1 ≤ maxStackSize) :
    runOpcodes E c (deadBlock xs) ⟨st, [], [], n⟩ = .ok ⟨st, [], [], n + 1 + cost xs + 1⟩ := by
  have hcx := cost_le_length xs
  have hfalse : stepOpcode E c ⟨st, [], [], n⟩ ⟨0, []⟩ = .ok ⟨[] :: st, [], [], n⟩ :=
    stepOpcode_eq_ok.mpr ⟨rfl, by simp only [List.length_nil, List.length_cons]; omega⟩
  have hif := stepOpcode_ifOp_complete (E := E) (c := c) (o := ⟨0x63, []⟩) (b := false) rfl
    (show Vm.executing ⟨[] :: st, [], [], n⟩ = true from rfl) rfl (by simp only; omega)
    (by simp only [List.length_nil]; omega)
  have hbody := runOpcodes_skip_complete (E := E) (c := c) hx
    (show Vm.executing ⟨st, [], [.notTaken], n + 1⟩ = false from rfl)
    (by simp only; omega) (by simp only [List.length_nil]; omega)
  have hend := stepOpcode_endIf_complete (E := E) (c := c) (o := ⟨0x68, []⟩) rfl
    (show Vm.cond ⟨st, [], [.notTaken], n + 1 + cost xs⟩ = .notTaken :: [] from rfl)
    (by simp only; omega) (by simp only [List.length_nil]; omega)
  exact runOpcodes_cons.mpr ⟨_, hfalse, runOpcodes_cons.mpr ⟨_, hif, runOpcodes_append.mpr
    ⟨_, hbody, runOpcodes_cons.mpr ⟨_, hend, runOpcodes_nil⟩⟩⟩⟩

end IfElse

/-- The element a canonical push leaves: a single zero byte becomes the empty element. -/
def pushedData (d : Bytes) : Bytes := if d = [0] then [] else d

private theorem toNat_smallOpcode {b : UInt8} (hb : b.toNat ≤ 16) :
    (0x50 + b).toNat = 80 + b.toNat := by
  rw [UInt8.toNat_add]
  simp only [UInt8.reduceToNat]
  omega

private theorem instr_smallOpcode {b : UInt8} (hpos : b ≠ 0) (hb : b.toNat ≤ 16) :
    Opcode.instr ⟨0x50 + b, []⟩ = .push [b] := by
  have hval := toNat_smallOpcode hb
  have hb0 : b.toNat ≠ 0 := fun h => hpos (UInt8.toNat_inj.mp h)
  have hne : ∀ v : UInt8, v.toNat ≤ 80 → 0x50 + b ≠ v := by
    rintro v hv rfl
    omega
  have hsub : 0x50 + b - 0x50 = b := by
    rw [UInt8.add_comm]
    exact UInt8.add_sub_cancel b 0x50
  unfold Opcode.instr
  simp only [hne 0 (by decide), hne 0x4f (by decide), hne 0x50 (by decide), if_false, hval, hsub]
  rw [if_neg (by omega), if_pos (by omega)]

private theorem minimal_smallOpcode {b : UInt8} (hb : b.toNat ≤ 16) :
    Opcode.minimal ⟨0x50 + b, []⟩ = true := by
  have hval := toNat_smallOpcode hb
  simp only [Opcode.minimal, hval]
  rw [if_neg (by omega)]

/-- A data push of the builder is within the engine's rules and pushes its data. -/
theorem canonicalPush_linear {d : Bytes} (h : d.length ≤ maxScriptElementSize) :
    (canonicalPush d).linear = true ∧ (canonicalPush d).instr = .push (pushedData d) := by
  have hlong : d.length ≤ 520 := h
  suffices hpush : (canonicalPush d).instr = .push (pushedData d) ∧
      (canonicalPush d).data.length ≤ maxScriptElementSize ∧ (canonicalPush d).minimal = true by
    refine ⟨?_, hpush.1⟩
    simp [Opcode.linear, hpush.1, hpush.2.1, hpush.2.2]
  by_cases hzero : d = [] ∨ d = [0]
  · rcases hzero with rfl | rfl <;> decide
  have hne0 : d ≠ [] := fun hd => hzero (.inl hd)
  have hned : d ≠ [0] := fun hd => hzero (.inr hd)
  simp only [canonicalPush, if_neg hzero, pushedData, if_neg hned]
  by_cases hsmall : d.length = 1 ∧ d.headI.toNat ≤ 16
  · obtain ⟨b, rfl⟩ := List.length_eq_one_iff.mp hsmall.1
    have hb : b.toNat ≤ 16 := hsmall.2
    have hpos : b ≠ 0 := fun hz => hned (by rw [hz])
    rw [if_pos hsmall]
    exact ⟨instr_smallOpcode hpos hb, by simp, minimal_smallOpcode hb⟩
  rw [if_neg hsmall]
  by_cases hneg : d = [0x81]
  · subst hneg
    decide
  rw [if_neg hneg]
  have hmin : ¬ (d.length = 1 ∧ 1 ≤ d.headI.toNat ∧ d.headI.toNat ≤ 16) :=
    fun hd => hsmall ⟨hd.1, hd.2.2⟩
  have hlen : 0 < d.length := List.length_pos_iff.mpr hne0
  by_cases h75 : d.length ≤ 75
  · have hval : (UInt8.ofNat d.length).toNat = d.length := by
      rw [UInt8.toNat_ofNat']
      omega
    have hv0 : UInt8.ofNat d.length ≠ 0 := by
      intro hv
      rw [hv] at hval
      simp only [UInt8.toNat_zero] at hval
      omega
    rw [if_pos h75]
    refine ⟨?_, by simp only [maxScriptElementSize]; omega, ?_⟩
    · simp only [Opcode.instr, hv0, if_false, hval]
      rw [if_pos (by omega)]
    · simp [Opcode.minimal, minimalValue, hne0, hmin, hneg, h75]
  rw [if_neg h75]
  by_cases h255 : d.length ≤ 255
  · rw [if_pos h255]
    refine ⟨rfl, by simp only [maxScriptElementSize]; omega, ?_⟩
    simp [Opcode.minimal, minimalValue, hne0, hmin, hneg, h75, h255]
  rw [if_neg h255, if_pos (by omega)]
  refine ⟨rfl, hlong, ?_⟩
  have h16 : d.length < 65535 := by omega
  simp [Opcode.minimal, minimalValue, hne0, hmin, hneg, h75, h255, h16]

private theorem numberPush_small_linear : ∀ n ∈ Finset.Icc (-1 : ℤ) 16,
    (numberPush n).linear = true ∧ (numberPush n).instr = .push (serializeI64 n) := by
  decide +kernel

private theorem serializeI64_ne_zero_byte (n : ℤ) : serializeI64 n ≠ [0] := by
  intro h
  have hmin := (signedValue_serializeI64 n).1
  rw [h] at hmin
  exact absurd hmin (by decide)

/-- A number push of the builder is within the engine's rules and pushes the number. -/
theorem numberPush_linear {n : ℤ} (h : (serializeI64 n).length ≤ 8) :
    (numberPush n).linear = true ∧ (numberPush n).instr = .push (serializeI64 n) := by
  by_cases hs : SmallNumber n
  · apply numberPush_small_linear
    rw [Finset.mem_Icc]
    rcases hs with rfl | rfl | hs
    · decide
    · decide
    · omega
  · rw [numberPush_large hs]
    have hpush := canonicalPush_linear (d := serializeI64 n)
      (by simp only [maxScriptElementSize]; omega)
    rwa [pushedData, if_neg (serializeI64_ne_zero_byte n)] at hpush

/-- The element a push opcode of a signature script leaves on the stack. -/
def Opcode.pushed (o : Opcode) : Option Bytes :=
  match o.instr with
  | .push d => if o.linear then some d else none
  | _ => none

/-- The elements a push-only script pushes, first one first, within the engine's limits. -/
def signaturePushes (sig : Bytes) : Option (List Bytes) :=
  match parseScript sig with
  | .error _ => none
  | .ok ops =>
    if sig.length ≤ maxScriptsSize ∧ ops.length ≤ maxStackSize then ops.mapM Opcode.pushed
    else none

private theorem isPush_cases (h : o.isPush = true) :
    (∃ d, o.instr = .push d) ∨ o.instr = .reserved := by
  have hv : o.value.toNat ≤ 0x60 := by simpa [Opcode.isPush] using h
  unfold Opcode.instr
  split_ifs
  · exact .inl ⟨_, rfl⟩
  · exact .inl ⟨_, rfl⟩
  · exact .inl ⟨_, rfl⟩
  · exact .inr rfl
  · exact .inl ⟨_, rfl⟩

private theorem isPush_of_pushed {d : Bytes} (h : o.pushed = some d) : o.isPush = true := by
  unfold Opcode.pushed at h
  split at h
  case h_1 d' hi =>
    unfold Opcode.instr at hi
    rw [Opcode.isPush, decide_eq_true_eq]
    split_ifs at hi with h0 h1 h2 h3 h4 h5 h6 h7
    · simp [h0]
    · omega
    · simp [h2]
    · exact h4
    · split at hi <;> cases hi
  case h_2 => cases h

private theorem pushed_of_mapM {l : List Bytes} (h : ops.mapM Opcode.pushed = some l)
    (ho : o ∈ ops) : ∃ d, o.pushed = some d := by
  induction ops generalizing l with
  | nil => cases ho
  | cons a ops ih =>
    simp only [List.mapM_cons, Option.bind_eq_bind, Option.bind_eq_some_iff] at h
    obtain ⟨d, hd, l', hl', -⟩ := h
    rcases List.mem_cons.mp ho with rfl | ho
    · exact ⟨d, hd⟩
    · exact ih hl' ho

private theorem stepOpcode_isPush {st : List Bytes} (h : o.isPush = true) :
    stepOpcode E c ⟨st, [], [], 0⟩ o = .ok vm' ↔ ∃ d, o.pushed = some d ∧
      st.length + 1 ≤ maxStackSize ∧ vm' = ⟨d :: st, [], [], 0⟩ := by
  rw [stepOpcode_eq_ok]
  unfold Opcode.pushed
  rcases isPush_cases h with ⟨d, hi⟩ | hi
  · simp only [hi]
    by_cases hl : o.linear = true
    · rw [executeOpcode_linear hl rfl]
      simp only [lineEffect, Opcode.cost, hi, hl, if_true, Option.some.injEq, Except.ok.injEq]
      constructor
      · rintro ⟨⟨-, rfl, -, rfl⟩, hsize⟩
        exact ⟨d, rfl, by simpa using hsize, rfl⟩
      · rintro ⟨-, rfl, hsize, rfl⟩
        exact ⟨⟨_, rfl, by simp, rfl⟩, by simpa using hsize⟩
    · simp only [Opcode.linear, hi, Bool.and_eq_true, decide_eq_true_eq, not_and_or] at hl
      simp only [executeOpcode, hi, Opcode.linear]
      constructor
      · rintro ⟨hrun, -⟩
        rcases hl with hl | hl
        · rw [if_pos (by omega)] at hrun
          cases hrun
        · simp only [Bool.not_eq_true] at hl
          simp only [Vm.executing, hl, Bool.false_eq_true, ↓reduceIte] at hrun
          split_ifs at hrun
      · rintro ⟨d', hd', -⟩
        rcases hl with hl | hl <;> simp [hl] at hd'
  · simp [hi, executeOpcode, Vm.executing]

private theorem runOpcodes_isPush {st : List Bytes} (h : ∀ o ∈ ops, o.isPush = true)
    (hst : st.length ≤ maxStackSize) :
    runOpcodes E c ops ⟨st, [], [], 0⟩ = .ok vm' ↔ ∃ l, ops.mapM Opcode.pushed = some l ∧
      st.length + ops.length ≤ maxStackSize ∧ vm' = ⟨l.reverse ++ st, [], [], 0⟩ := by
  induction ops generalizing st with
  | nil =>
    simp only [runOpcodes_nil, Except.ok.injEq, List.mapM_nil, List.length_nil]
    constructor
    · rintro rfl
      exact ⟨[], rfl, hst, rfl⟩
    · rintro ⟨l, hl, -, rfl⟩
      cases hl
      rfl
  | cons o ops ih =>
    rw [runOpcodes_cons, List.mapM_cons]
    simp only [stepOpcode_isPush (h o List.mem_cons_self), List.length_cons]
    have hrest : ∀ a ∈ ops, a.isPush = true := fun a ha => h a (List.mem_cons_of_mem _ ha)
    constructor
    · rintro ⟨-, ⟨d, hd, hsize, rfl⟩, hrun⟩
      have hsize' : (d :: st).length ≤ maxStackSize := hsize
      obtain ⟨l, hl, htotal, rfl⟩ := (ih hrest hsize').mp hrun
      simp only [List.length_cons] at htotal
      exact ⟨d :: l, by simp [hd, hl], by omega, by simp⟩
    · rintro ⟨l, hl, htotal, rfl⟩
      simp only [Option.bind_eq_bind, Option.bind_eq_some_iff, Option.pure_def,
        Option.some.injEq] at hl
      obtain ⟨d, hd, l', hl', rfl⟩ := hl
      refine ⟨_, ⟨d, hd, by omega, rfl⟩, (ih hrest ?_).mpr ⟨l', hl', ?_, by simp⟩⟩
      · simp only [List.length_cons]
        omega
      · simp only [List.length_cons]
        omega

/-- A signature script runs exactly when it is push-only and within the limits, and leaves
its pushes on the stack. -/
theorem executeScript_signature {sig : Bytes} (hsig : sig.length ≤ maxScriptsSize) :
    executeScript E c sig true Vm.init = .ok vm' ↔
      ∃ l, signaturePushes sig = some l ∧ vm' = ⟨l.reverse, [], [], 0⟩ := by
  unfold executeScript signaturePushes
  cases hp : parseScript sig with
  | error e => simp [bind, Except.bind]
  | ok ops =>
    have hempty : ([] : List Bytes).length ≤ maxStackSize := Nat.zero_le _
    simp only [hsig, true_and]
    by_cases hall : ∀ o ∈ ops, o.isPush = true
    · have honly : (true && !ops.all Opcode.isPush) = false := by simpa using hall
      simp only [bind_eq_ok, Except.ok.injEq, exists_eq_left', honly, Bool.false_eq_true, if_false,
        Vm.init, runOpcodes_isPush hall hempty, List.append_nil]
      constructor
      · rintro ⟨-, ⟨l, hl, hsize, rfl⟩, h⟩
        cases h
        simp only [List.length_nil, Nat.zero_add] at hsize
        exact ⟨l, by rw [if_pos hsize, hl], rfl⟩
      · rintro ⟨l, hl, rfl⟩
        split_ifs at hl with hsize
        exact ⟨_, ⟨l, hl, by simpa using hsize, rfl⟩, rfl⟩
    · have honly : (true && !ops.all Opcode.isPush) = true := by simpa using hall
      simp only [bind_eq_ok, Except.ok.injEq, exists_eq_left', honly, if_true]
      constructor
      · intro h
        cases h
      · rintro ⟨l, hl, -⟩
        split_ifs at hl
        refine absurd (fun o ho => ?_) hall
        obtain ⟨d, hd⟩ := pushed_of_mapM hl ho
        exact isPush_of_pushed hd

end Stroemnet.Script
