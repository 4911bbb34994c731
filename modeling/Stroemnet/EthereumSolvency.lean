import Stroemnet.EthereumHtlc
import Mathlib.Algebra.BigOperators.Group.Finset.Basic
import Mathlib.Data.Fintype.EquivFin
import Mathlib.Data.Fintype.Pi

/-! # Solvency of the swap contract

Whatever foreign code does when it is paid, the contract holds the amounts of all swaps that
are still open, and a swap is paid out once. The invariant carries a reserve, the reward that
an unfinished call still owes its caller, and nested code keeps it for every reserve. -/
namespace Stroemnet.Evm

open Finset

@[simp] theorem toNat_solverReward (a : Uint256) : (solverReward a).toNat = a.toNat / 1000 := by
  simp [solverReward, bpsDenominator, BitVec.toNat_udiv]

@[simp] theorem toNat_receiverAmount (a : Uint256) :
    (receiverAmount a).toNat = a.toNat - a.toNat / 1000 := by
  have hle : solverReward a ≤ a := by
    rw [BitVec.le_def, toNat_solverReward]
    exact Nat.div_le_self _ _
  rw [receiverAmount, BitVec.toNat_sub_of_le hle, toNat_solverReward]

instance : Finite Bytes32 := by
  apply Finite.of_injective (fun b : Bytes32 => fun i : Fin 32 => (b.data.getD i 0).toFin)
  intro a b h
  apply Bytes32.ext
  apply List.ext_getElem (by simp)
  intro i ha hb
  have hi := congrFun h ⟨i, by simpa using ha⟩
  simpa [List.getElem?_eq_getElem ha, List.getElem?_eq_getElem hb, UInt8.toFin_inj] using hi

noncomputable instance : Fintype Bytes32 := Fintype.ofFinite _

/-- A swap that exists and has not been paid out. -/
def Swap.Open (s : Swap) : Prop := s.initialized = true ∧ s.finalized = false

instance (s : Swap) : Decidable s.Open := inferInstanceAs (Decidable (_ ∧ _))

def Swap.liability (s : Swap) : ℕ := if s.Open then s.amount.toNat else 0

/-- The sum of the amounts of all open swaps. -/
noncomputable def liabilities (w : World) : ℕ := ∑ id, (w.swaps id).liability

/-- The transfers made so far for one swap. -/
def paid (w : World) (id : Bytes32) : List Payout := w.payouts.filter (·.swapId = id)

/-- The two transfers that a settled swap makes, of its amount exactly. -/
def settlement (id : Bytes32) (s : Swap) (payee solver : Address) : List Payout :=
  [⟨id, payee, s.amount.toNat - s.amount.toNat / 1000⟩, ⟨id, solver, s.amount.toNat / 1000⟩]

/-- Nothing is paid for a swap before it is finalized, and afterwards at most one settlement,
to its receiver or its sender. -/
structure PaidOnce (w : World) (id : Bytes32) : Prop where
  unused : (w.swaps id).initialized = false → (w.swaps id).finalized = false
  none_yet : (w.swaps id).finalized = false → paid w id = []
  at_most : ∃ payee ∈ [(w.swaps id).receiver, (w.swaps id).sender], ∃ solver,
    paid w id <+: settlement id (w.swaps id) payee solver

def commitments (w : World) : List NewSwapLog :=
  w.logs.filterMap fun
    | .commitment l => some l
    | _ => none

/-- Every swap was created once, with the data it still has, and no two share an identifier
or a secret hash. -/
structure UsedOnce (w : World) : Prop where
  ids_nodup : ((commitments w).map NewSwapLog.swapId).Nodup
  hashes_nodup : ((commitments w).map NewSwapLog.secretHash).Nodup
  stored : ∀ l ∈ commitments w, ∃ finalized, w.swaps l.swapId =
    ⟨l.sender, l.senderDestinationAddress, l.receiver, l.amount, l.secretHash, l.timelock, true,
      finalized⟩
  marked : ∀ l ∈ commitments w, w.secretHashes l.secretHash = true
  created : ∀ id, (w.swaps id).initialized = true → ∃ l ∈ commitments w, l.swapId = id

/-- The invariant at every point where control is outside the contract. -/
structure Sound (C : Contract) (reserve : ℕ) (w : World) : Prop where
  solvent : liabilities w + reserve ≤ w.balances C.self
  paid_once : ∀ id, PaidOnce w id
  used_once : UsedOnce w

/-- A call settled a swap: it was open and unpaid, and the call paid the whole amount. -/
structure Settled (r : CallRecord) (id : Bytes32) (payee : Swap → Address) : Prop where
  was_open : (r.before.swaps id).Open
  unpaid : paid r.before id = []
  finalized : (r.after.swaps id) = { r.before.swaps id with finalized := true }
  paid_all : paid r.after id =
    settlement id (r.before.swaps id) (payee (r.before.swaps id)) r.sender

/-- What a recorded call can have done. A call that reverts changes nothing at all. -/
def CallRecord.Justified (C : Contract) (r : CallRecord) : Prop :=
  match r.error with
  | some _ => r.after = r.before
  | none =>
    match r.call with
    | .newSwap value onBehalfOf receiver senderDestination secretHash timelock _ id =>
      1000 < value.toNat ∧ r.timestamp < timelock.toNat ∧
        (r.before.swaps id).initialized = false ∧ r.before.secretHashes secretHash = false ∧
        r.after.swaps id = ⟨onBehalfOf, senderDestination, receiver, value, secretHash, timelock,
          true, false⟩
    | .claim id secret =>
      C.sha256 secret.data = (r.before.swaps id).secretHash ∧
        r.timestamp < (r.before.swaps id).timelock.toNat ∧ Settled r id Swap.receiver
    | .refund id =>
      (r.before.swaps id).timelock.toNat ≤ r.timestamp ∧ Settled r id Swap.sender

section Updates

variable (w : World) (id : Bytes32)

theorem liabilities_setSwap (s : Swap) :
    liabilities (w.setSwap id s) + (w.swaps id).liability = liabilities w + s.liability := by
  have hrest : ∑ x ∈ univ.erase id, (Function.update w.swaps id s x).liability =
      ∑ x ∈ univ.erase id, (w.swaps x).liability := by
    apply sum_congr rfl
    intro x hx
    rw [Function.update_of_ne (ne_of_mem_erase hx)]
  simp only [liabilities, World.setSwap]
  rw [← add_sum_erase univ _ (mem_univ id), hrest,
    ← add_sum_erase univ (fun x => (w.swaps x).liability) (mem_univ id), Function.update_self]
  omega

theorem liabilities_finalize (h : (w.swaps id).Open) :
    liabilities (w.setSwap id { w.swaps id with finalized := true }) +
      (w.swaps id).amount.toNat = liabilities w := by
  have hset := liabilities_setSwap w id { w.swaps id with finalized := true }
  simpa [Swap.liability, Swap.Open, h.1, h.2] using hset

@[simp] theorem balances_move_source {source target : Address} (amount : ℕ)
    (h : source ≠ target) :
    (w.move source target amount).balances source = w.balances source - amount := by
  simp [World.move, Function.update_of_ne h]

theorem balances_move_target {source target : Address} (amount : ℕ) (h : source ≠ target) :
    (w.move source target amount).balances target = w.balances target + amount := by
  simp [World.move, Function.update_of_ne h.symm]

/-- Ether that others move never leaves an account that is not the source. -/
theorem balances_le_move {a source : Address} (target : Address) (amount : ℕ)
    (h : a ≠ source) : w.balances a ≤ (w.move source target amount).balances a := by
  by_cases ht : a = target
  · subst ht
    rw [balances_move_target w amount h.symm]
    exact Nat.le_add_right _ _
  · simp [World.move, Function.update_of_ne ht, Function.update_of_ne h]

end Updates

def KeepsFinal (w w' : World) : Prop :=
  ∀ id, (w.swaps id).finalized = true → w'.swaps id = w.swaps id ∧ paid w' id = paid w id

theorem KeepsFinal.refl (w : World) : KeepsFinal w w := fun _ _ => ⟨rfl, rfl⟩

theorem KeepsFinal.trans {u v w : World} (h : KeepsFinal u v) (h' : KeepsFinal v w) :
    KeepsFinal u w := by
  intro id hid
  obtain ⟨hs, hp⟩ := h id hid
  have hid' : (v.swaps id).finalized = true := by rw [hs]; exact hid
  obtain ⟨hs', hp'⟩ := h' id hid'
  exact ⟨hs'.trans hs, hp'.trans hp⟩

theorem Sound.mono {C : Contract} {k k' : ℕ} {w : World} (h : Sound C k w) (hk : k' ≤ k) :
    Sound C k' w :=
  ⟨by have := h.solvent; omega, h.paid_once, h.used_once⟩

/-- An execution that keeps the invariant, for a given reserve, wherever control is outside
the contract, and ends, unless it reverts, in a world with the given property. -/
structure Keeps (C : Contract) (k : ℕ) (Q : World → Prop) (o : Outcome) : Prop where
  seen : ∀ v ∈ o.seen, Sound C k v
  calls : ∀ r ∈ o.calls, r.Justified C
  result : ∀ w, o.result = .ok w → Sound C k w ∧ Q w

section Combinators

variable {C : Contract} {k : ℕ} {Q R : World → Prop} {w : World} {o : Outcome}

theorem Keeps.reverted (reason : String) : Keeps C k Q (.reverted reason) := by
  refine ⟨by simp [Outcome.reverted], by simp [Outcome.reverted], ?_⟩
  intro w h
  cases h

theorem Keeps.post (h : Keeps C k Q o) (hpost : ∀ v, Q v → R v) : Keeps C k R o :=
  ⟨h.seen, h.calls, fun v hv => ⟨(h.result v hv).1, hpost v (h.result v hv).2⟩⟩

theorem Keeps.left (h : Keeps C k Q o) (hw : Sound C k w) (hq : Q w) :
    Sound C k (o.left w) ∧ Q (o.left w) := by
  unfold Outcome.left
  split
  · exact h.result _ ‹_›
  · exact ⟨hw, hq⟩

theorem Keeps.resume (h : Keeps C k Q o) (hw : Sound C k w) (hq : Q w)
    {next : World → Outcome} (hnext : ∀ v, Sound C k v → Q v → Keeps C k R (next v)) :
    Keeps C k R (o.resume w next) := by
  obtain ⟨hs, hf⟩ := h.left hw hq
  have hn := hnext _ hs hf
  refine ⟨?_, ?_, hn.result⟩
  · intro v hv
    rcases List.mem_append.mp hv with hv | hv
    · exact h.seen v hv
    · exact hn.seen v hv
  · intro r hr
    rcases List.mem_append.mp hr with hr | hr
    · exact h.calls r hr
    · exact hn.calls r hr

/-- A part that must succeed, followed by the rest from the world it leaves. -/
theorem Keeps.require {k' : ℕ} {next : World → Outcome} {reason : String}
    (h : Keeps C k' Q o) (hk : k ≤ k')
    (hnext : ∀ v, Sound C k' v → Q v → Keeps C k R (next v)) :
    Keeps C k R (o.require reason next) := by
  unfold Outcome.require
  split
  · rename_i v hv
    obtain ⟨hs, hq⟩ := h.result v hv
    have hn := hnext v hs hq
    refine ⟨?_, ?_, hn.result⟩
    · intro x hx
      rcases List.mem_append.mp hx with hx | hx
      · exact (h.seen x hx).mono hk
      · exact hn.seen x hx
    · intro r hr
      rcases List.mem_append.mp hr with hr | hr
      · exact h.calls r hr
      · exact hn.calls r hr
  · refine ⟨fun x hx => (h.seen x hx).mono hk, h.calls, ?_⟩
    intro v hv
    cases hv

theorem Keeps.seeing (h : Keeps C k Q o) (hw : Sound C k w) : Keeps C k Q (o.seeing w) := by
  refine ⟨?_, h.calls, h.result⟩
  intro v hv
  rcases List.mem_cons.mp hv with rfl | hv
  · exact hw
  · exact h.seen v hv

/-- Foreign code that keeps the invariant for every reserve, and settled swaps as they are. -/
def Harmless (C : Contract) (react : World → Outcome) : Prop :=
  ∀ k w, Sound C k w → Keeps C k (KeepsFinal w) (react w)

end Combinators

section Creation

variable {C : Contract} {k : ℕ} {w : World}

private theorem liabilities_storeSwap (sender : Address) (l : NewSwapLog)
    (hnew : (w.swaps l.swapId).initialized = false) :
    liabilities (w.storeSwap C.self sender l) = liabilities w + l.amount.toNat := by
  have hset := liabilities_setSwap w l.swapId ⟨l.sender, l.senderDestinationAddress, l.receiver,
    l.amount, l.secretHash, l.timelock, true, false⟩
  simp only [Swap.liability, Swap.Open, hnew, Bool.false_eq_true, false_and, if_false, add_zero,
    and_self, if_true] at hset
  exact hset

private theorem swaps_storeSwap_of_ne {sender : Address} {l : NewSwapLog} {id : Bytes32}
    (h : id ≠ l.swapId) : (w.storeSwap C.self sender l).swaps id = w.swaps id :=
  Function.update_of_ne h _ _

private theorem swaps_storeSwap_self (sender : Address) (l : NewSwapLog) :
    (w.storeSwap C.self sender l).swaps l.swapId =
      ⟨l.sender, l.senderDestinationAddress, l.receiver, l.amount, l.secretHash, l.timelock,
        true, false⟩ :=
  Function.update_self _ _ _

private theorem commitments_storeSwap (sender : Address) (l : NewSwapLog) :
    commitments (w.storeSwap C.self sender l) = commitments w ++ [l] := by
  simp [commitments, World.storeSwap, World.emit, World.setSwap, World.move]

private theorem usedOnce_storeSwap (h : UsedOnce w) (sender : Address) (l : NewSwapLog)
    (hnew : (w.swaps l.swapId).initialized = false) (hhash : w.secretHashes l.secretHash = false) :
    UsedOnce (w.storeSwap C.self sender l) := by
  have hid : ∀ l' ∈ commitments w, l'.swapId ≠ l.swapId := by
    intro l' hl' heq
    obtain ⟨f, hf⟩ := h.stored l' hl'
    rw [← heq, hf] at hnew
    cases hnew
  have hsecret : ∀ l' ∈ commitments w, l'.secretHash ≠ l.secretHash := by
    intro l' hl' heq
    rw [← heq, h.marked l' hl'] at hhash
    cases hhash
  refine ⟨?_, ?_, ?_, ?_, ?_⟩
  · rw [commitments_storeSwap, List.map_append, List.nodup_append]
    refine ⟨h.ids_nodup, by simp, ?_⟩
    simpa using hid
  · rw [commitments_storeSwap, List.map_append, List.nodup_append]
    refine ⟨h.hashes_nodup, by simp, ?_⟩
    simpa using hsecret
  · intro l' hl'
    rw [commitments_storeSwap, List.mem_append, List.mem_singleton] at hl'
    rcases hl' with hl' | rfl
    · rw [swaps_storeSwap_of_ne (hid l' hl')]
      exact h.stored l' hl'
    · exact ⟨false, swaps_storeSwap_self sender l'⟩
  · intro l' hl'
    rw [commitments_storeSwap, List.mem_append, List.mem_singleton] at hl'
    change Function.update w.secretHashes l.secretHash true l'.secretHash = true
    rcases hl' with hl' | rfl
    · rw [Function.update_of_ne (hsecret l' hl')]
      exact h.marked l' hl'
    · exact Function.update_self _ _ _
  · intro id hinit
    rw [commitments_storeSwap]
    by_cases heq : id = l.swapId
    · exact ⟨l, by simp, heq.symm⟩
    · rw [swaps_storeSwap_of_ne heq] at hinit
      obtain ⟨l', hl', hl'id⟩ := h.created id hinit
      exact ⟨l', List.mem_append_left _ hl', hl'id⟩

private theorem paidOnce_storeSwap (h : ∀ id, PaidOnce w id) (sender : Address) (l : NewSwapLog)
    (hnew : (w.swaps l.swapId).initialized = false) (id : Bytes32) :
    PaidOnce (w.storeSwap C.self sender l) id := by
  have hpaid : paid (w.storeSwap C.self sender l) id = paid w id := rfl
  by_cases heq : id = l.swapId
  · subst heq
    have hnone := (h l.swapId).none_yet ((h l.swapId).unused hnew)
    refine ⟨fun hu => ?_, fun _ => hpaid.trans hnone, ?_⟩
    · rw [swaps_storeSwap_self] at hu
      cases hu
    · rw [hpaid, hnone]
      exact ⟨_, List.mem_cons_self, 0, List.nil_prefix⟩
  · have hs : (w.storeSwap C.self sender l).swaps id = w.swaps id := swaps_storeSwap_of_ne heq
    exact ⟨by rw [hs]; exact (h id).unused, by rw [hs, hpaid]; exact (h id).none_yet,
      by rw [hs, hpaid]; exact (h id).at_most⟩

theorem Sound.storeSwap (h : Sound C k w) {sender : Address} (hsender : sender ≠ C.self)
    (l : NewSwapLog) (hnew : (w.swaps l.swapId).initialized = false)
    (hhash : w.secretHashes l.secretHash = false) :
    Sound C k (w.storeSwap C.self sender l) := by
  refine ⟨?_, paidOnce_storeSwap h.paid_once sender l hnew,
    usedOnce_storeSwap h.used_once sender l hnew hhash⟩
  rw [liabilities_storeSwap sender l hnew]
  have hbal : (w.storeSwap C.self sender l).balances C.self =
      w.balances C.self + l.amount.toNat := balances_move_target w _ hsender
  have := h.solvent
  omega

end Creation

def SameOff (id : Bytes32) (w w' : World) : Prop :=
  ∀ id', id' ≠ id → w'.swaps id' = w.swaps id' ∧ paid w' id' = paid w id'

section Payout

variable {C : Contract} {k : ℕ} {w : World} {id : Bytes32}

theorem KeepsFinal.sameOff {u v : World} (h : KeepsFinal u v) (hoff : SameOff id v w)
    (hopen : (u.swaps id).finalized = false) : KeepsFinal u w := by
  intro id' hid'
  have hne : id' ≠ id := by
    rintro rfl
    rw [hopen] at hid'
    cases hid'
  obtain ⟨hs, hp⟩ := h id' hid'
  obtain ⟨hs', hp'⟩ := hoff id' hne
  exact ⟨hs'.trans hs, hp'.trans hp⟩

theorem paid_pay (payee : Address) (amount : ℕ) :
    paid (w.pay C.self payee amount id) id = paid w id ++ [⟨id, payee, amount⟩] := by
  simp [paid, World.pay]

theorem sameOff_pay (payee : Address) (amount : ℕ) :
    SameOff id w (w.pay C.self payee amount id) := by
  intro id' hne
  refine ⟨rfl, ?_⟩
  simp [paid, World.pay, hne.symm]

/-- A payment uses up the part of the reserve that it was kept for. -/
theorem Sound.pay {payee : Address} {amount : ℕ} (h : Sound C (k + amount) w)
    (hpayee : payee ≠ C.self) (hpaid : PaidOnce (w.pay C.self payee amount id) id) :
    Sound C k (w.pay C.self payee amount id) := by
  refine ⟨?_, ?_, ⟨h.used_once.ids_nodup, h.used_once.hashes_nodup, h.used_once.stored,
    h.used_once.marked, h.used_once.created⟩⟩
  · have hsolvent := h.solvent
    have hbal : (w.pay C.self payee amount id).balances C.self = w.balances C.self - amount :=
      balances_move_source w amount hpayee.symm
    have hliab : liabilities (w.pay C.self payee amount id) = liabilities w := rfl
    rw [hbal, hliab]
    omega
  · intro id'
    by_cases heq : id' = id
    · rw [heq]
      exact hpaid
    · obtain ⟨hs, hp⟩ := sameOff_pay (C := C) (w := w) payee amount id' heq
      have ho := h.paid_once id'
      exact ⟨by rw [hs]; exact ho.unused, by rw [hs, hp]; exact ho.none_yet,
        by rw [hs, hp]; exact ho.at_most⟩

theorem transfer_keeps {react : World → Outcome} (hreact : Harmless C react) {payee : Address}
    {amount : Uint256} (h : Sound C (k + amount.toNat) w)
    (hpaid : PaidOnce (w.pay C.self payee amount.toNat id) id) :
    Keeps C k (KeepsFinal (w.pay C.self payee amount.toNat id))
      (transfer C id payee amount react w) := by
  unfold transfer
  split_ifs with hbal hself
  · exact .reverted _
  · exact .reverted _
  · exact hreact k _ (h.pay hself hpaid)

theorem Sound.emit (h : Sound C k w) {l : Log} (hl : ∀ c, l ≠ .commitment c) :
    Sound C k (w.emit l) := by
  have hcommit : commitments (w.emit l) = commitments w := by
    cases l with
    | commitment c => exact absurd rfl (hl c)
    | refund id => simp [commitments, World.emit]
    | claim c => simp [commitments, World.emit]
    | solverReward id a r => simp [commitments, World.emit]
  have hu := h.used_once
  refine ⟨h.solvent, fun id => ⟨(h.paid_once id).unused, (h.paid_once id).none_yet,
    (h.paid_once id).at_most⟩, ?_⟩
  constructor
  · rw [hcommit]
    exact hu.ids_nodup
  · rw [hcommit]
    exact hu.hashes_nodup
  · rw [hcommit]
    exact hu.stored
  · rw [hcommit]
    exact hu.marked
  · rw [hcommit]
    exact hu.created

/-- The state of a swap between its finalization and the end of its payout. -/
structure Paying (w : World) (id : Bytes32) (done : List Payout) : Prop where
  initialized : (w.swaps id).initialized = true
  finalized : (w.swaps id).finalized = true
  paid_eq : paid w id = done

theorem Paying.kept {w' : World} {done : List Payout} (h : Paying w id done)
    (hk : KeepsFinal w w') : Paying w' id done ∧ w'.swaps id = w.swaps id := by
  obtain ⟨hs, hp⟩ := hk id h.finalized
  exact ⟨⟨hs ▸ h.initialized, hs ▸ h.finalized, hp.trans h.paid_eq⟩, hs⟩

theorem Paying.pay {done : List Payout} (h : Paying w id done) (payee : Address) (amount : ℕ) :
    Paying (w.pay C.self payee amount id) id (done ++ [⟨id, payee, amount⟩]) :=
  ⟨h.initialized, h.finalized, by rw [paid_pay, h.paid_eq]⟩

theorem Paying.paidOnce {done : List Payout} (h : Paying w id done) {payee solver : Address}
    (hpayee : payee ∈ [(w.swaps id).receiver, (w.swaps id).sender])
    (hdone : done <+: settlement id (w.swaps id) payee solver) : PaidOnce w id := by
  refine ⟨?_, ?_, payee, hpayee, solver, h.paid_eq ▸ hdone⟩
  · intro hu
    rw [h.initialized] at hu
    cases hu
  · intro hf
    rw [h.finalized] at hf
    cases hf

/-- The two transfers and the code they run keep the invariant, with the reward in reserve
while the first is under way, and pay the whole amount unless the call reverts. -/
theorem payOut_keeps {u : World} (sender : Address) {payee : Address}
    {onPayee onSolver : World → Outcome}
    (hreact : Harmless C onPayee) (hreact' : Harmless C onSolver)
    (h : Sound C (k + (w.swaps id).amount.toNat) w) (hw : Paying w id [])
    (hpayee : payee ∈ [(w.swaps id).receiver, (w.swaps id).sender])
    (hopen : (u.swaps id).finalized = false) (hoff : KeepsFinal u w) :
    Keeps C k (fun v => KeepsFinal u v ∧ v.swaps id = w.swaps id ∧
        paid v id = settlement id (w.swaps id) payee sender)
      (payOut C sender id payee (w.swaps id).amount onPayee onSolver w) := by
  set s := w.swaps id with hs
  have hdiv := Nat.div_le_self s.amount.toNat 1000
  have hfirst : Sound C (k + (solverReward s.amount).toNat + (receiverAmount s.amount).toNat) w :=
    h.mono (by simp only [toNat_solverReward, toNat_receiverAmount]; omega)
  have hpay := hw.pay (C := C) payee (receiverAmount s.amount).toNat
  have hpref : [⟨id, payee, (receiverAmount s.amount).toNat⟩] <+:
      settlement id s payee sender := by
    simp [settlement]
  refine (transfer_keeps hreact hfirst (hpay.paidOnce hpayee hpref)).require (by omega) ?_
  intro w₂ hsound₂ hkept₂
  obtain ⟨hpaying₂, hs₂⟩ := hpay.kept hkept₂
  have hpay₂ := hpaying₂.pay (C := C) sender (solverReward s.amount).toNat
  have hs₂' : w₂.swaps id = s := hs₂
  have hpref₂ : [⟨id, payee, (receiverAmount s.amount).toNat⟩] ++
      [⟨id, sender, (solverReward s.amount).toNat⟩] <+:
      settlement id s payee sender := by
    simp [settlement]
  have honce : PaidOnce (w₂.pay C.self sender (solverReward s.amount).toNat id) id := by
    have hpayee₂ : payee ∈ [(w₂.swaps id).receiver, (w₂.swaps id).sender] := by
      rw [hs₂']
      exact hpayee
    have hdone : [] ++ [⟨id, payee, (receiverAmount s.amount).toNat⟩] ++
        [⟨id, sender, (solverReward s.amount).toNat⟩] <+:
        settlement id (w₂.swaps id) payee sender := by
      rw [hs₂']
      exact hpref₂
    exact hpay₂.paidOnce hpayee₂ hdone
  have hu₂ : KeepsFinal u w₂ :=
    (hoff.sameOff (sameOff_pay payee _) hopen).trans hkept₂
  refine (transfer_keeps hreact' hsound₂ honce).require le_rfl ?_
  intro w₄ hsound₄ hkept₄
  obtain ⟨hpaying₄, hs₄⟩ := hpay₂.kept hkept₄
  refine ⟨by simp, by simp, ?_⟩
  intro w' hw'
  cases hw'
  refine ⟨hsound₄.emit (by simp), ?_, hs₄.trans hs₂', ?_⟩
  · exact (hu₂.sameOff (sameOff_pay sender _) hopen).trans hkept₄
  · refine hpaying₄.paid_eq.trans ?_
    simp [settlement]

end Payout

section Calls

variable {C : Contract} {k : ℕ} {w : World} {timestamp : ℕ} {sender : Address}

/-- What finalizing a swap leaves to pay: its whole amount moves into the reserve. -/
private theorem sound_finalize {id : Bytes32} (h : Sound C k w) (hopen : (w.swaps id).Open)
    {l : Log} (hl : ∀ c, l ≠ .commitment c) :
    let w' := (w.setSwap id { w.swaps id with finalized := true }).emit l
    Sound C (k + (w.swaps id).amount.toNat) w' ∧ Paying w' id [] ∧ KeepsFinal w w' := by
  have hself : (w.setSwap id { w.swaps id with finalized := true }).swaps id =
      { w.swaps id with finalized := true } := Function.update_self _ _ _
  have hne : ∀ id', id' ≠ id →
      (w.setSwap id { w.swaps id with finalized := true }).swaps id' = w.swaps id' :=
    fun id' hid' => Function.update_of_ne hid' _ _
  have hnone := (h.paid_once id).none_yet hopen.2
  have hpaying : Paying (w.setSwap id { w.swaps id with finalized := true }) id [] :=
    ⟨by rw [hself]; exact hopen.1, by rw [hself], hnone⟩
  have hu := h.used_once
  refine ⟨Sound.emit ⟨?_, ?_, ?_⟩ hl, ⟨hpaying.initialized, hpaying.finalized, hnone⟩,
    (KeepsFinal.refl w).sameOff (fun id' hid' => ⟨hne id' hid', rfl⟩) hopen.2⟩
  · have hfin := liabilities_finalize w id hopen
    have hsolvent := h.solvent
    change _ ≤ w.balances C.self
    omega
  · intro id'
    by_cases heq : id' = id
    · subst heq
      exact hpaying.paidOnce List.mem_cons_self (List.nil_prefix (l := settlement _ _ _ 0))
    · have ho := h.paid_once id'
      exact ⟨by rw [hne id' heq]; exact ho.unused, by rw [hne id' heq]; exact ho.none_yet,
        by rw [hne id' heq]; exact ho.at_most⟩
  · refine ⟨hu.ids_nodup, hu.hashes_nodup, ?_, hu.marked, ?_⟩
    · intro l' hl'
      obtain ⟨f, hf⟩ := hu.stored l' hl'
      by_cases heq : l'.swapId = id
      · rw [heq] at hf ⊢
        exact ⟨true, by rw [hself, hf]⟩
      · exact ⟨f, by rw [hne _ heq, hf]⟩
    · intro id' hinit
      by_cases heq : id' = id
      · exact hu.created id' (by rw [heq]; exact hopen.1)
      · rw [hne _ heq] at hinit
        exact hu.created id' hinit

/-- Settling an open swap, whichever party it is settled for. -/
private theorem settle_keeps {id : Bytes32} {onPayee onSolver : World → Outcome}
    (hreact : Harmless C onPayee) (hreact' : Harmless C onSolver) (h : Sound C k w)
    (hopen : (w.swaps id).Open) {payee : Address}
    (hpayee : payee ∈ [(w.swaps id).receiver, (w.swaps id).sender])
    {l : Log} (hl : ∀ c, l ≠ .commitment c) :
    Keeps C k (fun v => KeepsFinal w v ∧ v.swaps id = { w.swaps id with finalized := true } ∧
        paid v id = settlement id (w.swaps id) payee sender)
      (payOut C sender id payee (w.swaps id).amount onPayee onSolver
        ((w.setSwap id { w.swaps id with finalized := true }).emit l)) := by
  obtain ⟨hs, hp, hf⟩ := sound_finalize h hopen hl
  have hself : ((w.setSwap id { w.swaps id with finalized := true }).emit l).swaps id =
      { w.swaps id with finalized := true } := Function.update_self _ _ _
  have hkeeps := payOut_keeps sender hreact hreact' (by rw [hself]; exact hs) hp
    (show payee ∈ _ by rw [hself]; exact hpayee) hopen.2 hf
  rw [hself] at hkeeps
  exact hkeeps

def Succeeds (C : Contract) (timestamp : ℕ) (sender : Address) (call : Call) (w v : World) :
    Prop :=
  KeepsFinal w v ∧ CallRecord.Justified C ⟨timestamp, sender, call, w, none, v⟩

private theorem newSwap_keeps (h : Sound C k w) (hsender : sender ≠ C.self) (value : Uint256)
    (onBehalfOf receiver : Address) (senderDestination : Bytes) (secretHash : Bytes32)
    (timelock : Uint256) (destination : UInt8) (id : Bytes32) :
    Keeps C k (Succeeds C timestamp sender (.newSwap value onBehalfOf receiver senderDestination
        secretHash timelock destination id) w)
      (newSwap C timestamp sender value onBehalfOf receiver senderDestination secretHash timelock
        destination id w) := by
  unfold newSwap
  split_ifs with hbal hvalue htime hreceiver hhash hinit hid hused
  any_goals exact .reverted _
  rw [Bool.not_eq_true] at hinit hused
  refine ⟨by simp, by simp, ?_⟩
  intro v hv
  cases hv
  have hvalue' : 1000 < value.toNat := by simpa [bpsDenominator, BitVec.lt_def] using hvalue
  refine ⟨h.storeSwap hsender _ hinit hused, ?_, hvalue', by omega, hinit, hused,
    swaps_storeSwap_self (C := C) (w := w) sender ⟨id, onBehalfOf, receiver, senderDestination,
      value, secretHash, timelock, destination⟩⟩
  have hoff : SameOff id w (w.storeSwap C.self sender ⟨id, onBehalfOf, receiver,
      senderDestination, value, secretHash, timelock, destination⟩) :=
    fun id' hid' => ⟨swaps_storeSwap_of_ne hid', rfl⟩
  exact (KeepsFinal.refl w).sameOff hoff ((h.paid_once id).unused hinit)

private theorem claim_keeps {onReceiver onSolver : World → Outcome}
    (hreact : Harmless C onReceiver) (hreact' : Harmless C onSolver) (h : Sound C k w)
    (id secret : Bytes32) :
    Keeps C k (Succeeds C timestamp sender (.claim id secret) w)
      (claim C timestamp sender id secret onReceiver onSolver w) := by
  simp only [claim]
  split_ifs with hinit hfinal hhash htime
  any_goals exact .reverted _
  have hopen : (w.swaps id).Open := ⟨by simpa using hinit, by simpa using hfinal⟩
  refine (settle_keeps hreact hreact' h hopen List.mem_cons_self (by simp)).post ?_
  rintro v ⟨hkept, hswap, hpaid⟩
  exact ⟨hkept, by simpa using hhash, by simpa using htime, hopen,
    (h.paid_once id).none_yet hopen.2, hswap, hpaid⟩

private theorem refund_keeps {onSender onSolver : World → Outcome}
    (hreact : Harmless C onSender) (hreact' : Harmless C onSolver) (h : Sound C k w)
    (id : Bytes32) :
    Keeps C k (Succeeds C timestamp sender (.refund id) w)
      (refund C timestamp sender id onSender onSolver w) := by
  simp only [refund]
  split_ifs with hinit hfinal htime
  any_goals exact .reverted _
  have hopen : (w.swaps id).Open := ⟨by simpa using hinit, by simpa using hfinal⟩
  refine (settle_keeps hreact hreact' h hopen (by simp) (by simp)).post ?_
  rintro v ⟨hkept, hswap, hpaid⟩
  exact ⟨hkept, by simpa using htime, hopen, (h.paid_once id).none_yet hopen.2, hswap, hpaid⟩

theorem dispatch_keeps {onPayee onSolver : World → Outcome} (hreact : Harmless C onPayee)
    (hreact' : Harmless C onSolver) (h : Sound C k w) (hsender : sender ≠ C.self)
    (call : Call) :
    Keeps C k (Succeeds C timestamp sender call w)
      (dispatch C timestamp sender onPayee onSolver w call) := by
  cases call with
  | newSwap value onBehalfOf receiver senderDestination secretHash timelock destination id =>
    exact newSwap_keeps h hsender ..
  | claim id secret => exact claim_keeps hreact hreact' h id secret
  | refund id => exact refund_keeps hreact hreact' h id

theorem Keeps.recorded {o : Outcome} {call : Call}
    (h : Keeps C k (Succeeds C timestamp sender call w) o) :
    Keeps C k (KeepsFinal w) (recorded timestamp sender call w o) := by
  refine ⟨h.seen, ?_, fun v hv => ⟨(h.result v hv).1, (h.result v hv).2.1⟩⟩
  intro r hr
  rcases List.mem_append.mp hr with hr | hr
  · exact h.calls r hr
  · rw [List.mem_singleton] at hr
    subst hr
    simp only [Outcome.reason, Outcome.left]
    cases ho : o.result with
    | ok v => exact (h.result v ho).2.2
    | error e => rfl

end Calls

section Runs

variable {C : Contract}

theorem Sound.move {k : ℕ} {w : World} (h : Sound C k w) {source : Address}
    (hsource : source ≠ C.self) (target : Address) (amount : ℕ) :
    Sound C k (w.move source target amount) := by
  have hu := h.used_once
  refine ⟨?_, fun id => ⟨(h.paid_once id).unused, (h.paid_once id).none_yet,
    (h.paid_once id).at_most⟩, ⟨hu.ids_nodup, hu.hashes_nodup, hu.stored, hu.marked, hu.created⟩⟩
  have hsolvent := h.solvent
  have hbal := balances_le_move w target amount hsource.symm
  change liabilities w + k ≤ _
  omega

/-- Nested code keeps the invariant, by induction on the tree of calls it makes. -/
theorem exec_keeps (timestamp : ℕ) (code : Code) : Harmless C (exec C timestamp code) := by
  induction code with
  | stop =>
    intro k w h
    refine ⟨by simpa [exec] using h, by simp [exec], ?_⟩
    intro v hv
    cases hv
    exact ⟨h, .refl w⟩
  | revert =>
    intro k w h
    refine ⟨by simpa [exec] using h, by simp [exec], ?_⟩
    intro v hv
    cases hv
  | move source target amount next ih =>
    intro k w h
    simp only [exec]
    split_ifs with hguard
    · exact ih k w h
    · rw [not_or] at hguard
      exact (ih k _ (h.move hguard.1 target amount)).seeing h
  | attempt inner next ihi ihn =>
    intro k w h
    refine (ihi k w h).resume h (.refl w) ?_
    intro v hs hv
    exact (ihn k v hs).post fun x hx => hv.trans hx
  | call sender call onPayee onSolver next ihp ihs ihn =>
    intro k w h
    simp only [exec]
    split_ifs with hself
    · exact ihn k w h
    · refine Keeps.seeing ((dispatch_keeps ihp ihs h hself call).recorded.resume h (.refl w) ?_) h
      intro v hs hv
      exact (ihn k v hs).post fun x hx => hv.trans hx

theorem run_keeps (txs : List Transaction) : Harmless C (run C txs) := by
  induction txs with
  | nil =>
    intro k w h
    refine ⟨by simpa [run] using h, by simp [run], ?_⟩
    intro v hv
    cases hv
    exact ⟨h, .refl w⟩
  | cons tx txs ih =>
    intro k w h
    refine (exec_keeps tx.timestamp tx.code k w h).resume h (.refl w) ?_
    intro v hs hv
    exact (ih k v hs).post fun x hx => hv.trans hx

theorem sound_deployed (balances : Address → ℕ) : Sound C 0 (World.deployed balances) := by
  refine ⟨?_, ?_, ?_⟩
  · simp [liabilities, World.deployed, Swap.zero, Swap.liability, Swap.Open]
  · intro id
    exact ⟨fun _ => rfl, fun _ => rfl, _, List.mem_cons_self, 0, List.nil_prefix⟩
  · constructor <;> simp [commitments, World.deployed, Swap.zero]

/-- Over every run from deployment, with calls nested in the payouts and reverts at any
depth: wherever control is outside the contract it holds the amounts of all open swaps,
has paid each swap at most once and created each identifier and secret hash at most once;
and every call either did what it may do or left the world as it was. -/
theorem contract_solvent_and_pays_once (C : Contract) (balances : Address → ℕ)
    (txs : List Transaction) :
    (∀ w ∈ (run C txs (World.deployed balances)).seen,
      liabilities w ≤ w.balances C.self ∧ (∀ id, PaidOnce w id) ∧ UsedOnce w) ∧
    ∀ r ∈ (run C txs (World.deployed balances)).calls, r.Justified C := by
  have hkeeps := run_keeps (C := C) txs 0 _ (sound_deployed balances)
  refine ⟨?_, hkeeps.calls⟩
  intro w hw
  have hs := hkeeps.seen w hw
  exact ⟨hs.solvent, hs.paid_once, hs.used_once⟩

end Runs

end Stroemnet.Evm
