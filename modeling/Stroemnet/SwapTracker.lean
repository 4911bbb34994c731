import Stroemnet.SwapProtocol
import Mathlib.Logic.Function.Basic

/-! # Tracking swaps

A record is opened by the first commitment of a swap, locked by a matching counter
commitment and resolved once, by a reveal or a refund. -/
namespace Stroemnet

inductive Resolution
  | revealed (secret : Bytes32)
  | refunded
deriving DecidableEq

def Resolution.text : Resolution → String
  | revealed secret => hexEncode secret.data
  | refunded => "refunded"

structure SwapRecord where
  initCommitment : CommitmentV1
  counterCommitment : Option CommitmentV1
  resolution : Option String
  createdAt : UInt64
deriving DecidableEq

inductive SwapTrackerError
  | duplicateSwap (id : SwapId)
  | swapNotFound (id : SwapId)
  | alreadyCounterLocked (id : SwapId)
  | notCounterLocked (id : SwapId)
  | alreadyResolved (id : SwapId)
  | validationFailed (id : SwapId) (reason : String)
  | secretHashMismatch (id : SwapId)
deriving DecidableEq

inductive SwapStage
  | initialized | locked | completed | refunded
deriving DecidableEq

abbrev SwapTracker := SwapId → Option SwapRecord

namespace SwapTracker

def stage (r : SwapRecord) : SwapStage :=
  match r.resolution with
  | some text => if text = "refunded" then .refunded else .completed
  | none => if r.counterCommitment.isSome then .locked else .initialized

def insert (t : SwapTracker) (id : SwapId) (r : SwapRecord) : SwapTracker :=
  Function.update t id (some r)

@[simp] theorem insert_self (t : SwapTracker) (id : SwapId) (r : SwapRecord) :
    t.insert id r id = some r := Function.update_self _ _ _

@[simp] theorem insert_of_ne {t : SwapTracker} {id id' : SwapId} (r : SwapRecord)
    (h : id' ≠ id) : t.insert id r id' = t id' := Function.update_of_ne h _ _

def setInitCommitment (t : SwapTracker) (id : SwapId) (c : CommitmentV1) (now : UInt64) :
    Except SwapTrackerError SwapTracker :=
  if (t id).isSome then .error (.duplicateSwap id)
  else .ok (t.insert id ⟨c, none, none, now⟩)

/-- The check that a counter commitment mirrors the first one; the reason of a refusal. -/
def mirrorFault (init c : CommitmentV1) : Option String :=
  if init.swapId ≠ c.swapId then some "Commitment swap_id does not match InitLock"
  else if init.addresses.senderDestination ≠ c.addresses.receiver then
    some "Commitment receiver does not match InitLock sender_destination"
  else if init.addresses.receiver ≠ c.addresses.senderDestination then
    some "Commitment sender_destination does not match InitLock receiver"
  else if init.secretHash ≠ c.secretHash then
    some "Commitment secret_hash does not match InitLock secret_hash"
  else if init.source ≠ c.destination ∨ init.destination ≠ c.source then
    some ("source/destination mismatch: init(src=" ++ toString init.source.toNat ++ ",dst=" ++
      toString init.destination.toNat ++ ") vs counter(src=" ++ toString c.source.toNat ++
      ",dst=" ++ toString c.destination.toNat ++ ")")
  else none

def setCounterCommitment (t : SwapTracker) (id : SwapId) (c : CommitmentV1) :
    Except SwapTrackerError SwapTracker :=
  match t id with
  | none => .error (.swapNotFound id)
  | some r =>
    if r.counterCommitment.isSome then .error (.alreadyCounterLocked id)
    else if r.resolution.isSome then .error (.alreadyResolved id)
    else match mirrorFault r.initCommitment c with
      | some reason => .error (.validationFailed id reason)
      | none => .ok (t.insert id { r with counterCommitment := some c })

/-- The record of a swap that can be resolved, with its counter commitment. -/
def lockedUnresolved (t : SwapTracker) (id : SwapId) :
    Except SwapTrackerError (SwapRecord × CommitmentV1) :=
  match t id with
  | none => .error (.swapNotFound id)
  | some r =>
    match r.counterCommitment with
    | none => .error (.notCounterLocked id)
    | some counter =>
      if r.resolution.isSome then .error (.alreadyResolved id) else .ok (r, counter)

def setRevealed (sha256 : Bytes → Bytes32) (t : SwapTracker) (id : SwapId) (secret : Bytes32) :
    Except SwapTrackerError SwapTracker := do
  let (r, counter) ← t.lockedUnresolved id
  if sha256 secret.data ≠ counter.secretHash then .error (.secretHashMismatch id)
  else .ok (t.insert id { r with resolution := some (Resolution.revealed secret).text })

def setRefunded (t : SwapTracker) (id : SwapId) : Except SwapTrackerError SwapTracker := do
  let (r, _) ← t.lockedUnresolved id
  .ok (t.insert id { r with resolution := some Resolution.refunded.text })

/-- A resolved record is dropped when it is old enough. -/
def cleanupOldSwaps (t : SwapTracker) (now maxAgeSecs : UInt64) : SwapTracker :=
  fun id => (t id).filter fun r =>
    if r.resolution.isSome then (now.toNat - r.createdAt.toNat) < maxAgeSecs.toNat else true

variable {t t' : SwapTracker} {id : SwapId} {c : CommitmentV1}

theorem setInitCommitment_eq_ok {now : UInt64} :
    t.setInitCommitment id c now = .ok t' ↔
      t id = none ∧ t' = t.insert id ⟨c, none, none, now⟩ := by
  unfold setInitCommitment
  split_ifs with h
  · simp [Option.isSome_iff_ne_none.mp h]
  · rw [Except.ok.injEq, Option.not_isSome_iff_eq_none] at *
    exact ⟨fun he => ⟨h, he.symm⟩, fun he => he.2.symm⟩

/-- The conditions under which a counter commitment mirrors the first one. -/
structure Mirrors (init c : CommitmentV1) : Prop where
  swapId : init.swapId = c.swapId
  receiver : init.addresses.senderDestination = c.addresses.receiver
  senderDestination : init.addresses.receiver = c.addresses.senderDestination
  secretHash : init.secretHash = c.secretHash
  source : init.source = c.destination
  destination : init.destination = c.source

theorem mirrorFault_eq_none {init c : CommitmentV1} :
    mirrorFault init c = none ↔ Mirrors init c := by
  unfold mirrorFault
  constructor
  · intro h
    split_ifs at h with h1 h2 h3 h4 h5
    rw [not_or] at h5
    exact ⟨not_not.mp h1, not_not.mp h2, not_not.mp h3, not_not.mp h4, not_not.mp h5.1,
      not_not.mp h5.2⟩
  · rintro ⟨h1, h2, h3, h4, h5, h6⟩
    simp [h1, h2, h3, h4, h5, h6]

theorem setCounterCommitment_eq_ok :
    t.setCounterCommitment id c = .ok t' ↔ ∃ r, t id = some r ∧ r.counterCommitment = none ∧
      r.resolution = none ∧ Mirrors r.initCommitment c ∧
      t' = t.insert id { r with counterCommitment := some c } := by
  unfold setCounterCommitment
  cases ht : t id with
  | none => simp
  | some r =>
    simp only [Option.some.injEq, exists_eq_left']
    split_ifs with hc hr
    · simp [Option.isSome_iff_ne_none.mp hc]
    · simp [Option.isSome_iff_ne_none.mp hr]
    · rw [Option.not_isSome_iff_eq_none] at hc hr
      split
      · rename_i reason hf
        have hm : ¬ Mirrors r.initCommitment c := by
          rw [← mirrorFault_eq_none, hf]
          simp
        simp [hm]
      · rename_i hf
        have hm := mirrorFault_eq_none.mp hf
        simp only [hc, hr, hm, true_and, Except.ok.injEq]
        exact eq_comm

theorem lockedUnresolved_eq_ok {r : SwapRecord} {counter : CommitmentV1} :
    t.lockedUnresolved id = .ok (r, counter) ↔
      t id = some r ∧ r.counterCommitment = some counter ∧ r.resolution = none := by
  unfold lockedUnresolved
  constructor
  · intro h
    split at h
    · cases h
    · rename_i r' ht
      split at h
      · cases h
      · rename_i counter' hc
        split_ifs at h with hr
        cases h
        exact ⟨ht, hc, Option.not_isSome_iff_eq_none.mp hr⟩
  · rintro ⟨ht, hc, hr⟩
    simp [ht, hc, hr]

theorem setRevealed_eq_ok {sha256 : Bytes → Bytes32} {secret : Bytes32} :
    t.setRevealed sha256 id secret = .ok t' ↔ ∃ r counter, t id = some r ∧
      r.counterCommitment = some counter ∧ r.resolution = none ∧
      sha256 secret.data = counter.secretHash ∧
      t' = t.insert id { r with resolution := some (Resolution.revealed secret).text } := by
  unfold setRevealed
  rw [bind_eq_ok]
  constructor
  · rintro ⟨⟨r, counter⟩, hl, h⟩
    obtain ⟨ht, hc, hr⟩ := lockedUnresolved_eq_ok.mp hl
    simp only at h
    split_ifs at h with hs
    cases h
    exact ⟨r, counter, ht, hc, hr, not_not.mp hs, rfl⟩
  · rintro ⟨r, counter, ht, hc, hr, hs, rfl⟩
    exact ⟨(r, counter), lockedUnresolved_eq_ok.mpr ⟨ht, hc, hr⟩, by simp [hs]⟩

theorem setRefunded_eq_ok :
    t.setRefunded id = .ok t' ↔ ∃ r counter, t id = some r ∧
      r.counterCommitment = some counter ∧ r.resolution = none ∧
      t' = t.insert id { r with resolution := some Resolution.refunded.text } := by
  unfold setRefunded
  rw [bind_eq_ok]
  constructor
  · rintro ⟨⟨r, counter⟩, hl, h⟩
    obtain ⟨ht, hc, hr⟩ := lockedUnresolved_eq_ok.mp hl
    cases h
    exact ⟨r, counter, ht, hc, hr, rfl⟩
  · rintro ⟨r, counter, ht, hc, hr, rfl⟩
    exact ⟨(r, counter), lockedUnresolved_eq_ok.mpr ⟨ht, hc, hr⟩, rfl⟩

end SwapTracker
end Stroemnet
