import Stroemnet.SwapTracker

/-! # The life of a record

A tracker changes through five calls. Every call moves a record forward by at most one stage,
and each part of a record is written once. -/
namespace Stroemnet

inductive TrackerCall
  | setInitCommitment (id : SwapId) (c : CommitmentV1) (now : UInt64)
  | setCounterCommitment (id : SwapId) (c : CommitmentV1)
  | setRevealed (id : SwapId) (secret : Bytes32)
  | setRefunded (id : SwapId)
  | cleanupOldSwaps (now maxAgeSecs : UInt64)

inductive RecordField
  | init | counter | resolution
deriving DecidableEq

/-- The record and the part of it that a call is to write. -/
def TrackerCall.target : TrackerCall → Option (SwapId × RecordField)
  | setInitCommitment id _ _ => some (id, .init)
  | setCounterCommitment id _ => some (id, .counter)
  | setRevealed id _ => some (id, .resolution)
  | setRefunded id => some (id, .resolution)
  | cleanupOldSwaps _ _ => none

namespace SwapTracker

def settle (t : SwapTracker) :
    Except SwapTrackerError SwapTracker → Except SwapTrackerError Unit × SwapTracker
  | .ok t' => (.ok (), t')
  | .error e => (.error e, t)

def call (sha256 : Bytes → Bytes32) (t : SwapTracker) :
    TrackerCall → Except SwapTrackerError Unit × SwapTracker
  | .setInitCommitment id c now => t.settle (t.setInitCommitment id c now)
  | .setCounterCommitment id c => t.settle (t.setCounterCommitment id c)
  | .setRevealed id secret => t.settle (t.setRevealed sha256 id secret)
  | .setRefunded id => t.settle (t.setRefunded id)
  | .cleanupOldSwaps now maxAgeSecs => (.ok (), t.cleanupOldSwaps now maxAgeSecs)

def empty : SwapTracker := fun _ => none

def runCalls (sha256 : Bytes → Bytes32) (t : SwapTracker) (calls : List TrackerCall) :
    SwapTracker :=
  calls.foldl (fun t c => (t.call sha256 c).2) t

/-- What a call may do to a record: nothing, open it, lock it, resolve it, or drop it. -/
inductive RecordMove (sha256 : Bytes → Bytes32) : Option SwapRecord → Option SwapRecord → Prop
  | same (o : Option SwapRecord) : RecordMove sha256 o o
  | opened (c : CommitmentV1) (now : UInt64) : RecordMove sha256 none (some ⟨c, none, none, now⟩)
  | locked (r : SwapRecord) (c : CommitmentV1) (hcounter : r.counterCommitment = none)
      (hres : r.resolution = none) (hmirror : Mirrors r.initCommitment c) :
      RecordMove sha256 (some r) (some { r with counterCommitment := some c })
  | resolved (r : SwapRecord) (counter : CommitmentV1) (res : Resolution)
      (hcounter : r.counterCommitment = some counter) (hres : r.resolution = none)
      (hsecret : ∀ s, res = .revealed s → sha256 s.data = counter.secretHash) :
      RecordMove sha256 (some r) (some { r with resolution := some res.text })
  | dropped (r : SwapRecord) (hres : r.resolution.isSome) : RecordMove sha256 (some r) none

variable {sha256 : Bytes → Bytes32} {t : SwapTracker}

/-- What an operation on one swap does: an error changes nothing; a success moves the record of
the swap and no other one. -/
structure Writes (sha256 : Bytes → Bytes32) (t : SwapTracker) (id : SwapId) (field : RecordField)
    (t' : SwapTracker) : Prop where
  move : RecordMove sha256 (t id) (t' id)
  others : ∀ id', id' ≠ id → t' id' = t id'
  fresh : match field with
    | .init => t id = none
    | .counter => ∃ r, t id = some r ∧ r.counterCommitment = none
    | .resolution => ∃ r, t id = some r ∧ r.resolution = none
  written : match field with
    | .init => (t' id).isSome
    | .counter => ∃ r, t' id = some r ∧ r.counterCommitment.isSome
    | .resolution => ∃ r, t' id = some r ∧ r.resolution.isSome

theorem settle_ok {x : Except SwapTrackerError SwapTracker} (h : (t.settle x).1 = .ok ()) :
    x = .ok (t.settle x).2 := by
  cases x with
  | error e => cases h
  | ok t' => rfl

theorem call_writes {call : TrackerCall} {id : SwapId} {field : RecordField}
    (htarget : call.target = some (id, field)) (hok : (t.call sha256 call).1 = .ok ()) :
    Writes sha256 t id field (t.call sha256 call).2 := by
  cases call with
  | setInitCommitment id₀ c now =>
    cases htarget
    obtain ⟨hnone, ht'⟩ := setInitCommitment_eq_ok.mp (settle_ok hok)
    simp only [SwapTracker.call, ht']
    refine ⟨?_, fun id' hne => insert_of_ne _ hne, hnone, by simp⟩
    rw [hnone, insert_self]
    exact .opened c now
  | setCounterCommitment id₀ c =>
    cases htarget
    obtain ⟨r, hr, hcounter, hres, hmirror, ht'⟩ :=
      setCounterCommitment_eq_ok.mp (settle_ok hok)
    simp only [SwapTracker.call, ht']
    refine ⟨?_, fun id' hne => insert_of_ne _ hne, ⟨r, hr, hcounter⟩, by simp⟩
    rw [hr, insert_self]
    exact .locked r c hcounter hres hmirror
  | setRevealed id₀ secret =>
    cases htarget
    obtain ⟨r, counter, hr, hcounter, hres, hsecret, ht'⟩ := setRevealed_eq_ok.mp (settle_ok hok)
    simp only [SwapTracker.call, ht']
    refine ⟨?_, fun id' hne => insert_of_ne _ hne, ⟨r, hr, hres⟩, by simp⟩
    rw [hr, insert_self]
    refine .resolved r counter (.revealed secret) hcounter hres ?_
    rintro s hs
    cases hs
    exact hsecret
  | setRefunded id₀ =>
    cases htarget
    obtain ⟨r, counter, hr, hcounter, hres, ht'⟩ := setRefunded_eq_ok.mp (settle_ok hok)
    simp only [SwapTracker.call, ht']
    refine ⟨?_, fun id' hne => insert_of_ne _ hne, ⟨r, hr, hres⟩, by simp⟩
    rw [hr, insert_self]
    exact .resolved r counter .refunded hcounter hres nofun
  | cleanupOldSwaps now maxAgeSecs => cases htarget

theorem call_error {call : TrackerCall} {e : SwapTrackerError}
    (h : (t.call sha256 call).1 = .error e) : (t.call sha256 call).2 = t := by
  have hsettle : ∀ x, (t.settle x).1 = .error e → (t.settle x).2 = t := by
    intro x hx
    cases x with
    | error e' => rfl
    | ok t' => cases hx
  cases call with
  | setInitCommitment id c now => exact hsettle _ h
  | setCounterCommitment id c => exact hsettle _ h
  | setRevealed id secret => exact hsettle _ h
  | setRefunded id => exact hsettle _ h
  | cleanupOldSwaps now maxAgeSecs => cases h

/-- A record is dropped when it is resolved and old enough. -/
def Dropped (now maxAgeSecs : UInt64) (r : SwapRecord) : Prop :=
  r.resolution.isSome ∧ maxAgeSecs.toNat ≤ now.toNat - r.createdAt.toNat

instance (now maxAgeSecs : UInt64) (r : SwapRecord) : Decidable (Dropped now maxAgeSecs r) :=
  inferInstanceAs (Decidable (_ ∧ _))

theorem cleanupOldSwaps_apply (t : SwapTracker) (now maxAgeSecs : UInt64) (id : SwapId) :
    t.cleanupOldSwaps now maxAgeSecs id =
      (t id).filter fun r => ¬ Dropped now maxAgeSecs r := by
  unfold cleanupOldSwaps
  congr 1
  funext r
  by_cases hres : r.resolution.isSome <;> simp [Dropped, hres]

/-- Every call moves every record in one of the five ways. -/
theorem call_move (sha256 : Bytes → Bytes32) (t : SwapTracker) (call : TrackerCall) (id : SwapId) :
    RecordMove sha256 (t id) ((t.call sha256 call).2 id) := by
  cases hres : (t.call sha256 call).1 with
  | error e =>
    rw [call_error hres]
    exact .same _
  | ok u =>
    cases htarget : call.target with
    | some target =>
      obtain ⟨id', field⟩ := target
      have hwrites := call_writes htarget hres
      by_cases hid : id = id'
      · subst hid
        exact hwrites.move
      · rw [hwrites.others id hid]
        exact .same _
    | none =>
      cases call with
      | cleanupOldSwaps now maxAgeSecs =>
        simp only [SwapTracker.call, cleanupOldSwaps_apply]
        cases hr : t id with
        | none => exact .same _
        | some r =>
          by_cases hdrop : Dropped now maxAgeSecs r
          · simp only [Option.filter, hdrop, not_true, decide_false]
            exact .dropped r hdrop.1
          · simp only [Option.filter, hdrop, not_false_eq_true, decide_true]
            exact .same _
      | setInitCommitment id c now => cases htarget
      | setCounterCommitment id c => cases htarget
      | setRevealed id secret => cases htarget
      | setRefunded id => cases htarget

theorem Writes.isSome {id : SwapId} {field : RecordField} {t' : SwapTracker}
    (h : Writes sha256 t id field t') : (t' id).isSome := by
  have hwritten := h.written
  cases field with
  | init => exact hwritten
  | counter =>
    obtain ⟨r, hr, -⟩ := hwritten
    rw [hr]
    rfl
  | resolution =>
    obtain ⟨r, hr, -⟩ := hwritten
    rw [hr]
    rfl

theorem call_drops {call : TrackerCall} {id : SwapId} {r : SwapRecord} (hr : t id = some r)
    (hnone : (t.call sha256 call).2 id = none) :
    ∃ now maxAgeSecs, call = .cleanupOldSwaps now maxAgeSecs ∧ Dropped now maxAgeSecs r := by
  cases htarget : call.target with
  | none =>
    cases call with
    | cleanupOldSwaps now maxAgeSecs =>
      refine ⟨now, maxAgeSecs, rfl, ?_⟩
      simp only [SwapTracker.call, cleanupOldSwaps_apply, hr, Option.filter] at hnone
      split_ifs at hnone with hdrop
      simpa using hdrop
    | setInitCommitment id c now => cases htarget
    | setCounterCommitment id c => cases htarget
    | setRevealed id secret => cases htarget
    | setRefunded id => cases htarget
  | some target =>
    obtain ⟨id', field⟩ := target
    exfalso
    cases hres : (t.call sha256 call).1 with
    | error e =>
      rw [call_error hres, hr] at hnone
      cases hnone
    | ok u =>
      have hwrites := call_writes htarget hres
      by_cases hid : id = id'
      · subst hid
        have hsome := hwrites.isSome
        rw [hnone] at hsome
        cases hsome
      · rw [hwrites.others id hid, hr] at hnone
        cases hnone

theorem hexEncode_ne_refunded (s : Bytes32) : hexEncode s.data ≠ "refunded" := by
  intro h
  have hlen := length_hexEncode s.data
  rw [h, s.length_data] at hlen
  simp at hlen

theorem stage_resolved {r : SwapRecord} {res : Resolution} (h : r.resolution = some res.text) :
    stage r = match res with
      | .revealed _ => .completed
      | .refunded => .refunded := by
  cases res with
  | revealed s => simp [stage, h, Resolution.text, hexEncode_ne_refunded]
  | refunded => simp [stage, h, Resolution.text]

structure Lawful (sha256 : Bytes → Bytes32) (r : SwapRecord) : Prop where
  mirrors : ∀ c, r.counterCommitment = some c → Mirrors r.initCommitment c
  locked : r.resolution.isSome → r.counterCommitment.isSome
  completed : stage r = .completed ↔ ∃ s : Bytes32, r.resolution = some (hexEncode s.data) ∧
    sha256 s.data = r.initCommitment.secretHash
  refunded : stage r = .refunded ↔ r.resolution = some "refunded"

theorem stage_unresolved {r : SwapRecord} (h : r.resolution = none) :
    stage r = if r.counterCommitment.isSome then .locked else .initialized := by
  simp [stage, h]

theorem lawful_unresolved {r : SwapRecord} (hres : r.resolution = none)
    (hmirrors : ∀ c, r.counterCommitment = some c → Mirrors r.initCommitment c) :
    Lawful sha256 r := by
  refine ⟨hmirrors, by simp [hres], ?_, ?_⟩
  · rw [stage_unresolved hres, hres]
    split_ifs <;> simp
  · rw [stage_unresolved hres, hres]
    split_ifs <;> simp

theorem RecordMove.lawful {o : Option SwapRecord} {r' : SwapRecord}
    (h : RecordMove sha256 o (some r')) (hlawful : ∀ r, o = some r → Lawful sha256 r) :
    Lawful sha256 r' := by
  cases h with
  | same => exact hlawful r' rfl
  | opened c now => exact lawful_unresolved rfl nofun
  | locked r c hcounter hres hmirror =>
    refine lawful_unresolved hres ?_
    rintro c' hc'
    cases hc'
    exact hmirror
  | resolved r counter res hcounter hres hsecret =>
    have hmirrors := (hlawful r rfl).mirrors
    have hstage := stage_resolved (r := { r with resolution := some res.text }) rfl
    have hhash := (hmirrors counter hcounter).secretHash
    refine ⟨hmirrors, by simp [hcounter], ?_, ?_⟩
    · rw [hstage]
      cases res with
      | revealed s => exact iff_of_true rfl ⟨s, rfl, (hsecret s rfl).trans hhash.symm⟩
      | refunded =>
        refine iff_of_false (by simp) ?_
        rintro ⟨s, hs, -⟩
        exact hexEncode_ne_refunded s (Option.some.inj hs).symm
    · rw [hstage]
      cases res with
      | revealed s => simp [Resolution.text, hexEncode_ne_refunded]
      | refunded => simp [Resolution.text]

/-- The moves between stages. -/
inductive StageMove : SwapStage → SwapStage → Prop
  | stays (s : SwapStage) : StageMove s s
  | locks : StageMove .initialized .locked
  | completes : StageMove .locked .completed
  | refunds : StageMove .locked .refunded

theorem RecordMove.stage {r r' : SwapRecord} (h : RecordMove sha256 (some r) (some r')) :
    StageMove (stage r) (SwapTracker.stage r') := by
  cases h with
  | same => exact .stays _
  | locked _ c hcounter hres hmirror =>
    have hlocked : SwapTracker.stage { r with counterCommitment := some c } = .locked :=
      stage_unresolved hres
    rw [stage_unresolved hres, hcounter, hlocked]
    exact .locks
  | resolved _ counter res hcounter hres hsecret =>
    have hended := stage_resolved (r := { r with resolution := some res.text }) rfl
    rw [hended, stage_unresolved hres, hcounter]
    cases res with
    | revealed s => exact .completes
    | refunded => exact .refunds

def isWritten (field : RecordField) (o : Option SwapRecord) : Bool :=
  match o with
  | none => false
  | some r =>
    match field with
    | .init => true
    | .counter => r.counterCommitment.isSome
    | .resolution => r.resolution.isSome

/-- How often a part of a record is written in a run. -/
def writeCount (sha256 : Bytes → Bytes32) (id : SwapId) (field : RecordField) :
    SwapTracker → List TrackerCall → ℕ
  | _, [] => 0
  | t, call :: calls =>
    (if call.target = some (id, field) ∧ (t.call sha256 call).1 = .ok () then 1 else 0) +
      writeCount sha256 id field (t.call sha256 call).2 calls

/-- The record of a swap, once it is there, is not dropped during a run. -/
def Undropped (sha256 : Bytes → Bytes32) (id : SwapId) : SwapTracker → List TrackerCall → Prop
  | _, [] => True
  | t, call :: calls =>
    ((t id).isSome → ((t.call sha256 call).2 id).isSome) ∧
      Undropped sha256 id (t.call sha256 call).2 calls

theorem Writes.isWritten {id : SwapId} {field : RecordField} {t' : SwapTracker}
    (h : Writes sha256 t id field t') :
    isWritten field (t id) = false ∧ SwapTracker.isWritten field (t' id) = true := by
  obtain ⟨-, -, hfresh, hwritten⟩ := h
  cases field with
  | init =>
    obtain ⟨r, hr⟩ := Option.isSome_iff_exists.mp hwritten
    simp [SwapTracker.isWritten, show t id = none from hfresh, hr]
  | counter =>
    obtain ⟨r, hr, hc⟩ := hfresh
    obtain ⟨r', hr', hc'⟩ := hwritten
    simp [SwapTracker.isWritten, hr, hr', hc, hc']
  | resolution =>
    obtain ⟨r, hr, hc⟩ := hfresh
    obtain ⟨r', hr', hc'⟩ := hwritten
    simp [SwapTracker.isWritten, hr, hr', hc, hc']

theorem RecordMove.isWritten {o o' : Option SwapRecord} (h : RecordMove sha256 o o')
    (hkept : o.isSome → o'.isSome) {field : RecordField} (hw : isWritten field o) :
    SwapTracker.isWritten field o' := by
  cases h with
  | same => exact hw
  | opened c now => cases hw
  | locked r c hcounter hres hmirror => cases field <;> simp_all [SwapTracker.isWritten]
  | resolved r counter res hcounter hres hsecret =>
    cases field <;> simp_all [SwapTracker.isWritten]
  | dropped r hres => cases hkept rfl

private theorem writeCount_le (id : SwapId) (field : RecordField) (calls : List TrackerCall)
    (h : Undropped sha256 id t calls) :
    writeCount sha256 id field t calls + (if isWritten field (t id) then 1 else 0) ≤ 1 := by
  induction calls generalizing t with
  | nil =>
    rw [writeCount]
    split_ifs <;> omega
  | cons call calls ih =>
    obtain ⟨hkept, hrest⟩ := h
    have hih := ih hrest
    rw [writeCount]
    split_ifs with hwrites hbefore hbefore
    · have hfresh := (call_writes hwrites.1 hwrites.2).isWritten.1
      rw [hbefore] at hfresh
      cases hfresh
    · rw [(call_writes hwrites.1 hwrites.2).isWritten.2] at hih
      simp only [if_true] at hih
      omega
    · rw [(call_move sha256 t call id).isWritten hkept hbefore] at hih
      simp only [if_true] at hih
      omega
    · split_ifs at hih <;> omega

/-- What has been written stays as it is, as long as the record is there. -/
structure Extends (r r' : SwapRecord) : Prop where
  init : r'.initCommitment = r.initCommitment
  createdAt : r'.createdAt = r.createdAt
  counter : ∀ c, r.counterCommitment = some c → r'.counterCommitment = some c
  resolution : ∀ text, r.resolution = some text → r'.resolution = some text

theorem RecordMove.extends {r r' : SwapRecord} (h : RecordMove sha256 (some r) (some r')) :
    Extends r r' := by
  cases h with
  | same => exact ⟨rfl, rfl, fun _ h => h, fun _ h => h⟩
  | locked _ c hcounter hres hmirror =>
    refine ⟨rfl, rfl, fun c' hc' => ?_, fun _ h => h⟩
    rw [hcounter] at hc'
    cases hc'
  | resolved _ counter res hcounter hres hsecret =>
    refine ⟨rfl, rfl, fun _ h => h, fun text htext => ?_⟩
    rw [hres] at htext
    cases htext

theorem lawful_runCalls (calls : List TrackerCall)
    (h : ∀ id r, t id = some r → Lawful sha256 r) (id : SwapId) (r : SwapRecord)
    (hr : t.runCalls sha256 calls id = some r) : Lawful sha256 r := by
  induction calls generalizing t with
  | nil => exact h id r hr
  | cons call calls ih =>
    refine ih (fun id' r' hr' => ?_) hr
    change (t.call sha256 call).2 id' = some r' at hr'
    have hmove := call_move sha256 t call id'
    rw [hr'] at hmove
    exact hmove.lawful (h id')

/-- A tracker after any calls: its records are lawful; a call moves a record forward by at most
one stage and keeps what was written; a failed call changes nothing, and a call changes no record
but the one it names, except that old resolved records are dropped; and as long as a record is
not dropped, each of its parts is written once at most. -/
theorem tracker_state_machine (sha256 : Bytes → Bytes32) (calls : List TrackerCall) :
    let t := empty.runCalls sha256 calls
    (∀ id r, t id = some r → Lawful sha256 r) ∧
      (∀ call id r r', t id = some r → (t.call sha256 call).2 id = some r' →
        StageMove (stage r) (stage r') ∧ Extends r r') ∧
      (∀ call id r', t id = none → (t.call sha256 call).2 id = some r' →
        stage r' = .initialized) ∧
      (∀ call e, (t.call sha256 call).1 = .error e → (t.call sha256 call).2 = t) ∧
      (∀ call id field, call.target = some (id, field) →
        ∀ id', id' ≠ id → (t.call sha256 call).2 id' = t id') ∧
      (∀ now maxAgeSecs id, (t.call sha256 (.cleanupOldSwaps now maxAgeSecs)).2 id =
        (t id).filter fun r => ¬ Dropped now maxAgeSecs r) ∧
      (∀ call id r, t id = some r → (t.call sha256 call).2 id = none →
        ∃ now maxAgeSecs, call = .cleanupOldSwaps now maxAgeSecs ∧ Dropped now maxAgeSecs r) ∧
      ∀ more id field, Undropped sha256 id t more → writeCount sha256 id field t more ≤ 1 := by
  intro t
  refine ⟨lawful_runCalls calls nofun, ?_, ?_, fun _ _ => call_error, ?_,
    fun now maxAgeSecs id => cleanupOldSwaps_apply t now maxAgeSecs id, ?_, ?_⟩
  · intro call id r r' hr hr'
    have hmove := call_move sha256 t call id
    rw [hr, hr'] at hmove
    exact ⟨hmove.stage, hmove.extends⟩
  · intro call id r' hr hr'
    have hmove := call_move sha256 t call id
    rw [hr, hr'] at hmove
    cases hmove
    rfl
  · intro call id field htarget id' hne
    cases hres : (t.call sha256 call).1 with
    | error e => rw [call_error hres]
    | ok u => exact (call_writes htarget hres).others id' hne
  · intro call id r hr hnone
    exact call_drops hr hnone
  · intro more id field hmore
    have hcount := writeCount_le id field more hmore
    omega

end SwapTracker
end Stroemnet
