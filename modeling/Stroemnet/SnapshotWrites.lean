import Mathlib.Data.Fintype.Basic
import Mathlib.Logic.Function.Basic
import Stroemnet.GuardedRuns

/-! # Rows that are written from snapshots

Tasks share a memory and a table with a row for every id. An operation updates the memory for one
id, copies what the memory then holds of it, some fields at a time, and writes the copy as the
row. The steps of the tasks interleave in any order; one lock may be held from the first field
that is copied to the last. -/
namespace Snapshots

variable {T M I F W : Type} {V : F → Type}

structure Layout (M I F W : Type) (V : F → Type) [DecidableEq I] where
  project : M → I → (f : F) → V f
  encode : ((f : F) → V f) → Option W
  rows : M → I → Option W
  save : M → I → ((f : F) → V f) → M
  project_save : ∀ m i c, project (save m i c) = project m
  rows_save : ∀ m i c, rows (save m i c) = Function.update (rows m) i (encode c)

/-- One atomic update; a locked one takes the lock that a snapshot may hold. -/
structure Update (M : Type) where
  locked : Bool
  run : M → M

section
variable [DecidableEq I]

/-- An update changes what the memory holds of one id, and no row. -/
structure Update.Confined (L : Layout M I F W V) (i : I) (u : Update M) : Prop where
  rows : ∀ m, L.rows (u.run m) = L.rows m
  project : ∀ m, ∀ j ≠ i, L.project (u.run m) j = L.project m j

structure Operation (L : Layout M I F W V) where
  id : I
  updates : List (Update M)
  reads : List (List F)
  holds : Bool
  confined : ∀ u ∈ updates, u.Confined L id
  covers : ∀ f, f ∈ reads.flatten

/-- An operation that is under way. It is overtaken once another task has changed a field that
was copied already. -/
structure Progress (L : Layout M I F W V) where
  op : Operation L
  updates : List (Update M)
  reads : List (List F)
  copied : List F
  copy : (f : F) → V f
  overtaken : Bool

structure System (T : Type) (L : Layout M I F W V) where
  mem : M
  running : T → Option (Progress L)

inductive Input (T : Type) (L : Layout M I F W V)
  | start (t : T) (choose : M → Option (Operation L))
  | step (t : T)

variable {L : Layout M I F W V}

/-- The row of an id is the encoding of what the memory holds of it. -/
def Current (L : Layout M I F W V) (m : M) (i : I) : Prop := L.rows m i = L.encode (L.project m i)

/-- What an operation does when nothing comes in between. -/
def Operation.result (op : Operation L) (m : M) : M :=
  let m := op.updates.foldl (fun m u => u.run m) m
  L.save m op.id (L.project m op.id)

namespace Progress

def begin [∀ f, Inhabited (V f)] (op : Operation L) : Progress L :=
  ⟨op, op.updates, op.reads, [], fun _ => default, false⟩

/-- The lock is held from the first field that is copied to the last. -/
def holding (p : Progress L) : Bool := p.op.holds && !p.copied.isEmpty && !p.reads.isEmpty

def needsLock (p : Progress L) : Bool :=
  match p.updates with
  | u :: _ => u.locked
  | [] => p.op.holds && p.copied.isEmpty && !p.reads.isEmpty

def read [DecidableEq F] (p : Progress L) (m : M) (fs : List F) : Progress L :=
  { p with
    reads := p.reads.tail
    copied := p.copied ++ fs
    copy := fun f => if f ∈ fs then L.project m p.op.id f else p.copy f }

def overtake [∀ f, DecidableEq (V f)] (p : Progress L) (m m' : M) : Progress L :=
  { p with overtaken := p.overtaken ||
      p.copied.any fun f => L.project m' p.op.id f ≠ L.project m p.op.id f }

end Progress

namespace System

variable [DecidableEq T] [Fintype T]

/-- A task waits for the lock while another one holds it. -/
def waits (s : System T L) (t : T) (p : Progress L) : Bool :=
  p.needsLock && decide (∃ t', t' ≠ t ∧ (s.running t').any Progress.holding)

variable [DecidableEq F] [∀ f, DecidableEq (V f)]

/-- The next atomic step of a task: an update, the copy of some fields, or the write. -/
def advance (s : System T L) (t : T) (p : Progress L) : System T L :=
  match p.updates, p.reads with
  | u :: us, _ =>
    ⟨u.run s.mem, Function.update (fun t' => (s.running t').map (·.overtake s.mem (u.run s.mem))) t
      (some { p with updates := us })⟩
  | [], fs :: _ => { s with running := Function.update s.running t (some (p.read s.mem fs)) }
  | [], [] => ⟨L.save s.mem p.op.id p.copy, Function.update s.running t none⟩

variable [∀ f, Inhabited (V f)]

def step (s : System T L) : Input T L → System T L
  | .start t choose =>
    match s.running t, choose s.mem with
    | none, some op => { s with running := Function.update s.running t (some (.begin op)) }
    | _, _ => s
  | .step t =>
    match s.running t with
    | none => s
    | some p => if s.waits t p then s else s.advance t p

/-- An operation on an id that still has its row to write, with nothing overtaken. -/
def Renews (s : System T L) (t : T) (i : I) : Prop :=
  ∃ p, s.running t = some p ∧ p.op.id = i ∧ p.overtaken = false

/-- A step writes no copy that was overtaken, unless another task will still write the row. -/
def WritesFresh (s : System T L) : Input T L → Prop
  | .start _ _ => True
  | .step t => ∀ p, s.running t = some p → p.updates = [] → p.reads = [] →
      p.overtaken = false ∨ ∃ t', t' ≠ t ∧ s.Renews t' p.op.id

instance (s : System T L) (t : T) (i : I) : Decidable (s.Renews t i) :=
  match h : s.running t with
  | none => isFalse fun ⟨p, hp, _⟩ => by simp [h] at hp
  | some p => decidable_of_iff (p.op.id = i ∧ p.overtaken = false)
      ⟨fun hp => ⟨p, h, hp⟩, fun ⟨q, hq, hp⟩ => by
        rw [h, Option.some.injEq] at hq
        exact hq ▸ hp⟩

instance (s : System T L) (i : Input T L) : Decidable (s.WritesFresh i) :=
  match i with
  | .start _ _ => isTrue trivial
  | .step t =>
    match h : s.running t with
    | none => isTrue fun p hp => by simp [h] at hp
    | some p => decidable_of_iff (p.updates.isEmpty → p.reads.isEmpty →
        p.overtaken = false ∨ ∃ t', t' ≠ t ∧ s.Renews t' p.op.id) (by
          simp only [List.isEmpty_iff, WritesFresh, h, Option.some.injEq, forall_eq'])

/-- No operation on an id is under way. -/
def Quiet (s : System T L) (i : I) : Prop := ∀ t p, s.running t = some p → p.op.id ≠ i

end System

/-- What a task knows of the operation it runs: fields are copied after the updates, and what was
copied is what the memory holds until the task is overtaken. -/
structure Progress.Sound (m : M) (p : Progress L) : Prop where
  updates_mem : ∀ u ∈ p.updates, u ∈ p.op.updates
  covers : ∀ f, f ∈ p.copied ∨ f ∈ p.reads.flatten
  ordered : p.updates ≠ [] → p.copied = []
  unread : p.copied = [] → p.overtaken = false
  copies : p.overtaken = false → ∀ f ∈ p.copied, p.copy f = L.project m p.op.id f

namespace Progress.Sound

variable {m m' : M} {p : Progress L}

theorem begin [∀ f, Inhabited (V f)] (op : Operation L) (m : M) : (Progress.begin op).Sound m where
  updates_mem _ hu := hu
  covers f := .inr (op.covers f)
  ordered _ := rfl
  unread _ := rfl
  copies _ _ hf := absurd hf List.not_mem_nil

/-- The copy of a task that copied everything and was not overtaken. -/
theorem copy_eq (h : p.Sound m) (hreads : p.reads = []) (hfresh : p.overtaken = false) :
    p.copy = L.project m p.op.id := by
  funext f
  apply h.copies hfresh
  have hf := h.covers f
  rw [hreads] at hf
  exact hf.resolve_right List.not_mem_nil

theorem update {u : Update M} {us : List (Update M)} (h : p.Sound m) (hu : p.updates = u :: us)
    (m' : M) : { p with updates := us }.Sound m' := by
  have hcopied : p.copied = [] := h.ordered (by simp [hu])
  refine ⟨fun v hv => h.updates_mem v (by simp [hu, hv]), h.covers, fun _ => hcopied, h.unread, ?_⟩
  intro _ f hf
  simp [hcopied] at hf

theorem read [DecidableEq F] {fs : List F} {rest : List (List F)} (h : p.Sound m)
    (hu : p.updates = []) (hreads : p.reads = fs :: rest) : (p.read m fs).Sound m := by
  refine ⟨h.updates_mem, fun f => ?_, fun hne => absurd hu hne, fun hnil => ?_,
    fun hfresh f hf => ?_⟩
  · have hf := h.covers f
    rw [hreads, List.flatten_cons, List.mem_append] at hf
    simp only [Progress.read, hreads, List.tail_cons, List.mem_append]
    exact or_assoc.mpr hf
  · exact h.unread (List.append_eq_nil_iff.mp hnil).1
  · simp only [Progress.read, List.mem_append] at hf ⊢
    split_ifs with hin
    · rfl
    · exact h.copies hfresh f (hf.resolve_right hin)

variable [∀ f, DecidableEq (V f)]

/-- A task that is not overtaken by a change has copied nothing of what was changed. -/
theorem overtake (h : p.Sound m) (m' : M) : (p.overtake m m').Sound m' := by
  refine ⟨h.updates_mem, h.covers, h.ordered, fun hnil => ?_, fun hfresh f hf => ?_⟩
  · have hnil : p.copied = [] := hnil
    simp [Progress.overtake, hnil, h.unread hnil]
  · simp only [Progress.overtake, Bool.or_eq_false_iff, List.any_eq_false] at hfresh
    have hsame := hfresh.2 f hf
    simp only [ne_eq, decide_not, Bool.not_eq_true, Bool.not_eq_false', decide_eq_true_eq] at hsame
    exact (h.copies hfresh.1 f hf).trans hsame.symm

end Progress.Sound

theorem Progress.overtaken_overtake [∀ f, DecidableEq (V f)] {p : Progress L} {m m' : M}
    (h : L.project m' p.op.id = L.project m p.op.id) :
    (p.overtake m m').overtaken = p.overtaken := by
  simp [Progress.overtake, h]

/-- Every row is current, or will be written by a task that was not overtaken. -/
structure System.Sound (s : System T L) : Prop where
  progress : ∀ t p, s.running t = some p → p.Sound s.mem
  stored : ∀ i, Current L s.mem i ∨ ∃ t, s.Renews t i

namespace System

def idle (m : M) : System T L := ⟨m, fun _ => none⟩

theorem Sound.idle {m : M} (h : ∀ i, Current L m i) : (idle m : System T L).Sound :=
  ⟨fun _ _ => nofun, fun i => .inl (h i)⟩

variable [DecidableEq T] {s : System T L} {t : T} {p : Progress L}

/-- A task that is changed to another operation under way on the same id, or from none. -/
theorem Sound.set {q : Progress L} (h : s.Sound) (hq : q.Sound s.mem)
    (hsame : ∀ p, s.running t = some p → q.op.id = p.op.id ∧ q.overtaken = p.overtaken) :
    { s with running := Function.update s.running t (some q) }.Sound := by
  refine ⟨fun t' p' hp' => ?_, fun i => (h.stored i).imp_right ?_⟩
  · rcases eq_or_ne t' t with rfl | hne
    · simp only [Function.update_self, Option.some.injEq] at hp'
      exact hp' ▸ hq
    · simp only [Function.update_of_ne hne] at hp'
      exact h.progress t' p' hp'
  · rintro ⟨t', p', hp', hi, hfresh⟩
    rcases eq_or_ne t' t with rfl | hne
    · obtain ⟨hid, hover⟩ := hsame p' hp'
      exact ⟨t', q, Function.update_self .., hid.trans hi, hover.trans hfresh⟩
    · exact ⟨t', p', by simp [Function.update_of_ne hne, hp'], hi, hfresh⟩

theorem Sound.write (h : s.Sound) (hp : s.running t = some p) (hreads : p.reads = [])
    (hfresh : p.overtaken = false ∨ ∃ t', t' ≠ t ∧ s.Renews t' p.op.id) :
    System.Sound ⟨L.save s.mem p.op.id p.copy, Function.update s.running t none⟩ := by
  have hrenews : ∀ {t' i}, t' ≠ t → s.Renews t' i →
      System.Renews ⟨L.save s.mem p.op.id p.copy, Function.update s.running t none⟩ t' i := by
    rintro t' i hne ⟨p', hp', hp''⟩
    exact ⟨p', by simp [Function.update_of_ne hne, hp'], hp''⟩
  refine ⟨fun t' p' hp' => ?_, fun i => ?_⟩
  · rcases eq_or_ne t' t with rfl | hne
    · simp at hp'
    · simp only [Function.update_of_ne hne] at hp'
      obtain ⟨h₁, h₂, h₃, h₄, h₅⟩ := h.progress t' p' hp'
      refine ⟨h₁, h₂, h₃, h₄, ?_⟩
      rwa [L.project_save]
  · rcases eq_or_ne i p.op.id with rfl | hne
    · rcases hfresh with hfresh | ⟨t', hne, hother⟩
      · left
        rw [Current, L.rows_save, L.project_save, Function.update_self,
          (h.progress t p hp).copy_eq hreads hfresh]
      · exact .inr ⟨t', hrenews hne hother⟩
    · rcases h.stored i with hcurrent | ⟨t', hother⟩
      · left
        rw [Current, L.rows_save, L.project_save, Function.update_of_ne hne]
        exact hcurrent
      · refine .inr ⟨t', hrenews ?_ hother⟩
        rintro rfl
        obtain ⟨p', hp', hid, -⟩ := hother
        rw [hp, Option.some.injEq] at hp'
        exact hne (hp' ▸ hid.symm)

variable [∀ f, DecidableEq (V f)]

theorem Sound.update {u : Update M} {us : List (Update M)} (h : s.Sound) (hp : s.running t = some p)
    (hu : p.updates = u :: us) :
    System.Sound ⟨u.run s.mem, Function.update
      (fun t' => (s.running t').map (·.overtake s.mem (u.run s.mem))) t
      (some { p with updates := us })⟩ := by
  have hsound := h.progress t p hp
  have hmem : u ∈ p.op.updates := hsound.updates_mem u (by simp [hu])
  refine ⟨fun t' p' hp' => ?_, fun i => ?_⟩
  · rcases eq_or_ne t' t with rfl | hne
    · simp only [Function.update_self, Option.some.injEq] at hp'
      exact hp' ▸ hsound.update hu _
    · simp only [Function.update_of_ne hne, Option.map_eq_some_iff] at hp'
      obtain ⟨q, hq, rfl⟩ := hp'
      exact (h.progress t' q hq).overtake _
  · rcases eq_or_ne i p.op.id with rfl | hne
    · have hcopied : p.copied = [] := hsound.ordered (by simp [hu])
      exact .inr ⟨t, { p with updates := us }, by simp, rfl, hsound.unread hcopied⟩
    · have hproject := (p.op.confined u hmem).project s.mem i hne
      rcases h.stored i with hcurrent | ⟨t', q, hq, rfl, hfresh⟩
      · left
        rw [Current, (p.op.confined u hmem).rows, hproject]
        exact hcurrent
      · have ht : t' ≠ t := by
          rintro rfl
          rw [hp, Option.some.injEq] at hq
          exact hne (hq ▸ rfl)
        exact .inr ⟨t', q.overtake s.mem (u.run s.mem),
          by simp only [Function.update_of_ne ht, hq, Option.map_some], rfl,
          (Progress.overtaken_overtake hproject).trans hfresh⟩

variable [Fintype T] [DecidableEq F] [∀ f, Inhabited (V f)]

theorem Sound.step (h : s.Sound) (i : Input T L) (hfresh : s.WritesFresh i) : (s.step i).Sound := by
  cases i with
  | start t choose =>
    cases hp : s.running t with
    | some p => simpa only [System.step, hp] using h
    | none =>
      cases hop : choose s.mem with
      | none => simpa only [System.step, hp, hop] using h
      | some op =>
        simp only [System.step, hp, hop]
        exact h.set (.begin op s.mem) (by simp [hp])
  | step t =>
    cases hp : s.running t with
    | none => simpa only [System.step, hp] using h
    | some p =>
      simp only [System.step, hp]
      split_ifs with hwaits
      · exact h
      · have hsound := h.progress t p hp
        cases hu : p.updates with
        | cons u us =>
          simp only [advance, hu]
          exact h.update hp hu
        | nil =>
          cases hreads : p.reads with
          | cons fs rest =>
            simp only [advance, hu, hreads]
            apply h.set (hsound.read hu hreads)
            intro p' hp'
            rw [hp, Option.some.injEq] at hp'
            exact hp' ▸ ⟨rfl, rfl⟩
          | nil =>
            simp only [advance, hu, hreads]
            exact h.write hp hreads (hfresh p hp hu hreads)

/-- In a run that writes no overtaken copy, the row of an id is current whenever no operation on
the id is under way. -/
theorem current_of_writesFresh (h : s.Sound) {ins : List (Input T L)}
    (hrun : Runs.Along System.step WritesFresh s ins) {i : I}
    (hquiet : (Runs.final System.step s ins).Quiet i) :
    Current L (Runs.final System.step s ins).mem i := by
  have hfinal : (Runs.final System.step s ins).Sound :=
    hrun.invariant (fun s i hs hi => hs.step i hi) h
  apply (hfinal.stored i).resolve_right
  rintro ⟨t, p, hp, hid, -⟩
  exact hquiet t p hp hid

def only (t : T) (m : M) (p : Progress L) : System T L :=
  ⟨m, Function.update (fun _ => none) t (some p)⟩

theorem step_only (t : T) (m : M) (p : Progress L) :
    (only t m p).step (.step t) = (only t m p).advance t p := by
  have hwaits : (only t m p).waits t p = false := by
    simp only [waits, Bool.and_eq_false_iff, decide_eq_false_iff_not]
    right
    rintro ⟨t', hne, hholding⟩
    simp [only, Function.update_of_ne hne] at hholding
  have hrunning : (only t m p).running t = some p := by simp [only]
  simp [step, hrunning, hwaits]

theorem final_updates (t : T) (us : List (Update M)) (m : M) (p : Progress L)
    (hp : p.updates = us) (hcopied : p.copied = []) :
    Runs.final step (only t m p) (List.replicate us.length (.step t)) =
      only t (us.foldl (fun m u => u.run m) m) { p with updates := [] } := by
  induction us generalizing m p with
  | nil =>
    cases p
    cases hp
    rfl
  | cons u us ih =>
    have hnext : (only t m p).advance t p = only t (u.run m) { p with updates := us } := by
      simp only [advance, hp, only, System.mk.injEq, true_and]
      funext t'
      rcases eq_or_ne t' t with rfl | hne
      · simp
      · simp [Function.update_of_ne hne]
    rw [List.length_cons, List.replicate_succ, Runs.final_cons, step_only, hnext]
    exact ih (u.run m) { p with updates := us } rfl hcopied

theorem final_reads (t : T) (rest : List (List F)) (m : M) (p : Progress L)
    (hu : p.updates = []) (hreads : p.reads = rest) (hsound : p.Sound m)
    (hfresh : p.overtaken = false) :
    Runs.final step (only t m p) (List.replicate (rest.length + 1) (.step t)) =
      idle (L.save m p.op.id (L.project m p.op.id)) := by
  induction rest generalizing p with
  | nil =>
    rw [List.length_nil, Nat.zero_add, List.replicate_one, Runs.final_cons, Runs.final_nil,
      step_only]
    simp only [advance, hu, hreads, only, idle, hsound.copy_eq hreads hfresh, System.mk.injEq,
      true_and, Function.update_idem]
    funext t'
    rcases eq_or_ne t' t with rfl | hne
    · simp
    · simp [Function.update_of_ne hne]
  | cons fs rest ih =>
    have hnext : (only t m p).advance t p = only t m (p.read m fs) := by
      simp [advance, hu, hreads, only]
    rw [List.length_cons, List.replicate_succ, Runs.final_cons, step_only, hnext]
    exact ih (p.read m fs) hu (by simp [Progress.read, hreads]) (hsound.read hu hreads) hfresh

/-- An operation that runs alone does what it does when nothing comes in between. -/
theorem final_alone (t : T) (m : M) {choose : M → Option (Operation L)} {op : Operation L}
    (hop : choose m = some op) :
    Runs.final step (idle m) (.start t choose ::
      List.replicate (op.updates.length + (op.reads.length + 1)) (.step t)) =
      idle (op.result m) := by
  have hstart : (idle m : System T L).step (.start t choose) = only t m (.begin op) := by
    simp [step, idle, only, hop]
  rw [Runs.final_cons, hstart, List.replicate_add, Runs.final_append,
    final_updates t op.updates m (.begin op) rfl rfl]
  apply final_reads t op.reads _ { Progress.begin op with updates := [] } rfl rfl ?_ rfl
  exact ⟨nofun, fun f => .inr (op.covers f), fun h => absurd rfl h, fun _ => rfl, fun _ _ => nofun⟩

end System
end
end Snapshots
