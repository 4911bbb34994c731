import Mathlib.Algebra.BigOperators.Group.List.Basic
import Mathlib.Algebra.GroupWithZero.Nat
import Mathlib.Tactic.Common

/-! # Runs of a machine

A machine takes inputs one after the other. A run may be restricted by a condition on every
input and the state before it, and may yield outputs. -/
namespace Runs

universe u v w

variable {σ : Type u} {ι : Type v} {ω : Type w} {step : σ → ι → σ}

/-- The state after a list of inputs. -/
def final (step : σ → ι → σ) (s : σ) (ins : List ι) : σ := ins.foldl step s

/-- Every input of a run meets a condition on the state before it. -/
def Along (step : σ → ι → σ) (P : σ → ι → Prop) : σ → List ι → Prop
  | _, [] => True
  | s, i :: ins => P s i ∧ Along step P (step s i) ins

instance Along.decidable {P : σ → ι → Prop} [∀ s i, Decidable (P s i)] (s : σ) (ins : List ι) :
    Decidable (Along step P s ins) :=
  match ins with
  | [] => isTrue trivial
  | i :: ins => @instDecidableAnd _ _ _ (Along.decidable (step s i) ins)

def outputs (step : σ → ι → σ) (out : σ → ι → List ω) : σ → List ι → List ω
  | _, [] => []
  | s, i :: ins => out s i ++ outputs step out (step s i) ins

@[simp] theorem final_nil (s : σ) : final step s [] = s := rfl

@[simp] theorem final_cons (s : σ) (i : ι) (ins : List ι) :
    final step s (i :: ins) = final step (step s i) ins := rfl

theorem final_append (s : σ) (a b : List ι) :
    final step s (a ++ b) = final step (final step s a) b := List.foldl_append

theorem outputs_append {out : σ → ι → List ω} (s : σ) (a b : List ι) :
    outputs step out s (a ++ b) = outputs step out s a ++ outputs step out (final step s a) b := by
  induction a generalizing s with
  | nil => rfl
  | cons i a ih => simp [outputs, ih]

theorem along_append {P : σ → ι → Prop} {s : σ} {a b : List ι} :
    Along step P s (a ++ b) ↔ Along step P s a ∧ Along step P (final step s a) b := by
  induction a generalizing s with
  | nil => simp [Along]
  | cons i a ih => simp [Along, ih, and_assoc]

theorem along_true (s : σ) (ins : List ι) : Along step (fun _ _ => True) s ins := by
  induction ins generalizing s with
  | nil => trivial
  | cons i ins ih => exact ⟨trivial, ih (step s i)⟩

theorem Along.mono {P Q : σ → ι → Prop} (hPQ : ∀ s i, P s i → Q s i) {s : σ} {ins : List ι}
    (h : Along step P s ins) : Along step Q s ins := by
  induction ins generalizing s with
  | nil => trivial
  | cons i ins ih => exact ⟨hPQ s i h.1, ih h.2⟩

theorem Along.and {P Q : σ → ι → Prop} {s : σ} {ins : List ι} (hP : Along step P s ins)
    (hQ : Along step Q s ins) : Along step (fun s i => P s i ∧ Q s i) s ins := by
  induction ins generalizing s with
  | nil => trivial
  | cons i ins ih => exact ⟨⟨hP.1, hQ.1⟩, ih hP.2 hQ.2⟩

/-- What every step keeps under the condition, a run keeps. -/
theorem Along.invariant {P : σ → ι → Prop} {I : σ → Prop}
    (hstep : ∀ s i, I s → P s i → I (step s i)) {s : σ} {ins : List ι} (hs : I s)
    (h : Along step P s ins) : I (final step s ins) := by
  induction ins generalizing s with
  | nil => exact hs
  | cons i ins ih => exact ih (hstep s i hs h.1) h.2

/-- What holds before every step under the condition and an invariant, holds all along a run. -/
theorem Along.of_invariant {P Q : σ → ι → Prop} {I : σ → Prop}
    (hstep : ∀ s i, I s → P s i → Q s i ∧ I (step s i)) {s : σ} {ins : List ι} (hs : I s)
    (h : Along step P s ins) : Along step Q s ins := by
  induction ins generalizing s with
  | nil => trivial
  | cons i ins ih =>
    obtain ⟨hQ, hI⟩ := hstep s i hs h.1
    exact ⟨hQ, ih hI h.2⟩

/-- What a step keeps exactly under the condition, holds in every state of a run exactly if it holds
at the start and the condition all along. -/
theorem forall_final_iff {P : σ → ι → Prop} {I : σ → Prop}
    (hstep : ∀ s i, I s → (I (step s i) ↔ P s i)) (s : σ) (ins : List ι) :
    (∀ before after, ins = before ++ after → I (final step s before)) ↔
      I s ∧ Along step P s ins := by
  induction ins generalizing s with
  | nil =>
    constructor
    · intro h
      exact ⟨h [] [] rfl, trivial⟩
    · rintro ⟨h, -⟩ before after heq
      rw [(List.append_eq_nil_iff.mp heq.symm).1]
      exact h
  | cons i ins ih =>
    constructor
    · intro h
      have hs := h [] _ rfl
      obtain ⟨hnext, hrest⟩ := (ih (step s i)).mp fun before after heq =>
        h (i :: before) after (by rw [heq, List.cons_append])
      exact ⟨hs, (hstep s i hs).mp hnext, hrest⟩
    · rintro ⟨hs, hP, hrest⟩ before after heq
      cases before with
      | nil => exact hs
      | cons j before =>
        rw [List.cons_append, List.cons.injEq] at heq
        obtain ⟨rfl, heq⟩ := heq
        exact (ih (step s i)).mpr ⟨(hstep s i hs).mpr hP, hrest⟩ before after heq

/-- Every step pays for its outputs of a kind out of a credit that the state holds and that an
input may add to; then a run has at most as many of them as there was credit. -/
theorem Along.countP_outputs_le {out : σ → ι → List ω} {p : ω → Bool} {P : σ → ι → Prop}
    (credit : σ → ℕ) (grant : ι → ℕ)
    (hstep : ∀ s i, P s i → (out s i).countP p + credit (step s i) ≤ credit s + grant i) {s : σ}
    {ins : List ι} (h : Along step P s ins) :
    (outputs step out s ins).countP p ≤ credit s + (ins.map grant).sum := by
  induction ins generalizing s with
  | nil => exact Nat.zero_le _
  | cons i ins ih =>
    have hi := hstep s i h.1
    have hins := ih h.2
    rw [outputs, List.countP_append, List.map_cons, List.sum_cons]
    omega

/-- The inputs of a run are among its inputs. -/
theorem Along.and_mem {P : σ → ι → Prop} {s : σ} {ins : List ι} (h : Along step P s ins) :
    Along step (fun s i => P s i ∧ i ∈ ins) s ins := by
  have hsub : ∀ (s : σ) (rest : List ι), rest ⊆ ins → Along step P s rest →
      Along step (fun s i => P s i ∧ i ∈ ins) s rest := by
    intro s rest
    induction rest generalizing s with
    | nil => exact fun _ _ => trivial
    | cons i rest ih =>
      intro hrest h
      rw [List.cons_subset] at hrest
      exact ⟨⟨h.1, hrest.1⟩, ih _ hrest.2 h.2⟩
  exact hsub s ins (List.Subset.refl ins) h

theorem Along.forall_outputs {out : σ → ι → List ω} {Q : ω → Prop} {P : σ → ι → Prop}
    {I : σ → Prop} (hstep : ∀ s i, I s → P s i → I (step s i))
    (hout : ∀ s i, I s → P s i → ∀ x ∈ out s i, Q x) {s : σ} {ins : List ι} (hs : I s)
    (h : Along step P s ins) : ∀ x ∈ outputs step out s ins, Q x := by
  induction ins generalizing s with
  | nil => nofun
  | cons i ins ih =>
    rw [outputs, List.forall_mem_append]
    exact ⟨hout s i hs h.1, ih (hstep s i hs h.1) h.2⟩

/-- What every step keeps of the state and the outputs so far, a run keeps. -/
theorem Along.invariant_outputs {out : σ → ι → List ω} {P : σ → ι → Prop} {I : σ → List ω → Prop}
    (hstep : ∀ s i xs, I s xs → P s i → I (step s i) (xs ++ out s i)) {s : σ} {ins : List ι}
    {xs : List ω} (hs : I s xs) (h : Along step P s ins) :
    I (final step s ins) (xs ++ outputs step out s ins) := by
  induction ins generalizing s xs with
  | nil => exact (List.append_nil xs).symm ▸ hs
  | cons i ins ih =>
    rw [outputs, ← List.append_assoc]
    exact ih (hstep s i xs hs h.1) h.2

theorem along_outputs {out : σ → ι → List ω} {Q : ω → Prop} {s : σ} {ins : List ι}
    (h : ∀ x ∈ outputs step out s ins, Q x) :
    Along step (fun s i => ∀ x ∈ out s i, Q x) s ins := by
  induction ins generalizing s with
  | nil => trivial
  | cons i ins ih =>
    rw [outputs, List.forall_mem_append] at h
    exact ⟨h.1, ih h.2⟩

/-- Every step pays for the cost of its outputs out of a credit that the state holds and out of the
yield of its outputs. -/
theorem Along.sum_outputs_le {out : σ → ι → List ω} {P : σ → ι → Prop} (cost yield : ω → ℕ)
    (credit : σ → ℕ)
    (hstep : ∀ s i, P s i → ((out s i).map cost).sum + credit (step s i) ≤
      credit s + ((out s i).map yield).sum)
    {s : σ} {ins : List ι} (h : Along step P s ins) :
    ((outputs step out s ins).map cost).sum ≤
      credit s + ((outputs step out s ins).map yield).sum := by
  induction ins generalizing s with
  | nil => exact Nat.zero_le _
  | cons i ins ih =>
    have hi := hstep s i h.1
    have hins := ih h.2
    rw [outputs, List.map_append, List.map_append, List.sum_append, List.sum_append]
    omega

/-- A machine whose every step is a run of another one has as many outputs of a kind as the other
has over all these runs. -/
theorem countP_outputs_simulated {τ : Type*} {κ : Type*} {ω' : Type*} {step' : τ → κ → τ}
    {ins : τ → κ → List ι} {out : σ → ι → List ω} {out' : τ → κ → List ω'} {p : ω → Bool}
    {p' : ω' → Bool} {R : τ → σ → Prop}
    (hstep : ∀ t s k, R t s → R (step' t k) (final step s (ins t k)) ∧
      (out' t k).countP p' = (outputs step out s (ins t k)).countP p)
    {t : τ} {s : σ} (hR : R t s) (ks : List κ) :
    (outputs step' out' t ks).countP p' =
      (outputs step out s (outputs step' ins t ks)).countP p := by
  induction ks generalizing t s with
  | nil => rfl
  | cons k ks ih =>
    obtain ⟨hnext, hcount⟩ := hstep t s k hR
    rw [outputs, outputs, List.countP_append, outputs_append, List.countP_append, hcount, ih hnext]

end Runs
