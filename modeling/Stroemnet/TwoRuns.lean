import Stroemnet.GuardedRuns

/-! # Two runs of a machine

Two runs that agree on the inputs an observer may see yield the same outputs, when a relation
between their states is kept by every visible input on both sides and by every hidden input on
one side. -/
namespace Runs

universe u v w

variable {σ : Type u} {ι : Type v} {ω : Type w} {step : σ → ι → σ} {out : σ → ι → List ω}

/-- A relation between the states of two runs that hidden inputs do not break and visible ones do
not tell apart. `P` is what every input of either run meets. -/
structure Unwinding (step : σ → ι → σ) (out : σ → ι → List ω) (visible : ι → Bool)
    (P : σ → ι → Prop) (R : σ → σ → Prop) : Prop where
  symm : ∀ {s s'}, R s s' → R s' s
  hidden : ∀ {s s' i}, R s s' → visible i = false → P s i → R (step s i) s' ∧ out s i = []
  seen : ∀ {s s' i}, R s s' → visible i = true → P s i → P s' i →
    R (step s i) (step s' i) ∧ out s i = out s' i

variable {visible : ι → Bool} {P : σ → ι → Prop} {R : σ → σ → Prop}

namespace Unwinding

private theorem of_hidden (h : Unwinding step out visible P R) {s s' : σ} {ins : List ι}
    (hR : R s s')
    (hins : ins.filter visible = []) (hP : Along step P s ins) :
    R (final step s ins) s' ∧ outputs step out s ins = [] := by
  induction ins generalizing s with
  | nil => exact ⟨hR, rfl⟩
  | cons i ins ih =>
    rw [List.filter_eq_nil_iff, List.forall_mem_cons] at hins
    obtain ⟨hstep, hout⟩ := h.hidden hR (by simpa using hins.1) hP.1
    obtain ⟨hfinal, houts⟩ := ih hstep (List.filter_eq_nil_iff.mpr hins.2) hP.2
    exact ⟨hfinal, by rw [outputs, hout, houts, List.append_nil]⟩

/-- The other run catches up with a visible input. -/
theorem catch_up (h : Unwinding step out visible P R) {s s' : σ} {i : ι} {rest ins' : List ι}
    (hR : R s s') (hi : visible i = true) (hPi : P s i) (hins : ins'.filter visible = i :: rest)
    (hP : Along step P s' ins') :
    ∃ s'' ins'', R (step s i) s'' ∧ ins''.filter visible = rest ∧ Along step P s'' ins'' ∧
      final step s' ins' = final step s'' ins'' ∧
      outputs step out s' ins' = out s i ++ outputs step out s'' ins'' := by
  induction ins' generalizing s' with
  | nil => cases hins
  | cons j ins' ih =>
    cases hj : visible j with
    | true =>
      rw [List.filter_cons_of_pos hj, List.cons.injEq] at hins
      obtain ⟨rfl, hrest⟩ := hins
      obtain ⟨hstep, hout⟩ := h.seen hR hi hPi hP.1
      exact ⟨step s' j, ins', hstep, hrest, hP.2, rfl, by rw [outputs, hout]⟩
    | false =>
      rw [List.filter_cons_of_neg (by simp [hj])] at hins
      obtain ⟨hstep, hout⟩ := h.hidden (h.symm hR) hj hP.1
      obtain ⟨s'', ins'', hR', hrest, hP', hfinal, houts⟩ := ih (h.symm hstep) hins hP.2
      exact ⟨s'', ins'', hR', hrest, hP', hfinal, by rw [outputs, hout, List.nil_append, houts]⟩

/-- Two runs that agree on the visible inputs end in related states, with the same outputs. -/
theorem runs (h : Unwinding step out visible P R) {s s' : σ} {ins ins' : List ι} (hR : R s s')
    (hins : ins.filter visible = ins'.filter visible) (hP : Along step P s ins)
    (hP' : Along step P s' ins') :
    R (final step s ins) (final step s' ins') ∧
      outputs step out s ins = outputs step out s' ins' := by
  induction ins generalizing s s' ins' with
  | nil =>
    obtain ⟨hfinal, houts⟩ := h.of_hidden (h.symm hR) hins.symm hP'
    exact ⟨h.symm hfinal, houts.symm⟩
  | cons i ins ih =>
    cases hi : visible i with
    | true =>
      rw [List.filter_cons_of_pos hi] at hins
      obtain ⟨s'', ins'', hR', hrest, hP'', hfinal, houts⟩ :=
        h.catch_up hR hi hP.1 hins.symm hP'
      obtain ⟨hend, heq⟩ := ih hR' hrest.symm hP.2 hP''
      rw [hfinal, houts, ← heq]
      exact ⟨hend, rfl⟩
    | false =>
      rw [List.filter_cons_of_neg (by simp [hi])] at hins
      obtain ⟨hstep, hout⟩ := h.hidden hR hi hP.1
      obtain ⟨hend, heq⟩ := ih hstep hins hP.2 hP'
      exact ⟨hend, by rw [outputs, hout, List.nil_append, heq]⟩

end Unwinding
end Runs
