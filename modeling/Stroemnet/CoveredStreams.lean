import Mathlib.Data.Set.Basic
import Mathlib.Order.Nat
import Mathlib.Tactic.Common

/-! # Streams read behind a cursor

The items of a stream stand at positions. A reader takes them in order, works on them one by
one and keeps a cursor; what is behind the cursor has to be done or to wait. A reader that takes
whole ranges tiles the positions behind its cursor. -/
namespace Streams

universe u

variable {α : Type u} {items : ℕ → List α} {done done' waiting waiting' : α → Prop}
  {lo mid hi : ℕ}

def Covered (items : ℕ → List α) (done waiting : α → Prop) (lo hi : ℕ) : Prop :=
  ∀ i, lo ≤ i → i < hi → ∀ x ∈ items i, done x ∨ waiting x

theorem covered_self (items : ℕ → List α) (done waiting : α → Prop) (lo : ℕ) :
    Covered items done waiting lo lo :=
  fun _ hlo hhi => absurd hhi (Nat.not_lt.mpr hlo)

/-- Work turns waiting items into done ones. -/
theorem Covered.imp (h : Covered items done waiting lo hi)
    (himp : ∀ x, done x ∨ waiting x → done' x ∨ waiting' x) :
    Covered items done' waiting' lo hi :=
  fun i hlo hhi x hx => himp x (h i hlo hhi x hx)

theorem Covered.extend (h : Covered items done waiting lo mid)
    (hnew : ∀ i, mid ≤ i → i < hi → ∀ x ∈ items i, waiting x) :
    Covered items done waiting lo hi := by
  intro i hlo hhi x hx
  rcases Nat.lt_or_ge i mid with hmid | hmid
  · exact h i hlo hmid x hx
  · exact .inr (hnew i hmid hhi x hx)

/-- A stop is safe when whatever waits can be left alone. -/
theorem Covered.forall_done (h : Covered items done waiting lo hi)
    (hstop : ∀ x, waiting x → done x) : Covered items done (fun _ => False) lo hi :=
  h.imp fun x hx => .inl (hx.elim id (hstop x))

/-- Half-open ranges that follow each other without a gap from one position to another. -/
def Tiles : ℕ → List (ℕ × ℕ) → ℕ → Prop
  | lo, [], hi => lo = hi
  | lo, r :: rs, hi => r.1 = lo ∧ r.1 < r.2 ∧ Tiles r.2 rs hi

variable {rs rs' : List (ℕ × ℕ)}

theorem Tiles.append (h : Tiles lo rs mid) (h' : Tiles mid rs' hi) : Tiles lo (rs ++ rs') hi := by
  induction rs generalizing lo with
  | nil =>
    cases h
    exact h'
  | cons r rs ih =>
    obtain ⟨hlo, hlt, hrest⟩ := h
    exact ⟨hlo, hlt, ih hrest⟩

theorem Tiles.le (h : Tiles lo rs hi) : lo ≤ hi := by
  induction rs generalizing lo with
  | nil => exact Nat.le_of_eq h
  | cons r rs ih =>
    obtain ⟨rfl, hlt, hrest⟩ := h
    exact hlt.le.trans (ih hrest)

theorem Tiles.exists_mem (h : Tiles lo rs hi) {i : ℕ} (hlo : lo ≤ i) (hhi : i < hi) :
    ∃ r ∈ rs, r.1 ≤ i ∧ i < r.2 := by
  induction rs generalizing lo with
  | nil =>
    cases h
    exact absurd hhi (Nat.not_lt.mpr hlo)
  | cons r rs ih =>
    obtain ⟨rfl, -, hrest⟩ := h
    rcases Nat.lt_or_ge i r.2 with hlt | hge
    · exact ⟨r, List.mem_cons_self, hlo, hlt⟩
    · obtain ⟨r', hr', hin⟩ := ih hrest hge
      exact ⟨r', List.mem_cons_of_mem _ hr', hin⟩

theorem Tiles.lo_le (h : Tiles lo rs hi) : ∀ r ∈ rs, lo ≤ r.1 := by
  induction rs generalizing lo with
  | nil => nofun
  | cons r rs ih =>
    obtain ⟨rfl, hlt, hrest⟩ := h
    rw [List.forall_mem_cons]
    exact ⟨Nat.le_refl _, fun r' hr' => hlt.le.trans (ih hrest r' hr')⟩

/-- The ranges are disjoint and in increasing order. -/
theorem Tiles.pairwise (h : Tiles lo rs hi) : rs.Pairwise fun r r' => r.2 ≤ r'.1 := by
  induction rs generalizing lo with
  | nil => exact .nil
  | cons r rs ih =>
    obtain ⟨-, -, hrest⟩ := h
    exact .cons hrest.lo_le (ih hrest)

end Streams
