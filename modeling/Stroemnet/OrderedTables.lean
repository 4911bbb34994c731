import Mathlib.Data.List.Basic
import Mathlib.Order.Lattice
import Mathlib.Tactic.Common

/-! # Ordered tables

A table of a key-value store: one value for a key, with the rows in the order of their keys, so that
a range of keys is read in that order. -/
namespace OrderedTable

/-- Bytes by their value, and so byte strings by the first byte in which they differ. -/
instance linearOrderUInt8 : LinearOrder UInt8 where
  le_refl _ := UInt8.le_refl _
  le_trans _ _ _ := UInt8.le_trans
  le_antisymm _ _ := UInt8.le_antisymm
  le_total := UInt8.le_total
  lt_iff_le_not_ge a b := by
    rw [UInt8.lt_iff_toNat_lt, UInt8.le_iff_toNat_le, UInt8.le_iff_toNat_le]
    omega
  toDecidableLE := inferInstance

variable {κ ν : Type} [LinearOrder κ]

/-- The rows, each key below the keys of the rows after it. -/
structure Table (κ ν : Type) [LinearOrder κ] where
  entries : List (κ × ν)
  sorted : entries.Pairwise fun a b => a.1 < b.1

def insertEntry (k : κ) (v : ν) : List (κ × ν) → List (κ × ν)
  | [] => [(k, v)]
  | e :: es =>
    if k < e.1 then (k, v) :: e :: es
    else if k = e.1 then (k, v) :: es
    else e :: insertEntry k v es

theorem mem_insertEntry {k : κ} {v : ν} {es : List (κ × ν)}
    (h : es.Pairwise fun a b => a.1 < b.1) {e : κ × ν} :
    e ∈ insertEntry k v es ↔ e = (k, v) ∨ e ∈ es ∧ e.1 ≠ k := by
  induction es with
  | nil => simp [insertEntry]
  | cons e' es ih =>
    obtain ⟨hfirst, hrest⟩ := List.pairwise_cons.mp h
    rw [insertEntry]
    split_ifs with hlt heq
    · have hne : ∀ x ∈ e' :: es, x.1 ≠ k := by
        intro x hx
        rcases List.mem_cons.mp hx with rfl | hx
        · exact hlt.ne'
        · exact (hlt.trans (hfirst x hx)).ne'
      rw [List.mem_cons]
      exact or_congr_right ⟨fun hx => ⟨hx, hne e hx⟩, fun hx => hx.1⟩
    · rw [List.mem_cons, List.mem_cons]
      refine or_congr_right ⟨fun hx => ⟨.inr hx, ?_⟩, fun ⟨hx, hne⟩ => ?_⟩
      · rw [heq]
        exact (hfirst e hx).ne'
      · rcases hx with rfl | hx
        · exact absurd heq.symm hne
        · exact hx
    · rw [List.mem_cons, List.mem_cons, ih hrest]
      constructor
      · rintro (rfl | rfl | ⟨hx, hne⟩)
        · exact .inr ⟨.inl rfl, fun h => heq h.symm⟩
        · exact .inl rfl
        · exact .inr ⟨.inr hx, hne⟩
      · rintro (rfl | ⟨rfl | hx, hne⟩)
        · exact .inr (.inl rfl)
        · exact .inl rfl
        · exact .inr (.inr ⟨hx, hne⟩)

theorem pairwise_insertEntry {k : κ} {v : ν} {es : List (κ × ν)}
    (h : es.Pairwise fun a b => a.1 < b.1) :
    (insertEntry k v es).Pairwise fun a b => a.1 < b.1 := by
  induction es with
  | nil => exact List.pairwise_singleton _ _
  | cons e' es ih =>
    obtain ⟨hfirst, hrest⟩ := List.pairwise_cons.mp h
    rw [insertEntry]
    split_ifs with hlt heq
    · refine List.pairwise_cons.mpr ⟨fun x hx => ?_, h⟩
      rcases List.mem_cons.mp hx with rfl | hx
      · exact hlt
      · exact hlt.trans (hfirst x hx)
    · refine List.pairwise_cons.mpr ⟨fun x hx => ?_, hrest⟩
      rw [heq]
      exact hfirst x hx
    · refine List.pairwise_cons.mpr ⟨fun x hx => ?_, ih hrest⟩
      rcases (mem_insertEntry hrest).mp hx with rfl | ⟨hx, -⟩
      · exact lt_of_le_of_ne (not_lt.mp hlt) (Ne.symm heq)
      · exact hfirst x hx

namespace Table

def empty : Table κ ν := ⟨[], .nil⟩

def insert (t : Table κ ν) (k : κ) (v : ν) : Table κ ν :=
  ⟨insertEntry k v t.entries, pairwise_insertEntry t.sorted⟩

def remove (t : Table κ ν) (k : κ) : Table κ ν :=
  ⟨t.entries.filter (·.1 ≠ k), t.sorted.filter _⟩

def range (t : Table κ ν) (lo : κ) (hi : Option κ) : List (κ × ν) :=
  t.entries.filter fun e => lo ≤ e.1 ∧ ∀ h ∈ hi, e.1 < h

variable {t : Table κ ν} {k : κ} {v : ν} {e : κ × ν}

@[simp] theorem mem_insert :
    e ∈ (t.insert k v).entries ↔ e = (k, v) ∨ e ∈ t.entries ∧ e.1 ≠ k :=
  mem_insertEntry t.sorted

@[simp] theorem mem_remove : e ∈ (t.remove k).entries ↔ e ∈ t.entries ∧ e.1 ≠ k := by
  simp [remove]

theorem mem_range {lo : κ} {hi : Option κ} :
    e ∈ t.range lo hi ↔ e ∈ t.entries ∧ lo ≤ e.1 ∧ ∀ h ∈ hi, e.1 < h := by
  simp [range]

theorem pairwise_range (t : Table κ ν) (lo : κ) (hi : Option κ) :
    (t.range lo hi).Pairwise fun a b => a.1 < b.1 := t.sorted.filter _

end Table
end OrderedTable
