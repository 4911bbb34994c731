import Mathlib.Data.Set.Function

/-! # Encodings that tell where they end

A sequence of fields can be split again in one way only if each field tells where it ends: because
all its encodings have the same length, or because the length comes first. -/
namespace SelfDelimiting

variable {α β γ : Type*}

/-- No encoding of a value in the domain begins another one, whatever follows the two. -/
def On (D : Set α) (f : α → List γ) : Prop :=
  ∀ a ∈ D, ∀ b ∈ D, ∀ r r', f a ++ r = f b ++ r' → a = b ∧ r = r'

variable {D : Set α} {E : Set β} {f : α → List γ} {g : β → List γ}

theorem On.injOn (hf : On D f) : D.InjOn f := by
  intro a ha b hb heq
  exact (hf a ha b hb [] [] (congrArg (· ++ []) heq)).1

theorem on_of_length {n : ℕ} (hlength : ∀ a ∈ D, (f a).length = n) (hinj : D.InjOn f) : On D f := by
  intro a ha b hb r r' heq
  obtain ⟨hab, hr⟩ := List.append_inj heq ((hlength a ha).trans (hlength b hb).symm)
  exact ⟨hinj ha hb hab, hr⟩

theorem On.append (hf : On D f) (hg : On E g) :
    On (D ×ˢ E) fun p : α × β => f p.1 ++ g p.2 := by
  rintro ⟨a, b⟩ ⟨ha, hb⟩ ⟨a', b'⟩ ⟨ha', hb'⟩ r r' heq
  rw [List.append_assoc, List.append_assoc] at heq
  obtain ⟨rfl, hrest⟩ := hf a ha a' ha' _ _ heq
  obtain ⟨rfl, hr⟩ := hg b hb b' hb' r r' hrest
  exact ⟨rfl, hr⟩

theorem On.framed {L : Set ℕ} {len : ℕ → List γ} (hlen : On L len)
    (hlength : ∀ a ∈ D, (f a).length ∈ L) (hinj : D.InjOn f) :
    On D fun a => len (f a).length ++ f a := by
  intro a ha b hb r r' heq
  rw [List.append_assoc, List.append_assoc] at heq
  obtain ⟨hlen_eq, heq⟩ := hlen _ (hlength a ha) _ (hlength b hb) _ _ heq
  obtain ⟨hab, hr⟩ := List.append_inj heq hlen_eq
  exact ⟨hinj ha hb hab, hr⟩

/-- The values of a type that has its fields encoded. -/
theorem On.comap (hf : On D f) {e : β → α} (he : Function.Injective e)
    (h : ∀ b ∈ E, e b ∈ D) : On E fun b => f (e b) := by
  intro a ha b hb r r' heq
  obtain ⟨hab, hr⟩ := hf _ (h a ha) _ (h b hb) r r' heq
  exact ⟨he hab, hr⟩

end SelfDelimiting
