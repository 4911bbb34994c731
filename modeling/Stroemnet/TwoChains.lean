import Stroemnet.HashTimelocks
import Stroemnet.GuardedRuns

/-! # Legs on two chains

A chain keeps a leg when every input of it moves the leg as the hash timelock allows, and its state
tells where the leg stands. Two chains take inputs in any order; then what happens to a pair of
legs is a joint history of both. -/
namespace HashTimelocks

universe u v w

variable {S : Type u} {H : Type v} {T : Type w} [DecidableEq H] [LinearOrder T]

structure LegChain (σ ι : Type*) (S : Type u) (H : Type v) (T : Type w) [DecidableEq H]
    [LinearOrder T] where
  step : σ → ι → σ
  clock : ι → T
  moves : σ → ι → List (Move S H T)
  hash : S → H
  /-- Where the leg stands in a state. -/
  Holds : σ → Leg S H T → Prop
  /-- What is asked of the inputs. -/
  Sane : ι → Prop
  holds_step : ∀ {s i leg}, Holds s leg → Sane i →
    ∃ leg', leg.play hash ((moves s i).map (Prod.mk (clock i))) = some leg' ∧ Holds (step s i) leg'

namespace LegChain

variable {σ σ' ι ι' : Type*}

def history (M : LegChain σ ι S H T) (s : σ) (ins : List ι) : List (T × Move S H T) :=
  Runs.outputs M.step (fun s i => (M.moves s i).map (Prod.mk (M.clock i))) s ins

theorem holds_run (M : LegChain σ ι S H T) {s : σ} {leg : Leg S H T} (h : M.Holds s leg)
    {ins : List ι} (hsane : ∀ i ∈ ins, M.Sane i) :
    ∃ leg', leg.play M.hash (M.history s ins) = some leg' ∧
      M.Holds (Runs.final M.step s ins) leg' := by
  induction ins generalizing s leg with
  | nil => exact ⟨leg, rfl, h⟩
  | cons i ins ih =>
    obtain ⟨mid, hmid, hholds⟩ := M.holds_step h (hsane i List.mem_cons_self)
    obtain ⟨leg', hplay, hfinal⟩ := ih hholds fun j hj => hsane j (List.mem_cons_of_mem _ hj)
    exact ⟨leg', play_append_eq_some.mpr ⟨mid, hmid, hplay⟩, hfinal⟩

/-- The chain with its leg in other words. -/
def map {S' H' : Type*} [DecidableEq H'] (M : LegChain σ ι S H T) (f : S → S') (g : H → H')
    (hash' : S' → H') (hcomm : ∀ s, hash' (f s) = g (M.hash s)) : LegChain σ ι S' H' T where
  step := M.step
  clock := M.clock
  moves s i := (M.moves s i).map (Move.map f g)
  hash := hash'
  Holds s leg' := ∃ leg, M.Holds s leg ∧ leg' = leg.map f g
  Sane := M.Sane
  holds_step := by
    rintro s i _ ⟨leg, h, rfl⟩ hsane
    obtain ⟨leg', hplay, hholds⟩ := M.holds_step h hsane
    refine ⟨leg'.map f g, ?_, leg', hholds, rfl⟩
    have hmap := play_map hcomm hplay
    rw [List.map_map] at hmap ⊢
    exact hmap

theorem history_map {S' H' : Type*} [DecidableEq H'] (M : LegChain σ ι S H T) (f : S → S')
    (g : H → H') (hash' : S' → H') (hcomm : ∀ s, hash' (f s) = g (M.hash s)) (s : σ)
    (ins : List ι) : (M.map f g hash' hcomm).history s ins =
      (M.history s ins).map fun e => (e.1, e.2.map f g) := by
  induction ins generalizing s with
  | nil => rfl
  | cons i ins ih =>
    have hhead : ((M.moves s i).map (Move.map f g)).map (Prod.mk (M.clock i)) =
        ((M.moves s i).map (Prod.mk (M.clock i))).map fun e => (e.1, e.2.map f g) := by
      rw [List.map_map, List.map_map]
      rfl
    calc (M.map f g hash' hcomm).history s (i :: ins)
        = ((M.moves s i).map (Move.map f g)).map (Prod.mk (M.clock i)) ++
            (M.map f g hash' hcomm).history (M.step s i) ins := rfl
      _ = ((M.moves s i).map (Prod.mk (M.clock i)) ++ M.history (M.step s i) ins).map
            fun e => (e.1, e.2.map f g) := by rw [hhead, ih, List.map_append]

section Both

variable (M : LegChain σ ι S H T) (N : LegChain σ' ι' S H T)

def both : σ × σ' → ι ⊕ ι' → σ × σ'
  | s, .inl i => (M.step s.1 i, s.2)
  | s, .inr j => (s.1, N.step s.2 j)

def entry (s : σ × σ') : ι ⊕ ι' → Joint S H T
  | .inl i => [(.init, M.clock i, M.moves s.1 i)]
  | .inr j => [(.counter, N.clock j, N.moves s.2 j)]

def joint (s : σ × σ') (ins : List (ι ⊕ ι')) : Joint S H T :=
  Runs.outputs (both M N) (entry M N) s ins

/-- When an input comes to the second chain, the first has not come further than `late` says. -/
def InStep (late : T → T) (ins : List (ι ⊕ ι')) : Prop :=
  ins.Pairwise fun x y => ∀ i j, x = .inl i → y = .inr j → M.clock i ≤ late (N.clock j)

variable {M N} {s : σ × σ'} {ins : List (ι ⊕ ι')} {late : T → T}

theorem final_both (s : σ × σ') (ins : List (ι ⊕ ι')) :
    Runs.final (both M N) s ins = (Runs.final M.step s.1 (ins.filterMap Sum.getLeft?),
      Runs.final N.step s.2 (ins.filterMap Sum.getRight?)) := by
  induction ins generalizing s with
  | nil => rfl
  | cons x ins ih =>
    cases x with
    | inl i => exact ih _
    | inr j => exact ih _

/-- Each chain sees its own history alone. -/
theorem on_init_joint (s : σ × σ') (ins : List (ι ⊕ ι')) :
    (joint M N s ins).on .init = M.history s.1 (ins.filterMap Sum.getLeft?) := by
  induction ins generalizing s with
  | nil => rfl
  | cons x ins ih =>
    rw [joint, Runs.outputs, Joint.on_append]
    cases x with
    | inl i =>
      refine congrArg₂ _ ?_ (ih _)
      exact List.append_nil _
    | inr j => exact ih _

theorem on_counter_joint (s : σ × σ') (ins : List (ι ⊕ ι')) :
    (joint M N s ins).on .counter = N.history s.2 (ins.filterMap Sum.getRight?) := by
  induction ins generalizing s with
  | nil => rfl
  | cons x ins ih =>
    rw [joint, Runs.outputs, Joint.on_append]
    cases x with
    | inl i => exact ih _
    | inr j =>
      refine congrArg₂ _ ?_ (ih _)
      exact List.append_nil _

/-- A part of the joint history belongs to a part of the inputs. -/
theorem joint_split {before after : Joint S H T} (h : joint M N s ins = before ++ after) :
    ∃ ins₁ ins₂, ins = ins₁ ++ ins₂ ∧ joint M N s ins₁ = before ∧
      joint M N (Runs.final (both M N) s ins₁) ins₂ = after := by
  induction ins generalizing s before with
  | nil =>
    obtain ⟨rfl, rfl⟩ := List.append_eq_nil_iff.mp h.symm
    exact ⟨[], [], rfl, rfl, rfl⟩
  | cons x ins ih =>
    cases before with
    | nil => exact ⟨[], x :: ins, rfl, rfl, h⟩
    | cons e before =>
      have hentry : ∃ e', entry M N s x = [e'] := by
        cases x with
        | inl i => exact ⟨_, rfl⟩
        | inr j => exact ⟨_, rfl⟩
      obtain ⟨e', he'⟩ := hentry
      rw [joint, Runs.outputs, he', List.cons_append, List.cons_append, List.cons.injEq] at h
      obtain ⟨rfl, h⟩ := h
      obtain ⟨ins₁, ins₂, rfl, rfl, rfl⟩ := ih h
      refine ⟨x :: ins₁, ins₂, rfl, ?_, rfl⟩
      rw [joint, Runs.outputs, he']
      rfl

/-- The entries of a joint history are those of inputs. -/
theorem clock_of_mem_joint {side : Side} {t : T} {ms : List (Move S H T)}
    (h : (side, t, ms) ∈ joint M N s ins) :
    (∃ i, .inl i ∈ ins ∧ side = .init ∧ t = M.clock i) ∨
      ∃ j, .inr j ∈ ins ∧ side = .counter ∧ t = N.clock j := by
  induction ins generalizing s with
  | nil => cases h
  | cons x ins ih =>
    rw [joint, Runs.outputs] at h
    rcases List.mem_append.mp h with h | h
    · cases x with
      | inl i =>
        cases List.mem_singleton.mp h
        exact .inl ⟨i, List.mem_cons_self, rfl, rfl⟩
      | inr j =>
        cases List.mem_singleton.mp h
        exact .inr ⟨j, List.mem_cons_self, rfl, rfl⟩
    · rcases ih h with ⟨i, hi, hside⟩ | ⟨j, hj, hside⟩
      · exact .inl ⟨i, List.mem_cons_of_mem _ hi, hside⟩
      · exact .inr ⟨j, List.mem_cons_of_mem _ hj, hside⟩

theorem inStep_joint (h : InStep M N late ins) (s : σ × σ') : (joint M N s ins).InStep late := by
  induction ins generalizing s with
  | nil => exact List.Pairwise.nil
  | cons x ins ih =>
    obtain ⟨hx, hins⟩ := List.pairwise_cons.mp h
    rw [joint, Runs.outputs]
    refine List.pairwise_append.mpr ⟨?_, ih hins _, ?_⟩
    · cases x with
      | inl i => exact List.pairwise_singleton _ _
      | inr j => exact List.pairwise_singleton _ _
    · rintro e he ⟨side, t, ms⟩ he' hinit rfl
      rcases clock_of_mem_joint he' with ⟨_, _, hside, _⟩ | ⟨j, hj, -, rfl⟩
      · cases hside
      · cases x with
        | inl i =>
          rw [List.mem_singleton.mp he]
          exact hx _ hj i j rfl rfl
        | inr _ =>
          rw [List.mem_singleton.mp he] at hinit
          cases hinit

/-- What is left of the first leg once a secret of the other was shown. -/
inductive Outcome (M : LegChain σ ι S H T) (N : LegChain σ' ι' S H T) (s : σ × σ')
    (ins : List (ι ⊕ ι')) (terms : Terms H T) (secret : S) : Prop
  /-- It was claimed too. -/
  | claimed (secret' : S) (h : M.Holds (Runs.final (both M N) s ins).1 (.claimed terms secret'))
  /-- The secret that was shown opens it. -/
  | claimable (h : M.Holds (Runs.final (both M N) s ins).1 (.locked terms))
  /-- It was given up: it was still there when the secret was shown, and its time was over before
  it went. -/
  | late (before after : List (ι ⊕ ι')) (hsplit : ins = before ++ after)
      (hshown : ∃ t, (t, .claim secret) ∈ N.history s.2 (before.filterMap Sum.getRight?))
      (hlocked : M.Holds (Runs.final (both M N) s before).1 (.locked terms))
      (i : ι) (hi : .inl i ∈ after) (htime : terms.opens ≤ M.clock i)

/-- A claim of the second leg in good time leaves the first one to its claimant. -/
theorem outcome_of_claim {terms : Terms H T} {secret : S} {t : T}
    (hsane : ∀ i, .inl i ∈ ins → M.Sane i) (hinit : M.Holds s.1 (.locked terms))
    (hclaim : (t, .claim secret) ∈ N.history s.2 (ins.filterMap Sum.getRight?))
    (hstep : InStep M N late ins) (hmargin : late t < terms.opens) :
    Outcome M N s ins terms secret := by
  have hleg : ∀ before : List (ι ⊕ ι'), before ⊆ ins → ∃ leg,
      (Leg.locked terms).play M.hash ((joint M N s before).on .init) = some leg ∧
        M.Holds (Runs.final (both M N) s before).1 leg := by
    intro before hsub
    rw [on_init_joint, final_both]
    refine M.holds_run hinit fun i hi => ?_
    obtain ⟨x, hx, hleft⟩ := List.mem_filterMap.mp hi
    exact hsane i (hsub (Sum.getLeft?_eq_some_iff.mp hleft ▸ hx))
  obtain ⟨leg, hplay, hholds⟩ := hleg ins (List.Subset.refl ins)
  rw [← on_counter_joint] at hclaim
  cases Joint.owed_of_claim hplay hclaim (inStep_joint hstep s) hmargin with
  | claimed secret' => exact .claimed secret' hholds
  | claimable => exact .claimable hholds
  | late before after t₁ t₂ hsplit hshown hlocked hrefund htime =>
    obtain ⟨ins₁, ins₂, rfl, rfl, rfl⟩ := joint_split hsplit
    obtain ⟨mid, hmid, hbefore⟩ := hleg ins₁ (List.subset_append_left _ _)
    rw [hlocked, Option.some.injEq] at hmid
    obtain ⟨ms, hms, -⟩ := Joint.mem_on.mp hrefund
    rcases clock_of_mem_joint hms with ⟨i, hi, -, rfl⟩ | ⟨j, -, hside, -⟩
    · rw [on_counter_joint] at hshown
      exact .late ins₁ ins₂ rfl ⟨t₁, hshown⟩ (hmid ▸ hbefore) i hi htime
    · cases hside

end Both

end LegChain

end HashTimelocks
