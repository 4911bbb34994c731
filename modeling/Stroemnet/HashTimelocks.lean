import Mathlib.Data.List.Basic
import Mathlib.Order.WithBot
import Mathlib.Tactic.Common

/-! # Hash timelocks

A leg of a swap is locked under a hash and two times: before the first it can be claimed with a
preimage of the hash, from the second on it can be refunded. Two legs under one hash belong
together, for whoever claims the one shows how to claim the other. -/
namespace HashTimelocks

universe u v w

variable {S : Type u} {H : Type v} {T : Type w}

structure Terms (H : Type v) (T : Type w) where
  lock : H
  /-- A claim has to come before this time. -/
  closes : WithTop T
  /-- A refund has to wait for this time. -/
  opens : T
deriving DecidableEq

inductive Leg (S : Type u) (H : Type v) (T : Type w)
  | unused
  | locked (terms : Terms H T)
  | claimed (terms : Terms H T) (secret : S)
  | refunded (terms : Terms H T)
deriving DecidableEq

inductive Move (S : Type u) (H : Type v) (T : Type w)
  | lock (terms : Terms H T)
  | claim (secret : S)
  | refund
deriving DecidableEq

section Moves

variable [DecidableEq H] [LinearOrder T] (hash : S → H)

/-- The leg after a move at a time; `none` if the move is not allowed. -/
def Leg.move (leg : Leg S H T) (t : T) : Move S H T → Option (Leg S H T)
  | .lock terms =>
    match leg with
    | .unused => if (t : WithTop T) < terms.closes then some (.locked terms) else none
    | _ => none
  | .claim secret =>
    match leg with
    | .locked terms =>
      if hash secret = terms.lock ∧ (t : WithTop T) < terms.closes then
        some (.claimed terms secret)
      else none
    | _ => none
  | .refund =>
    match leg with
    | .locked terms => if terms.opens ≤ t then some (.refunded terms) else none
    | _ => none

/-- The leg after a history of moves, each with its time. -/
def Leg.play (leg : Leg S H T) : List (T × Move S H T) → Option (Leg S H T)
  | [] => some leg
  | m :: ms => (leg.move hash m.1 m.2).bind fun leg' => leg'.play ms

variable {hash} {leg leg' : Leg S H T} {t : T} {m : Move S H T} {ms : List (T × Move S H T)}
  {terms : Terms H T} {s : S}

theorem move_cases (h : leg.move hash t m = some leg') :
    (∃ terms, leg = .unused ∧ m = .lock terms ∧ leg' = .locked terms) ∨
    (∃ terms s, leg = .locked terms ∧ m = .claim s ∧ hash s = terms.lock ∧
      (t : WithTop T) < terms.closes ∧ leg' = .claimed terms s) ∨
    ∃ terms, leg = .locked terms ∧ m = .refund ∧ terms.opens ≤ t ∧ leg' = .refunded terms := by
  cases m with
  | lock terms =>
    cases leg with
    | unused =>
      simp only [Leg.move, Option.ite_none_right_eq_some, Option.some.injEq] at h
      exact .inl ⟨terms, rfl, rfl, h.2.symm⟩
    | locked _ => cases h
    | claimed _ _ => cases h
    | refunded _ => cases h
  | claim s =>
    cases leg with
    | unused => cases h
    | locked terms =>
      simp only [Leg.move, Option.ite_none_right_eq_some, Option.some.injEq] at h
      exact .inr (.inl ⟨terms, s, rfl, rfl, h.1.1, h.1.2, h.2.symm⟩)
    | claimed _ _ => cases h
    | refunded _ => cases h
  | refund =>
    cases leg with
    | unused => cases h
    | locked terms =>
      simp only [Leg.move, Option.ite_none_right_eq_some, Option.some.injEq] at h
      exact .inr (.inr ⟨terms, rfl, rfl, h.1, h.2.symm⟩)
    | claimed _ _ => cases h
    | refunded _ => cases h

theorem move_lock (h : (t : WithTop T) < terms.closes) :
    (Leg.unused : Leg S H T).move hash t (.lock terms) = some (.locked terms) := if_pos h

theorem move_claim (hs : hash s = terms.lock) (h : (t : WithTop T) < terms.closes) :
    (Leg.locked terms : Leg S H T).move hash t (.claim s) = some (.claimed terms s) :=
  if_pos ⟨hs, h⟩

theorem move_refund (h : terms.opens ≤ t) :
    (Leg.locked terms : Leg S H T).move hash t .refund = some (.refunded terms) := if_pos h

@[simp] theorem play_nil (leg : Leg S H T) : leg.play hash [] = some leg := rfl

theorem play_cons_eq_some : leg.play hash ((t, m) :: ms) = some leg' ↔
    ∃ mid, leg.move hash t m = some mid ∧ mid.play hash ms = some leg' :=
  Option.bind_eq_some_iff

theorem play_append {ms' : List (T × Move S H T)} :
    leg.play hash (ms ++ ms') = (leg.play hash ms).bind fun mid => mid.play hash ms' := by
  induction ms generalizing leg with
  | nil => rfl
  | cons m ms ih =>
    simp only [List.cons_append, Leg.play, Option.bind_assoc]
    exact congrArg _ (funext fun mid => ih)

theorem play_append_eq_some {ms' : List (T × Move S H T)} :
    leg.play hash (ms ++ ms') = some leg' ↔
      ∃ mid, leg.play hash ms = some mid ∧ mid.play hash ms' = some leg' := by
  rw [play_append, Option.bind_eq_some_iff]

/-- A leg that has changed got where it is by a last move. -/
theorem last_of_play (h : leg.play hash ms = some leg') (hne : leg ≠ leg') :
    ∃ (mid : Leg S H T) (t : T) (m : Move S H T), (t, m) ∈ ms ∧ mid.move hash t m = some leg' := by
  obtain rfl | ⟨ms, m, rfl⟩ := ms.eq_nil_or_concat'
  · exact absurd (Option.some.inj h) hne
  · obtain ⟨mid, -, hlast⟩ := play_append_eq_some.mp h
    obtain ⟨_, hmove, hnil⟩ := play_cons_eq_some.mp hlast
    cases hnil
    exact ⟨mid, m.1, m.2, by simp, hmove⟩

/-- A leg becomes claimed with a preimage, in time. -/
theorem claim_mem_of_play (h : leg.play hash ms = some (.claimed terms s))
    (hne : leg ≠ .claimed terms s) :
    hash s = terms.lock ∧ ∃ t, (t, .claim s) ∈ ms ∧ (t : WithTop T) < terms.closes := by
  obtain ⟨mid, t, m, hm, hmove⟩ := last_of_play h hne
  obtain ⟨_, -, -, hleg⟩ | ⟨_, _, -, rfl, hs, ht, hleg⟩ | ⟨_, -, -, -, hleg⟩ := move_cases hmove
  · cases hleg
  · cases hleg
    exact ⟨hs, t, hm, ht⟩
  · cases hleg

theorem refund_mem_of_play (h : leg.play hash ms = some (.refunded terms))
    (hne : leg ≠ .refunded terms) : ∃ t, (t, .refund) ∈ ms ∧ terms.opens ≤ t := by
  obtain ⟨mid, t, m, hm, hmove⟩ := last_of_play h hne
  obtain ⟨_, -, -, hleg⟩ | ⟨_, _, -, -, -, -, hleg⟩ | ⟨_, -, rfl, ht, hleg⟩ := move_cases hmove
  · cases hleg
  · cases hleg
  · cases hleg
    exact ⟨t, hm, ht⟩

theorem claimed_play (h : (Leg.claimed terms s).play hash ms = some leg) :
    leg = .claimed terms s := by
  cases ms with
  | nil => exact (Option.some.inj h).symm
  | cons m ms =>
    obtain ⟨mid, hmove, -⟩ := play_cons_eq_some.mp h
    obtain ⟨_, hleg, -⟩ | ⟨_, _, hleg, -⟩ | ⟨_, hleg, -⟩ := move_cases hmove <;> cases hleg

theorem refunded_play (h : (Leg.refunded terms).play hash ms = some leg) :
    leg = .refunded terms := by
  cases ms with
  | nil => exact (Option.some.inj h).symm
  | cons m ms =>
    obtain ⟨mid, hmove, -⟩ := play_cons_eq_some.mp h
    obtain ⟨_, hleg, -⟩ | ⟨_, _, hleg, -⟩ | ⟨_, hleg, -⟩ := move_cases hmove <;> cases hleg

/-- What can become of a locked leg; its terms never change. -/
theorem locked_play (h : (Leg.locked terms).play hash ms = some leg) :
    leg = .locked terms ∨ (∃ s, leg = .claimed terms s) ∨ leg = .refunded terms := by
  cases ms with
  | nil => exact .inl (Option.some.inj h).symm
  | cons m ms =>
    obtain ⟨mid, hmove, hrest⟩ := play_cons_eq_some.mp h
    obtain ⟨_, hleg, -⟩ | ⟨_, s, hleg, -, -, -, rfl⟩ | ⟨_, hleg, -, -, rfl⟩ := move_cases hmove
    · cases hleg
    · cases hleg
      exact .inr (.inl ⟨s, claimed_play hrest⟩)
    · cases hleg
      exact .inr (.inr (refunded_play hrest))

theorem nil_of_unused_play (h : Leg.unused.play hash ms = some .unused) : ms = [] := by
  cases ms with
  | nil => rfl
  | cons m ms =>
    obtain ⟨mid, hmove, hrest⟩ := play_cons_eq_some.mp h
    obtain ⟨_, -, -, rfl⟩ | ⟨_, _, hleg, -⟩ | ⟨_, hleg, -⟩ := move_cases hmove
    · obtain hleg | ⟨_, hleg⟩ | hleg := locked_play hrest <;> cases hleg
    · cases hleg
    · cases hleg

theorem eq_claimed_of_mem (h : leg.play hash ms = some leg') (hm : (t, .claim s) ∈ ms) :
    ∃ terms, leg' = .claimed terms s := by
  obtain ⟨before, after, rfl⟩ := List.append_of_mem hm
  obtain ⟨mid, -, hrest⟩ := play_append_eq_some.mp h
  obtain ⟨claimed, hmove, hafter⟩ := play_cons_eq_some.mp hrest
  obtain ⟨_, -, hclaim, -⟩ | ⟨terms, _, -, hclaim, -, -, rfl⟩ | ⟨_, -, hclaim, -⟩ :=
    move_cases hmove
  · cases hclaim
  · cases hclaim
    exact ⟨terms, claimed_play hafter⟩
  · cases hclaim

section Map

variable {S' H' : Type*} [DecidableEq H']

def Terms.map (g : H → H') (terms : Terms H T) : Terms H' T :=
  ⟨g terms.lock, terms.closes, terms.opens⟩

def Leg.map (f : S → S') (g : H → H') : Leg S H T → Leg S' H' T
  | .unused => .unused
  | .locked terms => .locked (terms.map g)
  | .claimed terms s => .claimed (terms.map g) (f s)
  | .refunded terms => .refunded (terms.map g)

def Move.map (f : S → S') (g : H → H') : Move S H T → Move S' H' T
  | .lock terms => .lock (terms.map g)
  | .claim s => .claim (f s)
  | .refund => .refund

variable {f : S → S'} {g : H → H'} {hash' : S' → H'}

theorem move_map (hcomm : ∀ s, hash' (f s) = g (hash s)) (h : leg.move hash t m = some leg') :
    (leg.map f g).move hash' t (m.map f g) = some (leg'.map f g) := by
  obtain ⟨terms, rfl, rfl, rfl⟩ | ⟨terms, s, rfl, rfl, hs, ht, rfl⟩ | ⟨terms, rfl, rfl, ht, rfl⟩ :=
    move_cases h
  · simp only [Leg.move, Option.ite_none_right_eq_some] at h
    exact move_lock h.1
  · exact move_claim ((hcomm s).trans (congrArg g hs)) ht
  · exact move_refund ht

theorem play_map (hcomm : ∀ s, hash' (f s) = g (hash s)) (h : leg.play hash ms = some leg') :
    (leg.map f g).play hash' (ms.map fun e => (e.1, e.2.map f g)) = some (leg'.map f g) := by
  induction ms generalizing leg with
  | nil => exact congrArg (fun l => some (l.map f g)) (Option.some.inj h)
  | cons m ms ih =>
    obtain ⟨mid, hmove, hrest⟩ := play_cons_eq_some.mp h
    exact play_cons_eq_some.mpr ⟨_, move_map hcomm hmove, ih hrest⟩

end Map

end Moves

inductive Side
  | init | counter
deriving DecidableEq

/-- What is done to both legs, in order: each entry holds the moves that are made together on one
leg, with the time there. -/
abbrev Joint (S : Type u) (H : Type v) (T : Type w) := List (Side × T × List (Move S H T))

namespace Joint

def on (side : Side) (joint : Joint S H T) : List (T × Move S H T) :=
  joint.flatMap fun e => if e.1 = side then e.2.2.map (Prod.mk e.2.1) else []

theorem mem_on {side : Side} {joint : Joint S H T} {t : T} {m : Move S H T} :
    (t, m) ∈ joint.on side ↔ ∃ ms, (side, t, ms) ∈ joint ∧ m ∈ ms := by
  simp only [on, List.mem_flatMap]
  constructor
  · rintro ⟨⟨side', t', ms⟩, he, hm⟩
    split_ifs at hm with hside
    · obtain ⟨m', hm', heq⟩ := List.mem_map.mp hm
      cases heq
      exact ⟨ms, hside ▸ he, hm'⟩
    · cases hm
  · rintro ⟨ms, he, hm⟩
    exact ⟨_, he, by simpa using hm⟩

theorem on_append (side : Side) (a b : Joint S H T) :
    on side (a ++ b) = on side a ++ on side b := List.flatMap_append

variable [LinearOrder T]

/-- The clock of the first leg is never further than `late` says when something is done on the
other. -/
def InStep (late : T → T) (joint : Joint S H T) : Prop :=
  joint.Pairwise fun e e' => e.1 = .init → e'.1 = .counter → e.2.1 ≤ late e'.2.1

variable [DecidableEq H] {hash : S → H} {joint : Joint S H T} {late : T → T} {leg : Leg S H T}
  {initTerms counterTerms : Terms H T} {s : S}

/-- What is left of the first leg once the other was claimed. -/
inductive Owed (hash : S → H) (joint : Joint S H T) (terms : Terms H T) (s : S) :
    Leg S H T → Prop
  /-- It was claimed too. -/
  | claimed (s' : S) : Owed hash joint terms s (.claimed terms s')
  /-- The secret that was shown opens it. -/
  | claimable : Owed hash joint terms s (.locked terms)
  /-- It was given up: it was still there when the secret was shown, and its time was over before
  it went. -/
  | late (before after : Joint S H T) (t t' : T) (hsplit : joint = before ++ after)
      (hclaim : (t, .claim s) ∈ before.on .counter)
      (hlocked : (Leg.locked terms).play hash (before.on .init) = some (.locked terms))
      (hrefund : (t', .refund) ∈ after.on .init) (htime : terms.opens ≤ t') :
      Owed hash joint terms s (.refunded terms)

/-- When the other leg is claimed in good time, the first one has not been refunded yet: the claim
comes before the clock of the first leg reaches its refund. -/
theorem owed_of_claim {t : T}
    (hinit : (Leg.locked initTerms).play hash (joint.on .init) = some leg)
    (hclaim : (t, .claim s) ∈ joint.on .counter) (hstep : joint.InStep late)
    (hmargin : late t < initTerms.opens) : Owed hash joint initTerms s leg := by
  obtain rfl | ⟨s', rfl⟩ | rfl := locked_play hinit
  · exact .claimable
  · exact .claimed s'
  · obtain ⟨ms, hms, hm⟩ := mem_on.mp hclaim
    obtain ⟨before, after, rfl⟩ := List.append_of_mem hms
    have hbefore : on .init (before ++ [(.counter, t, ms)]) = on .init before := by
      rw [on_append]
      exact List.append_nil _
    have hafter : on .init (before ++ (.counter, t, ms) :: after) =
        on .init before ++ on .init after := by
      rw [on_append]
      rfl
    rw [hafter] at hinit
    obtain ⟨mid, hmid, hrest⟩ := play_append_eq_some.mp hinit
    obtain rfl | ⟨s', rfl⟩ | rfl := locked_play hmid
    · obtain ⟨t', hrefund, ht'⟩ := refund_mem_of_play hrest (by simp)
      refine .late (before ++ [(.counter, t, ms)]) after t t' (by simp) ?_ ?_ hrefund ht'
      · exact mem_on.mpr ⟨ms, by simp, hm⟩
      · rw [hbefore]
        exact hmid
    · cases claimed_play hrest
    · -- before the claim the clock of the first leg had not come that far
      obtain ⟨t', hrefund, ht'⟩ := refund_mem_of_play hmid (by simp)
      obtain ⟨ms', hms', -⟩ := mem_on.mp hrefund
      have hlate := (List.pairwise_append.mp hstep).2.2 _ hms' _ List.mem_cons_self rfl rfl
      exact absurd (ht'.trans hlate) (not_le.mpr hmargin)

end Joint

end HashTimelocks
