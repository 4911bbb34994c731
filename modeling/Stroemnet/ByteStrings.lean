import Mathlib.Data.Nat.Digits.Lemmas
import Mathlib.Tactic.Ring
import Mathlib.Tactic.Linarith

/-! # Byte strings and the numbers written in them

Little-endian magnitudes and the sign-and-magnitude numbers of a stack script:
the last byte carries the sign in its top bit, and an encoding is minimal when no
shorter byte string denotes the same number. -/
namespace Stroemnet

abbrev Bytes := List UInt8

/-- A byte array of fixed length 32, the `[u8; 32]` of digests, secrets and identifiers. -/
structure Bytes32 where
  data : Bytes
  length_eq : data.length = 32
deriving DecidableEq

namespace Bytes32

@[ext] theorem ext {a b : Bytes32} (h : a.data = b.data) : a = b := by
  cases a
  cases b
  cases h
  rfl

@[simp] theorem length_data (a : Bytes32) : a.data.length = 32 := a.length_eq

/-- The conversion of a byte vector of arbitrary length, which fails on any other length. -/
def ofBytes (b : Bytes) : Option Bytes32 :=
  if h : b.length = 32 then some ⟨b, h⟩ else none

@[simp] theorem ofBytes_data (a : Bytes32) : ofBytes a.data = some a := by
  simp [ofBytes, a.length_eq]

theorem ofBytes_eq_some {b : Bytes} {a : Bytes32} : ofBytes b = some a ↔ a.data = b := by
  constructor
  · intro h
    unfold ofBytes at h
    split_ifs at h
    cases h
    rfl
  · rintro rfl
    exact ofBytes_data a

/-- The array with one byte repeated. -/
def filled (b : UInt8) : Bytes32 := ⟨List.replicate 32 b, List.length_replicate⟩

instance : Inhabited Bytes32 := ⟨filled 0⟩

end Bytes32

/-- Peels one successful step off a computation that may fail. -/
theorem bind_eq_ok {ε α β : Type} {x : Except ε α} {f : α → Except ε β} {b : β} :
    (x >>= f) = .ok b ↔ ∃ a, x = .ok a ∧ f a = .ok b := by
  cases x with
  | error e => simp [bind, Except.bind]
  | ok a => simp [bind, Except.bind]

/-- A computation fails at its first step or after it. -/
theorem bind_eq_error {ε α β : Type} {x : Except ε α} {f : α → Except ε β} {e : ε} :
    (x >>= f) = .error e ↔ x = .error e ∨ ∃ a, x = .ok a ∧ f a = .error e := by
  cases x with
  | error e' => simp [bind, Except.bind]
  | ok a => simp [bind, Except.bind]

def okOr {ε α : Type} (e : ε) : Option α → Except ε α
  | some a => .ok a
  | none => .error e

theorem okOr_eq_ok {ε α : Type} {e : ε} {o : Option α} {a : α} :
    okOr e o = .ok a ↔ o = some a := by
  cases o <;> simp [okOr]

theorem okOr_eq_error {ε α : Type} {e e' : ε} {o : Option α} :
    okOr e o = .error e' ↔ o = none ∧ e = e' := by
  cases o <;> simp [okOr]

/-- A check that throws is passed over only where it does not apply. -/
theorem refuse_eq_ok {ε α : Type} {c : Prop} [Decidable c] {e : ε} {x : Except ε α} {a : α} :
    (if c then .error e else x) = .ok a ↔ ¬ c ∧ x = .ok a := by
  split_ifs with h <;> simp [h]

theorem guard_eq_ok {ε α β : Type} {c : Prop} [Decidable c] {e : ε} {f : α → Except ε β}
    {x : Except ε β} {b : β} :
    (if c then throw e >>= f else x) = .ok b ↔ ¬ c ∧ x = .ok b := by
  split_ifs with h <;> simp [h, throw, throwThe, MonadExceptOf.throw, bind, Except.bind]

theorem guard_eq_error {ε α β : Type} {c : Prop} [Decidable c] {e e' : ε} {f : α → Except ε β}
    {x : Except ε β} :
    (if c then throw e >>= f else x) = .error e' ↔ c ∧ e = e' ∨ ¬ c ∧ x = .error e' := by
  split_ifs with h <;> simp [h, throw, throwThe, MonadExceptOf.throw, bind, Except.bind]

/-- What a list of computations yields comes from its members. -/
theorem mem_of_mapM_eq_ok {α β ε : Type} {f : α → Except ε β} {xs : List α} {ys : List β}
    (h : xs.mapM f = .ok ys) {y : β} (hy : y ∈ ys) : ∃ x ∈ xs, f x = .ok y := by
  induction xs generalizing ys with
  | nil =>
    cases h
    simp at hy
  | cons x xs ih =>
    rw [List.mapM_cons] at h
    obtain ⟨z, hz, h⟩ := bind_eq_ok.mp h
    obtain ⟨zs, hzs, h⟩ := bind_eq_ok.mp h
    cases h
    rcases List.mem_cons.mp hy with rfl | hy
    · exact ⟨x, by simp, hz⟩
    · obtain ⟨x', hx', hf⟩ := ih hzs hy
      exact ⟨x', by simp [hx'], hf⟩

theorem mapM_eq_ok_of_forall {α β ε : Type} {f : α → Except ε β} {xs : List α}
    (h : ∀ x ∈ xs, ∃ y, f x = .ok y) : ∃ ys, xs.mapM f = .ok ys := by
  induction xs with
  | nil => exact ⟨[], rfl⟩
  | cons x xs ih =>
    obtain ⟨⟨y, hy⟩, hxs⟩ := List.forall_mem_cons.mp h
    obtain ⟨ys, hys⟩ := ih hxs
    exact ⟨y :: ys, by rw [List.mapM_cons, hy, hys]; rfl⟩

namespace Numbers

/-- The unsigned value of a little-endian byte string. -/
def leNat (b : Bytes) : ℕ := Nat.ofDigits 256 (b.map UInt8.toNat)

@[simp] theorem leNat_nil : leNat [] = 0 := rfl

@[simp] theorem leNat_cons (x : UInt8) (b : Bytes) :
    leNat (x :: b) = x.toNat + 256 * leNat b := by
  simp [leNat, Nat.ofDigits_cons]

theorem leNat_append (a b : Bytes) : leNat (a ++ b) = leNat a + 256 ^ a.length * leNat b := by
  simp [leNat, Nat.ofDigits_append]

theorem leNat_lt (b : Bytes) : leNat b < 256 ^ b.length := by
  induction b with
  | nil => simp
  | cons x b ih =>
    have hx := x.toNat_lt
    simp only [leNat_cons, List.length_cons, pow_succ]
    omega

/-- The low `width` bytes of a number, least significant first. -/
def leBytes : ℕ → ℕ → Bytes
  | 0, _ => []
  | width + 1, n => UInt8.ofNat n :: leBytes width (n / 256)

@[simp] theorem length_leBytes (width n : ℕ) : (leBytes width n).length = width := by
  induction width generalizing n with
  | zero => rfl
  | succ width ih => simp [leBytes, ih]

theorem leNat_leBytes {width n : ℕ} (h : n < 256 ^ width) : leNat (leBytes width n) = n := by
  induction width generalizing n with
  | zero =>
    simp only [pow_zero] at h
    simp only [leBytes, leNat_nil]
    omega
  | succ width ih =>
    have hdiv : n / 256 < 256 ^ width := by
      rw [pow_succ] at h
      omega
    simp only [leBytes, leNat_cons, ih hdiv, UInt8.toNat_ofNat']
    omega

theorem leBytes_leNat (b : Bytes) : leBytes b.length (leNat b) = b := by
  induction b with
  | nil => rfl
  | cons x b ih =>
    have hx := x.toNat_lt
    have hdiv : (x.toNat + 256 * leNat b) / 256 = leNat b := by omega
    simp only [List.length_cons, leNat_cons, leBytes, hdiv, ih]
    congr 1
    apply UInt8.toNat_inj.mp
    rw [UInt8.toNat_ofNat']
    omega

/-- The minimal little-endian magnitude bytes of a number. -/
def magnitude (n : ℕ) : Bytes := (Nat.digits 256 n).map UInt8.ofNat

private theorem map_toNat_ofNat {l : List ℕ} (h : ∀ d ∈ l, d < 256) :
    (l.map UInt8.ofNat).map UInt8.toNat = l := by
  induction l with
  | nil => rfl
  | cons d l ih =>
    have hd : d < 256 := h d List.mem_cons_self
    simp only [List.map_cons, ih (fun a ha => h a (List.mem_cons_of_mem _ ha))]
    simp [Nat.mod_eq_of_lt hd]

private theorem magnitude_map_toNat (n : ℕ) :
    (magnitude n).map UInt8.toNat = Nat.digits 256 n :=
  map_toNat_ofNat fun _ hd => Nat.digits_lt_base (by norm_num) hd

@[simp] theorem leNat_magnitude (n : ℕ) : leNat (magnitude n) = n := by
  rw [leNat, magnitude_map_toNat, Nat.ofDigits_digits]

@[simp] theorem magnitude_zero : magnitude 0 = [] := by simp [magnitude]

theorem length_magnitude_le_iff {n k : ℕ} : (magnitude n).length ≤ k ↔ n < 256 ^ k := by
  simp [magnitude, Nat.digits_length_le_iff]

/-- A nonzero magnitude ends in a nonzero byte. -/
theorem magnitude_eq_concat {n : ℕ} (h : n ≠ 0) :
    ∃ init last, magnitude n = init ++ [last] ∧ last.toNat ≠ 0 := by
  have hne : magnitude n ≠ [] := by simpa [magnitude, Nat.digits_eq_nil_iff_eq_zero] using h
  refine ⟨(magnitude n).dropLast, (magnitude n).getLast hne,
    (List.dropLast_append_getLast hne).symm, ?_⟩
  have hlast := Nat.getLast_digit_ne_zero 256 h
  have hmap := congrArg List.getLast? (magnitude_map_toNat n)
  rw [List.getLast?_map, List.getLast?_eq_getLast_of_ne_nil hne] at hmap
  rw [List.getLast?_eq_getLast_of_ne_nil (Nat.digits_ne_nil_iff_ne_zero.mpr h)] at hmap
  simp only [Option.map_some, Option.some.injEq] at hmap
  rwa [hmap]

def signByte (negative : Bool) : UInt8 := if negative then 128 else 0

/-- Appends the sign to a magnitude: in the last byte when its top bit is free, else in a
byte of its own. -/
def withSign (negative : Bool) (m : Bytes) : Bytes :=
  match m.getLast? with
  | none => []
  | some last =>
    if 128 ≤ last.toNat then m ++ [signByte negative]
    else m.dropLast ++ [last + signByte negative]

def serializeI64 (n : ℤ) : Bytes := withSign (decide (n < 0)) (magnitude n.natAbs)

/-- Whether the most significant byte is needed. -/
def minimalEncoding (b : Bytes) : Bool :=
  match b.reverse with
  | [] => true
  | [last] => last.toNat % 128 ≠ 0
  | last :: prev :: _ => last.toNat % 128 ≠ 0 || 128 ≤ prev.toNat

def signedValue (b : Bytes) : ℤ :=
  match b.getLast? with
  | none => 0
  | some last =>
    let m : ℤ := (leNat b.dropLast + 256 ^ b.dropLast.length * (last.toNat % 128) : ℕ)
    if 128 ≤ last.toNat then -m else m

/-- Reads a minimally encoded number of at most `size` bytes. -/
def deserializeI64 (size : ℕ) (b : Bytes) : Option ℤ :=
  if b.length ≤ size && minimalEncoding b then some (signedValue b) else none

private theorem withSign_concat (negative : Bool) (init : Bytes) (last : UInt8) :
    withSign negative (init ++ [last]) =
      if 128 ≤ last.toNat then init ++ [last, signByte negative]
      else init ++ [last + signByte negative] := by
  simp [withSign]

private theorem minimalEncoding_concat (init : Bytes) (last : UInt8)
    (h : last.toNat % 128 ≠ 0) : minimalEncoding (init ++ [last]) = true := by
  unfold minimalEncoding
  cases hr : init.reverse with
  | nil => simp [hr, h]
  | cons prev rest => simp [hr, h]

private theorem signedValue_concat (init : Bytes) (last : UInt8) :
    signedValue (init ++ [last]) =
      if 128 ≤ last.toNat then -((leNat init + 256 ^ init.length * (last.toNat % 128) : ℕ) : ℤ)
      else ((leNat init + 256 ^ init.length * (last.toNat % 128) : ℕ) : ℤ) := by
  simp [signedValue]

private theorem toNat_add_signByte (negative : Bool) {b : UInt8} (h : b.toNat < 128) :
    (b + signByte negative).toNat = b.toNat + if negative then 128 else 0 := by
  cases negative
  · simp [signByte]
  · have hb : (128 : UInt8).toNat = 128 := rfl
    simp only [signByte, ↓reduceIte, UInt8.toNat_add, hb]
    omega

/-- The sign byte put on a magnitude gives back the magnitude and the sign. -/
private theorem signedValue_withSign (negative : Bool) {n : ℕ} (h : n ≠ 0) :
    minimalEncoding (withSign negative (magnitude n)) = true ∧
      signedValue (withSign negative (magnitude n)) = if negative then -(n : ℤ) else n := by
  obtain ⟨init, last, hm, hlast⟩ := magnitude_eq_concat h
  have hn : n = leNat init + 256 ^ init.length * last.toNat := by
    have hv := leNat_magnitude n
    rw [hm, leNat_append] at hv
    simpa using hv.symm
  rw [hm, withSign_concat]
  by_cases htop : 128 ≤ last.toNat
  · have hsplit : ∀ s : UInt8, init ++ [last, s] = (init ++ [last]) ++ [s] := by simp
    rw [if_pos htop]
    refine ⟨by simp [minimalEncoding, htop], ?_⟩
    rw [hsplit, signedValue_concat, leNat_append]
    cases negative <;> simp [hn, signByte]
  · have hsmall : last.toNat < 128 := by omega
    rw [if_neg htop]
    have hadd := toNat_add_signByte negative hsmall
    have hmod : (last + signByte negative).toNat % 128 = last.toNat := by
      rw [hadd]
      cases negative <;> simp <;> omega
    refine ⟨minimalEncoding_concat _ _ (by rwa [hmod]), ?_⟩
    rw [signedValue_concat, hmod, hadd]
    cases negative <;> simp [hn]
    omega

@[simp] theorem serializeI64_zero : serializeI64 0 = [] := rfl

theorem signedValue_serializeI64 (n : ℤ) :
    minimalEncoding (serializeI64 n) = true ∧ signedValue (serializeI64 n) = n := by
  by_cases h : n = 0
  · subst h
    exact ⟨rfl, rfl⟩
  · obtain ⟨hmin, hval⟩ := signedValue_withSign (decide (n < 0)) (Int.natAbs_ne_zero.mpr h)
    refine ⟨hmin, hval.trans ?_⟩
    simp only [decide_eq_true_eq]
    split_ifs with hneg <;> omega

private theorem length_withSign_le (negative : Bool) {n k : ℕ} (h : 2 * n < 256 ^ k) :
    (withSign negative (magnitude n)).length ≤ k := by
  by_cases hz : n = 0
  · subst hz
    simp [withSign]
  · obtain ⟨init, last, hm, hlast⟩ := magnitude_eq_concat hz
    have hlen : (magnitude n).length ≤ k := length_magnitude_le_iff.mpr (by omega)
    rw [hm] at hlen
    rw [hm, withSign_concat]
    split_ifs with htop
    · -- a full top byte and `k` bytes together would already exceed the bound
      by_contra hlong
      have hk : k = init.length + 1 := by
        simp only [List.length_append, List.length_cons, List.length_nil] at hlen hlong
        omega
      have hv := leNat_magnitude n
      rw [hm, leNat_append] at hv
      simp only [leNat_cons, leNat_nil, Nat.mul_zero, Nat.add_zero] at hv
      have hbig : 256 ^ init.length * 128 ≤ 256 ^ init.length * last.toNat :=
        Nat.mul_le_mul_left _ htop
      rw [hk, pow_succ] at h
      omega
    · simpa using hlen

theorem length_serializeI64_le {n : ℤ} {k : ℕ} (h : 2 * n.natAbs < 256 ^ k) :
    (serializeI64 n).length ≤ k :=
  length_withSign_le _ h

/-- A number that fits `size` bytes with its sign survives the encoding. -/
theorem deserializeI64_serializeI64 {n : ℤ} {size : ℕ} (h : 2 * n.natAbs < 256 ^ size) :
    deserializeI64 size (serializeI64 n) = some n := by
  obtain ⟨hmin, hval⟩ := signedValue_serializeI64 n
  simp [deserializeI64, length_serializeI64_le h, hmin, hval]

/-- The bytes of a nonnegative number, read without a sign, denote the same number. -/
theorem leNat_serializeI64 (n : ℕ) : leNat (serializeI64 n) = n := by
  by_cases hz : n = 0
  · subst hz
    rfl
  · obtain ⟨init, last, hm, -⟩ := magnitude_eq_concat hz
    have hv := leNat_magnitude n
    rw [hm] at hv
    have hneg : decide ((n : ℤ) < 0) = false := by simp
    rw [serializeI64, hneg, Int.natAbs_natCast, hm, withSign_concat]
    split_ifs with htop
    · rw [← hv, leNat_append, leNat_append]
      simp [signByte]
    · simpa [signByte] using hv

/-- The bytes of a negative number, read without a sign, have the sign bit in their value. -/
theorem leNat_serializeI64_neg {n : ℤ} (h : n < 0) :
    leNat (serializeI64 n) = n.natAbs + 128 * 256 ^ ((serializeI64 n).length - 1) := by
  obtain ⟨init, last, hm, -⟩ := magnitude_eq_concat (Int.natAbs_ne_zero.mpr h.ne)
  have hv := leNat_magnitude n.natAbs
  rw [hm, leNat_append] at hv
  simp only [leNat_cons, leNat_nil, Nat.mul_zero, Nat.add_zero] at hv
  have hneg : decide (n < 0) = true := by simpa using h
  rw [serializeI64, hneg, hm, withSign_concat]
  split_ifs with htop
  · rw [leNat_append]
    simp only [signByte, if_true, leNat_cons, leNat_nil, List.length_append, List.length_cons,
      List.length_nil, Nat.mul_zero, Nat.add_zero, ← hv]
    have hpow : 256 ^ (init.length + (0 + 1 + 1) - 1) = 256 ^ init.length * 256 := by
      rw [← pow_succ]
      rfl
    rw [hpow]
    have hbyte : (128 : UInt8).toNat = 128 := rfl
    rw [hbyte]
    ring
  · have hadd := toNat_add_signByte true (b := last) (by omega)
    simp only [if_true] at hadd
    rw [leNat_append]
    simp only [leNat_cons, leNat_nil, List.length_append, List.length_cons, List.length_nil,
      Nat.mul_zero, Nat.add_zero, hadd, ← hv, Nat.add_sub_cancel]
    ring

end Numbers
end Stroemnet
