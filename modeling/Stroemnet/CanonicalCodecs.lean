import Mathlib.Data.List.Basic
import Mathlib.Tactic.Common
import Mathlib.Tactic.Ring

/-! # Canonical binary codecs

A codec writes a value as bytes and reads it off the front of a byte string. It carries the proofs
that what was written is read back and that whatever is read was written so: a value has one
encoding. Codecs of records are put together from those of their fields. -/
namespace Borsh

abbrev Bytes := List UInt8

inductive Error
  | unexpectedLength
  | notAllBytesRead
  | invalidOption (tag : UInt8)
  | unexpectedVariant (tag : UInt8)
  | invalidUtf8
  | invalidInput
deriving DecidableEq

structure Codec (α : Type) where
  encode : α → Except Error Bytes
  decode : Bytes → Except Error (α × Bytes)
  decode_encode : ∀ a b rest, encode a = .ok b → decode (b ++ rest) = .ok (a, rest)
  encode_decode : ∀ bs a rest, decode bs = .ok (a, rest) → ∃ b, encode a = .ok b ∧ bs = b ++ rest

def leNat : Bytes → ℕ
  | [] => 0
  | b :: bs => b.toNat + 256 * leNat bs

def leBytes : ℕ → ℕ → Bytes
  | 0, _ => []
  | n + 1, x => UInt8.ofNat x :: leBytes n (x / 256)

@[simp] theorem length_leBytes (n x : ℕ) : (leBytes n x).length = n := by
  induction n generalizing x with
  | zero => rfl
  | succ n ih => rw [leBytes, List.length_cons, ih]

theorem leNat_lt (bs : Bytes) : leNat bs < 256 ^ bs.length := by
  induction bs with
  | nil => exact Nat.one_pos
  | cons b bs ih =>
    have hb := b.toNat_lt
    rw [leNat, List.length_cons, pow_succ]
    omega

theorem leNat_leBytes {n x : ℕ} (h : x < 256 ^ n) : leNat (leBytes n x) = x := by
  induction n generalizing x with
  | zero =>
    rw [pow_zero, Nat.lt_one_iff] at h
    exact h.symm
  | succ n ih =>
    rw [pow_succ] at h
    rw [leBytes, leNat, ih (by omega)]
    have hbyte : (UInt8.ofNat x).toNat = x % 256 := UInt8.toNat_ofNat'
    omega

theorem leBytes_leNat (bs : Bytes) : leBytes bs.length (leNat bs) = bs := by
  induction bs with
  | nil => rfl
  | cons b bs ih =>
    have hb := b.toNat_lt
    have hdiv : (b.toNat + 256 * leNat bs) / 256 = leNat bs := by omega
    have hbyte : UInt8.ofNat (b.toNat + 256 * leNat bs) = b := by
      apply UInt8.toNat.inj
      rw [UInt8.toNat_ofNat']
      omega
    rw [List.length_cons, leNat, leBytes, hdiv, hbyte, ih]

namespace Codec

variable {α β : Type}

def fixed (n : ℕ) : Codec { b : Bytes // b.length = n } where
  encode b := .ok b.1
  decode bs :=
    if h : n ≤ bs.length then .ok (⟨bs.take n, List.length_take_of_le h⟩, bs.drop n)
    else .error .unexpectedLength
  decode_encode a b rest h := by
    cases h
    have hle : n ≤ (a.1 ++ rest).length := by
      rw [List.length_append, a.2]
      exact Nat.le_add_right _ _
    simp [a.2]
  encode_decode bs a rest h := by
    split_ifs at h with hle
    cases h
    exact ⟨_, rfl, (List.take_append_drop n bs).symm⟩

/-- The values of a codec that stand for something else. -/
def emap (c : Codec α) (e : Error) (parse : α → Option β) (render : β → α)
    (h : ∀ a b, parse a = some b ↔ render b = a) : Codec β where
  encode b := c.encode (render b)
  decode bs :=
    match c.decode bs with
    | .ok (a, rest) =>
      match parse a with
      | some b => .ok (b, rest)
      | none => .error e
    | .error e' => .error e'
  decode_encode b bs rest hb := by
    rw [c.decode_encode _ _ rest hb]
    simp only [(h (render b) b).mpr rfl]
  encode_decode bs b rest hb := by
    cases hdecode : c.decode bs with
    | error e' => simp [hdecode] at hb
    | ok p =>
      obtain ⟨a, rest'⟩ := p
      simp only [hdecode] at hb
      cases hparse : parse a with
      | none => simp [hparse] at hb
      | some b' =>
        simp only [hparse, Except.ok.injEq, Prod.mk.injEq] at hb
        obtain ⟨rfl, rfl⟩ := hb
        rw [(h a b').mp hparse]
        exact c.encode_decode _ _ _ hdecode

/-- The same values under other names. -/
def iso (c : Codec α) (f : α → β) (g : β → α) (hfg : ∀ b, f (g b) = b) (hgf : ∀ a, g (f a) = a) :
    Codec β :=
  c.emap .invalidInput (fun a => some (f a)) g fun a b => by
    rw [Option.some.injEq]
    constructor
    · rintro rfl
      exact hgf a
    · rintro rfl
      exact hfg b

def unsigned (n : ℕ) : Codec (BitVec (8 * n)) :=
  (fixed n).iso (fun b => BitVec.ofNat (8 * n) (leNat b.1))
    (fun x => ⟨leBytes n x.toNat, length_leBytes _ _⟩)
    (fun x => by
      have hlt : x.toNat < 256 ^ n := by
        have hx := x.isLt
        rwa [pow_mul] at hx
      rw [leNat_leBytes hlt, BitVec.ofNat_toNat, BitVec.setWidth_eq])
    (fun b => by
      have hlt : leNat b.1 < 2 ^ (8 * n) := by
        have hb := leNat_lt b.1
        rwa [b.2, show 256 = 2 ^ 8 from rfl, ← pow_mul] at hb
      apply Subtype.ext
      have hbytes := leBytes_leNat b.1
      rw [b.2] at hbytes
      simp only [BitVec.toNat_ofNat, Nat.mod_eq_of_lt hlt, hbytes])

def u8 : Codec UInt8 :=
  (unsigned 1).iso UInt8.ofBitVec UInt8.toBitVec (fun _ => rfl) (fun _ => rfl)

def u32 : Codec UInt32 :=
  (unsigned 4).iso UInt32.ofBitVec UInt32.toBitVec (fun _ => rfl) (fun _ => rfl)

def u64 : Codec UInt64 :=
  (unsigned 8).iso UInt64.ofBitVec UInt64.toBitVec (fun _ => rfl) (fun _ => rfl)

def u128 : Codec (BitVec 128) := unsigned 16

def pair (c : Codec α) (d : Codec β) : Codec (α × β) where
  encode p :=
    match c.encode p.1, d.encode p.2 with
    | .ok b, .ok b' => .ok (b ++ b')
    | .error e, _ => .error e
    | _, .error e => .error e
  decode bs :=
    match c.decode bs with
    | .error e => .error e
    | .ok (x, rest) =>
      match d.decode rest with
      | .error e => .error e
      | .ok (y, rest) => .ok ((x, y), rest)
  decode_encode p b rest h := by
    cases hc : c.encode p.1 with
    | error e => simp [hc] at h
    | ok b1 =>
      cases hd : d.encode p.2 with
      | error e => simp [hc, hd] at h
      | ok b2 =>
        simp only [hc, hd, Except.ok.injEq] at h
        subst h
        rw [List.append_assoc, c.decode_encode _ _ _ hc]
        simp only [d.decode_encode _ _ _ hd]
  encode_decode bs p rest h := by
    cases hc : c.decode bs with
    | error e => simp [hc] at h
    | ok q =>
      obtain ⟨x, rest1⟩ := q
      simp only [hc] at h
      cases hd : d.decode rest1 with
      | error e => simp [hd] at h
      | ok q =>
        obtain ⟨y, rest2⟩ := q
        simp only [hd, Except.ok.injEq, Prod.mk.injEq] at h
        obtain ⟨rfl, rfl⟩ := h
        obtain ⟨b1, hb1, rfl⟩ := c.encode_decode _ _ _ hc
        obtain ⟨b2, hb2, rfl⟩ := d.encode_decode _ _ _ hd
        exact ⟨b1 ++ b2, by simp only [hb1, hb2], (List.append_assoc _ _ _).symm⟩

/-- A value that may be missing; the first byte says whether it is there. -/
def option (c : Codec α) : Codec (Option α) where
  encode
    | none => .ok [0]
    | some a =>
      match c.encode a with
      | .ok b => .ok (1 :: b)
      | .error e => .error e
  decode
    | [] => .error .unexpectedLength
    | tag :: bs =>
      if tag = 0 then .ok (none, bs)
      else if tag = 1 then
        match c.decode bs with
        | .ok (a, rest) => .ok (some a, rest)
        | .error e => .error e
      else .error (.invalidOption tag)
  decode_encode o b rest h := by
    cases o with
    | none =>
      cases h
      rfl
    | some a =>
      simp only at h
      cases hc : c.encode a with
      | error e => simp [hc] at h
      | ok b' =>
        simp only [hc, Except.ok.injEq] at h
        subst h
        simp [c.decode_encode _ _ rest hc]
  encode_decode bs o rest h := by
    cases bs with
    | nil => cases h
    | cons tag bs =>
      simp only at h
      split_ifs at h with h0 h1
      · cases h
        exact ⟨[0], rfl, by rw [h0]; rfl⟩
      · cases hc : c.decode bs with
        | error e => simp [hc] at h
        | ok q =>
          obtain ⟨a, rest'⟩ := q
          simp only [hc, Except.ok.injEq, Prod.mk.injEq] at h
          obtain ⟨rfl, rfl⟩ := h
          obtain ⟨b, hb, rfl⟩ := c.encode_decode _ _ _ hc
          exact ⟨1 :: b, by simp only [hb], by rw [h1]; rfl⟩

def encodeMany (c : Codec α) : List α → Except Error Bytes
  | [] => .ok []
  | a :: as =>
    match c.encode a, encodeMany c as with
    | .ok b, .ok b' => .ok (b ++ b')
    | .error e, _ => .error e
    | _, .error e => .error e

def decodeMany (c : Codec α) : ℕ → Bytes → Except Error (List α × Bytes)
  | 0, bs => .ok ([], bs)
  | n + 1, bs =>
    match c.decode bs with
    | .error e => .error e
    | .ok (a, rest) =>
      match decodeMany c n rest with
      | .error e => .error e
      | .ok (as, rest) => .ok (a :: as, rest)

theorem decodeMany_encodeMany (c : Codec α) {as : List α} {b : Bytes} (rest : Bytes)
    (h : c.encodeMany as = .ok b) : c.decodeMany as.length (b ++ rest) = .ok (as, rest) := by
  induction as generalizing b with
  | nil =>
    cases h
    rfl
  | cons a as ih =>
    rw [encodeMany] at h
    cases hc : c.encode a with
    | error e => simp [hc] at h
    | ok b1 =>
      cases hmany : c.encodeMany as with
      | error e => simp [hc, hmany] at h
      | ok b2 =>
        simp only [hc, hmany, Except.ok.injEq] at h
        subst h
        rw [List.length_cons, decodeMany, List.append_assoc, c.decode_encode _ _ _ hc]
        simp only [ih hmany]

theorem encodeMany_decodeMany (c : Codec α) {n : ℕ} {bs rest : Bytes} {as : List α}
    (h : c.decodeMany n bs = .ok (as, rest)) :
    as.length = n ∧ ∃ b, c.encodeMany as = .ok b ∧ bs = b ++ rest := by
  induction n generalizing bs as with
  | zero =>
    cases h
    exact ⟨rfl, [], rfl, rfl⟩
  | succ n ih =>
    rw [decodeMany] at h
    cases hc : c.decode bs with
    | error e => simp [hc] at h
    | ok q =>
      obtain ⟨a, rest1⟩ := q
      simp only [hc] at h
      cases hmany : c.decodeMany n rest1 with
      | error e => simp [hmany] at h
      | ok q =>
        obtain ⟨as', rest2⟩ := q
        simp only [hmany, Except.ok.injEq, Prod.mk.injEq] at h
        obtain ⟨rfl, rfl⟩ := h
        obtain ⟨b1, hb1, rfl⟩ := c.encode_decode _ _ _ hc
        obtain ⟨hlength, b2, hb2, rfl⟩ := ih hmany
        refine ⟨by rw [List.length_cons, hlength], b1 ++ b2, ?_, (List.append_assoc _ _ _).symm⟩
        simp only [encodeMany, hb1, hb2]

def list (c : Codec α) : Codec (List α) where
  encode as :=
    if as.length < 256 ^ 4 then
      match c.encodeMany as with
      | .ok b => .ok (leBytes 4 as.length ++ b)
      | .error e => .error e
    else .error .invalidInput
  decode bs :=
    match (fixed 4).decode bs with
    | .ok (n, rest) => c.decodeMany (leNat n.1) rest
    | .error e => .error e
  decode_encode as b rest h := by
    split_ifs at h with hlength
    cases hmany : c.encodeMany as with
    | error e => simp [hmany] at h
    | ok b' =>
      simp only [hmany, Except.ok.injEq] at h
      subst h
      have hn := (fixed 4).decode_encode ⟨leBytes 4 as.length, length_leBytes _ _⟩ _ (b' ++ rest)
        rfl
      rw [List.append_assoc, hn]
      simp only [leNat_leBytes hlength]
      exact c.decodeMany_encodeMany rest hmany
  encode_decode bs as rest h := by
    cases hn : (fixed 4).decode bs with
    | error e => simp [hn] at h
    | ok q =>
      obtain ⟨n, rest'⟩ := q
      simp only [hn] at h
      obtain ⟨b, hb, rfl⟩ := (fixed 4).encode_decode _ _ _ hn
      cases hb
      obtain ⟨hlength, b', hb', rfl⟩ := c.encodeMany_decodeMany h
      have hlt := leNat_lt n.1
      have hbytes := leBytes_leNat n.1
      rw [n.2] at hlt hbytes
      rw [hlength, if_pos hlt, hb']
      exact ⟨_, rfl, by rw [hbytes, List.append_assoc]⟩

/-- One of several kinds of values; the first byte says which. -/
def variants {n : ℕ} {F : Fin n → Type} (hn : n ≤ 256) (c : ∀ i, Codec (F i)) :
    Codec (Σ i, F i) where
  encode v :=
    match (c v.1).encode v.2 with
    | .ok b => .ok (UInt8.ofNat v.1 :: b)
    | .error e => .error e
  decode
    | [] => .error .unexpectedLength
    | tag :: bs =>
      if h : tag.toNat < n then
        ((c ⟨tag.toNat, h⟩).decode bs).map fun p => (⟨⟨tag.toNat, h⟩, p.1⟩, p.2)
      else .error (.unexpectedVariant tag)
  decode_encode v b rest h := by
    obtain ⟨i, a⟩ := v
    cases hc : (c i).encode a with
    | error e => simp [hc] at h
    | ok b' =>
      simp only [hc, Except.ok.injEq] at h
      subst h
      have htag : (UInt8.ofNat i).toNat = i := by
        rw [UInt8.toNat_ofNat', Nat.mod_eq_of_lt (lt_of_lt_of_le i.2 hn)]
      have hlt : (UInt8.ofNat i).toNat < n := by
        rw [htag]
        exact i.2
      have hi : (⟨(UInt8.ofNat i).toNat, hlt⟩ : Fin n) = i := Fin.ext htag
      simp only [List.cons_append, dif_pos hlt]
      have hread : ∀ j : Fin n, j = i → ((c j).decode (b' ++ rest)).map
          (fun p => (Sigma.mk j p.1, p.2)) = .ok (⟨i, a⟩, rest) := by
        intro j hj
        subst hj
        rw [(c j).decode_encode _ _ rest hc]
        rfl
      exact hread _ hi
  encode_decode bs v rest h := by
    cases bs with
    | nil => cases h
    | cons tag bs =>
      simp only at h
      split_ifs at h with hlt
      cases hc : (c ⟨tag.toNat, hlt⟩).decode bs with
      | error e => simp [hc, Except.map] at h
      | ok q =>
        obtain ⟨a, rest'⟩ := q
        simp only [hc, Except.map, Except.ok.injEq, Prod.mk.injEq] at h
        obtain ⟨rfl, rfl⟩ := h
        obtain ⟨b, hb, rfl⟩ := (c ⟨tag.toNat, hlt⟩).encode_decode _ _ _ hc
        exact ⟨tag :: b, by simp only [hb, UInt8.ofNat_toNat], rfl⟩

def tryFromSlice (c : Codec α) (bs : Bytes) : Except Error α :=
  match c.decode bs with
  | .ok (a, []) => .ok a
  | .ok (_, _ :: _) => .error .notAllBytesRead
  | .error e => .error e

variable {c : Codec α} {a : α} {b : Bytes}

/-- What is read from the whole of a byte string is what was written there. -/
theorem tryFromSlice_eq_ok : c.tryFromSlice b = .ok a ↔ c.encode a = .ok b := by
  unfold tryFromSlice
  constructor
  · intro h
    cases hc : c.decode b with
    | error e => simp [hc] at h
    | ok q =>
      obtain ⟨a', rest⟩ := q
      cases rest with
      | cons x rest => simp [hc] at h
      | nil =>
        simp only [hc, Except.ok.injEq] at h
        subst h
        obtain ⟨b', hb', rfl⟩ := c.encode_decode _ _ _ hc
        rwa [List.append_nil]
  · intro h
    have hc := c.decode_encode a b [] h
    rw [List.append_nil] at hc
    rw [hc]

/-- Two values with one encoding are the same. -/
theorem encode_injective {a' : α} (h : c.encode a = .ok b) (h' : c.encode a' = .ok b) : a = a' := by
  rw [← tryFromSlice_eq_ok] at h h'
  exact Except.ok.inj (h.symm.trans h')

def Encodable (c : Codec α) (a : α) : Prop := ∃ b, c.encode a = .ok b

@[simp] theorem encodable_fixed {n : ℕ} (b : { b : Bytes // b.length = n }) :
    (fixed n).Encodable b := ⟨b.1, rfl⟩

@[simp] theorem encodable_emap {e : Error} {parse : α → Option β} {render : β → α}
    {h : ∀ a b, parse a = some b ↔ render b = a} {b : β} :
    (c.emap e parse render h).Encodable b ↔ c.Encodable (render b) := Iff.rfl

@[simp] theorem encodable_iso {f : α → β} {g : β → α} {hfg : ∀ b, f (g b) = b}
    {hgf : ∀ a, g (f a) = a} {b : β} : (c.iso f g hfg hgf).Encodable b ↔ c.Encodable (g b) :=
  Iff.rfl

@[simp] theorem encodable_u8 (x : UInt8) : u8.Encodable x := ⟨_, rfl⟩

@[simp] theorem encodable_u32 (x : UInt32) : u32.Encodable x := ⟨_, rfl⟩

@[simp] theorem encodable_u64 (x : UInt64) : u64.Encodable x := ⟨_, rfl⟩

@[simp] theorem encodable_u128 (x : BitVec 128) : u128.Encodable x := ⟨_, rfl⟩

@[simp] theorem encodable_pair {d : Codec β} {p : α × β} :
    (c.pair d).Encodable p ↔ c.Encodable p.1 ∧ d.Encodable p.2 := by
  simp only [Encodable, pair]
  cases c.encode p.1 <;> cases d.encode p.2 <;> simp

@[simp] theorem encodable_option {o : Option α} :
    c.option.Encodable o ↔ ∀ a ∈ o, c.Encodable a := by
  cases o with
  | none => simp [Encodable, option]
  | some a =>
    simp only [Encodable, option, Option.mem_def, Option.some.injEq, forall_eq']
    cases c.encode a <;> simp

@[simp] theorem encodable_list {as : List α} :
    c.list.Encodable as ↔ as.length < 2 ^ 32 ∧ ∀ a ∈ as, c.Encodable a := by
  have hmany : (∃ b, c.encodeMany as = .ok b) ↔ ∀ a ∈ as, c.Encodable a := by
    induction as with
    | nil => simp [encodeMany]
    | cons a as ih =>
      rw [List.forall_mem_cons, ← ih, encodeMany, Encodable]
      cases c.encode a <;> cases c.encodeMany as <;> simp
  rw [← hmany, Encodable, list]
  by_cases hlength : as.length < 256 ^ 4
  · have hlength' : as.length < 2 ^ 32 := hlength
    simp only [if_pos hlength, hlength', true_and]
    cases c.encodeMany as <;> simp
  · simp only [if_neg hlength]
    exact iff_of_false (by simp) fun h => hlength h.1

def Sized (c : Codec α) (size : α → ℕ) : Prop := ∀ a b, c.encode a = .ok b → b.length = size a

theorem sized_fixed (n : ℕ) : (fixed n).Sized fun _ => n := by
  intro a b h
  cases h
  exact a.2

theorem Sized.emap {size : α → ℕ} (hc : c.Sized size) (e : Error) (parse : α → Option β)
    (render : β → α) (h : ∀ a b, parse a = some b ↔ render b = a) :
    (c.emap e parse render h).Sized fun b => size (render b) := fun b => hc (render b)

theorem Sized.iso {size : α → ℕ} (hc : c.Sized size) (f : α → β) (g : β → α)
    (hfg : ∀ b, f (g b) = b) (hgf : ∀ a, g (f a) = a) :
    (c.iso f g hfg hgf).Sized fun b => size (g b) := fun b => hc (g b)

theorem sized_u8 : u8.Sized fun _ => 1 := fun x => sized_fixed 1 ⟨leBytes 1 x.toNat, rfl⟩

theorem sized_u64 : u64.Sized fun _ => 8 := fun x => sized_fixed 8 ⟨leBytes 8 x.toNat, rfl⟩

theorem Sized.pair {d : Codec β} {size : α → ℕ} {size' : β → ℕ} (hc : c.Sized size)
    (hd : d.Sized size') : (c.pair d).Sized fun p => size p.1 + size' p.2 := by
  intro p b h
  simp only [Codec.pair] at h
  cases hcp : c.encode p.1 with
  | error e => simp [hcp] at h
  | ok b1 =>
    cases hdp : d.encode p.2 with
    | error e => simp [hcp, hdp] at h
    | ok b2 =>
      simp only [hcp, hdp, Except.ok.injEq] at h
      rw [← h, List.length_append, hc _ _ hcp, hd _ _ hdp]

theorem Sized.option {size : α → ℕ} (hc : c.Sized size) :
    c.option.Sized fun o => 1 + (o.map size).getD 0 := by
  intro o b h
  cases o with
  | none =>
    cases h
    rfl
  | some a =>
    simp only [Codec.option] at h
    cases hca : c.encode a with
    | error e => simp [hca] at h
    | ok b' =>
      simp only [hca, Except.ok.injEq] at h
      rw [← h, List.length_cons, hc _ _ hca, Nat.add_comm]
      rfl

theorem Sized.encodeMany {size : α → ℕ} (hc : c.Sized size) {as : List α} {b : Bytes}
    (h : c.encodeMany as = .ok b) : b.length = (as.map size).sum := by
  induction as generalizing b with
  | nil =>
    cases h
    rfl
  | cons a as ih =>
    rw [Codec.encodeMany] at h
    cases hca : c.encode a with
    | error e => simp [hca] at h
    | ok b1 =>
      cases hmany : c.encodeMany as with
      | error e => simp [hca, hmany] at h
      | ok b2 =>
        simp only [hca, hmany, Except.ok.injEq] at h
        rw [← h, List.length_append, hc _ _ hca, ih hmany, List.map_cons, List.sum_cons]

theorem Sized.list {size : α → ℕ} (hc : c.Sized size) :
    c.list.Sized fun as => 4 + (as.map size).sum := by
  intro as b h
  simp only [Codec.list] at h
  split_ifs at h
  cases hmany : c.encodeMany as with
  | error e => simp [hmany] at h
  | ok b' =>
    simp only [hmany, Except.ok.injEq] at h
    rw [← h, List.length_append, length_leBytes, hc.encodeMany hmany]

theorem Sized.variants {n : ℕ} {F : Fin n → Type} {c : ∀ i, Codec (F i)} {i : Fin n}
    {size : F i → ℕ} (hc : (c i).Sized size) (hn : n ≤ 256) {a : F i} {b : Bytes}
    (h : (Codec.variants hn c).encode ⟨i, a⟩ = .ok b) : b.length = 1 + size a := by
  simp only [Codec.variants] at h
  cases hca : (c i).encode a with
  | error e => simp [hca] at h
  | ok b' =>
    simp only [hca, Except.ok.injEq] at h
    rw [← h, List.length_cons, hc _ _ hca, Nat.add_comm]

end Codec
end Borsh
