import Stroemnet.HtlcSpends
import Mathlib.Algebra.BigOperators.Group.List.Basic

/-! # What a commitment is funded with

The outputs of the wallet are taken in the order of their listing until they cover the amount; only
then is the fee known. What is built pays the amount, the fee and nothing else, and nothing more is
taken when the fee is not covered. -/
namespace Stroemnet.Kaspa
open Script Htlc

/-- How the building of a transaction can end without one. -/
inductive FundingAbort
  | panicked
  | failed (e : KaspaError)
deriving DecidableEq

def orPanic {α : Type} : Option α → Except FundingAbort α
  | some a => .ok a
  | none => .error .panicked

def orFailed {α : Type} : Except KaspaError α → Except FundingAbort α
  | .ok a => .ok a
  | .error e => .error (.failed e)

def checkedIsMature (coinbaseMaturity currentDaa : UInt64) (u : RpcUtxo) :
    Except FundingAbort Bool :=
  if u.isCoinbase then do
    let due ← orPanic (checkedAdd u.blockDaaScore coinbaseMaturity)
    return due ≤ currentDaa
  else .ok true

def checkedSelectLoop (amount coinbaseMaturity currentDaa : UInt64) :
    List RpcUtxo → List RpcUtxo → UInt64 → Except FundingAbort (List RpcUtxo × UInt64)
  | [], selected, total => .ok (selected, total)
  | u :: utxos, selected, total => do
    let mature ← checkedIsMature coinbaseMaturity currentDaa u
    if mature then
      let total ← orPanic (checkedAdd total u.amount)
      if amount ≤ total then return (selected ++ [u], total)
      else checkedSelectLoop amount coinbaseMaturity currentDaa utxos (selected ++ [u]) total
    else checkedSelectLoop amount coinbaseMaturity currentDaa utxos selected total

/-- The transaction for an amount, with an end for every operation that panics on overflow. -/
def checkedFund (wallet : Wallet) (priorityFee : Transaction → Except KaspaError UInt64)
    (utxos : List RpcUtxo) (amount currentDaa : UInt64) (htlcSpk ourSpk : ScriptPublicKey) :
    Except FundingAbort Transaction := do
  let (selected, total) ← checkedSelectLoop amount wallet.coinbaseMaturity currentDaa utxos [] 0
  if total < amount then throw (.failed (.insufficientFunds amount total))
  let fee ← orFailed (priorityFee
    (buildFundingTx selected amount (saturatingSub total amount) htlcSpk ourSpk))
  let needed ← orPanic (checkedAdd amount fee)
  if total < needed then throw (.failed (.insufficientFunds needed total))
  let tx := buildFundingTx selected amount (saturatingSub (saturatingSub total amount) fee)
    htlcSpk ourSpk
  orFailed (signInputs wallet tx selected)

/-- Everything up to the submission, as before. -/
def checkedPrepareFunding (cfg : Config) (wallet : Wallet) (rpc : FundingRpc) (c : CommitmentV1) :
    Except FundingAbort (Network × Bytes × Transaction) := do
  let network ← orFailed (requireAnswer "get_server_info" rpc.serverNetwork)
  let ours ← orFailed (wallet.derive network)
  let redeem ← orFailed (htlcScriptFromCommitment cfg c)
  let utxos ← orFailed (rpc.utxos ours)
  if utxos = [] then throw (.failed .noUtxos)
  let currentDaa ← orFailed (requireAnswer "get_block_dag_info" rpc.virtualDaaScore)
  match parseUnsigned (2 ^ 64) c.amount.value with
  | none => throw (.failed (.other ("amount " ++ c.amount.value)))
  | some value =>
    let tx ← checkedFund wallet rpc.priorityFee utxos (UInt64.ofNat value) currentDaa
      ⟨0, payToScriptHashScript (cfg.blake2b redeem)⟩ (payToAddressScript ours)
    return (network, redeem, tx)

/-- An output that can be spent: that of a coinbase only once it is old enough. -/
def mature (coinbaseMaturity currentDaa : UInt64) (u : RpcUtxo) : Bool :=
  !u.isCoinbase || u.blockDaaScore.toNat + coinbaseMaturity.toNat ≤ currentDaa.toNat

def worth (utxos : List RpcUtxo) : ℕ := (utxos.map fun u => u.amount.toNat).sum

def covering (amount : ℕ) : List RpcUtxo → List RpcUtxo
  | [] => []
  | u :: utxos =>
    u :: if amount ≤ u.amount.toNat then [] else covering (amount - u.amount.toNat) utxos

/-- The scores of the coinbases that are looked at, up to the output that completes the amount,
are no larger than the maturity leaves room for. -/
def ScoresFit (coinbaseMaturity currentDaa : UInt64) : ℕ → List RpcUtxo → Prop
  | _, [] => True
  | amount, u :: utxos =>
    (u.isCoinbase → u.blockDaaScore.toNat + coinbaseMaturity.toNat < 2 ^ 64) ∧
      if mature coinbaseMaturity currentDaa u then
        u.amount.toNat < amount →
          ScoresFit coinbaseMaturity currentDaa (amount - u.amount.toNat) utxos
      else ScoresFit coinbaseMaturity currentDaa amount utxos

section Selection

variable {coinbaseMaturity currentDaa : UInt64}

theorem orPanic_eq_ok {α : Type} {o : Option α} {a : α} : orPanic o = .ok a ↔ o = some a := by
  cases o <;> simp [orPanic]

theorem orFailed_eq_ok {α : Type} {x : Except KaspaError α} {a : α} :
    orFailed x = .ok a ↔ x = .ok a := by
  cases x <;> simp [orFailed]

@[simp] theorem worth_cons (u : RpcUtxo) (utxos : List RpcUtxo) :
    worth (u :: utxos) = u.amount.toNat + worth utxos := List.sum_cons

private theorem worth_filter_le (p : RpcUtxo → Bool) (utxos : List RpcUtxo) :
    worth (utxos.filter p) ≤ worth utxos := by
  induction utxos with
  | nil => exact le_rfl
  | cons u utxos ih =>
    rw [worth_cons, List.filter_cons]
    split_ifs
    · rw [worth_cons]
      omega
    · omega

theorem covering_isPrefix (amount : ℕ) (utxos : List RpcUtxo) :
    covering amount utxos <+: utxos := by
  induction utxos generalizing amount with
  | nil => exact List.prefix_rfl
  | cons u utxos ih =>
    rw [covering, List.prefix_cons_inj]
    split_ifs
    · exact List.nil_prefix
    · exact ih _

private theorem worth_covering_le (amount : ℕ) (utxos : List RpcUtxo) :
    worth (covering amount utxos) ≤ worth utxos := by
  induction utxos generalizing amount with
  | nil => exact le_rfl
  | cons u utxos ih =>
    rw [covering, worth_cons, worth_cons]
    split_ifs
    · simp [worth]
    · have hle := ih (amount - u.amount.toNat)
      omega

private theorem le_worth_covering {amount : ℕ} {utxos : List RpcUtxo} :
    amount ≤ worth (covering amount utxos) ↔ amount ≤ worth utxos := by
  induction utxos generalizing amount with
  | nil => exact Iff.rfl
  | cons u utxos ih =>
    rw [covering, worth_cons, worth_cons]
    split_ifs with h
    · simp only [worth, List.map_nil, List.sum_nil]
      omega
    · have hrest := @ih (amount - u.amount.toNat)
      omega

private theorem checkedIsMature_eq (u : RpcUtxo) :
    checkedIsMature coinbaseMaturity currentDaa u =
      if u.isCoinbase → u.blockDaaScore.toNat + coinbaseMaturity.toNat < 2 ^ 64 then
        .ok (mature coinbaseMaturity currentDaa u)
      else .error .panicked := by
  cases hcoinbase : u.isCoinbase with
  | false => simp [checkedIsMature, mature, hcoinbase]
  | true =>
    simp only [checkedIsMature, mature, hcoinbase, if_true, Bool.not_true, Bool.false_or,
      forall_const, checkedAdd]
    split_ifs with hfits
    · have hsum : (u.blockDaaScore + coinbaseMaturity).toNat =
          u.blockDaaScore.toNat + coinbaseMaturity.toNat := by
        rw [UInt64.toNat_add, Nat.mod_eq_of_lt hfits]
      simp only [orPanic, bind, Except.bind, pure, Except.pure, UInt64.le_iff_toNat_le, hsum]
    · rfl

/-- The loop takes the first mature outputs that cover the rest of the amount. -/
theorem checkedSelectLoop_eq (coinbaseMaturity currentDaa amount : UInt64)
    (utxos selected : List RpcUtxo) (total : UInt64) (hworth : total.toNat + worth utxos < 2 ^ 64) :
    (ScoresFit coinbaseMaturity currentDaa (amount.toNat - total.toNat) utxos →
      checkedSelectLoop amount coinbaseMaturity currentDaa utxos selected total =
        .ok (selected ++ covering (amount.toNat - total.toNat)
            (utxos.filter (mature coinbaseMaturity currentDaa)),
          UInt64.ofNat (total.toNat + worth (covering (amount.toNat - total.toNat)
            (utxos.filter (mature coinbaseMaturity currentDaa)))))) ∧
    (¬ ScoresFit coinbaseMaturity currentDaa (amount.toNat - total.toNat) utxos →
      checkedSelectLoop amount coinbaseMaturity currentDaa utxos selected total =
        .error .panicked) := by
  induction utxos generalizing selected total with
  | nil =>
    refine ⟨fun _ => ?_, fun h => absurd trivial h⟩
    simp [checkedSelectLoop, covering, worth]
  | cons u utxos ih =>
    rw [worth_cons] at hworth
    rw [checkedSelectLoop, checkedIsMature_eq, ScoresFit]
    by_cases hfits : u.isCoinbase → u.blockDaaScore.toNat + coinbaseMaturity.toNat < 2 ^ 64
    · rw [if_pos hfits]
      cases hmature : mature coinbaseMaturity currentDaa u with
      | false =>
        rw [List.filter_cons_of_neg (by simp [hmature])]
        obtain ⟨hok, hpanic⟩ := ih selected total (by omega)
        exact ⟨fun h => hok h.2, fun h => hpanic fun hrest => h ⟨hfits, hrest⟩⟩
      | true =>
        have hsum : (total + u.amount).toNat = total.toNat + u.amount.toNat := by
          rw [UInt64.toNat_add, Nat.mod_eq_of_lt (by omega)]
        have hadd : checkedAdd total u.amount = some (total + u.amount) :=
          checkedAdd_eq_some.mpr hsum
        have hrest : amount.toNat - (total + u.amount).toNat =
            amount.toNat - total.toNat - u.amount.toNat := by omega
        obtain ⟨hok, hpanic⟩ := ih (selected ++ [u]) (total + u.amount) (by omega)
        rw [hrest, hsum] at hok
        rw [hrest] at hpanic
        rw [List.filter_cons_of_pos hmature, covering]
        simp only [bind, Except.bind, if_true, hadd, orPanic, UInt64.le_iff_toNat_le, hsum]
        by_cases henough : amount.toNat - total.toNat ≤ u.amount.toNat
        · have henough' : amount.toNat ≤ total.toNat + u.amount.toNat := by omega
          simp only [henough, henough', if_true]
          refine ⟨fun _ => ?_, fun h => absurd ⟨hfits, fun hlt => ?_⟩ h⟩
          · have hword : UInt64.ofNat (total.toNat + worth [u]) = total + u.amount := by
              rw [worth_cons, worth, List.map_nil, List.sum_nil, Nat.add_zero, ← hsum,
                UInt64.ofNat_toNat]
            rw [hword]
            rfl
          · exact absurd henough (Nat.not_le.mpr hlt)
        · have henough' : ¬ amount.toNat ≤ total.toNat + u.amount.toNat := by omega
          simp only [henough, henough', if_false]
          refine ⟨fun h => ?_, fun h => hpanic fun hscores => h ⟨hfits, fun _ => hscores⟩⟩
          rw [hok (h.2 (Nat.not_le.mp henough)), worth_cons, List.append_assoc,
            List.singleton_append, Nat.add_assoc]
    · rw [if_neg hfits]
      exact ⟨fun h => absurd h.1 hfits, fun _ => rfl⟩

end Selection

/-- The preliminary transaction that spends some outputs. -/
def preliminaryTx (selected : List RpcUtxo) (amount : UInt64) (htlcSpk ourSpk : ScriptPublicKey) :
    Transaction :=
  buildFundingTx selected amount (saturatingSub (UInt64.ofNat (worth selected)) amount) htlcSpk
    ourSpk

/-- All coins there will ever be. -/
def maxSompi : ℕ := 29000000000 * 100000000

/-- A transaction that funds a script with listed outputs that are mature, each at most once; the
script is paid the amount, and the node what is left of their worth after the fee. -/
structure Funds (wallet : Wallet) (priorityFee : Transaction → Except KaspaError UInt64)
    (utxos : List RpcUtxo) (amount currentDaa : UInt64) (htlcSpk ourSpk : ScriptPublicKey)
    (tx : Transaction) : Prop where
  spends : ∃ selected fee change, selected.Sublist utxos ∧
    (∀ u ∈ selected, mature wallet.coinbaseMaturity currentDaa u) ∧
    tx.inputs.map TransactionInput.previousOutpoint = selected.map RpcUtxo.outpoint ∧
    priorityFee (preliminaryTx selected amount htlcSpk ourSpk) = .ok fee ∧
    worth selected = amount.toNat + fee.toNat + UInt64.toNat change ∧
    tx.outputs = ⟨amount, htlcSpk⟩ :: if 0 < change then [⟨change, ourSpk⟩] else []
  once : (utxos.map RpcUtxo.outpoint).Nodup →
    (tx.inputs.map TransactionInput.previousOutpoint).Nodup

def taken (wallet : Wallet) (utxos : List RpcUtxo) (amount currentDaa : UInt64) : List RpcUtxo :=
  covering amount.toNat (utxos.filter (mature wallet.coinbaseMaturity currentDaa))

section Fund

variable {wallet : Wallet} {priorityFee : Transaction → Except KaspaError UInt64}
  {utxos : List RpcUtxo} {amount currentDaa : UInt64} {htlcSpk ourSpk : ScriptPublicKey}
  {tx : Transaction}

theorem taken_sublist : (taken wallet utxos amount currentDaa).Sublist utxos :=
  (covering_isPrefix _ _).sublist.trans List.filter_sublist

private theorem worth_taken_le : worth (taken wallet utxos amount currentDaa) ≤ worth utxos :=
  (worth_covering_le _ _).trans (worth_filter_le _ _)

theorem toNat_worth_taken (wallet : Wallet) (amount currentDaa : UInt64)
    (hsupply : worth utxos ≤ maxSompi) :
    (UInt64.ofNat (worth (taken wallet utxos amount currentDaa))).toNat =
      worth (taken wallet utxos amount currentDaa) := by
  have hle : worth (taken wallet utxos amount currentDaa) ≤ worth utxos := worth_taken_le
  rw [UInt64.toNat_ofNat_of_lt']
  simp only [maxSompi, UInt64.size] at *
  omega

theorem select_eq_ok (hsupply : worth utxos ≤ maxSompi)
    (hscores : ScoresFit wallet.coinbaseMaturity currentDaa amount.toNat utxos) :
    checkedSelectLoop amount wallet.coinbaseMaturity currentDaa utxos [] 0 =
      .ok (taken wallet utxos amount currentDaa,
        UInt64.ofNat (worth (taken wallet utxos amount currentDaa))) := by
  have hworth : (0 : UInt64).toNat + worth utxos < 2 ^ 64 := by
    simp only [maxSompi, UInt64.toNat_zero] at *
    omega
  have hloop := (checkedSelectLoop_eq wallet.coinbaseMaturity currentDaa amount utxos [] 0
    hworth).1
  simp only [UInt64.toNat_zero, Nat.sub_zero, Nat.zero_add, List.nil_append] at hloop
  exact hloop hscores

private theorem select_panicked (hsupply : worth utxos ≤ maxSompi)
    (hscores : ¬ ScoresFit wallet.coinbaseMaturity currentDaa amount.toNat utxos) :
    checkedSelectLoop amount wallet.coinbaseMaturity currentDaa utxos [] 0 =
      .error .panicked := by
  have hworth : (0 : UInt64).toNat + worth utxos < 2 ^ 64 := by
    simp only [maxSompi, UInt64.toNat_zero] at *
    omega
  have hloop := (checkedSelectLoop_eq wallet.coinbaseMaturity currentDaa amount utxos [] 0
    hworth).2
  simp only [UInt64.toNat_zero, Nat.sub_zero] at hloop
  exact hloop hscores

private theorem length_of_mapM_eq_ok {α β ε : Type} {f : α → Except ε β} {xs : List α} {ys : List β}
    (h : xs.mapM f = .ok ys) : ys.length = xs.length := by
  induction xs generalizing ys with
  | nil =>
    cases h
    rfl
  | cons x xs ih =>
    rw [List.mapM_cons] at h
    obtain ⟨y, -, h⟩ := bind_eq_ok.mp h
    obtain ⟨ys', hys, h⟩ := bind_eq_ok.mp h
    cases h
    rw [List.length_cons, List.length_cons, ih hys]

private theorem exists_of_mapM_eq_error {α β ε : Type} {f : α → Except ε β} {xs : List α} {e : ε}
    (h : xs.mapM f = .error e) : ∃ x ∈ xs, f x = .error e := by
  induction xs with
  | nil => cases h
  | cons x xs ih =>
    rw [List.mapM_cons] at h
    rcases bind_eq_error.mp h with h | ⟨y, -, h⟩
    · exact ⟨x, List.mem_cons_self, h⟩
    · rcases bind_eq_error.mp h with h | ⟨ys, -, h⟩
      · obtain ⟨x', hx', h⟩ := ih h
        exact ⟨x', List.mem_cons_of_mem _ hx', h⟩
      · cases h

private theorem outpoints_signInputs {selected : List RpcUtxo} {change : UInt64}
    (h : signInputs wallet (buildFundingTx selected amount change htlcSpk ourSpk) selected =
      .ok tx) :
    tx.inputs.map TransactionInput.previousOutpoint = selected.map RpcUtxo.outpoint ∧
      tx.outputs = (buildFundingTx selected amount change htlcSpk ourSpk).outputs := by
  unfold signInputs at h
  obtain ⟨scripts, hscripts, h⟩ := bind_eq_ok.mp h
  cases h
  have hlen : scripts.length = selected.length := by
    rw [length_of_mapM_eq_ok hscripts, List.length_range]
  refine ⟨List.ext_getElem ?_ fun i hi hi' => ?_, rfl⟩
  · simp [buildFundingTx, toInputs, hlen]
  · simp [buildFundingTx, toInputs]

theorem toNat_saturatingSub (a b : UInt64) : (saturatingSub a b).toNat = a.toNat - b.toNat := by
  have hlt := a.toNat_lt
  rw [saturatingSub, UInt64.toNat_ofNat_of_lt']
  simp only [UInt64.size]
  omega

private theorem funds_of_signed {fee : UInt64} (hsupply : worth utxos ≤ maxSompi)
    (hfee : priorityFee (preliminaryTx (taken wallet utxos amount currentDaa) amount htlcSpk
      ourSpk) = .ok fee)
    (henough : amount.toNat + fee.toNat ≤ worth (taken wallet utxos amount currentDaa))
    (hsigned : signInputs wallet (buildFundingTx (taken wallet utxos amount currentDaa) amount
      (saturatingSub (saturatingSub (UInt64.ofNat (worth (taken wallet utxos amount currentDaa)))
        amount) fee) htlcSpk ourSpk) (taken wallet utxos amount currentDaa) = .ok tx) :
    Funds wallet priorityFee utxos amount currentDaa htlcSpk ourSpk tx := by
  obtain ⟨hinputs, houtputs⟩ := outpoints_signInputs hsigned
  refine ⟨⟨_, fee, _, taken_sublist, fun u hu => ?_, hinputs, hfee, ?_, houtputs⟩,
    fun hnodup => ?_⟩
  · exact (List.mem_filter.mp ((covering_isPrefix _ _).subset hu)).2
  · rw [toNat_saturatingSub, toNat_saturatingSub,
      toNat_worth_taken wallet amount currentDaa hsupply]
    omega
  · rw [hinputs]
    exact hnodup.sublist (taken_sublist.map _)

end Fund

def matureUtxos (wallet : Wallet) (utxos : List RpcUtxo) (currentDaa : UInt64) : List RpcUtxo :=
  utxos.filter (mature wallet.coinbaseMaturity currentDaa)

/-- What is built funds the script, nothing overflows, and funds are found wanting only when all
mature outputs together do not cover the amount and the fee for spending them. -/
structure SoundAndComplete (wallet : Wallet)
    (priorityFee : Transaction → Except KaspaError UInt64) (utxos : List RpcUtxo)
    (amount currentDaa : UInt64) (htlcSpk ourSpk : ScriptPublicKey)
    (outcome : Except FundingAbort (Network × Bytes × Transaction)) : Prop where
  sound : ∀ network redeem tx, outcome = .ok (network, redeem, tx) →
    Funds wallet priorityFee utxos amount currentDaa htlcSpk ourSpk tx
  noOverflow : outcome ≠ .error .panicked
  complete : ∀ needed available, outcome = .error (.failed (.insufficientFunds needed available)) →
    ∀ fee, priorityFee
      (preliminaryTx (matureUtxos wallet utxos currentDaa) amount htlcSpk ourSpk) = .ok fee →
    worth (matureUtxos wallet utxos currentDaa) < amount.toNat + fee.toNat

/-- The sums fit in 64 bits, and the first mature outputs that cover the amount also cover the fee
for spending them, unless all mature outputs do not. -/
structure FeeCovered (wallet : Wallet) (priorityFee : Transaction → Except KaspaError UInt64)
    (utxos : List RpcUtxo) (amount currentDaa : UInt64) (htlcSpk ourSpk : ScriptPublicKey) :
    Prop where
  scores : ScoresFit wallet.coinbaseMaturity currentDaa amount.toNat utxos
  needed : amount.toNat ≤ worth (matureUtxos wallet utxos currentDaa) → ∀ fee,
    priorityFee (preliminaryTx (taken wallet utxos amount currentDaa) amount htlcSpk ourSpk) =
      .ok fee → amount.toNat + fee.toNat < 2 ^ 64
  covered : amount.toNat ≤ worth (matureUtxos wallet utxos currentDaa) → ∀ fee feeOfAll,
    priorityFee (preliminaryTx (taken wallet utxos amount currentDaa) amount htlcSpk ourSpk) =
      .ok fee →
    priorityFee (preliminaryTx (matureUtxos wallet utxos currentDaa) amount htlcSpk ourSpk) =
      .ok feeOfAll →
    worth (taken wallet utxos amount currentDaa) < amount.toNat + fee.toNat →
    worth (matureUtxos wallet utxos currentDaa) < amount.toNat + feeOfAll.toNat

/-- Neither the fee estimate nor a signature fails for want of funds. -/
structure FailsOtherwise (wallet : Wallet)
    (priorityFee : Transaction → Except KaspaError UInt64) : Prop where
  fee : ∀ tx needed available, priorityFee tx ≠ .error (.insufficientFunds needed available)
  sign : ∀ tx selected i needed available,
    wallet.signInput tx selected i ≠ .error (.insufficientFunds needed available)

section Outcome

variable {wallet : Wallet} {priorityFee : Transaction → Except KaspaError UInt64}
  {utxos : List RpcUtxo} {amount currentDaa : UInt64} {htlcSpk ourSpk : ScriptPublicKey}

theorem le_worth_taken : amount.toNat ≤ worth (taken wallet utxos amount currentDaa) ↔
    amount.toNat ≤ worth (matureUtxos wallet utxos currentDaa) := le_worth_covering

private theorem checkedFund_short (hsupply : worth utxos ≤ maxSompi)
    (hscores : ScoresFit wallet.coinbaseMaturity currentDaa amount.toNat utxos)
    (hshort : ¬ amount.toNat ≤ worth (matureUtxos wallet utxos currentDaa)) :
    checkedFund wallet priorityFee utxos amount currentDaa htlcSpk ourSpk =
      .error (.failed (.insufficientFunds amount
        (UInt64.ofNat (worth (taken wallet utxos amount currentDaa))))) := by
  have hlt : UInt64.ofNat (worth (taken wallet utxos amount currentDaa)) < amount := by
    rw [← le_worth_taken] at hshort
    rw [UInt64.lt_iff_toNat_lt, toNat_worth_taken wallet amount currentDaa hsupply]
    omega
  simp [checkedFund, select_eq_ok hsupply hscores, bind, Except.bind, hlt, throw, throwThe,
    MonadExceptOf.throw]

theorem checkedFund_enough (hsupply : worth utxos ≤ maxSompi)
    (hscores : ScoresFit wallet.coinbaseMaturity currentDaa amount.toNat utxos)
    (henough : amount.toNat ≤ worth (matureUtxos wallet utxos currentDaa)) :
    checkedFund wallet priorityFee utxos amount currentDaa htlcSpk ourSpk =
      match priorityFee (preliminaryTx (taken wallet utxos amount currentDaa) amount htlcSpk
        ourSpk) with
      | .error e => .error (.failed e)
      | .ok fee =>
        if amount.toNat + fee.toNat < 2 ^ 64 then
          if worth (taken wallet utxos amount currentDaa) < amount.toNat + fee.toNat then
            .error (.failed (.insufficientFunds (amount + fee)
              (UInt64.ofNat (worth (taken wallet utxos amount currentDaa)))))
          else orFailed (signInputs wallet (buildFundingTx (taken wallet utxos amount currentDaa)
            amount (saturatingSub (saturatingSub (UInt64.ofNat (worth (taken wallet utxos amount
              currentDaa))) amount) fee) htlcSpk ourSpk) (taken wallet utxos amount currentDaa))
        else .error .panicked := by
  have hword := toNat_worth_taken wallet amount currentDaa hsupply
  have hnot : ¬ UInt64.ofNat (worth (taken wallet utxos amount currentDaa)) < amount := by
    rw [← le_worth_taken] at henough
    rw [UInt64.lt_iff_toNat_lt, hword]
    omega
  simp only [checkedFund, select_eq_ok hsupply hscores, bind, Except.bind, if_neg hnot]
  rw [← preliminaryTx]
  cases hfee : priorityFee (preliminaryTx (taken wallet utxos amount currentDaa) amount htlcSpk
      ourSpk) with
  | error e => rfl
  | ok fee =>
    simp only [orFailed, checkedAdd]
    by_cases hfits : amount.toNat + fee.toNat < 2 ^ 64
    · have hsum : (amount + fee).toNat = amount.toNat + fee.toNat := by
        rw [UInt64.toNat_add, Nat.mod_eq_of_lt hfits]
      simp only [if_pos hfits, orPanic, UInt64.lt_iff_toNat_lt, hword, hsum]
      split_ifs <;> rfl
    · simp only [if_neg hfits, orPanic]

private theorem signInputs_ne_insufficientFunds (hother : FailsOtherwise wallet priorityFee)
    {tx : Transaction} {selected : List RpcUtxo} {needed available : UInt64} :
    signInputs wallet tx selected ≠ .error (.insufficientFunds needed available) := by
  intro h
  unfold signInputs at h
  rcases bind_eq_error.mp h with h | ⟨scripts, -, h⟩
  · obtain ⟨i, -, hi⟩ := exists_of_mapM_eq_error h
    exact hother.sign _ _ _ _ _ hi
  · cases h

/-- The fee estimate fails: there is nothing to cover. -/
theorem feeCovered_of_error {e : KaspaError}
    (hscores : ScoresFit wallet.coinbaseMaturity currentDaa amount.toNat utxos)
    (hfee : priorityFee (preliminaryTx (taken wallet utxos amount currentDaa) amount htlcSpk
      ourSpk) = .error e) :
    FeeCovered wallet priorityFee utxos amount currentDaa htlcSpk ourSpk := by
  refine ⟨hscores, fun _ fee h => ?_, fun _ fee _ h => ?_⟩ <;>
  · rw [hfee] at h
    cases h

/-- What is left to cover when there is enough for the amount and the fee is known. -/
theorem feeCovered_iff {fee : UInt64}
    (hscores : ScoresFit wallet.coinbaseMaturity currentDaa amount.toNat utxos)
    (henough : amount.toNat ≤ worth (matureUtxos wallet utxos currentDaa))
    (hfee : priorityFee (preliminaryTx (taken wallet utxos amount currentDaa) amount htlcSpk
      ourSpk) = .ok fee) :
    FeeCovered wallet priorityFee utxos amount currentDaa htlcSpk ourSpk ↔
      amount.toNat + fee.toNat < 2 ^ 64 ∧ ∀ feeOfAll,
        priorityFee (preliminaryTx (matureUtxos wallet utxos currentDaa) amount htlcSpk ourSpk) =
          .ok feeOfAll →
        worth (taken wallet utxos amount currentDaa) < amount.toNat + fee.toNat →
        worth (matureUtxos wallet utxos currentDaa) < amount.toNat + feeOfAll.toNat := by
  constructor
  · intro h
    exact ⟨h.needed henough fee hfee, fun feeOfAll => h.covered henough fee feeOfAll hfee⟩
  · rintro ⟨hfits, hcovered⟩
    refine ⟨hscores, fun _ fee' hfee' => ?_, fun _ fee' feeOfAll hfee' hall hshort => ?_⟩
    · obtain rfl : fee = fee' := Except.ok.inj (hfee.symm.trans hfee')
      exact hfits
    · obtain rfl : fee = fee' := Except.ok.inj (hfee.symm.trans hfee')
      exact hcovered feeOfAll hall hshort

/-- The fee is covered and the inputs are signed, or cannot be. -/
theorem soundAndComplete_signed {fee : UInt64} (hsupply : worth utxos ≤ maxSompi)
    (hother : FailsOtherwise wallet priorityFee) (network : Network) (redeem : Bytes)
    (hfee : priorityFee (preliminaryTx (taken wallet utxos amount currentDaa) amount htlcSpk
      ourSpk) = .ok fee)
    (henough : amount.toNat + fee.toNat ≤ worth (taken wallet utxos amount currentDaa)) :
    SoundAndComplete wallet priorityFee utxos amount currentDaa htlcSpk ourSpk
      ((orFailed (signInputs wallet (buildFundingTx (taken wallet utxos amount currentDaa) amount
        (saturatingSub (saturatingSub (UInt64.ofNat (worth (taken wallet utxos amount currentDaa)))
          amount) fee) htlcSpk ourSpk) (taken wallet utxos amount currentDaa))).map
        fun tx => (network, redeem, tx)) := by
  cases hsigned : signInputs wallet (buildFundingTx (taken wallet utxos amount currentDaa) amount
      (saturatingSub (saturatingSub (UInt64.ofNat (worth (taken wallet utxos amount currentDaa)))
        amount) fee) htlcSpk ourSpk) (taken wallet utxos amount currentDaa) with
  | error e =>
    refine ⟨nofun, nofun, fun needed available h => ?_⟩
    cases h
    exact absurd hsigned (signInputs_ne_insufficientFunds hother)
  | ok tx =>
    refine ⟨fun network' redeem' tx' h => ?_, nofun, nofun⟩
    cases h
    exact funds_of_signed hsupply hfee henough hsigned

/-- The building is sound and complete exactly when the fee is covered. -/
theorem soundAndComplete_checkedFund (hsupply : worth utxos ≤ maxSompi)
    (hother : FailsOtherwise wallet priorityFee) (network : Network) (redeem : Bytes) :
    SoundAndComplete wallet priorityFee utxos amount currentDaa htlcSpk ourSpk
        ((checkedFund wallet priorityFee utxos amount currentDaa htlcSpk ourSpk).map
          fun tx => (network, redeem, tx)) ↔
      FeeCovered wallet priorityFee utxos amount currentDaa htlcSpk ourSpk := by
  by_cases hscores : ScoresFit wallet.coinbaseMaturity currentDaa amount.toNat utxos
  · by_cases henough : amount.toNat ≤ worth (matureUtxos wallet utxos currentDaa)
    · rw [checkedFund_enough hsupply hscores henough]
      cases hfee : priorityFee (preliminaryTx (taken wallet utxos amount currentDaa) amount htlcSpk
          ourSpk) with
      | error e =>
        refine iff_of_true ⟨nofun, nofun, fun needed available h => ?_⟩
          (feeCovered_of_error hscores hfee)
        cases h
        exact absurd hfee (hother.fee _ _ _)
      | ok fee =>
        rw [feeCovered_iff hscores henough hfee]
        by_cases hfits : amount.toNat + fee.toNat < 2 ^ 64
        · simp only [if_pos hfits]
          by_cases hshort : worth (taken wallet utxos amount currentDaa) < amount.toNat + fee.toNat
          · rw [if_pos hshort]
            constructor
            · exact fun h => ⟨hfits, fun feeOfAll hall _ => h.complete _ _ rfl feeOfAll hall⟩
            · exact fun h => ⟨nofun, nofun, fun _ _ _ feeOfAll hall => h.2 feeOfAll hall hshort⟩
          · rw [if_neg hshort]
            exact iff_of_true
              (soundAndComplete_signed hsupply hother network redeem hfee (Nat.not_lt.mp hshort))
              ⟨hfits, fun _ _ h => absurd h hshort⟩
        · simp only [if_neg hfits]
          exact iff_of_false (fun h => h.noOverflow rfl) fun h => hfits h.1
    · rw [checkedFund_short hsupply hscores henough]
      refine iff_of_true ⟨nofun, nofun, fun _ _ _ fee _ => ?_⟩
        ⟨hscores, fun h => absurd h henough, fun h => absurd h henough⟩
      omega
  · have hpanicked : checkedFund wallet priorityFee utxos amount currentDaa htlcSpk ourSpk =
        .error .panicked := by
      simp only [checkedFund, select_panicked hsupply hscores, bind, Except.bind]
    rw [hpanicked]
    exact iff_of_false (fun h => h.noOverflow rfl) fun h => hscores h.scores

end Outcome

/-- The requests before the funding are answered. -/
structure Listed (cfg : Config) (wallet : Wallet) (rpc : FundingRpc) (c : CommitmentV1)
    (network : Network) (ours : Address) (redeem : Bytes) (utxos : List RpcUtxo)
    (currentDaa amount : UInt64) : Prop where
  serverNetwork : rpc.serverNetwork = some network
  derived : wallet.derive network = .ok ours
  script : htlcScriptFromCommitment cfg c = .ok redeem
  listing : rpc.utxos ours = .ok utxos
  virtualDaaScore : rpc.virtualDaaScore = some currentDaa
  parsed : parseUnsigned (2 ^ 64) c.amount.value = some amount.toNat

/-- For every listing of outputs that are worth no more than all coins, every amount, maturity and
score: the funding of a commitment is sound and complete exactly when the sums fit and the outputs
that cover the amount cover the fee. -/
theorem funding_sound_and_complete_iff (cfg : Config) (wallet : Wallet) (rpc : FundingRpc)
    (c : CommitmentV1) (network : Network) (ours : Address) (redeem : Bytes)
    (utxos : List RpcUtxo) (currentDaa amount : UInt64)
    (hlisted : Listed cfg wallet rpc c network ours redeem utxos currentDaa amount)
    (hsupply : worth utxos ≤ maxSompi) (hother : FailsOtherwise wallet rpc.priorityFee) :
    SoundAndComplete wallet rpc.priorityFee utxos amount currentDaa
        ⟨0, payToScriptHashScript (cfg.blake2b redeem)⟩ (payToAddressScript ours)
        (checkedPrepareFunding cfg wallet rpc c) ↔
      FeeCovered wallet rpc.priorityFee utxos amount currentDaa
        ⟨0, payToScriptHashScript (cfg.blake2b redeem)⟩ (payToAddressScript ours) := by
  by_cases hempty : utxos = []
  · subst hempty
    have hnone : checkedPrepareFunding cfg wallet rpc c = .error (.failed .noUtxos) := by
      simp [checkedPrepareFunding, hlisted.serverNetwork, requireAnswer, okOr, orFailed,
        hlisted.derived, hlisted.script, hlisted.listing, bind, Except.bind, throw, throwThe, MonadExceptOf.throw]
    rw [hnone]
    refine iff_of_true ⟨?_, ?_, ?_⟩ ⟨trivial, fun hle fee _ => ?_,
      fun _ fee feeOfAll hfee hall h => ?_⟩
    · intro network' redeem' tx hfunded
      cases hfunded
    · intro hpanicked
      cases hpanicked
    · intro needed available hshort
      cases hshort
    · have hlt := fee.toNat_lt
      simp only [matureUtxos, worth, List.filter_nil, List.map_nil, List.sum_nil] at hle
      omega
    · obtain rfl : fee = feeOfAll := Except.ok.inj (hfee.symm.trans hall)
      exact h
  · have hprepare : checkedPrepareFunding cfg wallet rpc c =
        (checkedFund wallet rpc.priorityFee utxos amount currentDaa
          ⟨0, payToScriptHashScript (cfg.blake2b redeem)⟩ (payToAddressScript ours)).map
          fun tx => (network, redeem, tx) := by
      simp only [checkedPrepareFunding, hlisted.serverNetwork, requireAnswer, okOr, orFailed,
        hlisted.derived, hlisted.script, hlisted.listing, hlisted.virtualDaaScore, hlisted.parsed,
        bind, Except.bind, if_neg hempty, UInt64.ofNat_toNat]
      cases checkedFund wallet rpc.priorityFee utxos amount currentDaa
          ⟨0, payToScriptHashScript (cfg.blake2b redeem)⟩ (payToAddressScript ours) <;> rfl
    rw [hprepare]
    exact soundAndComplete_checkedFund hsupply hother network redeem

section Unchecked

variable {amount coinbaseMaturity currentDaa : UInt64}

theorem add_eq_of_checkedAdd {a b c : UInt64} (h : checkedAdd a b = some c) : a + b = c := by
  rw [checkedAdd] at h
  split_ifs at h
  exact Option.some.inj h

private theorem utxoIsMature_of_checked {u : RpcUtxo} {b : Bool}
    (h : checkedIsMature coinbaseMaturity currentDaa u = .ok b) :
    utxoIsMature coinbaseMaturity currentDaa u = b := by
  cases hcoinbase : u.isCoinbase with
  | false =>
    simp only [checkedIsMature, hcoinbase] at h
    cases h
    simp [utxoIsMature, hcoinbase]
  | true =>
    simp only [checkedIsMature, hcoinbase, if_true] at h
    obtain ⟨due, hdue, h⟩ := bind_eq_ok.mp h
    cases h
    have hsum : u.blockDaaScore + coinbaseMaturity = due :=
      add_eq_of_checkedAdd (orPanic_eq_ok.mp hdue)
    simp [utxoIsMature, hcoinbase, hsum]

private theorem selectLoop_of_checked {utxos selected : List RpcUtxo} {total : UInt64}
    {r : List RpcUtxo × UInt64}
    (h : checkedSelectLoop amount coinbaseMaturity currentDaa utxos selected total = .ok r) :
    selectLoop amount coinbaseMaturity currentDaa utxos selected total = r := by
  induction utxos generalizing selected total with
  | nil => exact Except.ok.inj h
  | cons u utxos ih =>
    rw [checkedSelectLoop] at h
    obtain ⟨b, hb, h⟩ := bind_eq_ok.mp h
    rw [selectLoop, utxoIsMature_of_checked hb]
    cases b with
    | false => exact ih h
    | true =>
      simp only [if_true] at h
      obtain ⟨total', htotal, h⟩ := bind_eq_ok.mp h
      rw [add_eq_of_checkedAdd (orPanic_eq_ok.mp htotal)]
      simp only [not_true, if_false]
      split_ifs at h ⊢ with henough
      · exact Except.ok.inj h
      · exact ih h

/-- What is built with the checks is what is built without them. -/
theorem prepareFunding_of_checked {cfg : Config} {wallet : Wallet} {rpc : FundingRpc}
    {c : CommitmentV1} {r : Network × Bytes × Transaction}
    (h : checkedPrepareFunding cfg wallet rpc c = .ok r) :
    prepareFunding cfg wallet rpc c = .ok r := by
  rw [checkedPrepareFunding] at h
  obtain ⟨network, hnetwork, h⟩ := bind_eq_ok.mp h
  obtain ⟨ours, hours, h⟩ := bind_eq_ok.mp h
  obtain ⟨redeem, hredeem, h⟩ := bind_eq_ok.mp h
  obtain ⟨utxos, hutxos, h⟩ := bind_eq_ok.mp h
  rw [orFailed_eq_ok] at hnetwork hours hredeem hutxos
  obtain ⟨hsome, h⟩ := guard_eq_ok.mp h
  obtain ⟨currentDaa, hdaa, h⟩ := bind_eq_ok.mp h
  rw [orFailed_eq_ok] at hdaa
  simp only [prepareFunding, hnetwork, hours, hredeem, hutxos, hdaa, bind, Except.bind,
    if_neg hsome]
  cases hvalue : parseUnsigned (2 ^ 64) c.amount.value with
  | none =>
    rw [hvalue] at h
    cases h
  | some value =>
    rw [hvalue] at h
    obtain ⟨tx, htx, h⟩ := bind_eq_ok.mp h
    cases h
    rw [checkedFund] at htx
    obtain ⟨⟨selected, total⟩, hselected, htx⟩ := bind_eq_ok.mp htx
    obtain ⟨henough, htx⟩ := guard_eq_ok.mp htx
    obtain ⟨fee, hfee, htx⟩ := bind_eq_ok.mp htx
    obtain ⟨needed, hneeded, htx⟩ := bind_eq_ok.mp htx
    obtain ⟨hcovered, hsigned⟩ := guard_eq_ok.mp htx
    rw [orFailed_eq_ok] at hfee hsigned
    rw [← add_eq_of_checkedAdd (orPanic_eq_ok.mp hneeded)] at hcovered
    simp only [selectFundingUtxos, selectLoop_of_checked hselected, if_neg henough, hfee,
      if_neg hcovered, hsigned]
    rfl

end Unchecked

def walletUtxos (amounts : List UInt64) : List RpcUtxo :=
  amounts.mapIdx fun i amount =>
    ⟨⟨.filled 40, i⟩, amount, payToAddressScript (pubKeyAddress 1), 5, false⟩

/-- A server that lists them and asks a fixed fee. -/
def walletRpc (amounts : List UInt64) : FundingRpc :=
  { lostAnswer with
    utxos := fun _ => .ok (walletUtxos amounts) }

/-- An output that covers the amount to the coin is in front of one that would pay for everything:
the funding fails. -/
theorem exact_output_first :
    ¬ SoundAndComplete sampleWallet (walletRpc [1000, 1000000000]).priorityFee
      (walletUtxos [1000, 1000000000]) 1000 1000
      ⟨0, payToScriptHashScript (ownNode.kaspa.blake2b ownRedeem)⟩
      (payToAddressScript (pubKeyAddress 1))
      (checkedPrepareFunding ownNode.kaspa sampleWallet (walletRpc [1000, 1000000000])
        ownCommitment) := by
  intro h
  have hfailed : checkedPrepareFunding ownNode.kaspa sampleWallet (walletRpc [1000, 1000000000])
      ownCommitment = .error (.failed (.insufficientFunds 3000 1000)) := by
    decide +kernel
  have hworth : worth (matureUtxos sampleWallet (walletUtxos [1000, 1000000000]) 1000) =
      1000001000 := by
    decide +kernel
  have hshort := h.complete 3000 1000 hfailed 2000 rfl
  rw [hworth] at hshort
  exact absurd hshort (by decide)

/-- With one large output the funding goes through. -/
theorem large_output_funds :
    SoundAndComplete sampleWallet (walletRpc [1000000000]).priorityFee
      (walletUtxos [1000000000]) 1000 1000
      ⟨0, payToScriptHashScript (ownNode.kaspa.blake2b ownRedeem)⟩
      (payToAddressScript (pubKeyAddress 1))
      (checkedPrepareFunding ownNode.kaspa sampleWallet (walletRpc [1000000000])
        ownCommitment) := by
  have hlisted : Listed ownNode.kaspa sampleWallet (walletRpc [1000000000]) ownCommitment .testnet
      (pubKeyAddress 1) ownRedeem (walletUtxos [1000000000]) 1000 1000 :=
    ⟨rfl, rfl, by decide +kernel, rfl, rfl, by decide +kernel⟩
  have hsupply : worth (walletUtxos [1000000000]) ≤ maxSompi := by decide +kernel
  have hother : FailsOtherwise sampleWallet (walletRpc [1000000000]).priorityFee := by
    constructor
    · intro tx needed available hfailed
      cases hfailed
    · intro tx selected i needed available hfailed
      cases hfailed
  refine (funding_sound_and_complete_iff _ _ _ _ .testnet _ _ _ 1000 1000 hlisted hsupply
    hother).mpr ⟨?_, ?_, ?_⟩
  · constructor
    · intro hcoinbase
      cases hcoinbase
    · intro hlt
      exact absurd hlt (by decide)
  · intro _ fee hfee
    cases hfee
    decide
  · intro _ fee feeOfAll hfee _ hshort
    cases hfee
    have hworth : worth (taken sampleWallet (walletUtxos [1000000000]) 1000 1000) =
        1000000000 := by
      decide +kernel
    rw [hworth] at hshort
    exact absurd hshort (by decide)

end Stroemnet.Kaspa
