import Mathlib.Data.List.TakeWhile
import Stroemnet.GuardedRuns
import Stroemnet.KaspaIntake

/-! # What the intake hands over

The pages that a poll reads overlap at their ends, the part behind the last confirmed block of
the selected chain is thrown away and read again, and requests may fail in between. What is
handed over in a whole run is a first part of the order of the blocks all the same. -/
namespace Stroemnet.Kaspa

namespace Intake

/-- The blocks above a cursor that the answers of one poll show as confirmed, up to the first
one that is not. -/
def Shows (rpc : IntakeRpc) (threshold : UInt64) (low : Bytes32) (shown : PendingBlocks) : Prop :=
  ∃ virtualDaa sink pending removed added, rpc.dagInfo = some (virtualDaa, sink) ∧
    readPages rpc sink maxPages low [] = (.ok (), pending) ∧
    rpc.virtualChain low = some (removed, added) ∧
    shown = pending.takeWhile fun x =>
      !unconfirmed removed x.1 x.2.daaScore virtualDaa threshold

/-- A block of the selected chain, as an answer shows it. -/
def IsChainBlock (rpc : IntakeRpc) (hash : Bytes32) : Prop :=
  ∃ low removed added, rpc.virtualChain low = some (removed, added) ∧ hash ∈ added

theorem getLast_cons_of_some {α β : Type} {f : α → β} {xs : List α} {y : β}
    (h : xs.getLast?.map f = some y) {x : α} : (x :: xs).getLast?.map f = some y := by
  cases xs with
  | nil => cases h
  | cons x' xs => rwa [List.getLast?_cons_cons]

/-- The loop hands over a first part of the confirmed blocks, up to a block of the selected chain,
and moves the cursor to its end. -/
theorem flushLoop_prefix (removed chainBlocks : List Bytes32) (virtualDaa threshold : UInt64)
    (pending : PendingBlocks) (buffer sent : List Block) (newCursor : Option Bytes32) :
    ∃ pre, pre <+: pending.takeWhile
        (fun x => !unconfirmed removed x.1 x.2.daaScore virtualDaa threshold) ∧
      (pre = [] ∧ flushLoop removed chainBlocks virtualDaa threshold pending buffer sent newCursor =
          (sent, newCursor) ∨
        ∃ hash ∈ chainBlocks, pre.getLast?.map Prod.fst = some hash ∧
          flushLoop removed chainBlocks virtualDaa threshold pending buffer sent newCursor =
            (sent ++ (buffer ++ pre.map Prod.snd), some hash)) := by
  induction pending generalizing buffer sent newCursor with
  | nil => exact ⟨[], List.nil_prefix, .inl ⟨rfl, rfl⟩⟩
  | cons x pending ih =>
    obtain ⟨hash, block⟩ := x
    rw [flushLoop]
    split_ifs with hun hchain
    · exact ⟨[], List.nil_prefix, .inl ⟨rfl, rfl⟩⟩
    · obtain ⟨pre, hpre, hflush⟩ := ih [] (sent ++ (buffer ++ [block])) (some hash)
      refine ⟨(hash, block) :: pre, ?_, .inr ?_⟩
      · rw [List.takeWhile_cons_of_pos (by simpa using hun)]
        exact List.prefix_cons_inj _ |>.mpr hpre
      · rcases hflush with ⟨rfl, hflush⟩ | ⟨last, hin, hlast, hflush⟩
        · exact ⟨hash, hchain, rfl, by rw [hflush]; simp⟩
        · exact ⟨last, hin, getLast_cons_of_some hlast, by rw [hflush]; simp⟩
    · obtain ⟨pre, hpre, hflush⟩ := ih (buffer ++ [block]) sent newCursor
      rcases hflush with ⟨rfl, hflush⟩ | ⟨last, hin, hlast, hflush⟩
      · exact ⟨[], List.nil_prefix, .inl ⟨rfl, hflush⟩⟩
      · refine ⟨(hash, block) :: pre, ?_,
          .inr ⟨last, hin, getLast_cons_of_some hlast, by rw [hflush]; simp⟩⟩
        rw [List.takeWhile_cons_of_pos (by simpa using hun)]
        exact List.prefix_cons_inj _ |>.mpr hpre

theorem pollOnce_unset (rpc : IntakeRpc) {intake : Intake} (hunset : intake.cursor = none) :
    (intake.pollOnce rpc).2.1 = [] ∧ ((intake.pollOnce rpc).2.2.cursor = none ∨
      ∃ virtualDaa sink, rpc.dagInfo = some (virtualDaa, sink) ∧
        (intake.pollOnce rpc).2.2.cursor = some sink) := by
  unfold pollOnce
  cases hdag : rpc.dagInfo with
  | none => exact ⟨rfl, .inl hunset⟩
  | some dag =>
    obtain ⟨virtualDaa, sink⟩ := dag
    simp only [hunset, true_and]
    exact .inr ⟨virtualDaa, sink, rfl, rfl⟩

/-- What a poll hands over and where it puts the cursor. -/
theorem pollOnce_prefix (rpc : IntakeRpc) {intake : Intake} {low : Bytes32}
    (hlow : intake.cursor = some low) :
    (intake.pollOnce rpc).2.1 = [] ∧ (intake.pollOnce rpc).2.2.cursor = some low ∨
      ∃ shown pre hash, Shows rpc intake.minimumBlockConfirmations low shown ∧ pre <+: shown ∧
        pre.getLast?.map Prod.fst = some hash ∧
        (intake.pollOnce rpc).2.1 = pre.map Prod.snd ∧
        (intake.pollOnce rpc).2.2.cursor = some hash ∧ IsChainBlock rpc hash := by
  unfold pollOnce
  cases hdag : rpc.dagInfo with
  | none => exact .inl ⟨rfl, hlow⟩
  | some dag =>
    obtain ⟨virtualDaa, sink⟩ := dag
    simp only [hlow]
    cases hread : readPages rpc sink maxPages low [] with
    | mk result pending =>
      cases result with
      | error e => exact .inl ⟨rfl, rfl⟩
      | ok u =>
        cases hchain : rpc.virtualChain low with
        | none => exact .inl ⟨rfl, rfl⟩
        | some chain =>
          obtain ⟨removed, added⟩ := chain
          obtain ⟨pre, hpre, hflush⟩ := flushLoop_prefix removed added virtualDaa
            intake.minimumBlockConfirmations pending [] [] none
          simp only [flushConfirmedBlocks]
          rcases hflush with ⟨rfl, hflush⟩ | ⟨hash, hin, hlast, hflush⟩
          · left
            simp [hflush]
          · refine .inr ⟨_, pre, hash, ⟨virtualDaa, sink, pending, removed, added, hdag, hread,
              hchain, rfl⟩, hpre, hlast, ?_⟩
            simp only [hflush, List.nil_append]
            exact ⟨trivial, rfl, low, removed, added, hchain, hin⟩

theorem pollOnce_moved {rpc : IntakeRpc} {intake : Intake}
    (h : (intake.pollOnce rpc).2.2.cursor ≠ intake.cursor) :
    ∃ hash, (intake.pollOnce rpc).2.2.cursor = some hash := by
  cases hcursor : intake.cursor with
  | none =>
    obtain ⟨-, hsame | ⟨_, sink, -, hsink⟩⟩ := pollOnce_unset rpc hcursor
    · exact absurd (hsame.trans hcursor.symm) h
    · exact ⟨sink, hsink⟩
  | some low =>
    rcases pollOnce_prefix rpc hcursor with ⟨-, hsame⟩ | ⟨_, _, hash, -, -, -, -, hhash, -⟩
    · exact absurd (hsame.trans hcursor.symm) h
    · exact ⟨hash, hhash⟩

end Intake

/-- The confirmed blocks in their order, with their hashes. -/
abbrev BlockSequence := List (Bytes32 × Block)

namespace BlockSequence

def hashAt (chain : BlockSequence) (i : ℕ) : Option Bytes32 := chain[i]?.map Prod.fst

def blockAt (chain : BlockSequence) (i : ℕ) : List Block := (chain[i]?.map Prod.snd).toList

theorem hashAt_injective {chain : BlockSequence} (hnodup : (chain.map Prod.fst).Nodup) {i j : ℕ}
    {hash : Bytes32} (hi : chain.hashAt i = some hash) (hj : chain.hashAt j = some hash) :
    i = j := by
  unfold hashAt at hi hj
  rw [← List.getElem?_map] at hi hj
  obtain ⟨hi', hi⟩ := List.getElem?_eq_some_iff.mp hi
  obtain ⟨hj', hj⟩ := List.getElem?_eq_some_iff.mp hj
  exact (List.Nodup.getElem_inj_iff hnodup).mp (hi.trans hj.symm)

theorem getLast_take_drop {chain : BlockSequence} {blocks : List (Bytes32 × Block)} {q : ℕ}
    {hash : Bytes32} (h : blocks <+: chain.drop (q + 1))
    (hlast : blocks.getLast?.map Prod.fst = some hash) :
    blocks ≠ [] ∧ chain.hashAt (q + blocks.length) = some hash := by
  have hne : blocks ≠ [] := by
    rintro rfl
    cases hlast
  refine ⟨hne, ?_⟩
  have hpos : 0 < blocks.length := List.length_pos_iff.mpr hne
  obtain ⟨rest, hrest⟩ := h
  rw [List.getLast?_eq_getElem?] at hlast
  have hget : chain[q + blocks.length]? = blocks[blocks.length - 1]? := by
    have hdrop : (chain.drop (q + 1))[blocks.length - 1]? = chain[q + 1 + (blocks.length - 1)]? :=
      List.getElem?_drop
    rw [← hrest, List.getElem?_append_left (by omega)] at hdrop
    rw [hdrop]
    congr 1
    omega
  rw [BlockSequence.hashAt, hget]
  exact hlast

end BlockSequence

/-- The pages that a poll reads list the blocks of a sequence after their low end, with or without
the block at the low end itself. -/
def ListsAfter (view : BlockSequence) (rpc : IntakeRpc) : Prop :=
  ∀ k low blocks hashes, rpc.getBlocks k low = some (blocks, hashes) →
    blocks.length = hashes.length → ∃ q page, view.hashAt q = some low ∧
      page <+: view.drop (q + 1) ∧ (blocks.zip hashes = page.map Prod.swap ∨
        ∃ block, blocks.zip hashes = (block, low) :: page.map Prod.swap)

namespace Intake

variable {view : BlockSequence} {rpc : IntakeRpc}

private theorem readPage_append {pageLow : Bytes32} {page pending : PendingBlocks}
    (hnodup : ((pending ++ page).map Prod.fst).Nodup) (hlow : ∀ x ∈ page, x.1 ≠ pageLow) :
    readPage pageLow (page.map Prod.swap) pending = pending ++ page := by
  induction page generalizing pending with
  | nil => simp [readPage]
  | cons x page ih =>
    obtain ⟨hx, hpage⟩ := List.forall_mem_cons.mp hlow
    have hnew : ¬ pending.any (·.1 = x.1) := by
      rw [List.map_append, List.map_cons, List.nodup_append] at hnodup
      intro hany
      obtain ⟨y, hy, heq⟩ := List.any_eq_true.mp hany
      exact hnodup.2.2 _ (List.mem_map_of_mem hy) _ List.mem_cons_self (of_decide_eq_true heq)
    have hinsert : pending.orInsert x.1 x.2 = pending ++ [x] := if_neg hnew
    have hrest : readPage pageLow (page.map Prod.swap) (pending ++ [x]) = pending ++ [x] ++ page :=
      ih (by simpa using hnodup) hpage
    rw [readPage, List.map_cons, List.foldl_cons]
    simp only [Prod.snd_swap, Prod.fst_swap, if_neg hx, hinsert]
    rw [readPage] at hrest
    rw [hrest, List.append_assoc, List.singleton_append]

private theorem readPage_low {pageLow : Bytes32} {block : Block} {page : List (Block × Bytes32)}
    {pending : PendingBlocks} :
    readPage pageLow ((block, pageLow) :: page) pending = readPage pageLow page pending := by
  simp [readPage]

private theorem take_append_prefix {α : Type} {xs ys : List α} {n : ℕ} (h : ys <+: xs.drop n) :
    xs.take n ++ ys = xs.take (n + ys.length) := by
  rw [List.take_add, ← List.prefix_iff_eq_take.mp h]

/-- A page of later blocks repeats neither its low end nor what is pending. -/
theorem page_fresh (hnodup : (view.map Prod.fst).Nodup) {q j : ℕ} {pageLow : Bytes32}
    {page : PendingBlocks} (hlow : view.hashAt j = some pageLow) (hle : q ≤ j)
    (hpage : page <+: view.drop (j + 1)) :
    (view.drop (q + 1)).take (j - q) ++ page = (view.drop (q + 1)).take (j - q + page.length) ∧
      (((view.drop (q + 1)).take (j - q) ++ page).map Prod.fst).Nodup ∧
      ∀ x ∈ page, x.1 ≠ pageLow := by
  have hdrop : (view.drop (q + 1)).drop (j - q) = view.drop (j + 1) := by
    rw [List.drop_drop]
    congr 1
    omega
  have happend : (view.drop (q + 1)).take (j - q) ++ page =
      (view.drop (q + 1)).take (j - q + page.length) :=
    take_append_prefix (by rw [hdrop]; exact hpage)
  refine ⟨happend, ?_, ?_⟩
  · rw [happend]
    exact hnodup.sublist (((List.take_sublist _ _).trans (List.drop_sublist _ _)).map _)
  · intro x hx heq
    obtain ⟨i, hi⟩ := List.mem_iff_getElem?.mp (hpage.subset hx)
    rw [List.getElem?_drop] at hi
    have hat : view.hashAt (j + 1 + i) = some pageLow := by
      rw [BlockSequence.hashAt, hi, Option.map_some, heq]
    have hsame := BlockSequence.hashAt_injective hnodup hat hlow
    omega

/-- The paging goes on at the last block of the page. -/
theorem nextPage_advance {pageLow low : Bytes32} {reachedSink : Bool} {hashes : List Bytes32}
    (h : nextPage hashes.getLast? pageLow reachedSink = .advance low) :
    hashes.getLast? = some low ∧ low ≠ pageLow := by
  unfold nextPage at h
  cases hlast : hashes.getLast? with
  | none =>
    split_ifs at h
    simp only [hlast, reduceCtorEq] at h
  | some last =>
    split_ifs at h
    simp only [hlast] at h
    split_ifs at h with hne
    cases h
    exact ⟨rfl, hne⟩

private theorem getLast_page {pageLow low : Bytes32} {blocks : List Block} {hashes : List Bytes32}
    {page : PendingBlocks} (hlen : blocks.length = hashes.length)
    (hzip : blocks.zip hashes = page.map Prod.swap ∨
      ∃ block, blocks.zip hashes = (block, pageLow) :: page.map Prod.swap)
    (hlast : hashes.getLast? = some low) (hne : low ≠ pageLow) :
    page.getLast?.map Prod.fst = some low := by
  have hhashes : hashes = (blocks.zip hashes).map Prod.snd :=
    (List.map_snd_zip (Nat.le_of_eq hlen.symm)).symm
  have hswap : (page.map Prod.swap).map Prod.snd = page.map Prod.fst := by
    rw [List.map_map]
    rfl
  rw [← List.getLast?_map]
  rcases hzip with hzip | ⟨block, hzip⟩
  · rw [hzip, hswap] at hhashes
    rwa [hhashes] at hlast
  · rw [hzip, List.map_cons, hswap] at hhashes
    rw [hhashes] at hlast
    cases hpage : page.map Prod.fst with
    | nil =>
      rw [hpage] at hlast
      exact absurd (Option.some.inj hlast).symm hne
    | cons x xs =>
      rw [hpage, List.getLast?_cons_cons] at hlast
      exact hlast

/-- Pages that are read one after the other add up to what follows the cursor. -/
theorem readPages_prefix (hnodup : (view.map Prod.fst).Nodup) (hrpc : ListsAfter view rpc)
    (sink : Bytes32) (left : ℕ) {pageLow : Bytes32} {q j : ℕ}
    (hlow : view.hashAt j = some pageLow) (hle : q ≤ j) :
    (readPages rpc sink left pageLow ((view.drop (q + 1)).take (j - q))).2 <+:
      view.drop (q + 1) := by
  induction left generalizing pageLow j with
  | zero => exact List.take_prefix _ _
  | succ left ih =>
    rw [readPages]
    split
    · exact List.take_prefix _ _
    · rename_i blocks hashes hpages
      split_ifs with hlen
      · exact List.take_prefix _ _
      · rw [not_not] at hlen
        obtain ⟨q', page, hq', hpage, hzip⟩ := hrpc _ _ blocks hashes hpages hlen
        obtain rfl := BlockSequence.hashAt_injective hnodup hq' hlow
        obtain ⟨happend, hfresh, hne⟩ := page_fresh hnodup hlow hle hpage
        have hread : readPage pageLow (blocks.zip hashes) ((view.drop (q + 1)).take (q' - q)) =
            (view.drop (q + 1)).take (q' - q + page.length) := by
          rw [← happend, ← readPage_append hfresh hne]
          rcases hzip with hzip | ⟨block, hzip⟩
          · rw [hzip]
          · rw [hzip, readPage_low]
        simp only [hread]
        split
        · exact List.take_prefix _ _
        · rename_i low hnext
          obtain ⟨hlast, hmoved⟩ := nextPage_advance hnext
          obtain ⟨-, hat⟩ :=
            BlockSequence.getLast_take_drop hpage (getLast_page hlen hzip hlast hmoved)
          have hrest := ih hat (Nat.le_add_right_of_le hle)
          rwa [show q' + page.length - q = q' - q + page.length by omega] at hrest

/-- A read that goes well got an answer for the cursor. -/
theorem hashAt_of_readPages (hrpc : ListsAfter view rpc) {sink low : Bytes32} {left : ℕ}
    {pending pending' : PendingBlocks}
    (h : readPages rpc sink (left + 1) low pending = (.ok (), pending')) :
    ∃ q, view.hashAt q = some low := by
  rw [readPages] at h
  cases hpages : rpc.getBlocks (maxPages - left) low with
  | none => simp [hpages] at h
  | some answer =>
    obtain ⟨blocks, hashes⟩ := answer
    by_cases hlen : blocks.length = hashes.length
    · obtain ⟨q, -, hq, -⟩ := hrpc _ _ blocks hashes hpages hlen
      exact ⟨q, hq⟩
    · simp only [hpages, ne_eq, hlen, not_false_eq_true, if_true] at h
      cases h

end Intake

/-- What the answers of one poll are taken to report: the blocks of some sequence, which goes on
after the cursor like the order does for as long as its blocks are confirmed. -/
structure Reports (order : BlockSequence) (intake : Intake) (rpc : IntakeRpc)
    (view : BlockSequence) : Prop where
  nodup : (view.map Prod.fst).Nodup
  lists : ListsAfter view rpc
  sink : intake.cursor = none → ∀ virtualDaa sink, rpc.dagInfo = some (virtualDaa, sink) →
    ∃ p, order.hashAt p = some sink
  agrees : ∀ virtualDaa sink low removed added, rpc.dagInfo = some (virtualDaa, sink) →
    intake.cursor = some low → rpc.virtualChain low = some (removed, added) →
    ∀ p q, order.hashAt p = some low → view.hashAt q = some low →
      (view.drop (q + 1)).takeWhile (fun x => !Intake.unconfirmed removed x.1 x.2.daaScore
        virtualDaa intake.minimumBlockConfirmations) <+: order.drop (p + 1)

/-- The blocks of the order after one place up to another. -/
def Between (order : BlockSequence) (first last : Bytes32) (blocks : List Block) : Prop :=
  ∃ p q, order.hashAt p = some first ∧ order.hashAt q = some last ∧ p ≤ q ∧
    blocks = ((order.drop (p + 1)).take (q - p)).map Prod.snd

/-- The intake and the cursor in its store: a cursor that is set is saved. -/
structure SavedIntake where
  intake : Intake
  stored : Option Bytes32

namespace SavedIntake

/-- The intake of a process that starts from what the store holds. -/
def start (minimumBlockConfirmations : UInt64) (stored : Option Bytes32) : SavedIntake :=
  ⟨.new minimumBlockConfirmations stored, stored⟩

def poll (s : SavedIntake) (rpc : IntakeRpc) : SavedIntake :=
  let intake := (s.intake.pollOnce rpc).2.2
  ⟨intake, if intake.cursor = s.intake.cursor then s.stored else intake.cursor⟩

def sent (s : SavedIntake) (rpc : IntakeRpc) : List Block := (s.intake.pollOnce rpc).2.1

/-- The poll that hands a block over finds it deep enough and not among those removed. -/
def SafeWhenSent (order : BlockSequence) (s : SavedIntake) (rpc : IntakeRpc) (block : Block) :
    Prop :=
  ∃ virtualDaa sink low removed added hash, rpc.dagInfo = some (virtualDaa, sink) ∧
    s.intake.cursor = some low ∧ rpc.virtualChain low = some (removed, added) ∧
    (hash, block) ∈ order ∧ Intake.unconfirmed removed hash block.daaScore virtualDaa
      s.intake.minimumBlockConfirmations = false

variable {order : BlockSequence} {s : SavedIntake} {rpc : IntakeRpc} {first low : Bytes32}

private theorem stored_poll (h : s.stored = s.intake.cursor) :
    (s.poll rpc).stored = (s.poll rpc).intake.cursor := by
  simp only [poll]
  split_ifs with hsame
  · rw [hsame, h]
  · rfl

end SavedIntake

namespace Between

variable {order : BlockSequence} {first middle last : Bytes32} {a b : List Block}

theorem refl {p : ℕ} (h : order.hashAt p = some first) : Between order first first [] :=
  ⟨p, p, h, h, Nat.le_refl p, by simp⟩

theorem trans (hnodup : (order.map Prod.fst).Nodup) (ha : Between order first middle a)
    (hb : Between order middle last b) : Between order first last (a ++ b) := by
  obtain ⟨p, q, hp, hq, hpq, rfl⟩ := ha
  obtain ⟨q', r, hq', hr, hqr, rfl⟩ := hb
  obtain rfl := BlockSequence.hashAt_injective hnodup hq hq'
  refine ⟨p, r, hp, hr, Nat.le_trans hpq hqr, ?_⟩
  rw [← List.map_append, show r - p = (q - p) + (r - q) by omega, List.take_add, List.drop_drop,
    show p + 1 + (q - p) = q + 1 by omega]

private theorem exists_hashAt (h : Between order first last a) :
    ∃ q, order.hashAt q = some last := by
  obtain ⟨-, q, -, hq, -⟩ := h
  exact ⟨q, hq⟩

end Between

private theorem takeWhile_isPrefix {α : Type} {f : α → Bool} {xs ys : List α} (h : xs <+: ys) :
    xs.takeWhile f <+: ys.takeWhile f := by
  induction xs generalizing ys with
  | nil => exact List.nil_prefix
  | cons x xs ih =>
    obtain ⟨ys, rfl⟩ := h
    by_cases hx : f x = true
    · rw [List.cons_append, List.takeWhile_cons_of_pos hx, List.takeWhile_cons_of_pos hx]
      exact List.prefix_cons_inj x |>.mpr (ih (List.prefix_append xs ys))
    · rw [List.takeWhile_cons_of_neg hx]
      exact List.nil_prefix

namespace SavedIntake

variable {order view : BlockSequence} {s : SavedIntake} {rpc : IntakeRpc} {first low : Bytes32}

/-- What a poll shows as confirmed follows the cursor in the order. -/
theorem shown_isPrefix (hreports : Reports order s.intake rpc view)
    (hcursor : s.intake.cursor = some low) {p : ℕ} (hp : order.hashAt p = some low)
    {shown : PendingBlocks}
    (hshown : Intake.Shows rpc s.intake.minimumBlockConfirmations low shown) :
    shown <+: order.drop (p + 1) := by
  obtain ⟨virtualDaa, sink, pending, removed, added, hdag, hread, hchain, rfl⟩ := hshown
  obtain ⟨q, hq⟩ := Intake.hashAt_of_readPages hreports.lists hread
  have hpending := Intake.readPages_prefix hreports.nodup hreports.lists sink Intake.maxPages hq
    (Nat.le_refl q)
  rw [Nat.sub_self, List.take_zero, hread] at hpending
  exact (takeWhile_isPrefix hpending).trans
    (hreports.agrees virtualDaa sink low removed added hdag hcursor hchain p q hp hq)

/-- What is confirmed by a poll's answers may be sent. -/
theorem safeWhenSent_of_shown (hreports : Reports order s.intake rpc view)
    (hcursor : s.intake.cursor = some low) {p : ℕ} (hp : order.hashAt p = some low)
    {shown : PendingBlocks}
    (hshown : Intake.Shows rpc s.intake.minimumBlockConfirmations low shown) :
    ∀ x ∈ shown, s.SafeWhenSent order rpc x.2 := by
  intro x hx
  have horder : x ∈ order :=
    List.mem_of_mem_drop ((shown_isPrefix hreports hcursor hp hshown).subset hx)
  obtain ⟨virtualDaa, sink, pending, removed, added, hdag, -, hchain, rfl⟩ := hshown
  refine ⟨virtualDaa, sink, low, removed, added, x.1, hdag, hcursor, hchain, horder, ?_⟩
  simpa using List.mem_takeWhile_imp hx

/-- One poll hands over what lies between the old and the new cursor. -/
theorem poll_between (hreports : Reports order s.intake rpc view)
    (hcursor : s.intake.cursor = some low) {p : ℕ} (hp : order.hashAt p = some low) :
    (∃ hash, (s.poll rpc).intake.cursor = some hash ∧ Between order low hash (s.sent rpc) ∧
      (hash = low ∨ Intake.IsChainBlock rpc hash)) ∧
      ∀ block ∈ s.sent rpc, s.SafeWhenSent order rpc block := by
  simp only [poll, sent]
  rcases Intake.pollOnce_prefix rpc hcursor with
    ⟨hsent, hsame⟩ | ⟨shown, pre, hash, hshown, hpre, hlast, hsent, hmoved, hchain⟩
  · rw [hsent]
    exact ⟨⟨low, hsame, .refl hp, .inl rfl⟩, nofun⟩
  · have hafter := hpre.trans (shown_isPrefix hreports hcursor hp hshown)
    obtain ⟨-, hat⟩ := BlockSequence.getLast_take_drop hafter hlast
    rw [hsent]
    refine ⟨⟨hash, hmoved, ⟨p, p + pre.length, hp, hat, Nat.le_add_right _ _, ?_⟩, .inr hchain⟩, ?_⟩
    · rw [Nat.add_sub_cancel_left, ← List.prefix_iff_eq_take.mp hafter]
    · intro block hblock
      obtain ⟨x, hx, rfl⟩ := List.mem_map.mp hblock
      exact safeWhenSent_of_shown hreports hcursor hp hshown x (hpre.subset hx)

private theorem poll_unset (hreports : Reports order s.intake rpc view)
    (hcursor : s.intake.cursor = none) :
    s.sent rpc = [] ∧ ((s.poll rpc).intake.cursor = none ∨ ∃ virtualDaa sink p,
      rpc.dagInfo = some (virtualDaa, sink) ∧ order.hashAt p = some sink ∧
        (s.poll rpc).intake.cursor = some sink) := by
  obtain ⟨hsent, hsame | ⟨virtualDaa, sink, hdag, hset⟩⟩ := Intake.pollOnce_unset rpc hcursor
  · exact ⟨hsent, .inl hsame⟩
  · obtain ⟨p, hp⟩ := hreports.sink hcursor virtualDaa sink hdag
    exact ⟨hsent, .inr ⟨virtualDaa, sink, p, hdag, hp, hset⟩⟩

theorem run_between (hnodup : (order.map Prod.fst).Nodup) {polls : List IntakeRpc}
    (hreports : Runs.Along poll (fun s rpc => ∃ view, Reports order s.intake rpc view) s polls)
    (hcursor : s.intake.cursor = some low) {p : ℕ} (hp : order.hashAt p = some low) :
    (∃ hash, (Runs.final poll s polls).intake.cursor = some hash ∧
      Between order low hash (Runs.outputs poll sent s polls) ∧
      (hash = low ∨ ∃ rpc ∈ polls, Intake.IsChainBlock rpc hash)) ∧
    Runs.Along poll (fun s rpc => ∀ block ∈ s.sent rpc, s.SafeWhenSent order rpc block) s
      polls := by
  induction polls generalizing s low p with
  | nil => exact ⟨⟨low, hcursor, .refl hp, .inl rfl⟩, trivial⟩
  | cons rpc polls ih =>
    obtain ⟨⟨view, hview⟩, hrest⟩ := hreports
    obtain ⟨⟨next, hnext, hfirst, hchain⟩, hsafe⟩ := poll_between hview hcursor hp
    obtain ⟨q, hq⟩ := hfirst.exists_hashAt
    obtain ⟨⟨hash, hhash, hafter, hlast⟩, hsafes⟩ := ih hrest hnext hq
    refine ⟨⟨hash, hhash, hfirst.trans hnodup hafter, ?_⟩, hsafe, hsafes⟩
    rcases hlast with rfl | ⟨rpc', hin, hlast⟩
    · exact hchain.imp_right fun h => ⟨rpc, List.mem_cons_self, h⟩
    · exact .inr ⟨rpc', List.mem_cons_of_mem _ hin, hlast⟩

private theorem run_unset (hnodup : (order.map Prod.fst).Nodup) {polls : List IntakeRpc}
    (hreports : Runs.Along poll (fun s rpc => ∃ view, Reports order s.intake rpc view) s polls)
    (hcursor : s.intake.cursor = none) :
    ((Runs.final poll s polls).intake.cursor = none ∧ Runs.outputs poll sent s polls = [] ∨
      ∃ first hash, (∃ rpc ∈ polls, ∃ virtualDaa, rpc.dagInfo = some (virtualDaa, first)) ∧
        (Runs.final poll s polls).intake.cursor = some hash ∧
        Between order first hash (Runs.outputs poll sent s polls) ∧
        (hash = first ∨ ∃ rpc ∈ polls, Intake.IsChainBlock rpc hash)) ∧
    Runs.Along poll (fun s rpc => ∀ block ∈ s.sent rpc, s.SafeWhenSent order rpc block) s
      polls := by
  induction polls generalizing s with
  | nil => exact ⟨.inl ⟨hcursor, rfl⟩, trivial⟩
  | cons rpc polls ih =>
    obtain ⟨⟨view, hview⟩, hrest⟩ := hreports
    obtain ⟨hsent, hunset | ⟨virtualDaa, sink, p, hdag, hp, hset⟩⟩ := poll_unset hview hcursor
    · obtain ⟨hrun, hsafes⟩ := ih hrest hunset
      simp only [Runs.outputs, Runs.Along, Runs.final_cons, hsent, List.nil_append]
      refine ⟨hrun.imp_right ?_, List.forall_mem_nil _, hsafes⟩
      rintro ⟨first, hash, ⟨rpc', hin, hsink⟩, hhash, hbetween, hlast⟩
      refine ⟨first, hash, ⟨rpc', List.mem_cons_of_mem _ hin, hsink⟩, hhash, hbetween, ?_⟩
      apply hlast.imp_right
      rintro ⟨rpc', hin, h⟩
      exact ⟨rpc', List.mem_cons_of_mem _ hin, h⟩
    · obtain ⟨⟨hash, hhash, hbetween, hlast⟩, hsafes⟩ := run_between hnodup hrest hset hp
      simp only [Runs.outputs, Runs.Along, Runs.final_cons, hsent, List.nil_append]
      refine ⟨.inr ⟨sink, hash, ⟨rpc, List.mem_cons_self, virtualDaa, hdag⟩, hhash, hbetween, ?_⟩,
        List.forall_mem_nil _, hsafes⟩
      apply hlast.imp_right
      rintro ⟨rpc', hin, h⟩
      exact ⟨rpc', List.mem_cons_of_mem _ hin, h⟩

/-- In every run of polls the blocks that are handed over are those of the order after the first
cursor up to the stored one, each once and in the order. A poll hands over only what it finds deep
enough and not removed, and stores only blocks of the selected chain. -/
theorem delivers_in_order (order : BlockSequence) (hnodup : (order.map Prod.fst).Nodup)
    (minimumBlockConfirmations : UInt64) (initial : Option Bytes32)
    (hinitial : ∀ low, initial = some low → ∃ p, order.hashAt p = some low)
    (polls : List IntakeRpc)
    (hreports : Runs.Along poll (fun s rpc => ∃ view, Reports order s.intake rpc view)
      (start minimumBlockConfirmations initial) polls) :
    let s := start minimumBlockConfirmations initial
    (initial = none ∧ (Runs.final poll s polls).stored = none ∧
        Runs.outputs poll sent s polls = [] ∨
      ∃ first hash, (initial = some first ∨ initial = none ∧
          ∃ rpc ∈ polls, ∃ virtualDaa, rpc.dagInfo = some (virtualDaa, first)) ∧
        (Runs.final poll s polls).stored = some hash ∧
        Between order first hash (Runs.outputs poll sent s polls) ∧
        (hash = first ∨ ∃ rpc ∈ polls, Intake.IsChainBlock rpc hash)) ∧
      Runs.Along poll (fun s rpc => ∀ block ∈ s.sent rpc, s.SafeWhenSent order rpc block) s
        polls := by
  intro s
  have hstored : (Runs.final poll s polls).stored = (Runs.final poll s polls).intake.cursor :=
    Runs.Along.invariant (I := fun s => s.stored = s.intake.cursor) (fun _ _ hs _ => stored_poll hs)
      rfl hreports
  rw [hstored]
  cases hfirst : initial with
  | none =>
    obtain ⟨hunset | ⟨first, hash, hsink, hrun⟩, hsafe⟩ := run_unset hnodup hreports hfirst
    · exact ⟨.inl ⟨rfl, hunset⟩, hsafe⟩
    · exact ⟨.inr ⟨first, hash, .inr ⟨rfl, hsink⟩, hrun⟩, hsafe⟩
  | some low =>
    obtain ⟨p, hp⟩ := hinitial low hfirst
    obtain ⟨⟨hash, hrun⟩, hsafe⟩ := run_between hnodup hreports hfirst hp
    exact ⟨.inr ⟨low, hash, .inl rfl, hrun⟩, hsafe⟩

/-- Four blocks, the second of them in the merge set of the third. -/
def mergeOrder : BlockSequence :=
  [(.filled 1, ⟨.filled 1, 9, []⟩), (.filled 2, ⟨.filled 2, 10, []⟩),
    (.filled 3, ⟨.filled 3, 11, []⟩), (.filled 4, ⟨.filled 4, 98, []⟩)]

/-- Pages that overlap at their ends; the last block is not deep enough. -/
def pagedAnswers : IntakeRpc where
  dagInfo := some (100, .filled 4)
  getBlocks _ low :=
    if low = .filled 1 then some ((mergeOrder.take 2).unzip.swap)
    else if low = .filled 2 then some ((mergeOrder.drop 1).unzip.swap)
    else none
  virtualChain _ := some ([], [.filled 3, .filled 4])

private theorem pagedAnswers_lists : ListsAfter mergeOrder pagedAnswers := by
  intro k low blocks hashes hpage hlen
  simp only [pagedAnswers] at hpage
  split_ifs at hpage with hfirst hsecond
  · cases hpage
    exact ⟨0, (mergeOrder.drop 1).take 1, by rw [hfirst]; rfl, List.take_prefix _ _,
      .inr ⟨_, by rw [hfirst]; rfl⟩⟩
  · cases hpage
    exact ⟨1, mergeOrder.drop 2, by rw [hsecond]; rfl, List.prefix_rfl,
      .inr ⟨_, by rw [hsecond]; rfl⟩⟩

private theorem pagedAnswers_reports {intake : Intake} (hcursor : intake.cursor ≠ none) :
    Reports mergeOrder intake pagedAnswers mergeOrder := by
  refine ⟨by decide +kernel, pagedAnswers_lists, fun h => absurd h hcursor, ?_⟩
  intro virtualDaa sink low removed added _ _ _ p q hp hq
  obtain rfl := BlockSequence.hashAt_injective (by decide +kernel) hp hq
  exact List.takeWhile_prefix _

/-- Two pages are read and the blocks up to the last deep one of the selected chain are handed
over. -/
theorem delivers_in_order_paged :
    (Runs.final poll (start 10 (some (.filled 1))) [pagedAnswers]).stored = some (.filled 3) ∧
      ∃ hash, (Runs.final poll (start 10 (some (.filled 1))) [pagedAnswers]).stored = some hash ∧
        Between mergeOrder (.filled 1) hash
          (Runs.outputs poll sent (start 10 (some (.filled 1))) [pagedAnswers]) := by
  refine ⟨by decide +kernel, ?_⟩
  have hinitial : ∀ low, some (Bytes32.filled 1) = some low →
      ∃ p, mergeOrder.hashAt p = some low := by
    intro low hlow
    exact ⟨0, hlow⟩
  obtain ⟨⟨hnone, -⟩ | ⟨first, hash, hfirst | ⟨hnone, -⟩, hstored, hbetween, -⟩, -⟩ :=
    delivers_in_order mergeOrder (by decide +kernel) 10 (some (.filled 1)) hinitial [pagedAnswers]
      ⟨⟨mergeOrder, pagedAnswers_reports nofun⟩, trivial⟩
  · cases hnone
  · cases hfirst
    exact ⟨hash, hstored, hbetween⟩
  · cases hnone

end SavedIntake

end Stroemnet.Kaspa
