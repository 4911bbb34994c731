import Stroemnet.KaspaChannel

/-! # Taking in blocks

The intake pages through the blocks above its cursor and hands those over that are deep
enough, up to the last block of the selected chain among them. Whole blocks are handed over:
which of their transactions were accepted is not asked for. -/
namespace Stroemnet.Kaspa

/-- The answers of the chain's node during one poll; `none` is a request that timed out.
Pages are asked for one after the other, so an answer may depend on its number. -/
structure IntakeRpc where
  /-- The virtual DAA score and the sink. -/
  dagInfo : Option (UInt64 × Bytes32)
  getBlocks : ℕ → Bytes32 → Option (List Block × List Bytes32)
  /-- The removed and the added blocks of the selected chain. -/
  virtualChain : Bytes32 → Option (List Bytes32 × List Bytes32)

abbrev PendingBlocks := List (Bytes32 × Block)

def PendingBlocks.orInsert (pending : PendingBlocks) (hash : Bytes32) (block : Block) :
    PendingBlocks :=
  if pending.any (·.1 = hash) then pending else pending ++ [(hash, block)]

structure Intake where
  minimumBlockConfirmations : UInt64
  pendingBlocks : PendingBlocks
  maxSeenDaa : UInt64
  cursor : Option Bytes32

namespace Intake

def new (minimumBlockConfirmations : UInt64) (initialCursor : Option Bytes32) : Intake :=
  ⟨minimumBlockConfirmations, [], 0, initialCursor⟩

inductive PageStep
  | stop
  | advance (low : Bytes32)
deriving DecidableEq

def nextPage (last : Option Bytes32) (pageLow : Bytes32) (reachedSink : Bool) : PageStep :=
  if reachedSink then .stop
  else
    match last with
    | some h => if h ≠ pageLow then .advance h else .stop
    | none => .stop

def readPage (pageLow : Bytes32) (page : List (Block × Bytes32)) (pending : PendingBlocks) :
    PendingBlocks :=
  page.foldl (fun pending x => if x.2 = pageLow then pending else pending.orInsert x.2 x.1) pending

def maxPages : ℕ := 10000

/-- Reads page after page, at most as many as are left. -/
def readPages (rpc : IntakeRpc) (sink : Bytes32) :
    ℕ → Bytes32 → PendingBlocks → Except KaspaError Unit × PendingBlocks
  | 0, _, pending => (.ok (), pending)
  | left + 1, pageLow, pending =>
    match rpc.getBlocks (maxPages - left) pageLow with
    | none => (.error (.other "get_blocks: timed out"), pending)
    | some (blocks, hashes) =>
      if blocks.length ≠ hashes.length then
        (.error (.other "get_blocks: blocks/hashes length mismatch"), pending)
      else
        let pending := readPage pageLow (blocks.zip hashes) pending
        match nextPage hashes.getLast? pageLow (sink ∈ hashes) with
        | .stop => (.ok (), pending)
        | .advance low => readPages rpc sink left low pending

def unconfirmed (removed : List Bytes32) (hash : Bytes32) (blockDaa virtualDaa threshold : UInt64) :
    Bool :=
  hash ∈ removed ∨ virtualDaa.toNat - blockDaa.toNat < threshold.toNat

/-- Goes over the pending blocks up to the first one that is not confirmed. A block of the
selected chain hands over everything that was buffered and becomes the cursor. The receiving
end lives as long as the channel does, so nothing that is handed over is lost. -/
def flushLoop (removed chainBlocks : List Bytes32) (virtualDaa threshold : UInt64) :
    PendingBlocks → List Block → List Block → Option Bytes32 → List Block × Option Bytes32
  | [], _, sent, newCursor => (sent, newCursor)
  | (hash, block) :: rest, buffer, sent, newCursor =>
    if unconfirmed removed hash block.daaScore virtualDaa threshold then (sent, newCursor)
    else if hash ∈ chainBlocks then
      flushLoop removed chainBlocks virtualDaa threshold rest [] (sent ++ (buffer ++ [block]))
        (some hash)
    else
      flushLoop removed chainBlocks virtualDaa threshold rest (buffer ++ [block]) sent newCursor

def flushConfirmedBlocks (removed chainBlocks : List Bytes32) (intake : Intake) :
    List Block × Intake :=
  let (sent, newCursor) := flushLoop removed chainBlocks intake.maxSeenDaa
    intake.minimumBlockConfirmations intake.pendingBlocks [] [] none
  (sent, { intake with pendingBlocks := [], cursor := newCursor.orElse fun _ => intake.cursor })

/-- Poll for blocks once: the result, the blocks that are handed over, and the new state. -/
def pollOnce (rpc : IntakeRpc) (intake : Intake) : Except KaspaError Unit × List Block × Intake :=
  match rpc.dagInfo with
  | none => (.error (.other "get_block_dag_info: timed out"), [], intake)
  | some (virtualDaa, sink) =>
    let intake := { intake with maxSeenDaa := virtualDaa }
    match intake.cursor with
    | none => (.ok (), [], { intake with cursor := some sink })
    | some low =>
      match readPages rpc sink maxPages low [] with
      | (.error e, pending) => (.error e, [], { intake with pendingBlocks := pending })
      | (.ok (), pending) =>
        let intake := { intake with pendingBlocks := pending }
        match rpc.virtualChain low with
        | none => (.error (.other "get_virtual_chain_from_block: timed out"), [], intake)
        | some (removed, added) =>
          let (sent, intake) := intake.flushConfirmedBlocks removed added
          (.ok (), sent, intake)

/-- A block that a poll fetched and found confirmed: not removed, and deep enough. -/
def Confirmed (threshold : UInt64) (rpc : IntakeRpc) (block : Block) : Prop :=
  ∃ virtualDaa sink low removed added hash,
    rpc.dagInfo = some (virtualDaa, sink) ∧ rpc.virtualChain low = some (removed, added) ∧
    (∃ k pageLow blocks hashes, rpc.getBlocks k pageLow = some (blocks, hashes) ∧
      (block, hash) ∈ blocks.zip hashes) ∧
    unconfirmed removed hash block.daaScore virtualDaa threshold = false

variable {rpc : IntakeRpc} {pending : PendingBlocks} {hash : Bytes32} {block : Block}

private theorem mem_orInsert {hash' : Bytes32} {block' : Block}
    (h : (hash, block) ∈ pending.orInsert hash' block') :
    (hash, block) ∈ pending ∨ (hash, block) = (hash', block') := by
  unfold PendingBlocks.orInsert at h
  split_ifs at h
  · exact .inl h
  · simpa using h

private theorem mem_readPage {pageLow : Bytes32} {page : List (Block × Bytes32)}
    (h : (hash, block) ∈ readPage pageLow page pending) :
    (hash, block) ∈ pending ∨ (block, hash) ∈ page := by
  induction page generalizing pending with
  | nil => exact .inl h
  | cons x page ih =>
    rcases ih h with hrest | hrest
    · simp only at hrest
      split_ifs at hrest
      · exact .inl hrest
      · rcases mem_orInsert hrest with hrest | hrest
        · exact .inl hrest
        · cases hrest
          exact .inr List.mem_cons_self
    · exact .inr (List.mem_cons_of_mem _ hrest)

private theorem mem_readPages (rpc : IntakeRpc) (sink : Bytes32) (left : ℕ) (pageLow : Bytes32)
    (pending : PendingBlocks) (h : (hash, block) ∈ (readPages rpc sink left pageLow pending).2) :
    (hash, block) ∈ pending ∨ ∃ k low blocks hashes, rpc.getBlocks k low = some (blocks, hashes) ∧
      (block, hash) ∈ blocks.zip hashes := by
  induction left generalizing pageLow pending with
  | zero => exact .inl h
  | succ left ih =>
    unfold readPages at h
    split at h
    · exact .inl h
    · rename_i blocks hashes hpage
      have hread : (hash, block) ∈ readPage pageLow (blocks.zip hashes) pending →
          (hash, block) ∈ pending ∨ ∃ k low blocks hashes,
            rpc.getBlocks k low = some (blocks, hashes) ∧ (block, hash) ∈ blocks.zip hashes :=
        fun hr => (mem_readPage hr).imp_right fun hr => ⟨_, _, _, _, hpage, hr⟩
      split_ifs at h
      · exact .inl h
      · simp only at h
        split at h
        · exact hread h
        · rcases ih _ _ h with h | h
          · exact hread h
          · exact .inr h

/-- What the loop hands over was pending and confirmed. -/
theorem mem_flushLoop {removed chainBlocks : List Bytes32} {virtualDaa threshold : UInt64}
    {buffer sent : List Block} {newCursor : Option Bytes32}
    {Q : Block → Prop} (hbuffer : ∀ b ∈ buffer, Q b) (hsent : ∀ b ∈ sent, Q b)
    (hpending : ∀ x ∈ pending, unconfirmed removed x.1 x.2.daaScore virtualDaa threshold = false →
      Q x.2) :
    ∀ b ∈ (flushLoop removed chainBlocks virtualDaa threshold pending buffer sent newCursor).1,
      Q b := by
  induction pending generalizing buffer sent newCursor with
  | nil => exact hsent
  | cons x pending ih =>
    obtain ⟨hx, hrest⟩ := List.forall_mem_cons.mp hpending
    unfold flushLoop
    split_ifs with hun hchain
    · exact hsent
    · have hbuffered : ∀ b ∈ buffer ++ [x.2], Q b := by
        rw [List.forall_mem_append, List.forall_mem_singleton]
        exact ⟨hbuffer, hx (Bool.eq_false_iff.mpr hun)⟩
      refine ih (by simp) ?_ hrest
      rw [List.forall_mem_append]
      exact ⟨hsent, hbuffered⟩
    · refine ih ?_ hsent hrest
      rw [List.forall_mem_append, List.forall_mem_singleton]
      exact ⟨hbuffer, hx (Bool.eq_false_iff.mpr hun)⟩

/-- Every block that a poll hands over was fetched by it and found confirmed. -/
theorem confirmed_of_pollOnce {intake : Intake} (h : block ∈ (intake.pollOnce rpc).2.1) :
    Confirmed intake.minimumBlockConfirmations rpc block := by
  unfold pollOnce at h
  split at h
  · cases h
  · rename_i virtualDaa sink hdag
    simp only at h
    split at h
    · cases h
    · rename_i low hlow
      split at h
      · cases h
      · rename_i pending hread
        split at h
        · cases h
        · rename_i removed added hchain
          refine mem_flushLoop (Q := Confirmed intake.minimumBlockConfirmations rpc) (by simp)
            (by simp) (fun x hx hconfirmed => ?_) block h
          rw [← show (readPages rpc sink maxPages low []).2 = pending by rw [hread]] at hx
          rcases mem_readPages rpc sink maxPages low [] hx with hnil | hpage
          · cases hnil
          · exact ⟨virtualDaa, sink, low, removed, added, x.1, hdag, hchain, hpage, hconfirmed⟩

theorem minimumBlockConfirmations_pollOnce (intake : Intake) (rpc : IntakeRpc) :
    (intake.pollOnce rpc).2.2.minimumBlockConfirmations = intake.minimumBlockConfirmations := by
  unfold pollOnce
  split
  · rfl
  · simp only
    split
    · rfl
    · split
      · rfl
      · split <;> rfl

end Intake
end Stroemnet.Kaspa
