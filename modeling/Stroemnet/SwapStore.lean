import Stroemnet.GuardedRuns
import Stroemnet.OrderedTables
import Stroemnet.RecordCodec
import Stroemnet.Restart
import Mathlib.Data.List.Lex

/-! # The store of swaps

The rows of all channels are kept in one table of the database, under the byte of the channel and
the identifier of the swap. The rows of a channel are found by a scan over the keys that begin with
its byte. A row that cannot be read is set aside with its bytes. -/
namespace Stroemnet

open OrderedTable Record

structure PeerDb where
  swaps : Table Bytes Bytes
  quarantine : Table Bytes Bytes

def swapKey (channel : ChannelId) (id : SwapId) : Bytes := channel.toByte :: id.data

def quarantineKey (channel : ChannelId) (id : SwapId) : Bytes := channel.toByte :: id.data

namespace PeerDb

def empty : PeerDb := ⟨.empty, .empty⟩

/-- Scans the keys that begin with the byte of a channel. -/
def getSwapsForChannel (db : PeerDb) (channel : ChannelId) : List (SwapId × Bytes) :=
  let chan := channel.toByte
  let lo := [chan]
  let hi := [chan + 1]
  let range := if chan = 255 then db.swaps.range lo none else db.swaps.range lo (some hi)
  range.filterMap fun row =>
    match row.1 with
    | [] => none
    | _ :: rest => (Bytes32.ofBytes rest).map fun id => (id, row.2)

def setSwap (db : PeerDb) (channel : ChannelId) (id : SwapId) (record : Bytes) : PeerDb :=
  { db with swaps := db.swaps.insert (swapKey channel id) record }

def removeSwap (db : PeerDb) (channel : ChannelId) (id : SwapId) : PeerDb :=
  { db with swaps := db.swaps.remove (swapKey channel id) }

def quarantineSwap (db : PeerDb) (channel : ChannelId) (id : SwapId) (raw : Bytes) : PeerDb :=
  { db with quarantine := db.quarantine.insert (quarantineKey channel id) raw }

end PeerDb

inductive StoreOp
  | save (channel : ChannelId) (id : SwapId) (record : Bytes)
  | delete (channel : ChannelId) (id : SwapId)
  | quarantine (channel : ChannelId) (id : SwapId) (raw : Bytes)

def PeerDb.apply (db : PeerDb) : StoreOp → PeerDb
  | .save channel id record => db.setSwap channel id record
  | .delete channel id => db.removeSwap channel id
  | .quarantine channel id raw => db.quarantineSwap channel id raw

/-- The database after a sequence of operations. -/
def PeerDb.after (ops : List StoreOp) : PeerDb := Runs.final PeerDb.apply .empty ops

def StoreOp.row : StoreOp → Option (ChannelId × SwapId)
  | save channel id _ => some (channel, id)
  | delete channel id => some (channel, id)
  | quarantine .. => none

def StoreOp.record : StoreOp → Option Bytes
  | save _ _ record => some record
  | _ => none

/-- The record of a swap that was saved last and not deleted since. -/
def latest (ops : List StoreOp) (channel : ChannelId) (id : SwapId) : Option Bytes :=
  ((ops.filter (·.row = some (channel, id))).getLast?).bind StoreOp.record

section Rows

variable {ops : List StoreOp} {channel : ChannelId} {id : SwapId} {record : Bytes}

theorem swapKey_inj {channel' : ChannelId} {id' : SwapId} :
    swapKey channel id = swapKey channel' id' ↔ channel = channel' ∧ id = id' := by
  constructor
  · intro h
    obtain ⟨hchannel, hid⟩ := List.cons.inj h
    exact ⟨ChannelId.toByte_injective hchannel, Bytes32.ext hid⟩
  · rintro ⟨rfl, rfl⟩
    rfl

theorem latest_concat (op : StoreOp) : latest (ops ++ [op]) channel id =
    if op.row = some (channel, id) then op.record else latest ops channel id := by
  rw [latest, List.filter_append]
  split_ifs with h
  · rw [List.filter_cons_of_pos (by simpa using h), List.filter_nil, List.getLast?_concat]
    rfl
  · rw [List.filter_cons_of_neg (by simpa using h), List.filter_nil, List.append_nil]
    rfl

/-- The table holds the latest records and nothing else. -/
theorem mem_swaps_after (ops : List StoreOp) (row : Bytes × Bytes) :
    row ∈ (PeerDb.after ops).swaps.entries ↔ ∃ channel id, row.1 = swapKey channel id ∧
      latest ops channel id = some row.2 := by
  -- from the end, since the last operation decides
  induction ops using List.reverseRecOn generalizing row with
  | nil => simp [PeerDb.after, PeerDb.empty, Table.empty, latest]
  | append_singleton ops op ih =>
    have hafter : PeerDb.after (ops ++ [op]) = (PeerDb.after ops).apply op :=
      Runs.final_append _ ops [op]
    rw [hafter]
    simp only [latest_concat]
    cases op with
    | save c i r =>
      simp only [PeerDb.apply, PeerDb.setSwap, Table.mem_insert, ih]
      constructor
      · rintro (rfl | ⟨⟨channel, id, hkey, hlatest⟩, hne⟩)
        · exact ⟨c, i, rfl, if_pos rfl⟩
        · refine ⟨channel, id, hkey, ?_⟩
          rw [if_neg, hlatest]
          intro heq
          cases heq
          exact hne hkey
      · rintro ⟨channel, id, hkey, hlatest⟩
        split_ifs at hlatest with heq
        · cases heq
          cases hlatest
          exact .inl (Prod.ext hkey rfl)
        · refine .inr ⟨⟨channel, id, hkey, hlatest⟩, fun hrow => heq ?_⟩
          obtain ⟨rfl, rfl⟩ := swapKey_inj.mp (hkey.symm.trans hrow)
          rfl
    | delete c i =>
      simp only [PeerDb.apply, PeerDb.removeSwap, Table.mem_remove, ih]
      constructor
      · rintro ⟨⟨channel, id, hkey, hlatest⟩, hne⟩
        refine ⟨channel, id, hkey, ?_⟩
        rw [if_neg, hlatest]
        intro heq
        cases heq
        exact hne hkey
      · rintro ⟨channel, id, hkey, hlatest⟩
        split_ifs at hlatest with heq
        · cases hlatest
        · refine ⟨⟨channel, id, hkey, hlatest⟩, fun hrow => heq ?_⟩
          obtain ⟨rfl, rfl⟩ := swapKey_inj.mp (hkey.symm.trans hrow)
          rfl
    | quarantine c i r =>
      simp only [PeerDb.apply, PeerDb.quarantineSwap, ih]
      rfl

end Rows

/-- The keys of a scan are those that begin with the byte of the channel. -/
theorem mem_scan {db : PeerDb} {channel : ChannelId} {b : UInt8} {rest v : Bytes} :
    (b :: rest, v) ∈ db.swaps.range [channel.toByte] (some [channel.toByte + 1]) ↔
      (b :: rest, v) ∈ db.swaps.entries ∧ b = channel.toByte := by
  have hnext : (channel.toByte + 1).toNat = channel.toByte.toNat + 1 := by cases channel <;> rfl
  rw [Table.mem_range]
  refine and_congr_right fun _ => ?_
  simp only [Option.mem_def, Option.some.injEq, forall_eq', List.cons_lt_cons_iff,
    List.not_lt_nil, and_false, or_false, UInt8.lt_iff_toNat_lt, hnext]
  rw [← not_lt, List.cons_lt_cons_iff]
  simp only [List.not_lt_nil, and_false, or_false, UInt8.lt_iff_toNat_lt]
  rw [← UInt8.toNat_inj]
  omega

/-- The rows of a channel are loaded, each once and in the order of the identifiers. -/
structure Loads (ops : List StoreOp) (channel : ChannelId) (rows : List (SwapId × Bytes)) :
    Prop where
  exactly : ∀ id record, (id, record) ∈ rows ↔ latest ops channel id = some record
  once : (rows.map Prod.fst).Nodup

theorem loads_getSwapsForChannel (ops : List StoreOp) (channel : ChannelId) :
    Loads ops channel ((PeerDb.after ops).getSwapsForChannel channel) := by
  have hchan : channel.toByte ≠ 255 := by cases channel <;> decide
  simp only [PeerDb.getSwapsForChannel, if_neg hchan]
  constructor
  · intro id record
    rw [List.mem_filterMap]
    constructor
    · rintro ⟨⟨key, v⟩, hrow, hfound⟩
      cases key with
      | nil => cases hfound
      | cons b rest =>
        simp only [Option.map_eq_some_iff] at hfound
        obtain ⟨id', hid', hpair⟩ := hfound
        cases hpair
        obtain ⟨hentry, hb⟩ := mem_scan.mp hrow
        obtain ⟨channel', id'', hkey, hlatest⟩ := (mem_swaps_after ops _).mp hentry
        obtain ⟨hb', hrest⟩ := List.cons.inj hkey
        obtain rfl := ChannelId.toByte_injective (hb.symm.trans hb')
        rw [Bytes32.ofBytes_eq_some] at hid'
        obtain rfl : id = id'' := Bytes32.ext (hid'.trans hrest)
        exact hlatest
    · intro hlatest
      refine ⟨(swapKey channel id, record), ?_, by simp [swapKey]⟩
      exact mem_scan.mpr ⟨(mem_swaps_after ops _).mpr ⟨channel, id, rfl, hlatest⟩, rfl⟩
  · rw [List.Nodup, List.pairwise_map, List.pairwise_filterMap]
    refine ((PeerDb.after ops).swaps.pairwise_range _ _).imp_of_mem ?_
    rintro ⟨k, v⟩ ⟨k', v'⟩ hk hk' hlt x hx y hy heq
    cases k with
    | nil => cases hx
    | cons b rest =>
      cases k' with
      | nil => cases hy
      | cons b' rest' =>
        simp only [Option.map_eq_some_iff] at hx hy
        obtain ⟨id, hid, rfl⟩ := hx
        obtain ⟨id', hid', rfl⟩ := hy
        rw [Bytes32.ofBytes_eq_some] at hid hid'
        obtain ⟨-, rfl⟩ := mem_scan.mp hk
        obtain ⟨-, rfl⟩ := mem_scan.mp hk'
        obtain rfl : id = id' := heq
        rw [← hid, ← hid'] at hlt
        exact lt_irrefl _ hlt

namespace RestoredSwaps

def none : RestoredSwaps := ⟨fun _ => .none, [], [], fun _ => .none, fun _ => .none⟩

def put {α : Type} (m : SwapId → Option α) (id : SwapId) : Option α → SwapId → Option α
  | some a => Function.update m id (some a)
  | .none => m

def add (out : RestoredSwaps) (id : SwapId) (rec : PersistedSwap) : RestoredSwaps where
  scripts := put out.scripts id rec.script
  pendingRefunds := out.pendingRefunds ++ rec.pendingRefund.toList
  pendingClaims := out.pendingClaims ++ rec.pendingClaim.toList
  claimAttempts := put out.claimAttempts id rec.claimAttempt
  refundAttempts := put out.refundAttempts id rec.refundAttempt

end RestoredSwaps

/-- What has been restored so far, and what was set aside with its bytes and the reason. -/
structure Restoring where
  restored : RestoredSwaps
  quarantined : List (SwapId × Bytes × RecordError)

def restoreRow (out : Restoring) (row : SwapId × Bytes) : Restoring :=
  match decode row.2 with
  | .current rec => { out with restored := out.restored.add row.1 rec }
  | .corrupt e => { out with quarantined := out.quarantined ++ [(row.1, row.2, e)] }

def restoreRows (rows : List (SwapId × Bytes)) : Restoring := rows.foldl restoreRow ⟨.none, []⟩

/-- Restores the swaps of a channel; what cannot be read goes to the other table. -/
def PeerDb.restore (db : PeerDb) (channel : ChannelId) : RestoredSwaps × PeerDb :=
  let out := restoreRows (db.getSwapsForChannel channel)
  (out.restored, out.quarantined.foldl (fun db q => db.quarantineSwap channel q.1 q.2.1) db)

def recordOf (row : SwapId × Bytes) : Option PersistedSwap :=
  match decode row.2 with
  | .current rec => some rec
  | .corrupt _ => none

def corruptOf (row : SwapId × Bytes) : Option (SwapId × Bytes × RecordError) :=
  match decode row.2 with
  | .current _ => none
  | .corrupt e => some (row.1, row.2, e)

def RestoredSwaps.slot (out : RestoredSwaps) (id : SwapId) :
    Option UtxoScript × Option AttemptState × Option AttemptState :=
  (out.scripts id, out.claimAttempts id, out.refundAttempts id)

def PersistedSwap.slot (rec : PersistedSwap) :
    Option UtxoScript × Option AttemptState × Option AttemptState :=
  (rec.script, rec.claimAttempt, rec.refundAttempt)

section Restoring

variable {rows : List (SwapId × Bytes)} {out : Restoring} {id : SwapId}

theorem RestoredSwaps.slot_add_of_ne {out : RestoredSwaps} {id' : SwapId} {rec : PersistedSwap}
    (h : id' ≠ id) : (out.add id rec).slot id' = out.slot id' := by
  have hput : ∀ {α : Type} (m : SwapId → Option α) (o : Option α), put m id o id' = m id' := by
    intro α m o
    cases o with
    | none => rfl
    | some a => exact Function.update_of_ne h _ _
  simp only [slot, add, hput]

private theorem RestoredSwaps.slot_add_self {out : RestoredSwaps} {rec : PersistedSwap}
    (h : out.slot id = (.none, .none, .none)) : (out.add id rec).slot id = rec.slot := by
  have hput : ∀ {α : Type} {m : SwapId → Option α} (o : Option α), m id = .none →
      put m id o id = o := by
    intro α m o hm
    cases o with
    | none => exact hm
    | some a => exact Function.update_self _ _ _
  simp only [slot, Prod.mk.injEq] at h
  simp only [slot, add, PersistedSwap.slot, hput _ h.1, hput _ h.2.1, hput _ h.2.2]

private theorem foldl_restoreRow (rows : List (SwapId × Bytes)) (out : Restoring) :
    (rows.foldl restoreRow out).restored.pendingRefunds = out.restored.pendingRefunds ++
        rows.filterMap (fun row => (recordOf row).bind (·.pendingRefund)) ∧
      (rows.foldl restoreRow out).restored.pendingClaims = out.restored.pendingClaims ++
        rows.filterMap (fun row => (recordOf row).bind (·.pendingClaim)) ∧
      (rows.foldl restoreRow out).quarantined = out.quarantined ++ rows.filterMap corruptOf := by
  induction rows generalizing out with
  | nil => simp
  | cons row rows ih =>
    obtain ⟨hrefunds, hclaims, hcorrupt⟩ := ih (restoreRow out row)
    rw [List.foldl_cons, hrefunds, hclaims, hcorrupt]
    simp only [List.filterMap_cons, recordOf, corruptOf, restoreRow]
    cases decode row.2 with
    | corrupt e => simp
    | current rec =>
      refine ⟨?_, ?_, rfl⟩
      · cases hrefund : rec.pendingRefund <;> simp [RestoredSwaps.add, hrefund]
      · cases hclaim : rec.pendingClaim <;> simp [RestoredSwaps.add, hclaim]

theorem slot_foldl_of_notMem (h : id ∉ rows.map Prod.fst) :
    (rows.foldl restoreRow out).restored.slot id = out.restored.slot id := by
  induction rows generalizing out with
  | nil => rfl
  | cons row rows ih =>
    rw [List.map_cons, List.mem_cons, not_or] at h
    rw [List.foldl_cons, ih h.2, restoreRow]
    cases decode row.2 with
    | corrupt e => rfl
    | current rec => exact RestoredSwaps.slot_add_of_ne h.1

/-- What is held for a row is what its record holds. -/
theorem slot_foldl_of_mem (hnodup : (rows.map Prod.fst).Nodup)
    (hout : ∀ row ∈ rows, out.restored.slot row.1 = (.none, .none, .none))
    {row : SwapId × Bytes} (hrow : row ∈ rows) :
    (rows.foldl restoreRow out).restored.slot row.1 =
      ((recordOf row).map PersistedSwap.slot).getD (.none, .none, .none) := by
  induction rows generalizing out with
  | nil => cases hrow
  | cons first rows ih =>
    rw [List.map_cons, List.nodup_cons] at hnodup
    rw [List.foldl_cons]
    rcases List.mem_cons.mp hrow with rfl | hmem
    · rw [slot_foldl_of_notMem hnodup.1, restoreRow, recordOf]
      have hempty := hout row List.mem_cons_self
      cases decode row.2 with
      | corrupt e => exact hempty
      | current rec => exact RestoredSwaps.slot_add_self hempty
    · refine ih hnodup.2 (fun row' hrow' => ?_) hmem
      have hne : row'.1 ≠ first.1 := by
        intro heq
        exact hnodup.1 (heq ▸ List.mem_map_of_mem hrow')
      have hempty := hout row' (List.mem_cons_of_mem _ hrow')
      rw [restoreRow]
      cases decode first.2 with
      | corrupt e => exact hempty
      | current rec => exact (RestoredSwaps.slot_add_of_ne hne).trans hempty

/-- The writes of what is set aside do not overwrite each other. -/
theorem mem_foldl_quarantineSwap {channel : ChannelId} (qs : List (SwapId × Bytes × RecordError))
    (db : PeerDb) (hnodup : (qs.map Prod.fst).Nodup) {q : SwapId × Bytes × RecordError}
    (h : q ∈ qs ∨ q.1 ∉ qs.map Prod.fst ∧
      (quarantineKey channel q.1, q.2.1) ∈ db.quarantine.entries) :
    (quarantineKey channel q.1, q.2.1) ∈ (qs.foldl (fun db q =>
      db.quarantineSwap channel q.1 q.2.1) db).quarantine.entries := by
  induction qs generalizing db with
  | nil => exact h.elim nofun fun h => h.2
  | cons first qs ih =>
    rw [List.map_cons, List.nodup_cons] at hnodup
    refine ih _ hnodup.2 ?_
    simp only [PeerDb.quarantineSwap, Table.mem_insert]
    rcases h with h | ⟨hnot, hmem⟩
    · rcases List.mem_cons.mp h with rfl | h
      · exact .inr ⟨hnodup.1, .inl rfl⟩
      · exact .inl h
    · rw [List.map_cons, List.mem_cons, not_or] at hnot
      refine .inr ⟨hnot.2, .inr ⟨hmem, fun heq => hnot.1 ?_⟩⟩
      exact Bytes32.ext (List.cons.inj heq).2

private theorem swaps_foldl_quarantineSwap {channel : ChannelId}
    (qs : List (SwapId × Bytes × RecordError)) (db : PeerDb) :
    (qs.foldl (fun db q => db.quarantineSwap channel q.1 q.2.1) db).swaps = db.swaps := by
  induction qs generalizing db with
  | nil => rfl
  | cons q qs ih => exact ih _

end Restoring

structure Restores (out : RestoredSwaps) (id : SwapId) (rec : PersistedSwap) : Prop where
  slot : out.slot id = rec.slot
  refund : ∀ r ∈ rec.pendingRefund, r ∈ out.pendingRefunds
  claim : ∀ r ∈ rec.pendingClaim, r ∈ out.pendingClaims

/-- Every row is restored whole or set aside with its bytes, and never both; nothing is restored
twice or from elsewhere. -/
structure Splits (rows : List (SwapId × Bytes)) (out : Restoring) : Prop where
  each : ∀ row ∈ rows,
    (∃ rec, decode row.2 = .current rec ∧ Restores out.restored row.1 rec ∧
      ∀ q ∈ out.quarantined, q.1 ≠ row.1) ∨
    ∃ e, decode row.2 = .corrupt e ∧ (row.1, row.2, e) ∈ out.quarantined ∧
      out.restored.slot row.1 = (none, none, none)
  refunds : out.restored.pendingRefunds =
    rows.filterMap fun row => (recordOf row).bind (·.pendingRefund)
  claims : out.restored.pendingClaims =
    rows.filterMap fun row => (recordOf row).bind (·.pendingClaim)
  quarantined : out.quarantined = rows.filterMap corruptOf
  others : ∀ id, id ∉ rows.map Prod.fst → out.restored.slot id = (none, none, none)

section Splitting

variable {rows : List (SwapId × Bytes)}

theorem corruptOf_eq_some {row : SwapId × Bytes} {q : SwapId × Bytes × RecordError} :
    corruptOf row = some q ↔ decode row.2 = .corrupt q.2.2 ∧ q.1 = row.1 ∧ q.2.1 = row.2 := by
  obtain ⟨id, raw, e⟩ := q
  rw [corruptOf]
  cases decode row.2 with
  | current rec => simp
  | corrupt e' =>
    simp only [Option.some.injEq, Prod.mk.injEq, DecodeOutcome.corrupt.injEq]
    constructor
    · rintro ⟨rfl, rfl, rfl⟩
      exact ⟨rfl, rfl, rfl⟩
    · rintro ⟨rfl, rfl, rfl⟩
      exact ⟨rfl, rfl, rfl⟩

private theorem eq_of_fst_eq (hnodup : (rows.map Prod.fst).Nodup) {row row' : SwapId × Bytes}
    (hrow : row ∈ rows) (hrow' : row' ∈ rows) (h : row.1 = row'.1) : row = row' :=
  List.inj_on_of_nodup_map hnodup hrow hrow' h

theorem splits_restoreRows (hnodup : (rows.map Prod.fst).Nodup) :
    Splits rows (restoreRows rows) := by
  obtain ⟨hrefunds, hclaims, hcorrupt⟩ := foldl_restoreRow rows ⟨.none, []⟩
  have hempty : ∀ id, RestoredSwaps.none.slot id = (none, none, none) := fun _ => rfl
  have hslot : ∀ row ∈ rows, (restoreRows rows).restored.slot row.1 =
      ((recordOf row).map PersistedSwap.slot).getD (none, none, none) :=
    fun row hrow => slot_foldl_of_mem hnodup (fun row' _ => hempty row'.1) hrow
  refine ⟨fun row hrow => ?_, hrefunds, hclaims, hcorrupt, fun id hid => ?_⟩
  · cases hdecode : decode row.2 with
    | current rec =>
      have hrecord : recordOf row = some rec := by rw [recordOf, hdecode]
      refine .inl ⟨rec, rfl, ⟨?_, fun r hr => ?_, fun r hr => ?_⟩, fun q hq heq => ?_⟩
      · rw [hslot row hrow, hrecord]
        rfl
      · rw [restoreRows, hrefunds, List.mem_append, List.mem_filterMap]
        exact .inr ⟨row, hrow, by rw [hrecord]; exact hr⟩
      · rw [restoreRows, hclaims, List.mem_append, List.mem_filterMap]
        exact .inr ⟨row, hrow, by rw [hrecord]; exact hr⟩
      · rw [restoreRows, hcorrupt, List.nil_append, List.mem_filterMap] at hq
        obtain ⟨row', hrow', hq⟩ := hq
        obtain ⟨hcorrupt', hid, -⟩ := corruptOf_eq_some.mp hq
        obtain rfl := eq_of_fst_eq hnodup hrow' hrow (hid.symm.trans heq)
        rw [hdecode] at hcorrupt'
        cases hcorrupt'
    | corrupt e =>
      have hrecord : recordOf row = none := by rw [recordOf, hdecode]
      refine .inr ⟨e, rfl, ?_, ?_⟩
      · rw [restoreRows, hcorrupt, List.nil_append, List.mem_filterMap]
        exact ⟨row, hrow, corruptOf_eq_some.mpr ⟨hdecode, rfl, rfl⟩⟩
      · rw [hslot row hrow, hrecord]
        rfl
  · exact (slot_foldl_of_notMem hid).trans (hempty id)

end Splitting

/-- What is set aside goes to the table for it, and the rows stay where they are. -/
structure SetAside (db : PeerDb) (channel : ChannelId) : Prop where
  kept : (db.restore channel).2.swaps = db.swaps
  written : ∀ q ∈ (restoreRows (db.getSwapsForChannel channel)).quarantined,
    (quarantineKey channel q.1, q.2.1) ∈ (db.restore channel).2.quarantine.entries

private theorem setAside_after (ops : List StoreOp) (channel : ChannelId) :
    SetAside (PeerDb.after ops) channel := by
  have hloads := loads_getSwapsForChannel ops channel
  refine ⟨swaps_foldl_quarantineSwap _ _, fun q hq => ?_⟩
  refine mem_foldl_quarantineSwap _ _ ?_ (.inl hq)
  rw [(splits_restoreRows hloads.once).quarantined, List.Nodup, List.pairwise_map,
    List.pairwise_filterMap]
  have honce := hloads.once
  rw [List.Nodup, List.pairwise_map] at honce
  refine honce.imp fun {row row'} hne x hx y hy => ?_
  rw [(corruptOf_eq_some.mp hx).2.1, (corruptOf_eq_some.mp hy).2.1]
  exact hne

def rowsOf (ops : List StoreOp) (channel : ChannelId) : SwapRows := fun id =>
  (latest ops channel id).bind fun record => recordOf (id, record)

/-- A channel saves what is left to keep of a swap, and deletes the row when there is nothing. -/
def persistOps (channel : ChannelId) (id : SwapId) (rec : PersistedSwap) : List StoreOp :=
  if rec.isEmpty then [.delete channel id]
  else
    match Record.encode rec with
    | .ok bytes => [.save channel id bytes]
    | .error _ => []

/-- To the channel it is as if the records themselves were stored. -/
theorem rowsOf_persistOps (ops : List StoreOp) (channel : ChannelId) (id : SwapId)
    {rec : PersistedSwap} (hfits : Fits rec) :
    rowsOf (ops ++ persistOps channel id rec) channel = (rowsOf ops channel).persist id rec := by
  obtain ⟨bytes, hbytes⟩ := encode_eq_ok_iff_fits.mpr hfits
  funext id'
  simp only [rowsOf, persistOps, SwapRows.persist, hbytes]
  by_cases heq : id' = id
  · subst heq
    split_ifs
    · rw [latest_concat, StoreOp.row, if_pos rfl, Function.update_self]
      rfl
    · rw [latest_concat, StoreOp.row, if_pos rfl, Function.update_self]
      simp [StoreOp.record, recordOf, decode_eq_current.mpr hbytes]
  · have hne : some (channel, id) ≠ some (channel, id') := fun h => heq (by cases h; rfl)
    split_ifs
    · rw [latest_concat, StoreOp.row, if_neg hne, Function.update_of_ne heq, rowsOf]
    · rw [latest_concat, StoreOp.row, if_neg hne, Function.update_of_ne heq, rowsOf]

/-- What is restored from the bytes is what the records themselves would give, in the order of the
scan. -/
theorem restored_eq_restore (ops : List StoreOp) (channel : ChannelId) :
    (restoreRows ((PeerDb.after ops).getSwapsForChannel channel)).restored =
      restore (rowsOf ops channel)
        (((PeerDb.after ops).getSwapsForChannel channel).map Prod.fst) := by
  obtain ⟨hexactly, honce⟩ := loads_getSwapsForChannel ops channel
  generalize (PeerDb.after ops).getSwapsForChannel channel = rows at hexactly honce ⊢
  have hsplits := splits_restoreRows honce
  have hrow : ∀ row ∈ rows, rowsOf ops channel row.1 = recordOf row := by
    intro row hmem
    rw [rowsOf, (hexactly row.1 row.2).mp hmem]
    rfl
  have hlist : ∀ {α : Type} (f : PersistedSwap → Option α),
      rows.filterMap (fun row => (recordOf row).bind f) =
        (rows.map Prod.fst).filterMap fun id => (rowsOf ops channel id).bind f := by
    intro α f
    rw [List.filterMap_map]
    refine List.filterMap_congr fun row hmem => ?_
    rw [Function.comp_apply, hrow row hmem]
  have hslot : ∀ id, (restoreRows rows).restored.slot id =
      (restore (rowsOf ops channel) (rows.map Prod.fst)).slot id := by
    intro id
    by_cases hid : id ∈ rows.map Prod.fst
    · obtain ⟨row, hmem, rfl⟩ := List.mem_map.mp hid
      rw [restoreRows, slot_foldl_of_mem honce (fun _ _ => rfl) hmem]
      simp only [RestoredSwaps.slot, restore, if_pos hid, hrow row hmem]
      cases recordOf row <;> rfl
    · rw [hsplits.others id hid]
      simp [RestoredSwaps.slot, restore, hid]
  have hrefunds := hsplits.refunds.trans (hlist (·.pendingRefund))
  have hclaims := hsplits.claims.trans (hlist (·.pendingClaim))
  have hscripts : (restoreRows rows).restored.scripts =
      (restore (rowsOf ops channel) (rows.map Prod.fst)).scripts :=
    funext fun id => congrArg Prod.fst (hslot id)
  have hclaimAttempts : (restoreRows rows).restored.claimAttempts =
      (restore (rowsOf ops channel) (rows.map Prod.fst)).claimAttempts :=
    funext fun id => congrArg (·.2.1) (hslot id)
  have hrefundAttempts : (restoreRows rows).restored.refundAttempts =
      (restore (rowsOf ops channel) (rows.map Prod.fst)).refundAttempts :=
    funext fun id => congrArg (·.2.2) (hslot id)
  cases hrestored : (restoreRows rows).restored with
  | mk scripts refunds claims claimAttempts refundAttempts =>
    rw [hrestored] at hrefunds hclaims hscripts hclaimAttempts hrefundAttempts
    simp only at hrefunds hclaims hscripts hclaimAttempts hrefundAttempts
    rw [hrefunds, hclaims, hscripts, hclaimAttempts, hrefundAttempts]
    rfl

/-- For every sequence of operations over any channels and swaps: the load of a channel returns the
latest record of each of its swaps; a record is read exactly from its own encoding, which it has
whenever its lengths fit the format; and a restart splits the rows of a channel into those that are
restored whole and those that are set aside. -/
theorem swap_store_round_trip (ops : List StoreOp) (channel : ChannelId) :
    Loads ops channel ((PeerDb.after ops).getSwapsForChannel channel) ∧
    (∀ swap bytes, Record.encode swap = .ok bytes → decode bytes = .current swap) ∧
    (∀ swap, (∃ bytes, Record.encode swap = .ok bytes) ↔ Fits swap) ∧
    (∀ bytes swap, decode bytes = .current swap → Record.encode swap = .ok bytes) ∧
    Splits ((PeerDb.after ops).getSwapsForChannel channel)
      (restoreRows ((PeerDb.after ops).getSwapsForChannel channel)) ∧
    SetAside (PeerDb.after ops) channel :=
  ⟨loads_getSwapsForChannel ops channel, fun _ _ h => decode_eq_current.mpr h,
    fun _ => encode_eq_ok_iff_fits, fun _ _ h => decode_eq_current.mp h,
    splits_restoreRows (loads_getSwapsForChannel ops channel).once, setAside_after ops channel⟩

end Stroemnet
