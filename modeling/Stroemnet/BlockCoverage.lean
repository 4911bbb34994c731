import Stroemnet.CoveredStreams
import Stroemnet.EvmChannel
import Stroemnet.GuardedRuns

/-! # The blocks that are polled

A poll asks for the head of the chain and then for the logs of the next range. Whatever the
answers are, the ranges that were answered follow each other from the first cursor on. -/
namespace Stroemnet.Evm.PollState

variable {RpcLog : Type}

def poll (confirmations maxBlocks : UInt64) (s : PollState) (rpc : Rpc RpcLog) : PollState :=
  (s.pollOnce rpc confirmations maxBlocks).2

/-- The same answers, with the range that was asked for in the place of the logs. -/
def asked (rpc : Rpc RpcLog) : Rpc (ℕ × ℕ) where
  blockNumber := rpc.blockNumber
  getLogs first last := (rpc.getLogs first last).map fun _ => [(first.toNat, last.toNat + 1)]
  blockTimestamp := rpc.blockTimestamp

def fetchedRange (confirmations maxBlocks : UInt64) (s : PollState) (rpc : Rpc RpcLog) :
    List (ℕ × ℕ) :=
  (s.pollOnce (asked rpc) confirmations maxBlocks).1

/-- A poll in which both requests would be answered, with a given head. -/
def Succeeds (head : UInt64) (rpc : Rpc RpcLog) : Prop :=
  rpc.blockNumber = some head ∧ ∀ start stop, (rpc.getLogs start stop).isSome

def heads (polls : List (Rpc RpcLog)) : List UInt64 := polls.filterMap (·.blockNumber)

def highest (polls : List (Rpc RpcLog)) : ℕ := (heads polls).foldr (fun h m => max h.toNat m) 0

private theorem toNat_max_one (m : UInt64) : (max m 1).toNat = max m.toNat 1 := by
  simp only [Max.max, UInt64.le_iff_toNat_le]
  split <;> simp_all

/-- What a range is, in numbers: nothing wraps around. -/
theorem nextRange_spec {s : PollState} {head confirmations maxBlocks start stop : UInt64}
    (h : s.nextRange head confirmations maxBlocks = some (start, stop)) :
    start = s.cursor ∧ confirmations ≤ head ∧
      (head - confirmations).toNat = head.toNat - confirmations.toNat ∧
      (head - confirmations + 1).toNat = head.toNat - confirmations.toNat + 1 ∧
      stop.toNat = min (head.toNat - confirmations.toNat + 1)
        (min (start.toNat + max maxBlocks.toNat 1) (2 ^ 64 - 1)) ∧
      start.toNat < stop.toNat ∧ (stop - 1).toNat = stop.toNat - 1 := by
  simp only [nextRange] at h
  split_ifs at h with hconf hmax hend
  rw [Option.some.injEq, Prod.mk.injEq] at h
  obtain ⟨rfl, rfl⟩ := h
  have hle : confirmations ≤ head := UInt64.not_lt.mp hconf
  have hsub : (head - confirmations).toNat = head.toNat - confirmations.toNat :=
    UInt64.toNat_sub_of_le _ _ hle
  have hne : head.toNat - confirmations.toNat ≠ 2 ^ 64 - 1 := by
    intro heq
    apply hmax
    apply UInt64.toNat.inj
    rw [hsub, heq]
    rfl
  have hbound := head.toNat_lt
  have hadd : (head - confirmations + 1).toNat = head.toNat - confirmations.toNat + 1 := by
    rw [UInt64.toNat_add, hsub]
    exact Nat.mod_eq_of_lt (by change _ + 1 < _; omega)
  have hlt : s.cursor.toNat < head.toNat - confirmations.toNat + 1 := by
    rw [← hadd]
    exact UInt64.lt_iff_toNat_lt.mp (UInt64.not_le.mp hend)
  have hstop : (min (head - confirmations + 1)
      (saturatingAdd s.cursor (max maxBlocks 1))).toNat =
        min (head.toNat - confirmations.toNat + 1)
          (min (s.cursor.toNat + max maxBlocks.toNat 1) (2 ^ 64 - 1)) := by
    rw [toNat_min, hadd, toNat_saturatingAdd, toNat_max_one]
  have hpos : s.cursor.toNat < (min (head - confirmations + 1)
      (saturatingAdd s.cursor (max maxBlocks 1))).toNat := by
    rw [hstop]
    omega
  refine ⟨rfl, hle, hsub, hadd, hstop, hpos, UInt64.toNat_sub_of_le _ _ ?_⟩
  rw [UInt64.le_iff_toNat_le]
  exact Nat.succ_le_of_lt (Nat.zero_lt_of_lt hpos)

variable {s : PollState} {rpc : Rpc RpcLog} {confirmations maxBlocks : UInt64}

/-- A poll fetches a range and moves the cursor to its end, or does nothing. -/
theorem poll_cases (s : PollState) (rpc : Rpc RpcLog) (confirmations maxBlocks : UInt64) :
    fetchedRange confirmations maxBlocks s rpc = [] ∧
        s.pollOnce rpc confirmations maxBlocks = ([], s) ∨
      ∃ head start stop logs, rpc.blockNumber = some head ∧
        s.nextRange head confirmations maxBlocks = some (start, stop) ∧
        rpc.getLogs start (stop - 1) = some logs ∧
        fetchedRange confirmations maxBlocks s rpc = [(start.toNat, stop.toNat)] ∧
        s.pollOnce rpc confirmations maxBlocks = (logs, ⟨stop⟩) := by
  cases hhead : rpc.blockNumber with
  | none => exact .inl (by simp [fetchedRange, asked, pollOnce, hhead])
  | some head =>
    cases hrange : s.nextRange head confirmations maxBlocks with
    | none => exact .inl (by simp [fetchedRange, asked, pollOnce, hhead, hrange])
    | some range =>
      obtain ⟨start, stop⟩ := range
      cases hlogs : rpc.getLogs start (stop - 1) with
      | none => exact .inl (by simp [fetchedRange, asked, pollOnce, hhead, hrange, hlogs])
      | some logs =>
        obtain ⟨-, -, -, -, -, hlt, hlast⟩ := nextRange_spec hrange
        have hstop : (stop - 1).toNat + 1 = stop.toNat := by omega
        exact .inr ⟨head, start, stop, logs, rfl, hrange, hlogs,
          by simp [fetchedRange, asked, pollOnce, hhead, hrange, hlogs, hstop]⟩

/-- The range of a poll goes from the old cursor to the new one. -/
theorem tiles_poll (confirmations maxBlocks : UInt64) (s : PollState) (rpc : Rpc RpcLog) :
    Streams.Tiles s.cursor.toNat (fetchedRange confirmations maxBlocks s rpc)
      (poll confirmations maxBlocks s rpc).cursor.toNat := by
  rcases poll_cases s rpc confirmations maxBlocks with
    ⟨hnone, hsame⟩ | ⟨head, start, stop, logs, -, hrange, -, hfetched, hpolled⟩
  · rw [hnone, poll, hsame]
    rfl
  · obtain ⟨rfl, -, -, -, -, hlt, -⟩ := nextRange_spec hrange
    rw [hfetched, poll, hpolled]
    exact ⟨rfl, hlt, rfl⟩

theorem tiles_run (confirmations maxBlocks : UInt64) (s : PollState) (polls : List (Rpc RpcLog)) :
    Streams.Tiles s.cursor.toNat
      (Runs.outputs (poll confirmations maxBlocks) (fetchedRange confirmations maxBlocks) s polls)
      (Runs.final (poll confirmations maxBlocks) s polls).cursor.toNat := by
  induction polls generalizing s with
  | nil => rfl
  | cons rpc polls ih => exact (tiles_poll confirmations maxBlocks s rpc).append (ih _)

private theorem le_highest {polls : List (Rpc RpcLog)} {head : UInt64} (h : head ∈ heads polls) :
    head.toNat ≤ highest polls := by
  unfold highest
  generalize heads polls = hs at h
  induction hs with
  | nil => cases h
  | cons x hs ih =>
    rcases List.mem_cons.mp h with rfl | h
    · exact Nat.le_max_left _ _
    · exact (ih h).trans (Nat.le_max_right _ _)

/-- Every range ends behind a confirmed block of a head that was seen, and is short. -/
theorem range_bounds {polls : List (Rpc RpcLog)} {r : ℕ × ℕ}
    (h : r ∈ Runs.outputs (poll confirmations maxBlocks) (fetchedRange confirmations maxBlocks) s
      polls) :
    (∃ head ∈ heads polls, r.2 ≤ head.toNat + 1 - confirmations.toNat) ∧
      r.2 - r.1 ≤ max maxBlocks.toNat 1 := by
  induction polls generalizing s with
  | nil => cases h
  | cons rpc polls ih =>
    rcases List.mem_append.mp h with h | h
    · rcases poll_cases s rpc confirmations maxBlocks with
        ⟨hnone, -⟩ | ⟨head, start, stop, logs, hhead, hrange, -, hfetched, -⟩
      · rw [hnone] at h
        cases h
      · obtain ⟨-, hle, -, -, hstop, -⟩ := nextRange_spec hrange
        rw [hfetched, List.mem_singleton] at h
        subst h
        have hconf := UInt64.le_iff_toNat_le.mp hle
        refine ⟨⟨head, ?_, ?_⟩, ?_⟩
        · exact List.mem_filterMap.mpr ⟨rpc, List.mem_cons_self, hhead⟩
        · simp only [hstop]
          omega
        · simp only [hstop]
          omega
    · obtain ⟨⟨head, hhead, hend⟩, hshort⟩ := ih h
      obtain ⟨rpc', hrpc', hsome⟩ := List.mem_filterMap.mp hhead
      exact ⟨⟨head, List.mem_filterMap.mpr ⟨rpc', List.mem_cons_of_mem _ hrpc', hsome⟩, hend⟩,
        hshort⟩

/-- The cursor stays at the end of the last range. -/
theorem final_cursor_le (s : PollState) (polls : List (Rpc RpcLog)) :
    (Runs.final (poll confirmations maxBlocks) s polls).cursor.toNat ≤
      max s.cursor.toNat (highest polls + 1 - confirmations.toNat) := by
  have htiles := tiles_run confirmations maxBlocks s polls
  rcases Nat.lt_or_ge s.cursor.toNat
    (Runs.final (poll confirmations maxBlocks) s polls).cursor.toNat with hlt | hge
  · obtain ⟨r, hr, -, hend⟩ := htiles.exists_mem (i :=
      (Runs.final (poll confirmations maxBlocks) s polls).cursor.toNat - 1) (by omega) (by omega)
    obtain ⟨⟨head, hhead, hle⟩, -⟩ := range_bounds hr
    have hhighest := le_highest hhead
    omega
  · exact hge.trans (Nat.le_max_left _ _)

/-- There is a range to fetch as long as the cursor is not behind the last confirmed block. -/
theorem nextRange_some (maxBlocks : UInt64) {head : UInt64} (hhead : confirmations ≤ head)
    (hmax : head.toNat - confirmations.toNat < 2 ^ 64 - 1)
    (hlt : s.cursor.toNat < head.toNat + 1 - confirmations.toNat) :
    ∃ start stop, s.nextRange head confirmations maxBlocks = some (start, stop) := by
  have hle := UInt64.le_iff_toNat_le.mp hhead
  have hsub : (head - confirmations).toNat = head.toNat - confirmations.toNat :=
    UInt64.toNat_sub_of_le _ _ hhead
  have hadd : (head - confirmations + 1).toNat = head.toNat - confirmations.toNat + 1 := by
    rw [UInt64.toNat_add, hsub]
    exact Nat.mod_eq_of_lt (by change _ + 1 < _; omega)
  have hne : head - confirmations ≠ UInt64.ofNat (2 ^ 64 - 1) := by
    intro heq
    rw [heq] at hsub
    exact absurd hsub.symm (Nat.ne_of_lt hmax)
  have hbefore : ¬ head - confirmations + 1 ≤ s.cursor := by
    rw [UInt64.not_le, UInt64.lt_iff_toNat_lt, hadd]
    omega
  refine ⟨s.cursor, min (head - confirmations + 1) (saturatingAdd s.cursor (max maxBlocks 1)), ?_⟩
  simp only [nextRange]
  rw [if_neg (UInt64.not_lt.mpr hhead), if_neg hne, if_neg hbefore]

/-- A successful poll moves the cursor unless it is behind the last confirmed block. -/
theorem poll_progress (maxBlocks : UInt64) {head : UInt64} (hhead : confirmations ≤ head)
    (hmax : head.toNat - confirmations.toNat < 2 ^ 64 - 1) (hrpc : Succeeds head rpc)
    (hlt : s.cursor.toNat < head.toNat + 1 - confirmations.toNat) :
    s.cursor.toNat < (poll confirmations maxBlocks s rpc).cursor.toNat := by
  obtain ⟨start, stop, hrange⟩ := nextRange_some maxBlocks hhead hmax hlt
  obtain ⟨logs, hlogs⟩ := Option.isSome_iff_exists.mp (hrpc.2 start (stop - 1))
  obtain ⟨rfl, -, -, -, -, hpos, -⟩ := nextRange_spec hrange
  simp only [poll, pollOnce, hrpc.1, hrange, hlogs]
  exact hpos

/-- Enough successful polls at one head reach the last confirmed block. -/
theorem final_cursor_ge {head : UInt64} (hhead : confirmations ≤ head)
    (hmax : head.toNat - confirmations.toNat < 2 ^ 64 - 1) {polls : List (Rpc RpcLog)}
    (hpolls : ∀ rpc ∈ polls, Succeeds head rpc)
    (hlen : head.toNat + 1 - confirmations.toNat ≤ s.cursor.toNat + polls.length) :
    head.toNat + 1 - confirmations.toNat ≤
      (Runs.final (poll confirmations maxBlocks) s polls).cursor.toNat := by
  induction polls generalizing s with
  | nil => exact hlen
  | cons rpc polls ih =>
    obtain ⟨hrpc, hpolls⟩ := List.forall_mem_cons.mp hpolls
    rw [Runs.final_cons]
    rcases Nat.lt_or_ge s.cursor.toNat (head.toNat + 1 - confirmations.toNat) with hlt | hge
    · have hprogress := poll_progress maxBlocks hhead hmax hrpc hlt
      refine ih hpolls ?_
      rw [List.length_cons] at hlen
      omega
    · exact (hge.trans (tiles_poll confirmations maxBlocks s rpc).le).trans
        (tiles_run confirmations maxBlocks _ polls).le

def fetchedRanges (confirmations maxBlocks : UInt64) (s : PollState)
    (polls : List (Rpc RpcLog)) : List (ℕ × ℕ) :=
  Runs.outputs (poll confirmations maxBlocks) (fetchedRange confirmations maxBlocks) s polls

/-- Whatever the answers are, the ranges that are fetched tile the blocks from the first cursor to
the last one; the cursor never goes back nor past the confirmed blocks; a range is short; nothing
wraps around; a failed request changes nothing; and enough successful polls reach every confirmed
block. -/
theorem polls_cover_blocks (confirmations maxBlocks : UInt64) (s : PollState)
    (polls : List (Rpc RpcLog)) :
    let last := Runs.final (poll confirmations maxBlocks) s polls
    let ranges := fetchedRanges confirmations maxBlocks s polls
    Streams.Tiles s.cursor.toNat ranges last.cursor.toNat ∧
      (ranges.Pairwise fun r r' => r.2 ≤ r'.1) ∧
      (∀ rpc : Rpc RpcLog, last.cursor ≤ (poll confirmations maxBlocks last rpc).cursor) ∧
      last.cursor.toNat ≤ max s.cursor.toNat (highest polls + 1 - confirmations.toNat) ∧
      (∀ r ∈ ranges, r.2 - r.1 ≤ max 1 maxBlocks.toNat) ∧
      (∀ head start stop, last.nextRange head confirmations maxBlocks = some (start, stop) →
        (head - confirmations).toNat + confirmations.toNat = head.toNat ∧
          (head - confirmations + 1).toNat = (head - confirmations).toNat + 1 ∧
          (stop - 1).toNat + 1 = stop.toNat) ∧
      (∀ rpc : Rpc RpcLog, rpc.blockNumber = none ∨ (∀ start stop, rpc.getLogs start stop = none) →
        poll confirmations maxBlocks last rpc = last) ∧
      ∀ head, confirmations ≤ head → head.toNat - confirmations.toNat < 2 ^ 64 - 1 →
        ∃ n, ∀ more : List (Rpc RpcLog), n ≤ more.length → (∀ rpc ∈ more, Succeeds head rpc) →
          ∀ i, s.cursor.toNat ≤ i → i ≤ head.toNat - confirmations.toNat →
            ∃ r ∈ fetchedRanges confirmations maxBlocks s (polls ++ more), r.1 ≤ i ∧ i < r.2 := by
  intro last ranges
  have htiles : Streams.Tiles s.cursor.toNat ranges last.cursor.toNat :=
    tiles_run confirmations maxBlocks s polls
  refine ⟨htiles, htiles.pairwise, fun rpc => ?_, final_cursor_le s polls, fun r hr => ?_, ?_, ?_,
    ?_⟩
  · rw [UInt64.le_iff_toNat_le]
    exact (tiles_poll confirmations maxBlocks last rpc).le
  · rw [Nat.max_comm]
    exact (range_bounds hr).2
  · intro head start stop hrange
    obtain ⟨-, hle, hsub, hadd, -, hlt, hpred⟩ := nextRange_spec hrange
    have hnat := UInt64.le_iff_toNat_le.mp hle
    exact ⟨by omega, by omega, by omega⟩
  · intro rpc hfailed
    rcases poll_cases last rpc confirmations maxBlocks with
      ⟨-, hsame⟩ | ⟨head, start, stop, logs, hhead, -, hlogs, -⟩
    · rw [poll, hsame]
    · rcases hfailed with hnone | hnone
      · rw [hnone] at hhead
        cases hhead
      · rw [hnone] at hlogs
        cases hlogs
  · intro head hhead hmax
    refine ⟨head.toNat + 1 - confirmations.toNat - last.cursor.toNat, ?_⟩
    intro more hlen hmore i hlo hhi
    have hreach : head.toNat + 1 - confirmations.toNat ≤
        (Runs.final (poll confirmations maxBlocks) last more).cursor.toNat :=
      final_cursor_ge hhead hmax hmore (by omega)
    have hall := tiles_run confirmations maxBlocks s (polls ++ more)
    rw [Runs.final_append] at hall
    have hnat := UInt64.le_iff_toNat_le.mp hhead
    exact hall.exists_mem hlo (by change _ < (Runs.final _ last more).cursor.toNat; omega)

end Stroemnet.Evm.PollState
