import Stroemnet.BlockCoverage
import Stroemnet.Restart

/-! # The cursor of an account chain

A poll fetches logs, saves its cursor, and only then tracks the events of the logs one by one.
A process that stops in between has moved its cursor over events that it never tracked. -/
namespace Stroemnet.Evm

variable {RpcLog : Type}

inductive PollPhase (RpcLog : Type)
  | idle
  | fetched (logs : List RpcLog)
  | tracking (logs : List RpcLog)
  | dead (logs : List RpcLog)

/-- A channel in the middle of a poll, with the logs whose events were tracked so far. -/
structure Buffer (RpcLog : Type) where
  state : State
  phase : PollPhase RpcLog
  tracked : List RpcLog

inductive BufferInput (RpcLog : Type)
  | fetch (now : UInt64) (rpc : Rpc RpcLog)
  | save
  | track (now : UInt64)
  | finish (now : UInt64) (blockTimestamp : Option UInt64)
  | emit (now : UInt64) (sent : Except DataError Unit) (event : ChainEvent)
  | settled (k : ActionKey)
  | failed (k : ActionKey) (now : UInt64)
  | stop (boot : Boot)

namespace Buffer

variable (codec : LogCodec RpcLog) (cfg : Config)

/-- The stages of `pollFinalized` one at a time, with everything that may come in between; a stop
is followed by a restart. -/
def step (b : Buffer RpcLog) : BufferInput RpcLog → Buffer RpcLog
  | .fetch now rpc =>
    match b.phase with
    | .idle =>
      if now < b.state.nextPollSecs then b
      else
        let (logs, poll) :=
          b.state.poll.pollOnce rpc cfg.minimumBlockConfirmations cfg.maxBlocksPerPoll
        { b with
          state := { b.state with nextPollSecs := now + cfg.pollIntervalSecs, poll := poll }
          phase := .fetched logs }
    | _ => b
  | .save =>
    match b.phase with
    | .fetched logs =>
      { b with
        state := { b.state with storedCursor := some b.state.poll.cursor }
        phase := .tracking logs }
    | _ => b
  | .track now =>
    match b.phase with
    | .tracking (log :: logs) =>
      match decodeLog codec cfg.keccak256 log cfg.channelId with
      | .error _ => { b with phase := .dead (log :: logs) }
      | .ok none => { b with phase := .tracking logs }
      | .ok (some event) =>
        { state := b.state.trackActionableEvent cfg now event
          phase := .tracking logs
          tracked := b.tracked ++ [log] }
    | _ => b
  | .finish now blockTimestamp =>
    match b.phase with
    | .tracking [] =>
      match blockTimestamp with
      | some ts =>
        { b with state := { b.state with lastBlockTs := some (ts, now) }, phase := .idle }
      | none => { b with phase := .idle }
    | _ => b
  | .emit now sent event => { b with state := (b.state.emitEvent cfg now sent event).2 }
  | .settled k => { b with state := b.state.recordSuccess k }
  | .failed k now => { b with state := b.state.recordFailure k now }
  | .stop boot => { b with state := connect cfg boot b.state, phase := .idle }

def pollInputs (now : UInt64) (rpc : Rpc RpcLog) (logs : List RpcLog) :
    List (BufferInput RpcLog) :=
  [.fetch now rpc, .save] ++ logs.map (fun _ => .track now) ++ [.finish now rpc.blockTimestamp]

variable {codec cfg} {b : Buffer RpcLog}

theorem final_track {now : UInt64} {logs : List RpcLog} {st st' : State}
    {events events' : List (ChannelId × ChainEvent)} (tracked : List RpcLog)
    (h : State.trackLogs codec cfg now logs st events = (.ok events', st')) :
    ∃ tracked', Runs.final (step codec cfg) ⟨st, .tracking logs, tracked⟩
      (logs.map fun _ => .track now) = ⟨st', .tracking [], tracked'⟩ := by
  induction logs generalizing st events tracked with
  | nil =>
    cases h
    exact ⟨tracked, rfl⟩
  | cons log logs ih =>
    rw [State.trackLogs] at h
    rw [List.map_cons, Runs.final_cons]
    split at h
    · cases h
    · rename_i hlog
      simp only [step, hlog]
      exact ih tracked h
    · rename_i event hlog
      simp only [step, hlog]
      exact ih (tracked ++ [log]) h

/-- Without a stop the stages come to what a whole poll does. -/
theorem final_pollInputs {now : UInt64} {rpc : Rpc RpcLog} {st : State}
    {events : List (ChannelId × ChainEvent)} (hidle : b.phase = .idle)
    (hdue : b.state.nextPollSecs ≤ now)
    (hok : b.state.pollFinalized codec cfg now rpc = (.ok events, st)) :
    ∃ tracked, Runs.final (step codec cfg) b (pollInputs now rpc (b.state.fetched cfg rpc)) =
      ⟨st, .idle, tracked⟩ := by
  obtain ⟨state, phase, tracked⟩ := b
  subst hidle
  simp only [State.pollFinalized, if_neg (UInt64.not_lt.mpr hdue)] at hok
  split at hok
  · cases hok
  · rename_i events' st' htrack
    obtain ⟨tracked', hfinal⟩ := final_track tracked htrack
    refine ⟨tracked', ?_⟩
    rw [pollInputs, Runs.final_append, Runs.final_append]
    simp only [Runs.final_cons, Runs.final_nil, step, if_neg (UInt64.not_lt.mpr hdue)]
    rw [State.fetched, hfinal]
    cases hts : rpc.blockTimestamp with
    | some ts =>
      rw [hts] at hok
      cases hok
      rfl
    | none =>
      rw [hts] at hok
      cases hok
      rfl

def IsEvent (codec : LogCodec RpcLog) (cfg : Config) (log : RpcLog) : Prop :=
  ∃ e, decodeLog codec cfg.keccak256 log cfg.channelId = .ok (some e)

def Waiting (b : Buffer RpcLog) (log : RpcLog) : Prop :=
  match b.phase with
  | .tracking logs => log ∈ logs
  | .dead logs => log ∈ logs
  | _ => False

def Done (codec : LogCodec RpcLog) (cfg : Config) (b : Buffer RpcLog) (log : RpcLog) : Prop :=
  log ∈ b.tracked ∨ ¬ IsEvent codec cfg log

/-- The chain answers with all logs of a range. -/
def Honest (logsAt : ℕ → List RpcLog) (rpc : Rpc RpcLog) : Prop :=
  ∀ lo hi logs, rpc.getLogs lo hi = some logs →
    ∀ i, lo.toNat ≤ i → i ≤ hi.toNat → ∀ log ∈ logsAt i, log ∈ logs

/-- A stop before which no log with an event waits, once a cursor is stored. -/
def StopsSafely (codec : LogCodec RpcLog) (cfg : Config) (logsAt : ℕ → List RpcLog)
    (b : Buffer RpcLog) : BufferInput RpcLog → Prop
  | .fetch _ rpc => Honest logsAt rpc
  | .stop _ => b.state.storedCursor.isSome ∧ ∀ log, b.Waiting log → ¬ IsEvent codec cfg log
  | _ => True

/-- At a stop, every event is tracked, or stands at the stored cursor or after it and the
restarted channel reads on from there. -/
def KeptAtStop (codec : LogCodec RpcLog) (cfg : Config) (logsAt : ℕ → List RpcLog) (base : UInt64)
    (b : Buffer RpcLog) : BufferInput RpcLog → Prop
  | .stop boot => ∀ i, base.toNat ≤ i → ∀ log ∈ logsAt i, IsEvent codec cfg log →
      log ∈ b.tracked ∨ ∃ c, b.state.storedCursor = some c ∧ c.toNat ≤ i ∧
        (b.step codec cfg (.stop boot)).state.poll.cursor = c
  | _ => True

/-- What is behind the stored cursor is done or waits, and the next poll starts there. -/
structure Intact (codec : LogCodec RpcLog) (cfg : Config) (logsAt : ℕ → List RpcLog)
    (base : UInt64) (b : Buffer RpcLog) : Prop where
  covered : Streams.Covered logsAt (b.Done codec cfg) b.Waiting base.toNat
    (b.state.storedCursor.getD base).toNat
  cursor : (∀ logs, b.phase ≠ .fetched logs) →
    b.state.poll.cursor = b.state.storedCursor.getD base
  fetched : ∀ logs, b.phase = .fetched logs → ∀ i, (b.state.storedCursor.getD base).toNat ≤ i →
    i < b.state.poll.cursor.toNat → ∀ log ∈ logsAt i, log ∈ logs

end Buffer

namespace Buffer

variable {codec : LogCodec RpcLog} {cfg : Config} {b : Buffer RpcLog} {logsAt : ℕ → List RpcLog}
  {base : UInt64}

/-- A poll fetches every log between the old cursor and the new one. -/
theorem fetched_pollOnce {s : PollState} {rpc : Rpc RpcLog} (hrpc : Honest logsAt rpc)
    (confirmations max : UInt64) :
    ∀ i, s.cursor.toNat ≤ i → i < (s.pollOnce rpc confirmations max).2.cursor.toNat →
      ∀ log ∈ logsAt i, log ∈ (s.pollOnce rpc confirmations max).1 := by
  intro i hlo hhi log hlog
  rcases PollState.poll_cases s rpc confirmations max with
    ⟨-, hsame⟩ | ⟨head, start, stop, logs, -, hrange, hlogs, -, hpolled⟩
  · rw [hsame] at hhi
    exact absurd hhi (Nat.not_lt.mpr hlo)
  · obtain ⟨rfl, -, -, -, -, hlt, hpred⟩ := PollState.nextRange_spec hrange
    rw [hpolled] at hhi ⊢
    have hstop : i < stop.toNat := hhi
    exact hrpc _ _ logs hlogs i hlo (by omega) log hlog

/-- Steps that leave the cursors and the phase alone keep everything. -/
theorem Intact.congr (h : b.Intact codec cfg logsAt base) {st : State}
    (hpoll : st.poll = b.state.poll) (hstored : st.storedCursor = b.state.storedCursor) :
    Intact codec cfg logsAt base { b with state := st } := by
  obtain ⟨hcovered, hcursor, hfetched⟩ := h
  refine ⟨?_, ?_, ?_⟩
  · rw [hstored]
    exact hcovered
  · rw [hstored, hpoll]
    exact hcursor
  · rw [hstored, hpoll]
    exact hfetched

private theorem emitEvent_frame (cfg : Config) (st : State) (now : UInt64)
    (sent : Except DataError Unit)
    (event : ChainEvent) : (st.emitEvent cfg now sent event).2.poll = st.poll ∧
      (st.emitEvent cfg now sent event).2.storedCursor = st.storedCursor := by
  cases event with
  | commitment c =>
    simp only [State.emitEvent]
    split_ifs
    · split <;> exact ⟨rfl, rfl⟩
    · exact ⟨rfl, rfl⟩
  | reveal r =>
    simp only [State.emitEvent]
    split_ifs <;> exact ⟨rfl, rfl⟩
  | refund r => exact ⟨rfl, rfl⟩

theorem recordSuccess_frame (st : State) (k : ActionKey) :
    (st.recordSuccess k).poll = st.poll ∧
      (st.recordSuccess k).storedCursor = st.storedCursor := by
  obtain ⟨id, action⟩ := k
  cases action <;> exact ⟨rfl, rfl⟩

private theorem trackActionableEvent_frame (cfg : Config) (st : State) (now : UInt64)
    (event : ChainEvent) :
    (st.trackActionableEvent cfg now event).poll = st.poll ∧
      (st.trackActionableEvent cfg now event).storedCursor = st.storedCursor := by
  cases event with
  | commitment c =>
    simp only [State.trackActionableEvent]
    split_ifs <;> exact ⟨rfl, rfl⟩
  | reveal r => exact ⟨rfl, rfl⟩
  | refund r => exact ⟨rfl, rfl⟩

/-- After a restart the poll goes on at the stored cursor. -/
theorem connect_frame (cfg : Config) (boot : Boot) {st : State} {c : UInt64}
    (h : st.storedCursor = some c) :
    (connect cfg boot st).poll.cursor = c ∧ (connect cfg boot st).storedCursor = some c := by
  have hfold : ∀ (keys : List ActionKey) (st : State),
      (keys.foldl State.recordSuccess st).poll = st.poll ∧
        (keys.foldl State.recordSuccess st).storedCursor = st.storedCursor := by
    intro keys
    induction keys with
    | nil => exact fun st => ⟨rfl, rfl⟩
    | cons k keys ih =>
      intro st
      obtain ⟨hpoll, hstored⟩ := ih (st.recordSuccess k)
      obtain ⟨hpoll', hstored'⟩ := recordSuccess_frame st k
      exact ⟨hpoll.trans hpoll', hstored.trans hstored'⟩
  unfold connect
  obtain ⟨hpoll, hstored⟩ := hfold (reconciled boot st.rows) _
  rw [hpoll, hstored, h]
  exact ⟨rfl, rfl⟩

theorem Intact.fetch (h : b.Intact codec cfg logsAt base) (now : UInt64) {rpc : Rpc RpcLog}
    (hrpc : Honest logsAt rpc) :
    (b.step codec cfg (.fetch now rpc)).Intact codec cfg logsAt base := by
  obtain ⟨st, phase, tracked⟩ := b
  cases phase with
  | idle =>
    simp only [step]
    split_ifs
    · exact h
    · refine ⟨h.covered, fun hno => absurd rfl (hno _), ?_⟩
      rintro logs hlogs i hlo hhi log hlog
      cases hlogs
      have hcursor := h.cursor (by simp)
      refine fetched_pollOnce hrpc _ _ i ?_ hhi log hlog
      rw [hcursor]
      exact hlo
  | fetched logs => exact h
  | tracking logs => exact h
  | dead logs => exact h

theorem Intact.save (h : b.Intact codec cfg logsAt base) :
    (b.step codec cfg .save).Intact codec cfg logsAt base := by
  obtain ⟨st, phase, tracked⟩ := b
  cases phase with
  | fetched logs =>
    refine ⟨?_, fun _ => rfl, nofun⟩
    refine (h.covered.imp fun log hlog => ?_).extend (h.fetched logs rfl)
    exact .inl (hlog.resolve_right id)
  | idle => exact h
  | tracking logs => exact h
  | dead logs => exact h

theorem Intact.track (h : b.Intact codec cfg logsAt base) (now : UInt64) :
    (b.step codec cfg (.track now)).Intact codec cfg logsAt base := by
  obtain ⟨st, phase, tracked⟩ := b
  cases phase with
  | tracking logs =>
    cases logs with
    | nil => exact h
    | cons log logs =>
      simp only [step]
      split
      · exact ⟨h.covered, fun _ => h.cursor nofun, nofun⟩
      · rename_i hnone
        refine ⟨h.covered.imp fun x hx => ?_, fun _ => h.cursor nofun, nofun⟩
        rcases hx with hdone | hwaits
        · exact .inl hdone
        · rcases List.mem_cons.mp hwaits with rfl | hwaits
          · refine .inl (.inr ?_)
            rintro ⟨e, he⟩
            rw [hnone] at he
            cases he
          · exact .inr hwaits
      · rename_i event _
        obtain ⟨hpoll, hstored⟩ := trackActionableEvent_frame cfg st now event
        have hdone : Intact codec cfg logsAt base ⟨st, .tracking logs, tracked ++ [log]⟩ := by
          refine ⟨h.covered.imp fun x hx => ?_, fun _ => h.cursor nofun, nofun⟩
          rcases hx with (hx | hx) | hwaits
          · exact .inl (.inl (List.mem_append_left _ hx))
          · exact .inl (.inr hx)
          · rcases List.mem_cons.mp hwaits with rfl | hwaits
            · exact .inl (.inl (List.mem_append_right _ List.mem_cons_self))
            · exact .inr hwaits
        exact hdone.congr hpoll hstored
  | idle => exact h
  | fetched logs => exact h
  | dead logs => exact h

theorem Intact.finish (h : b.Intact codec cfg logsAt base) (now : UInt64)
    (blockTimestamp : Option UInt64) :
    (b.step codec cfg (.finish now blockTimestamp)).Intact codec cfg logsAt base := by
  obtain ⟨st, phase, tracked⟩ := b
  cases phase with
  | tracking logs =>
    cases logs with
    | nil =>
      have hidle : Intact codec cfg logsAt base ⟨st, .idle, tracked⟩ := by
        refine ⟨h.covered.imp fun x hx => ?_, fun _ => h.cursor nofun, nofun⟩
        exact hx.imp_right fun hnil => absurd hnil List.not_mem_nil
      cases blockTimestamp with
      | none => exact hidle
      | some ts => exact hidle.congr rfl rfl
    | cons log logs => exact h
  | idle => exact h
  | fetched logs => exact h
  | dead logs => exact h

/-- At a safe stop nothing is lost, and the restarted channel is intact. -/
theorem Intact.stop (h : b.Intact codec cfg logsAt base) (boot : Boot)
    (hsafe : b.StopsSafely codec cfg logsAt (.stop boot)) :
    b.KeptAtStop codec cfg logsAt base (.stop boot) ∧
      (b.step codec cfg (.stop boot)).Intact codec cfg logsAt base := by
  obtain ⟨hsome, hwaiting⟩ := hsafe
  obtain ⟨c, hc⟩ := Option.isSome_iff_exists.mp hsome
  have hcovered := h.covered.forall_done fun log hlog => .inr (hwaiting log hlog)
  rw [hc, Option.getD_some] at hcovered
  obtain ⟨hpoll, hstored⟩ := connect_frame cfg boot hc
  constructor
  · intro i hlo log hlog hevent
    rcases Nat.lt_or_ge i c.toNat with hlt | hge
    · rcases hcovered i hlo hlt log hlog with hdone | hfalse
      · exact .inl (hdone.resolve_right (not_not_intro hevent))
      · exact hfalse.elim
    · exact .inr ⟨c, hc, hge, hpoll⟩
  · refine ⟨?_, ?_, nofun⟩
    · simp only [step, hstored, Option.getD_some]
      exact hcovered
    · intro _
      simp only [step, hstored, Option.getD_some]
      exact hpoll

theorem Intact.step (h : b.Intact codec cfg logsAt base) {x : BufferInput RpcLog}
    (hsafe : b.StopsSafely codec cfg logsAt x) :
    b.KeptAtStop codec cfg logsAt base x ∧
      (Buffer.step codec cfg b x).Intact codec cfg logsAt base := by
  cases x with
  | fetch now rpc => exact ⟨trivial, h.fetch now hsafe⟩
  | save => exact ⟨trivial, h.save⟩
  | track now => exact ⟨trivial, h.track now⟩
  | finish now blockTimestamp => exact ⟨trivial, h.finish now blockTimestamp⟩
  | emit now sent event =>
    obtain ⟨hpoll, hstored⟩ := emitEvent_frame cfg b.state now sent event
    exact ⟨trivial, h.congr hpoll hstored⟩
  | settled k =>
    obtain ⟨hpoll, hstored⟩ := recordSuccess_frame b.state k
    exact ⟨trivial, h.congr hpoll hstored⟩
  | failed k now => exact ⟨trivial, h.congr rfl rfl⟩
  | stop boot => exact h.stop boot hsafe

/-- A channel that starts at a block, with or without a stored cursor. -/
structure Starts (base : UInt64) (b : Buffer RpcLog) : Prop where
  idle : b.phase = .idle
  stored : b.state.storedCursor = none ∨ b.state.storedCursor = some base
  cursor : b.state.poll.cursor = base

theorem Starts.intact (h : b.Starts base) : b.Intact codec cfg logsAt base := by
  have hstored : b.state.storedCursor.getD base = base := by
    rcases h.stored with hnone | hsome
    · rw [hnone]
      rfl
    · rw [hsome]
      rfl
  refine ⟨?_, fun _ => ?_, ?_⟩
  · rw [hstored]
    exact Streams.covered_self _ _ _ _
  · rw [hstored, h.cursor]
  · intro logs hlogs
    rw [h.idle] at hlogs
    cases hlogs

theorem Starts.kept (h : b.Starts base) {ins : List (BufferInput RpcLog)}
    (hsafe : Runs.Along (Buffer.step codec cfg) (StopsSafely codec cfg logsAt) b ins) :
    Runs.Along (Buffer.step codec cfg) (KeptAtStop codec cfg logsAt base) b ins :=
  hsafe.of_invariant (fun _ _ hb hx => hb.step hx) h.intact

end Buffer
end Stroemnet.Evm
