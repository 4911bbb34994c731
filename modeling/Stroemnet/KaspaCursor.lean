import Stroemnet.AcceptedTransactions
import Stroemnet.EvmCursor
import Stroemnet.IntakeOrder

/-! # The cursor of the UTXO chain

The intake hands confirmed blocks to an in-memory channel and then saves its cursor; another
task takes the blocks out of the channel and tracks their events. A process that stops while
blocks are under way has moved its cursor over events that it never tracked. -/
namespace Stroemnet.Kaspa
open Script Htlc

/-- The two tasks of a channel in the middle of their work. -/
structure Buffer where
  intake : Intake
  storedCursor : Option Bytes32
  /-- The blocks that are still to be handed over, and the cursor that is set after them. -/
  sending : Option (List Block × Option Bytes32)
  state : State
  /-- The blocks that a poll has taken out of the channel. -/
  inFlight : List Block
  /-- The block that is being tracked, and the events of it that are left. -/
  current : Option (Block × List ChainEvent)
  /-- The first cursor that was ever stored. -/
  first : Option Bytes32
  /-- The blocks whose events were all tracked, or that had none at a stop. -/
  handled : List Block

inductive BufferInput
  | read (rpc : IntakeRpc)
  | send
  | setCursor
  | drain
  | decode (now : UInt64)
  | track
  | prune (now : UInt64)
  | announce (now : UInt64) (address : String) (redeem : Bytes) (id : SwapId) (unlockTs : UInt64)
      (target : String)
  | emit (now : UInt64) (network : Except KaspaError Network) (event : ChainEvent)
  | failed (k : ActionKey) (now : UInt64)
  | stop (boot : Boot)

namespace Buffer

variable (cfg : Config)

def eventsOf (scripts : WatchedScripts) (block : Block) : List ChainEvent :=
  match (handleBlockAdded cfg block scripts).1 with
  | .ok outcomes => outcomes.events
  | .error _ => []

/-- The events of a block that are left to track. -/
def remaining (b : Buffer) (block : Block) : List ChainEvent :=
  match b.current with
  | some (x, events) => if x = block then events else eventsOf cfg b.state.utxoScripts block
  | none => eventsOf cfg b.state.utxoScripts block

def waiting (b : Buffer) : List Block :=
  (b.current.map Prod.fst).toList ++ b.inFlight ++ b.state.safeBlocks

/-- The stages of the intake and of `pollFinalized` one at a time, with everything that may come
in between; a stop is followed by a restart. -/
def step (b : Buffer) : BufferInput → Buffer
  | .read rpc =>
    match b.sending with
    | some _ => b
    | none =>
      let (_, sent, intake) := b.intake.pollOnce rpc
      { b with
        intake := { intake with cursor := b.intake.cursor }
        sending :=
          some (sent, if intake.cursor = b.intake.cursor then none else intake.cursor) }
  | .send =>
    match b.sending with
    | some (block :: rest, cursor) =>
      { b with
        sending := some (rest, cursor)
        state := { b.state with safeBlocks := b.state.safeBlocks ++ [block] } }
    | _ => b
  | .setCursor =>
    match b.sending with
    | some ([], some hash) =>
      { b with
        sending := none
        intake := { b.intake with cursor := some hash }
        storedCursor := some hash
        first := some (b.first.getD hash) }
    | some ([], none) => { b with sending := none }
    | _ => b
  | .drain =>
    match b.inFlight, b.current with
    | [], none =>
      { b with inFlight := b.state.safeBlocks, state := { b.state with safeBlocks := [] } }
    | _, _ => b
  | .decode now =>
    match b.inFlight, b.current with
    | block :: rest, none =>
      match handleBlockAdded cfg block b.state.utxoScripts with
      | (.error _, scripts) =>
        { b with state := { b.state with utxoScripts := scripts }, inFlight := [] }
      | (.ok outcomes, scripts) =>
        let st := { b.state with utxoScripts := scripts }
        { b with
          state := if cfg.participateCcr then outcomes.refunds.foldl (State.scheduleRefund now) st
            else st
          inFlight := rest
          current := some (block, outcomes.events) }
    | _, _ => b
  | .track =>
    match b.current with
    | some (block, event :: events) =>
      { b with
        state := b.state.trackActionableEvent cfg event
        current := some (block, events) }
    | some (block, []) => { b with current := none, handled := b.handled ++ [block] }
    | none => b
  | .prune now =>
    match b.inFlight, b.current with
    | [], none => { b with state := b.state.pruneScripts cfg now }
    | _, _ => b
  | .announce now address redeem id unlockTs target =>
    { b with state := (b.state.registerScript cfg now address redeem id unlockTs target).2 }
  | .emit now network event => { b with state := (b.state.emitEvent cfg now network event).2 }
  | .failed k now => { b with state := b.state.recordFailure k now }
  | .stop boot =>
    { intake := .new b.intake.minimumBlockConfirmations b.storedCursor
      storedCursor := b.storedCursor
      sending := none
      state := connect cfg boot b.state
      inFlight := []
      current := none
      first := b.first
      handled := b.handled ++ b.waiting.filter fun block => b.remaining cfg block = [] }

end Buffer

namespace Buffer

variable {cfg : Config} {b : Buffer}

private theorem final_send (blocks : List Block) (cursor : Option Bytes32)
    (hsend : b.sending = some (blocks, cursor)) :
    Runs.final (step cfg) b (blocks.map fun _ => .send) =
      { b with
        sending := some ([], cursor)
        state := { b.state with safeBlocks := b.state.safeBlocks ++ blocks } } := by
  induction blocks generalizing b with
  | nil =>
    rw [List.append_nil, ← hsend]
    rfl
  | cons block blocks ih =>
    rw [List.map_cons, Runs.final_cons]
    simp only [step, hsend]
    rw [ih rfl]
    simp

/-- Without a stop the stages of the intake come to what its whole poll does. -/
theorem final_read (rpc : IntakeRpc) (hidle : b.sending = none)
    (hcursor : b.storedCursor = b.intake.cursor) :
    ∃ first, Runs.final (step cfg) b
        ([.read rpc] ++ (b.intake.pollOnce rpc).2.1.map (fun _ => .send) ++ [.setCursor]) =
      { b with
        intake := (b.intake.pollOnce rpc).2.2
        storedCursor := (b.intake.pollOnce rpc).2.2.cursor
        first := first
        state :=
          { b.state with safeBlocks := b.state.safeBlocks ++ (b.intake.pollOnce rpc).2.1 } } := by
  rw [Runs.final_append, Runs.final_append]
  simp only [Runs.final_cons, Runs.final_nil]
  conv => enter [1, first, 1, 2, 2]; rw [step, hidle]
  rw [final_send _ _ rfl]
  by_cases hsame : (b.intake.pollOnce rpc).2.2.cursor = b.intake.cursor
  · refine ⟨b.first, ?_⟩
    simp only [step, if_pos hsame, ← hidle]
    rw [hcursor, ← hsame]
  · obtain ⟨hash, hmoved⟩ := Intake.pollOnce_moved hsame
    refine ⟨some (b.first.getD hash), ?_⟩
    have hdiff : ¬ (some hash = b.intake.cursor) := fun heq => hsame (hmoved.trans heq)
    simp only [step, hmoved, if_neg hdiff, ← hidle]
    rw [← hmoved]

theorem final_track (block : Block) (events : List ChainEvent)
    (hcurrent : b.current = some (block, events)) :
    Runs.final (step cfg) b ((events.map fun _ => .track) ++ [.track]) =
      { b with
        state := events.foldl (State.trackActionableEvent cfg) b.state
        current := none
        handled := b.handled ++ [block] } := by
  induction events generalizing b with
  | nil =>
    simp only [List.map_nil, List.nil_append, Runs.final_cons, Runs.final_nil, step, hcurrent,
      List.foldl_nil]
  | cons event events ih =>
    rw [List.map_cons, List.cons_append, Runs.final_cons]
    simp only [step, hcurrent]
    rw [ih rfl]
    rfl

private theorem final_processBlock {now : UInt64} {block : Block} {rest : List Block} {st : State}
    {events : List ChainEvent} (hflight : b.inFlight = block :: rest) (hcurrent : b.current = none)
    (hok : b.state.processBlock cfg now block = (.ok events, st)) :
    Runs.final (step cfg) b ([.decode now] ++ ((events.map fun _ => .track) ++ [.track])) =
      { b with state := st, inFlight := rest, handled := b.handled ++ [block] } := by
  rw [Runs.final_append, Runs.final_cons, Runs.final_nil]
  cases hadded : handleBlockAdded cfg block b.state.utxoScripts with
  | mk result scripts =>
    rw [State.processBlock, hadded] at hok
    cases result with
    | error e => cases hok
    | ok outcomes =>
      cases hok
      simp only [step, hflight, hcurrent, hadded]
      rw [final_track block outcomes.events rfl]

/-- Without a stop the stages of a poll come to what the whole poll does. -/
theorem final_processBlocks {now : UInt64} {blocks : List Block} {st : State}
    {events events' : List (ChannelId × ChainEvent)} (hflight : b.inFlight = blocks)
    (hcurrent : b.current = none)
    (hok : State.processBlocks cfg now blocks b.state events = (.ok events', st)) :
    ∃ ins, (∀ boot, BufferInput.stop boot ∉ ins) ∧ Runs.final (step cfg) b ins =
      { b with state := st, inFlight := [], handled := b.handled ++ blocks } := by
  induction blocks generalizing b events with
  | nil =>
    cases hok
    refine ⟨[.prune now], by simp, ?_⟩
    simp only [Runs.final_cons, Runs.final_nil, step, hflight, hcurrent, List.append_nil]
  | cons block blocks ih =>
    rw [State.processBlocks] at hok
    split at hok
    · cases hok
    · rename_i found st' hblock
      obtain ⟨ins, hins, hfinal⟩ := ih
        (b := { b with state := st', inFlight := blocks, handled := b.handled ++ [block] })
        rfl hcurrent hok
      refine ⟨[.decode now] ++ ((found.map fun _ => .track) ++ [.track]) ++ ins, ?_, ?_⟩
      · simpa using hins
      · rw [Runs.final_append, final_processBlock hflight hcurrent hblock, hfinal]
        simp only [List.append_assoc, List.singleton_append]

end Buffer

/-- The answers of a poll agree with the sequence of confirmed blocks. -/
structure Honest (chain : BlockSequence) (intake : Intake) (rpc : IntakeRpc) : Prop where
  sink : intake.cursor = none → ∀ virtualDaa sink, rpc.dagInfo = some (virtualDaa, sink) →
    ∃ p, chain.hashAt p = some sink
  shows : ∀ low q shown, intake.cursor = some low → chain.hashAt q = some low →
    Intake.Shows rpc intake.minimumBlockConfirmations low shown → shown <+: chain.drop (q + 1)

namespace Buffer

/-- A stop at which no block behind the stored cursor has events left to track. -/
def StopsSafely (cfg : Config) (chain : BlockSequence) (b : Buffer) : BufferInput → Prop
  | .read rpc => Honest chain b.intake rpc
  | .stop _ => ∀ q hash i, b.storedCursor = some hash → chain.hashAt q = some hash → i ≤ q →
      ∀ block ∈ chain.blockAt i, block ∈ b.waiting → b.remaining cfg block = []
  | _ => True

/-- At a stop, every block after the first cursor has been dealt with, or has no event left to
track, or stands after the stored cursor and the restarted intake reads on from there. -/
def KeptAtStop (cfg : Config) (chain : BlockSequence) (b : Buffer) : BufferInput → Prop
  | .stop boot => ∀ p first, b.first = some first → chain.hashAt p = some first →
      ∀ i, p < i → ∀ block ∈ chain.blockAt i,
        block ∈ b.handled ∨ b.remaining cfg block = [] ∨
          ∃ q hash, b.storedCursor = some hash ∧ chain.hashAt q = some hash ∧ q < i ∧
            (b.step cfg (.stop boot)).intake.cursor = some hash
  | _ => True

/-- What is left to hand over: the blocks after the last one handed over, and the hash of the last
of them as the next cursor. -/
inductive Sending (chain : BlockSequence) (q f : ℕ) :
    Option (List Block × Option Bytes32) → Prop
  | idle (h : f = q) : Sending chain q f none
  | empty (h : f = q) : Sending chain q f (some ([], none))
  | blocks {blocks : List (Bytes32 × Block)} {hash : Bytes32}
      (h : blocks <+: chain.drop (f + 1)) (hlast : chain.hashAt (f + blocks.length) = some hash) :
      Sending chain q f (some (blocks.map Prod.snd, some hash))

/-- Where the two tasks stand in the sequence of confirmed blocks: at the first cursor, at the
stored one and at the last block that was handed over. -/
inductive Position (chain : BlockSequence) (b : Buffer) : Prop
  | unset (hstored : b.storedCursor = none) (hfirst : b.first = none)
      (hsending : ∀ blocks cursor, b.sending = some (blocks, cursor) → blocks = [] ∧
        ∀ hash, cursor = some hash → ∃ p, chain.hashAt p = some hash)
  | set {p q f : ℕ} {first hash : Bytes32} (hfirst : b.first = some first)
      (hstored : b.storedCursor = some hash) (hp : chain.hashAt p = some first)
      (hq : chain.hashAt q = some hash) (hle : p ≤ q) (hle' : q ≤ f)
      (hsending : Sending chain q f b.sending)
      (hcovered : Streams.Covered chain.blockAt (· ∈ b.handled) (· ∈ b.waiting) (p + 1) (f + 1))

def Parses (scripts : WatchedScripts) : Prop :=
  ∀ addr s, scripts addr = some s → ∃ ops, parseOpcodes s.redeemScript = .ok ops

structure Intact (chain : BlockSequence) (b : Buffer) : Prop where
  parses : Parses b.state.utxoScripts
  cursor : b.intake.cursor = b.storedCursor
  position : Position chain b

variable {cfg : Config} {chain : BlockSequence} {b : Buffer}

/-- A step that moves waiting blocks on, or leaves them. -/
theorem Position.congr (h : Position chain b) {b' : Buffer}
    (hstored : b'.storedCursor = b.storedCursor) (hfirst : b'.first = b.first)
    (hsending : b'.sending = b.sending)
    (hblocks : ∀ block, block ∈ b.handled ∨ block ∈ b.waiting →
      block ∈ b'.handled ∨ block ∈ b'.waiting) : Position chain b' := by
  cases h with
  | unset hnone hnofirst hnothing =>
    refine .unset (hstored.trans hnone) (hfirst.trans hnofirst) ?_
    rw [hsending]
    exact hnothing
  | set hf hs hp hq hle hle' hsend hcovered =>
    refine .set (hfirst.trans hf) (hstored.trans hs) hp hq hle hle' ?_ (hcovered.imp hblocks)
    rw [hsending]
    exact hsend

theorem Intact.read (h : b.Intact chain) (hnodup : (chain.map Prod.fst).Nodup) {rpc : IntakeRpc}
    (hrpc : Honest chain b.intake rpc) : (b.step cfg (.read rpc)).Intact chain := by
  unfold step
  cases hsend : b.sending with
  | some x =>
    simp only
    exact h
  | none =>
    refine ⟨h.parses, h.cursor, ?_⟩
    cases h.position with
    | unset hstored hfirst _ =>
      refine .unset hstored hfirst ?_
      have hcursor : b.intake.cursor = none := h.cursor.trans hstored
      obtain ⟨hsent, hnone | ⟨virtualDaa, sink, hdag, hsink⟩⟩ := Intake.pollOnce_unset rpc hcursor
      · intro blocks cursor heq
        simp only [hsent, hnone, hcursor, if_true, Option.some.injEq, Prod.mk.injEq] at heq
        obtain ⟨rfl, rfl⟩ := heq
        exact ⟨rfl, nofun⟩
      · intro blocks cursor heq
        simp only [hsent, hsink, hcursor, reduceCtorEq, if_false, Option.some.injEq,
          Prod.mk.injEq] at heq
        obtain ⟨rfl, rfl⟩ := heq
        refine ⟨rfl, ?_⟩
        rintro hash heq
        cases heq
        exact hrpc.sink hcursor virtualDaa sink hdag
    | @set p q f first hash hfirst hstored hp hq hle hle' hsending hcovered =>
      refine .set (f := f) hfirst hstored hp hq hle hle' ?_ hcovered
      rw [hsend] at hsending
      cases hsending with
      | idle hf =>
        subst hf
        have hcursor : b.intake.cursor = some hash := h.cursor.trans hstored
        rcases Intake.pollOnce_prefix rpc hcursor with
          ⟨hsent, hsame⟩ | ⟨shown, pre, hash', hshows, hpre, hlast, hsent, hmoved, -⟩
        · simp only [hsent, hsame, hcursor, if_true]
          exact .empty rfl
        · have hdrop := hpre.trans (hrpc.shows hash f shown hcursor hq hshows)
          obtain ⟨hne, hhash⟩ := BlockSequence.getLast_take_drop hdrop hlast
          have hdiff : ¬ (some hash' = some hash) := by
            rintro heq
            cases heq
            have hindex := BlockSequence.hashAt_injective hnodup hq hhash
            have hpos : 0 < pre.length := List.length_pos_iff.mpr hne
            omega
          simp only [hsent, hmoved, hcursor, if_neg hdiff]
          exact .blocks hdrop hhash

/-- The next block that is handed over is the next one of the sequence. -/
theorem Sending.cons {q f : ℕ} {block : Block} {rest : List Block} {cursor : Option Bytes32}
    (h : Sending chain q f (some (block :: rest, cursor))) :
    chain.blockAt (f + 1) = [block] ∧ Sending chain q (f + 1) (some (rest, cursor)) := by
  generalize hx : some (block :: rest, cursor) = x at h
  cases h with
  | idle hf => cases hx
  | empty hf => cases hx
  | @blocks blocks hash hprefix hlast =>
    cases blocks with
    | nil => cases hx
    | cons y blocks =>
      cases hx
      obtain ⟨tail, htail⟩ := hprefix
      have hget : chain[f + 1]? = some y := by
        rw [← List.head?_drop, ← htail]
        rfl
      have hdrop : chain.drop (f + 1 + 1) = blocks ++ tail := by
        rw [← List.tail_drop, ← htail]
        rfl
      refine ⟨by simp [BlockSequence.blockAt, hget], .blocks ⟨tail, hdrop.symm⟩ ?_⟩
      rw [← hlast, List.length_cons]
      congr 1
      omega

theorem Sending.done {q f : ℕ} {hash : Bytes32} (h : Sending chain q f (some ([], some hash))) :
    chain.hashAt f = some hash := by
  generalize hx : some ([], some hash) = x at h
  cases h with
  | idle hf => cases hx
  | empty hf => cases hx
  | @blocks blocks hash' hprefix hlast =>
    cases blocks with
    | nil =>
      cases hx
      exact hlast
    | cons y blocks => cases hx

theorem Sending.stays {q f : ℕ} (h : Sending chain q f (some ([], none))) : f = q := by
  generalize hx : (some ([], none) : Option (List Block × Option Bytes32)) = x at h
  cases h with
  | idle hf => cases hx
  | empty hf => exact hf
  | blocks hprefix hlast =>
    rw [Option.some.injEq, Prod.mk.injEq] at hx
    cases hx.2

theorem Intact.send (h : b.Intact chain) : (b.step cfg .send).Intact chain := by
  simp only [step]
  split
  · rename_i block rest cursor hsend
    refine ⟨h.parses, h.cursor, ?_⟩
    cases h.position with
    | unset hstored hfirst hnothing =>
      obtain ⟨hnil, -⟩ := hnothing _ _ hsend
      cases hnil
    | set hfirst hstored hp hq hle hle' hsending hcovered =>
      rw [hsend] at hsending
      obtain ⟨hblock, hrest⟩ := hsending.cons
      refine .set hfirst hstored hp hq hle (Nat.le_succ_of_le hle') hrest ?_
      refine (hcovered.imp fun x hx => hx.imp_right fun hwaits => ?_).extend ?_
      · simp only [waiting, ← List.append_assoc] at hwaits ⊢
        exact List.mem_append_left _ hwaits
      · intro i hlo hhi x hx
        obtain rfl : i = _ := Nat.le_antisymm (Nat.le_of_lt_succ hhi) hlo
        rw [hblock, List.mem_singleton] at hx
        subst hx
        simp [waiting]
  · exact h

theorem Intact.setCursor (h : b.Intact chain) : (b.step cfg .setCursor).Intact chain := by
  simp only [step]
  split
  · rename_i hash hsend
    refine ⟨h.parses, rfl, ?_⟩
    cases h.position with
    | unset hstored hfirst hnothing =>
      obtain ⟨-, hhash⟩ := hnothing _ _ hsend
      obtain ⟨p, hp⟩ := hhash hash rfl
      refine .set (p := p) (q := p) (f := p) (by rw [hfirst]; rfl) rfl hp hp (Nat.le_refl p)
        (Nat.le_refl p) (.idle rfl) (Streams.covered_self _ _ _ _)
    | set hfirst hstored hp hq hle hle' hsending hcovered =>
      rw [hsend] at hsending
      exact .set (by rw [hfirst]; rfl) rfl hp hsending.done (hle.trans hle') (Nat.le_refl _)
        (.idle rfl) hcovered
  · rename_i hsend
    refine ⟨h.parses, h.cursor, ?_⟩
    cases h.position with
    | unset hstored hfirst hnothing => exact .unset hstored hfirst nofun
    | set hfirst hstored hp hq hle hle' hsending hcovered =>
      rw [hsend] at hsending
      exact .set hfirst hstored hp hq hle hle' (.idle hsending.stays) hcovered
  · exact h

theorem Intact.drain (h : b.Intact chain) : (b.step cfg .drain).Intact chain := by
  simp only [step]
  split
  · rename_i hflight hcurrent
    refine ⟨h.parses, h.cursor, h.position.congr rfl rfl rfl fun block hblock => ?_⟩
    simpa [waiting, hflight, hcurrent] using hblock
  · exact h

end Buffer

namespace Buffer

variable {cfg : Config} {chain : BlockSequence} {b : Buffer} {scripts : WatchedScripts}

theorem Parses.mono {scripts' : WatchedScripts} (h : Parses scripts)
    (hsub : ∀ addr s, scripts' addr = some s → scripts addr = some s) : Parses scripts' :=
  fun addr s hs => h addr s (hsub addr s hs)

theorem Parses.update (h : Parses scripts) (addr : String) {s : UtxoScript} {ops : List Opcode}
    (hs : parseOpcodes s.redeemScript = .ok ops) :
    Parses (Function.update scripts addr (some s)) := by
  intro addr' s' hs'
  by_cases heq : addr' = addr
  · subst heq
    rw [Function.update_self, Option.some.injEq] at hs'
    subst hs'
    exact ⟨ops, hs⟩
  · rw [Function.update_of_ne heq] at hs'
    exact h addr' s' hs'

theorem Parses.scanOutput (cfg : Config) (h : Parses scripts) (output : TransactionOutput) :
    ∃ found, scanOutput cfg scripts output = .ok found := by
  unfold Kaspa.scanOutput
  split
  · exact ⟨_, rfl⟩
  · split
    · exact ⟨_, rfl⟩
    · rename_i s hs
      obtain ⟨ops, hops⟩ := h _ s hs
      rw [hops]
      simp only [bind, Except.bind]
      split
      · exact ⟨_, rfl⟩
      · split <;> exact ⟨_, rfl⟩

/-- The scan of a block fails only at a script that does not parse. -/
theorem Parses.handleTransactions (cfg : Config) (h : Parses scripts) (txs : List Transaction)
    (acc : BlockOutcomes) :
    ∃ outcomes, (handleTransactions cfg txs scripts acc).1 = .ok outcomes := by
  induction txs generalizing scripts acc with
  | nil => exact ⟨acc, rfl⟩
  | cons tx txs ih =>
    obtain ⟨all, hall⟩ := mapM_eq_ok_of_forall fun output (_ : output ∈ tx.outputs) =>
      h.scanOutput cfg output
    have hscan : scanOutputs cfg scripts tx =
        .ok (all.foldl BlockOutcomes.append ⟨[], []⟩) := by
      rw [scanOutputs, hall]
      rfl
    rw [Kaspa.handleTransactions, hscan]
    exact ih (h.mono fun _ _ hs => scanInputs_scripts hs) _

theorem Intact.decode (h : b.Intact chain) (now : UInt64) :
    (b.step cfg (.decode now)).Intact chain := by
  simp only [step]
  split
  · rename_i block rest hflight hcurrent
    obtain ⟨outcomes, hok⟩ := h.parses.handleTransactions cfg block.transactions ⟨[], []⟩
    have hsub : ∀ addr s, (handleTransactions cfg block.transactions b.state.utxoScripts
        ⟨[], []⟩).2 addr = some s → b.state.utxoScripts addr = some s :=
      fun _ _ => handleTransactions_scripts _ _
    cases hadded : handleBlockAdded cfg block b.state.utxoScripts with
    | mk result scripts =>
      rw [handleBlockAdded] at hadded
      rw [hadded] at hok hsub
      obtain rfl : result = .ok outcomes := hok
      simp only
      refine ⟨?_, h.cursor, h.position.congr rfl rfl rfl fun x hx => ?_⟩
      · split_ifs
        · rw [utxoScripts_scheduleRefunds]
          exact h.parses.mono hsub
        · exact h.parses.mono hsub
      · refine hx.imp_right fun hwaits => ?_
        have hsafe : ∀ st : State, st.safeBlocks = b.state.safeBlocks →
            x ∈ [block] ++ rest ++ st.safeBlocks := by
          intro st hst
          rw [hst]
          simpa [waiting, hflight, hcurrent] using hwaits
        apply hsafe
        split_ifs
        · rw [Channel.safeBlocks_scheduleRefunds]
        · rfl
  · exact h

theorem Intact.track (h : b.Intact chain) : (b.step cfg .track).Intact chain := by
  simp only [step]
  split
  · rename_i block event events hcurrent
    have hscripts : (b.state.trackActionableEvent cfg event).utxoScripts = b.state.utxoScripts :=
      utxoScripts_trackEvents [event] b.state
    have hsafe : (b.state.trackActionableEvent cfg event).safeBlocks = b.state.safeBlocks :=
      Channel.safeBlocks_trackEvents [event] b.state
    refine ⟨by rw [hscripts]; exact h.parses, h.cursor,
      h.position.congr rfl rfl rfl fun x hx => ?_⟩
    simpa [waiting, hsafe, hcurrent] using hx
  · rename_i block hcurrent
    refine ⟨h.parses, h.cursor, h.position.congr rfl rfl rfl fun x hx => ?_⟩
    simp only [waiting, hcurrent, List.mem_append, Option.map_some, Option.toList_some,
      List.mem_singleton, Option.map_none, Option.toList_none, List.not_mem_nil, false_or] at hx ⊢
    tauto
  · exact h

theorem Intact.congr (h : b.Intact chain) {st : State} (hparses : Parses st.utxoScripts)
    (hsafe : st.safeBlocks = b.state.safeBlocks) : Intact chain { b with state := st } := by
  refine ⟨hparses, h.cursor, h.position.congr rfl rfl rfl fun x hx => ?_⟩
  simpa [waiting, hsafe] using hx

theorem Parses.registerScript (cfg : Config) {st : State} (h : Parses st.utxoScripts) (now : UInt64)
    (address : String) (redeem : Bytes) (id : SwapId) (unlockTs : UInt64) (target : String) :
    Parses (st.registerScript cfg now address redeem id unlockTs target).2.utxoScripts ∧
      (st.registerScript cfg now address redeem id unlockTs target).2.safeBlocks =
        st.safeBlocks := by
  unfold State.registerScript
  cases hvalid : validateScriptAnnounce cfg.codec cfg.blake2b cfg.networkId cfg.channelId address
      redeem id unlockTs with
  | error e => exact ⟨h, rfl⟩
  | ok u =>
    obtain ⟨network, slots, c, -, hparse, -⟩ := validateScriptAnnounce_eq_ok hvalid
    refine ⟨?_, rfl⟩
    have hupdated := h.update address (s := ⟨redeem, unlockTs, target⟩)
      (parseOpcodes_eq_ok.mpr hparse)
    exact hupdated.mono fun _ _ hs => (Option.filter_eq_some_iff.mp hs).1

theorem Parses.emitEvent (cfg : Config) {st : State} (h : Parses st.utxoScripts) (now : UInt64)
    (network : Except KaspaError Network) (event : ChainEvent) :
    Parses (st.emitEvent cfg now network event).2.utxoScripts ∧
      (st.emitEvent cfg now network event).2.safeBlocks = st.safeBlocks := by
  cases event with
  | commitment c =>
    simp only [State.emitEvent]
    split_ifs
    · cases hsubmit : submitCommitment cfg network c with
      | error e => exact ⟨h, rfl⟩
      | ok found =>
        obtain ⟨network', -, hbuilt, -⟩ := submitCommitment_eq_ok hsubmit
        obtain ⟨slots, hparse, -⟩ := carriesId_built hbuilt
        exact ⟨h.update _ (parseOpcodes_eq_ok.mpr hparse), rfl⟩
    · exact ⟨h, rfl⟩
  | reveal r =>
    simp only [State.emitEvent]
    split_ifs <;> exact ⟨h, rfl⟩
  | refund r => exact ⟨h, rfl⟩

/-- At a safe stop nothing is lost, and the restarted channel is intact. -/
theorem Intact.stop (h : b.Intact chain) (hnodup : (chain.map Prod.fst).Nodup) (boot : Boot)
    (hsafe : b.StopsSafely cfg chain (.stop boot)) :
    b.KeptAtStop cfg chain (.stop boot) ∧ (b.step cfg (.stop boot)).Intact chain := by
  cases h.position with
  | unset hstored hfirst _ =>
    refine ⟨fun p first hsome => ?_, nofun, rfl, .unset hstored hfirst nofun⟩
    rw [hfirst] at hsome
    cases hsome
  | @set p q f first hash hfirst hstored hp hq hle hle' _ hcovered =>
    have hdealt : ∀ i, p < i → i ≤ q → ∀ block ∈ chain.blockAt i,
        block ∈ b.handled ∨ block ∈ b.waiting ∧ b.remaining cfg block = [] := by
      intro i hlo hhi block hblock
      refine (hcovered i hlo (Nat.lt_succ_of_le (hhi.trans hle')) block hblock).imp_right ?_
      intro hwaits
      exact ⟨hwaits, hsafe q hash i hstored hq hhi block hblock hwaits⟩
    constructor
    · intro p' first' hfirst' hp' i hlo block hblock
      rw [hfirst, Option.some.injEq] at hfirst'
      subst hfirst'
      have hsame := BlockSequence.hashAt_injective hnodup hp' hp
      subst hsame
      rcases Nat.lt_or_ge q i with hlt | hge
      · exact .inr (.inr ⟨q, hash, hstored, hq, hlt, hstored⟩)
      · exact (hdealt i hlo hge block hblock).imp_right fun hdone => .inl hdone.2
    · refine ⟨nofun, rfl, .set hfirst hstored hp hq hle (Nat.le_refl q) (.idle rfl) ?_⟩
      intro i hlo hhi block hblock
      refine .inl ?_
      simp only [Buffer.step, List.mem_append, List.mem_filter, decide_eq_true_eq]
      exact hdealt i hlo (Nat.le_of_lt_succ hhi) block hblock

theorem Intact.step (h : b.Intact chain) (hnodup : (chain.map Prod.fst).Nodup) {x : BufferInput}
    (hsafe : b.StopsSafely cfg chain x) :
    b.KeptAtStop cfg chain x ∧ (Buffer.step cfg b x).Intact chain := by
  cases x with
  | read rpc => exact ⟨trivial, h.read hnodup hsafe⟩
  | send => exact ⟨trivial, h.send⟩
  | setCursor => exact ⟨trivial, h.setCursor⟩
  | drain => exact ⟨trivial, h.drain⟩
  | decode now => exact ⟨trivial, h.decode now⟩
  | track => exact ⟨trivial, h.track⟩
  | prune now =>
    refine ⟨trivial, ?_⟩
    simp only [Buffer.step]
    split
    · refine h.congr ?_ rfl
      exact h.parses.mono fun _ _ hs => (Option.filter_eq_some_iff.mp hs).1
    · exact h
  | announce now address redeem id unlockTs target =>
    obtain ⟨hparses, hblocks⟩ := h.parses.registerScript cfg now address redeem id unlockTs
      target
    exact ⟨trivial, h.congr hparses hblocks⟩
  | emit now network event =>
    obtain ⟨hparses, hblocks⟩ := h.parses.emitEvent cfg now network event
    exact ⟨trivial, h.congr hparses hblocks⟩
  | failed k now => exact ⟨trivial, h.congr h.parses rfl⟩
  | stop boot => exact h.stop hnodup boot hsafe

/-- A channel that is about to read on from its stored cursor, or that has none yet. -/
structure Starts (chain : BlockSequence) (b : Buffer) : Prop where
  unwatched : b.state.utxoScripts = fun _ => none
  cursor : b.intake.cursor = b.storedCursor
  first : b.first = b.storedCursor
  sending : b.sending = none
  stored : ∀ hash, b.storedCursor = some hash → ∃ p, chain.hashAt p = some hash

theorem Starts.intact (h : b.Starts chain) : b.Intact chain := by
  refine ⟨?_, h.cursor, ?_⟩
  · rw [h.unwatched]
    exact nofun
  · cases hstored : b.storedCursor with
    | none =>
      refine .unset hstored (h.first.trans hstored) ?_
      rw [h.sending]
      exact nofun
    | some hash =>
      obtain ⟨p, hp⟩ := h.stored hash hstored
      refine .set (h.first.trans hstored) hstored hp hp (Nat.le_refl p) (Nat.le_refl p) ?_
        (Streams.covered_self _ _ _ _)
      rw [h.sending]
      exact .idle rfl

theorem Starts.kept (h : b.Starts chain) (hnodup : (chain.map Prod.fst).Nodup)
    {ins : List BufferInput}
    (hsafe : Runs.Along (Buffer.step cfg) (StopsSafely cfg chain) b ins) :
    Runs.Along (Buffer.step cfg) (KeptAtStop cfg chain) b ins :=
  hsafe.of_invariant (fun _ _ hb hx => hb.step hnodup hx) h.intact

end Buffer
end Stroemnet.Kaspa

namespace Stroemnet

/-- In every run in which the process only stops when nothing with an event waits behind a stored
cursor, every event is tracked or will be delivered again. -/
theorem cursors_keep_events {RpcLog : Type} (codec : Evm.LogCodec RpcLog) (evmCfg : Evm.Config)
    (logsAt : ℕ → List RpcLog) (base : UInt64) (evm : Evm.Buffer RpcLog)
    (evmIns : List (Evm.BufferInput RpcLog)) (kaspaCfg : Kaspa.Config)
    (chain : Kaspa.BlockSequence) (kaspa : Kaspa.Buffer) (kaspaIns : List Kaspa.BufferInput)
    (hevm : evm.Starts base) (hkaspa : kaspa.Starts chain) (hnodup : (chain.map Prod.fst).Nodup)
    (hevmStops : Runs.Along (Evm.Buffer.step codec evmCfg)
      (Evm.Buffer.StopsSafely codec evmCfg logsAt) evm evmIns)
    (hkaspaStops : Runs.Along (Kaspa.Buffer.step kaspaCfg)
      (Kaspa.Buffer.StopsSafely kaspaCfg chain) kaspa kaspaIns) :
    Runs.Along (Evm.Buffer.step codec evmCfg) (Evm.Buffer.KeptAtStop codec evmCfg logsAt base) evm
        evmIns ∧
      Runs.Along (Kaspa.Buffer.step kaspaCfg) (Kaspa.Buffer.KeptAtStop kaspaCfg chain) kaspa
        kaspaIns :=
  ⟨hevm.kept hevmStops, hkaspa.kept hnodup hkaspaStops⟩

/-- The commitment stands in block 10. -/
def sampleLogsAt (i : ℕ) : List Evm.Log := if i = 10 then [sampleInitLog] else []

def evmBuffer : Evm.Buffer Evm.Log := ⟨Evm.State.empty 0, .idle, []⟩

/-- The logs are fetched and the cursor is saved. -/
def savedInputs : List (Evm.BufferInput Evm.Log) :=
  [.fetch 100 ⟨some 50, fun _ _ => some [sampleInitLog], some 100⟩, .save]

def kaspaBuffer : Kaspa.Buffer :=
  ⟨.new 10 (some (.filled 1)), some (.filled 1), none, .empty, [], none, some (.filled 1), []⟩

/-- The second block funds the sample script. -/
def sampleBlocks : Kaspa.BlockSequence :=
  [(.filled 1, ⟨.filled 1, 9, []⟩), (.filled 2, ⟨.filled 2, 10, [Kaspa.fundingTx.toTransaction]⟩),
    (.filled 3, ⟨.filled 3, 10, []⟩), (.filled 4, ⟨.filled 4, 11, []⟩)]

/-- The blocks are handed over and the cursor is saved. -/
def handedInputs : List Kaspa.BufferInput :=
  [.announce 100 Kaspa.sampleAddress Htlc.sampleRedeem (.filled 3) 1000 "100000000",
    .read (Kaspa.mergedBlocks [Kaspa.fundingTx.toTransaction] []), .send, .send, .send, .setCursor]

theorem sample_starts : evmBuffer.Starts 0 ∧ kaspaBuffer.Starts sampleBlocks := by
  refine ⟨⟨rfl, .inl rfl, rfl⟩, ⟨rfl, rfl, rfl, rfl, fun hash hstored => ?_⟩⟩
  cases hstored
  exact ⟨0, rfl⟩

theorem sample_honest : Evm.Buffer.Honest sampleLogsAt
    ⟨some 50, fun _ _ => some [sampleInitLog], some 100⟩ := by
  intro lo hi logs hlogs i _ _ log hlog
  cases hlogs
  unfold sampleLogsAt at hlog
  split_ifs at hlog
  · exact hlog
  · cases hlog

theorem sample_honest_blocks : Kaspa.Honest sampleBlocks kaspaBuffer.intake
    (Kaspa.mergedBlocks [Kaspa.fundingTx.toTransaction] []) := by
  refine ⟨nofun, ?_⟩
  rintro low q shown hlow hq ⟨virtualDaa, sink, pending, removed, added, hdag, hread, hchain, rfl⟩
  cases hlow
  cases hdag
  cases hchain
  obtain rfl := Kaspa.BlockSequence.hashAt_injective (by decide +kernel) hq
    (show sampleBlocks.hashAt 0 = some (.filled 1) from rfl)
  have hpages : Kaspa.Intake.readPages (Kaspa.mergedBlocks [Kaspa.fundingTx.toTransaction] [])
      (.filled 4) Kaspa.Intake.maxPages (.filled 1) [] = (.ok (), sampleBlocks.drop 1) := by
    decide +kernel
  rw [hpages] at hread
  cases hread
  exact List.takeWhile_prefix _

/-- On both kinds of chain a stop after the cursor is saved loses the commitment behind it. -/
theorem stop_loses_events :
    (evmBuffer.Starts 0 ∧
      Evm.Buffer.Honest sampleLogsAt ⟨some 50, fun _ _ => some [sampleInitLog], some 100⟩ ∧
      ¬ Runs.Along (Evm.Buffer.step Evm.plainCodec (sampleNode.evm .ethereumSepolia))
        (Evm.Buffer.KeptAtStop Evm.plainCodec (sampleNode.evm .ethereumSepolia) sampleLogsAt 0)
        evmBuffer (savedInputs ++ [.stop (Node.sampleBoot .ethereumSepolia)])) ∧
      kaspaBuffer.Starts sampleBlocks ∧
      Kaspa.Honest sampleBlocks kaspaBuffer.intake
        (Kaspa.mergedBlocks [Kaspa.fundingTx.toTransaction] []) ∧
      ¬ Runs.Along (Kaspa.Buffer.step sampleNode.kaspa)
        (Kaspa.Buffer.KeptAtStop sampleNode.kaspa sampleBlocks) kaspaBuffer
        (handedInputs ++ [.stop (Node.sampleBoot .kaspaTn10)]) := by
  refine ⟨⟨sample_starts.1, sample_honest, ?_⟩, sample_starts.2, sample_honest_blocks, ?_⟩
  · rw [Runs.along_append]
    rintro ⟨-, hkept, -⟩
    have hsaved : (Runs.final (Evm.Buffer.step Evm.plainCodec (sampleNode.evm .ethereumSepolia))
          evmBuffer savedInputs).tracked = [] ∧
        (Runs.final (Evm.Buffer.step Evm.plainCodec (sampleNode.evm .ethereumSepolia)) evmBuffer
          savedInputs).state.storedCursor = some 50 := by
      decide +kernel
    rcases hkept 10 (by decide) sampleInitLog (by decide +kernel) ⟨_, rfl⟩ with
      htracked | ⟨c, hc, hle, -⟩
    · rw [hsaved.1] at htracked
      cases htracked
    · rw [hsaved.2, Option.some.injEq] at hc
      subst hc
      exact absurd hle (by decide)
  · rw [Runs.along_append]
    rintro ⟨-, hkept, -⟩
    have hhanded : (Runs.final (Kaspa.Buffer.step sampleNode.kaspa) kaspaBuffer
          handedInputs).handled = [] ∧
        (Runs.final (Kaspa.Buffer.step sampleNode.kaspa) kaspaBuffer handedInputs).remaining
          sampleNode.kaspa ⟨.filled 2, 10, [Kaspa.fundingTx.toTransaction]⟩ ≠ [] ∧
        (Runs.final (Kaspa.Buffer.step sampleNode.kaspa) kaspaBuffer
          handedInputs).storedCursor = some (.filled 4) := by
      decide +kernel
    obtain ⟨hnone, hevents, hstored⟩ := hhanded
    rcases hkept 0 (.filled 1) rfl rfl 1 (by decide) _ (List.mem_singleton_self _) with
      hhandled | hdone | ⟨q, hash, hhash, hq, hlt, -⟩
    · rw [hnone] at hhandled
      cases hhandled
    · exact hevents hdone
    · rw [hstored, Option.some.injEq] at hhash
      subst hhash
      obtain rfl := Kaspa.BlockSequence.hashAt_injective (by decide +kernel) hq
        (show sampleBlocks.hashAt 3 = some (.filled 4) from rfl)
      exact absurd hlt (by decide)

/-- The blocks are taken out of the channel and tracked. -/
def trackedInputs : List Kaspa.BufferInput :=
  [.drain, .decode 120, .track, .track, .decode 120, .track, .decode 120, .track]

/-- The process stops after everything was tracked. -/
theorem cursors_keep_events_sample :
    Runs.Along (Evm.Buffer.step Evm.plainCodec (sampleNode.evm .ethereumSepolia))
        (Evm.Buffer.KeptAtStop Evm.plainCodec (sampleNode.evm .ethereumSepolia) sampleLogsAt 0)
        evmBuffer (savedInputs ++ [.track 100, .finish 100 (some 100),
          .stop (Node.sampleBoot .ethereumSepolia)]) ∧
      Runs.Along (Kaspa.Buffer.step sampleNode.kaspa)
        (Kaspa.Buffer.KeptAtStop sampleNode.kaspa sampleBlocks) kaspaBuffer
        (handedInputs ++ trackedInputs ++ [.stop (Node.sampleBoot .kaspaTn10)]) := by
  refine cursors_keep_events _ _ _ _ _ _ _ _ _ _ sample_starts.1 sample_starts.2
    (by decide +kernel) ⟨sample_honest, trivial, trivial, trivial, ⟨rfl, ?_⟩, trivial⟩
    (Runs.along_append.mpr ⟨?_, ?_, trivial⟩)
  · intro log hwaits
    exact hwaits.elim
  · exact ⟨trivial, sample_honest_blocks, trivial, trivial, trivial, trivial, trivial, trivial,
      trivial, trivial, trivial, trivial, trivial, trivial, trivial⟩
  · intro q hash i _ _ _ block _ hwaits
    have hempty : (Runs.final (Kaspa.Buffer.step sampleNode.kaspa) kaspaBuffer
        (handedInputs ++ trackedInputs)).waiting = [] := by
      decide +kernel
    rw [hempty] at hwaits
    cases hwaits

end Stroemnet
