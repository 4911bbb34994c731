import Stroemnet.PriceOracle

/-! # Asking the exchanges

Each exchange is asked once for every token, and answers for all channels of that token. The
tokens stand in a hash map, so that they are asked for in any order, and an exchange that has
nothing for any of them is asked again. The prices depend on neither, channels of one token have
one price, and no exchange alone makes a price. -/
namespace Stroemnet.Oracle

inductive OracleError
  | timeout (secs : ℕ)
  | allSourcesFailed (reason : String)
  | retryExhausted (attempts : ℕ) (last : String)
deriving DecidableEq

def OracleError.toString : OracleError → String
  | .timeout secs => s!"Request timeout after {secs} seconds"
  | .allSourcesFailed reason => s!"Failed to fetch any prices for channel: {reason}"
  | .retryExhausted attempts last => s!"All {attempts} retry attempts failed: {last}"

/-- A number as it is read off an answer. -/
inductive Parsed
  | finite (x : ℚ)
  | infinite (negative : Bool)
  | nan

def Parsed.toRat : Parsed → Option ℚ
  | .finite x => some x
  | _ => none

def Parsed.nonpositive : Parsed → Bool
  | .finite x => x ≤ 0
  | .infinite negative => negative
  | .nan => false

/-- The last price and the volume of a day as an exchange reports them; `none` is a text that is no
number. -/
structure Ticker where
  lastPrice : Option Parsed
  volume : Option Parsed

/-- The sample of a ticker. Why there is none is logged and nothing else. -/
def sampleOf (ticker : Ticker) : Option PriceSample :=
  match ticker.lastPrice with
  | none => none
  | some price =>
    if price.nonpositive then none
    else some ⟨price.toRat, (ticker.volume.getD (.finite 0)).toRat⟩

/-- The answers to one request; `none` is a request that failed. -/
def mexcSingle (answer : Option Ticker) : Option PriceSample := answer.bind sampleOf

def bybitSingle (answer : Option (ℤ × List Ticker)) : Option PriceSample :=
  match answer with
  | none => none
  | some (retCode, list) => if retCode ≠ 0 then none else list.head?.bind sampleOf

def gateioSingle (answer : Option (List Ticker)) : Option PriceSample :=
  answer.bind fun tickers => tickers.head?.bind sampleOf

def mexcSymbol : ChannelId → Option String
  | .kaspaTn10 => some "KASUSDT"
  | .ethereumSepolia => some "ETHUSDT"
  | .igraGalleon => some "KASUSDT"

def bybitSymbol : ChannelId → Option String
  | .kaspaTn10 => some "KASUSDT"
  | .ethereumSepolia => some "ETHUSDT"
  | .igraGalleon => some "KASUSDT"

def gateioSymbol : ChannelId → Option String
  | .kaspaTn10 => some "KAS_USDT"
  | .ethereumSepolia => some "ETH_USDT"
  | .igraGalleon => some "KAS_USDT"

def pushChannel (sym : String) (c : ChannelId) :
    List (String × List ChannelId) → List (String × List ChannelId)
  | [] => [(sym, [c])]
  | e :: es => if e.1 = sym then (sym, e.2 ++ [c]) :: es else e :: pushChannel sym c es

def symbolToChannels (symbol : ChannelId → Option String) (channels : List ChannelId) :
    List (String × List ChannelId) :=
  channels.foldl (fun map c => match symbol c with
    | some sym => pushChannel sym c map
    | none => map) []

def collected (single : String → Option PriceSample) (map : List (String × List ChannelId)) :
    List (ChannelId × PriceSample) :=
  map.flatMap fun e =>
    match single e.1 with
    | some sample => e.2.map fun c => (c, sample)
    | none => []

/-- Asks an exchange for the tokens of all channels; `arrange` is the order of the hash map. -/
def fetchAll (name : String) (symbol : ChannelId → Option String)
    (single : String → Option PriceSample)
    (arrange : List (String × List ChannelId) → List (String × List ChannelId))
    (channels : List ChannelId) : Except OracleError (List (ChannelId × PriceSample)) :=
  match symbolToChannels symbol channels with
  | [] => .error (.allSourcesFailed s!"No supported {name} symbols for the given channels")
  | map =>
    match collected single (arrange map) with
    | [] => .error (.allSourcesFailed s!"All {name} tickers returned invalid data")
    | out => .ok out

def maxRetries : ℕ := 3

def attemptTimeoutSecs : ℕ := 30

/-- The first attempt that succeeds; `none` is one that takes too long. -/
def withRetry {α : Type} (attempt : ℕ → Option (Except OracleError α)) : Except OracleError α :=
  let rec go : ℕ → ℕ → Option OracleError → Except OracleError α
    | 0, _, last => .error (.retryExhausted maxRetries
        ((last.map OracleError.toString).getD "Unknown error"))
    | left + 1, k, _ =>
      match (attempt k).getD (.error (.timeout attemptTimeoutSecs)) with
      | .ok v => .ok v
      | .error e => go left (k + 1) (some e)
  go maxRetries 1 none

/-- One attempt at an exchange: its answers for each symbol, and the order in which it is asked. -/
structure Asked (α : Type) where
  answer : String → Option α
  arrange : List (String × List ChannelId) → List (String × List ChannelId)

def mexc (asked : Asked Ticker) (channels : List ChannelId) :
    Except OracleError (List (ChannelId × PriceSample)) :=
  fetchAll "MEXC" mexcSymbol (fun sym => mexcSingle (asked.answer sym)) asked.arrange channels

def bybit (asked : Asked (ℤ × List Ticker)) (channels : List ChannelId) :
    Except OracleError (List (ChannelId × PriceSample)) :=
  fetchAll "Bybit" bybitSymbol (fun sym => bybitSingle (asked.answer sym)) asked.arrange channels

def gateio (asked : Asked (List Ticker)) (channels : List ChannelId) :
    Except OracleError (List (ChannelId × PriceSample)) :=
  fetchAll "Gate.io" gateioSymbol (fun sym => gateioSingle (asked.answer sym)) asked.arrange
    channels

/-- What the exchanges answer to each attempt; `none` is an attempt that takes too long. -/
structure PriceFeed where
  mexc : ℕ → Option (Asked Ticker)
  bybit : ℕ → Option (Asked (ℤ × List Ticker))
  gateio : ℕ → Option (Asked (List Ticker))

namespace PriceFeed

/-- The samples of the exchanges that are asked on a target. -/
def sources (target : Target) (feed : PriceFeed) (channels : List ChannelId) :
    List (Option (List (ChannelId × PriceSample))) :=
  match target with
  | .native =>
    [(withRetry fun k => (feed.mexc k).map (Oracle.mexc · channels)).toOption,
      (withRetry fun k => (feed.bybit k).map (Oracle.bybit · channels)).toOption,
      (withRetry fun k => (feed.gateio k).map (Oracle.gateio · channels)).toOption]
  | .wasm32 => [(withRetry fun k => (feed.bybit k).map (Oracle.bybit · channels)).toOption]

def aggregate (target : Target) (feed : PriceFeed) (channels : List ChannelId) :
    Except String (List (ChannelId × ℚ)) :=
  Oracle.aggregate target (feed.sources target channels) channels

end PriceFeed

def pick (c : ChannelId) (out : List (ChannelId × PriceSample)) : List PriceSample :=
  out.filterMap fun e => if e.1 = c then some e.2 else none

def reported (symbol : ChannelId → Option String) (single : String → Option PriceSample)
    (channels : List ChannelId) (c : ChannelId) : List PriceSample :=
  if c ∈ channels then ((symbol c).bind single).toList else []

structure Grouped (symbol : ChannelId → Option String) (channels : List ChannelId)
    (map : List (String × List ChannelId)) : Prop where
  keys : (map.map Prod.fst).Nodup
  group : ∀ e ∈ map, e.2 = channels.filter fun c => symbol c = some e.1
  all : ∀ c ∈ channels, ∀ sym, symbol c = some sym → sym ∈ map.map Prod.fst

section Groups

variable {symbol : ChannelId → Option String} {single : String → Option PriceSample}
  {channels : List ChannelId} {map : List (String × List ChannelId)} {c : ChannelId}

theorem keys_pushChannel (sym : String) (c : ChannelId) (map : List (String × List ChannelId)) :
    (pushChannel sym c map).map Prod.fst =
      if sym ∈ map.map Prod.fst then map.map Prod.fst else map.map Prod.fst ++ [sym] := by
  induction map with
  | nil => simp [pushChannel]
  | cons e map ih =>
    by_cases he : e.1 = sym
    · simp [pushChannel, he]
    · simp only [pushChannel, if_neg he, List.map_cons, ih, List.mem_cons, Ne.symm he, false_or]
      split_ifs
      · rfl
      · rfl

private theorem mem_pushChannel {sym : String} (hkeys : (map.map Prod.fst).Nodup)
    {e : String × List ChannelId} (he : e ∈ pushChannel sym c map) :
    e.1 ≠ sym ∧ e ∈ map ∨
      e.1 = sym ∧ ((∃ cs, (sym, cs) ∈ map ∧ e.2 = cs ++ [c]) ∨
        sym ∉ map.map Prod.fst ∧ e.2 = [c]) := by
  induction map with
  | nil =>
    obtain rfl := List.mem_singleton.mp he
    exact .inr ⟨rfl, .inr ⟨List.not_mem_nil, rfl⟩⟩
  | cons e' map ih =>
    obtain ⟨hnot, hrest⟩ := List.nodup_cons.mp hkeys
    by_cases he' : e'.1 = sym
    · rw [pushChannel, if_pos he'] at he
      rcases List.mem_cons.mp he with rfl | he
      · exact .inr ⟨rfl, .inl ⟨e'.2, by simp [← he'], rfl⟩⟩
      · refine .inl ⟨fun hsym => hnot ?_, List.mem_cons_of_mem _ he⟩
        rw [he', ← hsym]
        exact List.mem_map_of_mem he
    · rw [pushChannel, if_neg he'] at he
      rcases List.mem_cons.mp he with rfl | he
      · exact .inl ⟨he', List.mem_cons_self⟩
      · rcases ih hrest he with ⟨hne, hmem⟩ | ⟨hsym, ⟨cs, hcs, hpush⟩ | ⟨hnew, hone⟩⟩
        · exact .inl ⟨hne, List.mem_cons_of_mem _ hmem⟩
        · exact .inr ⟨hsym, .inl ⟨cs, List.mem_cons_of_mem _ hcs, hpush⟩⟩
        · refine .inr ⟨hsym, .inr ⟨?_, hone⟩⟩
          simpa [Ne.symm he'] using hnew

theorem Grouped.push {sym : String} (h : Grouped symbol channels map) (hsym : symbol c = some sym) :
    Grouped symbol (channels ++ [c]) (pushChannel sym c map) := by
  refine ⟨?_, fun e he => ?_, fun c' hc' sym' hsym' => ?_⟩
  · rw [keys_pushChannel]
    split_ifs with hmem
    · exact h.keys
    · rw [← List.concat_eq_append]
      exact List.Nodup.concat hmem h.keys
  · rw [List.filter_append]
    rcases mem_pushChannel h.keys he with ⟨hne, hmem⟩ | ⟨rfl, ⟨cs, hcs, hpush⟩ | ⟨hnew, hone⟩⟩
    · rw [h.group e hmem, List.filter_cons_of_neg (by simp [hsym, Ne.symm hne]), List.filter_nil,
        List.append_nil]
    · rw [hpush, List.filter_cons_of_pos (by simp [hsym]), List.filter_nil]
      exact congrArg (· ++ [c]) (h.group _ hcs)
    · have hnone : channels.filter (fun c => symbol c = some e.1) = [] := by
        rw [List.filter_eq_nil_iff]
        intro c' hc' heq
        exact hnew (h.all c' hc' _ (of_decide_eq_true heq))
      rw [hone, hnone, List.filter_cons_of_pos (by simp [hsym]), List.filter_nil, List.nil_append]
  · rw [keys_pushChannel]
    rcases List.mem_append.mp hc' with hc' | hc'
    · have hold := h.all c' hc' sym' hsym'
      split_ifs
      · exact hold
      · exact List.mem_append_left _ hold
    · obtain rfl := List.mem_singleton.mp hc'
      obtain rfl : sym = sym' := Option.some.inj (hsym.symm.trans hsym')
      split_ifs with hmem
      · exact hmem
      · exact List.mem_append_right _ (List.mem_singleton_self _)

private theorem grouped_symbolToChannels (symbol : ChannelId → Option String)
    (channels : List ChannelId) :
    Grouped symbol channels (symbolToChannels symbol channels) := by
  induction channels using List.reverseRecOn with
  | nil => exact ⟨List.nodup_nil, List.forall_mem_nil _, List.forall_mem_nil _⟩
  | append_singleton channels c ih =>
    rw [symbolToChannels, List.foldl_append, ← symbolToChannels, List.foldl_cons, List.foldl_nil]
    cases hsym : symbol c with
    | some sym => exact ih.push hsym
    | none =>
      refine ⟨ih.keys, fun e he => ?_, fun c' hc' sym hsym' => ?_⟩
      · rw [List.filter_append, ← ih.group e he]
        simp [hsym]
      · rcases List.mem_append.mp hc' with hc' | hc'
        · exact ih.all c' hc' sym hsym'
        · rw [List.mem_singleton.mp hc', hsym] at hsym'
          cases hsym'

theorem Grouped.perm {map' : List (String × List ChannelId)} (h : Grouped symbol channels map)
    (hperm : map'.Perm map) : Grouped symbol channels map' :=
  ⟨(hperm.map Prod.fst).nodup_iff.mpr h.keys, fun e he => h.group e (hperm.subset he),
    fun c hc sym hsym => (hperm.map Prod.fst).mem_iff.mpr (h.all c hc sym hsym)⟩

/-- A channel that is listed once is in the group of its symbol once. -/
theorem pick_group (hnodup : channels.Nodup) (c : ChannelId) (sym : String) (sample : PriceSample) :
    pick c ((channels.filter fun c => symbol c = some sym).map fun c => (c, sample)) =
      if c ∈ channels ∧ symbol c = some sym then [sample] else [] := by
  induction channels with
  | nil => simp [pick]
  | cons c' channels ih =>
    obtain ⟨hnot, hrest⟩ := List.nodup_cons.mp hnodup
    have ih' := ih hrest
    by_cases hc : c' = c
    · subst hc
      rw [if_neg fun h => hnot h.1] at ih'
      by_cases hsym : symbol c' = some sym
      · rw [List.filter_cons_of_pos (by simpa using hsym), if_pos ⟨List.mem_cons_self, hsym⟩]
        simp only [pick] at ih'
        simp [pick, ih']
      · rw [List.filter_cons_of_neg (by simpa using hsym), if_neg fun h => hsym h.2]
        exact ih'
    · have hmem : (c ∈ c' :: channels) ↔ c ∈ channels := by
        simp [Ne.symm hc]
      simp only [hmem]
      rw [← ih']
      by_cases hsym : symbol c' = some sym
      · rw [List.filter_cons_of_pos (by simpa using hsym)]
        simp [pick, hc]
      · rw [List.filter_cons_of_neg (by simpa using hsym)]

private theorem flatMap_symbol {sym : String} (hkeys : (map.map Prod.fst).Nodup) :
    (map.flatMap fun e => if sym = e.1 then (single e.1).toList else []) =
      if sym ∈ map.map Prod.fst then (single sym).toList else [] := by
  induction map with
  | nil => rfl
  | cons e map ih =>
    obtain ⟨hnot, hrest⟩ := List.nodup_cons.mp hkeys
    rw [List.flatMap_cons, ih hrest]
    by_cases he : sym = e.1
    · subst he
      simp only [if_true, if_neg hnot, List.append_nil, List.map_cons, List.mem_cons_self]
    · rw [if_neg he, List.nil_append]
      simp only [List.map_cons, List.mem_cons, he, false_or]

private theorem pick_collected (single : String → Option PriceSample)
    (h : Grouped symbol channels map)
    (hnodup : channels.Nodup) (c : ChannelId) :
    pick c (collected single map) = reported symbol single channels c := by
  have hentry : ∀ e ∈ map, pick c (match single e.1 with
      | some sample => e.2.map fun c => (c, sample)
      | none => []) = if c ∈ channels ∧ symbol c = some e.1 then (single e.1).toList else [] := by
    intro e he
    cases hsingle : single e.1 with
    | none => simp [pick]
    | some sample =>
      simp only
      rw [h.group e he, pick_group hnodup c e.1 sample]
      rfl
  have hflat : pick c (collected single map) =
      map.flatMap fun e =>
        if c ∈ channels ∧ symbol c = some e.1 then (single e.1).toList else [] := by
    rw [pick, collected, List.filterMap_flatMap]
    exact List.flatMap_congr hentry
  rw [hflat, reported]
  by_cases hc : c ∈ channels
  · cases hsym : symbol c with
    | none => simp
    | some sym =>
      have hkey := h.all c hc sym hsym
      simp only [hc, true_and, Option.some.injEq, if_true, Option.bind_some]
      rw [flatMap_symbol h.keys, if_pos hkey]
  · simp [hc]

private theorem reported_length_le (symbol : ChannelId → Option String)
    (single : String → Option PriceSample) (channels : List ChannelId) (c : ChannelId) :
    (reported symbol single channels c).length ≤ 1 := by
  unfold reported
  split_ifs
  · cases (symbol c).bind single <;> simp
  · simp

/-- What an exchange answers, whatever the order in which it is asked. -/
theorem fetchAll_spec (name : String) (symbol : ChannelId → Option String)
    (single : String → Option PriceSample)
    {arrange : List (String × List ChannelId) → List (String × List ChannelId)}
    (harrange : ∀ map, (arrange map).Perm map) (hnodup : channels.Nodup) :
    (∃ out, fetchAll name symbol single arrange channels = .ok out ∧
        ∀ c, pick c out = reported symbol single channels c) ∧
        (∃ c, reported symbol single channels c ≠ []) ∨
      fetchAll name symbol single arrange channels =
          .error (.allSourcesFailed (if symbolToChannels symbol channels = [] then
            s!"No supported {name} symbols for the given channels"
          else s!"All {name} tickers returned invalid data")) ∧
        ∀ c, reported symbol single channels c = [] := by
  have hgrouped := (grouped_symbolToChannels symbol channels).perm (harrange _)
  have hpick := pick_collected single hgrouped hnodup
  unfold fetchAll
  cases hmap : symbolToChannels symbol channels with
  | nil =>
    refine .inr ⟨by simp, fun c => ?_⟩
    have hnil := (harrange []).eq_nil
    rw [← hpick c, hmap, hnil]
    rfl
  | cons e map =>
    rw [hmap] at hpick
    simp only
    cases hout : collected single (arrange (e :: map)) with
    | nil =>
      refine .inr ⟨by simp, fun c => ?_⟩
      rw [← hpick c, hout]
      rfl
    | cons x out =>
      refine .inl ⟨⟨x :: out, rfl, fun c => hout ▸ hpick c⟩, x.1, ?_⟩
      rw [← hpick x.1, hout]
      simp [pick]

end Groups

def SameSamples : Except OracleError (List (ChannelId × PriceSample)) →
    Except OracleError (List (ChannelId × PriceSample)) → Prop
  | .ok out, .ok out' => ∀ c, pick c out = pick c out'
  | .error e, .error e' => e = e'
  | _, _ => False

/-- The samples of an exchange that is asked several times. -/
def askedSource {α : Type} (name : String) (symbol : ChannelId → Option String)
    (single : Option α → Option PriceSample) (asked : ℕ → Option (Asked α))
    (channels : List ChannelId) : Option (List (ChannelId × PriceSample)) :=
  (withRetry fun k => (asked k).map fun a =>
    fetchAll name symbol (fun sym => single (a.answer sym)) a.arrange channels).toOption

/-- The order of the hash map is an order of its entries. -/
def Arranged {α : Type} (asked : ℕ → Option (Asked α)) : Prop :=
  ∀ k a, asked k = some a → ∀ map, (a.arrange map).Perm map

section Attempts

variable {α : Type} {name : String} {symbol : ChannelId → Option String}
  {single : Option α → Option PriceSample} {asked asked' : ℕ → Option (Asked α)}
  {channels : List ChannelId} {c c' : ChannelId}

private theorem withRetry_go_ok {β : Type} {attempt : ℕ → Option (Except OracleError β)} {v : β}
    {left k : ℕ} {last : Option OracleError} (h : withRetry.go attempt left k last = .ok v) :
    ∃ k, attempt k = some (.ok v) := by
  induction left generalizing k last with
  | zero => cases h
  | succ left ih =>
    rw [withRetry.go] at h
    cases hattempt : attempt k with
    | none =>
      rw [hattempt] at h
      exact ih h
    | some result =>
      cases result with
      | error e =>
        rw [hattempt] at h
        exact ih h
      | ok v' =>
        rw [hattempt] at h
        cases h
        exact ⟨k, hattempt⟩

private theorem withRetry_go_same (attempt attempt' :
      ℕ → Option (Except OracleError (List (ChannelId × PriceSample))))
    (h : ∀ k, SameSamples ((attempt k).getD (.error (.timeout attemptTimeoutSecs)))
      ((attempt' k).getD (.error (.timeout attemptTimeoutSecs))))
    (left k : ℕ) (last : Option OracleError) :
    SameSamples (withRetry.go attempt left k last) (withRetry.go attempt' left k last) := by
  induction left generalizing k last with
  | zero => exact rfl
  | succ left ih =>
    have hk := h k
    rw [withRetry.go, withRetry.go]
    cases hr : (attempt k).getD (.error (.timeout attemptTimeoutSecs)) with
    | ok out =>
      cases hr' : (attempt' k).getD (.error (.timeout attemptTimeoutSecs)) with
      | ok out' =>
        rw [hr, hr'] at hk
        exact hk
      | error e' =>
        rw [hr, hr'] at hk
        exact hk.elim
    | error e =>
      cases hr' : (attempt' k).getD (.error (.timeout attemptTimeoutSecs)) with
      | ok out' =>
        rw [hr, hr'] at hk
        exact hk.elim
      | error e' =>
        rw [hr, hr'] at hk
        obtain rfl : e = e' := hk
        exact ih _ _

private theorem fetchAll_same (name : String) (symbol : ChannelId → Option String)
    (single : String → Option PriceSample) (hnodup : channels.Nodup)
    {arrange arrange' : List (String × List ChannelId) → List (String × List ChannelId)}
    (h : ∀ map, (arrange map).Perm map) (h' : ∀ map, (arrange' map).Perm map) :
    SameSamples (fetchAll name symbol single arrange channels)
      (fetchAll name symbol single arrange' channels) := by
  rcases fetchAll_spec name symbol single h hnodup with ⟨⟨out, hout, hpick⟩, c, hc⟩ | ⟨herr, hnone⟩
  · rcases fetchAll_spec name symbol single h' hnodup with ⟨⟨out', hout', hpick'⟩, -⟩ | ⟨-, hnone'⟩
    · rw [hout, hout']
      exact fun c => (hpick c).trans (hpick' c).symm
    · exact absurd (hnone' c) hc
  · rcases fetchAll_spec name symbol single h' hnodup with ⟨-, c, hc⟩ | ⟨herr', -⟩
    · exact absurd (hnone c) hc
    · rw [herr, herr']
      exact rfl

/-- The order in which the tokens are asked for makes no difference. -/
theorem pick_askedSource_same (name : String) (symbol : ChannelId → Option String)
    (single : Option α → Option PriceSample) (hnodup : channels.Nodup) (h : Arranged asked)
    (h' : Arranged asked')
    (hanswers : ∀ k, (asked k).map Asked.answer = (asked' k).map Asked.answer) (c : ChannelId) :
    pick c ((askedSource name symbol single asked channels).getD []) =
      pick c ((askedSource name symbol single asked' channels).getD []) := by
  have hsame := withRetry_go_same (fun k => (asked k).map fun a =>
      fetchAll name symbol (fun sym => single (a.answer sym)) a.arrange channels)
    (fun k => (asked' k).map fun a =>
      fetchAll name symbol (fun sym => single (a.answer sym)) a.arrange channels)
    (fun k => ?_) maxRetries 1 none
  · unfold askedSource withRetry
    generalize withRetry.go _ maxRetries 1 none = r at hsame ⊢
    generalize withRetry.go _ maxRetries 1 none = r' at hsame ⊢
    cases r with
    | ok out =>
      cases r' with
      | ok out' => exact hsame c
      | error e' => exact hsame.elim
    | error e =>
      cases r' with
      | ok out' => exact hsame.elim
      | error e' => rfl
  · have hk := hanswers k
    cases ha : asked k with
    | none =>
      cases ha' : asked' k with
      | none => exact rfl
      | some a' =>
        rw [ha, ha'] at hk
        cases hk
    | some a =>
      cases ha' : asked' k with
      | none =>
        rw [ha, ha'] at hk
        cases hk
      | some a' =>
        rw [ha, ha', Option.map_some, Option.map_some, Option.some.injEq] at hk
        simp only [Option.map_some, Option.getD_some, hk]
        exact fetchAll_same name symbol _ hnodup (h k a ha) (h' k a' ha')

/-- An exchange has one table of answers for all channels. -/
theorem pick_askedSource (name : String) (symbol : ChannelId → Option String)
    (single : Option α → Option PriceSample) (hnodup : channels.Nodup) (h : Arranged asked) :
    ∃ single', ∀ c, pick c ((askedSource name symbol single asked channels).getD []) =
      reported symbol single' channels c := by
  cases hsource : askedSource name symbol single asked channels with
  | none =>
    refine ⟨fun _ => none, fun c => ?_⟩
    unfold reported
    split_ifs <;> simp [pick]
  | some out =>
    unfold askedSource at hsource
    cases hresult : withRetry fun k => (asked k).map fun a =>
        fetchAll name symbol (fun sym => single (a.answer sym)) a.arrange channels with
    | error e =>
      rw [hresult] at hsource
      cases hsource
    | ok out' =>
      rw [hresult] at hsource
      cases hsource
      obtain ⟨k, hk⟩ := withRetry_go_ok hresult
      obtain ⟨a, ha, hfetch⟩ := Option.map_eq_some_iff.mp hk
      refine ⟨fun sym => single (a.answer sym), ?_⟩
      rcases fetchAll_spec name symbol (fun sym => single (a.answer sym)) (h k a ha) hnodup with
        ⟨⟨out'', hout, hpick⟩, -⟩ | ⟨herr, -⟩
      · rw [hfetch] at hout
        cases hout
        exact hpick
      · rw [hfetch] at herr
        cases herr

theorem length_pick_askedSource (hnodup : channels.Nodup) (h : Arranged asked) (c : ChannelId) :
    (pick c ((askedSource name symbol single asked channels).getD [])).length ≤ 1 := by
  obtain ⟨single', hpick⟩ := pick_askedSource name symbol single hnodup h
  rw [hpick c]
  exact reported_length_le _ _ _ _

theorem pick_askedSource_symbol (hnodup : channels.Nodup) (h : Arranged asked)
    (hsym : symbol c = symbol c') (hc : c ∈ channels) (hc' : c' ∈ channels) :
    pick c ((askedSource name symbol single asked channels).getD []) =
      pick c' ((askedSource name symbol single asked channels).getD []) := by
  obtain ⟨single', hpick⟩ := pick_askedSource name symbol single hnodup h
  rw [hpick c, hpick c', reported, reported, if_pos hc, if_pos hc', hsym]

end Attempts

/-- A source has a valid sample for a channel within a tenth of a price. -/
def reportsNear (med : ℚ) (c : ChannelId)
    (source : Option (List (ChannelId × PriceSample))) : Bool :=
  (keptSamples med (validSamples (pick c (source.getD [])))).length = 1

def SameToken (c c' : ChannelId) : Prop :=
  mexcSymbol c = mexcSymbol c' ∧ bybitSymbol c = bybitSymbol c' ∧ gateioSymbol c = gateioSymbol c'

namespace PriceFeed

structure Arranged (feed : PriceFeed) : Prop where
  mexc : Oracle.Arranged feed.mexc
  bybit : Oracle.Arranged feed.bybit
  gateio : Oracle.Arranged feed.gateio

/-- The same answers, asked for in another order. -/
structure SameAnswers (feed feed' : PriceFeed) : Prop where
  mexc : ∀ k, (feed.mexc k).map Asked.answer = (feed'.mexc k).map Asked.answer
  bybit : ∀ k, (feed.bybit k).map Asked.answer = (feed'.bybit k).map Asked.answer
  gateio : ∀ k, (feed.gateio k).map Asked.answer = (feed'.gateio k).map Asked.answer

variable {target : Target} {feed feed' : PriceFeed} {channels : List ChannelId} {c c' : ChannelId}

theorem channelSamples_eq (sources : List (Option (List (ChannelId × PriceSample))))
    (c : ChannelId) :
    channelSamples sources c = sources.flatMap fun source => pick c (source.getD []) :=
  List.filterMap_flatMap ..

theorem forall_sources {P : Option (List (ChannelId × PriceSample)) → Prop}
    (hmexc : P (askedSource "MEXC" mexcSymbol mexcSingle feed.mexc channels))
    (hbybit : P (askedSource "Bybit" bybitSymbol bybitSingle feed.bybit channels))
    (hgateio : P (askedSource "Gate.io" gateioSymbol gateioSingle feed.gateio channels)) :
    ∀ source ∈ feed.sources target channels, P source := by
  cases target with
  | native =>
    intro source hsource
    rcases List.mem_cons.mp hsource with rfl | hsource
    · exact hmexc
    · rcases List.mem_cons.mp hsource with rfl | hsource
      · exact hbybit
      · exact List.mem_singleton.mp hsource ▸ hgateio
  | wasm32 =>
    intro source hsource
    exact List.mem_singleton.mp hsource ▸ hbybit

private theorem channelSamples_same (target : Target) (hnodup : channels.Nodup) (h : feed.Arranged)
    (h' : feed'.Arranged) (hsame : feed.SameAnswers feed') (c : ChannelId) :
    channelSamples (feed.sources target channels) c =
      channelSamples (feed'.sources target channels) c := by
  have hmexc := pick_askedSource_same "MEXC" mexcSymbol mexcSingle hnodup
    h.mexc h'.mexc hsame.mexc c
  have hbybit := pick_askedSource_same "Bybit" bybitSymbol bybitSingle hnodup
    h.bybit h'.bybit hsame.bybit c
  have hgateio := pick_askedSource_same "Gate.io" gateioSymbol gateioSingle hnodup
    h.gateio h'.gateio hsame.gateio c
  rw [channelSamples_eq, channelSamples_eq]
  cases target with
  | native =>
    change pick c _ ++ (pick c _ ++ (pick c _ ++ [])) = pick c _ ++ (pick c _ ++ (pick c _ ++ []))
    exact congrArg₂ _ hmexc (congrArg₂ _ hbybit (congrArg (· ++ []) hgateio))
  | wasm32 => exact congrArg (· ++ []) hbybit

private theorem channelSamples_token (hnodup : channels.Nodup) (h : feed.Arranged)
    (htoken : SameToken c c') (hc : c ∈ channels) (hc' : c' ∈ channels) :
    channelSamples (feed.sources target channels) c =
      channelSamples (feed.sources target channels) c' := by
  rw [channelSamples_eq, channelSamples_eq]
  apply List.flatMap_congr
  apply forall_sources
  · exact pick_askedSource_symbol hnodup h.mexc htoken.1 hc hc'
  · exact pick_askedSource_symbol hnodup h.bybit htoken.2.1 hc hc'
  · exact pick_askedSource_symbol hnodup h.gateio htoken.2.2 hc hc'

private theorem length_pick_source (hnodup : channels.Nodup) (h : feed.Arranged) (c : ChannelId) :
    ∀ source ∈ feed.sources target channels, (pick c (source.getD [])).length ≤ 1 :=
  forall_sources (length_pick_askedSource hnodup h.mexc c)
    (length_pick_askedSource hnodup h.bybit c) (length_pick_askedSource hnodup h.gateio c)

end PriceFeed

private theorem length_kept_le {sources : List (Option (List (ChannelId × PriceSample)))}
    {c : ChannelId}
    (med : ℚ) (h : ∀ source ∈ sources, (pick c (source.getD [])).length ≤ 1) :
    (keptSamples med (validSamples (channelSamples sources c))).length ≤
      sources.countP (reportsNear med c) := by
  rw [PriceFeed.channelSamples_eq, validSamples, List.filterMap_flatMap, keptSamples,
    List.filter_flatMap]
  induction sources with
  | nil => simp
  | cons source sources ih =>
    have hrest := ih fun s hs => h s (List.mem_cons_of_mem _ hs)
    have hone : (keptSamples med (validSamples (pick c (source.getD [])))).length ≤ 1 :=
      (List.length_filter_le _ _).trans
        ((List.length_filterMap_le _ _).trans (h source List.mem_cons_self))
    rw [List.flatMap_cons, List.length_append, List.countP_cons]
    have hfirst : (keptSamples med (validSamples (pick c (source.getD [])))).length ≤
        if reportsNear med c source then 1 else 0 := by
      unfold reportsNear
      split_ifs with hnear
      · exact hone
      · rw [decide_eq_true_eq] at hnear
        omega
    change (keptSamples med (validSamples (pick c (source.getD [])))).length + _ ≤ _
    omega

private theorem robustPrice_sources {target : Target} {samples : List PriceSample} {p : ℚ}
    (h : robustPrice target samples = some p) :
    ∃ med, 0 < med ∧ |p - med| ≤ med / 10 ∧
      minSources target ≤ (keptSamples med (validSamples samples)).length := by
  obtain ⟨med, hpos, hkept, rfl, -⟩ := robustPrice_checked h
  have hne : keptSamples med (validSamples samples) ≠ [] :=
    List.length_pos_iff.mp (lt_of_lt_of_le (minSources_pos target) hkept)
  exact ⟨med, hpos, weightedPrice_near hpos hne, hkept⟩

private theorem mem_aggregate {target : Target}
    {sources : List (Option (List (ChannelId × PriceSample)))}
    {channels : List ChannelId} {prices : List (ChannelId × ℚ)}
    (h : aggregate target sources channels = .ok prices) {c : ChannelId} {p : ℚ}
    (hc : c ∈ channels) (hp : robustPrice target (channelSamples sources c) = some p) :
    (c, p) ∈ prices := by
  unfold aggregate at h
  split at h
  · cases h
  · cases h
    exact List.mem_filterMap.mpr ⟨c, hc, by rw [hp]; rfl⟩

/-- What the prices of a round have in common with all prices that could have come of it. -/
structure Agreed (target : Target) (feed : PriceFeed) (channels : List ChannelId)
    (prices : List (ChannelId × ℚ)) : Prop where
  /-- As many exchanges as are asked for agree on a price up to a tenth. -/
  sources : ∀ c p, (c, p) ∈ prices → ∃ med, 0 < med ∧ |p - med| ≤ med / 10 ∧
    minSources target ≤ (feed.sources target channels).countP (reportsNear med c)
  /-- Channels of one token have one price. -/
  tokens : ∀ c c' p, (c, p) ∈ prices → c' ∈ channels → SameToken c c' → (c', p) ∈ prices

/-- Whatever the exchanges answer to any attempt, and in whatever order the tokens are asked for:
the prices of a round do not depend on that order, every one of them rests on as many different
exchanges as are asked for, and channels of one token have one price. -/
theorem aggregate_agreed (target : Target) (feed : PriceFeed) (harranged : feed.Arranged)
    (channels : List ChannelId) (hnodup : channels.Nodup) :
    (∀ feed' : PriceFeed, feed'.Arranged → feed.SameAnswers feed' →
      feed'.aggregate target channels = feed.aggregate target channels) ∧
    ∀ prices, feed.aggregate target channels = .ok prices → Agreed target feed channels prices := by
  constructor
  · intro feed' harranged' hsame
    unfold PriceFeed.aggregate aggregate
    simp only [PriceFeed.channelSamples_same target hnodup harranged harranged' hsame]
  · intro prices hprices
    refine ⟨fun c p hp => ?_, fun c c' p hp hc' htoken => ?_⟩
    · obtain ⟨-, hprice⟩ := mem_of_aggregate hprices hp
      obtain ⟨med, hmed, hnear, hkept⟩ := robustPrice_sources hprice
      exact ⟨med, hmed, hnear, hkept.trans
        (length_kept_le med (PriceFeed.length_pick_source hnodup harranged c))⟩
    · obtain ⟨hc, hprice⟩ := mem_of_aggregate hprices hp
      rw [PriceFeed.channelSamples_token hnodup harranged htoken hc hc'] at hprice
      exact mem_aggregate hprices hc' hprice

def plainTicker (price : ℚ) : Ticker := ⟨some (.finite price), some (.finite 10)⟩

/-- Two exchanges answer at once, and the third not at all. -/
def twoExchanges (arrange : List (String × List ChannelId) → List (String × List ChannelId)) :
    PriceFeed where
  mexc _ := some ⟨fun _ => some (plainTicker 1), arrange⟩
  bybit _ := some ⟨fun _ => some (0, [plainTicker 1]), arrange⟩
  gateio _ := none

theorem aggregate_agreed_sample :
    (twoExchanges List.reverse).aggregate .native ChannelId.all =
        .ok (ChannelId.all.map fun c => (c, 1)) ∧
      (twoExchanges id).aggregate .native ChannelId.all =
        (twoExchanges List.reverse).aggregate .native ChannelId.all ∧
      Agreed .native (twoExchanges List.reverse) ChannelId.all
        (ChannelId.all.map fun c => (c, 1)) := by
  have harranged : (twoExchanges List.reverse).Arranged := by
    refine ⟨fun k a ha map => ?_, fun k a ha map => ?_, fun k a ha => ?_⟩
    · cases ha
      exact map.reverse_perm
    · cases ha
      exact map.reverse_perm
    · cases ha
  have harranged' : (twoExchanges id).Arranged := by
    refine ⟨fun k a ha map => ?_, fun k a ha map => ?_, fun k a ha => ?_⟩
    · cases ha
      exact .refl _
    · cases ha
      exact .refl _
    · cases ha
  have hprices : (twoExchanges List.reverse).aggregate .native ChannelId.all =
      .ok (ChannelId.all.map fun c => (c, 1)) := by
    decide +kernel
  obtain ⟨hsame, hagreed⟩ :=
    aggregate_agreed .native (twoExchanges List.reverse) harranged ChannelId.all (by decide)
  exact ⟨hprices, hsame _ harranged' ⟨fun _ => rfl, fun _ => rfl, fun _ => rfl⟩,
    hagreed _ hprices⟩

end Stroemnet.Oracle
