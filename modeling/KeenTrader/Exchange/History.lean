import KeenTrader.Library.Paging
import KeenTrader.Engine.Precision
import KeenTrader.Exchange.Binance
import KeenTrader.Exchange.Okx

/-!
# Bar history

`query_history` of both exchanges reads the candles of a contract page by page: OKX backwards from
the end of the range, Binance forwards from its start. The server is a parameter, and the loops take
as many rounds as they are given. What they log is left out.
-/

namespace KeenTrader.Exchange

open Std (ExtTreeMap)
open KeenTrader.Engine Handlers Binance Paging

/-- An answer of the server, with its body where that is JSON. -/
structure Response where
  status : ℤ
  body : Option Json.Value

/-- What a server answers to a request of a path with some parameters. -/
abbrev Server := AString → Params → Response

/-- `history.sort`, which is stable. -/
def sortBars (history : List BarData) : List BarData :=
  history.mergeSort fun a b => a.datetime ≤ b.datetime

/-- A candle, with the values that its row is sent with. -/
structure Candle where
  time : ℤ
  stamp : Json.Value
  openPrice : Json.Value
  highPrice : Json.Value
  lowPrice : Json.Value
  closePrice : Json.Value
  volume : Json.Value
  rest : List Json.Value := []

def Candle.row (c : Candle) : Json.Value :=
  .array (c.stamp :: c.openPrice :: c.highPrice :: c.lowPrice :: c.closePrice :: c.volume :: c.rest)

/-- The candles of a contract, no two of which have the same time. -/
abbrev CandleStore := Store Candle.time

/-! ## OKX -/

namespace OkxRestApi

def intervalKt2okx : Table Engine.Interval AString :=
  [(.minute, "1m"), (.hour, "1H"), (.daily, "1D")]

def candlesPath : AString := "/api/v5/market/candles"

def candlesParams (req : HistoryRequest) (after : AString) : Params :=
  ExtTreeMap.ofList
    [("instId", req.symbol), ("limit", "100"), ("bar", intervalKt2okx.at req.interval),
     ("after", after)]

/-- The bar of a row; a row that is too short has none. -/
def rowBar (req : HistoryRequest) : Json.Value → Except Json.Error (Option BarData)
  | .array (stamp :: openPrice :: highPrice :: lowPrice :: closePrice :: volume :: _) => do
    let stamp ← stamp.string?
    pure (some
      { exchangeName := OkxExchange.exchangeName, symbol := req.symbol, exchange := req.exchange
        datetime := atoll stamp, interval := req.interval, volume := jsonToFloat volume
        openPrice := jsonToFloat openPrice, highPrice := jsonToFloat highPrice
        lowPrice := jsonToFloat lowPrice, closePrice := jsonToFloat closePrice })
  | _ => pure none

/-- The loop over the rows of a page. -/
def pushRows (req : HistoryRequest) : List Json.Value → Handler Json.Error (List BarData) Unit
  | [] => pure ()
  | row :: rows => do
    let bar ← liftM (rowBar req row)
    modify (· ++ bar.toList)
    pushRows req rows

def stampOf (row : Json.Value) : Except Json.Error AString := row.element 0 >>= Json.Value.string?

/-- One page, and the stamp of its last row where the loop goes on. -/
def readPage (req : HistoryRequest) (data : Json.Value) :
    Handler Json.Error (List BarData) (Option AString) :=
  match data.get? "data" with
  | none => pure none
  | some barData =>
    if barData.isEmpty then pure none
    else do
      pushRows req barData.items
      let begin ← liftM (stampOf (barData.items.getLastD .null))
      let _ ← liftM (stampOf (barData.items.headD .null))
      pure (if atoll begin ≤ req.start then none else some begin)

/-- The loop of `query_history`. A page that cannot be read leaves the rows before the one that
failed. -/
def candlesLoop (server : Server) (req : HistoryRequest) :
    ℕ → AString → List BarData → Option (List BarData)
  | 0, _, _ => none
  | n + 1, after, history =>
    let resp := server candlesPath (candlesParams req after)
    if resp.status.tdiv 100 ≠ 2 then some history
    else
      match resp.body with
      | none => some history
      | some data =>
        match (readPage req data).exec history with
        | (.ok (some after), history) => candlesLoop server req n after history
        | (_, history) => some history

/-- What is returned, if the given number of rounds is enough. -/
def queryHistory (s : OkxExchange) (server : Server) (req : HistoryRequest) (rounds : ℕ) :
    Option (List BarData) :=
  match s.getContractBySymbol req.symbol with
  | none => some []
  | some _ => (candlesLoop server req rounds (toString req.end) []).map sortBars

def barOf (req : HistoryRequest) (c : Candle) : BarData :=
  { exchangeName := OkxExchange.exchangeName, symbol := req.symbol, exchange := req.exchange
    datetime := c.time, interval := req.interval, volume := jsonToFloat c.volume
    openPrice := jsonToFloat c.openPrice, highPrice := jsonToFloat c.highPrice
    lowPrice := jsonToFloat c.lowPrice, closePrice := jsonToFloat c.closePrice }

/-- The server answers every request with the latest 100 candles that are older than `after`. -/
structure Serves (server : Server) (req : HistoryRequest) (store : CandleStore) : Prop where
  stamps : ∀ c ∈ store.items, c.stamp = .string (toString c.time)
  pages : ∀ after : ℤ, ∃ status data,
    server candlesPath (candlesParams req (toString after)) = ⟨status, some data⟩ ∧
      status.tdiv 100 = 2 ∧
      data.get? "data" = some (.array ((store.latest 100 after).map Candle.row))

/-- The bars are sorted, none twice, all of candles before the end of the range, and all candles of
the range are among them. -/
structure Covers (store : CandleStore) (req : HistoryRequest) (history : List BarData) : Prop where
  ascending : history.Pairwise fun a b => a.datetime < b.datetime
  sound : ∀ bar ∈ history, ∃ c ∈ store.items, c.time < req.end ∧ bar = barOf req c
  complete : ∀ c ∈ store.items, req.start ≤ c.time → c.time < req.end → barOf req c ∈ history

/-! ### Pages of OKX -/

variable {server : Server} {req : HistoryRequest} {store : CandleStore} {history : List BarData}

theorem rowBar_row {c : Candle} (stamp : c.stamp = .string (toString c.time)) :
    rowBar req c.row = .ok (some (barOf req c)) := by
  rw [Candle.row, stamp]
  change Except.ok _ = _
  rw [atoll_toString]
  rfl

theorem exec_pushRows {page : List Candle}
    (stamps : ∀ c ∈ page, c.stamp = .string (toString c.time)) :
    (pushRows req (page.map Candle.row)).exec history =
      (.ok (), history ++ page.map (barOf req)) := by
  induction page generalizing history with
  | nil => simp [pushRows]
  | cons c page ih =>
    rw [List.forall_mem_cons] at stamps
    rw [List.map_cons, pushRows, rowBar_row stamps.1, exec_lift_ok_bind, exec_modify_bind,
      ih stamps.2]
    simp

theorem stampOf_row {c : Candle} (stamp : c.stamp = .string (toString c.time)) :
    stampOf c.row = .ok (toString c.time) := by
  rw [stampOf, Candle.row, stamp]
  rfl

theorem exec_readPage {data : Json.Value} {page : List Candle}
    (stamps : ∀ c ∈ page, c.stamp = .string (toString c.time))
    (rows : data.get? "data" = some (.array (page.map Candle.row))) :
    (readPage req data).exec history =
      (.ok (page.getLast?.bind fun c =>
          if c.time ≤ req.start then none else some (toString c.time)),
        history ++ page.map (barOf req)) := by
  unfold readPage
  rw [rows]
  cases page with
  | nil => simp [Json.Value.isEmpty, Json.Value.items]
  | cons first page =>
    have last : ((first :: page).map Candle.row).getLastD .null =
        ((first :: page).getLast (by simp)).row := by
      rw [List.getLastD_eq_getLast?, List.getLast?_map, List.getLast?_eq_some_getLast (by simp)]
      rfl
    have newest := stampOf_row (stamps first (by simp))
    have oldest := stampOf_row (stamps _ (List.getLast_mem (by simp : first :: page ≠ [])))
    dsimp only
    rw [if_neg (by simp [Json.Value.isEmpty, Json.Value.items]), Json.Value.items,
      exec_bind_ok (exec_pushRows stamps), last, oldest, exec_lift_ok_bind]
    simp only [List.map_cons, List.headD_cons]
    rw [newest, exec_lift_ok_bind, exec_pure, atoll_toString,
      List.getLast?_eq_some_getLast (by simp)]
    rfl

/-- One round reads one page, and goes on before its oldest candle. -/
theorem candlesLoop_succ (serves : Serves server req store) (bound : ℤ) (read : List Candle)
    (rounds : ℕ) :
    candlesLoop server req (rounds + 1) (toString bound) (read.map (barOf req)) =
      match (store.latest 100 bound).getLast? with
      | none => some ((read ++ store.latest 100 bound).map (barOf req))
      | some c =>
        if c.time ≤ req.start then some ((read ++ store.latest 100 bound).map (barOf req))
        else
          candlesLoop server req rounds (toString c.time)
            ((read ++ store.latest 100 bound).map (barOf req)) := by
  obtain ⟨status, data, answer, succeeded, rows⟩ := serves.pages bound
  have stamps : ∀ c ∈ store.latest 100 bound, c.stamp = .string (toString c.time) := by
    intro c mem
    have item : c ∈ store.before bound := List.mem_reverse.mp (List.mem_of_mem_take mem)
    exact serves.stamps c (Store.mem_before.mp item).1
  rw [candlesLoop, answer, if_neg (by simp [succeeded])]
  dsimp only
  rw [exec_readPage stamps rows, ← List.map_append]
  cases (store.latest 100 bound).getLast? with
  | none => rfl
  | some c =>
    rw [Option.bind_some]
    by_cases reached : c.time ≤ req.start
    · simp only [if_pos reached]
    · simp only [if_neg reached]

/-- The loop ends, and leaves out nothing but candles that are older than the range. What it has
read lies behind the bound of its next page. -/
theorem exists_candlesLoop (serves : Serves server req store) (bound : ℤ) (read : List Candle)
    (behind : store.before req.end = store.before bound ++ read.reverse) :
    ∃ all older : List Candle,
      store.before req.end = older ++ all.reverse ∧ (∀ c ∈ older, c.time < req.start) ∧
      ∀ rounds > (store.before bound).length,
        candlesLoop server req rounds (toString bound) (read.map (barOf req)) =
          some (all.map (barOf req)) := by
  induction size : (store.before bound).length using Nat.strong_induction_on
    generalizing bound read with
  | _ left ih =>
    cases oldest : (store.latest 100 bound).getLast? with
    | none =>
      have empty := List.getLast?_eq_none_iff.mp oldest
      refine ⟨read, store.before bound, behind, ?_, ?_⟩
      · simp [(Store.latest_eq_nil_iff (by decide)).mp empty]
      · rintro (_ | rounds) enough
        · omega
        · rw [candlesLoop_succ serves, empty]
          simp
    | some c =>
      have page := Store.before_eq_append oldest
      have behind' : store.before req.end =
          store.before c.time ++ (read ++ store.latest 100 bound).reverse := by
        rw [behind, page, List.reverse_append, List.append_assoc]
      by_cases reached : c.time ≤ req.start
      · refine ⟨_, store.before c.time, behind', fun d older => ?_, ?_⟩
        · exact (Store.mem_before.mp older).2.trans_le reached
        · rintro (_ | rounds) enough
          · omega
          · rw [candlesLoop_succ serves, oldest]
            exact if_pos reached
      · have shorter : (store.before c.time).length < left := by
          have lengths := congrArg List.length page
          have some := List.length_pos_of_mem (List.mem_of_getLast? oldest)
          rw [List.length_append, List.length_reverse] at lengths
          omega
        obtain ⟨all, older, split, early, loop⟩ := ih _ shorter c.time _ behind' rfl
        refine ⟨all, older, split, early, ?_⟩
        rintro (_ | rounds) enough
        · omega
        · rw [candlesLoop_succ serves, oldest]
          exact (if_neg reached).trans (loop rounds (by omega))

/-- For a contract that is known the loop ends, and what it returns covers the range. -/
theorem queryHistory_covers (s : OkxExchange) (server : Server) (req : HistoryRequest)
    (store : CandleStore) (known : (s.getContractBySymbol req.symbol).isSome)
    (serves : Serves server req store) :
    ∃ history, Covers store req history ∧
      ∃ enough, ∀ rounds ≥ enough, queryHistory s server req rounds = some history := by
  obtain ⟨contract, found⟩ := Option.isSome_iff_exists.mp known
  obtain ⟨all, older, split, early, loop⟩ := exists_candlesLoop serves req.end [] (by simp)
  have ascending := store.before_ascending req.end
  rw [split, List.pairwise_append] at ascending
  have sorted : (all.reverse.map (barOf req)).Pairwise fun a b => a.datetime < b.datetime :=
    List.pairwise_map.mpr ascending.2.1
  refine ⟨all.reverse.map (barOf req), ⟨sorted, fun bar mem => ?_, fun c item low high => ?_⟩,
    (store.before req.end).length + 1, fun rounds enough => ?_⟩
  · obtain ⟨c, read, rfl⟩ := List.mem_map.mp mem
    have before : c ∈ store.before req.end := by
      rw [split]
      exact List.mem_append_right _ read
    obtain ⟨item, high⟩ := Store.mem_before.mp before
    exact ⟨c, item, high, rfl⟩
  · have before : c ∈ store.before req.end := Store.mem_before.mpr ⟨item, high⟩
    rw [split] at before
    refine List.mem_map_of_mem ((List.mem_append.mp before).resolve_left fun old => ?_)
    exact absurd low (not_le.mpr (early c old))
  · have read := loop rounds (by omega)
    rw [List.map_nil] at read
    rw [queryHistory, found]
    dsimp only
    rw [read, Option.map_some, sortBars, Option.some_inj]
    exact Store.mergeSort_eq ((List.reverse_perm all).symm.map _) sorted

end OkxRestApi

/-! ## Binance -/

namespace BinanceRestApi

def klinesPath : AString := "/fapi/v1/klines"

def klinesLimit : ℕ := 1500

def klinesParams (contract : ContractData) (req : HistoryRequest) (startMs : ℤ) : Params :=
  let interval :=
    if req.interval = .minute then "1m" else if req.interval = .hour then "1h" else "1d"
  let params : Params :=
    ExtTreeMap.ofList
      [("symbol", contract.name), ("interval", interval), ("limit", toString klinesLimit),
       ("startTime", toString startMs)]
  if req.end ≠ 0 then params.insert "endTime" (toString req.end) else params

def klineTime : Json.Value → Except Json.Error ℤ
  | .int n => .ok n
  | .float q => .ok (q.num.tdiv q.den)
  | stamp => atoll <$> stamp.string?

/-- The bar of a row; a row that is too short has none. -/
def klineBar (req : HistoryRequest) : Json.Value → Except Json.Error (Option BarData)
  | .array (stamp :: openPrice :: highPrice :: lowPrice :: closePrice :: volume :: rest) => do
    let ts ← klineTime stamp
    pure (some
      { exchangeName := BinanceExchange.exchangeName, symbol := req.symbol, exchange := req.exchange
        datetime := ts, interval := req.interval, volume := jsonToFloat volume
        openInterest := (rest[1]?.map jsonToFloat).getD 0
        openPrice := jsonToFloat openPrice, highPrice := jsonToFloat highPrice
        lowPrice := jsonToFloat lowPrice, closePrice := jsonToFloat closePrice })
  | _ => pure none

/-- The loop over the rows of a page. -/
def klineBars (req : HistoryRequest) : List Json.Value → Except Json.Error (List BarData)
  | [] => pure []
  | row :: rows => do
    let bar ← klineBar req row
    let bars ← klineBars req rows
    pure (bar.toList ++ bars)

/-- From the time of a bar to that of the next one. -/
def addMs (interval : Engine.Interval) : ℤ :=
  if interval = .hour then 60 * 60 * 1000
  else if interval = .daily then 24 * 60 * 60 * 1000
  else 60000

/-- The loop of `query_history`. A page that cannot be read is dropped. -/
def klinesLoop (server : Server) (contract : ContractData) (req : HistoryRequest) :
    ℕ → ℤ → List BarData → Option (List BarData)
  | 0, _, _ => none
  | n + 1, startMs, history =>
    let resp := server klinesPath (klinesParams contract req startMs)
    if resp.status.tdiv 100 ≠ 2 then some history
    else
      match resp.body with
      | some (.array data) =>
        match klineBars req data with
        | .error _ => some history
        | .ok buf =>
          match buf.getLast? with
          | none => some history
          | some last =>
            if data.length < klinesLimit ∨ req.end ≠ 0 ∧ req.end ≤ last.datetime then
              some (history ++ buf)
            else
              klinesLoop server contract req n (last.datetime + addMs req.interval) (history ++ buf)
      | _ => some history

/-- What is returned, if the given number of rounds is enough. The last bar is taken to be of a
candle that is not closed. -/
def queryHistory (s : BinanceExchange) (server : Server) (req : HistoryRequest) (rounds : ℕ) :
    Option (List BarData) :=
  match s.getContractBySymbol req.symbol with
  | none => some []
  | some contract =>
    (klinesLoop server contract req rounds req.start []).map fun history =>
      (sortBars history).dropLast

def barOf (req : HistoryRequest) (c : Candle) : BarData :=
  { exchangeName := BinanceExchange.exchangeName, symbol := req.symbol, exchange := req.exchange
    datetime := c.time, interval := req.interval, volume := jsonToFloat c.volume
    openInterest := (c.rest[1]?.map jsonToFloat).getD 0
    openPrice := jsonToFloat c.openPrice, highPrice := jsonToFloat c.highPrice
    lowPrice := jsonToFloat c.lowPrice, closePrice := jsonToFloat c.closePrice }

/-- The server answers every request for a contract that is known with the earliest 1500 candles
from `startTime` to `endTime`. All candles open at multiples of the interval. -/
structure Serves (s : BinanceExchange) (server : Server) (req : HistoryRequest)
    (store : CandleStore) : Prop where
  stamps : ∀ c ∈ store.items, klineTime c.stamp = .ok c.time
  multiples : ∀ c ∈ store.items, addMs req.interval ∣ c.time
  pages : ∀ contract, s.getContractBySymbol req.symbol = some contract → ∀ startTime : ℤ, ∃ status,
    server klinesPath (klinesParams contract req startTime) =
        ⟨status, some (.array ((store.earliest klinesLimit startTime req.end).map Candle.row))⟩ ∧
      status.tdiv 100 = 2

/-- The loop ends, and what is returned are the bars of all candles of the range. -/
def Exact (s : BinanceExchange) (server : Server) (req : HistoryRequest) (store : CandleStore) :
    Prop :=
  ∃ enough, ∀ rounds ≥ enough,
    queryHistory s server req rounds = some ((store.between req.start req.end).map (barOf req))

/-! ### Pages of Binance -/

variable {s : BinanceExchange} {server : Server} {req : HistoryRequest} {store : CandleStore}
  {contract : ContractData}

theorem klineBars_rows {page : List Candle} (stamps : ∀ c ∈ page, klineTime c.stamp = .ok c.time) :
    klineBars req (page.map Candle.row) = .ok (page.map (barOf req)) := by
  induction page with
  | nil => rfl
  | cons c page ih =>
    rw [List.forall_mem_cons] at stamps
    have bar : klineBar req c.row = .ok (some (barOf req c)) := by
      rw [Candle.row, klineBar, stamps.1]
      rfl
    rw [List.map_cons, klineBars, bar, ih stamps.2]
    rfl

theorem addMs_pos (interval : Engine.Interval) : 0 < addMs interval := by
  unfold addMs
  split
  · decide
  split <;> decide

example : [.minute, .hour, .daily].map addMs = [60000, 3600000, 86400000] := by decide

/-- Behind a candle the next one opens an interval later, or after that. -/
theorem Serves.gap (serves : Serves s server req store) {c d : Candle} (item : c ∈ store.items)
    (item' : d ∈ store.items) (later : c.time < d.time) : c.time + addMs req.interval ≤ d.time := by
  have apart := Int.le_of_dvd (by omega)
    (dvd_sub (serves.multiples d item') (serves.multiples c item))
  omega

/-- One round reads one page, and goes on behind its newest candle. -/
theorem klinesLoop_succ (serves : Serves s server req store)
    (found : s.getContractBySymbol req.symbol = some contract) (startMs : ℤ) (read : List Candle)
    (rounds : ℕ) :
    klinesLoop server contract req (rounds + 1) startMs (read.map (barOf req)) =
      match (store.earliest klinesLimit startMs req.end).getLast? with
      | none => some (read.map (barOf req))
      | some c =>
        if (store.earliest klinesLimit startMs req.end).length < klinesLimit ∨
            req.end ≠ 0 ∧ req.end ≤ c.time then
          some ((read ++ store.earliest klinesLimit startMs req.end).map (barOf req))
        else
          klinesLoop server contract req rounds (c.time + addMs req.interval)
            ((read ++ store.earliest klinesLimit startMs req.end).map (barOf req)) := by
  obtain ⟨status, answer, succeeded⟩ := serves.pages contract found startMs
  have stamps : ∀ c ∈ store.earliest klinesLimit startMs req.end,
      klineTime c.stamp = .ok c.time := by
    intro c mem
    exact serves.stamps c (Store.mem_between.mp (List.mem_of_mem_take mem)).1
  rw [klinesLoop, answer, if_neg (by simp [succeeded])]
  dsimp only
  rw [klineBars_rows stamps]
  dsimp only
  rw [List.getLast?_map, ← List.map_append, List.length_map]
  cases (store.earliest klinesLimit startMs req.end).getLast? with
  | none => rfl
  | some c => rfl

/-- The loop ends, and has read the whole range. What it has read lies before the start of its next
page. -/
theorem klinesLoop_eq (serves : Serves s server req store)
    (found : s.getContractBySymbol req.symbol = some contract) (startMs : ℤ) (read : List Candle)
    (before : store.between req.start req.end = read ++ store.between startMs req.end) (rounds : ℕ)
    (enough : (store.between startMs req.end).length < rounds) :
    klinesLoop server contract req rounds startMs (read.map (barOf req)) =
      some ((store.between req.start req.end).map (barOf req)) := by
  induction rounds generalizing startMs read with
  | zero => omega
  | succ rounds ih =>
    rw [klinesLoop_succ serves found]
    cases newest : (store.earliest klinesLimit startMs req.end).getLast? with
    | none =>
      have empty := List.getLast?_eq_none_iff.mp newest
      have none : store.between startMs req.end = [] := by
        simpa [Store.earliest, klinesLimit] using empty
      rw [before, none, List.append_nil]
    | some c =>
      have mem := Store.mem_between.mp (List.mem_of_mem_take (List.mem_of_getLast? newest))
      have past := lt_add_of_pos_right c.time (addMs_pos req.interval)
      have page := Store.between_eq_append newest past
        fun d item later => serves.gap mem.1 item later
      dsimp only
      split
      · rename_i stop
        have last : store.between (c.time + addMs req.interval) req.end = [] := by
          rcases stop with short | ⟨-, reached⟩
          · rw [Store.earliest_of_short short] at page
            exact List.self_eq_append_right.mp page
          · refine List.eq_nil_iff_forall_not_mem.mpr fun d later => ?_
            have positive := addMs_pos req.interval
            have within := (Store.mem_between.mp later).2
            have near : d.time ≤ c.time := within.2.trans reached
            omega
        rw [before, page, last, List.append_nil]
      · refine ih _ _ (by rw [before, page, List.append_assoc]) ?_
        have lengths := congrArg List.length page
        have some := List.length_pos_of_mem (List.mem_of_getLast? newest)
        rw [List.length_append] at lengths
        omega

/-- What is returned lacks the last candle of the range. -/
theorem queryHistory_eq (serves : Serves s server req store)
    (found : s.getContractBySymbol req.symbol = some contract) {rounds : ℕ}
    (enough : (store.between req.start req.end).length < rounds) :
    queryHistory s server req rounds =
      some ((store.between req.start req.end).dropLast.map (barOf req)) := by
  have read := klinesLoop_eq serves found req.start [] rfl rounds enough
  have sorted : ((store.between req.start req.end).map (barOf req)).Pairwise
      fun a b => a.datetime < b.datetime :=
    List.pairwise_map.mpr (store.between_ascending _ _)
  rw [List.map_nil] at read
  rw [queryHistory, found]
  dsimp only
  rw [read, Option.map_some, sortBars, Store.mergeSort_eq (List.Perm.refl _) sorted,
    List.map_dropLast]

/-- The candles of the range are returned exactly if there are none. -/
theorem exact_iff (s : BinanceExchange) (server : Server) (req : HistoryRequest)
    (store : CandleStore) (serves : Serves s server req store) :
    Exact s server req store ↔ ∀ c ∈ store.items, ¬(req.start ≤ c.time ∧ c.time ≤ req.end) := by
  have empty_iff : store.between req.start req.end = [] ↔
      ∀ c ∈ store.items, ¬(req.start ≤ c.time ∧ c.time ≤ req.end) := by
    simp [Store.between]
  rw [← empty_iff]
  constructor
  · rintro ⟨enough, all⟩
    have result := all (max enough ((store.between req.start req.end).length + 1)) (by omega)
    cases found : s.getContractBySymbol req.symbol with
    | none =>
      rw [queryHistory, found] at result
      simpa using result
    | some contract =>
      rw [queryHistory_eq serves found (by omega)] at result
      have lengths := congrArg List.length (Option.some.inj result)
      simp only [List.length_map, List.length_dropLast] at lengths
      exact List.length_eq_zero_iff.mp (by omega)
  · intro empty
    refine ⟨1, fun rounds enough => ?_⟩
    cases found : s.getContractBySymbol req.symbol with
    | none =>
      rw [queryHistory, found, empty]
      rfl
    | some contract =>
      rw [queryHistory_eq serves found (by simp [empty]; omega), empty]
      rfl

end BinanceRestApi

section OneContract

def candle (minute : ℤ) : Candle :=
  { time := minute * 60000, stamp := .string (toString (minute * 60000)), openPrice := .string "2"
    highPrice := .string "3", lowPrice := .string "1", closePrice := .string "2"
    volume := .string "5" }

/-- The candles of the minutes up to one. -/
def minutes (count : ℕ) : CandleStore where
  items := (List.range count).map fun (k : ℕ) => candle (k + 1)
  ascending := by
    refine List.pairwise_map.mpr (List.pairwise_lt_range.imp fun {k l} less => ?_)
    simp only [candle]
    omega

def swap : ContractData :=
  { symbol := "BTCUSDT_SWAP", exchange := .okx, name := "BTCUSDT", product := .swap
    pricetick := 1 / 10, exchangeName := "OKX" }

/-- The minutes from one time to another. -/
def minutesFrom (start stop : ℤ) : HistoryRequest :=
  { symbol := "BTCUSDT_SWAP", exchange := .okx, start, «end» := stop, interval := .minute }

theorem exists_candle {count : ℕ} {c : Candle} (item : c ∈ (minutes count).items) :
    ∃ minute, c = candle minute := by
  obtain ⟨k, -, rfl⟩ := List.mem_map.mp item
  exact ⟨k + 1, rfl⟩

namespace OkxRestApi

def serve (store : CandleStore) : Server := fun _ params =>
  { status := 200
    body := some (.object [("data", .array
      ((store.latest 100 (atoll (params["after"]?.getD ""))).map Candle.row))]) }

theorem serves_minutes (count : ℕ) (req : HistoryRequest) :
    Serves (serve (minutes count)) req (minutes count) where
  stamps c item := by
    obtain ⟨minute, rfl⟩ := exists_candle item
    rfl
  pages after := by
    have asked : (candlesParams req (toString after))["after"]? = some (toString after) :=
      ExtTreeMap.getElem?_ofList_of_mem (k := "after") (by decide) (by simp) (by simp)
    refine ⟨200, _, rfl, rfl, ?_⟩
    rw [asked, Option.getD_some, atoll_toString]
    rfl

/-- The candles of 150 minutes do not fit into one page. -/
theorem minutes_covered :
    queryHistory (({} : OkxExchange).onContract swap) (serve (minutes 150))
        (minutesFrom 60000 9060000) 1 = none ∧
      ∃ history, Covers (minutes 150) (minutesFrom 60000 9060000) history ∧
        ∃ enough, ∀ rounds ≥ enough,
          queryHistory (({} : OkxExchange).onContract swap) (serve (minutes 150))
            (minutesFrom 60000 9060000) rounds = some history :=
  ⟨Option.isNone_iff_eq_none.mp (by decide +kernel),
    queryHistory_covers _ _ _ _ (by decide +kernel) (serves_minutes 150 _)⟩

end OkxRestApi

namespace BinanceRestApi

def serve (store : CandleStore) : Server := fun _ params =>
  { status := 200
    body := some (.array
      ((store.earliest klinesLimit (atoll (params["startTime"]?.getD ""))
        (atoll (params["endTime"]?.getD ""))).map Candle.row)) }

def listed : BinanceExchange := ({} : BinanceExchange).onContract swap

theorem serves_minutes (count : ℕ) {req : HistoryRequest} (minute : req.interval = .minute)
    (finite : req.end ≠ 0) : Serves listed (serve (minutes count)) req (minutes count) where
  stamps c item := by
    obtain ⟨minute, rfl⟩ := exists_candle item
    exact congrArg Except.ok (atoll_toString _)
  multiples c item := by
    obtain ⟨k, rfl⟩ := exists_candle item
    rw [minute]
    exact Dvd.intro_left k rfl
  pages contract _ startTime := by
    have first : (klinesParams contract req startTime)["startTime"]? =
        some (toString startTime) := by
      rw [klinesParams, if_pos finite, ExtTreeMap.getElem?_insert, if_neg (by decide)]
      exact ExtTreeMap.getElem?_ofList_of_mem (k := "startTime") (by decide) (by simp) (by simp)
    have last : (klinesParams contract req startTime)["endTime"]? = some (toString req.end) := by
      rw [klinesParams, if_pos finite, ExtTreeMap.getElem?_insert_self]
    refine ⟨200, ?_, rfl⟩
    rw [serve, first, last, Option.getD_some, Option.getD_some, atoll_toString, atoll_toString]

/-- Before the first minute there is nothing to be lost. -/
theorem empty_range_exact : Exact listed (serve (minutes 2)) (minutesFrom 1 2) (minutes 2) :=
  (exact_iff _ _ _ _ (serves_minutes 2 rfl (by decide))).mpr (by decide)

/-- Two minutes have ended long ago, and only the first one is returned. -/
theorem closed_minute_dropped :
    ¬ ∀ (s : BinanceExchange) (server : Server) (req : HistoryRequest) (store : CandleStore),
      (s.getContractBySymbol req.symbol).isSome → req.interval ∈ [.minute, .hour, .daily] →
        Serves s server req store → req.start ≤ req.end → 0 < req.end →
          Exact s server req store := by
  intro all
  have serves : Serves listed (serve (minutes 2)) (minutesFrom 60000 120000) (minutes 2) :=
    serves_minutes 2 rfl (by decide)
  have exact := all _ _ _ _ (by decide +kernel) (by decide) serves (by decide) (by decide)
  exact absurd ((exact_iff _ _ _ _ serves).mp exact) (by decide)

end BinanceRestApi

end OneContract

end KeenTrader.Exchange
