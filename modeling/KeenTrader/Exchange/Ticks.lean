import KeenTrader.Exchange.MarketData

/-!
# Ticks from the public channels

`on_packet` of the two public channels. A message about the last trades or about the depth of the
book is stored in the tick of its symbol, which stays from one message to the next, and a copy of
the tick is pushed. The depth of the book comes as two lists of levels, best first, and a tick has
five levels on each side.
-/

namespace KeenTrader.Engine

inductive BookSide where
  | bid
  | ask
  deriving DecidableEq, Repr

namespace TickData

/-- The price of a level, the best level first. -/
def price (t : TickData) (side : BookSide) (k : Fin 5) : ℚ :=
  match side, k with
  | .bid, 0 => t.bidPrice1
  | .bid, 1 => t.bidPrice2
  | .bid, 2 => t.bidPrice3
  | .bid, 3 => t.bidPrice4
  | .bid, 4 => t.bidPrice5
  | .ask, 0 => t.askPrice1
  | .ask, 1 => t.askPrice2
  | .ask, 2 => t.askPrice3
  | .ask, 3 => t.askPrice4
  | .ask, 4 => t.askPrice5

def levelVolume (t : TickData) (side : BookSide) (k : Fin 5) : ℚ :=
  match side, k with
  | .bid, 0 => t.bidVolume1
  | .bid, 1 => t.bidVolume2
  | .bid, 2 => t.bidVolume3
  | .bid, 3 => t.bidVolume4
  | .bid, 4 => t.bidVolume5
  | .ask, 0 => t.askVolume1
  | .ask, 1 => t.askVolume2
  | .ask, 2 => t.askVolume3
  | .ask, 3 => t.askVolume4
  | .ask, 4 => t.askVolume5

def setPrice (t : TickData) (side : BookSide) (k : Fin 5) (q : ℚ) : TickData :=
  match side, k with
  | .bid, 0 => { t with bidPrice1 := q }
  | .bid, 1 => { t with bidPrice2 := q }
  | .bid, 2 => { t with bidPrice3 := q }
  | .bid, 3 => { t with bidPrice4 := q }
  | .bid, 4 => { t with bidPrice5 := q }
  | .ask, 0 => { t with askPrice1 := q }
  | .ask, 1 => { t with askPrice2 := q }
  | .ask, 2 => { t with askPrice3 := q }
  | .ask, 3 => { t with askPrice4 := q }
  | .ask, 4 => { t with askPrice5 := q }

def setLevelVolume (t : TickData) (side : BookSide) (k : Fin 5) (q : ℚ) : TickData :=
  match side, k with
  | .bid, 0 => { t with bidVolume1 := q }
  | .bid, 1 => { t with bidVolume2 := q }
  | .bid, 2 => { t with bidVolume3 := q }
  | .bid, 3 => { t with bidVolume4 := q }
  | .bid, 4 => { t with bidVolume5 := q }
  | .ask, 0 => { t with askVolume1 := q }
  | .ask, 1 => { t with askVolume2 := q }
  | .ask, 2 => { t with askVolume3 := q }
  | .ask, 3 => { t with askVolume4 := q }
  | .ask, 4 => { t with askVolume5 := q }

/-- The levels of a side: prices and volumes. -/
def levels (t : TickData) (side : BookSide) (k : Fin 5) : ℚ × ℚ :=
  (t.price side k, t.levelVolume side k)

def setLevel (t : TickData) (side : BookSide) (k : Fin 5) (level : ℚ × ℚ) : TickData :=
  (t.setPrice side k level.1).setLevelVolume side k level.2

def setDatetime (t : TickData) (datetime : DateTime) : TickData := { t with datetime }

section Levels
variable (t : TickData) (side side' : BookSide) (j k : Fin 5) (q : ℚ) (level : ℚ × ℚ)

@[simp] theorem price_setPrice :
    (t.setPrice side k q).price side' j =
      if side' = side ∧ j = k then q else t.price side' j := by
  cases side <;> cases side' <;> fin_cases k <;> fin_cases j <;> rfl

@[simp] theorem levelVolume_setPrice :
    (t.setPrice side k q).levelVolume side' j = t.levelVolume side' j := by
  cases side <;> cases side' <;> fin_cases k <;> fin_cases j <;> rfl

@[simp] theorem price_setLevelVolume :
    (t.setLevelVolume side k q).price side' j = t.price side' j := by
  cases side <;> cases side' <;> fin_cases k <;> fin_cases j <;> rfl

@[simp] theorem levelVolume_setLevelVolume :
    (t.setLevelVolume side k q).levelVolume side' j =
      if side' = side ∧ j = k then q else t.levelVolume side' j := by
  cases side <;> cases side' <;> fin_cases k <;> fin_cases j <;> rfl

theorem levels_setLevel :
    (t.setLevel side k level).levels side' j =
      if side' = side ∧ j = k then level else t.levels side' j := by
  unfold levels setLevel
  simp only [price_setLevelVolume, price_setPrice, levelVolume_setLevelVolume,
    levelVolume_setPrice]
  split <;> rfl

@[simp] theorem limitUp_setLevel : (t.setLevel side k level).limitUp = t.limitUp := by
  cases side <;> fin_cases k <;> rfl

@[simp] theorem limitDown_setLevel : (t.setLevel side k level).limitDown = t.limitDown := by
  cases side <;> fin_cases k <;> rfl

/-- The time is not among the levels. -/
@[simp] theorem levels_setDatetime (datetime : DateTime) :
    (t.setDatetime datetime).levels side = t.levels side := by
  funext k
  cases side <;> fin_cases k <;> rfl

end Levels

/-- The slots of a side, in the order in which they are stored. -/
def slots : List (Fin 5) := [0, 1, 2, 3, 4]

theorem mem_slots (k : Fin 5) : k ∈ slots := by
  fin_cases k <;> simp [slots]

/-- The tick that `operator[]` of a table makes where it has none. The source leaves its key empty,
so that no strategy and no stop order waits for it. -/
def blank : TickData := { symbol := "", exchange := .cffex }

end TickData

end KeenTrader.Engine

namespace KeenTrader.Exchange

open Std (ExtTreeMap)
open KeenTrader.Engine Handlers

/-- A public channel, and the ticks that it has pushed, latest last. -/
structure TickFeed (Api : Type) where
  api : Api
  pushed : List TickData := []

namespace TickFeed

/-- A change of the tick of a symbol, which is made where there is none. -/
def updateAt (ticks : ExtTreeMap AString TickData) (symbol : AString)
    (f : TickData → TickData) : ExtTreeMap AString TickData :=
  ticks.insert symbol (f (ticks.getD symbol .blank))

section Reading
variable {S : Type} (update : (TickData → TickData) → S → S)

def textAt (data : Json.Value) (key : AString) : Handler Fault S AString :=
  read (data.get key >>= Json.Value.string?)

def floatAt (data : Json.Value) (key : AString) : Handler Fault S ℚ :=
  read (jsonToFloat <$> data.get key)

/-- A field of the tick that is read as a number. -/
def storeFloat (data : Json.Value) (key : AString) (set : TickData → ℚ → TickData) :
    Handler Fault S Unit :=
  store (jsonToFloat <$> data.get key) fun q => update (set · q)

/-- A level of one side: its price, and then its volume. -/
def storeLevel (side : BookSide) (rows : Json.Value) (k : Fin 5) : Handler Fault S Unit := do
  let row ← read (rows.element k)
  store (jsonToFloat <$> row.element 0) fun q => update (·.setPrice side k q)
  store (jsonToFloat <$> row.element 1) fun q => update (·.setLevelVolume side k q)

def storeLevels (side : BookSide) (rows : Json.Value) : List (Fin 5) → Handler Fault S Unit
  | [] => pure ()
  | k :: ks => do
    storeLevel update side rows k
    storeLevels side rows ks

/-- The same for the levels that are there. -/
def storePresent (side : BookSide) (rows : Json.Value) : List (Fin 5) → Handler Fault S Unit
  | [] => pure ()
  | k :: ks => do
    if k < rows.items.length then storeLevel update side rows k
    storePresent side rows ks

end Reading

end TickFeed

/-! ## OKX -/

namespace OkxWebsocketPublicApi

open TickFeed

abbrev Handle := Handler Fault (TickFeed OkxWebsocketPublicApi)

def update (symbol : AString) (f : TickData → TickData) (s : TickFeed OkxWebsocketPublicApi) :
    TickFeed OkxWebsocketPublicApi :=
  { s with api.ticks := updateAt s.api.ticks symbol f }

/-- `on_tick` of the exchange. -/
def onTick (symbol : AString) (s : TickFeed OkxWebsocketPublicApi) :
    TickFeed OkxWebsocketPublicApi :=
  { s with pushed := s.pushed ++ [s.api.ticks.getD symbol .blank] }

def onTicker : List Json.Value → Handle Unit
  | [] => pure ()
  | d :: ds => do
    let symbol ← textAt d "instId"
    let volume ← floatAt d "vol24h"
    modify (update symbol id)
    storeFloat (update symbol) d "last" fun t lastPrice => { t with lastPrice }
    storeFloat (update symbol) d "open24h" fun t openPrice => { t with openPrice }
    storeFloat (update symbol) d "high24h" fun t highPrice => { t with highPrice }
    storeFloat (update symbol) d "low24h" fun t lowPrice => { t with lowPrice }
    modify (update symbol fun t =>
      { t with lastVolume := if 0 < t.volume then volume - t.volume else 0 })
    modify (update symbol fun t => { t with volume })
    storeFloat (update symbol) d "volCcy24h" fun t turnover => { t with turnover }
    let datetime ← textAt d "ts"
    modify (update symbol (·.setDatetime (atoll datetime)))
    modify (onTick symbol)
    onTicker ds

def onDepth : List Json.Value → Handle Unit
  | [] => pure ()
  | d :: ds => do
    let symbol ← textAt d "instId"
    modify (update symbol id)
    let bids ← read (d.get "bids")
    let asks ← read (d.get "asks")
    storeLevels (update symbol) .bid bids TickData.slots
    storeLevels (update symbol) .ask asks TickData.slots
    let datetime ← textAt d "ts"
    modify (update symbol (·.setDatetime (atoll datetime)))
    modify (onTick symbol)
    onDepth ds

def log (msg : AString) : Handle Unit := modify fun s => { s with api := s.api.writeLog msg }

def onPacket (packet : Json.Value) : Handle Unit := do
  if packet.contains "event" then do
    if (← textAt packet "event") = "error" then do
      let code ← read (packet.get "code" >>= Json.Value.int? toInt)
      let msg ← textAt packet "message"
      log (s!"Websocket Public API request exception, status code: {code}, " ++
        s!"information: {msg}")
  else do
    let channel ← read (packet.get "arg" >>= (·.get "channel") >>= Json.Value.string?)
    let data ← read (packet.get "data")
    match channel with
    | "tickers" => onTicker data.items
    | "books5" => onDepth data.items
    | _ => pure ()

end OkxWebsocketPublicApi

/-! ## Binance -/

namespace BinanceMdApi

open TickFeed

abbrev Handle := Handler Fault (TickFeed BinanceMdApi)

def update (symbol : AString) (f : TickData → TickData) (s : TickFeed BinanceMdApi) :
    TickFeed BinanceMdApi :=
  { s with api.ticks := updateAt s.api.ticks symbol f }

def onTick (symbol : AString) (s : TickFeed BinanceMdApi) : TickFeed BinanceMdApi :=
  { s with pushed := s.pushed ++ [s.api.ticks.getD symbol .blank] }

/-- The time of the event, or zero where there is none. -/
def eventTime (data : Json.Value) : ℤ :=
  match data.get? "E" with
  | some (.int n) => n
  | some (.float q) => q.num.tdiv q.den
  | some (.string s) => atoll s
  | _ => 0

/-- The end of both branches: the time is stored if there is one, and the tick is pushed. -/
def finish (symbol : AString) (data : Json.Value) : Handle Unit := do
  if 0 < eventTime data then
    modify (update symbol (·.setDatetime (eventTime data)))
  modify (onTick symbol)

def onTicker (symbol : AString) (data : Json.Value) : Handle Unit := do
  storeFloat (update symbol) data "v" fun t volume => { t with volume }
  storeFloat (update symbol) data "q" fun t turnover => { t with turnover }
  storeFloat (update symbol) data "o" fun t openPrice => { t with openPrice }
  storeFloat (update symbol) data "h" fun t highPrice => { t with highPrice }
  storeFloat (update symbol) data "l" fun t lowPrice => { t with lowPrice }
  storeFloat (update symbol) data "c" fun t lastPrice => { t with lastPrice }
  finish symbol data

def isArray : Json.Value → Bool
  | .array _ => true
  | _ => false

def onDepth (symbol : AString) (data : Json.Value) : Handle Unit := do
  let bids ← read (data.valueOr .ok "b" (.array []))
  let asks ← read (data.valueOr .ok "a" (.array []))
  if isArray bids then storePresent (update symbol) .bid bids TickData.slots
  if isArray asks then storePresent (update symbol) .ask asks TickData.slots
  finish symbol data

def onStream (symbol channel : AString) (data : Json.Value) : Handle Unit :=
  match channel with
  | "ticker" => onTicker symbol data
  | "depth10" => onDepth symbol data
  | _ => pure ()

/-- The name in front of the first `@`, and the channel behind it. -/
def splitStream (stream : AString) : Option (AString × AString) :=
  if '@' ∈ stream.toList then
    some (String.ofList (stream.toList.takeWhile (· ≠ '@')),
      String.ofList (stream.toList.dropWhile (· ≠ '@')).tail)
  else none

/-- The symbol of a stream, if its contract is known and has a tick. -/
def symbolOf (s : BinanceMdApi) (name : AString) : Option AString :=
  match s.exchange.getContractByName (name.map Char.toUpper) with
  | none => none
  | some contract => if contract.symbol ∈ s.ticks then some contract.symbol else none

def onPacket (packet : Json.Value) : Handle Unit := do
  if packet.contains "stream" then do
    let stream ← read (packet.stringOr "stream" "")
    match packet.get? "data", splitStream stream with
    | some data, some (name, channel) =>
      match (← get).api.symbolOf name with
      | some symbol => onStream symbol channel data
      | none => pure ()
    | _, _ => pure ()

end BinanceMdApi

end KeenTrader.Exchange
