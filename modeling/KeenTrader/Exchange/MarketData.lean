import KeenTrader.Library.Runs
import KeenTrader.Exchange.WebsocketClient
import KeenTrader.Exchange.Okx
import KeenTrader.Exchange.Binance

/-!
# Market data subscriptions

The public channels of the two exchanges: `BinanceMdApi` and `OkxWebsocketPublicApi`. Both keep
a table of what has been subscribed and walk through it when a connection opens. On OKX this
subscribes everything once more. On Binance it subscribes nothing, since `subscribe` returns
early for a symbol that has a tick.
-/

namespace KeenTrader.Exchange

open Std (ExtTreeMap)
open KeenTrader.Engine Runs

/-- The tick that a subscription starts from. -/
def newTick (req : SubscribeRequest) (contract : ContractData) (now : DateTime)
    (exchangeName : AString) : TickData :=
  { symbol := req.symbol, exchange := req.exchange, name := contract.name, datetime := now
    exchangeName }

/-- What happens to a public channel. -/
inductive MarketStep (Connection : Type) where
  | contract (contract : ContractData)
  | subscribe (req : SubscribeRequest) (now : DateTime)
  | connect (connection : Connection)
  | socket (event : WebsocketClient.Event) (now : DateTime)

/-! ## Binance -/

structure BinanceMdApi where
  exchange : BinanceExchange := {}
  socket : WebsocketClient := {}
  subscribed : ExtTreeMap AString SubscribeRequest := ∅
  ticks : ExtTreeMap AString TickData := ∅
  reqid : ℤ := 0
  klineStream : Bool := false

namespace BinanceMdApi

def subscribePacket (klineStream : Bool) (id : ℤ) (name : AString) : Json.Value :=
  let nameLower := name.map Char.toLower
  let channels := [nameLower ++ "@ticker", nameLower ++ "@depth10"] ++
    if klineStream then [nameLower ++ "@kline_1m"] else []
  .object
    [("id", .int id), ("method", .string "SUBSCRIBE"),
     ("params", .array (channels.map Json.Value.string))]

def writeLog (s : BinanceMdApi) (msg : AString) : BinanceMdApi :=
  { s with exchange := s.exchange.writeLog msg }

def subscribe (s : BinanceMdApi) (req : SubscribeRequest) (now : DateTime) : BinanceMdApi :=
  match s.exchange.getContractBySymbol req.symbol with
  | none => s.writeLog s!"Failed to subscribe data, symbol not found: {req.symbol}"
  | some contract =>
    if req.symbol ∈ s.ticks then s
    else
      { s with
        subscribed := s.subscribed.insert req.symbol req
        ticks :=
          s.ticks.insert req.symbol (newTick req contract now BinanceExchange.exchangeName)
        reqid := s.reqid + 1
        socket := s.socket.sendPacket
          (subscribePacket s.klineStream (s.reqid + 1) contract.name) }

def resubscribe (now : DateTime) (s : BinanceMdApi) (symbol : AString) : BinanceMdApi :=
  match s.subscribed[symbol]? with
  | some req => s.subscribe req now
  | none => s

/-- The loop that subscribes each entry of the table adds none to it. -/
def onConnected (s : BinanceMdApi) (now : DateTime) : BinanceMdApi :=
  let s := s.writeLog "MD API connected"
  s.subscribed.keys.foldl (resubscribe now) s

def onDisconnected (s : BinanceMdApi) : BinanceMdApi := s.writeLog "MD API disconnected"

def connect (s : BinanceMdApi) (klineStream : Bool) : BinanceMdApi :=
  { s with klineStream, socket := s.socket.start }.writeLog "MD API started"

def onSocket (s : BinanceMdApi) (event : WebsocketClient.Event) (now : DateTime) : BinanceMdApi :=
  let (socket, callback) := s.socket.handle event
  let s := { s with socket }
  match callback with
  | some .onConnected => s.onConnected now
  | some .onDisconnected => s.onDisconnected
  | none => s

def step (s : BinanceMdApi) : MarketStep Bool → BinanceMdApi
  | .contract contract => { s with exchange := s.exchange.onContract contract }
  | .subscribe req now => s.subscribe req now
  | .connect klineStream => s.connect klineStream
  | .socket event now => s.onSocket event now

end BinanceMdApi

/-! ## OKX -/

structure OkxWebsocketPublicApi where
  exchange : OkxExchange := {}
  socket : WebsocketClient := {}
  subscribed : ExtTreeMap AString SubscribeRequest := ∅
  ticks : ExtTreeMap AString TickData := ∅

namespace OkxWebsocketPublicApi

def serverHosts : Table AString AString :=
  [("REAL", "wss://ws.okx.com:8443/ws/v5/public"), ("AWS", "wss://wsaws.okx.com:8443/ws/v5/public"),
   ("DEMO", "wss://wspap.okx.com:8443/ws/v5/public?brokerId=9999")]

def subscribePacket (name : AString) : Json.Value :=
  .object
    [("args", .array (["tickers", "books5"].map fun channel =>
      .object [("channel", .string channel), ("instId", .string name)])),
     ("op", .string "subscribe")]

def writeLog (s : OkxWebsocketPublicApi) (msg : AString) : OkxWebsocketPublicApi :=
  { s with exchange := s.exchange.writeLog msg }

def subscribe (s : OkxWebsocketPublicApi) (req : SubscribeRequest) (now : DateTime) :
    OkxWebsocketPublicApi :=
  match s.exchange.getContractBySymbol req.symbol with
  | none => s.writeLog s!"Failed to subscribe data, symbol not found: {req.symbol}"
  | some contract =>
    { s with
      subscribed := s.subscribed.insert req.symbol req
      ticks := s.ticks.insert req.symbol (newTick req contract now OkxExchange.exchangeName)
      socket := s.socket.sendPacket (subscribePacket contract.name) }

def resubscribe (now : DateTime) (s : OkxWebsocketPublicApi) (symbol : AString) :
    OkxWebsocketPublicApi :=
  match s.subscribed[symbol]? with
  | some req => s.subscribe req now
  | none => s

/-- The loop that subscribes each entry of the table writes only the entry that it stands at. -/
def onConnected (s : OkxWebsocketPublicApi) (now : DateTime) : OkxWebsocketPublicApi :=
  let s := s.writeLog "Websocket Public API connection successful"
  s.subscribed.keys.foldl (resubscribe now) s

def onDisconnected (s : OkxWebsocketPublicApi) : OkxWebsocketPublicApi :=
  s.writeLog "Websocket Public API connection disconnected"

/-- The exception for an unknown server leaves everything as it was. -/
def connect (s : OkxWebsocketPublicApi) (server : AString) : OkxWebsocketPublicApi :=
  match serverHosts.lookup server with
  | none => s
  | some _ => { s with socket := s.socket.start }

def onSocket (s : OkxWebsocketPublicApi) (event : WebsocketClient.Event) (now : DateTime) :
    OkxWebsocketPublicApi :=
  let (socket, callback) := s.socket.handle event
  let s := { s with socket }
  match callback with
  | some .onConnected => s.onConnected now
  | some .onDisconnected => s.onDisconnected
  | none => s

def step (s : OkxWebsocketPublicApi) : MarketStep AString → OkxWebsocketPublicApi
  | .contract contract => { s with exchange := s.exchange.onContract contract }
  | .subscribe req now => s.subscribe req now
  | .connect server => s.connect server
  | .socket event now => s.onSocket event now

end OkxWebsocketPublicApi

end KeenTrader.Exchange
