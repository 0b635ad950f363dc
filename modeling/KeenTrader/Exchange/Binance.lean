import KeenTrader.Library.Runs
import KeenTrader.Exchange.Base

/-!
# The Binance exchange

`BinanceLinearExchange` with its trade channel `BinanceTradeApi` as one state. Requests are
numbered, and each number is registered with the handler of its reply. The clock is a parameter
of the requests, and the digest that signs them one of the exchange.
-/

namespace KeenTrader.Exchange

open Std (ExtTreeMap)
open KeenTrader.Engine Handlers

namespace Binance

def directionVt2binance : Table Direction AString := [(.long, "BUY"), (.short, "SELL")]

def ordertypeVt2binance : Table Engine.OrderType AString :=
  [(.market, "MARKET"), (.stop, "STOP_MARKET"), (.limit, "LIMIT"), (.fak, "LIMIT"),
   (.fok, "LIMIT")]

/-- `hex_str`: two upper-case digits for each byte. -/
def hexStr (mac : List UInt8) : AString :=
  String.join (mac.map fun b =>
    String.ofList [(Nat.digitChar (b.toNat / 16)).toUpper, (Nat.digitChar (b.toNat % 16)).toUpper])

abbrev Params := ExtTreeMap AString AString

/-- What the clock shows when a request is made: the local time as digits, and the seconds since
the epoch. -/
structure Moment where
  digits : AString
  seconds : ℤ

/-- `sign`, with the digest of a secret and a text. -/
def sign (hmac : AString → AString → List UInt8) (secret : AString) (moment : Moment)
    (params : Params) : Params :=
  let params := params.insert "timestamp" (toString (moment.seconds * 1000))
  let payload := "&".intercalate (params.toList.map fun (key, value) => key ++ "=" ++ value)
  params.insert "signature" (hexStr (hmac secret payload))

def paramsJson (params : Params) : Json.Value :=
  .object (params.toList.map fun (key, value) => (key, .string value))

end Binance

/-- The handler that a request number is registered with. -/
inductive ReplyCallback where
  | onSendOrder
  | onCancelOrder
  deriving DecidableEq

structure BinanceExchange where
  orders : ExtTreeMap AString OrderData := ∅
  symbolContractMap : ExtTreeMap AString ContractData := ∅
  nameContractMap : ExtTreeMap AString ContractData := ∅
  hedgeMode : Bool := false
  key : AString := ""
  secret : AString := ""
  orderCount : ℕ := 0
  orderPrefix : AString := ""
  reqid : ℤ := 0
  reqidCallbackMap : ExtTreeMap ℤ ReplyCallback := ∅
  reqidOrderMap : ExtTreeMap ℤ OrderData := ∅
  trace : List Effect := []

namespace BinanceExchange

open Binance

def exchangeName : AString := "BINANCE"

def emit (s : BinanceExchange) (e : Effect) : BinanceExchange := { s with trace := s.trace ++ [e] }

def writeLog (s : BinanceExchange) (msg : AString) : BinanceExchange :=
  s.emit (.log (logText exchangeName msg))

def onOrder (s : BinanceExchange) (order : OrderData) : BinanceExchange :=
  { s with orders := s.orders.insert order.orderid order }.emit (.order order)

def onContract (s : BinanceExchange) (contract : ContractData) : BinanceExchange :=
  { s with
    symbolContractMap := s.symbolContractMap.insert contract.symbol contract
    nameContractMap := s.nameContractMap.insert contract.name contract }.emit (.contract contract)

def getContractBySymbol (s : BinanceExchange) (symbol : AString) : Option ContractData :=
  s.symbolContractMap[symbol]?

def getContractByName (s : BinanceExchange) (name : AString) : Option ContractData :=
  s.nameContractMap[name]?

/-! ## Requests -/

/-- Round to a step, if there is one. -/
def roundToStep (value step : ℚ) : ℚ := if 0 < step then roundTo value step else value

/-- The parameters of an order, before they are signed. -/
def orderParams (s : BinanceExchange) (req : OrderRequest) (contract : ContractData)
    (orderid : AString) : Params :=
  let side := (directionVt2binance.lookup req.direction).getD "BUY"
  let type := (ordertypeVt2binance.lookup req.type).getD "LIMIT"
  let params : Params :=
    ExtTreeMap.ofList
      [("apiKey", s.key), ("symbol", contract.name), ("side", side),
       ("quantity", printG 6 (roundToStep req.volume contract.minVolume)),
       ("newClientOrderId", orderid), ("type", type)]
  let params :=
    if s.hedgeMode then
      params.insert "positionSide" (if req.direction = .long then "LONG" else "SHORT")
    else params
  let price := printG 6 (roundToStep req.price contract.pricetick)
  let params := if req.type = .stop then params.insert "stopPrice" price else params
  if type = "LIMIT" then
    let timeInForce :=
      match req.type with
      | .fak => "IOC"
      | .fok => "FOK"
      | _ => "GTC"
    (params.insert "timeInForce" timeInForce).insert "price" price
  else params

def cancelParams (s : BinanceExchange) (req : CancelRequest) (contract : ContractData) : Params :=
  ExtTreeMap.ofList
    [("apiKey", s.key), ("symbol", contract.name), ("origClientOrderId", req.orderid)]

/-- Number the next request and register the handler of its reply. -/
def register (s : BinanceExchange) (callback : ReplyCallback) : BinanceExchange :=
  { s with
    reqid := s.reqid + 1
    reqidCallbackMap := s.reqidCallbackMap.insert (s.reqid + 1) callback }

def sendPacket (s : BinanceExchange) (method : AString) (params : Params) : BinanceExchange :=
  s.emit <| .packet <| .object
    [("id", .int s.reqid), ("method", .string method), ("params", paramsJson params)]

/-- The prefix of the order ids is the time of the first order. -/
def prefixAt (s : BinanceExchange) (moment : Moment) : AString :=
  if s.orderPrefix.isEmpty then moment.digits else s.orderPrefix

/-- The id that the next order gets. -/
def newOrderid (s : BinanceExchange) (moment : Moment) : AString :=
  s.prefixAt moment ++ toString (s.orderCount + 1)

section Requests
variable (hmac : AString → AString → List UInt8)

/-- `send_order`, with the key of the new order, or an empty text where nothing is sent. -/
def sendOrder (s : BinanceExchange) (req : OrderRequest) (moment : Moment) :
    AString × BinanceExchange :=
  match s.getContractBySymbol req.symbol with
  | none => ("", s.writeLog s!"Failed to send order, symbol not found: {req.symbol}")
  | some contract =>
    let orderid := s.newOrderid moment
    let s := { s with orderPrefix := s.prefixAt moment, orderCount := s.orderCount + 1 }
    let order := req.createOrderData orderid exchangeName
    let s := s.onOrder order
    let params := sign hmac s.secret moment (s.orderParams req contract orderid)
    let s := s.register .onSendOrder
    let s := { s with reqidOrderMap := s.reqidOrderMap.insert s.reqid order }
    (order.ktOrderid, s.sendPacket "order.place" params)

def cancelOrder (s : BinanceExchange) (req : CancelRequest) (moment : Moment) : BinanceExchange :=
  match s.getContractBySymbol req.symbol with
  | none => s.writeLog s!"Failed to cancel order, symbol not found: {req.symbol}"
  | some contract =>
    let params := sign hmac s.secret moment (s.cancelParams req contract)
    (s.register .onCancelOrder).sendPacket "order.cancel" params

end Requests

/-! ## Handlers -/

abbrev Handle := Handler Fault BinanceExchange

/-- The number of the request that a packet answers. -/
def packetId (packet : Json.Value) : Except Json.Error ℤ :=
  packet.valueOr (Json.Value.int? toInt) "id" 0

def errorText (what : AString) (code : ℤ) (msg : AString) : AString :=
  s!"{what} rejected, code: {code}, message: {msg}"

/-- Log the error of a packet that has one. -/
def logError (what : AString) (error : Json.Value) : Handle Unit := do
  let code ← read (error.valueOr (Json.Value.int? toInt) "code" 0)
  let msg ← read (error.stringOr "msg" "")
  modify (·.writeLog (errorText what code msg))

def onSendOrder (packet : Json.Value) : Handle Unit :=
  match packet.get? "error" with
  | none => pure ()
  | some error => do
    logError "Order" error
    let id ← read (packetId packet)
    match (← get).reqidOrderMap[id]? with
    | some order => modify (·.onOrder (rejected order))
    | none => pure ()

def onCancelOrder (packet : Json.Value) : Handle Unit :=
  match packet.get? "error" with
  | none => pure ()
  | some error => logError "Cancel" error

def onPacket (packet : Json.Value) : Handle Unit := do
  let id ← read (packetId packet)
  match (← get).reqidCallbackMap[id]? with
  | some .onSendOrder => onSendOrder packet
  | some .onCancelOrder => onCancelOrder packet
  | none => pure ()

def onText (s : BinanceExchange) (packet : Json.Value) : BinanceExchange :=
  Exchange.onText onPacket (fun s fault => s.emit (.error fault)) s packet

/-! ## Runs -/

inductive Step where
  | contract (contract : ContractData)
  | sendOrder (req : OrderRequest) (moment : Moment)
  | cancelOrder (req : CancelRequest) (moment : Moment)
  | text (packet : Json.Value)

def step (hmac : AString → AString → List UInt8) (s : BinanceExchange) : Step → BinanceExchange
  | .contract contract => s.onContract contract
  | .sendOrder req moment => (s.sendOrder hmac req moment).2
  | .cancelOrder req moment => s.cancelOrder hmac req moment
  | .text packet => s.onText packet

/-- The exchange after it has been connected. -/
def connected (key secret : AString) (hedgeMode : Bool) : BinanceExchange :=
  { key, secret, hedgeMode }

def run (hmac : AString → AString → List UInt8) (key secret : AString) (hedgeMode : Bool)
    (steps : List Step) : BinanceExchange :=
  steps.foldl (step hmac) (connected key secret hedgeMode)

end BinanceExchange

end KeenTrader.Exchange
