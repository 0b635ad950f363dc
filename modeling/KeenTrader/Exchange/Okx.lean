import KeenTrader.Library.Runs
import KeenTrader.Exchange.Base

/-!
# The OKX exchange

`OkxExchange` with its private channel `OkxWebsocketPrivateApi`, which holds a reference to it,
as one state. Messages of the channel and answers to the order query are JSON values; the other
functions are called by the trading engine. What is sent and announced is recorded in `trace`,
latest last.
-/

namespace KeenTrader.Exchange

open Std (ExtTreeMap ExtTreeSet)
open KeenTrader.Engine Handlers

namespace Okx

def statusOkx2kt : Table AString Status :=
  [("live", .notTraded), ("partially_filled", .partTraded), ("filled", .allTraded),
   ("canceled", .cancelled), ("mmp_canceled", .cancelled)]

def ordertypeOkx2kt : Table AString Engine.OrderType :=
  [("limit", .limit), ("market", .market), ("fok", .fok), ("ioc", .fak)]

def ordertypeKt2okx : Table Engine.OrderType AString := swapMap ordertypeOkx2kt

def directionOkx2kt : Table AString Direction := [("buy", .long), ("sell", .short)]

def directionKt2okx : Table Direction AString := swapMap directionOkx2kt

/-- `get_side_pos`: a direction that the exchange does not know has an empty side. -/
def getSidePos (direction : Direction) (offset : Offset) (dualSide : Bool) : AString × AString :=
  let side := directionKt2okx.at direction
  let posSide :=
    match direction, dualSide, offset with
    | .long, true, .opening => "long"
    | .long, true, .close => "short"
    | .short, true, .opening => "short"
    | .short, true, .close => "long"
    | _, _, _ => "net"
  (side, posSide)

end Okx

structure OkxExchange where
  orders : ExtTreeMap AString OrderData := ∅
  localOrderids : ExtTreeSet AString := ∅
  symbolContractMap : ExtTreeMap AString ContractData := ∅
  nameContractMap : ExtTreeMap AString ContractData := ∅
  positionMode : PositionMode := .oneWay
  reqid : ℕ := 0
  orderCount : ℕ := 0
  connectTime : ℕ := 0
  reqidOrderMap : ExtTreeMap AString OrderData := ∅
  trace : List Effect := []

namespace OkxExchange

open Okx

def exchangeName : AString := "OKX"

def emit (s : OkxExchange) (e : Effect) : OkxExchange := { s with trace := s.trace ++ [e] }

def writeLog (s : OkxExchange) (msg : AString) : OkxExchange :=
  s.emit (.log (logText exchangeName msg))

def onOrder (s : OkxExchange) (order : OrderData) : OkxExchange :=
  { s with orders := s.orders.insert order.orderid order }.emit (.order order)

def getOrder (s : OkxExchange) (orderid : AString) : Option OrderData := s.orders[orderid]?

def onContract (s : OkxExchange) (contract : ContractData) : OkxExchange :=
  { s with
    symbolContractMap := s.symbolContractMap.insert contract.symbol contract
    nameContractMap := s.nameContractMap.insert contract.name contract }.emit (.contract contract)

def getContractBySymbol (s : OkxExchange) (symbol : AString) : Option ContractData :=
  s.symbolContractMap[symbol]?

def getContractByName (s : OkxExchange) (name : AString) : Option ContractData :=
  s.nameContractMap[name]?

/-- `CryptoExchange::set_position_mode`. -/
def setPositionMode (s : OkxExchange) (mode : PositionMode) : OkxExchange :=
  { s with positionMode := mode }.writeLog
    ("设置持仓模式为: " ++ if mode = PositionMode.oneWay then "ONE_WAY" else "HEDGE")

/-! ## Requests -/

/-- The id that the next order gets. -/
def newOrderid (s : OkxExchange) : AString :=
  toString s.connectTime ++ rjust (toString (s.orderCount + 1)) 6 '0'

/-- A request packet: its id, what it asks for, and its one argument. -/
def request (id op : AString) (args : Json.Value) : Json.Value :=
  .object [("args", .array [args]), ("id", .string id), ("op", .string op)]

/-- How a request names the instrument. -/
def instrument (contract : ContractData) : AString × Json.Value :=
  if 0 < contract.instIdCode then ("instIdCode", .int contract.instIdCode)
  else ("instId", .string contract.name)

/-- `send_order`, with the key of the new order, or an empty text where nothing is sent. -/
def sendOrder (s : OkxExchange) (req : OrderRequest) : AString × OkxExchange :=
  match ordertypeKt2okx.lookup req.type with
  | none =>
    ("", s.writeLog s!"Send order failed, order type not supported: {req.type.ctorIdx}")
  | some orderType =>
  match s.getContractBySymbol req.symbol with
  | none => ("", s.writeLog s!"Send order failed, symbol not found: {req.symbol}")
  | some contract =>
  if contract.name.isEmpty then
    ("", s.writeLog s!"Send order failed, contract name is empty for symbol: {req.symbol}")
  else
    let orderid := s.newOrderid
    let s := { s with orderCount := s.orderCount + 1 }
    let (side, posSide) := getSidePos req.direction req.offset (s.positionMode = .hedge)
    if side.isEmpty then
      ("", s.writeLog s!"Send order failed, invalid side direction: {req.direction.ctorIdx}")
    else
      let priceStr := printG 10 req.price
      let volumeStr := printG 10 req.volume
      let tdMode := if contract.product = .spot then "cash" else "cross"
      let orderObj : Json.Value := .object
        [("clOrdId", .string orderid), instrument contract, ("ordType", .string orderType),
         ("posSide", .string posSide), ("px", .string priceStr), ("side", .string side),
         ("sz", .string volumeStr), ("tdMode", .string tdMode)]
      let s := s.writeLog (s!"Sending order - symbol: {req.symbol}, " ++
        s!"instIdCode: {contract.instIdCode}, instId: {contract.name}, side: {side}, " ++
        s!"posSide: {posSide}, ordType: {orderType}, price: {priceStr}, volume: {volumeStr}, " ++
        s!"tdMode: {tdMode}")
      let s := { s with reqid := s.reqid + 1 }
      let okxReq := request (toString s.reqid) "order" orderObj
      let s := s.writeLog s!"Order request: {okxReq.dump (printG 17)}"
      let s := s.emit (.packet okxReq)
      let order := req.createOrderData orderid exchangeName
      (order.ktOrderid, s.onOrder order)

/-- How a cancel request names the order: an id that is noted as local goes into `clOrdId`. -/
def cancelArgs (s : OkxExchange) (req : CancelRequest) (contract : ContractData) : Json.Value :=
  .object <|
    if req.orderid ∈ s.localOrderids then [("clOrdId", .string req.orderid), instrument contract]
    else [instrument contract, ("ordId", .string req.orderid)]

def cancelOrder (s : OkxExchange) (req : CancelRequest) : OkxExchange :=
  match s.getContractBySymbol req.symbol with
  | none => s.writeLog s!"Cancel order failed, symbol not found: {req.symbol}"
  | some contract =>
    let args := s.cancelArgs req contract
    let s := { s with reqid := s.reqid + 1 }
    s.emit (.packet (request (toString s.reqid) "cancel-order" args))

/-! ## Handlers -/

/-- A handler of the channel. -/
abbrev Handle := Handler Fault OkxExchange

def effect (e : Effect) : Handle Unit := modify (·.emit e)

def log (msg : AString) : Handle Unit := modify (·.writeLog msg)

def order (o : OrderData) : Handle Unit := modify (·.onOrder o)

def deref {α : Type} : Option α → Handle α
  | some a => pure a
  | none => throw .emptyOptional

/-- A member of a packet that is read as a text. -/
def textAt (data : Json.Value) (key : AString) : Handle AString :=
  read (data.get key >>= Json.Value.string?)

def floatAt (data : Json.Value) (key : AString) : Handle ℚ :=
  read (jsonToFloat <$> data.get key)

def timeAt (data : Json.Value) (key : AString) : Handle DateTime :=
  read (atoll <$> (data.get key >>= Json.Value.string?))

/-- The id of a pushed order: the one that its client chose, which is noted as local, and the
exchange's own otherwise. -/
def parseOrderid (data : Json.Value) : Handle AString := do
  let clOrdId ← read (data.stringOr "clOrdId" "")
  if clOrdId.isEmpty then read (data.stringOr "ordId" "")
  else do
    modify fun s => { s with localOrderids := s.localOrderids.insert clOrdId }
    pure clOrdId

/-- The other fields of a pushed order. -/
def parseFields (data : Json.Value) (contract : Option ContractData) (orderid : AString) :
    Handle OrderData := do
  let contract ← deref contract
  let type := ordertypeOkx2kt.at (← textAt data "ordType")
  let direction := directionOkx2kt.at (← textAt data "side")
  let price ← floatAt data "px"
  let volume ← floatAt data "sz"
  let traded ← floatAt data "accFillSz"
  let status := statusOkx2kt.at (← textAt data "state")
  let datetime ← timeAt data "cTime"
  pure { symbol := contract.symbol, exchange := .okx, orderid, type, direction, price, volume
         traded, status, datetime, exchangeName }

def parseOrderData (data : Json.Value) : Handle OrderData := do
  effect (.parse data)
  let contract := (← get).getContractByName (← textAt data "instId")
  parseFields data contract (← parseOrderid data)

/-- The volume is rounded where there is no contract to round it by. -/
def tradeVolume (fillSz : ℚ) (contract : Option ContractData) : Handle ℚ :=
  if contract.isNone then do
    return roundTo fillSz (← deref contract).minVolume
  else pure fillSz

/-- The loop of `on_order` over the elements of a push. It ends at the first one without a fill. -/
def onOrders : List Json.Value → Handle Unit
  | [] => pure ()
  | d :: ds => do
    let o ← parseOrderData d
    order o
    if (← read (d.get "fillSz")).isString "0" then pure ()
    else do
      let fillSz ← floatAt d "fillSz"
      let volume ← tradeVolume fillSz ((← get).getContractBySymbol o.symbol)
      let tradeid ← textAt d "tradeId"
      let price ← floatAt d "fillPx"
      let datetime ← timeAt d "uTime"
      effect (.trade { symbol := o.symbol, exchange := o.exchange, orderid := o.orderid, tradeid
                       direction := o.direction, offset := o.offset, price, volume, datetime
                       exchangeName })
      onOrders ds

def onOrderPush (packet : Json.Value) : Handle Unit := do
  onOrders (← read (packet.get "data")).items

def onAccounts : List Json.Value → Handle Unit
  | [] => pure ()
  | detail :: details => do
    let accountid ← textAt detail "ccy"
    let balance ← floatAt detail "eq"
    let available ← (if detail.contains "availEq" then floatAt detail "availEq" else pure 0)
    effect (.account { accountid, balance, frozen := balance - available, exchangeName })
    onAccounts details

def onAccount (packet : Json.Value) : Handle Unit := do
  match (← read (packet.get "data")) with
  | .array (buf :: _) => onAccounts (← read (buf.get "details")).items
  | data => if data.isEmpty then pure () else throw (.json .type)

def onPositions : List Json.Value → Handle Unit
  | [] => pure ()
  | d :: ds => do
    let contract := (← get).getContractByName (← textAt d "instId")
    let volume ← floatAt d "pos"
    let price ← floatAt d "avgPx"
    let pnl ← floatAt d "upl"
    let contract ← deref contract
    effect (.position { symbol := contract.symbol, exchange := .okx, direction := .net, volume
                        price, pnl, exchangeName })
    onPositions ds

def onPosition (packet : Json.Value) : Handle Unit := do
  onPositions (← read (packet.get "data")).items

/-- Report an order as rejected, if there is one. -/
def reject : Option OrderData → Handle Unit
  | some o => order (rejected o)
  | none => pure ()

def rejectionText (orderid code msg : AString) : AString :=
  s!"Order rejected - clOrdId: {orderid}, code: {code}, message: {msg}"

/-- The results of an accepted `order` request, one for each order in it. -/
def onResults : List Json.Value → Handle Unit
  | [] => pure ()
  | d :: ds => do
    let code ← read (d.stringOr "sCode" "0")
    if code = "0" then onResults ds
    else do
      let orderid ← read (d.stringOr "clOrdId" "")
      let msg ← read (d.stringOr "sMsg" "Unknown error")
      log (rejectionText orderid code msg)
      reject ((← get).getOrder orderid)
      onResults ds

/-- `on_send_order`: the reply to an `order` request. -/
def onSendOrder (packet : Json.Value) : Handle Unit := do
  let data ← read (packet.get "data")
  let code ← read (packet.get "code")
  if code.isString "0" then
    match data with
    | .array ds => onResults ds
    | _ => pure ()
  else do
    let msg ← read (packet.stringOr "msg" "Unknown error")
    let code ← read code.string?
    log s!"Send order API failed, code: {code}, message: {msg}"
    if data.isNull || data.isEmpty then pure ()
    else do
      let id ← read (packet.valueOr (Json.Value.int? toInt) "id" 0)
      match (← get).reqidOrderMap[toString id]? with
      | some o => do
        order (rejected o)
        modify fun s => { s with reqidOrderMap := s.reqidOrderMap.erase (toString id) }
      | none => pure ()

def onCancelResults : List Json.Value → Handle Unit
  | [] => pure ()
  | d :: ds => do
    let code ← textAt d "sCode"
    if code = "0" then pure ()
    else do
      let msg ← textAt d "sMsg"
      log s!"Order cancellation failed, status code: {code}, message: {msg}"
      onCancelResults ds

def onCancelOrder (packet : Json.Value) : Handle Unit := do
  if (← read (packet.get "code")).isString "0" then
    onCancelResults (← read (packet.get "data")).items
  else do
    let code ← textAt packet "code"
    let msg ← textAt packet "msg"
    log s!"Order cancellation failed, status code: {code}, message: {msg}"

def subscribeTopic : Json.Value :=
  .object
    [("args", .array
      [.object [("channel", .string "orders"), ("instType", .string "ANY")],
       .object [("channel", .string "account")],
       .object [("channel", .string "positions"), ("instType", .string "ANY")]]),
     ("op", .string "subscribe")]

def onLogin (packet : Json.Value) : Handle Unit := do
  if (← read (packet.get "code")).isString "0" then do
    log "Websocket Private API login successful"
    effect (.packet subscribeTopic)
  else log "Websocket Private API login failed"

def onApiError (packet : Json.Value) : Handle Unit := do
  let code ← textAt packet "code"
  let msg ← textAt packet "msg"
  log s!"Websocket Private API request failed, status code: {code}, message: {msg}"

/-- `callbacks`. -/
def callback (name : AString) (packet : Json.Value) : Handle Unit :=
  match name with
  | "login" => onLogin packet
  | "orders" => onOrderPush packet
  | "account" => onAccount packet
  | "positions" => onPosition packet
  | "order" => onSendOrder packet
  | "cancel-order" => onCancelOrder packet
  | "error" => onApiError packet
  | _ => pure ()

def callbackName (packet : Json.Value) : Handle AString :=
  if packet.contains "event" then textAt packet "event"
  else if packet.contains "op" then textAt packet "op"
  else read (packet.get "arg" >>= (·.get "channel") >>= Json.Value.string?)

def onPacket (packet : Json.Value) : Handle Unit := do
  callback (← callbackName packet) packet

/-- `on_query_order`: the snapshot that answers the REST query for pending orders. -/
def onSnapshot : List Json.Value → Handle Unit
  | [] => log "Entrustment information query successful"
  | d :: ds => do
    order (← parseOrderData d)
    onSnapshot ds

def onQueryOrder (packet : Json.Value) : Handle Unit := do
  onSnapshot (← read (packet.get "data")).items

/-! ## Runs -/

def onText (s : OkxExchange) (packet : Json.Value) : OkxExchange :=
  Exchange.onText onPacket (fun s fault => s.emit (.error fault)) s packet

inductive Step where
  | contract (contract : ContractData)
  | positionMode (mode : PositionMode)
  | sendOrder (req : OrderRequest)
  | cancelOrder (req : CancelRequest)
  | text (packet : Json.Value)
  | queryOrder (packet : Json.Value)

def step (s : OkxExchange) : Step → OkxExchange
  | .contract contract => s.onContract contract
  | .positionMode mode => s.setPositionMode mode
  | .sendOrder req => (s.sendOrder req).2
  | .cancelOrder req => s.cancelOrder req
  | .text packet => s.onText packet
  | .queryOrder packet => (onQueryOrder packet).state s

/-- A run from the moment the channel is connected. -/
def run (connectTime : ℕ) (steps : List Step) : OkxExchange := steps.foldl step { connectTime }

end OkxExchange

end KeenTrader.Exchange
