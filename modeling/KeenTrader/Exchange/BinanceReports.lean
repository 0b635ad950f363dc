import KeenTrader.Exchange.Binance

/-!
# What Binance reports

The user stream `BinanceUserApi`, which pushes accounts, positions, orders and fills, and the
answer to the order query of `BinanceRestApi`. Both build their orders from the words of the
exchange. The clock and the variables that are read before they are set are parameters.
-/

namespace KeenTrader.Exchange

open Std (ExtTreeMap)
open KeenTrader.Engine Handlers

namespace Binance

def statusBinance2kt : Table AString Status :=
  [("NEW", .notTraded), ("PARTIALLY_FILLED", .partTraded), ("FILLED", .allTraded),
   ("CANCELED", .cancelled), ("EXPIRED", .cancelled), ("REJECTED", .rejected)]

def directionBinance2vt : Table AString Direction := [("BUY", .long), ("SELL", .short)]

def ordertypeBinance2vt : Table AString Engine.OrderType :=
  [("MARKET", .market), ("STOP_MARKET", .stop), ("LIMIT", .limit)]

/-- The type of an order: a limit order that is filled at once or not at all has its own. -/
def orderTypeOf (type tif : AString) : Engine.OrderType :=
  match (ordertypeBinance2vt.lookup type).getD .limit with
  | .limit => if tif = "IOC" then .fak else if tif = "FOK" then .fok else .limit
  | other => other

def statusOf (status : AString) : Status := (statusBinance2kt.lookup status).getD .notTraded

/-- A time stamp, or the time on the clock where there is none. -/
def timeOr (stamp now : DateTime) : DateTime := if 0 < stamp then stamp else now

end Binance

open Binance

namespace BinanceUserApi

open BinanceExchange (Handle exchangeName)

def log (msg : AString) : Handle Unit := modify (·.writeLog msg)

def effect (e : Effect) : Handle Unit := modify (·.emit e)

/-- A member that is read by `JsonToFloat`. -/
def floatAt (data : Json.Value) (key : AString) : Handle ℚ := read (jsonToFloat <$> data.get key)

def numberOr (data : Json.Value) (key : AString) : Handle ℚ :=
  read (data.valueOr Json.Value.number? key 0)

def longOr (data : Json.Value) (key : AString) : Handle ℤ :=
  read (data.valueOr (Json.Value.long? fun q => q.num.tdiv q.den) key 0)

def onBalances : List Json.Value → Handle Unit
  | [] => pure ()
  | acc :: accs => do
    let accountid ← read (acc.stringOr "a" "")
    let balance ← numberOr acc "wb"
    let cw ← numberOr acc "cw"
    if balance ≠ 0 then
      effect (.account { accountid, balance, frozen := balance - cw, exchangeName })
    onBalances accs

/-- Only the positions of one-way mode are taken. -/
def onPositions : List Json.Value → Handle Unit
  | [] => pure ()
  | pos :: poss => do
    if (← read (pos.stringOr "ps" "")) ≠ "BOTH" then onPositions poss
    else do
      let volume := ((pos.get? "pa").map jsonToFloat).getD 0
      let name ← read (pos.stringOr "s" "")
      match (← get).getContractByName name with
      | none => onPositions poss
      | some contract => do
        let price ← numberOr pos "ep"
        let pnl ← numberOr pos "up"
        effect (.position { symbol := contract.symbol, exchange := .binance, direction := .net
                            volume, price, pnl, exchangeName })
        onPositions poss

/-- The elements of a member, if it is an array. -/
def arrayAt (data : Json.Value) (key : AString) : List Json.Value :=
  match data.get? key with
  | some (.array elements) => elements
  | _ => []

def onAccount (packet : Json.Value) : Handle Unit :=
  match packet.get? "a" with
  | none => pure ()
  | some a => do
    onBalances (arrayAt a "B")
    onPositions (arrayAt a "P")

/-- The order of an `ORDER_TRADE_UPDATE` packet. -/
def parseOrder (packet ord : Json.Value) (type : Engine.OrderType) (contract : ContractData)
    (now : DateTime) : Handle OrderData := do
  let orderid ← read (ord.stringOr "c" "")
  let price ← floatAt ord "p"
  let volume ← floatAt ord "q"
  let traded ← floatAt ord "z"
  let side ← read (ord.stringOr "S" "")
  let status ← read (ord.stringOr "X" "")
  let evt ← longOr packet "E"
  pure { symbol := contract.symbol, exchange := .binance, orderid, type
         direction := (directionBinance2vt.lookup side).getD .long, price, volume, traded
         status := statusOf status, datetime := timeOr evt now, exchangeName }

/-- The fill of an `ORDER_TRADE_UPDATE` packet. It is rounded to the smallest volume of the
contract, and there is no trade where nothing is left of it. -/
def onFill (ord : Json.Value) (order : OrderData) (contract : ContractData) (now : DateTime) :
    Handle Unit := do
  let volume := roundTo (← floatAt ord "l") contract.minVolume
  if volume ≤ 0 then pure ()
  else do
    let tradeid ← read (ord.stringOr "t" "")
    let price ← floatAt ord "L"
    let ttime ← longOr ord "T"
    effect (.trade { symbol := order.symbol, exchange := order.exchange, orderid := order.orderid
                     tradeid, direction := order.direction, price, volume
                     datetime := timeOr ttime now, exchangeName })

def onOrder (packet : Json.Value) (now : DateTime) : Handle Unit :=
  match packet.get? "o" with
  | none => pure ()
  | some ord => do
    let type ← read (ord.stringOr "o" "")
    let tif ← read (ord.stringOr "f" "GTC")
    let name ← read (ord.stringOr "s" "")
    match (← get).getContractByName name with
    | none => pure ()
    | some contract => do
      let order ← parseOrder packet ord (orderTypeOf type tif) contract now
      modify (·.onOrder order)
      onFill ord order contract now

/-- The socket that an expired key stops is not part of the state. -/
def onListenKeyExpired : Handle Unit := log "Listen key expired"

def onPacket (now : DateTime) (packet : Json.Value) : Handle Unit :=
  match packet.get? "e" with
  | none => pure ()
  | some e => do
    let evt ← read e.string?
    if evt = "ACCOUNT_UPDATE" then onAccount packet
    else if evt = "ORDER_TRADE_UPDATE" then onOrder packet now
    else if evt = "listenKeyExpired" then onListenKeyExpired
    else pure ()

def onText (s : BinanceExchange) (now : DateTime) (packet : Json.Value) : BinanceExchange :=
  Exchange.onText (onPacket now) (fun s fault => s.emit (.error fault)) s packet

end BinanceUserApi

namespace BinanceRestApi

open BinanceExchange (Handle exchangeName)

/-- The contract of an order: that of the swap of this name, and otherwise any of this name. -/
def contractOf (s : BinanceExchange) (name : AString) : Option ContractData :=
  (s.getContractBySymbol (name ++ "_SWAP")).orElse fun _ => s.getContractByName name

/-- The loop of `on_query_order`. The direction of the order is not set: it is what was in its
place before. -/
def onSnapshot (stray : Direction) (now : DateTime) : List Json.Value → Handle Unit
  | [] => modify (·.writeLog "Order data received")
  | d :: ds => do
    let type ← read (d.stringOr "type" "")
    let tif ← read (d.stringOr "timeInForce" "GTC")
    let name ← read (d.stringOr "symbol" "")
    match contractOf (← get) name with
    | none => onSnapshot stray now ds
    | some contract => do
      let orderid ← read (d.stringOr "clientOrderId" "")
      let price ← BinanceUserApi.numberOr d "price"
      let volume ← BinanceUserApi.numberOr d "origQty"
      let traded ← BinanceUserApi.numberOr d "executedQty"
      let status ← read (d.stringOr "status" "")
      modify (·.onOrder
        { symbol := contract.symbol, exchange := .binance, orderid, type := orderTypeOf type tif
          direction := stray, price, volume, traded, status := statusOf status, datetime := now
          exchangeName })
      onSnapshot stray now ds

def onQueryOrder (stray : Direction) (now : DateTime) (packet : Json.Value) : Handle Unit :=
  match packet with
  | .array ds => onSnapshot stray now ds
  | _ => pure ()

end BinanceRestApi

end KeenTrader.Exchange
