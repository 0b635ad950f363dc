import KeenTrader.Engine.Constant

/-!
# Trading objects

The records of `object.h`. The key strings that `__post_init__` stores (`kt_symbol`,
`kt_orderid`, `kt_tradeid`, `kt_positionid`) are functions of the other fields: every
constructor of the source calls `__post_init__` at once and nothing changes those fields
afterwards, so a record with a stale key cannot be built here. Prices and volumes are exact
rationals, and a `DateTime` counts milliseconds.
-/

namespace KeenTrader.Engine

abbrev DateTime := ℤ

def ktSymbolOf (symbol : AString) (exchange : Exchange) : AString :=
  symbol ++ "." ++ exchangeToStr exchange

structure TickData where
  symbol : AString
  exchange : Exchange
  name : AString := ""
  datetime : DateTime := 0
  exchangeName : AString := ""
  volume : ℚ := 0
  turnover : ℚ := 0
  openInterest : ℚ := 0
  lastPrice : ℚ := 0
  lastVolume : ℚ := 0
  limitUp : ℚ := 0
  limitDown : ℚ := 0
  openPrice : ℚ := 0
  highPrice : ℚ := 0
  lowPrice : ℚ := 0
  bidPrice1 : ℚ := 0
  bidPrice2 : ℚ := 0
  bidPrice3 : ℚ := 0
  bidPrice4 : ℚ := 0
  bidPrice5 : ℚ := 0
  askPrice1 : ℚ := 0
  askPrice2 : ℚ := 0
  askPrice3 : ℚ := 0
  askPrice4 : ℚ := 0
  askPrice5 : ℚ := 0
  bidVolume1 : ℚ := 0
  bidVolume2 : ℚ := 0
  bidVolume3 : ℚ := 0
  bidVolume4 : ℚ := 0
  bidVolume5 : ℚ := 0
  askVolume1 : ℚ := 0
  askVolume2 : ℚ := 0
  askVolume3 : ℚ := 0
  askVolume4 : ℚ := 0
  askVolume5 : ℚ := 0
  deriving DecidableEq, Repr

def TickData.ktSymbol (t : TickData) : AString := ktSymbolOf t.symbol t.exchange

structure BarData where
  exchangeName : AString
  symbol : AString
  exchange : Exchange
  datetime : DateTime
  interval : Interval := .none
  volume : ℚ := 0
  openInterest : ℚ := 0
  openPrice : ℚ := 0
  highPrice : ℚ := 0
  lowPrice : ℚ := 0
  closePrice : ℚ := 0
  deriving DecidableEq, Repr

structure CancelRequest where
  orderid : AString
  symbol : AString
  exchange : Exchange
  deriving DecidableEq, Repr

def CancelRequest.ktSymbol (r : CancelRequest) : AString := ktSymbolOf r.symbol r.exchange

/-- `ACTIVE_STATUSES` of `object.cpp`. -/
def Status.isActive : Status → Bool
  | .submitting | .notTraded | .partTraded => true
  | .allTraded | .cancelled | .rejected => false

structure OrderData where
  symbol : AString
  exchange : Exchange
  orderid : AString
  type : OrderType := .limit
  direction : Direction
  offset : Offset := .none
  price : ℚ := 0
  volume : ℚ := 0
  traded : ℚ := 0
  status : Status := .submitting
  datetime : DateTime := 0
  reference : AString := ""
  exchangeName : AString := ""
  deriving DecidableEq, Repr

namespace OrderData

def ktSymbol (o : OrderData) : AString := ktSymbolOf o.symbol o.exchange
def ktOrderid (o : OrderData) : AString := o.exchangeName ++ "." ++ o.orderid
def isActive (o : OrderData) : Bool := o.status.isActive

def createCancelRequest (o : OrderData) : CancelRequest :=
  { orderid := o.orderid, symbol := o.symbol, exchange := o.exchange }

/-- The part of the order that is still to be filled. -/
def remaining (o : OrderData) : ℚ := o.volume - o.traded

end OrderData

structure TradeData where
  symbol : AString
  exchange : Exchange
  orderid : AString
  tradeid : AString
  direction : Direction
  offset : Offset := .none
  price : ℚ := 0
  volume : ℚ := 0
  datetime : DateTime := 0
  exchangeName : AString := ""
  deriving DecidableEq, Repr

namespace TradeData

def ktSymbol (t : TradeData) : AString := ktSymbolOf t.symbol t.exchange
def ktOrderid (t : TradeData) : AString := t.exchangeName ++ "." ++ t.orderid
def ktTradeid (t : TradeData) : AString := t.exchangeName ++ "." ++ t.tradeid

end TradeData

structure PositionData where
  symbol : AString
  exchange : Exchange
  direction : Direction
  volume : ℚ := 0
  frozen : ℚ := 0
  price : ℚ := 0
  pnl : ℚ := 0
  ydVolume : ℚ := 0
  exchangeName : AString := ""
  deriving DecidableEq, Repr

def PositionData.ktSymbol (p : PositionData) : AString := ktSymbolOf p.symbol p.exchange

def PositionData.ktPositionid (p : PositionData) : AString :=
  p.ktSymbol ++ "." ++ strDirection p.direction

structure AccountData where
  accountid : AString
  balance : ℚ := 0
  frozen : ℚ := 0
  exchangeName : AString := ""
  deriving DecidableEq, Repr

def AccountData.available (a : AccountData) : ℚ := a.balance - a.frozen

def AccountData.ktAccountid (a : AccountData) : AString := a.exchangeName ++ "." ++ a.accountid

structure ContractData where
  symbol : AString
  exchange : Exchange
  name : AString := ""
  instIdCode : ℤ := 0
  product : Product
  size : ℚ := 1
  pricetick : ℚ
  minVolume : ℚ := 1
  maxVolume : ℚ := 0
  stopSupported : Bool := false
  historyData : Bool := false
  netPosition : Bool := false
  exchangeName : AString := ""
  deriving DecidableEq, Repr

def ContractData.ktSymbol (c : ContractData) : AString := ktSymbolOf c.symbol c.exchange

/-- A two-sided quote. Its key is stored: `__post_init__` puts the exchange name in front of
whatever the key was. -/
structure QuoteData where
  symbol : AString
  exchange : Exchange
  quoteid : AString
  bidPrice : ℚ := 0
  bidVolume : ℤ := 0
  askPrice : ℚ := 0
  askVolume : ℤ := 0
  bidOffset : Offset := .none
  askOffset : Offset := .none
  status : Status := .submitting
  datetime : DateTime := 0
  reference : AString := ""
  exchangeName : AString := ""
  ktQuoteid : AString := ""
  deriving DecidableEq, Repr

namespace QuoteData

def postInit (q : QuoteData) : QuoteData :=
  { q with ktQuoteid := q.exchangeName ++ "." ++ q.ktQuoteid }
def isActive (q : QuoteData) : Bool := q.status.isActive

end QuoteData

structure QuoteRequest where
  symbol : AString
  exchange : Exchange
  bidPrice : ℚ
  bidVolume : ℤ
  askPrice : ℚ
  askVolume : ℤ
  bidOffset : Offset := .none
  askOffset : Offset := .none
  reference : AString := ""
  deriving DecidableEq, Repr

def QuoteRequest.createQuoteData (r : QuoteRequest) (quoteid exchangeName : AString) :
    QuoteData :=
  QuoteData.postInit
    { symbol := r.symbol, exchange := r.exchange, quoteid
      bidPrice := r.bidPrice, bidVolume := r.bidVolume
      askPrice := r.askPrice, askVolume := r.askVolume
      bidOffset := r.bidOffset, askOffset := r.askOffset
      reference := r.reference, exchangeName }

structure SubscribeRequest where
  symbol : AString
  exchange : Exchange
  deriving DecidableEq, Repr

structure OrderRequest where
  symbol : AString
  exchange : Exchange
  direction : Direction
  type : OrderType
  volume : ℚ := 0
  price : ℚ := 0
  offset : Offset := .none
  reference : AString := ""
  deriving DecidableEq, Repr

def OrderRequest.ktSymbol (r : OrderRequest) : AString := ktSymbolOf r.symbol r.exchange

/-- The order that a request becomes when it is sent: status `SUBMITTING`, nothing traded. -/
def OrderRequest.createOrderData (r : OrderRequest) (orderid exchangeName : AString) :
    OrderData :=
  { symbol := r.symbol, exchange := r.exchange, orderid, type := r.type
    direction := r.direction, offset := r.offset, price := r.price, volume := r.volume
    reference := r.reference, exchangeName }

@[simp] theorem OrderRequest.createOrderData_isActive (r : OrderRequest) (i e : AString) :
    (r.createOrderData i e).isActive = true := rfl

@[simp] theorem OrderRequest.createOrderData_remaining (r : OrderRequest) (i e : AString) :
    (r.createOrderData i e).remaining = r.volume := by
  simp [OrderData.remaining, createOrderData]

structure HistoryRequest where
  symbol : AString
  exchange : Exchange
  start : DateTime
  «end» : DateTime
  interval : Interval := .none
  deriving DecidableEq, Repr

def HistoryRequest.ktSymbol (r : HistoryRequest) : AString := ktSymbolOf r.symbol r.exchange

/-! ## Splitting an order key -/

/-- `kt_orderid.substr(0, kt_orderid.find("."))`: all of the key when it has no dot. -/
def exchangeNameOf (ktOrderid : AString) : AString :=
  String.ofList (ktOrderid.toList.takeWhile (· ≠ '.'))

/-- `kt_orderid.substr(kt_orderid.find(".") + 1)`: `npos + 1` is 0, so again all of the key when
it has no dot. -/
def orderidOf (ktOrderid : AString) : AString :=
  if '.' ∈ ktOrderid.toList then String.ofList (ktOrderid.toList.dropWhile (· ≠ '.')).tail
  else ktOrderid

theorem takeWhile_append_dropWhile_tail {cs : List Char} (dot : '.' ∈ cs) :
    cs.takeWhile (· ≠ '.') ++ '.' :: (cs.dropWhile (· ≠ '.')).tail = cs := by
  induction cs with
  | nil => simp at dot
  | cons c cs ih =>
    by_cases eq : c = '.'
    · simp [eq]
    · have rest : '.' ∈ cs := by simpa [Ne.symm eq] using dot
      simpa [eq] using ih rest

/-- A key with a dot is put together again from its two parts. -/
theorem exchangeNameOf_orderidOf {k : AString} (dot : '.' ∈ k.toList) :
    exchangeNameOf k ++ "." ++ orderidOf k = k := by
  apply String.toList_inj.mp
  simpa [exchangeNameOf, orderidOf, dot] using takeWhile_append_dropWhile_tail dot

end KeenTrader.Engine
