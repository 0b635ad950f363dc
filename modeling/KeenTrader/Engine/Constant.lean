import Mathlib

/-!
# Enumerations

The enumerations of `constant.h` and the names that `magic_enum::enum_name` gives them.
-/

namespace KeenTrader.Engine

abbrev AString := String

inductive Direction where
  | long | short | net
  deriving DecidableEq, Repr, Inhabited

inductive Offset where
  | none | opening | close | closeToday | closeYesterday
  deriving DecidableEq, Repr, Inhabited

inductive Status where
  | submitting | notTraded | partTraded | allTraded | cancelled | rejected
  deriving DecidableEq, Repr, Inhabited

inductive Product where
  | equity | futures | option | index | forex | spot | etf | bond
  | warrant | spread | fund | cfd | swap
  deriving DecidableEq, Repr, Inhabited

inductive OrderType where
  | limit | market | stop | fak | fok | rfq
  deriving DecidableEq, Repr, Inhabited

inductive Interval where
  | none | minute | hour | daily | weekly | tick
  deriving DecidableEq, Repr, Inhabited

inductive PositionMode where
  | oneWay | hedge
  deriving DecidableEq, Repr, Inhabited

inductive Exchange where
  | cffex | shfe | czce | dce | ine | gfex | sse | szse
  | bse | shhk | szhk | sge | wxe | cfets | xbond | smart
  | nyse | nasdaq | arca | edgea | island | bats | iex | amex
  | tse | nymex | comex | globex | idealpro | cme | ice | sehk
  | hkfe | sgx | cbot | cboe | cfe | dme | eurex | apex
  | lme | bmd | tocom | eunx | krx | otc | ibkrats | localData
  | bitmex | okx | huobi | bitfinex | binance | bybit | coinbase | bitstamp
  deriving DecidableEq, Repr, Inhabited

def strDirection : Direction → AString
  | .long => "LONG"
  | .short => "SHORT"
  | .net => "NET"

def exchangeToStr : Exchange → AString
  | .cffex => "CFFEX"
  | .shfe => "SHFE"
  | .czce => "CZCE"
  | .dce => "DCE"
  | .ine => "INE"
  | .gfex => "GFEX"
  | .sse => "SSE"
  | .szse => "SZSE"
  | .bse => "BSE"
  | .shhk => "SHHK"
  | .szhk => "SZHK"
  | .sge => "SGE"
  | .wxe => "WXE"
  | .cfets => "CFETS"
  | .xbond => "XBOND"
  | .smart => "SMART"
  | .nyse => "NYSE"
  | .nasdaq => "NASDAQ"
  | .arca => "ARCA"
  | .edgea => "EDGEA"
  | .island => "ISLAND"
  | .bats => "BATS"
  | .iex => "IEX"
  | .amex => "AMEX"
  | .tse => "TSE"
  | .nymex => "NYMEX"
  | .comex => "COMEX"
  | .globex => "GLOBEX"
  | .idealpro => "IDEALPRO"
  | .cme => "CME"
  | .ice => "ICE"
  | .sehk => "SEHK"
  | .hkfe => "HKFE"
  | .sgx => "SGX"
  | .cbot => "CBOT"
  | .cboe => "CBOE"
  | .cfe => "CFE"
  | .dme => "DME"
  | .eurex => "EUREX"
  | .apex => "APEX"
  | .lme => "LME"
  | .bmd => "BMD"
  | .tocom => "TOCOM"
  | .eunx => "EUNX"
  | .krx => "KRX"
  | .otc => "OTC"
  | .ibkrats => "IBKRATS"
  | .localData => "LOCAL"
  | .bitmex => "BITMEX"
  | .okx => "OKX"
  | .huobi => "HUOBI"
  | .bitfinex => "BITFINEX"
  | .binance => "BINANCE"
  | .bybit => "BYBIT"
  | .coinbase => "COINBASE"
  | .bitstamp => "BITSTAMP"

/-- The exchanges that keep today's and yesterday's volume as separate closing targets. -/
def Exchange.closesYesterday (e : Exchange) : Bool := e = .shfe || e = .ine

end KeenTrader.Engine
