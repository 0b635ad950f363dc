import KeenTrader.Exchange.BinanceReports
import KeenTrader.Exchange.Replies

/-!
# Open orders on Binance

An open order is reported twice: in the answer to the order query of `BinanceRestApi`, and in a push
of the user stream. Both handlers find its contract in the table that `on_query_contract` has made
of the exchange information, and both build an order from the message. They do it alike, except
that the direction is left as it was where the answer is read.
-/

namespace KeenTrader.Exchange

open Std (ExtTreeMap)
open KeenTrader.Engine Handlers Binance

/-! ## The table of contracts -/

namespace BinanceRestApi

/-- What ends `on_query_contract` early: a member of another type, or a text that is no number. -/
inductive ContractFault where
  | json (error : Json.Error)
  | invalidArgument

/-- `std::stof`, which reads no number from a text that does not start with one. -/
def stof (text : AString) : Except ContractFault ℚ :=
  let (_, cs) := spanSign (text.toList.dropWhile isSpace)
  let (whole, cs) := cs.span Char.isDigit
  let fraction :=
    match cs with
    | '.' :: cs => cs.takeWhile Char.isDigit
    | _ => []
  if whole.isEmpty && fraction.isEmpty then .error .invalidArgument else .ok (atof text)

def textOr (d : Json.Value) (key default : AString) : Except ContractFault AString :=
  (d.stringOr key default).mapError .json

/-- The steps of prices and volumes, and the largest volume. -/
structure ContractSizes where
  pricetick : ℚ := 1
  minVolume : ℚ := 1
  maxVolume : ℚ := 1

/-- One round of the loop over the filters of a symbol. -/
def readFilter (sizes : ContractSizes) (f : Json.Value) : Except ContractFault ContractSizes := do
  let t ← textOr f "filterType" ""
  if t = "PRICE_FILTER" then
    let pricetick ← stof (← textOr f "tickSize" "1")
    pure { sizes with pricetick }
  else if t = "LOT_SIZE" then
    let minVolume ← stof (← textOr f "minQty" "1")
    let maxVolume ← stof (← textOr f "maxQty" "0")
    pure { sizes with minVolume, maxVolume }
  else pure sizes

def productBinance2kt : Table AString Product :=
  [("PERPETUAL", .swap), ("PERPETUAL_DELIVERING", .swap), ("CURRENT_MONTH", .futures),
   ("NEXT_MONTH", .futures), ("CURRENT_QUARTER", .futures), ("NEXT_QUARTER", .futures)]

/-- The symbol of a contract: swaps have an ending of their own. -/
def symbolOf (product : Product) (name : AString) : AString :=
  if product = .swap then name ++ "_SWAP" else name

/-- The contract that is made of a symbol of the exchange information. -/
def parseContract (d : Json.Value) : Except ContractFault ContractData := do
  let sizes ← (BinanceUserApi.arrayAt d "filters").foldlM readFilter {}
  let contractType ← textOr d "contractType" "PERPETUAL"
  let product := (productBinance2kt.lookup contractType).getD .swap
  let name ← textOr d "symbol" ""
  pure { symbol := symbolOf product name, exchange := .binance, name, product
         pricetick := sizes.pricetick, size := 1, minVolume := sizes.minVolume
         maxVolume := sizes.maxVolume, netPosition := true, historyData := true
         stopSupported := true, exchangeName := BinanceExchange.exchangeName }

def onSymbols : List Json.Value → Handler ContractFault BinanceExchange Unit
  | [] => modify (·.writeLog "Contract data received")
  | d :: ds => do
    let contract ← liftM (parseContract d)
    modify (·.onContract contract)
    onSymbols ds

/-- The queries that it goes on with are not part of the state. -/
def onQueryContract (packet : Json.Value) : Handler ContractFault BinanceExchange Unit :=
  match packet.get? "symbols" with
  | none => pure ()
  | some symbols => onSymbols symbols.items

/-- What the answers to contract queries have left. -/
def tableOf (packets : List Json.Value) : BinanceExchange :=
  packets.foldl (fun s packet => (onQueryContract packet).state s) {}

end BinanceRestApi

open BinanceRestApi BinanceExchange

/-- The contracts of a state are those of these answers. -/
structure HasTable (packets : List Json.Value) (s : BinanceExchange) : Prop where
  symbols : s.symbolContractMap = (tableOf packets).symbolContractMap
  names : s.nameContractMap = (tableOf packets).nameContractMap

/-- Contracts are found by what they are called, and called by their product. -/
structure Tabled (s : BinanceExchange) : Prop where
  symbol : ∀ symbol c, s.getContractBySymbol symbol = some c → c.symbol = symbol
  name : ∀ name c, s.getContractByName name = some c → c.symbol = symbolOf c.product name

variable {s t : BinanceExchange} {name : AString} {c : ContractData}

theorem parseContract_symbol {d : Json.Value} (parsed : parseContract d = .ok c) :
    c.symbol = symbolOf c.product c.name := by
  unfold parseContract at parsed
  cases sizes : (BinanceUserApi.arrayAt d "filters").foldlM readFilter {} with
  | error e => simp [sizes, bind, Except.bind] at parsed
  | ok _ =>
  cases type : textOr d "contractType" "PERPETUAL" with
  | error e => simp [sizes, type, bind, Except.bind] at parsed
  | ok _ =>
  cases symbol : textOr d "symbol" "" with
  | error e => simp [sizes, type, symbol, bind, Except.bind] at parsed
  | ok _ =>
    simp only [sizes, type, symbol, bind, Except.bind, pure, Except.pure, Except.ok.injEq] at parsed
    rw [← parsed]

theorem Tabled.onContract (tabled : Tabled s) (called : c.symbol = symbolOf c.product c.name) :
    Tabled (s.onContract c) where
  symbol symbol c' found := by
    simp only [getContractBySymbol, BinanceExchange.onContract, emit,
      ExtTreeMap.getElem?_insert] at found
    split at found
    · rename_i same
      obtain rfl := Option.some.inj found
      exact Std.compare_eq_iff_eq.mp same
    · exact tabled.symbol symbol c' found
  name name c' found := by
    simp only [getContractByName, BinanceExchange.onContract, emit,
      ExtTreeMap.getElem?_insert] at found
    split at found
    · rename_i same
      obtain rfl := Option.some.inj found
      rwa [← Std.compare_eq_iff_eq.mp same]
    · exact tabled.name name c' found

theorem tabled_onSymbols (ds : List Json.Value) : Preserves Tabled (onSymbols ds) := by
  induction ds with
  | nil => exact .modify fun s tabled => ⟨tabled.symbol, tabled.name⟩
  | cons d ds ih =>
    refine .lift_bind fun c parsed => .bind (.modify fun s tabled => ?_) fun _ => ih
    exact tabled.onContract (parseContract_symbol parsed)

theorem tabled_onQueryContract (packet : Json.Value) :
    Preserves Tabled (onQueryContract packet) := by
  unfold onQueryContract
  split
  · exact .pure _
  · exact tabled_onSymbols _

theorem tabled_tableOf (packets : List Json.Value) : Tabled (tableOf packets) := by
  refine Runs.foldl_invariant _ (fun s packet tabled => tabled_onQueryContract packet s tabled) ?_
  exact ⟨by simp [getContractBySymbol], by simp [getContractByName]⟩

theorem HasTable.tabled {packets : List Json.Value} (table : HasTable packets s) : Tabled s where
  symbol symbol c found := by
    rw [getContractBySymbol, table.symbols] at found
    exact (tabled_tableOf packets).symbol symbol c found
  name name c found := by
    rw [getContractByName, table.names] at found
    exact (tabled_tableOf packets).name name c found

/-- The contract of an order has no swap of the same name beside it, or is that swap. -/
def OneSymbol (s : BinanceExchange) (name : AString) : Prop :=
  s.getContractBySymbol (name ++ "_SWAP") = none ∨
    ∀ c, s.getContractByName name = some c → c.product = .swap

/-- An order of a known name finds a contract in both handlers. -/
theorem exists_contractOf (tabled : Tabled s) (known : s.getContractByName name = some c) :
    ∃ c', contractOf s name = some c' ∧ (c'.symbol = c.symbol ↔ OneSymbol s name) := by
  unfold contractOf OneSymbol
  cases swap : s.getContractBySymbol (name ++ "_SWAP") with
  | none => exact ⟨c, known, by simp⟩
  | some c' =>
    refine ⟨c', rfl, ?_⟩
    rw [tabled.symbol _ _ swap, tabled.name _ _ known, known, symbolOf]
    split
    · rename_i swap
      simp [swap]
    · rename_i dated
      simp [dated]

/-! ## One order, two reports -/

/-- An open order, as an element of the list of open orders and as an `ORDER_TRADE_UPDATE`. Every
member is there in a form that the parser accepts, and both tell the same. -/
structure OpenOrder where
  element : Json.Value
  packet : Json.Value
  ord : Json.Value
  name : AString
  clientId : AString
  side : AString
  type : AString
  tif : AString
  status : AString
  price : ℚ
  volume : ℚ
  traded : ℚ
  listedTexts : ∀ field ∈
    [("symbol", "", name), ("clientOrderId", "", clientId), ("side", "", side), ("type", "", type),
     ("timeInForce", "GTC", tif), ("status", "", status)],
    element.stringOr field.1 field.2.1 = .ok field.2.2
  listedNumbers : ∀ field ∈ [("price", price), ("origQty", volume), ("executedQty", traded)],
    element.valueOr Json.Value.number? field.1 0 = .ok field.2
  pushed : packet.get? "o" = some ord
  pushedTexts : ∀ field ∈
    [("s", "", name), ("c", "", clientId), ("S", "", side), ("o", "", type), ("f", "GTC", tif),
     ("X", "", status)],
    ord.stringOr field.1 field.2.1 = .ok field.2.2
  pushedNumbers : ∀ field ∈ [("p", price), ("q", volume), ("z", traded)],
    jsonToFloat <$> ord.get field.1 = .ok field.2
  time : ∃ n, packet.valueOr (Json.Value.long? fun q => q.num.tdiv q.den) "E" 0 = .ok n

/-- Both orders are the same, up to their times and what neither handler sets. -/
structure SameOrder (o p : OrderData) : Prop where
  ktSymbol : o.ktSymbol = p.ktSymbol
  ktOrderid : o.ktOrderid = p.ktOrderid
  type : o.type = p.type
  direction : o.direction = p.direction
  price : o.price = p.price
  volume : o.volume = p.volume
  traded : o.traded = p.traded
  status : o.status = p.status

/-- When the loop over the open orders comes to the order, it passes the same order to `on_order` as
the push does, with `stray` as what is in the place of a direction that is not set. -/
def ReportsAgree (s : BinanceExchange) (stray : Direction) (r : OpenOrder) : Prop :=
  ∀ (now : DateTime) (rest : List Json.Value), ∃ o p,
    (told s ((onSnapshot stray now (r.element :: rest)).state s)).head? = some o ∧
      told s ((BinanceUserApi.onOrder r.packet now).state s) = [p] ∧ SameOrder o p

namespace OpenOrder

variable {r : OpenOrder}

/-- The direction of a side; a side that is not known is taken to buy. -/
def direction (r : OpenOrder) : Direction := (directionBinance2vt.lookup r.side).getD .long

/-- The order that the messages tell of. -/
def order (r : OpenOrder) (contract : ContractData) (direction : Direction) (datetime : DateTime) :
    OrderData :=
  { symbol := contract.symbol, exchange := .binance, orderid := r.clientId
    type := orderTypeOf r.type r.tif, direction, price := r.price, volume := r.volume
    traded := r.traded, status := statusOf r.status, datetime, exchangeName }

/-- The loop goes on from the state in which the order has been passed on. -/
theorem exec_onSnapshot (r : OpenOrder) (stray : Direction) (now : DateTime)
    (found : contractOf s r.name = some c) (rest : List Json.Value) :
    (onSnapshot stray now (r.element :: rest)).exec s =
      (onSnapshot stray now rest).exec (s.onOrder (r.order c stray now)) := by
  have texts := r.listedTexts
  have numbers := r.listedNumbers
  simp only [List.forall_mem_cons] at texts numbers
  obtain ⟨name, clientId, -, type, tif, status, -⟩ := texts
  obtain ⟨price, volume, traded, -⟩ := numbers
  rw [onSnapshot, exec_read_bind_ok type, exec_read_bind_ok tif, exec_read_bind_ok name,
    exec_get_bind, found]
  dsimp only
  unfold BinanceUserApi.numberOr
  rw [exec_read_bind_ok clientId, exec_read_bind_ok price, exec_read_bind_ok volume,
    exec_read_bind_ok traded, exec_read_bind_ok status, exec_modify_bind]
  rfl

theorem exec_parseOrder (r : OpenOrder) (c : ContractData) (now : DateTime) (s : BinanceExchange) :
    ∃ datetime, (BinanceUserApi.parseOrder r.packet r.ord (orderTypeOf r.type r.tif) c now).exec s =
      (.ok (r.order c r.direction datetime), s) := by
  have texts := r.pushedTexts
  have numbers := r.pushedNumbers
  simp only [List.forall_mem_cons] at texts numbers
  obtain ⟨-, clientId, side, -, -, status, -⟩ := texts
  obtain ⟨price, volume, traded, -⟩ := numbers
  obtain ⟨n, time⟩ := r.time
  unfold BinanceUserApi.parseOrder BinanceUserApi.floatAt BinanceUserApi.longOr
  rw [exec_read_bind_ok clientId, exec_read_bind_ok price, exec_read_bind_ok volume,
    exec_read_bind_ok traded, exec_read_bind_ok side, exec_read_bind_ok status,
    exec_read_bind_ok time]
  exact ⟨_, rfl⟩

/-- The fill comes after the order. -/
theorem exec_onOrder (r : OpenOrder) (now : DateTime)
    (known : s.getContractByName r.name = some c) :
    ∃ datetime, (BinanceUserApi.onOrder r.packet now).exec s =
      (BinanceUserApi.onFill r.ord (r.order c r.direction datetime) c now).exec
        (s.onOrder (r.order c r.direction datetime)) := by
  have texts := r.pushedTexts
  simp only [List.forall_mem_cons] at texts
  obtain ⟨name, -, -, type, tif, -⟩ := texts
  obtain ⟨datetime, parsed⟩ := r.exec_parseOrder c now s
  refine ⟨datetime, ?_⟩
  unfold BinanceUserApi.onOrder
  rw [r.pushed]
  dsimp only
  rw [exec_read_bind_ok type, exec_read_bind_ok tif, exec_read_bind_ok name, exec_get_bind, known]
  dsimp only
  rw [exec_bind_ok parsed, exec_modify_bind]

end OpenOrder

/-- Something is added to the trace, and nothing is taken from it. -/
def Grown (s t : BinanceExchange) : Prop := s.trace <+: t.trace

theorem Grown.emit (grown : Grown s t) (e : Effect) : Grown s (t.emit e) :=
  grown.trans (List.prefix_append _ _)

theorem grown_onSnapshot (stray : Direction) (now : DateTime) (ds : List Json.Value) :
    Preserves (Grown s) (onSnapshot stray now ds) := by
  induction ds with
  | nil => exact .modify fun t grown => grown.emit _
  | cons d ds ih =>
    refine preserves_read_bind fun type _ => preserves_read_bind fun tif _ =>
      preserves_read_bind fun name _ => .get_bind fun t grown => ?_
    cases contractOf t name with
    | none => exact ih t grown
    | some c =>
      refine (preserves_read_bind fun orderid _ => preserves_read_bind fun price _ =>
        preserves_read_bind fun volume _ => preserves_read_bind fun traded _ =>
        preserves_read_bind fun status _ => .bind (.modify fun u grown => ?_) fun _ => ih) t grown
      exact grown.emit _

theorem silent_onFill (ord : Json.Value) (o : OrderData) (c : ContractData) (now : DateTime) :
    Preserves (Silent s) (BinanceUserApi.onFill ord o c now) := by
  unfold BinanceUserApi.onFill BinanceUserApi.floatAt
  refine preserves_read_bind fun l _ => .ite (.pure _) ?_
  refine preserves_read_bind fun tradeid _ => preserves_read_bind fun price _ =>
    preserves_read_bind fun ttime _ => .modify fun t silent => silent.emit rfl

/-- An order that is passed on at once comes first. -/
theorem told_of_onOrder {o : OrderData} {later : List Effect}
    (trace : t.trace = (s.onOrder o).trace ++ later) :
    told s t = o :: later.filterMap Effect.order? := by
  have new : t.trace = s.trace ++ (.order o :: later) := by
    rw [trace]
    simp [BinanceExchange.onOrder, emit]
  rw [told_of_append new]
  rfl

/-- The first order that the loop passes on is that of the first element. -/
theorem told_onSnapshot (r : OpenOrder) (stray : Direction) (now : DateTime)
    (found : contractOf s r.name = some c) (rest : List Json.Value) :
    (told s ((onSnapshot stray now (r.element :: rest)).state s)).head? =
      some (r.order c stray now) := by
  have grown : Grown (s.onOrder (r.order c stray now))
      ((onSnapshot stray now (r.element :: rest)).state s) := by
    unfold Handler.state
    rw [r.exec_onSnapshot stray now found]
    exact grown_onSnapshot stray now rest _ (List.prefix_refl _)
  obtain ⟨later, trace⟩ := grown
  rw [told_of_onOrder trace.symm, List.head?_cons]

/-- The push passes its order on, and nothing else. -/
theorem told_onOrder (r : OpenOrder) (now : DateTime)
    (known : s.getContractByName r.name = some c) :
    ∃ datetime, told s ((BinanceUserApi.onOrder r.packet now).state s) =
      [r.order c r.direction datetime] := by
  obtain ⟨datetime, handled⟩ := r.exec_onOrder now known
  refine ⟨datetime, ?_⟩
  obtain ⟨⟨later, trace, silent⟩, -⟩ := silent_onFill r.ord (r.order c r.direction datetime) c now _
    (Silent.refl (s.onOrder (r.order c r.direction datetime)))
  unfold Handler.state at trace ⊢
  rw [handled, told_of_onOrder trace, silent]

theorem ktSymbolOf_inj {a b : AString} (exchange : Engine.Exchange) :
    ktSymbolOf a exchange = ktSymbolOf b exchange ↔ a = b := by
  unfold ktSymbolOf
  rw [← String.toList_inj, ← String.toList_inj]
  simp

/-- The reports agree exactly if what is in the place of the direction is the direction of the side,
and no other contract has the symbol that a swap of this name would have. -/
theorem reportsAgree_iff (tabled : Tabled s) (r : OpenOrder)
    (known : s.getContractByName r.name = some c) (stray : Direction) :
    ReportsAgree s stray r ↔ stray = r.direction ∧ OneSymbol s r.name := by
  obtain ⟨c', found, symbols⟩ := exists_contractOf tabled known
  constructor
  · intro agree
    obtain ⟨o, p, listed, pushed, same⟩ := agree 0 []
    obtain ⟨datetime, told⟩ := told_onOrder r 0 known
    rw [told_onSnapshot r stray 0 found, Option.some_inj] at listed
    rw [told, List.singleton_inj] at pushed
    subst listed pushed
    exact ⟨same.direction, symbols.mp ((ktSymbolOf_inj .binance).mp same.ktSymbol)⟩
  · rintro ⟨direction, one⟩ now rest
    obtain ⟨datetime, told⟩ := told_onOrder r now known
    refine ⟨_, _, told_onSnapshot r stray now found rest, told, ?_⟩
    have symbol := (ktSymbolOf_inj .binance).mpr (symbols.mpr one)
    exact ⟨symbol, rfl, rfl, direction, rfl, rfl, rfl, rfl⟩

/-- Whatever the messages tell, they do not determine the direction of the order that is listed. -/
theorem direction_undetermined (packets : List Json.Value) (s : BinanceExchange)
    (table : HasTable packets s) (r : OpenOrder) (known : (s.getContractByName r.name).isSome) :
    ¬ ∀ stray, ReportsAgree s stray r := by
  intro all
  obtain ⟨c, found⟩ := Option.isSome_iff_exists.mp known
  have determined (stray : Direction) : stray = r.direction :=
    ((reportsAgree_iff table.tabled r found stray).mp (all stray)).1
  cases (determined .long).trans (determined .short).symm

section OneOrder

def exchangeInfo : Json.Value :=
  .object [("symbols", .array [.object
    [("contractType", .string "PERPETUAL"), ("symbol", .string "BTCUSDT"),
     ("filters", .array
      [.object [("filterType", .string "PRICE_FILTER"), ("tickSize", .string "0.10")],
       .object [("filterType", .string "LOT_SIZE"), ("maxQty", .string "1000"),
        ("minQty", .string "0.001")]])]])]

example : (tableOf [exchangeInfo]).getContractByName "BTCUSDT" =
    some
      { symbol := "BTCUSDT_SWAP", exchange := .binance, name := "BTCUSDT", product := .swap
        pricetick := 1 / 10, minVolume := 1 / 1000, maxVolume := 1000, stopSupported := true
        historyData := true, netPosition := true, exchangeName := "BINANCE" } := by
  decide +kernel

def listedSell : Json.Value :=
  .object
    [("clientOrderId", .string "7"), ("executedQty", .int 0), ("origQty", .int 2),
     ("price", .int 50000), ("side", .string "SELL"), ("status", .string "NEW"),
     ("symbol", .string "BTCUSDT"), ("timeInForce", .string "GTC"), ("type", .string "LIMIT")]

def pushedSell : Json.Value :=
  .object
    [("S", .string "SELL"), ("X", .string "NEW"), ("c", .string "7"), ("f", .string "GTC"),
     ("o", .string "LIMIT"), ("p", .string "50000"), ("q", .string "2"), ("s", .string "BTCUSDT"),
     ("z", .string "0")]

/-- An order that sells two contracts. -/
def openSell : OpenOrder where
  element := listedSell
  packet := .object [("E", .int 1), ("o", pushedSell)]
  ord := pushedSell
  name := "BTCUSDT"
  clientId := "7"
  side := "SELL"
  type := "LIMIT"
  tif := "GTC"
  status := "NEW"
  price := 50000
  volume := 2
  traded := 0
  listedTexts := by decide
  listedNumbers := by decide
  pushed := rfl
  pushedTexts := by decide
  pushedNumbers := by decide +kernel
  time := ⟨1, rfl⟩

theorem sell_undetermined : ¬ ∀ stray, ReportsAgree (tableOf [exchangeInfo]) stray openSell :=
  direction_undetermined [exchangeInfo] _ ⟨rfl, rfl⟩ openSell (by decide +kernel)

/-- The order that sells is listed with whatever direction was in its place. -/
theorem listed_sell_astray :
    ¬ ∀ (packets : List Json.Value) (s : BinanceExchange), HasTable packets s →
      ∀ r : OpenOrder, (s.getContractByName r.name).isSome → ∀ stray, ReportsAgree s stray r := by
  intro all
  have table : HasTable [exchangeInfo] (tableOf [exchangeInfo]) := ⟨rfl, rfl⟩
  have known : ((tableOf [exchangeInfo]).getContractByName "BTCUSDT").isSome := by decide +kernel
  obtain ⟨c, found⟩ := Option.isSome_iff_exists.mp known
  have agree := (reportsAgree_iff table.tabled openSell found .long).mp
    (all _ _ table openSell known .long)
  exact absurd agree.1 (by decide)

end OneOrder

end KeenTrader.Exchange
