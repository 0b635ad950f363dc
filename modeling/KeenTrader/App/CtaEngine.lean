import KeenTrader.Library.Handlers
import KeenTrader.Library.Json
import KeenTrader.Engine.Oms
import KeenTrader.App.Template

/-!
# The strategy engine

`CtaEngine` over the order management engine. The functions that call a strategy back take the
callback as a parameter, and `callback` closes the recursion: a callback makes the calls that
its strategy reacts with, and those calls may call strategies back again. The outside world is
an `Environment`: what the strategies do, what the exchanges answer, and in which order
unordered containers are enumerated. What the engine does to the outside is recorded in
`trace`, latest last.
-/

namespace KeenTrader.App

open Std (ExtTreeMap ExtTreeSet)
open Containers Handlers KeenTrader.Engine

/-- What the engine does to the outside: it calls a strategy, an exchange, or the event queue. -/
inductive Effect where
  | callback (strategy : Ptr) (callback : Callback)
  | sendOrder (strategy : Ptr) (trading : Bool) (req : OrderRequest) (exchangeName : AString)
      (ktOrderid : Option AString)
  | cancelOrder (req : CancelRequest) (exchangeName : AString)
  | subscribe (req : SubscribeRequest) (exchangeName : AString)
  | stopOrderEvent (stopOrder : StopOrder)
  | strategyEvent (strategy : Ptr)
  | log (msg : AString)

/-- `oms` is the state behind `trade_engine`, `objects` the strategy objects by address, and
`nextPtr` the address of the next one. `settingFile` is what the setting file holds, which is made
where it is missing. -/
structure CtaEngine where
  oms : OmsEngine := {}
  objects : Ptr → CtaTemplate := fun _ => {}
  nextPtr : Ptr := 0
  strategySetting : Json.Value := .object []
  settingFile : Json.Value := .object []
  classes : ExtTreeSet AString := ∅
  strategies : ExtTreeMap AString Ptr := ∅
  symbolStrategyMap : ExtTreeMap AString (List Ptr) := ∅
  orderidStrategyMap : ExtTreeMap AString Ptr := ∅
  strategyOrderidMap : ExtTreeMap AString (ExtTreeSet AString) := ∅
  stopOrderCount : ℕ := 0
  stopOrders : ExtTreeMap AString StopOrder := ∅
  ktTradeids : ExtTreeSet AString := ∅
  trace : List Effect := []

/-- The outside world. `accept` is the id that an exchange gives to an order, none when it
refuses or does not exist; `react` is the list of calls that a strategy makes from a callback.
Callbacks nested `depth` deep make no further calls, and a pass over the stop orders that has
visited `passes` of them has not returned. -/
structure Environment where
  enum : Enumeration AString OrderData
  accept : CtaEngine → OrderRequest → AString → Option AString
  react : CtaEngine → Ptr → Callback → List TemplateCall
  depth : ℕ
  passes : ℕ
  accept_name : ∀ s req exchangeName orderid, accept s req exchangeName = some orderid →
    isStopOrderid exchangeName = false

/-- How a strategy is called back. -/
abbrev Runner := Ptr → Callback → CtaEngine → CtaEngine

namespace CtaEngine

def emit (s : CtaEngine) (e : Effect) : CtaEngine := { s with trace := s.trace ++ [e] }

def writeLog (s : CtaEngine) (msg : AString) (strategy : Option Ptr) : CtaEngine :=
  match strategy with
  | some p => s.emit (.log ((s.objects p).strategyName ++ ": " ++ msg))
  | none => s.emit (.log msg)

def putStopOrderEvent (s : CtaEngine) (stopOrder : StopOrder) : CtaEngine :=
  s.emit (.stopOrderEvent stopOrder)

def putStrategyEvent (s : CtaEngine) (p : Ptr) : CtaEngine := s.emit (.strategyEvent p)

/-- `strategy_orderid_map[strategy_name]`. -/
def orderids (s : CtaEngine) (strategyName : AString) : ExtTreeSet AString :=
  s.strategyOrderidMap.getD strategyName ∅

def setOrderids (s : CtaEngine) (strategyName : AString) (ids : ExtTreeSet AString) : CtaEngine :=
  { s with strategyOrderidMap := s.strategyOrderidMap.insert strategyName ids }

@[simp] theorem emit_stopOrders (s : CtaEngine) (e : Effect) :
    (s.emit e).stopOrders = s.stopOrders := rfl

@[simp] theorem setOrderids_stopOrders (s : CtaEngine) (name : AString)
    (ids : ExtTreeSet AString) : (s.setOrderids name ids).stopOrders = s.stopOrders := rfl

@[simp] theorem setOrderids_trace (s : CtaEngine) (name : AString) (ids : ExtTreeSet AString) :
    (s.setOrderids name ids).trace = s.trace := rfl

def updateObject (s : CtaEngine) (p : Ptr) (f : CtaTemplate → CtaTemplate) : CtaEngine :=
  { s with objects := Function.update s.objects p (f (s.objects p)) }

/-- What an update of one object leaves as it is, it leaves as it is in all of them. -/
theorem updateObject_keeps {α : Type} (field : CtaTemplate → α) (s : CtaEngine) {p : Ptr}
    {f : CtaTemplate → CtaTemplate} (keeps : field (f (s.objects p)) = field (s.objects p))
    (q : Ptr) : field ((s.updateObject p f).objects q) = field (s.objects q) := by
  by_cases same : q = p
  · subst same
    simpa [updateObject] using keeps
  · simp [updateObject, same]

/-! ## Orders -/

section Orders
variable (env : Environment)

/-- One round of the loop of `send_server_order`. An order id is the exchange's name, a dot,
and the id that the exchange gave. -/
def sendRequest (s : CtaEngine) (p : Ptr) (req : OrderRequest) (exchangeName : AString) :
    Option AString × CtaEngine :=
  let trading := (s.objects p).trading
  match env.accept s req exchangeName with
  | none => (none, s.emit (.sendOrder p trading req exchangeName none))
  | some orderid =>
    let ktOrderid := exchangeName ++ "." ++ orderid
    let s := s.emit (.sendOrder p trading req exchangeName (some ktOrderid))
    let s := { s with
      oms := s.oms.updateOrderRequest env.enum req ktOrderid exchangeName
      orderidStrategyMap := s.orderidStrategyMap.insert ktOrderid p }
    let name := (s.objects p).strategyName
    (some ktOrderid, s.setOrderids name ((s.orderids name).insert ktOrderid))

def sendRequests (p : Ptr) (exchangeName : AString) :
    List OrderRequest → CtaEngine → List AString × CtaEngine
  | [], s => ([], s)
  | req :: reqs, s =>
    let (ktOrderid, s) := sendRequest env s p req exchangeName
    let (ktOrderids, s) := sendRequests p exchangeName reqs s
    (ktOrderid.toList ++ ktOrderids, s)

/-- The reference is the text of the format string: it has no conversion to fill in. -/
def sendServerOrder (s : CtaEngine) (p : Ptr) (contract : ContractData) (direction : Direction)
    (offset : Offset) (price volume : ℚ) (type : Engine.OrderType) (lock net : Bool) :
    List AString × CtaEngine :=
  let originalReq : OrderRequest :=
    { symbol := contract.symbol, exchange := contract.exchange, direction, type, volume, price
      offset, reference := "\x7bAPP_NAME\x7d_\x7bstrategy.strategy_name\x7d" }
  let (reqs, oms) := s.oms.boundConvertOrderRequest originalReq contract.exchangeName lock net
  sendRequests env p contract.exchangeName reqs { s with oms }

def sendLimitOrder (s : CtaEngine) (p : Ptr) (contract : ContractData) (direction : Direction)
    (offset : Offset) (price volume : ℚ) (lock net : Bool) : List AString × CtaEngine :=
  sendServerOrder env s p contract direction offset price volume .limit lock net

def sendServerStopOrder (s : CtaEngine) (p : Ptr) (contract : ContractData)
    (direction : Direction) (offset : Offset) (price volume : ℚ) (lock net : Bool) :
    List AString × CtaEngine :=
  sendServerOrder env s p contract direction offset price volume .stop lock net

def cancelServerOrder (s : CtaEngine) (p : Ptr) (ktOrderid : AString) : CtaEngine :=
  match s.oms.getOrder ktOrderid with
  | none =>
    s.writeLog ("Failed to cancel the order, can't find the entrustment " ++ ktOrderid) (some p)
  | some order => s.emit (.cancelOrder order.createCancelRequest order.exchangeName)

variable (call : Runner)

/-- Record a stop order and tell its strategy. -/
def placeStopOrder (s : CtaEngine) (p : Ptr) (stopOrder : StopOrder) : CtaEngine :=
  let s := { s with
    stopOrderCount := s.stopOrderCount + 1
    stopOrders := s.stopOrders.insert stopOrder.stopOrderid stopOrder }
  let name := (s.objects p).strategyName
  s.setOrderids name ((s.orderids name).insert stopOrder.stopOrderid)

@[simp] theorem placeStopOrder_stopOrders (s : CtaEngine) (p : Ptr) (stopOrder : StopOrder) :
    (s.placeStopOrder p stopOrder).stopOrders =
      s.stopOrders.insert stopOrder.stopOrderid stopOrder := rfl

@[simp] theorem placeStopOrder_trace (s : CtaEngine) (p : Ptr) (stopOrder : StopOrder) :
    (s.placeStopOrder p stopOrder).trace = s.trace := rfl

def sendLocalStopOrder (s : CtaEngine) (p : Ptr) (direction : Direction) (offset : Offset)
    (price volume : ℚ) (lock net : Bool) : List AString × CtaEngine :=
  let stopOrderid := "STOP" ++ "." ++ toString (s.stopOrderCount + 1)
  let stopOrder : StopOrder :=
    { ktSymbol := (s.objects p).ktSymbol, direction, offset, price, volume, stopOrderid
      strategyName := (s.objects p).strategyName, lock, net }
  let s := s.placeStopOrder p stopOrder
  let s := call p (.onStopOrder stopOrder) s
  ([stopOrderid], s.putStopOrderEvent stopOrder)

/-- Take a stop order out of the book and out of its strategy's ids. -/
def dropStopOrder (s : CtaEngine) (p : Ptr) (stopOrderid : AString) : CtaEngine :=
  let s := { s with stopOrders := s.stopOrders.erase stopOrderid }
  let name := (s.objects p).strategyName
  s.setOrderids name ((s.orderids name).erase stopOrderid)

@[simp] theorem dropStopOrder_stopOrders (s : CtaEngine) (p : Ptr) (stopOrderid : AString) :
    (s.dropStopOrder p stopOrderid).stopOrders = s.stopOrders.erase stopOrderid := rfl

@[simp] theorem dropStopOrder_trace (s : CtaEngine) (p : Ptr) (stopOrderid : AString) :
    (s.dropStopOrder p stopOrderid).trace = s.trace := rfl

/-- The strategy is the one named in the stop order, whoever asks. The stop order is read on
after its erasure, as the value it had. -/
def cancelLocalStopOrder (s : CtaEngine) (stopOrderid : AString) : CtaEngine :=
  match s.stopOrders[stopOrderid]? with
  | none => s
  | some stopOrder =>
    match s.strategies[stopOrder.strategyName]? with
    | none => s
    | some p =>
      let s := s.dropStopOrder p stopOrderid
      let stopOrder := { stopOrder with status := .cancelled }
      (call p (.onStopOrder stopOrder) s).putStopOrderEvent stopOrder

def sendOrder (s : CtaEngine) (p : Ptr) (direction : Direction) (offset : Offset)
    (price volume : ℚ) (stop lock net : Bool) : List AString × CtaEngine :=
  match s.oms.getContract (s.objects p).ktSymbol with
  | none =>
    ([], s.writeLog ("Commission failed, contract not found: " ++ (s.objects p).ktSymbol) (some p))
  | some contract =>
    let price := roundTo price contract.pricetick
    let volume := roundTo volume contract.minVolume
    if stop then
      if contract.stopSupported then
        sendServerStopOrder env s p contract direction offset price volume lock net
      else sendLocalStopOrder call s p direction offset price volume lock net
    else sendLimitOrder env s p contract direction offset price volume lock net

def cancelOrder (s : CtaEngine) (p : Ptr) (ktOrderid : AString) : CtaEngine :=
  if isStopOrderid ktOrderid then cancelLocalStopOrder call s ktOrderid
  else s.cancelServerOrder p ktOrderid

/-- The loop runs over a copy of the set of ids. -/
def cancelAll (s : CtaEngine) (p : Ptr) : CtaEngine :=
  (s.orderids (s.objects p).strategyName).toList.foldl (fun s id => cancelOrder call s p id) s

/-- A call of the template, which does nothing for a strategy that is not trading. -/
def templateCall (s : CtaEngine) (p : Ptr) (c : TemplateCall) : CtaEngine :=
  if (s.objects p).trading then
    match c with
    | .sendOrder direction offset price volume stop lock net =>
      (sendOrder env call s p direction offset price volume stop lock net).2
    | .cancelOrder ktOrderid => cancelOrder call s p ktOrderid
    | .cancelAll => cancelAll call s p
  else s

end Orders

/-- Calling a strategy back, to a depth of nesting. -/
def callback (env : Environment) : ℕ → Runner
  | 0, p, cb, s => s.emit (.callback p cb)
  | n + 1, p, cb, s =>
    let s := s.emit (.callback p cb)
    (env.react s p cb).foldl (fun s c => templateCall env (callback env n) s p c) s

/-! ## Events -/

section Events
variable (env : Environment)

/-- The strategies are called with the nesting that the environment allows. -/
def call : Runner := callback env env.depth

/-- One visit of the loop of `check_stop_order`; none when `contract.value()` throws. -/
def checkOne (s : CtaEngine) (tick : TickData) (stopOrder : StopOrder) : Option CtaEngine :=
  if stopOrder.ktSymbol ≠ tick.ktSymbol then some s
  else if (stopOrder.direction = .long ∧ stopOrder.price ≤ tick.lastPrice) ∨
      (stopOrder.direction = .short ∧ tick.lastPrice ≤ stopOrder.price) then
    match s.strategies[stopOrder.strategyName]?, s.oms.getContract stopOrder.ktSymbol with
    | some p, some contract =>
      let price :=
        if stopOrder.direction = .long then
          if tick.limitUp ≠ 0 then tick.limitUp else tick.askPrice5
        else if tick.limitDown ≠ 0 then tick.limitDown else tick.bidPrice5
      let (ktOrderids, s) := sendLimitOrder env s p contract stopOrder.direction
        stopOrder.offset price stopOrder.volume stopOrder.lock stopOrder.net
      if ktOrderids = [] then some s
      else
        let s := s.dropStopOrder p stopOrder.stopOrderid
        let stopOrder := { stopOrder with status := .triggered, ktOrderids }
        some ((call env p (.onStopOrder stopOrder) s).putStopOrderEvent stopOrder)
    | _, _ => none
  else some s

/-- The entry that the iteration reaches next: the first one behind the key that it is at. A step
from an entry that has been erased, which C++ leaves undefined, is read as one by key order, too. -/
def nextStopOrder (s : CtaEngine) (after : Option AString) : Option (AString × StopOrder) :=
  s.stopOrders.toList.find? fun x => after.all (· < x.1)

/-- The loop of `check_stop_order`, by key order, with the state in which it ends and whether
it has returned. -/
def checkStopOrders (tick : TickData) : ℕ → Option AString → CtaEngine → CtaEngine × Bool
  | 0, _, s => (s, false)
  | n + 1, after, s =>
    match s.nextStopOrder after with
    | none => (s, true)
    | some (key, stopOrder) =>
      match checkOne env s tick stopOrder with
      | none => (s, false)
      | some s => checkStopOrders tick n (some key) s

def checkStopOrder (s : CtaEngine) (tick : TickData) : CtaEngine × Bool :=
  checkStopOrders env tick env.passes none s

def processTickEvent (s : CtaEngine) (tick : TickData) : CtaEngine :=
  match s.symbolStrategyMap.getD tick.ktSymbol [] with
  | [] => s
  | strategies =>
    let (s, returned) := s.checkStopOrder env tick
    if returned then
      strategies.foldl
        (fun s p => if (s.objects p).inited then call env p (.onTick tick) s else s) s
    else s

def processOrderEvent (s : CtaEngine) (order : OrderData) : CtaEngine :=
  match s.orderidStrategyMap[order.ktOrderid]? with
  | none => s
  | some p =>
    let name := (s.objects p).strategyName
    let s :=
      if (s.orderids name).contains order.ktOrderid ∧ order.isActive = false then
        s.setOrderids name ((s.orderids name).erase order.ktOrderid)
      else s
    let s :=
      if order.type = .stop then
        call env p (.onStopOrder
          { ktSymbol := order.ktSymbol, direction := order.direction, offset := order.offset
            price := order.price, volume := order.volume, stopOrderid := order.ktOrderid
            strategyName := name, datetime := order.datetime, ktOrderids := [order.ktOrderid]
            status := stopStatus order.status }) s
      else s
    call env p (.onOrder order) s

/-- A trade that has not been seen before. -/
def processNewTrade (s : CtaEngine) (trade : TradeData) : CtaEngine :=
  match s.orderidStrategyMap[trade.ktOrderid]? with
  | none => s
  | some p =>
    let s := s.updateObject p fun t =>
      { t with pos := if trade.direction = .long then t.pos + trade.volume
                      else t.pos - trade.volume }
    (call env p (.onTrade trade) s).putStrategyEvent p

def processTradeEvent (s : CtaEngine) (trade : TradeData) : CtaEngine :=
  if s.ktTradeids.contains trade.ktTradeid then s
  else
    processNewTrade env { s with ktTradeids := s.ktTradeids.insert trade.ktTradeid } trade

/-! ## Lifecycle -/

/-- `strategies[strategy_name]` of a registered name. Other names are not used. -/
def withStrategy (s : CtaEngine) (strategyName : AString) (f : Ptr → CtaEngine) : CtaEngine :=
  match s.strategies[strategyName]? with
  | some p => f p
  | none => s

def strategyConfig (strategy : CtaTemplate) (setting : Json.Value) : Json.Value :=
  .object [("class_name", .string strategy.className), ("kt_symbol", .string strategy.ktSymbol),
    ("setting", setting)]

/-- `strategy_setting` is changed and saved by `save_json`. -/
def saveSetting (s : CtaEngine) (strategySetting : Json.Value) : CtaEngine :=
  { s with strategySetting, settingFile := strategySetting.reread }

/-- Assigning to the setting of a strategy throws where the setting file held neither an object
nor nothing. -/
def updateStrategySetting (strategyName : AString) (p : Ptr) (setting : Json.Value) :
    Handler Json.Error CtaEngine Unit := do
  let s ← get
  let strategySetting ←
    liftM (s.strategySetting.set strategyName (strategyConfig (s.objects p) setting))
  modify (·.saveSetting strategySetting)

def removeStrategySetting (s : CtaEngine) (strategyName : AString) : CtaEngine :=
  if s.strategySetting.contains strategyName then
    s.saveSetting (s.strategySetting.erase strategyName)
  else s

/-- A new strategy object, under its name and its symbol. -/
def register (s : CtaEngine) (className strategyName ktSymbol : AString) : CtaEngine :=
  { s with
    objects := Function.update s.objects s.nextPtr { className, strategyName, ktSymbol }
    nextPtr := s.nextPtr + 1
    strategies := s.strategies.insert strategyName s.nextPtr
    symbolStrategyMap :=
      s.symbolStrategyMap.insert ktSymbol (s.symbolStrategyMap.getD ktSymbol [] ++ [s.nextPtr]) }

def addStrategy (className strategyName ktSymbol : AString) (setting : Json.Value) :
    Handler Json.Error CtaEngine Unit := do
  let s ← get
  if s.strategies.contains strategyName then
    modify (·.writeLog
      ("Failed to create policy, duplicate name " ++ strategyName ++ " exists") none)
  else if s.classes.contains className = false then
    modify (·.writeLog
      ("Failed to create policy, policy class " ++ className ++ " not found") none)
  else if '.' ∉ ktSymbol.toList then
    modify (·.writeLog "Failed to create strategy, local code is missing exchange suffix" none)
  else
    modify (·.register className strategyName ktSymbol)
    updateStrategySetting strategyName s.nextPtr setting
    modify (·.putStrategyEvent s.nextPtr)

/-- A subscript of a strategy's configuration, which may make the member that it asks for. -/
def configMember (position : ℕ) (config : Json.Value) (key : AString) :
    Handler Json.Error CtaEngine (Json.Value × Json.Value) := do
  let (config, m) ← liftM (config.subscript key)
  modify fun s => { s with strategySetting := s.strategySetting.setAt position config }
  pure (config, m)

/-- The loop of `load_strategy_setting`. The arguments are read in the order of the text. -/
def loadStrategies : ℕ → List (AString × Json.Value) → Handler Json.Error CtaEngine Unit
  | _, [] => pure ()
  | position, (strategyName, config) :: rest => do
    let (config, className) ← configMember position config "class_name"
    let className ← liftM className.string?
    let (config, ktSymbol) ← configMember position config "kt_symbol"
    let ktSymbol ← liftM ktSymbol.string?
    let (_, setting) ← configMember position config "setting"
    addStrategy className strategyName ktSymbol setting
    loadStrategies (position + 1) rest

/-- `file` is what the setting file holds: an empty object if it is missing, null if it is empty. -/
def loadStrategySetting (file : Json.Value) : Handler Json.Error CtaEngine Unit := do
  modify ({ · with strategySetting := file, settingFile := file })
  loadStrategies 0 (file.keys.zip file.items)

/-- The file with the strategy's variables restores nothing: the assignment is commented out. -/
def initStrategy (s : CtaEngine) (strategyName : AString) : CtaEngine :=
  s.withStrategy strategyName fun p =>
    if (s.objects p).inited then
      s.writeLog (strategyName ++
        " initialization has been completed. Repeated operation is prohibited.") none
    else
      let s := s.writeLog (strategyName ++ " starts initialization") none
      let s := call env p .onInit s
      let s :=
        match s.oms.getContract (s.objects p).ktSymbol with
        | some contract =>
          s.emit (.subscribe { symbol := contract.symbol, exchange := contract.exchange }
            contract.exchangeName)
        | none => s.writeLog ("Market subscription failed, contract " ++
            (s.objects p).ktSymbol ++ " not found") none
      let s := s.updateObject p ({ · with inited := true })
      (s.putStrategyEvent p).writeLog (strategyName ++ " Initialization completed") none

def startStrategy (s : CtaEngine) (strategyName : AString) : CtaEngine :=
  s.withStrategy strategyName fun p =>
    if (s.objects p).inited = false then
      s.writeLog ("Strategy " ++ (s.objects p).strategyName ++
        " failed to start, please initialize first") none
    else if (s.objects p).trading then
      s.writeLog (strategyName ++
        " has been started, please do not repeat the operation") none
    else
      let s := call env p .onStart s
      (s.updateObject p ({ · with trading := true })).putStrategyEvent p

def stopStrategy (s : CtaEngine) (strategyName : AString) : CtaEngine :=
  s.withStrategy strategyName fun p =>
    if (s.objects p).trading then
      let s := call env p .onStop s
      let s := s.updateObject p ({ · with trading := false })
      (cancelAll (call env) s p).putStrategyEvent p
    else s

def editStrategy (s : CtaEngine) (strategyName : AString) (setting : Json.Value) : CtaEngine :=
  s.withStrategy strategyName fun p =>
    Handler.state (do
      updateStrategySetting strategyName p setting
      modify (·.putStrategyEvent p)) s

/-- The orders that the strategy still has active are taken out of `orderid_strategy_map`. -/
def removeStrategy (s : CtaEngine) (strategyName : AString) : CtaEngine :=
  s.withStrategy strategyName fun p =>
    if (s.objects p).trading then
      s.writeLog ("strategy " ++ (s.objects p).strategyName ++
        " removal failed, please stop first") none
    else
      let ktSymbol := (s.objects p).ktSymbol
      let s := s.removeStrategySetting strategyName
      { s with
        symbolStrategyMap := s.symbolStrategyMap.insert ktSymbol
          ((s.symbolStrategyMap.getD ktSymbol []).filter (· ≠ p))
        orderidStrategyMap :=
          (s.orderids strategyName).toList.foldl (fun m id => m.erase id) s.orderidStrategyMap
        strategyOrderidMap := s.strategyOrderidMap.erase strategyName
        strategies := s.strategies.erase strategyName }

/-- What happens to the engine. Events reach the order management engine first. -/
inductive Op where
  | contract (contract : ContractData)
  | position (position : PositionData)
  | order (order : OrderData)
  | trade (trade : TradeData)
  | tick (tick : TickData)
  | addStrategy (className strategyName ktSymbol : AString) (setting : Json.Value)
  | initStrategy (strategyName : AString)
  | startStrategy (strategyName : AString)
  | stopStrategy (strategyName : AString)
  | editStrategy (strategyName : AString) (setting : Json.Value)
  | removeStrategy (strategyName : AString)

def processOms (s : CtaEngine) (e : OmsEvent) : CtaEngine :=
  { s with oms := s.oms.process env.enum e }

def step (s : CtaEngine) : Op → CtaEngine
  | .contract c => s.processOms env (.contract c)
  | .position p => s.processOms env (.position p)
  | .order o => (s.processOms env (.order o)).processOrderEvent env o
  | .trade t => (s.processOms env (.trade t)).processTradeEvent env t
  | .tick t => (s.processOms env (.tick t)).processTickEvent env t
  | .addStrategy className strategyName ktSymbol setting =>
    (addStrategy className strategyName ktSymbol setting).state s
  | .initStrategy strategyName => s.initStrategy env strategyName
  | .startStrategy strategyName => s.startStrategy env strategyName
  | .stopStrategy strategyName => s.stopStrategy env strategyName
  | .editStrategy strategyName setting => s.editStrategy strategyName setting
  | .removeStrategy strategyName => s.removeStrategy strategyName

/-- A run of an engine that has loaded its strategy classes. -/
def run (classes : ExtTreeSet AString) (ops : List Op) : CtaEngine :=
  ops.foldl (step env) { classes }

end Events

/-! ## Adding and editing -/

section Settings
variable (s : CtaEngine) (className strategyName ktSymbol : AString) (setting : Json.Value)

/-- The calls of `add_strategy` that do nothing but log. -/
def AddRefused : Prop :=
  s.strategies.contains strategyName = true ∨ s.classes.contains className = false ∨
    '.' ∉ ktSymbol.toList

/-- A setting is saved and the strategy's event put, or nothing happens. -/
theorem saveSetting_cases (p : Ptr) :
    (∃ strategySetting,
      s.strategySetting.set strategyName (strategyConfig (s.objects p) setting) =
        .ok strategySetting ∧
      Handler.state (do updateStrategySetting strategyName p setting; modify (·.putStrategyEvent p))
        s = (s.saveSetting strategySetting).putStrategyEvent p) ∨
    ∃ e, s.strategySetting.set strategyName (strategyConfig (s.objects p) setting) = .error e ∧
      Handler.state (do updateStrategySetting strategyName p setting; modify (·.putStrategyEvent p))
        s = s := by
  unfold Handler.state updateStrategySetting
  cases saved : s.strategySetting.set strategyName (strategyConfig (s.objects p) setting) with
  | ok v => exact .inl ⟨v, rfl, by simp [saved]⟩
  | error e => exact .inr ⟨e, rfl, by simp [saved]⟩

theorem addStrategy_cases :
    (s.AddRefused className strategyName ktSymbol ∧
      ∃ msg, (addStrategy className strategyName ktSymbol setting).state s = s.writeLog msg none) ∨
    (¬s.AddRefused className strategyName ktSymbol ∧
      (addStrategy className strategyName ktSymbol setting).state s =
        Handler.state (do
          updateStrategySetting strategyName s.nextPtr setting
          modify (·.putStrategyEvent s.nextPtr))
          (s.register className strategyName ktSymbol)) := by
  unfold Handler.state addStrategy AddRefused
  rw [exec_get_bind]
  split
  · rename_i used
    exact .inl ⟨.inl used, _, rfl⟩
  split
  · rename_i unknown
    exact .inl ⟨.inr (.inl unknown), _, rfl⟩
  split
  · rename_i bare
    exact .inl ⟨.inr (.inr bare), _, rfl⟩
  · rename_i unused known dotted
    exact .inr ⟨by simp_all, by rw [exec_modify_bind]⟩

theorem removeStrategySetting_eq :
    s.removeStrategySetting strategyName = { s with
      strategySetting := s.strategySetting.erase strategyName
      settingFile := (s.removeStrategySetting strategyName).settingFile } := by
  by_cases there : s.strategySetting.contains strategyName = true
  · rw [removeStrategySetting, if_pos there]
    rfl
  · rw [removeStrategySetting, if_neg there,
      Json.Value.erase_of_not_contains (by simpa using there)]

end Settings

end CtaEngine

end KeenTrader.App
