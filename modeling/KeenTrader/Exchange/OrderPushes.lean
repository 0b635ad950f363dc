import KeenTrader.Exchange.OkxChannel
import KeenTrader.Exchange.Reports

/-!
# Order and position pushes of OKX

What `on_order` and `on_position` report of a push, element by element. The loop over orders ends
at the first element whose `fillSz` is the text `0`, and both loops read the contract of each
element whether there is one or not. What the loops do is computed from the table of contracts
alone, and the results about pushes are about that.
-/

namespace KeenTrader.Exchange.OkxExchange

open KeenTrader.Engine Handlers Runs Okx

/-- The members of a pushed order that are read. -/
def orderKeys : List AString :=
  ["instId", "clOrdId", "ordId", "ordType", "side", "px", "sz", "accFillSz", "state", "cTime",
   "fillSz", "tradeId", "fillPx", "uTime"]

/-- An element of an `orders` push, whose members are all texts. -/
structure PushedOrder where
  data : Json.Value
  text : AString → AString
  texts : ∀ key ∈ orderKeys, data.get? key = some (.string (text key))

structure OrderPush where
  packet : Json.Value
  elements : List PushedOrder
  data : packet.get? "data" = some (.array (elements.map PushedOrder.data))

/-- An element of a `positions` push. A number is read from a text or from a number. -/
structure PushedPosition where
  data : Json.Value
  instId : AString
  number : AString → Json.Value
  text : data.get? "instId" = some (.string instId)
  numbers : ∀ key ∈ ["pos", "avgPx", "upl"], data.get? key = some (number key)

structure PositionPush where
  packet : Json.Value
  elements : List PushedPosition
  data : packet.get? "data" = some (.array (elements.map PushedPosition.data))

namespace PushedOrder

def instId (e : PushedOrder) : AString := e.text "instId"
def fillSz (e : PushedOrder) : AString := e.text "fillSz"

/-- The id that the client chose, or else the one of the exchange. -/
def orderid (e : PushedOrder) : AString :=
  if (e.text "clOrdId").isEmpty then e.text "ordId" else e.text "clOrdId"

/-- The order that an element tells of. -/
def order (e : PushedOrder) (contract : ContractData) : OrderData :=
  { symbol := contract.symbol, exchange := .okx, orderid := e.orderid
    type := ordertypeOkx2kt.at (e.text "ordType")
    direction := directionOkx2kt.at (e.text "side")
    price := atof (e.text "px"), volume := atof (e.text "sz"), traded := atof (e.text "accFillSz")
    status := statusOkx2kt.at (e.text "state"), datetime := atoll (e.text "cTime"), exchangeName }

/-- The trade that an element tells of. -/
def trade (e : PushedOrder) (contract : ContractData) : TradeData :=
  { symbol := contract.symbol, exchange := .okx, orderid := e.orderid
    tradeid := e.text "tradeId", direction := directionOkx2kt.at (e.text "side")
    price := atof (e.text "fillPx"), volume := atof e.fillSz, datetime := atoll (e.text "uTime")
    exchangeName }

end PushedOrder

/-- The position that an element tells of. -/
def PushedPosition.position (e : PushedPosition) (contract : ContractData) : PositionData :=
  { symbol := contract.symbol, exchange := .okx, direction := .net
    volume := jsonToFloat (e.number "pos"), price := jsonToFloat (e.number "avgPx")
    pnl := jsonToFloat (e.number "upl"), exchangeName }

/-! ## The table of contracts -/

/-- The contracts by name that a state knows, each of which it also knows by its symbol. -/
structure Knows (contractOf : AString → Option ContractData) (s : OkxExchange) : Prop where
  names : s.getContractByName = contractOf
  symbols : ∀ name contract, contractOf name = some contract →
    (s.getContractBySymbol contract.symbol).isSome

variable {contractOf : AString → Option ContractData} {s t u : OkxExchange}

theorem Knows.keep (knows : Knows contractOf s) (names : t.nameContractMap = s.nameContractMap)
    (symbols : t.symbolContractMap = s.symbolContractMap) : Knows contractOf t := by
  constructor
  · rw [← knows.names]
    funext name
    rw [getContractByName, names, getContractByName]
  · intro name contract found
    rw [getContractBySymbol, symbols]
    exact knows.symbols name contract found

/-- Every contract that is known by its name is known by its symbol. -/
def Contracts (s : OkxExchange) : Prop := Knows s.getContractByName s

theorem Contracts.keep (contracts : Contracts s) (names : t.nameContractMap = s.nameContractMap)
    (symbols : t.symbolContractMap = s.symbolContractMap) : Contracts t := by
  have same := Knows.keep contracts names symbols
  unfold Contracts
  rwa [same.names]

@[simp] theorem noteLocal_nameContractMap (s : OkxExchange) (id : Option AString) :
    (s.noteLocal id).nameContractMap = s.nameContractMap := by cases id <;> rfl

@[simp] theorem noteLocal_symbolContractMap (s : OkxExchange) (id : Option AString) :
    (s.noteLocal id).symbolContractMap = s.symbolContractMap := by cases id <;> rfl

theorem contracts_byHandlers : KeptByHandlers Contracts where
  emit := fun _ contracts => contracts.keep rfl rfl
  order := fun _ contracts => contracts.keep rfl rfl
  parse := fun data contracts => contracts.keep (by simp [emit]) (by simp [emit])
  forget := fun _ contracts => contracts.keep rfl rfl

theorem contracts_onContract (contracts : Contracts s) (contract : ContractData) :
    Contracts (s.onContract contract) := by
  refine ⟨rfl, fun name c found => ?_⟩
  simp only [onContract, getContractByName, getContractBySymbol, emit,
    Std.ExtTreeMap.getElem?_insert, Std.compare_eq_iff_eq] at found ⊢
  by_cases same : contract.symbol = c.symbol
  · simp [same]
  · have other : contract.name ≠ name := by
      intro eq
      rw [if_pos eq, Option.some.injEq] at found
      exact same (congrArg ContractData.symbol found)
    rw [if_neg other] at found
    rw [if_neg same]
    exact contracts.symbols name c found

theorem contracts_step (contracts : Contracts s) (l : Step) : Contracts (s.step l) := by
  cases l with
  | contract contract => exact contracts_onContract contracts contract
  | positionMode mode => exact contracts.keep rfl rfl
  | sendOrder req =>
    rcases s.sendOrder_cases req with ⟨orderCount, msg, -, eq⟩ | ⟨args, msg, msg', _, eq⟩
    · exact contracts.keep (by rw [step, eq]; rfl) (by rw [step, eq]; rfl)
    · exact contracts.keep (by rw [step, eq]; rfl) (by rw [step, eq]; rfl)
  | cancelOrder req =>
    simp only [step, cancelOrder]
    split <;> exact contracts.keep rfl rfl
  | text packet => exact contracts_byHandlers.onText packet contracts
  | queryOrder packet => exact contracts_byHandlers.queryOrder packet contracts

theorem contracts_run (connectTime : ℕ) (steps : List Step) :
    Contracts (run connectTime steps) := by
  refine foldl_invariant step (fun _ l contracts => contracts_step contracts l) ⟨rfl, ?_⟩
  intro name contract found
  simp [getContractByName] at found

/-! ## One element -/

theorem PushedOrder.exec_parseOrderid (e : PushedOrder) (s : OkxExchange) :
    (parseOrderid e.data).exec s = (.ok e.orderid, s.noteLocal (chosenId e.data)) := by
  have chosen := e.texts "clOrdId" (by decide)
  have own : e.data.stringOr "ordId" "" = .ok (e.text "ordId") :=
    Json.Value.stringOr_of_get? (e.texts "ordId" (by decide))
  unfold parseOrderid PushedOrder.orderid
  rw [exec_read_bind_ok (Json.Value.stringOr_of_get? chosen), chosenId_of_string chosen]
  split
  · rw [own]
    rfl
  · rfl

/-- What parsing an element leaves behind. -/
def PushedOrder.parsed (e : PushedOrder) (s : OkxExchange) : OkxExchange :=
  (s.emit (.parse e.data)).noteLocal (chosenId e.data)

theorem PushedOrder.exec_parseFields (e : PushedOrder) (contract : ContractData)
    (s : OkxExchange) :
    (parseFields e.data (some contract) e.orderid).exec s = (.ok (e.order contract), s) := by
  have texts := e.texts
  unfold parseFields deref
  rw [exec_bind_ok (exec_pure contract), exec_textAt_bind (texts "ordType" (by decide)),
    exec_textAt_bind (texts "side" (by decide)), exec_floatAt_bind (texts "px" (by decide)),
    exec_floatAt_bind (texts "sz" (by decide)), exec_floatAt_bind (texts "accFillSz" (by decide)),
    exec_textAt_bind (texts "state" (by decide)), exec_timeAt_bind (texts "cTime" (by decide))]
  rfl

theorem PushedOrder.exec_parseOrderData (e : PushedOrder) (s : OkxExchange) :
    (parseOrderData e.data).exec s =
      match s.getContractByName e.instId with
      | some contract => (.ok (e.order contract), e.parsed s)
      | none => (.error .emptyOptional, e.parsed s) := by
  unfold parseOrderData effect
  rw [exec_modify_bind, exec_get_bind, exec_textAt_bind (e.texts "instId" (by decide)),
    exec_bind_ok (e.exec_parseOrderid _)]
  change (parseFields e.data (s.getContractByName e.instId) _).exec _ = _
  cases s.getContractByName e.instId with
  | some contract => exact e.exec_parseFields contract _
  | none => rfl

/-! ## What a loop reports -/

/-- The trace grows by effects that put these events, among others that put none. -/
def Reported (s t : OkxExchange) (events : List OmsEvent) : Prop :=
  ∃ new, t.trace = s.trace ++ new ∧ new.filterMap Effect.event? = events

theorem Reported.refl (s : OkxExchange) : Reported s s [] := ⟨[], by simp, rfl⟩

theorem Reported.trans {events more : List OmsEvent} (first : Reported s t events)
    (rest : Reported t u more) : Reported s u (events ++ more) := by
  obtain ⟨new, trace, rfl⟩ := first
  obtain ⟨new', trace', rfl⟩ := rest
  exact ⟨new ++ new', by rw [trace', trace, List.append_assoc], List.filterMap_append⟩

theorem Reported.newEvents_eq {events : List OmsEvent} (reported : Reported s t events) :
    newEvents s.trace t.trace = events := by
  obtain ⟨new, trace, rfl⟩ := reported
  rw [newEvents, trace, List.drop_left]

theorem reported_parsed (e : PushedOrder) (s : OkxExchange) : Reported s (e.parsed s) [] :=
  ⟨[.parse e.data], by simp [PushedOrder.parsed], rfl⟩

theorem reported_onOrder (o : OrderData) (s : OkxExchange) : Reported s (s.onOrder o) [.order o] :=
  ⟨[.order o], rfl, rfl⟩

theorem reported_trade (trade : TradeData) (s : OkxExchange) :
    Reported s (s.emit (.trade trade)) [.trade trade] :=
  ⟨[.trade trade], rfl, rfl⟩

theorem reported_position (position : PositionData) (s : OkxExchange) :
    Reported s (s.emit (.position position)) [.position position] :=
  ⟨[.position position], rfl, rfl⟩

/-- What the loop of `on_order` returns or throws, and the events that it puts. -/
def orderOutcome (contractOf : AString → Option ContractData) :
    List PushedOrder → Except Fault Unit × List OmsEvent
  | [] => (.ok (), [])
  | e :: es =>
    match contractOf e.instId with
    | none => (.error .emptyOptional, [])
    | some contract =>
      if e.fillSz = "0" then (.ok (), [.order (e.order contract)])
      else
        let (result, events) := orderOutcome contractOf es
        (result, .order (e.order contract) :: .trade (e.trade contract) :: events)

/-- What the loop of `on_position` returns or throws, and the events that it puts. -/
def positionOutcome (contractOf : AString → Option ContractData) :
    List PushedPosition → Except Fault Unit × List OmsEvent
  | [] => (.ok (), [])
  | e :: es =>
    match contractOf e.instId with
    | none => (.error .emptyOptional, [])
    | some contract =>
      let (result, events) := positionOutcome contractOf es
      (result, .position (e.position contract) :: events)

theorem Knows.parsed (knows : Knows contractOf s) (e : PushedOrder) :
    Knows contractOf (e.parsed s) :=
  knows.keep (by simp [PushedOrder.parsed, emit]) (by simp [PushedOrder.parsed, emit])

theorem PushedOrder.exec_onOrders_unknown (e : PushedOrder) (ds : List Json.Value)
    (unknown : s.getContractByName e.instId = none) :
    (onOrders (e.data :: ds)).exec s = (.error .emptyOptional, e.parsed s) := by
  have parsed := e.exec_parseOrderData s
  rw [unknown] at parsed
  exact exec_bind_error parsed

theorem PushedOrder.exec_onOrders_known (e : PushedOrder) {contract : ContractData}
    (ds : List Json.Value) (found : s.getContractByName e.instId = some contract)
    (symbol : (s.getContractBySymbol contract.symbol).isSome) :
    (onOrders (e.data :: ds)).exec s =
      let t := (e.parsed s).onOrder (e.order contract)
      if e.fillSz = "0" then (.ok (), t)
      else (onOrders ds).exec (t.emit (.trade (e.trade contract))) := by
  have parsed := e.exec_parseOrderData s
  rw [found] at parsed
  have texts := e.texts
  have fillSz : e.data.get? "fillSz" = some (.string e.fillSz) := texts "fillSz" (by decide)
  have reads : (Json.Value.string e.fillSz).isString "0" = true ↔ e.fillSz = "0" := beq_iff_eq
  rw [onOrders, exec_bind_ok parsed, OkxExchange.order, exec_modify_bind,
    exec_read_bind_ok (Json.Value.get_of_get? fillSz)]
  by_cases none : e.fillSz = "0"
  · rw [if_pos none, if_pos (reads.mpr none)]
    rfl
  · obtain ⟨c, known⟩ := Option.isSome_iff_exists.mp symbol
    have same : ((e.parsed s).onOrder (e.order contract)).getContractBySymbol contract.symbol =
        some c := by
      rw [← known]
      simp [getContractBySymbol, PushedOrder.parsed, onOrder, emit]
    have volume : ∀ q, (tradeVolume q (some c)) = pure q := fun q => rfl
    rw [if_neg none, if_neg (mt reads.mp none), exec_floatAt_bind fillSz,
      exec_get_bind]
    change (tradeVolume _ (getContractBySymbol _ contract.symbol) >>= _).exec _ = _
    rw [same, volume, exec_bind_ok (exec_pure _), exec_textAt_bind (texts "tradeId" (by decide)),
      exec_floatAt_bind (texts "fillPx" (by decide)), exec_timeAt_bind (texts "uTime" (by decide)),
      effect, exec_modify_bind]
    rfl

/-- The loop of `on_order`: its outcome is a matter of the table of contracts. -/
theorem exec_onOrders (knows : Knows contractOf s) (es : List PushedOrder) :
    ∃ t, (onOrders (es.map PushedOrder.data)).exec s = ((orderOutcome contractOf es).1, t) ∧
      Reported s t (orderOutcome contractOf es).2 := by
  induction es generalizing s with
  | nil => exact ⟨s, rfl, .refl s⟩
  | cons e es ih =>
    rw [List.map_cons, orderOutcome]
    cases found : contractOf e.instId with
    | none =>
      rw [e.exec_onOrders_unknown _ (by rw [knows.names, found])]
      exact ⟨_, rfl, reported_parsed e s⟩
    | some contract =>
      have told : Reported s ((e.parsed s).onOrder (e.order contract))
          [.order (e.order contract)] := (reported_parsed e s).trans (reported_onOrder _ _)
      rw [e.exec_onOrders_known _ (by rw [knows.names, found]) (knows.symbols _ _ found)]
      by_cases none : e.fillSz = "0"
      · simp only [if_pos none]
        exact ⟨_, rfl, told⟩
      · simp only [if_neg none]
        obtain ⟨t, exec, rest⟩ := ih ((knows.parsed e).keep (t := ((e.parsed s).onOrder
          (e.order contract)).emit (.trade (e.trade contract))) rfl rfl)
        exact ⟨t, exec, (told.trans (reported_trade _ _)).trans rest⟩

theorem PushedPosition.exec_onPositions (e : PushedPosition) (ds : List Json.Value)
    (s : OkxExchange) :
    (onPositions (e.data :: ds)).exec s =
      match s.getContractByName e.instId with
      | some contract => (onPositions ds).exec (s.emit (.position (e.position contract)))
      | none => (.error .emptyOptional, s) := by
  have numbers := e.numbers
  rw [onPositions, exec_get_bind, exec_textAt_bind e.text,
    exec_floatAt_bind (numbers "pos" (by decide)), exec_floatAt_bind (numbers "avgPx" (by decide)),
    exec_floatAt_bind (numbers "upl" (by decide))]
  cases s.getContractByName e.instId with
  | some contract => exact (exec_bind_ok (exec_pure contract)).trans exec_modify_bind
  | none => rfl

/-- The loop of `on_position`. -/
theorem exec_onPositions (knows : Knows contractOf s) (es : List PushedPosition) :
    ∃ t, (onPositions (es.map PushedPosition.data)).exec s =
        ((positionOutcome contractOf es).1, t) ∧
      Reported s t (positionOutcome contractOf es).2 := by
  induction es generalizing s with
  | nil => exact ⟨s, rfl, .refl s⟩
  | cons e es ih =>
    rw [List.map_cons, e.exec_onPositions, knows.names, positionOutcome]
    cases found : contractOf e.instId with
    | none => exact ⟨s, rfl, .refl s⟩
    | some contract =>
      obtain ⟨t, exec, rest⟩ :=
        ih (knows.keep (t := s.emit (.position (e.position contract))) rfl rfl)
      exact ⟨t, exec, (reported_position _ _).trans rest⟩

/-! ## Orders of known instruments -/

/-- The events of an element: its order, and its trade where it counts as filled. An element of an
unknown instrument has none. -/
def orderReports (contractOf : AString → Option ContractData) (filled : PushedOrder → Prop)
    [DecidablePred filled] (e : PushedOrder) : List OmsEvent :=
  match contractOf e.instId with
  | some contract =>
    .order (e.order contract) :: if filled e then [.trade (e.trade contract)] else []
  | none => []

/-- A push puts the order of each element, in their order, and the trade of each one whose `fillSz`
is not zero. -/
def ReportsEach (s : OkxExchange) (push : OrderPush) : Prop :=
  newEvents s.trace ((onOrderPush push.packet).state s).trace =
    push.elements.flatMap (orderReports s.getContractByName (atof ·.fillSz ≠ 0))

variable (contractOf) in
/-- The first of the elements of known instruments is reported with its order first. -/
theorem flatMap_orderReports (filled : PushedOrder → Prop) [DecidablePred filled]
    {es : List PushedOrder} (known : ∀ e ∈ es, (contractOf e.instId).isSome) :
    es = [] ∨ ∃ order events,
      es.flatMap (orderReports contractOf filled) = .order order :: events := by
  cases es with
  | nil => exact .inl rfl
  | cons e es =>
    obtain ⟨contract, found⟩ := Option.isSome_iff_exists.mp (known e (by simp))
    exact .inr ⟨_, _, by rw [List.flatMap_cons, orderReports, found]; rfl⟩

theorem forall_dropLast_cons {α : Type*} {p : α → Prop} {x : α} {xs : List α} :
    (∀ y ∈ (x :: xs).dropLast, p y) ↔ (xs ≠ [] → p x) ∧ ∀ y ∈ xs.dropLast, p y := by
  cases xs <;> simp

theorem atof_zero : atof "0" = 0 := by decide +kernel

theorem orderOutcome_each_iff {es : List PushedOrder}
    (known : ∀ e ∈ es, (contractOf e.instId).isSome) :
    (orderOutcome contractOf es).2 = es.flatMap (orderReports contractOf (atof ·.fillSz ≠ 0)) ↔
      (∀ e ∈ es.dropLast, e.fillSz ≠ "0") ∧ ∀ e ∈ es, atof e.fillSz = 0 → e.fillSz = "0" := by
  induction es with
  | nil => simp [orderOutcome]
  | cons e es ih =>
    obtain ⟨here, rest⟩ := List.forall_mem_cons.mp known
    obtain ⟨contract, found⟩ := Option.isSome_iff_exists.mp here
    specialize ih rest
    rw [forall_dropLast_cons, List.forall_mem_cons, orderOutcome, List.flatMap_cons, orderReports,
      found]
    have others := flatMap_orderReports contractOf (atof ·.fillSz ≠ 0) rest
    by_cases none : e.fillSz = "0"
    · -- the loop ends here, so that nothing else may follow
      rcases others with rfl | ⟨order, events, first⟩
      · simp [none, atof_zero]
      · have some : es ≠ [] := by rintro rfl; simp at first
        simp [none, atof_zero, first, some]
    · by_cases zero : atof e.fillSz = 0
      · -- a trade is reported that is none
        rcases others with rfl | ⟨order, events, first⟩
        · simp [none, zero]
        · simp [none, zero, first]
      · simpa [none, zero] using ih

theorem exec_onOrderPush (contracts : Contracts s) (push : OrderPush) :
    ∃ t, (onOrderPush push.packet).exec s =
        ((orderOutcome s.getContractByName push.elements).1, t) ∧
      Reported s t (orderOutcome s.getContractByName push.elements).2 := by
  rw [onOrderPush, exec_read_bind_ok (Json.Value.get_of_get? push.data)]
  exact exec_onOrders contracts push.elements

theorem reportsEach_iff (contracts : Contracts s) {push : OrderPush}
    (known : ∀ e ∈ push.elements, (s.getContractByName e.instId).isSome) :
    ReportsEach s push ↔
      (∀ e ∈ push.elements.dropLast, e.fillSz ≠ "0") ∧
        ∀ e ∈ push.elements, atof e.fillSz = 0 → e.fillSz = "0" := by
  obtain ⟨t, exec, reported⟩ := exec_onOrderPush contracts push
  rw [ReportsEach, Handler.state, exec, reported.newEvents_eq]
  exact orderOutcome_each_iff known

/-- Elements of known instruments are reported one by one exactly if none of them but the last has
the `fillSz` 0, and zero is always written so. -/
theorem reports_each_iff (connectTime : ℕ) (steps : List Step) (push : OrderPush)
    (known : ∀ e ∈ push.elements, ((run connectTime steps).getContractByName e.instId).isSome) :
    ReportsEach (run connectTime steps) push ↔
      (∀ e ∈ push.elements.dropLast, e.fillSz ≠ "0") ∧
        ∀ e ∈ push.elements, atof e.fillSz = 0 → e.fillSz = "0" :=
  reportsEach_iff (contracts_run connectTime steps) known

section Mixed

theorem lookup_map {α : Type} (f : AString → α) {keys : List AString} {key : AString}
    (mem : key ∈ keys) : (keys.map fun k => (k, f k)).lookup key = some (f key) := by
  induction keys with
  | nil => simp at mem
  | cons k keys ih => rw [List.map_cons, List.lookup_cons]; grind

/-- The element with these texts. -/
def PushedOrder.of (text : AString → AString) : PushedOrder where
  data := .object (orderKeys.map fun key => (key, .string (text key)))
  text
  texts := fun _ mem => lookup_map _ mem

def OrderPush.of (elements : List PushedOrder) : OrderPush where
  packet := .object [("data", .array (elements.map PushedOrder.data))]
  elements
  data := rfl

/-- An order for `instId`, as it is told of after a fill. -/
def filledBy (instId fillSz : AString) : PushedOrder :=
  .of fun key => ([("instId", instId), ("fillSz", fillSz), ("ordId", "7"), ("ordType", "limit"),
    ("side", "buy"), ("px", "15"), ("sz", "2"), ("accFillSz", fillSz), ("state", "live"),
    ("cTime", "1"), ("tradeId", "3"), ("fillPx", "15"), ("uTime", "2")].lookup key).getD ""

theorem known_btcUsdt :
    ((run 7 [.contract btcUsdt]).getContractByName "BTC-USDT").isSome = true := by decide +kernel

/-- Two fills and, last, an order without one: each is reported, and the fills with their trades. -/
theorem reports_each_fills :
    ReportsEach (run 7 [.contract btcUsdt])
      (.of [filledBy "BTC-USDT" "1", filledBy "BTC-USDT" "2", filledBy "BTC-USDT" "0"]) := by
  set elements := [filledBy "BTC-USDT" "1", filledBy "BTC-USDT" "2", filledBy "BTC-USDT" "0"]
  have each {P : PushedOrder → Prop} (one : P (filledBy "BTC-USDT" "1"))
      (two : P (filledBy "BTC-USDT" "2")) (zero : P (filledBy "BTC-USDT" "0")) :
      ∀ e ∈ elements, P e :=
    List.forall_mem_cons.mpr
      ⟨one, List.forall_mem_cons.mpr ⟨two, List.forall_mem_singleton.mpr zero⟩⟩
  refine (reports_each_iff 7 [.contract btcUsdt] (.of elements) ?_).mpr ⟨?_, ?_⟩
  · exact each known_btcUsdt known_btcUsdt known_btcUsdt
  · exact List.forall_mem_cons.mpr ⟨by decide, List.forall_mem_singleton.mpr (by decide)⟩
  · refine each (fun zero => ?_) (fun zero => ?_) fun _ => rfl
    · exact absurd zero (by decide +kernel)
    · exact absurd zero (by decide +kernel)

/-- What comes behind an order without a fill is dropped. -/
theorem fill_dropped :
    ¬ ∀ (connectTime : ℕ) (steps : List Step) (push : OrderPush),
      (∀ e ∈ push.elements, ((run connectTime steps).getContractByName e.instId).isSome) →
      ReportsEach (run connectTime steps) push := by
  intro all
  have known : ∀ e ∈ [filledBy "BTC-USDT" "0", filledBy "BTC-USDT" "1"],
      ((run 7 [.contract btcUsdt]).getContractByName e.instId).isSome := by
    simpa [filledBy, PushedOrder.of, PushedOrder.instId] using known_btcUsdt
  have reported := all 7 [.contract btcUsdt]
    (.of [filledBy "BTC-USDT" "0", filledBy "BTC-USDT" "1"]) known
  have filled := ((reportsEach_iff (contracts_run 7 _) known).mp reported).1
  exact filled (filledBy "BTC-USDT" "0") (by simp [OrderPush.of]) rfl

end Mixed

/-! ## Elements of unknown instruments -/

/-- The events of an element of a `positions` push. -/
def positionReports (contractOf : AString → Option ContractData) (e : PushedPosition) :
    List OmsEvent :=
  match contractOf e.instId with
  | some contract => [.position (e.position contract)]
  | none => []

/-- An `orders` push reads no absent contract, and where it has elements of unknown instruments,
the others are reported. -/
def OrdersSafe (s : OkxExchange) (push : OrderPush) : Prop :=
  ((onOrderPush push.packet).exec s).1 ≠ .error .emptyOptional ∧
    ((∃ e ∈ push.elements, s.getContractByName e.instId = none) →
      newEvents s.trace ((onOrderPush push.packet).state s).trace =
        push.elements.flatMap (orderReports s.getContractByName (·.fillSz ≠ "0")))

/-- The same for a `positions` push. -/
def PositionsSafe (s : OkxExchange) (push : PositionPush) : Prop :=
  ((onPosition push.packet).exec s).1 ≠ .error .emptyOptional ∧
    ((∃ e ∈ push.elements, s.getContractByName e.instId = none) →
      newEvents s.trace ((onPosition push.packet).state s).trace =
        push.elements.flatMap (positionReports s.getContractByName))

/-- The loop goes on behind the element. -/
def goesOn (contractOf : AString → Option ContractData) (e : PushedOrder) : Bool :=
  (contractOf e.instId).isSome && e.fillSz ≠ "0"

/-- The loop ends at an element of a known instrument, and the elements behind that one are all of
known instruments or all of unknown ones; or it does not end early. -/
def EndsInTime (contractOf : AString → Option ContractData) (es : List PushedOrder) : Prop :=
  ∀ e rest, es.dropWhile (goesOn contractOf) = e :: rest →
    (contractOf e.instId).isSome ∧
      ((∀ r ∈ rest, (contractOf r.instId).isSome) ∨ ∀ r ∈ rest, contractOf r.instId = none)

@[simp] theorem orderReports_eq_nil {filled : PushedOrder → Prop} [DecidablePred filled]
    {e : PushedOrder} : orderReports contractOf filled e = [] ↔ contractOf e.instId = none := by
  unfold orderReports
  split <;> simp_all

variable (contractOf) in
/-- Where elements of unknown instruments silence the others, there are no others. -/
theorem all_or_none (es : List PushedOrder) :
    ((∃ e ∈ es, contractOf e.instId = none) → ∀ e ∈ es, contractOf e.instId = none) ↔
      (∀ e ∈ es, (contractOf e.instId).isSome) ∨ ∀ e ∈ es, contractOf e.instId = none := by
  by_cases unknown : ∃ e ∈ es, contractOf e.instId = none
  · obtain ⟨u, mem, none⟩ := unknown
    have some : ¬∀ e ∈ es, (contractOf e.instId).isSome := fun all => by
      simpa [none] using all u mem
    rw [or_iff_right some]
    exact forall_prop_of_true ⟨u, mem, none⟩
  · have all : ∀ e ∈ es, (contractOf e.instId).isSome := fun e mem =>
      Option.isSome_iff_ne_none.mpr fun none => unknown ⟨e, mem, none⟩
    exact iff_of_true (fun some => absurd some unknown) (.inl all)

theorem orderOutcome_safe_iff (es : List PushedOrder) :
    ((orderOutcome contractOf es).1 ≠ .error .emptyOptional ∧
      ((∃ e ∈ es, contractOf e.instId = none) →
        (orderOutcome contractOf es).2 =
          es.flatMap (orderReports contractOf (·.fillSz ≠ "0")))) ↔ EndsInTime contractOf es := by
  induction es with
  | nil => simp [orderOutcome, EndsInTime]
  | cons e es ih =>
    unfold EndsInTime
    rw [orderOutcome, List.dropWhile_cons, List.flatMap_cons, orderReports]
    cases found : contractOf e.instId with
    | none => simp [goesOn, found]
    | some contract =>
      by_cases none : e.fillSz = "0"
      · -- the elements behind this one are not looked at
        have rest := all_or_none contractOf es
        simpa [goesOn, found, none] using rest
      · simpa [goesOn, found, none, EndsInTime] using ih

theorem positionOutcome_safe_iff (es : List PushedPosition) :
    ((positionOutcome contractOf es).1 ≠ .error .emptyOptional ∧
      ((∃ e ∈ es, contractOf e.instId = none) →
        (positionOutcome contractOf es).2 = es.flatMap (positionReports contractOf))) ↔
      ∀ e ∈ es, (contractOf e.instId).isSome := by
  induction es with
  | nil => simp [positionOutcome]
  | cons e es ih =>
    rw [positionOutcome, List.flatMap_cons, positionReports]
    cases found : contractOf e.instId with
    | none => simp [found]
    | some contract => simpa [found] using ih

theorem ordersSafe_iff (contracts : Contracts s) (push : OrderPush) :
    OrdersSafe s push ↔ EndsInTime s.getContractByName push.elements := by
  obtain ⟨t, exec, reported⟩ := exec_onOrderPush contracts push
  rw [OrdersSafe, Handler.state, exec, reported.newEvents_eq]
  exact orderOutcome_safe_iff push.elements

theorem positionsSafe_iff (contracts : Contracts s) (push : PositionPush) :
    PositionsSafe s push ↔ ∀ e ∈ push.elements, (s.getContractByName e.instId).isSome := by
  obtain ⟨t, exec, reported⟩ : ∃ t, (onPosition push.packet).exec s =
        ((positionOutcome s.getContractByName push.elements).1, t) ∧
      Reported s t (positionOutcome s.getContractByName push.elements).2 := by
    rw [onPosition, exec_read_bind_ok (Json.Value.get_of_get? push.data)]
    exact exec_onPositions contracts push.elements
  rw [PositionsSafe, Handler.state, exec, reported.newEvents_eq]
  exact positionOutcome_safe_iff push.elements

/-- Pushes are safe from unknown instruments exactly if they have none where it matters: among
positions nowhere, and among orders not before the loop ends at one without a fill, behind which
none of a known instrument follows one of an unknown. -/
theorem pushes_safe_iff (connectTime : ℕ) (steps : List Step) (orders : OrderPush)
    (positions : PositionPush) :
    (OrdersSafe (run connectTime steps) orders ↔
      EndsInTime (run connectTime steps).getContractByName orders.elements) ∧
    (PositionsSafe (run connectTime steps) positions ↔
      ∀ e ∈ positions.elements, ((run connectTime steps).getContractByName e.instId).isSome) :=
  ⟨ordersSafe_iff (contracts_run _ _) orders, positionsSafe_iff (contracts_run _ _) positions⟩

/-- An order for an option is pushed before one for a swap, where only the swap has been loaded. -/
theorem option_not_safe :
    ¬ ∀ (connectTime : ℕ) (steps : List Step) (orders : OrderPush) (positions : PositionPush),
      OrdersSafe (run connectTime steps) orders ∧
        PositionsSafe (run connectTime steps) positions := by
  intro all
  let option : PushedOrder := filledBy "BTC-USD-241227-50000-C" "1"
  let swap : PushedOrder := filledBy "BTC-USDT" "1"
  let positions : PositionPush := ⟨.object [("data", .array [])], [], rfl⟩
  have unknown : (run 7 [.contract btcUsdt]).getContractByName option.instId = none := by
    decide +kernel
  have safe := (ordersSafe_iff (contracts_run _ _) _).mp
    (all 7 [.contract btcUsdt] (.of [option, swap]) positions).1
  have known := (safe option [swap] (by simp [OrderPush.of, goesOn, unknown])).1
  rw [unknown] at known
  exact absurd known (by simp)

end KeenTrader.Exchange.OkxExchange
