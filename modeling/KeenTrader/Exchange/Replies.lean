import KeenTrader.Exchange.Binance

/-!
# Replies on Binance

The requests of a run, in the order in which they were made, are what the request numbers stand
for: number `n` belongs to the `n`-th request. The two maps of the trade channel follow this
list along every run, so that a reply reaches the request with the number that it is read with.
-/

namespace KeenTrader.Exchange.BinanceExchange

open Std (ExtTreeMap)
open KeenTrader.Engine Handlers Binance

variable {hmac : AString → AString → List UInt8} {s t : BinanceExchange}

/-! ## The requests of a run -/

inductive Request where
  | order (order : OrderData)
  | cancel (req : CancelRequest)
  deriving DecidableEq

namespace Request

def callback : Request → ReplyCallback
  | order _ => .onSendOrder
  | cancel _ => .onCancelOrder

/-- The order that the request sends, if it sends one. -/
def order? : Request → Option OrderData
  | order o => some o
  | cancel _ => none

end Request

/-- The request that a step makes. -/
def requested (s : BinanceExchange) : Step → Option Request
  | .sendOrder req moment =>
    (s.getContractBySymbol req.symbol).map fun _ =>
      .order (req.createOrderData (s.newOrderid moment) exchangeName)
  | .cancelOrder req _ => (s.getContractBySymbol req.symbol).map fun _ => .cancel req
  | .contract _ | .text _ => none

/-- The requests that a run makes, the first one first. -/
def requests (hmac : AString → AString → List UInt8) : BinanceExchange → List Step → List Request
  | _, [] => []
  | s, l :: ls => (requested s l).toList ++ requests hmac (s.step hmac l) ls

/-- Request number `n`, counted from one. -/
def nth (made : List Request) (n : ℤ) : Option Request :=
  if 0 < n then made[(n - 1).toNat]? else none

theorem nth_append_singleton (made : List Request) (r : Request) (n : ℤ) :
    nth (made ++ [r]) n = if (made.length : ℤ) + 1 = n then some r else nth made n := by
  unfold nth
  by_cases pos : 0 < n
  · rw [if_pos pos, if_pos pos]
    rcases lt_trichotomy (n - 1).toNat made.length with before | at_end | after
    · rw [List.getElem?_append_left before, if_neg (by omega)]
    · rw [at_end, List.getElem?_concat_length, if_pos (by omega)]
    · rw [List.getElem?_eq_none (by simp; omega), List.getElem?_eq_none (by omega),
        if_neg (by omega)]
  · rw [if_neg pos, if_neg pos, if_neg (by omega)]

/-- The counter and the two maps follow the list of requests. -/
structure Routes (s : BinanceExchange) (made : List Request) : Prop where
  reqid : s.reqid = made.length
  callbacks : ∀ n : ℤ, s.reqidCallbackMap[n]? = (nth made n).map Request.callback
  orders : ∀ n : ℤ, s.reqidOrderMap[n]? = (nth made n).bind Request.order?

variable {made : List Request}

/-- Changes of other fields. -/
theorem Routes.congr (routes : Routes s made) (reqid : t.reqid = s.reqid)
    (callbacks : t.reqidCallbackMap = s.reqidCallbackMap)
    (orders : t.reqidOrderMap = s.reqidOrderMap) : Routes t made where
  reqid := by rw [reqid, routes.reqid]
  callbacks := by rw [callbacks]; exact routes.callbacks
  orders := by rw [orders]; exact routes.orders

theorem Routes.order (routes : Routes s made) (o : OrderData) (reqid : t.reqid = s.reqid + 1)
    (callbacks : t.reqidCallbackMap = s.reqidCallbackMap.insert (s.reqid + 1) .onSendOrder)
    (orders : t.reqidOrderMap = s.reqidOrderMap.insert (s.reqid + 1) o) :
    Routes t (made ++ [.order o]) where
  reqid := by simp [reqid, routes.reqid]
  callbacks n := by
    rw [callbacks, ExtTreeMap.getElem?_insert, nth_append_singleton, routes.callbacks, routes.reqid]
    by_cases new : (made.length : ℤ) + 1 = n <;> simp [new, Request.callback]
  orders n := by
    rw [orders, ExtTreeMap.getElem?_insert, nth_append_singleton, routes.orders, routes.reqid]
    by_cases new : (made.length : ℤ) + 1 = n <;> simp [new, Request.order?]

theorem Routes.cancel (routes : Routes s made) (req : CancelRequest) (reqid : t.reqid = s.reqid + 1)
    (callbacks : t.reqidCallbackMap = s.reqidCallbackMap.insert (s.reqid + 1) .onCancelOrder)
    (orders : t.reqidOrderMap = s.reqidOrderMap) : Routes t (made ++ [.cancel req]) where
  reqid := by simp [reqid, routes.reqid]
  callbacks n := by
    rw [callbacks, ExtTreeMap.getElem?_insert, nth_append_singleton, routes.callbacks, routes.reqid]
    by_cases new : (made.length : ℤ) + 1 = n <;> simp [new, Request.callback]
  orders n := by
    rw [orders, nth_append_singleton, routes.orders]
    by_cases new : (made.length : ℤ) + 1 = n
    · have absent : nth made n = none := by
        unfold nth
        rw [if_pos (by omega), List.getElem?_eq_none (by omega)]
      simp [new, absent, Request.order?]
    · simp [new]

theorem Routes.emit (routes : Routes s made) (e : Effect) : Routes (s.emit e) made :=
  routes.congr rfl rfl rfl

theorem Routes.writeLog (routes : Routes s made) (msg : AString) : Routes (s.writeLog msg) made :=
  routes.emit _

theorem Routes.onOrder (routes : Routes s made) (o : OrderData) : Routes (s.onOrder o) made :=
  routes.congr rfl rfl rfl

/-! ## Messages keep the routes -/

theorem preserves_logError {P : BinanceExchange → Prop} (logs : ∀ s msg, P s → P (s.writeLog msg))
    (what : AString) (error : Json.Value) : Preserves P (logError what error) :=
  .bind (readOnly_read _ P) fun _ => .bind (readOnly_read _ P) fun _ => .modify fun s => logs s _

/-- What orders and effects keep, every message keeps. -/
theorem onText_keeps {P : BinanceExchange → Prop} (order : ∀ s o, P s → P (s.onOrder o))
    (emit : ∀ s e, P s → P (s.emit e)) (start : P s) (packet : Json.Value) :
    P (s.onText packet) := by
  have logged (what : AString) (error : Json.Value) : Preserves P (logError what error) :=
    preserves_logError (fun s _ => emit s _) what error
  refine onText_invariant ?_ (fun s _ => emit s _) start
  refine .bind (readOnly_read _ _) fun id => .bind .get fun s => ?_
  split
  · unfold onSendOrder
    split
    · exact .pure _
    refine (logged _ _).bind fun _ => .bind (readOnly_read _ _) fun id => .bind .get fun s => ?_
    split
    · exact .modify fun s => order s _
    · exact .pure _
  · unfold onCancelOrder
    split
    · exact .pure _
    · exact logged _ _
  · exact .pure _

theorem Routes.onText (routes : Routes s made) (packet : Json.Value) :
    Routes (s.onText packet) made :=
  onText_keeps (P := (Routes · made)) (fun _ o routes => routes.onOrder o)
    (fun _ e routes => routes.emit e) routes packet

theorem Routes.step (routes : Routes s made) (hmac : AString → AString → List UInt8) (l : Step) :
    Routes (s.step hmac l) (made ++ (requested s l).toList) := by
  cases l with
  | contract contract =>
    rw [requested, Option.toList_none, List.append_nil]
    exact routes.congr rfl rfl rfl
  | text packet =>
    rw [requested, Option.toList_none, List.append_nil]
    exact routes.onText packet
  | sendOrder req moment =>
    cases known : s.getContractBySymbol req.symbol with
    | none => simpa [requested, BinanceExchange.step, sendOrder, known] using routes.writeLog _
    | some contract =>
      simp only [requested, BinanceExchange.step, sendOrder, known, Option.map_some,
        Option.toList_some]
      exact routes.order _ rfl rfl rfl
  | cancelOrder req moment =>
    cases known : s.getContractBySymbol req.symbol with
    | none => simpa [requested, BinanceExchange.step, cancelOrder, known] using routes.writeLog _
    | some contract =>
      simp only [requested, BinanceExchange.step, cancelOrder, known, Option.map_some,
        Option.toList_some]
      exact routes.cancel req rfl rfl rfl

theorem Routes.foldl (routes : Routes s made) (hmac : AString → AString → List UInt8)
    (steps : List Step) :
    Routes (steps.foldl (BinanceExchange.step hmac) s) (made ++ requests hmac s steps) := by
  induction steps generalizing s made with
  | nil => simpa [requests] using routes
  | cons l ls ih =>
    rw [requests, ← List.append_assoc]
    exact ih (routes.step hmac l)

/-- In every run the request numbers stand for the requests of the run. -/
theorem routes_run (hmac : AString → AString → List UInt8) (key secret : AString)
    (hedgeMode : Bool) (steps : List Step) :
    Routes (run hmac key secret hedgeMode steps)
      (requests hmac (connected key secret hedgeMode) steps) := by
  have start : Routes (connected key secret hedgeMode) [] :=
    { reqid := rfl
      callbacks := fun n => by simp [connected, nth]
      orders := fun n => by simp [connected, nth] }
  simpa [run] using start.foldl hmac steps

/-! ## Replies -/

/-- The request that a packet answers: the one whose number the code reads as its id. -/
def answered (made : List Request) (packet : Json.Value) : Option Request :=
  match packetId packet with
  | .ok n => nth made n
  | .error _ => none

/-- The orders that `on_order` is called with on the way from `s` to `t`. -/
def told (s t : BinanceExchange) : List OrderData :=
  (t.trace.drop s.trace.length).filterMap Effect.order?

/-- An error as the exchange sends it: the code is a number and the message a text, where they
are there at all. -/
def Readable (error : Json.Value) : Prop :=
  ∃ code msg, error.valueOr (Json.Value.int? toInt) "code" 0 = .ok code ∧
    error.stringOr "msg" "" = .ok msg

/-- Nothing has happened to the orders on the way from `s` to `t`. -/
structure Silent (s t : BinanceExchange) : Prop where
  told : ∃ new, t.trace = s.trace ++ new ∧ new.filterMap Effect.order? = []
  orders : t.orders = s.orders

theorem told_of_append {new : List Effect} (eq : t.trace = s.trace ++ new) :
    told s t = new.filterMap Effect.order? := by
  rw [told, eq, List.drop_left]

theorem Silent.refl (s : BinanceExchange) : Silent s s := ⟨⟨[], by simp, rfl⟩, rfl⟩

theorem Silent.emit (silent : Silent s t) {e : Effect} (other : e.order? = none) :
    Silent s (t.emit e) := by
  obtain ⟨⟨new, eq, none⟩, orders⟩ := silent
  exact ⟨⟨new ++ [e], by simp [BinanceExchange.emit, eq], by simp [none, other]⟩, orders⟩

/-- A packet that answers no order, or has no error, does not touch the orders. -/
theorem silent_onText (routes : Routes s made) {packet : Json.Value}
    (quiet : ∀ o, answered made packet = some (.order o) → packet.get? "error" = none) :
    Silent s (s.onText packet) := by
  let P (t : BinanceExchange) : Prop := Routes t made ∧ Silent s t
  have logs (t : BinanceExchange) (msg : AString) (start : P t) : P (t.writeLog msg) :=
    ⟨start.1.writeLog msg, start.2.emit rfl⟩
  have handled : Preserves P (onPacket packet) := by
    refine preserves_read_bind fun n id => .get_bind fun t start => ?_
    rw [start.1.callbacks n]
    cases request : nth made n with
    | none => exact start
    | some r =>
      cases r with
      | order o =>
        have none : packet.get? "error" = none := quiet o (by simp [answered, id, request])
        change P ((onSendOrder packet).state t)
        unfold onSendOrder
        rw [none]
        exact start
      | cancel req =>
        change P ((onCancelOrder packet).state t)
        unfold onCancelOrder
        split
        · exact start
        · exact preserves_logError logs _ _ t start
  exact (onText_invariant handled (fun t fault start => ⟨start.1.emit _, start.2.emit rfl⟩)
    ⟨routes, .refl s⟩ : P (s.onText packet)).2

theorem logError_exec {error : Json.Value} {code : ℤ} {msg : AString}
    (code_ok : error.valueOr (Json.Value.int? toInt) "code" 0 = .ok code)
    (msg_ok : error.stringOr "msg" "" = .ok msg) (what : AString) (s : BinanceExchange) :
    (logError what error).exec s =
      (.ok ⟨⟩, s.writeLog (errorText what code msg)) := by
  unfold logError Exchange.read
  rw [code_ok, Fault.ofJson_ok, exec_lift_ok_bind, msg_ok, Fault.ofJson_ok, exec_lift_ok_bind,
    exec_modify]

/-- A packet with an error that answers an order rejects this order. -/
theorem onText_rejects (routes : Routes s made) {packet error : Json.Value} {o : OrderData}
    (answers : answered made packet = some (.order o)) (failed : packet.get? "error" = some error)
    (readable : Readable error) :
    ∃ msg, s.onText packet = (s.writeLog msg).onOrder (rejected o) := by
  obtain ⟨code, msg, code_ok, msg_ok⟩ := readable
  unfold answered at answers
  split at answers
  · rename_i n id
    have callback : s.reqidCallbackMap[n]? = some .onSendOrder := by
      simp [routes.callbacks n, answers, Request.callback]
    have order : s.reqidOrderMap[n]? = some o := by
      simp [routes.orders n, answers, Request.order?]
    have value : packet.isNull = false := Json.Value.isNull_of_get? failed
    refine ⟨errorText "Order" code msg, onText_ok value ?_⟩
    unfold onPacket Exchange.read
    rw [id, Fault.ofJson_ok, exec_lift_ok_bind, exec_get_bind, callback]
    dsimp only
    unfold onSendOrder Exchange.read
    rw [failed]
    dsimp only
    rw [exec_bind_ok (logError_exec code_ok msg_ok _ s), id, Fault.ofJson_ok, exec_lift_ok_bind,
      exec_get_bind]
    have kept : (s.writeLog (errorText "Order" code msg)).reqidOrderMap[n]? = some o := order
    rw [kept, exec_modify]
  · simp at answers

/-- How a packet is handled after the requests `made`: if it answers an order with an error,
`on_order` is called once, with the rejected order; otherwise it is not called at all. -/
structure RoutesReply (s : BinanceExchange) (made : List Request) (packet : Json.Value) : Prop where
  rejects : ∀ o error, answered made packet = some (.order o) →
    packet.get? "error" = some error → Readable error → told s (s.onText packet) = [rejected o]
  silent : (∀ o, answered made packet = some (.order o) → packet.get? "error" = none) →
    told s (s.onText packet) = [] ∧ (s.onText packet).orders = s.orders

section Replies
variable (hmac : AString → AString → List UInt8) (key secret : AString) (hedgeMode : Bool)
  (steps : List Step) (packet : Json.Value)

/-- In every run a reply with an error rejects the order that was sent under the number it is
read with, and any other reply leaves the orders alone. -/
theorem replies_routed :
    RoutesReply (run hmac key secret hedgeMode steps)
      (requests hmac (connected key secret hedgeMode) steps) packet where
  rejects o error answers failed readable := by
    have routes := routes_run hmac key secret hedgeMode steps
    obtain ⟨msg, eq⟩ := onText_rejects routes answers failed readable
    have trace : ((run hmac key secret hedgeMode steps).onText packet).trace =
        (run hmac key secret hedgeMode steps).trace ++
          [.log (logText exchangeName msg), .order (rejected o)] := by
      rw [eq]
      simp [onOrder, writeLog, emit]
    rw [told_of_append trace]
    rfl
  silent quiet := by
    have routes := routes_run hmac key secret hedgeMode steps
    obtain ⟨⟨new, eq, none⟩, orders⟩ := silent_onText routes quiet
    exact ⟨by rw [told_of_append eq, none], orders⟩

end Replies

section OneOrder

def btcUsdt : ContractData :=
  { symbol := "BTCUSDT", exchange := .binance, name := "BTCUSDT", product := .swap
    pricetick := 1 / 10, minVolume := 1 / 1000, exchangeName := "BINANCE" }

def buyBtc : OrderRequest :=
  { symbol := "BTCUSDT", exchange := .binance, direction := .long, type := .limit, volume := 1
    price := 50000 }

def sendsOne : List Step :=
  [.contract btcUsdt, .sendOrder buyBtc { digits := "250101093000", seconds := 1735723800 }]

def replyTo (id : ℤ) (error : Json.Value) : Json.Value :=
  .object [("error", error), ("id", .int id)]

def marginError : Json.Value :=
  .object [("code", .int (-2019)), ("msg", .string "Margin is insufficient.")]

theorem marginError_rejects :
    told (run (fun _ _ => []) "k" "s" false sendsOne)
        ((run (fun _ _ => []) "k" "s" false sendsOne).onText (replyTo 1 marginError)) =
      [rejected (buyBtc.createOrderData "2501010930001" "BINANCE")] := by
  refine (replies_routed (fun _ _ => []) "k" "s" false sendsOne (replyTo 1 marginError)).rejects _ _
    ?_ rfl ⟨-2019, "Margin is insufficient.", by decide +kernel, rfl⟩
  decide +kernel

/-- An id that no request has is read modulo `2 ^ 32` as that of an order, and an error that is a
text is not read at all. -/
theorem replies_misread :
    (¬ ∀ hmac key secret hedgeMode steps (packet : Json.Value) (n : ℤ),
      packet.get? "id" = some (.int n) →
      nth (requests hmac (connected key secret hedgeMode) steps) n = none →
      told (run hmac key secret hedgeMode steps)
        ((run hmac key secret hedgeMode steps).onText packet) = []) ∧
    ¬ ∀ hmac key secret hedgeMode steps (packet : Json.Value) (n : ℤ) (o : OrderData),
      packet.get? "id" = some (.int n) →
      nth (requests hmac (connected key secret hedgeMode) steps) n = some (.order o) →
      packet.contains "error" = true →
      told (run hmac key secret hedgeMode steps)
        ((run hmac key secret hedgeMode steps).onText packet) = [rejected o] := by
  constructor
  · intro all
    have silent := all (fun _ _ => []) "k" "s" false sendsOne (replyTo 4294967297 marginError)
      4294967297 rfl (by decide +kernel)
    exact absurd silent (by decide +kernel)
  · intro all
    have told := all (fun _ _ => []) "k" "s" false sendsOne (replyTo 1 (.string "rejected")) 1
      (buyBtc.createOrderData "2501010930001" "BINANCE") rfl (by decide +kernel) rfl
    exact absurd told (by decide +kernel)

end OneOrder

end KeenTrader.Exchange.BinanceExchange
