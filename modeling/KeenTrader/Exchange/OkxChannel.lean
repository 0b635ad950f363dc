import KeenTrader.Exchange.Okx

/-!
# What the OKX channel keeps

The handlers of the channel change the exchange in few ways: they put events, store orders,
parse order data, and forget requests. A property that each of these keeps is kept by every
message, and by every run in which placing an order keeps it too.
-/

namespace KeenTrader.Exchange.OkxExchange

open Std (ExtTreeMap ExtTreeSet)
open KeenTrader.Engine Handlers Okx

variable {P : OkxExchange → Prop} {s : OkxExchange}

@[simp] theorem emit_orders (s : OkxExchange) (e : Effect) : (s.emit e).orders = s.orders := rfl

@[simp] theorem emit_reqidOrderMap (s : OkxExchange) (e : Effect) :
    (s.emit e).reqidOrderMap = s.reqidOrderMap := rfl

@[simp] theorem emit_trace (s : OkxExchange) (e : Effect) : (s.emit e).trace = s.trace ++ [e] := rfl

/-! ## Order requests -/

/-- The effect is no call of `parse_order_data` and sends no order request. -/
def Quiet : Effect → Prop
  | .parse _ => False
  | .packet p => ∀ id args, p ≠ request id "order" args
  | _ => True

/-- The order request `id` for the order `orderid` has been sent. -/
def Sent (s : OkxExchange) (id orderid : AString) : Prop :=
  ∃ args, .packet (request id "order" args) ∈ s.trace ∧
    args.get? "clOrdId" = some (.string orderid)

theorem Quiet.ne_request {e : Effect} (quiet : Quiet e) (id : AString) (args : Json.Value) :
    e ≠ .packet (request id "order" args) := by
  rintro rfl
  exact quiet id args rfl

theorem request_inj {id id' op op' : AString} {args args' : Json.Value} :
    request id op args = request id' op' args' ↔ id = id' ∧ op = op' ∧ args = args' := by
  simp only [request, Json.Value.object.injEq, List.cons.injEq, Prod.mk.injEq,
    Json.Value.array.injEq, Json.Value.string.injEq]
  tauto

/-- `send_order` either logs why it sends nothing, or sends the request and stores the order. -/
theorem sendOrder_cases (s : OkxExchange) (req : OrderRequest) :
    (∃ orderCount msg, (orderCount = s.orderCount ∨ orderCount = s.orderCount + 1) ∧
      s.sendOrder req = ("", { s with orderCount }.writeLog msg)) ∨
    ∃ args msg msg', args.get? "clOrdId" = some (.string s.newOrderid) ∧
      s.sendOrder req = ((req.createOrderData s.newOrderid exchangeName).ktOrderid,
        ((({ s with orderCount := s.orderCount + 1, reqid := s.reqid + 1 }.writeLog msg).writeLog
          msg').emit (.packet (request (toString (s.reqid + 1)) "order" args))).onOrder
          (req.createOrderData s.newOrderid exchangeName)) := by
  unfold sendOrder
  split
  · exact .inl ⟨s.orderCount, _, .inl rfl, rfl⟩
  split
  · exact .inl ⟨s.orderCount, _, .inl rfl, rfl⟩
  split
  · exact .inl ⟨s.orderCount, _, .inl rfl, rfl⟩
  dsimp only
  split
  · exact .inl ⟨s.orderCount + 1, _, .inr rfl, rfl⟩
  · exact .inr ⟨_, _, _, by simp [Json.Value.get?], rfl⟩

/-- A key that `send_order` returns belongs to an order whose request has been sent. -/
theorem sent_of_sendOrder {req : OrderRequest} (key : (s.sendOrder req).1 ≠ "") :
    (s.sendOrder req).2.Sent (toString (s.reqid + 1)) s.newOrderid := by
  rcases s.sendOrder_cases req with ⟨orderCount, msg, -, eq⟩ | ⟨args, msg, msg', id_at, eq⟩
  · exact absurd (congrArg Prod.fst eq) key
  · rw [eq]
    exact ⟨args, by simp [onOrder], id_at⟩

/-! ## Parsing -/

/-- The id that the client chose for a pushed order. -/
def chosenId (data : Json.Value) : Option AString :=
  match data.get? "clOrdId" with
  | some (.string id) => if id.isEmpty then none else some id
  | _ => none

/-- The id that `parse_order_data` notes as local when it is given `data`. -/
def announced (data : Json.Value) : Option AString :=
  match data.get? "instId" with
  | some (.string _) => chosenId data
  | _ => none

def noteLocal (s : OkxExchange) : Option AString → OkxExchange
  | some id => { s with localOrderids := s.localOrderids.insert id }
  | none => s

@[simp] theorem noteLocal_orders (s : OkxExchange) (id : Option AString) :
    (s.noteLocal id).orders = s.orders := by cases id <;> rfl

@[simp] theorem noteLocal_reqidOrderMap (s : OkxExchange) (id : Option AString) :
    (s.noteLocal id).reqidOrderMap = s.reqidOrderMap := by cases id <;> rfl

@[simp] theorem noteLocal_trace (s : OkxExchange) (id : Option AString) :
    (s.noteLocal id).trace = s.trace := by cases id <;> rfl

section Reads

theorem readOnly_textAt (data : Json.Value) (key : AString) : ReadOnly (textAt data key) :=
  readOnly_read _

theorem readOnly_floatAt (data : Json.Value) (key : AString) : ReadOnly (floatAt data key) :=
  readOnly_read _

theorem readOnly_timeAt (data : Json.Value) (key : AString) : ReadOnly (timeAt data key) :=
  readOnly_read _

theorem readOnly_deref {α : Type} (a : Option α) : ReadOnly (deref a) := by
  cases a with
  | none => exact .throw _
  | some a => exact .pure a

theorem readOnly_parseFields (data : Json.Value) (contract : Option ContractData)
    (orderid : AString) : ReadOnly (parseFields data contract orderid) :=
  (readOnly_deref contract).bind fun _ => (readOnly_textAt data _).bind fun _ =>
  (readOnly_textAt data _).bind fun _ => (readOnly_floatAt data _).bind fun _ =>
  (readOnly_floatAt data _).bind fun _ => (readOnly_floatAt data _).bind fun _ =>
  (readOnly_textAt data _).bind fun _ => (readOnly_timeAt data _).bind fun _ => .pure _

theorem readOnly_tradeVolume (fillSz : ℚ) (contract : Option ContractData) :
    ReadOnly (tradeVolume fillSz contract) := by
  unfold tradeVolume
  split
  · exact (readOnly_deref contract).bind fun _ => .pure _
  · exact .pure _

theorem readOnly_callbackName (packet : Json.Value) : ReadOnly (callbackName packet) := by
  unfold callbackName
  split
  · exact readOnly_textAt packet _
  split
  · exact readOnly_textAt packet _
  · exact readOnly_read _

variable {α : Type} {data m : Json.Value} {key text : AString}

theorem exec_textAt_bind {f : AString → Handle α} (found : data.get? key = some (.string text)) :
    (textAt data key >>= f).exec s = (f text).exec s :=
  exec_read_bind_ok (Json.Value.getString_of_get? found)

theorem exec_floatAt_bind {f : ℚ → Handle α} (found : data.get? key = some m) :
    (floatAt data key >>= f).exec s = (f (jsonToFloat m)).exec s :=
  exec_read_bind_ok (Json.Value.map_get_of_get? found)

theorem exec_timeAt_bind {f : DateTime → Handle α} (found : data.get? key = some (.string text)) :
    (timeAt data key >>= f).exec s = (f (atoll text)).exec s :=
  exec_read_bind_ok (by rw [Json.Value.getString_of_get? found]; rfl)

end Reads

theorem chosenId_of_string {data : Json.Value} {id : AString}
    (found : data.get? "clOrdId" = some (.string id)) :
    chosenId data = if id.isEmpty then none else some id := by
  simp [chosenId, found]

theorem chosenId_of_other {data : Json.Value}
    (other : ∀ id, data.get? "clOrdId" ≠ some (.string id)) : chosenId data = none := by
  unfold chosenId
  split
  · exact absurd ‹_› (other _)
  · rfl

theorem parseOrderid_state (data : Json.Value) (s : OkxExchange) :
    (parseOrderid data).state s = s.noteLocal (chosenId data) := by
  unfold Handler.state parseOrderid Exchange.read
  rcases data.stringOr_cases "clOrdId" "" with ⟨id, found, ok⟩ | ⟨other, ok | ⟨e, error⟩⟩
  · rw [ok, Fault.ofJson_ok, exec_lift_ok_bind, chosenId_of_string found]
    by_cases empty : id.isEmpty = true
    · rw [if_pos empty, if_pos empty]
      rfl
    · rw [if_neg empty, if_neg empty, exec_modify_bind]
      rfl
  · rw [ok, chosenId_of_other other]
    rfl
  · rw [error, chosenId_of_other other]
    rfl

/-- The one spec of the parser: whether it returns or fails, it notes the call, and the id that
the client chose. -/
theorem parseOrderData_state (data : Json.Value) (s : OkxExchange) :
    (parseOrderData data).state s = (s.emit (.parse data)).noteLocal (announced data) := by
  unfold parseOrderData effect
  have tail (name : AString) (t : OkxExchange) :
      (parseOrderid data >>= parseFields data (t.getContractByName name)).state t =
        t.noteLocal (chosenId data) := by
    rw [state_bind_of_readOnly (readOnly_parseFields data _), parseOrderid_state]
  unfold Handler.state at tail ⊢
  rw [exec_modify_bind, exec_get_bind]
  unfold textAt Exchange.read
  rcases data.getString_cases "instId" with ⟨name, found, ok⟩ | ⟨other, e, error⟩
  · rw [ok, Fault.ofJson_ok, exec_lift_ok_bind]
    simpa only [announced, found] using tail name _
  · rw [error, Fault.ofJson_error, exec_lift_error_bind]
    have none : announced data = none := by
      unfold announced
      split
      · exact absurd ‹_› (other _)
      · rfl
    rw [none]
    rfl

/-! ## What is kept -/

/-- A property that every change of a handler keeps. -/
structure KeptByHandlers (P : OkxExchange → Prop) : Prop where
  emit : ∀ {s e}, Quiet e → P s → P (s.emit e)
  order : ∀ {s} o, P s → P (s.onOrder o)
  parse : ∀ {s} data, P s → P ((s.emit (.parse data)).noteLocal (announced data))
  forget : ∀ {s} id, P s → P { s with reqidOrderMap := s.reqidOrderMap.erase id }

/-- A property that every change of a handler keeps, and every request. -/
structure Kept (P : OkxExchange → Prop) : Prop where
  emit : ∀ {s e}, Quiet e → P s → P (s.emit e)
  order : ∀ {s} o, P s → P (s.onOrder o)
  parse : ∀ {s} data, P s → P ((s.emit (.parse data)).noteLocal (announced data))
  forget : ∀ {s} id, P s → P { s with reqidOrderMap := s.reqidOrderMap.erase id }
  ignore : ∀ {s} symbolContractMap nameContractMap positionMode reqid orderCount, P s →
    P { s with symbolContractMap, nameContractMap, positionMode, reqid, orderCount }
  place : ∀ {s id args} {o : OrderData}, args.get? "clOrdId" = some (.string o.orderid) → P s →
    P ((s.emit (.packet (request id "order" args))).onOrder o)

theorem Kept.byHandlers (kept : Kept P) : KeptByHandlers P :=
  ⟨kept.emit, kept.order, kept.parse, kept.forget⟩

namespace KeptByHandlers

variable (kept : KeptByHandlers P)

include kept

theorem writeLog (msg : AString) (start : P s) : P (s.writeLog msg) := kept.emit trivial start

theorem preserves_effect {e : Effect} (quiet : Quiet e) : Preserves P (effect e) :=
  .modify fun _ => kept.emit quiet

theorem preserves_log (msg : AString) : Preserves P (log msg) := .modify fun _ => kept.writeLog msg

theorem preserves_order (o : OrderData) : Preserves P (OkxExchange.order o) :=
  .modify fun _ => kept.order o

theorem preserves_reject (o : Option OrderData) : Preserves P (reject o) := by
  cases o with
  | none => exact .pure _
  | some o => exact kept.preserves_order _

theorem preserves_parse (data : Json.Value) : Preserves P (parseOrderData data) := by
  intro s start
  rw [parseOrderData_state]
  exact kept.parse data start

theorem preserves_onOrders (ds : List Json.Value) : Preserves P (onOrders ds) := by
  induction ds with
  | nil => exact .pure _
  | cons d ds ih =>
    refine (kept.preserves_parse d).bind fun o => (kept.preserves_order o).bind fun _ => ?_
    refine .bind (readOnly_read _ P) fun fillSz => .ite (.pure _) ?_
    refine .bind (readOnly_floatAt _ _ P) fun fillSz => .bind .get fun _ => ?_
    refine .bind (readOnly_tradeVolume _ _ P) fun volume => ?_
    refine .bind (readOnly_textAt _ _ P) fun tradeid => ?_
    refine .bind (readOnly_floatAt _ _ P) fun price => ?_
    exact .bind (readOnly_timeAt _ _ P) fun _ => .bind (kept.preserves_effect trivial) fun _ => ih

theorem preserves_onAccounts (ds : List Json.Value) : Preserves P (onAccounts ds) := by
  induction ds with
  | nil => exact .pure _
  | cons d ds ih =>
    refine .bind (readOnly_textAt _ _ P) fun accountid => ?_
    refine .bind (readOnly_floatAt _ _ P) fun balance => ?_
    refine .bind (.ite (readOnly_floatAt _ _ P) (.pure _)) fun available => ?_
    exact .bind (kept.preserves_effect trivial) fun _ => ih

theorem preserves_onAccount (packet : Json.Value) : Preserves P (onAccount packet) := by
  refine .bind (readOnly_read _ P) fun data => ?_
  split
  · exact .bind (readOnly_read _ P) fun _ => kept.preserves_onAccounts _
  · exact .ite (.pure _) (.throw _)

theorem preserves_onPositions (ds : List Json.Value) : Preserves P (onPositions ds) := by
  induction ds with
  | nil => exact .pure _
  | cons d ds ih =>
    refine .bind .get fun s => .bind (readOnly_textAt _ _ P) fun name => ?_
    refine .bind (readOnly_floatAt _ _ P) fun pos => .bind (readOnly_floatAt _ _ P) fun price => ?_
    refine .bind (readOnly_floatAt _ _ P) fun pnl => .bind (readOnly_deref _ P) fun contract => ?_
    exact .bind (kept.preserves_effect trivial) fun _ => ih

theorem preserves_onResults (ds : List Json.Value) : Preserves P (onResults ds) := by
  induction ds with
  | nil => exact .pure _
  | cons d ds ih =>
    refine .bind (readOnly_read _ P) fun code => .ite ih ?_
    refine .bind (readOnly_read _ P) fun orderid => .bind (readOnly_read _ P) fun msg => ?_
    refine .bind (kept.preserves_log _) fun _ => .bind .get fun s => ?_
    exact .bind (kept.preserves_reject _) fun _ => ih

theorem preserves_onSendOrder (packet : Json.Value) : Preserves P (onSendOrder packet) := by
  refine .bind (readOnly_read _ P) fun data => .bind (readOnly_read _ P) fun code => .ite ?_ ?_
  · split
    · exact kept.preserves_onResults _
    · exact .pure _
  · refine .bind (readOnly_read _ P) fun msg => .bind (readOnly_read _ P) fun code => ?_
    refine .bind (kept.preserves_log _) fun _ => .ite (.pure _) ?_
    refine .bind (readOnly_read _ P) fun id => .bind .get fun s => ?_
    split
    · exact .bind (kept.preserves_order _) fun _ => .modify fun _ => kept.forget _
    · exact .pure _

theorem preserves_onCancelResults (ds : List Json.Value) : Preserves P (onCancelResults ds) := by
  induction ds with
  | nil => exact .pure _
  | cons d ds ih =>
    refine .bind (readOnly_textAt _ _ P) fun code => .ite (.pure _) ?_
    exact .bind (readOnly_textAt _ _ P) fun msg => .bind (kept.preserves_log _) fun _ => ih

theorem preserves_onCancelOrder (packet : Json.Value) : Preserves P (onCancelOrder packet) := by
  refine .bind (readOnly_read _ P) fun code => .ite ?_ ?_
  · exact .bind (readOnly_read _ P) fun _ => kept.preserves_onCancelResults _
  · refine .bind (readOnly_textAt _ _ P) fun code => .bind (readOnly_textAt _ _ P) fun msg => ?_
    exact kept.preserves_log _

theorem preserves_onLogin (packet : Json.Value) : Preserves P (onLogin packet) := by
  refine .bind (readOnly_read _ P) fun code => .ite ?_ (kept.preserves_log _)
  refine .bind (kept.preserves_log _) fun _ => kept.preserves_effect fun id args eq => ?_
  simp [subscribeTopic, request] at eq

theorem preserves_callback (name : AString) (packet : Json.Value) :
    Preserves P (callback name packet) := by
  unfold callback
  split
  · exact kept.preserves_onLogin packet
  · exact .bind (readOnly_read _ P) fun _ => kept.preserves_onOrders _
  · exact kept.preserves_onAccount packet
  · exact .bind (readOnly_read _ P) fun _ => kept.preserves_onPositions _
  · exact kept.preserves_onSendOrder packet
  · exact kept.preserves_onCancelOrder packet
  · refine .bind (readOnly_textAt _ _ P) fun code => .bind (readOnly_textAt _ _ P) fun msg => ?_
    exact kept.preserves_log _
  · exact .pure _

theorem preserves_onSnapshot (ds : List Json.Value) : Preserves P (onSnapshot ds) := by
  induction ds with
  | nil => exact kept.preserves_log _
  | cons d ds ih =>
    exact (kept.preserves_parse d).bind fun o => (kept.preserves_order o).bind fun _ => ih

/-- Every message keeps `P`, also one that a handler fails at. -/
theorem onText (packet : Json.Value) (start : P s) : P (s.onText packet) := by
  refine onText_invariant ?_ (fun s fault => kept.emit trivial) start
  exact (readOnly_callbackName packet P).bind fun name => kept.preserves_callback name packet

theorem queryOrder (packet : Json.Value) (start : P s) : P ((onQueryOrder packet).state s) :=
  (readOnly_read _ P).bind (fun _ => kept.preserves_onSnapshot _) s start

end KeptByHandlers

namespace Kept

variable (kept : Kept P)

include kept

theorem writeLog (msg : AString) (start : P s) : P (s.writeLog msg) := kept.emit trivial start

theorem sendOrder (req : OrderRequest) (start : P s) : P (s.sendOrder req).2 := by
  rcases s.sendOrder_cases req with ⟨orderCount, msg, -, eq⟩ | ⟨args, msg, msg', id_at, eq⟩
  · rw [eq]
    exact kept.writeLog msg (kept.ignore _ _ _ _ orderCount start)
  · rw [eq]
    refine kept.place id_at (kept.writeLog msg' (kept.writeLog msg ?_))
    exact kept.ignore _ _ _ _ _ start

theorem cancelOrder (req : CancelRequest) (start : P s) : P (s.cancelOrder req) := by
  unfold OkxExchange.cancelOrder
  split
  · exact kept.writeLog _ start
  · refine kept.emit (fun id args eq => ?_) (kept.ignore _ _ _ _ _ start)
    have op := (request_inj.mp eq).2.1
    simp at op

theorem step (l : Step) (start : P s) : P (s.step l) := by
  cases l with
  | contract contract => exact kept.emit trivial (kept.ignore _ _ _ _ _ start)
  | positionMode mode => exact kept.writeLog _ (kept.ignore _ _ mode _ _ start)
  | sendOrder req => exact kept.sendOrder req start
  | cancelOrder req => exact kept.cancelOrder req start
  | text packet => exact kept.byHandlers.onText packet start
  | queryOrder packet => exact kept.byHandlers.queryOrder packet start

end Kept

/-! ## One order on its way -/

def btcUsdt : ContractData :=
  { symbol := "BTC-USDT", exchange := .okx, name := "BTC-USDT", product := .swap
    pricetick := 1 / 10, exchangeName := "OKX" }

def buyBtc : OrderRequest :=
  { symbol := "BTC-USDT", exchange := .okx, direction := .long, type := .limit, volume := 1
    price := 50000 }

/-- The contract is known and one order has been sent. -/
def sendsOne : List Step := [.contract btcUsdt, .sendOrder buyBtc]

theorem sent_sendsOne : (run 7 sendsOne).Sent "1" "7000001" := by
  have key : ((run 7 [.contract btcUsdt]).sendOrder buyBtc).1 ≠ "" := by decide +kernel
  have id : (run 7 [.contract btcUsdt]).newOrderid = "7000001" := by decide +kernel
  rw [← id]
  exact sent_of_sendOrder key

end KeenTrader.Exchange.OkxExchange
