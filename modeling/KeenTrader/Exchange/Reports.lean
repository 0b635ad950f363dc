import KeenTrader.Library.Runs
import KeenTrader.Engine.Oms
import KeenTrader.Exchange.Okx
import KeenTrader.Exchange.BinanceReports

/-!
# Order reports

Orders are reported by both exchanges: when they are sent or rejected, by pushes, and by the
answers to order queries. All reports are put into one queue, and `OmsEngine` processes them
one by one. A report that has an active status makes its order active, whatever was reported of
the order before.
-/

namespace KeenTrader.Exchange

open Std (ExtTreeMap)
open KeenTrader.Engine Containers Handlers Runs

/-- The event that `OmsEngine` is registered for. -/
def Effect.event? : Effect → Option OmsEvent
  | .order o => some (.order o)
  | .trade t => some (.trade t)
  | .account a => some (.account a)
  | .position p => some (.position p)
  | .contract c => some (.contract c)
  | .log _ | .packet _ | .parse _ | .error _ => none

/-- The events that are put when a trace grows from `old` to `new`. -/
def newEvents (old new : List Effect) : List OmsEvent :=
  (new.drop old.length).filterMap Effect.event?

/-- Both exchanges, the events that have been put but not processed, and the engine that
processes them. -/
structure Desk where
  okx : OkxExchange := {}
  binance : BinanceExchange := {}
  queue : List OmsEvent := []
  oms : OmsEngine := {}

namespace Desk

inductive Step where
  | okx (l : OkxExchange.Step)
  | binance (l : BinanceExchange.Step)
  | binanceUser (now : DateTime) (packet : Json.Value)
  | binanceQueryOrder (stray : Direction) (now : DateTime) (packet : Json.Value)
  | process

def withOkx (s : Desk) (okx : OkxExchange) : Desk :=
  { s with okx, queue := s.queue ++ newEvents s.okx.trace okx.trace }

def withBinance (s : Desk) (binance : BinanceExchange) : Desk :=
  { s with binance, queue := s.queue ++ newEvents s.binance.trace binance.trace }

section Enumerated
variable (enum : Enumeration AString OrderData) (hmac : AString → AString → List UInt8)

/-- Take the first event from the queue. -/
def process (s : Desk) : Desk :=
  match s.queue with
  | [] => s
  | e :: queue => { s with queue, oms := s.oms.process enum e }

def step (s : Desk) : Step → Desk
  | .okx l => s.withOkx (s.okx.step l)
  | .binance l => s.withBinance (s.binance.step hmac l)
  | .binanceUser now packet => s.withBinance (BinanceUserApi.onText s.binance now packet)
  | .binanceQueryOrder stray now packet =>
    s.withBinance ((BinanceRestApi.onQueryOrder stray now packet).state s.binance)
  | .process => s.process enum

/-- A run from the moment both exchanges are connected. -/
def run (connectTime : ℕ) (key secret : AString) (hedgeMode : Bool) (steps : List Step) : Desk :=
  steps.foldl (step enum hmac)
    { okx := { connectTime }, binance := .connected key secret hedgeMode }

end Enumerated

/-! ## What an order event changes -/

variable {enum : Enumeration AString OrderData} {hmac : AString → AString → List UInt8} {s : Desk}

/-- The order is known, its status is not active, and it is not among the active orders. -/
structure Ended (id : AString) (s : Desk) : Prop where
  status : ∃ o, s.oms.getOrder id = some o ∧ o.isActive = false
  absent : id ∉ s.oms.activeOrders

/-- The next event, if it is the one that is processed, does not report the order as active. -/
def NotRevived (id : AString) (s : Desk) : Step → Prop
  | .process => ∀ o queue, s.queue = .order o :: queue → o.ktOrderid = id → o.isActive = false
  | _ => True

@[simp] theorem modifyConverter_orders (oms : OmsEngine) (name : AString)
    (f : OffsetConverter → OffsetConverter) : (oms.modifyConverter name f).orders = oms.orders := by
  unfold OmsEngine.modifyConverter
  split <;> rfl

@[simp] theorem modifyConverter_activeOrders (oms : OmsEngine) (name : AString)
    (f : OffsetConverter → OffsetConverter) :
    (oms.modifyConverter name f).activeOrders = oms.activeOrders := by
  unfold OmsEngine.modifyConverter
  split <;> rfl

theorem getOrder_processOrderEvent (oms : OmsEngine) (o : OrderData) (id : AString) :
    (oms.processOrderEvent enum o).getOrder id =
      if o.ktOrderid = id then some o else oms.getOrder id := by
  simp [OmsEngine.processOrderEvent, OmsEngine.getOrder, ExtTreeMap.getElem?_insert]

theorem mem_activeOrders_processOrderEvent (oms : OmsEngine) (o : OrderData) (id : AString) :
    id ∈ (oms.processOrderEvent enum o).activeOrders ↔
      if o.ktOrderid = id then o.isActive = true else id ∈ oms.activeOrders := by
  unfold OmsEngine.processOrderEvent
  by_cases active : o.isActive <;> by_cases same : o.ktOrderid = id <;>
    simp [active, same, ExtTreeMap.mem_erase]

variable (enum) in
/-- The other events leave the orders as they are. -/
theorem process_orders (oms : OmsEngine) {e : OmsEvent} (other : ∀ o, e ≠ .order o) :
    (oms.process enum e).orders = oms.orders ∧
      (oms.process enum e).activeOrders = oms.activeOrders := by
  cases e with
  | order o => exact absurd rfl (other o)
  | trade t => simp [OmsEngine.process, OmsEngine.processTradeEvent]
  | position p => simp [OmsEngine.process, OmsEngine.processPositionEvent]
  | contract c =>
    unfold OmsEngine.process OmsEngine.processContractEvent
    constructor <;> dsimp only <;> split <;> rfl
  | tick _ | account _ | quote _ => exact ⟨rfl, rfl⟩

/-- After an order event its order has the status of the event, and is among the active orders
exactly if that status is active. -/
theorem ended_process_order {o : OrderData} {queue : List OmsEvent}
    (head : s.queue = .order o :: queue) :
    Ended o.ktOrderid (s.process enum) ↔ o.isActive = false := by
  have here : (s.process enum).oms = s.oms.processOrderEvent enum o := by
    simp [Desk.process, head, OmsEngine.process]
  constructor
  · rintro ⟨-, absent⟩
    rw [here, mem_activeOrders_processOrderEvent, if_pos rfl] at absent
    exact Bool.eq_false_iff.mpr absent
  · intro inactive
    refine ⟨⟨o, ?_, inactive⟩, ?_⟩
    · rw [here, getOrder_processOrderEvent, if_pos rfl]
    · rw [here, mem_activeOrders_processOrderEvent, if_pos rfl, inactive]
      exact Bool.false_ne_true

/-- A step that reports nothing of an order leaves it ended. -/
theorem Ended.congr {id : AString} {t : Desk} (ended : Ended id s)
    (status : t.oms.getOrder id = s.oms.getOrder id)
    (active : id ∈ t.oms.activeOrders ↔ id ∈ s.oms.activeOrders) : Ended id t where
  status := by rw [status]; exact ended.status
  absent := fun mem => ended.absent (active.mp mem)

theorem ended_step_iff {id : AString} (l : Step) (ended : Ended id s) :
    Ended id (s.step enum hmac l) ↔ NotRevived id s l := by
  cases l with
  | process =>
    change Ended id (s.process enum) ↔ _
    cases head : s.queue with
    | nil =>
      have same : s.process enum = s := by simp [Desk.process, head]
      simp [NotRevived, head, same, ended]
    | cons e queue =>
      have here : (s.process enum).oms = s.oms.process enum e := by simp [Desk.process, head]
      by_cases order : ∃ o, e = .order o
      · obtain ⟨o, rfl⟩ := order
        by_cases own : o.ktOrderid = id
        · subst own
          rw [ended_process_order head]
          simp [NotRevived, head]
        · have kept : Ended id (s.process enum) := by
            refine ended.congr ?_ ?_ <;> rw [here, OmsEngine.process]
            · rw [getOrder_processOrderEvent, if_neg own]
            · rw [mem_activeOrders_processOrderEvent, if_neg own]
          simp [NotRevived, head, own, kept]
      · have other : ∀ o, e ≠ .order o := fun o eq => order ⟨o, eq⟩
        obtain ⟨orders, active⟩ := process_orders enum s.oms other
        have kept : Ended id (s.process enum) := by
          refine ended.congr ?_ ?_ <;> rw [here]
          · rw [OmsEngine.getOrder, orders, OmsEngine.getOrder]
          · rw [active]
        simp [NotRevived, head, other, kept]
  | okx l => exact iff_of_true ⟨ended.status, ended.absent⟩ trivial
  | binance l => exact iff_of_true ⟨ended.status, ended.absent⟩ trivial
  | binanceUser now packet => exact iff_of_true ⟨ended.status, ended.absent⟩ trivial
  | binanceQueryOrder stray now packet => exact iff_of_true ⟨ended.status, ended.absent⟩ trivial

/-! ## Ended orders -/

/-- An order whose end has been processed stays ended exactly as long as no event that reports
it as active is processed. -/
theorem ended_stays_iff (enum : Enumeration AString OrderData)
    (hmac : AString → AString → List UInt8) (s : Desk) {o : OrderData} {queue : List OmsEvent}
    (head : s.queue = .order o :: queue) (terminal : o.isActive = false) (later : List Step) :
    Always (step enum hmac) (Ended o.ktOrderid) (s.process enum) later ↔
      Meets (step enum hmac) (NotRevived o.ktOrderid) (s.process enum) later :=
  always_iff_meets (fun _ l ended => ended_step_iff l ended)
    ((ended_process_order head).mpr terminal)

section StaleSnapshot

def linkUsdt : ContractData :=
  { symbol := "LINKUSDT_SPOT", exchange := .okx, name := "LINK-USDT", product := .spot
    pricetick := 1 / 1000, exchangeName := "OKX" }

/-- What is told of the order `7`, in a push or in the answer to a query. -/
def told (state filled : AString) : Json.Value :=
  .object [("data", .array [.object
      [("accFillSz", .string filled), ("cTime", .string "1"), ("fillSz", .string "0"),
       ("instId", .string "LINK-USDT"), ("ordId", .string "7"), ("ordType", .string "limit"),
       ("px", .string "15"), ("side", .string "buy"), ("state", .string state),
       ("sz", .string "2")]]),
    ("op", .string "orders")]

def toldOrder (status : Status) (traded : ℚ) : OrderData :=
  { symbol := "LINKUSDT_SPOT", exchange := .okx, orderid := "7", direction := .long, price := 15
    volume := 2, traded, status, datetime := 1, exchangeName := "OKX" }

/-- A query is answered with the open order, but its fill is pushed before that answer arrives. -/
def fillOvertakesSnapshot : Desk :=
  run .sorted (fun _ _ => []) 7 "" "" true
    [.okx (.contract linkUsdt), .process, .okx (.text (told "filled" "2")),
     .okx (.queryOrder (told "live" "0"))]

theorem queue_fillOvertakesSnapshot : fillOvertakesSnapshot.queue =
    [.order (toldOrder .allTraded 2), .order (toldOrder .notTraded 0)] := by decide +kernel

/-- Requests do not revive the order. -/
theorem filled_stays_ended :
    Always (step .sorted fun _ _ => []) (Ended "OKX.7") (fillOvertakesSnapshot.process .sorted)
      [.okx (.cancelOrder { orderid := "7", symbol := "LINKUSDT_SPOT", exchange := .okx })] :=
  (ended_stays_iff .sorted (fun _ _ => []) fillOvertakesSnapshot queue_fillOvertakesSnapshot rfl
    _).mpr ⟨trivial, trivial⟩

/-- The answer that has been overtaken makes the filled order active again. -/
theorem snapshot_revives :
    ¬ ∀ (enum : Enumeration AString OrderData) (hmac : AString → AString → List UInt8)
      (connectTime : ℕ) (key secret : AString) (hedgeMode : Bool) (before later : List Step)
      (o : OrderData) (queue : List OmsEvent),
      (run enum hmac connectTime key secret hedgeMode before).queue = .order o :: queue →
      o.isActive = false →
        Always (step enum hmac) (Ended o.ktOrderid)
          ((run enum hmac connectTime key secret hedgeMode before).process enum) later := by
  intro all
  have ended := (all .sorted (fun _ _ => []) 7 "" "" true _ [.process] _ _
    queue_fillOvertakesSnapshot rfl).last
  have next : (fillOvertakesSnapshot.process .sorted).queue =
      [.order (toldOrder .notTraded 0)] := by
    simp [Desk.process, queue_fillOvertakesSnapshot]
  exact absurd ((ended_process_order next).mp ended) (by decide)

end StaleSnapshot

end Desk

end KeenTrader.Exchange
