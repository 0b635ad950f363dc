import KeenTrader.App.Trading

/-!
# What stopping a strategy cancels

`stop_strategy` cancels by the ids that the strategy engine keeps, and needs for each exchange
order the record that the order management engine keeps. That record is made by the first
order event, so an order whose first event is still queued is not cancelled.
-/

namespace KeenTrader.App

open Std (ExtTreeMap ExtTreeSet)
open Containers Handlers Runs KeenTrader.Engine

namespace CtaEngine

variable {env : Environment} {s t : CtaEngine}

/-! ## The orders that the order management engine knows -/

/-- Orders are stored under their own ids. -/
def Keyed (s : CtaEngine) : Prop :=
  ∀ (id : AString) o, s.oms.orders[id]? = some o → o.ktOrderid = id

theorem Keyed.of_orders (keyed : s.Keyed) (orders : t.oms.orders = s.oms.orders) : t.Keyed := by
  intro id o stored
  rw [orders] at stored
  exact keyed id o stored

theorem orders_foldl_onTick (tick : TickData) (strategies : List Ptr) (s : CtaEngine) :
    (strategies.foldl (fun s p =>
      if (s.objects p).inited then call env p (.onTick tick) s else s) s).oms.orders =
      s.oms.orders := by
  refine foldl_invariant _ (P := fun t : CtaEngine => t.oms.orders = s.oms.orders)
    (fun t p same => ?_) rfl
  split
  · exact (call_frame env p _ t).orders.trans same
  · exact same

theorem orders_processTickEvent (safe : s.Safe) (tick : TickData) :
    (s.processTickEvent env tick).oms.orders = s.oms.orders := by
  unfold processTickEvent
  split
  · rfl
  · have checked := (moves_checkStopOrders env tick env.passes none safe).acts.frame.orders
    refine iteInduction (motive := fun t : CtaEngine => t.oms.orders = s.oms.orders) (fun _ => ?_)
      fun _ => checked
    exact (orders_foldl_onTick tick _ _).trans checked

theorem orders_processOrderEvent (o : OrderData) :
    (s.processOrderEvent env o).oms.orders = s.oms.orders := by
  unfold processOrderEvent
  split
  · rfl
  · rename_i p _
    simp only
    rw [(call_frame env p _ _).orders]
    split
    · rw [(call_frame env p _ _).orders]
      split <;> rfl
    · split <;> rfl

theorem orders_processTradeEvent (trade : TradeData) :
    (s.processTradeEvent env trade).oms.orders = s.oms.orders := by
  unfold processTradeEvent
  split
  · rfl
  · unfold processNewTrade
    split
    · rfl
    · rename_i p _
      exact (call_frame env p _ _).orders

theorem orders_foldl_cancelOrder (p : Ptr) (ids : List AString) (s : CtaEngine) :
    (ids.foldl (fun s id => cancelOrder (call env) s p id) s).oms.orders = s.oms.orders :=
  (moves_foldl_cancelOrder (reacts_call env) p ids s).acts.frame.orders

theorem oms_saveSetting (s : CtaEngine) (name : AString) (p : Ptr) (setting : Json.Value) :
    (Handler.state (do
      updateStrategySetting name p setting
      modify (·.putStrategyEvent p)) s).oms = s.oms := by
  rcases saveSetting_cases s name setting p with ⟨v, -, eq⟩ | ⟨e, -, eq⟩
  · rw [eq]
    rfl
  · rw [eq]

variable (env) in
/-- Only order events change the orders that are known. -/
theorem orders_step (safe : s.Safe) (op : Op) :
    (s.step env op).oms.orders = s.oms.orders ∨
      ∃ o : OrderData, (s.step env op).oms.orders = s.oms.orders.insert o.ktOrderid o := by
  cases op with
  | contract c =>
    left
    simp only [step, processOms, OmsEngine.process, OmsEngine.processContractEvent]
    split <;> rfl
  | position p => exact Or.inl (orders_modifyConverter _ _ _)
  | order o =>
    right
    refine ⟨o, ?_⟩
    simp only [step, orders_processOrderEvent]
    exact orders_modifyConverter _ _ _
  | trade t =>
    left
    simp only [step, orders_processTradeEvent]
    exact orders_modifyConverter _ _ _
  | tick t =>
    left
    simp only [step, orders_processTickEvent (safe.processOms _)]
    rfl
  | addStrategy className name ktSymbol setting =>
    left
    simp only [step]
    rcases addStrategy_cases s className name ktSymbol setting with ⟨-, msg, eq⟩ | ⟨-, eq⟩
    · rw [eq]
      rfl
    · rw [eq, oms_saveSetting]
      rfl
  | initStrategy name =>
    left
    simp only [step, initStrategy, withStrategy]
    split
    · rename_i p _
      split
      · rfl
      · split <;> exact (call_frame env p _ _).orders
    · rfl
  | startStrategy name =>
    left
    simp only [step, startStrategy, withStrategy]
    split
    · rename_i p _
      split_ifs
      · rfl
      · rfl
      · exact (call_frame env p _ _).orders
    · rfl
  | stopStrategy name =>
    left
    simp only [step, stopStrategy, withStrategy]
    split
    · rename_i p _
      split
      · exact (orders_foldl_cancelOrder p _ _).trans (call_frame env p _ _).orders
      · rfl
    · rfl
  | editStrategy name setting =>
    left
    simp only [step, editStrategy, withStrategy]
    split
    · rw [oms_saveSetting]
    · rfl
  | removeStrategy name =>
    left
    simp only [step, removeStrategy, withStrategy]
    rw [removeStrategySetting_eq]
    split
    · split <;> rfl
    · rfl

variable (env) in
theorem keyed_run (classes : ExtTreeSet AString) (ops : List Op) : (run env classes ops).Keyed := by
  have both : (run env classes ops).Safe ∧ (run env classes ops).Keyed := by
    refine foldl_invariant (step env) (P := fun s => s.Safe ∧ s.Keyed) ?_
      ⟨safe_init classes, by simp [Keyed]⟩
    rintro s op ⟨safe, keyed⟩
    refine ⟨safe.step op, ?_⟩
    rcases orders_step env safe op with same | ⟨o, inserted⟩
    · exact keyed.of_orders same
    · intro id v stored
      rw [inserted, ExtTreeMap.getElem?_insert] at stored
      split at stored
      · rename_i eq
        obtain rfl := Option.some.inj stored
        simpa using eq
      · exact keyed id v stored
  exact both.2

/-! ## The cancel loop -/

/-- What has been added to the trace since `s`. -/
def since (s t : CtaEngine) : List Effect := t.trace.drop s.trace.length

/-- A cancel request for an order id has been handed to its exchange. -/
def Handed (new : List Effect) (ktOrderid : AString) : Prop :=
  ∃ req exchangeName, .cancelOrder req exchangeName ∈ new ∧
    exchangeName ++ "." ++ req.orderid = ktOrderid

variable (env) in
/-- The loop hands a cancel request to the exchange for every order that is known. -/
theorem foldl_cancelOrder_hands (p : Ptr) (ids : List AString) (s : CtaEngine) :
    ∃ new, Progress s (ids.foldl (fun s id => cancelOrder (call env) s p id) s) new ∧
      ∀ id ∈ ids, isStopOrderid id = false → ∀ o, s.oms.orders[id]? = some o →
        .cancelOrder o.createCancelRequest o.exchangeName ∈ new := by
  induction ids generalizing s with
  | nil => exact ⟨[], .refl s, by simp⟩
  | cons id ids ih =>
    have acts := (moves_cancelOrder (reacts_call env) s p id).acts
    obtain ⟨first, progress⟩ := acts.progress
    obtain ⟨new, later, handed⟩ := ih (cancelOrder (call env) s p id)
    refine ⟨first ++ new, progress.trans acts.frame later, ?_⟩
    intro k mem exchange o known
    rcases List.mem_cons.mp mem with rfl | later
    · have now : cancelOrder (call env) s p k =
          s.emit (.cancelOrder o.createCancelRequest o.exchangeName) := by
        have found : s.oms.getOrder k = some o := known
        simp [cancelOrder, exchange, cancelServerOrder, found]
      have trace := progress.trace
      rw [now] at trace
      have eq := List.append_cancel_left trace
      rw [← eq]
      simp
    · refine List.mem_append_right _ (handed k later exchange o ?_)
      rw [acts.frame.orders]
      exact known

/-! ## Stopping -/

/-- The state in which `stop_strategy` starts to cancel. -/
def stopping (env : Environment) (s : CtaEngine) (p : Ptr) : CtaEngine :=
  (call env p .onStop s).updateObject p ({ · with trading := false })

/-- Every exchange order of the strategy is cancelled, and no stop order of it is left. -/
def StopCancels (env : Environment) (s : CtaEngine) (name : AString) (p : Ptr) : Prop :=
  (∀ id, id ∈ (stopping env s p).orderids name → isStopOrderid id = false →
    Handed (since s (s.stopStrategy env name)) id) ∧
  ∀ (id : AString) so, (s.stopStrategy env name).stopOrders[id]? = some so →
    so.strategyName ≠ name

variable {name : AString} {p : Ptr}

theorem stopStrategy_eq (registered : s.strategies[name]? = some p)
    (trading : (s.objects p).trading = true) :
    s.stopStrategy env name =
      (cancelAll (call env) (stopping env s p) p).putStrategyEvent p := by
  unfold stopStrategy withStrategy
  rw [registered]
  simp only [trading, if_true]
  rfl

variable (env) in
theorem call_progress (p : Ptr) (cb : Callback) (s : CtaEngine) (noTrade : ∀ t, cb ≠ .onTrade t) :
    ∃ new, Progress s (call env p cb s) new := by
  have told : onTrades [.callback p cb] = [] := by
    cases cb with
    | onTrade t => exact absurd rfl (noTrade t)
    | _ => rfl
  obtain ⟨new, progress⟩ := (moves_call env p cb s).acts.progress
  exact ⟨_, (progress_emit s (by simp) (by simp) told).trans (frame_emit s _) progress⟩

theorem stopOrders_stopStrategy (safe : s.Safe) (registered : s.strategies[name]? = some p)
    (trading : (s.objects p).trading = true) (id : AString) (so : StopOrder)
    (left : (s.stopStrategy env name).stopOrders[id]? = some so) : so.strategyName ≠ name := by
  obtain ⟨-, -, -, q, owner, trades⟩ := (safe.stopStrategy env name).stops id so left
  rintro rfl
  have first := call_frame env p .onStop s
  have loop := (moves_foldl_cancelOrder (reacts_call env) p
    ((stopping env s p).orderids ((stopping env s p).objects p).strategyName).toList
    (stopping env s p)).acts.frame
  rw [stopStrategy_eq registered trading] at owner trades
  have same : (cancelAll (call env) (stopping env s p) p).strategies = s.strategies :=
    loop.strategies.trans first.strategies
  have objects : (cancelAll (call env) (stopping env s p) p).objects =
      (stopping env s p).objects := loop.objects
  change (cancelAll (call env) (stopping env s p) p).strategies[so.strategyName]? = some q at owner
  rw [same, registered] at owner
  obtain rfl := Option.some.inj owner
  change ((cancelAll (call env) (stopping env s p) p).objects p).trading = true ∨ False at trades
  rw [objects] at trades
  simp [stopping, updateObject] at trades

theorem named_stopping (safe : s.Safe) (registered : s.strategies[name]? = some p) :
    ((stopping env s p).objects p).strategyName = name := by
  have own := (safe.names name p registered).1
  simpa [stopping, updateObject, (call_frame env p .onStop s).objects] using own

/-- What stopping adds to the trace: what happens while the strategy is told, and the cancel
requests of the loop. All of them are for orders that are known. -/
theorem since_stopStrategy (safe : s.Safe) (registered : s.strategies[name]? = some p)
    (trading : (s.objects p).trading = true) {told : List Effect}
    (progress : Progress s (call env p .onStop s) told) :
    ∃ new : List Effect, since s (s.stopStrategy env name) = told ++ (new ++ [.strategyEvent p]) ∧
      (∀ req exchangeName, .cancelOrder req exchangeName ∈ told ++ (new ++ [.strategyEvent p]) →
        ∃ (id : AString) (o : OrderData), s.oms.orders[id]? = some o ∧
          req = o.createCancelRequest ∧ exchangeName = o.exchangeName) ∧
      ∀ id ∈ (stopping env s p).orderids name, isStopOrderid id = false →
        ∀ o, s.oms.orders[id]? = some o →
          .cancelOrder o.createCancelRequest o.exchangeName ∈ new := by
  have orders : (stopping env s p).oms.orders = s.oms.orders :=
    (call_frame env p .onStop s).orders
  obtain ⟨new, loop, handed⟩ := foldl_cancelOrder_hands env p
    ((stopping env s p).orderids name).toList (stopping env s p)
  refine ⟨new, ?_, ?_, ?_⟩
  · have told_trace : (stopping env s p).trace = s.trace ++ told := progress.trace
    have trace : (s.stopStrategy env name).trace =
        s.trace ++ (told ++ (new ++ [.strategyEvent p])) := by
      rw [stopStrategy_eq registered trading, cancelAll, named_stopping safe registered]
      simp [putStrategyEvent, emit, loop.trace, told_trace]
    rw [since, trace, List.drop_left]
  · intro req exchangeName mem
    rcases List.mem_append.mp mem with mem | mem
    · exact progress.cancels req exchangeName mem
    rcases List.mem_append.mp mem with mem | mem
    · rw [← orders]
      exact loop.cancels req exchangeName mem
    · simp at mem
  · intro id mem exchange o known
    exact handed id (ExtTreeSet.mem_toList.mpr mem) exchange o (by rw [orders]; exact known)

/-- A strategy that is stopped has all its exchange orders cancelled exactly when the order
management engine knows those among its ids and those that the exchange gives out for it while
it is told of the stop. -/
theorem stop_cancels_iff (env : Environment) (classes : ExtTreeSet AString) (ops : List Op)
    {name : AString} {p : Ptr} (registered : (run env classes ops).strategies[name]? = some p)
    (trading : ((run env classes ops).objects p).trading = true) :
    StopCancels env (run env classes ops) name p ↔
      ∀ id, isStopOrderid id = false →
        (id ∈ (run env classes ops).orderids name ∨
          ∃ q, Given (since (run env classes ops) (call env p .onStop (run env classes ops))) q id ∧
            ((run env classes ops).objects q).strategyName = name) →
        ((run env classes ops).oms.getOrder id).isSome = true := by
  have safe := safe_run env classes ops
  have keyed := keyed_run env classes ops
  generalize run env classes ops = s at *
  obtain ⟨told, progress⟩ := call_progress env p .onStop s (by simp)
  obtain ⟨new, after, known, handed⟩ := since_stopStrategy safe registered trading progress
  have since_told : since s (call env p .onStop s) = told := by
    rw [since, progress.trace, List.drop_left]
  have ids : ∀ id, isStopOrderid id = false → (id ∈ (stopping env s p).orderids name ↔
      id ∈ s.orderids name ∨ ∃ q, Given told q id ∧ (s.objects q).strategyName = name) :=
    progress.orderids name
  rw [since_told]
  constructor
  · rintro ⟨cancelled, -⟩ id exchange own
    obtain ⟨req, exchangeName, mem, key⟩ := cancelled id ((ids id exchange).mpr own) exchange
    rw [after] at mem
    obtain ⟨k, o, stored, rfl, rfl⟩ := known req exchangeName mem
    have same : k = id := by
      rw [← key, ← keyed k o stored]
      rfl
    subst same
    simp [OmsEngine.getOrder, stored]
  · intro all
    refine ⟨?_, stopOrders_stopStrategy safe registered trading⟩
    intro id mem exchange
    obtain ⟨o, found⟩ := Option.isSome_iff_exists.mp (all id exchange ((ids id exchange).mp mem))
    refine ⟨o.createCancelRequest, o.exchangeName, ?_, keyed id o found⟩
    rw [after]
    simp [handed id mem exchange o found]

/-- A strategy that buys one lot on a tick, and an exchange that takes the order. -/
def buyOnTick : Environment where
  enum := .sorted
  accept _ _ exchangeName := if isStopOrderid exchangeName then none else some "1"
  react _ _
    | .onTick _ => [.buy 3500 1 false false false]
    | _ => []
  depth := 1
  passes := 10
  accept_name s req exchangeName orderid accepted := by
    cases stop : isStopOrderid exchangeName with
    | false => rfl
    | true => simp [stop] at accepted

/-- The strategy is started and has bought; no event of its order has been processed. -/
def boughtOnTick : List Op :=
  [.contract { symbol := "rb2410", exchange := .shfe, product := .futures, pricetick := 1
               exchangeName := "CTP" },
    .addStrategy "Dual" "alpha" "rb2410.SHFE" .null, .initStrategy "alpha",
    .startStrategy "alpha", .tick { symbol := "rb2410", exchange := .shfe }]

def boughtOrder : OrderData :=
  { symbol := "rb2410", exchange := .shfe, orderid := "1", direction := .long, offset := .opening
    price := 3500, volume := 1, status := .notTraded, exchangeName := "CTP" }

def isCancel : Effect → Bool
  | .cancelOrder _ _ => true
  | _ => false

/-- The order is on the exchange and stays there. -/
theorem bought_not_cancelled :
    ¬ ∀ (env : Environment) (classes : ExtTreeSet AString) (ops : List Op) (name : AString)
      (p : Ptr),
      (run env classes ops).strategies[name]? = some p →
      ((run env classes ops).objects p).trading = true →
      StopCancels env (run env classes ops) name p := by
  intro all
  obtain ⟨cancelled, -⟩ := all buyOnTick {"Dual"} boughtOnTick "alpha" 0 (by decide +kernel)
    (by decide +kernel)
  obtain ⟨req, exchangeName, mem, -⟩ := cancelled "CTP.1" (by decide +kernel) (by decide +kernel)
  have none : (since (run buyOnTick {"Dual"} boughtOnTick)
      ((run buyOnTick {"Dual"} boughtOnTick).stopStrategy buyOnTick "alpha")).any isCancel =
        false := by
    decide +kernel
  rw [List.any_eq_false] at none
  exact none _ mem rfl

/-- Once the first event of the order has been processed, stopping cancels it. -/
theorem bought_cancelled :
    StopCancels buyOnTick (run buyOnTick {"Dual"} (boughtOnTick ++ [.order boughtOrder]))
      "alpha" 0 := by
  have registered : (run buyOnTick {"Dual"} (boughtOnTick ++ [.order boughtOrder])).strategies[
      "alpha"]? = some 0 := by
    decide +kernel
  have trading : ((run buyOnTick {"Dual"} (boughtOnTick ++ [.order boughtOrder])).objects
      0).trading = true := by
    decide +kernel
  refine (stop_cancels_iff buyOnTick {"Dual"} _ registered trading).mpr ?_
  have ids : ((run buyOnTick {"Dual"} (boughtOnTick ++ [.order boughtOrder])).orderids
      "alpha").toList = ["CTP.1"] := by
    decide +kernel
  have told : since (run buyOnTick {"Dual"} (boughtOnTick ++ [.order boughtOrder]))
      (call buyOnTick 0 .onStop (run buyOnTick {"Dual"} (boughtOnTick ++ [.order boughtOrder]))) =
        [.callback 0 .onStop] := by
    simp [since, call, buyOnTick, callback, emit]
  rintro id - (mem | ⟨q, ⟨trading, req, exchangeName, mem⟩, -⟩)
  · rw [← ExtTreeSet.mem_toList, ids] at mem
    obtain rfl := List.mem_singleton.mp mem
    decide +kernel
  · rw [told] at mem
    simp at mem

end CtaEngine

end KeenTrader.App
