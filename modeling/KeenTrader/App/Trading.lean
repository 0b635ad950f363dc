import KeenTrader.App.Actions

/-!
# Orders only while trading

Orders leave the engine through the guarded call of the template and through the book of local
stop orders, which has no guard of its own. The book is safe because every stop order in it is
among the ids of a registered strategy that is trading. `stop_strategy` breaks this for the
strategy it stops and restores it id by id; the stop orders whose turn has not come are exempt.
-/

namespace KeenTrader.App

open Std (ExtTreeMap ExtTreeSet)
open Containers Handlers Runs KeenTrader.Engine

namespace CtaEngine

structure Guarded (exempt : AString → Prop) (s : CtaEngine) : Prop where
  stops : ∀ (id : AString) so, s.stopOrders[id]? = some so →
    isStopOrderid id = true ∧ so.stopOrderid = id ∧ id ∈ s.orderids so.strategyName ∧
      ∃ p, s.strategies[so.strategyName]? = some p ∧ ((s.objects p).trading = true ∨ exempt id)
  names : ∀ (name : AString) p, s.strategies[name]? = some p →
    (s.objects p).strategyName = name ∧ p < s.nextPtr
  traders : ∀ p, (s.objects p).trading = true →
    s.strategies[(s.objects p).strategyName]? = some p
  mapped : ∀ (id : AString) p, s.orderidStrategyMap[id]? = some p → isStopOrderid id = false
  sends : ∀ p trading req exchangeName ktOrderid,
    .sendOrder p trading req exchangeName ktOrderid ∈ s.trace → trading = true

variable {env : Environment} {exempt : AString → Prop} {s t : CtaEngine}

/-- Emitting anything but an order leaves a guarded engine guarded. -/
theorem Guarded.emit (guarded : s.Guarded exempt) {e : Effect}
    (other : ∀ p trading req exchangeName ktOrderid,
      e ≠ .sendOrder p trading req exchangeName ktOrderid) : (s.emit e).Guarded exempt where
  stops := guarded.stops
  names := guarded.names
  traders := guarded.traders
  mapped := guarded.mapped
  sends p trading req exchangeName ktOrderid mem := by
    rcases List.mem_append.mp mem with old | new
    · exact guarded.sends _ _ _ _ _ old
    · exact absurd (List.mem_singleton.mp new).symm (other _ _ _ _ _)

theorem Guarded.writeLog (guarded : s.Guarded exempt) (msg : AString) (strategy : Option Ptr) :
    (s.writeLog msg strategy).Guarded exempt := by
  cases strategy <;> exact guarded.emit (by simp)

theorem Guarded.send (guarded : s.Guarded exempt) (p : Ptr) (req : OrderRequest)
    (exchangeName : AString) (trading : (s.objects p).trading = true) :
    (sendRequest env s p req exchangeName).2.Guarded exempt := by
  rcases sendRequest_cases env s p req exchangeName with
    ⟨-, eq⟩ | ⟨orderid, accepted, eq⟩
  · rw [eq]
    refine ⟨guarded.stops, guarded.names, guarded.traders, guarded.mapped, ?_⟩
    intro p' trading' req' exchangeName' ktOrderid mem
    rcases List.mem_append.mp mem with old | new
    · exact guarded.sends _ _ _ _ _ old
    · obtain ⟨-, rfl, -⟩ := Effect.sendOrder.inj (List.mem_singleton.mp new)
      exact trading
  · rw [eq]
    constructor
    · intro id so stored
      obtain ⟨stop, key, mem, owner⟩ := guarded.stops id so stored
      exact ⟨stop, key, mem_group_insert.mpr (.inl mem), owner⟩
    · exact guarded.names
    · exact guarded.traders
    · intro id q stored
      simp only [ExtTreeMap.getElem?_insert] at stored
      split at stored
      · rename_i same
        obtain rfl : exchangeName ++ "." ++ orderid = id := by simpa using same
        exact isStopOrderid_of_exchange (env.accept_name _ _ _ _ accepted) orderid
      · exact guarded.mapped id q stored
    · intro p' trading' req' exchangeName' ktOrderid mem
      rcases List.mem_append.mp mem with old | new
      · exact guarded.sends _ _ _ _ _ old
      · obtain ⟨-, rfl, -⟩ := Effect.sendOrder.inj (List.mem_singleton.mp new)
        exact trading

theorem Guarded.place (guarded : s.Guarded exempt) (p : Ptr) (stopOrder : StopOrder)
    (trading : (s.objects p).trading = true)
    (owner : stopOrder.strategyName = (s.objects p).strategyName)
    (stop : isStopOrderid stopOrder.stopOrderid = true) :
    (s.placeStopOrder p stopOrder).Guarded exempt where
  stops id so stored := by
    simp only [placeStopOrder_stopOrders, ExtTreeMap.getElem?_insert] at stored
    split at stored
    · rename_i same
      obtain rfl := Option.some.inj stored
      obtain rfl : stopOrder.stopOrderid = id := by simpa using same
      refine ⟨stop, rfl, ?_, p, ?_, Or.inl trading⟩
      · simp [orderids, placeStopOrder, setOrderids, owner]
      · rw [owner]
        exact guarded.traders p trading
    · obtain ⟨stop, key, mem, owner⟩ := guarded.stops id so stored
      exact ⟨stop, key, mem_group_insert.mpr (.inl mem), owner⟩
  names := guarded.names
  traders := guarded.traders
  mapped := guarded.mapped
  sends := guarded.sends

theorem Guarded.drop (guarded : s.Guarded exempt) (p : Ptr) (stopOrderid : AString) :
    (s.dropStopOrder p stopOrderid).Guarded exempt where
  stops id so stored := by
    simp only [dropStopOrder_stopOrders, ExtTreeMap.getElem?_erase] at stored
    split at stored
    · exact absurd stored (by simp)
    · rename_i other
      obtain ⟨stop, key, mem, owner⟩ := guarded.stops id so stored
      exact ⟨stop, key, mem_group_erase.mpr ⟨mem, by simp_all⟩, owner⟩
  names := guarded.names
  traders := guarded.traders
  mapped := guarded.mapped
  sends := guarded.sends

theorem Action.guarded (action : Action env s t) (guarded : s.Guarded exempt) :
    t.Guarded exempt := by
  cases action with
  | log msg => exact guarded.emit (by simp)
  | callback p stopOrder => exact guarded.emit (by simp)
  | stopOrderEvent stopOrder => exact guarded.emit (by simp)
  | cancel ktOrderid order found => exact guarded.emit (by simp)
  | convert req exchangeName lock net =>
    exact ⟨guarded.stops, guarded.names, guarded.traders, guarded.mapped, guarded.sends⟩
  | send p req exchangeName trading => exact guarded.send p req exchangeName trading
  | place p stopOrder trading owner stop => exact guarded.place p stopOrder trading owner stop
  | drop p stopOrderid stopOrder stop found owner => exact guarded.drop p stopOrderid

theorem Acts.guarded (acts : Acts env s t) (guarded : s.Guarded exempt) : t.Guarded exempt :=
  acts.invariant (fun action => action.guarded) guarded

theorem Guarded.call (guarded : s.Guarded exempt) (p : Ptr) (cb : Callback) :
    (call env p cb s).Guarded exempt :=
  (moves_call _ p cb s).acts.guarded (guarded.emit (by simp))

/-- Changing an object but for its name, when it trades afterwards only if it is registered, and
its stop orders that are still in the book are exempt if it does not. -/
theorem Guarded.update {exempt' : AString → Prop} (guarded : s.Guarded exempt) {p : Ptr}
    {f : CtaTemplate → CtaTemplate}
    (name : (f (s.objects p)).strategyName = (s.objects p).strategyName)
    (trader : (f (s.objects p)).trading = true →
      s.strategies[(s.objects p).strategyName]? = some p)
    (stops : ∀ id ∈ s.orderids (s.objects p).strategyName,
      (s.objects p).trading = true ∨ exempt id → (f (s.objects p)).trading = true ∨ exempt' id)
    (weaker : ∀ id, exempt id → exempt' id) : (s.updateObject p f).Guarded exempt' := by
  have names := updateObject_keeps (·.strategyName) s name
  constructor
  · intro id so stored
    obtain ⟨stop, key, mem, q, registered, trades⟩ := guarded.stops id so stored
    refine ⟨stop, key, mem, q, registered, ?_⟩
    by_cases same : q = p
    · subst same
      rw [← (guarded.names _ q registered).1] at mem
      simpa [CtaEngine.updateObject] using stops id mem trades
    · simpa [CtaEngine.updateObject, same] using trades.imp_right (weaker id)
  · intro n q registered
    rw [names]
    exact guarded.names n q registered
  · intro q trades
    rw [names]
    by_cases same : q = p
    · subst same
      exact trader (by simpa [CtaEngine.updateObject] using trades)
    · exact guarded.traders q (by simpa [CtaEngine.updateObject, same] using trades)
  · exact guarded.mapped
  · exact guarded.sends

/-- Changing an object but for its name and its trading flag. -/
theorem Guarded.updateObject (guarded : s.Guarded exempt) (p : Ptr) {f : CtaTemplate → CtaTemplate}
    (name : (f (s.objects p)).strategyName = (s.objects p).strategyName)
    (trading : (f (s.objects p)).trading = (s.objects p).trading) :
    (s.updateObject p f).Guarded exempt := by
  refine guarded.update name ?_ ?_ fun _ => id
  · rw [trading]
    exact guarded.traders p
  · rw [trading]
    exact fun _ _ => id

/-! ## The pass over the stop orders -/

theorem stopOrders_sendRequests (p : Ptr) (exchangeName : AString) (reqs : List OrderRequest)
    (s : CtaEngine) : (sendRequests env p exchangeName reqs s).2.stopOrders = s.stopOrders := by
  induction reqs generalizing s with
  | nil => rfl
  | cons req reqs ih =>
    have first : (sendRequest env s p req exchangeName).2.stopOrders = s.stopOrders := by
      rcases sendRequest_cases env s p req exchangeName with ⟨-, eq⟩ | ⟨_, -, eq⟩
      · rw [eq]; rfl
      · rw [eq]
    exact (ih _).trans first

theorem nextStopOrder_stored {after : Option AString} {key : AString} {so : StopOrder}
    (next : s.nextStopOrder after = some (key, so)) : s.stopOrders[key]? = some so :=
  ExtTreeMap.mem_toList_iff_getElem?_eq_some.mp (List.mem_of_find?_eq_some next)

/-- The tick is one of the stop order's instrument, and reaches its price. -/
def Triggers (tick : TickData) (so : StopOrder) : Prop :=
  so.ktSymbol = tick.ktSymbol ∧
    ((so.direction = .long ∧ so.price ≤ tick.lastPrice) ∨
      (so.direction = .short ∧ tick.lastPrice ≤ so.price))

instance decidableTriggers (tick : TickData) (so : StopOrder) : Decidable (Triggers tick so) :=
  inferInstanceAs (Decidable (_ ∧ _))

variable (env) in
/-- The call of `send_limit_order` for a triggered stop order: the ids that it returns, and the
state after it. -/
def sendTriggered (s : CtaEngine) (tick : TickData) (p : Ptr) (contract : ContractData)
    (so : StopOrder) : List AString × CtaEngine :=
  sendLimitOrder env s p contract so.direction so.offset
    (if so.direction = .long then
      if tick.limitUp ≠ 0 then tick.limitUp else tick.askPrice5
    else if tick.limitDown ≠ 0 then tick.limitDown else tick.bidPrice5)
    so.volume so.lock so.net

/-- A visit of a stop order changes nothing, throws, sends in vain, or takes it out of the book. -/
theorem checkOne_cases (env : Environment) (s : CtaEngine) (tick : TickData) (so : StopOrder) :
    (¬Triggers tick so ∧ checkOne env s tick so = some s) ∨
    (Triggers tick so ∧ (s.strategies[so.strategyName]? = none ∨
      s.oms.getContract so.ktSymbol = none) ∧ checkOne env s tick so = none) ∨
    ∃ p contract, Triggers tick so ∧ s.strategies[so.strategyName]? = some p ∧
      s.oms.getContract so.ktSymbol = some contract ∧
      ((∃ t, sendTriggered env s tick p contract so = ([], t) ∧
          checkOne env s tick so = some t) ∨
        ∃ id ids t told, sendTriggered env s tick p contract so = (id :: ids, t) ∧
          told = { so with status := .triggered, ktOrderids := id :: ids } ∧
          checkOne env s tick so = some ((call env p (.onStopOrder told)
            (t.dropStopOrder p so.stopOrderid)).putStopOrderEvent told)) := by
  by_cases same : so.ktSymbol = tick.ktSymbol
  · by_cases reached : (so.direction = .long ∧ so.price ≤ tick.lastPrice) ∨
        (so.direction = .short ∧ tick.lastPrice ≤ so.price)
    · refine .inr ?_
      have triggers : Triggers tick so := ⟨same, reached⟩
      cases registered : s.strategies[so.strategyName]? with
      | none => exact .inl ⟨triggers, .inl rfl, by simp [checkOne, same, reached, registered]⟩
      | some p =>
        cases found : s.oms.getContract so.ktSymbol with
        | none =>
          rw [same] at found
          exact .inl ⟨triggers, .inr rfl,
            by simp [checkOne, same, reached, registered, found]⟩
        | some contract =>
          refine .inr ⟨p, contract, triggers, rfl, rfl, ?_⟩
          have visited : checkOne env s tick so =
              (let sent := sendTriggered env s tick p contract so
              if sent.1 = [] then some sent.2
              else some ((call env p (.onStopOrder
                  { so with status := .triggered, ktOrderids := sent.1 })
                (sent.2.dropStopOrder p so.stopOrderid)).putStopOrderEvent
                  { so with status := .triggered, ktOrderids := sent.1 })) := by
            unfold checkOne
            rw [if_neg (not_not.mpr same), if_pos reached, registered, found]
            rfl
          rw [visited]
          obtain ⟨ids, t⟩ := sendTriggered env s tick p contract so
          cases ids with
          | nil => exact .inl ⟨t, rfl, by simp⟩
          | cons id ids => exact .inr ⟨id, ids, t, _, rfl, rfl, by simp⟩
    · exact .inl ⟨fun triggers => reached triggers.2, by simp [checkOne, reached]⟩
  · exact .inl ⟨fun triggers => same triggers.1, by simp [checkOne, same]⟩

variable (env) in
theorem moves_sendTriggered (tick : TickData) {p : Ptr} (contract : ContractData) (so : StopOrder)
    (trading : (s.objects p).trading = true) :
    Moves env s (sendTriggered env s tick p contract so).2 := by
  unfold sendTriggered sendLimitOrder
  exact moves_sendServerOrder env s p contract _ _ _ _ _ _ _ trading

theorem stopOrders_sendTriggered (env : Environment) (s : CtaEngine) (tick : TickData) (p : Ptr)
    (contract : ContractData) (so : StopOrder) :
    (sendTriggered env s tick p contract so).2.stopOrders = s.stopOrders :=
  stopOrders_sendRequests _ _ _ _

/-- What a visit of a stop order in the book does is acting on behalf of its strategy. -/
theorem moves_checkOne {tick : TickData} {key : AString} {so : StopOrder}
    (guarded : s.Guarded fun _ => False) (stored : s.stopOrders[key]? = some so)
    (visited : checkOne env s tick so = some t) : Moves env s t := by
  obtain ⟨stop, rfl, -, p, registered, trading⟩ := guarded.stops key so stored
  rcases checkOne_cases env s tick so with
    ⟨-, same⟩ | ⟨-, -, threw⟩ | ⟨q, contract, -, owner, -, sent⟩
  · obtain rfl := Option.some.inj (same.symm.trans visited)
    exact .refl
  · simp [threw] at visited
  · obtain rfl := Option.some.inj (registered.symm.trans owner)
    have sends := moves_sendTriggered env tick contract so (trading.resolve_right id)
    have book := stopOrders_sendTriggered env s tick p contract so
    have frame := sends.acts.frame
    rcases sent with ⟨u, eq, same⟩ | ⟨id, ids, u, told, eq, rfl, same⟩
    · obtain rfl := Option.some.inj (same.symm.trans visited)
      simpa [eq] using sends
    · obtain rfl := Option.some.inj (same.symm.trans visited)
      rw [eq] at sends book frame
      exact sends.trans (.head
        (.retire u p _ so { so with status := .triggered, ktOrderids := id :: ids } stop
          (by rw [book]; exact stored) (by rw [frame.strategies]; exact registered) rfl (by simp))
        ((reacts_call env _ _ _).trans (moves_putStopOrderEvent _ _)))

variable (env) in
theorem moves_checkStopOrders (tick : TickData) (n : ℕ) (after : Option AString)
    (guarded : s.Guarded fun _ => False) :
    Moves env s (checkStopOrders env tick n after s).1 := by
  induction n generalizing after s with
  | zero => exact .refl
  | succ n ih =>
    unfold checkStopOrders
    cases next : s.nextStopOrder after with
    | none => exact .refl
    | some entry =>
      obtain ⟨key, so⟩ := entry
      simp only
      cases visited : checkOne env s tick so with
      | none => exact .refl
      | some u =>
        have first := moves_checkOne guarded (nextStopOrder_stored next) visited
        exact first.trans (ih (some key) (first.acts.guarded guarded))

/-! ## The operations -/

/-- Between operations nothing is exempt. -/
abbrev Safe (s : CtaEngine) : Prop := s.Guarded fun _ => False

theorem Safe.processOms (safe : s.Safe) (e : OmsEvent) : (s.processOms env e).Safe :=
  ⟨safe.stops, safe.names, safe.traders, safe.mapped, safe.sends⟩

theorem Safe.processTickEvent (safe : s.Safe) (tick : TickData) :
    (s.processTickEvent env tick).Safe := by
  have ticks : ∀ (strategies : List Ptr) (s : CtaEngine), s.Safe →
      (strategies.foldl (fun s p =>
        if (s.objects p).inited then call env p (.onTick tick) s else s) s).Safe := by
    refine fun strategies s => foldl_invariant _ (P := Safe) fun s p safe => ?_
    exact iteInduction (motive := Safe) (fun _ => safe.call p (.onTick tick)) fun _ => safe
  unfold CtaEngine.processTickEvent
  split
  · exact safe
  · have checked := (moves_checkStopOrders env tick env.passes none safe).acts.guarded safe
    exact iteInduction (motive := Safe) (fun _ => ticks _ _ checked) fun _ => checked

/-- An order id of an exchange can leave a set of ids: it is no stop order's. -/
theorem Guarded.eraseOrderid (guarded : s.Guarded exempt) {id : AString} (name : AString)
    (exchange : isStopOrderid id = false) :
    (s.setOrderids name ((s.orderids name).erase id)).Guarded exempt where
  stops k so stored := by
    obtain ⟨stop, key, mem, owner⟩ := guarded.stops k so stored
    refine ⟨stop, key, mem_group_erase.mpr ⟨mem, ?_⟩, owner⟩
    rintro ⟨-, rfl⟩
    rw [stop] at exchange
    exact absurd exchange (by simp)
  names := guarded.names
  traders := guarded.traders
  mapped := guarded.mapped
  sends := guarded.sends

theorem Safe.processOrderEvent (safe : s.Safe) (order : OrderData) :
    (s.processOrderEvent env order).Safe := by
  unfold CtaEngine.processOrderEvent
  cases owner : s.orderidStrategyMap[order.ktOrderid]? with
  | none => exact safe
  | some p =>
    simp only
    refine Guarded.call ?_ p (.onOrder order)
    have erased : Safe _ :=
      Guarded.eraseOrderid safe (s.objects p).strategyName (safe.mapped _ p owner)
    have kept : (if (s.orderids (s.objects p).strategyName).contains order.ktOrderid ∧
        order.isActive = false then
          s.setOrderids (s.objects p).strategyName
            ((s.orderids (s.objects p).strategyName).erase order.ktOrderid)
        else s).Safe := by
      split
      · exact erased
      · exact safe
    split
    · exact kept.call p _
    · exact kept

theorem Safe.processTradeEvent (safe : s.Safe) (trade : TradeData) :
    (s.processTradeEvent env trade).Safe := by
  unfold CtaEngine.processTradeEvent
  split
  · exact safe
  · have seen : ({ s with ktTradeids := s.ktTradeids.insert trade.ktTradeid } :
        CtaEngine).Safe := ⟨safe.stops, safe.names, safe.traders, safe.mapped, safe.sends⟩
    unfold processNewTrade
    split
    · exact seen
    · rename_i p _
      refine Guarded.emit (Guarded.call ?_ p (.onTrade trade)) (by simp)
      exact seen.updateObject p rfl rfl

theorem Safe.saveSetting (safe : s.Safe) (name : AString) (p : Ptr) (setting : Json.Value) :
    Safe (Handler.state (do
      updateStrategySetting name p setting
      modify (·.putStrategyEvent p)) s) := by
  rcases saveSetting_cases s name setting p with ⟨v, -, eq⟩ | ⟨-, -, eq⟩
  · have saved : (s.saveSetting v).Safe :=
      ⟨safe.stops, safe.names, safe.traders, safe.mapped, safe.sends⟩
    rw [eq]
    exact saved.emit (by simp)
  · rw [eq]
    exact safe

theorem Guarded.register (guarded : s.Guarded exempt) (className : AString) {name : AString}
    (ktSymbol : AString) (unused : ¬s.strategies.contains name = true) :
    (s.register className name ktSymbol).Guarded exempt := by
  have free : ∀ (n : AString) p, s.strategies[n]? = some p → name ≠ n := by
    rintro n p registered rfl
    simp [ExtTreeMap.mem_iff_isSome_getElem?, registered] at unused
  have old : ∀ (n : AString) p, s.strategies[n]? = some p → p ≠ s.nextPtr := fun n p registered =>
    (guarded.names n p registered).2.ne
  constructor
  · intro id so stored
    obtain ⟨stop, key, mem, p, registered, trading⟩ := guarded.stops id so stored
    refine ⟨stop, key, mem, p, ?_, ?_⟩
    · simp [CtaEngine.register, ExtTreeMap.getElem?_insert, free _ p registered, registered]
    · simpa [CtaEngine.register, Function.update_of_ne (old _ p registered)] using trading
  · intro n p registered
    simp only [CtaEngine.register, ExtTreeMap.getElem?_insert] at registered
    split at registered
    · rename_i same
      obtain rfl := Option.some.inj registered
      simpa [CtaEngine.register] using same
    · obtain ⟨named, lt⟩ := guarded.names n p registered
      simp only [CtaEngine.register, Function.update_of_ne (old n p registered)]
      exact ⟨named, Nat.lt_succ_of_lt lt⟩
  · intro p trading
    by_cases new : p = s.nextPtr
    · subst new
      simp [CtaEngine.register] at trading
    · simp only [CtaEngine.register, Function.update_of_ne new] at trading ⊢
      have registered := guarded.traders p trading
      simp [ExtTreeMap.getElem?_insert, free _ p registered, registered]
  · exact guarded.mapped
  · exact guarded.sends

theorem Safe.addStrategy (safe : s.Safe) (className name ktSymbol : AString)
    (setting : Json.Value) :
    ((addStrategy className name ktSymbol setting).state s).Safe := by
  rcases addStrategy_cases s className name ktSymbol setting with ⟨-, msg, eq⟩ | ⟨fresh, eq⟩
  · rw [eq]
    exact safe.writeLog msg none
  · rw [eq]
    have registered : Safe _ :=
      Guarded.register safe className ktSymbol fun used => fresh (.inl used)
    exact registered.saveSetting _ _ _

theorem Safe.initStrategy (safe : s.Safe) (name : AString) : (s.initStrategy env name).Safe := by
  unfold CtaEngine.initStrategy withStrategy
  cases s.strategies[name]? with
  | none => exact safe
  | some p =>
    simp only
    split
    · exact safe.writeLog _ none
    · refine Guarded.writeLog (Guarded.emit (Guarded.updateObject ?_ p rfl rfl) (by simp)) _ none
      have called : (call env p .onInit
          (s.writeLog (name ++ " starts initialization") none)).Safe :=
        (safe.writeLog _ none).call p .onInit
      split
      · exact called.emit (by simp)
      · exact called.writeLog _ none

theorem Safe.startStrategy (safe : s.Safe) (name : AString) : (s.startStrategy env name).Safe := by
  unfold CtaEngine.startStrategy withStrategy
  cases registered : s.strategies[name]? with
  | none => exact safe
  | some p =>
    simp only
    split
    · exact safe.writeLog _ none
    split
    · exact safe.writeLog _ none
    refine Guarded.emit ?_ (by simp)
    have called : (call env p .onStart s).Safe := safe.call p .onStart
    have frame := call_frame env p .onStart s
    have registered' : (call env p .onStart s).strategies[name]? = some p := by
      rw [frame.strategies]
      exact registered
    refine called.update rfl (fun _ => ?_) (fun _ _ _ => Or.inl rfl) fun _ => id
    rw [(called.names name p registered').1]
    exact registered'

/-! ### Stopping a strategy -/

theorem Guarded.weaken {exempt' : AString → Prop} (guarded : s.Guarded exempt)
    (imp : ∀ (id : AString) so, s.stopOrders[id]? = some so → exempt id → exempt' id) :
    s.Guarded exempt' where
  stops id so stored := by
    obtain ⟨stop, key, mem, p, registered, trading⟩ := guarded.stops id so stored
    exact ⟨stop, key, mem, p, registered, trading.imp_right (imp id so stored)⟩
  names := guarded.names
  traders := guarded.traders
  mapped := guarded.mapped
  sends := guarded.sends

/-- One id of the cancel loop: after its turn it needs no exemption any more. -/
theorem guarded_cancelOrder {id : AString} {ids : List AString}
    (guarded : s.Guarded (· ∈ id :: ids)) (p : Ptr) :
    (cancelOrder (call env) s p id).Guarded (· ∈ ids) := by
  unfold cancelOrder
  cases stop : isStopOrderid id with
  | true =>
    simp only [if_true]
    unfold cancelLocalStopOrder
    cases stored : s.stopOrders[id]? with
    | none =>
      refine guarded.weaken fun k so at_k exempt => ?_
      rcases List.mem_cons.mp exempt with rfl | later
      · rw [stored] at at_k
        exact absurd at_k (by simp)
      · exact later
    | some so =>
      obtain ⟨-, -, -, q, registered, -⟩ := guarded.stops id so stored
      simp only [registered]
      refine Guarded.emit (Guarded.call ?_ q _) (by simp)
      refine (guarded.drop q id).weaken fun k so at_k exempt => ?_
      rcases List.mem_cons.mp exempt with rfl | later
      · simp at at_k
      · exact later
  | false =>
    simp only [Bool.false_eq_true, if_false]
    refine (moves_cancelServerOrder env s p id).acts.guarded ?_
    refine guarded.weaken fun k so at_k exempt => ?_
    rcases List.mem_cons.mp exempt with rfl | later
    · have other := (guarded.stops k so at_k).1
      rw [stop] at other
      exact absurd other (by simp)
    · exact later

theorem safe_foldl_cancelOrder (p : Ptr) (ids : List AString)
    (guarded : s.Guarded (· ∈ ids)) :
    (ids.foldl (fun s id => cancelOrder (call env) s p id) s).Safe := by
  induction ids generalizing s with
  | nil => exact guarded.weaken fun _ _ _ none => by simp at none
  | cons id ids ih => exact ih (guarded_cancelOrder guarded p)

/-- A strategy that stops trading leaves only stop orders behind that are among its ids. -/
theorem Safe.stopTrading (safe : s.Safe) (p : Ptr) :
    (s.updateObject p ({ · with trading := false })).Guarded
      (· ∈ ((s.updateObject p ({ · with trading := false })).orderids
        ((s.updateObject p ({ · with trading := false })).objects p).strategyName).toList) := by
  have name : ((s.updateObject p ({ · with trading := false })).objects p).strategyName =
      (s.objects p).strategyName := by
    simp [updateObject]
  rw [name]
  refine safe.update rfl (fun trades => ?_) (fun id mem _ => Or.inr ?_) fun _ no => no.elim
  · exact absurd trades Bool.false_ne_true
  · exact ExtTreeSet.mem_toList.mpr mem

variable (env) in
theorem Safe.stopStrategy (safe : s.Safe) (name : AString) : (s.stopStrategy env name).Safe := by
  unfold CtaEngine.stopStrategy withStrategy
  cases s.strategies[name]? with
  | none => exact safe
  | some p =>
    refine iteInduction (motive := Safe) (fun _ => ?_) fun _ => safe
    refine Guarded.emit ?_ (by simp)
    have called : (call env p .onStop s).Safe := safe.call p .onStop
    exact safe_foldl_cancelOrder p _ (called.stopTrading p)

/-! ### The other operations -/

theorem Safe.editStrategy (safe : s.Safe) (name : AString) (setting : Json.Value) :
    (s.editStrategy name setting).Safe := by
  unfold CtaEngine.editStrategy withStrategy
  cases s.strategies[name]? with
  | none => exact safe
  | some p => exact safe.saveSetting name p setting

theorem Safe.removeStrategy (safe : s.Safe) (name : AString) : (s.removeStrategy name).Safe := by
  unfold CtaEngine.removeStrategy withStrategy
  rw [removeStrategySetting_eq]
  cases removed : s.strategies[name]? with
  | none => exact safe
  | some p =>
    refine iteInduction (motive := Safe) (fun _ => safe.writeLog _ none) fun idle => ?_
    have busy : ∀ (n : AString) q, s.strategies[n]? = some q → (s.objects q).trading = true →
        name ≠ n := by
      rintro n q registered trading rfl
      obtain rfl := Option.some.inj (removed.symm.trans registered)
      exact idle trading
    constructor
    · intro id so stored
      obtain ⟨stop, key, mem, q, registered, owner⟩ := safe.stops id so stored
      have trading := owner.resolve_right fun none => none
      have other := busy _ q registered trading
      refine ⟨stop, key, mem_group_forget.mpr ⟨mem, other⟩, q, ?_, Or.inl trading⟩
      simpa [ExtTreeMap.getElem?_erase, other] using registered
    · intro n q registered
      simp only [ExtTreeMap.getElem?_erase] at registered
      split at registered
      · exact absurd registered (by simp)
      · exact safe.names n q registered
    · intro q trading
      have registered := safe.traders q trading
      simpa [ExtTreeMap.getElem?_erase, busy _ q registered trading] using registered
    · intro id q stored
      rw [getElem?_foldl_erase] at stored
      exact safe.mapped id q (by grind)
    · exact safe.sends

theorem Safe.step (safe : s.Safe) (op : Op) : (s.step env op).Safe := by
  cases op with
  | contract c => exact safe.processOms _
  | position p => exact safe.processOms _
  | order o => exact (safe.processOms _).processOrderEvent o
  | trade t => exact (safe.processOms _).processTradeEvent t
  | tick t => exact (safe.processOms _).processTickEvent t
  | addStrategy className name ktSymbol setting => exact safe.addStrategy _ _ _ _
  | initStrategy name => exact safe.initStrategy name
  | startStrategy name => exact safe.startStrategy name
  | stopStrategy name => exact safe.stopStrategy _ name
  | editStrategy name setting => exact safe.editStrategy name setting
  | removeStrategy name => exact safe.removeStrategy name

theorem safe_init (classes : ExtTreeSet AString) : ({ classes } : CtaEngine).Safe where
  stops := by simp
  names := by simp
  traders := by simp
  mapped := by simp
  sends := by simp

variable (env) in
theorem safe_run (classes : ExtTreeSet AString) (ops : List Op) : (run env classes ops).Safe :=
  foldl_invariant (step env) (fun _ op safe => safe.step op) (safe_init classes)

/-- Whatever the strategies do, every order that reaches an exchange is sent for a strategy
that is trading, and between operations every stop order in the book belongs to a registered
strategy that is trading. -/
theorem orders_only_while_trading (env : Environment) (classes : ExtTreeSet AString)
    (ops : List Op) :
    (∀ p trading req exchangeName ktOrderid,
      .sendOrder p trading req exchangeName ktOrderid ∈ (run env classes ops).trace →
        trading = true) ∧
    ∀ (stopOrderid : AString) stopOrder,
      (run env classes ops).stopOrders[stopOrderid]? = some stopOrder →
      ∃ p, (run env classes ops).strategies[stopOrder.strategyName]? = some p ∧
        ((run env classes ops).objects p).trading = true := by
  have safe := safe_run env classes ops
  refine ⟨safe.sends, ?_⟩
  intro id so stored
  obtain ⟨-, -, -, p, registered, trading⟩ := safe.stops id so stored
  exact ⟨p, registered, trading.resolve_right fun none => none⟩

end CtaEngine

end KeenTrader.App
