import KeenTrader.App.CtaEngine

/-!
# What a strategy can do

The calls of a strategy, with all that is called back from within them, are chains of eight
small actions. Only trading strategies send orders and place stop orders. What an action
changes and what it leaves alone is said once, here. The chains are those of the moves, in which
a stop order is placed or dropped and its strategy told of it in one go.
-/

namespace KeenTrader.App

open Std (ExtTreeMap ExtTreeSet)
open Containers KeenTrader.Engine

namespace CtaEngine

inductive Action (env : Environment) : CtaEngine → CtaEngine → Prop
  | log (s : CtaEngine) (msg : AString) : Action env s (s.emit (.log msg))
  | callback (s : CtaEngine) (p : Ptr) (stopOrder : StopOrder) :
    Action env s (s.emit (.callback p (.onStopOrder stopOrder)))
  | stopOrderEvent (s : CtaEngine) (stopOrder : StopOrder) :
    Action env s (s.emit (.stopOrderEvent stopOrder))
  | convert (s : CtaEngine) (req : OrderRequest) (exchangeName : AString) (lock net : Bool) :
    Action env s
      { s with oms := (s.oms.boundConvertOrderRequest req exchangeName lock net).2 }
  | send (s : CtaEngine) (p : Ptr) (req : OrderRequest) (exchangeName : AString)
    (trading : (s.objects p).trading = true) : Action env s (sendRequest env s p req exchangeName).2
  | cancel (s : CtaEngine) (ktOrderid : AString) (order : OrderData)
    (found : s.oms.getOrder ktOrderid = some order) :
    Action env s (s.emit (.cancelOrder order.createCancelRequest order.exchangeName))
  | place (s : CtaEngine) (p : Ptr) (stopOrder : StopOrder)
    (trading : (s.objects p).trading = true)
    (owner : stopOrder.strategyName = (s.objects p).strategyName)
    (stop : isStopOrderid stopOrder.stopOrderid = true) :
    Action env s (s.placeStopOrder p stopOrder)
  | drop (s : CtaEngine) (p : Ptr) (stopOrderid : AString) (stopOrder : StopOrder)
    (stop : isStopOrderid stopOrderid = true)
    (found : s.stopOrders[stopOrderid]? = some stopOrder)
    (owner : s.strategies[stopOrder.strategyName]? = some p) :
    Action env s (s.dropStopOrder p stopOrderid)

abbrev Acts (env : Environment) : CtaEngine → CtaEngine → Prop :=
  Relation.ReflTransGen (Action env)

variable {env : Environment} {s t : CtaEngine}

/-! ## What actions leave alone -/

variable (env) in
theorem sendRequest_cases (s : CtaEngine) (p : Ptr) (req : OrderRequest) (exchangeName : AString) :
    (env.accept s req exchangeName = none ∧ sendRequest env s p req exchangeName =
        (none, s.emit (.sendOrder p (s.objects p).trading req exchangeName none))) ∨
    ∃ orderid, env.accept s req exchangeName = some orderid ∧
      sendRequest env s p req exchangeName =
        (some (exchangeName ++ "." ++ orderid),
          { s with
            oms := s.oms.updateOrderRequest env.enum req (exchangeName ++ "." ++ orderid)
              exchangeName
            orderidStrategyMap := s.orderidStrategyMap.insert (exchangeName ++ "." ++ orderid) p
            strategyOrderidMap := s.strategyOrderidMap.insert (s.objects p).strategyName
              ((s.orderids (s.objects p).strategyName).insert (exchangeName ++ "." ++ orderid))
            trace := s.trace ++ [.sendOrder p (s.objects p).trading req exchangeName
              (some (exchangeName ++ "." ++ orderid))] }) := by
  unfold sendRequest
  cases answer : env.accept s req exchangeName with
  | none => exact Or.inl ⟨rfl, rfl⟩
  | some orderid => exact Or.inr ⟨orderid, rfl, rfl⟩

/-- What stays fixed while strategies act. -/
structure Frame (s t : CtaEngine) : Prop where
  objects : t.objects = s.objects
  nextPtr : t.nextPtr = s.nextPtr
  strategies : t.strategies = s.strategies
  symbolStrategyMap : t.symbolStrategyMap = s.symbolStrategyMap
  ktTradeids : t.ktTradeids = s.ktTradeids
  orders : t.oms.orders = s.oms.orders

theorem Frame.refl (s : CtaEngine) : Frame s s := ⟨rfl, rfl, rfl, rfl, rfl, rfl⟩

theorem Frame.trans {u : CtaEngine} (first : Frame s t) (second : Frame t u) : Frame s u where
  objects := second.objects.trans first.objects
  nextPtr := second.nextPtr.trans first.nextPtr
  strategies := second.strategies.trans first.strategies
  symbolStrategyMap := second.symbolStrategyMap.trans first.symbolStrategyMap
  ktTradeids := second.ktTradeids.trans first.ktTradeids
  orders := second.orders.trans first.orders

theorem frame_emit (s : CtaEngine) (e : Effect) : Frame s (s.emit e) :=
  ⟨rfl, rfl, rfl, rfl, rfl, rfl⟩

theorem orders_modifyConverter (oms : OmsEngine) (exchangeName : AString)
    (f : OffsetConverter → OffsetConverter) :
    (oms.modifyConverter exchangeName f).orders = oms.orders := by
  unfold OmsEngine.modifyConverter
  split <;> rfl

theorem orders_convertOrderRequest (oms : OmsEngine) (req : OrderRequest)
    (exchangeName : AString) (lock net : Bool) :
    (oms.convertOrderRequest req exchangeName lock net).2.orders = oms.orders := by
  unfold OmsEngine.convertOrderRequest
  split <;> rfl

theorem Action.frame (action : Action env s t) : Frame s t := by
  cases action with
  | log msg => exact frame_emit s _
  | callback p stopOrder => exact frame_emit s _
  | stopOrderEvent stopOrder => exact frame_emit s _
  | cancel ktOrderid order found => exact frame_emit s _
  | place p stopOrder trading owner stop => exact ⟨rfl, rfl, rfl, rfl, rfl, rfl⟩
  | drop p stopOrderid stopOrder stop found owner => exact ⟨rfl, rfl, rfl, rfl, rfl, rfl⟩
  | convert req exchangeName lock net =>
    exact { Frame.refl s with orders := orders_convertOrderRequest _ _ _ _ _ }
  | send p req exchangeName trading =>
    rcases sendRequest_cases env s p req exchangeName with
      ⟨-, eq⟩ | ⟨orderid, -, eq⟩
    · rw [eq]
      exact frame_emit s _
    · rw [eq]
      exact { Frame.refl s with orders := orders_modifyConverter _ _ _ }

theorem Acts.frame (acts : Acts env s t) : Frame s t := by
  induction acts with
  | refl => exact Frame.refl s
  | tail _ action ih => exact ih.trans action.frame

/-- What every action preserves, a chain of actions preserves. -/
theorem Acts.invariant {P : CtaEngine → Prop} (acts : Acts env s t)
    (preserved : ∀ {s t}, Action env s t → P s → P t) (start : P s) : P t := by
  induction acts with
  | refl => exact start
  | tail _ action ih => exact preserved action ih

/-! ## What actions add -/

/-- The trades that strategies have been told of. -/
def onTrades (trace : List Effect) : List (Ptr × TradeData) :=
  trace.filterMap fun
    | .callback p (.onTrade t) => some (p, t)
    | _ => none

theorem onTrades_append (first second : List Effect) :
    onTrades (first ++ second) = onTrades first ++ onTrades second :=
  List.filterMap_append

/-- An order id of an exchange that some order was given. -/
def Given (new : List Effect) (p : Ptr) (ktOrderid : AString) : Prop :=
  ∃ trading req exchangeName, .sendOrder p trading req exchangeName (some ktOrderid) ∈ new

theorem given_append {first second : List Effect} {p : Ptr} {ktOrderid : AString} :
    Given (first ++ second) p ktOrderid ↔ Given first p ktOrderid ∨ Given second p ktOrderid := by
  unfold Given
  constructor
  · rintro ⟨trading, req, name, mem⟩
    rcases List.mem_append.mp mem with mem | mem
    · exact Or.inl ⟨trading, req, name, mem⟩
    · exact Or.inr ⟨trading, req, name, mem⟩
  · rintro (⟨trading, req, name, mem⟩ | ⟨trading, req, name, mem⟩)
    · exact ⟨trading, req, name, List.mem_append_left _ mem⟩
    · exact ⟨trading, req, name, List.mem_append_right _ mem⟩

/-- What happens between two states, told by what is added to the trace: an id keeps its
strategy unless it is given again, the exchange ids of a strategy grow by those it is given, only
orders known to the order management engine are cancelled, and no trade is reported. -/
structure Progress (s t : CtaEngine) (new : List Effect) : Prop where
  trace : t.trace = s.trace ++ new
  mapped : ∀ (id : AString) p, s.orderidStrategyMap[id]? = some p → (∀ q, ¬Given new q id) →
    t.orderidStrategyMap[id]? = some p
  orderids : ∀ name id, isStopOrderid id = false →
    (id ∈ t.orderids name ↔
      id ∈ s.orderids name ∨ ∃ p, Given new p id ∧ (s.objects p).strategyName = name)
  cancels : ∀ req exchangeName, .cancelOrder req exchangeName ∈ new →
    ∃ (id : AString) (order : OrderData), s.oms.orders[id]? = some order ∧
      req = order.createCancelRequest ∧ exchangeName = order.exchangeName
  trades : onTrades new = []

theorem Progress.refl (s : CtaEngine) : Progress s s [] where
  trace := by simp
  mapped id p stored _ := stored
  orderids name id _ := by simp [Given]
  cancels := by simp
  trades := rfl

theorem Progress.trans {u : CtaEngine} {first second : List Effect} (h : Progress s t first)
    (frame : Frame s t) (h' : Progress t u second) : Progress s u (first ++ second) where
  trace := by rw [h'.trace, h.trace, List.append_assoc]
  mapped id p stored again := by
    refine h'.mapped id p (h.mapped id p stored ?_) ?_
    · exact fun q given => again q (given_append.mpr (Or.inl given))
    · exact fun q given => again q (given_append.mpr (Or.inr given))
  orderids name id exchange := by
    rw [h'.orderids name id exchange, h.orderids name id exchange, frame.objects, or_assoc]
    constructor
    · rintro (mem | ⟨p, given, named⟩ | ⟨p, given, named⟩)
      · exact Or.inl mem
      · exact Or.inr ⟨p, given_append.mpr (Or.inl given), named⟩
      · exact Or.inr ⟨p, given_append.mpr (Or.inr given), named⟩
    · rintro (mem | ⟨p, given, named⟩)
      · exact Or.inl mem
      · rcases given_append.mp given with given | given
        · exact Or.inr (Or.inl ⟨p, given, named⟩)
        · exact Or.inr (Or.inr ⟨p, given, named⟩)
  cancels req exchangeName mem := by
    rcases List.mem_append.mp mem with mem | mem
    · exact h.cancels req exchangeName mem
    · rw [← frame.orders]
      exact h'.cancels req exchangeName mem
  trades := by rw [onTrades_append, h.trades, h'.trades]; rfl

/-- Emitting something that is no order, no cancellation and no trade. -/
theorem progress_emit (s : CtaEngine) {e : Effect}
    (order : ∀ p trading req exchangeName ktOrderid,
      e ≠ .sendOrder p trading req exchangeName ktOrderid)
    (cancel : ∀ req exchangeName, e ≠ .cancelOrder req exchangeName)
    (trade : onTrades [e] = []) : Progress s (s.emit e) [e] where
  trace := rfl
  mapped id p stored _ := stored
  orderids name id _ := by
    constructor
    · exact Or.inl
    · rintro (mem | ⟨p, ⟨trading, req, exchangeName, mem⟩, -⟩)
      · exact mem
      · exact absurd (List.mem_singleton.mp mem).symm (order _ _ _ _ _)
  cancels req exchangeName mem :=
    absurd (List.mem_singleton.mp mem).symm (cancel req exchangeName)
  trades := trade

theorem progress_send (s : CtaEngine) (p : Ptr) (req : OrderRequest) (exchangeName : AString) :
    ∃ new, Progress s (sendRequest env s p req exchangeName).2 new := by
  rcases sendRequest_cases env s p req exchangeName with ⟨-, eq⟩ | ⟨orderid, -, eq⟩
  · rw [eq]
    refine ⟨[_], rfl, fun id q stored _ => stored, fun name id _ => ?_, by simp, rfl⟩
    constructor
    · exact Or.inl
    · rintro (mem | ⟨q, ⟨trading, req', name', mem⟩, -⟩)
      · exact mem
      · simp at mem
  · rw [eq]
    set id := exchangeName ++ "." ++ orderid
    set effect := Effect.sendOrder p (s.objects p).trading req exchangeName (some id)
    have given : ∀ q k, Given [effect] q k ↔ q = p ∧ k = id := by
      intro q k
      simp [Given, effect, eq_comm]
    refine ⟨[effect], rfl, ?_, ?_, by simp [effect], rfl⟩
    · intro k q stored again
      have other : ¬id = k := fun same => again p ((given p k).mpr ⟨rfl, same.symm⟩)
      simpa [ExtTreeMap.getElem?_insert, other] using stored
    · intro name k _
      refine mem_group_insert.trans (or_congr_right ?_)
      simp [given, eq_comm, and_comm]

theorem Action.progress (action : Action env s t) : ∃ new, Progress s t new := by
  cases action with
  | log msg => exact ⟨_, progress_emit s (by simp) (by simp) rfl⟩
  | callback p stopOrder => exact ⟨_, progress_emit s (by simp) (by simp) rfl⟩
  | stopOrderEvent stopOrder => exact ⟨_, progress_emit s (by simp) (by simp) rfl⟩
  | cancel ktOrderid order found =>
    refine ⟨[_], rfl, fun id q stored _ => stored, fun name id _ => ?_, ?_, rfl⟩
    · simp [Given, emit, orderids]
    · intro req exchangeName mem
      obtain ⟨rfl, rfl⟩ := Effect.cancelOrder.inj (List.mem_singleton.mp mem)
      exact ⟨ktOrderid, order, found, rfl, rfl⟩
  | convert req exchangeName lock net =>
    have same := Progress.refl s
    exact ⟨[], same.trace, same.mapped, same.orderids, same.cancels, same.trades⟩
  | send p req exchangeName trading => exact progress_send s p req exchangeName
  | place p stopOrder trading owner stop =>
    refine ⟨[], by simp, fun id q stored _ => stored, ?_,
      by simp, rfl⟩
    intro name id exchange
    have other : ¬stopOrder.stopOrderid = id := by
      rintro rfl
      rw [stop] at exchange
      exact absurd exchange (by simp)
    refine mem_group_insert.trans ?_
    simp [orderids, Given, other]
  | drop p stopOrderid stopOrder stop found owner =>
    refine ⟨[], by simp, fun id q stored _ => stored, ?_,
      by simp, rfl⟩
    intro name id exchange
    have other : ¬stopOrderid = id := by
      rintro rfl
      rw [stop] at exchange
      exact absurd exchange (by simp)
    refine mem_group_erase.trans ?_
    simp [orderids, Given, other]

theorem Acts.progress (acts : Acts env s t) : ∃ new, Progress s t new := by
  induction acts with
  | refl => exact ⟨[], Progress.refl s⟩
  | tail acts action ih =>
    obtain ⟨first, before⟩ := ih
    obtain ⟨second, after⟩ := action.progress
    exact ⟨first ++ second, before.trans (Acts.frame acts) after⟩

/-! ## The engine's functions as chains of moves -/

/-- The stop order that an effect tells its strategy of, if it is a local one. -/
def notice : Effect → Option StopOrder
  | .callback _ (.onStopOrder so) => if isStopOrderid so.stopOrderid then some so else none
  | _ => none

/-- The actions in the order in which the engine takes them: a strategy is told of its stop order
as soon as it is placed, and as soon as it is dropped. -/
inductive Move (env : Environment) : CtaEngine → CtaEngine → Prop
  | quiet (s : CtaEngine) (e : Effect) (action : Action env s (s.emit e))
    (silent : notice e = none) : Move env s (s.emit e)
  | convert (s : CtaEngine) (req : OrderRequest) (exchangeName : AString) (lock net : Bool) :
    Move env s
      { s with oms := (s.oms.boundConvertOrderRequest req exchangeName lock net).2 }
  | send (s : CtaEngine) (p : Ptr) (req : OrderRequest) (exchangeName : AString)
    (trading : (s.objects p).trading = true) : Move env s (sendRequest env s p req exchangeName).2
  | issue (s : CtaEngine) (p : Ptr) (so : StopOrder)
    (trading : (s.objects p).trading = true)
    (owner : so.strategyName = (s.objects p).strategyName)
    (id : so.stopOrderid = "STOP" ++ "." ++ toString (s.stopOrderCount + 1))
    (status : so.status = .waiting) :
    Move env s ((s.placeStopOrder p so).emit (.callback p (.onStopOrder so)))
  | retire (s : CtaEngine) (p : Ptr) (stopOrderid : AString) (so told : StopOrder)
    (stop : isStopOrderid stopOrderid = true)
    (found : s.stopOrders[stopOrderid]? = some so)
    (owner : s.strategies[so.strategyName]? = some p)
    (id : told.stopOrderid = so.stopOrderid) (status : told.status ≠ .waiting) :
    Move env s ((s.dropStopOrder p stopOrderid).emit (.callback p (.onStopOrder told)))

abbrev Moves (env : Environment) : CtaEngine → CtaEngine → Prop :=
  Relation.ReflTransGen (Move env)

theorem Move.acts (move : Move env s t) : Acts env s t := by
  cases move with
  | quiet e action silent => exact .single action
  | convert req exchangeName lock net => exact .single (.convert s req exchangeName lock net)
  | send p req exchangeName trading => exact .single (.send s p req exchangeName trading)
  | issue p so trading owner id status =>
    have stop : isStopOrderid so.stopOrderid = true := by rw [id]; exact isStopOrderid_local _
    exact .tail (.single (.place s p so trading owner stop)) (.callback _ p so)
  | retire p stopOrderid so told stop found owner id status =>
    exact .tail (.single (.drop s p stopOrderid so stop found owner)) (.callback _ p told)

theorem Moves.acts (moves : Moves env s t) : Acts env s t := by
  induction moves with
  | refl => exact .refl
  | tail _ move ih => exact ih.trans move.acts

/-- A runner through which a strategy that hears of a stop order does nothing but act. -/
def Reacts (env : Environment) (call : Runner) : Prop :=
  ∀ p so s, Moves env (s.emit (.callback p (.onStopOrder so))) (call p (.onStopOrder so) s)

theorem moves_writeLog (s : CtaEngine) (msg : AString) (strategy : Option Ptr) :
    Moves env s (s.writeLog msg strategy) := by
  cases strategy <;> exact .single (.quiet s _ (.log s _) rfl)

theorem moves_putStopOrderEvent (s : CtaEngine) (so : StopOrder) :
    Moves env s (s.putStopOrderEvent so) :=
  .single (.quiet s _ (.stopOrderEvent s so) rfl)

theorem moves_sendRequests (p : Ptr) (exchangeName : AString) (reqs : List OrderRequest)
    (s : CtaEngine) (trading : (s.objects p).trading = true) :
    Moves env s (sendRequests env p exchangeName reqs s).2 := by
  induction reqs generalizing s with
  | nil => exact .refl
  | cons req reqs ih =>
    have first : Move env s _ := Move.send s p req exchangeName trading
    exact .head first (ih _ (by rw [first.acts.frame.objects]; exact trading))

variable (env) in
theorem moves_sendServerOrder (s : CtaEngine) (p : Ptr) (contract : ContractData)
    (direction : Direction) (offset : Offset) (price volume : ℚ) (type : Engine.OrderType)
    (lock net : Bool) (trading : (s.objects p).trading = true) :
    Moves env s
      (sendServerOrder env s p contract direction offset price volume type lock net).2 := by
  unfold sendServerOrder
  generalize ({ symbol := contract.symbol, exchange := contract.exchange, direction, type
                volume, price, offset, reference := _ } : OrderRequest) = req
  have convert : Move env s _ := Move.convert s req contract.exchangeName lock net
  exact .head convert (moves_sendRequests p contract.exchangeName _ _ trading)

variable (env) in
theorem moves_cancelServerOrder (s : CtaEngine) (p : Ptr) (ktOrderid : AString) :
    Moves env s (s.cancelServerOrder p ktOrderid) := by
  unfold cancelServerOrder
  cases found : s.oms.getOrder ktOrderid with
  | none => exact moves_writeLog s _ _
  | some order => exact .single (.quiet s _ (.cancel s ktOrderid order found) rfl)

section Runners
variable {call : Runner} (reacts : Reacts env call)
include reacts

theorem moves_sendLocalStopOrder (s : CtaEngine) (p : Ptr) (direction : Direction)
    (offset : Offset) (price volume : ℚ) (lock net : Bool)
    (trading : (s.objects p).trading = true) :
    Moves env s (sendLocalStopOrder call s p direction offset price volume lock net).2 :=
  .head (.issue s p _ trading rfl rfl rfl)
    ((reacts _ _ _).trans (moves_putStopOrderEvent _ _))

theorem moves_cancelLocalStopOrder (s : CtaEngine) {stopOrderid : AString}
    (stop : isStopOrderid stopOrderid = true) :
    Moves env s (cancelLocalStopOrder call s stopOrderid) := by
  unfold cancelLocalStopOrder
  cases found : s.stopOrders[stopOrderid]? with
  | none => exact .refl
  | some so =>
    simp only
    cases owner : s.strategies[so.strategyName]? with
    | none => exact .refl
    | some p =>
      exact .head (.retire s p stopOrderid so { so with status := .cancelled } stop found owner rfl
        (by simp)) ((reacts _ _ _).trans (moves_putStopOrderEvent _ _))

theorem moves_cancelOrder (s : CtaEngine) (p : Ptr) (ktOrderid : AString) :
    Moves env s (cancelOrder call s p ktOrderid) := by
  unfold cancelOrder
  split
  · rename_i stop
    exact moves_cancelLocalStopOrder reacts s stop
  · exact moves_cancelServerOrder _ s p ktOrderid

theorem moves_foldl_cancelOrder (p : Ptr) (ids : List AString) (s : CtaEngine) :
    Moves env s (ids.foldl (fun s id => cancelOrder call s p id) s) := by
  exact Runs.foldl_relation _ (R := Moves env) (fun _ => .refl) .trans
    fun s id => moves_cancelOrder reacts s p id

theorem moves_sendOrder (s : CtaEngine) (p : Ptr) (direction : Direction) (offset : Offset)
    (price volume : ℚ) (stop lock net : Bool) (trading : (s.objects p).trading = true) :
    Moves env s (sendOrder env call s p direction offset price volume stop lock net).2 := by
  unfold sendOrder
  cases s.oms.getContract (s.objects p).ktSymbol with
  | none => exact moves_writeLog s _ (some p)
  | some contract =>
    simp only
    split
    · split
      · exact moves_sendServerOrder _ s p contract _ _ _ _ _ _ _ trading
      · exact moves_sendLocalStopOrder reacts s p _ _ _ _ _ _ trading
    · exact moves_sendServerOrder _ s p contract _ _ _ _ _ _ _ trading

theorem moves_templateCall (s : CtaEngine) (p : Ptr) (c : TemplateCall) :
    Moves env s (templateCall env call s p c) := by
  unfold templateCall
  split
  · rename_i trading
    cases c with
    | sendOrder direction offset price volume stop lock net =>
      exact moves_sendOrder reacts s p _ _ _ _ _ _ _ trading
    | cancelOrder ktOrderid => exact moves_cancelOrder reacts s p ktOrderid
    | cancelAll => exact moves_foldl_cancelOrder reacts p _ s
  · exact .refl

theorem moves_foldl_templateCall (p : Ptr) (calls : List TemplateCall) (s : CtaEngine) :
    Moves env s (calls.foldl (fun s c => templateCall env call s p c) s) := by
  exact Runs.foldl_relation _ (R := Moves env) (fun _ => .refl) .trans
    fun s c => moves_templateCall reacts s p c

end Runners

/-- Whatever is called back, the strategy does nothing but act. -/
theorem moves_callback (n : ℕ) (p : Ptr) (cb : Callback) (s : CtaEngine) :
    Moves env (s.emit (.callback p cb)) (callback env n p cb s) := by
  induction n generalizing p cb s with
  | zero => exact .refl
  | succ n ih =>
    have reacts : Reacts env (callback env n) := fun p so s => ih p (.onStopOrder so) s
    exact moves_foldl_templateCall reacts p (env.react (s.emit (.callback p cb)) p cb) _

variable (env) in
theorem moves_call (p : Ptr) (cb : Callback) (s : CtaEngine) :
    Moves env (s.emit (.callback p cb)) (call env p cb s) :=
  moves_callback env.depth p cb s

theorem reacts_call (env : Environment) : Reacts env (call env) := fun p so s =>
  moves_call env p (.onStopOrder so) s

theorem call_frame (env : Environment) (p : Ptr) (cb : Callback) (s : CtaEngine) :
    Frame s (call env p cb s) :=
  (frame_emit s _).trans (moves_call _ p cb s).acts.frame

end CtaEngine

end KeenTrader.App
