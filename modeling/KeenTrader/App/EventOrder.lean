import KeenTrader.Engine.EventEmitter
import KeenTrader.App.Stopping

/-!
# Which engine sees an event first

Ticks, orders and trades go to the order management engine and to the strategy engine. Both
handlers are entries of a multimap under one key, and nothing but the container decides which of
them is called first. `place` is that decision: the position at which a new handler is put among
those of its type.
-/

namespace KeenTrader.App

open Std (ExtTreeMap ExtTreeSet)
open Containers Runs KeenTrader.Engine

/-- The class of the engine whose member function is bound. There is one engine of each. -/
inductive EngineClass where
  | oms | cta
  deriving DecidableEq

abbrev EngineHandler := HandlerType EngineClass Unit

def omsHandler : EngineHandler := ⟨.oms, ()⟩
def ctaHandler : EngineHandler := ⟨.cta, ()⟩

abbrev Emitter := EventEmitter OmsEvent EngineClass Unit

/-- The type under which an event is put. -/
def eventType : OmsEvent → AString
  | .tick _ => "eTick."
  | .order _ => "eOrder."
  | .trade _ => "eTrade."
  | .position _ => "ePosition."
  | .account _ => "eAccount."
  | .contract _ => "eContract."
  | .quote _ => "eQuote."

section Registering
variable (place : EngineClass → AString → ℕ)

/-- `OmsEngine::register_event`. -/
def registerOms (emitter : Emitter) : Emitter :=
  ["eTick.", "eOrder.", "eTrade.", "ePosition.", "eAccount.", "eContract.", "eQuote."].foldl
    (fun emitter type => emitter.register type omsHandler (place .oms type)) emitter

/-- `CtaEngine::register_event`. -/
def registerCta (emitter : Emitter) : Emitter :=
  ["eTick.", "eOrder.", "eTrade."].foldl
    (fun emitter type => emitter.register type ctaHandler (place .cta type)) emitter

/-- The emitter after both engines have registered, the order management engine first. -/
def emitter : Emitter := registerCta place (registerOms place {})

/-- The container puts the strategy engine behind the order management engine for every type of
event that both receive. -/
def OmsFirst : Prop :=
  ∀ type ∈ ["eTick.", "eOrder.", "eTrade."],
    (emitter place).handlers type = [omsHandler, ctaHandler]

end Registering

namespace CtaEngine

/-- The event that an operation delivers. -/
def Op.event? : Op → Option OmsEvent
  | .contract c => some (.contract c)
  | .position p => some (.position p)
  | .order o => some (.order o)
  | .trade t => some (.trade t)
  | .tick t => some (.tick t)
  | _ => none

section Delivery
variable (env : Environment) (place : EngineClass → AString → ℕ)

/-- A call of one handler. -/
def handle (e : OmsEvent) (s : CtaEngine) (h : EngineHandler) : CtaEngine :=
  match h.callable, e with
  | .oms, e => s.processOms env e
  | .cta, .tick t => s.processTickEvent env t
  | .cta, .order o => s.processOrderEvent env o
  | .cta, .trade t => s.processTradeEvent env t
  | .cta, _ => s

/-- An operation, its event delivered in the order of the container. -/
def deliver (s : CtaEngine) (op : Op) : CtaEngine :=
  match op.event? with
  | some e => ((emitter place).process ⟨eventType e, e⟩).foldl (handle env e) s
  | none => s.step env op

end Delivery

/-! ## What a strategy can ask -/

/-- What the queries of the order management engine answer includes the event. -/
def Includes (s : CtaEngine) : OmsEvent → Prop
  | .tick t => s.oms.getTick t.ktSymbol = some t
  | .order o => s.oms.getOrder o.ktOrderid = some o ∧
      s.oms.activeOrders[o.ktOrderid]? = if o.isActive then some o else none
  | .trade t => s.oms.getTrade t.ktTradeid = some t
  | _ => True

/-- A change inside a handler: an action of a strategy that is called back, or one that leaves the
order management engine alone, as a callback itself does. -/
inductive Stage (env : Environment) : CtaEngine → CtaEngine → Prop
  | action {s t : CtaEngine} (action : Action env s t) : Stage env s t
  | own {s t : CtaEngine} (oms : t.oms = s.oms) : Stage env s t

abbrev Stages (env : Environment) : CtaEngine → CtaEngine → Prop :=
  Relation.ReflTransGen (Stage env)

/-- Some strategy is called back between the two states. -/
def CallsBack (s t : CtaEngine) : Prop := ∃ p cb, .callback p cb ∈ since s t

/-- If the strategy engine calls strategies back for the event of an operation, then its handler
passes through stages only, and the event is included from the first of them on. -/
def Informed (env : Environment) (place : EngineClass → AString → ℕ) (s : CtaEngine) (op : Op) :
    Prop :=
  ∀ e, op.event? = some e → ∀ before after,
    (emitter place).process ⟨eventType e, e⟩ = before ++ ctaHandler :: after →
      CallsBack (before.foldl (handle env e) s)
        (handle env e (before.foldl (handle env e) s) ctaHandler) →
      Stages env (before.foldl (handle env e) s)
          (handle env e (before.foldl (handle env e) s) ctaHandler) ∧
        ∀ t, Stages env (before.foldl (handle env e) s) t → t.Includes e

variable {env : Environment} {place : EngineClass → AString → ℕ} {s t : CtaEngine} {op : Op}

/-- Nothing inside a handler changes what the queries answer. -/
structure SameAnswers (s t : CtaEngine) : Prop where
  ticks : t.oms.ticks = s.oms.ticks
  orders : t.oms.orders = s.oms.orders
  trades : t.oms.trades = s.oms.trades
  activeOrders : t.oms.activeOrders = s.oms.activeOrders

theorem SameAnswers.of_oms (oms : t.oms = s.oms) : SameAnswers s t := by
  constructor <;> rw [oms]

theorem SameAnswers.trans {u : CtaEngine} (first : SameAnswers s t) (second : SameAnswers t u) :
    SameAnswers s u where
  ticks := second.ticks.trans first.ticks
  orders := second.orders.trans first.orders
  trades := second.trades.trans first.trades
  activeOrders := second.activeOrders.trans first.activeOrders

theorem SameAnswers.includes (same : SameAnswers s t) {e : OmsEvent} (included : s.Includes e) :
    t.Includes e := by
  cases e with
  | tick tick =>
    simp only [Includes, OmsEngine.getTick, same.ticks] at included ⊢
    exact included
  | order o =>
    simp only [Includes, OmsEngine.getOrder, same.orders, same.activeOrders] at included ⊢
    exact included
  | trade trade =>
    simp only [Includes, OmsEngine.getTrade, same.trades] at included ⊢
    exact included
  | position | account | contract | quote => trivial

theorem Action.sameAnswers (action : Action env s t) : SameAnswers s t := by
  cases action with
  | log | callback | stopOrderEvent | cancel | place | drop => exact .of_oms rfl
  | convert req exchangeName lock net =>
    constructor <;> simp only [OmsEngine.boundConvertOrderRequest, OmsEngine.convertOrderRequest]
    all_goals split <;> rfl
  | send p req exchangeName trading =>
    rcases sendRequest_cases env s p req exchangeName with ⟨-, eq⟩ | ⟨orderid, -, eq⟩
    · rw [eq]
      exact .of_oms rfl
    · rw [eq]
      constructor <;> simp only [OmsEngine.updateOrderRequest, OmsEngine.modifyConverter]
      all_goals split <;> rfl

theorem Stages.sameAnswers (stages : Stages env s t) : SameAnswers s t := by
  induction stages with
  | refl => exact .of_oms rfl
  | tail _ stage ih =>
    cases stage with
    | action action => exact ih.trans action.sameAnswers
    | own oms => exact ih.trans (.of_oms oms)

/-! ## The handlers as chains of stages -/

theorem Acts.stages (acts : Acts env s t) : Stages env s t := by
  induction acts with
  | refl => exact .refl
  | tail _ action ih => exact ih.tail (.action action)

variable (env) in
theorem stages_call (s : CtaEngine) (p : Ptr) (cb : Callback) : Stages env s (call env p cb s) :=
  have called : Stage env s (s.emit (.callback p cb)) := .own rfl
  .head called (Acts.stages (moves_call env p cb s).acts)

theorem stages_foldl_onTick (tick : TickData) (strategies : List Ptr) (s : CtaEngine) :
    Stages env s (strategies.foldl (fun s p =>
      if (s.objects p).inited then call env p (.onTick tick) s else s) s) := by
  refine foldl_relation _ (R := Stages env) (fun _ => .refl) .trans fun s p => ?_
  exact iteInduction (motive := Stages env s) (fun _ => stages_call env s p _) fun _ => .refl

theorem stages_processTickEvent (safe : s.Safe) (tick : TickData) :
    Stages env s (s.processTickEvent env tick) := by
  unfold processTickEvent
  split
  · exact .refl
  · have pass : Stages env s _ :=
      Acts.stages (moves_checkStopOrders env tick env.passes none safe).acts
    exact iteInduction (motive := Stages env s)
      (fun _ => pass.trans (stages_foldl_onTick tick _ _)) fun _ => pass

theorem stages_processOrderEvent (o : OrderData) : Stages env s (s.processOrderEvent env o) := by
  unfold processOrderEvent
  split
  · exact .refl
  · rename_i p _
    simp only
    set forgotten := if (s.orderids (s.objects p).strategyName).contains o.ktOrderid ∧
        o.isActive = false then s.setOrderids (s.objects p).strategyName
          ((s.orderids (s.objects p).strategyName).erase o.ktOrderid) else s with forgotten_eq
    have first : Stage env s forgotten := by
      refine .own ?_
      rw [forgotten_eq]
      split <;> rfl
    split
    · exact .head first ((stages_call env _ p _).trans (stages_call env _ p _))
    · exact .head first (stages_call env _ p _)

theorem stages_processTradeEvent (trade : TradeData) :
    Stages env s (s.processTradeEvent env trade) := by
  unfold processTradeEvent
  split
  · exact .refl
  · unfold processNewTrade
    split
    · exact .single (.own rfl)
    · rename_i p _
      have updated : Stages env s (({ s with
          ktTradeids := s.ktTradeids.insert trade.ktTradeid } : CtaEngine).updateObject p fun t =>
            { t with pos := if trade.direction = .long then t.pos + trade.volume
                            else t.pos - trade.volume }) := .single (.own rfl)
      exact (updated.trans (stages_call env _ p _)).tail (.own rfl)

/-- The strategy engine's handlers pass through stages only. -/
theorem stages_handle (safe : s.Safe) (e : OmsEvent) :
    Stages env s (handle env e s ctaHandler) := by
  cases e with
  | tick tick => exact stages_processTickEvent safe tick
  | order o => exact stages_processOrderEvent o
  | trade trade => exact stages_processTradeEvent trade
  | position | account | contract | quote => exact .refl

/-- Once the order management engine has processed an event, it is included. -/
theorem includes_processOms (e : OmsEvent) : (s.processOms env e).Includes e := by
  cases e with
  | tick tick => simp [Includes, processOms, OmsEngine.process, OmsEngine.processTickEvent,
      OmsEngine.getTick]
  | order o =>
    have kept : ∀ (oms : OmsEngine) name f, (oms.modifyConverter name f).orders = oms.orders ∧
        (oms.modifyConverter name f).activeOrders = oms.activeOrders := by
      intro oms name f
      unfold OmsEngine.modifyConverter
      split <;> exact ⟨rfl, rfl⟩
    simp only [Includes, processOms, OmsEngine.process, OmsEngine.processOrderEvent,
      OmsEngine.getOrder, (kept _ _ _).1, (kept _ _ _).2]
    cases o.isActive <;> simp
  | trade trade =>
    have kept : ∀ (oms : OmsEngine) name f, (oms.modifyConverter name f).trades = oms.trades := by
      intro oms name f
      unfold OmsEngine.modifyConverter
      split <;> rfl
    simp [Includes, processOms, OmsEngine.process, OmsEngine.processTradeEvent,
      OmsEngine.getTrade, kept]
  | position | account | contract | quote => trivial

/-! ## The order of the handlers -/

theorem handlers_registerOms (place : EngineClass → AString → ℕ) {type : AString}
    (all : type ∈ ["eTick.", "eOrder.", "eTrade.", "ePosition.", "eAccount.", "eContract.",
      "eQuote."]) : (registerOms place {}).handlers type = [omsHandler] := by
  rw [registerOms, EventEmitter.foldl_register_handlers _ _ (by decide), if_pos all,
    EventEmitter.register_handlers]
  simp

/-- The container puts the strategy engine before or behind the order management engine. -/
theorem handlers_emitter (place : EngineClass → AString → ℕ) {type : AString}
    (shared : type ∈ ["eTick.", "eOrder.", "eTrade."]) :
    (emitter place).handlers type =
      if place .cta type = 0 then [ctaHandler, omsHandler] else [omsHandler, ctaHandler] := by
  have first : (registerOms place {}).handlers type = [omsHandler] :=
    handlers_registerOms place (List.mem_append_left _ shared)
  rw [emitter, registerCta, EventEmitter.foldl_register_handlers _ _ (by decide), if_pos shared,
    EventEmitter.register_handlers, first]
  cases place .cta type <;> simp [omsHandler, ctaHandler]

/-- Contracts and positions go to the order management engine alone. -/
theorem handlers_emitter_oms (place : EngineClass → AString → ℕ) {type : AString}
    (own : type ∈ ["ePosition.", "eContract."]) :
    (emitter place).handlers type = [omsHandler] := by
  have apart : type ∉ ["eTick.", "eOrder.", "eTrade."] := by
    rcases own with _ | ⟨_, _ | ⟨_, ⟨⟩⟩⟩ <;> decide
  have mem : type ∈ ["eTick.", "eOrder.", "eTrade.", "ePosition.", "eAccount.", "eContract.",
      "eQuote."] := by
    rcases own with _ | ⟨_, _ | ⟨_, ⟨⟩⟩⟩ <;> decide
  rw [emitter, registerCta, EventEmitter.foldl_register_handlers _ _ (by decide), if_neg apart]
  exact handlers_registerOms place mem

theorem process_emitter (place : EngineClass → AString → ℕ) (e : Event OmsEvent) :
    (emitter place).process e = (emitter place).handlers e.type := by
  simp [EventEmitter.process, emitter, registerCta, registerOms]

theorem eventType_delivered {e : OmsEvent} (delivered : op.event? = some e) :
    eventType e ∈ ["eTick.", "eOrder.", "eTrade."] ∨
      eventType e ∈ ["ePosition.", "eContract."] := by
  cases op <;> cases delivered <;> simp [eventType]

/-- An event whose handlers stand in the order of registration is delivered as in a step. -/
theorem deliver_eq_step (op : Op)
    (first : ∀ e, op.event? = some e → eventType e ∈ ["eTick.", "eOrder.", "eTrade."] →
      (emitter place).handlers (eventType e) = [omsHandler, ctaHandler]) :
    deliver env place s op = s.step env op := by
  cases op with
  | contract c =>
    simp only [deliver, Op.event?, process_emitter]
    rw [handlers_emitter_oms place (by simp [eventType])]
    rfl
  | position p =>
    simp only [deliver, Op.event?, process_emitter]
    rw [handlers_emitter_oms place (by simp [eventType])]
    rfl
  | tick t =>
    simp only [deliver, Op.event?, process_emitter]
    rw [first _ rfl (by simp [eventType])]
    rfl
  | order o =>
    simp only [deliver, Op.event?, process_emitter]
    rw [first _ rfl (by simp [eventType])]
    rfl
  | trade t =>
    simp only [deliver, Op.event?, process_emitter]
    rw [first _ rfl (by simp [eventType])]
    rfl
  | addStrategy | initStrategy | startStrategy | stopStrategy | editStrategy | removeStrategy => rfl

/-- With the order management engine in front, strategies are informed of the event for which they
are called back. -/
theorem informed_of_omsFirst (first : OmsFirst place) (safe : s.Safe) (op : Op) :
    Informed env place s op := by
  intro e delivered before after split _
  by_cases shared : eventType e ∈ ["eTick.", "eOrder.", "eTrade."]
  · have handlers : (emitter place).process ⟨eventType e, e⟩ = [omsHandler, ctaHandler] :=
      (process_emitter place _).trans (first _ shared)
    rw [handlers] at split
    obtain rfl : before = [omsHandler] := by
      rcases before with _ | ⟨h, _ | ⟨h', before⟩⟩
      · simp [omsHandler, ctaHandler] at split
      · have eq := (List.cons.inj split).1
        rw [← eq]
      · simp at split
    exact ⟨stages_handle (safe.processOms e) e, fun t stages =>
      stages.sameAnswers.includes (includes_processOms e)⟩
  · have own := (eventType_delivered delivered).resolve_left shared
    have handlers : (emitter place).process ⟨eventType e, e⟩ = [omsHandler] :=
      (process_emitter place _).trans (handlers_emitter_oms place own)
    rw [handlers] at split
    rcases before with _ | ⟨h, before⟩
    · simp [omsHandler, ctaHandler] at split
    · simp at split

/-! ## Strategies called back too early -/

def isCallback : Effect → Bool
  | .callback _ _ => true
  | _ => false

theorem callsBack_of_any (any : (since s t).any isCallback = true) : CallsBack s t := by
  obtain ⟨e, mem, called⟩ := List.any_eq_true.mp any
  cases e with
  | callback p cb => exact ⟨p, cb, mem⟩
  | _ => simp [isCallback] at called

/-- With the strategy engine in front, a strategy that is called back for an event is informed
only of what was there before. -/
theorem includes_of_ctaFirst (informed : Informed env place s op) {e : OmsEvent} {type : AString}
    (ctaFirst : (emitter place).handlers type = [ctaHandler, omsHandler])
    (delivered : op.event? = some e) (typed : eventType e = type)
    (called : (since s (handle env e s ctaHandler)).any isCallback = true) : s.Includes e := by
  have split : (emitter place).process ⟨eventType e, e⟩ = [] ++ ctaHandler :: [omsHandler] := by
    rw [process_emitter, typed, ctaFirst]
    rfl
  exact (informed e delivered [] _ split (callsBack_of_any called)).2 _ .refl

/-- Where the events of a run reach the order management engine first, its operations are
delivered as they are in `run`. -/
theorem foldl_deliver (ops : List Op)
    (first : ∀ op ∈ ops, ∀ e, op.event? = some e →
      eventType e ∈ ["eTick.", "eOrder.", "eTrade."] →
        (emitter place).handlers (eventType e) = [omsHandler, ctaHandler]) (s : CtaEngine) :
    ops.foldl (deliver env place) s = ops.foldl (step env) s := by
  induction ops generalizing s with
  | nil => rfl
  | cons op ops ih =>
    rw [List.foldl_cons, List.foldl_cons, deliver_eq_step op (first op (by simp))]
    exact ih (fun op mem => first op (by simp [mem])) _

/-- Everything up to the tick on which the strategy buys. -/
def startedOnTick : List Op := boughtOnTick.take 4

def boughtTick : TickData := { symbol := "rb2410", exchange := .shfe }

def boughtTrade : TradeData :=
  { symbol := "rb2410", exchange := .shfe, orderid := "1", tradeid := "1", direction := .long
    volume := 1, exchangeName := "CTP" }

/-- A run that delivers one more event, of which the strategy must be informed. -/
theorem meets_informed {t : CtaEngine}
    (all : ∀ ops, Meets (deliver env place) (Informed env place) s ops) (ops : List Op) (op : Op)
    (reached : ops.foldl (deliver env place) s = t) : Informed env place t op := by
  subst reached
  have run := all (ops ++ [op])
  rw [meets_append] at run
  exact run.2.1

/-- The strategy is called back for the tick on which it buys, which is not included before. -/
theorem uninformed_tick :
    (since (startedOnTick.foldl (step buyOnTick) { classes := {"Dual"} })
        (handle buyOnTick (.tick boughtTick)
          (startedOnTick.foldl (step buyOnTick) { classes := {"Dual"} }) ctaHandler)).any
        isCallback = true ∧
      ¬(startedOnTick.foldl (step buyOnTick) { classes := {"Dual"} }).Includes
        (.tick boughtTick) := by
  exact ⟨by decide +kernel, fun included => absurd included (by unfold Includes; decide +kernel)⟩

/-- It is called back for the order and the trade of what it has bought. -/
theorem uninformed_bought (e : OmsEvent) (mem : e ∈ [.order boughtOrder, .trade boughtTrade]) :
    (since (boughtOnTick.foldl (step buyOnTick) { classes := {"Dual"} })
        (handle buyOnTick e
          (boughtOnTick.foldl (step buyOnTick) { classes := {"Dual"} }) ctaHandler)).any
        isCallback = true ∧
      ¬(boughtOnTick.foldl (step buyOnTick) { classes := {"Dual"} }).Includes e := by
  rcases List.mem_pair.mp mem with rfl | rfl
  · exact ⟨by decide +kernel, fun included => absurd included.1 (by decide +kernel)⟩
  · exact ⟨by decide +kernel, fun included => absurd included (by unfold Includes; decide +kernel)⟩

/-- If strategies are informed in every run, the order management engine is in front for ticks,
then for orders and for trades. -/
theorem omsFirst_of_informed (all : ∀ ops, Meets (deliver buyOnTick place)
    (Informed buyOnTick place) { classes := {"Dual"} } ops) : OmsFirst place := by
  have tick : (emitter place).handlers "eTick." = [omsHandler, ctaHandler] := by
    have order :=
      handlers_emitter place (show "eTick." ∈ ["eTick.", "eOrder.", "eTrade."] by simp)
    split at order
    · have start : startedOnTick.foldl (deliver buyOnTick place) { classes := {"Dual"} } =
          startedOnTick.foldl (step buyOnTick) { classes := {"Dual"} } :=
        foldl_deliver startedOnTick
          (by simp [startedOnTick, boughtOnTick, Op.event?, eventType]) _
      have informed := meets_informed all startedOnTick (.tick boughtTick) start
      exact absurd (includes_of_ctaFirst (e := .tick boughtTick) informed order rfl rfl
        uninformed_tick.1) uninformed_tick.2
    · exact order
  have bought : boughtOnTick.foldl (deliver buyOnTick place) { classes := {"Dual"} } =
      boughtOnTick.foldl (step buyOnTick) { classes := {"Dual"} } :=
    foldl_deliver boughtOnTick (by simp [boughtOnTick, Op.event?, eventType, tick]) _
  intro type shared
  have order := handlers_emitter place shared
  split at order
  · exfalso
    rcases shared with _ | ⟨_, _ | ⟨_, _ | ⟨_, ⟨⟩⟩⟩⟩
    · rw [tick] at order
      simp [omsHandler, ctaHandler] at order
    · have informed := meets_informed all boughtOnTick (.order boughtOrder) bought
      have early := uninformed_bought (.order boughtOrder) (by simp)
      exact early.2 (includes_of_ctaFirst (e := .order boughtOrder) informed order rfl rfl early.1)
    · have informed := meets_informed all boughtOnTick (.trade boughtTrade) bought
      have early := uninformed_bought (.trade boughtTrade) (by simp)
      exact early.2 (includes_of_ctaFirst (e := .trade boughtTrade) informed order rfl rfl early.1)
  · exact order

/-- Strategies are called back with the event included in every run, exactly if the container
puts the strategy engine's handlers behind those of the order management engine. -/
theorem informed_iff_omsFirst (place : EngineClass → AString → ℕ) :
    (∀ env classes ops, Meets (deliver env place) (Informed env place) { classes } ops) ↔
      OmsFirst place := by
  constructor
  · exact fun all => omsFirst_of_informed (all buyOnTick {"Dual"})
  · intro first env classes ops
    refine meets_of_invariant (P := Safe) (fun s op safe => ?_)
      (fun s op safe => informed_of_omsFirst first safe op) (safe_init classes)
    rw [deliver_eq_step op fun e _ shared => first _ shared]
    exact safe.step op

/-- A container that puts a new entry in front of those with its key calls the strategy before the
tick is stored. -/
theorem called_before_stored :
    ¬ ∀ (place : EngineClass → AString → ℕ) env classes ops,
      Meets (deliver env place) (Informed env place) { classes } ops := by
  intro all
  have first := omsFirst_of_informed (all (fun _ _ => 0) buyOnTick {"Dual"}) "eTick." (by simp)
  rw [handlers_emitter _ (by simp)] at first
  simp [omsHandler, ctaHandler] at first

end CtaEngine

end KeenTrader.App
