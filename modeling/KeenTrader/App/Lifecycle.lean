import KeenTrader.App.Changes
import KeenTrader.App.Stopping

/-!
# Starting and closing the strategy engine

The strategies are initialised, started and stopped one after the other, in the order of their
names. What stopping one of them does to the others is said by `Quits`, from which the loop of
`close` follows. Behind it no strategy is trading, and until one is started again no order is
sent, whatever events still arrive.
-/

namespace KeenTrader.App

open Std (ExtTreeMap ExtTreeSet)
open Containers Handlers Runs KeenTrader.Engine

namespace CtaEngine

section Operations
variable (env : Environment) (s : CtaEngine)

/-- The keys that the loops below go through. Nothing that they call changes `strategies`. -/
def strategyNames : List AString := s.strategies.keys

def initAllStrategies : CtaEngine := s.strategyNames.foldl (initStrategy env) s

def startAllStrategies : CtaEngine := s.strategyNames.foldl (startStrategy env) s

def stopAllStrategies : CtaEngine := s.strategyNames.foldl (stopStrategy env) s

def close : CtaEngine := s.stopAllStrategies env

end Operations

variable {env : Environment} {s t u : CtaEngine} {name : AString} {p : Ptr}

theorem mem_strategyNames : name ∈ s.strategyNames ↔ ∃ p, s.strategies[name]? = some p := by
  rw [strategyNames, ExtTreeMap.mem_keys, ← ExtTreeMap.isSome_getElem?_iff_mem,
    Option.isSome_iff_exists]

/-- Closing is a run of `stop_strategy`, so what holds of all runs holds behind it. -/
theorem close_run (classes : ExtTreeSet AString) (ops : List Op) :
    (run env classes ops).close env =
      run env classes (ops ++ (run env classes ops).strategyNames.map .stopStrategy) := by
  simp only [run, List.foldl_append, List.foldl_map]
  rfl

/-! ## Starting one strategy after the other -/

/-- The same strategies, and none of them set back. -/
structure Advances (s t : CtaEngine) : Prop where
  strategies : t.strategies = s.strategies
  inited : ∀ q, (s.objects q).inited = true → (t.objects q).inited = true
  trading : ∀ q, (s.objects q).trading = true → (t.objects q).trading = true

theorem Advances.refl (s : CtaEngine) : Advances s s := ⟨rfl, fun _ => id, fun _ => id⟩

theorem Advances.trans (first : Advances s t) (second : Advances t u) : Advances s u where
  strategies := second.strategies.trans first.strategies
  inited q now := second.inited q (first.inited q now)
  trading q now := second.trading q (first.trading q now)

theorem Frame.advances (frame : Frame s t) : Advances s t :=
  ⟨frame.strategies, fun q => by rw [frame.objects]; exact id,
    fun q => by rw [frame.objects]; exact id⟩

theorem frame_writeLog (s : CtaEngine) (msg : AString) (strategy : Option Ptr) :
    Frame s (s.writeLog msg strategy) := by
  cases strategy <;> exact frame_emit s _

theorem advances_updateObject (s : CtaEngine) {f : CtaTemplate → CtaTemplate}
    (inited : (s.objects p).inited = true → (f (s.objects p)).inited = true)
    (trading : (s.objects p).trading = true → (f (s.objects p)).trading = true) :
    Advances s (s.updateObject p f) := by
  refine ⟨rfl, fun q => ?_, fun q => ?_⟩ <;> by_cases same : q = p
  · subst same
    simpa [updateObject] using inited
  · simp [updateObject, same]
  · subst same
    simpa [updateObject] using trading
  · simp [updateObject, same]

variable (env) in
theorem advances_initStrategy (s : CtaEngine) (name : AString) :
    Advances s (s.initStrategy env name) ∧ ∀ p, s.strategies[name]? = some p →
      ((s.initStrategy env name).objects p).inited = true := by
  unfold initStrategy withStrategy
  cases registered : s.strategies[name]? with
  | none => exact ⟨.refl s, by simp⟩
  | some p =>
    simp only [Option.some.injEq, forall_eq']
    split
    · rename_i inited
      exact ⟨(frame_writeLog s _ none).advances, inited⟩
    · have called : Frame s (call env p .onInit
          (s.writeLog (name ++ " starts initialization") none)) :=
        (frame_writeLog s _ none).trans (call_frame env p _ _)
      have flagged : ∀ t : CtaEngine, Frame s t → Advances s
          (((t.updateObject p ({ · with inited := true })).putStrategyEvent p).writeLog
            (name ++ " Initialization completed") none) := fun t frame =>
        (frame.advances.trans (advances_updateObject t (fun _ => rfl) id)).trans
          ((frame_emit _ _).trans (frame_writeLog _ _ none)).advances
      refine ⟨?_, by simp [writeLog, putStrategyEvent, emit, updateObject]⟩
      split
      · exact flagged _ (called.trans (frame_emit _ _))
      · exact flagged _ (called.trans (frame_writeLog _ _ none))

variable (env) in
theorem advances_startStrategy (s : CtaEngine) (name : AString) :
    Advances s (s.startStrategy env name) ∧ ∀ p, s.strategies[name]? = some p →
      (s.objects p).inited = true → ((s.startStrategy env name).objects p).trading = true := by
  unfold startStrategy withStrategy
  cases registered : s.strategies[name]? with
  | none => exact ⟨.refl s, by simp⟩
  | some p =>
    simp only [Option.some.injEq, forall_eq']
    split
    · rename_i raw
      exact ⟨(frame_writeLog s _ none).advances, fun inited => by simp [inited] at raw⟩
    split
    · rename_i trading
      exact ⟨(frame_writeLog s _ none).advances, fun _ => trading⟩
    · refine ⟨?_, fun _ => by simp [putStrategyEvent, emit, updateObject]⟩
      exact ((call_frame env p .onStart s).advances.trans
        (advances_updateObject _ id fun _ => rfl)).trans (frame_emit _ _).advances

/-- A loop over names that advances, and brings each strategy that is `Ready` to its `goal`. -/
theorem advances_foldl {f : CtaEngine → AString → CtaEngine} (ready goal : CtaEngine → Ptr → Prop)
    (one : ∀ s name, Advances s (f s name) ∧
      ∀ p, s.strategies[name]? = some p → ready s p → goal (f s name) p)
    (stays : ∀ {s t}, Advances s t → ∀ p, ready s p → ready t p)
    (kept : ∀ {s t}, Advances s t → ∀ p, goal s p → goal t p) (names : List AString) :
    Advances s (names.foldl f s) ∧ ∀ name ∈ names, ∀ p, s.strategies[name]? = some p →
      ready s p → goal (names.foldl f s) p := by
  induction names generalizing s with
  | nil => exact ⟨.refl s, by simp⟩
  | cons n names ih =>
    obtain ⟨first, reached⟩ := one s n
    obtain ⟨rest, later⟩ := ih (s := f s n)
    refine ⟨first.trans rest, fun name mem p registered now => ?_⟩
    rcases List.mem_cons.mp mem with rfl | mem
    · exact kept rest p (reached p registered now)
    · exact later name mem p (by rwa [first.strategies]) (stays first p now)

/-- Once all strategies have been initialised and started, all are trading, whatever has happened
before. -/
theorem all_trading (env : Environment) (s : CtaEngine)
    (registered : s.strategies[name]? = some p) :
    (((s.initAllStrategies env).startAllStrategies env).objects p).trading = true := by
  obtain ⟨first, inited⟩ := advances_foldl (s := s) (fun _ _ => True)
    (fun s p => (s.objects p).inited = true)
    (fun s name => ⟨(advances_initStrategy env s name).1, fun p registered _ =>
      (advances_initStrategy env s name).2 p registered⟩)
    (fun _ _ => id) (fun advances p => advances.inited p) s.strategyNames
  change Advances s (s.initAllStrategies env) at first
  have still : (s.initAllStrategies env).strategies[name]? = some p := by rwa [first.strategies]
  obtain ⟨-, trading⟩ := advances_foldl (s := s.initAllStrategies env)
    (fun s p => (s.objects p).inited = true) (fun s p => (s.objects p).trading = true)
    (advances_startStrategy env)
    (fun advances p => advances.inited p) (fun advances p => advances.trading p)
    (s.initAllStrategies env).strategyNames
  exact trading name (mem_strategyNames.mpr ⟨p, still⟩) p still
    (inited name (mem_strategyNames.mpr ⟨p, registered⟩) p registered trivial)

/-! ## Stopping one strategy after the other -/

/-- What stopping strategies keeps, those apart that are in `names`. -/
structure Quits (names : List AString) (s t : CtaEngine) : Prop where
  strategies : t.strategies = s.strategies
  orders : t.oms.orders = s.oms.orders
  strategyName : ∀ q, (t.objects q).strategyName = (s.objects q).strategyName
  trading : ∀ q, (t.objects q).trading = true → (s.objects q).trading = true
  others : ∀ q, (s.objects q).strategyName ∉ names →
    (t.objects q).trading = (s.objects q).trading
  orderids : ∀ name id, isStopOrderid id = false → id ∈ s.orderids name → id ∈ t.orderids name
  trace : s.trace <+: t.trace

theorem Quits.refl (names : List AString) (s : CtaEngine) : Quits names s s :=
  ⟨rfl, rfl, fun _ => rfl, fun _ => id, fun _ _ => rfl, fun _ _ _ => id, List.prefix_refl _⟩

theorem Quits.trans {names : List AString} (first : Quits [name] s t) (second : Quits names t u) :
    Quits (name :: names) s u where
  strategies := second.strategies.trans first.strategies
  orders := second.orders.trans first.orders
  strategyName q := (second.strategyName q).trans (first.strategyName q)
  trading q trades := first.trading q (second.trading q trades)
  others q other := by
    obtain ⟨one, rest⟩ := not_or.mp (List.mem_cons.not.mp other)
    rw [second.others q (by rwa [first.strategyName]), first.others q (by simpa using one)]
  orderids n id exchange own := second.orderids n id exchange (first.orderids n id exchange own)
  trace := first.trace.trans second.trace

theorem quits_stopStrategy (safe : s.Safe) (name : AString) :
    Quits [name] s (s.stopStrategy env name) := by
  cases registered : s.strategies[name]? with
  | none =>
    simp only [stopStrategy, withStrategy, registered]
    exact .refl [name] s
  | some p =>
    by_cases trading : (s.objects p).trading = true
    · have first := call_frame env p .onStop s
      obtain ⟨told, before⟩ := call_progress env p .onStop s (by simp)
      have acts := (moves_foldl_cancelOrder (reacts_call env) p
        ((stopping env s p).orderids ((stopping env s p).objects p).strategyName).toList
        (stopping env s p)).acts
      have loop := acts.frame
      obtain ⟨new, after⟩ := acts.progress
      rw [stopStrategy_eq registered trading]
      have objects : ((cancelAll (call env) (stopping env s p) p).putStrategyEvent p).objects =
          Function.update s.objects p { s.objects p with trading := false } := by
        refine loop.objects.trans ?_
        rw [stopping, updateObject, first.objects]
      refine ⟨loop.strategies.trans first.strategies, loop.orders.trans first.orders, ?_, ?_, ?_,
        ?_, ?_⟩
      · intro q
        rw [objects]
        by_cases same : q = p <;> simp [same]
      · intro q
        rw [objects]
        by_cases same : q = p <;> simp [same]
      · intro q other
        have different : q ≠ p := by
          rintro rfl
          simp [(safe.names name q registered).1] at other
        rw [objects, Function.update_of_ne different]
      · intro n id exchange own
        refine (after.orderids n id exchange).mpr (.inl ?_)
        exact (before.orderids n id exchange).mpr (.inl own)
      · refine ⟨told ++ (new ++ [.strategyEvent p]), ?_⟩
        have called : (stopping env s p).trace = s.trace ++ told := before.trace
        rw [cancelAll, putStrategyEvent, emit, after.trace, called]
        simp
    · simp only [stopStrategy, withStrategy, registered, if_neg trading]
      exact .refl [name] s

/-- A strategy that has been stopped is not trading. -/
theorem trading_stopStrategy (registered : s.strategies[name]? = some p) :
    ((s.stopStrategy env name).objects p).trading = false := by
  by_cases trading : (s.objects p).trading = true
  · rw [stopStrategy_eq registered trading]
    have loop := (moves_foldl_cancelOrder (reacts_call env) p
      ((stopping env s p).orderids ((stopping env s p).objects p).strategyName).toList
      (stopping env s p)).acts.frame
    have objects : ((cancelAll (call env) (stopping env s p) p).putStrategyEvent p).objects =
        (stopping env s p).objects := loop.objects
    rw [objects]
    simp [stopping, updateObject]
  · simp [stopStrategy, withStrategy, registered, trading]

/-- Cancel requests for all of the strategy's exchange orders that are known have been handed to
their exchanges. -/
def Cancelled (s t : CtaEngine) (name : AString) : Prop :=
  ∀ id ∈ s.orderids name, isStopOrderid id = false → (s.oms.getOrder id).isSome = true →
    Handed (since s t) id

theorem cancelled_stopStrategy (safe : s.Safe) (keyed : s.Keyed)
    (registered : s.strategies[name]? = some p) (trading : (s.objects p).trading = true) :
    Cancelled s (s.stopStrategy env name) name := by
  intro id own exchange known
  obtain ⟨o, found⟩ := Option.isSome_iff_exists.mp known
  obtain ⟨told, progress⟩ := call_progress env p .onStop s (by simp)
  obtain ⟨new, after, -, handed⟩ := since_stopStrategy safe registered trading progress
  refine ⟨o.createCancelRequest, o.exchangeName, ?_, keyed id o found⟩
  rw [after]
  have still : id ∈ (stopping env s p).orderids name :=
    (progress.orderids name id exchange).mpr (.inl own)
  simp [handed id still exchange o found]

theorem Cancelled.later (cancelled : Cancelled s t name) (longer : t.trace <+: u.trace) :
    Cancelled s u name := by
  intro id own exchange known
  obtain ⟨req, exchangeName, mem, key⟩ := cancelled id own exchange known
  refine ⟨req, exchangeName, ?_, key⟩
  exact (longer.drop s.trace.length).subset mem

theorem Cancelled.earlier {names : List AString} (quits : Quits names s t)
    (cancelled : Cancelled t u name) : Cancelled s u name := by
  intro id own exchange known
  obtain ⟨req, exchangeName, mem, key⟩ :=
    cancelled id (quits.orderids name id exchange own) exchange
      (by rwa [OmsEngine.getOrder, quits.orders])
  refine ⟨req, exchangeName, ?_, key⟩
  obtain ⟨new, longer⟩ := quits.trace
  rw [since, ← longer, List.length_append, ← List.drop_drop] at mem
  exact List.mem_of_mem_drop mem

/-- Behind the loop the strategies in `names` are not trading, and each that was has had its
orders cancelled. -/
theorem stops_foldl (names : List AString) (safe : s.Safe) (keyed : s.Keyed)
    (distinct : names.Nodup) :
    let t := names.foldl (stopStrategy env) s
    t.Safe ∧ Quits names s t ∧
      ∀ name ∈ names, ∀ p, s.strategies[name]? = some p → (t.objects p).trading = false ∧
        ((s.objects p).trading = true → Cancelled s t name) := by
  induction names generalizing s with
  | nil => exact ⟨safe, .refl [] s, by simp⟩
  | cons n names ih =>
    have one : Quits [n] s (s.stopStrategy env n) := quits_stopStrategy safe n
    obtain ⟨fresh, distinct⟩ := List.nodup_cons.mp distinct
    obtain ⟨safe', rest, each⟩ := ih (safe.stopStrategy env n) (keyed.of_orders one.orders) distinct
    refine ⟨safe', one.trans rest, fun name mem p registered => ?_⟩
    rcases List.mem_cons.mp mem with rfl | later
    · refine ⟨?_, fun trading => ?_⟩
      · by_contra trades
        have before := rest.trading p (by simpa using trades)
        simp [trading_stopStrategy registered] at before
      · exact (cancelled_stopStrategy safe keyed registered trading).later rest.trace
    · have still : (s.stopStrategy env n).strategies[name]? = some p := by
        rwa [one.strategies]
      refine ⟨(each name later p still).1, fun trading => ?_⟩
      refine .earlier one ((each name later p still).2 ?_)
      rw [one.others p ?_]
      · exact trading
      · rw [(safe.names name p registered).1, List.mem_singleton]
        rintro rfl
        exact fresh later

/-! ## An engine without trading strategies -/

def Idle (s : CtaEngine) : Prop := ∀ p, (s.objects p).trading = false

def isSend : Effect → Bool
  | .sendOrder _ _ _ _ _ => true
  | _ => false

/-- The orders that have been handed to exchanges. -/
def sentOrders (s : CtaEngine) : List Effect := s.trace.filter isSend

/-- No strategy begins to trade and no order is sent, if none is trading at the start. -/
def Rests (s t : CtaEngine) : Prop := s.Idle → t.Idle ∧ t.sentOrders = s.sentOrders

theorem Rests.refl (s : CtaEngine) : Rests s s := fun idle => ⟨idle, rfl⟩

theorem Rests.trans (first : Rests s t) (second : Rests t u) : Rests s u := by
  intro idle
  obtain ⟨still, same⟩ := first idle
  obtain ⟨last, same'⟩ := second still
  exact ⟨last, same'.trans same⟩

/-- What keeps the objects and the trace. -/
theorem rests_of_same (objects : t.objects = s.objects) (trace : t.trace = s.trace) :
    Rests s t := by
  intro idle
  rw [Idle, objects, sentOrders, trace]
  exact ⟨idle, rfl⟩

theorem rests_emit (s : CtaEngine) {e : Effect} (other : isSend e = false) :
    Rests s (s.emit e) := by
  refine fun idle => ⟨idle, ?_⟩
  simp [sentOrders, emit, other]

theorem rests_writeLog (s : CtaEngine) (msg : AString) (strategy : Option Ptr) :
    Rests s (s.writeLog msg strategy) := by
  cases strategy <;> exact rests_emit s rfl

theorem rests_updateObject (s : CtaEngine) {p : Ptr} {f : CtaTemplate → CtaTemplate}
    (trading : (f (s.objects p)).trading = (s.objects p).trading) :
    Rests s (s.updateObject p f) := by
  refine fun idle => ⟨fun q => ?_, rfl⟩
  rw [updateObject_keeps (·.trading) s trading]
  exact idle q

/-- Only trading strategies send orders, so among idle ones nothing of the kind happens. -/
theorem Action.rests (action : Action env s t) : Rests s t := by
  cases action with
  | log msg => exact rests_emit s rfl
  | callback p stopOrder => exact rests_emit s rfl
  | stopOrderEvent stopOrder => exact rests_emit s rfl
  | cancel ktOrderid order found => exact rests_emit s rfl
  | convert req exchangeName lock net => exact rests_of_same rfl rfl
  | send p req exchangeName trading =>
    intro idle
    rw [idle p] at trading
    contradiction
  | place p stopOrder trading owner stop => exact rests_of_same rfl rfl
  | drop p stopOrderid stopOrder stop found owner => exact rests_of_same rfl rfl

variable (env) in
theorem steady_rests : Steady env Rests where
  refl := .refl
  trans := .trans
  move move :=
    move.acts.invariant (P := Rests _) (fun action now => now.trans action.rests) (.refl _)
  callback s _ _ := rests_emit s rfl
  emit s e plain := by
    cases e with
    | sendOrder => simp [Effect.plain] at plain
    | _ => exact rests_emit s rfl
  oms _ _ := rests_of_same rfl rfl
  seen _ _ := rests_of_same rfl rfl
  forget _ _ _ := rests_of_same rfl rfl
  pos s _ _ := rests_updateObject s rfl
  inited s _ := rests_updateObject s rfl

theorem rests_saveSetting (name : AString) (p : Ptr) (setting : Json.Value) :
    Rests s (Handler.state (do
      updateStrategySetting name p setting
      modify (·.putStrategyEvent p)) s) := by
  rcases saveSetting_cases s name setting p with ⟨v, -, eq⟩ | ⟨e, -, eq⟩ <;> rw [eq]
  · exact (rests_of_same rfl rfl).trans (rests_emit (s.saveSetting v) rfl)
  · exact .refl s

/-- A new strategy is not trading. -/
theorem rests_addStrategy (className name ktSymbol : AString) (setting : Json.Value) :
    Rests s ((addStrategy className name ktSymbol setting).state s) := by
  rcases addStrategy_cases s className name ktSymbol setting with ⟨-, msg, eq⟩ | ⟨-, eq⟩ <;> rw [eq]
  · exact rests_writeLog s msg none
  · have registered : Rests s (s.register className name ktSymbol) := by
      refine fun idle => ⟨fun q => ?_, rfl⟩
      by_cases same : q = s.nextPtr
      · simp [register, same]
      · simpa [register, same] using idle q
    exact registered.trans (rests_saveSetting name s.nextPtr setting)

variable (env) in
/-- Only `start_strategy` makes a strategy trade. -/
theorem rests_step (safe : s.Safe) {op : Op} (other : ∀ name, op ≠ .startStrategy name) :
    Rests s (s.step env op) := by
  have steady := steady_rests env
  have fed (e : OmsEvent) : Rests s (s.processOms env e) := steady.oms s _
  cases op with
  | contract c => exact fed _
  | position p => exact fed _
  | order o => exact (fed _).trans (steady.processOrderEvent _ o)
  | trade t => exact (fed _).trans (steady.processTradeEvent _ t)
  | tick t => exact (fed _).trans (steady.processTickEvent (safe.processOms _) t)
  | addStrategy className name ktSymbol setting => exact rests_addStrategy _ _ _ _
  | initStrategy name => exact steady.initStrategy s name
  | startStrategy name => exact absurd rfl (other name)
  | stopStrategy name =>
    simp only [step, stopStrategy, withStrategy]
    split
    · rename_i p _
      intro idle
      rw [idle p]
      exact ⟨idle, rfl⟩
    · exact .refl s
  | editStrategy name setting =>
    simp only [step, editStrategy, withStrategy]
    split
    · exact rests_saveSetting _ _ _
    · exact .refl s
  | removeStrategy name =>
    rw [step]
    rcases removeStrategy_cases s name with ⟨p, registered, idle⟩ | eq | ⟨msg, eq⟩
    · rw [removeStrategy_eq registered idle]
      exact rests_of_same rfl rfl
    · rw [eq]
      exact .refl s
    · rw [eq]
      exact rests_writeLog s msg none

theorem rests_foldl (safe : s.Safe) (ops : List Op) (other : ∀ name, .startStrategy name ∉ ops) :
    Rests s (ops.foldl (step env) s) := by
  induction ops generalizing s with
  | nil => exact .refl s
  | cons op ops ih =>
    have here : ∀ name, op ≠ .startStrategy name := by
      rintro name rfl
      exact other name List.mem_cons_self
    have later : Rests (s.step env op) (ops.foldl (step env) (s.step env op)) :=
      ih (safe.step op) fun name mem => other name (List.mem_cons_of_mem _ mem)
    exact (rests_step env safe here).trans later

/-! ## Closing -/

/-- What an engine that was in state `s` is like once it has been closed, in state `t`. -/
structure ClosedDown (env : Environment) (s t : CtaEngine) : Prop where
  idle : t.Idle
  noStops : t.stopOrders = ∅
  cancelled : ∀ name p, s.strategies[name]? = some p → (s.objects p).trading = true →
    Cancelled s t name
  silent : ∀ ops : List Op, (∀ name, .startStrategy name ∉ ops) →
    (ops.foldl (step env) t).sentOrders = t.sentOrders ∧ (ops.foldl (step env) t).stopOrders = ∅

theorem Idle.stopOrders (idle : s.Idle) (safe : s.Safe) : s.stopOrders = ∅ := by
  refine ExtTreeMap.ext_getElem? fun id => ?_
  rw [ExtTreeMap.getElem?_empty]
  by_contra there
  obtain ⟨so, stored⟩ := Option.ne_none_iff_exists'.mp there
  obtain ⟨-, -, -, p, -, trading | no⟩ := safe.stops id so stored
  · rw [idle p] at trading
    contradiction
  · exact no

/-- However it has been used, an engine that is closed has no trading strategy and no stop order
left, and has cancelled the known orders of every strategy that was trading. Until a strategy is
started again no event makes it send an order. -/
theorem closed_down (env : Environment) (classes : ExtTreeSet AString) (ops : List Op) :
    ClosedDown env (run env classes ops) ((run env classes ops).close env) := by
  have safe := safe_run env classes ops
  have keyed := keyed_run env classes ops
  generalize run env classes ops = s at *
  obtain ⟨safe', quits, each⟩ : (s.close env).Safe ∧ Quits s.strategyNames s (s.close env) ∧
      ∀ name ∈ s.strategyNames, ∀ p, s.strategies[name]? = some p →
        ((s.close env).objects p).trading = false ∧
          ((s.objects p).trading = true → Cancelled s (s.close env) name) :=
    stops_foldl s.strategyNames safe keyed ExtTreeMap.nodup_keys
  have idle : (s.close env).Idle := by
    intro p
    by_contra trades
    have registered := safe.traders p (quits.trading p (by simpa using trades))
    exact trades (each _ (mem_strategyNames.mpr ⟨p, registered⟩) p registered).1
  refine ⟨idle, idle.stopOrders safe', fun name p registered trading => ?_, fun ops other => ?_⟩
  · exact (each name (mem_strategyNames.mpr ⟨p, registered⟩) p registered).2 trading
  · obtain ⟨still, same⟩ := rests_foldl safe' ops other idle
    have last : Safe (ops.foldl (step env) (s.close env)) :=
      foldl_invariant (step env) (fun _ op safe => safe.step op) safe'
    exact ⟨same, still.stopOrders last⟩

end CtaEngine

end KeenTrader.App
