import KeenTrader.App.Trading

/-!
# What an operation changes

Every operation but the removal of a strategy is a chain of moves of the strategies and of nine
changes that the engine makes itself. An invariant of the engine is proved for these and for a
removal.
-/

namespace KeenTrader.App

open Std (ExtTreeMap ExtTreeSet)
open Containers Handlers KeenTrader.Engine

/-- The callbacks by which a strategy hears of its orders and trades. -/
def Callback.reports : Callback → Bool
  | .onOrder _ | .onTrade _ => true
  | _ => false

/-- What is neither for a strategy nor for the orders of an exchange. -/
def Effect.plain : Effect → Bool
  | .subscribe _ _ | .strategyEvent _ | .log _ => true
  | _ => false

namespace CtaEngine

def Registered (s : CtaEngine) (p : Ptr) : Prop :=
  ∃ name : AString, s.strategies[name]? = some p

/-- Some order id belongs to the strategy. -/
def HasOrder (s : CtaEngine) (p : Ptr) : Prop :=
  ∃ id : AString, s.orderidStrategyMap[id]? = some p

/-- The settings after one of them has been assigned to, or has thrown on the assignment. -/
def Saved (s : CtaEngine) (name : AString) (strategySetting : Json.Value) : Prop :=
  ∃ config, s.strategySetting.set name config = .ok strategySetting ∨
    (∃ e, s.strategySetting.set name config = .error e) ∧ strategySetting = s.strategySetting

/-- One change of an operation that reports orders and trades to the strategies in `hears`. -/
inductive Change (env : Environment) (hears : Ptr → Prop) : CtaEngine → CtaEngine → Prop
  | move {s t : CtaEngine} (move : Move env s t) : Change env hears s t
  | callback (s : CtaEngine) (p : Ptr) (cb : Callback) (quiet : notice (.callback p cb) = none)
    (heard : cb.reports = true → hears p) : Change env hears s (s.emit (.callback p cb))
  | emit (s : CtaEngine) (e : Effect) (plain : e.plain = true) : Change env hears s (s.emit e)
  | oms (s : CtaEngine) (oms : OmsEngine) : Change env hears s { s with oms }
  | seen (s : CtaEngine) (ktTradeids : ExtTreeSet AString) :
      Change env hears s { s with ktTradeids }
  | pos (s : CtaEngine) (p : Ptr) (pos : ℚ) (heard : hears p) :
    Change env hears s (s.updateObject p ({ · with pos }))
  | flags (s : CtaEngine) (name : AString) (p : Ptr) (inited trading : Bool)
    (registered : s.strategies[name]? = some p) :
    Change env hears s (s.updateObject p ({ · with inited, trading }))
  | forget (s : CtaEngine) (name id : AString) (exchange : isStopOrderid id = false) :
    Change env hears s (s.setOrderids name ((s.orderids name).erase id))
  | setting (s : CtaEngine) (name : AString) (strategySetting settingFile : Json.Value)
    (saved : Saved s name strategySetting) :
    Change env hears s { s with strategySetting, settingFile }
  | register (s : CtaEngine) (className name ktSymbol : AString)
    (strategySetting settingFile : Json.Value) (unused : ¬s.strategies.contains name = true)
    (saved : Saved s name strategySetting) :
    Change env hears s { s.register className name ktSymbol with strategySetting, settingFile }

abbrev Changes (env : Environment) (hears : Ptr → Prop) : CtaEngine → CtaEngine → Prop :=
  Relation.ReflTransGen (Change env hears)

/-- Between the steps of an operation a stop order in the book need not belong to a strategy that
is trading. -/
abbrev Loose (s : CtaEngine) : Prop := s.Guarded fun _ => True

variable {env : Environment} {hears : Ptr → Prop} {s t : CtaEngine}

theorem Safe.loose (safe : s.Safe) : s.Loose := safe.weaken fun _ _ _ no => no.elim

theorem Loose.flags (loose : s.Loose) {name : AString} {p : Ptr} (inited trading : Bool)
    (registered : s.strategies[name]? = some p) :
    (s.updateObject p ({ · with inited, trading })).Loose := by
  refine Guarded.update loose rfl (fun _ => ?_) (fun _ _ _ => .inr trivial) fun _ => id
  rw [(loose.names name p registered).1]
  exact registered

theorem Change.loose (change : Change env hears s t) (loose : s.Loose) : t.Loose := by
  cases change with
  | move move => exact move.acts.guarded loose
  | callback p cb quiet heard => exact Guarded.emit loose (by simp)
  | emit e plain =>
    refine Guarded.emit loose ?_
    rintro p trading req exchangeName ktOrderid rfl
    simp [Effect.plain] at plain
  | oms oms => exact ⟨loose.stops, loose.names, loose.traders, loose.mapped, loose.sends⟩
  | seen ids => exact ⟨loose.stops, loose.names, loose.traders, loose.mapped, loose.sends⟩
  | pos p pos heard => exact Guarded.updateObject loose p rfl rfl
  | flags name p inited trading registered => exact loose.flags inited trading registered
  | forget name id exchange => exact Guarded.eraseOrderid loose name exchange
  | setting name v file saved =>
    exact ⟨loose.stops, loose.names, loose.traders, loose.mapped, loose.sends⟩
  | register className name ktSymbol v file unused saved =>
    have registered := Guarded.register loose className ktSymbol unused
    exact ⟨registered.stops, registered.names, registered.traders, registered.mapped,
      registered.sends⟩

/-- What every change keeps, a chain of changes keeps. -/
theorem Changes.invariant {P : CtaEngine → Prop} (changes : Changes env hears s t) (loose : s.Loose)
    (preserved : ∀ {s t}, Change env hears s t → s.Loose → P s → P t) (start : P s) : P t := by
  have both : t.Loose ∧ P t := by
    induction changes with
    | refl => exact ⟨loose, start⟩
    | tail _ change ih => exact ⟨change.loose ih.1, preserved change ih.1 ih.2⟩
  exact both.2

/-! ## The operations as chains of changes -/

theorem Moves.changes (moves : Moves env s t) : Changes env hears s t := by
  induction moves with
  | refl => exact .refl
  | tail _ move ih => exact ih.tail (.move move)

theorem changes_writeLog (s : CtaEngine) (msg : AString) (strategy : Option Ptr) :
    Changes env hears s (s.writeLog msg strategy) := by
  cases strategy <;> exact .single (.emit s _ rfl)

variable (env) in
theorem changes_call (s : CtaEngine) (p : Ptr) (cb : Callback)
    (quiet : notice (.callback p cb) = none) (heard : cb.reports = true → hears p) :
    Changes env hears s (call env p cb s) :=
  .head (.callback s p cb quiet heard) (moves_call env p cb s).changes

theorem changes_foldl_onTick (tick : TickData) (strategies : List Ptr) (s : CtaEngine) :
    Changes env hears s (strategies.foldl (fun s p =>
      if (s.objects p).inited then call env p (.onTick tick) s else s) s) := by
  refine Runs.foldl_relation _ (R := Changes env hears) (fun _ => .refl) .trans fun s p => ?_
  exact iteInduction (motive := Changes env hears s)
    (fun _ => changes_call env s p _ rfl (by simp [Callback.reports])) fun _ => .refl

theorem changes_processTickEvent (tick : TickData) (safe : s.Safe) :
    Changes env hears s (s.processTickEvent env tick) := by
  unfold processTickEvent
  split
  · exact .refl
  · have pass : Changes env hears s _ :=
      (moves_checkStopOrders env tick env.passes none safe).changes
    exact iteInduction (motive := Changes env hears s)
      (fun _ => pass.trans (changes_foldl_onTick tick _ _)) fun _ => pass

theorem changes_processOrderEvent (o : OrderData) (safe : s.Safe)
    (heard : ∀ p, s.orderidStrategyMap[o.ktOrderid]? = some p → hears p) :
    Changes env hears s (s.processOrderEvent env o) := by
  unfold processOrderEvent
  cases owner : s.orderidStrategyMap[o.ktOrderid]? with
  | none => exact .refl
  | some p =>
    have exchange := safe.mapped _ p owner
    have heard := heard p owner
    simp only
    set forgotten := if (s.orderids (s.objects p).strategyName).contains o.ktOrderid ∧
        o.isActive = false then s.setOrderids (s.objects p).strategyName
          ((s.orderids (s.objects p).strategyName).erase o.ktOrderid) else s with forgotten_eq
    have first : Changes env hears s forgotten := by
      rw [forgotten_eq]
      split
      · exact .single (.forget s _ _ exchange)
      · exact .refl
    have last : ∀ t, Changes env hears t (call env p (.onOrder o) t) := fun t =>
      changes_call env t p _ rfl fun _ => heard
    split
    · have quiet : ∀ so : StopOrder, so.stopOrderid = o.ktOrderid →
          notice (.callback p (.onStopOrder so)) = none := fun so same => by
        simp [notice, same, exchange]
      exact (first.trans (changes_call env _ p _ (quiet _ rfl) (by simp [Callback.reports]))).trans
        (last _)
    · exact first.trans (last _)

theorem changes_processTradeEvent (trade : TradeData)
    (heard : ∀ p, s.orderidStrategyMap[trade.ktOrderid]? = some p → hears p) :
    Changes env hears s (s.processTradeEvent env trade) := by
  unfold processTradeEvent
  split
  · exact .refl
  · have seen : Changes env hears s { s with ktTradeids := s.ktTradeids.insert trade.ktTradeid } :=
      .single (.seen s _)
    unfold processNewTrade
    split
    · exact seen
    · rename_i p owner
      have heard := heard p owner
      exact ((seen.tail (.pos _ p _ heard)).trans
        (changes_call env _ p _ rfl fun _ => heard)).tail (.emit _ _ rfl)

theorem changes_saveSetting (s : CtaEngine) (name : AString) (p : Ptr) (setting : Json.Value) :
    Changes env hears s (Handler.state (do
      updateStrategySetting name p setting
      modify (·.putStrategyEvent p)) s) := by
  rcases saveSetting_cases s name setting p with ⟨v, saved, eq⟩ | ⟨e, -, eq⟩
  · rw [eq]
    exact .tail (.single (.setting s name v v.reread ⟨_, .inl saved⟩)) (.emit _ _ rfl)
  · rw [eq]

/-- An addition is refused, or it registers the strategy and has assigned its setting when the
strategy's event is put, or throws on the assignment. -/
theorem addStrategy_registers (s : CtaEngine) (className name ktSymbol : AString)
    (setting : Json.Value) :
    (∃ msg, (addStrategy className name ktSymbol setting).state s = s.writeLog msg none) ∨
    ∃ v file, ¬s.strategies.contains name = true ∧ Saved s name v ∧
      let added : CtaEngine :=
        { s.register className name ktSymbol with strategySetting := v, settingFile := file }
      ((addStrategy className name ktSymbol setting).state s = added.putStrategyEvent s.nextPtr ∨
        (addStrategy className name ktSymbol setting).state s = added) := by
  rcases addStrategy_cases s className name ktSymbol setting with ⟨-, refused⟩ | ⟨fresh, eq⟩
  · exact .inl refused
  · have unused : ¬s.strategies.contains name = true := fun used => fresh (.inl used)
    rw [eq]
    rcases saveSetting_cases (s.register className name ktSymbol) name setting s.nextPtr with
      ⟨v, saved, eq⟩ | ⟨e, threw, eq⟩
    · exact .inr ⟨v, v.reread, unused, ⟨_, .inl saved⟩, .inl eq⟩
    · exact .inr ⟨s.strategySetting, s.settingFile, unused, ⟨_, .inr ⟨⟨e, threw⟩, rfl⟩⟩, .inr eq⟩

theorem changes_addStrategy (s : CtaEngine) (className name ktSymbol : AString)
    (setting : Json.Value) :
    Changes env hears s ((addStrategy className name ktSymbol setting).state s) := by
  rcases addStrategy_registers s className name ktSymbol setting with
    ⟨msg, eq⟩ | ⟨v, file, unused, saved, eq | eq⟩ <;> rw [eq]
  · exact changes_writeLog s msg none
  · exact .tail (.single (.register s className name ktSymbol v file unused saved))
      (.emit _ _ rfl)
  · exact .single (.register s className name ktSymbol v file unused saved)

theorem changes_initStrategy (s : CtaEngine) (name : AString) :
    Changes env hears s (s.initStrategy env name) := by
  unfold initStrategy withStrategy
  cases registered : s.strategies[name]? with
  | none => exact .refl
  | some p =>
    refine iteInduction (motive := Changes env hears s) (fun _ => changes_writeLog s _ none)
      fun _ => ?_
    have called : Changes env hears s (call env p .onInit
        (s.writeLog (name ++ " starts initialization") none)) :=
      (changes_writeLog s _ none).trans (changes_call env _ p _ rfl (by simp [Callback.reports]))
    have registered' : (call env p .onInit
        (s.writeLog (name ++ " starts initialization") none)).strategies[name]? = some p := by
      rw [(call_frame env p .onInit _).strategies]
      exact registered
    simp only
    split
    · exact (((called.tail (.emit _ _ rfl)).tail (.flags _ name p true _ registered')).tail
        (.emit _ _ rfl)).trans (changes_writeLog _ _ none)
    · exact (((called.trans (changes_writeLog _ _ none)).tail
        (.flags _ name p true _ registered')).tail (.emit _ _ rfl)).trans
        (changes_writeLog _ _ none)

theorem changes_startStrategy (s : CtaEngine) (name : AString) :
    Changes env hears s (s.startStrategy env name) := by
  unfold startStrategy withStrategy
  cases registered : s.strategies[name]? with
  | none => exact .refl
  | some p =>
    simp only
    split
    · exact changes_writeLog s _ none
    split
    · exact changes_writeLog s _ none
    · have registered' : (call env p .onStart s).strategies[name]? = some p := by
        rw [(call_frame env p .onStart _).strategies]
        exact registered
      exact ((changes_call env s p _ rfl (by simp [Callback.reports])).tail
        (.flags _ name p _ true registered')).tail (.emit _ _ rfl)

theorem changes_stopStrategy (s : CtaEngine) (name : AString) :
    Changes env hears s (s.stopStrategy env name) := by
  unfold stopStrategy withStrategy
  cases registered : s.strategies[name]? with
  | none => exact .refl
  | some p =>
    refine iteInduction (motive := Changes env hears s) (fun _ => ?_) fun _ => .refl
    have registered' : (call env p .onStop s).strategies[name]? = some p := by
      rw [(call_frame env p .onStop _).strategies]
      exact registered
    have loop : Moves env _ _ := moves_foldl_cancelOrder (reacts_call env) p
      (((call env p .onStop s).updateObject p ({ · with trading := false })).orderids
        (((call env p .onStop s).updateObject p ({ · with trading := false })).objects
          p).strategyName).toList
      ((call env p .onStop s).updateObject p ({ · with trading := false }))
    exact (((changes_call env s p _ rfl (by simp [Callback.reports])).tail
      (.flags _ name p _ false registered')).trans loop.changes).tail (.emit _ _ rfl)

variable (env) in
/-- Whoever hears of orders and trades in an operation has an order at its start. -/
theorem changes_step (safe : s.Safe) (op : Op) (stays : ∀ name, op ≠ .removeStrategy name) :
    Changes env s.HasOrder s (s.step env op) := by
  have fed : ∀ e, Change env s.HasOrder s (s.processOms env e) := fun _ => .oms s _
  cases op with
  | contract c => exact .single (fed _)
  | position p => exact .single (fed _)
  | order o =>
    exact .head (fed _) (changes_processOrderEvent o (safe.processOms _) fun p owner => ⟨_, owner⟩)
  | trade t => exact .head (fed _) (changes_processTradeEvent t fun p owner => ⟨_, owner⟩)
  | tick t => exact .head (fed _) (changes_processTickEvent t (safe.processOms _))
  | addStrategy className name ktSymbol setting => exact changes_addStrategy s _ _ _ _
  | initStrategy name => exact changes_initStrategy s name
  | startStrategy name => exact changes_startStrategy s name
  | stopStrategy name => exact changes_stopStrategy s name
  | editStrategy name setting =>
    simp only [step, editStrategy, withStrategy]
    split
    · exact changes_saveSetting s _ _ _
    · exact .refl
  | removeStrategy name => exact absurd rfl (stays name)

/-! ## Removal -/

/-- The state behind a removal that has gone through. -/
theorem removeStrategy_eq {name : AString} {p : Ptr} (registered : s.strategies[name]? = some p)
    (idle : (s.objects p).trading = false) :
    s.removeStrategy name = { s with
      strategySetting := s.strategySetting.erase name
      settingFile := (s.removeStrategySetting name).settingFile
      symbolStrategyMap := s.symbolStrategyMap.insert (s.objects p).ktSymbol
        ((s.symbolStrategyMap.getD (s.objects p).ktSymbol []).filter (· ≠ p))
      orderidStrategyMap :=
        (s.orderids name).toList.foldl (fun m id => m.erase id) s.orderidStrategyMap
      strategyOrderidMap := s.strategyOrderidMap.erase name
      strategies := s.strategies.erase name } := by
  rw [removeStrategy, withStrategy, registered]
  simp only [idle, Bool.false_eq_true, if_false]
  rw [removeStrategySetting_eq]
  rfl

/-- A removal that does not go through only logs. -/
theorem removeStrategy_refused {name : AString}
    (refused : ∀ p, s.strategies[name]? = some p → (s.objects p).trading = true) :
    s.removeStrategy name = s ∨ ∃ msg, s.removeStrategy name = s.writeLog msg none := by
  rw [removeStrategy, withStrategy]
  cases registered : s.strategies[name]? with
  | none => exact .inl rfl
  | some p => exact .inr ⟨_, if_pos (refused p registered)⟩

/-- A removal goes through, for a strategy that is not trading, or does nothing but log. -/
theorem removeStrategy_cases (s : CtaEngine) (name : AString) :
    (∃ p, s.strategies[name]? = some p ∧ (s.objects p).trading = false) ∨
      s.removeStrategy name = s ∨ ∃ msg, s.removeStrategy name = s.writeLog msg none := by
  by_cases through : ∃ p, s.strategies[name]? = some p ∧ (s.objects p).trading = false
  · exact .inl through
  · refine .inr (removeStrategy_refused fun p registered => ?_)
    by_contra idle
    exact through ⟨p, registered, by simpa using idle⟩

/-! ## Relations that events keep -/

/-- A relation between states that strategies and the handling of events keep. -/
structure Steady (env : Environment) (R : CtaEngine → CtaEngine → Prop) : Prop where
  refl : ∀ s, R s s
  trans : ∀ {s t u}, R s t → R t u → R s u
  move : ∀ {s t}, Move env s t → R s t
  callback : ∀ s p cb, R s (s.emit (.callback p cb))
  emit : ∀ s e, e.plain = true → R s (s.emit e)
  oms : ∀ (s : CtaEngine) oms, R s { s with oms }
  seen : ∀ (s : CtaEngine) ktTradeids, R s { s with ktTradeids }
  forget : ∀ s name ids, R s (s.setOrderids name ids)
  pos : ∀ s p pos, R s (s.updateObject p ({ · with pos }))
  inited : ∀ s p, R s (s.updateObject p ({ · with inited := true }))

namespace Steady

variable {R : CtaEngine → CtaEngine → Prop} (steady : Steady env R)
include steady

theorem moves (moves : Moves env s t) : R s t := by
  induction moves with
  | refl => exact steady.refl s
  | tail _ move ih => exact steady.trans ih (steady.move move)

theorem writeLog (s : CtaEngine) (msg : AString) (strategy : Option Ptr) :
    R s (s.writeLog msg strategy) := by
  cases strategy <;> exact steady.emit s _ rfl

theorem call (s : CtaEngine) (p : Ptr) (cb : Callback) : R s (call env p cb s) :=
  steady.trans (steady.callback s p cb) (steady.moves (moves_call env p cb s))

theorem processTickEvent (safe : s.Safe) (tick : TickData) :
    R s (s.processTickEvent env tick) := by
  unfold CtaEngine.processTickEvent
  split
  · exact steady.refl s
  · have pass : R s _ := steady.moves (moves_checkStopOrders env tick env.passes none safe)
    refine iteInduction (motive := R s) (fun _ => steady.trans pass ?_) fun _ => pass
    refine Runs.foldl_relation _ (R := R) steady.refl steady.trans fun s p => ?_
    exact iteInduction (motive := R s) (fun _ => steady.call s p _) fun _ => steady.refl s

theorem processOrderEvent (s : CtaEngine) (o : OrderData) : R s (s.processOrderEvent env o) := by
  unfold CtaEngine.processOrderEvent
  cases s.orderidStrategyMap[o.ktOrderid]? with
  | none => exact steady.refl s
  | some p =>
    simp only
    set forgotten := if (s.orderids (s.objects p).strategyName).contains o.ktOrderid ∧
        o.isActive = false then s.setOrderids (s.objects p).strategyName
          ((s.orderids (s.objects p).strategyName).erase o.ktOrderid) else s with forgotten_eq
    have first : R s forgotten := by
      rw [forgotten_eq]
      exact iteInduction (motive := R s) (fun _ => steady.forget s _ _) fun _ => steady.refl s
    split
    · exact steady.trans (steady.trans first (steady.call _ p _)) (steady.call _ p _)
    · exact steady.trans first (steady.call _ p _)

theorem processTradeEvent (s : CtaEngine) (trade : TradeData) :
    R s (s.processTradeEvent env trade) := by
  unfold CtaEngine.processTradeEvent
  split
  · exact steady.refl s
  · unfold processNewTrade
    split
    · exact steady.seen s _
    · exact steady.trans (steady.trans (steady.trans (steady.seen s _) (steady.pos _ _ _))
        (steady.call _ _ _)) (steady.emit _ _ rfl)

theorem initStrategy (s : CtaEngine) (name : AString) : R s (s.initStrategy env name) := by
  unfold CtaEngine.initStrategy withStrategy
  cases s.strategies[name]? with
  | none => exact steady.refl s
  | some p =>
    refine iteInduction (motive := R s) (fun _ => steady.writeLog s _ none) fun _ => ?_
    have called : R s (CtaEngine.call env p .onInit
        (s.writeLog (name ++ " starts initialization") none)) :=
      steady.trans (steady.writeLog s _ none) (steady.call _ p _)
    have marked : ∀ t : CtaEngine, R t
        (((t.updateObject p ({ · with inited := true })).putStrategyEvent p).writeLog
          (name ++ " Initialization completed") none) := fun t =>
      steady.trans (steady.trans (steady.inited t p) (steady.emit _ _ rfl))
        (steady.writeLog _ _ none)
    simp only
    split
    · exact steady.trans (steady.trans called (steady.emit _ _ rfl)) (marked _)
    · exact steady.trans (steady.trans called (steady.writeLog _ _ none)) (marked _)

end Steady

end CtaEngine

end KeenTrader.App
