import KeenTrader.Library.Runs
import KeenTrader.Engine.Utility
import KeenTrader.App.Template

/-!
# Strategies with a target position

`TargetPosTemplate`: a strategy names the position that it wants, and the template sends the orders
that lead there, one batch at a time. The engine is a parameter, and `calls` records what it is
called for together with the order ids that it answers, latest last.
-/

namespace KeenTrader.App

open Std (ExtTreeSet)
open KeenTrader.Engine Runs

inductive EngineType where
  | live | backtesting
  deriving DecidableEq

structure TargetPosTemplate extends CtaTemplate where
  tickAdd : ℤ := 1
  lastTick : Option TickData := none
  lastBar : Option BarData := none
  targetPos : ℤ := 0
  activeOrderids : ExtTreeSet AString := ∅
  cancelOrderids : ExtTreeSet AString := ∅
  calls : List (TemplateCall × List AString) := []

/-- The engine of a strategy: its type, and the order ids that it returns for a new order. -/
structure StrategyEngine where
  engineType : EngineType
  sendOrder : TargetPosTemplate → TemplateCall → List AString

namespace TargetPosTemplate

def onTick (s : TargetPosTemplate) (tick : TickData) : TargetPosTemplate :=
  { s with lastTick := some tick }

def onBar (s : TargetPosTemplate) (bar : BarData) : TargetPosTemplate :=
  { s with lastBar := some bar }

def onOrder (s : TargetPosTemplate) (order : OrderData) : TargetPosTemplate :=
  if order.isActive then s
  else
    { s with
      activeOrderids := s.activeOrderids.erase order.ktOrderid
      cancelOrderids := s.cancelOrderids.erase order.ktOrderid }

/-- The name notwithstanding, it tells whether there is an active order. -/
def checkOrderFinished (s : TargetPosTemplate) : Bool := !s.activeOrderids.isEmpty

def sendOrder (engine : StrategyEngine) (s : TargetPosTemplate) (call : TemplateCall) :
    List AString × TargetPosTemplate :=
  if s.trading then
    let ktOrderids := engine.sendOrder s call
    (ktOrderids, { s with calls := s.calls ++ [(call, ktOrderids)] })
  else ([], s)

def cancelOrder (s : TargetPosTemplate) (ktOrderid : AString) : TargetPosTemplate :=
  if s.trading then { s with calls := s.calls ++ [(.cancelOrder ktOrderid, [])] } else s

def cancelOldOrder (s : TargetPosTemplate) : TargetPosTemplate :=
  s.activeOrderids.toList.foldl
    (fun s ktOrderid =>
      if s.cancelOrderids.contains ktOrderid then s
      else
        let s := s.cancelOrder ktOrderid
        { s with cancelOrderids := s.cancelOrderids.insert ktOrderid }) s

/-- `long_price` where the position has to grow, and `short_price` else. There is none without a
tick and a bar: the bar is then read through an empty optional. -/
def orderPrice (s : TargetPosTemplate) (posChange : ℤ) : Option ℚ :=
  match s.lastTick with
  | some tick =>
    if 0 < posChange then
      let longPrice := tick.askPrice1 + s.tickAdd
      some (if tick.limitUp ≠ 0 then min longPrice tick.limitUp else longPrice)
    else
      let shortPrice := tick.bidPrice1 - s.tickAdd
      some (if tick.limitDown ≠ 0 then max shortPrice tick.limitDown else shortPrice)
  | none =>
    s.lastBar.map fun bar =>
      if 0 < posChange then bar.closePrice + s.tickAdd else bar.closePrice - s.tickAdd

/-- `abs` of an `int`. There is none of the least one, which x86-64 leaves as it is. -/
def absInt (n : ℤ) : ℤ := if n = -2 ^ 31 then n else |n|

/-- The order that a backtesting engine is asked for. -/
def backtestingOrder (posChange : ℤ) (price : ℚ) : TemplateCall :=
  if 0 < posChange then .buy price (absInt posChange) false false false
  else .short price (absInt posChange) false false false

/-- The order that a live engine is asked for: what is held on the other side is closed first. -/
def liveOrder (s : TargetPosTemplate) (posChange : ℤ) (price : ℚ) : TemplateCall :=
  if 0 < posChange then
    if s.pos < 0 then
      if posChange < |s.pos| then .cover price posChange false false false
      else .cover price |s.pos| false false false
    else .buy price (absInt posChange) false false false
  else if 0 < s.pos then
    if absInt posChange < s.pos then .sell price (absInt posChange) false false false
    else .sell price |s.pos| false false false
  else .short price (absInt posChange) false false false

/-- The ids of a new order become active. -/
def sendActive (engine : StrategyEngine) (s : TargetPosTemplate) (call : TemplateCall) :
    TargetPosTemplate :=
  let (ktOrderids, s) := s.sendOrder engine call
  { s with activeOrderids := s.activeOrderids.insertMany ktOrderids }

/-- None where an empty optional is read. -/
def sendNewOrder (engine : StrategyEngine) (s : TargetPosTemplate) : Option TargetPosTemplate :=
  let posChange := toInt (s.targetPos - s.pos)
  if posChange = 0 then some s
  else
    (s.orderPrice posChange).map fun price =>
      match engine.engineType with
      | .backtesting => s.sendActive engine (backtestingOrder posChange price)
      | .live =>
        if s.activeOrderids.isEmpty then s.sendActive engine (s.liveOrder posChange price) else s

def trade (engine : StrategyEngine) (s : TargetPosTemplate) : Option TargetPosTemplate :=
  if s.checkOrderFinished then s.sendNewOrder engine else some s.cancelOldOrder

def setTargetPos (engine : StrategyEngine) (s : TargetPosTemplate) (targetPos : ℤ) :
    Option TargetPosTemplate :=
  { s with targetPos }.trade engine

end TargetPosTemplate

/-- A live engine that accepts every order: it answers with an id at least. -/
structure AcceptingEngine where
  sendOrder : TargetPosTemplate → TemplateCall → List AString
  accepts : ∀ s call, sendOrder s call ≠ []

def AcceptingEngine.engine (engine : AcceptingEngine) : StrategyEngine :=
  { engineType := .live, sendOrder := engine.sendOrder }

/-- A strategy that is trading with a whole number of positions, behind its first tick or bar. -/
structure Beginning where
  strategy : CtaTemplate
  lastTick : Option TickData
  lastBar : Option BarData
  trading : strategy.trading = true
  whole : ∃ n : ℤ, strategy.pos = n
  seen : lastTick.isSome ∨ lastBar.isSome

/-- A strategy in the course of trading. `outstanding` are the ids of the orders that have been
sent and are not known to be done, and `requested` those whose cancel has been requested. -/
structure TargetSession where
  template : TargetPosTemplate
  outstanding : List AString := []
  requested : List AString := []

namespace TargetSession

def start (b : Beginning) : TargetSession :=
  { template := { b.strategy with lastTick := b.lastTick, lastBar := b.lastBar } }

/-- A trade changes the position by its volume, up or down. -/
inductive Step where
  | tick (tick : TickData)
  | bar (bar : BarData)
  | order (order : OrderData)
  | trade (change : ℤ)
  | setTargetPos (targetPos : ℤ)

/-- The order id of a cancel request. -/
def cancelled : TemplateCall → Option AString
  | .cancelOrder ktOrderid => some ktOrderid
  | _ => none

def IsOrder : TemplateCall → Prop
  | .sendOrder .. => True
  | _ => False

/-- What the engine is called for since `before`. -/
def callsSince (before after : TargetPosTemplate) : List (TemplateCall × List AString) :=
  after.calls.drop before.calls.length

variable (engine : AcceptingEngine)

def step (s : TargetSession) : Step → TargetSession
  | .tick tick => { s with template := s.template.onTick tick }
  | .bar bar => { s with template := s.template.onBar bar }
  | .order order =>
    if order.isActive then { s with template := s.template.onOrder order }
    else
      { template := s.template.onOrder order
        outstanding := s.outstanding.filter (· ≠ order.ktOrderid)
        requested := s.requested.filter (· ≠ order.ktOrderid) }
  | .trade change =>
    { s with template := { s.template with pos := s.template.pos + change } }
  | .setTargetPos targetPos =>
    let template := (s.template.setTargetPos engine.engine targetPos).getD s.template
    let calls := callsSince s.template template
    { template
      outstanding := s.outstanding ++ calls.flatMap (·.2)
      requested := s.requested ++ calls.filterMap (cancelled ·.1) }

/-- A target that is not reached yet is answered with an order where none is outstanding, and else
with a cancel request for each that is, unless it has had one. -/
def Responds (s : TargetSession) : Step → Prop
  | .setTargetPos targetPos =>
    let calls := callsSince s.template (s.step engine (.setTargetPos targetPos)).template
    (s.outstanding = [] → s.template.pos ≠ targetPos → ∃ c ∈ calls, IsOrder c.1) ∧
      (s.outstanding ≠ [] → (∀ c ∈ calls, ¬IsOrder c.1) ∧
        ∀ id ∈ s.outstanding, id ∉ s.requested → ∃ c ∈ calls, c.1 = .cancelOrder id)
  | _ => True

/-- The target is the position that is already held. -/
def OnTarget (s : TargetSession) : Step → Prop
  | .setTargetPos targetPos => s.template.pos = targetPos
  | _ => True

/-- No order is known, neither to the template nor to the engine. -/
structure Idle (s : TargetSession) : Prop where
  active : s.template.activeOrderids = ∅
  outstanding : s.outstanding = []

variable {engine} {s : TargetSession}

theorem idle_start (b : Beginning) : (start b).Idle := ⟨rfl, rfl⟩

theorem cancelOldOrder_of_active {template : TargetPosTemplate}
    (active : template.activeOrderids = ∅) : template.cancelOldOrder = template := by
  have none : (∅ : ExtTreeSet AString).toList = [] := ExtTreeSet.toList_eq_nil_iff.mpr rfl
  rw [TargetPosTemplate.cancelOldOrder, active, none, List.foldl_nil]

/-- Where no order is active, those that are active are cancelled: nothing is done. -/
theorem setTargetPos_of_active {template : TargetPosTemplate}
    (active : template.activeOrderids = ∅) (engine : StrategyEngine) (targetPos : ℤ) :
    template.setTargetPos engine targetPos = some { template with targetPos } := by
  have finished : { template with targetPos }.checkOrderFinished = false := by
    simp [TargetPosTemplate.checkOrderFinished, active]
  rw [TargetPosTemplate.setTargetPos, TargetPosTemplate.trade, finished]
  exact congrArg some (cancelOldOrder_of_active active)

theorem Idle.callsSince_setTargetPos (idle : s.Idle) (targetPos : ℤ) :
    callsSince s.template (s.step engine (.setTargetPos targetPos)).template = [] := by
  simp [callsSince, step, setTargetPos_of_active idle.active]

theorem Idle.step (idle : s.Idle) (l : Step) : (s.step engine l).Idle := by
  cases l with
  | tick tick => exact ⟨idle.active, idle.outstanding⟩
  | bar bar => exact ⟨idle.active, idle.outstanding⟩
  | order order =>
    have active : (s.template.onOrder order).activeOrderids = ∅ := by
      unfold TargetPosTemplate.onOrder
      split <;> simp [idle.active]
    simp only [TargetSession.step]
    split
    · exact ⟨active, idle.outstanding⟩
    · exact ⟨active, by simp [idle.outstanding]⟩
  | trade change => exact ⟨idle.active, idle.outstanding⟩
  | setTargetPos targetPos =>
    have unchanged := setTargetPos_of_active idle.active engine.engine targetPos
    refine ⟨?_, ?_⟩
    · simp [TargetSession.step, unchanged, idle.active]
    · simp [TargetSession.step, unchanged, idle.outstanding, callsSince]

theorem Idle.responds_iff (idle : s.Idle) (engine : AcceptingEngine) (l : Step) :
    s.Responds engine l ↔ s.OnTarget l := by
  cases l with
  | setTargetPos targetPos =>
    simp [Responds, OnTarget, idle.callsSince_setTargetPos, idle.outstanding]
  | _ => rfl

/-- Targets are answered throughout exactly those runs in which each of them is the position that
is already held: no order is ever sent. -/
theorem responds_iff_onTarget (engine : AcceptingEngine) (b : Beginning) (steps : List Step) :
    Meets (step engine) (Responds engine) (start b) steps ↔
      Meets (step engine) OnTarget (start b) steps :=
  meets_congr (P := Idle) (fun _ l idle => idle.step l) (fun _ l idle => idle.responds_iff engine l)
    (idle_start b)

/-- A target of one, where nothing is held and nothing has been sent. -/
theorem target_unanswered :
    ¬ ∀ (engine : AcceptingEngine) (b : Beginning) (steps : List Step),
      Meets (step engine) (Responds engine) (start b) steps := by
  intro all
  let engine : AcceptingEngine := ⟨fun _ _ => ["OKX.1"], by simp⟩
  let tick : TickData := { symbol := "BTC", exchange := .okx, askPrice1 := 100, bidPrice1 := 99 }
  let b : Beginning := ⟨{ trading := true }, some tick, none, rfl, ⟨0, rfl⟩, .inl rfl⟩
  have first := (all engine b [.setTargetPos 1]).1
  have held := ((idle_start b).responds_iff engine _).mp first
  exact absurd held (by simp [OnTarget, start, b])

end TargetSession

end KeenTrader.App
