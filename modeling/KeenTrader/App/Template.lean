import KeenTrader.Engine.Object

/-!
# Strategies

The objects of `base.h` and the part of `CtaTemplate` that the engine reads and writes. The
code of a strategy is not part of the model: a callback is a point at which the strategy makes
some list of calls, and the three calls by which it acts are guarded by `trading`.
-/

namespace KeenTrader.App

open KeenTrader.Engine

inductive StopOrderStatus where
  | waiting | cancelled | triggered
  deriving DecidableEq, Repr

structure StopOrder where
  ktSymbol : AString
  direction : Direction
  offset : Offset
  price : ℚ
  volume : ℚ
  stopOrderid : AString
  strategyName : AString
  datetime : DateTime := 0
  lock : Bool := false
  net : Bool := false
  ktOrderids : List AString := []
  status : StopOrderStatus := .waiting
  deriving DecidableEq, Repr

/-- `STOP_STATUS_MAP`. -/
def stopStatus : Status → StopOrderStatus
  | .submitting | .notTraded => .waiting
  | .partTraded | .allTraded => .triggered
  | .cancelled | .rejected => .cancelled

/-- An id that begins with `STOPORDER_PREFIX`. -/
def isStopOrderid (ktOrderid : AString) : Bool := "STOP".toList.isPrefixOf ktOrderid.toList

/-- The address of a strategy object. -/
abbrev Ptr := ℕ

structure CtaTemplate where
  className : AString := ""
  strategyName : AString := ""
  ktSymbol : AString := ""
  inited : Bool := false
  trading : Bool := false
  pos : ℚ := 0
  deriving DecidableEq, Repr

/-- The virtual functions through which the engine calls a strategy. -/
inductive Callback where
  | onInit
  | onStart
  | onStop
  | onTick (tick : TickData)
  | onTrade (trade : TradeData)
  | onOrder (order : OrderData)
  | onStopOrder (stopOrder : StopOrder)
  deriving DecidableEq

/-- The calls by which a strategy acts on the engine. -/
inductive TemplateCall where
  | sendOrder (direction : Direction) (offset : Offset) (price volume : ℚ) (stop lock net : Bool)
  | cancelOrder (ktOrderid : AString)
  | cancelAll
  deriving DecidableEq

namespace TemplateCall

/-- Open a long position. -/
def buy (price volume : ℚ) (stop lock net : Bool) : TemplateCall :=
  .sendOrder .long .opening price volume stop lock net

/-- Close a long position. -/
def sell (price volume : ℚ) (stop lock net : Bool) : TemplateCall :=
  .sendOrder .short .close price volume stop lock net

/-- Open a short position. -/
def short (price volume : ℚ) (stop lock net : Bool) : TemplateCall :=
  .sendOrder .short .opening price volume stop lock net

/-- Close a short position. -/
def cover (price volume : ℚ) (stop lock net : Bool) : TemplateCall :=
  .sendOrder .long .close price volume stop lock net

end TemplateCall

/-! ## Ids of exchanges and of stop orders -/

theorem prefix_append_cons {α : Type*} {l a b : List α} {x : α} (absent : x ∉ l)
    (pre : l <+: a ++ x :: b) : l <+: a := by
  induction l generalizing a with
  | nil => exact List.nil_prefix
  | cons y l ih =>
    cases a with
    | nil =>
      obtain ⟨rfl, -⟩ := List.cons_prefix_cons.mp pre
      exact absurd (by simp) absent
    | cons z a =>
      obtain ⟨rfl, rest⟩ := List.cons_prefix_cons.mp pre
      exact List.cons_prefix_cons.mpr ⟨rfl, ih (fun mem => absent (by simp [mem])) rest⟩

/-- An order id of an exchange whose name is no stop order prefix is not taken for a stop
order's. -/
theorem isStopOrderid_of_exchange {exchangeName : AString}
    (name : isStopOrderid exchangeName = false)
    (orderid : AString) : isStopOrderid (exchangeName ++ "." ++ orderid) = false := by
  by_contra stop
  rw [Bool.not_eq_false, isStopOrderid, List.isPrefixOf_iff_prefix] at stop
  have pre : "STOP".toList <+: exchangeName.toList ++ '.' :: orderid.toList := by
    simpa using stop
  have short := prefix_append_cons (by decide) pre
  rw [← List.isPrefixOf_iff_prefix] at short
  rw [isStopOrderid, short] at name
  exact absurd name (by simp)

theorem isStopOrderid_local (count : ℕ) :
    isStopOrderid ("STOP" ++ "." ++ toString count) = true := by
  rw [isStopOrderid, List.isPrefixOf_iff_prefix]
  simp only [String.toList_append, List.append_assoc]
  exact List.prefix_append _ _

end KeenTrader.App
