import KeenTrader.App.TargetPos

/-!
# The orders of a target position

`send_new_order` on its own, under an engine that trades and takes every order as it is asked for.
The change of the position is kept in an `int`. As long as it fits, an order closes what is held on
the other side or opens what is missing, and two orders that are filled reach any target.
-/

namespace KeenTrader.App

open Std (ExtTreeSet)
open KeenTrader.Engine
open TargetSession (callsSince)

/-- A live engine that makes of each call one order, with the direction, offset, price and volume
that it is asked for. The ids are its own. -/
structure UnchangedEngine where
  symbol : AString
  exchange : Exchange
  exchangeName : AString
  orderid : TargetPosTemplate → TemplateCall → AString

/-- What the position changes by when the order is filled completely. -/
def change (order : OrderData) : ℚ := if order.direction = .long then order.volume else -order.volume

/-- The order as it is reported when nothing is left of it. -/
def filled (order : OrderData) : OrderData :=
  { order with traded := order.volume, status := .allTraded }

@[simp] theorem filled_isActive (order : OrderData) : (filled order).isActive = false := rfl

@[simp] theorem filled_ktOrderid (order : OrderData) :
    (filled order).ktOrderid = order.ktOrderid := rfl

/-- The fill of an order changes the position, and its report ends it. -/
def TargetPosTemplate.onFill (s : TargetPosTemplate) (order : OrderData) : TargetPosTemplate :=
  { s with pos := s.pos + change order }.onOrder (filled order)

namespace UnchangedEngine

variable (engine : UnchangedEngine)

def place (s : TargetPosTemplate) (call : TemplateCall) : List OrderData :=
  match call with
  | .sendOrder direction offset price volume .. =>
    [{ symbol := engine.symbol, exchange := engine.exchange, orderid := engine.orderid s call
       direction, offset, price, volume, exchangeName := engine.exchangeName }]
  | _ => []

def toEngine : StrategyEngine :=
  { engineType := .live, sendOrder := fun s call => (engine.place s call).map (·.ktOrderid) }

/-- The orders that `send_new_order` sends. -/
def newOrders (s : TargetPosTemplate) : List OrderData :=
  match s.sendNewOrder engine.toEngine with
  | none => []
  | some t => (callsSince s t).flatMap fun call => engine.place s call.1

/-- `send_new_order`, and the complete fill of what it sends. -/
def round (s : TargetPosTemplate) : Option TargetPosTemplate :=
  (s.sendNewOrder engine.toEngine).map fun t => (engine.newOrders s).foldl .onFill t

def rounds : ℕ → TargetPosTemplate → Option TargetPosTemplate
  | 0, s => some s
  | n + 1, s => engine.round s >>= rounds n

end UnchangedEngine

namespace TargetPosTemplate

/-- The strategy trades, has no active order, and has seen a tick or a bar. Its position is whole,
and its target an `int`. -/
structure Ready (s : TargetPosTemplate) : Prop where
  trading : s.trading = true
  idle : s.activeOrderids = ∅
  seen : s.lastTick.isSome ∨ s.lastBar.isSome
  whole : ∃ n : ℤ, s.pos = n
  low : -2 ^ 31 ≤ s.targetPos
  high : s.targetPos < 2 ^ 31

variable {engine : UnchangedEngine} {s : TargetPosTemplate} {pos posChange : ℤ} {price : ℚ}

/-! ## One order -/

theorem Ready.exists_price (ready : s.Ready) (posChange : ℤ) :
    ∃ price, s.orderPrice posChange = some price := by
  obtain seen | seen := ready.seen
  · obtain ⟨tick, tick_eq⟩ := Option.isSome_iff_exists.mp seen
    unfold orderPrice
    rw [tick_eq]
    dsimp only
    split <;> exact ⟨_, rfl⟩
  · obtain ⟨bar, bar_eq⟩ := Option.isSome_iff_exists.mp seen
    unfold orderPrice
    rw [bar_eq]
    split
    · split <;> exact ⟨_, rfl⟩
    · exact ⟨_, rfl⟩

/-- A live order is a call of `send_order`. -/
theorem exists_liveOrder (s : TargetPosTemplate) (posChange : ℤ) (price : ℚ) :
    ∃ direction offset volume, s.liveOrder posChange price =
      .sendOrder direction offset price volume false false false := by
  unfold liveOrder TemplateCall.buy TemplateCall.sell TemplateCall.short TemplateCall.cover
  split_ifs <;> exact ⟨_, _, _, rfl⟩

theorem erase_insertMany_empty (id : AString) :
    ((∅ : ExtTreeSet AString).insertMany [id]).erase id = ∅ := by
  ext k
  simp [ExtTreeSet.mem_erase]

variable (engine) in
/-- Where the position has to change, the order of a live engine is sent, and the strategy is ready
again when it has been filled. -/
theorem Ready.round (ready : s.Ready) (moves : toInt (s.targetPos - s.pos) ≠ 0) :
    ∃ price order, engine.place s (s.liveOrder (toInt (s.targetPos - s.pos)) price) = [order] ∧
      engine.newOrders s = [order] ∧
      ∃ t, engine.round s = some t ∧ t.pos = s.pos + change order ∧ t.targetPos = s.targetPos ∧
        ((∃ n : ℤ, s.pos + change order = n) → t.Ready) := by
  obtain ⟨price, price_eq⟩ := ready.exists_price (toInt (s.targetPos - s.pos))
  obtain ⟨direction, offset, volume, call_eq⟩ :=
    exists_liveOrder s (toInt (s.targetPos - s.pos)) price
  refine ⟨price, ?_⟩
  rw [call_eq]
  generalize call : TemplateCall.sendOrder direction offset price volume false false false = c
  obtain ⟨order, placed⟩ : ∃ order, engine.place s c = [order] := by
    subst call
    exact ⟨_, rfl⟩
  have sent : s.sendNewOrder engine.toEngine = some (s.sendActive engine.toEngine c) := by
    rw [sendNewOrder, if_neg moves, price_eq, ← call, ← call_eq]
    simp [UnchangedEngine.toEngine, ready.idle]
  have orders : engine.newOrders s = [order] := by
    rw [UnchangedEngine.newOrders, sent, ← placed]
    simp [callsSince, sendActive, sendOrder, ready.trading]
  have answered : engine.toEngine.sendOrder s c = [order.ktOrderid] := by
    simp [UnchangedEngine.toEngine, placed]
  refine ⟨order, placed, orders, (s.sendActive engine.toEngine c).onFill order, ?_, ?_⟩
  · rw [UnchangedEngine.round, sent, orders]
    rfl
  · simp only [onFill, onOrder, filled_isActive, sendActive, sendOrder, ready.trading, if_true,
      answered, ready.idle, filled_ktOrderid, Bool.false_eq_true, if_false]
    refine ⟨trivial, trivial, fun whole => ?_⟩
    exact ⟨rfl, erase_insertMany_empty _, ready.seen, whole, ready.low, ready.high⟩

/-! ## Where an order leads -/

/-- The order of a live engine, where the position is whole. -/
theorem change_placed {order : OrderData} {n c : ℤ} (whole : s.pos = n)
    (placed : engine.place s (s.liveOrder c price) = [order]) :
    (0 < c ∧ n < 0 ∧ order.offset = .close ∧ change order = (min c (-n) : ℤ)) ∨
    (0 < c ∧ 0 ≤ n ∧ order.offset = .opening ∧ change order = (absInt c : ℤ)) ∨
    (c ≤ 0 ∧ 0 < n ∧ order.offset = .close ∧ change order = (-min (absInt c) n : ℤ)) ∨
    (c ≤ 0 ∧ n ≤ 0 ∧ order.offset = .opening ∧ change order = (-absInt c : ℤ)) := by
  unfold liveOrder TemplateCall.buy TemplateCall.sell TemplateCall.short TemplateCall.cover at placed
  rw [whole] at placed
  norm_cast at placed
  rcases lt_or_ge 0 c with up | down
  · simp only [if_pos up] at placed
    rcases lt_or_ge n 0 with short | long
    · simp only [if_pos short, abs_of_neg short] at placed
      refine .inl ⟨up, short, ?_⟩
      rcases lt_or_ge c (-n) with part | whole
      · rw [if_pos part] at placed
        rw [min_eq_left part.le]
        obtain rfl := List.singleton_inj.mp placed.symm
        exact ⟨rfl, by simp [change]⟩
      · rw [if_neg whole.not_gt] at placed
        rw [min_eq_right whole]
        obtain rfl := List.singleton_inj.mp placed.symm
        exact ⟨rfl, by simp [change]⟩
    · simp only [if_neg long.not_gt] at placed
      obtain rfl := List.singleton_inj.mp placed.symm
      exact .inr (.inl ⟨up, long, rfl, by simp [change]⟩)
  · simp only [if_neg down.not_gt] at placed
    rcases lt_or_ge 0 n with long | short
    · simp only [if_pos long, abs_of_pos long] at placed
      refine .inr (.inr (.inl ⟨down, long, ?_⟩))
      rcases lt_or_ge (absInt c) n with part | whole
      · rw [if_pos part] at placed
        rw [min_eq_left part.le]
        obtain rfl := List.singleton_inj.mp placed.symm
        exact ⟨rfl, by simp [change]⟩
      · rw [if_neg whole.not_gt] at placed
        rw [min_eq_right whole]
        obtain rfl := List.singleton_inj.mp placed.symm
        exact ⟨rfl, by simp [change]⟩
    · simp only [if_neg short.not_gt] at placed
      obtain rfl := List.singleton_inj.mp placed.symm
      exact .inr (.inr (.inr ⟨down, short, rfl, by simp [change]⟩))

/-- Where the fill of one order leads: to nothing held, if the target lies on the other side, and to
the target itself otherwise. -/
def waypoint (n target : ℤ) : ℤ := if n < 0 ∧ 0 < target ∨ 0 < n ∧ target < 0 then 0 else target

theorem absInt_of_fits {c : ℤ} (fits : -2 ^ 31 < c) : absInt c = |c| := by
  rw [absInt, if_neg (by omega)]

/-- A waypoint is nearer to zero than the position exactly where the position is reduced. -/
theorem abs_waypoint_lt_iff (n c : ℤ) (moves : c ≠ 0) :
    |waypoint n (n + c)| < |n| ↔ 0 < c ∧ n < 0 ∨ c ≤ 0 ∧ 0 < n := by
  unfold waypoint
  simp only [abs_eq_max_neg]
  split <;> omega

/-- Where the change fits, the order leads to the waypoint. -/
theorem placed_waypoint {order : OrderData} {n c : ℤ} (whole : s.pos = n) (moves : c ≠ 0)
    (fits : -2 ^ 31 < c) (placed : engine.place s (s.liveOrder c price) = [order]) :
    s.pos + change order = (waypoint n (n + c) : ℤ) ∧
      order.offset = if |waypoint n (n + c)| < |n| then .close else .opening := by
  have cases := change_placed whole placed
  rw [absInt_of_fits fits] at cases
  simp only [whole, abs_waypoint_lt_iff n c moves]
  obtain ⟨up, short, closes, eq⟩ | ⟨up, long, opens, eq⟩ | ⟨down, long, closes, eq⟩ |
    ⟨down, short, opens, eq⟩ := cases
  · refine ⟨?_, by rw [closes, if_pos (.inl ⟨up, short⟩)]⟩
    rw [eq, ← Int.cast_add]
    unfold waypoint
    congr 1
    split <;> omega
  · refine ⟨?_, by rw [opens, if_neg (by omega)]⟩
    rw [eq, ← Int.cast_add, abs_of_pos up]
    unfold waypoint
    congr 1
    split <;> omega
  · refine ⟨?_, by rw [closes, if_pos (.inr ⟨down, long⟩)]⟩
    rw [eq, ← Int.cast_add, abs_of_nonpos down]
    unfold waypoint
    congr 1
    split <;> omega
  · refine ⟨?_, by rw [opens, if_neg (by omega)]⟩
    rw [eq, ← Int.cast_add, abs_of_nonpos down]
    unfold waypoint
    congr 1
    split <;> omega

/-! ## Changes that fit -/

/-- The change of the position as an `int`. -/
theorem toInt_change {n : ℤ} (whole : s.pos = n) :
    toInt (s.targetPos - s.pos) =
      if -2 ^ 31 ≤ s.targetPos - n ∧ s.targetPos - n < 2 ^ 31 then s.targetPos - n
      else -2 ^ 31 := by
  rw [whole, ← Int.cast_sub, toInt_intCast]

variable (engine) in
/-- One round leads to the waypoint, if the change fits. -/
theorem Ready.round_waypoint (ready : s.Ready) {n : ℤ} (whole : s.pos = n)
    (moves : n ≠ s.targetPos) (low : -2 ^ 31 < s.targetPos - n) (high : s.targetPos - n < 2 ^ 31) :
    ∃ order, engine.newOrders s = [order] ∧
      s.pos + change order = (waypoint n s.targetPos : ℤ) ∧
      order.offset = (if |waypoint n s.targetPos| < |n| then .close else .opening) ∧
      ∃ t, engine.round s = some t ∧ t.Ready ∧ t.pos = (waypoint n s.targetPos : ℤ) ∧
        t.targetPos = s.targetPos := by
  have kept : toInt (s.targetPos - s.pos) = s.targetPos - n := by
    rw [toInt_change whole, if_pos ⟨low.le, high⟩]
  obtain ⟨price, order, placed, orders, t, round, pos, target, ready'⟩ :=
    ready.round engine (by rw [kept]; omega)
  rw [kept] at placed
  obtain ⟨leads, offset⟩ := placed_waypoint whole (by omega) low placed
  rw [show n + (s.targetPos - n) = s.targetPos by omega] at leads offset
  exact ⟨order, orders, leads, offset, t, round, ready' ⟨_, leads⟩, pos.trans leads, target⟩

/-- From any position two rounds lead to the target. -/
theorem Ready.rounds (ready : s.Ready) {n : ℤ} (whole : s.pos = n)
    (low : -2 ^ 31 < s.targetPos - n) (high : s.targetPos - n < 2 ^ 31) :
    ∃ k ≤ 2, ∃ t, engine.rounds k s = some t ∧ t.targetPos = s.targetPos ∧
      t.pos = t.targetPos := by
  by_cases there : n = s.targetPos
  · exact ⟨0, by omega, s, rfl, rfl, by rw [whole, there]⟩
  obtain ⟨-, -, -, -, t, first, ready', pos, target⟩ :=
    ready.round_waypoint engine whole there low high
  by_cases reached : waypoint n s.targetPos = s.targetPos
  · refine ⟨1, by omega, t, ?_, target, by rw [pos, reached, target]⟩
    rw [UnchangedEngine.rounds, first]
    rfl
  · -- what was held is closed, and what is missing is opened at once
    have closed : waypoint n s.targetPos = 0 := by
      unfold waypoint at reached ⊢
      grind
    have back : waypoint 0 s.targetPos = s.targetPos := by simp [waypoint]
    rw [closed] at pos
    have target_low := ready.low
    have target_high := ready.high
    obtain ⟨-, -, -, -, u, second, -, pos', target'⟩ :=
      ready'.round_waypoint engine pos (by omega)
        (by rw [target]; unfold waypoint at closed; grind) (by rw [target]; omega)
    rw [target, back] at pos'
    refine ⟨2, le_rfl, u, ?_, target'.trans target, by rw [pos', target', target]⟩
    rw [UnchangedEngine.rounds, first]
    change engine.rounds 1 t = _
    rw [UnchangedEngine.rounds, second]
    rfl

variable (engine) in
/-- A change that does not fit ends at the least `int`: the order leads up, by as much, and opens
where nothing is held that could be sold. -/
theorem Ready.wide (ready : s.Ready) {n : ℤ} (whole : s.pos = n)
    (wide : ¬(-2 ^ 31 < s.targetPos - n ∧ s.targetPos - n < 2 ^ 31)) :
    ∃ order, engine.newOrders s = [order] ∧ change order = (2 ^ 31 : ℤ) ∧
      order.offset = if 0 < n then .close else .opening := by
  have least : toInt (s.targetPos - s.pos) = -2 ^ 31 := by
    rw [toInt_change whole]
    split <;> omega
  obtain ⟨price, order, placed, orders, -⟩ :=
    ready.round engine (by rw [least]; decide)
  rw [least] at placed
  have abs_least : absInt (-2 ^ 31) = -2 ^ 31 := by decide
  have cases := change_placed whole placed
  rw [abs_least] at cases
  refine ⟨order, orders, ?_⟩
  obtain ⟨up, -⟩ | ⟨up, -⟩ | ⟨-, long, closes, eq⟩ | ⟨-, short, opens, eq⟩ := cases
  · omega
  · omega
  · refine ⟨?_, by rw [closes, if_pos long]⟩
    rw [eq, min_eq_left (by omega), neg_neg]
  · refine ⟨?_, by rw [opens, if_neg short.not_gt]⟩
    rw [eq, neg_neg]

section Large

def holding (pos targetPos : ℤ) : TargetPosTemplate :=
  { trading := true, pos, targetPos
    lastTick := some { symbol := "PEPEUSDT_SWAP", exchange := .binance, askPrice1 := 2 } }

end Large

end TargetPosTemplate

end KeenTrader.App
