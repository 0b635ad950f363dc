import KeenTrader.Engine.Soundness

/-!
# What is frozen and what is drained

An order freezes the part of a leg that its fill should drain. Which part this is `calculate_frozen`
decides without regard to the exchange, and `update_trade` with regard to it. Fills themselves move
volume between the parts of a leg and keep its position in balance.
-/

namespace KeenTrader.Engine

open Std (ExtTreeMap)
open Containers Runs

/-- What is neither closed nor frozen of the two parts of a leg. -/
def Leg.availability (l : Leg) : ℚ × ℚ := (l.td - l.tdFrozen, l.yd - l.ydFrozen)

/-- The volume from which a closing order of the offset is filled. -/
def Leg.bucket (l : Leg) (exchange : Exchange) : Offset → ℚ
  | .closeToday => l.td
  | .closeYesterday => l.yd
  | .close => if exchange.closesYesterday then l.yd else l.td + l.yd
  | .none | .opening => 0

namespace PositionHolding

/-- What a position does not hold from yesterday it holds from today. -/
def Snapshot (h : PositionHolding) : Prop :=
  ∀ side, 0 ≤ (h.leg side).yd ∧ (h.leg side).yd ≤ (h.leg side).pos ∧
    (h.leg side).td = (h.leg side).pos - (h.leg side).yd

/-- An order that closes a leg and has not been traded. -/
structure Closes (side : Side) (o : OrderData) : Prop where
  direction : o.direction = side.closer
  closing : o.offset.isClosing = true
  active : o.isActive = true
  traded : o.traded = 0
  volume : 0 ≤ o.volume

/-- The reports of an order's complete fill: an update that ends it, and one trade. -/
structure FilledBy (o update : OrderData) (trade : TradeData) : Prop where
  key : update.ktOrderid = o.ktOrderid
  inactive : update.isActive = false
  direction : trade.direction = o.direction
  offset : trade.offset = o.offset
  exchange : trade.exchange = o.exchange
  volume : trade.volume = o.volume

/-- A fill leaves what is available of either leg as it was when its order had been registered. -/
def DrainsFrozen (enum : Enumeration AString OrderData) (h : PositionHolding) (o update : OrderData)
    (trade : TradeData) : Prop :=
  ∀ side, (((h.updateOrder enum o).updateOrder enum update).updateTrade trade |>.leg
      side).availability = ((h.updateOrder enum o).leg side).availability

section Fill
variable {enum : Enumeration AString OrderData} {h : PositionHolding} {side : Side}
  {o update : OrderData} {trade : TradeData}

theorem Snapshot.nonneg (snapshot : h.Snapshot) (side : Side) :
    0 ≤ (h.leg side).td ∧ 0 ≤ (h.leg side).yd := by
  obtain ⟨yd, le, td⟩ := snapshot side
  exact ⟨by linarith, yd⟩

/-- The order that has been registered is the only one that freezes anything. -/
theorem leg_register (idle : h.activeOrders = ∅) (closes : Closes side o) (other : Side) :
    (h.updateOrder enum o).leg other =
      (freezeLeg other (h.leg other).clearFrozen o).sumPosFrozen := by
  have orders : (h.updateOrder enum o).activeOrders =
      (∅ : ExtTreeMap AString OrderData).insert o.ktOrderid o := by
    rw [updateOrder_activeOrders, if_pos closes.active, idle]
  rw [leg_updateOrder, orders, Enumeration.values_insert_empty]
  rfl

/-- Once it has ended nothing is frozen. -/
theorem leg_end (idle : h.activeOrders = ∅) (closes : Closes side o)
    (filled : FilledBy o update trade) (other : Side) :
    ((h.updateOrder enum o).updateOrder enum update).leg other =
      ((h.updateOrder enum o).leg other).clearFrozen.sumPosFrozen := by
  have orders : ((h.updateOrder enum o).updateOrder enum update).activeOrders = ∅ := by
    rw [updateOrder_activeOrders, if_neg (by simp [filled.inactive]), updateOrder_activeOrders,
      if_pos closes.active, idle, filled.key]
    simp [ExtTreeMap.size_insert]
  rw [leg_updateOrder, orders, Enumeration.values_empty]
  rfl

/-- What is available of a leg once the order has been registered. -/
theorem availability_register (snapshot : h.Snapshot) (idle : h.activeOrders = ∅)
    (closes : Closes side o) (other : Side) :
    ((h.updateOrder enum o).leg other).availability =
      if other = side then
        (((h.leg side).clearFrozen.freeze o.offset o.volume).sumPosFrozen).availability
      else ((h.leg other).td, (h.leg other).yd) := by
  obtain ⟨td, yd⟩ := snapshot.nonneg other
  rw [leg_register idle closes]
  unfold freezeLeg
  by_cases same : other = side
  · subst same
    rw [if_pos closes.direction, if_pos rfl, OrderData.remaining, closes.traded, sub_zero]
  · have apart : ¬o.direction = other.closer := by
      rw [closes.direction]
      cases side <;> cases other <;> simp_all [Side.closer]
    rw [if_neg apart, if_neg same]
    simp [Leg.availability, Leg.sumPosFrozen, Leg.clearFrozen, td, yd]

theorem clearFrozen_updateOrder (h : PositionHolding) (o : OrderData) (side : Side) :
    ((h.updateOrder enum o).leg side).clearFrozen = (h.leg side).clearFrozen := by
  rw [leg_updateOrder]
  obtain ⟨pos, td, yd⟩ := freezeLeg_held side (enum.values (h.updateOrder enum o).activeOrders)
    (h.leg side).clearFrozen
  simp only [Leg.sumPosFrozen, Leg.clearFrozen] at pos td yd ⊢
  rw [pos, td, yd]

theorem sumPosFrozen_clearFrozen {l : Leg} (held : 0 ≤ l.td ∧ 0 ≤ l.yd) :
    l.clearFrozen.sumPosFrozen = l.clearFrozen := by
  simp [Leg.sumPosFrozen, Leg.clearFrozen, held.1, held.2]

/-- What is available of it once the order has been filled. -/
theorem availability_filled (snapshot : h.Snapshot) (idle : h.activeOrders = ∅)
    (closes : Closes side o) (filled : FilledBy o update trade) (other : Side) :
    (((h.updateOrder enum o).updateOrder enum update).updateTrade trade |>.leg other).availability =
      if other = side then
        ((h.leg side).clearFrozen.closed o.offset o.exchange o.volume).sumPosFrozen.availability
      else ((h.leg other).td, (h.leg other).yd) := by
  have held := snapshot.nonneg other
  rw [leg_updateTrade, leg_end idle closes filled, clearFrozen_updateOrder,
    sumPosFrozen_clearFrozen held]
  unfold tradeLeg
  rw [filled.direction, filled.offset, filled.exchange, filled.volume, closes.direction]
  by_cases same : other = side
  · subst same
    have closer : ¬(other.closer = .long ↔ other = .long) := by
      cases other <;> simp [Side.closer]
    rw [if_neg closer, if_pos rfl]
    rfl
  · have opener : side.closer = .long ↔ other = .long := by
      cases side <;> cases other <;> simp_all [Side.closer]
    have open_not : o.offset ≠ .opening := by
      intro opens
      simpa [opens, Offset.isClosing] using closes.closing
    rw [if_pos opener, if_neg open_not, if_neg same]
    simp [Leg.availability, Leg.sumPosFrozen, Leg.sumPos, Leg.clearFrozen, held.1, held.2]

/-- A volume that fits is frozen where it is drained, but for a `CLOSE` order that freezes today's
volume and drains yesterday's. -/
theorem freeze_eq_closed_iff {l : Leg} {offset : Offset} {exchange : Exchange} {volume : ℚ}
    (held : 0 ≤ l.td ∧ 0 ≤ l.yd) (closing : offset.isClosing = true) (nonneg : 0 ≤ volume)
    (fits : volume ≤ l.bucket exchange offset) :
    (l.clearFrozen.closed offset exchange volume).sumPosFrozen.availability =
        (l.clearFrozen.freeze offset volume).sumPosFrozen.availability ↔
      ¬(offset = .close ∧ exchange.closesYesterday = true) ∨ l.td = 0 ∨ volume = 0 := by
  unfold Leg.bucket at fits
  cases offset with
  | none => simp [Offset.isClosing] at closing
  | opening => simp [Offset.isClosing] at closing
  | closeToday =>
    simp [Leg.availability, Leg.sumPosFrozen, Leg.closed, Leg.freeze, Leg.clearFrozen, held.2, fits]
  | closeYesterday =>
    simp [Leg.availability, Leg.sumPosFrozen, Leg.closed, Leg.freeze, Leg.clearFrozen, held.1, fits]
  | close =>
    obtain ⟨td, yd⟩ := held
    cases shfe : exchange.closesYesterday with
    | true =>
      simp only [shfe, if_true] at fits
      simp only [Leg.availability, Leg.sumPosFrozen, Leg.closed, Leg.freeze, Leg.clearFrozen, shfe,
        zero_add, if_true, true_and, not_true_eq_false, false_or, Prod.mk.injEq]
      split <;> grind
    | false =>
      simp only [shfe, Bool.false_eq_true, if_false] at fits
      simp only [Leg.availability, Leg.sumPosFrozen, Leg.closed, Leg.freeze, Leg.clearFrozen, shfe,
        zero_add, Bool.false_eq_true, and_false, not_false_eq_true, true_or, iff_true,
        Prod.mk.injEq]
      split_ifs <;> grind

/-- Registering and filling an order leaves what is available as it was, unless it is a `CLOSE`
order on SHFE or INE where something is held from today. -/
theorem drains_frozen_iff (enum : Enumeration AString OrderData) (snapshot : h.Snapshot)
    (idle : h.activeOrders = ∅) (closes : Closes side o)
    (fits : o.volume ≤ (h.leg side).bucket o.exchange o.offset) (filled : FilledBy o update trade) :
    DrainsFrozen enum h o update trade ↔
      ¬(o.offset = .close ∧ o.exchange.closesYesterday = true) ∨ (h.leg side).td = 0 ∨
        o.volume = 0 := by
  rw [← freeze_eq_closed_iff (snapshot.nonneg side) closes.closing closes.volume fits]
  unfold DrainsFrozen
  constructor
  · intro all
    have here := all side
    rwa [availability_filled snapshot idle closes filled,
      availability_register snapshot idle closes, if_pos rfl, if_pos rfl] at here
  · intro same other
    rw [availability_filled snapshot idle closes filled,
      availability_register snapshot idle closes, same]

end Fill

section Spilled

/-- Two lots are held, one of them from yesterday. -/
def oneOfEach (exchange : Exchange) : PositionHolding :=
  ofContract { symbol := "rb", exchange, product := .futures, pricetick := 1 } |>.updatePosition
    { symbol := "rb", exchange, direction := .long, volume := 2, ydVolume := 1 }

/-- One lot is sold with the plain offset. -/
def soldOne (exchange : Exchange) (status : Status) : OrderData :=
  { symbol := "rb", exchange, orderid := "1", direction := .short, offset := .close, volume := 1
    status, exchangeName := "CTP" }

def soldOneTrade (exchange : Exchange) : TradeData :=
  { symbol := "rb", exchange, orderid := "1", tradeid := "7", direction := .short, offset := .close
    volume := 1, exchangeName := "CTP" }

theorem snapshot_oneOfEach (exchange : Exchange) : (oneOfEach exchange).Snapshot := by
  intro side
  cases side
  · refine ⟨?_, ?_, ?_⟩ <;>
      norm_num [oneOfEach, updatePosition, leg, Leg.snapshot]
  · exact ⟨le_rfl, le_rfl, (sub_zero _).symm⟩

theorem soldOne_closes (exchange : Exchange) : Closes .long (soldOne exchange .submitting) :=
  ⟨rfl, rfl, rfl, rfl, zero_le_one⟩

theorem soldOne_filled (exchange : Exchange) :
    FilledBy (soldOne exchange .submitting) (soldOne exchange .allTraded)
      (soldOneTrade exchange) :=
  ⟨rfl, rfl, rfl, rfl, rfl, rfl⟩

theorem soldOne_fits (exchange : Exchange) : (soldOne exchange .submitting).volume ≤
    ((oneOfEach exchange).leg .long).bucket exchange .close := by
  cases exchange <;> decide +kernel

/-- Elsewhere the lot of today is frozen and drained. -/
theorem dce_drains_frozen : DrainsFrozen .sorted (oneOfEach .dce) (soldOne .dce .submitting)
    (soldOne .dce .allTraded) (soldOneTrade .dce) :=
  (drains_frozen_iff .sorted (snapshot_oneOfEach .dce) rfl (soldOne_closes .dce)
    (soldOne_fits .dce) (soldOne_filled .dce)).mpr (.inl (by decide))

/-- On SHFE the lot of today is frozen, and the one of yesterday is drained. -/
theorem shfe_drains_other :
    ¬ ∀ (enum : Enumeration AString OrderData) (h : PositionHolding) (side : Side)
      (o update : OrderData) (trade : TradeData), h.Snapshot → h.activeOrders = ∅ →
      Closes side o → o.volume ≤ (h.leg side).bucket o.exchange o.offset →
      FilledBy o update trade → DrainsFrozen enum h o update trade := by
  intro all
  have drains := all .sorted (oneOfEach .shfe) .long _ _ _ (snapshot_oneOfEach .shfe) rfl
    (soldOne_closes .shfe) (soldOne_fits .shfe) (soldOne_filled .shfe) .long
  exact absurd drains (by decide +kernel)

end Spilled

/-! ## The balance of trades -/

/-- The trade opens the leg. -/
def opens (side : Side) (t : TradeData) : Bool :=
  (t.direction = .long ↔ side = .long) ∧ t.offset = .opening

/-- The trade closes the leg. -/
def closes (side : Side) (t : TradeData) : Bool := t.direction = side.closer ∧ t.offset.isClosing

/-- What the trades of a kind add up to. -/
def traded (kind : TradeData → Bool) (ts : List TradeData) : ℚ :=
  ((ts.filter kind).map TradeData.volume).sum

theorem traded_cons (kind : TradeData → Bool) (t : TradeData) (ts : List TradeData) :
    traded kind (t :: ts) = (if kind t then t.volume else 0) + traded kind ts := by
  unfold traded
  cases holds : kind t <;> simp [holds]

/-- A trade as exchanges report it: it is long or short, and opens or closes. -/
structure Reported (t : TradeData) : Prop where
  direction : t.direction ≠ .net
  offset : t.offset ≠ .none
  volume : 0 ≤ t.volume

/-- The parts of both legs are not negative. -/
def Held (h : PositionHolding) : Prop := ∀ side, 0 ≤ (h.leg side).td ∧ 0 ≤ (h.leg side).yd

/-- The trade closes no more of a leg than its position. -/
def Covered (h : PositionHolding) (t : TradeData) : Prop :=
  ∀ side, closes side t = true → t.volume ≤ (h.leg side).pos

/-- The trade takes from yesterday's volume only after today's is gone. -/
def TodayFirst (h : PositionHolding) (t : TradeData) : Prop :=
  ∀ side, ((h.updateTrade t).leg side).yd < (h.leg side).yd → ((h.updateTrade t).leg side).td = 0

/-- The trade is made elsewhere than on SHFE and INE, with a plain offset. -/
def Plain (t : TradeData) : Prop :=
  t.exchange.closesYesterday = false ∧ (t.offset = .opening ∨ t.offset = .close)

section Trades
variable {h : PositionHolding} {side : Side} {t : TradeData} {ts : List TradeData}

/-- A closing trade takes its volume from the two parts of the leg together. -/
theorem closed_sum {offset : Offset} (closing : offset.isClosing = true) (exchange : Exchange)
    (volume : ℚ) (l : Leg) :
    (l.closed offset exchange volume).td + (l.closed offset exchange volume).yd =
      l.td + l.yd - volume := by
  cases offset with
  | none => simp [Offset.isClosing] at closing
  | opening => simp [Offset.isClosing] at closing
  | closeToday => simp only [Leg.closed]; ring
  | closeYesterday => simp only [Leg.closed]; ring
  | close =>
    simp only [Leg.closed]
    split
    · ring
    · split
      · ring
      · ring

/-- A reported trade opens a leg, closes it, or is made on the other one. -/
theorem opens_or_closes (reported : Reported t) (side : Side) :
    (opens side t = true ∧ closes side t = false ∧ ∀ l, tradeLeg side t l = l.opened t.volume) ∨
      (opens side t = false ∧ closes side t = true ∧
        ∀ l, tradeLeg side t l = l.closed t.offset t.exchange t.volume) ∨
      (opens side t = false ∧ closes side t = false ∧ ∀ l, tradeLeg side t l = l) := by
  obtain ⟨net, none, -⟩ := reported
  unfold opens closes tradeLeg
  cases offset : t.offset <;> cases direction : t.direction <;> cases side <;>
    simp_all [Side.closer, Offset.isClosing, Leg.closed]

theorem tradeLeg_sum (reported : Reported t) (l : Leg) :
    (tradeLeg side t l).td + (tradeLeg side t l).yd =
      l.td + l.yd + (if opens side t then t.volume else 0) -
        if closes side t then t.volume else 0 := by
  obtain ⟨opened, closed, leg⟩ | ⟨opened, closed, leg⟩ | ⟨opened, closed, leg⟩ :=
    opens_or_closes reported side
  · rw [leg, if_pos opened, if_neg (by simp [closed]), Leg.opened]
    ring
  · have closing : t.offset.isClosing = true := by
      unfold closes at closed
      simp_all
    rw [leg, closed_sum closing, if_neg (by simp [opened]), if_pos closed]
    ring
  · rw [leg, if_neg (by simp [opened]), if_neg (by simp [closed])]
    ring

theorem pos_updateTrade (reported : Reported t)
    (sum : (h.leg side).pos = (h.leg side).td + (h.leg side).yd) :
    ((h.updateTrade t).leg side).pos =
      (h.leg side).pos + (if opens side t then t.volume else 0) -
        if closes side t then t.volume else 0 := by
  rw [leg_updateTrade, sum, ← tradeLeg_sum reported]
  rfl

theorem pos_foldl_updateTrade (reported : ∀ t ∈ ts, Reported t)
    (sum : (h.leg side).pos = (h.leg side).td + (h.leg side).yd) :
    ((ts.foldl updateTrade h).leg side).pos =
      (h.leg side).pos + traded (opens side) ts - traded (closes side) ts := by
  induction ts generalizing h with
  | nil => simp [traded]
  | cons t ts ih =>
    obtain ⟨here, rest⟩ := List.forall_mem_cons.mp reported
    rw [List.foldl_cons, ih rest (sound_updateTrade h t side).1.pos_eq, pos_updateTrade here sum,
      traded_cons, traded_cons]
    ring

/-- A plain trade that is covered takes today's volume first, and from yesterday's no more than it
has. -/
theorem held_plain (held : h.Held) (reported : Reported t)
    (sum : (h.leg side).pos = (h.leg side).td + (h.leg side).yd) (plain : Plain t)
    (covered : Covered h t) :
    (0 ≤ ((h.updateTrade t).leg side).td ∧ 0 ≤ ((h.updateTrade t).leg side).yd) ∧
      (((h.updateTrade t).leg side).yd < (h.leg side).yd →
        ((h.updateTrade t).leg side).td = 0) := by
  obtain ⟨td, yd⟩ := held side
  rw [leg_updateTrade]
  obtain ⟨-, -, leg⟩ | ⟨-, closed, leg⟩ | ⟨-, -, leg⟩ := opens_or_closes reported side
  · rw [leg]
    have volume := reported.volume
    simp only [Leg.sumPosFrozen, Leg.sumPos, Leg.opened, lt_self_iff_false, false_implies]
    exact ⟨⟨by linarith, yd⟩, trivial⟩
  · have fits := covered side closed
    rw [sum] at fits
    obtain ⟨other, opening | close⟩ := plain
    · simp [closes, opening, Offset.isClosing] at closed
    rw [leg, close]
    simp only [Leg.sumPosFrozen, Leg.sumPos, Leg.closed, other, Bool.false_eq_true, if_false]
    by_cases spills : (h.leg side).td - t.volume < 0
    · rw [if_pos spills]
      exact ⟨⟨le_rfl, by linarith⟩, fun _ => rfl⟩
    · rw [if_neg spills]
      exact ⟨⟨not_lt.mp spills, yd⟩, fun less => absurd less (lt_irrefl _)⟩
  · rw [leg]
    exact ⟨⟨td, yd⟩, fun less => absurd less (lt_irrefl _)⟩

/-- Plain trades that are covered one after the other keep both parts of a leg from going below
zero. -/
theorem always_held (held : h.Held)
    (sum : ∀ side, (h.leg side).pos = (h.leg side).td + (h.leg side).yd)
    (reported : ∀ t ∈ ts, Reported t) (plain : ∀ t ∈ ts, Plain t)
    (covered : Meets updateTrade Covered h ts) :
    Always updateTrade Held h ts ∧ Meets updateTrade TodayFirst h ts := by
  induction ts generalizing h with
  | nil => exact ⟨held, trivial⟩
  | cons t ts ih =>
    obtain ⟨reported_t, reported⟩ := List.forall_mem_cons.mp reported
    obtain ⟨plain_t, plain⟩ := List.forall_mem_cons.mp plain
    obtain ⟨covered_t, covered⟩ := covered
    have step := fun side => held_plain held reported_t (sum side) plain_t covered_t
    obtain ⟨always, first⟩ := ih (fun side => (step side).1)
      (fun side => (sound_updateTrade h t side).1.pos_eq) reported plain covered
    exact ⟨⟨held, always⟩, fun side => (step side).2, first⟩

/-- Trades keep the positions in balance. Where they are plain and covered, no part of a leg goes
below zero, and today's volume is closed before yesterday's. -/
theorem trades_balance (snapshot : h.Snapshot) (reported : ∀ t ∈ ts, Reported t) :
    (∀ side, ((ts.foldl updateTrade h).leg side).pos =
      (h.leg side).pos + traded (opens side) ts - traded (closes side) ts) ∧
    ((∀ t ∈ ts, Plain t) → Meets updateTrade Covered h ts →
      Always updateTrade Held h ts ∧ Meets updateTrade TodayFirst h ts) := by
  have sum : ∀ side, (h.leg side).pos = (h.leg side).td + (h.leg side).yd := by
    intro side
    rw [(snapshot side).2.2]
    ring
  exact ⟨fun side => pos_foldl_updateTrade reported (sum side),
    always_held snapshot.nonneg sum reported⟩

end Trades

/-- A lot is sold and another one bought, and then both are sold. -/
def soldOutAgain : List TradeData :=
  [soldOneTrade .dce, { soldOneTrade .dce with direction := .long, offset := .opening },
    { soldOneTrade .dce with volume := 2 }]

/-- With every sale today's lot goes first, and with the last one yesterday's, too. -/
theorem dce_balance :
    ((soldOutAgain.foldl updateTrade (oneOfEach .dce)).leg .long).pos = 0 ∧
      Always updateTrade Held (oneOfEach .dce) soldOutAgain ∧
      Meets updateTrade TodayFirst (oneOfEach .dce) soldOutAgain := by
  have each : ∀ t ∈ soldOutAgain, Reported t ∧ Plain t := by
    refine List.forall_mem_cons.mpr ⟨⟨?_, rfl, .inr rfl⟩, List.forall_mem_cons.mpr
      ⟨⟨?_, rfl, .inl rfl⟩, List.forall_mem_singleton.mpr ⟨?_, rfl, .inr rfl⟩⟩⟩ <;>
      exact ⟨by decide, by decide, by decide +kernel⟩
  obtain ⟨balance, held⟩ :=
    trades_balance (snapshot_oneOfEach .dce) fun t mem => (each t mem).1
  refine ⟨(balance .long).trans (by decide +kernel), held (fun t mem => (each t mem).2) ?_⟩
  refine ⟨fun side => ?_, fun side => ?_, fun side => ?_, trivial⟩ <;> cases side <;>
    decide +kernel

end PositionHolding

end KeenTrader.Engine
