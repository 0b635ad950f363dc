import KeenTrader.Library.Runs
import KeenTrader.Library.Segments
import KeenTrader.Library.Floats
import KeenTrader.App.Template

/-!
# The R-Breaker strategy

`RBreakStrategy` computes six price levels from the range of a day and, on the next days, places
stop orders at them with every bar. Its arithmetic is that of a format `F`. The callback of a bar
is a function from the strategy and the bar to the strategy and the calls that it makes; the log and
the event for the user interface are left out.
-/

namespace KeenTrader.App

open KeenTrader.Engine Runs Segments
open Floats (Format)

/-! ## The array manager -/

/-- The last prices, which only count: `donchian` has lost its body. -/
structure ArrayManager where
  size : ℕ := 100
  count : ℕ := 0
  inited : Bool := false
  highArray : List ℚ := List.replicate size 0
  lowArray : List ℚ := List.replicate size 0

namespace ArrayManager

def updateBar (am : ArrayManager) (bar : BarData) : ArrayManager :=
  { am with
    count := am.count + 1
    inited := am.inited || decide (am.size ≤ am.count + 1)
    highArray := am.highArray.tail ++ [bar.highPrice]
    lowArray := am.lowArray.tail ++ [bar.lowPrice] }

@[simp] theorem updateBar_size (am : ArrayManager) (bar : BarData) :
    (am.updateBar bar).size = am.size := rfl

@[simp] theorem updateBar_count (am : ArrayManager) (bar : BarData) :
    (am.updateBar bar).count = am.count + 1 := rfl

def donchian (_am : ArrayManager) (_n : ℚ) : ℚ × ℚ := (0, 0)

end ArrayManager

/-! ## The strategy -/

/-- `getDays`. -/
def getDays (datetime : DateTime) : ℤ := datetime / 86400000

structure DayRange where
  dayOpen : ℚ := 0
  dayHigh : ℚ := 0
  dayClose : ℚ := 0
  dayLow : ℚ := 0

structure Levels where
  buyBreak : ℚ := 0
  sellSetup : ℚ := 0
  sellEnter : ℚ := 0
  buyEnter : ℚ := 0
  buySetup : ℚ := 0
  sellBreak : ℚ := 0

/-- Settings do not reach the parameters: they keep the values that they begin with. -/
structure RBreakStrategy extends CtaTemplate where
  setupCoef : ℚ
  breakCoef : ℚ
  enterCoef1 : ℚ
  enterCoef2 : ℚ
  fixedSize : ℚ
  donchianWindow : ℚ
  trailingLong : ℚ
  trailingShort : ℚ
  multiplier : ℚ
  levels : Levels := {}
  intraTradeHigh : ℚ := 0
  intraTradeLow : ℚ := 0
  day : DayRange := {}
  tendHigh : ℚ := 0
  tendLow : ℚ := 0
  am : ArrayManager := {}
  bars : List BarData := []

namespace RBreakStrategy

variable (F : Format)

/-- The strategy as it is constructed. -/
def create (strategy : CtaTemplate) : RBreakStrategy :=
  { strategy with
    setupCoef := F.round 0.25
    breakCoef := F.round 0.2
    enterCoef1 := F.round 1.07
    enterCoef2 := F.round 0.07
    fixedSize := F.round 1
    donchianWindow := F.round 30
    trailingLong := F.round 0.4
    trailingShort := F.round 0.4
    multiplier := F.round 3 }

/-- The levels that the range of a day gives for the days behind it. -/
def levelsOf (s : RBreakStrategy) (day : DayRange) : Levels :=
  let buySetup := F.sub day.dayLow (F.mul s.setupCoef (F.sub day.dayHigh day.dayClose))
  let sellSetup := F.add day.dayHigh (F.mul s.setupCoef (F.sub day.dayClose day.dayLow))
  let middle := F.mul (F.div s.enterCoef1 2) (F.add day.dayHigh day.dayLow)
  { buySetup, sellSetup
    buyEnter := F.sub middle (F.mul s.enterCoef2 day.dayHigh)
    sellEnter := F.sub middle (F.mul s.enterCoef2 day.dayLow)
    buyBreak := F.add sellSetup (F.mul s.breakCoef (F.sub sellSetup buySetup))
    sellBreak := F.sub buySetup (F.mul s.breakCoef (F.sub sellSetup buySetup)) }

/-- The first bar of a day. -/
def newDay (s : RBreakStrategy) (bar : BarData) : RBreakStrategy :=
  { s with
    levels := if s.day.dayOpen ≠ 0 then s.levelsOf F s.day else s.levels
    day :=
      { dayOpen := bar.openPrice, dayHigh := bar.highPrice, dayClose := bar.closePrice
        dayLow := bar.lowPrice } }

/-- Another bar of the day. -/
def sameDay (s : RBreakStrategy) (bar : BarData) : RBreakStrategy :=
  { s with
    day :=
      { s.day with
        dayHigh := max s.day.dayHigh bar.highPrice
        dayLow := min s.day.dayLow bar.lowPrice
        dayClose := bar.closePrice } }

/-- The orders of a strategy without a position. -/
def enter (s : RBreakStrategy) : List TemplateCall :=
  if s.levels.sellSetup < s.tendHigh then
    [.buy (max s.levels.buyBreak s.day.dayHigh) s.fixedSize true false false,
      .short s.levels.sellEnter (F.mul s.multiplier s.fixedSize) true false false]
  else if s.tendLow < s.levels.buySetup then
    [.short (min s.levels.sellBreak s.day.dayLow) s.fixedSize true false false,
      .buy s.levels.buyEnter (F.mul s.multiplier s.fixedSize) true false false]
  else []

def longFactor (s : RBreakStrategy) : ℚ := F.sub 1 (F.div s.trailingLong 100)

def shortFactor (s : RBreakStrategy) : ℚ := F.add 1 (F.div s.trailingShort 100)

/-- The part of `on_bar` that orders. -/
def placeOrders (s : RBreakStrategy) (bar : BarData) : List TemplateCall × RBreakStrategy :=
  if s.pos = 0 then
    let s := { s with intraTradeLow := bar.lowPrice, intraTradeHigh := bar.highPrice }
    (s.enter F, s)
  else if 0 < s.pos then
    let s := { s with intraTradeHigh := max s.intraTradeHigh bar.highPrice }
    ([.sell (F.mul s.intraTradeHigh (s.longFactor F)) |s.pos| true false false], s)
  else
    let s := { s with intraTradeLow := min s.intraTradeLow bar.lowPrice }
    ([.cover (F.mul s.intraTradeLow (s.shortFactor F)) |s.pos| true false false], s)

/-- The part of `on_bar` that keeps the range of the day. -/
def updateDay (s : RBreakStrategy) (lastBar bar : BarData) : RBreakStrategy :=
  if getDays lastBar.datetime ≠ getDays bar.datetime then s.newDay F bar else s.sameDay bar

/-- The part of `on_bar` that compares the bar with the one before. -/
def follow (s : RBreakStrategy) (lastBar bar : BarData) : List TemplateCall × RBreakStrategy :=
  let s := s.updateDay F lastBar bar
  if s.levels.sellSetup = 0 then ([], s)
  else
    let channel := s.am.donchian s.donchianWindow
    placeOrders F { s with tendHigh := channel.1, tendLow := channel.2 } bar

/-- Three bars are in the queue when one is taken out, so that there always is a last one. -/
def onBar (s : RBreakStrategy) (bar : BarData) : List TemplateCall × RBreakStrategy :=
  let s := { s with am := s.am.updateBar bar }
  if s.am.inited = false then ([.cancelAll], s)
  else
    let s := { s with bars := s.bars ++ [bar] }
    if s.bars.length ≤ 2 then ([.cancelAll], s)
    else
      let s := { s with bars := s.bars.tail }
      match s.bars.dropLast.getLast? with
      | none => ([.cancelAll], s)
      | some lastBar =>
        let (calls, s) := s.follow F lastBar bar
        (.cancelAll :: calls, s)

end RBreakStrategy

/-! ## Runs -/

/-- What the strategy is given: bars, and positions, which the engine changes as it trades. -/
inductive BarInput where
  | bar (bar : BarData)
  | position (pos : ℚ)

/-- A bar, the position with which it was met, and the calls that were made. -/
structure Visit where
  pos : ℚ
  bar : BarData
  calls : List TemplateCall
  deriving DecidableEq

/-- A strategy and its bars, latest last. -/
structure RBreakSession where
  strategy : RBreakStrategy
  visits : List Visit := []

namespace RBreakSession

variable (F : Format)

def step (s : RBreakSession) : BarInput → RBreakSession
  | .bar bar =>
    let (calls, strategy) := s.strategy.onBar F bar
    { strategy, visits := s.visits ++ [{ pos := s.strategy.pos, bar, calls }] }
  | .position pos => { s with strategy := { s.strategy with pos } }

def run (strategy : CtaTemplate) (inputs : List BarInput) : RBreakSession :=
  inputs.foldl (step F) { strategy := .create F strategy }

def bars (s : RBreakSession) : List BarData := s.visits.map (·.bar)

/-- The days on which the strategy has been from their first bar on: those that begin behind the
first bar of which it knows the bar before, the hundred-and-first. -/
def fullDays (s : RBreakSession) : List (List BarData) :=
  (byKey (getDays ·.datetime) (s.bars.drop 100)).tail

/-- The range of a day. -/
def rangeOf (day : List BarData) : DayRange :=
  { dayOpen := (day.head?.map (·.openPrice)).getD 0
    dayHigh := (day.map (·.highPrice)).max?.getD 0
    dayClose := (day.getLast?.map (·.closePrice)).getD 0
    dayLow := (day.map (·.lowPrice)).min?.getD 0 }

/-- The ranges of the full days that are over, of those that have an opening price. -/
def closedRanges (s : RBreakSession) : List DayRange :=
  (s.fullDays.dropLast.map rangeOf).filter (·.dayOpen ≠ 0)

/-- The range is that of the current day once this is a full one, and has no opening price before
the first full day. The levels are those of the last full day that is over and has an opening
price, or none. -/
structure Follows (s : RBreakSession) : Prop where
  day : ∀ day ∈ s.fullDays.getLast?, s.strategy.day = rangeOf day
  fresh : s.fullDays = [] → s.strategy.day.dayOpen = 0
  levels : s.strategy.levels = (s.closedRanges.getLast?.map (s.strategy.levelsOf F)).getD {}

end RBreakSession

/-! ## What a bar changes -/

namespace RBreakStrategy

variable {F : Format} {s : RBreakStrategy} {bar lastBar older : BarData}

/-- Orders are placed at extremes of the trade, and nothing else is remembered. -/
theorem placeOrders_eq (s : RBreakStrategy) (bar : BarData) :
    ∃ high low,
      (s.placeOrders F bar).2 = { s with intraTradeHigh := high, intraTradeLow := low } := by
  unfold placeOrders
  split
  · exact ⟨_, _, rfl⟩
  split
  · exact ⟨_, s.intraTradeLow, rfl⟩
  · exact ⟨s.intraTradeHigh, _, rfl⟩

/-- Without levels nothing is ordered. -/
theorem follow_unset (unset : (s.updateDay F lastBar bar).levels.sellSetup = 0) :
    s.follow F lastBar bar = ([], s.updateDay F lastBar bar) := by
  unfold follow
  simp [unset]

/-- The channel is empty. -/
theorem follow_set (set_ : (s.updateDay F lastBar bar).levels.sellSetup ≠ 0) :
    s.follow F lastBar bar =
      placeOrders F { s.updateDay F lastBar bar with tendHigh := 0, tendLow := 0 } bar := by
  unfold follow
  simp [set_, ArrayManager.donchian]

theorem follow_eq (s : RBreakStrategy) (lastBar bar : BarData) :
    ∃ high low tendHigh tendLow, (s.follow F lastBar bar).2 =
      { s.updateDay F lastBar bar with
        intraTradeHigh := high, intraTradeLow := low, tendHigh, tendLow } := by
  by_cases unset : (s.updateDay F lastBar bar).levels.sellSetup = 0
  · rw [follow_unset unset]
    exact ⟨(s.updateDay F lastBar bar).intraTradeHigh, (s.updateDay F lastBar bar).intraTradeLow,
      (s.updateDay F lastBar bar).tendHigh, (s.updateDay F lastBar bar).tendLow, rfl⟩
  · obtain ⟨high, low, eq⟩ := placeOrders_eq (F := F)
      { s.updateDay F lastBar bar with tendHigh := 0, tendLow := 0 } bar
    rw [follow_set unset]
    exact ⟨high, low, 0, 0, eq⟩

@[simp] theorem follow_am (s : RBreakStrategy) (lastBar bar : BarData) :
    (s.follow F lastBar bar).2.am = s.am := by
  obtain ⟨high, low, tendHigh, tendLow, eq⟩ := s.follow_eq (F := F) lastBar bar
  rw [eq, updateDay]
  split <;> rfl

@[simp] theorem follow_bars (s : RBreakStrategy) (lastBar bar : BarData) :
    (s.follow F lastBar bar).2.bars = s.bars := by
  obtain ⟨high, low, tendHigh, tendLow, eq⟩ := s.follow_eq (F := F) lastBar bar
  rw [eq, updateDay]
  split <;> rfl

theorem follow_day (s : RBreakStrategy) (lastBar bar : BarData) :
    (s.follow F lastBar bar).2.day = (s.updateDay F lastBar bar).day := by
  obtain ⟨high, low, tendHigh, tendLow, eq⟩ := s.follow_eq (F := F) lastBar bar
  rw [eq]

theorem follow_levels (s : RBreakStrategy) (lastBar bar : BarData) :
    (s.follow F lastBar bar).2.levels = (s.updateDay F lastBar bar).levels := by
  obtain ⟨high, low, tendHigh, tendLow, eq⟩ := s.follow_eq (F := F) lastBar bar
  rw [eq]

/-- Two strategies with the same parameters. -/
structure SameParameters (s t : RBreakStrategy) : Prop where
  setupCoef : s.setupCoef = t.setupCoef
  breakCoef : s.breakCoef = t.breakCoef
  enterCoef1 : s.enterCoef1 = t.enterCoef1
  enterCoef2 : s.enterCoef2 = t.enterCoef2
  fixedSize : s.fixedSize = t.fixedSize
  trailingLong : s.trailingLong = t.trailingLong
  trailingShort : s.trailingShort = t.trailingShort
  multiplier : s.multiplier = t.multiplier

theorem SameParameters.levelsOf {s t : RBreakStrategy} (same : s.SameParameters t) :
    s.levelsOf F = t.levelsOf F := by
  funext day
  unfold RBreakStrategy.levelsOf
  rw [same.setupCoef, same.breakCoef, same.enterCoef1, same.enterCoef2]

theorem SameParameters.trans {s t u : RBreakStrategy} (first : s.SameParameters t)
    (second : t.SameParameters u) : s.SameParameters u := by
  constructor
  · exact first.setupCoef.trans second.setupCoef
  · exact first.breakCoef.trans second.breakCoef
  · exact first.enterCoef1.trans second.enterCoef1
  · exact first.enterCoef2.trans second.enterCoef2
  · exact first.fixedSize.trans second.fixedSize
  · exact first.trailingLong.trans second.trailingLong
  · exact first.trailingShort.trans second.trailingShort
  · exact first.multiplier.trans second.multiplier

theorem follow_sameParameters (s : RBreakStrategy) (lastBar bar : BarData) :
    (s.follow F lastBar bar).2.SameParameters s := by
  obtain ⟨high, low, tendHigh, tendLow, eq⟩ := s.follow_eq (F := F) lastBar bar
  rw [eq, updateDay]
  split <;> constructor <;> rfl

/-- The strategy with a bar in the queue behind the last one. -/
def enqueue (s : RBreakStrategy) (lastBar bar : BarData) : RBreakStrategy :=
  { s with am := s.am.updateBar bar, bars := [lastBar, bar] }

/-- A bar that the array manager needs before it is ready. -/
theorem onBar_of_early (early : (s.am.updateBar bar).inited = false) :
    s.onBar F bar = ([.cancelAll], { s with am := s.am.updateBar bar }) := by
  unfold onBar
  simp [early]

/-- One of the first two bars that are queued. -/
theorem onBar_of_queued (ready : (s.am.updateBar bar).inited = true) (few : s.bars.length ≤ 1) :
    s.onBar F bar =
      ([.cancelAll], { s with am := s.am.updateBar bar, bars := s.bars ++ [bar] }) := by
  unfold onBar
  simp [ready, few]

/-- Any later bar. -/
theorem onBar_of_last (ready : (s.am.updateBar bar).inited = true)
    (queue : s.bars = [older, lastBar]) :
    s.onBar F bar =
      (.cancelAll :: ((s.enqueue lastBar bar).follow F lastBar bar).1,
        ((s.enqueue lastBar bar).follow F lastBar bar).2) := by
  unfold onBar enqueue
  simp [ready, queue]

end RBreakStrategy

namespace RBreakSession

variable {F : Format} {s : RBreakSession} {strategy : CtaTemplate}

/-- The queue holds the last two bars from the one on with which the array manager is ready. -/
structure Tracks (s : RBreakSession) : Prop where
  size : s.strategy.am.size = 100
  count : s.strategy.am.count = s.visits.length
  inited : s.strategy.am.inited = decide (100 ≤ s.visits.length)
  queue : s.strategy.bars = s.bars.drop (max 99 (s.visits.length - 2))

theorem step_bar (bar : BarData) :
    s.step F (.bar bar) =
      { strategy := (s.strategy.onBar F bar).2
        visits := s.visits ++
          [{ pos := s.strategy.pos, bar, calls := (s.strategy.onBar F bar).1 }] } := rfl

theorem run_concat (F : Format) (strategy : CtaTemplate) (inputs : List BarInput)
    (input : BarInput) :
    run F strategy (inputs ++ [input]) = (run F strategy inputs).step F input :=
  List.foldl_concat ..

theorem bars_length (s : RBreakSession) : s.bars.length = s.visits.length := by
  simp [bars]

theorem updateBar_inited (tracks : s.Tracks) (bar : BarData) :
    (s.strategy.am.updateBar bar).inited = decide (99 ≤ s.visits.length) := by
  have size := tracks.size
  have count := tracks.count
  have inited := tracks.inited
  simp only [ArrayManager.updateBar, size, count, inited]
  rw [← Bool.decide_or]
  exact decide_eq_decide.mpr (by omega)

/-- From the hundred and second bar on there are two bars in the queue. -/
theorem queue_of_late (tracks : s.Tracks) (late : 101 ≤ s.visits.length) :
    ∃ before older lastBar, s.bars = before ++ [older, lastBar] ∧
      s.strategy.bars = [older, lastBar] := by
  have length := s.bars_length
  have queue := tracks.queue
  rw [max_eq_right (by omega)] at queue
  have two : (s.bars.drop (s.visits.length - 2)).length = 2 := by simp; omega
  obtain ⟨older, lastBar, pair⟩ := List.length_eq_two.mp two
  refine ⟨s.bars.take (s.visits.length - 2), older, lastBar, ?_, queue.trans pair⟩
  rw [← pair, List.take_append_drop]

/-- The three kinds of bars: those before the array manager is ready, the first two that are queued,
and those that are compared with the one before. -/
theorem onBar_cases (F : Format) (tracks : s.Tracks) (bar : BarData) :
    (s.visits.length < 99 ∧
      s.strategy.onBar F bar =
        ([.cancelAll], { s.strategy with am := s.strategy.am.updateBar bar })) ∨
    (99 ≤ s.visits.length ∧ s.visits.length ≤ 100 ∧
      s.strategy.onBar F bar =
        ([.cancelAll],
          { s.strategy with
            am := s.strategy.am.updateBar bar, bars := s.strategy.bars ++ [bar] })) ∨
    (101 ≤ s.visits.length ∧ ∃ before older lastBar, s.bars = before ++ [older, lastBar] ∧
      s.strategy.onBar F bar =
        (.cancelAll :: ((s.strategy.enqueue lastBar bar).follow F lastBar bar).1,
          ((s.strategy.enqueue lastBar bar).follow F lastBar bar).2)) := by
  have inited := updateBar_inited tracks bar
  rcases Nat.lt_or_ge s.visits.length 99 with early | ready
  · exact .inl ⟨early, RBreakStrategy.onBar_of_early (by simpa [inited] using early)⟩
  rcases Nat.lt_or_ge s.visits.length 101 with few | late
  · refine .inr (.inl ⟨ready, by omega, ?_⟩)
    apply RBreakStrategy.onBar_of_queued (by simpa [inited] using ready)
    rw [tracks.queue, List.length_drop, bars_length]
    omega
  · obtain ⟨before, older, lastBar, split, queue⟩ := queue_of_late tracks late
    refine .inr (.inr ⟨late, before, older, lastBar, split, ?_⟩)
    exact RBreakStrategy.onBar_of_last (by simpa [inited] using ready) queue

theorem tracks_step (F : Format) (tracks : s.Tracks) (input : BarInput) :
    (s.step F input).Tracks := by
  cases input with
  | position pos => exact ⟨tracks.size, tracks.count, tracks.inited, tracks.queue⟩
  | bar bar =>
    have length := s.bars_length
    have inited := updateBar_inited tracks bar
    have size := tracks.size
    have count := tracks.count
    have queue := tracks.queue
    rw [step_bar]
    rcases onBar_cases F tracks bar with ⟨early, eq⟩ | ⟨ready, few, eq⟩ |
      ⟨late, before, older, lastBar, split, eq⟩
    · rw [eq]
      refine ⟨size, by simpa using count, by simp [inited], ?_⟩
      rw [max_eq_left (by omega)] at queue
      simp only [queue, bars, List.length_append, List.length_singleton]
      rw [List.drop_eq_nil_of_le (by simp; omega), List.drop_eq_nil_of_le (by simp; omega)]
    · rw [eq]
      refine ⟨size, by simpa using count, by simp [inited], ?_⟩
      rw [max_eq_left (by omega)] at queue
      simp only [queue, bars, List.length_append, List.length_singleton, List.map_append]
      rw [max_eq_left (by omega), List.drop_append_of_le_length (by simp; omega)]
      rfl
    · rw [eq]
      have total : before.length + 2 = s.visits.length := by
        rw [← length, split]
        simp
      have queued : (s.bars ++ [bar]).drop (max 99 (s.visits.length + 1 - 2)) = [lastBar, bar] := by
        rw [split, max_eq_right (by omega),
          show s.visits.length + 1 - 2 = (before ++ [older]).length by simp; omega]
        simp
      refine ⟨by simpa [RBreakStrategy.enqueue] using size,
        by simpa [RBreakStrategy.enqueue] using count, ?_, ?_⟩
      · simp [inited, RBreakStrategy.enqueue]
      · simpa [bars, RBreakStrategy.enqueue] using queued.symm

theorem tracks_run (inputs : List BarInput) : (run F strategy inputs).Tracks :=
  foldl_invariant (step F) (fun _ input now => tracks_step F now input)
    ⟨rfl, rfl, rfl, by simp [bars, RBreakStrategy.create]⟩

/-! ## The day and its levels -/

/-- The range of a day with one bar more. -/
theorem rangeOf_concat {day : List BarData} (started : day ≠ []) (bar : BarData) :
    rangeOf (day ++ [bar]) =
      { rangeOf day with
        dayHigh := max (rangeOf day).dayHigh bar.highPrice
        dayLow := min (rangeOf day).dayLow bar.lowPrice
        dayClose := bar.closePrice } := by
  obtain ⟨high, high_eq⟩ : ∃ high, (day.map (·.highPrice)).max? = some high := by
    cases day with
    | nil => contradiction
    | cons first rest => exact ⟨_, List.max?_cons'⟩
  obtain ⟨low, low_eq⟩ : ∃ low, (day.map (·.lowPrice)).min? = some low := by
    cases day with
    | nil => contradiction
    | cons first rest => exact ⟨_, List.min?_cons'⟩
  have highs := max?_concat high_eq bar.highPrice
  have lows := min?_concat low_eq bar.lowPrice
  unfold rangeOf
  simp only [List.map_append, List.map_cons, List.map_nil, highs, lows, high_eq, low_eq,
    List.head?_append, List.getLast?_concat]
  cases day with
  | nil => contradiction
  | cons first rest => simp

theorem follows_of_same {t : RBreakSession} (follows : Follows F s)
    (fullDays : t.fullDays = s.fullDays) (day : t.strategy.day = s.strategy.day)
    (levels : t.strategy.levels = s.strategy.levels)
    (same : t.strategy.SameParameters s.strategy) : Follows F t := by
  have closed : t.closedRanges = s.closedRanges := by
    unfold closedRanges
    rw [fullDays]
  refine ⟨?_, ?_, ?_⟩
  · rw [fullDays, day]
    exact follows.day
  · rw [fullDays, day]
    exact follows.fresh
  · rw [levels, closed, same.levelsOf]
    exact follows.levels

theorem fullDays_of_few (few : s.visits.length ≤ 101) : s.fullDays = [] := by
  have length := s.bars_length
  unfold fullDays byKey
  cases watched : s.bars.drop 100 with
  | nil => rfl
  | cons first rest =>
    have one : (s.bars.drop 100).length ≤ 1 := by simp; omega
    rw [watched, List.length_cons] at one
    obtain rfl := List.length_eq_zero_iff.mp (show rest.length = 0 by omega)
    rfl

/-- The range and the levels of a day that goes on. -/
theorem follows_join {t : RBreakSession} {segs : List (List BarData)} {seg : List BarData}
    {bar : BarData} (follows : Follows F s) (started : seg ≠ [])
    (before : s.fullDays = (segs ++ [seg]).tail)
    (after : t.fullDays = (segs ++ [seg ++ [bar]]).tail)
    (day : t.strategy.day = (s.strategy.sameDay bar).day)
    (levels : t.strategy.levels = s.strategy.levels)
    (same : t.strategy.SameParameters s.strategy) : Follows F t := by
  cases segs with
  | nil =>
    have none : s.fullDays = [] := before
    refine ⟨?_, fun _ => ?_, ?_⟩
    · rw [after]
      simp
    · rw [day]
      exact follows.fresh none
    · have initial := follows.levels
      unfold closedRanges at initial ⊢
      rw [none] at initial
      rw [levels, initial, after]
      rfl
  | cons first segs =>
    rw [List.cons_append, List.tail_cons] at before after
    refine ⟨?_, by simp [after], ?_⟩
    · have range := follows.day seg (by simp [before])
      rw [after]
      intro day' last
      obtain rfl : seg ++ [bar] = day' := by simpa using last
      rw [day, rangeOf_concat started, ← range]
      rfl
    · have closed : t.closedRanges = s.closedRanges := by
        unfold closedRanges
        rw [before, after, List.dropLast_concat, List.dropLast_concat]
      rw [levels, closed, same.levelsOf]
      exact follows.levels

/-- The range of a new day, and the levels of the one before. -/
theorem follows_begin {t : RBreakSession} {segs : List (List BarData)} {seg : List BarData}
    {bar : BarData} (follows : Follows F s) (before : s.fullDays = (segs ++ [seg]).tail)
    (after : t.fullDays = (segs ++ [seg] ++ [[bar]]).tail)
    (day : t.strategy.day = (s.strategy.newDay F bar).day)
    (levels : t.strategy.levels = (s.strategy.newDay F bar).levels)
    (same : t.strategy.SameParameters s.strategy) : Follows F t := by
  have first_range : (s.strategy.newDay F bar).day = rangeOf [bar] := by
    simp [RBreakStrategy.newDay, rangeOf]
  have after' : t.fullDays = s.fullDays ++ [[bar]] := by
    rw [after, before, List.tail_append_of_ne_nil (by simp)]
  refine ⟨?_, by simp [after'], ?_⟩
  · rw [after', day, first_range]
    simp
  · have ranges : t.closedRanges = (s.fullDays.map rangeOf).filter (·.dayOpen ≠ 0) := by
      unfold closedRanges
      rw [after', List.dropLast_concat]
    rw [levels, ranges, same.levelsOf]
    have earlier := follows.levels
    unfold closedRanges at earlier
    rcases List.eq_nil_or_concat s.fullDays with none | ⟨rest, last, some⟩
    · rw [none] at earlier ⊢
      simpa [RBreakStrategy.newDay, follows.fresh none] using earlier
    · rw [List.concat_eq_append] at some
      have range := follows.day last (by simp [some])
      rw [some, List.dropLast_concat] at earlier
      rw [some, List.map_append, List.filter_append]
      by_cases opened : (rangeOf last).dayOpen = 0
      · simpa [RBreakStrategy.newDay, range, opened] using earlier
      · simp [RBreakStrategy.newDay, range, opened]

theorem follows_step (tracks : s.Tracks) (follows : Follows F s) (input : BarInput) :
    Follows F (s.step F input) := by
  cases input with
  | position pos => exact follows_of_same follows rfl rfl rfl (by constructor <;> rfl)
  | bar bar =>
    have length := s.bars_length
    rw [step_bar]
    rcases onBar_cases F tracks bar with ⟨early, eq⟩ | ⟨ready, few, eq⟩ |
      ⟨late, before, older, lastBar, split, eq⟩
    · refine follows_of_same follows ?_ (by rw [eq]) (by rw [eq]) (by rw [eq]; constructor <;> rfl)
      rw [fullDays_of_few (s := s) (by omega), fullDays_of_few (by simp; omega)]
    · refine follows_of_same follows ?_ (by rw [eq]) (by rw [eq]) (by rw [eq]; constructor <;> rfl)
      rw [fullDays_of_few (s := s) (by omega), fullDays_of_few (by simp; omega)]
    · have last : (s.bars.drop 100).getLast? = some lastBar := by
        rw [List.getLast?_drop, if_neg (by omega), split]
        simp
      have watched : (s.bars ++ [bar]).drop 100 = s.bars.drop 100 ++ [bar] :=
        List.drop_append_of_le_length (by omega)
      have same : (s.strategy.onBar F bar).2.SameParameters s.strategy := by
        have queued : (s.strategy.enqueue lastBar bar).SameParameters s.strategy := by
          constructor <;> rfl
        rw [eq]
        exact (RBreakStrategy.follow_sameParameters _ lastBar bar).trans queued
      by_cases day_eq : getDays lastBar.datetime = getDays bar.datetime
      · obtain ⟨segs, seg, started, before_cut, after_cut⟩ :=
          @byKey_join _ _ _ _ _ (fun b : BarData => getDays b.datetime) _ last day_eq
        have before : s.fullDays = (segs ++ [seg]).tail := by rw [fullDays, before_cut]
        have after : (s.step F (.bar bar)).fullDays = (segs ++ [seg ++ [bar]]).tail := by
          rw [step_bar, fullDays, bars, List.map_append]
          exact congrArg List.tail ((congrArg _ watched).trans after_cut)
        rw [step_bar] at after
        refine follows_join follows started before after ?_ ?_ same
        · rw [eq, RBreakStrategy.follow_day, RBreakStrategy.updateDay,
            if_neg (by simpa using day_eq)]
          rfl
        · rw [eq, RBreakStrategy.follow_levels, RBreakStrategy.updateDay,
            if_neg (by simpa using day_eq)]
          rfl
      · obtain ⟨segs, seg, cut⟩ :=
          exists_cut (r := fun a b : BarData => decide (getDays a.datetime = getDays b.datetime))
            (List.ne_nil_of_mem (List.mem_of_getLast? last))
        have begun := @byKey_begin _ _ _ _ _ (fun b : BarData => getDays b.datetime) _ last day_eq
        have before : s.fullDays = (segs ++ [seg]).tail := by rw [fullDays, byKey, cut]
        have after : (s.step F (.bar bar)).fullDays = (segs ++ [seg] ++ [[bar]]).tail := by
          rw [step_bar, fullDays, bars, List.map_append]
          refine congrArg List.tail ((congrArg _ watched).trans (begun.trans ?_))
          rw [byKey, cut]
        rw [step_bar] at after
        refine follows_begin follows before after ?_ ?_ same
        · rw [eq, RBreakStrategy.follow_day, RBreakStrategy.updateDay, if_pos day_eq]
          rfl
        · rw [eq, RBreakStrategy.follow_levels, RBreakStrategy.updateDay, if_pos day_eq]
          rfl

/-- In every run the range is that of the day and the levels come from the last full day that is
over, whatever the prices are and whatever happens to the position. -/
theorem follows_run (F : Format) (strategy : CtaTemplate) (inputs : List BarInput) :
    Follows F (run F strategy inputs) := by
  have both : (run F strategy inputs).Tracks ∧ Follows F (run F strategy inputs) := by
    refine foldl_invariant (step F) (P := fun s => s.Tracks ∧ Follows F s) (fun s input now =>
      ⟨tracks_step F now.1 input, follows_step now.1 now.2 input⟩)
      ⟨(tracks_run [] : (run F strategy []).Tracks), ?_, fun _ => rfl, rfl⟩
    simp [fullDays, bars, byKey]
  exact both.2

end RBreakSession

end KeenTrader.App
