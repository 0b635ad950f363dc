import KeenTrader.App.RBreak

/-!
# The orders of the R-Breaker strategy

What the bars of a run make the strategy order, where their prices are positive: the levels are in
order whatever the rounding, a position is only ever entered downwards, and while it is held it is
closed by a stop that trails the market.
-/

namespace KeenTrader.App

open KeenTrader.Engine Runs Segments
open Floats (Format)

namespace RBreakSession

variable {F : Format} {s : RBreakSession} {strategy : CtaTemplate}

/-! ## The order of the levels -/

/-- A bar with positive prices of the format. -/
structure Priced (F : Format) (bar : BarData) : Prop where
  low : 0 < bar.lowPrice
  openPrice : bar.lowPrice ≤ bar.openPrice
  above : bar.lowPrice ≤ bar.closePrice
  below : bar.closePrice ≤ bar.highPrice
  holds_high : F.Holds bar.highPrice
  holds_low : F.Holds bar.lowPrice

/-- The range of some bars with positive prices. -/
structure PricedRange (F : Format) (day : DayRange) : Prop where
  low : 0 < day.dayLow
  above : day.dayLow ≤ day.dayClose
  below : day.dayClose ≤ day.dayHigh
  holds_high : F.Holds day.dayHigh
  holds_low : F.Holds day.dayLow

/-- The levels lie around the range of their day. -/
structure Around (day : DayRange) (levels : Levels) : Prop where
  sellBreak : levels.sellBreak ≤ levels.buySetup
  buySetup : levels.buySetup ≤ day.dayLow
  range : 0 < day.dayLow ∧ day.dayLow ≤ day.dayHigh
  sellSetup : day.dayHigh ≤ levels.sellSetup
  buyBreak : levels.sellSetup ≤ levels.buyBreak
  enters : levels.buyEnter ≤ levels.sellEnter

theorem pricedRange_of_bars {day : List BarData} (started : day ≠ [])
    (priced : ∀ bar ∈ day, Priced F bar) : PricedRange F (rangeOf day) := by
  induction day using List.reverseRecOn with
  | nil => contradiction
  | append_singleton day bar ih =>
    have last := priced bar (by simp)
    rcases List.eq_nil_or_concat day with rfl | ⟨_, _, more⟩
    · have single : rangeOf ([] ++ [bar]) =
          { dayOpen := bar.openPrice, dayHigh := bar.highPrice, dayClose := bar.closePrice
            dayLow := bar.lowPrice } := by
        simp [rangeOf]
      rw [single]
      exact ⟨last.low, last.above, last.below, last.holds_high, last.holds_low⟩
    · have ne : day ≠ [] := by simp [more]
      have earlier := ih ne fun b mem => priced b (by simp [mem])
      rw [rangeOf_concat ne]
      constructor
      · exact lt_min earlier.low last.low
      · exact (min_le_right _ _).trans last.above
      · exact last.below.trans (le_max_right _ _)
      · exact earlier.holds_high.max last.holds_high
      · exact earlier.holds_low.min last.holds_low

theorem create_coefs (F : Format) (strategy : CtaTemplate) :
    0 ≤ (RBreakStrategy.create F strategy).setupCoef ∧
      0 ≤ (RBreakStrategy.create F strategy).breakCoef ∧
      0 ≤ (RBreakStrategy.create F strategy).enterCoef2 :=
  ⟨Format.round_nonneg (by norm_num), Format.round_nonneg (by norm_num),
    Format.round_nonneg (by norm_num)⟩

/-- Whatever the rounding, the levels are in order. -/
theorem levelsOf_around {day : DayRange} (priced : PricedRange F day) :
    Around day ((RBreakStrategy.create F strategy).levelsOf F day) := by
  obtain ⟨setup, break_, enter⟩ := create_coefs F strategy
  have range : day.dayLow ≤ day.dayHigh := priced.above.trans priced.below
  have buySetup : F.sub day.dayLow (F.mul (RBreakStrategy.create F strategy).setupCoef
      (F.sub day.dayHigh day.dayClose)) ≤ day.dayLow :=
    Format.sub_le priced.holds_low (Format.mul_nonneg setup (Format.sub_nonneg priced.below))
  have sellSetup : day.dayHigh ≤ F.add day.dayHigh (F.mul
      (RBreakStrategy.create F strategy).setupCoef (F.sub day.dayClose day.dayLow)) :=
    Format.le_add priced.holds_high (Format.mul_nonneg setup (Format.sub_nonneg priced.above))
  have apart := Format.mul_nonneg (F := F) break_
    (Format.sub_nonneg (F := F) ((buySetup.trans range).trans sellSetup))
  constructor
  · exact Format.sub_le Format.holds_sub apart
  · exact buySetup
  · exact ⟨priced.low, range⟩
  · exact sellSetup
  · exact Format.le_add Format.holds_add apart
  · exact Format.sub_le_sub_left (Format.mul_le_mul_left enter range)

theorem mem_bars (F : Format) (strategy : CtaTemplate) {inputs : List BarInput} {bar : BarData}
    (mem : bar ∈ (run F strategy inputs).bars) : .bar bar ∈ inputs := by
  induction inputs using List.reverseRecOn with
  | nil => simp [run, bars] at mem
  | append_singleton inputs input ih =>
    rw [run_concat] at mem
    cases input with
    | position pos => exact List.mem_append_left _ (ih mem)
    | bar last =>
      rw [step_bar, bars, List.map_append, List.mem_append] at mem
      rcases mem with earlier | now
      · exact List.mem_append_left _ (ih earlier)
      · obtain rfl : bar = last := by simpa using now
        simp

theorem onBar_sameParameters (tracks : s.Tracks) (bar : BarData) :
    (s.strategy.onBar F bar).2.SameParameters s.strategy := by
  rcases onBar_cases F tracks bar with ⟨-, eq⟩ | ⟨-, -, eq⟩ | ⟨-, _, _, lastBar, -, eq⟩
  · rw [eq]
    constructor <;> rfl
  · rw [eq]
    constructor <;> rfl
  · have queued : (s.strategy.enqueue lastBar bar).SameParameters s.strategy := by
      constructor <;> rfl
    rw [eq]
    exact (RBreakStrategy.follow_sameParameters _ lastBar bar).trans queued

theorem run_sameParameters (F : Format) (strategy : CtaTemplate) (inputs : List BarInput) :
    (run F strategy inputs).strategy.SameParameters (.create F strategy) := by
  induction inputs using List.reverseRecOn with
  | nil => constructor <;> rfl
  | append_singleton inputs input ih =>
    rw [run_concat]
    cases input with
    | position pos => exact RBreakStrategy.SameParameters.trans (by constructor <;> rfl) ih
    | bar bar => exact (onBar_sameParameters (tracks_run inputs) bar).trans ih

theorem mem_bars_of_fullDay {day : List BarData} {bar : BarData} (full : day ∈ s.fullDays)
    (mem : bar ∈ day) : bar ∈ s.bars := by
  have part := List.mem_flatten_of_mem (List.mem_of_mem_tail full) mem
  rw [byKey, List.flatten_splitBy] at part
  exact List.mem_of_mem_drop part

/-- In every run over bars with positive prices there are no levels yet, or they lie around the
range of the last full day that is over. -/
theorem around_run (F : Format) (strategy : CtaTemplate) {inputs : List BarInput}
    (priced : ∀ bar, .bar bar ∈ inputs → Priced F bar) :
    ((run F strategy inputs).fullDays.dropLast = [] ∧
        (run F strategy inputs).strategy.levels = {}) ∨
      ∃ day ∈ (run F strategy inputs).fullDays.dropLast.getLast?,
        Around (rangeOf day) (run F strategy inputs).strategy.levels := by
  set s := run F strategy inputs with s_eq
  have levels := (follows_run F strategy inputs).levels
  rw [← s_eq] at levels
  have mem_priced {day : List BarData} (full : day ∈ s.fullDays) {bar : BarData} (mem : bar ∈ day) :
      Priced F bar := priced bar (mem_bars F strategy (mem_bars_of_fullDay full mem))
  rcases List.eq_nil_or_concat s.fullDays.dropLast with none | ⟨rest, day, some⟩
  · refine .inl ⟨none, ?_⟩
    rw [levels, closedRanges, none]
    rfl
  · rw [List.concat_eq_append] at some
    have full : day ∈ s.fullDays := List.dropLast_subset _ (by simp [some])
    have started : day ≠ [] := List.ne_nil_of_mem_splitBy (List.mem_of_mem_tail full)
    have range := pricedRange_of_bars started fun bar mem => mem_priced full mem
    have opened : (rangeOf day).dayOpen ≠ 0 := by
      cases day with
      | nil => contradiction
      | cons first rest =>
        have first_priced : Priced F first := mem_priced full (by simp)
        simpa [rangeOf] using (first_priced.low.trans_le first_priced.openPrice).ne'
    refine .inr ⟨day, by simp [some], ?_⟩
    rw [levels, closedRanges, some, List.map_append, List.filter_append]
    simp only [List.map_cons, List.map_nil, ne_eq, decide_not, List.filter_cons, opened,
      decide_false, Bool.not_false, if_true, List.filter_nil, List.getLast?_concat,
      Option.map_some, Option.getD_some]
    rw [(run_sameParameters F strategy inputs).levelsOf]
    exact levelsOf_around range

/-- In every run the range is that of the day and the levels come from the last full day that is
over. Where the bars have positive prices, the levels lie around the range of that day. -/
theorem levels_of_days (F : Format) (strategy : CtaTemplate) (inputs : List BarInput) :
    Follows F (run F strategy inputs) ∧
      ((∀ bar, .bar bar ∈ inputs → Priced F bar) →
        ∀ day ∈ (run F strategy inputs).fullDays.dropLast.getLast?,
          Around (rangeOf day) (run F strategy inputs).strategy.levels) := by
  refine ⟨follows_run F strategy inputs, fun priced day last => ?_⟩
  rcases around_run F strategy priced with ⟨none, -⟩ | ⟨day', last', around⟩
  · simp [none] at last
  · obtain rfl := Option.mem_unique last' last
    exact around

/-- A bar of a day. -/
def dayBar (day : ℤ) (price : ℚ) : BarData :=
  { exchangeName := "", symbol := "rb2410", exchange := .shfe, datetime := day * 86400000
    openPrice := price, highPrice := price + 10, lowPrice := price - 10, closePrice := price }

/-- The bars that the array manager needs and two full days, on the last of which a position is
entered. -/
def climb : List BarInput :=
  List.replicate 101 (.bar (dayBar 0 3500)) ++
    [.bar (dayBar 1 3500), .bar (dayBar 2 3500), .position 1, .bar (dayBar 2 3600)]

theorem priced_dayBar (day : ℤ) {price : ℚ} (above : 10 < price) :
    Priced Floats.exact (dayBar day price) where
  low := by simpa [dayBar] using above
  openPrice := by simp [dayBar]
  above := by simp [dayBar]
  below := by simp [dayBar]
  holds_high := rfl
  holds_low := rfl

theorem priced_climb (bar : BarData) (mem : .bar bar ∈ climb) : Priced Floats.exact bar := by
  simp only [climb, List.mem_append, List.mem_replicate, List.mem_cons, BarInput.bar.injEq,
    reduceCtorEq, List.not_mem_nil, or_false, false_or] at mem
  rcases mem with ⟨-, rfl⟩ | rfl | rfl | rfl
  all_goals exact priced_dayBar _ (by norm_num)

theorem levels_of_days_climb :
    Follows Floats.exact (run Floats.exact {} climb) ∧
      ∀ day ∈ (run Floats.exact {} climb).fullDays.dropLast.getLast?,
        Around (rangeOf day) (run Floats.exact {} climb).strategy.levels :=
  have levels := levels_of_days Floats.exact {} climb
  ⟨levels.1, levels.2 priced_climb⟩

/-! ## The orders of a bar -/

/-- The stop order that closes a long position of which the highest price is known. -/
def sellStop (F : Format) (high pos : ℚ) : TemplateCall :=
  .sell (F.mul high ((RBreakStrategy.create F {}).longFactor F)) |pos| true false false

/-- The stop order that closes a short position of which the lowest price is known. -/
def coverStop (F : Format) (low pos : ℚ) : TemplateCall :=
  .cover (F.mul low ((RBreakStrategy.create F {}).shortFactor F)) |pos| true false false

/-- The only pair of orders that opens a position: a stop below the market, and three times as much
the other way. -/
def entryPair (F : Format) (entry reentry : ℚ) : List TemplateCall :=
  [.short entry (F.round 1) true false false,
    .buy reentry (F.mul (F.round 3) (F.round 1)) true false false]

/-- What is ordered with a bar after everything has been cancelled. -/
inductive Ordered (F : Format) (pos : ℚ) (bar : BarData) : List TemplateCall → Prop
  | nothing : Ordered F pos bar []
  | enter (flat : pos = 0) {entry reentry : ℚ} (below : entry ≤ bar.lowPrice) :
    Ordered F pos bar (entryPair F entry reentry)
  | sell (long : 0 < pos) {high : ℚ} (above : bar.highPrice ≤ high) :
    Ordered F pos bar [sellStop F high pos]
  | cover (short : pos < 0) {low : ℚ} (below : low ≤ bar.lowPrice) :
    Ordered F pos bar [coverStop F low pos]

theorem updateDay_dayLow (s : RBreakStrategy) (lastBar bar : BarData) :
    (s.updateDay F lastBar bar).day.dayLow ≤ bar.lowPrice := by
  unfold RBreakStrategy.updateDay
  split
  · exact le_refl _
  · exact min_le_right _ _

theorem updateDay_sameParameters (s : RBreakStrategy) (lastBar bar : BarData) :
    (s.updateDay F lastBar bar).SameParameters s := by
  unfold RBreakStrategy.updateDay
  split <;> constructor <;> rfl

@[simp] theorem updateDay_pos (s : RBreakStrategy) (lastBar bar : BarData) :
    (s.updateDay F lastBar bar).pos = s.pos := by
  unfold RBreakStrategy.updateDay
  split <;> rfl

/-- The branch that buys at a break upwards asks for a channel that is above a level. -/
theorem placeOrders_ordered {t : RBreakStrategy} {bar : BarData}
    (same : t.SameParameters (.create F strategy)) (low : t.day.dayLow ≤ bar.lowPrice)
    (below : t.tendHigh ≤ t.levels.sellSetup) : Ordered F t.pos bar (t.placeOrders F bar).1 := by
  unfold RBreakStrategy.placeOrders
  split
  · rename_i flat
    unfold RBreakStrategy.enter
    dsimp only
    rw [if_neg (by simpa using below)]
    split
    · rw [same.fixedSize, same.multiplier]
      exact .enter flat ((min_le_right _ _).trans low)
    · exact .nothing
  split
  · rename_i long
    unfold RBreakStrategy.longFactor
    dsimp only
    rw [same.trailingLong]
    exact .sell long (le_max_right _ _)
  · rename_i occupied held
    unfold RBreakStrategy.shortFactor
    dsimp only
    rw [same.trailingShort]
    exact .cover (lt_of_le_of_ne (not_lt.mp held) occupied) (min_le_right _ _)

theorem follow_ordered {t : RBreakStrategy} {lastBar bar : BarData}
    (same : t.SameParameters (.create F strategy))
    (level : (t.updateDay F lastBar bar).levels.sellSetup = 0 ∨
      0 < (t.updateDay F lastBar bar).levels.sellSetup) :
    Ordered F t.pos bar (t.follow F lastBar bar).1 := by
  rcases level with unset | positive
  · rw [RBreakStrategy.follow_unset unset]
    exact .nothing
  · have params := (updateDay_sameParameters (F := F) t lastBar bar).trans same
    have ordered := placeOrders_ordered
      (t := { t.updateDay F lastBar bar with tendHigh := 0, tendLow := 0 })
      ⟨params.1, params.2, params.3, params.4, params.5, params.6, params.7, params.8⟩
      (updateDay_dayLow t lastBar bar) positive.le
    rw [RBreakStrategy.follow_set positive.ne']
    simpa using ordered

/-- In every run over bars with positive prices, every bar cancels all orders and then places
nothing, the pair that enters where there is no position, or one order that closes the whole
position at or beyond the trailed price of the bar. -/
theorem bars_order (F : Format) (strategy : CtaTemplate) {inputs : List BarInput}
    (priced : ∀ bar, .bar bar ∈ inputs → Priced F bar) :
    ∀ v ∈ (run F strategy inputs).visits,
      ∃ calls, v.calls = .cancelAll :: calls ∧ Ordered F v.pos v.bar calls := by
  induction inputs using List.reverseRecOn with
  | nil => simp [run]
  | append_singleton inputs input ih =>
    have earlier := ih fun bar mem => priced bar (List.mem_append_left _ mem)
    have around := around_run F strategy priced
    rw [run_concat] at around ⊢
    set s := run F strategy inputs with s_eq
    cases input with
    | position pos => exact earlier
    | bar bar =>
      intro v mem
      rw [step_bar, List.mem_append] at mem
      rcases mem with before | now
      · exact earlier v before
      obtain rfl := List.mem_singleton.mp now
      rw [step_bar] at around
      rcases onBar_cases F (tracks_run inputs) bar with ⟨-, eq⟩ | ⟨-, -, eq⟩ |
        ⟨-, _, _, lastBar, -, eq⟩
      · exact ⟨[], congrArg Prod.fst eq, .nothing⟩
      · exact ⟨[], congrArg Prod.fst eq, .nothing⟩
      rw [← s_eq] at eq
      have same : (s.strategy.enqueue lastBar bar).SameParameters (.create F strategy) :=
        RBreakStrategy.SameParameters.trans (by constructor <;> rfl)
          (run_sameParameters F strategy inputs)
      have levels : (s.strategy.onBar F bar).2.levels =
          ((s.strategy.enqueue lastBar bar).updateDay F lastBar bar).levels := by
        rw [eq]
        exact RBreakStrategy.follow_levels _ lastBar bar
      refine ⟨_, congrArg Prod.fst eq, follow_ordered (t := s.strategy.enqueue lastBar bar) same ?_⟩
      rw [← levels]
      rcases around with ⟨-, none⟩ | ⟨day, -, some⟩
      · exact .inl (congrArg Levels.sellSetup none)
      · exact .inr (some.range.1.trans_le (some.range.2.trans some.sellSetup))

/-- The visits of the bars with which the position is entered and held. -/
def climbEntry : Visit :=
  { pos := 0, bar := dayBar 2 3500
    calls := .cancelAll :: entryPair Floats.exact (6965 / 2) (34993 / 10) }

def climbHeld : Visit :=
  { pos := 1, bar := dayBar 2 3600, calls := [.cancelAll, sellStop Floats.exact 3610 1] }

set_option maxRecDepth 2000 in
theorem bars_order_climb :
    ∃ calls, climbHeld.calls = .cancelAll :: calls ∧
      Ordered Floats.exact climbHeld.pos climbHeld.bar calls := by
  have last : (run Floats.exact {} climb).visits.getLast? = some climbHeld := by decide +kernel
  exact bars_order Floats.exact {} priced_climb climbHeld (List.mem_of_getLast? last)

/-! ## Trailing stops -/

/-- The highest price while there was no short position. -/
def peak (visits : List Visit) : Option ℚ :=
  ((visits.filter (0 ≤ ·.pos)).map (·.bar.highPrice)).max?

/-- The lowest price while there was no long position. -/
def trough (visits : List Visit) : Option ℚ :=
  ((visits.filter (·.pos ≤ 0)).map (·.bar.lowPrice)).min?

/-- What the strategy knows of a position behind the bar `entry` with which it was ordered, and the
order of the last bar. -/
structure Trailed (F : Format) (s : RBreakSession) (entry : Visit) (held : List Visit) : Prop where
  high : peak (entry :: held) = some s.strategy.intraTradeHigh
  low : trough (entry :: held) = some s.strategy.intraTradeLow
  set_ : s.strategy.levels.sellSetup ≠ 0
  sell : ∀ v ∈ held.getLast?, 0 < v.pos →
    v.calls = [.cancelAll, sellStop F s.strategy.intraTradeHigh v.pos]
  cover : ∀ v ∈ held.getLast?, v.pos < 0 →
    v.calls = [.cancelAll, coverStop F s.strategy.intraTradeLow v.pos]

/-- A bar with which a position is ordered, and bars with a position since. -/
structure Held (entry : Visit) (held : List Visit) : Prop where
  flat : entry.pos = 0
  placed : entry.calls ≠ [.cancelAll]
  occupied : ∀ v ∈ held, v.pos ≠ 0

/-- Levels are not lost again. -/
theorem set_of_set (F : Format) (strategy : CtaTemplate) {inputs : List BarInput} {input : BarInput}
    (priced : ∀ bar, .bar bar ∈ inputs ++ [input] → Priced F bar)
    (set_ : (run F strategy inputs).strategy.levels.sellSetup ≠ 0) :
    (run F strategy (inputs ++ [input])).strategy.levels.sellSetup ≠ 0 := by
  have later : (run F strategy inputs).fullDays.length ≤
      (run F strategy (inputs ++ [input])).fullDays.length := by
    rw [run_concat]
    cases input with
    | position pos => exact le_refl _
    | bar bar =>
      rw [step_bar]
      simp only [fullDays, bars, List.length_tail, List.map_append, List.map_cons, List.map_nil]
      rcases Nat.lt_or_ge (run F strategy inputs).visits.length 100 with few | many
      · rw [List.drop_eq_nil_of_le (by simp; omega)]
        simp [byKey]
      · rw [List.drop_append_of_le_length (by simpa using many)]
        exact Nat.sub_le_sub_right (length_byKey_le _ _) 1
  rcases around_run F strategy fun bar mem => priced bar (List.mem_append_left _ mem) with
    ⟨-, none⟩ | ⟨day, last, -⟩
  · rw [none] at set_
    contradiction
  have two : 2 ≤ (run F strategy inputs).fullDays.length := by
    have nonempty := List.length_pos_of_mem (List.mem_of_getLast? last)
    rw [List.length_dropLast] at nonempty
    omega
  rcases around_run F strategy priced with ⟨none, -⟩ | ⟨day, -, around⟩
  · have zero := congrArg List.length none
    rw [List.length_dropLast, List.length_nil] at zero
    omega
  · exact (around.range.1.trans_le (around.range.2.trans around.sellSetup)).ne'

/-- With levels, a bar is one for which orders are placed. -/
theorem onBar_of_set (F : Format) (strategy : CtaTemplate) {inputs : List BarInput} {bar : BarData}
    (set_ : ((run F strategy inputs).strategy.onBar F bar).2.levels.sellSetup ≠ 0) :
    ∃ x : RBreakStrategy, x.SameParameters (.create F strategy) ∧
      x.pos = (run F strategy inputs).strategy.pos ∧
      x.intraTradeHigh = (run F strategy inputs).strategy.intraTradeHigh ∧
      x.intraTradeLow = (run F strategy inputs).strategy.intraTradeLow ∧
      (run F strategy inputs).strategy.onBar F bar =
        (.cancelAll :: (x.placeOrders F bar).1, (x.placeOrders F bar).2) := by
  set s := run F strategy inputs with s_eq
  have unset (few : s.visits.length ≤ 101) : s.strategy.levels.sellSetup = 0 := by
    have levels := (follows_run F strategy inputs).levels
    rw [← s_eq, closedRanges, fullDays_of_few few] at levels
    rw [levels]
    rfl
  rcases onBar_cases F (tracks_run inputs) bar with ⟨early, eq⟩ | ⟨-, few, eq⟩ |
    ⟨-, _, _, lastBar, -, eq⟩
  · rw [← s_eq] at early eq
    rw [eq] at set_
    exact absurd (unset (by omega)) set_
  · rw [← s_eq] at few eq
    rw [eq] at set_
    exact absurd (unset (by omega)) set_
  rw [← s_eq] at eq
  have level : ((s.strategy.enqueue lastBar bar).updateDay F lastBar bar).levels.sellSetup ≠ 0 := by
    rw [eq, RBreakStrategy.follow_levels] at set_
    exact set_
  have day := updateDay_sameParameters (F := F) (s.strategy.enqueue lastBar bar) lastBar bar
  have same := day.trans
    (RBreakStrategy.SameParameters.trans (t := s.strategy) (by constructor <;> rfl)
      (run_sameParameters F strategy inputs))
  refine ⟨{ (s.strategy.enqueue lastBar bar).updateDay F lastBar bar with
    tendHigh := 0, tendLow := 0 }, ?_, ?_, ?_, ?_, ?_⟩
  · exact ⟨same.1, same.2, same.3, same.4, same.5, same.6, same.7, same.8⟩
  · exact updateDay_pos _ lastBar bar
  · unfold RBreakStrategy.updateDay
    split <;> rfl
  · unfold RBreakStrategy.updateDay
    split <;> rfl
  · rw [eq, RBreakStrategy.follow_set level]

/-- The order of a bar with which a position is entered, or held. -/
theorem placeOrders_cases {x : RBreakStrategy} (same : x.SameParameters (.create F strategy))
    (bar : BarData) :
    (x.pos = 0 ∧ (x.placeOrders F bar).2.intraTradeHigh = bar.highPrice ∧
      (x.placeOrders F bar).2.intraTradeLow = bar.lowPrice) ∨
    (0 < x.pos ∧ (x.placeOrders F bar).2.intraTradeHigh = max x.intraTradeHigh bar.highPrice ∧
      (x.placeOrders F bar).2.intraTradeLow = x.intraTradeLow ∧
      (x.placeOrders F bar).1 = [sellStop F (max x.intraTradeHigh bar.highPrice) x.pos]) ∨
    (x.pos < 0 ∧ (x.placeOrders F bar).2.intraTradeHigh = x.intraTradeHigh ∧
      (x.placeOrders F bar).2.intraTradeLow = min x.intraTradeLow bar.lowPrice ∧
      (x.placeOrders F bar).1 = [coverStop F (min x.intraTradeLow bar.lowPrice) x.pos]) := by
  rcases lt_trichotomy x.pos 0 with short | flat | long
  · have not_long := not_lt.mpr short.le
    refine .inr (.inr ⟨short, ?_⟩)
    simp only [RBreakStrategy.placeOrders, short.ne, not_long, if_false]
    refine ⟨trivial, trivial, ?_⟩
    simp only [coverStop, RBreakStrategy.shortFactor, same.trailingShort]
    rfl
  · refine .inl ⟨flat, ?_⟩
    simp [RBreakStrategy.placeOrders, flat]
  · refine .inr (.inl ⟨long, ?_⟩)
    simp only [RBreakStrategy.placeOrders, long.ne', long, if_true, if_false]
    refine ⟨trivial, trivial, ?_⟩
    simp only [sellStop, RBreakStrategy.longFactor, same.trailingLong]
    rfl

/-- Without levels nothing is ordered. -/
theorem onBar_of_unset (tracks : s.Tracks) {bar : BarData}
    (unset : (s.strategy.onBar F bar).2.levels.sellSetup = 0) :
    (s.strategy.onBar F bar).1 = [.cancelAll] := by
  rcases onBar_cases F tracks bar with ⟨-, eq⟩ | ⟨-, -, eq⟩ | ⟨-, _, _, lastBar, -, eq⟩
  · rw [eq]
  · rw [eq]
  · rw [eq, RBreakStrategy.follow_levels] at unset
    rw [eq, RBreakStrategy.follow_unset unset]

theorem peak_concat {visits : List Visit} {high : ℚ} (highest : peak visits = some high)
    (v : Visit) :
    peak (visits ++ [v]) = some (if 0 ≤ v.pos then max high v.bar.highPrice else high) := by
  unfold peak at highest ⊢
  rw [List.filter_append, List.map_append]
  by_cases counts : 0 ≤ v.pos
  · simp only [List.filter_cons, counts, decide_true, if_true, List.filter_nil, List.map_cons,
      List.map_nil]
    exact max?_concat highest _
  · simpa [counts] using highest

theorem trough_concat {visits : List Visit} {low : ℚ} (lowest : trough visits = some low)
    (v : Visit) :
    trough (visits ++ [v]) = some (if v.pos ≤ 0 then min low v.bar.lowPrice else low) := by
  unfold trough at lowest ⊢
  rw [List.filter_append, List.map_append]
  by_cases counts : v.pos ≤ 0
  · simp only [List.filter_cons, counts, decide_true, if_true, List.filter_nil, List.map_cons,
      List.map_nil]
    exact min?_concat lowest _
  · simpa [counts] using lowest

/-- A bar with which a position is ordered. -/
theorem trailed_entry {inputs : List BarInput} {bar : BarData} {v : Visit}
    (v_eq : v = { pos := (run F strategy inputs).strategy.pos, bar
                  calls := ((run F strategy inputs).strategy.onBar F bar).1 })
    (flat : v.pos = 0) (placed : v.calls ≠ [.cancelAll]) :
    Trailed F ((run F strategy inputs).step F (.bar bar)) v [] := by
  subst v_eq
  have set_ : ((run F strategy inputs).strategy.onBar F bar).2.levels.sellSetup ≠ 0 :=
    fun unset => placed (onBar_of_unset (tracks_run inputs) unset)
  obtain ⟨x, same, pos, -, -, eq⟩ := onBar_of_set F strategy set_
  rw [step_bar]
  dsimp only at flat
  rcases placeOrders_cases (F := F) same bar with ⟨-, high, low⟩ | ⟨long, -⟩ | ⟨short, -⟩
  · rw [eq] at set_
    refine ⟨?_, ?_, ?_, by simp, by simp⟩
    · rw [eq]
      simp [peak, flat, high]
    · rw [eq]
      simp [trough, flat, low]
    · rw [eq]
      exact set_
  · rw [pos] at long
    exact absurd flat long.ne'
  · rw [pos] at short
    exact absurd flat short.ne

/-- A bar with which a position is held. -/
theorem trailed_held {inputs : List BarInput} {bar : BarData} {entry v : Visit}
    {held : List Visit} (trailed : Trailed F (run F strategy inputs) entry held)
    (set_ : ((run F strategy inputs).strategy.onBar F bar).2.levels.sellSetup ≠ 0)
    (v_eq : v = { pos := (run F strategy inputs).strategy.pos, bar
                  calls := ((run F strategy inputs).strategy.onBar F bar).1 })
    (occupied : v.pos ≠ 0) :
    Trailed F ((run F strategy inputs).step F (.bar bar)) entry (held ++ [v]) := by
  subst v_eq
  obtain ⟨x, same, pos, high_eq, low_eq, eq⟩ := onBar_of_set F strategy set_
  have peak_eq := peak_concat trailed.high
    { pos := (run F strategy inputs).strategy.pos, bar
      calls := ((run F strategy inputs).strategy.onBar F bar).1 }
  have trough_eq := trough_concat trailed.low
    { pos := (run F strategy inputs).strategy.pos, bar
      calls := ((run F strategy inputs).strategy.onBar F bar).1 }
  rw [List.cons_append] at peak_eq trough_eq
  rw [step_bar]
  rcases placeOrders_cases (F := F) same bar with ⟨flat, -⟩ | ⟨long, high, low, calls⟩ |
    ⟨short, high, low, calls⟩
  · rw [pos] at flat
    exact absurd flat occupied
  · rw [high_eq] at high calls
    rw [low_eq] at low
    rw [pos] at long calls
    refine ⟨?_, ?_, by simpa using set_, ?_, ?_⟩
    · rw [peak_eq, eq, high, if_pos long.le]
    · rw [trough_eq, eq, low, if_neg (not_le.mpr long)]
    · intro w last _
      obtain rfl := by simpa using last
      simp only [eq, high, calls]
    · intro w last short
      obtain rfl := by simpa using last
      exact absurd short (not_lt.mpr long.le)
  · rw [high_eq] at high
    rw [low_eq] at low calls
    rw [pos] at short calls
    refine ⟨?_, ?_, by simpa using set_, ?_, ?_⟩
    · rw [peak_eq, eq, high, if_neg (not_le.mpr short)]
    · rw [trough_eq, eq, low, if_pos short.le]
    · intro w last long
      obtain rfl := by simpa using last
      exact absurd long (not_lt.mpr short.le)
    · intro w last _
      obtain rfl := by simpa using last
      simp only [eq, low, calls]

theorem trailed_run (F : Format) (strategy : CtaTemplate) {inputs : List BarInput}
    (priced : ∀ bar, .bar bar ∈ inputs → Priced F bar) {done held : List Visit} {entry : Visit}
    (split : (run F strategy inputs).visits = done ++ entry :: held) (position : Held entry held) :
    Trailed F (run F strategy inputs) entry held := by
  induction inputs using List.reverseRecOn generalizing held with
  | nil => simp [run] at split
  | append_singleton inputs input ih =>
    have earlier {held : List Visit}
        (visits : (run F strategy inputs).visits = done ++ entry :: held) :
        Held entry held → Trailed F (run F strategy inputs) entry held :=
      ih (fun bar mem => priced bar (List.mem_append_left _ mem)) visits
    have kept := set_of_set F strategy priced
    rw [run_concat] at split kept ⊢
    cases input with
    | position pos =>
      have now := earlier split position
      exact ⟨now.high, now.low, now.set_, now.sell, now.cover⟩
    | bar bar =>
      rw [step_bar] at split
      rcases List.eq_nil_or_concat held with rfl | ⟨before, v, rfl⟩
      · obtain ⟨-, v_eq⟩ := List.append_inj' split rfl
        obtain rfl := by simpa using v_eq
        exact trailed_entry rfl position.flat position.placed
      · rw [List.concat_eq_append] at split position ⊢
        rw [← List.cons_append, ← List.append_assoc] at split
        obtain ⟨visits, v_eq⟩ := List.append_inj' split rfl
        have now := earlier visits
          ⟨position.flat, position.placed, fun w mem => position.occupied w (by simp [mem])⟩
        exact trailed_held now (kept now.set_) (by simpa using v_eq.symm)
          (position.occupied v (by simp))

/-- The visits that a run begins with are those of a shorter run. -/
theorem exists_shorter_run (F : Format) (strategy : CtaTemplate) {inputs : List BarInput}
    {visits : List Visit} (pre : visits <+: (run F strategy inputs).visits) :
    ∃ shorter, shorter <+: inputs ∧ (run F strategy shorter).visits = visits := by
  induction inputs using List.reverseRecOn with
  | nil => exact ⟨[], List.prefix_rfl, (List.prefix_nil.mp (by simpa [run] using pre)).symm⟩
  | append_singleton inputs input ih =>
    rw [run_concat] at pre
    cases input with
    | position pos =>
      obtain ⟨shorter, le, eq⟩ := ih pre
      exact ⟨shorter, le.trans (List.prefix_append _ _), eq⟩
    | bar bar =>
      rw [step_bar] at pre
      rcases List.prefix_concat_iff.mp pre with whole | part
      · refine ⟨inputs ++ [.bar bar], List.prefix_rfl, ?_⟩
        rw [run_concat, step_bar, whole]
      · obtain ⟨shorter, le, eq⟩ := ih part
        exact ⟨shorter, le.trans (List.prefix_append _ _), eq⟩

/-- In every run over bars with positive prices, while a position is held, every bar closes it by
one stop order. It trails the highest price of the bar that ordered the position and of the bars
since with which the position was not short, or the lowest one of those with which it was not
long. -/
theorem stops_trail (F : Format) (strategy : CtaTemplate) {inputs : List BarInput}
    (priced : ∀ bar, .bar bar ∈ inputs → Priced F bar) {done held : List Visit} {entry v : Visit}
    (pre : done ++ entry :: (held ++ [v]) <+: (run F strategy inputs).visits)
    (position : Held entry (held ++ [v])) :
    (0 < v.pos → ∃ high ∈ peak (entry :: (held ++ [v])),
      v.calls = [.cancelAll, sellStop F high v.pos]) ∧
    (v.pos < 0 → ∃ low ∈ trough (entry :: (held ++ [v])),
      v.calls = [.cancelAll, coverStop F low v.pos]) := by
  obtain ⟨shorter, le, visits⟩ := exists_shorter_run F strategy pre
  have trailed := trailed_run F strategy (fun bar mem => priced bar (le.subset mem)) visits position
  exact ⟨fun long => ⟨_, trailed.high, trailed.sell v (by simp) long⟩,
    fun short => ⟨_, trailed.low, trailed.cover v (by simp) short⟩⟩

set_option maxRecDepth 2000 in
theorem stops_trail_climb :
    ∃ high ∈ peak [climbEntry, climbHeld],
      climbHeld.calls = [.cancelAll, sellStop Floats.exact high climbHeld.pos] := by
  have pre : (run Floats.exact {} climb).visits.take 102 ++ climbEntry :: ([] ++ [climbHeld]) <+:
      (run Floats.exact {} climb).visits := by
    decide +kernel
  exact (stops_trail Floats.exact {} priced_climb pre ⟨rfl, by decide, by simp [climbHeld]⟩).1
    (by decide)

end RBreakSession

end KeenTrader.App
