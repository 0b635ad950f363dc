import KeenTrader.Library.Segments
import KeenTrader.Engine.Object
import KeenTrader.Engine.Utility

/-!
# Bars from ticks

`BarGenerator` gathers ticks in bars of one minute, and bars in windows. `update_tick` works on the
stream of the ticks that have a price: it is cut where the minute changes, and the bar of a segment
is reported when the segment is closed. `reported` and `windowReported` keep the bars that have been
passed to `on_bar` and `on_window_bar`, latest last.
-/

namespace KeenTrader.Engine

open Segments

/-! ## Times -/

/-- `time_point_cast` to a coarser unit discards the rest, towards the epoch. -/
def getMinutes (datetime : DateTime) : ℤ := datetime.tdiv 60000

def getHours (datetime : DateTime) : ℤ := datetime.tdiv 3600000

def replaceMinutes (datetime : DateTime) : DateTime := getMinutes datetime * 60000

def replaceHours (datetime : DateTime) : DateTime := getHours datetime * 3600000

/-- The minute that a clock shows. -/
def minuteOfHour (datetime : DateTime) : ℤ := datetime % 86400000 / 60000 % 60

/-! ## The generator -/

structure BarGenerator where
  bar : Option BarData := none
  windowBar : Option BarData := none
  window : ℤ := 0
  interval : Interval := .minute
  intervalCount : ℤ := 0
  lastTick : Option TickData := none
  lastBar : Option BarData := none
  reported : List BarData := []
  windowReported : List BarData := []

namespace BarGenerator

/-- The bar of one tick. -/
def openBar (tick : TickData) : BarData :=
  { symbol := tick.symbol, exchange := tick.exchange, interval := .minute
    datetime := tick.datetime, exchangeName := tick.exchangeName, openPrice := tick.lastPrice
    highPrice := tick.lastPrice, lowPrice := tick.lastPrice, closePrice := tick.lastPrice
    openInterest := tick.openInterest }

/-- The bar after another tick of its minute. -/
def extendBar (bar : BarData) (tick : TickData) : BarData :=
  { bar with
    highPrice := max bar.highPrice tick.lastPrice
    lowPrice := min bar.lowPrice tick.lastPrice
    closePrice := tick.lastPrice
    openInterest := tick.openInterest
    datetime := tick.datetime }

/-- The bar as it is reported. -/
def closeBar (bar : BarData) : BarData := { bar with datetime := replaceMinutes bar.datetime }

/-- What has been traded since the last tick. -/
def volumeChange (lastTick : Option TickData) (tick : TickData) : ℚ :=
  match lastTick with
  | some last => max (tick.volume - last.volume) 0
  | none => 0

def addVolume (bar : BarData) (volume : ℚ) : BarData := { bar with volume := bar.volume + volume }

def updateTick (g : BarGenerator) (tick : TickData) : BarGenerator :=
  if tick.lastPrice = 0 then g
  else
    let change := volumeChange g.lastTick tick
    match g.bar with
    | none => { g with bar := some (addVolume (openBar tick) change), lastTick := some tick }
    | some bar =>
      if getMinutes bar.datetime = getMinutes tick.datetime then
        { g with bar := some (addVolume (extendBar bar tick) change), lastTick := some tick }
      else
        { g with
          bar := some (addVolume (openBar tick) change)
          lastTick := some tick
          reported := g.reported ++ [closeBar bar] }

/-! ## One bar for each minute -/

/-- The ticks that have a price, each with what has been traded since the one before. -/
def priced (lastTick : Option TickData) : List TickData → List (TickData × ℚ)
  | [] => []
  | tick :: ticks =>
    if tick.lastPrice = 0 then priced lastTick ticks
    else (tick, volumeChange lastTick tick) :: priced (some tick) ticks

def minuteOf (x : TickData × ℚ) : ℤ := getMinutes x.1.datetime

/-- The priced ticks, cut where the minute changes. -/
def minutes (ticks : List TickData) : List (List (TickData × ℚ)) :=
  byKey minuteOf (priced none ticks)

/-- The bar sums up the ticks of one minute. -/
structure Covers (run : List (TickData × ℚ)) (bar : BarData) : Prop where
  datetime : ∀ x ∈ run, bar.datetime = replaceMinutes x.1.datetime
  openPrice : run.head?.map (·.1.lastPrice) = some bar.openPrice
  highPrice : (run.map (·.1.lastPrice)).max? = some bar.highPrice
  lowPrice : (run.map (·.1.lastPrice)).min? = some bar.lowPrice
  closePrice : run.getLast?.map (·.1.lastPrice) = some bar.closePrice
  openInterest : run.getLast?.map (·.1.openInterest) = some bar.openInterest
  volume : bar.volume = (run.map Prod.snd).sum

/-- Each closed minute has been reported with its bar, in order, and what the ticks have traded is
in the reported bars and the open one. -/
structure Reports (ticks : List TickData) (g : BarGenerator) : Prop where
  bars : List.Forall₂ Covers (minutes ticks).dropLast g.reported
  volume : (g.reported.map BarData.volume).sum + (g.bar.map BarData.volume).getD 0 =
    ((priced none ticks).map Prod.snd).sum

variable {g : BarGenerator} {bar : BarData} {tick : TickData} {change : ℚ}
  {run xs : List (TickData × ℚ)} {ticks : List TickData}

theorem priced_concat (lastTick : Option TickData) (ticks : List TickData) (tick : TickData) :
    priced lastTick (ticks ++ [tick]) =
      priced lastTick ticks ++
        if tick.lastPrice = 0 then []
        else [(tick, volumeChange
          (((priced lastTick ticks).getLast?.map Prod.fst).or lastTick) tick)] := by
  induction ticks generalizing lastTick with
  | nil => simp [priced]
  | cons t ticks ih =>
    by_cases unpriced : t.lastPrice = 0
    · simp only [List.cons_append, priced, unpriced, if_true, ih]
    · simp only [List.cons_append, priced, unpriced, if_false, ih, List.getLast?_cons]
      cases (priced (some t) ticks).getLast? <;> simp

theorem covers_openBar (tick : TickData) (change : ℚ) :
    Covers [(tick, change)] (closeBar (addVolume (openBar tick) change)) := by
  constructor <;> simp [closeBar, addVolume, openBar]

/-- The bar of a minute after another tick of that minute. -/
theorem Covers.extendBar (covers : Covers run (closeBar bar))
    (same : getMinutes bar.datetime = getMinutes tick.datetime) :
    Covers (run ++ [(tick, change)]) (closeBar (addVolume (extendBar bar tick) change)) where
  datetime x mem := by
    have minute : (closeBar bar).datetime = replaceMinutes tick.datetime := by
      simp [closeBar, replaceMinutes, same]
    rcases List.mem_append.mp mem with earlier | now
    · exact minute.symm.trans (covers.datetime x earlier)
    · obtain rfl := List.mem_singleton.mp now
      rfl
  openPrice := by
    have first := covers.openPrice
    cases run with
    | nil => simp at first
    | cons x run => exact first
  highPrice := by
    rw [List.map_append]
    exact max?_concat covers.highPrice _
  lowPrice := by
    rw [List.map_append]
    exact min?_concat covers.lowPrice _
  closePrice := by simp [closeBar, addVolume, BarGenerator.extendBar]
  openInterest := by simp [closeBar, addVolume, BarGenerator.extendBar]
  volume := by
    have sum : bar.volume = (run.map Prod.snd).sum := covers.volume
    simp [closeBar, addVolume, BarGenerator.extendBar, sum]

/-- The generator after the priced ticks `xs`: there is an open minute as soon as there is a tick,
and the closed minutes have been reported. -/
structure Follows (xs : List (TickData × ℚ)) (g : BarGenerator) : Prop where
  lastTick : g.lastTick = xs.getLast?.map Prod.fst
  cut : (xs = [] ∧ g.bar = none ∧ g.reported = []) ∨
    ∃ closed run bar, byKey minuteOf xs = closed ++ [run] ∧ g.bar = some bar ∧
      (∀ x ∈ run, minuteOf x = getMinutes bar.datetime) ∧ Covers run (closeBar bar) ∧
      List.Forall₂ Covers closed g.reported

/-- One tick with a price. -/
theorem Follows.updateTick (follows : Follows xs g) (price : tick.lastPrice ≠ 0) :
    Follows (xs ++ [(tick, volumeChange (xs.getLast?.map Prod.fst) tick)]) (g.updateTick tick) := by
  rw [← follows.lastTick]
  unfold BarGenerator.updateTick
  rw [if_neg price]
  dsimp only
  generalize volumeChange g.lastTick tick = change
  have opened := covers_openBar tick change
  rcases follows.cut with
    ⟨rfl, none, reported⟩ | ⟨closed, run, bar, cut, some, minute, covers, bars⟩
  · rw [none]
    refine ⟨rfl, .inr ⟨[], [(tick, change)], _, rfl, rfl, ?_, opened, ?_⟩⟩
    · simp [minuteOf, addVolume, openBar]
    · simp [reported]
  · have last := getLast?_of_cut cut
    rw [some]
    dsimp only
    split
    · rename_i same
      refine ⟨by simp, .inr ⟨closed, run ++ [(tick, change)], _, ?_, rfl, ?_, ?_, bars⟩⟩
      · refine splitBy_join cut fun x mem => ?_
        have same_minute := minute x (List.mem_of_getLast? mem)
        exact decide_eq_true (same_minute.trans same)
      · simp only [addVolume, BarGenerator.extendBar, List.mem_append, List.mem_singleton]
        rintro x (earlier | rfl)
        · exact (minute x earlier).trans same
        · rfl
      · exact covers.extendBar same
    · rename_i other
      refine ⟨by simp, .inr ⟨closed ++ [run], [(tick, change)], _, ?_, rfl, ?_, opened, ?_⟩⟩
      · rw [← cut]
        refine splitBy_begin fun x mem => ?_
        have same_minute := minute x (List.mem_of_getLast? (by rwa [last]))
        exact decide_eq_false fun eq => other (same_minute.symm.trans eq)
      · simp [minuteOf, addVolume, openBar]
      · exact List.rel_append bars (.cons covers .nil)

theorem follows_foldl (window : ℤ) (interval : Interval) (ticks : List TickData) :
    Follows (priced none ticks) (ticks.foldl updateTick { window, interval }) := by
  induction ticks using List.reverseRecOn with
  | nil => exact ⟨rfl, .inl ⟨rfl, rfl, rfl⟩⟩
  | append_singleton ticks tick ih =>
    rw [List.foldl_append, List.foldl_cons, List.foldl_nil, priced_concat]
    by_cases price : tick.lastPrice = 0
    · simpa [price, BarGenerator.updateTick] using ih
    · simpa [price] using ih.updateTick price

/-- The volumes of the bars of all segments add up to the volumes of their ticks. -/
theorem sum_volume_of_covers {closed : List (List (TickData × ℚ))} {bars : List BarData}
    (covers : List.Forall₂ Covers closed bars) :
    (bars.map BarData.volume).sum = (closed.flatten.map Prod.snd).sum := by
  induction covers with
  | nil => rfl
  | cons first rest ih => simp [first.volume, ih]

/-- The minutes that are over are those that have been closed. -/
theorem Follows.bars (follows : Follows (priced none ticks) g) :
    List.Forall₂ Covers (minutes ticks).dropLast g.reported := by
  rcases follows.cut with ⟨empty, -, reported⟩ | ⟨closed, run, bar, cut, -, -, -, bars⟩
  · simp [minutes, byKey, empty, reported]
  · have minutes_eq : minutes ticks = closed ++ [run] := cut
    simpa [minutes_eq] using bars

theorem Follows.volume (follows : Follows (priced none ticks) g) :
    (g.reported.map BarData.volume).sum + (g.bar.map BarData.volume).getD 0 =
      ((priced none ticks).map Prod.snd).sum := by
  rcases follows.cut with ⟨empty, none, reported⟩ | ⟨closed, run, bar, cut, some, -, covers, bars⟩
  · simp [none, reported, empty]
  · have flat : priced Option.none ticks = closed.flatten ++ run := by
      have flatten := List.flatten_splitBy (fun a b => decide (minuteOf a = minuteOf b))
        (priced Option.none ticks)
      rw [← flatten]
      change (byKey minuteOf (priced Option.none ticks)).flatten = _
      simp [cut]
    have open_volume : bar.volume = (run.map Prod.snd).sum := covers.volume
    simp [some, flat, sum_volume_of_covers bars, open_volume]

/-- Whatever ticks arrive, each minute that is over has been reported once and in order, with the
bar of its ticks, and all that has been traded is in the bars. -/
theorem bars_cover_ticks (window : ℤ) (interval : Interval) (ticks : List TickData) :
    Reports ticks (ticks.foldl updateTick { window, interval }) where
  bars := (follows_foldl window interval ticks).bars
  volume := (follows_foldl window interval ticks).volume

/-! ## The order of the bars -/

theorem Covers.lt_iff {run' : List (TickData × ℚ)} {bar' : BarData} (covers : Covers run bar)
    (covers' : Covers run' bar') : Below minuteOf run run' ↔ bar.datetime < bar'.datetime := by
  have stamp : ∀ x ∈ run, bar.datetime = minuteOf x * 60000 := covers.datetime
  have stamp' : ∀ x ∈ run', bar'.datetime = minuteOf x * 60000 := covers'.datetime
  obtain ⟨x, mem⟩ : ∃ x, x ∈ run := by
    have first := covers.openPrice
    cases run with
    | nil => simp at first
    | cons x run => exact ⟨x, by simp⟩
  obtain ⟨x', mem'⟩ : ∃ x, x ∈ run' := by
    have first := covers'.openPrice
    cases run' with
    | nil => simp at first
    | cons x run => exact ⟨x, by simp⟩
  constructor
  · intro below
    rw [stamp x mem, stamp' x' mem']
    exact mul_lt_mul_of_pos_right (below x mem x' mem') (by norm_num)
  · intro lt a ha b hb
    rw [stamp a ha, stamp' b hb] at lt
    exact lt_of_mul_lt_mul_right lt (by norm_num)

/-- Bars are reported with increasing times exactly if the ticks of the minutes that are over came
in the order of their minutes. -/
theorem increasing_iff_ordered (window : ℤ) (interval : Interval) (ticks : List TickData) :
    ((ticks.foldl updateTick { window, interval }).reported.map BarData.datetime).Pairwise
        (· < ·) ↔
      ((minutes ticks).dropLast.flatten.map minuteOf).Pairwise (· ≤ ·) := by
  have bars := (follows_foldl window interval ticks).bars
  rw [List.pairwise_map, ← pairwise_congr bars Covers.lt_iff]
  exact pairwise_below_iff (List.dropLast_prefix _)

/-- Ticks of the minutes one, zero and one again. -/
def lateTick : List TickData :=
  [60000, 0, 60000].map fun datetime =>
    { symbol := "BTC-USDT", exchange := .okx, datetime, lastPrice := 1 }

/-- A tick that comes late is given a bar of its own, behind that of the later minute. -/
theorem late_not_increasing :
    ¬ ∀ ticks : List TickData,
      ((ticks.foldl updateTick {}).reported.map BarData.datetime).Pairwise (· < ·) := by
  intro all
  exact absurd (all lateTick) (by decide +kernel)

end BarGenerator

end KeenTrader.Engine
