import KeenTrader.App.RBreakOrders
import KeenTrader.Engine.BarGenerator

/-!
# The R-Breaker strategy on ticks

In the engine `RBreakStrategy` is given ticks, of which its `BarGenerator` makes bars, and when it
is started it loads bars too. The bars lose nothing that the strategy looks at: its range and its
levels are what they would be if every tick of a minute that is over were a bar.
-/

namespace KeenTrader.App

open KeenTrader.Engine Runs Segments
open Engine.BarGenerator (Covers minutes)
open Floats (Format)

/-- What happens to the strategy. The count of `on_tick` is one for all strategies of the class, so
that the ticks of another one are counted too. -/
inductive TickInput where
  | start (loaded : List BarData)
  | tick (tick : TickData)
  | otherTick
  | position (pos : ℚ)

/-- The strategy with its bar generator. -/
structure RBreakFeed where
  session : RBreakSession
  bg : BarGenerator := {}
  index : ℕ

namespace RBreakFeed

section Steps
variable (F : Format)

/-- The strategy after some bars, and the calls that it has made with them. -/
def onBars (s : RBreakSession) (bars : List BarData) : List TemplateCall × RBreakSession :=
  let t := (bars.map .bar).foldl (RBreakSession.step F) s
  ((t.visits.drop s.visits.length).flatMap (·.calls), t)

/-- `loaded` is what `load_bar` gets. -/
def onStart (s : RBreakFeed) (loaded : List BarData) : List TemplateCall × RBreakFeed :=
  let (calls, session) := onBars F s.session loaded
  (calls, { s with session })

/-- `on_bar` is called from within `update_tick`, with the bar that is reported. One tick has an
order of its own behind it. -/
def onTick (s : RBreakFeed) (tick : TickData) : List TemplateCall × RBreakFeed :=
  let bg := s.bg.updateTick tick
  let (calls, session) := onBars F s.session (bg.reported.drop s.bg.reported.length)
  let bought := if s.index = 1 then [.buy 2100 (F.round 0.1) false false false] else []
  (calls ++ bought, { session, bg, index := s.index + 1 })

def step (s : RBreakFeed) : TickInput → RBreakFeed
  | .start loaded => (s.onStart F loaded).2
  | .tick tick => (s.onTick F tick).2
  | .otherTick => { s with index := s.index + 1 }
  | .position pos => { s with session := s.session.step F (.position pos) }

def run (strategy : CtaTemplate) (index : ℕ) (inputs : List TickInput) : RBreakFeed :=
  inputs.foldl (step F) { session := { strategy := .create F strategy }, index }

end Steps

/-! ## The bars as ticks -/

def ticksOf (inputs : List TickInput) : List TickData :=
  inputs.filterMap fun
    | .tick tick => some tick
    | _ => none

/-- The bar of a minute with one tick. -/
def tickBar (tick : TickData) : BarData := BarGenerator.closeBar (BarGenerator.openBar tick)

/-- The minutes that are over. -/
def closedMinutes (ticks : List TickData) : List (List BarData) :=
  (minutes ticks).dropLast.map (·.map fun x => tickBar x.1)

/-- What `on_bar` is given behind the ticks `ticks`: bars that are loaded, and minutes. -/
def partsFrom (ticks : List TickData) : List TickInput → List (List BarData)
  | [] => []
  | .start loaded :: inputs => loaded.map ([·]) ++ partsFrom ticks inputs
  | .tick tick :: inputs =>
    (closedMinutes (ticks ++ [tick])).drop (closedMinutes ticks).length ++
      partsFrom (ticks ++ [tick]) inputs
  | .otherTick :: inputs => partsFrom ticks inputs
  | .position _ :: inputs => partsFrom ticks inputs

/-- The full days, with each tick as a bar: those that begin behind the first bar of which the
strategy knows the bar before, which is the hundred-and-first. -/
def tickDays (inputs : List TickInput) : List (List BarData) :=
  (byKey (getDays ·.datetime) ((partsFrom [] inputs).drop 100).flatten).tail

/-- The range is that of the last day, and has no opening price before the first one. The levels are
those of the last day that is over, of those that have an opening price. -/
structure Reads (F : Format) (strategy : CtaTemplate) (days : List (List BarData))
    (s : RBreakStrategy) : Prop where
  day : ∀ day ∈ days.getLast?, s.day = RBreakSession.rangeOf day
  fresh : days = [] → s.day.dayOpen = 0
  levels : s.levels =
    (((days.dropLast.map RBreakSession.rangeOf).filter (·.dayOpen ≠ 0)).getLast?.map
      ((RBreakStrategy.create F strategy).levelsOf F)).getD {}

variable {F : Format} {strategy : CtaTemplate} {s : RBreakFeed} {ticks : List TickData}

theorem partsFrom_append (ticks : List TickData) (inputs later : List TickInput) :
    partsFrom ticks (inputs ++ later) =
      partsFrom ticks inputs ++ partsFrom (ticks ++ ticksOf inputs) later := by
  induction inputs generalizing ticks with
  | nil => simp [ticksOf, partsFrom]
  | cons input inputs ih =>
    cases input with
    | tick tick =>
      rw [List.cons_append, partsFrom, ih, partsFrom]
      simp [ticksOf]
    | start loaded =>
      rw [List.cons_append, partsFrom, ih, partsFrom]
      simp [ticksOf]
    | _ =>
      rw [List.cons_append, partsFrom, ih, partsFrom]
      rfl

/-! ## Ranges -/

/-- The bars have the range and the day of the bar. -/
structure StandsFor (part : List BarData) (bar : BarData) : Prop where
  started : part ≠ []
  range : RBreakSession.rangeOf part = RBreakSession.rangeOf [bar]
  day : ∀ b ∈ part, getDays b.datetime = getDays bar.datetime

theorem rangeOf_append {xs ys : List BarData} (hx : xs ≠ []) (hy : ys ≠ []) :
    RBreakSession.rangeOf (xs ++ ys) =
      { dayOpen := (RBreakSession.rangeOf xs).dayOpen
        dayHigh := max (RBreakSession.rangeOf xs).dayHigh (RBreakSession.rangeOf ys).dayHigh
        dayClose := (RBreakSession.rangeOf ys).dayClose
        dayLow := min (RBreakSession.rangeOf xs).dayLow (RBreakSession.rangeOf ys).dayLow } := by
  induction ys using List.reverseRecOn with
  | nil => contradiction
  | append_singleton ys y ih =>
    rcases List.eq_nil_or_concat ys with rfl | ⟨_, _, more⟩
    · rw [List.nil_append, RBreakSession.rangeOf_concat hx]
      simp [RBreakSession.rangeOf]
    · have ne : ys ≠ [] := by simp [more]
      rw [← List.append_assoc, RBreakSession.rangeOf_concat (by simp [ne]), ih ne,
        RBreakSession.rangeOf_concat ne]
      simp [max_assoc, min_assoc]

/-- Ranges are not changed by looking closer. -/
theorem rangeOf_flatten {parts : List (List BarData)} {bars : List BarData}
    (stand : List.Forall₂ StandsFor parts bars) :
    RBreakSession.rangeOf parts.flatten = RBreakSession.rangeOf bars := by
  induction bars using List.reverseRecOn generalizing parts with
  | nil =>
    obtain rfl := List.forall₂_nil_right_iff.mp stand
    rfl
  | append_singleton bars bar ih =>
    obtain ⟨parts, part, rfl, earlier, now⟩ := exists_of_forall₂_concat stand
    rw [List.flatten_append, List.flatten_singleton]
    cases earlier with
    | nil => exact now.range
    | cons first rest =>
      have ne := first.started
      rw [rangeOf_append (by simp [ne]) now.started, rangeOf_append (by simp) (by simp),
        ih (.cons first rest), now.range]

theorem standsFor_self (bar : BarData) : StandsFor [bar] bar := ⟨by simp, rfl, by simp⟩

/-- The bar of a minute has the range of its ticks. -/
theorem standsFor_of_covers {run : List (TickData × ℚ)} {bar : BarData} (covers : Covers run bar) :
    StandsFor (run.map fun x => tickBar x.1) bar := by
  have openPrice := covers.openPrice
  have closePrice := covers.closePrice
  have highPrice := covers.highPrice
  have lowPrice := covers.lowPrice
  constructor
  · rintro empty
    obtain rfl := List.map_eq_nil_iff.mp empty
    simp at openPrice
  · have prices : (run.map fun x => tickBar x.1).map (·.highPrice) = run.map (·.1.lastPrice) ∧
        (run.map fun x => tickBar x.1).map (·.lowPrice) = run.map (·.1.lastPrice) := by
      simp [tickBar, BarGenerator.closeBar, BarGenerator.openBar]
    have first : (run.map fun x => tickBar x.1).head?.map (·.openPrice) =
        run.head?.map (·.1.lastPrice) := by
      simp only [List.head?_map, Option.map_map]
      rfl
    have last : (run.map fun x => tickBar x.1).getLast?.map (·.closePrice) =
        run.getLast?.map (·.1.lastPrice) := by
      simp only [List.getLast?_map, Option.map_map]
      rfl
    unfold RBreakSession.rangeOf
    rw [prices.1, prices.2, first, last, openPrice, closePrice, highPrice, lowPrice]
    rfl
  · intro b mem
    obtain ⟨x, x_mem, rfl⟩ := List.mem_map.mp mem
    rw [covers.datetime x x_mem]
    rfl

/-! ## Runs -/

/-- The strategy has been given bars, and these stand for the parts. -/
structure Fed (F : Format) (strategy : CtaTemplate) (ticks : List TickData)
    (parts : List (List BarData)) (s : RBreakFeed) : Prop where
  bg : s.bg = ticks.foldl BarGenerator.updateTick {}
  session : ∃ inputs, s.session = RBreakSession.run F strategy inputs
  parts : List.Forall₂ StandsFor parts s.session.bars

theorem bars_onBars (s : RBreakSession) (bars : List BarData) :
    (onBars F s bars).2.bars = s.bars ++ bars := by
  induction bars generalizing s with
  | nil => simp [onBars]
  | cons bar bars ih =>
    have rest := ih (s.step F (.bar bar))
    have first : (s.step F (.bar bar)).bars = s.bars ++ [bar] := by
      simp [RBreakSession.step, RBreakSession.bars]
    rw [first] at rest
    simpa [onBars] using rest

theorem exists_run_onBars {r : RBreakSession} {inputs : List BarInput}
    (ran : r = RBreakSession.run F strategy inputs) (bars : List BarData) :
    ∃ inputs, (onBars F r bars).2 = RBreakSession.run F strategy inputs := by
  refine ⟨inputs ++ bars.map .bar, ?_⟩
  rw [ran, onBars, RBreakSession.run, RBreakSession.run, List.foldl_append]

theorem standsFor_reported (ticks : List TickData) :
    List.Forall₂ StandsFor (closedMinutes ticks)
      (ticks.foldl BarGenerator.updateTick {}).reported := by
  have covers := (BarGenerator.follows_foldl 0 .minute ticks).bars
  exact List.forall₂_map_left_iff.mpr (covers.imp fun _ _ => standsFor_of_covers)

/-- Whatever happens, the strategy has been given bars that stand for the parts. -/
theorem fed_step {parts : List (List BarData)} (fed : Fed F strategy ticks parts s)
    (input : TickInput) :
    Fed F strategy (ticks ++ ticksOf [input]) (parts ++ partsFrom ticks [input])
      (s.step F input) := by
  obtain ⟨inputs, ran⟩ := fed.session
  cases input with
  | start loaded =>
    refine ⟨by simpa [ticksOf, step, onStart] using fed.bg, exists_run_onBars ran loaded, ?_⟩
    have own : List.Forall₂ StandsFor (loaded.map ([·])) loaded :=
      List.forall₂_map_left_iff.mpr (List.forall₂_same.mpr fun bar _ => standsFor_self bar)
    simp only [partsFrom, List.append_nil, step, onStart]
    rw [bars_onBars]
    exact List.rel_append fed.parts own
  | tick tick =>
    have bg : s.bg.updateTick tick = (ticks ++ [tick]).foldl BarGenerator.updateTick {} := by
      rw [fed.bg, List.foldl_concat]
    refine ⟨bg, exists_run_onBars ran _, ?_⟩
    have length := (standsFor_reported ticks).length_eq
    rw [← fed.bg] at length
    simp only [partsFrom, List.append_nil, step, onTick]
    rw [bars_onBars, bg, length]
    exact List.rel_append fed.parts (List.forall₂_drop _ (standsFor_reported _))
  | otherTick =>
    simp only [ticksOf, partsFrom, step, List.append_nil]
    exact ⟨by simpa using fed.bg, fed.session, fed.parts⟩
  | position pos =>
    simp only [ticksOf, partsFrom, step, List.append_nil]
    refine ⟨by simpa using fed.bg, ⟨inputs ++ [.position pos], ?_⟩, fed.parts⟩
    rw [ran, RBreakSession.run_concat]

theorem fed_run (F : Format) (strategy : CtaTemplate) (index : ℕ) (inputs : List TickInput) :
    Fed F strategy (ticksOf inputs) (partsFrom [] inputs) (run F strategy index inputs) := by
  induction inputs using List.reverseRecOn with
  | nil => exact ⟨rfl, ⟨[], rfl⟩, .nil⟩
  | append_singleton inputs input ih =>
    have next := fed_step ih input
    rw [partsFrom_append, List.nil_append, ticksOf, List.filterMap_append, run, List.foldl_concat]
    exact next

/-- The days of the ticks have the ranges of the days of the bars. -/
theorem ranges_eq {parts : List (List BarData)} (fed : Fed F strategy ticks parts s) :
    (byKey (getDays ·.datetime) (parts.drop 100).flatten).tail.map RBreakSession.rangeOf =
      s.session.fullDays.map RBreakSession.rangeOf := by
  have stand : List.Forall₂ StandsFor (parts.drop 100) (s.session.bars.drop 100) :=
    List.forall₂_drop 100 fed.parts
  have days : List.Forall₂ (fun day day' => ∃ ps, day = ps.flatten ∧ List.Forall₂ StandsFor ps day')
      (byKey (fun b : BarData => getDays b.datetime) (parts.drop 100).flatten)
      (byKey (fun b : BarData => getDays b.datetime) (s.session.bars.drop 100)) :=
    byKey_parts stand (fun _ _ r => r.started) fun _ _ r => r.day
  have ranges : List.Forall₂ Eq
      ((byKey (getDays ·.datetime) (parts.drop 100).flatten).map RBreakSession.rangeOf)
      ((byKey (getDays ·.datetime) (s.session.bars.drop 100)).map RBreakSession.rangeOf) := by
    rw [List.forall₂_map_left_iff, List.forall₂_map_right_iff]
    refine days.imp ?_
    rintro _ bars ⟨ps, rfl, stand⟩
    exact rangeOf_flatten stand
  rw [List.forall₂_eq_eq_eq] at ranges
  rw [RBreakSession.fullDays, List.map_tail, List.map_tail, ranges]

/-- In every run, with ticks, loaded bars and restarts in any order, the range of the strategy and
its levels are those of the full days behind the hundredth bar, with every tick of a minute that is
over as a bar. -/
theorem levels_of_ticks (F : Format) (strategy : CtaTemplate) (index : ℕ)
    (inputs : List TickInput) :
    Reads F strategy (tickDays inputs) (run F strategy index inputs).session.strategy := by
  have fed := fed_run F strategy index inputs
  have ranges := ranges_eq fed
  change (tickDays inputs).map RBreakSession.rangeOf = _ at ranges
  obtain ⟨bars, ran⟩ := fed.session
  have follows := RBreakSession.follows_run F strategy bars
  have same := RBreakSession.run_sameParameters F strategy bars
  rw [← ran] at follows same
  constructor
  · intro day last
    have ends := congrArg List.getLast? ranges
    rw [List.getLast?_map, List.getLast?_map, last, Option.map_some, eq_comm,
      Option.map_eq_some_iff] at ends
    obtain ⟨barDay, bar_last, range⟩ := ends
    rw [follows.day barDay bar_last, range]
  · intro none
    rw [none, List.map_nil, eq_comm, List.map_eq_nil_iff] at ranges
    exact follows.fresh ranges
  · rw [follows.levels, same.levelsOf, RBreakSession.closedRanges, List.map_dropLast,
      List.map_dropLast, ranges]

end RBreakFeed

end KeenTrader.App
