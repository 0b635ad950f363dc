import KeenTrader.Engine.BarGenerator

/-!
# Bars in windows

`update_bar` gathers bars in windows: of some minutes of an hour, or of some hours. The bar of the
window is taken away behind every call, so that no window has more than the one bar that finishes
it; and the counter of hours is tested for the wrong outcome, so that every hour finishes a window.
-/

namespace KeenTrader.Engine

open Segments

namespace BarGenerator

/-- The window's bar with the times and prices of its first bar. -/
def openWindow (interval : Interval) (bar : BarData) : BarData :=
  { symbol := bar.symbol, exchange := bar.exchange, exchangeName := bar.exchangeName
    datetime :=
      if interval = .minute then replaceMinutes bar.datetime else replaceHours bar.datetime
    openPrice := bar.openPrice, highPrice := bar.highPrice, lowPrice := bar.lowPrice }

def extendWindow (window bar : BarData) : BarData :=
  { window with
    highPrice := max window.highPrice bar.highPrice
    lowPrice := min window.lowPrice bar.lowPrice }

/-- The volume is cut to a whole number. -/
def addBar (window bar : BarData) : BarData :=
  { window with
    closePrice := bar.closePrice
    volume := window.volume + toInt bar.volume
    openInterest := bar.openInterest }

/-- Whether the bar finishes the window, and the counter of hours behind it. -/
def finish (g : BarGenerator) (bar : BarData) : Bool × ℤ :=
  match g.interval with
  | .minute => ((minuteOfHour bar.datetime + 1).tmod g.window = 0, g.intervalCount)
  | .hour =>
    match g.lastBar with
    | some last =>
      if getHours bar.datetime = getHours last.datetime then (false, g.intervalCount)
      else if g.window = 1 then (true, g.intervalCount)
      else
        let count := g.intervalCount + 1
        if count.tmod g.window = 0 then (false, count) else (true, 0)
    | none => (false, g.intervalCount)
  | _ => (false, g.intervalCount)

def updateBar (g : BarGenerator) (bar : BarData) : BarGenerator :=
  let window :=
    match g.windowBar with
    | none => openWindow g.interval bar
    | some window => extendWindow window bar
  let window := addBar window bar
  let (finished, count) := g.finish bar
  { g with
    windowBar := none
    intervalCount := count
    lastBar := some bar
    windowReported := g.windowReported ++ if finished then [window] else [] }

@[simp] theorem updateBar_interval (g : BarGenerator) (bar : BarData) :
    (g.updateBar bar).interval = g.interval := rfl

@[simp] theorem updateBar_window (g : BarGenerator) (bar : BarData) :
    (g.updateBar bar).window = g.window := rfl

@[simp] theorem updateBar_windowBar (g : BarGenerator) (bar : BarData) :
    (g.updateBar bar).windowBar = none := rfl

@[simp] theorem updateBar_lastBar (g : BarGenerator) (bar : BarData) :
    (g.updateBar bar).lastBar = some bar := rfl

@[simp] theorem updateBar_intervalCount (g : BarGenerator) (bar : BarData) :
    (g.updateBar bar).intervalCount = (g.finish bar).2 := rfl

/-- A window never has another bar than the one that finishes it. -/
theorem updateBar_windowReported {g : BarGenerator} (fresh : g.windowBar = none) (bar : BarData) :
    (g.updateBar bar).windowReported = g.windowReported ++
      if (g.finish bar).1 then [addBar (openWindow g.interval bar) bar] else [] := by
  simp [updateBar, fresh]

/-! ## Windows of minutes -/

/-- The bar of the last minute of a window. -/
def endsWindow (w : ℕ) (bar : BarData) : Bool := (minuteOfHour bar.datetime + 1) % w = 0

/-- The windows that are over, each with its bars. -/
def windows (w : ℕ) (bars : List BarData) : List (List BarData) := finished (endsWindow w) bars

/-- The bar sums up the bars of one window. -/
structure Sums (run : List BarData) (bar : BarData) : Prop where
  datetime : run.head?.map (fun b => replaceMinutes b.datetime) = some bar.datetime
  openPrice : run.head?.map BarData.openPrice = some bar.openPrice
  highPrice : (run.map BarData.highPrice).max? = some bar.highPrice
  lowPrice : (run.map BarData.lowPrice).min? = some bar.lowPrice
  closePrice : run.getLast?.map BarData.closePrice = some bar.closePrice
  volume : bar.volume = (run.map BarData.volume).sum

/-- The window has one bar, whose volume is a whole number that fits an `int`. -/
def Single (run : List BarData) : Prop := ∃ bar, run = [bar] ∧ (toInt bar.volume : ℚ) = bar.volume

/-- Each bar is a minute after the one before. -/
def Consecutive (bars : List BarData) : Prop :=
  bars.IsChain fun a b => b.datetime = a.datetime + 60000

/-- What is reported for a bar that finishes a window of minutes. -/
def lastMinute (bar : BarData) : BarData := addBar (openWindow .minute bar) bar

theorem windowReported_minutes (w : ℕ) (bars : List BarData) :
    (bars.foldl updateBar { window := w }).windowReported =
      (bars.filter (endsWindow w)).map lastMinute := by
  have fresh (done : List BarData) :
      (done.foldl updateBar { window := w }).windowBar = none ∧
      (done.foldl updateBar { window := w }).interval = .minute ∧
      (done.foldl updateBar { window := w }).window = w := by
    induction done using List.reverseRecOn with
    | nil => exact ⟨rfl, rfl, rfl⟩
    | append_singleton done bar ih =>
      rw [List.foldl_append]
      exact ⟨rfl, ih.2.1, ih.2.2⟩
  induction bars using List.reverseRecOn with
  | nil => rfl
  | append_singleton bars bar ih =>
    obtain ⟨none, interval, window⟩ := fresh bars
    have minute : 0 ≤ minuteOfHour bar.datetime + 1 := by
      unfold minuteOfHour
      omega
    rw [List.foldl_append, List.foldl_cons, List.foldl_nil, updateBar_windowReported none, ih,
      interval, List.filter_append, List.map_append]
    simp only [finish, interval, window, Int.tmod_eq_emod_of_nonneg minute, List.filter_cons,
      List.filter_nil, endsWindow]
    split <;> simp_all [lastMinute]

theorem sums_lastMinute (bar : BarData) :
    Sums [bar] (lastMinute bar) ↔ (toInt bar.volume : ℚ) = bar.volume := by
  constructor
  · intro sums
    simpa [lastMinute, addBar, openWindow] using sums.volume
  · intro whole
    constructor <;> simp [lastMinute, addBar, openWindow, whole]

/-- Two times that are a minute apart share their minute only around the epoch, in the last minute
of an hour. -/
theorem last_minute_of_same {d later : ℤ} (after : d + 60000 ≤ later)
    (same : d.tdiv 60000 = later.tdiv 60000) : d % 86400000 / 60000 % 60 = 59 := by
  have sign : Int.sign 60000 = 1 := rfl
  have around : -60000 < d ∧ d < 0 := by
    rw [Int.tdiv_eq_ediv, Int.tdiv_eq_ediv, sign] at same
    split_ifs at same <;> omega
  omega

theorem replaceMinutes_ne {w : ℕ} (divides : w ∣ 60) {a : BarData}
    (going : endsWindow w a = false) {later : DateTime} (after : a.datetime + 60000 ≤ later) :
    replaceMinutes a.datetime ≠ replaceMinutes later := by
  intro same
  have minute : getMinutes a.datetime = getMinutes later :=
    mul_right_cancel₀ (by norm_num : (60000 : ℤ) ≠ 0) same
  have last : minuteOfHour a.datetime = 59 := last_minute_of_same after minute
  have hour : (w : ℤ) ∣ 60 := by exact_mod_cast divides
  simp [endsWindow, last, hour] at going

/-- A window of minutes is summed up by what is reported for its last bar exactly if it has no
other bar. -/
theorem sums_iff_single {w : ℕ} (divides : w ∣ 60) {bars run : List BarData} {last : BarData}
    (consecutive : Consecutive bars) (mem : run ∈ windows w bars)
    (ends : run.getLast? = some last) :
    Sums run (lastMinute last) ↔ Single run := by
  match run, ends with
  | [bar], ends =>
    obtain rfl : bar = last := by simpa using ends
    rw [sums_lastMinute]
    simp [Single]
  | a :: b :: rest, ends =>
    have going := going_of_mem_finished mem
    have steps := List.IsChain.infix consecutive (infix_of_mem_finished mem)
    have chain : (a :: b :: rest).IsChain fun x y => x.datetime + 60000 ≤ y.datetime :=
      steps.imp fun _ _ eq => eq.ge
    have after : a.datetime + 60000 ≤ last.datetime := by
      have : IsTrans BarData fun x y => x.datetime + 60000 ≤ y.datetime := ⟨by grind⟩
      have pairs := List.isChain_iff_pairwise.mp chain
      exact (List.pairwise_cons.mp pairs).1 last (by grind)
    constructor
    · intro sums
      have same : replaceMinutes a.datetime = replaceMinutes last.datetime := by
        simpa [lastMinute, addBar, openWindow] using sums.datetime
      exact absurd same (replaceMinutes_ne divides going after)
    · rintro ⟨bar, single, -⟩
      simp at single

/-- Windows of minutes are reported with the bars that they have exactly if each has a single
one. -/
theorem windows_sum_iff {w : ℕ} (divides : w ∣ 60) {bars : List BarData}
    (consecutive : Consecutive bars) :
    List.Forall₂ Sums (windows w bars) (bars.foldl updateBar { window := w }).windowReported ↔
      ∀ run ∈ windows w bars, Single run := by
  rw [windowReported_minutes, List.forall₂_map_right_iff]
  exact forall₂_iff_forall (last_of_finished bars) fun run mem last ends =>
    sums_iff_single divides consecutive mem ends

/-- The bar of one minute. -/
def minuteBar (minute : ℤ) (price : ℚ) : BarData :=
  { symbol := "BTC-USDT", exchange := .okx, exchangeName := "OKX", datetime := minute * 60000
    interval := .minute, volume := 2, openPrice := price, highPrice := price, lowPrice := price
    closePrice := price }

/-- Windows of one minute are summed up. -/
theorem windows_sum_single :
    List.Forall₂ Sums (windows 1 [minuteBar 0 7, minuteBar 1 8])
      (([minuteBar 0 7, minuteBar 1 8]).foldl updateBar { window := (1 : ℕ) }).windowReported := by
  refine (windows_sum_iff (by decide) (by simp [Consecutive, minuteBar])).mpr ?_
  have cut : windows 1 [minuteBar 0 7, minuteBar 1 8] = [[minuteBar 0 7], [minuteBar 1 8]] := by
    decide +kernel
  have whole : toInt 2 = 2 := by decide +kernel
  rw [cut]
  simp [Single, minuteBar, whole]

/-- Of a window of two minutes only the second is reported. -/
theorem first_minute_lost :
    ¬ ∀ (w : ℕ) (bars : List BarData), w ∣ 60 → Consecutive bars →
      List.Forall₂ Sums (windows w bars) (bars.foldl updateBar { window := w }).windowReported := by
  intro all
  have sums := all 2 [minuteBar 0 7, minuteBar 1 8] (by decide) (by simp [Consecutive, minuteBar])
  have cut : windows 2 [minuteBar 0 7, minuteBar 1 8] = [[minuteBar 0 7, minuteBar 1 8]] := by
    decide +kernel
  have reported : (([minuteBar 0 7, minuteBar 1 8]).foldl updateBar
      { window := (2 : ℕ) }).windowReported = [lastMinute (minuteBar 1 8)] := by
    decide +kernel
  rw [cut, reported, List.forall₂_cons] at sums
  exact absurd sums.1.datetime (by decide +kernel)

/-! ## Windows of hours -/

/-- How often the hour changes from a bar to the next. -/
def hourChanges : List BarData → ℕ
  | a :: b :: bars =>
    (if getHours a.datetime = getHours b.datetime then 0 else 1) + hourChanges (b :: bars)
  | _ => 0

/-- Each change of the hour finishes a window, and the counter stays where it is. -/
theorem finish_hour {g : BarGenerator} {last : BarData} (hour : g.interval = .hour)
    (positive : 1 ≤ g.window) (count : g.intervalCount = 0) (before : g.lastBar = some last)
    (bar : BarData) :
    g.finish bar = (decide (getHours bar.datetime ≠ getHours last.datetime), 0) := by
  simp only [finish, hour, before, count]
  split
  · simp [*]
  split
  · simp [*]
  · rename_i change several
    have one : (1 : ℤ).tmod g.window = 1 := Int.tmod_eq_of_lt (by norm_num) (by omega)
    simp [one, change]

/-- The number of windows grows with every change of the hour. -/
theorem length_windowReported_hours {g : BarGenerator} {last : BarData} (hour : g.interval = .hour)
    (positive : 1 ≤ g.window) (count : g.intervalCount = 0) (before : g.lastBar = some last)
    (fresh : g.windowBar = none) (bars : List BarData) :
    (bars.foldl updateBar g).windowReported.length =
      g.windowReported.length + hourChanges (last :: bars) := by
  induction bars generalizing g last with
  | nil => simp [hourChanges]
  | cons bar bars ih =>
    have finished := finish_hour hour positive count before bar
    rw [List.foldl_cons, ih (by simpa) (by simpa) (by simp [finished]) rfl rfl,
      updateBar_windowReported fresh, finished, hourChanges]
    by_cases same : getHours last.datetime = getHours bar.datetime
    · simp [same]
    · simp [same, Ne.symm same]
      omega

theorem windows_eq_changes {w : ℕ} (positive : 1 ≤ w) (bars : List BarData) :
    (bars.foldl updateBar { window := w, interval := .hour }).windowReported.length =
      hourChanges bars := by
  cases bars with
  | nil => rfl
  | cons bar bars =>
    have later := length_windowReported_hours
      (g := ({ window := w, interval := .hour } : BarGenerator).updateBar bar) rfl
      (by simpa using positive) rfl (rfl : _ = some bar) rfl bars
    rw [List.foldl_cons, later]
    simp [updateBar, finish]

theorem hourChanges_le_append (done rest : List BarData) :
    hourChanges done ≤ hourChanges (done ++ rest) := by
  fun_induction hourChanges done with
  | case1 a b bars ih =>
    simp only [List.cons_append, hourChanges] at ih ⊢
    omega
  | case2 => exact Nat.zero_le _

/-- Windows of hours are reported for every `w` changes of the hour exactly if they are windows of
one hour, or no hour ever changes. -/
theorem windows_counted_iff {w : ℕ} (positive : 1 ≤ w) (bars : List BarData) :
    (∀ done, done <+: bars →
      (done.foldl updateBar { window := w, interval := .hour }).windowReported.length =
        hourChanges done / w) ↔
      w = 1 ∨ hourChanges bars = 0 := by
  simp only [windows_eq_changes positive]
  constructor
  · intro all
    have counted := all bars (List.prefix_refl bars)
    by_contra! several
    have fewer : hourChanges bars / w < hourChanges bars := Nat.div_lt_self (by omega) (by omega)
    omega
  · rintro (rfl | none) done ⟨rest, rfl⟩
    · simp
    · have before := hourChanges_le_append done rest
      have zero : hourChanges done = 0 := by omega
      simp [zero]

/-- A bar of an hour. -/
def hourBar (hour : ℤ) : BarData := minuteBar (hour * 60) 7

/-- Windows of one hour are counted. -/
theorem windows_counted_one :
    (([hourBar 0, hourBar 1]).foldl updateBar
      { window := (1 : ℕ), interval := .hour }).windowReported.length = 1 := by
  have one : hourChanges [hourBar 0, hourBar 1] / 1 = 1 := by decide +kernel
  have counted := (windows_counted_iff le_rfl [hourBar 0, hourBar 1]).mpr (.inl rfl)
  exact (counted _ (List.prefix_refl _)).trans one

/-- A window of two hours is over with the first change of the hour. -/
theorem window_over_early :
    ¬ ∀ (w : ℕ) (bars : List BarData), 1 ≤ w →
      (bars.foldl updateBar { window := w, interval := .hour }).windowReported.length =
        hourChanges bars / w := by
  intro all
  exact absurd (all 2 [hourBar 0, hourBar 1] (by decide)) (by decide +kernel)

end BarGenerator

end KeenTrader.Engine
