import KeenTrader.Engine.Utility

/-!
# Rounding to a step

What `round_to`, `floor_to` and `ceil_to` promise. Each rounds the number of steps to an integer,
in its own way, and the integer goes through an `int` before it is multiplied by the step. The
promises hold exactly as long as both neighbouring multiples are counted by an `int`.
-/

namespace KeenTrader.Engine

/-- A way to round to integers: it keeps the order, and it keeps integers. -/
structure IntRounding where
  round : ℚ → ℤ
  mono : Monotone round
  fixes : ∀ n : ℤ, round n = n

namespace IntRounding

variable (r : IntRounding)

theorem floor_le_round (q : ℚ) : ⌊q⌋ ≤ r.round q :=
  calc ⌊q⌋ = r.round (⌊q⌋ : ℤ) := (r.fixes _).symm
    _ ≤ r.round q := r.mono (Int.floor_le q)

theorem round_le_ceil (q : ℚ) : r.round q ≤ ⌈q⌉ :=
  calc r.round q ≤ r.round (⌈q⌉ : ℤ) := r.mono (Int.le_ceil q)
    _ = ⌈q⌉ := r.fixes _

/-- The multiple of the step that a value is rounded to, counted by an `int`. -/
def snap (value step : ℚ) : ℚ := toInt (r.round (value / step)) * step

/-- What has been rounded is a multiple that fits, and so it is left alone. -/
theorem snap_snap (value : ℚ) {step : ℚ} (pos : 0 < step) :
    r.snap (r.snap value step) step = r.snap value step := by
  have low : -2 ^ 31 ≤ toInt (r.round (value / step)) := by
    rw [toInt_intCast]
    split <;> omega
  unfold snap
  rw [mul_div_cancel_right₀ _ pos.ne', r.fixes, toInt_of_fits low (toInt_lt _)]

/-- What does not fit on the negative side ends at the least multiple, below all others. -/
theorem snap_le_snap {v w step : ℚ} (pos : 0 < step) (le : w ≤ v)
    (low : -2 ^ 31 ≤ r.round (v / step)) (high : r.round (v / step) < 2 ^ 31) :
    r.snap w step ≤ r.snap v step := by
  have counts : r.round (w / step) ≤ r.round (v / step) := r.mono (by gcongr)
  have ordered : toInt (r.round (w / step)) ≤ toInt (r.round (v / step)) := by
    rw [toInt_of_fits low high, toInt_intCast]
    split <;> omega
  unfold snap
  gcongr

end IntRounding

/-- To the nearest integer, halves away from zero. -/
def nearest (q : ℚ) : ℤ := if 0 ≤ q then ⌊q + 1 / 2⌋ else -⌊-q + 1 / 2⌋

theorem cround_eq_nearest (q : ℚ) : cround q = nearest q := by
  unfold cround nearest
  split <;> simp

theorem nearest_intCast (n : ℤ) : nearest n = n := by
  exact_mod_cast (cround_eq_nearest n).symm.trans (cround_intCast n)

theorem nearest_mono : Monotone nearest := by
  intro p q le
  unfold nearest
  by_cases nonneg : 0 ≤ p
  · rw [if_pos nonneg, if_pos (nonneg.trans le)]
    gcongr
  · rw [if_neg nonneg]
    have below : (0 : ℤ) ≤ ⌊-p + 1 / 2⌋ := Int.floor_nonneg.mpr (by linarith)
    split
    · have above : (0 : ℤ) ≤ ⌊q + 1 / 2⌋ := Int.floor_nonneg.mpr (by linarith)
      omega
    · gcongr

/-- No integer is nearer than half a unit. -/
theorem abs_nearest_sub_le (q : ℚ) : |(nearest q : ℚ) - q| ≤ 1 / 2 := by
  unfold nearest
  rw [abs_le]
  split
  · have low := Int.lt_floor_add_one (q + 1 / 2)
    have high := Int.floor_le (q + 1 / 2)
    constructor <;> linarith
  · have low := Int.lt_floor_add_one (-q + 1 / 2)
    have high := Int.floor_le (-q + 1 / 2)
    push_cast
    constructor <;> linarith

namespace IntRounding

def nearestInt : IntRounding := ⟨nearest, nearest_mono, nearest_intCast⟩

def floor : IntRounding := ⟨Int.floor, Int.floor_mono, Int.floor_intCast⟩

def ceil : IntRounding := ⟨Int.ceil, Int.ceil_mono, Int.ceil_intCast⟩

end IntRounding

open IntRounding (nearestInt floor ceil)

theorem roundTo_eq_snap : roundTo = nearestInt.snap := by
  funext value target
  rw [roundTo, cround_eq_nearest]
  rfl

theorem floorTo_eq_snap : floorTo = floor.snap := rfl

theorem ceilTo_eq_snap : ceilTo = ceil.snap := rfl

/-- The three functions are the roundings of the number of steps. -/
theorem exists_snap {f : ℚ → ℚ → ℚ} (mem : f ∈ [roundTo, floorTo, ceilTo]) :
    ∃ r : IntRounding, f = r.snap := by
  simp only [List.mem_cons, List.not_mem_nil, or_false] at mem
  obtain rfl | rfl | rfl := mem
  · exact ⟨_, roundTo_eq_snap⟩
  · exact ⟨_, floorTo_eq_snap⟩
  · exact ⟨_, ceilTo_eq_snap⟩

/-! ## What is promised -/

/-- What rounding a value to a step promises. -/
structure RoundsWell (value target : ℚ) : Prop where
  multiple : ∀ f ∈ [roundTo, floorTo, ceilTo], ∃ n : ℤ, f value target = n * target
  below : floorTo value target ≤ value
  above : value ≤ ceilTo value target
  apart : (¬∃ n : ℤ, value = n * target) → ceilTo value target - floorTo value target = target
  exact : (∃ n : ℤ, value = n * target) → ceilTo value target - floorTo value target = 0
  near : |roundTo value target - value| ≤ target / 2
  idempotent : ∀ f ∈ [roundTo, floorTo, ceilTo], f (f value target) target = f value target
  mono : ∀ f ∈ [roundTo, floorTo, ceilTo], ∀ w ≤ value, f w target ≤ f value target

/-- The multiples on both sides of the value are counted by an `int`. -/
def StepsFit (value target : ℚ) : Prop :=
  -2 ^ 31 ≤ value / target ∧ value / target ≤ 2 ^ 31 - 1

variable {value target : ℚ}

theorem StepsFit.floor (fits : StepsFit value target) : -2 ^ 31 ≤ ⌊value / target⌋ :=
  Int.le_floor.mpr (by exact_mod_cast fits.1)

theorem StepsFit.ceil (fits : StepsFit value target) : ⌈value / target⌉ < 2 ^ 31 := by
  have le : ⌈value / target⌉ ≤ 2 ^ 31 - 1 := Int.ceil_le.mpr (by exact_mod_cast fits.2)
  omega

theorem StepsFit.toInt_round (fits : StepsFit value target) (r : IntRounding) :
    toInt (r.round (value / target)) = r.round (value / target) := by
  have low := r.floor_le_round (value / target)
  have high := r.round_le_ceil (value / target)
  exact toInt_of_fits (fits.floor.trans low) (high.trans_lt fits.ceil)

/-- Where the steps fit, a value is rounded as if there were no bounds. -/
theorem StepsFit.snap (fits : StepsFit value target) (r : IntRounding) :
    r.snap value target = r.round (value / target) * target := by
  rw [IntRounding.snap, fits.toInt_round]

theorem StepsFit.near (fits : StepsFit value target) (pos : 0 < target) :
    |roundTo value target - value| ≤ target / 2 := by
  have scaled : roundTo value target - value =
      ((nearest (value / target) : ℚ) - value / target) * target := by
    rw [roundTo_eq_snap, fits.snap]
    change (nearest (value / target) : ℚ) * target - value = _
    field_simp
  rw [scaled, abs_mul, abs_of_pos pos]
  have half := abs_nearest_sub_le (value / target)
  calc |(nearest (value / target) : ℚ) - value / target| * target ≤ 1 / 2 * target := by gcongr
    _ = target / 2 := by ring

/-- The floor and the ceiling are one step apart, unless the value is a multiple itself. -/
theorem StepsFit.gap (fits : StepsFit value target) (pos : 0 < target) :
    ((¬∃ n : ℤ, value = n * target) → ceilTo value target - floorTo value target = target) ∧
      ((∃ n : ℤ, value = n * target) → ceilTo value target - floorTo value target = 0) := by
  have between : ceilTo value target - floorTo value target =
      ((⌈value / target⌉ - ⌊value / target⌋ : ℤ) : ℚ) * target := by
    rw [ceilTo_eq_snap, floorTo_eq_snap, fits.snap, fits.snap]
    push_cast
    exact (sub_mul _ _ _).symm
  rw [between]
  constructor
  · intro none
    have proper : (⌊value / target⌋ : ℚ) ≠ value / target := fun whole =>
      none ⟨⌊value / target⌋, by rw [whole, div_mul_cancel₀ _ pos.ne']⟩
    have less : (⌊value / target⌋ : ℚ) < value / target := (Int.floor_le _).lt_of_ne proper
    have step : ⌈value / target⌉ = ⌊value / target⌋ + 1 := by
      refine le_antisymm (Int.ceil_le_floor_add_one _) ?_
      exact Int.add_one_le_iff.mpr (Int.lt_ceil.mpr less)
    simp [step]
  · rintro ⟨n, rfl⟩
    simp [mul_div_cancel_right₀ _ pos.ne']

theorem StepsFit.roundsWell (fits : StepsFit value target) (pos : 0 < target) :
    RoundsWell value target where
  multiple f mem := by
    obtain ⟨r, rfl⟩ := exists_snap mem
    exact ⟨_, rfl⟩
  below := by
    rw [floorTo_eq_snap, fits.snap, ← le_div_iff₀ pos]
    exact Int.floor_le _
  above := by
    rw [ceilTo_eq_snap, fits.snap, ← div_le_iff₀ pos]
    exact Int.le_ceil _
  apart := (fits.gap pos).1
  exact := (fits.gap pos).2
  near := fits.near pos
  idempotent f mem := by
    obtain ⟨r, rfl⟩ := exists_snap mem
    exact r.snap_snap value pos
  mono f mem w le := by
    obtain ⟨r, rfl⟩ := exists_snap mem
    have low := r.floor_le_round (value / target)
    have high := r.round_le_ceil (value / target)
    exact r.snap_le_snap pos le (fits.floor.trans low) (high.trans_lt fits.ceil)

/-- Rounding keeps its promises exactly where the steps fit. -/
theorem roundsWell_iff (value target : ℚ) (pos : 0 < target) :
    RoundsWell value target ↔ -2 ^ 31 ≤ value / target ∧ value / target ≤ 2 ^ 31 - 1 := by
  refine ⟨fun well => ?_, fun fits => StepsFit.roundsWell fits pos⟩
  -- a count that does not fit ends at the least `int`: above it is below the ceiling
  have above : value / target ≤ toInt (⌈value / target⌉ : ℚ) := (div_le_iff₀ pos).mpr well.above
  have below : (toInt (⌊value / target⌋ : ℚ) : ℚ) ≤ value / target :=
    (le_div_iff₀ pos).mpr well.below
  have least : -2 ^ 31 ≤ toInt (⌊value / target⌋ : ℚ) := by
    rw [toInt_intCast]
    split <;> omega
  have greatest := Int.add_one_le_iff.mpr (toInt_lt (⌈value / target⌉ : ℚ))
  have least' : (-2 ^ 31 : ℚ) ≤ toInt (⌊value / target⌋ : ℚ) := by exact_mod_cast least
  have greatest' : (toInt (⌈value / target⌉ : ℚ) : ℚ) + 1 ≤ 2 ^ 31 := by exact_mod_cast greatest
  constructor <;> linarith

/-- A price of 3.7 at a tick of one half. -/
theorem price_roundsWell : RoundsWell 3.7 0.5 :=
  (roundsWell_iff 3.7 0.5 (by norm_num)).mpr (by norm_num)

/-- Three thousand million units of a coin that is traded in whole units. -/
theorem large_volume_rounded :
    ¬ ∀ value target : ℚ, 0 < target → RoundsWell value target := by
  intro all
  have above := (all 3000000000 1 one_pos).above
  have cut : ceilTo 3000000000 1 = -2 ^ 31 := by decide +kernel
  rw [cut] at above
  norm_num at above

end KeenTrader.Engine
