import KeenTrader.Library.Json
import KeenTrader.Engine.Text

/-!
# Numeric conversions

The conversion of a floating-point value to `int`, and the rounding functions and the readers of
`utility.cpp`, over exact rationals.
-/

namespace KeenTrader.Engine

/-- Conversion to a 32-bit `int`: the fraction is discarded. A value that does not fit has no
defined result in C++; here it is the least `int`, which is what x86-64 delivers. -/
def toInt (q : ℚ) : ℤ :=
  let n := q.num.tdiv q.den
  if -2 ^ 31 ≤ n ∧ n < 2 ^ 31 then n else -2 ^ 31

/-- C `round`: to the nearest integer, halves away from zero. -/
def cround (q : ℚ) : ℚ := if 0 ≤ q then ⌊q + 1 / 2⌋ else -⌊-q + 1 / 2⌋

def roundTo (value target : ℚ) : ℚ := toInt (cround (value / target)) * target

def floorTo (value target : ℚ) : ℚ := toInt ⌊value / target⌋ * target

def ceilTo (value target : ℚ) : ℚ := toInt ⌈value / target⌉ * target

/-- A number, given as such or as text; everything else is zero. -/
def jsonToFloat : Json.Value → ℚ
  | .string s => atof s
  | .int n => n
  | .float q => q
  | _ => 0

/-- The same for a 32-bit integer: what does not fit wraps around. -/
def jsonToInt : Json.Value → ℤ
  | .string s => (atoll s).bmod (2 ^ 32)
  | .int n => n.bmod (2 ^ 32)
  | .float q => toInt q
  | _ => 0

theorem toInt_intCast (n : ℤ) : toInt n = if -2 ^ 31 ≤ n ∧ n < 2 ^ 31 then n else -2 ^ 31 := by
  simp [toInt]

theorem toInt_of_fits {n : ℤ} (low : -2 ^ 31 ≤ n) (high : n < 2 ^ 31) : toInt n = n := by
  rw [toInt_intCast, if_pos ⟨low, high⟩]

theorem toInt_lt (q : ℚ) : toInt q < 2 ^ 31 := by
  unfold toInt
  dsimp only
  split <;> omega

@[simp] theorem cround_intCast (n : ℤ) : cround n = n := by
  unfold cround
  have half : ⌊(1 / 2 : ℚ)⌋ = 0 := by norm_num
  split
  · rw [Int.floor_intCast_add, half, add_zero]
  · have below : ⌊-(n : ℚ) + 1 / 2⌋ = -n := by
      rw [← Int.cast_neg, Int.floor_intCast_add, half, add_zero]
    rw [below, Int.cast_neg, neg_neg]

/-- A multiple that fits is left alone. -/
theorem roundTo_multiple {n : ℤ} (target : ℚ) (low : -2 ^ 31 ≤ n) (high : n < 2 ^ 31)
    (pos : 0 < target) : roundTo (n * target) target = n * target := by
  rw [roundTo, mul_div_cancel_right₀ _ pos.ne', cround_intCast, toInt_of_fits low high]

/-- What does not fit ends below every value that does. -/
theorem toInt_of_large {n : ℤ} (high : 2 ^ 31 ≤ n) : toInt n = -2 ^ 31 := by
  rw [toInt_intCast, if_neg (by omega)]

/-! ## Cutting off fractions -/

theorem tdiv_of_nonneg {q : ℚ} (nonneg : 0 ≤ q) : q.num.tdiv q.den = ⌊q⌋ := by
  rw [Int.tdiv_eq_ediv_of_nonneg (Rat.num_nonneg.mpr nonneg), Rat.floor_def']

theorem tdiv_of_neg {q : ℚ} (neg : q < 0) : q.num.tdiv q.den = ⌈q⌉ := by
  have opposite := tdiv_of_nonneg (neg_nonneg.mpr neg.le)
  rw [Rat.num_neg_eq_neg_num, Rat.den_neg_eq_den, Int.neg_tdiv, Int.floor_neg] at opposite
  exact neg_inj.mp opposite

/-- The conversion cuts off the fraction, towards zero. -/
theorem toInt_cases (q : ℚ) :
    (0 ≤ q ∧ toInt q = if ⌊q⌋ < 2 ^ 31 then ⌊q⌋ else -2 ^ 31) ∨
      (q < 0 ∧ toInt q = if -2 ^ 31 ≤ ⌈q⌉ then ⌈q⌉ else -2 ^ 31) := by
  rcases le_or_gt 0 q with nonneg | neg
  · have floor := Int.floor_nonneg.mpr nonneg
    refine .inl ⟨nonneg, ?_⟩
    simp only [toInt, tdiv_of_nonneg nonneg]
    grind
  · have ceil : ⌈q⌉ ≤ 0 := Int.ceil_le.mpr (by exact_mod_cast neg.le)
    refine .inr ⟨neg, ?_⟩
    simp only [toInt, tdiv_of_neg neg]
    grind

theorem floor_lt_bound {q : ℚ} : ⌊q⌋ < 2 ^ 31 ↔ q < 2 ^ 31 := by
  rw [Int.floor_lt]
  norm_cast

/-- A value is cut to a number that is not negative where it is above -1 and fits. -/
theorem toInt_nonneg_iff {q : ℚ} : 0 ≤ toInt q ↔ -1 < q ∧ q < 2 ^ 31 := by
  rcases toInt_cases q with ⟨nonneg, eq⟩ | ⟨neg, eq⟩
  · have floor := Int.floor_nonneg.mpr nonneg
    rw [eq, ← floor_lt_bound]
    grind
  · have above : 0 ≤ ⌈q⌉ ↔ -1 < q := by
      rw [← Int.sub_one_lt_iff, zero_sub, Int.lt_ceil]
      norm_cast
    rw [eq, ← above]
    grind

/-- Only what is whole is then left of it. -/
theorem toInt_eq_of_nonneg {q : ℚ} (nonneg : 0 ≤ toInt q) : toInt q = max 0 ⌊q⌋ := by
  rcases toInt_cases q with ⟨held, eq⟩ | ⟨neg, eq⟩
  · have floor := Int.floor_nonneg.mpr held
    grind
  · have ceil : ⌈q⌉ ≤ 0 := Int.ceil_le.mpr (by exact_mod_cast neg.le)
    have floor : ⌊q⌋ < 0 := Int.floor_lt.mpr (by exact_mod_cast neg)
    grind

theorem le_toInt_iff {v q : ℚ} (positive : 0 < v) :
    v ≤ toInt q ↔ (⌈v⌉ : ℚ) ≤ q ∧ q < 2 ^ 31 := by
  rw [← Int.ceil_le, ← Int.le_floor, ← floor_lt_bound]
  have some := Int.ceil_pos.mpr positive
  rcases toInt_cases q with ⟨nonneg, eq⟩ | ⟨neg, eq⟩
  · grind
  · have ceil : ⌈q⌉ ≤ 0 := Int.ceil_le.mpr (by exact_mod_cast neg.le)
    have floor : ⌊q⌋ < 0 := Int.floor_lt.mpr (by exact_mod_cast neg)
    grind

theorem toInt_le {q : ℚ} (positive : 0 < toInt q) : (toInt q : ℚ) ≤ q := by
  have eq := toInt_eq_of_nonneg positive.le
  have floor : toInt q = ⌊q⌋ := by grind
  rw [floor]
  exact Int.floor_le q

end KeenTrader.Engine
