import Mathlib

/-!
# Rounded arithmetic

A format is a set of numbers together with a rounding to them that keeps the order. The operations
of the format round the exact result. Rounding to the nearest number of a binary format is of this
kind as long as nothing overflows, and so is rounding towards zero; what is proved here about order
and sign holds in all of them.
-/

namespace Floats

/-- A rounding that keeps the order, and the numbers that it leaves as they are. -/
structure Format where
  round : ℚ → ℚ
  monotone : Monotone round
  round_round : ∀ x, round (round x) = round x
  round_zero : round 0 = 0

namespace Format

variable (F : Format)

def add (x y : ℚ) : ℚ := F.round (x + y)

def sub (x y : ℚ) : ℚ := F.round (x - y)

def mul (x y : ℚ) : ℚ := F.round (x * y)

def div (x y : ℚ) : ℚ := F.round (x / y)

/-- A number of the format. -/
def Holds (x : ℚ) : Prop := F.round x = x

variable {F} {x y z : ℚ}

theorem holds_add : F.Holds (F.add x y) := F.round_round _

theorem holds_sub : F.Holds (F.sub x y) := F.round_round _

theorem Holds.max (hx : F.Holds x) (hy : F.Holds y) : F.Holds (max x y) := by
  rcases max_choice x y with eq | eq <;> rw [eq] <;> assumption

theorem Holds.min (hx : F.Holds x) (hy : F.Holds y) : F.Holds (min x y) := by
  rcases min_choice x y with eq | eq <;> rw [eq] <;> assumption

theorem round_nonneg (nonneg : 0 ≤ x) : 0 ≤ F.round x := by
  have below := F.monotone nonneg
  rwa [F.round_zero] at below

theorem sub_nonneg (le : y ≤ x) : 0 ≤ F.sub x y := round_nonneg (by linarith)

theorem mul_nonneg (hx : 0 ≤ x) (hy : 0 ≤ y) : 0 ≤ F.mul x y :=
  round_nonneg (by positivity)

/-- Rounding does not lead across a number of the format. -/
theorem sub_le (holds : F.Holds x) (nonneg : 0 ≤ y) : F.sub x y ≤ x := by
  have below := F.monotone (show x - y ≤ x by linarith)
  rwa [holds] at below

theorem le_add (holds : F.Holds x) (nonneg : 0 ≤ y) : x ≤ F.add x y := by
  have above := F.monotone (show x ≤ x + y by linarith)
  rwa [holds] at above

theorem sub_le_sub_left (le : x ≤ y) : F.sub z y ≤ F.sub z x :=
  F.monotone (by linarith)

theorem mul_le_mul_left (nonneg : 0 ≤ z) (le : x ≤ y) : F.mul z x ≤ F.mul z y :=
  F.monotone (mul_le_mul_of_nonneg_left le nonneg)

end Format

/-- Exact arithmetic. -/
def exact : Format where
  round := id
  monotone := monotone_id
  round_round _ := rfl
  round_zero := rfl

end Floats
