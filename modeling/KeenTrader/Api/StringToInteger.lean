import KeenTrader.Engine.Precision

/-!
# Integers from text

`StringToInteger` for an integer type `T`: a sign, and digits that are taken in one by one, each
with two comparisons that keep the result from leaving the type. The type is given by its limits.
-/

namespace KeenTrader.Api

open KeenTrader.Engine

/-- `std::numeric_limits` of an integer type. -/
structure IntegerType where
  bits : ℕ
  isSigned : Bool
  /-- So that a digit fits. -/
  wide : 8 ≤ bits

namespace IntegerType

def max (T : IntegerType) : ℤ := if T.isSigned then 2 ^ (T.bits - 1) - 1 else 2 ^ T.bits - 1

def min (T : IntegerType) : ℤ := if T.isSigned then -2 ^ (T.bits - 1) else 0

end IntegerType

def digitOf (c : Char) : ℤ := c.toNat - '0'.toNat

/-- The loop for a positive number. -/
def takePositive (T : IntegerType) (result : ℤ) : List Char → Option ℤ
  | [] => some result
  | c :: cs =>
    if c < '0' ∨ '9' < c then none
    else if T.max.tdiv 10 < result then none
    else if T.max - digitOf c < result * 10 then none
    else takePositive T (result * 10 + digitOf c) cs

/-- The loop for a negative number. -/
def takeNegative (T : IntegerType) (result : ℤ) : List Char → Option ℤ
  | [] => some result
  | c :: cs =>
    if c < '0' ∨ '9' < c then none
    else if result < T.min.tdiv 10 then none
    else if result * 10 < T.min + digitOf c then none
    else takeNegative T (result * 10 - digitOf c) cs

/-- None where the number is refused, and the variable for it is left as it is. -/
def stringToInteger (T : IntegerType) (str : AString) : Option ℤ :=
  match str.toList with
  | '+' :: cs => takePositive T 0 cs
  | '-' :: cs => if T.isSigned then takeNegative T 0 cs else none
  | cs => takePositive T 0 cs

/-! ## What is read -/

variable {T : IntegerType} {c : Char} {cs : List Char} {result v : ℤ}

theorem isDigit_iff : c.isDigit = true ↔ ¬(c < '0' ∨ '9' < c) := by
  simp only [Char.isDigit_iff_toNat, Char.lt_def, UInt32.lt_iff_toNat_lt, not_or, not_lt,
    Char.toNat]

theorem digitOf_bounds (digit : c.isDigit = true) : 0 ≤ digitOf c ∧ digitOf c ≤ 9 := by
  have bounds := Char.isDigit_iff_toNat.mp digit
  have zero : '0'.toNat = 48 := rfl
  have nine : '9'.toNat = 57 := rfl
  unfold digitOf
  omega

/-- The number that a result becomes by the digits behind it. -/
def extend (result : ℤ) (cs : List Char) : ℤ := cs.foldl (fun n c => n * 10 + digitOf c) result

theorem extend_ge (digits : Digits cs) (nonneg : 0 ≤ result) : result ≤ extend result cs := by
  induction cs generalizing result with
  | nil => exact le_refl _
  | cons c cs ih =>
    have bounds := digitOf_bounds (digits c (by simp))
    have more : 0 ≤ result * 10 + digitOf c := by omega
    have later := ih (fun c mem => digits c (by simp [mem])) more
    change result ≤ extend (result * 10 + digitOf c) cs
    omega

theorem extend_eq (digits : Digits cs) : extend 0 cs = natOfDigits cs := by
  have general (n : ℕ) : extend n cs = cs.foldl (fun n c => 10 * n + (c.toNat - 48)) n := by
    induction cs generalizing n with
    | nil => rfl
    | cons c cs ih =>
      have bounds := Char.isDigit_iff_toNat.mp (digits c (by simp))
      have next : (n : ℤ) * 10 + digitOf c = ((10 * n + (c.toNat - 48) : ℕ) : ℤ) := by
        have zero : '0'.toNat = 48 := rfl
        unfold digitOf
        omega
      change extend ((n : ℤ) * 10 + digitOf c) cs = _
      rw [next, ih (fun c mem => digits c (by simp [mem]))]
      rfl
  exact general 0

/-- Both comparisons refuse nothing that the number itself would not be refused for. -/
theorem takePositive_iff (nonneg : 0 ≤ result) (fits : result ≤ T.max) :
    takePositive T result cs = some v ↔
      Digits cs ∧ v = extend result cs ∧ extend result cs ≤ T.max := by
  induction cs generalizing result with
  | nil =>
    have all : Digits [] := by simp [Digits]
    simp [takePositive, extend, all, fits, eq_comm]
  | cons c cs ih =>
    unfold takePositive
    have tail (digits : Digits (c :: cs)) : c.isDigit = true ∧ Digits cs :=
      ⟨digits c (by simp), fun c mem => digits c (by simp [mem])⟩
    have unfolded : extend result (c :: cs) = extend (result * 10 + digitOf c) cs := rfl
    have quotient : T.max.tdiv 10 = T.max / 10 := Int.tdiv_eq_ediv_of_nonneg (by omega)
    have above (digits : Digits (c :: cs)) (beyond : T.max < result * 10 + digitOf c) :
        ¬extend result (c :: cs) ≤ T.max := by
      have bounds := digitOf_bounds (tail digits).1
      have ge := extend_ge (tail digits).2 (show 0 ≤ result * 10 + digitOf c by omega)
      rw [unfolded]
      omega
    split_ifs with odd large beyond
    · refine iff_of_false (by simp) fun read => ?_
      exact isDigit_iff.mp (tail read.1).1 odd
    · refine iff_of_false (by simp) fun read => above read.1 ?_ read.2.2
      have bounds := digitOf_bounds (isDigit_iff.mpr odd)
      rw [quotient] at large
      omega
    · refine iff_of_false (by simp) fun read => above read.1 ?_ read.2.2
      omega
    · have bounds := digitOf_bounds (isDigit_iff.mpr odd)
      rw [ih (by omega) (by omega), unfolded]
      have digits : Digits (c :: cs) ↔ Digits cs := by
        simp [Digits, isDigit_iff.mpr odd]
      rw [digits]

/-- The loop for a negative number is the one for its absolute value, up to another limit. -/
theorem takeNegative_iff (nonpos : result ≤ 0) (fits : T.min ≤ result) :
    takeNegative T result cs = some v ↔
      Digits cs ∧ v = -extend (-result) cs ∧ T.min ≤ -extend (-result) cs := by
  induction cs generalizing result with
  | nil =>
    have all : Digits [] := by simp [Digits]
    simp [takeNegative, extend, all, fits, eq_comm]
  | cons c cs ih =>
    unfold takeNegative
    have tail (digits : Digits (c :: cs)) : c.isDigit = true ∧ Digits cs :=
      ⟨digits c (by simp), fun c mem => digits c (by simp [mem])⟩
    have unfolded : extend (-result) (c :: cs) = extend (-(result * 10 - digitOf c)) cs := by
      change extend (-result * 10 + digitOf c) cs = _
      congr 1
      ring
    have quotient : T.min.tdiv 10 = -(-T.min / 10) := by
      rw [← Int.tdiv_eq_ediv_of_nonneg (by omega), Int.neg_tdiv, neg_neg]
    have below (digits : Digits (c :: cs)) (under : result * 10 - digitOf c < T.min) :
        ¬T.min ≤ -extend (-result) (c :: cs) := by
      have bounds := digitOf_bounds (tail digits).1
      have ge := extend_ge (tail digits).2 (show 0 ≤ -(result * 10 - digitOf c) by omega)
      rw [unfolded]
      omega
    split_ifs with odd small under
    · refine iff_of_false (by simp) fun read => ?_
      exact isDigit_iff.mp (tail read.1).1 odd
    · refine iff_of_false (by simp) fun read => below read.1 ?_ read.2.2
      have bounds := digitOf_bounds (isDigit_iff.mpr odd)
      rw [quotient] at small
      omega
    · refine iff_of_false (by simp) fun read => below read.1 ?_ read.2.2
      omega
    · have bounds := digitOf_bounds (isDigit_iff.mpr odd)
      rw [ih (by omega) (by omega), unfolded]
      have digits : Digits (c :: cs) ↔ Digits cs := by
        simp [Digits, isDigit_iff.mpr odd]
      rw [digits]

/-! ## Exactness -/

/-- The numbers that a text stands for: a sign, which only a signed type takes if it is negative,
and digits. There may be none. -/
inductive Reads (T : IntegerType) : List Char → ℤ → Prop
  | bare {digits : List Char} (all : Digits digits) : Reads T digits (natOfDigits digits)
  | plus {digits : List Char} (all : Digits digits) : Reads T ('+' :: digits) (natOfDigits digits)
  | minus {digits : List Char} (all : Digits digits) (signed : T.isSigned = true) :
    Reads T ('-' :: digits) (-natOfDigits digits)

theorem limits (T : IntegerType) : T.min ≤ 0 ∧ 0 ≤ T.max := by
  have positive (n : ℕ) : (0 : ℤ) < 2 ^ n := by positivity
  unfold IntegerType.min IntegerType.max
  have all := positive T.bits
  have fewer := positive (T.bits - 1)
  split_ifs <;> omega

theorem takePositive_eq_some : takePositive T 0 cs = some v ↔
    Digits cs ∧ v = natOfDigits cs ∧ T.min ≤ v ∧ v ≤ T.max := by
  rw [takePositive_iff (le_refl 0) (limits T).2]
  constructor
  · rintro ⟨digits, rfl, fits⟩
    have low := (limits T).1
    rw [extend_eq digits] at fits ⊢
    exact ⟨digits, rfl, by omega, fits⟩
  · rintro ⟨digits, rfl, -, fits⟩
    rw [extend_eq digits]
    exact ⟨digits, rfl, fits⟩

theorem takeNegative_eq_some : takeNegative T 0 cs = some v ↔
    Digits cs ∧ v = -natOfDigits cs ∧ T.min ≤ v ∧ v ≤ T.max := by
  rw [takeNegative_iff (le_refl 0) (limits T).1, neg_zero]
  constructor
  · rintro ⟨digits, rfl, fits⟩
    have high := (limits T).2
    rw [extend_eq digits] at fits ⊢
    exact ⟨digits, rfl, fits, by omega⟩
  · rintro ⟨digits, rfl, fits, -⟩
    rw [extend_eq digits]
    exact ⟨digits, rfl, fits⟩

theorem not_digits_sign {sign : Char} (none : sign.isDigit = false) : ¬Digits (sign :: cs) := by
  intro digits
  rw [digits sign (by simp)] at none
  contradiction

/-- For every integer type and every text: exactly the numbers that the text stands for and the type
holds are read, and no comparison on the way refuses another one. -/
theorem stringToInteger_iff (T : IntegerType) (str : AString) (v : ℤ) :
    stringToInteger T str = some v ↔ Reads T str.toList v ∧ T.min ≤ v ∧ v ≤ T.max := by
  unfold stringToInteger
  split
  · rename_i cs text
    rw [text, takePositive_eq_some]
    constructor
    · rintro ⟨digits, rfl, fits⟩
      exact ⟨.plus digits, fits⟩
    · rintro ⟨reads, fits⟩
      cases reads with
      | bare all => exact absurd all (not_digits_sign rfl)
      | plus all => exact ⟨all, rfl, fits⟩
  · rename_i cs text
    rw [text]
    split
    · rename_i signed
      rw [takeNegative_eq_some]
      constructor
      · rintro ⟨digits, rfl, fits⟩
        exact ⟨.minus digits signed, fits⟩
      · rintro ⟨reads, fits⟩
        cases reads with
        | bare all => exact absurd all (not_digits_sign rfl)
        | minus all signed => exact ⟨all, rfl, fits⟩
    · rename_i unsigned
      refine iff_of_false (by simp) fun read => ?_
      cases read.1 with
      | bare all => exact absurd all (not_digits_sign rfl)
      | minus all signed => exact unsigned signed
  · rename_i plus minus
    rw [takePositive_eq_some]
    constructor
    · rintro ⟨digits, rfl, fits⟩
      exact ⟨.bare digits, fits⟩
    · rintro ⟨reads, fits⟩
      generalize str.toList = text at *
      cases reads with
      | bare all => exact ⟨all, rfl, fits⟩
      | plus all => exact absurd rfl (plus _)
      | minus all signed => exact absurd rfl (minus _)

end KeenTrader.Api
