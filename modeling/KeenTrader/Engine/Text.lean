import KeenTrader.Engine.Constant

/-!
# Numbers as text

The C conversions between numbers and text that the exchanges use, over exact numbers: `atof`
and `atoll`, `%g`, and the padding function of `utils.cpp`.
-/

namespace KeenTrader.Engine

/-! ## Reading -/

def isSpace (c : Char) : Bool := c = ' ' || (9 ≤ c.toNat && c.toNat ≤ 13)

def natOfDigits (digits : List Char) : ℕ :=
  digits.foldl (fun n c => 10 * n + (c.toNat - 48)) 0

/-- A leading sign and what follows it. -/
def spanSign : List Char → ℤ × List Char
  | '-' :: cs => (-1, cs)
  | '+' :: cs => (1, cs)
  | cs => (1, cs)

/-- The exponent that a number ends in: zero unless a digit follows its letter. -/
def exponentOf : List Char → ℤ
  | [] => 0
  | c :: cs =>
    if c = 'e' || c = 'E' then
      let (sign, cs) := spanSign cs
      sign * natOfDigits (cs.takeWhile Char.isDigit)
    else 0

/-- The decimal number that a text starts with, and zero if it starts with none. Hexadecimal
numbers, infinities and `nan` are not decimal numbers. -/
def atof (s : AString) : ℚ :=
  let (sign, cs) := spanSign (s.toList.dropWhile isSpace)
  let (whole, cs) := cs.span Char.isDigit
  let (fraction, cs) :=
    match cs with
    | '.' :: cs => cs.span Char.isDigit
    | cs => ([], cs)
  if whole.isEmpty && fraction.isEmpty then 0
  else
    sign * (natOfDigits (whole ++ fraction) / 10 ^ fraction.length) * (10 : ℚ) ^ exponentOf cs

/-- The integer that a text starts with, and zero if it starts with none. -/
def atoll (s : AString) : ℤ :=
  let (sign, cs) := spanSign (s.toList.dropWhile isSpace)
  sign * natOfDigits (cs.takeWhile Char.isDigit)

/-! ## Printing -/

/-- The nearest natural number, and of two equally near ones the even one. -/
def roundHalfEven (q : ℚ) : ℕ :=
  let n := ⌊q⌋.toNat
  if q - n < 1 / 2 then n
  else if 1 / 2 < q - n then n + 1
  else if n % 2 = 0 then n
  else n + 1

/-- The significant digits of a positive number, as one natural number, and the power of ten of
the first. -/
def significant (precision : ℕ) (q : ℚ) : ℕ × ℤ :=
  let x := Int.log 10 q
  let n := roundHalfEven (q * (10 : ℚ) ^ (precision - 1 - x))
  if n = 10 ^ precision then (n / 10, x + 1) else (n, x)

/-- The digits after the point, without the zeros at their end. -/
def fractionText (digits : List Char) : AString :=
  let kept := (digits.reverse.dropWhile (· = '0')).reverse
  if kept.isEmpty then "" else "." ++ String.ofList kept

/-- `%.*g` with a positive precision. -/
def printG (precision : ℕ) (q : ℚ) : AString :=
  if q = 0 then "0"
  else
    let (n, x) := significant precision |q|
    let digits := (toString n).toList
    let text :=
      if -4 ≤ x ∧ x < precision then
        if 0 ≤ x then
          String.ofList (digits.take (x + 1).toNat) ++ fractionText (digits.drop (x + 1).toNat)
        else "0" ++ fractionText (List.replicate (-x - 1).toNat '0' ++ digits)
      else
        String.ofList (digits.take 1) ++ fractionText (digits.drop 1) ++
          (if x < 0 then "e-" else "e+") ++ (if x.natAbs < 10 then "0" else "") ++ toString x.natAbs
    if q < 0 then "-" ++ text else text

example : [0.1, 123456789, -0.00001, 20].map (printG 6) =
    ["0.1", "1.23457e+08", "-1e-05", "20"] := by
  decide +kernel

/-- `Rjust` of `utils.cpp`: fill up on the left. -/
def rjust (str : AString) (width : ℕ) (fillchar : Char) : AString :=
  String.ofList (List.replicate (width - str.length) fillchar) ++ str

end KeenTrader.Engine
