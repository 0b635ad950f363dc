import KeenTrader.Engine.Text

/-!
# What is left of a number that is printed

A number that `%g` has printed with some precision is read back as that many of its significant
digits. It comes back unchanged exactly if it has no more of them.
-/

namespace KeenTrader.Engine

/-! ## Digits -/

theorem natOfDigits_eq (cs : List Char) : natOfDigits cs = Nat.ofDigitChars 10 cs 0 := rfl

theorem natOfDigits_toDigits (n : ℕ) : natOfDigits (Nat.toDigits 10 n) = n := by
  rw [natOfDigits_eq, Nat.ofDigitChars_ten_toDigits]

/-- Zeros in front do not count. -/
theorem natOfDigits_zeros_append (k : ℕ) (cs : List Char) :
    natOfDigits (List.replicate k '0' ++ cs) = natOfDigits cs := by
  rw [natOfDigits_eq, Nat.ofDigitChars_append, Nat.ofDigitChars_replicate_zero, mul_zero,
    natOfDigits_eq]

/-- Zeros at the end multiply. -/
theorem natOfDigits_append_zeros (k : ℕ) (cs : List Char) :
    natOfDigits (cs ++ List.replicate k '0') = 10 ^ k * natOfDigits cs := by
  rw [natOfDigits_eq, Nat.ofDigitChars_append, Nat.ofDigitChars_replicate_zero, natOfDigits_eq]

def Digits (cs : List Char) : Prop := ∀ c ∈ cs, c.isDigit = true

theorem digits_toDigits (n : ℕ) : Digits (Nat.toDigits 10 n) := fun _ mem =>
  Nat.isDigit_of_mem_toDigits (by decide) (by decide) mem

theorem digits_zeros (k : ℕ) : Digits (List.replicate k '0') := by
  intro c mem
  rw [List.eq_of_mem_replicate mem]
  rfl

theorem Digits.append {cs ds : List Char} (first : Digits cs) (second : Digits ds) :
    Digits (cs ++ ds) := by
  intro c mem
  rcases List.mem_append.mp mem with mem | mem
  · exact first c mem
  · exact second c mem

theorem Digits.takeWhile {cs : List Char} (digits : Digits cs) : cs.takeWhile Char.isDigit = cs :=
  List.takeWhile_eq_self_iff.mpr digits

/-- The digits that a text starts with are read up to the first other character. -/
theorem span_digits {cs : List Char} (digits : Digits cs) (rest : List Char)
    (stop : ∀ c ∈ rest.head?, c.isDigit = false) : (cs ++ rest).span Char.isDigit = (cs, rest) := by
  rw [List.span_eq_takeWhile_dropWhile, List.takeWhile_append_of_pos digits,
    List.dropWhile_append_of_pos digits]
  cases rest with
  | nil => simp
  | cons c rest => simp [stop c (by simp)]

/-- The digits after the point, whose zeros at the end are not printed. -/
theorem fractionText_spec (digits : List Char) :
    ∃ kept k, digits = kept ++ List.replicate k '0' ∧
      (fractionText digits).toList = if kept = [] then [] else '.' :: kept := by
  refine ⟨(digits.reverse.dropWhile (· = '0')).reverse,
    (digits.reverse.takeWhile (· = '0')).length, ?_, ?_⟩
  · have zeros : digits.reverse.takeWhile (· = '0') =
        List.replicate (digits.reverse.takeWhile (· = '0')).length '0' :=
      List.eq_replicate_iff.mpr ⟨rfl, fun c mem => by simpa using List.mem_takeWhile_imp mem⟩
    have split := List.takeWhile_append_dropWhile (p := (· = '0')) (l := digits.reverse)
    have := congrArg List.reverse split
    rw [List.reverse_reverse, List.reverse_append, zeros, List.reverse_replicate] at this
    exact this.symm
  · unfold fractionText
    generalize (digits.reverse.dropWhile (· = '0')).reverse = kept
    cases kept <;> simp

/-! ## Reading what has been printed -/

theorem isSpace_of_isDigit {c : Char} (digit : c.isDigit = true) : isSpace c = false := by
  have bounds : 48 ≤ c.toNat ∧ c.toNat ≤ 57 := Char.isDigit_iff_toNat.mp digit
  have blank : c ≠ ' ' := by
    rintro rfl
    exact absurd digit (by decide)
  simp [isSpace, blank]
  omega

theorem spanSign_of_isDigit {c : Char} (digit : c.isDigit = true) (cs : List Char) :
    spanSign (c :: cs) = (1, c :: cs) := by
  unfold spanSign
  split
  · rename_i eq
    rw [(List.cons.inj eq).1] at digit
    exact absurd digit (by decide)
  · rename_i eq
    rw [(List.cons.inj eq).1] at digit
    exact absurd digit (by decide)
  · rfl

theorem atoll_of_digits {digits : List Char} (nonempty : digits ≠ []) (all : Digits digits) :
    atoll (String.ofList digits) = natOfDigits digits ∧
      atoll (String.ofList ('-' :: digits)) = -natOfDigits digits := by
  obtain ⟨first, rest, rfl⟩ := List.exists_cons_of_ne_nil nonempty
  have digit : first.isDigit = true := all first (by simp)
  constructor
  · simp [atoll, isSpace_of_isDigit digit, spanSign_of_isDigit digit, all.takeWhile]
  · simp [atoll, isSpace, spanSign, all.takeWhile]

/-- A whole number is read back as it has been printed. -/
theorem atoll_toString (n : ℤ) : atoll (toString n) = n := by
  have read (m : ℕ) := atoll_of_digits (Nat.toDigits_ne_nil (n := m) (b := 10)) (digits_toDigits m)
  rw [Int.toString_eq_repr, Int.repr_eq_if]
  split
  · have digits : n.toNat.repr = String.ofList (Nat.toDigits 10 n.toNat) := rfl
    rw [digits, (read _).1, natOfDigits_toDigits]
    omega
  · have digits : "-" ++ (-n).toNat.repr = String.ofList ('-' :: Nat.toDigits 10 (-n).toNat) := by
      apply String.toList_inj.mp
      simp [Nat.repr]
    rw [digits, (read _).2, natOfDigits_toDigits]
    omega

/-- A natural number can be read through the zeros in front of it, however many there are. -/
theorem rjust_toString_injective (width : ℕ) :
    Function.Injective fun n : ℕ => rjust (toString n) width '0' := by
  have read (n : ℕ) : natOfDigits (rjust (toString n) width '0').toList = n := by
    rw [rjust, String.toList_append, String.toList_ofList, natOfDigits_zeros_append,
      Nat.toString_eq_repr, Nat.toList_repr, natOfDigits_toDigits]
  intro m n (same : rjust (toString m) width '0' = rjust (toString n) width '0')
  calc
    m = natOfDigits (rjust (toString m) width '0').toList := (read m).symm
    _ = natOfDigits (rjust (toString n) width '0').toList := by rw [same]
    _ = n := read n

/-- A number is read from its sign, the digits before and after the point, and its exponent. -/
theorem atof_of_text {s : AString} (negative : Bool) {whole digits tail : List Char}
    (text : s.toList = (if negative then ['-'] else []) ++ whole ++ (fractionText digits).toList ++
      tail)
    (nonempty : whole ≠ []) (whole_digits : Digits whole) (fraction_digits : Digits digits)
    (stop : ∀ c ∈ tail.head?, c.isDigit = false ∧ c ≠ '.') :
    atof s = (if negative then -1 else 1) *
      (natOfDigits (whole ++ digits) / 10 ^ digits.length) * 10 ^ exponentOf tail := by
  obtain ⟨kept, k, rfl, fraction⟩ := fractionText_spec digits
  rw [fraction] at text
  obtain ⟨first, whole, rfl⟩ := List.exists_cons_of_ne_nil nonempty
  have digit : first.isDigit = true := whole_digits first (by simp)
  have signed : spanSign (s.toList.dropWhile isSpace) = (if negative then -1 else 1,
      first :: whole ++ ((if kept = [] then [] else '.' :: kept) ++ tail)) := by
    rw [text]
    cases negative with
    | true => simp [isSpace, spanSign]
    | false => simp [isSpace_of_isDigit digit, spanSign_of_isDigit digit]
  have kept_digits : Digits kept := fun c mem => fraction_digits c (by simp [mem])
  have read : atof s = (if negative then -1 else 1) *
      (natOfDigits (first :: whole ++ kept) / 10 ^ kept.length) * 10 ^ exponentOf tail := by
    unfold atof
    rw [signed]
    by_cases none : kept = []
    · have span := span_digits whole_digits _ fun c mem => (stop c mem).1
      simp only [none, ↓reduceIte, List.nil_append, span]
      split
      · exact absurd rfl (stop '.' (by simp)).2
      · cases negative <;> simp
    · have span := span_digits whole_digits ('.' :: (kept ++ tail)) (by simp)
      have span_fraction := span_digits kept_digits _ fun c mem => (stop c mem).1
      simp only [none, ↓reduceIte, List.cons_append] at span ⊢
      simp only [span, span_fraction]
      cases negative <;> simp
  have zeros : natOfDigits (first :: whole ++ (kept ++ List.replicate k '0')) =
      10 ^ k * natOfDigits (first :: whole ++ kept) := by
    rw [← List.append_assoc, natOfDigits_append_zeros]
  rw [read, zeros, List.length_append, List.length_replicate, pow_add]
  congr 2
  push_cast
  field_simp

/-! ## Significant digits -/

@[simp] theorem roundHalfEven_natCast (n : ℕ) : roundHalfEven n = n := by
  simp [roundHalfEven]

/-- Rounding stays between natural numbers. -/
theorem roundHalfEven_mem {q : ℚ} {low high : ℕ} (above : (low : ℚ) ≤ q) (below : q < high) :
    low ≤ roundHalfEven q ∧ roundHalfEven q ≤ high := by
  have floor_low : (low : ℤ) ≤ ⌊q⌋ := Int.le_floor.mpr (by exact_mod_cast above)
  have floor_high : ⌊q⌋ < (high : ℤ) := Int.floor_lt.mpr (by exact_mod_cast below)
  unfold roundHalfEven
  dsimp only
  split_ifs <;> omega

/-- The number before it is rounded to its significant digits. -/
theorem scaled_mem {p : ℕ} (positive : 0 < p) {q : ℚ} (pos : 0 < q) :
    ((10 ^ (p - 1) : ℕ) : ℚ) ≤ q * (10 : ℚ) ^ ((p : ℤ) - 1 - Int.log 10 q) ∧
      q * (10 : ℚ) ^ ((p : ℤ) - 1 - Int.log 10 q) < (10 ^ p : ℕ) := by
  have low : (10 : ℚ) ^ Int.log 10 q ≤ q := by exact_mod_cast Int.zpow_log_le_self (by norm_num) pos
  have high : q < (10 : ℚ) ^ (Int.log 10 q + 1) := by
    exact_mod_cast Int.lt_zpow_succ_log_self (by norm_num) q
  have scale : (0 : ℚ) < (10 : ℚ) ^ ((p : ℤ) - 1 - Int.log 10 q) := by positivity
  constructor
  · calc ((10 ^ (p - 1) : ℕ) : ℚ)
        = (10 : ℚ) ^ Int.log 10 q * (10 : ℚ) ^ ((p : ℤ) - 1 - Int.log 10 q) := by
          rw [← zpow_add₀ (by norm_num), Nat.cast_pow, ← zpow_natCast]
          congr 1
          push_cast [Nat.cast_sub positive]
          ring
      _ ≤ _ := by gcongr
  · calc q * (10 : ℚ) ^ ((p : ℤ) - 1 - Int.log 10 q)
        < (10 : ℚ) ^ (Int.log 10 q + 1) * (10 : ℚ) ^ ((p : ℤ) - 1 - Int.log 10 q) := by gcongr
      _ = (10 ^ p : ℕ) := by
          rw [← zpow_add₀ (by norm_num), Nat.cast_pow, ← zpow_natCast]
          congr 1
          ring

/-- A positive number has as many significant digits as are asked for. -/
theorem length_significant {p : ℕ} (positive : 0 < p) {q : ℚ} (pos : 0 < q) :
    (Nat.toDigits 10 (significant p q).1).length = p := by
  obtain ⟨low, high⟩ := scaled_mem positive pos
  obtain ⟨above, below⟩ := roundHalfEven_mem low high
  have bounds : 10 ^ (p - 1) ≤ (significant p q).1 ∧ (significant p q).1 < 10 ^ p := by
    have power : 10 ^ p = 10 * 10 ^ (p - 1) := by rw [← pow_succ', Nat.sub_add_cancel positive]
    have unit : 0 < 10 ^ (p - 1) := by positivity
    unfold significant
    dsimp only
    split <;> dsimp only <;> omega
  have upper := (Nat.length_toDigits_le_iff (by decide) positive).mpr bounds.2
  rcases Nat.lt_or_ge 1 p with many | one
  · have lower := (Nat.length_toDigits_le_iff (b := 10) (n := (significant p q).1) (k := p - 1)
      (by decide) (by omega)).not.mpr (by omega)
    omega
  · have := Nat.length_toDigits_pos (b := 10) (n := (significant p q).1)
    omega

theorem exponentOf_scientific (x : ℤ) (pad : ℕ) :
    exponentOf ('e' :: (if x < 0 then '-' else '+') ::
      (List.replicate pad '0' ++ Nat.toDigits 10 x.natAbs)) = x := by
  have digits := ((digits_zeros pad).append (digits_toDigits x.natAbs)).takeWhile
  unfold exponentOf
  by_cases negative : x < 0
  · simp only [negative, ↓reduceIte, spanSign, digits, natOfDigits_zeros_append,
      natOfDigits_toDigits]
    simp [abs_of_neg negative]
  · simp only [negative, ↓reduceIte, spanSign, digits, natOfDigits_zeros_append,
      natOfDigits_toDigits]
    simp [abs_of_nonneg (not_lt.mp negative)]

/-- The value of the significant digits. -/
def rounded (p : ℕ) (q : ℚ) : ℚ := (significant p q).1 * (10 : ℚ) ^ ((significant p q).2 + 1 - p)

/-- What is printed is read back as its significant digits. -/
theorem atof_printG {p : ℕ} (positive : 0 < p) {q : ℚ} (ne : q ≠ 0) :
    atof (printG p q) = (if q < 0 then -1 else 1) * rounded p |q| := by
  have length := length_significant positive (abs_pos.mpr ne)
  unfold rounded printG
  rw [if_neg ne]
  generalize significant p |q| = shown at length ⊢
  obtain ⟨n, x⟩ := shown
  dsimp only at length ⊢
  have all := digits_toDigits n
  -- what is read from a text without its sign
  have read (text : AString) (whole digits tail : List Char)
      (shape : text.toList = whole ++ (fractionText digits).toList ++ tail) (nonempty : whole ≠ [])
      (whole_digits : Digits whole) (fraction_digits : Digits digits)
      (stop : ∀ c ∈ tail.head?, c.isDigit = false ∧ c ≠ '.') :
      atof (if q < 0 then "-" ++ text else text) = (if q < 0 then -1 else 1) *
        (natOfDigits (whole ++ digits) / 10 ^ digits.length) * 10 ^ exponentOf tail := by
    have := atof_of_text (s := if q < 0 then "-" ++ text else text) (decide (q < 0)) ?_ nonempty
      whole_digits fraction_digits stop
    · simpa using this
    · split <;> simp_all
  have shift (k : ℕ) (e : ℤ) (eq : e = -k) : (n : ℚ) / 10 ^ k = n * (10 : ℚ) ^ e := by
    rw [eq, zpow_neg, zpow_natCast, div_eq_mul_inv]
  have first_ne : ∀ k, 0 < k → (Nat.toDigits 10 n).take k ≠ [] := by
    intro k pos none
    rcases List.take_eq_nil_iff.mp none with zero | empty
    · omega
    · exact Nat.toDigits_ne_nil empty
  by_cases fixed : -4 ≤ x ∧ x < p
  · rw [if_pos fixed]
    by_cases large : 0 ≤ x
    · rw [if_pos large]
      refine (read _ ((Nat.toDigits 10 n).take (x + 1).toNat)
        ((Nat.toDigits 10 n).drop (x + 1).toNat) [] (by simp) (first_ne _ (by omega))
        (fun c mem => all c (List.mem_of_mem_take mem))
        (fun c mem => all c (List.mem_of_mem_drop mem)) (by simp)).trans ?_
      rw [List.take_append_drop, natOfDigits_toDigits, List.length_drop, length, exponentOf,
        zpow_zero, mul_one, shift _ (x + 1 - p) (by omega)]
    · rw [if_neg large]
      refine (read _ ['0'] (List.replicate (-x - 1).toNat '0' ++ Nat.toDigits 10 n) []
        (by simp) (by simp) (digits_zeros 1) ((digits_zeros _).append all) (by simp)).trans ?_
      rw [show ['0'] = List.replicate 1 '0' from rfl, natOfDigits_zeros_append,
        natOfDigits_zeros_append, natOfDigits_toDigits, List.length_append, List.length_replicate,
        length, exponentOf, zpow_zero, mul_one, shift _ (x + 1 - p) (by omega)]
  · rw [if_neg fixed]
    refine (read _ ((Nat.toDigits 10 n).take 1) ((Nat.toDigits 10 n).drop 1)
      ('e' :: (if x < 0 then '-' else '+') ::
        (List.replicate (if x.natAbs < 10 then 1 else 0) '0' ++ Nat.toDigits 10 x.natAbs))
      ?_ (first_ne 1 one_pos) (fun c mem => all c (List.mem_of_mem_take mem))
      (fun c mem => all c (List.mem_of_mem_drop mem)) (by simp)).trans ?_
    · split_ifs <;> simp
    · rw [List.take_append_drop, natOfDigits_toDigits, List.length_drop, length,
        exponentOf_scientific, shift (p - 1) (1 - p) (by omega), mul_assoc, mul_assoc,
        ← zpow_add₀ (by norm_num)]
      congr 3
      ring

/-! ## Numbers with few digits -/

/-- The number has at most `p` significant digits. -/
def FewDigits (p : ℕ) (q : ℚ) : Prop := ∃ m : ℕ, m < 10 ^ p ∧ ∃ e : ℤ, |q| = m * (10 : ℚ) ^ e

theorem fewDigits_zero (p : ℕ) : FewDigits p 0 := ⟨0, by positivity, 0, by simp⟩

theorem rounded_eq_iff {p : ℕ} (positive : 0 < p) {q : ℚ} (pos : 0 < q) :
    rounded p q = q ↔ FewDigits p q := by
  constructor
  · intro same
    have short := length_significant positive pos
    exact ⟨_, (Nat.length_toDigits_le_iff (by decide) positive).mp short.le, _,
      by rw [abs_of_pos pos]; exact same.symm⟩
  · rintro ⟨m, few, e, eq⟩
    rw [abs_of_pos pos] at eq
    have low : (10 : ℚ) ^ Int.log 10 q ≤ q := by
      exact_mod_cast Int.zpow_log_le_self (by norm_num) pos
    have shifts : 0 ≤ e + p - 1 - Int.log 10 q := by
      have power : (10 : ℚ) ^ Int.log 10 q < (10 : ℚ) ^ (p + e) := by
        calc (10 : ℚ) ^ Int.log 10 q ≤ m * (10 : ℚ) ^ e := eq ▸ low
          _ < (10 : ℚ) ^ p * (10 : ℚ) ^ e := by
              gcongr
              exact_mod_cast few
          _ = (10 : ℚ) ^ (p + e) := by rw [zpow_add₀ (by norm_num), zpow_natCast]
      have := (zpow_lt_zpow_iff_right₀ (by norm_num : (1 : ℚ) < 10)).mp power
      omega
    obtain ⟨k, k_eq⟩ := Int.eq_ofNat_of_zero_le shifts
    have scaled : q * (10 : ℚ) ^ ((p : ℤ) - 1 - Int.log 10 q) = (m * 10 ^ k : ℕ) := by
      rw [Nat.cast_mul, Nat.cast_pow, ← zpow_natCast]
      nth_rewrite 1 [eq]
      rw [mul_assoc, ← zpow_add₀ (by norm_num), ← k_eq]
      push_cast
      congr 2
      ring
    have below := (scaled_mem positive pos).2
    rw [scaled] at below
    have small : m * 10 ^ k ≠ 10 ^ p := (Nat.cast_lt.mp below).ne
    unfold rounded significant
    dsimp only
    rw [scaled, roundHalfEven_natCast, if_neg small]
    dsimp only
    rw [← scaled, mul_assoc, ← zpow_add₀ (by norm_num)]
    ring_nf
    simp

/-- A number comes back from its text exactly if it has few digits. -/
theorem atof_printG_eq_iff {p : ℕ} (positive : 0 < p) (q : ℚ) :
    atof (printG p q) = q ↔ FewDigits p q := by
  have few_abs : FewDigits p q ↔ FewDigits p |q| := by simp [FewDigits]
  by_cases zero : q = 0
  · subst zero
    have read : atof "0" = 0 := by decide +kernel
    exact iff_of_true (by rw [printG, if_pos rfl, read]) (fewDigits_zero p)
  rw [atof_printG positive zero, few_abs, ← rounded_eq_iff positive (abs_pos.mpr zero)]
  rcases lt_or_gt_of_ne zero with negative | pos
  · rw [if_pos negative, abs_of_neg negative]
    constructor <;> intro same <;> linarith
  · rw [if_neg pos.le.not_gt, abs_of_pos pos, one_mul]

/-- The sign is kept. -/
theorem atof_printG_nonpos {p : ℕ} (positive : 0 < p) {q : ℚ} (negative : q < 0) :
    atof (printG p q) ≤ 0 := by
  rw [atof_printG positive negative.ne, if_pos negative]
  have : 0 ≤ rounded p |q| := by
    unfold rounded
    positivity
  linarith

end KeenTrader.Engine
