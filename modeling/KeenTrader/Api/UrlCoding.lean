import KeenTrader.Library.Bytes

/-!
# URL coding

`URLEncode` and `URLDecode` of `StringUtils.cpp`. The encoder keeps letters and digits, writes a
blank as `+`, and everything else as `%` with two digits. The decoder reads these three forms, and
`%u0` with four digits besides.
-/

namespace KeenTrader.Api

open Bytes

/-- `isalnum`, of ASCII. -/
def isAlnum (c : UInt8) : Bool :=
  ('0'.toUInt8 ≤ c && c ≤ '9'.toUInt8) || ('A'.toUInt8 ≤ c && c ≤ 'Z'.toUInt8) ||
    ('a'.toUInt8 ≤ c && c ≤ 'z'.toUInt8)

/-- `HEX`. -/
def hexTable : List UInt8 := "0123456789abcdef".toList.map Char.toUInt8

def hexDigit (n : ℕ) : UInt8 := hexTable.getD n 0

/-- One round of the loop of `URLEncode`. -/
def encodeByte (c : UInt8) : List UInt8 :=
  if isAlnum c then [c]
  else if c = ' '.toUInt8 then ['+'.toUInt8]
  else ['%'.toUInt8, hexDigit (c.toNat >>> 4), hexDigit (c.toNat &&& 0x0f)]

def urlEncode (text : List UInt8) : List UInt8 := text.flatMap encodeByte

/-- The value of a digit, and `0xff` of what is none. -/
def hexToDec (hexChar : UInt8) : ℕ :=
  if '0'.toUInt8 ≤ hexChar ∧ hexChar ≤ '9'.toUInt8 then hexChar.toNat - '0'.toNat
  else if 'a'.toUInt8 ≤ hexChar ∧ hexChar ≤ 'f'.toUInt8 then hexChar.toNat - 'a'.toNat + 10
  else if 'A'.toUInt8 ≤ hexChar ∧ hexChar ≤ 'F'.toUInt8 then hexChar.toNat - 'A'.toNat + 10
  else 0xff

def unicodeCharToUtf8 (c : UInt32) : List UInt8 :=
  let n := c.toNat
  if c < 0x80 then [.ofNat n]
  else if c < 0x800 then [.ofNat (192 + n / 64), .ofNat (128 + n % 64)]
  else if c - 0xd800 < 0x800 then []
  else if c < 0x10000 then
    [.ofNat (224 + n / 4096), .ofNat (128 + n / 64 % 64), .ofNat (128 + n % 64)]
  else if c < 0x110000 then
    [.ofNat (240 + n / 262144), .ofNat (128 + n / 4096 % 64), .ofNat (128 + n / 64 % 64),
     .ofNat (128 + n % 64)]
  else []

/-- The form `%u0xxxx` behind its `%`. -/
def unicodeAt : List UInt8 → Option (List UInt8 × ℕ)
  | _ :: z :: h₁ :: h₂ :: h₃ :: h₄ :: _ =>
    let v₁ := hexToDec h₁
    let v₂ := hexToDec h₂
    let v₃ := hexToDec h₃
    let v₄ := hexToDec h₄
    if z ≠ '0'.toUInt8 then none
    else if v₁ = 0xff ∨ v₂ = 0xff ∨ v₄ = 0xff ∨ v₃ = 0xff then none
    else some (unicodeCharToUtf8 (.ofNat (v₁ <<< 12 ||| v₂ <<< 8 ||| v₃ <<< 4 ||| v₄)), 6)
  | _ => none

/-- The form `%xx` behind its `%`. -/
def hexAt : List UInt8 → Option (List UInt8 × ℕ)
  | h₁ :: h₂ :: _ =>
    let v₁ := hexToDec h₁
    let v₂ := hexToDec h₂
    if v₁ = 0xff ∨ v₂ = 0xff then none else some ([.ofNat (v₁ <<< 4 ||| v₂)], 2)
  | _ => none

/-- What is decoded at one position of the text, and how many of the next ones belong to it. -/
def decodeAt (c : UInt8) (cs : List UInt8) : Option (List UInt8 × ℕ) :=
  if c = '+'.toUInt8 then some ([' '.toUInt8], 0)
  else if c ≠ '%'.toUInt8 then some ([c], 0)
  else
    match cs with
    | [] => none
    | u :: _ => if u = 'u'.toUInt8 ∨ u = 'U'.toUInt8 then unicodeAt cs else hexAt cs

/-- The loop of `URLDecode`, with what has been decoded so far. The first positions may have been
decoded already. -/
def urlDecodeFrom : ℕ → List UInt8 → List UInt8 → Bool × List UInt8
  | _, [], res => (true, res)
  | n + 1, _ :: cs, res => urlDecodeFrom n cs res
  | 0, c :: cs, res =>
    match decodeAt c cs with
    | none => (false, [])
    | some (bytes, n) => urlDecodeFrom n cs (res ++ bytes)

/-- Whether the text could be decoded, and what it has been decoded to. -/
def urlDecode (text : List UInt8) : Bool × List UInt8 := urlDecodeFrom 0 text []

/-! ## Bytes one by one -/

variable {c : UInt8} {cs res : List UInt8}

/-- Letters and digits stand for themselves. -/
theorem decodeAt_alnum (alnum : isAlnum c) (cs : List UInt8) : decodeAt c cs = some ([c], 0) := by
  have plus : c ≠ '+'.toUInt8 := by
    rintro rfl
    exact absurd alnum (by decide)
  have percent : c ≠ '%'.toUInt8 := by
    rintro rfl
    exact absurd alnum (by decide)
  unfold decodeAt
  rw [if_neg plus, if_pos percent]

/-- What is written for a digit is read as it, and not as the beginning of another form. -/
theorem hexDigit_spec {n : ℕ} (small : n < 16) :
    hexToDec (hexDigit n) = n ∧ hexDigit n ≠ 'u'.toUInt8 ∧ hexDigit n ≠ 'U'.toUInt8 ∧
      isAlnum (hexDigit n) = true := by
  have all : ∀ n < 16, hexToDec (hexDigit n) = n ∧ hexDigit n ≠ 'u'.toUInt8 ∧
      hexDigit n ≠ 'U'.toUInt8 ∧ isAlnum (hexDigit n) = true := by decide
  exact all n small

/-- A byte by its two digits. -/
theorem byte_of_digits (c : UInt8) :
    UInt8.ofNat ((c.toNat >>> 4) <<< 4 ||| (c.toNat &&& 0x0f)) = c := by
  refine eq_of_testBit fun i low => ?_
  have mask : 0x0f = 2 ^ 4 - 1 := rfl
  simp only [testBit_ofNat, Nat.testBit_or, Nat.testBit_shiftLeft, Nat.testBit_shiftRight,
    Nat.testBit_and, mask, Nat.testBit_two_pow_sub_one]
  interval_cases i <;> simp

theorem high_digit_lt (c : UInt8) : c.toNat >>> 4 < 16 := by
  rw [Nat.shiftRight_eq_div_pow]
  have := c.toNat_lt
  omega

theorem low_digit_lt (c : UInt8) : c.toNat &&& 0x0f < 16 :=
  Nat.and_lt_two_pow _ (by decide : 0x0f < 2 ^ 4)

theorem decodeAt_percent (c : UInt8) (cs : List UInt8) :
    decodeAt '%'.toUInt8 (hexDigit (c.toNat >>> 4) :: hexDigit (c.toNat &&& 0x0f) :: cs) =
      some ([c], 2) := by
  have high := high_digit_lt c
  have low := low_digit_lt c
  obtain ⟨value, lower, upper, -⟩ := hexDigit_spec high
  obtain ⟨value', -⟩ := hexDigit_spec low
  rw [decodeAt, if_neg (by decide), if_neg (by decide)]
  rw [if_neg (by simp [lower, upper]), hexAt, value, value', if_neg (by omega), byte_of_digits]

/-- What one byte is encoded to is decoded to that byte, whatever follows. -/
theorem urlDecodeFrom_encodeByte (c : UInt8) (cs res : List UInt8) :
    urlDecodeFrom 0 (encodeByte c ++ cs) res = urlDecodeFrom 0 cs (res ++ [c]) := by
  unfold encodeByte
  split
  · rename_i alnum
    simp [urlDecodeFrom, decodeAt_alnum alnum]
  split
  · rename_i blank
    simp [urlDecodeFrom, decodeAt, blank]
  · simp [urlDecodeFrom, decodeAt_percent]

theorem urlDecodeFrom_urlEncode (text res : List UInt8) :
    urlDecodeFrom 0 (urlEncode text) res = (true, res ++ text) := by
  induction text generalizing res with
  | nil => simp [urlEncode, urlDecodeFrom]
  | cons c text ih =>
    have next := ih (res ++ [c])
    rw [urlEncode] at next ⊢
    rw [List.flatMap_cons, urlDecodeFrom_encodeByte, next]
    simp

theorem plain_encodeByte (c : UInt8) :
    ∀ d ∈ encodeByte c, isAlnum d ∨ d = '+'.toUInt8 ∨ d = '%'.toUInt8 := by
  have high := (hexDigit_spec (high_digit_lt c)).2.2.2
  have low := (hexDigit_spec (low_digit_lt c)).2.2.2
  unfold encodeByte
  split
  · rename_i alnum
    simp [alnum]
  split
  · simp
  · simp [high, low]

/-- Every byte string comes back, and its encoding has no other signs than `+` and `%`. -/
theorem url_round_trip (x : List UInt8) :
    urlDecode (urlEncode x) = (true, x) ∧
      ∀ c ∈ urlEncode x, isAlnum c ∨ c = '+'.toUInt8 ∨ c = '%'.toUInt8 := by
  refine ⟨urlDecodeFrom_urlEncode x [], fun c mem => ?_⟩
  obtain ⟨d, -, encoded⟩ := List.mem_flatMap.mp mem
  exact plain_encodeByte d c encoded

end KeenTrader.Api
