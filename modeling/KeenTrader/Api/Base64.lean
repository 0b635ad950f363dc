import KeenTrader.Library.Bytes

/-!
# Base64

`Base64Encode` and `Base64Decode` of `StringUtils.cpp`, with the buffers that they reserve. The
encoder takes three bytes at a time, and the decoder puts six bits at a time to where the last ones
ended. Both stay inside their buffers, and what has been encoded is decoded.
-/

namespace KeenTrader.Api

open Bytes

/-- `BASE64`. -/
def base64Table : List UInt8 :=
  "ABCDEFGHIJKLMNOPQRSTUVWXYZabcdefghijklmnopqrstuvwxyz0123456789+/".toList.map Char.toUInt8

def equalsSign : UInt8 := '='.toUInt8

/-! ## Encoding -/

/-- The output of the encoder, and the position of the next write. -/
structure Output where
  buffer : List UInt8
  index : ℕ

def Output.put (out : Output) (b : UInt8) : Option Output := do
  let buffer ← write out.buffer out.index b
  pure { buffer, index := out.index + 1 }

/-- Write the character of a number of the table. -/
def Output.putSextet (out : Output) (n : ℕ) : Option Output := do out.put (← base64Table[n]?)

/-- The loop over the blocks of three bytes, and the rest of the input behind them. -/
def encodeFrom : List UInt8 → Output → Option Output
  | a :: b :: c :: rest, out => do
    let out ← out.putSextet (a.toNat >>> 2)
    let out ← out.putSextet ((a.toNat <<< 4 ||| b.toNat >>> 4) &&& 63)
    let out ← out.putSextet ((b.toNat <<< 2 ||| c.toNat >>> 6) &&& 63)
    let out ← out.putSextet (c.toNat &&& 63)
    encodeFrom rest out
  | [a, b], out => do
    let out ← out.putSextet (a.toNat >>> 2)
    let out ← out.putSextet ((a.toNat <<< 4 ||| b.toNat >>> 4) &&& 63)
    let out ← out.putSextet ((b.toNat <<< 2) &&& 63)
    out.put equalsSign
  | [a], out => do
    let out ← out.putSextet (a.toNat >>> 2)
    let out ← out.putSextet ((a.toNat <<< 4) &&& 63)
    let out ← out.put equalsSign
    out.put equalsSign
  | [], out => some out

/-- None where a write is outside of the buffer, or where the buffer is not filled. -/
def base64Encode (input : List UInt8) : Option (List UInt8) := do
  let out ← encodeFrom input
    { buffer := List.replicate ((input.length + 2) / 3 * 4) 0, index := 0 }
  guard (out.index = out.buffer.length)
  pure out.buffer

/-! ## Decoding -/

def unBase64 (c : UInt8) : ℤ :=
  if 'A'.toUInt8 ≤ c ∧ c ≤ 'Z'.toUInt8 then c.toNat - 'A'.toNat
  else if 'a'.toUInt8 ≤ c ∧ c ≤ 'z'.toUInt8 then c.toNat - 'a'.toNat + 26
  else if '0'.toUInt8 ≤ c ∧ c ≤ '9'.toUInt8 then c.toNat - '0'.toNat + 52
  else if c = '+'.toUInt8 then 62
  else if c = '/'.toUInt8 then 63
  else if c = '='.toUInt8 then -1
  else -2

/-- `res[i] |= n`. -/
def orAt (res : List UInt8) (i n : ℕ) : Option (List UInt8) := update res i (· ||| UInt8.ofNat n)

/-- The six bits of `c`, put to the bit `o`. -/
def place (res : List UInt8) (o c : ℕ) : Option (List UInt8) :=
  match o &&& 7 with
  | 0 => orAt res (o >>> 3) (c <<< 2)
  | 6 => do orAt (← orAt res (o >>> 3) (c >>> 4)) ((o >>> 3) + 1) (c <<< 4)
  | 4 => do orAt (← orAt res (o >>> 3) (c >>> 2)) ((o >>> 3) + 1) (c <<< 6)
  | 2 => orAt res (o >>> 3) c
  | _ => some res

/-- The loop of `Base64Decode`. It skips what is not in the table, and `=` ends it. -/
def decodeFrom : List UInt8 → ℕ → List UInt8 → Option (List UInt8)
  | [], o, res => some (resize res (o >>> 3) 0)
  | b :: bs, o, res =>
    let c := unBase64 b
    if 0 ≤ c then do decodeFrom bs (o + 6) (← place res o c.toNat)
    else if c = -1 then some (resize res (o >>> 3) 0)
    else decodeFrom bs o res

/-- None where a write is outside of the buffer. -/
def base64Decode (base64String : List UInt8) : Option (List UInt8) :=
  decodeFrom base64String 0 (List.replicate (base64String.length * 4 / 3 + 5) 0)

/-! ## What is encoded -/

/-- The character of a number below 64. -/
def sextet (n : ℕ) : UInt8 := base64Table.getD n 0

/-- The encoding, without a buffer. -/
def encoded : List UInt8 → List UInt8
  | a :: b :: c :: rest =>
    sextet (a.toNat >>> 2) :: sextet ((a.toNat <<< 4 ||| b.toNat >>> 4) &&& 63) ::
      sextet ((b.toNat <<< 2 ||| c.toNat >>> 6) &&& 63) :: sextet (c.toNat &&& 63) :: encoded rest
  | [a, b] =>
    [sextet (a.toNat >>> 2), sextet ((a.toNat <<< 4 ||| b.toNat >>> 4) &&& 63),
      sextet ((b.toNat <<< 2) &&& 63), equalsSign]
  | [a] => [sextet (a.toNat >>> 2), sextet ((a.toNat <<< 4) &&& 63), equalsSign, equalsSign]
  | [] => []

theorem shiftRight_lt (a : UInt8) : a.toNat >>> 2 < 64 := by
  rw [Nat.shiftRight_eq_div_pow]
  have := a.toNat_lt
  omega

theorem and_lt (n : ℕ) : n &&& 63 < 64 := Nat.and_lt_two_pow n (by decide : 63 < 2 ^ 6)

theorem getElem?_base64Table {n : ℕ} (small : n < 64) : base64Table[n]? = some (sextet n) := by
  have length : base64Table.length = 64 := by decide
  rw [sextet, List.getD_eq_getElem?_getD, List.getElem?_eq_getElem (by omega)]
  rfl

/-- An output that has been written so far, with as many places left. -/
def Output.written (done : List UInt8) (free : ℕ) : Output :=
  { buffer := done ++ List.replicate free 0, index := done.length }

theorem put_written (done : List UInt8) (free : ℕ) (b : UInt8) :
    (Output.written done (free + 1)).put b = some (.written (done ++ [b]) free) := by
  simp [Output.put, Output.written, List.replicate_succ, write_append]

theorem putSextet_written (done : List UInt8) (free : ℕ) {n : ℕ} (small : n < 64) :
    (Output.written done (free + 1)).putSextet n = some (.written (done ++ [sextet n]) free) := by
  rw [Output.putSextet, getElem?_base64Table small]
  exact put_written done free (sextet n)

theorem length_encoded (x : List UInt8) : (encoded x).length = (x.length + 2) / 3 * 4 := by
  fun_induction encoded x <;> grind

theorem encodeFrom_written (x done : List UInt8) :
    encodeFrom x (.written done ((x.length + 2) / 3 * 4)) =
      some (.written (done ++ encoded x) 0) := by
  fun_induction encoded x generalizing done with
  | case1 a b c rest ih =>
    have free : ((a :: b :: c :: rest).length + 2) / 3 * 4 = (rest.length + 2) / 3 * 4 + 4 := by
      simp only [List.length_cons]
      omega
    rw [free, encodeFrom]
    simp [putSextet_written, shiftRight_lt, and_lt, ih]
  | case2 a b => simp [encodeFrom, putSextet_written, put_written, shiftRight_lt, and_lt]
  | case3 a => simp [encodeFrom, putSextet_written, put_written, shiftRight_lt, and_lt]
  | case4 => simp [encodeFrom]

theorem base64Encode_eq (x : List UInt8) : base64Encode x = some (encoded x) := by
  have start : (⟨List.replicate ((x.length + 2) / 3 * 4) 0, 0⟩ : Output) =
      .written [] ((x.length + 2) / 3 * 4) := rfl
  rw [base64Encode, start, encodeFrom_written]
  simp [Output.written]

/-- The alphabet, and at most two `=` at the end. -/
theorem encoded_form (x : List UInt8) : ∃ body pad, encoded x = body ++ pad ∧
    (∀ c ∈ body, c ∈ base64Table) ∧ pad.length ≤ 2 ∧ ∀ c ∈ pad, c = equalsSign := by
  have member {n : ℕ} (small : n < 64) : sextet n ∈ base64Table :=
    List.mem_of_getElem? (getElem?_base64Table small)
  fun_induction encoded x with
  | case1 a b c rest ih =>
    obtain ⟨body, pad, eq, inside, short, equals⟩ := ih
    refine ⟨_ :: _ :: _ :: _ :: body, pad, by rw [eq]; rfl, ?_, short, equals⟩
    simp only [List.forall_mem_cons]
    exact ⟨member (shiftRight_lt a), member (and_lt _), member (and_lt _), member (and_lt _), inside⟩
  | case2 a b =>
    refine ⟨[_, _, _], [equalsSign], rfl, ?_, by decide, by simp⟩
    simp only [List.forall_mem_cons]
    exact ⟨member (shiftRight_lt a), member (and_lt _), member (and_lt _), by simp⟩
  | case3 a =>
    refine ⟨[_, _], [equalsSign, equalsSign], rfl, ?_, by decide, by simp⟩
    simp only [List.forall_mem_cons]
    exact ⟨member (shiftRight_lt a), member (and_lt _), by simp⟩
  | case4 => exact ⟨[], [], rfl, by simp, by decide, by simp⟩

/-! ## What is decoded -/

theorem testBit_low_six (n i : ℕ) : (n &&& 63).testBit i = (n.testBit i && decide (i < 6)) := by
  have mask : 63 = 2 ^ 6 - 1 := rfl
  rw [mask, Nat.testBit_and, Nat.testBit_two_pow_sub_one]

/-- A byte is put together from the six bits of one character and two of the next. -/
theorem byte_high (a b : UInt8) :
    UInt8.ofNat ((a.toNat >>> 2) <<< 2) |||
      UInt8.ofNat (((a.toNat <<< 4 ||| b.toNat >>> 4) &&& 63) >>> 4) = a := by
  refine eq_of_testBit fun i low => ?_
  simp only [testBit_or, testBit_ofNat, Nat.testBit_shiftLeft, Nat.testBit_shiftRight,
    testBit_low_six, Nat.testBit_or]
  interval_cases i <;> simp [testBit_toNat_of_le]

/-- From four bits of one character and four of the next. -/
theorem byte_middle (a b c : UInt8) :
    UInt8.ofNat (((a.toNat <<< 4 ||| b.toNat >>> 4) &&& 63) <<< 4) |||
      UInt8.ofNat (((b.toNat <<< 2 ||| c.toNat >>> 6) &&& 63) >>> 2) = b := by
  refine eq_of_testBit fun i low => ?_
  simp only [testBit_or, testBit_ofNat, Nat.testBit_shiftLeft, Nat.testBit_shiftRight,
    testBit_low_six, Nat.testBit_or]
  interval_cases i <;> simp [testBit_toNat_of_le]

/-- From two bits of one character and six of the next. -/
theorem byte_low (b c : UInt8) :
    UInt8.ofNat (((b.toNat <<< 2 ||| c.toNat >>> 6) &&& 63) <<< 6) |||
      UInt8.ofNat (c.toNat &&& 63) = c := by
  refine eq_of_testBit fun i low => ?_
  simp only [testBit_or, testBit_ofNat, Nat.testBit_shiftLeft, Nat.testBit_shiftRight,
    testBit_low_six, Nat.testBit_or]
  interval_cases i <;> simp

theorem unBase64_sextet {n : ℕ} (small : n < 64) : unBase64 (sextet n) = n := by
  have all : ∀ n < 64, unBase64 (sextet n) = n := by decide +kernel
  exact all n small

theorem decodeFrom_sextet {n : ℕ} (small : n < 64) (cs : List UInt8) (o : ℕ) (res : List UInt8) :
    decodeFrom (sextet n :: cs) o res = (place res o n).bind (decodeFrom cs (o + 6)) := by
  rw [decodeFrom, unBase64_sextet small]
  simp

theorem decodeFrom_equalsSign (cs : List UInt8) (o : ℕ) (res : List UInt8) :
    decodeFrom (equalsSign :: cs) o res = some (resize res (o >>> 3) 0) := by
  have value : unBase64 equalsSign = -1 := by decide
  rw [decodeFrom, value]
  simp

section Place
variable (done : List UInt8) (x y : UInt8) (tail : List UInt8) (c : ℕ)

/-- The position of a bit, which is one of the bits of the byte behind `done`. -/
theorem bit_position (r : ℕ) (within : r < 8) :
    (8 * done.length + r) &&& 7 = r ∧ (8 * done.length + r) >>> 3 = done.length := by
  have mask : (8 * done.length + r) &&& 7 = (8 * done.length + r) % 8 :=
    Nat.and_two_pow_sub_one_eq_mod _ 3
  have shift : (8 * done.length + r) >>> 3 = (8 * done.length + r) / 8 :=
    Nat.shiftRight_eq_div_pow _ 3
  constructor <;> omega

theorem place_zero : place (done ++ x :: tail) (8 * done.length) c =
    some (done ++ (x ||| UInt8.ofNat (c <<< 2)) :: tail) := by
  obtain ⟨bit, byte⟩ := bit_position done 0 (by decide)
  rw [Nat.add_zero] at bit byte
  simp only [place, bit, byte]
  exact update_append done x tail _

theorem orAt_orAt (m n : ℕ) :
    (do orAt (← orAt (done ++ x :: y :: tail) done.length m) (done.length + 1) n) =
      some (done ++ (x ||| UInt8.ofNat m) :: (y ||| UInt8.ofNat n) :: tail) := by
  have second := update_append (done ++ [x ||| UInt8.ofNat m]) y tail (· ||| UInt8.ofNat n)
  simp only [List.append_assoc, List.singleton_append, List.length_append, List.length_singleton]
    at second
  simpa [orAt, update_append] using second

theorem place_six : place (done ++ x :: y :: tail) (8 * done.length + 6) c =
    some (done ++ (x ||| UInt8.ofNat (c >>> 4)) :: (y ||| UInt8.ofNat (c <<< 4)) :: tail) := by
  obtain ⟨bit, byte⟩ := bit_position done 6 (by decide)
  simp only [place, bit, byte]
  exact orAt_orAt done x y tail _ _

theorem place_four : place (done ++ x :: y :: tail) (8 * done.length + 4) c =
    some (done ++ (x ||| UInt8.ofNat (c >>> 2)) :: (y ||| UInt8.ofNat (c <<< 6)) :: tail) := by
  obtain ⟨bit, byte⟩ := bit_position done 4 (by decide)
  simp only [place, bit, byte]
  exact orAt_orAt done x y tail _ _

theorem place_two : place (done ++ x :: tail) (8 * done.length + 2) c =
    some (done ++ (x ||| UInt8.ofNat c) :: tail) := by
  obtain ⟨bit, byte⟩ := bit_position done 2 (by decide)
  simp only [place, bit, byte]
  exact update_append done x tail _

end Place

/-- Two characters give one byte, and begin the next. -/
theorem decodeFrom_two (done : List UInt8) (a b : UInt8) (tail cs : List UInt8) :
    decodeFrom (sextet (a.toNat >>> 2) ::
        sextet ((a.toNat <<< 4 ||| b.toNat >>> 4) &&& 63) :: cs)
        (8 * done.length) (done ++ 0 :: 0 :: tail) =
      decodeFrom cs (8 * (done ++ [a]).length + 4) ((done ++ [a]) ++
        UInt8.ofNat (((a.toNat <<< 4 ||| b.toNat >>> 4) &&& 63) <<< 4) :: tail) := by
  have places : 8 * (done ++ [a]).length + 4 = 8 * done.length + 6 + 6 := by
    simp only [List.length_append, List.length_singleton]
    omega
  rw [decodeFrom_sextet (shiftRight_lt a), place_zero, Option.bind_some,
    decodeFrom_sextet (and_lt _), place_six, Option.bind_some, places, UInt8.zero_or,
    UInt8.zero_or, byte_high, List.append_assoc, List.singleton_append]

/-- The next character completes the second byte, and begins the third. -/
theorem decodeFrom_third (done : List UInt8) (a b c : UInt8) (tail cs : List UInt8) :
    decodeFrom (sextet ((b.toNat <<< 2 ||| c.toNat >>> 6) &&& 63) :: cs) (8 * done.length + 4)
        (done ++ UInt8.ofNat (((a.toNat <<< 4 ||| b.toNat >>> 4) &&& 63) <<< 4) :: 0 :: tail) =
      decodeFrom cs (8 * (done ++ [b]).length + 2) ((done ++ [b]) ++
        UInt8.ofNat (((b.toNat <<< 2 ||| c.toNat >>> 6) &&& 63) <<< 6) :: tail) := by
  have places : 8 * (done ++ [b]).length + 2 = 8 * done.length + 4 + 6 := by
    simp only [List.length_append, List.length_singleton]
    omega
  rw [decodeFrom_sextet (and_lt _), place_four, Option.bind_some, places, UInt8.zero_or,
    byte_middle, List.append_assoc, List.singleton_append]

theorem decodeFrom_fourth (done : List UInt8) (b c : UInt8) (tail cs : List UInt8) :
    decodeFrom (sextet (c.toNat &&& 63) :: cs) (8 * done.length + 2)
        (done ++ UInt8.ofNat (((b.toNat <<< 2 ||| c.toNat >>> 6) &&& 63) <<< 6) :: tail) =
      decodeFrom cs (8 * (done ++ [c]).length) ((done ++ [c]) ++ tail) := by
  have places : 8 * (done ++ [c]).length = 8 * done.length + 2 + 6 := by
    simp only [List.length_append, List.length_singleton]
    omega
  rw [decodeFrom_sextet (and_lt _), place_two, Option.bind_some, places, byte_low,
    List.append_assoc, List.singleton_append]

/-- The sign that ends the text cuts off what has been begun. -/
theorem decodeFrom_end (done : List UInt8) {r : ℕ} (within : r < 8) (tail cs : List UInt8) :
    decodeFrom (equalsSign :: cs) (8 * done.length + r) (done ++ tail) = some done := by
  rw [decodeFrom_equalsSign, (bit_position done r within).2, resize_append]

/-- With as many bytes free as there are characters, what has been encoded is decoded. -/
theorem decodeFrom_encoded (x done : List UInt8) (free : ℕ) (room : x.length + 1 ≤ free) :
    decodeFrom (encoded x) (8 * done.length) (done ++ List.replicate free 0) =
      some (done ++ x) := by
  fun_induction encoded x generalizing done free with
  | case1 a b c rest ih =>
    obtain ⟨free, rfl⟩ := Nat.exists_eq_add_of_le' (show 3 ≤ free by grind)
    have next := ih (done ++ [a] ++ [b] ++ [c]) free (by grind)
    rw [List.replicate_succ, List.replicate_succ, List.replicate_succ, decodeFrom_two,
      decodeFrom_third, decodeFrom_fourth, next]
    simp
  | case2 a b =>
    obtain ⟨free, rfl⟩ := Nat.exists_eq_add_of_le' (show 3 ≤ free by grind)
    have last : b.toNat <<< 2 = b.toNat <<< 2 ||| (0 : UInt8).toNat >>> 6 := by simp
    rw [List.replicate_succ, List.replicate_succ, List.replicate_succ, decodeFrom_two, last,
      decodeFrom_third, decodeFrom_end _ (by decide)]
    simp
  | case3 a =>
    obtain ⟨free, rfl⟩ := Nat.exists_eq_add_of_le' (show 2 ≤ free by grind)
    have last : a.toNat <<< 4 = a.toNat <<< 4 ||| (0 : UInt8).toNat >>> 4 := by simp
    rw [List.replicate_succ, List.replicate_succ, last, decodeFrom_two, decodeFrom_end _ (by decide)]
  | case4 =>
    obtain ⟨-, byte⟩ := bit_position done 0 (by decide)
    rw [Nat.add_zero] at byte
    rw [decodeFrom, byte, resize_append, List.append_nil]

theorem base64Decode_encoded (x : List UInt8) : base64Decode (encoded x) = some x := by
  have decoded := decodeFrom_encoded x [] ((encoded x).length * 4 / 3 + 5) (by
    rw [length_encoded]
    omega)
  simpa [base64Decode] using decoded

/-! ## Writes -/

/-- The bits of one character stay inside if the byte behind theirs does. -/
theorem exists_place {res : List UInt8} {o : ℕ} (inside : (o >>> 3) + 1 < res.length) (c : ℕ) :
    ∃ res', place res o c = some res' ∧ res'.length = res.length := by
  have one (n : ℕ) : ∃ res', orAt res (o >>> 3) n = some res' ∧ res'.length = res.length :=
    exists_update (by omega) _
  have two (m n : ℕ) : ∃ res', (do orAt (← orAt res (o >>> 3) m) ((o >>> 3) + 1) n) = some res' ∧
      res'.length = res.length := by
    obtain ⟨res₁, first, same₁⟩ := one m
    obtain ⟨res₂, second, same₂⟩ :=
      exists_update (show (o >>> 3) + 1 < res₁.length by omega) (· ||| UInt8.ofNat n)
    refine ⟨res₂, ?_, same₂.trans same₁⟩
    rw [first]
    exact second
  unfold place
  split
  · exact one _
  · exact two _ _
  · exact two _ _
  · exact one _
  · exact ⟨res, rfl, rfl⟩

/-- The decoder stays inside a buffer that has six bits for each character, and two bytes more. -/
theorem exists_decodeFrom (bs : List UInt8) (o : ℕ) (res : List UInt8)
    (room : o + 6 * bs.length + 16 ≤ 8 * res.length) : ∃ res', decodeFrom bs o res = some res' := by
  induction bs generalizing o res with
  | nil => exact ⟨_, rfl⟩
  | cons b bs ih =>
    rw [List.length_cons] at room
    rw [decodeFrom]
    split
    · have shift : o >>> 3 = o / 8 := Nat.shiftRight_eq_div_pow _ 3
      obtain ⟨res', placed, same⟩ :=
        exists_place (show (o >>> 3) + 1 < res.length by omega) (unBase64 b).toNat
      obtain ⟨res'', rest⟩ := ih (o + 6) res' (by omega)
      exact ⟨res'', by simpa [placed] using rest⟩
    split
    · exact ⟨_, rfl⟩
    · exact ih o res (by omega)

/-- Every byte string can be encoded, into characters of the alphabet and at most two `=`, and
comes back; and the decoder stays inside its buffer whatever it is given. -/
theorem base64_round_trip (x : List UInt8) :
    ∃ e, base64Encode x = some e ∧ base64Decode e = some x ∧
      e.length = 4 * (x.length ⌈/⌉ 3) ∧
      (∃ body pad, e = body ++ pad ∧ (∀ c ∈ body, c ∈ base64Table) ∧ pad.length ≤ 2 ∧
        ∀ c ∈ pad, c = equalsSign) ∧
      ∃ d, base64Decode x = some d := by
  refine ⟨encoded x, base64Encode_eq x, base64Decode_encoded x, ?_, encoded_form x, ?_⟩
  · rw [length_encoded, Nat.ceilDiv_eq_add_pred_div, mul_comm]
    rfl
  · refine exists_decodeFrom x 0 _ ?_
    rw [List.length_replicate]
    omega

end KeenTrader.Api
