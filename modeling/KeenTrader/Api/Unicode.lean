import KeenTrader.Api.UrlCoding

/-!
# Conversions between UTF-8 and UTF-16

`UTF8ToRawBEUTF16` and `RawBEToUTF8` of `StringUtils.cpp`. The former decodes a text sequence by
sequence, up to the first one that it takes for illegal; the latter encodes the units one by one.
The machine is little-endian, so that `htons` exchanges the two bytes of a unit.
-/

namespace KeenTrader.Api

/-! ## The conversions -/

def trailingBytesForUTF8 : List ℕ :=
  List.replicate 192 0 ++ List.replicate 32 1 ++ List.replicate 16 2 ++ List.replicate 8 3 ++
    List.replicate 4 4 ++ List.replicate 4 5

def extraBytesToRead (source : UInt8) : ℕ := trailingBytesForUTF8.getD source.toNat 0

def offsetsFromUTF8 : List UInt32 :=
  [0x00000000, 0x00003080, 0x000E2080, 0x03C82080, 0xFA082080, 0x82082080]

/-- The check of a third or a fourth byte. -/
def isLegalTrail (a : UInt8) : Bool := 0x80 ≤ a && a ≤ 0xbf

/-- The check of a second byte. Behind two of the first bytes it is not checked from below. -/
def isLegalSecond (source a : UInt8) : Bool :=
  if 0xbf < a then false
  else if source = 0xe0 then 0xa0 ≤ a
  else if source = 0xed then a ≤ 0x9f
  else if source = 0xf0 then 0x90 ≤ a
  else if source = 0xf4 then a ≤ 0x8f
  else 0x80 ≤ a

def isLegalFirst (source : UInt8) : Bool := !(0x80 ≤ source && source < 0xc2) && source ≤ 0xf4

/-- The sequence is as long as the text that is passed. -/
def isLegalUTF8 : List UInt8 → Bool
  | [source] => isLegalFirst source
  | [source, a] => isLegalSecond source a && isLegalFirst source
  | [source, a, b] => isLegalTrail b && isLegalSecond source a && isLegalFirst source
  | [source, a, b, c] =>
    isLegalTrail c && isLegalTrail b && isLegalSecond source a && isLegalFirst source
  | _ => false

/-- The value of a sequence, as it is computed. -/
def codePoint (bytes : List UInt8) : UInt32 :=
  bytes.foldl (fun (ch : UInt32) b => (ch <<< 6) + b.toUInt32) 0 -
    offsetsFromUTF8.getD (bytes.length - 1) 0

def htons (v : UInt16) : UInt16 := (v <<< 8) ||| (v >>> 8)

/-- What is written for a value. -/
def unitsOf (ch : UInt32) : List UInt16 :=
  if ch ≤ 0xffff then
    [htons (if 0xd800 ≤ ch ∧ ch ≤ 0xdfff then 0x20 else ch).toUInt16]
  else if 0x10ffff < ch then [htons 0x20]
  else
    [htons (((ch - 0x10000) >>> 10) + 0xd800).toUInt16,
      htons (((ch - 0x10000) &&& 0x3ff) + 0xdc00).toUInt16]

def utf8ToRawBEUTF16 : List UInt8 → List UInt16
  | [] => []
  | source :: rest =>
    let extra := extraBytesToRead source
    if rest.length < extra then []
    else if isLegalUTF8 (source :: rest.take extra) = false then []
    else unitsOf (codePoint (source :: rest.take extra)) ++ utf8ToRawBEUTF16 (rest.drop extra)
termination_by bytes => bytes.length

def getBEUShort (hi lo : UInt8) : UInt16 := (hi.toUInt16 <<< 8) ||| lo.toUInt16

/-- All shorts of the data. -/
def rawBEToUTF8 : List UInt8 → List UInt8
  | hi :: lo :: rest => unicodeCharToUtf8 (getBEUShort hi lo).toUInt32 ++ rawBEToUTF8 rest
  | _ => []

/-- The memory of a string of units. -/
def rawBytes (units : List UInt16) : List UInt8 :=
  units.flatMap fun u : UInt16 => [u.toUInt8, (u >>> 8).toUInt8]

/-! ## What they mean -/

/-- A character in UTF-8. -/
def utf8 (c : Char) : List UInt8 := unicodeCharToUtf8 c.val

/-- A character in UTF-16. -/
def utf16 (c : Char) : List UInt16 :=
  if c.toNat < 0x10000 then [.ofNat c.toNat]
  else [.ofNat (0xd800 + (c.toNat - 0x10000) / 1024), .ofNat (0xdc00 + (c.toNat - 0x10000) % 1024)]

variable {c : Char}

theorem toNat_valid (c : Char) : c.toNat < 0xd800 ∨ 0xdfff < c.toNat ∧ c.toNat < 0x110000 := c.valid

/-- A character by the number of bytes that it takes, with the digits of its value. -/
theorem utf8_cases (c : Char) :
    (c.toNat < 0x80 ∧ utf8 c = [.ofNat c.toNat]) ∨
    (∃ x y, 2 ≤ x ∧ x < 32 ∧ y < 64 ∧ c.toNat = x * 64 + y ∧
      utf8 c = [.ofNat (192 + x), .ofNat (128 + y)]) ∨
    (∃ x y z, x < 16 ∧ y < 64 ∧ z < 64 ∧ c.toNat = (x * 64 + y) * 64 + z ∧
      (x = 0 → 32 ≤ y) ∧ (x = 13 → y < 32) ∧
      utf8 c = [.ofNat (224 + x), .ofNat (128 + y), .ofNat (128 + z)]) ∨
    ∃ w x y z, w ≤ 4 ∧ x < 64 ∧ y < 64 ∧ z < 64 ∧ c.toNat = ((w * 64 + x) * 64 + y) * 64 + z ∧
      (w = 0 → 16 ≤ x) ∧ (w = 4 → x < 16) ∧
      utf8 c = [.ofNat (240 + w), .ofNat (128 + x), .ofNat (128 + y), .ofNat (128 + z)] := by
  have valid := toNat_valid c
  have val : c.val.toNat = c.toNat := rfl
  unfold utf8 unicodeCharToUtf8
  simp only [UInt32.lt_iff_toNat_lt, UInt32.toNat_sub, val, UInt32.reduceToNat]
  split_ifs with one two surrogate three four
  · exact .inl ⟨one, rfl⟩
  · refine .inr (.inl ⟨c.toNat / 64, c.toNat % 64, ?_, ?_, ?_, ?_, rfl⟩) <;> omega
  · omega
  · refine .inr (.inr (.inl
      ⟨c.toNat / 4096, c.toNat / 64 % 64, c.toNat % 64, ?_, ?_, ?_, ?_, ?_, ?_, rfl⟩)) <;> omega
  · refine .inr (.inr (.inr ⟨c.toNat / 262144, c.toNat / 4096 % 64, c.toNat / 64 % 64,
      c.toNat % 64, ?_, ?_, ?_, ?_, ?_, ?_, ?_, rfl⟩)) <;> omega
  · omega

/-- The table by its ranges. -/
theorem trailingBytes_eq : ∀ n < 256, trailingBytesForUTF8.getD n 0 =
    if n < 192 then 0 else if n < 224 then 1 else if n < 240 then 2 else if n < 248 then 3
    else if n < 252 then 4 else 5 := by
  decide +kernel

theorem extraBytesToRead_eq (source : UInt8) : extraBytesToRead source =
    if source.toNat < 192 then 0 else if source.toNat < 224 then 1 else if source.toNat < 240 then 2
    else if source.toNat < 248 then 3 else if source.toNat < 252 then 4 else 5 :=
  trailingBytes_eq _ source.toNat_lt

theorem isLegalTrail_iff (a : UInt8) : isLegalTrail a = true ↔ 128 ≤ a.toNat ∧ a.toNat ≤ 191 := by
  simp [isLegalTrail, UInt8.le_iff_toNat_le]

theorem isLegalFirst_iff (source : UInt8) :
    isLegalFirst source = true ↔
      (source.toNat < 128 ∨ 194 ≤ source.toNat) ∧ source.toNat ≤ 244 := by
  simp [isLegalFirst, UInt8.le_iff_toNat_le, UInt8.lt_iff_toNat_lt]

/-- The bytes that are accepted behind a first byte. -/
theorem isLegalSecond_iff (source a : UInt8) :
    isLegalSecond source a = true ↔ a.toNat ≤ 191 ∧ (source.toNat = 224 → 160 ≤ a.toNat) ∧
      (source.toNat = 237 → a.toNat ≤ 159) ∧ (source.toNat = 240 → 144 ≤ a.toNat) ∧
      (source.toNat = 244 → a.toNat ≤ 143) ∧
      (source.toNat ≠ 237 → source.toNat ≠ 244 → 128 ≤ a.toNat) := by
  unfold isLegalSecond
  simp only [UInt8.lt_iff_toNat_lt, UInt8.le_iff_toNat_le, ← UInt8.toNat_inj, UInt8.reduceToNat]
  split_ifs <;> simp only [decide_eq_true_eq, false_iff] <;> omega

theorem toNat_ofNat {n : ℕ} (small : n < 256) : (UInt8.ofNat n).toNat = n :=
  Nat.mod_eq_of_lt small

/-- A character is one sequence: its first byte tells the length, it is legal, and its value is the
character's. -/
theorem sequence_of_char (c : Char) : ∃ source tail, utf8 c = source :: tail ∧
    extraBytesToRead source = tail.length ∧ isLegalUTF8 (source :: tail) = true ∧
    (codePoint (source :: tail)).toNat = c.toNat := by
  rcases utf8_cases c with ⟨small, eq⟩ | ⟨x, y, x_ge, x_lt, y_lt, value, eq⟩ |
    ⟨x, y, z, x_lt, y_lt, z_lt, value, low, high, eq⟩ |
    ⟨w, x, y, z, w_le, x_lt, y_lt, z_lt, value, low, high, eq⟩
  · refine ⟨_, _, eq, ?_, ?_, ?_⟩
    · rw [extraBytesToRead_eq, toNat_ofNat (by omega), if_pos (by omega)]
      rfl
    · rw [isLegalUTF8, isLegalFirst_iff, toNat_ofNat (by omega)]
      omega
    · simp [codePoint, offsetsFromUTF8]
      omega
  · refine ⟨_, _, eq, ?_, ?_, ?_⟩
    · rw [extraBytesToRead_eq, toNat_ofNat (by omega), if_neg (by omega), if_pos (by omega)]
      rfl
    · rw [isLegalUTF8, Bool.and_eq_true, isLegalFirst_iff, isLegalSecond_iff,
        toNat_ofNat (by omega), toNat_ofNat (by omega)]
      omega
    · rw [value]
      simp [codePoint, offsetsFromUTF8, Nat.shiftLeft_eq, UInt32.toNat_sub]
      omega
  · refine ⟨_, _, eq, ?_, ?_, ?_⟩
    · rw [extraBytesToRead_eq, toNat_ofNat (by omega), if_neg (by omega), if_neg (by omega),
        if_pos (by omega)]
      rfl
    · rw [isLegalUTF8, Bool.and_eq_true, Bool.and_eq_true, isLegalFirst_iff, isLegalSecond_iff,
        isLegalTrail_iff, toNat_ofNat (by omega), toNat_ofNat (by omega), toNat_ofNat (by omega)]
      omega
    · rw [value]
      simp [codePoint, offsetsFromUTF8, Nat.shiftLeft_eq, UInt32.toNat_sub]
      omega
  · refine ⟨_, _, eq, ?_, ?_, ?_⟩
    · rw [extraBytesToRead_eq, toNat_ofNat (by omega), if_neg (by omega), if_neg (by omega),
        if_neg (by omega), if_pos (by omega)]
      rfl
    · rw [isLegalUTF8, Bool.and_eq_true, Bool.and_eq_true, Bool.and_eq_true, isLegalFirst_iff,
        isLegalSecond_iff, isLegalTrail_iff, isLegalTrail_iff, toNat_ofNat (by omega),
        toNat_ofNat (by omega), toNat_ofNat (by omega), toNat_ofNat (by omega)]
      omega
    · rw [value]
      simp [codePoint, offsetsFromUTF8, Nat.shiftLeft_eq, UInt32.toNat_sub]
      omega

/-- The units of a character, in the order of the network. -/
theorem unitsOf_char {ch : UInt32} (same : ch.toNat = c.toNat) :
    unitsOf ch = (utf16 c).map htons := by
  have valid := toNat_valid c
  unfold unitsOf utf16
  simp only [UInt32.le_iff_toNat_le, UInt32.lt_iff_toNat_lt, same, UInt32.reduceToNat]
  by_cases one : c.toNat < 0x10000
  · rw [if_pos (by omega), if_neg (by omega), if_pos one]
    refine congrArg (fun v => [htons v]) (UInt16.toNat_inj.mp ?_)
    rw [UInt32.toNat_toUInt16, same, UInt16.toNat_ofNat']
  · have above : (ch - 0x10000).toNat = c.toNat - 0x10000 := by
      rw [UInt32.toNat_sub_of_le _ _ (by rw [UInt32.le_iff_toNat_le, same]; exact not_lt.mp one),
        same]
      rfl
    have high : (((ch - 0x10000) >>> 10) + 0xd800).toUInt16 =
        .ofNat (0xd800 + (c.toNat - 0x10000) / 1024) := by
      apply UInt16.toNat_inj.mp
      simp [above, Nat.shiftRight_eq_div_pow]
      omega
    have low : (((ch - 0x10000) &&& 0x3ff) + 0xdc00).toUInt16 =
        .ofNat (0xdc00 + (c.toNat - 0x10000) % 1024) := by
      apply UInt16.toNat_inj.mp
      have mask : (c.toNat - 0x10000) &&& 0x3ff = (c.toNat - 0x10000) % 1024 :=
        Nat.and_two_pow_sub_one_eq_mod _ 10
      rw [UInt32.toNat_toUInt16, UInt32.toNat_add, UInt32.toNat_and, above, UInt16.toNat_ofNat']
      simp only [UInt32.reduceToNat, mask]
      omega
    rw [if_neg (by omega), if_neg (by omega), if_neg one, high, low]
    rfl

theorem toNat_getBEUShort (hi lo : UInt8) :
    (getBEUShort hi lo).toNat = hi.toNat * 256 + lo.toNat := by
  have hi_lt := hi.toNat_lt
  have lo_lt := lo.toNat_lt
  have shifted : (hi.toUInt16 <<< 8).toNat = hi.toNat <<< 8 := by
    simp [Nat.shiftLeft_eq]
    omega
  rw [getBEUShort, UInt16.toNat_or, shifted, UInt8.toNat_toUInt16,
    ← Nat.shiftLeft_add_eq_or_of_lt lo_lt, Nat.shiftLeft_eq]

theorem toNat_htons (v : UInt16) : (htons v).toNat = v.toNat % 256 * 256 + v.toNat / 256 := by
  have v_lt := v.toNat_lt
  have left : (v <<< 8).toNat = (v.toNat % 256) <<< 8 := by
    simp [Nat.shiftLeft_eq]
    omega
  have right : (v >>> 8).toNat = v.toNat / 256 := by
    simp [Nat.shiftRight_eq_div_pow]
  have low : v.toNat / 256 < 2 ^ 8 := by omega
  rw [htons, UInt16.toNat_or, left, right, ← Nat.shiftLeft_add_eq_or_of_lt low, Nat.shiftLeft_eq]

/-- The memory of a unit holds its bytes in the order in which they are read. -/
theorem getBEUShort_htons (v : UInt16) :
    getBEUShort (htons v).toUInt8 (htons v >>> 8).toUInt8 = v := by
  have v_lt := v.toNat_lt
  apply UInt16.toNat_inj.mp
  rw [toNat_getBEUShort, UInt16.toNat_toUInt8, UInt16.toNat_toUInt8, UInt16.toNat_shiftRight,
    toNat_htons]
  simp only [UInt16.reduceToNat, Nat.shiftRight_eq_div_pow, Nat.reduceMod, Nat.reducePow]
  have high : (v.toNat % 256 * 256 + v.toNat / 256) % 256 = v.toNat / 256 := by omega
  have low : (v.toNat % 256 * 256 + v.toNat / 256) / 256 = v.toNat % 256 := by omega
  omega

/-! ## Texts -/

theorem utf8ToRawBEUTF16_char (c : Char) (rest : List UInt8) :
    utf8ToRawBEUTF16 (utf8 c ++ rest) = (utf16 c).map htons ++ utf8ToRawBEUTF16 rest := by
  obtain ⟨source, tail, eq, length, legal, value⟩ := sequence_of_char c
  rw [eq, List.cons_append, utf8ToRawBEUTF16]
  have taken : (tail ++ rest).take (extraBytesToRead source) = tail := by
    rw [length, List.take_left]
  have dropped : (tail ++ rest).drop (extraBytesToRead source) = rest := by
    rw [length, List.drop_left]
  simp only [taken, dropped, legal]
  rw [if_neg (by simp [length]), if_neg (by simp), unitsOf_char value]

/-- A text in UTF-8 is converted to the same text in UTF-16, whatever comes behind it. -/
theorem utf16_of_utf8 (text : List Char) (rest : List UInt8) :
    utf8ToRawBEUTF16 (text.flatMap utf8 ++ rest) =
      (text.flatMap utf16).map htons ++ utf8ToRawBEUTF16 rest := by
  induction text with
  | nil => rfl
  | cons c text ih =>
    rw [List.flatMap_cons, List.append_assoc, utf8ToRawBEUTF16_char, ih, List.flatMap_cons,
      List.map_append, List.append_assoc]

theorem unicodeCharToUtf8_surrogate {n : UInt32} (low : 0xd800 ≤ n.toNat)
    (high : n.toNat < 0xe000) : unicodeCharToUtf8 n = [] := by
  unfold unicodeCharToUtf8
  simp only [UInt32.lt_iff_toNat_lt, UInt32.toNat_sub, UInt32.reduceToNat]
  rw [if_neg (by omega), if_neg (by omega), if_pos (by omega)]

theorem rawBEToUTF8_unit (v : UInt16) (units : List UInt16) :
    rawBEToUTF8 (rawBytes (htons v :: units)) =
      unicodeCharToUtf8 v.toUInt32 ++ rawBEToUTF8 (rawBytes units) := by
  have bytes : rawBytes (htons v :: units) =
      (htons v).toUInt8 :: (htons v >>> 8).toUInt8 :: rawBytes units := rfl
  rw [bytes, rawBEToUTF8, getBEUShort_htons]

/-- A character beyond the basic plane is lost. -/
theorem rawBEToUTF8_char (c : Char) (units : List UInt16) :
    rawBEToUTF8 (rawBytes ((utf16 c).map htons ++ units)) =
      (if c.toNat < 0x10000 then utf8 c else []) ++ rawBEToUTF8 (rawBytes units) := by
  have valid := toNat_valid c
  unfold utf16
  split_ifs with basic
  · rw [List.map_cons, List.map_nil, List.singleton_append, rawBEToUTF8_unit]
    have same : (UInt16.ofNat c.toNat).toUInt32 = c.val := by
      apply UInt32.toNat_inj.mp
      rw [UInt16.toNat_toUInt32, UInt16.toNat_ofNat', Nat.mod_eq_of_lt basic]
      rfl
    rw [same]
    rfl
  · rw [List.map_cons, List.map_cons, List.map_nil, List.cons_append, List.singleton_append,
      rawBEToUTF8_unit, rawBEToUTF8_unit]
    rw [unicodeCharToUtf8_surrogate, unicodeCharToUtf8_surrogate]
    · rfl
    all_goals
      rw [UInt16.toNat_toUInt32, UInt16.toNat_ofNat']
      omega

/-- There and back, a text loses exactly its characters beyond the basic plane. -/
theorem utf8_round_trip (text : List Char) :
    rawBEToUTF8 (rawBytes (utf8ToRawBEUTF16 (text.flatMap utf8))) =
      (text.filter (·.toNat < 0x10000)).flatMap utf8 := by
  have converted := utf16_of_utf8 text []
  rw [List.append_nil, utf8ToRawBEUTF16, List.append_nil] at converted
  rw [converted]
  clear converted
  induction text with
  | nil => rfl
  | cons c text ih =>
    rw [List.flatMap_cons, List.map_append, rawBEToUTF8_char, ih]
    by_cases basic : c.toNat < 0x10000 <;> simp [basic]

/-! ## What is accepted -/

/-- A sequence that is legal although it is none of UTF-8: its second byte is not checked from
below. -/
def Mistaken (source : UInt8) : List UInt8 → Prop
  | a :: trail => (source.toNat = 237 ∨ source.toNat = 244) ∧ a.toNat < 128 ∧
      ∀ b ∈ trail, isLegalTrail b = true
  | [] => False

theorem exists_char {n : ℕ} (valid : n < 0xd800 ∨ 0xdfff < n ∧ n < 0x110000) :
    ∃ c : Char, c.toNat = n := by
  have small : n < UInt32.size := by
    change n < 4294967296
    omega
  exact ⟨⟨.ofNatLT n small, valid⟩, rfl⟩

theorem eq_ofNat {b : UInt8} {n : ℕ} (value : b.toNat = n) : b = .ofNat n := by
  rw [← value, UInt8.ofNat_toNat]

theorem utf8_of_one {a : UInt8} (first : a.toNat < 128) : ∃ c, [a] = utf8 c := by
  obtain ⟨c, value⟩ := exists_char (n := a.toNat) (.inl (by omega))
  refine ⟨c, ?_⟩
  rcases utf8_cases c with ⟨-, eq⟩ | ⟨x, y, _, _, _, _, -⟩ | ⟨x, y, z, _, _, _, _, _, _, -⟩ |
    ⟨w, x, y, z, _, _, _, _, _, _, _, -⟩
  · rw [eq, ← eq_ofNat value.symm]
  all_goals omega

theorem utf8_of_two {a b : UInt8} (first : 194 ≤ a.toNat ∧ a.toNat < 224)
    (second : 128 ≤ b.toNat ∧ b.toNat < 192) : ∃ c, [a, b] = utf8 c := by
  obtain ⟨c, value⟩ := exists_char (n := (a.toNat - 192) * 64 + (b.toNat - 128)) (.inl (by omega))
  refine ⟨c, ?_⟩
  rcases utf8_cases c with ⟨_, -⟩ | ⟨x, y, _, _, _, _, eq⟩ | ⟨x, y, z, _, _, _, _, _, _, -⟩ |
    ⟨w, x, y, z, _, _, _, _, _, _, _, -⟩
  · omega
  · rw [eq, ← eq_ofNat (b := a) (by omega), ← eq_ofNat (b := b) (by omega)]
  all_goals omega

theorem utf8_of_three {a b d : UInt8} (first : 224 ≤ a.toNat ∧ a.toNat < 240)
    (second : 128 ≤ b.toNat ∧ b.toNat < 192) (third : 128 ≤ d.toNat ∧ d.toNat < 192)
    (low : a.toNat = 224 → 160 ≤ b.toNat) (high : a.toNat = 237 → b.toNat < 160) :
    ∃ c, [a, b, d] = utf8 c := by
  obtain ⟨c, value⟩ := exists_char
    (n := ((a.toNat - 224) * 64 + (b.toNat - 128)) * 64 + (d.toNat - 128)) (by omega)
  refine ⟨c, ?_⟩
  rcases utf8_cases c with ⟨_, -⟩ | ⟨x, y, _, _, _, _, -⟩ | ⟨x, y, z, _, _, _, _, _, _, eq⟩ |
    ⟨w, x, y, z, _, _, _, _, _, _, _, -⟩
  · omega
  · omega
  · rw [eq, ← eq_ofNat (b := a) (by omega), ← eq_ofNat (b := b) (by omega),
      ← eq_ofNat (b := d) (by omega)]
  · omega

theorem utf8_of_four {a b d e : UInt8} (first : 240 ≤ a.toNat ∧ a.toNat ≤ 244)
    (second : 128 ≤ b.toNat ∧ b.toNat < 192) (third : 128 ≤ d.toNat ∧ d.toNat < 192)
    (fourth : 128 ≤ e.toNat ∧ e.toNat < 192) (low : a.toNat = 240 → 144 ≤ b.toNat)
    (high : a.toNat = 244 → b.toNat < 144) : ∃ c, [a, b, d, e] = utf8 c := by
  obtain ⟨c, value⟩ := exists_char (n := (((a.toNat - 240) * 64 + (b.toNat - 128)) * 64 +
    (d.toNat - 128)) * 64 + (e.toNat - 128)) (by omega)
  refine ⟨c, ?_⟩
  rcases utf8_cases c with ⟨_, -⟩ | ⟨x, y, _, _, _, _, -⟩ | ⟨x, y, z, _, _, _, _, _, _, -⟩ |
    ⟨w, x, y, z, _, _, _, _, _, _, _, eq⟩
  · omega
  · omega
  · omega
  · rw [eq, ← eq_ofNat (b := a) (by omega), ← eq_ofNat (b := b) (by omega),
      ← eq_ofNat (b := d) (by omega), ← eq_ofNat (b := e) (by omega)]

/-- A sequence of the length that its first byte tells is legal exactly if it is a character's or
one of the mistaken ones. -/
theorem isLegalUTF8_iff {source : UInt8} {tail : List UInt8}
    (length : extraBytesToRead source = tail.length) :
    isLegalUTF8 (source :: tail) = true ↔
      (∃ c, source :: tail = utf8 c) ∨ Mistaken source tail := by
  constructor
  · intro legal
    rw [extraBytesToRead_eq] at length
    match tail, length, legal with
    | [], length, legal =>
      rw [isLegalUTF8, isLegalFirst_iff] at legal
      split_ifs at length
      exact .inl (utf8_of_one (by omega))
    | [a], length, legal =>
      rw [isLegalUTF8, Bool.and_eq_true, isLegalFirst_iff, isLegalSecond_iff] at legal
      split_ifs at length <;> simp at length
      exact .inl (utf8_of_two (by omega) (by omega))
    | [a, b], length, legal =>
      rw [isLegalUTF8, Bool.and_eq_true, Bool.and_eq_true, isLegalFirst_iff, isLegalSecond_iff,
        isLegalTrail_iff] at legal
      split_ifs at length <;> simp at length
      by_cases below : a.toNat < 128
      · refine .inr ⟨by omega, below, ?_⟩
        simp only [List.mem_singleton, forall_eq, isLegalTrail_iff]
        omega
      · exact .inl (utf8_of_three (by omega) (by omega) (by omega) (by omega) (by omega))
    | [a, b, d], length, legal =>
      rw [isLegalUTF8, Bool.and_eq_true, Bool.and_eq_true, Bool.and_eq_true, isLegalFirst_iff,
        isLegalSecond_iff, isLegalTrail_iff, isLegalTrail_iff] at legal
      split_ifs at length <;> simp at length
      by_cases below : a.toNat < 128
      · refine .inr ⟨by omega, below, ?_⟩
        simp only [List.mem_cons, List.not_mem_nil, or_false, forall_eq_or_imp, forall_eq,
          isLegalTrail_iff]
        omega
      · exact .inl
          (utf8_of_four (by omega) (by omega) (by omega) (by omega) (by omega) (by omega))
    | _ :: _ :: _ :: _ :: _, _, legal => simp [isLegalUTF8] at legal
  · rintro (⟨c, eq⟩ | mistaken)
    · obtain ⟨source', tail', eq', -, legal, -⟩ := sequence_of_char c
      rw [eq, eq']
      exact legal
    · rw [extraBytesToRead_eq] at length
      match tail, length, mistaken with
      | a :: trail, length, ⟨first, below, trails⟩ =>
        have second : isLegalSecond source a = true := by
          rw [isLegalSecond_iff]
          omega
        have start : isLegalFirst source = true := by
          rw [isLegalFirst_iff]
          omega
        match trail, length, trails with
        | [], length, _ =>
          split_ifs at length <;> simp at length
          all_goals omega
        | [b], _, trails => simp [isLegalUTF8, second, start, trails b (by simp)]
        | [b, d], _, trails =>
          simp [isLegalUTF8, second, start, trails b (by simp), trails d (by simp)]
        | _ :: _ :: _ :: _, length, _ =>
          split_ifs at length <;> simp at length
          all_goals omega

/-- A letter behind a first byte of three is taken for the rest of a character. -/
theorem isLegalUTF8_iff_letter :
    isLegalUTF8 [0xed, 0x41, 0x80] = true ↔
      (∃ c, [0xed, 0x41, 0x80] = utf8 c) ∨ Mistaken 0xed [0x41, 0x80] :=
  isLegalUTF8_iff (by decide)

/-- Whatever the value is, the units of a character are written. -/
theorem exists_units (ch : UInt32) : ∃ c, unitsOf ch = (utf16 c).map htons := by
  have blank : unitsOf 0x20 = (utf16 ' ').map htons := by decide
  by_cases valid : ch.toNat < 0xd800 ∨ 0xdfff < ch.toNat ∧ ch.toNat < 0x110000
  · obtain ⟨c, value⟩ := exists_char valid
    exact ⟨c, unitsOf_char value.symm⟩
  · refine ⟨' ', ?_⟩
    rw [← blank]
    unfold unitsOf
    simp only [UInt32.le_iff_toNat_le, UInt32.lt_iff_toNat_lt, UInt32.reduceToNat]
    by_cases basic : ch.toNat ≤ 65535
    · rw [if_pos basic, if_pos (by omega)]
      rfl
    · rw [if_neg basic, if_pos (by omega)]
      rfl

/-- Whatever the bytes are, what comes out is a text in UTF-16: there is no half of a pair. -/
theorem utf16_of_bytes (bytes : List UInt8) :
    ∃ text : List Char, utf8ToRawBEUTF16 bytes = (text.flatMap utf16).map htons := by
  fun_induction utf8ToRawBEUTF16 bytes with
  | case1 => exact ⟨[], rfl⟩
  | case2 => exact ⟨[], rfl⟩
  | case3 => exact ⟨[], rfl⟩
  | case4 source rest extra enough legal ih =>
    obtain ⟨text, later⟩ := ih
    obtain ⟨c, first⟩ := exists_units (codePoint (source :: rest.take extra))
    refine ⟨c :: text, ?_⟩
    rw [first, later, List.flatMap_cons, List.map_append]

end KeenTrader.Api
