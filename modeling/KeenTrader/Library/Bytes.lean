import Mathlib

/-!
# Bytes and buffers

Bytes by their bits, and buffers of a fixed size. An access to a buffer has to lie inside of it;
whatever makes an access outside has no result.
-/

namespace Bytes

/-! ## Bits -/

theorem testBit_toNat_of_le (a : UInt8) {i : ℕ} (high : 8 ≤ i) : a.toNat.testBit i = false :=
  Nat.testBit_lt_two_pow (a.toNat_lt.trans_le (Nat.pow_le_pow_right (by decide) high))

/-- Bytes with the same eight bits are the same. -/
theorem eq_of_testBit {a b : UInt8}
    (same : ∀ i < 8, a.toNat.testBit i = b.toNat.testBit i) : a = b := by
  apply UInt8.toNat_inj.mp
  apply Nat.eq_of_testBit_eq
  intro i
  rcases lt_or_ge i 8 with low | high
  · exact same i low
  · rw [testBit_toNat_of_le a high, testBit_toNat_of_le b high]

@[simp] theorem testBit_ofNat (n i : ℕ) :
    (UInt8.ofNat n).toNat.testBit i = (decide (i < 8) && n.testBit i) := by
  rw [UInt8.toNat_ofNat', Nat.testBit_mod_two_pow]

@[simp] theorem testBit_or (a b : UInt8) (i : ℕ) :
    (a ||| b).toNat.testBit i = (a.toNat.testBit i || b.toNat.testBit i) := by
  rw [UInt8.toNat_or, Nat.testBit_or]

/-! ## Buffers -/

variable {α : Type*} {buf buf' done tail : List α} {i : ℕ} {f : α → α} {a : α}

/-- Change what is at a position. -/
def update (buf : List α) (i : ℕ) (f : α → α) : Option (List α) :=
  if i < buf.length then some (buf.modify i f) else none

/-- Write to a position. -/
def write (buf : List α) (i : ℕ) (a : α) : Option (List α) := update buf i fun _ => a

/-- Cut a buffer, or fill it up. -/
def resize (buf : List α) (n : ℕ) (fill : α) : List α :=
  buf.take n ++ List.replicate (n - buf.length) fill

theorem update_append (done : List α) (a : α) (tail : List α) (f : α → α) :
    update (done ++ a :: tail) done.length f = some (done ++ f a :: tail) := by
  have modified : (done ++ a :: tail).modify done.length f = done ++ f a :: tail := by
    induction done with
    | nil => rfl
    | cons b done ih => simpa using ih
  rw [update, if_pos (by simp), modified]

theorem write_append (done : List α) (a b : α) (tail : List α) :
    write (done ++ a :: tail) done.length b = some (done ++ b :: tail) :=
  update_append done a tail _

theorem exists_update (inside : i < buf.length) (f : α → α) :
    ∃ buf', update buf i f = some buf' ∧ buf'.length = buf.length :=
  ⟨_, if_pos inside, List.length_modify ..⟩

theorem resize_append (done tail : List α) (fill : α) :
    resize (done ++ tail) done.length fill = done := by
  simp [resize]

end Bytes
