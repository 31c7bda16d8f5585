import Mathlib.Data.Nat.Bitwise
import Mathlib.Tactic.Ring

/-!
Bit masks on natural numbers that stand for machine words. A mask of
consecutive ones keeps one digit group; joining a block address with flags
below the block size is an addition. The lemmas turn the bit operations of an
implementation into quotients and remainders, where linear arithmetic applies.
-/
namespace Enkel.Words

/-- The bits from `k` up to `n`, as a word. -/
def span (n k : ℕ) : ℕ := 2 ^ n - 2 ^ k

theorem span_eq {n k : ℕ} (h : k ≤ n) : span n k = (2 ^ (n - k) - 1) * 2 ^ k := by
  unfold span
  rw [Nat.sub_mul, Nat.one_mul, ← pow_add, Nat.sub_add_cancel h]

theorem testBit_span {n k i : ℕ} (h : k ≤ n) :
    (span n k).testBit i = (decide (k ≤ i) && decide (i < n)) := by
  rw [span_eq h, Nat.testBit_mul_two_pow, Nat.testBit_two_pow_sub_one]
  by_cases hk : k ≤ i
  · have hiff : i - k < n - k ↔ i < n := by omega
    simp [hk, hiff]
  · simp [hk]

/-- Masking with consecutive ones keeps the digits from `k` up to `n` in place. -/
theorem and_span (x : ℕ) {n k : ℕ} (h : k ≤ n) :
    x &&& span n k = x / 2 ^ k % 2 ^ (n - k) * 2 ^ k := by
  apply Nat.eq_of_testBit_eq
  intro i
  rw [Nat.testBit_and, testBit_span h, Nat.testBit_mul_two_pow, Nat.testBit_mod_two_pow]
  by_cases hk : k ≤ i
  · have hiff : i - k < n - k ↔ i < n := by omega
    have hadd : i - k + k = i := Nat.sub_add_cancel hk
    rw [Nat.testBit_div_two_pow, hadd]
    simp [hk, hiff, Bool.and_comm]
  · simp [hk]

/-- Joining a multiple of `2 ^ k` with bits below `2 ^ k` is addition. -/
theorem or_of_dvd {a b k : ℕ} (ha : 2 ^ k ∣ a) (hb : b < 2 ^ k) : a ||| b = a + b := by
  obtain ⟨q, rfl⟩ := ha
  exact (Nat.two_pow_add_eq_or_of_lt hb q).symm

/-- A single-bit test reads the parity of the shifted word. -/
theorem and_two_pow (x i : ℕ) : x &&& 2 ^ i = x / 2 ^ i % 2 * 2 ^ i := by
  have hspan : span (i + 1) i = 2 ^ i := by
    unfold span
    rw [pow_succ]
    omega
  have h := and_span x (Nat.le_succ i)
  rw [Nat.succ_eq_add_one, hspan, Nat.add_sub_cancel_left] at h
  simpa using h

end Enkel.Words
