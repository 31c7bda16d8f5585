import Mathlib.Algebra.Order.Group.Nat
import Mathlib.Tactic.Ring
import Mathlib.Data.Nat.ModEq

/-!
Rounding a number up to a multiple. The result is the least multiple that is not
below the number, and rounding commutes with the addition of a multiple.
-/
namespace Enkel.Rounding

/-- The least multiple of `a` that is not below `n`. -/
def roundUp (n a : ℕ) : ℕ := (n + (a - 1)) / a * a

variable {n m a : ℕ}

theorem dvd_roundUp (n a : ℕ) : a ∣ roundUp n a := Nat.dvd_mul_left a _

theorem le_roundUp (ha : 0 < a) : n ≤ roundUp n a := by
  have hdiv := Nat.div_add_mod (n + (a - 1)) a
  have hmod := Nat.mod_lt (n + (a - 1)) ha
  unfold roundUp
  rw [Nat.mul_comm]
  omega

theorem roundUp_lt (ha : 0 < a) : roundUp n a < n + a := by
  have hle := Nat.div_mul_le_self (n + (a - 1)) a
  unfold roundUp
  omega

/-- No multiple lies between the number and the result. -/
theorem roundUp_le (hm : a ∣ m) (h : n ≤ m) : roundUp n a ≤ m := by
  obtain ⟨q, rfl⟩ := hm
  rcases Nat.eq_zero_or_pos a with rfl | ha
  · simp [roundUp]
  · unfold roundUp
    rw [Nat.mul_comm a q]
    apply Nat.mul_le_mul_right
    apply Nat.le_of_lt_succ
    apply (Nat.div_lt_iff_lt_mul ha).mpr
    calc n + (a - 1) < a * q + a := by omega
      _ = (q + 1) * a := by ring

theorem roundUp_of_dvd (ha : 0 < a) (h : a ∣ n) : roundUp n a = n :=
  le_antisymm (roundUp_le h le_rfl) (le_roundUp ha)

theorem roundUp_eq_self_iff (ha : 0 < a) : roundUp n a = n ↔ a ∣ n := by
  constructor
  · intro h
    rw [← h]
    exact dvd_roundUp n a
  · exact roundUp_of_dvd ha

theorem roundUp_zero (a : ℕ) : roundUp 0 a = 0 := by
  rcases Nat.eq_zero_or_pos a with rfl | ha
  · rfl
  · exact roundUp_of_dvd ha (dvd_zero a)

theorem roundUp_one (n : ℕ) : roundUp n 1 = n := roundUp_of_dvd Nat.one_pos (one_dvd n)

theorem roundUp_add (ha : 0 < a) (hm : a ∣ m) : roundUp (m + n) a = m + roundUp n a := by
  apply le_antisymm
  · exact roundUp_le (Nat.dvd_add hm (dvd_roundUp n a)) (Nat.add_le_add_left (le_roundUp ha) m)
  · have hle : n ≤ roundUp (m + n) a - m := by
      have := le_roundUp (n := m + n) ha
      omega
    have hdvd := roundUp_le (Nat.dvd_sub (dvd_roundUp (m + n) a) hm) hle
    have := le_roundUp (n := m + n) ha
    omega

theorem roundUp_eq_zero_iff (ha : 0 < a) : roundUp n a = 0 ↔ n = 0 := by
  constructor
  · intro h
    have := le_roundUp (n := n) ha
    omega
  · rintro rfl
    exact roundUp_zero a

/-- Keeping the high bits of a word of `w` bits rounds it up, or the sum wraps around. -/
theorem and_mask {w k : ℕ} (hk : k ≤ w) (hn : n < 2 ^ w) :
    (n + (2 ^ k - 1)) % 2 ^ w / 2 ^ k * 2 ^ k =
      if n + 2 ^ k ≤ 2 ^ w then roundUp n (2 ^ k) else 0 := by
  have hpos := Nat.two_pow_pos k
  have hle := Nat.pow_le_pow_right Nat.two_pos hk
  split_ifs with h
  · rw [Nat.mod_eq_of_lt (by omega)]
    rfl
  · have hwrap : (n + (2 ^ k - 1)) % 2 ^ w = n + (2 ^ k - 1) - 2 ^ w := by
      rw [Nat.mod_eq_sub_mod (by omega), Nat.mod_eq_of_lt (by omega)]
    rw [hwrap, Nat.div_eq_of_lt (by omega), Nat.zero_mul]

end Enkel.Rounding
