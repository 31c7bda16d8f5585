import Mathlib.Algebra.Order.Ring.Nat
import Mathlib.Tactic.Ring

/-!
Bit fields of a machine word. Writing a field keeps the bits below it and above
it, and takes the value modulo its width.
-/
namespace Enkel.BitFields

/-- The bits from `low` up to `low + width`. -/
def field (low width x : ℕ) : ℕ := x / 2 ^ low % 2 ^ width

/-- The word `x` with the bits from `low` up to `low + width` replaced by those of `v`. -/
def setField (low width v x : ℕ) : ℕ :=
  x % 2 ^ low + 2 ^ low * (v % 2 ^ width + 2 ^ width * (x / 2 ^ (low + width)))

variable (low width low' width' v x : ℕ)

theorem setField_mod : setField low width v x % 2 ^ low = x % 2 ^ low := by
  unfold setField
  rw [Nat.add_mul_mod_self_left, Nat.mod_mod]

/-- A word of `n` bits stays one. -/
theorem setField_lt {low width v x n : ℕ} (h : low + width ≤ n) (hx : x < 2 ^ n) :
    setField low width v x < 2 ^ n := by
  obtain ⟨k, rfl⟩ := Nat.exists_eq_add_of_le h
  have hlow : x % 2 ^ low < 2 ^ low := Nat.mod_lt _ (Nat.two_pow_pos _)
  have hv : v % 2 ^ width < 2 ^ width := Nat.mod_lt _ (Nat.two_pow_pos _)
  have hhigh : x / 2 ^ (low + width) < 2 ^ k := by
    apply Nat.div_lt_of_lt_mul
    rwa [← Nat.pow_add]
  unfold setField
  calc x % 2 ^ low + 2 ^ low * (v % 2 ^ width + 2 ^ width * (x / 2 ^ (low + width)))
      < 2 ^ low * (v % 2 ^ width + 2 ^ width * (x / 2 ^ (low + width)) + 1) := by
        rw [Nat.mul_succ]
        omega
    _ ≤ 2 ^ low * (2 ^ width * (x / 2 ^ (low + width) + 1)) := by
        apply Nat.mul_le_mul_left
        rw [Nat.mul_succ]
        omega
    _ ≤ 2 ^ low * (2 ^ width * 2 ^ k) :=
        Nat.mul_le_mul_left _ (Nat.mul_le_mul_left _ hhigh)
    _ = 2 ^ (low + width + k) := by
        rw [Nat.pow_add, Nat.pow_add, Nat.mul_assoc]

theorem setField_div :
    setField low width v x / 2 ^ low = v % 2 ^ width + 2 ^ width * (x / 2 ^ (low + width)) := by
  have hpos : 0 < 2 ^ low := Nat.two_pow_pos low
  unfold setField
  rw [Nat.add_mul_div_left _ _ hpos, Nat.div_eq_of_lt (Nat.mod_lt _ hpos), Nat.zero_add]

theorem setField_div_end :
    setField low width v x / 2 ^ (low + width) = x / 2 ^ (low + width) := by
  have hpos : 0 < 2 ^ width := Nat.two_pow_pos width
  rw [pow_add, ← Nat.div_div_eq_div_mul, setField_div, Nat.add_mul_div_left _ _ hpos,
    Nat.div_eq_of_lt (Nat.mod_lt _ hpos), Nat.zero_add, pow_add]

/-- What was written is read back, modulo the width of the field. -/
@[simp] theorem field_setField : field low width (setField low width v x) = v % 2 ^ width := by
  unfold field
  rw [setField_div, Nat.add_mul_mod_self_left, Nat.mod_mod]

variable {low width low' width'}

/-- A field depends on the bits up to its end only. -/
theorem field_mod (h : low' + width' ≤ low) :
    field low' width' (x % 2 ^ low) = field low' width' x := by
  have hsplit : ∀ y, field low' width' y = y % 2 ^ (low' + width') / 2 ^ low' := by
    intro y
    unfold field
    rw [pow_add, Nat.mod_mul_right_div_self]
  rw [hsplit, hsplit, Nat.mod_mod_of_dvd _ (pow_dvd_pow 2 h)]

/-- A field depends on the bits from its start on only. -/
theorem field_div (h : low ≤ low') :
    field (low' - low) width' (x / 2 ^ low) = field low' width' x := by
  unfold field
  rw [Nat.div_div_eq_div_mul, ← pow_add, Nat.add_sub_cancel' h]

/-- Writing a field keeps the fields below it. -/
theorem field_setField_of_le (h : low' + width' ≤ low) :
    field low' width' (setField low width v x) = field low' width' x := by
  rw [← field_mod _ h, setField_mod, field_mod _ h]

/-- Writing a field keeps the fields above it. -/
theorem field_setField_of_ge (h : low + width ≤ low') :
    field low' width' (setField low width v x) = field low' width' x := by
  rw [← field_div _ h, setField_div_end, field_div _ h]

end Enkel.BitFields
