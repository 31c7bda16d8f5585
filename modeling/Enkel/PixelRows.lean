import Mathlib.Data.Int.Basic
import Mathlib.Tactic.Linarith
import Mathlib.Tactic.Ring

/-!
A framebuffer as an array of words, and the position of a pixel in it. Rows and columns are
computed in 32 bits with a sign, positions in 32 bits without one.
-/
namespace Enkel.Framebuffer

/-- The int32_t with the same low bits. -/
def int32 (v : ℤ) : ℤ := v.bmod (2 ^ 32)

/-- The uint32_t with the same low bits. -/
def uint32 (v : ℤ) : ℕ := (v % 2 ^ 32).toNat

theorem int32_of_between {v : ℤ} (hlo : -2 ^ 31 ≤ v) (hhi : v < 2 ^ 31) : int32 v = v := by
  unfold int32
  exact Int.bmod_eq_of_le (by omega) (by omega)

theorem int32_lt (v : ℤ) : int32 v < 2 ^ 31 := by
  have hlt := Int.bmod_lt (x := v) (m := 2 ^ 32) (by decide)
  unfold int32
  omega

theorem uint32_natCast {n : ℕ} (h : n < 2 ^ 32) : uint32 n = n := by
  unfold uint32
  omega

theorem int32_emod (v : ℤ) : int32 v % 2 ^ 32 = v % 2 ^ 32 := Int.bmod_emod

/-- A framebuffer, without the address of its words. -/
structure FramebufferLayout where
  width : ℕ
  height : ℕ
  pitch : ℕ
  width_lt : width < 2 ^ 32
  height_lt : height < 2 ^ 32
  pitch_lt : pitch < 2 ^ 32

namespace FramebufferLayout
variable (framebuffer : FramebufferLayout)

/-- The words from a row to the next. -/
def quadPitch : ℕ := framebuffer.pitch / 4

theorem quadPitch_lt : framebuffer.quadPitch < 2 ^ 30 := by
  have hlt := framebuffer.pitch_lt
  unfold quadPitch
  omega

/-- The pixel in a row and a column is in the framebuffer, and has this position. -/
structure Pixel (row column : ℤ) (position : ℕ) : Prop where
  row_nonneg : 0 ≤ row
  row_lt : row < framebuffer.height
  column_nonneg : 0 ≤ column
  column_lt : column < framebuffer.width
  position_eq : (position : ℤ) = row * framebuffer.quadPitch + column

end FramebufferLayout

variable {framebuffer : FramebufferLayout} {row column : ℤ} {position : ℕ}

/-- The last row and the last column bound the position. -/
theorem position_lt (hwidth : framebuffer.width ≤ framebuffer.quadPitch)
    (hrow : row < framebuffer.height) (hcolumn : column < framebuffer.width) :
    row * framebuffer.quadPitch + column < framebuffer.height * framebuffer.quadPitch := by
  have hnext : (row + 1) * framebuffer.quadPitch ≤ framebuffer.height * framebuffer.quadPitch :=
    mul_le_mul_of_nonneg_right hrow (Int.natCast_nonneg _)
  have hle : (framebuffer.width : ℤ) ≤ framebuffer.quadPitch := by exact_mod_cast hwidth
  rw [add_mul, one_mul] at hnext
  omega

theorem FramebufferLayout.Pixel.position_lt (h : framebuffer.Pixel row column position)
    (hwidth : framebuffer.width ≤ framebuffer.quadPitch) :
    position < framebuffer.height * framebuffer.quadPitch := by
  have hlt := Framebuffer.position_lt hwidth h.row_lt h.column_lt
  rw [← h.position_eq] at hlt
  exact_mod_cast hlt

/-- In a framebuffer that is not too large the position is found in 32 bits. -/
theorem pixel_iff (hwidth : framebuffer.width ≤ framebuffer.quadPitch)
    (hsize : framebuffer.height * framebuffer.quadPitch < 2 ^ 31) :
    framebuffer.Pixel row column position ↔
      (0 ≤ row ∧ row < framebuffer.height) ∧ (0 ≤ column ∧ column < framebuffer.width) ∧
        position = uint32 (row * framebuffer.quadPitch + column) := by
  constructor
  · intro h
    have hlt := h.position_lt hwidth
    refine ⟨⟨h.row_nonneg, h.row_lt⟩, ⟨h.column_nonneg, h.column_lt⟩, ?_⟩
    rw [← h.position_eq, uint32_natCast (by omega)]
  · rintro ⟨hrow, hcolumn, rfl⟩
    refine ⟨hrow.1, hrow.2, hcolumn.1, hcolumn.2, ?_⟩
    have hlt := Framebuffer.position_lt hwidth hrow.2 hcolumn.2
    have hnonneg : 0 ≤ row * framebuffer.quadPitch := mul_nonneg hrow.1 (Int.natCast_nonneg _)
    have hbound : (framebuffer.height * framebuffer.quadPitch : ℤ) < 2 ^ 31 := by
      exact_mod_cast hsize
    unfold uint32
    omega

section Clip
variable {x y : ℤ}

/-- The test of a column. -/
theorem column_iff (hwidth : framebuffer.width ≤ framebuffer.quadPitch) (hlo : -2 ^ 31 ≤ x)
    (hhi : x < 2 ^ 31) :
    (¬ int32 x < 0 ∧ ¬ int32 x ≥ int32 framebuffer.width) ↔ 0 ≤ x ∧ x < framebuffer.width := by
  have hlt := framebuffer.quadPitch_lt
  rw [int32_of_between hlo hhi, int32_of_between (v := framebuffer.width) (by omega) (by omega)]
  omega

/-- The test of a row, in a framebuffer that has a column. -/
theorem row_iff (hsize : framebuffer.height * framebuffer.quadPitch < 2 ^ 31)
    (hpos : 0 < framebuffer.quadPitch) (hlo : -2 ^ 31 ≤ y) (hhi : y < 2 ^ 31) :
    (¬ int32 y < 0 ∧ ¬ int32 y ≥ int32 framebuffer.height) ↔ 0 ≤ y ∧ y < framebuffer.height := by
  have hle : framebuffer.height ≤ framebuffer.height * framebuffer.quadPitch :=
    Nat.le_mul_of_pos_right _ hpos
  rw [int32_of_between hlo hhi, int32_of_between (v := framebuffer.height) (by omega) (by omega)]
  omega

end Clip

end Enkel.Framebuffer
