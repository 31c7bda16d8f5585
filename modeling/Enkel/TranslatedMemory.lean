import Mathlib.Algebra.Ring.Nat
import Mathlib.Data.Nat.Init
import Mathlib.Logic.Function.Basic
import Mathlib.Tactic.SplitIfs

/-!
Stores through a translation. The bytes of a range are written one after the
other, each to the place that its address translates to, and the first address
without a translation stops the store. Where the translation only shifts a
range, the store overlays its image.
-/
namespace Enkel.TranslatedMemory

/-- Write `n` bytes, each computed from its number; `none` is a page fault. -/
def storeBytes (translate : ℕ → Option ℕ) (dest : ℕ) (f : ℕ → UInt8) :
    (n : ℕ) → (ℕ → UInt8) → Option (ℕ → UInt8)
  | 0, ram => some ram
  | n + 1, ram => do
    let ram ← storeBytes translate dest f n ram
    let x ← translate ((dest + n) % 2 ^ 64)
    return Function.update ram x (f n)

def loadByte (translate : ℕ → Option ℕ) (ram : ℕ → UInt8) (address : ℕ) : Option UInt8 :=
  (translate address).map ram

/-- The memory with `n` bytes from `start` on replaced. -/
def overlay (start : ℕ) (f : ℕ → UInt8) (n : ℕ) (ram : ℕ → UInt8) (x : ℕ) : UInt8 :=
  if start ≤ x ∧ x < start + n then f (x - start) else ram x

/-- The translation shifts the `n` addresses from `v` on to `p`. -/
def Linear (translate : ℕ → Option ℕ) (v p n : ℕ) : Prop :=
  ∀ i < n, translate ((v + i) % 2 ^ 64) = some (p + i)

section Overlay
variable {start n i : ℕ} {f : ℕ → UInt8} {ram : ℕ → UInt8}

@[simp] theorem overlay_zero : overlay start f 0 ram = ram := by
  funext x
  unfold overlay
  rw [if_neg]
  omega

@[simp] theorem overlay_add :
    overlay start f n ram (start + i) = if i < n then f i else ram (start + i) := by
  unfold overlay
  by_cases h : i < n
  · rw [if_pos ⟨by omega, by omega⟩, if_pos h, Nat.add_sub_cancel_left]
  · rw [if_neg (by omega), if_neg h]

theorem update_overlay : Function.update (overlay start f n ram) (start + n) (f n) =
    overlay start f (n + 1) ram := by
  funext x
  by_cases h : x = start + n
  · rw [h, Function.update_self, overlay_add, if_pos (Nat.lt_succ_self n)]
  · rw [Function.update_of_ne h]
    unfold overlay
    split_ifs <;> first | rfl | omega

end Overlay

section Store
variable {translate : ℕ → Option ℕ} {dest p n : ℕ} {f : ℕ → UInt8} {ram ram' : ℕ → UInt8}

/-- A store succeeds exactly when every address of its range is translated. -/
theorem storeBytes_isSome_iff :
    (storeBytes translate dest f n ram).isSome ↔
      ∀ i < n, (translate ((dest + i) % 2 ^ 64)).isSome := by
  induction n with
  | zero => simp [storeBytes]
  | succ n ih =>
    have hlast : (∀ i < n + 1, (translate ((dest + i) % 2 ^ 64)).isSome) ↔
        (∀ i < n, (translate ((dest + i) % 2 ^ 64)).isSome) ∧
          (translate ((dest + n) % 2 ^ 64)).isSome := Nat.forall_lt_succ_right
    rw [hlast, ← ih, storeBytes]
    cases storeBytes translate dest f n ram with
    | none => simp
    | some ram =>
      cases translate ((dest + n) % 2 ^ 64) with
      | none => simp
      | some x => simp

/-- Through a shift, a store overlays the image of its range. -/
theorem Linear.storeBytes (h : Linear translate dest p n) (f : ℕ → UInt8) (ram : ℕ → UInt8) :
    storeBytes translate dest f n ram = some (overlay p f n ram) := by
  induction n with
  | zero => simp [TranslatedMemory.storeBytes]
  | succ n ih =>
    have hrest : Linear translate dest p n := fun i hi => h i (Nat.lt_succ_of_lt hi)
    rw [TranslatedMemory.storeBytes, ih hrest, h n (Nat.lt_succ_self n)]
    simp [update_overlay]

theorem Linear.mono {m : ℕ} (h : Linear translate dest p n) (hle : m ≤ n) :
    Linear translate dest p m := fun i hi => h i (Nat.lt_of_lt_of_le hi hle)

end Store

end Enkel.TranslatedMemory
