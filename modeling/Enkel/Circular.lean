import Mathlib.Data.Nat.ModEq
import Mathlib.Data.List.Basic
import Mathlib.Logic.Function.Basic

/-!
Windows of a circular array: so many elements from a start on, where index 0 follows
the last one. A window in an array of `n` places has at most `n` elements.
-/
namespace Enkel.Circular

variable {α : Type} {n : ℕ}

/-- The `count` elements from `start` on. -/
def window (f : ℕ → α) (n start count : ℕ) : List α :=
  (List.range count).map fun i => f ((start + i) % n)

/-- So many elements in a row, without a wrap. -/
def segment (f : ℕ → α) (start count : ℕ) : List α :=
  (List.range count).map fun i => f (start + i)

variable (f : ℕ → α) (n) (start count : ℕ)

@[simp] theorem window_zero : window f n start 0 = [] := rfl

@[simp] theorem length_window : (window f n start count).length = count := by
  simp [window]

@[simp] theorem length_segment : (segment f start count).length = count := by
  simp [segment]

theorem window_succ :
    window f n start (count + 1) = window f n start count ++ [f ((start + count) % n)] := by
  simp [window, List.range_succ]

theorem window_mod : window f n (start % n) count = window f n start count := by
  simp [window]

/-- A window is what it starts with and the window after that. -/
theorem window_add (k : ℕ) : window f n start (k + count) =
    window f n start k ++ window f n (start + k) count := by
  simp [window, List.range_add, Nat.add_assoc]

theorem window_cons :
    window f n start (count + 1) = f (start % n) :: window f n (start + 1) count := by
  rw [Nat.add_comm, window_add]
  rfl

variable {f n start count}

/-- A position in the array that wraps at most once. -/
theorem add_mod_wrapped (hstart : start < n) (hcount : count ≤ n) :
    (start + count) % n = if start + count < n then start + count else start + count - n := by
  split_ifs with h
  · exact Nat.mod_eq_of_lt h
  · rw [Nat.mod_eq_sub_mod (by omega), Nat.mod_eq_of_lt (by omega)]

theorem take_window {k : ℕ} (h : k ≤ count) :
    (window f n start count).take k = window f n start k := by
  obtain ⟨c, rfl⟩ := Nat.exists_eq_add_of_le h
  rw [window_add]
  apply List.take_left'
  simp

theorem drop_window {k : ℕ} (h : k ≤ count) :
    (window f n start count).drop k = window f n (start + k) (count - k) := by
  obtain ⟨c, rfl⟩ := Nat.exists_eq_add_of_le h
  rw [window_add, Nat.add_sub_cancel_left]
  apply List.drop_left'
  simp

/-- A write behind a window that leaves room for it does not change the window. -/
theorem window_update (h : count < n) (x : α) :
    window (Function.update f ((start + count) % n) x) n start count = window f n start count := by
  apply List.map_congr_left
  intro i hi
  have hi : i < count := List.mem_range.mp hi
  apply Function.update_of_ne
  intro heq
  have hmod : i % n = count % n := Nat.ModEq.add_left_cancel' start heq
  rw [Nat.mod_eq_of_lt (by omega), Nat.mod_eq_of_lt h] at hmod
  omega

/-- A write behind a window makes it longer by the element written. -/
theorem window_write (h : count < n) (x : α) :
    window (Function.update f ((start + count) % n) x) n start (count + 1) =
      window f n start count ++ [x] := by
  rw [window_succ, window_update h, Function.update_self]

theorem window_eq_segment (h : start + count ≤ n) :
    window f n start count = segment f start count := by
  apply List.map_congr_left
  intro i hi
  have hi : i < count := List.mem_range.mp hi
  rw [Nat.mod_eq_of_lt (by omega)]

/-- A window that reaches the end of the array goes on at its start. -/
theorem window_wrapped (hstart : start < n) (hend : n ≤ start + count) (hcount : count ≤ n) :
    window f n start count = segment f start (n - start) ++ segment f 0 (count - (n - start)) := by
  obtain ⟨c, rfl⟩ := Nat.exists_eq_add_of_le (show n - start ≤ count by omega)
  have hpast : start + (n - start) = n := by omega
  rw [window_add, window_eq_segment (by omega), Nat.add_sub_cancel_left, hpast,
    ← window_mod, Nat.mod_self, window_eq_segment (by omega)]

end Enkel.Circular
