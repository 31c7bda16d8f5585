import Mathlib.Algebra.Notation.Defs
import Mathlib.Data.List.Basic
import Mathlib.Data.List.TakeWhile
import Enkel.Outcome

/-!
Arrays of a fixed size that hold a string with a zero behind it. A copy stores one
character after the other, and fails at the first that has no place, so it succeeds
exactly when the string and its zero fit behind the place where it starts.
-/
namespace Enkel.TextArrays

open Outcome

variable {α ε : Type} {size : ℕ}

section Store

def store (overflow : ε) (i : ℕ) (c : α) (a : Vector α size) : Except ε (Vector α size) :=
  if h : i < size then .ok (a.set i c h) else .error overflow

variable {e : ε} {i : ℕ} {c : α} {a : Vector α size}

theorem store_of_lt (h : i < size) : store e i c a = .ok (a.set i c h) := dif_pos h

theorem store_of_le (h : size ≤ i) : store e i c a = .error e :=
  dif_neg (Nat.not_lt.mpr h)

theorem toList_set_eq (h : i < size) :
    (a.set i c h).toList = a.toList.take i ++ c :: a.toList.drop (i + 1) := by
  have hi : i < a.toList.length := by rwa [Vector.length_toList]
  rw [Vector.toList_set, List.set_eq_take_append_cons_drop, if_pos hi]

end Store

section Copy
variable [Zero α] (overflow : ε)

/-- The string and its zero, from an index on. -/
def copyFrom : (i : ℕ) → (src : List α) → Vector α size → Except ε (Vector α size)
  | i, [], a => store overflow i 0 a
  | i, c :: src, a => do
    let a ← store overflow i c a
    copyFrom (i + 1) src a

/-- The string that an array holds: what stands before its first zero. -/
def text [DecidableEq α] (a : Vector α size) : List α := a.toList.takeWhile (· ≠ 0)

def strcpy (src : List α) (dest : Vector α size) : Except ε (Vector α size) :=
  copyFrom overflow 0 src dest

def strcat [DecidableEq α] (src : List α) (dest : Vector α size) : Except ε (Vector α size) :=
  copyFrom overflow (text dest).length src dest

end Copy

variable [Zero α] {e : ε} {i : ℕ} {src : List α} {a : Vector α size}

/-- What fits is written, and the rest of the array stays. -/
theorem copyFrom_of_lt (h : i + src.length < size) : ∃ a', copyFrom e i src a = .ok a' ∧
    a'.toList = a.toList.take i ++ src ++ 0 :: a.toList.drop (i + src.length + 1) := by
  induction src generalizing i a with
  | nil => exact ⟨_, store_of_lt h, by rw [toList_set_eq, List.append_nil]; rfl⟩
  | cons c src ih =>
    rw [List.length_cons] at h
    have hi : i < size := by omega
    obtain ⟨a', hcopy, hlist⟩ := ih (a := a.set i c hi) (i := i + 1) (by omega)
    have hlen : (a.toList.take i).length = i := by
      rw [List.length_take, Vector.length_toList]
      omega
    refine ⟨a', ?_, ?_⟩
    · unfold copyFrom
      rw [store_of_lt hi]
      exact hcopy
    · have htake : (a.set i c hi).toList.take (i + 1) = a.toList.take i ++ [c] := by
        rw [toList_set_eq, ← List.singleton_append, ← List.append_assoc]
        exact List.take_left' (by rw [List.length_append, hlen]; rfl)
      have hdrop : (a.set i c hi).toList.drop (i + 1 + src.length + 1) =
          a.toList.drop (i + (c :: src).length + 1) := by
        rw [toList_set_eq, ← List.singleton_append, ← List.append_assoc, List.drop_append,
          List.drop_eq_nil_of_le, List.nil_append, List.drop_drop, List.length_append, hlen]
        · congr 1
          simp only [List.length_cons, List.length_nil]
          omega
        · simp only [List.length_append, hlen, List.length_cons, List.length_nil]
          omega
      rw [hlist, htake, hdrop]
      simp only [List.append_assoc, List.cons_append, List.nil_append]

/-- What does not fit ends with a store outside the array. -/
theorem copyFrom_of_le (h : size ≤ i + src.length) :
    copyFrom e i src a = .error e := by
  induction src generalizing i a with
  | nil => exact store_of_le h
  | cons c src ih =>
    unfold copyFrom
    by_cases hi : i < size
    · rw [store_of_lt hi]
      exact ih (by rw [List.length_cons] at h; omega)
    · rw [store_of_le (Nat.le_of_not_lt hi)]
      rfl

section Text
variable [DecidableEq α] {b : List α}

theorem takeWhile_zero (hb : ∀ c ∈ b, c ≠ 0) (l : List α) :
    (b ++ 0 :: l).takeWhile (· ≠ 0) = b := by
  rw [List.takeWhile_append_of_pos (by simpa using hb), List.takeWhile_cons_of_neg (by simp),
    List.append_nil]

/-- A string without zeros that fits is what the array holds then. -/
theorem strcpy_of_lt (h : src.length < size) (hsrc : ∀ c ∈ src, c ≠ 0) :
    ∃ a', strcpy e src a = .ok a' ∧ text a' = src := by
  obtain ⟨a', hcopy, hlist⟩ := copyFrom_of_lt (e := e) (i := 0) (a := a)
    (by rwa [Nat.zero_add])
  refine ⟨a', hcopy, ?_⟩
  unfold text
  rw [hlist]
  exact takeWhile_zero hsrc _

theorem text_ne_zero : ∀ c ∈ text a, c ≠ 0 := by
  intro c hc
  simpa using List.mem_takeWhile_imp hc

/-- A string is appended to the one that the array holds. -/
theorem strcat_of_lt (h : (text a).length + src.length < size) (hsrc : ∀ c ∈ src, c ≠ 0) :
    ∃ a', strcat e src a = .ok a' ∧ text a' = text a ++ src := by
  obtain ⟨a', hcopy, hlist⟩ := copyFrom_of_lt (e := e) (a := a) h
  have htake : a.toList.take (text a).length = text a :=
    (List.prefix_iff_eq_take.mp (List.takeWhile_prefix _)).symm
  refine ⟨a', hcopy, ?_⟩
  rw [text, hlist, htake]
  refine takeWhile_zero (fun c hc => ?_) _
  rcases List.mem_append.mp hc with hc | hc
  · exact text_ne_zero c hc
  · exact hsrc c hc

theorem strcat_of_le (h : size ≤ (text a).length + src.length) :
    strcat e src a = .error e := copyFrom_of_le h

end Text

end Enkel.TextArrays
