import Mathlib.Logic.Function.Basic
import Mathlib.Tactic.Ring

/-!
Byte memories addressed by 64-bit words, with the loops that copy and set a
range, and little-endian numbers. Addresses wrap around. A copy between ranges
that do not meet reads what was there before, and a word that was written reads
as its number.
-/
namespace Enkel.ByteMemory

/-- Copy `n` bytes, one after the other from the lowest on. -/
def copyBytes (dest src : ℕ) : (n : ℕ) → (ℕ → UInt8) → ℕ → UInt8
  | 0, b => b
  | n + 1, b =>
    let b := copyBytes dest src n b
    Function.update b ((dest + n) % 2 ^ 64) (b ((src + n) % 2 ^ 64))

/-- Set `n` bytes to one value. -/
def setBytes (dest : ℕ) (value : UInt8) : (n : ℕ) → (ℕ → UInt8) → ℕ → UInt8
  | 0, b => b
  | n + 1, b => Function.update (setBytes dest value n b) ((dest + n) % 2 ^ 64) value

/-- Write `n` bytes, each computed from its number. -/
def writeBytes (dest : ℕ) (f : ℕ → UInt8) : (n : ℕ) → (ℕ → UInt8) → ℕ → UInt8
  | 0, b => b
  | n + 1, b => Function.update (writeBytes dest f n b) ((dest + n) % 2 ^ 64) (f n)

/-- Byte `i` of a little-endian number. -/
def digit (value i : ℕ) : UInt8 := UInt8.ofNat (value / 256 ^ i)

/-- Write the little-endian number of `n` bytes. -/
def writeWord (dest value n : ℕ) : (ℕ → UInt8) → ℕ → UInt8 := writeBytes dest (digit value) n

/-- The little-endian number of `n` bytes. -/
def readWord (b : ℕ → UInt8) (address : ℕ) : (n : ℕ) → ℕ
  | 0 => 0
  | n + 1 => readWord b address n + 256 ^ n * (b ((address + n) % 2 ^ 64)).toNat

/-- How far an address lies behind the start of a range. -/
def offset (start address : ℕ) : ℕ := (address + (2 ^ 64 - start % 2 ^ 64)) % 2 ^ 64

variable {dest src n address : ℕ} {value : UInt8} {b b' : ℕ → UInt8}

theorem offset_lt (start address : ℕ) : offset start address < 2 ^ 64 :=
  Nat.mod_lt _ (Nat.two_pow_pos 64)

/-- The offset of an address is the only small number that leads to it. -/
theorem offset_eq_iff {start i : ℕ} (ha : address < 2 ^ 64) (hi : i < 2 ^ 64) :
    offset start address = i ↔ address = (start + i) % 2 ^ 64 := by
  unfold offset
  omega

theorem offset_of_le {start : ℕ} (hle : start ≤ address) (ha : address < 2 ^ 64) :
    offset start address = address - start := by
  unfold offset
  omega

/-- A range that does not wrap around. -/
theorem offset_lt_iff {start : ℕ} (hend : start + n ≤ 2 ^ 64) (ha : address < 2 ^ 64) :
    offset start address < n ↔ start ≤ address ∧ address < start + n := by
  unfold offset
  omega

/-- Every address in the range is written, and nothing else. -/
theorem writeBytes_eq {f : ℕ → UInt8} (hn : n ≤ 2 ^ 64) (ha : address < 2 ^ 64) :
    writeBytes dest f n b address =
      if offset dest address < n then f (offset dest address) else b address := by
  induction n with
  | zero => rfl
  | succ n ih =>
    unfold writeBytes
    by_cases h : address = (dest + n) % 2 ^ 64
    · have hoff : offset dest address = n := (offset_eq_iff ha (by omega)).mpr h
      rw [h, Function.update_self, ← h, hoff, if_pos (Nat.lt_succ_self n)]
    · have hoff : offset dest address ≠ n := fun heq => h ((offset_eq_iff ha (by omega)).mp heq)
      rw [Function.update_of_ne h, ih (by omega)]
      split_ifs <;> first | rfl | omega

/-- A range is set by writing the same byte everywhere. -/
theorem setBytes_eq_writeBytes : setBytes dest value n b = writeBytes dest (fun _ => value) n b := by
  induction n with
  | zero => rfl
  | succ n ih =>
    unfold setBytes writeBytes
    rw [ih]

/-- Every address in the range is set, and nothing else. -/
theorem setBytes_eq (hn : n ≤ 2 ^ 64) (ha : address < 2 ^ 64) :
    setBytes dest value n b address = if offset dest address < n then value else b address := by
  rw [setBytes_eq_writeBytes, writeBytes_eq hn ha]

/-- What a range held before does not matter once it is written. -/
theorem writeBytes_congr {f : ℕ → UInt8} {a : ℕ}
    (h : (∀ i < n, a ≠ (dest + i) % 2 ^ 64) → b a = b' a) :
    writeBytes dest f n b a = writeBytes dest f n b' a := by
  induction n with
  | zero => exact h fun i hi => absurd hi (Nat.not_lt_zero i)
  | succ n ih =>
    unfold writeBytes
    by_cases ha : a = (dest + n) % 2 ^ 64
    · rw [ha, Function.update_self, Function.update_self]
    · rw [Function.update_of_ne ha, Function.update_of_ne ha]
      refine ih fun hout => h fun i hi => ?_
      rcases Nat.lt_succ_iff_lt_or_eq.mp hi with hlt | rfl
      · exact hout i hlt
      · exact ha

theorem copyBytes_of_le (hn : n ≤ 2 ^ 64) (ha : address < 2 ^ 64)
    (hout : n ≤ offset dest address) : copyBytes dest src n b address = b address := by
  induction n with
  | zero => rfl
  | succ n ih =>
    have hne : address ≠ (dest + n) % 2 ^ 64 := fun heq => by
      have := (offset_eq_iff ha (by omega)).mpr heq
      omega
    unfold copyBytes
    simp only [Function.update_of_ne hne]
    exact ih (by omega) (by omega)

/-- A copy between ranges that do not meet. -/
theorem copyBytes_eq (hn : n ≤ 2 ^ 64) (ha : address < 2 ^ 64)
    (hsep : ∀ i < n, ∀ j < n, (dest + i) % 2 ^ 64 ≠ (src + j) % 2 ^ 64) :
    copyBytes dest src n b address =
      if offset dest address < n then b ((src + offset dest address) % 2 ^ 64) else b address := by
  induction n generalizing address with
  | zero => rfl
  | succ n ih =>
    have ih' := fun {address : ℕ} (ha : address < 2 ^ 64) => ih (by omega) ha
      fun i hi j hj => hsep i (by omega) j (by omega)
    unfold copyBytes
    by_cases h : address = (dest + n) % 2 ^ 64
    · have hoff : offset dest address = n := (offset_eq_iff ha (by omega)).mpr h
      -- the source byte was not written by the copy so far
      have hsrc : ¬ offset dest ((src + n) % 2 ^ 64) < n := fun hlt =>
        hsep _ (by omega) n (by omega)
          ((offset_eq_iff (Nat.mod_lt _ (Nat.two_pow_pos 64)) (offset_lt _ _)).mp rfl).symm
      rw [hoff, if_pos (Nat.lt_succ_self n), h]
      simp only [Function.update_self]
      rw [ih' (Nat.mod_lt _ (Nat.two_pow_pos 64)), if_neg hsrc]
    · have hoff : offset dest address ≠ n := fun heq => h ((offset_eq_iff ha (by omega)).mp heq)
      simp only [Function.update_of_ne h]
      rw [ih' ha]
      split_ifs <;> first | rfl | omega

theorem readWord_congr {address' : ℕ}
    (h : ∀ i < n, b ((address + i) % 2 ^ 64) = b' ((address' + i) % 2 ^ 64)) :
    readWord b address n = readWord b' address' n := by
  induction n with
  | zero => rfl
  | succ n ih =>
    unfold readWord
    rw [ih fun i hi => h i (by omega), h n (by omega)]

theorem readWord_lt : readWord b address n < 256 ^ n := by
  induction n with
  | zero => exact Nat.one_pos
  | succ n ih =>
    have hbyte := (b ((address + n) % 2 ^ 64)).toNat_lt
    unfold readWord
    calc readWord b address n + 256 ^ n * (b ((address + n) % 2 ^ 64)).toNat
        < 256 ^ n + 256 ^ n * (b ((address + n) % 2 ^ 64)).toNat := Nat.add_lt_add_right ih _
      _ = 256 ^ n * ((b ((address + n) % 2 ^ 64)).toNat + 1) := by ring
      _ ≤ 256 ^ n * 256 := Nat.mul_le_mul_left _ hbyte
      _ = 256 ^ (n + 1) := (pow_succ 256 n).symm

/-- The offset of an address that is given by its distance from the start. -/
theorem offset_add {start i : ℕ} (hi : i < 2 ^ 64) : offset start ((start + i) % 2 ^ 64) = i :=
  (offset_eq_iff (Nat.mod_lt _ (Nat.two_pow_pos 64)) hi).mpr rfl

/-- A word reads as the number whose bytes are stored there. -/
theorem readWord_of_digits {value : ℕ}
    (h : ∀ i < n, b ((address + i) % 2 ^ 64) = digit value i) :
    readWord b address n = value % 256 ^ n := by
  induction n with
  | zero => exact (Nat.mod_one value).symm
  | succ n ih =>
    have hbyte : (digit value n).toNat = value / 256 ^ n % 256 := by
      show (value / 256 ^ n) % 2 ^ 8 = _
      rfl
    unfold readWord
    rw [ih fun i hi => h i (by omega), h n (by omega), hbyte, pow_succ, Nat.mod_mul]

/-- What is written as a word reads as this word. -/
theorem readWord_writeWord {value : ℕ} (hn : n ≤ 2 ^ 64) :
    readWord (writeWord dest value n b) dest n = value % 256 ^ n := by
  apply readWord_of_digits
  intro i hi
  unfold writeWord
  rw [writeBytes_eq hn (Nat.mod_lt _ (Nat.two_pow_pos 64)), offset_add (by omega), if_pos hi]

/-- Two ranges determine their lengths. -/
theorem length_unique {start n' : ℕ} (hn : n < 2 ^ 64) (hn' : n' < 2 ^ 64)
    (h : ∀ a < 2 ^ 64, offset start a < n ↔ offset start a < n') : n = n' := by
  have hat : ∀ i < 2 ^ 64, i < n ↔ i < n' := by
    intro i hi
    have := h _ (Nat.mod_lt (start + i) (Nat.two_pow_pos 64))
    rwa [offset_add hi] at this
  have hle := hat n hn
  have hge := hat n' hn'
  omega

end Enkel.ByteMemory
