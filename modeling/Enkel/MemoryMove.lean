import Enkel.ByteMemory

/-!
memmove. The source and the destination may share bytes, so a step may write what a later one
would read. From the lower end on this does no harm when the source lies above the destination:
what has been written lies below all that is still to be read. From the upper end on it is the
other way round.
-/
namespace Enkel.MemoryMove

open ByteMemory

/-- The loop from the last byte to the first. -/
def copyBytesDown (dest src : ℕ) : (n : ℕ) → (ℕ → UInt8) → ℕ → UInt8
  | 0, b => b
  | n + 1, b =>
    copyBytesDown dest src n (Function.update b ((dest + n) % 2 ^ 64) (b ((src + n) % 2 ^ 64)))

/-- memmove: what it returns, and the memory. -/
def memmove (dest src n : ℕ) (b : ℕ → UInt8) : ℕ × (ℕ → UInt8) :=
  if src > dest then (dest, copyBytes dest src n b)
  else if src < dest then (dest, copyBytesDown dest src n b)
  else (dest, b)

/-- The destination holds what the source has held, and nothing else has changed. -/
structure Moved (dest src n : ℕ) (b b' : ℕ → UInt8) : Prop where
  moved : ∀ i < n, b' (dest + i) = b (src + i)
  kept : ∀ a, ¬ (dest ≤ a ∧ a < dest + n) → b' a = b a

section Loops
variable {dest src n : ℕ} {b b' b'' : ℕ → UInt8}

theorem Moved.zero : Moved dest src 0 b b :=
  ⟨fun i hi => absurd hi (Nat.not_lt_zero i), fun _ _ => rfl⟩

theorem Moved.self : Moved dest dest n b b :=
  ⟨fun _ _ => rfl, fun _ _ => rfl⟩

/-- There is only one memory to which the bytes are moved. -/
theorem Moved.unique (h : Moved dest src n b b') (h' : Moved dest src n b b'') : b' = b'' := by
  funext a
  by_cases ha : dest ≤ a ∧ a < dest + n
  · obtain ⟨i, rfl⟩ := Nat.exists_eq_add_of_le ha.1
    have hi : i < n := Nat.lt_of_add_lt_add_left ha.2
    rw [h.moved i hi, h'.moved i hi]
  · rw [h.kept a ha, h'.kept a ha]

/-- A step behind the bytes that have been moved, from below on. What it reads has not been
written: it lies above the destination so far, or below all of it. -/
theorem Moved.step_up (h : Moved dest src n b b') (hout : dest < src ∨ src + n < dest) :
    Moved dest src (n + 1) b (Function.update b' (dest + n) (b' (src + n))) := by
  have hread : b' (src + n) = b (src + n) := h.kept _ (by omega)
  constructor
  · intro i hi
    rcases Nat.lt_succ_iff_lt_or_eq.mp hi with hbefore | rfl
    · rw [Function.update_of_ne (by omega), h.moved i hbefore]
    · rw [Function.update_self, hread]
  · intro a ha
    rw [Function.update_of_ne (by omega)]
    exact h.kept a (by omega)

/-- A step in front of the bytes that are moved after it, from above on. What they read has not
been written by it: it lies below. -/
theorem Moved.step_down (hlt : src < dest)
    (h : Moved dest src n (Function.update b (dest + n) (b (src + n))) b') :
    Moved dest src (n + 1) b b' := by
  constructor
  · intro i hi
    rcases Nat.lt_succ_iff_lt_or_eq.mp hi with hbefore | rfl
    · rw [h.moved i hbefore, Function.update_of_ne (by omega)]
    · rw [h.kept _ (by omega), Function.update_self]
  · intro a ha
    rw [h.kept a (by omega), Function.update_of_ne (by omega)]

theorem copyBytes_moved (hdest : dest + n ≤ 2 ^ 64) (hsrc : src + n ≤ 2 ^ 64)
    (hout : dest < src ∨ src + n ≤ dest) : Moved dest src n b (copyBytes dest src n b) := by
  induction n with
  | zero => exact Moved.zero
  | succ n ih =>
    have hbefore := ih (by omega) (by omega) (by omega)
    have hstep := hbefore.step_up (by omega)
    unfold copyBytes
    dsimp only
    rw [Nat.mod_eq_of_lt (show dest + n < 2 ^ 64 by omega),
      Nat.mod_eq_of_lt (show src + n < 2 ^ 64 by omega)]
    exact hstep

theorem copyBytesDown_moved (hdest : dest + n ≤ 2 ^ 64) (hsrc : src + n ≤ 2 ^ 64)
    (hlt : src < dest) : Moved dest src n b (copyBytesDown dest src n b) := by
  induction n generalizing b with
  | zero => exact Moved.zero
  | succ n ih =>
    unfold copyBytesDown
    rw [Nat.mod_eq_of_lt (show dest + n < 2 ^ 64 by omega),
      Nat.mod_eq_of_lt (show src + n < 2 ^ 64 by omega)]
    exact Moved.step_down hlt (ih (by omega) (by omega))

end Loops

/-- For every contents of memory and ranges that do not wrap around, whatever bytes they share:
the destination holds what the source has held, and no other byte has changed. -/
theorem memmove_moved (dest src n : ℕ) (b : ℕ → UInt8) (hdest : dest + n ≤ 2 ^ 64)
    (hsrc : src + n ≤ 2 ^ 64) : Moved dest src n b (memmove dest src n b).2 := by
  unfold memmove
  split_ifs with habove hbelow
  · exact copyBytes_moved hdest hsrc (Or.inl habove)
  · exact copyBytesDown_moved hdest hsrc hbelow
  · obtain rfl : src = dest := by omega
    exact Moved.self

/-- Four bytes are moved up by one, and back. -/
theorem memmove_moved_overlapping :
    Moved 0x1001 0x1000 4 UInt8.ofNat (memmove 0x1001 0x1000 4 UInt8.ofNat).2 ∧
      Moved 0x1000 0x1001 4 UInt8.ofNat (memmove 0x1000 0x1001 4 UInt8.ofNat).2 :=
  ⟨memmove_moved 0x1001 0x1000 4 UInt8.ofNat (by decide) (by decide),
    memmove_moved 0x1000 0x1001 4 UInt8.ofNat (by decide) (by decide)⟩

/-- Where the ranges share no byte it does what a plain copy does. -/
theorem memmove_eq_copyBytes {dest src n : ℕ} {b : ℕ → UInt8} (hdest : dest + n ≤ 2 ^ 64)
    (hsrc : src + n ≤ 2 ^ 64) (hapart : dest + n ≤ src ∨ src + n ≤ dest) :
    (memmove dest src n b).2 = copyBytes dest src n b := by
  unfold memmove
  split_ifs with habove hbelow
  · rfl
  · have hup := copyBytes_moved (b := b) hdest hsrc (Or.inr (by omega))
    exact (copyBytesDown_moved hdest hsrc hbelow).unique hup
  · obtain rfl : n = 0 := by omega
    rfl

end Enkel.MemoryMove
