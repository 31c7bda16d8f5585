import Enkel.ByteMemory
import Enkel.TranslatedMemory

/-!
Little-endian words that are loaded and stored through a translation. A load
reads each byte where its address translates to, so it needs all of them to be
translated; a store puts each byte where its address translates to, and every
byte that it changes is one of these.
-/
namespace Enkel.TranslatedMemory

open ByteMemory

/-- The word of `n` bytes at an address; `none` is a page fault. -/
def loadWord (translate : ℕ → Option ℕ) (ram : ℕ → UInt8) (address : ℕ) : (n : ℕ) → Option ℕ
  | 0 => some 0
  | n + 1 => do
    let low ← loadWord translate ram address n
    let x ← translate ((address + n) % 2 ^ 64)
    return low + 256 ^ n * (ram x).toNat

/-- Store the word of `n` bytes. -/
def storeWord (translate : ℕ → Option ℕ) (address value n : ℕ) (ram : ℕ → UInt8) :
    Option (ℕ → UInt8) :=
  storeBytes translate address (digit value) n ram

section Words
variable {translate : ℕ → Option ℕ} {v p n address value : ℕ} {ram ram' : ℕ → UInt8}
  {f : ℕ → UInt8}

theorem loadWord_isSome_iff :
    (loadWord translate ram address n).isSome ↔
      ∀ i < n, (translate ((address + i) % 2 ^ 64)).isSome := by
  induction n with
  | zero => simp [loadWord]
  | succ n ih =>
    rw [Nat.forall_lt_succ_right, ← ih, loadWord]
    cases loadWord translate ram address n with
    | none => simp
    | some low => cases translate ((address + n) % 2 ^ 64) <;> simp

/-- Through a shift, the word is that of the image. -/
theorem Linear.loadWord (h : Linear translate v p n) (hend : p + n ≤ 2 ^ 64) :
    loadWord translate ram v n = some (readWord ram p n) := by
  induction n with
  | zero => rfl
  | succ n ih =>
    have hrest : Linear translate v p n := fun i hi => h i (Nat.lt_succ_of_lt hi)
    have hword : readWord ram p (n + 1) = readWord ram p n + 256 ^ n * (ram (p + n)).toNat := by
      rw [readWord, Nat.mod_eq_of_lt (show p + n < 2 ^ 64 by omega)]
    rw [TranslatedMemory.loadWord, ih hrest (by omega), h n (Nat.lt_succ_self n), hword]
    rfl

/-- A byte after a store is one that was stored there, or as it was before. -/
theorem byte_of_storeBytes (h : storeBytes translate address f n ram = some ram') (x : ℕ) :
    ram' x = ram x ∨ ∃ i < n, translate ((address + i) % 2 ^ 64) = some x ∧ ram' x = f i := by
  induction n generalizing ram' with
  | zero =>
    obtain rfl := Option.some.inj h
    exact Or.inl rfl
  | succ n ih =>
    rw [storeBytes] at h
    cases hlow : storeBytes translate address f n ram with
    | none =>
      rw [hlow] at h
      cases h
    | some low =>
      rw [hlow] at h
      cases hy : translate ((address + n) % 2 ^ 64) with
      | none =>
        rw [hy] at h
        cases h
      | some y =>
        rw [hy] at h
        obtain rfl := Option.some.inj h
        by_cases hxy : x = y
        · refine Or.inr ⟨n, Nat.lt_succ_self n, hxy ▸ hy, ?_⟩
          rw [hxy]
          exact Function.update_self ..
        · have hkept : Function.update low y (f n) x = low x := Function.update_of_ne hxy ..
          rcases ih hlow with hsame | ⟨i, hi, hat, hbyte⟩
          · exact Or.inl (hkept.trans hsame)
          · exact Or.inr ⟨i, Nat.lt_succ_of_lt hi, hat, hkept.trans hbyte⟩

/-- The digits of a power of 256 are zero but for one. -/
theorem digit_pow (i j : ℕ) : digit (256 ^ i) j = if j = i then 1 else 0 := by
  unfold digit
  rcases lt_trichotomy j i with hlt | rfl | hgt
  · obtain ⟨d, rfl⟩ := Nat.exists_eq_add_of_lt hlt
    have hdiv : 256 ^ (j + d + 1) / 256 ^ j = 256 * 256 ^ d := by
      rw [Nat.add_assoc, pow_add, Nat.mul_div_cancel_left _ (Nat.pow_pos (by decide)), pow_succ,
        Nat.mul_comm]
    rw [hdiv, if_neg (by omega)]
    apply UInt8.toNat_inj.mp
    rw [UInt8.toNat_ofNat']
    exact Nat.mul_mod_right 256 _
  · rw [if_pos rfl, Nat.div_self (Nat.pow_pos (by decide))]
    rfl
  · rw [if_neg (by omega), Nat.div_eq_of_lt (Nat.pow_lt_pow_right (by decide) hgt)]
    rfl

/-- The lowest digits do not see the higher ones. -/
theorem digit_mod {i : ℕ} (hi : i < n) : digit (value % 256 ^ n) i = digit value i := by
  obtain ⟨d, rfl⟩ := Nat.exists_eq_add_of_lt hi
  have hdvd : 256 ∣ 256 ^ (d + 1) := Dvd.intro_left _ (pow_succ 256 d).symm
  have hdiv : value % 256 ^ (i + d + 1) / 256 ^ i = value / 256 ^ i % 256 ^ (d + 1) := by
    rw [Nat.add_assoc, pow_add, Nat.mod_mul_right_div_self]
  unfold digit
  apply UInt8.toNat_inj.mp
  rw [hdiv, UInt8.toNat_ofNat', UInt8.toNat_ofNat']
  exact Nat.mod_mod_of_dvd _ hdvd

theorem storeBytes_congr {g : ℕ → UInt8} (h : ∀ i < n, f i = g i) :
    storeBytes translate address f n ram = storeBytes translate address g n ram := by
  induction n with
  | zero => rfl
  | succ n ih =>
    rw [storeBytes, storeBytes, ih fun i hi => h i (Nat.lt_succ_of_lt hi), h n (Nat.lt_succ_self n)]

/-- Only the bytes below its length matter for a word that is stored. -/
theorem storeWord_mod :
    storeWord translate address (value % 256 ^ n) n ram = storeWord translate address value n ram :=
  storeBytes_congr fun _ hi => digit_mod hi

theorem storeWord_isSome_iff :
    (storeWord translate address value n ram).isSome ↔
      ∀ i < n, (translate ((address + i) % 2 ^ 64)).isSome := storeBytes_isSome_iff

/-- A word that is loaded has as many bytes as were loaded. -/
theorem loadWord_lt (h : loadWord translate ram address n = some value) : value < 256 ^ n := by
  induction n generalizing value with
  | zero =>
    obtain rfl := Option.some.inj h
    exact Nat.one_pos
  | succ n ih =>
    rw [loadWord] at h
    cases hlow : loadWord translate ram address n with
    | none =>
      rw [hlow] at h
      cases h
    | some low =>
      rw [hlow] at h
      cases hx : translate ((address + n) % 2 ^ 64) with
      | none =>
        rw [hx] at h
        cases h
      | some x =>
        rw [hx] at h
        obtain rfl := Option.some.inj h
        have hlt := ih hlow
        have hbyte := (ram x).toNat_lt
        rw [pow_succ]
        calc low + 256 ^ n * (ram x).toNat < 256 ^ n + 256 ^ n * (ram x).toNat := by omega
          _ = 256 ^ n * ((ram x).toNat + 1) := by rw [Nat.mul_succ, Nat.add_comm]
          _ ≤ 256 ^ n * 256 := Nat.mul_le_mul_left _ hbyte

/-- A store that overlays one range with every word goes to this range. -/
theorem linear_of_storeWord
    (h : ∀ value < 256 ^ n, storeWord translate v value n (fun _ => 0) =
      some (overlay p (digit value) n fun _ => 0)) : Linear translate v p n := by
  intro i hi
  have hlt : 256 ^ i < 256 ^ n := Nat.pow_lt_pow_right (by decide) hi
  have hbyte : overlay p (digit (256 ^ i)) n (fun _ => 0) (p + i) = 1 := by
    rw [overlay_add, if_pos hi, digit_pow, if_pos rfl]
  rcases byte_of_storeBytes (h _ hlt) (p + i) with hsame | ⟨j, -, hat, hdigit⟩
  · rw [hbyte] at hsame
    exact absurd hsame (by decide)
  · rw [hbyte, digit_pow] at hdigit
    by_cases hji : j = i
    · rwa [hji] at hat
    · rw [if_neg hji] at hdigit
      exact absurd hdigit (by decide)

end Words

end Enkel.TranslatedMemory
