import Mathlib.Data.List.Basic
import Mathlib.Data.List.Pairwise
import Enkel.ByteMemory

/-!
Strings and vectors of words in a byte memory. Each of them is determined by the
bytes of its range, so it survives every change outside this range. Ranges are
given by their start and length and do not wrap around.
-/
namespace Enkel.ByteMemory

/-- The bytes of a string without a zero, followed by a zero. -/
def StringAt (b : ℕ → UInt8) (address : ℕ) (s : List UInt8) : Prop :=
  (∀ i (h : i < s.length), b (address + i) = s[i] ∧ s[i] ≠ 0) ∧ b (address + s.length) = 0

/-- A vector of words of eight bytes. -/
def WordsAt (b : ℕ → UInt8) (address : ℕ) (words : List ℕ) : Prop :=
  ∀ i (h : i < words.length), readWord b (address + 8 * i) 8 = words[i]

/-- The elements of `n` bytes of a list without a zero, followed by a zero. -/
def TerminatedAt (n : ℕ) (b : ℕ → UInt8) (address : ℕ) (elements : List ℕ) : Prop :=
  (∀ i (h : i < elements.length),
    readWord b (address + n * i) n = elements[i] ∧ elements[i] ≠ 0) ∧
  readWord b (address + n * elements.length) n = 0

/-- Two memories agree on the addresses from `lo` up to `hi`. -/
def AgreeOn (lo hi : ℕ) (b b' : ℕ → UInt8) : Prop := ∀ a, lo ≤ a → a < hi → b' a = b a

/-- Two ranges, by start and length, do not meet. -/
def Separate (r r' : ℕ × ℕ) : Prop := r.1 + r.2 ≤ r'.1 ∨ r'.1 + r'.2 ≤ r.1

/-- A range lies between two addresses. -/
def Within (lo hi : ℕ) (r : ℕ × ℕ) : Prop := lo ≤ r.1 ∧ r.1 + r.2 ≤ hi

variable {b b' b'' : ℕ → UInt8} {address lo hi lo' hi' : ℕ} {s : List UInt8} {w : ℕ}
  {words words' : List ℕ}

theorem AgreeOn.mono (h : AgreeOn lo hi b b') (hlo : lo ≤ lo') (hhi : hi' ≤ hi) :
    AgreeOn lo' hi' b b' :=
  fun a hle hlt => h a (hlo.trans hle) (hlt.trans_le hhi)

theorem AgreeOn.trans (h : AgreeOn lo hi b b') (h' : AgreeOn lo hi b' b'') :
    AgreeOn lo hi b b'' :=
  fun a hle hlt => (h' a hle hlt).trans (h a hle hlt)

theorem AgreeOn.refl (lo hi : ℕ) (b : ℕ → UInt8) : AgreeOn lo hi b b := fun _ _ _ => rfl

theorem StringAt.of_agree (h : StringAt b address s)
    (hagree : AgreeOn address (address + (s.length + 1)) b b') : StringAt b' address s := by
  refine ⟨fun i hi => ?_, ?_⟩
  · rw [hagree _ (Nat.le_add_right _ _) (by omega)]
    exact h.1 i hi
  · rw [hagree _ (Nat.le_add_right _ _) (by omega)]
    exact h.2

theorem readWord_of_agree {n : ℕ} (hend : address + n ≤ 2 ^ 64)
    (hagree : AgreeOn address (address + n) b b') :
    readWord b' address n = readWord b address n := by
  apply readWord_congr
  intro i hi
  rw [Nat.mod_eq_of_lt (by omega)]
  exact hagree _ (Nat.le_add_right _ _) (by omega)

theorem WordsAt.of_agree (h : WordsAt b address words)
    (hend : address + 8 * words.length ≤ 2 ^ 64)
    (hagree : AgreeOn address (address + 8 * words.length) b b') : WordsAt b' address words := by
  intro i hi
  rw [← h i hi]
  exact readWord_of_agree (by omega) (hagree.mono (by omega) (by omega))

theorem WordsAt.nil : WordsAt b address [] := fun _ h => absurd h (Nat.not_lt_zero _)

theorem WordsAt.cons (hw : readWord b address 8 = w) (h : WordsAt b (address + 8) words) :
    WordsAt b address (w :: words) := by
  intro i hi
  cases i with
  | zero => exact hw
  | succ i =>
    rw [List.getElem_cons_succ, ← h i (Nat.lt_of_succ_lt_succ hi)]
    congr 1
    omega

theorem WordsAt.append (h : WordsAt b address words)
    (h' : WordsAt b (address + 8 * words.length) words') :
    WordsAt b address (words ++ words') := by
  intro i hi
  rw [List.length_append] at hi
  by_cases hlt : i < words.length
  · rw [List.getElem_append_left hlt]
    exact h i hlt
  · rw [List.getElem_append_right (Nat.le_of_not_lt hlt), ← h' _ (by omega)]
    congr 1
    omega

theorem WordsAt.left (h : WordsAt b address (words ++ words')) : WordsAt b address words := by
  intro i hi
  have hword := h i (by rw [List.length_append]; omega)
  rwa [List.getElem_append_left hi] at hword

theorem WordsAt.right (h : WordsAt b address (words ++ words')) :
    WordsAt b (address + 8 * words.length) words' := by
  intro i hi
  have hword := h (words.length + i) (by rw [List.length_append]; omega)
  rw [List.getElem_append_right (Nat.le_add_right _ _)] at hword
  simp only [Nat.add_sub_cancel_left] at hword
  rw [← hword]
  congr 1
  omega

theorem WordsAt.tail (h : WordsAt b address (w :: words)) : WordsAt b (address + 8) words := by
  intro i hi
  rw [← List.getElem_cons_succ w words i (Nat.succ_lt_succ hi), ← h (i + 1) (Nat.succ_lt_succ hi)]
  congr 1
  omega

/-- The words of a range are determined by its bytes. -/
theorem WordsAt.unique (h : WordsAt b address words) (h' : WordsAt b address words')
    (hlength : words.length = words'.length) : words = words' :=
  List.ext_getElem hlength fun i hi hi' => (h i hi).symm.trans (h' i hi')

/-- A string ends at its first zero. -/
theorem StringAt.unique {t : List UInt8} (h : StringAt b address s) (h' : StringAt b address t) :
    s = t := by
  have hlength : s.length = t.length := by
    rcases lt_trichotomy s.length t.length with hlt | heq | hgt
    · have hbyte := h'.1 s.length hlt
      exact absurd (hbyte.1.symm.trans h.2) hbyte.2
    · exact heq
    · have hbyte := h.1 t.length hgt
      exact absurd (hbyte.1.symm.trans h'.2) hbyte.2
  exact List.ext_getElem hlength fun i hi hi' => (h.1 i hi).1.symm.trans (h'.1 i hi').1

/-- A list ends at its first zero. -/
theorem TerminatedAt.unique {n : ℕ} (h : TerminatedAt n b address words)
    (h' : TerminatedAt n b address words') : words = words' := by
  have hlength : words.length = words'.length := by
    rcases lt_trichotomy words.length words'.length with hlt | heq | hgt
    · have hword := h'.1 words.length hlt
      exact absurd (hword.1.symm.trans h.2) hword.2
    · exact heq
    · have hword := h.1 words'.length hgt
      exact absurd (hword.1.symm.trans h'.2) hword.2
  exact List.ext_getElem hlength fun i hi hi' => (h.1 i hi).1.symm.trans (h'.1 i hi').1

theorem TerminatedAt.of_agree {n : ℕ} (h : TerminatedAt n b address words)
    (hend : address + n * (words.length + 1) ≤ 2 ^ 64)
    (hagree : AgreeOn address (address + n * (words.length + 1)) b b') :
    TerminatedAt n b' address words := by
  have hword : ∀ i ≤ words.length,
      readWord b' (address + n * i) n = readWord b (address + n * i) n := by
    intro i hi
    have hle : n * i + n ≤ n * (words.length + 1) := by
      rw [← Nat.mul_succ]
      exact Nat.mul_le_mul_left n (Nat.succ_le_succ hi)
    exact readWord_of_agree (by omega) (hagree.mono (by omega) (by omega))
  refine ⟨fun i hi => ?_, ?_⟩
  · rw [hword i hi.le]
    exact h.1 i hi
  · rw [hword _ le_rfl]
    exact h.2

/-- A write leaves what lies beside it. -/
theorem writeBytes_agree {dest n : ℕ} {f : ℕ → UInt8} (hend : dest + n ≤ 2 ^ 64)
    (hhi : hi ≤ 2 ^ 64) (hsep : hi ≤ dest ∨ dest + n ≤ lo) :
    AgreeOn lo hi b (writeBytes dest f n b) := by
  intro a hle hlt
  rw [writeBytes_eq (by omega) (by omega), if_neg]
  rw [offset_lt_iff hend (by omega)]
  omega

/-- What a write stores. -/
theorem writeBytes_at {dest n i : ℕ} {f : ℕ → UInt8} (hend : dest + n ≤ 2 ^ 64) (hi : i < n) :
    writeBytes dest f n b (dest + i) = f i := by
  have hoff : offset dest (dest + i) = i := by
    rw [offset_of_le (Nat.le_add_right _ _) (by omega), Nat.add_sub_cancel_left]
  rw [writeBytes_eq (by omega) (by omega), hoff, if_pos hi]

theorem Separate.symm {r r' : ℕ × ℕ} (h : Separate r r') : Separate r' r := Or.symm h

/-- Ranges on the two sides of an address do not meet. -/
theorem separate_of_within {r r' : ℕ × ℕ} (h : Within lo hi r) (h' : Within lo' hi' r')
    (hsep : hi ≤ lo' ∨ hi' ≤ lo) : Separate r r' := by
  unfold Separate
  obtain ⟨hlo, hhi⟩ := h
  obtain ⟨hlo', hhi'⟩ := h'
  omega

theorem Within.mono {r : ℕ × ℕ} (h : Within lo hi r) (hlo : lo' ≤ lo) (hhi : hi ≤ hi') :
    Within lo' hi' r :=
  ⟨hlo.trans h.1, h.2.trans hhi⟩

end Enkel.ByteMemory
