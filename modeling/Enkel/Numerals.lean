import Mathlib.Data.Nat.Digits.Lemmas

/-!
Numerals of a base up to 16 as strings of character codes, most significant
digit first, and the reversal of the start of a buffer by swaps from both ends,
which turns the digits around when they were produced backwards.
-/
namespace Enkel.Numerals

def zeroChar : ℕ := 0x30

/-- The digits are 0 to 9 and A to F. -/
def digitChar (d : ℕ) : ℕ := if d < 10 then 0x30 + d else 0x37 + d

def digitValue (c : ℕ) : Option ℕ :=
  if 0x30 ≤ c ∧ c ≤ 0x39 then some (c - 0x30)
  else if 0x41 ≤ c ∧ c ≤ 0x46 then some (c - 0x37)
  else none

/-- The value of a numeral with one more digit. -/
def decodeDigit (base n c : ℕ) : Option ℕ :=
  (digitValue c).bind fun d => if d < base then some (n * base + d) else none

/-- The value of a numeral, if it is one in this base. -/
def decode (base : ℕ) (s : List ℕ) : Option ℕ :=
  if s = [] then none else s.foldlM (decodeDigit base) 0

/-- A numeral of the value `n` that has at least `padDigits` digits, and leading zeros
only as far as these require. -/
structure Pads (base padDigits n : ℕ) (s : List ℕ) : Prop where
  value : decode base s = some n
  length : padDigits ≤ s.length
  leading : max padDigits 1 < s.length → s.head? ≠ some zeroChar

section Digits
variable {base : ℕ}

@[simp] theorem digitValue_digitChar {d : ℕ} (h : d < 16) : digitValue (digitChar d) = some d := by
  unfold digitValue digitChar
  by_cases hten : d < 10
  · rw [if_pos hten, if_pos (by omega), Nat.add_sub_cancel_left]
  · rw [if_neg hten, if_neg (by omega), if_pos (by omega), Nat.add_sub_cancel_left]

theorem digitChar_ne_zeroChar {d : ℕ} (h : d ≠ 0) : digitChar d ≠ zeroChar := by
  unfold digitChar zeroChar
  split_ifs <;> omega

/-- Digits that come least significant first are read backwards. -/
theorem foldlM_decodeDigit (hbase : base ≤ 16) {ds : List ℕ} (hds : ∀ d ∈ ds, d < base) :
    (ds.reverse.map digitChar).foldlM (decodeDigit base) 0 = some (Nat.ofDigits base ds) := by
  induction ds with
  | nil => rfl
  | cons d ds ih =>
    have hd := hds d List.mem_cons_self
    rw [List.reverse_cons, List.map_append, List.foldlM_append,
      ih fun e he => hds e (List.mem_cons_of_mem d he)]
    simp only [List.map_cons, List.map_nil, List.foldlM_cons, List.foldlM_nil, decodeDigit,
      digitValue_digitChar (hd.trans_le hbase), Option.bind_some, if_pos hd, Nat.ofDigits_cons,
      Option.bind_eq_bind]
    exact congrArg some (by ring)

theorem decode_digits (hbase : base ≤ 16) {ds : List ℕ} (hne : ds ≠ [])
    (hds : ∀ d ∈ ds, d < base) :
    decode base (ds.reverse.map digitChar) = some (Nat.ofDigits base ds) := by
  unfold decode
  rw [if_neg (by simpa using hne), foldlM_decodeDigit hbase hds]

/-- The digits of a number, least significant first; zero has one. -/
def digits (base n : ℕ) : List ℕ := if n = 0 then [0] else Nat.digits base n

theorem digits_of_lt {n : ℕ} (hlt : n < base) : digits base n = [n] := by
  unfold digits
  split_ifs with hzero
  · rw [hzero]
  · exact Nat.digits_of_lt base n hzero hlt

theorem digits_of_le {n : ℕ} (hbase : 2 ≤ base) (hle : base ≤ n) :
    digits base n = n % base :: digits base (n / base) := by
  have hdiv : n / base ≠ 0 := (Nat.div_pos hle (by omega)).ne'
  unfold digits
  rw [if_neg (by omega), if_neg hdiv, Nat.digits_def' (by omega) (by omega)]

theorem digits_ne_nil (base n : ℕ) : digits base n ≠ [] := by
  unfold digits
  split_ifs with hzero
  · exact List.cons_ne_nil 0 []
  · exact Nat.digits_ne_nil_iff_ne_zero.mpr hzero

theorem digits_lt (hbase : 2 ≤ base) {n d : ℕ} (hd : d ∈ digits base n) : d < base := by
  unfold digits at hd
  split_ifs at hd
  · rw [List.mem_singleton.mp hd]
    omega
  · exact Nat.digits_lt_base (by omega) hd

theorem ofDigits_digits (base n : ℕ) : Nat.ofDigits base (digits base n) = n := by
  unfold digits
  split_ifs with hzero
  · rw [hzero]
    rfl
  · exact Nat.ofDigits_digits base n

/-- Only zero has a zero as its first digit. -/
theorem getLast_digits_ne_zero (base n : ℕ) (h : 1 < (digits base n).length) :
    (digits base n).getLast? ≠ some 0 := by
  unfold digits at h ⊢
  split_ifs at h ⊢ with hzero
  · exact absurd h (lt_irrefl 1)
  · rw [List.getLast?_eq_some_getLast (Nat.digits_ne_nil_iff_ne_zero.mpr hzero)]
    simpa using Nat.getLast_digit_ne_zero base hzero

/-- The number of digits of `n` is at most `k` when `n` is below the power. -/
theorem length_digits_le (hbase : 2 ≤ base) {n k : ℕ} (hk : 0 < k) :
    (digits base n).length ≤ k ↔ n < base ^ k := by
  unfold digits
  split_ifs with hzero
  · subst hzero
    exact ⟨fun _ => Nat.pow_pos (by omega), fun _ => hk⟩
  · exact Nat.digits_length_le_iff (by omega) n

/-- The digits of a number with zeros in front make a padded numeral. -/
theorem pads_digits (hbase : 2 ≤ base) (h16 : base ≤ 16) (n padDigits : ℕ) :
    Pads base padDigits n (((digits base n ++
      List.replicate (padDigits - (digits base n).length) 0).reverse).map digitChar) := by
  have hne := digits_ne_nil base n
  have hpos : 0 < (digits base n).length := List.length_pos_iff.mpr hne
  refine ⟨?_, ?_, fun hlong => ?_⟩
  · rw [decode_digits h16 (by simp [hne]), Nat.ofDigits_append_replicate_zero, ofDigits_digits]
    intro d hd
    rcases List.mem_append.mp hd with hd | hd
    · exact digits_lt hbase hd
    · rw [List.eq_of_mem_replicate hd]
      omega
  · simp only [List.length_map, List.length_reverse, List.length_append, List.length_replicate]
    omega
  · simp only [List.length_map, List.length_reverse, List.length_append,
      List.length_replicate] at hlong
    have hzero : padDigits - (digits base n).length = 0 := by omega
    rw [hzero, List.replicate_zero, List.append_nil, List.head?_map, List.head?_reverse,
      List.getLast?_eq_some_getLast hne, Option.map_some]
    have hlast := getLast_digits_ne_zero base n (by omega)
    rw [List.getLast?_eq_some_getLast hne] at hlast
    exact fun heq => digitChar_ne_zeroChar (fun h => hlast (congrArg some h)) (Option.some.inj heq)

end Digits

section Swaps
variable {α : Type}

def swap (cells : ℕ → α) (i j : ℕ) : ℕ → α :=
  Function.update (Function.update cells i (cells j)) j (cells i)

/-- The loop that swaps the first `n` cells from both ends, the one in the middle with
itself. -/
def reversePrefix (n : ℕ) (cells : ℕ → α) : ℕ → α :=
  (List.range ((n - 1) / 2 + 1)).foldl (fun cells i => swap cells i (n - i - 1)) cells

theorem swap_apply (cells : ℕ → α) (i j x : ℕ) :
    swap cells i j x = if x = j then cells i else if x = i then cells j else cells x := by
  unfold swap
  by_cases hj : x = j
  · rw [hj, Function.update_self, if_pos rfl]
  · rw [Function.update_of_ne hj, if_neg hj]
    by_cases hi : x = i
    · rw [hi, Function.update_self, if_pos rfl]
    · rw [Function.update_of_ne hi, if_neg hi]

/-- After `k` swaps the outer `k` cells of both ends have changed places. -/
theorem swaps_apply (n : ℕ) (cells : ℕ → α) (k : ℕ) (hk : 2 * k ≤ n + 1) (x : ℕ) :
    (List.range k).foldl (fun cells i => swap cells i (n - i - 1)) cells x =
      if x < n ∧ (x < k ∨ n - 1 - x < k) then cells (n - 1 - x) else cells x := by
  induction k generalizing x with
  | zero => rw [if_neg (by omega), List.range_zero, List.foldl_nil]
  | succ k ih =>
    rw [List.range_succ, List.foldl_append, List.foldl_cons, List.foldl_nil, swap_apply]
    by_cases hj : x = n - k - 1
    · rw [if_pos hj, ih (by omega), if_neg (by omega), if_pos (by omega)]
      exact congrArg cells (by omega)
    · rw [if_neg hj]
      by_cases hi : x = k
      · rw [if_pos hi, ih (by omega), if_neg (by omega), if_pos (by omega)]
        exact congrArg cells (by omega)
      · rw [if_neg hi, ih (by omega)]
        exact if_congr (by omega) rfl rfl

/-- The loop reverses the first `n` cells and keeps the others. -/
theorem reversePrefix_apply {n : ℕ} (hn : 0 < n) (cells : ℕ → α) (x : ℕ) :
    reversePrefix n cells x = if x < n then cells (n - 1 - x) else cells x := by
  unfold reversePrefix
  rw [swaps_apply n cells _ (by omega)]
  exact if_congr (by omega) rfl rfl

/-- The first `n` cells of a buffer. -/
def text (cells : ℕ → α) (n : ℕ) : List α := (List.range n).map cells

@[simp] theorem length_text (cells : ℕ → α) (n : ℕ) : (text cells n).length = n := by
  simp [text]

theorem text_succ (cells : ℕ → α) (n : ℕ) (c : α) :
    text (Function.update cells n c) (n + 1) = text cells n ++ [c] := by
  unfold text
  rw [List.range_succ, List.map_append, List.map_singleton, Function.update_self]
  refine congrArg (· ++ [c]) (List.map_congr_left fun i hi => ?_)
  exact Function.update_of_ne (List.mem_range.mp hi).ne c cells

theorem text_reversePrefix {n : ℕ} (hn : 0 < n) (cells : ℕ → α) :
    text (reversePrefix n cells) n = (text cells n).reverse := by
  apply List.ext_getElem
  · simp
  · intro i hi hi'
    rw [length_text] at hi
    simp [text, reversePrefix_apply hn, hi, List.getElem_reverse]

end Swaps

end Enkel.Numerals
