import Enkel.Numerals
import Enkel.Outcome

/-!
The two overloads of witoabuf in string.cpp. Digits are written backwards, are padded with
zeros and get a sign, and the text is then reversed in place. Arithmetic is that of the
argument's own type, so a negative value that is not negated has negative remainders, which
index the table of characters before its start. The overload for char pads in a loop that
tests after its turn, not before.
-/
namespace Enkel.IntegerText

open Outcome Numerals

/-- The types that witoabuf is instantiated for. -/
inductive IntegerType
  | int32
  | uint32
  | int64
  | uint64
deriving DecidableEq, Repr

namespace IntegerType

def width : IntegerType → ℕ
  | int32 | uint32 => 32
  | int64 | uint64 => 64

def smallest : IntegerType → ℤ
  | int32 => -2 ^ 31
  | int64 => -2 ^ 63
  | uint32 | uint64 => 0

/-- The values of the type. -/
def InRange (t : IntegerType) (v : ℤ) : Prop := t.smallest ≤ v ∧ v < t.smallest + 2 ^ t.width

instance (t : IntegerType) (v : ℤ) : Decidable (t.InRange v) :=
  inferInstanceAs (Decidable (_ ∧ _))

/-- The value of the type with the same low bits. -/
def wrap (t : IntegerType) (v : ℤ) : ℤ := t.smallest + (v - t.smallest) % 2 ^ t.width

end IntegerType

inductive Fault
  /-- The table of characters is read before its start or after its end. -/
  | outsideTable
  /-- The index into the buffer, an int, is counted past its largest value. -/
  | offsetOverflow
  /-- There are more digits than the type has bits. -/
  | unfinished
deriving DecidableEq, Repr

/-- The buffer, and how much of it is written. -/
structure Written where
  cells : ℕ → ℕ
  offset : ℕ

def minusChar : ℕ := 0x2D

def characters : List ℕ :=
  [0x30, 0x31, 0x32, 0x33, 0x34, 0x35, 0x36, 0x37, 0x38, 0x39, 0x41, 0x42, 0x43, 0x44, 0x45, 0x46]

def character (remainder : ℤ) : Except Fault ℕ :=
  if remainder < 0 then
    .error .outsideTable
  else
    match characters[remainder.toNat]? with
    | some c => .ok c
    | none => .error .outsideTable

/-- The statement `buffer[offset++] = c`. -/
def Written.push (c : ℕ) (w : Written) : Except Fault Written := do
  require (w.offset < 2 ^ 31 - 1) .offsetOverflow
  return { cells := Function.update w.cells w.offset c, offset := w.offset + 1 }

/-- The loop over the digits. -/
def digitLoop (t : IntegerType) (base : ℤ) : (fuel : ℕ) → (currentValue : ℤ) → Written →
    Except Fault Written
  | 0, _, _ => .error .unfinished
  | fuel + 1, currentValue, w => do
    let nextValue := t.wrap (currentValue.tdiv base)
    let remainder := t.wrap (currentValue - t.wrap (nextValue * base))
    let c ← character remainder
    let w ← w.push c
    if nextValue ≠ 0 then digitLoop t base fuel nextValue w else return w

/-- The loop that pads, by the number of its turns. -/
def padLoop : (turns : ℕ) → Written → Except Fault Written
  | 0, w => .ok w
  | turns + 1, w => do
    let w ← w.push zeroChar
    padLoop turns w

section Witoabuf
variable (t : IntegerType) (value base padDigits : ℤ) (buffer : ℕ → ℕ)

def isNegative : Prop := value < 0 ∧ base = 10

instance : Decidable (isNegative value base) := inferInstanceAs (Decidable (_ ∧ _))

def absValue : ℤ := if isNegative value base then t.wrap (-value) else value

/-- The part before the padding, which the overloads share. -/
def writeDigits : Except Fault Written :=
  digitLoop t base t.width (absValue t value base) ⟨buffer, 0⟩

/-- The part after the padding: the sign, the NUL and the reversal. -/
def finish (w : Written) : Except Fault ((ℕ → ℕ) × ℕ) := do
  let w ← if isNegative value base then w.push minusChar else pure w
  return (reversePrefix w.offset (Function.update w.cells w.offset 0), w.offset)

/-- What the overloads share. They differ in how often the loop that pads turns. -/
def witoabuf (padTurns : ℕ → ℕ) : Except Fault ((ℕ → ℕ) × ℕ) := do
  let w ← writeDigits t value base buffer
  let w ← padLoop (padTurns w.offset) w
  finish value base w

/-- The overload for char16_t, whose padding is `while(padDigits > offset)`. -/
def witoabufChar16 : Except Fault ((ℕ → ℕ) × ℕ) :=
  witoabuf t value base buffer fun offset => (padDigits - offset).toNat

/-- The overload for char, whose padding is `do .. while(padDigits > offset)`. -/
def witoabufChar : Except Fault ((ℕ → ℕ) × ℕ) :=
  witoabuf t value base buffer fun offset => max 1 (padDigits - offset).toNat

end Witoabuf

/-- The call returns the length of a NUL-terminated text with the property. -/
def Writes (result : Except Fault ((ℕ → ℕ) × ℕ)) (P : List ℕ → Prop) : Prop :=
  ∃ cells length, result = .ok (cells, length) ∧ cells length = 0 ∧ P (text cells length)

theorem Writes.length_eq {result : Except Fault ((ℕ → ℕ) × ℕ)} {s : List ℕ}
    (h : Writes result fun s' => s' = s) {cells : ℕ → ℕ} {length : ℕ}
    (hr : result = .ok (cells, length)) : length = s.length := by
  obtain ⟨cells', length', hr', -, htext⟩ := h
  cases hr.symm.trans hr'
  rw [← htext, length_text]

/-- The number whose digits are asked for: the absolute value in base 10, else the value's
bits without a sign. -/
def magnitude (t : IntegerType) (value : ℤ) (base : ℕ) : ℕ :=
  if value < 0 ∧ base ≠ 10 then (value + 2 ^ t.width).toNat else value.natAbs

/-- A numeral of the value, with a sign only when it is negative and the base is 10. -/
def IsNumeral (t : IntegerType) (value : ℤ) (base padDigits : ℕ) (s : List ℕ) : Prop :=
  ∃ digits, s = (if isNegative value base then [minusChar] else []) ++ digits ∧
    Pads base padDigits (magnitude t value base) digits

/-- Both calls return, with the same length and the same text. -/
def SameText (result result' : Except Fault ((ℕ → ℕ) × ℕ)) : Prop :=
  ∃ cells cells' length, result = .ok (cells, length) ∧ result' = .ok (cells', length) ∧
    text cells' length = text cells length ∧ cells length = 0 ∧ cells' length = 0

namespace IntegerType
variable {t : IntegerType} {v : ℤ}

theorem wrap_of_inRange (h : t.InRange v) : t.wrap v = v := by
  obtain ⟨hlo, hhi⟩ := h
  unfold wrap
  rw [Int.emod_eq_of_lt (by omega) (by omega)]
  omega

theorem inRange_of_between {v' : ℤ} (h : t.InRange v) (hlo : min v 0 ≤ v') (hhi : v' ≤ max v 0) :
    t.InRange v' := by
  obtain ⟨hsmallest, hlargest⟩ := h
  cases t <;> simp only [InRange, smallest, width] at hsmallest hlargest ⊢ <;> omega

theorem natAbs_lt (h : t.InRange v) : v.natAbs < 2 ^ t.width := by
  obtain ⟨hlo, hhi⟩ := h
  cases t <;> simp only [smallest, width] at hlo hhi ⊢ <;> omega

theorem inRange_wrap (v : ℤ) : t.InRange (t.wrap v) := by
  have hpos : (0 : ℤ) < 2 ^ t.width := by positivity
  have hlo := Int.emod_nonneg (v - t.smallest) hpos.ne'
  have hhi := Int.emod_lt_of_pos (v - t.smallest) hpos
  unfold wrap InRange
  omega

theorem width_pos (t : IntegerType) : 0 < t.width := by cases t <;> decide

theorem width_le (t : IntegerType) : t.width ≤ 64 := by cases t <;> decide

/-- A negative value can be negated unless it is the smallest one. -/
theorem wrap_neg (h : t.InRange v) (hneg : v < 0) :
    t.wrap (-v) = if v = t.smallest then v else -v := by
  obtain ⟨hlo, hhi⟩ := h
  split_ifs with hv
  · rw [hv] at hneg ⊢
    cases t <;> decide
  · refine wrap_of_inRange ⟨?_, ?_⟩
    all_goals cases t <;> simp only [smallest, width] at hlo hhi hv ⊢ <;> omega

end IntegerType

section Loops

theorem character_natCast {d : ℕ} (h : d < 16) : character d = .ok (digitChar d) := by
  have htable : ∀ d < 16, characters[d]? = some (digitChar d) := by decide
  unfold character
  rw [if_neg (by omega), Int.toNat_natCast, htable d h]

theorem character_negative {r : ℤ} (h : r < 0) : character r = .error .outsideTable := if_pos h

/-- What the written part of the buffer holds. -/
def Written.text (w : Written) : List ℕ := Numerals.text w.cells w.offset

@[simp] theorem Written.length_text (w : Written) : w.text.length = w.offset :=
  Numerals.length_text w.cells w.offset

/-- The buffer after `s` has been written at its end. -/
def Written.Extends (w : Written) (s : List ℕ) (w' : Written) : Prop :=
  w'.text = w.text ++ s ∧ w'.offset = w.offset + s.length

variable {w : Written}

theorem Written.Extends.trans {w' w'' : Written} {s s' : List ℕ} (h : w.Extends s w')
    (h' : w'.Extends s' w'') : w.Extends (s ++ s') w'' := by
  refine ⟨?_, ?_⟩
  · rw [h'.1, h.1, List.append_assoc]
  · rw [h'.2, h.2, List.length_append]
    omega

theorem push_ok (c : ℕ) (h : w.offset < 2 ^ 31 - 1) : ∃ w', w.push c = .ok w' ∧ w.Extends [c] w' := by
  unfold Written.push
  rw [require_true h]
  exact ⟨_, rfl, text_succ w.cells w.offset c, rfl⟩

theorem push_overflow (c : ℕ) (h : w.offset = 2 ^ 31 - 1) : w.push c = .error .offsetOverflow := by
  unfold Written.push
  rw [h]
  rfl

theorem padLoop_ok (turns : ℕ) (h : w.offset + turns ≤ 2 ^ 31 - 1) :
    ∃ w', padLoop turns w = .ok w' ∧ w.Extends (List.replicate turns zeroChar) w' := by
  induction turns generalizing w with
  | zero => exact ⟨w, rfl, (List.append_nil _).symm, rfl⟩
  | succ turns ih =>
    obtain ⟨w1, hpush, hext⟩ := push_ok (w := w) zeroChar (by omega)
    have hoffset : w1.offset = w.offset + 1 := hext.2
    obtain ⟨w2, hpad, hext2⟩ := ih (w := w1) (by omega)
    refine ⟨w2, ?_, hext.trans hext2⟩
    unfold padLoop
    rw [hpush, ok_bind, hpad]

variable {t : IntegerType} {base : ℕ}

/-- A number of the sign of a value that is not further from zero is in its range. -/
theorem inRange_sign_mul {v : ℤ} (hv : t.InRange v) {m : ℕ} (hm : m ≤ v.natAbs) :
    t.InRange (v.sign * m) := by
  rcases lt_trichotomy v 0 with hneg | rfl | hpos
  · rw [Int.sign_eq_neg_one_of_neg hneg]
    exact IntegerType.inRange_of_between hv (by omega) (by omega)
  · rw [Int.sign_zero, zero_mul]
    exact hv
  · rw [Int.sign_eq_one_of_pos hpos]
    exact IntegerType.inRange_of_between hv (by omega) (by omega)

theorem tdiv_eq_sign_mul (v : ℤ) (base : ℕ) :
    v.tdiv base = v.sign * (v.natAbs / base : ℕ) := by
  obtain ⟨n, rfl | rfl⟩ := v.eq_nat_or_neg
  · rcases n.eq_zero_or_pos with rfl | hpos
    · simp
    · rw [Int.sign_eq_one_of_pos (by omega), one_mul, Int.natAbs_natCast, ← Int.ofNat_tdiv]
  · rcases n.eq_zero_or_pos with rfl | hpos
    · simp
    · rw [Int.sign_eq_neg_one_of_neg (by omega), Int.natAbs_neg, Int.natAbs_natCast,
        Int.neg_tdiv, ← Int.ofNat_tdiv, neg_one_mul]

theorem inRange_tdiv {v : ℤ} (hv : t.InRange v) (base : ℕ) : t.InRange (v.tdiv base) := by
  rw [tdiv_eq_sign_mul]
  exact inRange_sign_mul hv (Nat.div_le_self _ _)

/-- Quotient, product and difference stay between zero and the value, so none of them
wraps. -/
theorem turn_values {v : ℤ} (hv : t.InRange v) (base : ℕ) :
    t.wrap (v.tdiv base) = v.tdiv base ∧
      t.wrap (v - t.wrap (v.tdiv base * base)) = v.tmod base := by
  have hsum : v.tmod base + v.tdiv base * base = v := by
    rw [add_comm, mul_comm]
    exact Int.mul_tdiv_add_tmod v base
  have hbetween : ∀ m : ℕ, m ≤ v.natAbs → t.wrap (v.sign * m) = v.sign * m := fun m hm =>
    IntegerType.wrap_of_inRange (inRange_sign_mul hv hm)
  have hproduct : v.tdiv base * base = v.sign * (v.natAbs / base * base : ℕ) := by
    rw [tdiv_eq_sign_mul, Nat.cast_mul, mul_assoc]
  have hmod : v.natAbs / base * base ≤ v.natAbs := Nat.div_mul_le_self _ _
  have hdifference : v.tmod base = v.sign * (v.natAbs - v.natAbs / base * base : ℕ) := by
    rw [Nat.cast_sub hmod, mul_sub, ← hproduct, Int.sign_mul_natAbs]
    omega
  refine ⟨IntegerType.wrap_of_inRange (inRange_tdiv hv base), ?_⟩
  rw [hproduct, hbetween _ hmod, ← hproduct,
    show v - v.tdiv base * base = v.tmod base by omega, hdifference]
  exact hbetween _ (Nat.sub_le _ _)

/-- One digit less of a number leaves one turn less of the loop. -/
theorem div_of_le {n fuel : ℕ} (hbase : 2 ≤ base) (hle : base ≤ n) (hfuel : n < 2 ^ (fuel + 1)) :
    0 < n / base ∧ n / base < 2 ^ fuel ∧ 0 < fuel := by
  have hpos : 0 < n / base := Nat.div_pos hle (by omega)
  have hhalf : n / base ≤ n / 2 := Nat.div_le_div_left hbase (by omega)
  rw [pow_succ] at hfuel
  refine ⟨hpos, by omega, ?_⟩
  by_contra hzero
  rw [Nat.eq_zero_of_not_pos hzero] at hfuel
  omega

/-- One turn of the loop over the digits. -/
theorem digitLoop_succ {v : ℤ} (hv : t.InRange v) (base fuel : ℕ) (w : Written) :
    digitLoop t base (fuel + 1) v w = (character (v.tmod base) >>= fun c => w.push c >>= fun w =>
      if v.tdiv base ≠ 0 then digitLoop t base fuel (v.tdiv base) w else pure w) := by
  obtain ⟨hnext, hremainder⟩ := turn_values hv base
  rw [digitLoop, hnext, hremainder]

/-- The loop writes the digits of a number that is not negative. -/
theorem digitLoop_ok (hbase : 2 ≤ base) (h16 : base ≤ 16) (fuel : ℕ) {n : ℕ} (hn : t.InRange n)
    (hpos : 0 < fuel) (hfuel : n < 2 ^ fuel) (hoffset : w.offset + fuel ≤ 2 ^ 31 - 1) :
    ∃ w', digitLoop t base fuel n w = .ok w' ∧
      w.Extends ((digits base n).map digitChar) w' := by
  induction fuel generalizing n w with
  | zero => omega
  | succ fuel ih =>
    obtain ⟨w1, hpush, hext⟩ := push_ok (w := w) (digitChar (n % base)) (by omega)
    have hoffset1 : w1.offset = w.offset + 1 := hext.2
    rw [digitLoop_succ hn, ← Int.ofNat_tmod, ← Int.ofNat_tdiv,
      character_natCast ((Nat.mod_lt n (by omega)).trans_le h16), ok_bind, hpush, ok_bind]
    by_cases hlast : n < base
    · rw [Nat.div_eq_of_lt hlast, if_neg fun h => h rfl, digits_of_lt hlast]
      rw [Nat.mod_eq_of_lt hlast] at hext
      exact ⟨w1, rfl, hext⟩
    · have hle : base ≤ n := Nat.le_of_not_lt hlast
      obtain ⟨hne, hless, hfuelpos⟩ := div_of_le hbase hle hfuel
      have hrange : t.InRange (n / base : ℕ) := Int.ofNat_tdiv n base ▸ inRange_tdiv hn base
      obtain ⟨w2, hloop, hext2⟩ := ih (w := w1) hrange hfuelpos hless (by omega)
      rw [if_pos (Nat.cast_ne_zero.mpr hne.ne'), digits_of_le hbase hle]
      exact ⟨w2, hloop, hext.trans hext2⟩

/-- The loop on a negative number ends at a negative remainder. -/
theorem digitLoop_negative (hbase : 2 ≤ base) (fuel : ℕ) {n : ℕ}
    (hn : t.InRange (-n)) (hpos : 0 < n) (hfuel : n < 2 ^ fuel)
    (hoffset : w.offset + fuel ≤ 2 ^ 31 - 1) :
    digitLoop t base fuel (-n) w = .error .outsideTable := by
  induction fuel generalizing n w with
  | zero => omega
  | succ fuel ih =>
    rw [digitLoop_succ hn, Int.neg_tmod, Int.neg_tdiv, ← Int.ofNat_tmod, ← Int.ofNat_tdiv]
    by_cases hzero : n % base = 0
    · -- A digit 0 is written, and the quotient is negative again.
      have hle : base ≤ n := Nat.le_of_dvd hpos (Nat.dvd_of_mod_eq_zero hzero)
      obtain ⟨hne, hless, -⟩ := div_of_le hbase hle hfuel
      have hrange := inRange_tdiv hn base
      rw [Int.neg_tdiv, ← Int.ofNat_tdiv] at hrange
      obtain ⟨w1, hpush, hext⟩ := push_ok (w := w) (digitChar 0) (by omega)
      have hoffset1 : w1.offset = w.offset + 1 := hext.2
      generalize n / base = q at hne hless hrange
      rw [hzero, Nat.cast_zero, neg_zero, ← Nat.cast_zero, character_natCast (by omega), ok_bind,
        hpush, ok_bind, if_pos (by omega)]
      exact ih hrange hne hless (by omega)
    · have hrem : 0 < n % base := Nat.pos_of_ne_zero hzero
      generalize n % base = r at hrem
      rw [character_negative (by omega)]
      rfl

end Loops

section Calls
variable {t : IntegerType} {value : ℤ} {base padDigits : ℕ} (buffer : ℕ → ℕ)

/-- When the digits of a value can be written: in bases other than 10 only those of a
value that is not negative, and in base 10 all but those of the smallest negative one. -/
def Writable (t : IntegerType) (value : ℤ) (base : ℕ) : Prop :=
  value < 0 → base = 10 ∧ value ≠ t.smallest

theorem inRange_absValue (hvalue : t.InRange value) (base : ℤ) :
    t.InRange (absValue t value base) := by
  unfold absValue
  by_cases hneg : isNegative value base
  · rw [if_pos hneg]
    exact IntegerType.inRange_wrap _
  · rw [if_neg hneg]
    exact hvalue

theorem writeDigits_ok (hvalue : t.InRange value) (hbase : 2 ≤ base) (h16 : base ≤ 16)
    (h : Writable t value base) : ∃ w, writeDigits t value base buffer = .ok w ∧
      w.text = (digits base value.natAbs).map digitChar ∧
      w.offset = (digits base value.natAbs).length := by
  have habs : absValue t value base = value.natAbs := by
    unfold absValue isNegative
    split_ifs with hneg
    · rw [IntegerType.wrap_neg hvalue hneg.1, if_neg (h hneg.1).2]
      omega
    · have hpos : ¬ value < 0 := fun hlt => hneg ⟨hlt, by rw [(h hlt).1]; rfl⟩
      omega
  have hrange : t.InRange (value.natAbs : ℤ) := by
    rw [← habs]
    exact inRange_absValue hvalue base
  obtain ⟨w, hloop, htext, hoffset⟩ := digitLoop_ok (w := ⟨buffer, 0⟩) hbase h16 t.width hrange
    t.width_pos (IntegerType.natAbs_lt hvalue) (by have := t.width_le; dsimp only; omega)
  refine ⟨w, ?_, htext, ?_⟩
  · unfold writeDigits
    rw [habs, hloop]
  · rw [hoffset, List.length_map]
    exact Nat.zero_add _

theorem writeDigits_error (hvalue : t.InRange value) (hbase : 2 ≤ base)
    (h : ¬ Writable t value base) :
    writeDigits t value base buffer = .error .outsideTable := by
  obtain ⟨hneg, hnot⟩ := Classical.not_imp.mp h
  have habs : absValue t value base = -(value.natAbs : ℕ) := by
    unfold absValue isNegative
    split_ifs with hten
    · rw [IntegerType.wrap_neg hvalue hneg, if_pos ?_]
      · omega
      · by_contra hne
        exact hnot ⟨by exact_mod_cast hten.2, hne⟩
    · omega
  unfold writeDigits
  rw [habs]
  refine digitLoop_negative hbase t.width ?_ (by omega) (IntegerType.natAbs_lt hvalue)
    (by have := t.width_le; dsimp only; omega)
  rw [show (-(value.natAbs : ℕ) : ℤ) = value by omega]
  exact hvalue

/-- The sign, if there is one, follows the digits, and the text is turned around. -/
theorem finish_ok (value : ℤ) (base : ℕ) (w : Written) (hpos : 0 < w.offset)
    (h : w.offset < 2 ^ 31 - 1 ∨ ¬ isNegative value base) :
    ∃ cells, finish value base w = .ok (cells, w.offset + if isNegative value base then 1 else 0) ∧
      cells (w.offset + if isNegative value base then 1 else 0) = 0 ∧
      text cells (w.offset + if isNegative value base then 1 else 0) =
        (if isNegative value base then [minusChar] else []) ++ w.text.reverse := by
  have hturn : ∀ w' : Written, 0 < w'.offset →
      reversePrefix w'.offset (Function.update w'.cells w'.offset 0) w'.offset = 0 ∧
        text (reversePrefix w'.offset (Function.update w'.cells w'.offset 0)) w'.offset =
          w'.text.reverse := by
    intro w' hw'
    refine ⟨?_, ?_⟩
    · rw [reversePrefix_apply hw', if_neg (lt_irrefl _), Function.update_self]
    · rw [text_reversePrefix hw']
      refine congrArg List.reverse (List.map_congr_left fun i hi => ?_)
      exact Function.update_of_ne (List.mem_range.mp hi).ne _ _
  unfold finish
  split_ifs with hneg
  · obtain ⟨w', hpush, htext, hoffset⟩ := push_ok minusChar (h.resolve_right fun hn => hn hneg)
    obtain ⟨hnul, hreverse⟩ := hturn w' (by omega)
    rw [hpush, ok_bind, show w.offset + 1 = w'.offset from hoffset.symm]
    refine ⟨_, rfl, hnul, hreverse.trans ?_⟩
    rw [htext, List.reverse_append, List.reverse_singleton]
  · exact ⟨_, rfl, (hturn w hpos).1, (hturn w hpos).2⟩

theorem finish_error {w : Written} (hoffset : w.offset = 2 ^ 31 - 1)
    (hneg : isNegative value base) : finish value base w = .error .offsetOverflow := by
  unfold finish
  rw [if_pos hneg, push_overflow _ hoffset]
  rfl

/-- The conditions under which a call writes a text at all: the digits can be written, and
with the sign their number still is an int. -/
def Returns (t : IntegerType) (value : ℤ) (base padDigits : ℕ) : Prop :=
  Writable t value base ∧ (value < 0 → padDigits < 2 ^ 31 - 1)

/-- What the overloads write, with the zeros that the padding adds. -/
theorem witoabuf_ok (padTurns : ℕ → ℕ) (turns : ℕ) (hvalue : t.InRange value) (hbase : 2 ≤ base)
    (h16 : base ≤ 16) (h : Writable t value base) {n : ℕ}
    (hn : (digits base value.natAbs).length = n) (hturns : padTurns n = turns)
    (hlength : n + turns ≤ 2 ^ 31 - 1) (hsign : value < 0 → n + turns < 2 ^ 31 - 1) :
    Writes (witoabuf t value base buffer padTurns) fun s =>
      s = (if isNegative value base then [minusChar] else []) ++
        ((digits base value.natAbs ++ List.replicate turns 0).reverse).map digitChar := by
  obtain ⟨w1, hdigits, htext1, hoffset1⟩ := writeDigits_ok buffer hvalue hbase h16 h
  obtain ⟨w2, hpad, htext2, hoffset2⟩ := padLoop_ok (w := w1) turns (by omega)
  rw [List.length_replicate] at hoffset2
  have hpos : 0 < (digits base value.natAbs).length :=
    List.length_pos_iff.mpr (digits_ne_nil base _)
  obtain ⟨cells, hfinish, hnul, htext⟩ := finish_ok value base w2 (by omega) (by
      by_cases hneg : value < 0
      · exact Or.inl (by have := hsign hneg; omega)
      · exact Or.inr fun hn => hneg hn.1)
  refine ⟨cells, _, ?_, hnul, htext.trans ?_⟩
  · unfold witoabuf
    rw [hdigits, ok_bind, hoffset1, hn, hturns, hpad, ok_bind, hfinish]
  · rw [htext2, htext1, List.map_reverse, List.map_append, List.map_replicate]
    rfl

/-- The sign of the longest text is one character too many. -/
theorem witoabuf_overflow {padTurns : ℕ → ℕ} (hvalue : t.InRange value) (hbase : 2 ≤ base)
    (h16 : base ≤ 16) (h : Writable t value base) (hneg : value < 0) {n turns : ℕ}
    (hn : (digits base value.natAbs).length = n) (hturns : padTurns n = turns)
    (hlength : n + turns = 2 ^ 31 - 1) :
    witoabuf t value base buffer padTurns = .error .offsetOverflow := by
  obtain ⟨w1, hdigits, -, hoffset1⟩ := writeDigits_ok buffer hvalue hbase h16 h
  obtain ⟨w2, hpad, -, hoffset2⟩ := padLoop_ok (w := w1) turns (by omega)
  rw [List.length_replicate] at hoffset2
  unfold witoabuf
  rw [hdigits, ok_bind, hoffset1, hn, hturns, hpad, ok_bind]
  exact finish_error (by omega) ⟨hneg, by rw [(h hneg).1]; rfl⟩

theorem witoabuf_error {padTurns : ℕ → ℕ} (hvalue : t.InRange value) (hbase : 2 ≤ base)
    (h : ¬ Writable t value base) :
    witoabuf t value base buffer padTurns = .error .outsideTable := by
  unfold witoabuf
  rw [writeDigits_error buffer hvalue hbase h]
  rfl

theorem length_digits_le_width (hvalue : t.InRange value) (hbase : 2 ≤ base) :
    (digits base value.natAbs).length ≤ 64 := by
  refine ((length_digits_le hbase t.width_pos).mpr ?_).trans t.width_le
  exact (IntegerType.natAbs_lt hvalue).trans_le (Nat.pow_le_pow_left hbase _)

/-- A call that returns meets these conditions. -/
theorem returns_of_witoabuf {padTurns : ℕ → ℕ} (hvalue : t.InRange value) (hbase : 2 ≤ base)
    (h16 : base ≤ 16) (hpad : padDigits < 2 ^ 31)
    (hturns : ∀ n < padDigits, padTurns n = padDigits - n) {r : (ℕ → ℕ) × ℕ}
    (hr : witoabuf t value base buffer padTurns = .ok r) : Returns t value base padDigits := by
  have hwritable : Writable t value base := by
    by_contra h
    rw [witoabuf_error buffer hvalue hbase h] at hr
    cases hr
  refine ⟨hwritable, fun hneg => ?_⟩
  by_contra hlong
  have hlength := length_digits_le_width hvalue hbase
  rw [witoabuf_overflow buffer hvalue hbase h16 hwritable hneg rfl (hturns _ (by omega)) (by omega)] at hr
  cases hr

end Calls

/-- When the overload for char16_t writes the numeral of its value: negative values of any
base but 10, and the smallest value of a signed type, end in a read before the table of
characters. -/
theorem witoabufChar16_correct_iff (t : IntegerType) (value : ℤ) (hvalue : t.InRange value)
    (base padDigits : ℕ) (hbase : 2 ≤ base) (h16 : base ≤ 16) (hpad : padDigits < 2 ^ 31)
    (buffer : ℕ → ℕ) :
    Writes (witoabufChar16 t value base padDigits buffer) (IsNumeral t value base padDigits) ↔
      Returns t value base padDigits := by
  constructor
  · rintro ⟨cells, length, hr, -⟩
    exact returns_of_witoabuf buffer hvalue hbase h16 hpad (fun n hn => by omega) hr
  · rintro ⟨hwritable, hsign⟩
    have hlength := length_digits_le_width hvalue hbase
    obtain ⟨cells, length, hr, hnul, htext⟩ := witoabuf_ok buffer
      (fun offset => ((padDigits : ℤ) - offset).toNat)
      (padDigits - (digits base value.natAbs).length) hvalue hbase h16 hwritable rfl (by omega)
      (by omega)
      (fun hneg => by have := hsign hneg; omega)
    refine ⟨cells, length, hr, hnul, _, htext, ?_⟩
    have hmagnitude : magnitude t value base = value.natAbs :=
      if_neg fun h => h.2 (hwritable h.1).1
    rw [hmagnitude]
    exact pads_digits hbase h16 value.natAbs padDigits

theorem witoabufChar16_correct_iff_smallest :
    Writes (witoabufChar16 .int32 (-2 ^ 31) 10 0 fun _ => 0) (IsNumeral .int32 (-2 ^ 31) 10 0) ↔
      Returns .int32 (-2 ^ 31) 10 0 :=
  witoabufChar16_correct_iff .int32 (-2 ^ 31) (by decide) 10 0 (by decide) (by decide) (by decide) _

/-- The value -1 has no text in base 16. -/
theorem minusOne_not_written :
    ¬ Writes (witoabufChar16 .int32 (-1) 16 0 fun _ => 0) (IsNumeral .int32 (-1) 16 0) := by
  rintro ⟨cells, length, hr, -⟩
  have herror : witoabufChar16 .int32 (-1) 16 0 (fun _ => 0) = .error .outsideTable := rfl
  rw [herror] at hr
  cases hr

/-- When both overloads write the same text: the padding has to add a zero. Where it does
not, the overload for char adds one all the same. -/
theorem witoabufChar_same_iff (t : IntegerType) (value : ℤ) (hvalue : t.InRange value)
    (base padDigits : ℕ) (hbase : 2 ≤ base) (h16 : base ≤ 16) (hpad : padDigits < 2 ^ 31)
    (buffer buffer' : ℕ → ℕ) :
    SameText (witoabufChar16 t value base padDigits buffer)
        (witoabufChar t value base padDigits buffer') ↔
      Returns t value base padDigits ∧ 2 ≤ padDigits ∧ value.natAbs < base ^ (padDigits - 1) := by
  have hlength := length_digits_le_width hvalue hbase
  have hpos : 0 < (digits base value.natAbs).length :=
    List.length_pos_iff.mpr (digits_ne_nil base _)
  have hfewer : (digits base value.natAbs).length < padDigits ↔
      2 ≤ padDigits ∧ value.natAbs < base ^ (padDigits - 1) := by
    constructor
    · intro hlt
      exact ⟨by omega, (length_digits_le hbase (by omega)).mp (by omega)⟩
    · rintro ⟨htwo, hlt⟩
      have := (length_digits_le hbase (by omega)).mpr hlt
      omega
  rw [← hfewer]
  constructor
  · rintro ⟨cells, cells', length, hr, hr', htext, -⟩
    have hreturns := returns_of_witoabuf buffer hvalue hbase h16 hpad (fun n hn => by omega) hr
    refine ⟨hreturns, ?_⟩
    by_contra hmany
    -- One text ends with the digits, the other has another zero.
    have hwide := (witoabuf_ok buffer (fun offset => ((padDigits : ℤ) - offset).toNat) 0 hvalue hbase
      h16 hreturns.1 rfl (by omega) (by omega) (fun _ => by omega)).length_eq hr
    have hchar := (witoabuf_ok buffer' (fun offset => max 1 ((padDigits : ℤ) - offset).toNat) 1
      hvalue hbase h16 hreturns.1 rfl (by omega) (by omega) (fun _ => by omega)).length_eq hr'
    rw [hwide] at hchar
    simp at hchar
  · rintro ⟨⟨hwritable, hsign⟩, hless⟩
    obtain ⟨cells, length, hr, hnul, htext⟩ := witoabuf_ok buffer
      (fun offset => ((padDigits : ℤ) - offset).toNat)
      (padDigits - (digits base value.natAbs).length) hvalue hbase h16 hwritable rfl (by omega)
      (by omega)
      (fun hneg => by have := hsign hneg; omega)
    obtain ⟨cells', length', hr', hnul', htext'⟩ := witoabuf_ok buffer'
      (fun offset => max 1 ((padDigits : ℤ) - offset).toNat)
      (padDigits - (digits base value.natAbs).length) hvalue hbase h16 hwritable rfl (by omega)
      (by omega)
      (fun hneg => by have := hsign hneg; omega)
    obtain rfl : length' = length := by
      rw [← length_text cells' length', htext', ← htext, length_text]
    exact ⟨cells, cells', length', hr, hr', htext'.trans htext.symm, hnul, hnul'⟩

theorem witoabufChar_same_iff_padded :
    SameText (witoabufChar16 .uint32 0xA08 16 4 fun _ => 0)
        (witoabufChar .uint32 0xA08 16 4 fun _ => 0) ↔
      Returns .uint32 0xA08 16 4 ∧ 2 ≤ 4 ∧ (0xA08 : ℤ).natAbs < 16 ^ (4 - 1) :=
  witoabufChar_same_iff .uint32 0xA08 (by decide) 16 4 (by decide) (by decide) (by decide) _ _

/-- The two texts of zero without padding have one digit and two. So the id that is
formatted for the device with the unique id 0 is not the one that ACPI reports. -/
theorem zero_texts_differ :
    ¬ SameText (witoabufChar16 .uint32 0 10 0 fun _ => 0)
      (witoabufChar .uint32 0 10 0 fun _ => 0) := by
  rintro ⟨cells, cells', length, hr, hr', -⟩
  have hwide : (witoabufChar16 .uint32 0 10 0 fun _ => 0).map Prod.snd = .ok 1 := rfl
  have hchar : (witoabufChar .uint32 0 10 0 fun _ => 0).map Prod.snd = .ok 2 := rfl
  rw [hr] at hwide
  rw [hr'] at hchar
  have hone : length = 1 := Except.ok.inj hwide
  have htwo : length = 2 := Except.ok.inj hchar
  omega

end Enkel.IntegerText
