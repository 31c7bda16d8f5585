import Enkel.IntegerText

/-!
The numbers that three system calls print. Each has a buffer of ten characters on the stack
for its numeral, the sign and the NUL. Here the table of digits is what is in memory around
it, so a negative remainder gives some character too.
-/
namespace Enkel.NumeralBuffers

open Outcome Numerals IntegerText

/-- The characters at the indices of the table, and before and after it. -/
abbrev Table := ℤ → ℕ

/-- The statement `buffer[offset++] = c`. -/
def put (c : ℕ) (w : Written) : Written :=
  { cells := Function.update w.cells w.offset c, offset := w.offset + 1 }

/-- The loop over the digits. -/
def digitCells (table : Table) (t : IntegerType) (base : ℤ) : (fuel : ℕ) → (currentValue : ℤ) →
    Written → Option Written
  | 0, _, _ => none
  | fuel + 1, currentValue, w =>
    let nextValue := t.wrap (currentValue.tdiv base)
    let remainder := t.wrap (currentValue - t.wrap (nextValue * base))
    let w := put (table remainder) w
    if nextValue ≠ 0 then digitCells table t base fuel nextValue w else some w

/-- The overload of witoabuf for char16_t without padding, and the cells that it writes. -/
def witoabuf (table : Table) (t : IntegerType) (value base : ℤ) (buffer : ℕ → ℕ) :
    Option Written := do
  let w ← digitCells table t base t.width (absValue t value base) ⟨buffer, 0⟩
  let w := if isNegative value base then put minusChar w else w
  let w := put 0 w
  return { w with cells := reversePrefix (w.offset - 1) w.cells }

abbrev bufferLength : ℕ := 10

/-- The call returns and has written cells of the buffer only. -/
def Fits (written : Option Written) : Prop := ∃ w, written = some w ∧ w.offset ≤ bufferLength

abbrev archSetFs : ℤ := 0x1002
abbrev archGetFs : ℤ := 0x1003
abbrev archCetStatus : ℤ := 0x3001

section Callers
variable (table : Table) (buffer : ℕ → ℕ)

/-- The Buffer of sys_not_implemented; rax is an unsigned long. -/
def sysNotImplemented (rax : ℤ) : Option Written := witoabuf table .uint64 rax 10 buffer

/-- The Buffer of sys_exit, for the low bits of the exit code. -/
def sysExit (exitCode : ℤ) : Option Written :=
  witoabuf table .int32 (IntegerType.wrap .int32 exitCode) 10 buffer

/-- The Buffer of sys_arch_prctl, which the codes that it knows leave alone. -/
def sysArchPrctl (code : ℤ) : Option Written :=
  if code = archSetFs ∨ code = archGetFs ∨ code = archCetStatus then some ⟨buffer, 0⟩
  else witoabuf table .int32 code 16 buffer

end Callers

section Cells
variable {table : Table} {t : IntegerType} {base : ℕ} {w w' : Written} {buffer : ℕ → ℕ}

theorem digitCells_succ {v : ℤ} (hv : t.InRange v) (fuel : ℕ) :
    digitCells table t base (fuel + 1) v w =
      if v.tdiv base ≠ 0 then digitCells table t base fuel (v.tdiv base) (put (table (v.tmod base)) w)
      else some (put (table (v.tmod base)) w) := by
  obtain ⟨hnext, hremainder⟩ := turn_values hv base
  rw [digitCells, hnext, hremainder]

/-- The loop writes as many cells as the absolute value has digits. -/
theorem digitCells_offset (hbase : 2 ≤ base) (fuel : ℕ) {v : ℤ} (hv : t.InRange v)
    (hpos : 0 < fuel) (hfuel : v.natAbs < 2 ^ fuel) :
    ∃ w', digitCells table t base fuel v w = some w' ∧
      w'.offset = w.offset + (digits base v.natAbs).length ∧
      ∀ i, w'.offset ≤ i → w'.cells i = w.cells i := by
  induction fuel generalizing v w with
  | zero => omega
  | succ fuel ih =>
    have hquotient : (v.tdiv base).natAbs = v.natAbs / base := by
      rw [Int.natAbs_tdiv, Int.natAbs_natCast]
      rfl
    have hput : ∀ i, w.offset + 1 ≤ i → (put (table (v.tmod base)) w).cells i = w.cells i :=
      fun i hi => Function.update_of_ne (by omega) _ _
    rw [digitCells_succ hv]
    by_cases hlast : v.natAbs < base
    · have hzero : v.tdiv base = 0 := by
        rw [← Int.natAbs_eq_zero, hquotient, Nat.div_eq_of_lt hlast]
      rw [if_neg fun h => h hzero, digits_of_lt hlast]
      exact ⟨_, rfl, rfl, hput⟩
    · have hle : base ≤ v.natAbs := Nat.le_of_not_lt hlast
      obtain ⟨hnext, hless, hfuelpos⟩ := div_of_le hbase hle hfuel
      obtain ⟨w', hloop, hoffset, hcells⟩ := ih (w := put (table (v.tmod base)) w) (inRange_tdiv hv base) hfuelpos
        (by rw [hquotient]; exact hless)
      rw [if_pos (by rw [← Int.natAbs_ne_zero, hquotient]; omega), digits_of_le hbase hle]
      refine ⟨w', hloop, ?_, fun i hi => ?_⟩
      · rw [hoffset, hquotient, List.length_cons]
        simp only [put]
        omega
      · have hput' := hput i (by rw [hoffset] at hi; simp only [put] at hi; omega)
        rw [hcells i hi, hput']

/-- What witoabuf writes: the digits of the absolute value, the sign and the NUL. -/
theorem witoabuf_offset (table : Table) (buffer : ℕ → ℕ) {value : ℤ} (hvalue : t.InRange value)
    (hbase : 2 ≤ base) :
    ∃ w, witoabuf table t value base buffer = some w ∧
      w.offset = (digits base value.natAbs).length +
        (if isNegative value base then 1 else 0) + 1 ∧
      ∀ i, w.offset ≤ i → w.cells i = buffer i := by
  have habs : (absValue t value base).natAbs = value.natAbs := by
    unfold absValue
    split_ifs with hneg
    · rw [IntegerType.wrap_neg hvalue hneg.1]
      split_ifs
      · rfl
      · exact Int.natAbs_neg value
    · rfl
  have habsRange := inRange_absValue hvalue base
  obtain ⟨w, hloop, hoffset, hcells⟩ := @digitCells_offset table t base ⟨buffer, 0⟩ hbase
    t.width _ habsRange t.width_pos (IntegerType.natAbs_lt habsRange)
  rw [habs, zero_add] at hoffset
  obtain ⟨w1, hw1, hoffset1, hcells1⟩ : ∃ w1,
      w1 = (if isNegative value base then put minusChar w else w) ∧
      w1.offset = w.offset + (if isNegative value base then 1 else 0) ∧
      ∀ i, w1.offset ≤ i → w1.cells i = buffer i := by
    refine ⟨_, rfl, ?_⟩
    split_ifs
    · exact ⟨rfl, fun i hi => (Function.update_of_ne (by simp only [put] at hi; omega) _ _).trans
        (hcells i (by simp only [put] at hi; omega))⟩
    · exact ⟨rfl, hcells⟩
  have hpos : 0 < (digits base value.natAbs).length :=
    List.length_pos_iff.mpr (digits_ne_nil base _)
  refine ⟨{ put 0 w1 with cells := reversePrefix ((put 0 w1).offset - 1) (put 0 w1).cells },
    ?_, ?_, fun i hi => ?_⟩
  · unfold witoabuf
    rw [hloop, hw1]
    rfl
  · simp only [put]
    rw [hoffset1, hoffset]
  · simp only [put] at hi ⊢
    rw [Nat.add_sub_cancel, reversePrefix_apply (by omega), if_neg (by omega),
      Function.update_of_ne (by omega), hcells1 i (by omega)]

/-- Where the digits are those of the table, the text is the one that the code means. -/
theorem witoabuf_eq {value : ℤ} {cells : ℕ → ℕ} {length : ℕ}
    (htable : ∀ r c, character r = .ok c → table r = c)
    (h : witoabufChar16 t value base 0 buffer = .ok (cells, length)) :
    witoabuf table t value base buffer = some ⟨cells, length + 1⟩ := by
  have hpush : ∀ {c : ℕ} {w w' : Written}, w.push c = .ok w' → w' = put c w := by
    intro c w w' hpush
    obtain ⟨_, -, hw'⟩ := bind_eq_ok.mp hpush
    exact (Except.ok.inj hw').symm
  have hloop : ∀ fuel v w w', digitLoop t base fuel v w = .ok w' →
      digitCells table t base fuel v w = some w' := by
    intro fuel
    induction fuel with
    | zero => exact fun v w w' h => nomatch h
    | succ fuel ih =>
      intro v w w' h
      obtain ⟨c, hc, h⟩ := bind_eq_ok.mp h
      obtain ⟨w1, hw1, h⟩ := bind_eq_ok.mp h
      obtain rfl := hpush hw1
      unfold digitCells
      simp only [htable _ _ hc]
      split_ifs at h ⊢
      · exact ih _ _ _ h
      · exact congrArg some (Except.ok.inj h)
  obtain ⟨w, hw, h⟩ := bind_eq_ok.mp h
  obtain ⟨w1, hw1, h⟩ := bind_eq_ok.mp h
  have hturns : ((0 : ℤ) - w.offset).toNat = 0 := by omega
  dsimp only at hw1
  rw [hturns] at hw1
  obtain rfl := Except.ok.inj hw1
  unfold witoabuf
  rw [hloop _ _ _ _ hw]
  unfold finish at h
  by_cases hneg : isNegative value base
  · simp only [if_pos hneg] at h
    obtain ⟨w2, hw2, h⟩ := bind_eq_ok.mp h
    obtain rfl := hpush hw2
    obtain ⟨rfl, rfl⟩ := Prod.mk.inj (Except.ok.inj h)
    simp only [Option.bind_eq_bind, Option.bind_some, if_pos hneg]
    rfl
  · simp only [if_neg hneg] at h
    obtain ⟨rfl, rfl⟩ := Prod.mk.inj (Except.ok.inj h)
    simp only [Option.bind_eq_bind, Option.bind_some, if_neg hneg]
    rfl

end Cells

section Fits
variable {table : Table} {t : IntegerType} {base : ℕ} {buffer : ℕ → ℕ}

theorem fits_iff {value : ℤ} (hvalue : t.InRange value) (hbase : 2 ≤ base) :
    Fits (witoabuf table t value base buffer) ↔
      value.natAbs < base ^ (if isNegative value base then 8 else 9) := by
  obtain ⟨w, hw, hoffset, -⟩ := witoabuf_offset table buffer hvalue hbase
  have hfits : Fits (witoabuf table t value base buffer) ↔ w.offset ≤ bufferLength := by
    rw [hw]
    exact ⟨fun ⟨_, h, hle⟩ => Option.some.inj h ▸ hle, fun hle => ⟨w, rfl, hle⟩⟩
  have hlength : bufferLength = 10 := rfl
  rw [hfits, hoffset]
  by_cases hneg : isNegative value base
  · rw [if_pos hneg, if_pos hneg, ← length_digits_le hbase (by decide)]
    omega
  · rw [if_neg hneg, if_neg hneg, ← length_digits_le hbase (by decide)]
    omega

/-- Eight hexadecimal digits are enough for a value of 32 bits. -/
theorem sysArchPrctl_fits (table : Table) (buffer : ℕ → ℕ) {code : ℤ}
    (hcode : IntegerType.InRange .int32 code) : Fits (sysArchPrctl table buffer code) := by
  unfold sysArchPrctl
  split_ifs with hknown
  · exact ⟨_, rfl, Nat.zero_le _⟩
  · have hnot : ¬ isNegative code ((16 : ℕ) : ℤ) := fun h => absurd h.2 (by decide)
    have hlt := IntegerType.natAbs_lt hcode
    refine (@fits_iff table .int32 16 buffer _ hcode (by decide)).mpr ?_
    rw [if_neg hnot]
    exact hlt.trans (by decide)

theorem decimal_fits_iff {value : ℤ} (hvalue : t.InRange value) :
    Fits (witoabuf table t value 10 buffer) ↔ -10 ^ 8 < value ∧ value < 10 ^ 9 := by
  have hfits := @fits_iff table t 10 buffer _ hvalue (by decide)
  have hneg : isNegative value ((10 : ℕ) : ℤ) ↔ value < 0 := and_iff_left rfl
  refine hfits.trans ?_
  split_ifs with h
  · rw [hneg] at h
    omega
  · rw [hneg] at h
    omega

end Fits

/-- The numerals stay in their buffers exactly when a number has at most nine digits, with the
sign if it has one. What sys_arch_prctl prints has at most eight. -/
theorem numerals_fit_iff (table : Table) (buffer : ℕ → ℕ) (rax exitCode code : ℤ)
    (hrax : IntegerType.InRange .uint64 rax) (hcode : IntegerType.InRange .int32 code) :
    (Fits (sysNotImplemented table buffer rax) ∧ Fits (sysExit table buffer exitCode) ∧
        Fits (sysArchPrctl table buffer code)) ↔
      rax < 10 ^ 9 ∧ -10 ^ 8 < IntegerType.wrap .int32 exitCode ∧
        IntegerType.wrap .int32 exitCode < 10 ^ 9 := by
  have hnumber : Fits (sysNotImplemented table buffer rax) ↔ -10 ^ 8 < rax ∧ rax < 10 ^ 9 :=
    decimal_fits_iff hrax
  have hexit : Fits (sysExit table buffer exitCode) ↔
      -10 ^ 8 < IntegerType.wrap .int32 exitCode ∧ IntegerType.wrap .int32 exitCode < 10 ^ 9 :=
    decimal_fits_iff (IntegerType.inRange_wrap exitCode)
  have hcodeFits := sysArchPrctl_fits table buffer hcode
  have hnonneg : 0 ≤ rax := hrax.1
  rw [hnumber, hexit]
  constructor
  · exact fun h => ⟨h.1.2, h.2.1⟩
  · exact fun h => ⟨⟨by omega, h.1⟩, h.2, hcodeFits⟩

theorem numerals_fit_iff_small : (Fits (sysNotImplemented (fun _ => 0) (fun _ => 0) 399) ∧
      Fits (sysExit (fun _ => 0) (fun _ => 0) (-1)) ∧
      Fits (sysArchPrctl (fun _ => 0) (fun _ => 0) 0x1001)) ↔
    (399 : ℤ) < 10 ^ 9 ∧ -10 ^ 8 < IntegerType.wrap .int32 (-1) ∧
      IntegerType.wrap .int32 (-1) < 10 ^ 9 :=
  numerals_fit_iff _ _ 399 (-1) 0x1001 (by decide) (by decide)

/-- For the system call 10^9 ten digits and the NUL are written. -/
theorem billion_overflows : ¬ Fits (sysNotImplemented (fun _ => 0) (fun _ => 0) (10 ^ 9)) := by
  have hlength : (sysNotImplemented (fun _ => 0) (fun _ => 0) (10 ^ 9)).map Written.offset =
      some 11 := by decide +kernel
  rintro ⟨w, hw, hle⟩
  rw [hw] at hlength
  have hoffset : w.offset = 11 := Option.some.inj hlength
  have hbound : bufferLength = 10 := rfl
  omega

end Enkel.NumeralBuffers
