import Mathlib.Algebra.Order.BigOperators.Group.List
import Mathlib.Order.Bounds.Defs
import Enkel.Types

/-!
How the frequency of the timer is measured. Of six samples the lowest and the highest are left
out: the pass over them overwrites what it has left out with all ones, which is no sample, so
that a second sample with the same value is counted.
-/
namespace Enkel.Hpet

open Outcome

inductive Fault
  | divisionByZero
deriving DecidableEq, Repr

/-- GetCalibrationHPETSampleNS, by the counter before and after the wait. -/
def getCalibrationHPETSampleNS (warmUp : Bool) (counters : ℕ × ℕ) : ℕ :=
  let delayInMS := if warmUp then 1 else 50
  let secondFractions := 1000 / delayInMS
  sub64 counters.2 counters.1 * secondFractions % 2 ^ 64

/-- What stands for an extreme that has been left out. -/
abbrev leftOut : ℕ := 2 ^ 64 - 1

structure Extremes where
  lowest : ℕ
  highest : ℕ
deriving DecidableEq, Repr

/-- A turn of the loop that identifies the extremes. -/
def Extremes.turn (e : Extremes) (sample : ℕ) : Extremes where
  lowest := if sample < e.lowest then sample else e.lowest
  highest := if sample > e.highest then sample else e.highest

def extremes (samples : List ℕ) : Extremes := samples.foldl Extremes.turn ⟨leftOut, 0⟩

structure Averaging extends Extremes where
  total : ℕ
  samplesUsed : ℕ
deriving DecidableEq, Repr

/-- A turn of the loop that adds the samples up. -/
def Averaging.turn (a : Averaging) (sample : ℕ) : Averaging :=
  if sample = a.lowest then { a with lowest := leftOut }
  else if sample = a.highest then { a with highest := leftOut }
  else { a with total := add64 a.total sample, samplesUsed := a.samplesUsed + 1 }

/-- The variables behind the two loops. -/
def averaging (samples : List ℕ) : Averaging :=
  samples.foldl Averaging.turn ⟨extremes samples, 0, 0⟩

/-- What HpetTicksPerNanosecond is set to. -/
def ticksOf (samples : List ℕ) : Except Fault ℕ := do
  let a := averaging samples
  require (a.samplesUsed ≠ 0) .divisionByZero
  return a.total / a.samplesUsed

/-- The calibration in InitHPET, by the counters before and after each wait. The first sample
is thrown away. -/
def initHPET (counters : List (ℕ × ℕ)) : Except Fault ℕ :=
  ticksOf (counters.tail.map (getCalibrationHPETSampleNS false))

section Extremes
variable {samples : List ℕ} {e : Extremes}

/-- A variable that is kept or set to the sample, so that it is at least as extreme as both. -/
theorem foldl_turn_extreme {r : ℕ → ℕ → Prop} [IsPreorder ℕ r] {field : Extremes → ℕ}
    (hbounds : ∀ e s, r (field (e.turn s)) (field e) ∧ r (field (e.turn s)) s)
    (hone : ∀ e s, field (e.turn s) = field e ∨ field (e.turn s) = s) :
    (field (samples.foldl Extremes.turn e) = field e ∨
        field (samples.foldl Extremes.turn e) ∈ samples) ∧
      r (field (samples.foldl Extremes.turn e)) (field e) ∧
      ∀ s ∈ samples, r (field (samples.foldl Extremes.turn e)) s := by
  induction samples generalizing e with
  | nil => exact ⟨Or.inl rfl, refl_of r _, fun s hs => nomatch hs⟩
  | cons sample samples ih =>
    obtain ⟨hmem, hbound, hall⟩ := @ih (e.turn sample)
    obtain ⟨hbefore, hsample⟩ := hbounds e sample
    rw [List.foldl_cons]
    refine ⟨?_, trans_of r hbound hbefore,
      List.forall_mem_cons.mpr ⟨trans_of r hbound hsample, hall⟩⟩
    rcases hmem with hsame | hmem
    · rw [hsame]
      rcases hone e sample with hkept | hset
      · exact Or.inl hkept
      · rw [hset]
        exact Or.inr List.mem_cons_self
    · exact Or.inr (List.mem_cons_of_mem _ hmem)

theorem foldl_turn_lowest :
    ((samples.foldl Extremes.turn e).lowest = e.lowest ∨
        (samples.foldl Extremes.turn e).lowest ∈ samples) ∧
      (samples.foldl Extremes.turn e).lowest ≤ e.lowest ∧
      ∀ s ∈ samples, (samples.foldl Extremes.turn e).lowest ≤ s := by
  apply foldl_turn_extreme (r := (· ≤ ·))
  · intro e s
    unfold Extremes.turn
    dsimp only
    split_ifs <;> omega
  · intro e s
    exact (ite_eq_or_eq _ _ _).symm

theorem foldl_turn_highest :
    ((samples.foldl Extremes.turn e).highest = e.highest ∨
        (samples.foldl Extremes.turn e).highest ∈ samples) ∧
      e.highest ≤ (samples.foldl Extremes.turn e).highest ∧
      ∀ s ∈ samples, s ≤ (samples.foldl Extremes.turn e).highest := by
  apply foldl_turn_extreme (r := (· ≥ ·))
  · intro e s
    unfold Extremes.turn
    dsimp only
    split_ifs <;> omega
  · intro e s
    exact (ite_eq_or_eq _ _ _).symm

/-- The first loop finds the extremes of numbers that all ones bound. -/
theorem extremes_spec (hne : samples ≠ []) (hlt : ∀ s ∈ samples, s < leftOut) :
    IsLeast {s | s ∈ samples} (extremes samples).lowest ∧
      IsGreatest {s | s ∈ samples} (extremes samples).highest := by
  obtain ⟨s, hs⟩ := List.exists_mem_of_ne_nil _ hne
  have hlts := hlt s hs
  obtain ⟨hlow, -, hlowest⟩ := @foldl_turn_lowest samples ⟨leftOut, 0⟩
  obtain ⟨hhigh, -, hhighest⟩ := @foldl_turn_highest samples ⟨leftOut, 0⟩
  have hles := hlowest s hs
  refine ⟨⟨hlow.resolve_left fun heq => ?_, hlowest⟩, ?_, hhighest⟩
  · rw [heq] at hles
    exact absurd hlts (not_lt.mpr hles)
  · rcases hhigh with hzero | hmem
    · -- the highest sample is zero, as is the one at hand
      have hle := hhighest s hs
      rw [hzero] at hle
      have hs0 : s = 0 := Nat.le_zero.mp hle
      have hhere : (extremes samples).highest = s := hzero.trans hs0.symm
      show (extremes samples).highest ∈ samples
      rw [hhere]
      exact hs
    · exact hmem

end Extremes

section Average
variable {samples : List ℕ} {a : Averaging}

/-- The second loop leaves out one sample for each extreme. -/
theorem foldl_turn_total (hleft : leftOut ∉ samples) :
    (samples.foldl Averaging.turn a).total % 2 ^ 64 =
        (a.total + ((samples.erase a.lowest).erase a.highest).sum) % 2 ^ 64 ∧
      (samples.foldl Averaging.turn a).samplesUsed =
        a.samplesUsed + ((samples.erase a.lowest).erase a.highest).length := by
  induction samples generalizing a with
  | nil => exact ⟨rfl, rfl⟩
  | cons sample samples ih =>
    obtain ⟨hne, hleft⟩ := not_or.mp (List.mem_cons.not.mp hleft)
    obtain ⟨htotal, hused⟩ := @ih (a.turn sample) hleft
    rw [List.foldl_cons, htotal, hused]
    unfold Averaging.turn
    by_cases hlow : sample = a.lowest
    · rw [if_pos hlow, hlow, List.erase_cons_head, List.erase_of_not_mem hleft]
      exact ⟨rfl, rfl⟩
    · rw [if_neg hlow, List.erase_cons_tail (by simpa using hlow)]
      by_cases hhigh : sample = a.highest
      · have hrest : leftOut ∉ samples.erase a.lowest := fun h => hleft (List.mem_of_mem_erase h)
        rw [if_pos hhigh, hhigh, List.erase_cons_head, List.erase_of_not_mem hrest]
        exact ⟨rfl, rfl⟩
      · rw [if_neg hhigh, List.erase_cons_tail (by simpa using hhigh), List.sum_cons,
          List.length_cons]
        dsimp only
        unfold add64
        exact ⟨by omega, by omega⟩

/-- Two samples that are left out of at least two. -/
theorem sum_erase_erase {lowest highest : ℕ} (hlength : 2 ≤ samples.length)
    (hlow : IsLeast {s | s ∈ samples} lowest) (hhigh : IsGreatest {s | s ∈ samples} highest) :
    lowest + highest + ((samples.erase lowest).erase highest).sum = samples.sum ∧
      ((samples.erase lowest).erase highest).length = samples.length - 2 := by
  have hlowMem : lowest ∈ samples := hlow.1
  have hlengthErase := List.length_erase_of_mem hlowMem
  have hmem : highest ∈ samples.erase lowest := by
    by_cases heq : highest = lowest
    · -- all the samples are equal, and another one is left
      obtain ⟨s, hs⟩ := List.exists_mem_of_length_pos (l := samples.erase lowest) (by omega)
      have hsmem : s ∈ samples := List.mem_of_mem_erase hs
      have hle := hlow.2 hsmem
      have hge := hhigh.2 hsmem
      obtain rfl : s = highest := by omega
      exact hs
    · exact (List.mem_erase_of_ne heq).mpr hhigh.1
  have hsumLow := List.sum_erase hlowMem
  have hsumHigh := List.sum_erase hmem
  have hlengthHigh := List.length_erase_of_mem hmem
  exact ⟨by omega, by omega⟩

end Average

section Six
variable {samples : List ℕ}

theorem foldl_turn_total_lt {a : Averaging} (ha : a.total < 2 ^ 64) :
    (samples.foldl Averaging.turn a).total < 2 ^ 64 := by
  induction samples generalizing a with
  | nil => exact ha
  | cons sample samples ih =>
    apply ih
    unfold Averaging.turn
    split_ifs
    · exact ha
    · exact ha
    · exact Nat.mod_lt _ (by decide)

theorem ticksOf_of_used (hused : (averaging samples).samplesUsed = 4) :
    ticksOf samples = .ok ((averaging samples).total / 4) := by
  have hcounted : (averaging samples).samplesUsed ≠ 0 := by
    rw [hused]
    decide
  unfold ticksOf
  dsimp only
  rw [require_true hcounted, ok_bind, hused]
  rfl

theorem averaging_of_bounds {lowest highest : ℕ} (hlength : samples.length = 6)
    (hlt : ∀ s ∈ samples, s < 2 ^ 61) (hlow : IsLeast {s | s ∈ samples} lowest)
    (hhigh : IsGreatest {s | s ∈ samples} highest)
    (hfound : extremes samples = ⟨lowest, highest⟩) :
    (averaging samples).samplesUsed = 4 ∧
      (averaging samples).total + lowest + highest = samples.sum := by
  have hleft : leftOut ∉ samples := fun h => absurd (hlt _ h) (by decide)
  obtain ⟨htotal, hused⟩ := @foldl_turn_total samples ⟨extremes samples, 0, 0⟩ hleft
  obtain ⟨hsum, hrest⟩ := sum_erase_erase (by omega) hlow hhigh
  rw [hfound] at htotal hused
  dsimp only at htotal hused
  have hbound : ((samples.erase lowest).erase highest).sum ≤
      ((samples.erase lowest).erase highest).length * 2 ^ 61 := by
    refine List.sum_le_card_nsmul _ _ fun s hs => ?_
    exact (hlt s (List.mem_of_mem_erase (List.mem_of_mem_erase hs))).le
  have htotalLt := @foldl_turn_total_lt samples ⟨extremes samples, 0, 0⟩ (Nat.zero_lt_succ _)
  unfold averaging
  rw [hfound] at htotalLt ⊢
  exact ⟨by omega, by omega⟩

end Six

/-- Four of the six samples are added up, all but a lowest and a highest one, and the average
is rounded down. No sum is larger than a word. -/
theorem averages_four (samples : List ℕ) (hlength : samples.length = 6)
    (hlt : ∀ s ∈ samples, s < 2 ^ 61) : ∃ lowest highest, IsLeast {s | s ∈ samples} lowest ∧
      IsGreatest {s | s ∈ samples} highest ∧ (averaging samples).samplesUsed = 4 ∧
      (averaging samples).total + lowest + highest = samples.sum ∧
      ticksOf samples = .ok ((samples.sum - lowest - highest) / 4) := by
  have hne : samples ≠ [] := fun h => absurd hlength (by rw [h]; decide)
  obtain ⟨hlow, hhigh⟩ := extremes_spec hne fun s hs => (hlt s hs).trans (by decide)
  obtain ⟨hused, hsum⟩ := averaging_of_bounds hlength hlt hlow hhigh rfl
  refine ⟨_, _, hlow, hhigh, hused, hsum, ?_⟩
  rw [ticksOf_of_used hused, ← hsum]
  congr 2
  omega

/-- The lowest and the highest sample occur twice here. -/
theorem averages_four_repeated : ∃ lowest highest,
    IsLeast {s | s ∈ [30, 10, 50, 10, 50, 20]} lowest ∧
      IsGreatest {s | s ∈ [30, 10, 50, 10, 50, 20]} highest ∧
      (averaging [30, 10, 50, 10, 50, 20]).samplesUsed = 4 ∧
      (averaging [30, 10, 50, 10, 50, 20]).total + lowest + highest =
        [30, 10, 50, 10, 50, 20].sum ∧
      ticksOf [30, 10, 50, 10, 50, 20] =
        .ok (([30, 10, 50, 10, 50, 20].sum - lowest - highest) / 4) :=
  averages_four [30, 10, 50, 10, 50, 20] rfl (by simp)

/-- A counter that has gone on by the same number of ticks in each wait gives its frequency. -/
theorem initHPET_of_steady {counters : List (ℕ × ℕ)} {ticks : ℕ} (hlength : counters.length = 7)
    (hticks : ticks < 2 ^ 56) (hsteady : ∀ c ∈ counters, sub64 c.2 c.1 = ticks) :
    initHPET counters = .ok (ticks * 20) := by
  obtain ⟨samples, hsamples⟩ :
      ∃ samples, samples = counters.tail.map (getCalibrationHPETSampleNS false) := ⟨_, rfl⟩
  have hsix : samples.length = 6 := by
    rw [hsamples, List.length_map, List.length_tail, hlength]
  have hall : ∀ s ∈ samples, s = ticks * 20 := by
    intro s hs
    rw [hsamples] at hs
    obtain ⟨c, hc, rfl⟩ := List.mem_map.mp hs
    have hpassed := hsteady c (List.mem_of_mem_tail hc)
    show sub64 c.2 c.1 * 20 % 2 ^ 64 = ticks * 20
    rw [hpassed]
    omega
  have hlt : ∀ s ∈ samples, s < 2 ^ 61 := fun s hs => by
    have hs := hall s hs
    omega
  have hne : samples ≠ [] := fun h => absurd hsix (by rw [h]; decide)
  obtain ⟨hlow, hhigh⟩ := extremes_spec hne fun s hs => (hlt s hs).trans (by decide)
  obtain ⟨hused, hsum⟩ := averaging_of_bounds hsix hlt hlow hhigh rfl
  have hlowEq := hall _ hlow.1
  have hhighEq := hall _ hhigh.1
  have htotal : samples.sum = 6 * (ticks * 20) := by
    rw [List.eq_replicate_of_mem hall, List.sum_replicate_nat, hsix]
  unfold initHPET
  rw [← hsamples, ticksOf_of_used hused]
  congr 1
  omega

end Enkel.Hpet
