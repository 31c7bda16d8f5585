import Enkel.HpetCalibration

/-!
The sleeps of time.cpp and the system call over them. A sleep computes the value of the counter
at which it ends, a 64-bit sum, and spins while the counter is below it. The ticks for a second
are HpetTicksPerNanosecond, whatever the name says: a sleep of nanoseconds divides by a thousand
where it has to divide by 10^9. The system call only looks at the nanoseconds of its time, in
whole milliseconds.
-/
namespace Enkel.Hpet

/-- Start and End of a sleep. -/
structure Wait where
  start : ℕ
  last : ℕ
deriving DecidableEq, Repr

namespace Wait

/-- The condition of the loop. -/
def goesOn (w : Wait) (counter : ℕ) : Bool := counter < w.last

/-- The ticks after which the loop is left. There are none if the end lies below the start. -/
def ticks (w : Wait) : ℕ := w.last - w.start

theorem goesOn_iff {w : Wait} {passed : ℕ} :
    w.goesOn (w.start + passed) = true ↔ passed < w.ticks := by
  unfold goesOn ticks
  rw [decide_eq_true_iff]
  omega

end Wait

section Functions

def hpetSleepNS (frequency start nanoseconds : ℕ) : Wait :=
  ⟨start, add64 start (nanoseconds * frequency % 2 ^ 64 / 1000)⟩

def hpetSleepUS (frequency start microseconds : ℕ) : Wait :=
  ⟨start, add64 start (microseconds * frequency % 2 ^ 64 / (1000 * 1000))⟩

def hpetSleepMS (frequency start milliseconds : ℕ) : Wait :=
  hpetSleepUS frequency start (1000 * milliseconds % 2 ^ 64)

structure Timespec where
  tvSec : ℤ
  tvNsec : ℤ
deriving DecidableEq, Repr

/-- sys_clock_nanosleep: the wait, if there is one. What it returns is zero. -/
def sysClockNanosleep (frequency start : ℕ) (rqtp : Option Timespec) : Option Wait :=
  rqtp.map fun time =>
    hpetSleepMS frequency start (time.tvNsec.tdiv (1000 * 1000) % 2 ^ 64).toNat

end Functions

/-- A call of one of the sleeps of the kernel. -/
inductive Sleep
  | nanoseconds (n : ℕ)
  | microseconds (n : ℕ)
  | milliseconds (n : ℕ)
deriving DecidableEq, Repr

namespace Sleep

def wait (frequency start : ℕ) : Sleep → Wait
  | nanoseconds n => hpetSleepNS frequency start n
  | microseconds n => hpetSleepUS frequency start n
  | milliseconds n => hpetSleepMS frequency start n

/-- What is asked for, in nanoseconds. -/
def duration : Sleep → ℕ
  | nanoseconds n => n
  | microseconds n => n * 10 ^ 3
  | milliseconds n => n * 10 ^ 6

/-- The sleep waits for the ticks of its duration, rounded down. -/
def Exact (frequency start : ℕ) (s : Sleep) : Prop :=
  (s.wait frequency start).ticks = s.duration * frequency / 10 ^ 9

/-- The end of the sleep is a word, and a sleep of nanoseconds asks for too little to wait. One
that asks for less than a tick also waits for none if its end has wrapped around. -/
def Right (frequency start : ℕ) (s : Sleep) : Prop :=
  match s with
  | nanoseconds n => n * frequency < 1000 ∨
      (n * frequency < 10 ^ 9 ∧ 2 ^ 64 ≤ start + n * frequency / 1000)
  | microseconds n => start + n * frequency / 10 ^ 6 < 2 ^ 64
  | milliseconds n => start + n * frequency / 10 ^ 3 < 2 ^ 64

end Sleep

namespace Timespec

/-- The call waits for all of the time. -/
def Waited (frequency start : ℕ) (time : Timespec) : Prop :=
  ∃ w, sysClockNanosleep frequency start (some time) = some w ∧
    (time.tvSec * 10 ^ 9 + time.tvNsec) * frequency ≤ w.ticks * 10 ^ 9

/-- There are no seconds, and the nanoseconds are whole milliseconds that take whole ticks. -/
def Right (frequency start : ℕ) (time : Timespec) : Prop :=
  time.tvSec = 0 ∧ 10 ^ 6 ∣ time.tvNsec ∧ 10 ^ 9 ∣ time.tvNsec * frequency ∧
    start + time.tvNsec * frequency / 10 ^ 9 < 2 ^ 64

end Timespec

section Sleeps
variable {frequency start : ℕ}

/-- A sum that is not a word is below its start, and the loop is left at once. -/
theorem ticks_add64 {length : ℕ} (hstart : start < 2 ^ 64) (hlength : length < 2 ^ 64) :
    (Wait.mk start (add64 start length)).ticks =
      if start + length < 2 ^ 64 then length else 0 := by
  unfold Wait.ticks add64
  dsimp only
  split_ifs <;> omega

theorem ticks_hpetSleepNS {n : ℕ} (hstart : start < 2 ^ 64) (hn : n * frequency < 2 ^ 64) :
    (hpetSleepNS frequency start n).ticks =
      if start + n * frequency / 1000 < 2 ^ 64 then n * frequency / 1000 else 0 := by
  unfold hpetSleepNS
  rw [Nat.mod_eq_of_lt hn]
  apply ticks_add64 hstart
  omega

theorem ticks_hpetSleepUS {n : ℕ} (hstart : start < 2 ^ 64) (hn : n * frequency < 2 ^ 64) :
    (hpetSleepUS frequency start n).ticks =
      if start + n * frequency / 10 ^ 6 < 2 ^ 64 then n * frequency / 10 ^ 6 else 0 := by
  unfold hpetSleepUS
  rw [Nat.mod_eq_of_lt hn]
  apply ticks_add64 hstart
  omega

theorem ticks_hpetSleepMS {n : ℕ} (hstart : start < 2 ^ 64) (hn : n < 2 ^ 50)
    (hproduct : 1000 * (n * frequency) < 2 ^ 64) :
    (hpetSleepMS frequency start n).ticks =
      if start + n * frequency / 10 ^ 3 < 2 ^ 64 then n * frequency / 10 ^ 3 else 0 := by
  have hdiv : 1000 * n * frequency / 10 ^ 6 = n * frequency / 10 ^ 3 := by
    rw [Nat.mul_assoc]
    omega
  unfold hpetSleepMS
  rw [Nat.mod_eq_of_lt (by omega), ticks_hpetSleepUS hstart (by rwa [Nat.mul_assoc]), hdiv]

/-- So many ticks in a minute at most. -/
theorem minute_mul_le {duration : ℕ} (hf : frequency ≤ 10 ^ 8) (hminute : duration ≤ 60 * 10 ^ 9) :
    duration * frequency ≤ 6 * 10 ^ 18 :=
  calc
    duration * frequency ≤ 60 * 10 ^ 9 * 10 ^ 8 := Nat.mul_le_mul hminute hf
    _ = 6 * 10 ^ 18 := by norm_num

/-- A sleep is exact under the condition for its unit. -/
theorem Sleep.exact_iff {s : Sleep} (hf : frequency ≤ 10 ^ 8) (hstart : start < 2 ^ 64)
    (hminute : s.duration ≤ 60 * 10 ^ 9) :
    s.Exact frequency start ↔ s.Right frequency start := by
  have hproduct := minute_mul_le hf hminute
  unfold Sleep.Exact Sleep.Right
  cases s with
  | nanoseconds n =>
    dsimp only [Sleep.duration, Sleep.wait] at *
    rw [ticks_hpetSleepNS hstart (by omega)]
    split_ifs <;> omega
  | microseconds n =>
    dsimp only [Sleep.duration, Sleep.wait] at *
    rw [Nat.mul_right_comm] at hproduct ⊢
    rw [ticks_hpetSleepUS hstart (by omega)]
    split_ifs <;> omega
  | milliseconds n =>
    dsimp only [Sleep.duration, Sleep.wait] at *
    rw [Nat.mul_right_comm] at hproduct ⊢
    rw [ticks_hpetSleepMS hstart (by omega) (by omega)]
    split_ifs <;> omega

end Sleeps

section Clock
variable {frequency start seconds n : ℕ}

/-- The nanoseconds in whole milliseconds take as many ticks as the whole time only if nothing
is cut off. -/
theorem le_milliseconds_iff (hf : 1 ≤ frequency) (hstart : start < 2 ^ 64) :
    (seconds * 10 ^ 9 + n) * frequency ≤
        (if start + n / 10 ^ 6 * frequency / 10 ^ 3 < 2 ^ 64
          then n / 10 ^ 6 * frequency / 10 ^ 3 else 0) * 10 ^ 9 ↔
      seconds = 0 ∧ 10 ^ 6 ∣ n ∧ 10 ^ 9 ∣ n * frequency ∧
        start + n * frequency / 10 ^ 9 < 2 ^ 64 := by
  obtain ⟨p, hp⟩ : ∃ p, p = n / 10 ^ 6 * frequency := ⟨_, rfl⟩
  obtain ⟨q, hq⟩ : ∃ q, q = n % 10 ^ 6 * frequency := ⟨_, rfl⟩
  obtain ⟨t, ht⟩ : ∃ t, t = seconds * frequency := ⟨_, rfl⟩
  have hproduct : n * frequency = p * 10 ^ 6 + q := by
    rw [hp, hq, Nat.mul_right_comm, ← Nat.add_mul, Nat.div_add_mod']
  have hwhole : (seconds * 10 ^ 9 + n) * frequency = t * 10 ^ 9 + (p * 10 ^ 6 + q) := by
    rw [Nat.add_mul, Nat.mul_right_comm, ← ht, hproduct]
  have hdvd : 10 ^ 6 ∣ n ↔ q = 0 := by
    rw [hq, Nat.dvd_iff_mod_eq_zero, Nat.mul_eq_zero]
    omega
  have hzero : seconds = 0 ↔ t = 0 := by
    rw [ht, Nat.mul_eq_zero]
    omega
  rw [hwhole, hproduct, hdvd, hzero, ← hp]
  split_ifs <;> omega

theorem Timespec.waited_iff {time : Timespec} (hf : 1 ≤ frequency) (hle : frequency ≤ 10 ^ 8)
    (hstart : start < 2 ^ 64) (hsec : 0 ≤ time.tvSec) (hnsec : 0 ≤ time.tvNsec)
    (hlt : time.tvNsec < 10 ^ 9) :
    time.Waited frequency start ↔ time.Right frequency start := by
  obtain ⟨seconds, nanoseconds⟩ := time
  obtain ⟨seconds, rfl⟩ := Int.eq_ofNat_of_zero_le hsec
  obtain ⟨n, rfl⟩ := Int.eq_ofNat_of_zero_le hnsec
  dsimp only at hlt
  have hmilliseconds : ((n : ℤ).tdiv (1000 * 1000) % 2 ^ 64).toNat = n / 10 ^ 6 := by
    rw [Int.tdiv_eq_ediv_of_nonneg (Int.natCast_nonneg n)]
    omega
  have hproduct : n / 10 ^ 6 * frequency ≤ 1000 * 10 ^ 8 := Nat.mul_le_mul (by omega) hle
  have hticks := @ticks_hpetSleepMS frequency start (n / 10 ^ 6) hstart (by omega) (by omega)
  have hwaited : (Timespec.mk seconds n).Waited frequency start ↔
      ((seconds : ℤ) * 10 ^ 9 + n) * frequency ≤
        (hpetSleepMS frequency start (n / 10 ^ 6)).ticks * 10 ^ 9 := by
    unfold Timespec.Waited sysClockNanosleep
    rw [Option.map_some, hmilliseconds]
    constructor
    · rintro ⟨w, hw, hle⟩
      rw [Option.some.inj hw]
      exact hle
    · intro hle
      exact ⟨_, rfl, hle⟩
  rw [hwaited, hticks]
  unfold Timespec.Right
  dsimp only
  exact_mod_cast @le_milliseconds_iff frequency start seconds n hf hstart

end Clock

/-- A microsecond in nanoseconds takes a second, and a second of the system call takes no time. -/
theorem sleeps_differ :
    ¬ (Sleep.nanoseconds 1000).Exact (10 ^ 8) 0 ∧ (Sleep.microseconds 1).Exact (10 ^ 8) 0 ∧
      ((Sleep.nanoseconds 1000).wait (10 ^ 8) 0).ticks = 10 ^ 8 ∧
      ¬ (Timespec.mk 1 0).Waited (10 ^ 8) 0 := by
  refine ⟨by unfold Sleep.Exact; decide, by unfold Sleep.Exact; decide, by decide, ?_⟩
  rintro ⟨w, hw, hle⟩
  obtain rfl := Option.some.inj hw
  exact absurd hle (by decide)

/-- Two sleeps wait for the ticks of their durations, and as long as each other if these are
equal, and the system call waits for its whole time, exactly under the conditions of their
units. -/
theorem sleeps_iff (frequency start start' : ℕ) (s s' : Sleep) (time : Timespec)
    (hpos : 1 ≤ frequency) (hf : frequency ≤ 10 ^ 8) (hstart : start < 2 ^ 64)
    (hstart' : start' < 2 ^ 64) (hminute : s.duration ≤ 60 * 10 ^ 9)
    (hminute' : s'.duration ≤ 60 * 10 ^ 9) (hsec : 0 ≤ time.tvSec) (hnsec : 0 ≤ time.tvNsec)
    (hlt : time.tvNsec < 10 ^ 9) :
    (s.Exact frequency start ∧ s'.Exact frequency start' ∧
        (s.duration = s'.duration →
          (s.wait frequency start).ticks = (s'.wait frequency start').ticks) ∧
        time.Waited frequency start) ↔
      s.Right frequency start ∧ s'.Right frequency start' ∧ time.Right frequency start := by
  rw [Sleep.exact_iff hf hstart hminute, Sleep.exact_iff hf hstart' hminute',
    Timespec.waited_iff hpos hf hstart hsec hnsec hlt]
  constructor
  · rintro ⟨hs, hs', -, htime⟩
    exact ⟨hs, hs', htime⟩
  · rintro ⟨hs, hs', htime⟩
    refine ⟨hs, hs', fun heq => ?_, htime⟩
    have hexact := (Sleep.exact_iff hf hstart hminute).mpr hs
    have hexact' := (Sleep.exact_iff hf hstart' hminute').mpr hs'
    unfold Sleep.Exact at hexact hexact'
    rw [hexact, hexact', heq]

/-- A millisecond and as many microseconds, and a millisecond of the system call. -/
theorem sleeps_iff_millisecond :
    ((Sleep.milliseconds 1).Exact (10 ^ 7) 0 ∧ (Sleep.microseconds 1000).Exact (10 ^ 7) 0 ∧
        ((Sleep.milliseconds 1).duration = (Sleep.microseconds 1000).duration →
          ((Sleep.milliseconds 1).wait (10 ^ 7) 0).ticks =
            ((Sleep.microseconds 1000).wait (10 ^ 7) 0).ticks) ∧
        (Timespec.mk 0 (10 ^ 6)).Waited (10 ^ 7) 0) ↔
      (Sleep.milliseconds 1).Right (10 ^ 7) 0 ∧ (Sleep.microseconds 1000).Right (10 ^ 7) 0 ∧
        (Timespec.mk 0 (10 ^ 6)).Right (10 ^ 7) 0 :=
  sleeps_iff (10 ^ 7) 0 0 _ _ _ (by decide) (by decide) (by decide) (by decide) (by decide)
    (by decide) (by decide) (by decide) (by decide)

end Enkel.Hpet
