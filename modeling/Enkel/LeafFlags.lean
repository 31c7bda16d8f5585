import Enkel.Progress

/-!
The bits that MapPages gives to the leaf entries of a range. The function compares the
page flags with each of their values, so a call that asks for both cache bits at once, as
InitMADT does for the registers of the local APIC, gets neither.
-/
namespace Enkel.Paging

open Outcome MemoryState KernelMemory

/-- Page flags as a caller joins them. -/
def joinedFlags (disable through : Bool) : PageFlags :=
  (if disable then pageFlagsCacheDisable else pageFlagsNone) |||
    if through then pageFlagsCacheWriteThrough else pageFlagsNone

/-- The leaf entry `new` has the bits that the arguments of a call ask for, the old entry
being `old`. -/
structure LeafBits (m : Mapping) (disable through : Bool) (old new : ℕ) : Prop where
  writable : new &&& writableBit ≠ 0 ↔ m.writable = true
  user : new &&& userCpl ≠ 0 ↔ m.privilegeLevel = .user ∨
    (m.privilegeLevel = .keep ∧ old &&& present ≠ 0 ∧ old &&& userCpl ≠ 0)
  cacheDisabled : new &&& cacheDisable ≠ 0 ↔ disable = true
  writtenThrough : new &&& writeThrough ≠ 0 ↔ through = true

/-- A flag is read off the low bits of an entry. -/
theorem flagged_bit {a f i : ℕ} (h : PageAddress a) (hi : i < 12) :
    (a + f) &&& 2 ^ i = f &&& 2 ^ i := by
  have hmod := h.mod
  have hpow : 4096 = 2 ^ i * (2 * 2 ^ (11 - i)) := by
    rw [← pow_succ', ← pow_add, show i + (11 - i + 1) = 12 by omega]
    rfl
  obtain ⟨c, rfl⟩ : ∃ c, a = 2 ^ i * (2 * c) :=
    ⟨2 ^ (11 - i) * (a / 4096), by rw [← mul_assoc, ← mul_assoc, mul_assoc (2 ^ i), ← hpow]; omega⟩
  rw [Words.and_two_pow, Words.and_two_pow, Nat.mul_add_div (Nat.two_pow_pos i)]
  exact congrArg (· * 2 ^ i) (by omega)

theorem and_userCpl_eq_iff (old : ℕ) : old &&& userCpl = userCpl ↔ old &&& userCpl ≠ 0 := by
  have hbit : old &&& userCpl = old / 2 ^ 2 % 2 * 2 ^ 2 := Words.and_two_pow old 2
  rw [hbit]
  unfold userCpl
  omega

namespace Mapping
variable {m : Mapping} {disable through : Bool}

theorem flags_writable (m : Mapping) (old : ℕ) :
    m.flags old &&& writableBit ≠ 0 ↔ m.writable = true := by
  unfold flags userBit
  split_ifs <;> simp_all [present, userCpl, writableBit, cacheDisable, writeThrough]

theorem flags_user (m : Mapping) (old : ℕ) : m.flags old &&& userCpl ≠ 0 ↔
    m.privilegeLevel = .user ∨
      (m.privilegeLevel = .keep ∧ old &&& present ≠ 0 ∧ old &&& userCpl ≠ 0) := by
  rw [flags_userCpl, ← and_userCpl_eq_iff old]
  unfold userBit
  split_ifs with h
  · exact iff_of_true (by decide) (h.imp id fun ⟨hpresent, hkeep, huser⟩ =>
      ⟨hkeep, hpresent, huser⟩)
  · exact iff_of_false (fun hne => hne rfl) fun hor => h (hor.imp id fun ⟨hkeep, hpresent, huser⟩ =>
      ⟨hpresent, hkeep, huser⟩)

theorem flags_cacheDisable (m : Mapping) (old : ℕ) :
    m.flags old &&& cacheDisable ≠ 0 ↔ m.pageFlags = pageFlagsCacheDisable := by
  unfold flags userBit
  split_ifs <;> simp_all [present, userCpl, writableBit, cacheDisable, writeThrough]

theorem flags_writeThrough (m : Mapping) (old : ℕ) :
    m.flags old &&& writeThrough ≠ 0 ↔ m.pageFlags = pageFlagsCacheWriteThrough := by
  unfold flags userBit
  split_ifs <;> simp_all [present, userCpl, writableBit, cacheDisable, writeThrough]

/-- A written leaf entry has the bits asked for unless both cache bits are. -/
theorem leafBits_iff (hflags : m.pageFlags = joinedFlags disable through) {p : ℕ}
    (hp : PageAddress p) (old : ℕ) :
    LeafBits m disable through old (p + m.flags old) ↔ ¬ (disable = true ∧ through = true) := by
  have hbit : ∀ i < 12, (p + m.flags old) &&& 2 ^ i = m.flags old &&& 2 ^ i := fun i hi =>
    flagged_bit hp hi
  have hdisable : m.pageFlags = pageFlagsCacheDisable ↔ disable = true ∧ through = false := by
    rw [hflags]
    cases disable <;> cases through <;> decide
  have hthrough : m.pageFlags = pageFlagsCacheWriteThrough ↔ disable = false ∧ through = true := by
    rw [hflags]
    cases disable <;> cases through <;> decide
  constructor
  · rintro ⟨-, -, hcd, -⟩ ⟨hd, ht⟩
    rw [show cacheDisable = 2 ^ 4 from rfl, hbit 4 (by decide)] at hcd
    have := (hdisable.mp ((m.flags_cacheDisable old).mp (hcd.mpr hd))).2
    rw [ht] at this
    cases this
  · intro hnot
    refine ⟨?_, ?_, ?_, ?_⟩
    · rw [show writableBit = 2 ^ 1 from rfl, hbit 1 (by decide)]
      exact m.flags_writable old
    · rw [show (p + m.flags old) &&& userCpl = m.flags old &&& userCpl from hbit 2 (by decide)]
      exact m.flags_user old
    · rw [show cacheDisable = 2 ^ 4 from rfl, hbit 4 (by decide)]
      refine (m.flags_cacheDisable old).trans (hdisable.trans ?_)
      cases disable <;> cases through <;> simp_all
    · rw [show writeThrough = 2 ^ 3 from rfl, hbit 3 (by decide)]
      refine (m.flags_writeThrough old).trans (hthrough.trans ?_)
      cases disable <;> cases through <;> simp_all

end Mapping

/-- In every state that keeps the invariant, a call of MapPages that maps a range gives
each of its leaf entries the bits asked for, whatever these held before, unless it asks for
both cache bits. -/
theorem leaf_bits_iff {k k' : KernelMemory} (hk : Ok k) {depth v p size : ℕ} {m : Mapping}
    (hlt : size < 2 ^ 64) (hm : m.newState ≠ .free) {disable through : Bool}
    (hflags : m.pageFlags = joinedFlags disable through)
    (h : k.mapPages depth v p size m = .ok k') (x : ℕ) (hlo : v ≤ x) (hhi : x < add64 v size) :
    LeafBits m disable through (word k x) (word k' x) ↔
      ¬ (disable = true ∧ through = true) := by
  obtain ⟨-, kt, hc⟩ := mapPages_eq_ok hk hlt h
  obtain ⟨hadd, hend⟩ := hc.range_of_mem hlt hlo hhi
  unfold pageMask at hend
  obtain ⟨hp, hword⟩ := hc.word_of_mem hk (by omega) hm hlo (by omega)
  rw [hword]
  exact Mapping.leafBits_iff hflags hp (word k x)

/-- The mapping of the registers of the local APIC in InitMADT. -/
def localApicMapping : Mapping := allocMapping .kernel (joinedFlags true true)

/-- The trees of the example machine once the first page of the gap behind its first GiB is
mapped there. -/
def gapTrees : Except Fault (MemoryState × MemoryState) := do
  let trees ← machineTrees 16
  let physical ← trees.1.tagRange 0x40000000 0x40001000 .used
  let virt ← trees.2.tagRange 0x40000000 0x40001000 .used
  return (physical, virt)

theorem exists_gap_mapped (m : Mapping) (hm : m.newState = .used) : ∃ k k' : KernelMemory,
    Reachable k ∧ k.mapPages 0 0x40000000 0x40000000 0x1000 m = .ok k' := by
  have htrees : (errorOf gapTrees).isNone := by decide +kernel
  obtain ⟨r, htrees⟩ := exists_ok_of_errorOf (Option.isNone_iff_eq_none.mp htrees)
  unfold gapTrees at htrees
  obtain ⟨k, hmachine, htrees⟩ := exists_machineRunning_of_bind 16 (by decide) htrees
  obtain ⟨physical, hphysical, htrees⟩ := bind_eq_ok.mp htrees
  obtain ⟨virt, hvirt, -⟩ := bind_eq_ok.mp htrees
  obtain ⟨k', h, -⟩ := mapPages_enough_ok 0 hmachine.reachable.running.ok (m := m)
    (v := 0x40000000) (p := 0x40000000) ⟨by decide, by decide⟩ ⟨by decide, by decide⟩
    (show 0x1000 % 4096 = 0 by decide) (by decide)
    (fun i hi _ hpaging => by
      have hi : i < 1 := hi
      rw [hmachine.not_paging (by omega)] at hpaging
      cases hpaging)
    (by rw [hm]; exact hphysical) (by rw [hm]; exact hvirt) (hmachine.missing_le (by decide))
  exact ⟨k, k', hmachine.reachable, h⟩

theorem leaf_bits_iff_gap : ∃ k k' : KernelMemory,
    k.mapPages 0 0x40000000 0x40000000 0x1000 (allocMapping .kernel (joinedFlags true false)) =
      .ok k' ∧
    (LeafBits (allocMapping .kernel (joinedFlags true false)) true false (word k 0x40000000)
      (word k' 0x40000000) ↔ ¬ (true = true ∧ false = true)) := by
  obtain ⟨k, k', hk, h⟩ := exists_gap_mapped (allocMapping .kernel (joinedFlags true false)) rfl
  exact ⟨k, k', h, leaf_bits_iff hk.running.ok (by decide) (by decide) rfl h 0x40000000 le_rfl
    (by decide)⟩

/-- Mapped as InitMADT asks, the page of the registers has neither cache bit. -/
theorem localApic_cached : ∃ k k' : KernelMemory, Reachable k ∧
    k.mapPages 0 0x40000000 0x40000000 0x1000 localApicMapping = .ok k' ∧
    word k' 0x40000000 &&& cacheDisable = 0 ∧ word k' 0x40000000 &&& writeThrough = 0 ∧
    ¬ LeafBits localApicMapping true true (word k 0x40000000) (word k' 0x40000000) := by
  obtain ⟨k, k', hk, h⟩ := exists_gap_mapped localApicMapping rfl
  obtain ⟨-, kt, hc⟩ := mapPages_eq_ok hk.running.ok (by decide) h
  obtain ⟨hp, hword⟩ := hc.word_of_mem hk.running.ok (by decide) (by decide) (x := 0x40000000) le_rfl
    (by decide)
  refine ⟨k, k', hk, h, ?_, ?_, fun hbits => ?_⟩
  · rw [hword, show cacheDisable = 2 ^ 4 from rfl, flagged_bit hp (by decide)]
    by_contra hne
    exact absurd ((Mapping.flags_cacheDisable _ _).mp hne) (by decide)
  · rw [hword, show writeThrough = 2 ^ 3 from rfl, flagged_bit hp (by decide)]
    by_contra hne
    exact absurd ((Mapping.flags_writeThrough _ _).mp hne) (by decide)
  · rw [hword] at hbits
    exact (Mapping.leafBits_iff rfl hp _).mp hbits ⟨rfl, rfl⟩

end Enkel.Paging
