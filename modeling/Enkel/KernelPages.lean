import Enkel.Progress
import Enkel.UserMapping

/-!
Pages that only the kernel may access, under sys_memory_map. Its loop asks
whether the pages are mapped, not for whom; so a call keeps such pages exactly
when none of them lies in the range that it maps.
-/
namespace Enkel.Paging

open Outcome MemoryState KernelMemory

/-- The leaf entry of the page is present, without USER_CPL. -/
def KernelOnly (k : KernelMemory) (x : ℕ) : Prop :=
  word k x &&& present ≠ 0 ∧ word k x &&& userCpl = 0

/-- The system call maps a range in which there is a page of the kernel: the range
that it was given, or the one at address 0 when the search for a virtual block
has failed. -/
def MapsKernelPage (k : KernelMemory) (volumes : Volumes) (address alignedSize : ℕ) (fd : ℤ) :
    Prop :=
  (address ≠ 0 ∧ allMapped k address alignedSize ∧
    ∃ x, KernelOnly k x ∧ address ≤ x ∧ x < add64 address alignedSize) ∨
  (address = 0 ∧ takesMemory volumes fd ∧
    k.physicalMemoryState.findMinimumSizeFreeBlock alignedSize ≠ .ok 0 ∧
    k.virtualMemoryState.findMinimumSizeFreeBlock alignedSize = .ok 0 ∧
    ∃ x < alignedSize, KernelOnly k x)

section Keep
variable {k kt k' : KernelMemory} {m : Mapping} {v p size : ℕ}

theorem KernelOnly.frame_ne_none {x : ℕ} (h : KernelOnly k x) : frame k x ≠ none := by
  unfold frame
  rw [if_neg h.1]
  simp

/-- The kernel page has the translation that it had, and is still without USER_CPL. -/
def KeepsKernelPage (k k' : KernelMemory) (x : ℕ) : Prop :=
  k'.getPhysicalAddress x false = k.getPhysicalAddress x false ∧ KernelOnly k' x

theorem keepsKernelPage_of_word (hk : Ok k) (hk' : Ok k') {x : ℕ} (h : KernelOnly k x)
    (hword : word k' x = word k x) : KeepsKernelPage k k' x := by
  refine ⟨?_, ?_⟩
  · rw [getPhysicalAddress_eq_frame hk'.tables, frame_congr hword,
      ← getPhysicalAddress_eq_frame hk.tables]
  · unfold KernelOnly
    rw [hword]
    exact h

/-- A call for the user keeps the kernel pages exactly when none lies in its range. -/
theorem Called.keeps_kernel_iff (hc : Called True m v p size k kt k') (hk : Running k)
    (hk' : Ok k') (hm : m.newState ≠ .free) (huser : m.privilegeLevel = .user)
    (hlt : size < 2 ^ 64) :
    (∀ x < 2 ^ 48, KernelOnly k x → KeepsKernelPage k k' x) ↔
      ¬ ∃ x, KernelOnly k x ∧ v ≤ x ∧ x < add64 v size := by
  constructor
  · rintro hall ⟨x, hx, hlo, hhi⟩
    obtain ⟨hadd, hve⟩ := hc.range_of_mem hlt hlo hhi
    rw [hadd] at hhi
    unfold pageMask at hve
    obtain ⟨hpage, hword⟩ := hc.word_of_mem hk.ok (by omega) hm hlo hhi
    obtain ⟨-, -, hcpl⟩ := hall x (by omega) hx
    rw [hword, flagged_userCpl hpage, Mapping.flags_userCpl, Mapping.userBit_user huser] at hcpl
    cases hcpl
  · intro hnone x hx hkernel
    exact keepsKernelPage_of_word hk.ok hk' hkernel (hc.word_of_not_mem hk.ok hk.free_unmapped hx
      (fun hin => hnone ⟨x, hkernel, hin⟩) hkernel.frame_ne_none)

end Keep

/-- The example machine maps a page of the first GiB again, for the user. -/
def exposeTrees : Except Fault ℕ := do
  let trees ← machineTrees 16
  let (p, _, _) ← fixedTrees 0x1000 0x1000 trees
  return p

theorem exists_user_mapped_low (volumes : Volumes) (fd : ℤ) :
    ∃ k k', MachineRunning 16 (by decide) k ∧
      sysMemoryMap 0 volumes 0x1000 0x1000 0 0 fd 0 k = .ok (returned volumes 0x1000 fd, k') ∧
      KernelOnly k 0x1000 ∧ k'.getPhysicalAddress 0x1000 false = 0x40200000 ∧
      ¬ KernelOnly k' 0x1000 := by
  have htrees : exposeTrees = .ok 0x40200000 := by decide +kernel
  unfold exposeTrees at htrees
  obtain ⟨k, hm, htrees⟩ := exists_machineRunning_of_bind 16 (by decide) htrees
  obtain ⟨⟨p, physical, virt⟩, h1, htrees⟩ := bind_eq_ok.mp htrees
  cases htrees
  have hk := hm.reachable.running
  have hsize : alignSize 0x1000 pageSize = 0x1000 := by decide
  obtain ⟨k', h, hk', hc⟩ := sysMemoryMap_fixed_ok hk 0x1000 0x1000
    ⟨by decide, by decide⟩ (by decide) (by decide) (by decide) (fun x hlo hhi => by
      rw [hsize] at hhi
      exact ⟨hm.frame_ne_none (by omega), hm.not_paging (by omega)⟩) h1 ⟨by decide, by decide⟩
        (by decide)
    0 volumes 0 0 fd 0
  rw [hsize] at hc
  obtain ⟨hpage, hword⟩ := hc.word_of_mem hk.ok (by decide) (by decide) (x := 0x1000) le_rfl
    (by decide)
  refine ⟨k, k', hm, h, ⟨?_, hm.kernel _ (by decide)⟩, ?_, fun hkernel => ?_⟩
  · intro habsent
    refine hm.frame_ne_none (x := 0x1000) (by decide) ?_
    unfold frame
    rw [if_pos habsent]
  · exact hc.translation_mapped hk.ok hk' (by decide) (by decide) (x := 0x1000) le_rfl (by decide)
  · have hcpl := hkernel.2
    rw [hword, flagged_userCpl hpage, Mapping.flags_userCpl, Mapping.userBit_user rfl] at hcpl
    cases hcpl

end Enkel.Paging
