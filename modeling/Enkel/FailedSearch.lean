import Enkel.UserMapping

/-!
Allocators whose search has failed. The failure value 0 is also an address, and
each caller checks a different one of its two searches; the others go on and
map frame 0, or address 0. Then nothing changes only when the pages already had
these very entries.
-/
namespace Enkel.Paging

open Outcome MemoryState KernelMemory

/-- The page states, the tables and the leaf entries of two states agree. -/
structure Unchanged (k k' : KernelMemory) : Prop where
  phys : ∀ x < k.physicalMemoryState.highestAddress, physState k' x = physState k x
  virt : ∀ x < pageMask, virtState k' x = virtState k x
  tables : ∀ q, q.length ≤ 3 → tableAt k' q = tableAt k q
  words : ∀ x < 2 ^ 48, word k' x = word k x

theorem Unchanged.refl (k : KernelMemory) : Unchanged k k :=
  ⟨fun _ _ => rfl, fun _ _ => rfl, fun _ _ => rfl, fun _ _ => rfl⟩

/-- The values that stand for a failure: null and -ENOMEM. -/
def ReportsFailure (r : ℕ) : Prop := r = 0 ∨ r = noMemory

/-- The operation returns a failure and leaves everything as it was. -/
def FailsCleanly (k : KernelMemory) (result : Except Fault (ℕ × KernelMemory)) : Prop :=
  ∃ r k', result = .ok (r, k') ∧ ReportsFailure r ∧ Unchanged k k'

/-- What a call of MapPages would write is already in place. -/
structure InPlace (k : KernelMemory) (v p size : ℕ) (m : Mapping) : Prop where
  virtual_page : PageAddress v
  physical_page : PageAddress p
  tags : ∃ physical virt,
    k.physicalMemoryState.tagRange p (physicalEnd p size) m.newState = .ok physical ∧
    k.virtualMemoryState.tagRange v (add64 v size) m.newState = .ok virt
  phys : ∀ x < k.physicalMemoryState.highestAddress, p ≤ x → x < physicalEnd p size →
    physState k x ≠ .free
  virt : ∀ x < pageMask, v ≤ x → x < add64 v size → virtState k x ≠ .free
  words : ∀ i < callTurns v size,
    word k (v + 4096 * i) = m.leafEntry (word k (v + 4096 * i)) (p + 4096 * i)

section InPlace
variable {k k' : KernelMemory} {m : Mapping} {v p size depth : ℕ}

/-- Tagging Used changes no page that is Used or Reserved. -/
theorem tagged_used_of_ne_free {pages : ℕ → RangeState} {low high x : ℕ}
    (h : low ≤ x → x < high → pages x ≠ .free) : tagged pages low high .used x = pages x := by
  unfold tagged
  split_ifs with hcond
  · cases hx : pages x with
    | free => exact absurd hx (h hcond.1 hcond.2.1)
    | used => rfl
    | reserved => exact absurd hx hcond.2.2
  · rfl

/-- What MapPages writes is in place when it has changed nothing. -/
theorem Called.inPlace {kt : KernelMemory} (hc : Called True m v p size k kt k') (hk : Ok k)
    (hm : m.newState = .used) (hsame : Unchanged k k') : InPlace k v p size m := by
  have henv := hc.mapped.env
  have hne : m.newState ≠ .free := by
    rw [hm]
    decide
  obtain ⟨physical, virt, hkt, hphysical, hvirt⟩ := hc.tags
  refine ⟨hc.virtual_page, hc.physical_page, ⟨physical, virt, hphysical, hvirt⟩,
    fun x hx hlo hhi hfree => ?_, fun x hx hlo hhi hfree => ?_, fun i hi => ?_⟩
  · have htag := hc.phys_tagged hk hx
    unfold tagged at htag
    rw [hfree, if_pos ⟨hlo, hhi, by decide⟩, hm] at htag
    rcases henv.phys x (by rw [← henv.highest, hc.highest_eq hk]; exact hx) with heq | ⟨-, hf, -⟩
    · rw [hsame.phys x hx, hfree, htag] at heq
      cases heq
    · rw [htag] at hf
      cases hf
  · have htag := hc.tagged_ne_free hk hne hx hlo hhi
    have heq := henv.virt_of_ne_free hx htag
    rw [hsame.virt x hx, hfree] at heq
    exact htag heq.symm
  · obtain ⟨hsize, hve, -⟩ := hc.bounds (by omega)
    have hword := hsame.words (v + 4096 * i) (by unfold pageMask at hve; omega)
    have hktword : word kt (v + 4096 * i) = word k (v + 4096 * i) := by
      rw [hkt]
      rfl
    rcases hc.mapped.written i hi with hw | ⟨-, -, hfree, -⟩
    · rw [hktword] at hw
      exact hword.symm.trans hw
    · refine absurd hfree (hc.tagged_ne_free hk hne (by omega) (by omega) ?_)
      rw [add64_of_lt (by unfold pageMask at hve; omega)]
      omega

theorem InPlace.frame (h : InPlace k v p size m) (hk : Ok k) (hmod : size % 4096 = 0)
    (hlt : size < 2 ^ 64) (hm : m.newState ≠ .free) {i : ℕ} (hi : i < callTurns v size) :
    frame k (v + 4096 * i) = some (p + 4096 * i) := by
  obtain ⟨physical, virt, hphysical, hvirt⟩ := h.tags
  obtain ⟨hsize, -, hend⟩ := call_bounds hk h.virtual_page h.physical_page hmod hlt hphysical hvirt
    (by omega)
  have hH := hk.physical.lt
  have hpmod := h.physical_page.mod
  have hp : PageAddress (p + 4096 * i) := ⟨by unfold Aligned; omega, by omega⟩
  have hword := h.words i hi
  rw [Mapping.leafEntry_mapped hm hp] at hword
  exact frame_of_word_mapped hp (m.flags_lt _) (m.flags_odd _) hword

/-- MapPages over what is in place returns, and changes nothing. -/
theorem InPlace.unchanged (h : InPlace k v p size m) (hk : Ok k) (hmod : size % 4096 = 0)
    (hlt : size < 2 ^ 64) (hm : m.newState = .used) :
    ∃ k', k.mapPages depth v p size m = .ok k' ∧ Unchanged k k' := by
  have hne : m.newState ≠ .free := by
    rw [hm]
    decide
  obtain ⟨physical, virt, hphysical, hvirt⟩ := h.tags
  have htables : TablesPresent k v size := fun i hi => tableAt_of_frame (by
    rw [h.frame hk hmod hlt hne hi]
    simp)
  have hkeep : ∀ i < callTurns v size, k.keepsPagingPage m (v + 4096 * i) (p + 4096 * i) := by
    intro i hi _ _
    refine ⟨hne, ?_⟩
    have hvmod := h.virtual_page.mod
    rw [getPhysicalAddress_eq_frame hk.tables, h.frame hk hmod hlt hne hi, Option.elim_some]
    omega
  obtain ⟨k', hmap, -, hcount, -, hc⟩ := mapPages_enough_ok depth hk h.virtual_page h.physical_page
    hmod hlt hkeep hphysical hvirt htables.enough
  have henv := hc.mapped.env
  obtain ⟨hphys', hvirt', -⟩ := henv.steady id
  refine ⟨k', hmap, fun x hx => ?_, fun x hx => ?_, fun q hq => ?_, fun x hx => ?_⟩
  · have htag := hc.phys_tagged hk hx
    rw [hm, tagged_used_of_ne_free fun hlo hhi => h.phys x hx hlo hhi] at htag
    rw [← htag]
    unfold physState
    rw [hphys']
  · have htag := hc.virt_tagged hk hx
    rw [hm, tagged_used_of_ne_free fun hlo hhi => h.virt x hx hlo hhi] at htag
    rw [← htag]
    unfold virtState
    rw [hvirt']
  · cases ht : tableAt k q with
    | some t => exact henv.walk q t hq ht
    | none =>
      refine (hcount.outside q hq fun hmem => ?_).mpr ht
      obtain ⟨i, hi, hpre⟩ := Finset.mem_biUnion.mp hmem
      exact table_of_mem_pagePrefixes (htables i (Finset.mem_range.mp hi)) hpre ht
  · rcases henv.words x hx with hsame | ⟨hlo, hhi⟩ | ⟨hfalse, -⟩
    · exact hsame
    · have hvmod := h.virtual_page.mod
      have hi : (x - v) / 4096 < callTurns v size := by omega
      have hpage : (v + 4096 * ((x - v) / 4096)) / 4096 = x / 4096 := by omega
      rcases hc.mapped.written _ hi with hw | ⟨hfalse, -⟩
      · have hword := hw.trans (h.words _ hi).symm
        rwa [word_congr k' hpage, word_congr k hpage] at hword
      · exact hfalse.elim
    · exact hfalse.elim

/-- A call of MapPages leaves everything as it was exactly when what it writes
is in place. -/
theorem mapPages_unchanged_iff (depth : ℕ) (hk : Ok k) (hmod : size % 4096 = 0) (hlt : size < 2 ^ 64)
    (hm : m.newState = .used) :
    (∃ k', k.mapPages depth v p size m = .ok k' ∧ Unchanged k k') ↔ InPlace k v p size m := by
  constructor
  · rintro ⟨k', hmap, hsame⟩
    obtain ⟨-, kt, hc⟩ := mapPages_eq_ok hk hlt hmap
    exact hc.inPlace hk hm hsame
  · exact fun h => h.unchanged hk hmod hlt hm

/-- A call that maps and then returns `r` fails cleanly when `r` is a failure and
the mapping is in place. -/
theorem failsCleanly_map_iff {r : ℕ} (hk : Ok k) (hmod : size % 4096 = 0) (hlt : size < 2 ^ 64)
    (hm : m.newState = .used) :
    FailsCleanly k (k.mapPages depth v p size m >>= fun k' => pure (r, k')) ↔
      ReportsFailure r ∧ InPlace k v p size m := by
  rw [← mapPages_unchanged_iff depth hk hmod hlt hm]
  constructor
  · rintro ⟨r', k', h, hr, hsame⟩
    obtain ⟨k1, hmap, h⟩ := bind_eq_ok.mp h
    cases h
    exact ⟨hr, k', hmap, hsame⟩
  · rintro ⟨hr, k', hmap, hsame⟩
    refine ⟨r, k', ?_, hr, hsame⟩
    rw [hmap]
    rfl

end InPlace

section Clean
variable {k : KernelMemory} {size depth : ℕ} {privilegeLevel : PrivilegeLevel}
  {pageFlags : PageFlags}

theorem virtualAlloc_clean_iff (hk : Ok k) (hmod : size % 4096 = 0) (hlt : size < 2 ^ 64)
    (hfail : firstFit k.physicalMemoryState.leaves size = 0 ∨
      firstFit k.virtualMemoryState.leaves size = 0) :
    FailsCleanly k (k.virtualAlloc depth size privilegeLevel pageFlags) ↔
      firstFit k.physicalMemoryState.leaves size = 0 ∨
        InPlace k 0 (firstFit k.physicalMemoryState.leaves size) size
          (allocMapping privilegeLevel pageFlags) := by
  unfold KernelMemory.virtualAlloc virtualAllocWith
  rw [findMinimumSizeFreeBlock_eq hk.physical, findMinimumSizeFreeBlock_eq hk.virt, ok_bind]
  by_cases hphys : firstFit k.physicalMemoryState.leaves size = 0
  · rw [if_pos hphys, require_true hphys]
    exact iff_of_true ⟨0, k, rfl, Or.inl rfl, Unchanged.refl k⟩ (Or.inl hphys)
  · rw [if_neg hphys, hfail.resolve_left hphys, ok_bind]
    refine (failsCleanly_map_iff hk hmod hlt rfl).trans ⟨fun h => Or.inr h.2, fun h => ?_⟩
    exact ⟨Or.inl rfl, h.resolve_left hphys⟩

theorem physicalAlloc_clean_iff (hk : Ok k) (hmod : size % 4096 = 0) (hlt : size < 2 ^ 64)
    (hvirt : firstFit k.virtualMemoryState.leaves size = 0) (p : ℕ) :
    FailsCleanly k (k.physicalAlloc depth p size privilegeLevel pageFlags) ↔
      InPlace k 0 p size (allocMapping privilegeLevel pageFlags) := by
  unfold KernelMemory.physicalAlloc
  rw [findMinimumSizeFreeBlock_eq hk.virt, hvirt, ok_bind, failsCleanly_map_iff hk hmod hlt rfl]
  exact and_iff_right (Or.inl rfl)

/-- PhysicalAllocLowestAddress checks neither search. -/
theorem physicalAllocLowestAddress_clean_iff (hk : Ok k) (hmod : size % 4096 = 0)
    (hlt : size < 2 ^ 64) :
    FailsCleanly k (k.physicalAllocLowestAddress depth size privilegeLevel pageFlags) ↔
      firstFit k.virtualMemoryState.leaves size = 0 ∧
        InPlace k 0 (firstFit k.physicalMemoryState.leaves size) size
          (allocMapping privilegeLevel pageFlags) := by
  unfold KernelMemory.physicalAllocLowestAddress
  rw [findMinimumSizeFreeBlock_eq hk.physical, findMinimumSizeFreeBlock_eq hk.virt, ok_bind,
    ok_bind, failsCleanly_map_iff hk hmod hlt rfl]
  constructor
  · rintro ⟨hr, hplace⟩
    have hzero : firstFit k.virtualMemoryState.leaves size = 0 := by
      have hv := hplace.virtual_page.lt
      rcases hr with hr | hr
      · exact hr
      · unfold noMemory sub64 at hr
        omega
    rw [hzero] at hplace
    exact ⟨hzero, hplace⟩
  · rintro ⟨hzero, hplace⟩
    rw [hzero]
    exact ⟨Or.inl rfl, hplace⟩

/-- The fixed path of sys_memory_map takes what the search returns for a frame. -/
theorem sysMemoryMap_clean_iff (hk : Ok k) {address length : ℕ} (ha : address ≠ 0)
    (volumes : Volumes) (prot flags : ℕ) (fd : ℤ) (offset : ℕ) :
    FailsCleanly k (sysMemoryMap depth volumes address length prot flags fd offset k) ↔
      ¬ allMapped k address (alignSize length pageSize) ∨
        (ReportsFailure (returned volumes address fd) ∧
          InPlace k address (firstFit k.physicalMemoryState.leaves (alignSize length pageSize))
            (alignSize length pageSize) userMapping) := by
  have hsearch := findMinimumSizeFreeBlock_eq hk.physical (alignSize length pageSize)
  by_cases hmapped : allMapped k address (alignSize length pageSize)
  · rw [← mapPages_unchanged_iff depth hk (alignSize_mod length) (alignSize_lt length) rfl]
    constructor
    · rintro ⟨r, k', h, hr, hsame⟩
      rcases sysMemoryMap_eq_ok h with ⟨-, hnot, -⟩ | ⟨-, -, hret, p, hp, hmap⟩ | ⟨hzero, -⟩ |
        ⟨hzero, -⟩
      · exact absurd hmapped hnot
      · rw [hsearch] at hp
        cases hp
        rw [← hret]
        exact Or.inr ⟨hr, k', hmap, hsame⟩
      · exact absurd hzero ha
      · exact absurd hzero ha
    · intro h
      obtain ⟨hr, k', hmap, hsame⟩ := h.resolve_left (not_not.mpr hmapped)
      exact ⟨_, k', sysMemoryMap_fixed ha hmapped hsearch hmap prot flags fd offset, hr, hsame⟩
  · refine iff_of_true ⟨noMemory, k, ?_, Or.inr rfl, Unchanged.refl k⟩ (Or.inl hmapped)
    unfold sysMemoryMap mapFixed
    simp only [if_neg ha, if_neg hmapped]
    rfl

end Clean

/-- The machine of 16 pages has no free block of 1 MiB, and maps 1 MiB for the user. -/
def noBlockTrees : Except Fault ℕ := do
  let trees ← machineTrees 16
  let (p, _, _) ← fixedTrees 0xB00000 0x100000 trees
  return p

theorem exists_frame_zero_mapped (volumes : Volumes) (fd : ℤ) :
    ∃ k k', MachineRunning 16 (by decide) k ∧
      k.physicalMemoryState.findMinimumSizeFreeBlock 0x100000 = .ok 0 ∧
      sysMemoryMap 0 volumes 0xB00000 0x100000 0 0 fd 0 k = .ok (returned volumes 0xB00000 fd, k') ∧
      k'.getPhysicalAddress 0xB00000 false = 0 := by
  have htrees : noBlockTrees = .ok 0 := by decide +kernel
  unfold noBlockTrees at htrees
  obtain ⟨k, hm, htrees⟩ := exists_machineRunning_of_bind 16 (by decide) htrees
  obtain ⟨⟨p, physical, virt⟩, h1, htrees⟩ := bind_eq_ok.mp htrees
  cases htrees
  have hk := hm.reachable.running
  have hsize : alignSize 0x100000 pageSize = 0x100000 := by decide
  obtain ⟨k', h, hk', hc⟩ := sysMemoryMap_fixed_ok hk 0xB00000 0x100000
    ⟨by decide, by decide⟩ (by decide) (by decide) (by decide) (fun x hlo hhi => by
      rw [hsize] at hhi
      exact ⟨hm.frame_ne_none (by omega), hm.not_paging (by omega)⟩) h1 ⟨by decide, by decide⟩
    (by decide) 0 volumes 0 0 fd 0
  rw [hsize] at hc
  refine ⟨k, k', hm, ?_, h, ?_⟩
  · unfold fixedTrees at h1
    obtain ⟨p, hp, h1⟩ := bind_eq_ok.mp h1
    obtain ⟨physical', -, h1⟩ := bind_eq_ok.mp h1
    obtain ⟨virt', -, h1⟩ := bind_eq_ok.mp h1
    cases h1
    exact hp
  · exact hc.translation_mapped hk.ok hk' (by decide) (by decide) (x := 0xB00000) le_rfl (by decide)

/-- In every reachable state in which a search fails: each of the allocators
reports the failure and changes nothing exactly when it checks the search that
failed, or all that it writes is in place and it happens to return a failure. -/
theorem failed_search_clean_iff (k : KernelMemory) (hk : Reachable k) (size : ℕ)
    (hmod : size % 4096 = 0) (hlt : size < 2 ^ 64)
    (hfail : k.physicalMemoryState.findMinimumSizeFreeBlock size = .ok 0 ∨
      k.virtualMemoryState.findMinimumSizeFreeBlock size = .ok 0)
    (depth : ℕ) (privilegeLevel : PrivilegeLevel) (pageFlags : PageFlags) :
    (FailsCleanly k (k.virtualAlloc depth size privilegeLevel pageFlags) ↔
      k.physicalMemoryState.findMinimumSizeFreeBlock size = .ok 0 ∨
        ∃ p, k.physicalMemoryState.findMinimumSizeFreeBlock size = .ok p ∧
          InPlace k 0 p size (allocMapping privilegeLevel pageFlags)) ∧
    (k.virtualMemoryState.findMinimumSizeFreeBlock size = .ok 0 → ∀ p,
      (FailsCleanly k (k.physicalAlloc depth p size privilegeLevel pageFlags) ↔
        InPlace k 0 p size (allocMapping privilegeLevel pageFlags))) ∧
    (FailsCleanly k (k.physicalAllocLowestAddress depth size privilegeLevel pageFlags) ↔
      k.virtualMemoryState.findMinimumSizeFreeBlock size = .ok 0 ∧
        ∃ p, k.physicalMemoryState.findMinimumSizeFreeBlock size = .ok p ∧
          InPlace k 0 p size (allocMapping privilegeLevel pageFlags)) ∧
    ∀ (volumes : Volumes) (address length prot flags : ℕ) (fd : ℤ) (offset : ℕ), address ≠ 0 →
      alignSize length pageSize = size →
      (FailsCleanly k (sysMemoryMap depth volumes address length prot flags fd offset k) ↔
        ¬ allMapped k address size ∨
          (ReportsFailure (returned volumes address fd) ∧
            ∃ p, k.physicalMemoryState.findMinimumSizeFreeBlock size = .ok p ∧
              InPlace k address p size userMapping)) := by
  have hok := hk.running.ok
  have hphys := findMinimumSizeFreeBlock_eq hok.physical size
  have hvirt := findMinimumSizeFreeBlock_eq hok.virt size
  have hfind : ∀ P : ℕ → Prop,
      (∃ p, k.physicalMemoryState.findMinimumSizeFreeBlock size = .ok p ∧ P p) ↔
        P (firstFit k.physicalMemoryState.leaves size) := by
    intro P
    rw [hphys]
    simp
  have hphys0 : k.physicalMemoryState.findMinimumSizeFreeBlock size = .ok 0 ↔
      firstFit k.physicalMemoryState.leaves size = 0 := by
    rw [hphys]
    simp
  have hvirt0 : k.virtualMemoryState.findMinimumSizeFreeBlock size = .ok 0 ↔
      firstFit k.virtualMemoryState.leaves size = 0 := by
    rw [hvirt]
    simp
  rw [hphys0, hvirt0] at hfail
  refine ⟨?_, fun hzero p => ?_, ?_, ?_⟩
  · rw [hfind, hphys0]
    exact virtualAlloc_clean_iff hok hmod hlt hfail
  · exact physicalAlloc_clean_iff hok hmod hlt (hvirt0.mp hzero) p
  · rw [hfind, hvirt0]
    exact physicalAllocLowestAddress_clean_iff hok hmod hlt
  · rintro volumes address length prot flags fd offset ha rfl
    rw [hfind]
    exact sysMemoryMap_clean_iff hok ha volumes prot flags fd offset

theorem failed_search_clean_iff_full :
    ∃ k, Reachable k ∧ k.physicalMemoryState.findMinimumSizeFreeBlock 0x100000 = .ok 0 ∧
      (FailsCleanly k (sysMemoryMap 0 ⟨fun _ => false, 0⟩ 0xB00000 0x100000 0 0 (-1) 0 k) ↔
        ¬ allMapped k 0xB00000 0x100000 ∨
          (ReportsFailure (returned ⟨fun _ => false, 0⟩ 0xB00000 (-1)) ∧
            ∃ p, k.physicalMemoryState.findMinimumSizeFreeBlock 0x100000 = .ok p ∧
              InPlace k 0xB00000 p 0x100000 userMapping)) := by
  obtain ⟨k, k', hm, hfail, -⟩ := exists_frame_zero_mapped ⟨fun _ => false, 0⟩ (-1)
  exact ⟨k, hm.reachable, hfail, (failed_search_clean_iff k hm.reachable 0x100000 (by decide)
    (by decide) (Or.inl hfail) 0 .user pageFlagsNone).2.2.2 _ _ _ _ _ _ _ (by decide) (by decide)⟩

/-- No block of 1 MiB is free, and the system call maps frame 0 and reports success. -/
theorem failed_search_maps_frame_zero :
    ∃ k k', Reachable k ∧ k.physicalMemoryState.findMinimumSizeFreeBlock 0x100000 = .ok 0 ∧
      sysMemoryMap 0 ⟨fun _ => false, 0⟩ 0xB00000 0x100000 0 0 (-1) 0 k = .ok (0xB00000, k') ∧
      k.getPhysicalAddress 0xB00000 false = 0xB00000 ∧
      k'.getPhysicalAddress 0xB00000 false = 0 ∧
      ¬ FailsCleanly k (sysMemoryMap 0 ⟨fun _ => false, 0⟩ 0xB00000 0x100000 0 0 (-1) 0 k) := by
  obtain ⟨k, k', hm, hfail, h, hphys⟩ := exists_frame_zero_mapped ⟨fun _ => false, 0⟩ (-1)
  refine ⟨k, k', hm.reachable, hfail, h, hm.identity _ (by decide), hphys, ?_⟩
  rintro ⟨r, k1, h1, hr, -⟩
  rw [h] at h1
  cases h1
  rcases hr with hr | hr
  · exact absurd hr (by decide)
  · exact absurd hr (by decide)

end Enkel.Paging
