import Enkel.AllocationRuns
import Enkel.SpanMapping

/-!
What RPMallocUnmap gives back. A block that VirtualAlloc gave is freed exactly by
VirtualFree of its own address and size. The release of a padded block frees as many
pages as were asked for, and the padding stays Used.
-/
namespace Enkel.SpanMapping

open Outcome MemoryState Paging KernelMemory

section Blocks
variable {depth block frames n address size : ℕ} {k k' : KernelMemory}
  {privilegeLevel : PrivilegeLevel} {pageFlags : PageFlags}

/-- VirtualAlloc has mapped the pages that its searches found. -/
theorem found_of_alloc (hk : Running k) (hlt : n < 2 ^ 64) (hne : block ≠ 0)
    (h : k.virtualAlloc depth n privilegeLevel pageFlags = .ok (block, k')) :
    Ok k' ∧ ∃ p kt, Found k block p n ∧
      Called True (allocMapping privilegeLevel pageFlags) block p n k kt k' := by
  obtain ⟨hk', hfound⟩ :=
    (virtualAllocWith_found (getPML4FreePage_spec depth) hk.ok hlt _ _).of_eq_ok h
  exact ⟨hk', hfound hne⟩

/-- The block of an allocation, right after it. -/
theorem holds_of_alloc (hk : Running k) (hpos : 0 < n) (hlt : n < 2 ^ 64) (hne : block ≠ 0)
    (h : k.virtualAlloc depth n privilegeLevel pageFlags = .ok (block, k')) :
    Holds k' block (k'.getPhysicalAddress block false) n := by
  obtain ⟨hk', p, kt, hf, hc⟩ := found_of_alloc hk hlt hne h
  have hframe := fun i hi => hc.frame_found hk.ok hf rfl (i := i) hi
  have hlt52 := hc.physical_page.lt
  have hp : k'.getPhysicalAddress block false = p :=
    (getPhysicalAddress_eq_iff hk'.tables hc.virtual_page.aligned (by omega)).mpr (hframe 0 hpos)
  have hhighest := hc.mapped.env.highest.symm.trans (hc.highest_eq hk.ok)
  have hple := hf.phys_le hk.ok
  rw [hp]
  refine
    { block_page := hc.virtual_page
      frames_page := hc.physical_page
      block_le := hf.virt_le hk.ok
      frames_le := ?_
      mapped := hframe
      virt := fun x hlo hhi => hc.used_found hk.ok hf rfl hlo hhi
      phys := fun x hlo hhi => ?_
      not_paging := fun x hlo hhi =>
        not_isPagingPage_found hk.ok hk.pml4Set hf hc rfl hlo hhi }
  · rw [hc.highest_eq hk.ok]
    exact hple
  · have hused := hc.phys_found hk.ok hf rfl (x := x) (by omega)
    rw [if_pos ⟨hlo, hhi⟩] at hused
    rcases hc.mapped.env.phys x (by omega) with heq | ⟨-, hfree, -⟩
    · exact heq.trans hused
    · rw [hused] at hfree
      cases hfree

/-- VirtualFree of a whole block frees its pages and its frames, and nothing else. It stops
only when the tree nodes run out. -/
theorem Holds.virtualFree_meets (hk : Running k) (h : Holds k block frames n) (hpos : 0 < n)
    (hmod : n % 4096 = 0) (depth : ℕ) :
    Meets Fault.NodeListEmpty (fun k' => Frees k k' block frames n)
      (k.virtualFree depth block n) := by
  have hble := h.block_le
  have hfle := h.frames_le
  have hH := hk.ok.physical.lt
  unfold pageMask at hble
  have hturns : callTurns block n = n / 4096 := by
    rw [callTurns_of_lt h.block_page hmod (by omega)]
  have hphys : k.getPhysicalAddress block true = frames := by
    have hlt52 := h.frames_page.lt
    rw [getPhysicalAddress_live hk.ok hk.cr3,
      getPhysicalAddress_eq_iff hk.ok.tables h.block_page.aligned (by omega)]
    exact h.mapped 0 hpos
  have hpresent : TablesPresent k block n := by
    intro i hi
    apply tableAt_of_frame
    rw [h.mapped i (by omega)]
    simp
  unfold KernelMemory.virtualFree
  rw [hphys]
  refine meets_mono (mapPages_enough_meets depth hk.ok (by omega) hpresent.enough)
    (fun e he => ?_) fun k' hk' => ?_
  · rcases he with (hfalse | ⟨hfalse, -⟩) | ⟨-, he⟩ | ⟨⟨i, hi, hnot⟩, -⟩ | ⟨hargs, -⟩ |
      ⟨-, hvalid, -⟩
    · exact hfalse.elim
    · exact hfalse.elim
    · exact he
    · refine absurd (fun _ hpaging => ?_) hnot
      rw [h.not_paging _ (by omega) (by omega)] at hpaging
      cases hpaging
    · exact absurd ⟨h.block_page, h.frames_page, hmod⟩ hargs
    · exact absurd ⟨hpos, hfle, h.block_le⟩ hvalid
  · obtain ⟨-, -, -, kt, hc⟩ := hk'
    constructor
    · intro x hx
      rw [hc.virtState_quiet, hc.virt_tagged hk.ok hx, add64_of_lt (by omega)]
      unfold tagged
      by_cases hin : block ≤ x ∧ x < block + n
      · rw [if_pos ⟨hin.1, hin.2, by rw [h.virt x hin.1 hin.2]; decide⟩, if_pos hin]
      · rw [if_neg (fun hin' => hin ⟨hin'.1, hin'.2.1⟩), if_neg hin]
    · intro x hx
      rw [hc.physState_quiet, hc.phys_tagged hk.ok hx,
        physicalEnd_of_lt hc.physical_page hc.size_mod (by omega)]
      unfold tagged
      by_cases hin : frames ≤ x ∧ x < frames + n
      · rw [if_pos ⟨hin.1, hin.2, by rw [h.phys x hin.1 hin.2]; decide⟩, if_pos hin]
      · rw [if_neg (fun hin' => hin ⟨hin'.1, hin'.2.1⟩), if_neg hin]

/-- VirtualFree makes no more pages Free than it is asked for. -/
theorem Holds.size_le (hk : Running k) (h : Holds k block frames n) (hn : 4096 ≤ n)
    (hmod : n % 4096 = 0) (hlt : size < 2 ^ 64)
    (hrun : k.virtualFree depth address size = .ok k') (hfrees : Frees k k' block frames n) :
    n ≤ size := by
  obtain ⟨-, kt, hc⟩ := mapPages_eq_ok hk.ok hlt hrun
  have hble := h.block_le
  have hbmod := h.block_page.mod
  have hamod := hc.virtual_page.mod
  have hsmod := hc.size_mod
  -- a page of the block that is Free at the end lies in the range that was tagged
  have hin : ∀ x, block ≤ x → x < block + n → address ≤ x ∧ x < add64 address size := by
    intro x hlo hhi
    have hfree : virtState k' x = .free := by
      rw [hfrees.virt x (by omega), if_pos ⟨hlo, hhi⟩]
    have htagged : virtState kt x = .free := by
      rcases hc.mapped.env.virt x (by omega) with heq | ⟨-, hkt, -⟩
      · exact heq.symm.trans hfree
      · exact hkt
    rw [hc.virt_tagged hk.ok (by omega)] at htagged
    unfold tagged at htagged
    split_ifs at htagged with hrange
    · exact ⟨hrange.1, hrange.2.1⟩
    · have hused : k.virtualMemoryState.getPageState x = .used := h.virt x hlo hhi
      cases hused.symm.trans htagged
  have hfirst := hin block le_rfl (by omega)
  have hlast := hin (block + n - 4096) (by omega) (by omega)
  have hsum : add64 address size ≤ address + size := Nat.mod_le _ _
  omega

end Blocks

section Release
variable {depth spanSize size offset block pointer : ℕ} {k k₁ k₂ : KernelMemory}

theorem padding_le (hspan : IsSpanSize spanSize) : padding spanSize size ≤ 2 ^ 63 := by
  have hle := hspan.le
  unfold padding
  split_ifs
  · exact hle
  · exact Nat.zero_le _

theorem padding_eq_zero_iff (hspan : IsSpanSize spanSize) :
    padding spanSize size = 0 ↔ size < spanSize ∨ spanSize ≤ memoryMapGranularity := by
  have hpos := hspan.pos
  unfold padding
  split_ifs with h
  · omega
  · omega

theorem blockSize_mod (hspan : IsSpanSize spanSize) (hmod : size % 4096 = 0) :
    blockSize spanSize size % 4096 = 0 := by
  have hdvd := hspan.dvd
  unfold blockSize add64 padding
  split_ifs <;> omega

theorem blockSize_lt : blockSize spanSize size < 2 ^ 64 := Nat.mod_lt _ (Nat.two_pow_pos 64)

/-- The pointer and the offset that RPMallocMap returns, from the block of VirtualAlloc. -/
theorem rpMallocMap_returned {r : ℕ × ℕ} (hk : Running k) (hspan : IsSpanSize spanSize)
    (halloc : k.virtualAlloc depth (blockSize spanSize size) .kernel pageFlagsNone =
      .ok (block, k₁))
    (hmap : rpMallocMap depth spanSize size offset k = .ok (r, k₁)) :
    block ≠ 0 ∧ pageSize ≤ size ∧ PageAddress block ∧
      r = if padding spanSize size = 0 then (block, offset)
        else (block + finalPadding spanSize block, finalPadding spanSize block / 8) := by
  have h := hmap
  unfold rpMallocMap at h
  obtain ⟨u, hsize, h⟩ := bind_eq_ok.mp h
  have hsize := require_eq_ok.mp hsize
  rw [halloc, ok_bind] at h
  dsimp only at h
  obtain ⟨u, hne, -⟩ := bind_eq_ok.mp h
  have hne := require_eq_ok.mp hne
  obtain ⟨-, p, kt, -, hc⟩ := found_of_alloc hk blockSize_lt hne halloc
  rw [rpMallocMap_eq hspan hsize halloc hne hc.virtual_page] at hmap
  exact ⟨hne, hsize, hc.virtual_page, (Prod.mk.inj (Except.ok.inj hmap)).1.symm⟩

/-- The pointer is aligned to spans, and the bytes that were asked for lie in the block. -/
theorem rpMallocMap_placed (hk : Running k) (hspan : IsSpanSize spanSize)
    (hsum : size + padding spanSize size < 2 ^ 64)
    (halloc : k.virtualAlloc depth (blockSize spanSize size) .kernel pageFlagsNone =
      .ok (block, k₁))
    (hmap : rpMallocMap depth spanSize size 0 k = .ok ((pointer, offset), k₁)) :
    (spanSize ≤ size → pointer % spanSize = 0) ∧ block ≤ pointer ∧
      pointer + size ≤ block + blockSize spanSize size := by
  obtain ⟨-, -, hpage, hr⟩ := rpMallocMap_returned hk hspan halloc hmap
  have hblock : blockSize spanSize size = size + padding spanSize size := add64_of_lt hsum
  have hbmod := hpage.mod
  rw [hblock]
  split_ifs at hr with hzero
  · obtain ⟨rfl, -⟩ := Prod.mk.inj hr
    refine ⟨fun hle => ?_, le_rfl, by omega⟩
    have hpage := Nat.le_of_dvd hspan.pos hspan.dvd
    have hspan4096 : spanSize = 4096 := by
      rcases (padding_eq_zero_iff hspan).mp hzero with hlt | hle'
      · omega
      · exact le_antisymm hle' hpage
    rwa [hspan4096]
  · obtain ⟨rfl, -⟩ := Prod.mk.inj hr
    have hpadding : padding spanSize size = spanSize := by
      unfold padding at hzero ⊢
      split_ifs at hzero ⊢
      · rfl
      · exact absurd rfl hzero
    obtain ⟨-, hle⟩ := finalPadding_bounds hspan block
    refine ⟨fun _ => ?_, Nat.le_add_right _ _, by omega⟩
    rw [add_finalPadding hspan, Nat.mul_mod_right]

/-- What is asked of a pair of calls: the pointer is aligned, the bytes lie in the block that
VirtualAlloc gave, and the full release frees exactly this block with its frames. -/
structure MapsAndReleases (depth spanSize size block pointer offset : ℕ)
    (k₁ k₂ : KernelMemory) : Prop where
  aligned : spanSize ≤ size → pointer % spanSize = 0
  inside : block ≤ pointer ∧ pointer + size ≤ block + blockSize spanSize size
  released : ∃ k₃, rpMallocUnmap depth pointer size offset size k₂ = .ok k₃ ∧
    Frees k₂ k₃ block (k₁.getPhysicalAddress block false) (blockSize spanSize size)

/-- A pair of calls that keeps all of this has no padding. -/
theorem MapsAndReleases.padding_eq_zero (hk₂ : Running k₂) (hspan : IsSpanSize spanSize)
    (hmod : size % 4096 = 0) (hlt : size < 2 ^ 64) (hsize : pageSize ≤ size)
    (hholds : Holds k₂ block (k₁.getPhysicalAddress block false) (blockSize spanSize size))
    (h : MapsAndReleases depth spanSize size block pointer offset k₁ k₂) :
    padding spanSize size = 0 := by
  obtain ⟨-, ⟨hlo, hhi⟩, k₃, hrun, hfrees⟩ := h
  unfold rpMallocUnmap at hrun
  obtain ⟨u, -, hrun⟩ := bind_eq_ok.mp hrun
  obtain ⟨u, -, hrun⟩ := bind_eq_ok.mp hrun
  obtain ⟨u, -, hrun⟩ := bind_eq_ok.mp hrun
  have hle := hholds.size_le hk₂ (by unfold pageSize at hsize; omega)
    (blockSize_mod hspan hmod) hlt hrun hfrees
  have hpadding : padding spanSize size ≤ 2 ^ 63 := padding_le hspan
  unfold blockSize add64 at hle hhi
  omega

/-- A block without padding is released as it was given. -/
theorem rpMallocUnmap_eq (hsize : pageSize ≤ size) :
    rpMallocUnmap depth block size 0 size k₂ = k₂.virtualFree depth block size := by
  have hrelease : size ≠ 0 ∨ 0 = 0 := Or.inr rfl
  have hrelease' : size = 0 ∨ pageSize ≤ size := Or.inr hsize
  unfold rpMallocUnmap
  rw [require_true hrelease, ok_bind, require_true hrelease', ok_bind, require_true hsize,
    ok_bind, if_neg (by simp)]

/-- RPMallocMap and the matching full release keep the books exactly if the block has no
padding. -/
theorem mapsAndReleases_iff (hk : Reachable k) (hspan : IsSpanSize spanSize)
    (hmod : size % 4096 = 0) (hlt : size < 2 ^ 64)
    (halloc : k.virtualAlloc depth (blockSize spanSize size) .kernel pageFlagsNone =
      .ok (block, k₁))
    (hmap : rpMallocMap depth spanSize size 0 k = .ok ((pointer, offset), k₁))
    (hk₂ : Reachable k₂)
    (hholds : Holds k₂ block (k₁.getPhysicalAddress block false) (blockSize spanSize size))
    (hnodes : ∀ e, rpMallocUnmap depth pointer size offset size k₂ = .error e →
      ¬e.NodeListEmpty) :
    MapsAndReleases depth spanSize size block pointer offset k₁ k₂ ↔
      size < spanSize ∨ spanSize ≤ memoryMapGranularity := by
  obtain ⟨-, hsize, -, hr⟩ := rpMallocMap_returned hk.running hspan halloc hmap
  rw [← padding_eq_zero_iff hspan]
  constructor
  · intro h
    exact h.padding_eq_zero hk₂.running hspan hmod hlt hsize hholds
  · intro hzero
    have hblock : blockSize spanSize size = size := by
      unfold blockSize
      rw [hzero]
      exact add64_of_lt hlt
    obtain ⟨haligned, hinside⟩ := rpMallocMap_placed hk.running hspan (by omega) halloc hmap
    rw [if_pos hzero] at hr
    obtain ⟨rfl, rfl⟩ := Prod.mk.inj hr
    refine ⟨haligned, hinside, ?_⟩
    rw [hblock] at hholds ⊢
    rw [rpMallocUnmap_eq hsize] at hnodes ⊢
    rcases (hholds.virtualFree_meets hk₂.running (by unfold pageSize at hsize; omega) hmod
      depth).ok_or_error with ⟨k₃, hrun, hfrees⟩ | ⟨e, hrun, he⟩
    · exact ⟨k₃, hrun, hfrees⟩
    · exact absurd he (hnodes e hrun)

end Release

section Example

/-- The page states of a machine with 64 pages above the gap, when a span of 64 KiB is mapped with
its padding and released: the addresses of the block. -/
def spanTrees : Except Fault (ℕ × ℕ) := do
  let trees ← machineTrees 64
  let (v, p, physical, virt) ← allocTrees 0x20000 trees
  let _ ← physical.tagRange p (p + 0x10000) .free
  let _ ← virt.tagRange v (v + 0x10000) .free
  return (v, p)

/-- On that machine the calls for one span return. -/
theorem exists_span : ∃ k k₁, Reachable k ∧ Reachable k₁ ∧
    k.virtualAlloc 0 (blockSize 0x10000 0x10000) .kernel pageFlagsNone = .ok (0x40000000, k₁) ∧
    rpMallocMap 0 0x10000 0x10000 0 k = .ok ((0x40010000, 0x2000), k₁) ∧
    ∃ k₂, rpMallocUnmap 0 0x40010000 0x10000 0x2000 0x10000 k₁ = .ok k₂ := by
  have htrees : spanTrees = .ok (0x40000000, 0x40200000) := by decide +kernel
  unfold spanTrees at htrees
  obtain ⟨k, hm, htrees⟩ := exists_machineRunning_of_bind 64 (by decide) htrees
  obtain ⟨⟨v, p, physical, virt⟩, h1, htrees⟩ := bind_eq_ok.mp htrees
  obtain ⟨physical', h2, htrees⟩ := bind_eq_ok.mp htrees
  obtain ⟨virt', h3, htrees⟩ := bind_eq_ok.mp htrees
  cases htrees
  have hk := hm.reachable.running
  obtain ⟨k₁, halloc, hk₁, hf, -, -, hc⟩ := virtualAlloc_enough_ok 0 hk.ok (by decide) h1
    (by decide) (by decide) (hm.missing_le (by decide)) .kernel pageFlagsNone
  obtain ⟨hphys, hvirt, -⟩ := hc.mapped.env.steady id
  have hreach : Reachable k₁ := by
    rcases virtualAlloc_eq_ok halloc with heq | ⟨q, hmap⟩
    · rw [heq]
      exact hm.reachable
    · exact .map hm.reachable (by decide) hmap
  have hspan : IsSpanSize 0x10000 := ⟨4, by decide, by decide⟩
  have hmap : rpMallocMap 0 0x10000 0x10000 0 k = .ok ((0x40010000, 0x2000), k₁) := by
    rw [rpMallocMap_eq hspan (by decide) halloc (by decide) hc.virtual_page]
    rfl
  refine ⟨k, k₁, hm.reachable, hreach, halloc, hmap, ?_⟩
  have hholds := holds_of_alloc hk (by decide) (by decide) (by decide) halloc
  have hframe := hc.frame_found hk.ok hf rfl (show 4096 * 0 < 0x20000 by decide)
  rw [Nat.mul_zero, Nat.add_zero, Nat.add_zero] at hframe
  have hphysical : k₁.getPhysicalAddress 0x40000000 true = 0x40200000 := by
    rw [getPhysicalAddress_live hk₁ hreach.running.cr3,
      getPhysicalAddress_eq_iff hk₁.tables (by decide) (by decide)]
    exact hframe
  have hturns : callTurns 0x40000000 0x10000 = 16 := by decide
  have hpresent : TablesPresent k₁ 0x40000000 0x10000 := by
    intro i hi
    apply tableAt_of_frame
    rw [hholds.mapped i (by omega)]
    simp
  have hunmap : rpMallocUnmap 0 0x40010000 0x10000 0x2000 0x10000 k₁ =
      k₁.virtualFree 0 0x40000000 0x10000 := rfl
  have htag : k₁.physicalMemoryState.tagRange 0x40200000 (physicalEnd 0x40200000 0x10000) .free =
      .ok physical' := by
    rw [hphys, show physicalEnd 0x40200000 0x10000 = 0x40200000 + 0x10000 by decide]
    exact h2
  have htag' : k₁.virtualMemoryState.tagRange 0x40000000 (add64 0x40000000 0x10000) .free =
      .ok virt' := by
    rw [hvirt]
    exact h3
  rw [hunmap, KernelMemory.virtualFree, hphysical]
  refine (mapPages_enough_ok 0 hk₁ hc.virtual_page hc.physical_page (by decide) (by decide)
    (fun i hi _ hpaging => ?_) htag htag' hpresent.enough).imp fun k₂ h => h.1
  rw [hholds.not_paging _ (by omega) (by omega)] at hpaging
  cases hpaging

/-- One span of 64 KiB. -/
theorem mapsAndReleases_iff_span : ∃ k k₁, Reachable k ∧
    rpMallocMap 0 0x10000 0x10000 0 k = .ok ((0x40010000, 0x2000), k₁) ∧
    (MapsAndReleases 0 0x10000 0x10000 0x40000000 0x40010000 0x2000 k₁ k₁ ↔
      0x10000 < 0x10000 ∨ 0x10000 ≤ memoryMapGranularity) := by
  obtain ⟨k, k₁, hk, hk₁, halloc, hmap, k₂, hunmap⟩ := exists_span
  refine ⟨k, k₁, hk, hmap, ?_⟩
  refine mapsAndReleases_iff hk ⟨4, by decide, by decide⟩ (by decide) (by decide) halloc hmap hk₁
    (holds_of_alloc hk.running (by decide) (by decide) (by decide) halloc) fun e he => ?_
  rw [hunmap] at he
  cases he

/-- The release of a span returns, and it does not free the padding with it. -/
theorem span_padding_kept : ∃ k k₁ k₂, Reachable k ∧
    rpMallocMap 0 0x10000 0x10000 0 k = .ok ((0x40010000, 0x2000), k₁) ∧
    rpMallocUnmap 0 0x40010000 0x10000 0x2000 0x10000 k₁ = .ok k₂ ∧
    ¬MapsAndReleases 0 0x10000 0x10000 0x40000000 0x40010000 0x2000 k₁ k₁ := by
  obtain ⟨k, k₁, hk, hk₁, halloc, hmap, k₂, hunmap⟩ := exists_span
  have hholds := holds_of_alloc hk.running (by decide) (by decide) (by decide) halloc
  refine ⟨k, k₁, k₂, hk, hmap, hunmap, fun h => ?_⟩
  have hzero := h.padding_eq_zero hk₁.running ⟨4, by decide, by decide⟩ (by decide) (by decide)
    (by decide) hholds
  cases hzero

end Example

end Enkel.SpanMapping
