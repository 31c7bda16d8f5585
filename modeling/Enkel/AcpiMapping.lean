import Enkel.AllocationRuns
import Enkel.PciConfig
import Enkel.PoolDemand

/-!
AcpiOsMapMemory followed by AcpiOsUnmapMemory. The first tags the frames of the range and
the pages of its window Used, the second tags them all Free. The states are restored when
no frame of the range was Used before, the one more that the rounding adds included, and no
page of the window either.
-/
namespace Enkel.AcpiMapping

open Outcome MemoryState Paging KernelMemory FileMapping TranslatedMemory
open PciConfig (acpiOsMapMemory acpiOsUnmapMemory mappedSize)

/-- The first frame of a range. -/
def rangeStart (location : ℕ) : ℕ := location / 4096 * 4096

/-- The bytes that are mapped for a range, to the end of the page after its last byte. -/
def rangeSize (location length : ℕ) : ℕ := (location % 4096 + length + 4096) / 4096 * 4096

/-- The pair of calls returns, all bytes of the range are mapped in between, and every page
has the state in the end that it had at the start. -/
def MapsAndRestores (depth location length : ℕ) (k : KernelMemory) : Prop :=
  ∃ v k' k'', acpiOsMapMemory depth location length k = .ok (v, k') ∧
    acpiOsUnmapMemory depth v length k' = .ok k'' ∧
    Linear (translate k') v location length ∧
    (∀ x < k.physicalMemoryState.highestAddress, physState k'' x = physState k x) ∧
    ∀ x < pageMask, virtState k'' x = virtState k x

/-- The tags of both calls. -/
def windowTags (window start size : ℕ) (trees : MemoryState × MemoryState) :
    Except Fault (MemoryState × MemoryState) := do
  let physical ← trees.1.tagRange start (start + size) .used
  let virt ← trees.2.tagRange window (window + size) .used
  let physical ← physical.tagRange start (start + size) .free
  let virt ← virt.tagRange window (window + size) .free
  return (physical, virt)

/-- Nothing that the pair of calls maps is in use, and neither the list of free pages nor
the nodes of the trees run out. The window lies in the lower half. -/
structure Unowned (location length window : ℕ) (k : KernelMemory) : Prop where
  phys : ∀ x, rangeStart location ≤ x → x < rangeStart location + rangeSize location length →
    physState k x ≠ .used
  virt : ∀ x, window ≤ x → x < window + rangeSize location length →
    virtState k x ≠ .used ∧ k.isPagingPage x = false
  tables : missingTables k window (rangeSize location length) ≤ k.pagingFree.length
  trees : Succeeds (windowTags window (rangeStart location) (rangeSize location length)
    (k.physicalMemoryState, k.virtualMemoryState))
  low : window + location % 4096 + length ≤ 2 ^ 47

section Calls
variable {depth location length v : ℕ} {k k' k'' : KernelMemory}

theorem rangeSize_mod (location length : ℕ) : rangeSize location length % 4096 = 0 :=
  Nat.mul_mod_left _ _

theorem rangeSize_bounds (location length : ℕ) :
    location % 4096 + length < rangeSize location length ∧
      rangeSize location length ≤ location % 4096 + length + 4096 := by
  unfold rangeSize
  omega

theorem mappedSize_eq (hend : rangeStart location + rangeSize location length < 2 ^ 48) :
    mappedSize length (location % 4096) = rangeSize location length := by
  unfold rangeSize rangeStart at hend
  unfold mappedSize rangeSize
  rw [and_pageMask]
  unfold add64 pageSize
  omega

/-- AcpiOsMapMemory maps the pages of the range where the search finds room. -/
theorem acpiOsMapMemory_eq_ok_iff
    (hend : rangeStart location + rangeSize location length < 2 ^ 48) :
    acpiOsMapMemory depth location length k = .ok (v, k') ↔
      ∃ window, k.virtualMemoryState.findMinimumSizeFreeBlock (rangeSize location length) =
          .ok window ∧
        k.mapPages depth window (rangeStart location) (rangeSize location length)
          (allocMapping .kernel pageFlagsCacheDisable) = .ok k' ∧
        v = add64 window (location % 4096) := by
  have hlt : location < 2 ^ 48 := by
    unfold rangeStart rangeSize at hend
    omega
  have hstart : location &&& pageMask = rangeStart location := by
    rw [and_pageMask]
    unfold rangeStart
    omega
  have hoffset : sub64 location (rangeStart location) = location % 4096 := by
    unfold rangeStart
    rw [sub64_of_le (by omega) (by omega)]
    omega
  unfold acpiOsMapMemory KernelMemory.physicalAlloc
  rw [hstart, hoffset]
  dsimp only
  rw [mappedSize_eq hend]
  constructor
  · intro h
    obtain ⟨⟨window, k1⟩, halloc, h⟩ := bind_eq_ok.mp h
    obtain ⟨w, hfind, halloc⟩ := bind_eq_ok.mp halloc
    obtain ⟨k2, hmap, halloc⟩ := bind_eq_ok.mp halloc
    cases halloc
    cases h
    exact ⟨window, hfind, hmap, rfl⟩
  · rintro ⟨window, hfind, hmap, rfl⟩
    exact bind_eq_ok.mpr ⟨(window, k'),
      bind_eq_ok.mpr ⟨window, hfind, bind_eq_ok.mpr ⟨k', hmap, rfl⟩⟩, rfl⟩

/-- AcpiOsUnmapMemory of the pointer frees the window with the frames that it maps. -/
theorem acpiOsUnmapMemory_eq {window : ℕ}
    (hend : rangeStart location + rangeSize location length < 2 ^ 48) (hwindow : PageAddress window)
    (hphys : k.getPhysicalAddress window true = rangeStart location) :
    acpiOsUnmapMemory depth (add64 window (location % 4096)) length k =
      k.mapPages depth window (rangeStart location) (rangeSize location length) freeMapping := by
  have hlt := hwindow.lt
  have hmod := hwindow.mod
  have hsum : add64 window (location % 4096) = window + location % 4096 :=
    add64_of_lt (by omega)
  have hmask : (window + location % 4096) &&& pageMask = window := by
    rw [and_pageMask]
    omega
  have hoffset : sub64 (window + location % 4096) window = location % 4096 := by
    rw [sub64_of_le (by omega) (by omega)]
    omega
  unfold acpiOsUnmapMemory
  rw [hsum, hmask, hoffset]
  dsimp only
  rw [mappedSize_eq hend]
  unfold KernelMemory.virtualFree
  rw [hphys]
  rfl

/-- The first page of the window maps the first frame of the range. -/
theorem window_translation (hk : Running k) {window : ℕ}
    (hend : rangeStart location + rangeSize location length < 2 ^ 48)
    (hmap : k.mapPages depth window (rangeStart location) (rangeSize location length)
      (allocMapping .kernel pageFlagsCacheDisable) = .ok k') :
    PageAddress window ∧ k'.getPhysicalAddress window true = rangeStart location := by
  obtain ⟨hlo, -⟩ := rangeSize_bounds location length
  obtain ⟨hk', kt, hc⟩ := mapPages_eq_ok hk.ok (by omega) hmap
  have hwindow := hc.virtual_page.lt
  have hat := hc.translation_mapped hk.ok hk' (by omega) (by decide) le_rfl
    (show window < window + rangeSize location length by omega)
  rw [getPhysicalAddress_live hk' (hk.of_called hk' (by omega) hc).cr3, hat]
  exact ⟨hc.virtual_page, by omega⟩

/-- Both calls, on the window that the search returns. -/
theorem mapsAndRestores_iff_calls (hk : Running k)
    (hend : rangeStart location + rangeSize location length < 2 ^ 48) :
    MapsAndRestores depth location length k ↔
      ∃ window k' k'',
        k.virtualMemoryState.findMinimumSizeFreeBlock (rangeSize location length) = .ok window ∧
        k.mapPages depth window (rangeStart location) (rangeSize location length)
          (allocMapping .kernel pageFlagsCacheDisable) = .ok k' ∧
        k'.mapPages depth window (rangeStart location) (rangeSize location length) freeMapping =
          .ok k'' ∧
        Linear (translate k') (add64 window (location % 4096)) location length ∧
        (∀ x < k.physicalMemoryState.highestAddress, physState k'' x = physState k x) ∧
        ∀ x < pageMask, virtState k'' x = virtState k x := by
  constructor
  · rintro ⟨v, k', k'', hmap, hunmap, hlinear, hrestored⟩
    obtain ⟨window, hfind, hcall, rfl⟩ := (acpiOsMapMemory_eq_ok_iff hend).mp hmap
    obtain ⟨hwindow, hat⟩ := window_translation hk hend hcall
    rw [acpiOsUnmapMemory_eq hend hwindow hat] at hunmap
    exact ⟨window, k', k'', hfind, hcall, hunmap, hlinear, hrestored⟩
  · rintro ⟨window, k', k'', hfind, hmap, hunmap, hlinear, hrestored⟩
    obtain ⟨hwindow, hat⟩ := window_translation hk hend hmap
    rw [← acpiOsUnmapMemory_eq hend hwindow hat] at hunmap
    exact ⟨_, k', k'', (acpiOsMapMemory_eq_ok_iff hend).mpr ⟨window, hfind, hmap, rfl⟩, hunmap,
      hlinear, hrestored⟩

end Calls

section Restore
variable {depth v p size : ℕ} {k k' k'' : KernelMemory} {x : ℕ}

/-- A range of pages, mapped and freed again. -/
structure Pair (depth v p size : ℕ) (k k' k'' : KernelMemory) : Prop where
  running : Running k
  size_pos : 0 < size
  size_lt : size < 2 ^ 48
  map : k.mapPages depth v p size (allocMapping .kernel pageFlagsCacheDisable) = .ok k'
  unmap : k'.mapPages depth v p size freeMapping = .ok k''

theorem callTurns_pos (hv : PageAddress v) (hmod : size % 4096 = 0) (hpos : 0 < size)
    (hlt : size < 2 ^ 48) : 0 < callTurns v size := by
  have hvlt := hv.lt
  rw [callTurns_of_lt hv hmod (by omega)]
  omega

/-- The second call finds the tables that the first has left, so it needs no refill. -/
theorem Pair.called (h : Pair depth v p size k k' k'') :
    Running k' ∧ v + size ≤ pageMask ∧ p + size ≤ k.physicalMemoryState.highestAddress ∧
      (∃ kt, Called True (allocMapping .kernel pageFlagsCacheDisable) v p size k kt k') ∧
      ∃ kt, Called False freeMapping v p size k' kt k'' := by
  have hk := h.running
  have hlt := h.size_lt
  obtain ⟨hk', kt, hc⟩ := mapPages_eq_ok hk.ok (by omega) h.map
  have hv := hc.virtual_page.lt
  obtain ⟨-, hvend, hpend⟩ :=
    hc.bounds (callTurns_pos hc.virtual_page hc.size_mod h.size_pos hlt)
  obtain ⟨-, -, -, hc'⟩ := (mapPages_enough_meets depth hk' (by omega)
    (TablesPresent.enough hc.mapped.table)).of_eq_ok h.unmap
  exact ⟨hk.of_called hk' (by omega) hc, hvend, hpend, ⟨kt, hc⟩, hc'⟩

/-- A frame that was Used is Free in the end. -/
theorem Pair.phys_freed (h : Pair depth v p size k k' k'') (hlo : p ≤ x) (hhi : x < p + size)
    (hused : physState k x = .used) : physState k'' x = .free := by
  have hk := h.running.ok
  obtain ⟨hk', -, hpend, ⟨kt, hc⟩, kt', hc'⟩ := h.called
  have hH := hk.physical.lt
  have htag : physState kt x = .used := by
    rw [hc.phys_tagged hk (by omega)]
    unfold tagged
    split_ifs
    · rfl
    · exact hused
  have henv := hc.mapped.env
  have hsame : physState k' x = .used := by
    rcases henv.phys x (by rw [← henv.highest, hc.highest_eq hk]; omega) with heq | ⟨-, hfree, -⟩
    · exact heq.trans htag
    · rw [htag] at hfree
      cases hfree
  rw [hc'.physState_quiet, hc'.phys_tagged hk'.ok (by rw [hc.highest_eq hk]; omega),
    physicalEnd_of_lt hc.physical_page hc.size_mod (by omega)]
  unfold tagged
  rw [if_pos ⟨hlo, hhi, by rw [hsame]; decide⟩]
  rfl

/-- A page that was Used is Free in the end. -/
theorem Pair.virt_freed (h : Pair depth v p size k k' k'') (hlo : v ≤ x) (hhi : x < v + size)
    (hused : virtState k x = .used) : virtState k'' x = .free := by
  have hk := h.running.ok
  obtain ⟨hk', hvend, -, ⟨kt, hc⟩, kt', hc'⟩ := h.called
  have htag : virtState kt x = .used := by
    rw [hc.virt_tagged hk (by omega)]
    unfold tagged
    split_ifs
    · rfl
    · exact hused
  have hsame : virtState k' x = .used := by
    rw [hc.mapped.env.virt_of_ne_free (by omega) (by rw [htag]; decide), htag]
  rw [hc'.virtState_quiet, hc'.virt_tagged hk'.ok (by omega),
    add64_of_lt (by unfold pageMask at hvend; omega)]
  unfold tagged
  rw [if_pos ⟨hlo, hhi, by rw [hsame]; decide⟩]
  rfl

/-- A page off the window that the first call has taken is not given back. -/
theorem Pair.virt_taken (h : Pair depth v p size k k' k'') (hx : x < pageMask)
    (hout : ¬(v ≤ x ∧ x < v + size)) (hne : virtState k' x ≠ .free) : virtState k'' x ≠ .free := by
  obtain ⟨hk', hvend, -, -, kt', hc'⟩ := h.called
  rw [hc'.virtState_quiet, hc'.virt_tagged hk'.ok hx,
    add64_of_lt (by unfold pageMask at hvend; omega)]
  unfold tagged
  rwa [if_neg fun hin => hout ⟨hin.1, hin.2.1⟩]

/-- The second call frees no page of a paging structure. -/
theorem Pair.not_paging (h : Pair depth v p size k k' k'') (hlo : v ≤ x) (hhi : x < v + size) :
    k.isPagingPage x = false := by
  have hk := h.running
  obtain ⟨hk', hvend, -, ⟨kt, hc⟩, kt', hc'⟩ := h.called
  have hvmod := hc.virtual_page.mod
  have hmod := hc.size_mod
  have hturns := callTurns_of_lt hc.virtual_page hmod (by unfold pageMask at hvend; omega)
  rw [Bool.eq_false_iff]
  intro hpaging
  have hbase : k.isPagingPage (v + 4096 * ((x - v) / 4096)) = true :=
    hk.ok.isPagingPage_base (by unfold Aligned; omega) (by omega) hpaging
  have henv := hc.mapped.env
  obtain ⟨physical, virt, rfl, -⟩ := hc.tags
  exact absurd rfl (hc'.keeps ((x - v) / 4096) (by omega) hk'.pml4Set (henv.isPagingPage hbase)).1

/-- When every page has its state again, the first call has refilled nothing. -/
theorem Pair.enough (h : Pair depth v p size k k' k'')
    (hvirt : ∀ x < pageMask, virtState k'' x = virtState k x) :
    missingTables k v size ≤ k.pagingFree.length := by
  have hlt := h.size_lt
  obtain ⟨-, hvend, -⟩ := h.called
  rcases mapPages_enough_or_refilled h.running.ok (by omega) (by decide) h.map with
    henough | ⟨x, hx, hout, hfree, hne⟩
  · exact henough
  · rw [add64_of_lt (by unfold pageMask at hvend; omega)] at hout
    exact absurd ((hvirt x hx).trans hfree) (h.virt_taken hx hout hne)

/-- The tags of both calls return, when the first refills nothing. -/
theorem Pair.tags (h : Pair depth v p size k k' k'')
    (henough : missingTables k v size ≤ k.pagingFree.length) :
    Succeeds (windowTags v p size (k.physicalMemoryState, k.virtualMemoryState)) := by
  have hlt := h.size_lt
  have hH := h.running.ok.physical.lt
  obtain ⟨-, hvend, hpend, -, kt', hc'⟩ := h.called
  obtain ⟨-, -, -, kt, hc⟩ :=
    (mapPages_enough_meets depth h.running.ok (by omega) henough).of_eq_ok h.map
  obtain ⟨hphysical', hvirt'⟩ := hc.trees_quiet
  obtain ⟨physical, virt, rfl, h1, h2⟩ := hc.tags
  obtain ⟨physical', virt', -, h3, h4⟩ := hc'.tags
  rw [hphysical', physicalEnd_of_lt hc.physical_page hc.size_mod (by omega)] at h3
  rw [hvirt', add64_of_lt (by unfold pageMask at hvend; omega)] at h4
  rw [physicalEnd_of_lt hc.physical_page hc.size_mod (by omega)] at h1
  rw [add64_of_lt (by unfold pageMask at hvend; omega)] at h2
  exact ⟨(physical', virt'), bind_eq_ok.mpr ⟨physical, h1, bind_eq_ok.mpr ⟨virt, h2,
    bind_eq_ok.mpr ⟨physical', h3, bind_eq_ok.mpr ⟨virt', h4, rfl⟩⟩⟩⟩⟩

end Restore

section Main
variable {depth location length : ℕ} {k : KernelMemory}

theorem unowned_of_restores (hk : Running k) (hpos : 0 < length)
    (hend : rangeStart location + rangeSize location length ≤ k.physicalMemoryState.highestAddress)
    (h : MapsAndRestores depth location length k) :
    ∃ window, k.virtualMemoryState.findMinimumSizeFreeBlock (rangeSize location length) =
      .ok window ∧ Unowned location length window k := by
  have hH := hk.ok.physical.lt
  obtain ⟨hlo, -⟩ := rangeSize_bounds location length
  obtain ⟨window, k', k'', hfind, hmap, hunmap, hlinear, hphys, hvirt⟩ :=
    (mapsAndRestores_iff_calls hk (by omega)).mp h
  have hpair : Pair depth window (rangeStart location) (rangeSize location length) k k' k'' :=
    ⟨hk, by omega, by omega, hmap, hunmap⟩
  obtain ⟨-, hvend, -⟩ := hpair.called
  have henough := hpair.enough hvirt
  refine ⟨window, hfind,
    { phys := fun x hxlo hxhi hused => ?_
      virt := fun x hxlo hxhi => ⟨fun hused => ?_, hpair.not_paging hxlo hxhi⟩
      tables := henough
      trees := hpair.tags henough
      low := ?_ }⟩
  · have hfreed := hpair.phys_freed hxlo hxhi hused
    rw [hphys x (by omega), hused] at hfreed
    cases hfreed
  · have hfreed := hpair.virt_freed hxlo hxhi hused
    rw [hvirt x (by omega), hused] at hfreed
    cases hfreed
  · unfold pageMask at hvend
    rw [add64_of_lt (by omega)] at hlinear
    exact end_le_of_translated (by omega) hpos fun i hi => by
      rw [hlinear i hi]
      rfl

/-- Tagging Used and then Free brings back what was not Used. -/
theorem tagged_restores {pages pages' : ℕ → RangeState} {low high x : ℕ}
    (h : low ≤ x → x < high → pages x ≠ .used) (h' : pages' x = tagged pages low high .used x) :
    tagged pages' low high .free x = pages x := by
  unfold tagged at h' ⊢
  by_cases hin : low ≤ x ∧ x < high
  · cases hx : pages x with
    | free =>
      rw [if_pos ⟨hin.1, hin.2, by rw [hx]; decide⟩] at h'
      rw [if_pos ⟨hin.1, hin.2, by rw [h']; decide⟩]
    | used => exact absurd hx (h hin.1 hin.2)
    | reserved =>
      rw [if_neg fun hcond => hcond.2.2 hx] at h'
      rw [if_neg fun hcond => hcond.2.2 (h'.trans hx), h', hx]
  · rw [if_neg fun hcond => hin ⟨hcond.1, hcond.2.1⟩] at h'
    rw [if_neg fun hcond => hin ⟨hcond.1, hcond.2.1⟩, h']

/-- The page states when no list is refilled: both ranges are tagged twice. -/
structure Pair.Quiet (v p size : ℕ) (k k' k'' : KernelMemory) : Prop where
  ok : Ok k'
  map : ∃ kt, Called False (allocMapping .kernel pageFlagsCacheDisable) v p size k kt k'
  unmap : ∃ kt, Called False freeMapping v p size k' kt k''

/-- The pair of calls returns when the list has the pages for it, the tags return and the
window holds no paging structure. -/
theorem exists_pair (hk : Reachable k) (depth : ℕ) {window : ℕ}
    (hend : rangeStart location + rangeSize location length ≤ k.physicalMemoryState.highestAddress)
    (hfind : k.virtualMemoryState.findMinimumSizeFreeBlock (rangeSize location length) =
      .ok window)
    (hpaging : ∀ x, window ≤ x → x < window + rangeSize location length →
      k.isPagingPage x = false)
    (htables : missingTables k window (rangeSize location length) ≤ k.pagingFree.length)
    (htrees : Succeeds (windowTags window (rangeStart location) (rangeSize location length)
      (k.physicalMemoryState, k.virtualMemoryState)))
    (hlt : window + rangeSize location length < 2 ^ 48) :
    ∃ k' k'', Pair depth window (rangeStart location) (rangeSize location length) k k' k'' ∧
      Pair.Quiet window (rangeStart location) (rangeSize location length) k k' k'' := by
  have hok := hk.running.ok
  have hH := hok.physical.lt
  obtain ⟨hlo, -⟩ := rangeSize_bounds location length
  have hmod := rangeSize_mod location length
  have hwindow : PageAddress window := by
    rw [findMinimumSizeFreeBlock_eq hok.virt] at hfind
    refine ⟨?_, by omega⟩
    by_cases hzero : window = 0
    · rw [hzero]
      decide
    · exact (firstFit_spec hok.virt (Except.ok.inj hfind) hzero).1
  have hstart : PageAddress (rangeStart location) := by
    refine ⟨?_, by omega⟩
    unfold rangeStart Aligned
    omega
  obtain ⟨trees, htrees⟩ := htrees
  obtain ⟨physical, h1, htrees⟩ := bind_eq_ok.mp htrees
  obtain ⟨virt, h2, htrees⟩ := bind_eq_ok.mp htrees
  obtain ⟨physical', h3, htrees⟩ := bind_eq_ok.mp htrees
  obtain ⟨virt', h4, -⟩ := bind_eq_ok.mp htrees
  have hphysEnd := physicalEnd_of_lt hstart hmod (by omega)
  have hadd : add64 window (rangeSize location length) = window + rangeSize location length :=
    add64_of_lt (by omega)
  have hturns := callTurns_of_lt hwindow hmod (by omega)
  obtain ⟨k', hmap, hk', -, -, hc⟩ := mapPages_enough_ok depth
    (m := allocMapping .kernel pageFlagsCacheDisable) hok hwindow hstart hmod (by omega)
    (fun i hi _ hpage => by
      rw [hpaging _ (by omega) (by omega)] at hpage
      cases hpage) (by rw [hphysEnd]; exact h1) (by rw [hadd]; exact h2) htables
  obtain ⟨hphysical, hvirt⟩ := hc.trees_quiet
  obtain ⟨k'', hunmap, -, -, -, hc'⟩ := mapPages_enough_ok depth (m := freeMapping) hk' hwindow
    hstart hmod (by omega)
    (fun i hi _ hpage => by
      rw [hc.paging_quiet.2, hpaging _ (by omega) (by omega)] at hpage
      cases hpage) (by rw [hphysEnd, hphysical]; exact h3) (by rw [hadd, hvirt]; exact h4)
    (TablesPresent.enough hc.mapped.table)
  exact ⟨k', k'', ⟨hk.running, by omega, by omega, hmap, hunmap⟩, hk', ⟨_, hc⟩, _, hc'⟩

theorem restores_of_unowned (hk : Reachable k) (depth : ℕ) {window : ℕ}
    (hend : rangeStart location + rangeSize location length ≤ k.physicalMemoryState.highestAddress)
    (hfind : k.virtualMemoryState.findMinimumSizeFreeBlock (rangeSize location length) =
      .ok window)
    (h : Unowned location length window k) : MapsAndRestores depth location length k := by
  have hok := hk.running.ok
  have hH := hok.physical.lt
  obtain ⟨hlo, hhi⟩ := rangeSize_bounds location length
  have hlow := h.low
  obtain ⟨k', k'', hpair, hk', ⟨kt, hc⟩, kt', hc'⟩ := exists_pair hk depth hend hfind
    (fun x hlo hhi => (h.virt x hlo hhi).2) h.tables h.trees (by omega)
  obtain ⟨-, hvend, -⟩ := hpair.called
  have hphysEnd := physicalEnd_of_lt hc.physical_page hc.size_mod (by omega)
  have hadd : add64 window (rangeSize location length) = window + rangeSize location length :=
    add64_of_lt (by omega)
  apply (mapsAndRestores_iff_calls hk.running (by omega)).mpr
  refine ⟨window, k', k'', hfind, hpair.map, hpair.unmap, fun i hi => ?_, fun x hx => ?_,
    fun x hx => ?_⟩
  · have hat := linear_of_called hc hok hk' hk.running.cr3 (by decide) hvend
      (show location % 4096 + length ≤ _ from hlo.le) (by omega) (location % 4096 + i) (by omega)
    rw [add64_of_lt (by omega), Nat.add_assoc, hat]
    unfold rangeStart
    exact congrArg some (by omega)
  · rw [hc'.physState_quiet, hc'.phys_tagged hk' (by rw [hc.highest_eq hok]; exact hx), hphysEnd]
    refine tagged_restores (fun hlo hhi => h.phys x hlo hhi) ?_
    rw [hc.physState_quiet, hc.phys_tagged hok hx, hphysEnd]
    rfl
  · rw [hc'.virtState_quiet, hc'.virt_tagged hk' hx, hadd]
    refine tagged_restores (fun hlo hhi => (h.virt x hlo hhi).1) ?_
    rw [hc.virtState_quiet, hc.virt_tagged hok hx, hadd]
    rfl

/-- In every reachable state: mapping a range and freeMapping it restores every page exactly if
nothing that is mapped was in use. -/
theorem mapsAndRestores_iff (hk : Reachable k) (depth : ℕ) (hpos : 0 < length)
    (hend : rangeStart location + rangeSize location length ≤
      k.physicalMemoryState.highestAddress) :
    MapsAndRestores depth location length k ↔ ∃ window,
      k.virtualMemoryState.findMinimumSizeFreeBlock (rangeSize location length) = .ok window ∧
        Unowned location length window k :=
  ⟨unowned_of_restores hk.running hpos hend,
    fun ⟨_, hfind, h⟩ => restores_of_unowned hk depth hend hfind h⟩

end Main

section Example

/-- On the machine with 16 pages above the gap: the states of frame 0x1000 and the windows of
one page for it and for the first free frame. -/
def windowTrees : Except Fault (ℕ × ℕ × RangeState) := do
  let trees ← machineTrees 16
  let p ← trees.1.findMinimumSizeFreeBlock 0x1000
  let v ← trees.2.findMinimumSizeFreeBlock 0x1000
  let _ ← windowTags v p 0x1000 trees
  let _ ← windowTags v 0x1000 0x1000 trees
  return (p, v, trees.1.getPageState 0x1000)

theorem windowTrees_eq : ∃ k, MachineRunning 16 (by decide) k ∧
    k.physicalMemoryState.findMinimumSizeFreeBlock 0x1000 = .ok 0x40200000 ∧
    k.virtualMemoryState.findMinimumSizeFreeBlock 0x1000 = .ok 0x40000000 ∧
    Succeeds (windowTags 0x40000000 0x40200000 0x1000
      (k.physicalMemoryState, k.virtualMemoryState)) ∧
    Succeeds (windowTags 0x40000000 0x1000 0x1000
      (k.physicalMemoryState, k.virtualMemoryState)) ∧
    physState k 0x1000 = .used := by
  have htrees : windowTrees = .ok (0x40200000, 0x40000000, .used) := by decide +kernel
  unfold windowTrees at htrees
  obtain ⟨k, hm, htrees⟩ := exists_machineRunning_of_bind 16 (by decide) htrees
  obtain ⟨p, h1, htrees⟩ := bind_eq_ok.mp htrees
  obtain ⟨v, h2, htrees⟩ := bind_eq_ok.mp htrees
  obtain ⟨trees, h3, htrees⟩ := bind_eq_ok.mp htrees
  obtain ⟨trees', h4, htrees⟩ := bind_eq_ok.mp htrees
  obtain ⟨rfl, hrest⟩ := Prod.mk.inj (Except.ok.inj htrees)
  obtain ⟨rfl, hstate⟩ := Prod.mk.inj hrest
  exact ⟨k, hm, h1, h2, ⟨trees, h3⟩, ⟨trees', h4⟩, hstate⟩

/-- The page that the search finds on that machine. -/
theorem window_free {k : KernelMemory} (hk : Running k)
    (hfind : k.virtualMemoryState.findMinimumSizeFreeBlock 0x1000 = .ok 0x40000000) {x : ℕ}
    (hlo : 0x40000000 ≤ x) (hhi : x < 0x40001000) :
    virtState k x = .free ∧ k.isPagingPage x = false := by
  rw [findMinimumSizeFreeBlock_eq hk.ok.virt] at hfind
  have hfree : virtState k x = .free :=
    (firstFit_spec hk.ok.virt (Except.ok.inj hfind) (by decide)).2.2.2.2 x hlo (Or.inl (by omega))
  refine ⟨hfree, ?_⟩
  rw [Bool.eq_false_iff]
  intro hpaging
  exact hk.ok.live hk.pml4Set x (by unfold pageMask; omega) hpaging hfree

theorem frames_free {k : KernelMemory} (hk : Running k)
    (hfind : k.physicalMemoryState.findMinimumSizeFreeBlock 0x1000 = .ok 0x40200000) :
    0x40201000 ≤ k.physicalMemoryState.highestAddress ∧
      ∀ x, 0x40200000 ≤ x → x < 0x40201000 → physState k x = .free := by
  rw [findMinimumSizeFreeBlock_eq hk.ok.physical] at hfind
  obtain ⟨-, -, hend, -, hfree⟩ :=
    firstFit_spec hk.ok.physical (Except.ok.inj hfind) (by decide)
  exact ⟨hend, fun x hlo hhi => hfree x hlo (Or.inl (by omega))⟩

/-- A range in the first free frame. -/
theorem mapsAndRestores_iff_free : ∃ k, Reachable k ∧ MapsAndRestores 0 0x40200000 0x10 k := by
  obtain ⟨k, hm, hfindp, hfindv, htags, -⟩ := windowTrees_eq
  have hk := hm.reachable.running
  have hsize : rangeSize 0x40200000 0x10 = 0x1000 := by decide
  have hstart : rangeStart 0x40200000 = 0x40200000 := by decide
  obtain ⟨hend, hfree⟩ := frames_free hk hfindp
  refine ⟨k, hm.reachable, (mapsAndRestores_iff hm.reachable 0 (by decide)
    (by rw [hsize, hstart]; exact hend)).mpr ⟨0x40000000, by rw [hsize]; exact hfindv,
      { phys := fun x hlo hhi => ?_
        virt := fun x hlo hhi => ?_
        tables := ?_
        trees := by rw [hsize, hstart]; exact htags
        low := by decide }⟩⟩
  · rw [hstart] at hlo
    rw [hsize, hstart] at hhi
    rw [hfree x hlo (by omega)]
    decide
  · rw [hsize] at hhi
    obtain ⟨hstate, hpaging⟩ := window_free hk hfindv hlo (by omega)
    rw [hstate]
    exact ⟨by decide, hpaging⟩
  · rw [hsize]
    exact hm.missing_le (by decide)

/-- Frame 0x1000 holds memory of the kernel. It is Free after it was mapped and unmapped. -/
theorem used_frame_freed : ∃ k v k' k'', Reachable k ∧
    rangeStart 0x1000 + rangeSize 0x1000 0x10 ≤ k.physicalMemoryState.highestAddress ∧
    acpiOsMapMemory 0 0x1000 0x10 k = .ok (v, k') ∧ acpiOsUnmapMemory 0 v 0x10 k' = .ok k'' ∧
    physState k 0x1000 = .used ∧ physState k'' 0x1000 = .free ∧
    ¬MapsAndRestores 0 0x1000 0x10 k := by
  obtain ⟨k, hm, hfindp, hfindv, -, htags, hused⟩ := windowTrees_eq
  have hk := hm.reachable.running
  have hsize : rangeSize 0x1000 0x10 = 0x1000 := by decide
  have hstart : rangeStart 0x1000 = 0x1000 := by decide
  obtain ⟨hend, -⟩ := frames_free hk hfindp
  have hbound : rangeStart 0x1000 + rangeSize 0x1000 0x10 ≤
      k.physicalMemoryState.highestAddress := by
    rw [hsize, hstart]
    omega
  obtain ⟨k', k'', hpair, -⟩ := exists_pair hm.reachable 0 hbound
    (by rw [hsize]; exact hfindv)
    (fun x hlo hhi => (window_free hk hfindv hlo (by rw [hsize] at hhi; exact hhi)).2)
    (by rw [hsize]; exact hm.missing_le (by decide)) (by rw [hsize, hstart]; exact htags)
    (by rw [hsize]; decide)
  have hlt : rangeStart 0x1000 + rangeSize 0x1000 0x10 < 2 ^ 48 := by decide
  obtain ⟨hwindow, hat⟩ := window_translation hk hlt hpair.map
  refine ⟨k, _, k', k'', hm.reachable, hbound,
    (acpiOsMapMemory_eq_ok_iff hlt).mpr ⟨_, by rw [hsize]; exact hfindv, hpair.map, rfl⟩,
    (acpiOsUnmapMemory_eq hlt hwindow hat).trans hpair.unmap, hused,
    hpair.phys_freed (by decide) (by decide) hused, fun h => ?_⟩
  obtain ⟨window, -, hunowned⟩ := unowned_of_restores hk (by decide) hbound h
  exact hunowned.phys 0x1000 (by decide) (by decide) hused

end Example

end Enkel.AcpiMapping
