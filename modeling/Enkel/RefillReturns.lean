import Enkel.Progress

/-!
When a refill returns. The reserve block must be mapped, the next block must be
found and tagged, and the entry that waits must not lead to a linked page; then
the call of MapPages goes on. An allocation of one page whose table is missing
is worked out to the end.
-/
namespace Enkel.Paging

open Outcome MemoryState KernelMemory

section Call
variable {depth : ℕ} {m : Mapping} {k k' : KernelMemory} {v p size : ℕ}
  {physical virt : MemoryState}

/-- A call that returns has tagged both trees and run its loop. -/
theorem mapPages_loop (h : k.mapPages depth v p size m = .ok k') :
    ∃ physical virt,
      k.physicalMemoryState.tagRange p (physicalEnd p size) m.newState = .ok physical ∧
      k.virtualMemoryState.tagRange v (add64 v size) m.newState = .ok virt ∧
      mapLoop (getPML4FreePage depth) m (callTurns v size) v p v p
        (withTrees k physical virt) = .ok k' := by
  unfold KernelMemory.mapPages mapPagesWith at h
  obtain ⟨_, -, h⟩ := bind_eq_ok.mp h
  obtain ⟨_, hv, h⟩ := bind_eq_ok.mp h
  obtain ⟨_, hp, h⟩ := bind_eq_ok.mp h
  rw [← require_eq_ok.mp hv, ← require_eq_ok.mp hp] at h
  obtain ⟨_, -, h⟩ := bind_eq_ok.mp h
  obtain ⟨physical, hphysical, h⟩ := bind_eq_ok.mp h
  obtain ⟨virt, hvirt, h⟩ := bind_eq_ok.mp h
  exact ⟨physical, virt, hphysical, hvirt, h⟩

theorem mapPages_of_loop (hv : PageAddress v) (hp : PageAddress p) (hsize : size % 4096 = 0)
    (hkeep : ∀ i < callTurns v size, k.keepsPagingPage m (v + 4096 * i) (p + 4096 * i))
    (hphysical : k.physicalMemoryState.tagRange p (physicalEnd p size) m.newState = .ok physical)
    (hvirt : k.virtualMemoryState.tagRange v (add64 v size) m.newState = .ok virt)
    (h : mapLoop (getPML4FreePage depth) m (callTurns v size) v p v p
      (withTrees k physical virt) = .ok k') :
    k.mapPages depth v p size m = .ok k' := by
  have hmod : size &&& (pageSize - 1) = 0 :=
    (Nat.and_two_pow_sub_one_eq_mod size 12).trans hsize
  have hva : v = v &&& pageMask := (and_pageMask_of_aligned hv.aligned hv.lt).symm
  have hpa : p = p &&& pageMask := (and_pageMask_of_aligned hp.aligned hp.lt).symm
  unfold KernelMemory.mapPages mapPagesWith
  refine bind_eq_ok.mpr ⟨(), require_true hmod, bind_eq_ok.mpr ⟨(), require_true hva,
    bind_eq_ok.mpr ⟨(), require_true hpa, ?_⟩⟩⟩
  rw [← hva, ← hpa]
  exact bind_eq_ok.mpr ⟨(), require_true hkeep, bind_eq_ok.mpr ⟨physical, hphysical,
    bind_eq_ok.mpr ⟨virt, hvirt, h⟩⟩⟩

end Call

section NextTable
variable {k : KernelMemory} {q : List ℕ} {t i u : ℕ}

/-- An entry that is present is followed, and nothing changes. -/
theorem nextTable_present (ht : tableAt k q = some t) (hu : tableAt k (q ++ [i]) = some u)
    (getPage : PageSource) (mask : ℕ) : nextTable getPage t i mask k = .ok (u, k) := by
  rw [tableAt_snoc ht] at hu
  unfold next at hu
  unfold nextTable
  split_ifs at hu with hpresent
  rw [if_pos hpresent]
  cases hu
  rfl

theorem entry_absent (ht : tableAt k q = some t) (hnone : tableAt k (q ++ [i]) = none) :
    k.entries t i &&& present = 0 := by
  rw [tableAt_snoc ht] at hnone
  exact next_eq_none_iff.mp hnone

end NextTable

/-- AllocateNextFreePageTableEntries returns when the block is found and tagged,
the list is long enough and the heap does not grow. -/
theorem allocateNext_zero_ok {k : KernelMemory} (hk : Ok k) {block p : ℕ}
    {physical virt : MemoryState}
    (htrees : allocTrees pagingBlockBytes (k.physicalMemoryState, k.virtualMemoryState) =
      .ok (block, p, physical, virt)) (hblock : block ≠ 0) (hp : p ≠ 0)
    (hheap : k.heapRequests = [])
    (hpool : missingTables k block pagingBlockBytes ≤ k.pagingFree.length) :
    ∃ k', Ok k' ∧ Found k block p pagingBlockBytes ∧
      Counted (callPrefixes block (callTurns block pagingBlockBytes)) k k' ∧
      k'.pagingFree.length + missingTables k block pagingBlockBytes = k.pagingFree.length ∧
      Called False (allocMapping .kernel pageFlagsNone) block p pagingBlockBytes k
        (withTrees k physical virt) k' ∧
      allocateNextFreePageTableEntries (getPML4FreePage 0) k =
        .ok ((setReserve k' block).clearPages (inBlock block)) := by
  obtain ⟨k', halloc, hk', hf, hcount, hlength, hc⟩ := virtualAlloc_enough_ok 0 hk
    (by decide) htrees hblock hp hpool .kernel pageFlagsNone
  refine ⟨k', hk', hf, hcount, hlength, hc, ?_⟩
  obtain ⟨-, -, -, -, -, hheap'⟩ := hc.mapped.env.steady id
  have hnone : ((setReserve k' block).clearPages (inBlock block)).heapRequests = [] :=
    hheap'.trans hheap
  unfold KernelMemory.virtualAlloc at halloc
  unfold allocateNextFreePageTableEntries
  rw [halloc, ok_bind]
  refine bind_eq_ok.mpr ⟨(), require_true hblock, ?_⟩
  change initDynamic _ ((setReserve k' block).clearPages (inBlock block)) = _
  unfold initDynamic
  rw [hnone]

/-- What a refill needs to return without further refills: a reserve block that
can be written, room for the next block, and no growth of the heap. -/
structure RefillReady (k : KernelMemory) (block p : ℕ) : Prop where
  empty : k.pagingFree = []
  reserve : k.nextFreePageTableEntriesBlock ≠ 0
  unlinked : k.nextFreePageTableEntriesBlock ∉ k.linkedBlocks
  mapped : ∀ page ∈ blockPages k.nextFreePageTableEntriesBlock nextPagingBlockSize,
    k.getPhysicalAddress page false ≠ invalidAddress
  trees : ∃ physical virt,
    allocTrees pagingBlockBytes (k.physicalMemoryState, k.virtualMemoryState) =
      .ok (block, p, physical, virt)
  block_ne : block ≠ 0
  frame_ne : p ≠ 0
  heap : k.heapRequests = []

section Returns
variable {k : KernelMemory} {block p : ℕ}

theorem getPML4FreePage_one_ok (hk : Ok k) (h : RefillReady k block p) :
    ∃ page k', getPML4FreePage 1 k = .ok (page, k') ∧
      k'.linkedBlocks = k.nextFreePageTableEntriesBlock :: k.linkedBlocks ∧
      page ∈ blockPages k.nextFreePageTableEntriesBlock nextPagingBlockSize := by
  obtain ⟨k1, hlink, hpool, htree, hheap, hlinked⟩ : ∃ k1, linkReserve k = .ok k1 ∧
      k1.pagingFree = blockPages k.nextFreePageTableEntriesBlock nextPagingBlockSize ∧
      (k1.physicalMemoryState = k.physicalMemoryState ∧
        k1.virtualMemoryState = k.virtualMemoryState) ∧ k1.heapRequests = [] ∧
      k1.linkedBlocks = k.nextFreePageTableEntriesBlock :: k.linkedBlocks := by
    exact ⟨_, bind_eq_ok.mpr ⟨(), require_true h.reserve, bind_eq_ok.mpr ⟨(),
      require_true h.unlinked, bind_eq_ok.mpr ⟨(), require_true h.mapped, rfl⟩⟩⟩, rfl, ⟨rfl, rfl⟩,
      h.heap, rfl⟩
  have hk1 := ((linkReserve_meets hk).of_eq_ok hlink).1
  have hlength : k1.pagingFree.length = 4096 := by
    rw [hpool]
    unfold blockPages
    rw [List.length_map, List.length_range]
    rfl
  obtain ⟨physical, virt, htrees⟩ := h.trees
  rw [← htree.1, ← htree.2] at htrees
  -- 16 MiB need at most 30 tables
  have hmissing : missingTables k1 block pagingBlockBytes ≤ 30 := by
    refine (missing_le_card _ _).trans ((card_callPrefixes_le _ _).trans ?_)
    have : callTurns block pagingBlockBytes ≤ 4096 := by
      unfold callTurns loopTurns add64 pagingBlockBytes pageSize
      omega
    omega
  obtain ⟨k2, -, -, hcount, hleft, hc, hnext⟩ := allocateNext_zero_ok hk1 htrees h.block_ne
    h.frame_ne hheap (by omega)
  obtain ⟨-, -, -, hlinked2, -, -⟩ := hc.mapped.env.steady id
  obtain ⟨page, rest, hfree⟩ : ∃ page rest, k2.pagingFree = page :: rest := by
    cases hp : k2.pagingFree with
    | nil =>
      rw [hp, List.length_nil] at hleft
      omega
    | cons page rest => exact ⟨page, rest, rfl⟩
  have hmem : page ∈ k1.pagingFree := hcount.suffix.subset (by rw [hfree]; exact List.mem_cons_self)
  have htake : ((setReserve k2 block).clearPages (inBlock block)).pagingFree = page :: rest := hfree
  unfold getPML4FreePage
  rw [if_pos h.empty, hlink, ok_bind, hnext, ok_bind]
  unfold KernelMemory.takePage
  rw [htake]
  exact ⟨_, _, rfl, hlinked2.trans hlinked, by rwa [hpool] at hmem⟩

/-- A refill step returns when no linked page lies below the entry it fills. -/
theorem nextTable_refill_ok (hk : Ok k) (h : RefillReady k block p) {q : List ℕ} {t i mask : ℕ}
    (hq : q.length ≤ 2) (ht : tableAt k q = some t) (habsent : k.entries t i &&& present = 0)
    (hmask : mask = pmReservedMask ∨ mask = pml4ReservedMask)
    (hclear : ∀ b ∈ k.nextFreePageTableEntriesBlock :: k.linkedBlocks,
      ∀ j < nextPagingBlockSize, ¬ q ++ [i] <+: path (b + pageSize * j)) :
    ∃ page k', nextTable (getPML4FreePage 1) t i mask k = .ok (page, k') ∧
      k'.linkedBlocks = k.nextFreePageTableEntriesBlock :: k.linkedBlocks ∧
      page ∈ blockPages k.nextFreePageTableEntriesBlock nextPagingBlockSize := by
  obtain ⟨page, k1, hpage, hlinked, hmem⟩ := getPML4FreePage_one_ok hk h
  obtain ⟨hk1, henv, hfresh⟩ := (getPML4FreePage_spec 1 k hk).of_eq_ok hpage
  have ht1 := henv.walk q t (by omega) ht
  have hspare := hfresh.spare
  have htables := tables_link (i := i) hk1.tables hq ht1 hspare.pageAddress hspare.unlinked
    hfresh.cleared
  have hmapped : (k1.setEntry t i (tableEntry page)).linkedMapped := by
    intro b hb f hf
    have hb1 : b ∈ k1.linkedBlocks := hb
    obtain ⟨P, hP⟩ := hk1.linked_block b hb1
    obtain ⟨j, hj, rfl⟩ := mem_blockPages.mp hf
    have hword := word_link (i := i) hk1.tables hq ht1 hspare.pageAddress hspare.unlinked
      hfresh.cleared (b + pageSize * j)
    rw [if_neg (hclear b (by rwa [hlinked] at hb1) j hj)] at hword
    rw [getPhysicalAddress_ne_invalid htables, frame_congr hword, hk1.linked_frame _ hP hb1 j hj]
    simp
  have hreserved : (k1.setEntry t i (tableEntry page)).entries t i &&& mask = 0 := by
    rw [setEntry_entries, if_pos ⟨rfl, rfl⟩]
    exact tableEntry_reserved hspare.pageAddress hmask
  refine ⟨page, k1.setEntry t i (tableEntry page), ?_, hlinked, hmem⟩
  unfold nextTable
  rw [if_neg (not_not.mpr habsent), hpage, ok_bind]
  exact bind_eq_ok.mpr ⟨(), require_true hreserved, bind_eq_ok.mpr ⟨(), require_true hmapped, rfl⟩⟩

/-- An allocation of one page returns when the page table is missing, the list
is empty and a refill is ready. The page table lies in the block just linked. -/
theorem virtualAlloc_refill_ok (hk : Ok k) (hset : k.pml4Set = true) {v f : ℕ}
    {physical virt : MemoryState}
    (htrees : allocTrees 0x1000 (k.physicalMemoryState, k.virtualMemoryState) =
      .ok (v, f, physical, virt)) (hv : v ≠ 0) (hf : f ≠ 0)
    (h : RefillReady (withTrees k physical virt) block p) {pdpt pd : ℕ}
    (h1 : tableAt k [pml4Index v] = some pdpt)
    (h2 : tableAt k [pml4Index v, pdptIndex v] = some pd) (h3 : tableAt k (path v) = none)
    (hclear : ∀ b ∈ k.nextFreePageTableEntriesBlock :: k.linkedBlocks,
      ∀ j < nextPagingBlockSize, ¬ path v <+: path (b + pageSize * j))
    (privilegeLevel : PrivilegeLevel) (pageFlags : PageFlags) :
    ∃ page k', k.virtualAlloc 1 0x1000 privilegeLevel pageFlags = .ok (v, k') ∧
      k.mapPages 1 v f 0x1000 (allocMapping privilegeLevel pageFlags) = .ok k' ∧
      k.nextFreePageTableEntriesBlock ∈ k'.linkedBlocks ∧ tableAt k' (path v) = some page ∧
      page ∈ blockPages k.nextFreePageTableEntriesBlock nextPagingBlockSize := by
  obtain ⟨hfitp, hfitv, hphysical, hvirt⟩ := allocTrees_eq_ok hk htrees
  have hfound : Found k v f 0x1000 := ⟨hfitv, hfitp, hv, hf⟩
  obtain ⟨hva, hfa⟩ := hfound.pageAddress hk
  have hvle := hfound.virt_le hk
  have hfle := hfound.phys_le hk
  have hH := hk.physical.lt
  unfold pageMask at hvle
  have hadd : add64 v 0x1000 = v + 0x1000 := add64_of_lt (by omega)
  have hend : physicalEnd f 0x1000 = f + 0x1000 := physicalEnd_of_lt hfa (by decide) (by omega)
  have hkeeps : ∀ i < callTurns v 0x1000,
      k.keepsPagingPage (allocMapping privilegeLevel pageFlags) (v + 4096 * i) (f + 4096 * i) :=
    fun i hi => hfound.keepsPagingPage hk (by decide) hi _
  rw [← hadd] at hvirt
  rw [← hend] at hphysical
  have hkt : Ok (withTrees k physical virt) :=
    ok_withTrees hk hva (by decide) (by decide) hphysical hvirt hkeeps
  obtain ⟨page, k1, hnext, hlinked, hmem⟩ := nextTable_refill_ok (q := [pml4Index v, pdptIndex v])
    hkt h (by simp) h2 (entry_absent (k := withTrees k physical virt) h2 h3) (Or.inl rfl) hclear
  obtain ⟨hk1, henv, hpt⟩ := (nextTable_meets (getPML4FreePage_spec 1) hkt (by simp) h2
    (Or.inl rfl)).of_eq_ok hnext
  change tableAt k1 (path v) = some page at hpt
  -- the page is Used when the refill starts, so no block takes it
  have hused : virtState (withTrees k physical virt) v = .used := by
    have htag := (tagRange_eq_ok hk.virt hvirt).2.2.2 v
      (by rw [hk.virt_highest]; unfold pageMask; omega)
    have hfree : k.virtualMemoryState.getPageState v = .free :=
      hfound.virt_free hk le_rfl (by omega)
    refine htag.trans ?_
    unfold tagged
    rw [if_pos ⟨le_rfl, by omega, by rw [hfree]; decide⟩]
  have hkeep : k1.keepsPagingPage (allocMapping privilegeLevel pageFlags) v f := by
    intro hset1 hpaging
    rcases henv.paging_new v hpaging with hold | ⟨-, -, hfree⟩
    · exact absurd (hfound.virt_free hk le_rfl (by omega))
        (hk.live hset v (by unfold pageMask; omega) hold)
    · rw [hused] at hfree
      cases hfree
  have hleaf := writeLeaf_eq hk1 hpt hva hfa hkeep (m := allocMapping privilegeLevel pageFlags)
    fun _ => ⟨rfl, rfl⟩
  have hpage : mapPage (getPML4FreePage 1) (allocMapping privilegeLevel pageFlags) v f v f
      (withTrees k physical virt) =
      .ok (setLeaf k1 (allocMapping privilegeLevel pageFlags) v f page) :=
    bind_eq_ok.mpr ⟨(pdpt, withTrees k physical virt),
      nextTable_present (k := withTrees k physical virt) (q := []) rfl h1 _ _,
      bind_eq_ok.mpr ⟨(pd, withTrees k physical virt),
        nextTable_present (k := withTrees k physical virt) (q := [pml4Index v]) h1 h2 _ _,
        bind_eq_ok.mpr ⟨(page, k1), hnext, hleaf⟩⟩⟩
  have hturns : callTurns v 0x1000 = 1 := callTurns_of_lt hva (by decide) (by omega)
  have hmap : k.mapPages 1 v f 0x1000 (allocMapping privilegeLevel pageFlags) =
      .ok (setLeaf k1 (allocMapping privilegeLevel pageFlags) v f page) := by
    refine mapPages_of_loop hva hfa (by decide) hkeeps hphysical hvirt ?_
    rw [hturns]
    exact bind_eq_ok.mpr ⟨_, hpage, rfl⟩
  refine ⟨page, _, ?_, hmap, ?_, ?_, hmem⟩
  · unfold KernelMemory.virtualAlloc virtualAllocWith
    rw [findMinimumSizeFreeBlock_eq hk.physical, ok_bind, if_neg (by rw [hfitp]; exact hf),
      findMinimumSizeFreeBlock_eq hk.virt, ok_bind, hfitp, hfitv]
    unfold KernelMemory.mapPages at hmap
    rw [hmap]
    rfl
  · change _ ∈ k1.linkedBlocks
    rw [hlinked]
    exact List.mem_cons_self
  · rw [tableAt_leaf hk1 hpt (path_length v).le, hpt]

end Returns

/-- The example machine with its first reserve block. -/
structure MachineReserve (pages : ℕ) (hpages : pages ≤ 0x1000000) (block p n : ℕ)
    (trees : MemoryState × MemoryState) (k : KernelMemory) : Prop where
  run : AllocatorRun k
  counted : Counted (callPrefixes 0 (512 * n)) (machineStart pages hpages) k
  trees_eq : (k.physicalMemoryState, k.virtualMemoryState) = trees
  reserve : k.nextFreePageTableEntriesBlock = block
  linked : k.linkedBlocks = []
  blocks : k.blocks = [(block, p)]
  heap : k.heapRequests = []
  mapped : ∀ i < nextPagingBlockSize, frame k (block + pageSize * i) = some (p + pageSize * i)
  identity : ∀ x < 0x40000000, tableAt k (path x) ≠ none

/-- The first call of AllocateNextFreePageTableEntries on the example machine. -/
theorem exists_machineReserve {pages : ℕ} {hpages : pages ≤ 0x1000000} {k : KernelMemory}
    (hm : MachineRunning pages hpages k) {block p n : ℕ} {physical virt : MemoryState}
    (htrees : allocTrees pagingBlockBytes (k.physicalMemoryState, k.virtualMemoryState) =
      .ok (block, p, physical, virt)) (hblock : block ≠ 0) (hp : p ≠ 0) (hn : 512 ≤ n)
    (hend : block + pagingBlockBytes ≤ 2 ^ 21 * n) :
    ∃ k', MachineReserve pages hpages block p n (physical, virt) k' := by
  have hrun := hm.reachable.running
  have hk := hrun.ok
  obtain ⟨hreserve, hlinked, hblocks, hheap⟩ := hm.fresh
  have hpool : missingTables k block pagingBlockBytes ≤ k.pagingFree.length := by
    have hlength := hm.counted.length
    have hstart : missing (machineStart pages hpages) (callPrefixes 0 262144) ≤ 514 :=
      (missing_le_card _ _).trans (card_callPrefixes_low (n := 512) (by decide) (by decide)).le
    have hmissing : missingTables k block pagingBlockBytes ≤ 3 * (4096 / 512 + 2) := by
      refine (missing_le_card _ _).trans ((card_callPrefixes_le _ _).trans ?_)
      have : callTurns block pagingBlockBytes ≤ 4096 := by
        unfold callTurns loopTurns add64 pagingBlockBytes pageSize
        omega
      omega
    rw [pool_machineStart] at hlength
    omega
  obtain ⟨k1, hk1, hf, hcount, -, hc, hnext⟩ :=
    allocateNext_zero_ok hk htrees hblock hp hheap hpool
  have hvirt := hc.virtual_page.mod
  obtain ⟨hphys1, hvirt1, -, hlinked1, hblocks1, hheap1⟩ := hc.mapped.env.steady id
  have hclear := newBlock_no_table hk hf hc rfl hk1 hrun.pml4Set
  have hsame : SameTables k1 ((setReserve k1 block).clearPages (inBlock block)) :=
    (show SameTables k1 (setReserve k1 block) from sameTables_of_eq rfl rfl).trans
      (sameTables_clearPages hclear)
  have hlength := length_of_mem_callPrefixes 0 (512 * n)
  have hturns : callTurns block pagingBlockBytes = 4096 := by
    rw [callTurns_of_lt hc.virtual_page hc.size_mod]
    · unfold pagingBlockBytes
      rfl
    · have := hf.virt_le hk
      unfold pageMask at this
      omega
  refine ⟨_,
    { run := .allocateNext (k := k) ?_ hnext
      counted := ?_
      trees_eq := Prod.ext hphys1 hvirt1
      reserve := rfl
      linked := hlinked1.trans hlinked
      blocks := ?_
      heap := hheap1.trans hheap
      mapped := fun i hi => ?_
      identity := fun x hx => ?_ }⟩
  · obtain ⟨k0, hboot, hidentity, rfl⟩ := hm.loaded
    exact .load hboot hidentity
  · refine Counted.trans (hm.counted.mono (callPrefixes_subset le_rfl rfl (by omega)) hlength)
      ((hcount.mono (callPrefixes_subset (Nat.zero_le _) (by omega) ?_) hlength).congr rfl
        (fun q hq => hsame.tableAt hq) hlength)
    rw [hturns]
    unfold pagingBlockBytes at hend
    omega
  · refine (setReserve_blocks hk hf hc rfl hk1).trans ?_
    rw [hblocks1]
    exact congrArg _ hblocks
  · rw [hsame.frame]
    exact hc.frame_found hk hf rfl
      (by unfold nextPagingBlockSize at hi; unfold pagingBlockBytes; omega)
  · rw [hsame.tableAt (path_length x).le]
    exact hc.mapped.env.table (path_length x).le (tableAt_of_frame (k := k) (hm.frame_ne_none hx))

/-- The number of pages of a machine with 64 GiB above the gap. -/
def largePages : ℕ := 0xFBFE00

/-- The page states of that machine along a run: the first block of pages for
paging structures, an allocation up to 0xFF600000, one of a page, and a block
again. The addresses found are listed. -/
def fillTrees : Except Fault (List ℕ) := do
  let trees ← machineTrees largePages
  let (v1, p1, trees) ← allocTrees pagingBlockBytes trees
  let (v2, p2, trees) ← allocTrees 0xBE600000 trees
  let (v3, p3, trees) ← allocTrees 0x1000 trees
  let (v4, p4, _) ← allocTrees pagingBlockBytes trees
  return [v1, p1, v2, p2, v3, p3, v4, p4]

/-- The machine once the static pages are used up. -/
structure MachineFull (k : KernelMemory) : Prop where
  run : AllocatorRun k
  empty : k.pagingFree = []
  reserve : k.nextFreePageTableEntriesBlock = 0x40000000
  linked : k.linkedBlocks = []
  blocks : k.blocks = [(0x40000000, 0x40200000)]
  heap : k.heapRequests = []
  mapped : ∀ i < nextPagingBlockSize, frame k (0x40000000 + pageSize * i) =
    some (0x40200000 + pageSize * i)
  trees : ∃ physical virt,
    allocTrees 0x1000 (k.physicalMemoryState, k.virtualMemoryState) =
      .ok (0xFF600000, 0xFF800000, physical, virt) ∧
    ∃ rest, allocTrees pagingBlockBytes (physical, virt) = .ok (0xFF601000, 0xFF801000, rest)
  tables : tableAt k [0] ≠ none ∧ tableAt k [0, 3] ≠ none ∧ tableAt k [0, 3, 507] = none

theorem exists_machineFull : ∃ k, MachineFull k := by
  have htrees : fillTrees = .ok [0x40000000, 0x40200000, 0x41000000, 0x41200000, 0xFF600000,
      0xFF800000, 0xFF601000, 0xFF801000] := by decide +kernel
  unfold fillTrees at htrees
  obtain ⟨k0, hm, htrees⟩ := exists_machineRunning_of_bind largePages (by decide) htrees
  obtain ⟨⟨v1, p1, physical1, virt1⟩, h1, htrees⟩ := bind_eq_ok.mp htrees
  obtain ⟨⟨v2, p2, physical2, virt2⟩, h2, htrees⟩ := bind_eq_ok.mp htrees
  obtain ⟨⟨v3, p3, physical3, virt3⟩, h3, htrees⟩ := bind_eq_ok.mp htrees
  obtain ⟨⟨v4, p4, physical4, virt4⟩, h4, htrees⟩ := bind_eq_ok.mp htrees
  cases htrees
  obtain ⟨k1, hr⟩ := exists_machineReserve (n := 2043) hm h1 (by decide) (by decide) (by decide)
    (by decide)
  have hcard : (callPrefixes 0 (512 * 2043)).card = 2048 :=
    card_callPrefixes_low (by decide) (by decide)
  have hstart : missing (machineStart largePages (by decide)) (callPrefixes 0 (512 * 2043)) =
    2048 := by
    rw [missing_machineStart, hcard]
  have hrun1 := hr.run.reachable.running
  have hk1 := hrun1.ok
  have hsub : callPrefixes 0x41000000 (callTurns 0x41000000 0xBE600000) ⊆
      callPrefixes 0 (512 * 2043) :=
    callPrefixes_subset (by decide) (by decide) (by decide)
  have hlength := hr.counted.length
  rw [pool_machineStart, hstart] at hlength
  rw [← hr.trees_eq] at h2
  obtain ⟨k2, halloc, hk2, hf, hcount, -, hc⟩ := virtualAlloc_enough_ok 0 hk1 (by decide)
    h2 (by decide) (by decide) (by
      have := missing_mono k1 hsub
      unfold missingTables
      omega) .kernel pageFlagsNone
  obtain ⟨hphys, hvirt, hnext, hlinked, hblocks, hheap⟩ := hc.mapped.env.steady id
  have hall : ∀ i < 512 * 2043, tableAt k2 (path (0 + 4096 * i)) ≠ none := by
    intro i hi
    by_cases hlow : 4096 * i < 0x40000000
    · exact hc.mapped.env.table (path_length _).le (hr.identity _ (by omega))
    · by_cases hmid : 4096 * i < 0x41000000
      · refine hc.mapped.env.table (path_length _).le (tableAt_of_frame (k := k1) ?_)
        have hframe := hr.mapped ((4096 * i - 0x40000000) / 4096)
          (by unfold nextPagingBlockSize; omega)
        unfold pageSize at hframe
        rw [show 0 + 4096 * i = 0x40000000 + 4096 * ((4096 * i - 0x40000000) / 4096) by omega,
          hframe]
        simp
      · refine tableAt_of_frame (k := k2) ?_
        have hframe := hc.frame_found hk1 hf rfl (i := (4096 * i - 0x41000000) / 4096) (by omega)
        rw [show 0 + 4096 * i = 0x41000000 + 4096 * ((4096 * i - 0x41000000) / 4096) by omega,
          hframe]
        simp
  have hlast := hcount.mono hsub (length_of_mem_callPrefixes 0 (512 * 2043))
  have hempty : k2.pagingFree = [] := by
    have h := (hr.counted.trans hlast).length
    rw [pool_machineStart, hstart, missing_callPrefixes_eq_zero hall] at h
    exact List.length_eq_zero_iff.mp (by omega)
  have hpath : path 0xFF600000 = [0, 3, 507] := by decide
  have hupper := fun q => table_of_mem_pagePrefixes (q := q) (hall 0xC0000 (by decide))
  refine ⟨k2,
    { run := .virtualAlloc hr.run (by decide) halloc
      empty := hempty
      reserve := hnext.trans hr.reserve
      linked := hlinked.trans hr.linked
      blocks := hblocks.trans hr.blocks
      heap := hheap.trans hr.heap
      mapped := fun i hi => ?_
      trees := ⟨physical3, virt3, ?_, (physical4, virt4), h4⟩
      tables := ⟨hupper [0] (by decide), hupper [0, 3] (by decide), ?_⟩ }⟩
  · have hpaging : (withTrees k1 physical2 virt2).isPagingPage (0x40000000 + pageSize * i) = true :=
      isPagingPage_iff.mpr (Or.inr (Or.inr ⟨(0x40000000, 0x40200000),
        by change _ ∈ k1.blocks; rw [hr.blocks]; exact List.mem_cons_self, inBlock_page hi⟩))
    rw [hc.mapped.env.paging_frame hrun1.pml4Set _ hpaging]
    exact hr.mapped i hi
  · rw [hphys, hvirt]
    exact h3
  · rw [← hpath, (hr.counted.trans hlast).outside _ (path_length _).le
      (path_not_mem_low (by decide) (by decide))]
    exact tableAt_machineStart (by decide)

/-- The next allocation of a page refills. -/
theorem MachineFull.alloc {k : KernelMemory} (h : MachineFull k) :
    ∃ physical virt page k',
      allocTrees 0x1000 (k.physicalMemoryState, k.virtualMemoryState) =
        .ok (0xFF600000, 0xFF800000, physical, virt) ∧
      RefillReady (withTrees k physical virt) 0xFF601000 0xFF801000 ∧
      k.virtualAlloc 1 0x1000 .kernel pageFlagsNone = .ok (0xFF600000, k') ∧
      k.mapPages 1 0xFF600000 0xFF800000 0x1000 (allocMapping .kernel pageFlagsNone) = .ok k' ∧
      0x40000000 ∈ k'.linkedBlocks ∧ tableAt k' (path 0xFF600000) = some page ∧
      page ∈ blockPages 0x40000000 nextPagingBlockSize := by
  obtain ⟨physical, virt, htrees, ⟨physical', virt'⟩, hblock⟩ := h.trees
  have hrun := h.run.reachable.running
  obtain ⟨pdpt, h1⟩ := Option.ne_none_iff_exists'.mp h.tables.1
  obtain ⟨pd, h2⟩ := Option.ne_none_iff_exists'.mp h.tables.2.1
  have hready : RefillReady (withTrees k physical virt) 0xFF601000 0xFF801000 :=
    { empty := h.empty
      reserve := by
        change k.nextFreePageTableEntriesBlock ≠ 0
        rw [h.reserve]
        decide
      unlinked := by
        change _ ∉ k.linkedBlocks
        rw [h.linked]
        exact List.not_mem_nil
      mapped := fun page hpage => by
        change page ∈ blockPages k.nextFreePageTableEntriesBlock nextPagingBlockSize at hpage
        rw [h.reserve] at hpage
        obtain ⟨i, hi, rfl⟩ := mem_blockPages.mp hpage
        change k.getPhysicalAddress _ false ≠ _
        rw [getPhysicalAddress_ne_invalid hrun.ok.tables, h.mapped i hi]
        simp
      trees := ⟨physical', virt', hblock⟩
      block_ne := by decide
      frame_ne := by decide
      heap := h.heap }
  have hclear : ∀ b ∈ k.nextFreePageTableEntriesBlock :: k.linkedBlocks,
      ∀ j < nextPagingBlockSize, ¬ path 0xFF600000 <+: path (b + pageSize * j) := by
    rw [h.reserve, h.linked]
    intro b hb j hj hpre
    have heq := hpre.eq_of_length rfl
    rw [List.mem_singleton.mp hb] at heq
    have hpd := congrArg (fun l => l.getD 1 0) heq
    unfold nextPagingBlockSize at hj
    simp only [path, List.getD_cons_succ, List.getD_cons_zero, pdptIndex_eq, pageSize] at hpd
    omega
  obtain ⟨page, k', halloc, hmap, hlinked, ht, hmem⟩ := virtualAlloc_refill_ok hrun.ok hrun.pml4Set
    htrees (by decide) (by decide) hready h1 h2 h.tables.2.2 hclear .kernel pageFlagsNone
  rw [h.reserve] at hlinked hmem
  exact ⟨physical, virt, page, k', htrees, hready, halloc, hmap, hlinked, ht, hmem⟩

end Enkel.Paging
