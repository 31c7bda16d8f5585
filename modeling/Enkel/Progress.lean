import Mathlib.Algebra.Order.BigOperators.Group.Finset
import Enkel.Reachable

/-!
When MapPages returns. It returns without a refill when the list is as long as
the number of missing tables, which is zero when all tables exist. An upper
bound on that number follows from the 2 MiB regions that a range meets.
-/
namespace Enkel.Paging

open Outcome MemoryState KernelMemory

section Present
variable {k : KernelMemory} {v size : ℕ}

/-- All tables on the way to the pages of a call exist. -/
def TablesPresent (k : KernelMemory) (v size : ℕ) : Prop :=
  ∀ i < callTurns v size, tableAt k (path (v + 4096 * i)) ≠ none

/-- A call whose tables exist takes no page from the list. -/
theorem TablesPresent.enough (h : TablesPresent k v size) :
    missingTables k v size ≤ k.pagingFree.length := by
  unfold missingTables
  rw [missing_callPrefixes_eq_zero h]
  exact Nat.zero_le _

/-- The tables of mapped pages exist. -/
theorem tableAt_of_frame {x : ℕ} (h : frame k x ≠ none) : tableAt k (path x) ≠ none :=
  fun hnone => h (frame_of_word_eq_zero (word_of_tableAt_none hnone))

end Present

section Returns
variable {refill : Prop} {E : Fault → Prop} {k : KernelMemory} {m : Mapping} {v p size : ℕ}
  {physical virt : MemoryState}

/-- With page-aligned arguments and tags that return, only the page source can fail. -/
theorem CallFault.of_tags {e : Fault} (he : CallFault refill E m k v p size e)
    (hv : PageAddress v) (hp : PageAddress p) (hsize : size % 4096 = 0)
    (hkeep : ∀ i < callTurns v size, k.keepsPagingPage m (v + 4096 * i) (p + 4096 * i))
    (hphysical : k.physicalMemoryState.tagRange p (physicalEnd p size) m.newState = .ok physical)
    (hvirt : k.virtualMemoryState.tagRange v (add64 v size) m.newState = .ok virt) :
    MapFault refill E e := by
  have htags : ¬ TagsFail m k v p size e := by
    rintro (hfail | hfail)
    · rw [hphysical] at hfail
      cases hfail
    · rw [hvirt] at hfail
      cases hfail
  rcases he with he | ⟨hfail, -⟩ | ⟨⟨i, hi, hnot⟩, -⟩ | ⟨hargs, -⟩ | ⟨hfail, -⟩
  · exact he
  · exact absurd hfail htags
  · exact absurd (hkeep i hi) hnot
  · exact absurd ⟨hv, hp, hsize⟩ hargs
  · exact absurd hfail htags

theorem Called.tagged_eq {kt k' : KernelMemory} (hc : Called refill m v p size k kt k')
    (hphysical : k.physicalMemoryState.tagRange p (physicalEnd p size) m.newState = .ok physical)
    (hvirt : k.virtualMemoryState.tagRange v (add64 v size) m.newState = .ok virt) :
    kt = withTrees k physical virt := by
  obtain ⟨physical', virt', hkt, h1, h2⟩ := hc.tags
  rw [hphysical] at h1
  rw [hvirt] at h2
  cases h1
  cases h2
  exact hkt

/-- A call returns when its tags do and the list holds a page for every missing table. -/
theorem mapPages_enough_ok (depth : ℕ) (hk : Ok k) (hv : PageAddress v) (hp : PageAddress p)
    (hsize : size % 4096 = 0) (hlt : size < 2 ^ 64)
    (hkeep : ∀ i < callTurns v size, k.keepsPagingPage m (v + 4096 * i) (p + 4096 * i))
    (hphysical : k.physicalMemoryState.tagRange p (physicalEnd p size) m.newState = .ok physical)
    (hvirt : k.virtualMemoryState.tagRange v (add64 v size) m.newState = .ok virt)
    (hpool : missingTables k v size ≤ k.pagingFree.length) :
    ∃ k', k.mapPages depth v p size m = .ok k' ∧ Ok k' ∧
      Counted (callPrefixes v (callTurns v size)) k k' ∧
      k'.pagingFree.length + missingTables k v size = k.pagingFree.length ∧
      Called False m v p size k (withTrees k physical virt) k' := by
  rcases (mapPages_enough_meets depth hk (m := m) (p := p) hlt hpool).ok_or_error with
    ⟨k', h, hk', hlength, hcount, kt, hc⟩ | ⟨e, -, he⟩
  · rw [hc.tagged_eq hphysical hvirt] at hc
    exact ⟨k', h, hk', hcount, hlength, hc⟩
  · rcases he.of_tags hv hp hsize hkeep hphysical hvirt with hfalse | ⟨hfalse, -⟩
    · exact hfalse.elim
    · exact hfalse.elim

/-- What VirtualAlloc does to the trees: both searches, and both tags. -/
def allocTrees (size : ℕ) (trees : MemoryState × MemoryState) :
    Except Fault (ℕ × ℕ × MemoryState × MemoryState) := do
  let physicalAddress ← trees.1.findMinimumSizeFreeBlock size
  let virtualAddress ← trees.2.findMinimumSizeFreeBlock size
  let physical ← trees.1.tagRange physicalAddress (physicalAddress + size) .used
  let virt ← trees.2.tagRange virtualAddress (virtualAddress + size) .used
  return (virtualAddress, physicalAddress, physical, virt)

theorem allocTrees_eq_ok (hk : Ok k)
    (h : allocTrees size (k.physicalMemoryState, k.virtualMemoryState) =
      .ok (v, p, physical, virt)) :
    firstFit k.physicalMemoryState.leaves size = p ∧ firstFit k.virtualMemoryState.leaves size = v ∧
      k.physicalMemoryState.tagRange p (p + size) .used = .ok physical ∧
      k.virtualMemoryState.tagRange v (v + size) .used = .ok virt := by
  unfold allocTrees at h
  rw [findMinimumSizeFreeBlock_eq hk.physical, ok_bind, findMinimumSizeFreeBlock_eq hk.virt,
    ok_bind] at h
  obtain ⟨physical', hphysical, h⟩ := bind_eq_ok.mp h
  obtain ⟨virt', hvirt, h⟩ := bind_eq_ok.mp h
  cases h
  exact ⟨rfl, rfl, hphysical, hvirt⟩

/-- VirtualAlloc returns what the searches find when the list holds a page for
every missing table. -/
theorem virtualAlloc_enough_ok (depth : ℕ) (hk : Ok k) (hmod : size % 4096 = 0)
    (htrees : allocTrees size (k.physicalMemoryState, k.virtualMemoryState) =
      .ok (v, p, physical, virt)) (hv : v ≠ 0) (hp : p ≠ 0)
    (hpool : missingTables k v size ≤ k.pagingFree.length) (privilegeLevel : PrivilegeLevel)
    (pageFlags : PageFlags) :
    ∃ k', k.virtualAlloc depth size privilegeLevel pageFlags = .ok (v, k') ∧ Ok k' ∧
      Found k v p size ∧ Counted (callPrefixes v (callTurns v size)) k k' ∧
      k'.pagingFree.length + missingTables k v size = k.pagingFree.length ∧
      Called False (allocMapping privilegeLevel pageFlags) v p size k
        (withTrees k physical virt) k' := by
  obtain ⟨hfitp, hfitv, hphysical, hvirt⟩ := allocTrees_eq_ok hk htrees
  have hf : Found k v p size := ⟨hfitv, hfitp, hv, hp⟩
  obtain ⟨hva, hpa⟩ := hf.pageAddress hk
  have hvle := hf.virt_le hk
  have hple := hf.phys_le hk
  have hH := hk.physical.lt
  unfold pageMask at hvle
  obtain ⟨k', h, hk', hcount, hlength, hc⟩ :=
    mapPages_enough_ok depth (m := allocMapping privilegeLevel pageFlags) hk hva hpa hmod
      (by omega) (fun i hi => hf.keepsPagingPage hk hmod hi _)
      (by rw [physicalEnd_of_lt hpa hmod (by omega)]; exact hphysical)
      (by rw [add64_of_lt (by omega)]; exact hvirt) hpool
  refine ⟨k', ?_, hk', hf, hcount, hlength, hc⟩
  unfold KernelMemory.virtualAlloc virtualAllocWith
  rw [findMinimumSizeFreeBlock_eq hk.physical, ok_bind, if_neg (by rw [hfitp]; exact hp),
    findMinimumSizeFreeBlock_eq hk.virt, ok_bind, hfitp, hfitv]
  unfold KernelMemory.mapPages at h
  rw [h]
  rfl

end Returns

/-- Pages of one 2 MiB region need the same tables. -/
theorem pagePrefixes_congr {x y : ℕ} (h : x / 2 ^ 21 = y / 2 ^ 21) :
    pagePrefixes x = pagePrefixes y := by
  have h4 : pml4Index x = pml4Index y := by
    rw [pml4Index_eq, pml4Index_eq]
    omega
  have h3 : pdptIndex x = pdptIndex y := by
    rw [pdptIndex_eq, pdptIndex_eq]
    omega
  have h2 : pdIndex x = pdIndex y := by
    rw [pdIndex_eq, pdIndex_eq]
    omega
  unfold pagePrefixes path
  rw [h4, h3, h2]

/-- A range needs at most three tables for each 2 MiB region that it meets. -/
theorem card_callPrefixes_le (v turns : ℕ) : (callPrefixes v turns).card ≤ 3 * (turns / 512 + 2) := by
  have hsub : callPrefixes v turns ⊆ (Finset.range (turns / 512 + 2)).biUnion fun j =>
      pagePrefixes ((v / 2 ^ 21 + j) * 2 ^ 21) := by
    intro q hq
    obtain ⟨i, hi, hmem⟩ := Finset.mem_biUnion.mp hq
    rw [Finset.mem_range] at hi
    refine Finset.mem_biUnion.mpr ⟨(v + 4096 * i) / 2 ^ 21 - v / 2 ^ 21, ?_, ?_⟩
    · rw [Finset.mem_range]
      omega
    · rwa [pagePrefixes_congr (y := v + 4096 * i) (by omega)]
  refine (Finset.card_le_card hsub).trans
    ((Finset.card_biUnion_le_card_mul _ _ 3 fun j _ => Finset.card_le_three).trans ?_)
  rw [Finset.card_range, Nat.mul_comm]

theorem missing_le_card (k : KernelMemory) (S : Finset (List ℕ)) : missing k S ≤ S.card :=
  Finset.card_filter_le S _

theorem callPrefixes_subset {v v' turns turns' : ℕ} (hle : v' ≤ v) (hmod : (v - v') % 4096 = 0)
    (hend : v + 4096 * turns ≤ v' + 4096 * turns') :
    callPrefixes v turns ⊆ callPrefixes v' turns' := by
  intro q hq
  obtain ⟨i, hi, hmem⟩ := Finset.mem_biUnion.mp hq
  rw [Finset.mem_range] at hi
  refine Finset.mem_biUnion.mpr ⟨(v - v') / 4096 + i, Finset.mem_range.mpr (by omega), ?_⟩
  rwa [show v' + 4096 * ((v - v') / 4096 + i) = v + 4096 * i by omega]

theorem pagePrefixes_low {x : ℕ} (hx : x < 2 ^ 39) :
    pagePrefixes x = {[0], [0, x / 2 ^ 30], [0, x / 2 ^ 30, x / 2 ^ 21 % 512]} := by
  have h4 : pml4Index x = 0 := by
    rw [pml4Index_eq]
    omega
  have h3 : pdptIndex x = x / 2 ^ 30 := by
    rw [pdptIndex_eq]
    omega
  unfold pagePrefixes path
  rw [h4, h3, pdIndex_eq]

/-- The tables for the first `n` regions of 2 MiB. -/
theorem card_callPrefixes_low {n : ℕ} (hpos : 0 < n) (hn : n ≤ 2 ^ 18) :
    (callPrefixes 0 (512 * n)).card = 1 + (n + 511) / 512 + n := by
  have hsplit : callPrefixes 0 (512 * n) =
      {[0]} ∪ (Finset.range ((n + 511) / 512)).image (fun j => [0, j]) ∪
        (Finset.range n).image fun i => [0, i / 512, i % 512] := by
    ext q
    simp only [callPrefixes, Finset.mem_biUnion, Finset.mem_range, Finset.mem_union,
      Finset.mem_singleton, Finset.mem_image]
    constructor
    · rintro ⟨i, hi, hq⟩
      rw [pagePrefixes_low (by omega)] at hq
      simp only [Finset.mem_insert, Finset.mem_singleton] at hq
      rcases hq with rfl | rfl | rfl
      · exact Or.inl (Or.inl rfl)
      · exact Or.inl (Or.inr ⟨_, by omega, rfl⟩)
      · refine Or.inr ⟨i / 512, by omega, ?_⟩
        rw [show i / 512 / 512 = (0 + 4096 * i) / 2 ^ 30 by omega,
          show i / 512 % 512 = (0 + 4096 * i) / 2 ^ 21 % 512 by omega]
    · rintro ((rfl | ⟨j, hj, rfl⟩) | ⟨i, hi, rfl⟩)
      · exact ⟨0, by omega, by rw [pagePrefixes_low (by omega)]; simp⟩
      · refine ⟨512 * (512 * j), by omega, ?_⟩
        rw [pagePrefixes_low (by omega), show (0 + 4096 * (512 * (512 * j))) / 2 ^ 30 = j by omega]
        simp
      · refine ⟨512 * i, by omega, ?_⟩
        rw [pagePrefixes_low (by omega), show (0 + 4096 * (512 * i)) / 2 ^ 30 = i / 512 by omega,
          show (0 + 4096 * (512 * i)) / 2 ^ 21 = i by omega]
        simp
  rw [hsplit, Finset.card_union_of_disjoint, Finset.card_union_of_disjoint, Finset.card_singleton,
    Finset.card_image_of_injective, Finset.card_image_of_injective, Finset.card_range,
    Finset.card_range]
  · intro a b hab
    simp only [List.cons.injEq, and_true, true_and] at hab
    omega
  · intro a b hab
    simpa using hab
  · simp
  · simp [Finset.disjoint_left]

theorem path_not_mem_low {n x : ℕ} (hx : x < 2 ^ 39) (hle : 2 ^ 21 * n ≤ x) :
    path x ∉ callPrefixes 0 (512 * n) := by
  intro h
  obtain ⟨i, hi, hmem⟩ := Finset.mem_biUnion.mp h
  rw [Finset.mem_range] at hi
  rw [pagePrefixes_low (by omega)] at hmem
  simp only [path, Finset.mem_insert, Finset.mem_singleton, List.cons.injEq, and_true, reduceCtorEq,
    and_false, false_or, pdptIndex_eq, pdIndex_eq] at hmem
  omega

section Translation
variable {refill : Prop} {k kt k' : KernelMemory} {m : Mapping} {v p size : ℕ}

theorem callTurns_pos_of_mem (hv : PageAddress v) (hsize : size % 4096 = 0)
    (hwrap : v + size < 2 ^ 64) {x : ℕ} (hlo : v ≤ x) (hhi : x < v + size) :
    (x - v) / 4096 < callTurns v size := by
  rw [callTurns_of_lt hv hsize hwrap]
  have := hv.mod
  omega

/-- A range that is not empty lies below the end of the virtual tree. -/
theorem Called.range_of_mem (hc : Called refill m v p size k kt k') (hlt : size < 2 ^ 64) {x : ℕ}
    (hlo : v ≤ x) (hhi : x < add64 v size) : add64 v size = v + size ∧ v + size ≤ pageMask := by
  rcases callTurns_spec hc.virtual_page hc.size_mod hlt with hzero | ⟨hadd, -⟩
  · unfold callTurns loopTurns pageSize at hzero
    omega
  · refine ⟨hadd, (hc.bounds ?_).2.1⟩
    unfold callTurns loopTurns pageSize
    omega

/-- A tagged page is not Free, unless it was tagged Free. -/
theorem Called.tagged_ne_free (hc : Called refill m v p size k kt k') (hk : Ok k)
    (hm : m.newState ≠ .free) {x : ℕ} (hx : x < pageMask) (hlo : v ≤ x)
    (hhi : x < add64 v size) : virtState kt x ≠ .free := by
  rw [hc.virt_tagged hk hx]
  unfold tagged
  split_ifs with hcond
  · exact hm
  · intro hfree
    exact hcond ⟨hlo, hhi, by rw [hfree]; decide⟩

/-- The pages of a call that maps have their frames and flags, whatever refills there were. -/
theorem Called.word_of_mem (hc : Called refill m v p size k kt k') (hk : Ok k)
    (hwrap : v + size < 2 ^ 64) (hm : m.newState ≠ .free) {x : ℕ} (hlo : v ≤ x)
    (hhi : x < v + size) :
    PageAddress (p + (x - v) / 4096 * 4096) ∧
      word k' x = p + (x - v) / 4096 * 4096 + m.flags (word k x) := by
  have hi := callTurns_pos_of_mem hc.virtual_page hc.size_mod hwrap hlo hhi
  have hvmod := hc.virtual_page.mod
  obtain ⟨-, hend, -⟩ := hc.bounds (by omega)
  have hne := hc.tagged_ne_free hk hm (x := v + 4096 * ((x - v) / 4096)) (by omega) (by omega)
    (by rw [add64_of_lt hwrap]; omega)
  have hpage : (v + 4096 * ((x - v) / 4096)) / 4096 = x / 4096 := by omega
  obtain ⟨hp, hword⟩ := hc.word_mapped hk hm hi hne
  rw [word_congr k' hpage, word_congr k hpage, Nat.mul_comm] at hword
  rw [Nat.mul_comm] at hp
  exact ⟨hp, hword⟩

theorem Called.translation_mapped (hc : Called refill m v p size k kt k') (hk : Ok k)
    (hk' : Ok k') (hwrap : v + size < 2 ^ 64) (hm : m.newState ≠ .free) {x : ℕ} (hlo : v ≤ x)
    (hhi : x < v + size) : k'.getPhysicalAddress x false = p + (x - v) := by
  obtain ⟨hp, hword⟩ := hc.word_of_mem hk hwrap hm hlo hhi
  have hvmod := hc.virtual_page.mod
  rw [getPhysicalAddress_eq_frame hk'.tables,
    frame_of_word_mapped hp (m.flags_lt _) (m.flags_odd _) hword]
  simp only [Option.elim_some]
  omega

/-- A page that was mapped before keeps its leaf word off the range of a call,
whatever refills there were. -/
theorem Called.word_of_not_mem (hc : Called True m v p size k kt k') (hk : Ok k)
    (hfree : FreeUnmapped k) {x : ℕ} (hx : x < 2 ^ 48) (hout : ¬ (v ≤ x ∧ x < add64 v size))
    (hmapped : frame k x ≠ none) : word k' x = word k x := by
  have hown : ¬ InPages v (callTurns v size) x := by
    rintro ⟨hlo, hhi⟩
    obtain ⟨hsize, hve, -⟩ := hc.bounds (by omega)
    rw [add64_of_lt (by unfold pageMask at hve; omega)] at hout
    omega
  obtain ⟨physical, virt, hkt, -⟩ := hc.tags
  have hsame : word kt x = word k x := by
    rw [hkt]
    rfl
  refine (hc.mapped.env.word_of_ne_free hx hown fun hlo => ?_).trans hsame
  rw [hc.virt_tagged hk hlo]
  unfold tagged
  rw [if_neg fun h => hout ⟨h.1, h.2.1⟩]
  exact hfree.ne_free_of_frame hk hlo hmapped

end Translation

theorem sixteen_pages : 16 ≤ 0x1000000 := by decide

section Machine
variable (pages : ℕ) (hpages : pages ≤ 0x1000000)

/-- A machine with `pages` pages of memory above 1 GiB and a gap of 2 MiB, its
kernel image at 2 MiB. -/
def machine : Layout :=
  { highestAddress := 0x40200000 + 4096 * pages
    pml4 := 0x200000
    initialPageTableEntries := 0x201000
    highest_pos := by omega
    highest_aligned := by
      unfold Aligned
      omega
    highest_le := by
      unfold pageMask
      omega
    pml4_aligned := by decide
    pml4_lt := by decide
    initial_aligned := by decide
    initial_le := by decide
    separate := by decide }

/-- The state in which that machine starts to map. -/
def machineStart : KernelMemory := preparePML4 (machine pages hpages) (fun _ _ => 0) 0 []

theorem boot_machineStart : Boot (machineStart pages hpages) :=
  .start (machine pages hpages) _ _ _ fun _ h => absurd h List.not_mem_nil

def readWriteMapping : Mapping := allocMapping .kernel pageFlagsNone

/-- The page states of that machine once it runs: the first GiB is mapped, and
the 2 MiB after it are a gap in the memory map. -/
def machineTrees : Except Fault (MemoryState × MemoryState) := do
  let physical ← (MemoryState.init (0x40200000 + 4096 * pages)).tagRange 0 0x40000000 .used
  let physical ← physical.tagRange 0x40000000 0x40200000 .reserved
  let virt ← (MemoryState.init pageMask).tagRange 0 0x40000000 .used
  return (physical, virt)

/-- What is used of the running example machine. -/
structure MachineRunning (k : KernelMemory) : Prop where
  loaded : ∃ k0, Boot k0 ∧ (∀ t, k0.isPagingPage t = true → k0.getPhysicalAddress t false = t) ∧
    k = loadPML4 k0
  trees : machineTrees pages = .ok (k.physicalMemoryState, k.virtualMemoryState)
  counted : Counted (callPrefixes 0 262144) (machineStart pages hpages) k
  fresh : k.nextFreePageTableEntriesBlock = 0 ∧ k.linkedBlocks = [] ∧ k.blocks = [] ∧
    k.heapRequests = []
  static : k.pml4 = 0x200000 ∧ k.initialPageTableEntries = 0x201000
  identity : ∀ x < 0x40000000, k.getPhysicalAddress x false = x
  kernel : ∀ x < 0x40000000, word k x &&& userCpl = 0

theorem pool_machineStart : (machineStart pages hpages).pagingFree.length = 2048 := by
  change (blockPages 0x201000 2048).length = 2048
  unfold blockPages
  rw [List.length_map, List.length_range]

theorem tableAt_machineStart {pages : ℕ} {hpages : pages ≤ 0x1000000} {q : List ℕ} (hq : q ≠ []) :
    tableAt (machineStart pages hpages) q = none := by
  cases h : tableAt (machineStart pages hpages) q with
  | none => rfl
  | some t => exact absurd (tableAt_preparePML4 _ _ _ _ h).1 hq

theorem missing_machineStart (pages : ℕ) (hpages : pages ≤ 0x1000000) (v turns : ℕ) :
    missing (machineStart pages hpages) (callPrefixes v turns) = (callPrefixes v turns).card :=
  missing_eq_card fun _ hq => tableAt_machineStart (ne_nil_of_mem_callPrefixes hq)

theorem exists_machineRunning (htrees : errorOf (machineTrees pages) = none) :
    ∃ k, MachineRunning pages hpages k := by
  obtain ⟨⟨physical, virt⟩, htrees⟩ := exists_ok_of_errorOf htrees
  have heq := htrees
  unfold machineTrees at heq
  obtain ⟨physical1, hp1, heq⟩ := bind_eq_ok.mp heq
  obtain ⟨physical2, hp2, heq⟩ := bind_eq_ok.mp heq
  obtain ⟨virt1, hv1, heq⟩ := bind_eq_ok.mp heq
  cases heq
  have hboot := boot_machineStart pages hpages
  obtain ⟨hk, hset, -⟩ := hboot.inv
  have hturns : callTurns 0 0x40000000 = 262144 := by decide
  obtain ⟨k1, hmap, hk1, hcount, -, hc⟩ := mapPages_enough_ok 0 (m := readWriteMapping) hk
    (v := 0) (p := 0) ⟨by decide, by decide⟩ ⟨by decide, by decide⟩
    (show 0x40000000 % 4096 = 0 by decide) (by decide) (fun i _ h => by cases h) hp1 hv1 (by
      refine (missing_le_card _ _).trans ((card_callPrefixes_le _ _).trans ?_)
      rw [pool_machineStart, hturns]
      decide)
  rw [hturns] at hcount
  have henv := hc.mapped.env
  obtain ⟨hphys, hvirt, hnext, hlinked, hblocks, hheap⟩ := henv.steady id
  have hboot1 := hboot.map (by decide) hmap
  have htag : k1.physicalMemoryState.tagRange 0x40000000 0x40200000 .reserved = .ok physical := by
    rw [hphys]
    exact hp2
  have hboot2 := hboot1.reserve htag
  have hidentity : ∀ x < 0x40000000, k1.getPhysicalAddress x false = x := by
    intro x hx
    have hwrap : 0 + 0x40000000 < 2 ^ 64 := by decide
    have hm : readWriteMapping.newState ≠ .free := by decide
    have h := hc.translation_mapped hk hk1 hwrap hm (Nat.zero_le x)
      (by rw [Nat.zero_add]; exact hx)
    rw [Nat.sub_zero, Nat.zero_add] at h
    exact h
  have hkernel : ∀ x < 0x40000000, word k1 x &&& userCpl = 0 := by
    intro x hx
    have hwrap : 0 + 0x40000000 < 2 ^ 64 := by decide
    have hm : readWriteMapping.newState ≠ .free := by decide
    obtain ⟨hpage, hword⟩ := hc.word_of_mem hk hwrap hm (Nat.zero_le x)
      (by rw [Nat.zero_add]; exact hx)
    rw [hword, flagged_userCpl hpage, Mapping.flags_userCpl, Mapping.userBit_kernel rfl]
  refine ⟨_,
    { loaded := ⟨_, hboot2, fun t ht => ?_, rfl⟩
      trees := htrees.trans ?_
      counted := hcount.congr rfl (fun _ _ => rfl) (length_of_mem_callPrefixes 0 262144)
      fresh := ⟨hnext, hlinked, hblocks, hheap⟩
      static := ⟨henv.pml4, henv.initial⟩
      identity := hidentity
      kernel := hkernel }⟩
  · have hlt : t < 0x40000000 := by
      rcases isPagingPage_iff.mp ht with h | ⟨-, h⟩ | ⟨b, hb, -⟩
      · have h1 : t = k1.pml4 := h
        rw [henv.pml4] at h1
        change t = 0x200000 at h1
        omega
      · have h1 : t < k1.initialPageTableEntries + pageSize * staticPageEntries := h
        rw [henv.initial] at h1
        change t < 0x201000 + 4096 * 2048 at h1
        omega
      · have h1 : b ∈ k1.blocks := hb
        rw [hblocks] at h1
        cases h1
    exact hidentity t hlt
  · change Except.ok (physical, virt) = .ok (physical, k1.virtualMemoryState)
    rw [hvirt]
    rfl

/-- The machine once it runs, from a computation that starts with its trees. -/
theorem exists_machineRunning_of_bind {β : Type} {f : MemoryState × MemoryState → Except Fault β}
    {r : β} (h : machineTrees pages >>= f = .ok r) :
    ∃ k, MachineRunning pages hpages k ∧
      f (k.physicalMemoryState, k.virtualMemoryState) = .ok r := by
  obtain ⟨trees, htrees, hf⟩ := bind_eq_ok.mp h
  obtain ⟨k, hm⟩ := exists_machineRunning pages hpages (by rw [htrees]; rfl)
  obtain rfl : trees = _ := Except.ok.inj (htrees.symm.trans hm.trees)
  exact ⟨k, hm, hf⟩

variable {pages hpages}

theorem MachineRunning.reachable {k : KernelMemory} (h : MachineRunning pages hpages k) :
    Reachable k := by
  obtain ⟨k0, hboot, hidentity, rfl⟩ := h.loaded
  exact Reachable.load hboot hidentity

/-- What is left of the static pages. -/
theorem MachineRunning.pool {k : KernelMemory} (h : MachineRunning pages hpages k) :
    1534 ≤ k.pagingFree.length := by
  have hlength := h.counted.length
  have hstart := missing_le_card (machineStart pages hpages) (callPrefixes 0 262144)
  have hcard : (callPrefixes 0 262144).card = 514 :=
    card_callPrefixes_low (n := 512) (by decide) (by decide)
  rw [pool_machineStart] at hlength
  omega

/-- The list of free pages is long enough for every short range. -/
theorem MachineRunning.missing_le {k : KernelMemory} (h : MachineRunning pages hpages k) {v size : ℕ}
    (hturns : 3 * (callTurns v size / 512 + 2) ≤ 1534) :
    missingTables k v size ≤ k.pagingFree.length := by
  have hneed : missingTables k v size ≤ 3 * (callTurns v size / 512 + 2) :=
    (missing_le_card _ _).trans (card_callPrefixes_le _ _)
  exact (hneed.trans hturns).trans h.pool

/-- The pages below the kernel image hold no paging structures. -/
theorem MachineRunning.not_paging {k : KernelMemory} (h : MachineRunning pages hpages k) {x : ℕ}
    (hx : x < 0x200000 ∨ 0xA01000 ≤ x) : k.isPagingPage x = false := by
  obtain ⟨hpml4, hinitial⟩ := h.static
  obtain ⟨-, -, hblocks, -⟩ := h.fresh
  rw [Bool.eq_false_iff]
  intro hpaging
  rcases isPagingPage_iff.mp hpaging with heq | ⟨hlo, hhi⟩ | ⟨b, hb, -⟩
  · rw [hpml4] at heq
    omega
  · rw [hinitial] at hlo hhi
    unfold pageSize staticPageEntries at hhi
    omega
  · rw [hblocks] at hb
    cases hb

theorem MachineRunning.frame_ne_none {k : KernelMemory} (h : MachineRunning pages hpages k) {x : ℕ}
    (hx : x < 0x40000000) : frame k x ≠ none := by
  intro hnone
  have hphys := h.identity x hx
  rw [getPhysicalAddress_eq_frame h.reachable.running.ok.tables, hnone] at hphys
  simp only [Option.elim_none, invalidAddress] at hphys
  omega

end Machine

end Enkel.Paging
