import Enkel.TableCount

/-!
The states that the kernel reaches. BuildPML4 starts with an empty PML4 and two
fresh trees, maps regions and reserves the gaps between them; loading the
tables needs the paging structures to be identity-mapped. From then on every
change goes through MapPages, or through the first call of
AllocateNextFreePageTableEntries.
-/
namespace Enkel.Paging

open Outcome MemoryState KernelMemory

/-- Where the kernel image holds its paging structures, and the end of memory. -/
structure Layout where
  highestAddress : ℕ
  pml4 : ℕ
  initialPageTableEntries : ℕ
  highest_pos : 0 < highestAddress
  highest_aligned : Aligned highestAddress
  highest_le : highestAddress ≤ pageMask
  pml4_aligned : Aligned pml4
  pml4_lt : pml4 < 2 ^ 48
  initial_aligned : Aligned initialPageTableEntries
  initial_le : initialPageTableEntries + pageSize * staticPageEntries ≤ 2 ^ 48
  separate : pml4 < initialPageTableEntries ∨
    initialPageTableEntries + pageSize * staticPageEntries ≤ pml4

/-- The start of BuildPML4, over any content of memory: both trees are
initialised, the PML4 is cleared and the static pages form the free list. -/
def preparePML4 (l : Layout) (memory : ℕ → ℕ → ℕ) (cr3 : ℕ) (heapRequests : List (List ℕ)) :
    KernelMemory :=
  { physicalMemoryState := MemoryState.init l.highestAddress
    virtualMemoryState := MemoryState.init pageMask
    entries := fun table index => if table = l.pml4 then 0 else memory table index
    pml4 := l.pml4
    initialPageTableEntries := l.initialPageTableEntries
    pagingFree := blockPages l.initialPageTableEntries staticPageEntries
    nextFreePageTableEntriesBlock := 0
    pml4Set := false
    cr3 := cr3
    linkedBlocks := []
    blocks := []
    heapRequests := heapRequests }

/-- The states of BuildPML4. -/
inductive Boot : KernelMemory → Prop
  | start (l : Layout) (memory : ℕ → ℕ → ℕ) (cr3 : ℕ) (heapRequests : List (List ℕ))
      (hheap : ∀ sizes ∈ heapRequests, ∀ size ∈ sizes, size < 2 ^ 64) :
      Boot (preparePML4 l memory cr3 heapRequests)
  | map {k k' : KernelMemory} {depth v p size : ℕ} {m : Mapping} (hk : Boot k)
      (hlt : size < 2 ^ 64) (h : k.mapPages depth v p size m = .ok k') : Boot k'
  | reserve {k : KernelMemory} {low high : ℕ} {physical : MemoryState} (hk : Boot k)
      (h : k.physicalMemoryState.tagRange low high .reserved = .ok physical) :
      Boot { k with physicalMemoryState := physical }

/-- LoadPageMapLevel4, and the flag that is set after it. -/
def loadPML4 (k : KernelMemory) : KernelMemory := { k with pml4Set := true, cr3 := k.pml4 }

/-- The states of the running kernel. -/
inductive Reachable : KernelMemory → Prop
  | load {k : KernelMemory} (hk : Boot k)
      (hidentity : ∀ t, k.isPagingPage t = true → k.getPhysicalAddress t false = t) :
      Reachable (loadPML4 k)
  | map {k k' : KernelMemory} {depth v p size : ℕ} {m : Mapping} (hk : Reachable k)
      (hlt : size < 2 ^ 64) (h : k.mapPages depth v p size m = .ok k') : Reachable k'
  | allocateNext {k k' : KernelMemory} {depth : ℕ} (hk : Reachable k)
      (h : allocateNextFreePageTableEntries (getPML4FreePage depth) k = .ok k') : Reachable k'

theorem mapPages_meets (depth : ℕ) {k : KernelMemory} (hk : Ok k) {v p size : ℕ} {m : Mapping}
    (hlt : size < 2 ^ 64) :
    Meets (fun _ => True) (fun k' => Ok k' ∧ ∃ kt, Called True m v p size k kt k')
      (k.mapPages depth v p size m) := by
  unfold KernelMemory.mapPages
  exact meets_mono (mapPagesWith_meets (getPML4FreePage_spec depth).tableSource
    (fun _ _ _ h => h) hk trivial hlt fun _ _ => ⟨trivial, trivial, trivial⟩)
    (fun _ _ => trivial) fun k' h => ⟨h.1, h.2.2⟩

theorem mapPages_eq_ok {depth : ℕ} {k k' : KernelMemory} (hk : Ok k) {v p size : ℕ} {m : Mapping}
    (hlt : size < 2 ^ 64) (h : k.mapPages depth v p size m = .ok k') :
    Ok k' ∧ ∃ kt, Called True m v p size k kt k' :=
  (mapPages_meets depth hk hlt).of_eq_ok h

section Prepare
variable (l : Layout) (memory : ℕ → ℕ → ℕ) (cr3 : ℕ) (heapRequests : List (List ℕ))

/-- Nothing is reached from an empty PML4. -/
theorem tableAt_preparePML4 {q : List ℕ} {t : ℕ}
    (h : tableAt (preparePML4 l memory cr3 heapRequests) q = some t) : q = [] ∧ t = l.pml4 := by
  cases q with
  | nil => exact ⟨rfl, (Option.some.inj h).symm⟩
  | cons i q =>
    have hnext : next (preparePML4 l memory cr3 heapRequests).entries l.pml4 i = none := by
      rw [next_eq_none_iff]
      simp [preparePML4]
    change ((next (preparePML4 l memory cr3 heapRequests).entries l.pml4 i).bind _) = some t at h
    rw [hnext] at h
    cases h

theorem ok_preparePML4 (hheap : ∀ sizes ∈ heapRequests, ∀ size ∈ sizes, size < 2 ^ 64) :
    Ok (preparePML4 l memory cr3 heapRequests) := by
  have hpml4 := l.pml4_lt
  have hinitial := l.initial_le
  have hmod := l.initial_aligned
  have hseparate := l.separate
  unfold staticPageEntries pageSize at hinitial hseparate
  unfold Aligned at hmod
  have hat := fun q t => tableAt_preparePML4 l memory cr3 heapRequests (q := q) (t := t)
  have hpool : ∀ f ∈ blockPages l.initialPageTableEntries staticPageEntries,
      Spare (preparePML4 l memory cr3 heapRequests) f ∧
        Home (preparePML4 l memory cr3 heapRequests) f := by
    intro f hf
    obtain ⟨i, hi, rfl⟩ := mem_blockPages.mp hf
    unfold staticPageEntries at hi
    have hval : l.initialPageTableEntries + pageSize * i =
        l.initialPageTableEntries + 4096 * i := rfl
    rw [hval]
    refine ⟨⟨⟨by unfold Aligned; omega, by omega⟩, fun q hq ht => ?_⟩, Or.inr (Or.inl ?_)⟩
    · have := (hat q _ ht).2
      omega
    · change l.initialPageTableEntries ≤ _ ∧ _ < l.initialPageTableEntries + 4096 * 2048
      omega
  refine
    { physical := init_valid l.highest_pos l.highest_aligned l.highest_le
      virt := init_valid (by decide) (by decide) le_rfl
      virt_highest := rfl
      tables := ⟨?_, ?_⟩
      table_home := fun q t _ ht => Or.inl (hat q t ht).2
      pool_nodup := blockPages_nodup _ _
      pool := hpool
      reserve := fun f hf => absurd rfl hf.1
      pml4_aligned := l.pml4_aligned
      initial_aligned := l.initial_aligned
      block_aligned := fun b hb => absurd hb List.not_mem_nil
      paging_lt := fun t ht => ?_
      live := fun h => by cases h
      heap_lt := hheap
      blocks_live := fun h => absurd rfl h
      linked_block := fun b hb => absurd hb List.not_mem_nil
      reserve_block := fun h => absurd rfl h
      block_frame := fun b hb => absurd hb List.not_mem_nil
      linked_frame := fun b hb => absurd hb List.not_mem_nil }
  · intro p q t _ _ hp hq
    rw [(hat p t hp).1, (hat q t hq).1]
  · intro q t i _ ht
    refine Or.inl ?_
    rw [(hat q t ht).2]
    simp [preparePML4]
  · rcases isPagingPage_iff.mp ht with rfl | ⟨-, hhi⟩ | ⟨b, hb, -⟩
    · exact hpml4
    · change t < l.initialPageTableEntries + 4096 * 2048 at hhi
      omega
    · exact absurd hb List.not_mem_nil

end Prepare

/-- A Free virtual page is not mapped. -/
def FreeUnmapped (k : KernelMemory) : Prop :=
  ∀ x < pageMask, Aligned x → virtState k x = .free → frame k x = none

/-- A mapped page is not Free. -/
theorem FreeUnmapped.ne_free_of_frame {k : KernelMemory} (h : FreeUnmapped k) (hk : Ok k) {x : ℕ}
    (hx : x < pageMask) (hmapped : frame k x ≠ none) : virtState k x ≠ .free := by
  intro hstate
  have hbase : (x / 4096 * 4096) / 4096 = x / 4096 := by omega
  refine hmapped ?_
  rw [← frame_congr (word_congr k hbase)]
  refine h (x / 4096 * 4096) (by omega) (by unfold Aligned; omega) ?_
  rw [← hstate]
  exact getPageStateInternal_page hk.virt.wellFormed hbase

section FreeUnmapped
variable {refill : Prop} {own : ℕ → Prop} {k kt k' : KernelMemory}

theorem FreeUnmapped.of_env (h : FreeUnmapped k) (henv : Env refill own k k')
    (hown : ∀ x < pageMask, Aligned x → own x → virtState k' x = .free → frame k' x = none) :
    FreeUnmapped k' := by
  intro x hx halign hfree
  rcases henv.words x (by unfold pageMask at hx; omega) with hsame | ho | ⟨-, -, -, hused⟩
  · rw [frame_congr hsame]
    exact h x hx halign (henv.free_of_free hx hfree)
  · exact hown x hx halign ho hfree
  · rw [hused] at hfree
    cases hfree

/-- MapPages unmaps the pages that it tags Free. -/
theorem FreeUnmapped.of_called (h : FreeUnmapped k) (hk : Ok k) {m : Mapping} {v p size : ℕ}
    (hlt : size < 2 ^ 64) (hc : Called refill m v p size k kt k') : FreeUnmapped k' := by
  intro x hx halign hfree
  have hfree' := hc.mapped.env.free_of_free hx hfree
  by_cases hin : InPages v (callTurns v size) x
  · -- an own page: it is Free now, so it was unmapped and no refill has taken it
    obtain ⟨hlo, hhi⟩ := hin
    have hvmod := hc.virtual_page.mod
    have hpmod := hc.physical_page.mod
    have hpage : v + 4096 * ((x - v) / 4096) = x := by
      unfold Aligned at halign
      omega
    obtain ⟨hsize, hve, hpe⟩ := hc.bounds (by omega)
    have hH := hk.physical.lt
    have hwritten := hc.mapped.written ((x - v) / 4096) (by omega)
    rw [hpage] at hwritten
    have hpa : PageAddress (p + 4096 * ((x - v) / 4096)) := ⟨by unfold Aligned; omega, by omega⟩
    rcases hwritten with hw | ⟨-, -, -, hused⟩
    · have htag := hc.virt_tagged hk hx
      rw [hfree', add64_of_lt (by unfold pageMask at hve; omega)] at htag
      unfold tagged at htag
      by_cases hstate : m.newState = .free
      · rw [Mapping.leafEntry_free hstate hpa] at hw
        exact frame_of_word_free hpa hw
      · split_ifs at htag with hcond
        · exact absurd htag.symm hstate
        · have hres : virtState k x = .reserved := by
            by_contra hne
            exact hcond ⟨hlo, by omega, hne⟩
          rw [hres] at htag
          cases htag
    · rw [hused] at hfree
      cases hfree
  · obtain ⟨physical, virt, hkt, -⟩ := hc.tags
    have hword : word k' x = word k x := by
      rcases hc.mapped.env.words x (by unfold pageMask at hx; omega) with hs | ho | ⟨-, -, -, hu⟩
      · rw [hs, hkt]
        rfl
      · exact absurd ho hin
      · rw [hu] at hfree
        cases hfree
    have htag := hc.virt_tagged hk hx
    rw [hfree'] at htag
    unfold tagged at htag
    rw [frame_congr hword]
    refine h x hx halign ?_
    split_ifs at htag with hcond
    · rcases callTurns_spec hc.virtual_page hc.size_mod hlt with hzero | ⟨hadd, hturns⟩
      · unfold callTurns loopTurns pageSize at hzero
        omega
      · unfold InPages at hin
        omega
    · exact htag.symm

end FreeUnmapped

/-- The static pages are identity-mapped. -/
def StaticIdentity (k : KernelMemory) : Prop :=
  ∀ t, t = k.pml4 ∨ (k.initialPageTableEntries ≤ t ∧
    t < k.initialPageTableEntries + pageSize * staticPageEntries) →
    k.getPhysicalAddress t false = t

theorem StaticIdentity.of_env {refill : Prop} {own : ℕ → Prop} {k k' : KernelMemory}
    (h : StaticIdentity k) (hk : Ok k) (hk' : Ok k') (hset : k.pml4Set = true)
    (henv : Env refill own k k') : StaticIdentity k' := by
  intro t ht
  rw [henv.pml4, henv.initial] at ht
  have hpaging : k.isPagingPage t = true := by
    rcases ht with ht | ht
    · exact isPagingPage_iff.mpr (Or.inl ht)
    · exact isPagingPage_iff.mpr (Or.inr (Or.inl ht))
  rw [getPhysicalAddress_eq_frame hk'.tables, henv.paging_frame hset t hpaging,
    ← getPhysicalAddress_eq_frame hk.tables]
  exact h t ht

/-- The invariant of the running kernel. -/
structure Running (k : KernelMemory) : Prop where
  ok : Ok k
  pml4Set : k.pml4Set = true
  cr3 : k.cr3 = k.pml4
  free_unmapped : FreeUnmapped k
  static_identity : StaticIdentity k

theorem Boot.inv {k : KernelMemory} (h : Boot k) : Ok k ∧ k.pml4Set = false ∧ FreeUnmapped k := by
  induction h with
  | start l memory cr3 heapRequests hheap =>
    refine ⟨ok_preparePML4 l memory cr3 heapRequests hheap, rfl, fun x _ _ _ => ?_⟩
    refine frame_of_word_eq_zero (word_of_tableAt_none ?_)
    cases ht : tableAt (preparePML4 l memory cr3 heapRequests) (path x) with
    | none => rfl
    | some t => exact absurd (tableAt_preparePML4 l memory cr3 heapRequests ht).1 (by simp [path])
  | map hk hlt hmap ih =>
    obtain ⟨hok, hset, hfree⟩ := ih
    obtain ⟨hok', kt, hc⟩ := mapPages_eq_ok hok hlt hmap
    refine ⟨hok', ?_, hfree.of_called hok hlt hc⟩
    obtain ⟨physical, virt, hkt, -⟩ := hc.tags
    rw [hc.mapped.env.pml4Set, hkt]
    exact hset
  | @reserve k low high physical hk htag ih =>
    obtain ⟨hok, hset, hfree⟩ := ih
    have hsame : SameTables k { k with physicalMemoryState := physical } := sameTables_of_eq rfl rfl
    exact ⟨{ hok with
      physical := (tagRange_eq_ok hok.physical htag).1
      tables := hsame.tables hok.tables
      pool := fun f hf => ⟨hsame.spare (hok.pool f hf).1, (hok.pool f hf).2⟩
      reserve := fun f hf => ⟨hsame.spare (hok.reserve f hf).1, (hok.reserve f hf).2⟩ }, hset, hfree⟩

/-- Loading the tables: what is identity-mapped is not Free. -/
theorem running_loadPML4 {k : KernelMemory} (hk : Ok k) (hset : k.pml4Set = false)
    (hfree : FreeUnmapped k)
    (hidentity : ∀ t, k.isPagingPage t = true → k.getPhysicalAddress t false = t) :
    Running (loadPML4 k) := by
  have hsame : SameTables k (loadPML4 k) := sameTables_of_eq rfl rfl
  have hblocks : k.blocks = [] := by
    by_contra hne
    rw [hk.blocks_live hne] at hset
    cases hset
  have hlive : ∀ t < pageMask, k.isPagingPage t = true → virtState k t ≠ .free := by
    intro t ht hpaging hstate
    have hbase : (t / 4096 * 4096) / 4096 = t / 4096 := by omega
    have hphys := hidentity t hpaging
    have hlt := hk.paging_lt t hpaging
    rw [getPhysicalAddress_eq_frame hk.tables, ← frame_congr (word_congr k hbase),
      hfree (t / 4096 * 4096) (by omega) (by unfold Aligned; omega)] at hphys
    · simp only [Option.elim_none, invalidAddress] at hphys
      omega
    · rw [← hstate]
      exact getPageStateInternal_page hk.virt.wellFormed hbase
  have hok : Ok (loadPML4 k) :=
    { hk with
      tables := hsame.tables hk.tables
      pool := fun f hf => ⟨hsame.spare (hk.pool f hf).1, (hk.pool f hf).2⟩
      reserve := fun f hf => ⟨hsame.spare (hk.reserve f hf).1, (hk.reserve f hf).2⟩
      live := fun _ => hlive
      blocks_live := fun _ => rfl }
  refine ⟨hok, rfl, rfl, hfree, fun t ht => ?_⟩
  rw [getPhysicalAddress_eq_frame hok.tables, hsame.frame, ← getPhysicalAddress_eq_frame hk.tables]
  refine hidentity t ?_
  rcases ht with ht | ht
  · exact isPagingPage_iff.mpr (Or.inl ht)
  · exact isPagingPage_iff.mpr (Or.inr (Or.inl ht))

theorem Running.of_called {k kt k' : KernelMemory} (h : Running k) (hk' : Ok k') {m : Mapping}
    {v p size : ℕ} (hlt : size < 2 ^ 64) (hc : Called True m v p size k kt k') : Running k' := by
  obtain ⟨physical, virt, rfl, -⟩ := hc.tags
  have henv := hc.mapped.env
  refine ⟨hk', henv.pml4Set.trans h.pml4Set, ?_, h.free_unmapped.of_called h.ok hlt hc, ?_⟩
  · rw [henv.cr3, henv.pml4]
    exact h.cr3
  · have hidentity : StaticIdentity (withTrees k physical virt) := h.static_identity
    exact hidentity.of_env hc.ok_tagged hk' h.pml4Set henv

theorem Reachable.running {k : KernelMemory} (h : Reachable k) : Running k := by
  induction h with
  | load hk hidentity =>
    obtain ⟨hok, hset, hfree⟩ := hk.inv
    exact running_loadPML4 hok hset hfree hidentity
  | map hk hlt hmap ih =>
    obtain ⟨hok', kt, hc⟩ := mapPages_eq_ok ih.ok hlt hmap
    exact ih.of_called hok' hlt hc
  | @allocateNext k k' depth hk hnext ih =>
    obtain ⟨hok', henv, -⟩ := (allocateNextFreePageTableEntries_meets
      (getPML4FreePage_spec depth) ih.ok ih.pml4Set).of_eq_ok hnext
    refine ⟨hok', henv.pml4Set.trans ih.pml4Set, ?_, ?_, ?_⟩
    · rw [henv.cr3, henv.pml4]
      exact ih.cr3
    · exact ih.free_unmapped.of_env henv fun x _ _ h => h.elim
    · exact ih.static_identity.of_env ih.ok hok' ih.pml4Set henv

/-- The states of the running kernel when only the allocators change it. -/
inductive AllocatorRun : KernelMemory → Prop
  | load {k : KernelMemory} (hk : Boot k)
      (hidentity : ∀ t, k.isPagingPage t = true → k.getPhysicalAddress t false = t) :
      AllocatorRun (loadPML4 k)
  | allocateNext {k k' : KernelMemory} {depth : ℕ} (hk : AllocatorRun k)
      (h : allocateNextFreePageTableEntries (getPML4FreePage depth) k = .ok k') : AllocatorRun k'
  | virtualAlloc {k k' : KernelMemory} {depth size a : ℕ} {privilegeLevel : PrivilegeLevel}
      {pageFlags : PageFlags} (hk : AllocatorRun k) (hlt : size < 2 ^ 64)
      (h : k.virtualAlloc depth size privilegeLevel pageFlags = .ok (a, k')) : AllocatorRun k'
  | physicalAlloc {k k' : KernelMemory} {depth p size a : ℕ} {privilegeLevel : PrivilegeLevel}
      {pageFlags : PageFlags} (hk : AllocatorRun k) (hlt : size < 2 ^ 64)
      (h : k.physicalAlloc depth p size privilegeLevel pageFlags = .ok (a, k')) : AllocatorRun k'
  | virtualFree {k k' : KernelMemory} {depth a size : ℕ} (hk : AllocatorRun k)
      (hlt : size < 2 ^ 64) (h : k.virtualFree depth a size = .ok k') : AllocatorRun k'

section Allocators
variable {depth size a : ℕ} {privilegeLevel : PrivilegeLevel} {pageFlags : PageFlags}
  {k k' : KernelMemory}

/-- VirtualAlloc changes nothing, or calls MapPages. -/
theorem virtualAlloc_eq_ok (h : k.virtualAlloc depth size privilegeLevel pageFlags = .ok (a, k')) :
    k' = k ∨
      ∃ p, k.mapPages depth a p size (allocMapping privilegeLevel pageFlags) = .ok k' := by
  unfold KernelMemory.virtualAlloc virtualAllocWith at h
  obtain ⟨p, -, h⟩ := bind_eq_ok.mp h
  split_ifs at h with hzero
  · obtain ⟨-, -, h⟩ := bind_eq_ok.mp h
    cases h
    exact Or.inl rfl
  · obtain ⟨v, -, h⟩ := bind_eq_ok.mp h
    obtain ⟨k1, hmap, h⟩ := bind_eq_ok.mp h
    cases h
    exact Or.inr ⟨p, hmap⟩

theorem physicalAlloc_eq_ok {p : ℕ}
    (h : k.physicalAlloc depth p size privilegeLevel pageFlags = .ok (a, k')) :
    k.mapPages depth a p size (allocMapping privilegeLevel pageFlags) = .ok k' := by
  unfold KernelMemory.physicalAlloc at h
  obtain ⟨v, -, h⟩ := bind_eq_ok.mp h
  obtain ⟨k1, hmap, h⟩ := bind_eq_ok.mp h
  cases h
  exact hmap

end Allocators

theorem AllocatorRun.reachable {k : KernelMemory} (h : AllocatorRun k) : Reachable k := by
  induction h with
  | load hk hidentity => exact .load hk hidentity
  | allocateNext hk h ih => exact .allocateNext ih h
  | virtualAlloc hk hlt h ih =>
    rcases virtualAlloc_eq_ok h with rfl | ⟨p, hmap⟩
    · exact ih
    · exact .map ih hlt hmap
  | physicalAlloc hk hlt h ih => exact .map ih hlt (physicalAlloc_eq_ok h)
  | virtualFree hk hlt h ih => exact .map ih hlt h

end Enkel.Paging
