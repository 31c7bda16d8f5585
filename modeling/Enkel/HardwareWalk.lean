import Enkel.RefillReturns

/-!
The walk of the processor. It takes the address field of an entry for a
physical address, where the kernel takes it for a virtual one. The two agree
when every page that holds a table is identity-mapped: the static pages are,
and the pages of a block are when first fit has found the same number in both
address spaces.
-/
namespace Enkel.Paging

open Outcome MemoryState KernelMemory

/-- Four-level paging over a memory whose pages are arrays of entries. -/
def hardwareWalk (memory : ℕ → ℕ → ℕ) (cr3 virtualAddress : ℕ) : ℕ :=
  let pml4Entry := memory (cr3 &&& pml4AddressMask) (pml4Index virtualAddress)
  if pml4Entry &&& present = 0 then invalidAddress else
  let pdptEntry := memory (pml4Entry &&& pml4AddressMask) (pdptIndex virtualAddress)
  if pdptEntry &&& present = 0 then invalidAddress else
  let pdEntry := memory (pdptEntry &&& pml4AddressMask) (pdIndex virtualAddress)
  if pdEntry &&& present = 0 then invalidAddress else
  if pdEntry &&& page2MB ≠ 0 then
    (pdEntry &&& pml4AddressMask) + (virtualAddress &&& 0x1FFFFF)
  else
  let ptEntry := memory (pdEntry &&& pml4AddressMask) (ptIndex virtualAddress)
  if ptEntry &&& present = 0 then invalidAddress else
  (ptEntry &&& pml4AddressMask) + (virtualAddress &&& 0xFFF)

/-- What the kernel wrote to a table through its address is in the frame to which
that address is mapped. -/
def HoldsTables (k : KernelMemory) (memory : ℕ → ℕ → ℕ) : Prop :=
  ∀ q t, q.length ≤ 3 → tableAt k q = some t →
    ∀ i, memory (k.getPhysicalAddress t false) i = k.entries t i

/-- The PML4 and every page that a present entry of an upper level leads to is
identity-mapped. -/
def TablesIdentity (k : KernelMemory) : Prop :=
  ∀ q t, q.length ≤ 3 → tableAt k q = some t → k.getPhysicalAddress t false = t

/-- The blocks on the free list were found at the same number in both address spaces. -/
def BlocksIdentity (k : KernelMemory) : Prop :=
  ∀ b ∈ k.blocks, b.1 ∈ k.linkedBlocks → b.1 = b.2

section Walk
variable {k : KernelMemory}

theorem tableAt_aligned (hk : Ok k) {q : List ℕ} {t : ℕ} (ht : tableAt k q = some t) :
    Aligned t := by
  rcases q.eq_nil_or_concat with rfl | ⟨r, i, rfl⟩
  · rw [← Option.some.inj ht]
    exact hk.pml4_aligned
  · rw [List.concat_eq_append] at ht
    cases hr : tableAt k r with
    | none =>
      have hnone : tableAt k (r ++ [i]) = none := RadixTable.walk_none_of_initial hr ⟨[i], rfl⟩
      rw [hnone] at ht
      cases ht
    | some s =>
      rw [tableAt_snoc hr] at ht
      unfold next at ht
      split_ifs at ht
      rw [← Option.some.inj ht, and_pml4AddressMask]
      unfold Aligned
      omega

/-- The pages of the tables are identity-mapped as long as the blocks are. -/
theorem Running.tablesIdentity (h : Running k) (hblocks : BlocksIdentity k) :
    TablesIdentity k := by
  intro q t hq ht
  rcases h.ok.table_home q t hq ht with hpml4 | hstatic | ⟨b, hb, hin⟩
  · exact h.static_identity t (Or.inl hpml4)
  · exact h.static_identity t (Or.inr hstatic)
  · obtain ⟨P, hP⟩ := h.ok.linked_block b hb
    have hbP := hblocks _ hP hb
    have halign := tableAt_aligned h.ok ht
    have hb0 := h.ok.block_aligned _ hP
    have hlt := h.ok.paging_lt t (isPagingPage_iff.mpr (Or.inr (Or.inr ⟨_, hP, hin⟩)))
    rw [inBlock_iff] at hin
    unfold Aligned at halign hb0
    unfold pagingBlockBytes at hin
    dsimp only at hbP hb0
    have hframe := h.ok.linked_frame _ hP hb ((t - b) / 4096)
      (by unfold nextPagingBlockSize; omega)
    unfold pageSize at hframe
    dsimp only at hframe
    rw [← hbP, show b + 4096 * ((t - b) / 4096) = t by omega] at hframe
    exact (getPhysicalAddress_eq_iff h.ok.tables (by unfold Aligned; omega) (by omega)).mpr hframe

/-- Over identity-mapped tables the walk of the processor is the lookup of the kernel. -/
theorem Running.hardwareWalk_eq (h : Running k) (hident : TablesIdentity k)
    {memory : ℕ → ℕ → ℕ} (hmemory : HoldsTables k memory) (x : ℕ) :
    hardwareWalk memory k.cr3 x = k.getPhysicalAddress x false := by
  have hpml4 : PageAddress k.pml4 :=
    ⟨h.ok.pml4_aligned, h.ok.paging_lt _ (isPagingPage_iff.mpr (Or.inl rfl))⟩
  have hmask : k.cr3 &&& pml4AddressMask = k.pml4 := by
    rw [h.cr3]
    exact flagged_address (f := 0) hpml4 (by decide)
  have hsame : SameTables k { k with entries := memory } := by
    refine ⟨rfl, fun q t hq ht i => ?_⟩
    have hi := hmemory q t hq ht i
    rwa [hident q t hq ht] at hi
  have hwalk : hardwareWalk memory k.cr3 x =
      { k with entries := memory }.getPhysicalAddress x false := by
    unfold hardwareWalk
    rw [hmask]
    rfl
  rw [hwalk, getPhysicalAddress_eq_frame (hsame.tables h.ok.tables), hsame.frame,
    ← getPhysicalAddress_eq_frame h.ok.tables]

end Walk

/-- In a run in which every block on the free list was found at the same number
in both address spaces, the address fields are physical addresses of tables,
and the processor translates as the kernel does. -/
theorem hardware_walk_agrees (k : KernelMemory) (hk : AllocatorRun k) (hblocks : BlocksIdentity k) :
    TablesIdentity k ∧ ∀ memory, HoldsTables k memory →
      ∀ x, hardwareWalk memory k.cr3 x = k.getPhysicalAddress x false := by
  have hrun := hk.reachable.running
  have hident := hrun.tablesIdentity hblocks
  exact ⟨hident, fun _ hmemory x => hrun.hardwareWalk_eq hident hmemory x⟩

theorem hardware_walk_agrees_full :
    ∃ k, MachineFull k ∧ TablesIdentity k ∧ ∀ memory, HoldsTables k memory →
      ∀ x, hardwareWalk memory k.cr3 x = k.getPhysicalAddress x false := by
  obtain ⟨k, h⟩ := exists_machineFull
  refine ⟨k, h, hardware_walk_agrees k h.run fun b _ hlinked => ?_⟩
  rw [h.linked] at hlinked
  cases hlinked

/-- On the example machine the first block lies at 1 GiB, over the frames behind
the gap. The page table that the next allocation takes from it is not where
the processor looks for it. -/
theorem table_not_identity :
    ∃ k k', AllocatorRun k ∧ k.virtualAlloc 1 0x1000 .kernel pageFlagsNone = .ok (0xFF600000, k') ∧
      AllocatorRun k' ∧ ∃ t, tableAt k' (path 0xFF600000) = some t ∧
        k'.getPhysicalAddress t false = t + 0x200000 := by
  obtain ⟨k, h⟩ := exists_machineFull
  obtain ⟨-, -, page, k', -, -, halloc, hmap, hlinked, ht, hmem⟩ := h.alloc
  have hk := h.run.reachable.running.ok
  have hrun := AllocatorRun.virtualAlloc h.run (by decide) halloc
  obtain ⟨-, kt, hc⟩ := mapPages_eq_ok hk (by decide) hmap
  refine ⟨k, k', h.run, halloc, hrun, page, ht, ?_⟩
  have hblock : (0x40000000, 0x40200000) ∈ k'.blocks := by
    obtain ⟨physical, virt, rfl, -⟩ := hc.tags
    refine hc.mapped.env.blocks _ ?_
    change _ ∈ k.blocks
    rw [h.blocks]
    exact List.mem_cons_self
  obtain ⟨i, hi, rfl⟩ := mem_blockPages.mp hmem
  have hk' := hrun.reachable.running.ok
  have hframe := hk'.linked_frame _ hblock hlinked i hi
  unfold nextPagingBlockSize at hi
  unfold pageSize at hframe ⊢
  rw [(getPhysicalAddress_eq_iff hk'.tables (by unfold Aligned; omega) (by omega)).mpr hframe]
  omega

end Enkel.Paging
