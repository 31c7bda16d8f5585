import Enkel.AddressMap

/-!
Runs of VirtualAlloc and VirtualFree during which no list is refilled. The live
allocations own disjoint ranges of virtual pages and disjoint ranges of frames;
every other page has the state it had before the run.
-/
namespace Enkel.Paging

open Outcome MemoryState KernelMemory

section Quiet
variable {k kt k' : KernelMemory} {m : Mapping} {v p size : ℕ}

theorem Called.trees_quiet (hc : Called False m v p size k kt k') :
    k'.physicalMemoryState = kt.physicalMemoryState ∧
      k'.virtualMemoryState = kt.virtualMemoryState :=
  ⟨(hc.mapped.env.steady id).1, (hc.mapped.env.steady id).2.1⟩

theorem Called.virtState_quiet (hc : Called False m v p size k kt k') (x : ℕ) :
    virtState k' x = virtState kt x := by
  unfold virtState
  rw [hc.trees_quiet.2]

theorem Called.physState_quiet (hc : Called False m v p size k kt k') (x : ℕ) :
    physState k' x = physState kt x := by
  unfold physState
  rw [hc.trees_quiet.1]

theorem Called.cr3_eq {refill : Prop} (hc : Called refill m v p size k kt k')
    (hcr3 : k.cr3 = k.pml4) : k'.cr3 = k'.pml4 := by
  obtain ⟨physical, virt, rfl, -⟩ := hc.tags
  rw [hc.mapped.env.cr3, hc.mapped.env.pml4]
  exact hcr3

theorem Called.paging_quiet (hc : Called False m v p size k kt k') :
    k'.pml4Set = k.pml4Set ∧ ∀ t, k'.isPagingPage t = k.isPagingPage t := by
  obtain ⟨physical, virt, rfl, -⟩ := hc.tags
  have henv := hc.mapped.env
  obtain ⟨-, -, -, -, hblocks, -⟩ := henv.steady id
  refine ⟨henv.pml4Set, fun t => ?_⟩
  unfold KernelMemory.isPagingPage
  rw [henv.pml4, henv.initial, hblocks]
  rfl

end Quiet

/-- The mapping of VirtualFree. -/
def freeMapping : Mapping :=
  { writable := false
    executable := false
    privilegeLevel := .kernel
    newState := .free
    pageFlags := pageFlagsNone }

/-- An allocation: the address that was returned, its frame and its size. -/
structure Allocation where
  address : ℕ
  frame : ℕ
  size : ℕ
deriving DecidableEq, Repr

/-- Disjoint ranges of virtual pages, and disjoint ranges of frames. -/
structure Apart (a b : Allocation) : Prop where
  virt : a.address + a.size ≤ b.address ∨ b.address + b.size ≤ a.address
  phys : a.frame + a.size ≤ b.frame ∨ b.frame + b.size ≤ a.frame

theorem Apart.symm {a b : Allocation} (h : Apart a b) : Apart b a := ⟨h.virt.symm, h.phys.symm⟩

/-- Runs from the state `k0`, with the list of the live allocations. -/
inductive AllocRun (k0 : KernelMemory) : KernelMemory → List Allocation → Prop
  | start : AllocRun k0 k0 []
  | alloc {k k' : KernelMemory} {live : List Allocation} {address byteSize : ℕ}
      {privilegeLevel : PrivilegeLevel} {pageFlags : PageFlags} (h : AllocRun k0 k live)
      (hpos : 0 < byteSize) (hmod : byteSize % 4096 = 0) (hlt : byteSize < 2 ^ 64)
      (hfound : k.virtualMemoryState.findMinimumSizeFreeBlock byteSize ≠ .ok 0)
      (hrun : k.virtualAlloc 0 byteSize privilegeLevel pageFlags = .ok (address, k')) :
      AllocRun k0 k' (if address = 0 then live
        else ⟨address, k'.getPhysicalAddress address true, byteSize⟩ :: live)
  | free {k k' : KernelMemory} {live : List Allocation} {a : Allocation} (h : AllocRun k0 k live)
      (hmem : a ∈ live) (hrun : k.virtualFree 0 a.address a.size = .ok k') :
      AllocRun k0 k' (live.erase a)

/-- What holds of a live allocation. -/
structure LiveIn (k0 k : KernelMemory) (a : Allocation) : Prop where
  size_pos : 0 < a.size
  size_mod : a.size % 4096 = 0
  address_page : PageAddress a.address
  frame_page : PageAddress a.frame
  address_low : 4096 ≤ a.address
  frame_low : 4096 ≤ a.frame
  address_le : a.address + a.size ≤ pageMask
  frame_le : a.frame + a.size ≤ k0.physicalMemoryState.highestAddress
  mapped : ∀ i, 4096 * i < a.size → frame k (a.address + 4096 * i) = some (a.frame + 4096 * i)
  virt : ∀ x, a.address ≤ x → x < a.address + a.size →
    virtState k x = .used ∧ virtState k0 x = .free
  phys : ∀ x, a.frame ≤ x → x < a.frame + a.size →
    physState k x = .used ∧ physState k0 x = .free

/-- The invariant of the runs. -/
structure AllocInv (k0 k : KernelMemory) (live : List Allocation) : Prop where
  ok : Ok k
  cr3 : k.cr3 = k.pml4
  highest : k.physicalMemoryState.highestAddress = k0.physicalMemoryState.highestAddress
  paging : k.pml4Set = k0.pml4Set ∧ ∀ t, k.isPagingPage t = k0.isPagingPage t
  liveIn : ∀ a ∈ live, LiveIn k0 k a
  apart : live.Pairwise Apart
  virt : ∀ x < pageMask, virtState k x = virtState k0 x ∨
    ∃ a ∈ live, a.address ≤ x ∧ x < a.address + a.size
  phys : ∀ x < k0.physicalMemoryState.highestAddress, physState k x = physState k0 x ∨
    ∃ a ∈ live, a.frame ≤ x ∧ x < a.frame + a.size

section Steps
variable {k0 k kt k' : KernelMemory} {live : List Allocation}

/-- The translation of the first page, as VirtualFree asks for it. -/
theorem LiveIn.physical {a : Allocation} (h : LiveIn k0 k a) (hk : Ok k) (hcr3 : k.cr3 = k.pml4) :
    k.getPhysicalAddress a.address true = a.frame := by
  have hlt := h.frame_page.lt
  rw [getPhysicalAddress_live hk hcr3,
    getPhysicalAddress_eq_iff hk.tables h.address_page.aligned (by omega)]
  exact h.mapped 0 h.size_pos

/-- A live allocation is not affected by calls that leave its ranges alone. -/
theorem LiveIn.of_called {a : Allocation} (ha : LiveIn k0 k a) {m : Mapping} {v p size : ℕ}
    (hk : Ok k) (hH : k.physicalMemoryState.highestAddress = k0.physicalMemoryState.highestAddress)
    (hlt : size < 2 ^ 64) (hc : Called False m v p size k kt k')
    (hwrap : v + size ≤ pageMask) (hpwrap : p + size ≤ k.physicalMemoryState.highestAddress)
    (hvirt : a.address + a.size ≤ v ∨ v + size ≤ a.address)
    (hphys : a.frame + a.size ≤ p ∨ p + size ≤ a.frame) : LiveIn k0 k' a := by
  have hle := ha.address_le
  have hfle := ha.frame_le
  have hklt := hk.physical.lt
  unfold pageMask at hwrap hle
  refine
    { ha with
      mapped := fun i hi => ?_
      virt := fun x hlo hhi => ?_
      phys := fun x hlo hhi => ?_ }
  · rw [frame_congr (hc.word_outside hlt (by omega) (by omega))]
    exact ha.mapped i hi
  · refine ⟨?_, (ha.virt x hlo hhi).2⟩
    rw [hc.virtState_quiet, hc.virt_tagged hk (by unfold pageMask; omega), add64_of_lt (by omega)]
    unfold tagged
    rw [if_neg (by omega)]
    exact (ha.virt x hlo hhi).1
  · refine ⟨?_, (ha.phys x hlo hhi).2⟩
    rw [hc.physState_quiet, hc.phys_tagged hk (by omega),
      physicalEnd_of_lt hc.physical_page hc.size_mod (by omega)]
    unfold tagged
    rw [if_neg (by omega)]
    exact (ha.phys x hlo hhi).1

theorem AllocInv.alloc (h : AllocInv k0 k live) {m : Mapping} {v p size : ℕ} (hpos : 0 < size)
    (hlt : size < 2 ^ 64) (hm : m.newState = .used) (hf : Found k v p size) (hk' : Ok k')
    (hc : Called False m v p size k kt k') :
    AllocInv k0 k' (⟨v, k'.getPhysicalAddress v true, size⟩ :: live) := by
  have hvle := hf.virt_le h.ok
  have hple := hf.phys_le h.ok
  have hH := h.highest
  have hklt := h.ok.physical.lt
  have hcr3 := hc.cr3_eq h.cr3
  have hframe := fun i hi => hc.frame_found h.ok hf hm (i := i) hi
  have hphys : k'.getPhysicalAddress v true = p := by
    have hp := hc.physical_page.lt
    rw [getPhysicalAddress_live hk' hcr3,
      getPhysicalAddress_eq_iff hk'.tables hc.virtual_page.aligned (by omega)]
    exact hframe 0 hpos
  rw [hphys]
  have hvirt' : ∀ x < pageMask, virtState k' x =
      if v ≤ x ∧ x < v + size then .used else virtState k x := fun x hx => by
    rw [hc.virtState_quiet, hc.virt_found h.ok hf hm hx]
  have hphys' : ∀ x < k.physicalMemoryState.highestAddress, physState k' x =
      if p ≤ x ∧ x < p + size then .used else physState k x := fun x hx => by
    rw [hc.physState_quiet, hc.phys_found h.ok hf hm hx]
  -- the ranges found are Free, those of live allocations are Used
  have hnotvirt : ∀ a ∈ live, ∀ x, v ≤ x → x < v + size →
      ¬ (a.address ≤ x ∧ x < a.address + a.size) := by
    intro a ha x hlo hhi hin
    have hused := ((h.liveIn a ha).virt x hin.1 hin.2).1
    rw [hf.virt_free h.ok hlo hhi] at hused
    cases hused
  have hnotphys : ∀ a ∈ live, ∀ x, p ≤ x → x < p + size →
      ¬ (a.frame ≤ x ∧ x < a.frame + a.size) := by
    intro a ha x hlo hhi hin
    have hused := ((h.liveIn a ha).phys x hin.1 hin.2).1
    rw [hf.phys_free h.ok hlo hhi] at hused
    cases hused
  have hapart : ∀ a ∈ live, Apart ⟨v, p, size⟩ a := by
    intro a ha
    have hapos := (h.liveIn a ha).size_pos
    constructor
    · by_contra hover
      refine hnotvirt a ha (max v a.address) (by omega) ?_ ?_ <;> simp only at hover <;> omega
    · by_contra hover
      refine hnotphys a ha (max p a.frame) (by omega) ?_ ?_ <;> simp only at hover <;> omega
  have hvirtFree : ∀ x, v ≤ x → x < v + size → virtState k0 x = .free := by
    intro x hlo hhi
    rcases h.virt x (by omega) with heq | ⟨a, ha, hin⟩
    · rw [← heq]
      exact hf.virt_free h.ok hlo hhi
    · exact absurd hin (hnotvirt a ha x hlo hhi)
  have hphysFree : ∀ x, p ≤ x → x < p + size → physState k0 x = .free := by
    intro x hlo hhi
    rcases h.phys x (by omega) with heq | ⟨a, ha, hin⟩
    · rw [← heq]
      exact hf.phys_free h.ok hlo hhi
    · exact absurd hin (hnotphys a ha x hlo hhi)
  refine
    { ok := hk'
      cr3 := hcr3
      highest := (hc.highest_eq h.ok).trans hH
      paging := ⟨hc.paging_quiet.1.trans h.paging.1,
        fun t => (hc.paging_quiet.2 t).trans (h.paging.2 t)⟩
      liveIn := fun a ha => ?_
      apart := List.pairwise_cons.mpr ⟨hapart, h.apart⟩
      virt := fun x hx => ?_
      phys := fun x hx => ?_ }
  · rcases List.mem_cons.mp ha with rfl | ha
    · exact
        { size_pos := hpos
          size_mod := hc.size_mod
          address_page := hc.virtual_page
          frame_page := hc.physical_page
          address_low := (firstFit_spec h.ok.virt hf.virt hf.virt_ne).2.1
          frame_low := (firstFit_spec h.ok.physical hf.phys hf.phys_ne).2.1
          address_le := hvle
          frame_le := hH ▸ hple
          mapped := hframe
          virt := fun x hlo hhi => ⟨by
            simp only at hlo hhi
            rw [hvirt' x (by omega), if_pos ⟨hlo, hhi⟩], hvirtFree x hlo hhi⟩
          phys := fun x hlo hhi => ⟨by
            simp only at hlo hhi
            rw [hphys' x (by omega), if_pos ⟨hlo, hhi⟩], hphysFree x hlo hhi⟩ }
    · have hap := (hapart a ha).symm
      exact (h.liveIn a ha).of_called h.ok hH hlt hc hvle hple hap.virt hap.phys
  · rw [hvirt' x hx]
    split_ifs with hin
    · exact Or.inr ⟨_, List.mem_cons_self, hin⟩
    · exact (h.virt x hx).imp id fun ⟨a, ha, hin⟩ => ⟨a, List.mem_cons_of_mem _ ha, hin⟩
  · rw [hphys' x (by omega)]
    split_ifs with hin
    · exact Or.inr ⟨_, List.mem_cons_self, hin⟩
    · exact (h.phys x hx).imp id fun ⟨a, ha, hin⟩ => ⟨a, List.mem_cons_of_mem _ ha, hin⟩

theorem AllocInv.free (h : AllocInv k0 k live) {m : Mapping} {a : Allocation} (ha : a ∈ live)
    (hm : m.newState = .free) (hk' : Ok k')
    (hc : Called False m a.address a.frame a.size k kt k') : AllocInv k0 k' (live.erase a) := by
  have hlive := h.liveIn a ha
  have hle := hlive.address_le
  have hfle := hlive.frame_le
  have hH := h.highest
  have hklt := h.ok.physical.lt
  unfold pageMask at hle
  have hvirt' : ∀ x < pageMask, virtState k' x =
      if a.address ≤ x ∧ x < a.address + a.size then .free else virtState k x := fun x hx => by
    rw [hc.virtState_quiet, hc.virt_tagged h.ok hx, add64_of_lt (by omega), hm]
    unfold tagged
    by_cases hin : a.address ≤ x ∧ x < a.address + a.size
    · rw [if_pos ⟨hin.1, hin.2, by rw [(hlive.virt x hin.1 hin.2).1]; decide⟩, if_pos hin]
    · rw [if_neg (fun h => hin ⟨h.1, h.2.1⟩), if_neg hin]
  have hphys' : ∀ x < k.physicalMemoryState.highestAddress, physState k' x =
      if a.frame ≤ x ∧ x < a.frame + a.size then .free else physState k x := fun x hx => by
    rw [hc.physState_quiet, hc.phys_tagged h.ok hx,
      physicalEnd_of_lt hc.physical_page hc.size_mod (by omega), hm]
    unfold tagged
    by_cases hin : a.frame ≤ x ∧ x < a.frame + a.size
    · rw [if_pos ⟨hin.1, hin.2, by rw [(hlive.phys x hin.1 hin.2).1]; decide⟩, if_pos hin]
    · rw [if_neg (fun h => hin ⟨h.1, h.2.1⟩), if_neg hin]
  have hperm := List.perm_cons_erase ha
  have hpair : (a :: live.erase a).Pairwise Apart :=
    hperm.pairwise h.apart fun hab => Apart.symm hab
  rw [List.pairwise_cons] at hpair
  have hsplit : ∀ b ∈ live, b = a ∨ b ∈ live.erase a := fun b hb =>
    List.mem_cons.mp (hperm.mem_iff.mp hb)
  refine
    { ok := hk'
      cr3 := hc.cr3_eq h.cr3
      highest := (hc.highest_eq h.ok).trans hH
      paging := ⟨hc.paging_quiet.1.trans h.paging.1,
        fun t => (hc.paging_quiet.2 t).trans (h.paging.2 t)⟩
      liveIn := fun b hb => ?_
      apart := hpair.2
      virt := fun x hx => ?_
      phys := fun x hx => ?_ }
  · have hap := (hpair.1 b hb).symm
    exact (h.liveIn b (List.mem_of_mem_erase hb)).of_called h.ok hH (by omega) hc hlive.address_le
      (by omega) hap.virt hap.phys
  · rw [hvirt' x hx]
    split_ifs with hin
    · exact Or.inl (hlive.virt x hin.1 hin.2).2.symm
    · rcases h.virt x hx with heq | ⟨b, hb, hbin⟩
      · exact Or.inl heq
      · rcases hsplit b hb with rfl | hb
        · exact absurd hbin hin
        · exact Or.inr ⟨b, hb, hbin⟩
  · rw [hphys' x (by omega)]
    split_ifs with hin
    · exact Or.inl (hlive.phys x hin.1 hin.2).2.symm
    · rcases h.phys x hx with heq | ⟨b, hb, hbin⟩
      · exact Or.inl heq
      · rcases hsplit b hb with rfl | hb
        · exact absurd hbin hin
        · exact Or.inr ⟨b, hb, hbin⟩

/-- VirtualAlloc in a state of a run either fails to find memory and changes
nothing, or adds an allocation. It stops only when a list is exhausted. -/
theorem AllocInv.virtualAlloc_meets (h : AllocInv k0 k live) {byteSize : ℕ} (hpos : 0 < byteSize)
    (hmod : byteSize % 4096 = 0) (hlt : byteSize < 2 ^ 64)
    (hfound : k.virtualMemoryState.findMinimumSizeFreeBlock byteSize ≠ .ok 0)
    (privilegeLevel : PrivilegeLevel) (pageFlags : PageFlags) :
    Meets (fun e => e = .pagingListEmpty ∨ e.NodeListEmpty)
      (fun r => AllocInv k0 r.2 (if r.1 = 0 then live
        else ⟨r.1, r.2.getPhysicalAddress r.1 true, byteSize⟩ :: live))
      (k.virtualAlloc 0 byteSize privilegeLevel pageFlags) := by
  rw [findMinimumSizeFreeBlock_eq h.ok.virt] at hfound
  have hv : firstFit k.virtualMemoryState.leaves byteSize ≠ 0 := fun h0 => hfound (by rw [h0])
  refine meets_mono (virtualAllocWith_meets getPML4FreePage_zero_spec h.ok hlt privilegeLevel
    pageFlags) (fun e he => ?_) fun r hr => ?_
  · have hf : Found k _ _ byteSize := ⟨rfl, rfl, hv, he.1⟩
    rcases hf.callFault h.ok hpos hmod he.2 with (he | ⟨hfalse, -⟩) | ⟨-, he⟩
    · exact Or.inl he
    · exact hfalse.elim
    · exact Or.inr he
  · obtain ⟨hk', ⟨-, rfl⟩ | ⟨hp, hr1, kt, hc⟩⟩ := hr
    · rw [if_pos rfl]
      exact h
    · rw [if_neg (by rw [hr1]; exact hv)]
      exact h.alloc hpos hlt rfl ⟨hr1.symm, rfl, by rw [hr1]; exact hv, hp⟩ hk' hc

/-- VirtualFree of a live allocation removes it. -/
theorem AllocInv.virtualFree_meets (h : AllocInv k0 k live) {a : Allocation} (ha : a ∈ live)
    (hlive : k0.pml4Set = true → ∀ t < pageMask, k0.isPagingPage t = true → virtState k0 t ≠ .free) :
    Meets (fun e => e = .pagingListEmpty ∨ e.NodeListEmpty)
      (fun k' => AllocInv k0 k' (live.erase a)) (k.virtualFree 0 a.address a.size) := by
  have hin := h.liveIn a ha
  have hle := hin.address_le
  have hfle := hin.frame_le
  unfold KernelMemory.virtualFree
  rw [hin.physical h.ok h.cr3]
  unfold pageMask at hle
  refine meets_mono (mapPages_zero_meets h.ok (by omega)) (fun e he => ?_) fun k' hk' => ?_
  · rcases he with (⟨he, -⟩ | ⟨hfalse, -⟩) | ⟨-, he⟩ | ⟨⟨i, hi, hnot⟩, -⟩ | ⟨hargs, -⟩ | ⟨-, hvalid, -⟩
    · exact Or.inl he
    · exact hfalse.elim
    · exact Or.inr he
    · -- the pages of the allocation were Free before the run
      have hturns : callTurns a.address a.size = a.size / 4096 :=
        callTurns_of_lt hin.address_page hin.size_mod (by omega)
      refine absurd (fun hset hpaging => absurd ?_ (hlive (h.paging.1.symm.trans hset)
        (a.address + 4096 * i) (by unfold pageMask; omega)
        ((h.paging.2 _).symm.trans hpaging))) hnot
      exact (hin.virt _ (by omega) (by omega)).2
    · exact absurd ⟨hin.address_page, hin.frame_page, hin.size_mod⟩ hargs
    · exact absurd ⟨hin.size_pos, by rw [h.highest]; exact hfle, hin.address_le⟩ hvalid
  · obtain ⟨hk', -, -, kt, hc⟩ := hk'
    exact h.free ha rfl hk' hc

end Steps

/-- The invariant holds in every state of a run. -/
theorem AllocRun.inv {k0 k : KernelMemory} {live : List Allocation} (h0 : Ok k0)
    (hcr3 : k0.cr3 = k0.pml4) (h : AllocRun k0 k live) : AllocInv k0 k live := by
  induction h with
  | start =>
    exact
      { ok := h0
        cr3 := hcr3
        highest := rfl
        paging := ⟨rfl, fun _ => rfl⟩
        liveIn := fun _ ha => absurd ha List.not_mem_nil
        apart := List.Pairwise.nil
        virt := fun _ _ => Or.inl rfl
        phys := fun _ _ => Or.inl rfl }
  | alloc _ hpos hmod hlt hfound hrun ih =>
    exact (ih.virtualAlloc_meets hpos hmod hlt hfound _ _).of_eq_ok hrun
  | free _ hmem hrun ih => exact (ih.virtualFree_meets hmem h0.live).of_eq_ok hrun

theorem LiveIn.translation {k0 k : KernelMemory} {a : Allocation} (h : LiveIn k0 k a) (hk : Ok k)
    (hcr3 : k.cr3 = k.pml4) {i : ℕ} (hi : i < a.size) :
    k.getPhysicalAddress (a.address + i) true = a.frame + i := by
  have hvmod := h.address_page.mod
  have hpage : (a.address + 4096 * (i / 4096)) / 4096 = (a.address + i) / 4096 := by omega
  have hframe := h.mapped (i / 4096) (by omega)
  rw [frame_congr (word_congr k hpage)] at hframe
  rw [getPhysicalAddress_live hk hcr3, getPhysicalAddress_eq_frame hk.tables, hframe]
  simp only [Option.elim_some]
  omega

/-- In every state of a run without refills the live allocations own disjoint
addresses and disjoint frames, all of them Used, and all of them Free before
the run. -/
theorem live_allocations_disjoint (k0 : KernelMemory) (h0 : Ok k0) (hcr3 : k0.cr3 = k0.pml4)
    (k : KernelMemory) (live : List Allocation) (h : AllocRun k0 k live) :
    live.Pairwise (fun a b => ∀ i < a.size, ∀ j < b.size,
      a.address + i ≠ b.address + j ∧
      k.getPhysicalAddress (a.address + i) true ≠ k.getPhysicalAddress (b.address + j) true) ∧
    ∀ a ∈ live, ∀ i < a.size, ∃ f, k.getPhysicalAddress (a.address + i) true = f ∧
      f = a.frame + i ∧ pageSize ≤ a.address + i ∧ pageSize ≤ f ∧
      k.virtualMemoryState.getPageState (a.address + i) = .used ∧
      k.physicalMemoryState.getPageState f = .used ∧
      k0.virtualMemoryState.getPageState (a.address + i) = .free ∧
      k0.physicalMemoryState.getPageState f = .free := by
  have hinv := h.inv h0 hcr3
  constructor
  · refine hinv.apart.imp_of_mem fun {a b} ha hb hab i hi j hj => ?_
    have hvirt := hab.virt
    have hphys := hab.phys
    rw [(hinv.liveIn a ha).translation hinv.ok hinv.cr3 hi,
      (hinv.liveIn b hb).translation hinv.ok hinv.cr3 hj]
    omega
  · intro a ha i hi
    have hin := hinv.liveIn a ha
    have hlow := hin.address_low
    have hflow := hin.frame_low
    have hvirt := hin.virt (a.address + i) (by omega) (by omega)
    have hphys := hin.phys (a.frame + i) (by omega) (by omega)
    exact ⟨_, hin.translation hinv.ok hinv.cr3 hi, rfl, by unfold pageSize; omega,
      by unfold pageSize; omega, hvirt.1, hphys.1, hvirt.2, hphys.2⟩

/-- The example machine with its tables in CR3. -/
def machineLoaded : KernelMemory := preparePML4 (machine 16 sixteen_pages) (fun _ _ => 0) 0x200000 []

/-- Page 0 is mapped, then two blocks are allocated. -/
def twoAllocations : Except Fault (KernelMemory × KernelMemory × KernelMemory) := do
  let k0 ← machineLoaded.mapPages 0 0 0 0x1000 readWriteMapping
  let (a, k1) ← k0.virtualAlloc 0 0x2000 .kernel pageFlagsNone
  let (b, k2) ← k1.virtualAlloc 0 0x1000 .user pageFlagsNone
  let v ← k0.virtualMemoryState.findMinimumSizeFreeBlock 0x2000
  let w ← k1.virtualMemoryState.findMinimumSizeFreeBlock 0x1000
  require (a ≠ 0 ∧ b ≠ 0 ∧ v ≠ 0 ∧ w ≠ 0) .splitBound
  return (k0, k1, k2)

theorem live_allocations_disjoint_two :
    ∃ k0 k live, AllocRun k0 k live ∧ live.length = 2 ∧
      live.Pairwise (fun a b => ∀ i < a.size, ∀ j < b.size,
        a.address + i ≠ b.address + j ∧
        k.getPhysicalAddress (a.address + i) true ≠ k.getPhysicalAddress (b.address + j) true) := by
  have hok : Ok machineLoaded :=
    ok_preparePML4 (machine 16 (by decide)) _ _ _ fun _ h => absurd h List.not_mem_nil
  have hrun : errorOf twoAllocations = none := by decide +kernel
  obtain ⟨⟨k0, k1, k2⟩, hrun⟩ := exists_ok_of_errorOf hrun
  unfold twoAllocations at hrun
  obtain ⟨k0, hmap, hrun⟩ := bind_eq_ok.mp hrun
  obtain ⟨⟨a, k1⟩, h1, hrun⟩ := bind_eq_ok.mp hrun
  obtain ⟨⟨b, k2⟩, h2, hrun⟩ := bind_eq_ok.mp hrun
  obtain ⟨v, hv, hrun⟩ := bind_eq_ok.mp hrun
  obtain ⟨w, hw, hrun⟩ := bind_eq_ok.mp hrun
  obtain ⟨u, hne, -⟩ := bind_eq_ok.mp hrun
  obtain ⟨ha, hb, hv0, hw0⟩ := require_eq_ok.mp hne
  obtain ⟨h0, kt, hc⟩ := mapPages_eq_ok hok (by decide) hmap
  have hrun1 := AllocRun.start.alloc (by decide) (by decide) (by decide)
    (fun h => hv0 (Except.ok.inj (hv.symm.trans h))) h1
  have hrun2 := hrun1.alloc (by decide) (by decide) (by decide)
    (fun h => hw0 (Except.ok.inj (hw.symm.trans h))) h2
  refine ⟨k0, k2, _, hrun2, ?_,
    (live_allocations_disjoint k0 h0 (hc.cr3_eq rfl) k2 _ hrun2).1⟩
  rw [if_neg hb, if_neg ha]
  rfl

end Enkel.Paging
