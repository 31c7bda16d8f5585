import Enkel.LeafFlags
import Enkel.MemoryMapStates

/-!
The address space that BuildAndLoadPML4 loads. The descriptor loop maps what is in use to
itself, the gap loop touches no table, and the framebuffer is mapped last. So the kernel goes
on with the addresses that the firmware has given it, and its page tables can be reached
through the new tables: from here on it is one of the running kernels.
-/
namespace Enkel.Paging

open Outcome MemoryState KernelMemory

/-- The framebuffer: where it is used, how many bytes it has, and what GetPhysicalAddress said
of it while the tables of the firmware were in force. -/
structure FramebufferLocation where
  virtualStart : ℕ
  byteSize : ℕ
  physical : ℕ

namespace FramebufferLocation
variable (fb : FramebufferLocation)

def allocatedSize : ℕ := add64 fb.byteSize (pageSize - 1) &&& pageMask

def Covers (x : ℕ) : Prop := fb.virtualStart ≤ x ∧ x < fb.virtualStart + fb.allocatedSize

instance (x : ℕ) : Decidable (fb.Covers x) := inferInstanceAs (Decidable (_ ∧ _))

end FramebufferLocation

def framebufferMapping : Mapping :=
  { writable := true
    executable := false
    privilegeLevel := .user
    newState := .reserved
    pageFlags := pageFlagsNone }

/-- The end of BuildPML4. -/
def mapFramebuffer (depth : ℕ) (fb : FramebufferLocation) (k : KernelMemory) :
    Except Fault KernelMemory :=
  k.mapPages depth fb.virtualStart fb.physical fb.allocatedSize framebufferMapping

def buildAndLoadPML4 (start : KernelStart) (fb : FramebufferLocation) (ds : List MemoryDescriptor)
    (depth fuel : ℕ) : Option (Except BuildFault KernelMemory) :=
  (buildPML4 start ds depth fuel).map fun r => do
    let k ← r
    let k ← (mapFramebuffer depth fb k).mapError BuildFault.memory
    return loadPML4 k

/-- What is in use stays where it is. -/
def identityMap (ds : List MemoryDescriptor) : AddressMap := fun x =>
  if ∃ d ∈ ds, d.isFree = false ∧ d.Covers x then some x else none

/-- The address space that is loaded. -/
def bootMap (ds : List MemoryDescriptor) (fb : FramebufferLocation) : AddressMap :=
  mapRange (identityMap ds) fb.virtualStart fb.physical fb.allocatedSize .reserved

/-- The effect of one descriptor. -/
def keepInUse (f : AddressMap) (d : MemoryDescriptor) : AddressMap := fun x =>
  if d.isFree = false ∧ d.Covers x then some x else f x

/-- Programs can access every page that is mapped. -/
def UserPages (k : KernelMemory) : Prop :=
  ∀ x < 2 ^ 48, frame k x ≠ none → word k x &&& userCpl = userCpl

/-- A state of BuildPML4 that stands for a map. -/
structure BootState (k0 k : KernelMemory) (f : AddressMap) : Prop where
  boot : Boot k
  highest : k.physicalMemoryState.highestAddress = k0.physicalMemoryState.highestAddress
  paging : ∀ t, k.isPagingPage t = k0.isPagingPage t
  refines : RefinesMap k f
  user : UserPages k

section Steps
variable {k0 k kt k' : KernelMemory} {f : AddressMap} {m : Mapping} {v p size : ℕ}

theorem UserPages.map (h : UserPages k) (hc : Called False m v p size k kt k') (hk : Ok k)
    (hwrap : v + size < 2 ^ 64) (hm : m.newState ≠ .free) (huser : m.privilegeLevel = .user) :
    UserPages k' := by
  intro x hx hframe
  by_cases hin : v ≤ x ∧ x < v + size
  · have hi := callTurns_pos_of_mem hc.virtual_page hc.size_mod hwrap hin.1 hin.2
    have hvmod := hc.virtual_page.mod
    have hpmod := hc.physical_page.mod
    obtain ⟨-, -, hend⟩ := hc.bounds (by omega)
    have hH := hk.physical.lt
    have hp : PageAddress (p + 4096 * ((x - v) / 4096)) := ⟨by unfold Aligned; omega, by omega⟩
    have hpage : (v + 4096 * ((x - v) / 4096)) / 4096 = x / 4096 := by omega
    rcases hc.mapped.written _ hi with hw | ⟨hfalse, -⟩
    · rw [Mapping.leafEntry_mapped hm hp, word_congr k' hpage] at hw
      rw [hw, show userCpl = 2 ^ 2 from rfl, flagged_bit hp (by decide)]
      exact (m.flags_userCpl _).trans (Mapping.userBit_user huser _)
    · exact hfalse.elim
  · have hword := hc.word_outside (by omega) hx hin
    rw [frame_congr hword] at hframe
    rw [hword]
    exact h x hx hframe

/-- A range is mapped while no list is refilled. -/
theorem BootState.mapPages_meets (h : BootState k0 k f) (hv : PageAddress v) (hp : PageAddress p)
    (hpos : 0 < size) (hmod : size % 4096 = 0) (hve : v + size ≤ pageMask)
    (hpe : p + size ≤ k0.physicalMemoryState.highestAddress) (hm : m.newState ≠ .free)
    (huser : m.privilegeLevel = .user) :
    Meets Exhausted (fun k' => BootState k0 k' (mapRange f v p size m.newState))
      (k.mapPages 0 v p size m) := by
  obtain ⟨hok, hset, -⟩ := h.boot.inv
  have hwrap : v + size < 2 ^ 64 := by
    unfold pageMask at hve
    omega
  have hlt : size < 2 ^ 64 := by omega
  refine meets_mono (mapPages_zero_meets hok hlt).and_eq (fun e he => ?_) fun k' hk' => ?_
  · rcases he.2 with (⟨he, -⟩ | ⟨hfalse, -⟩) | ⟨-, he⟩ | ⟨⟨i, -, hnot⟩, -⟩ | ⟨hargs, -⟩ |
      ⟨-, hvalid, -⟩
    · exact Or.inl he
    · exact hfalse.elim
    · exact Or.inr he
    · exact absurd (fun hset' => absurd (hset.symm.trans hset') (by decide)) hnot
    · exact absurd ⟨hv, hp, hmod⟩ hargs
    · refine absurd ⟨hpos, ?_, hve⟩ hvalid
      rw [h.highest]
      exact hpe
  · obtain ⟨hmap, hok', -, -, kt, hc⟩ := hk'
    exact
      { boot := h.boot.map hlt hmap
        highest := (hc.highest_eq hok).trans h.highest
        paging := fun t => (hc.paging_quiet.2 t).trans (h.paging t)
        refines := hc.refinesMap hok hok' hwrap h.refines
        user := h.user.map hc hok hwrap hm huser }

end Steps

section Loops
variable {k0 k : KernelMemory} {f : AddressMap} {d : MemoryDescriptor} {ds : List MemoryDescriptor}
  {l : SpecialLocations} {x : ℕ}

theorem foldl_keepInUse : ds.foldl keepInUse f x =
    if ∃ d ∈ ds, d.isFree = false ∧ d.Covers x then some x else f x := by
  induction ds generalizing f with
  | nil => simp
  | cons d ds ih =>
    rw [List.foldl_cons, ih]
    unfold keepInUse
    by_cases hrest : ∃ d ∈ ds, d.isFree = false ∧ d.Covers x
    · obtain ⟨d', hd', hx⟩ := hrest
      rw [if_pos ⟨d', hd', hx⟩, if_pos ⟨d', List.mem_cons_of_mem d hd', hx⟩]
    · rw [if_neg hrest]
      by_cases hfirst : d.isFree = false ∧ d.Covers x
      · rw [if_pos hfirst, if_pos ⟨d, List.mem_cons_self, hfirst⟩]
      · rw [if_neg hfirst, if_neg]
        rintro ⟨d', hd', hx⟩
        rcases List.mem_cons.mp hd' with rfl | hd'
        · exact hfirst hx
        · exact hrest ⟨d', hd', hx⟩

theorem foldl_keepInUse_eq : ds.foldl keepInUse (fun _ => none) = identityMap ds := by
  funext x
  exact foldl_keepInUse

theorem MemoryDescriptor.newState_ne_free (d : MemoryDescriptor) : d.mapping.newState ≠ .free := by
  change (if d.isReserved then RangeState.reserved else .used) ≠ .free
  split_ifs <;> decide

/-- A descriptor that is in use is mapped to itself. -/
theorem mapRange_descriptor (hd : d.WholePages) (hfree : d.isFree = false) :
    mapRange f d.physicalStart d.physicalStart d.size d.mapping.newState = keepInUse f d := by
  funext x
  have hend : d.physicalStart + d.size = d.endAddress := by rw [hd.size_eq, hd.end_eq]
  unfold mapRange keepInUse MemoryDescriptor.Covers
  rw [hend]
  by_cases hin : d.physicalStart ≤ x ∧ x < d.endAddress
  · rw [if_pos hin, if_neg d.newState_ne_free, if_pos ⟨hfree, hin⟩]
    exact congrArg some (by omega)
  · rw [if_neg hin, if_neg fun h => hin h.2]

theorem mapDescriptor_state (h : BootState k0 k f) (hd : d.WholePages)
    (hend : d.endAddress ≤ k0.physicalMemoryState.highestAddress)
    (hzero : d.isFree = false → d.virtualStart = 0) :
    Meets Exhausted (fun k' => BootState k0 k' (keepInUse f d)) (mapDescriptor 0 l k d) := by
  obtain ⟨hfree, hmapped, hstart, hsize, hmapping⟩ := d.mark_eq l
  unfold mapDescriptor
  dsimp only
  rw [hfree, hmapped, hstart, hsize, hmapping]
  refine meets_ite (fun hisFree => ?_) fun hused => ?_
  · have hsame : keepInUse f d = f := by
      funext x
      exact if_neg fun hin => absurd (hin.1.symm.trans hisFree) (by decide)
    rw [hsame]
    exact meets_pure h
  · have hfalse := Bool.eq_false_of_not_eq_true hused
    have hat : d.mappedAt = d.physicalStart := if_pos (hzero hfalse)
    have hlt := hd.start_lt
    have hle := hd.end_le
    have hpend : d.physicalStart + d.size = d.endAddress := by rw [hd.size_eq, hd.end_eq]
    have hmod : d.size % 4096 = 0 := by
      rw [hd.size_eq]
      omega
    have hp : PageAddress d.physicalStart := by
      unfold pageMask at hle
      exact ⟨hd.aligned, by omega⟩
    rw [hat, ← mapRange_descriptor hd hfalse]
    exact h.mapPages_meets hp hp (by omega) hmod (by omega) (by omega) d.newState_ne_free rfl

theorem descriptorLoop_state (h : BootState k0 k f)
    (hds : ∀ d ∈ ds, d.WholePages ∧ d.endAddress ≤ k0.physicalMemoryState.highestAddress ∧
      (d.isFree = false → d.virtualStart = 0)) :
    Meets Exhausted (fun k' => BootState k0 k' (ds.foldl keepInUse f)) (descriptorLoop 0 l ds k) :=
  meets_foldlM (f := mapDescriptor 0 l) (g := keepInUse) ds (fun d hd _ _ hstate =>
    mapDescriptor_state hstate (hds d hd).1 (hds d hd).2.1 (hds d hd).2.2) h

/-- The gap loop tags pages and nothing else. -/
theorem BootState.gapLoop (h : BootState k0 k f) {highest fuel startP : ℕ} {m : MemoryState}
    (hrun : Paging.gapLoop ds highest fuel startP k.physicalMemoryState = some (.ok m)) :
    BootState k0 { k with physicalMemoryState := m } f := by
  induction fuel generalizing startP k with
  | zero =>
    unfold Paging.gapLoop at hrun
    split_ifs at hrun
    cases hrun
    exact h
  | succ fuel ih =>
    unfold Paging.gapLoop at hrun
    split_ifs at hrun with hdone
    · cases hrun
      exact h
    · split at hrun
      · exact ih h hrun
      · dsimp only at hrun
        split_ifs at hrun with hlast
        · cases hrun
        split at hrun
        · cases hrun
        · next m' htag =>
          have hok := h.boot.inv.1
          have hnext : BootState k0 { k with physicalMemoryState := m' } f :=
            { boot := h.boot.reserve htag
              highest := (tagRange_eq_ok hok.physical htag).2.1.trans h.highest
              paging := h.paging
              refines := h.refines
              user := h.user }
          exact @ih { k with physicalMemoryState := m' } hnext _ hrun

end Loops

section Build
variable {k k' : KernelMemory} {ds : List MemoryDescriptor} {fb : FramebufferLocation}

/-- Before the first loop nothing is mapped. -/
theorem bootState_prepare (start : KernelStart) (highest : ℕ) (hpos : 0 < highest)
    (haligned : Aligned highest) (hle : highest ≤ pageMask) :
    BootState (start.prepare highest) (start.prepare highest) fun _ => none := by
  have hboot := (describes_prepare start hpos haligned hle).boot
  obtain ⟨l, hl⟩ : ∃ l : Layout,
      start.prepare highest = preparePML4 l start.memory start.cr3 start.heapRequests :=
    ⟨{ highestAddress := highest
       pml4 := start.pml4
       initialPageTableEntries := start.initialPageTableEntries
       highest_pos := hpos
       highest_aligned := haligned
       highest_le := hle
       pml4_aligned := start.pml4_aligned
       pml4_lt := start.pml4_lt
       initial_aligned := start.initial_aligned
       initial_le := start.initial_le
       separate := start.separate }, rfl⟩
  have hnone (x : ℕ) : frame (start.prepare highest) x = none := by
    refine frame_of_word_eq_zero (word_of_tableAt_none ?_)
    rw [hl]
    cases ht : tableAt (preparePML4 l start.memory start.cr3 start.heapRequests) (path x) with
    | none => rfl
    | some t => exact absurd (tableAt_preparePML4 l _ _ _ ht).1 (by simp [path])
  refine ⟨hboot, rfl, fun _ => rfl, fun x _ => ?_, fun x _ hframe => absurd (hnone x) hframe⟩
  rw [getPhysicalAddress_eq_frame hboot.inv.1.tables, hnone]
  rfl

/-- The framebuffer can be mapped. -/
structure FramebufferLocation.Fits (fb : FramebufferLocation) (highest : ℕ) : Prop where
  virtual_page : PageAddress fb.virtualStart
  physical_page : PageAddress fb.physical
  pos : 0 < fb.byteSize
  virtual_le : fb.virtualStart + fb.byteSize ≤ pageMask
  physical_le : fb.physical + fb.byteSize ≤ highest

theorem FramebufferLocation.Fits.allocatedSize_eq {highest : ℕ} (h : fb.Fits highest) :
    fb.allocatedSize = (fb.byteSize + 4095) / 4096 * 4096 := by
  have hle := h.virtual_le
  unfold pageMask at hle
  unfold allocatedSize
  rw [and_pageMask]
  unfold add64 pageSize
  omega

/-- Both loops of BuildPML4 come to an end in a state that stands for the identity. -/
theorem buildPML4_state (start : KernelStart) (hds : IsMemoryMap ds)
    (hzero : ∀ d ∈ ds, d.isFree = false → d.virtualStart = 0) (hpos : 0 < highestEnd ds)
    {fuel : ℕ} (hfuel : 2 * ds.length + 1 ≤ fuel) :
    ∃ r, buildPML4 start ds 0 fuel = some r ∧
      Meets (fun e => ∃ f, e = .memory f ∧ Exhausted f)
        (fun k => BootState (start.prepare (highestEnd ds)) k (identityMap ds)) r := by
  obtain ⟨top, htop, htopEnd⟩ := exists_highestEnd hpos
  have haligned : Aligned (highestEnd ds) := htopEnd ▸ (hds.wholePages top htop).end_aligned
  have hle : highestEnd ds ≤ pageMask := htopEnd ▸ (hds.wholePages top htop).end_le
  have hmask : highestEnd ds &&& pageMask = highestEnd ds := by
    unfold pageMask at hle
    exact and_pageMask_of_aligned haligned (by omega)
  have hloop : Meets Exhausted _ (descriptorLoop 0 start.special ds _) :=
    descriptorLoop_meets (describes_prepare start hpos haligned hle) fun d hd =>
      ⟨hds.wholePages d hd, endAddress_le_highestEnd hd, fun hfree => Or.inl (hzero d hd hfree)⟩
  have hstate : Meets Exhausted _ (descriptorLoop 0 start.special ds _) :=
    descriptorLoop_state (bootState_prepare start _ hpos haligned hle) fun d hd =>
      ⟨hds.wholePages d hd, endAddress_le_highestEnd hd, hzero d hd⟩
  rw [foldl_keepInUse_eq] at hstate
  unfold buildPML4
  dsimp only
  rw [hmask]
  rcases hloop.ok_or_error with ⟨k, hk, hdescribes⟩ | ⟨e, he, hexhausted⟩
  · have hcount : before ds 0 ≤ ds.length := List.countP_le_length
    obtain ⟨r, hr, hmeets⟩ := gapLoop_meets hds rfl (walked_zero hdescribes)
      (show _ ≤ fuel by split_ifs <;> omega)
    rw [hk]
    dsimp only
    rw [hr]
    refine ⟨_, rfl, ?_⟩
    rcases hmeets.ok_or_error with ⟨m, rfl, -⟩ | ⟨e, rfl, f, rfl, hempty⟩
    · exact meets_ok ((hstate.of_eq_ok hk).gapLoop hr)
    · exact meets_error ⟨f, rfl, Or.inr hempty⟩
  · rw [he]
    exact ⟨_, rfl, meets_error ⟨e, rfl, hexhausted⟩⟩

/-- Loading the tables, in which the page tables stand where they were. -/
theorem BootState.load {k0 : KernelMemory} {f : AddressMap} (h : BootState k0 k f)
    (hkernel : ∀ t, k0.isPagingPage t = true → t < 2 ^ 48 ∧ f t = some t) :
    Reachable (loadPML4 k) ∧ RefinesMap (loadPML4 k) f ∧ UserPages (loadPML4 k) := by
  refine ⟨.load h.boot fun t ht => ?_, h.refines, h.user⟩
  rw [h.paging] at ht
  obtain ⟨hlt, hat⟩ := hkernel t ht
  rw [h.refines t hlt, hat]
  rfl

end Build

theorem buildPML4_eq {start : KernelStart} {ds : List MemoryDescriptor} {depth fuel : ℕ}
    {k : KernelMemory} {m : MemoryState}
    (hloop : descriptorLoop depth start.special ds (start.prepare (highestEnd ds &&& pageMask)) =
      .ok k)
    (hgap : gapLoop ds (highestEnd ds) fuel 0 k.physicalMemoryState = some (.ok m)) :
    buildPML4 start ds depth fuel = some (.ok { k with physicalMemoryState := m }) := by
  unfold buildPML4
  dsimp only
  rw [hloop]
  dsimp only
  rw [hgap]
  rfl

theorem buildAndLoadPML4_eq {start : KernelStart} {fb : FramebufferLocation}
    {ds : List MemoryDescriptor} {depth fuel : ℕ} {k k' : KernelMemory}
    (hbuild : buildPML4 start ds depth fuel = some (.ok k))
    (hmap : mapFramebuffer depth fb k = .ok k') :
    buildAndLoadPML4 start fb ds depth fuel = some (.ok (loadPML4 k')) := by
  unfold buildAndLoadPML4
  rw [hbuild]
  exact congrArg some
    (bind_eq_ok.mpr ⟨k, rfl, bind_eq_ok.mpr ⟨k', mapError_eq_ok.mpr hmap, rfl⟩⟩)

/-- A kernel image in the first GiB. -/
def lowStart : KernelStart :=
  { special := ⟨0, 0, 0, 0, 0⟩
    pml4 := 0x300000
    initialPageTableEntries := 0x301000
    memory := fun _ _ => 0
    cr3 := 0
    heapRequests := [[4096]]
    pml4_aligned := by decide
    pml4_lt := by decide
    initial_aligned := by decide
    initial_le := by decide
    separate := by decide
    heap_lt := by simp }

/-- One GiB of the kernel, and a little free memory behind a gap. -/
def lowMap : List MemoryDescriptor :=
  [⟨efiLoaderCode, 0, 0, 262144, 0⟩, ⟨efiConventionalMemory, 0x40200000, 0, 16, 0⟩]

/-- The framebuffer is in the gap. -/
def lowFramebuffer : FramebufferLocation := ⟨0x40000000, 4096, 0x40000000⟩

/-- The page states that are computed on the way. -/
def lowTrees : Except Fault (MemoryState × MemoryState × MemoryState × MemoryState × MemoryState) := do
  let physical1 ← (MemoryState.init 0x40210000).tagRange 0 0x40000000 .used
  let virt1 ← (MemoryState.init pageMask).tagRange 0 0x40000000 .used
  let physical2 ← physical1.tagRange 0x40000000 0x40200000 .reserved
  let physical3 ← physical2.tagRange 0x40000000 0x40001000 .reserved
  let virt2 ← virt1.tagRange 0x40000000 0x40001000 .reserved
  return (physical1, virt1, physical2, physical3, virt2)

theorem isMemoryMap_lowMap : IsMemoryMap lowMap := by
  refine ⟨?_, ?_⟩
  · unfold lowMap
    simp only [List.forall_mem_cons]
    exact ⟨⟨by decide, by decide, by decide⟩, ⟨by decide, by decide, by decide⟩, by simp⟩
  · unfold lowMap MemoryDescriptor.Covers MemoryDescriptor.endAddress MemoryDescriptor.size add64
      pageSize
    simp only [List.pairwise_cons, List.forall_mem_cons, List.not_mem_nil, false_implies,
      implies_true, and_true, List.Pairwise.nil]
    intro x
    omega

theorem lowFramebuffer_fits : lowFramebuffer.Fits (highestEnd lowMap) :=
  ⟨⟨by decide, by decide⟩, ⟨by decide, by decide⟩, by decide, by decide, by decide⟩

/-- One turn of the gap loop where no descriptor starts. -/
theorem gapLoop_gap {ds : List MemoryDescriptor} {highest fuel startP : ℕ} {m m' : MemoryState}
    (hne : startP ≠ highest) (hfind : ds.find? (fun d => startP = d.physicalStart) = none)
    (hlowest : lowestStart ds startP ≠ 2 ^ 64 - 1)
    (h : m.tagRange startP (lowestStart ds startP) .reserved = .ok m') :
    gapLoop ds highest (fuel + 1) startP m =
      gapLoop ds highest fuel (lowestStart ds startP) m' := by
  rw [gapLoop, if_neg hne, hfind]
  dsimp only
  rw [if_neg hlowest, h]

/-- The gap loop on that memory map. -/
theorem gapLoop_lowMap {m m' : MemoryState}
    (h : m.tagRange 0x40000000 0x40200000 .reserved = .ok m') :
    gapLoop lowMap (highestEnd lowMap) 5 0 m = some (.ok m') := by
  have hlowest : lowestStart lowMap 0x40000000 = 0x40200000 := by decide
  change gapLoop lowMap (highestEnd lowMap) 4 0x40000000 m = _
  rw [gapLoop_gap (by decide) rfl (by decide) (hlowest ▸ h), hlowest]
  rfl

/-- The map of that machine is built. -/
theorem exists_lowMap_built :
    ∃ k, buildAndLoadPML4 lowStart lowFramebuffer lowMap 0 5 = some (.ok k) := by
  have htrees : errorOf lowTrees = none := by decide +kernel
  obtain ⟨r, htrees⟩ := exists_ok_of_errorOf htrees
  unfold lowTrees at htrees
  obtain ⟨physical1, hp1, htrees⟩ := bind_eq_ok.mp htrees
  obtain ⟨virt1, hv1, htrees⟩ := bind_eq_ok.mp htrees
  obtain ⟨physical2, hp2, htrees⟩ := bind_eq_ok.mp htrees
  obtain ⟨physical3, hp3, htrees⟩ := bind_eq_ok.mp htrees
  obtain ⟨virt2, hv2, -⟩ := bind_eq_ok.mp htrees
  have hstate := bootState_prepare lowStart 0x40210000 (by decide) (by decide) (by decide)
  have hok := hstate.boot.inv.1
  have hpool : (lowStart.prepare 0x40210000).pagingFree.length = 2048 := by
    change (blockPages 0x301000 2048).length = 2048
    unfold blockPages
    rw [List.length_map, List.length_range]
  have hturns : callTurns 0 0x40000000 = 262144 := by decide
  obtain ⟨k1, hmap1, hk1, hcount, hlength, hc⟩ := mapPages_enough_ok 0
    (m := (⟨efiLoaderCode, 0, 0, 262144, 0⟩ : MemoryDescriptor).mapping) hok (v := 0) (p := 0)
    ⟨by decide, by decide⟩ ⟨by decide, by decide⟩ (show 0x40000000 % 4096 = 0 by decide) (by decide)
    (fun i _ h => by cases h) hp1 hv1 (by
      refine (missing_le_card _ _).trans ((card_callPrefixes_le _ _).trans ?_)
      rw [hpool, hturns]
      decide)
  obtain ⟨hphys, hvirt⟩ := hc.trees_quiet
  have hboot1 := hstate.boot.map (by decide) hmap1
  have htag : k1.physicalMemoryState.tagRange 0x40000000 0x40200000 .reserved = .ok physical2 := by
    rw [hphys]
    exact hp2
  have hboot2 := hboot1.reserve htag
  have hset : k1.pml4Set = false := hboot1.inv.2.1
  have hfew : 506 ≤ k1.pagingFree.length := by
    have hmissing : missingTables (lowStart.prepare 0x40210000) 0 0x40000000 ≤ 1542 := by
      refine (missing_le_card _ _).trans ((card_callPrefixes_le _ _).trans ?_)
      rw [hturns]
    omega
  have htagVirt : k1.virtualMemoryState.tagRange 0x40000000 0x40001000 .reserved = .ok virt2 := by
    rw [hvirt]
    exact hv2
  obtain ⟨k3, hmap3, -⟩ := mapPages_enough_ok 0 (m := framebufferMapping) hboot2.inv.1
    (v := 0x40000000) (p := 0x40000000) ⟨by decide, by decide⟩ ⟨by decide, by decide⟩
    (show 4096 % 4096 = 0 by decide) (by decide)
    (fun i _ h => absurd (hset.symm.trans h) (by decide)) hp3 htagVirt
    ((missing_le_card _ _).trans ((card_callPrefixes_le _ _).trans
      (le_trans (show 3 * (callTurns 0x40000000 4096 / 512 + 2) ≤ 506 by decide) hfew)))
  have hfirst : mapDescriptor 0 lowStart.special (lowStart.prepare 0x40210000)
      ⟨efiLoaderCode, 0, 0, 262144, 0⟩ = .ok k1 := by
    obtain ⟨hfree, hmapped, hstart, hsize, hmapping⟩ :=
      (⟨efiLoaderCode, 0, 0, 262144, 0⟩ : MemoryDescriptor).mark_eq lowStart.special
    unfold mapDescriptor
    dsimp only
    rw [hfree, hmapped, hstart, hsize, hmapping, if_neg (by decide)]
    exact hmap1
  have hsecond : mapDescriptor 0 lowStart.special k1 ⟨efiConventionalMemory, 0x40200000, 0, 16, 0⟩ =
      .ok k1 := by
    obtain ⟨hfree, -⟩ := (⟨efiConventionalMemory, 0x40200000, 0, 16, 0⟩ :
      MemoryDescriptor).mark_eq lowStart.special
    unfold mapDescriptor
    dsimp only
    rw [hfree, if_pos (by decide)]
    rfl
  have hloop : descriptorLoop 0 lowStart.special lowMap (lowStart.prepare 0x40210000) = .ok k1 := by
    unfold descriptorLoop lowMap
    rw [List.foldlM_cons, hfirst, ok_bind, List.foldlM_cons, hsecond, ok_bind]
    rfl
  have hhighest : highestEnd lowMap &&& pageMask = 0x40210000 := by decide
  rw [← hhighest] at hloop
  have hbuild := buildPML4_eq hloop (gapLoop_lowMap htag)
  exact ⟨loadPML4 k3, buildAndLoadPML4_eq hbuild hmap3⟩

end Enkel.Paging
