import Enkel.Progress

/-!
The system call sys_memory_map. Given an address, it asks whether every page of
the range is mapped at all, and then maps the range anew for the user. What is
read from a volume goes into the buffer and is left out.
-/
namespace Enkel.Paging

open Outcome MemoryState KernelMemory

/-- What the system call asks of the volumes: whether the volume of a file is
implemented and lies below two segments, and where the framebuffer is. -/
structure Volumes where
  isDevice : ℤ → Bool
  framebufferBase : ℕ

/-- The pointer that stands for the error ENOMEM. -/
def noMemory : ℕ := sub64 0 12

/-- The arguments with which sys_memory_map calls MapPages. -/
def userMapping : Mapping :=
  { writable := true, executable := true, privilegeLevel := .user, newState := .used,
    pageFlags := pageFlagsNone }

/-- The loop of sys_memory_map over the pages of a given range. -/
def allMapped (k : KernelMemory) (address alignedSize : ℕ) : Prop :=
  ∀ i < loopTurns address (add64 address alignedSize),
    k.getPhysicalAddress (address + pageSize * i) true ≠ invalidAddress

instance (k : KernelMemory) (address alignedSize : ℕ) :
    Decidable (allMapped k address alignedSize) :=
  inferInstanceAs (Decidable (∀ i < _, _ ≠ _))

/-- The first half of sys_memory_map: `none` stands for the return of -ENOMEM. -/
def mapFixed (depth address alignedSize : ℕ) (k : KernelMemory) :
    Except Fault (Option KernelMemory) :=
  if address = 0 then
    .ok (some k)
  else if allMapped k address alignedSize then do
    let physicalAddress ← k.physicalMemoryState.findMinimumSizeFreeBlock alignedSize
    let k ← k.mapPages depth address physicalAddress alignedSize userMapping
    return some k
  else
    .ok none

/-- The memory that is returned: the address given, or a new allocation. -/
def givenMemory (depth address alignedSize : ℕ) (k : KernelMemory) :
    Except Fault (ℕ × KernelMemory) :=
  if address ≠ 0 then
    .ok (address, k)
  else
    k.virtualAlloc depth alignedSize .user pageFlagsNone

/-- The second half of sys_memory_map. A write through a null pointer stops the model. -/
def returnMemory (depth : ℕ) (volumes : Volumes) (address alignedSize : ℕ) (fd : ℤ)
    (k : KernelMemory) : Except Fault (ℕ × KernelMemory) :=
  if volumes.isDevice fd then
    .ok (volumes.framebufferBase, k)
  else if fd = -1 then do
    let (memory, k) ← givenMemory depth address alignedSize k
    require (memory ≠ 0 ∨ alignedSize = 0) (.nullPointer .sysMemoryMap)
    return (memory, k)
  else if 0 < fd then
    givenMemory depth address alignedSize k
  else
    .ok (0, k)

def sysMemoryMap (depth : ℕ) (volumes : Volumes) (address length _prot _flags : ℕ) (fd : ℤ)
    (_offset : ℕ) (k : KernelMemory) : Except Fault (ℕ × KernelMemory) := do
  let alignedSize := alignSize length pageSize
  match ← mapFixed depth address alignedSize k with
  | none => return (noMemory, k)
  | some k => returnMemory depth volumes address alignedSize fd k

/-- The file descriptors for which sys_memory_map hands out memory. -/
def takesMemory (volumes : Volumes) (fd : ℤ) : Prop :=
  volumes.isDevice fd = false ∧ (fd = -1 ∨ 0 < fd)

/-- What sys_memory_map returns when it allocates nothing. -/
def returned (volumes : Volumes) (address : ℕ) (fd : ℤ) : ℕ :=
  if volumes.isDevice fd then volumes.framebufferBase
  else if fd = -1 ∨ 0 < fd then address else 0

section Cases
variable {depth address length prot flags offset : ℕ} {volumes : Volumes} {fd : ℤ}
  {k k' : KernelMemory} {r : ℕ}

theorem returnMemory_eq_ok {alignedSize : ℕ}
    (h : returnMemory depth volumes address alignedSize fd k = .ok (r, k')) :
    ((address ≠ 0 ∨ ¬ takesMemory volumes fd) ∧ r = returned volumes address fd ∧ k' = k) ∨
      (address = 0 ∧ takesMemory volumes fd ∧
        k.virtualAlloc depth alignedSize .user pageFlagsNone = .ok (r, k')) := by
  unfold returnMemory at h
  unfold takesMemory returned
  by_cases hdevice : volumes.isDevice fd = true
  · rw [if_pos hdevice] at h
    cases h
    exact Or.inl ⟨Or.inr (by simp [hdevice]), by rw [if_pos hdevice], rfl⟩
  rw [if_neg hdevice] at h
  rw [if_neg hdevice]
  rw [Bool.not_eq_true] at hdevice
  by_cases htake : fd = -1 ∨ 0 < fd
  · have hgiven : givenMemory depth address alignedSize k = .ok (r, k') := by
      split_ifs at h with hanon
      · obtain ⟨⟨memory, k1⟩, hmemory, h⟩ := bind_eq_ok.mp h
        obtain ⟨u, -, h⟩ := bind_eq_ok.mp h
        cases h
        exact hmemory
      · exact h
      · exact absurd htake (by tauto)
    unfold givenMemory at hgiven
    split_ifs at hgiven with hzero
    · cases hgiven
      exact Or.inl ⟨Or.inl hzero, by rw [if_pos htake], rfl⟩
    · exact Or.inr ⟨not_not.mp hzero, ⟨hdevice, htake⟩, hgiven⟩
  · rw [if_neg (by tauto), if_neg (by tauto)] at h
    cases h
    exact Or.inl ⟨Or.inr fun h => htake h.2, by rw [if_neg htake], rfl⟩

/-- A call of sys_memory_map that returns has changed nothing, has mapped the
range anew, or has called VirtualAlloc. -/
theorem sysMemoryMap_eq_ok
    (h : sysMemoryMap depth volumes address length prot flags fd offset k = .ok (r, k')) :
    (address ≠ 0 ∧ ¬ allMapped k address (alignSize length pageSize) ∧ r = noMemory ∧ k' = k) ∨
    (address ≠ 0 ∧ allMapped k address (alignSize length pageSize) ∧
      r = returned volumes address fd ∧ ∃ p,
        k.physicalMemoryState.findMinimumSizeFreeBlock (alignSize length pageSize) = .ok p ∧
        k.mapPages depth address p (alignSize length pageSize) userMapping = .ok k') ∨
    (address = 0 ∧ ¬ takesMemory volumes fd ∧ r = returned volumes address fd ∧ k' = k) ∨
    (address = 0 ∧ takesMemory volumes fd ∧
      k.virtualAlloc depth (alignSize length pageSize) .user pageFlagsNone = .ok (r, k')) := by
  unfold sysMemoryMap at h
  obtain ⟨first, hfirst, h⟩ := bind_eq_ok.mp h
  unfold mapFixed at hfirst
  split_ifs at hfirst with hzero hmapped
  · cases hfirst
    rcases returnMemory_eq_ok h with ⟨htake, hr, hk⟩ | ⟨-, htake, halloc⟩
    · exact Or.inr (Or.inr (Or.inl ⟨hzero, htake.resolve_left (not_not.mpr hzero), hr, hk⟩))
    · exact Or.inr (Or.inr (Or.inr ⟨hzero, htake, halloc⟩))
  · obtain ⟨p, hp, hfirst⟩ := bind_eq_ok.mp hfirst
    obtain ⟨k1, hmap, hfirst⟩ := bind_eq_ok.mp hfirst
    cases hfirst
    rcases returnMemory_eq_ok h with ⟨-, hr, rfl⟩ | ⟨ha, -⟩
    · exact Or.inr (Or.inl ⟨hzero, hmapped, hr, p, hp, hmap⟩)
    · exact absurd ha hzero
  · cases hfirst
    cases h
    exact Or.inl ⟨hzero, hmapped, rfl, rfl⟩

/-- A range that is mapped throughout is mapped anew, to whatever the search returns. -/
theorem sysMemoryMap_fixed (ha : address ≠ 0)
    (hmapped : allMapped k address (alignSize length pageSize)) {p : ℕ}
    (hp : k.physicalMemoryState.findMinimumSizeFreeBlock (alignSize length pageSize) = .ok p)
    (hmap : k.mapPages depth address p (alignSize length pageSize) userMapping = .ok k')
    (prot flags : ℕ) (fd : ℤ) (offset : ℕ) :
    sysMemoryMap depth volumes address length prot flags fd offset k =
      .ok (returned volumes address fd, k') := by
  have hfirst : mapFixed depth address (alignSize length pageSize) k = .ok (some k') := by
    unfold mapFixed
    rw [if_neg ha, if_pos hmapped, hp, ok_bind, hmap, ok_bind]
    rfl
  unfold sysMemoryMap
  refine bind_eq_ok.mpr ⟨some k', hfirst, ?_⟩
  change returnMemory _ _ _ _ _ _ = _
  unfold returnMemory givenMemory returned
  rw [if_pos ha]
  split_ifs with hdevice hanon htake hfile htake htake
  · rfl
  · refine bind_eq_ok.mpr ⟨(address, k'), rfl, bind_eq_ok.mpr ⟨(), require_true (Or.inl ha), rfl⟩⟩
  · exact absurd (Or.inl hanon) htake
  · rfl
  · exact absurd (Or.inr hfile) htake
  · exact absurd htake (by tauto)
  · rfl

end Cases

theorem alignSize_lt (length : ℕ) : alignSize length pageSize < 2 ^ 64 :=
  Nat.and_le_right.trans_lt (by decide)

theorem alignSize_mod (length : ℕ) : alignSize length pageSize % 4096 = 0 := by
  have h := Words.and_span (add64 length (pageSize - 1)) (show 12 ≤ 64 by omega)
  have heq : alignSize length pageSize = _ := h
  rw [heq]
  omega

/-- What sys_memory_map does to the trees for a given address: a search, and both tags. -/
def fixedTrees (address size : ℕ) (trees : MemoryState × MemoryState) :
    Except Fault (ℕ × MemoryState × MemoryState) := do
  let physicalAddress ← trees.1.findMinimumSizeFreeBlock size
  let physical ← trees.1.tagRange physicalAddress (physicalAddress + size) .used
  let virt ← trees.2.tagRange address (address + size) .used
  return (physicalAddress, physical, virt)

/-- A range that is mapped throughout and holds no paging structure is mapped
anew when both tags return, whatever the search has returned. -/
theorem sysMemoryMap_fixed_ok {k : KernelMemory} (hk : Running k) (address length : ℕ) {p : ℕ}
    {physical virt : MemoryState} (hpage : PageAddress address) (ha : address ≠ 0)
    (hpos : 0 < alignSize length pageSize) (hend : address + alignSize length pageSize ≤ pageMask)
    (hmapped : ∀ x, address ≤ x → x < address + alignSize length pageSize →
      frame k x ≠ none ∧ k.isPagingPage x = false)
    (htrees : fixedTrees address (alignSize length pageSize)
      (k.physicalMemoryState, k.virtualMemoryState) = .ok (p, physical, virt))
    (hp : PageAddress p) (hpend : p + alignSize length pageSize < 2 ^ 48) (depth : ℕ)
    (volumes : Volumes) (prot flags : ℕ) (fd : ℤ) (offset : ℕ) :
    ∃ k', sysMemoryMap depth volumes address length prot flags fd offset k =
        .ok (returned volumes address fd, k') ∧ Ok k' ∧
      Called False userMapping address p (alignSize length pageSize) k
        (withTrees k physical virt) k' := by
  have hmod := alignSize_mod length
  generalize hsize : alignSize length pageSize = size at *
  unfold fixedTrees at htrees
  rw [findMinimumSizeFreeBlock_eq hk.ok.physical, ok_bind] at htrees
  obtain ⟨physical', hphysical, htrees⟩ := bind_eq_ok.mp htrees
  obtain ⟨virt', hvirt, htrees⟩ := bind_eq_ok.mp htrees
  cases htrees
  unfold pageMask at hend
  have hturns : callTurns address size = size / 4096 := callTurns_of_lt hpage hmod (by omega)
  have hin : ∀ i < callTurns address size, address + 4096 * i < address + size := fun i hi => by
    omega
  have htables : TablesPresent k address size := fun i hi =>
    tableAt_of_frame (hmapped _ (by omega) (hin i hi)).1
  obtain ⟨k', hmap, hk', -, -, hc⟩ := mapPages_enough_ok (m := userMapping) depth hk.ok hpage hp hmod
    (by omega) (fun i hi _ hpaging => by
      rw [(hmapped _ (by omega) (hin i hi)).2] at hpaging
      cases hpaging)
    (by rw [physicalEnd_of_lt hp hmod (by omega)]; exact hphysical)
    (by rw [add64_of_lt (by omega)]; exact hvirt) htables.enough
  have hall : allMapped k address size := by
    intro i hi
    have hframe := (hmapped (address + 4096 * i) (by omega) (hin i hi)).1
    rw [getPhysicalAddress_live hk.ok hk.cr3]
    exact (getPhysicalAddress_ne_invalid hk.ok.tables _).mpr hframe
  subst hsize
  exact ⟨k', sysMemoryMap_fixed ha hall (findMinimumSizeFreeBlock_eq hk.ok.physical _) hmap prot
    flags fd offset, hk', hc⟩

end Enkel.Paging
