import Enkel.RegionContents

/-!
What the blocks of VirtualAlloc hold. A run allocates and frees blocks and stores to those
that are live, each store through the page tables of its moment. Over this stand separate
arrays, one for each live block: the blocks behave as if they were these arrays.
-/
namespace Enkel.AllocatedMemory

open Outcome MemoryState Paging KernelMemory TranslatedMemory FileMapping

/-- The contents of separate arrays, one for each allocation. -/
abbrev Arrays := Allocation → ℕ → UInt8

/-- Overwrite `n` bytes of one array from its byte `i` on. -/
def writeArray (a : Allocation) (i n : ℕ) (f : ℕ → UInt8) (arrays : Arrays) : Arrays :=
  Function.update arrays a (overlay i f n (arrays a))

/-- Runs from `m0`, with the live allocations and the arrays. A new block has a first word
of zero; what else it holds is not known. -/
inductive MemoryRun (m0 : Machine) : Machine → List Allocation → Arrays → Prop
  | start (arrays : Arrays) : MemoryRun m0 m0 [] arrays
  | alloc {m m' : Machine} {k : KernelMemory} {live : List Allocation} {arrays : Arrays}
      {contents : ℕ → UInt8} {address byteSize : ℕ} {privilegeLevel : PrivilegeLevel}
      {pageFlags : PageFlags} (h : MemoryRun m0 m live arrays) (hpos : 0 < byteSize)
      (hmod : byteSize % 4096 = 0) (hlt : byteSize < 2 ^ 64)
      (hfound : m.memory.virtualMemoryState.findMinimumSizeFreeBlock byteSize ≠ .ok 0)
      (hrun : m.memory.virtualAlloc 0 byteSize privilegeLevel pageFlags = .ok (address, k))
      (hnull : address ≠ 0)
      (hfirst : { m with memory := k }.store address (ByteMemory.digit 0) 8 = .ok m')
      (hcontents : ∀ i < byteSize, m'.ram (k.getPhysicalAddress address true + i) = contents i) :
      MemoryRun m0 m' (⟨address, k.getPhysicalAddress address true, byteSize⟩ :: live)
        (Function.update arrays ⟨address, k.getPhysicalAddress address true, byteSize⟩ contents)
  | allocFails {m : Machine} {k : KernelMemory} {live : List Allocation} {arrays : Arrays}
      {byteSize : ℕ} {privilegeLevel : PrivilegeLevel} {pageFlags : PageFlags}
      (h : MemoryRun m0 m live arrays) (hpos : 0 < byteSize) (hmod : byteSize % 4096 = 0)
      (hlt : byteSize < 2 ^ 64)
      (hfound : m.memory.virtualMemoryState.findMinimumSizeFreeBlock byteSize ≠ .ok 0)
      (hrun : m.memory.virtualAlloc 0 byteSize privilegeLevel pageFlags = .ok (0, k)) :
      MemoryRun m0 { m with memory := k } live arrays
  | free {m : Machine} {k : KernelMemory} {live : List Allocation} {arrays : Arrays}
      {a : Allocation} (h : MemoryRun m0 m live arrays) (hmem : a ∈ live)
      (hrun : m.memory.virtualFree 0 a.address a.size = .ok k) :
      MemoryRun m0 { m with memory := k } (live.erase a) arrays
  | store {m m' : Machine} {live : List Allocation} {arrays : Arrays} {a : Allocation} {i n : ℕ}
      {f : ℕ → UInt8} (h : MemoryRun m0 m live arrays) (hmem : a ∈ live) (hin : i + n ≤ a.size)
      (hrun : m.store (a.address + i) f n = .ok m') :
      MemoryRun m0 m' live (writeArray a i n f arrays)

section Blocks
variable {m0 m m' : Machine} {live : List Allocation} {arrays : Arrays} {a b : Allocation}
  {i n : ℕ} {f : ℕ → UInt8}

/-- Where an access to a live block ends up. -/
theorem translate_live (h : AllocInv m0.memory m.memory live) (ha : a ∈ live) (hi : i < a.size) :
    FileMapping.translate m.memory (a.address + i) =
      if a.address + i < 2 ^ 47 then some (a.frame + i) else none := by
  have hin := h.liveIn a ha
  have hend := hin.address_le
  have hframe := hin.frame_le
  have htop := h.ok.physical.lt
  rw [h.highest] at htop
  unfold pageMask at hend
  have hvalid : a.frame + i ≠ invalidAddress := by
    unfold invalidAddress
    omega
  have hcanonical : Canonical (a.address + i) ↔ a.address + i < 2 ^ 47 := by
    unfold Canonical
    omega
  unfold FileMapping.translate
  rw [hin.translation h.ok h.cr3 hi]
  by_cases hlow : a.address + i < 2 ^ 47
  · rw [if_pos ⟨hcanonical.mpr hlow, hvalid⟩, if_pos hlow]
  · rw [if_neg fun hboth => hlow (hcanonical.mp hboth.1), if_neg hlow]

/-- A range of a live block below the upper half is shifted to its frames. -/
theorem linear_live (h : AllocInv m0.memory m.memory live) (ha : a ∈ live) (hin : i + n ≤ a.size)
    (hlow : a.address + i + n ≤ 2 ^ 47) :
    Linear (FileMapping.translate m.memory) (a.address + i) (a.frame + i) n := by
  intro j hj
  rw [Nat.mod_eq_of_lt (by omega), Nat.add_assoc, translate_live h ha (by omega),
    if_pos (by omega), Nat.add_assoc]

/-- A store to a live block succeeds exactly when it stays below the upper half. -/
theorem store_live_iff (h : AllocInv m0.memory m.memory live) (ha : a ∈ live)
    (hin : i + n ≤ a.size) :
    m.store (a.address + i) f n = .ok m' ↔ (n = 0 ∨ a.address + i + n ≤ 2 ^ 47) ∧
      m' = { m with ram := overlay (a.frame + i) f n m.ram } := by
  have hpage := (h.liveIn a ha).address_low
  have hend := (h.liveIn a ha).address_le
  unfold pageMask at hend
  constructor
  · intro hstore
    have hlow : n = 0 ∨ a.address + i + n ≤ 2 ^ 47 := by
      by_contra hnot
      have hlast := (Machine.translated_of_store hstore).1 (n - 1) (by omega)
      rw [Nat.mod_eq_of_lt (by omega), Nat.add_assoc, translate_live h ha (by omega),
        if_neg (by omega)] at hlast
      cases hlast
    refine ⟨hlow, ?_⟩
    have hlinear : Linear (FileMapping.translate m.memory) (a.address + i) (a.frame + i) n := by
      rcases hlow with rfl | hlow
      · exact fun j hj => absurd hj (Nat.not_lt_zero j)
      · exact linear_live h ha hin hlow
    rw [Machine.store_linear hlinear (Or.inl (by omega))] at hstore
    exact (Except.ok.inj hstore).symm
  · rintro ⟨hlow, rfl⟩
    apply Machine.store_linear ?_ (Or.inl (by omega))
    rcases hlow with rfl | hlow
    · exact fun j hj => absurd hj (Nat.not_lt_zero j)
    · exact linear_live h ha hin hlow

instance : Std.Symm Apart := ⟨fun _ _ => Apart.symm⟩

/-- Two live blocks that differ have no frame in common. -/
theorem frames_apart (h : AllocInv m0.memory m.memory live) (ha : a ∈ live) (hb : b ∈ live)
    (hne : a ≠ b) : a.frame + a.size ≤ b.frame ∨ b.frame + b.size ≤ a.frame :=
  (h.apart.forall ha hb hne).phys

/-- No byte of memory that was not Free before the run has changed. -/
def Kept (m0 m : Machine) : Prop :=
  ∀ x, (x < m0.memory.physicalMemoryState.highestAddress → physState m0.memory x ≠ .free) →
    m.ram x = m0.ram x

/-- The blocks hold what their arrays say. -/
structure MemoryInv (m0 m : Machine) (live : List Allocation) (arrays : Arrays) : Prop where
  alloc : AllocInv m0.memory m.memory live
  holds : ∀ a ∈ live, ∀ i < a.size, m.ram (a.frame + i) = arrays a i
  kept : Kept m0 m

theorem overlay_of_outside {start x : ℕ} {ram : ℕ → UInt8} (h : x < start ∨ start + n ≤ x) :
    overlay start f n ram x = ram x := if_neg (by omega)

/-- Frames of a live block were Free before the run. -/
theorem Kept.overlay (h : Kept m0 m) (halloc : AllocInv m0.memory m.memory live) (ha : a ∈ live)
    (hin : i + n ≤ a.size) : Kept m0 { m with ram := overlay (a.frame + i) f n m.ram } := by
  intro x hx
  have hlive := halloc.liveIn a ha
  have hend := hlive.frame_le
  refine (overlay_of_outside ?_).trans (h x hx)
  by_contra hover
  exact hx (by omega) (hlive.phys x (by omega) (by omega)).2

/-- A store to a block leaves the arrays of the others. -/
theorem MemoryInv.store (h : MemoryInv m0 m live arrays) (ha : a ∈ live) (hin : i + n ≤ a.size) :
    MemoryInv m0 { m with ram := overlay (a.frame + i) f n m.ram } live
      (writeArray a i n f arrays) := by
  refine ⟨h.alloc, fun b hb j hj => ?_, h.kept.overlay h.alloc ha hin⟩
  have hold := h.holds b hb j hj
  unfold writeArray
  by_cases heq : b = a
  · subst b
    rw [Function.update_self]
    change overlay (a.frame + i) f n m.ram (a.frame + j) = overlay i f n (arrays a) j
    unfold overlay
    by_cases hmem : i ≤ j ∧ j < i + n
    · rw [if_pos (by omega), if_pos hmem, Nat.add_sub_add_left]
    · rw [if_neg (by omega), if_neg hmem]
      exact hold
  · have hapart := frames_apart h.alloc ha hb (Ne.symm heq)
    rw [Function.update_of_ne heq]
    exact (overlay_of_outside (by omega)).trans hold

/-- A new block leaves the arrays of the others. -/
theorem MemoryInv.alloc_block (h : MemoryInv m0 m live arrays) {k : KernelMemory}
    {contents : ℕ → UInt8} (halloc : AllocInv m0.memory k (a :: live)) (hpos : 8 ≤ a.size)
    (hfirst : { m with memory := k }.store a.address (ByteMemory.digit 0) 8 = .ok m')
    (hcontents : ∀ i < a.size, m'.ram (a.frame + i) = contents i) :
    MemoryInv m0 m' (a :: live) (Function.update arrays a contents) := by
  have hmem : a ∈ a :: live := List.mem_cons_self
  obtain ⟨-, rfl⟩ := (store_live_iff (m := { m with memory := k }) (i := 0) halloc hmem
    (by omega)).mp hfirst
  have hkept : Kept m0 { m with memory := k } := h.kept
  refine ⟨halloc, fun b hb j hj => ?_, hkept.overlay halloc hmem (by omega)⟩
  by_cases heq : b = a
  · subst b
    rw [Function.update_self]
    exact hcontents j hj
  · have hlive : b ∈ live := (List.mem_cons.mp hb).resolve_left heq
    have hapart := frames_apart (m := { m with memory := k }) halloc hmem hb (Ne.symm heq)
    rw [Function.update_of_ne heq]
    exact (overlay_of_outside (by omega)).trans (h.holds b hlive j hj)

theorem MemoryRun.inv (h0 : Ok m0.memory) (hcr3 : m0.memory.cr3 = m0.memory.pml4)
    (h : MemoryRun m0 m live arrays) : MemoryInv m0 m live arrays := by
  induction h with
  | start arrays =>
    exact ⟨AllocRun.start.inv h0 hcr3, fun a ha => absurd ha List.not_mem_nil, fun x _ => rfl⟩
  | alloc h hpos hmod hlt hfound hrun hnull hfirst hcontents ih =>
    have halloc := (ih.alloc.virtualAlloc_meets hpos hmod hlt hfound _ _).of_eq_ok hrun
    rw [if_neg hnull] at halloc
    exact ih.alloc_block halloc (by dsimp only; omega) hfirst hcontents
  | allocFails h hpos hmod hlt hfound hrun ih =>
    have halloc := (ih.alloc.virtualAlloc_meets hpos hmod hlt hfound _ _).of_eq_ok hrun
    rw [if_pos rfl] at halloc
    exact ⟨halloc, ih.holds, ih.kept⟩
  | free h hmem hrun ih =>
    have hfree := (ih.alloc.virtualFree_meets hmem h0.live).of_eq_ok hrun
    exact ⟨hfree, fun b hb => ih.holds b (List.mem_of_mem_erase hb), ih.kept⟩
  | store h hmem hin hrun ih =>
    obtain ⟨-, rfl⟩ := (store_live_iff ih.alloc hmem hin).mp hrun
    exact ih.store hmem hin

/-- A block that VirtualAlloc finds below the upper half can be written. -/
theorem MemoryRun.exists_alloc (h0 : Ok m0.memory) (hcr3 : m0.memory.cr3 = m0.memory.pml4)
    (h : MemoryRun m0 m live arrays) {k : KernelMemory} {address byteSize : ℕ}
    {privilegeLevel : PrivilegeLevel} {pageFlags : PageFlags} (hpos : 0 < byteSize)
    (hmod : byteSize % 4096 = 0) (hlow : address + byteSize ≤ 2 ^ 47)
    (hfound : m.memory.virtualMemoryState.findMinimumSizeFreeBlock byteSize ≠ .ok 0)
    (hrun : m.memory.virtualAlloc 0 byteSize privilegeLevel pageFlags = .ok (address, k))
    (hnull : address ≠ 0) : ∃ m' arrays' frame, k = m'.memory ∧
      MemoryRun m0 m' (⟨address, frame, byteSize⟩ :: live) arrays' := by
  have hlt : byteSize < 2 ^ 64 := by omega
  have halloc := ((h.inv h0 hcr3).alloc.virtualAlloc_meets hpos hmod hlt hfound _ _).of_eq_ok hrun
  rw [if_neg hnull] at halloc
  have hstore := (store_live_iff (m := { m with memory := k }) (i := 0) (n := 8)
    (f := ByteMemory.digit 0) halloc List.mem_cons_self (by dsimp only; omega)).mpr
      ⟨Or.inr (by dsimp only; omega), rfl⟩
  exact ⟨_, _, _, (Machine.memory_of_store hstore).symm,
    h.alloc hpos hmod hlt hfound hrun hnull hstore fun _ _ => rfl⟩

/-- A live block below the upper half can be written. -/
theorem MemoryRun.exists_store (h0 : Ok m0.memory) (hcr3 : m0.memory.cr3 = m0.memory.pml4)
    (h : MemoryRun m0 m live arrays) (ha : a ∈ live) (hin : i + n ≤ a.size)
    (hlow : a.address + i + n ≤ 2 ^ 47) (f : ℕ → UInt8) :
    ∃ m', MemoryRun m0 m' live (writeArray a i n f arrays) :=
  ⟨_, h.store ha hin ((store_live_iff (h.inv h0 hcr3).alloc ha hin).mpr ⟨Or.inr hlow, rfl⟩)⟩

end Blocks

/-- The example machine with page 0 mapped, and two blocks below the upper half. -/
def twoBlocks : Except Fault (KernelMemory × ℕ × KernelMemory × ℕ × KernelMemory) := do
  let k0 ← machineLoaded.mapPages 0 0 0 0x1000 readWriteMapping
  let (a, k1) ← k0.virtualAlloc 0 0x2000 .kernel pageFlagsNone
  let (b, k2) ← k1.virtualAlloc 0 0x1000 .user pageFlagsNone
  let v ← k0.virtualMemoryState.findMinimumSizeFreeBlock 0x2000
  let w ← k1.virtualMemoryState.findMinimumSizeFreeBlock 0x1000
  require (a ≠ 0 ∧ b ≠ 0 ∧ v ≠ 0 ∧ w ≠ 0 ∧ a + 0x2000 ≤ 2 ^ 47 ∧ b + 0x1000 ≤ 2 ^ 47) .splitBound
  return (k0, a, k1, b, k2)

end Enkel.AllocatedMemory
