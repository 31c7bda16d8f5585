import Enkel.OpenedFiles
import Enkel.Protection
import Enkel.SpanReleases

/-!
Opens and closes of /dev/fb0. Every open allocates a block and notes it in the same two
variables, and every close frees the block that they name. So a second open before the
close of the first loses a block, and its close is given a null pointer; opens and closes
that take turns give back what they take. BreakPath reads on behind a path below a mount
point, so what follows the path in memory is part of a call.
-/
namespace Enkel.FramebufferRuns

open Outcome MemoryState Paging KernelMemory VolumeCalls
open VolumeSystem (VolumeIndices breakPathTurn readChar scanPage)
open VolumeSystem.FileHandleMask
open SpanMapping (Holds Frees holds_of_alloc)

def fb0 : List ℕ := units "/dev/fb0"

/-- The handle of the framebuffer. -/
def fbHandle (volumeHandle : ℕ) : ℕ := setFileHandle 0 (setFileHandle 0 volumeHandle)

/-- BreakPath of a path that the characters `behind` follow after its NUL. -/
def breakPathIn {V : Type} (xxh64 : List ℕ → ℕ) (pages : VolumeIndices V) (path behind : List ℕ) :
    Except VolumeSystem.Fault (ℕ × ℕ) := do
  let c ← (List.range path.length).foldlM (breakPathTurn xxh64 pages (path ++ 0 :: behind))
    ⟨0, 0, 0⟩
  return (c.handle, c.base)

/-- VolumeOpenHandle of that path. -/
def volumeOpenPath (depth : ℕ) (devices : Devices) (xxh64 : List ℕ → ℕ) (path behind : List ℕ)
    (s : System) : Except VolumeCalls.Fault (Opened × System) := do
  let (volumeHandle, base) ← (breakPathIn xxh64 s.volumeIndices path behind).mapError .path
  match ← s.volumeOf volumeHandle with
  | none => return (.nothing einval, s)
  | some (volume, _) =>
    let rest := ((path ++ 0 :: behind).drop base).takeWhile (· ≠ 0)
    volume.openHandle depth devices s volumeHandle rest

/-- Whatever follows it, the path leads to the volume of the devices at /dev/. -/
structure Leads (xxh64 : List ℕ → ℕ) (s : System) (volumeHandle : ℕ) : Prop where
  path : ∀ behind : List ℕ, fb0.length ≤ behind.length →
    breakPathIn xxh64 s.volumeIndices fb0 behind = .ok (volumeHandle, 4)
  device : s.implementation volumeHandle = some .device

/-- The call returns, unless the tree nodes run out. -/
def Returns {α : Type} (x : Except VolumeCalls.Fault α) : Prop :=
  Meets (fun e => ∃ fault, e = .memory fault ∧ fault.NodeListEmpty) (fun _ => True) x

/-- Every page and every frame that was Free is Free again. -/
structure Restored (k0 k : KernelMemory) : Prop where
  virt : ∀ x < pageMask, virtState k0 x = .free → virtState k x = .free
  phys : ∀ x < k0.physicalMemoryState.highestAddress, physState k0 x = .free →
    physState k x = .free

section Runs
variable (depth : ℕ) (devices : Devices) (xxh64 : List ℕ → ℕ)
  (fits : List ℕ → System → Prop) (s0 : System)

/-- Opens of the framebuffer that fit, and closes of handles that are open. -/
inductive Run : List ℕ → System → Prop
  | start : Run [] s0
  | opens {handles behind : List ℕ} {s s' : System} {opened : Opened} (h : Run handles s)
      (hfits : fits handles s) (hbehind : fb0.length ≤ behind.length)
      (hopen : volumeOpenPath depth devices xxh64 fb0 behind s = .ok (opened, s')) :
      Run (opened.value :: handles) s'
  | closes {handles : List ℕ} {s s' : System} {handle : ℕ} (h : Run handles s)
      (hmem : handle ∈ handles) (hclose : s.volumeCloseHandle depth handle = .ok s') :
      Run (handles.erase handle) s'

/-- What is asked of a state of a run: the next call returns, and once all the handles are
closed the pages are back. -/
structure Balanced (handles : List ℕ) (s : System) : Prop where
  opens : fits handles s → ∀ behind : List ℕ, fb0.length ≤ behind.length →
    Returns (volumeOpenPath depth devices xxh64 fb0 behind s)
  closes : ∀ handle ∈ handles, Returns (s.volumeCloseHandle depth handle)
  restored : handles = [] → Restored s0.memory s.memory

end Runs

/-- The framebuffer of the machine is mapped, its pages and frames are not Free, and none of
them holds a paging structure. -/
structure FramebufferMapped (base size : ℕ) (k : KernelMemory) : Prop where
  base_page : PageAddress base
  size_pos : 0 < size
  size_mod : size % 4096 = 0
  end_le : base + size ≤ pageMask
  mapped : ∀ x, base ≤ x → x < base + size → k.getPhysicalAddress x false ≠ invalidAddress
  frame_page : PageAddress (k.getPhysicalAddress base false)
  frames_le : k.getPhysicalAddress base false + size ≤ k.physicalMemoryState.highestAddress
  virt : ∀ x, base ≤ x → x < base + size → virtState k x ≠ .free
  phys : ∀ x, k.getPhysicalAddress base false ≤ x → x < k.getPhysicalAddress base false + size →
    physState k x ≠ .free
  not_paging : ∀ x, base ≤ x → x < base + size → k.isPagingPage x = false

/-- No framebuffer is open, there is memory for one, with the tables for its block, and that
of the machine is mapped. -/
structure OpenFits (devices : Devices) (handles : List ℕ) (s : System) : Prop where
  alone : handles = []
  found : ∃ block frames, Found s.memory block frames frameBufferAllocation ∧
    missingTables s.memory block frameBufferAllocation ≤ s.memory.pagingFree.length
  mapped : FramebufferMapped devices.framebufferBase devices.framebufferByteSize s.memory

section Blocks
variable {k kt k' : KernelMemory} {depth block frames size v p n x : ℕ} {m : Mapping}

/-- VirtualAlloc of what the searches find, when the list has the pages for its tables. -/
theorem virtualAlloc_enough_meets (depth : ℕ) (hk : Ok k) (hf : Found k block frames size)
    (hpos : 0 < size) (hmod : size % 4096 = 0)
    (hpool : missingTables k block size ≤ k.pagingFree.length) (privilegeLevel : PrivilegeLevel)
    (pageFlags : PageFlags) :
    Meets Fault.NodeListEmpty
      (fun r => r.1 = block ∧ Ok r.2 ∧
        ∃ kt, Called False (allocMapping privilegeLevel pageFlags) block frames size k kt r.2)
      (k.virtualAlloc depth size privilegeLevel pageFlags) := by
  have hle := hf.virt_le hk
  unfold pageMask at hle
  unfold KernelMemory.virtualAlloc virtualAllocWith
  rw [findMinimumSizeFreeBlock_eq hk.physical, ok_bind, hf.phys, if_neg hf.phys_ne,
    findMinimumSizeFreeBlock_eq hk.virt, ok_bind, hf.virt]
  refine meets_bind (R := fun k' => Ok k' ∧
    ∃ kt, Called False (allocMapping privilegeLevel pageFlags) block frames size k kt k')
    ?_ fun k' hk' => meets_pure ⟨rfl, hk'⟩
  refine meets_mono (mapPages_enough_meets depth hk (by omega) hpool) (fun e he => ?_)
    fun k' hk' => ⟨hk'.1, hk'.2.2.2⟩
  rcases hf.callFault hk hpos hmod he with (hfalse | ⟨hfalse, -⟩) | ⟨-, he⟩
  · exact hfalse.elim
  · exact hfalse.elim
  · exact he

/-- A block stays as it is when a call leaves its pages and its frames alone. -/
theorem holds_of_called (h : Holds k block frames n) (hk : Ok k)
    (hc : Called False m v p size k kt k') (hlt : size < 2 ^ 64) (hvle : v + size ≤ pageMask)
    (hple : p + size ≤ k.physicalMemoryState.highestAddress)
    (hvirt : ∀ x, block ≤ x → x < block + n → ¬ (v ≤ x ∧ x < v + size))
    (hphys : ∀ x, frames ≤ x → x < frames + n → ¬ (p ≤ x ∧ x < p + size)) :
    Holds k' block frames n := by
  have hble := h.block_le
  have hfle := h.frames_le
  have hklt := hk.physical.lt
  unfold pageMask at hvle hble
  refine
    { block_page := h.block_page
      frames_page := h.frames_page
      block_le := h.block_le
      frames_le := ?_
      mapped := fun i hi => ?_
      virt := fun x hlo hhi => ?_
      phys := fun x hlo hhi => ?_
      not_paging := fun x hlo hhi => ?_ }
  · rw [hc.highest_eq hk]
    exact hfle
  · rw [frame_congr (hc.word_outside hlt (by omega) (hvirt _ (by omega) (by omega)))]
    exact h.mapped i hi
  · rw [hc.virtState_quiet, hc.virt_tagged hk (by unfold pageMask; omega), add64_of_lt (by omega)]
    unfold tagged
    rw [if_neg fun hin => hvirt x hlo hhi ⟨hin.1, hin.2.1⟩]
    exact h.virt x hlo hhi
  · rw [hc.physState_quiet, hc.phys_tagged hk (by omega),
      physicalEnd_of_lt hc.physical_page hc.size_mod (by omega)]
    unfold tagged
    rw [if_neg fun hin => hphys x hlo hhi ⟨hin.1, hin.2.1⟩]
    exact h.phys x hlo hhi
  · rw [hc.paging_quiet.2]
    exact h.not_paging x hlo hhi

/-- What a call does to pages that are not Free: none of the others changes its state. -/
theorem virt_free_of_called (hk : Ok k) (hc : Called False m v p size k kt k')
    (hvle : v + size ≤ pageMask) (hne : ∀ x, v ≤ x → x < v + size → virtState k x ≠ .free)
    (hx : x < pageMask) (hfree : virtState k x = .free) : virtState k' x = .free := by
  unfold pageMask at hvle
  rw [hc.virtState_quiet, hc.virt_tagged hk hx, add64_of_lt (by omega)]
  unfold tagged
  rw [if_neg fun hin => hne x hin.1 hin.2.1 hfree]
  exact hfree

theorem phys_free_of_called (hk : Ok k) (hc : Called False m v p size k kt k')
    (hple : p + size ≤ k.physicalMemoryState.highestAddress)
    (hne : ∀ x, p ≤ x → x < p + size → physState k x ≠ .free)
    (hx : x < k.physicalMemoryState.highestAddress) (hfree : physState k x = .free) :
    physState k' x = .free := by
  have hklt := hk.physical.lt
  rw [hc.physState_quiet, hc.phys_tagged hk hx,
    physicalEnd_of_lt hc.physical_page hc.size_mod (by omega)]
  unfold tagged
  rw [if_neg fun hin => hne x hin.1 hin.2.1 hfree]
  exact hfree

end Blocks

/-- A block is held, and every other page that was Free in `k0` is Free. -/
structure HeldSince (k0 k : KernelMemory) (block frames size : ℕ) : Prop where
  holds : Holds k block frames size
  virt : ∀ x < pageMask, virtState k0 x = .free →
    virtState k x = .free ∨ block ≤ x ∧ x < block + size
  phys : ∀ x < k0.physicalMemoryState.highestAddress, physState k0 x = .free →
    physState k x = .free ∨ frames ≤ x ∧ x < frames + size

section Steps
variable {k0 k k' : KernelMemory} {depth block frames size base : ℕ}

/-- The allocation of a framebuffer. -/
theorem held_of_found {kt : KernelMemory} {level : PrivilegeLevel} {flags : PageFlags}
    (hk : Running k) (hk' : Ok k') (hf : Found k block frames size) (hpos : 0 < size)
    (hlt : size < 2 ^ 64) (hc : Called False (allocMapping level flags) block frames size k kt k')
    (halloc : k.virtualAlloc depth size level flags = .ok (block, k')) :
    HeldSince k k' block frames size := by
  have hholds := holds_of_alloc hk hpos hlt hf.virt_ne halloc
  have hframes : k'.getPhysicalAddress block false = frames := by
    have hlt52 := hc.physical_page.lt
    exact (getPhysicalAddress_eq_iff hk'.tables hc.virtual_page.aligned (by omega)).mpr
      (hc.frame_found hk.ok hf rfl (i := 0) hpos)
  rw [hframes] at hholds
  refine ⟨hholds, fun x hx hfree => ?_, fun x hx hfree => ?_⟩
  · rw [hc.virtState_quiet, hc.virt_found hk.ok hf rfl hx]
    by_cases hin : block ≤ x ∧ x < block + size
    · exact Or.inr hin
    · rw [if_neg hin]
      exact Or.inl hfree
  · rw [hc.physState_quiet, hc.phys_found hk.ok hf rfl hx]
    by_cases hin : frames ≤ x ∧ x < frames + size
    · exact Or.inr hin
    · rw [if_neg hin]
      exact Or.inl hfree

/-- The allocation leaves the translation of the framebuffer of the machine as it is. -/
theorem FramebufferMapped.translation_of_alloc {kt : KernelMemory} {level : PrivilegeLevel}
    {flags : PageFlags} {n x : ℕ} (h : FramebufferMapped base n k) (hk : Ok k) (hk' : Ok k')
    (hf : Found k block frames size) (hlt : size < 2 ^ 64)
    (hc : Called False (allocMapping level flags) block frames size k kt k')
    (hlo : base ≤ x) (hhi : x < base + n) :
    k'.getPhysicalAddress x false = k.getPhysicalAddress x false := by
  have hend := h.end_le
  unfold pageMask at hend
  refine hc.translation_outside hk hk' hlt (by omega) fun hin => ?_
  exact h.virt x hlo hhi (hf.virt_free hk hin.1 hin.2)

theorem FramebufferMapped.of_alloc {kt : KernelMemory} {level : PrivilegeLevel}
    {flags : PageFlags} {n : ℕ} (h : FramebufferMapped base n k) (hk : Ok k) (hk' : Ok k')
    (hf : Found k block frames size) (hlt : size < 2 ^ 64)
    (hc : Called False (allocMapping level flags) block frames size k kt k') :
    FramebufferMapped base n k' := by
  have hend := h.end_le
  have hle := hf.virt_le hk
  unfold pageMask at hend hle
  have hphys := fun x hlo hhi => h.translation_of_alloc hk hk' hf hlt hc (x := x) hlo hhi
  have hfirst := hphys base le_rfl (Nat.lt_add_of_pos_right h.size_pos)
  refine
    { base_page := h.base_page
      size_pos := h.size_pos
      size_mod := h.size_mod
      end_le := h.end_le
      mapped := fun x hlo hhi => (hphys x hlo hhi) ▸ h.mapped x hlo hhi
      frame_page := hfirst ▸ h.frame_page
      frames_le := ?_
      virt := fun x hlo hhi => ?_
      phys := fun x hlo hhi => ?_
      not_paging := fun x hlo hhi => ?_ }
  · rw [hfirst, hc.highest_eq hk]
    exact h.frames_le
  · rw [hc.virtState_quiet, hc.virt_found hk hf rfl (by unfold pageMask; omega),
      if_neg fun hin => h.virt x hlo hhi (hf.virt_free hk hin.1 hin.2)]
    exact h.virt x hlo hhi
  · rw [hfirst] at hlo hhi
    have hxle := h.frames_le
    rw [hc.physState_quiet, hc.phys_found hk hf rfl (by omega)]
    split_ifs
    · decide
    · exact h.phys x hlo hhi
  · rw [hc.paging_quiet.2]
    exact h.not_paging x hlo hhi

/-- VirtualProtect of the framebuffer takes no Free page. -/
theorem FramebufferMapped.virtualProtect_meets {n : ℕ} (h : FramebufferMapped base n k)
    (hk : Running k) (depth : ℕ) :
    Meets Fault.NodeListEmpty
      (fun k' => ∃ kt, Called False (protectMapping .readWrite pageFlagsNone .user) base
        (k.getPhysicalAddress base false) n k kt k')
      (k.virtualProtect depth base n .readWrite pageFlagsNone .user) := by
  have hend := h.end_le
  unfold pageMask at hend
  have htables := tablesPresent_of_mapped base n hk.ok h.base_page.aligned h.size_mod (by omega)
    h.mapped
  have hturns := callTurns_of_lt h.base_page h.size_mod (by omega)
  rw [virtualProtect_eq hk]
  refine meets_mono (mapPages_enough_meets depth hk.ok (by omega) htables.enough) ?_
    fun k' hk' => hk'.2.2.2
  rintro e (hpool | ⟨-, hempty⟩ | ⟨⟨i, hi, hnot⟩, -⟩ | ⟨hargs, -⟩ | ⟨-, hvalid, -⟩)
  · exact hpool.elim False.elim fun h => h.1.elim
  · exact hempty
  · refine absurd (fun _ hpaging => ?_) hnot
    rw [h.not_paging _ (by omega) (by omega)] at hpaging
    cases hpaging
  · exact absurd ⟨h.base_page, h.frame_page, h.size_mod⟩ hargs
  · exact absurd ⟨h.size_pos, h.frames_le, h.end_le⟩ hvalid

/-- After it the framebuffer is mapped as before. -/
theorem FramebufferMapped.of_protect {kt : KernelMemory} {n : ℕ} (h : FramebufferMapped base n k)
    (hk : Ok k) (hk' : Ok k')
    (hc : Called False (protectMapping .readWrite pageFlagsNone .user) base
      (k.getPhysicalAddress base false) n k kt k') :
    FramebufferMapped base n k' ∧
      k'.getPhysicalAddress base false = k.getPhysicalAddress base false := by
  have hend := h.end_le
  have hle := h.frames_le
  have hpos := h.size_pos
  have hklt := hk.physical.lt
  unfold pageMask at hend
  have hphys : ∀ x, base ≤ x → x < base + n →
      k'.getPhysicalAddress x false = k.getPhysicalAddress base false + (x - base) :=
    fun x hlo hhi => hc.translation_mapped hk hk' (by omega) (protectMapping_maps _ _ _) hlo hhi
  have hfirst := hphys base le_rfl (by omega)
  rw [Nat.sub_self, Nat.add_zero] at hfirst
  refine ⟨?_, hfirst⟩
  refine
    { base_page := h.base_page
      size_pos := h.size_pos
      size_mod := h.size_mod
      end_le := h.end_le
      mapped := fun x hlo hhi => ?_
      frame_page := hfirst ▸ h.frame_page
      frames_le := ?_
      virt := fun x hlo hhi => ?_
      phys := fun x hlo hhi => ?_
      not_paging := fun x hlo hhi => ?_ }
  · rw [hphys x hlo hhi]
    unfold invalidAddress
    omega
  · rw [hfirst, hc.highest_eq hk]
    exact h.frames_le
  · rw [hc.virtState_quiet]
    exact hc.tagged_ne_free hk (protectMapping_maps _ _ _) (by unfold pageMask; omega) hlo
      (by rwa [add64_of_lt (by omega)])
  · rw [hfirst] at hlo hhi
    rw [hc.physState_quiet, hc.phys_tagged hk (by omega),
      physicalEnd_of_lt hc.physical_page hc.size_mod (by omega)]
    unfold tagged
    split_ifs
    · exact protectMapping_maps _ _ _
    · exact h.phys x hlo hhi
  · rw [hc.paging_quiet.2]
    exact h.not_paging x hlo hhi

/-- It leaves a block that is held as it is. -/
theorem HeldSince.protect {kt : KernelMemory} {n : ℕ} (h : HeldSince k0 k block frames size)
    (hmapped : FramebufferMapped base n k) (hk : Ok k)
    (hhighest : k.physicalMemoryState.highestAddress = k0.physicalMemoryState.highestAddress)
    (hvirt : ∀ x, block ≤ x → x < block + size → ¬ (base ≤ x ∧ x < base + n))
    (hphys : ∀ x, frames ≤ x → x < frames + size →
      ¬ (k.getPhysicalAddress base false ≤ x ∧ x < k.getPhysicalAddress base false + n))
    (hc : Called False (protectMapping .readWrite pageFlagsNone .user) base
      (k.getPhysicalAddress base false) n k kt k') : HeldSince k0 k' block frames size := by
  have hend := hmapped.end_le
  unfold pageMask at hend
  refine ⟨holds_of_called h.holds hk hc (by omega) hmapped.end_le hmapped.frames_le hvirt hphys,
    fun x hx hfree => ?_, fun x hx hfree => ?_⟩
  · exact (h.virt x hx hfree).imp_left fun hfree =>
      virt_free_of_called hk hc hmapped.end_le hmapped.virt hx hfree
  · exact (h.phys x hx hfree).imp_left fun hfree =>
      phys_free_of_called hk hc hmapped.frames_le hmapped.phys (by omega) hfree

/-- VirtualFree of the block brings all the pages back. -/
theorem HeldSince.virtualFree_meets (h : HeldSince k0 k block frames size) (hk : Running k)
    (hhighest : k.physicalMemoryState.highestAddress = k0.physicalMemoryState.highestAddress)
    (hpos : 0 < size) (hmod : size % 4096 = 0) (depth : ℕ) :
    Meets Fault.NodeListEmpty (Restored k0) (k.virtualFree depth block size) := by
  refine meets_post (h.holds.virtualFree_meets hk hpos hmod depth) fun k' hfrees => ?_
  refine ⟨fun x hx hfree => ?_, fun x hx hfree => ?_⟩
  · rw [hfrees.virt x hx]
    split_ifs with hin
    · rfl
    · exact (h.virt x hx hfree).resolve_right hin
  · rw [hfrees.phys x (by omega)]
    split_ifs with hin
    · rfl
    · exact (h.phys x hx hfree).resolve_right hin

end Steps

section Calls
variable {depth : ℕ} {devices : Devices} {xxh64 : List ℕ → ℕ} {s s' : System}
  {volumeHandle handle : ℕ} {handles : List ℕ}

theorem frameBufferAllocation_facts : 0 < frameBufferAllocation ∧
    frameBufferAllocation % 4096 = 0 ∧ frameBufferAllocation < 2 ^ 48 := by decide

theorem deviceEntry_eq (h : fileHandle handle = 0) : deviceEntry handle = .ok () := by
  unfold deviceEntry
  rw [h]
  rfl

theorem fileHandle_zero (v : ℕ) : fileHandle (setFileHandle 0 v) = 0 :=
  FatHandles.fileHandle_setFileHandle (by decide) v

/-- By the path the framebuffer is opened. -/
theorem Leads.volumeOpenPath (h : Leads xxh64 s volumeHandle) (depth : ℕ) (devices : Devices)
    {behind : List ℕ} (hbehind : fb0.length ≤ behind.length) :
    volumeOpenPath depth devices xxh64 fb0 behind s =
      framebufferOpenHandle depth devices s (setFileHandle 0 volumeHandle) := by
  have hrest : ((fb0 ++ 0 :: behind).drop 4).takeWhile (· ≠ 0) = units "/fb0" := rfl
  have hfind : deviceSpecialPaths.findIdx? (SameText · (units "/fb0")) = some 0 := by decide
  unfold FramebufferRuns.volumeOpenPath
  rw [h.path behind hbehind, mapError_ok, ok_bind]
  dsimp only
  rw [volumeOf_implementation, ok_bind, h.device, hrest]
  simp only [Option.map_some, Volume.openHandle]
  rw [hfind]
  dsimp only
  rw [deviceEntry_eq (fileHandle_zero volumeHandle), ok_bind]

/-- And by its handle it is closed. -/
theorem Leads.volumeCloseHandle (h : Leads xxh64 s volumeHandle) (depth : ℕ) :
    s.volumeCloseHandle depth (fbHandle volumeHandle) = framebufferCloseHandle depth s := by
  have himpl : s.implementation (fbHandle volumeHandle) = some .device := by
    unfold fbHandle
    rw [ProgramRun.implementation_setFileHandle, ProgramRun.implementation_setFileHandle,
      h.device]
  unfold System.volumeCloseHandle
  rw [volumeOf_implementation, ok_bind, himpl]
  simp only [Option.map_some, Volume.closeHandle]
  have hentry : deviceEntry (fbHandle volumeHandle) = .ok () := deviceEntry_eq (fileHandle_zero _)
  rw [hentry, ok_bind]

theorem Leads.congr (h : Leads xxh64 s volumeHandle)
    (hvolumes : s'.volumeIndices = s.volumeIndices) : Leads xxh64 s' volumeHandle where
  path behind hbehind := by rw [hvolumes, h.path behind hbehind]
  device := by
    rw [← h.device]
    unfold System.implementation
    rw [hvolumes]

/-- What an open leaves: the block is held, and named by the two variables. -/
structure OpenedSince (s0 s : System) (frames : ℕ) : Prop where
  reachable : Reachable s.memory
  volumes : s.volumeIndices = s0.volumeIndices
  highest : s.memory.physicalMemoryState.highestAddress =
    s0.memory.physicalMemoryState.highestAddress
  size : s.frameBufferByteSize = frameBufferAllocation
  held : HeldSince s0.memory s.memory s.frameBufferMemory frames frameBufferAllocation

/-- What a close leaves. -/
structure ClosedSince (s0 s : System) : Prop where
  reachable : Reachable s.memory
  volumes : s.volumeIndices = s0.volumeIndices
  highest : s.memory.physicalMemoryState.highestAddress =
    s0.memory.physicalMemoryState.highestAddress
  restored : Restored s0.memory s.memory

theorem HeldSince.after {k0 k k' : KernelMemory} {block frames size : ℕ} (h : Restored k0 k)
    (hhighest : k.physicalMemoryState.highestAddress = k0.physicalMemoryState.highestAddress)
    (h' : HeldSince k k' block frames size) : HeldSince k0 k' block frames size :=
  ⟨h'.holds, fun x hx hfree => h'.virt x hx (h.virt x hx hfree),
    fun x hx hfree => h'.phys x (by omega) (h.phys x hx hfree)⟩

/-- An open of the framebuffer when none is open. -/
theorem framebufferOpenHandle_meets {s0 : System} {block frames : ℕ} (h : ClosedSince s0 s)
    (hf : Found s.memory block frames frameBufferAllocation)
    (hpool : missingTables s.memory block frameBufferAllocation ≤ s.memory.pagingFree.length)
    (hmapped : FramebufferMapped devices.framebufferBase devices.framebufferByteSize s.memory)
    (depth volumeHandle : ℕ) :
    Meets (fun e => ∃ fault, e = .memory fault ∧ fault.NodeListEmpty)
      (fun r => r.1 = .file (setFileHandle 0 volumeHandle) ∧ OpenedSince s0 r.2 frames)
      (framebufferOpenHandle depth devices s volumeHandle) := by
  obtain ⟨hpos, hmod, hlt⟩ := frameBufferAllocation_facts
  have hk := h.reachable.running
  refine meets_bind (meets_mapError (virtualAlloc_enough_meets depth hk.ok hf hpos hmod hpool
    .user pageFlagsNone).and_eq fun e he => ⟨e, rfl, he.2⟩) fun ⟨address, k1⟩ h1 => ?_
  obtain ⟨halloc, rfl, hok1, kt1, hc1⟩ := h1
  have hreach1 : Reachable k1 := by
    rcases virtualAlloc_eq_ok halloc with heq | ⟨p, hmap⟩
    · exact heq ▸ h.reachable
    · exact .map h.reachable (by omega) hmap
  have hk1 := hreach1.running
  have hheld1 := (held_of_found hk hok1 hf hpos (by omega) hc1 halloc).after h.restored h.highest
  have hmapped1 := hmapped.of_alloc hk.ok hok1 hf (by omega) hc1
  have hhighest1 := (hc1.highest_eq hk.ok).trans h.highest
  refine meets_bind (meets_mapError (hmapped1.virtualProtect_meets hk1 depth).and_eq
    fun e he => ⟨e, rfl, he.2⟩) fun k2 h2 => ?_
  obtain ⟨hprotect, kt2, hc2⟩ := h2
  have hend := hmapped1.end_le
  unfold pageMask at hend
  have hreach2 : Reachable k2 := .map hreach1 (by omega) hprotect
  have hfirst := hmapped.translation_of_alloc hk.ok hok1 hf (by omega) hc1 le_rfl
    (Nat.lt_add_of_pos_right hmapped.size_pos)
  refine meets_pure ⟨rfl,
    { reachable := hreach2
      volumes := h.volumes
      highest := (hc2.highest_eq hk1.ok).trans hhighest1
      size := rfl
      held := hheld1.protect hmapped1 hk1.ok hhighest1 (fun x hlo hhi hin => ?_)
        (fun x hlo hhi hin => ?_) hc2 }⟩
  · exact hmapped.virt x hin.1 hin.2 (hf.virt_free hk.ok hlo hhi)
  · rw [hfirst] at hin
    exact hmapped.phys x hin.1 hin.2 (hf.phys_free hk.ok hlo hhi)

/-- A close of the framebuffer that is open. -/
theorem framebufferCloseHandle_meets {s0 : System} {frames : ℕ} (h : OpenedSince s0 s frames)
    (depth : ℕ) :
    Meets (fun e => ∃ fault, e = .memory fault ∧ fault.NodeListEmpty) (ClosedSince s0)
      (framebufferCloseHandle depth s) := by
  obtain ⟨hpos, hmod, hlt⟩ := frameBufferAllocation_facts
  unfold framebufferCloseHandle
  rw [h.size]
  refine meets_bind (meets_mapError (h.held.virtualFree_meets h.reachable.running h.highest hpos
    hmod depth).and_eq fun e he => ⟨e, rfl, he.2⟩) fun k' hk' => ?_
  obtain ⟨hrun, hrestored⟩ := hk'
  have hmap : s.memory.mapPages depth s.frameBufferMemory
      (s.memory.getPhysicalAddress s.frameBufferMemory true) frameBufferAllocation freeMapping =
        .ok k' := hrun
  obtain ⟨-, kt, hc⟩ := mapPages_eq_ok h.reachable.running.ok (by omega) hmap
  have hhighest : k'.physicalMemoryState.highestAddress =
      s.memory.physicalMemoryState.highestAddress :=
    hc.highest_eq h.reachable.running.ok
  exact meets_pure
    { reachable := .map h.reachable (by omega) hmap
      volumes := h.volumes
      highest := hhighest.trans h.highest
      restored := hrestored }

/-- What holds in every state of a run whose opens fit. -/
theorem run_inv {s0 : System} (hreach : Reachable s0.memory)
    (hleads : Leads xxh64 s0 volumeHandle)
    (h : Run depth devices xxh64 (OpenFits devices) s0 handles s) :
    (handles = [] ∧ ClosedSince s0 s) ∨
      (handles = [fbHandle volumeHandle] ∧ ∃ frames, OpenedSince s0 s frames) := by
  induction h with
  | start => exact Or.inl ⟨rfl, hreach, rfl, rfl, fun _ _ h => h, fun _ _ h => h⟩
  | @opens handles behind s s' opened h hfits hbehind hopen ih =>
    rcases ih with ⟨hnil, hclosed⟩ | ⟨hone, -⟩
    · rw [(hleads.congr hclosed.volumes).volumeOpenPath depth devices hbehind] at hopen
      obtain ⟨block, frames, hf, hpool⟩ := hfits.found
      obtain ⟨rfl, hopened⟩ :=
        (framebufferOpenHandle_meets hclosed hf hpool hfits.mapped depth _).of_eq_ok hopen
      exact Or.inr ⟨by rw [hnil]; rfl, frames, hopened⟩
    · rw [hfits.alone] at hone
      cases hone
  | @closes handles s s' handle h hmem hclose ih =>
    rcases ih with ⟨rfl, -⟩ | ⟨rfl, frames, hopened⟩
    · cases hmem
    · obtain rfl := List.mem_singleton.mp hmem
      rw [(hleads.congr hopened.volumes).volumeCloseHandle] at hclose
      refine Or.inl ⟨by rw [List.erase_cons_head], ?_⟩
      exact (framebufferCloseHandle_meets hopened depth).of_eq_ok hclose

end Calls

/-- In every run of opens and closes in which a framebuffer is opened only while none is
open, and finds its memory, every close returns, and when all the handles are closed every page
that was Free before is Free again. -/
theorem framebuffer_balanced (depth : ℕ) (devices : Devices) (xxh64 : List ℕ → ℕ) (s0 : System)
    (hreach : Reachable s0.memory) {volumeHandle : ℕ}
    (hleads : Leads xxh64 s0 volumeHandle) {handles : List ℕ} {s : System}
    (hrun : Run depth devices xxh64 (OpenFits devices) s0 handles s) :
    Balanced depth devices xxh64 (OpenFits devices) s0 handles s := by
  rcases run_inv hreach hleads hrun with ⟨rfl, hclosed⟩ | ⟨rfl, frames, hopened⟩
  · refine ⟨fun hfits behind hbehind => ?_, fun _ hmem => absurd hmem List.not_mem_nil,
      fun _ => hclosed.restored⟩
    rw [(hleads.congr hclosed.volumes).volumeOpenPath depth devices hbehind]
    obtain ⟨block, frames, hf, hpool⟩ := hfits.found
    exact meets_post (framebufferOpenHandle_meets hclosed hf hpool hfits.mapped depth _)
      fun _ _ => trivial
  · refine ⟨fun hfits => absurd hfits.alone (by simp), fun handle hmem => ?_,
      fun hnil => absurd hnil (List.cons_ne_nil _ _)⟩
    obtain rfl := List.mem_singleton.mp hmem
    rw [(hleads.congr hopened.volumes).volumeCloseHandle]
    exact meets_post (framebufferCloseHandle_meets hopened depth) fun _ _ => trivial

section Example

/-- What an open does to the trees. -/
def openTrees (base frame size : ℕ) (trees : MemoryState × MemoryState) :
    Except Enkel.Fault (ℕ × ℕ × MemoryState × MemoryState) := do
  let (v, p, physical, virt) ← allocTrees frameBufferAllocation trees
  let physical ← physical.tagRange frame (frame + size) .used
  let virt ← virt.tagRange base (base + size) .used
  return (v, p, physical, virt)

/-- An open that returns a block. -/
structure OpensTo (depth : ℕ) (devices : Devices) (s : System) (volumeHandle block frames : ℕ)
    (physical virt : MemoryState) (s' : System) : Prop where
  fits : OpenFits devices [] s
  call : framebufferOpenHandle depth devices s volumeHandle =
    .ok (.file (setFileHandle 0 volumeHandle), s')
  opened : OpenedSince s s' frames
  block_eq : s'.frameBufferMemory = block
  mapped : FramebufferMapped devices.framebufferBase devices.framebufferByteSize s'.memory
  frame_eq : s'.memory.getPhysicalAddress devices.framebufferBase false =
    s.memory.getPhysicalAddress devices.framebufferBase false
  physical_eq : s'.memory.physicalMemoryState = physical
  virt_eq : s'.memory.virtualMemoryState = virt
  pool : s.memory.pagingFree.length ≤ s'.memory.pagingFree.length +
    3 * (callTurns block frameBufferAllocation / 512 + 2) +
    3 * (callTurns devices.framebufferBase devices.framebufferByteSize / 512 + 2)

theorem missingTables_le (k : KernelMemory) (v size : ℕ) :
    missingTables k v size ≤ 3 * (callTurns v size / 512 + 2) :=
  (missing_le_card _ _).trans (card_callPrefixes_le _ _)

theorem exists_opensTo (depth : ℕ) {devices : Devices} {s : System} {block frames : ℕ}
    {physical virt : MemoryState} (hreach : Reachable s.memory)
    (hmapped : FramebufferMapped devices.framebufferBase devices.framebufferByteSize s.memory)
    (htrees : openTrees devices.framebufferBase
      (s.memory.getPhysicalAddress devices.framebufferBase false) devices.framebufferByteSize
      (s.memory.physicalMemoryState, s.memory.virtualMemoryState) =
        .ok (block, frames, physical, virt)) (hblock : block ≠ 0) (hframes : frames ≠ 0)
    (hpool : 3 * (callTurns block frameBufferAllocation / 512 + 2) ≤ s.memory.pagingFree.length)
    (volumeHandle : ℕ) :
    ∃ s', OpensTo depth devices s volumeHandle block frames physical virt s' := by
  obtain ⟨hpos, hmod, hlt⟩ := frameBufferAllocation_facts
  obtain ⟨⟨v, p, physical1, virt1⟩, halloc, htrees⟩ := bind_eq_ok.mp htrees
  obtain ⟨physical2, hphysical, htrees⟩ := bind_eq_ok.mp htrees
  obtain ⟨virt2, hvirt, htrees⟩ := bind_eq_ok.mp htrees
  cases htrees
  have hk := hreach.running
  have henough := (missingTables_le s.memory block frameBufferAllocation).trans hpool
  obtain ⟨k1, hrun1, hok1, hf, -, hlength1, hc1⟩ := virtualAlloc_enough_ok depth hk.ok hmod halloc
    hblock hframes henough .user pageFlagsNone
  have hreach1 : Reachable k1 := by
    rcases virtualAlloc_eq_ok hrun1 with heq | ⟨q, hmap⟩
    · exact heq ▸ hreach
    · exact .map hreach (by omega) hmap
  have hk1 := hreach1.running
  have hmapped1 := hmapped.of_alloc hk.ok hok1 hf (by omega) hc1
  have hfirst := hmapped.translation_of_alloc hk.ok hok1 hf (by omega) hc1 le_rfl
    (Nat.lt_add_of_pos_right hmapped.size_pos)
  have hend := hmapped1.end_le
  have hend48 := hmapped1.end_le.trans (show pageMask ≤ 2 ^ 48 by decide)
  have hfle := hmapped1.frames_le
  have hH := hk1.ok.physical.lt
  unfold pageMask at hend
  have htables := tablesPresent_of_mapped _ _ hk1.ok hmapped1.base_page.aligned hmapped1.size_mod
    hend48 hmapped1.mapped
  have hturns := callTurns_of_lt hmapped1.base_page hmapped1.size_mod (by omega)
  obtain ⟨k2, hrun2, hok2, -, hlength2, hc2⟩ := mapPages_enough_ok depth hk1.ok
    (m := protectMapping .readWrite pageFlagsNone .user) hmapped1.base_page hmapped1.frame_page
    hmapped1.size_mod (by omega)
    (fun i hi _ hpaging => by
      rw [hmapped1.not_paging _ (by omega) (by omega)] at hpaging
      cases hpaging)
    (by
      rw [hc1.trees_quiet.1, physicalEnd_of_lt hmapped1.frame_page hmapped1.size_mod (by omega),
        hfirst]
      exact hphysical)
    (by
      rw [hc1.trees_quiet.2, add64_of_lt (by omega)]
      exact hvirt) htables.enough
  obtain ⟨hmapped2, hframe2⟩ := hmapped1.of_protect hk1.ok hok2 hc2
  have hcall : framebufferOpenHandle depth devices s volumeHandle =
      .ok (.file (setFileHandle 0 volumeHandle),
        { s with
          memory := k2
          frameBufferMemory := block
          frameBufferByteSize := frameBufferAllocation }) := by
    unfold framebufferOpenHandle
    rw [hrun1, mapError_ok, ok_bind]
    dsimp only
    rw [virtualProtect_eq hk1, hrun2]
    rfl
  have hmissing := missingTables_le s.memory block frameBufferAllocation
  have hmissing' := missingTables_le k1 devices.framebufferBase devices.framebufferByteSize
  exact ⟨_,
    { fits := ⟨rfl, ⟨block, frames, hf, henough⟩, hmapped⟩
      call := hcall
      opened := ((framebufferOpenHandle_meets ⟨hreach, rfl, rfl, fun _ _ h => h, fun _ _ h => h⟩
        hf henough hmapped depth volumeHandle).of_eq_ok hcall).2
      block_eq := rfl
      mapped := hmapped2
      frame_eq := hframe2.trans hfirst
      physical_eq := hc2.trees_quiet.1
      virt_eq := hc2.trees_quiet.2
      pool := by
        show s.memory.pagingFree.length ≤ k2.pagingFree.length + _ + _
        omega }⟩

/-- A framebuffer of one page. -/
def devices : Devices :=
  { noDevices with
    framebufferBase := 0xB00000
    framebufferByteSize := 0x1000 }

/-- The devices are mounted with the hash 1, and no framebuffer is open. -/
def mounted (k : KernelMemory) : System :=
  { volumeIndices := fun page index =>
      if page = 2 ∧ index = 0 then ⟨1, some .device, 0⟩ else ⟨0, none, 0⟩
    fileHandles := fun _ => none
    memory := k
    frameBufferMemory := 0
    frameBufferByteSize := 0 }

def devicesHandle : ℕ := 0x20000000

/-- Turns of BreakPath that find no volume on the pages from 3 on move no pointer. -/
theorem breakPathTurns_behind {V : Type} {xxh64 : List ℕ → ℕ} {pages : VolumeIndices V}
    {path indices : List ℕ} {c : VolumeSystem.Cursor} (hhash : ∀ l, xxh64 l ≠ 0)
    (hpages : ∀ segments, 3 ≤ segments → ∀ slot, (pages segments slot).rootHash = 0)
    (hread : ∀ index ∈ indices, c.base + index ≤ path.length) (hlow : 2 ≤ c.segments)
    (hhigh : c.segments + indices.length < 8) :
    ∃ segments, indices.foldlM (breakPathTurn xxh64 pages path) c =
      .ok { c with segments := segments } := by
  induction indices generalizing c with
  | nil => exact ⟨c.segments, rfl⟩
  | cons index indices ih =>
    obtain ⟨hindex, hread⟩ := List.forall_mem_cons.mp hread
    rw [List.length_cons] at hhigh
    have hlt : c.base + index < (path ++ [0]).length := by
      rw [List.length_append, List.length_singleton]
      omega
    have hchar : readChar path (c.base + index) = .ok ((path ++ [0])[c.base + index]) := by
      unfold readChar
      rw [List.getElem?_eq_getElem hlt]
    have hturn : ∃ segments, breakPathTurn xxh64 pages path c index =
        .ok { c with segments := segments } ∧ 2 ≤ segments ∧ segments ≤ c.segments + 1 := by
      unfold breakPathTurn
      rw [hchar, ok_bind]
      dsimp only
      split_ifs
      · have hpage : c.segments + 1 < VolumeSystem.maxSegments := by
          unfold VolumeSystem.maxSegments
          omega
        refine ⟨c.segments + 1, ?_, by omega, le_rfl⟩
        rw [require_true hpage, ok_bind,
          VolumeSystem.scanPage_stop (hpages _ (by omega) 0) (hhash _)]
        rfl
      · exact ⟨c.segments, rfl, hlow, Nat.le_succ _⟩
    obtain ⟨segments, hturn, hlow', hhigh'⟩ := hturn
    obtain ⟨segments', hrest⟩ := ih (c := { c with segments := segments }) hread hlow'
      (by show segments + indices.length < 8; omega)
    exact ⟨segments', by rw [List.foldlM_cons, hturn, ok_bind, hrest]⟩

theorem leads_mounted (k : KernelMemory) : Leads (fun _ => 1) (mounted k) devicesHandle where
  path behind hbehind := by
    have hlength : (fb0 ++ 0 :: behind).length = 9 + behind.length := by
      rw [List.length_append, List.length_cons, show fb0.length = 8 from rfl]
      omega
    have hpages : ∀ segments, 3 ≤ segments → ∀ slot,
        ((mounted k).volumeIndices segments slot).rootHash = 0 := by
      intro segments hsegments slot
      show (if segments = 2 ∧ slot = 0 then _ else _ : VolumeSystem.VolumeIndex Volume).rootHash = 0
      rw [if_neg (by omega)]
    have hturn : ∀ i ∈ [1, 2, 3], breakPathTurn (fun _ => 1) (mounted k).volumeIndices
        (fb0 ++ 0 :: behind) ⟨0, 1, 0⟩ i = .ok ⟨0, 1, 0⟩ := by
      intro i hi
      simp only [List.mem_cons, List.not_mem_nil, or_false] at hi
      rcases hi with rfl | rfl | rfl <;> rfl
    have hfirst : breakPathTurn (fun _ => 1) (mounted k).volumeIndices
        (fb0 ++ 0 :: behind) ⟨0, 0, 0⟩ 0 = .ok ⟨0, 1, 0⟩ := rfl
    have hhit : breakPathTurn (fun _ => 1) (mounted k).volumeIndices
        (fb0 ++ 0 :: behind) ⟨0, 1, 0⟩ 4 = .ok ⟨4, 2, devicesHandle⟩ := rfl
    have hread : ∀ index ∈ [5, 6, 7], 4 + index ≤ (fb0 ++ 0 :: behind).length := by
      intro index hindex
      simp only [List.mem_cons, List.not_mem_nil, or_false] at hindex
      have hlen : 8 ≤ behind.length := hbehind
      omega
    obtain ⟨segments, hrest⟩ := breakPathTurns_behind (c := ⟨4, 2, devicesHandle⟩)
      (show ∀ l : List ℕ, (fun _ : List ℕ => 1) l ≠ 0 from fun _ => one_ne_zero) hpages hread le_rfl
      (by decide)
    have hrange : List.range fb0.length = [0, 1, 2, 3, 4, 5, 6, 7] := rfl
    unfold breakPathIn
    rw [hrange, List.foldlM_cons, hfirst, ok_bind, List.foldlM_cons, hturn 1 (by simp), ok_bind,
      List.foldlM_cons, hturn 2 (by simp), ok_bind, List.foldlM_cons, hturn 3 (by simp), ok_bind,
      List.foldlM_cons, hhit, ok_bind, hrest, ok_bind]
    rfl
  device := rfl

/-- On the example machine the page at 0 is unmapped, then the framebuffer is opened twice and
closed once. -/
def twoTrees : Except Enkel.Fault ((ℕ × ℕ × ℕ × ℕ) × RangeState) := do
  let trees ← machineTrees 10000
  let physical ← trees.1.tagRange 0 0x1000 .free
  let virt ← trees.2.tagRange 0 0x1000 .free
  let (v, p, physical, virt) ← openTrees 0xB00000 0xB00000 0x1000 (physical, virt)
  let (v', p', physical, virt) ← openTrees 0xB00000 0xB00000 0x1000 (physical, virt)
  let _ ← physical.tagRange p' (p' + frameBufferAllocation) .free
  let virt ← virt.tagRange v' (v' + frameBufferAllocation) .free
  return ((v, p, v', p'), virt.getPageState 0)

theorem twoTrees_eq : twoTrees =
    .ok ((0x40000000, 0x40200000, 0x412C0000, 0x414C0000), .free) := by
  decide +kernel

/-- The frames below 1 GiB are not Free. -/
theorem physState_machine {k : KernelMemory} (hm : MachineRunning 10000 (by decide) k) {x : ℕ}
    (hx : x < 0x40000000) :
    x < k.physicalMemoryState.highestAddress ∧ physState k x ≠ .free := by
  have htrees := hm.trees
  unfold machineTrees at htrees
  obtain ⟨physical1, h1, htrees⟩ := bind_eq_ok.mp htrees
  obtain ⟨physical2, h2, htrees⟩ := bind_eq_ok.mp htrees
  obtain ⟨virt, -, htrees⟩ := bind_eq_ok.mp htrees
  have hphysical := (Prod.mk.inj (Except.ok.inj htrees)).1
  obtain ⟨hv1, hhighest1, -, hstate1⟩ := tagRange_eq_ok
    (init_valid (by decide) (by decide) (by decide)) h1
  obtain ⟨-, hhighest2, -, hstate2⟩ := tagRange_eq_ok hv1 h2
  have hlt : x < (MemoryState.init (0x40200000 + 4096 * 10000)).highestAddress := by
    show x < 0x40200000 + 4096 * 10000
    omega
  have hlt1 : x < physical1.highestAddress := hhighest1 ▸ hlt
  refine ⟨by rw [← hphysical, hhighest2]; exact hlt1, ?_⟩
  unfold physState
  rw [← hphysical, hstate2 x hlt1]
  unfold tagged
  rw [if_neg (by omega), hstate1 x hlt]
  unfold tagged
  split_ifs with hin
  · decide
  · intro hfree
    exact hin ⟨Nat.zero_le x, hx, by rw [hfree]; decide⟩

/-- On the machine the framebuffer is mapped, also once the page at 0 is not. -/
theorem exists_unmapped {k0 : KernelMemory} {physical virt : MemoryState}
    (hm : MachineRunning 10000 (by decide) k0)
    (hp : k0.physicalMemoryState.tagRange 0 0x1000 .free = .ok physical)
    (hv : k0.virtualMemoryState.tagRange 0 0x1000 .free = .ok virt) :
    ∃ k, Reachable k ∧ FramebufferMapped 0xB00000 0x1000 k ∧
      k.getPhysicalAddress 0xB00000 false = 0xB00000 ∧
      k.physicalMemoryState = physical ∧ k.virtualMemoryState = virt ∧
      1500 ≤ k.pagingFree.length := by
  have hk0 := hm.reachable.running
  have hturns : callTurns 0 0x1000 = 1 := by decide
  obtain ⟨k, hrun, hok, -, hlength, hc⟩ := mapPages_enough_ok 0 hk0.ok (m := freeMapping)
    (v := 0) (p := 0) ⟨by decide, by decide⟩ ⟨by decide, by decide⟩
    (show 0x1000 % 4096 = 0 by decide) (by decide)
    (fun i hi _ hpaging => by
      rw [hm.not_paging (by omega)] at hpaging
      cases hpaging) hp hv (hm.missing_le (by decide))
  have hphys : ∀ x, 0xB00000 ≤ x → x < 0xB01000 → k.getPhysicalAddress x false = x := by
    intro x hlo hhi
    rw [hc.translation_outside hk0.ok hok (by decide) (by omega) (by omega),
      hm.identity x (by omega)]
  have hfirst := hphys 0xB00000 le_rfl (by decide)
  obtain ⟨hhighest, -⟩ := physState_machine hm (x := 0xB01000) (by decide)
  have hpool := hm.pool
  have hmissing := missingTables_le k0 0 0x1000
  rw [hturns] at hmissing
  refine ⟨k, .map hm.reachable (by decide) hrun, ?_, hfirst, hc.trees_quiet.1, hc.trees_quiet.2,
    by omega⟩
  refine
    { base_page := ⟨by decide, by decide⟩
      size_pos := by decide
      size_mod := by decide
      end_le := by decide
      mapped := fun x hlo hhi => ?_
      frame_page := by rw [hfirst]; exact ⟨by decide, by decide⟩
      frames_le := by rw [hfirst, hc.highest_eq hk0.ok]; omega
      virt := fun x hlo hhi => ?_
      phys := fun x hlo hhi => ?_
      not_paging := fun x hlo hhi => ?_ }
  · rw [hphys x hlo hhi]
    unfold invalidAddress
    omega
  · have hne := hk0.free_unmapped.ne_free_of_frame hk0.ok (by unfold pageMask; omega)
      (hm.frame_ne_none (x := x) (by omega))
    rw [hc.virtState_quiet, hc.virt_tagged hk0.ok (by unfold pageMask; omega)]
    unfold tagged
    rw [if_neg fun hin => absurd (hin.2.1.trans_le (show add64 0 0x1000 ≤ 0xB00000 by decide))
      (Nat.not_lt.mpr hlo)]
    exact hne
  · rw [hfirst] at hlo hhi
    obtain ⟨hlt, hne⟩ := physState_machine hm (x := x) (by omega)
    rw [hc.physState_quiet, hc.phys_tagged hk0.ok hlt]
    unfold tagged
    rw [if_neg fun hin => absurd (hin.2.1.trans_le (show physicalEnd 0 0x1000 ≤ 0xB00000 by decide))
      (Nat.not_lt.mpr hlo)]
    exact hne
  · rw [hc.paging_quiet.2]
    exact hm.not_paging (by omega)

/-- A close that returns. -/
theorem exists_closes {s0 s : System} {frames : ℕ} {physical virt : MemoryState}
    (h : OpenedSince s0 s frames)
    (hp : s.memory.physicalMemoryState.tagRange frames (frames + frameBufferAllocation) .free =
      .ok physical)
    (hv : s.memory.virtualMemoryState.tagRange s.frameBufferMemory
      (s.frameBufferMemory + frameBufferAllocation) .free = .ok virt) (depth : ℕ) :
    ∃ s', framebufferCloseHandle depth s = .ok s' ∧ ClosedSince s0 s' ∧ s'.frameBufferMemory = 0 ∧
      s'.frameBufferByteSize = frameBufferAllocation ∧ s'.memory.virtualMemoryState = virt := by
  obtain ⟨hpos, hmod, hlt⟩ := frameBufferAllocation_facts
  have hholds := h.held.holds
  have hk := h.reachable.running
  have hble := hholds.block_le
  have hfle := hholds.frames_le
  have hH := hk.ok.physical.lt
  unfold pageMask at hble
  have hturns := callTurns_of_lt hholds.block_page hmod (by omega)
  have hphys : s.memory.getPhysicalAddress s.frameBufferMemory true = frames := by
    have hlt52 := hholds.frames_page.lt
    rw [getPhysicalAddress_live hk.ok hk.cr3,
      getPhysicalAddress_eq_iff hk.ok.tables hholds.block_page.aligned (by omega)]
    exact hholds.mapped 0 hpos
  have hpresent : TablesPresent s.memory s.frameBufferMemory frameBufferAllocation := by
    intro i hi
    apply tableAt_of_frame
    rw [hholds.mapped i (by omega)]
    simp
  obtain ⟨k', hrun, -, -, -, hc⟩ := mapPages_enough_ok depth hk.ok (m := freeMapping)
    hholds.block_page hholds.frames_page hmod (by omega)
    (fun i hi _ hpaging => by
      rw [hholds.not_paging _ (by omega) (by omega)] at hpaging
      cases hpaging)
    (by rw [physicalEnd_of_lt hholds.frames_page hmod (by omega)]; exact hp)
    (by rw [add64_of_lt (by omega)]; exact hv) hpresent.enough
  have hcall : framebufferCloseHandle depth s =
      .ok { s with memory := k', frameBufferMemory := 0 } := by
    unfold framebufferCloseHandle KernelMemory.virtualFree
    rw [h.size, hphys]
    show (s.memory.mapPages depth s.frameBufferMemory frames frameBufferAllocation
      freeMapping).mapError _ >>= _ = _
    rw [hrun]
    rfl
  exact ⟨_, hcall, (framebufferCloseHandle_meets h depth).of_eq_ok hcall, rfl, h.size,
    hc.trees_quiet.2⟩

/-- To free what a null pointer names fails an assertion once the page at 0 is not mapped. -/
theorem virtualFree_null {k : KernelMemory} (hk : Running k) (hfree : virtState k 0 = .free)
    {size : ℕ} (hmod : size % 4096 = 0) (depth : ℕ) : k.virtualFree depth 0 size =
      .error (.assertion .mapPages "Physical address mismatch.") := by
  have hnone : frame k 0 = none := hk.free_unmapped 0 (by decide) (by decide) hfree
  have hphys : k.getPhysicalAddress 0 true = invalidAddress := by
    rw [getPhysicalAddress_live hk.ok hk.cr3, getPhysicalAddress_eq_frame hk.ok.tables, hnone]
    rfl
  have hsize : size &&& (pageSize - 1) = 0 :=
    (Nat.and_two_pow_sub_one_eq_mod size 12).trans hmod
  unfold KernelMemory.virtualFree KernelMemory.mapPages mapPagesWith
  rw [hphys, require_true hsize, ok_bind]
  rfl

/-- Two opens of the framebuffer, and a close. -/
structure TwoOpens (s0 s1 s2 s3 : System) : Prop where
  reachable : Reachable s0.memory
  leads : Leads (fun _ => 1) s0 devicesHandle
  fits : OpenFits devices [] s0
  first : framebufferOpenHandle 0 devices s0 (setFileHandle 0 devicesHandle) =
    .ok (.file (fbHandle devicesHandle), s1)
  second : framebufferOpenHandle 0 devices s1 (setFileHandle 0 devicesHandle) =
    .ok (.file (fbHandle devicesHandle), s2)
  close : framebufferCloseHandle 0 s2 = .ok s3
  volumes1 : s1.volumeIndices = s0.volumeIndices
  volumes2 : s2.volumeIndices = s0.volumeIndices
  volumes3 : s3.volumeIndices = s0.volumeIndices
  null : s3.frameBufferMemory = 0
  size : s3.frameBufferByteSize = frameBufferAllocation
  running : Running s3.memory
  unmapped : virtState s3.memory 0 = .free

theorem exists_twoOpens : ∃ s0 s1 s2 s3, TwoOpens s0 s1 s2 s3 := by
  have htrees := twoTrees_eq
  unfold twoTrees at htrees
  obtain ⟨k0, hm, htrees⟩ := exists_machineRunning_of_bind 10000 (by decide) htrees
  obtain ⟨physical0, hp0, htrees⟩ := bind_eq_ok.mp htrees
  obtain ⟨virt0, hv0, htrees⟩ := bind_eq_ok.mp htrees
  obtain ⟨⟨v, p, physical1, virt1⟩, h1, htrees⟩ := bind_eq_ok.mp htrees
  obtain ⟨⟨v', p', physical2, virt2⟩, h2, htrees⟩ := bind_eq_ok.mp htrees
  obtain ⟨physical3, hp3, htrees⟩ := bind_eq_ok.mp htrees
  obtain ⟨virt3, hv3, htrees⟩ := bind_eq_ok.mp htrees
  simp only [pure, Except.pure, Except.ok.injEq, Prod.mk.injEq] at htrees
  obtain ⟨⟨rfl, rfl, rfl, rfl⟩, hfree⟩ := htrees
  obtain ⟨k, hreach, hmapped, hfirst, rfl, rfl, hpool⟩ := exists_unmapped hm hp0 hv0
  have hturns : callTurns 0x40000000 frameBufferAllocation = 4800 := by decide
  have hturns' : callTurns 0x412C0000 frameBufferAllocation = 4800 := by decide
  have hone : callTurns devices.framebufferBase devices.framebufferByteSize = 1 := by decide
  have hframe0 : (mounted k).memory.getPhysicalAddress devices.framebufferBase false = 0xB00000 :=
    hfirst
  obtain ⟨s1, hs1⟩ := @exists_opensTo 0 devices (mounted k) _ _ _ _ hreach hmapped
    (by rw [hframe0]; exact h1) (by decide) (by decide)
    (by rw [hturns]; exact (show 33 ≤ 1500 by decide).trans hpool) (setFileHandle 0 devicesHandle)
  have hpool1 := hs1.pool
  rw [hturns, hone] at hpool1
  have hframe1 : s1.memory.getPhysicalAddress devices.framebufferBase false = 0xB00000 :=
    hs1.frame_eq.trans hfirst
  obtain ⟨s2, hs2⟩ := @exists_opensTo 0 devices _ _ _ _ _ hs1.opened.reachable hs1.mapped
    (by rw [hframe1, hs1.physical_eq, hs1.virt_eq]; exact h2) (by decide) (by decide)
    (by rw [hturns']; change k.pagingFree.length ≤ _ at hpool1; omega)
    (setFileHandle 0 devicesHandle)
  obtain ⟨s3, hclose, hclosed, hnull, hsize, hvirt⟩ := exists_closes hs2.opened
    (by rw [hs2.physical_eq]; exact hp3) (by rw [hs2.virt_eq, hs2.block_eq]; exact hv3) 0
  exact ⟨mounted k, s1, s2, s3,
    { reachable := hreach
      leads := leads_mounted k
      fits := hs1.fits
      first := hs1.call
      second := hs2.call
      close := hclose
      volumes1 := hs1.opened.volumes
      volumes2 := hs2.opened.volumes.trans hs1.opened.volumes
      volumes3 := hclosed.volumes.trans hs1.opened.volumes
      null := hnull
      size := hsize
      running := hclosed.reachable.running
      unmapped := by
        unfold virtState
        rw [hvirt]
        exact hfree }⟩

/-- The characters after the path. -/
def behind : List ℕ := List.replicate 8 0

/-- An open of the example as a step of a run. -/
theorem run_opens {fits : List ℕ → System → Prop} {s0 s s' : System} {handles : List ℕ}
    (hleads : Leads (fun _ => 1) s0 devicesHandle)
    (h : Run 0 devices (fun _ => 1) fits s0 handles s) (hfits : fits handles s)
    (hvolumes : s.volumeIndices = s0.volumeIndices)
    (hopen : framebufferOpenHandle 0 devices s (setFileHandle 0 devicesHandle) =
      .ok (.file (fbHandle devicesHandle), s')) :
    Run 0 devices (fun _ => 1) fits s0 (fbHandle devicesHandle :: handles) s' := by
  have hbehind : fb0.length ≤ behind.length := by decide
  rw [← (hleads.congr hvolumes).volumeOpenPath 0 devices hbehind] at hopen
  exact .opens h hfits hbehind hopen

theorem run_closes {fits : List ℕ → System → Prop} {s0 s s' : System} {handles : List ℕ}
    (hleads : Leads (fun _ => 1) s0 devicesHandle)
    (h : Run 0 devices (fun _ => 1) fits s0 (fbHandle devicesHandle :: handles) s)
    (hvolumes : s.volumeIndices = s0.volumeIndices)
    (hclose : framebufferCloseHandle 0 s = .ok s') :
    Run 0 devices (fun _ => 1) fits s0 handles s' := by
  rw [← (hleads.congr hvolumes).volumeCloseHandle 0] at hclose
  have hrun := Run.closes h (List.mem_cons_self ..) hclose
  rwa [List.erase_cons_head] at hrun

end Example

theorem framebuffer_balanced_open : ∃ s0 s : System, Reachable s0.memory ∧
    Leads (fun _ => 1) s0 devicesHandle ∧
    Run 0 devices (fun _ => 1) (OpenFits devices) s0 [fbHandle devicesHandle] s ∧
    Balanced 0 devices (fun _ => 1) (OpenFits devices) s0 [fbHandle devicesHandle] s := by
  obtain ⟨s0, s1, s2, s3, h⟩ := exists_twoOpens
  have hrun := run_opens h.leads (@Run.start _ _ _ (OpenFits devices) s0) h.fits rfl h.first
  exact ⟨s0, s1, h.reachable, h.leads, hrun,
    framebuffer_balanced 0 devices (fun _ => 1) s0 h.reachable h.leads hrun⟩

/-- Two users open the framebuffer, and both close it: the second close fails an assertion. -/
theorem second_close_asserts : ∃ s0 s : System, Reachable s0.memory ∧
    Leads (fun _ => 1) s0 devicesHandle ∧
    Run 0 devices (fun _ => 1) (fun _ _ => True) s0 [fbHandle devicesHandle] s ∧
    s.volumeCloseHandle 0 (fbHandle devicesHandle) =
      .error (.memory (.assertion .mapPages "Physical address mismatch.")) ∧
    ¬ Balanced 0 devices (fun _ => 1) (fun _ _ => True) s0 [fbHandle devicesHandle] s := by
  obtain ⟨s0, s1, s2, s3, h⟩ := exists_twoOpens
  have hrun1 := run_opens h.leads (@Run.start _ _ _ (fun _ _ => True) s0) trivial rfl h.first
  have hrun2 := run_opens h.leads hrun1 trivial h.volumes1 h.second
  have hrun3 := run_closes h.leads hrun2 h.volumes2 h.close
  have hclose : s3.volumeCloseHandle 0 (fbHandle devicesHandle) =
      .error (.memory (.assertion .mapPages "Physical address mismatch.")) := by
    rw [(h.leads.congr h.volumes3).volumeCloseHandle]
    unfold framebufferCloseHandle
    rw [h.null, h.size, virtualFree_null h.running h.unmapped frameBufferAllocation_facts.2.1 0]
    rfl
  refine ⟨s0, s3, h.reachable, h.leads, hrun3, hclose, fun hbalanced => ?_⟩
  have hreturns := hbalanced.closes _ (List.mem_singleton_self _)
  rw [hclose] at hreturns
  unfold Returns Meets at hreturns
  obtain ⟨fault, hfault, hempty⟩ := hreturns
  cases hfault
  rcases hempty with hempty | hempty <;> cases hempty

end Enkel.FramebufferRuns
