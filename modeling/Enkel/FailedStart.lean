import Enkel.ProgramRun

/-!
A start that fails. Up to the point where CreateProcess gives up, pages only become Used,
but for the buffer of the file, which is freed again. So the stack, which was allocated
before anything could fail, is still there.
-/
namespace Enkel.Paging

open Outcome MemoryState KernelMemory

/-- No page that is in use has become Free. -/
def KeepsPages (k k' : KernelMemory) : Prop :=
  ∀ x < pageMask, virtState k x ≠ .free → virtState k' x ≠ .free

section Keeps
variable {depth size a v p : ℕ} {k kt k' : KernelMemory} {m : Mapping}

theorem Called.keepsPages (h : Called True m v p size k kt k') (hk : Ok k)
    (hm : m.newState ≠ .free) : KeepsPages k k' := by
  intro x hx hused
  have htagged : virtState kt x ≠ .free := by
    rw [h.virt_tagged hk hx]
    unfold tagged
    split_ifs
    · exact hm
    · exact hused
  rw [h.mapped.env.virt_of_ne_free hx htagged]
  exact htagged

/-- A size is a word. -/
theorem mapPagesWith_mod (getPage : PageSource) : mapPagesWith getPage v p (size % 2 ^ 64) m k =
    mapPagesWith getPage v p size m k := by
  have hmask : ∀ n, n &&& (pageSize - 1) = n % 4096 := fun n => Nat.and_two_pow_sub_one_eq_mod n 12
  have hend : add64 v (size % 2 ^ 64) = add64 v size := Nat.add_mod_mod _ _ _
  have hsize : add64 (size % 2 ^ 64) (pageSize - 1) = add64 size (pageSize - 1) :=
    Nat.mod_add_mod _ _ _
  have hmod : size % 2 ^ 64 % 4096 = size % 4096 := by omega
  unfold mapPagesWith
  rw [hmask, hmask, hmod, hend, hsize]

theorem Running.mapPages (hk : Running k) (hm : m.newState ≠ .free) :
    Meets (fun _ => True) (fun k' => Running k' ∧ KeepsPages k k')
      (k.mapPages depth v p size m) := by
  have hlt : size % 2 ^ 64 < 2 ^ 64 := Nat.mod_lt _ (Nat.two_pow_pos 64)
  unfold KernelMemory.mapPages
  rw [← mapPagesWith_mod]
  refine meets_post (mapPages_meets depth hk.ok hlt) fun k' hk' => ?_
  obtain ⟨hok, kt, hc⟩ := hk'
  exact ⟨hk.of_called hok hlt hc, hc.keepsPages hk.ok hm⟩

/-- What VirtualAlloc returns was Free, and is in use. -/
structure Handed (k k' : KernelMemory) (address size : ℕ) : Prop where
  le : address + size ≤ pageMask
  before : ∀ x, address ≤ x → x < address + size → virtState k x = .free
  after : ∀ x, address ≤ x → x < address + size → virtState k' x ≠ .free

theorem Called.size_pos {refill : Prop} (h : Called refill m v p size k kt k') (hk : Ok k)
    (hm : m.newState = .used) (hfree : virtState k v = .free) : 0 < size := by
  by_contra hzero
  obtain rfl : size = 0 := by omega
  obtain ⟨physical, virt, -, -, hvirt⟩ := h.tags
  have hend : add64 v 0 = v := by
    have hlt := h.virtual_page.lt
    rw [add64_of_lt (by omega), Nat.add_zero]
  rw [hend, hm] at hvirt
  have hle := (tagRange_eq_ok hk.virt hvirt).2.2.1
  exact (tagRange_empty_meets hk.virt hle).of_eq_ok hvirt hfree

theorem Running.virtualAlloc (hk : Running k) (hlt : size < 2 ^ 64)
    (privilegeLevel : PrivilegeLevel) (pageFlags : PageFlags) :
    Meets (fun _ => True)
      (fun r => Running r.2 ∧ KeepsPages k r.2 ∧ (r.1 ≠ 0 → 0 < size ∧ Handed k r.2 r.1 size))
      (k.virtualAlloc depth size privilegeLevel pageFlags) := by
  refine meets_mono (virtualAllocWith_meets (getPML4FreePage_spec depth) hk.ok hlt privilegeLevel
    pageFlags) (fun _ _ => trivial) fun r hr => ?_
  obtain ⟨hok, ⟨-, rfl⟩ | ⟨hp, hv, kt, hc⟩⟩ := hr
  · exact ⟨hk, fun _ _ h => h, fun hne => absurd rfl hne⟩
  · have hm : (allocMapping privilegeLevel pageFlags).newState = .used := rfl
    refine ⟨hk.of_called hok hlt hc, hc.keepsPages hk.ok (by rw [hm]; decide), fun hne => ?_⟩
    have hf : Found k r.1 _ size := ⟨hv.symm, rfl, hne, hp⟩
    have hstart := (firstFit_spec hk.ok.virt hf.virt hne).2.2.2.2 r.1 le_rfl (Or.inr rfl)
    refine ⟨hc.size_pos hk.ok hm hstart, hf.virt_le hk.ok, fun x hlo hhi =>
      hf.virt_free hk.ok hlo hhi, fun x hlo hhi => ?_⟩
    rw [hc.used_found hk.ok hf hm hlo hhi]
    decide

theorem Running.virtualFree (hk : Running k) (hlt : size < 2 ^ 64) :
    Meets (fun _ => True)
      (fun k' => Running k' ∧ ∀ x < pageMask, ¬ (a ≤ x ∧ x < a + size) →
        virtState k x ≠ .free → virtState k' x ≠ .free)
      (k.virtualFree depth a size) := by
  refine meets_post (mapPages_meets depth hk.ok hlt) fun k' hk' => ?_
  obtain ⟨hok, kt, hc⟩ := hk'
  refine ⟨hk.of_called hok hlt hc, fun x hx hout hused => ?_⟩
  have hle : add64 a size ≤ a + size := Nat.mod_le _ _
  have htagged : virtState kt x = virtState k x := by
    rw [hc.virt_tagged hk.ok hx]
    exact if_neg fun hin => hout ⟨hin.1, by omega⟩
  rw [hc.mapped.env.virt_of_ne_free hx (htagged ▸ hused), htagged]
  exact hused

theorem Running.virtualProtect (hk : Running k) (protectFlags : MemoryProtection)
    (pageFlags : PageFlags) (privilegeLevel : PrivilegeLevel) :
    Meets (fun _ => True) (fun k' => Running k' ∧ KeepsPages k k')
      (k.virtualProtect depth a size protectFlags pageFlags privilegeLevel) :=
  hk.mapPages (show RangeState.used ≠ .free by decide)

end Keeps

end Enkel.Paging

namespace Enkel.ProgramRun

open Outcome Paging
open BinaryRegistry (Name)
open VolumeCalls (System Devices Volume)

/-- The kernel still runs, no page in use has become Free, and the volumes are the same. -/
structure Grows (s s' : System) : Prop where
  running : Running s'.memory
  keeps : KeepsPages s.memory s'.memory
  volumes : s'.volumeIndices = s.volumeIndices

section Volumes
variable {s s' s'' : System} {depth : ℕ} {devices : Devices} {xxh64 : List ℕ → ℕ}
  {handle : ℕ} {path : List ℕ}

theorem Grows.refl (h : Running s.memory) : Grows s s := ⟨h, fun _ _ h => h, rfl⟩

theorem Grows.trans (h : Grows s s') (h' : Grows s' s'') : Grows s s'' :=
  ⟨h'.running, fun x hx hused => h'.keeps x hx (h.keeps x hx hused), h'.volumes.trans h.volumes⟩

/-- The memory is left alone. -/
theorem Grows.of_memory (h : Running s.memory) (hmemory : s'.memory = s.memory)
    (hvolumes : s'.volumeIndices = s.volumeIndices) : Grows s s' := by
  refine ⟨hmemory ▸ h, fun x _ hused => ?_, hvolumes⟩
  rw [hmemory]
  exact hused

theorem framebufferOpenHandle_grows (h : Running s.memory) :
    Meets (fun _ => True) (fun r => Grows s r.2)
      (VolumeCalls.framebufferOpenHandle depth devices s handle) := by
  unfold VolumeCalls.framebufferOpenHandle
  refine meets_bind (R := fun r => Running r.2 ∧ KeepsPages s.memory r.2) ?_ fun r hr => ?_
  · refine meets_true_iff.mpr fun r hr => ?_
    obtain ⟨hrunning, hkeeps, -⟩ :=
      (h.virtualAlloc (by decide) _ _).of_eq_ok (mapError_eq_ok.mp hr)
    exact ⟨hrunning, hkeeps⟩
  · refine meets_bind (R := fun k => Running k ∧ KeepsPages r.2 k) ?_ fun k hk => meets_pure ?_
    · exact meets_true_iff.mpr fun k hk =>
        (hr.1.virtualProtect _ _ _).of_eq_ok (mapError_eq_ok.mp hk)
    · exact ⟨hk.1, fun x hx hused => hk.2 x hx (hr.2 x hx hused), rfl⟩

theorem openHandle_grows (h : Running s.memory) (volume : Volume) :
    Meets (fun _ => True) (fun r => Grows s r.2)
      (volume.openHandle depth devices s handle path) := by
  cases volume with
  | standardIo => exact meets_ok (Grows.refl h)
  | specialProc =>
    unfold Volume.openHandle
    cases VolumeCalls.procSpecialPaths.findIdx? (VolumeCalls.SameText · path) with
    | none => exact meets_ok (Grows.refl h)
    | some index => exact meets_ok (Grows.refl h)
  | device =>
    unfold Volume.openHandle
    cases VolumeCalls.deviceSpecialPaths.findIdx? (VolumeCalls.SameText · path) with
    | none => exact meets_ok (Grows.refl h)
    | some index => exact meets_bind (meets_self _) fun _ _ => framebufferOpenHandle_grows h
  | fat => exact meets_bind (meets_self _) fun r _ => meets_pure (Grows.of_memory h rfl rfl)
  | cdrom => exact meets_ok (Grows.refl h)

theorem volumeOpenHandle_grows (h : Running s.memory) :
    Meets (fun _ => True) (fun r => Grows s r.2)
      (s.volumeOpenHandle depth devices xxh64 0 path) := by
  unfold System.volumeOpenHandle
  rw [if_pos rfl]
  refine meets_bind (meets_self _) fun ⟨volumeHandle, base⟩ _ => ?_
  refine meets_bind (meets_self _) fun found _ => ?_
  cases found with
  | none => exact meets_pure (Grows.refl h)
  | some v => exact openHandle_grows h v.1

/-- A read leaves the memory alone. -/
theorem volumeRead_grows (h : Running s.memory) {offset size : ℕ} :
    Meets (fun _ => True) (fun r => Grows s r.2.2) (s.volumeRead devices handle offset size) := by
  unfold System.volumeRead
  refine meets_bind (meets_self _) fun found _ => ?_
  cases found with
  | none => exact meets_pure (Grows.refl h)
  | some v =>
    obtain ⟨volume, context⟩ := v
    cases volume with
    | standardIo =>
      refine meets_ite (fun _ => meets_ite (fun _ => ?_) fun _ => ?_) fun _ => ?_
      · exact meets_ok (Grows.refl h)
      · exact meets_error trivial
      · exact meets_ok (Grows.refl h)
    | specialProc =>
      exact meets_bind (meets_self _) fun _ _ => meets_bind (meets_self _) fun _ _ =>
        meets_pure (Grows.refl h)
    | device => exact meets_bind (meets_self _) fun _ _ => meets_pure (Grows.refl h)
    | fat => exact meets_bind (meets_self _) fun _ _ => meets_pure (Grows.of_memory h rfl rfl)
    | cdrom => exact meets_ok (Grows.refl h)

/-- Only FAT has a size to report. -/
theorem fat_of_volumeGetSize {fileSize : ℕ} (h : s.volumeGetSize handle = .ok fileSize)
    (hsize : fileSize ≠ VolumeCalls.einval) : s.implementation handle = some .fat := by
  unfold System.volumeGetSize at h
  rw [VolumeCalls.volumeOf_implementation, ok_bind] at h
  cases hvolume : s.implementation handle with
  | none =>
    rw [hvolume] at h
    exact absurd (pure_eq_ok.mp h).symm hsize
  | some volume =>
    rw [hvolume] at h
    cases volume with
    | standardIo => exact absurd (Except.ok.inj h).symm hsize
    | specialProc => cases h
    | device =>
      obtain ⟨u, -, h⟩ := bind_eq_ok.mp h
      exact absurd (pure_eq_ok.mp h).symm hsize
    | fat => rfl
    | cdrom => cases h

/-- Closing a file of FAT leaves the memory alone. -/
theorem volumeCloseHandle_grows (h : Running s.memory) (hfat : s.implementation handle = some .fat) :
    Meets (fun _ => True) (fun s' => Grows s s') (s.volumeCloseHandle depth handle) := by
  unfold System.volumeCloseHandle
  rw [VolumeCalls.volumeOf_implementation, ok_bind, hfat]
  exact meets_bind (meets_self _) fun _ _ => meets_pure (Grows.of_memory h rfl rfl)

end Volumes

namespace State

section Steps
variable {s : State} {depth : ℕ} {devices : Devices} {xxh64 : List ℕ → ℕ} {path programName : Name}
  {byteSize handle : ℕ} {stale : ℕ → Name} {parse : List UInt8 → Image} {image : Image}

theorem virtualAlloc_eq {address : ℕ} {k : KernelMemory} (hne : address ≠ 0)
    (h : s.memory.virtualAlloc depth byteSize .user pageFlagsNone = .ok (address, k)) :
    virtualAlloc depth byteSize s = .ok (address, s.withMemory k) := by
  unfold virtualAlloc
  rw [h, mapError_ok, ok_bind]
  dsimp only
  rw [require_true hne, ok_bind]
  rfl

/-- rpmalloc has the memory already. -/
theorem rpMalloc_eq {object : ℕ} {h : ∀ size ∈ [], size < 2 ^ 64} {grants : List Grant}
    (hgrants : s.grants = ⟨object, [], h⟩ :: grants) :
    rpMalloc depth s = .ok (object, { s with grants := grants }) := by
  unfold rpMalloc
  rw [hgrants]
  rfl

theorem virtualAlloc_grows (h : Running s.memory) (hlt : byteSize < 2 ^ 64) :
    Meets (fun _ => True)
      (fun r => Grows s.system r.2.system ∧ 0 < byteSize ∧ Handed s.memory r.2.memory r.1 byteSize)
      (virtualAlloc depth byteSize s) := by
  unfold virtualAlloc
  refine meets_bind (meets_self _) fun r hr => ?_
  obtain ⟨hrunning, hkeeps, hgiven⟩ := (h.virtualAlloc hlt _ _).of_eq_ok (mapError_eq_ok.mp hr)
  refine meets_require (fun _ => trivial) fun hne => meets_pure ?_
  exact ⟨⟨hrunning, hkeeps, rfl⟩, hgiven hne⟩

theorem rpMalloc_grows (h : Running s.memory) :
    Meets (fun _ => True) (fun r => Grows s.system r.2.system) (rpMalloc depth s) := by
  unfold rpMalloc
  cases s.grants with
  | nil => exact meets_error trivial
  | cons grant grants =>
    refine meets_bind (R := fun s' : State => Grows s.system s'.system) ?_ fun s' hs' =>
      meets_pure hs'
    refine meets_foldlM (R := fun (s' : State) (_ : Unit) => Grows s.system s'.system)
      (g := fun t _ => t) (t := ()) _ (fun size hsize s' _ hs' => ?_) (Grows.refl h)
    refine meets_bind (meets_self _) fun r hr => ?_
    obtain ⟨hrunning, hkeeps, -⟩ := (Running.virtualAlloc hs'.running
      (grant.sizes_lt size hsize) _ _).of_eq_ok (mapError_eq_ok.mp hr)
    exact meets_require (fun _ => trivial) fun _ =>
      meets_pure (hs'.trans ⟨hrunning, hkeeps, rfl⟩)

theorem openHandle_grows (h : Running s.memory) :
    Meets (fun _ => True) (fun r => Grows s.system r.2.system)
      (openHandle depth devices xxh64 path s) := by
  refine meets_bind (rpMalloc_grows h) fun r hr => meets_bind (meets_self _) fun r' hr' => ?_
  exact meets_pure (hr.trans ((volumeOpenHandle_grows hr.running).of_eq_ok (mapError_eq_ok.mp hr')))

theorem openInterpreters_grows (h : Running s.memory) {names : List Name} {last : Name × ℕ} :
    Meets (fun _ => True) (fun r => Grows s.system r.2.system)
      (openInterpreters depth devices xxh64 names last s) := by
  induction names generalizing s last with
  | nil => exact meets_ok (Grows.refl h)
  | cons interpreter names ih =>
    refine meets_bind (openHandle_grows h) fun r hr => meets_ite (fun _ => meets_pure hr) fun _ => ?_
    exact meets_post (ih hr.running) fun r' hr' => hr.trans hr'

/-- A binary that is given up before it had a reference is not freed. -/
theorem unloadElf_blank {elfBinary : ℕ} (hheap : s.heap elfBinary = some (.blank programName)) :
    Meets (fun _ => True) (fun s' => s'.system = s.system) (unloadElf depth elfBinary s) := by
  have hleft : sub64 (ElfBinary.blank programName).refCount 1 ≠ 0 := BinaryRegistry.State.underflow
  unfold unloadElf
  rw [hheap]
  simp only [if_neg hleft]
  exact meets_ok rfl

theorem loadElfFromMemory_grows (h : Running s.memory) :
    Meets (fun _ => True) (fun r => Grows s.system r.2.system)
      (loadElfFromMemory depth devices xxh64 stale programName image s) := by
  refine meets_bind (meets_self _) fun found _ => ?_
  cases found with
  | some existing => exact meets_pure (Grows.refl h)
  | none =>
    refine meets_bind (rpMalloc_grows h) fun r1 h1 => meets_require (fun _ => trivial) fun _ => ?_
    cases image.failure with
    | some message => exact meets_throw trivial
    | none =>
      refine meets_bind (virtualAlloc_grows h1.running image.allocatedSize_lt) fun r2 h2 => ?_
      have h12 := h1.trans h2.1
      refine meets_bind (openInterpreters_grows h12.running) fun r3 h3 => ?_
      obtain ⟨opened, s3⟩ := r3
      cases opened with
      | none =>
        refine meets_bind (unloadElf_blank (Function.update_self _ _ _)) fun s4 h4 => meets_pure ?_
        dsimp only
        rw [h4]
        exact h12.trans h3
      | some last =>
        exact meets_require (fun _ => trivial) fun _ => meets_pure (h12.trans h3)

/-- What can be loaded is a file of FAT, and its buffer is freed again. -/
theorem loadElfFromHandle_grows (h : Running s.memory) (hne : handle ≠ 0) :
    Meets (fun _ => True)
      (fun r => Grows s.system r.2.system ∧ s.system.implementation handle = some .fat)
      (loadElfFromHandle depth devices xxh64 parse stale programName handle s) := by
  unfold loadElfFromHandle
  rw [if_pos hne]
  refine meets_bind (meets_self _) fun fileSize hsize => ?_
  have hlt := alignSize_lt fileSize
  refine meets_bind (virtualAlloc_grows h hlt) fun r1 h1 => ?_
  obtain ⟨hgrows, hpos, hbuffer⟩ := h1
  have hfat : s.system.implementation handle = some .fat := by
    refine fat_of_volumeGetSize (mapError_eq_ok.mp hsize) ?_
    rintro rfl
    exact absurd hpos (by decide)
  refine meets_bind (meets_self _) fun r2 h2 => ?_
  have hread := hgrows.trans ((volumeRead_grows hgrows.running).of_eq_ok (mapError_eq_ok.mp h2))
  refine meets_bind (loadElfFromMemory_grows hread.running) fun r3 h3 => ?_
  have hload := hread.trans h3
  refine meets_bind (meets_self _) fun s4 h4 => meets_pure ⟨?_, hfat⟩
  obtain ⟨k, hfree, h4⟩ := bind_eq_ok.mp h4
  obtain rfl := pure_eq_ok.mp h4
  obtain ⟨hrunning, hkept⟩ :=
    (Running.virtualFree hload.running hlt).of_eq_ok (mapError_eq_ok.mp hfree)
  refine ⟨hrunning, fun x hx hused => ?_, hload.volumes⟩
  -- the buffer was Free before the call
  exact hkept x hx (fun hin => hused (hbuffer.before x hin.1 hin.2)) (hload.keeps x hx hused)

theorem loadElf_grows (h : Running s.memory) :
    Meets (fun _ => True) (fun r => Grows s.system r.2.system)
      (loadElf depth devices xxh64 parse stale programName s) := by
  refine meets_bind (openHandle_grows h) fun r1 h1 => meets_ite (fun hne => ?_) fun _ =>
    meets_pure h1
  refine meets_bind (loadElfFromHandle_grows h1.running hne) fun r2 h2 => ?_
  have hload := h1.trans h2.1
  refine meets_bind (meets_self _) fun system hclose => meets_pure ?_
  refine hload.trans ((volumeCloseHandle_grows hload.running ?_).of_eq_ok (mapError_eq_ok.mp hclose))
  unfold System.implementation
  rw [h2.1.volumes]
  exact h2.2

end Steps

end State

/-- The attempt leaves no trace: the same pages are Free, no slot of FileHandles has been
taken, and the list of binaries is the same. -/
structure NoTrace (s s' : State) : Prop where
  physical : ∀ x < s.memory.physicalMemoryState.highestAddress,
    physState s'.memory x = .free ↔ physState s.memory x = .free
  virt : ∀ x < pageMask, virtState s'.memory x = .free ↔ virtState s.memory x = .free
  fileHandles : ∀ i, s.system.fileHandles i = none → s'.system.fileHandles i = none
  gELFBinaries : s'.gELFBinaries = s.gELFBinaries

section Claim
variable {depth : ℕ} {devices : Devices} {xxh64 : List ℕ → ℕ} {parse : List UInt8 → Image}
  {stale : ℕ → Name} {programName : Name} {s s' : State}

/-- The stack of a process that was not created: Free before, and in use after. -/
theorem createProcess_keeps_stack (h : Running s.memory)
    (hrun : s.createProcess depth devices xxh64 parse stale programName = .ok (none, s')) :
    ∃ stack < pageMask, virtState s.memory stack = .free ∧ virtState s'.memory stack ≠ .free := by
  obtain ⟨r1, hmalloc, hrun⟩ := bind_eq_ok.mp hrun
  have h1 := (State.rpMalloc_grows h).of_eq_ok hmalloc
  obtain ⟨⟨stack, s2⟩, hstack, hrun⟩ := bind_eq_ok.mp hrun
  obtain ⟨h2, hpos, hgiven⟩ := (State.virtualAlloc_grows h1.running (by decide)).of_eq_ok hstack
  have hend := hgiven.le
  have hbefore := hgiven.before stack le_rfl (by omega)
  have hafter := hgiven.after stack le_rfl (by omega)
  refine ⟨stack, by omega, ?_, ?_⟩
  · by_contra hused
    exact h1.keeps stack (by omega) hused hbefore
  · obtain ⟨⟨loaded, s3⟩, hload, hrun⟩ := bind_eq_ok.mp hrun
    have h3 := (State.loadElf_grows h2.running).of_eq_ok hload
    cases loaded with
    | none =>
      cases hrun
      exact h3.keeps stack (by omega) hafter
    | some p =>
      obtain ⟨⟨⟨binary, sub⟩, s4⟩, -, hrun⟩ := bind_eq_ok.mp hrun
      dsimp only at hrun
      cases hheap : s4.heap binary with
      | none =>
        rw [hheap] at hrun
        cases hrun
      | some elfBinary =>
        rw [hheap] at hrun
        obtain ⟨r5, -, hrun⟩ := bind_eq_ok.mp hrun
        cases hrun

/-- Whatever the reason, a start that fails leaves a trace: the stack. -/
theorem failed_start_leaves_trace (depth : ℕ) (devices : Devices) (xxh64 : List ℕ → ℕ)
    (parse : List UInt8 → Image) (stale : ℕ → Name) (programName : Name) (s s' : State)
    (hreachable : Reachable s.memory)
    (hrun : s.createProcess depth devices xxh64 parse stale programName = .ok (none, s')) :
    ¬ NoTrace s s' := by
  intro h
  obtain ⟨stack, hlt, hfree, hused⟩ := createProcess_keeps_stack hreachable.running hrun
  exact hused ((h.virt stack hlt).mpr hfree)

end Claim

section Example
variable (k : KernelMemory)

/-- A kernel with one volume of FAT, on which no file is found. -/
def fatState : State :=
  { system := { VolumeCalls.lettersOpen with memory := k }
    heap := fun _ => none
    gELFBinaries := []
    grants := [⟨1, [], no_sizes⟩, ⟨2, [], no_sizes⟩]
    heapBlocks := [] }

def missingProgram : Name := [0x2F, 0x78]

def emptyImage (_ : List UInt8) : Image :=
  { failure := none
    allocatedSize := 0x4000000
    interp := []
    tlsDataSize := 0
    tbssSize := 0
    tlsAlign := 0
    allocatedSize_lt := by decide }

/-- What the stack does to the trees of the example machine. -/
def stackTrees : Except Enkel.Fault (ℕ × ℕ) := do
  let trees ← machineTrees 64
  let (v, p, _, _) ← allocTrees defaultThreadStackSize trees
  return (v, p)

theorem volumeOpenHandle_missing : (fatState k).system.volumeOpenHandle 0 VolumeCalls.noDevices
    (fun _ => 1) 0 missingProgram = .ok (.nothing 0, (fatState k).system) := by
  have hbreak : VolumeSystem.breakPath (fun _ => 1) (fatState k).system.volumeIndices
      missingProgram = .ok (VolumeCalls.lettersHandle, 0) := rfl
  have hvolume : (fatState k).system.volumeOf VolumeCalls.lettersHandle = .ok (some (.fat, 0)) := rfl
  unfold System.volumeOpenHandle
  rw [if_pos rfl, hbreak, mapError_ok, ok_bind]
  dsimp only
  rw [hvolume, ok_bind]
  simp only [Volume.openHandle, List.drop_zero, missingProgram, fatState,
    VolumeCalls.fatOpenHandle_missing, ok_bind]
  rfl

/-- RunProgram for a name that is not on the volume. -/
theorem exists_failed_start : ∃ s s' : State, Reachable s.memory ∧
    s.createProcess 0 VolumeCalls.noDevices (fun _ => 1) emptyImage (fun _ => []) missingProgram =
      .ok (none, s') := by
  have htrees : stackTrees = .ok (0x40000000, 0x40200000) := by decide +kernel
  unfold stackTrees at htrees
  obtain ⟨k, hm, htrees⟩ := exists_machineRunning_of_bind 64 (by decide) htrees
  obtain ⟨⟨v, p, physical, virt⟩, h1, htrees⟩ := bind_eq_ok.mp htrees
  cases htrees
  obtain ⟨k', halloc, -⟩ := virtualAlloc_enough_ok 0 hm.reachable.running.ok (by decide) h1
    (by decide) (by decide) (hm.missing_le (by decide)) .user pageFlagsNone
  have hstack : State.virtualAlloc 0 defaultThreadStackSize
      { fatState k with grants := [⟨2, [], no_sizes⟩] } =
        .ok (0x40000000, { fatState k' with grants := [⟨2, [], no_sizes⟩] }) :=
    State.virtualAlloc_eq (by decide) halloc
  have hopen : State.openHandle 0 VolumeCalls.noDevices (fun _ => 1) missingProgram
      { fatState k' with grants := [⟨2, [], no_sizes⟩] } =
        .ok (0, { fatState k' with grants := [] }) :=
    bind_eq_ok.mpr ⟨_, State.rpMalloc_eq rfl,
      bind_eq_ok.mpr ⟨_, mapError_eq_ok.mpr (volumeOpenHandle_missing k'), rfl⟩⟩
  have hload : State.loadElf 0 VolumeCalls.noDevices (fun _ => 1) emptyImage (fun _ => [])
      missingProgram { fatState k' with grants := [⟨2, [], no_sizes⟩] } =
        .ok (none, { fatState k' with grants := [] }) :=
    bind_eq_ok.mpr ⟨_, hopen, rfl⟩
  refine ⟨fatState k, { fatState k' with grants := [] }, hm.reachable, ?_⟩
  exact bind_eq_ok.mpr ⟨_, State.rpMalloc_eq rfl, bind_eq_ok.mpr ⟨_, hstack,
    bind_eq_ok.mpr ⟨_, hload, rfl⟩⟩⟩

end Example

theorem failed_start_leaves_trace_missing : ∃ s s' : State, Reachable s.memory ∧
    s.createProcess 0 VolumeCalls.noDevices (fun _ => 1) emptyImage (fun _ => []) missingProgram =
      .ok (none, s') ∧ ¬ NoTrace s s' := by
  obtain ⟨s, s', hreachable, hrun⟩ := exists_failed_start
  exact ⟨s, s', hreachable, hrun, failed_start_leaves_trace 0 _ _ _ _ _ s s' hreachable hrun⟩

/-- The page of the stack is lost. -/
theorem missing_program_loses_page : ¬ ∀ s s' : State, Reachable s.memory →
    s.createProcess 0 VolumeCalls.noDevices (fun _ => 1) emptyImage (fun _ => []) missingProgram =
      .ok (none, s') → NoTrace s s' := by
  intro h
  obtain ⟨s, s', hreachable, hrun⟩ := exists_failed_start
  obtain ⟨stack, hlt, hfree, hused⟩ := createProcess_keeps_stack hreachable.running hrun
  exact hused (((h s s' hreachable hrun).virt stack hlt).mpr hfree)

end Enkel.ProgramRun
