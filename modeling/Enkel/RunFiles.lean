import Enkel.OpenedFiles

/-!
Which files the start of a program leaves open. That of the program is closed again; those
of the interpreters stay open.
-/
namespace Enkel.ProgramRun

open Outcome Paging
open BinaryRegistry (Name)
open VolumeSystem.FileHandleMask (fileHandle)
open VolumeCalls (System Devices Contents IsOpen)
open FileMapping (Fil maxFileHandles)

/-- The interpreters that LoadElfFromMemory opens: none for a binary in the list. -/
def interpretersOf (stale : ℕ → Name) (programName : Name) (image : Image) (s : State) :
    List Name :=
  match State.lookup stale s.heap programName s.gELFBinaries with
  | .ok none => image.interp
  | _ => []

/-- The interpreters that are opened when the interpreter of a binary is loaded. -/
def reopens (parse : List UInt8 → Image) (stale : ℕ → Name) (p : ℕ) (s : State) : List Name :=
  match s.heap p with
  | none => []
  | some binary =>
    if binary.interpreterFileHandle = 0 then []
    else
      match s.system.fileHandles (fileHandle binary.interpreterFileHandle) with
      | none => []
      | some fil => interpretersOf stale binary.interpreterName (parse fil.contents) s

/-- The interpreters that a program opens when it starts: its own, or those of its
interpreter if it is in the list. -/
def opensInterpreters (devices : Devices) (xxh64 : List ℕ → ℕ) (parse : List UInt8 → Image)
    (stale : ℕ → Name) (programName : Name) (s : State) : List Name :=
  match State.lookup stale s.heap programName s.gELFBinaries with
  | .ok none =>
    match fileAt devices xxh64 s.system programName with
    | none => []
    | some file => (parse file.val).interp
  | .ok (some p) => reopens parse stale p s
  | .error _ => []

/-- Only pages, and what rpmalloc has to give, have changed. -/
structure MemoryOnly (s s' : State) : Prop where
  volumes : s'.system.volumeIndices = s.system.volumeIndices
  files : s'.system.fileHandles = s.system.fileHandles
  heap : s'.heap = s.heap
  gELFBinaries : s'.gELFBinaries = s.gELFBinaries

section Memory
variable {s s' s'' : State} {depth address byteSize : ℕ}

theorem MemoryOnly.trans (h : MemoryOnly s s') (h' : MemoryOnly s' s'') : MemoryOnly s s'' :=
  ⟨h'.volumes.trans h.volumes, h'.files.trans h.files, h'.heap.trans h.heap,
    h'.gELFBinaries.trans h.gELFBinaries⟩

theorem virtualAlloc_memoryOnly :
    Meets (fun _ => True) (fun r => MemoryOnly s r.2) (s.virtualAlloc depth byteSize) :=
  meets_bind (meets_self _) fun _ _ =>
    meets_require (fun _ => trivial) fun _ => meets_pure ⟨rfl, rfl, rfl, rfl⟩

theorem virtualFree_memoryOnly :
    Meets (fun _ => True) (MemoryOnly s) (s.virtualFree depth address byteSize) :=
  meets_bind (meets_self _) fun _ _ => meets_pure ⟨rfl, rfl, rfl, rfl⟩

theorem rpMalloc_memoryOnly : Meets (fun _ => True) (fun r => MemoryOnly s r.2)
    (s.rpMalloc depth) := by
  unfold State.rpMalloc
  cases s.grants with
  | nil => exact meets_error trivial
  | cons grant grants =>
    refine meets_bind (R := MemoryOnly s) ?_ fun s' hs' => meets_pure hs'
    refine meets_foldlM (R := fun (s' : State) (_ : Unit) => MemoryOnly s s') (g := fun t _ => t)
      (t := ()) _ (fun size hsize s' _ hs' => ?_) ⟨rfl, rfl, rfl, rfl⟩
    refine meets_bind (meets_self _) fun _ _ => ?_
    exact meets_require (fun _ => trivial) fun _ => meets_pure (hs'.trans ⟨rfl, rfl, rfl, rfl⟩)

theorem MemoryOnly.implementation (h : MemoryOnly s s') (handle : ℕ) :
    s'.system.implementation handle = s.system.implementation handle := by
  unfold System.implementation
  rw [h.volumes]

theorem MemoryOnly.isOpen (h : MemoryOnly s s') {handle : ℕ} {fil : Fil}
    (hopen : IsOpen s.system handle fil) : IsOpen s'.system handle fil :=
  ⟨h.volumes ▸ hopen.volume, hopen.inRange, h.files ▸ hopen.opened⟩

end Memory

section Load
variable {s s' : State} {names : List Name} {path programName : Name} {depth handle p : ℕ}
  {devices : Devices} {xxh64 : List ℕ → ℕ} {last last' : Name × ℕ} {stale : ℕ → Name}
  {parse : List UInt8 → Image} {image : Image}

/-- Opening a path changes files and memory only. -/
structure Opened (devices : Devices) (xxh64 : List ℕ → ℕ) (path : Name) (depth : ℕ)
    (s s1 s' : State) (handle : ℕ) : Prop where
  malloc : ∃ object, s.rpMalloc depth = .ok (object, s1)
  volume : ∃ opened, s1.system.volumeOpenHandle depth devices xxh64 0 path =
    .ok (opened, s'.system) ∧ opened.value = handle
  heap : s'.heap = s.heap
  gELFBinaries : s'.gELFBinaries = s.gELFBinaries
  heapBlocks : s'.heapBlocks = s1.heapBlocks

theorem openHandle_eq_ok (h : s.openHandle depth devices xxh64 path = .ok (handle, s')) :
    ∃ s1, MemoryOnly s s1 ∧ Opened devices xxh64 path depth s s1 s' handle := by
  obtain ⟨⟨object, s1⟩, hmalloc, h⟩ := bind_eq_ok.mp h
  obtain ⟨⟨opened, system⟩, hopen, h⟩ := bind_eq_ok.mp h
  cases h
  have hmemory := rpMalloc_memoryOnly.of_eq_ok hmalloc
  exact ⟨s1, hmemory,
    { malloc := ⟨object, hmalloc⟩
      volume := ⟨opened, mapError_eq_ok.mp hopen, rfl⟩
      heap := hmemory.heap
      gELFBinaries := hmemory.gELFBinaries
      heapBlocks := rfl }⟩

theorem openHandle_takes (h : s.openHandle depth devices xxh64 path = .ok (handle, s'))
    (hne : handle ≠ 0) : Takes xxh64 [path] s.system s'.system := by
  obtain ⟨s1, hmemory, hopens⟩ := openHandle_eq_ok h
  obtain ⟨opened, hopen, rfl⟩ := hopens.volume
  exact (Takes.of_same xxh64 hmemory.volumes hmemory.files).trans (volumeOpenHandle_takes hopen hne)

theorem openInterpreters_cons (h : s.openInterpreters depth devices xxh64 (path :: names) last =
    .ok (some last', s')) : ∃ handle s1, handle ≠ 0 ∧
      s.openHandle depth devices xxh64 path = .ok (handle, s1) ∧
      s1.openInterpreters depth devices xxh64 names (path, handle) = .ok (some last', s') := by
  obtain ⟨⟨handle, s1⟩, hopen, h⟩ := bind_eq_ok.mp h
  dsimp only at h
  split_ifs at h with hzero
  · cases h
  · exact ⟨handle, s1, hzero, hopen, h⟩

/-- What the names of the .interp sections leave open. -/
theorem openInterpreters_takes
    (h : s.openInterpreters depth devices xxh64 names last = .ok (some last', s')) :
    Takes xxh64 names s.system s'.system ∧ s'.heap = s.heap ∧ s'.gELFBinaries = s.gELFBinaries := by
  induction names generalizing s last with
  | nil =>
    cases h
    exact ⟨Takes.of_same xxh64 rfl rfl, rfl, rfl⟩
  | cons path names ih =>
    obtain ⟨handle, s1, hne, hopen, hrest⟩ := openInterpreters_cons h
    obtain ⟨htakes, hheap, hlist⟩ := ih hrest
    obtain ⟨s2, -, hopens⟩ := openHandle_eq_ok hopen
    exact ⟨(openHandle_takes hopen hne).trans htakes, hheap.trans hopens.heap,
      hlist.trans hopens.gELFBinaries⟩

/-- If the last of them can be loaded, it is a file of FAT. -/
theorem openInterpreters_last (hstreams : s.system.implementation 0 = some .standardIo)
    (h : s.openInterpreters depth devices xxh64 names last = .ok (some last', s')) :
    (names = [] ∧ last' = last) ∨ (names ≠ [] ∧ last'.2 ≠ 0 ∧
      (s.system.implementation last'.2 = some .fat → fileHandle last'.2 < maxFileHandles →
        ∃ path ∈ names, OnVolume .fat xxh64 s.system path)) := by
  induction names generalizing s last with
  | nil =>
    cases h
    exact Or.inl ⟨rfl, rfl⟩
  | cons path names ih =>
    obtain ⟨handle, s1, hne, hopen, hrest⟩ := openInterpreters_cons h
    have hvolumes := (openHandle_takes hopen hne).volumes
    have himpl : ∀ handle, s1.system.implementation handle = s.system.implementation handle := by
      intro handle
      unfold System.implementation
      rw [hvolumes]
    refine Or.inr ⟨by simp, ?_⟩
    rcases ih ((himpl 0).trans hstreams) hrest with ⟨rfl, rfl⟩ | ⟨-, hne', hlast⟩
    · obtain ⟨s2, hmemory, hopens⟩ := openHandle_eq_ok hopen
      obtain ⟨opened, hvolume, rfl⟩ := hopens.volume
      refine ⟨hne, fun hfat hslot => ⟨path, List.mem_cons_self, ?_⟩⟩
      rw [← hmemory.implementation] at hfat hstreams
      exact (onFat_of_open hvolume hstreams hfat hslot).congr hmemory.volumes.symm
    · refine ⟨hne', fun hfat hslot => ?_⟩
      obtain ⟨path', hmem, hon⟩ := hlast ((himpl _).trans hfat) hslot
      exact ⟨path', List.mem_cons_of_mem _ hmem, hon.congr hvolumes.symm⟩

/-- A binary that LoadElfFromMemory has entered. -/
structure Entered (image : Image) (programStart : ℕ) (last : Name × ℕ) (p : ℕ) (s s' : State) :
    Prop where
  system : s'.system = s.system
  heapBlocks : s'.heapBlocks = s.heapBlocks
  binary : ∃ binary, s'.heap p = some binary ∧ binary.baseAddress = programStart ∧
    binary.allocatedSize = image.allocatedSize ∧ binary.refCount = 1 ∧
    binary.interpreterFileHandle = last.2

/-- The steps that enter a binary. -/
structure Loads (devices : Devices) (xxh64 : List ℕ → ℕ) (image : Image) (depth p : ℕ)
    (s s1 s2 s3 s' : State) (programStart : ℕ) (last : Name × ℕ) : Prop where
  malloc : s.rpMalloc depth = .ok (p, s1)
  alloc : s1.virtualAlloc depth image.allocatedSize = .ok (programStart, s2)
  interp : s2.openInterpreters depth devices xxh64 image.interp ([], 0) = .ok (some last, s3)
  entered : Entered image programStart last p s3 s'

theorem loadElfFromMemory_eq_ok
    (h : s.loadElfFromMemory depth devices xxh64 stale programName image = .ok (some p, s')) :
    (State.lookup stale s.heap programName s.gELFBinaries = .ok (some p) ∧ s' = s) ∨
      (State.lookup stale s.heap programName s.gELFBinaries = .ok none ∧
        ∃ s1 s2 s3 programStart last,
          Loads devices xxh64 image depth p s s1 s2 s3 s' programStart last) := by
  obtain ⟨found, hlookup, h⟩ := bind_eq_ok.mp h
  cases found with
  | some existing =>
    cases h
    exact Or.inl ⟨hlookup, rfl⟩
  | none =>
    obtain ⟨⟨elfBinary, s1⟩, hmalloc, h⟩ := bind_eq_ok.mp h
    obtain ⟨u, -, h⟩ := bind_eq_ok.mp h
    dsimp only at h
    cases hfailure : image.failure with
    | some message =>
      rw [hfailure] at h
      cases h
    | none =>
      rw [hfailure] at h
      obtain ⟨⟨programStart, s2⟩, halloc, h⟩ := bind_eq_ok.mp h
      obtain ⟨⟨opened, s3⟩, hopen, h⟩ := bind_eq_ok.mp h
      cases opened with
      | none =>
        obtain ⟨s4, -, h⟩ := bind_eq_ok.mp h
        cases h
      | some last =>
        obtain ⟨v, -, h⟩ := bind_eq_ok.mp h
        cases h
        exact Or.inr ⟨hlookup, s1, s2, s3, programStart, last,
          { malloc := hmalloc
            alloc := halloc
            interp := hopen
            entered :=
              { system := rfl
                heapBlocks := rfl
                binary := ⟨_, Function.update_self _ _ _, rfl, rfl, rfl, rfl⟩ } }⟩

/-- Loading from memory leaves the interpreters open. -/
theorem loadElfFromMemory_takes
    (h : s.loadElfFromMemory depth devices xxh64 stale programName image = .ok (some p, s')) :
    Takes xxh64 (interpretersOf stale programName image s) s.system s'.system := by
  unfold interpretersOf
  obtain ⟨hlookup, rfl⟩ | ⟨hlookup, s1, s2, s3, programStart, last, hloads⟩ :=
    loadElfFromMemory_eq_ok h
  · rw [hlookup]
    exact Takes.of_same xxh64 rfl rfl
  · rw [hlookup, hloads.entered.system]
    have hmemory := (rpMalloc_memoryOnly.of_eq_ok hloads.malloc).trans
      (virtualAlloc_memoryOnly.of_eq_ok hloads.alloc)
    exact (Takes.of_same xxh64 hmemory.volumes hmemory.files).trans
      (openInterpreters_takes hloads.interp).1

/-- The steps that load an open file. -/
structure LoadsFile (devices : Devices) (xxh64 : List ℕ → ℕ) (parse : List UInt8 → Image)
    (stale : ℕ → Name) (programName : Name) (depth p : ℕ) (fil : Fil)
    (s s1 s2 s' : State) (buffer : ℕ) : Prop where
  alloc : s.virtualAlloc depth (alignSize fil.fSize pageSize) = .ok (buffer, s1)
  load : s1.loadElfFromMemory depth devices xxh64 stale programName (parse fil.contents) =
    .ok (some p, s2)
  free : s2.virtualFree depth buffer (alignSize fil.fSize pageSize) = .ok s'

theorem readAt_all (fil : Fil) : (FileMapping.readAt fil 0 fil.fSize).1 = fil.contents := by
  have hlt : fil.fSize < 2 ^ 32 := fil.size_lt
  rw [FileMapping.readAt_bytes, Nat.mod_eq_of_lt hlt]
  simp [Fil.position, FileMapping.currentOffset, Fil.fSize]

/-- An open file is loaded by these steps. -/
theorem LoadsFile.eq_ok {fil : Fil} {s1 s2 : State} {buffer : ℕ}
    (h : LoadsFile devices xxh64 parse stale programName depth p fil s s1 s2 s' buffer)
    (hopen : IsOpen s.system handle fil) (hne : handle ≠ 0) :
    s.loadElfFromHandle depth devices xxh64 parse stale programName handle =
      .ok (some p, s') := by
  have hopen1 := (virtualAlloc_memoryOnly.of_eq_ok h.alloc).isOpen hopen
  have hsize : s.system.volumeGetSize handle = .ok fil.fSize := by
    have hfat : s.system.implementation handle = some .fat := hopen.volume
    unfold System.volumeGetSize
    rw [VolumeCalls.volumeOf_implementation, ok_bind, hfat]
    exact bind_eq_ok.mpr ⟨fil, hopen.fatFile, rfl⟩
  have hread : s1.system.volumeRead devices handle 0 fil.fSize = .ok (_, _, _) :=
    hopen1.volumeRead (Or.inr fun _ => by decide)
  rw [readAt_all, VolumeCalls.readAt_restores (by decide), hopen1.setFile_self] at hread
  unfold State.loadElfFromHandle
  rw [if_pos hne]
  exact bind_eq_ok.mpr ⟨_, mapError_eq_ok.mpr hsize, bind_eq_ok.mpr ⟨_, h.alloc,
    bind_eq_ok.mpr ⟨_, mapError_eq_ok.mpr hread, bind_eq_ok.mpr ⟨_, h.load,
      bind_eq_ok.mpr ⟨_, h.free, rfl⟩⟩⟩⟩⟩

theorem loadElfFromHandle_eq_ok (hrunning : Running s.memory) (hne : handle ≠ 0)
    (h : s.loadElfFromHandle depth devices xxh64 parse stale programName handle =
      .ok (some p, s')) :
    ∃ fil, IsOpen s.system handle fil ∧ ∃ s1 s2 buffer,
      LoadsFile devices xxh64 parse stale programName depth p fil s s1 s2 s' buffer := by
  have hfat := ((State.loadElfFromHandle_grows hrunning hne).of_eq_ok h).2
  unfold State.loadElfFromHandle at h
  rw [if_pos hne] at h
  obtain ⟨fileSize, hsize, h⟩ := bind_eq_ok.mp h
  have hsize := mapError_eq_ok.mp hsize
  unfold System.volumeGetSize at hsize
  rw [VolumeCalls.volumeOf_implementation, ok_bind, hfat] at hsize
  obtain ⟨fil, hfile, hsize⟩ := bind_eq_ok.mp hsize
  obtain rfl := pure_eq_ok.mp hsize
  have hopen : IsOpen s.system handle fil := by
    obtain ⟨u, hslot, hfile⟩ := bind_eq_ok.mp hfile
    refine ⟨hfat, require_eq_ok.mp hslot, ?_⟩
    cases hentry : s.system.fileHandles (fileHandle handle) with
    | none =>
      rw [hentry] at hfile
      cases hfile
    | some fil' =>
      rw [hentry] at hfile
      cases hfile
      rfl
  obtain ⟨⟨buffer, s1⟩, halloc, h⟩ := bind_eq_ok.mp h
  have hopen1 := (virtualAlloc_memoryOnly.of_eq_ok halloc).isOpen hopen
  obtain ⟨⟨n, bytes, system⟩, hread, h⟩ := bind_eq_ok.mp h
  have hread := mapError_eq_ok.mp hread
  rw [hopen1.volumeRead (Or.inr fun _ => by decide)] at hread
  cases hread
  rw [readAt_all, VolumeCalls.readAt_restores (by decide), hopen1.setFile_self] at h
  obtain ⟨⟨binary, s2⟩, hload, h⟩ := bind_eq_ok.mp h
  obtain ⟨s3, hfree, h⟩ := bind_eq_ok.mp h
  cases h
  exact ⟨fil, hopen, s1, s2, buffer, halloc, hload, hfree⟩

/-- Closing a file of FAT empties its slot. -/
theorem volumeCloseHandle_file {s : System} (hfat : s.implementation handle = some .fat)
    (hslot : fileHandle handle < maxFileHandles) : s.volumeCloseHandle depth handle =
      .ok { s with fileHandles := Function.update s.fileHandles (fileHandle handle) none } := by
  unfold System.volumeCloseHandle
  rw [VolumeCalls.volumeOf_implementation, ok_bind, hfat]
  exact bind_eq_ok.mpr ⟨_, bind_eq_ok.mpr ⟨_, require_true hslot, rfl⟩, rfl⟩

/-- What was opened in between stays open when the file is closed. -/
theorem OpensSlot.takes_close {s s1 s2 : System} {slot : ℕ} {contents : Contents}
    (h : OpensSlot s s1 handle slot contents) (htakes : Takes xxh64 names s1 s2) :
    Takes xxh64 names s
      { s2 with fileHandles := Function.update s2.fileHandles slot none } := by
  obtain ⟨fil, -, rfl⟩ := h.opened
  have hfree := h.free
  have hopened : ∀ i, i ≠ slot → Function.update s.fileHandles slot (some fil) i = s.fileHandles i :=
    fun i hi => Function.update_of_ne hi _ _
  have hclosed : ∀ i, i ≠ slot → Function.update s2.fileHandles slot none i = s2.fileHandles i :=
    fun i hi => Function.update_of_ne hi _ _
  refine ⟨⟨htakes.volumes, fun i hi => ?_⟩, ?_⟩
  · have hne : i ≠ slot := by
      rintro rfl
      exact hi hfree
    change Function.update s2.fileHandles slot none i ≠ none
    rw [hclosed i hne]
    refine htakes.files i ?_
    change Function.update s.fileHandles slot (some fil) i ≠ none
    rw [hopened i hne]
    exact hi
  · refine Iff.trans (exists_congr fun i => ?_) (htakes.taken.trans ?_)
    · by_cases hi : i = slot
      · subst hi
        simp
      · change _ ∧ Function.update s2.fileHandles slot none i ≠ none ↔
          Function.update s.fileHandles slot (some fil) i = none ∧ _
        rw [hclosed i hi, hopened i hi]
    · exact exists_congr fun path => and_congr_right fun _ => onVolume_congr rfl

/-- What LoadElf has done when it returns a binary. -/
structure Loaded (devices : Devices) (xxh64 : List ℕ → ℕ) (parse : List UInt8 → Image)
    (stale : ℕ → Name) (programName : Name) (p : ℕ) (file : Contents) (s s' : State) : Prop where
  found : fileAt devices xxh64 s.system programName = some file
  takes : Takes xxh64 (interpretersOf stale programName (parse file.val) s) s.system s'.system
  binary : (State.lookup stale s.heap programName s.gELFBinaries = .ok (some p) ∧
      s'.heap = s.heap ∧ s'.gELFBinaries = s.gELFBinaries ∧
      s'.system.fileHandles = s.system.fileHandles) ∨
    (State.lookup stale s.heap programName s.gELFBinaries = .ok none ∧
      ∃ binary, s'.heap p = some binary ∧
        (((parse file.val).interp = [] ∧ binary.interpreterFileHandle = 0) ∨
          (binary.interpreterFileHandle ≠ 0 ∧
            ∀ fil, IsOpen s'.system binary.interpreterFileHandle fil →
              ∃ path ∈ (parse file.val).interp, OnVolume .fat xxh64 s.system path)))

/-- The steps of LoadElf. -/
theorem loadElf_eq_ok
    (h : s.loadElf depth devices xxh64 parse stale programName = .ok (some p, s')) :
    ∃ handle s1 s2, s.openHandle depth devices xxh64 programName = .ok (handle, s1) ∧
      handle ≠ 0 ∧
      s1.loadElfFromHandle depth devices xxh64 parse stale programName handle = .ok (some p, s2) ∧
      s2.system.volumeCloseHandle depth handle = .ok s'.system ∧ s'.heap = s2.heap ∧
      s'.gELFBinaries = s2.gELFBinaries ∧ s'.heapBlocks = s2.heapBlocks := by
  obtain ⟨⟨handle, s1⟩, hopen, h⟩ := bind_eq_ok.mp h
  dsimp only at h
  split_ifs at h with hne
  · obtain ⟨⟨binary, s2⟩, hload, h⟩ := bind_eq_ok.mp h
    obtain ⟨system, hclose, h⟩ := bind_eq_ok.mp h
    cases h
    exact ⟨handle, s1, s2, hopen, hne, hload, mapError_eq_ok.mp hclose, rfl, rfl, rfl⟩
  · cases h

theorem interpretersOf_congr (hheap : s'.heap = s.heap) (hlist : s'.gELFBinaries = s.gELFBinaries) :
    interpretersOf stale programName image s' = interpretersOf stale programName image s := by
  unfold interpretersOf
  rw [hheap, hlist]

theorem implementation_congr {s s' : System} (h : s'.volumeIndices = s.volumeIndices) (handle : ℕ) :
    s'.implementation handle = s.implementation handle := by
  unfold System.implementation
  rw [h]

/-- The file that LoadElf opens. -/
theorem openHandle_opens (hstreams : s.system.implementation 0 = some .standardIo) {fil : Fil}
    (h : s.openHandle depth devices xxh64 path = .ok (handle, s')) (hne : handle ≠ 0)
    (hopen : IsOpen s'.system handle fil) :
    ∃ s1 slot, ∃ file : Contents, MemoryOnly s s1 ∧ Opened devices xxh64 path depth s s1 s' handle ∧
      OpensSlot s1.system s'.system handle slot file ∧
      fileAt devices xxh64 s.system path = some file ∧ fil.contents = file.val := by
  obtain ⟨s1, hmemory, hopens⟩ := openHandle_eq_ok h
  obtain ⟨opened, hvolume, rfl⟩ := hopens.volume
  have hvolumes := (volumeOpenHandle_takes hvolume hne).volumes
  have hfat : OnVolume .fat xxh64 s1.system path :=
    onFat_of_open hvolume ((hmemory.implementation 0).trans hstreams)
      ((implementation_congr hvolumes _).symm.trans hopen.volume) hopen.inRange
  obtain ⟨file, slot, hfile, hslot⟩ := volumeOpenHandle_opens hvolume hfat hne
  refine ⟨s1, slot, file, hmemory, hopens, hslot, ?_, ?_⟩
  · unfold fileAt at *
    rwa [hmemory.volumes] at hfile
  · obtain ⟨fil', hcontents, hsystem⟩ := hslot.opened
    have hentry := hopen.opened
    rw [hslot.fileHandle, hsystem] at hentry
    change Function.update s1.system.fileHandles slot (some fil') slot = some fil at hentry
    rw [Function.update_self] at hentry
    cases hentry
    exact hcontents

theorem loadElf_loaded (hrunning : Running s.memory)
    (hstreams : s.system.implementation 0 = some .standardIo)
    (h : s.loadElf depth devices xxh64 parse stale programName = .ok (some p, s')) :
    ∃ file, Loaded devices xxh64 parse stale programName p file s s' := by
  obtain ⟨handle, s1, s2, hopen, hne, hload, hclose, hheap', hlist', -⟩ := loadElf_eq_ok h
  have hrunning1 := ((State.openHandle_grows hrunning).of_eq_ok hopen).running
  obtain ⟨fil, hisopen, sa, sb, buffer, hsteps⟩ := loadElfFromHandle_eq_ok hrunning1 hne hload
  obtain ⟨sm, slot, file, hmemory, hopens, hslot, hfound, hcontents⟩ :=
    openHandle_opens hstreams hopen hne hisopen
  have halloc := virtualAlloc_memoryOnly.of_eq_ok hsteps.alloc
  have hfree := virtualFree_memoryOnly.of_eq_ok hsteps.free
  have hlater := hsteps.load
  rw [hcontents] at hlater
  -- the binaries are those of the start
  have hheap : sa.heap = s.heap := halloc.heap.trans hopens.heap
  have hlist : sa.gELFBinaries = s.gELFBinaries := halloc.gELFBinaries.trans hopens.gELFBinaries
  have htakes := loadElfFromMemory_takes hlater
  rw [interpretersOf_congr hheap hlist] at htakes
  have hloaded : Takes xxh64 (interpretersOf stale programName (parse file.val) s)
      s1.system s2.system := by
    have h12 := ((Takes.of_same xxh64 halloc.volumes halloc.files).trans htakes).trans
      (Takes.of_same xxh64 hfree.volumes hfree.files)
    rwa [List.nil_append, List.append_nil] at h12
  have hfat := (implementation_congr hloaded.volumes _).trans hisopen.volume
  rw [volumeCloseHandle_file hfat hisopen.inRange, hslot.fileHandle] at hclose
  have hsystem := (Except.ok.inj hclose).symm
  have hstart := Takes.of_same xxh64 hmemory.volumes hmemory.files
  have hend := hslot.takes_close hloaded
  rw [← hsystem] at hend
  refine ⟨file, hfound, hstart.trans hend, ?_⟩
  obtain ⟨hlookup, rfl⟩ | ⟨hlookup, t1, t2, t3, programStart, last, hloads⟩ :=
    loadElfFromMemory_eq_ok hlater
  · rw [hheap, hlist] at hlookup
    refine Or.inl ⟨hlookup, (hheap'.trans hfree.heap).trans hheap,
      (hlist'.trans hfree.gELFBinaries).trans hlist, ?_⟩
    obtain ⟨fil', -, hsystem1⟩ := hslot.opened
    rw [hsystem]
    change Function.update s2.system.fileHandles slot none = s.system.fileHandles
    rw [hfree.files, halloc.files, hsystem1]
    change Function.update (Function.update sm.system.fileHandles slot (some fil')) slot none = _
    rw [Function.update_idem, ← hslot.free, Function.update_eq_self, hmemory.files]
  · rw [hheap, hlist] at hlookup
    obtain ⟨binary, hbinary, -, -, -, hhandle⟩ := hloads.entered.binary
    refine Or.inr ⟨hlookup, binary, by rw [hheap', hfree.heap]; exact hbinary, ?_⟩
    have hbefore := (rpMalloc_memoryOnly.of_eq_ok hloads.malloc).trans
      (virtualAlloc_memoryOnly.of_eq_ok hloads.alloc)
    have hslotVolumes : s1.system.volumeIndices = sm.system.volumeIndices := by
      obtain ⟨fil', -, hsystem1⟩ := hslot.opened
      rw [hsystem1]
    have hvolumes : t2.system.volumeIndices = s.system.volumeIndices :=
      (hbefore.volumes.trans halloc.volumes).trans (hslotVolumes.trans hmemory.volumes)
    have hvolumes' : s'.system.volumeIndices = s.system.volumeIndices :=
      hend.volumes.trans hmemory.volumes
    rcases openInterpreters_last ((implementation_congr hvolumes 0).trans hstreams) hloads.interp with
      ⟨hnil, hlast⟩ | ⟨-, hne', hfat⟩
    · exact Or.inl ⟨hnil, hhandle.trans (congrArg Prod.snd hlast)⟩
    · rw [← hhandle] at hne' hfat
      refine Or.inr ⟨hne', fun fil hfil => ?_⟩
      obtain ⟨path, hmem, hon⟩ := hfat
        ((implementation_congr (hvolumes.trans hvolumes'.symm) _).trans hfil.volume) hfil.inRange
      exact ⟨path, hmem, hon.congr hvolumes.symm⟩

end Load

section Start
variable {s s' : State} {programName : Name} {depth p q : ℕ} {sub : Option ℕ}
  {devices : Devices} {xxh64 : List ℕ → ℕ} {stale : ℕ → Name} {parse : List UInt8 → Image}
  {process : Process} {names names' : List Name} {elfBinary : ElfBinary}
    {tls : ThreadLocal.TlsAllocation}

/-- The first load has left a file open already. -/
theorem Takes.absorb {s s' : System} (h : Takes xxh64 (names ++ names') s s')
    (hfat : ∃ path ∈ names, OnVolume .fat xxh64 s path) : Takes xxh64 names s s' := by
  refine ⟨h.toKeepsFiles, iff_of_true (h.taken.mpr ?_) hfat⟩
  obtain ⟨path, hmem, hon⟩ := hfat
  exact ⟨path, List.mem_append_left _ hmem, hon⟩

/-- The binary that runs is that of the program, or it was loaded from the open file of its
interpreter. -/
theorem loadInterpreter_eq_ok
    (h : s.loadInterpreter depth devices xxh64 parse stale p = .ok ((q, sub), s')) :
    ∃ binary, s.heap p = some binary ∧
      ((binary.interpreterFileHandle = 0 ∧ q = p ∧ s' = s) ∨
        (binary.interpreterFileHandle ≠ 0 ∧
          s.loadElfFromHandle depth devices xxh64 parse stale binary.interpreterName
            binary.interpreterFileHandle = .ok (some q, s'))) := by
  unfold State.loadInterpreter at h
  cases hheap : s.heap p with
  | none =>
    rw [hheap] at h
    cases h
  | some binary =>
    rw [hheap] at h
    refine ⟨binary, rfl, ?_⟩
    dsimp only at h
    split_ifs at h with hzero
    · cases h
      exact Or.inl ⟨hzero, rfl, rfl⟩
    · obtain ⟨⟨loaded, s1⟩, hload, h⟩ := bind_eq_ok.mp h
      cases loaded with
      | none => cases h
      | some q' =>
        cases h
        exact Or.inr ⟨hzero, hload⟩

theorem loadInterpreter_takes (hrunning : Running s.memory)
    (h : s.loadInterpreter depth devices xxh64 parse stale p = .ok ((q, sub), s')) :
    Takes xxh64 (reopens parse stale p s) s.system s'.system := by
  obtain ⟨binary, hheap, ⟨hzero, -, rfl⟩ | ⟨hne, hload⟩⟩ := loadInterpreter_eq_ok h
  · simp only [reopens, hheap, if_pos hzero]
    exact Takes.of_same xxh64 rfl rfl
  · obtain ⟨fil, hopen, s1, s2, buffer, hsteps⟩ := loadElfFromHandle_eq_ok hrunning hne hload
    have halloc := virtualAlloc_memoryOnly.of_eq_ok hsteps.alloc
    have hfree := virtualFree_memoryOnly.of_eq_ok hsteps.free
    have htakes := loadElfFromMemory_takes hsteps.load
    rw [interpretersOf_congr halloc.heap halloc.gELFBinaries] at htakes
    simp only [reopens, hheap, if_neg hne, hopen.opened]
    have hall := ((Takes.of_same xxh64 halloc.volumes halloc.files).trans htakes).trans
      (Takes.of_same xxh64 hfree.volumes hfree.files)
    rwa [List.nil_append, List.append_nil] at hall

theorem reopens_congr (hfiles : s'.system.fileHandles = s.system.fileHandles)
    (hheap : s'.heap = s.heap) (hlist : s'.gELFBinaries = s.gELFBinaries) :
    reopens parse stale p s' = reopens parse stale p s := by
  unfold reopens
  simp only [hheap, hfiles, interpretersOf_congr hheap hlist]

theorem createUserModeTLS_memoryOnly :
    Meets (fun _ => True) (fun r => MemoryOnly s r.2) (s.createUserModeTLS depth elfBinary) :=
  meets_bind rpMalloc_memoryOnly fun _ h1 =>
    meets_bind virtualAlloc_memoryOnly fun _ h2 => meets_pure (h1.trans h2)

/-- The steps of CreateProcess. -/
structure Creates (devices : Devices) (xxh64 : List ℕ → ℕ) (parse : List UInt8 → Image)
    (stale : ℕ → Name) (programName : Name) (depth p : ℕ) (process : Process)
    (elfBinary : ElfBinary) (s s1 s2 s3 s4 s' : State) : Prop where
  malloc : ∃ object, s.rpMalloc depth = .ok (object, s1)
  stack : s1.virtualAlloc depth defaultThreadStackSize = .ok (process.defaultThreadStackBase, s2)
  load : s2.loadElf depth devices xxh64 parse stale programName = .ok (some p, s3)
  interpreter : s3.loadInterpreter depth devices xxh64 parse stale p =
    .ok ((process.binary, process.subBinary), s4)
  binary : s4.heap process.binary = some elfBinary
  tls : s4.createUserModeTLS depth elfBinary = .ok (process.tls, s')

theorem createProcess_eq_ok
    (h : s.createProcess depth devices xxh64 parse stale programName = .ok (some process, s')) :
    ∃ p elfBinary s1 s2 s3 s4,
      Creates devices xxh64 parse stale programName depth p process elfBinary s s1 s2 s3 s4 s' := by
  obtain ⟨⟨object, s1⟩, hmalloc, h⟩ := bind_eq_ok.mp h
  obtain ⟨⟨stack, s2⟩, hstack, h⟩ := bind_eq_ok.mp h
  obtain ⟨⟨loaded, s3⟩, hload, h⟩ := bind_eq_ok.mp h
  cases loaded with
  | none => cases h
  | some p =>
    obtain ⟨⟨⟨binary, subBinary⟩, s4⟩, hinterpreter, h⟩ := bind_eq_ok.mp h
    dsimp only at h
    cases hheap : s4.heap binary with
    | none =>
      rw [hheap] at h
      cases h
    | some elfBinary =>
      rw [hheap] at h
      obtain ⟨⟨tls, s5⟩, htls, h⟩ := bind_eq_ok.mp h
      cases h
      exact ⟨p, elfBinary, s1, s2, s3, s4, ⟨⟨object, hmalloc⟩, hstack, hload, hinterpreter,
        hheap, htls⟩⟩

section Created
variable {s1 s2 s3 s4 : State}
  (h : Creates devices xxh64 parse stale programName depth p process elfBinary s s1 s2 s3 s4 s')
include h

theorem Creates.memoryOnly : MemoryOnly s s2 := by
  obtain ⟨object, hmalloc⟩ := h.malloc
  exact (rpMalloc_memoryOnly.of_eq_ok hmalloc).trans (virtualAlloc_memoryOnly.of_eq_ok h.stack)

theorem Creates.running (hrunning : Running s.memory) : Running s2.memory ∧ Running s3.memory := by
  obtain ⟨object, hmalloc⟩ := h.malloc
  have h1 := (State.rpMalloc_grows hrunning).of_eq_ok hmalloc
  have h2 := ((State.virtualAlloc_grows h1.running (by decide)).of_eq_ok h.stack).1
  exact ⟨h2.running, ((State.loadElf_grows h2.running).of_eq_ok h.load).running⟩

theorem Creates.loaded (hrunning : Running s.memory)
    (hstreams : s.system.implementation 0 = some .standardIo) :
    ∃ file, Loaded devices xxh64 parse stale programName p file s2 s3 :=
  loadElf_loaded (h.running hrunning).1 ((h.memoryOnly.implementation 0).trans hstreams) h.load

/-- The program is in the list; or it is new and has no interpreter; or that of a new
program is a file of FAT. -/
theorem Creates.cases (hrunning : Running s.memory) {file : Contents}
    (hloaded : Loaded devices xxh64 parse stale programName p file s2 s3) :
    (State.lookup stale s2.heap programName s2.gELFBinaries = .ok (some p) ∧
        opensInterpreters devices xxh64 parse stale programName s = reopens parse stale p s3) ∨
      (interpretersOf stale programName (parse file.val) s2 = [] ∧
        opensInterpreters devices xxh64 parse stale programName s = [] ∧
        ∃ binary, s3.heap p = some binary ∧ binary.interpreterFileHandle = 0) ∨
      (opensInterpreters devices xxh64 parse stale programName s =
          interpretersOf stale programName (parse file.val) s2 ∧
        ∃ path ∈ opensInterpreters devices xxh64 parse stale programName s,
          OnVolume .fat xxh64 s.system path) := by
  have hstart := h.memoryOnly
  rcases hloaded.binary with ⟨hlookup, hheap, hlist, hfiles⟩ | ⟨hlookup, binary, hbinary, hcase⟩
  · refine Or.inl ⟨hlookup, ?_⟩
    rw [reopens_congr (hfiles.trans hstart.files) (hheap.trans hstart.heap)
      (hlist.trans hstart.gELFBinaries)]
    rw [hstart.heap, hstart.gELFBinaries] at hlookup
    simp only [opensInterpreters, hlookup]
  · have hfound := hloaded.found
    unfold fileAt at hfound
    rw [hstart.volumes] at hfound
    have hfirst : interpretersOf stale programName (parse file.val) s2 =
        (parse file.val).interp := by
      simp only [interpretersOf, hlookup]
    rw [hstart.heap, hstart.gELFBinaries] at hlookup
    have hopens : opensInterpreters devices xxh64 parse stale programName s =
        (parse file.val).interp := by
      simp only [opensInterpreters, hlookup, fileAt, hfound]
    rw [hopens, hfirst]
    rcases hcase with ⟨hnil, hzero⟩ | ⟨hne, hfat⟩
    · exact Or.inr (Or.inl ⟨hnil, hnil, binary, hbinary, hzero⟩)
    · obtain ⟨binary', hbinary', hinterpreter⟩ := loadInterpreter_eq_ok h.interpreter
      cases hbinary.symm.trans hbinary'
      obtain ⟨hzero, -⟩ | ⟨-, hload⟩ := hinterpreter
      · exact absurd hzero hne
      · obtain ⟨fil, hopen, -⟩ := loadElfFromHandle_eq_ok (h.running hrunning).2 hne hload
        obtain ⟨path, hmem, hon⟩ := hfat fil hopen
        exact Or.inr (Or.inr ⟨rfl, path, hmem, hon.congr hstart.volumes.symm⟩)

/-- A start leaves open what it opens for interpreters. -/
theorem Creates.takes (hrunning : Running s.memory)
    (hstreams : s.system.implementation 0 = some .standardIo) :
    Takes xxh64 (opensInterpreters devices xxh64 parse stale programName s) s.system s'.system := by
  have hstart := h.memoryOnly
  obtain ⟨file, hloaded⟩ := h.loaded hrunning hstreams
  have hsecond := loadInterpreter_takes (h.running hrunning).2 h.interpreter
  have htls := createUserModeTLS_memoryOnly.of_eq_ok h.tls
  have hboth : Takes xxh64 (interpretersOf stale programName (parse file.val) s2 ++
      reopens parse stale p s3) s.system s'.system := by
    have hall := (((Takes.of_same xxh64 hstart.volumes hstart.files).trans
      hloaded.takes).trans hsecond).trans (Takes.of_same xxh64 htls.volumes htls.files)
    rwa [List.nil_append, List.append_nil] at hall
  rcases h.cases hrunning hloaded with ⟨hlookup, hopens⟩ |
    ⟨hnil, hopens, binary, hbinary, hzero⟩ | ⟨hopens, hfat⟩
  · have hfirst : interpretersOf stale programName (parse file.val) s2 = [] := by
      simp only [interpretersOf, hlookup]
    rwa [hfirst, List.nil_append, ← hopens] at hboth
  · have hnone : reopens parse stale p s3 = [] := by
      simp only [reopens, hbinary, if_pos hzero]
    rwa [hnone, hnil, List.append_nil, ← hopens] at hboth
  · rw [← hopens] at hboth
    exact hboth.absorb hfat

end Created

end Start

end Enkel.ProgramRun
