import Enkel.FatHandles
import Enkel.ResourceLedger

/-!
What opening a path does to FileHandles. Only FAT takes an entry, and only the devices
allocate memory.
-/
namespace Enkel.ProgramRun

open Outcome Paging
open BinaryRegistry (Name)
open VolumeSystem (breakPath slash)
open VolumeSystem.FileHandleMask (fileHandle setFileHandle)
open VolumeCalls (System Devices Volume Contents IsOpen fatOpenHandle)
open FileMapping (Fil FileHandles maxFileHandles)

/-- The path leads to such a volume. -/
def OnVolume (volume : Volume) (xxh64 : List ℕ → ℕ) (s : System) (path : Name) : Prop :=
  ∃ handle base, breakPath xxh64 s.volumeIndices path = .ok (handle, base) ∧
    s.implementation handle = some volume

/-- The file that FAT finds at the end of the path. -/
def fileAt (devices : Devices) (xxh64 : List ℕ → ℕ) (s : System) (path : Name) :
    Option Contents :=
  match breakPath xxh64 s.volumeIndices path with
  | .ok (_, base) => devices.fOpen (slash :: path.drop base)
  | .error _ => none

/-- Open files stay open. -/
structure KeepsFiles (s s' : System) : Prop where
  volumes : s'.volumeIndices = s.volumeIndices
  files : ∀ i, s.fileHandles i ≠ none → s'.fileHandles i ≠ none

/-- Open files stay open, and new ones are open exactly if there is a file of FAT among
the names that were opened. -/
structure Takes (xxh64 : List ℕ → ℕ) (names : List Name) (s s' : System) : Prop
    extends KeepsFiles s s' where
  taken : (∃ i, s.fileHandles i = none ∧ s'.fileHandles i ≠ none) ↔
    ∃ path ∈ names, OnVolume .fat xxh64 s path

section Files
variable {s s' s'' : System} {names names' : List Name} {path : Name} {depth : ℕ}
  {devices : Devices} {xxh64 : List ℕ → ℕ} {handle : ℕ} {fil : Fil}
  {opened : VolumeCalls.Opened}

/-- A slot that gets a file stays open or becomes so. -/
theorem update_ne_none {files : FileHandles} {slot i : ℕ} (h : files i ≠ none) :
    Function.update files slot (some fil) i ≠ none := by
  by_cases heq : i = slot
  · simp [heq]
  · rwa [Function.update_of_ne heq]

theorem KeepsFiles.refl (s : System) : KeepsFiles s s := ⟨rfl, fun _ h => h⟩

theorem KeepsFiles.trans (h : KeepsFiles s s') (h' : KeepsFiles s' s'') : KeepsFiles s s'' :=
  ⟨h'.volumes.trans h.volumes, fun i hi => h'.files i (h.files i hi)⟩

theorem OnVolume.congr {volume : Volume} (h : OnVolume volume xxh64 s path)
    (hvolumes : s'.volumeIndices = s.volumeIndices) : OnVolume volume xxh64 s' path := by
  obtain ⟨handle, base, hbreak, himpl⟩ := h
  refine ⟨handle, base, by rw [hvolumes]; exact hbreak, ?_⟩
  unfold System.implementation at *
  rw [hvolumes]
  exact himpl

theorem onVolume_congr {volume : Volume} (hvolumes : s'.volumeIndices = s.volumeIndices) :
    OnVolume volume xxh64 s' path ↔ OnVolume volume xxh64 s path :=
  ⟨fun h => h.congr hvolumes.symm, fun h => h.congr hvolumes⟩

theorem Takes.of_same (xxh64 : List ℕ → ℕ) (hvolumes : s'.volumeIndices = s.volumeIndices)
    (hfiles : s'.fileHandles = s.fileHandles) : Takes xxh64 [] s s' := by
  refine ⟨⟨hvolumes, fun i hi => hfiles ▸ hi⟩, iff_of_false ?_ (by simp)⟩
  rintro ⟨i, hfree, hused⟩
  exact hused (hfiles ▸ hfree)

theorem Takes.trans (h : Takes xxh64 names s s') (h' : Takes xxh64 names' s' s'') :
    Takes xxh64 (names ++ names') s s'' := by
  refine ⟨h.toKeepsFiles.trans h'.toKeepsFiles, ?_⟩
  have htaken' := h'.taken
  simp only [onVolume_congr h.volumes] at htaken'
  simp only [List.mem_append, or_and_right, exists_or, ← h.taken, ← htaken']
  constructor
  · rintro ⟨i, hfree, hused⟩
    by_cases hmiddle : s'.fileHandles i = none
    · exact Or.inr ⟨i, hmiddle, hused⟩
    · exact Or.inl ⟨i, hfree, hmiddle⟩
  · rintro (⟨i, hfree, hused⟩ | ⟨i, hfree, hused⟩)
    · exact ⟨i, hfree, h'.files i hused⟩
    · refine ⟨i, ?_, hused⟩
      by_contra hopen
      exact h.files i hopen hfree

/-- A file is open in a slot that was free. -/
structure OpensSlot (s s' : System) (handle slot : ℕ) (contents : Contents) : Prop where
  free : s.fileHandles slot = none
  opened : ∃ fil, fil.contents = contents.val ∧
    s' = { s with fileHandles := Function.update s.fileHandles slot (some fil) }
  fileHandle : fileHandle handle = slot
  slot_lt : slot < maxFileHandles
  fat : s.implementation handle = some .fat

/-- Writing the slot into a handle keeps its volume. -/
theorem implementation_setFileHandle {v : ℕ} :
    s.implementation (setFileHandle v handle) = s.implementation handle := by
  unfold System.implementation VolumeSystem.getVolumeIndex VolumeSystem.FileHandleMask.segments
    VolumeSystem.FileHandleMask.volumeIndex setFileHandle
  rw [BitFields.field_setField_of_ge _ _ (by decide), BitFields.field_setField_of_ge _ _ (by decide)]

theorem freeSlot_eq_some {files : FileHandles} {slot : ℕ}
    (h : VolumeCalls.freeSlot files = some slot) : slot < maxFileHandles ∧ files slot = none := by
  unfold VolumeCalls.freeSlot at h
  have hmem := List.mem_of_find?_eq_some h
  have hfree := List.find?_some h
  exact ⟨List.mem_range.mp hmem, by simpa using hfree⟩

theorem fatOpenHandle_opens {volumeHandle : ℕ} {files : FileHandles}
    (h : fatOpenHandle s.fileHandles devices.fOpen volumeHandle path = .ok (opened, files))
    (hfat : s.implementation volumeHandle = some .fat) (hne : opened.value ≠ 0) :
    ∃ contents slot, devices.fOpen (slash :: path) = some contents ∧
      OpensSlot s { s with fileHandles := files } opened.value slot contents := by
  unfold fatOpenHandle at h
  obtain ⟨u, -, h⟩ := bind_eq_ok.mp h
  cases hslot : VolumeCalls.freeSlot s.fileHandles with
  | none =>
    rw [hslot] at h
    cases h
    exact absurd rfl hne
  | some slot =>
    cases hfile : devices.fOpen (slash :: path) with
    | none =>
      simp only [hslot, hfile] at h
      cases h
      exact absurd rfl hne
    | some contents =>
      simp only [hslot, hfile] at h
      cases h
      obtain ⟨hlt, hfree⟩ := freeSlot_eq_some hslot
      exact ⟨contents, slot, rfl,
        { free := hfree
          opened := ⟨_, rfl, rfl⟩
          fileHandle := FatHandles.fileHandle_setFileHandle hlt _
          slot_lt := hlt
          fat := implementation_setFileHandle.trans hfat }⟩

theorem onVolume_iff {volume : Volume} {volumeHandle base : ℕ}
    (hbreak : breakPath xxh64 s.volumeIndices path = .ok (volumeHandle, base)) :
    OnVolume volume xxh64 s path ↔ s.implementation volumeHandle = some volume := by
  constructor
  · rintro ⟨volumeHandle', base', hbreak', himpl⟩
    cases hbreak.symm.trans hbreak'
    exact himpl
  · exact fun himpl => ⟨volumeHandle, base, hbreak, himpl⟩

/-- VolumeOpenHandle finds the volume of a path, and asks it. -/
theorem volumeOpenHandle_eq_ok
    (h : s.volumeOpenHandle depth devices xxh64 0 path = .ok (opened, s')) :
    ∃ volumeHandle base, breakPath xxh64 s.volumeIndices path = .ok (volumeHandle, base) ∧
      ((s.implementation volumeHandle = none ∧ opened = .nothing VolumeCalls.einval ∧ s' = s) ∨
        ∃ volume, s.implementation volumeHandle = some volume ∧
          volume.openHandle depth devices s volumeHandle (path.drop base) = .ok (opened, s')) := by
  unfold System.volumeOpenHandle at h
  rw [if_pos rfl] at h
  obtain ⟨⟨volumeHandle, base⟩, hbreak, h⟩ := bind_eq_ok.mp h
  refine ⟨volumeHandle, base, mapError_eq_ok.mp hbreak, ?_⟩
  dsimp only at h
  rw [VolumeCalls.volumeOf_implementation, ok_bind] at h
  cases himpl : s.implementation volumeHandle with
  | none =>
    rw [himpl] at h
    cases h
    exact Or.inl ⟨rfl, rfl, rfl⟩
  | some volume =>
    rw [himpl] at h
    exact Or.inr ⟨volume, rfl, h⟩

/-- The other volumes have no part in FileHandles. -/
theorem openHandle_other {volume : Volume} {volumeHandle : ℕ} (hother : volume ≠ .fat) :
    Meets (fun _ => True)
      (fun r => r.2.volumeIndices = s.volumeIndices ∧ r.2.fileHandles = s.fileHandles)
      (volume.openHandle depth devices s volumeHandle path) := by
  cases volume with
  | standardIo => exact meets_ok ⟨rfl, rfl⟩
  | specialProc =>
    unfold Volume.openHandle
    cases VolumeCalls.procSpecialPaths.findIdx? (VolumeCalls.SameText · path) with
    | none => exact meets_ok ⟨rfl, rfl⟩
    | some index => exact meets_ok ⟨rfl, rfl⟩
  | device =>
    unfold Volume.openHandle
    cases VolumeCalls.deviceSpecialPaths.findIdx? (VolumeCalls.SameText · path) with
    | none => exact meets_ok ⟨rfl, rfl⟩
    | some index =>
      refine meets_bind (meets_self _) fun _ _ => meets_bind (meets_self _) fun _ _ => ?_
      exact meets_bind (meets_self _) fun _ _ => meets_pure ⟨rfl, rfl⟩
  | fat => exact absurd rfl hother
  | cdrom => exact meets_ok ⟨rfl, rfl⟩

/-- Only the devices allocate memory. -/
theorem openHandle_memory {volume : Volume} {volumeHandle : ℕ} (hother : volume ≠ .device) :
    Meets (fun _ => True) (fun r => r.2.memory = s.memory)
      (volume.openHandle depth devices s volumeHandle path) := by
  cases volume with
  | standardIo => exact meets_ok rfl
  | specialProc =>
    unfold Volume.openHandle
    cases VolumeCalls.procSpecialPaths.findIdx? (VolumeCalls.SameText · path) with
    | none => exact meets_ok rfl
    | some index => exact meets_ok rfl
  | device => exact absurd rfl hother
  | fat => exact meets_bind (meets_self _) fun r _ => meets_pure rfl
  | cdrom => exact meets_ok rfl

/-- VolumeOpenHandle on a path to FAT. -/
theorem volumeOpenHandle_opens
    (h : s.volumeOpenHandle depth devices xxh64 0 path = .ok (opened, s'))
    (hfat : OnVolume .fat xxh64 s path) (hne : opened.value ≠ 0) :
    ∃ contents slot, fileAt devices xxh64 s path = some contents ∧
      OpensSlot s s' opened.value slot contents := by
  obtain ⟨volumeHandle, base, hbreak, hvolume⟩ := volumeOpenHandle_eq_ok h
  have himpl := (onVolume_iff hbreak).mp hfat
  rcases hvolume with ⟨hnone, -⟩ | ⟨volume, hsome, hopen⟩
  · rw [hnone] at himpl
    cases himpl
  · obtain rfl := Option.some.inj (hsome.symm.trans himpl)
    obtain ⟨⟨o, files⟩, hfound, hrest⟩ := bind_eq_ok.mp hopen
    cases hrest
    obtain ⟨contents, slot, hfile, hopens⟩ := fatOpenHandle_opens hfound himpl hne
    refine ⟨contents, slot, ?_, hopens⟩
    unfold fileAt
    rw [hbreak]
    exact hfile

/-- A path to a file of FAT is opened while there is an entry for it. -/
theorem volumeOpenHandle_file {volumeHandle base slot : ℕ} {contents : Contents}
    (hbreak : breakPath xxh64 s.volumeIndices path = .ok (volumeHandle, base))
    (hfat : s.implementation volumeHandle = some .fat)
    (hlength : (slash :: path.drop base).length < 256)
    (hslot : VolumeCalls.freeSlot s.fileHandles = some slot)
    (hfile : devices.fOpen (slash :: path.drop base) = some contents) :
    s.volumeOpenHandle depth devices xxh64 0 path =
      .ok (.file (setFileHandle slot volumeHandle),
        { s with
          fileHandles := Function.update s.fileHandles slot
            (some ⟨contents.val, 0, contents.property, Nat.zero_le _⟩) }) := by
  unfold System.volumeOpenHandle
  rw [if_pos rfl, hbreak, mapError_ok, ok_bind]
  dsimp only
  rw [VolumeCalls.volumeOf_implementation, ok_bind, hfat]
  simp only [Option.map_some, Volume.openHandle, fatOpenHandle, require_true hlength, ok_bind,
    hslot, hfile]
  rfl

theorem volumeOpenHandle_takes
    (h : s.volumeOpenHandle depth devices xxh64 0 path = .ok (opened, s'))
    (hne : opened.value ≠ 0) : Takes xxh64 [path] s s' := by
  by_cases hfat : OnVolume .fat xxh64 s path
  · obtain ⟨contents, slot, -, hopens⟩ := volumeOpenHandle_opens h hfat hne
    obtain ⟨fil, -, rfl⟩ := hopens.opened
    exact ⟨⟨rfl, fun i => update_ne_none⟩,
      iff_of_true ⟨slot, hopens.free, by simp⟩ ⟨path, List.mem_cons_self, hfat⟩⟩
  · obtain ⟨hvolumes, hfiles⟩ : s'.volumeIndices = s.volumeIndices ∧
        s'.fileHandles = s.fileHandles := by
      obtain ⟨volumeHandle, base, hbreak, ⟨-, -, rfl⟩ | ⟨volume, hsome, hopen⟩⟩ :=
        volumeOpenHandle_eq_ok h
      · exact ⟨rfl, rfl⟩
      · have hother : volume ≠ .fat := fun heq => hfat ((onVolume_iff hbreak).mpr (heq ▸ hsome))
        exact (openHandle_other hother).of_eq_ok hopen
    have hsame := Takes.of_same xxh64 hvolumes hfiles
    refine ⟨hsame.toKeepsFiles, hsame.taken.trans (iff_of_false (by simp) ?_)⟩
    rintro ⟨path', hmem, hfat'⟩
    exact hfat (List.mem_singleton.mp hmem ▸ hfat')

theorem volumeOpenHandle_memory
    (h : s.volumeOpenHandle depth devices xxh64 0 path = .ok (opened, s'))
    (hdevice : ¬ OnVolume .device xxh64 s path) : s'.memory = s.memory := by
  obtain ⟨volumeHandle, base, hbreak, ⟨-, -, rfl⟩ | ⟨volume, hsome, hopen⟩⟩ :=
    volumeOpenHandle_eq_ok h
  · rfl
  · have hother : volume ≠ .device := fun heq => hdevice ((onVolume_iff hbreak).mpr (heq ▸ hsome))
    exact (openHandle_memory hother).of_eq_ok hopen

/-- A handle that selects an entry of FileHandles is that of a file of FAT: the first
volume is that of the streams, and an error number selects none. -/
theorem onFat_of_open (h : s.volumeOpenHandle depth devices xxh64 0 path = .ok (opened, s'))
    (hstreams : s.implementation 0 = some .standardIo)
    (hfat : s.implementation opened.value = some .fat)
    (hslot : fileHandle opened.value < maxFileHandles) : OnVolume .fat xxh64 s path := by
  obtain ⟨volumeHandle, base, hbreak, ⟨-, rfl, -⟩ | ⟨volume, hsome, hopen⟩⟩ :=
    volumeOpenHandle_eq_ok h
  · exact absurd hslot (by decide)
  · rw [onVolume_iff hbreak]
    cases volume with
    | standardIo =>
      cases hopen
      have hfirst : s.implementation (if (path.drop base).head? = some 0x6B then 3 else 0) =
          s.implementation 0 := by
        split_ifs <;> rfl
      exact absurd (hfat.symm.trans (hfirst.trans hstreams)) (by simp)
    | specialProc =>
      unfold Volume.openHandle at hopen
      cases hfound : VolumeCalls.procSpecialPaths.findIdx?
        (VolumeCalls.SameText · (path.drop base)) with
      | none =>
        simp only [hfound] at hopen
        cases hopen
        exact absurd hslot (by decide)
      | some index =>
        simp only [hfound] at hopen
        cases hopen
        exact absurd (hfat.symm.trans (implementation_setFileHandle.trans hsome)) (by simp)
    | device =>
      unfold Volume.openHandle at hopen
      cases hfound : VolumeCalls.deviceSpecialPaths.findIdx?
        (VolumeCalls.SameText · (path.drop base)) with
      | none =>
        simp only [hfound] at hopen
        cases hopen
        exact absurd hslot (by decide)
      | some index =>
        simp only [hfound] at hopen
        obtain ⟨u, -, hopen⟩ := bind_eq_ok.mp hopen
        obtain ⟨r, -, hopen⟩ := bind_eq_ok.mp hopen
        obtain ⟨k, -, hopen⟩ := bind_eq_ok.mp hopen
        cases hopen
        exact absurd (hfat.symm.trans (implementation_setFileHandle.trans
          (implementation_setFileHandle.trans hsome))) (by simp)
    | fat => exact hsome
    | cdrom =>
      cases hopen
      exact absurd (hfat.symm.trans hsome) (by simp)

end Files

end Enkel.ProgramRun
