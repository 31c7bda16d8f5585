import Enkel.PositionedReads

/-!
When the system calls on descriptors return. A volume calls what its table and the
arrays behind it hold for the handle, whether or not a file was opened there; a handle
without a volume, and a stream that is not there, are answered with an error.
-/
namespace Enkel.VolumeCalls

open Outcome Paging VolumeSystem FileHandleMask StandardStreams
open FileMapping (Fil FileHandles currentOffset maxFileHandles)

/-- The handle that a call takes its descriptor for. -/
def Call.handle (fd : ℕ) : Call → ℕ
  | read _ | pread64 _ _ | write _ _ | close => fd % 2 ^ 64
  | writev _ | newfstatat => ofInt fd
  | lseek _ _ | ioctl _ => fd % 2 ^ 32

section Conditions
variable (s : System) (handle : ℕ)

def System.implementation : Option Volume :=
  (getVolumeIndex s.volumeIndices handle).volumeImplementation

/-- The handle is one of an open file of FAT, if its volume is FAT. -/
def System.HasFile : Prop :=
  fileHandle handle < maxFileHandles ∧ (s.fileHandles (fileHandle handle)).isSome

/-- The handle is one that OpenHandle of its volume returns while a file is open. -/
def System.Designates : Prop :=
  match s.implementation handle with
  | none => False
  | some .standardIo => handle < 4
  | some .specialProc => fileHandle handle = 0
  | some .device => fileHandle handle = 0
  | some .fat => s.HasFile handle
  | some .cdrom => True

/-- The streams 1 and 2 have no Read. -/
def System.Reads (offset size : ℕ) : Prop :=
  match s.implementation handle with
  | none => True
  | some .standardIo => handle ≠ 1 ∧ handle ≠ 2
  | some .specialProc => fileHandle handle = 0
  | some .device => fileHandle handle = 0
  | some .fat => size = 0 ∨ s.HasFile handle ∧ (offset ≠ currentOffset → offset < 2 ^ 63)
  | some .cdrom => True

/-- The streams 0 and 3 have no Write, and 1 and 2 do not get past a NUL in front. -/
def System.Writes (buffer : ℕ → UInt8) (size : ℕ) : Prop :=
  match s.implementation handle with
  | none => True
  | some .standardIo =>
    handle ≠ 0 ∧ handle ≠ 3 ∧ (handle < 4 → size = 0 ∨ buffer 0 ≠ 0)
  | some .specialProc => False
  | some .device => fileHandle handle = 0
  | some .fat => size = 0 ∨ s.HasFile handle
  | some .cdrom => False

def System.Seeks : Prop :=
  match s.implementation handle with
  | some .device => fileHandle handle = 0
  | some .fat => handle = 0 ∨ s.HasFile handle
  | _ => True

def System.Commands : Prop :=
  match s.implementation handle with
  | some .device => fileHandle handle = 0
  | _ => True

def System.HasSize : Prop :=
  match s.implementation handle with
  | none => True
  | some .standardIo => True
  | some .specialProc => False
  | some .device => fileHandle handle = 0
  | some .fat => s.HasFile handle
  | some .cdrom => False

/-- VirtualFree takes the memory of the framebuffer back. -/
def System.Releases (depth : ℕ) : Prop :=
  Succeeds (s.memory.virtualFree depth s.frameBufferMemory s.frameBufferByteSize)

def System.Closes (depth : ℕ) : Prop :=
  match s.implementation handle with
  | some .device => fileHandle handle = 0 ∧ s.Releases depth
  | some .fat => fileHandle handle < maxFileHandles
  | _ => True

/-- When a call on a handle returns. -/
def Call.Returns (depth : ℕ) : Call → Prop
  | read dataSize => s.Reads handle currentOffset dataSize
  | pread64 dataSize offset => s.Reads handle offset dataSize
  | write data dataSize => s.Writes handle data dataSize
  | writev iov => ∀ v ∈ iov, s.Writes handle v.iovBase v.iovLen
  | lseek _ origin => seekMode origin ≠ none → s.Seeks handle
  | ioctl _ => s.Commands handle
  | newfstatat => s.HasSize handle
  | close => s.Closes handle depth

/-- The calls that would answer a bad handle with an error: sys_close returns 0, FAT
reads and writes no bytes of any file, and there may be no piece to write. -/
def Call.Reports : Call → Prop
  | read _ | pread64 _ _ | write _ _ => s.implementation handle ≠ some .fat
  | writev iov => iov ≠ [] ∧ s.implementation handle ≠ some .fat
  | lseek _ _ | ioctl _ | newfstatat => True
  | close => False

end Conditions

/-- An error value, as a long. -/
def Answer.IsError (answer : Answer) : Prop := signed64 (unsigned64 answer.returned) < 0

/-- The call returns, and a bad descriptor gives an error value. -/
def Safe (depth : ℕ) (devices : Devices) (fd : ℕ) (s : System) (c : Call) : Prop :=
  ∃ answer s', call depth devices fd s c = .ok (answer, s') ∧
    (¬ s.Designates (c.handle fd) → answer.IsError)

section Returns
variable {s : System} {devices : Devices} {handle offset size depth : ℕ} {buffer : ℕ → UInt8}

theorem volumeOf_implementation (s : System) (handle : ℕ) : s.volumeOf handle =
    .ok ((s.implementation handle).map fun volume =>
      (volume, (getVolumeIndex s.volumeIndices handle).context)) := s.volumeOf_eq handle

theorem succeeds_deviceEntry : Succeeds (deviceEntry handle) ↔ fileHandle handle = 0 := by
  simp only [deviceEntry, succeeds_require_bind, succeeds_require]
  omega

theorem succeeds_fatFile : Succeeds (fatFile handle s.fileHandles) ↔ s.HasFile handle := by
  simp only [fatFile, succeeds_require_bind, System.HasFile]
  cases s.fileHandles (fileHandle handle) <;> simp

/-- As many turns as there are bytes are enough for the loop of the streams. -/
theorem writeLoop_isSome_iff (print : List ℕ → ConsoleCall) :
    (writeLoop print buffer size size).isSome ↔ size = 0 ∨ buffer 0 ≠ 0 := by
  constructor
  · intro h
    exact terminates_loop_iff.mp ⟨size, h⟩
  · rintro (rfl | hbyte)
    · rfl
    · exact writeLoop_isSome hbyte le_rfl

theorem succeeds_standardWrite {write : VolumeWrite} {print : List ℕ → ConsoleCall}
    (h : write size buffer size =
      (writeLoop print buffer size size).map fun calls => (calls, size)) :
    Succeeds (standardWrite write buffer size) ↔ size = 0 ∨ buffer 0 ≠ 0 := by
  rw [← writeLoop_isSome_iff print]
  unfold standardWrite
  rw [h]
  cases writeLoop print buffer size size <;> simp

theorem volumeRead_returns :
    Succeeds (s.volumeRead devices handle offset size) ↔ s.Reads handle offset size := by
  unfold System.volumeRead System.Reads
  rw [volumeOf_implementation, ok_bind]
  cases s.implementation handle with
  | none => simp
  | some volume =>
    cases volume with
    | standardIo =>
      simp only [Option.map_some, Volume.read]
      split_ifs <;> simp <;> omega
    | specialProc =>
      simp only [Option.map_some, Volume.read, succeeds_require_bind, succeeds_pure, and_true]
      omega
    | device =>
      simp only [Option.map_some, Volume.read]
      rw [succeeds_bind fun _ => succeeds_pure _, succeeds_deviceEntry]
    | fat =>
      simp only [Option.map_some, Volume.read]
      rw [succeeds_bind fun _ => succeeds_pure _, succeeds_mapError]
      unfold FileMapping.fatVolumeRead System.HasFile
      split_ifs with hzero
      · simp [hzero]
      · simp only [succeeds_require_bind, hzero, false_or]
        cases s.fileHandles (fileHandle handle) <;> simp
    | cdrom => simp [Volume.read]

theorem volumeWrite_returns :
    Succeeds (s.volumeWrite handle currentOffset buffer size) ↔ s.Writes handle buffer size := by
  unfold System.volumeWrite System.Writes
  rw [volumeOf_implementation, ok_bind]
  cases s.implementation handle with
  | none => simp
  | some volume =>
    cases volume with
    | standardIo =>
      simp only [Option.map_some, Volume.write]
      split_ifs with hlt hout herr
      · rw [succeeds_bind fun _ => succeeds_pure _, succeeds_standardWrite rfl]
        simp [hout]
      · rw [succeeds_bind fun _ => succeeds_pure _, succeeds_standardWrite rfl]
        simp [herr]
      · simp only [not_succeeds_error, false_iff]
        omega
      · simp only [succeeds_ok, true_iff]
        omega
    | device => exact (succeeds_bind fun _ => succeeds_pure _).trans succeeds_deviceEntry
    | fat =>
      simp only [Option.map_some, Volume.write, fatVolumeWrite]
      rw [succeeds_bind fun _ => succeeds_pure _]
      by_cases hzero : size = 0
      · simp [hzero]
      · rw [if_neg hzero, succeeds_bind fun fil => by simp, succeeds_fatFile]
        simp [hzero]
    | _ => simp [Volume.write]

theorem volumeSeek_returns {offset : ℤ} {origin : SeekMode} :
    Succeeds (s.volumeSeek handle offset origin) ↔ s.Seeks handle := by
  unfold System.volumeSeek System.Seeks
  rw [volumeOf_implementation, ok_bind]
  cases s.implementation handle with
  | none => simp
  | some volume =>
    by_cases hzero : handle = 0
    · subst hzero
      cases volume <;> simp [show fileHandle 0 = 0 from rfl]
    · simp only [Option.map_some, hzero, ne_eq, not_false_iff, if_true, false_or]
      cases volume with
      | device => exact (succeeds_bind fun _ => succeeds_pure _).trans succeeds_deviceEntry
      | fat =>
        simp only [Volume.seek, fatVolumeSeek]
        rw [succeeds_bind fun _ => succeeds_pure _, succeeds_bind fun _ => succeeds_pure _,
          succeeds_fatFile]
      | _ => simp [Volume.seek]

theorem volumeCommand_returns {command : ℕ} :
    Succeeds (s.volumeCommand handle command) ↔ s.Commands handle := by
  unfold System.volumeCommand System.Commands
  rw [volumeOf_implementation, ok_bind]
  cases s.implementation handle with
  | none => simp
  | some volume =>
    cases volume with
    | device => exact (succeeds_bind fun _ => succeeds_pure _).trans succeeds_deviceEntry
    | _ => simp [Volume.command]

theorem volumeGetSize_returns : Succeeds (s.volumeGetSize handle) ↔ s.HasSize handle := by
  unfold System.volumeGetSize System.HasSize
  rw [volumeOf_implementation, ok_bind]
  cases s.implementation handle with
  | none => simp
  | some volume =>
    cases volume with
    | device => exact (succeeds_bind fun _ => succeeds_pure _).trans succeeds_deviceEntry
    | fat => exact (succeeds_bind fun _ => succeeds_pure _).trans succeeds_fatFile
    | _ => simp [Volume.getSize]

/-- After a close the framebuffer is at 0. If no page is mapped there, a second close
does not return. -/
theorem not_releases_of_unmapped
    (h : s.memory.getPhysicalAddress s.frameBufferMemory true = invalidAddress) :
    ¬ s.Releases depth := by
  rintro ⟨memory, hrun⟩
  unfold KernelMemory.virtualFree KernelMemory.mapPages mapPagesWith at hrun
  obtain ⟨-, -, hrun⟩ := bind_eq_ok.mp hrun
  obtain ⟨-, -, hrun⟩ := bind_eq_ok.mp hrun
  obtain ⟨_, hphysical, -⟩ := bind_eq_ok.mp hrun
  have haligned := require_eq_ok.mp hphysical
  rw [h] at haligned
  exact absurd haligned (by decide)

theorem volumeCloseHandle_returns :
    Succeeds (s.volumeCloseHandle depth handle) ↔ s.Closes handle depth := by
  unfold System.volumeCloseHandle System.Closes
  rw [volumeOf_implementation, ok_bind]
  cases s.implementation handle with
  | none => simp
  | some volume =>
    cases volume with
    | device =>
      simp only [Option.map_some, Volume.closeHandle, deviceEntry, framebufferCloseHandle,
        bind_assoc, succeeds_require_bind]
      rw [succeeds_bind fun _ => succeeds_pure _, succeeds_mapError]
      exact ⟨fun ⟨_, hzero, hfree⟩ => ⟨hzero, hfree⟩,
        fun ⟨hzero, hfree⟩ => ⟨by omega, hzero, hfree⟩⟩
    | fat =>
      simp only [Option.map_some, Volume.closeHandle, fatCloseHandle]
      rw [succeeds_bind fun _ => succeeds_pure _, succeeds_require_bind]
      simp
    | _ => simp [Volume.closeHandle]

end Returns

section Answers
variable {s s' : System} {devices : Devices} {handle offset size depth returned : ℕ}
  {buffer : ℕ → UInt8}

/-- A bad handle of FAT reads and writes nothing; elsewhere an error is returned. -/
theorem volumeRead_bad {data : List UInt8} (hbad : ¬ s.Designates handle)
    (h : s.volumeRead devices handle offset size = .ok (returned, data, s')) :
    if s.implementation handle = some .fat then returned = 0
    else returned = einval ∨ returned = 2 ^ 64 - 1 := by
  have hreads := volumeRead_returns.mp ⟨_, h⟩
  unfold System.Designates at hbad
  unfold System.Reads at hreads
  unfold System.volumeRead at h
  rw [volumeOf_implementation, ok_bind] at h
  cases himp : s.implementation handle with
  | none =>
    rw [himp] at h
    cases h
    simp
  | some volume =>
    simp only [himp, Option.map_some] at h hbad hreads
    cases volume with
    | standardIo =>
      simp only [Volume.read, if_neg hbad] at h
      cases h
      simp
    | specialProc => exact absurd hreads hbad
    | device => exact absurd hreads hbad
    | fat =>
      obtain rfl : size = 0 := hreads.resolve_right fun hfile => hbad hfile.1
      simp only [Volume.read, FileMapping.fatVolumeRead, if_true, mapError_ok, ok_bind] at h
      cases h
      rfl
    | cdrom => exact absurd trivial hbad

theorem volumeWrite_bad {calls : List ConsoleCall} (hbad : ¬ s.Designates handle)
    (h : s.volumeWrite handle currentOffset buffer size = .ok (returned, calls, s')) :
    if s.implementation handle = some .fat then returned = 0
    else returned = einval ∨ returned = 2 ^ 64 - 1 := by
  have hwrites := volumeWrite_returns.mp ⟨_, h⟩
  unfold System.Designates at hbad
  unfold System.Writes at hwrites
  unfold System.volumeWrite at h
  rw [volumeOf_implementation, ok_bind] at h
  cases himp : s.implementation handle with
  | none =>
    rw [himp] at h
    cases h
    simp
  | some volume =>
    simp only [himp, Option.map_some] at h hbad hwrites
    cases volume with
    | standardIo =>
      simp only [Volume.write, if_neg hbad] at h
      cases h
      simp
    | device => exact absurd hwrites hbad
    | fat =>
      obtain rfl : size = 0 := hwrites.resolve_right hbad
      simp only [Volume.write, fatVolumeWrite, if_true, ok_bind] at h
      cases h
      rfl
    | _ => exact hwrites.elim

theorem volumeSeek_bad {offset : ℤ} {origin : SeekMode} (hbad : ¬ s.Designates handle)
    (h : s.volumeSeek handle offset origin = .ok (returned, s')) : returned = einval := by
  have hseeks := volumeSeek_returns.mp ⟨_, h⟩
  unfold System.Designates at hbad
  unfold System.Seeks at hseeks
  unfold System.volumeSeek at h
  rw [volumeOf_implementation, ok_bind] at h
  cases himp : s.implementation handle with
  | none =>
    rw [himp] at h
    cases h
    rfl
  | some volume =>
    simp only [himp, Option.map_some] at h hbad hseeks
    split_ifs at h with hzero
    · cases volume with
      | device => exact absurd hseeks hbad
      | fat => exact absurd (hseeks.resolve_left hzero) hbad
      | _ =>
        cases h
        rfl
    · cases h
      rfl

theorem volumeCommand_bad {command : ℕ} (hbad : ¬ s.Designates handle)
    (h : s.volumeCommand handle command = .ok returned) : returned = einval := by
  have hcommands := volumeCommand_returns.mp ⟨_, h⟩
  unfold System.Designates at hbad
  unfold System.Commands at hcommands
  unfold System.volumeCommand at h
  rw [volumeOf_implementation, ok_bind] at h
  cases himp : s.implementation handle with
  | none =>
    rw [himp] at h
    cases h
    rfl
  | some volume =>
    simp only [himp, Option.map_some] at h hbad hcommands
    cases volume with
    | device => exact absurd hcommands hbad
    | _ =>
      cases h
      rfl

theorem volumeGetSize_bad (hbad : ¬ s.Designates handle)
    (h : s.volumeGetSize handle = .ok returned) : returned = einval := by
  have hsize := volumeGetSize_returns.mp ⟨_, h⟩
  unfold System.Designates at hbad
  unfold System.HasSize at hsize
  unfold System.volumeGetSize at h
  rw [volumeOf_implementation, ok_bind] at h
  cases himp : s.implementation handle with
  | none =>
    rw [himp] at h
    cases h
    rfl
  | some volume =>
    simp only [himp, Option.map_some] at h hbad hsize
    cases volume with
    | standardIo =>
      cases h
      rfl
    | device => exact absurd hsize hbad
    | fat => exact absurd hsize hbad
    | _ => exact hsize.elim

/-- The same volumes are mounted, and the same slots of FileHandles are taken. -/
structure Keeps (s s' : System) : Prop where
  volumeIndices : s'.volumeIndices = s.volumeIndices
  occupied : ∀ i, (s'.fileHandles i).isSome = (s.fileHandles i).isSome

theorem Keeps.refl (s : System) : Keeps s s := ⟨rfl, fun _ => rfl⟩

theorem Keeps.implementation (h : Keeps s s') :
    s'.implementation handle = s.implementation handle := by
  unfold System.implementation
  rw [h.volumeIndices]

theorem Keeps.hasFile (h : Keeps s s') : s'.HasFile handle ↔ s.HasFile handle := by
  unfold System.HasFile
  rw [h.occupied]

theorem Keeps.designates (h : Keeps s s') : s'.Designates handle ↔ s.Designates handle := by
  unfold System.Designates
  rw [h.implementation]
  simp only [h.hasFile]

theorem Keeps.writes (h : Keeps s s') :
    s'.Writes handle buffer size ↔ s.Writes handle buffer size := by
  unfold System.Writes
  rw [h.implementation]
  simp only [h.hasFile]

/-- A write leaves every file open. -/
theorem volumeWrite_keeps {calls : List ConsoleCall}
    (h : s.volumeWrite handle offset buffer size = .ok (returned, calls, s')) : Keeps s s' := by
  unfold System.volumeWrite at h
  rw [volumeOf_implementation, ok_bind] at h
  cases himp : s.implementation handle with
  | none =>
    rw [himp] at h
    cases h
    exact .refl s
  | some volume =>
    simp only [himp, Option.map_some] at h
    cases volume with
    | standardIo =>
      simp only [Volume.write] at h
      split_ifs at h
      · obtain ⟨_, -, h⟩ := bind_eq_ok.mp h
        cases h
        exact .refl s
      · obtain ⟨_, -, h⟩ := bind_eq_ok.mp h
        cases h
        exact .refl s
      · cases h
        exact .refl s
    | device =>
      obtain ⟨_, -, h⟩ := bind_eq_ok.mp h
      cases h
      exact .refl s
    | fat =>
      obtain ⟨⟨_, files⟩, hfiles, h⟩ := bind_eq_ok.mp h
      cases h
      refine ⟨rfl, fun i => ?_⟩
      unfold fatVolumeWrite at hfiles
      by_cases hzero : size = 0
      · rw [if_pos hzero] at hfiles
        cases hfiles
        rfl
      · rw [if_neg hzero] at hfiles
        obtain ⟨fil, hfil, hfiles⟩ := bind_eq_ok.mp hfiles
        obtain ⟨-, -, hfiles⟩ := bind_eq_ok.mp hfiles
        cases hfiles
        have hopen := (succeeds_fatFile.mp ⟨_, hfil⟩).2
        by_cases hi : i = fileHandle handle
        · subst hi
          rw [hopen]
          simp
        · simp [hi]
    | _ => cases h

end Answers

section Writev
variable {s s' : System} {handle total n : ℕ} {printed calls : List ConsoleCall}
  {iov : List Iovec}

theorem writevLoop_returns : Succeeds (writevLoop handle iov total printed s) ↔
    ∀ v ∈ iov, s.Writes handle v.iovBase v.iovLen := by
  induction iov generalizing s total printed with
  | nil => simp [writevLoop]
  | cons v iov ih =>
    rw [List.forall_mem_cons]
    unfold writevLoop
    constructor
    · rintro ⟨result, hrun⟩
      obtain ⟨⟨returned, calls, s1⟩, hwrite, hrest⟩ := bind_eq_ok.mp hrun
      refine ⟨volumeWrite_returns.mp ⟨_, hwrite⟩, fun w hw => ?_⟩
      exact (volumeWrite_keeps hwrite).writes.mp (ih.mp ⟨_, hrest⟩ w hw)
    · rintro ⟨hv, hiov⟩
      obtain ⟨⟨returned, calls, s1⟩, hwrite⟩ := volumeWrite_returns.mpr hv
      rw [hwrite, ok_bind]
      exact ih.mpr fun w hw => (volumeWrite_keeps hwrite).writes.mpr (hiov w hw)

/-- A bad handle of FAT adds nothing to the total. -/
theorem writevLoop_fat (hbad : ¬ s.Designates handle)
    (hfat : s.implementation handle = some .fat)
    (h : writevLoop handle iov 0 printed s = .ok (total, calls, s')) : total = 0 := by
  induction iov generalizing s printed with
  | nil =>
    cases h
    rfl
  | cons v iov ih =>
    obtain ⟨⟨returned, calls, s1⟩, hwrite, hrest⟩ := bind_eq_ok.mp h
    have hkeeps := volumeWrite_keeps hwrite
    have hzero := volumeWrite_bad hbad hwrite
    rw [if_pos hfat] at hzero
    subst hzero
    exact ih (hkeeps.designates.not.mpr hbad) (hkeeps.implementation.trans hfat) hrest

/-- Elsewhere every piece takes between 1 and 22 from it. -/
theorem writevLoop_error (hbad : ¬ s.Designates handle)
    (hfat : s.implementation handle ≠ some .fat) (hn : n + 22 * iov.length < 2 ^ 64)
    (h : writevLoop handle iov ((2 ^ 64 - n) % 2 ^ 64) printed s = .ok (total, calls, s')) :
    ∃ m, n + iov.length ≤ m ∧ m ≤ n + 22 * iov.length ∧ total = (2 ^ 64 - m) % 2 ^ 64 := by
  induction iov generalizing s printed n with
  | nil =>
    cases h
    exact ⟨n, le_rfl, le_rfl, rfl⟩
  | cons v iov ih =>
    obtain ⟨⟨returned, calls, s1⟩, hwrite, hrest⟩ := bind_eq_ok.mp h
    have hkeeps := volumeWrite_keeps hwrite
    have herror := volumeWrite_bad hbad hwrite
    rw [if_neg hfat] at herror
    rw [List.length_cons] at hn
    obtain ⟨d, hd, hd', hadd⟩ : ∃ d, 1 ≤ d ∧ d ≤ 22 ∧
        add64 ((2 ^ 64 - n) % 2 ^ 64) returned = (2 ^ 64 - (n + d)) % 2 ^ 64 := by
      unfold einval at herror
      unfold add64
      obtain rfl | rfl := herror
      · exact ⟨22, by omega, by omega, by omega⟩
      · exact ⟨1, by omega, by omega, by omega⟩
    dsimp only at hrest
    rw [hadd] at hrest
    obtain ⟨m, hle, hle', rfl⟩ := ih (hkeeps.designates.not.mpr hbad)
      (hkeeps.implementation.trans_ne hfat) (by omega) hrest
    rw [List.length_cons]
    exact ⟨m, by omega, by omega, rfl⟩

end Writev

section Safe
variable {depth fd : ℕ} {devices : Devices} {s s' : System} {c : Call} {answer : Answer}

theorem call_returns (devices : Devices) :
    Succeeds (call depth devices fd s c) ↔ c.Returns s (c.handle fd) depth := by
  cases c with
  | read dataSize =>
    exact (succeeds_bind fun _ => succeeds_pure _).trans volumeRead_returns
  | pread64 dataSize offset =>
    exact (succeeds_bind fun _ => succeeds_pure _).trans volumeRead_returns
  | write data dataSize =>
    exact (succeeds_bind fun _ => succeeds_pure _).trans volumeWrite_returns
  | writev iov => exact (succeeds_bind fun _ => succeeds_pure _).trans writevLoop_returns
  | lseek offset origin =>
    simp only [call, sysLseek, Call.Returns, Call.handle]
    cases seekMode origin with
    | none => simp
    | some mode =>
      simp only [ne_eq, reduceCtorEq, not_false_iff, forall_const]
      exact (succeeds_bind fun _ => succeeds_pure _).trans volumeSeek_returns
  | ioctl cmd => exact (succeeds_bind fun _ => succeeds_pure _).trans volumeCommand_returns
  | newfstatat => exact (succeeds_bind fun _ => succeeds_pure _).trans volumeGetSize_returns
  | close => exact (succeeds_bind fun _ => succeeds_pure _).trans volumeCloseHandle_returns

theorem isError_long {n : ℕ} {data : List UInt8} {printed : List ConsoleCall} :
    (Answer.mk n data printed).IsError ↔ 2 ^ 63 ≤ n % 2 ^ 64 := by
  unfold Answer.IsError unsigned64 signed64
  dsimp only
  split_ifs <;> omega

theorem isError_signed32 {r : ℕ} {data : List UInt8} {printed : List ConsoleCall}
    (h : r = einval ∨ r = 2 ^ 64 - 1) : (Answer.mk (signed32 r) data printed).IsError := by
  unfold Answer.IsError
  dsimp only
  obtain rfl | rfl := h <;> decide

theorem not_isError_zero {data : List UInt8} {printed : List ConsoleCall} :
    ¬ (Answer.mk 0 data printed).IsError := by
  unfold Answer.IsError
  dsimp only
  decide

theorem long_error {r : ℕ} (h : r = einval ∨ r = 2 ^ 64 - 1) : 2 ^ 63 ≤ r % 2 ^ 64 := by
  obtain rfl | rfl := h <;> decide

/-- What reads and writes of a bad handle return is an error unless the volume is FAT. -/
theorem isError_iff_fat {returned handle : ℕ} {data : List UInt8} {printed : List ConsoleCall}
    (cast : ℕ → ℤ) (hzero : cast 0 = 0)
    (hcast : ∀ r, r = einval ∨ r = 2 ^ 64 - 1 → (Answer.mk (cast r) data printed).IsError)
    (h : if s.implementation handle = some .fat then returned = 0
      else returned = einval ∨ returned = 2 ^ 64 - 1) :
    (Answer.mk (cast returned) data printed).IsError ↔ s.implementation handle ≠ some .fat := by
  split_ifs at h with hfat
  · subst h
    rw [hzero]
    exact iff_of_false not_isError_zero (not_not.mpr hfat)
  · exact iff_of_true (hcast returned h) hfat

/-- Which of the calls that return answer a bad descriptor with an error. -/
theorem isError_iff_reports (hiov : ∀ iov, c = .writev iov → iov.length < 2 ^ 31)
    (hbad : ¬ s.Designates (c.handle fd))
    (h : call depth devices fd s c = .ok (answer, s')) :
    answer.IsError ↔ c.Reports s (c.handle fd) := by
  cases c with
  | read dataSize =>
    obtain ⟨⟨returned, data, s1⟩, hrun, h⟩ := bind_eq_ok.mp h
    cases h
    exact isError_iff_fat signed32 rfl (fun r => isError_signed32) (volumeRead_bad hbad hrun)
  | pread64 dataSize offset =>
    obtain ⟨⟨returned, data, s1⟩, hrun, h⟩ := bind_eq_ok.mp h
    cases h
    exact isError_iff_fat Nat.cast rfl (fun r hr => isError_long.mpr (long_error hr))
      (volumeRead_bad hbad hrun)
  | write data dataSize =>
    obtain ⟨⟨returned, calls, s1⟩, hrun, h⟩ := bind_eq_ok.mp h
    cases h
    exact isError_iff_fat signed32 rfl (fun r => isError_signed32) (volumeWrite_bad hbad hrun)
  | writev iov =>
    obtain ⟨⟨total, calls, s1⟩, hrun, h⟩ := bind_eq_ok.mp h
    cases h
    have hlength := hiov iov rfl
    by_cases hfat : s.implementation (ofInt fd) = some .fat
    · obtain rfl := writevLoop_fat hbad hfat hrun
      exact iff_of_false not_isError_zero fun hreports => hreports.2 hfat
    · obtain ⟨m, hle, hle', rfl⟩ := writevLoop_error (n := 0) hbad hfat (by omega) hrun
      refine isError_long.trans ⟨fun hlarge => ⟨?_, hfat⟩, fun hreports => ?_⟩
      · apply List.length_pos_iff.mp
        omega
      · have hpos := List.length_pos_iff.mpr hreports.1
        omega
  | lseek offset origin =>
    refine iff_of_true ?_ trivial
    simp only [call, sysLseek] at h
    cases hmode : seekMode origin with
    | none =>
      rw [hmode] at h
      cases h
      exact isError_signed32 (r := einval) (Or.inl rfl)
    | some mode =>
      rw [hmode] at h
      obtain ⟨⟨returned, s1⟩, hrun, h⟩ := bind_eq_ok.mp h
      obtain rfl := volumeSeek_bad hbad hrun
      cases h
      exact isError_signed32 (Or.inl rfl)
  | ioctl cmd =>
    obtain ⟨returned, hrun, h⟩ := bind_eq_ok.mp h
    obtain rfl := volumeCommand_bad hbad hrun
    cases h
    exact iff_of_true (isError_signed32 (Or.inl rfl)) trivial
  | newfstatat =>
    obtain ⟨returned, hrun, h⟩ := bind_eq_ok.mp h
    obtain rfl := volumeGetSize_bad hbad hrun
    cases h
    exact iff_of_true (isError_signed32 (r := einval) (Or.inl rfl)) trivial
  | close =>
    obtain ⟨s1, -, h⟩ := bind_eq_ok.mp h
    cases h
    exact iff_of_false not_isError_zero id

end Safe

end Enkel.VolumeCalls
