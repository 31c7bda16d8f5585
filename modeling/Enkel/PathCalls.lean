import Enkel.DescriptorSafety

/-!
The system calls on paths. Each of them asks VolumeOpenHandle and then has a test of its
own for failure: sys_open and sys_access take 0 for it, sys_openat takes a negative
number for it, which a handle without a sign never is. A volume fails with 0 or with a
negative errno.
-/
namespace Enkel.VolumeCalls

open Outcome Paging VolumeSystem FileHandleMask StandardStreams BitFields
open FileMapping (Fil FileHandles)

section Calls
variable (depth : ℕ) (devices : Devices) (xxh64 : List ℕ → ℕ) (filename : ℕ → UInt8)
  (s : System)

/-- The path that is looked up: a dot in front is skipped, and the rest is widened into
256 characters with the NUL. -/
def wideName : Except Fault (List ℕ) := do
  let filename := if filename 0 = 0x2E then fun i => filename (i + 1) else filename
  let wideName := asciiToWide filename 256
  require (wideName.length < 256) .bufferOverflow
  return wideName

/-- The call of VolumeOpenHandle that the three calls share. -/
def openPath : Except Fault (Opened × System) := do
  let wideName ← wideName filename
  s.volumeOpenHandle depth devices xxh64 0 wideName

def sysOpen : Except Fault (ℤ × System) := do
  let (opened, s) ← openPath depth devices xxh64 filename s
  let handle := opened.value
  if handle = 0 then return (-2, s) else return (0, s)

/-- The test `handle < 0` of sys_openat is of a number without a sign. -/
def sysOpenat : Except Fault (ℤ × System) := do
  let (opened, s) ← openPath depth devices xxh64 filename s
  let handle := opened.value
  if handle < 0 then return (-2, s) else return (signed32 handle, s)

def sysAccess : Except Fault (ℤ × System) := do
  let (opened, s) ← openPath depth devices xxh64 filename s
  let handle := opened.value
  if handle = 0 then
    return (-2, s)
  else do
    let s ← s.volumeCloseHandle depth handle
    return (0, s)

end Calls

/-- A descriptor is the handle of the file that was opened; without one there is a
negative errno. -/
def Opened.Agrees (returned : ℤ) : Opened → Prop
  | file handle => unsigned64 returned = handle
  | nothing _ => returned < 0

/-- The call returns 0 when a file was opened, and only then. -/
def Opened.AgreesAccess (returned : ℤ) : Opened → Prop
  | file _ => returned = 0
  | nothing _ => returned ≠ 0

section Agree
variable (depth : ℕ) (devices : Devices) (xxh64 : List ℕ → ℕ) (filename : ℕ → UInt8)
  (s : System)

/-- VolumeOpenHandle returns for the path, and so does a call, in agreement. -/
def CallAgrees (call : Except Fault (ℤ × System)) (agrees : ℤ → Opened → Prop) : Prop :=
  ∃ opened s1 returned s2, openPath depth devices xxh64 filename s = .ok (opened, s1) ∧
    call = .ok (returned, s2) ∧ agrees returned opened

def OpenAgrees : Prop :=
  CallAgrees depth devices xxh64 filename s (sysOpen depth devices xxh64 filename s)
    fun returned opened => opened.Agrees returned

def OpenatAgrees : Prop :=
  CallAgrees depth devices xxh64 filename s (sysOpenat depth devices xxh64 filename s)
    fun returned opened => opened.Agrees returned

def AccessAgrees : Prop :=
  CallAgrees depth devices xxh64 filename s (sysAccess depth devices xxh64 filename s)
    fun returned opened => opened.AgreesAccess returned

/-- The three calls agree with the volumes. -/
structure PathCallsAgree : Prop where
  sysOpen : OpenAgrees depth devices xxh64 filename s
  sysOpenat : OpenatAgrees depth devices xxh64 filename s
  sysAccess : AccessAgrees depth devices xxh64 filename s

end Agree

section Lookup
variable {V : Type} {xxh64 : List ℕ → ℕ} {pages : VolumeIndices V} {path : List ℕ}

theorem hit_handle_lt {c : Cursor} (h : c.handle < 2 ^ 31) (index pageIndex : ℕ) :
    (c.hit index pageIndex).handle < 2 ^ 31 :=
  setField_lt (by decide) (setField_lt (by decide) (setField_lt (by decide) h))

theorem scanPage_handle_lt {page : ℕ → VolumeIndex V} {hash index slots pageIndex : ℕ}
    {c : Cursor} (h : c.handle < 2 ^ 31) :
    (scanPage page hash index slots pageIndex c).handle < 2 ^ 31 := by
  induction slots generalizing pageIndex c with
  | zero => exact h
  | succ slots ih =>
    unfold scanPage
    split_ifs
    · exact ih (hit_handle_lt h index pageIndex)
    · exact h
    · exact ih h

theorem breakPath_handle_lt :
    Meets (fun _ => True) (fun r => r.1 < 2 ^ 31) (breakPath xxh64 pages path) := by
  unfold breakPath
  refine meets_bind (meets_foldlM (R := fun c (_ : Unit) => c.handle < 2 ^ 31)
    (g := fun t _ => t) _ (fun index _ c _ hc => ?_) (t := ()) (by decide))
    fun c hc => meets_pure hc
  unfold breakPathTurn
  refine meets_bind (meets_self _) fun char _ => meets_ite (fun _ => ?_) fun _ => meets_pure hc
  refine meets_require (fun _ => trivial) fun _ => meets_pure ?_
  exact scanPage_handle_lt hc

end Lookup

variable {depth : ℕ} {devices : Devices} {xxh64 : List ℕ → ℕ} {filename : ℕ → UInt8}
  {s : System} {path : List ℕ} {handle : ℕ} {opened : Opened}

/-- What VolumeOpenHandle can return. -/
def Opened.Fits : Opened → Prop
  | file handle => handle < 2 ^ 31
  | nothing value => value = 0 ∨ value = enoent ∨ value = einval

theorem fatOpenHandle_fits (hhandle : handle < 2 ^ 31) {files : FileHandles}
    {fOpen : List ℕ → Option Contents} :
    Meets (fun _ => True) (fun r => r.1.Fits) (fatOpenHandle files fOpen handle path) := by
  unfold fatOpenHandle
  refine meets_require (fun _ => trivial) fun _ => ?_
  cases freeSlot files with
  | none => exact meets_pure (Or.inl rfl)
  | some i =>
    dsimp only
    cases fOpen (slash :: path) with
    | none => exact meets_pure (Or.inl rfl)
    | some contents => exact meets_pure (setField_lt (by decide) hhandle)

theorem openHandle_fits (hhandle : handle < 2 ^ 31) (volume : Volume) :
    Meets (fun _ => True) (fun r => r.1.Fits) (volume.openHandle depth devices s handle path) := by
  cases volume with
  | standardIo =>
    apply meets_ok
    unfold Opened.Fits
    dsimp only
    split_ifs <;> decide
  | specialProc =>
    unfold Volume.openHandle
    cases procSpecialPaths.findIdx? (SameText · path) with
    | none => exact meets_ok (Or.inr (Or.inl rfl))
    | some index => exact meets_ok (setField_lt (by decide) hhandle)
  | device =>
    unfold Volume.openHandle
    cases deviceSpecialPaths.findIdx? (SameText · path) with
    | none => exact meets_ok (Or.inr (Or.inl rfl))
    | some index =>
      refine meets_bind (meets_self _) fun _ _ => meets_bind (meets_self _) fun _ _ => ?_
      refine meets_bind (meets_self _) fun _ _ => meets_pure ?_
      exact setField_lt (by decide) (setField_lt (by decide) hhandle)
  | fat => exact meets_bind (fatOpenHandle_fits hhandle) fun r hr => meets_pure hr
  | cdrom => exact meets_ok hhandle

theorem openPath_fits :
    Meets (fun _ => True) (fun r => r.1.Fits) (openPath depth devices xxh64 filename s) := by
  refine meets_bind (meets_self _) fun path _ => ?_
  unfold System.volumeOpenHandle
  rw [if_pos rfl]
  refine meets_bind (R := fun r => r.1 < 2 ^ 31) ?_ fun ⟨handle, base⟩ hr => ?_
  · exact meets_true_iff.mpr fun r hr =>
      meets_true_iff.mp breakPath_handle_lt r (mapError_eq_ok.mp hr)
  · dsimp only
    rw [volumeOf_implementation, ok_bind]
    cases s.implementation handle with
    | none => exact meets_pure (Or.inr (Or.inr rfl))
    | some volume => exact openHandle_fits hr volume

section Agreement
variable {s1 : System} {call : Except Fault (ℤ × System)} {agrees : ℤ → Opened → Prop}

theorem callAgrees_iff (h : openPath depth devices xxh64 filename s = .ok (opened, s1)) :
    CallAgrees depth devices xxh64 filename s call agrees ↔
      ∃ returned s2, call = .ok (returned, s2) ∧ agrees returned opened := by
  unfold CallAgrees
  rw [h]
  constructor
  · rintro ⟨_, _, returned, s2, heq, hcall, hagrees⟩
    cases heq
    exact ⟨returned, s2, hcall, hagrees⟩
  · rintro ⟨returned, s2, hcall, hagrees⟩
    exact ⟨opened, s1, returned, s2, rfl, hcall, hagrees⟩

theorem unsigned64_natCast {n : ℕ} (h : n < 2 ^ 64) : unsigned64 n = n := by
  unfold unsigned64
  omega

theorem signed32_natCast {n : ℕ} (h : n < 2 ^ 31) : signed32 n = n := by
  unfold signed32
  rw [Nat.mod_eq_of_lt (by omega), if_pos h]
  omega

/-- sys_open never returns the handle of a file, and reports no other failure than 0. -/
theorem openAgrees_iff (h : openPath depth devices xxh64 filename s = .ok (opened, s1)) :
    OpenAgrees depth devices xxh64 filename s ↔ opened = .nothing 0 := by
  have hopen : sysOpen depth devices xxh64 filename s =
      .ok (if opened.value = 0 then -2 else 0, s1) := by
    unfold sysOpen
    rw [h, ok_bind]
    dsimp only
    split_ifs <;> rfl
  unfold OpenAgrees
  rw [callAgrees_iff h, hopen]
  constructor
  · rintro ⟨returned, s2, heq, hagrees⟩
    cases heq
    cases opened with
    | file handle =>
      unfold Opened.Agrees Opened.value at hagrees
      split_ifs at hagrees with hzero
      · subst hzero
        exact absurd hagrees (by decide)
      · exact absurd hagrees.symm hzero
    | nothing value =>
      unfold Opened.Agrees Opened.value at hagrees
      split_ifs at hagrees with hzero
      · exact congrArg Opened.nothing hzero
      · exact absurd hagrees (lt_irrefl 0)
  · rintro rfl
    exact ⟨_, _, rfl, show (-2 : ℤ) < 0 by decide⟩

/-- sys_openat agrees unless a volume fails with 0. -/
theorem openatAgrees_iff (h : openPath depth devices xxh64 filename s = .ok (opened, s1)) :
    OpenatAgrees depth devices xxh64 filename s ↔ opened ≠ .nothing 0 := by
  have hfits : opened.Fits := openPath_fits.of_eq_ok h
  have hopenat : sysOpenat depth devices xxh64 filename s =
      .ok (signed32 opened.value, s1) := by
    unfold sysOpenat
    rw [h, ok_bind]
    rfl
  unfold OpenatAgrees
  rw [callAgrees_iff h, hopenat]
  constructor
  · rintro ⟨returned, s2, heq, hagrees⟩ rfl
    cases heq
    exact absurd hagrees (show ¬ signed32 0 < 0 by decide)
  · intro hne
    refine ⟨_, _, rfl, ?_⟩
    cases opened with
    | file handle =>
      unfold Opened.Agrees Opened.value
      dsimp only
      rw [signed32_natCast hfits, unsigned64_natCast (hfits.trans (by decide))]
    | nothing value =>
      obtain rfl | rfl | rfl := hfits
      · exact absurd rfl hne
      · exact show signed32 enoent < 0 by decide
      · exact show signed32 einval < 0 by decide

/-- sys_access agrees on the failure 0, and on a file whose handle is not 0 and is closed
again. -/
theorem accessAgrees_iff (h : openPath depth devices xxh64 filename s = .ok (opened, s1)) :
    AccessAgrees depth devices xxh64 filename s ↔ opened = .nothing 0 ∨
      ∃ handle, handle ≠ 0 ∧ opened = .file handle ∧ s1.Closes handle depth := by
  have haccess : sysAccess depth devices xxh64 filename s =
      if opened.value = 0 then .ok (-2, s1)
      else s1.volumeCloseHandle depth opened.value >>= fun s => pure (0, s) := by
    unfold sysAccess
    rw [h, ok_bind]
    rfl
  unfold AccessAgrees
  rw [callAgrees_iff h, haccess]
  constructor
  · rintro ⟨returned, s2, hcall, hagrees⟩
    split_ifs at hcall with hzero
    · cases hcall
      cases opened with
      | file handle => exact absurd hagrees (show (-2 : ℤ) ≠ 0 by decide)
      | nothing value => exact Or.inl (congrArg Opened.nothing hzero)
    · obtain ⟨s3, hclose, heq⟩ := bind_eq_ok.mp hcall
      cases heq
      cases opened with
      | file handle => exact Or.inr ⟨handle, hzero, rfl, volumeCloseHandle_returns.mp ⟨_, hclose⟩⟩
      | nothing value => exact absurd rfl hagrees
  · rintro (rfl | ⟨handle, hne, rfl, hcloses⟩)
    · exact ⟨_, _, if_pos rfl, show (-2 : ℤ) ≠ 0 by decide⟩
    · obtain ⟨s2, hclose⟩ := volumeCloseHandle_returns.mpr hcloses
      refine ⟨0, s2, (if_neg hne).trans ?_, rfl⟩
      exact bind_eq_ok.mpr ⟨s2, hclose, rfl⟩

end Agreement

/-- When each of the three calls agrees with the outcome of VolumeOpenHandle. Whatever is
mounted and whatever the path is, not all three do: sys_open agrees on the failure 0
only, and sys_openat on everything else. -/
theorem path_calls_never_agree (depth : ℕ) (devices : Devices) (xxh64 : List ℕ → ℕ)
    (filename : ℕ → UInt8) (s : System) :
    (∀ opened s1, openPath depth devices xxh64 filename s = .ok (opened, s1) →
      (OpenAgrees depth devices xxh64 filename s ↔ opened = .nothing 0) ∧
      (OpenatAgrees depth devices xxh64 filename s ↔ opened ≠ .nothing 0) ∧
      (AccessAgrees depth devices xxh64 filename s ↔ opened = .nothing 0 ∨
        ∃ handle, handle ≠ 0 ∧ opened = .file handle ∧ s1.Closes handle depth)) ∧
    ¬ PathCallsAgree depth devices xxh64 filename s := by
  refine ⟨fun opened s1 h => ⟨openAgrees_iff h, openatAgrees_iff h, accessAgrees_iff h⟩, ?_⟩
  rintro ⟨hopen, hopenat, -⟩
  obtain ⟨opened, s1, -, -, h, -⟩ := id hopen
  exact (openatAgrees_iff h).mp hopenat ((openAgrees_iff h).mp hopen)

/-- The path of a file that FAT does not have. -/
def missing (i : ℕ) : UInt8 := if i = 0 then 0x2F else if i = 1 then 0x78 else 0

theorem fatOpenHandle_missing :
    fatOpenHandle lettersOpen.fileHandles noDevices.fOpen lettersHandle [0x2F, 0x78] =
      .ok (.nothing 0, lettersOpen.fileHandles) := by
  have hfree : freeSlot lettersOpen.fileHandles = some 1 := by decide +kernel
  unfold fatOpenHandle
  rw [hfree]
  rfl

theorem openPath_missing : openPath 0 noDevices (fun _ => 1) missing lettersOpen =
    .ok (.nothing 0, lettersOpen) := by
  have hwide : wideName missing = .ok [0x2F, 0x78] := by
    have hlength : asciiToWide missing 256 = [0x2F, 0x78] := by decide +kernel
    unfold wideName
    rw [if_neg (by decide)]
    dsimp only
    rw [hlength]
    rfl
  have hbreak : breakPath (fun _ => 1) lettersOpen.volumeIndices [0x2F, 0x78] =
      .ok (lettersHandle, 0) := rfl
  have hvolume : lettersOpen.volumeOf lettersHandle = .ok (some (.fat, 0)) := rfl
  unfold openPath System.volumeOpenHandle
  rw [hwide, ok_bind, if_pos rfl, hbreak, mapError_ok, ok_bind]
  dsimp only
  rw [hvolume, ok_bind]
  simp only [Volume.openHandle, List.drop_zero, fatOpenHandle_missing, ok_bind]
  rfl

/-- sys_openat of it returns 0, which is no errno. -/
theorem openat_missing_returns_zero :
    ¬ PathCallsAgree 0 noDevices (fun _ => 1) missing lettersOpen := by
  intro h
  exact (openatAgrees_iff openPath_missing).mp h.sysOpenat rfl

end Enkel.VolumeCalls
